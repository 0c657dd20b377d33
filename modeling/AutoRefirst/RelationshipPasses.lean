import AutoRefirst.DirectoryRelationships

/-!
# What the relationship passes emit

Rules for the nine passes of `build_directory_relationships`: what every effect preserves is
preserved by the whole build, and every relationship that a pass emits asks for priority
only where its state and its evidence allow it.
-/

namespace AutoRefirst.DirectoryRelationships
open List

structure PassEffects (v : View) (Q : Effect→Prop) : Prop where
  unreal : ∀ r∈v.reports, ∀ f ∈ unrealEffects v r, Q f
  il2cpp : ∀ r∈v.reports, ∀ f ∈ il2cppEffects v r, Q f
  mono : ∀ root∈v.reports.zipIdx, ∀ f ∈ monoEffects v root, Q f
  materialization : ∀ role, ∀ r∈v.reports, ∀ f ∈ materializationEffects v role r, Q f
  references : ∀ role, ∀ item ∈ referenceItems v.reports, ∀ f ∈ referenceEffects v role item, Q f
  loader : ∀ role, ∀ r∈v.reports, ∀ f ∈ loaderEffects v role r, Q f
  wasm : ∀ role, ∀ r∈v.reports, ∀ f ∈ wasmEffects v role r, Q f
  interpreter : ∀ role, ∀ r∈v.reports, ∀ f ∈ interpreterEffects v role r, Q f
  stem : ∀ role, ∀ i ∈ List.range v.plan.candidates.length, ∀ f ∈ stemEffects v role i, Q f

section Invariants

variable {v : View} {Q : Effect→Prop} {P : Build→Prop} {b : Build}

theorem runPass_invariant {ι:Type*} {effects:(ℕ → String) → ι → List Effect} {items:List ι}
    (hQ:∀role,∀item∈items,∀f∈effects role item,Q f)
    (hstep:∀b f,Q f → P b → P (b.apply v f)) (hb:P b) : P (runPass v effects items b):=by
  unfold runPass
  apply foldlRecOn items _ hb
  intro b hb item hitem
  apply foldlRecOn (effects b.role item) _ hb
  intro b' hb' f hf
  exact hstep b' f (hQ b.role item hitem f hf) hb'

theorem runPasses_invariant (hQ:PassEffects v Q)
    (hstep:∀b f,Q f → P b → P (b.apply v f)) (hb:P b) : P (runPasses v b):=by
  unfold runPasses
  apply runPass_invariant hQ.stem hstep
  apply runPass_invariant hQ.interpreter hstep
  apply runPass_invariant hQ.wasm hstep
  apply runPass_invariant hQ.loader hstep
  apply runPass_invariant hQ.references hstep
  apply runPass_invariant hQ.materialization hstep
  apply runPass_invariant (fun _=>hQ.mono) hstep
  apply runPass_invariant (fun _=>hQ.il2cpp) hstep
  exact runPass_invariant (fun _=>hQ.unreal) hstep hb

end Invariants

def strongRelation (x : DirectoryRelationship) : Bool :=
  x.priorityEligible && x.state == .confirmed

/-- What a relationship that is to be emitted has to keep to. -/
structure Emission.Sound (cap : ℤ) (e : Emission) : Prop where
  strong : e.strongPriority=true →
    strongRelation e.relation = true ∧
      e.relation.evidenceLevel = "R4_SEMANTIC_APPLICATION_RELATION"
  weak : e.strongPriority=false → strongRelation e.relation = false ∧ e.relationshipCap ≤ cap
  ambiguous : e.relation.ambiguity ≠ "NONE" → e.relation.priorityEligible=false

/-- An effect that a pass may have: a sound emission, or the mutation of a Unity executable
and of a managed payload that belongs to it. -/
def Effect.Sound (v : View) (cap : ℤ) : Effect → Prop
  | .emit e => e.Sound cap
  | .confirmMono root managed managedPath _ =>
    ∃ r m, v.reports[root]? = some r ∧ v.reports[managed]? = some m ∧
      indexUnityExecutableRoot v.fs r = true ∧
      indexUnityManagedMatchesExecutable v.fs r.input m = true ∧ managedPath = m.input
  | _ => True

def relationshipCaps (reports : List DirectoryReportIndex) : ℤ :=
  (20 :: (referenceItems reports).map fun item => item.2.priorityCap).max (cons_ne_nil _ _)

theorem relationshipCaps_ge (reports:List DirectoryReportIndex) : 20 ≤ relationshipCaps reports:=
  le_max_of_mem mem_cons_self

theorem priorityCap_le {reports:List DirectoryReportIndex}
    {item:DirectoryReportIndex×RelationshipReferenceEvidence}
    (h:item∈referenceItems reports) : item.2.priorityCap ≤ relationshipCaps reports:=
  le_max_of_mem (mem_cons_of_mem 20
    (mem_map_of_mem (f:=fun item=>item.2.priorityCap) h))

section Passes

variable {v : View} {role : ℕ→String} {cap : ℤ} {e : Emission}

theorem Emission.Sound.of_not_eligible (hstrong:e.strongPriority=false)
    (heligible:e.relation.priorityEligible=false) (hcap:e.relationshipCap ≤ cap) :
    e.Sound cap:=by
  refine ⟨?_,?_,fun _=>heligible⟩
  · simp [hstrong]
  · intro _
    exact ⟨by simp [strongRelation,heligible],hcap⟩

theorem Emission.Sound.of_bounded (hstrong:e.strongPriority=false)
    (hstate:e.relation.state=.bounded) (hambiguity:e.relation.ambiguity = "NONE")
    (hcap:e.relationshipCap ≤ cap) : e.Sound cap:=by
  refine ⟨?_,?_,fun h=>absurd hambiguity h⟩
  · simp [hstrong]
  · intro _
    exact ⟨by simp [strongRelation,hstate],hcap⟩

theorem Emission.Sound.of_confirmed (hstrong:e.strongPriority=true)
    (hstate:e.relation.state=.confirmed) (heligible:e.relation.priorityEligible=true)
    (hlevel:e.relation.evidenceLevel = "R4_SEMANTIC_APPLICATION_RELATION")
    (hambiguity:e.relation.ambiguity = "NONE") : e.Sound cap:=by
  refine ⟨fun _=>⟨?_,hlevel⟩,?_,fun h=>absurd hambiguity h⟩
  · simp [strongRelation,hstate,heligible]
  · simp [hstrong]

variable {f : Effect}

theorem emitAmbiguous_sound (hcap:20 ≤ cap) {sourcePath:NativePath} {candidates:List ℕ}
    {kind sourceRole basis evidenceSource sourceCoord level relevance reason:String}
    (hf:f∈emitAmbiguous v role sourcePath candidates kind sourceRole basis evidenceSource
      sourceCoord level relevance reason) : f.Sound v cap:=by
  unfold emitAmbiguous at hf
  split at hf
  · cases hf
  · rcases mem_cons.mp hf with rfl | hf
    · trivial
    · obtain ⟨dst,-,rfl⟩:=mem_map.mp hf
      exact .of_not_eligible rfl rfl hcap

variable {r : DirectoryReportIndex}

theorem unrealEffects_sound (hcap:20 ≤ cap) (hf:f∈unrealEffects v r) : f.Sound v cap:=by
  unfold unrealEffects at hf
  split at hf
  · cases hf
  rcases mem_cons.mp hf with rfl | hf
  · trivial
  split at hf
  · cases hf
  obtain ⟨p,-,hf⟩:=mem_flatMap.mp hf
  split at hf
  · cases hf
  rcases mem_cons.mp hf with rfl | hf
  · trivial
  split at hf
  · cases hf
  obtain rfl:=mem_singleton.mp hf
  exact .of_not_eligible rfl rfl hcap

theorem il2cppEffects_sound (hf:f∈il2cppEffects v r) : f.Sound v cap:=by
  unfold il2cppEffects at hf
  split at hf
  · cases hf
  rcases mem_cons.mp hf with rfl | hf
  · trivial
  split at hf
  · obtain rfl:=mem_singleton.mp hf
    exact .of_confirmed rfl rfl rfl rfl rfl
  · cases hf

theorem monoEffects_sound {root:DirectoryReportIndex×ℕ} (hroot:root∈v.reports.zipIdx)
    (hf:f∈monoEffects v root) : f.Sound v cap:=by
  unfold monoEffects at hf
  dsimp only at hf
  split at hf
  · cases hf
  rename_i hexecutable
  split at hf
  · cases hf
  rename_i managed m hmanaged
  split at hf
  · cases hf
  rcases mem_cons.mp hf with rfl | hf
  · trivial
  split at hf
  · simp only [mem_cons,not_mem_nil,or_false] at hf
    rcases hf with rfl | rfl | rfl | rfl | rfl
    · have hm : (managed,m)∈v.reports.zipIdx:=mem_of_find?_eq_some hmanaged
      have hmatch:=find?_some hmanaged
      simp only [Bool.and_eq_true] at hmatch
      exact ⟨root.1,managed,mem_zipIdx_iff_getElem?.mp hroot,
        mem_zipIdx_iff_getElem?.mp hm,by simpa using hexecutable,hmatch.2,rfl⟩
    · trivial
    · trivial
    · exact .of_confirmed rfl rfl rfl rfl rfl
    · exact .of_confirmed rfl rfl rfl rfl rfl
  · cases hf

theorem materializationEffects_sound (hcap:20 ≤ cap) (hf:f∈materializationEffects v role r) :
    f.Sound v cap:=by
  unfold materializationEffects at hf
  rcases mem_append.mp hf with hf | hf
  · obtain ⟨a,-,rfl⟩:=mem_map.mp hf
    exact .of_not_eligible rfl rfl hcap
  · obtain ⟨g,-,rfl⟩:=mem_map.mp hf
    exact .of_not_eligible rfl rfl hcap

theorem gdextensionEffects_sound (hcap:20 ≤ cap) {ref:RelationshipReferenceEvidence} {dst:ℕ}
    (hf:f∈gdextensionEffects v role r ref dst) : f.Sound v cap:=by
  unfold gdextensionEffects at hf
  dsimp only at hf
  split at hf
  · simp only [mem_cons,not_mem_nil,or_false] at hf
    rcases hf with rfl | rfl
    · trivial
    · exact .of_confirmed rfl rfl rfl rfl rfl
  · obtain rfl:=mem_singleton.mp hf
    exact .of_not_eligible rfl rfl hcap

theorem referenceEffects_sound (hcap:20 ≤ cap)
    {item:DirectoryReportIndex×RelationshipReferenceEvidence} (href:item.2.priorityCap ≤ cap)
    (hf:f∈referenceEffects v role item) :
    f.Sound v cap:=by
  unfold referenceEffects at hf
  dsimp only at hf
  split at hf
  · cases hf
  rcases mem_cons.mp hf with rfl | hf
  · trivial
  split at hf
  · cases hf
  · split at hf
    · exact gdextensionEffects_sound hcap hf
    · obtain rfl:=mem_singleton.mp hf
      exact .of_bounded rfl rfl rfl href
  · exact emitAmbiguous_sound hcap hf

variable {src : ℕ}

theorem elfInterpreterEffects_sound (hcap:20 ≤ cap)
    (hf:f∈elfInterpreterEffects v role src r) : f.Sound v cap:=by
  unfold elfInterpreterEffects at hf
  dsimp only at hf
  split at hf
  · cases hf
  rcases mem_cons.mp hf with rfl | hf
  · trivial
  split at hf
  · cases hf
  · split at hf
    · cases hf
    split at hf
    · cases hf
    obtain rfl:=mem_singleton.mp hf
    exact .of_bounded rfl rfl rfl hcap
  · exact emitAmbiguous_sound hcap hf

theorem elfNeededEffects_sound (hcap:20 ≤ cap) {needed:String}
    (hf:f∈elfNeededEffects v role src r needed) :
    f.Sound v cap:=by
  unfold elfNeededEffects at hf
  dsimp only at hf
  rcases mem_cons.mp hf with rfl | hf
  · trivial
  split at hf
  · cases hf
  · split at hf
    · cases hf
    split at hf
    · cases hf
    obtain rfl:=mem_singleton.mp hf
    exact .of_bounded rfl rfl rfl hcap
  · exact emitAmbiguous_sound hcap hf

theorem peModuleEffects_sound (hcap:20 ≤ cap)
    {mod kind ambiguousCoord sourceCoord evidenceSource basis ambiguousBasis scope ambiguousReason
      reason : String}
    (hf:f∈peModuleEffects v role src r mod kind ambiguousCoord sourceCoord evidenceSource
      basis ambiguousBasis scope ambiguousReason reason) : f.Sound v cap:=by
  unfold peModuleEffects at hf
  dsimp only at hf
  split at hf
  · cases hf
  rcases mem_cons.mp hf with rfl | hf
  · trivial
  split at hf
  · cases hf
  · obtain rfl:=mem_singleton.mp hf
    exact .of_bounded rfl rfl rfl hcap
  · exact emitAmbiguous_sound hcap hf

theorem loaderEffects_sound (hcap:20 ≤ cap) (hf:f∈loaderEffects v role r) : f.Sound v cap:=by
  unfold loaderEffects at hf
  split at hf
  · cases hf
  rcases mem_append.mp hf with hf | hf
  · split at hf
    · rcases mem_append.mp hf with hf | hf
      · exact elfInterpreterEffects_sound hcap hf
      · obtain ⟨needed,-,hf⟩:=mem_flatMap.mp hf
        exact elfNeededEffects_sound hcap hf
    · cases hf
  · split at hf
    · rcases mem_append.mp hf with hf | hf
      · obtain ⟨m,-,hf⟩:=mem_flatMap.mp hf
        exact peModuleEffects_sound hcap hf
      · obtain ⟨mod,-,hf⟩:=mem_flatMap.mp hf
        exact peModuleEffects_sound hcap hf
    · cases hf

theorem wasmEffects_sound (hcap:20 ≤ cap) (hf:f∈wasmEffects v role r) : f.Sound v cap:=by
  unfold wasmEffects at hf
  split at hf
  · cases hf
  split at hf
  · cases hf
  obtain ⟨imp,-,hf⟩:=mem_flatMap.mp hf
  unfold wasmImportEffects at hf
  dsimp only at hf
  split at hf
  · cases hf
  rcases mem_cons.mp hf with rfl | hf
  · trivial
  split at hf
  · obtain rfl:=mem_singleton.mp hf
    exact .of_bounded rfl rfl rfl hcap
  · cases hf

theorem interpreterEffects_sound (hcap:20 ≤ cap) (hf:f∈interpreterEffects v role r) :
    f.Sound v cap:=by
  unfold interpreterEffects at hf
  dsimp only at hf
  split at hf
  · cases hf
  split at hf
  · cases hf
  split at hf
  · cases hf
  rcases mem_cons.mp hf with rfl | hf
  · trivial
  split at hf
  · cases hf
  · simp only [mem_cons,not_mem_nil,or_false] at hf
    rcases hf with rfl | rfl
    · trivial
    · exact .of_not_eligible rfl rfl hcap
  · rcases mem_cons.mp hf with rfl | hf
    · trivial
    obtain ⟨dst,-,rfl⟩:=mem_map.mp hf
    exact .of_not_eligible rfl rfl hcap

theorem stemEffects_sound (hcap:20 ≤ cap) {i:ℕ} (hf:f∈stemEffects v role i) :
    f.Sound v cap:=by
  unfold stemEffects at hf
  dsimp only at hf
  split at hf
  · cases hf
  rcases mem_cons.mp hf with rfl | hf
  · trivial
  obtain ⟨j,-,hf⟩:=mem_flatMap.mp hf
  unfold siblingEffects at hf
  dsimp only at hf
  split at hf
  · obtain rfl:=mem_singleton.mp hf
    exact .of_not_eligible rfl rfl hcap
  split at hf
  · obtain rfl:=mem_singleton.mp hf
    exact .of_not_eligible rfl rfl hcap
  · cases hf

end Passes

theorem passEffects_sound (v:View) : PassEffects v (Effect.Sound v (relationshipCaps v.reports)) where
  unreal _ _ _ hf:=unrealEffects_sound (relationshipCaps_ge _) hf
  il2cpp _ _ _ hf:=il2cppEffects_sound hf
  mono _ hroot _ hf:=monoEffects_sound hroot hf
  materialization _ _ _ _ hf:=materializationEffects_sound (relationshipCaps_ge _) hf
  references _ _ hitem _ hf:=
    referenceEffects_sound (relationshipCaps_ge _) (priorityCap_le hitem) hf
  loader _ _ _ _ hf:=loaderEffects_sound (relationshipCaps_ge _) hf
  wasm _ _ _ _ hf:=wasmEffects_sound (relationshipCaps_ge _) hf
  interpreter _ _ _ _ hf:=interpreterEffects_sound (relationshipCaps_ge _) hf
  stem _ _ _ _ hf:=stemEffects_sound (relationshipCaps_ge _) hf

end AutoRefirst.DirectoryRelationships
