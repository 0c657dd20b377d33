import AutoRefirst.DirectoryReports
import AutoRefirst.RelationshipBoosts

/-!
# Mutations of retained reports

Every report that the relationships mutate was retained before they were built, and a
mutation is in the final index unless the runtime replaced the report by a new analysis.
-/

namespace AutoRefirst.DirectoryRelationships
open List Option

structure MutatedFrom (fs : FileSystem) (x y : DirectoryReportIndex) : Prop where
  input : y.input=x.input
  confirmed : y.postRelationshipMutated=true → y.unityMono=true ∨ y.dotnetUnityMono=true
  retained : y.postRelationshipMutated=true → indexUnityExecutableRoot fs x = true ∨
    ∃ executable, indexUnityManagedMatchesExecutable fs executable x = true

theorem MutatedFrom.confirmMonoRoot {fs:FileSystem} {x y:DirectoryReportIndex}
    (h:MutatedFrom fs x y) (hx:indexUnityExecutableRoot fs x=true)
    (managedPath runtimePath:NativePath) :
    MutatedFrom fs x (Build.confirmMonoRoot managedPath runtimePath y):=
  ⟨h.input,fun _ => .inl rfl,fun _ => .inl hx⟩

theorem MutatedFrom.confirmMonoManaged {fs:FileSystem} {x y:DirectoryReportIndex}
    (h:MutatedFrom fs x y) {executable:NativePath}
    (hx:indexUnityManagedMatchesExecutable fs executable x=true) :
    MutatedFrom fs x (Build.confirmMonoManaged y):=
  ⟨h.input,fun _ => .inr rfl,fun _ => .inr ⟨executable,hx⟩⟩

def ReportsInvariant (v : View) (b : Build) : Prop :=
  ∀ (i : ℕ) (y : DirectoryReportIndex), b.reports[i]? = some y →
    ∃ x, v.reports[i]? = some x ∧ MutatedFrom v.fs x y

theorem Build.emit_reports (v:View) (b:Build) (e:Emission) :
    (b.emit v e).reports=b.reports:=by
  rcases b.emit_cases v e with ⟨h,-⟩ | ⟨h,-⟩ | ⟨x,h,-⟩
  · rw [h]
  · rw [h]
    rfl
  · exact h.reports

theorem ReportsInvariant.modify {v:View} {b:Build} {reports:List DirectoryReportIndex}
    (h:ReportsInvariant v b) (hreports:b.reports=reports) {k:ℕ}
    {f:DirectoryReportIndex→DirectoryReportIndex}
    (hf:∀x y,v.reports[k]? = some x → MutatedFrom v.fs x y → MutatedFrom v.fs x (f y)) :
    ∀(i:ℕ) (y:DirectoryReportIndex),(reports.modify k f)[i]? = some y →
      ∃x,v.reports[i]? = some x ∧ MutatedFrom v.fs x y:=by
  subst hreports
  intro i y hy
  rw [getElem?_modify] at hy
  obtain ⟨y',hy',rfl⟩:=map_eq_some_iff.mp hy
  obtain ⟨x,hx,hm⟩:=h i y' hy'
  refine ⟨x,hx,?_⟩
  by_cases hk : k=i
  · rw [if_pos hk]
    exact hf x y' (hk▸hx) hm
  · rw [if_neg hk]
    exact hm

theorem ReportsInvariant.apply {v:View} {cap:ℤ} {b:Build} {f:Effect}
    (h:ReportsInvariant v b) (hf:f.Sound v cap) : ReportsInvariant v (b.apply v f):=by
  cases f with
  | lookups n=>exact h
  | ambiguousReference=>exact h
  | setRole i role=>exact h
  | emit e=>
    intro i y hy
    apply h i y
    rw [← b.emit_reports v e]
    exact hy
  | confirmMono root managed managedPath runtimePath=>
    obtain ⟨r,m,hr,hm,hroot,hmanaged,-⟩:=hf
    let b' : Build:=
      {b with reports:=b.reports.modify root (Build.confirmMonoRoot managedPath runtimePath)}
    have h' : ReportsInvariant v b':=by
      apply h.modify rfl
      intro x y hx hxy
      obtain rfl : x=r:=some.inj (hx.symm.trans hr)
      exact hxy.confirmMonoRoot hroot managedPath runtimePath
    apply h'.modify rfl
    intro x y hx hxy
    obtain rfl : x=m:=some.inj (hx.symm.trans hm)
    exact hxy.confirmMonoManaged hmanaged

/-- A build mutates only executables and managed payloads of Unity products. -/
theorem build_reportsInvariant (fs:FileSystem) (plan:DirectoryPlan)
    (reports:List DirectoryReportIndex)
    (hfresh:∀x∈reports,x.postRelationshipMutated=false) :
    ReportsInvariant (viewOf fs plan reports) (buildDirectoryRelationships fs plan reports):=by
  apply runPasses_invariant (passEffects_sound _) fun b f hf hb=>hb.apply hf
  intro i x hx
  have hflag:=hfresh x (mem_of_getElem? hx)
  exact ⟨x,hx,rfl,by simp [hflag],by simp [hflag]⟩

theorem forall₂_exists_right {α β:Type*} {R:α→β→Prop} {l:List α} {l':List β}
    (h:List.Forall₂ R l l') {x:α} (hx:x∈l) : ∃y∈l',R x y:=by
  induction h with
  | nil=>cases hx
  | cons hxy _ ih=>
    rcases mem_cons.mp hx with rfl | hx
    · exact ⟨_,mem_cons_self,hxy⟩
    · obtain ⟨y,hy,hr⟩:=ih hx
      exact ⟨y,mem_cons_of_mem _ hy,hr⟩

theorem map_eq_of_forall₂ {α β:Type*} {R:α→α→Prop} {f:α→β} {l l':List α}
    (h:List.Forall₂ R l l') (hf:∀x y,R x y → f y=f x) : l'.map f=l.map f:=by
  induction h with
  | nil=>rfl
  | cons hxy _ ih=>rw [map_cons,map_cons,hf _ _ hxy,ih]

namespace DirectoryRun

variable (run : DirectoryRun) {r : AnalysisReport}

theorem mem_reports (h:r∈run.reports) :
    ∃c∈run.plan.candidates,r=(run.analyze c.path).report:=by
  obtain ⟨c,hc,rfl⟩:=mem_map.mp h
  exact ⟨c,mem_of_mem_filter hc,rfl⟩

theorem reports_keys : (run.reports.map fun r=>run.reportKey r.input).Nodup:=by
  have hkeys : run.reports.map (fun r=>run.reportKey r.input) =
      (run.plan.candidates.filter (·.readable)).map fun c=>run.reportKey c.path:=by
    unfold reports
    rw [List.map_map]
    apply map_congr_left
    intro c _
    simp [(run.analyze c.path).input_eq]
  rw [hkeys]
  exact run.keys.sublist (filter_sublist.map _)

variable {i : ℕ}

theorem eq_of_key {j:ℕ} {s:AnalysisReport} (hr:run.reports[i]? = some r)
    (hs:run.reports[j]? = some s) (h:run.reportKey r.input=run.reportKey s.input) :
    i=j:=by
  have hi:=(List.getElem?_eq_some_iff.mp hr).1
  apply (getElem?_inj (by simpa using hi) run.reports_keys).mp
  simp [hr,hs,h]

variable {p : NativePath}

theorem compactByInput_spec (h:run.compactByInput p=some i) :
    ∃r,run.reports[i]? = some r ∧ run.reportKey r.input=run.reportKey p:=by
  obtain ⟨⟨r,j⟩,hr,rfl⟩:=mem_map.mp (mem_of_getLast? h)
  obtain ⟨hr,hkey⟩:=mem_filter.mp hr
  exact ⟨r,mem_zipIdx_iff_getElem?.mp hr,by simpa using hkey⟩

theorem compactByInput_eq (hr:run.reports[i]? = some r)
    (hkey:run.reportKey r.input=run.reportKey p) :
    run.compactByInput p=some i:=by
  have hmem : (r,i)∈run.reports.zipIdx.filter
      fun x=>run.reportKey x.1.input == run.reportKey p:=
    mem_filter.mpr ⟨mem_zipIdx_iff_getElem?.mpr hr,by simpa using hkey⟩
  have hsome : (run.compactByInput p).isSome=true:=by
    unfold compactByInput
    rw [getLast?_isSome]
    exact ne_nil_of_mem (mem_map_of_mem (f:=fun x : AnalysisReport×ℕ=>x.2) hmem)
  obtain ⟨j,hj⟩:=isSome_iff_exists.mp hsome
  obtain ⟨s,hs,hs'⟩:=run.compactByInput_spec hj
  rw [hj,run.eq_of_key hr hs (hkey.trans hs'.symm)]

theorem index_unityExecutableRoot (r:AnalysisReport) :
    indexUnityExecutableRoot run.fs (run.index r)=unityExecutableRoot run.fs r:=rfl

theorem retains_of_mutable (h:indexUnityExecutableRoot run.fs (run.index r)=true ∨
      ∃executable,indexUnityManagedMatchesExecutable run.fs executable (run.index r)=true) :
    directoryReportRequiresPostRelationshipRetention run.fs r=true:=by
  unfold directoryReportRequiresPostRelationshipRetention
  rcases h with h | ⟨executable,h⟩
  · simp [← run.index_unityExecutableRoot,h]
  · unfold indexUnityManagedMatchesExecutable at h
    dsimp only at h
    split_ifs at h with hdotnet hpath
    simp only [index,makeDirectoryReportIndex,Bool.or_eq_true,Bool.not_eq_true',
      not_or,Bool.not_eq_false] at hdotnet hpath
    simp [hdotnet,hpath]

theorem magic_of_mutable
    (h:indexUnityExecutableRoot run.fs (run.index (run.analyze p).report)=true ∨
      ∃executable,indexUnityManagedMatchesExecutable run.fs executable
        (run.index (run.analyze p).report)=true) :
    run.magic p≠.gdpc:=by
  have hpe:=(run.analyze p).pe_magic
  have helf:=(run.analyze p).elf_magic
  have hdotnet:=(run.analyze p).dotnet_pe
  rcases h with h | ⟨executable,h⟩
  · rw [run.index_unityExecutableRoot] at h
    unfold unityExecutableRoot at h
    split_ifs at h with h1 h2 h3
    · simp only [Bool.and_eq_true] at h2
      simp [hpe h2.1]
    · simp [helf h3]
  · unfold indexUnityManagedMatchesExecutable at h
    dsimp only at h
    split_ifs at h with h1 h2
    simp only [index,makeDirectoryReportIndex,Bool.or_eq_true,Bool.not_eq_true',
      not_or,Bool.not_eq_false] at h1
    simp [hpe (hdotnet h1.1)]

def GodotKept (r r' : AnalysisReport) : Prop :=
  r'.input = r.input ∧ (run.magic r.input ≠ .gdpc → r'=r)

theorem godotTarget_eq_some {targets:ℕ} {target:AnalysisReport}
    (h:run.godotTarget targets r=some target) :
    run.magic r.input=.gdpc ∧ target.input=r.input:=by
  unfold godotTarget at h
  split_ifs at h with hlimit
  obtain ⟨artifacts,-,rfl⟩:=map_eq_some_iff.mp h
  simp only [Bool.or_eq_true,decide_eq_true_eq,bne_iff_ne,not_or,not_not] at hlimit
  exact ⟨hlimit.2,rfl⟩

theorem integrate_reports (targets:ℕ) (rs:List AnalysisReport) (compact:List DirectoryReportIndex) :
    List.Forall₂ run.GodotKept rs (run.integrateDirectoryGodotSemantics targets rs compact).1:=by
  induction rs generalizing targets compact with
  | nil=>exact .nil
  | cons r rest ih=>
    have hsame : run.GodotKept r r:=⟨rfl,fun _=>rfl⟩
    unfold integrateDirectoryGodotSemantics
    split
    · exact .cons hsame (ih _ _)
    split
    · exact .cons hsame (ih _ _)
    · rename_i target htarget
      obtain ⟨hmagic,hinput⟩:=run.godotTarget_eq_some htarget
      exact .cons ⟨hinput,fun h=>absurd hmagic h⟩ (ih _ _)

/-- Nothing happens to the index of a file that is no standalone PCK. -/
theorem integrate_compact (targets:ℕ) (rs:List AnalysisReport) (compact:List DirectoryReportIndex)
    (hrs:∀r∈rs,run.magic r.input=.gdpc → run.compactByInput r.input≠some i) :
    (run.integrateDirectoryGodotSemantics targets rs compact).2[i]? = compact[i]? := by
  induction rs generalizing targets compact with
  | nil=>rfl
  | cons r rest ih=>
    have hrest:=fun r hr=>hrs r (mem_cons_of_mem _ hr)
    unfold integrateDirectoryGodotSemantics
    split
    · exact ih _ _ hrest
    split
    · exact ih _ _ hrest
    · rename_i target htarget
      have hne:=hrs r mem_cons_self (run.godotTarget_eq_some htarget).1
      dsimp only
      split
      · exact ih _ _ hrest
      · rename_i k hk
        have hki : k≠i:=fun h=>hne (h▸hk)
        rw [ih _ _ hrest,getElem?_modify]
        simp [hki]

def Indexed (before compact : List DirectoryReportIndex) : Prop :=
  ∀ (i : ℕ) (y : DirectoryReportIndex) (r : AnalysisReport), compact[i]? = some y →
    run.reports[i]? = some r → run.reportKey y.input = run.reportKey r.input ∧
      ∃ x, before[i]? = some x ∧ y.postRelationshipMutated=x.postRelationshipMutated

variable {compact : List DirectoryReportIndex}

theorem Indexed.refreshed {run:DirectoryRun} {before:List DirectoryReportIndex}
    (h:run.Indexed before compact) {target:AnalysisReport} {k:ℕ}
    (hk:run.compactByInput p=some k) (hinput:target.input=p) :
    run.Indexed before (compact.modify k (run.refreshed target)):=by
  intro i y r hy hr
  rw [getElem?_modify] at hy
  obtain ⟨y',hy',rfl⟩:=map_eq_some_iff.mp hy
  obtain ⟨hkey,x,hx,hflag⟩:=h i y' r hy' hr
  by_cases hki : k=i
  · rw [if_pos hki]
    obtain ⟨s,hs,hs'⟩:=run.compactByInput_spec hk
    obtain rfl : s=r:=some.inj (hs.symm.trans (hki▸hr))
    exact ⟨(congrArg run.reportKey hinput).trans hs'.symm,x,hx,hflag⟩
  · rw [if_neg hki]
    exact ⟨hkey,x,hx,hflag⟩

theorem Indexed.integrate {run:DirectoryRun} {before:List DirectoryReportIndex} (targets:ℕ)
    (rs:List AnalysisReport) (compact:List DirectoryReportIndex)
    (h:run.Indexed before compact) :
    run.Indexed before (run.integrateDirectoryGodotSemantics targets rs compact).2:=by
  induction rs generalizing targets compact with
  | nil=>exact h
  | cons r rest ih=>
    unfold integrateDirectoryGodotSemantics
    split
    · exact ih _ _ h
    split
    · exact ih _ _ h
    · rename_i target htarget
      dsimp only
      split
      · exact ih _ _ h
      · rename_i k hk
        exact ih _ _ (h.refreshed hk (run.godotTarget_eq_some htarget).2)

variable {rs : List AnalysisReport}

theorem mutateAll_eq_some {rs':List AnalysisReport} (h:run.mutateAll compact rs=some rs') :
    List.Forall₂ (fun r r'=>∃i x,run.compactByInput r.input=some i ∧ compact[i]? = some x ∧
      r'=applyDirectoryReportIndexMutations r x) rs rs':=by
  induction rs generalizing rs' with
  | nil=>
    obtain rfl:=some.inj h
    exact .nil
  | cons r rest ih=>
    obtain ⟨r',hr',h⟩:=bind_eq_some_iff.mp h
    obtain ⟨rest',hrest',h⟩:=bind_eq_some_iff.mp h
    obtain ⟨i,hi,hr'⟩:=bind_eq_some_iff.mp hr'
    obtain ⟨x,hx,hr'⟩:=bind_eq_some_iff.mp hr'
    obtain rfl:=some.inj h
    exact .cons ⟨i,x,hi,hx,(some.inj hr').symm⟩ (ih hrest')

@[simp] theorem applyMutations_input (r:AnalysisReport) (x:DirectoryReportIndex) :
    (applyDirectoryReportIndexMutations r x).input=r.input:=by
  unfold applyDirectoryReportIndexMutations
  dsimp only
  split_ifs <;> rfl

@[simp] theorem executeRuntimePlan_input (r:AnalysisReport) :
    (run.executeRuntimePlan r).input=r.input:=by
  unfold executeRuntimePlan
  split_ifs
  · exact (run.reanalyze r.input).input_eq
  · rfl

theorem executeAt_eq_map (hrs:(rs.map (·.input)).Nodup) : run.executeAt p rs =
      rs.map fun r=>if r.input = p then run.executeRuntimePlan r else r:=by
  induction rs with
  | nil=>rfl
  | cons r rest ih=>
    obtain ⟨hnew,hrest⟩:=nodup_cons.mp hrs
    unfold executeAt
    rw [map_cons]
    split_ifs with hp
    · congr 1
      apply (map_id rest).symm.trans
      apply map_congr_left
      intro s hs
      have hne : s.input≠p:=fun h=>hnew (mem_map.mpr ⟨s,hs,h.trans hp.symm⟩)
      rw [if_neg hne]
      rfl
    · rw [ih hrest]

variable {cs : List DirectoryCandidate}

/-- Each selected candidate has its report executed, once. -/
theorem executeDirectoryRuntime_eq_map (hcs:(cs.map (·.path)).Nodup)
    (hrs:(rs.map (·.input)).Nodup) :
    run.executeDirectoryRuntime cs rs = rs.map fun r=>
      if r.input ∈ cs.map (·.path) ∧ run.runtimeSelected r.input = true then
        run.executeRuntimePlan r else r:=by
  induction cs generalizing rs with
  | nil=>simp [executeDirectoryRuntime]
  | cons c cs ih=>
    obtain ⟨hnew,hcs'⟩:=nodup_cons.mp hcs
    have hstep : run.executeDirectoryRuntime (c::cs) rs=run.executeDirectoryRuntime cs
        (if run.runtimeSelected c.path then run.executeAt c.path rs else rs):=rfl
    rw [hstep]
    split_ifs with hc
    · rw [run.executeAt_eq_map hrs]
      have hinputs : (rs.map fun r=>if r.input = c.path then run.executeRuntimePlan r else r).map
          (·.input)=rs.map (·.input):=by
        rw [List.map_map]
        apply map_congr_left
        intro r _
        simp only [Function.comp]
        split_ifs <;> simp
      rw [ih hcs' (hinputs▸hrs),List.map_map]
      apply map_congr_left
      intro r _
      simp only [Function.comp,map_cons,mem_cons]
      by_cases hr : r.input=c.path
      · have hout : c.path ∉ cs.map (·.path):=hnew
        simp [hr,hout,hc]
      · simp [hr]
    · rw [ih hcs' hrs]
      apply map_congr_left
      intro r _
      by_cases hr : r.input=c.path
      · simp [hr,hc]
      · simp [hr]

variable {final : List DirectoryReportIndex}

theorem spoolRetained_cons {rest:List AnalysisReport}
    (h:run.spoolRetained cs (r::rest) compact=.ok final) :
    ∃k,run.compactByInput r.input=some k ∧
      run.spoolRetained cs rest (compact.modify k (run.finalIndex r))=.ok final:=by
  unfold spoolRetained at h
  split at h
  · cases h
  rename_i k hk
  split at h
  · cases h
  dsimp only at h
  split at h
  · cases h
  split_ifs at h
  exact ⟨k,hk,h⟩

theorem compactByInput_ne {q:NativePath} (hi:run.compactByInput p=some i)
    (h:run.reportKey p≠run.reportKey q) : run.compactByInput q≠some i:=by
  intro hq
  obtain ⟨r,hr,hr'⟩:=run.compactByInput_spec hi
  obtain ⟨s,hs,hs'⟩:=run.compactByInput_spec hq
  obtain rfl : r=s:=some.inj (hr.symm.trans hs)
  exact h (hr'.symm.trans hs')

theorem spoolRetained_other (h:run.spoolRetained cs rs compact=.ok final)
    (hrs:∀r∈rs,run.compactByInput r.input≠some i) : final[i]? = compact[i]? := by
  induction rs generalizing compact with
  | nil=>
    cases h
    rfl
  | cons r rest ih=>
    obtain ⟨k,hk,h⟩:=run.spoolRetained_cons h
    have hki : k≠i:=fun he=>hrs r mem_cons_self (he▸hk)
    rw [ih h fun s hs=>hrs s (mem_cons_of_mem _ hs),getElem?_modify]
    simp [hki]

theorem spoolRetained_eq_ok (h:run.spoolRetained cs rs compact=.ok final)
    (hrs:(rs.map fun r=>run.reportKey r.input).Nodup) (hr:r∈rs)
    (hi:run.compactByInput r.input=some i) :
    final[i]? = compact[i]?.map (run.finalIndex r):=by
  induction rs generalizing compact with
  | nil=>cases hr
  | cons s rest ih=>
    obtain ⟨hnew,hrest⟩:=nodup_cons.mp hrs
    obtain ⟨k,hk,h⟩:=run.spoolRetained_cons h
    rcases mem_cons.mp hr with rfl | hr
    · obtain rfl : k=i:=some.inj (hk.symm.trans hi)
      have hother : ∀q∈rest,run.compactByInput q.input≠some k:=by
        intro q hq
        apply run.compactByInput_ne hk
        intro he
        exact hnew (mem_map.mpr ⟨q,hq,he.symm⟩)
      rw [run.spoolRetained_other h hother,getElem?_modify]
      simp
    · have hki : k≠i:=by
        rintro rfl
        apply run.compactByInput_ne hk _ hi
        intro he
        exact hnew (mem_map.mpr ⟨r,hr,he.symm⟩)
      rw [ih h hrest hr,getElem?_modify]
      simp [hki]

def CarriesMutation (x y : DirectoryReportIndex) : Prop :=
  (x.unityMono=true → y.unityMono=true ∧
    y.unityMonoRuntimeValidated = x.unityMonoRuntimeValidated ∧
    y.unityManagedPath = x.unityManagedPath ∧ y.unityMonoRuntimePath=x.unityMonoRuntimePath ∧
    y.unityBackendState = x.unityBackendState) ∧
  (x.dotnetUnityMono=true → y.dotnetUnityMono=true)

instance (x y : DirectoryReportIndex) : Decidable (CarriesMutation x y) :=
  inferInstanceAs (Decidable (_ ∧ _))

variable {x : DirectoryReportIndex}

theorem compact_fresh (hx:x∈run.compact) : x.postRelationshipMutated=false:=by
  obtain ⟨r,-,rfl⟩:=mem_map.mp hx
  rfl

theorem built_spec (hx:run.built.reports[i]? = some x) :
    ∃r,run.reports[i]? = some r ∧ MutatedFrom run.fs (run.index r) x:=by
  obtain ⟨y,hy,hm⟩:=build_reportsInvariant run.fs run.plan run.compact
    (fun x=>run.compact_fresh) i x hx
  change run.compact[i]? = some y at hy
  unfold compact at hy
  rw [getElem?_map] at hy
  obtain ⟨r,hr,rfl⟩:=map_eq_some_iff.mp hy
  exact ⟨r,hr,hm⟩

theorem retained_of_mutated (hr:run.reports[i]? = some r)
    (hm:MutatedFrom run.fs (run.index r) x) (hx:x.postRelationshipMutated=true) :
    directoryReportRequiresPostRelationshipRetention run.fs r=true ∧ r∈run.retained ∧
      run.magic r.input≠.gdpc:=by
  have hmem:=mem_of_getElem? hr
  have hretains:=run.retains_of_mutable (hm.retained hx)
  refine ⟨hretains,mem_filter.mpr ⟨hmem,by simp [retains,hretains]⟩,?_⟩
  obtain ⟨c,-,rfl⟩:=run.mem_reports hmem
  rw [(run.analyze c.path).input_eq]
  exact run.magic_of_mutable (hm.retained hx)

theorem built_indexed : run.Indexed run.built.reports run.built.reports:=by
  intro i y r hy hr
  obtain ⟨s,hs,hm⟩:=run.built_spec hy
  obtain rfl : s=r:=some.inj (hs.symm.trans hr)
  exact ⟨congrArg run.reportKey hm.input,y,hy,rfl⟩

theorem integrate_length (targets:ℕ) (rs:List AnalysisReport) (compact:List DirectoryReportIndex) :
    (run.integrateDirectoryGodotSemantics targets rs compact).2.length=compact.length:=by
  induction rs generalizing targets compact with
  | nil=>rfl
  | cons r rest ih=>
    unfold integrateDirectoryGodotSemantics
    split
    · exact ih _ _
    split
    · exact ih _ _
    · dsimp only
      split
      · exact ih _ _
      · rw [ih,length_modify]

theorem built_of_flag {y:DirectoryReportIndex}
    (hy:(run.integrateDirectoryGodotSemantics 0 run.retained run.built.reports).2[i]? = some y) :
    ∃r x,run.reports[i]? = some r ∧ run.built.reports[i]? = some x ∧
      MutatedFrom run.fs (run.index r) x ∧ run.reportKey y.input=run.reportKey r.input ∧
      y.postRelationshipMutated=x.postRelationshipMutated:=by
  have hlt : i < run.built.reports.length:=by
    rw [← run.integrate_length 0 run.retained run.built.reports]
    exact (List.getElem?_eq_some_iff.mp hy).1
  obtain ⟨r,hr,hm⟩:=run.built_spec (getElem?_eq_getElem hlt)
  obtain ⟨hkey,x,hx,hflag⟩:=run.built_indexed.integrate 0 run.retained _ i y r hy hr
  obtain rfl:=some.inj (hx.symm.trans (getElem?_eq_getElem hlt))
  exact ⟨r,_,hr,hx,hm,hkey,hflag⟩

theorem spoolRetained_ne_missingRetained (input:NativePath) :
    run.spoolRetained cs rs compact≠.error (.missingRetained input):=by
  induction rs generalizing compact with
  | nil=>
    unfold spoolRetained
    simp
  | cons r rest ih=>
    unfold spoolRetained
    split
    · simp
    split
    · simp
    dsimp only
    split
    · simp
    split_ifs
    · exact ih
    · simp

/-- The internal error for a mutated report that was not retained cannot occur. -/
theorem finish_ne_missingRetained (input:NativePath) :
    run.finish≠.error (.missingRetained input):=by
  unfold finish
  split
  · simp
  dsimp only
  split
  · rename_i y hy
    exfalso
    have hpred:=find?_some hy
    simp only [Bool.and_eq_true,Bool.not_eq_true',contains_eq_mem, decide_eq_false_iff_not] at hpred
    obtain ⟨i,hi⟩:=getElem?_of_mem (mem_of_find?_eq_some hy)
    obtain ⟨r,x,hr,-,hm,hkey,hflag⟩:=run.built_of_flag hi
    obtain ⟨-,hretained,-⟩:=run.retained_of_mutated hr hm (hflag▸hpred.1)
    obtain ⟨r',hr',hkept⟩:=forall₂_exists_right
      (run.integrate_reports 0 run.retained run.built.reports) hretained
    apply hpred.2
    rw [hkey,← hkept.1]
    exact mem_map_of_mem (f:=fun r : AnalysisReport=>run.reportKey r.input) hr'
  split
  · simp
  · exact run.spoolRetained_ne_missingRetained input

theorem finish_eq_ok (h:run.finish=.ok final) : ∃mutated,run.mutateAll
        (run.integrateDirectoryGodotSemantics 0 run.retained run.built.reports).2
        (run.integrateDirectoryGodotSemantics 0 run.retained run.built.reports).1=some mutated ∧
      run.spoolRetained (sortDirectoryCandidates run.built.plan.candidates)
        (run.executeDirectoryRuntime (sortDirectoryCandidates run.built.plan.candidates) mutated)
        (run.integrateDirectoryGodotSemantics 0 run.retained run.built.reports).2=.ok final:=by
  unfold finish at h
  split at h
  · cases h
  dsimp only at h
  split at h
  · cases h
  split at h
  · cases h
  · exact ⟨_,by assumption,h⟩

theorem built_paths : run.built.plan.candidates.map (·.path)=run.plan.candidates.map (·.path):=by
  have hscore:=build_scoreInvariant run.fs run.plan run.compact
  apply ext_getElem?
  intro i
  rw [getElem?_map,getElem?_map]
  cases hc : run.built.plan.candidates[i]? with
  | none=>
    have hle:=getElem?_eq_none_iff.mp hc
    have hlength : run.built.plan.candidates.length=run.plan.candidates.length:=
      hscore.candidates.trans (by simp [viewOf,clearedPlan])
    rw [getElem?_eq_none (hlength▸hle)]
  | some c=>
    obtain ⟨c₀,hc₀,hs⟩:=hscore.standing i c hc
    simp only [viewOf,clearedPlan,getElem?_map] at hc₀
    obtain ⟨c₁,hc₁,rfl⟩:=map_eq_some_iff.mp hc₀
    rw [hc₁]
    exact congrArg some hs.path

theorem sorted_paths : ((sortDirectoryCandidates run.built.plan.candidates).map (·.path)).Perm
      (run.plan.candidates.map (·.path)):=by
  rw [← run.built_paths]
  exact (perm_insertionSort _ _).map _

theorem plan_paths : (run.plan.candidates.map (·.path)).Nodup:=by
  apply List.Nodup.of_map run.reportKey
  rw [List.map_map]
  exact run.keys

theorem mem_sorted_paths (hr:run.reports[i]? = some r) :
    r.input∈(sortDirectoryCandidates run.built.plan.candidates).map (·.path):=by
  obtain ⟨c,hc,rfl⟩:=run.mem_reports (mem_of_getElem? hr)
  rw [run.sorted_paths.mem_iff,(run.analyze c.path).input_eq]
  exact mem_map_of_mem hc

theorem carries_of_applied {r':AnalysisReport} (hx:x.postRelationshipMutated=true)
    (hunity:r'.unity=(applyDirectoryReportIndexMutations r x).unity)
    (hdotnet:r'.dotnet=(applyDirectoryReportIndexMutations r x).dotnet) :
    CarriesMutation x (run.refreshed r' x):=by
  constructor
  · intro hmono
    have h : r'.unity.mono=true ∧ r'.unity.monoRuntimeValidated=x.unityMonoRuntimeValidated ∧
        r'.unity.managedPath=x.unityManagedPath ∧
        r'.unity.monoRuntimePath=x.unityMonoRuntimePath ∧
        r'.unity.backendState=x.unityBackendState:=by
      rw [hunity]
      unfold applyDirectoryReportIndexMutations
      simp only [hx,hmono,Bool.not_true,Bool.false_eq_true,if_false,if_true]
      split_ifs <;> exact ⟨rfl,rfl,rfl,rfl,rfl⟩
    exact h
  · intro hmono
    have h : r'.dotnet.unityMono=true:=by
      rw [hdotnet]
      unfold applyDirectoryReportIndexMutations
      simp only [hx,hmono,Bool.not_true,Bool.false_eq_true,if_false,if_true]
    exact h

theorem not_carries_of_fresh {r':AnalysisReport}
    (hx:x.unityMono=true ∨ x.dotnetUnityMono=true) (hmono:r'.unity.mono=false)
    (hunityMono:r'.dotnet.unityMono=false) : ¬CarriesMutation x (run.refreshed r' x):=by
  rintro ⟨hunity,hdotnet⟩
  rcases hx with hx | hx
  · have h : r'.unity.mono=true:=(hunity hx).1
    simp [hmono] at h
  · have h : r'.dotnet.unityMono=true:=hdotnet hx
    simp [hunityMono] at h

def afterRuntime (r : AnalysisReport) (x : DirectoryReportIndex) : AnalysisReport :=
  let r := applyDirectoryReportIndexMutations r x
  if run.runtimeSelected r.input = true then run.executeRuntimePlan r else r

theorem carries_afterRuntime_iff (hm:MutatedFrom run.fs (run.index r) x)
    (hx:x.postRelationshipMutated=true) :
    CarriesMutation x (run.refreshed (run.afterRuntime r x) x) ↔
      ¬(run.runtimeSelected x.input=true ∧ run.installed x.input=true):=by
  have hinput : x.input=r.input:=hm.input
  unfold afterRuntime executeRuntimePlan
  simp only [applyMutations_input,← hinput]
  split_ifs with hselected hinstalled
  · simp only [hselected,hinstalled,and_self,not_true,iff_false]
    exact run.not_carries_of_fresh (hm.confirmed hx) (run.reanalyze _).mono
      (run.reanalyze _).unityMono
  · have hcarries : CarriesMutation x (run.refreshed { applyDirectoryReportIndexMutations r x with
        artifacts:=run.runtimeArtifacts (applyDirectoryReportIndexMutations r x) } x):=
      run.carries_of_applied (r:=r) hx rfl rfl
    exact iff_of_true hcarries fun h=>hinstalled h.2
  · have hcarries : CarriesMutation x (run.refreshed (applyDirectoryReportIndexMutations r x) x):=
      run.carries_of_applied (r:=r) hx rfl rfl
    exact iff_of_true hcarries fun h=>hselected h.1

theorem final_of_mutated (h:run.finish=.ok final) (hr:run.reports[i]? = some r)
    (hx:run.built.reports[i]? = some x) (hm:MutatedFrom run.fs (run.index r) x)
    (hflag:x.postRelationshipMutated=true) :
    final[i]? = some (run.refreshed (run.afterRuntime r x) x):=by
  obtain ⟨mutated,hmutated,hspool⟩:=run.finish_eq_ok h
  obtain ⟨-,hretained,hmagic⟩:=run.retained_of_mutated hr hm hflag
  have hi : run.compactByInput r.input=some i:=run.compactByInput_eq hr rfl
  have hgodot:=run.integrate_reports 0 run.retained run.built.reports
  have hmutate:=run.mutateAll_eq_some hmutated
  -- the Godot pass leaves the report and its index alone
  have hindex : (run.integrateDirectoryGodotSemantics 0 run.retained run.built.reports).2[i]? =
      some x:=by
    rw [run.integrate_compact,hx]
    intro s hs hsmagic hsi
    obtain ⟨s',hs',hkey⟩:=run.compactByInput_spec hsi
    obtain rfl : s'=r:=some.inj (hs'.symm.trans hr)
    obtain ⟨j,hj⟩:=getElem?_of_mem (mem_of_mem_filter hs)
    obtain rfl : i=j:=run.eq_of_key hs' hj hkey
    obtain rfl : s'=s:=some.inj (hs'.symm.trans hj)
    exact hmagic hsmagic
  obtain ⟨r₁,hr₁,hkept⟩:=forall₂_exists_right hgodot hretained
  obtain rfl : r₁=r:=hkept.2 hmagic
  obtain ⟨r₂,hr₂,k,y,hk,hy,rfl⟩:=forall₂_exists_right hmutate hr₁
  obtain rfl : k=i:=some.inj (hk.symm.trans hi)
  obtain rfl : y=x:=some.inj (hy.symm.trans hindex)
  -- every step keeps the inputs of the retained reports
  have hinputs : mutated.map (fun r=>run.reportKey r.input) =
      run.retained.map fun r=>run.reportKey r.input:=by
    have h₁:=map_eq_of_forall₂ (f:=fun r : AnalysisReport=>run.reportKey r.input) hgodot
      fun _ _ hkept=>congrArg run.reportKey hkept.1
    have h₂:=map_eq_of_forall₂ (f:=fun r : AnalysisReport=>run.reportKey r.input) hmutate
    apply (h₂ _).trans h₁
    rintro _ _ ⟨_,_,-,-,rfl⟩
    rw [applyMutations_input]
  have hkeys : (mutated.map fun r=>run.reportKey r.input).Nodup:=by
    rw [hinputs]
    exact run.reports_keys.sublist (filter_sublist.map _)
  have hnodup : (mutated.map (·.input)).Nodup:=by
    apply List.Nodup.of_map run.reportKey
    rw [List.map_map]
    exact hkeys
  have hcandidates:=run.sorted_paths.nodup_iff.mpr run.plan_paths
  rw [run.executeDirectoryRuntime_eq_map hcandidates hnodup] at hspool
  have hafter : run.afterRuntime r₁ y ∈ mutated.map fun r=>
      if r.input ∈ (sortDirectoryCandidates run.built.plan.candidates).map (·.path) ∧
        run.runtimeSelected r.input = true then run.executeRuntimePlan r else r:=by
    refine mem_map.mpr ⟨_,hr₂,?_⟩
    unfold afterRuntime
    simp only [applyMutations_input,run.mem_sorted_paths hr,true_and]
  have hinput : (run.afterRuntime r₁ y).input=r₁.input:=by
    unfold afterRuntime
    dsimp only
    split_ifs <;> simp
  rw [run.spoolRetained_eq_ok hspool _ hafter (hinput.symm▸hi),hindex]
  · simp [finalIndex,hflag]
  · rw [List.map_map]
    have hsame : ((fun r:AnalysisReport=>run.reportKey r.input) ∘ fun r : AnalysisReport=>
        if r.input ∈ (sortDirectoryCandidates run.built.plan.candidates).map (·.path) ∧
          run.runtimeSelected r.input = true then run.executeRuntimePlan r else r) =
        fun r=>run.reportKey r.input:=by
      funext r
      simp only [Function.comp]
      split_ifs <;> simp
    rw [hsame]
    exact hkeys

/-- Every report that the relationships mutate was retained, the error for a missing report
cannot occur, and the values of a mutation are in the final index exactly if the runtime
has not replaced the report by an analysis of an installed image. -/
theorem mutations_survive_iff :
    (∀ (i : ℕ) (x : DirectoryReportIndex), run.built.reports[i]? = some x →
      x.postRelationshipMutated=true →
      ∃ r, run.reports[i]? = some r ∧
        directoryReportRequiresPostRelationshipRetention run.fs r=true) ∧
    (∀ input, run.finish≠.error (.missingRetained input)) ∧
    (∀ final, run.finish=.ok final → ∀ (i : ℕ) (x : DirectoryReportIndex),
      run.built.reports[i]? = some x → x.postRelationshipMutated=true →
      ∃ y, final[i]? = some y ∧ y.postRelationshipMutated=true ∧ (CarriesMutation x y ↔
        ¬(run.runtimeSelected x.input=true ∧ run.installed x.input=true))) := by
  refine ⟨?_,run.finish_ne_missingRetained,?_⟩
  · intro i x hx hflag
    obtain ⟨r,hr,hm⟩:=run.built_spec hx
    exact ⟨r,hr,(run.retained_of_mutated hr hm hflag).1⟩
  · intro final h i x hx hflag
    obtain ⟨r,hr,hm⟩:=run.built_spec hx
    exact ⟨_,run.final_of_mutated h hr hx hm hflag,hflag, run.carries_afterRuntime_iff hm hflag⟩

/-- The flag of an index after the build, and whether its values are still there at the
end of the run. -/
def outcome (i : ℕ) : Option (Bool×Bool) := do
  let final ← run.finish.toOption
  let x ← run.built.reports[i]?
  let y ← final[i]?
  return (x.postRelationshipMutated,decide (CarriesMutation x y))

theorem not_carried_of_outcome {run:DirectoryRun} {i:ℕ} (h:run.outcome i=some (true,false)) :
    ¬ ∀final,run.finish=.ok final → ∀(i:ℕ) (x:DirectoryReportIndex),
      run.built.reports[i]? = some x → x.postRelationshipMutated=true →
      ∃y,final[i]? = some y ∧ CarriesMutation x y:=by
  intro hall
  obtain ⟨final,hfinal,h⟩:=bind_eq_some_iff.mp h
  obtain ⟨x,hx,h⟩:=bind_eq_some_iff.mp h
  obtain ⟨y,hy,h⟩:=bind_eq_some_iff.mp h
  obtain ⟨hflag,hlost⟩:=Prod.mk.inj (some.inj h)
  have hok : run.finish=.ok final:=by
    cases hf : run.finish with
    | error e=>
      rw [hf] at hfinal
      cases hfinal
    | ok f=>
      rw [hf] at hfinal
      exact congrArg Except.ok (some.inj hfinal)
  obtain ⟨y',hy',hcarries⟩:=hall final hok i x hx hflag
  obtain rfl : y=y':=some.inj (hy.symm.trans hy')
  exact of_decide_eq_false hlost hcarries

end DirectoryRun

/-- The player is packed; the payload and the runtime are not. -/
def playerReport (input : NativePath) (unity : Bool) : FreshReport .mz input where
  report :=
    { input
      pe :=
        { valid:=true,dll:=input != ⟨"g/Game.exe"⟩
          exports:=["mono_jit_init","mono_runtime_invoke","mono_thread_attach",
            "mono_domain_get"].filterMap fun name =>
              if input == ⟨"g/mono.dll"⟩ then some { name } else none }
      unity:={valid:=unity}
      dotnet :=
        { valid:=input == ⟨"g/Game_Data/Managed/Assembly-CSharp.dll"⟩
          unityManaged:=input == ⟨"g/Game_Data/Managed/Assembly-CSharp.dll"⟩ } }
  input_eq := rfl
  pe_magic _ := rfl
  elf_magic h := by cases h
  dotnet_pe _ := rfl
  mono := rfl
  unityMono := rfl

def playerRun : DirectoryRun where
  fs := plainFileSystem
  reportKey p := p.native
  references _ := []
  magic _ := .mz
  analyze p := playerReport p (p == ⟨"g/Game.exe"⟩)
  retainDirectoryRuntimeReport r := r.input == ⟨"g/Game.exe"⟩
  composeGodot _ := none
  runtimeSelected p := p == ⟨"g/Game.exe"⟩
  installed p := p == ⟨"g/Game.exe"⟩
  installedMagic _ := .mz
  reanalyze p := playerReport p true
  runtimeArtifacts _ := []
  spoolReport _ _ := true
  plan :=
    { root:=⟨"g"⟩
      candidates:=[{path:=⟨"g/Game.exe"⟩},
        {path:=⟨"g/Game_Data/Managed/Assembly-CSharp.dll"⟩},{path:=⟨"g/mono.dll"⟩}] }
  keys := by decide

/-- After the installation the index of the player is still marked as mutated, but it does
not know the Mono backend any more. -/
theorem installation_loses_mutation :
    ¬ ∀final, playerRun.finish=.ok final → ∀(i:ℕ) (x:DirectoryReportIndex),
      playerRun.built.reports[i]? = some x → x.postRelationshipMutated=true →
      ∃y, final[i]? = some y ∧ DirectoryRun.CarriesMutation x y:=
  DirectoryRun.not_carried_of_outcome (i:=0) (by decide +kernel)

end AutoRefirst.DirectoryRelationships
