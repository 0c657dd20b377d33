import AutoRefirst.RelationshipBoosts

/-!
# Every relation is listed or counted

The relations that the passes prove are either in the list of relationships or counted as
omitted. The semantic Godot pass appends to the same list from outside, and drops a relation
without counting it when the list is full.
-/

namespace AutoRefirst.DirectoryRelationships
open List

def passLog {ι : Type*} (v : View) (effects : (ℕ → String) → ι → List Effect) :
    List ι → Build → List Effect
  | [], _ => []
  | item::items, b =>
    effects b.role item ++ passLog v effects items ((effects b.role item).foldl (Build.apply v) b)

theorem runPass_eq_foldl {ι:Type*} (v:View) (effects:(ℕ → String) → ι → List Effect)
    (items:List ι) (b:Build) :
    runPass v effects items b=(passLog v effects items b).foldl (Build.apply v) b:=by
  induction items generalizing b with
  | nil=>rfl
  | cons item items ih=>
    have hstep : runPass v effects (item::items) b =
        runPass v effects items ((effects b.role item).foldl (Build.apply v) b):=rfl
    rw [hstep,ih,passLog,foldl_append]

def buildLog (v : View) (b₀ : Build) : List Effect :=
  let b₁ := runPass v (fun _ => unrealEffects v) v.reports b₀
  let b₂ := runPass v (fun _ => il2cppEffects v) v.reports b₁
  let b₃ := runPass v (fun _ => monoEffects v) v.reports.zipIdx b₂
  let b₄ := runPass v (materializationEffects v) v.reports b₃
  let b₅ := runPass v (referenceEffects v) (referenceItems v.reports) b₄
  let b₆ := runPass v (loaderEffects v) v.reports b₅
  let b₇ := runPass v (wasmEffects v) v.reports b₆
  let b₈ := runPass v (interpreterEffects v) v.reports b₇
  passLog v (fun _ => unrealEffects v) v.reports b₀ ++
    passLog v (fun _ => il2cppEffects v) v.reports b₁ ++
    passLog v (fun _ => monoEffects v) v.reports.zipIdx b₂ ++
    passLog v (materializationEffects v) v.reports b₃ ++
    passLog v (referenceEffects v) (referenceItems v.reports) b₄ ++
    passLog v (loaderEffects v) v.reports b₅ ++
    passLog v (wasmEffects v) v.reports b₆ ++
    passLog v (interpreterEffects v) v.reports b₇ ++
    passLog v (stemEffects v) (List.range v.plan.candidates.length) b₈

theorem runPasses_eq_foldl (v:View) (b:Build) :
    runPasses v b=(buildLog v b).foldl (Build.apply v) b:=by
  unfold buildLog runPasses
  simp only [foldl_append,← runPass_eq_foldl]

def relationshipKeys (v : View) (b : Build) : List String :=
  b.plan.relationships.map (relationshipKey v.fs)

def omittedKeys (v : View) (b : Build) : List String :=
  b.seen.filter fun key => !(relationshipKeys v b).contains key

structure Accounted (v : View) (b : Build) (done : List Effect) : Prop where
  proven : ∀ e, .emit e ∈ done → selfLoop v.fs e.relation = false →
    relationshipKey v.fs e.relation ∈ b.seen
  listed : ∀ key ∈ relationshipKeys v b, key∈b.seen
  omitted : (omittedKeys v b).length=b.plan.relationshipOmittedCount
  exhausted : omittedKeys v b ≠ [] → b.plan.relationshipBudgetExhausted=true

namespace Accounted

variable {v : View} {b b' : Build} {done : List Effect}

theorem step (h:Accounted v b done) {f:Effect}
    (hf:∀e,f=.emit e → selfLoop v.fs e.relation=false → relationshipKey v.fs e.relation∈b.seen)
    (hseen:b'.seen=b.seen) (hrelationships:b'.plan.relationships=b.plan.relationships)
    (homitted:b'.plan.relationshipOmittedCount=b.plan.relationshipOmittedCount)
    (hexhausted:b'.plan.relationshipBudgetExhausted=b.plan.relationshipBudgetExhausted) :
    Accounted v b' (done++[f]):=by
  have hkeys : relationshipKeys v b'=relationshipKeys v b:=by
    unfold relationshipKeys
    rw [hrelationships]
  have hkeys' : omittedKeys v b'=omittedKeys v b:=by
    unfold omittedKeys
    rw [hkeys,hseen]
  refine ⟨?_,?_,?_,?_⟩
  · intro e he hloop
    rw [hseen]
    rcases mem_append.mp he with he | he
    · exact h.proven e he hloop
    · exact hf e (mem_singleton.mp he).symm hloop
  · rw [hkeys,hseen]
    exact h.listed
  · rw [hkeys',homitted]
    exact h.omitted
  · rw [hkeys',hexhausted]
    exact h.exhausted

theorem emit (h:Accounted v b done) (e:Emission) :
    Accounted v (b.emit v e) (done++[.emit e]):=by
  rcases b.emit_cases v e with ⟨hb,hseen⟩ | ⟨hb,hnew,-⟩ | ⟨x,hx,-,hkey,hnew,-⟩
  · rw [hb]
    apply h.step _ rfl rfl rfl rfl
    intro e' he'
    obtain rfl:=Effect.emit.inj he'
    exact hseen
  · rw [hb]
    have hkeys : relationshipKey v.fs e.relation ∉ relationshipKeys v b:=
      fun hk=>hnew (h.listed _ hk)
    have homitted : omittedKeys v (b.omit (relationshipKey v.fs e.relation)) =
        omittedKeys v b++[relationshipKey v.fs e.relation]:=by
      unfold omittedKeys
      change (b.seen++[relationshipKey v.fs e.relation]).filter
        (fun key=>!(relationshipKeys v b).contains key) = _
      rw [filter_append]
      simp [hkeys]
    refine ⟨?_,?_,?_,fun _=>rfl⟩
    · intro e' he' hloop
      rcases mem_append.mp he' with he' | he'
      · exact mem_append_left _ (h.proven e' he' hloop)
      · obtain rfl:=Effect.emit.inj (mem_singleton.mp he')
        exact mem_append_right _ (mem_singleton_self _)
    · exact fun key hk=>mem_append_left _ (h.listed key hk)
    · rw [homitted,length_append,h.omitted]
      rfl
  · have hlist : relationshipKeys v (b.emit v e) =
        relationshipKeys v b++[relationshipKey v.fs e.relation]:=by
      unfold relationshipKeys
      rw [hx.relationships,map_append,map_singleton,hkey]
    have hseen : (b.emit v e).seen=b.seen++[relationshipKey v.fs e.relation]:=hx.seen
    rw [hkey] at hnew
    -- the new key is listed, so the omitted ones are those of before
    have homitted : omittedKeys v (b.emit v e)=omittedKeys v b:=by
      unfold omittedKeys
      rw [hlist,hseen,filter_append]
      have hlast : [relationshipKey v.fs e.relation].filter (fun key=>
          !(relationshipKeys v b++[relationshipKey v.fs e.relation]).contains key) = []:=by
        simp
      rw [hlast,append_nil]
      apply filter_congr
      intro key hk
      have hne : key≠relationshipKey v.fs e.relation:=fun he=>hnew (he▸hk)
      simp [hne]
    refine ⟨?_,?_,?_,?_⟩
    · intro e' he' hloop
      rw [hseen]
      rcases mem_append.mp he' with he' | he'
      · exact mem_append_left _ (h.proven e' he' hloop)
      · obtain rfl:=Effect.emit.inj (mem_singleton.mp he')
        exact mem_append_right _ (mem_singleton_self _)
    · rw [hlist,hseen]
      intro key hk
      rcases mem_append.mp hk with hk | hk
      · exact mem_append_left _ (h.listed key hk)
      · exact mem_append_right _ hk
    · rw [homitted,hx.omitted]
      exact h.omitted
    · rw [homitted,hx.exhausted]
      exact h.exhausted

theorem apply (h:Accounted v b done) (f:Effect) : Accounted v (b.apply v f) (done++[f]):=by
  cases f with
  | emit e=>exact h.emit e
  | lookups n=>exact h.step (by simp) rfl rfl rfl rfl
  | ambiguousReference=>exact h.step (by simp) rfl rfl rfl rfl
  | setRole i role=>exact h.step (by simp) rfl rfl rfl rfl
  | confirmMono root managed managedPath runtimePath=>exact h.step (by simp) rfl rfl rfl rfl

theorem foldl (h:Accounted v b done) (fs:List Effect) :
    Accounted v (fs.foldl (Build.apply v) b) (done++fs):=by
  induction fs generalizing b done with
  | nil=>simpa using h
  | cons f fs ih=>simpa using ih (h.apply f)

end Accounted

theorem build_accounted (fs:FileSystem) (plan:DirectoryPlan) (reports:List DirectoryReportIndex) :
    Accounted (viewOf fs plan reports) (buildDirectoryRelationships fs plan reports)
      (buildLog (viewOf fs plan reports) {plan:=clearedPlan plan,reports}):=by
  unfold buildDirectoryRelationships
  rw [runPasses_eq_foldl]
  have hstart : Accounted (viewOf fs plan reports) {plan:=clearedPlan plan,reports} []:=
    ⟨by simp,by simp [relationshipKeys,clearedPlan],rfl,fun h=>absurd rfl h⟩
  simpa using hstart.foldl (buildLog (viewOf fs plan reports) _)

/-- A key value of a source that opens exactly one encrypted PCK. -/
structure GodotExternalPckValidation where
  (source target : NativePath)
  (sourceCoordinate targetCoordinate : String)
  deriving DecidableEq, Repr

def godotSemanticRelation (v : GodotExternalPckValidation) : DirectoryRelationship where
  first := v.source
  second := v.target
  directed := true
  kind := "godot_external_pck_semantic_key"
  state := .confirmed
  firstRole := "semantic_key_source"
  secondRole := "semantic_payload"
  firstRelationRole := "semantic_value_source"
  secondRelationRole := "semantic_value_target"
  evidenceBasis := "unique bounded native 256-bit value validated by exact PCK AES-CFB/plaintext-MD5/directory-structure oracle"
  evidenceSource := "Godot external semantic producer"
  sourceCoordinate := v.sourceCoordinate
  targetCoordinate := v.targetCoordinate
  provenanceScope := "exact source artifact -> exact target encrypted PCK; directory/name proximity is routing only, not semantic evidence"
  evidenceLevel := "R4_SEMANTIC_APPLICATION_RELATION"
  semanticRelevance := "APPLICATION"
  priorityEligible := true
  secondPriorityDelta := 50
  reason := "exact source key value uniquely validates this encrypted PCK and closes a semantic source->target relation"

def modifyFirst {α : Type*} (p : α→Bool) (f : α→α) : List α → List α
  | [] => []
  | x::xs => if p x then f x :: xs else x :: modifyFirst p f xs

def relateBounded (limit : ℕ) (related : NativePath) (c : DirectoryCandidate) :
    DirectoryCandidate :=
  if related ∈ c.relatedFiles ∨ c.relatedFiles.length ≥ limit then c
  else {c with relatedFiles:=c.relatedFiles++[related]}

section Godot

variable (reportKey : NativePath→String)

def addDirectorySemanticPriority (plan : DirectoryPlan) (path : NativePath) (delta : ℤ)
    (reason : String) (related : NativePath) : DirectoryPlan :=
  { plan with
    candidates:=modifyFirst (fun c => reportKey c.path == reportKey path)
      (fun c =>
        let c := {c with relationshipPriorityBoost:=c.relationshipPriorityBoost+delta}
        let c := c.addReason delta reason
        if related.empty then c else relateBounded plan.maxRelatedFilesPerArtifact related c)
      plan.candidates }

def sameSemanticRelation (x y : DirectoryRelationship) : Bool :=
  x.kind == y.kind && reportKey x.first == reportKey y.first &&
    reportKey x.second == reportKey y.second

def listedRelation (plan : DirectoryPlan) (x : DirectoryRelationship) : Bool :=
  plan.relationships.any fun r => sameSemanticRelation reportKey r x

def addGodotSemanticRelationship (plan : DirectoryPlan) (v : GodotExternalPckValidation) :
    DirectoryPlan :=
  let x := godotSemanticRelation v
  let duplicate := listedRelation reportKey plan x
  let plan :=
    if !duplicate && decide (plan.relationships.length < plan.maxRelationships) then
      {plan with relationships:=plan.relationships++[x]}
    else plan
  let plan := addDirectorySemanticPriority reportKey plan v.target 50 x.reason v.source
  { plan with
    candidates:=modifyFirst (fun c => reportKey c.path == reportKey v.source)
      (relateBounded plan.maxRelatedFilesPerArtifact v.target) plan.candidates }

def addGodotSemanticRelationships (plan : DirectoryPlan) (vs : List GodotExternalPckValidation) :
    DirectoryPlan :=
  vs.foldl (addGodotSemanticRelationship reportKey) plan

variable {reportKey} {plan : DirectoryPlan} {v : GodotExternalPckValidation}

theorem add_relationships : (addGodotSemanticRelationship reportKey plan v).relationships =
      if listedRelation reportKey plan (godotSemanticRelation v) = false ∧
          plan.relationships.length < plan.maxRelationships then
        plan.relationships++[godotSemanticRelation v]
      else plan.relationships:=by
  unfold addGodotSemanticRelationship addDirectorySemanticPriority
  dsimp only
  cases listedRelation reportKey plan (godotSemanticRelation v) <;>
    by_cases h : plan.relationships.length<plan.maxRelationships <;> simp [h]

theorem add_frame :
    (addGodotSemanticRelationship reportKey plan v).maxRelationships=plan.maxRelationships ∧
      (addGodotSemanticRelationship reportKey plan v).relationshipOmittedCount =
        plan.relationshipOmittedCount ∧
      (addGodotSemanticRelationship reportKey plan v).relationshipBudgetExhausted =
        plan.relationshipBudgetExhausted:=by
  unfold addGodotSemanticRelationship addDirectorySemanticPriority
  dsimp only
  split_ifs <;> exact ⟨rfl,rfl,rfl⟩

theorem addAll_frame (vs:List GodotExternalPckValidation) :
    (addGodotSemanticRelationships reportKey plan vs).maxRelationships=plan.maxRelationships ∧
      (addGodotSemanticRelationships reportKey plan vs).relationshipOmittedCount =
        plan.relationshipOmittedCount ∧
      (addGodotSemanticRelationships reportKey plan vs).relationshipBudgetExhausted =
        plan.relationshipBudgetExhausted:=by
  induction vs generalizing plan with
  | nil=>exact ⟨rfl,rfl,rfl⟩
  | cons v vs ih=>
    obtain ⟨h₁,h₂,h₃⟩:=@ih (addGodotSemanticRelationship reportKey plan v)
    obtain ⟨k₁,k₂,k₃⟩:=@add_frame reportKey plan v
    exact ⟨h₁.trans k₁,h₂.trans k₂,h₃.trans k₃⟩

theorem addAll_extends (vs:List GodotExternalPckValidation) :
    plan.relationships <+: (addGodotSemanticRelationships reportKey plan vs).relationships:=by
  induction vs generalizing plan with
  | nil=>exact prefix_rfl
  | cons v vs ih=>
    refine List.IsPrefix.trans ?_ ih
    rw [add_relationships]
    split_ifs
    · exact prefix_append _ _
    · exact prefix_rfl

theorem addAll_of_full (h:plan.maxRelationships≤plan.relationships.length)
    (vs:List GodotExternalPckValidation) :
    (addGodotSemanticRelationships reportKey plan vs).relationships=plan.relationships:=by
  induction vs generalizing plan with
  | nil=>rfl
  | cons v vs ih=>
    have hsame : (addGodotSemanticRelationship reportKey plan v).relationships =
        plan.relationships:=by
      rw [add_relationships,if_neg (by omega)]
    have hmax:=(@add_frame reportKey plan v).1
    have hfull:=@ih (addGodotSemanticRelationship reportKey plan v)
      (by rw [hmax,hsame];exact h)
    exact hfull.trans hsame

end Godot

/-- The plan of a whole run, relationships first and the semantic Godot pass after them. -/
structure RelationshipRun where
  fs : FileSystem
  reportKey : NativePath → String
  plan : DirectoryPlan
  reports : List DirectoryReportIndex
  validations : List GodotExternalPckValidation

namespace RelationshipRun

variable (run : RelationshipRun)

def view : View := viewOf run.fs run.plan run.reports

def built : Build := buildDirectoryRelationships run.fs run.plan run.reports

def proven : List Effect := buildLog run.view {plan:=clearedPlan run.plan,reports:=run.reports}

def planAfter (vs : List GodotExternalPckValidation) : DirectoryPlan :=
  addGodotSemanticRelationships run.reportKey run.built.plan vs

def final : DirectoryPlan := run.planAfter run.validations

/-- Every relation is in the final list or counted as omitted, and a relation that is
neither has lifted no candidate. -/
structure NoSilentLoss : Prop where
  built : ∀ e, .emit e ∈ run.proven → selfLoop run.fs e.relation = false →
    (∃ x∈run.final.relationships,
      relationshipKey run.fs x = relationshipKey run.fs e.relation) ∨
    (relationshipKey run.fs e.relation ∈ omittedKeys run.view run.built ∧
      run.final.relationshipBudgetExhausted = true)
  counted : (omittedKeys run.view run.built).length=run.final.relationshipOmittedCount
  boosts : ∀ (i : ℕ) (c₀ c : DirectoryCandidate), run.plan.candidates[i]? = some c₀ →
    run.built.plan.candidates[i]? = some c →
    c.priorityScore = c₀.priorityScore + totalBoost run.view i run.built.plan.relationships
  semantic : ∀ vs v rest, run.validations=vs++v::rest →
    listedRelation run.reportKey run.final (godotSemanticRelation v) = true ∨
    ((run.planAfter (vs++[v])).relationshipOmittedCount =
      (run.planAfter vs).relationshipOmittedCount + 1 ∧
      (run.planAfter (vs++[v])).relationshipBudgetExhausted = true)

/-- Whenever the Godot pass adds a relation that is not listed yet, the list has room. -/
def HasRoom : Prop :=
  ∀ vs v rest, run.validations=vs++v::rest →
    listedRelation run.reportKey (run.planAfter vs) (godotSemanticRelation v)=true ∨
      (run.planAfter vs).relationships.length < (run.planAfter vs).maxRelationships

theorem final_eq {vs rest:List GodotExternalPckValidation} {v:GodotExternalPckValidation}
    (h:run.validations=vs++v::rest) :
    run.final=addGodotSemanticRelationships run.reportKey
      (addGodotSemanticRelationship run.reportKey (run.planAfter vs) v) rest:=by
  unfold final planAfter addGodotSemanticRelationships
  rw [h,foldl_append]
  rfl

theorem listedRelation_of_prefix {p q:DirectoryPlan} {x:DirectoryRelationship}
    (h:p.relationships <+: q.relationships)
    (hx:listedRelation run.reportKey p x=true) : listedRelation run.reportKey q x=true:=by
  obtain ⟨r,hr,hsame⟩:=any_eq_true.mp hx
  exact any_eq_true.mpr ⟨r,h.subset hr,hsame⟩

theorem semantic_listed_iff {vs rest:List GodotExternalPckValidation}
    {v:GodotExternalPckValidation} (h:run.validations=vs++v::rest) :
    listedRelation run.reportKey run.final (godotSemanticRelation v)=true ↔
      (listedRelation run.reportKey (run.planAfter vs) (godotSemanticRelation v)=true ∨
        (run.planAfter vs).relationships.length<(run.planAfter vs).maxRelationships):=by
  rw [run.final_eq h]
  generalize run.planAfter vs = p
  constructor
  · intro hlisted
    by_contra hno
    simp only [not_or,Bool.not_eq_true,Nat.not_lt] at hno
    have hsame : (addGodotSemanticRelationship run.reportKey p v).relationships =
        p.relationships:=by
      rw [add_relationships,if_neg (by omega)]
    have hfull:=@addAll_of_full run.reportKey
      (addGodotSemanticRelationship run.reportKey p v)
      (by rw [add_frame.1,hsame];exact hno.2) rest
    unfold listedRelation at hlisted hno
    rw [hfull,hsame,hno.1] at hlisted
    cases hlisted
  · intro hroom
    apply run.listedRelation_of_prefix (addAll_extends rest)
    unfold listedRelation
    rw [add_relationships]
    cases hlisted : listedRelation run.reportKey p (godotSemanticRelation v) with
    | true=>
      simp only [Bool.true_eq_false,false_and,if_false]
      exact hlisted
    | false=>
      have hlt : p.relationships.length<p.maxRelationships:=by
        simpa [hlisted] using hroom
      simp [hlt,sameSemanticRelation]

/-- The relations of a run are all listed or counted exactly if the list has room whenever
the Godot pass adds to it. -/
theorem noSilentLoss_iff : run.NoSilentLoss ↔ run.HasRoom := by
  have haccounted:=build_accounted run.fs run.plan run.reports
  have hframe:=@addAll_frame run.reportKey run.built.plan run.validations
  constructor
  · intro h vs v rest hsplit
    apply (run.semantic_listed_iff hsplit).mp
    rcases h.semantic vs v rest hsplit with hlisted | ⟨hcount,-⟩
    · exact hlisted
    · exfalso
      have hbefore:=(@addAll_frame run.reportKey run.built.plan vs).2.1
      have hafter:=(@addAll_frame run.reportKey run.built.plan (vs++[v])).2.1
      unfold planAfter at hcount
      omega
  · intro hroom
    refine ⟨?_,?_,?_,?_⟩
    · intro e he hloop
      have hseen:=haccounted.proven e he hloop
      by_cases hlisted : relationshipKey run.fs e.relation∈relationshipKeys run.view run.built
      · left
        obtain ⟨x,hx,hkey⟩:=mem_map.mp hlisted
        exact ⟨x,(addAll_extends run.validations).subset hx,hkey⟩
      · right
        have homitted : relationshipKey run.fs e.relation∈omittedKeys run.view run.built:=
          mem_filter.mpr ⟨hseen,by simpa using hlisted⟩
        exact ⟨homitted,hframe.2.2.trans (haccounted.exhausted (ne_nil_of_mem homitted))⟩
    · exact haccounted.omitted.trans hframe.2.1.symm
    · intro i c₀ c hc₀ hc
      obtain ⟨c₁,hc₁,hs⟩:=(build_scoreInvariant run.fs run.plan run.reports).standing i c hc
      simp only [viewOf,clearedPlan,getElem?_map,hc₀,Option.map_some, Option.some.injEq] at hc₁
      subst hc₁
      exact hs.score
    · intro vs v rest hsplit
      exact .inl ((run.semantic_listed_iff hsplit).mpr (hroom vs v rest hsplit))

end RelationshipRun

/-- One IL2CPP pair fills the list before the Godot pass adds its relation. -/
def fullListRun : RelationshipRun where
  fs := plainFileSystem
  reportKey p := p.native
  plan := { il2cppPlan with
    maxRelationships:=1
    candidates:=il2cppPlan.candidates ++ [{path:=⟨"g/game.exe"⟩},{path:=⟨"g/game.pck"⟩}] }
  reports := [il2cppReport]
  validations := [⟨⟨"g/game.exe"⟩,⟨"g/game.pck"⟩,"",""⟩]

/-- The relation of the Godot pass is neither listed nor counted, and its target is lifted
by 50 all the same. -/
theorem godot_relation_lost : ¬fullListRun.NoSilentLoss ∧
      (fullListRun.final.candidates.map (·.priorityScore))=[25,25,0,50]:=by
  refine ⟨?_,by decide +kernel⟩
  intro h
  have hsplit : fullListRun.validations = [] ++ ⟨⟨"g/game.exe"⟩,⟨"g/game.pck"⟩,"",""⟩::[]:=rfl
  rcases h.semantic _ _ _ hsplit with hlisted | ⟨-,hflag⟩
  · have hnot : listedRelation fullListRun.reportKey fullListRun.final
        (godotSemanticRelation ⟨⟨"g/game.exe"⟩,⟨"g/game.pck"⟩,"",""⟩) = false:=by
      decide +kernel
    rw [hnot] at hlisted
    cases hlisted
  · have hnot : (fullListRun.planAfter
        ([]++[⟨⟨"g/game.exe"⟩,⟨"g/game.pck"⟩,"",""⟩])).relationshipBudgetExhausted = false:=by
      decide +kernel
    rw [hnot] at hflag
    cases hflag

end AutoRefirst.DirectoryRelationships
