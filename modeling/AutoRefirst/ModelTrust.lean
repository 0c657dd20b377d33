import AutoRefirst.ByteText
import AutoRefirst.OrderedMap
import AutoRefirst.Peaks
import Mathlib.Data.List.Perm.Basic

/-!
# Model trust

The facts that speak for or against a static model, each with the strength of its evidence,
are collected per semantic scope and model, and every group is given one state. The report
counts the states and condenses them into its guidance.
-/

namespace AutoRefirst.ModelTrust

/-- Larger values are stronger evidence. -/
inductive ModelEvidenceLevel where
  | none | modelInternalRoundTrip | offlineModel | chosenInputOracle
  | exactKnownGoodReference | lowDisturbanceNativeBoundary | originalNativeResult
deriving DecidableEq, Repr

inductive ModelReferenceRelation where
  | notApplicable | exactMatch | semanticMatch | exactDifference | unavailable
deriving DecidableEq, Repr

inductive ModelSemanticState where
  | unresolved | modelOnly | stockCompatiblePartial | stockConfirmed
  | modifiedUnresolved | exactDeltaRecovered
deriving DecidableEq, Repr

inductive ModelRelation where
  | none | supports | contradicts
deriving DecidableEq, Repr

inductive ModelTrustState where
  | unresolved | referenceUnavailable | modelOnly | stockModelPartial | stockModelSafe
  | exactModifiedSemantics | unresolvedModifiedRuntime | evidenceConflictUnresolved
  | staticModelContradictedByHigherEvidence
deriving DecidableEq, Repr

structure ModelTrustFact where
  (plane semantic_scope reference_scope model_id : Bytes := [])
  evidence_level : ModelEvidenceLevel := .none
  reference_relation : ModelReferenceRelation := .notApplicable
  semantic_state : ModelSemanticState := .unresolved
  model_relation : ModelRelation := .none
  scope_complete : Bool := false
  delta_items : ℕ := 0
  evidence : Bytes := []
deriving DecidableEq, Repr

structure ModelTrustAssessment where
  (semantic_scope model_id : Bytes := [])
  state : ModelTrustState := .unresolved
  evidence_ceiling : ModelEvidenceLevel := .none
  fact_indices : List ℕ := []
deriving DecidableEq, Repr

structure ModelTrustReport where
  facts : List ModelTrustFact := []
  assessments : List ModelTrustAssessment := []
  guidance : ModelTrustState := .unresolved
  (stock_safe_scopes stock_partial_scopes exact_modified_scopes unresolved_modified_scopes
    model_only_scopes reference_unavailable_scopes contradicted_model_scopes
    evidence_conflict_scopes unresolved_scopes : ℕ := 0)
deriving DecidableEq, Repr

/-- `static_cast<int>` of a level. -/
def strength : ModelEvidenceLevel → ℕ
  | .none => 0
  | .modelInternalRoundTrip => 1
  | .offlineModel => 2
  | .chosenInputOracle => 3
  | .exactKnownGoodReference => 4
  | .lowDisturbanceNativeBoundary => 5
  | .originalNativeResult => 6

/-- `static_cast<ModelEvidenceLevel>` of the ceiling. -/
def levelOf : ℕ → ModelEvidenceLevel
  | 0 => .none
  | 1 => .modelInternalRoundTrip
  | 2 => .offlineModel
  | 3 => .chosenInputOracle
  | 4 => .exactKnownGoodReference
  | 5 => .lowDisturbanceNativeBoundary
  | _ => .originalNativeResult

namespace ModelTrustFact

def supports (f : ModelTrustFact) : Bool :=
  f.model_relation == .supports || f.semantic_state == .stockConfirmed ||
    f.semantic_state == .stockCompatiblePartial || f.semantic_state == .modelOnly

def contradicts (f : ModelTrustFact) : Bool := f.model_relation == .contradicts

def level (f : ModelTrustFact) : ℕ := strength f.evidence_level

end ModelTrustFact

/-- The maxima of the first loop of `assess_group`. -/
structure Strongest where
  (ceiling support contradiction : ℕ := 0)

def Strongest.weigh (s : Strongest) (f : ModelTrustFact) : Strongest where
  ceiling := max s.ceiling (strength f.evidence_level)
  support := if f.supports then max s.support (strength f.evidence_level) else s.support
  contradiction :=
    if f.contradicts then max s.contradiction (strength f.evidence_level) else s.contradiction

/-- The flags of the second loop of `assess_group`. -/
structure Flags where
  (stock stock_partial modified exact_delta model_only stock_complete reference_unavailable
    : Bool := false)

def Flags.note (ceiling : ℕ) (s : Flags) (f : ModelTrustFact) : Flags :=
  if strength f.evidence_level ≠ ceiling then s
  else
    let s := { s with
      reference_unavailable:=s.reference_unavailable || f.reference_relation == .unavailable }
    match f.semantic_state with
    | .stockConfirmed =>
      {s with stock:=true,stock_complete:=s.stock_complete || f.scope_complete}
    | .stockCompatiblePartial => {s with stock_partial:=true}
    | .modifiedUnresolved => {s with modified:=true}
    | .exactDeltaRecovered => {s with exact_delta:=true}
    | .modelOnly => {s with model_only:=true}
    | .unresolved => s

def Flags.conclude (s : Flags) : ModelTrustState :=
  if (s.stock || s.stock_partial) && (s.modified || s.exact_delta) then .evidenceConflictUnresolved
  else if s.modified then .unresolvedModifiedRuntime
  else if s.exact_delta then .exactModifiedSemantics
  else if s.stock then (if s.stock_complete then .stockModelSafe else .stockModelPartial)
  else if s.stock_partial then .stockModelPartial
  else if s.model_only then .modelOnly
  else if s.reference_unavailable then .referenceUnavailable
  else .unresolved

/-- The state of a group. A higher-level oracle can invalidate a lower-level model conclusion;
equal-level disagreement remains unresolved; lower evidence never wins. -/
def group_state (group : List ModelTrustFact) : ModelTrustState :=
  let s := group.foldl Strongest.weigh {}
  if 0 < s.contradiction ∧ s.contradiction = s.ceiling ∧ s.support < s.contradiction then
    .staticModelContradictedByHigherEvidence
  else if 0 < s.contradiction ∧ s.contradiction = s.ceiling ∧ s.contradiction = s.support then
    .evidenceConflictUnresolved
  else (group.foldl (Flags.note s.ceiling) {}).conclude

def assess_group (facts : List ModelTrustFact) : List ℕ → ModelTrustAssessment
  | [] => {}
  | front::rest =>
    let group := (front::rest).map fun i => facts.getD i {}
    { semantic_scope:=(facts.getD front {}).semantic_scope,model_id:=(facts.getD front {}).model_id
      state:=group_state group,evidence_ceiling:=levelOf (group.foldl Strongest.weigh {}).ceiling
      fact_indices:=front::rest }

/-- The counters have 32 bits. -/
def bump (n : ℕ) : ℕ := (n+1) % 2^32

def count_state (out : ModelTrustReport) : ModelTrustState → ModelTrustReport
  | .stockModelSafe => {out with stock_safe_scopes:=bump out.stock_safe_scopes}
  | .stockModelPartial => {out with stock_partial_scopes:=bump out.stock_partial_scopes}
  | .exactModifiedSemantics =>
    {out with exact_modified_scopes:=bump out.exact_modified_scopes}
  | .unresolvedModifiedRuntime =>
    {out with unresolved_modified_scopes:=bump out.unresolved_modified_scopes}
  | .modelOnly => {out with model_only_scopes:=bump out.model_only_scopes}
  | .referenceUnavailable =>
    {out with reference_unavailable_scopes:=bump out.reference_unavailable_scopes}
  | .staticModelContradictedByHigherEvidence =>
    {out with contradicted_model_scopes:=bump out.contradicted_model_scopes}
  | .evidenceConflictUnresolved =>
    {out with evidence_conflict_scopes:=bump out.evidence_conflict_scopes}
  | .unresolved => {out with unresolved_scopes:=bump out.unresolved_scopes}

def aggregate_guidance (out : ModelTrustReport) : ModelTrustState :=
  let weak_or_partial := out.unresolved_scopes ≠ 0 ∨ out.model_only_scopes ≠ 0 ∨
    out.reference_unavailable_scopes ≠ 0 ∨ out.stock_partial_scopes ≠ 0
  if out.contradicted_model_scopes ≠ 0 then .staticModelContradictedByHigherEvidence
  else if out.unresolved_modified_scopes ≠ 0 then .unresolvedModifiedRuntime
  else if out.evidence_conflict_scopes ≠ 0 then .evidenceConflictUnresolved
  else if out.exact_modified_scopes ≠ 0 ∧ ¬ weak_or_partial then .exactModifiedSemantics
  else if weak_or_partial then
    if out.stock_safe_scopes ≠ 0 ∨ out.stock_partial_scopes ≠ 0 then .stockModelPartial
    else if out.model_only_scopes ≠ 0 ∧ out.reference_unavailable_scopes = 0 then .modelOnly
    else .unresolved
  else if out.stock_safe_scopes ≠ 0 then .stockModelSafe
  else .unresolved

structure GroupKey where
  (semantic_scope model_id : Bytes)
deriving DecidableEq, Repr

instance : Ord GroupKey where
  compare := compareLex (compareOn GroupKey.semantic_scope) (compareOn GroupKey.model_id)

def ModelTrustFact.key (f : ModelTrustFact) : GroupKey := ⟨f.semantic_scope,f.model_id⟩

/-- `groups[{f.semantic_scope,f.model_id}].push_back(i)`, for facts that name a scope. -/
def collect (facts : List ModelTrustFact) (groups : OrderedMap GroupKey (List ℕ)) (i : ℕ) :
    OrderedMap GroupKey (List ℕ) :=
  let f := facts.getD i {}
  if f.semantic_scope.isEmpty then groups
  else groups.insert f.key ((groups.find f.key).getD [] ++ [i])

def groupsOf (facts : List ModelTrustFact) : OrderedMap GroupKey (List ℕ) :=
  (List.range facts.length).foldl (collect facts) []

def build_model_trust_report (facts : List ModelTrustFact) : ModelTrustReport :=
  let assessments := (groupsOf facts).map fun g => assess_group facts g.2
  let out := (assessments.map (·.state)).foldl count_state { facts, assessments }
  {out with guidance:=aggregate_guidance out}

/-! The state of a group is decided by its strongest facts alone: by the set of them, and not by
the order they came in. -/

open ModelTrustFact

/-- The strength of the strongest evidence. -/
def ceiling (group : List ModelTrustFact) : ℕ := peak (fun _ => true) level group

def top (group : List ModelTrustFact) : List ModelTrustFact :=
  group.filter fun f => f.level == ceiling group

variable {f : ModelTrustFact}

theorem mem_top {group:List ModelTrustFact} : f∈top group ↔ f∈group ∧ f.level=ceiling group:=by
  simp [top]

theorem foldl_weigh (group:List ModelTrustFact) (s:Strongest) : group.foldl Strongest.weigh s =
      { ceiling:=peakFrom (fun _=>true) level s.ceiling group
        support:=peakFrom supports level s.support group
        contradiction:=peakFrom contradicts level s.contradiction group }:=by
  induction group generalizing s with
  | nil=>rfl
  | cons f group ih=>
    rw [List.foldl_cons,ih]
    rfl

def Flags.or (s t : Flags) : Flags where
  stock := s.stock || t.stock
  stock_partial := s.stock_partial || t.stock_partial
  modified := s.modified || t.modified
  exact_delta := s.exact_delta || t.exact_delta
  model_only := s.model_only || t.model_only
  stock_complete := s.stock_complete || t.stock_complete
  reference_unavailable := s.reference_unavailable || t.reference_unavailable

def Flags.of (facts : List ModelTrustFact) : Flags where
  stock := facts.any fun f => f.semantic_state == .stockConfirmed
  stock_partial := facts.any fun f => f.semantic_state == .stockCompatiblePartial
  modified := facts.any fun f => f.semantic_state == .modifiedUnresolved
  exact_delta := facts.any fun f => f.semantic_state == .exactDeltaRecovered
  model_only := facts.any fun f => f.semantic_state == .modelOnly
  stock_complete := facts.any fun f => f.semantic_state == .stockConfirmed && f.scope_complete
  reference_unavailable := facts.any fun f => f.reference_relation == .unavailable

theorem foldl_note (c:ℕ) (group:List ModelTrustFact) (s:Flags) :
    group.foldl (Flags.note c) s=s.or (Flags.of (group.filter fun f=>f.level == c)):=by
  induction group generalizing s with
  | nil=>simp [Flags.or,Flags.of]
  | cons f group ih=>
    rw [List.foldl_cons,ih]
    by_cases hc : f.level=c
    · rw [List.filter_cons_of_pos (by simpa using hc)]
      have hc' : strength f.evidence_level=c:=hc
      cases hs : f.semantic_state <;>
        simp [Flags.note,Flags.or,Flags.of,hc',hs,Bool.or_assoc,beq_eq_decide]
    · rw [List.filter_cons_of_neg (by simpa using hc)]
      have hc' : strength f.evidence_level≠c:=hc
      simp [Flags.note,hc']

def verdict (c : ℕ) (facts : List ModelTrustFact) : ModelTrustState :=
  if 0 < c ∧ facts.any contradicts = true then
    if facts.any supports = true then .evidenceConflictUnresolved
    else .staticModelContradictedByHigherEvidence
  else (Flags.of facts).conclude

theorem peak_eq_ceiling {p:ModelTrustFact→Bool} {group:List ModelTrustFact}
    (hpos:0<ceiling group) : peak p level group=ceiling group ↔ (top group).any p=true:=by
  constructor
  · intro heq
    obtain ⟨f,hf,hp,hlevel⟩:=exists_of_peak_pos (heq▸hpos)
    exact List.any_eq_true.mpr ⟨f,mem_top.mpr ⟨hf,hlevel.trans heq⟩,hp⟩
  · intro hany
    obtain ⟨f,hf,hp⟩:=List.any_eq_true.mp hany
    obtain ⟨hmem,hlevel⟩:=mem_top.mp hf
    have hle : ceiling group≤peak p level group:=hlevel▸le_peak hmem hp
    exact Nat.le_antisymm (peak_le_iff.mpr fun _ hg _=>le_peak hg rfl) hle

theorem peak_le_ceiling (p:ModelTrustFact→Bool) (group:List ModelTrustFact) :
    peak p level group ≤ ceiling group:=
  peak_le_iff.mpr fun _ hg _=>le_peak hg rfl

theorem group_state_eq (group:List ModelTrustFact) :
    group_state group=verdict (ceiling group) (top group):=by
  have hflags : group.foldl (Flags.note (ceiling group)) {}=Flags.of (top group):=by
    rw [foldl_note]
    simp [Flags.or,top]
  have hstrongest : group.foldl Strongest.weigh {} =
      { ceiling:=ceiling group,support:=peak supports level group
        contradiction:=peak contradicts level group }:=foldl_weigh group {}
  have hsupport:=peak_le_ceiling supports group
  rw [group_state,hstrongest,hflags,verdict]
  by_cases hpos : 0<ceiling group
  · have hcontradiction:=peak_eq_ceiling (p:=contradicts) hpos
    have hsupports:=peak_eq_ceiling (p:=supports) hpos
    by_cases hc : (top group).any contradicts=true
    · have heq:=hcontradiction.mpr hc
      by_cases hs : (top group).any supports=true
      · have heq':=hsupports.mpr hs
        simp [hc,hs,heq,heq',hpos]
      · have hlt : peak supports level group<ceiling group:=
          Nat.lt_of_le_of_ne hsupport fun h=>hs (hsupports.mp h)
        simp [hc,hs,heq,hlt,hpos]
    · have hne : peak contradicts level group≠ceiling group:=fun h=>hc (hcontradiction.mp h)
      simp [hc,hne]
  · have hzero : ceiling group=0:=by omega
    have hnone : peak contradicts level group=0:=by
      have:=peak_le_ceiling contradicts group
      omega
    simp [hzero,hnone]

variable {group other : List ModelTrustFact}

theorem Flags.of_congr (h:∀f,f∈group ↔ f∈other) : Flags.of group=Flags.of other:=by
  simp only [Flags.of,any_congr_of_mem h]

theorem ceiling_congr (h:∀f,f∈group ↔ f∈other) : ceiling group=ceiling other:=peak_congr h

theorem group_state_congr (h:∀f,f∈group ↔ f∈other) : group_state group=group_state other:=by
  have htop : ∀f,f∈top group ↔ f∈top other:=by
    intro f
    rw [mem_top,mem_top,h,ceiling_congr h]
  rw [group_state_eq,group_state_eq,ceiling_congr h,verdict,verdict,any_congr_of_mem htop,
    any_congr_of_mem htop,Flags.of_congr htop]

theorem group_state_cons {g:ModelTrustFact} (hg:g∈group) (hlt:f.level<g.level) :
    group_state (f::group)=group_state group:=by
  have hbelow : f.level<ceiling group:=Nat.lt_of_lt_of_le hlt (le_peak hg rfl)
  have hceiling : ceiling (f::group)=ceiling group:=by
    refine Nat.le_antisymm (peak_le_iff.mpr fun x hx _=>?_)
      (peak_le_iff.mpr fun x hx _=>le_peak (List.mem_cons_of_mem _ hx) rfl)
    rcases List.mem_cons.mp hx with rfl | hmem
    · exact Nat.le_of_lt hbelow
    · exact le_peak hmem rfl
  have htop : top (f::group)=top group:=by
    rw [top,hceiling,List.filter_cons_of_neg (by simpa using Nat.ne_of_lt hbelow),top]
  rw [group_state_eq,group_state_eq,hceiling,htop]

instance : Std.TransOrd GroupKey :=
  inferInstanceAs (Std.TransCmp (compareLex (compareOn GroupKey.semantic_scope)
    (compareOn GroupKey.model_id)))

instance : Std.LawfulEqOrd GroupKey where
  compare_self := Std.ReflCmp.compare_self
  eq_of_compare {a b} h := by
    have hthen : (compare a.semantic_scope b.semantic_scope).then
        (compare a.model_id b.model_id) = .eq := h
    obtain ⟨hscope,hmodel⟩ := Ordering.then_eq_eq.mp hthen
    rw [Std.compare_eq_iff_eq] at hscope hmodel
    cases a
    cases b
    simp_all

def groupFacts (facts : List ModelTrustFact) (k : GroupKey) : List ModelTrustFact :=
  facts.filter fun f => f.key == k

variable {facts : List ModelTrustFact} {k : GroupKey}

theorem mem_groupFacts : f∈groupFacts facts k ↔ f∈facts ∧ f.key=k:=by
  simp [groupFacts]

def indicesOf (facts : List ModelTrustFact) (k : GroupKey) (n : ℕ) : List ℕ :=
  (List.range n).filter fun i => (facts.getD i {}).key == k

theorem map_indicesOf (facts:List ModelTrustFact) (k:GroupKey) :
    (indicesOf facts k facts.length).map (fun i=>facts.getD i {}) = groupFacts facts k:=by
  have hall : (List.range facts.length).map (fun i=>facts.getD i {}) = facts:=by
    apply List.ext_getElem
    · simp
    · intro i hi hi'
      simp [hi']
  conv_rhs=>rw [groupFacts,← hall,List.filter_map]
  rfl

structure Collected (facts : List ModelTrustFact) (n : ℕ)
    (groups : OrderedMap GroupKey (List ℕ)) : Prop where
  sorted : groups.Sorted
  mem_iff : ∀ e, e∈groups ↔
    e.1.semantic_scope ≠ [] ∧ e.2≠[] ∧ e.2 = indicesOf facts e.1 n

theorem indicesOf_succ (facts:List ModelTrustFact) (k:GroupKey) (n:ℕ) : indicesOf facts k (n+1) =
      indicesOf facts k n++if (facts.getD n {}).key = k then [n] else []:=by
  rw [indicesOf,List.range_succ,List.filter_append,indicesOf,List.append_cancel_left_eq]
  split <;> simp_all

theorem Collected.find {n:ℕ} {groups:OrderedMap GroupKey (List ℕ)}
    (h:Collected facts n groups) (hk:k.semantic_scope≠[]) :
    (groups.find k).getD []=indicesOf facts k n:=by
  cases hfind : groups.find k with
  | some is=>exact ((h.mem_iff _).mp (OrderedMap.find_eq_some hfind)).2.2
  | none=>
    by_contra hne
    exact OrderedMap.find_eq_none hfind ((h.mem_iff (k,indicesOf facts k n)).mpr
      ⟨hk,fun hnil=>hne hnil.symm,rfl⟩) rfl

theorem Collected.step {n:ℕ} {groups:OrderedMap GroupKey (List ℕ)}
    (h:Collected facts n groups) :
    Collected facts (n+1) (collect facts groups n):=by
  rw [collect]
  split
  · rename_i hempty
    refine ⟨h.sorted,fun e=>?_⟩
    rw [h.mem_iff,indicesOf_succ]
    refine and_congr_right fun hscope=>?_
    have hne : (facts.getD n {}).key≠e.1:=by
      rintro heq
      exact hscope (heq▸List.isEmpty_iff.mp hempty)
    rw [if_neg hne,List.append_nil]
  · rename_i hnonempty
    have hscope : (facts.getD n {}).key.semantic_scope≠[]:=
      fun hnil=>hnonempty (List.isEmpty_iff.mpr hnil)
    refine ⟨OrderedMap.sorted_insert h.sorted _ _,fun e=>?_⟩
    rw [OrderedMap.mem_insert_iff h.sorted,h.find hscope,h.mem_iff,indicesOf_succ]
    by_cases heq : e.1=(facts.getD n {}).key
    · rw [if_pos heq.symm,← heq]
      constructor
      · rintro (hpair | ⟨-,hne⟩)
        · have hindices : e.2 = indicesOf facts e.1 n++[n]:=congrArg Prod.snd hpair
          exact ⟨heq▸hscope,by simp [hindices],hindices⟩
        · exact absurd rfl hne
      · rintro ⟨-,-,hindices⟩
        exact Or.inl (Prod.ext rfl hindices)
    · rw [if_neg (Ne.symm heq),List.append_nil]
      constructor
      · rintro (rfl | ⟨hmem,-⟩)
        · exact absurd rfl heq
        · exact hmem
      · exact fun hmem=>Or.inr ⟨hmem,heq⟩

theorem collected_groupsOf (facts:List ModelTrustFact) :
    Collected facts facts.length (groupsOf facts):=by
  rw [groupsOf]
  induction facts.length with
  | zero=>exact ⟨List.Pairwise.nil,fun e=>by simp [indicesOf]⟩
  | succ n ih=>
    rw [List.range_succ,List.foldl_append]
    exact ih.step

def Assessed (facts : List ModelTrustFact) (k : GroupKey) (s : ModelTrustState) : Prop :=
  ∃ a∈(build_model_trust_report facts).assessments,
    a.semantic_scope = k.semantic_scope ∧ a.model_id=k.model_id ∧ a.state=s

theorem assessments_foldl (states:List ModelTrustState) (out:ModelTrustReport) :
    (states.foldl count_state out).assessments=out.assessments:=by
  induction states generalizing out with
  | nil=>rfl
  | cons s states ih=>
    rw [List.foldl_cons,ih]
    cases s <;> rfl

theorem assessments_eq (facts:List ModelTrustFact) : (build_model_trust_report facts).assessments =
      (groupsOf facts).map fun e=>assess_group facts e.2:=
  assessments_foldl _ _

theorem assess_group_eq {e:GroupKey×List ℕ} (he:e∈groupsOf facts) :
    (assess_group facts e.2).semantic_scope=e.1.semantic_scope ∧
      (assess_group facts e.2).model_id=e.1.model_id ∧
      (assess_group facts e.2).state=group_state (groupFacts facts e.1):=by
  obtain ⟨-,hne,hindices⟩:=((collected_groupsOf facts).mem_iff e).mp he
  obtain ⟨front,rest,hcons⟩:=List.exists_cons_of_ne_nil hne
  have hfront : (facts.getD front {}).key=e.1:=by
    have hmem : front∈indicesOf facts e.1 facts.length:=by
      rw [← hindices,hcons]
      exact List.mem_cons_self
    simpa [indicesOf] using (List.mem_filter.mp hmem).2
  have hgroup : (front::rest).map (fun i=>facts.getD i {}) = groupFacts facts e.1:=by
    rw [← hcons,hindices,map_indicesOf]
  rw [hcons]
  refine ⟨by rw [← hfront];rfl,by rw [← hfront];rfl,?_⟩
  rw [← hgroup]
  rfl

theorem mem_groupsOf_iff :
    (∃is,(k,is)∈groupsOf facts) ↔ k.semantic_scope≠[] ∧ groupFacts facts k≠[]:=by
  have hnil : groupFacts facts k=[] ↔ indicesOf facts k facts.length=[]:=by
    rw [← map_indicesOf,List.map_eq_nil_iff]
  rw [Ne,Ne,hnil]
  constructor
  · rintro ⟨is,hmem⟩
    obtain ⟨hscope,hne,hindices⟩:=((collected_groupsOf facts).mem_iff _).mp hmem
    exact ⟨hscope,hindices▸hne⟩
  · rintro ⟨hscope,hne⟩
    exact ⟨_,((collected_groupsOf facts).mem_iff _).mpr ⟨hscope,hne,rfl⟩⟩

theorem assessed_iff {s:ModelTrustState} : Assessed facts k s ↔
      (k.semantic_scope≠[] ∧ groupFacts facts k≠[]) ∧ s=group_state (groupFacts facts k):=by
  rw [← mem_groupsOf_iff]
  constructor
  · rintro ⟨a,ha,hscope,hmodel,rfl⟩
    obtain ⟨e,he,rfl⟩:=List.mem_map.mp (assessments_eq facts▸ha)
    obtain ⟨hscope',hmodel',hstate⟩:=assess_group_eq he
    have hk : e.1=k:=by
      cases k
      cases hkey : e.1
      simp_all
    exact ⟨⟨e.2,hk▸he⟩,hk▸hstate⟩
  · rintro ⟨⟨is,hmem⟩,rfl⟩
    exact ⟨_,assessments_eq facts▸List.mem_map_of_mem hmem,assess_group_eq hmem⟩

theorem groupFacts_congr {other:List ModelTrustFact} (h:∀f,f∈facts ↔ f∈other)
    (k:GroupKey) (f:ModelTrustFact) : f∈groupFacts facts k ↔ f∈groupFacts other k:=by
  rw [mem_groupFacts,mem_groupFacts,h]

theorem ne_nil_congr {group other:List ModelTrustFact} (h:∀f,f∈group ↔ f∈other) :
    group≠[] ↔ other≠[]:=by
  simp only [Ne,List.eq_nil_iff_forall_not_mem,h]

theorem assessed_congr {other:List ModelTrustFact} (h:∀f,f∈facts ↔ f∈other) (k:GroupKey)
    (s:ModelTrustState) : Assessed facts k s ↔ Assessed other k s:=by
  have hgroup:=groupFacts_congr h k
  rw [assessed_iff,assessed_iff,group_state_congr hgroup,ne_nil_congr hgroup]

instance : RightCommutative count_state where
  right_comm out s t := by cases s <;> cases t <;> rfl

theorem aggregate_guidance_foldl (facts:List ModelTrustFact)
    (assessments:List ModelTrustAssessment) (states:List ModelTrustState)
    (out:ModelTrustReport) :
    aggregate_guidance (states.foldl count_state {out with facts,assessments}) =
      aggregate_guidance (states.foldl count_state out):=by
  induction states generalizing out with
  | nil=>rfl
  | cons s states ih=>
    have hstep : count_state {out with facts,assessments} s =
        {count_state out s with facts,assessments}:=by cases s <;> rfl
    rw [List.foldl_cons,List.foldl_cons,hstep,ih]

theorem guidance_eq (facts:List ModelTrustFact) :
    (build_model_trust_report facts).guidance=aggregate_guidance
      (((groupsOf facts).map fun e=>group_state (groupFacts facts e.1)).foldl count_state {}):=by
  have hstates : ((groupsOf facts).map fun e=>assess_group facts e.2).map (·.state) =
      (groupsOf facts).map fun e=>group_state (groupFacts facts e.1):=by
    rw [List.map_map]
    exact List.map_congr_left fun e he=>(assess_group_eq he).2.2
  rw [← hstates]
  exact aggregate_guidance_foldl facts _ _ {}

theorem keys_perm {other:List ModelTrustFact} (h:∀f,f∈facts ↔ f∈other) :
    ((groupsOf facts).map Prod.fst).Perm ((groupsOf other).map Prod.fst):=by
  have hnodup : ∀fs : List ModelTrustFact,((groupsOf fs).map Prod.fst).Nodup:=by
    intro fs
    refine List.pairwise_map.mpr ((collected_groupsOf fs).sorted.imp fun {a b} hlt heq=>?_)
    rw [heq,Std.compare_self] at hlt
    cases hlt
  refine (List.perm_ext_iff_of_nodup (hnodup facts) (hnodup other)).mpr fun k=>?_
  have hkeys : ∀fs : List ModelTrustFact,k∈(groupsOf fs).map Prod.fst ↔
      k.semantic_scope≠[] ∧ groupFacts fs k≠[]:=by
    intro fs
    rw [← mem_groupsOf_iff]
    simp
  rw [hkeys,hkeys,ne_nil_congr (groupFacts_congr h k)]

theorem guidance_congr {other:List ModelTrustFact} (h:∀f,f∈facts ↔ f∈other) :
    (build_model_trust_report facts).guidance=(build_model_trust_report other).guidance:=by
  have hstates : ((groupsOf facts).map fun e=>group_state (groupFacts facts e.1)).Perm
      ((groupsOf other).map fun e=>group_state (groupFacts other e.1)):=by
    have hmap : ∀fs : List ModelTrustFact,
        ((groupsOf fs).map fun e=>group_state (groupFacts fs e.1)) =
          ((groupsOf fs).map Prod.fst).map fun k=>group_state (groupFacts fs k):=by
      intro fs
      rw [List.map_map]
      rfl
    have hstate : (fun k=>group_state (groupFacts facts k)) =
        fun k=>group_state (groupFacts other k):=
      funext fun k=>group_state_congr (groupFacts_congr h k)
    rw [hmap,hmap,hstate]
    exact (keys_perm h).map _
  rw [guidance_eq,guidance_eq,hstates.foldl_eq]

def AtCeiling (facts : List ModelTrustFact) (k : GroupKey) (f : ModelTrustFact) : Prop :=
  f ∈ groupFacts facts k ∧ ∀ g ∈ groupFacts facts k, g.level≤f.level

theorem atCeiling_iff : AtCeiling facts k f ↔ f∈top (groupFacts facts k):=by
  rw [mem_top]
  constructor
  · rintro ⟨hmem,hmax⟩
    exact ⟨hmem,Nat.le_antisymm (le_peak hmem rfl) (peak_le_iff.mpr fun g hg _=>hmax g hg)⟩
  · rintro ⟨hmem,heq⟩
    exact ⟨hmem,fun g hg=>heq▸le_peak hg rfl⟩

theorem level_eq_zero : f.level=0 ↔ f.evidence_level=.none:=by
  cases h : f.evidence_level <;> simp [level,strength,h]

theorem conclude_stockModelSafe {s:Flags} (h:s.conclude=.stockModelSafe) :
    s.stock_complete=true ∧ s.modified=false ∧ s.exact_delta=false:=by
  unfold Flags.conclude at h
  split_ifs at h
  simp_all

theorem conclude_ne_contradicted (s:Flags) :
    s.conclude≠.staticModelContradictedByHigherEvidence:=by
  unfold Flags.conclude
  split_ifs
  all_goals decide

theorem verdict_stockModelSafe {c:ℕ} (h:verdict c facts=.stockModelSafe) :
    (Flags.of facts).conclude=.stockModelSafe ∧ (0<c → ∀f∈facts,¬f.contradicts=true):=by
  unfold verdict at h
  split_ifs at h with hc
  refine ⟨h,fun hpos f hf hf'=>hc ⟨hpos,List.any_eq_true.mpr ⟨f,hf,hf'⟩⟩⟩

theorem verdict_contradicted {c:ℕ} : verdict c facts=.staticModelContradictedByHigherEvidence ↔
      0<c ∧ facts.any contradicts=true ∧ facts.any supports=false:=by
  unfold verdict
  split_ifs with hc hs
  · simp [hs]
  · simpa [hc] using hs
  · simp only [conclude_ne_contradicted,false_iff]
    exact fun h=>hc ⟨h.1,h.2.1⟩

/-- A group is reported contradicted exactly when one of its strongest facts, above no evidence
at all, contradicts the model and every supporting fact is weaker. -/
theorem assessed_contradicted_iff (hk:k.semantic_scope≠[]) :
    Assessed facts k .staticModelContradictedByHigherEvidence ↔
      ∃c,AtCeiling facts k c ∧ c.contradicts=true ∧ c.evidence_level≠.none ∧
        ∀f∈groupFacts facts k,f.supports=true → f.level<c.level:=by
  rw [assessed_iff,group_state_eq,eq_comm,verdict_contradicted]
  constructor
  · rintro ⟨-,hpos,hc,hs⟩
    obtain ⟨c,hmem,hcontradicts⟩:=List.any_eq_true.mp hc
    have hlevel : c.level=ceiling (groupFacts facts k):=(mem_top.mp hmem).2
    refine ⟨c,atCeiling_iff.mpr hmem,hcontradicts,fun h=>?_,fun f hf hsupports=>?_⟩
    · rw [level_eq_zero.mpr h] at hlevel
      omega
    · have hle : f.level ≤ ceiling (groupFacts facts k):=le_peak hf rfl
      have hne : f.level≠ceiling (groupFacts facts k):=fun heq=>
        List.any_eq_false.mp hs f (mem_top.mpr ⟨hf,heq⟩) hsupports
      omega
  · rintro ⟨c,hc,hcontradicts,hlevel,hsupports⟩
    have hmem:=atCeiling_iff.mp hc
    have heq : c.level=ceiling (groupFacts facts k):=(mem_top.mp hmem).2
    refine ⟨⟨hk,List.ne_nil_of_mem hc.1⟩,?_,List.any_eq_true.mpr ⟨c,hmem,hcontradicts⟩,
      List.any_eq_false.mpr fun f hf hf'=>?_⟩
    · rw [← heq]
      exact Nat.pos_of_ne_zero fun h=>hlevel (level_eq_zero.mp h)
    · obtain ⟨hf'',hflevel⟩:=mem_top.mp hf
      have:=hsupports f hf'' hf'
      omega

theorem assessed_stockModelSafe (h:Assessed facts k .stockModelSafe) :
    (∃f,AtCeiling facts k f ∧ f.semantic_state=.stockConfirmed ∧ f.scope_complete=true) ∧
      ∀f,AtCeiling facts k f → f.semantic_state≠.modifiedUnresolved ∧
        f.semantic_state≠.exactDeltaRecovered ∧
        (f.contradicts=true → f.evidence_level=.none):=by
  obtain ⟨-,hstate⟩:=assessed_iff.mp h
  rw [group_state_eq] at hstate
  obtain ⟨hconclude,hcontradicts⟩:=verdict_stockModelSafe hstate.symm
  obtain ⟨hcomplete,hmodified,hdelta⟩:=conclude_stockModelSafe hconclude
  simp only [Flags.of,List.any_eq_true,List.any_eq_false,Bool.and_eq_true,beq_iff_eq]
    at hcomplete hmodified hdelta
  simp only [atCeiling_iff]
  refine ⟨hcomplete,fun f hf=>⟨hmodified f hf,hdelta f hf,fun hc=>?_⟩⟩
  by_contra hlevel
  have hpos : 0<ceiling (groupFacts facts k):=
    (mem_top.mp hf).2▸Nat.pos_of_ne_zero fun h=>hlevel (level_eq_zero.mp h)
  exact hcontradicts hpos f hf hc

theorem assessed_insert_weaker {before after:List ModelTrustFact} {g:ModelTrustFact}
    (hg:g∈before++after) (hkey:g.key=f.key) (hlt:f.level<g.level)
    (s:ModelTrustState) :
    Assessed (before++f::after) f.key s ↔ Assessed (before++after) f.key s:=by
  have hmem : g∈groupFacts (before++after) f.key:=mem_groupFacts.mpr ⟨hg,hkey⟩
  have hcons : ∀x,x∈groupFacts (before++f::after) f.key ↔
      x∈f::groupFacts (before++after) f.key:=by
    intro x
    simp only [mem_groupFacts,List.mem_append,List.mem_cons]
    grind
  rw [assessed_iff,assessed_iff,group_state_congr hcons,group_state_cons hmem hlt,
    ne_nil_congr hcons]
  simp [List.ne_nil_of_mem hmem]

/-- Model trust is a function of the set of facts, and the strongest facts of a group decide. -/
theorem strongest_facts_decide : (∀ facts other : List ModelTrustFact, (∀ f, f∈facts ↔ f∈other) →
      (∀ k s, Assessed facts k s ↔ Assessed other k s) ∧
        (build_model_trust_report facts).guidance=(build_model_trust_report other).guidance) ∧
    (∀ facts k, k.semantic_scope≠[] → groupFacts facts k≠[] → ∃! s, Assessed facts k s) ∧
    (∀ before after f g, g∈before++after → g.key=f.key → f.level<g.level →
      ∀ s, Assessed (before++f::after) f.key s ↔ Assessed (before++after) f.key s) ∧
    (∀ facts k, Assessed facts k .stockModelSafe →
      (∃ f, AtCeiling facts k f ∧ f.semantic_state=.stockConfirmed ∧ f.scope_complete=true) ∧
        ∀ f, AtCeiling facts k f → f.semantic_state≠.modifiedUnresolved ∧
          f.semantic_state≠.exactDeltaRecovered ∧
          (f.contradicts=true → f.evidence_level=.none)) ∧
    ∀ facts k, k.semantic_scope≠[] → (Assessed facts k .staticModelContradictedByHigherEvidence ↔
        ∃ c, AtCeiling facts k c ∧ c.contradicts=true ∧ c.evidence_level≠.none ∧
          ∀ f∈groupFacts facts k, f.supports=true → f.level<c.level) := by
  refine ⟨fun facts other h=>⟨assessed_congr h,guidance_congr h⟩,fun facts k hk hne=>?_,
    fun before after f g hg hkey hlt=>assessed_insert_weaker hg hkey hlt,
    fun facts k h=>assessed_stockModelSafe h,fun facts k hk=>assessed_contradicted_iff hk⟩
  exact ⟨_,assessed_iff.mpr ⟨⟨hk,hne⟩,rfl⟩,fun s hs=>(assessed_iff.mp hs).2⟩

/-- A weak support, a stronger contradiction, and a bystander stronger than both. -/
def maskedFacts : List ModelTrustFact :=
  [{ semantic_scope:=[byte 's'],evidence_level:=.chosenInputOracle,model_relation:=.supports },
   { semantic_scope:=[byte 's'],evidence_level:=.lowDisturbanceNativeBoundary
     model_relation:=.contradicts },
   {semantic_scope:=[byte 's'],evidence_level:=.originalNativeResult}]

def baselessFacts : List ModelTrustFact :=
  [{semantic_scope:=[byte 's'],semantic_state:=.stockConfirmed,scope_complete:=true},
   {semantic_scope:=[byte 's'],model_relation:=.contradicts}]

/-- A stronger bystander hides a contradiction that is stronger than every support, and a
contradiction without evidence does not count. -/
theorem contradiction_masked : (∃c ∈ groupFacts maskedFacts ⟨[byte 's'],[]⟩, c.contradicts=true ∧
      (∀f ∈ groupFacts maskedFacts ⟨[byte 's'],[]⟩, f.supports=true → f.level<c.level) ∧
      Assessed maskedFacts ⟨[byte 's'],[]⟩ .unresolved) ∧
    ∃c, AtCeiling baselessFacts ⟨[byte 's'],[]⟩ c ∧ c.contradicts=true ∧
      Assessed baselessFacts ⟨[byte 's'],[]⟩ .stockModelSafe:=by
  refine ⟨⟨maskedFacts[1],by decide,by decide,by decide,assessed_iff.mpr (by decide)⟩,
    baselessFacts[1],⟨by decide,by decide⟩,by decide,assessed_iff.mpr (by decide)⟩

end AutoRefirst.ModelTrust
