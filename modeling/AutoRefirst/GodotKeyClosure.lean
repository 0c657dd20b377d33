import AutoRefirst.ByteText
import Mathlib.Data.List.Dedup
import Mathlib.Data.List.Lex
import Mathlib.Data.List.Sort
import Mathlib.Data.Prod.Lex

/-!
# Closing the key of an external package

Every candidate key was tried on one package; the reports are reduced to one verdict, which must
not be reached by an omission, a repetition or a report under another candidate's number.
-/

namespace AutoRefirst.GodotKeys
open List

structure GodotNativeKeySourceCoordinate where
  anchor : Bytes
  (anchorVa loadVa keyVa : ℕ)

structure GodotNativeKeyCandidate (Identity : Type) where
  key : Bytes
  source : Identity
  coordinates : List GodotNativeKeySourceCoordinate
  evidence : List String

structure GodotNativeKeyCandidateSet (Identity : Type) where
  candidates : List (GodotNativeKeyCandidate Identity)
  budgetExhausted : Bool

structure GodotExternalPckInspection (Identity : Type) where
  valid : Bool
  target : Identity
  targetCoordinate : String

structure GodotExternalPckCandidateValidation (Pack : Type) where
  (targetValid validated : Bool)
  candidateIndex : ℕ
  key : Bytes
  (directoryMd5Validated directoryStructureValidated : Bool)
  (encryptedFileProbeCount encryptedFileValidatedCount : ℕ)
  (encryptedScriptCount encryptedScriptValidatedCount : ℕ)
  validatedScriptPath : Bytes
  validatedScriptEntryIndex : Option ℕ
  (validatedScriptTargetCoordinate targetCoordinate : String)
  pack : Pack
  evidence : List String

/-- What was found; `found` is the report whose findings are copied. -/
structure GodotExternalPckValidation (Identity Pack : Type) where
  (targetValid candidateBudgetExhausted : Bool)
  target : Identity
  (resolved valueUnique sourceCoordinateAmbiguous : Bool := false)
  (validationAttempts matchingCandidateCount matchingSourceCoordinateCount : ℕ := 0)
  validatedKey : Bytes := []
  source : Option Identity := none
  validatedCandidate : Option (GodotNativeKeyCandidate Identity) := none
  pack : Option Pack := none
  (directoryMd5Validated directoryStructureValidated : Bool := false)
  (encryptedFileProbeCount encryptedFileValidatedCount : ℕ := 0)
  (encryptedScriptCount encryptedScriptValidatedCount : ℕ := 0)
  validatedScriptPath : Bytes := []
  validatedScriptEntryIndex : Option ℕ := none
  validatedScriptTargetCoordinate : String := ""
  sourceCoordinate : Bytes := []
  targetCoordinate : String
  matchingCandidateIndices : List ℕ := []
  (evidence ambiguityReasons : List String := [])
  error : String := ""

variable {Identity Pack : Type}

def distinctKeyVaCount (c : GodotNativeKeyCandidate Identity) : ℕ :=
  (c.coordinates.map (·.keyVa)).dedup.length

/-- The order of the four parts, as `std::tie` compares them. -/
def tie (c : GodotNativeKeySourceCoordinate) : ℕ ×ₗ ℕ ×ₗ ℕ ×ₗ List ℕ :=
  toLex (c.keyVa,toLex (c.loadVa,toLex (c.anchorVa,c.anchor.map (·.toNat))))

def hexU64 (v : ℕ) : Bytes := bytes "0x"++bytes (String.ofList (Nat.toDigits 16 v))

def canonicalSourceCoordinate (c : GodotNativeKeyCandidate Identity) : Bytes :=
  match c.coordinates.mergeSort fun a b => decide (tie a ≤ tie b) with
  | [] => []
  | c::_ => bytes "PE:key_va="++hexU64 c.keyVa ++ bytes ";load_va="++hexU64 c.loadVa ++
      bytes ";anchor_va="++hexU64 c.anchorVa ++ bytes ";anchor="++c.anchor

def hexDigit (n : ℕ) : ℕ := if n < 10 then 0x30+n else 0x57+n

def hex (d : Bytes) : List ℕ := d.flatMap fun b => [hexDigit (b.toNat/16),hexDigit (b.toNat % 16)]

/-- `emplace` of a map, which is walked in the order of its keys. -/
def emplace {ν : Type} (k : List ℕ) (v : ν) : List (List ℕ×ν) → List (List ℕ×ν)
  | [] => [(k,v)]
  | e::m => if k < e.1 then (k,v) :: e::m else if k = e.1 then e::m else e :: emplace k v m

structure Cover (Pack : Type) where
  complete : Bool
  seen : ℕ → Bool := fun _ => false
  found : List (List ℕ×GodotExternalPckCandidateValidation Pack) := []

variable (cands : List (GodotNativeKeyCandidate Identity))

def Own (v : GodotExternalPckCandidateValidation Pack) : Prop :=
  cands[v.candidateIndex]?.map (·.key) = some v.key

instance (v : GodotExternalPckCandidateValidation Pack) : Decidable (Own cands v) :=
  inferInstanceAs (Decidable (_ = _))

def coverTurn (s : Cover Pack) (v : GodotExternalPckCandidateValidation Pack) : Cover Pack :=
  if s.seen v.candidateIndex ∨ ¬Own cands v then {s with complete:=false}
  else
    { s with
      seen := fun i => i = v.candidateIndex || s.seen i
      found := if v.targetValid && v.validated then emplace (hex v.key) v s.found else s.found }

/-- The loop over the reports, and whether every candidate was covered. -/
def coverage (vs : List (GodotExternalPckCandidateValidation Pack)) : Cover Pack :=
  let s := vs.foldl (coverTurn cands) {complete:=vs.length = cands.length}
  {s with complete:=s.complete && (range cands.length).all s.seen}

def closeMatch (set : GodotNativeKeyCandidateSet Identity)
    (out : GodotExternalPckValidation Identity Pack)
    (m : GodotExternalPckCandidateValidation Pack) : GodotExternalPckValidation Identity Pack :=
  let out := { out with
    valueUnique:=true,validatedKey:=m.key,pack:=some m.pack
    directoryMd5Validated:=m.directoryMd5Validated
    directoryStructureValidated:=m.directoryStructureValidated
    encryptedFileProbeCount:=m.encryptedFileProbeCount
    encryptedFileValidatedCount:=m.encryptedFileValidatedCount
    encryptedScriptCount:=m.encryptedScriptCount
    encryptedScriptValidatedCount:=m.encryptedScriptValidatedCount
    validatedScriptPath:=m.validatedScriptPath
    validatedScriptEntryIndex:=m.validatedScriptEntryIndex
    validatedScriptTargetCoordinate:=m.validatedScriptTargetCoordinate
    targetCoordinate:=m.targetCoordinate,evidence:=m.evidence }
  match set.candidates.find? fun c => c.key == m.key with
  | none => { out with ambiguityReasons:=out.ambiguityReasons ++
      ["successful oracle result has no matching retained source candidate provenance"] }
  | some c =>
    let count := distinctKeyVaCount c
    let coordinate := canonicalSourceCoordinate c
    let reasons := out.ambiguityReasons ++
      (if count ≠ 1 then ["validated key value is unique but is independently stored at " ++
        toString count++" source key VAs"] else []) ++
      (if set.budgetExhausted then
        ["source distinct-key candidate budget was exhausted before ambiguity could be closed"]
        else []) ++
      if coordinate = [] then ["validated key value lacks an exact source coordinate"] else []
    { out with
      validatedCandidate:=some c,source:=some c.source
      matchingSourceCoordinateCount:=count,sourceCoordinate:=coordinate
      sourceCoordinateAmbiguous:=count ≠ 1,ambiguityReasons:=reasons,resolved:=reasons.isEmpty
      evidence:=out.evidence ++ if reasons.isEmpty then
        ["all retained bounded distinct key values were tested; exactly one value matched and " ++
          "its source key VA is unique"] else [] }

def reduceGodotExternalPckValidations (inspection : GodotExternalPckInspection Identity)
    (set : GodotNativeKeyCandidateSet Identity)
    (vs : List (GodotExternalPckCandidateValidation Pack)) :
    GodotExternalPckValidation Identity Pack :=
  let out : GodotExternalPckValidation Identity Pack :=
    { targetValid:=inspection.valid,target:=inspection.target
      targetCoordinate:=inspection.targetCoordinate,candidateBudgetExhausted:=set.budgetExhausted }
  if ¬inspection.valid then {out with error := "target PCK inspection failed"}
  else
    let s := coverage set.candidates vs
    let reasons := if s.complete then [] else
      ["candidate validation coverage is incomplete or inconsistent; ambiguity cannot be closed"]
    let out := { out with
      validationAttempts:=vs.length,ambiguityReasons:=reasons,matchingCandidateCount:=s.found.length
      matchingCandidateIndices:=s.found.map (·.2.candidateIndex) }
    match s.found with
    | [] => { out with ambiguityReasons:=reasons ++
        ["no bounded source candidate validated the exact target oracle"] }
    | [e] => closeMatch set out e.2
    | found => { out with ambiguityReasons:=reasons ++
        [toString found.length++" distinct source key values independently validate the same " ++
          "exact target; semantic value is ambiguous"] }

section
variable {ν : Type} {k : List ℕ} {v : ν} {m : List (List ℕ×ν)}

theorem emplace_perm (h:∀e∈m,e.1≠k) : emplace k v m ~ (k,v)::m:=by
  induction m with
  | nil=>exact .refl _
  | cons e m ih=>
    rw [forall_mem_cons] at h
    rw [emplace,if_neg h.1.symm]
    split_ifs with hlt
    · exact .refl _
    · exact ((ih h.2).cons e).trans (.swap _ _ _)

theorem mem_emplace {x:List ℕ×ν} (h:x∈emplace k v m) : x=(k,v) ∨ x∈m:=by
  induction m with
  | nil=>exact .inl (mem_singleton.mp h)
  | cons e m ih=>
    rw [emplace] at h
    split_ifs at h with hlt heq
    · exact mem_cons.mp h
    · exact .inr h
    · rcases mem_cons.mp h with rfl | h
      · exact .inr mem_cons_self
      · exact (ih h).imp_right (mem_cons_of_mem _)

theorem emplace_sorted (h:m.Pairwise (·.1 < ·.1)) : (emplace k v m).Pairwise (·.1 < ·.1):=by
  induction m with
  | nil=>exact pairwise_singleton _ _
  | cons e m ih=>
    rw [emplace]
    obtain ⟨hhead,htail⟩:=pairwise_cons.mp h
    split_ifs with hlt heq
    · refine pairwise_cons.mpr ⟨fun x hx=>?_,h⟩
      rcases mem_cons.mp hx with rfl | hx
      · exact hlt
      · exact hlt.trans (hhead x hx)
    · exact h
    · refine pairwise_cons.mpr ⟨fun x hx=>?_,ih htail⟩
      rcases mem_emplace hx with rfl | hx
      · exact lt_of_le_of_ne (not_lt.mp hlt) (Ne.symm heq)
      · exact hhead x hx
end

theorem hexDigit_inj {a b:ℕ} (ha:a<16) (hb:b<16) (h:hexDigit a=hexDigit b) : a=b:=by
  unfold hexDigit at h
  split_ifs at h <;> omega

theorem hex_inj {d d':Bytes} (h:hex d=hex d') : d=d':=by
  induction d generalizing d' with
  | nil=>
    cases d' with
    | nil=>rfl
    | cons b d'=>cases h
  | cons b d ih=>
    cases d' with
    | nil=>cases h
    | cons b' d'=>
      obtain ⟨hhigh,hrest⟩:=List.cons.inj h
      obtain ⟨hlow,hrest⟩:=List.cons.inj hrest
      have hb:=b.toNat_lt
      have hb':=b'.toNat_lt
      have hhigh:=hexDigit_inj (by omega) (by omega) hhigh
      have hlow:=hexDigit_inj (by omega) (by omega) hlow
      rw [ih hrest,UInt8.toNat_inj.mp (by omega:b.toNat=b'.toNat)]

variable {cands : List (GodotNativeKeyCandidate Identity)} {s : Cover Pack}
  {v w : GodotExternalPckCandidateValidation Pack}
  {vs vs' : List (GodotExternalPckCandidateValidation Pack)}

abbrev Oracle (v : GodotExternalPckCandidateValidation Pack) : Bool := v.targetValid && v.validated

def entry (v : GodotExternalPckCandidateValidation Pack) :
    List ℕ×GodotExternalPckCandidateValidation Pack := (hex v.key,v)

theorem cover_seen (i:ℕ) : (vs.foldl (coverTurn cands) s).seen i=true ↔
    s.seen i=true ∨ ∃v∈vs,Own cands v ∧ v.candidateIndex=i:=by
  induction vs generalizing s with
  | nil=>simp
  | cons v vs ih=>
    rw [foldl_cons,ih,coverTurn,exists_mem_cons_iff,← or_assoc]
    refine or_congr_left ?_
    by_cases h : s.seen v.candidateIndex ∨ ¬Own cands v
    · rw [if_pos h]
      by_cases hown : Own cands v
      · have hseen:=h.resolve_right (not_not.mpr hown)
        exact (or_iff_left_of_imp fun hv=>hv.2▸hseen).symm
      · exact (or_iff_left fun hv=>hown hv.1).symm
    · rw [if_neg h]
      push Not at h
      simp only [Bool.or_eq_true,decide_eq_true_eq,h.2,true_and]
      rw [or_comm,eq_comm (a:=i)]

theorem cover_complete : (vs.foldl (coverTurn cands) s).complete=true ↔
    s.complete=true ∧ (∀v∈vs,Own cands v) ∧ (vs.map (·.candidateIndex)).Nodup ∧
      ∀v∈vs,s.seen v.candidateIndex=false:=by
  induction vs generalizing s with
  | nil=>simp
  | cons v vs ih=>
    rw [foldl_cons,ih,coverTurn,forall_mem_cons,forall_mem_cons,map_cons,nodup_cons]
    by_cases h : s.seen v.candidateIndex ∨ ¬Own cands v
    · rw [if_pos h]
      refine iff_of_false (fun h=>Bool.false_ne_true h.1) fun hall=>?_
      rcases h with h | h
      · rw [hall.2.2.2.1] at h
        cases h
      · exact h hall.2.1.1
    · rw [if_neg h]
      push Not at h
      simp only [Bool.or_eq_false_iff,decide_eq_false_iff_not,mem_map,not_exists,not_and]
      constructor
      · rintro ⟨hs,hown,hnodup,hseen⟩
        exact ⟨hs,⟨h.2,hown⟩,⟨fun w hw=>(hseen w hw).1,hnodup⟩,
          Bool.eq_false_iff.mpr h.1,fun w hw=>(hseen w hw).2⟩
      · rintro ⟨hs,⟨-,hown⟩,⟨hnew,hnodup⟩,-,hseen⟩
        exact ⟨hs,hown,hnodup,fun w hw=>⟨hnew w hw,hseen w hw⟩⟩

theorem cover_sorted (h:s.found.Pairwise (·.1 < ·.1)) :
    (vs.foldl (coverTurn cands) s).found.Pairwise (·.1 < ·.1):=by
  induction vs generalizing s with
  | nil=>exact h
  | cons v vs ih=>
    refine ih ?_
    rw [coverTurn]
    split_ifs
    · exact h
    · exact emplace_sorted h
    · exact h

theorem key_inj (hkeys:(cands.map (·.key)).Nodup) (hv:Own cands v) (hw:Own cands w)
    (h:v.key=w.key) : v.candidateIndex=w.candidateIndex:=by
  rw [Own,← getElem?_map] at hv hw
  obtain ⟨hi,-⟩:=List.getElem?_eq_some_iff.mp hv
  exact (List.getElem?_inj hi hkeys).mp (by rw [hv,hw,h])

theorem cover_found (hkeys:(cands.map (·.key)).Nodup)
    (hnodup:((vs.filter (Own cands ·)).map (·.candidateIndex)).Nodup)
    (hseen:∀v∈vs,Own cands v → s.seen v.candidateIndex=false)
    (hfresh:∀v∈vs,Own cands v → ∀e∈s.found,e.1≠hex v.key) :
    (vs.foldl (coverTurn cands) s).found ~
      s.found++(vs.filter fun v=>Own cands v ∧ Oracle v).map entry:=by
  induction vs generalizing s with
  | nil=>simp
  | cons v vs ih=>
    rw [forall_mem_cons] at hseen hfresh
    rw [foldl_cons,coverTurn]
    by_cases hown : Own cands v
    · rw [filter_cons_of_pos (by simpa using hown),map_cons,nodup_cons] at hnodup
      have hother : ∀w∈vs,Own cands w → w.candidateIndex≠v.candidateIndex:=fun w hw hwown h=>
        hnodup.1 (h▸mem_map_of_mem (mem_filter.mpr ⟨hw,by simpa using hwown⟩))
      have hunseen : s.seen v.candidateIndex=false:=hseen.1 hown
      rw [if_neg (by simp [hunseen,hown])]
      have hseen' : ∀w∈vs,Own cands w →
          (decide (w.candidateIndex=v.candidateIndex) || s.seen w.candidateIndex)=false:=by
        intro w hw hwown
        rw [hseen.2 w hw hwown,decide_eq_false (hother w hw hwown)]
        rfl
      by_cases horacle : Oracle v
      · have hfresh' : ∀w∈vs,Own cands w → ∀e∈emplace (hex v.key) v s.found,e.1≠hex w.key:=by
          intro w hw hwown e he
          rcases mem_emplace he with rfl | he
          · exact fun h=>hother w hw hwown (key_inj hkeys hwown hown (hex_inj h).symm)
          · exact hfresh.2 w hw hwown e he
        rw [if_pos horacle,filter_cons_of_pos (by rw [decide_eq_true_eq];exact ⟨hown,horacle⟩),
          map_cons]
        refine (ih hnodup.2 hseen' hfresh').trans ?_
        exact ((emplace_perm (hfresh.1 hown)).append_right _).trans perm_middle.symm
      · rw [if_neg horacle,filter_cons_of_neg (by simpa using fun _=>horacle)]
        exact ih hnodup.2 hseen' hfresh.2
    · rw [filter_cons_of_neg (by simpa using hown)] at hnodup
      rw [if_pos (.inr hown),filter_cons_of_neg (by simp [hown])]
      exact ih hnodup hseen.2 hfresh.2

structure Covered (cands : List (GodotNativeKeyCandidate Identity))
    (vs : List (GodotExternalPckCandidateValidation Pack)) : Prop where
  each : vs.map (·.candidateIndex) ~ range cands.length
  own : ∀ v∈vs, Own cands v

theorem coverage_complete : (coverage cands vs).complete=true ↔ Covered cands vs:=by
  rw [coverage,Bool.and_eq_true,cover_complete,all_eq_true]
  simp only [cover_seen,decide_eq_true_eq,mem_range,Bool.false_eq_true,false_or]
  constructor
  · rintro ⟨⟨hlen,hown,hnodup,-⟩,hall⟩
    refine ⟨(subperm_of_subset hnodup fun i hi=>?_).perm_of_length_le (by simp [hlen]),hown⟩
    obtain ⟨v,hv,rfl⟩:=mem_map.mp hi
    have hown:=hown v hv
    rw [Own,Option.map_eq_some_iff] at hown
    obtain ⟨c,hc,-⟩:=hown
    exact mem_range.mpr (List.getElem?_eq_some_iff.mp hc).1
  · rintro ⟨heach,hown⟩
    refine ⟨⟨by simpa using heach.length_eq,hown,heach.nodup_iff.mpr nodup_range,fun _ _=>trivial⟩,?_⟩
    intro i hi
    obtain ⟨v,hv,rfl⟩:=mem_map.mp (heach.mem_iff.mpr (mem_range.mpr hi))
    exact ⟨v,hv,hown v hv,rfl⟩

theorem coverage_found (hkeys:(cands.map (·.key)).Nodup)
    (hnodup:((vs.filter (Own cands ·)).map (·.candidateIndex)).Nodup) :
    (coverage cands vs).found ~ (vs.filter fun v=>Own cands v ∧ Oracle v).map entry:=
  cover_found hkeys hnodup (fun _ _ _=>rfl) fun _ _ _ _=>nofun

structure Closed (set : GodotNativeKeyCandidateSet Identity)
    (vs : List (GodotExternalPckCandidateValidation Pack)) : Prop where
  covered : Covered set.candidates vs
  key : ∃ v∈vs, Oracle v ∧ (∀ w∈vs, Oracle w → w.key=v.key) ∧
    ∃ c∈set.candidates, c.key=v.key ∧ ∃ va, c.coordinates≠[] ∧
      ∀ x∈c.coordinates, x.keyVa=va
  budget : set.budgetExhausted=false

variable {inspection : GodotExternalPckInspection Identity}
  {set : GodotNativeKeyCandidateSet Identity} {out : GodotExternalPckValidation Identity Pack}
  {m : GodotExternalPckCandidateValidation Pack} {c : GodotNativeKeyCandidate Identity}

theorem distinctKeyVaCount_one : distinctKeyVaCount c=1 ↔
    ∃va,c.coordinates≠[] ∧ ∀x∈c.coordinates,x.keyVa=va:=by
  rw [distinctKeyVaCount,length_eq_one_iff]
  refine exists_congr fun va=>?_
  constructor
  · intro h
    have hmem (y:ℕ) : y∈c.coordinates.map (·.keyVa) ↔ y=va:=by
      rw [← mem_dedup,h,mem_singleton]
    refine ⟨fun hnil=>?_,fun x hx=>(hmem _).mp (mem_map_of_mem hx)⟩
    rw [hnil] at hmem
    exact not_mem_nil ((hmem va).mpr rfl)
  · rintro ⟨hne,hall⟩
    have hmap : c.coordinates.map (·.keyVa)=replicate c.coordinates.length va:=by
      rw [eq_replicate_iff,length_map]
      exact ⟨rfl,forall_mem_map.mpr hall⟩
    rw [hmap,replicate_dedup (by rwa [ne_eq,length_eq_zero_iff])]

theorem canonical_ne_nil (h:c.coordinates≠[]) : canonicalSourceCoordinate c≠[]:=by
  rw [canonicalSourceCoordinate]
  split
  · rename_i hsort
    have hlen:=congrArg length hsort
    rw [length_mergeSort] at hlen
    exact absurd (length_eq_zero_iff.mp hlen) h
  · exact fun h=>by cases h

theorem closeMatch_resolved (hout:out.resolved=false) :
    (closeMatch set out m).resolved=true ↔ out.ambiguityReasons=[] ∧
      set.budgetExhausted=false ∧ ∃c,set.candidates.find? (fun c=>c.key == m.key) = some c ∧
        distinctKeyVaCount c=1:=by
  unfold closeMatch
  cases hfind : set.candidates.find? fun c=>c.key == m.key with
  | none=>simp [hout]
  | some c=>
    simp only [List.isEmpty_iff,append_eq_nil_iff,ite_eq_right_iff,reduceCtorEq,imp_false,
      not_not,Bool.not_eq_true,Option.some.injEq,exists_eq_left',and_assoc]
    refine and_congr_right fun _=>?_
    constructor
    · rintro ⟨hcount,hbudget,-⟩
      exact ⟨hbudget,hcount⟩
    · rintro ⟨hbudget,hcount⟩
      obtain ⟨va,hne,-⟩:=distinctKeyVaCount_one.mp hcount
      exact ⟨hcount,hbudget,canonical_ne_nil hne⟩

theorem reduce_resolved (hvalid:inspection.valid=true) :
    (reduceGodotExternalPckValidations inspection set vs).resolved=true ↔
      Covered set.candidates vs ∧ set.budgetExhausted=false ∧
        ∃e,(coverage set.candidates vs).found=[e] ∧
          ∃c,set.candidates.find? (fun c=>c.key == e.2.key) = some c ∧
            distinctKeyVaCount c=1:=by
  rw [← coverage_complete,reduceGodotExternalPckValidations,if_neg (not_not.mpr hvalid)]
  dsimp only
  match hfound : (coverage set.candidates vs).found with
  | []=>simp
  | [e]=>
    rw [closeMatch_resolved rfl]
    simp
  | e::e'::m=>simp

theorem Covered.nodup (h:Covered cands vs) :
    ((vs.filter (Own cands ·)).map (·.candidateIndex)).Nodup:=
  (h.each.nodup_iff.mpr nodup_range).sublist (filter_sublist.map _)

theorem reduce_resolved_iff (hvalid:inspection.valid=true)
    (hkeys:(set.candidates.map (·.key)).Nodup) :
    (reduceGodotExternalPckValidations inspection set vs).resolved=true ↔ Closed set vs:=by
  rw [reduce_resolved hvalid]
  constructor
  · rintro ⟨hcovered,hbudget,e,hfound,c,hc,hcount⟩
    have hperm:=coverage_found hkeys hcovered.nodup
    rw [hfound] at hperm
    obtain ⟨v,hfilter,rfl⟩:=map_eq_singleton_iff.mp (singleton_perm.mp hperm).symm
    have hmem (w) : (w∈vs ∧ Own set.candidates w ∧ Oracle w) ↔ w=v:=by
      rw [← mem_singleton (b:=v),← hfilter,mem_filter,decide_eq_true_eq]
    obtain ⟨hv,-,horacle⟩:=(hmem v).mpr rfl
    refine ⟨hcovered,⟨v,hv,horacle,fun w hw hor=>?_,c,mem_of_find?_eq_some hc,?_,
      distinctKeyVaCount_one.mp hcount⟩,hbudget⟩
    · rw [(hmem w).mp ⟨hw,hcovered.own w hw,hor⟩]
    · have hkey:=find?_some hc
      exact eq_of_beq hkey
  · rintro ⟨hcovered,⟨v,hv,horacle,hunique,c,hc,hkey,haddress⟩,hbudget⟩
    have hindices:=hcovered.each.nodup_iff.mpr nodup_range
    have hsame : (vs.filter fun v=>Own set.candidates v ∧ Oracle v) ~ [v]:=by
      rw [perm_ext_iff_of_nodup (hindices.of_map.filter _) (nodup_singleton v)]
      intro w
      rw [mem_filter,decide_eq_true_eq,mem_singleton]
      constructor
      · rintro ⟨hw,hown,hor⟩
        exact inj_on_of_nodup_map hindices hw hv
          (key_inj hkeys hown (hcovered.own v hv) (hunique w hw hor))
      · rintro rfl
        exact ⟨hv,hcovered.own w hv,horacle⟩
    have hfound:=(coverage_found hkeys hcovered.nodup).trans (hsame.map entry)
    refine ⟨hcovered,hbudget,entry v,perm_singleton.mp hfound,c,?_,
      distinctKeyVaCount_one.mpr haddress⟩
    obtain ⟨c',hc'⟩:=Option.isSome_iff_exists.mp
      (find?_isSome.mpr ⟨c,hc,beq_iff_eq.mpr hkey⟩ :
        (set.candidates.find? fun c=>c.key == v.key).isSome)
    have heq : c'=c:=inj_on_of_nodup_map hkeys (mem_of_find?_eq_some hc') hc
      ((by simpa using find?_some hc' : c'.key=v.key).trans hkey.symm)
    exact heq▸hc'

theorem coverage_found_eq (hkeys:(cands.map (·.key)).Nodup) (hperm:vs ~ vs')
    (hnodup:((vs.filter (Own cands ·)).map (·.candidateIndex)).Nodup) :
    (coverage cands vs).found=(coverage cands vs').found:=by
  have hnodup' : ((vs'.filter (Own cands ·)).map (·.candidateIndex)).Nodup:=
    ((hperm.filter _).map _).nodup_iff.mp hnodup
  have hfound:=(coverage_found hkeys hnodup).trans
    (((hperm.filter _).map entry).trans (coverage_found hkeys hnodup').symm)
  exact hfound.eq_of_pairwise (fun _ _ _ _ h h'=>absurd (h.trans h') (lt_irrefl _))
    (cover_sorted .nil) (cover_sorted .nil)

theorem covered_perm (hperm:vs ~ vs') : Covered cands vs ↔ Covered cands vs':=
  ⟨fun h=>⟨(hperm.map _).symm.trans h.each,fun v hv=>h.own v (hperm.mem_iff.mpr hv)⟩,
    fun h=>⟨(hperm.map _).trans h.each,fun v hv=>h.own v (hperm.mem_iff.mp hv)⟩⟩

theorem closed_perm (hperm:vs ~ vs') : Closed set vs ↔ Closed set vs':=
  ⟨fun h=>⟨(covered_perm hperm).mp h.covered,by simpa only [hperm.mem_iff] using h.key,h.budget⟩,
    fun h=>⟨(covered_perm hperm).mpr h.covered,by simpa only [hperm.mem_iff] using h.key,
      h.budget⟩⟩

def arrange (f : GodotNativeKeyCandidate Identity→List GodotNativeKeySourceCoordinate)
    (c : GodotNativeKeyCandidate Identity) : GodotNativeKeyCandidate Identity :=
  {c with coordinates:=f c}

variable {f : GodotNativeKeyCandidate Identity→List GodotNativeKeySourceCoordinate}

theorem tie_inj {a b:GodotNativeKeySourceCoordinate} (h:tie a=tie b) : a=b:=by
  simp only [tie,toLex_inj,Prod.mk.injEq] at h
  obtain ⟨hkey,hload,hva,hanchor⟩:=h
  have hanchor:=map_injective_iff.mpr (fun _ _=>UInt8.toNat_inj.mp) hanchor
  cases a
  cases b
  simp_all

theorem arrange_canonical (h:f c ~ c.coordinates) :
    distinctKeyVaCount (arrange f c)=distinctKeyVaCount c ∧
      canonicalSourceCoordinate (arrange f c)=canonicalSourceCoordinate c:=by
  have hsorted (l:List GodotNativeKeySourceCoordinate) :
      (l.mergeSort fun a b=>decide (tie a≤tie b)).Pairwise fun a b=>tie a ≤ tie b:=
    (pairwise_mergeSort (fun _ _ _ h h'=>by simpa using (of_decide_eq_true h).trans (of_decide_eq_true h'))
      (fun a b=>by simpa using le_total (tie a) (tie b)) l).imp of_decide_eq_true
  have hsort : ((f c).mergeSort fun a b=>decide (tie a≤tie b)) =
      c.coordinates.mergeSort fun a b=>decide (tie a≤tie b):=
    ((mergeSort_perm _ _).trans (h.trans (mergeSort_perm _ _).symm)).eq_of_pairwise
      (fun _ _ _ _ h h'=>tie_inj (h.antisymm h')) (hsorted _) (hsorted _)
  refine ⟨(h.map _).dedup.length_eq,?_⟩
  unfold canonicalSourceCoordinate arrange
  rw [hsort]

theorem closeMatch_arrange (h:∀c,f c ~ c.coordinates) (hout:out.validatedCandidate=none) :
    closeMatch {set with candidates:=set.candidates.map (arrange f)} out m =
      { closeMatch set out m with
        validatedCandidate:=(closeMatch set out m).validatedCandidate.map (arrange f) }:=by
  have hfind : (set.candidates.map (arrange f)).find? (fun c=>c.key == m.key) =
      (set.candidates.find? fun c=>c.key == m.key).map (arrange f):=find?_map
  unfold closeMatch
  simp only [hfind]
  cases set.candidates.find? fun c=>c.key == m.key with
  | none=>simp [hout]
  | some c=>
    obtain ⟨hcount,hcoordinate⟩:=arrange_canonical (h c)
    simp only [Option.map_some,hcount,hcoordinate]
    rfl

theorem coverage_arrange : coverage (cands.map (arrange f)) vs=coverage cands vs:=by
  have hown (v:GodotExternalPckCandidateValidation Pack) :
      Own (cands.map (arrange f)) v=Own cands v:=by
    simp only [Own,getElem?_map,Option.map_map]
    rfl
  unfold coverage coverTurn
  simp only [hown,length_map]

/-- A verdict is reached exactly where the key is closed. The order of the reports does not change
it, nor anything else where no candidate is reported twice, and the order of the coordinates is
seen in the copied candidate only. -/
theorem key_closure (hvalid : inspection.valid=true) (hkeys : (set.candidates.map (·.key)).Nodup) :
    ((reduceGodotExternalPckValidations inspection set vs).resolved=true ↔ Closed set vs) ∧
    (∀ vs', vs ~ vs' → (reduceGodotExternalPckValidations inspection set vs').resolved =
        (reduceGodotExternalPckValidations inspection set vs).resolved ∧
      (((vs.filter (Own set.candidates ·)).map (·.candidateIndex)).Nodup →
        reduceGodotExternalPckValidations inspection set vs =
          reduceGodotExternalPckValidations inspection set vs')) ∧
    ∀ f : GodotNativeKeyCandidate Identity → List GodotNativeKeySourceCoordinate,
      (∀ c, f c ~ c.coordinates) →
      reduceGodotExternalPckValidations inspection
        {set with candidates:=set.candidates.map (arrange f)} vs =
        { reduceGodotExternalPckValidations inspection set vs with
          validatedCandidate:=(reduceGodotExternalPckValidations inspection set
            vs).validatedCandidate.map (arrange f) } := by
  refine ⟨reduce_resolved_iff hvalid hkeys,fun vs' hperm=>⟨?_,fun hnodup=>?_⟩,fun f h=>?_⟩
  · rw [Bool.eq_iff_iff,reduce_resolved_iff hvalid hkeys,reduce_resolved_iff hvalid hkeys,
      closed_perm hperm]
  · have hcomplete : (coverage set.candidates vs).complete =
        (coverage set.candidates vs').complete:=by
      rw [Bool.eq_iff_iff,coverage_complete,coverage_complete,covered_perm hperm]
    unfold reduceGodotExternalPckValidations
    simp only [hcomplete,coverage_found_eq hkeys hperm hnodup,hperm.length_eq]
  · unfold reduceGodotExternalPckValidations
    simp only [coverage_arrange]
    split
    · rfl
    · split
      · rfl
      · exact closeMatch_arrange h rfl
      · rfl

/-- One candidate, and a report on it that fits or not. -/
def oneKey : GodotNativeKeyCandidateSet Unit where
  candidates := [⟨[1],(),[⟨[],0,0,7⟩],[]⟩]
  budgetExhausted := false

def report (fits : Bool) : GodotExternalPckCandidateValidation Unit :=
  ⟨true,fits,0,[1],fits,fits,0,0,0,0,[],none,"","",(),[]⟩

theorem key_closure_one :
    (reduceGodotExternalPckValidations ⟨true,(),""⟩ oneKey [report true]).resolved = true:=by
  refine (key_closure rfl (by decide)).1.mpr ⟨⟨.refl _,by decide⟩,⟨report true,mem_singleton_self _,
    rfl,fun w hw _=>by rw [mem_singleton.mp hw],_,mem_singleton_self _,rfl,7,?_⟩,rfl⟩
  exact ⟨cons_ne_nil _ _,fun x hx=>by rw [mem_singleton.mp hx]⟩

/-- The first report on a candidate counts. -/
theorem order_matters : ¬ ∀(i:GodotExternalPckInspection Unit) (set:GodotNativeKeyCandidateSet Unit)
    (vs vs':List (GodotExternalPckCandidateValidation Unit)), i.valid=true →
    (set.candidates.map (·.key)).Nodup → vs ~ vs' →
    reduceGodotExternalPckValidations i set vs=reduceGodotExternalPckValidations i set vs':=by
  intro h
  have hunique:=congrArg (·.valueUnique) (h ⟨true,(),""⟩ oneKey [report true,report false]
    [report false,report true] rfl (by decide) (.swap _ _ _))
  exact absurd hunique (by decide)

end AutoRefirst.GodotKeys
