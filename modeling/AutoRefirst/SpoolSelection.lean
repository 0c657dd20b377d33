import AutoRefirst.SpoolAccounting

/-!
# The final selection of the directory report spool

`finalize_selection` rewrites flags and counters record by record. Position by
position its effect is that of a ranked greedy scan over the surviving payloads, and
the scan does not look at the earlier selection.
-/

namespace AutoRefirst.DirectoryReportSpool
open List Option

open GreedySelection

def weightAt (records : List DirectorySpoolRecord) (i : ℕ) : ℕ := (records.getD i default).fullBytes

def judged (chosen : List ℕ) (i : ℕ) (r : DirectorySpoolRecord) : DirectorySpoolRecord :=
  { r with
    selected:=decide (i ∈ chosen)
    deferredReason := if i ∈ chosen then "" else "DIRECTORY_INLINE_REPORT_BUDGET" }

/-- The fields the selection loop never writes. -/
structure SameStore (s s' : Spool) : Prop where
  files : s'.files=s.files
  error : s'.error=s.error
  peak : s'.peakBytes=s.peakBytes
  known : s'.knownFullBytes=s.knownFullBytes
  resident : s'.residentBytes=s.residentBytes
  evicted : s'.cacheEvictedCount=s.cacheEvictedCount
  finalized : s'.prioritiesFinalized=s.prioritiesFinalized

theorem SameStore.refl (s:Spool) : SameStore s s:=⟨rfl,rfl,rfl,rfl,rfl,rfl,rfl⟩

theorem SameStore.judge (s:Spool) (i:ℕ) (r:DirectorySpoolRecord) (selected:Bool) :
    SameStore s (s.judge i r selected):=⟨rfl,rfl,rfl,rfl,rfl,rfl,rfl⟩

theorem SameStore.trans {s t u:Spool} (h:SameStore s t) (h':SameStore t u) : SameStore s u:=
  ⟨h'.files.trans h.files,h'.error.trans h.error,h'.peak.trans h.peak,h'.known.trans h.known,
    h'.resident.trans h.resident,h'.evicted.trans h.evicted,h'.finalized.trans h.finalized⟩

def promotions (chosen : List ℕ) (records : List DirectorySpoolRecord) : ℕ :=
  chosen.countP fun i => !(records.getD i default).selected

/-- The effect of the selection loop, position by position. -/
structure Reselected (order chosen : List ℕ) (s s' : Spool) : Prop where
  store : SameStore s s'
  length : s'.records.length=s.records.length
  records : ∀ i : ℕ, s'.records[i]? =
    s.records[i]?.map fun r => if i ∈ order then judged chosen i r else r
  bytes : s'.selectedBytes=s.selectedBytes+(chosen.map (weightAt s.records)).sum
  promoted : s'.reselectedCount = (s.reselectedCount + promotions chosen s.records) % 2^64

variable {records : List DirectorySpoolRecord} {i : ℕ}

private theorem weightAt_set {r r':DirectorySpoolRecord} (hr:records[i]? = some r)
    (hbytes:r'.fullBytes=r.fullBytes) (j:ℕ) :
    weightAt (records.set i r') j=weightAt records j:=by
  unfold weightAt
  by_cases hij : i=j
  · subst hij
    have hlt : i < records.length:=(List.getElem?_eq_some_iff.mp hr).1
    simp [getD_eq_getElem?_getD,getElem?_set_self hlt,hr,hbytes]
  · simp [getD_eq_getElem?_getD,getElem?_set_ne hij]

/-- One turn in front of the remaining turns. -/
private theorem Reselected.cons {rest chosen:List ℕ} {s s':Spool} {r:DirectorySpoolRecord}
    (hr:s.records[i]? = some r) (hout:i ∉ rest) (hsub:∀j∈chosen,j∈rest)
    {selected:Bool} (hbytes:selected=true → s.selectedBytes+r.fullBytes<2^64)
    (h:Reselected rest chosen (s.judge i r selected) s') :
    Reselected (i::rest) (if selected then i::chosen else chosen) s s':=by
  have hlt : i<s.records.length:=(List.getElem?_eq_some_iff.mp hr).1
  have hweight : ∀j,weightAt (s.judge i r selected).records j=weightAt s.records j:=
    weightAt_set hr rfl
  have hi : i ∉ chosen:=fun hm=>hout (hsub i hm)
  have hget : s.records.getD i default=r:=by simp [getD_eq_getElem?_getD,hr]
  refine ⟨(SameStore.judge s i r selected).trans h.store,?_,?_,?_,?_⟩
  · rw [h.length]
    simp [Spool.judge,Spool.setRecord]
  · intro j
    rw [h.records j]
    by_cases hij : j=i
    · subst hij
      simp only [Spool.judge,Spool.setRecord,getElem?_set_self hlt,hr,map_some,
        hout,if_false,mem_cons,true_or,if_true,judged,some.injEq]
      cases selected <;> simp [hi]
    · have hmem : ∀l : List ℕ,(j ∈ if selected then i::l else l) ↔ j∈l:=by
        intro l
        cases selected <;> simp [hij]
      simp only [Spool.judge,Spool.setRecord,getElem?_set_ne (Ne.symm hij),
        mem_cons,hij,false_or,judged,hmem]
  · rw [h.bytes,map_congr_left fun j _=>hweight j]
    cases selected with
    | false=>rfl
    | true=>
      have hadd : (s.judge i r true).selectedBytes=s.selectedBytes+r.fullBytes:=
        Word64.add_eq (hbytes rfl)
      rw [hadd]
      simp [weightAt,hr,Nat.add_assoc]
  · have hsame : promotions chosen (s.judge i r selected).records =
        promotions chosen s.records:=by
      refine countP_congr fun j hj=>?_
      have hij : i≠j:=fun he=>hi (he▸hj)
      simp [Spool.judge,Spool.setRecord,getD_eq_getElem?_getD,getElem?_set_ne hij]
    rw [h.promoted,hsame]
    cases selected with
    | false=>rfl
    | true=>
      have hcons : promotions (i::chosen) s.records =
          promotions chosen s.records + if r.selected then 0 else 1:=by
        simp only [promotions,countP_cons,hget]
        cases r.selected <;> rfl
      simp only [if_true,hcons]
      cases hsel : r.selected with
      | true=>simp [Spool.judge,hsel]
      | false=>
        simp only [Spool.judge,hsel,Bool.not_false,Bool.and_self,if_true,Word64.add,
          Bool.false_eq_true,if_false]
        omega

theorem reselect_spec (order:List ℕ) (s:Spool) (hnd:order.Nodup) (hlt:∀i∈order,i<s.records.length)
    (hinline:s.selectedBytes≤kDirectoryInlineReportBytes)
    (hcount:s.reselectedCount<2^64) :
    Reselected order
      (take (weightAt s.records) (kDirectoryInlineReportBytes-s.selectedBytes) order)
      s (Spool.reselect order s):=by
  have hword : kDirectoryInlineReportBytes<2^64:=by decide
  induction order generalizing s with
  | nil=>
    refine ⟨.refl s,rfl,?_,by simp [GreedySelection.take,Spool.reselect],?_⟩
    · intro i
      cases hi : s.records[i]? <;> simp [Spool.reselect,hi]
    · exact (Nat.mod_eq_of_lt hcount).symm
  | cons i rest ih=>
    obtain ⟨hout,hnd'⟩:=nodup_cons.mp hnd
    obtain ⟨r,hr⟩ : ∃r,s.records[i]? = some r:=⟨_,getElem?_eq_getElem (hlt i mem_cons_self)⟩
    have hweight : weightAt s.records i=r.fullBytes:=by simp [weightAt,hr]
    have hsub : Word64.sub kDirectoryInlineReportBytes s.selectedBytes =
        kDirectoryInlineReportBytes - s.selectedBytes:=Word64.sub_eq hinline hword
    set selected:=decide (r.fullBytes≤kDirectoryInlineReportBytes-s.selectedBytes)
      with hselected
    have hbytes : selected=true → s.selectedBytes+r.fullBytes≤kDirectoryInlineReportBytes:=by
      intro h
      have:=of_decide_eq_true (hselected▸h)
      omega
    have hstep : Spool.reselect (i::rest) s=Spool.reselect rest (s.judge i r selected):=by
      rw [Spool.reselect,hr]
      simp only [hsub,hselected]
    have hjudged : (s.judge i r selected).selectedBytes =
        if selected then s.selectedBytes+r.fullBytes else s.selectedBytes:=by
      cases hs : selected with
      | false=>rfl
      | true=>exact Word64.add_eq (lt_of_le_of_lt (hbytes hs) hword)
    have hrec:=ih (s.judge i r selected) hnd'
      (fun j hj=>by
        simpa [Spool.judge,Spool.setRecord] using hlt j (mem_cons_of_mem i hj))
      (by
        rw [hjudged]
        split
        · exact hbytes ‹_›
        · exact hinline)
      (by
        change (if selected && !r.selected then Word64.add s.reselectedCount 1
          else s.reselectedCount) < _
        split
        · exact Word64.add_lt _ _
        · exact hcount)
    have hsame : weightAt (s.judge i r selected).records=weightAt s.records:=
      funext (weightAt_set hr rfl)
    rw [hsame,hjudged] at hrec
    have hcons:=hrec.cons hr hout (fun j hj=>GreedySelection.mem_of_mem_take hj)
      (fun h=>lt_of_le_of_lt (hbytes h) hword)
    rw [hstep]
    refine (?_ : take _ _ (i::rest)=_)▸hcons
    rw [GreedySelection.take,hweight]
    by_cases hfit : r.fullBytes≤kDirectoryInlineReportBytes-s.selectedBytes
    · simp [hselected,hfit,Nat.sub_sub]
    · simp [hselected,hfit]

variable (sorter : StdSort)

def selection (records : List DirectorySpoolRecord) : List ℕ :=
  take (weightAt records) kDirectoryInlineReportBytes
    (sorter.sort (Spool.positionBetter records) (Spool.available records))

def withPriority (priorities : String→Option ℤ) (r : DirectorySpoolRecord) : DirectorySpoolRecord :=
  {r with detailPriority:=(priorities (spoolPathKey r.input)).getD r.detailPriority}

def finalRecord (priorities : String→Option ℤ) (chosen : List ℕ) (i : ℕ)
    (r : DirectorySpoolRecord) : DirectorySpoolRecord :=
  if r.payload.isSome then judged chosen i (withPriority priorities r)
  else withPriority priorities r

theorem bytesOf_eq_sum_map (p:DirectorySpoolRecord→Bool) (rs:List DirectorySpoolRecord) :
    bytesOf p rs = (rs.map fun r=>if p r then r.fullBytes else 0).sum:=by
  induction rs with
  | nil=>rfl
  | cons r rs ih=>rw [bytesOf_cons,ih,map_cons,sum_cons]

private theorem map_range_getD {α:Type} [Inhabited α] (l:List α) :
    (List.range l.length).map (fun i=>l.getD i default) = l:=by
  refine ext_getElem (by simp) fun i h₁ h₂=>?_
  simp [getD_eq_getElem?_getD,getElem?_eq_getElem h₂]

/-- Filtering positions by their entries is filtering the entries. -/
theorem map_filter_range {α:Type} [Inhabited α] (p:α→Bool) (l:List α) :
    ((List.range l.length).filter fun i=>p (l.getD i default)).map
      (fun i=>l.getD i default) = l.filter p:=by
  conv_rhs=>rw [← map_range_getD l,List.filter_map]
  rfl

theorem mem_available :
    i∈Spool.available records ↔ ∃r,records[i]? = some r ∧ r.payload.isSome=true:=by
  simp only [Spool.available,mem_filter,mem_range]
  constructor
  · rintro ⟨hi,hp⟩
    exact ⟨_,getElem?_eq_getElem hi,by simpa [getElem?_eq_getElem hi] using hp⟩
  · rintro ⟨r,hr,hp⟩
    exact ⟨(List.getElem?_eq_some_iff.mp hr).1,by simpa [hr] using hp⟩

theorem available_nodup (records:List DirectorySpoolRecord) :
    (Spool.available records).Nodup:=nodup_range.filter _

theorem map_available (records:List DirectorySpoolRecord) :
    (Spool.available records).map (fun i=>records.getD i default) =
      records.filter (·.payload.isSome):=by
  rw [← map_filter_range]
  refine congrArg _ (filter_congr fun i hi=>?_)
  have hlt:=mem_range.mp hi
  simp [getD_eq_getElem?_getD,getElem?_eq_getElem hlt]

theorem selection_nodup (records:List DirectorySpoolRecord) : (selection sorter records).Nodup:=
  ((sorter.perm _ _).nodup_iff.mpr (available_nodup records)).sublist (take_sublist _ _ _)

theorem mem_available_of_mem_selection {sorter:StdSort} (h:i∈selection sorter records) :
    i∈Spool.available records:=
  (sorter.perm _ _).mem_iff.mp (mem_of_mem_take h)

theorem selection_weight_le (records:List DirectorySpoolRecord) :
    ((selection sorter records).map (weightAt records)).sum≤kDirectoryInlineReportBytes:=
  sum_take_le _ _ _

/-- The effect of a successful `finalize_selection`, position by position. -/
structure Finalized (priorities : String→Option ℤ) (chosen : List ℕ) (s s' : Spool) : Prop where
  records : ∀ i : ℕ, s'.records[i]? = s.records[i]?.map (finalRecord priorities chosen i)
  files : s'.files=s.files
  resident : s'.residentBytes=s.residentBytes
  peak : s'.peakBytes=s.peakBytes
  known : s'.knownFullBytes=s.knownFullBytes
  evicted : s'.cacheEvictedCount=s.cacheEvictedCount
  bytes : s'.selectedBytes=(chosen.map (weightAt s.records)).sum
  promoted : s'.reselectedCount = promotions chosen s.records % 2^64
  finalized : s'.prioritiesFinalized=true
  error : s'.error=s.error

theorem finalRecord_bytes (priorities:String→Option ℤ) (chosen:List ℕ) (i:ℕ)
    (r:DirectorySpoolRecord) : (finalRecord priorities chosen i r).fullBytes=r.fullBytes:=by
  rw [finalRecord]
  split <;> rfl

theorem finalRecord_payload (priorities:String→Option ℤ) (chosen:List ℕ) (i:ℕ)
    (r:DirectorySpoolRecord) : (finalRecord priorities chosen i r).payload=r.payload:=by
  rw [finalRecord]
  split <;> rfl

theorem finalRecord_input (priorities:String→Option ℤ) (chosen:List ℕ) (i:ℕ)
    (r:DirectorySpoolRecord) : (finalRecord priorities chosen i r).input=r.input:=by
  rw [finalRecord]
  split <;> rfl

namespace Finalized
variable {priorities : String→Option ℤ} {chosen : List ℕ} {s s' : Spool}

/-- A field that `finalRecord` keeps is the same in the whole list. -/
theorem map_eq {α:Type} (h:Finalized priorities chosen s s') {f:DirectorySpoolRecord→α}
    (hf:∀i r,f (finalRecord priorities chosen i r)=f r) :
    s'.records.map f=s.records.map f:=by
  refine ext_getElem? fun i=>?_
  rw [getElem?_map,getElem?_map,h.records,Option.map_map]
  exact congrArg (fun g=>Option.map g s.records[i]?) (funext (hf i))

theorem length_eq (h:Finalized priorities chosen s s') : s'.records.length=s.records.length:=by
  simpa using congrArg List.length (h.map_eq (finalRecord_bytes priorities chosen))

theorem residentFiles_eq (h:Finalized priorities chosen s s') :
    residentFiles s'.records=residentFiles s.records:=by
  have hfile : ∀rs : List DirectorySpoolRecord,
      residentFiles rs=(rs.map (·.file?)).filterMap id:=by
    intro rs
    rw [filterMap_map]
    rfl
  rw [hfile,hfile,h.map_eq (f:=(·.file?)) fun i r=>by
    simp only [DirectorySpoolRecord.file?,finalRecord_payload,finalRecord_bytes]]

theorem payloads_eq (h:Finalized priorities chosen s s') :
    payloads s'.records=payloads s.records:=by
  rw [← residentFiles_names,h.residentFiles_eq,residentFiles_names]

theorem resident_bytesOf (h:Finalized priorities chosen s s') :
    bytesOf (·.payload.isSome) s'.records=bytesOf (·.payload.isSome) s.records:=by
  rw [bytesOf_eq_sum_map,bytesOf_eq_sum_map,
    h.map_eq (f:=fun r=>if r.payload.isSome then r.fullBytes else 0) fun i r=>by
      simp only [finalRecord_payload,finalRecord_bytes]]

theorem exists_of_mem (h:Finalized priorities chosen s s') {r':DirectorySpoolRecord}
    (hr':r'∈s'.records) : ∃i r,s.records[i]? = some r ∧ r∈s.records ∧
      s'.records[i]? = some r' ∧ r'=finalRecord priorities chosen i r:=by
  obtain ⟨i,hi⟩:=mem_iff_getElem?.mp hr'
  have hrec:=h.records i
  rw [hi] at hrec
  obtain ⟨r,hr,heq⟩:=map_eq_some_iff.mp hrec.symm
  exact ⟨i,r,hr,mem_of_getElem? hr,hi,heq.symm⟩

theorem selected_iff (h:Finalized priorities chosen s s')
    (hunselected:∀r∈s.records,r.selected=true → r.payload.isSome=true)
    (havailable:∀i∈chosen,i∈Spool.available s.records) (i:ℕ) :
    (s'.records.getD i default).selected=true ↔ i∈chosen:=by
  rw [getD_eq_getElem?_getD,h.records]
  constructor
  · intro hsel
    cases hr : s.records[i]? with
    | none=>simp [hr,show (default:DirectorySpoolRecord).selected = false from rfl] at hsel
    | some r=>
      simp only [hr,map_some,getD_some,finalRecord] at hsel
      split at hsel
      · exact of_decide_eq_true hsel
      · rename_i hp
        exact absurd (hunselected r (mem_of_getElem? hr) hsel) hp
  · intro hi
    obtain ⟨r,hr,hp⟩:=mem_available.mp (havailable i hi)
    simp [hr,finalRecord,hp,judged,hi]

theorem selected_perm (h:Finalized priorities chosen s s')
    (hunselected:∀r∈s.records,r.selected=true → r.payload.isSome=true)
    (havailable:∀i∈chosen,i∈Spool.available s.records) (hnd:chosen.Nodup) :
    (s'.records.filter (·.selected)).Perm (chosen.map fun i=>s'.records.getD i default):=by
  rw [← map_filter_range]
  refine List.Perm.map _ ?_
  rw [perm_ext_iff_of_nodup (nodup_range.filter _) hnd]
  intro i
  rw [mem_filter,h.selected_iff hunselected havailable,and_iff_right_iff_imp]
  intro hi
  obtain ⟨r,hr,-⟩:=mem_available.mp (havailable i hi)
  rw [mem_range,h.length_eq]
  exact (List.getElem?_eq_some_iff.mp hr).1

theorem weightAt_eq (h:Finalized priorities chosen s s') (i:ℕ) :
    weightAt s'.records i=weightAt s.records i:=by
  rw [weightAt,weightAt,getD_eq_getElem?_getD,getD_eq_getElem?_getD,h.records]
  cases s.records[i]? with
  | none=>rfl
  | some r=>simp [finalRecord_bytes]

theorem accounted (h:Finalized priorities chosen s s') (hs:Accounted s)
    (havailable:∀i∈chosen,i∈Spool.available s.records) (hnd:chosen.Nodup)
    (hfit:(chosen.map (weightAt s.records)).sum≤kDirectoryInlineReportBytes) :
    Accounted s':=by
  have hl:=hs.ledger
  have hselected:=h.selected_perm hl.selected_payload havailable hnd
  have hchosen : ∀r'∈s'.records,r'.selected=true →
      r'.payload.isSome=true ∧ r'.deferredReason = "" := by
    intro r' hr' hsel
    obtain ⟨i,r,hr,hmem,hi,rfl⟩:=h.exists_of_mem hr'
    have hmem' : i∈chosen:=by
      rw [← h.selected_iff hl.selected_payload havailable,getD_eq_getElem?_getD,hi]
      exact hsel
    obtain ⟨t,ht,hp⟩:=mem_available.mp (havailable i hmem')
    obtain rfl : r=t:=some.inj (hr.symm.trans ht)
    refine ⟨by rw [finalRecord_payload];exact hp,?_⟩
    simp [finalRecord,hp,judged,hmem']
  refine ⟨⟨h.error.trans hl.error,?_,?_,?_,?_,?_,fun r hr hsel=>(hchosen r hr hsel).1,
    fun r hr hsel=>(hchosen r hr hsel).2,?_⟩,?_,?_,?_⟩
  · rw [h.files,h.residentFiles_eq]
    exact hl.files
  · rw [h.payloads_eq]
    exact hl.payload_nodup
  · rw [h.payloads_eq,h.length_eq]
    exact hl.payload_lt
  · rw [h.resident,h.resident_bytesOf]
    exact hl.resident
  · rw [h.bytes,bytesOf,(hselected.map (·.fullBytes)).sum_eq,List.map_map]
    exact congrArg List.sum (map_congr_left fun i _=>(h.weightAt_eq i).symm)
  · intro r' hr' hp
    obtain ⟨i,r,-,hmem,-,rfl⟩:=h.exists_of_mem hr'
    rw [finalRecord_payload] at hp
    rw [finalRecord_bytes]
    exact hl.payload_le r hmem hp
  · rw [h.bytes]
    exact hfit
  · rw [h.resident]
    exact hs.hard
  · rw [h.peak]
    exact hs.peak

end Finalized

theorem available_reprioritized (priorities:String→Option ℤ) (records:List DirectorySpoolRecord) :
    Spool.available (Spool.reprioritized priorities records)=Spool.available records:=by
  have hlen : (Spool.reprioritized priorities records).length=records.length:=length_map _
  rw [Spool.available,Spool.available,hlen]
  refine filter_congr fun i _=>?_
  rw [Spool.reprioritized,getElem?_map]
  cases records[i]? <;> rfl

theorem weightAt_reprioritized (priorities:String→Option ℤ) (records:List DirectorySpoolRecord) :
    weightAt (Spool.reprioritized priorities records)=weightAt records:=by
  funext i
  rw [weightAt,weightAt,getD_eq_getElem?_getD,getD_eq_getElem?_getD,
    Spool.reprioritized,getElem?_map]
  cases records[i]? <;> rfl

theorem promotions_reprioritized (priorities:String→Option ℤ) (chosen:List ℕ)
    (records:List DirectorySpoolRecord) :
    promotions chosen (Spool.reprioritized priorities records)=promotions chosen records:=by
  refine countP_congr fun i _=>?_
  rw [getD_eq_getElem?_getD,getD_eq_getElem?_getD,Spool.reprioritized, getElem?_map]
  cases records[i]? <;> rfl

/-- The selection loop, started over the new priorities, is the positional effect. -/
theorem finalized_of_reselected {priorities:String→Option ℤ} {order chosen:List ℕ}
    {s s':Spool} (horder:∀i,i∈order ↔ i∈Spool.available s.records)
    (h:Reselected order chosen
      { s with
        records:=Spool.reprioritized priorities s.records,selectedBytes:=0
        reselectedCount:=0 } s') :
    Finalized priorities chosen s {s' with prioritiesFinalized:=true}:=by
  refine ⟨?_,h.store.files,h.store.resident,h.store.peak,h.store.known,h.store.evicted,?_,
    ?_,rfl,h.store.error⟩
  · intro i
    change s'.records[i]? = _
    rw [h.records i]
    change ((s.records.map (withPriority priorities))[i]?).map _=_
    rw [getElem?_map,Option.map_map]
    cases hr : s.records[i]? with
    | none=>rfl
    | some r=>
      simp only [map_some,Function.comp_apply,finalRecord,horder,mem_available,hr,
        some.injEq,exists_eq_left']
  · change s'.selectedBytes = _
    rw [h.bytes,weightAt_reprioritized,Nat.zero_add]
  · change s'.reselectedCount = _
    rw [h.promoted,promotions_reprioritized,Nat.zero_add]

/-- With a priority for every record, `finalize_selection` succeeds, and selects the greedy
scan of the surviving payloads. -/
theorem finalizeSelection_spec {s:Spool} (h:Accounted s) {priorities:String→Option ℤ}
    (hall:∀r∈s.records,(priorities (spoolPathKey r.input)).isSome=true) :
    ∃s',s.finalizeSelection sorter priorities=(s',none) ∧ Accounted s' ∧
      Finalized priorities (selection sorter (Spool.reprioritized priorities s.records)) s s':=by
  set records:=Spool.reprioritized priorities s.records with hrecords
  set order:=sorter.sort (Spool.positionBetter records) (Spool.available records) with horder
  have hmem : ∀i,i∈order ↔ i∈Spool.available s.records:=by
    intro i
    rw [horder,(sorter.perm _ _).mem_iff,hrecords,available_reprioritized]
  have hnd : order.Nodup:=(sorter.perm _ _).nodup_iff.mpr (available_nodup _)
  have hlt : ∀i∈order,i < records.length:=by
    intro i hi
    obtain ⟨r,hr,-⟩:=mem_available.mp ((hmem i).mp hi)
    rw [hrecords,Spool.reprioritized,length_map]
    exact (List.getElem?_eq_some_iff.mp hr).1
  have hloop:=reselect_spec order
    {s with records,selectedBytes:=0,reselectedCount:=0} hnd hlt (Nat.zero_le _)
    (Nat.two_pow_pos 64)
  have hfinal:=finalized_of_reselected hmem hloop
  have havailable : ∀i∈selection sorter records,i∈Spool.available s.records:=by
    intro i hi
    rw [← available_reprioritized priorities]
    exact mem_available_of_mem_selection hi
  have hfit:=selection_weight_le sorter records
  rw [hrecords,weightAt_reprioritized,← hrecords] at hfit
  have hacc:=hfinal.accounted h havailable (selection_nodup sorter records) hfit
  refine ⟨_,?_,hacc,hfinal⟩
  have hready : s.ready=true:=by simp [Spool.ready,h.ledger.error]
  have hpresent : s.records.any (fun r=>(priorities (spoolPathKey r.input)).isNone) = false:=by
    refine any_eq_false.mpr fun r hr=>?_
    simpa [isNone_iff_eq_none,isSome_iff_ne_none] using hall r hr
  rw [Spool.finalizeSelection,hready,hpresent]
  exact congrArg (Prod.mk _) hacc.validate

theorem finalizeSelection_missing {s:Spool} (h:Accounted s) {priorities:String→Option ℤ}
    (hmissing:∃r∈s.records,priorities (spoolPathKey r.input)=none) :
    s.finalizeSelection sorter priorities =
      (s,some "final directory report priority is missing"):=by
  obtain ⟨r,hr,hnone⟩:=hmissing
  have hready : s.ready=true:=by simp [Spool.ready,h.ledger.error]
  have hany : s.records.any (fun r=>(priorities (spoolPathKey r.input)).isNone) = true:=
    any_eq_true.mpr ⟨r,hr,by simp [hnone]⟩
  rw [Spool.finalizeSelection,hready,hany]
  rfl

end AutoRefirst.DirectoryReportSpool
