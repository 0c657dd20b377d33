import AutoRefirst.SpoolSelection
import Mathlib.Data.List.Induction
import Mathlib.Data.Prod.Lex

/-!
# Runs of the directory report spool

The accounting invariant holds along every sequence of calls, so the budgets hold at
every chunk of every report and the internal error exits are never taken. The final
selection of a reachable spool is canonical: it is the greedy scan of the surviving
payloads in ranked order, whatever was selected before.
-/

namespace AutoRefirst.DirectoryReportSpool
open List Option

open GreedySelection

theorem Accounted.apply (sorter:StdSort) {s:Spool} (h:Accounted s) (call:Call) :
    Accounted (call.apply sorter s).1:=by
  cases call with
  | add input detailPriority chunks=>
    cases hopen : s.prioritiesFinalized with
    | false=>
      obtain ⟨s',hs',hacc,-⟩:=h.add hopen input detailPriority chunks
      rw [Call.apply,hs']
      exact hacc
    | true=>
      have hready : s.ready=true:=by simp [Spool.ready,h.ledger.error]
      rw [Call.apply,Spool.add,hready,hopen]
      exact h
  | finalizeSelection priorities=>
    rw [Call.apply]
    by_cases hall : ∀r∈s.records,(priorities (spoolPathKey r.input)).isSome=true
    · obtain ⟨s',hs',hacc,-⟩:=finalizeSelection_spec sorter h hall
      rw [hs']
      exact hacc
    · have hmissing : ∃r∈s.records,priorities (spoolPathKey r.input)=none:=by
        simpa using hall
      rw [finalizeSelection_missing sorter h hmissing]
      exact h

theorem accounted_new : Accounted {}:=
  ⟨⟨rfl,List.Perm.refl _,nodup_nil,by simp [payloads],rfl,rfl,by simp,by simp,by simp⟩,
    Nat.zero_le _,Nat.zero_le _,Nat.zero_le _⟩

variable (sorter : StdSort)

theorem run_accounted (calls:List Call) : Accounted (run sorter calls):=by
  suffices hrun : ∀s,Accounted s →
      Accounted (calls.foldl (fun s call=>(call.apply sorter s).1) s) from
    hrun {} accounted_new
  induction calls with
  | nil=>exact fun s h=>h
  | cons call calls ih=>exact fun s h=>ih _ (h.apply sorter call)

def stagingFiles (s : Spool) : List (ℕ×ℕ) :=
  s.files.filter fun f => !s.records.any (·.payload == some f.1)

def stagingBytes (s : Spool) : ℕ := ((stagingFiles s).map (·.2)).sum

def DirectorySpoolRecord.payloadPresent (s : Spool) (r : DirectorySpoolRecord) : Bool :=
  r.payload.any fun p => s.files.any (·.1 == p)

theorem Ledger.stagingFiles_perm {extra:List (ℕ×ℕ)} {s:Spool} (h:Ledger extra s) :
    (stagingFiles s).Perm extra:=by
  refine (h.files.filter _).trans ?_
  have howned : ∀f : ℕ×ℕ,
      s.records.any (·.payload == some f.1)=decide (f.1∈payloads s.records):=by
    intro f
    rw [Bool.eq_iff_iff]
    simp [payloads]
  have hout : ∀f∈extra,f.1 ∉ payloads s.records:=fun f hf hmem=>
    (nodup_append.mp h.payload_nodup).2.2 f.1 (mem_map_of_mem hf) f.1 hmem rfl
  have hin : ∀f∈residentFiles s.records,f.1∈payloads s.records:=by
    intro f hf
    rw [← residentFiles_names]
    exact mem_map_of_mem hf
  rw [filter_append,filter_eq_self.mpr fun f hf=>by simp [howned,hout f hf],
    filter_eq_nil_iff.mpr fun f hf=>by simp [howned,hin f hf],append_nil]

theorem Ledger.payloadPresent_eq {extra:List (ℕ×ℕ)} {s:Spool} (h:Ledger extra s) :
    ∀r∈s.records,r.payloadPresent s=r.payload.isSome:=by
  intro r hr
  rw [DirectorySpoolRecord.payloadPresent]
  cases hp : r.payload with
  | none=>rfl
  | some p=>
    refine any_eq_true.mpr ⟨(p,r.fullBytes),?_,by simp⟩
    rw [h.files.mem_iff,mem_append]
    exact Or.inr (mem_filterMap.mpr ⟨r,hr,by simp [DirectorySpoolRecord.file?,hp]⟩)

/-- What the counters of a spool say about its records and its directory. -/
structure Balanced (s : Spool) : Prop where
  staging : stagingBytes s = 0
  resident : s.residentBytes=bytesOf (·.payloadPresent s) s.records
  selected : s.selectedBytes=bytesOf (·.selected) s.records
  selected_present : ∀ r∈s.records, r.selected=true →
    r.payloadPresent s = true ∧ r.deferredReason ≠ "DIRECTORY_SPOOL_CACHE_BUDGET"
  present_le : ∀ r∈s.records, r.payloadPresent s = true →
    r.fullBytes ≤ kDirectoryPerReportBytes
  inline : s.selectedBytes≤kDirectoryInlineReportBytes

structure ChunkBudget (w : Spool×CappedSpoolStreambuf) : Prop where
  staging : stagingBytes w.1 = w.2.written
  hard : w.1.residentBytes + stagingBytes w.1 ≤ kDirectoryReportSpoolHardBytes
  peak : w.1.peakBytes≤kDirectoryReportSpoolHardBytes

theorem Accounted.balanced {s:Spool} (h:Accounted s) : Balanced s:=by
  have hl:=h.ledger
  have hpresent:=hl.payloadPresent_eq
  refine ⟨?_,?_,hl.selected,?_,?_,h.inline⟩
  · rw [stagingBytes,(hl.stagingFiles_perm.map _).sum_eq]
    rfl
  · rw [hl.resident]
    exact (bytesOf_congr hpresent).symm
  · intro r hr hsel
    rw [hpresent r hr,hl.selected_reason r hr hsel]
    exact ⟨hl.selected_payload r hr hsel,by decide⟩
  · intro r hr hp
    rw [hpresent r hr] at hp
    exact hl.payload_le r hr hp

theorem Writing.chunkBudget {n:ℕ} {s:Spool} {buf:CappedSpoolStreambuf}
    (h:Writing n s buf) : ChunkBudget (s,buf):=by
  have hstaging : stagingBytes s=buf.written:=by
    rw [stagingBytes,(h.ledger.stagingFiles_perm.map _).sum_eq]
    simp
  exact ⟨hstaging,hstaging▸h.room,h.peak⟩

/-- After every call of every run the counters balance, and at every chunk that a further
`add` writes the hard budget holds. -/
theorem run_balanced (sorter : StdSort) (calls : List Call) : Balanced (run sorter calls) ∧
      ((run sorter calls).prioritiesFinalized=false →
        ∀ chunks, ChunkBudget ((run sorter calls).staged chunks)) := by
  have h:=run_accounted sorter calls
  exact ⟨h.balanced,fun hopen chunks=>(h.staged hopen chunks).chunkBudget⟩

/-- Three reports of 6 MiB. The inline budget holds two of them, and the last one has the
lowest initial priority. -/
def threeReports : List Call :=
  [.add ⟨"a"⟩ 20 [6291456],.add ⟨"b"⟩ 20 [6291456],.add ⟨"c"⟩ 1 [6291456]]

theorem run_balanced_threeReports :
    ChunkBudget ((run insertionStdSort threeReports).staged [4194304,8388608]):=
  (run_balanced insertionStdSort threeReports).2 (by decide) _

/-- A report as `add` receives it. -/
structure Report where
  input : NativePath
  detailPriority : ℤ
  chunks : List ℤ

variable (reports : List Report)

def addAll : Spool :=
  run sorter (reports.map fun r => .add r.input r.detailPriority r.chunks)

theorem addAll_append_singleton (r:Report) : addAll sorter (reports++[r]) =
      ((addAll sorter reports).add r.input r.detailPriority r.chunks).1:=by
  simp [addAll,run,Call.apply]

theorem addAll_open : (addAll sorter reports).prioritiesFinalized=false:=by
  induction reports using reverseRecOn with
  | nil=>rfl
  | append_singleton reports r ih=>
    have hacc : Accounted (addAll sorter reports):=run_accounted sorter _
    obtain ⟨s',hs',-,-,hopen⟩:=hacc.add ih r.input r.detailPriority r.chunks
    rw [addAll_append_singleton,hs']
    exact hopen

/-- While reports are added, and in the final selection, no exit with an error is taken:
the reservation of every chunk below the per-report limit succeeds, every `add` succeeds,
the state always validates, and every selection with all priorities succeeds. -/
theorem addAll_never_fails (sorter : StdSort) (reports : List Report) :
    (∀ r : Report, ((addAll sorter reports).add r.input r.detailPriority r.chunks).2=none) ∧
    (∀ chunks, let w := (addAll sorter reports).staged chunks
      w.2.failed=false ∧ ∀ next : ℕ, w.2.written+next≤kDirectoryPerReportBytes →
        (w.1.reserveStaging w.2.written next).2=none) ∧
    (addAll sorter reports).validate=none ∧
    ∀ priorities : String → Option ℤ, (∀ r∈(addAll sorter reports).records,
        (priorities (spoolPathKey r.input)).isSome=true) →
      ((addAll sorter reports).finalizeSelection sorter priorities).2=none := by
  have hacc : Accounted (addAll sorter reports):=run_accounted sorter _
  have hopen:=addAll_open sorter reports
  refine ⟨fun r=>?_,fun chunks=>?_,hacc.validate,fun priorities hall=>?_⟩
  · obtain ⟨s',hs',-⟩:=hacc.add hopen r.input r.detailPriority r.chunks
    rw [hs']
  · have hw:=hacc.staged hopen chunks
    refine ⟨hw.failed,fun next hnext=>?_⟩
    obtain ⟨s',hs',-⟩:=reserveStaging_spec hw.ledger hw.inline
      ((Nat.le_add_right _ _).trans hw.room) hnext
    rw [hs']
  · obtain ⟨s',hs',-⟩:=finalizeSelection_spec sorter hacc hall
    rw [hs']

theorem addAll_never_fails_one :
    ((addAll insertionStdSort [⟨⟨"a"⟩,20,[6291456]⟩]).finalizeSelection insertionStdSort
      fun _=>some 1).2 = none ∧
    let w:=(addAll insertionStdSort [⟨⟨"a"⟩,20,[6291456]⟩]).staged [4194304]
    (w.1.reserveStaging w.2.written 1024).2=none:=
  ⟨(addAll_never_fails insertionStdSort [⟨⟨"a"⟩,20,[6291456]⟩]).2.2.2 _ (fun _ _=>rfl),
    ((addAll_never_fails insertionStdSort [⟨⟨"a"⟩,20,[6291456]⟩]).2.1 [4194304]).2 1024
      (by decide)⟩

variable (r : DirectorySpoolRecord)

def rank : ℤ ×ₗ ℕ ×ₗ String :=
  toLex (-r.detailPriority,toLex (r.fullBytes,spoolPathKey r.input))

theorem recordBetter_iff (a b:DirectorySpoolRecord) :
    recordBetter a b=true ↔ rank a < rank b:=by
  simp only [rank,Prod.Lex.toLex_lt_toLex,recordBetter]
  by_cases hp : a.detailPriority=b.detailPriority
  · by_cases hb : a.fullBytes=b.fullBytes
    · simp [hp,hb]
    · simp [hp,hb]
  · simp [hp]

def identity : String×ℕ := (spoolPathKey r.input,r.fullBytes)

def identities (p : DirectorySpoolRecord→Bool) (s : Spool) : List (String×ℕ) :=
  (s.records.filter p).map identity

/-- The selection is canonical: a ranked greedy scan of the surviving payloads, blind to
the earlier selection. -/
structure Canonical (sorter : StdSort) (priorities : String→Option ℤ) (s s' : Spool) :
    Prop where
  /-- Every record is the old one with its new priority, selected when the scan takes it. -/
  records : ∀ i : ℕ, s'.records[i]? = s.records[i]?.map
    (finalRecord priorities (selection sorter (Spool.reprioritized priorities s.records)) i)
  selected : ∀ i, (s'.records.getD i default).selected=true ↔
    i ∈ selection sorter (Spool.reprioritized priorities s.records)
  /-- The scan visits the surviving payloads, no better record after a worse one. -/
  sorted : (sorter.sort (Spool.positionBetter s'.records)
    (Spool.available s.records)).Pairwise
      (fun i j => Spool.positionBetter s'.records j i = false)
  scan : selection sorter (Spool.reprioritized priorities s.records) =
    take (weightAt s.records) kDirectoryInlineReportBytes
      (sorter.sort (Spool.positionBetter s'.records) (Spool.available s.records))
  survivors : ∀ r∈s'.records, r.selected=true →
    r.payload.isSome = true ∧ r.fullBytes≤kDirectoryPerReportBytes

namespace Finalized
variable {priorities : String→Option ℤ} {chosen : List ℕ} {s s' : Spool}

theorem rank_eq (h:Finalized priorities chosen s s') (i:ℕ) : rank (s'.records.getD i default) =
      rank ((Spool.reprioritized priorities s.records).getD i default):=by
  rw [getD_eq_getElem?_getD,getD_eq_getElem?_getD,h.records,Spool.reprioritized, getElem?_map]
  cases s.records[i]? with
  | none=>rfl
  | some r=>
    simp only [map_some,getD_some,finalRecord]
    split <;> rfl

theorem positionBetter_eq (h:Finalized priorities chosen s s') : Spool.positionBetter s'.records =
      Spool.positionBetter (Spool.reprioritized priorities s.records):=by
  funext i j
  rw [Bool.eq_iff_iff,Spool.positionBetter,Spool.positionBetter,recordBetter_iff,
    recordBetter_iff,h.rank_eq,h.rank_eq]

theorem available_eq (h:Finalized priorities chosen s s') :
    Spool.available s'.records=Spool.available s.records:=by
  rw [Spool.available,Spool.available,h.length_eq]
  refine filter_congr fun i _=>?_
  rw [h.records]
  cases s.records[i]? with
  | none=>rfl
  | some r=>simp [finalRecord_payload]

end Finalized

theorem selection_eq_take {priorities:String→Option ℤ} {chosen:List ℕ} {s s':Spool}
    (sorter:StdSort) (h:Finalized priorities chosen s s') :
    selection sorter (Spool.reprioritized priorities s.records) =
      take (weightAt s.records) kDirectoryInlineReportBytes
        (sorter.sort (Spool.positionBetter s'.records) (Spool.available s.records)):=by
  rw [selection,weightAt_reprioritized,available_reprioritized,h.positionBetter_eq]

theorem mem_available_of_mem_selection_reprioritized {sorter:StdSort}
    {priorities:String→Option ℤ} {records:List DirectorySpoolRecord} {i:ℕ}
    (h:i∈selection sorter (Spool.reprioritized priorities records)) :
    i∈Spool.available records:=by
  rw [← available_reprioritized priorities]
  exact mem_available_of_mem_selection h

theorem canonical_of_finalized {sorter:StdSort} {priorities:String→Option ℤ}
    {s s':Spool} (hs:Accounted s) (hs':Accounted s')
    (h:Finalized priorities (selection sorter (Spool.reprioritized priorities s.records)) s s') :
    Canonical sorter priorities s s':=by
  have hl:=hs'.ledger
  refine ⟨h.records,h.selected_iff hs.ledger.selected_payload
    (fun i hi=>mem_available_of_mem_selection_reprioritized hi),?_,selection_eq_take sorter h,
    fun r hr hsel=>⟨hl.selected_payload r hr hsel,
      hl.payload_le r hr (hl.selected_payload r hr hsel)⟩⟩
  exact sorter.sorted _ (fun i=>rank (s'.records.getD i default))
    (fun i j=>recordBetter_iff _ _) _

/-- The final rank of a report, from its identity alone. -/
private def finalRank (priorities : String→Option ℤ) (key : String×ℕ) : ℤ ×ₗ ℕ ×ₗ String :=
  toLex (-((priorities key.1).getD 0),toLex (key.2,key.1))

private theorem rank_withPriority {priorities:String→Option ℤ} {r:DirectorySpoolRecord}
    (h:(priorities (spoolPathKey r.input)).isSome=true) :
    rank (withPriority priorities r)=finalRank priorities (identity r):=by
  obtain ⟨v,hv⟩:=isSome_iff_exists.mp h
  simp [rank,withPriority,finalRank,identity,hv]

private theorem identity_of_rank :
    ((ofLex (ofLex (rank r)).2).2,(ofLex (ofLex (rank r)).2).1)=identity r:=rfl

private theorem map_rank_available {priorities:String→Option ℤ} {s:Spool}
    (hall:∀r∈s.records,(priorities (spoolPathKey r.input)).isSome=true) :
    (Spool.available (Spool.reprioritized priorities s.records)).map
      (fun i=>rank ((Spool.reprioritized priorities s.records).getD i default)) =
    (identities (·.payload.isSome) s).map (finalRank priorities):=by
  have hmap:=congrArg (List.map rank) (map_available (Spool.reprioritized priorities s.records))
  rw [List.map_map] at hmap
  refine hmap.trans ?_
  rw [identities,List.map_map,Spool.reprioritized,List.filter_map,List.map_map]
  exact map_congr_left fun r hr=>rank_withPriority (hall r (mem_of_mem_filter hr))

theorem identities_selected_perm {priorities:String→Option ℤ}
    {s t s' t':Spool} (hs:Accounted s) (ht:Accounted t)
    (hall:∀r∈s.records,(priorities (spoolPathKey r.input)).isSome=true)
    (hall':∀r∈t.records,(priorities (spoolPathKey r.input)).isSome=true)
    (hsurvivors:(identities (·.payload.isSome) s).Perm (identities (·.payload.isSome) t))
    (h:Finalized priorities (selection sorter (Spool.reprioritized priorities s.records)) s s')
    (h':Finalized priorities (selection sorter (Spool.reprioritized priorities t.records)) t t') :
    (identities (·.selected) s').Perm (identities (·.selected) t'):=by
  have hranks : ∀ {u u':Spool},Accounted u →
      Finalized priorities (selection sorter (Spool.reprioritized priorities u.records)) u u' →
      (identities (·.selected) u').Perm
        (((selection sorter (Spool.reprioritized priorities u.records)).map
          fun i=>rank ((Spool.reprioritized priorities u.records).getD i default)).map
            fun k=>((ofLex (ofLex k).2).2,(ofLex (ofLex k).2).1)):=by
    intro u u' hu hfinal
    have hperm:=hfinal.selected_perm hu.ledger.selected_payload
      (fun i hi=>mem_available_of_mem_selection_reprioritized hi) (selection_nodup sorter _)
    refine (hperm.map identity).trans (List.Perm.of_eq ?_)
    rw [List.map_map,List.map_map]
    refine map_congr_left fun i _=>?_
    rw [Function.comp_apply,Function.comp_apply,← hfinal.rank_eq,identity_of_rank]
  refine (hranks hs h).trans (List.Perm.trans (List.Perm.of_eq ?_) (hranks ht h').symm)
  refine congrArg (List.map _) ?_
  have hlt : ∀records : List DirectorySpoolRecord,∀i j : ℕ, Spool.positionBetter records i j=true ↔
        rank (records.getD i default) < rank (records.getD j default):=
    fun _ _ _=>recordBetter_iff _ _
  refine map_take_sort_eq_of_perm sorter (hlt _) (hlt _) (fun k=>(ofLex (ofLex k).2).1)
    (fun _=>rfl) (fun _=>rfl) ?_ _
  rw [map_rank_available hall,map_rank_available hall']
  exact hsurvivors.map _

theorem selection_congr {rs ts:List DirectorySpoolRecord}
    (hrank:∀i,rank (rs.getD i default)=rank (ts.getD i default))
    (havailable:Spool.available rs=Spool.available ts) :
    selection sorter rs=selection sorter ts:=by
  have hweight : weightAt rs=weightAt ts:=by
    funext i
    exact congrArg (fun k=>(ofLex (ofLex k).2).1) (hrank i)
  have hbetter : Spool.positionBetter rs=Spool.positionBetter ts:=by
    funext i j
    rw [Bool.eq_iff_iff,Spool.positionBetter,Spool.positionBetter,recordBetter_iff,
      recordBetter_iff,hrank,hrank]
  rw [selection,selection,hweight,hbetter,havailable]

private theorem getD_getD (o:Option ℤ) (old:ℤ) : o.getD (o.getD old)=o.getD old:=by
  cases o <;> rfl

theorem finalRecord_finalRecord (priorities:String→Option ℤ) (chosen:List ℕ) (i:ℕ)
    (r:DirectorySpoolRecord) :
    finalRecord priorities chosen i (finalRecord priorities chosen i r) =
      finalRecord priorities chosen i r:=by
  cases hp : r.payload <;> simp [finalRecord,withPriority,judged,hp,getD_getD]

theorem rank_withPriority_finalRecord (priorities:String→Option ℤ) (chosen:List ℕ) (i:ℕ)
    (r:DirectorySpoolRecord) :
    rank (withPriority priorities (finalRecord priorities chosen i r)) =
      rank (withPriority priorities r):=by
  cases hp : r.payload <;> simp [finalRecord,withPriority,judged,rank,hp,getD_getD]

theorem finalizeSelection_again {s s':Spool} (hs:Accounted s) {priorities:String→Option ℤ}
    (hall:∀r∈s.records,(priorities (spoolPathKey r.input)).isSome=true)
    (hfirst:s.finalizeSelection sorter priorities=(s',none)) :
    s'.finalizeSelection sorter priorities = ({s' with reselectedCount:=0},none):=by
  obtain ⟨t,ht,hacc,h⟩:=finalizeSelection_spec sorter hs hall
  obtain rfl : t=s':=congrArg Prod.fst (ht.symm.trans hfirst)
  have hall' : ∀r∈t.records,(priorities (spoolPathKey r.input)).isSome=true:=by
    intro r' hr'
    obtain ⟨i,r,-,hr,-,rfl⟩:=h.exists_of_mem hr'
    rw [finalRecord_input]
    exact hall r hr
  obtain ⟨u,hu,-,h'⟩:=finalizeSelection_spec sorter hacc hall'
  -- the new priorities were already stored, so the second scan sees the same ranks
  have hchosen : selection sorter (Spool.reprioritized priorities t.records) =
      selection sorter (Spool.reprioritized priorities s.records):=by
    refine selection_congr sorter (fun i=>?_) ?_
    · simp only [getD_eq_getElem?_getD,Spool.reprioritized,getElem?_map]
      rw [h.records]
      cases s.records[i]? with
      | none=>rfl
      | some r=>exact rank_withPriority_finalRecord priorities _ i r
    · rw [available_reprioritized,available_reprioritized,h.available_eq]
  rw [hchosen] at h'
  rw [hu]
  have hrecords : u.records=t.records:=by
    refine ext_getElem? fun i=>?_
    rw [h'.records,h.records,Option.map_map]
    exact congrArg (fun g=>Option.map g s.records[i]?)
      (funext fun r=>finalRecord_finalRecord priorities _ i r)
  have hbytes : u.selectedBytes=t.selectedBytes:=by
    rw [h'.bytes,h.bytes]
    exact congrArg List.sum (map_congr_left fun i _=>h.weightAt_eq i)
  have hpromoted : promotions (selection sorter (Spool.reprioritized priorities s.records))
      t.records=0:=by
    refine countP_eq_zero.mpr fun i hi=>?_
    simpa using (h.selected_iff hs.ledger.selected_payload
      (fun i hi=>mem_available_of_mem_selection_reprioritized hi) i).mpr hi
  have hcount : u.reselectedCount=0:=by
    rw [h'.promoted,hpromoted,Nat.zero_mod]
  have hu' : u = {t with reselectedCount:=0}:=by
    obtain ⟨files,records,error,selectedBytes,peakBytes,knownFullBytes,residentBytes,
      cacheEvictedCount,reselectedCount,prioritiesFinalized⟩:=u
    simp only [Spool.mk.injEq]
    exact ⟨h'.files,hrecords,h'.error,hbytes,h'.peak,h'.known,h'.resident,h'.evicted,
      hcount,h'.finalized.trans h.finalized.symm⟩
  rw [hu']

/-- On every reachable spool: a missing priority leaves it alone; otherwise the selection
succeeds, is canonical, selects the same reports as any other reachable spool with the same
surviving reports, and repeated it only resets the count of promoted reports. -/
theorem run_finalizeSelection (sorter : StdSort) (calls : List Call)
    (priorities : String→Option ℤ) :
    ((∃ r∈(run sorter calls).records, priorities (spoolPathKey r.input)=none) →
      (run sorter calls).finalizeSelection sorter priorities =
        (run sorter calls,some "final directory report priority is missing")) ∧
    ((∀ r∈(run sorter calls).records, (priorities (spoolPathKey r.input)).isSome=true) →
      ∃ s', (run sorter calls).finalizeSelection sorter priorities=(s',none) ∧
        Canonical sorter priorities (run sorter calls) s' ∧
        s'.finalizeSelection sorter priorities = ({s' with reselectedCount:=0},none) ∧
        ∀ (calls' : List Call) (t' : Spool), (identities (·.payload.isSome) (run sorter calls)).Perm
            (identities (·.payload.isSome) (run sorter calls')) →
          (run sorter calls').finalizeSelection sorter priorities=(t',none) →
          (identities (·.selected) s').Perm (identities (·.selected) t')) := by
  have hs:=run_accounted sorter calls
  refine ⟨finalizeSelection_missing sorter hs,fun hall=>?_⟩
  obtain ⟨s',hs',hacc,h⟩:=finalizeSelection_spec sorter hs hall
  refine ⟨s',hs',canonical_of_finalized hs hacc h,
    finalizeSelection_again sorter hs hall hs',fun calls' t' hsurvivors ht'=>?_⟩
  have ht:=run_accounted sorter calls'
  have hall' : ∀r∈(run sorter calls').records,
      (priorities (spoolPathKey r.input)).isSome=true:=by
    by_contra hnot
    have hmissing : ∃r∈(run sorter calls').records,
        priorities (spoolPathKey r.input)=none:=by simpa using hnot
    rw [finalizeSelection_missing sorter ht hmissing] at ht'
    exact absurd (congrArg Prod.snd ht') (by simp)
  obtain ⟨u,hu,-,h'⟩:=finalizeSelection_spec sorter ht hall'
  obtain rfl : u=t':=congrArg Prod.fst (hu.symm.trans ht')
  exact identities_selected_perm sorter hs ht hall hall' hsurvivors h h'

def promotedPriorities (key : String) : Option ℤ := if key = "c" then some 100 else some 20

theorem run_finalizeSelection_threeReports :
    (run insertionStdSort threeReports).finalizeSelection insertionStdSort (fun _=>none) =
      (run insertionStdSort threeReports,some "final directory report priority is missing") ∧
    ∃s', (run insertionStdSort threeReports).finalizeSelection insertionStdSort
        promotedPriorities=(s',none) ∧
      (identities (·.selected) s').Perm (identities (·.selected)
        ((run insertionStdSort threeReports.reverse).finalizeSelection insertionStdSort
          promotedPriorities).1):=by
  refine ⟨(run_finalizeSelection insertionStdSort threeReports fun _=>none).1 (by decide),?_⟩
  obtain ⟨s',hs',-,-,hsame⟩:=
    (run_finalizeSelection insertionStdSort threeReports promotedPriorities).2 (by decide +kernel)
  exact ⟨s',hs',hsame threeReports.reverse _ (by decide +kernel) rfl⟩

/-- Selecting a second time resets the count of promoted reports. -/
theorem finalizeSelection_again_not_same :
    ¬ ∀(sorter:StdSort) (calls:List Call) (priorities:String→Option ℤ) (s':Spool),
      (∀r∈(run sorter calls).records, (priorities (spoolPathKey r.input)).isSome=true) →
      (run sorter calls).finalizeSelection sorter priorities=(s',none) →
      s'.finalizeSelection sorter priorities=(s',none):=by
  intro h
  have hsame:=h insertionStdSort threeReports promotedPriorities _ (by decide +kernel) rfl
  revert hsame
  decide +kernel

end AutoRefirst.DirectoryReportSpool
