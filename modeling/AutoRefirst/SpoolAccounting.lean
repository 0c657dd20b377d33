import AutoRefirst.DirectoryReportSpool
import Mathlib.Tactic.Linarith

/-!
# Accounting of the directory report spool

The counters are compared with the records and with the directory itself. `Ledger`
says what holds at every moment, also between two chunks of a report in progress:
the directory then holds one file more, the one being written. `Accounted` adds the
budgets that hold between two calls.
-/

namespace AutoRefirst.DirectoryReportSpool
open List Option

def bytesOf (p : DirectorySpoolRecord→Bool) (records : List DirectorySpoolRecord) : ℕ :=
  ((records.filter p).map (·.fullBytes)).sum

def DirectorySpoolRecord.file? (r : DirectorySpoolRecord) : Option (ℕ×ℕ) :=
  r.payload.map fun p => (p,r.fullBytes)

def residentFiles (records : List DirectorySpoolRecord) : List (ℕ×ℕ) :=
  records.filterMap (·.file?)

def payloads (records : List DirectorySpoolRecord) : List ℕ := records.filterMap (·.payload)

@[simp] theorem bytesOf_nil (p:DirectorySpoolRecord→Bool) : bytesOf p []=0:=rfl

theorem bytesOf_cons (p:DirectorySpoolRecord→Bool) (r:DirectorySpoolRecord)
    (rs:List DirectorySpoolRecord) :
    bytesOf p (r::rs) = (if p r then r.fullBytes else 0) + bytesOf p rs:=by
  by_cases h : p r <;> simp [bytesOf,h]

@[simp] theorem bytesOf_append (p:DirectorySpoolRecord→Bool) (rs ts:List DirectorySpoolRecord) :
    bytesOf p (rs++ts) = bytesOf p rs + bytesOf p ts:=by
  simp [bytesOf]

variable {rs : List DirectorySpoolRecord}

theorem bytesOf_congr {p q:DirectorySpoolRecord→Bool} (h:∀r∈rs,p r=q r) :
    bytesOf p rs=bytesOf q rs:=by
  rw [bytesOf,bytesOf,filter_congr h]

theorem bytesOf_eq_zero {p:DirectorySpoolRecord→Bool} (h:∀r∈rs,p r=false) :
    bytesOf p rs=0:=by
  rw [bytesOf,filter_eq_nil_iff.mpr (fun r hr=>by simp [h r hr])]
  rfl

@[simp] theorem residentFiles_append (rs ts:List DirectorySpoolRecord) :
    residentFiles (rs++ts) = residentFiles rs++residentFiles ts:=
  filterMap_append

theorem residentFiles_names (rs:List DirectorySpoolRecord) :
    (residentFiles rs).map (·.1)=payloads rs:=by
  induction rs with
  | nil=>rfl
  | cons r rs ih=>
    cases hp : r.payload <;>
      simp_all [residentFiles,payloads,DirectorySpoolRecord.file?]

variable {eligible : DirectorySpoolRecord→Bool} {r : DirectorySpoolRecord}

theorem worstFrom_some {i:ℕ} {w:Option (ℕ×DirectorySpoolRecord)} {k:ℕ}
    (h:worstFrom eligible i w rs=some (k,r)) :
    w=some (k,r) ∨
      ∃front back,rs=front++r::back ∧ k=i+front.length ∧ eligible r=true:=by
  induction rs generalizing i w with
  | nil=>exact .inl h
  | cons x rs ih=>
    rw [worstFrom] at h
    rcases ih h with hw | ⟨front,back,rfl,hk,hr⟩
    · split at hw
      · rename_i htake
        cases hw
        rw [Bool.and_eq_true] at htake
        exact .inr ⟨[],rs,rfl,by simp,htake.1⟩
      · exact .inl hw
    · exact .inr ⟨x::front,back,rfl,by simp;omega,hr⟩

theorem worst_some {k:ℕ} (h:worst eligible rs=some (k,r)) :
    ∃front back,rs=front++r::back ∧ k=front.length ∧ eligible r=true:=by
  rcases worstFrom_some h with hw | ⟨front,back,hrs,hk,hr⟩
  · cases hw
  · exact ⟨front,back,hrs,by omega,hr⟩

theorem worstFrom_none {i:ℕ} {w:Option (ℕ×DirectorySpoolRecord)}
    (h:worstFrom eligible i w rs=none) : w=none ∧ ∀r∈rs,eligible r=false:=by
  induction rs generalizing i w with
  | nil=>exact ⟨h,by simp⟩
  | cons x rs ih=>
    rw [worstFrom] at h
    obtain ⟨hw,hrest⟩:=ih h
    split at hw
    · cases hw
    · rename_i htake
      subst hw
      have hx : eligible x=false:=by simpa using htake
      exact ⟨rfl,fun r hr=>(mem_cons.mp hr).elim (fun he=>he▸hx) (hrest r)⟩

theorem worst_none (h:worst eligible rs=none) : ∀r∈rs,eligible r=false:=(worstFrom_none h).2

/-- What holds at every moment. `extra` are the files of the directory that belong to no
record: the report being written, if any. -/
structure Ledger (extra : List (ℕ×ℕ)) (s : Spool) : Prop where
  error : s.error = ""
  files : s.files.Perm (extra ++ residentFiles s.records)
  payload_nodup : (extra.map (·.1) ++ payloads s.records).Nodup
  payload_lt : ∀ p ∈ payloads s.records, p<s.records.length
  resident : s.residentBytes=bytesOf (·.payload.isSome) s.records
  selected : s.selectedBytes=bytesOf (·.selected) s.records
  selected_payload : ∀ r∈s.records, r.selected=true → r.payload.isSome=true
  selected_reason : ∀ r∈s.records, r.selected=true → r.deferredReason = ""
  payload_le : ∀ r∈s.records, r.payload.isSome=true →
    r.fullBytes ≤ kDirectoryPerReportBytes

variable {extra : List (ℕ×ℕ)} {s : Spool}

theorem Ledger.payloads_nodup (h:Ledger extra s) :
    (payloads s.records).Nodup:=(nodup_append.mp h.payload_nodup).2.1

variable {front back : List DirectorySpoolRecord} {p : ℕ}

/-- Dropping a named file leaves the files of the other records alone. -/
private theorem filter_drop_payload (hp:r.payload=some p)
    (hnd:(extra.map (·.1)++payloads (front++r::back)).Nodup) :
    (extra++residentFiles (front++r::back)).filter (·.1 != p) =
      extra++(residentFiles front++residentFiles back):=by
  have hkeep : ∀l : List (ℕ×ℕ),p ∉ l.map (·.1) → l.filter (·.1 != p)=l:=by
    intro l hl
    refine filter_eq_self.mpr fun f hf=>?_
    have hne : f.1≠p:=fun he=>hl (he▸List.mem_map_of_mem hf)
    simpa using hne
  have hnames : (extra.map (·.1)++(payloads front++p::payloads back)).Nodup:=by
    simpa [payloads,hp] using hnd
  have hout : p ∉ extra.map (·.1)++(payloads front++payloads back):=by
    have hmid : (extra.map (·.1)++payloads front++p::payloads back).Nodup:=by
      simpa using hnames
    have hmoved : (extra.map (·.1)++payloads front++p::payloads back).Perm
        (p::(extra.map (·.1)++payloads front++payloads back)):=perm_middle
    have hperm:=hmoved.nodup_iff.mp hmid
    simpa using (nodup_cons.mp hperm).1
  simp only [mem_append,not_or,← residentFiles_names] at hout
  have hr : residentFiles (r::back)=(p,r.fullBytes)::residentFiles back:=by
    simp [residentFiles,DirectorySpoolRecord.file?,hp]
  simp only [residentFiles_append,hr,filter_append,hkeep _ hout.1,hkeep _ hout.2.1,
    filter_cons,bne_self_eq_false,Bool.false_eq_true,if_false,hkeep _ hout.2.2]

def evictable (r : DirectorySpoolRecord) : Bool := !r.selected && r.payload.isSome

theorem Ledger.removePayload (h:Ledger extra s) (hs:s.records=front++r::back)
    (hp:r.payload=some p) :
    s.removePayload p = ({s with files:=s.files.filter (·.1 != p)},none):=by
  have hmem : (p,r.fullBytes)∈s.files:=by
    rw [h.files.mem_iff,hs]
    simp [residentFiles,DirectorySpoolRecord.file?,hp]
  have hany : s.files.any (·.1 == p)=true:=List.any_eq_true.mpr ⟨_,hmem,by simp⟩
  rw [Spool.removePayload,if_pos hany]

theorem Ledger.evictRecord (h:Ledger extra s) (hlt:s.residentBytes<2^64)
    (hs:s.records=front++r::back) (hp:r.payload=some p) (hsel:r.selected=false) :
    let s':=Spool.evictRecord {s with files:=s.files.filter (·.1 != p)} front.length r
    Ledger extra s' ∧ s'.residentBytes+r.fullBytes=s.residentBytes:=by
  intro s'
  have hrecords : s'.records = front ++ { r with
      payload:=none,deferredReason := "DIRECTORY_SPOOL_CACHE_BUDGET" }::back:=by
    simp [s',Spool.evictRecord,Spool.setRecord,hs]
  have hres : s.residentBytes =
      bytesOf (·.payload.isSome) front+r.fullBytes+bytesOf (·.payload.isSome) back:=by
    rw [h.resident,hs]
    simp [bytesOf_cons,hp]
    omega
  have hle : r.fullBytes ≤ s.residentBytes:=by omega
  have hres' : s'.residentBytes=s.residentBytes-r.fullBytes:=Word64.sub_eq hle hlt
  have hother : ∀x∈front++back,x∈s.records:=by
    intro x hx
    rw [hs]
    rcases mem_append.mp hx with hx | hx <;> simp [hx]
  -- every field of the new record that the ledger reads is vacuous: it is unselected and
  -- has no payload
  have hcase : ∀ {P:DirectorySpoolRecord→Prop},(∀x∈s.records,P x) →
      P {r with payload:=none,deferredReason := "DIRECTORY_SPOOL_CACHE_BUDGET"} →
      ∀x∈s'.records,P x:=by
    intro P hall hnew x hx
    rw [hrecords,mem_append,mem_cons] at hx
    rcases hx with hx | rfl | hx
    · exact hall x (hother x (mem_append_left _ hx))
    · exact hnew
    · exact hall x (hother x (mem_append_right _ hx))
  refine ⟨⟨h.error,?_,?_,?_,?_,?_,?_,?_,?_⟩,by omega⟩
  · have hfiles:=h.files.filter (·.1 != p)
    rw [hs,filter_drop_payload hp (hs▸h.payload_nodup)] at hfiles
    rw [hrecords]
    simpa [residentFiles,DirectorySpoolRecord.file?,s',Spool.evictRecord,Spool.setRecord]
      using hfiles
  · have hnd:=h.payload_nodup
    rw [hs] at hnd
    rw [hrecords]
    refine hnd.sublist ?_
    simp [payloads,hp]
  · intro q hq
    have hlen : s'.records.length=s.records.length:=by rw [hrecords,hs];simp
    rw [hlen]
    apply h.payload_lt
    rw [hrecords] at hq
    rw [hs]
    simp only [payloads,filterMap_append,mem_append,filterMap_cons,hp, mem_cons] at hq ⊢
    rcases hq with hq | hq
    · exact .inl hq
    · exact .inr (.inr hq)
  · rw [hres',hrecords]
    simp only [bytesOf_append,bytesOf_cons,isSome_none,Bool.false_eq_true,if_false]
    omega
  · have hselected : s'.selectedBytes=s.selectedBytes:=rfl
    rw [hselected,h.selected,hrecords,hs]
    simp [bytesOf_cons,hsel]
  · exact hcase h.selected_payload (by simp [hsel])
  · exact hcase h.selected_reason (by simp [hsel])
  · exact hcase h.payload_le (by simp)

structure Reserved (extra : List (ℕ×ℕ)) (staging : ℕ) (s s' : Spool) : Prop where
  ledger : Ledger extra s'
  room : s'.residentBytes+staging≤kDirectoryReportSpoolHardBytes
  peak : s'.peakBytes = max s.peakBytes (s'.residentBytes+staging)
  selected : s'.selectedBytes=s.selectedBytes
  length : s'.records.length=s.records.length
  known : s'.knownFullBytes=s.knownFullBytes
  finalized : s'.prioritiesFinalized=s.prioritiesFinalized

theorem Ledger.resident_eq_selected (h:Ledger extra s)
    (hnone:∀r∈s.records,evictable r=false) : s.residentBytes=s.selectedBytes:=by
  rw [h.resident,h.selected]
  refine bytesOf_congr fun r hr=>?_
  have hr':=hnone r hr
  cases hsel : r.selected with
  | true=>exact h.selected_payload r hr hsel
  | false=>simpa [evictable,hsel] using hr'

/-- The eviction loop always ends through its guard: by the time every evictable payload
is gone, what remains is inside the inline budget and leaves the staging room free. -/
theorem evictLoop_spec {staging:ℕ} (hstaging:staging≤kDirectoryPerReportBytes) (fuel:ℕ)
    (s:Spool) (h:Ledger extra s) (hinline:s.selectedBytes≤kDirectoryInlineReportBytes)
    (hhard:s.residentBytes≤kDirectoryReportSpoolHardBytes)
    (hfuel:s.records.countP evictable<fuel) :
    ∃s',s.evictLoop staging fuel=(s',none) ∧ Reserved extra staging s s':=by
  have hsub : Word64.sub kDirectoryReportSpoolHardBytes staging =
      kDirectoryReportSpoolHardBytes - staging:=by
    refine Word64.sub_eq ?_ (by decide)
    exact hstaging.trans (by decide)
  have hbudget : kDirectoryReportSpoolHardBytes =
      kDirectoryInlineReportBytes + kDirectoryPerReportBytes:=rfl
  induction fuel generalizing s with
  | zero=>omega
  | succ fuel ih=>
    have hadd : Word64.add s.residentBytes staging = s.residentBytes+staging:=by
      refine Word64.add_eq (lt_of_le_of_lt (Nat.add_le_add hhard hstaging) (by decide))
    by_cases hguard : s.residentBytes > Word64.sub kDirectoryReportSpoolHardBytes staging
    · cases hw : worst (fun r=>!r.selected && r.payload.isSome) s.records with
      | none=>
        have:=h.resident_eq_selected (worst_none hw)
        omega
      | some w=>
        obtain ⟨i,r⟩:=w
        obtain ⟨front,back,hs,rfl,hr⟩:=worst_some hw
        rw [Bool.and_eq_true,Bool.not_eq_true',isSome_iff_exists] at hr
        obtain ⟨hsel,p,hp⟩:=hr
        have hlt : s.residentBytes<2^64:=lt_of_le_of_lt hhard (by decide)
        obtain ⟨hledger,hbytes⟩:=h.evictRecord hlt hs hp hsel
        have hcount : ((front ++ { r with
            payload:=none,deferredReason := "DIRECTORY_SPOOL_CACHE_BUDGET" }::back).countP
              evictable) < fuel:=by
          rw [hs] at hfuel
          simp only [countP_append,countP_cons,evictable,hsel,hp,Bool.not_false,
            isSome_some,isSome_none,Bool.and_self,Bool.and_false,if_true,
            Bool.false_eq_true,if_false] at hfuel ⊢
          omega
        obtain ⟨s',hs',hres⟩:=ih _ hledger hinline (by omega)
          (by simpa [Spool.evictRecord,Spool.setRecord,hs] using hcount)
        refine ⟨s',?_,?_⟩
        · rw [Spool.evictLoop,if_pos hguard,hw]
          simp only [hp,getD_some,h.removePayload hs hp]
          exact hs'
        · refine ⟨hres.ledger,hres.room,hres.peak,hres.selected,?_,hres.known,
            hres.finalized⟩
          rw [hres.length]
          simp [Spool.evictRecord,Spool.setRecord]
    · refine ⟨{s with peakBytes:=max s.peakBytes (Word64.add s.residentBytes staging)},?_,
        ⟨⟨h.error,h.files,h.payload_nodup,h.payload_lt,h.resident,h.selected,
        h.selected_payload,h.selected_reason,h.payload_le⟩,?_,?_,rfl,rfl,rfl,rfl⟩⟩
      · rw [Spool.evictLoop,if_neg hguard]
      · change s.residentBytes + staging ≤ _
        omega
      · change max s.peakBytes (Word64.add s.residentBytes staging) =
          max s.peakBytes (s.residentBytes+staging)
        rw [hadd]

variable {written : ℕ}

theorem reserveStaging_spec {next:ℕ} (h:Ledger extra s)
    (hinline:s.selectedBytes≤kDirectoryInlineReportBytes)
    (hhard:s.residentBytes≤kDirectoryReportSpoolHardBytes)
    (hcap:written+next≤kDirectoryPerReportBytes) :
    ∃s',s.reserveStaging written next=(s',none) ∧
      Reserved extra (written+next) s s':=by
  have hsum : spoolSatAdd written next = written+next:=Word64.satAdd_eq (hcap.trans (by decide))
  have hfuel : s.records.countP evictable < s.records.length+1:=Nat.lt_succ_of_le countP_le_length
  obtain ⟨s',hs',hres⟩:=evictLoop_spec hcap _ s h hinline hhard hfuel
  refine ⟨s',?_,hres⟩
  rw [Spool.reserveStaging,hsum,if_neg (Nat.not_lt.mpr hcap),hs']

theorem Ledger.deferRecord (h:Ledger extra s) (hlt:s.selectedBytes<2^64) (reason:String)
    (hs:s.records=front++r::back) (hsel:r.selected=true) :
    Ledger extra (s.deferRecord front.length r reason) ∧
      (s.deferRecord front.length r reason).records =
        front ++ {r with selected:=false,deferredReason:=reason}::back:=by
  have hrecords : (s.deferRecord front.length r reason).records =
      front ++ {r with selected:=false,deferredReason:=reason}::back:=by
    simp [Spool.deferRecord,Spool.setRecord,hs]
  have hbytes : s.selectedBytes =
      bytesOf (·.selected) front+r.fullBytes+bytesOf (·.selected) back:=by
    rw [h.selected,hs]
    simp [bytesOf_cons,hsel]
    omega
  have hle : r.fullBytes ≤ s.selectedBytes:=by omega
  have hsub : (s.deferRecord front.length r reason).selectedBytes =
      s.selectedBytes - r.fullBytes:=Word64.sub_eq hle hlt
  have hother : ∀x∈front++back,x∈s.records:=by
    intro x hx
    rw [hs]
    rcases mem_append.mp hx with hx | hx <;> simp [hx]
  have hr : r∈s.records:=by simp [hs]
  have hcase : ∀ {P:DirectorySpoolRecord→Prop},(∀x∈s.records,P x) →
      P {r with selected:=false,deferredReason:=reason} →
      ∀x∈(s.deferRecord front.length r reason).records,P x:=by
    intro P hall hnew x hx
    rw [hrecords,mem_append,mem_cons] at hx
    rcases hx with hx | rfl | hx
    · exact hall x (hother x (mem_append_left _ hx))
    · exact hnew
    · exact hall x (hother x (mem_append_right _ hx))
  have hfiles : residentFiles (s.deferRecord front.length r reason).records =
      residentFiles s.records:=by
    rw [hrecords,hs]
    simp [residentFiles,DirectorySpoolRecord.file?,filterMap_cons]
  have hpayloads : payloads (s.deferRecord front.length r reason).records =
      payloads s.records:=by
    rw [← residentFiles_names,hfiles,residentFiles_names]
  refine ⟨⟨h.error,?_,?_,?_,?_,?_,?_,?_,?_⟩,hrecords⟩
  · rw [hfiles]
    exact h.files
  · rw [hpayloads]
    exact h.payload_nodup
  · rw [hpayloads,hrecords]
    intro p hp
    have hlt:=h.payload_lt p hp
    rw [hs] at hlt
    simpa using hlt
  · have hres : (s.deferRecord front.length r reason).residentBytes=s.residentBytes:=rfl
    rw [hres,h.resident,hrecords,hs]
    simp [bytesOf_cons]
  · rw [hsub,hrecords]
    simp only [bytesOf_append,bytesOf_cons,Bool.false_eq_true,if_false]
    omega
  · exact hcase h.selected_payload (by simp)
  · exact hcase h.selected_reason (by simp)
  · exact hcase h.payload_le (h.payload_le r hr)

/-- What `enforce_inline_budget` leaves. -/
structure Enforced (extra : List (ℕ×ℕ)) (s s' : Spool) : Prop where
  ledger : Ledger extra s'
  inline : s'.selectedBytes≤kDirectoryInlineReportBytes
  resident : s'.residentBytes=s.residentBytes
  peak : s'.peakBytes=s.peakBytes
  length : s'.records.length=s.records.length
  finalized : s'.prioritiesFinalized=s.prioritiesFinalized

theorem enforceLoop_spec (fuel:ℕ) (s:Spool) (h:Ledger extra s)
    (hlt:s.selectedBytes<2^64) (hfuel:s.records.countP (·.selected)<fuel) :
    ∃s',s.enforceLoop fuel=(s',none) ∧ Enforced extra s s':=by
  induction fuel generalizing s with
  | zero=>omega
  | succ fuel ih=>
    by_cases hguard : s.selectedBytes > kDirectoryInlineReportBytes
    · cases hw : worst (·.selected) s.records with
      | none=>
        have hzero : s.selectedBytes=0:=h.selected.trans (bytesOf_eq_zero (worst_none hw))
        omega
      | some w=>
        obtain ⟨i,r⟩:=w
        obtain ⟨front,back,hs,rfl,hsel⟩:=worst_some hw
        obtain ⟨hledger,hrecords⟩:=h.deferRecord hlt "DIRECTORY_INLINE_REPORT_BUDGET" hs hsel
        have hsmall : (s.deferRecord front.length r
            "DIRECTORY_INLINE_REPORT_BUDGET").selectedBytes<2^64:=by
          exact Nat.mod_lt _ (by decide)
        have hcount : (s.deferRecord front.length r
            "DIRECTORY_INLINE_REPORT_BUDGET").records.countP (·.selected) < fuel:=by
          rw [hs] at hfuel
          rw [hrecords]
          simp only [countP_append,countP_cons,hsel,if_true,Bool.false_eq_true, if_false] at hfuel ⊢
          omega
        obtain ⟨s',hs',he⟩:=ih _ hledger hsmall hcount
        refine ⟨s',?_,he.ledger,he.inline,he.resident,he.peak,?_,he.finalized⟩
        · rw [Spool.enforceLoop,if_pos hguard,hw]
          exact hs'
        · rw [he.length,hrecords,hs]
          simp
    · refine ⟨s,?_,h,by omega,rfl,rfl,rfl,rfl⟩
      rw [Spool.enforceLoop,if_neg hguard]

theorem enforceInlineBudget_spec (h:Ledger extra s) (hlt:s.selectedBytes<2^64) :
    ∃s',s.enforceInlineBudget=(s',none) ∧ Enforced extra s s':=
  enforceLoop_spec _ s h hlt (Nat.lt_succ_of_le countP_le_length)

/-- What holds between two calls. -/
structure Accounted (s : Spool) : Prop where
  ledger : Ledger [] s
  inline : s.selectedBytes≤kDirectoryInlineReportBytes
  hard : s.residentBytes≤kDirectoryReportSpoolHardBytes
  peak : s.peakBytes≤kDirectoryReportSpoolHardBytes

/-- What holds between two chunks of a report in progress: the directory holds one file
more, of the bytes written so far. -/
structure Writing (n : ℕ) (s : Spool) (buf : CappedSpoolStreambuf) : Prop where
  ledger : Ledger [(n,buf.written)] s
  length : s.records.length=n
  inline : s.selectedBytes≤kDirectoryInlineReportBytes
  room : s.residentBytes+buf.written≤kDirectoryReportSpoolHardBytes
  peak : s.peakBytes≤kDirectoryReportSpoolHardBytes
  finalized : s.prioritiesFinalized=false
  cap : buf.cap=kDirectoryPerReportBytes
  failed : buf.failed=false
  total_le : buf.total≤Word64.maxValue
  written : buf.written = min buf.total kDirectoryPerReportBytes

variable {n : ℕ}

theorem Ledger.growPayload (h:Ledger [(n,written)] s) (take:ℕ) :
    Ledger [(n,written+take)] (s.growPayload n take):=by
  have hout : n ∉ payloads s.records:=by
    have hnd:=h.payload_nodup
    simp only [map_cons,map_nil,singleton_append,nodup_cons] at hnd
    exact hnd.1
  refine ⟨h.error,?_,h.payload_nodup,h.payload_lt,h.resident,h.selected,
    h.selected_payload,h.selected_reason,h.payload_le⟩
  have hmap:=h.files.map fun f : ℕ×ℕ=>if f.1 == n then (f.1,f.2+take) else f
  have hself : (residentFiles s.records).map
      (fun f:ℕ×ℕ=>if f.1 == n then (f.1,f.2+take) else f) =
        residentFiles s.records:=by
    rw [map_congr_left (g:=id),List.map_id]
    intro f hf
    have hne : f.1≠n:=by
      intro he
      apply hout
      rw [← residentFiles_names,← he]
      exact List.mem_map_of_mem hf
    simp [hne]
  rw [map_append,hself] at hmap
  simpa [Spool.growPayload] using hmap

theorem Accounted.createPayload (h:Accounted s) (hopen:s.prioritiesFinalized=false) :
    Writing s.records.length (s.createPayload s.records.length)
      {cap:=kDirectoryPerReportBytes}:=by
  have hl:=h.ledger
  have hout : s.records.length ∉ payloads s.records:=fun hm=>
    lt_irrefl _ (hl.payload_lt _ hm)
  have hfiles : (s.createPayload s.records.length).files.Perm
      ([(s.records.length,0)]++residentFiles s.records):=by
    have hkeep : s.files.filter (·.1 != s.records.length)=s.files:=by
      refine filter_eq_self.mpr fun f hf=>?_
      have hmem : f∈residentFiles s.records:=by simpa using hl.files.mem_iff.mp hf
      have hne : f.1≠s.records.length:=by
        intro he
        apply hout
        rw [← residentFiles_names,← he]
        exact List.mem_map_of_mem hmem
      simpa using hne
    have hperm : (s.files++[(s.records.length,0)]).Perm
        ([(s.records.length,0)]++residentFiles s.records):=
      (perm_append_comm).trans (by simpa using hl.files)
    simpa [Spool.createPayload,hkeep] using hperm
  refine ⟨⟨hl.error,hfiles,?_,hl.payload_lt,hl.resident,hl.selected,hl.selected_payload,
    hl.selected_reason,hl.payload_le⟩,rfl,h.inline,h.hard,h.peak,hopen,rfl,rfl,by decide,
    by decide⟩
  have hnd:=hl.payload_nodup
  simpa [Spool.createPayload,hout] using hnd

variable {buf : CappedSpoolStreambuf}

/-- One write keeps the budgets, and its reservation, if it makes one, succeeds. -/
theorem xsputn_spec (h:Writing n s buf) (chunk:ℤ) :
    Writing n (s.xsputn n buf chunk).1 (s.xsputn n buf chunk).2:=by
  have hcap : kDirectoryPerReportBytes≤Word64.maxValue:=by decide
  by_cases hpos : chunk≤0
  · simpa [Spool.xsputn,hpos] using h
  have htotal : spoolSatAdd buf.total chunk.toNat =
      min (buf.total+chunk.toNat) Word64.maxValue:=
    Word64.satAdd_eq_min _ h.total_le
  by_cases hroom : buf.written<buf.cap
  · have hlt : buf.written<kDirectoryPerReportBytes:=h.cap▸hroom
    have heq : buf.written=buf.total:=by
      have:=h.written
      omega
    have hchunk : 0<chunk.toNat:=by omega
    have htake : 0 < min (buf.cap-buf.written) chunk.toNat:=lt_min (Nat.sub_pos_of_lt hroom) hchunk
    have hle : buf.written+min (buf.cap-buf.written) chunk.toNat ≤
        kDirectoryPerReportBytes:=by
      rw [h.cap]
      omega
    obtain ⟨s',hs',hres⟩:=reserveStaging_spec h.ledger h.inline
      ((Nat.le_add_right _ _).trans h.room) hle
    have hwritten : spoolSatAdd buf.written (min (buf.cap-buf.written) chunk.toNat) =
        buf.written + min (buf.cap-buf.written) chunk.toNat:=
      Word64.satAdd_eq (hle.trans hcap)
    have hx : s.xsputn n buf chunk = (s'.growPayload n (min (buf.cap-buf.written) chunk.toNat),
          { buf with
            total:=spoolSatAdd buf.total chunk.toNat
            written:=spoolSatAdd buf.written (min (buf.cap-buf.written) chunk.toNat) }):=by
      simp only [Spool.xsputn,hpos,if_false,hroom,if_true,htake,hs']
    rw [hx]
    refine ⟨?_,?_,?_,?_,?_,?_,h.cap,h.failed,?_,?_⟩
    · rw [hwritten]
      exact hres.ledger.growPayload _
    · exact hres.length.trans h.length
    · exact hres.selected.le.trans h.inline
    · rw [hwritten]
      exact hres.room
    · change s'.peakBytes ≤ _
      rw [hres.peak]
      exact max_le h.peak hres.room
    · exact hres.finalized.trans h.finalized
    · rw [htotal]
      exact min_le_right _ _
    · change spoolSatAdd buf.written _ = min (spoolSatAdd buf.total chunk.toNat) _
      rw [hwritten,htotal,h.cap]
      omega
  · have hx : s.xsputn n buf chunk =
        (s,{buf with total:=spoolSatAdd buf.total chunk.toNat}):=by
      simp only [Spool.xsputn,hpos,if_false,hroom]
    rw [hx]
    refine ⟨h.ledger,h.length,h.inline,h.room,h.peak,h.finalized,h.cap,h.failed,?_,?_⟩
    · rw [htotal]
      exact min_le_right _ _
    · have hfull:=h.written
      rw [h.cap] at hroom
      change buf.written=min (spoolSatAdd buf.total chunk.toNat) _
      rw [htotal]
      omega

theorem writeReport_spec (chunks:List ℤ) (h:Writing n s buf) :
    Writing n (Spool.writeReport n s buf chunks).1 (Spool.writeReport n s buf chunks).2:=by
  induction chunks generalizing s buf with
  | nil=>exact h
  | cons chunk chunks ih=>
    rw [Spool.writeReport,h.failed]
    exact ih (xsputn_spec h chunk)

/-- Every point inside an `add` keeps the budgets. -/
theorem Accounted.staged (h:Accounted s) (hopen:s.prioritiesFinalized=false)
    (chunks:List ℤ) : Writing s.records.length (s.staged chunks).1 (s.staged chunks).2:=
  writeReport_spec chunks (h.createPayload hopen)

/-- A record appended after an oversize report: its payload is already removed. -/
theorem Ledger.appendDeferred (h:Ledger [(n,written)] s) (hp:r.payload=none)
    (hsel:r.selected=false) :
    Ledger [] { s with
      files:=s.files.filter (·.1 != n),records:=s.records++[r] }:=by
  have hout : n ∉ payloads s.records:=by
    have hnd:=h.payload_nodup
    simp only [map_cons,map_nil,singleton_append,nodup_cons] at hnd
    exact hnd.1
  have hkeep : (residentFiles s.records).filter (·.1 != n)=residentFiles s.records:=by
    refine filter_eq_self.mpr fun f hf=>?_
    have hne : f.1≠n:=by
      intro he
      apply hout
      rw [← residentFiles_names,← he]
      exact List.mem_map_of_mem hf
    simpa using hne
  have hnew : residentFiles (s.records++[r])=residentFiles s.records:=by
    simp [residentFiles,DirectorySpoolRecord.file?,hp]
  have hnames : payloads (s.records++[r])=payloads s.records:=by
    rw [← residentFiles_names,hnew,residentFiles_names]
  have hcase : ∀ {P:DirectorySpoolRecord→Prop},(∀x∈s.records,P x) → P r →
      ∀x∈s.records++[r],P x:=by
    intro P hall hr x hx
    rcases mem_append.mp hx with hx | hx
    · exact hall x hx
    · exact mem_singleton.mp hx▸hr
  refine ⟨h.error,?_,?_,?_,?_,?_,hcase h.selected_payload (by simp [hsel]),
    hcase h.selected_reason (by simp [hsel]),hcase h.payload_le (by simp [hp])⟩
  · have hfiles:=h.files.filter (·.1 != n)
    simpa [hkeep,hnew] using hfiles
  · simpa [hnames] using h.payloads_nodup
  · intro p hmem
    rw [hnames] at hmem
    have:=h.payload_lt p hmem
    simp
    omega
  · simp [h.resident,bytesOf_cons,hp]
  · simp [h.selected,bytesOf_cons,hsel]

theorem Ledger.appendSelected (h:Ledger [(s.records.length,written)] s)
    (hp:r.payload=some s.records.length) (hsel:r.selected=true)
    (hreason:r.deferredReason = "") (hbytes:r.fullBytes=written)
    (hle:written≤kDirectoryPerReportBytes) :
    Ledger [] { s with
      residentBytes:=s.residentBytes+written,selectedBytes:=s.selectedBytes+written
      records:=s.records++[r] }:=by
  have hnew : residentFiles (s.records++[r]) =
      residentFiles s.records++[(s.records.length,written)]:=by
    simp [residentFiles,DirectorySpoolRecord.file?,hp,hbytes]
  have hnames : payloads (s.records++[r]) = payloads s.records++[s.records.length]:=by
    simp [payloads,hp]
  have hcase : ∀ {P:DirectorySpoolRecord→Prop},(∀x∈s.records,P x) → P r →
      ∀x∈s.records++[r],P x:=by
    intro P hall hr x hx
    rcases mem_append.mp hx with hx | hx
    · exact hall x hx
    · exact mem_singleton.mp hx▸hr
  refine ⟨h.error,?_,?_,?_,?_,?_,hcase h.selected_payload (by simp [hp]),
    hcase h.selected_reason (by simp [hreason]),
    hcase h.payload_le (fun _=>hbytes.trans_le hle)⟩
  · have hperm : s.files.Perm ((s.records.length,written)::residentFiles s.records):=h.files
    simpa [hnew] using hperm.trans (perm_append_singleton _ _).symm
  · have hnd : (s.records.length::payloads s.records).Nodup:=by
      simpa using h.payload_nodup
    simpa [hnames] using (perm_append_singleton _ _).nodup_iff.mpr hnd
  · intro p hmem
    rw [hnames,mem_append,mem_singleton] at hmem
    simp only [length_append,length_singleton]
    rcases hmem with hmem | rfl
    · have:=h.payload_lt p hmem
      omega
    · omega
  · simp [h.resident,bytesOf_cons,hp,hbytes]
  · simp [h.selected,bytesOf_cons,hsel,hbytes]

theorem commitReport_spec (h:Writing n s buf) (input:NativePath) (detailPriority:ℤ) :
    ∃s',s.commitReport n buf input detailPriority=(s',none) ∧ Accounted s' ∧
      s'.records.length = n+1 ∧ s'.prioritiesFinalized=false:=by
  have hbudget : kDirectoryReportSpoolHardBytes =
      kDirectoryInlineReportBytes + kDirectoryPerReportBytes:=rfl
  have hword : kDirectoryReportSpoolHardBytes+kDirectoryReportSpoolHardBytes <
      Word64.maxValue:=by decide
  have hmax : Word64.maxValue<2^64:=by decide
  have hroom:=h.room
  have hstaged : spoolSatAdd s.residentBytes buf.written = s.residentBytes+buf.written:=
    Word64.satAdd_eq (by omega)
  have hpeak : max s.peakBytes (s.residentBytes+buf.written) ≤
      kDirectoryReportSpoolHardBytes:=max_le h.peak h.room
  obtain rfl:=h.length
  by_cases hover : buf.total > kDirectoryPerReportBytes
  · have hremove : s.files.any (·.1 == s.records.length)=true:=by
      refine List.any_eq_true.mpr ⟨(s.records.length,buf.written),?_,by simp⟩
      rw [h.ledger.files.mem_iff]
      simp
    let r : DirectorySpoolRecord:=
      { input,payload:=none,fullBytes:=buf.total,detailPriority,
        deferredReason := "PER_REPORT_BYTE_BUDGET" }
    refine ⟨{ s with
      files:=s.files.filter (·.1 != s.records.length),records:=s.records++[r]
      peakBytes:=max s.peakBytes (s.residentBytes+buf.written)
      knownFullBytes:=spoolSatAdd s.knownFullBytes buf.total },?_,⟨?_,?_,?_,?_⟩,?_,?_⟩
    · simp only [Spool.commitReport,h.failed,Bool.false_eq_true,if_false,hstaged,
        Nat.not_lt.mpr hpeak,gt_iff_lt,hover,if_true,Spool.removePayload,hremove]
      rfl
    · have hl:=h.ledger.appendDeferred (r:=r) rfl rfl
      exact ⟨hl.error,hl.files,hl.payload_nodup,hl.payload_lt,hl.resident,hl.selected,
        hl.selected_payload,hl.selected_reason,hl.payload_le⟩
    · exact h.inline
    · exact (Nat.le_add_right _ _).trans h.room
    · exact hpeak
    · simp
    · exact h.finalized
  · have hwritten : buf.written=buf.total:=by
      have:=h.written
      omega
    have hresident : Word64.add s.residentBytes buf.total = s.residentBytes+buf.total:=
      Word64.add_eq (by omega)
    have hinline:=h.inline
    have hselected : spoolSatAdd s.selectedBytes buf.total = s.selectedBytes+buf.total:=
      Word64.satAdd_eq (by omega)
    let r : DirectorySpoolRecord:=
      { input,payload:=some s.records.length,fullBytes:=buf.total,detailPriority,
        selected:=true }
    have hl:=(hwritten▸h.ledger).appendSelected (r:=r) rfl rfl rfl rfl (by omega)
    have hl' : Ledger [] { s with
        peakBytes:=max s.peakBytes (s.residentBytes+buf.written)
        knownFullBytes:=spoolSatAdd s.knownFullBytes buf.total
        residentBytes:=s.residentBytes+buf.total,selectedBytes:=s.selectedBytes+buf.total
        records:=s.records++[r] }:=
      ⟨hl.error,hl.files,hl.payload_nodup,hl.payload_lt,hl.resident,hl.selected,
        hl.selected_payload,hl.selected_reason,hl.payload_le⟩
    obtain ⟨s',hs',he⟩:=enforceInlineBudget_spec hl'
      (show s.selectedBytes+buf.total<2^64 by omega)
    refine ⟨s',?_,⟨he.ledger,he.inline,?_,?_⟩,?_,?_⟩
    · simpa only [Spool.commitReport,h.failed,Bool.false_eq_true,if_false,hstaged,
        Nat.not_lt.mpr hpeak,gt_iff_lt,hover,hresident,hselected] using hs'
    · rw [he.resident]
      change s.residentBytes + buf.total ≤ _
      omega
    · rw [he.peak]
      exact hpeak
    · simpa using he.length
    · exact he.finalized.trans h.finalized

theorem Accounted.add (h:Accounted s) (hopen:s.prioritiesFinalized=false) (input:NativePath)
    (detailPriority:ℤ) (chunks:List ℤ) :
    ∃s',s.add input detailPriority chunks=(s',none) ∧ Accounted s' ∧
      s'.records.length = s.records.length+1 ∧ s'.prioritiesFinalized=false:=by
  obtain ⟨s',hs',hacc⟩:=commitReport_spec (h.staged hopen chunks) input detailPriority
  refine ⟨s',?_,hacc⟩
  have hready : s.ready=true:=by simp [Spool.ready,h.ledger.error]
  simpa only [Spool.add,hready,hopen,Bool.not_true,Bool.false_eq_true,if_false] using hs'

private theorem lookup_of_mem {files:List (ℕ×ℕ)} (hnd:(files.map (·.1)).Nodup)
    (h:(p,n)∈files) : files.lookup p=some n:=by
  induction files with
  | nil=>cases h
  | cons f files ih=>
    obtain ⟨q,m⟩:=f
    rw [map_cons,nodup_cons] at hnd
    rcases mem_cons.mp h with heq | hmem
    · cases heq
      simp
    · have hne : (p == q)=false:=by
        rw [beq_eq_false_iff_ne]
        exact fun he=>hnd.1 (List.mem_map.mpr ⟨_,hmem,he⟩)
      rw [lookup_cons,hne]
      exact ih hnd.2 hmem

theorem validateRecords_spec {files:List (ℕ×ℕ)} (records:List DirectorySpoolRecord)
    (c:Spool.Census)
    (hfile:∀r∈records,∀p,r.payload=some p → files.lookup p=some r.fullBytes)
    (hsel:∀r∈records,r.selected=true → r.payload.isSome=true)
    (hdisk:c.onDisk+bytesOf (·.payload.isSome) records≤Word64.maxValue)
    (hinline:c.inlineBytes+bytesOf (·.selected) records≤Word64.maxValue) :
    Spool.validateRecords files c records=.ok
      { onDisk:=c.onDisk+bytesOf (·.payload.isSome) records
        inlineBytes:=c.inlineBytes+bytesOf (·.selected) records
        residentCount:=c.residentCount+(payloads records).length }:=by
  have hmax : Word64.maxValue<2^64:=by decide
  induction records generalizing c with
  | nil=>simp [Spool.validateRecords,payloads]
  | cons r rs ih=>
    have hfile':=fun t ht=>hfile t (mem_cons_of_mem r ht)
    have hsel':=fun t ht=>hsel t (mem_cons_of_mem r ht)
    rw [bytesOf_cons] at hdisk hinline
    cases hp : r.payload with
    | none=>
      have hunselected : r.selected=false:=by
        by_contra hs
        have:=hsel r mem_cons_self (by simpa using hs)
        simp [hp] at this
      simp only [hp,hunselected,isSome_none,Bool.false_eq_true,if_false,
        Nat.zero_add] at hdisk hinline
      rw [Spool.validateRecords]
      simp only [hp,hunselected,Bool.false_eq_true,if_false]
      rw [ih c hfile' hsel' hdisk hinline]
      simp [bytesOf_cons,hp,hunselected,payloads]
    | some p=>
      have hlookup:=hfile r mem_cons_self p hp
      simp only [hp,isSome_some,if_true] at hdisk
      have hsat : spoolSatAdd c.onDisk r.fullBytes = c.onDisk+r.fullBytes:=
        Word64.satAdd_eq (by omega)
      rw [Spool.validateRecords]
      simp only [hp,hlookup,ne_eq,not_true_eq_false,if_false,hsat]
      cases hs : r.selected with
      | true=>
        simp only [hs,if_true] at hinline
        have hadd : Word64.add c.inlineBytes r.fullBytes = c.inlineBytes+r.fullBytes:=
          Word64.add_eq (by omega)
        rw [if_pos rfl,hadd,ih _ hfile' hsel' (by simpa [Nat.add_assoc] using hdisk)
          (by simpa [Nat.add_assoc] using hinline)]
        simp [bytesOf_cons,hp,hs,payloads]
        omega
      | false=>
        simp only [hs,Bool.false_eq_true,if_false,Nat.zero_add] at hinline
        have hrest:=ih
          { onDisk:=c.onDisk+r.fullBytes,inlineBytes:=c.inlineBytes,
            residentCount:=c.residentCount+1 }
          hfile' hsel' (by simpa [Nat.add_assoc] using hdisk) hinline
        simp only [Bool.false_eq_true,if_false]
        rw [hrest]
        simp [bytesOf_cons,hp,hs,payloads]
        omega

theorem Ledger.lookup (h:Ledger [] s) :
    ∀r∈s.records,∀p,r.payload=some p → s.files.lookup p=some r.fullBytes:=by
  intro r hr p hp
  have hfiles : s.files.Perm (residentFiles s.records):=h.files
  apply lookup_of_mem
  · rw [(hfiles.map _).nodup_iff,residentFiles_names]
    exact h.payloads_nodup
  · rw [hfiles.mem_iff]
    exact mem_filterMap.mpr ⟨r,hr,by simp [DirectorySpoolRecord.file?,hp]⟩

theorem Accounted.validate (h:Accounted s) : s.validate=none:=by
  have hl:=h.ledger
  have hready : s.ready=true:=by simp [Spool.ready,hl.error]
  have hhard:=h.hard
  have hinline:=h.inline
  have hpeak:=h.peak
  have hword : kDirectoryReportSpoolHardBytes≤Word64.maxValue:=by decide
  have hword' : kDirectoryInlineReportBytes≤Word64.maxValue:=by decide
  have hdisk:=hl.resident
  have hselected:=hl.selected
  have hcensus:=validateRecords_spec s.records {} hl.lookup hl.selected_payload
    (by simp;omega) (by simp;omega)
  have hcount : s.files.length=(payloads s.records).length:=by
    rw [← residentFiles_names,length_map]
    exact hl.files.length_eq
  rw [Spool.validate,hready,hcensus]
  simp [← hdisk,← hselected,hcount,Nat.not_lt.mpr hhard,Nat.not_lt.mpr hinline,
    Nat.not_lt.mpr hpeak]

end AutoRefirst.DirectoryReportSpool
