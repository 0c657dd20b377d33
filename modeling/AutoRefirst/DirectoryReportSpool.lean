import AutoRefirst.Word64
import AutoRefirst.GreedySelection
import AutoRefirst.NativePath

/-!
# The directory report spool

Each per-file report is written through a capped stream buffer into a temporary
directory, and kept there while the inline and disk budgets allow. The model keeps
the directory next to the counters: a payload file is named by its number, and its
contents are represented by their size. File-system operations succeed; the checks
the code makes on its own state keep their error exits, with their texts.
-/

namespace AutoRefirst.DirectoryReportSpool

open GreedySelection

def spoolSatAdd (a b : ℕ) : ℕ := Word64.satAdd a b

def spoolPathKey (p : NativePath) : String := pathUtf8 p.lexicallyNormal

def kDirectoryInlineReportBytes : ℕ := 16*1024*1024
def kDirectoryPerReportBytes : ℕ := 8*1024*1024
def kDirectoryReportSpoolHardBytes : ℕ := kDirectoryInlineReportBytes+kDirectoryPerReportBytes

/-- `payload` is the number in the file name `<number>.report`; an empty path is `none`. -/
structure DirectorySpoolRecord where
  input : NativePath
  payload : Option ℕ
  fullBytes : ℕ := 0
  detailPriority : ℤ := 0
  selected : Bool := false
  deferredReason : String := ""
  deriving DecidableEq, Repr, Inhabited

structure CappedSpoolStreambuf where
  cap : ℕ
  (total written : ℕ := 0)
  failed : Bool := false
  deriving DecidableEq, Repr

structure Spool where
  files : List (ℕ×ℕ) := []
  records : List DirectorySpoolRecord := []
  error : String := ""
  (selectedBytes peakBytes knownFullBytes residentBytes cacheEvictedCount reselectedCount : ℕ := 0)
  prioritiesFinalized : Bool := false
  deriving DecidableEq, Repr

/-- The result of a fallible member function: the spool it leaves, and the error text
when it returned false. -/
abbrev Outcome := Spool×Option String

def recordBetter (a b : DirectorySpoolRecord) : Bool :=
  if a.detailPriority ≠ b.detailPriority then decide (b.detailPriority < a.detailPriority)
  else if a.fullBytes ≠ b.fullBytes then decide (a.fullBytes < b.fullBytes)
  else decide (spoolPathKey a.input < spoolPathKey b.input)

/-- The position of the worst eligible record: a later record replaces the current
choice when the current choice is better than it. -/
def worstFrom (eligible : DirectorySpoolRecord→Bool) :
    ℕ → Option (ℕ×DirectorySpoolRecord) → List DirectorySpoolRecord →
      Option (ℕ×DirectorySpoolRecord)
  | _, worst, [] => worst
  | i, worst, r::rs =>
    worstFrom eligible (i+1)
      (if eligible r && worst.all (fun w => recordBetter w.2 r) then some (i,r) else worst) rs

def worst (eligible : DirectorySpoolRecord→Bool) (records : List DirectorySpoolRecord) :
    Option (ℕ×DirectorySpoolRecord) := worstFrom eligible 0 none records

namespace Spool

variable (s : Spool)

def ready : Bool := s.error.toList.isEmpty

def setRecord (i : ℕ) (r : DirectorySpoolRecord) : Spool :=
  {s with records:=s.records.set i r}

variable (payload : ℕ)

def removePayload : Outcome :=
  if s.files.any (·.1 == payload) then
    ({s with files:=s.files.filter (·.1 != payload)},none)
  else
    let message := "cannot remove deferred directory report spool: payload is missing"
    ({s with error:=message},some message)

/-- Opening a payload with `trunc`. -/
def createPayload : Spool :=
  {s with files:=s.files.filter (·.1 != payload) ++ [(payload,0)]}

def growPayload (take : ℕ) : Spool :=
  {s with files:=s.files.map fun f => if f.1 == payload then (f.1,f.2+take) else f}

def deferRecord (i : ℕ) (r : DirectorySpoolRecord) (reason : String) : Spool :=
  { s.setRecord i {r with selected:=false,deferredReason:=reason} with
    selectedBytes:=Word64.sub s.selectedBytes r.fullBytes }

/-- The `while` loop of `enforce_inline_budget`; each turn defers one selected record, so
the number of records bounds the turns. -/
def enforceLoop : ℕ → Spool → Outcome
  | 0, s => (s,some "enforce_inline_budget did not finish")
  | fuel+1, s =>
    if s.selectedBytes > kDirectoryInlineReportBytes then
      match worst (·.selected) s.records with
      | none => (s,some "internal directory report selection invariant failed")
      | some (i,r) => enforceLoop fuel (s.deferRecord i r "DIRECTORY_INLINE_REPORT_BUDGET")
    else (s,none)

def enforceInlineBudget : Outcome := enforceLoop (s.records.length+1) s

/-- One turn of the eviction loop: the record loses its payload and its bytes. -/
def evictRecord (i : ℕ) (r : DirectorySpoolRecord) : Spool :=
  { s.setRecord i { r with
      payload:=none,deferredReason := "DIRECTORY_SPOOL_CACHE_BUDGET" } with
    residentBytes:=Word64.sub s.residentBytes r.fullBytes
    cacheEvictedCount:=Word64.add s.cacheEvictedCount 1 }

/-- The `while` loop of `reserve_staging`; each turn evicts one resident payload, so the
number of records bounds the turns. -/
def evictLoop (staging : ℕ) : ℕ → Spool → Outcome
  | 0, s => (s,some "reserve_staging did not finish")
  | fuel+1, s =>
    if s.residentBytes > Word64.sub kDirectoryReportSpoolHardBytes staging then
      match worst (fun r => !r.selected && r.payload.isSome) s.records with
      | none => (s,some "directory report cache cannot free staging space")
      | some (i,r) =>
        match s.removePayload (r.payload.getD 0) with
        | (s,some error) => (s,some error)
        | (s,none) => evictLoop staging fuel (s.evictRecord i r)
    else
      ({s with peakBytes:=max s.peakBytes (Word64.add s.residentBytes staging)},none)

def reserveStaging (written next : ℕ) : Outcome :=
  let staging := spoolSatAdd written next
  if staging > kDirectoryPerReportBytes then
    (s,some "directory report staging invariant failed")
  else evictLoop staging (s.records.length+1) s

/-- `xsputn` of one chunk: only the bytes below the cap are reserved and written, the
total counts all of them. -/
def xsputn (buf : CappedSpoolStreambuf) (n : ℤ) : Spool×CappedSpoolStreambuf :=
  if n ≤ 0 then (s,buf)
  else
    let add := n.toNat
    let buf := {buf with total:=spoolSatAdd buf.total add}
    if buf.written < buf.cap then
      let take := min (buf.cap-buf.written) add
      if 0 < take then
        match s.reserveStaging buf.written take with
        | (s,some _) => (s,{buf with failed:=true})
        | (s,none) =>
          (s.growPayload payload take,{buf with written:=spoolSatAdd buf.written take})
      else (s,buf)
    else (s,buf)

/-- The injected report writer, as the sizes of its successive writes. A failed write
leaves the stream bad, and later writes do nothing. -/
def writeReport (payload : ℕ) : Spool → CappedSpoolStreambuf → List ℤ → Spool×CappedSpoolStreambuf
  | s, buf, [] => (s,buf)
  | s, buf, n::chunks =>
    if buf.failed then (s,buf)
    else
      let step := s.xsputn payload buf n
      writeReport payload step.1 step.2 chunks

/-- What `add` does with a written report once its stream is closed. -/
def commitReport (buf : CappedSpoolStreambuf) (input : NativePath) (detailPriority : ℤ) : Outcome :=
  let fullBytes := buf.total
  let stagedBytes := buf.written
  if buf.failed then (s,some "temporary directory report serialization failed")
  else
    let s := {s with peakBytes:=max s.peakBytes (spoolSatAdd s.residentBytes stagedBytes)}
    if s.peakBytes > kDirectoryReportSpoolHardBytes then
      (s,some "internal directory report spool hard-budget invariant failed")
    else
      let s := {s with knownFullBytes:=spoolSatAdd s.knownFullBytes fullBytes}
      let r : DirectorySpoolRecord := {input,payload:=some payload,fullBytes,detailPriority}
      if fullBytes > kDirectoryPerReportBytes then
        match s.removePayload payload with
        | (s,some error) => (s,some error)
        | (s,none) =>
          let r := {r with payload:=none,deferredReason := "PER_REPORT_BYTE_BUDGET"}
          ({s with records:=s.records++[r]},none)
      else
        let s := { s with
          residentBytes:=Word64.add s.residentBytes fullBytes
          selectedBytes:=spoolSatAdd s.selectedBytes fullBytes
          records:=s.records++[{r with selected:=true}] }
        s.enforceInlineBudget

def staged (chunks : List ℤ) : Spool×CappedSpoolStreambuf :=
  writeReport s.records.length (s.createPayload s.records.length)
    {cap:=kDirectoryPerReportBytes} chunks

def add (input : NativePath) (detailPriority : ℤ) (chunks : List ℤ) : Outcome :=
  if !s.ready then (s,some s.error)
  else if s.prioritiesFinalized then
    (s,some "directory report selection is already finalized")
  else
    let w := s.staged chunks
    w.1.commitReport s.records.length w.2 input detailPriority

/-- The running sums of `validate`. -/
structure Census where
  (onDisk inlineBytes residentCount : ℕ := 0)
  deriving DecidableEq, Repr

def validateRecords (files : List (ℕ×ℕ)) : Census → List DirectorySpoolRecord → Except String Census
  | c, [] => .ok c
  | c, r::rs =>
    match r.payload with
    | none =>
      if r.selected then .error "selected directory report has no payload"
      else validateRecords files c rs
    | some payload =>
      match files.lookup payload with
      | none => .error "temporary directory report spool is unavailable or non-regular"
      | some n =>
        if n ≠ r.fullBytes then
          .error "temporary directory report spool size changed after bounded selection"
        else validateRecords files
          { onDisk:=spoolSatAdd c.onDisk n
            inlineBytes := if r.selected then Word64.add c.inlineBytes n else c.inlineBytes
            residentCount:=c.residentCount+1 } rs

/-- `validate`: `none` when every check passes. -/
def validate : Option String :=
  if !s.ready then some s.error
  else
    match validateRecords s.files {} s.records with
    | .error error => some error
    | .ok c =>
      if s.files.length ≠ c.residentCount then
        some "unaccounted directory report spool payload"
      else if c.onDisk ≠ s.residentBytes || c.inlineBytes ≠ s.selectedBytes
          || c.inlineBytes > kDirectoryInlineReportBytes
          || c.onDisk > kDirectoryReportSpoolHardBytes
          || s.peakBytes > kDirectoryReportSpoolHardBytes then
        some "internal directory report spool accounting invariant failed"
      else none

/-- The body of the selection loop, once it is known whether the record fits. -/
def judge (i : ℕ) (r : DirectorySpoolRecord) (selected : Bool) : Spool :=
  { s.setRecord i { r with
      selected
      deferredReason := if selected then "" else "DIRECTORY_INLINE_REPORT_BUDGET" } with
    reselectedCount :=
      if selected && !r.selected then Word64.add s.reselectedCount 1 else s.reselectedCount
    selectedBytes :=
      if selected then Word64.add s.selectedBytes r.fullBytes else s.selectedBytes }

/-- The selection loop of `finalize_selection` over the sorted positions. -/
def reselect : List ℕ → Spool → Spool
  | [], s => s
  | i::rest, s =>
    match s.records[i]? with
    | none => reselect rest s
    | some r =>
      let room := Word64.sub kDirectoryInlineReportBytes s.selectedBytes
      reselect rest (s.judge i r (decide (r.fullBytes ≤ room)))

def reprioritized (priorities : String→Option ℤ) (records : List DirectorySpoolRecord) :
    List DirectorySpoolRecord :=
  records.map fun r =>
    {r with detailPriority:=(priorities (spoolPathKey r.input)).getD r.detailPriority}

/-- The positions whose payload survives. -/
def available (records : List DirectorySpoolRecord) : List ℕ :=
  (List.range records.length).filter fun i => (records[i]?.bind (·.payload)).isSome

/-- The comparison `finalize_selection` passes to `std::sort`. -/
def positionBetter (records : List DirectorySpoolRecord) (a b : ℕ) : Bool :=
  recordBetter (records.getD a default) (records.getD b default)

def finalizeSelection (sorter : StdSort) (s : Spool) (priorities : String→Option ℤ) : Outcome :=
  if !s.ready then (s,some s.error)
  else if s.records.any (fun r => (priorities (spoolPathKey r.input)).isNone) then
    (s,some "final directory report priority is missing")
  else
    let records := reprioritized priorities s.records
    let order := sorter.sort (positionBetter records) (available records)
    let s := reselect order {s with records,selectedBytes:=0,reselectedCount:=0}
    let s := {s with prioritiesFinalized:=true}
    (s,s.validate)

end Spool

/-- A call of a spool client. -/
inductive Call where
  | add (input : NativePath) (detailPriority : ℤ) (chunks : List ℤ)
  | finalizeSelection (priorities : String→Option ℤ)

namespace Call

def apply (sorter : StdSort) (s : Spool) : Call → Outcome
  | .add input detailPriority chunks => s.add input detailPriority chunks
  | .finalizeSelection priorities => s.finalizeSelection sorter priorities

end Call

def run (sorter : StdSort) (calls : List Call) : Spool :=
  calls.foldl (fun s call => (call.apply sorter s).1) {}

end AutoRefirst.DirectoryReportSpool
