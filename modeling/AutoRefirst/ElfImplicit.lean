import AutoRefirst.ElfScan
import Mathlib.Data.List.Sort

/-!
# Relocations that write loader metadata

The scan of the raw relocation records in the implicit-execution plane of an ELF file, and the facts
it adds for writes to relocation records, the dynamic table, the dynamic symbols and the initializer
arrays. Facts of every other relation, and limits other than those of the scan and of the number of
facts, are a parameter.
-/

namespace AutoRefirst.Elf

structure DynRec where
  (tag value file va : ℕ)
deriving DecidableEq

/-- The dynamic table that is scanned. -/
structure DynTable where
  (off size : ℕ := 0)
  records : List DynRec := []
  terminated : Bool := false
deriving DecidableEq

def maxDynRecords : ℕ := 65536

/-- The records from `p` on, up to `DT_NULL`; the number says how many more may be kept. -/
def dynRecords (d : Bytes) (off va size : ℕ) : ℕ → ℕ → List DynRec×Bool
  | 0, _ => ([],false)
  | n+1, p =>
    if p+16 ≤ size then
      let tag := numberAt d true (off+p) 8
      if tag = 0 then ([],true)
      else
        let rest := dynRecords d off va size n (p+16)
        (⟨tag,numberAt d true (off+p+8) 8,off+p,va+p⟩::rest.1,rest.2)
    else ([],false)

def scanDyn (d : Bytes) (off va size : ℕ) : DynTable :=
  if off > d.length ∨ size > d.length-off ∨ size % 16 ≠ 0 then {}
  else
    let found := dynRecords d off va size maxDynRecords 0
    ⟨off,size,found.1,found.2⟩

/-- The table of the first `PT_DYNAMIC`, else of the first `SHT_DYNAMIC`. -/
def dynTable (d : Bytes) (segments : List ElfSegment) (raw : List RawSec) : Option DynTable :=
  match segments.find? (·.type = 2) with
  | some s => some (scanDyn d s.offset s.address s.fileSize)
  | none => (raw.find? (·.type = 6)).map fun s => scanDyn d s.off s.addr s.size

def DynTable.tv (t : DynTable) (tag : ℕ) : ℕ :=
  ((t.records.reverse.find? (·.tag = tag)).map (·.value)).getD 0

structure InitRange where
  (kind phase : String)
  (va size : ℕ)

def maxInitBytes : ℕ := 16*1024*1024

def addInit (t : DynTable) (ptag stag : ℕ) (kind phase : String) : List InitRange :=
  let va := t.tv ptag
  let size := t.tv stag
  if va = 0 ∨ size = 0 ∨ size > maxInitBytes ∨ size % 8 ≠ 0 then [] else [⟨kind,phase,va,size⟩]

def initRanges (t : DynTable) : List InitRange :=
  addInit t 32 33 "DT_PREINIT_ARRAY_SLOT" "loader_pre_entry" ++
    addInit t 25 27 "DT_INIT_ARRAY_SLOT" "runtime_initialization"

/-- A range of complete relocation records. -/
structure RelRange where
  source : String
  (va off size declaredSize : ℕ)
  rela : Bool

def RelRange.ent (r : RelRange) : ℕ := if r.rela then 24 else 16

variable (d : Bytes) (segments : List ElfSegment)

def addRelRange (source : String) (va size ent : ℕ) (rela : Bool) : List RelRange :=
  let expected := if rela then 24 else 16
  if va = 0 ∨ size = 0 ∨ ent ≠ expected then []
  else
    match (vaddrFileExtent d va segments).value with
    | none => []
    | some ex => if size > ex.2 then [] else [⟨source,va,ex.1,size - size % ent,size,rela⟩]

def relRanges (t : DynTable) : List RelRange :=
  let jmprel :=
    if t.tv 20 = 7 then addRelRange d segments "DT_JMPREL" (t.tv 23) (t.tv 2) 24 true
    else if t.tv 20 = 17 then addRelRange d segments "DT_JMPREL" (t.tv 23) (t.tv 2) 16 false
    else []
  (addRelRange d segments "DT_RELA" (t.tv 7) (t.tv 8) (t.tv 9) true ++
    (addRelRange d segments "DT_REL" (t.tv 17) (t.tv 18) (t.tv 19) false++jmprel)).insertionSort
    fun r s => r.off ≤ s.off

/-- The tags whose tables may follow the symbols. -/
def tablesBehindSymbols : List ℕ :=
  [5,4,0x6ffffef5,7,17,23,36,0x6ffffff0,0x6ffffffc,0x6ffffffe]

/-- Where the symbols lie, as far as the next table; nowhere is offset zero. -/
def symbolRange (t : DynTable) : ℕ×ℕ :=
  if t.tv 6 ≠ 0 ∧ t.tv 11 = 24 then
    match (vaddrFileExtent d (t.tv 6) segments).value with
    | none => (0,0)
    | some ex => (ex.1,tablesBehindSymbols.foldl
        (fun size tag => if t.tv tag > t.tv 6 then min size (t.tv tag - t.tv 6) else size) ex.2)
  else (0,0)

structure LoaderMetadata where
  dyn : DynTable
  inits : List InitRange
  ranges : List RelRange
  symbols : ℕ×ℕ

def loaderMetadata (t : DynTable) : LoaderMetadata :=
  ⟨t,initRanges t,relRanges d segments t,symbolRange d segments t⟩

structure RelRecord where
  source : String
  (ent off va target info addend : ℕ)
deriving DecidableEq

def RelRecord.type (x : RelRecord) : ℕ := x.info % 2^32

def readRecord (r : RelRange) (p : ℕ) : RelRecord :=
  let off := r.off+p
  { source:=r.source,ent:=r.ent,off,va:=(r.va+p) % 2^64,target:=numberAt d true off 8
    info:=numberAt d true (off+8) 8
    addend := if r.rela then numberAt d true (off+16) 8 else 0 }

def recordsOf (r : RelRange) : List RelRecord :=
  (List.range (r.size/r.ent)).map fun i => readRecord d r (i*r.ent)

inductive MetadataKind
  | relocationRecord | dynamicControl | dynamicSymbol | initializerSlot
  deriving DecidableEq

inductive DependencyDetail
  | record (off : ℕ) (field : String)
  | tag (tag : ℕ)
  | symbol
  | array (kind : String)

structure DependencyFact where
  kind : MetadataKind
  (phase source : String)
  (sourceFileOffset sourceVa sourceSize targetVa targetFileOffset : ℕ)
  (anomalyClass priority priorityReason : String)
  detail : DependencyDetail

inductive ImplicitFact (Other : Type)
  | dependency (f : DependencyFact)
  | other (f : Other)

/-- The record at an offset, and the field of it. -/
def relocationLoc (ranges : List RelRange) (off : ℕ) : Option (ℕ×String) :=
  (ranges.find? fun r => r.off ≤ off && off < r.off+r.size).map fun r =>
    let rel := off-r.off
    let pos := rel % r.ent
    (r.off+rel/r.ent*r.ent,
      if pos < 8 then "r_offset" else if pos < 16 then "r_info" else "r_addend")

def dynamicLoc (t : DynTable) (off : ℕ) : Option DynRec :=
  if off < t.off ∨ off ≥ t.off+t.size then none else t.records[(off-t.off)/16]?

def initLoc (inits : List InitRange) (va : ℕ) : Option InitRange :=
  inits.find? fun x => x.va ≤ va && va-x.va < x.size

def symbolLoc (symbols : ℕ×ℕ) (off : ℕ) : Bool :=
  symbols.1 ≠ 0 && symbols.1 ≤ off && off-symbols.1 < symbols.2

def emitDependency (x : RelRecord) (targetOff : ℕ) (kind : MetadataKind) (anomaly reason : String)
    (detail : DependencyDetail) : DependencyFact :=
  { kind,phase := "loader_pre_entry",source:=x.source++"_RECORD",sourceFileOffset:=x.off
    sourceVa:=x.va,sourceSize:=x.ent,targetVa:=x.target,targetFileOffset:=targetOff
    anomalyClass:=anomaly,priority := "HIGH",priorityReason:=reason,detail }

def relocationFact (m : LoaderMetadata) (x : RelRecord) (place : ℕ) : Option DependencyFact :=
  (relocationLoc m.ranges place).map fun loc =>
    emitDependency x place .relocationRecord
      (if loc.1 > x.off then "RELOCATION_TARGETS_FUTURE_RELOCATION_RECORD"
        else if loc.1 = x.off then "RELOCATION_TARGETS_CURRENT_RELOCATION_RECORD"
        else "RELOCATION_TARGETS_PRIOR_RELOCATION_RECORD")
      (if loc.1 > x.off then "relocation writes a later loader relocation record"
        else "relocation writes loader relocation metadata")
      (.record loc.1 loc.2)

def dynamicFact (m : LoaderMetadata) (x : RelRecord) (place : ℕ) : Option DependencyFact :=
  (dynamicLoc m.dyn place).map fun r =>
    emitDependency x place .dynamicControl "RELOCATION_TARGETS_DYNAMIC_CONTROL"
      "relocation writes loader dynamic-control metadata" (.tag r.tag)

def symbolFact (m : LoaderMetadata) (x : RelRecord) (place : ℕ) : Option DependencyFact :=
  if symbolLoc m.symbols place then
    some (emitDependency x place .dynamicSymbol "RELOCATION_TARGETS_DYNSYM"
      "relocation writes loader-visible dynamic symbol metadata" .symbol)
  else none

def initFact (m : LoaderMetadata) (x : RelRecord) (place : ℕ) : Option DependencyFact :=
  (initLoc m.inits x.target).map fun r =>
    { kind:=.initializerSlot,phase:=r.phase,source:=x.source++"_RECORD"
      sourceFileOffset:=x.off,sourceVa:=x.va,sourceSize:=x.ent,targetVa:=x.target
      targetFileOffset:=place,anomalyClass := "NONE",priority := "INFORMATIONAL"
      priorityReason := "relocation-backed initializer slots are normal compiler/loader behavior " ++
        "without an additional control-metadata anomaly"
      detail:=.array r.kind }

def metadataFact (m : LoaderMetadata) (x : RelRecord) (place : ℕ) :
    MetadataKind → Option DependencyFact
  | .relocationRecord => relocationFact m x place
  | .dynamicControl => dynamicFact m x place
  | .dynamicSymbol => symbolFact m x place
  | .initializerSlot => initFact m x place

/-- Where a write to the address begins in the file. -/
def targetOff (x : RelRecord) : Option ℕ := (vaddrToFile d x.target segments).value

/-- The facts of other relations: before the scan, of a record behind its first three checks and
behind the last, and after the scan; and whether another limit was met. -/
structure OtherFacts (Other : Type) where
  before : List Other := []
  (embedded behind : RelRecord → List Other := fun _ => [])
  after : List Other := []
  limited : Bool := false

variable {Other : Type} (o : OtherFacts Other)

def recordFacts (m : LoaderMetadata) (x : RelRecord) : List (ImplicitFact Other) :=
  let dependency (k : MetadataKind) :=
    (((targetOff d segments x).bind fun place => metadataFact m x place k).map
      ImplicitFact.dependency).toList
  dependency .relocationRecord ++ (dependency .dynamicControl ++ (dependency .dynamicSymbol ++
    ((o.embedded x).map .other ++ (dependency .initializerSlot ++ (o.behind x).map .other))))

structure ImplicitPlane (Other : Type) where
  facts : List (ImplicitFact Other) := []
  limited : Bool := false

def maxFacts : ℕ := 65536
def maxRawRelocations : ℕ := 4000000

def addFact (p : ImplicitPlane Other) (f : ImplicitFact Other) : ImplicitPlane Other :=
  if p.facts.length ≥ maxFacts then {p with limited:=true} else {p with facts:=p.facts++[f]}

def addFacts (p : ImplicitPlane Other) (fs : List (ImplicitFact Other)) : ImplicitPlane Other :=
  fs.foldl addFact p

def relocationRecords (m : LoaderMetadata) : List RelRecord := m.ranges.flatMap (recordsOf d)

def scanRecords (m : LoaderMetadata) : ImplicitPlane Other :=
  let records := (relocationRecords d m).take maxRawRelocations
  let start := addFacts {limited:=o.limited} (o.before.map .other)
  let scanned := records.foldl (fun p x => addFacts p (recordFacts d segments o m x)) start
  let plane := addFacts scanned (o.after.map .other)
  if records.length ≥ maxRawRelocations then {plane with limited:=true} else plane

def supported (info : ElfInfo) : Bool :=
  info.header.elf64 && info.header.littleEndian &&
    (info.header.machine = 62 || info.header.machine = 183)

def implicitPlane (info : ElfInfo) : ImplicitPlane Other :=
  if supported info then
    match dynTable d info.segments info.rawSections with
    | none => {}
    | some t => scanRecords d info.segments o (loaderMetadata d info.segments t)
  else {}

end AutoRefirst.Elf
