import Mathlib.Data.List.Count
import Mathlib.Data.List.Dedup
import Mathlib.Data.List.Range

/-!
# The opcode table of a CPython evaluator

`analyze_cpython_dispatch` compares the handlers of a recovered dispatch table with those of
the official build and says where each instruction has gone; `cpython_validated_opcode_map`
turns a pure permutation into a map of opcodes.
-/

namespace AutoRefirst.CPythonDispatch

structure DispatchEntry where
  opcode : ℕ
  handlerRva : UInt32
  entryBlockHash : UInt64 := 0
  entryInstructionCount : UInt32 := 0
  deriving DecidableEq, Repr

structure ReferenceEntry where
  opcode : ℕ
  name : String
  handlerRva : UInt32
  signature : UInt64
  blockCount : UInt32
  deriving DecidableEq, Repr

/-- A generated reference table: one entry for each opcode from the first on. -/
structure OpcodeReference where
  version : String
  (firstOpcode entryCount : ℕ)
  entries : List ReferenceEntry
  opcodes : entries.map (·.opcode) = List.range' firstOpcode entryCount

/-- The table that `recover_cpython_dispatch` found. Its entries stand for the opcodes from
the first on, and all of them are bytes. -/
structure RecoveredTable where
  (firstOpcode entryCount : ℕ)
  entries : List DispatchEntry
  bounded : firstOpcode+entryCount≤256
  opcodes : (entries.map (·.opcode)).Perm (List.range' firstOpcode entryCount)

inductive MappingState where
  | slotMatch | handlerModifiedCandidate | permuted | permutedHandlerModified | semanticSlotMatch
  | semanticPermuted | ambiguousSemantic | unmapped
  deriving DecidableEq, Repr

structure OpcodeMapping where
  targetOpcode : ℕ
  (targetHandlerRva expectedHandlerRva : UInt32)
  state : MappingState
  referenceOpcodes : List ℕ := []
  referenceNames : List String := []
  deriving DecidableEq, Repr

inductive DispatchStatus where
  | unset | noReference | buildIncomparable | referenceMatch | opcodePermutation
  | opcodeAndHandlerModified | handlerModified | partialOpcodeMapping
  deriving DecidableEq, Repr

namespace OpcodeReference

variable (ref : OpcodeReference)

def byOpcode (opcode : ℕ) : Option ReferenceEntry :=
  (ref.entries.filter fun e => e.opcode = opcode).getLast?

def byRva (rva : UInt32) : List ReferenceEntry := ref.entries.filter fun e => e.handlerRva = rva

def bySig (signature : UInt64) (blockCount : UInt32) : List ReferenceEntry :=
  ref.entries.filter fun e =>
    e.signature ≠ 0 ∧ e.signature = signature ∧ e.blockCount = blockCount

end OpcodeReference

def refName (e : ReferenceEntry) : String :=
  if e.name.isEmpty then "opcode_"++toString e.opcode else e.name

def OpcodeMapping.assignRefs (m : OpcodeMapping) (v : List ReferenceEntry) : OpcodeMapping :=
  { m with
    referenceOpcodes:=m.referenceOpcodes++v.map (·.opcode)
    referenceNames:=m.referenceNames ++ v.map refName }

def slotState (ref : OpcodeReference) (t : DispatchEntry) : MappingState×List ReferenceEntry :=
  let expected := ref.byOpcode t.opcode
  let byRva := ref.byRva t.handlerRva
  let bySig := ref.bySig t.entryBlockHash t.entryInstructionCount
  match expected.filter fun e => e.handlerRva = t.handlerRva with
  | some e =>
    (if e.signature = 0 ∨ t.entryBlockHash = e.signature then .slotMatch
      else .handlerModifiedCandidate,byRva)
  | none =>
    if byRva ≠ [] then
      (if byRva.any fun e => e.signature = 0 ∨ e.signature = t.entryBlockHash then .permuted
        else .permutedHandlerModified,byRva)
    else if t.entryBlockHash = 0 then (.unmapped,[])
    else if bySig = [] then (.unmapped,[])
    else if ((bySig.map (·.handlerRva)).dedup).length = 1 then
      (if bySig.any fun e => e.opcode = t.opcode then .semanticSlotMatch else .semanticPermuted,
        bySig)
    else (.ambiguousSemantic,bySig)

def mapSlot (ref : OpcodeReference) (t : DispatchEntry) : OpcodeMapping :=
  let s := slotState ref t
  OpcodeMapping.assignRefs
    { targetOpcode:=t.opcode,targetHandlerRva:=t.handlerRva
      expectedHandlerRva:=((ref.byOpcode t.opcode).map (·.handlerRva)).getD 0,state:=s.1 } s.2

namespace MappingState

def countsSlotMatch (s : MappingState) : Bool := s == .slotMatch || s == .semanticSlotMatch

def countsPermuted (s : MappingState) : Bool :=
  s == .permuted || s == .permutedHandlerModified || s == .semanticPermuted

def countsHandlerModified (s : MappingState) : Bool :=
  s == .handlerModifiedCandidate || s == .permutedHandlerModified

end MappingState

structure CPythonDispatchInfo where
  tableFound : Bool := false
  (tableFirstOpcode tableEntryCount : ℕ := 0)
  referenceStatus : DispatchStatus := .unset
  referenceVersion : String := ""
  (slotMatches permutedSlots handlerModified semanticMapped ambiguous unmapped : ℕ := 0)
  mappings : List OpcodeMapping := []
  deriving DecidableEq, Repr

def CPythonDispatchInfo.counted (out : CPythonDispatchInfo) (mappings : List OpcodeMapping) :
    CPythonDispatchInfo :=
  { out with
    slotMatches:=mappings.countP (·.state.countsSlotMatch)
    permutedSlots:=mappings.countP (·.state.countsPermuted)
    handlerModified:=mappings.countP (·.state.countsHandlerModified)
    semanticMapped:=mappings.countP fun m =>
      m.state == .semanticSlotMatch || m.state == .semanticPermuted
    ambiguous:=mappings.countP (·.state == .ambiguousSemantic)
    unmapped:=mappings.countP (·.state == .unmapped),mappings }

def statusOf (out : CPythonDispatchInfo) (sameShape : Bool) (entryCount : ℕ) : DispatchStatus :=
  if sameShape ∧ out.slotMatches = entryCount ∧ out.handlerModified = 0 then .referenceMatch
  else if out.handlerModified ≠ 0 ∧ out.permutedSlots ≠ 0 then .opcodeAndHandlerModified
  else if out.handlerModified ≠ 0 then .handlerModified
  else if out.permutedSlots ≠ 0 ∧ out.ambiguous = 0 ∧ out.unmapped = 0 ∧ sameShape then
    .opcodePermutation
  else .partialOpcodeMapping

/-- `analyze_cpython_dispatch`, after the table was looked for and the reference of the version
was looked up. -/
def analyzeCpythonDispatch (table : Option RecoveredTable) (ref : Option OpcodeReference)
    (comparable exactReferenceMatch : Bool) : CPythonDispatchInfo :=
  match table with
  | none => {}
  | some table =>
    let out : CPythonDispatchInfo :=
      { tableFound:=true,tableFirstOpcode:=table.firstOpcode,tableEntryCount:=table.entryCount }
    match ref with
    | none => {out with referenceStatus:=.noReference}
    | some ref =>
      let out := {out with referenceVersion:=ref.version}
      let sameShape : Bool :=
        table.firstOpcode = ref.firstOpcode ∧ table.entryCount = ref.entryCount
      if exactReferenceMatch && sameShape then
        {out with referenceStatus:=.referenceMatch,slotMatches:=ref.entryCount}
      else if !comparable then {out with referenceStatus:=.buildIncomparable}
      else
        let out := out.counted (table.entries.map (mapSlot ref))
        {out with referenceStatus:=statusOf out sameShape ref.entryCount}

inductive MapSource where
  | dispatch | compilerProbe
  deriving DecidableEq, Repr

structure CPythonOpcodeNormalizationMap where
  targetToOfficial : ℕ → Option ℕ
  mappedOpcodes : ℕ
  source : MapSource

inductive ProbeState where
  | referenceMatch | opcodePermutationRecovered | other
  deriving DecidableEq, Repr

structure CPythonCompilerProbeInfo where
  success : Bool := false
  state : ProbeState := .other
  mappings : List (ℕ×ℕ) := []
  deriving DecidableEq, Repr

structure OpcodeMapBuild where
  targetToOfficial : ℕ → Option ℕ := fun _ => none
  mappedOpcodes : ℕ := 0

def OpcodeMapBuild.assign (b : OpcodeMapBuild) (target official : ℕ) : OpcodeMapBuild :=
  if target < 256 ∧ official < 256 ∧ b.targetToOfficial target = none then
    { targetToOfficial:=Function.update b.targetToOfficial target (some official)
      mappedOpcodes:=b.mappedOpcodes+1 }
  else b

def onlyOne : List ℕ → Option ℕ
  | [official] => some official
  | _ => none

def OpcodeMapping.official (m : OpcodeMapping) : Option ℕ :=
  match m.state with
  | .slotMatch | .semanticSlotMatch => some m.targetOpcode
  | .permuted | .semanticPermuted => onlyOne m.referenceOpcodes
  | _ => none

def OpcodeMapBuild.assignMapping (b : OpcodeMapBuild) (m : OpcodeMapping) : OpcodeMapBuild :=
  match m.official with
  | none => b
  | some official => b.assign m.targetOpcode official

def dispatchMap (dispatch : CPythonDispatchInfo) : OpcodeMapBuild :=
  match dispatch.referenceStatus with
  | .referenceMatch =>
    (List.range' dispatch.tableFirstOpcode dispatch.tableEntryCount).foldl
      (fun b op => b.assign op op) {}
  | .opcodePermutation => dispatch.mappings.foldl OpcodeMapBuild.assignMapping {}
  | _ => {}

def cpythonValidatedOpcodeMap (dispatch : CPythonDispatchInfo)
    (probe : CPythonCompilerProbeInfo) : Option CPythonOpcodeNormalizationMap :=
  let native := if dispatch.tableFound then dispatchMap dispatch else {}
  if native.mappedOpcodes ≠ 0 then
    some ⟨native.targetToOfficial,native.mappedOpcodes,.dispatch⟩
  else if probe.success ∧
      (probe.state = .referenceMatch ∨ probe.state = .opcodePermutationRecovered) then
    let probed := probe.mappings.foldl (fun b m => b.assign m.1 m.2) native
    if probed.mappedOpcodes ≠ 0 then
      some ⟨probed.targetToOfficial,probed.mappedOpcodes,.compilerProbe⟩
    else none
  else none

/-- One range of `remap_python_marshal_opcodes`: the opcode of each code unit is replaced, and
a range of odd size or an opcode without a counterpart fails the whole. -/
def rewriteUnits (targetToOfficial : ℕ→Option ℕ) : List UInt8 → Option (List UInt8)
  | [] => some []
  | [_] => none
  | op :: arg::rest =>
    match targetToOfficial op.toNat with
    | none => none
    | some official =>
      (rewriteUnits targetToOfficial rest).map fun rest => official.toUInt8 :: arg::rest

end AutoRefirst.CPythonDispatch
