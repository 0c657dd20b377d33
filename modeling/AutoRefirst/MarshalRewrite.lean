import AutoRefirst.MarshalCanonical

/-!
# Inspecting and rewriting marshal streams

The root code object of a stream, and the same stream with its opcodes mapped.
-/

namespace AutoRefirst.PythonMarshal

inductive Scalar
  | other
  | integer (v : ℤ)
  | text (s : Bytes)

structure RootCode where
  valid : Bool := false
  pythonMinor : ℤ := 0
  codeOffset : ℕ := 0
  code : Bytes := []
  constants : List Scalar := []
  names : List Bytes := []
  errorOffset : ℕ := 0
  error : String := ""

def scalarOf (n : Node) : Scalar :=
  match n.k with
  | .int => .integer n.iv
  | .string => .text n.blob
  | _ => .other

def stringOf (n : Node) : Option Bytes := if n.k = .string then some n.blob else none

/-- The object of a code field, when it has the kind. -/
def fieldOf (h : Heap) (x : Option ℕ) (k : K) : Option Node :=
  (x.bind (h[·]?)).filter fun n => n.k = k

def inspectRootCode (d : Bytes) (version : ℤ) : RootCode :=
  let minor := minorFromVersion version
  let out : RootCode := {pythonMinor:=minor}
  if minor < 8 ∨ minor > 14 then
    {out with error := "marshal root inspection supports Python 3.8-3.14"}
  else match parseRoot .source d minor with
    | (none,r) => {out with error:=r.out.error,errorOffset:=r.out.errorOffset}
    | (some root,r) =>
      match (fieldOf r.heap (some root) .code).bind Node.code with
      | none => {out with error := "marshal root is not a code object"}
      | some c =>
        if r.p ≠ d.length then
          {out with error := "trailing bytes after root marshal object",errorOffset:=r.p}
        else match fieldOf r.heap c.code .bytes with
          | none => {out with error := "root code object lacks bytecode bytes"}
          | some code => match fieldOf r.heap c.consts .tuple with
            | none => {out with error := "root code object co_consts is not a tuple"}
            | some consts => match fieldOf r.heap c.names .tuple with
              | none => {out with error := "root code object co_names is not a tuple"}
              | some names =>
                let constants := (consts.seq.filterMap (r.heap[·]?)).map scalarOf
                match names.seq.mapM fun x => (r.heap[x]?).bind stringOf with
                | none => { out with
                    codeOffset:=code.blobOffset
                    error := "root code object co_names contains a non-string entry" }
                | some names => { out with
                    valid:=true,codeOffset:=code.blobOffset,code:=code.blob,constants,names }

structure OpcodeRewrite where
  (valid changed : Bool := false)
  pythonMinor : ℤ := 0
  (codeObjectCount codeUnits rewrittenCodeUnits : ℕ := 0)
  unmappedOpcodes : List ℕ := []
  bytes : Bytes := []
  error : String := ""

abbrev OpcodeMap := UInt8 → ℤ

def rewriteUnit (map : OpcodeMap) (out : OpcodeRewrite) (off : ℕ) : OpcodeRewrite :=
  let out := {out with codeUnits:=out.codeUnits+1}
  let op := out.bytes.getD off 0
  if map op < 0 ∨ map op > 255 then
    {out with unmappedOpcodes:=out.unmappedOpcodes++[op.toNat]}
  else if map op ≠ op.toNat then
    { out with
      bytes:=out.bytes.set off (map op).toNat.toUInt8,rewrittenCodeUnits:=out.rewrittenCodeUnits+1 }
  else out

def units (x : CodeRange) : List ℕ := (List.range (x.size/2)).map fun i => x.offset+2*i

def rewriteRange (d : Bytes) (map : OpcodeMap) (out : OpcodeRewrite) (x : CodeRange) :
    Except OpcodeRewrite OpcodeRewrite :=
  if x.size % 2 = 1 then
    .error { out with
      error := "co_code payload size is not 2-byte aligned for code object "++textOf x.name
      unmappedOpcodes:=[],bytes:=[] }
  else if x.offset > d.length ∨ x.size > d.length-x.offset then
    .error { out with
      error := "co_code payload range exceeds marshal input",unmappedOpcodes:=[],bytes:=[] }
  else .ok ((units x).foldl (rewriteUnit map) out)

def rewriteRanges (d : Bytes) (map : OpcodeMap) :
    List CodeRange → OpcodeRewrite → Except OpcodeRewrite OpcodeRewrite
  | [], out => .ok out
  | x::xs, out => do
    let out ← rewriteRange d map out x
    rewriteRanges d map xs out

/-- The opcodes without an entry, each once and in order. -/
def sortedOpcodes (ops : List ℕ) : List ℕ := (List.range 256).filter (· ∈ ops)

def unmappedMessage (ops : List ℕ) : String :=
  ops.foldl (fun s op => s++" "++toString op) "unmapped opcode(s) used in serialized co_code:"

def hexOff (v : ℕ) : String := String.ofList (Nat.toDigits 16 v)

def remapOpcodes (sha : Bytes→Bytes) (fuel : ℕ) (d : Bytes) (version : ℤ) (map : OpcodeMap) :
    Option OpcodeRewrite := do
  let out : OpcodeRewrite := {pythonMinor:=minorFromVersion version}
  let layout ← semanticHash sha fuel d version
  if ¬layout.valid then
    return { out with
      error := "marshal layout parse failed at +0x"++hexOff layout.errorOffset++": " ++
        layout.error }
  else
    let first := {out with codeObjectCount:=layout.codeObjectCount,bytes:=d}
    match rewriteRanges d map layout.codeRanges first with
    | .error out => return out
    | .ok out =>
      if out.unmappedOpcodes ≠ [] then
        let ops := sortedOpcodes out.unmappedOpcodes
        return {out with unmappedOpcodes:=ops,error:=unmappedMessage ops,bytes:=[]}
      else
        let verify ← semanticHash sha fuel out.bytes version
        if ¬verify.valid ∨ verify.codeObjectCount ≠ layout.codeObjectCount ∨
            verify.codeRanges.length ≠ layout.codeRanges.length then
          return {out with error := "normalized marshal failed structural re-parse",bytes:=[]}
        else return {out with changed:=out.rewrittenCodeUnits ≠ 0,valid:=true}

structure OpcodeMapping where
  targetOpcode : ℕ
  state : String
  referenceOpcodes : List ℕ

structure DispatchInfo where
  referenceStatus : String
  mappings : List OpcodeMapping

def OpcodeMapping.entry (m : OpcodeMapping) (map : OpcodeMap) : OpcodeMap :=
  if m.state = "SLOT_MATCH" ∨ m.state = "SEMANTIC_SLOT_MATCH" then
    fun op => if op.toNat = m.targetOpcode then m.targetOpcode else map op
  else if m.state = "PERMUTED" ∨ m.state = "SEMANTIC_PERMUTED" then
    match m.referenceOpcodes with
    | [r] => fun op => if op.toNat = m.targetOpcode then r else map op
    | _ => map
  else map

def normalizeOpcodes (sha : Bytes→Bytes) (fuel : ℕ) (d : Bytes) (version : ℤ)
    (dispatch : DispatchInfo) : Option OpcodeRewrite :=
  if dispatch.referenceStatus = "REFERENCE_MATCH" then
    remapOpcodes sha fuel d version fun op => op.toNat
  else if dispatch.referenceStatus ≠ "OPCODE_PERMUTATION" then
    some {
      pythonMinor:=minorFromVersion version
      error := "dispatch is not a pure, validated opcode permutation" }
  else
    remapOpcodes sha fuel d version
      (dispatch.mappings.foldl (fun map m => m.entry map) fun _ => -1)

end AutoRefirst.PythonMarshal
