import AutoRefirst.WasmReader

/-!
# WebAssembly modules

The sections of a module and what is checked between them. What a failed parse had gathered
before it failed is left out, as are the clues taken from custom sections other than names.
-/

namespace AutoRefirst.Wasm
open SpanReader

inductive Kind where
  | function | table | memory | global | tag
  deriving DecidableEq

structure WasmFuncType where
  index : ℕ
  (params results : List String)
  signature : String
  deriving DecidableEq

structure WasmImport where
  (module name : Bytes)
  kind : Kind
  index : ℕ
  typeIndex : ℕ := 0
  deriving DecidableEq

structure WasmExport where
  name : Bytes
  kind : Kind
  index : ℕ
  deriving DecidableEq

structure WasmFunction where
  (index typeIndex : ℕ)
  (imported userLike : Bool := false)
  name : Bytes := []
  signature : String := ""
  (importModule importName : Bytes := [])
  exports : List Bytes := []
  (codeOffset codeSize : ℕ := 0)
  deriving DecidableEq

structure WasmCustomSection where
  name : Bytes
  (offset size : ℕ)
  deriving DecidableEq

structure WasmDataSegment where
  index : ℕ
  memoryIndex : ℕ := 0
  (passive offsetKnown : Bool := false)
  offset : ℤ := 0
  (dataOffset size : ℕ)
  deriving DecidableEq

structure WasmInfo where
  (candidate valid : Bool := false)
  (typeParseComplete nameParseComplete dataParseComplete : Bool := true)
  (version sectionCount importedFunctionCount definedFunctionCount namedFunctionCount : ℕ := 0)
  (hasDataCount hasStart startImported startExported : Bool := false)
  (dataCount startFunctionIndex startTypeIndex startSectionOffset startIndexOffset startIndexSize
    startCodeOffset startCodeSize : ℕ := 0)
  startName : Bytes := []
  startSignature : String := ""
  startExports : List Bytes := []
  types : List WasmFuncType := []
  imports : List WasmImport := []
  exports : List WasmExport := []
  functions : List WasmFunction := []
  customSections : List WasmCustomSection := []
  dataSegments : List WasmDataSegment := []
  anomalies : List String := []
  error : String := ""
  errorOffset : ℕ := 0

/-- What the parser keeps beside the information it reports. -/
structure State where
  o : WasmInfo
  (importTypes definedTypes : List ℕ := [])
  bodies : List (ℕ×ℕ) := []
  fnames : ℕ → Option Bytes := fun _ => none
  seen : List UInt8 := []
  lastRank : ℕ := 0

def typeEntry (i : ℕ) (params results : List String) : WasmFuncType :=
  {index:=i,params,results,signature:=signature params results}

def unsupportedForm (form : UInt8) (start : ℕ) : String :=
  "type section uses GC/recursive or unsupported type form 0x"++hex form.toNat++" at 0x" ++
    hex start

/-- The entries of a type section; the first one that is no function type ends it. -/
def typesFrom : ℕ → ℕ → WasmInfo → Parser WasmInfo
  | 0, _, o => return o
  | n+1, i, o => do
    let start ← position
    let form ← byte
    if form ≠ 0x60 then
      skipRest
      return { o with
        typeParseComplete:=false,anomalies:=o.anomalies++[unsupportedForm form start] }
    else
      let params ← vecTypes
      let results ← vecTypes
      typesFrom n (i+1) {o with types:=o.types++[typeEntry i params results]}

variable (o : WasmInfo)

def parseTypeSection : Parser WasmInfo := do
  let n ← u32
  require (n ≤ 1000000) "WebAssembly type count unreasonable"
  typesFrom n 0 o

def kindOf (k : UInt8) : Option Kind :=
  if k = 0 then some .function else if k = 1 then some .table else if k = 2 then some .memory
  else if k = 3 then some .global else if k = 4 then some .tag else none

def kind (s : String) : Parser Kind := do
  let k ← byte
  match kindOf k with
  | some k => return k
  | none => fail s

def importType : Kind → Parser ℕ
  | .function => u32
  | .table => do
    tableType
    return 0
  | .memory => do
    memoryType
    return 0
  | .global => do
    globalType
    return 0
  | .tag => do
    tagType
    return 0

variable (st : State)

def State.imported (module name : Bytes) (k : Kind) (index typeIndex : ℕ) : State :=
  { st with
    o:={ st.o with
      imports:=st.o.imports++[{module,name,kind:=k,index,typeIndex}]
      importedFunctionCount :=
        st.o.importedFunctionCount + if k = .function then 1 else 0 }
    importTypes := if k = .function then st.importTypes++[typeIndex] else st.importTypes }

def parseImportSection : Parser State := do
  let n ← u32
  require (n ≤ 1000000) "WebAssembly import count unreasonable"
  let start : State×(Kind → ℕ) := (st,fun _ => 0)
  let imported ← times n 0 start fun _ (st,idx) => do
    let module ← name
    let name ← name
    let k ← kind "invalid WebAssembly import kind"
    let typeIndex ← importType k
    return (st.imported module name k (idx k) typeIndex,Function.update idx k (idx k + 1))
  return imported.1

def parseFunctionSection : Parser State := do
  let n ← u32
  require (n ≤ 10000000) "WebAssembly function count unreasonable"
  let definedType ← times n 0 st.definedTypes fun _ v => do
    let t ← u32
    return v++[t]
  return { st with
    o:={st.o with definedFunctionCount:=n},definedTypes:=definedType }

def parseExportSection : Parser WasmInfo := do
  let n ← u32
  require (n ≤ 1000000) "WebAssembly export count unreasonable"
  let names ← times n 0 (o,([] : List Bytes)) fun _ (o,names) => do
    let x ← name
    let k ← kind "invalid WebAssembly export kind"
    let index ← u32
    require (x ∉ names) "duplicate WebAssembly export name"
    return ({o with exports:=o.exports++[{name:=x,kind:=k,index}]},x::names)
  return names.1

def parseStartSection (sectionOff : ℕ) : Parser WasmInfo := do
  let before ← position
  let index ← u32
  let after ← position
  return { o with
    hasStart:=true,startSectionOffset:=sectionOff,startIndexOffset:=before,startFunctionIndex:=index
    startIndexSize:=after-before }

def local_ : Parser Unit := do
  let _ ← u32
  let _ ← valtype
  return ()

/-- The declarations at the head of a body. -/
def locals : Parser Unit := do
  let n ← u32
  require (n ≤ 1000000) "WebAssembly local declaration group count unreasonable"
  times n 0 () fun _ _ => local_

def byteAt (n : ℕ) : Parser UInt8 := fun r => .ok (r.d.getD n 0,r)

def moveTo (n : ℕ) : Parser Unit := fun r => .ok ((),{r with p:=n})

def codeBody : Parser (ℕ×ℕ) := do
  let sz ← u32
  let body ← position
  let stop ← spanEnd
  require (sz ≤ stop-body) "WebAssembly function body exceeds code section"
  require (sz ≠ 0) "empty WebAssembly function body"
  let bodyend := body+sz
  within body bodyend locals
  let last ← byteAt (bodyend-1)
  if last ≠ 0x0b then failAt "WebAssembly function body missing final end opcode" (bodyend-1)
  else
    moveTo bodyend
    return (body,sz)

def parseCodeSection (bodies : List (ℕ×ℕ)) : Parser (List (ℕ×ℕ)) := do
  let n ← u32
  require (n ≤ 10000000) "WebAssembly code count unreasonable"
  times n 0 bodies fun _ bodies => do
    let x ← codeBody
    return bodies++[x]

/-- One instruction of a constant expression after its opcode; a 32-bit constant is kept. -/
def constant (op : UInt8) : Parser (Option ℤ) :=
  if op = 0x41 then do
    let v ← s64 32
    return some v
  else if op = 0x42 then do
    let _ ← s64 64
    return none
  else if op = 0x43 then do
    need 4
    let _ ← take 4
    return none
  else if op = 0x44 then do
    need 8
    let _ ← take 8
    return none
  else if op = 0x23 ∨ op = 0xd2 then do
    let _ ← u32
    return none
  else if op = 0xd0 then do
    let _ ← s64 33
    return none
  else fail "unsupported WebAssembly const-expression opcode"

def initFrom : ℕ → Bool → Option ℤ → Parser (Option ℤ)
  | 0, _, _ => fail "WebAssembly const expression missing end"
  | fuel+1, first, known => do
    let p ← position
    let stop ← spanEnd
    if p < stop then
      let op ← byte
      if op = 0x0b then return known
      else
        let v ← constant op
        initFrom fuel false (if first then v else known)
    else fail "WebAssembly const expression missing end"

/-- Each turn takes a byte, so that the span bounds the turns. -/
def initExpr : Parser (Option ℤ) := do
  let p ← position
  let stop ← spanEnd
  initFrom (stop-p+1) true none

/-- Where a data segment goes: its memory and its offset as far as it is known. -/
def dataMode (mode : ℕ) : Parser (Bool×ℕ×Option ℤ) :=
  if mode = 0 then do
    let off ← initExpr
    return (false,0,off)
  else if mode = 1 then return (true,0,none)
  else do
    let memoryIndex ← u32
    let off ← initExpr
    return (false,memoryIndex,off)

def dataEntry (i : ℕ) (passive : Bool) (memoryIndex : ℕ) (off : Option ℤ) (at_ sz : ℕ) :
    WasmDataSegment :=
  { index:=i,memoryIndex,passive,offsetKnown:=off.isSome,offset:=off.getD 0,
    dataOffset:=at_,size:=sz }

def dataFrom : ℕ → ℕ → WasmInfo → Parser WasmInfo
  | 0, _, o => return o
  | n+1, i, o => do
    let mode ← u32
    if 2 < mode then
      skipRest
      return { o with
        dataParseComplete:=false
        anomalies:=o.anomalies ++ ["data section uses unsupported future segment mode"] }
    else
      let (passive,memoryIndex,off) ← dataMode mode
      let sz ← u32
      let at_ ← position
      let _ ← takeLeft "WebAssembly data payload out of bounds" sz
      dataFrom n (i+1) { o with
        dataSegments:=o.dataSegments++[dataEntry i passive memoryIndex off at_ sz] }

def parseDataSection : Parser WasmInfo := do
  let n ← u32
  require (n ≤ 1000000) "WebAssembly data segment count unreasonable"
  dataFrom n 0 o

def nameEntries : ℕ → Reader → (ℕ → Option Bytes) → (ℕ → Option Bytes)×Bool
  | 0, s, fnames => (fnames,s.p = s.stop)
  | n+1, s, fnames =>
    match (do let idx ← u32; let nm ← name; return (idx,nm) : Parser (ℕ×Bytes)) s with
    | .error _ => (fnames,false)
    | .ok ((idx,nm),s) => nameEntries n s (Function.update fnames idx (some nm))

def functionNames (s : Reader) (fnames : ℕ→Option Bytes) : (ℕ → Option Bytes)×Bool :=
  match u32 s with
  | .error _ => (fnames,false)
  | .ok (n,s) => if 10000000 < n then (fnames,false) else nameEntries n s fnames

def nameHeader : Parser (UInt8×ℕ) := do
  let id ← byte
  let sz ← u32
  let stop ← spanEnd
  let p ← position
  require (sz ≤ stop-p) ""
  return (id,sz)

def nameFrom : ℕ → Reader → (ℕ → Option Bytes) → Bool → (ℕ → Option Bytes)×Bool
  | 0, _, fnames, complete => (fnames,complete)
  | fuel+1, r, fnames, complete =>
    if r.p < r.stop then
      match nameHeader r with
      | .error _ => (fnames,false)
      | .ok ((id,sz),r) =>
        let x := if id = 1 then functionNames (Reader.over r.d r.p (r.p+sz)) fnames
          else (fnames,true)
        nameFrom fuel {r with p:=r.p+sz} x.1 (complete && x.2)
    else (fnames,complete)

/-- Each turn takes a byte, so that the length bounds the turns. -/
def parseNameCustom (d : Bytes) (a e : ℕ) (fnames : ℕ→Option Bytes) : (ℕ → Option Bytes)×Bool :=
  nameFrom (d.length+1) (Reader.over d a e) fnames true

def rank (id : UInt8) : ℕ :=
  if id = 1 then 1 else if id = 2 then 2 else if id = 3 then 3 else if id = 4 then 4
  else if id = 5 then 5 else if id = 13 then 6 else if id = 6 then 7 else if id = 7 then 8
  else if id = 8 then 9 else if id = 9 then 10 else if id = 12 then 11 else if id = 10 then 12
  else if id = 11 then 13 else 0

structure Frame where
  id : UInt8
  (offset payload stop : ℕ)
  deriving DecidableEq

def frame : Parser Frame := do
  let sectionOff ← position
  let id ← byte
  let sz ← u32
  let payload ← position
  let stop ← spanEnd
  require (sz ≤ stop-payload) "WebAssembly section size exceeds file"
  return ⟨id,sectionOff,payload,payload+sz⟩

/-- A custom section; one whose name is malformed is passed over. -/
def custom (f : Frame) (st : State) : Parser State := fun s =>
  match name s with
  | .error _ => .ok ({ st with o:={ st.o with
      anomalies:=st.o.anomalies ++
        ["malformed custom section name at file offset "++toString f.payload] } },
      {s with p:=f.stop})
  | .ok (n,s) =>
    let o : WasmInfo := { st.o with customSections:=st.o.customSections ++
      [{name:=n,offset:=f.offset,size:=f.stop-f.offset}] }
    let x := if n = bytes "name" then parseNameCustom s.d s.p f.stop st.fnames
      else (st.fnames,true)
    .ok ({ st with
      o:={o with nameParseComplete:=o.nameParseComplete && x.2},fnames:=x.1 },{s with p:=f.stop})

def section_ (f : Frame) (st : State) : Parser State :=
  if f.id = 0 then custom f st
  else if f.id = 1 then do
    let o ← parseTypeSection st.o
    return {st with o}
  else if f.id = 2 then parseImportSection st
  else if f.id = 3 then parseFunctionSection st
  else if f.id = 7 then do
    let o ← parseExportSection st.o
    return {st with o}
  else if f.id = 8 then do
    let o ← parseStartSection st.o f.offset
    return {st with o}
  else if f.id = 10 then do
    let bodies ← parseCodeSection st.bodies
    return {st with bodies}
  else if f.id = 11 then do
    let o ← parseDataSection st.o
    return {st with o}
  else if f.id = 12 then do
    let n ← u32
    return {st with o:={st.o with hasDataCount:=true,dataCount:=n}}
  else do
    moveTo f.stop
    return st

def consumed (f : Frame) (st : State) : Parser State := do
  let st ← section_ f st
  let p ← position
  require (p = f.stop) "WebAssembly section parser did not consume declared payload"
  return st

def State.counted : State :=
  {st with o:={st.o with sectionCount:=(st.o.sectionCount+1) % 2^32}}

def State.marked (id : UInt8) : State :=
  if id = 0 then st
  else { st with
    seen:=id::st.seen
    lastRank := if rank id ≠ 0 then rank id else st.lastRank }

def State.skipped (st : State) (id : UInt8) : State :=
  { st with o:={ st.o with
    anomalies:=st.o.anomalies ++
      ["unknown/future standard section id "++toString id.toNat++" skipped"] } }

def sectionTurn : Parser State := do
  let f ← frame
  let st := st.counted
  if f.id ≠ 0 ∧ f.id ∈ st.seen then failAt "duplicate WebAssembly standard section" f.offset
  else if f.id ≠ 0 ∧ rank f.id ≠ 0 ∧ rank f.id < st.lastRank then
    failAt "WebAssembly standard sections out of order" f.offset
  else if f.id ≠ 0 ∧ rank f.id = 0 then do
    moveTo f.stop
    return (st.marked f.id).skipped f.id
  else do
    let st ← within f.payload f.stop (consumed f (st.marked f.id))
    moveTo f.stop
    return st

def sectionsFrom : ℕ → State → Parser State
  | 0, st => return st
  | fuel+1, st => do
    let p ← position
    let stop ← spanEnd
    if p < stop then do
      let st ← sectionTurn st
      sectionsFrom fuel st
    else return st

def startsWith (n : Bytes) (s : String) : Bool := (bytes s).isPrefixOf n

def userName (n : Bytes) : Bool :=
  n ≠ [] && !(startsWith n "__" || startsWith n "_start" || startsWith n "emscripten_" ||
    startsWith n "dynCall_")

def importedFunction (i typeIndex : ℕ) : WasmFunction :=
  match o.imports.find? fun im => im.kind = .function ∧ im.index = i with
  | some im => { index:=i,imported:=true,typeIndex,importModule:=im.module,
                 importName:=im.name,name:=im.name }
  | none => {index:=i,imported:=true,typeIndex}

def definedFunction (i typeIndex : ℕ) (body : ℕ×ℕ) : WasmFunction :=
  {index:=i,typeIndex,codeOffset:=body.1,codeSize:=body.2}

def exportNames (index : ℕ) : List Bytes :=
  (o.exports.filter fun e => e.kind = .function ∧ e.index = index).map (·.name)

/-- A function with its names, its signature and whether it looks like the user's own. -/
def WasmFunction.named (f : WasmFunction) : WasmFunction :=
  let name := (st.fnames f.index).getD f.name
  let exports := exportNames st.o f.index
  let name := if name = [] then exports.headD name else name
  { f with
    name,exports,signature:=((st.o.types[f.typeIndex]?).map (·.signature)).getD f.signature
    userLike:=exports.any userName || (!f.imported && userName name) }

def functions : List WasmFunction :=
  ((st.importTypes.zipIdx.map fun (t,i) => importedFunction st.o (i % 2^32) t) ++
    ((st.definedTypes.zip st.bodies).zipIdx.map fun ((t,b),i) =>
      definedFunction ((st.importTypes.length+i) % 2^32) t b)).map (WasmFunction.named st)

/-- The start function, checked when there is one. -/
def withStart : Except Failure WasmInfo :=
  if o.hasStart then
    match o.functions[o.startFunctionIndex]? with
    | none => .error ⟨"WebAssembly start section references missing function index",o.startIndexOffset⟩
    | some sf =>
      let o := { o with
        startTypeIndex:=sf.typeIndex,startImported:=sf.imported,startName:=sf.name
        startSignature:=sf.signature,startCodeOffset:=sf.codeOffset,startCodeSize:=sf.codeSize
        startExports:=sf.exports,startExported:=sf.exports ≠ [] }
      if o.typeParseComplete then
        match o.types[sf.typeIndex]? with
        | none => .error ⟨"WebAssembly start function references missing type index",o.startIndexOffset⟩
        | some t =>
          if t.params ≠ [] ∨ t.results ≠ [] then
            .error ⟨"WebAssembly start function type must be ()->void",o.startIndexOffset⟩
          else .ok o
      else .ok o
  else .ok o

def WasmInfo.counted : WasmInfo :=
  {o with namedFunctionCount:=o.functions.countP fun f => f.name ≠ []}

def finish : Except Failure WasmInfo := do
  if st.definedTypes.length ≠ st.bodies.length then
    .error ⟨"WebAssembly function/code section count mismatch",8⟩
  else if st.o.hasDataCount ∧ st.o.dataCount ≠ st.o.dataSegments.length then
    .error ⟨"WebAssembly data count does not match data section",8⟩
  else
    let o ← withStart {st.o with functions:=functions st}
    let o := o.counted
    if o.typeParseComplete ∧ ∃ f ∈ o.functions, o.types.length ≤ f.typeIndex then
      .error ⟨"WebAssembly function references missing type index",8⟩
    else .ok {o with valid:=true}

def WasmInfo.failed (f : Failure) : WasmInfo :=
  {o with error:=f.error,errorOffset:=f.errorOffset}

/-- Each section takes a byte, so that the length bounds the turns. -/
def parseWasm (d : Bytes) : WasmInfo :=
  if d.take 4 ≠ [0,0x61,0x73,0x6d] then {}
  else
    let o : WasmInfo := {candidate:=true}
    if d.length < 8 then
      o.failed ⟨"WebAssembly magic present but version is truncated",4⟩
    else
      let version := (d.getD 4 0).toNat ||| ((d.getD 5 0).toNat <<< 8) |||
        ((d.getD 6 0).toNat <<< 16) ||| ((d.getD 7 0).toNat <<< 24)
      let o := {o with version}
      if version ≠ 1 then o.failed ⟨"unsupported WebAssembly binary version",4⟩
      else
        match sectionsFrom d.length { o } (Reader.over d 8 d.length) with
        | .error f => o.failed f
        | .ok (st,_) =>
          match finish st with
          | .error f => o.failed f
          | .ok o => o

end AutoRefirst.Wasm
