import AutoRefirst.ByteText

/-!
# Lua chunks

The reader of Lua bytecode from 5.1 to 5.5. A read without its bytes gives zero and leaves an
error, the first of which stays. Beside what the source keeps, the reader keeps the counted vectors
that passed their checks and the number of rounds that its loops finished before the first error.
-/

namespace AutoRefirst.Lua

structure Instruction where
  (pc raw : ℕ)
  (opcode a b c bx : ℕ := 0)

/-- A constant; a floating number is held by its width and its bits. -/
inductive Constant
  | nil
  | boolean (b : Bool)
  | integer (v : ℤ)
  | float (size bits : ℕ)
  | string (s : Bytes)

structure Proto where
  path : String
  source : Bytes := []
  (lineDefined lastLineDefined numParams varargOrFlags maxStack : ℕ := 0)
  instructions : List Instruction := []
  constants : List Constant := []
  (localNames upvalueNames : List Bytes := [])

/-- The version and the widths that the header of a chunk declares. -/
structure Header where
  ver : ℕ
  le : Bool := true
  (intSize sizeTSize instructionSize integerSize numberSize : ℕ := 0)

structure Vector where
  (pos count size : ℕ)

structure State where
  p : ℕ := 0
  error : Option (String×ℕ) := none
  savedStrings : List Bytes := []
  modifiedHeader : Bool := false
  protos : List Proto := []
  vectors : List Vector := []
  rounds : ℕ := 0

/-- A step gives a result or nothing, and the state it leaves. -/
def Step (α : Type) : Type := State → Option α×State

instance : Monad Step where
  pure a := fun s => (some a,s)
  bind m f := fun s => match m s with
    | (some a,s) => f a s
    | (none,s) => (none,s)

/-- The first error stays. -/
def State.fail (s : State) (message : String) : State :=
  match s.error with
  | none => {s with error:=some (message,s.p)}
  | some _ => s

def fail {α : Type} (message : String) : Step α := fun s => (none,s.fail message)

/-- An error with which the source goes on. -/
def note (message : String) : Step Unit := fun s => (some (),s.fail message)

def need (d : Bytes) (n : ℕ) : Step Bool := fun s =>
  if n ≤ d.length - min s.p d.length then (some true,s)
  else (some false,s.fail "truncated chunk")

def checkError : Step Unit := fun s => (if s.error.isNone then some () else none,s)

def littleEndian : Bytes → ℕ
  | [] => 0
  | b::bs => b.toNat + 256 * littleEndian bs

def bigEndian (b : Bytes) : ℕ := littleEndian b.reverse

def advance (d : Bytes) (n : ℕ) : Step Bytes := fun s =>
  (some ((d.drop s.p).take n),{s with p:=s.p+n})

def b (d : Bytes) : Step ℕ := do
  let there ← need d 1
  if there then do
    let x ← advance d 1
    return littleEndian x
  else return 0

def rawu (d : Bytes) (le : Bool) (n : ℕ) : Step ℕ := do
  let there ← need d n
  if there = false ∨ n > 8 then return 0
  else do
    let x ← advance d n
    return if le then littleEndian x else bigEndian x

/-- A number of at most eight bytes with its sign. -/
def raws (d : Bytes) (le : Bool) (n : ℕ) : Step ℤ := do
  let v ← rawu d le n
  return if n ≠ 0 ∧ 2^(8*n-1) ≤ v then (v : ℤ)-2^(8*n) else v

/-- The bits of a floating number. -/
def number (d : Bytes) (le : Bool) (n : ℕ) : Step ℕ := do
  let there ← need d n
  if there = false then return 0
  else if n = 8 ∨ n = 4 then rawu d le n
  else do
    note "unsupported lua_Number size"
    return 0

/-- Groups of seven bits, highest first, of which `last` tells the end. -/
def varint (d : Bytes) (last : ℕ→Bool) (unterminated : String) : ℕ → ℕ → Step ℕ
  | 0, _ => fail unterminated
  | n+1, x => do
    let z ← b d
    checkError
    if x > (2^64-1)/2^7 then fail "varint overflow"
    else
      let x := x*2^7 + z % 128
      if last z then return x else varint d last unterminated n x

def var54 (d : Bytes) : Step ℕ :=
  varint d (fun z => 128 ≤ z) "unterminated Lua 5.4 varint" 10 0

def var55 (d : Bytes) : Step ℕ :=
  varint d (fun z => z < 128) "unterminated Lua 5.5 varint" 10 0

variable (h : Header) (d : Bytes)

def count : Step ℕ :=
  if h.ver ≤ 53 then rawu d h.le h.intSize
  else if h.ver = 54 then var54 d
  else var55 d

def align (n : ℕ) : Step Unit := fun s =>
  if n ≤ 1 then (some (),s)
  else
    let pad := (n - s.p % n) % n
    if pad ≤ d.length - min s.p d.length then (some (),{s with p:=s.p+pad})
    else (none,s.fail "truncated chunk")

/-- A string of `n` bytes, of which the first `kept` are its text; `length` is what the limit is
for. -/
def text (n kept length : ℕ) : Step Bytes := fun s =>
  if n > d.length-s.p ∨ length > 2^31 then (none,s.fail "string length out of range")
  else (some ((d.drop s.p).take kept),{s with p:=s.p+n})

/-- In 5.1 and 5.2 the length counts a terminator, which is there. -/
def str52 : Step Bytes := do
  let n ← rawu d h.le h.sizeTSize
  if n = 0 then return [] else text d n (n-1) n

/-- A length that does not fit the byte stands behind it. -/
def longLength (n : ℕ) : Step ℕ :=
  if n = 0xff then rawu d h.le h.sizeTSize else return n

def str53 : Step Bytes := do
  let n ← b d
  let n ← longLength h d n
  if n = 0 then return [] else text d (n-1) (n-1) (n-1)

def str54 : Step Bytes := do
  let n ← var54 d
  if n = 0 then return [] else text d (n-1) (n-1) (n-1)

def savedString (index : ℕ) : Step Bytes := fun s =>
  if index > s.savedStrings.length then (none,s.fail "invalid Lua 5.5 saved-string index")
  else (some (s.savedStrings.getD (index-1) []),s)

def saveString (t : Bytes) : Step Unit := fun s =>
  (some (),{s with savedStrings:=s.savedStrings++[t]})

def str55 : Step Bytes := do
  let n ← var55 d
  if n = 0 then
    let index ← var55 d
    if index = 0 then return [] else savedString index
  else
    let t ← text d n (n-1) (n-1)
    saveString t
    return t

def str : Step Bytes :=
  if h.ver ≤ 52 then str52 h d
  else if h.ver = 53 then str53 h d
  else if h.ver = 54 then str54 d
  else str55 d

/-- A product as the machine has it. -/
def mul64 (x y : ℕ) : ℕ := x*y % 2^64

def checkVector (count size bytes : ℕ) (message : String) : Step Unit := fun s =>
  if bytes > d.length-s.p then (none,s.fail message)
  else (some (),{s with vectors:=s.vectors++[⟨s.p,count,size⟩]})

def skipVector (count size bytes : ℕ) (message : String) : Step Unit := do
  checkVector d count size bytes message
  let _ ← advance d bytes
  return ()

def round : Step Unit := fun s =>
  (some (),if s.error.isNone then {s with rounds:=s.rounds+1} else s)

def loop {α : Type} (body : ℕ→Step α) (i : ℕ) : ℕ → Step (List α)
  | 0 => return []
  | n+1 => do
    let x ← body i
    round
    let xs ← loop body (i+1) n
    return x::xs

/-- The number of named opcodes of a version. -/
def opcodeCount (ver : ℕ) : ℕ :=
  if ver = 51 then 38 else if ver = 52 then 40 else if ver = 53 then 47
  else if ver = 54 then 83 else if ver = 55 then 85 else 0

def fields (pc raw : ℕ) : Instruction :=
  if h.ver ≤ 53 then {
    pc,raw,opcode:=raw % 2^6,a:=raw/2^6 % 2^8,c:=raw/2^14 % 2^9,b:=raw/2^23 % 2^9
    bx:=raw/2^14 % 2^18 }
  else {
    pc,raw,opcode:=raw % 2^7,a:=raw/2^7 % 2^8,b:=raw/2^16 % 2^8,c:=raw/2^24 % 2^8
    bx:=raw/2^15 % 2^17 }

def markModified : Step Unit := fun s => (some (),{s with modifiedHeader:=true})

def instruction (pc : ℕ) : Step Instruction := do
  let raw ← rawu d h.le h.instructionSize
  let raw := raw % 2^32
  if h.instructionSize = 4 then
    let x := fields h pc raw
    if x.opcode < opcodeCount h.ver then return x
    else
      markModified
      return x
  else return { pc, raw }

def alignCode : Step Unit :=
  if h.ver = 55 then align d h.instructionSize else return ()

def readCode : Step (List Instruction) := do
  let n ← count h d
  if n > 2000000 then fail "instruction count too large"
  else
    alignCode h d
    checkVector d n h.instructionSize (mul64 n h.instructionSize) "instruction vector out of range"
    let xs ← loop (instruction h d) 0 n
    checkError
    return xs

def zigzag (u : ℕ) : ℤ := if u % 2 = 1 then -(u/2 : ℕ)-1 else (u/2 : ℕ)

def float (h : Header) (d : Bytes) : Step Constant := do
  let bits ← number d h.le h.numberSize
  return .float h.numberSize bits

def integer (h : Header) (d : Bytes) : Step Constant := do
  let v ← raws d h.le h.integerSize
  return .integer v

def constant (h : Header) (d : Bytes) (_ : ℕ) : Step Constant := do
  let t ← b d
  checkError
  if t = 0 then return .nil
  else if t = 1 then
    if h.ver ≤ 53 then
      let bv ← b d
      return .boolean (bv ≠ 0)
    else return .boolean false
  else if t = 17 then return .boolean true
  else if t = 3 then
    if h.ver = 55 then
      let u ← var55 d
      return .integer (zigzag u)
    else if h.ver ≥ 54 then integer h d
    else float h d
  else if t = 19 then
    if h.ver ≥ 54 then float h d else integer h d
  else if t = 4 ∨ t = 20 then
    let s ← str h d
    return .string s
  else fail ("unknown/modified constant tag "++toString t)

def readConstants : Step (List Constant) := do
  let n ← count h d
  if n > 1000000 then fail "constant count too large"
  else loop (constant h d) 0 n

def sourceOf (s : Bytes) (parentSource : Option Bytes) : Bytes :=
  if s = [] then parentSource.getD s else s

variable (p : Proto)

/-- Two line numbers as the versions up to 5.3 write them. -/
def fixedLines : Step Proto := do
  let first ← rawu d h.le h.intSize
  let last ← rawu d h.le h.intSize
  return {p with lineDefined:=first % 2^32,lastLineDefined:=last % 2^32}

def variableLines : Step Proto := do
  let first ← count h d
  let last ← count h d
  if first > 2^32-1 ∨ last > 2^32-1 then fail "line number exceeds supported range"
  else return {p with lineDefined:=first,lastLineDefined:=last}

def stackFields : Step Proto := do
  let numParams ← b d
  let varargOrFlags ← b d
  let maxStack ← b d
  return {p with numParams,varargOrFlags,maxStack}

def firstSource (path : String) (parentSource : Option Bytes) : Step Proto := do
  let s ← str h d
  return {path,source:=sourceOf s parentSource}

/-- The fields of a prototype in front of its code. -/
def protoHead (path : String) (parentSource : Option Bytes) : Step Proto :=
  if h.ver = 51 then do
    let p ← firstSource h d path parentSource
    let p ← fixedLines h d p
    let _ ← b d
    stackFields d p
  else if h.ver = 52 then do
    let p ← fixedLines h d { path }
    stackFields d p
  else if h.ver = 53 then do
    let p ← firstSource h d path parentSource
    let p ← fixedLines h d p
    stackFields d p
  else if h.ver = 54 then do
    let p ← firstSource h d path parentSource
    let p ← variableLines h d p
    stackFields d p
  else do
    let p ← variableLines h d { path }
    stackFields d p

def upvalueKind : Step Unit :=
  if h.ver ≥ 54 then do
    let _ ← b d
    return ()
  else return ()

def upvalue (_ : ℕ) : Step Unit := do
  let _ ← b d
  let _ ← b d
  upvalueKind h d

/-- The descriptions of the upvalues, and how many there are. -/
def upvalues : Step ℕ := do
  let n ← count h d
  if n > 100000 then fail "upvalue count too large"
  else
    let _ ← loop (upvalue h d) 0 n
    return n

/-- The nested prototypes; `bounded` says whether the version bounds their number. -/
def nested (bounded : Bool) (read : ℕ→Step Unit) : Step Unit := do
  let n ← count h d
  if bounded ∧ n > 100000 then fail "prototype count too large"
  else
    let _ ← loop read 0 n
    return ()

def names (n : ℕ) : Step (List Bytes) := loop (fun _ => str h d) 0 n

/-- A local variable: its name and the two ends of its range. -/
def localName (_ : ℕ) : Step Bytes := do
  let name ← str h d
  let _ ← count h d
  let _ ← count h d
  return name

def locals : Step Proto := do
  let n ← count h d
  let localNames ← loop (localName h d) 0 n
  return {p with localNames}

/-- The debug data of the versions up to 5.3. -/
def debug53 : Step Proto := do
  let n ← count h d
  skipVector d n h.intSize (mul64 n h.intSize) "lineinfo out of range"
  let p ← locals h d p
  let n ← count h d
  let upvalueNames ← names h d n
  return {p with upvalueNames}

def twoCounts (_ : ℕ) : Step Unit := do
  let _ ← count h d
  let _ ← count h d
  return ()

def optionalNames (upn : ℕ) : Step (List Bytes) := do
  let n ← count h d
  if n = 0 then return [] else names h d upn

/-- The absolute line numbers of 5.5. -/
def abslineinfo (h : Header) (d : Bytes) (n : ℕ) : Step Unit :=
  if n ≠ 0 then do
    align d h.intSize
    skipVector d n (2*h.intSize) (mul64 (mul64 n 2) h.intSize) "abslineinfo out of range"
  else return ()

def debug54 (upn : ℕ) (p : Proto) : Step Proto := do
  let n ← count h d
  skipVector d n 1 n "lineinfo out of range"
  let n ← count h d
  let _ ← loop (twoCounts h d) 0 n
  let p ← locals h d p
  let upvalueNames ← optionalNames h d upn
  return {p with upvalueNames}

def debug55 (upn : ℕ) (p : Proto) : Step Proto := do
  let n ← count h d
  skipVector d n 1 n "lineinfo out of range"
  let n ← count h d
  abslineinfo h d n
  let p ← locals h d p
  let upvalueNames ← optionalNames h d upn
  return {p with upvalueNames}

/-- The parts of a prototype behind its constants, with the nested ones. -/
def protoTail (read : ℕ→Step Unit) : Step Proto :=
  if h.ver = 51 then do
    nested h d false read
    debug53 h d p
  else if h.ver = 52 then do
    nested h d true read
    let _ ← upvalues h d
    let s ← str h d
    debug53 h d {p with source:=s}
  else if h.ver = 53 then do
    let _ ← upvalues h d
    nested h d true read
    debug53 h d p
  else if h.ver = 54 then do
    let upn ← upvalues h d
    nested h d true read
    debug54 h d upn p
  else do
    let upn ← upvalues h d
    nested h d true read
    let s ← str h d
    debug55 h d upn {p with source:=s}

def addProto : Step Unit := fun s => (some (),{s with protos:=s.protos++[p]})

def readProto (h : Header) (d : Bytes) : ℕ → String → Option Bytes → Step Unit
  | 0, _, _ => fail "prototype nesting too deep"
  | levels+1, path, parentSource => do
    let p ← protoHead h d path parentSource
    let instructions ← readCode h d
    let constants ← readConstants h d
    let p := {p with instructions,constants}
    let p ← protoTail h d p fun i =>
      readProto h d levels (path++"."++toString i) (some p.source)
    addProto p
    checkError

def luaMagic : Bytes := [0x1b,76,117,97]

def luacData : Bytes := [0x19,0x93,13,10,0x1a,10]

def lit (want : Bytes) : Step Unit := fun s =>
  if want.length > d.length - min s.p d.length then (none,s.fail "truncated chunk")
  else if (d.drop s.p).take want.length ≠ want then (none,s.fail "header literal mismatch")
  else (some (),{s with p:=s.p+want.length})

/-- From 5.2 there is a text behind the widths. -/
def litData (ver : ℕ) : Step Unit := if ver = 52 then lit d luacData else return ()

def header52 (ver : ℕ) : Step Header := do
  let order ← b d
  let intSize ← b d
  let sizeTSize ← b d
  let instructionSize ← b d
  let numberSize ← b d
  let integral ← b d
  litData d ver
  if intSize < 2 ∨ intSize > 8 ∨ sizeTSize < 4 ∨ sizeTSize > 8 ∨ instructionSize ≠ 4 ∨
      (numberSize ≠ 4 ∧ numberSize ≠ 8) ∨ integral > 1 then
    fail "incompatible Lua 5.1/5.2 header sizes"
  else return {
    ver,le:=order ≠ 0,intSize,sizeTSize,instructionSize,integerSize:=numberSize,numberSize }

/-- The marker as a number of the one order, and at the same place of the other. -/
def byteOrder (integerSize : ℕ) : Step Bool := fun s =>
  match rawu d true integerSize s with
  | (some v,s₁) =>
    if v = 0x5678 then (some true,s₁)
    else match rawu d false integerSize {s₁ with p:=s.p} with
      | (some v,s₂) =>
        if v = 0x5678 then (some false,s₂)
        else (none,s₂.fail "Lua 5.3 integer/endianness marker mismatch")
      | (none,s₂) => (none,s₂)
  | (none,s₁) => (none,s₁)

def header53 : Step Header := do
  lit d luacData
  let intSize ← b d
  let sizeTSize ← b d
  let instructionSize ← b d
  let integerSize ← b d
  let numberSize ← b d
  if intSize < 2 ∨ intSize > 8 ∨ sizeTSize < 4 ∨ sizeTSize > 8 ∨ instructionSize ≠ 4 ∨
      integerSize > 8 ∨ numberSize > 8 then
    fail "invalid Lua 5.3 size header"
  else do
    let le ← byteOrder d integerSize
    let _ ← number d le numberSize
    return {ver:=53,le,intSize,sizeTSize,instructionSize,integerSize,numberSize}

def header54 : Step Header := do
  lit d luacData
  let instructionSize ← b d
  let integerSize ← b d
  let numberSize ← b d
  if instructionSize ≠ 4 ∨ integerSize > 8 ∨ numberSize > 8 then
    fail "invalid Lua 5.4 size header"
  else do
    let marker ← rawu d true integerSize
    if marker ≠ 0x5678 then fail "Lua 5.4 integer marker mismatch"
    else do
      let _ ← number d true numberSize
      return {ver:=54,intSize:=4,instructionSize,integerSize,numberSize}

variable (isMarker : ℕ→ℕ→Bool)

/-- `isMarker` tells whether a floating number of a width and of some bits is the marker. -/
def header55 (d : Bytes) : Step Header := do
  lit d luacData
  let intSize ← b d
  if intSize < 2 ∨ intSize > 8 then fail "Lua 5.5 int size invalid"
  else do
    let v ← raws d true intSize
    if v ≠ -0x5678 then fail "Lua 5.5 int marker mismatch"
    else do
      let instructionSize ← b d
      if instructionSize ≠ 4 then fail "Lua 5.5 instruction marker mismatch"
      else do
        let v ← rawu d true instructionSize
        if v ≠ 0x12345678 then fail "Lua 5.5 instruction marker mismatch"
        else do
          let integerSize ← b d
          if integerSize > 8 then fail "Lua 5.5 integer marker mismatch"
          else do
            let v ← raws d true integerSize
            if v ≠ -0x5678 then fail "Lua 5.5 integer marker mismatch"
            else do
              let numberSize ← b d
              if numberSize ≠ 4 ∧ numberSize ≠ 8 then fail "Lua 5.5 number size invalid"
              else do
                let bits ← number d true numberSize
                if isMarker numberSize bits then
                  return {ver:=55,intSize,instructionSize,integerSize,numberSize}
                else fail "Lua 5.5 float marker mismatch"

/-- The header behind its magic. -/
def parseHeader (d : Bytes) : Step Header := do
  let version ← b d
  let format ← b d
  if format ≠ 0 then fail "nonstandard Lua chunk format"
  else
    let minor := version % 16
    if version/16 ≠ 5 ∨ minor < 1 ∨ minor > 5 then fail "unsupported Lua version byte"
    else if minor ≤ 2 then header52 d (50+minor)
    else if minor = 3 then header53 d
    else if minor = 4 then header54 d
    else header55 isMarker d

structure Info where
  (valid modifiedHeader : Bool := false)
  header : Option Header := none
  parsedBytes : ℕ := 0
  protos : List Proto := []
  error : Option (String×ℕ) := none
  vectors : List Vector := []
  rounds : ℕ := 0

/-- Nesting to a depth of 256 below the first prototype. -/
def maxLevels : ℕ := 257

def Info.of (s : State) (header : Option Header) : Info :=
  { modifiedHeader:=s.modifiedHeader,header,protos:=s.protos,error:=s.error
    vectors:=s.vectors,rounds:=s.rounds }

/-- The number of the upvalues of the first prototype, which a chunk has from 5.3. -/
def mainUpvalues : Step Unit :=
  if h.ver ≥ 53 then do
    let _ ← b d
    return ()
  else return ()

def parseProtos : Step Unit := do
  mainUpvalues h d
  readProto h d maxLevels "0" none

def parseLuac (d : Bytes) : Info :=
  if d.length < 6 ∨ d.take 4 ≠ luaMagic then {error:=some ("not a Lua binary chunk",0)}
  else match parseHeader isMarker d {p:=4} with
    | (none,s) => .of s none
    | (some h,s) => match parseProtos h d s with
      | (none,s) => .of s (some h)
      | (some (),s) =>
        { Info.of s (some h) with
          parsedBytes:=s.p,valid:=s.error.isNone ∧ s.protos ≠ []
          modifiedHeader:=s.modifiedHeader ∨ s.p < d.length }

end AutoRefirst.Lua
