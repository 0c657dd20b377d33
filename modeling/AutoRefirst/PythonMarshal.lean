import AutoRefirst.ByteText

/-!
# Reading marshal streams

The reader of Python marshal data. Objects live in a heap and are named by their position
there, since a stream can refer back to an object, also to one whose items are still being
read. An object is reserved before its content is read and filled afterwards.

Reads do not fail: without enough bytes they give zero and leave an error behind. The
reader keeps the list of the reads asked for, and a number that was written as text keeps
its texts; the source does neither.
-/

namespace AutoRefirst.PythonMarshal

inductive K
  | nullTag | none | false | true | stopIter | ellipsis | int | long | float | complex | bytes
  | string | tuple | list | dict | set | frozenSet | slice | code
  deriving DecidableEq

structure CodeData where
  (argcount posonly kwonly nlocals stacksize flags firstlineno : ℤ := 0)
  (code consts names varnames freevars cellvars localsplusnames localspluskinds filename name
    qualname linetable exceptiontable : Option ℕ := none)

structure Node where
  k : K
  iv : ℤ := 0
  blob : Bytes := []
  blobOffset : ℕ := 0
  seq : List ℕ := []
  dict : List (ℕ×ℕ) := []
  code : Option CodeData := none
  texts : List Bytes := []

abbrev Heap := List Node

structure CodeRange where
  (offset size : ℕ)
  (name filename qualname : Bytes)
  firstLine : ℤ

structure Semantic where
  valid : Bool := false
  pythonMinor : ℤ := 0
  sha256 : Bytes := []
  errorOffset : ℕ := 0
  error : String := ""
  (objectCount codeObjectCount : ℕ := 0)
  codeRanges : List CodeRange := []

structure Reader where
  d : Bytes
  p : ℕ := 0
  minor : ℤ
  refs : List ℕ := []
  heap : Heap := []
  out : Semantic := {}
  reads : List (ℕ×ℕ) := []

/-- A step gives an object or nothing, and the reader it leaves. -/
def ReadM (α : Type) : Type := Reader → Option α×Reader

instance : Monad ReadM where
  pure a := fun r => (some a,r)
  bind m f := fun r => match m r with
    | (some a,r) => f a r
    | (none,r) => (none,r)

/-- The first error stays. -/
def Reader.fail (r : Reader) (s : String) (at_ : ℕ) : Reader :=
  if r.out.error = "" then {r with out:={r.out with error:=s,errorOffset:=at_}} else r

def failAt {α : Type} (s : String) (at_ : ℕ) : ReadM α := fun r => (none,r.fail s at_)

def fail {α : Type} (s : String) : ReadM α := fun r => (none,r.fail s r.p)

def Reader.need (r : Reader) (n : ℕ) : Bool := n ≤ r.d.length - min r.p r.d.length

variable (n : ℕ)

/-- `need` with a return when the bytes are not there. -/
def check : ReadM Unit := fun r =>
  if r.need n then (some (),r) else (none,r.fail "marshal truncated" r.p)

/-- Reads `n` bytes; when they are not there, the result is empty and the position stays. -/
def readBytes : ReadM Bytes := fun r =>
  let r := {r with reads:=r.reads++[(r.p,n)]}
  if r.need n then (some ((r.d.drop r.p).take n),{r with p:=r.p+n})
  else (some [],r.fail "marshal truncated" r.p)

def littleEndian : Bytes → ℕ
  | [] => 0
  | b::bs => b.toNat + 256 * littleEndian bs

def toInt32 : ℤ := if n < 2^31 then n else (n : ℤ)-2^32

def u8 : ReadM ℕ := do
  let b ← readBytes 1
  return littleEndian b

def i32 : ReadM ℤ := do
  let b ← readBytes 4
  return toInt32 (littleEndian b)

def position : ReadM ℕ := fun r => (some r.p,r)

def room (s : String) : ReadM Unit := fun r =>
  if n > r.d.length-r.p then (none,r.fail s r.p) else (some (),r)

def reserveNode (k : K) (ref : Bool) : ReadM ℕ := fun r =>
  (some r.heap.length,{ r with
    heap:=r.heap++[{ k }]
    refs := if ref then r.refs++[r.heap.length] else r.refs
    out:={r.out with objectCount:=r.out.objectCount+1} })

def setNode (id : ℕ) (n : Node) : ReadM Unit := fun r =>
  (some (),{r with heap:=r.heap.set id n})

def withNode (k : K) (ref : Bool) (body : ReadM Node) : ReadM ℕ := do
  let id ← reserveNode k ref
  let n ← body
  setNode id {n with k:=k}
  return id

def countOk (n : ℤ) (minbytes : ℕ) : ReadM Unit :=
  if n < 0 ∨ n > 10000000 then fail "marshal container length unreasonable"
  else if minbytes ≠ 0 then room (n.toNat*minbytes) "marshal container exceeds input"
  else pure ()

def kindOf (id : ℕ) : ReadM K := fun r => (r.heap[id]?.map Node.k,r)

structure Fields where
  u8 : ReadM ℕ
  i32 : ReadM ℤ

/-- The source reads these fields without asking for their bytes first. -/
def Fields.source : Fields := ⟨PythonMarshal.u8,PythonMarshal.i32⟩

def scalar (k : K) (ref : Bool) : ReadM ℕ := withNode k ref (return { k })

/-- The bytes after a `need` for them. -/
def take : ReadM Bytes := do
  check n
  let b ← readBytes n
  return b

/-- A field after a `need` for it. -/
def ri : ReadM ℤ := do
  check 4
  i32

def intNode (ref : Bool) : ReadM ℕ := withNode .int ref do
  let v ← ri
  return {k:=.int,iv:=v}

def fixedNode (k : K) (n : ℕ) (ref : Bool) : ReadM ℕ := withNode k ref do
  let b ← take n
  return {k,blob:=b}

def longNode (ref : Bool) : ReadM ℕ := withNode .long ref do
  let sz ← ri
  let cnt := sz.natAbs
  if cnt > 10000000 then fail "marshal long digit count invalid"
  else
    room (cnt*2) "marshal long digit count invalid"
    let b ← readBytes (cnt*2)
    return {k:=.long,iv:=sz,blob:=b}

variable (f : Fields) (ref : Bool)

def floatNode : ReadM ℕ := withNode .float ref do
  let len ← f.u8
  let b ← take len
  return {k:=.float,blob:=b,texts:=[b]}

def complexNode : ReadM ℕ := withNode .complex ref do
  let a ← f.u8
  let x ← take a
  let b ← f.u8
  let y ← take b
  return {k:=.complex,blob:=x++0::y,texts:=[x,y]}

/-- The content of a string with a length of four bytes. -/
def stringBody (k : K) : ReadM Node := do
  let len ← f.i32
  countOk len 1
  let offset ← position
  let b ← readBytes len.toNat
  return {k,blobOffset:=offset,blob:=b}

def stringNode (k : K) (ref : Bool) : ReadM ℕ := withNode k ref (stringBody f k)

def shortNode : ReadM ℕ := withNode .string ref do
  let len ← f.u8
  check len
  let offset ← position
  let b ← readBytes len
  return {k:=.string,blobOffset:=offset,blob:=b}

def refAt (idx : ℤ) (tagoff : ℕ) : ReadM ℕ := fun r =>
  if idx < 0 then (none,r.fail "marshal reference index invalid" tagoff)
  else match r.refs[idx.toNat]? with
    | some id => (some id,r)
    | none => (none,r.fail "marshal reference index invalid" tagoff)

def refNode (tagoff : ℕ) (ref : Bool) : ReadM ℕ :=
  if ref then failAt "marshal TYPE_REF unexpectedly carries FLAG_REF" tagoff
  else do
    let idx ← f.i32
    refAt idx tagoff

def items (obj : ReadM ℕ) : ℕ → ReadM (List ℕ)
  | 0 => return []
  | n+1 => do
    let x ← obj
    let xs ← items obj n
    return x::xs

/-- The number of items: one byte in a small tuple, else four. -/
def itemCount (small : Bool) : ReadM ℤ :=
  if small then do
    let n ← f.u8
    return (n : ℤ)
  else f.i32

def seqNode (obj : ReadM ℕ) (k : K) (small ref : Bool) : ReadM ℕ :=
  withNode k ref do
    let len ← itemCount f small
    countOk len 0
    let xs ← items obj len.toNat
    return {k,seq:=xs}

/-- The items of a dictionary up to the null key; the argument bounds the rounds as the
source does. -/
def dictItems (obj : ReadM ℕ) : ℕ → ReadM (List (ℕ×ℕ))
  | 0 => fail "marshal dict too large"
  | n+1 => do
    let key ← obj
    let kind ← kindOf key
    if kind = .nullTag then return []
    else
      let value ← obj
      let rest ← dictItems obj n
      return (key,value)::rest

def dictNode (obj : ReadM ℕ) (ref : Bool) : ReadM ℕ := withNode .dict ref do
  let kvs ← dictItems obj 10000000
  return {k:=.dict,dict:=kvs}

def minorIs (p : ℤ→Bool) : ReadM Bool := fun r => (some (p r.minor),r)

def sliceNode (obj : ReadM ℕ) (tagoff : ℕ) (ref : Bool) : ReadM ℕ := do
  let old ← minorIs (· < 14)
  if old then failAt "marshal slice tag before Python 3.14" tagoff
  else withNode .slice ref do
    let xs ← items obj 3
    return {k:=.slice,seq:=xs}

def countCode : ReadM Unit := fun r =>
  (some (),{r with out:={r.out with codeObjectCount:=r.out.codeObjectCount+1}})

def text (h : Heap) (x : Option ℕ) : Bytes :=
  match x.bind (h[·]?) with
  | some n => if n.k = .string then n.blob else []
  | none => []

/-- The payload of a code object, unless the list has it already. -/
def addCodeRange (h : Heap) (c : CodeData) (ranges : List CodeRange) : List CodeRange :=
  match c.code.bind (h[·]?) with
  | none => ranges
  | some n =>
    if n.k ≠ .bytes then ranges
    else if ranges.any fun x => x.offset = n.blobOffset && x.size = n.blob.length then ranges
    else ranges++[{
      offset:=n.blobOffset,size:=n.blob.length,name:=text h c.name,filename:=text h c.filename
      qualname:=text h c.qualname,firstLine:=c.firstlineno }]

def recordCode (c : CodeData) : ReadM Unit := fun r =>
  (some (),{r with out:={r.out with codeRanges:=addCodeRange r.heap c r.out.codeRanges}})

/-- The fields of a code object up to Python 3.10. -/
def oldCode (obj : ReadM ℕ) (c : CodeData) : ReadM CodeData := do
  let nlocals ← ri
  let stacksize ← ri
  let flags ← ri
  let code ← obj
  let consts ← obj
  let names ← obj
  let varnames ← obj
  let freevars ← obj
  let cellvars ← obj
  let filename ← obj
  let name ← obj
  let firstlineno ← ri
  let linetable ← obj
  return { c with
    nlocals,stacksize,flags,firstlineno
    code:=some code,consts:=some consts,names:=some names,varnames:=some varnames
    freevars:=some freevars,cellvars:=some cellvars,filename:=some filename
    name:=some name,linetable:=some linetable }

/-- The fields of a code object from Python 3.11. -/
def newCode (obj : ReadM ℕ) (c : CodeData) : ReadM CodeData := do
  let stacksize ← ri
  let flags ← ri
  let code ← obj
  let consts ← obj
  let names ← obj
  let localsplusnames ← obj
  let localspluskinds ← obj
  let filename ← obj
  let name ← obj
  let qualname ← obj
  let firstlineno ← ri
  let linetable ← obj
  let exceptiontable ← obj
  return { c with
    stacksize,flags,firstlineno,code:=some code,consts:=some consts,names:=some names
    localsplusnames:=some localsplusnames,localspluskinds:=some localspluskinds
    filename:=some filename,name:=some name,qualname:=some qualname
    linetable:=some linetable,exceptiontable:=some exceptiontable }

def codeFields (obj : ReadM ℕ) (old : Bool) (c : CodeData) : ReadM CodeData :=
  if old then oldCode obj c else newCode obj c

def codeHead (obj : ReadM ℕ) : ReadM CodeData := do
  countCode
  let argcount ← ri
  let posonly ← ri
  let kwonly ← ri
  let old ← minorIs (· ≤ 10)
  codeFields obj old { argcount, posonly, kwonly }

def finishCode (c : CodeData) : ReadM Node := do
  recordCode c
  return {k:=.code,code:=some c}

def parseCode (obj : ReadM ℕ) (ref : Bool) : ReadM ℕ :=
  withNode .code ref (codeHead obj >>= finishCode)

def hexDigit (v : ℕ) : Char := "0123456789abcdef".toList.getD (v % 16) '0'

def unknownTag (t : ℕ) : String :=
  "unknown marshal tag 0x"++String.ofList [hexDigit (t/16),hexDigit t]

/-- The object after its tag byte. -/
def typed (obj : ReadM ℕ) (tagoff : ℕ) (ref : Bool) (t : ℕ) : ReadM ℕ :=
  if t = '0'.toNat then scalar .nullTag ref
  else if t = 'N'.toNat then scalar .none ref
  else if t = 'F'.toNat then scalar .false ref
  else if t = 'T'.toNat then scalar .true ref
  else if t = 'S'.toNat then scalar .stopIter ref
  else if t = '.'.toNat then scalar .ellipsis ref
  else if t = 'i'.toNat then intNode ref
  else if t = 'I'.toNat then fixedNode .int 8 ref
  else if t = 'l'.toNat then longNode ref
  else if t = 'f'.toNat then floatNode f ref
  else if t = 'g'.toNat then fixedNode .float 8 ref
  else if t = 'x'.toNat then complexNode f ref
  else if t = 'y'.toNat then fixedNode .complex 16 ref
  else if t = 's'.toNat then stringNode f .bytes ref
  else if t = 't'.toNat ∨ t = 'u'.toNat ∨ t = 'a'.toNat ∨ t = 'A'.toNat then stringNode f .string ref
  else if t = 'z'.toNat ∨ t = 'Z'.toNat then shortNode f ref
  else if t = 'r'.toNat then refNode f tagoff ref
  else if t = ')'.toNat then seqNode f obj .tuple true ref
  else if t = '('.toNat then seqNode f obj .tuple false ref
  else if t = '['.toNat then seqNode f obj .list false ref
  else if t = '<'.toNat then seqNode f obj .set false ref
  else if t = '>'.toNat then seqNode f obj .frozenSet false ref
  else if t = '{'.toNat then dictNode obj ref
  else if t = ':'.toNat then sliceNode obj tagoff ref
  else if t = 'c'.toNat then parseCode obj ref
  else failAt (unknownTag t) tagoff

def tagByte : ReadM ℕ := do
  check 1
  u8

/-- An object; the argument counts the levels of nesting that are still allowed. -/
def obj (f : Fields) : ℕ → ReadM ℕ
  | 0 => fail "marshal recursion depth exceeded"
  | levels+1 => do
    let tagoff ← position
    let tc ← tagByte
    typed f (obj f levels) tagoff (128 ≤ tc) (tc % 128)

/-- Nesting to a depth of 500 below the root. -/
def maxLevels : ℕ := 501

def start (d : Bytes) (minor : ℤ) : Reader := {d,minor,out:={pythonMinor:=minor}}

def parseRoot (d : Bytes) (minor : ℤ) : Option ℕ×Reader :=
  obj f maxLevels (start d minor)

end AutoRefirst.PythonMarshal
