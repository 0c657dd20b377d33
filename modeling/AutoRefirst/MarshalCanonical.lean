import AutoRefirst.PythonMarshal
import Mathlib.Data.List.Sort

/-!
# The canonical form of a marshal stream

The canonical form writes an object as its kind and its content. Members of sets are
written on their own and sorted. A reference to an object that is still being written is
a marker. The function does not return on an object that contains itself through a set;
the fuel counts the calls that may be open at once.
-/

namespace AutoRefirst.PythonMarshal

/-- The value of the enumerator. -/
def K.number : K → UInt8
  | .nullTag => 0
  | .none => 1
  | .false => 2
  | .true => 3
  | .stopIter => 4
  | .ellipsis => 5
  | .int => 6
  | .long => 7
  | .float => 8
  | .complex => 9
  | .bytes => 10
  | .string => 11
  | .tuple => 12
  | .list => 13
  | .dict => 14
  | .set => 15
  | .frozenSet => 16
  | .slice => 17
  | .code => 18

def lowBytes : ℕ → ℕ → Bytes
  | 0, _ => []
  | n+1, v => (v % 256).toUInt8 :: lowBytes n (v/256)

def putU32 (v : ℤ) : Bytes := lowBytes 4 (v % 2^32).toNat

def putU64 (v : ℤ) : Bytes := lowBytes 8 (v % 2^64).toNat

def putBlob (b : Bytes) : Bytes := putU64 b.length ++ b

def byteLess : Bytes → Bytes → Bool
  | [], [] => false
  | [], _::_ => true
  | _::_, [] => false
  | a::as, b::bs => if a ≠ b then a < b else byteLess as bs

def sortBytes (xs : List Bytes) : List Bytes := xs.insertionSort fun a b => byteLess b a = false

/-- What the canonical form writes after the kind; `one` writes an object on its own, `sub`
writes it inside the objects that are being written. -/
def canonBody (sub one : Option ℕ→Option Bytes) (n : Node) : Option Bytes :=
  match n.k with
  | .int | .long => some (putU64 n.iv ++ putBlob n.blob)
  | .float | .complex | .bytes | .string => some (putBlob n.blob)
  | .tuple | .list | .slice => do
    let xs ← n.seq.mapM fun x => sub (some x)
    return putU64 n.seq.length ++ xs.flatten
  | .set | .frozenSet => do
    let xs ← n.seq.mapM fun x => one (some x)
    return putU64 n.seq.length ++ ((sortBytes xs).map putBlob).flatten
  | .dict => do
    let xs ← n.dict.mapM fun kv => do
      let k ← sub (some kv.1)
      let v ← sub (some kv.2)
      return k++v
    return putU64 n.dict.length ++ xs.flatten
  | .code => do
    let c ← n.code
    let common ← [c.code,c.consts,c.names].mapM sub
    let slots ←
      if c.varnames.isSome then [c.varnames,c.freevars,c.cellvars].mapM sub
      else [c.localsplusnames,c.localspluskinds].mapM sub
    let name ← sub c.name
    let qualname ← if c.qualname.isSome then [c.qualname].mapM sub else some []
    let exceptiontable ← if c.exceptiontable.isSome then [c.exceptiontable].mapM sub else some []
    return putU32 c.argcount ++ putU32 c.posonly ++ putU32 c.kwonly ++ putU32 c.nlocals ++
      putU32 c.stacksize ++ putU32 c.flags ++ common.flatten ++ slots.flatten ++ name ++
      qualname.flatten ++ exceptiontable.flatten
  | _ => some []

def canon (h : Heap) : ℕ → List ℕ → Option ℕ → Option Bytes
  | 0, _, _ => none
  | _+1, _, none => some [0xff]
  | fuel+1, active, some id =>
    if id ∈ active then some [0xfe]
    else do
      let n ← h[id]?
      let body ← canonBody (canon h fuel (id::active)) (canon h fuel []) n
      return n.k.number::body

def canonOne (fuel : ℕ) (h : Heap) (id : ℕ) : Option Bytes := canon h fuel [] (some id)

def minorFromVersion (v : ℤ) : ℤ := if v ≥ 300 then v % 100 else if v ≥ 30 then v % 10 else v

def readCode (d : Bytes) (version : ℤ) : Except Semantic (ℕ×Reader) :=
  let minor := minorFromVersion version
  if minor < 8 ∨ minor > 14 then
    .error {pythonMinor:=minor,error := "semantic marshal supports Python 3.8-3.14"}
  else match parseRoot .source d minor with
    | (none,r) => .error r.out
    | (some root,r) =>
      if (r.heap[root]?).map Node.k ≠ some .code then
        .error {r.out with error := "marshal root is not a code object",errorOffset:=0}
      else if r.p ≠ d.length then
        .error {r.out with error := "trailing bytes after root marshal object",errorOffset:=r.p}
      else .ok (root,r)

/-- `none` when the canonical form needs more fuel. Only the end of the function makes the
result valid. -/
def semanticHash (sha : Bytes→Bytes) (fuel : ℕ) (d : Bytes) (version : ℤ) : Option Semantic :=
  match readCode d version with
  | .error out => some {out with valid:=false}
  | .ok (root,r) => do
    let c ← canonOne fuel r.heap root
    return {r.out with sha256:=sha c,valid:=true}

end AutoRefirst.PythonMarshal
