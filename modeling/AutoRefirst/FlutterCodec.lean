import AutoRefirst.Utf8Copies

/-!
# The StandardMessageCodec decoder

The decoder of the asset manifest of Flutter, and the encoding of the format. The decoder asks for
padding in front of each number of more than one byte; the format has it in front of doubles and
of the elements of typed lists.
-/

namespace AutoRefirst.Flutter

/-- What is held apart from lists and maps, and what these hold: the entries of a list, or the
keys and values of a map in turn. -/
inductive Tree (σ : Type)
  | leaf (x : σ)
  | branch (map : Bool) (items : List (Tree σ))

inductive Typed
  | int32 | int64 | float64 | float32
  deriving DecidableEq

/-- A decoded value without parts; a double is held by its bits, and of a typed list there is
nothing but its kind. -/
inductive Scalar
  | null
  | boolean (b : Bool)
  | integer (i : ℤ)
  | double (bits : ℕ)
  | string (s : Bytes)
  | bytes (b : Bytes)
  | typed (t : Typed)
  | largeInteger (s : Bytes)
  deriving DecidableEq

abbrev Value := Tree Scalar

structure DecodeError where
  message : String
  offset : ℕ
  deriving DecidableEq

/-- What a decoder has done; what a failed one had done is dropped. -/
structure State where
  (pos nodes stringBytes : ℕ := 0)
  deriving DecidableEq

def kMaxNodes : ℕ := 1000000

def kMaxStringBytes : ℕ := 64*1024*1024

def kMaxDepth : ℕ := 64

abbrev Read := StateT State (Except DecodeError)

def fail {α : Type} (message : String) : Read α := fun s => .error ⟨message,s.pos⟩

def failAt {α : Type} (message : String) (offset : ℕ) : Read α := fun _ => .error ⟨message,offset⟩

def take (d : Bytes) (n : ℕ) (message : String) : Read Bytes := fun s =>
  if n ≤ d.length-s.pos then .ok ((d.drop s.pos).take n,{s with pos:=s.pos+n})
  else .error ⟨message,s.pos⟩

/-- The next multiple of `n`. -/
def aligned (n pos : ℕ) : ℕ := (pos+n-1)/n*n

variable (d : Bytes)

def align (n : ℕ) : Read Unit := fun s =>
  let next := aligned n s.pos
  if next > d.length then .error ⟨"truncated StandardMessageCodec alignment padding",s.pos⟩
  else match (List.range' s.pos (next-s.pos)).find? fun p => d.getD p 0 ≠ 0 with
    | some p => .error ⟨"nonzero StandardMessageCodec alignment padding",p⟩
    | none => .ok ((),{s with pos:=next})

def u8 : Read ℕ := do
  let b ← take d 1 "truncated StandardMessageCodec byte"
  return littleEndian b

def number (n : ℕ) (what : String) : Read ℕ := do
  align d n
  let b ← take d n ("truncated StandardMessageCodec "++what)
  return littleEndian b

def u16 : Read ℕ := number d 2 "uint16"

def u32 : Read ℕ := number d 4 "uint32"

def u64 : Read ℕ := number d 8 "uint64"

def size : Read ℕ := do
  let x ← u8 d
  if x < 254 then return x
  else if x = 254 then u16 d
  else u32 d

def toSigned (bits x : ℕ) : ℤ := if 2*x < 2^bits then x else (x : ℤ)-2^bits

/-- `std::isfinite` of a double with these bits. -/
def isFinite (bits : ℕ) : Bool := bits/2^52 % 2^11 ≠ 2^11-1

def string (d : Bytes) : Read Bytes := do
  let n ← size d
  let s ← get
  if n > kMaxStringBytes-s.stringBytes then fail "StandardMessageCodec string budget exceeded"
  else
    let out ← take d n "truncated StandardMessageCodec string"
    if Utf8Copies.flutterValidUtf8 out then
      modify fun s => {s with stringBytes:=s.stringBytes+n}
      return out
    else failAt "invalid UTF-8 in StandardMessageCodec string" s.pos

def Typed.width : Typed → ℕ
  | .int32 | .float32 => 4
  | .int64 | .float64 => 8

def typedList (t : Typed) : Read Scalar := do
  let n ← size d
  align d t.width
  let _ ← take d (n*t.width) "truncated StandardMessageCodec typed list"
  return .typed t

def double (d : Bytes) (tagOff : ℕ) : Read Scalar := do
  let x ← u64 d
  if isFinite x then return .double x else failAt "non-finite StandardMessageCodec double" tagOff

/-- The value after its tag, when it has no parts. -/
def scalar (tag tagOff : ℕ) : Read Scalar :=
  if tag = 0 then return .null
  else if tag = 1 then return .boolean true
  else if tag = 2 then return .boolean false
  else if tag = 3 then do return .integer (toSigned 32 (← u32 d))
  else if tag = 4 then do return .integer (toSigned 64 (← u64 d))
  else if tag = 5 then do return .largeInteger (← string d)
  else if tag = 6 then double d tagOff
  else if tag = 7 then do return .string (← string d)
  else if tag = 8 then do
    let n ← size d
    return .bytes (← take d n "truncated StandardMessageCodec uint8 list")
  else if tag = 9 then typedList d .int32
  else if tag = 10 then typedList d .int64
  else if tag = 11 then typedList d .float64
  else if tag = 14 then typedList d .float32
  else failAt "unknown StandardMessageCodec type tag" tagOff

def countNode : Read Unit := fun s =>
  let s := {s with nodes:=s.nodes+1}
  if s.nodes > kMaxNodes then .error ⟨"StandardMessageCodec node budget exceeded",s.pos⟩
  else .ok ((),s)

/-- The number of parts of a list or a map, within the budget. -/
def partCount (map : Bool) : Read ℕ := do
  let n ← size d
  let s ← get
  let parts := if map then n*2 else n
  if parts > kMaxNodes-s.nodes then
    fail (if map then "StandardMessageCodec map count exceeds node budget"
      else "StandardMessageCodec list count exceeds node budget")
  else return parts

def readItems (read : Read Value) : ℕ → Read (List Value)
  | 0 => return []
  | n+1 => do
    let v ← read
    let vs ← readItems read n
    return v::vs

def readValue (d : Bytes) : ℕ → Read Value
  | 0 => fail "StandardMessageCodec nesting depth exceeded"
  | levels+1 => do
    countNode
    let tagOff := (← get).pos
    let tag ← u8 d
    if tag = 12 ∨ tag = 13 then do
      let parts ← partCount d (tag = 13)
      let items ← readItems (readValue d levels) parts
      return .branch (tag = 13) items
    else return .leaf (← scalar d tag tagOff)

def decode : Except DecodeError (Value×State) :=
  match readValue d (kMaxDepth+1) {} with
  | .error e => .error e
  | .ok (v,s) =>
    if s.pos ≠ d.length then
      .error ⟨"trailing bytes after StandardMessageCodec value",s.pos⟩
    else .ok (v,s)

/-- A value to be encoded, without parts. -/
inductive Field
  | null
  | boolean (b : Bool)
  | int32 (i : ℤ)
  | int64 (i : ℤ)
  | double (bits : ℕ)
  | string (s : Bytes)
  | bytes (b : Bytes)
  | typed (t : Typed) (elements : List ℕ)

abbrev Message := Tree Field

/-- The low `n` bytes of a number. -/
def toBytes : ℕ → ℕ → Bytes
  | 0, _ => []
  | n+1, v => (v % 256).toUInt8 :: toBytes n (v/256)

/-- The padding up to the next multiple of `n`. -/
def padding (n pos : ℕ) : Bytes := List.replicate (aligned n pos - pos) 0

variable (strict : Bool)

def extra (n pos : ℕ) : Bytes := if strict then padding n pos else []

variable (pos : ℕ)

/-- A size, with a prefix of one of three widths. -/
def encodeSize (n : ℕ) : Bytes :=
  if n < 254 then [n.toUInt8]
  else if n < 2^16 then 254::(extra strict 2 (pos+1) ++ toBytes 2 n)
  else 255::(extra strict 4 (pos+1) ++ toBytes 4 n)

/-- Bytes after their number. -/
def encodeBytes (b : Bytes) : Bytes :=
  encodeSize strict pos b.length ++ b

def Typed.tag : Typed → UInt8
  | .int32 => 9
  | .int64 => 10
  | .float64 => 11
  | .float32 => 14

def encodeTyped (t : Typed) (elements : List ℕ) : Bytes :=
  let count := encodeSize strict pos elements.length
  count ++ (padding t.width (pos+count.length) ++ elements.flatMap (toBytes t.width))

/-- The encoding of a value at a position of the stream. -/
def Field.encode : Field → Bytes
  | .null => [0]
  | .boolean b => [if b then 1 else 2]
  | .int32 i => 3::(extra strict 4 (pos+1) ++ toBytes 4 (i % 2^32).toNat)
  | .int64 i => 4::(extra strict 8 (pos+1) ++ toBytes 8 (i % 2^64).toNat)
  | .double bits => 6::(padding 8 (pos+1) ++ toBytes 8 bits)
  | .string s => 7 :: encodeBytes strict (pos+1) s
  | .bytes b => 8 :: encodeBytes strict (pos+1) b
  | .typed t elements => t.tag :: encodeTyped strict (pos+1) t elements

def entryCount (map : Bool) (items : List Message) : ℕ :=
  if map then items.length/2 else items.length

mutual

def Tree.encode (strict : Bool) (pos : ℕ) : Message → Bytes
  | .leaf x => x.encode strict pos
  | .branch map items =>
    let head := (if map then 13 else 12) :: encodeSize strict (pos+1) (entryCount map items)
    head ++ Tree.encodeAll strict (pos+head.length) items

def Tree.encodeAll (strict : Bool) (pos : ℕ) : List Message → Bytes
  | [] => []
  | v::vs => v.encode strict pos ++ Tree.encodeAll strict (pos+(v.encode strict pos).length) vs

end

/-- What the decoder gives of a value. -/
def Field.decoded : Field → Scalar
  | .null => .null
  | .boolean b => .boolean b
  | .int32 i => .integer i
  | .int64 i => .integer i
  | .double bits => .double bits
  | .string s => .string s
  | .bytes b => .bytes b
  | .typed t _ => .typed t

mutual

def Tree.decoded : Message → Value
  | .leaf x => .leaf x.decoded
  | .branch map items => .branch map (Tree.decodedAll items)

def Tree.decodedAll : List Message → List Value
  | [] => []
  | v::vs => v.decoded :: Tree.decodedAll vs

end

/-- The values of the format: numbers of their widths, and text. -/
def Field.Formed : Field → Prop
  | .null | .boolean _ => True
  | .int32 i => -2^31 ≤ i ∧ i < 2^31
  | .int64 i => -2^63 ≤ i ∧ i < 2^63
  | .double bits => bits < 2^64 ∧ isFinite bits = true
  | .string s => Utf8Copies.WellFormed s
  | .bytes b => b.length < 2^32
  | .typed t elements => elements.length < 2^32 ∧ ∀ x ∈ elements, x < 2^(8*t.width)

def Field.stringBytes : Field → ℕ
  | .string s => s.length
  | _ => 0

/-- A value of at most so many levels. -/
inductive Formed : ℕ → Message → Prop
  | leaf {levels : ℕ} {x : Field} : x.Formed → Formed (levels+1) (.leaf x)
  | branch {levels : ℕ} {map : Bool} {items : List Message} : (map=true → items.length % 2 = 0) →
      (∀ v∈items, Formed levels v) → Formed (levels+1) (.branch map items)

mutual

def Tree.nodes : Message → ℕ
  | .leaf _ => 1
  | .branch _ items => 1 + Tree.nodesAll items

def Tree.nodesAll : List Message → ℕ
  | [] => 0
  | v::vs => v.nodes + Tree.nodesAll vs

end

mutual

def Tree.stringBytes : Message → ℕ
  | .leaf x => x.stringBytes
  | .branch _ items => Tree.stringBytesAll items

def Tree.stringBytesAll : List Message → ℕ
  | [] => 0
  | v::vs => v.stringBytes + Tree.stringBytesAll vs

end

end AutoRefirst.Flutter
