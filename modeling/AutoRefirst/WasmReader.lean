import AutoRefirst.SpanReader
import AutoRefirst.Utf8Check
import Mathlib.Data.Nat.Bitwise

/-!
# The reader of WebAssembly modules

Numbers, names and types, each beside the grammar of the bytes it is spelled by.
-/

namespace AutoRefirst.Wasm
open SpanReader

def need (n : ℕ) : Parser Unit := SpanReader.need "WebAssembly structure truncated" n

def byte : Parser UInt8 := do
  need 1
  let v ← take 1
  return v.headD 0

/-- An unsigned LEB128 of at most `i + k` bytes; its last byte may not set a bit of `spare`. -/
def lebFrom (type : String) (last : ℕ) (spare : UInt8) : ℕ → ℕ → ℕ → Parser ℕ
  | 0, _, _ => fail (type++" LEB128 too long")
  | k+1, i, v => do
    let b ← byte
    if i = last ∧ b &&& spare ≠ 0 then fail (type++" LEB128 overflow")
    else
      let v := v ||| ((b &&& 0x7f).toNat <<< (7*i))
      if b &&& 0x80 = 0 then return v else lebFrom type last spare k (i+1) v

def u32 : Parser ℕ := lebFrom "u32" 4 0xf0 5 0 0

def u64 : Parser ℕ := lebFrom "u64" 9 0xfe 10 0 0

def s64From : ℕ → ℕ → UInt64 → Parser ℤ
  | 0, _, _ => fail "signed LEB128 too long"
  | k+1, shift, x => do
    let b ← byte
    let payload := (b &&& 0x7f).toUInt64
    let x := if shift < 64 then x ||| (payload <<< shift.toUInt64) else x
    let shift := shift+7
    if b &&& 0x80 = 0 then
      let x := if shift < 64 ∧ b &&& 0x40 ≠ 0 then x ||| ((~~~ 0) <<< shift.toUInt64) else x
      return x.toInt64.toInt
    else s64From k shift x

def s64 (bits : ℕ) : Parser ℤ := s64From ((bits+6)/7) 0 0

def utf8Ok (s : Bytes) : Bool := isUtf8 s

def name : Parser Bytes := do
  let n ← u32
  let out ← takeLeft "WebAssembly name length out of bounds" n
  require (utf8Ok out = true) "WebAssembly name is not valid UTF-8"
  return out

def joinTypes (v : List String) : String := ",".intercalate v

def signature (p q : List String) : String :=
  "("++joinTypes p++")->" ++
    (match q with
      | [] => "void"
      | [t] => t
      | _ => "("++joinTypes q++")")

/-- The value types of one byte. -/
def plainType (b : UInt8) : Option String :=
  if b = 0x7f then some "i32" else if b = 0x7e then some "i64"
  else if b = 0x7d then some "f32" else if b = 0x7c then some "f64"
  else if b = 0x7b then some "v128" else if b = 0x70 then some "funcref"
  else if b = 0x6f then some "externref" else if b = 0x6e then some "anyref"
  else if b = 0x6d then some "eqref" else if b = 0x6c then some "i31ref"
  else if b = 0x6b then some "structref" else if b = 0x6a then some "arrayref"
  else if b = 0x69 then some "exnref" else if b = 0x71 then some "noneref"
  else if b = 0x72 then some "noexternref" else if b = 0x73 then some "nofuncref"
  else if b = 0x74 then some "noexnref" else none

/-- `std::hex` of a number. -/
def hex (n : ℕ) : String := String.ofList (Nat.toDigits 16 n)

def valtype : Parser String := do
  let b ← byte
  match plainType b with
  | some t => return t
  | none =>
    if b = 0x64 ∨ b = 0x63 then
      let ht ← s64 33
      return (if b = 0x63 then "ref null " else "ref ") ++ toString ht
    else fail ("unsupported WebAssembly value type 0x"++hex b.toNat)

def vecTypes : Parser (List String) := do
  let n ← u32
  require (n ≤ 1000000) "WebAssembly type vector count unreasonable"
  times n 0 [] fun _ v => do
    let t ← valtype
    return v++[t]

def limits : Parser Unit := do
  let flags ← byte
  require (flags = 0 ∨ flags = 1 ∨ flags = 4 ∨ flags = 5) "unsupported WebAssembly limits flags"
  let _ ← u64
  if flags &&& 1 ≠ 0 then
    let _ ← u64
    return ()
  else return ()

def tableType : Parser Unit := do
  let _ ← valtype
  limits

def memoryType : Parser Unit := limits

def globalType : Parser Unit := do
  let _ ← valtype
  let mut_ ← byte
  require (mut_ ≤ 1) "invalid WebAssembly global mutability"

def tagType : Parser Unit := do
  let attr ← byte
  let _ ← u32
  require (attr = 0) "unsupported WebAssembly tag attribute"

/-- Base-128 digits, the lowest first; all but the last have the high bit. -/
inductive Leb (d : Bytes) : ℕ → ℕ → ℕ → Prop
  | last {a : ℕ} {x : UInt8} : d[a]? = some x → x.toNat<128 → Leb d a (a+1) x.toNat
  | more {a b v : ℕ} {x : UInt8} : d[a]? = some x → 128≤x.toNat → Leb d (a+1) b v →
      Leb d a b (x.toNat-128+128*v)

def Byte : Grammar UInt8 := fun d a b v => b = a+1 ∧ d[a]? = some v

/-- A number below `2 ^ bits` in at most `max` digits. -/
def Unsigned (bits max : ℕ) : Grammar ℕ := fun d a b v =>
  Leb d a b v ∧ b ≤ a+max ∧ v < 2^bits

abbrev U32 : Grammar ℕ := Unsigned 32 5

/-- Digits of a signed number; how they make the number is left open. -/
def Signed (bits : ℕ) : Grammar ℤ := fun d a b _ => (∃ v, Leb d a b v) ∧ b ≤ a+(bits+6)/7

/-- A length and as many bytes of UTF-8. -/
def Name : Grammar Bytes := U32.seq fun n d a b v => Grammar.raw n d a b v ∧ utf8Ok v = true

def ValType : Grammar String := Byte.seq fun x d a b t =>
  match plainType x with
  | some t' => a = b ∧ t = t'
  | none => (x = 0x64 ∨ x = 0x63) ∧
      ∃ ht, Signed 33 d a b ht ∧ t = (if x = 0x63 then "ref null " else "ref ") ++ toString ht

/-- A count and as many entries. -/
def Vec {α : Type} (G : ℕ→Grammar α) : Grammar (List α) := U32.seq fun n d a b v =>
  Items G d 0 a b v ∧ v.length = n

def Limits : Grammar Unit := Byte.seq fun flags d a c _ =>
  (flags = 0 ∨ flags = 1 ∨ flags = 4 ∨ flags = 5) ∧
    ∃ b n, Unsigned 64 10 d a b n ∧
      if flags &&& 1 ≠ 0 then ∃ m, Unsigned 64 10 d b c m else b = c

def TableType : Grammar Unit := ValType.seq fun _ => Limits

def GlobalType : Grammar Unit := ValType.seq fun _ d a b _ => ∃ m, Byte d a b m ∧ m ≤ 1

def TagType : Grammar Unit := fun d a b _ => ∃ ti, Byte d a (a+1) 0 ∧ U32 d (a+1) b ti

end AutoRefirst.Wasm
