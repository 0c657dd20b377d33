import AutoRefirst.ByteText

/-!
# A check of UTF-8

The check that several readers of the program make: lead bytes, continuation bytes, no overlong
form, no surrogate and nothing beyond the last code point.
-/

namespace AutoRefirst

/-- The bytes that follow a lead byte, the least code point they may make, and what the lead
byte holds of it. -/
def utf8Lead (c : UInt8) : Option (ℕ×ℕ×ℕ) :=
  if c &&& 0xe0 = 0xc0 then some (1,0x80,(c &&& 0x1f).toNat)
  else if c &&& 0xf0 = 0xe0 then some (2,0x800,(c &&& 0x0f).toNat)
  else if c &&& 0xf8 = 0xf0 then some (3,0x10000,(c &&& 0x07).toNat)
  else none

def utf8Tail : ℕ → ℕ → Bytes → Option (ℕ×Bytes)
  | 0, cp, s => some (cp,s)
  | _+1, _, [] => none
  | n+1, cp, q::s =>
    if q &&& 0xc0 ≠ 0x80 then none else utf8Tail n ((cp <<< 6) ||| (q &&& 0x3f).toNat) s

def utf8From : ℕ → Bytes → Bool
  | _, [] => true
  | 0, _::_ => false
  | fuel+1, c::s =>
    if c < 0x80 then utf8From fuel s
    else match utf8Lead c with
      | none => false
      | some (n,min,cp) =>
        if s.length < n then false
        else match utf8Tail n cp s with
          | none => false
          | some (cp,s) =>
            if cp < min ∨ 0x10ffff < cp ∨ (0xd800 ≤ cp ∧ cp ≤ 0xdfff) then false
            else utf8From fuel s

/-- Each turn takes a byte, so that the length bounds the turns. -/
def isUtf8 (s : Bytes) : Bool := utf8From s.length s

end AutoRefirst
