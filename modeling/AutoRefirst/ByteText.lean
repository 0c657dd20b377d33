import Mathlib.Algebra.Ring.Int.Defs
import Mathlib.Algebra.Ring.Nat
import Mathlib.Data.List.Basic

/-!
# Text as bytes

A `std::string` is a list of bytes. A literal of the source is given by its characters,
all of them ASCII.
-/

namespace AutoRefirst

abbrev Bytes := List UInt8

instance (b : Bytes) (l : List Bytes) : Decidable (b ∈ l) := inferInstance

/-- The bytes of an ASCII literal. -/
def bytes (s : String) : Bytes := s.toList.map fun c => c.toNat.toUInt8

def byte (c : Char) : UInt8 := c.toNat.toUInt8

def textOf (s : Bytes) : String := String.ofList (s.map fun c => Char.ofNat c.toNat)

theorem eachByte {P:UInt8→Prop} (h:∀x : Fin 256,P (UInt8.ofFin x)) (b:UInt8) :
    P b:=h b.toFin

theorem low_bits (b:UInt8) : (b &&& 0x7f).toNat = b.toNat % 128:=
  eachByte (P:=fun b=>(b &&& 0x7f).toNat = b.toNat % 128) (by decide +kernel) b

theorem high_bit (b:UInt8) : b &&& 0x80=0 ↔ b.toNat<128:=
  eachByte (P:=fun b=>b &&& 0x80=0 ↔ b.toNat<128) (by decide +kernel) b

def lowerByte (c : UInt8) : UInt8 := if 0x41 ≤ c ∧ c ≤ 0x5a then c+0x20 else c

def lower (s : Bytes) : Bytes := s.map lowerByte

def contains (s part : Bytes) : Bool := s.tails.any part.isPrefixOf

def afterLast (c : UInt8) (s : Bytes) : Option Bytes :=
  if c ∈ s then some (s.reverse.takeWhile (· ≠ c)).reverse else none

/-- `operator<` of byte strings. -/
def bytesLt : Bytes → Bytes → Bool
  | _, [] => false
  | [], _::_ => true
  | a::s, b::t => a < b || (a == b && bytesLt s t)

end AutoRefirst
