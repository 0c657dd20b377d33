import Mathlib.Algebra.Order.Ring.Nat

/-!
# Unsigned 64-bit counters

Counters are natural numbers below `2 ^ 64`. Plain C++ addition and subtraction
wrap, a saturating sum stays at the largest value. The lemmas say when the
machine operation is the exact one; callers discharge the bound once and then
reason about ordinary natural numbers.
-/

namespace AutoRefirst.Word64

/-- `std::numeric_limits<std::uint64_t>::max()`. -/
def maxValue : ℕ := 2^64-1

/-- Unsigned addition of two counters. -/
def add (a b : ℕ) : ℕ := (a+b) % 2^64

/-- Unsigned subtraction of two counters. -/
def sub (a b : ℕ) : ℕ := (a+(2^64-b)) % 2^64

/-- Addition that stays at the largest counter value. -/
def satAdd (a b : ℕ) : ℕ := if b > maxValue-a then maxValue else a+b

variable {a b : ℕ}

theorem add_eq (h:a+b<2^64) : add a b = a+b:=Nat.mod_eq_of_lt h

theorem add_lt (a b:ℕ) : add a b<2^64:=Nat.mod_lt _ (by decide)

theorem sub_eq (hb:b≤a) (ha:a<2^64) : sub a b = a-b:=by
  have hsum : a+(2^64-b)=(a-b)+2^64:=by omega
  rw [sub,hsum,Nat.add_mod_right]
  exact Nat.mod_eq_of_lt (by omega)

theorem satAdd_eq_min (b:ℕ) (ha:a ≤ maxValue) : satAdd a b=min (a+b) maxValue:=by
  unfold satAdd
  split <;> omega

theorem satAdd_eq (h:a+b ≤ maxValue) : satAdd a b = a+b:=by
  rw [satAdd_eq_min b (by omega)]
  exact min_eq_left h

theorem satAdd_le_maxValue (ha:a ≤ maxValue) : satAdd a b ≤ maxValue:=by
  rw [satAdd_eq_min b ha]
  exact min_le_right _ _

theorem le_satAdd_left (ha:a ≤ maxValue) : a ≤ satAdd a b:=by
  rw [satAdd_eq_min b ha]
  exact le_min (Nat.le_add_right a b) ha

end AutoRefirst.Word64
