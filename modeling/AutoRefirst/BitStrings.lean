import Mathlib.Algebra.Group.Nat.Defs
import Mathlib.Data.List.Basic
import Mathlib.Data.List.TakeDrop
import Mathlib.Data.Nat.Bits

/-!
# Numbers as bits

A number of a given width written with its highest bit first, and the number of a string of bits.
-/

namespace BitStrings
open List

/-- The number of a bit string, highest bit first. -/
def value : List Bool → ℕ
  | [] => 0
  | b::l => b.toNat*2^l.length + value l

/-- The low `n` bits of a number, highest bit first. -/
def word : ℕ → ℕ → List Bool
  | 0, _ => []
  | n+1, v => v.testBit n :: word n v

@[simp] theorem word_length (n v:ℕ) : (word n v).length=n:=by
  induction n with
  | zero=>rfl
  | succ n ih=>rw [word,length_cons,ih]

theorem value_lt (l:List Bool) : value l<2^l.length:=by
  induction l with
  | nil=>exact Nat.one_pos
  | cons b l ih=>
    rw [value,length_cons,Nat.pow_succ]
    cases b
    · change 0 * _ + _ < _
      omega
    · change 1 * _ + _ < _
      omega

theorem toNat_testBit (v n:ℕ) : (v.testBit n).toNat = v/2^n % 2:=by
  rw [Nat.testBit_eq_decide_div_mod_eq]
  rcases Nat.mod_two_eq_zero_or_one (v/2^n) with h | h
  · rw [h]
    rfl
  · rw [h]
    rfl

theorem value_word_mod (n v:ℕ) : value (word n v) = v % 2^n:=by
  induction n with
  | zero=>exact (Nat.mod_one v).symm
  | succ n ih=>
    rw [word,value,word_length,ih,toNat_testBit,Nat.pow_succ,Nat.mod_mul,Nat.mul_comm, Nat.add_comm]

theorem value_word {n v:ℕ} (h:v<2^n) : value (word n v)=v:=by
  rw [value_word_mod,Nat.mod_eq_of_lt h]

/-- Strings of one length are told apart by their number. -/
theorem value_injective {l l':List Bool} (hlen:l.length=l'.length)
    (h:value l=value l') : l=l':=by
  induction l generalizing l' with
  | nil=>exact (length_eq_zero_iff.mp hlen.symm).symm
  | cons b l ih=>
    cases l' with
    | nil=>cases hlen
    | cons b' l'=>
      have hlen' : l.length=l'.length:=Nat.succ.inj hlen
      rw [value,value,hlen'] at h
      have hlt:=value_lt l
      have hlt':=value_lt l'
      rw [hlen'] at hlt
      have hb : b=b':=by
        cases b <;> cases b'
        · rfl
        · change 0 * _ + _=1*_+_ at h
          omega
        · change 1 * _ + _=0*_+_ at h
          omega
        · rfl
      subst hb
      rw [ih hlen' (Nat.add_left_cancel h)]

theorem word_value (l:List Bool) : word l.length (value l)=l:=
  value_injective (word_length _ _) (value_word (value_lt l))

theorem value_snoc (l:List Bool) (b:Bool) : value (l++[b]) = value l * 2 + b.toNat:=by
  induction l with
  | nil=>cases b <;> rfl
  | cons c l ih=>
    rw [cons_append,value,value,ih,length_append,length_singleton,
      Nat.pow_succ,Nat.add_mul,← Nat.mul_assoc,Nat.add_assoc]

end BitStrings
