import AutoRefirst.JsonText
import Mathlib.Data.Int.Log
import Mathlib.Data.List.DropRight
import Mathlib.Data.Rat.Floor
import Mathlib.Tactic.IntervalCases
import Mathlib.Tactic.Positivity

/-!
# Numbers on a stream

How a stream of default format writes a whole number and a `double`, and that both are JSON
numbers.
-/

namespace AutoRefirst.JsonText
open List

def decimal (n : ℕ) : Bytes :=
  if n < 10 then [(0x30+n).toUInt8] else decimal (n/10) ++ [(0x30 + n % 10).toUInt8]
termination_by n
decreasing_by omega

def integer (z : ℤ) : Bytes := if z < 0 then byte '-' :: decimal z.natAbs else decimal z.natAbs

/-- A `double`: what matters for its text. -/
inductive Double
  | finite (negative : Bool) (magnitude : ℚ)
  | infinite (negative : Bool)
  | nan (negative : Bool)

/-- The nearest whole number, the even one of two. -/
def roundEven (r : ℚ) : ℕ :=
  if r - ⌊r⌋₊ < 1/2 ∨ (r - ⌊r⌋₊ = 1/2 ∧ ⌊r⌋₊ % 2 = 0) then ⌊r⌋₊ else ⌊r⌋₊ + 1

def sixDigits (q : ℚ) : ℕ×ℤ :=
  let place := Int.log 10 q
  let n := roundEven (q*10^(5-place))
  if n = 10^6 then (10^5,place+1) else (n,place)

/-- The digits behind the point, without the zeros at their end. -/
def fraction (ds : Bytes) : Bytes :=
  match ds.rdropWhile (· = byte '0') with
  | [] => []
  | d::rest => byte '.' :: d::rest

def exponent (place : ℤ) : Bytes :=
  byte 'e' :: ((if place < 0 then [byte '-'] else [byte '+']) ++
    if place.natAbs < 10 then byte '0' :: decimal place.natAbs else decimal place.natAbs)

/-- A positive number of the digits, the first of them at `place`. -/
def general (ds : Bytes) (place : ℤ) : Bytes :=
  if place < -4 ∨ 6 ≤ place then ds.take 1 ++ (fraction (ds.drop 1) ++ exponent place)
  else if place < 0 then
    byte '0' :: fraction (List.replicate (place.natAbs-1) (byte '0') ++ ds)
  else ds.take (place.toNat+1) ++ fraction (ds.drop (place.toNat+1))

def minus (negative : Bool) : Bytes := if negative then [byte '-'] else []

/-- `operator<<` for a `double`, as `%g` with six digits. -/
def Double.text : Double → Bytes
  | .finite negative q =>
    minus negative ++
      if q ≤ 0 then [byte '0'] else general (decimal (sixDigits q).1) (sixDigits q).2
  | .infinite negative => minus negative ++ bytes "inf"
  | .nan negative => minus negative ++ bytes "nan"

def Double.isFinite : Double → Bool
  | .finite _ _ => true
  | _ => false

theorem digit_of_lt {n:ℕ} (h:n<10) : Digit (0x30+n).toUInt8:=by
  interval_cases n <;> decide

theorem decimal_spec (n:ℕ) :
    Digits (decimal n) ∧ (n≠0 → (decimal n).head? ≠ some (byte '0')):=by
  induction n using Nat.strongRecOn with
  | ind n ih=>
    rw [decimal]
    split
    · rename_i hlt
      refine ⟨⟨cons_ne_nil _ _,fun b hb=>?_⟩,fun hne=>?_⟩
      · obtain rfl:=mem_singleton.mp hb
        exact digit_of_lt hlt
      · interval_cases n <;> first | exact absurd rfl hne | decide
    · rename_i hge
      obtain ⟨⟨hne,hdigits⟩,hhead⟩:=ih (n/10) (by omega)
      refine ⟨⟨by simp,fun b hb=>?_⟩,fun _=>?_⟩
      · rcases mem_append.mp hb with hb | hb
        · exact hdigits b hb
        · obtain rfl:=mem_singleton.mp hb
          exact digit_of_lt (Nat.mod_lt _ (by decide))
      · rw [head?_append_of_ne_nil _ hne]
        exact hhead (by omega)

theorem decimal_whole (n:ℕ) : WholePart (decimal n):=by
  by_cases hz : n=0
  · subst hz
    left
    rw [decimal]
    decide
  · exact .inr ⟨(decimal_spec n).1,(decimal_spec n).2 hz⟩

theorem jsonNumber_decimal (n:ℕ) : JsonNumber (decimal n):=
  ⟨[],decimal n,[],[],.inl rfl,decimal_whole n,.inl rfl,.inl rfl,by simp⟩

theorem jsonNumber_integer (z:ℤ) : JsonNumber (integer z):=by
  unfold integer
  split
  · exact ⟨[byte '-'],decimal z.natAbs,[],[],.inr rfl,decimal_whole _,.inl rfl,.inl rfl,
      by simp⟩
  · exact jsonNumber_decimal _

variable {ds : Bytes}

theorem fraction_part (h:∀b∈ds,Digit b) : FractionPart (fraction ds):=by
  have hsub : ∀b∈ds.rdropWhile (· = byte '0'), Digit b:=fun b hb=>
    h b (( rdropWhile_prefix _ ds).subset hb)
  unfold fraction
  split
  · exact .inl rfl
  · rename_i d rest heq
    rw [heq] at hsub
    exact .inr ⟨d::rest,⟨cons_ne_nil _ _,hsub⟩,rfl⟩

theorem exponent_part (place:ℤ) : ExponentPart (exponent place):=by
  obtain ⟨⟨hne,hdigits⟩,-⟩:=decimal_spec place.natAbs
  refine .inr ⟨byte 'e',_,_,.inl rfl,?_,?_,rfl⟩
  · split
    · exact .inr (.inr rfl)
    · exact .inr (.inl rfl)
  · split
    · refine ⟨cons_ne_nil _ _,fun b hb=>?_⟩
      rcases mem_cons.mp hb with rfl | hb
      · decide
      · exact hdigits b hb
    · exact ⟨hne,hdigits⟩

theorem whole_take (hd:Digits ds) (hhead:ds.head? ≠ some (byte '0')) (n:ℕ) :
    WholePart (ds.take (n+1)):=by
  obtain ⟨d,rest,rfl⟩:=exists_cons_of_ne_nil hd.1
  refine .inr ⟨⟨by simp,fun b hb=>hd.2 b (List.mem_of_mem_take hb)⟩,?_⟩
  simpa using hhead

theorem jsonNumber_general {sign:Bytes} {place:ℤ} (hs:sign=[] ∨ sign = [byte '-'])
    (hd:Digits ds) (hhead:ds.head? ≠ some (byte '0')) :
    JsonNumber (sign++general ds place):=by
  have hdrop : ∀n,FractionPart (fraction (ds.drop n)):=fun n=>
    fraction_part fun b hb=>hd.2 b (mem_of_mem_drop hb)
  unfold general
  split
  · exact ⟨sign,_,_,_,hs,whole_take hd hhead 0,hdrop 1,exponent_part place,rfl⟩
  split
  · have hzeros : ∀b∈List.replicate (place.natAbs-1) (byte '0')++ds, Digit b:=by
      intro b hb
      rcases mem_append.mp hb with hb | hb
      · rw [eq_of_mem_replicate hb]
        decide
      · exact hd.2 b hb
    exact ⟨sign,[byte '0'],_,[],hs,.inl rfl,fraction_part hzeros,.inl rfl,by simp⟩
  · exact ⟨sign,_,_,[],hs,whole_take hd hhead place.toNat,hdrop (place.toNat+1),.inl rfl,
      by simp⟩

theorem sixDigits_pos {q:ℚ} (h:0<q) : (sixDigits q).1≠0:=by
  have hlog : (10 : ℚ) ^ Int.log 10 q ≤ q:=by
    have hle:=Int.zpow_log_le_self (b:=10) (by decide) h
    exact_mod_cast hle
  have hone : (1 : ℚ)≤q*10^(5 - Int.log 10 q):=by
    calc (1 : ℚ)≤10^(5 : ℤ):=by norm_num
      _=10 ^ Int.log 10 q * 10^(5 - Int.log 10 q):=by
        rw [← zpow_add₀ (by norm_num)]
        congr 1
        omega
      _ ≤ q*10^(5 - Int.log 10 q):=mul_le_mul_of_nonneg_right hlog (zpow_nonneg (by norm_num) _)
  have hfloor : 1 ≤ ⌊q*10^(5 - Int.log 10 q)⌋₊ := Nat.le_floor (by exact_mod_cast hone)
  have hround : roundEven (q*10^(5 - Int.log 10 q))≠0:=by
    unfold roundEven
    split <;> omega
  unfold sixDigits
  dsimp only
  split
  · exact (by decide:10^5≠0)
  · exact hround

theorem minus_cases (negative:Bool) : minus negative=[] ∨ minus negative = [byte '-']:=by
  cases negative
  · exact .inl rfl
  · exact .inr rfl

theorem jsonNumber_double {x:Double} (h:x.isFinite=true) : JsonNumber x.text:=by
  cases x with
  | finite negative q=>
    have hsign:=minus_cases negative
    rw [Double.text]
    split_ifs with hq
    · exact ⟨_,[byte '0'],[],[],hsign,.inl rfl,.inl rfl,.inl rfl,by simp⟩
    · obtain ⟨hdigits,hhead⟩:=decimal_spec (sixDigits q).1
      exact jsonNumber_general hsign hdigits (hhead (sixDigits_pos (not_le.mp hq)))
  | infinite negative=>cases h
  | nan negative=>cases h

end AutoRefirst.JsonText
