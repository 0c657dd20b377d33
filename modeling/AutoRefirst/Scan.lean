import AutoRefirst.ByteText

/-!
# Scans of an input

A scan computes its value as the machine does, with sums that wrap. Beside it goes whether every
byte read so far lay inside the input, and whether every sum so far fitted its word.
-/

namespace AutoRefirst

@[ext] structure Scan (α : Type) where
  value : α
  inside : Bool := true
  fits : Bool := true

namespace Scan

instance : Monad Scan where
  pure a := {value:=a}
  bind x f :=
    { value:=(f x.value).value,inside:=x.inside && (f x.value).inside
      fits:=x.fits && (f x.value).fits }

variable {α β : Type}

@[simp] theorem pure_value (a:α) : (pure a:Scan α).value=a:=rfl
@[simp] theorem pure_inside (a:α) : (pure a:Scan α).inside=true:=rfl
@[simp] theorem pure_fits (a:α) : (pure a:Scan α).fits=true:=rfl

@[simp] theorem pure_bind (a:α) (f:α→Scan β) : (pure a >>= f)=f a:=by
  ext1
  · rfl
  · exact Bool.true_and _
  · exact Bool.true_and _

theorem bind_value (x:Scan α) (f:α→Scan β) : (x >>= f).value=(f x.value).value:=rfl

theorem bind_fits (x:Scan α) (f:α→Scan β) :
    (x >>= f).fits=true ↔ x.fits=true ∧ (f x.value).fits=true:=by
  change (x.fits && (f x.value).fits)=true ↔ _
  rw [Bool.and_eq_true]

theorem bind_inside (x:Scan α) (f:α→Scan β) :
    (x >>= f).inside=true ↔ x.inside=true ∧ (f x.value).inside=true:=by
  change (x.inside && (f x.value).inside)=true ↔ _
  rw [Bool.and_eq_true]

/-- A sum in words of `w` bits. -/
def sum (w a b : ℕ) : Scan ℕ where
  value := (a+b) % 2^w
  fits := a+b < 2^w

/-- The bytes of a range are read; what lies outside reads as nothing. -/
def touch (d : Bytes) (off n : ℕ) : Scan Bytes where
  value := (d.drop off).take n
  inside := off+n ≤ d.length

theorem sum_eq {w a b:ℕ} (h:a+b<2^w) : sum w a b=pure (a+b):=by
  ext1
  · exact Nat.mod_eq_of_lt h
  · rfl
  · exact decide_eq_true h

theorem sum_fits {w a b:ℕ} : (sum w a b).fits=true ↔ a+b<2^w:=decide_eq_true_iff

theorem touch_eq {d:Bytes} {off n:ℕ} (h:off+n≤d.length) :
    touch d off n=pure ((d.drop off).take n):=by
  ext1
  · rfl
  · exact decide_eq_true h
  · rfl

end Scan

end AutoRefirst
