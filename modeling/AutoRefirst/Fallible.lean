import Mathlib.Data.Nat.Notation
import Mathlib.Data.Option.Basic

/-!
# Computations that may fail

Rules for `Except` computations: a result comes from the results of the parts.
-/

namespace AutoRefirst.Fallible
open List

variable {ε α β : Type} {x : Except ε α}

theorem bind_eq_ok {f:α→Except ε β} {b:β} : (x >>= f)=.ok b ↔ ∃a,x=.ok a ∧ f a=.ok b:=by
  cases x <;> simp [bind,Except.bind]

theorem pure_eq_ok {a b:α} : (pure a:Except ε α)=.ok b ↔ a=b:=by
  simp [pure,Except.pure]

/-- Two continuations that agree on the result agree. -/
theorem bind_congr_ok {f g:α→Except ε β} (h:∀a,x=.ok a → f a=g a) : (x >>= f)=(x >>= g):=by
  cases x with
  | error e=>rfl
  | ok a=>exact h a rfl

/-- What a computed value says about the result behind it. -/
theorem exists_ok_of_map {f:α→β} {v:β} (h:x.toOption.map f=some v) :
    ∃a,x=.ok a ∧ f a=v:=by
  cases x with
  | error e=>exact absurd h (by simp [Except.toOption])
  | ok a=>exact ⟨a,rfl,Option.some.inj h⟩

/-- A check that fails when `c` holds. -/
def rejectIf (c : Prop) [Decidable c] (e : ε) : Except ε Unit := if c then .error e else .ok ()

theorem rejectIf_bind {c:Prop} [Decidable c] {e:ε} {f:Unit→Except ε β} {b:β} :
    (rejectIf c e >>= f)=.ok b ↔ ¬c ∧ f ()=.ok b:=by
  unfold rejectIf
  split
  case isTrue h=>simp [h,bind,Except.bind]
  case isFalse h=>simp [h,bind,Except.bind]

theorem foldlM_keeps {σ:Type} {P:σ→Prop} {f:σ→α→Except ε σ} {l:List α}
    (hf:∀s,P s → ∀a∈l,∀t,f s a=.ok t → P t) {s t:σ} (hs:P s)
    (h:l.foldlM f s=.ok t) : P t:=by
  induction l generalizing s with
  | nil=>exact pure_eq_ok.mp h▸hs
  | cons a l ih=>
    rw [foldlM_cons] at h
    obtain ⟨s',hs',h⟩:=bind_eq_ok.mp h
    exact ih (fun s hs b hb=>hf s hs b (mem_cons_of_mem a hb))
      (hf s hs a mem_cons_self s' hs') h

/-- The same with the number of steps. -/
theorem foldlM_counts {σ:Type} {P:ℕ→σ→Prop} {f:σ→α→Except ε σ} {l:List α}
    (hf:∀n s,P n s → ∀a∈l,∀t,f s a=.ok t → P (n+1) t) {n:ℕ} {s t:σ}
    (hs:P n s) (h:l.foldlM f s=.ok t) : P (n+l.length) t:=by
  induction l generalizing n s with
  | nil=>exact pure_eq_ok.mp h▸hs
  | cons a l ih=>
    rw [foldlM_cons] at h
    obtain ⟨s',hs',h⟩:=bind_eq_ok.mp h
    have hnext:=ih (fun n s hs b hb=>hf n s hs b (mem_cons_of_mem a hb))
      (hf n s hs a mem_cons_self s' hs') h
    rwa [Nat.add_assoc,Nat.add_comm 1] at hnext

/-- A fold over the first numbers, with the number that each step is given. -/
theorem foldlM_range {σ:Type} {P:ℕ→σ→Prop} {f:σ→ℕ→Except ε σ} {k:ℕ}
    (hf:∀n<k,∀s,P n s → ∀t,f s n=.ok t → P (n+1) t) {s t:σ} (hs:P 0 s)
    (h:(List.range k).foldlM f s=.ok t) : P k t:=by
  induction k generalizing t with
  | zero=>exact pure_eq_ok.mp h▸hs
  | succ k ih=>
    rw [range_succ,foldlM_append] at h
    obtain ⟨s',hs',h⟩:=bind_eq_ok.mp h
    have hk:=ih (fun n hn=>hf n (Nat.lt_succ_of_lt hn)) hs'
    rw [foldlM_cons] at h
    obtain ⟨t',ht',h⟩:=bind_eq_ok.mp h
    exact pure_eq_ok.mp h▸hf k (Nat.lt_succ_self k) s' hk t' ht'

end AutoRefirst.Fallible
