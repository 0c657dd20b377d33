import Mathlib.Data.List.Basic
import Mathlib.Order.Nat

/-! The largest measure among the members of a list that a test accepts. It is a function of
the set of members, and a member below it leaves it where it is. -/

namespace AutoRefirst

variable {α : Type} {p : α→Bool} {m : α→ℕ} {l l' : List α}

/-- The loop that keeps the larger of what it has and what an accepted member measures. -/
def peakFrom (p : α→Bool) (m : α→ℕ) (n : ℕ) (l : List α) : ℕ :=
  l.foldl (fun n x => if p x then max n (m x) else n) n

def peak (p : α→Bool) (m : α→ℕ) (l : List α) : ℕ := peakFrom p m 0 l

theorem peakFrom_le_iff {n k:ℕ} : peakFrom p m n l≤k ↔ n≤k ∧ ∀x∈l,p x → m x≤k:=by
  induction l generalizing n with
  | nil=>simp [peakFrom]
  | cons x l ih=>
    have hstep : peakFrom p m n (x::l) = peakFrom p m (if p x then max n (m x) else n) l:=rfl
    rw [hstep,ih]
    cases hp : p x
    · simp [hp]
    · simp only [hp,if_true,Nat.max_le,List.forall_mem_cons,forall_const,and_assoc]

theorem peak_le_iff {k:ℕ} : peak p m l≤k ↔ ∀x∈l,p x → m x≤k:=by
  simp [peak,peakFrom_le_iff]

theorem le_peak {x:α} (hx:x∈l) (hp:p x) : m x≤peak p m l:=peak_le_iff.mp (Nat.le_refl _) x hx hp

/-- A peak above the ground is the measure of some member. -/
theorem exists_of_peak_pos (h:0<peak p m l) : ∃x∈l,p x ∧ m x=peak p m l:=by
  by_contra hnone
  have hbelow : peak p m l ≤ peak p m l - 1:=by
    refine peak_le_iff.mpr fun x hx hp=>?_
    have hle : m x≤peak p m l:=le_peak hx hp
    have hne : m x≠peak p m l:=fun heq=>hnone ⟨x,hx,hp,heq⟩
    omega
  omega

/-- Lists with the same members have the same peak. -/
theorem peak_congr (h:∀x,x∈l ↔ x∈l') : peak p m l=peak p m l':=
  Nat.le_antisymm (peak_le_iff.mpr fun x hx=>le_peak ((h x).mp hx))
    (peak_le_iff.mpr fun x hx=>le_peak ((h x).mpr hx))

theorem any_congr_of_mem (h:∀x,x∈l ↔ x∈l') : l.any p=l'.any p:=by
  rw [Bool.eq_iff_iff,List.any_eq_true,List.any_eq_true]
  simp only [h]

end AutoRefirst
