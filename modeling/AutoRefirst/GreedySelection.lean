import Mathlib.Data.List.Sort
import Mathlib.Algebra.Order.Ring.Nat
import Mathlib.Algebra.BigOperators.Group.List.Basic

/-!
# Ranked greedy selection under a budget

A ranking is a comparison whose ties are invisible to the selection: two items
that rank equal have the same rank value. The standard library sort is only known
by its contract, so every statement is proved for an arbitrary sort that meets it.
The ranked values taken by the greedy scan then depend on the multiset of ranked
values alone.
-/

namespace AutoRefirst.GreedySelection
open List

/-- The contract of `std::sort` for a strict weak order: a permutation in which no
later element is smaller than an earlier one. The order of ties is left open. -/
structure StdSort where
  sort : {α : Type} → (α → α → Bool) → List α → List α
  perm : ∀ {α : Type} (lt : α→α→Bool) (l : List α), (sort lt l).Perm l
  sorted : ∀ {α β : Type} [LinearOrder β] (lt : α→α→Bool) (rank : α→β)
    (_ : ∀ a b, lt a b = true ↔ rank a < rank b) (l : List α),
    (sort lt l).Pairwise (fun a b => lt b a = false)

/-- A concrete sort meeting the contract. -/
def insertionStdSort : StdSort where
  sort lt l := l.insertionSort (fun a b => lt b a = false)
  perm lt l := perm_insertionSort _ l
  sorted lt rank hlt l := by
    have htotal : Std.Total (fun a b => lt b a = false) := ⟨fun a b => by
      simp only [← Bool.not_eq_true,hlt,not_lt]
      exact le_total _ _⟩
    have htrans : IsTrans _ (fun a b => lt b a = false) := ⟨fun a b c hab hbc => by
      simp only [← Bool.not_eq_true,hlt,not_lt] at hab hbc ⊢
      exact hab.trans hbc⟩
    exact pairwise_insertionSort _ l

variable {α β : Type}

/-- Take each item, in order, whose weight still fits in what is left of the budget. -/
def take (weight : α→ℕ) : ℕ → List α → List α
  | _, [] => []
  | room, a::l =>
    if weight a ≤ room then a :: take weight (room - weight a) l else take weight room l

variable (weight : α→ℕ)

theorem take_sublist (room:ℕ) (l:List α) : (take weight room l).Sublist l:=by
  induction l generalizing room with
  | nil=>exact List.Sublist.refl _
  | cons a l ih=>
    by_cases h : weight a ≤ room
    · simpa only [take,h,if_true] using (ih (room - weight a)).cons_cons a
    · simpa only [take,h,if_false] using (ih room).cons a

theorem mem_of_mem_take {weight:α→ℕ} {room:ℕ} {l:List α} {a:α}
    (h:a∈take weight room l) : a∈l:=(take_sublist weight room l).subset h

theorem sum_take_le (room:ℕ) (l:List α) : ((take weight room l).map weight).sum ≤ room:=by
  induction l generalizing room with
  | nil=>simp [take]
  | cons a l ih=>
    by_cases h : weight a ≤ room
    · have hrest:=ih (room - weight a)
      simp only [take,h,if_true,map_cons,sum_cons]
      omega
    · simpa only [take,h,if_false] using ih room

/-- The scan sees an item only through its rank value. -/
theorem map_take (rank:α→β) (rankWeight:β→ℕ)
    (hweight:∀a,rankWeight (rank a)=weight a) (room:ℕ) (l:List α) :
    (take weight room l).map rank=take rankWeight room (l.map rank):=by
  induction l generalizing room with
  | nil=>rfl
  | cons a l ih=>
    by_cases h : weight a ≤ room
    · simp [take,hweight,h,ih]
    · simp [take,hweight,h,ih]

section Ranked
variable [LinearOrder β] (S : StdSort) (rank : α→β)

/-- Sorting by a rank gives the same list of rank values for every order of the input
and for every treatment of ties. -/
theorem map_sort_eq_of_perm {lt₁ lt₂:α→α→Bool} {rank₁ rank₂:α→β}
    (h₁:∀a b,lt₁ a b=true ↔ rank₁ a < rank₁ b)
    (h₂:∀a b,lt₂ a b=true ↔ rank₂ a < rank₂ b)
    {l₁ l₂:List α} (hl:(l₁.map rank₁).Perm (l₂.map rank₂)) :
    (S.sort lt₁ l₁).map rank₁=(S.sort lt₂ l₂).map rank₂:=by
  have hsorted : ∀(lt:α→α→Bool) (rank:α→β) (l:List α), (∀a b,lt a b=true ↔ rank a < rank b) →
      ((S.sort lt l).map rank).Pairwise (· ≤ ·):=by
    intro lt rank l h
    rw [pairwise_map]
    exact (S.sorted lt rank h l).imp (fun {a b} hab=>by
      rw [← Bool.not_eq_true,h,not_lt] at hab
      exact hab)
  have hperm : ((S.sort lt₁ l₁).map rank₁).Perm ((S.sort lt₂ l₂).map rank₂):=
    ((S.perm lt₁ l₁).map rank₁).trans (hl.trans ((S.perm lt₂ l₂).map rank₂).symm)
  exact hperm.eq_of_pairwise' (hsorted lt₁ rank₁ l₁ h₁) (hsorted lt₂ rank₂ l₂ h₂)

/-- The rank values chosen by a sorted greedy scan depend on the multiset of rank
values only. -/
theorem map_take_sort_eq_of_perm {lt₁ lt₂:α→α→Bool} {rank₁ rank₂:α→β}
    (h₁:∀a b,lt₁ a b=true ↔ rank₁ a < rank₁ b)
    (h₂:∀a b,lt₂ a b=true ↔ rank₂ a < rank₂ b)
    {weight₁ weight₂:α→ℕ} (rankWeight:β→ℕ)
    (hw₁:∀a,rankWeight (rank₁ a)=weight₁ a)
    (hw₂:∀a,rankWeight (rank₂ a)=weight₂ a)
    {l₁ l₂:List α} (hl:(l₁.map rank₁).Perm (l₂.map rank₂)) (room:ℕ) :
    (take weight₁ room (S.sort lt₁ l₁)).map rank₁ =
      (take weight₂ room (S.sort lt₂ l₂)).map rank₂:=by
  rw [map_take weight₁ rank₁ rankWeight hw₁,map_take weight₂ rank₂ rankWeight hw₂,
    map_sort_eq_of_perm S h₁ h₂ hl]

end Ranked

end AutoRefirst.GreedySelection
