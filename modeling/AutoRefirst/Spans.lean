import Mathlib.Data.List.Sort

/-! Spans, given by where they start and where they end: after sorting, two that overlap are
found next to each other. -/

namespace AutoRefirst.Spans
open List

/-- The order in which pairs are sorted. -/
def pairLe (a b : ℕ×ℕ) : Prop := a.1<b.1 ∨ a.1=b.1 ∧ a.2≤b.2

instance : DecidableRel pairLe := fun _ _ => inferInstanceAs (Decidable (_ ∨ _))

/-- Two neighbours of which the second starts before the first ends. -/
def neighboursOverlap : List (ℕ×ℕ) → Bool
  | [] => false
  | [_] => false
  | a :: b::l => b.1 < a.2 || neighboursOverlap (b::l)

/-- Starts and ends, sorted and compared. -/
def overlaps (v : List (ℕ×ℕ)) : Bool := neighboursOverlap (v.insertionSort pairLe)

/-- One of two spans ends before the other starts. -/
def Apart (a b : ℕ×ℕ) : Prop := a.2≤b.1 ∨ b.2≤a.1

theorem pairwise_of_neighbours {l:List (ℕ×ℕ)} (hl:∀a∈l,a.1≤a.2)
    (h:neighboursOverlap l=false) : l.Pairwise fun a b=>a.2≤b.1:=by
  induction l with
  | nil=>exact .nil
  | cons a l ih=>
    have htail : ∀b∈l,b.1≤b.2:=fun b hb=>hl b (mem_cons_of_mem a hb)
    cases l with
    | nil=>exact pairwise_singleton _ _
    | cons b l=>
      obtain ⟨hab,hrest⟩ : a.2≤b.1 ∧ neighboursOverlap (b::l)=false:=by
        simpa [neighboursOverlap] using h
      have hpair:=ih htail hrest
      refine pairwise_cons.mpr ⟨fun c hc=>?_,hpair⟩
      rcases mem_cons.mp hc with rfl | hmem
      · exact hab
      · have hbc:=(pairwise_cons.mp hpair).1 c hmem
        exact hab.trans ((htail b mem_cons_self).trans hbc)

/-- Sorting brings every overlap to two neighbours. -/
theorem pairwise_apart {v:List (ℕ×ℕ)} (hv:∀a∈v,a.1≤a.2) (h:overlaps v=false) :
    v.Pairwise Apart:=by
  have hperm:=perm_insertionSort pairLe v
  have hsorted : (v.insertionSort pairLe).Pairwise Apart:=
    (pairwise_of_neighbours (fun a ha=>hv a (hperm.mem_iff.mp ha)) h).imp Or.inl
  exact (hperm.pairwise_iff Or.symm).mp hsorted

end AutoRefirst.Spans
