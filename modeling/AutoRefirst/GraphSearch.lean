import Mathlib.Data.Finset.Card
import Mathlib.Data.Finset.SDiff
import Mathlib.Logic.Relation
import Mathlib.Tactic.Common

/-!
# Searching a graph with a queue

Nodes are marked when they enter the queue. The marked nodes are in the end those that are reached
through allowed nodes.
-/

namespace GraphSearch
open List

variable {V : Type} [DecidableEq V] (children : V→List V) (ok : V→Bool)

/-- The marked nodes and the queue after a child is met. -/
def mark (s : Finset V×List V) (v : V) : Finset V×List V :=
  if v∈s.1 ∨ ok v = false then s else (insert v s.1,s.2++[v])

def expand (seen : Finset V) (queue : List V) (u : V) : Finset V×List V :=
  (children u).foldl (mark ok) (seen,queue)

/-- The search until the queue is empty; each node takes fuel. -/
def search : ℕ → List V → Finset V → Finset V
  | fuel+1, u::queue, seen =>
    search fuel (expand children ok seen queue u).2 (expand children ok seen queue u).1
  | _, _, seen => seen

/-- The search until a node leaves the queue. -/
def finds (goal : V) : ℕ → List V → Finset V → Bool
  | fuel+1, u::queue, seen =>
    u = goal ||
      finds goal fuel (expand children ok seen queue u).2 (expand children ok seen queue u).1
  | _, _, _ => false

/-- Reached through allowed nodes. -/
abbrev Reach : V → V → Prop := Relation.ReflTransGen fun u v => v∈children u ∧ ok v = true

variable {children ok}

/-- What marking the children of a node makes of the marks and the queue. -/
structure Marked (ok : V→Bool) (nodes : Finset V) (l : List V) (s s' : Finset V×List V) : Prop where
  marks : ∀ v, v∈s'.1 ↔ v∈s.1 ∨ v∈l ∧ ok v = true
  queue : ∀ v, v∈s'.2 ↔ v∈s.2 ∨ v∉s.1 ∧ v∈l ∧ ok v = true
  size : s'.2.length+(nodes \ s'.1).card=s.2.length+(nodes \ s.1).card

variable {nodes : Finset V}

theorem marked_foldl {l:List V} (hl:∀v∈l,v∈nodes) (s:Finset V×List V) :
    Marked ok nodes l s (l.foldl (mark ok) s):=by
  induction l generalizing s with
  | nil=>exact ⟨fun v=>by simp,fun v=>by simp,rfl⟩
  | cons a l ih=>
    have hrest:=ih (fun v hv=>hl v (mem_cons_of_mem a hv)) (mark ok s a)
    rw [foldl_cons]
    by_cases hstay : a∈s.1 ∨ ok a = false
    · have hmark : mark ok s a = s:=if_pos hstay
      rw [hmark] at hrest ⊢
      refine ⟨fun v=>?_,fun v=>?_,hrest.size⟩
      · rw [hrest.marks,mem_cons]
        grind
      · rw [hrest.queue,mem_cons]
        grind
    · have hmark : mark ok s a = (insert a s.1,s.2++[a]):=if_neg hstay
      rw [hmark] at hrest ⊢
      refine ⟨fun v=>?_,fun v=>?_,?_⟩
      · rw [hrest.marks,mem_cons,Finset.mem_insert]
        grind
      · rw [hrest.queue,mem_cons,Finset.mem_insert,mem_append,mem_singleton]
        grind
      · have hnew : a∈nodes \ s.1:=
          Finset.mem_sdiff.mpr ⟨hl a mem_cons_self,fun h=>hstay (.inl h)⟩
        have hcard:=Finset.card_erase_add_one hnew
        rw [hrest.size,Finset.sdiff_insert,length_append]
        change s.2.length+1+_ = _
        omega

/-- What holds whenever a node is taken from the queue of a search that started at `a`. -/
structure Searching (nodes : Finset V) (children : V→List V) (ok : V→Bool) (a : V)
    (queue : List V) (seen : Finset V) : Prop where
  start : a∈seen
  inside : ∀ v∈seen, v∈nodes
  reached : ∀ v∈seen, Reach children ok a v
  queued : ∀ v∈queue, v∈seen
  closed : ∀ u∈seen, u∉queue → ∀ v∈children u, ok v = true → v∈seen

variable {a : V} {queue : List V} {seen : Finset V} {fuel : ℕ}

omit [DecidableEq V] in
theorem searching_start (ha:a∈nodes) : Searching nodes children ok a [a] {a}:=by
  refine ⟨Finset.mem_singleton_self a,fun v hv=>?_,fun v hv=>?_,fun v hv=>?_,
    fun u hu hno=>?_⟩
  · exact Finset.mem_singleton.mp hv▸ha
  · exact Finset.mem_singleton.mp hv ▸ .refl
  · exact Finset.mem_singleton.mpr (mem_singleton.mp hv)
  · exact absurd (mem_singleton.mpr (Finset.mem_singleton.mp hu)) hno

variable (hchildren : ∀ u∈nodes, ∀ v∈children u, v∈nodes)
include hchildren

theorem Searching.step {u:V} (h:Searching nodes children ok a (u::queue) seen) :
    Marked ok nodes (children u) (seen,queue) (expand children ok seen queue u) ∧
    Searching nodes children ok a (expand children ok seen queue u).2
      (expand children ok seen queue u).1:=by
  have hu:=h.queued u mem_cons_self
  have hin:=hchildren u (h.inside u hu)
  have hm : Marked ok nodes _ _ (expand children ok seen queue u):=marked_foldl hin (seen,queue)
  refine ⟨hm,(hm.marks a).mpr (.inl h.start),fun v hv=>?_,fun v hv=>?_,fun v hv=>?_,
    fun w hw hno v hv hok=>?_⟩
  · rcases (hm.marks v).mp hv with hv | ⟨hv,-⟩
    · exact h.inside v hv
    · exact hin v hv
  · rcases (hm.marks v).mp hv with hv | hv
    · exact h.reached v hv
    · exact (h.reached u hu).tail hv
  · refine (hm.marks v).mpr ?_
    rcases (hm.queue v).mp hv with hv | ⟨-,hv⟩
    · exact .inl (h.queued v (mem_cons_of_mem u hv))
    · exact .inr hv
  · refine (hm.marks v).mpr ?_
    by_cases hwu : w=u
    · exact .inr ⟨hwu▸hv,hok⟩
    have hnew : w∈seen:=by
      by_contra hnot
      have hfresh:=((hm.marks w).mp hw).resolve_left hnot
      exact hno ((hm.queue w).mpr (.inr ⟨hnot,hfresh⟩))
    refine .inl (h.closed w hnew (fun hmem=>?_) v hv hok)
    rcases mem_cons.mp hmem with rfl | hmem
    · exact hwu rfl
    · exact hno ((hm.queue w).mpr (.inl hmem))

theorem Searching.search (h:Searching nodes children ok a queue seen)
    (hfuel:queue.length+(nodes \ seen).card≤fuel) :
    Searching nodes children ok a [] (search children ok fuel queue seen):=by
  induction fuel generalizing queue seen with
  | zero=>
    cases queue with
    | nil=>exact h
    | cons u queue=>exact absurd hfuel (by simp)
  | succ fuel ih=>
    cases queue with
    | nil=>exact h
    | cons u queue=>
      obtain ⟨hm,hnext⟩:=h.step hchildren
      have hsize:=hm.size
      dsimp only at hsize
      exact ih hnext (by rw [length_cons] at hfuel;omega)

omit hchildren [DecidableEq V] in
theorem Searching.mem_iff (h:Searching nodes children ok a [] seen) (v:V) :
    v∈seen ↔ Reach children ok a v:=by
  refine ⟨h.reached v,fun hv=>?_⟩
  induction hv with
  | refl=>exact h.start
  | tail _ hstep ih=>exact h.closed _ ih not_mem_nil _ hstep.1 hstep.2

theorem Searching.finds_iff {goal:V} (h:Searching nodes children ok a queue seen)
    (hgoal:goal∈seen → goal∈queue) (hfuel:queue.length+(nodes \ seen).card≤fuel) :
    finds children ok goal fuel queue seen = true ↔ Reach children ok a goal:=by
  induction fuel generalizing queue seen with
  | zero=>
    cases queue with
    | nil=>exact iff_of_false nofun fun hr=>not_mem_nil (hgoal ((h.mem_iff goal).mpr hr))
    | cons u queue=>exact absurd hfuel (by simp)
  | succ fuel ih=>
    cases queue with
    | nil=>exact iff_of_false nofun fun hr=>not_mem_nil (hgoal ((h.mem_iff goal).mpr hr))
    | cons u queue=>
      rw [finds,Bool.or_eq_true,decide_eq_true_eq]
      by_cases hu : u=goal
      · exact iff_of_true (.inl hu) (hu▸h.reached u (h.queued u mem_cons_self))
      rw [or_iff_right hu]
      obtain ⟨hm,hnext⟩:=h.step hchildren
      have hsize:=hm.size
      dsimp only at hsize
      refine ih hnext (fun hmem=>(hm.queue goal).mpr ?_) (by rw [length_cons] at hfuel;omega)
      by_cases hold : goal∈seen
      · exact .inl ((mem_cons.mp (hgoal hold)).resolve_left (Ne.symm hu))
      · exact .inr ⟨hold,((hm.marks goal).mp hmem).resolve_left hold⟩

omit hchildren in
theorem start_size (ha:a∈nodes) (hfuel:nodes.card≤fuel) :
    [a].length+(nodes \ {a}).card ≤ fuel:=by
  have hcard:=Finset.card_sdiff_add_card_eq_card (Finset.singleton_subset_iff.mpr ha)
  rw [Finset.card_singleton] at hcard
  change 1+_≤_
  omega

/-- The marks of a search are the nodes that are reached. -/
theorem mem_search (ha:a∈nodes) (hfuel:nodes.card≤fuel) (v:V) :
    v∈search children ok fuel [a] {a} ↔ Reach children ok a v:=
  ((searching_start ha).search hchildren (start_size ha hfuel)).mem_iff v

theorem finds_iff (ha:a∈nodes) (hfuel:nodes.card≤fuel) (goal:V) :
    finds children ok goal fuel [a] {a} = true ↔ Reach children ok a goal:=
  (searching_start ha).finds_iff hchildren (fun h=>mem_singleton.mpr (Finset.mem_singleton.mp h))
    (start_size ha hfuel)

end GraphSearch
