import AutoRefirst.GreedySelection

/-!
# The best of a stream, in a bounded heap

`std::push_heap` and `std::pop_heap` are only known by their contracts: they permute, and
they keep a binary heap whose first element is the worst. A stream that is admitted one by
one into a heap of bounded size leaves the best of all its elements there.
-/

namespace AutoRefirst.BoundedHeap
open List

open GreedySelection (StdSort)

/-- No element is smaller than its parent, which is the standard's heap for `lt`. -/
def IsHeap {α : Type} (lt : α→α→Bool) (l : List α) : Prop :=
  ∀ i a b, l[i/2]? = some a → l[i + 1]? = some b → lt a b = false

structure StdHeap where
  (push pop : {α : Type} → (α → α → Bool) → List α → List α)
  push_perm : ∀ {α : Type} (lt : α→α→Bool) (l : List α), (push lt l).Perm l
  pop_perm : ∀ {α : Type} (lt : α→α→Bool) (l : List α), (pop lt l).Perm l
  push_heap : ∀ {α β : Type} [LinearOrder β] (lt : α→α→Bool) (rank : α→β)
    (_ : ∀ a b, lt a b = true ↔ rank a < rank b) (l : List α) (x : α),
    IsHeap lt l → IsHeap lt (push lt (l++[x]))
  pop_heap : ∀ {α β : Type} [LinearOrder β] (lt : α→α→Bool) (rank : α→β)
    (_ : ∀ a b, lt a b = true ↔ rank a < rank b) (a : α) (l : List α),
    IsHeap lt (a::l) → ∃ m, pop lt (a::l) = m++[a] ∧ IsHeap lt m

section Ranked

variable {α β : Type} [LinearOrder β] {lt : α→α→Bool} {rank : α→β}

theorem rank_le_head (hlt:∀a b,lt a b=true ↔ rank a < rank b) {a:α} {l:List α}
    (hheap:IsHeap lt (a::l)) : ∀b∈a::l,rank b ≤ rank a:=by
  have hat : ∀(i:ℕ) (b:α),(a::l)[i]? = some b → rank b ≤ rank a:=by
    intro i
    induction i using Nat.strong_induction_on with
    | _ i ih=>
      intro b hb
      cases i with
      | zero=>
        rw [getElem?_cons_zero,Option.some_inj] at hb
        rw [hb]
      | succ i=>
        have hlen : i+1<(a::l).length:=(List.getElem?_eq_some_iff.mp hb).1
        have hhalf : i/2<(a::l).length:=by omega
        have hparent : (a::l)[i/2]? = some (a::l)[i/2]:=getElem?_eq_getElem hhalf
        have hle:=hheap i _ b hparent hb
        rw [← Bool.not_eq_true,hlt,not_lt] at hle
        exact hle.trans (ih (i/2) (by omega) _ hparent)
  intro b hb
  obtain ⟨i,hi⟩:=mem_iff_getElem?.mp hb
  exact hat i b hi

theorem isHeap_of_sorted {l:List α} (hl:l.Pairwise fun a b=>lt a b = false) :
    IsHeap lt l:=by
  intro i a b ha hb
  obtain ⟨hi,rfl⟩:=List.getElem?_eq_some_iff.mp ha
  obtain ⟨hj,rfl⟩:=List.getElem?_eq_some_iff.mp hb
  exact pairwise_iff_getElem.mp hl _ _ hi hj (by omega)

end Ranked

/-- Heaps that are kept sorted, the worst element first. -/
def sortedStdHeap (S : StdSort) : StdHeap where
  push lt l := S.sort (fun a b => lt b a) l
  pop lt l := (S.sort (fun a b => lt b a) l.tail)++l.head?.toList
  push_perm lt l := S.perm _ l
  pop_perm lt l := by
    cases l with
    | nil => simpa using S.perm (fun a b => lt b a) []
    | cons a l =>
      exact ((S.perm _ l).append_right _).trans (@List.perm_append_comm _ l [a])
  push_heap lt rank hlt l x _ := by
    exact isHeap_of_sorted (S.sorted _ (fun a => OrderDual.toDual (rank a)) (fun a b => hlt b a) _)
  pop_heap lt rank hlt a l _ := by
    refine ⟨_,rfl,isHeap_of_sorted ?_⟩
    exact S.sorted _ (fun a => OrderDual.toDual (rank a)) (fun a b => hlt b a) _

/-- One element of the stream. A full heap takes it in the place of its worst element, and
only when it is better. -/
def offer {α : Type} (H : StdHeap) (better : α→α→Bool) (cap : ℕ) (kept : List α) (x : α) : List α :=
  if kept.length < cap then H.push better (kept++[x])
  else
    match kept.head? with
    | none => kept
    | some worst =>
      if better x worst then H.push better ((H.pop better kept).dropLast++[x]) else kept

/-- The heap holds the best of what was seen: nothing that was left out ranks before
anything that was kept. -/
structure KeepsBest {α β : Type} [LinearOrder β] (better : α→α→Bool) (rank : α→β) (cap : ℕ)
    (seen kept : List α) : Prop where
  heap : IsHeap better kept
  length : kept.length = min cap seen.length
  best : ∃ left : List α, (kept++left).Perm seen ∧ ∀ k∈kept, ∀ o∈left, rank k ≤ rank o

section Ranked

variable {α β : Type} [LinearOrder β] {better : α→α→Bool} {rank : α→β} {cap : ℕ}
  {seen kept : List α}

theorem keepsBest_nil : KeepsBest better rank cap [] [] where
  heap:=by
    intro i a b ha
    simp at ha
  length:=by simp
  best:=⟨[],.nil,by simp⟩

theorem KeepsBest.offer (H:StdHeap) (hlt:∀a b,better a b=true ↔ rank a < rank b)
    (h:KeepsBest better rank cap seen kept) (x:α) :
    KeepsBest better rank cap (seen++[x]) (offer H better cap kept x):=by
  obtain ⟨hheap,hlength,left,hperm,hbest⟩:=h
  have hcount:=hperm.length_eq
  rw [length_append] at hcount
  unfold BoundedHeap.offer
  split
  · -- A heap that is not full has left nothing out.
    rename_i hroom
    have hleft : left=[]:=eq_nil_of_length_eq_zero (by omega)
    subst hleft
    rw [append_nil] at hperm
    refine ⟨H.push_heap better rank hlt kept x hheap,?_,[],?_,by simp⟩
    · rw [(H.push_perm better _).length_eq]
      simp only [length_append,length_singleton]
      omega
    · rw [append_nil]
      exact (H.push_perm better _).trans (hperm.append_right [x])
  · rename_i hfull
    have hout : ∀y,(kept++y::left).Perm (seen++[y]):=fun y=>
      perm_middle.trans ((hperm.cons y).trans (perm_append_singleton y seen).symm)
    split
    · rename_i hempty
      rw [head?_eq_none_iff] at hempty
      subst hempty
      refine ⟨hheap,?_,x::left,hout x,by simp⟩
      simp only [length_nil,length_append,length_singleton] at hlength hfull ⊢
      omega
    · rename_i worst hworst
      obtain ⟨rest,rfl⟩ : ∃rest,kept=worst::rest:=by
        cases kept with
        | nil=>cases hworst
        | cons a rest=>exact ⟨rest,by rw [Option.some.inj hworst]⟩
      have hhead:=rank_le_head hlt hheap
      split
      · rename_i hbetter
        rw [hlt] at hbetter
        obtain ⟨m,hpop,hm⟩:=H.pop_heap better rank hlt worst rest hheap
        have hmperm : (m++[worst]).Perm (worst::rest):=hpop▸H.pop_perm better _
        have hmem : ∀k∈m,k∈worst::rest:=fun k hk=>
          hmperm.subset (mem_append_left _ hk)
        rw [hpop,dropLast_concat]
        have hpush:=H.push_perm better (m++[x])
        refine ⟨H.push_heap better rank hlt m x hm,?_,worst::left,?_,?_⟩
        · have hlen:=hmperm.length_eq
          rw [hpush.length_eq]
          simp only [length_append,length_cons,length_nil] at hlen hlength ⊢
          simp only [length_cons] at hfull
          omega
        · have hpull : (m++[x]++worst::left).Perm (x::(m++[worst]++left)):=by
            simp
          calc List.Perm (H.push better (m++[x])++worst::left) (m++[x]++worst::left):=
                hpush.append_right _
            List.Perm _ (x::(m++[worst]++left)):=hpull
            List.Perm _ (x::(worst::rest++left)):=(hmperm.append_right left).cons x
            List.Perm _ (x::seen):=hperm.cons x
            List.Perm _ (seen++[x]):=(perm_append_singleton x seen).symm
        · intro k hk o ho
          rw [hpush.mem_iff,mem_append,mem_singleton] at hk
          have hold : ∀k∈worst::rest,rank k ≤ rank o:=by
            intro k hk
            rcases mem_cons.mp ho with rfl | ho
            · exact hhead k hk
            · exact hbest k hk o ho
          rcases hk with hk | rfl
          · exact hold k (hmem k hk)
          · exact hbetter.le.trans (hold worst mem_cons_self)
      · rename_i hworse
        rw [hlt,not_lt] at hworse
        refine ⟨hheap,?_,x::left,hout x,?_⟩
        · simp only [length_cons,length_append,length_nil] at hlength hfull ⊢
          omega
        · intro k hk o ho
          rcases mem_cons.mp ho with rfl | ho
          · exact (hhead k hk).trans hworse
          · exact hbest k hk o ho

/-- Where no two elements that were seen rank the same, the sorted heap is the front of the
whole sorted stream. -/
theorem KeepsBest.sort_eq_take (S:StdSort) (hlt:∀a b,better a b=true ↔ rank a < rank b)
    (hinj:∀a∈seen,∀b∈seen,rank a=rank b → a=b)
    (h:KeepsBest better rank cap seen kept) :
    S.sort better kept=(S.sort better seen).take cap:=by
  obtain ⟨-,hlength,left,hperm,hbest⟩:=h
  have hsorted : ∀l : List α,(S.sort better l).Pairwise fun a b=>rank a ≤ rank b:=by
    intro l
    refine (S.sorted better rank hlt l).imp fun {a b} hab=>?_
    rwa [← Bool.not_eq_true,hlt,not_lt] at hab
  have hpermS : (S.sort better kept++S.sort better left).Perm (S.sort better seen):=
    ((S.perm better kept).append (S.perm better left)).trans
      (hperm.trans (S.perm better seen).symm)
  have hall : S.sort better kept++S.sort better left = S.sort better seen:=by
    refine hpermS.eq_of_pairwise (fun a b ha hb hab hba=>?_) ?_ (hsorted seen)
    · exact hinj a ((S.perm better seen).subset (hpermS.subset ha)) b
        ((S.perm better seen).subset hb) (le_antisymm hab hba)
    · refine pairwise_append.mpr ⟨hsorted kept,hsorted left,fun a ha b hb=>?_⟩
      exact hbest a ((S.perm better kept).subset ha) b ((S.perm better left).subset hb)
  have hkept:=(S.perm better kept).length_eq
  have hcount:=hperm.length_eq
  rw [length_append] at hcount
  rcases Nat.le_total seen.length cap with hle | hle
  · have hleft : left=[]:=eq_nil_of_length_eq_zero (by omega)
    rw [hleft,eq_nil_of_length_eq_zero (S.perm better []).length_eq, append_nil] at hall
    rw [hall,take_of_length_le]
    rwa [(S.perm better seen).length_eq]
  · rw [← hall,take_append_of_le_length (by omega),take_of_length_le (by omega)]

end Ranked

end AutoRefirst.BoundedHeap
