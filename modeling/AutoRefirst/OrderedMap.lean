import Mathlib.Data.List.Basic

/-!
# Ordered maps

A map is the list of its entries in the order of their keys, which is the order in which a
`std::map` is walked.
-/

namespace AutoRefirst
open List Option

abbrev OrderedMap (κ ν : Type) := List (κ×ν)

namespace OrderedMap

variable {κ ν : Type} [Ord κ]

def find (m : OrderedMap κ ν) (k : κ) : Option ν :=
  (m.find? fun e => compare e.1 k == .eq).map Prod.snd

/-- `m[k] = v`. -/
def insert (k : κ) (v : ν) : OrderedMap κ ν → OrderedMap κ ν
  | [] => [(k,v)]
  | e::m =>
    match compare k e.1 with
    | .lt => (k,v) :: e::m
    | .eq => (e.1,v)::m
    | .gt => e :: insert k v m

variable {m : OrderedMap κ ν} {k : κ} {v : ν} {e : κ×ν}

theorem value_insert (he:e∈insert k v m) : e.2=v ∨ e∈m:=by
  induction m with
  | nil=>
    rw [insert,mem_singleton] at he
    exact .inl (by rw [he])
  | cons x m ih=>
    rw [insert] at he
    split at he
    · rcases mem_cons.mp he with rfl | hmem
      · exact .inl rfl
      · exact .inr hmem
    · rcases mem_cons.mp he with rfl | hmem
      · exact .inl rfl
      · exact .inr (mem_cons_of_mem _ hmem)
    · rcases mem_cons.mp he with rfl | hmem
      · exact .inr mem_cons_self
      · rcases ih hmem with hv | hm
        · exact .inl hv
        · exact .inr (mem_cons_of_mem _ hm)

theorem mem_of_find (h:m.find k=some v) : ∃e∈m,e.2=v:=by
  obtain ⟨e,he,hv⟩:=map_eq_some_iff.mp h
  exact ⟨e,mem_of_find?_eq_some he,hv⟩

theorem mem_insert [Std.LawfulEqOrd κ] (he:e∈insert k v m) : e=(k,v) ∨ e∈m:=by
  induction m with
  | nil=>
    rw [insert,mem_singleton] at he
    exact .inl he
  | cons x m ih=>
    rw [insert] at he
    split at he
    · exact mem_cons.mp he
    · rename_i heq
      rw [Std.compare_eq_iff_eq] at heq
      rcases mem_cons.mp he with rfl | hmem
      · exact .inl (by rw [heq])
      · exact .inr (mem_cons_of_mem _ hmem)
    · rcases mem_cons.mp he with rfl | hmem
      · exact .inr mem_cons_self
      · exact (ih hmem).imp_right (mem_cons_of_mem _)

/-- A search for other keys does not see an insertion. -/
theorem find?_insert_of_not [Std.LawfulEqOrd κ] {p:κ×ν → Bool} (hp:∀w,p (k,w)=false) :
    (insert k v m).find? p=m.find? p:=by
  induction m with
  | nil=>simp [insert,hp]
  | cons x m ih=>
    rw [insert]
    split
    · rw [find?_cons_of_neg (by rw [hp];decide)]
    · rename_i heq
      rw [Std.compare_eq_iff_eq] at heq
      obtain ⟨x,w⟩:=x
      subst heq
      rw [find?_cons_of_neg (by rw [hp];decide),find?_cons_of_neg (by rw [hp];decide)]
    · rw [find?_cons,find?_cons,ih]

theorem find_eq_some [Std.LawfulEqOrd κ] (h:m.find k=some v) : (k,v)∈m:=by
  obtain ⟨⟨x,w⟩,he,rfl⟩:=map_eq_some_iff.mp h
  have hx : compare x k=.eq:=by simpa using find?_some he
  rw [Std.compare_eq_iff_eq] at hx
  exact hx▸mem_of_find?_eq_some he

theorem find_eq_none [Std.LawfulEqOrd κ] (h:m.find k=none) (he:e∈m) : e.1≠k:=by
  intro heq
  have hnone:=find?_eq_none.mp (map_eq_none_iff.mp h) e he
  rw [heq,Std.compare_self] at hnone
  exact hnone rfl

theorem find_insert {k':κ} {x:ν} [Std.LawfulEqOrd κ] (hnone:m.find k=none)
    (h:(insert k v m).find k'=some x) :
    m.find k'=some x ∨ x=v:=by
  by_cases hk : k=k'
  · subst hk
    right
    rcases mem_insert (find_eq_some h) with heq | hmem
    · exact (Prod.mk.inj heq).2
    · exact absurd rfl (find_eq_none hnone hmem)
  · left
    rw [find,find?_insert_of_not] at h
    · exact h
    · intro w
      simpa using fun heq=>hk (Std.compare_eq_iff_eq.mp heq)

def Sorted (m : OrderedMap κ ν) : Prop := m.Pairwise fun a b => compare a.1 b.1 = .lt

theorem sorted_insert [Std.TransOrd κ] [Std.LawfulEqOrd κ] (h:Sorted m) (k:κ) (v:ν) :
    Sorted (insert k v m):=by
  induction m with
  | nil=>exact pairwise_singleton _ _
  | cons x m ih=>
    obtain ⟨hx,hm⟩:=pairwise_cons.mp h
    rw [insert]
    split
    · rename_i hlt
      refine pairwise_cons.mpr ⟨fun e he=>?_,h⟩
      rcases mem_cons.mp he with rfl | hmem
      · exact hlt
      · exact Std.TransCmp.lt_trans hlt (hx e hmem)
    · exact pairwise_cons.mpr ⟨hx,hm⟩
    · rename_i hgt
      refine pairwise_cons.mpr ⟨fun e he=>?_,ih hm⟩
      rcases mem_insert he with rfl | hmem
      · exact Std.OrientedCmp.lt_of_gt hgt
      · exact hx e hmem

theorem mem_insert_iff [Std.TransOrd κ] [Std.LawfulEqOrd κ] (h:Sorted m)
    : e∈insert k v m ↔ e=(k,v) ∨ e∈m ∧ e.1≠k:=by
  induction m with
  | nil=>simp [insert]
  | cons x m ih=>
    obtain ⟨hx,hm⟩:=pairwise_cons.mp h
    have hother : ∀y∈m,compare k x.1≠.gt → y.1≠k:=by
      rintro y hy hk rfl
      exact hk (Std.OrientedCmp.gt_of_lt (hx y hy))
    rw [insert]
    split
    · rename_i hlt
      have hxk : x.1≠k:=by
        rintro rfl
        rw [Std.compare_self] at hlt
        cases hlt
      grind
    · rename_i heq
      have hxk : k=x.1:=Std.compare_eq_iff_eq.mp heq
      grind
    · rename_i hgt
      have hxk : x.1≠k:=by
        rintro rfl
        rw [Std.compare_self] at hgt
        cases hgt
      rw [mem_cons,mem_cons,ih hm]
      grind

end OrderedMap

end AutoRefirst
