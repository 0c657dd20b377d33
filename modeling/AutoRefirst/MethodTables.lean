import AutoRefirst.Fallible
import AutoRefirst.PortableExecutable
import Mathlib.Data.Finset.Card

/-!
# Method tables

The methods of a metadata file as they are retained, the slots of the methods of an image by
row id, and updates of a list at several places.
-/

namespace AutoRefirst.MethodDispatch
open List Option

open Fallible

section
variable {α : Type}

def updates (us : List (ℕ×(α → α))) (l : List α) : List α :=
  us.foldl (fun l u => l.modify u.1 u.2) l

theorem updates_append (us vs:List (ℕ×(α → α))) (l:List α) :
    updates (us++vs) l=updates vs (updates us l):=foldl_append

theorem length_updates (us:List (ℕ×(α → α))) (l:List α) : (updates us l).length=l.length:=by
  induction us generalizing l with
  | nil=>rfl
  | cons u us ih=>exact (ih _).trans (length_modify _ _ _)

variable {l : List α}

theorem getElem?_updates_of_not_mem {us:List (ℕ×(α → α))} {i:ℕ} (h:i ∉ us.map Prod.fst) :
    (updates us l)[i]? = l[i]? := by
  induction us generalizing l with
  | nil=>rfl
  | cons u us ih=>
    rw [map_cons,mem_cons,not_or] at h
    rw [updates,foldl_cons]
    refine (ih h.2).trans ?_
    rw [getElem?_modify]
    simp only [if_neg (Ne.symm h.1)]
    exact map_id_apply

theorem foldlM_updates {β ε:Type} {f:List α → β → Except ε (List α)} {u:β → ℕ×(α → α)}
    {xs:List β} {l':List α}
    (hstep:∀x∈xs,∀l l',f l x=.ok l' → l'=l.modify (u x).1 (u x).2)
    (h:xs.foldlM f l=.ok l') : l'=updates (xs.map u) l:=by
  induction xs generalizing l with
  | nil=>
    cases h
    rfl
  | cons x xs ih=>
    rw [foldlM_cons,bind_eq_ok] at h
    obtain ⟨l₁,hx,h⟩:=h
    obtain rfl:=hstep x mem_cons_self l l₁ hx
    exact ih (fun y hy=>hstep y (mem_cons_of_mem x hy)) h

theorem getElem?_updates {us:List (ℕ×(α → α))} {i:ℕ} {f:α→α}
    (hnodup:(us.map Prod.fst).Nodup) (h:(i,f)∈us) : (updates us l)[i]? = l[i]?.map f:=by
  induction us generalizing l with
  | nil=>cases h
  | cons u us ih=>
    rw [map_cons,nodup_cons] at hnodup
    rcases mem_cons.mp h with rfl | h
    · refine (getElem?_updates_of_not_mem hnodup.1).trans ?_
      rw [getElem?_modify]
      simp only [if_true]
      rfl
    · have hne : u.1≠i:=by
        intro heq
        rw [heq] at hnodup
        exact hnodup.1 (mem_map.mpr ⟨(i,f),h,rfl⟩)
      refine (ih hnodup.2 h).trans ?_
      rw [getElem?_modify]
      simp only [if_neg hne]
      exact congrArg _ map_id_apply

end

/-- The low part of a metadata token. -/
def rid (token : ℕ) : ℕ := token % 0x1000000

def table (token : ℕ) : ℕ := token/0x1000000

/-- A method is put into the slot of its row id; a slot is taken once. -/
def place (tokens : ℕ→ℕ) (allowed : ℕ→Bool) (e : String) (slots : List (Option ℕ)) (i : ℕ) :
    Except String (List (Option ℕ)) :=
  if ¬allowed (tokens i) ∨ rid (tokens i) = 0 ∨ slots.length < rid (tokens i) ∨
      (slots[rid (tokens i) - 1]?.join).isSome then .error e
  else .ok (slots.set (rid (tokens i) - 1) (some i))

/-- The methods of a group by row id. -/
def slotsOf (tokens : ℕ→ℕ) (allowed : ℕ→Bool) (e : String) (group : List ℕ) :
    Except String (List (Option ℕ)) :=
  group.foldlM (place tokens allowed e) (List.replicate group.length none)

section
variable {tokens : ℕ→ℕ} {allowed : ℕ→Bool} {e : String}

/-- The slots hold the methods that were placed, each under its row id. -/
structure Placed (tokens : ℕ→ℕ) (n : ℕ) (slots : List (Option ℕ)) (placed : List ℕ) : Prop where
  length : slots.length=n
  holds : ∀ k i, slots[k]? = some (some i) → i∈placed ∧ rid (tokens i) = k+1
  held : ∀ i∈placed, rid (tokens i) ≠ 0 ∧ slots[rid (tokens i) - 1]? = some (some i)

variable {slots : List (Option ℕ)}

theorem Placed.step {n:ℕ} {slots':List (Option ℕ)} {placed:List ℕ} {i:ℕ}
    (h:Placed tokens n slots placed) (hs:place tokens allowed e slots i=.ok slots') :
    Placed tokens n slots' (placed++[i]):=by
  rw [place] at hs
  split at hs
  · cases hs
  · rename_i hok
    cases hs
    simp only [not_or,not_lt] at hok
    obtain ⟨-,hzero,hle,hfree⟩:=hok
    have hlt : rid (tokens i) - 1 < slots.length:=by omega
    refine ⟨by rw [length_set,h.length],fun k j hk=>?_,fun j hj=>?_⟩
    · rw [getElem?_set] at hk
      split at hk
      · rename_i heq
        cases hk
        exact ⟨by simp,by omega⟩
      · have hold:=h.holds k j hk
        exact ⟨mem_append_left _ hold.1,hold.2⟩
    · rcases mem_append.mp hj with hj | hj
      · obtain ⟨hne,hold⟩:=h.held j hj
        refine ⟨hne,?_⟩
        rw [getElem?_set,if_neg,hold]
        intro heq
        rw [heq,hold] at hfree
        exact hfree rfl
      · obtain rfl:=mem_singleton.mp hj
        refine ⟨hzero,?_⟩
        rw [getElem?_set,if_pos rfl,if_pos hlt]

theorem Placed.run {n:ℕ} {slots':List (Option ℕ)} {placed group:List ℕ}
    (h:Placed tokens n slots placed)
    (hs:group.foldlM (place tokens allowed e) slots=.ok slots') :
    Placed tokens n slots' (placed++group):=by
  induction group generalizing slots placed with
  | nil=>
    cases hs
    rwa [append_nil]
  | cons i group ih=>
    rw [foldlM_cons,bind_eq_ok] at hs
    obtain ⟨slots₁,hplace,hs⟩:=hs
    have hnext:=ih (h.step hplace) hs
    rwa [append_assoc,singleton_append] at hnext

/-- The slots are full: the methods of the group stand in the order of their row ids. -/
theorem slotsOf_eq_ok {group:List ℕ} (hgroup:group.Nodup)
    (hs:slotsOf tokens allowed e group=.ok slots) :
    ∃ms : List ℕ,slots=ms.map some ∧ ms.Perm group ∧
      ∀k i,ms[k]? = some i → rid (tokens i) = k+1:=by
  have hstart : Placed tokens group.length (List.replicate group.length none) []:=by
    refine ⟨length_replicate,fun k i hk=>?_,fun i hi=>by cases hi⟩
    rw [getElem?_replicate] at hk
    split at hk <;> cases hk
  have h:=hstart.run hs
  rw [nil_append] at h
  -- the row ids of the group are as many as the slots
  have hinj : Set.InjOn (fun i=>rid (tokens i) - 1) (group.toFinset : Set ℕ):=by
    intro i hi j hj heq
    have hi':=(h.held i (mem_toFinset.mp hi)).2
    have hj':=(h.held j (mem_toFinset.mp hj)).2
    rw [show rid (tokens i) - 1 = rid (tokens j) - 1 from heq,hj'] at hi'
    exact (some.inj (some.inj hi')).symm
  have himage : group.toFinset.image (fun i=>rid (tokens i) - 1) = Finset.range group.length:=by
    apply Finset.eq_of_subset_of_card_le
    · intro k hk
      obtain ⟨i,hi,rfl⟩:=Finset.mem_image.mp hk
      have hheld:=(h.held i (mem_toFinset.mp hi)).2
      rw [Finset.mem_range,← h.length]
      exact (List.getElem?_eq_some_iff.mp hheld).1
    · rw [Finset.card_image_of_injOn hinj,toFinset_card_of_nodup hgroup,Finset.card_range]
  have hfull : ∀k<slots.length,∃i,slots[k]? = some (some i):=by
    intro k hk
    rw [h.length,← Finset.mem_range,← himage] at hk
    obtain ⟨i,hi,rfl⟩:=Finset.mem_image.mp hk
    exact ⟨i,(h.held i (mem_toFinset.mp hi)).2⟩
  have hsome : ∀s∈slots,s.isSome:=by
    intro s hs
    obtain ⟨k,hk,rfl⟩:=mem_iff_getElem.mp hs
    obtain ⟨i,hi⟩:=hfull k hk
    rw [getElem?_eq_getElem hk,some.injEq] at hi
    rw [hi]
    rfl
  have hslots : slots=(slots.filterMap id).map some:=by
    clear h hs hfull
    induction slots with
    | nil=>rfl
    | cons s slots ih=>
      obtain ⟨i,rfl⟩:=isSome_iff_exists.mp (hsome s mem_cons_self)
      have htail:=ih fun t ht=>hsome t (mem_cons_of_mem _ ht)
      exact congrArg (some i :: ·) htail
  have hrow : ∀k i,(slots.filterMap id)[k]? = some i → i∈group ∧ rid (tokens i) = k+1:=by
    intro k i hk
    apply h.holds
    rw [hslots,getElem?_map,hk]
    rfl
  refine ⟨slots.filterMap id,hslots,?_,fun k i hk=>(hrow k i hk).2⟩
  have hnodup : (slots.filterMap id).Nodup:=by
    rw [nodup_iff_getElem?_ne_getElem?]
    intro k l hkl hl heq
    rw [getElem?_eq_getElem hl] at heq
    have hk':=(hrow k _ heq).2
    have hl':=(hrow l _ (getElem?_eq_getElem hl)).2
    omega
  refine (List.Nodup.subperm hnodup fun i hi=>?_).perm_of_length_le ?_
  · obtain ⟨k,hk⟩:=mem_iff_getElem?.mp hi
    exact (hrow k i hk).1
  · have hlen:=congrArg List.length hslots
    rw [length_map,h.length] at hlen
    exact hlen.le

end

end AutoRefirst.MethodDispatch
