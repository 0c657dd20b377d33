import Mathlib.Data.Finset.Card

/-!
# Answers that use up requests

A list of events holds requests and answers. Every answer has an earlier request that
belongs to it, and no request is used by two answers. The rules extend such a list by one
event at its end.
-/

namespace AutoRefirst.AnsweredRequests
open List

variable {α : Type*} (request answer : α→Bool) (same : α→α→Prop)

/-- The function `f` gives each answer, by position, the position of its request. -/
structure Answered (l : List α) (f : ℕ→ℕ) : Prop where
  earlier : ∀ i a, l[i]? = some a → answer a →
    f i < i ∧ ∃ b, l[f i]? = some b ∧ request b ∧ same b a
  once : Set.InjOn f {i | ∃ a, l[i]? = some a ∧ answer a}

def Free (l : List α) (f : ℕ→ℕ) (t : ℕ) : Prop :=
  ∀ i a, l[i]? = some a → answer a → f i ≠ t

variable {request answer same} {l : List α} {f : ℕ→ℕ} {a : α} {i : ℕ} {x : α}

theorem getElem?_snoc (h:(l++[a])[i]? = some x) : l[i]? = some x ∨ i=l.length ∧ x=a:=by
  rcases Nat.lt_trichotomy i l.length with hi | hi | hi
  · rw [getElem?_append_left hi] at h
    exact Or.inl h
  · subst hi
    rw [getElem?_concat_length] at h
    exact Or.inr ⟨rfl,(Option.some.inj h).symm⟩
  · rw [getElem?_eq_none (by simp only [length_append,length_singleton];omega)] at h
    simp at h

theorem getElem?_snoc_of (h:l[i]? = some x) : (l++[a])[i]? = some x:=by
  obtain ⟨hi,-⟩:=List.getElem?_eq_some_iff.mp h
  rw [getElem?_append_left hi]
  exact h

theorem answered_nil : Answered request answer same ([] : List α) f:=
  ⟨fun _ _ h=>absurd h (by simp),fun _ ⟨_,h,_⟩=>absurd h (by simp)⟩

theorem Answered.free_length (h:Answered request answer same l f) : Free answer l f l.length:=by
  intro i x hx ha hfi
  have hlt:=(h.earlier i x hx ha).1
  obtain ⟨hi,-⟩:=List.getElem?_eq_some_iff.mp hx
  omega

theorem Answered.snoc (h:Answered request answer same l f) (ha:answer a=false) :
    Answered request answer same (l++[a]) f:=by
  have hold : ∀(i:ℕ) (x:α),(l++[a])[i]? = some x → answer x → l[i]? = some x:=by
    intro i x hx hxa
    rcases getElem?_snoc hx with hx | ⟨-,rfl⟩
    · exact hx
    · rw [ha] at hxa
      simp at hxa
  constructor
  · intro i x hx hxa
    obtain ⟨hlt,b,hb,hrest⟩:=h.earlier i x (hold i x hx hxa) hxa
    exact ⟨hlt,b,getElem?_snoc_of hb,hrest⟩
  · rintro i ⟨x,hx,hxa⟩ j ⟨y,hy,hya⟩ hij
    exact h.once ⟨x,hold i x hx hxa,hxa⟩ ⟨y,hold j y hy hya,hya⟩ hij

variable {t : ℕ}

theorem Free.snoc (h:Free answer l f t) (ha:answer a=false) : Free answer (l++[a]) f t:=by
  intro i x hx hxa
  rcases getElem?_snoc hx with hx | ⟨-,rfl⟩
  · exact h i x hx hxa
  · rw [ha] at hxa
    simp at hxa

theorem update_of_old (hx:l[i]? = some x) : Function.update f l.length t i=f i:=by
  obtain ⟨hi,-⟩:=List.getElem?_eq_some_iff.mp hx
  exact Function.update_of_ne (Nat.ne_of_lt hi) _ _

theorem Answered.snoc_answer (h:Answered request answer same l f) {b:α} (ht:l[t]? = some b)
    (hreq:request b) (hsame:same b a) (hfree:Free answer l f t) :
    Answered request answer same (l++[a]) (Function.update f l.length t):=by
  constructor
  · intro i x hx hxa
    rcases getElem?_snoc hx with hold | ⟨rfl,rfl⟩
    · obtain ⟨hlt,c,hc,hrest⟩:=h.earlier i x hold hxa
      rw [update_of_old hold]
      exact ⟨hlt,c,getElem?_snoc_of hc,hrest⟩
    · rw [Function.update_self]
      obtain ⟨hlt,-⟩:=List.getElem?_eq_some_iff.mp ht
      exact ⟨hlt,b,getElem?_snoc_of ht,hreq,hsame⟩
  · rintro i ⟨x,hx,hxa⟩ j ⟨y,hy,hya⟩ hij
    rcases getElem?_snoc hx with hoi | ⟨rfl,rfl⟩ <;> rcases getElem?_snoc hy with hoj | ⟨rfl,rfl⟩
    · rw [update_of_old hoi,update_of_old hoj] at hij
      exact h.once ⟨x,hoi,hxa⟩ ⟨y,hoj,hya⟩ hij
    · rw [update_of_old hoi,Function.update_self] at hij
      exact absurd hij (hfree i x hoi hxa)
    · rw [Function.update_self,update_of_old hoj] at hij
      exact absurd hij.symm (hfree j y hoj hya)
    · rfl

theorem Free.snoc_answer {u:ℕ} (h:Free answer l f u) (hne:u≠t) :
    Free answer (l++[a]) (Function.update f l.length t) u:=by
  intro i x hx hxa
  rcases getElem?_snoc hx with hold | ⟨rfl,rfl⟩
  · rw [update_of_old hold]
    exact h i x hold hxa
  · rw [Function.update_self]
    exact fun htu=>hne htu.symm

/-- The positions of the events that meet a predicate. -/
def positions (p : α→Bool) (l : List α) : Finset ℕ :=
  (Finset.range l.length).filter fun i => (l[i]?).any p

theorem mem_positions {p:α→Bool} : i∈positions p l ↔ ∃x,l[i]? = some x ∧ p x:=by
  unfold positions
  rw [Finset.mem_filter,Finset.mem_range,Option.any_eq_true]
  constructor
  · rintro ⟨-,x,hx,hp⟩
    exact ⟨x,hx,hp⟩
  · rintro ⟨x,hx,hp⟩
    obtain ⟨hi,-⟩:=List.getElem?_eq_some_iff.mp hx
    exact ⟨hi,x,hx,hp⟩

theorem card_positions (p:α→Bool) (l:List α) : (positions p l).card=l.countP p:=by
  induction l using List.reverseRecOn with
  | nil=>rfl
  | append_singleton l a ih=>
    have hkeep : (Finset.range l.length).filter (fun i=>((l++[a])[i]?).any p) = positions p l:=by
      apply Finset.filter_congr
      intro i hi
      rw [getElem?_append_left (Finset.mem_range.mp hi)]
    have hlen : (l++[a]).length=l.length+1:=by simp
    rw [positions,hlen,Finset.range_add_one,Finset.filter_insert,hkeep,
      getElem?_concat_length,countP_append,countP_singleton,← ih]
    cases hp : p a
    · simp [hp]
    · have hnew : l.length ∉ positions p l:=by
        rw [mem_positions]
        rintro ⟨x,hx,-⟩
        rw [getElem?_eq_none (Nat.le_refl _)] at hx
        simp at hx
      simp [hp,Finset.card_insert_of_notMem hnew]

theorem Answered.countP_le (h:Answered request answer same l f) :
    l.countP answer≤l.countP request:=by
  rw [← card_positions,← card_positions]
  apply Finset.card_le_card_of_injOn f
  · intro i hi
    obtain ⟨x,hx,hxa⟩:=mem_positions.mp hi
    obtain ⟨-,b,hb,hreq,-⟩:=h.earlier i x hx hxa
    exact mem_positions.mpr ⟨b,hb,hreq⟩
  · intro i hi j hj hij
    exact h.once (mem_positions.mp hi) (mem_positions.mp hj) hij

end AutoRefirst.AnsweredRequests
