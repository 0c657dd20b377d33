import Mathlib.Data.Nat.Notation

/-!
# Marking what clashes with an earlier item

A list of items, some of them named, each with a mark. The place of the first item of each key is
remembered, and a later item that clashes with it marks both.
-/

namespace AutoRefirst.FirstSeen
open List Option

variable {π κ : Type} [BEq κ] (key : π→κ) (clash : π→π→Bool)

structure Kept (seen : List (κ×ℕ)) (v : List (Option π×Bool)) : Prop where
  first : ∀ c k, seen.lookup c = some k → ∃ p f, v[k]? = some (some p,f) ∧ key p = c
  listed : ∀ i p f, v[i]? = some (some p,f) → ∃ k q g,
    seen.lookup (key p) = some k ∧ v[k]? = some (some q,g) ∧
      (k=i ∨ clash q p = false ∨ (f=true ∧ g=true))

def mark (x : Option π×Bool) : Option π×Bool := (x.1,true)

namespace Kept

variable {key clash} {seen : List (κ×ℕ)} {v : List (Option π×Bool)}

theorem nil : Kept key clash ([] : List (κ×ℕ)) []:=
  ⟨fun c k h=>absurd h (by simp),fun i p f h=>absurd h (by simp)⟩

variable {x y : Option π×Bool} {i : ℕ}

theorem getElem?_push (h:(v++[x])[i]? = some y) : v[i]? = some y ∨ (i=v.length ∧ x=y):=by
  rcases Nat.lt_or_ge i v.length with hi | hi
  · rw [getElem?_append_left hi] at h
    exact .inl h
  · rw [getElem?_append_right hi] at h
    cases hz : i-v.length with
    | zero=>
      rw [hz] at h
      exact .inr ⟨by omega,some.inj h⟩
    | succ n=>
      rw [hz] at h
      simp at h

theorem getElem?_keep (h:v[i]? = some y) : (v++[x])[i]? = some y:=by
  have hi : i<v.length:=(List.getElem?_eq_some_iff.mp h).1
  rw [getElem?_append_left hi,h]

theorem getElem?_last : (v++[x])[v.length]? = some x:=by
  rw [getElem?_append_right (Nat.le_refl _),Nat.sub_self]
  rfl

/-- The new item is compared with the first of its key, if there is one. -/
theorem push (h:Kept key clash seen v) (x:Option π×Bool)
    (hx:∀p f,x=(some p,f) → ∃k q g,seen.lookup (key p)=some k ∧
      v[k]? = some (some q,g) ∧ (clash q p=false ∨ (f=true ∧ g=true))) :
    Kept key clash seen (v++[x]) where
  first:=by
    intro c k hk
    obtain ⟨p,f,hp,hkey⟩:=h.first c k hk
    exact ⟨p,f,getElem?_keep hp,hkey⟩
  listed:=by
    intro i p f hi
    rcases getElem?_push hi with hold | ⟨-,hnew⟩
    · obtain ⟨k,q,g,hk,hq,hm⟩:=h.listed i p f hold
      exact ⟨k,q,g,hk,getElem?_keep hq,hm⟩
    · obtain ⟨k,q,g,hk,hq,hm⟩:=hx p f hnew
      exact ⟨k,q,g,hk,getElem?_keep hq,.inr hm⟩

theorem skip (h:Kept key clash seen v) (f:Bool) : Kept key clash seen (v++[(none,f)]):=
  h.push (none,f) fun p g hx=>absurd hx (by simp)

theorem new [LawfulBEq κ] (h:Kept key clash seen v) {p:π} (hp:seen.lookup (key p)=none) (f:Bool) :
    Kept key clash (seen++[(key p,v.length)]) (v++[(some p,f)]) where
  first:=by
    intro c k hk
    rw [lookup_append] at hk
    cases hc : seen.lookup c with
    | some k'=>
      rw [hc] at hk
      obtain rfl : k'=k:=some.inj hk
      obtain ⟨q,g,hq,hkey⟩:=h.first c k' hc
      exact ⟨q,g,getElem?_keep hq,hkey⟩
    | none=>
      rw [hc,none_or,lookup_cons] at hk
      cases hck : c == key p with
      | true=>
        rw [hck] at hk
        obtain rfl : v.length=k:=some.inj hk
        exact ⟨p,f,getElem?_last,(eq_of_beq hck).symm⟩
      | false=>
        rw [hck] at hk
        simp at hk
  listed:=by
    intro i q g hi
    rcases getElem?_push hi with hold | ⟨hlen,hnew⟩
    · obtain ⟨k,r,m,hk,hr,hm⟩:=h.listed i q g hold
      refine ⟨k,r,m,?_,getElem?_keep hr,hm⟩
      rw [lookup_append,hk,some_or]
    · obtain ⟨rfl,rfl⟩ : p=q ∧ f=g:=by simpa using hnew
      refine ⟨v.length,p,f,?_,getElem?_last,.inl hlen.symm⟩
      rw [lookup_append,hp,none_or,lookup_cons_self]

variable {k : ℕ}

theorem getElem?_mark (h:(v.modify k mark)[i]? = some y) :
    ∃x,v[i]? = some x ∧ x.1=y.1 ∧ (x.2=true → y.2=true) ∧ (k=i → y.2=true):=by
  rw [getElem?_modify] at h
  cases hx : v[i]? with
  | none=>simp [hx] at h
  | some x=>
    rw [hx] at h
    by_cases hki : k=i
    · obtain rfl : mark x=y:=by simpa [hki] using h
      exact ⟨x,rfl,rfl,fun _=>rfl,fun _=>rfl⟩
    · obtain rfl : x=y:=by simpa [hki] using h
      exact ⟨x,rfl,rfl,id,fun h=>absurd h hki⟩

theorem getElem?_marked (h:v[i]? = some x) :
    ∃y,(v.modify k mark)[i]? = some y ∧ y.1=x.1 ∧ (x.2=true → y.2=true) ∧
      (k=i → y.2=true):=by
  by_cases hki : k=i
  · refine ⟨mark x,?_,rfl,fun _=>rfl,fun _=>rfl⟩
    simp [hki,h]
  · exact ⟨x,by simp [hki,h],rfl,id,fun h=>absurd h hki⟩

theorem marked (h:Kept key clash seen v) (k:ℕ) : Kept key clash seen (v.modify k mark) where
  first:=by
    intro c i hi
    obtain ⟨p,f,hp,hkey⟩:=h.first c i hi
    obtain ⟨y,hy,hname,-,-⟩:=getElem?_marked (k:=k) hp
    exact ⟨p,y.2,by rw [hy];exact congrArg some (Prod.ext hname rfl),hkey⟩
  listed:=by
    intro i p f hi
    obtain ⟨x,hx,hname,hmark,-⟩:=getElem?_mark hi
    have hx' : v[i]? = some (some p,x.2):=by
      rw [hx]
      exact congrArg some (Prod.ext hname rfl)
    obtain ⟨j,q,g,hj,hq,hm⟩:=h.listed i p x.2 hx'
    obtain ⟨y,hy,hyname,hymark,-⟩:=getElem?_marked (k:=k) hq
    refine ⟨j,q,y.2,hj,by rw [hy];exact congrArg some (Prod.ext hyname rfl),?_⟩
    rcases hm with rfl | hm | ⟨hf,hg⟩
    · exact .inl rfl
    · exact .inr (.inl hm)
    · exact .inr (.inr ⟨hmark hf,hymark hg⟩)

theorem clashes (h:Kept key clash seen v) {p:π} (hp:seen.lookup (key p)=some k) :
    Kept key clash seen (v.modify k mark++[(some p,true)]):=by
  apply (h.marked k).push
  intro q f hq
  obtain ⟨rfl,rfl⟩ : p=q ∧ true=f:=by simpa using hq
  obtain ⟨r,g,hr,-⟩:=h.first (key p) k hp
  obtain ⟨y,hy,hname,-,hmark⟩:=getElem?_marked (k:=k) hr
  refine ⟨k,r,y.2,hp,by rw [hy];exact congrArg some (Prod.ext hname rfl),.inr ⟨rfl,?_⟩⟩
  exact hmark rfl

end Kept

end AutoRefirst.FirstSeen
