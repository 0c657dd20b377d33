import Mathlib.Data.List.Basic

/-!
# Patches of a list

A patch replaces a block by another one of its length, and applies only where it finds
the block that it expects. `runs` are the maximal runs of a list of truth values.
-/

namespace AutoRefirst.BytePatches
open List Option

variable {α : Type}

def overwrite (l : List α) (off : ℕ) (new : List α) : List α :=
  l.take off ++ new ++ l.drop (off+new.length)

variable {l new : List α} {off : ℕ}

theorem length_overwrite (h:off+new.length≤l.length) : (overwrite l off new).length=l.length:=by
  simp only [overwrite,length_append,length_take,length_drop]
  omega

variable {i : ℕ}

theorem getElem?_overwrite_of_mem (h:off+new.length≤l.length) (hi:off ≤ i) (hi':i<off+new.length) :
    (overwrite l off new)[i]? = new[i-off]? := by
  have htake : (l.take off).length=off:=by
    rw [length_take]
    omega
  rw [overwrite,append_assoc,getElem?_append_right (by omega),htake,
    getElem?_append_left (by omega)]

theorem getElem?_overwrite_of_not_mem (h:off+new.length≤l.length)
    (hi:¬(off ≤ i ∧ i<off+new.length)) :
    (overwrite l off new)[i]? = l[i]? := by
  have htake : (l.take off).length=off:=by
    rw [length_take]
    omega
  rcases Nat.lt_or_ge i off with hlt | hge
  · rw [overwrite,append_assoc,getElem?_append_left (by omega),
      getElem?_take_of_lt hlt]
  · rw [overwrite,append_assoc,getElem?_append_right (by omega),htake,
      getElem?_append_right (by omega),getElem?_drop]
    congr 1
    omega

structure Patch (α : Type) where
  offset : ℕ
  (before after : List α)

namespace Patch

def Covers (p : Patch α) (i : ℕ) : Prop := p.offset ≤ i ∧ i<p.offset+p.after.length

def Fits (p : Patch α) (l : List α) : Prop :=
  p.offset + p.before.length ≤ l.length ∧ p.before.length=p.after.length ∧
    (l.drop p.offset).take p.before.length = p.before

instance [DecidableEq α] (p : Patch α) (l : List α) : Decidable (p.Fits l) :=
  inferInstanceAs (Decidable (_ ∧ _ ∧ _))

variable [DecidableEq α]

def apply (p : Patch α) (l : List α) : Option (List α) :=
  if p.Fits l then some (overwrite l p.offset p.after) else none

variable {p : Patch α} {l m : List α}

theorem apply_eq_some : p.apply l=some m ↔ p.Fits l ∧ overwrite l p.offset p.after=m:=by
  unfold apply
  split <;> simp [*]

theorem apply_length (h:p.apply l=some m) : m.length=l.length:=by
  obtain ⟨⟨hin,hlen,-⟩,rfl⟩:=apply_eq_some.mp h
  exact length_overwrite (by omega)

theorem apply_outside {i:ℕ} (h:p.apply l=some m) (hi:¬p.Covers i) : m[i]? = l[i]? := by
  obtain ⟨⟨hin,hlen,-⟩,rfl⟩:=apply_eq_some.mp h
  exact getElem?_overwrite_of_not_mem (by omega) hi

end Patch

variable [DecidableEq α]

def applyAll : List (Patch α) → List α → Option (List α)
  | [], l => some l
  | p::ps, l => (p.apply l).bind (applyAll ps)

variable {ps : List (Patch α)} {m : List α}

theorem applyAll_cons {p:Patch α} :
    applyAll (p::ps) l=some m ↔ ∃k,p.apply l=some k ∧ applyAll ps k=some m:=by
  rw [applyAll,bind_eq_some_iff]

theorem applyAll_length (h:applyAll ps l=some m) : m.length=l.length:=by
  induction ps generalizing l with
  | nil=>
    rw [← some.inj h]
  | cons p ps ih=>
    obtain ⟨k,hk,hrest⟩:=applyAll_cons.mp h
    rw [ih hrest,Patch.apply_length hk]

theorem applyAll_outside (h:applyAll ps l=some m) (hi:∀p∈ps,¬p.Covers i) :
    m[i]? = l[i]? := by
  induction ps generalizing l with
  | nil=>
    rw [← some.inj h]
  | cons p ps ih=>
    obtain ⟨k,hk,hrest⟩:=applyAll_cons.mp h
    rw [ih hrest fun q hq=>hi q (mem_cons_of_mem _ hq)]
    exact Patch.apply_outside hk (hi p mem_cons_self)

/-- The runs of `true`, as start and length, of a list that begins at `b` after `n` pending
values `true`. -/
def runs (b n : ℕ) : List Bool → List (ℕ×ℕ)
  | [] => if n = 0 then [] else [(b,n)]
  | true::l => runs b (n+1) l
  | false::l => (if n = 0 then [] else [(b,n)])++runs (b+n+1) 0 l

structure RunsOf (f : ℕ→Prop) (b : ℕ) (R : List (ℕ×ℕ)) : Prop where
  nonempty : ∀ r∈R, 0 < r.2
  start : ∀ r∈R, b ≤ r.1
  covers : ∀ j, b≤j → (f j ↔ ∃ r∈R, r.1≤j ∧ j < r.1+r.2)
  apart : R.Pairwise fun r s => r.1+r.2<s.1

variable {f : ℕ→Prop} {b n : ℕ}

theorem runsOf_pending (hn:∀j,j<n → f (b+j)) (hend:∀j,b+n≤j → ¬f j) :
    RunsOf f b (if n=0 then [] else [(b,n)]):=by
  split
  · refine ⟨by simp,by simp,?_,List.Pairwise.nil⟩
    intro j hj
    have hnot:=hend j (by omega)
    simp [hnot]
  · rename_i hpos
    refine ⟨?_,by simp,?_,pairwise_singleton _ _⟩
    · simp only [mem_singleton,forall_eq]
      omega
    · intro j hj
      simp only [mem_singleton,exists_eq_left]
      constructor
      · intro hf
        refine ⟨hj,?_⟩
        by_contra hge
        exact hend j (by omega) hf
      · intro hlt
        have hin:=hn (j-b) (by omega)
        rwa [Nat.add_sub_cancel' hj] at hin

variable {R : List (ℕ×ℕ)}

/-- The pending run ends at a `false` value, and the rest has its own runs. -/
theorem RunsOf.append_pending (hn:∀j,j<n → f (b+j)) (hgap:¬f (b+n)) (hR:RunsOf f (b+n+1) R) :
    RunsOf f b ((if n=0 then [] else [(b,n)])++R):=by
  have hhead : ∀r∈(if n=0 then [] else [(b,n)] : List (ℕ×ℕ)), r=(b,n) ∧ 0<n:=by
    intro r hr
    split at hr
    · simp at hr
    · exact ⟨mem_singleton.mp hr,by omega⟩
  refine ⟨?_,?_,?_,?_⟩
  · intro r hr
    rcases mem_append.mp hr with hr | hr
    · obtain ⟨rfl,hpos⟩:=hhead r hr
      exact hpos
    · exact hR.nonempty r hr
  · intro r hr
    rcases mem_append.mp hr with hr | hr
    · obtain ⟨rfl,-⟩:=hhead r hr
      exact Nat.le_refl _
    · have hstart:=hR.start r hr
      omega
  · intro j hj
    constructor
    · intro hf
      rcases Nat.lt_trichotomy j (b+n) with hlt | heq | hgt
      · refine ⟨(b,n),mem_append_left _ ?_,hj,hlt⟩
        rw [if_neg (by omega)]
        exact mem_singleton_self _
      · exact absurd (heq▸hf) hgap
      · obtain ⟨r,hr,hin⟩:=(hR.covers j (by omega)).mp hf
        exact ⟨r,mem_append_right _ hr,hin⟩
    · rintro ⟨r,hr,hlo,hhi⟩
      rcases mem_append.mp hr with hr | hr
      · obtain ⟨rfl,-⟩:=hhead r hr
        have hin:=hn (j-b) (by simp only at hhi;omega)
        rwa [Nat.add_sub_cancel' hj] at hin
      · have hstart:=hR.start r hr
        exact (hR.covers j (by omega)).mpr ⟨r,hr,hlo,hhi⟩
  · refine pairwise_append.mpr ⟨?_,hR.apart,?_⟩
    · split
      · exact List.Pairwise.nil
      · exact pairwise_singleton _ _
    · intro r hr s hs
      obtain ⟨rfl,-⟩:=hhead r hr
      have hstart:=hR.start s hs
      simp only
      omega

theorem runsOf_runs {l:List Bool} (hn:∀j,j<n → f (b+j))
    (hl:∀j,f (b+n+j) ↔ l[j]? = some true) : RunsOf f b (runs b n l):=by
  induction l generalizing b n with
  | nil=>
    refine runsOf_pending hn ?_
    intro j hj hf
    have h:=(hl (j-(b+n))).mp (by rwa [Nat.add_sub_cancel' hj])
    simp at h
  | cons x l ih=>
    have htail : ∀j,f (b+n+1+j) ↔ l[j]? = some true:=by
      intro j
      rw [Nat.add_assoc (b+n) 1 j,Nat.add_comm 1 j,hl (j+1),getElem?_cons_succ]
    have hhead : f (b+n) ↔ x=true:=by
      have h:=hl 0
      rwa [getElem?_cons_zero,some.injEq] at h
    cases x with
    | true=>
      refine ih ?_ ?_
      · intro j hj
        rcases Nat.lt_succ_iff_lt_or_eq.mp hj with hlt | rfl
        · exact hn j hlt
        · exact hhead.mpr rfl
      · intro j
        exact htail j
    | false=>
      refine RunsOf.append_pending hn (fun hf=>Bool.false_ne_true (hhead.mp hf)) ?_
      refine ih ?_ ?_
      · intro j hj
        omega
      · intro j
        exact htail j

theorem RunsOf.lengths_le {e:ℕ} (h:RunsOf f b R) (hf:∀j,f j → j<e) : ∀r∈R,r.1+r.2≤e:=by
  intro r hr
  have hpos:=h.nonempty r hr
  have hstart:=h.start r hr
  have hlast:=(h.covers (r.1+r.2-1) (by omega)).mpr ⟨r,hr,by omega,by omega⟩
  have hlt:=hf _ hlast
  omega

/-- Nothing next to a run belongs to `f`. -/
theorem RunsOf.maximal (h:RunsOf f b R) {r:ℕ×ℕ} (hr:r∈R) :
    ¬f (r.1+r.2) ∧ ∀j,b≤j → j+1=r.1 → ¬f j:=by
  have hapart : ∀s∈R,r=s ∨ r.1+r.2<s.1 ∨ s.1+s.2 < r.1:=by
    intro s hs
    refine List.Pairwise.forall_of_forall_of_flip
      (R:=fun r s : ℕ×ℕ=>r=s ∨ r.1+r.2<s.1 ∨ s.1+s.2 < r.1) ?_ ?_ ?_ hr hs
    · exact fun t _ => .inl rfl
    · exact h.apart.imp fun hlt => .inr (.inl hlt)
    · exact h.apart.imp fun hlt => .inr (.inr hlt)
  constructor
  · intro hf
    have hstart:=h.start r hr
    obtain ⟨s,hs,hlo,hhi⟩:=(h.covers _ (by omega)).mp hf
    rcases hapart s hs with rfl | hlt | hlt <;> omega
  · intro j hj hnext hf
    obtain ⟨s,hs,hlo,hhi⟩:=(h.covers j hj).mp hf
    rcases hapart s hs with rfl | hlt | hlt <;> omega

end AutoRefirst.BytePatches
