import AutoRefirst.ByteRanges
import AutoRefirst.PortableExecutable

/-!
# Probes

A probe computes a value from a byte text or fails. Beside the value goes how far the text was
needed for it: as far as it was read, or demanded to be there. A probe is stable when nothing
behind that point has a say in what it gives.
-/

namespace AutoRefirst
open List

open ByteRanges

def Probe (ε α : Type) : Type := Bytes → Except ε (α×ℕ)

namespace Probe

variable {ε α β σ : Type}

instance : Monad (Probe ε) where
  pure a := fun _ => .ok (a,0)
  bind m f := fun d => (m d).bind fun r => (f r.1 d).map fun s => (s.1,max r.2 s.2)

def fail (e : ε) : Probe ε α := fun _ => .error e

def rejectIf (c : Prop) [Decidable c] (e : ε) : Probe ε Unit := if c then fail e else pure ()

/-- The text has to reach to `n`. -/
def within (n : ℕ) (e : ε) : Probe ε Unit := fun d =>
  if n > d.length then .error e else .ok ((),n)

/-- `n` bytes from `a` on have to be there, and their end has to be a number of 64 bits. -/
def closes (a n : ℕ) (e : ε) : Probe ε ℕ := do
  rejectIf (2^64 ≤ a+n) e
  within (a+n) e
  pure (a+n)

/-- Whether there is a byte at `k`. -/
def present (k : ℕ) : Probe ε Bool := fun d => .ok (decide (k < d.length),k + 1)

def numberAt (d : Bytes) (le : Bool) (o w : ℕ) : ℕ :=
  if o+w > d.length then 0
  else littleEndian (if le then slice d (o,w) else (slice d (o,w)).reverse)

def number (le : Bool) (o w : ℕ) : Probe ε ℕ := fun d => .ok (numberAt d le o w,o + w)

def bytesOf (r : Range) : Probe ε Bytes := fun d => .ok (slice d r,r.1 + r.2)

def each (l : List σ) (a : α) (f : α→σ→Probe ε α) : Probe ε α := l.foldlM f a

theorem numberAt_lt (d:Bytes) (le:Bool) (o w:ℕ) : numberAt d le o w<256^w:=by
  rw [numberAt]
  split
  · exact Nat.pow_pos (by decide)
  · have hlen : (slice d (o,w)).length=w:=length_slice (Nat.le_of_not_lt ‹_›)
    split
    · exact (littleEndian_lt _).trans_eq (by rw [hlen])
    · exact (littleEndian_lt _).trans_eq (by rw [length_reverse,hlen])

variable {d d' : Bytes} {a : α} {b : β} {e k : ℕ} {m : Probe ε α} {f : α→Probe ε β}

theorem bind_ok : (m >>= f) d=.ok (b,e) ↔ ∃a n k,m d=.ok (a,n) ∧ f a d=.ok (b,k) ∧ max n k=e:=by
  change (m d).bind _=_ ↔ _
  cases hm : m d with
  | error x=>simp [Except.bind]
  | ok r=>
    obtain ⟨a,n⟩:=r
    cases hf : f a d <;> simp [Except.bind,Except.map,hf,Prod.ext_iff]

/-- When the probe succeeds, `Q` holds of its value and of how far the text was needed. -/
def Ensures (m : Probe ε α) (d : Bytes) (Q : α→ℕ→Prop) : Prop :=
  ∀ ⦃a e⦄, m d = .ok (a,e) → Q a e

variable {Q Q' : α→ℕ→Prop} {x : ε}

theorem Ensures.mono (h:Ensures m d Q) (hQ:∀a e,Q a e → Q' a e) : Ensures m d Q':=
  fun a e hok=>hQ a e (h hok)

variable {n : ℕ}

theorem ensures_of_ok {v:α} (hm:m d=.ok (v,n)) : Ensures m d Q ↔ Q v n:=by
  constructor
  · exact fun h=>h hm
  · intro hQ a e hok
    rw [hm] at hok
    obtain ⟨rfl,rfl⟩:=Prod.mk.inj (Except.ok.inj hok)
    exact hQ

theorem ensures_of_error (hm:m d=.error x) : Ensures m d Q ↔ True:=by
  refine iff_true_intro fun a e hok=>?_
  rw [hm] at hok
  cases hok

theorem ensures_pure : Ensures (pure a:Probe ε α) d Q ↔ Q a 0:=ensures_of_ok rfl

theorem ensures_fail : Ensures (fail x) d Q ↔ True:=ensures_of_error rfl

theorem ensures_bind {R:β→ℕ→Prop} : Ensures (m >>= f) d R ↔
    Ensures m d fun a n=>Ensures (f a) d fun b k=>R b (max n k):=by
  constructor
  · exact fun h a n hm b k hf=>h (bind_ok.mpr ⟨a,n,k,hm,hf,rfl⟩)
  · intro h b e hok
    obtain ⟨a,n,k,hm,hf,rfl⟩:=bind_ok.mp hok
    exact h hm hf

variable {c : Prop}

theorem ensures_ite [Decidable c] {m':Probe ε α} :
    Ensures (if c then m else m') d Q ↔ (c → Ensures m d Q) ∧ (¬c → Ensures m' d Q):=by
  by_cases hc : c <;> simp [hc]

theorem ensures_number {Q:ℕ→ℕ→Prop} {le:Bool} {o w:ℕ} :
    Ensures (number le o w:Probe ε ℕ) d Q ↔ Q (numberAt d le o w) (o+w):=
  ensures_of_ok rfl

theorem ensures_bytesOf {Q:Bytes→ℕ→Prop} {r:Range} :
    Ensures (bytesOf r:Probe ε Bytes) d Q ↔ Q (slice d r) (r.1+r.2):=
  ensures_of_ok rfl

theorem ensures_present {Q:Bool→ℕ→Prop} :
    Ensures (present k:Probe ε Bool) d Q ↔ Q (decide (k<d.length)) (k+1):=
  ensures_of_ok rfl

theorem ensures_within {Q:Unit→ℕ→Prop} : Ensures (within n x) d Q ↔ (n≤d.length → Q () n):=by
  by_cases hn : n > d.length
  · rw [ensures_of_error (if_pos hn)]
    simp [Nat.not_le.mpr hn]
  · rw [ensures_of_ok (if_neg hn)]
    simp [Nat.le_of_not_lt hn]

theorem ensures_rejectIf {Q:Unit→ℕ→Prop} [Decidable c] :
    Ensures (rejectIf c x) d Q ↔ (¬c → Q () 0):=by
  by_cases hc : c <;> simp [rejectIf,hc,ensures_fail,ensures_pure]

theorem ensures_closes {Q:ℕ→ℕ→Prop} {o:ℕ} : Ensures (closes o n x) d Q ↔
    (o+n<2^64 → o+n≤d.length → Q (o+n) (o+n)):=by
  simp only [closes,ensures_bind,ensures_rejectIf,ensures_within,ensures_pure,Nat.not_le,
    Nat.max_zero,Nat.zero_max]

/-- A loop keeps what its turns keep, and needs no more of the text than `X` when no turn does. -/
theorem ensures_each {l:List σ} {g:α→σ→Probe ε α} (P:List σ→α→Prop) (X:α→ℕ)
    (hstep:∀done s a,s∈l → P done a → Ensures (g a s) d fun b e=>P (done++[s]) b ∧ X a≤X b ∧ e≤X b)
    (done:List σ) {a:α} (ha:P done a) :
    Ensures (each l a g) d fun b e=>P (done++l) b ∧ X a≤X b ∧ e≤X b:=by
  induction l generalizing a done with
  | nil=>exact ensures_pure.mpr ⟨by simpa using ha,Nat.le_refl _,Nat.zero_le _⟩
  | cons s l ih=>
    refine ensures_bind.mpr ((hstep done s a mem_cons_self ha).mono fun c n hc=>?_)
    have hrest:=ih (fun done t a ht=>hstep done t a (mem_cons_of_mem s ht)) _ hc.1
    refine hrest.mono fun b k hb=>⟨by simpa using hb.1,Nat.le_trans hc.2.1 hb.2.1,?_⟩
    exact Nat.max_le.mpr ⟨Nat.le_trans hc.2.2 hb.2.1,hb.2.2⟩

/-- Nothing behind the point up to which the text was needed has a say. -/
def Stable (m : Probe ε α) : Prop :=
  ∀ ⦃d a e⦄, m d = .ok (a,e) → e≤d.length →
    ∀ ⦃d'⦄, e≤d'.length → d'.take e = d.take e → m d' = .ok (a,e)

theorem Stable.pure (a:α) : Stable (pure a:Probe ε α):=fun _ _ _ h _ _ _ _=>h

theorem Stable.fail (x:ε) : Stable (fail x:Probe ε α):=fun _ _ _ h _ _ _ _=>h

theorem take_of_take {k:ℕ} (h:d'.take k=d.take k) (hn:n≤k) : d'.take n=d.take n:=by
  rw [← Nat.min_eq_left hn,← take_take,h,take_take]

theorem Stable.bind (hm:Stable m) (hf:∀a,Stable (f a)) : Stable (m >>= f):=by
  intro d b e h hlen d' hlen' htake
  obtain ⟨a,n,k,hma,hfa,hmax⟩:=bind_ok.mp h
  have hn : n≤e:=hmax▸Nat.le_max_left n k
  have hk : k≤e:=hmax▸Nat.le_max_right n k
  exact bind_ok.mpr ⟨a,n,k,
    hm hma (Nat.le_trans hn hlen) (Nat.le_trans hn hlen') (take_of_take htake hn),
    hf a hfa (Nat.le_trans hk hlen) (Nat.le_trans hk hlen') (take_of_take htake hk),hmax⟩

theorem Stable.rejectIf (c:Prop) [Decidable c] (x:ε) : Stable (rejectIf c x):=by
  unfold Probe.rejectIf
  split
  · exact Stable.fail x
  · exact Stable.pure ()

theorem Stable.ite [Decidable c] {m':Probe ε α} (h:Stable m) (h':Stable m') :
    Stable (if c then m else m'):=by
  split
  · exact h
  · exact h'

theorem Stable.within (n:ℕ) (x:ε) : Stable (within n x):=by
  intro d a e h _ d' hlen' _
  unfold Probe.within at h ⊢
  split_ifs at h
  obtain ⟨rfl,rfl⟩:=Prod.mk.inj (Except.ok.inj h)
  exact if_neg (Nat.not_lt.mpr hlen')

theorem Stable.closes (a n:ℕ) (x:ε) : Stable (closes a n x):=
  .bind (.rejectIf _ x) fun _ => .bind (.within _ x) fun _ => .pure _

theorem Stable.present (k:ℕ) : Stable (present k:Probe ε Bool):=by
  intro d a e h hlen d' hlen' _
  obtain ⟨rfl,rfl⟩:=Prod.mk.inj (Except.ok.inj h)
  have hd : k<d.length:=hlen
  have hd' : k<d'.length:=hlen'
  simp [Probe.present,hd,hd']

theorem slice_of_take {r:Range} (h:d'.take n=d.take n) (hr:r.1+r.2≤n) :
    slice d' r=slice d r:=by
  refine slice_congr fun i hi=>?_
  have hin : i<n:=Nat.lt_of_lt_of_le hi.2 hr
  rw [← getElem?_take_of_lt hin,h,getElem?_take_of_lt hin]

theorem Stable.bytesOf (r:Range) : Stable (bytesOf r:Probe ε Bytes):=by
  intro d a e h _ d' _ htake
  obtain ⟨rfl,rfl⟩:=Prod.mk.inj (Except.ok.inj h)
  rw [Probe.bytesOf,slice_of_take htake (Nat.le_refl _)]

theorem Stable.number (le:Bool) (o w:ℕ) : Stable (number le o w:Probe ε ℕ):=by
  intro d a e h hlen d' hlen' htake
  obtain ⟨rfl,rfl⟩:=Prod.mk.inj (Except.ok.inj h)
  have hslice : slice d' (o,w)=slice d (o,w):=slice_of_take htake (Nat.le_refl _)
  simp only [Probe.number,numberAt,hslice,Nat.not_lt.mpr hlen,Nat.not_lt.mpr hlen',if_false]

/-- Behind a check. -/
theorem Stable.reject {c:Prop} [Decidable c] {x:ε} {k:Unit→Probe ε α}
    (h:∀u,Stable (k u)) : Stable (Probe.rejectIf c x >>= k) := .bind (.rejectIf c x) h

theorem Stable.field {le:Bool} {o w:ℕ} {k:ℕ→Probe ε α} (h:∀n,Stable (k n)) :
    Stable (Probe.number le o w >>= k) := .bind (.number le o w) h

theorem Stable.each {l:List σ} {g:α→σ→Probe ε α} (h:∀a s,Stable (g a s)) (a:α) :
    Stable (each l a g):=by
  induction l generalizing a with
  | nil=>exact Stable.pure a
  | cons s l ih=>exact Stable.bind (h a s) fun b=>ih b

end Probe

end AutoRefirst
