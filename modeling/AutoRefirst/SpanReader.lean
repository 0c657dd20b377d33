import AutoRefirst.ByteText
import AutoRefirst.Fallible

/-!
# Readers over a span of an input

A parser moves a position through a span and may fail. A grammar says of two positions of an
input which value the bytes between them spell. A parser reads a grammar when all it accepts is
spelled by the bytes it moved over.
-/

namespace AutoRefirst.SpanReader
open Fallible List Except

structure Failure where
  error : String
  errorOffset : ℕ
  deriving DecidableEq

structure Reader where
  d : Bytes
  (p stop : ℕ)

def Reader.over (d : Bytes) (a b : ℕ) : Reader := ⟨d,a,min b d.length⟩

abbrev Parser := StateT Reader (Except Failure)

variable {α β σ : Type} (s : String)

def fail : Parser α := fun r => .error ⟨s,r.p⟩

variable (n : ℕ)

def failAt : Parser α := fun _ => .error ⟨s,n⟩

def position : Parser ℕ := fun r => .ok (r.p,r)

def spanEnd : Parser ℕ := fun r => .ok (r.stop,r)

def need : Parser Unit := fun r =>
  if n ≤ r.stop - min r.p r.stop then .ok ((),r) else .error ⟨s,r.p⟩

/-- The next `n` bytes, with no test that they are there. -/
def take (n : ℕ) : Parser Bytes := fun r => .ok ((r.d.drop r.p).take n,{r with p:=r.p+n})

def takeLeft : Parser Bytes := fun r =>
  if r.stop-r.p < n then .error ⟨s,r.p⟩
  else .ok ((r.d.drop r.p).take n,{r with p:=r.p+n})

def skipRest : Parser Unit := fun r => .ok ((),{r with p:=r.stop})

def require (c : Prop) [Decidable c] (s : String) : Parser Unit := if c then pure () else fail s

def times : ℕ → ℕ → σ → (ℕ → σ → Parser σ) → Parser σ
  | 0, _, s, _ => pure s
  | n+1, i, s, f => f i s >>= fun s => times n (i+1) s f

/-- A run inside `[a, b)` that leaves the reader where it is. -/
def within (a b : ℕ) (m : Parser α) : Parser α := fun r =>
  (m (Reader.over r.d a b)).map fun x => (x.1,r)

theorem run_bind {m:Parser α} {f:α→Parser β} {r r':Reader} {v:β} :
    (m >>= f) r=.ok (v,r') ↔ ∃u r₁,m r=.ok (u,r₁) ∧ f u r₁=.ok (v,r'):=by
  show (m r >>= fun x=>f x.1 x.2) = .ok (v,r') ↔ _
  rw [bind_eq_ok,Prod.exists]

theorem run_pure {u v:α} {r r':Reader} : (pure u:Parser α) r=.ok (v,r') ↔ u=v ∧ r=r':=by
  show Except.ok (u,r) = .ok (v,r') ↔ _
  rw [ok.injEq,Prod.mk.injEq]

theorem position_bind (f:ℕ→Parser β) (r:Reader) : (position >>= f) r=f r.p r:=rfl

theorem spanEnd_bind (f:ℕ→Parser β) (r:Reader) : (spanEnd >>= f) r=f r.stop r:=rfl

structure Reader.Ok (r : Reader) : Prop where
  inside : r.p ≤ r.stop
  bounded : r.stop ≤ r.d.length

structure Reader.To (r r' : Reader) : Prop where
  same : r'.d=r.d
  stop : r'.stop=r.stop
  forward : r.p ≤ r'.p
  inside : r'.p ≤ r.stop

theorem Reader.over_ok {d:Bytes} {a b:ℕ} (ha:a≤b) (hb:b≤d.length) :
    (Reader.over d a b).Ok:=
  ⟨by simp only [Reader.over];omega,by simp only [Reader.over];omega⟩

theorem Reader.over_eq {d:Bytes} {a b:ℕ} (hb:b≤d.length) : Reader.over d a b=⟨d,a,b⟩:=by
  simp only [Reader.over,Nat.min_eq_left hb]

variable {r r' r'' : Reader}

theorem Reader.Ok.refl (h:r.Ok) : r.To r:=⟨rfl,rfl,Nat.le_refl _,h.inside⟩

theorem Reader.To.ok (h:r.To r') (hr:r.Ok) : r'.Ok:=
  ⟨h.stop▸h.inside,by rw [h.stop,h.same];exact hr.bounded⟩

theorem Reader.To.trans (h:r.To r') (h':r'.To r'') : r.To r'':=
  ⟨h'.same.trans h.same,h'.stop.trans h.stop,Nat.le_trans h.forward h'.forward,h.stop▸h'.inside⟩

/-- The bytes of an input between two positions spell a value. -/
abbrev Grammar (α : Type) := Bytes → ℕ → ℕ → α → Prop

/-- One after the other. -/
def Grammar.seq (G : Grammar α) (H : α→Grammar β) : Grammar β := fun d a c v =>
  ∃ b u, G d a b u ∧ H u d b c v

def Grammar.ret (v : α) : Grammar α := fun _ a b w => a = b ∧ w = v

/-- Some bytes, as they stand. -/
def Grammar.raw : Grammar Bytes := fun d a b v =>
  b = a+n ∧ b ≤ d.length ∧ v = (d.drop a).take n

/-- Entries side by side, numbered from `i`. -/
inductive Items (G : ℕ→Grammar α) (d : Bytes) : ℕ → ℕ → ℕ → List α → Prop
  | nil (i a : ℕ) : Items G d i a a []
  | cons {i a b c : ℕ} {x : α} {xs : List α} :
      G i d a b x → Items G d (i+1) b c xs → Items G d i a c (x::xs)

/-- What the parser accepts is spelled by the bytes it moved over. -/
def Reads (m : Parser α) (G : Grammar α) : Prop :=
  ∀ r v r', m r = .ok (v,r') → r.Ok → r.To r' ∧ G r.d r.p r'.p v

theorem Reads.mono {m:Parser α} {G H:Grammar α} (h:Reads m G)
    (hGH:∀d a b v,b≤d.length → G d a b v → H d a b v) : Reads m H:=by
  intro r v r' hrun hr
  obtain ⟨hto,hG⟩:=h r v r' hrun hr
  exact ⟨hto,hGH _ _ _ _ (Nat.le_trans hto.inside hr.bounded) hG⟩

theorem Reads.pure (v:α) : Reads (Pure.pure v) (Grammar.ret v):=by
  intro r w r' hrun hr
  obtain ⟨rfl,rfl⟩:=run_pure.mp hrun
  exact ⟨hr.refl,rfl,rfl⟩

theorem Reads.bind {m:Parser α} {f:α→Parser β} {G:Grammar α} {H:α→Grammar β}
    (hm:Reads m G) (hf:∀u,Reads (f u) (H u)) : Reads (m >>= f) (G.seq H):=by
  intro r v r' hrun hr
  obtain ⟨u,r₁,hu,hv⟩:=run_bind.mp hrun
  obtain ⟨hto,hG⟩:=hm r u r₁ hu hr
  obtain ⟨hto',hH⟩:=hf u r₁ v r' hv (hto.ok hr)
  exact ⟨hto.trans hto',r₁.p,u,hG,hto.same▸hH⟩

theorem Reads.fail {s:String} {G:Grammar α} : Reads (fail s) G:=by
  intro r v r' hrun
  cases hrun

theorem Reads.ite {c:Prop} [Decidable c] {m m':Parser α} {G:Grammar α}
    (h:c→Reads m G) (h':¬c → Reads m' G) : Reads (if c then m else m') G:=by
  split
  case isTrue hc=>exact h hc
  case isFalse hc=>exact h' hc

theorem Reads.require {c:Prop} [Decidable c] {s:String} :
    Reads (require c s) fun _ a b _=>a=b ∧ c:=by
  apply Reads.ite
  · intro hc r v r' hrun hr
    obtain ⟨rfl,rfl⟩:=Prod.mk.inj (ok.inj hrun)
    exact ⟨hr.refl,rfl,hc⟩
  · exact fun _=>Reads.fail

theorem Reads.position : Reads position fun _ a b v=>a=b ∧ v=a:=by
  intro r v r' hrun hr
  obtain ⟨rfl,rfl⟩:=Prod.mk.inj (ok.inj hrun)
  exact ⟨hr.refl,rfl,rfl⟩

theorem Reads.need_take : Reads (need s n >>= fun _=>take n) (Grammar.raw n):=by
  intro r v r' hrun hr
  obtain ⟨u,r₁,hu,hv⟩:=run_bind.mp hrun
  unfold need at hu
  split at hu
  case isFalse=>exact absurd hu (by simp)
  case isTrue hn=>
    obtain ⟨-,rfl⟩:=Prod.mk.inj (ok.inj hu)
    obtain ⟨rfl,rfl⟩:=Prod.mk.inj (ok.inj hv)
    rw [Nat.min_eq_left hr.inside] at hn
    have hfits : r.p+n ≤ r.stop:=by
      have:=hr.inside
      omega
    exact ⟨⟨rfl,rfl,by simp,hfits⟩,rfl,Nat.le_trans hfits hr.bounded,rfl⟩

theorem Reads.needed {f:Bytes→Parser β} {H:Bytes→Grammar β} (s:String) (n:ℕ)
    (hf:∀b,Reads (f b) (H b)) :
    Reads (need s n >>= fun _=>take n >>= f) ((Grammar.raw n).seq H):=by
  rw [← bind_assoc]
  exact (Reads.need_take s n).bind hf

theorem Reads.takeLeft (s:String) (n:ℕ) : Reads (takeLeft s n) (Grammar.raw n):=by
  intro r v r' hrun hr
  unfold SpanReader.takeLeft at hrun
  split at hrun
  case isTrue=>cases hrun
  case isFalse hn=>
    obtain ⟨rfl,rfl⟩:=Prod.mk.inj (ok.inj hrun)
    have hfits : r.p+n ≤ r.stop:=by
      have:=hr.inside
      omega
    exact ⟨⟨rfl,rfl,by simp,hfits⟩,rfl,Nat.le_trans hfits hr.bounded,rfl⟩

/-- A loop reads its entries side by side, and its state is what they make of it. -/
theorem Reads.times {f:ℕ→σ→Parser σ} {G:ℕ→Grammar α} {add:σ→α→σ}
    (h:∀i s,Reads (f i s) fun d a b s'=>∃x,G i d a b x ∧ s'=add s x) (n i:ℕ) (s:σ) :
    Reads (times n i s f) fun d a b s'=>
      ∃xs,Items G d i a b xs ∧ xs.length=n ∧ s'=xs.foldl add s:=by
  induction n generalizing i s with
  | zero=>
    apply (Reads.pure s).mono
    rintro d a b v - ⟨rfl,rfl⟩
    exact ⟨[],Items.nil i a,rfl,rfl⟩
  | succ n ih=>
    apply (Reads.bind (h i s) fun s'=>ih (i+1) s').mono
    rintro d a c v - ⟨b,s',⟨x,hx,rfl⟩,xs,hxs,hn,rfl⟩
    exact ⟨x::xs,Items.cons hx hxs,by rw [length_cons,hn],rfl⟩

theorem Reads.collect {m:Parser α} {G:Grammar α} (h:Reads m G) (n:ℕ) (s:List α) :
    Reads (SpanReader.times n 0 s fun _ s=>m >>= fun x=>Pure.pure (s++[x])) fun d a b s'=>
      ∃xs,Items (fun _=>G) d 0 a b xs ∧ xs.length=n ∧ s'=s++xs:=by
  have hstep : ∀(i:ℕ) (s:List α),Reads (m >>= fun x=>Pure.pure (s++[x]))
      fun d a b s'=>∃x,G d a b x ∧ s'=s++[x]:=by
    intro i s
    apply (h.bind fun x=>Reads.pure (s++[x])).mono
    rintro d a b s' - ⟨c,x,hx,rfl,rfl⟩
    exact ⟨x,hx,rfl⟩
  apply (Reads.times (G:=fun _=>G) hstep n 0 s).mono
  rintro d a b s' - ⟨xs,hxs,hn,rfl⟩
  refine ⟨xs,hxs,hn,?_⟩
  clear hxs hn
  induction xs generalizing s with
  | nil=>exact (append_nil s).symm
  | cons x xs ih=>rw [foldl_cons,ih,append_assoc,singleton_append]

theorem Reads.skipRest : Reads skipRest fun _ a b _=>a≤b:=by
  intro r v r' hrun hr
  obtain ⟨rfl,rfl⟩:=Prod.mk.inj (ok.inj hrun)
  exact ⟨⟨rfl,rfl,hr.inside,Nat.le_refl _⟩,hr.inside⟩

theorem require_run {c:Prop} [Decidable c] {s:String} {u:Unit}
    (h:require c s r=.ok (u,r')) : r=r' ∧ c:=by
  unfold SpanReader.require at h
  split at h
  case isTrue hc=>
    obtain ⟨-,rfl⟩:=Prod.mk.inj (ok.inj h)
    exact ⟨rfl,hc⟩
  case isFalse=>cases h

theorem within_run {a b:ℕ} {m:Parser α} {v:α} (h:within a b m r=.ok (v,r')) :
    r=r' ∧ ∃r'',m (Reader.over r.d a b)=.ok (v,r''):=by
  unfold within at h
  cases hm : m (Reader.over r.d a b) with
  | error e=>
    rw [hm] at h
    cases h
  | ok x=>
    rw [hm] at h
    obtain ⟨rfl,rfl⟩:=Prod.mk.inj (ok.inj h)
    exact ⟨rfl,x.2,rfl⟩

end AutoRefirst.SpanReader
