import AutoRefirst.ByteText

/-!
# Runs over an input with their reads and sums

A run computes as the machine does, with sums that wrap. Beside its result go the ranges of bytes
it read and the sums its checks were made with. A run stops with a message, or when the turns
it was given are used up.
-/

namespace AutoRefirst.CheckedRun
open List

inductive Stop where
  | failed (message : String) (offset : ℕ)
  | unfinished
  deriving DecidableEq

/-- A sum in a check, and which check it is. -/
structure Sum (ι : Type) where
  site : ι
  (a b : ℕ)
  bits : ℕ := 32

/-- The sum is not cut to the word. -/
def Sum.Fits {ι : Type} (s : Sum ι) : Prop := s.a+s.b<2^s.bits

structure Run (ι α : Type) where
  value : Except Stop α
  reads : List (ℕ×ℕ) := []
  sums : List (Sum ι) := []

variable {ι α β : Type}

def Run.next (x : Run ι α) (f : α→Run ι β) : Run ι β :=
  match x.value with
  | .error e => {x with value:=.error e}
  | .ok a =>
    { value:=(f a).value,reads:=x.reads++(f a).reads,sums:=x.sums++(f a).sums }

instance : Monad (Run ι) where
  pure a := {value:=.ok a}
  bind := Run.next

def fail (offset : ℕ) (message : String) : Run ι α := {value:=.error (.failed message offset)}

def unfinished : Run ι α := {value:=.error .unfinished}

/-- The bytes of a range; what lies outside the input reads as nothing. -/
def read (d : Bytes) (off n : ℕ) : Run ι Bytes :=
  {value:=.ok ((d.drop off).take n),reads:=[(off,n)]}

def sum (site : ι) (a b : ℕ) (bits : ℕ := 32) : Run ι ℕ :=
  {value:=.ok ((a+b) % 2^bits),sums:=[⟨site,a,b,bits⟩]}

/-- A check that fails when `c` holds. -/
def failIf (c : Prop) [Decidable c] (offset : ℕ) (message : String) : Run ι Unit :=
  if c then fail offset message else pure ()

/-- The turns of a loop over a state: each says whether to go on. -/
def turns (σ : Type) (step : σ → Run ι (Option σ)) : ℕ → σ → Run ι σ
  | 0, _ => unfinished
  | fuel+1, s => step s >>= fun s' => match s' with
    | none => pure s
    | some s' => turns σ step fuel s'

/-- A loop over the elements of a list. -/
def each {σ : Type} (f : σ→α→Run ι σ) : σ → List α → Run ι σ
  | s, [] => pure s
  | s, a::l => f s a >>= fun s => each f s l

/-- A run whose failure is a result as well. -/
def caught (x : Run ι α) (f : α→β) (g : String→ℕ→β) : Run ι β :=
  { value := match x.value with
      | .ok a => .ok (f a)
      | .error (.failed message offset) => .ok (g message offset)
      | .error .unfinished => .error .unfinished
    reads:=x.reads
    sums:=x.sums }

/-- A run over another input: its reads are none of this one's. -/
def aside (x : Run ι α) : Run ι α := {value:=x.value,sums:=x.sums}

variable {x : Run ι α}

theorem bind_ok {f:α→Run ι β} {b:β} :
    (x >>= f).value=.ok b ↔ ∃a,x.value=.ok a ∧ (f a).value=.ok b:=by
  show (x.next f).value = .ok b ↔ _
  unfold Run.next
  cases hv : x.value with
  | error e=>simp
  | ok a=>simp

variable {a : α}

theorem pure_ok {b:α} : (pure a:Run ι α).value=.ok b ↔ a=b:=by
  show (Except.ok a : Except Stop α) = .ok b ↔ a=b
  simp

variable {off : ℕ}

theorem fail_ok {msg:String} : (fail off msg:Run ι α).value=.ok a ↔ False:=
  iff_of_false (by simp [fail]) id

theorem failIf_ok {c:Prop} [Decidable c] {msg:String} {u:Unit} :
    (failIf c off msg:Run ι Unit).value=.ok u ↔ ¬c:=by
  unfold failIf
  split
  case isTrue h=>exact iff_of_false (by simp [fail]) (not_not.mpr h)
  case isFalse h=>exact iff_of_true rfl h

variable {n : ℕ}

theorem read_ok {d b:Bytes} :
    (read d off n:Run ι Bytes).value=.ok b ↔ (d.drop off).take n=b:=by
  show (Except.ok ((d.drop off).take n) : Except Stop Bytes) = .ok b ↔ _
  simp

theorem sum_ok {site:ι} {a b bits:ℕ} :
    (sum site a b bits).value=.ok n ↔ (a+b) % 2^bits = n:=by
  show (Except.ok ((a+b) % 2^bits) : Except Stop ℕ) = .ok n ↔ _
  simp

variable {l : List α}

/-- A loop ends in what each turn makes of what the turns before it made. -/
theorem each_ok {σ:Type} {f:σ→α→Run ι σ} {P:List α→σ→Prop}
    (hf:∀before a s t,before++[a] <+: l → P before s → (f s a).value=.ok t →
      P (before++[a]) t) {s t:σ} (hs:P [] s) (h:(each f s l).value=.ok t) : P l t:=by
  suffices hgen : ∀(before rest:List α) (s:σ),l=before++rest → P before s →
      (each f s rest).value=.ok t → P l t from hgen [] l s rfl hs h
  intro before rest
  induction rest generalizing before with
  | nil=>
    intro s hl hs h
    rw [hl,append_nil,← pure_ok.mp h]
    exact hs
  | cons a rest ih=>
    intro s hl hs h
    obtain ⟨s',hs',h⟩:=bind_ok.mp h
    refine ih (before++[a]) s' (by rw [hl,append_assoc];rfl) ?_ h
    exact hf before a s s' ⟨rest,by rw [hl,append_assoc];rfl⟩ hs hs'

/-- A loop that has ended keeps what its turns keep, and its last turn said so. -/
theorem turns_ok {σ:Type} {step:σ → Run ι (Option σ)} {P:σ→Prop}
    (hstep:∀s t,P s → (step s).value=.ok (some t) → P t) {fuel:ℕ} {s t:σ} (hs:P s)
    (h:(turns σ step fuel s).value=.ok t) : P t ∧ (step t).value=.ok none:=by
  induction fuel generalizing s with
  | zero=>exact absurd h (by simp [turns,unfinished])
  | succ fuel ih=>
    obtain ⟨s',hs',h⟩:=bind_ok.mp h
    cases s' with
    | none=>exact pure_ok.mp h▸⟨hs,hs'⟩
    | some s'=>exact ih (hstep s s' hs hs') h

/-- A loop whose turns do what those of another do. -/
theorem each_agree {σ:Type} {f g:σ→α→Run ι σ}
    (hfg:∀a∈l,∀s t,(f s a).value=.ok t → (g s a).value=.ok t) {s t:σ}
    (h:(each f s l).value=.ok t) : (each g s l).value=.ok t:=by
  induction l generalizing s with
  | nil=>exact h
  | cons a l ih=>
    obtain ⟨s',hs',h⟩:=bind_ok.mp h
    exact bind_ok.mpr ⟨s',hfg a mem_cons_self s s' hs',
      ih (fun b hb=>hfg b (mem_cons_of_mem a hb)) h⟩

theorem caught_ok {f:α→β} {g:String→ℕ→β} {b:β} (h:(caught x f g).value=.ok b) :
    (∃a,x.value=.ok a ∧ f a=b) ∨ ∃message offset,g message offset=b:=by
  unfold caught at h
  rcases hx : x.value with e | a
  · cases e with
    | failed message offset=>
      rw [hx] at h
      exact .inr ⟨message,offset,Except.ok.inj h⟩
    | unfinished=>
      rw [hx] at h
      simp at h
  · rw [hx] at h
    exact .inl ⟨a,rfl,Except.ok.inj h⟩

structure Stays (d : Bytes) (x : Run ι α) : Prop where
  reads : ∀ r∈x.reads, r.1+r.2≤d.length
  sums : ∀ s∈x.sums, s.Fits
  ends : x.value ≠ .error .unfinished

def Keeps (A : Sum ι→Prop) (d : Bytes) (x : Run ι α) (Q : α→Prop) : Prop :=
  (∀ s∈x.sums, A s) → Stays d x ∧ ∀ a, x.value = .ok a → Q a

variable {A : Sum ι→Prop} {d : Bytes} {Q Q' : α→Prop} {R : β→Prop}

theorem Keeps.pure (h:Q a) : Keeps A d (pure a) Q:=by
  refine fun _=>⟨⟨nofun,nofun,nofun⟩,fun b hb=>?_⟩
  cases hb
  exact h

theorem Keeps.fail (off:ℕ) (msg:String) : Keeps A d (fail off msg) Q:=
  fun _=>⟨⟨nofun,nofun,nofun⟩,nofun⟩

theorem Keeps.mono (h:Keeps A d x Q) (hQ:∀a,Q a → Q' a) : Keeps A d x Q':=
  fun hA=>⟨(h hA).1,fun a ha=>hQ a ((h hA).2 a ha)⟩

theorem Keeps.bind {f:α→Run ι β} (hx:Keeps A d x Q) (hf:∀a,Q a → Keeps A d (f a) R) :
    Keeps A d (x >>= f) R:=by
  intro hA
  show Stays d (x.next f) ∧ ∀b,(x.next f).value=.ok b → R b
  change ∀s∈(x.next f).sums,A s at hA
  unfold Run.next at hA ⊢
  cases hv : x.value with
  | error e=>
    rw [hv] at hA
    obtain ⟨hs,-⟩:=hx hA
    refine ⟨⟨hs.reads,hs.sums,fun h=>hs.ends ?_⟩,nofun⟩
    rw [hv]
    cases h
    rfl
  | ok a=>
    rw [hv] at hA
    obtain ⟨hs,ha⟩:=hx fun s h=>hA s (mem_append_left _ h)
    obtain ⟨hs',hR⟩:=hf a (ha a hv) fun s h=>hA s (mem_append_right _ h)
    refine ⟨⟨fun r hr=>?_,fun s h=>?_,hs'.ends⟩,hR⟩
    · exact (mem_append.mp hr).elim (hs.reads r) (hs'.reads r)
    · exact (mem_append.mp h).elim (hs.sums s) (hs'.sums s)

theorem Keeps.read (h:off+n≤d.length) :
    Keeps A d (read d off n:Run ι Bytes) fun b=>b = (d.drop off).take n:=by
  refine fun _=>⟨⟨fun r hr=>?_,nofun,nofun⟩,fun b hb=>?_⟩
  · rw [mem_singleton.mp hr]
    exact h
  · exact (Except.ok.inj hb).symm

theorem Keeps.sum {site:ι} {a b bits:ℕ} (h:A ⟨site,a,b,bits⟩ → a+b<2^bits) :
    Keeps A d (sum site a b bits) fun n=>n=a+b:=by
  intro hA
  have hfits : a+b<2^bits:=h (hA _ mem_cons_self)
  refine ⟨⟨nofun,fun s hs=>?_,nofun⟩,fun n hn=>?_⟩
  · rw [mem_singleton.mp hs]
    exact hfits
  · rw [← Except.ok.inj hn,Nat.mod_eq_of_lt hfits]

theorem Keeps.caught (h:Keeps A d x Q) (f:α→β) (g:String→ℕ→β) :
    Keeps A d (caught x f g) fun _=>True:=by
  intro hA
  obtain ⟨hs,-⟩:=h hA
  refine ⟨⟨hs.reads,hs.sums,fun hend=>?_⟩,fun _ _=>trivial⟩
  unfold CheckedRun.caught at hend
  split at hend
  case h_1=>cases hend
  case h_2=>cases hend
  case h_3 hx=>exact hs.ends hx

theorem Keeps.aside {d':Bytes} (h:Keeps A d' x Q) : Keeps A d (aside x) Q:=by
  intro hA
  obtain ⟨hs,hQ⟩:=h hA
  exact ⟨⟨nofun,hs.sums,hs.ends⟩,hQ⟩

theorem mem_sums_bind {s:Sum ι} (h:s∈x.sums) (f:α→Run ι β) : s∈(x >>= f).sums:=by
  show s ∈ (x.next f).sums
  unfold Run.next
  split
  · exact h
  · exact mem_append_left _ h

theorem Keeps.ite {c:Prop} [Decidable c] {y:Run ι α} (hx:c→Keeps A d x Q)
    (hy:¬c → Keeps A d y Q) : Keeps A d (if c then x else y) Q:=by
  split
  case isTrue h=>exact hx h
  case isFalse h=>exact hy h

theorem Keeps.failIf (c:Prop) [Decidable c] (off:ℕ) (msg:String) :
    Keeps A d (failIf c off msg) fun _=>¬c:=
  Keeps.ite (fun _=>Keeps.fail off msg) fun h=>Keeps.pure h

theorem Keeps.check {c:Prop} [Decidable c] {off:ℕ} {msg:String} {k:Unit→Run ι β}
    (h:¬c → Keeps A d (k ()) R) : Keeps A d (CheckedRun.failIf c off msg >>= k) R:=
  (Keeps.failIf c off msg).bind fun _=>h

theorem Keeps.each {σ:Type} {P:σ→Prop} {f:σ→α→Run ι σ}
    (hf:∀s,P s → ∀a∈l,Keeps A d (f s a) P) {s:σ} (hs:P s) :
    Keeps A d (each f s l) P:=by
  induction l generalizing s with
  | nil=>exact Keeps.pure hs
  | cons a l ih=>
    apply (hf s hs a mem_cons_self).bind
    intro s' hs'
    exact ih (fun s hs b hb=>hf s hs b (mem_cons_of_mem a hb)) hs'

/-- What a turn from `s` has to give: where it ends `E` holds, and where it goes on `P` does and
the measure is less. -/
def Turn {σ : Type} (P E : σ→Prop) (m : σ→ℕ) (s : σ) : Option σ → Prop
  | none => E s
  | some t => P t ∧ m t < m s

/-- A loop that uses up a measure at every turn comes to its end. -/
theorem Keeps.turns {σ:Type} {P E:σ→Prop} {step:σ → Run ι (Option σ)} (m:σ→ℕ)
    (hstep:∀s,P s → Keeps A d (step s) (Turn P E m s)) {fuel:ℕ} {s:σ} (hs:P s)
    (hfuel:m s<fuel) : Keeps A d (turns σ step fuel s) fun s=>P s ∧ E s:=by
  induction fuel generalizing s with
  | zero=>exact absurd hfuel (Nat.not_lt_zero _)
  | succ fuel ih=>
    apply (hstep s hs).bind
    intro s' hs'
    cases s' with
    | none=>exact Keeps.pure ⟨hs,hs'⟩
    | some t=>
      obtain ⟨ht,hlt⟩:=hs'
      exact ih ht (by omega)

end AutoRefirst.CheckedRun
