import AutoRefirst.PythonMarshal

/-!
# Programs of the marshal reader

Every reader of the format is built from a few steps. The pairs of a reader and the same
reader with its length and index fields checked are the least set of pairs that is closed
under these steps, so that a property of runs is proved once, by induction on the program.
-/

namespace AutoRefirst.PythonMarshal
open List Option

/-- The step gives `a` and leaves the reader `r'`. -/
def Ran {α : Type} (m : ReadM α) (r : Reader) (a : α) (r' : Reader) : Prop := m r = (some a,r')

variable {α β : Type} {r r' : Reader} {a : α}

theorem Ran.unique {m:ReadM α} {b:α} {r₁ r₂:Reader} (h:Ran m r a r₁) (h':Ran m r b r₂) :
    r₁=r₂:=by
  unfold Ran at h h'
  rw [h,Prod.mk.injEq] at h'
  exact h'.2

theorem ran_pure {b:α} : Ran (pure a) r b r' ↔ a=b ∧ r=r':=by
  show (some a,r) = (some b,r') ↔ _
  rw [Prod.mk.injEq,some.injEq]

theorem bind_run (m:ReadM α) (k:α→ReadM β) (r:Reader) :
    (m >>= k) r = match m r with | (some a,r)=>k a r | (none,r)=>(none,r):=rfl

theorem ran_bind {m:ReadM α} {k:α→ReadM β} {b:β} :
    Ran (m >>= k) r b r' ↔ ∃a r₁,Ran m r a r₁ ∧ Ran (k a) r₁ b r':=by
  unfold Ran
  rw [bind_run]
  rcases m r with ⟨_ | a,r₁⟩
  · simp
  · simp only [Prod.mk.injEq,some.injEq]
    constructor
    · intro h
      exact ⟨a,r₁,⟨rfl,rfl⟩,h⟩
    · rintro ⟨a',r₂,⟨rfl,rfl⟩,h⟩
      exact h

variable {n : ℕ}

theorem not_ran_failAt {s:String} : ¬Ran (failAt s n) r a r':=by
  unfold Ran failAt
  simp

theorem not_ran_fail {s:String} : ¬Ran (fail s) r a r':=by
  unfold Ran fail
  simp

def Reader.after (r : Reader) (n : ℕ) : Reader :=
  {r with reads:=r.reads++[(r.p,n)],p:=r.p+n}

def Reader.window (r : Reader) (n : ℕ) : Bytes := (r.d.drop r.p).take n

theorem need_iff (hp:r.p ≤ r.d.length) : r.need n=true ↔ r.p+n ≤ r.d.length:=by
  unfold Reader.need
  rw [decide_eq_true_iff,Nat.min_eq_left hp]
  omega

theorem need_after {x:ℕ×ℕ} : Reader.need {r with reads:=r.reads++[x]} n = r.need n:=rfl

theorem ran_readBytes {b:Bytes} (hn:r.p+n ≤ r.d.length) :
    Ran (readBytes n) r b r' ↔ b=r.window n ∧ r'=r.after n:=by
  have hneed : r.need n=true:=(need_iff (by omega)).mpr hn
  unfold Ran readBytes
  simp only [need_after,hneed,if_true,Prod.mk.injEq,some.injEq]
  exact ⟨fun h=>⟨h.1.symm,h.2.symm⟩,fun h=>⟨h.1.symm,h.2.symm⟩⟩

def Reader.short (r : Reader) (n : ℕ) : Reader :=
  Reader.fail {r with reads:=r.reads++[(r.p,n)]} "marshal truncated" r.p

theorem ran_readBytes_short {b:Bytes} (hp:r.p ≤ r.d.length) (hn:r.d.length < r.p+n) :
    Ran (readBytes n) r b r' ↔ b=[] ∧ r'=r.short n:=by
  have hneed : r.need n=false:=by
    rw [Bool.eq_false_iff]
    intro hneed
    have:=(need_iff hp).mp hneed
    omega
  unfold Ran readBytes
  simp only [need_after,hneed,Bool.false_eq_true,if_false,Prod.mk.injEq,some.injEq]
  exact ⟨fun h=>⟨h.1.symm,h.2.symm⟩,fun h=>⟨h.1.symm,h.2.symm⟩⟩

/-- Back references name objects that are there. -/
def Reader.Linked (r : Reader) : Prop := r.p ≤ r.d.length ∧ ∀ id∈r.refs, id < r.heap.length

/-- The fields read after a `need` for their bytes. -/
def Fields.checked : Fields where
  u8 := do
    check 1
    PythonMarshal.u8
  i32 := do
    check 4
    PythonMarshal.i32

/-- A test after which `n` bytes are there. -/
inductive Guard : ReadM Unit → ℕ → Prop
  | check (n : ℕ) : Guard (check n) n
  | room (n : ℕ) (s : String) : Guard (room n s) n

theorem Guard.ran {g:ReadM Unit} (hg:Guard g n) {u:Unit} (h:Ran g r u r') :
    r'=r ∧ (r.p ≤ r.d.length → r.p+n ≤ r.d.length):=by
  cases hg with
  | check n=>
    unfold Ran PythonMarshal.check at h
    split_ifs at h with hneed
    · exact ⟨((Prod.mk.injEq _ _ _ _).mp h).2.symm,fun hp=>(need_iff hp).mp hneed⟩
    · simp at h
  | room n s=>
    unfold Ran PythonMarshal.room at h
    split_ifs at h with hroom
    · simp at h
    · exact ⟨((Prod.mk.injEq _ _ _ _).mp h).2.symm,fun hp=>by omega⟩

inductive Program : {α : Type} → ReadM α → ReadM α → Prop
  | pure {α : Type} (a : α) : Program (Pure.pure a) (Pure.pure a)
  | bind {α β : Type} {m m' : ReadM α} {k k' : α→ReadM β} :
      Program m m' → (∀ a, Program (k a) (k' a)) → Program (m >>= k) (m' >>= k')
  | failAt {α : Type} (s : String) (at_ : ℕ) : Program (α := α) (failAt s at_) (failAt s at_)
  | fail {α : Type} (s : String) : Program (α := α) (fail s) (fail s)
  | position : Program position position
  | read {α : Type} {g : ReadM Unit} {n : ℕ} {k k' : Bytes→ReadM α} :
      Guard g n → (∀ b, Program (k b) (k' b)) →
        Program (g >>= fun _ => readBytes n >>= k) (g >>= fun _ => readBytes n >>= k')
  | readAt {α : Type} {g : ReadM Unit} {n : ℕ} {k k' : ℕ→Bytes→ReadM α} :
      Guard g n → (∀ off b, Program (k off b) (k' off b)) →
        Program (g >>= fun _ => position >>= fun off => readBytes n >>= k off)
          (g >>= fun _ => position >>= fun off => readBytes n >>= k' off)
  | field8 : Program u8 Fields.checked.u8
  | field32 : Program i32 Fields.checked.i32
  | refAt (idx : ℤ) (tagoff : ℕ) : Program (refAt idx tagoff) (refAt idx tagoff)
  | kindOf (id : ℕ) : Program (kindOf id) (kindOf id)
  | minorIs (p : ℤ→Bool) : Program (minorIs p) (minorIs p)
  | withNode {k : K} (ref : Bool) {body body' : ReadM Node} :
      k ≠ .code → (k = .bytes → body = stringBody .source .bytes) → Program body body' →
        Program (withNode k ref body) (withNode k ref body')
  | countCode : Program countCode countCode
  | code (ref : Bool) {head head' : ReadM CodeData} :
      (∀ r c r', r.Linked → Ran head r c r' → ∃ id, c.code = some id ∧ id < r'.heap.length) →
        Program head head' →
          Program (withNode .code ref (head >>= finishCode)) (withNode .code ref (head' >>= finishCode))

end AutoRefirst.PythonMarshal

/-!
## Runs of the marshal reader

What a run of a program leaves as it was, and how it grows the heap. Every payload of a
bytes object lies in the part of the input that was read when the object was made.
-/

namespace AutoRefirst.PythonMarshal
open List Option

variable {α : Type} {r r' : Reader}

def Reader.reserved (r : Reader) (k : K) (ref : Bool) : Reader := { r with
  heap:=r.heap++[{ k }]
  refs := if ref then r.refs++[r.heap.length] else r.refs
  out:={r.out with objectCount:=r.out.objectCount+1} }

def Reader.filled (r : Reader) (id : ℕ) (n : Node) : Reader := {r with heap:=r.heap.set id n}

variable {k : K} {ref : Bool} {id : ℕ}

theorem ran_withNode {body:ReadM Node} : Ran (withNode k ref body) r id r' ↔
      ∃n r₁,Ran body (r.reserved k ref) n r₁ ∧ id=r.heap.length ∧
        r' = r₁.filled r.heap.length {n with k:=k}:=by
  unfold withNode
  simp only [ran_bind,ran_pure]
  constructor
  · rintro ⟨x,r₀,hreserve,n,r₁,hbody,u,r₂,hset,rfl,rfl⟩
    obtain ⟨rfl,rfl⟩ : r.heap.length=x ∧ r.reserved k ref=r₀:=by
      simpa [Ran,reserveNode,Reader.reserved] using hreserve
    have hfill : r₁.filled r.heap.length {n with k:=k} = r₂:=by
      simpa [Ran,setNode,Reader.filled] using hset
    exact ⟨n,r₁,hbody,rfl,hfill.symm⟩
  · rintro ⟨n,r₁,hbody,rfl,rfl⟩
    exact ⟨_,_,rfl,n,r₁,hbody,(),_,rfl,rfl,rfl⟩

variable {n : ℕ}

theorem ran_position : Ran position r n r' ↔ n=r.p ∧ r'=r:=by
  unfold Ran position
  simp only [Prod.mk.injEq,some.injEq]
  exact ⟨fun h=>⟨h.1.symm,h.2.symm⟩,fun h=>⟨h.1.symm,h.2.symm⟩⟩

theorem ran_kindOf : Ran (kindOf id) r k r' ↔ r.heap[id]?.map Node.k=some k ∧ r'=r:=by
  unfold Ran kindOf
  rw [Prod.mk.injEq]
  exact ⟨fun h=>⟨h.1,h.2.symm⟩,fun h=>⟨h.1,h.2.symm⟩⟩

theorem ran_minorIs {p:ℤ→Bool} {b:Bool} : Ran (minorIs p) r b r' ↔ b=p r.minor ∧ r'=r:=by
  unfold Ran minorIs
  simp only [Prod.mk.injEq,some.injEq]
  exact ⟨fun h=>⟨h.1.symm,h.2.symm⟩,fun h=>⟨h.1.symm,h.2.symm⟩⟩

theorem ran_refAt {idx:ℤ} {tagoff:ℕ} :
    Ran (refAt idx tagoff) r id r' ↔ 0 ≤ idx ∧ r.refs[idx.toNat]? = some id ∧ r'=r:=by
  unfold Ran refAt
  split_ifs with hneg
  · constructor
    · intro h
      simp at h
    · intro h
      omega
  · split
    · next x hx=>
      simp only [Prod.mk.injEq,some.injEq,hx]
      exact ⟨fun h=>⟨by omega,h.1,h.2.symm⟩,fun h=>⟨h.2.1,h.2.2.symm⟩⟩
    · next hx=>
      rw [hx]
      simp

def Reader.noted (r : Reader) (c : CodeData) : Reader := { r with
  out:={r.out with codeRanges:=addCodeRange r.heap c r.out.codeRanges} }

theorem ran_finishCode {c:CodeData} {n:Node} :
    Ran (finishCode c) r n r' ↔ n={k:=.code,code:=some c} ∧ r'=r.noted c:=by
  unfold finishCode
  rw [ran_bind]
  constructor
  · rintro ⟨u,r₁,hrecord,h⟩
    rw [ran_pure] at h
    obtain ⟨-,hr₁⟩:=(Prod.mk.injEq _ _ _ _).mp hrecord
    exact ⟨h.1.symm,by rw [← h.2,← hr₁];rfl⟩
  · rintro ⟨rfl,rfl⟩
    exact ⟨(),_,rfl,rfl⟩

structure Grown (r r' : Reader) : Prop where
  d : r'.d=r.d
  minor : r'.minor=r.minor
  le : r.p ≤ r'.p
  bound : r'.p ≤ r.d.length
  reads : r.reads <+: r'.reads
  heap : r.heap <+: r'.heap
  bytes : ∀ (id : ℕ) (n : Node), r'.heap[id]? = some n → n.k = .bytes → n.blob=[] ∨
    r.heap[id]? = some n ∨ (r.p≤n.blobOffset ∧ n.blobOffset+n.blob.length ≤ r'.p)

theorem Grown.refl (hp:r.p ≤ r.d.length) : Grown r r:=
  ⟨rfl,rfl,Nat.le_refl _,hp,prefix_refl _,prefix_refl _,fun _ _ h _ => .inr (.inl h)⟩

theorem Grown.bound' (h:Grown r r') : r'.p ≤ r'.d.length:=by
  rw [h.d]
  exact h.bound

theorem Grown.trans {r'':Reader} (h:Grown r r') (h':Grown r' r'') : Grown r r'':=by
  constructor
  case d=>rw [h'.d,h.d]
  case minor=>rw [h'.minor,h.minor]
  case le=>exact Nat.le_trans h.le h'.le
  case bound=>
    rw [← h.d]
    exact h'.bound
  case reads=>exact h.reads.trans h'.reads
  case heap=>exact h.heap.trans h'.heap
  case bytes=>
    intro id n hn hk
    rcases h'.bytes id n hn hk with hempty | hold | ⟨hlow,hhigh⟩
    · exact .inl hempty
    · rcases h.bytes id n hold hk with hempty | hold | ⟨hlow,hhigh⟩
      · exact .inl hempty
      · exact .inr (.inl hold)
      · exact .inr (.inr ⟨hlow,Nat.le_trans hhigh h'.le⟩)
    · exact .inr (.inr ⟨Nat.le_trans h.le hlow,hhigh⟩)

theorem Grown.of_heap (hd:r'.d=r.d) (hminor:r'.minor=r.minor) (hle:r.p ≤ r'.p)
    (hbound:r'.p ≤ r.d.length) (hreads:r.reads <+: r'.reads) (hheap:r'.heap=r.heap) :
    Grown r r':=
  ⟨hd,hminor,hle,hbound,hreads,⟨[],by rw [append_nil,hheap]⟩,
    fun id n hn _ => .inr (.inl (by rw [← hheap];exact hn))⟩

theorem grown_after (hn:r.p+n ≤ r.d.length) : Grown r (r.after n):=
  .of_heap rfl rfl (Nat.le_add_right _ _) hn (prefix_append _ _) rfl

theorem fail_eq (r:Reader) (s:String) (n:ℕ) :
    ∃e o,r.fail s n = {r with out:={r.out with error:=e,errorOffset:=o}}:=by
  unfold Reader.fail
  split_ifs
  · exact ⟨_,_,rfl⟩
  · exact ⟨_,_,rfl⟩

theorem short_eq (r:Reader) (n:ℕ) : ∃e o,r.short n = { r with
      reads:=r.reads++[(r.p,n)],out:={r.out with error:=e,errorOffset:=o} }:=
  fail_eq _ _ _

theorem grown_short (n:ℕ) (hp:r.p ≤ r.d.length) : Grown r (r.short n):=by
  obtain ⟨e,o,hshort⟩:=short_eq r n
  rw [hshort]
  exact .of_heap rfl rfl (Nat.le_refl _) hp (prefix_append _ _) rfl

variable {b : Bytes}

theorem readBytes_cases (hp:r.p ≤ r.d.length) (h:Ran (readBytes n) r b r') :
    (r.p+n ≤ r.d.length ∧ b=r.window n ∧ r'=r.after n) ∨
      (r.d.length < r.p+n ∧ b=[] ∧ r'=r.short n):=by
  by_cases hn : r.p+n ≤ r.d.length
  · exact .inl ⟨hn,(ran_readBytes hn).mp h⟩
  · exact .inr ⟨by omega,(ran_readBytes_short hp (by omega)).mp h⟩

theorem grown_readBytes (hp:r.p ≤ r.d.length) (h:Ran (readBytes n) r b r') : Grown r r':=by
  rcases readBytes_cases hp h with ⟨hn,-,rfl⟩ | ⟨-,-,rfl⟩
  · exact grown_after hn
  · exact grown_short n hp

theorem grown_u8 {a:ℕ} (hp:r.p ≤ r.d.length) (h:Ran u8 r a r') : Grown r r':=by
  obtain ⟨b,r₁,hread,h⟩:=ran_bind.mp h
  rw [ran_pure] at h
  rw [← h.2]
  exact grown_readBytes hp hread

theorem grown_i32 {a:ℤ} (hp:r.p ≤ r.d.length) (h:Ran i32 r a r') : Grown r r':=by
  obtain ⟨b,r₁,hread,h⟩:=ran_bind.mp h
  rw [ran_pure] at h
  rw [← h.2]
  exact grown_readBytes hp hread

/-- The object made by `withNode` is the only new one that the body did not make. -/
theorem grown_withNode {n:Node} {r₁:Reader} (h:Grown (r.reserved k ref) r₁)
    (hn:k=.bytes → r.p≤n.blobOffset ∧ n.blobOffset+n.blob.length ≤ r₁.p) :
    Grown r (r₁.filled r.heap.length {n with k:=k}):=by
  have hkeep : r.heap <+: r₁.heap.set r.heap.length {n with k:=k}:=by
    obtain ⟨t,ht⟩:=h.heap
    refine ⟨{n with k:=k}::t,?_⟩
    rw [← ht,Reader.reserved,append_assoc,set_append_right _ _ (Nat.le_refl _), Nat.sub_self]
    rfl
  refine ⟨h.d,h.minor,h.le,h.bound,h.reads,hkeep,?_⟩
  intro id x hx hk
  by_cases hid : id=r.heap.length
  · subst hid
    right
    right
    have hx' : (r₁.heap.set r.heap.length {n with k:=k})[r.heap.length]? = some x:=hx
    rw [getElem?_set_self'] at hx'
    obtain ⟨y,-,rfl⟩:=map_eq_some_iff.mp hx'
    exact hn hk
  · have hx' : (r₁.heap.set r.heap.length {n with k:=k})[id]? = some x:=hx
    rw [getElem?_set_ne (Ne.symm hid)] at hx'
    rcases h.bytes id x hx' hk with hempty | hold | hwindow
    · exact .inl hempty
    · right
      left
      have hlt : id < r.heap.length:=by
        obtain ⟨hlt,-⟩:=List.getElem?_eq_some_iff.mp hold
        have hlen : (r.reserved k ref).heap.length=r.heap.length+1:=by simp [Reader.reserved]
        omega
      rwa [Reader.reserved,getElem?_append_left hlt] at hold
    · exact .inr (.inr hwindow)

theorem ran_guarded {β:Type} {g:ReadM Unit} {k:Bytes→ReadM β} {b:β} (hg:Guard g n)
    (hp:r.p ≤ r.d.length) :
    Ran (g >>= fun _=>readBytes n >>= k) r b r' ↔
      Ran g r () r ∧ r.p+n ≤ r.d.length ∧ Ran (k (r.window n)) (r.after n) b r':=by
  simp only [ran_bind]
  constructor
  · rintro ⟨u,r₁,hguard,x,r₂,hread,h⟩
    obtain ⟨hr₁,hroom⟩:=hg.ran hguard
    rw [hr₁] at hguard hread
    obtain ⟨hx,hr₂⟩:=(ran_readBytes (hroom hp)).mp hread
    rw [hx,hr₂] at h
    exact ⟨hguard,hroom hp,h⟩
  · rintro ⟨hguard,hroom,h⟩
    exact ⟨(),r,hguard,_,_,(ran_readBytes hroom).mpr ⟨rfl,rfl⟩,h⟩

theorem ran_guardedAt {β:Type} {g:ReadM Unit} {k:ℕ→Bytes→ReadM β} {b:β} (hg:Guard g n)
    (hp:r.p ≤ r.d.length) :
    Ran (g >>= fun _=>position >>= fun off=>readBytes n >>= k off) r b r' ↔
      Ran g r () r ∧ r.p+n ≤ r.d.length ∧ Ran (k r.p (r.window n)) (r.after n) b r':=by
  simp only [ran_bind]
  constructor
  · rintro ⟨u,r₁,hguard,off,r₂,hoff,x,r₃,hread,h⟩
    obtain ⟨hr₁,hroom⟩:=hg.ran hguard
    rw [hr₁] at hguard hoff
    obtain ⟨hoff,hr₂⟩:=ran_position.mp hoff
    rw [hr₂] at hread
    obtain ⟨hx,hr₃⟩:=(ran_readBytes (hroom hp)).mp hread
    rw [hoff,hx,hr₃] at h
    exact ⟨hguard,hroom hp,h⟩
  · rintro ⟨hguard,hroom,h⟩
    exact ⟨(),r,hguard,r.p,r,rfl,_,_,(ran_readBytes hroom).mpr ⟨rfl,rfl⟩,h⟩

theorem window_length (h:r.p+n ≤ r.d.length) : (r.window n).length=n:=by
  rw [Reader.window,length_take,length_drop]
  omega

theorem countOk_one {len:ℤ} {u:Unit} (h:Ran (countOk len 1) r u r') :
    r'=r ∧ ¬(len<0 ∨ len>10000000) ∧ (r.p ≤ r.d.length → r.p+len.toNat ≤ r.d.length):=by
  unfold countOk at h
  rw [if_pos Nat.one_ne_zero,Nat.mul_one] at h
  split_ifs at h with hbad
  · exact absurd h not_ran_fail
  · obtain ⟨hr,hroom⟩:=(Guard.room len.toNat _).ran h
    exact ⟨hr,hbad,hroom⟩

/-- The length, then the payload after it. -/
theorem ran_stringBody {f:Fields} {n:Node} (hgrown:∀len r₁,Ran f.i32 r len r₁ → Grown r r₁)
    (h:Ran (stringBody f k) r n r') :
    ∃len r₁,Ran f.i32 r len r₁ ∧ ¬(len<0 ∨ len>10000000) ∧
      r₁.p + len.toNat ≤ r₁.d.length ∧ r'=r₁.after len.toNat ∧
      n={k,blobOffset:=r₁.p,blob:=r₁.window len.toNat}:=by
  obtain ⟨len,r₁,hlen,h₁⟩:=ran_bind.mp h
  have hbound:=(hgrown len r₁ hlen).bound'
  obtain ⟨u,r₂,hcount,h₂⟩:=ran_bind.mp h₁
  obtain ⟨hr₂,hok,hroom⟩:=countOk_one hcount
  rw [hr₂] at h₂
  obtain ⟨off,r₃,hoff,h₃⟩:=ran_bind.mp h₂
  obtain ⟨hoff,hr₃⟩:=ran_position.mp hoff
  rw [hoff,hr₃] at h₃
  obtain ⟨x,r₄,hread,h₄⟩:=ran_bind.mp h₃
  obtain ⟨hx,hr₄⟩:=(ran_readBytes (hroom hbound)).mp hread
  rw [hx,hr₄,ran_pure] at h₄
  exact ⟨len,r₁,hlen,hok,hroom hbound,h₄.2.symm,h₄.1.symm⟩

theorem bytesBody_window {n:Node} (hp:r.p ≤ r.d.length)
    (h:Ran (stringBody .source .bytes) r n r') :
    r.p≤n.blobOffset ∧ n.blobOffset+n.blob.length ≤ r'.p:=by
  obtain ⟨len,r₁,hlen,-,hroom,rfl,rfl⟩:=ran_stringBody (fun _ _=>grown_i32 hp) h
  refine ⟨(grown_i32 hp hlen).le,?_⟩
  exact Nat.le_of_eq (congrArg (r₁.p + ·) (window_length hroom))

theorem Program.grown {m m':ReadM α} (h:Program m m') {a:α} (hp:r.p ≤ r.d.length)
    (hrun:Ran m r a r') : Grown r r':=by
  induction h generalizing r r' with
  | pure=>
    rw [ran_pure] at hrun
    rw [← hrun.2]
    exact .refl hp
  | bind _ _ ihm ihk=>
    obtain ⟨x,r₁,hm,hk⟩:=ran_bind.mp hrun
    have h₁:=ihm hp hm
    exact h₁.trans (ihk x h₁.bound' hk)
  | failAt=>exact absurd hrun not_ran_failAt
  | fail=>exact absurd hrun not_ran_fail
  | position=>
    obtain ⟨-,rfl⟩:=ran_position.mp hrun
    exact .refl hp
  | read hg _ ih=>
    obtain ⟨-,hroom,hk⟩:=(ran_guarded hg hp).mp hrun
    exact (grown_after hroom).trans (ih _ hroom hk)
  | readAt hg _ ih=>
    obtain ⟨-,hroom,hk⟩:=(ran_guardedAt hg hp).mp hrun
    exact (grown_after hroom).trans (ih _ _ hroom hk)
  | field8=>exact grown_u8 hp hrun
  | field32=>exact grown_i32 hp hrun
  | refAt=>
    obtain ⟨-,-,rfl⟩:=ran_refAt.mp hrun
    exact .refl hp
  | kindOf=>
    obtain ⟨-,rfl⟩:=ran_kindOf.mp hrun
    exact .refl hp
  | minorIs=>
    obtain ⟨-,rfl⟩:=ran_minorIs.mp hrun
    exact .refl hp
  | @withNode k ref body body' _ hk _ ih=>
    obtain ⟨n,r₁,hbody,-,rfl⟩:=ran_withNode.mp hrun
    apply grown_withNode (ih hp hbody)
    intro hb
    rw [hk hb] at hbody
    have hp' : (r.reserved k ref).p≤(r.reserved k ref).d.length:=hp
    have hwindow:=bytesBody_window hp' hbody
    exact hwindow
  | countCode=>
    rw [← ((Prod.mk.injEq _ _ _ _).mp hrun).2]
    exact .of_heap rfl rfl (Nat.le_refl _) hp (prefix_refl _) rfl
  | code ref _ _ ih=>
    obtain ⟨n,r₁,hbody,-,rfl⟩:=ran_withNode.mp hrun
    obtain ⟨c,r₂,hhead,hfinish⟩:=ran_bind.mp hbody
    obtain ⟨-,rfl⟩:=ran_finishCode.mp hfinish
    have hp' : (r.reserved .code ref).p≤(r.reserved .code ref).d.length:=hp
    have h₂:=ih hp' hhead
    exact grown_withNode (h₂.trans (.of_heap rfl rfl (Nat.le_refl _) h₂.bound' (prefix_refl _) rfl))
      fun hb=>absurd hb (by decide)

theorem Reader.Linked.of_eq (h:r.Linked) (hp:r'.p ≤ r'.d.length) (hrefs:r'.refs=r.refs)
    (hheap:r'.heap=r.heap) : r'.Linked:=
  ⟨hp,by rw [hrefs,hheap];exact h.2⟩

theorem linked_after (h:r.Linked) (hn:r.p+n ≤ r.d.length) : (r.after n).Linked:=h.of_eq hn rfl rfl

theorem linked_readBytes (h:r.Linked) (hrun:Ran (readBytes n) r b r') : r'.Linked:=by
  rcases readBytes_cases h.1 hrun with ⟨hn,-,rfl⟩ | ⟨-,-,rfl⟩
  · exact linked_after h hn
  · obtain ⟨e,o,hshort⟩:=short_eq r n
    rw [hshort]
    exact h.of_eq h.1 rfl rfl

theorem linked_reserved (h:r.Linked) : (r.reserved k ref).Linked:=by
  refine ⟨h.1,fun id hid=>?_⟩
  have hlen : (r.reserved k ref).heap.length=r.heap.length+1:=by simp [Reader.reserved]
  have hid' : id∈r.refs ∨ id=r.heap.length:=by
    unfold Reader.reserved at hid
    dsimp only at hid
    split_ifs at hid
    · simpa using hid
    · exact .inl hid
  rcases hid' with hid' | hid'
  · have:=h.2 id hid'
    omega
  · omega

theorem linked_filled {n:Node} (h:r.Linked) : (r.filled id n).Linked:=by
  refine ⟨h.1,fun x hx=>?_⟩
  rw [Reader.filled,length_set]
  exact h.2 x hx

theorem Program.linked {m m':ReadM α} (h:Program m m') {a:α} (hr:r.Linked)
    (hrun:Ran m r a r') : r'.Linked:=by
  induction h generalizing r r' with
  | pure=>
    rw [ran_pure] at hrun
    rwa [← hrun.2]
  | bind _ _ ihm ihk=>
    obtain ⟨x,r₁,hm,hk⟩:=ran_bind.mp hrun
    exact ihk x (ihm hr hm) hk
  | failAt=>exact absurd hrun not_ran_failAt
  | fail=>exact absurd hrun not_ran_fail
  | position=>
    obtain ⟨-,rfl⟩:=ran_position.mp hrun
    exact hr
  | read hg _ ih=>
    obtain ⟨-,hroom,hk⟩:=(ran_guarded hg hr.1).mp hrun
    exact ih _ (linked_after hr hroom) hk
  | readAt hg _ ih=>
    obtain ⟨-,hroom,hk⟩:=(ran_guardedAt hg hr.1).mp hrun
    exact ih _ _ (linked_after hr hroom) hk
  | field8=>
    obtain ⟨b,r₁,hread,hpure⟩:=ran_bind.mp hrun
    rw [ran_pure] at hpure
    rw [← hpure.2]
    exact linked_readBytes hr hread
  | field32=>
    obtain ⟨b,r₁,hread,hpure⟩:=ran_bind.mp hrun
    rw [ran_pure] at hpure
    rw [← hpure.2]
    exact linked_readBytes hr hread
  | refAt=>
    obtain ⟨-,-,rfl⟩:=ran_refAt.mp hrun
    exact hr
  | kindOf=>
    obtain ⟨-,rfl⟩:=ran_kindOf.mp hrun
    exact hr
  | minorIs=>
    obtain ⟨-,rfl⟩:=ran_minorIs.mp hrun
    exact hr
  | withNode ref _ _ _ ih=>
    obtain ⟨n,r₁,hbody,-,rfl⟩:=ran_withNode.mp hrun
    exact linked_filled (ih (linked_reserved hr) hbody)
  | countCode=>
    rw [← ((Prod.mk.injEq _ _ _ _).mp hrun).2]
    exact hr.of_eq hr.1 rfl rfl
  | code ref _ _ ih=>
    obtain ⟨n,r₁,hbody,-,rfl⟩:=ran_withNode.mp hrun
    obtain ⟨c,r₂,hhead,hfinish⟩:=ran_bind.mp hbody
    obtain ⟨-,rfl⟩:=ran_finishCode.mp hfinish
    have h₂:=ih (linked_reserved hr) hhead
    exact linked_filled (h₂.of_eq h₂.1 rfl rfl)

end AutoRefirst.PythonMarshal
