import AutoRefirst.MarshalRuns
import AutoRefirst.MarshalValues

/-!
# The heap of a parsed stream

Each object of a parsed stream has a shape, and its parts are objects of the stream.
-/

namespace AutoRefirst.PythonMarshal
open List Option

def Node.Filled (len : ℕ) (n : Node) : Prop :=
  ∃ ℓ parts, n.shape=some (ℓ,parts) ∧ ∀ id, some id ∈ parts → id<len

theorem Node.Filled.mono {len len':ℕ} {n:Node} (h:n.Filled len) (hle:len≤len') :
    n.Filled len':=by
  obtain ⟨ℓ,parts,hshape,hparts⟩:=h
  exact ⟨ℓ,parts,hshape,fun id hid=>Nat.lt_of_lt_of_le (hparts id hid) hle⟩

/-- What a run does to the heap: it keeps the objects and adds filled ones. -/
structure Steps (r r' : Reader) : Prop where
  grows : r.heap.length ≤ r'.heap.length
  kept : ∀ id < r.heap.length, r'.heap[id]? = r.heap[id]?
  filled : ∀ id n, r.heap.length ≤ id → r'.heap[id]? = some n → n.Filled r'.heap.length
  linked : ∀ id∈r'.refs, id < r'.heap.length

variable {r : Reader}

theorem Steps.trans {r₁ r':Reader} (h:Steps r r₁) (h':Steps r₁ r') : Steps r r' where
  grows:=Nat.le_trans h.grows h'.grows
  kept:=fun id hid=>(h'.kept id (Nat.lt_of_lt_of_le hid h.grows)).trans (h.kept id hid)
  filled:=by
    intro id n hid hn
    rcases Nat.lt_or_ge id r₁.heap.length with hlt | hge
    · rw [h'.kept id hlt] at hn
      exact (h.filled id n hid hn).mono h'.grows
    · exact h'.filled id n hge hn
  linked:=h'.linked

theorem steps_of_heap {r':Reader} (hheap:r'.heap=r.heap) (hrefs:r'.refs=r.refs)
    (hlinked:∀id∈r.refs,id < r.heap.length) : Steps r r' where
  grows:=by rw [hheap]
  kept:=fun id _=>by rw [hheap]
  filled:=by
    intro id n hid hn
    rw [hheap,List.getElem?_eq_none_iff.mpr hid] at hn
    cases hn
  linked:=by rwa [hheap,hrefs]

def Still {α : Type} (m : ReadM α) : Prop :=
  ∀ r a r', Ran m r a r' → r'.heap=r.heap ∧ r'.refs=r.refs

section
variable {α β : Type}

theorem still_pure (a:α) : Still (pure a):=by
  intro r b r' hrun
  obtain ⟨-,rfl⟩:=ran_pure.mp hrun
  exact ⟨rfl,rfl⟩

variable {m : ReadM α}

theorem Still.bind {k:α→ReadM β} (h:Still m) (hk:∀a,Still (k a)) : Still (m >>= k):=by
  intro r b r' hrun
  obtain ⟨a,r₁,hm,hrest⟩:=ran_bind.mp hrun
  obtain ⟨hheap,hrefs⟩:=h r a r₁ hm
  obtain ⟨hheap',hrefs'⟩:=hk a r₁ b r' hrest
  exact ⟨hheap'.trans hheap,hrefs'.trans hrefs⟩

theorem Still.ite {c:Prop} [Decidable c] {m':ReadM α} (h:Still m) (h':Still m') :
    Still (if c then m else m'):=by
  split_ifs
  · exact h
  · exact h'

theorem still_fail (s:String) : Still (α:=α) (fail s):=fun _ _ _ hrun=>absurd hrun not_ran_fail

theorem still_readBytes (n:ℕ) : Still (readBytes n):=by
  intro r b r' hrun
  unfold Ran readBytes at hrun
  dsimp only at hrun
  split_ifs at hrun
  · obtain ⟨-,rfl⟩:=(Prod.mk.injEq _ _ _ _).mp hrun
    exact ⟨rfl,rfl⟩
  · obtain ⟨-,rfl⟩:=(Prod.mk.injEq _ _ _ _).mp hrun
    obtain ⟨e,o,hshort⟩:=short_eq r n
    show (r.short n).heap = r.heap ∧ (r.short n).refs=r.refs
    rw [hshort]
    exact ⟨rfl,rfl⟩

theorem still_u8 : Still u8:=(still_readBytes 1).bind fun _=>still_pure _

theorem still_i32 : Still i32:=(still_readBytes 4).bind fun _=>still_pure _

variable {n : ℕ}

theorem Guard.still {g:ReadM Unit} (h:Guard g n) : Still g:=by
  intro r u r' hrun
  rw [(h.ran hrun).1]
  exact ⟨rfl,rfl⟩

theorem still_check (n:ℕ) : Still (check n):=(Guard.check n).still

theorem still_room (n:ℕ) (s:String) : Still (room n s):=(Guard.room n s).still

theorem still_position : Still position:=by
  intro r a r' hrun
  obtain ⟨-,rfl⟩:=ran_position.mp hrun
  exact ⟨rfl,rfl⟩

theorem still_kindOf (id:ℕ) : Still (kindOf id):=by
  intro r a r' hrun
  obtain ⟨-,rfl⟩:=ran_kindOf.mp hrun
  exact ⟨rfl,rfl⟩

theorem still_minorIs (p:ℤ→Bool) : Still (minorIs p):=by
  intro r a r' hrun
  obtain ⟨-,rfl⟩:=ran_minorIs.mp hrun
  exact ⟨rfl,rfl⟩

theorem still_countOk (n:ℤ) (k:ℕ) : Still (countOk n k):=
  .ite (still_fail _) (.ite (still_room _ _) (still_pure ()))

theorem still_take (n:ℕ) : Still (take n):=(still_check n).bind fun _=>still_readBytes n

theorem still_ri : Still ri:=(still_check 4).bind fun _=>still_i32

theorem still_stringBody (k:K) : Still (stringBody .source k):=
  still_i32.bind fun _=>(still_countOk _ 1).bind fun _=>still_position.bind fun _=>
    (still_readBytes _).bind fun _=>still_pure _

/-- A run from at least `len` objects adds filled ones and gives a result with `P`. -/
def Makes (len : ℕ) (m : ReadM α) (P : ℕ→α→Prop) : Prop :=
  ∀ r a r', len ≤ r.heap.length → (∀ id∈r.refs, id < r.heap.length) → Ran m r a r' →
    Steps r r' ∧ P r'.heap.length a

variable {len : ℕ} {P Q : ℕ→α→Prop}

theorem makes_pure {a:α} (h:∀n,len≤n → P n a) : Makes len (pure a) P:=by
  intro r b r' hlen hlinked hrun
  obtain ⟨rfl,rfl⟩:=ran_pure.mp hrun
  exact ⟨steps_of_heap rfl rfl hlinked,h _ hlen⟩

theorem Makes.bind {k:α→ReadM β} {R:ℕ→β→Prop} (h:Makes len m P)
    (hk:∀n,len≤n → ∀a,P n a → Makes n (k a) R) : Makes len (m >>= k) R:=by
  intro r b r' hlen hlinked hrun
  obtain ⟨a,r₁,hm,hrest⟩:=ran_bind.mp hrun
  obtain ⟨hsteps,ha⟩:=h r a r₁ hlen hlinked hm
  obtain ⟨hsteps',hb⟩:=hk _ (Nat.le_trans hlen hsteps.grows) a ha r₁ b r' (Nat.le_refl _)
    hsteps.linked hrest
  exact ⟨hsteps.trans hsteps',hb⟩

theorem Makes.ite {c:Prop} [Decidable c] {m':ReadM α} (h:Makes len m P)
    (h':Makes len m' P) : Makes len (if c then m else m') P:=by
  split_ifs
  · exact h
  · exact h'

theorem Makes.from {len':ℕ} (h:Makes len m P) (hle:len≤len') : Makes len' m P:=
  fun r a r' hlen=>h r a r' (Nat.le_trans hle hlen)

theorem Still.makes (h:Still m) : Makes len m fun _ _=>True:=by
  intro r a r' _ hlinked hrun
  obtain ⟨hheap,hrefs⟩:=h r a r' hrun
  exact ⟨steps_of_heap hheap hrefs hlinked,trivial⟩

theorem makes_failAt (s:String) (n:ℕ) : Makes len (failAt s n) P:=
  fun _ _ _ _ _ hrun=>absurd hrun not_ran_failAt

theorem makes_fail (s:String) : Makes len (fail s) P:=fun _ _ _ _ _ hrun=>absurd hrun not_ran_fail

/-- The object that was made is there. -/
abbrev There (n id : ℕ) : Prop := id < n

theorem makes_withNode (k:K) (ref:Bool) {body:ReadM Node}
    (h:Makes len body fun n node=>Node.Filled n {node with k:=k}) :
    Makes len (withNode k ref body) There:=by
  intro r id r' hlen hlinked hrun
  obtain ⟨n,r₁,hbody,rfl,rfl⟩:=ran_withNode.mp hrun
  have hlength : (r.reserved k ref).heap.length=r.heap.length+1:=length_append
  have hlinked' : ∀id∈(r.reserved k ref).refs,id<(r.reserved k ref).heap.length:=by
    intro id hid
    rw [hlength]
    change id ∈ (if ref then r.refs++[r.heap.length] else r.refs) at hid
    split_ifs at hid
    · rcases mem_append.mp hid with hold | hnew
      · exact Nat.lt_succ_of_lt (hlinked id hold)
      · rw [mem_singleton.mp hnew]
        exact Nat.lt_succ_self _
    · exact Nat.lt_succ_of_lt (hlinked id hid)
  obtain ⟨hsteps,hfilled⟩:=h _ n r₁ (by omega) hlinked' hbody
  have hgrows:=hsteps.grows
  have hset : (r₁.filled r.heap.length {n with k:=k}).heap =
      r₁.heap.set r.heap.length {n with k:=k}:=rfl
  have hsetlen : (r₁.filled r.heap.length {n with k:=k}).heap.length=r₁.heap.length:=by
    rw [hset,length_set]
  refine ⟨⟨by omega,?_,?_,?_⟩,by rw [hsetlen];omega⟩
  · intro id hid
    rw [hset,getElem?_set_ne (Nat.ne_of_gt hid),hsteps.kept id (by omega)]
    exact getElem?_append_left hid
  · intro id m hid hm
    rw [hsetlen]
    rcases Nat.eq_or_lt_of_le hid with rfl | hlt
    · rw [hset,getElem?_set_self (by omega)] at hm
      rw [← some.inj hm]
      exact hfilled
    · rw [hset,getElem?_set_ne (Nat.ne_of_lt hlt)] at hm
      exact hsteps.filled id m (by omega) hm
  · intro id hid
    rw [hsetlen]
    exact hsteps.linked id hid

/-- The kinds of objects without parts. -/
def plainKind : K → Bool
  | .tuple | .list | .slice | .set | .frozenSet | .dict | .code => false
  | _ => true

variable {k : K}

theorem filled_plain (hk:plainKind k=true) (n:ℕ) (node:Node) :
    Node.Filled n {node with k:=k}:=by
  cases k with
  | tuple | list | slice | set | frozenSet | dict | code=>cases hk
  | _=>exact ⟨_,[],rfl,fun id hid=>absurd hid not_mem_nil⟩

theorem filled_seq (hk:k=.tuple ∨ k=.list ∨ k=.slice ∨ k=.set ∨ k=.frozenSet)
    {node:Node} (h:∀x∈node.seq,x<n) : Node.Filled n {node with k:=k}:=by
  have hparts : ∀id,some id∈node.seq.map some → id<n:=by
    intro id hid
    obtain ⟨x,hx,hsome⟩:=List.mem_map.mp hid
    rw [← some.inj hsome]
    exact h x hx
  rcases hk with rfl | rfl | rfl | rfl | rfl
  · exact ⟨_,_,rfl,hparts⟩
  · exact ⟨_,_,rfl,hparts⟩
  · exact ⟨_,_,rfl,hparts⟩
  · exact ⟨_,_,rfl,hparts⟩
  · exact ⟨_,_,rfl,hparts⟩

theorem makes_plain (hk:plainKind k=true) (ref:Bool) {body:ReadM Node} (h:Still body) :
    Makes len (withNode k ref body) There:=by
  apply makes_withNode
  intro r n r' hlen hlinked hrun
  exact ⟨(h.makes r n r' hlen hlinked hrun).1,filled_plain hk _ n⟩

theorem makes_scalar (hk:plainKind k=true) (ref:Bool) :
    Makes len (scalar k ref) There:=makes_plain hk ref (still_pure _)

variable (ref : Bool)

theorem makes_intNode : Makes len (intNode ref) There:=
  makes_plain rfl ref (still_ri.bind fun _=>still_pure _)

theorem makes_fixedNode (hk:plainKind k=true) (n:ℕ) (ref:Bool) :
    Makes len (fixedNode k n ref) There:=
  makes_plain hk ref ((still_take n).bind fun _=>still_pure _)

theorem makes_longNode : Makes len (longNode ref) There:=
  makes_plain rfl ref (still_ri.bind fun _ => .ite (still_fail _) ((still_room _ _).bind fun _=>
    (still_readBytes _).bind fun _=>still_pure _))

theorem makes_floatNode : Makes len (floatNode .source ref) There:=
  makes_plain rfl ref (still_u8.bind fun _=>(still_take _).bind fun _=>still_pure _)

theorem makes_complexNode : Makes len (complexNode .source ref) There:=
  makes_plain rfl ref (still_u8.bind fun _=>(still_take _).bind fun _=>still_u8.bind fun _=>
    (still_take _).bind fun _=>still_pure _)

theorem makes_stringNode (hk:plainKind k=true) (ref:Bool) :
    Makes len (stringNode .source k ref) There:=makes_plain hk ref (still_stringBody k)

theorem makes_shortNode : Makes len (shortNode .source ref) There:=
  makes_plain rfl ref (still_u8.bind fun _=>(still_check _).bind fun _=>
    still_position.bind fun _=>(still_readBytes _).bind fun _=>still_pure _)

theorem makes_refNode (tagoff:ℕ) (ref:Bool) : Makes len (refNode .source tagoff ref) There:=by
  refine .ite (makes_failAt _ _) (still_i32.makes.bind fun n _ idx _=>?_)
  intro r id r' _ hlinked hrun
  obtain ⟨-,hid,rfl⟩:=ran_refAt.mp hrun
  exact ⟨steps_of_heap rfl rfl hlinked,hlinked id (mem_of_getElem? hid)⟩

variable {obj : ReadM ℕ}

theorem makes_items (h:Makes len obj There) (k:ℕ) :
    Makes len (items obj k) fun n xs=>∀x∈xs,x<n:=by
  induction k generalizing len with
  | zero=>exact makes_pure fun n _ x hx=>absurd hx not_mem_nil
  | succ k ih=>
    apply h.bind
    intro n hn x hx
    apply (ih (h.from hn)).bind
    intro n' hn' xs hxs
    refine makes_pure fun n'' hn''=>forall_mem_cons.mpr ⟨?_,fun y hy=>?_⟩
    · exact Nat.lt_of_lt_of_le hx (Nat.le_trans hn' hn'')
    · exact Nat.lt_of_lt_of_le (hxs y hy) hn''

theorem makes_seqNode (h:Makes len obj There)
    (hk:k=.tuple ∨ k=.list ∨ k=.slice ∨ k=.set ∨ k=.frozenSet) (small ref:Bool) :
    Makes len (seqNode .source obj k small ref) There:=by
  apply makes_withNode
  have hcount : Still (itemCount .source small):= .ite (still_u8.bind fun _=>still_pure _) still_i32
  apply hcount.makes.bind
  intro n hn c _
  apply (still_countOk c 0).makes.bind
  intro n' hn' _ _
  apply (makes_items (h.from (Nat.le_trans hn hn')) c.toNat).bind
  intro n'' _ xs hxs
  refine makes_pure fun m hm=>filled_seq hk fun x hx=>Nat.lt_of_lt_of_le (hxs x hx) hm

theorem makes_dictItems (h:Makes len obj There) (k:ℕ) :
    Makes len (dictItems obj k) fun n kvs=>∀kv∈kvs,kv.1<n ∧ kv.2<n:=by
  induction k generalizing len with
  | zero=>exact makes_fail _
  | succ k ih=>
    apply h.bind
    intro n hn key hkey
    apply (still_kindOf key).makes.bind
    intro n₁ hn₁ kind _
    refine .ite (makes_pure fun m _ kv hkv=>absurd hkv not_mem_nil) ?_
    have hobj:=h.from (Nat.le_trans hn hn₁)
    apply hobj.bind
    intro n₂ hn₂ value hvalue
    apply (ih (hobj.from hn₂)).bind
    intro n₃ hn₃ rest hrest
    refine makes_pure fun m hm=>forall_mem_cons.mpr ⟨⟨?_,?_⟩,fun kv hkv=>?_⟩
    · change key < m
      change key < n at hkey
      omega
    · change value < m
      change value < n₂ at hvalue
      omega
    · obtain ⟨hfst,hsnd⟩:=hrest kv hkv
      exact ⟨Nat.lt_of_lt_of_le hfst hm,Nat.lt_of_lt_of_le hsnd hm⟩

theorem makes_dictNode (h:Makes len obj There) (ref:Bool) :
    Makes len (dictNode obj ref) There:=by
  apply makes_withNode
  apply (makes_dictItems h _).bind
  intro n _ kvs hkvs
  refine makes_pure fun m hm=>⟨_,_,rfl,fun id hid=>?_⟩
  obtain ⟨kv,hkv,hmem⟩:=mem_flatMap.mp hid
  obtain ⟨hfst,hsnd⟩:=hkvs kv hkv
  rcases mem_cons.mp hmem with hkey | hmem
  · rw [some.inj hkey]
    exact Nat.lt_of_lt_of_le hfst hm
  · rw [some.inj (mem_singleton.mp hmem)]
    exact Nat.lt_of_lt_of_le hsnd hm

theorem makes_sliceNode (h:Makes len obj There) (tagoff:ℕ) (ref:Bool) :
    Makes len (sliceNode obj tagoff ref) There:=by
  apply (still_minorIs _).makes.bind
  intro n hn old _
  refine .ite (makes_failAt _ _) ?_
  apply makes_withNode
  apply (makes_items (h.from hn) 3).bind
  intro n' _ xs hxs
  exact makes_pure fun m hm=>filled_seq (.inr (.inr (.inl rfl))) fun x hx=>
    Nat.lt_of_lt_of_le (hxs x hx) hm

/-- The objects that a code object refers to. -/
def CodeData.There (n : ℕ) (c : CodeData) : Prop :=
  ∀ x∈[c.code,c.consts,c.names,c.varnames,c.freevars,c.cellvars,c.localsplusnames,
    c.localspluskinds,c.name,c.qualname,c.exceptiontable], ∀ id, x = some id → id<n

theorem filled_code {c:CodeData} (h:c.There n) : Node.Filled n {k:=.code,code:=some c}:=by
  refine ⟨_,_,rfl,fun id hid=>?_⟩
  have hx : ∀x,some id=x → x∈[c.code,c.consts,c.names,c.varnames,c.freevars,c.cellvars,
      c.localsplusnames,c.localspluskinds,c.name,c.qualname,c.exceptiontable] → id<n:=
    fun x hx hmem=>h x hmem id hx.symm
  apply hx _ rfl
  unfold CodeData.fields at hid
  simp only [mem_append,mem_cons,not_mem_nil,or_false] at hid ⊢
  rcases hid with (((h | h) | h) | h) | h
  · tauto
  · split_ifs at h
    · simp only [mem_cons,not_mem_nil,or_false] at h
      tauto
    · simp only [mem_cons,not_mem_nil,or_false] at h
      tauto
  · tauto
  · split_ifs at h
    · simp only [mem_singleton] at h
      tauto
    · exact absurd h not_mem_nil
  · split_ifs at h
    · simp only [mem_singleton] at h
      tauto
    · exact absurd h not_mem_nil

theorem makes_oldCode (h:Makes len obj There) (argcount posonly kwonly:ℤ) :
    Makes len (oldCode obj { argcount, posonly, kwonly }) fun n c=>c.There n:=by
  refine still_ri.makes.bind fun n₁ h₁ nlocals _=>?_
  refine still_ri.makes.bind fun n₂ h₂ stacksize _=>?_
  refine still_ri.makes.bind fun n₃ h₃ flags _=>?_
  refine (h.from (by omega)).bind fun n₄ h₄ code hcode=>?_
  refine (h.from (by omega)).bind fun n₅ h₅ consts hconsts=>?_
  refine (h.from (by omega)).bind fun n₆ h₆ names hnames=>?_
  refine (h.from (by omega)).bind fun n₇ h₇ varnames hvarnames=>?_
  refine (h.from (by omega)).bind fun n₈ h₈ freevars hfreevars=>?_
  refine (h.from (by omega)).bind fun n₉ h₉ cellvars hcellvars=>?_
  refine (h.from (by omega)).bind fun n₁₀ h₁₀ filename _=>?_
  refine (h.from (by omega)).bind fun n₁₁ h₁₁ name hname=>?_
  refine still_ri.makes.bind fun n₁₂ h₁₂ firstlineno _=>?_
  refine (h.from (by omega)).bind fun n₁₃ h₁₃ linetable _=>?_
  refine makes_pure fun m hm=>?_
  unfold CodeData.There
  simp only [forall_mem_cons,some.injEq,forall_eq',reduceCtorEq,false_imp_iff,
    implies_true,not_mem_nil,and_true,true_and]
  omega

theorem makes_newCode (h:Makes len obj There) (argcount posonly kwonly:ℤ) :
    Makes len (newCode obj { argcount, posonly, kwonly }) fun n c=>c.There n:=by
  refine still_ri.makes.bind fun n₁ h₁ stacksize _=>?_
  refine still_ri.makes.bind fun n₂ h₂ flags _=>?_
  refine (h.from (by omega)).bind fun n₃ h₃ code hcode=>?_
  refine (h.from (by omega)).bind fun n₄ h₄ consts hconsts=>?_
  refine (h.from (by omega)).bind fun n₅ h₅ names hnames=>?_
  refine (h.from (by omega)).bind fun n₆ h₆ localsplusnames hnames'=>?_
  refine (h.from (by omega)).bind fun n₇ h₇ localspluskinds hkinds=>?_
  refine (h.from (by omega)).bind fun n₈ h₈ filename _=>?_
  refine (h.from (by omega)).bind fun n₉ h₉ name hname=>?_
  refine (h.from (by omega)).bind fun n₁₀ h₁₀ qualname hqualname=>?_
  refine still_ri.makes.bind fun n₁₁ h₁₁ firstlineno _=>?_
  refine (h.from (by omega)).bind fun n₁₂ h₁₂ linetable _=>?_
  refine (h.from (by omega)).bind fun n₁₃ h₁₃ exceptiontable htable=>?_
  refine makes_pure fun m hm=>?_
  unfold CodeData.There
  simp only [forall_mem_cons,some.injEq,forall_eq',reduceCtorEq,false_imp_iff,
    implies_true,not_mem_nil,and_true,true_and]
  omega

theorem makes_codeHead (h:Makes len obj There) :
    Makes len (codeHead obj) fun n c=>c.There n:=by
  have hcount : Still countCode:=by
    intro r u r' hrun
    rw [← ((Prod.mk.injEq _ _ _ _).mp hrun).2]
    exact ⟨rfl,rfl⟩
  refine hcount.makes.bind fun n₁ h₁ _ _=>?_
  refine still_ri.makes.bind fun n₂ h₂ argcount _=>?_
  refine still_ri.makes.bind fun n₃ h₃ posonly _=>?_
  refine still_ri.makes.bind fun n₄ h₄ kwonly _=>?_
  refine (still_minorIs _).makes.bind fun n₅ h₅ old _=>?_
  exact .ite (makes_oldCode (h.from (by omega)) _ _ _) (makes_newCode (h.from (by omega)) _ _ _)

theorem makes_parseCode (h:Makes len obj There) (ref:Bool) :
    Makes len (parseCode obj ref) There:=by
  apply makes_withNode
  apply (makes_codeHead h).bind
  intro n _ c hc r node r' hlen hlinked hrun
  obtain ⟨rfl,rfl⟩:=ran_finishCode.mp hrun
  refine ⟨steps_of_heap rfl rfl hlinked,filled_code fun x hx id hid=>?_⟩
  exact Nat.lt_of_lt_of_le (hc x hx id hid) hlen

theorem makes_typed (h:Makes len obj There) (tagoff:ℕ) (ref:Bool) (t:ℕ) :
    Makes len (typed .source obj tagoff ref t) There:=by
  unfold typed
  iterate 6 refine .ite (makes_scalar rfl ref) ?_
  refine .ite (makes_intNode ref) ?_
  refine .ite (makes_fixedNode rfl _ ref) ?_
  refine .ite (makes_longNode ref) ?_
  refine .ite (makes_floatNode ref) ?_
  refine .ite (makes_fixedNode rfl _ ref) ?_
  refine .ite (makes_complexNode ref) ?_
  refine .ite (makes_fixedNode rfl _ ref) ?_
  iterate 2 refine .ite (makes_stringNode rfl ref) ?_
  refine .ite (makes_shortNode ref) ?_
  refine .ite (makes_refNode tagoff ref) ?_
  iterate 5 refine .ite (makes_seqNode h (by decide) _ ref) ?_
  refine .ite (makes_dictNode h ref) ?_
  refine .ite (makes_sliceNode h tagoff ref) ?_
  refine .ite (makes_parseCode h ref) ?_
  exact makes_failAt _ _

end

theorem makes_obj (levels len:ℕ) : Makes len (obj .source levels) There:=by
  induction levels generalizing len with
  | zero=>exact makes_fail _
  | succ levels ih=>
    refine still_position.makes.bind fun n _ tagoff _=>?_
    have htag : Still tagByte:=(still_check 1).bind fun _=>still_u8
    exact htag.makes.bind fun n' _ tc _=>makes_typed (ih n') tagoff _ _

/-- Each object of a parsed stream has a shape, and its parts are objects of the stream. -/
theorem filled_parseRoot {d:Bytes} {minor:ℤ} {root:ℕ}
    (h:parseRoot .source d minor=(some root,r)) :
    root < r.heap.length ∧ ∀(id:ℕ) (n:Node),r.heap[id]? = some n → n.Filled r.heap.length:=by
  obtain ⟨hsteps,hroot⟩:=makes_obj maxLevels 0 (start d minor) root r (Nat.zero_le _)
    (fun id hid=>absurd hid not_mem_nil) h
  exact ⟨hroot,fun id n=>hsteps.filled id n (Nat.zero_le id)⟩

end AutoRefirst.PythonMarshal
