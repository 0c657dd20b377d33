import AutoRefirst.MarshalPrograms

/-!
# Sizes of parsed objects

The numbers of a parsed object fit the fields that the canonical form has for them, and a
code object has the fields of its version.
-/

namespace AutoRefirst.PythonMarshal
open List Option

/-- A number read from four bytes. -/
def Fits32 (v : ℤ) : Prop := -2^31≤v ∧ v<2^31

theorem fits32_zero : Fits32 0:=by
  unfold Fits32
  omega

structure CodeData.Sized (minor : ℤ) (c : CodeData) : Prop where
  numbers : ∀ v∈[c.argcount,c.posonly,c.kwonly,c.nlocals,c.stacksize,c.flags], Fits32 v
  old : minor≤10 → c.varnames.isSome ∧ c.qualname=none ∧ c.exceptiontable=none
  new : ¬minor≤10 → c.varnames=none ∧ c.qualname.isSome ∧ c.exceptiontable.isSome

structure Node.Sized (minor : ℤ) (n : Node) : Prop where
  iv : Fits32 n.iv
  blob : n.blob.length<2^64
  seq : n.seq.length<2^64
  dict : n.dict.length<2^64
  code : ∀ c, n.code = some c → c.Sized minor

structure Reader.Sized (minor : ℤ) (r : Reader) : Prop where
  version : r.minor=minor
  nodes : ∀ n∈r.heap, n.Sized minor

/-- A run from sized objects gives a result with `P`, and sized objects again. -/
def Produces {α : Type} (minor : ℤ) (m : ReadM α) (P : α→Prop) : Prop :=
  ∀ r a r', Ran m r a r' → r.Sized minor → P a ∧ r'.Sized minor

section
variable {α β : Type} {minor : ℤ} {P Q : α→Prop}

theorem produces_pure {a:α} (h:P a) : Produces minor (pure a) P:=by
  intro r b r' hrun hr
  obtain ⟨rfl,rfl⟩:=ran_pure.mp hrun
  exact ⟨h,hr⟩

variable {m : ReadM α}

theorem Produces.bind {k:α→ReadM β} {R:β→Prop} (h:Produces minor m P)
    (hk:∀a,P a → Produces minor (k a) R) : Produces minor (m >>= k) R:=by
  intro r b r' hrun hr
  obtain ⟨a,r₁,hm,hrest⟩:=ran_bind.mp hrun
  obtain ⟨ha,hr₁⟩:=h r a r₁ hm hr
  exact hk a ha r₁ b r' hrest hr₁

theorem Produces.weaken (h:Produces minor m P) : Produces minor m fun _=>True:=
  fun r a r' hrun hr=>⟨trivial,(h r a r' hrun hr).2⟩

theorem Produces.ite {c:Prop} [Decidable c] {m':ReadM α} (h:c→Produces minor m P)
    (h':¬c → Produces minor m' P) : Produces minor (if c then m else m') P:=by
  split_ifs with hc
  · exact h hc
  · exact h' hc

variable {n : ℕ}

theorem produces_failAt {s:String} : Produces minor (failAt s n) P:=
  fun _ _ _ hrun _=>absurd hrun not_ran_failAt

theorem produces_fail {s:String} : Produces minor (fail s) P:=
  fun _ _ _ hrun _=>absurd hrun not_ran_fail

theorem produces_of_heap (h:∀r a r',Ran m r a r' → P a ∧ r'.minor=r.minor ∧ r'.heap=r.heap) :
    Produces minor m P:=by
  intro r a r' hrun hr
  obtain ⟨ha,hminor,hheap⟩:=h r a r' hrun
  refine ⟨ha,hminor.trans hr.version,?_⟩
  rw [hheap]
  exact hr.nodes

theorem produces_readBytes (n:ℕ) : Produces minor (readBytes n) fun b=>b.length≤n:=by
  apply produces_of_heap
  intro r b r' hrun
  unfold Ran readBytes at hrun
  dsimp only at hrun
  split_ifs at hrun
  · obtain ⟨hb,rfl⟩:=(Prod.mk.injEq _ _ _ _).mp hrun
    rw [← some.inj hb,length_take]
    exact ⟨Nat.min_le_left _ _,rfl,rfl⟩
  · obtain ⟨hb,rfl⟩:=(Prod.mk.injEq _ _ _ _).mp hrun
    obtain ⟨e,o,hshort⟩:=short_eq r n
    rw [← some.inj hb]
    refine ⟨Nat.zero_le _,?_⟩
    show (r.short n).minor = r.minor ∧ (r.short n).heap=r.heap
    rw [hshort]
    exact ⟨rfl,rfl⟩

theorem littleEndian_lt (b:Bytes) : littleEndian b<256^b.length:=by
  induction b with
  | nil=>exact Nat.one_pos
  | cons x xs ih=>
    have hx:=x.toNat_lt
    rw [littleEndian,length_cons,Nat.pow_succ]
    omega

theorem produces_u8 : Produces minor u8 fun a=>a<256:=by
  apply (produces_readBytes 1).bind
  intro b hb
  refine produces_pure (Nat.lt_of_lt_of_le (littleEndian_lt b) ?_)
  exact Nat.pow_le_pow_right (by decide) hb

theorem fits32_toInt32 (h:n<2^32) : Fits32 (toInt32 n):=by
  unfold Fits32 toInt32
  split_ifs <;> omega

theorem produces_i32 : Produces minor i32 Fits32:=by
  apply (produces_readBytes 4).bind
  intro b hb
  refine produces_pure (fits32_toInt32 (Nat.lt_of_lt_of_le (littleEndian_lt b) ?_))
  exact Nat.pow_le_pow_right (by decide) hb

theorem produces_check (n:ℕ) : Produces minor (check n) fun _=>True:=by
  apply produces_of_heap
  intro r u r' hrun
  obtain ⟨rfl,-⟩:=(Guard.check n).ran hrun
  exact ⟨trivial,rfl,rfl⟩

theorem produces_room (n:ℕ) (s:String) : Produces minor (room n s) fun _=>True:=by
  apply produces_of_heap
  intro r u r' hrun
  obtain ⟨rfl,-⟩:=(Guard.room n s).ran hrun
  exact ⟨trivial,rfl,rfl⟩

theorem produces_position : Produces minor position fun _=>True:=by
  apply produces_of_heap
  intro r n r' hrun
  obtain ⟨-,rfl⟩:=ran_position.mp hrun
  exact ⟨trivial,rfl,rfl⟩

theorem produces_kindOf (id:ℕ) : Produces minor (kindOf id) fun _=>True:=by
  apply produces_of_heap
  intro r k r' hrun
  obtain ⟨-,rfl⟩:=ran_kindOf.mp hrun
  exact ⟨trivial,rfl,rfl⟩

theorem produces_minorIs (p:ℤ→Bool) : Produces minor (minorIs p) fun b=>b = p minor:=by
  intro r b r' hrun hr
  obtain ⟨hb,rfl⟩:=ran_minorIs.mp hrun
  rw [hr.version] at hb
  exact ⟨hb,hr⟩

theorem produces_countOk (n:ℤ) (k:ℕ) :
    Produces minor (countOk n k) fun _=>0≤n ∧ n≤10000000:=by
  refine Produces.ite (fun _=>produces_fail) fun hok=>Produces.ite (fun _=>?_) fun _=>?_
  · intro r u r' hrun hr
    exact ⟨by omega,(produces_room _ _ r u r' hrun hr).2⟩
  · exact produces_pure (by omega)

theorem produces_take (n:ℕ) : Produces minor (take n) fun b=>b.length≤n:=
  (produces_check n).bind fun _ _=>produces_readBytes n

theorem produces_ri : Produces minor ri Fits32:=(produces_check 4).bind fun _ _=>produces_i32

theorem sized_empty (k:K) : Node.Sized minor { k }:=
  ⟨fits32_zero,Nat.two_pow_pos 64,Nat.two_pow_pos 64,Nat.two_pow_pos 64,
    fun _ hc=>absurd hc (by simp)⟩

theorem Node.Sized.withKind {n:Node} (h:n.Sized minor) (k:K) : Node.Sized minor {n with k:=k}:=
  ⟨h.iv,h.blob,h.seq,h.dict,h.code⟩

theorem produces_withNode (k:K) (ref:Bool) {body:ReadM Node}
    (h:Produces minor body (Node.Sized minor)) :
    Produces minor (withNode k ref body) fun _=>True:=by
  intro r id r' hrun hr
  obtain ⟨n,r₁,hbody,-,rfl⟩:=ran_withNode.mp hrun
  have hreserved : (r.reserved k ref).Sized minor:=by
    refine ⟨hr.version,fun m hm=>?_⟩
    rcases mem_append.mp hm with hold | hnew
    · exact hr.nodes m hold
    · rw [mem_singleton.mp hnew]
      exact sized_empty k
  obtain ⟨hn,hr₁⟩:=h _ n r₁ hbody hreserved
  refine ⟨trivial,hr₁.version,fun m hm=>?_⟩
  rcases mem_or_eq_of_mem_set hm with hold | rfl
  · exact hr₁.nodes m hold
  · exact hn.withKind k

variable {k : K}

theorem sized_number {v:ℤ} (hv:Fits32 v) {b:Bytes} (hb:b.length<2^64) :
    Node.Sized minor {k,iv:=v,blob:=b}:=
  ⟨hv,hb,Nat.two_pow_pos 64,Nat.two_pow_pos 64,fun _ hc=>absurd hc (by simp)⟩

theorem sized_blob {b:Bytes} {off:ℕ} {texts:List Bytes} (hb:b.length<2^64) :
    Node.Sized minor {k,blob:=b,blobOffset:=off,texts}:=
  ⟨fits32_zero,hb,Nat.two_pow_pos 64,Nat.two_pow_pos 64,fun _ hc=>absurd hc (by simp)⟩

theorem sized_seq {xs:List ℕ} (h:xs.length<2^64) : Node.Sized minor {k,seq:=xs}:=
  ⟨fits32_zero,Nat.two_pow_pos 64,h,Nat.two_pow_pos 64,fun _ hc=>absurd hc (by simp)⟩

theorem sized_dict {kvs:List (ℕ×ℕ)} (h:kvs.length<2^64) : Node.Sized minor {k,dict:=kvs}:=
  ⟨fits32_zero,Nat.two_pow_pos 64,Nat.two_pow_pos 64,h,fun _ hc=>absurd hc (by simp)⟩

theorem sized_code {c:CodeData} (h:c.Sized minor) :
    Node.Sized minor {k:=.code,code:=some c}:=by
  refine ⟨fits32_zero,Nat.two_pow_pos 64,Nat.two_pow_pos 64,Nat.two_pow_pos 64,fun c' hc=>?_⟩
  rw [← some.inj hc]
  exact h

theorem produces_scalar (k:K) (ref:Bool) : Produces minor (scalar k ref) fun _=>True:=
  produces_withNode k ref (produces_pure (sized_empty k))

variable (ref : Bool)

theorem produces_intNode : Produces minor (intNode ref) fun _=>True:=
  produces_withNode .int ref (produces_ri.bind fun _ hv=>produces_pure (sized_number hv (by decide)))

theorem produces_fixedNode (k:K) (hn:n<2^64) (ref:Bool) :
    Produces minor (fixedNode k n ref) fun _=>True:=
  produces_withNode k ref ((produces_take n).bind fun _ hb=>
    produces_pure (sized_blob (Nat.lt_of_le_of_lt hb hn)))

theorem produces_longNode : Produces minor (longNode ref) fun _=>True:=by
  apply produces_withNode
  apply produces_ri.bind
  intro sz hsz
  refine Produces.ite (fun _=>produces_fail) fun hcnt=>?_
  apply (produces_room _ _).bind
  intro _ _
  apply (produces_readBytes _).bind
  intro b hb
  exact produces_pure (sized_number hsz (by omega))

theorem produces_floatNode : Produces minor (floatNode .source ref) fun _=>True:=by
  apply produces_withNode
  apply produces_u8.bind
  intro len hlen
  apply (produces_take len).bind
  intro b hb
  exact produces_pure (sized_blob (by omega))

theorem produces_complexNode : Produces minor (complexNode .source ref) fun _=>True:=by
  apply produces_withNode
  apply produces_u8.bind
  intro a ha
  apply (produces_take a).bind
  intro x hx
  apply produces_u8.bind
  intro b hb
  apply (produces_take b).bind
  intro y hy
  refine produces_pure (sized_blob ?_)
  rw [length_append,length_cons]
  omega

theorem produces_stringNode (k:K) (ref:Bool) :
    Produces minor (stringNode .source k ref) fun _=>True:=by
  apply produces_withNode
  apply produces_i32.bind
  intro len _
  apply (produces_countOk len 1).bind
  intro _ hlen
  apply produces_position.bind
  intro off _
  apply (produces_readBytes _).bind
  intro b hb
  exact produces_pure (sized_blob (by omega))

theorem produces_shortNode : Produces minor (shortNode .source ref) fun _=>True:=by
  apply produces_withNode
  apply produces_u8.bind
  intro len hlen
  apply (produces_check len).bind
  intro _ _
  apply produces_position.bind
  intro off _
  apply (produces_readBytes _).bind
  intro b hb
  exact produces_pure (sized_blob (by omega))

theorem produces_refNode (tagoff:ℕ) (ref:Bool) :
    Produces minor (refNode .source tagoff ref) fun _=>True:=by
  refine Produces.ite (fun _=>produces_failAt) fun _=>?_
  apply produces_i32.bind
  intro idx _
  apply produces_of_heap
  intro r id r' hrun
  obtain ⟨-,-,rfl⟩:=ran_refAt.mp hrun
  exact ⟨trivial,rfl,rfl⟩

variable {obj : ReadM ℕ}

theorem produces_items (h:Produces minor obj fun _=>True) (n:ℕ) :
    Produces minor (items obj n) fun xs=>xs.length=n:=by
  induction n with
  | zero=>exact produces_pure rfl
  | succ n ih=>
    apply h.bind
    intro x _
    apply ih.bind
    intro xs hxs
    exact produces_pure (congrArg Nat.succ hxs)

theorem produces_seqNode (h:Produces minor obj fun _=>True) (k:K) (small ref:Bool) :
    Produces minor (seqNode .source obj k small ref) fun _=>True:=by
  apply produces_withNode
  have hcount : Produces minor (itemCount .source small) fun _=>True:=
    Produces.ite (fun _=>produces_u8.bind fun _ _=>produces_pure trivial) fun _=>
      produces_i32.weaken
  apply hcount.bind
  intro len _
  apply (produces_countOk len 0).bind
  intro _ hlen
  apply (produces_items h len.toNat).bind
  intro xs hxs
  exact produces_pure (sized_seq (by omega))

theorem produces_dictItems (h:Produces minor obj fun _=>True) (n:ℕ) :
    Produces minor (dictItems obj n) fun kvs=>kvs.length≤n:=by
  induction n with
  | zero=>exact produces_fail
  | succ n ih=>
    apply h.bind
    intro key _
    apply (produces_kindOf key).bind
    intro kind _
    refine Produces.ite (fun _=>produces_pure (Nat.zero_le _)) fun _=>?_
    apply h.bind
    intro value _
    apply ih.bind
    intro rest hrest
    exact produces_pure (Nat.succ_le_succ hrest)

theorem produces_dictNode (h:Produces minor obj fun _=>True) (ref:Bool) :
    Produces minor (dictNode obj ref) fun _=>True:=by
  apply produces_withNode
  apply (produces_dictItems h _).bind
  intro kvs hkvs
  exact produces_pure (sized_dict (Nat.lt_of_le_of_lt hkvs (by decide)))

theorem produces_sliceNode (h:Produces minor obj fun _=>True) (tagoff:ℕ) (ref:Bool) :
    Produces minor (sliceNode obj tagoff ref) fun _=>True:=by
  apply (produces_minorIs _).bind
  intro old _
  refine Produces.ite (fun _=>produces_failAt) fun _=>?_
  apply produces_withNode
  apply (produces_items h 3).bind
  intro xs hxs
  exact produces_pure (sized_seq (by omega))

theorem produces_oldCode (h:Produces minor obj fun _=>True) (hminor:minor≤10)
    {argcount posonly kwonly:ℤ} (hnumbers:Fits32 argcount ∧ Fits32 posonly ∧ Fits32 kwonly) :
    Produces minor (oldCode obj { argcount, posonly, kwonly }) (CodeData.Sized minor):=by
  apply produces_ri.bind
  intro nlocals hnlocals
  apply produces_ri.bind
  intro stacksize hstacksize
  apply produces_ri.bind
  intro flags hflags
  iterate 8
    apply h.bind
    intro _ _
  apply produces_ri.bind
  intro firstlineno _
  apply h.bind
  intro linetable _
  refine produces_pure ⟨?_,fun _=>⟨rfl,rfl,rfl⟩,fun hnew=>absurd hminor hnew⟩
  simp only [forall_mem_cons,not_mem_nil,false_imp_iff,forall_const]
  exact ⟨hnumbers.1,hnumbers.2.1,hnumbers.2.2,hnlocals,hstacksize,hflags,trivial⟩

theorem produces_newCode (h:Produces minor obj fun _=>True) (hminor:¬minor≤10)
    {argcount posonly kwonly:ℤ} (hnumbers:Fits32 argcount ∧ Fits32 posonly ∧ Fits32 kwonly) :
    Produces minor (newCode obj { argcount, posonly, kwonly }) (CodeData.Sized minor):=by
  apply produces_ri.bind
  intro stacksize hstacksize
  apply produces_ri.bind
  intro flags hflags
  iterate 8
    apply h.bind
    intro _ _
  apply produces_ri.bind
  intro firstlineno _
  apply h.bind
  intro linetable _
  apply h.bind
  intro exceptiontable _
  refine produces_pure ⟨?_,fun hold=>absurd hold hminor,fun _=>⟨rfl,rfl,rfl⟩⟩
  simp only [forall_mem_cons,not_mem_nil,false_imp_iff,forall_const]
  exact ⟨hnumbers.1,hnumbers.2.1,hnumbers.2.2,fits32_zero,hstacksize,hflags,trivial⟩

theorem produces_codeHead (h:Produces minor obj fun _=>True) :
    Produces minor (codeHead obj) (CodeData.Sized minor):=by
  have hcount : Produces minor countCode fun _=>True:=by
    apply produces_of_heap
    intro r u r' hrun
    rw [← ((Prod.mk.injEq _ _ _ _).mp hrun).2]
    exact ⟨trivial,rfl,rfl⟩
  apply hcount.bind
  intro _ _
  apply produces_ri.bind
  intro argcount hargcount
  apply produces_ri.bind
  intro posonly hposonly
  apply produces_ri.bind
  intro kwonly hkwonly
  apply (produces_minorIs _).bind
  intro old hold
  have hnumbers:=And.intro hargcount (And.intro hposonly hkwonly)
  refine Produces.ite (fun hc=>?_) fun hc=>?_
  · rw [hold,decide_eq_true_iff] at hc
    exact produces_oldCode h hc hnumbers
  · rw [hold,decide_eq_true_iff] at hc
    exact produces_newCode h hc hnumbers

theorem produces_parseCode (h:Produces minor obj fun _=>True) (ref:Bool) :
    Produces minor (parseCode obj ref) fun _=>True:=by
  apply produces_withNode
  apply (produces_codeHead h).bind
  intro c hc
  apply produces_of_heap
  intro r n r' hrun
  obtain ⟨rfl,rfl⟩:=ran_finishCode.mp hrun
  exact ⟨sized_code hc,rfl,rfl⟩

theorem produces_typed (h:Produces minor obj fun _=>True) (tagoff:ℕ) (ref:Bool) (t:ℕ) :
    Produces minor (typed .source obj tagoff ref t) fun _=>True:=by
  unfold typed
  iterate 6 refine Produces.ite (fun _=>produces_scalar _ ref) fun _=>?_
  refine Produces.ite (fun _=>produces_intNode ref) fun _=>?_
  refine Produces.ite (fun _=>produces_fixedNode _ (by decide) ref) fun _=>?_
  refine Produces.ite (fun _=>produces_longNode ref) fun _=>?_
  refine Produces.ite (fun _=>produces_floatNode ref) fun _=>?_
  refine Produces.ite (fun _=>produces_fixedNode _ (by decide) ref) fun _=>?_
  refine Produces.ite (fun _=>produces_complexNode ref) fun _=>?_
  refine Produces.ite (fun _=>produces_fixedNode _ (by decide) ref) fun _=>?_
  iterate 2 refine Produces.ite (fun _=>produces_stringNode _ ref) fun _=>?_
  refine Produces.ite (fun _=>produces_shortNode ref) fun _=>?_
  refine Produces.ite (fun _=>produces_refNode tagoff ref) fun _=>?_
  iterate 5 refine Produces.ite (fun _=>produces_seqNode h _ _ ref) fun _=>?_
  refine Produces.ite (fun _=>produces_dictNode h ref) fun _=>?_
  refine Produces.ite (fun _=>produces_sliceNode h tagoff ref) fun _=>?_
  refine Produces.ite (fun _=>produces_parseCode h ref) fun _=>?_
  exact produces_failAt

end

theorem produces_obj (minor:ℤ) (levels:ℕ) :
    Produces minor (obj .source levels) fun _=>True:=by
  induction levels with
  | zero=>exact produces_fail
  | succ levels ih=>
    apply produces_position.bind
    intro tagoff _
    have htag : Produces minor tagByte fun _=>True:=
      (produces_check 1).bind fun _ _=>produces_u8.weaken
    apply htag.bind
    intro tc _
    exact produces_typed ih tagoff _ _

theorem sized_parseRoot {d:Bytes} {minor:ℤ} {root:ℕ} {r:Reader}
    (h:parseRoot .source d minor=(some root,r)) : ∀n∈r.heap,n.Sized minor:=by
  have hstart : (start d minor).Sized minor:=⟨rfl,fun n hn=>absurd hn (by simp [start])⟩
  exact (produces_obj minor maxLevels (start d minor) root r h hstart).2.nodes

end AutoRefirst.PythonMarshal
