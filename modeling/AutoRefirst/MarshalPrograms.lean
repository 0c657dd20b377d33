import AutoRefirst.MarshalRuns

/-!
# The readers of the format are programs

Each reader of an object is a program that gives an object of the heap.
-/

namespace AutoRefirst.PythonMarshal

theorem Program.ite {α:Type} {c:Prop} [Decidable c] {m₁ m₁' m₂ m₂':ReadM α}
    (h₁:Program m₁ m₁') (h₂:Program m₂ m₂') :
    Program (if c then m₁ else m₂) (if c then m₁' else m₂'):=by
  split_ifs
  · exact h₁
  · exact h₂

theorem fail_bind {α β:Type} (s:String) (k:α→ReadM β) : (fail s >>= k)=fail s:=rfl

theorem bind_pure_eq {α:Type} (m:ReadM α) : m >>= pure = m:=by
  funext r
  rw [bind_run]
  rcases m r with ⟨_ | a,r⟩ <;> rfl

theorem program_take (n:ℕ) : Program (take n) (take n):=by
  have htake : take n = check n >>= fun _=>readBytes n >>= pure:=by
    rw [bind_pure_eq]
    rfl
  rw [htake]
  exact .read (.check n) .pure

theorem program_ri : Program ri ri := .read (.check 4) fun _ => .pure _

theorem program_tagByte : Program tagByte tagByte := .read (.check 1) fun _ => .pure _

theorem program_countOk (n:ℤ) : Program (countOk n 0) (countOk n 0) := .ite (.fail _) (.pure ())

/-- A counted string: its length is tested before its bytes are read. -/
theorem program_stringBody (k:K) : Program (stringBody .source k) (stringBody .checked k):=by
  apply Program.bind .field32
  intro len
  by_cases hbad : len<0 ∨ len>10000000
  · have hcount : countOk len 1 = fail "marshal container length unreasonable" := if_pos hbad
    rw [hcount,fail_bind]
    exact .fail _
  · have hcount : countOk len 1 = room len.toNat "marshal container exceeds input" := by
      rw [countOk,if_neg hbad,if_pos Nat.one_ne_zero,Nat.mul_one]
    rw [hcount]
    exact .readAt (.room _ _) fun _ _ => .pure _

/-- The object that the step gives is in the heap. -/
def ReturnsId (m : ReadM ℕ) : Prop := ∀ r id r', r.Linked → Ran m r id r' → id < r'.heap.length

structure IsObject (m m' : ReadM ℕ) : Prop where
  program : Program m m'
  returns : ReturnsId m

theorem reserved_length (r:Reader) (k:K) (ref:Bool) :
    (r.reserved k ref).heap.length = r.heap.length+1:=by
  simp [Reader.reserved]

variable {k : K}

theorem returnsId_withNode {ref:Bool} {body body':ReadM Node} (h:Program body body') :
    ReturnsId (withNode k ref body):=by
  intro r id r' hr hrun
  obtain ⟨n,r₁,hbody,rfl,rfl⟩:=ran_withNode.mp hrun
  have hlen:=(h.grown (linked_reserved hr).1 hbody).heap.length_le
  have hreserved:=reserved_length r k ref
  rw [Reader.filled,List.length_set]
  omega

theorem IsObject.withNode (hk:k≠.bytes ∧ k≠.code) (ref:Bool) {body body':ReadM Node}
    (h:Program body body') :
    IsObject (PythonMarshal.withNode k ref body) (PythonMarshal.withNode k ref body'):=
  ⟨.withNode ref hk.2 (fun hb=>absurd hb hk.1) h,returnsId_withNode h⟩

theorem IsObject.fail (s:String) : IsObject (PythonMarshal.fail s) (PythonMarshal.fail s):=
  ⟨.fail s,fun _ _ _ _ hrun=>absurd hrun not_ran_fail⟩

theorem IsObject.failAt (s:String) (at_:ℕ) :
    IsObject (PythonMarshal.failAt s at_) (PythonMarshal.failAt s at_):=
  ⟨.failAt s at_,fun _ _ _ _ hrun=>absurd hrun not_ran_failAt⟩

theorem IsObject.ite {c:Prop} [Decidable c] {m₁ m₁' m₂ m₂':ReadM ℕ}
    (h₁:IsObject m₁ m₁') (h₂:IsObject m₂ m₂') :
    IsObject (if c then m₁ else m₂) (if c then m₁' else m₂'):=by
  split_ifs
  · exact h₁
  · exact h₂

theorem IsObject.bind {α:Type} {m m':ReadM α} {k k':α→ReadM ℕ} (h:Program m m')
    (hk:∀a,IsObject (k a) (k' a)) : IsObject (m >>= k) (m' >>= k'):=by
  refine ⟨.bind h fun a=>(hk a).program,fun r id r' hr hrun=>?_⟩
  obtain ⟨a,r₁,hm,hrest⟩:=ran_bind.mp hrun
  exact (hk a).returns r₁ id r' (h.linked hr hm) hrest

theorem isObject_scalar (hk:k≠.bytes ∧ k≠.code) (ref:Bool) :
    IsObject (scalar k ref) (scalar k ref) := .withNode hk ref (.pure _)

variable (ref : Bool)

theorem isObject_intNode : IsObject (intNode ref) (intNode ref):=
  .withNode (by decide) ref (.bind program_ri fun _ => .pure _)

theorem isObject_fixedNode (hk:k≠.bytes ∧ k≠.code) (n:ℕ) (ref:Bool) :
    IsObject (fixedNode k n ref) (fixedNode k n ref):=
  .withNode hk ref (.bind (program_take n) fun _ => .pure _)

theorem isObject_longNode : IsObject (longNode ref) (longNode ref):=by
  apply IsObject.withNode (by decide) ref
  apply Program.bind program_ri
  intro sz
  apply Program.ite (.fail _)
  exact .read (.room _ _) fun _ => .pure _

theorem isObject_floatNode : IsObject (floatNode .source ref) (floatNode .checked ref):=
  .withNode (by decide) ref (.bind .field8 fun len => .bind (program_take len) fun _ => .pure _)

theorem isObject_complexNode : IsObject (complexNode .source ref) (complexNode .checked ref):=by
  apply IsObject.withNode (by decide) ref
  exact .bind .field8 fun a => .bind (program_take a) fun x=>
    .bind .field8 fun b => .bind (program_take b) fun y => .pure _

theorem isObject_stringNode (hk:k≠.code) (ref:Bool) :
    IsObject (stringNode .source k ref) (stringNode .checked k ref):=
  ⟨.withNode ref hk (fun hb=>by rw [hb]) (program_stringBody k),
    returnsId_withNode (program_stringBody k)⟩

theorem isObject_shortNode : IsObject (shortNode .source ref) (shortNode .checked ref):=
  .withNode (by decide) ref (.bind .field8 fun len => .readAt (.check len) fun _ _ => .pure _)

theorem isObject_refNode (tagoff:ℕ) (ref:Bool) :
    IsObject (refNode .source tagoff ref) (refNode .checked tagoff ref):=by
  apply IsObject.ite (.failAt _ _)
  apply IsObject.bind .field32
  intro idx
  refine ⟨.refAt idx tagoff,fun r id r' hr hrun=>?_⟩
  obtain ⟨-,hget,rfl⟩:=ran_refAt.mp hrun
  exact hr.2 id (List.mem_of_getElem? hget)

section
variable {obj obj' : ReadM ℕ}

theorem program_items (h:Program obj obj') (n:ℕ) : Program (items obj n) (items obj' n):=by
  induction n with
  | zero=>exact .pure _
  | succ n ih=>exact .bind h fun x => .bind ih fun xs => .pure _

theorem isObject_seqNode (h:Program obj obj') {k:K} (hk:k≠.bytes ∧ k≠.code)
    (small ref:Bool) :
    IsObject (seqNode .source obj k small ref) (seqNode .checked obj' k small ref):=by
  apply IsObject.withNode hk ref
  apply Program.bind (.ite (.bind .field8 fun n => .pure _) .field32)
  intro len
  exact .bind (program_countOk len) fun _ => .bind (program_items h len.toNat) fun xs => .pure _

theorem program_dictItems (h:Program obj obj') (n:ℕ) :
    Program (dictItems obj n) (dictItems obj' n):=by
  induction n with
  | zero=>exact .fail _
  | succ n ih=>
    apply Program.bind h
    intro key
    apply Program.bind (.kindOf key)
    intro kind
    exact .ite (.pure _) (.bind h fun value => .bind ih fun rest => .pure _)

theorem isObject_dictNode (h:Program obj obj') (ref:Bool) :
    IsObject (dictNode obj ref) (dictNode obj' ref):=
  .withNode (by decide) ref (.bind (program_dictItems h _) fun _ => .pure _)

theorem isObject_sliceNode (h:Program obj obj') (tagoff:ℕ) (ref:Bool) :
    IsObject (sliceNode obj tagoff ref) (sliceNode obj' tagoff ref):=by
  apply IsObject.bind (.minorIs _)
  intro old
  apply IsObject.ite (.failAt _ _)
  exact .withNode (by decide) ref (.bind (program_items h 3) fun _ => .pure _)

theorem program_oldCode (h:Program obj obj') (c:CodeData) :
    Program (oldCode obj c) (oldCode obj' c):=
  .bind program_ri fun _ => .bind program_ri fun _ => .bind program_ri fun _=>
    .bind h fun _ => .bind h fun _ => .bind h fun _ => .bind h fun _ => .bind h fun _=>
      .bind h fun _ => .bind h fun _ => .bind h fun _ => .bind program_ri fun _=>
        .bind h fun _ => .pure _

theorem program_newCode (h:Program obj obj') (c:CodeData) :
    Program (newCode obj c) (newCode obj' c):=
  .bind program_ri fun _ => .bind program_ri fun _=>
    .bind h fun _ => .bind h fun _ => .bind h fun _ => .bind h fun _ => .bind h fun _=>
      .bind h fun _ => .bind h fun _ => .bind h fun _ => .bind program_ri fun _=>
        .bind h fun _ => .bind h fun _ => .pure _

theorem program_codeHead (h:Program obj obj') : Program (codeHead obj) (codeHead obj'):=
  .bind .countCode fun _ => .bind program_ri fun _ => .bind program_ri fun _=>
    .bind program_ri fun _ => .bind (.minorIs _) fun _=>
      .ite (program_oldCode h _) (program_newCode h _)

variable {r r' : Reader}

theorem IsObject.then {β:Type} {k k':ℕ→ReadM β} {b:β} (h:IsObject obj obj')
    (hk:∀id,Program (k id) (k' id)) (hr:r.Linked) (hrun:Ran (obj >>= k) r b r') :
    ∃id r₁,id < r'.heap.length ∧ Ran (k id) r₁ b r':=by
  obtain ⟨id,r₁,hobj,hrest⟩:=ran_bind.mp hrun
  have hr₁:=h.program.linked hr hobj
  have hlt:=h.returns r id r₁ hr hobj
  have hlen:=((hk id).grown hr₁.1 hrest).heap.length_le
  exact ⟨id,r₁,by omega,hrest⟩

theorem skip_ri {β:Type} {k:ℤ→ReadM β} {b:β} (hr:r.Linked)
    (hrun:Ran (ri >>= k) r b r') : ∃v r₁,r₁.Linked ∧ Ran (k v) r₁ b r':=by
  obtain ⟨v,r₁,hri,hrest⟩:=ran_bind.mp hrun
  exact ⟨v,r₁,program_ri.linked hr hri,hrest⟩

variable {c : CodeData}

theorem oldCode_code (h:IsObject obj obj') {c₀:CodeData} (hr:r.Linked)
    (hrun:Ran (oldCode obj c₀) r c r') :
    ∃id,c.code=some id ∧ id < r'.heap.length:=by
  have hobj:=h.program
  unfold oldCode at hrun
  obtain ⟨nlocals,r₁,hr₁,h₁⟩:=skip_ri hr hrun
  obtain ⟨stacksize,r₂,hr₂,h₂⟩:=skip_ri hr₁ h₁
  obtain ⟨flags,r₃,hr₃,h₃⟩:=skip_ri hr₂ h₂
  obtain ⟨code,r₄,hlt,h₄⟩:=h.then
    (fun _ => .bind hobj fun _ => .bind hobj fun _ => .bind hobj fun _ => .bind hobj fun _=>
      .bind hobj fun _ => .bind hobj fun _ => .bind hobj fun _ => .bind program_ri fun _=>
        .bind hobj fun _ => .pure _) hr₃ h₃
  refine ⟨code,?_,hlt⟩
  simp only [ran_bind,ran_pure] at h₄
  obtain ⟨_,_,-,_,_,-,_,_,-,_,_,-,_,_,-,_,_,-,_,_,-,_,_,-,_,_,-,rfl,-⟩:=h₄
  rfl

theorem newCode_code (h:IsObject obj obj') {c₀:CodeData} (hr:r.Linked)
    (hrun:Ran (newCode obj c₀) r c r') :
    ∃id,c.code=some id ∧ id < r'.heap.length:=by
  have hobj:=h.program
  unfold newCode at hrun
  obtain ⟨stacksize,r₁,hr₁,h₁⟩:=skip_ri hr hrun
  obtain ⟨flags,r₂,hr₂,h₂⟩:=skip_ri hr₁ h₁
  obtain ⟨code,r₃,hlt,h₃⟩:=h.then
    (fun _ => .bind hobj fun _ => .bind hobj fun _ => .bind hobj fun _ => .bind hobj fun _=>
      .bind hobj fun _ => .bind hobj fun _ => .bind hobj fun _ => .bind program_ri fun _=>
        .bind hobj fun _ => .bind hobj fun _ => .pure _) hr₂ h₂
  refine ⟨code,?_,hlt⟩
  simp only [ran_bind,ran_pure] at h₃
  obtain ⟨_,_,-,_,_,-,_,_,-,_,_,-,_,_,-,_,_,-,_,_,-,_,_,-,_,_,-,_,_,-,
    rfl,-⟩:=h₃
  rfl

theorem codeHead_code (h:IsObject obj obj') (hr:r.Linked) (hrun:Ran (codeHead obj) r c r') :
    ∃id,c.code=some id ∧ id < r'.heap.length:=by
  unfold codeHead at hrun
  obtain ⟨u,r₀,hcount,h₀⟩:=ran_bind.mp hrun
  have hr₀:=Program.countCode.linked hr hcount
  obtain ⟨argcount,r₁,hr₁,h₁⟩:=skip_ri hr₀ h₀
  obtain ⟨posonly,r₂,hr₂,h₂⟩:=skip_ri hr₁ h₁
  obtain ⟨kwonly,r₃,hr₃,h₃⟩:=skip_ri hr₂ h₂
  obtain ⟨old,r₄,hminor,h₄⟩:=ran_bind.mp h₃
  have hr₄:=(Program.minorIs _).linked hr₃ hminor
  unfold codeFields at h₄
  split_ifs at h₄
  · exact oldCode_code h hr₄ h₄
  · exact newCode_code h hr₄ h₄

theorem isObject_parseCode (h:IsObject obj obj') (ref:Bool) :
    IsObject (parseCode obj ref) (parseCode obj' ref):=by
  have hhead:=program_codeHead h.program
  refine ⟨.code ref (fun _ _ _ hr hrun=>codeHead_code h hr hrun) hhead,?_⟩
  intro r id r' hr hrun
  obtain ⟨n,r₁,hbody,rfl,rfl⟩:=ran_withNode.mp hrun
  obtain ⟨c,r₂,hrunhead,hfinish⟩:=ran_bind.mp hbody
  obtain ⟨-,rfl⟩:=ran_finishCode.mp hfinish
  have hlen:=(hhead.grown (linked_reserved hr).1 hrunhead).heap.length_le
  have hreserved:=reserved_length r .code ref
  rw [Reader.filled,List.length_set]
  show r.heap.length < r₂.heap.length
  omega

theorem isObject_typed (h:IsObject obj obj') (tagoff:ℕ) (ref:Bool) (t:ℕ) :
    IsObject (typed .source obj tagoff ref t) (typed .checked obj' tagoff ref t):=by
  unfold typed
  iterate 6 apply IsObject.ite (isObject_scalar (by decide) ref)
  apply IsObject.ite (isObject_intNode ref)
  apply IsObject.ite (isObject_fixedNode (by decide) 8 ref)
  apply IsObject.ite (isObject_longNode ref)
  apply IsObject.ite (isObject_floatNode ref)
  apply IsObject.ite (isObject_fixedNode (by decide) 8 ref)
  apply IsObject.ite (isObject_complexNode ref)
  apply IsObject.ite (isObject_fixedNode (by decide) 16 ref)
  iterate 2 apply IsObject.ite (isObject_stringNode (by decide) ref)
  apply IsObject.ite (isObject_shortNode ref)
  apply IsObject.ite (isObject_refNode tagoff ref)
  apply IsObject.ite (isObject_seqNode h.program (by decide) true ref)
  iterate 4 apply IsObject.ite (isObject_seqNode h.program (by decide) false ref)
  apply IsObject.ite (isObject_dictNode h.program ref)
  apply IsObject.ite (isObject_sliceNode h.program tagoff ref)
  apply IsObject.ite (isObject_parseCode h ref)
  exact .failAt _ _

end

theorem isObject_obj (levels:ℕ) : IsObject (obj .source levels) (obj .checked levels):=by
  induction levels with
  | zero=>exact .fail _
  | succ levels ih=>
    apply IsObject.bind .position
    intro tagoff
    apply IsObject.bind program_tagByte
    intro tc
    exact isObject_typed ih tagoff _ _

theorem program_obj (levels:ℕ) : Program (obj .source levels) (obj .checked levels):=
  (isObject_obj levels).program

end AutoRefirst.PythonMarshal
