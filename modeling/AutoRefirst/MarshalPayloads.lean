import AutoRefirst.MarshalPrograms

/-!
# The recorded payloads

The payloads that are recorded while a stream is parsed are those of the bytecode of its
code objects. Each is recorded once, and no two bytes objects share a byte of the input.
-/

namespace AutoRefirst.PythonMarshal
open List Option

variable {α : Type} {r r' : Reader}

def Node.Covers (n : Node) (i : ℕ) : Prop :=
  n.k = .bytes ∧ n.blobOffset ≤ i ∧ i<n.blobOffset+n.blob.length

def CodeRange.Of (x : CodeRange) (b : Node) : Prop :=
  x.offset = b.blobOffset ∧ x.size=b.blob.length

def Node.HasBytecode (h : Heap) (n b : Node) : Prop :=
  ∃ (c : CodeData) (id : ℕ), n.k = .code ∧ n.code = some c ∧ c.code = some id ∧ h[id]? = some b ∧
    b.k = .bytes

def IsBytecode (h : Heap) (b : Node) : Prop :=
  ∃ (id : ℕ) (n : Node), h[id]? = some n ∧ n.HasBytecode h b

structure Payloads (r : Reader) : Prop where
  below : ∀ (id : ℕ) (n : Node), r.heap[id]? = some n → n.k = .bytes →
    n.blob = [] ∨ n.blobOffset+n.blob.length ≤ r.p
  apart : ∀ (i id id' : ℕ) (n n' : Node), r.heap[id]? = some n → r.heap[id']? = some n' →
    n.Covers i → n'.Covers i → id=id'
  coded : ∀ (id : ℕ) (n : Node) (c : CodeData), r.heap[id]? = some n → n.k = .code →
    n.code = some c → ∃ code, c.code = some code ∧ code < r.heap.length
  sound : ∀ x∈r.out.codeRanges, ∃ b, IsBytecode r.heap b ∧ x.Of b
  complete : ∀ b, IsBytecode r.heap b → ∃ x∈r.out.codeRanges, x.Of b
  once : r.out.codeRanges.Pairwise fun x y => ¬(x.offset=y.offset ∧ x.size=y.size)

variable {n : Node}

theorem Node.Covers.below {id i:ℕ} (h:Payloads r) (hn:r.heap[id]? = some n)
    (hi:n.Covers i) : i < r.p:=by
  obtain ⟨hk,hge,hlt⟩:=hi
  rcases h.below id n hn hk with hempty | hle
  · rw [hempty,length_nil] at hlt
    omega
  · omega

theorem payloads_start (d:Bytes) (minor:ℤ) : Payloads (start d minor) where
  below:=fun _ _ hn=>absurd hn (by simp [start])
  apart:=fun _ _ _ _ _ hn=>absurd hn (by simp [start])
  coded:=fun _ _ _ hn=>absurd hn (by simp [start])
  sound:=fun _ hx=>absurd hx (by simp [start])
  complete:=fun _ ⟨_,_,hn,_⟩=>absurd hn (by simp [start])
  once := .nil

/-- Only the position and the error can change. -/
structure Quiet (r r' : Reader) : Prop where
  heap : r'.heap=r.heap
  ranges : r'.out.codeRanges=r.out.codeRanges
  le : r.p ≤ r'.p

theorem Payloads.quiet (h:Payloads r) (hq:Quiet r r') : Payloads r' where
  below:=fun id n hn hk=>by
    rw [hq.heap] at hn
    exact (h.below id n hn hk).imp_right fun hle=>Nat.le_trans hle hq.le
  apart:=by
    rw [hq.heap]
    exact h.apart
  coded:=by
    rw [hq.heap]
    exact h.coded
  sound:=by
    rw [hq.heap,hq.ranges]
    exact h.sound
  complete:=by
    rw [hq.heap,hq.ranges]
    exact h.complete
  once:=by
    rw [hq.ranges]
    exact h.once

theorem quiet_after (r:Reader) (n:ℕ) : Quiet r (r.after n):=⟨rfl,rfl,Nat.le_add_right _ _⟩

theorem quiet_readBytes {n:ℕ} {b:Bytes} (hp:r.p ≤ r.d.length) (h:Ran (readBytes n) r b r') :
    Quiet r r':=by
  rcases readBytes_cases hp h with ⟨-,-,rfl⟩ | ⟨-,-,rfl⟩
  · exact quiet_after r n
  · obtain ⟨e,o,hshort⟩:=short_eq r n
    rw [hshort]
    exact ⟨rfl,rfl,Nat.le_refl _⟩

theorem quiet_u8 {a:ℕ} (hp:r.p ≤ r.d.length) (h:Ran u8 r a r') : Quiet r r':=by
  obtain ⟨b,r₁,hread,hpure⟩:=ran_bind.mp h
  rw [ran_pure] at hpure
  rw [← hpure.2]
  exact quiet_readBytes hp hread

theorem quiet_i32 {a:ℤ} (hp:r.p ≤ r.d.length) (h:Ran i32 r a r') : Quiet r r':=by
  obtain ⟨b,r₁,hread,hpure⟩:=ran_bind.mp h
  rw [ran_pure] at hpure
  rw [← hpure.2]
  exact quiet_readBytes hp hread

theorem getElem?_append_one {β:Type} {l:List β} {a b:β} {i:ℕ} (h:(l++[a])[i]? = some b) :
    l[i]? = some b ∨ (i=l.length ∧ b=a):=by
  rw [getElem?_append] at h
  split_ifs at h with hlt
  · exact .inl h
  · rw [getElem?_singleton] at h
    split_ifs at h with hzero
    exact .inr ⟨by omega,(some.inj h).symm⟩

theorem isBytecode_append {h:Heap} (hn:n.k=.code → n.code=none)
    (hcoded:∀(id:ℕ) (n:Node) (c:CodeData),h[id]? = some n → n.k=.code →
      n.code=some c → ∃code,c.code=some code ∧ code<h.length) (b:Node) :
    IsBytecode (h++[n]) b ↔ IsBytecode h b:=by
  constructor
  · rintro ⟨id,m,hm,c,code,hk,hc,hcode,hb,hbytes⟩
    rcases getElem?_append_one hm with hold | ⟨-,rfl⟩
    · obtain ⟨code',hcode',hlt⟩:=hcoded id m c hold hk hc
      have heq : code'=code:=some.inj (hcode'.symm.trans hcode)
      rw [heq] at hlt
      rw [getElem?_append_left hlt] at hb
      exact ⟨id,m,hold,c,code,hk,hc,hcode,hb,hbytes⟩
    · rw [hn hk] at hc
      simp at hc
  · rintro ⟨id,m,hm,c,code,hk,hc,hcode,hb,hbytes⟩
    refine ⟨id,m,?_,c,code,hk,hc,hcode,?_,hbytes⟩
    · rw [getElem?_append_left (List.getElem?_eq_some_iff.mp hm).1]
      exact hm
    · rw [getElem?_append_left (List.getElem?_eq_some_iff.mp hb).1]
      exact hb

/-- A new object whose bytes, when it holds any, were read after all others. -/
theorem Payloads.append (h:Payloads r) (hcode:n.k=.code → n.code=none)
    (hheap:r'.heap=r.heap++[n]) (hranges:r'.out.codeRanges=r.out.codeRanges)
    (hle:r.p ≤ r'.p)
    (hbytes:n.k=.bytes → n.blob=[] ∨
      (r.p≤n.blobOffset ∧ n.blobOffset+n.blob.length ≤ r'.p)) : Payloads r':=by
  have hget : ∀(id:ℕ) (m:Node),r'.heap[id]? = some m →
      r.heap[id]? = some m ∨ (id=r.heap.length ∧ m=n):=by
    intro id m hm
    rw [hheap] at hm
    exact getElem?_append_one hm
  have hnew : ∀i,n.Covers i → r.p ≤ i:=by
    rintro i ⟨hk,hlow,hhigh⟩
    rcases hbytes hk with hempty | ⟨hge,-⟩
    · rw [hempty,length_nil] at hhigh
      omega
    · omega
  constructor
  case below=>
    intro id m hm hk
    rcases hget id m hm with hold | ⟨-,rfl⟩
    · exact (h.below id m hold hk).imp_right fun hbelow=>Nat.le_trans hbelow hle
    · exact (hbytes hk).imp_right And.right
  case apart=>
    intro i id id' m m' hm hm' hi hi'
    rcases hget id m hm with hold | ⟨hid,rfl⟩ <;> rcases hget id' m' hm' with hold' | ⟨hid',rfl⟩
    · exact h.apart i id id' m m' hold hold' hi hi'
    · exact absurd (hnew i hi') (Nat.not_le_of_lt (hi.below h hold))
    · exact absurd (hnew i hi) (Nat.not_le_of_lt (hi'.below h hold'))
    · rw [hid,hid']
  case coded=>
    intro id m c hm hk hc
    rcases hget id m hm with hold | ⟨-,rfl⟩
    · obtain ⟨code,hcode',hlt⟩:=h.coded id m c hold hk hc
      refine ⟨code,hcode',?_⟩
      rw [hheap,length_append]
      omega
    · rw [hcode hk] at hc
      simp at hc
  case sound=>
    intro x hx
    rw [hranges] at hx
    obtain ⟨b,hb,hof⟩:=h.sound x hx
    rw [hheap]
    exact ⟨b,(isBytecode_append hcode h.coded b).mpr hb,hof⟩
  case complete=>
    intro b hb
    rw [hheap,isBytecode_append hcode h.coded] at hb
    rw [hranges]
    exact h.complete b hb
  case once=>
    rw [hranges]
    exact h.once

theorem payloads_reserved (h:Payloads r) (k:K) (ref:Bool) : Payloads (r.reserved k ref):=
  h.append (fun _=>rfl) rfl rfl (Nat.le_refl _) fun _ => .inl rfl

structure Recorded (h : Heap) (n : Node) (ranges ranges' : List CodeRange) : Prop where
  old : ∀ x∈ranges, x∈ranges'
  new : ∀ x∈ranges', x∈ranges ∨ ∃ b, n.HasBytecode h b ∧ x.Of b
  complete : ∀ b, n.HasBytecode h b → ∃ x∈ranges', x.Of b
  once : (ranges.Pairwise fun x y => ¬(x.offset=y.offset ∧ x.size=y.size)) →
    ranges'.Pairwise fun x y => ¬(x.offset=y.offset ∧ x.size=y.size)

theorem Recorded.refl (h:Heap) (hk:n.k≠.code) (ranges:List CodeRange) :
    Recorded h n ranges ranges:=
  ⟨fun _ hx=>hx,fun _ hx => .inl hx,fun _ ⟨_,_,hcode,_⟩=>absurd hcode hk,id⟩

theorem recorded_addCodeRange (h:Heap) (c:CodeData) (ranges:List CodeRange) :
    Recorded h {k:=.code,code:=some c} ranges (addCodeRange h c ranges):=by
  have hcode : ∀b,Node.HasBytecode h {k:=.code,code:=some c} b ↔
      c.code.bind (h[·]?)=some b ∧ b.k=.bytes:=by
    intro b
    rw [bind_eq_some_iff]
    constructor
    · rintro ⟨c',id,-,hc,hid,hb,hk⟩
      rw [some.inj hc]
      exact ⟨⟨id,hid,hb⟩,hk⟩
    · rintro ⟨⟨id,hid,hb⟩,hk⟩
      exact ⟨c,id,rfl,rfl,hid,hb,hk⟩
  unfold addCodeRange
  split
  · next hnone=>
    refine ⟨fun _ hx=>hx,fun _ hx => .inl hx,fun b hb=>?_,id⟩
    rw [hcode,hnone] at hb
    exact absurd hb.1 (by simp)
  · next n hn=>
    split_ifs with hk hany
    · refine ⟨fun _ hx=>hx,fun _ hx => .inl hx,fun b hb=>?_,id⟩
      rw [hcode,hn] at hb
      rw [some.inj hb.1] at hk
      exact absurd hb.2 hk
    · refine ⟨fun _ hx=>hx,fun _ hx => .inl hx,fun b hb=>?_,id⟩
      rw [hcode,hn] at hb
      obtain ⟨x,hx,hof⟩:=any_eq_true.mp hany
      rw [Bool.and_eq_true,decide_eq_true_iff,decide_eq_true_iff] at hof
      rw [← some.inj hb.1]
      exact ⟨x,hx,hof⟩
    · refine ⟨fun _ hx=>mem_append_left _ hx,fun x hx=>?_,fun b hb=>?_,fun honce=>?_⟩
      · rcases mem_append.mp hx with hold | hnew
        · exact .inl hold
        · refine .inr ⟨n,(hcode n).mpr ⟨hn,not_not.mp hk⟩,?_⟩
          rw [mem_singleton.mp hnew]
          exact ⟨rfl,rfl⟩
      · rw [hcode,hn] at hb
        refine ⟨_,mem_append_right _ (mem_singleton_self _),?_⟩
        rw [← some.inj hb.1]
        exact ⟨rfl,rfl⟩
      · refine pairwise_append.mpr ⟨honce,pairwise_singleton _ _,?_⟩
        intro x hx y hy hsame
        rw [mem_singleton.mp hy] at hsame
        refine hany (any_eq_true.mpr ⟨x,hx,?_⟩)
        rw [Bool.and_eq_true,decide_eq_true_iff,decide_eq_true_iff]
        exact hsame

/-- An object that was reserved is filled with another of its kind. -/
theorem Payloads.filled (h:Payloads r) {id:ℕ} {n₀:Node} (hid:r.heap[id]? = some n₀)
    (hcode:n₀.code=none) (hk:n.k=n₀.k) (hbytes:n.k≠.bytes)
    (hcoded:∀c,n.k=.code → n.code=some c → ∃code,c.code=some code ∧ code < r.heap.length)
    (hheap:r'.heap=r.heap.set id n) (hp:r.p ≤ r'.p)
    (hranges:Recorded r.heap n r.out.codeRanges r'.out.codeRanges) : Payloads r':=by
  have hlt : id < r.heap.length:=(List.getElem?_eq_some_iff.mp hid).1
  have hself : r'.heap[id]? = some n:=by rw [hheap,getElem?_set_self hlt]
  have hother : ∀x,x≠id → r'.heap[x]? = r.heap[x]? := by
    intro x hx
    rw [hheap,getElem?_set_ne (Ne.symm hx)]
  have hofBytes : ∀(x:ℕ) (m:Node),m.k=.bytes → (r'.heap[x]? = some m ↔ r.heap[x]? = some m):=by
    intro x m hm
    by_cases hx : x=id
    · rw [hx,hself,hid,some.injEq,some.injEq]
      constructor
      · rintro rfl
        exact absurd hm hbytes
      · rintro rfl
        exact absurd (hk.trans hm) hbytes
    · rw [hother x hx]
  have hhas : ∀m b : Node,m.HasBytecode r'.heap b ↔ m.HasBytecode r.heap b:=by
    intro m b
    constructor
    · rintro ⟨c,code,hmk,hc,hcode',hb,hbk⟩
      exact ⟨c,code,hmk,hc,hcode',(hofBytes code b hbk).mp hb,hbk⟩
    · rintro ⟨c,code,hmk,hc,hcode',hb,hbk⟩
      exact ⟨c,code,hmk,hc,hcode',(hofBytes code b hbk).mpr hb,hbk⟩
  have hbytecode : ∀b,IsBytecode r'.heap b ↔ IsBytecode r.heap b ∨ n.HasBytecode r.heap b:=by
    intro b
    constructor
    · rintro ⟨x,m,hm,hb⟩
      rw [hhas] at hb
      by_cases hx : x=id
      · rw [hx,hself] at hm
        rw [← some.inj hm] at hb
        exact .inr hb
      · rw [hother x hx] at hm
        exact .inl ⟨x,m,hm,hb⟩
    · rintro (⟨x,m,hm,hb⟩ | hb)
      · have hx : x≠id:=by
          rintro rfl
          obtain ⟨c,-,-,hc,-⟩:=hb
          rw [← some.inj (hid.symm.trans hm),hcode] at hc
          simp at hc
        exact ⟨x,m,by rw [hother x hx];exact hm,(hhas m b).mpr hb⟩
      · exact ⟨id,n,hself,(hhas n b).mpr hb⟩
  constructor
  case below=>
    intro x m hm hmk
    exact (h.below x m ((hofBytes x m hmk).mp hm) hmk).imp_right fun hle=>Nat.le_trans hle hp
  case apart=>
    intro i x x' m m' hm hm' hi hi'
    exact h.apart i x x' m m' ((hofBytes x m hi.1).mp hm) ((hofBytes x' m' hi'.1).mp hm') hi hi'
  case coded=>
    have hlen : r'.heap.length=r.heap.length:=by rw [hheap,length_set]
    intro x m c hm hmk hc
    rw [hlen]
    by_cases hx : x=id
    · rw [hx,hself] at hm
      obtain rfl:=some.inj hm
      exact hcoded c hmk hc
    · rw [hother x hx] at hm
      exact h.coded x m c hm hmk hc
  case sound=>
    intro x hx
    rcases hranges.new x hx with hold | ⟨b,hb,hof⟩
    · obtain ⟨b,hb,hof⟩:=h.sound x hold
      exact ⟨b,(hbytecode b).mpr (.inl hb),hof⟩
    · exact ⟨b,(hbytecode b).mpr (.inr hb),hof⟩
  case complete=>
    intro b hb
    rcases (hbytecode b).mp hb with hold | hnew
    · obtain ⟨x,hx,hof⟩:=h.complete b hold
      exact ⟨x,hranges.old x hx,hof⟩
    · exact hranges.complete b hnew
  case once=>exact hranges.once h.once

/-- The reserved object is still as it was after the body has run. -/
theorem reserved_getElem? {k:K} {ref:Bool} {r₁:Reader} (h:Grown (r.reserved k ref) r₁) :
    r₁.heap[r.heap.length]? = some { k }:=by
  obtain ⟨t,ht⟩:=h.heap
  rw [← ht,Reader.reserved,append_assoc,getElem?_append_right (Nat.le_refl _), Nat.sub_self]
  rfl

theorem payloads_bytes (h:Payloads r) (hp:r.p ≤ r.d.length) {ref:Bool} {r₁:Reader}
    (hbody:Ran (stringBody .source .bytes) (r.reserved .bytes ref) n r₁) :
    Payloads (r₁.filled r.heap.length {n with k:=.bytes}):=by
  have hp' : (r.reserved .bytes ref).p≤(r.reserved .bytes ref).d.length:=hp
  have hwindow:=bytesBody_window hp' hbody
  obtain ⟨len,r₂,hlen,-,-,rfl,rfl⟩:=ran_stringBody (fun _ _=>grown_i32 hp') hbody
  have hq:=quiet_i32 hp' hlen
  have hle : r.p ≤ r₂.p:=hq.le
  refine h.append (fun hk=>absurd hk (by simp)) ?_ hq.ranges ?_ fun _ => .inr hwindow
  · show r₂.heap.set r.heap.length _ = _
    rw [hq.heap,Reader.reserved,set_append_right _ _ (Nat.le_refl _),Nat.sub_self]
    rfl
  · exact Nat.le_trans hle (Nat.le_add_right _ _)

theorem Program.payloads {m m':ReadM α} (h:Program m m') {a:α} (hr:r.Linked)
    (hpay:Payloads r) (hrun:Ran m r a r') : Payloads r':=by
  induction h generalizing r r' with
  | pure=>
    rw [ran_pure] at hrun
    rwa [← hrun.2]
  | bind hm _ ihm ihk=>
    obtain ⟨x,r₁,hrunm,hrunk⟩:=ran_bind.mp hrun
    exact ihk x (hm.linked hr hrunm) (ihm hr hpay hrunm) hrunk
  | failAt=>exact absurd hrun not_ran_failAt
  | fail=>exact absurd hrun not_ran_fail
  | position=>
    obtain ⟨-,rfl⟩:=ran_position.mp hrun
    exact hpay
  | read hg _ ih=>
    obtain ⟨-,hroom,hk⟩:=(ran_guarded hg hr.1).mp hrun
    exact ih _ (linked_after hr hroom) (hpay.quiet (quiet_after r _)) hk
  | readAt hg _ ih=>
    obtain ⟨-,hroom,hk⟩:=(ran_guardedAt hg hr.1).mp hrun
    exact ih _ _ (linked_after hr hroom) (hpay.quiet (quiet_after r _)) hk
  | field8=>exact hpay.quiet (quiet_u8 hr.1 hrun)
  | field32=>exact hpay.quiet (quiet_i32 hr.1 hrun)
  | refAt=>
    obtain ⟨-,-,rfl⟩:=ran_refAt.mp hrun
    exact hpay
  | kindOf=>
    obtain ⟨-,rfl⟩:=ran_kindOf.mp hrun
    exact hpay
  | minorIs=>
    obtain ⟨-,rfl⟩:=ran_minorIs.mp hrun
    exact hpay
  | @withNode k ref body body' hcode hbytes hprogram ih=>
    obtain ⟨n,r₁,hbody,-,rfl⟩:=ran_withNode.mp hrun
    by_cases hk : k=.bytes
    · subst hk
      rw [hbytes rfl] at hbody
      exact payloads_bytes hpay hr.1 hbody
    · have h₁:=ih (linked_reserved hr) (payloads_reserved hpay k ref) hbody
      have hreserved:=reserved_getElem? (hprogram.grown (linked_reserved hr).1 hbody)
      exact h₁.filled (n:={n with k:=k}) hreserved rfl rfl hk
        (fun _ hcode'=>absurd hcode' hcode) rfl (Nat.le_refl _) (.refl _ hcode _)
  | countCode=>
    rw [← ((Prod.mk.injEq _ _ _ _).mp hrun).2]
    exact hpay.quiet ⟨rfl,rfl,Nat.le_refl _⟩
  | @code ref head head' hcode hprogram ih=>
    obtain ⟨n,r₁,hbody,-,rfl⟩:=ran_withNode.mp hrun
    obtain ⟨c,r₂,hhead,hfinish⟩:=ran_bind.mp hbody
    obtain ⟨rfl,rfl⟩:=ran_finishCode.mp hfinish
    have h₂:=ih (linked_reserved hr) (payloads_reserved hpay .code ref) hhead
    have hreserved:=reserved_getElem? (hprogram.grown (linked_reserved hr).1 hhead)
    refine h₂.filled (n:={k:=.code,code:=some c}) hreserved rfl rfl (by simp) ?_ rfl (Nat.le_refl _)
      (recorded_addCodeRange r₂.heap c _)
    intro c' _ hc
    rw [← some.inj hc]
    exact hcode _ _ _ (linked_reserved hr) hhead

theorem payloads_parseRoot {d:Bytes} {minor:ℤ} {root:ℕ}
    (h:parseRoot .source d minor=(some root,r)) : Payloads r:=by
  have hlinked : (start d minor).Linked:=⟨Nat.zero_le _,fun _ hid=>absurd hid (by simp [start])⟩
  exact (program_obj maxLevels).payloads hlinked (payloads_start d minor) h

end AutoRefirst.PythonMarshal
