import AutoRefirst.MarshalPayloads

/-!
# Streams that differ in payloads

A parse does not depend on the bytes that it stores in bytes objects. Another stream that
differs only there is parsed in the same steps.
-/

namespace AutoRefirst.PythonMarshal
open List Option

variable {α : Type} {r r' : Reader}

def Covered (h : Heap) (i : ℕ) : Prop := ∃ (id : ℕ) (n : Node), h[id]? = some n ∧ n.Covers i

/-- The object as it is when it is read from the stream `e`. -/
def Node.onto (e : Bytes) (n : Node) : Node :=
  if n.k = .bytes then {n with blob:=(e.drop n.blobOffset).take n.blob.length} else n

def Reader.onto (r : Reader) (e : Bytes) : Reader :=
  {r with d:=e,heap:=r.heap.map (Node.onto e)}

theorem onto_k (e:Bytes) (n:Node) : (n.onto e).k=n.k:=by
  unfold Node.onto
  split_ifs
  · rfl
  · rfl

variable {e : Bytes} {n : Node}

theorem onto_of_ne (h:n.k≠.bytes) : n.onto e=n:=if_neg h

theorem onto_reserved (e:Bytes) (k:K) : Node.onto e { k }={ k }:=by
  unfold Node.onto
  split_ifs
  · rfl
  · rfl

theorem reserved_onto (r:Reader) (e:Bytes) (k:K) (ref:Bool) :
    (r.reserved k ref).onto e=(r.onto e).reserved k ref:=by
  simp only [Reader.onto,Reader.reserved,map_append,map_cons,map_nil, onto_reserved,length_map]

theorem filled_onto (r:Reader) (e:Bytes) (id:ℕ) (n:Node) :
    (r.filled id n).onto e=(r.onto e).filled id (n.onto e):=by
  simp only [Reader.onto,Reader.filled,map_set]

theorem short_onto (r:Reader) (e:Bytes) (n:ℕ) : (r.short n).onto e=(r.onto e).short n:=by
  unfold Reader.short Reader.fail Reader.onto
  dsimp only
  split_ifs
  · rfl
  · rfl

theorem getElem?_onto (h:Heap) (e:Bytes) (id:ℕ) :
    (h.map (Node.onto e))[id]? = h[id]?.map (Node.onto e):=getElem?_map

theorem window_onto {n:ℕ} (h:∀i,r.p ≤ i → i < r.p+n → r.d[i]? = e[i]?) :
    (r.onto e).window n=r.window n:=by
  apply ext_getElem?
  intro j
  show ((e.drop r.p).take n)[j]? = ((r.d.drop r.p).take n)[j]?
  rw [getElem?_take,getElem?_take,getElem?_drop,getElem?_drop]
  split_ifs with hj
  · exact (h (r.p+j) (Nat.le_add_right _ _) (by omega)).symm
  · rfl

variable {r₁ : Reader}

/-- A byte that is read early and is in a payload in the end was in one at once. -/
theorem covered_before {i:ℕ} (hg:Grown r₁ r') (hi:i < r₁.p) (h:Covered r'.heap i) :
    Covered r₁.heap i:=by
  obtain ⟨id,n,hn,hcover⟩:=h
  rcases hg.bytes id n hn hcover.1 with hempty | hold | ⟨hlow,-⟩
  · obtain ⟨-,hge,hlt⟩:=hcover
    rw [hempty,length_nil] at hlt
    omega
  · exact ⟨id,n,hold,hcover⟩
  · have hge:=hcover.2.1
    omega

theorem covered_set {h:Heap} {id i:ℕ} (hk:n.k≠.bytes) (hc:Covered (h.set id n) i) :
    Covered h i:=by
  obtain ⟨x,m,hm,hcover⟩:=hc
  rw [getElem?_set] at hm
  split_ifs at hm with hid hlt
  · rw [← some.inj hm] at hcover
    exact absurd hcover.1 hk
  · exact ⟨x,m,hm,hcover⟩

/-- `e` is as long as the input and differs from it only where a payload is read. -/
structure SamePlan (e : Bytes) (r r' : Reader) : Prop where
  length : e.length=r.d.length
  covered : ∀ i, r.p ≤ i → i < r'.p → r.d[i]? ≠ e[i]? → Covered r'.heap i

/-- Bytes that go into no object are the same. -/
theorem SamePlan.agree (h:SamePlan e r r') (hpay:Payloads r) (hheap:r₁.heap=r.heap)
    (hg:Grown r₁ r') (i:ℕ) (hlow:r.p ≤ i) (hhigh:i < r₁.p) :
    r.d[i]? = e[i]? := by
  by_contra hne
  have hc:=covered_before hg hhigh (h.covered i hlow (Nat.lt_of_lt_of_le hhigh hg.le) hne)
  rw [hheap] at hc
  obtain ⟨id,n,hn,hcover⟩:=hc
  exact absurd (hcover.below hpay hn) (Nat.not_lt_of_le hlow)

theorem SamePlan.first (h:SamePlan e r r') (hg:Grown r₁ r') : SamePlan e r r₁:=
  ⟨h.length,fun i hlow hhigh hne=>
    covered_before hg hhigh (h.covered i hlow (Nat.lt_of_lt_of_le hhigh hg.le) hne)⟩

theorem SamePlan.rest (h:SamePlan e r r') (hg:Grown r r₁) : SamePlan e r₁ r':=by
  refine ⟨by rw [hg.d];exact h.length,fun i hlow hhigh hne=>?_⟩
  rw [hg.d] at hne
  exact h.covered i (Nat.le_trans hg.le hlow) hhigh hne

theorem Guard.onto {g:ReadM Unit} {n:ℕ} (hg:Guard g n) (hp:r.p ≤ r.d.length)
    (hlen:e.length=r.d.length) (h:Ran g r () r) : Ran g (r.onto e) () (r.onto e):=by
  have hroom:=(hg.ran h).2 hp
  cases hg with
  | check n=>
    have hneed : (r.onto e).need n=true:=
      (need_iff (by show r.p ≤ e.length;omega)).mpr (by show r.p+n ≤ e.length;omega)
    unfold Ran PythonMarshal.check
    rw [if_pos hneed]
  | room n s=>
    unfold Ran PythonMarshal.room
    rw [if_neg (by show ¬n > e.length - r.p;omega)]

theorem readBytes_onto {n:ℕ} {b:Bytes} (hp:r.p ≤ r.d.length) (hlen:e.length=r.d.length)
    (h:Ran (readBytes n) r b r') (hagree:∀i,r.p ≤ i → i < r'.p → r.d[i]? = e[i]?) :
    Ran (readBytes n) (r.onto e) b (r'.onto e):=by
  rcases readBytes_cases hp h with ⟨hn,rfl,rfl⟩ | ⟨hn,rfl,rfl⟩
  · have hn' : (r.onto e).p+n≤(r.onto e).d.length:=by
      show r.p+n ≤ e.length
      omega
    rw [← window_onto hagree]
    exact (ran_readBytes hn').mpr ⟨rfl,rfl⟩
  · have hp' : (r.onto e).p≤(r.onto e).d.length:=by
      show r.p ≤ e.length
      omega
    have hn' : (r.onto e).d.length<(r.onto e).p+n:=by
      show e.length < r.p+n
      omega
    exact (ran_readBytes_short hp' hn').mpr ⟨rfl,short_onto r e n⟩

theorem u8_onto {a:ℕ} (hp:r.p ≤ r.d.length) (hlen:e.length=r.d.length) (h:Ran u8 r a r')
    (hagree:∀i,r.p ≤ i → i < r'.p → r.d[i]? = e[i]?) :
    Ran u8 (r.onto e) a (r'.onto e):=by
  obtain ⟨b,r₁,hread,hpure⟩:=ran_bind.mp h
  obtain ⟨ha,rfl⟩:=ran_pure.mp hpure
  exact ran_bind.mpr ⟨b,_,readBytes_onto hp hlen hread hagree,ran_pure.mpr ⟨ha,rfl⟩⟩

theorem i32_onto {a:ℤ} (hp:r.p ≤ r.d.length) (hlen:e.length=r.d.length) (h:Ran i32 r a r')
    (hagree:∀i,r.p ≤ i → i < r'.p → r.d[i]? = e[i]?) :
    Ran i32 (r.onto e) a (r'.onto e):=by
  obtain ⟨b,r₁,hread,hpure⟩:=ran_bind.mp h
  obtain ⟨ha,rfl⟩:=ran_pure.mp hpure
  exact ran_bind.mpr ⟨b,_,readBytes_onto hp hlen hread hagree,ran_pure.mpr ⟨ha,rfl⟩⟩

theorem stringBody_ran {f:Fields} {k:K} {len:ℤ} (hlen:Ran f.i32 r len r₁)
    (hok:¬(len<0 ∨ len>10000000)) (hroom:r₁.p+len.toNat ≤ r₁.d.length) :
    Ran (stringBody f k) r {k,blobOffset:=r₁.p,blob:=r₁.window len.toNat}
      (r₁.after len.toNat):=by
  have hcount : Ran (countOk len 1) r₁ () r₁:=by
    unfold countOk
    rw [if_neg hok,if_pos Nat.one_ne_zero,Nat.mul_one]
    unfold Ran room
    rw [if_neg (by omega)]
  exact ran_bind.mpr ⟨len,r₁,hlen,ran_bind.mpr ⟨(),r₁,hcount,ran_bind.mpr ⟨r₁.p,r₁,
    ran_position.mpr ⟨rfl,rfl⟩,ran_bind.mpr ⟨_,_,(ran_readBytes hroom).mpr ⟨rfl,rfl⟩,
      ran_pure.mpr ⟨rfl,rfl⟩⟩⟩⟩⟩

theorem text_onto (h:Heap) (e:Bytes) (x:Option ℕ) :
    text (h.map (Node.onto e)) x=text h x:=by
  cases x with
  | none=>rfl
  | some id=>
    unfold text
    rw [bind_some,bind_some,getElem?_onto]
    cases h[id]? with
    | none=>rfl
    | some n=>
      simp only [map_some,onto_k]
      split_ifs with hk
      · rw [onto_of_ne (by rw [hk];decide)]
      · rfl

theorem onto_blob_length (h:n.k=.bytes → n.blob=[] ∨ n.blobOffset+n.blob.length≤e.length) :
    (n.onto e).blob.length=n.blob.length:=by
  unfold Node.onto
  split_ifs with hk
  · rcases h hk with hempty | hle
    · rw [hempty,length_nil,take_zero,length_nil]
    · rw [length_take,length_drop]
      omega
  · rfl

theorem addCodeRange_onto {h:Heap} (c:CodeData) (ranges:List CodeRange)
    (hin:∀(id:ℕ) (n:Node),h[id]? = some n → n.k=.bytes →
      n.blob=[] ∨ n.blobOffset+n.blob.length≤e.length) :
    addCodeRange (h.map (Node.onto e)) c ranges=addCodeRange h c ranges:=by
  have hget : c.code.bind ((h.map (Node.onto e))[·]?)=(c.code.bind (h[·]?)).map (Node.onto e):=by
    cases c.code with
    | none=>rfl
    | some id=>exact getElem?_onto h e id
  unfold addCodeRange
  simp only [hget,text_onto]
  cases hb : c.code.bind (h[·]?) with
  | none=>rfl
  | some n=>
    obtain ⟨id,-,hn⟩:=bind_eq_some_iff.mp hb
    have hsize:=onto_blob_length (hin id n hn)
    have hoff : (n.onto e).blobOffset=n.blobOffset:=by
      unfold Node.onto
      split_ifs
      · rfl
      · rfl
    simp only [map_some,onto_k,hsize,hoff]

theorem noted_onto (hr:r.p ≤ r.d.length) (hpay:Payloads r) (hlen:e.length=r.d.length) (c:CodeData) :
    (r.noted c).onto e=(r.onto e).noted c:=by
  have hin : ∀(id:ℕ) (n:Node),r.heap[id]? = some n → n.k=.bytes →
      n.blob=[] ∨ n.blobOffset+n.blob.length≤e.length:=by
    intro id n hn hk
    exact (hpay.below id n hn hk).imp_right fun hle=>by omega
  have hranges:=addCodeRange_onto c r.out.codeRanges hin
  simp only [Reader.onto,Reader.noted,hranges]

theorem bytes_onto {ref:Bool} (hp:r.p ≤ r.d.length) (hpay:Payloads r)
    (hbody:Ran (stringBody .source .bytes) (r.reserved .bytes ref) n r₁)
    (h:SamePlan e r (r₁.filled r.heap.length {n with k:=.bytes})) :
    Ran (stringBody .source .bytes) ((r.onto e).reserved .bytes ref)
      (({n with k:=.bytes} : Node).onto e) (r₁.onto e):=by
  have hp' : (r.reserved .bytes ref).p≤(r.reserved .bytes ref).d.length:=hp
  obtain ⟨len,r₂,hlen,hok,hroom,rfl,rfl⟩:=ran_stringBody (fun _ _=>grown_i32 hp') hbody
  have hgrown:=grown_i32 hp' hlen
  have hheap : r₂.heap=r.heap++[{k:=.bytes}]:=(quiet_i32 hp' hlen).heap
  have hagree : ∀i,r.p ≤ i → i < r₂.p → r.d[i]? = e[i]? := by
    intro i hlow hhigh
    by_contra hne
    have hlt : i < r₂.p+len.toNat:=by omega
    obtain ⟨id,m,hm,hcover⟩:=h.covered i hlow hlt hne
    have hm' : (r₂.heap.set r.heap.length
        {k:=.bytes,blobOffset:=r₂.p,blob:=r₂.window len.toNat})[id]? = some m:=hm
    rw [hheap,set_append_right _ _ (Nat.le_refl _),Nat.sub_self] at hm'
    rcases getElem?_append_one hm' with hold | ⟨-,rfl⟩
    · exact absurd (hcover.below hpay hold) (Nat.not_lt_of_le hlow)
    · exact absurd hcover.2.1 (Nat.not_le_of_lt hhigh)
  have hd : r₂.d=r.d:=hgrown.d
  have hother:=i32_onto hp' h.length hlen hagree
  rw [reserved_onto] at hother
  have hroom' : (r₂.onto e).p+len.toNat≤(r₂.onto e).d.length:=by
    show r₂.p+len.toNat ≤ e.length
    rw [h.length,← hd]
    exact hroom
  have hnode : ({k:=.bytes,blobOffset:=r₂.p,blob:=r₂.window len.toNat} : Node).onto e =
      {k:=.bytes,blobOffset:=r₂.p,blob:=(r₂.onto e).window len.toNat}:=by
    unfold Node.onto
    rw [if_pos rfl,window_length hroom]
    rfl
  rw [hnode]
  exact stringBody_ran hother hok hroom'

theorem Program.onto {m m':ReadM α} (h:Program m m') {a:α} (hr:r.Linked) (hpay:Payloads r)
    (hrun:Ran m r a r') (hplan:SamePlan e r r') :
    Ran m (r.onto e) a (r'.onto e):=by
  have hp : ∀ {r:Reader} {r':Reader},r.Linked → SamePlan e r r' →
      (r.onto e).p≤(r.onto e).d.length:=by
    intro r r' hr hplan
    show r.p ≤ e.length
    rw [hplan.length]
    exact hr.1
  induction h generalizing r r' with
  | pure=>
    obtain ⟨ha,rfl⟩:=ran_pure.mp hrun
    exact ran_pure.mpr ⟨ha,rfl⟩
  | bind hm hk ihm ihk=>
    obtain ⟨x,r₁,hrunm,hrunk⟩:=ran_bind.mp hrun
    have hr₁:=hm.linked hr hrunm
    have hfirst:=hplan.first ((hk x).grown hr₁.1 hrunk)
    have hrest:=hplan.rest (hm.grown hr.1 hrunm)
    exact ran_bind.mpr ⟨x,_,ihm hr hpay hrunm hfirst,
      ihk x hr₁ (hm.payloads hr hpay hrunm) hrunk hrest⟩
  | failAt=>exact absurd hrun not_ran_failAt
  | fail=>exact absurd hrun not_ran_fail
  | position=>
    obtain ⟨rfl,rfl⟩:=ran_position.mp hrun
    exact ran_position.mpr ⟨rfl,rfl⟩
  | read hguarded hk ih=>
    obtain ⟨hguard,hroom,hrest⟩:=(ran_guarded hguarded hr.1).mp hrun
    have hlinked:=linked_after hr hroom
    have hg:=(hk _).grown hlinked.1 hrest
    have hagree:=hplan.agree hpay (quiet_after r _).heap hg
    refine (ran_guarded hguarded (hp hr hplan)).mpr
      ⟨hguarded.onto hr.1 hplan.length hguard,?_,?_⟩
    · exact hp hlinked (hplan.rest (grown_after hroom))
    · rw [window_onto hagree]
      exact ih _ hlinked (hpay.quiet (quiet_after r _)) hrest (hplan.rest (grown_after hroom))
  | readAt hguarded hk ih=>
    obtain ⟨hguard,hroom,hrest⟩:=(ran_guardedAt hguarded hr.1).mp hrun
    have hlinked:=linked_after hr hroom
    have hg:=(hk _ _).grown hlinked.1 hrest
    have hagree:=hplan.agree hpay (quiet_after r _).heap hg
    refine (ran_guardedAt hguarded (hp hr hplan)).mpr
      ⟨hguarded.onto hr.1 hplan.length hguard,?_,?_⟩
    · exact hp hlinked (hplan.rest (grown_after hroom))
    · rw [window_onto hagree]
      exact ih _ _ hlinked (hpay.quiet (quiet_after r _)) hrest (hplan.rest (grown_after hroom))
  | field8=>
    have hg:=grown_u8 hr.1 hrun
    exact u8_onto hr.1 hplan.length hrun
      (hplan.agree hpay (quiet_u8 hr.1 hrun).heap (.refl hg.bound'))
  | field32=>
    have hg:=grown_i32 hr.1 hrun
    exact i32_onto hr.1 hplan.length hrun
      (hplan.agree hpay (quiet_i32 hr.1 hrun).heap (.refl hg.bound'))
  | refAt=>
    obtain ⟨hneg,hget,rfl⟩:=ran_refAt.mp hrun
    exact ran_refAt.mpr ⟨hneg,hget,rfl⟩
  | kindOf id=>
    obtain ⟨hget,rfl⟩:=ran_kindOf.mp hrun
    refine ran_kindOf.mpr ⟨?_,rfl⟩
    show (r'.heap.map (Node.onto e))[id]?.map Node.k = _
    rw [getElem?_onto,Option.map_map,← hget]
    exact congrArg (Option.map · _) (funext (onto_k e))
  | minorIs=>
    obtain ⟨hb,rfl⟩:=ran_minorIs.mp hrun
    exact ran_minorIs.mpr ⟨hb,rfl⟩
  | @withNode k ref body body' hcode hbytes hprogram ih=>
    obtain ⟨n,r₁,hbody,hid,rfl⟩:=ran_withNode.mp hrun
    have hlen : (r.onto e).heap.length=r.heap.length:=length_map _
    have hfilled:=filled_onto r₁ e r.heap.length {n with k:=k}
    by_cases hk : k=.bytes
    · subst hk
      have hbody':=hbody
      rw [hbytes rfl] at hbody'
      have hother:=bytes_onto hr.1 hpay hbody' hplan
      rw [← hbytes rfl] at hother
      refine ran_withNode.mpr ⟨_,_,hother,by rw [hlen];exact hid,?_⟩
      rw [hfilled,hlen]
      rfl
    · have hplan' : SamePlan e (r.reserved k ref) r₁:=
        ⟨hplan.length,fun i hlow hhigh hne=>covered_set (n:={n with k:=k}) hk
          (hplan.covered i hlow hhigh hne)⟩
      have hother:=ih (linked_reserved hr) (payloads_reserved hpay k ref) hbody hplan'
      rw [reserved_onto] at hother
      refine ran_withNode.mpr ⟨n,_,hother,by rw [hlen];exact hid,?_⟩
      rw [hfilled,hlen,onto_of_ne (n:={n with k:=k}) hk]
  | countCode=>
    obtain ⟨-,rfl⟩:=(Prod.mk.injEq _ _ _ _).mp hrun
    rfl
  | @code ref head head' hcode hprogram ih=>
    obtain ⟨n,r₁,hbody,hid,rfl⟩:=ran_withNode.mp hrun
    obtain ⟨c,r₂,hhead,hfinish⟩:=ran_bind.mp hbody
    obtain ⟨rfl,rfl⟩:=ran_finishCode.mp hfinish
    have hlen : (r.onto e).heap.length=r.heap.length:=length_map _
    have hlinked:=@linked_reserved _ .code ref hr
    have hpay₁:=payloads_reserved hpay .code ref
    have hg:=hprogram.grown hlinked.1 hhead
    have hplan' : SamePlan e (r.reserved .code ref) r₂:=
      ⟨hplan.length,fun i hlow hhigh hne=>covered_set (n:={k:=.code,code:=some c})
        (by simp) (hplan.covered i hlow hhigh hne)⟩
    have hother:=ih hlinked hpay₁ hhead hplan'
    rw [reserved_onto] at hother
    have hd : r₂.d=r.d:=hg.d
    have hnoted:=noted_onto hg.bound' (hprogram.payloads hlinked hpay₁ hhead)
      (hplan.length.trans (congrArg List.length hd.symm)) c
    refine ran_withNode.mpr ⟨{k:=.code,code:=some c},(r₂.noted c).onto e,
      ran_bind.mpr ⟨c,_,hother,ran_finishCode.mpr ⟨rfl,hnoted⟩⟩,by rw [hlen];exact hid,?_⟩
    rw [filled_onto,hlen,onto_of_ne (n:={k:=.code,code:=some c}) (by simp)]

/-- Another stream that differs only in payloads is parsed to the same objects. -/
theorem parseRoot_onto {d:Bytes} {minor:ℤ} {root:ℕ}
    (h:parseRoot .source d minor=(some root,r)) (hlen:e.length=d.length)
    (hcover:∀i,d[i]? ≠ e[i]? → Covered r.heap i) :
    parseRoot .source e minor=(some root,r.onto e):=by
  have hlinked : (start d minor).Linked:=⟨Nat.zero_le _,fun _ hid=>absurd hid (by simp [start])⟩
  have hplan : SamePlan e (start d minor) r:=⟨hlen,fun i _ _ hne=>hcover i hne⟩
  have hstart : (start d minor).onto e=start e minor:=rfl
  have hrun:=(program_obj maxLevels).onto hlinked (payloads_start d minor) h hplan
  rw [hstart] at hrun
  exact hrun

/-- A payload is the part of the stream at its offset. -/
theorem blob_window {d:Bytes} {minor:ℤ} {root id:ℕ}
    (h:parseRoot .source d minor=(some root,r)) (hn:r.heap[id]? = some n)
    (hk:n.k=.bytes) : n.blob=(d.drop n.blobOffset).take n.blob.length:=by
  have hsame:=parseRoot_onto h rfl fun i hne=>absurd rfl hne
  have hr : r=r.onto d:=Ran.unique (m:=obj .source maxLevels) h hsame
  have hheap : r.heap=r.heap.map (Node.onto d):=congrArg Reader.heap hr
  have hnode : r.heap[id]? = (r.heap[id]?).map (Node.onto d):=by
    rw [← getElem?_onto,← hheap]
  rw [hn,map_some,some.injEq] at hnode
  have hblob:=congrArg Node.blob hnode
  unfold Node.onto at hblob
  rwa [if_pos hk] at hblob

end AutoRefirst.PythonMarshal
