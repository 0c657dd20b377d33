import AutoRefirst.MarshalRewrite
import AutoRefirst.MarshalSizes

/-!
# Marshal streams as they are written

An object is written as its tag and its content; one that a later reference names is marked. The
numbers of a code object are words without tags, and which of them there are is a matter of the
version.
-/

namespace AutoRefirst.PythonMarshal
open List

structure CodeNumbers where
  (argcount posonly kwonly nlocals stacksize flags firstlineno : ℤ)

/-- An object in a stream. The parts of a code object stand in front of the number of its first
line and behind it. -/
inductive Written
  | plain (ref : Bool) (tag : Char) (content : Bytes)
  | back (index : ℕ)
  | seq (ref : Bool) (tag : Char) (items : List Written)
  | dict (ref : Bool) (entries : List Written)
  | code (ref : Bool) (numbers : CodeNumbers) (parts tail : List Written)

/-- The tags of the objects without content. -/
def constantTags : List (K×Char) :=
  [(.none,'N'),(.false,'F'),(.true,'T'),(.stopIter,'S'),(.ellipsis,'.')]

/-- The tags of the objects whose content has one length. -/
def fixedTags : List (K×Char×ℕ) :=
  [(.int,'i',4),(.int,'I',8),(.float,'g',8),(.complex,'y',16)]

def stringTags : List (K×Char) :=
  [(.bytes,'s'),(.string,'t'),(.string,'u'),(.string,'a'),(.string,'A')]

/-- The content of an object without parts. -/
inductive PlainContent : K → Char → Bytes → Prop
  | constant {k : K} {tag : Char} : (k,tag)∈constantTags → PlainContent k tag []
  | fixed {k : K} {tag : Char} {b : Bytes} : (k,tag,b.length)∈fixedTags → PlainContent k tag b
  | long {sz : ℤ} {b : Bytes} : sz.natAbs≤10000000 → b.length=sz.natAbs*2 →
      PlainContent .long 'l' (putU32 sz ++ b)
  | float {b : Bytes} : b.length<256 → PlainContent .float 'f' ([b.length.toUInt8]++b)
  | complex {a b : Bytes} : a.length<256 → b.length<256 →
      PlainContent .complex 'x' ([a.length.toUInt8]++(a++([b.length.toUInt8]++b)))
  | string {k : K} {tag : Char} {b : Bytes} : (k,tag)∈stringTags → b.length≤10000000 →
      PlainContent k tag (putU32 b.length ++ b)
  | short {tag : Char} {b : Bytes} : tag ∈ ['z','Z'] → b.length<256 →
      PlainContent .string tag ([b.length.toUInt8]++b)

def seqTags : List (K×Char) :=
  [(.tuple,'('),(.tuple,')'),(.list,'['),(.set,'<'),(.frozenSet,'>'),(.slice,':')]

/-- The number of items; a slice has none, and a small tuple has it in one byte. -/
def countBytes (tag : Char) (n : ℕ) : Bytes :=
  if tag = ':' then [] else if tag = ')' then [n.toUInt8] else putU32 n

/-- The tag of an object, with the mark. -/
def taggedByte (ref : Bool) (tag : Char) : UInt8 := if ref then byte tag + 128 else byte tag

def CodeNumbers.encode (minor : ℤ) (v : CodeNumbers) : Bytes :=
  putU32 v.argcount ++ (putU32 v.posonly ++ (putU32 v.kwonly ++
    ((if minor ≤ 10 then putU32 v.nlocals else [])++(putU32 v.stacksize ++ putU32 v.flags))))

mutual

def Written.encode (minor : ℤ) : Written → Bytes
  | .plain ref tag content => [taggedByte ref tag]++content
  | .back index => [byte 'r'] ++ putU32 index
  | .seq ref tag items =>
    [taggedByte ref tag] ++ (countBytes tag items.length ++ Written.encodeAll minor items)
  | .dict ref entries => [taggedByte ref '{'] ++ (Written.encodeAll minor entries ++ [byte '0'])
  | .code ref numbers parts tail =>
    [taggedByte ref 'c'] ++ (numbers.encode minor ++ (Written.encodeAll minor parts ++
      (putU32 numbers.firstlineno ++ Written.encodeAll minor tail)))

def Written.encodeAll (minor : ℤ) : List Written → Bytes
  | [] => []
  | t::ts => t.encode minor ++ Written.encodeAll minor ts

end

/-- The object itself, when it is marked. -/
def marked (ref : Bool) (t : Written) : List Written := if ref then [t] else []

mutual

/-- The marked objects, in the order in which references count them. -/
def Written.marks : Written → List Written
  | .plain ref tag content => marked ref (.plain ref tag content)
  | .back _ => []
  | .seq ref tag items => marked ref (.seq ref tag items) ++ Written.marksAll items
  | .dict ref entries => marked ref (.dict ref entries) ++ Written.marksAll entries
  | .code ref numbers parts tail =>
    marked ref (.code ref numbers parts tail) ++
      (Written.marksAll parts ++ Written.marksAll tail)

def Written.marksAll : List Written → List Written
  | [] => []
  | t::ts => t.marks ++ Written.marksAll ts

end

structure CodeNumbers.Fits (v : CodeNumbers) : Prop where
  argcount : Fits32 v.argcount
  posonly : Fits32 v.posonly
  kwonly : Fits32 v.kwonly
  nlocals : Fits32 v.nlocals
  stacksize : Fits32 v.stacksize
  flags : Fits32 v.flags
  firstlineno : Fits32 v.firstlineno

/-- The number of parts behind the number of the first line. -/
def tailCount (minor : ℤ) : ℕ := if minor ≤ 10 then 1 else 2

mutual

/-- The object is one of the format, nested at most so deep as the reader follows, and a reference
in it names one of the objects that are marked in front of it. -/
def Written.Formed (minor : ℤ) (levels marks : ℕ) : Written → Prop
  | .plain _ tag content => 0 < levels ∧ ∃ k, PlainContent k tag content
  | .back index => 0 < levels ∧ index < marks ∧ index < 2^31
  | .seq ref tag items =>
    0 < levels ∧ (∃ k, (k,tag) ∈ seqTags) ∧ items.length ≤ 10000000 ∧
      (tag = ')' → items.length < 256) ∧ (tag = ':' → 14 ≤ minor ∧ items.length = 3) ∧
      Written.FormedAll minor (levels-1) (marks+ref.toNat) items
  | .dict ref entries =>
    1 < levels ∧ entries.length < 20000000 ∧ entries.length % 2 = 0 ∧
      Written.FormedAll minor (levels-1) (marks+ref.toNat) entries
  | .code ref numbers parts tail =>
    0 < levels ∧ numbers.Fits ∧ parts.length = 8 ∧ tail.length = tailCount minor ∧
      Written.FormedAll minor (levels-1) (marks+ref.toNat) parts ∧
      Written.FormedAll minor (levels-1)
        (marks+ref.toNat+(Written.marksAll parts).length) tail

def Written.FormedAll (minor : ℤ) (levels marks : ℕ) : List Written → Prop
  | [] => True
  | t::ts =>
    t.Formed minor levels marks ∧ Written.FormedAll minor levels (marks+t.marks.length) ts

end

def seqKind (tag : Char) : K := ((seqTags.find? fun x => x.2 = tag).map Prod.fst).getD .tuple

structure CodeNumbers.In (minor : ℤ) (v : CodeNumbers) (c : CodeData) : Prop where
  argcount : c.argcount=v.argcount
  posonly : c.posonly=v.posonly
  kwonly : c.kwonly=v.kwonly
  nlocals : minor≤10 → c.nlocals=v.nlocals
  stacksize : c.stacksize=v.stacksize
  flags : c.flags=v.flags
  firstlineno : c.firstlineno=v.firstlineno

mutual

/-- The object with the number shows what was written, where `L` looks objects up and `R` lists
the ones that can be referred to. -/
def Written.Shown (minor : ℤ) (L : ℕ→Option Node) (R : List ℕ) : Written → ℕ → Prop
  | .plain _ tag content, id => ∃ n, L id = some n ∧ PlainContent n.k tag content
  | .back index, id => R[index]? = some id
  | .seq _ tag items, id =>
    ∃ n, L id = some n ∧ n.k = seqKind tag ∧ Written.ShownAll minor L R items n.seq
  | .dict _ _, id => ∃ n, L id = some n ∧ n.k = .dict
  | .code _ numbers parts _, id =>
    ∃ n c ids, L id = some n ∧ n.k = .code ∧ n.code = some c ∧ numbers.In minor c ∧
      Written.ShownAll minor L R parts ids ∧
      [c.code,c.consts,c.names] = (ids.take 3).map some

def Written.ShownAll (minor : ℤ) (L : ℕ→Option Node) (R : List ℕ) : List Written → List ℕ → Prop
  | [], ids => ids = []
  | t::ts, ids => ∃ id rest, ids = id::rest ∧ t.Shown minor L R id ∧
      Written.ShownAll minor L R ts rest

end

section
variable {minor : ℤ} {L L' : ℕ→Option Node} {R R' : List ℕ}

mutual

theorem Written.Shown.mono (hL:∀id n,L id=some n → L' id=some n) (hR:R <+: R') :
    (t:Written) → {id:ℕ} → t.Shown minor L R id → t.Shown minor L' R' id
  | .plain _ _ _, _, h=>by
    obtain ⟨n,hn,hcontent⟩:=h
    exact ⟨n,hL _ n hn,hcontent⟩
  | .back _, _, h=>by
    obtain ⟨more,rfl⟩:=hR
    have h : R[_]? = some _:=h
    show (R++more)[_]? = _
    rw [getElem?_append_left (List.getElem?_eq_some_iff.mp h).1,h]
  | .seq _ _ items, _, h=>by
    obtain ⟨n,hn,hk,hitems⟩:=h
    exact ⟨n,hL _ n hn,hk,Written.ShownAll.mono hL hR items hitems⟩
  | .dict _ _, _, h=>by
    obtain ⟨n,hn,hk⟩:=h
    exact ⟨n,hL _ n hn,hk⟩
  | .code _ _ parts _, _, h=>by
    obtain ⟨n,c,ids,hn,hk,hc,hnumbers,hparts,hids⟩:=h
    exact ⟨n,c,ids,hL _ n hn,hk,hc,hnumbers,Written.ShownAll.mono hL hR parts hparts,hids⟩

theorem Written.ShownAll.mono (hL:∀id n,L id=some n → L' id=some n) (hR:R <+: R') :
    (ts:List Written) → {ids:List ℕ} → Written.ShownAll minor L R ts ids →
      Written.ShownAll minor L' R' ts ids
  | [], _, h=>h
  | t::ts, _, h=>by
    obtain ⟨id,rest,hids,ht,hts⟩:=h
    exact ⟨id,rest,hids,Written.Shown.mono hL hR t ht,Written.ShownAll.mono hL hR ts hts⟩

end

theorem shownAll_append {ts us:List Written} {ids ids':List ℕ}
    (h:Written.ShownAll minor L R ts ids) (h':Written.ShownAll minor L R us ids') :
    Written.ShownAll minor L R (ts++us) (ids++ids'):=by
  induction ts generalizing ids with
  | nil=>
    obtain rfl : ids=[]:=h
    exact h'
  | cons t ts ih=>
    obtain ⟨id,rest,rfl,ht,hts⟩:=h
    exact ⟨id,rest++ids',rfl,ht,ih hts⟩

theorem shownAll_length {ts:List Written} {ids:List ℕ} (h:Written.ShownAll minor L R ts ids) :
    ids.length=ts.length:=by
  induction ts generalizing ids with
  | nil=>
    obtain rfl : ids=[]:=h
    rfl
  | cons t ts ih=>
    obtain ⟨id,rest,rfl,-,hts⟩:=h
    rw [length_cons,length_cons,ih hts]

theorem encodeAll_append (minor:ℤ) (ts us:List Written) : Written.encodeAll minor (ts++us) =
      Written.encodeAll minor ts++Written.encodeAll minor us:=by
  induction ts with
  | nil=>rfl
  | cons t ts ih=>rw [cons_append,Written.encodeAll,Written.encodeAll,ih,
      append_assoc]

theorem marksAll_append (ts us:List Written) :
    Written.marksAll (ts++us) = Written.marksAll ts++Written.marksAll us:=by
  induction ts with
  | nil=>rfl
  | cons t ts ih=>rw [cons_append,Written.marksAll,Written.marksAll,ih,
      append_assoc]

end

end AutoRefirst.PythonMarshal

/-!
## Reading marshal streams back

A run of the reader over an object that was written leaves an object that shows it.
-/

namespace AutoRefirst.PythonMarshal
open List

section
variable {α β : Type} {r r' r₁ : Reader} {m : ReadM α} {k : α→ReadM β} {b b' : Bytes}
  {P : α→Prop} {Q : β→Prop}

/-- The reader has gone on by `n` bytes and made no object. -/
structure Past (r r' : Reader) (n : ℕ) : Prop where
  d : r'.d=r.d
  minor : r'.minor=r.minor
  p : r'.p=r.p+n
  heap : r'.heap=r.heap
  refs : r'.refs=r.refs
  reads : r.reads <+: r'.reads

variable {n : ℕ}

theorem Past.trans {n':ℕ} (h:Past r r₁ n) (h':Past r₁ r' n') : Past r r' (n+n') where
  d:=h'.d.trans h.d
  minor:=h'.minor.trans h.minor
  p:=by rw [h'.p,h.p,Nat.add_assoc]
  heap:=h'.heap.trans h.heap
  refs:=h'.refs.trans h.refs
  reads:=h.reads.trans h'.reads

theorem past_after (r:Reader) (n:ℕ) : Past r (r.after n) n:=⟨rfl,rfl,rfl,rfl,rfl,prefix_append _ _⟩

def Next (r : Reader) (b : Bytes) : Prop := r.p ≤ r.d.length ∧ b <+: r.d.drop r.p

theorem Next.room (h:Next r b) : r.p+b.length ≤ r.d.length:=by
  obtain ⟨hp,hb⟩:=h
  have hlen:=hb.length_le
  rw [length_drop] at hlen
  omega

theorem Next.window (h:Next r b) : r.window b.length=b:=by
  obtain ⟨-,rest,hrest⟩:=h
  rw [Reader.window,← hrest,take_left]

theorem next_append (h:Next r (b++b')) :
    Next r b ∧ ∀r',r'.d=r.d → r'.p=r.p+b.length → Next r' b':=by
  have hroom:=h.room
  obtain ⟨hp,rest,hrest⟩:=h
  rw [append_assoc] at hrest
  rw [length_append] at hroom
  refine ⟨⟨hp,b'++rest,hrest⟩,fun r' hd hp'=>⟨?_,rest,?_⟩⟩
  · rw [hd,hp']
    omega
  · rw [hd,hp',← drop_drop,← hrest,drop_left]

def Takes (m : ReadM α) (b : Bytes) (P : α→Prop) : Prop :=
  ∀ r, Next r b → ∃ a r', Ran m r a r' ∧ P a ∧ Past r r' b.length

theorem takes_pure {a:β} (h:Q a) : Takes (pure a) [] Q:=
  fun r _=>⟨a,r,rfl,h,rfl,rfl,rfl,rfl,rfl,prefix_refl _⟩

theorem Takes.bind (h:Takes m b P) (hk:∀a,P a → Takes (k a) b' Q) :
    Takes (m >>= k) (b++b') Q:=by
  intro r hnext
  obtain ⟨hfirst,hrest⟩:=next_append hnext
  obtain ⟨a,r₁,hm,ha,hpast⟩:=h r hfirst
  obtain ⟨c,r',hrun,hc,hpast'⟩:=hk a ha r₁ (hrest r₁ hpast.d hpast.p)
  refine ⟨c,r',ran_bind.mpr ⟨a,r₁,hm,hrun⟩,hc,?_⟩
  rw [length_append]
  exact hpast.trans hpast'

theorem Takes.last (h:Takes m b P) (hk:∀a,P a → Takes (k a) [] Q) : Takes (m >>= k) b Q:=by
  have hbind:=h.bind hk
  rwa [append_nil] at hbind

/-- A step that takes nothing, where there are at least `n` bytes. -/
theorem takes_guard {g:ReadM Unit} {k:Unit→ReadM β} (hn:n≤b.length)
    (hg:∀r,r.p+n ≤ r.d.length → Ran g r () r) (hk:Takes (k ()) b Q) :
    Takes (g >>= k) b Q:=by
  intro r hnext
  obtain ⟨c,r',hrun,hc,hpast⟩:=hk r hnext
  have hroom:=hnext.room
  exact ⟨c,r',ran_bind.mpr ⟨(),r,hg r (by omega),hrun⟩,hc,hpast⟩

theorem run_check (h:r.p+n ≤ r.d.length) : Ran (check n) r () r:=by
  unfold Ran check
  rw [if_pos ((need_iff (by omega)).mpr h)]

theorem run_room {s:String} (h:r.p+n ≤ r.d.length) : Ran (room n s) r () r:=by
  unfold Ran room
  rw [if_neg (by omega)]

theorem run_countOk {n:ℤ} {w:ℕ} (h₀:0≤n) (hn:n≤10000000)
    (h:r.p+n.toNat*w ≤ r.d.length) : Ran (countOk n w) r () r:=by
  unfold countOk
  rw [if_neg (by omega)]
  split_ifs
  · exact run_room h
  · rfl

theorem takes_readBytes (hn:b.length=n) : Takes (readBytes n) b (· = b):=by
  intro r hnext
  subst hn
  exact ⟨_,_,(ran_readBytes hnext.room).mpr ⟨rfl,rfl⟩,hnext.window,past_after r _⟩

theorem takes_take (hn:b.length=n) : Takes (take n) b (· = b):=
  takes_guard (Nat.le_of_eq hn.symm) (fun _=>run_check) (takes_readBytes hn)

theorem takes_u8 (hn:n<256) : Takes u8 [n.toUInt8] (· = n):=by
  refine (takes_readBytes rfl).last ?_
  rintro _ rfl
  refine takes_pure ?_
  rw [littleEndian,littleEndian]
  exact Nat.mod_eq_of_lt hn

theorem littleEndian_lowBytes {v:ℕ} (h:v<256^n) : littleEndian (lowBytes n v)=v:=by
  induction n generalizing v with
  | zero=>
    rw [Nat.pow_zero] at h
    rw [lowBytes,littleEndian]
    omega
  | succ n ih=>
    rw [Nat.pow_succ] at h
    have hbyte : (v % 256).toUInt8.toNat = v % 256:=Nat.mod_eq_of_lt (Nat.mod_lt v (by decide))
    rw [lowBytes,littleEndian,ih (by omega),hbyte]
    omega

theorem length_putU32 (v:ℤ) : (putU32 v).length=4:=rfl

variable {v : ℤ}

theorem toInt32_putU32 (h:Fits32 v) : toInt32 (littleEndian (putU32 v))=v:=by
  unfold Fits32 at h
  rw [putU32,littleEndian_lowBytes (by omega),toInt32]
  split_ifs <;> omega

theorem takes_i32 (h:Fits32 v) : Takes i32 (putU32 v) (· = v):=by
  refine (takes_readBytes (length_putU32 v)).last ?_
  rintro _ rfl
  exact takes_pure (toInt32_putU32 h)

theorem takes_ri (h:Fits32 v) : Takes ri (putU32 v) (· = v):=
  takes_guard (Nat.le_of_eq (length_putU32 v).symm) (fun _=>run_check) (takes_i32 h)

theorem fits32_nat (h:n≤10000000) : Fits32 (n:ℤ):=by
  unfold Fits32
  omega

theorem takes_placed {k:ℕ→Bytes→ReadM β} (hn:b.length=n) (hk:∀off,Takes (k off b) [] Q) :
    Takes (position >>= fun off=>readBytes n >>= k off) b Q:=by
  intro r hnext
  have hrest : Takes (readBytes n >>= k r.p) b Q:=(takes_readBytes hn).last fun _ h=>h▸hk r.p
  obtain ⟨c,r',hrun,hc,hpast⟩:=hrest r hnext
  exact ⟨c,r',ran_bind.mpr ⟨r.p,r,rfl,hrun⟩,hc,hpast⟩

end

/-- The object is made by a step that takes its content. -/
theorem content_typed {k:K} {tag:Char} {content:Bytes} (h:PlainContent k tag content)
    (obj:ReadM ℕ) (tagoff:ℕ) (ref:Bool) :
    ∃body,typed .source obj tagoff ref tag.toNat=withNode k ref body ∧
      Takes body content fun _=>True:=by
  cases h with
  | constant h=>
    refine ⟨pure { k },?_,takes_pure trivial⟩
    simp only [constantTags,mem_cons,not_mem_nil,or_false,Prod.mk.injEq] at h
    rcases h with ⟨rfl,rfl⟩ | ⟨rfl,rfl⟩ | ⟨rfl,rfl⟩ | ⟨rfl,rfl⟩ | ⟨rfl,rfl⟩ <;> rfl
  | fixed h=>
    simp only [fixedTags,mem_cons,not_mem_nil,or_false,Prod.mk.injEq] at h
    rcases h with ⟨rfl,rfl,hn⟩ | ⟨rfl,rfl,hn⟩ | ⟨rfl,rfl,hn⟩ | ⟨rfl,rfl,hn⟩
    · have hfour : Takes ri content fun _=>True:=
        takes_guard (Nat.le_of_eq hn.symm) (fun _=>run_check)
          ((takes_readBytes hn).last fun _ _=>takes_pure trivial)
      exact ⟨_,rfl,hfour.last fun _ _=>takes_pure trivial⟩
    all_goals exact ⟨_,rfl,(takes_take hn).last fun _ _=>takes_pure trivial⟩
  | @long sz b hsz hb=>
    refine ⟨_,rfl,(takes_ri (by unfold Fits32;omega)).bind ?_⟩
    rintro _ rfl
    dsimp only
    rw [if_neg (by omega)]
    exact takes_guard (Nat.le_of_eq hb.symm) (fun _=>run_room)
      ((takes_readBytes hb).last fun _ _=>takes_pure trivial)
  | float hb=>
    refine ⟨_,rfl,(takes_u8 hb).bind ?_⟩
    rintro _ rfl
    exact (takes_take rfl).last fun _ _=>takes_pure trivial
  | complex ha hb=>
    refine ⟨_,rfl,(takes_u8 ha).bind ?_⟩
    rintro _ rfl
    refine (takes_take rfl).bind fun _ _=>(takes_u8 hb).bind ?_
    rintro _ rfl
    exact (takes_take rfl).last fun _ _=>takes_pure trivial
  | @string _ _ b h hb=>
    refine ⟨stringBody .source k,?_,?_⟩
    · simp only [stringTags,mem_cons,not_mem_nil,or_false,Prod.mk.injEq] at h
      rcases h with ⟨rfl,rfl⟩ | ⟨rfl,rfl⟩ | ⟨rfl,rfl⟩ | ⟨rfl,rfl⟩ | ⟨rfl,rfl⟩ <;> rfl
    · refine (takes_i32 (fits32_nat hb)).bind ?_
      rintro _ rfl
      refine takes_guard (n:=(b.length : ℤ).toNat*1) (by omega)
        (fun _=>run_countOk (by omega) (by omega)) ?_
      exact takes_placed rfl fun _=>takes_pure trivial
  | @short _ b h hb=>
    simp only [mem_cons,not_mem_nil,or_false] at h
    rcases h with rfl | rfl
    all_goals
      refine ⟨_,rfl,(takes_u8 hb).bind ?_⟩
      rintro _ rfl
      exact takes_guard (Nat.le_refl _) (fun _=>run_check)
        (takes_placed rfl fun _=>takes_pure trivial)

/-- What refers to an object never gives the end of a dictionary. -/
def Named (r : Reader) : Prop := ∀ id∈r.refs, ∃ n, r.heap[id]? = some n ∧ n.k ≠ .nullTag

/-- The objects that a run has made. -/
def fresh (r r' : Reader) (id : ℕ) : Option Node :=
  if r.heap.length ≤ id then r'.heap[id]? else none

/-- A run over the objects `ts` has made the objects `ids`. -/
structure Reads (minor : ℤ) (ts : List Written) (r r' : Reader) (ids : List ℕ) : Prop where
  grown : Grown r r'
  named : Named r'
  p : r'.p=r.p+(Written.encodeAll minor ts).length
  marks : ∃ new, r'.refs=r.refs++new ∧
    Written.ShownAll minor (fresh r r') r'.refs (Written.marksAll ts) new
  shown : Written.ShownAll minor (fresh r r') r'.refs ts ids

section
variable {minor : ℤ} {r r₁ r' : Reader} {ts us : List Written} {ids ids' : List ℕ}

variable {id : ℕ} {n : Node}

theorem fresh_of_some (h:fresh r r' id=some n) : r.heap.length ≤ id ∧ r'.heap[id]? = some n:=by
  unfold fresh at h
  split_ifs at h with hle
  exact ⟨hle,h⟩

theorem lookup_of_grown {h h':Heap} (hle:h <+: h') (hn:h[id]? = some n) :
    h'[id]? = some n:=by
  obtain ⟨more,rfl⟩:=hle
  rw [getElem?_append_left (List.getElem?_eq_some_iff.mp hn).1,hn]

theorem fresh_first (h:Grown r₁ r') (id:ℕ) (n:Node) (hn:fresh r r₁ id=some n) :
    fresh r r' id=some n:=by
  obtain ⟨hle,hn⟩:=fresh_of_some hn
  rw [fresh,if_pos hle]
  exact lookup_of_grown h.heap hn

theorem fresh_rest (h:Grown r r₁) (id:ℕ) (n:Node) (hn:fresh r₁ r' id=some n) :
    fresh r r' id=some n:=by
  obtain ⟨hle,hn⟩:=fresh_of_some hn
  rw [fresh,if_pos (Nat.le_trans h.heap.length_le hle)]
  exact hn

theorem reads_nil (hp:r.p ≤ r.d.length) (h:Named r) : Reads minor [] r r [] where
  grown := .refl hp
  named:=h
  p:=rfl
  marks:=⟨[],(append_nil _).symm,rfl⟩
  shown:=rfl

theorem Reads.append (h:Reads minor ts r r₁ ids) (h':Reads minor us r₁ r' ids') :
    Reads minor (ts++us) r r' (ids++ids'):=by
  obtain ⟨new,hnew,hmarks⟩:=h.marks
  obtain ⟨new',hnew',hmarks'⟩:=h'.marks
  have hrefs : r₁.refs <+: r'.refs:=⟨new',hnew'.symm⟩
  refine ⟨h.grown.trans h'.grown,h'.named,?_,⟨new++new',?_,?_⟩,?_⟩
  · rw [h'.p,h.p,encodeAll_append,length_append,Nat.add_assoc]
  · rw [hnew',hnew,append_assoc]
  · rw [marksAll_append]
    exact shownAll_append (.mono (fresh_first h'.grown) hrefs _ hmarks)
      (.mono (fresh_rest h.grown) (prefix_refl _) _ hmarks')
  · exact shownAll_append (.mono (fresh_first h'.grown) hrefs _ h.shown)
      (.mono (fresh_rest h.grown) (prefix_refl _) _ h'.shown)

/-- The reader may have gone on over bytes that are no object. -/
theorem Past.named {n:ℕ} (h:Past r r' n) (hr:Named r) : Named r':=by
  intro id hid
  rw [h.refs] at hid
  rw [h.heap]
  exact hr id hid

theorem named_reserved (h:Named r) {k:K} (hk:k≠.nullTag) (ref:Bool) :
    Named (r.reserved k ref):=by
  have hold : ∀id∈r.refs,∃n,(r.reserved k ref).heap[id]? = some n ∧ n.k≠.nullTag:=by
    intro id hid
    obtain ⟨n,hn,hnk⟩:=h id hid
    exact ⟨n,lookup_of_grown (prefix_append _ _) hn,hnk⟩
  intro id hid
  change id ∈ (if ref then r.refs++[r.heap.length] else r.refs) at hid
  split_ifs at hid
  · rcases mem_append.mp hid with hid | hid
    · exact hold id hid
    · rw [mem_singleton.mp hid]
      exact ⟨{ k },getElem?_concat_length,hk⟩
  · exact hold id hid

theorem named_filled (h:Named r) {k:K} (hk:k≠.nullTag) (id:ℕ) (n:Node) :
    Named (r.filled id {n with k:=k}):=by
  intro i hi
  obtain ⟨m,hm,hmk⟩:=h i hi
  change ∃m,(r.heap.set id {n with k:=k})[i]? = some m ∧ m.k≠.nullTag
  rcases Decidable.eq_or_ne id i with rfl | hne
  · exact ⟨_,getElem?_set_self (List.getElem?_eq_some_iff.mp hm).1,hk⟩
  · exact ⟨m,by rw [getElem?_set_ne hne,hm],hmk⟩

/-- An object around what its content makes. -/
theorem reads_withNode {k:K} {ref:Bool} {body:ReadM Node} {t:Written} {inner:List Written}
    {q:Reader} {new:List ℕ} (hk:k≠.nullTag)
    (hgrown:Grown q (r₁.filled r.heap.length {n with k:=k})) (hheap:q.heap=r.heap)
    (hrefs:q.refs=r.refs) (hbody:Ran body (r.reserved k ref) n r₁)
    (hin:Grown (r.reserved k ref) r₁) (hnamed:Named r₁)
    (hp:r₁.p=q.p+(t.encode minor).length) (hnew:r₁.refs=(r.reserved k ref).refs++new)
    (hmarks:Written.ShownAll minor (fresh (r.reserved k ref) r₁) r₁.refs inner new)
    (ht:t.marks = marked ref t++inner)
    (hself:∀L : ℕ → Option Node,(∀id m,fresh (r.reserved k ref) r₁ id=some m → L id=some m) →
        L r.heap.length = some {n with k:=k} → t.Shown minor L r₁.refs r.heap.length) :
    Ran (withNode k ref body) r r.heap.length (r₁.filled r.heap.length {n with k:=k}) ∧
      Reads minor [t] q (r₁.filled r.heap.length {n with k:=k}) [r.heap.length]:=by
  have hlen : (r.reserved k ref).heap.length=r.heap.length+1:=length_append
  have hlt : r.heap.length < r₁.heap.length:=by
    have:=hin.heap.length_le
    omega
  have hmore : ∀id m,fresh (r.reserved k ref) r₁ id=some m →
      fresh q (r₁.filled r.heap.length {n with k:=k}) id = some m:=by
    intro id m hm
    obtain ⟨hle,hm⟩:=fresh_of_some hm
    rw [fresh,hheap,if_pos (by omega)]
    exact (getElem?_set_ne (by omega)).trans hm
  have hown : fresh q (r₁.filled r.heap.length {n with k:=k}) r.heap.length =
      some {n with k:=k}:=by
    rw [fresh,hheap,if_pos (Nat.le_refl _)]
    exact getElem?_set_self hlt
  have hshown:=hself _ hmore hown
  refine ⟨ran_withNode.mpr ⟨n,r₁,hbody,rfl,rfl⟩,hgrown,named_filled hnamed hk _ n,?_,
    ⟨(if ref then [r.heap.length] else [])++new,?_,?_⟩,⟨_,[],rfl,hshown,rfl⟩⟩
  · rw [Written.encodeAll,Written.encodeAll,append_nil]
    exact hp
  · rw [hrefs]
    refine hnew.trans ?_
    change (if ref then r.refs++[r.heap.length] else r.refs)++new = _
    cases ref
    · rfl
    · rw [if_pos rfl,if_pos rfl,append_assoc]
  · rw [Written.marksAll,Written.marksAll,append_nil,ht]
    refine shownAll_append ?_ (.mono hmore (prefix_refl _) _ hmarks)
    cases ref
    · rfl
    · exact ⟨_,[],rfl,hshown,rfl⟩

theorem run_obj {levels:ℕ} {ref:Bool} {tag:Char} (htag:tag.toNat<128)
    (hnext:Next r [taggedByte ref tag])
    (h:Ran (typed .source (obj .source levels) r.p ref tag.toNat) (r.after 1) id r') :
    Ran (obj .source (levels+1)) r id r':=by
  have hbyte : littleEndian [taggedByte ref tag] = tag.toNat+(if ref then 128 else 0):=by
    rw [littleEndian,littleEndian,taggedByte]
    have hplain : (byte tag).toNat=tag.toNat:=by
      unfold byte
      exact Nat.mod_eq_of_lt (by omega)
    cases ref
    · rw [if_neg Bool.false_ne_true,if_neg Bool.false_ne_true,hplain]
    · rw [if_pos rfl,if_pos rfl,UInt8.toNat_add,hplain]
      change (tag.toNat+128) % 256 + 256*0 = _
      omega
  have hread : Ran u8 r (littleEndian [taggedByte ref tag]) (r.after 1):=by
    refine ran_bind.mpr ⟨_,_,(ran_readBytes hnext.room).mpr ⟨rfl,rfl⟩,?_⟩
    rw [show r.window [taggedByte ref tag].length = [taggedByte ref tag] from hnext.window]
    rfl
  have htagByte : Ran tagByte r (tag.toNat+(if ref then 128 else 0)) (r.after 1):=by
    rw [← hbyte]
    exact ran_bind.mpr ⟨(),r,run_check hnext.room,hread⟩
  refine ran_bind.mpr ⟨r.p,r,rfl,ran_bind.mpr ⟨_,_,htagByte,?_⟩⟩
  have hmark : decide (128≤tag.toNat+(if ref then 128 else 0)) = ref:=by
    cases ref
    · exact decide_eq_false (by rw [if_neg Bool.false_ne_true];omega)
    · exact decide_eq_true (by rw [if_pos rfl];omega)
  have hrest : (tag.toNat+(if ref then 128 else 0)) % 128 = tag.toNat:=by
    cases ref
    · rw [if_neg Bool.false_ne_true]
      omega
    · rw [if_pos rfl]
      omega
  rw [hmark,hrest]
  exact h

/-- The reader gives an object back from where it is written. -/
def Inverts (minor : ℤ) (t : Written) : Prop :=
  ∀ levels r, r.minor=minor → Named r → t.Formed minor levels r.refs.length →
    Next r (t.encode minor) →
      ∃ id r', Ran (obj .source levels) r id r' ∧ Reads minor [t] r r' [id]

end

end AutoRefirst.PythonMarshal
