import AutoRefirst.FlutterCodec
import Mathlib.Data.List.Find

/-!
# Decoding what was encoded

The decoder gives back each value from its encoding with the padding it asks for, and takes no
proper prefix of what it takes.
-/

namespace AutoRefirst.Flutter
open List Except

section
variable {α β : Type} {d : Bytes} {s s' : State}

theorem bind_of_ok {m:Read α} {f:α→Read β} {a:α} (h:m s=.ok (a,s')) :
    (m >>= f) s=f a s':=by
  show (m s >>= fun x=>f x.1 x.2) = _
  rw [h]
  rfl

/-- The state behind `n` bytes. -/
def State.skip (s : State) (n : ℕ) : State := {s with pos:=s.pos+n}

theorem skip_skip (s:State) (m n:ℕ) : (s.skip m).skip n=s.skip (m+n):=by
  rw [State.skip,State.skip,State.skip,Nat.add_assoc]

theorem prefix_append_iff (a b:Bytes) (pos:ℕ) :
    a++b <+: d.drop pos ↔ a <+: d.drop pos ∧ b <+: d.drop (pos+a.length):=by
  constructor
  · rintro ⟨rest,h⟩
    rw [append_assoc] at h
    refine ⟨⟨b++rest,h⟩,rest,?_⟩
    rw [← drop_drop,← h,drop_left]
  · rintro ⟨⟨rest,h⟩,rest',h'⟩
    refine ⟨rest',?_⟩
    rw [← drop_drop,← h,drop_left] at h'
    rw [append_assoc,h',h]

variable {b : Bytes}

theorem le_of_next {pos:ℕ} (hpos:pos≤d.length) (h:b <+: d.drop pos) :
    pos + b.length ≤ d.length:=by
  have hlen:=h.length_le
  rw [length_drop] at hlen
  omega

variable {n : ℕ}

theorem take_run (message:String) (h:b <+: d.drop s.pos) (hn:b.length=n) :
    take d n message s=.ok (b,s.skip n):=by
  have hlen:=h.length_le
  rw [length_drop] at hlen
  obtain ⟨rest,hrest⟩:=h
  rw [take,if_pos (by omega),← hrest,take_left' hn]
  rfl

theorem le_aligned (hn:0<n) (pos:ℕ) : pos≤aligned n pos:=by
  have hdiv:=Nat.div_add_mod (pos+n-1) n
  have hmod:=Nat.mod_lt (pos+n-1) hn
  rw [aligned,Nat.mul_comm]
  omega

theorem padding_length (hn:0<n) (pos:ℕ) : pos + (padding n pos).length = aligned n pos:=by
  rw [padding,length_replicate]
  exact Nat.add_sub_cancel' (le_aligned hn pos)

theorem align_run (hn:0<n) (hpos:s.pos≤d.length) (h:padding n s.pos <+: d.drop s.pos) :
    align d n s=.ok ((),s.skip (padding n s.pos).length):=by
  have hle:=le_of_next hpos h
  rw [padding_length hn] at hle
  obtain ⟨rest,hrest⟩:=h
  have hnone : ((range' s.pos (aligned n s.pos - s.pos)).find? fun p=>d.getD p 0≠0) =
      none:=by
    rw [find?_eq_none]
    intro p hp
    obtain ⟨hlo,hhi⟩:=mem_range'_1.mp hp
    have hzero : (d.drop s.pos)[p-s.pos]? = some 0:=by
      rw [← hrest,getElem?_append_left (by rw [padding,length_replicate];omega),
        padding,getElem?_replicate,if_pos (by omega)]
    rw [getElem?_drop,Nat.add_sub_cancel' hlo] at hzero
    rw [getD_eq_getElem?_getD,hzero]
    decide
  unfold align
  simp only [hnone]
  rw [if_neg (Nat.not_lt.mpr hle),State.skip,padding_length hn]

theorem toBytes_length (n v:ℕ) : (toBytes n v).length=n:=by
  induction n generalizing v with
  | zero=>rfl
  | succ n ih=>rw [toBytes,length_cons,ih]

theorem littleEndian_toBytes {v:ℕ} (h:v<256^n) : littleEndian (toBytes n v)=v:=by
  induction n generalizing v with
  | zero=>
    rw [Nat.pow_zero] at h
    rw [toBytes,littleEndian]
    omega
  | succ n ih=>
    rw [Nat.pow_succ] at h
    have hbyte : (v % 256).toUInt8.toNat = v % 256:=Nat.mod_eq_of_lt (Nat.mod_lt v (by decide))
    rw [toBytes,littleEndian,ih (by omega),hbyte]
    omega

theorem number_run {v:ℕ} (hn:0<n) (hv:v<256^n) (what:String) (hpos:s.pos≤d.length)
    (h:padding n s.pos++toBytes n v <+: d.drop s.pos) :
    number d n what s=.ok (v,s.skip (padding n s.pos++toBytes n v).length):=by
  obtain ⟨hpad,hbytes⟩:=(prefix_append_iff _ _ _).mp h
  have htake:=take_run (s:=s.skip (padding n s.pos).length)
    ("truncated StandardMessageCodec "++what) hbytes (toBytes_length n v)
  rw [number,bind_of_ok (align_run hn hpos hpad),bind_of_ok htake,littleEndian_toBytes hv,
    skip_skip,length_append,toBytes_length]
  rfl

theorem u8_run {x:ℕ} (hx:x<256) (h:[x.toUInt8] <+: d.drop s.pos) :
    u8 d s=.ok (x,s.skip 1):=by
  have hbyte : littleEndian [x.toUInt8]=x:=by
    rw [littleEndian,littleEndian]
    exact Nat.mod_eq_of_lt hx
  have htake:=take_run (n:=1) "truncated StandardMessageCodec byte" h rfl
  rw [u8,bind_of_ok htake,hbyte]
  rfl

theorem size_run (hn:n<2^32) (hpos:s.pos≤d.length) (h:encodeSize true s.pos n <+: d.drop s.pos) :
    size d s=.ok (n,s.skip (encodeSize true s.pos n).length):=by
  unfold encodeSize at h ⊢
  unfold size
  by_cases hsmall : n<254
  · rw [if_pos hsmall] at h ⊢
    rw [bind_of_ok (u8_run (by omega) h),if_pos hsmall]
    rfl
  rw [if_neg hsmall] at h ⊢
  by_cases hmiddle : n<2^16
  · rw [if_pos hmiddle,← singleton_append] at h ⊢
    obtain ⟨htag,hrest⟩:=(prefix_append_iff _ _ _).mp h
    have hnumber:=number_run (s:=s.skip 1) (by decide) hmiddle "uint16"
      (le_of_next hpos htag) hrest
    rw [bind_of_ok (u8_run (x:=254) (by decide) htag),if_neg (by decide),if_pos rfl,u16,hnumber,
      skip_skip]
    exact congrArg (fun k=>Except.ok (n,s.skip k)) (Nat.add_comm _ _)
  · rw [if_neg hmiddle,← singleton_append] at h ⊢
    obtain ⟨htag,hrest⟩:=(prefix_append_iff _ _ _).mp h
    have hnumber:=number_run (s:=s.skip 1) (by decide) hn "uint32"
      (le_of_next hpos htag) hrest
    rw [bind_of_ok (u8_run (x:=255) (by decide) htag),if_neg (by decide),if_neg (by decide),u32,
      hnumber,skip_skip]
    exact congrArg (fun k=>Except.ok (n,s.skip k)) (Nat.add_comm _ _)

theorem toSigned_mod (bits:ℕ) {i:ℤ} (hbits:0<bits) (h:-2^(bits-1) ≤ i ∧ i<2^(bits-1)) :
    toSigned bits (i % 2^bits).toNat=i:=by
  have hpow : (2 : ℤ)^bits=2*2^(bits-1):=by
    rw [← pow_succ',Nat.sub_add_cancel hbits]
  have hcast : ((2^bits : ℕ) : ℤ)=2^bits:=by
    push_cast
    rfl
  unfold toSigned
  rcases lt_or_ge i 0 with hneg | hnonneg
  · have hmod : i % 2^bits = i+2^bits:=by
      rw [← Int.add_emod_right,Int.emod_eq_of_lt (by omega) (by omega)]
    rw [hmod,if_neg (by omega),Int.toNat_of_nonneg (by omega)]
    omega
  · rw [Int.emod_eq_of_lt hnonneg (by omega),if_pos (by omega),Int.toNat_of_nonneg hnonneg]

/-- What a run has read and added to the budgets. -/
def State.add (s : State) (len nodes stringBytes : ℕ) : State :=
  {pos:=s.pos+len,nodes:=s.nodes+nodes,stringBytes:=s.stringBytes+stringBytes}

theorem validUtf8_iff (b:Bytes) :
    Utf8Copies.flutterValidUtf8 b=true ↔ Utf8Copies.WellFormed b:=by
  unfold Utf8Copies.flutterValidUtf8
  rw [Utf8Copies.strict_eq,Utf8Copies.isUtf8_iff]

theorem bytes_run (hb:b.length<2^32) (message:String) (hpos:s.pos≤d.length)
    (h:encodeBytes true s.pos b <+: d.drop s.pos) :
    (do
      let n ← size d
      take d n message) s = .ok (b,s.skip (encodeBytes true s.pos b).length):=by
  obtain ⟨hsize,hbytes⟩:=(prefix_append_iff _ _ _).mp h
  have htake:=take_run (s:=s.skip (encodeSize true s.pos b.length).length) message hbytes rfl
  rw [bind_of_ok (size_run hb hpos hsize),htake,skip_skip,encodeBytes,length_append]

theorem string_run (hb:Utf8Copies.WellFormed b)
    (hroom:s.stringBytes+b.length≤kMaxStringBytes) (hpos:s.pos≤d.length)
    (h:encodeBytes true s.pos b <+: d.drop s.pos) :
    string d s=.ok (b,s.add (encodeBytes true s.pos b).length 0 b.length):=by
  obtain ⟨hsize,hbytes⟩:=(prefix_append_iff _ _ _).mp h
  have hlt : b.length<2^32:=by
    change s.stringBytes + b.length≤67108864 at hroom
    omega
  have htake:=take_run (s:=s.skip (encodeSize true s.pos b.length).length)
    "truncated StandardMessageCodec string" hbytes rfl
  have hget : (get:Read State) (s.skip (encodeSize true s.pos b.length).length) =
      .ok (s.skip (encodeSize true s.pos b.length).length,
        s.skip (encodeSize true s.pos b.length).length):=rfl
  have hroom' : ¬b.length >
      kMaxStringBytes - (s.skip (encodeSize true s.pos b.length).length).stringBytes:=by
    change ¬b.length > kMaxStringBytes-s.stringBytes
    omega
  rw [string,bind_of_ok (size_run hlt hpos hsize),bind_of_ok hget,if_neg hroom',
    bind_of_ok htake,if_pos ((validUtf8_iff b).mpr hb),skip_skip,← length_append]
  rfl

theorem flatMap_toBytes_length (w:ℕ) (elements:List ℕ) :
    (elements.flatMap (toBytes w)).length = elements.length*w:=by
  induction elements with
  | nil=>exact (Nat.zero_mul w).symm
  | cons x elements ih=>
    rw [flatMap_cons,length_append,toBytes_length,ih,length_cons,Nat.succ_mul, Nat.add_comm]

theorem width_pos (t:Typed) : 0<t.width:=by
  cases t <;> decide

theorem typedList_run (t:Typed) {elements:List ℕ} (hlen:elements.length<2^32)
    (hpos:s.pos≤d.length) (h:encodeTyped true s.pos t elements <+: d.drop s.pos) :
    typedList d t s=.ok (.typed t,s.skip (encodeTyped true s.pos t elements).length):=by
  unfold encodeTyped at h ⊢
  obtain ⟨hsize,hrest⟩:=(prefix_append_iff _ _ _).mp h
  obtain ⟨hpad,helements⟩:=(prefix_append_iff _ _ _).mp hrest
  have halign:=align_run (s:=s.skip (encodeSize true s.pos elements.length).length)
    (width_pos t) (le_of_next hpos hsize) hpad
  have htake:=take_run (n:=elements.length*t.width)
    (s:=(s.skip (encodeSize true s.pos elements.length).length).skip
      (padding t.width (s.skip (encodeSize true s.pos elements.length).length).pos).length)
    "truncated StandardMessageCodec typed list" helements (flatMap_toBytes_length _ _)
  rw [typedList,bind_of_ok (size_run hlen hpos hsize),bind_of_ok halign,bind_of_ok htake,
    skip_skip,skip_skip,← flatMap_toBytes_length,← length_append,
    ← length_append]
  rfl

/-- The tag of a value without parts and what follows it. -/
def Field.tag : Field → ℕ
  | .null => 0
  | .boolean b => if b then 1 else 2
  | .int32 _ => 3
  | .int64 _ => 4
  | .double _ => 6
  | .string _ => 7
  | .bytes _ => 8
  | .typed t _ => t.tag.toNat

def Field.payload (pos : ℕ) : Field → Bytes
  | .null | .boolean _ => []
  | .int32 i => padding 4 pos ++ toBytes 4 (i % 2^32).toNat
  | .int64 i => padding 8 pos ++ toBytes 8 (i % 2^64).toNat
  | .double bits => padding 8 pos ++ toBytes 8 bits
  | .string s => encodeBytes true pos s
  | .bytes b => encodeBytes true pos b
  | .typed t elements => encodeTyped true pos t elements

theorem encode_eq (x:Field) (pos:ℕ) :
    x.encode true pos = [x.tag.toUInt8]++x.payload (pos+1):=by
  cases x with
  | boolean b=>cases b <;> rfl
  | typed t elements=>cases t <;> rfl
  | _=>rfl

theorem scalar_run {x:Field} (hx:x.Formed) (tagOff:ℕ)
    (hroom:s.stringBytes+x.stringBytes≤kMaxStringBytes) (hpos:s.pos≤d.length)
    (h:x.payload s.pos <+: d.drop s.pos) :
    scalar d x.tag tagOff s =
      .ok (x.decoded,s.add (x.payload s.pos).length 0 x.stringBytes):=by
  cases x with
  | null=>rfl
  | boolean b=>cases b <;> rfl
  | int32 i=>
    have hlt : (i % 2^32).toNat<256^4:=by omega
    change (u32 d >>= fun v=>pure (Scalar.integer (toSigned 32 v))) s=_
    rw [u32,bind_of_ok (number_run (by decide) hlt "uint32" hpos h),toSigned_mod 32 (by decide) hx]
    rfl
  | int64 i=>
    have hlt : (i % 2^64).toNat<256^8:=by omega
    change (u64 d >>= fun v=>pure (Scalar.integer (toSigned 64 v))) s=_
    rw [u64,bind_of_ok (number_run (by decide) hlt "uint64" hpos h),toSigned_mod 64 (by decide) hx]
    rfl
  | double bits=>
    change double d tagOff s=_
    rw [double,u64,bind_of_ok (number_run (by decide) hx.1 "uint64" hpos h),if_pos hx.2]
    rfl
  | string b=>
    change (string d >>= fun v=>pure (Scalar.string v)) s=_
    rw [bind_of_ok (string_run hx hroom hpos h)]
    rfl
  | bytes b=>
    change (size d >>= fun n=>take d n "truncated StandardMessageCodec uint8 list" >>= fun v=>
      pure (Scalar.bytes v)) s=_
    have hrun:=bytes_run hx "truncated StandardMessageCodec uint8 list" hpos h
    rw [← bind_assoc,bind_of_ok hrun]
    rfl
  | typed t elements=>
    have hrun:=typedList_run t hx.1 hpos h
    cases t with
    | int32=>exact hrun
    | int64=>exact hrun
    | float64=>exact hrun
    | float32=>exact hrun

theorem add_add (s:State) (l m n l' m' n':ℕ) :
    (s.add l m n).add l' m' n'=s.add (l+l') (m+m') (n+n'):=by
  rw [State.add,State.add,State.add,Nat.add_assoc,Nat.add_assoc,Nat.add_assoc]

theorem skip_eq (s:State) (n:ℕ) : s.skip n=s.add n 0 0:=rfl

theorem countNode_run (h:s.nodes+1≤kMaxNodes) : countNode s=.ok ((),s.add 0 1 0):=by
  unfold countNode
  exact if_neg (Nat.not_lt.mpr h)

theorem get_run (s:State) : (get:Read State) s=.ok (s,s):=rfl

theorem field_tag (x:Field) : x.tag<12 ∨ x.tag=14:=by
  cases x with
  | boolean b=>cases b <;> decide
  | typed t elements=>cases t <;> simp [Field.tag,Typed.tag]
  | _=>simp [Field.tag]

/-- Nothing is read for what is not there to be counted. -/
theorem length_le_nodesAll (items:List Message) : items.length≤Tree.nodesAll items:=by
  induction items with
  | nil=>exact Nat.le_refl _
  | cons v vs ih=>
    have hv : 1≤v.nodes:=by
      cases v with
      | leaf x=>exact Nat.le_refl _
      | branch map items=>exact Nat.le_add_right _ _
    rw [length_cons,Tree.nodesAll]
    omega

/-- The run of the decoder over the encoding of a value that stands at its position. -/
def Inverts (d : Bytes) (levels : ℕ) (v : Message) : Prop :=
  ∀ s : State, s.pos≤d.length → s.nodes+v.nodes≤kMaxNodes →
    s.stringBytes + v.stringBytes ≤ kMaxStringBytes → v.encode true s.pos <+: d.drop s.pos →
    readValue d levels s =
      .ok (v.decoded,s.add (v.encode true s.pos).length v.nodes v.stringBytes)

theorem leaf_inverts {x:Field} (hx:x.Formed) (levels:ℕ) : Inverts d (levels+1) (.leaf x):=by
  intro s hpos hnodes hroom h
  rw [Tree.encode,encode_eq] at h ⊢
  obtain ⟨htag,hpayload⟩:=(prefix_append_iff _ _ _).mp h
  have hcases:=field_tag x
  have hleaf : ¬(x.tag=12 ∨ x.tag=13):=by omega
  have hstart : [x.tag.toUInt8] <+: d.drop (s.add 0 1 0).pos:=htag
  have hscalar:=scalar_run (s:=(s.add 0 1 0).skip 1) hx (s.add 0 1 0).pos hroom
    (le_of_next hpos htag) hpayload
  rw [readValue,bind_of_ok (countNode_run hnodes),bind_of_ok (get_run _),
    bind_of_ok (u8_run (by omega) hstart),if_neg hleaf,bind_of_ok hscalar,skip_eq,add_add,
    add_add,length_append]
  simp only [Nat.zero_add]
  rfl

variable {levels : ℕ}

theorem items_run : ∀ {items:List Message},(∀v∈items,Inverts d levels v) →
    ∀s : State,s.pos≤d.length → s.nodes + Tree.nodesAll items ≤ kMaxNodes →
      s.stringBytes + Tree.stringBytesAll items ≤ kMaxStringBytes →
      Tree.encodeAll true s.pos items <+: d.drop s.pos →
      readItems (readValue d levels) items.length s =
        .ok (Tree.decodedAll items,s.add (Tree.encodeAll true s.pos items).length
          (Tree.nodesAll items) (Tree.stringBytesAll items)):=by
  intro items
  induction items with
  | nil=>
    intro _ s _ _ _ _
    rfl
  | cons v vs ih=>
    intro hall s hpos hnodes hroom h
    rw [Tree.encodeAll] at h ⊢
    rw [Tree.nodesAll] at hnodes
    rw [Tree.stringBytesAll] at hroom
    obtain ⟨hv,hvs⟩:=(prefix_append_iff _ _ _).mp h
    have hone:=hall v mem_cons_self s hpos (by omega) (by omega) hv
    have hrest:=ih (fun w hw=>hall w (mem_cons_of_mem v hw))
      (s.add (v.encode true s.pos).length v.nodes v.stringBytes) (le_of_next hpos hv)
      (by change s.nodes + v.nodes + _ ≤ _;omega)
      (by change s.stringBytes + v.stringBytes + _ ≤ _;omega) hvs
    rw [length_cons,readItems,bind_of_ok hone,bind_of_ok hrest,add_add,length_append]
    rfl

theorem partCount_run {map:Bool} (hn:n<2^32) (hpos:s.pos≤d.length)
    (h:encodeSize true s.pos n <+: d.drop s.pos)
    (hroom:s.nodes+(if map then n*2 else n)≤kMaxNodes) :
    partCount d map s =
      .ok (if map then n*2 else n,s.skip (encodeSize true s.pos n).length):=by
  have hroom' : ¬(if map then n*2 else n) >
      kMaxNodes - (s.skip (encodeSize true s.pos n).length).nodes:=by
    change ¬_ > kMaxNodes-s.nodes
    omega
  rw [partCount,bind_of_ok (size_run hn hpos h),bind_of_ok (get_run _)]
  exact congrFun (if_neg hroom') _

theorem branch_inverts {map:Bool} {items:List Message}
    (heven:map=true → items.length % 2=0) (hall:∀v∈items,Inverts d levels v) :
    Inverts d (levels+1) (.branch map items):=by
  intro s hpos hnodes hroom h
  rw [Tree.nodes] at hnodes ⊢
  rw [Tree.encode] at h ⊢
  obtain ⟨hhead,hitems⟩:=(prefix_append_iff _ _ _).mp h
  rw [← singleton_append] at hhead
  obtain ⟨htag,hsize⟩:=(prefix_append_iff _ _ _).mp hhead
  have hlen:=length_le_nodesAll items
  have hmax : kMaxNodes<2^32:=by decide
  have hstart : [if map then (13 : UInt8) else 12] <+: d.drop (s.add 0 1 0).pos:=htag
  have hbyte : (if map then (13 : UInt8) else 12)=(if map then 13 else 12:ℕ).toUInt8:=by
    cases map <;> rfl
  rw [hbyte] at hstart
  have hcount : entryCount map items<2^32:=by
    unfold entryCount
    split_ifs <;> omega
  have hparts : (if map then entryCount map items * 2 else entryCount map items)=items.length:=by
    unfold entryCount
    cases map with
    | true=>
      have:=heven rfl
      change items.length / 2 * 2 = items.length
      omega
    | false=>rfl
  have hkind : decide ((if map then 13 else 12:ℕ)=13) = map:=by cases map <;> rfl
  have hbranch : (if map then 13 else 12:ℕ)=12 ∨ (if map then 13 else 12:ℕ)=13:=by
    cases map
    · exact .inl rfl
    · exact .inr rfl
  have hroomParts : (s.add 0 1 0).nodes +
      (if map then entryCount map items * 2 else entryCount map items) ≤ kMaxNodes:=by
    rw [hparts]
    change s.nodes + 1 + _ ≤ _
    omega
  have hparts' : partCount d map ((s.add 0 1 0).skip 1)=_:=
    partCount_run hcount (le_of_next hpos htag) hsize hroomParts
  rw [hparts] at hparts'
  have hrun : partCount d map ((s.add 0 1 0).skip 1) = .ok (items.length,
      ((s.add 0 1 0).skip 1).skip (encodeSize true (s.pos+1) (entryCount map items)).length):=
    hparts'
  have hbehind : s.pos+((if map then 13 else 12) ::
      encodeSize true (s.pos+1) (entryCount map items) : Bytes).length =
      (((s.add 0 1 0).skip 1).skip
        (encodeSize true (s.pos+1) (entryCount map items)).length).pos:=by
    rw [length_cons]
    change _ = s.pos+0+1+_
    omega
  have hend:=le_of_next hpos hhead
  rw [singleton_append,hbehind] at hend
  rw [hbehind] at hitems ⊢
  have hitemsRun:=items_run hall
    (((s.add 0 1 0).skip 1).skip (encodeSize true (s.pos+1) (entryCount map items)).length)
    hend (by change s.nodes + 1 + _ ≤ _;omega) hroom hitems
  rw [readValue,bind_of_ok (countNode_run (by omega)),bind_of_ok (get_run _),
    bind_of_ok (u8_run (by cases map <;> decide) hstart),if_pos hbranch,hkind,bind_of_ok hrun,
    bind_of_ok hitemsRun,skip_eq,skip_eq,add_add,add_add,add_add,length_append,
    length_cons]
  simp only [Nat.zero_add]
  rw [← Nat.add_assoc 1,Nat.add_comm 1 (encodeSize true (s.pos+1) (entryCount map items)).length]
  rfl

/-- The decoder gives back each value of its levels. -/
theorem formed_inverts {v:Message} (h:Formed levels v) : Inverts d levels v:=by
  induction h with
  | leaf hx=>exact leaf_inverts hx _
  | branch heven _ ih=>exact branch_inverts heven ih

end

/-- The budgets of the decoder. -/
structure Within (v : Message) : Prop where
  formed : Formed (kMaxDepth+1) v
  nodes : v.nodes≤kMaxNodes
  stringBytes : v.stringBytes≤kMaxStringBytes

theorem decode_strict {v:Message} (h:Within v) : decode (v.encode true 0) =
      .ok (v.decoded,⟨(v.encode true 0).length,v.nodes,v.stringBytes⟩):=by
  have hrun:=formed_inverts (d:=v.encode true 0) h.formed {} (Nat.zero_le _)
    (by rw [Nat.zero_add];exact h.nodes) (by rw [Nat.zero_add];exact h.stringBytes)
    (prefix_refl _)
  have hstate : State.add {} (v.encode true 0).length v.nodes v.stringBytes =
      ⟨(v.encode true 0).length,v.nodes,v.stringBytes⟩:=by
    rw [State.add]
    simp only [Nat.zero_add]
  unfold decode
  rw [hrun]
  simp only [hstate]
  exact if_neg (not_not.mpr rfl)

end AutoRefirst.Flutter

/-!
## What the asset-manifest codec promises

The decoder takes no proper prefix of what it takes. It gives back a value from its encoding where
no number needs padding that only the decoder asks for.
-/

namespace AutoRefirst.Flutter
open List Except

/-- A step that ends inside its input does the same with more bytes behind it. -/
def Extends {α : Type} (m : Bytes→Read α) : Prop :=
  ∀ (d x : Bytes) (s s' : State) (a : α), s.pos≤d.length → m d s = .ok (a,s') →
    m (d++x) s = .ok (a,s') ∧ s'.pos≤d.length

section
variable {α β : Type}

theorem bind_eq_ok {m:Read α} {f:α→Read β} {s s':State} {b:β} :
    (m >>= f) s=.ok (b,s') ↔ ∃a s₁,m s=.ok (a,s₁) ∧ f a s₁=.ok (b,s'):=by
  constructor
  · intro h
    cases hm : m s with
    | error e=>
      have herror : (m >>= f) s=.error e:=by
        show (m s >>= fun x=>f x.1 x.2) = _
        rw [hm]
        rfl
      rw [herror] at h
      cases h
    | ok x=>exact ⟨x.1,x.2,rfl,by rwa [bind_of_ok hm] at h⟩
  · rintro ⟨a,s₁,hm,hf⟩
    rwa [bind_of_ok hm]

theorem Extends.bind {m:Bytes→Read α} {f:Bytes→α→Read β} (h:Extends m)
    (hf:∀a,Extends fun d=>f d a) : Extends fun d=>m d >>= f d:=by
  intro d x s s' b hpos hrun
  obtain ⟨a,s₁,hm,hrest⟩:=bind_eq_ok.mp hrun
  obtain ⟨hm',hpos₁⟩:=h d x s s₁ a hpos hm
  obtain ⟨hrest',hpos'⟩:=hf a d x s₁ s' b hpos₁ hrest
  exact ⟨bind_eq_ok.mpr ⟨a,s₁,hm',hrest'⟩,hpos'⟩

theorem extends_pure (a:α) : Extends fun _=>(pure a:Read α):=by
  intro d x s s' b hpos hrun
  obtain ⟨rfl,rfl⟩:=Prod.mk.inj (ok.inj hrun)
  exact ⟨rfl,hpos⟩

theorem extends_get : Extends fun _=>(get:Read State):=by
  intro d x s s' b hpos hrun
  obtain ⟨rfl,rfl⟩:=Prod.mk.inj (ok.inj hrun)
  exact ⟨rfl,hpos⟩

theorem Extends.ite {c:Prop} [Decidable c] {m m':Bytes→Read α} (h:Extends m)
    (h':Extends m') : Extends fun d=>if c then m d else m' d:=by
  split_ifs
  · exact h
  · exact h'

theorem extends_fail (message:String) : Extends fun _=>(fail message:Read α):=by
  intro d x s s' b _ hrun
  cases hrun

theorem extends_failAt (message:String) (offset:ℕ) :
    Extends fun _=>(failAt message offset:Read α):=by
  intro d x s s' b _ hrun
  cases hrun

theorem extends_take (n:ℕ) (message:String) : Extends fun d=>take d n message:=by
  intro d x s s' b hpos hrun
  dsimp only [take] at hrun ⊢
  split_ifs at hrun with hn
  · obtain ⟨rfl,rfl⟩:=Prod.mk.inj (ok.inj hrun)
    rw [if_pos (by rw [length_append];omega),drop_append_of_le_length hpos,
      take_append_of_le_length (by rw [length_drop];exact hn)]
    exact ⟨rfl,by change s.pos + n ≤ _;omega⟩

theorem extends_align (n:ℕ) : Extends fun d=>align d n:=by
  intro d x s s' b hpos hrun
  dsimp only [align] at hrun ⊢
  split_ifs at hrun with hn
  have hsame : ((range' s.pos (aligned n s.pos - s.pos)).find? fun p=>
      (d++x).getD p 0≠0) =
      (range' s.pos (aligned n s.pos - s.pos)).find? fun p=>d.getD p 0≠0:=by
    refine find?_congr ?_
    intro p hp
    obtain ⟨-,hlt⟩:=mem_range'_1.mp hp
    rw [getD_append _ _ _ _ (by omega)]
  rw [if_neg (by rw [length_append];omega),hsame]
  split at hrun
  · cases hrun
  · obtain ⟨rfl,rfl⟩:=Prod.mk.inj (ok.inj hrun)
    exact ⟨rfl,Nat.not_lt.mp hn⟩

theorem extends_u8 : Extends u8:=(extends_take 1 _).bind fun _=>extends_pure _

theorem extends_number (n:ℕ) (what:String) : Extends fun d=>number d n what:=
  (extends_align n).bind fun _=>(extends_take n _).bind fun _=>extends_pure _

theorem extends_size : Extends size:=
  extends_u8.bind fun _ => .ite (extends_pure _) (.ite (extends_number 2 _) (extends_number 4 _))

theorem extends_modify (f:State→State) (hf:∀s,(f s).pos=s.pos) :
    Extends fun _=>(modify f:Read PUnit):=by
  intro d x s s' b hpos hrun
  obtain ⟨rfl,rfl⟩:=Prod.mk.inj (ok.inj hrun)
  exact ⟨rfl,by rw [hf];exact hpos⟩

theorem extends_string : Extends string:=
  extends_size.bind fun n=>extends_get.bind fun _ => .ite (extends_fail _)
    ((extends_take n _).bind fun _ => .ite
      ((extends_modify (fun s=>{s with stringBytes:=s.stringBytes+n}) fun _=>rfl).bind
        fun _=>extends_pure _) (extends_failAt _ _))

theorem extends_typedList (t:Typed) : Extends fun d=>typedList d t:=
  extends_size.bind fun _=>(extends_align _).bind fun _=>(extends_take _ _).bind fun _=>
    extends_pure _

theorem extends_scalar (tag tagOff:ℕ) : Extends fun d=>scalar d tag tagOff:=by
  unfold scalar
  refine .ite (extends_pure _) (.ite (extends_pure _) (.ite (extends_pure _) ?_))
  refine .ite ((extends_number 4 _).bind fun _=>extends_pure _) ?_
  refine .ite ((extends_number 8 _).bind fun _=>extends_pure _) ?_
  refine .ite (extends_string.bind fun _=>extends_pure _) ?_
  refine .ite ((extends_number 8 _).bind fun _ => .ite (extends_pure _) (extends_failAt _ _)) ?_
  refine .ite (extends_string.bind fun _=>extends_pure _) ?_
  refine .ite (extends_size.bind fun _=>(extends_take _ _).bind fun _=>extends_pure _) ?_
  refine .ite (extends_typedList _) (.ite (extends_typedList _) ?_)
  exact .ite (extends_typedList _) (.ite (extends_typedList _) (extends_failAt _ _))

theorem extends_countNode : Extends fun _=>countNode:=by
  intro d x s s' b hpos hrun
  refine ⟨hrun,?_⟩
  unfold countNode at hrun
  dsimp only at hrun
  split_ifs at hrun
  obtain ⟨-,rfl⟩:=Prod.mk.inj (ok.inj hrun)
  exact hpos

theorem extends_partCount (map:Bool) : Extends fun d=>partCount d map:=
  extends_size.bind fun _=>extends_get.bind fun _ => .ite (extends_fail _) (extends_pure _)

theorem extends_readItems {read:Bytes→Read Value} (h:Extends read) (n:ℕ) :
    Extends fun d=>readItems (read d) n:=by
  induction n with
  | zero=>exact extends_pure _
  | succ n ih=>exact h.bind fun _=>ih.bind fun _=>extends_pure _

theorem extends_readValue (levels:ℕ) : Extends fun d=>readValue d levels:=by
  induction levels with
  | zero=>exact extends_fail _
  | succ levels ih=>
    exact extends_countNode.bind fun _=>extends_get.bind fun _=>extends_u8.bind fun _=>
      .ite ((extends_partCount _).bind fun _=>(extends_readItems ih _).bind fun _=>
        extends_pure _) ((extends_scalar _ _).bind fun _=>extends_pure _)

end

theorem decode_eq_ok {d:Bytes} {v:Value} {s:State} :
    decode d=.ok (v,s) ↔ readValue d (kMaxDepth+1) {}=.ok (v,s) ∧ s.pos=d.length:=by
  unfold decode
  constructor
  · intro h
    split at h
    · cases h
    next w t hread=>
      split_ifs at h with hpos
      obtain ⟨rfl,rfl⟩:=Prod.mk.inj (ok.inj h)
      exact ⟨hread,not_not.mp hpos⟩
  · rintro ⟨hread,hpos⟩
    rw [hread]
    exact if_neg (not_not.mpr hpos)

/-- No proper prefix of an input that is taken is taken. -/
theorem decode_alone {d x:Bytes} {v v':Value} {s s':State} (h:decode d=.ok (v,s))
    (h':decode (d++x)=.ok (v',s')) : x=[]:=by
  obtain ⟨hread,hpos⟩:=decode_eq_ok.mp h
  obtain ⟨hread',hpos'⟩:=decode_eq_ok.mp h'
  have hmore:=(extends_readValue (kMaxDepth+1) d x {} s v (Nat.zero_le _) hread).1
  obtain ⟨rfl,rfl⟩:=Prod.mk.inj (ok.inj (hmore.symm.trans hread'))
  rw [length_append] at hpos'
  exact length_eq_zero_iff.mp (by omega)

/-- A list of a null, a number and a text. -/
def threeItems : Message :=
  .branch false [.leaf .null,.leaf (.int32 (-2)),.leaf (.string [97,98])]

theorem threeItems_within : Within threeItems where
  formed:=by
    refine .branch (fun h=>Bool.noConfusion h) fun v hv=>?_
    simp only [mem_cons,not_mem_nil,or_false] at hv
    obtain rfl | rfl | rfl:=hv
    · exact .leaf trivial
    · exact .leaf ⟨by decide,by decide⟩
    · exact .leaf ⟨['a','b'],by decide⟩
  nodes:=by decide
  stringBytes:=by decide

end AutoRefirst.Flutter
