import Mathlib.Data.Nat.Digits.Lemmas
import AutoRefirst.Authenticode

/-!
# DER elements are read in their one encoding

The reader of elements accepts a tag of one byte, the length in its shortest form and the content,
and nothing else; the children of an element are its content cut into such elements.
-/

namespace AutoRefirst.Authenticode
open List ByteRanges

/-- The bytes of a number, the highest one first. -/
def lengthBytes (n : ℕ) : Bytes := (Nat.digits 256 n).reverse.map UInt8.ofNat

def putLength (n : ℕ) : Bytes :=
  if n < 128 then [UInt8.ofNat n] else UInt8.ofNat (128+(lengthBytes n).length)::lengthBytes n

def element (tag : UInt8) (content : Bytes) : Bytes := tag::putLength content.length++content

def bigEndian (bs : Bytes) : ℕ := Nat.ofDigits 256 (bs.reverse.map (·.toNat))

variable {d bs : Bytes} {p q n : ℕ} {b : UInt8}

theorem bigEndian_concat (bs:Bytes) (b:UInt8) : bigEndian (bs++[b]) = bigEndian bs*256+b.toNat:=by
  simp [bigEndian,Nat.ofDigits_cons,Nat.mul_comm,Nat.add_comm]

theorem bigEndian_lt (bs:Bytes) : bigEndian bs<256^bs.length:=by
  have hlt:=Nat.ofDigits_lt_base_pow_length (b:=256) (l:=bs.reverse.map (·.toNat)) (by decide)
    fun x hx=>by
      obtain ⟨b,-,rfl⟩:=mem_map.mp hx
      exact b.toNat_lt
  simpa [bigEndian] using hlt

/-- The check for a carry never fails for eight bytes. -/
theorem longLength_eq (h:bs.length≤8) : longLength bs = some (bigEndian bs):=by
  induction bs using reverseRecOn with
  | nil=>rfl
  | append_singleton bs b ih=>
    rw [length_append,length_singleton] at h
    have hlt:=(bigEndian_lt bs).trans_le (Nat.pow_le_pow_right (by decide) (by omega:bs.length≤7))
    have hinit : longLength bs = some (bigEndian bs):=ih (by omega)
    rw [longLength] at hinit ⊢
    simp only [foldlM_append,hinit,bigEndian_concat,Option.bind_eq_bind,Option.bind_some,foldlM_cons,
      foldlM_nil]
    rw [if_neg (by omega)]
    rfl

theorem bigEndian_lengthBytes (n:ℕ) : bigEndian (lengthBytes n) = n:=by
  have hdigits : (Nat.digits 256 n).map (fun x=>(UInt8.ofNat x).toNat) = Nat.digits 256 n:=by
    refine (map_congr_left fun x hx=>?_).trans (map_id _)
    exact UInt8.toNat_ofNat_of_lt (Nat.digits_lt_base (by decide) hx)
  rw [bigEndian,lengthBytes,← map_reverse,reverse_reverse,map_map]
  exact (congrArg (Nat.ofDigits 256) hdigits).trans (Nat.ofDigits_digits 256 n)

/-- A number has one spelling without a leading zero. -/
theorem lengthBytes_bigEndian (h:bs.head?≠some 0) : lengthBytes (bigEndian bs) = bs:=by
  have hdigits : Nat.digits 256 (bigEndian bs) = bs.reverse.map (·.toNat):=by
    refine Nat.digits_ofDigits 256 (by decide) _ (fun x hx=>?_) fun hne hlast=>h ?_
    · obtain ⟨b,-,rfl⟩:=mem_map.mp hx
      exact b.toNat_lt
    · rw [getLast_map,getLast_reverse] at hlast
      rw [head?_eq_some_head (by simpa using hne)]
      exact congrArg some (UInt8.toNat_inj.mp hlast)
  rw [lengthBytes,hdigits,← map_reverse,reverse_reverse,map_map]
  exact (map_congr_left fun b _=>UInt8.ofNat_toNat).trans (map_id bs)

theorem lengthBytes_length : (lengthBytes n).length≤8 ↔ n<2^64:=by
  rw [lengthBytes,length_map,length_reverse,Nat.digits_length_le_iff (by decide)]
  exact Iff.rfl

theorem and_high : b &&& 0x80=0 ↔ b.toNat<128:=by
  have hall : ∀n<256,n &&& 128=0 ↔ n<128:=by decide +kernel
  rw [← UInt8.toNat_inj,UInt8.toNat_and]
  exact hall b.toNat b.toNat_lt

theorem and_low (h:¬b.toNat<128) : (b &&& 0x7f).toNat=b.toNat-128:=by
  have hall : ∀n<256,¬n<128 → n &&& 127 = n-128:=by decide +kernel
  rw [UInt8.toNat_and]
  exact hall b.toNat b.toNat_lt h

theorem lengthBytes_head (hn:n≠0) : (lengthBytes n).head?≠some 0:=by
  have hne : Nat.digits 256 n≠[]:=Nat.digits_ne_nil_iff_ne_zero.mpr hn
  have hlast : (Nat.digits 256 n).getLast hne≠0:=Nat.getLast_digit_ne_zero 256 hn
  have hlt:=Nat.digits_lt_base (b:=256) (by decide) (getLast_mem hne)
  rw [lengthBytes,head?_map,head?_reverse,getLast?_eq_some_getLast hne,Option.map_some]
  intro h
  exact hlast ((UInt8.toNat_ofNat_of_lt hlt).symm.trans (congrArg UInt8.toNat (Option.some_inj.mp h)))

theorem getElem?_of_starts {l:Bytes} (h:l <+: d.drop p) {i:ℕ} (hi:i<l.length) :
    d[p+i]? = l[i]? := by
  obtain ⟨rest,hrest⟩:=h
  rw [← getElem?_drop,← hrest,getElem?_append_left hi]

theorem slice_of_starts {l:Bytes} (h:l <+: d.drop p) {i k:ℕ} (hi:i+k≤l.length) :
    slice d (p+i,k) = slice l (i,k):=by
  obtain ⟨rest,hrest⟩:=h
  rw [slice,slice,← drop_drop,← hrest,drop_append_of_le_length (by omega),
    take_append_of_le_length (by rw [length_drop];omega)]

theorem length_of_starts {l:Bytes} (h:l <+: d.drop p) (hl:l≠[]) : p+l.length≤d.length:=by
  have hle:=h.length_le
  have hpos:=length_pos_iff.mpr hl
  rw [length_drop] at hle
  omega

theorem der_length_put (hn:n<2^64) (h:putLength n <+: d.drop p) :
    der_length d p = some (n,p+(putLength n).length):=by
  unfold putLength at h ⊢
  split_ifs at h ⊢ with hshort
  · have hb : d[p]? = some (UInt8.ofNat n):=getElem?_of_starts h (i:=0) Nat.one_pos
    have hnat : (UInt8.ofNat n).toNat=n:=UInt8.toNat_ofNat_of_lt (show n<256 by omega)
    simp [der_length,hb,and_high,hnat,hshort]
  · have hcount:=lengthBytes_length.mpr hn
    have hfits:=length_of_starts h (cons_ne_nil _ _)
    have hhead:=lengthBytes_head (n:=n) (by omega)
    have hb : d[p]? = some (UInt8.ofNat (128+(lengthBytes n).length)):=
      getElem?_of_starts h (i:=0) (Nat.succ_pos _)
    have hslice : slice d (p+1,(lengthBytes n).length) = lengthBytes n:=by
      rw [slice_of_starts h (by simp [Nat.add_comm])]
      simp [slice]
    have hpos : (lengthBytes n).length≠0:=by
      intro hnil
      have hback:=bigEndian_lengthBytes n
      rw [length_eq_zero_iff.mp hnil] at hback
      exact hshort (hback▸Nat.zero_lt_succ 127)
    have hnat : (UInt8.ofNat (128+(lengthBytes n).length)).toNat=128+(lengthBytes n).length:=
      UInt8.toNat_ofNat_of_lt (show 128+(lengthBytes n).length<256 by omega)
    have hhigh : ¬128+(lengthBytes n).length<128:=by omega
    have hzero : d.getD (p+1) 0≠0:=by
      obtain ⟨x,l,hl⟩:=exists_cons_of_length_pos (Nat.pos_of_ne_zero hpos)
      have hx : d[p+1]? = some x:=by
        rw [getElem?_of_starts h (i:=1) (by simp [hl]),hl]
        rfl
      rw [hl] at hhead
      rw [getD_eq_getElem?_getD,hx]
      exact fun h0=>hhead (congrArg some h0)
    simp only [length_cons] at hfits
    simp only [der_length,hb,Option.bind_eq_bind,Option.bind_some,and_high,hhigh,if_false,
      and_low (hnat▸hhigh),hnat,Nat.add_sub_cancel_left,hpos,false_or,hzero,and_false,hslice,
      longLength_eq hcount,bigEndian_lengthBytes,hshort,length_cons]
    rw [if_neg (by omega)]
    congr 2
    omega

/-- The length at a place is spelled in its shortest form there. -/
theorem der_length_iff : der_length d p = some (n,q) ↔
    n<2^64 ∧ q=p+(putLength n).length ∧ putLength n <+: d.drop p:=by
  refine ⟨fun h=>?_,fun ⟨hn,hq,hput⟩=>hq▸der_length_put hn hput⟩
  obtain ⟨b,hb,h⟩:=Option.bind_eq_some_iff.mp h
  obtain ⟨hp,rfl⟩:=List.getElem?_eq_some_iff.mp hb
  have hdrop:=drop_eq_getElem_cons hp
  split_ifs at h with hhigh
  · obtain ⟨rfl,rfl⟩:=Prod.mk.inj (Option.some_inj.mp h)
    rw [and_high] at hhigh
    have hput : putLength d[p].toNat = [d[p]]:=by simp [putLength,hhigh]
    rw [hput,hdrop]
    exact ⟨by omega,rfl,⟨_,rfl⟩⟩
  · rw [and_high] at hhigh
    dsimp only at h
    rw [and_low hhigh] at h
    split_ifs at h with hcount hlead
    obtain ⟨len,hlen,h⟩:=Option.bind_eq_some_iff.mp h
    split_ifs at h with hmin
    obtain ⟨rfl,rfl⟩:=Prod.mk.inj (Option.some_inj.mp h)
    set l:=slice d (p+1,d[p].toNat-128)
    have hlength : l.length=d[p].toNat-128:=
      length_slice (show p+1+(d[p].toNat-128)≤d.length by omega)
    rw [longLength_eq (by omega)] at hlen
    obtain rfl:=Option.some_inj.mp hlen
    have hhead : l.head?≠some 0:=by
      intro hzero
      by_cases hone : d[p].toNat-128=1
      · obtain ⟨x,hx⟩:=length_eq_one_iff.mp (hlength.trans hone)
        rw [hx] at hzero hmin
        rw [Option.some_inj.mp hzero] at hmin
        exact hmin (by decide)
      · have hfirst : l[0]? = d[p+1]? := getElem?_slice (show 0 < d[p].toNat-128 by omega)
        refine hlead ⟨by omega,?_⟩
        rw [getD_eq_getElem?_getD,← hfirst,← head?_eq_getElem?,hzero]
        rfl
    have hput : putLength (bigEndian l) = d[p]::l:=by
      rw [putLength,if_neg hmin,lengthBytes_bigEndian hhead,hlength,Nat.add_sub_cancel' (by omega),
        UInt8.ofNat_toNat]
    refine ⟨(lengthBytes_length (n:=bigEndian _)).mp ?_,?_,?_⟩
    · rw [lengthBytes_bigEndian hhead]
      omega
    · rw [hput,length_cons,hlength]
      omega
    · rw [hput,hdrop]
      exact (prefix_cons_inj _).mpr <| take_prefix _ _

/-- An element stands at `p`, in its one encoding. -/
structure StandsAt (d : Bytes) (p : ℕ) (e : Der) : Prop where
  tag : e.tag &&& 0x1f≠0x1f
  start : e.start=p
  content : e.content=p+1+(putLength e.length).length
  stop : e.stop=e.content+e.length
  inside : e.stop≤d.length
  length : e.length<2^64
  spelled : element e.tag (slice d (e.content,e.length)) <+: d.drop p

theorem standsAt_of_der_one {e:Der} (h:der_one d p = some e) : StandsAt d p e:=by
  obtain ⟨tag,hb,h⟩:=Option.bind_eq_some_iff.mp h
  split_ifs at h with htag
  obtain ⟨⟨len,q⟩,hlen,h⟩:=Option.bind_eq_some_iff.mp h
  dsimp only at h
  split_ifs at h with hroom
  obtain rfl:=Option.some_inj.mp h
  obtain ⟨hlt,rfl,hput⟩:=der_length_iff.mp hlen
  have hq:=length_of_starts hput (by unfold putLength;split_ifs <;> simp)
  have hin : p+1+(putLength len).length+len≤d.length:=by omega
  refine ⟨htag,rfl,rfl,rfl,hin,hlt,?_⟩
  obtain ⟨hp,rfl⟩:=List.getElem?_eq_some_iff.mp hb
  obtain ⟨rest,hrest⟩:=hput
  rw [element,length_slice hin,drop_eq_getElem_cons hp]
  refine (prefix_cons_inj _).mpr ?_
  rw [slice,← drop_drop,← hrest,drop_left]
  exact (prefix_append_right_inj _).mpr <| take_prefix _ _

theorem StandsAt.der_one {e:Der} (h:StandsAt d p e) : der_one d p = some e:=by
  have hin : e.content+e.length≤d.length:=h.stop▸h.inside
  have hspelled:=h.spelled
  rw [element,length_slice hin] at hspelled
  have hb : d[p]? = some e.tag:=getElem?_of_starts hspelled (i:=0) (Nat.succ_pos _)
  have hput : putLength e.length <+: d.drop (p+1):=by
    obtain ⟨rest,hrest⟩:=hspelled
    rw [← drop_drop,← hrest]
    exact ⟨_,(append_assoc _ _ _).symm⟩
  have hlen:=der_length_put h.length hput
  rw [← h.content] at hlen
  simp only [Authenticode.der_one,hb,hlen,Option.bind_eq_bind,Option.bind_some,if_neg h.tag]
  rw [if_neg (by omega),← h.stop,← h.start]

/-- Elements one behind the other, up to `stop`. -/
def Tiled (d : Bytes) (stop : ℕ) : ℕ → List Der → Prop
  | p, [] => p = stop
  | p, e::l => p < stop ∧ StandsAt d p e ∧ Tiled d stop e.stop l

theorem childrenFrom_iff {stop:ℕ} {found found':List Der} :
    childrenFrom d stop p found = some found' ↔ ∃l,found'=found++l ∧ Tiled d stop p l:=by
  fun_induction childrenFrom d stop p found with
  | case1 p found hlt hnone=>
    refine iff_of_false (Option.some_ne_none _).symm ?_
    rintro ⟨_ | ⟨e,l⟩,-,h⟩
    · exact hlt.ne h
    · exact Option.some_ne_none e (h.2.1.der_one.symm.trans hnone)
  | case2 p found hlt e he _ ih=>
    refine ih.trans ⟨fun ⟨l,hl,h⟩=>?_,?_⟩
    · exact ⟨e::l,by simpa using hl,hlt,standsAt_of_der_one he,h⟩
    · rintro ⟨_ | ⟨e',l⟩,hl,h⟩
      · exact absurd h hlt.ne
      · obtain rfl:=Option.some_inj.mp (he.symm.trans h.2.1.der_one)
        exact ⟨l,by simpa using hl,h.2.2⟩
  | case3 found _=>
    refine ⟨fun h=>⟨[],by simpa using h.symm,rfl⟩,?_⟩
    rintro ⟨_ | ⟨e,l⟩,hl,h⟩
    · simp [hl]
    · exact absurd rfl h.1.ne
  | case4 p found hle hne=>
    refine iff_of_false (Option.some_ne_none _).symm ?_
    rintro ⟨_ | ⟨e,l⟩,-,h⟩
    · exact hne h
    · exact hle h.1

theorem Tiled.le {stop:ℕ} {l:List Der} (h:Tiled d stop p l) : p ≤ stop:=by
  cases l with
  | nil=>exact Nat.le_of_eq h
  | cons e l=>exact h.1.le

/-- The bytes of the tiles are those of their elements, in a row. -/
theorem Tiled.bytes {stop:ℕ} {l:List Der} (h:Tiled d stop p l) :
    slice d (p,stop-p) = l.flatMap fun e=>element e.tag (slice d (e.content,e.length)):=by
  induction l generalizing p with
  | nil=>
    rw [show p = stop from h,Nat.sub_self,flatMap_nil]
    exact take_zero
  | cons e l ih=>
    obtain ⟨-,he,hrest⟩:=h
    have hin : e.content+e.length≤d.length:=he.stop▸he.inside
    obtain ⟨rest,hd⟩:=he.spelled
    have hlen : (element e.tag (slice d (e.content,e.length))).length=e.stop-p:=by
      rw [element,length_append,length_cons,length_slice hin,he.stop,he.content]
      dsimp only
      omega
    have hle : p≤e.stop:=by
      rw [he.stop,he.content]
      omega
    have hsum : stop-p=(e.stop-p)+(stop-e.stop):=by
      have:=hrest.le
      omega
    rw [flatMap_cons,← ih hrest,slice,hsum,take_add,drop_drop,Nat.add_sub_cancel' hle,← hd,← hlen,
      take_left]
    rfl

/-- The reader takes an element where one stands in its one encoding and nowhere else, the children
of an element are the elements that tile its content, and the content is their encodings in a
row. -/
theorem der_read_exactly (d : Bytes) : (∀ p e, der_one d p = some e ↔ StandsAt d p e) ∧
    (∀ n l, children d n = some l ↔ n.content+n.length≤d.length ∧ Tiled d n.stop n.content l) ∧
    ∀ n l, children d n = some l → slice d (n.content,n.stop-n.content) =
      l.flatMap fun e => element e.tag (slice d (e.content,e.length)) := by
  have hchildren : ∀n l,children d n = some l ↔
      n.content+n.length≤d.length ∧ Tiled d n.stop n.content l:=by
    intro n l
    unfold children
    split_ifs with hin
    · exact iff_of_false (by simp) fun h=>absurd h.1 hin.not_ge
    · simp [childrenFrom_iff,Nat.not_lt.mp hin]
  exact ⟨fun p e=>⟨standsAt_of_der_one,StandsAt.der_one⟩,hchildren,
    fun n l h=>((hchildren n l).mp h).2.bytes⟩

end AutoRefirst.Authenticode
