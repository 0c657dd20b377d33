import AutoRefirst.AndroidResources
import AutoRefirst.Utf8Copies

/-!
# The two readers of string pools

What the reader of binary XML accepts the reader of resource tables accepts too, with the same
strings, and every string is the text that is stored.
-/

namespace AutoRefirst.Apk
open CheckedRun List Option

/-- A number in the input, the low byte first. -/
def numeral (d : Bytes) (off n : ℕ) : ℕ := littleEndian ((d.drop off).take n)

variable {off n v : ℕ}

theorem numberAt_ok {doc what:String} {d:Bytes} :
    (numberAt doc d off n what).value=.ok v ↔ off+n≤d.length ∧ numeral d off n=v:=by
  simp only [numberAt,need,bind_ok,failIf_ok,read_ok,pure_ok,exists_const,numeral,
    exists_eq_left',not_or,not_lt]
  refine and_congr_left fun _=>?_
  omega

theorem byteAt_ok {d:Bytes} {x:UInt8} : (byteAt d off).value=.ok x ↔ d.getD off 0=x:=by
  have hhead : ((d.drop off).take 1).headD 0=d.getD off 0:=by
    rw [headD_eq_head?_getD,getD_eq_getElem?_getD]
    cases h : d.drop off with
    | nil=>
      have hle:=drop_eq_nil_iff.mp h
      simp [getElem?_eq_none hle]
    | cons y l=>
      have hlt : off<d.length:=by
        by_contra hge
        rw [drop_eq_nil_of_le (by omega)] at h
        exact cons_ne_nil _ _ h.symm
      rw [drop_eq_getElem_cons hlt] at h
      simp [getElem?_eq_getElem hlt,(List.cons.inj h).1]
  simp only [byteAt,bind_ok,read_ok,pure_ok,exists_eq_left',hhead]

theorem pairAt_ok {d:Bytes} : (pairAt d off).value=.ok v ↔ numeral d off 2=v:=by
  simp only [pairAt,bind_ok,read_ok,pure_ok,exists_eq_left',numeral]

variable {x : ℕ×Option ℕ}

theorem lengthAt_ok {message:String} :
    (AxmlParser.lengthAt x message).value=.ok n ↔ x.2=some n:=by
  unfold AxmlParser.lengthAt
  cases x.2 with
  | none=>simp [fail_ok]
  | some m=>simp [pure_ok]

theorem axml_u16_ok {d:Bytes} :
    (AxmlParser.u16 d off).value=.ok v ↔ off+2≤d.length ∧ numeral d off 2=v:=numberAt_ok

theorem axml_u32_ok {d:Bytes} :
    (AxmlParser.u32 d off).value=.ok v ↔ off+4≤d.length ∧ numeral d off 4=v:=numberAt_ok

theorem arsc_u16_ok {d:Bytes} :
    (ArscParser.u16 d off).value=.ok v ↔ off+2≤d.length ∧ numeral d off 2=v:=numberAt_ok

theorem arsc_u32_ok {d:Bytes} :
    (ArscParser.u32 d off).value=.ok v ↔ off+4≤d.length ∧ numeral d off 4=v:=numberAt_ok

variable {d : Bytes} {p stop : ℕ} {s : Bytes}

theorem stringUtf8_agree (h:(AxmlParser.stringUtf8 d p stop).value=.ok s) :
    (ArscParser.stringUtf8 d p stop).value=.ok s:=by
  simp only [AxmlParser.stringUtf8,AxmlParser.readLen8,bind_ok,failIf_ok,lengthAt_ok] at h
  obtain ⟨x,hx,units,hunits,y,hy,size,hsize,-,hfits,text,htext,-,hvalid,last,hlast,
    -,hzero,-,-,hs⟩:=h
  simp only [ArscParser.stringUtf8,bind_ok,failIf_ok,lengthAt_ok]
  exact ⟨x,hx,units,hunits,y,hy,size,hsize,(),hfits,text,htext,(),hvalid,last,hlast, (),hzero,hs⟩

theorem stringUtf16_agree (h:(AxmlParser.stringUtf16 d p stop).value=.ok s) :
    (ArscParser.stringUtf16 d p stop).value=.ok s:=by
  simp only [AxmlParser.stringUtf16,AxmlParser.readLen16,bind_ok,failIf_ok,lengthAt_ok,
    axml_u16_ok] at h
  obtain ⟨x,hx,units,hunits,-,hfits,last,hlast,-,hzero,text,htext,hs⟩:=h
  simp only [ArscParser.stringUtf16,bind_ok,failIf_ok,lengthAt_ok,arsc_u16_ok]
  refine ⟨x,hx,units,hunits,(),hfits,last,hlast,(),hzero,text,htext,?_⟩
  cases hdecode : utf16leToUtf8 text with
  | none=>
    rw [hdecode] at hs
    exact absurd hs (by simp [fail_ok])
  | some t=>
    rw [hdecode] at hs
    exact hs

variable {hs size : ℕ} {h : AxmlParser.PoolHeader}

theorem poolString_agree {i:ℕ} (hok:(AxmlParser.poolString d off hs size h i).value=.ok s) :
    (ArscParser.poolString d off hs size h i).value=.ok s:=by
  simp only [AxmlParser.poolString,bind_ok,failIf_ok,axml_u32_ok] at hok
  obtain ⟨rel,hrel,-,hlt,-,hp,hs⟩:=hok
  simp only [ArscParser.poolString,bind_ok,failIf_ok,arsc_u32_ok]
  refine ⟨rel,hrel,(),hlt,(),hp,?_⟩
  split at hs
  case isTrue hutf8=>
    rw [if_pos hutf8]
    exact stringUtf8_agree hs
  case isFalse hutf8=>
    rw [if_neg hutf8]
    exact stringUtf16_agree hs

/-- Where the chunk of a pool begins in the input, with the three words of its header. -/
structure PoolChunk (d : Bytes) (off hs size : ℕ) : Prop where
  type : numeral d off 2 = 1
  headerSize : numeral d (off+2) 2=hs
  chunkSize : numeral d (off+4) 4=size
  header : off+8≤d.length
  inside : off+size≤d.length

theorem poolHeader_agree {label:String}
    (hok:(AxmlParser.poolHeader d off hs size).value=.ok h) :
    (ArscParser.poolHeader d off hs size label).value=.ok (some h) ∨
      (ArscParser.poolHeader d off hs size label).value=.ok none ∧ h.count=0:=by
  simp only [AxmlParser.poolHeader,bind_ok,failIf_ok,axml_u32_ok,sum_ok,pure_ok] at hok
  obtain ⟨count,hcount,styles,hstyles,flags,hflags,stringsStart,hstrings,stylesStart,
    hstylesStart,-,hcounts,entries,hentries,-,hindex,-,hstart,-,hstyle,rfl⟩:=hok
  simp only [ArscParser.poolHeader,bind_ok,failIf_ok,arsc_u32_ok,sum_ok]
  by_cases hempty : count=0 ∧ styles=0
  · refine .inr ⟨⟨count,hcount,styles,hstyles,flags,hflags,stringsStart,hstrings,
      stylesStart,hstylesStart,(),hcounts,entries,hentries,(),hindex,?_⟩,hempty.1⟩
    rw [if_pos hempty]
    simp only [bind_ok,failIf_ok,pure_ok]
    exact ⟨(),fun h=>hstart (.inl h.2),trivial⟩
  · refine .inl ⟨count,hcount,styles,hstyles,flags,hflags,stringsStart,hstrings,
      stylesStart,hstylesStart,(),hcounts,entries,hentries,(),hindex,?_⟩
    rw [if_neg hempty]
    simp only [bind_ok,failIf_ok,pure_ok]
    exact ⟨(),hstart,(),hstyle,trivial⟩

theorem pool_agree {limit:ℕ} {label:String} {st st':AxmlState}
    (hchunk:PoolChunk d off hs size) (hlimit:off+size≤limit) (hfresh:st.strings=[])
    (hok:(AxmlParser.parseStringPool d st off hs size).value=.ok st') :
    (ArscParser.pool d off limit label).value=.ok st'.strings:=by
  simp only [AxmlParser.parseStringPool,bind_ok,failIf_ok,pure_ok] at hok
  obtain ⟨-,-,-,hsizes,h,hheader,strings,hstrings,rfl⟩:=hok
  simp only [ArscParser.pool,bind_ok,failIf_ok,arsc_u16_ok,arsc_u32_ok]
  have hchunk':=hchunk.header
  rw [hfresh] at hstrings
  refine ⟨(),by omega,1,⟨by omega,hchunk.type⟩,(),by simp,hs,⟨by omega,hchunk.headerSize⟩,
    size,⟨by omega,hchunk.chunkSize⟩,(),by omega,?_⟩
  have hagree : (ArscParser.poolHeader d off hs size label).value=_ ∨ _:=poolHeader_agree hheader
  rcases hagree with hsome | ⟨hnone,hzero⟩
  · refine ⟨some h,hsome,each_agree (fun i _ s t hi=>?_) hstrings⟩
    obtain ⟨x,hx,ht⟩:=bind_ok.mp hi
    exact bind_ok.mpr ⟨x,poolString_agree hx,ht⟩
  · refine ⟨none,hnone,?_⟩
    rw [hzero] at hstrings
    exact hstrings

/-- A length in one byte, or in two when the high bit is set. -/
inductive Length8 : Bytes → ℕ → Prop
  | short {x : UInt8} (h : x.toNat<128) : Length8 [x] x.toNat
  | long {x y : UInt8} (h : 128≤x.toNat) : Length8 [x,y] ((x.toNat-128)*256+y.toNat)

/-- A length in one unit of two bytes, or in two units when the high bit is set. -/
inductive Length16 : Bytes → ℕ → Prop
  | short {b : Bytes} (hb : b.length=2) (h : littleEndian b < 2^15) : Length16 b (littleEndian b)
  | long {b c : Bytes} (hb : b.length=2) (hc : c.length=2) (h : 2^15 ≤ littleEndian b) :
    Length16 (b++c) ((littleEndian b - 2^15)*2^16 + littleEndian c)

theorem shiftLeft_or (a:ℕ) (h:v<2^n) : (a <<< n) ||| v = a*2^n+v:=by
  rw [← Nat.shiftLeft_add_eq_or_of_lt h,Nat.shiftLeft_eq]

theorem drop_getD (h:p<d.length) : d.drop p=d.getD p 0::d.drop (p+1):=by
  rw [drop_eq_getElem_cons h,getD_eq_getElem?_getD,getElem?_eq_getElem h]
  rfl

theorem drop_take (p n:ℕ) : d.drop p = (d.drop p).take n++d.drop (p+n):=by
  rw [← drop_drop,take_append_drop]

theorem len8_ok (hstop:stop≤d.length) (h:(len8 d p stop).value=.ok x) (hx:x.2=some n) :
    ∃a,Length8 a n ∧ d.drop p = a++d.drop x.1 ∧ x.1=p+a.length ∧ x.1 ≤ stop:=by
  unfold len8 at h
  split at h
  case isTrue=>
    rw [← pure_ok.mp h] at hx
    simp at hx
  case isFalse hp=>
    simp only [bind_ok,byteAt_ok,exists_eq_left'] at h
    have hfirst:=drop_getD (d:=d) (p:=p) (by omega)
    split at h
    case isTrue hlow=>
      rw [← pure_ok.mp h] at hx ⊢
      rw [← some.inj hx]
      exact ⟨[d.getD p 0],.short ((high_bit _).mp hlow),hfirst,rfl,by simp only;omega⟩
    case isFalse hhigh=>
      split at h
      case isTrue=>
        rw [← pure_ok.mp h] at hx
        simp at hx
      case isFalse hp'=>
        simp only [bind_ok,byteAt_ok,exists_eq_left'] at h
        rw [← pure_ok.mp h] at hx ⊢
        have hsecond:=drop_getD (d:=d) (p:=p+1) (by omega)
        have hlarge : 128≤(d.getD p 0).toNat:=not_lt.mp fun hlt=>hhigh ((high_bit _).mpr hlt)
        have hlt:=(d.getD p 0).toNat_lt
        have hvalue : n=((d.getD p 0).toNat-128)*256+(d.getD (p+1) 0).toNat:=by
          have hn : ((d.getD p 0 &&& 0x7f).toNat <<< 8) ||| (d.getD (p+1) 0).toNat = n:=some.inj hx
          have hnext : (d.getD (p+1) 0).toNat<2^8:=UInt8.toNat_lt _
          rw [← hn,shiftLeft_or _ hnext,low_bits]
          omega
        have hlength : Length8 [d.getD p 0,d.getD (p+1) 0] n:=by
          rw [hvalue]
          exact .long hlarge
        refine ⟨_,hlength,?_,rfl,by simp only;omega⟩
        rw [hfirst,hsecond]
        rfl

theorem numeral_lt (off n:ℕ) : numeral d off n<256^n:=by
  refine (littleEndian_lt _).trans_le (Nat.pow_le_pow_right (by decide) ?_)
  simp only [length_take]
  omega

theorem and_high {x:ℕ} (h:x<2^16) : x &&& 0x8000=0 ↔ x<2^15:=by
  rw [show 0x8000=2^15 from rfl,Nat.and_two_pow]
  by_cases hbit : x.testBit 15=true
  · have hle:=Nat.ge_two_pow_of_testBit hbit
    simp only [hbit]
    constructor
    · intro h0
      exact absurd h0 (by decide)
    · intro hlt
      omega
  · have hlt : x<2^15:=by
      by_contra hge
      have hdiv : x/2^15=1:=by omega
      exact hbit (by rw [Nat.testBit_eq_decide_div_mod_eq,hdiv];rfl)
    rw [Bool.not_eq_true] at hbit
    exact iff_of_true (by rw [hbit];rfl) hlt

theorem len16_ok (hstop:stop≤d.length) (h:(len16 d p stop).value=.ok x) (hx:x.2=some n) :
    ∃a,Length16 a n ∧ d.drop p = a++d.drop x.1 ∧ x.1=p+a.length ∧ x.1 ≤ stop:=by
  have hpair (q:ℕ) (hq:q+2 ≤ stop) : ((d.drop q).take 2).length=2:=by
    simp only [length_take,length_drop]
    omega
  unfold len16 at h
  split at h
  case isTrue=>
    rw [← pure_ok.mp h] at hx
    simp at hx
  case isFalse hp=>
    simp only [bind_ok,pairAt_ok,exists_eq_left'] at h
    have hlt : numeral d p 2<2^16:=numeral_lt p 2
    split at h
    case isTrue hlow=>
      rw [← pure_ok.mp h] at hx ⊢
      rw [← some.inj hx]
      refine ⟨(d.drop p).take 2,.short (hpair p (by omega)) ((and_high hlt).mp hlow),drop_take p 2,?_,
        by simp only;omega⟩
      rw [hpair p (by omega)]
    case isFalse hhigh=>
      split at h
      case isTrue=>
        rw [← pure_ok.mp h] at hx
        simp at hx
      case isFalse hp'=>
        simp only [bind_ok,pairAt_ok,exists_eq_left'] at h
        rw [← pure_ok.mp h] at hx ⊢
        have hlarge : 2^15 ≤ numeral d p 2:=not_lt.mp fun hlt'=>hhigh ((and_high hlt).mpr hlt')
        have hsecond : numeral d (p+2) 2<2^16:=numeral_lt (p+2) 2
        have hvalue : n = (numeral d p 2 - 2^15)*2^16 + numeral d (p+2) 2:=by
          have hn : ((numeral d p 2 &&& 0x7fff) <<< 16) ||| numeral d (p+2) 2=n:=some.inj hx
          rw [← hn,shiftLeft_or _ hsecond,show 0x7fff=2^15-1 from rfl,
            Nat.and_two_pow_sub_one_eq_mod]
          omega
        have hlength : Length16 ((d.drop p).take 2++(d.drop (p+2)).take 2) n:=by
          rw [hvalue]
          exact .long (hpair p (by omega)) (hpair (p+2) (by omega)) hlarge
        refine ⟨_,hlength,?_,?_,by simp only;omega⟩
        · rw [append_assoc,← drop_take,← drop_take]
        · rw [length_append,hpair p (by omega),hpair (p+2) (by omega)]

def utf16Unit (n : ℕ) : Bytes := [n.toUInt8,(n/256).toUInt8]

/-- A code point in UTF-16, the low byte of a unit first. -/
def utf16Char (c : Char) : Bytes :=
  if c.toNat < 0x10000 then utf16Unit c.toNat
  else utf16Unit (0xd800+(c.toNat-0x10000)/0x400) ++
    utf16Unit (0xdc00 + (c.toNat-0x10000) % 0x400)

variable {a b : UInt8}

theorem utf16Unit_eq (h:a.toNat+256*b.toNat=n) : utf16Unit n=[a,b]:=by
  have ha:=a.toNat_lt
  have hb:=b.toNat_lt
  have hlow : n.toUInt8.toNat = n % 256:=UInt8.toNat_ofNat'
  have hhigh : (n/256).toUInt8.toNat = n/256 % 256:=UInt8.toNat_ofNat'
  rw [utf16Unit,List.cons.injEq,List.cons.injEq,← UInt8.toNat_inj,← UInt8.toNat_inj]
  exact ⟨by omega,by omega,rfl⟩

theorem appendUtf8Cp_eq (h:Utf8Copies.Scalar v) :
    appendUtf8Cp v=String.utf8EncodeChar (Char.ofNat v):=by
  have hchar : (Char.ofNat v).val.toNat=v:=Utf8Copies.toNat_ofNat h
  have hmax:=h.1
  have hcont (x:ℕ) : 0x80 ||| (x &&& 0x3f) = x % 64 + 128:=by
    rw [show 0x3f=2^6-1 from rfl,Nat.and_two_pow_sub_one_eq_mod,
      ← Nat.two_pow_add_eq_or_of_lt (i:=7) (by omega) 1]
    omega
  have htwo {x:ℕ} (hx:x<32) : 0xc0 ||| x = x+192:=by
    rw [show 0xc0=2^6*3 from rfl,← Nat.two_pow_add_eq_or_of_lt (by omega)]
    omega
  have hthree {x:ℕ} (hx:x<16) : 0xe0 ||| x = x+224:=by
    rw [show 0xe0=2^5*7 from rfl,← Nat.two_pow_add_eq_or_of_lt (by omega)]
    omega
  have hfour {x:ℕ} (hx:x<8) : 0xf0 ||| x = x+240:=by
    rw [show 0xf0=2^4*15 from rfl,← Nat.two_pow_add_eq_or_of_lt (by omega)]
    omega
  unfold appendUtf8Cp String.utf8EncodeChar
  rw [hchar]
  simp only [Nat.shiftRight_eq_div_pow,hcont]
  split
  · rfl
  split
  · rw [htwo (by omega),show v/2^6 = v/64 % 32 by omega]
  split
  · rw [hthree (by omega),show v/2^12 = v/4096 % 16 by omega]
  · rw [hfour (by omega),show v/2^18 = v/262144 % 8 by omega]

theorem scalar_of_unit {u:ℕ} (hu:u<2^16) (hhigh:isHigh u=false) (hlow:isLow u=false) :
    Utf8Copies.Scalar u:=by
  simp only [isHigh,isLow,Bool.and_eq_false_iff,decide_eq_false_iff_not] at hhigh hlow
  exact ⟨by omega,by omega⟩

theorem utf16Char_unit (hhigh:isHigh (a.toNat+256*b.toNat)=false)
    (hlow:isLow (a.toNat+256*b.toNat)=false) :
    utf16Char (Char.ofNat (a.toNat+256*b.toNat))=[a,b] ∧ appendUtf8Cp (a.toNat+256*b.toNat) =
        String.utf8EncodeChar (Char.ofNat (a.toNat+256*b.toNat)):=by
  have ha:=a.toNat_lt
  have hb:=b.toNat_lt
  have hscalar:=scalar_of_unit (by omega) hhigh hlow
  refine ⟨?_,appendUtf8Cp_eq hscalar⟩
  rw [utf16Char,Utf8Copies.toNat_ofNat hscalar,if_pos (by omega),utf16Unit_eq rfl]

/-- The code point of two surrogates. -/
def surrogates (u lo : ℕ) : ℕ := 0x10000+(((u-0xd800) <<< 10) ||| (lo-0xdc00))

theorem utf16Char_pair {c e:UInt8} (hhigh:isHigh (a.toNat+256*b.toNat)=true)
    (hlow:isLow (c.toNat+256*e.toNat)=true) :
    let v:=surrogates (a.toNat+256*b.toNat) (c.toNat+256*e.toNat)
    utf16Char (Char.ofNat v)=[a,b,c,e] ∧ appendUtf8Cp v=String.utf8EncodeChar (Char.ofNat v):=by
  simp only [isHigh,isLow,Bool.and_eq_true,decide_eq_true_eq] at hhigh hlow
  have hvalue : surrogates (a.toNat+256*b.toNat) (c.toNat+256*e.toNat) =
      0x10000 + ((a.toNat+256*b.toNat-0xd800)*2^10+(c.toNat+256*e.toNat-0xdc00)):=by
    rw [surrogates,shiftLeft_or _ (by omega)]
  have hscalar : Utf8Copies.Scalar
      (surrogates (a.toNat+256*b.toNat) (c.toNat+256*e.toNat)):=by
    rw [hvalue]
    exact ⟨by omega,by omega⟩
  refine ⟨?_,appendUtf8Cp_eq hscalar⟩
  rw [utf16Char,Utf8Copies.toNat_ofNat hscalar,hvalue,if_neg (by omega),
    utf16Unit_eq (a:=a) (b:=b) (by omega),utf16Unit_eq (a:=c) (b:=e) (by omega)]
  rfl

theorem utf16leToUtf8_some {b:Bytes} (heven:b.length % 2=0) (h:utf16leToUtf8 b=some s) :
    ∃l : List Char,b=l.flatMap utf16Char ∧ s=l.flatMap String.utf8EncodeChar:=by
  induction b using utf16leToUtf8.induct generalizing s with
  | case1 a b c e rest u lo hhigh hlow=>
    rename_i ih
    have hhigh : isHigh (a.toNat+256*b.toNat)=true:=hhigh
    have hlow : isLow (c.toNat+256*e.toNat)=true:=hlow
    rw [utf16leToUtf8] at h
    simp only [hhigh,hlow,if_true,map_eq_some_iff] at h
    obtain ⟨t,ht,rfl⟩:=h
    obtain ⟨l,hl,rfl⟩:=ih (by simp only [length_cons] at heven;omega) ht
    obtain ⟨hunits,hbytes⟩:=utf16Char_pair hhigh hlow
    refine ⟨Char.ofNat (surrogates (a.toNat+256*b.toNat) (c.toNat+256*e.toNat))::l,?_,?_⟩
    · rw [flatMap_cons,hunits,← hl]
      rfl
    · rw [flatMap_cons,← hbytes]
      rfl
  | case2 a b c e rest u lo hhigh=>
    rename_i hlow
    have hhigh : isHigh (a.toNat+256*b.toNat)=true:=hhigh
    have hlow : ¬isLow (c.toNat+256*e.toNat) = true:=hlow
    rw [utf16leToUtf8] at h
    simp [hhigh,hlow] at h
  | case3 a b c e rest u hhigh=>
    rename_i hlow
    have hhigh : ¬isHigh (a.toNat+256*b.toNat) = true:=hhigh
    have hlow : isLow (a.toNat+256*b.toNat)=true:=hlow
    rw [utf16leToUtf8] at h
    simp [hhigh,hlow] at h
  | case4 a b c e rest u hhigh hlow=>
    rename_i ih
    have hhigh : isHigh (a.toNat+256*b.toNat)=false:=(Bool.not_eq_true _).mp hhigh
    have hlow : isLow (a.toNat+256*b.toNat)=false:=(Bool.not_eq_true _).mp hlow
    rw [utf16leToUtf8] at h
    simp only [hhigh,hlow,Bool.false_eq_true,if_false,map_eq_some_iff] at h
    obtain ⟨t,ht,rfl⟩:=h
    obtain ⟨l,hl,rfl⟩:=ih (by simp only [length_cons] at heven ⊢; omega) ht
    obtain ⟨hunits,hbytes⟩:=utf16Char_unit hhigh hlow
    refine ⟨Char.ofNat (a.toNat+256*b.toNat)::l,?_,?_⟩
    · rw [flatMap_cons,hunits,← hl]
      rfl
    · rw [flatMap_cons,← hbytes]
  | case5 a b rest hshort u=>
    rename_i hsurrogate
    have hsurrogate : (isHigh (a.toNat+256*b.toNat) || isLow (a.toNat+256*b.toNat))=true:=hsurrogate
    rw [utf16leToUtf8] at h
    · simp [hsurrogate] at h
    · exact hshort
  | case6 a b rest hshort u hsurrogate=>
    rename_i ih
    have hunit : (isHigh (a.toNat+256*b.toNat) || isLow (a.toNat+256*b.toNat))=false:=
      (Bool.not_eq_true _).mp hsurrogate
    obtain ⟨hhigh,hlow⟩:=Bool.or_eq_false_iff.mp hunit
    rw [utf16leToUtf8] at h
    · simp only [hunit,Bool.false_eq_true,if_false,map_eq_some_iff] at h
      obtain ⟨t,ht,rfl⟩:=h
      obtain ⟨l,hl,rfl⟩:=ih (by simp only [length_cons] at heven;omega) ht
      obtain ⟨hunits,hbytes⟩:=utf16Char_unit hhigh hlow
      refine ⟨Char.ofNat (a.toNat+256*b.toNat)::l,?_,?_⟩
      · rw [flatMap_cons,hunits,← hl]
        rfl
      · rw [flatMap_cons,← hbytes]
    · exact hshort
  | case7 t hlong hshort=>
    cases t with
    | nil=>
      rw [utf16leToUtf8] at h
      · exact ⟨[],rfl,(some.inj h).symm⟩
      · exact hlong
      · exact hshort
    | cons a t=>
      cases t with
      | nil=>exact absurd heven (by simp)
      | cons b t=>exact (hshort a b t rfl).elim

/-- At a place of the pool stand the lengths, a text in the encoding of the pool and its end, all
in front of `stop`, and `s` is that text in UTF-8. -/
def StoredText (d : Bytes) (utf8 : Bool) (p stop : ℕ) (s : Bytes) : Prop :=
  ∃ (l : List Char) (lengths stored closing rest : Bytes),
    s = l.flatMap String.utf8EncodeChar ∧ d.drop p = lengths++stored++closing++rest ∧
    p + (lengths++stored++closing).length ≤ stop ∧
    if utf8 then
      stored = s ∧ closing=[0] ∧
        ∃ a b units, lengths=a++b ∧ Length8 a units ∧ Length8 b stored.length
    else
      stored = l.flatMap utf16Char ∧ closing=[0,0] ∧
        ∃ units, Length16 lengths units ∧ stored.length=units*2

theorem stringUtf8_stored (hstop:stop≤d.length)
    (h:(AxmlParser.stringUtf8 d p stop).value=.ok s) : StoredText d true p stop s:=by
  simp only [AxmlParser.stringUtf8,AxmlParser.readLen8,bind_ok,failIf_ok,lengthAt_ok,read_ok,
    byteAt_ok,pure_ok] at h
  obtain ⟨x,hx,units,hunits,y,hy,size,hsize,-,hfits,text,htext,-,hvalid,last,hlast,
    -,hzero,-,-,rfl⟩:=h
  obtain ⟨a,ha,hdropa,hx1,hxle⟩:=len8_ok hstop hx hunits
  obtain ⟨b,hb,hdropb,hy1,hyle⟩:=len8_ok hstop hy hsize
  have hlen : text.length=size:=by
    rw [← htext,length_take,length_drop]
    omega
  obtain ⟨l,hl⟩:=(Utf8Copies.isUtf8_iff text).mp (by simpa [validUtf8] using hvalid)
  have hend : d.drop (y.1+size)=0::d.drop (y.1+size+1):=by
    rw [drop_getD (by omega),hlast,not_not.mp hzero]
  refine ⟨l,a++b,text,[0],d.drop (y.1+size+1),hl.symm,?_,?_,?_⟩
  · rw [hdropa,hdropb,drop_take y.1 size,htext,hend]
    simp only [append_assoc,cons_append,nil_append]
  · simp only [length_append,length_cons,length_nil]
    omega
  · rw [if_pos rfl]
    exact ⟨rfl,rfl,a,b,units,rfl,ha,hlen▸hb⟩

theorem littleEndian_zero {b:Bytes} (hb:b.length=2) (h:littleEndian b=0) : b=[0,0]:=by
  rcases b with _ | ⟨x,_ | ⟨y,_ | ⟨z,b⟩⟩⟩ <;> simp at hb
  simp only [littleEndian,Nat.mul_zero,Nat.add_zero] at h
  have hx : x.toNat=0:=by omega
  have hy : y.toNat=0:=by omega
  rw [UInt8.toNat_inj.mp (hx.trans UInt8.toNat_zero.symm),
    UInt8.toNat_inj.mp (hy.trans UInt8.toNat_zero.symm)]

theorem stringUtf16_stored (hstop:stop≤d.length)
    (h:(AxmlParser.stringUtf16 d p stop).value=.ok s) : StoredText d false p stop s:=by
  simp only [AxmlParser.stringUtf16,AxmlParser.readLen16,bind_ok,failIf_ok,lengthAt_ok,read_ok,
    axml_u16_ok] at h
  obtain ⟨x,hx,units,hunits,-,hfits,last,hlast,-,hzero,text,htext,hs⟩:=h
  obtain ⟨a,ha,hdropa,hx1,hxle⟩:=len16_ok hstop hx hunits
  have hlen : text.length=units*2:=by
    rw [← htext,length_take,length_drop]
    omega
  cases hdecode : utf16leToUtf8 text with
  | none=>
    rw [hdecode] at hs
    exact absurd hs (by simp [fail_ok])
  | some t=>
    rw [hdecode] at hs
    obtain rfl : t=s:=pure_ok.mp hs
    obtain ⟨l,hl,hs⟩:=utf16leToUtf8_some (by omega) hdecode
    have hend : (d.drop (x.1+units*2)).take 2=[0,0]:=by
      refine littleEndian_zero ?_ (hlast.2.trans (not_not.mp hzero))
      simp only [length_take,length_drop]
      omega
    refine ⟨l,a,text,[0,0],d.drop (x.1+units*2+2),hs,?_,?_,?_⟩
    · rw [hdropa,drop_take x.1 (units*2),htext,drop_take (x.1+units*2) 2,hend]
      simp only [append_assoc]
    · simp only [length_append,length_cons,length_nil]
      omega
    · rw [if_neg Bool.false_ne_true]
      exact ⟨hl,rfl,units,ha,hlen⟩

/-- Whether the strings are in UTF-8, as the flags of the header say. -/
def poolUtf8 (d : Bytes) (off : ℕ) : Bool := numeral d (off+16) 4 &&& 0x100 ≠ 0

/-- The end of the strings: the beginning of the styles, or the end of the chunk. -/
def poolStop (d : Bytes) (off size : ℕ) : ℕ :=
  if numeral d (off+24) 4 ≠ 0 then off + numeral d (off+24) 4 else off+size

/-- Where the string with this number begins. -/
def poolPlace (d : Bytes) (off hs i : ℕ) : ℕ :=
  off + numeral d (off+20) 4 + numeral d (off+hs+i*4) 4

theorem poolHeader_ok (hok:(AxmlParser.poolHeader d off hs size).value=.ok h) :
    h.count=numeral d (off+8) 4 ∧ h.utf8=poolUtf8 d off ∧
      h.stringsStart=numeral d (off+20) 4 ∧ h.stringEnd=poolStop d off size ∧
      h.stringEnd ≤ off+size:=by
  simp only [AxmlParser.poolHeader,bind_ok,failIf_ok,axml_u32_ok,sum_ok,pure_ok] at hok
  obtain ⟨count,hcount,styles,hstyles,flags,hflags,stringsStart,hstrings,stylesStart,
    hstylesStart,-,hcounts,entries,hentries,-,hindex,-,hstart,-,hstyle,rfl⟩:=hok
  refine ⟨hcount.2.symm,?_,hstrings.2.symm,?_,?_⟩
  · rw [poolUtf8,hflags.2]
  · rw [poolStop,hstylesStart.2]
  · simp only
    split
    case isTrue h0=>omega
    case isFalse=>exact le_rfl

theorem poolString_stored {i:ℕ} (hheader:(AxmlParser.poolHeader d off hs size).value=.ok h)
    (hsize:off+size≤d.length)
    (hok:(AxmlParser.poolString d off hs size h i).value=.ok s) :
    StoredText d (poolUtf8 d off) (poolPlace d off hs i) (poolStop d off size) s:=by
  obtain ⟨-,hutf8,hstart,hstop,hle⟩:=poolHeader_ok hheader
  simp only [AxmlParser.poolString,bind_ok,failIf_ok,axml_u32_ok] at hok
  obtain ⟨rel,⟨-,rfl⟩,-,-,-,-,hs⟩:=hok
  rw [hstart] at hs
  rw [← hutf8,← hstop,poolPlace]
  split at hs
  case isTrue htrue=>
    rw [htrue]
    exact stringUtf8_stored (by omega) hs
  case isFalse hfalse=>
    rw [(Bool.not_eq_true _).mp hfalse]
    exact stringUtf16_stored (by omega) hs

/-- What a loop that adds one result at each turn has added. -/
theorem each_append {ι α:Type} {f:ℕ→Run ι α} {l:List α} (h:(each (fun out i=>do
      let s ← f i
      return out++[s]) [] (List.range n)).value = .ok l) :
    l.length=n ∧ ∀i s,l[i]? = some s → (f i).value=.ok s:=by
  have hall:=each_ok (P:=fun before out=>out.length=before.length ∧
    ∀i s,out[i]? = some s → (f i).value=.ok s) (fun before a out t hprefix hP ht=>?_)
    ⟨rfl,fun i s hi=>by simp at hi⟩ h
  · exact ⟨hall.1.trans length_range,hall.2⟩
  · obtain ⟨x,hx,ht⟩:=bind_ok.mp ht
    obtain rfl:=pure_ok.mp ht
    have ha : a=before.length:=by
      obtain ⟨rest,hrest⟩:= hprefix
      have hget:=congrArg (fun l=>l[before.length]?) hrest
      simp only [append_assoc,getElem?_append_right le_rfl,Nat.sub_self,
        cons_append,getElem?_cons_zero] at hget
      have hlt : before.length<n:=by
        have:=congrArg List.length hrest
        simp only [length_append,length_cons,length_nil,length_range] at this
        omega
      rw [getElem?_range hlt] at hget
      exact some.inj hget
    refine ⟨by simp [hP.1],fun i s hi=>?_⟩
    rw [getElem?_append] at hi
    split at hi
    case isTrue=>exact hP.2 i s hi
    case isFalse hge=>
      obtain ⟨hzero,rfl⟩ : i-out.length=0 ∧ x=s:=by
        cases hk : i-out.length with
        | zero=>exact ⟨rfl,by simpa [hk] using hi⟩
        | succ k=>simp [hk] at hi
      have : i=a:=by omega
      exact this▸hx

def PoolStrings (d : Bytes) (off hs size : ℕ) (strings : List Bytes) : Prop :=
  strings.length = numeral d (off+8) 4 ∧ ∀ i s, strings[i]? = some s →
    StoredText d (poolUtf8 d off) (poolPlace d off hs i) (poolStop d off size) s

theorem parseStringPool_stored {st st':AxmlState} (hsize:off+size≤d.length)
    (hfresh:st.strings=[])
    (hok:(AxmlParser.parseStringPool d st off hs size).value=.ok st') :
    PoolStrings d off hs size st'.strings:=by
  simp only [AxmlParser.parseStringPool,bind_ok,failIf_ok,pure_ok] at hok
  obtain ⟨-,-,-,hsizes,h,hheader,strings,hstrings,rfl⟩:=hok
  rw [hfresh] at hstrings
  obtain ⟨hlen,hall⟩:=each_append (f:=AxmlParser.poolString d off hs size h) hstrings
  exact ⟨hlen.trans (poolHeader_ok hheader).1,fun i s hi=>
    poolString_stored hheader hsize (hall i s hi)⟩

/-- What the reader of binary XML accepts the reader of tables accepts with the same strings, and
each of them is the text that stands at its place. -/
theorem pool_readers_agree (d : Bytes) (off hs size limit : ℕ) (label : String)
    (st st' : AxmlState) (hchunk : PoolChunk d off hs size) (hlimit : off+size≤limit)
    (hfresh : st.strings=[])
    (hok : (AxmlParser.parseStringPool d st off hs size).value=.ok st') :
    (ArscParser.pool d off limit label).value=.ok st'.strings ∧
      st'.strings.length=numeral d (off+8) 4 ∧
      ∀ i s, st'.strings[i]? = some s →
        StoredText d (poolUtf8 d off) (poolPlace d off hs i) (poolStop d off size) s :=
  ⟨pool_agree hchunk hlimit hfresh hok,parseStringPool_stored hchunk.inside hfresh hok⟩

/-- A pool of one string in UTF-8. -/
def onePool8 : Bytes :=
  [1,0,28,0,36,0,0,0,1,0,0,0,0,0,0,0,0,1,0,0,32,0,0,0,0,0,0,0,0,0,0,0,
    1,1,0x61,0]

theorem pool_readers_agree_one :
    (ArscParser.pool onePool8 0 36 "global string pool").value = .ok [[0x61]]:=
  (pool_readers_agree onePool8 0 28 36 36 "global string pool" {}
    {strings:=[[0x61]],stringPoolSeen:=true,out:={stringPoolUtf8:=true,stringCount:=1}}
    ⟨rfl,rfl,rfl,by decide,by decide⟩ le_rfl rfl rfl).1

end AutoRefirst.Apk
