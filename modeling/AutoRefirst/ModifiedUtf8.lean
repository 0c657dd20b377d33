import AutoRefirst.AndroidManifest
import AutoRefirst.LebReaders
import AutoRefirst.Utf8Copies

/-!
# Strings of DEX and class files

Modified UTF-8 keeps every sequence of 16-bit units, surrogates included. Two readers take it
apart: that of DEX files, which is told how many units to expect, and that of the constant pool.
-/

namespace AutoRefirst.ModifiedUtf8
open List LebReaders Leb128 Utf8Copies Apk

def twoBytes (c q : UInt8) : ℕ := ((c &&& 0x1f).toNat <<< 6) ||| (q &&& 0x3f).toNat

def threeBytes (c q r : UInt8) : ℕ :=
  ((c &&& 0x0f).toNat <<< 12) ||| ((q &&& 0x3f).toNat <<< 6) ||| (r &&& 0x3f).toNat

/-- One turn: the unit at an offset and the length of its form, nothing at the zero byte. -/
def dexUnit (d : Bytes) (limit off : ℕ) : Except DexParseError (Option (ℕ×ℕ)) := do
  let c ← dexByte d limit "MUTF-8 string" off
  if c = 0 then .ok none
  else if c < 0x80 then .ok (some (c.toNat,1))
  else if c &&& 0xe0 = 0xc0 then
    let c2 ← dexByte d limit "MUTF-8 continuation" (off+1)
    if c2 &&& 0xc0 ≠ 0x80 then .error ⟨off+1,"invalid DEX MUTF-8 continuation"⟩
    else if twoBytes c c2 = 0 then
      if c ≠ 0xc0 ∨ c2 ≠ 0x80 then .error ⟨off,"invalid DEX MUTF-8 NUL encoding"⟩
      else .ok (some (0,2))
    else if twoBytes c c2 < 0x80 then .error ⟨off,"overlong DEX MUTF-8 two-byte sequence"⟩
    else .ok (some (twoBytes c c2,2))
  else if c &&& 0xf0 = 0xe0 then
    dexNeed d limit (off+1) 2 "MUTF-8 continuation"
    let c2 := d.getD (off+1) 0
    let c3 := d.getD (off+2) 0
    if c2 &&& 0xc0 ≠ 0x80 ∨ c3 &&& 0xc0 ≠ 0x80 then
      .error ⟨off+1,"invalid DEX MUTF-8 continuation"⟩
    else if threeBytes c c2 c3 < 0x800 then
      .error ⟨off,"overlong DEX MUTF-8 three-byte sequence"⟩
    else .ok (some (threeBytes c c2 c3,3))
  else .error ⟨off,"invalid four-byte or malformed DEX MUTF-8 sequence"⟩

def dexUnitsFrom (d : Bytes) (limit : ℕ) : ℕ → ℕ → Except DexParseError (List ℕ)
  | 0, off => .error ⟨off,"truncated DEX MUTF-8 string"⟩
  | n+1, off => do
    match ← dexUnit d limit off with
    | none => .ok []
    | some (u,k) =>
      let us ← dexUnitsFrom d limit n (off+k)
      .ok (u::us)

def appendUtf8 (cp : ℕ) : Bytes := appendUtf8Cp cp

def joined (hi lo : ℕ) : ℕ := 0x10000+(((hi-0xd800) <<< 10) ||| (lo-0xdc00))

/-- The text, and whether a surrogate without its other half was replaced. -/
def utf16UnitsToUtf8 : List ℕ → Bytes×Bool
  | [] => ([],false)
  | [u] => if isHigh u ∨ isLow u then (appendUtf8 0xfffd,true) else (appendUtf8 u,false)
  | u :: lo::us =>
    if isHigh u then
      if isLow lo then
        let r := utf16UnitsToUtf8 us
        (appendUtf8 (joined u lo) ++ r.1,r.2)
      else (appendUtf8 0xfffd ++ (utf16UnitsToUtf8 (lo::us)).1,true)
    else if isLow u then (appendUtf8 0xfffd ++ (utf16UnitsToUtf8 (lo::us)).1,true)
    else
      let r := utf16UnitsToUtf8 (lo::us)
      (appendUtf8 u ++ r.1,r.2)

/-- What the reader knows of the file and its container. -/
structure DexImage where
  bytes : Bytes
  addressLimit : ℕ
  containerV41 : Bool
  containerSize : ℕ
  dataOff : ℕ
  dataSize : ℕ

variable (x : DexImage)

def inData (off : ℕ) : Bool :=
  if x.containerV41 then off < x.containerSize
  else if x.dataSize = 0 then false
  else x.dataOff ≤ off && off < x.dataOff+x.dataSize

/-- The text, its units, and whether there is an anomaly to report. A turn takes a byte, so that
the length bounds the turns. -/
def parseMutf8 (off : ℕ) : Except DexParseError (Bytes×List ℕ×Bool) :=
  if ¬inData x off then .error ⟨off,"string_data_off is outside DEX data section"⟩
  else do
    let (declared,p) ← readUleb x.bytes x.addressLimit off "string_data utf16_size"
    let us ← dexUnitsFrom x.bytes x.addressLimit x.bytes.length p
    if us.length ≠ declared then .error ⟨off,"DEX MUTF-8 utf16_size mismatch"⟩
    else .ok ((utf16UnitsToUtf8 us).1,us,(utf16UnitsToUtf8 us).2)

/-- One turn: a unit and what follows its form. -/
def jvmUnit : Bytes → Option (ℕ×Bytes)
  | [] => none
  | c::b =>
    if c ≠ 0 ∧ c < 0x80 then some (c.toNat,b)
    else if c &&& 0xe0 = 0xc0 then
      match b with
      | q::b =>
        if q &&& 0xc0 ≠ 0x80 then none
        else if twoBytes c q ≠ 0 ∧ twoBytes c q < 0x80 then none
        else some (twoBytes c q,b)
      | [] => none
    else if c &&& 0xf0 = 0xe0 then
      match b with
      | q :: r::b =>
        if q &&& 0xc0 ≠ 0x80 ∨ r &&& 0xc0 ≠ 0x80 then none
        else if threeBytes c q r < 0x800 then none
        else some (threeBytes c q r,b)
      | _ => none
    else none

def jvmUnitsFrom : ℕ → Bytes → Option (List ℕ)
  | _, [] => some []
  | 0, _::_ => none
  | n+1, c::b =>
    (jvmUnit (c::b)).bind fun y => (jvmUnitsFrom n y.2).map (y.1 :: ·)

def utf8Emit (cp : ℕ) : Bytes := appendUtf8Cp cp

def jvmText : List ℕ → Option Bytes
  | [] => some []
  | [v] => if isHigh v ∨ isLow v then none else some (utf8Emit v)
  | v :: lo::u =>
    if isHigh v then
      if isLow lo then (jvmText u).map (utf8Emit (joined v lo) ++ ·) else none
    else if isLow v then none
    else (jvmText (lo::u)).map (utf8Emit v ++ ·)

def mutf8 (b : Bytes) : Option Bytes := (jvmUnitsFrom b.length b).bind jvmText

/-- One byte, but for zero, two below 0x800, and three from there on. -/
def form (u : ℕ) : Bytes :=
  if 0 < u ∧ u < 0x80 then [u.toUInt8]
  else if u < 0x800 then [(0xc0+u/64).toUInt8,(0x80 + u % 64).toUInt8]
  else [(0xe0+u/4096).toUInt8,(0x80 + u/64 % 64).toUInt8,(0x80 + u % 64).toUInt8]

def encode (us : List ℕ) : Bytes := us.flatMap form

def Units (us : List ℕ) : Prop := ∀ u∈us, u<2^16

/-- Every surrogate has its other half. -/
inductive Paired : List ℕ → Prop
  | nil : Paired []
  | unit {u : ℕ} {us : List ℕ} : ¬isHigh u → ¬isLow u → Paired us → Paired (u::us)
  | pair {hi lo : ℕ} {us : List ℕ} : isHigh hi → isLow lo → Paired us → Paired (hi :: lo::us)

/-- The unit with the bytes that stand for it. -/
inductive Spelled : ℕ → Bytes → Prop
  | one {c : UInt8} : c≠0 → c<0x80 → Spelled c.toNat [c]
  | two {c q : UInt8} : c &&& 0xe0 = 0xc0 → q &&& 0xc0 = 0x80 →
      (twoBytes c q = 0 ∨ 0x80 ≤ twoBytes c q) → Spelled (twoBytes c q) [c,q]
  | three {c q r : UInt8} : c &&& 0xf0 = 0xe0 → q &&& 0xc0 = 0x80 → r &&& 0xc0 = 0x80 →
      0x800 ≤ threeBytes c q r → Spelled (threeBytes c q r) [c,q,r]

theorem lead_two (c:UInt8) : c &&& 0xe0=0xc0 ↔ 192 ≤ c.toNat ∧ c.toNat<224:=by
  revert c
  exact eachByte (by decide +kernel)

theorem lead_three (c:UInt8) : c &&& 0xf0=0xe0 ↔ 224 ≤ c.toNat ∧ c.toNat<240:=by
  revert c
  exact eachByte (by decide +kernel)

theorem continues_iff (q:UInt8) : q &&& 0xc0=0x80 ↔ 128≤q.toNat ∧ q.toNat<192:=
  not_iff_not.mp (continuation_iff q)

theorem twoBytes_eq (c q:UInt8) : twoBytes c q = c.toNat % 32 * 64 + q.toNat % 64:=by
  have hbits : (c &&& 0x1f).toNat = c.toNat % 32:=by
    revert c
    exact eachByte (by decide +kernel)
  rw [twoBytes,shifted_or,hbits]

theorem threeBytes_eq (c q r:UInt8) :
    threeBytes c q r = (c.toNat % 16 * 64 + q.toNat % 64)*64 + r.toNat % 64:=by
  have hbits : (c &&& 0x0f).toNat = c.toNat % 16:=by
    revert c
    exact eachByte (by decide +kernel)
  rw [threeBytes,Nat.shiftLeft_add _ 6 6,← Nat.shiftLeft_or_distrib,shifted_or,shifted_or,hbits]

theorem byte_eq {n:ℕ} {c:UInt8} (h:n=c.toNat) : n.toUInt8=c:=by
  rw [h]
  exact UInt8.ofNat_toNat

theorem Spelled.form {u:ℕ} {f:Bytes} (h:Spelled u f) : u<2^16 ∧ ModifiedUtf8.form u=f:=by
  cases h with
  | @one c hc hlt=>
    have hpos : 0<c.toNat:=Nat.pos_of_ne_zero fun h=>hc (UInt8.toNat_inj.mp h)
    have hsmall : c.toNat<0x80:=UInt8.lt_iff_toNat_lt.mp hlt
    exact ⟨by omega,by rw [ModifiedUtf8.form,if_pos ⟨hpos,hsmall⟩,byte_eq rfl]⟩
  | @two c q hc hq hmin=>
    rw [lead_two] at hc
    rw [continues_iff] at hq
    rw [twoBytes_eq] at hmin ⊢
    refine ⟨by omega,?_⟩
    rw [ModifiedUtf8.form,if_neg (by omega),if_pos (by omega),byte_eq (c:=c) (by omega),
      byte_eq (c:=q) (by omega)]
  | @three c q r hc hq hr hmin=>
    rw [lead_three] at hc
    rw [continues_iff] at hq hr
    rw [threeBytes_eq] at hmin ⊢
    refine ⟨by omega,?_⟩
    rw [ModifiedUtf8.form,if_neg (by omega),if_neg (by omega),byte_eq (c:=c) (by omega),
      byte_eq (c:=q) (by omega),byte_eq (c:=r) (by omega)]

theorem toNat_byte {n:ℕ} (h:n<256) : n.toUInt8.toNat=n:=UInt8.toNat_ofNat_of_lt h

theorem spelled_form {u:ℕ} (hu:u<2^16) : Spelled u (form u):=by
  rw [form]
  split_ifs with hone htwo
  · have hbyte:=toNat_byte (n:=u) (by omega)
    have hpos : u.toUInt8≠0:=fun h=>by
      rw [h] at hbyte
      exact absurd hone.1 (hbyte▸by decide)
    have:=Spelled.one hpos (UInt8.lt_iff_toNat_lt.mpr (lt_of_eq_of_lt hbyte hone.2))
    rwa [hbyte] at this
  · have hc:=toNat_byte (n:=0xc0+u/64) (by omega)
    have hq:=toNat_byte (n:=0x80 + u % 64) (by omega)
    have hvalue : twoBytes (0xc0+u/64).toUInt8 (0x80 + u % 64).toUInt8=u:=by
      rw [twoBytes_eq,hc,hq]
      omega
    have:=@Spelled.two (0xc0+u/64).toUInt8 (0x80 + u % 64).toUInt8
      ((lead_two _).mpr (by omega)) ((continues_iff _).mpr (by omega)) (by omega)
    rwa [hvalue] at this
  · have hc:=toNat_byte (n:=0xe0+u/4096) (by omega)
    have hq:=toNat_byte (n:=0x80 + u/64 % 64) (by omega)
    have hr:=toNat_byte (n:=0x80 + u % 64) (by omega)
    have hvalue : threeBytes (0xe0+u/4096).toUInt8 (0x80 + u/64 % 64).toUInt8
        (0x80 + u % 64).toUInt8=u:=by
      rw [threeBytes_eq,hc,hq,hr]
      omega
    have:=@Spelled.three (0xe0+u/4096).toUInt8 (0x80 + u/64 % 64).toUInt8
      (0x80 + u % 64).toUInt8 ((lead_three _).mpr (by omega)) ((continues_iff _).mpr (by omega))
      ((continues_iff _).mpr (by omega)) (by omega)
    rwa [hvalue] at this

variable {u : ℕ} {us : List ℕ} {b : Bytes}

theorem lead_large {c:UInt8} (h:192 ≤ c.toNat) : c≠0 ∧ ¬c<0x80:=by
  constructor
  · rintro rfl
    exact absurd h (by decide)
  · intro hlt
    exact absurd (UInt8.lt_iff_toNat_lt.mp hlt) (Nat.not_lt.mpr (Nat.le_trans (by decide) h))

theorem three_not_two {c:UInt8} (h:c &&& 0xf0=0xe0) : ¬c &&& 0xe0=0xc0:=by
  rw [lead_two]
  rw [lead_three] at h
  omega

theorem jvmUnit_iff {rest:Bytes} : jvmUnit b=some (u,rest) ↔ ∃f,Spelled u f ∧ b=f++rest:=by
  constructor
  · intro h
    unfold jvmUnit at h
    split at h
    · cases h
    split_ifs at h with hone htwo hthree
    · cases h
      exact ⟨_,.one hone.1 hone.2,rfl⟩
    · split at h
      · split_ifs at h with hq hmin
        cases h
        exact ⟨_,.two htwo (not_not.mp hq) (by omega),rfl⟩
      · cases h
    · split at h
      · split_ifs at h with hq hmin
        cases h
        push Not at hq
        exact ⟨_,.three hthree hq.1 hq.2 (Nat.not_lt.mp hmin),rfl⟩
      · cases h
  · rintro ⟨f,hf,rfl⟩
    cases hf with
    | one hc hlt=>exact if_pos ⟨hc,hlt⟩
    | two hc hq hmin=>
      simp only [jvmUnit,cons_append,nil_append]
      rw [if_neg fun h=>(lead_large ((lead_two _).mp hc).1).2 h.2,if_pos hc,if_neg (not_not.mpr hq),
        if_neg (by omega)]
    | three hc hq hr hmin=>
      simp only [jvmUnit,cons_append,nil_append]
      rw [if_neg fun h=>(lead_large (Nat.le_trans (by decide) ((lead_three _).mp hc).1)).2 h.2,
        if_neg (three_not_two hc),if_pos hc,if_neg (by rw [hq,hr];decide),
        if_neg (Nat.not_lt.mpr hmin)]

theorem Spelled.length_pos {f:Bytes} (h:Spelled u f) : 0<f.length:=by
  cases h <;> exact Nat.succ_pos _

theorem encode_cons (u:ℕ) (us:List ℕ) : encode (u::us) = form u++encode us:=flatMap_cons

theorem units_cons : Units (u::us) ↔ u<2^16 ∧ Units us:=forall_mem_cons

theorem encode_ne_nil (h:Units (u::us)) : encode (u::us)≠[]:=by
  rw [encode_cons]
  exact append_ne_nil_of_left_ne_nil
    (ne_nil_of_length_pos (spelled_form (units_cons.mp h).1).length_pos) _

theorem jvmUnitsFrom_nil {n:ℕ} : jvmUnitsFrom n []=some us ↔ Units us ∧ []=encode us:=by
  rw [jvmUnitsFrom]
  cases us with
  | nil=>exact iff_of_true rfl ⟨nofun,rfl⟩
  | cons u us=>exact iff_of_false nofun fun h=>encode_ne_nil h.1 h.2.symm

/-- Each turn takes the form of a unit, and the other forms are refused. -/
theorem jvmUnitsFrom_iff {n:ℕ} (hn:b.length≤n) :
    jvmUnitsFrom n b=some us ↔ Units us ∧ b=encode us:=by
  induction n generalizing b us with
  | zero=>
    obtain rfl:=length_eq_zero_iff.mp (Nat.le_zero.mp hn)
    exact jvmUnitsFrom_nil
  | succ n ih=>
    cases b with
    | nil=>exact jvmUnitsFrom_nil
    | cons c b=>
      rw [jvmUnitsFrom,Option.bind_eq_some_iff]
      constructor
      · rintro ⟨⟨u,rest⟩,hunit,hmap⟩
        obtain ⟨us,hus,rfl⟩:=Option.map_eq_some_iff.mp hmap
        obtain ⟨f,hf,heq⟩:=jvmUnit_iff.mp hunit
        have hlen:=congrArg length heq
        rw [length_append] at hlen
        have hpos:=hf.length_pos
        have hrest : rest.length≤n:=by omega
        obtain ⟨hunits,rfl⟩:=(ih hrest).mp hus
        exact ⟨units_cons.mpr ⟨hf.form.1,hunits⟩,by rw [encode_cons,hf.form.2,heq]⟩
      · rintro ⟨hunits,heq⟩
        cases us with
        | nil=>cases heq
        | cons u us=>
          rw [units_cons] at hunits
          rw [encode_cons] at heq
          have hf:=spelled_form hunits.1
          have hlen:=congrArg length heq
          rw [length_append] at hlen
          have hpos:=hf.length_pos
          have hrest : (encode us).length≤n:=by omega
          exact ⟨(u,encode us),jvmUnit_iff.mpr ⟨_,hf,heq⟩,Option.map_eq_some_iff.mpr
            ⟨us,(ih hrest).mpr ⟨hunits.2,rfl⟩,rfl⟩⟩

theorem text_iff (us:List ℕ) : (Paired us ↔ (utf16UnitsToUtf8 us).2=false) ∧
    jvmText us = if (utf16UnitsToUtf8 us).2 then none else some (utf16UnitsToUtf8 us).1:=by
  induction us using jvmText.induct with
  | case1=>exact ⟨iff_of_true .nil rfl,rfl⟩
  | case2 v hv=>
    rw [utf16UnitsToUtf8,if_pos hv,jvmText,if_pos hv]
    refine ⟨iff_of_false (fun h=>?_) nofun,rfl⟩
    cases h with
    | unit hhigh hlow _=>exact hv.elim hhigh hlow
  | case3 v hv=>
    rw [utf16UnitsToUtf8,if_neg hv,jvmText,if_neg hv]
    exact ⟨iff_of_true (.unit (fun h=>hv (.inl h)) (fun h=>hv (.inr h)) .nil) rfl,rfl⟩
  | case4 v lo u hhigh hlow ih=>
    rw [utf16UnitsToUtf8,if_pos hhigh,if_pos hlow,jvmText,if_pos hhigh,if_pos hlow,ih.2]
    constructor
    · rw [← ih.1]
      constructor
      · intro h
        cases h with
        | unit h _ _=>exact absurd hhigh h
        | pair _ _ h=>exact h
      · exact .pair hhigh hlow
    · split_ifs <;> rfl
  | case5 v lo u hhigh hlow=>
    rw [utf16UnitsToUtf8,if_pos hhigh,if_neg hlow,jvmText,if_pos hhigh,if_neg hlow]
    refine ⟨iff_of_false (fun h=>?_) nofun,rfl⟩
    cases h with
    | unit h _ _=>exact h hhigh
    | pair _ h _=>exact hlow h
  | case6 v lo u hhigh hlow=>
    rw [utf16UnitsToUtf8,if_neg hhigh,if_pos hlow,jvmText,if_neg hhigh,if_pos hlow]
    refine ⟨iff_of_false (fun h=>?_) nofun,rfl⟩
    cases h with
    | unit _ h _=>exact h hlow
    | pair h _ _=>exact hhigh h
  | case7 v lo u hhigh hlow ih=>
    rw [utf16UnitsToUtf8,if_neg hhigh,if_neg hlow,jvmText,if_neg hhigh,if_neg hlow,ih.2]
    constructor
    · rw [← ih.1]
      constructor
      · intro h
        cases h with
        | unit _ _ h=>exact h
        | pair h _ _=>exact absurd h hhigh
      · exact .unit hhigh hlow
    · split_ifs <;> rfl

/-- What is decoded, and what is refused. -/
theorem mutf8_iff {t:Bytes} : mutf8 b=some t ↔
    ∃us,Units us ∧ b=encode us ∧ utf16UnitsToUtf8 us=(t,false):=by
  rw [mutf8,Option.bind_eq_some_iff]
  refine exists_congr fun us=>?_
  rw [jvmUnitsFrom_iff le_rfl,(text_iff us).2,and_assoc,Prod.ext_iff]
  cases (utf16UnitsToUtf8 us).2 with
  | false=>simp
  | true=>simp

variable {d : Bytes} {limit off : ℕ} {what : String}

theorem dexByte_ok {c:UInt8} : dexByte d limit what off=.ok c ↔
    (off<d.length ∧ (limit=0 ∨ off<limit)) ∧ d.getD off 0=c:=by
  rw [dexByte,dexNeed]
  split_ifs with hdata hlimit
  · exact iff_of_false nofun fun h=>by omega
  · exact iff_of_false nofun fun h=>by omega
  · rw [and_iff_right (by omega)]
    exact ⟨Except.ok.inj,congrArg Except.ok⟩

theorem dexByte_what {what':String} {c:UInt8} (h:dexByte d limit what off=.ok c) :
    dexByte d limit what' off=.ok c:=
  dexByte_ok.mpr (dexByte_ok.mp h)

theorem dexNeed_two : dexNeed d limit off 2 what=.ok () ↔
    dexByte d limit what off=.ok (d.getD off 0) ∧
      dexByte d limit what (off+1)=.ok (d.getD (off+1) 0):=by
  rw [dexByte_ok,dexByte_ok,dexNeed,and_iff_left rfl,and_iff_left rfl]
  split_ifs with hdata hlimit
  · exact iff_of_false nofun (by omega)
  · exact iff_of_false nofun (by omega)
  · exact iff_of_true rfl (by omega)

theorem dexUnit_end : dexUnit d limit off=.ok none ↔ dexByte d limit what off=.ok 0:=by
  constructor
  · intro h
    cases hc : dexByte d limit "MUTF-8 string" off with
    | error e=>
      rw [dexUnit,hc] at h
      cases h
    | ok c=>
      rw [dexUnit,hc] at h
      dsimp only [bind,Except.bind] at h
      by_cases hzero : c=0
      · exact dexByte_what (hzero▸hc)
      · rw [if_neg hzero] at h
        repeat' split at h
        all_goals cases h
  · intro h
    rw [dexUnit,dexByte_what h]
    rfl

theorem dexUnit_iff {k:ℕ} : dexUnit d limit off=.ok (some (u,k)) ↔
    ∃f,Spelled u f ∧ k=f.length ∧ Stands (dexByte d limit what) off f:=by
  constructor
  · intro h
    cases hc : dexByte d limit "MUTF-8 string" off with
    | error e=>
      rw [dexUnit,hc] at h
      cases h
    | ok c=>
      have hfirst : dexByte d limit what off=.ok c:=dexByte_what hc
      rw [dexUnit,hc] at h
      dsimp only [bind,Except.bind] at h
      split_ifs at h with hzero hone htwo hthree hcont hmin
      · cases h
      · cases h
        exact ⟨_,.one hzero hone,rfl,hfirst,trivial⟩
      · cases hq : dexByte d limit "MUTF-8 continuation" (off+1) with
        | error e=>
          rw [hq] at h
          cases h
        | ok q=>
          rw [hq] at h
          dsimp only at h
          split_ifs at h with hcont hnul hform hmin
          · cases h
            have hspelled:=Spelled.two htwo (not_not.mp hcont) (.inl hnul)
            rw [hnul] at hspelled
            exact ⟨_,hspelled,rfl,hfirst,dexByte_what hq,trivial⟩
          · cases h
            exact ⟨_,.two htwo (not_not.mp hcont) (.inr (Nat.not_lt.mp hmin)),rfl,hfirst,
              dexByte_what hq,trivial⟩
      · split at h <;> cases h
      · split at h <;> cases h
      · cases hneed : dexNeed d limit (off+1) 2 "MUTF-8 continuation" with
        | error e=>
          rw [hneed] at h
          cases h
        | ok _=>
          rw [hneed] at h
          cases h
          push Not at hcont
          obtain ⟨hq,hr⟩:=dexNeed_two.mp hneed
          exact ⟨_,.three hthree hcont.1 hcont.2 (Nat.not_lt.mp hmin),rfl,hfirst,
            dexByte_what hq,dexByte_what hr,trivial⟩
  · rintro ⟨f,hf,rfl,hstands⟩
    cases hf with
    | one hc hlt=>
      rw [dexUnit,dexByte_what hstands.1]
      dsimp only [bind,Except.bind]
      rw [if_neg hc,if_pos hlt]
      rfl
    | two hc hq hmin=>
      obtain ⟨hzero,hone⟩:=lead_large ((lead_two _).mp hc).1
      rw [dexUnit,dexByte_what hstands.1]
      dsimp only [bind,Except.bind]
      rw [if_neg hzero,if_neg hone,if_pos hc,dexByte_what hstands.2.1]
      dsimp only
      rw [if_neg (not_not.mpr hq)]
      split_ifs with hnul hform hlow
      · rw [lead_two] at hc
        rw [continues_iff] at hq
        rw [twoBytes_eq] at hnul
        rcases hform with h | h
        · exact absurd (UInt8.toNat_inj.mp (by change _=192;omega)) h
        · exact absurd (UInt8.toNat_inj.mp (by change _=128;omega)) h
      · rw [hnul]
        rfl
      · omega
      · rfl
    | @three c q r hc hq hr hmin=>
      obtain ⟨hzero,hone⟩:=lead_large (Nat.le_trans (by decide) ((lead_three _).mp hc).1)
      have hsecond:=(dexByte_ok.mp hstands.2.1).2
      have hthird:=(dexByte_ok.mp hstands.2.2.1).2
      have hneed : dexNeed d limit (off+1) 2 "MUTF-8 continuation" = .ok ():=
        dexNeed_two.mpr ⟨by rw [hsecond];exact dexByte_what hstands.2.1,
          by rw [hthird];exact dexByte_what hstands.2.2.1⟩
      rw [dexUnit,dexByte_what hstands.1]
      dsimp only [bind,Except.bind]
      rw [if_neg hzero,if_neg hone,if_neg (three_not_two hc),if_pos hc,hneed]
      dsimp only
      rw [hsecond,hthird,if_neg (by rw [hq,hr];decide),if_neg (Nat.not_lt.mpr hmin)]
      rfl

theorem stands_append {ε:Type} {next:ℕ→Except ε UInt8} {s t:Bytes} {off:ℕ} :
    Stands next off (s++t) ↔ Stands next off s ∧ Stands next (off+s.length) t:=by
  induction s generalizing off with
  | nil=>exact (and_iff_right trivial).symm
  | cons c s ih=>
    rw [cons_append,Stands,Stands,ih,length_cons,and_assoc,Nat.add_assoc,Nat.add_comm 1]

theorem units_of_dexUnitsFrom {n:ℕ} (h:dexUnitsFrom d limit n off=.ok us) :
    Units us ∧ Stands (dexByte d limit what) off (encode us++[0]):=by
  induction n generalizing off us with
  | zero=>cases h
  | succ n ih=>
    rw [dexUnitsFrom] at h
    cases hunit : dexUnit d limit off with
    | error e=>
      rw [hunit] at h
      cases h
    | ok unit=>
      rw [hunit] at h
      cases unit with
      | none=>
        cases h
        exact ⟨nofun,dexUnit_end.mp hunit,trivial⟩
      | some p=>
        obtain ⟨u,k⟩:=p
        cases hrest : dexUnitsFrom d limit n (off+k) with
        | error e=>
          dsimp only [bind,Except.bind] at h
          rw [hrest] at h
          cases h
        | ok us=>
          dsimp only [bind,Except.bind] at h
          rw [hrest] at h
          cases h
          obtain ⟨f,hf,rfl,hstands⟩:=dexUnit_iff.mp hunit
          obtain ⟨hunits,hafter⟩:=ih hrest
          rw [units_cons,encode_cons,hf.form.2,append_assoc,stands_append]
          exact ⟨⟨hf.form.1,hunits⟩,hstands,hafter⟩

theorem dexUnitsFrom_of_units {n:ℕ} (hn:us.length<n) (hunits:Units us)
    (h:Stands (dexByte d limit what) off (encode us++[0])) :
    dexUnitsFrom d limit n off=.ok us:=by
  induction n generalizing off us with
  | zero=>cases hn
  | succ n ih=>
    rw [dexUnitsFrom]
    cases us with
    | nil=>
      rw [dexUnit_end.mpr h.1]
      rfl
    | cons u us=>
      rw [units_cons] at hunits
      rw [encode_cons,append_assoc,stands_append] at h
      have hunit:=dexUnit_iff.mpr ⟨_,spelled_form hunits.1,rfl,h.1⟩
      have hrest:=ih (Nat.lt_of_succ_lt_succ hn) hunits.2 h.2
      dsimp only [bind,Except.bind]
      rw [hunit]
      dsimp only
      rw [hrest]

/-- A count, the bytes of a string and the zero byte behind them stand at an offset of the data. -/
structure Stored (x : DexImage) (off : ℕ) (e b : Bytes) : Prop where
  inside : inData x off
  zero_free : 0 ∉ b
  stands : Stands (dexByte x.bytes x.addressLimit "string_data utf16_size") off (e++(b++[0]))

theorem Spelled.zero_not_mem {f:Bytes} (h:Spelled u f) : 0 ∉ f:=by
  have hfree (q:UInt8) (hq:q &&& 0xc0=0x80) : 0≠q:=fun h=>by
    rw [← h] at hq
    exact absurd hq (by decide)
  cases h with
  | one hc _=>simpa using hc.symm
  | two hc hq _=>
    simpa using ⟨(lead_large ((lead_two _).mp hc).1).1.symm,hfree _ hq⟩
  | three hc hq hr _=>
    simpa using ⟨(lead_large (Nat.le_trans (by decide) ((lead_three _).mp hc).1)).1.symm,
      hfree _ hq,hfree _ hr⟩

theorem zero_not_mem_encode (h:Units us) : 0 ∉ encode us:=by
  intro hmem
  obtain ⟨u,hu,hzero⟩:=mem_flatMap.mp hmem
  exact (spelled_form (h u hu)).zero_not_mem hzero

theorem length_le_encode (h:Units us) : us.length≤(encode us).length:=by
  induction us with
  | nil=>exact le_rfl
  | cons u us ih=>
    rw [units_cons] at h
    rw [encode_cons,length_append,length_cons,Nat.add_comm]
    exact Nat.add_le_add (spelled_form h.1).length_pos (ih h.2)

theorem stands_zero_inj {ε:Type} {next:ℕ→Except ε UInt8} {s t:Bytes} {off:ℕ}
    (hs:0 ∉ s) (ht:0 ∉ t) (h:Stands next off (s++[0])) (h':Stands next off (t++[0])) :
    s=t:=by
  induction s generalizing t off with
  | nil=>
    cases t with
    | nil=>rfl
    | cons c t=>exact absurd (Except.ok.inj (h.1.symm.trans h'.1)▸mem_cons_self) ht
  | cons c s ih=>
    cases t with
    | nil=>exact absurd (Except.ok.inj (h'.1.symm.trans h.1)▸mem_cons_self) hs
    | cons c' t=>
      obtain rfl : c=c':=Except.ok.inj (h.1.symm.trans h'.1)
      rw [ih (fun h=>hs (mem_cons_of_mem _ h)) (fun h=>ht (mem_cons_of_mem _ h)) h.2 h'.2]

variable {x} {t : Bytes} {lone : Bool}

/-- What the reader of DEX files returns was stored. -/
theorem stored_of_parseMutf8 (h:parseMutf8 x off=.ok (t,us,lone)) :
    ∃e,Code e ∧ Stored x off e (encode us) ∧ number false e=us.length ∧ Units us ∧
      utf16UnitsToUtf8 us=(t,lone):=by
  rw [parseMutf8] at h
  split_ifs at h with hin
  cases hread : readUleb x.bytes x.addressLimit off "string_data utf16_size" with
  | error e=>
    rw [hread] at h
    cases h
  | ok r=>
    rw [hread] at h
    dsimp only [bind,Except.bind] at h
    cases hus : dexUnitsFrom x.bytes x.addressLimit x.bytes.length r.2 with
    | error e=>
      rw [hus] at h
      cases h
    | ok us'=>
      rw [hus] at h
      dsimp only at h
      split_ifs at h with hcount
      cases h
      obtain ⟨e,hcode,hstands,hplace,hnumber,-⟩:=
        (readUleb_right x.bytes x.addressLimit off "string_data utf16_size").exact r.1 r.2
          (by rw [hread];rfl)
      obtain ⟨hunits,hafter⟩:=units_of_dexUnitsFrom hus
      rw [hplace] at hafter
      exact ⟨e,hcode,⟨hin,zero_not_mem_encode hunits,
        stands_append.mpr ⟨hstands,hafter⟩⟩,by rw [← hnumber,not_not.mp hcount],hunits,rfl⟩

theorem parseMutf8_of_stored {e:Bytes} (he:Shortest false e) (hlt:us.length<2^32)
    (hcount:number false e=us.length) (hunits:Units us) (h:Stored x off e (encode us)) :
    parseMutf8 x off=.ok ((utf16UnitsToUtf8 us).1,us,(utf16UnitsToUtf8 us).2):=by
  obtain ⟨hstands,hafter⟩:=stands_append.mp h.stands
  have hfits : Fits false 32 (number false e):=by
    rw [hcount]
    exact ⟨Int.natCast_nonneg _,by exact_mod_cast hlt⟩
  obtain ⟨r,hr,heq⟩:=Option.map_eq_some_iff.mp
    ((readUleb_right x.bytes x.addressLimit off _).shortest e he hstands hfits)
  obtain ⟨hnumber,hplace⟩:=Prod.mk.inj heq
  have hlast:=(dexByte_ok.mp (stands_append.mp hafter).2.1).1.1
  have hlen:=length_le_encode hunits
  rw [parseMutf8,if_neg (not_not.mpr h.inside),toOption_eq_some.mp hr]
  dsimp only [bind,Except.bind]
  rw [hplace,dexUnitsFrom_of_units (by omega) hunits hafter]
  dsimp only
  rw [if_neg (not_not.mpr (by exact_mod_cast (hnumber.trans hcount).symm))]

theorem mutf8_iff_paired {t:Bytes} : mutf8 b=some t ↔
    ∃us,Units us ∧ Paired us ∧ b=encode us ∧ t=(utf16UnitsToUtf8 us).1:=by
  rw [mutf8_iff]
  refine exists_congr fun us=>and_congr_right fun _=>?_
  rw [(text_iff us).1,Prod.ext_iff,eq_comm (b:=t)]
  tauto

theorem readers_agree {e:Bytes} (he:Shortest false e) (h:Stored x off e b)
    (hcount:∀us,Units us → b=encode us → us.length<2^32 ∧ number false e=us.length) :
    mutf8 b=some t ↔ ∃us,parseMutf8 x off=.ok (t,us,false):=by
  rw [mutf8_iff]
  constructor
  · rintro ⟨us,hunits,rfl,htext⟩
    obtain ⟨hlt,hnumber⟩:=hcount us hunits rfl
    have hparse:=parseMutf8_of_stored he hlt hnumber hunits h
    rw [htext] at hparse
    exact ⟨us,hparse⟩
  · rintro ⟨us,hparse⟩
    obtain ⟨e',hcode,h',-,hunits,htext⟩:=stored_of_parseMutf8 hparse
    obtain ⟨hstands,hb⟩:=stands_append.mp h.stands
    obtain ⟨hstands',hb'⟩:=stands_append.mp h'.stands
    obtain rfl:=stands_inj he.1 hcode hstands hstands'
    obtain rfl:=stands_zero_inj h.zero_free h'.zero_free hb hb'
    exact ⟨us,hunits,rfl,htext⟩

/-- Each reader takes exactly the forms that the encoding gives: that of DEX files every sequence
of units with its count, that of the constant pool those without an unpaired surrogate. -/
theorem mutf8_exact : (∀ x off e us, Shortest false e → us.length<2^32 → number false e=us.length →
      Units us → Stored x off e (encode us) →
      parseMutf8 x off=.ok ((utf16UnitsToUtf8 us).1,us,(utf16UnitsToUtf8 us).2)) ∧
    (∀ x off t us lone, parseMutf8 x off=.ok (t,us,lone) →
      ∃ e, Code e ∧ Stored x off e (encode us) ∧ number false e=us.length ∧ Units us ∧
        utf16UnitsToUtf8 us=(t,lone)) ∧
    (∀ b t, mutf8 b=some t ↔ ∃ us, Units us ∧ Paired us ∧ b=encode us ∧ t=(utf16UnitsToUtf8 us).1) ∧
    ∀ x off e b t, Shortest false e → Stored x off e b →
      (∀ us, Units us → b=encode us → us.length<2^32 ∧ number false e=us.length) →
      (mutf8 b=some t ↔ ∃ us, parseMutf8 x off=.ok (t,us,false)) :=
  ⟨fun _ _ _ _=>parseMutf8_of_stored,fun _ _ _ _ _=>stored_of_parseMutf8,
    fun _ _=>mutf8_iff_paired,fun _ _ _ _ _=>readers_agree⟩

/-- A file of one string, the zero unit. -/
theorem mutf8_exact_zero : parseMutf8 ⟨[1,0xc0,0x80,0],0,false,0,0,4⟩ 0=.ok ([0],[0],false):=by
  have hshortest : Shortest false [1]:=⟨.last (by decide),fun _ h _=>length_pos_of_ne_nil h.ne_nil⟩
  exact mutf8_exact.1 ⟨[1,0xc0,0x80,0],0,false,0,0,4⟩ 0 [1] [0] hshortest (by decide) (by decide)
    (by simp [Units]) ⟨by decide,by decide,by simp [Stands,encode,form,dexByte,dexNeed]⟩

/-- An unpaired surrogate is a string of the format. -/
theorem unpaired_refused : ¬ ∀us, Units us → (encode us).length≤65535 →
    mutf8 (encode us)=some (utf16UnitsToUtf8 us).1:=by
  intro h
  have hrefused : mutf8 (encode [0xd800])=none:=by decide
  have hread:=h [0xd800] (by simp [Units]) (by decide)
  rw [hrefused] at hread
  cases hread

end AutoRefirst.ModifiedUtf8
