import AutoRefirst.BitStrings
import AutoRefirst.ByteText
import Mathlib.Tactic.Ring

/-!
# EA06 decompression

The bit reader of AutoIt records, the code of match lengths, and the decompression of a record.
-/

namespace AutoRefirst.AutoIt
open List Option

open BitStrings

def bitAt (d : Bytes) (bit : ℕ) : Bool := (d.getD (bit/8) 0).toNat.testBit (7 - bit % 8)

/-- `BitReader::get`: `n` bits from `bit` on, and where the next ones start. -/
def get (d : Bytes) (bit n : ℕ) : Option (ℕ×ℕ) :=
  if n > 32 ∨ bit+n > d.length*8 then none
  else
    some ((List.range n).foldl (fun v i => v <<< 1 ||| (bitAt d (bit+i)).toNat) 0,bit+n)

/-- Of each class, the least length, the bits of the difference to it, and the difference that
leads to the next class. -/
def classes : List (ℕ×ℕ×ℕ) := [(3,2,3),(6,3,7),(13,5,31),(44,8,255),(299,8,255)]

/-- After the last class each byte of ones adds to the least length, in 32 bits. -/
def readEscapes (d : Bytes) : ℕ → ℕ → ℕ → Option (ℕ×ℕ)
  | 0, _, _ => none
  | fuel+1, base, bit =>
    let base := (base+255) % 2^32
    match get d bit 8 with
    | none => none
    | some (x,bit) =>
      if x ≠ 255 then some ((base+x) % 2^32,bit) else readEscapes d fuel base bit

def readClasses (d : Bytes) : List (ℕ×ℕ×ℕ) → ℕ → ℕ → Option (ℕ×ℕ)
  -- a turn takes a byte
  | [], base, bit => readEscapes d (d.length+1) base bit
  | (least,n,stop)::rest, _, bit =>
    match get d bit n with
    | none => none
    | some (x,bit) =>
      if x ≠ stop then some ((least+x) % 2^32,bit) else readClasses d rest least bit

def readMatchLen (d : Bytes) (bit : ℕ) : Option (ℕ×ℕ) := readClasses d classes 0 bit

def kMaxRecordBytes : ℕ := 512*1024*1024

def copyBack (off : ℕ) : ℕ → Bytes → Bytes
  | 0, o => o
  | n+1, o => copyBack off n (o++[o.getD (o.length-off) 0])

/-- The loop of `decompress_ea06`; nothing when the fuel runs out. -/
def inflate (d : Bytes) (expected : ℕ) : ℕ → ℕ → Bytes → Option (Except String Bytes)
  | 0, _, _ => none
  | fuel+1, bit, o =>
    if o.length < expected then
      match get d bit 1 with
      | none => some (.error "AutoIt compressed bitstream truncated")
      | some (flag,bit) =>
        if flag = 1 then
          match get d bit 8 with
          | none => some (.error "AutoIt literal truncated")
          | some (x,bit) => inflate d expected fuel bit (o++[x.toUInt8])
        else
          match get d bit 15 with
          | none => some (.error "AutoIt match truncated")
          | some (off,bit) =>
            match readMatchLen d bit with
            | none => some (.error "AutoIt match truncated")
            | some (len,bit) =>
              if off = 0 ∨ off > o.length ∨ len > expected-o.length then
                some (.error "AutoIt LZ match invalid")
              else inflate d expected fuel bit (copyBack off len o)
    else some (.ok o)

def be32 (d : Bytes) (o : ℕ) : ℕ :=
  (d.getD o 0).toNat * 2^24 + (d.getD (o+1) 0).toNat*2^16 +
    (d.getD (o+2) 0).toNat * 2^8 + (d.getD (o+3) 0).toNat

/-- Whether the blob has the standard signature, and what comes of it. Each turn of the loop takes
a bit. -/
def decompressEa06 (d : Bytes) (expected : ℕ) : Bool×Option (Except String Bytes) :=
  let standard := decide (d.length ≥ 4 ∧ d.take 4 = bytes "EA06")
  if d.length < 8 then (standard,some (.error "AutoIt compressed blob too small"))
  else if be32 d 4 ≠ expected then
    (standard,some (.error "AutoIt compressed blob output size mismatch"))
  else if expected > kMaxRecordBytes then
    (standard,some (.error "AutoIt decompressed record exceeds safety limit"))
  else (standard,inflate (d.drop 8) expected ((d.drop 8).length*8+1) 0 [])

/-- The bytes of ones before the last byte of a long length. -/
def escapes : ℕ → List Bool
  | 0 => []
  | k+1 => word 8 255 ++ escapes k

/-- The code of a difference to the least length of the first class. -/
def codeFrom : List (ℕ×ℕ×ℕ) → ℕ → List Bool
  | [], x => escapes (x/255) ++ word 8 (x % 255)
  | (_,n,stop)::rest, x =>
    if x < stop then word n x else word n stop ++ codeFrom rest (x-stop)

def lengthCode (m : ℕ) : List Bool := codeFrom classes (m-3)

inductive Token where
  | literal (x : UInt8)
  | copy (off len : ℕ)

def Token.code : Token → List Bool
  | .literal x => true :: word 8 x.toNat
  | .copy off len => false::(word 15 off ++ lengthCode len)

def Token.emit (o : Bytes) : Token → Bytes
  | .literal x => o++[x]
  | .copy off len => copyBack off len o

/-- A copy starts inside what is there already. -/
def Token.Inside (o : Bytes) : Token → Prop
  | .literal _ => True
  | .copy off _ => 0 < off ∧ off ≤ o.length

def Token.Coded : Token → Prop
  | .literal _ => True
  | .copy off len => off < 2^15 ∧ 3 ≤ len ∧ len < 2^32

def expand (o : Bytes) (ts : List Token) : Bytes := ts.foldl Token.emit o

def Inside (o : Bytes) : List Token → Prop
  | [] => True
  | t::ts => t.Inside o ∧ Inside (t.emit o) ts

end AutoRefirst.AutoIt

/-!
## The bits of AutoIt records

The bit reader reads numbers off the stream of bits, and the match length off its code: what is
read is the length whose code stands there, in 32 bits.
-/

namespace AutoRefirst.AutoIt
open List Option

open BitStrings

def stream (d : Bytes) (bit : ℕ) : List Bool := (d.flatMap fun b => word 8 b.toNat).drop bit

theorem flatMap_word_length (d:Bytes) :
    (d.flatMap fun b=>word 8 b.toNat).length = d.length*8:=by
  induction d with
  | nil=>rfl
  | cons b d ih=>
    rw [flatMap_cons,length_append,word_length,ih,length_cons]
    omega

theorem stream_length (d:Bytes) (bit:ℕ) : (stream d bit).length=d.length*8-bit:=by
  rw [stream,length_drop,flatMap_word_length]

theorem stream_drop (d:Bytes) (bit n:ℕ) : (stream d bit).drop n=stream d (bit+n):=by
  rw [stream,stream,drop_drop]

variable {d : Bytes} {bit : ℕ} {rest : List Bool}

theorem stream_behind {l:List Bool} (h:stream d bit = l++rest) :
    stream d (bit+l.length)=rest:=by
  rw [← stream_drop,h,drop_left]

variable {n : ℕ}

theorem word_getElem? {i:ℕ} (v:ℕ) (h:i<n) : (word n v)[i]? = some (v.testBit (n-1-i)):=by
  induction n generalizing i with
  | zero=>exact absurd h (Nat.not_lt_zero i)
  | succ n ih=>
    cases i with
    | zero=>rfl
    | succ i=>
      rw [word,getElem?_cons_succ,ih (Nat.lt_of_succ_lt_succ h)]
      congr 2
      omega

theorem flatMap_getElem? {i:ℕ} (h:i<d.length*8) :
    (d.flatMap fun b=>word 8 b.toNat)[i]? = some (bitAt d i):=by
  induction d generalizing i with
  | nil=>exact absurd h (by rw [length_nil,Nat.zero_mul];exact Nat.not_lt_zero i)
  | cons b d ih=>
    rw [flatMap_cons]
    by_cases hi : i<8
    · rw [getElem?_append_left (by rw [word_length];exact hi),word_getElem? _ hi,bitAt,
        Nat.div_eq_of_lt hi,Nat.mod_eq_of_lt hi]
      rfl
    · have hi' : 8 ≤ i:=Nat.not_lt.mp hi
      have hdiv : i/8=(i-8)/8+1:=by omega
      have hmod : i % 8 = (i-8) % 8:=by omega
      rw [getElem?_append_right (by rw [word_length];exact hi'),word_length,
        ih (by rw [length_cons] at h;omega),bitAt,bitAt,hdiv,hmod,getD_cons_succ]

theorem stream_take_succ (h:bit+n<d.length*8) :
    (stream d bit).take (n+1) = (stream d bit).take n++[bitAt d (bit+n)]:=by
  rw [take_add_one,stream,getElem?_drop,flatMap_getElem? h]
  rfl

theorem shift_or (v:ℕ) (b:Bool) : v <<< 1 ||| b.toNat = v*2+b.toNat:=by
  rw [← Nat.shiftLeft_add_eq_or_of_lt (by cases b <;> decide),Nat.shiftLeft_eq,Nat.pow_one]

theorem foldl_bits (d:Bytes) (bit n:ℕ) (h:bit+n≤d.length*8) :
    (List.range n).foldl (fun v i=>v <<< 1 ||| (bitAt d (bit+i)).toNat) 0 =
      value ((stream d bit).take n):=by
  induction n with
  | zero=>rfl
  | succ n ih=>
    rw [range_succ,foldl_append,ih (Nat.le_of_succ_le h),foldl_cons,
      foldl_nil,shift_or,stream_take_succ h,value_snoc]

variable {x : ℕ}

theorem get_eq_some {bit':ℕ} (hn:0<n) (hn':n≤32) : get d bit n=some (x,bit') ↔
      bit' = bit+n ∧ x<2^n ∧ ∃rest,stream d bit = word n x++rest:=by
  unfold get
  have hlen:=stream_length d bit
  constructor
  · intro h
    split at h
    · cases h
    next hb=>
      have hle : bit+n≤d.length*8:=by omega
      have htake : ((stream d bit).take n).length=n:=by
        rw [length_take,hlen]
        omega
      rw [foldl_bits d bit n hle] at h
      obtain ⟨rfl,rfl⟩:=Prod.mk.inj (some.inj h)
      refine ⟨rfl,?_,(stream d bit).drop n,?_⟩
      · have hlt:=value_lt ((stream d bit).take n)
        rwa [htake] at hlt
      · have hword:=word_value ((stream d bit).take n)
        rw [htake] at hword
        rw [hword,take_append_drop]
  · rintro ⟨rfl,hx,rest,hrest⟩
    have hlen' : n+rest.length=d.length*8-bit:=by
      rw [← hlen,hrest,length_append,word_length]
    rw [if_neg (by omega),foldl_bits d bit n (by omega),hrest,
      take_left' (word_length n x),value_word hx]

theorem get_word (hn:0<n) (hn':n≤32) (hx:x<2^n) (h:stream d bit = word n x++rest) :
    get d bit n=some (x,bit+n) ∧ stream d (bit+n)=rest:=by
  refine ⟨(get_eq_some hn hn').mpr ⟨rfl,hx,rest,h⟩,?_⟩
  have hbehind:=stream_behind h
  rwa [word_length] at hbehind

theorem escapes_length (k:ℕ) : (escapes k).length=8*k:=by
  induction k with
  | zero=>rfl
  | succ k ih=>
    rw [escapes,length_append,word_length,ih]
    omega

theorem escapes_succ (k:ℕ) : escapes (k+1) = word 8 255++escapes k:=rfl

theorem mod_add_add (a b c n:ℕ) : (a % n + b + c) % n = (a+b+c) % n:=by
  rw [Nat.add_assoc,Nat.mod_add_mod,← Nat.add_assoc]

theorem readEscapes_escapes (hx:x<255) :
    ∀ {k fuel base bit:ℕ},k<fuel → stream d bit = escapes k++(word 8 x++rest) →
      readEscapes d fuel base bit =
        some ((base+255*(k+1)+x) % 2^32,bit + 8*(k+1)):=by
  intro k
  induction k with
  | zero=>
    intro fuel base bit hfuel h
    obtain ⟨fuel,rfl⟩:=Nat.exists_eq_add_of_lt hfuel
    obtain ⟨hget,-⟩:=get_word (by decide) (by decide) (by omega) h
    rw [Nat.zero_add,readEscapes]
    simp only [hget]
    rw [if_pos (Nat.ne_of_lt hx),Nat.mod_add_mod]
  | succ k ih=>
    intro fuel base bit hfuel h
    obtain ⟨fuel,rfl⟩:=Nat.exists_eq_succ_of_ne_zero (Nat.ne_zero_of_lt hfuel)
    rw [escapes_succ,append_assoc] at h
    obtain ⟨hget,hrest⟩:=get_word (by decide) (by decide) (by decide) h
    rw [readEscapes]
    simp only [hget]
    have hlen : base+255+255*(k+1)+x=base+255*(k+1+1)+x:=by ring
    have hbit : bit+8+8*(k+1)=bit+8*(k+1+1):=by ring
    rw [if_neg (not_not.mpr rfl),ih (Nat.lt_of_succ_lt_succ hfuel) hrest,mod_add_add,hlen,hbit]

theorem readEscapes_some : ∀ {fuel base bit v bit':ℕ},readEscapes d fuel base bit=some (v,bit') →
      ∃k x rest,x<255 ∧ stream d bit = escapes k++(word 8 x++rest) ∧
        v = (base+255*(k+1)+x) % 2^32 ∧ bit'=bit+8*(k+1):=by
  intro fuel
  induction fuel with
  | zero=>
    intro base bit v bit' h
    cases h
  | succ fuel ih=>
    intro base bit v bit' h
    rw [readEscapes] at h
    split at h
    · cases h
    next x bit₁ hget=>
      obtain ⟨rfl,hx,rest,hrest⟩:=(get_eq_some (by decide) (by decide)).mp hget
      by_cases hstop : x≠255
      · rw [if_pos hstop] at h
        obtain ⟨rfl,rfl⟩:=Prod.mk.inj (some.inj h)
        exact ⟨0,x,rest,by omega,hrest,by rw [Nat.mod_add_mod],rfl⟩
      · rw [if_neg hstop] at h
        rw [not_not.mp hstop] at hrest
        have hbehind:=stream_behind hrest
        rw [word_length] at hbehind
        obtain ⟨k,y,rest',hy,hstream,rfl,rfl⟩:=ih h
        refine ⟨k+1,y,rest',hy,?_,?_,?_⟩
        · rw [escapes_succ,append_assoc,hrest,← hbehind,hstream]
        · have hlen : base+255+255*(k+1)+y=base+255*(k+1+1)+y:=by ring
          rw [mod_add_add,hlen]
        · ring

/-- Each class starts behind the one before, and its last word leads on. -/
def Leads : ℕ → ℕ → List (ℕ×ℕ×ℕ) → Prop
  | base, b, [] => base+255 = b
  | _, b, (least,n,stop)::rest =>
    least = b ∧ 0 < n ∧ n ≤ 32 ∧ stop+1 = 2^n ∧ Leads least (b+stop) rest

theorem leads_classes : Leads 0 3 classes:=by
  refine ⟨rfl,by decide,by decide,rfl,rfl,by decide,by decide,rfl,rfl,by decide,
    by decide,rfl,rfl,by decide,by decide,rfl,rfl,by decide,by decide,rfl,rfl⟩

theorem readClasses_code : ∀ {cs:List (ℕ×ℕ×ℕ)} {base b bit x:ℕ},Leads base b cs →
      stream d bit = codeFrom cs x++rest →
      readClasses d cs base bit=some ((b+x) % 2^32,bit + (codeFrom cs x).length):=by
  intro cs
  induction cs with
  | nil=>
    intro base b bit x hleads h
    have hbase : base+255=b:=hleads
    have hlen:=stream_length d bit
    rw [h,codeFrom,length_append,length_append,escapes_length,word_length] at hlen
    rw [codeFrom,append_assoc] at h
    have hdiv:=Nat.div_add_mod x 255
    have hvalue : base+255*(x/255+1) + x % 255 = b+x:=by omega
    rw [readClasses,readEscapes_escapes (Nat.mod_lt x (by decide)) (by omega) h,hvalue,codeFrom,
      length_append,escapes_length,word_length]
    rfl
  | cons c cs ih=>
    obtain ⟨least,n,stop⟩:=c
    intro base b bit x hleads h
    obtain ⟨rfl,hn,hn',hstop,hrest⟩:=hleads
    rw [codeFrom] at h ⊢
    by_cases hx : x<stop
    · rw [if_pos hx] at h ⊢
      obtain ⟨hget,-⟩:=get_word hn hn' (by omega) h
      rw [readClasses]
      simp only [hget]
      rw [if_pos (Nat.ne_of_lt hx),word_length]
    · rw [if_neg hx] at h ⊢
      rw [append_assoc] at h
      obtain ⟨hget,hbehind⟩:=get_word hn hn' (by omega) h
      have hvalue : least+stop+(x-stop)=least+x:=by omega
      rw [readClasses]
      simp only [hget]
      rw [if_neg (not_not.mpr rfl),ih hrest hbehind,hvalue,length_append,word_length, Nat.add_assoc]

theorem readClasses_some : ∀ {cs:List (ℕ×ℕ×ℕ)} {base b bit:ℕ} {r:ℕ×ℕ},Leads base b cs →
      readClasses d cs base bit=some r → ∃x rest,stream d bit = codeFrom cs x++rest:=by
  intro cs
  induction cs with
  | nil=>
    intro base b bit r hleads h
    rw [readClasses] at h
    obtain ⟨k,x,rest,hx,hstream,-,-⟩:=readEscapes_some h
    refine ⟨255*k+x,rest,?_⟩
    rw [codeFrom,Nat.mul_add_div (by decide),Nat.div_eq_of_lt hx,Nat.add_zero,Nat.mul_add_mod,
      Nat.mod_eq_of_lt hx,append_assoc,hstream]
  | cons c cs ih=>
    obtain ⟨least,n,stop⟩:=c
    intro base b bit r hleads h
    obtain ⟨rfl,hn,hn',hstop,hrest⟩:=hleads
    rw [readClasses] at h
    split at h
    · cases h
    next x bit₁ hget=>
      obtain ⟨rfl,hx,rest,hstream⟩:=(get_eq_some hn hn').mp hget
      by_cases hne : x≠stop
      · exact ⟨x,rest,by rw [codeFrom,if_pos (by omega),hstream]⟩
      · rw [if_neg hne] at h
        rw [not_not.mp hne] at hstream
        have hbehind:=stream_behind hstream
        rw [word_length] at hbehind
        obtain ⟨y,rest',hrest'⟩:=ih hrest h
        refine ⟨stop+y,rest',?_⟩
        rw [codeFrom,if_neg (by omega),Nat.add_sub_cancel_left,hstream,← hbehind,hrest',
          append_assoc]

theorem readMatchLen_code {m:ℕ} (hm:3 ≤ m) (h:stream d bit = lengthCode m++rest) :
    readMatchLen d bit=some (m % 2^32,bit + (lengthCode m).length):=by
  rw [readMatchLen,readClasses_code leads_classes h,Nat.add_sub_cancel' hm]
  rfl

theorem readMatchLen_some {r:ℕ×ℕ} (h:readMatchLen d bit=some r) :
    ∃m rest,3 ≤ m ∧ stream d bit = lengthCode m++rest ∧
      r=(m % 2^32,bit + (lengthCode m).length):=by
  obtain ⟨x,rest,hstream⟩:=readClasses_some leads_classes h
  have hcode : stream d bit = lengthCode (x+3)++rest:=hstream
  have hm : 3≤x+3:=Nat.le_add_left 3 x
  rw [readMatchLen_code hm hcode] at h
  exact ⟨x+3,rest,hm,hcode,(some.inj h).symm⟩

variable {r r' : List Bool}

theorem word_append_inj {y:ℕ} (hx:x<2^n) (hy:y<2^n)
    (h:word n x++r = word n y++r') : x=y ∧ r=r':=by
  obtain ⟨hword,hrest⟩:=append_inj h (by rw [word_length,word_length])
  refine ⟨?_,hrest⟩
  rw [← value_word hx,hword,value_word hy]

theorem escapes_append_inj {k k' x':ℕ} (hx:x<255) (hx':x'<255)
    (h:escapes k++(word 8 x++r) = escapes k'++(word 8 x'++r')) : k=k' ∧ x=x':=by
  induction k generalizing k' with
  | zero=>
    cases k' with
    | zero=>exact ⟨rfl,(word_append_inj (by omega) (by omega) h).1⟩
    | succ k'=>
      rw [escapes_succ,append_assoc] at h
      exact absurd (word_append_inj (by omega) (by decide) h).1 (Nat.ne_of_lt hx)
  | succ k ih=>
    cases k' with
    | zero=>
      rw [escapes_succ,append_assoc] at h
      exact absurd (word_append_inj (by decide) (by omega) h).1 (Nat.ne_of_gt hx')
    | succ k'=>
      rw [escapes_succ,escapes_succ,append_assoc,append_assoc] at h
      obtain ⟨rfl,rfl⟩:=ih (word_append_inj (by decide) (by decide) h).2
      exact ⟨rfl,rfl⟩

theorem codeFrom_append_inj : ∀ {cs:List (ℕ×ℕ×ℕ)} {base b x x':ℕ},Leads base b cs →
      codeFrom cs x++r = codeFrom cs x'++r' → x=x':=by
  intro cs
  induction cs with
  | nil=>
    intro base b x x' _ h
    rw [codeFrom,codeFrom,append_assoc,append_assoc] at h
    obtain ⟨hdiv,hmod⟩:=escapes_append_inj (Nat.mod_lt x (by decide)) (Nat.mod_lt x' (by decide)) h
    rw [← Nat.div_add_mod x 255,hdiv,hmod,Nat.div_add_mod]
  | cons c cs ih=>
    obtain ⟨least,n,stop⟩:=c
    intro base b x x' hleads h
    obtain ⟨-,-,-,hstop,hrest⟩:=hleads
    rw [codeFrom,codeFrom] at h
    by_cases hx : x<stop
    · by_cases hx' : x'<stop
      · rw [if_pos hx,if_pos hx'] at h
        exact (word_append_inj (by omega) (by omega) h).1
      · rw [if_pos hx,if_neg hx',append_assoc] at h
        exact absurd (word_append_inj (by omega) (by omega) h).1 (Nat.ne_of_lt hx)
    · by_cases hx' : x'<stop
      · rw [if_neg hx,if_pos hx',append_assoc] at h
        exact absurd (word_append_inj (by omega) (by omega) h).1 (Nat.ne_of_gt hx')
      · rw [if_neg hx,if_neg hx',append_assoc,append_assoc] at h
        have heq:=ih hrest (word_append_inj (by omega) (by omega) h).2
        omega

theorem lengthCode_append_inj {m m':ℕ} (hm:3 ≤ m) (hm':3 ≤ m')
    (h:lengthCode m++r = lengthCode m'++r') : m=m':=by
  have heq:=codeFrom_append_inj leads_classes h
  omega

end AutoRefirst.AutoIt

/-!
## What EA06 decompression gives

Decompression ends, and gives the declared number of bytes or fails. What is coded is what comes
out, except that a run of ones of 16 MiB carries a length over 32 bits.
-/

namespace AutoRefirst.AutoIt
open List Option

open BitStrings

@[simp] theorem copyBack_length (off n:ℕ) (o:Bytes) :
    (copyBack off n o).length = o.length+n:=by
  induction n generalizing o with
  | zero=>rfl
  | succ n ih=>
    rw [copyBack,ih,length_append,length_singleton]
    omega

theorem expand_cons (o:Bytes) (t:Token) (ts:List Token) :
    expand o (t::ts)=expand (t.emit o) ts:=rfl

theorem emit_length_le (o:Bytes) (t:Token) : o.length≤(t.emit o).length:=by
  cases t with
  | literal x=>
    rw [Token.emit,length_append]
    exact Nat.le_add_right _ _
  | copy off len=>
    rw [Token.emit,copyBack_length]
    exact Nat.le_add_right _ _

theorem expand_length_le (o:Bytes) (ts:List Token) : o.length≤(expand o ts).length:=by
  induction ts generalizing o with
  | nil=>exact Nat.le_refl _
  | cons t ts ih=>exact Nat.le_trans (emit_length_le o t) (ih _)

variable {d : Bytes} {bit : ℕ}

theorem get_bits {n:ℕ} {r:ℕ×ℕ} (hn:0<n) (hn':n≤32) (h:get d bit n=some r) :
    r.2 = bit+n ∧ r.1<2^n ∧ stream d bit = word n r.1++stream d (bit+n):=by
  obtain ⟨x,bit'⟩:=r
  obtain ⟨rfl,hx,rest,hrest⟩:=(get_eq_some hn hn').mp h
  have hbehind:=stream_behind hrest
  rw [word_length] at hbehind
  exact ⟨rfl,hx,by rw [hbehind];exact hrest⟩

theorem word_one_true : word 1 1=[true]:=rfl

theorem word_one_false : word 1 0=[false]:=rfl

variable {expected : ℕ}

/-- What a turn of the loop does: it stops, or a token is read and the loop goes on behind it. -/
theorem inflate_succ {fuel:ℕ} {o:Bytes} (h:o.length<expected) :
    (∃e,inflate d expected (fuel+1) bit o=some (.error e)) ∨
    (∃x : UInt8,stream d bit = (Token.literal x).code++stream d (bit+9) ∧
      inflate d expected (fuel+1) bit o =
        inflate d expected fuel (bit+9) ((Token.literal x).emit o)) ∨
    ∃off m,3 ≤ m ∧ stream d bit = (Token.copy off m).code++stream d (bit+16+(lengthCode m).length) ∧
      0<off ∧ off≤o.length ∧ m % 2^32 ≤ expected-o.length ∧
      inflate d expected (fuel+1) bit o = inflate d expected fuel (bit+16+(lengthCode m).length)
          ((Token.copy off (m % 2^32)).emit o):=by
  rw [inflate,if_pos h]
  split
  · exact .inl ⟨_,rfl⟩
  next flag bit₁ hflag=>
  obtain ⟨rfl,hflag',hone⟩:=get_bits (by decide) (by decide) hflag
  by_cases hlit : flag=1
  · rw [if_pos hlit]
    subst hlit
    split
    · exact .inl ⟨_,rfl⟩
    next x bit₂ hx=>
    obtain ⟨rfl,hx',hrest⟩:=get_bits (by decide) (by decide) hx
    have hnat : x.toUInt8.toNat=x:=Nat.mod_eq_of_lt hx'
    refine .inr (.inl ⟨x.toUInt8,?_,rfl⟩)
    rw [hone,hrest,Token.code,hnat,word_one_true]
    rfl
  · rw [if_neg hlit]
    have hzero : flag=0:=by
      change flag<2^1 at hflag'
      omega
    subst hzero
    split
    · exact .inl ⟨_,rfl⟩
    next off bit₂ hoff=>
    obtain ⟨rfl,hoff',hrest⟩:=get_bits (by decide) (by decide) hoff
    split
    · exact .inl ⟨_,rfl⟩
    next len bit₃ hlen=>
    obtain ⟨m,rest,hm,hcode,hr⟩:=readMatchLen_some hlen
    obtain ⟨rfl,rfl⟩:=Prod.mk.inj hr
    have hbehind:=stream_behind hcode
    split
    · exact .inl ⟨_,rfl⟩
    next hguard=>
      rw [not_or,not_or] at hguard
      obtain ⟨hpos,hback,hroom⟩:=hguard
      refine .inr (.inr ⟨off,m,hm,?_,Nat.pos_of_ne_zero hpos,Nat.not_lt.mp hback,
        Nat.not_lt.mp hroom,rfl⟩)
      have hend : stream d (bit+16+(lengthCode m).length)=rest:=hbehind
      rw [hend,hone,hrest,hcode,word_one_false]
      change false::(word 15 off++(lengthCode m++rest)) = false::((word 15 off++lengthCode m)++rest)
      rw [append_assoc]

theorem length_of_append {bit':ℕ} {l:List Bool} (h:stream d bit = l++stream d bit') :
    (stream d bit).length = l.length+(stream d bit').length:=by
  rw [h,length_append]

theorem code_length_pos (t:Token) : 0<t.code.length:=by
  cases t with
  | literal x=>exact Nat.succ_pos _
  | copy off len=>exact Nat.succ_pos _

theorem inflate_ends : ∀ {fuel bit:ℕ} {o:Bytes},(stream d bit).length<fuel →
      inflate d expected fuel bit o≠none:=by
  intro fuel
  induction fuel with
  | zero=>
    intro bit o h
    exact absurd h (Nat.not_lt_zero _)
  | succ fuel ih=>
    intro bit o h
    by_cases ho : o.length<expected
    · obtain ⟨e,he⟩ | ⟨x,hcode,hrun⟩ | ⟨off,m,-,hcode,-,-,-,hrun⟩:=inflate_succ ho
      · rw [he]
        exact some_ne_none _
      · have hlen:=length_of_append hcode
        have hpos:=code_length_pos (.literal x)
        rw [hrun]
        exact ih (by omega)
      · have hlen:=length_of_append hcode
        have hpos:=code_length_pos (.copy off m)
        rw [hrun]
        exact ih (by omega)
    · rw [inflate,if_neg ho]
      exact some_ne_none _

/-- No code of a length over 32 bits stands anywhere. -/
def NoLong (d : Bytes) : Prop :=
  ∀ bit m rest, 3 ≤ m → stream d bit = lengthCode m ++ rest → m<2^32

/-- What comes out has the declared length and comes of tokens whose copies start inside what is
there; without long lengths it is their code that was read. -/
theorem inflate_ok {out:Bytes} : ∀ {fuel bit:ℕ} {o:Bytes},o.length≤expected →
      inflate d expected fuel bit o=some (.ok out) →
      out.length=expected ∧ ∃ts,Inside o ts ∧ out=expand o ts ∧
        (NoLong d → ∃pad,stream d bit = ts.flatMap Token.code++pad):=by
  intro fuel
  induction fuel with
  | zero=>
    intro bit o _ h
    cases h
  | succ fuel ih=>
    intro bit o ho h
    by_cases hlt : o.length<expected
    · obtain ⟨e,he⟩ | ⟨x,hcode,hrun⟩ | ⟨off,m,hm,hcode,hpos,hback,hroom,hrun⟩:=
        inflate_succ hlt
      · rw [he] at h
        cases h
      · rw [hrun] at h
        have hle : ((Token.literal x).emit o).length≤expected:=by
          rw [Token.emit,length_append,length_singleton]
          exact hlt
        obtain ⟨hlen,ts,hinside,hout,hread⟩:=ih hle h
        refine ⟨hlen,.literal x::ts,⟨trivial,hinside⟩,hout,fun hlong=>?_⟩
        obtain ⟨pad,hpad⟩:=hread hlong
        exact ⟨pad,by rw [hcode,hpad,flatMap_cons,append_assoc]⟩
      · rw [hrun] at h
        have hle : ((Token.copy off (m % 2^32)).emit o).length≤expected:=by
          rw [Token.emit,copyBack_length]
          omega
        obtain ⟨hlen,ts,hinside,hout,hread⟩:=ih hle h
        refine ⟨hlen,.copy off (m % 2^32)::ts,⟨⟨hpos,hback⟩,hinside⟩,hout, fun hlong=>?_⟩
        obtain ⟨pad,hpad⟩:=hread hlong
        have hstream : stream d (bit+16) =
            lengthCode m++stream d (bit+16+(lengthCode m).length):=by
          have hdrop:=congrArg (List.drop 16) hcode
          rwa [stream_drop,Token.code,cons_append,drop_succ_cons,
            append_assoc,drop_left' (word_length 15 off)] at hdrop
        have hshort:=hlong _ m _ hm hstream
        refine ⟨pad,?_⟩
        rw [hcode,hpad,flatMap_cons,append_assoc,Nat.mod_eq_of_lt hshort]
    · rw [inflate,if_neg hlt] at h
      have hout : o=out:=Except.ok.inj (some.inj h)
      refine ⟨?_,[],trivial,hout.symm,fun _=>⟨stream d bit,rfl⟩⟩
      rw [← hout]
      omega

theorem inflate_code {pad:List Bool} :
    ∀ {ts:List Token} {fuel bit:ℕ} {o:Bytes},Inside o ts → (∀t∈ts,t.Coded) →
      (expand o ts).length=expected → (stream d bit).length<fuel →
      stream d bit = ts.flatMap Token.code++pad →
      inflate d expected fuel bit o=some (.ok (expand o ts)):=by
  intro ts
  induction ts with
  | nil=>
    intro fuel bit o _ _ hlen hfuel _
    obtain ⟨fuel,rfl⟩:=Nat.exists_eq_succ_of_ne_zero (Nat.ne_zero_of_lt hfuel)
    have ho : o.length=expected:=hlen
    rw [inflate,if_neg (by omega)]
    rfl
  | cons t ts ih=>
    intro fuel bit o hinside hcoded hlen hfuel hstream
    obtain ⟨fuel,rfl⟩:=Nat.exists_eq_succ_of_ne_zero (Nat.ne_zero_of_lt hfuel)
    have hcoded' : ∀u∈ts,u.Coded:=fun u hu=>hcoded u (mem_cons_of_mem t hu)
    have hle:=expand_length_le (t.emit o) ts
    rw [expand_cons] at hlen
    rw [flatMap_cons,append_assoc] at hstream
    have hbehind:=stream_behind hstream
    have hfuel' : (stream d (bit+t.code.length)).length<fuel:=by
      have hpos:=code_length_pos t
      rw [hbehind]
      rw [hstream,length_append] at hfuel
      omega
    have hrun:=ih hinside.2 hcoded' hlen hfuel' hbehind
    rw [expand_cons,← hrun]
    cases t with
    | literal x=>
      have hemit : ((Token.literal x).emit o).length=o.length+1:=by
        rw [Token.emit,length_append,length_singleton]
      have hword : stream d bit = word 1 1++(word 8 x.toNat++(ts.flatMap Token.code++pad)):=hstream
      obtain ⟨hflag,hrest⟩:=get_word (by decide) (by decide) (by decide) hword
      obtain ⟨hx,-⟩:=get_word (by decide) (by decide) x.toNat_lt hrest
      rw [inflate,if_pos (by omega)]
      simp only [hflag,hx]
      rw [if_pos trivial,Token.code,length_cons,word_length,Nat.toUInt8_eq,UInt8.ofNat_toNat]
      rfl
    | copy off len=>
      obtain ⟨hoff,hthree,hlt⟩:=hcoded _ mem_cons_self
      obtain ⟨hpos,hback⟩:=hinside.1
      have hemit : ((Token.copy off len).emit o).length=o.length+len:=copyBack_length _ _ _
      have hword : stream d bit =
          word 1 0++(word 15 off++(lengthCode len++(ts.flatMap Token.code++pad))):=by
        rw [hstream,Token.code,cons_append,append_assoc]
        rfl
      obtain ⟨hflag,hrest⟩:=get_word (by decide) (by decide) (by decide) hword
      obtain ⟨hget,hrest⟩:=get_word (by decide) (by decide) hoff hrest
      have hread:=readMatchLen_code hthree hrest
      have hguard : ¬(off=0 ∨ off > o.length ∨ len > expected-o.length):=by omega
      rw [inflate,if_pos (by omega)]
      simp only [hflag,hget,hread]
      rw [if_neg (by decide),Nat.mod_eq_of_lt hlt,if_neg hguard,Token.code,length_cons,
        length_append,word_length]
      congr 1
      omega

def Decodes (d : Bytes) : Prop :=
  ∀ bit r, readMatchLen d bit = some r ↔ ∃ m rest, 3 ≤ m ∧ stream d bit = lengthCode m ++ rest ∧
    r = (m,bit+(lengthCode m).length)

theorem decodes_iff (d:Bytes) : Decodes d ↔ NoLong d:=by
  constructor
  · intro hdecodes bit m rest hm hstream
    obtain ⟨m',rest',hm',hstream',hr⟩:=(hdecodes bit _).mp (readMatchLen_code hm hstream)
    obtain ⟨hmod,-⟩:=Prod.mk.inj hr
    have heq:=lengthCode_append_inj hm hm' (hstream.symm.trans hstream')
    rw [← heq] at hmod
    rw [← hmod]
    exact Nat.mod_lt m (Nat.two_pow_pos 32)
  · intro hlong bit r
    constructor
    · intro h
      obtain ⟨m,rest,hm,hstream,rfl⟩:=readMatchLen_some h
      exact ⟨m,rest,hm,hstream,by rw [Nat.mod_eq_of_lt (hlong bit m rest hm hstream)]⟩
    · rintro ⟨m,rest,hm,hstream,rfl⟩
      rw [readMatchLen_code hm hstream,Nat.mod_eq_of_lt (hlong bit m rest hm hstream)]

theorem decompressEa06_of_header (h:8≤d.length) (hdeclared:be32 d 4=expected)
    (hmax:expected≤kMaxRecordBytes) :
    (decompressEa06 d expected).2 =
      inflate (d.drop 8) expected ((d.drop 8).length*8+1) 0 []:=by
  unfold decompressEa06
  rw [if_neg (Nat.not_lt.mpr h),if_neg (not_not.mpr hdeclared),if_neg (Nat.not_lt.mpr hmax)]

theorem stream_zero_lt (d:Bytes) : (stream d 0).length<d.length*8+1:=by
  rw [stream_length]
  omega

theorem decompressEa06_ends (d:Bytes) (expected:ℕ) : (decompressEa06 d expected).2≠none:=by
  unfold decompressEa06
  split
  · exact some_ne_none _
  split
  · exact some_ne_none _
  split
  · exact some_ne_none _
  · exact inflate_ends (stream_zero_lt _)

theorem decompressEa06_ok {out:Bytes} (h:(decompressEa06 d expected).2=some (.ok out)) :
    out.length=expected ∧ ∃ts,Inside [] ts ∧ out=expand [] ts ∧
      (NoLong (d.drop 8) → ∃pad,stream (d.drop 8) 0 = ts.flatMap Token.code++pad):=by
  unfold decompressEa06 at h
  split at h
  · cases h
  split at h
  · cases h
  split at h
  · cases h
  · exact inflate_ok (Nat.zero_le expected) h

/-- Decompression ends and gives the declared number of bytes, with every copy inside what is
there, or fails; the lengths have a prefix code; and the code of tokens gives what they expand to.
The lengths are read back exactly when no code of one over 32 bits stands in the data. -/
theorem decompress_exact (d : Bytes) (expected : ℕ) : (decompressEa06 d expected).2≠none ∧
    (∀ out, (decompressEa06 d expected).2=some (.ok out) →
      out.length=expected ∧ ∃ ts, Inside [] ts ∧ out=expand [] ts ∧
        (NoLong (d.drop 8) → ∃ pad, stream (d.drop 8) 0 = ts.flatMap Token.code ++ pad)) ∧
    (∀ m m' rest rest', 3 ≤ m → 3 ≤ m' → lengthCode m ++ rest = lengthCode m' ++ rest' → m=m') ∧
    (∀ ts pad, Inside [] ts → (∀ t∈ts, t.Coded) → (expand [] ts).length=expected →
      expected≤kMaxRecordBytes → 8≤d.length → be32 d 4=expected →
      stream (d.drop 8) 0 = ts.flatMap Token.code ++ pad →
      (decompressEa06 d expected).2=some (.ok (expand [] ts))) ∧
    (Decodes d ↔ NoLong d) := by
  refine ⟨decompressEa06_ends d expected,fun out=>decompressEa06_ok,
    fun m m' rest rest'=>lengthCode_append_inj,?_,decodes_iff d⟩
  intro ts pad hinside hcoded hlen hmax hsize hdeclared hstream
  rw [decompressEa06_of_header hsize hdeclared hmax]
  exact inflate_code hinside hcoded hlen (stream_zero_lt _) hstream

theorem escapes_eq (k:ℕ) : escapes k=List.replicate (8*k) true:=by
  induction k with
  | zero=>rfl
  | succ k ih=>
    have hword : word 8 255=List.replicate 8 true:=rfl
    rw [escapes_succ,ih,hword,replicate_append_replicate]
    congr 1
    omega

theorem flatMap_ones (k:ℕ) :
    (List.replicate k (0xFF : UInt8)).flatMap (fun b=>word 8 b.toNat) = escapes k:=by
  induction k with
  | zero=>rfl
  | succ k ih=>
    rw [replicate_succ,flatMap_cons,ih]
    rfl

theorem stream_ones (j:ℕ) : stream (List.replicate (j+3) 0xFF++[0xC0,0x00]) 0 =
      lengthCode (554+255*j)++List.replicate 6 false:=by
  have hx : 554+255*j-3-3-7-31-255-255=255*j:=by omega
  have hcode : lengthCode (554+255*j) = word 2 3++(word 3 7++(word 5 31++(word 8 255++(word 8 255 ++
        (escapes j++word 8 0))))):=by
    unfold lengthCode classes
    simp only [codeFrom]
    rw [if_neg (by omega),if_neg (by omega),if_neg (by omega),if_neg (by omega),
      if_neg (by omega),hx,Nat.mul_div_cancel_left j (by decide),Nat.mul_mod_right]
  have hones : word 2 3++(word 3 7++(word 5 31++(word 8 255++(word 8 255++escapes j)))) =
      List.replicate (26+8*j) true:=by
    rw [escapes_eq]
    change List.replicate 2 true++(List.replicate 3 true++(List.replicate 5 true ++
      (List.replicate 8 true++(List.replicate 8 true++List.replicate (8*j) true)))) = _
    have hlen : 2+(3+(5+(8+(8+8*j))))=26+8*j:=by omega
    simp only [replicate_append_replicate]
    rw [hlen]
  have hbytes : stream (List.replicate (j+3) 0xFF++[0xC0,0x00]) 0 =
      List.replicate (26+8*j) true++(word 8 0++List.replicate 6 false):=by
    rw [stream,drop_zero,flatMap_append,flatMap_ones,escapes_eq]
    change List.replicate (8*(j+3)) true++(List.replicate 2 true ++
      (word 8 0++List.replicate 6 false))=_
    have hlen : 8*(j+3)+2=26+8*j:=by omega
    rw [← append_assoc,replicate_append_replicate,hlen]
  rw [hbytes,hcode,← hones]
  simp only [append_assoc]

/-- A byte more than 16 MiB of ones carries a length over 32 bits. -/
theorem long_run_wraps : ¬Decodes (List.replicate (16843007+3) 0xFF++[0xC0,0x00]):=by
  rw [decodes_iff]
  intro hlong
  have hlt:=hlong 0 _ _ (by omega) (stream_ones 16843007)
  omega

example : decompressEa06 ([0x45,0x41,0x30,0x36,0,0,0,5]++[0xB0,0x80,0x00,0xA0]) 5 =
    (true,some (.ok (bytes "aaaaa"))):=by decide

end AutoRefirst.AutoIt
