import Mathlib.Data.List.Basic
import Mathlib.Data.Nat.Bitwise
import Mathlib.Tactic.Linarith
import Mathlib.Tactic.Ring

/-!
# LEB128

Numbers in digits of base 128, the lowest first, each but the last with the high bit of its byte;
the last digit of a signed number has a sign. A reader that accumulates the digits in a word gives
the number up to the width of the word.
-/

namespace Leb128
open List

/-- The bytes of one number. -/
inductive Code : List UInt8 → Prop
  | last {b : UInt8} : b.toNat<128 → Code [b]
  | more {b : UInt8} {e : List UInt8} : 128≤b.toNat → Code e → Code (b::e)

/-- The last digit. -/
def top (sign : Bool) (b : UInt8) : ℤ :=
  if sign = true ∧ 64 ≤ b.toNat then (b.toNat : ℤ)-128 else b.toNat

def number (sign : Bool) : List UInt8 → ℤ
  | [] => 0
  | [b] => top sign b
  | b :: c::e => (b.toNat % 128 : ℕ) + 128 * number sign (c::e)

/-- The digits before the last one. -/
def low : List UInt8 → ℕ
  | [] => 0
  | b::l => b.toNat % 128 + 128 * low l

/-- A number of so many bits. -/
def Fits (sign : Bool) (bits : ℕ) (z : ℤ) : Prop :=
  (if sign = true then -2^(bits-1) else 0) ≤ z ∧
    z < if sign = true then 2^(bits-1) else 2^bits

instance (sign : Bool) (bits : ℕ) (z : ℤ) : Decidable (Fits sign bits z) :=
  inferInstanceAs (Decidable (_ ∧ _))

variable {e : List UInt8}

theorem Code.ne_nil (h:Code e) : e≠[]:=by
  cases h with
  | last _=>exact cons_ne_nil _ _
  | more _ _=>exact cons_ne_nil _ _

theorem number_cons (sign:Bool) (b:UInt8) (h:e≠[]) :
    number sign (b::e) = (b.toNat % 128 : ℕ) + 128 * number sign e:=by
  cases e with
  | nil=>exact absurd rfl h
  | cons c e=>rfl

theorem low_lt (l:List UInt8) : low l<128^l.length:=by
  induction l with
  | nil=>exact Nat.one_pos
  | cons b l ih=>
    rw [low,length_cons,Nat.pow_succ]
    have hb:=Nat.mod_lt b.toNat (y:=128) (by decide)
    omega

theorem number_snoc (sign:Bool) (l:List UInt8) (b:UInt8) :
    number sign (l++[b]) = low l + 128^l.length * top sign b:=by
  induction l with
  | nil=>rw [nil_append,number,low,length_nil,pow_zero,one_mul,Nat.cast_zero,
      zero_add]
  | cons c l ih=>
    rw [cons_append,number_cons sign c (append_ne_nil_of_right_ne_nil l
      (cons_ne_nil b [])),ih,low,length_cons,pow_succ]
    push_cast
    ring

/-- The bytes before the last one and the last one. -/
theorem Code.snoc (h:Code e) : ∃l b,e=l++[b] ∧ b.toNat<128:=by
  induction h with
  | @last b hb=>exact ⟨[],b,rfl,hb⟩
  | @more c e _ _ ih=>
    obtain ⟨l,b,rfl,hb⟩:=ih
    exact ⟨c::l,b,rfl,hb⟩

variable {b : UInt8}

theorem top_fits (sign:Bool) (h:b.toNat<128) : Fits sign 7 (top sign b):=by
  unfold Fits top
  cases sign
  · simp only [Bool.false_eq_true,false_and,if_false]
    omega
  · simp only [true_and,if_true]
    split <;> omega

variable {z : ℤ}

theorem Fits.mono {sign:Bool} {bits bits':ℕ} (h:Fits sign bits z) (hle:bits≤bits') :
    Fits sign bits' z:=by
  have hpow : (2 : ℤ)^bits≤2^bits':=pow_le_pow_right₀ (by decide) hle
  have hpred : (2 : ℤ)^(bits-1)≤2^(bits'-1):=
    pow_le_pow_right₀ (by decide) (Nat.sub_le_sub_right hle 1)
  unfold Fits at h ⊢
  cases sign
  · simp only [Bool.false_eq_true,if_false] at h ⊢
    omega
  · simp only [if_true] at h ⊢
    omega

theorem pow_seven (n:ℕ) : (128 : ℤ)^n=2^(7*n):=by
  rw [pow_mul]
  rfl

theorem fits_snoc (sign:Bool) (l:List UInt8) (b:UInt8) {r:ℕ} (hr:0 < r) :
    Fits sign (7*l.length+r) (number sign (l++[b])) ↔ Fits sign r (top sign b):=by
  have hlow : (low l:ℤ)<128^l.length:=by exact_mod_cast low_lt l
  have hlow0 : (0 : ℤ)≤low l:=Int.natCast_nonneg _
  have hpos : (0 : ℤ)<128^l.length:=by positivity
  have hfull : (2 : ℤ)^(7*l.length+r)=128^l.length*2^r:=by
    rw [pow_add,pow_seven]
  have hhalf : (2 : ℤ)^(7*l.length+r-1)=128^l.length*2^(r-1):=by
    rw [Nat.add_sub_assoc hr,pow_add,pow_seven]
  rw [number_snoc]
  generalize top sign b = t
  generalize (128 : ℤ) ^ l.length = M at *
  -- a digit moves the number by more than what stands below it
  have hlt : ∀B : ℤ,(low l:ℤ)+M*t<M*B ↔ t<B:=by
    intro B
    constructor
    · intro h
      by_contra hle
      have:=mul_le_mul_of_nonneg_left (not_lt.mp hle) hpos.le
      omega
    · intro h
      have:=mul_le_mul_of_nonneg_left (Int.add_one_le_of_lt h) hpos.le
      rw [mul_add,mul_one] at this
      omega
  have hge : ∀B : ℤ,M*B≤(low l:ℤ)+M*t ↔ B≤t:=by
    intro B
    rw [← not_lt,hlt,not_lt]
  unfold Fits
  rw [hfull,hhalf]
  cases sign
  · simp only [Bool.false_eq_true,if_false]
    rw [hlt,← hge 0,mul_zero]
  · simp only [if_true]
    rw [hlt,← hge (-2^(r-1)),mul_neg]

theorem Code.fits {sign:Bool} (h:Code e) : Fits sign (7*e.length) (number sign e):=by
  obtain ⟨l,b,rfl,hb⟩:=h.snoc
  rw [length_append,length_singleton,Nat.mul_add]
  exact (fits_snoc sign l b (by decide)).mpr (top_fits sign hb)

def digit (z : ℤ) : UInt8 := .ofNat (z % 128).toNat

theorem digit_toNat (z:ℤ) : ((digit z).toNat : ℤ) = z % 128:=by
  have hnonneg:=Int.emod_nonneg z (b:=128) (by decide)
  have hlt:=Int.emod_lt_of_pos z (b:=128) (by decide)
  rw [digit,UInt8.toNat_ofNat',Nat.mod_eq_of_lt (by omega),Int.toNat_of_nonneg hnonneg]

theorem top_digit {sign:Bool} (h:Fits sign 7 z) : top sign (digit z)=z:=by
  have hdigit:=digit_toNat z
  unfold Fits at h
  unfold top
  cases sign
  · simp only [Bool.false_eq_true,if_false,false_and] at h ⊢
    omega
  · simp only [if_true,true_and] at h ⊢
    split <;> omega

variable {n : ℕ}

theorem fits_div {sign:Bool} (hn:0<n) (h:Fits sign (7*(n+1)) z) :
    Fits sign (7*n) (z/128):=by
  have hfull : (2 : ℤ)^(7*(n+1))=2^(7*n)*128:=by
    rw [Nat.mul_succ,pow_add]
    rfl
  have hhalf : (2 : ℤ)^(7*(n+1)-1)=2^(7*n-1)*128:=by
    rw [← Nat.sub_add_cancel (by omega:7≤7*(n+1)-1),pow_add]
    congr 2
  unfold Fits at h ⊢
  rw [hfull,hhalf] at h
  cases sign
  · simp only [Bool.false_eq_true,if_false] at h ⊢
    omega
  · simp only [if_true] at h ⊢
    omega

theorem exists_code (sign:Bool) (hn:0<n) (h:Fits sign (7*n) z) :
    ∃e,Code e ∧ e.length≤n ∧ number sign e=z:=by
  induction n, hn using Nat.le_induction generalizing z with
  | base=>
    have hdigit:=digit_toNat z
    have hlt:=Int.emod_lt_of_pos z (b:=128) (by decide)
    exact ⟨[digit z],.last (by omega),Nat.le_refl 1,top_digit h⟩
  | succ n hn ih=>
    obtain ⟨e,hcode,hlen,hnumber⟩:=ih (fits_div hn h)
    have hdigit:=digit_toNat z
    have hlt:=Int.emod_lt_of_pos z (b:=128) (by decide)
    have hb : (digit z + 128).toNat=(digit z).toNat+128:=by
      rw [UInt8.toNat_add]
      exact Nat.mod_eq_of_lt (by change (digit z).toNat + 128<256;omega)
    refine ⟨(digit z + 128)::e,.more (by omega) hcode,Nat.succ_le_succ hlen,?_⟩
    rw [number_cons sign _ hcode.ne_nil,hb,hnumber]
    omega

def Shortest (sign : Bool) (e : List UInt8) : Prop :=
  Code e ∧ ∀ e', Code e' → number sign e' = number sign e → e.length≤e'.length

theorem Shortest.length_le {sign:Bool} (h:Shortest sign e) (hn:0<n)
    (hfits:Fits sign (7*n) (number sign e)) : e.length≤n:=by
  obtain ⟨e',hcode,hlen,hnumber⟩:=exists_code sign hn hfits
  exact Nat.le_trans (h.2 e' hcode hnumber) hlen

variable {ε : Type}

/-- The bytes stand at a place of an input. -/
def Stands (next : ℕ→Except ε UInt8) : ℕ → List UInt8 → Prop
  | _, [] => True
  | off, b::e => next off = .ok b ∧ Stands next (off+1) e

/-- No byte is refused where it stands in the number. -/
def Passes (refuse : ℕ→UInt8→Bool) : ℕ → List UInt8 → Prop
  | _, [] => True
  | shift, b::e => refuse shift b = false ∧ Passes refuse (shift+7) e

def readFrom (sign : Bool) (bits : ℕ) (refuse : ℕ→UInt8→Bool) (next : ℕ→Except ε UInt8)
    (refused tooLong : ℕ→ε) : ℕ → ℕ → ℕ → ℕ → Except ε (ℕ×ℕ)
  | 0, off, _, _ => .error (tooLong off)
  | n+1, off, shift, x =>
    match next off with
    | .error e => .error e
    | .ok b =>
      if refuse shift b = true then .error (refused off)
      else
        let x := (x ||| (b &&& 0x7f).toNat <<< shift) % 2^bits
        if b &&& 0x80 = 0 then
          let x := if sign = true ∧ shift+7 < bits ∧ b &&& 0x40 ≠ 0 then
            x ||| (2^bits-2^(shift+7)) else x
          .ok (x,off+1)
        else readFrom sign bits refuse next refused tooLong n (off+1) (shift+7) x

def toNumber (sign : Bool) (bits : ℕ) (x : ℕ) : ℤ :=
  if sign = true ∧ 2^bits ≤ 2*x then (x : ℤ)-2^bits else x

/-- What is left of a number in a word. -/
def wrap (sign : Bool) (bits : ℕ) (z : ℤ) : ℤ := toNumber sign bits (z % 2^bits).toNat

theorem payload (b:UInt8) : (b &&& 0x7f).toNat = b.toNat % 128:=by
  rw [UInt8.toNat_and]
  exact Nat.and_two_pow_sub_one_eq_mod b.toNat 7

theorem and_pow_eq_zero (b:UInt8) (i:ℕ) (hi:i<8) :
    b &&& .ofNat (2^i)=0 ↔ b.toNat/2^i % 2=0:=by
  have hpow : 2^i<2^8:=Nat.pow_lt_pow_right (by decide) hi
  rw [← UInt8.toNat_inj,UInt8.toNat_and,UInt8.toNat_ofNat',Nat.mod_eq_of_lt hpow,
    Nat.and_two_pow,Nat.testBit_eq_decide_div_mod_eq]
  change _=0 ↔ _
  have hpos:=Nat.two_pow_pos i
  rcases Nat.mod_two_eq_zero_or_one (b.toNat/2^i) with h | h
  · rw [h]
    exact ⟨fun _=>rfl,fun _=>Nat.zero_mul _⟩
  · rw [h]
    change 1 * 2^i=0 ↔ _
    omega

theorem ends (b:UInt8) : b &&& 0x80=0 ↔ b.toNat<128:=by
  have h:=and_pow_eq_zero b 7 (by decide)
  have hlt:=b.toNat_lt
  change b &&& 0x80=0 ↔ b.toNat/128 % 2=0 at h
  rw [h]
  omega

theorem negative (hb:b.toNat<128) : b &&& 0x40≠0 ↔ 64≤b.toNat:=by
  have h:=and_pow_eq_zero b 6 (by decide)
  change b &&& 0x40=0 ↔ b.toNat/64 % 2=0 at h
  rw [ne_eq,h]
  omega

variable {x shift : ℕ}

/-- A digit is set above what is there. -/
theorem merge (hx:x<2^shift) (b:UInt8) :
    x ||| (b &&& 0x7f).toNat <<< shift = x + b.toNat % 128 * 2^shift:=by
  rw [payload,Nat.shiftLeft_eq,Nat.or_comm,Nat.mul_comm,← Nat.two_pow_add_eq_or_of_lt hx,
    Nat.add_comm]

theorem merge_lt (hx:x<2^shift) (b:UInt8) : x + b.toNat % 128 * 2^shift<2^(shift+7):=by
  have hb:=Nat.mod_lt b.toNat (y:=128) (by decide)
  have hle:=Nat.mul_le_mul_right (2^shift) (Nat.le_of_lt_succ hb)
  have hpow : 2^(shift+7)=128*2^shift:=by
    rw [Nat.pow_add,Nat.mul_comm]
  omega

/-- The sign is set above what is there. -/
theorem extend {s bits:ℕ} (hx:x<2^s) (hs:s<bits) : x ||| (2^bits-2^s) = x+(2^bits-2^s):=by
  have hmul : 2^bits-2^s=2^s*(2^(bits-s)-1):=by
    rw [Nat.mul_sub,← Nat.pow_add,Nat.add_sub_cancel' hs.le,Nat.mul_one]
  rw [hmul,Nat.or_comm,← Nat.two_pow_add_eq_or_of_lt hx,Nat.add_comm]

theorem last_word {sign:Bool} {bits:ℕ} (hx:x<2^shift) (hb:b.toNat<128) :
    (((if sign = true ∧ shift+7<bits ∧ b &&& 0x40≠0 then
      (x + b.toNat % 128 * 2^shift) % 2^bits ||| (2^bits-2^(shift+7))
      else (x + b.toNat % 128 * 2^shift) % 2^bits : ℕ)) : ℤ) =
      (x + 2^shift * top sign b) % 2^bits:=by
  have hlt:=merge_lt hx b
  have hpow : (2 : ℤ)^(shift+7)=2^shift*128:=pow_add 2 shift 7
  rw [Nat.mod_eq_of_lt hb] at hlt ⊢
  simp only [negative hb]
  unfold top
  by_cases hsign : sign=true ∧ 64≤b.toNat
  · rw [if_pos hsign]
    by_cases hshift : shift+7<bits
    · have hle : 2^(shift+7)≤2^bits:=Nat.pow_le_pow_right (by decide) hshift.le
      have hword : ((x+b.toNat*2^shift+(2^bits-2^(shift+7)) : ℕ) : ℤ) =
          x + 2^shift*((b.toNat : ℤ)-128) + 2^bits*1:=by
        push_cast [hle]
        rw [hpow]
        ring
      rw [if_pos ⟨hsign.1,hshift,hsign.2⟩,Nat.mod_eq_of_lt (by omega),extend hlt hshift,hword,
        ← Int.add_mul_emod_self_left _ (2^bits) 1,← hword]
      refine (Int.emod_eq_of_lt (Int.natCast_nonneg _) ?_).symm
      exact_mod_cast (by omega :
        x + b.toNat*2^shift + (2^bits-2^(shift+7))<2^bits)
    · have hdvd : (2 : ℤ)^bits ∣ 2^(shift+7):=pow_dvd_pow 2 (Nat.not_lt.mp hshift)
      obtain ⟨k,hk⟩:=hdvd
      have hsplit : (x:ℤ)+2^shift*((b.toNat : ℤ)-128) =
          x + b.toNat*2^shift + 2^bits * -k:=by
        rw [mul_neg,← hk,hpow]
        ring
      rw [if_neg fun h=>hshift h.2.1,hsplit,Int.add_mul_emod_self_left]
      push_cast
      rfl
  · rw [if_neg hsign,if_neg fun h=>hsign ⟨h.1,h.2.2⟩]
    push_cast
    rw [mul_comm (b.toNat : ℤ)]

theorem next_word {bits:ℕ} (z:ℤ) :
    ((((x + b.toNat % 128 * 2^shift) % 2^bits : ℕ) : ℤ)+2^(shift+7)*z) % 2^bits =
      (x+2^shift*((b.toNat % 128 : ℕ)+128*z)) % 2^bits:=by
  have hpow : (2 : ℤ)^(shift+7)=2^shift*128:=pow_add 2 shift 7
  push_cast
  rw [Int.add_emod,Int.emod_emod,← Int.add_emod,hpow]
  congr 1
  ring

variable {sign : Bool} {bits : ℕ} {refuse : ℕ→UInt8→Bool} {next : ℕ→Except ε UInt8}
  {refused tooLong : ℕ→ε}

/-- The loop reads the codes that stand and pass, and gives what the word keeps of the number. -/
theorem readFrom_ok : ∀ {n off shift x v off':ℕ},x<2^shift →
    (readFrom sign bits refuse next refused tooLong n off shift x=.ok (v,off') ↔
      ∃e,Code e ∧ e.length≤n ∧ Stands next off e ∧ Passes refuse shift e ∧
        off' = off+e.length ∧ (v:ℤ) = (x + 2^shift * number sign e) % 2^bits):=by
  intro n
  induction n with
  | zero=>
    intro off shift x v off' _
    constructor
    · intro h
      cases h
    · rintro ⟨e,hcode,hlen,-⟩
      exact absurd (length_eq_zero_iff.mp (Nat.le_zero.mp hlen)) hcode.ne_nil
  | succ n ih=>
    intro off shift x v off' hx
    rw [readFrom]
    cases hnext : next off with
    | error err=>
      constructor
      · intro h
        cases h
      · rintro ⟨e,hcode,-,hstands,-⟩
        cases hcode with
        | last _=>cases hnext.symm.trans hstands.1
        | more _ _=>cases hnext.symm.trans hstands.1
    | ok b=>
      simp only
      rw [merge hx]
      have hlt:=Nat.lt_of_le_of_lt (Nat.mod_le _ (2^bits)) (merge_lt hx b)
      -- the code starts with the byte that stands here
      have hsame : ∀ {c:UInt8} {e:List UInt8},Stands next off (c::e) → c=b:=
        fun h=>Except.ok.inj (h.1.symm.trans hnext)
      by_cases hrefuse : refuse shift b=true
      · rw [if_pos hrefuse]
        constructor
        · intro h
          cases h
        · rintro ⟨e,hcode,-,hstands,hpasses,-⟩
          cases hcode with
          | last _=>cases hrefuse.symm.trans (hsame hstands▸hpasses.1)
          | more _ _=>cases hrefuse.symm.trans (hsame hstands▸hpasses.1)
      rw [if_neg hrefuse]
      have hpass : refuse shift b=false:=Bool.not_eq_true _▸hrefuse
      by_cases hend : b.toNat<128
      · rw [if_pos ((ends b).mpr hend),Except.ok.injEq,Prod.mk.injEq]
        constructor
        · rintro ⟨rfl,rfl⟩
          exact ⟨[b],.last hend,Nat.le_add_left 1 n,⟨hnext,trivial⟩,⟨hpass,trivial⟩,rfl,
            last_word hx hend⟩
        · rintro ⟨e,hcode,-,hstands,-,rfl,hv⟩
          cases hcode with
          | last _=>
            rw [hsame hstands,number,← last_word hx hend] at hv
            exact ⟨(Int.ofNat.inj hv).symm,rfl⟩
          | more hmore _=>exact absurd (hsame hstands▸hmore) (Nat.not_le.mpr hend)
      · rw [if_neg (mt (ends b).mp hend),ih hlt]
        constructor
        · rintro ⟨e,hcode,hlen,hstands,hpasses,rfl,hv⟩
          refine ⟨b::e,.more (Nat.not_lt.mp hend) hcode,Nat.succ_le_succ hlen,
            ⟨hnext,hstands⟩,⟨hpass,hpasses⟩,?_,?_⟩
          · rw [length_cons]
            omega
          · rw [hv,next_word,number_cons sign b hcode.ne_nil]
        · rintro ⟨e,hcode,hlen,hstands,hpasses,rfl,hv⟩
          cases hcode with
          | last hlast=>exact absurd (hsame hstands▸hlast) hend
          | @more c e _ hcode=>
            obtain rfl:=hsame hstands
            refine ⟨e,hcode,Nat.le_of_succ_le_succ hlen,hstands.2,hpasses.2,?_,?_⟩
            · rw [length_cons]
              omega
            · rw [hv,next_word,number_cons sign c hcode.ne_nil]

/-- The codes a reader takes at a place. -/
def Accepted (n : ℕ) (refuse : ℕ→UInt8→Bool) (next : ℕ→Except ε UInt8) (off : ℕ)
    (e : List UInt8) : Prop :=
  Code e ∧ e.length≤n ∧ Stands next off e ∧ Passes refuse 0 e

def Reads (sign : Bool) (bits n : ℕ) (refuse : ℕ→UInt8→Bool) (next : ℕ→Except ε UInt8)
    (off : ℕ) (r : Option (ℤ×ℕ)) : Prop :=
  ∀ z off', r=some (z,off') ↔
    ∃ e, Accepted n refuse next off e ∧ off'=off+e.length ∧ z = wrap sign bits (number sign e)

/-- What is read is the number that stands, and it fits. -/
def Exact (sign : Bool) (bits : ℕ) (next : ℕ→Except ε UInt8) (off : ℕ) (r : Option (ℤ×ℕ)) : Prop :=
  ∀ z off', r=some (z,off') → ∃ e, Code e ∧ Stands next off e ∧ off'=off+e.length ∧
    z = number sign e ∧ Fits sign bits z

/-- The shortest code of a number that fits is read. -/
def TakesShortest (sign : Bool) (bits : ℕ) (next : ℕ→Except ε UInt8) (off : ℕ)
    (r : Option (ℤ×ℕ)) : Prop :=
  ∀ e, Shortest sign e → Stands next off e → Fits sign bits (number sign e) →
    r = some (number sign e,off + e.length)

/-- The byte behind `m` bytes that go on, where it ends the number. -/
def LastByte (next : ℕ→Except ε UInt8) (off m : ℕ) (good : UInt8→Prop) : Prop :=
  ∀ l b, l.length=m → Code (l++[b]) → Stands next off (l++[b]) → good b

theorem Code.last_lt {l:List UInt8} (h:Code (l++[b])) : b.toNat<128:=by
  obtain ⟨l',b',heq,hb⟩:=h.snoc
  obtain ⟨-,hlast⟩:=append_inj' heq rfl
  rwa [(List.cons.inj hlast).1]

theorem lastByte_congr {off m:ℕ} {good good':UInt8→Prop}
    (h:∀b : UInt8,b.toNat<128 → (good b ↔ good' b)) :
    LastByte next off m good ↔ LastByte next off m good':=
  ⟨fun hgood l b hl hcode hstands=>(h b hcode.last_lt).mp (hgood l b hl hcode hstands),
    fun hgood l b hl hcode hstands=>(h b hcode.last_lt).mpr (hgood l b hl hcode hstands)⟩

theorem readFrom_reads (refused tooLong:ℕ→ε) {off:ℕ} {r:Option (ℤ×ℕ)}
    (h:∀z off',r=some (z,off') ↔ ∃x,z=toNumber sign bits x ∧
      readFrom sign bits refuse next refused tooLong n off 0 0=.ok (x,off')) :
    Reads sign bits n refuse next off r:=by
  intro z off'
  rw [h]
  have hzero : ∀e,((0 : ℕ) : ℤ) + 2^0 * number sign e = number sign e:=by
    intro e
    rw [Nat.cast_zero,zero_add,pow_zero,one_mul]
  constructor
  · rintro ⟨x,rfl,hread⟩
    obtain ⟨e,hcode,hlen,hstands,hpasses,hoff,hx⟩:=(readFrom_ok Nat.one_pos).mp hread
    refine ⟨e,⟨hcode,hlen,hstands,hpasses⟩,hoff,?_⟩
    rw [wrap,← hzero e,← hx,Int.toNat_natCast]
  · rintro ⟨e,⟨hcode,hlen,hstands,hpasses⟩,hoff,hz⟩
    refine ⟨_,hz,(readFrom_ok Nat.one_pos).mpr ⟨e,hcode,hlen,hstands,hpasses,hoff,?_⟩⟩
    rw [hzero,Int.toNat_of_nonneg (Int.emod_nonneg _ (by positivity))]

theorem wrap_eq (h:Fits sign bits z) (hbits:0<bits) : wrap sign bits z=z:=by
  have hpow : (2 : ℤ)^bits=2*2^(bits-1):=by
    rw [← pow_succ',Nat.sub_add_cancel hbits]
  have hcast : ((2^bits : ℕ) : ℤ)=2^bits:=by
    push_cast
    rfl
  unfold wrap toNumber
  unfold Fits at h
  cases sign
  · simp only [Bool.false_eq_true,if_false,false_and] at h ⊢
    rw [Int.emod_eq_of_lt h.1 h.2,Int.toNat_of_nonneg h.1]
  · simp only [if_true,true_and] at h ⊢
    rcases lt_or_ge z 0 with hneg | hnonneg
    · have hmod : z % 2^bits = z+2^bits:=by
        rw [← Int.add_emod_right,Int.emod_eq_of_lt (by omega) (by omega)]
      rw [hmod,if_pos (by omega),Int.toNat_of_nonneg (by omega)]
      ring
    · rw [Int.emod_eq_of_lt hnonneg (by omega),if_neg (by omega),Int.toNat_of_nonneg hnonneg]

section
variable {word m off : ℕ} {r : Option (ℤ×ℕ)}

theorem stands_inj {e e':List UInt8} (hcode:Code e) (hcode':Code e')
    (h:Stands next off e) (h':Stands next off e') : e=e':=by
  induction hcode generalizing e' off with
  | @last b hb=>
    cases hcode' with
    | @last c _=>rw [Except.ok.inj (h.1.symm.trans h'.1)]
    | @more c _ hc _=>
      have hbc : b=c:=Except.ok.inj (h.1.symm.trans h'.1)
      exact absurd hb (hbc▸Nat.not_lt.mpr hc)
  | @more b e hb _ ih=>
    cases hcode' with
    | @last c hc=>
      have hbc : b=c:=Except.ok.inj (h.1.symm.trans h'.1)
      exact absurd hc (hbc▸Nat.not_lt.mpr hb)
    | @more c _ _ hrest=>
      have hbc : b=c:=Except.ok.inj (h.1.symm.trans h'.1)
      rw [hbc,ih hrest h.2 h'.2]

theorem Passes.snoc_iff (hrefuse:∀shift b,shift<7*m → refuse shift b=false)
    (l:List UInt8) (b:UInt8) {k:ℕ} (hk:k+l.length=m) :
    Passes refuse (7*k) (l++[b]) ↔ refuse (7*m) b=false:=by
  induction l generalizing k with
  | nil=>
    rw [length_nil,Nat.add_zero] at hk
    rw [hk]
    exact and_iff_left trivial
  | cons c l ih=>
    rw [length_cons] at hk
    have hrest:=ih (k:=k+1) (by omega)
    rw [Nat.mul_succ] at hrest
    rw [cons_append,Passes,hrest]
    exact and_iff_right (hrefuse _ c (by omega))

theorem passes_of_short (hrefuse:∀shift b,shift<7*m → refuse shift b=false)
    (e:List UInt8) {k:ℕ} (hk:k+e.length ≤ m) : Passes refuse (7*k) e:=by
  induction e generalizing k with
  | nil=>trivial
  | cons c e ih=>
    rw [length_cons] at hk
    exact ⟨hrefuse _ c (by omega),ih (k:=k+1) (by omega)⟩

/-- A reader is exact where the last byte it takes leaves the number in its width. -/
theorem Reads.exact_iff (h:Reads sign word (m+1) refuse next off r) (hm:7*m<bits)
    (hword:bits≤word) (hrefuse:∀shift b,shift<7*m → refuse shift b=false) :
    Exact sign bits next off r ↔ LastByte next off m fun b=>
      refuse (7*m) b=false → Fits sign (bits-7*m) (top sign b):=by
  have hsplit : ∀l b,l.length=m →
      (Fits sign bits (number sign (l++[b])) ↔ Fits sign (bits-7*m) (top sign b)):=by
    intro l b hl
    rw [← fits_snoc sign l b (Nat.sub_pos_of_lt hm),hl,Nat.add_sub_cancel' hm.le]
  constructor
  · intro hexact l b hl hcode hstands hpass
    have haccepted : Accepted (m+1) refuse next off (l++[b]):=
      ⟨hcode,by rw [length_append,hl,length_singleton],hstands,
        (Passes.snoc_iff hrefuse l b (k:=0) (by omega)).mpr hpass⟩
    obtain ⟨e,hcode',hstands',-,hnumber,hfits⟩:=hexact _ _ ((h _ _).mpr ⟨l++[b],haccepted,rfl,rfl⟩)
    obtain rfl:=stands_inj hcode hcode' hstands hstands'
    rw [hnumber] at hfits
    exact (hsplit l b hl).mp hfits
  · intro hlast z off' hr
    obtain ⟨e,⟨hcode,hlen,hstands,hpasses⟩,hoff,rfl⟩:=(h z off').mp hr
    have hfits : Fits sign bits (number sign e):=by
      rcases Nat.lt_or_ge e.length (m+1) with hlt | hge
      · exact hcode.fits.mono (by omega)
      · obtain ⟨l,b,rfl,-⟩:=hcode.snoc
        rw [length_append,length_singleton] at hlen hge
        have hl : l.length=m:=by omega
        exact (hsplit l b hl).mpr (hlast l b hl hcode hstands
          ((Passes.snoc_iff hrefuse l b (k:=0) (by omega)).mp hpasses))
    have hkeep:=wrap_eq (hfits.mono hword) (by omega)
    exact ⟨e,hcode,hstands,hoff,hkeep,by rw [hkeep];exact hfits⟩

theorem Reads.code {n:ℕ} (h:Reads sign word n refuse next off r) {z:ℤ} {off':ℕ}
    (hr:r=some (z,off')) : ∃e,Code e ∧ Stands next off e ∧ off'=off+e.length:=by
  obtain ⟨e,⟨hcode,-,hstands,-⟩,hoff,-⟩:=(h z off').mp hr
  exact ⟨e,hcode,hstands,hoff⟩

theorem Reads.takesShortest (h:Reads sign word (m+1) refuse next off r) (hm:7*m<bits)
    (hbits:bits≤7*(m+1)) (hword:bits≤word)
    (hrefuse:∀shift b,shift<7*m → refuse shift b=false)
    (hlenient:∀b : UInt8,b.toNat<128 → Fits sign (bits-7*m) (top sign b) →
      refuse (7*m) b=false) : TakesShortest sign bits next off r:=by
  intro e hshort hstands hfits
  have hlen:=hshort.length_le (Nat.succ_pos m) (hfits.mono hbits)
  have hpasses : Passes refuse (7*0) e:=by
    rcases Nat.lt_or_ge e.length (m+1) with hlt | hge
    · exact passes_of_short hrefuse e (by omega)
    · obtain ⟨l,b,rfl,hb⟩:=hshort.1.snoc
      rw [length_append,length_singleton] at hlen hge
      have hl : l.length=m:=by omega
      refine (Passes.snoc_iff hrefuse l b (by omega)).mpr (hlenient b hb ?_)
      rwa [← fits_snoc sign l b (Nat.sub_pos_of_lt hm),hl,Nat.add_sub_cancel' hm.le]
  rw [h]
  exact ⟨e,⟨hshort.1,hlen,hstands,hpasses⟩,rfl, (wrap_eq (hfits.mono hword) (by omega)).symm⟩

end

end Leb128
