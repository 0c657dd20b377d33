import AutoRefirst.ElfUnwind
import AutoRefirst.Leb128
import AutoRefirst.WasmReader

/-!
# The readers of LEB128

The readers of the parsers of DEX and DWARF, and those of WebAssembly and of unwind data, as
instances of one loop.
-/

namespace AutoRefirst.LebReaders

open Leb128

structure DexParseError where
  offset : ℕ
  message : String
  deriving DecidableEq

variable (d : Bytes) (limit : ℕ)

def dexNeed (off size : ℕ) (what : String) : Except DexParseError Unit :=
  if off > d.length ∨ size > d.length-off then .error ⟨off,"truncated DEX "++what⟩
  else if limit ≠ 0 ∧ (off > limit ∨ size > limit-off) then
    .error ⟨off,"DEX "++what++" exceeds container bounds"⟩
  else .ok ()

variable (what : String)

def dexByte (off : ℕ) : Except DexParseError UInt8 := do
  dexNeed d limit off 1 what
  return d.getD off 0

def dexOverflowing (off : ℕ) : DexParseError :=
  ⟨off,"overflowing DEX "++what⟩

def dexUnterminated (off : ℕ) : DexParseError :=
  ⟨off,"unterminated DEX "++what⟩

def readUleb (off : ℕ) (what : String) : Except DexParseError (ℕ×ℕ) :=
  readFrom false 32 (fun shift b => decide (shift = 28 ∧ b &&& 0xf0 ≠ 0)) (dexByte d limit what)
    (dexOverflowing what) (dexUnterminated what) 5 off 0 0

/-- `read_sleb`, which tests the fifth byte only where it ends the number. -/
def readSleb (off : ℕ) (what : String) : Except DexParseError (ℤ×ℕ) :=
  (readFrom true 32
    (fun shift b => decide (shift = 28 ∧ b &&& 0x80 = 0 ∧ b &&& 0x70 ≠ 0 ∧ b &&& 0x70 ≠ 0x70))
    (dexByte d limit what) (dexOverflowing what) (dexUnterminated what) 5 off 0 0).map
    fun r => (toNumber true 32 r.1,r.2)

variable (v : Bytes)

/-- The next byte of a view, before the end of what may be read. -/
def viewByte (stop o : ℕ) : Except Unit UInt8 :=
  if o < stop then .ok (v.getD o 0) else .error ()

variable (o stop : ℕ)

def dwarfUleb : Option (ℕ×ℕ) :=
  (readFrom false 64 (fun shift b => decide (64 ≤ shift ∧ b ≠ 0)) (viewByte v stop) (fun _ => ())
    (fun _ => ()) 10 o 0 0).toOption

def dwarfSleb : Option (ℤ×ℕ) :=
  ((readFrom true 64 (fun _ _ => false) (viewByte v stop) (fun _ => ()) (fun _ => ()) 10 o 0
    0).map fun r => (toNumber true 64 r.1,r.2)).toOption

theorem byteAt_eq (off:ℕ) : Elf.byteAt d off=d.getD off 0:=rfl

theorem and_toNat (b:UInt8) (k:ℕ) (hk:k<256) : (b &&& .ofNat k).toNat = b.toNat &&& k:=by
  rw [UInt8.toNat_and,UInt8.toNat_ofNat',Nat.mod_eq_of_lt hk]

def ehRefused (sign : Bool) (shift : ℕ) (b : UInt8) : Bool :=
  decide (shift = 63 ∧ b.toNat &&& 0x7e ≠ 0 ∧ (sign = true → b.toNat &&& 0x7e ≠ 0x7e))

theorem ehRefused_iff (sign:Bool) (shift:ℕ) (b:UInt8) : ehRefused sign shift b=true ↔
    shift=63 ∧ b.toNat &&& 0x7e≠0 ∧ (sign=true → b.toNat &&& 0x7e≠0x7e):=
  decide_eq_true_iff

theorem ehUlebFrom_eq : ∀ {n off shift v:ℕ},v<2^shift → shift + 7*n≤70 →
    Elf.ehUlebFrom d stop n off shift v = (readFrom false 70 (ehRefused false) (viewByte d stop)
      (fun _=>()) (fun _=>()) n off shift v).toOption:=by
  intro n
  induction n with
  | zero=>
    intro off shift v _ _
    rfl
  | succ n ih=>
    intro off shift v hv hshift
    rw [Elf.ehUlebFrom,readFrom,viewByte]
    by_cases hoff : off<stop
    · rw [if_pos hoff,if_pos hoff,byteAt_eq]
      simp only
      generalize d.getD off 0 = b
      have hlt:=merge_lt hv b
      have hpow : 2^(shift+7)≤2^70:=Nat.pow_le_pow_right (by decide) (by omega)
      rw [merge hv,Nat.mod_eq_of_lt (Nat.lt_of_lt_of_le hlt hpow)]
      by_cases hrefuse : shift=63 ∧ b.toNat &&& 0x7e≠0
      · rw [if_pos hrefuse,if_pos ((ehRefused_iff false shift b).mpr
          ⟨hrefuse.1,hrefuse.2,fun h=>by cases h⟩)]
        rfl
      · have hpass : ¬ehRefused false shift b = true:=fun h=>
          hrefuse ⟨((ehRefused_iff false shift b).mp h).1,((ehRefused_iff false shift b).mp h).2.1⟩
        rw [if_neg hrefuse,if_neg hpass]
        by_cases hend : b.toNat<128
        · rw [if_pos hend,if_pos ((ends b).mpr hend),if_neg fun h=>by cases h.1]
          rfl
        · rw [if_neg hend,if_neg (mt (ends b).mp hend)]
          exact ih hlt (by omega)
    · rw [if_neg hoff,if_neg hoff]
      rfl

theorem signed_eq (x:ℕ) : Elf.signed 64 x=toNumber true 64 x:=by
  unfold Elf.signed toNumber
  by_cases h : 2*x<2^64
  · rw [if_pos h,if_neg fun hle=>Nat.not_le.mpr h hle.2]
  · rw [if_neg h,if_pos ⟨rfl,Nat.not_lt.mp h⟩]

theorem ehSlebFrom_eq : ∀ {n off shift raw:ℕ},raw<2^shift →
    Elf.ehSlebFrom d stop n off shift raw =
      ((readFrom true 64 (ehRefused true) (viewByte d stop) (fun _=>()) (fun _=>()) n off
        shift raw).map fun r=>(toNumber true 64 r.1,r.2)).toOption:=by
  intro n
  induction n with
  | zero=>
    intro off shift raw _
    rfl
  | succ n ih=>
    intro off shift raw hraw
    rw [Elf.ehSlebFrom,readFrom,viewByte]
    by_cases hoff : off<stop
    · rw [if_pos hoff,if_pos hoff,byteAt_eq]
      simp only
      generalize d.getD off 0 = b
      have hlt:=Nat.lt_of_le_of_lt (Nat.mod_le _ (2^64)) (merge_lt hraw b)
      rw [merge hraw]
      generalize (raw + b.toNat % 128 * 2^shift) % 2^64 = x at hlt
      by_cases hrefuse : shift=63 ∧ b.toNat &&& 0x7e≠0 ∧ b.toNat &&& 0x7e≠0x7e
      · rw [if_pos hrefuse,if_pos ((ehRefused_iff true shift b).mpr
          ⟨hrefuse.1,hrefuse.2.1,fun _=>hrefuse.2.2⟩)]
        rfl
      · have hpass : ¬ehRefused true shift b = true:=by
          intro h
          obtain ⟨hshift,hzero,hones⟩:=(ehRefused_iff true shift b).mp h
          exact hrefuse ⟨hshift,hzero,hones rfl⟩
        rw [if_neg hrefuse,if_neg hpass]
        by_cases hend : b.toNat<128
        · rw [if_pos hend,if_pos ((ends b).mpr hend)]
          by_cases hsign : 64≤b.toNat ∧ shift+7<64
          · have hle : 2^(shift+7)≤2^64:=Nat.pow_le_pow_right (by decide) hsign.2.le
            rw [if_pos hsign,if_pos ⟨trivial,hsign.2,(negative hend).mpr hsign.1⟩,
              extend hlt hsign.2,Nat.mod_eq_of_lt (by omega),signed_eq]
            rfl
          · rw [if_neg hsign,if_neg fun h=>hsign ⟨(negative hend).mp h.2.2,h.2.1⟩,signed_eq]
            rfl
        · rw [if_neg hend,if_neg (mt (ends b).mp hend)]
          exact ih hlt
    · rw [if_neg hoff,if_neg hoff]
      rfl

def wasmByte (r : SpanReader.Reader) (p : ℕ) : Except SpanReader.Failure UInt8 :=
  if p < r.stop then .ok (r.d.getD p 0) else .error ⟨"WebAssembly structure truncated",p⟩

theorem byte_run (r:SpanReader.Reader) :
    Wasm.byte r = (wasmByte r r.p).map fun b=>(b,{r with p:=r.p+1}):=by
  change (SpanReader.need "WebAssembly structure truncated" 1 >>= fun _=>
    SpanReader.take 1 >>= fun v=>pure (v.headD 0)) r=_
  rw [wasmByte]
  by_cases hp : r.p < r.stop
  · have hneed : SpanReader.need "WebAssembly structure truncated" 1 r = .ok ((),r):=
      if_pos (by omega)
    have hhead : ((r.d.drop r.p).take 1).headD 0=r.d.getD r.p 0:=by
      rw [List.getD_eq_getElem?_getD,← List.head?_drop]
      cases r.d.drop r.p with
      | nil=>rfl
      | cons b l=>rfl
    rw [if_pos hp]
    change (SpanReader.need "WebAssembly structure truncated" 1 r >>= fun _=>_) = _
    rw [hneed]
    change Except.ok (((r.d.drop r.p).take 1).headD 0,{r with p:=r.p+1}) = _
    rw [hhead]
    rfl
  · have hneed : SpanReader.need "WebAssembly structure truncated" 1 r =
        .error ⟨"WebAssembly structure truncated",r.p⟩:=if_neg (by omega)
    rw [if_neg hp]
    change (SpanReader.need "WebAssembly structure truncated" 1 r >>= fun _=>_) = _
    rw [hneed]
    rfl

theorem byte_bind {β:Type} (f:UInt8→SpanReader.Parser β) (r:SpanReader.Reader) :
    (Wasm.byte >>= f) r = match wasmByte r r.p with
      | .error e => .error e
      | .ok b=>f b {r with p:=r.p+1}:=by
  change (Wasm.byte r >>= fun x=>f x.1 x.2) = _
  rw [byte_run]
  cases wasmByte r r.p with
  | error e=>rfl
  | ok b=>rfl

/-- The test of the last byte of an unsigned number. -/
def wasmRefused (last : ℕ) (spare : UInt8) (shift : ℕ) (b : UInt8) : Bool :=
  decide (shift = 7*last ∧ b &&& spare ≠ 0)

theorem wasmRefused_iff (last:ℕ) (spare:UInt8) (shift:ℕ) (b:UInt8) :
    wasmRefused last spare shift b=true ↔ shift=7*last ∧ b &&& spare≠0:=
  decide_eq_true_iff

theorem lebFrom_eq (type:String) (last:ℕ) (spare:UInt8) :
    ∀ {k i v:ℕ} {r:SpanReader.Reader},v<2^(7*i) → i+k≤last+1 →
      Wasm.lebFrom type last spare k i v r =
        (readFrom false (7*(last+1)) (wasmRefused last spare) (wasmByte r)
          (fun off=>⟨type++" LEB128 overflow",off + 1⟩)
          (fun off=>⟨type++" LEB128 too long",off⟩) k r.p (7*i) v).map
          fun x=>(x.1,{r with p:=x.2}):=by
  intro k
  induction k with
  | zero=>
    intro i v r _ _
    rfl
  | succ k ih=>
    intro i v r hv hi
    rw [Wasm.lebFrom,byte_bind,readFrom]
    cases wasmByte r r.p with
    | error e=>rfl
    | ok b=>
      simp only
      have hlt:=merge_lt hv b
      have hpow : 2^(7*i+7)≤2^(7*(last+1)):=Nat.pow_le_pow_right (by decide) (by omega)
      have hindex : i=last ↔ 7*i=7*last:=by omega
      rw [merge hv,Nat.mod_eq_of_lt (Nat.lt_of_lt_of_le hlt hpow)]
      by_cases hrefuse : i=last ∧ b &&& spare≠0
      · have hrefused:=(wasmRefused_iff last spare (7*i) b).mpr ⟨hindex.mp hrefuse.1,hrefuse.2⟩
        rw [if_pos hrefuse,if_pos hrefused]
        rfl
      · have hpass : ¬wasmRefused last spare (7*i) b=true:=by
          intro h
          obtain ⟨hlast,hspare⟩:=(wasmRefused_iff last spare (7*i) b).mp h
          exact hrefuse ⟨hindex.mpr hlast,hspare⟩
        rw [if_neg hrefuse,if_neg hpass]
        by_cases hend : b &&& 0x80=0
        · rw [if_pos hend,if_pos hend,if_neg fun h=>by cases h.1]
          rfl
        · rw [if_neg hend,if_neg hend]
          exact ih (r:={r with p:=r.p+1}) hlt (by omega)

theorem toInt_eq (x:UInt64) : x.toInt64.toInt=toNumber true 64 x.toNat:=by
  change x.toBitVec.toInt=_
  rw [BitVec.toInt_eq_toNat_cond]
  unfold toNumber
  change (if 2*x.toNat<2^64 then (x.toNat : ℤ) else (x.toNat : ℤ)-(2^64 : ℕ)) = _
  by_cases h : 2*x.toNat<2^64
  · rw [if_pos h,if_neg fun hle=>Nat.not_le.mpr h hle.2]
  · rw [if_neg h,if_pos ⟨rfl,Nat.not_lt.mp h⟩]
    rfl

theorem shift_toNat {shift:ℕ} (h:shift<64) (x:UInt64) :
    (x <<< shift.toUInt64).toNat = x.toNat <<< shift % 2^64:=by
  have hmod : shift.toUInt64.toNat % 64 = shift:=by
    change shift % 2^64 % 64 = shift
    omega
  rw [UInt64.toNat_shiftLeft,hmod]

theorem ones_shift {shift:ℕ} (h:shift<64) :
    ((~~~ 0 : UInt64) <<< shift.toUInt64).toNat=2^64-2^shift:=by
  rw [shift_toNat h]
  change (2^64-1) <<< shift % 2^64 = _
  have hpos:=Nat.two_pow_pos shift
  have hlt : 2^shift≤2^64:=Nat.pow_le_pow_right (by decide) h.le
  have hmul : (2^64-1)*2^shift=2^64-2^shift+2^64*(2^shift-1):=by
    rw [Nat.mul_sub,Nat.sub_mul]
    have:=Nat.mul_le_mul_left (2^64) hpos
    omega
  rw [Nat.shiftLeft_eq,hmul,Nat.add_mul_mod_self_left,Nat.mod_eq_of_lt (by omega)]

theorem s64From_eq : ∀ {k shift:ℕ} {x:UInt64} {r:SpanReader.Reader},
    x.toNat<2^shift → shift+7*k≤70 → Wasm.s64From k shift x r =
        (readFrom true 64 (fun _ _=>false) (wasmByte r) (fun off=>⟨"",off⟩)
          (fun off=>⟨"signed LEB128 too long",off⟩) k r.p shift x.toNat).map
          fun x=>(toNumber true 64 x.1,{r with p:=x.2}):=by
  intro k
  induction k with
  | zero=>
    intro shift x r _ _
    rfl
  | succ k ih=>
    intro shift x r hx hshift
    rw [Wasm.s64From,byte_bind,readFrom]
    cases wasmByte r r.p with
    | error e=>rfl
    | ok b=>
      simp only
      have hsmall : shift<64:=by omega
      have hpayload : (b &&& 0x7f).toUInt64.toNat=(b &&& 0x7f).toNat:=rfl
      have hword : (x ||| (b &&& 0x7f).toUInt64 <<< shift.toUInt64).toNat =
          (x.toNat ||| (b &&& 0x7f).toNat <<< shift) % 2^64:=by
        rw [UInt64.toNat_or,shift_toNat hsmall,hpayload,Nat.or_mod_two_pow,
          Nat.mod_eq_of_lt x.toNat_lt]
      have hlt : (x ||| (b &&& 0x7f).toUInt64 <<< shift.toUInt64).toNat<2^(shift+7):=by
        rw [hword,merge hx]
        exact Nat.lt_of_le_of_lt (Nat.mod_le _ _) (merge_lt hx b)
      rw [if_pos hsmall,if_neg Bool.false_ne_true,← hword]
      generalize x ||| (b &&& 0x7f).toUInt64 <<< shift.toUInt64 = y at hlt
      by_cases hend : b &&& 0x80=0
      · rw [if_pos hend,if_pos hend]
        by_cases hsign : shift+7<64 ∧ b &&& 0x40≠0
        · rw [if_pos hsign,if_pos ⟨trivial,hsign⟩]
          change Except.ok ((y ||| (~~~ 0) <<< (shift+7).toUInt64).toInt64.toInt,_) =
            Except.ok (toNumber true 64 _,_)
          rw [toInt_eq,UInt64.toNat_or,ones_shift hsign.1]
        · rw [if_neg hsign,if_neg fun h=>hsign h.2]
          change Except.ok (y.toInt64.toInt,_)=Except.ok (toNumber true 64 y.toNat,_)
          rw [toInt_eq]
      · rw [if_neg hend,if_neg hend]
        exact ih (r:={r with p:=r.p+1}) hlt (by omega)

/-- The number a parser of WebAssembly gives, and where it stops. -/
def wasmResult {α : Type} (f : α→ℤ) (m : SpanReader.Parser α) (r : SpanReader.Reader) :
    Option (ℤ×ℕ) := ((m r).map fun x => (f x.1,x.2.p)).toOption

def natResult (r : Option (ℕ×ℕ)) : Option (ℤ×ℕ) := r.map fun x => ((x.1 : ℤ),x.2)

theorem toNumber_false (bits x:ℕ) : toNumber false bits x=x:=if_neg fun h=>by cases h.1

theorem map_toOption {ε α β:Type} (e:Except ε α) (f:α→β) :
    (e.map f).toOption=e.toOption.map f:=by
  cases e with
  | error _=>rfl
  | ok _=>rfl

theorem toOption_eq_some {ε α:Type} {e:Except ε α} {a:α} : e.toOption=some a ↔ e=.ok a:=by
  cases e with
  | error _=>
    constructor
    · intro h
      cases h
    · intro h
      cases h
  | ok _=>exact ⟨fun h=>congrArg Except.ok (Option.some.inj h),
      fun h=>congrArg some (Except.ok.inj h)⟩

theorem reads_of_eq {ε:Type} {sign:Bool} {bits n off:ℕ} {refuse:ℕ→UInt8→Bool}
    {next:ℕ→Except ε UInt8} (refused tooLong:ℕ→ε) {r:Option (ℤ×ℕ)}
    (h:r=(readFrom sign bits refuse next refused tooLong n off 0 0).toOption.map
      fun x=>(toNumber sign bits x.1,x.2)) : Reads sign bits n refuse next off r:=by
  refine readFrom_reads refused tooLong fun z off'=>?_
  rw [h,Option.map_eq_some_iff]
  constructor
  · rintro ⟨⟨x,p⟩,hread,hx⟩
    obtain ⟨rfl,rfl⟩:=Prod.mk.inj hx
    exact ⟨x,rfl,toOption_eq_some.mp hread⟩
  · rintro ⟨x,rfl,hread⟩
    exact ⟨(x,off'),toOption_eq_some.mpr hread,rfl⟩

theorem readUleb_reads (off:ℕ) (what:String) :
    Reads false 32 5 (fun shift b=>decide (shift=28 ∧ b &&& 0xf0≠0)) (dexByte d limit what)
      off (natResult (readUleb d limit off what).toOption):=by
  refine reads_of_eq (dexOverflowing what) (dexUnterminated what) ?_
  simp only [toNumber_false]
  rfl

theorem readSleb_reads (off:ℕ) (what:String) : Reads true 32 5
      (fun shift b=>decide (shift=28 ∧ b &&& 0x80=0 ∧ b &&& 0x70≠0 ∧ b &&& 0x70≠0x70))
      (dexByte d limit what) off (readSleb d limit off what).toOption:=
  reads_of_eq _ _ (map_toOption _ _)

theorem dwarfUleb_reads :
    Reads false 64 10 (fun shift b=>decide (64 ≤ shift ∧ b≠0)) (viewByte v stop) o
      (natResult (dwarfUleb v o stop)):=by
  refine reads_of_eq (fun _=>()) (fun _=>()) ?_
  simp only [toNumber_false]
  rfl

theorem dwarfSleb_reads :
    Reads true 64 10 (fun _ _=>false) (viewByte v stop) o (dwarfSleb v o stop):=
  reads_of_eq _ _ (map_toOption _ _)

theorem ehUleb_reads (off stop:ℕ) : Reads false 70 10 (ehRefused false) (viewByte d stop) off
      (natResult (Elf.ehUleb d off stop)):=by
  refine reads_of_eq (fun _=>()) (fun _=>()) ?_
  rw [Elf.ehUleb,ehUlebFrom_eq d stop Nat.one_pos (by decide)]
  simp only [toNumber_false]
  rfl

theorem ehSleb_reads (off stop:ℕ) :
    Reads true 64 10 (ehRefused true) (viewByte d stop) off (Elf.ehSleb d off stop):=by
  refine reads_of_eq (fun _=>()) (fun _=>()) ?_
  rw [Elf.ehSleb,ehSlebFrom_eq d stop Nat.one_pos,map_toOption]

theorem lebFrom_reads (type:String) (last:ℕ) (spare:UInt8) (r:SpanReader.Reader) :
    Reads false (7*(last+1)) (last+1) (wasmRefused last spare) (wasmByte r) r.p
      (wasmResult (fun n:ℕ=>(n:ℤ)) (Wasm.lebFrom type last spare (last+1) 0 0) r):=by
  refine reads_of_eq (fun off=>⟨type++" LEB128 overflow",off + 1⟩)
    (fun off=>⟨type++" LEB128 too long",off⟩) ?_
  rw [wasmResult,lebFrom_eq type last spare Nat.one_pos (by omega),map_toOption,map_toOption,
    Option.map_map]
  simp only [toNumber_false]
  rfl

theorem s64_reads {bits:ℕ} (hbits:bits≤64) (r:SpanReader.Reader) :
    Reads true 64 ((bits+6)/7) (fun _ _=>false) (wasmByte r) r.p
      (wasmResult id (Wasm.s64 bits) r):=by
  refine reads_of_eq (fun off=>⟨"",off⟩) (fun off=>⟨"signed LEB128 too long",off⟩) ?_
  rw [wasmResult,Wasm.s64,s64From_eq Nat.one_pos (by omega),map_toOption,map_toOption,
    Option.map_map]
  rfl

/-!
## Which readers of LEB128 are exact

The unsigned readers but that of DWARF give the number that stands. The others keep of a number
what fits a word: they are exact where the last byte they take leaves the number in its width.
-/

theorem and_eq_zero_iff (b:UInt8) (k:ℕ) (hk:k<256) :
    b &&& .ofNat k=0 ↔ b.toNat &&& k=0:=by
  rw [← UInt8.toNat_inj,and_toNat b k hk]
  rfl

theorem and_eq_iff (b:UInt8) (k:ℕ) (hk:k<256) :
    b &&& .ofNat k = .ofNat k ↔ b.toNat &&& k = k:=by
  rw [← UInt8.toNat_inj,and_toNat b k hk,UInt8.toNat_ofNat',Nat.mod_eq_of_lt hk]

theorem and_f0 : ∀n<128,n &&& 0xf0=0 ↔ n<16:=by decide +kernel

theorem and_fe : ∀n<128,n &&& 0xfe=0 ↔ n<2:=by decide +kernel

theorem and_70 : ∀n<128,(n &&& 0x70=0 ↔ n<16) ∧ (n &&& 0x70=0x70 ↔ 112≤n):=by
  decide +kernel

theorem and_7e : ∀n<128,(n &&& 0x7e=0 ↔ n<2) ∧ (n &&& 0x7e=0x7e ↔ 126≤n):=by
  decide +kernel

theorem fits_top_false {b:UInt8} (r:ℕ) : Fits false r (top false b) ↔ b.toNat<2^r:=by
  unfold Fits top
  simp only [Bool.false_eq_true,if_false,false_and]
  constructor
  · rintro ⟨-,h⟩
    exact_mod_cast h
  · intro h
    exact ⟨Int.natCast_nonneg _,by exact_mod_cast h⟩

theorem fits_top_true {b:UInt8} {r:ℕ} (hr:r<7) (hb:b.toNat<128) :
    Fits true r (top true b) ↔ b.toNat<2^(r-1) ∨ 128-2^(r-1)≤b.toNat:=by
  have hpow : 2^(r-1)≤2^5:=Nat.pow_le_pow_right (by decide) (by omega)
  have hpos:=Nat.two_pow_pos (r-1)
  have hcast : ((2^(r-1) : ℕ) : ℤ)=2^(r-1):=by
    push_cast
    rfl
  unfold Fits top
  simp only [if_true,true_and]
  rw [← hcast]
  generalize 2 ^ (r-1) = p at *
  split <;> omega

/-- What a reader is said to do at a place: what it reads has a code, it is exact just where the
byte behind `m` others is good, and it takes the shortest code of each number of its width. -/
structure Settled {ε : Type} (sign : Bool) (bits : ℕ) (next : ℕ→Except ε UInt8) (off m : ℕ)
    (good : UInt8→Prop) (r : Option (ℤ×ℕ)) : Prop where
  code : ∀ z off', r=some (z,off') → ∃ e, Code e ∧ Stands next off e ∧ off'=off+e.length
  exact_iff : Exact sign bits next off r ↔ LastByte next off m good
  shortest : TakesShortest sign bits next off r

/-- Exact at every place. -/
structure Right {ε : Type} (sign : Bool) (bits : ℕ) (next : ℕ→Except ε UInt8) (off : ℕ)
    (r : Option (ℤ×ℕ)) : Prop where
  exact : Exact sign bits next off r
  shortest : TakesShortest sign bits next off r

variable {ε : Type} {sign : Bool} {bits word m off : ℕ} {refuse : ℕ→UInt8→Bool}
  {next : ℕ→Except ε UInt8} {r : Option (ℤ×ℕ)} {good : UInt8→Prop}

theorem settled_of_reads (h:Reads sign word (m+1) refuse next off r) (hm:7*m<bits)
    (hbits:bits≤7*(m+1)) (hword:bits≤word)
    (hrefuse:∀shift b,shift<7*m → refuse shift b=false)
    (hlenient:∀b : UInt8,b.toNat<128 → Fits sign (bits-7*m) (top sign b) → refuse (7*m) b=false)
    (hgood:∀b : UInt8,b.toNat<128 →
      ((refuse (7*m) b=false → Fits sign (bits-7*m) (top sign b)) ↔ good b)) :
    Settled sign bits next off m good r where
  code:=fun _ _ hr=>h.code hr
  exact_iff:=(h.exact_iff hm hword hrefuse).trans (lastByte_congr hgood)
  shortest:=h.takesShortest hm hbits hword hrefuse hlenient

theorem right_of_reads (h:Reads sign word (m+1) refuse next off r) (hm:7*m<bits)
    (hbits:bits≤7*(m+1)) (hword:bits≤word)
    (hrefuse:∀shift b,shift<7*m → refuse shift b=false)
    (htest:∀b : UInt8,b.toNat<128 → (refuse (7*m) b=false ↔ Fits sign (bits-7*m) (top sign b))) :
    Right sign bits next off r where
  exact:=(h.exact_iff hm hword hrefuse).mpr fun _ b _ hcode _=>(htest b hcode.last_lt).mp
  shortest:=h.takesShortest hm hbits hword hrefuse fun b hb=>(htest b hb).mpr

theorem decide_shift {shift m:ℕ} {p:Prop} [Decidable p] (h:shift < m) :
    decide (shift=m ∧ p)=false:=
  decide_eq_false fun hp=>absurd hp.1 (Nat.ne_of_lt h)

theorem decide_last {m:ℕ} {p:Prop} [Decidable p] : decide (m=m ∧ p)=false ↔ ¬p:=by
  rw [decide_eq_false_iff_not]
  exact not_congr (and_iff_right rfl)

theorem u32_right (r:SpanReader.Reader) :
    Right false 32 (wasmByte r) r.p (wasmResult (fun n:ℕ=>(n:ℤ)) Wasm.u32 r):=by
  refine right_of_reads (lebFrom_reads "u32" 4 0xf0 r) (by decide) (by decide) (by decide)
    (fun shift b h=>decide_shift h) fun b hb=>?_
  rw [wasmRefused,decide_last,not_not,fits_top_false]
  exact (and_eq_zero_iff b 0xf0 (by decide)).trans (and_f0 _ hb)

theorem u64_right (r:SpanReader.Reader) :
    Right false 64 (wasmByte r) r.p (wasmResult (fun n:ℕ=>(n:ℤ)) Wasm.u64 r):=by
  refine right_of_reads (lebFrom_reads "u64" 9 0xfe r) (by decide) (by decide) (by decide)
    (fun shift b h=>decide_shift h) fun b hb=>?_
  rw [wasmRefused,decide_last,not_not,fits_top_false]
  exact (and_eq_zero_iff b 0xfe (by decide)).trans (and_fe _ hb)

theorem readUleb_right (off:ℕ) (what:String) : Right false 32 (dexByte d limit what) off
      (natResult (readUleb d limit off what).toOption):=by
  refine right_of_reads (readUleb_reads d limit off what) (by decide) (by decide) (by decide)
    (fun shift b h=>decide_shift h) fun b hb=>?_
  rw [decide_last,not_not,fits_top_false]
  exact (and_eq_zero_iff b 0xf0 (by decide)).trans (and_f0 _ hb)

theorem ehUleb_right (off stop:ℕ) :
    Right false 64 (viewByte d stop) off (natResult (Elf.ehUleb d off stop)):=by
  refine right_of_reads (m:=9) (ehUleb_reads d off stop) (by decide) (by decide) (by decide)
    (fun shift b h=>decide_shift h) fun b hb=>?_
  have hfree : (false=true → b.toNat &&& 0x7e≠0x7e):=fun h=>by cases h
  rw [ehRefused,decide_last,and_iff_left hfree,not_not,fits_top_false]
  exact (and_7e _ hb).1

theorem s64_settled {bits m:ℕ} (hm:(bits+6)/7=m+1) (hlt:7*m<bits)
    (hbits:bits≤64) (hr:bits-7*m<7) (r:SpanReader.Reader) :
    Settled true bits (wasmByte r) r.p m
      (fun b=>b.toNat<2^(bits-7*m-1) ∨ 128-2^(bits-7*m-1)≤b.toNat)
      (wasmResult id (Wasm.s64 bits) r):=by
  have hreads:=s64_reads hbits r
  rw [hm] at hreads
  refine settled_of_reads hreads hlt (by omega) hbits (fun _ _ _=>rfl) (fun _ _ _=>rfl)
    fun b hb=>?_
  rw [← fits_top_true hr hb]
  exact ⟨fun h=>h rfl,fun h _=>h⟩

theorem readSleb_settled (off:ℕ) (what:String) : Settled true 32 (dexByte d limit what) off 4
      (fun b=>¬(8≤b.toNat ∧ b.toNat<16) ∧ ¬(112≤b.toNat ∧ b.toNat<120))
      (readSleb d limit off what).toOption:=by
  have hpass : ∀b : UInt8,b.toNat<128 →
      (decide (28=28 ∧ b &&& 0x80=0 ∧ b &&& 0x70≠0 ∧ b &&& 0x70≠0x70)=false ↔
        b.toNat<16 ∨ 112≤b.toNat):=by
    intro b hb
    have hzero:=(and_eq_zero_iff b 0x70 (by decide)).trans (and_70 _ hb).1
    have hones:=(and_eq_iff b 0x70 (by decide)).trans (and_70 _ hb).2
    rw [decide_last,ends,ne_eq,ne_eq]
    change ¬(b.toNat<128 ∧ ¬b &&& .ofNat 0x70=0 ∧ ¬b &&& .ofNat 0x70 = .ofNat 0x70) ↔ _
    rw [hzero,hones]
    omega
  refine settled_of_reads (m:=4) (readSleb_reads d limit off what) (by decide) (by decide)
    (by decide) (fun shift b h=>decide_shift h) (fun b hb hfits=>?_) fun b hb=>?_
  · rw [fits_top_true (by decide) hb] at hfits
    exact (hpass b hb).mpr (by omega)
  · rw [fits_top_true (by decide) hb]
    refine (imp_congr_left (hpass b hb)).trans ?_
    omega

theorem ehSleb_settled (off stop:ℕ) :
    Settled true 64 (viewByte d stop) off 9 (fun b=>b.toNat≠1 ∧ b.toNat≠126)
      (Elf.ehSleb d off stop):=by
  have hpass : ∀b : UInt8,b.toNat<128 →
      (ehRefused true 63 b=false ↔ b.toNat<2 ∨ 126≤b.toNat):=by
    intro b hb
    have hones : (true=true → b.toNat &&& 0x7e≠0x7e) ↔ ¬126≤b.toNat:=by
      rw [← (and_7e _ hb).2]
      exact ⟨fun h=>h rfl,fun h _=>h⟩
    rw [ehRefused,decide_last,ne_eq,(and_7e _ hb).1,hones]
    omega
  refine settled_of_reads (m:=9) (ehSleb_reads d off stop) (by decide) (by decide)
    (by decide) (fun shift b h=>decide_shift h) (fun b hb hfits=>?_) fun b hb=>?_
  · rw [fits_top_true (by decide) hb] at hfits
    exact (hpass b hb).mpr (by omega)
  · rw [fits_top_true (by decide) hb]
    refine (imp_congr_left (hpass b hb)).trans ?_
    omega

theorem dwarfUleb_settled : Settled false 64 (viewByte v stop) o 9 (fun b=>b.toNat<2)
      (natResult (dwarfUleb v o stop)):=by
  have hnone : ∀ {shift:ℕ} {b:UInt8},shift<64 → decide (64 ≤ shift ∧ b≠0)=false:=
    fun h=>decide_eq_false fun hp=>absurd hp.1 (Nat.not_le.mpr h)
  refine settled_of_reads (m:=9) (dwarfUleb_reads v o stop) (by decide) (by decide)
    (by decide) (fun shift b h=>hnone (by omega)) (fun b _ _=>hnone (by decide)) fun b _=>?_
  rw [fits_top_false]
  exact ⟨fun h=>h (hnone (by decide)),fun h _=>h⟩

theorem dwarfSleb_settled : Settled true 64 (viewByte v stop) o 9 (fun b=>b.toNat<1 ∨ 127≤b.toNat)
      (dwarfSleb v o stop):=by
  refine settled_of_reads (m:=9) (dwarfSleb_reads v o stop) (by decide) (by decide)
    (by decide) (fun _ _ _=>rfl) (fun _ _ _=>rfl) fun b hb=>?_
  rw [fits_top_true (by decide) hb]
  exact ⟨fun h=>h rfl,fun h _=>h⟩

/-- At every place of every input: four readers are exact, and the others where their last byte is
good; each takes the shortest codes of its width and fails where no code stands. -/
theorem readers_exact (d : Bytes) (off stop limit : ℕ) (what : String) :
    Right false 32 (wasmByte ⟨d,off,stop⟩) off
      (wasmResult (fun n : ℕ => (n : ℤ)) Wasm.u32 ⟨d,off,stop⟩) ∧
    Right false 64 (wasmByte ⟨d,off,stop⟩) off
      (wasmResult (fun n : ℕ => (n : ℤ)) Wasm.u64 ⟨d,off,stop⟩) ∧
    Right false 32 (dexByte d limit what) off (natResult (readUleb d limit off what).toOption) ∧
    Right false 64 (viewByte d stop) off (natResult (Elf.ehUleb d off stop)) ∧
    Settled true 32 (wasmByte ⟨d,off,stop⟩) off 4 (fun b => b.toNat<8 ∨ 120≤b.toNat)
      (wasmResult id (Wasm.s64 32) ⟨d,off,stop⟩) ∧
    Settled true 33 (wasmByte ⟨d,off,stop⟩) off 4 (fun b => b.toNat<16 ∨ 112≤b.toNat)
      (wasmResult id (Wasm.s64 33) ⟨d,off,stop⟩) ∧
    Settled true 64 (wasmByte ⟨d,off,stop⟩) off 9 (fun b => b.toNat<1 ∨ 127≤b.toNat)
      (wasmResult id (Wasm.s64 64) ⟨d,off,stop⟩) ∧
    Settled true 32 (dexByte d limit what) off 4
      (fun b => ¬(8≤b.toNat ∧ b.toNat<16) ∧ ¬(112≤b.toNat ∧ b.toNat<120))
      (readSleb d limit off what).toOption ∧
    Settled true 64 (viewByte d stop) off 9 (fun b => b.toNat≠1 ∧ b.toNat≠126)
      (Elf.ehSleb d off stop) ∧
    Settled false 64 (viewByte d stop) off 9 (fun b => b.toNat<2)
      (natResult (dwarfUleb d off stop)) ∧
    Settled true 64 (viewByte d stop) off 9 (fun b => b.toNat<1 ∨ 127≤b.toNat)
      (dwarfSleb d off stop) :=
  ⟨u32_right _,u64_right _,readUleb_right d limit off what,ehUleb_right d off stop,
    s64_settled rfl (by decide) (by decide) (by decide) _,
    s64_settled rfl (by decide) (by decide) (by decide) _,
    s64_settled rfl (by decide) (by decide) (by decide) _,readSleb_settled d limit off what,
    ehSleb_settled d off stop,dwarfUleb_settled d off stop,dwarfSleb_settled d off stop⟩

/-- The code of `2 ^ 31` is read as a negative number. -/
theorem sleb_wraps : readSleb [0x80,0x80,0x80,0x80,0x08] 0 0 "" = .ok (-2^31,5) ∧
      ¬Exact true 32 (dexByte [0x80,0x80,0x80,0x80,0x08] 0 "") 0
        (readSleb [0x80,0x80,0x80,0x80,0x08] 0 0 "").toOption:=by
  refine ⟨by decide,?_⟩
  intro hexact
  obtain ⟨e,hcode,hstands,-,hnumber,-⟩:=hexact (-2^31) 5 (by decide)
  have hbig : Code [0x80,0x80,0x80,0x80,0x08]:=
    .more (by decide) (.more (by decide) (.more (by decide) (.more (by decide)
      (.last (by decide)))))
  have hplace : Stands (dexByte [0x80,0x80,0x80,0x80,0x08] 0 "") 0
      [0x80,0x80,0x80,0x80,0x08]:=⟨rfl,rfl,rfl,rfl,rfl,trivial⟩
  rw [stands_inj hcode hbig hstands hplace] at hnumber
  exact absurd hnumber (by decide)

end AutoRefirst.LebReaders
