import AutoRefirst.ElfUnwind
import Mathlib.Tactic.LinearCombination
import Mathlib.Tactic.NormNum
import Mathlib.Tactic.Positivity
import Mathlib.Tactic.Ring

/-!
# What the encoded pointers of the unwind plane mean

The value that an encoding defines, in whole numbers, against the value that was decoded.
-/

namespace AutoRefirst.Elf
open List Option

def uleb : Bytes → ℕ
  | [] => 0
  | b::rest => b.toNat % 128 + 128 * uleb rest

/-- The last byte carries the sign. -/
def sleb : Bytes → ℤ
  | [] => 0
  | [b] => if 64 ≤ b.toNat % 128 then (b.toNat % 128 : ℤ)-128 else b.toNat % 128
  | b :: c::rest => b.toNat % 128 + 128*sleb (c::rest)

def bytesBetween (d : Bytes) (off next : ℕ) : Bytes :=
  (List.range' off (next-off)).map (byteAt d)

def ehNumberOf (le : Bool) (fmt : ℕ) (b : Bytes) : ℤ :=
  match fmt with
  | 0x01 => uleb b
  | 0x09 => sleb b
  | 0x0a => signed 16 (number le b)
  | 0x0b => signed 32 (number le b)
  | 0x0c => signed 64 (number le b)
  | _ => number le b

variable {d : Bytes} {off next : ℕ}

theorem bytesBetween_step (h:off<next) :
    bytesBetween d off next=byteAt d off::bytesBetween d (off+1) next:=by
  have hlen : next-off=next-(off+1)+1:=by omega
  rw [bytesBetween,hlen,range'_succ,map_cons]
  rfl

theorem bytesBetween_self (d:Bytes) (off:ℕ) : bytesBetween d off off=[]:=by
  simp [bytesBetween]

variable {stop n shift : ℕ}

theorem ehUlebFrom_spec {v r:ℕ} (h:ehUlebFrom d stop n off shift v=some (r,next)) :
    off<next ∧ r=v+uleb (bytesBetween d off next) * 2^shift:=by
  induction n generalizing off shift v with
  | zero=>simp [ehUlebFrom] at h
  | succ n ih=>
    rw [ehUlebFrom] at h
    split at h
    · dsimp only at h
      split at h
      · cases h
      · split at h
        · obtain ⟨rfl,rfl⟩ : v + (byteAt d off).toNat % 128 * 2^shift = r ∧ off+1=next:=by
            simpa using h
          refine ⟨Nat.lt_succ_self _,?_⟩
          rw [bytesBetween_step (Nat.lt_succ_self _),bytesBetween_self,uleb,uleb]
          ring
        · obtain ⟨hlt,hr⟩:=ih h
          refine ⟨by omega,?_⟩
          rw [hr,bytesBetween_step (by omega:off<next),uleb,pow_add]
          ring
    · cases h

theorem signed_dvd (n:ℕ) : ∃k : ℤ,signed 64 n = n+2^64*k:=by
  unfold signed
  split
  · exact ⟨0,by ring⟩
  · exact ⟨-1,by ring⟩

theorem mod_dvd (a:ℕ) : ∃k : ℤ,((a % 2^64 : ℕ) : ℤ)=a+2^64*k:=by
  refine ⟨-((a/2^64 : ℕ) : ℤ),?_⟩
  omega

theorem signed_range (h:n<2^64) : -(2 : ℤ) ^ 63 ≤ signed 64 n ∧ signed 64 n < (2 : ℤ)^63:=by
  unfold signed
  split <;> omega

theorem sleb_last {raw b:ℕ} : (2 : ℤ) ^ 64 ∣ signed 64 (if 64 ≤ b ∧ shift+7<64 then
        ((raw+b*2^shift) % 2^64 + (2^64-2^(shift+7))) % 2^64
      else (raw+b*2^shift) % 2^64) -
      (raw+(if 64 ≤ b then (b:ℤ)-128 else b)*2^shift):=by
  obtain ⟨k,hk⟩:=mod_dvd (raw+b*2^shift)
  generalize (raw+b*2^shift) % 2^64 = low at hk ⊢
  push_cast at hk
  split
  · rename_i hsign
    have hle : 2^(shift+7)≤2^64:=Nat.pow_le_pow_right (by decide) (by omega)
    obtain ⟨k',hk'⟩:=mod_dvd (low+(2^64-2^(shift+7)))
    generalize (low+(2^64-2^(shift+7))) % 2^64 = high at hk' ⊢
    obtain ⟨k'',hk''⟩:=signed_dvd high
    rw [Nat.cast_add,Nat.cast_sub hle] at hk'
    push_cast at hk'
    rw [pow_add] at hk'
    rw [if_pos hsign.1]
    exact ⟨k+k'+k''+1,by linear_combination hk + hk' + hk''⟩
  · rename_i hsign
    obtain ⟨k'',hk''⟩:=signed_dvd low
    split
    · -- The sign would stand above the 64 bits.
      obtain ⟨m,hm⟩ : ∃m,shift+7=64+m:=⟨shift+7-64,by omega⟩
      have hpow : (2 : ℤ)^shift*128=2^64*2^m:=by
        rw [← pow_add,← hm,pow_add]
        norm_num
      exact ⟨k+k''+2^m,by linear_combination hk + hk'' + hpow⟩
    · exact ⟨k+k'',by linear_combination hk + hk''⟩

/-- The number read is the number meant, up to what 64 bits do not hold. -/
theorem ehSlebFrom_spec {raw:ℕ} {r:ℤ} (h:ehSlebFrom d stop n off shift raw=some (r,next)) :
    off<next ∧ (-(2 : ℤ)^63 ≤ r ∧ r<(2 : ℤ)^63) ∧
      (2 : ℤ) ^ 64 ∣ r-(raw+sleb (bytesBetween d off next) * 2^shift):=by
  induction n generalizing off shift raw with
  | zero=>simp [ehSlebFrom] at h
  | succ n ih=>
    rw [ehSlebFrom] at h
    split at h
    · dsimp only at h
      split at h
      · cases h
      · split at h
        · rename_i hlast
          have hmod : (byteAt d off).toNat % 128 = (byteAt d off).toNat:=Nat.mod_eq_of_lt hlast
          have hsleb : sleb (bytesBetween d off (off+1)) =
              if 64 ≤ (byteAt d off).toNat then ((byteAt d off).toNat : ℤ)-128
              else (byteAt d off).toNat:=by
            rw [bytesBetween_step (Nat.lt_succ_self _),bytesBetween_self,sleb,hmod]
            have hcast : ((byteAt d off).toNat : ℤ) % 128 = (byteAt d off).toNat:=by omega
            rw [hcast]
          obtain ⟨hr,rfl⟩:=Prod.mk.inj (some.inj h)
          rw [hmod] at hr
          subst hr
          refine ⟨Nat.lt_succ_self _,signed_range ?_,?_⟩
          · split <;> exact Nat.mod_lt _ (by decide)
          · rw [hsleb]
            exact sleb_last
        · obtain ⟨hlt,hrange,k',hk'⟩:=ih h
          refine ⟨by omega,hrange,?_⟩
          have hsleb : sleb (bytesBetween d off next) = ((byteAt d off).toNat % 128 : ℕ) +
              128 * sleb (bytesBetween d (off+1) next):=by
            rw [bytesBetween_step (by omega:off<next),
              bytesBetween_step (by omega:off+1<next)]
            rfl
          rw [hsleb]
          obtain ⟨k,hk⟩:=mod_dvd (raw + (byteAt d off).toNat % 128 * 2^shift)
          generalize (raw + (byteAt d off).toNat % 128 * 2^shift) % 2^64 = low at hk hk'
          generalize (byteAt d off).toNat % 128 = digit at hk ⊢
          push_cast at hk
          rw [pow_add] at hk'
          exact ⟨k+k',by linear_combination hk + hk'⟩
    · cases h

variable {le : Bool}

theorem numberAt_eq {w:ℕ} (h:off+w≤d.length) :
    numberAt d le off w=number le (bytesBetween d off (off+w)):=by
  rw [numberAt,bytesBetween,Nat.add_sub_cancel_left]
  congr 1
  apply ext_getElem
  · rw [length_take,length_drop,length_map,length_range']
    omega
  · intro i hi hi'
    have hlt : off+i<d.length:=by
      rw [length_take,length_drop] at hi
      omega
    simp [byteAt,hlt]

theorem number_lt (le:Bool) (b:Bytes) : number le b<256^b.length:=by
  unfold number
  split
  · exact littleEndian_lt b
  · exact (littleEndian_lt b.reverse).trans_eq (by rw [length_reverse])

/-- A format other than sleb128 is read as it is meant; of sleb128, what 64 bits hold. -/
theorem ehNumber_spec {fmt:ℕ} {n:ℤ} (h:ehNumber d le fmt off stop=.ok (n,next)) :
    (fmt≠9 → n=ehNumberOf le fmt (bytesBetween d off next)) ∧
      (fmt=9 → (-(2 : ℤ)^63≤n ∧ n<(2 : ℤ)^63) ∧
        (2 : ℤ) ^ 64 ∣ n - ehNumberOf le fmt (bytesBetween d off next)):=by
  have hfixed : ∀ {name:String} {w:ℕ} {f:ℕ→ℤ},
      ((ehFixed d le name off stop w).map fun r=>(f r.1,r.2)) = .ok (n,next) →
      n=f (number le (bytesBetween d off next)):=by
    intro name w f hw
    unfold ehFixed at hw
    split at hw
    · rename_i hfit
      obtain ⟨rfl,rfl⟩:=Prod.mk.inj (Except.ok.inj hw)
      rw [← numberAt_eq hfit.2]
    · cases hw
  unfold ehNumber at h
  split at h
  · exact ⟨fun _=>hfixed h,fun h9=>absurd h9 (by decide)⟩
  · refine ⟨fun _=>?_,fun h9=>absurd h9 (by decide)⟩
    cases hu : ehUleb d off stop with
    | none=>simp [hu] at h
    | some r=>
      obtain ⟨rfl,rfl⟩ : (r.1 : ℤ)=n ∧ r.2=next:=by simpa [hu] using h
      obtain ⟨-,hr⟩:=ehUlebFrom_spec hu
      rw [hr]
      simp [ehNumberOf]
  · exact ⟨fun _=>hfixed h,fun h9=>absurd h9 (by decide)⟩
  · exact ⟨fun _=>hfixed h,fun h9=>absurd h9 (by decide)⟩
  · exact ⟨fun _=>hfixed h,fun h9=>absurd h9 (by decide)⟩
  · refine ⟨fun h9=>absurd rfl h9,fun _=>?_⟩
    cases hs : ehSleb d off stop with
    | none=>simp [hs] at h
    | some r=>
      obtain rfl : r=(n,next):=by simpa [hs] using h
      obtain ⟨-,hrange,hdvd⟩:=ehSlebFrom_spec hs
      exact ⟨hrange,by simpa [ehNumberOf] using hdvd⟩
  · exact ⟨fun _=>hfixed h,fun h9=>absurd h9 (by decide)⟩
  · exact ⟨fun _=>hfixed h,fun h9=>absurd h9 (by decide)⟩
  · exact ⟨fun _=>hfixed h,fun h9=>absurd h9 (by decide)⟩
  · cases h

theorem ehUlebFrom_lt {v r:ℕ} (hshift:shift+7*n=70) (hv:v<2^shift)
    (h:ehUlebFrom d stop n off shift v=some (r,next)) : r<2^64:=by
  have hbits : ∀b : Fin 256,(b:ℕ) &&& 0x7e=0 → (b:ℕ) % 128≤1:=by decide +kernel
  induction n generalizing off shift v with
  | zero=>simp [ehUlebFrom] at h
  | succ n ih=>
    rw [ehUlebFrom] at h
    split at h
    · dsimp only at h
      split at h
      · cases h
      · rename_i hlast
        have hnext : v + (byteAt d off).toNat % 128 * 2^shift<2^(shift+7):=by
          have hdigit : (byteAt d off).toNat % 128≤127:=by omega
          have hmul:=Nat.mul_le_mul_right (2^shift) hdigit
          rw [pow_add]
          omega
        split at h
        · obtain ⟨rfl,-⟩ : v + (byteAt d off).toNat % 128 * 2^shift = r ∧ off+1=next:=by
            simpa using h
          by_cases htop : shift=63
          · have hone : (byteAt d off).toNat % 128≤1:=by
              apply hbits ⟨(byteAt d off).toNat,(byteAt d off).toNat_lt⟩
              by_contra hne
              exact hlast ⟨htop,hne⟩
            subst htop
            omega
          · exact Nat.lt_of_lt_of_le hnext (Nat.pow_le_pow_right (by decide) (by omega))
        · exact ih (by omega) hnext h
    · cases h

theorem ehNumber_lt {fmt:ℕ} {n:ℤ} (h:ehNumber d le fmt off stop=.ok (n,next)) : n<2^64:=by
  have hfixed : ∀ {name:String} {w:ℕ} {f:ℕ→ℤ},w≤8 →
      (∀m : ℕ,m<2^64 → f m<2^64) →
      ((ehFixed d le name off stop w).map fun r=>(f r.1,r.2)) = .ok (n,next) → n<2^64:=by
    intro name w f hw hf hread
    unfold ehFixed at hread
    split at hread
    · obtain ⟨rfl,-⟩:=Prod.mk.inj (Except.ok.inj hread)
      apply hf
      have hlt:=number_lt le ((d.drop off).take w)
      have hlen : ((d.drop off).take w).length≤8:=by
        rw [length_take]
        omega
      calc numberAt d le off w<256^((d.drop off).take w).length:=hlt
        _≤256^8:=Nat.pow_le_pow_right (by decide) hlen
        _=2^64:=by decide
    · cases hread
  have hplain : ∀m : ℕ,m<2^64 → (m:ℤ)<2^64:=by
    intro m hm
    exact_mod_cast hm
  have hsigned : ∀bits m : ℕ,m<2^64 → signed bits m<2^64:=by
    intro bits m hm
    have hpow : (0 : ℤ)≤2^bits:=by positivity
    have hm':=hplain m hm
    unfold signed
    split <;> omega
  unfold ehNumber at h
  split at h
  · exact hfixed (by decide) hplain h
  · cases hu : ehUleb d off stop with
    | none=>simp [hu] at h
    | some r=>
      obtain ⟨rfl,-⟩ : (r.1 : ℤ)=n ∧ r.2=next:=by simpa [hu] using h
      exact hplain _ (ehUlebFrom_lt (by decide) (by decide) hu)
  · exact hfixed (by decide) hplain h
  · exact hfixed (by decide) hplain h
  · exact hfixed (by decide) hplain h
  · cases hs : ehSleb d off stop with
    | none=>simp [hs] at h
    | some r=>
      obtain rfl : r=(n,next):=by simpa [hs] using h
      obtain ⟨-,hrange,-⟩:=ehSlebFrom_spec hs
      omega
  · exact hfixed (by decide) (hsigned 16) h
  · exact hfixed (by decide) (hsigned 32) h
  · exact hfixed (by decide) (hsigned 64) h
  · cases h

/-- The address that the application counts from. -/
def EhField.baseVa (c : EhField) : ℕ :=
  if c.app = 0x10 then c.fieldVa.toNat
  else if c.app = 0x30 then (c.datarel.getD 0).toNat
  else if c.app = 0x40 then (c.funcrel.getD 0).toNat
  else 0

def Decoded.number (d : Bytes) (le : Bool) (c : Decoded) : ℤ :=
  ehNumberOf le c.field.fmt
    (bytesBetween d (c.field.off + ehPadding c.field.app c.field.fieldVa) c.next)

/-- The value that the encoding defines. -/
def Decoded.defined (d : Bytes) (le : Bool) (c : Decoded) : ℤ :=
  if c.number d le = 0 then 0 else c.field.baseVa + c.number d le

def Decoded.SlebFits (d : Bytes) (le : Bool) (c : Decoded) : Prop :=
  c.field.fmt = 9 → -(2 : ℤ)^63 ≤ c.number d le ∧ c.number d le < (2 : ℤ)^63

variable {base : UInt64}

theorem ehAddSigned_spec {v:UInt64} {n:ℤ} (h:ehAddSigned base n=some v) :
    (v.toNat : ℤ) = base.toNat+n:=by
  have hbase:=base.toNat_lt
  unfold ehAddSigned at h
  split at h
  · split at h
    · cases h
    · obtain rfl:=some.inj h
      rw [UInt64.toNat_ofNat',Nat.mod_eq_of_lt (by omega)]
      omega
  · split at h
    · cases h
    · obtain rfl:=some.inj h
      rw [UInt64.toNat_ofNat',Nat.mod_eq_of_lt (by omega)]
      omega

theorem ehBase_spec {c:EhField} (h:ehBase c.app c.fieldVa c.datarel c.funcrel=.ok base) :
    base.toNat=c.baseVa:=by
  unfold ehBase at h
  unfold EhField.baseVa
  split at h
  · cases h
  split at h
  · rename_i happ
    cases hd : c.datarel with
    | none=>simp [hd] at h
    | some b=>
      obtain rfl : b=base:=by simpa [hd] using h
      simp [happ]
  split at h
  · rename_i happ
    cases hf : c.funcrel with
    | none=>simp [hf] at h
    | some b=>
      obtain rfl : b=base:=by simpa [hf] using h
      simp [happ]
  split at h
  · rename_i happ
    obtain rfl:=Except.ok.inj h
    simp [happ]
  split at h
  · rename_i h30 h40 h10 _
    obtain rfl:=Except.ok.inj h
    simp [h10,h30,h40]
  · cases h

theorem ehApply_spec {c:EhField} {v:UInt64} {n:ℤ}
    (hbase:ehBase c.app c.fieldVa c.datarel c.funcrel=.ok base) (hn:n<2^64)
    (h:ehApply c.app base n=.ok v) :
    (v.toNat : ℤ) = if n=0 then 0 else c.baseVa+n:=by
  have hva:=ehBase_spec hbase
  unfold ehApply at h
  split at h
  · rename_i hzero
    obtain rfl:=Except.ok.inj h
    simp [hzero]
  rename_i hzero
  rw [if_neg hzero]
  split at h
  · rename_i happ
    have hnone : c.baseVa=0:=by
      unfold EhField.baseVa
      rcases happ with happ | happ <;> simp [happ]
    split at h
    · cases h
    · obtain rfl:=Except.ok.inj h
      rw [UInt64.toNat_ofNat',Nat.mod_eq_of_lt (by omega),hnone]
      omega
  · cases hadd : ehAddSigned base n with
    | none=>simp [hadd] at h
    | some w=>
      obtain rfl : w=v:=by simpa [hadd] using h
      rw [ehAddSigned_spec hadd,hva]

theorem decoded_exact_iff {c:Decoded} (h:ehReadEncoded d le c.field=.ok (c.value,c.next)) :
    (c.value.toNat : ℤ)=c.defined d le ↔ c.SlebFits d le:=by
  unfold ehReadEncoded at h
  split at h
  · cases h
  cases hbase : ehBase c.field.app c.field.fieldVa c.field.datarel c.field.funcrel with
  | error e=>simp [hbase] at h
  | ok base=>
    simp only [hbase] at h
    split at h
    · cases h
    split at h
    · cases h
    split at h
    · cases h
    cases hnum : ehNumber d le c.field.fmt
        (c.field.off + ehPadding c.field.app c.field.fieldVa) c.field.stop with
    | error e=>simp [hnum] at h
    | ok r=>
      obtain ⟨n,next⟩:=r
      simp only [hnum] at h
      cases happly : ehApply c.field.app base n with
      | error e=>simp [happly] at h
      | ok v=>
        obtain ⟨hv,hnext⟩ : v=c.value ∧ next=c.next:=by simpa [happly] using h
        subst hnext
        have hvalue:=ehApply_spec hbase (ehNumber_lt hnum) happly
        obtain ⟨hplain,hsleb⟩:=ehNumber_spec hnum
        have hb : c.field.baseVa<2^64:=ehBase_spec hbase▸base.toNat_lt
        rw [← hv,hvalue]
        unfold Decoded.defined Decoded.SlebFits
        change _ → n = c.number d le at hplain
        change _ → _ ∧ (2 : ℤ)^64 ∣ n - c.number d le at hsleb
        by_cases h9 : c.field.fmt=9
        · obtain ⟨hrange,k,hk⟩:=hsleb h9
          simp only [h9,true_imp_iff]
          constructor
          · intro heq
            split at heq <;> split at heq <;> omega
          · intro hfits
            have hkz : k=0:=by omega
            have hsame : n=c.number d le:=by omega
            rw [hsame]
        · simp [hplain h9,h9]

end AutoRefirst.Elf
