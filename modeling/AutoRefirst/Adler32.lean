import AutoRefirst.ByteText
import Mathlib.Algebra.BigOperators.Group.List.Basic
import Mathlib.Data.Nat.ModEq
import Mathlib.Tactic.Linarith

/-!
# Adler-32

The checksum of a byte string is a pair of sums modulo 65521. Two copies of the program reduce the
sums once a block, and one reduces them at each byte.
-/

namespace AutoRefirst.Adler32
open List Option

def modulus : ℕ := 65521

def total (d : Bytes) : ℕ := (d.map UInt8.toNat).sum

def low (d : Bytes) : ℕ := 1 + total d

def high (d : Bytes) : ℕ := ((List.range d.length).map fun i => low (d.take (i+1))).sum

def adler (d : Bytes) : ℕ := high d % modulus * 2^16 + low d % modulus

theorem low_snoc (d:Bytes) (x:UInt8) : low (d++[x]) = low d + x.toNat:=by
  unfold low total
  rw [map_append,sum_append,map_singleton,sum_singleton,Nat.add_assoc]

theorem high_snoc (d:Bytes) (x:UInt8) : high (d++[x]) = high d + low (d++[x]):=by
  have hbefore : ((List.range d.length).map fun i=>low ((d++[x]).take (i+1))) =
      (List.range d.length).map fun i=>low (d.take (i+1)):=by
    apply map_congr_left
    intro i hi
    rw [take_append_of_le_length (Nat.succ_le_of_lt (mem_range.mp hi))]
  have hall : (d++[x]).take (d.length+1) = d++[x]:=
    take_of_length_le (by rw [length_append,length_singleton])
  unfold high
  rw [length_append,length_singleton,range_succ,map_append,sum_append,
    hbefore,map_singleton,sum_singleton,hall]

/-- An addition of 32-bit numbers. -/
abbrev Add32 := ℕ → ℕ → Option ℕ

def wrapping : Add32 := fun x y => some ((x+y) % 2^32)

/-- An addition that has no result where the machine's would wrap. -/
def checked : Add32 := fun x y => if x+y < 2^32 then some (x+y) else none

def addByte (add : Add32) (s : ℕ×ℕ) (x : UInt8) : Option (ℕ×ℕ) := do
  let a ← add s.1 x.toNat
  let b ← add s.2 a
  return (a,b)

def pack (s : ℕ×ℕ) : ℕ := s.2 <<< 16 % 2^32 ||| s.1

/-- The bytes between two reductions. -/
def blockSize : ℕ := 5552

def repairBlocks (add : Add32) (d : Bytes) (i : ℕ) (s : ℕ×ℕ) : Option (ℕ×ℕ) :=
  if i < d.length then
    let n := min blockSize (d.length-i)
    (((d.drop i).take n).foldlM (addByte add) s).bind fun s =>
      repairBlocks add d (i+n) (s.1 % modulus,s.2 % modulus)
  else some s
termination_by d.length - i
decreasing_by
  unfold blockSize
  omega

def repairAdler32 (add : Add32) (d : Bytes) : Option ℕ :=
  (repairBlocks add d 0 (1,0)).map pack

/-- `adler32` of the DEX parser: each turn takes a block off the data. -/
def androidBlocks (add : Add32) (data : Bytes) (s : ℕ×ℕ) : Option (ℕ×ℕ) :=
  if data = [] then some s
  else
    let n := min data.length blockSize
    ((data.take n).foldlM (addByte add) s).bind fun s =>
      androidBlocks add (data.drop n) (s.1 % modulus,s.2 % modulus)
termination_by data.length
decreasing_by
  have hlen := length_pos_iff.mpr ‹_›
  rw [length_drop]
  unfold blockSize
  omega

def androidAdler32 (add : Add32) (data : Bytes) : Option ℕ :=
  (androidBlocks add data (1,0)).map pack

/-- `adler32` of the AutoIt records. The second sum is below twice the modulus. -/
def autoitByte (add : Add32) (s : ℕ×ℕ) (x : UInt8) : Option (ℕ×ℕ) := do
  let a ← add s.1 x.toNat
  let a := if a ≥ modulus then a-modulus else a
  let b ← add s.2 a
  let b := if b ≥ modulus then b % modulus else b
  return (a,b)

def autoitAdler32 (add : Add32) (d : Bytes) : Option ℕ :=
  (d.foldlM (autoitByte add) (1,0)).map pack

/-- The addition is the sum, where that fits in 32 bits. -/
def Exact (add : Add32) : Prop := ∀ x y, x+y<2^32 → add x y = some (x+y)

theorem wrapping_exact : Exact wrapping:=fun x y h=>by
  unfold wrapping
  rw [Nat.mod_eq_of_lt h]

theorem checked_exact : Exact checked:=fun _ _ h=>if_pos h

/-- The pair is the one of `d`, up to the modulus. -/
structure Sums (d : Bytes) (s : ℕ×ℕ) : Prop where
  low : s.1 ≡ low d [MOD modulus]
  high : s.2 ≡ high d [MOD modulus]

structure Reduced (d : Bytes) (s : ℕ×ℕ) : Prop extends Sums d s where
  low_lt : s.1 < modulus
  high_lt : s.2 < modulus

theorem reduced_nil : Reduced [] (1,0) where
  low:=Nat.ModEq.refl _
  high:=Nat.ModEq.refl _
  low_lt:=by decide
  high_lt:=by decide

variable {d : Bytes} {s : ℕ×ℕ}

theorem Sums.reduce (h:Sums d s) : Reduced d (s.1 % modulus,s.2 % modulus) where
  low:=(Nat.mod_modEq _ _).trans h.low
  high:=(Nat.mod_modEq _ _).trans h.high
  low_lt:=Nat.mod_lt _ (by decide)
  high_lt:=Nat.mod_lt _ (by decide)

theorem Sums.snoc (h:Sums d s) (x:UInt8) : Sums (d++[x]) (s.1+x.toNat,s.2+(s.1+x.toNat)):=by
  have hlow : s.1 + x.toNat ≡ Adler32.low (d++[x]) [MOD modulus]:=by
    rw [low_snoc]
    exact h.low.add_right _
  refine ⟨hlow,?_⟩
  rw [high_snoc]
  exact h.high.add hlow

theorem Reduced.pack (h:Reduced d s) : pack s=adler d:=by
  have hlow : s.1 = Adler32.low d % modulus:=by
    rw [← Nat.mod_eq_of_lt h.low_lt]
    exact h.low
  have hhigh : s.2 = Adler32.high d % modulus:=by
    rw [← Nat.mod_eq_of_lt h.high_lt]
    exact h.high
  have hlt:=h.low_lt
  have hlt':=h.high_lt
  unfold modulus at hlt hlt'
  unfold Adler32.pack adler
  rw [← hlow,← hhigh,Nat.shiftLeft_eq,Nat.mod_eq_of_lt (by omega),← Nat.shiftLeft_eq,
    ← Nat.shiftLeft_add_eq_or_of_lt (by omega:s.1<2^16)]

/-- How far the sums can get in `n` bytes from reduced ones. -/
structure Within (n : ℕ) (s : ℕ×ℕ) : Prop where
  low : s.1≤65520+255*n
  high : 2*s.2≤2*65520*(n+1)+255*(n*(n+1))

variable {n : ℕ}

theorem Within.step (h:Within n s) (x:UInt8) :
    Within (n+1) (s.1+x.toNat,s.2+(s.1+x.toNat)):=by
  have hlow:=h.low
  have hhigh:=h.high
  have hx:=x.toNat_lt
  refine ⟨by dsimp only;omega,?_⟩
  dsimp only
  nlinarith only [hlow,hhigh,hx]

/-- The largest sums of a block fit in 32 bits. -/
theorem Within.fits (h:Within n s) (hn:n≤blockSize) : s.1<2^32 ∧ s.2<2^32:=by
  have hlow:=h.low
  have hhigh:=h.high
  have hsquare : n*(n+1)≤5552*5553:=Nat.mul_le_mul hn (Nat.succ_le_succ hn)
  unfold blockSize at hn
  constructor <;> omega

variable {add : Add32}

theorem addByte_exact (hadd:Exact add) {x:UInt8} (hlow:s.1+x.toNat<2^32)
    (hhigh:s.2+(s.1+x.toNat)<2^32) :
    addByte add s x=some (s.1+x.toNat,s.2+(s.1+x.toNat)):=by
  unfold addByte
  rw [hadd _ _ hlow,bind_eq_bind,bind_some,hadd _ _ hhigh]
  rfl

variable {p : Bytes}

theorem block_sums (hadd:Exact add) {q:Bytes} (hs:Sums p s) (hwithin:Within n s)
    (hq:n+q.length≤blockSize) :
    ∃t,q.foldlM (addByte add) s=some t ∧ Sums (p++q) t:=by
  induction q generalizing p s n with
  | nil=>exact ⟨s,rfl,by rwa [append_nil]⟩
  | cons x q ih=>
    rw [length_cons] at hq
    have hnext:=hwithin.step x
    obtain ⟨hlow,hhigh⟩:=hnext.fits (by omega)
    obtain ⟨t,ht,hsums⟩:=ih (hs.snoc x) hnext (by omega)
    refine ⟨t,?_,by rwa [append_assoc] at hsums⟩
    rw [foldlM_cons,addByte_exact hadd hlow hhigh]
    exact ht

theorem Reduced.block (hadd:Exact add) {q:Bytes} (hs:Reduced p s) (hq:q.length≤blockSize) :
    ∃t,q.foldlM (addByte add) s=some t ∧ Reduced (p++q) (t.1 % modulus,t.2 % modulus):=by
  have hlow:=hs.low_lt
  have hhigh:=hs.high_lt
  unfold modulus at hlow hhigh
  have hwithin : Within 0 s:=⟨by omega,by omega⟩
  obtain ⟨t,ht,hsums⟩:=block_sums hadd (q:=q) hs.toSums hwithin (by omega)
  exact ⟨t,ht,hsums.reduce⟩

theorem repairBlocks_reduced (hadd:Exact add) {i:ℕ} (hi:i≤d.length)
    (hs:Reduced (d.take i) s) :
    ∃t,repairBlocks add d i s=some t ∧ Reduced d t:=by
  induction i, s using repairBlocks.induct d with
  | case1 i s hlt n ih=>
    have hn : n=min blockSize (d.length-i):=rfl
    obtain ⟨t,ht,hblock⟩:=hs.block hadd (q:=(d.drop i).take n) (by
      rw [length_take]
      omega)
    rw [← take_add] at hblock
    obtain ⟨u,hu,hreduced⟩:=ih t (by omega) hblock
    refine ⟨u,?_,hreduced⟩
    unfold repairBlocks
    rw [if_pos hlt]
    change (((d.drop i).take n).foldlM (addByte add) s).bind _=some u
    rw [ht]
    exact hu
  | case2 i s hlt=>
    have hwhole : d.take i=d:=take_of_length_le (by omega)
    refine ⟨s,?_,hwhole▸hs⟩
    unfold repairBlocks
    rw [if_neg hlt]

theorem androidBlocks_reduced (hadd:Exact add) (data:Bytes) (hs:Reduced p s) :
    ∃t,androidBlocks add data s=some t ∧ Reduced (p++data) t:=by
  induction data, s using androidBlocks.induct generalizing p with
  | case1 s=>
    refine ⟨s,?_,by rwa [append_nil]⟩
    unfold androidBlocks
    rw [if_pos rfl]
  | case2 data s hne n=>
    rename_i ih
    obtain ⟨t,ht,hblock⟩:=hs.block hadd (q:=data.take n) (by
      rw [length_take]
      omega)
    obtain ⟨u,hu,hreduced⟩:=ih t hblock
    rw [append_assoc,take_append_drop] at hreduced
    refine ⟨u,?_,hreduced⟩
    unfold androidBlocks
    rw [if_neg hne]
    change ((data.take n).foldlM (addByte add) s).bind _=some u
    rw [ht]
    exact hu

theorem autoitByte_reduced (hadd:Exact add) (hs:Reduced p s) (x:UInt8) :
    ∃t,autoitByte add s x=some t ∧ Reduced (p++[x]) t:=by
  have hlow:=hs.low_lt
  have hhigh:=hs.high_lt
  have hx:=x.toNat_lt
  have hnext:=(hs.toSums.snoc x).low
  unfold modulus at hlow hhigh
  obtain ⟨a,ha,halt,hamod⟩ : ∃a,(if s.1+x.toNat ≥ modulus then s.1+x.toNat-modulus
      else s.1+x.toNat)=a ∧ a < modulus ∧ a ≡ low (p++[x]) [MOD modulus]:=by
    refine ⟨_,rfl,?_,?_⟩
    · unfold modulus
      split_ifs <;> omega
    · split_ifs with hge
      · refine Nat.ModEq.trans ?_ hnext
        exact (Nat.modEq_iff_dvd' (Nat.sub_le _ _)).mpr ⟨1,by omega⟩
      · exact hnext
  have hsum : s.2 + a ≡ high (p++[x]) [MOD modulus]:=by
    rw [high_snoc]
    exact hs.high.add hamod
  have hreduce : (if s.2+a ≥ modulus then (s.2+a) % modulus else s.2+a) =
      (s.2+a) % modulus:=by
    split_ifs with hge
    · rfl
    · exact (Nat.mod_eq_of_lt (by omega)).symm
  refine ⟨(a,(s.2+a) % modulus),?_,⟨hamod,(Nat.mod_modEq _ _).trans hsum⟩,halt,
    Nat.mod_lt _ (by decide)⟩
  unfold modulus at halt
  unfold autoitByte
  rw [hadd _ _ (by omega),bind_eq_bind,bind_some]
  dsimp only
  rw [ha,hadd _ _ (by omega),bind_some,hreduce]
  rfl

theorem autoit_reduced (hadd:Exact add) (hs:Reduced p s) :
    ∃t,d.foldlM (autoitByte add) s=some t ∧ Reduced (p++d) t:=by
  induction d generalizing p s with
  | nil=>exact ⟨s,rfl,by rwa [append_nil]⟩
  | cons x d ih=>
    obtain ⟨t,ht,hnext⟩:=autoitByte_reduced hadd hs x
    obtain ⟨u,hu,hreduced⟩:=ih hnext
    refine ⟨u,?_,by rwa [append_assoc] at hreduced⟩
    rw [foldlM_cons,ht]
    exact hu

theorem repairAdler32_eq (hadd:Exact add) (d:Bytes) : repairAdler32 add d=some (adler d):=by
  obtain ⟨t,ht,hreduced⟩:=repairBlocks_reduced hadd (Nat.zero_le d.length) reduced_nil
  unfold repairAdler32
  rw [ht,map_some,hreduced.pack]

theorem androidAdler32_eq (hadd:Exact add) (d:Bytes) : androidAdler32 add d=some (adler d):=by
  obtain ⟨t,ht,hreduced⟩:=androidBlocks_reduced hadd d reduced_nil
  unfold androidAdler32
  rw [ht,map_some,hreduced.pack]
  rfl

theorem autoitAdler32_eq (hadd:Exact add) (d:Bytes) : autoitAdler32 add d=some (adler d):=by
  obtain ⟨t,ht,hreduced⟩:=autoit_reduced hadd (d:=d) reduced_nil
  unfold autoitAdler32
  rw [ht,map_some,hreduced.pack]
  rfl

/-- The three copies compute the checksum, and no addition of the two that work in blocks wraps. -/
theorem copies_agree (d : Bytes) :
    repairAdler32 wrapping d=some (adler d) ∧ androidAdler32 wrapping d=some (adler d) ∧
      autoitAdler32 wrapping d=some (adler d) ∧ repairAdler32 checked d=some (adler d) ∧
      androidAdler32 checked d=some (adler d) :=
  ⟨repairAdler32_eq wrapping_exact d,androidAdler32_eq wrapping_exact d,
    autoitAdler32_eq wrapping_exact d,repairAdler32_eq checked_exact d,
    androidAdler32_eq checked_exact d⟩

example : adler (bytes "abc")=0x024d0127:=by decide

end AutoRefirst.Adler32
