import AutoRefirst.UpxRepairChanges
import Mathlib.Algebra.BigOperators.Intervals

/-!
# The header after a repair

The checks of the packer's header are made on the input. The new name of the empty section
may lie inside the header, and then they need not hold for the repaired bytes.
-/

namespace AutoRefirst.Repair
open List Option

open BytePatches

def PackHeaderHolds (d : Bytes) (g : Handoff) : Prop :=
  ∃ h, packHeader d g.headerOff = some h ∧ h.magic=kUpxMagic ∧
    headerFieldsOk h g.packed d.length ∧ headerChecksumOk d h = true ∧
    payloadChecksumOk d h g.packed = true

def byteAt (d : Bytes) (i : ℕ) : ℕ := (d.getD i 0).toNat

def wordAt (d : Bytes) (o : ℕ) : ℕ :=
  byteAt d o + 256 * byteAt d (o+1) + 65536 * byteAt d (o+2) + 16777216 * byteAt d (o+3)

section
variable {d cand : Bytes}

theorem byteAt_lt (i:ℕ) : byteAt d i<256:=UInt8.toNat_lt _

theorem byteAt_congr {i:ℕ} (h:cand[i]? = d[i]?) : byteAt cand i=byteAt d i:=by
  rw [byteAt,byteAt,getD_eq_getElem?_getD,getD_eq_getElem?_getD,h]

theorem byteAt_of_getElem? {i:ℕ} {x:UInt8} (h:d[i]? = some x) : byteAt d i=x.toNat:=by
  rw [byteAt,getD_eq_getElem?_getD,h,getD_some]

theorem drop_eq_getD_cons {o:ℕ} (h:o<d.length) : d.drop o=d.getD o 0::d.drop (o+1):=by
  rw [drop_eq_getElem_cons h,getD_eq_getElem?_getD,getElem?_eq_getElem h, getD_some]

theorem rd_word {o:ℕ} (h:o+4≤d.length) : (rd 4 d o).getD 0=wordAt d o:=by
  rw [rd,if_neg (by omega),getD_some,drop_eq_getD_cons (by omega),
    drop_eq_getD_cons (by omega),drop_eq_getD_cons (by omega),drop_eq_getD_cons (by omega)]
  simp only [take_succ_cons,take_zero,littleEndian,wordAt,byteAt,Nat.add_assoc, Nat.reduceAdd]
  omega

theorem foldl_toNat (l:Bytes) (n:ℕ) :
    l.foldl (fun sum x=>sum+x.toNat) n=n+(l.map UInt8.toNat).sum:=by
  induction l generalizing n with
  | nil=>rfl
  | cons x l ih=>
    rw [foldl_cons,ih,map_cons,sum_cons,Nat.add_assoc]

theorem sum_take_drop (o n:ℕ) :
    (((d.drop o).take n).map UInt8.toNat).sum = ∑ i ∈ Finset.Ico o (o+n), byteAt d i:=by
  induction n with
  | zero=>simp
  | succ n ih=>
    rw [take_add_one,map_append,sum_append,ih,← Nat.add_assoc,
      Finset.sum_Ico_succ_top (by omega),getElem?_drop,byteAt,getD_eq_getElem?_getD]
    cases d[o+n]? <;> simp

theorem sum_window {f f':ℕ→ℕ} {a b s t:ℕ} (hs:a ≤ s) (hst:s≤t) (ht:t≤b)
    (h:∀i,a ≤ i → i<b → ¬(s ≤ i ∧ i<t) → f' i=f i) :
    ∑ i∈Finset.Ico a b, f' i + ∑ i ∈ Finset.Ico s t, f i =
      ∑ i∈Finset.Ico a b, f i + ∑ i ∈ Finset.Ico s t, f' i:=by
  have hsplit : ∀ φ : ℕ → ℕ,∑ i∈Finset.Ico a b, φ i =
      ∑ i∈Finset.Ico a s, φ i + ∑ i ∈ Finset.Ico s t, φ i + ∑ i ∈ Finset.Ico t b, φ i:=by
    intro φ
    rw [Finset.sum_Ico_consecutive φ hs hst,Finset.sum_Ico_consecutive φ (hs.trans hst) ht]
  have hleft : ∑ i∈Finset.Ico a s, f' i = ∑ i ∈ Finset.Ico a s, f i:=by
    apply Finset.sum_congr rfl
    intro i hi
    have hmem:=Finset.mem_Ico.mp hi
    exact h i hmem.1 (by omega) (by omega)
  have hright : ∑ i∈Finset.Ico t b, f' i = ∑ i ∈ Finset.Ico t b, f i:=by
    apply Finset.sum_congr rfl
    intro i hi
    have hmem:=Finset.mem_Ico.mp hi
    exact h i (by omega) (by omega) (by omega)
  rw [hsplit f',hsplit f,hleft,hright]
  omega

end

def headerSum (d : Bytes) (off : ℕ) : ℕ := ∑ i ∈ Finset.Ico (off+4) (off+31), byteAt d i

/-- The bounds of the fields, and the checksum. -/
structure HeaderBytes (d : Bytes) (off : ℕ) (packed : PeSection) : Prop where
  version : byteAt d (off+4) > 9 ∧ byteAt d (off+4) ≤ 32
  format : byteAt d (off+5) = kUpxFormatWin32Pe
  method : recognizedMethod (byteAt d (off+6)) = true
  level : byteAt d (off+7) ≥ 1 ∧ byteAt d (off+7) ≤ 10
  uLen : wordAt d (off+16) > 0 ∧ wordAt d (off+16) ≤ 512*1024*1024
  cLen : wordAt d (off+20) ≥ 2 ∧ wordAt d (off+20) ≤ packed.rawSize
  uFileSize : wordAt d (off+24) > 0 ∧ wordAt d (off+24) ≤ 512*1024*1024
  checksum : headerSum d off % 251 = byteAt d (off+31)

section
variable {d cand : Bytes} {pe : PeInfo} {g : Handoff} {h : PackHeader}
  {ranges : List RepairChangedRange}

theorem headerBytes_iff {off:ℕ} {packed:PeSection} (hrun:packHeader d off=some h)
    (hobserved:packed.rawOffset+packed.rawSize≤d.length) :
    headerFieldsOk h packed d.length ∧ headerChecksumOk d h=true ↔
      HeaderBytes d off packed:=by
  unfold packHeader at hrun
  split at hrun
  · cases hrun
  · rename_i hin
    cases hrun
    have hsize : off+32≤d.length:=Nat.le_of_not_lt hin
    have hwords : ∀k,k+4≤32 → (rd 4 d (off+k)).getD 0=wordAt d (off+k):=fun k hk=>rd_word (by omega)
    rw [headerFieldsOk,headerChecksumOk,beq_iff_eq,take_take,foldl_toNat,Nat.zero_add,
      sum_take_drop]
    simp only [hwords 16 (by omega),hwords 20 (by omega),hwords 24 (by omega)]
    constructor
    · rintro ⟨⟨h1,h2,h3,h4,h5,h6,h7,h8,h9,h10,h11,h12,-⟩,hsum⟩
      exact ⟨⟨h1,h2⟩,h3,h4,⟨h5,h6⟩,⟨h7,h9⟩,⟨h11,h12⟩,⟨h8,h10⟩,hsum⟩
    · rintro ⟨⟨h1,h2⟩,h3,h4,⟨h5,h6⟩,⟨h7,h9⟩,⟨h11,h12⟩,⟨h8,h10⟩,hsum⟩
      exact ⟨⟨h1,h2,h3,h4,h5,h6,h7,h8,h9,h10,h11,h12,by omega⟩,hsum⟩

theorem Accepted.input_bytes (ha:Accepted d pe ranges g h cand) :
    HeaderBytes d g.headerOff g.packed:=
  (headerBytes_iff ha.closed.header ha.closed.observed).mp ⟨ha.fields,ha.checksum⟩

/-- The magic and the packed data are checked again, the rest of the header is not. -/
theorem Accepted.holds_iff (ha:Accepted d pe ranges g h cand) :
    PackHeaderHolds cand g ↔ HeaderBytes cand g.headerOff g.packed:=by
  have hlen:=candidateBytes_length ha.candidate
  have hobserved:=ha.closed.observed
  have hc:=ha.canonical
  cases hch : packHeader cand g.headerOff with
  | none=>
    rw [Repair.canonical,hch] at hc
    cases hc
  | some ch=>
    rw [Repair.canonical,hch] at hc
    simp only [Bool.and_eq_true,beq_iff_eq] at hc
    rw [← headerBytes_iff hch (by omega)]
    constructor
    · rintro ⟨h',hrun,-,hfields,hsum,-⟩
      rw [hch,some.injEq] at hrun
      rw [hrun]
      exact ⟨hfields,hsum⟩
    · rintro ⟨hfields,hsum⟩
      exact ⟨ch,hch,hc.1.1,hfields,hsum,hc.2⟩

end

structure Renamed (d cand : Bytes) (off s : ℕ) : Prop where
  outside : ∀ i, off+4 ≤ i → ¬(s ≤ i ∧ i<s+3) → byteAt cand i = byteAt d i
  letters : byteAt cand s = 85 ∧ byteAt cand (s+1) = 80 ∧ byteAt cand (s+2) = 88
  old : ∀ i, s ≤ i → i<s+3 → 48 ≤ byteAt d i ∧ byteAt d i ≤ 122
  digit : byteAt d (s+3) = 48
  zeros : ∀ i, s+4 ≤ i → i<s+8 → byteAt d i = 0

section
variable {d cand : Bytes} {off s o : ℕ} {packed : PeSection}

theorem Renamed.letter (hr:Renamed d cand off s) {i:ℕ} (hlo:s ≤ i) (hhi:i<s+3) :
    80≤byteAt cand i:=by
  obtain ⟨h0,h1,h2⟩:=hr.letters
  have hcases : i=s ∨ i=s+1 ∨ i=s+2:=by omega
  rcases hcases with rfl | rfl | rfl <;> omega

/-- No letter can have been in a field with a small bound. -/
theorem Renamed.small (hr:Renamed d cand off s) {i:ℕ} (hi:off+4 ≤ i)
    (hsmall:byteAt d i<48) : byteAt cand i=byteAt d i:=by
  refine hr.outside i hi ?_
  rintro ⟨hlo,hhi⟩
  have hold:=(hr.old i hlo hhi).1
  omega

theorem Renamed.word_eq (hr:Renamed d cand off s) (ho:off+4≤o)
    (hapart:s+3≤o ∨ o+4 ≤ s) : wordAt cand o=wordAt d o:=by
  rw [wordAt,wordAt,hr.outside o ho (by omega),hr.outside (o+1) (by omega) (by omega),
    hr.outside (o+2) (by omega) (by omega),hr.outside (o+3) (by omega) (by omega)]

/-- A length that was in bounds stays so: a letter or the digit in its highest byte would have
been too much. -/
theorem Renamed.length_bounds (hr:Renamed d cand off s) (ho:off+4≤o)
    (hpos:wordAt d o>0) (hle:wordAt d o≤512*1024*1024) :
    wordAt cand o>0 ∧ wordAt cand o≤512*1024*1024:=by
  by_cases hapart : s+3≤o ∨ o+4 ≤ s
  · rw [hr.word_eq ho hapart]
    exact ⟨hpos,hle⟩
  · have hhigh : ¬(s≤o+3 ∧ o+3 ≤ s+3):=by
      rintro ⟨hlo,hhi⟩
      have hbig : 48≤byteAt d (o+3):=by
        rcases Nat.lt_or_ge (o+3) (s+3) with hlt | hge
        · exact (hr.old (o+3) hlo hlt).1
        · have heq : o+3=s+3:=by omega
          rw [heq,hr.digit]
      rw [wordAt] at hle
      omega
    have htop : byteAt cand (o+3)=0:=by
      rw [hr.outside (o+3) (by omega) (by omega)]
      exact hr.zeros (o+3) (by omega) (by omega)
    have hdigit : byteAt cand (s+3)=48:=by
      rw [hr.outside (s+3) (by omega) (by omega)]
      exact hr.digit
    have h0:=byteAt_lt (d:=cand) o
    have h1:=byteAt_lt (d:=cand) (o+1)
    have h2:=byteAt_lt (d:=cand) (o+2)
    have hcases : s+3=o ∨ s+3=o+1 ∨ s+3=o+2:=by omega
    rw [wordAt,htop]
    rcases hcases with heq | heq | heq <;> rw [heq] at hdigit <;> omega

theorem Renamed.two_le (hr:Renamed d cand off s) (ho:off+4≤o)
    (htwo:wordAt d o≥2) : wordAt cand o≥2:=by
  by_cases hapart : s+3≤o ∨ o+4 ≤ s
  · rw [hr.word_eq ho hapart]
    exact htwo
  · have hsome : ∃j,j<4 ∧ 80≤byteAt cand (o+j):=by
      rcases Nat.lt_or_ge s o with hlt | hge
      · exact ⟨0,by omega,hr.letter (by omega) (by omega)⟩
      · refine ⟨s-o,by omega,hr.letter (by omega) (by omega)⟩
    obtain ⟨j,hj,hbig⟩:=hsome
    have hcases : j=0 ∨ j=1 ∨ j=2 ∨ j=3:=by omega
    rw [wordAt]
    rcases hcases with rfl | rfl | rfl | rfl
    · rw [Nat.add_zero] at hbig
      omega
    · omega
    · omega
    · omega

/-- What the letters in the first `m` places do to the sum. -/
theorem Renamed.sum_eq (hr:Renamed d cand off s) {m:ℕ} (hs:off+4 ≤ s)
    (hin:s+m≤off+31) (hlast:s+m<off+31 → m=3) (hm:m≤3) :
    headerSum cand off + ∑ i ∈ Finset.Ico s (s+m), byteAt d i =
      headerSum d off + ∑ i ∈ Finset.Ico s (s+m), byteAt cand i:=by
  refine sum_window hs (by omega) hin ?_
  intro i hi hlt hnot
  refine hr.outside i hi ?_
  intro hmem
  omega

theorem sum_Ico_three (f:ℕ→ℕ) : ∑ i∈Finset.Ico s (s+3), f i = f s + f (s+1) + f (s+2):=by
  simp [Finset.sum_Ico_succ_top]

theorem sum_Ico_two (f:ℕ→ℕ) : ∑ i∈Finset.Ico s (s+2), f i = f s + f (s+1):=by
  simp [Finset.sum_Ico_succ_top]

theorem sum_Ico_one (f:ℕ→ℕ) : ∑ i∈Finset.Ico s (s+1), f i=f s:=by
  simp

/-- All three letters are summed. -/
theorem Renamed.checksum_inside (hr:Renamed d cand off s) (hs:off+4 ≤ s)
    (hle:s≤off+28) (hsum:headerSum d off % 251 = byteAt d (off+31)) :
    headerSum cand off % 251 = byteAt cand (off+31) ↔
      byteAt d s + byteAt d (s+1) + byteAt d (s+2)=253:=by
  have hwindow:=hr.sum_eq hs (m:=3) (by omega) (by omega) (by omega)
  rw [sum_Ico_three,sum_Ico_three] at hwindow
  rw [hr.outside (off+31) (by omega) (by omega)]
  obtain ⟨h0,h1,h2⟩:=hr.letters
  have hold0:=hr.old s (by omega) (by omega)
  have hold1:=hr.old (s+1) (by omega) (by omega)
  have hold2:=hr.old (s+2) (by omega) (by omega)
  omega

theorem Renamed.checksum_last (hr:Renamed d cand off s) (hs:s=off+29)
    (hsum:headerSum d off % 251 = byteAt d (off+31)) :
    headerSum cand off % 251 = byteAt cand (off+31) ↔
      byteAt d s + byteAt d (s+1) = byteAt d (s+2) + 77:=by
  have hwindow:=hr.sum_eq (m:=2) (by omega) (by omega) (by omega) (by omega)
  rw [sum_Ico_two,sum_Ico_two] at hwindow
  have hchecksum : off+31=s+2:=by omega
  rw [hchecksum] at hsum ⊢
  obtain ⟨h0,h1,h2⟩:=hr.letters
  have hold0:=hr.old s (by omega) (by omega)
  have hold1:=hr.old (s+1) (by omega) (by omega)
  have hold2:=hr.old (s+2) (by omega) (by omega)
  omega

theorem Renamed.checksum_middle (hr:Renamed d cand off s) (hs:s=off+30)
    (hsum:headerSum d off % 251 = byteAt d (off+31)) :
    headerSum cand off % 251 = byteAt cand (off+31) ↔ byteAt d s = byteAt d (s+1) + 5:=by
  have hwindow:=hr.sum_eq (m:=1) (by omega) (by omega) (by omega) (by omega)
  rw [sum_Ico_one,sum_Ico_one] at hwindow
  have hchecksum : off+31=s+1:=by omega
  rw [hchecksum] at hsum ⊢
  obtain ⟨h0,h1,h2⟩:=hr.letters
  have hold0:=hr.old s (by omega) (by omega)
  have hold1:=hr.old (s+1) (by omega) (by omega)
  omega

theorem Renamed.checksum_first (hr:Renamed d cand off s) (hs:s=off+31)
    (hsum:headerSum d off % 251 = byteAt d (off+31)) :
    headerSum cand off % 251 = byteAt cand (off+31) ↔ byteAt d s=85:=by
  have hwindow:=hr.sum_eq (m:=0) (by omega) (by omega) (by omega) (by omega)
  rw [Nat.add_zero,Finset.Ico_self,Finset.sum_empty,Finset.sum_empty] at hwindow
  have hold0:=hr.old s (by omega) (by omega)
  have h0:=hr.letters.1
  rw [← hs] at hsum ⊢
  omega

/-- The bounds of the fields stay, but the compressed length and the checksum may break. -/
theorem Renamed.header_iff (hr:Renamed d cand off s) (hd:HeaderBytes d off packed) :
    HeaderBytes cand off packed ↔ wordAt cand (off+20)≤packed.rawSize ∧
      headerSum cand off % 251 = byteAt cand (off+31):=by
  constructor
  · intro hcand
    exact ⟨hcand.cLen.2,hcand.checksum⟩
  · rintro ⟨hlen,hsum⟩
    have hmethod : byteAt d (off+6)<48:=by
      have hrecognized:=hd.method
      simp only [recognizedMethod,Bool.or_eq_true,beq_iff_eq] at hrecognized
      omega
    have hformat : byteAt d (off+5)=9:=hd.format
    refine ⟨?_,?_,?_,?_,?_,⟨hr.two_le (by omega) hd.cLen.1,hlen⟩,?_,hsum⟩
    · rw [hr.small (by omega) (by have hle:=hd.version.2;omega)]
      exact hd.version
    · rw [hr.small (by omega) (by omega)]
      exact hd.format
    · rw [hr.small (by omega) hmethod]
      exact hd.method
    · rw [hr.small (by omega) (by have hle:=hd.level.2;omega)]
      exact hd.level
    · exact hr.length_bounds (by omega) hd.uLen.1 hd.uLen.2
    · exact hr.length_bounds (by omega) hd.uFileSize.1 hd.uFileSize.2

end

end AutoRefirst.Repair
