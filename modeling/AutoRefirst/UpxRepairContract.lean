import AutoRefirst.UpxHeaderBinding

/-!
# What a validated repair promises

A validated proposal changes no more than it says. Its result is a valid image of the packer
exactly when the new name does not disturb the header.
-/

namespace AutoRefirst.Repair
open List Option

open BytePatches

/-- The compressed length as the header reads with the new name in the file. -/
def lengthAfter (d : Bytes) (g : Handoff) : ℕ :=
  wordAt (overwrite d g.sec0Off kUpx0) (g.headerOff+20)

/-- The new name is outside of the bytes after the magic, or it keeps their balance: `U`, `P`
and `X` weigh 253 together. -/
def NameKeepsHeader (d : Bytes) (g : Handoff) : Prop :=
  bytesEq d g.sec0Off kUpx0 = true ∨ g.sec0Off<g.headerOff+4 ∨
    g.headerOff + 32 ≤ g.sec0Off ∨
    (g.sec0Off≤g.headerOff+28 ∧
      byteAt d g.sec0Off + byteAt d (g.sec0Off+1) + byteAt d (g.sec0Off+2) = 253 ∧
      lengthAfter d g ≤ g.packed.rawSize) ∨
    (g.sec0Off=g.headerOff+29 ∧
      byteAt d g.sec0Off + byteAt d (g.sec0Off+1) = byteAt d (g.sec0Off+2) + 77) ∨
    (g.sec0Off=g.headerOff+30 ∧ byteAt d g.sec0Off = byteAt d (g.sec0Off+1) + 5)

instance (d : Bytes) (g : Handoff) : Decidable (NameKeepsHeader d g) :=
  inferInstanceAs (Decidable (_ ∨ _ ∨ _ ∨ _ ∨ _ ∨ _))

def RepairContract (d : Bytes) (pe : PeInfo) (ranges : List RepairChangedRange) : Prop :=
  ∃ rp cand, rawPe d = some rp ∧ MinimalRepair d pe (handoffOf pe rp) ranges cand ∧
    PackHeaderHolds cand (handoffOf pe rp)

theorem HeaderBytes.congr {d cand:Bytes} {off:ℕ} {packed:PeSection}
    (hsame:∀i,off+4 ≤ i → i<off+32 → byteAt cand i=byteAt d i)
    (hd:HeaderBytes d off packed) : HeaderBytes cand off packed:=by
  have hword : ∀o,off+4≤o → o+4≤off+32 → wordAt cand o=wordAt d o:=by
    intro o hlo hhi
    rw [wordAt,wordAt,hsame o hlo (by omega),hsame (o+1) (by omega) (by omega),
      hsame (o+2) (by omega) (by omega),hsame (o+3) (by omega) (by omega)]
  have hsum : headerSum cand off=headerSum d off:=by
    apply Finset.sum_congr rfl
    intro i hi
    have hmem:=Finset.mem_Ico.mp hi
    exact hsame i hmem.1 (by omega)
  obtain ⟨h1,h2,h3,h4,h5,h6,h7,h8⟩:=hd
  refine ⟨?_,?_,?_,?_,?_,?_,?_,?_⟩
  · rwa [hsame _ (by omega) (by omega)]
  · rwa [hsame _ (by omega) (by omega)]
  · rwa [hsame _ (by omega) (by omega)]
  · rwa [hsame _ (by omega) (by omega)]
  · rwa [hword _ (by omega) (by omega)]
  · rwa [hword _ (by omega) (by omega)]
  · rwa [hword _ (by omega) (by omega)]
  · rwa [hsum,hsame _ (by omega) (by omega)]

section
variable {d cand : Bytes} {pe : PeInfo} {g : Handoff} {h : PackHeader}
  {ranges : List RepairChangedRange}

/-- Bytes after the magic change in the name only, and its digit stays. -/
theorem Accepted.outside (ha:Accepted d pe ranges g h cand) {i:ℕ}
    (hi:g.headerOff+4 ≤ i) (hout:¬(g.sec0Off ≤ i ∧ i<g.sec0Off+3)) :
    cand[i]? = d[i]? := by
  by_contra hne
  rcases ha.fields_only hne with hin | hin
  · omega
  · have heq : i=g.sec0Off+3:=by omega
    rw [heq] at hne
    exact hne ha.digit.symm

theorem Accepted.cand_letters (ha:Accepted d pe ranges g h cand) :
    byteAt cand g.sec0Off=85 ∧ byteAt cand (g.sec0Off+1)=80 ∧
      byteAt cand (g.sec0Off+2)=88:=by
  have h0:=ha.cand_name (j:=0) (by omega)
  have h1:=ha.cand_name (j:=1) (by omega)
  have h2:=ha.cand_name (j:=2) (by omega)
  exact ⟨byteAt_of_getElem? h0,byteAt_of_getElem? h1,byteAt_of_getElem? h2⟩

theorem Accepted.renamed (ha:Accepted d pe ranges g h cand)
    (hrepairable:sec0Repairable d g=true) : Renamed d cand g.headerOff g.sec0Off:=by
  have hin:=ha.closed.name
  simp only [sec0Repairable,sec0RoleShape,roleShape,Bool.and_eq_true,beq_iff_eq]
    at hrepairable
  obtain ⟨⟨-,⟨⟨⟨h0,h1⟩,h2⟩,h3⟩,hzeros⟩,-⟩:=hrepairable
  refine ⟨fun i hi hout=>byteAt_congr (ha.outside hi hout),ha.cand_letters,?_,?_,?_⟩
  · intro i hlo hhi
    have hcases : i=g.sec0Off ∨ i=g.sec0Off+1 ∨ i=g.sec0Off+2:=by omega
    rcases hcases with rfl | rfl | rfl
    · exact le_of_prefixByte h0
    · exact le_of_prefixByte h1
    · exact le_of_prefixByte h2
  · rw [byteAt,h3]
    rfl
  · intro i hlo hhi
    have hmem : d.getD i 0∈(d.drop (g.sec0Off+4)).take 4:=by
      rw [mem_iff_getElem?]
      refine ⟨i-(g.sec0Off+4),?_⟩
      rw [getElem?_take_of_lt (by omega),getElem?_drop,Nat.add_sub_cancel' hlo,
        getD_eq_getElem?_getD,getElem?_eq_getElem (by omega),getD_some]
    have hzero:=List.all_eq_true.mp hzeros _ hmem
    rw [byteAt,beq_iff_eq.mp hzero]
    rfl

theorem Accepted.packed_same (ha:Accepted d pe ranges g h cand) {i:ℕ}
    (hlo:g.headerOff+32 ≤ i) (hhi:i<g.headerOff+32+g.packed.rawSize) :
    cand[i]? = d[i]? := by
  have hoff:=ha.closed.rawOffset
  have hheader : g.headerOff=g.packed.rawOffset-32:=rfl
  by_contra hne
  obtain ⟨r,hr,hcov⟩:=(ha.listed i).mp hne
  exact ha.not_executable hr ha.closed.member ha.closed.executable hcov (by omega)

theorem Accepted.lengthAfter_eq (ha:Accepted d pe ranges g h cand) :
    lengthAfter d g=wordAt cand (g.headerOff+20):=by
  have hsame : ∀i,g.headerOff+4 ≤ i →
      byteAt (overwrite d g.sec0Off kUpx0) i=byteAt cand i:=by
    intro i hi
    apply byteAt_congr
    by_cases hin : g.sec0Off ≤ i ∧ i<g.sec0Off+kUpx0.length
    · have hcand:=ha.cand_name (j:=i-g.sec0Off) (by
        have hlen : kUpx0.length=4:=rfl
        omega)
      rw [getElem?_overwrite_of_mem ha.name_in hin.1 hin.2,← hcand,Nat.add_sub_cancel' hin.1]
    · have hlen : kUpx0.length=4:=rfl
      rw [getElem?_overwrite_of_not_mem ha.name_in hin,ha.outside hi (by omega)]
  rw [lengthAfter,wordAt,wordAt,hsame _ (by omega),hsame _ (by omega),hsame _ (by omega),
    hsame _ (by omega)]

/-- A name of which only the checksum could change is not one that is repaired. -/
theorem Accepted.checksum_letter (ha:Accepted d pe ranges g h cand)
    (hs:g.sec0Off=g.headerOff+31) (hnamed:bytesEq d g.sec0Off kUpx0≠true) :
    byteAt d g.sec0Off≠85:=by
  intro hfirst
  have hsize:=ha.closed.rawSize
  have hsecond : byteAt cand (g.sec0Off+1)=byteAt d (g.sec0Off+1):=
    byteAt_congr (ha.packed_same (by omega) (by omega))
  have hthird : byteAt cand (g.sec0Off+2)=byteAt d (g.sec0Off+2):=
    byteAt_congr (ha.packed_same (by omega) (by omega))
  have hfourth : byteAt cand (g.sec0Off+3)=byteAt d (g.sec0Off+3):=byteAt_congr ha.digit.symm
  obtain ⟨-,h1,h2⟩:=ha.cand_letters
  have h3 : byteAt cand (g.sec0Off+3)=48:=byteAt_of_getElem? (ha.cand_name (j:=3) (by omega))
  have hin:=ha.closed.name
  apply hnamed
  rw [bytesEq,beq_iff_eq,drop_eq_getD_cons (by omega),drop_eq_getD_cons (by omega),
    drop_eq_getD_cons (by omega),drop_eq_getD_cons (by omega)]
  have hbyte : ∀i (x:UInt8),byteAt d i=x.toNat → d.getD i 0=x:=by
    intro i x hx
    exact UInt8.toNat_inj.mp hx
  rw [hbyte g.sec0Off 85 hfirst,hbyte (g.sec0Off+1) 80 (by rw [← hsecond];exact h1),
    hbyte (g.sec0Off+1+1) 88 (by rw [Nat.add_assoc,← hthird];exact h2),
    hbyte (g.sec0Off+1+1+1) 48 (by rw [Nat.add_assoc,Nat.add_assoc,← hfourth];exact h3)]
  rfl

theorem Accepted.overlap_iff (ha:Accepted d pe ranges g h cand)
    (hlo:g.headerOff+4≤g.sec0Off) (hhi:g.sec0Off<g.headerOff+32)
    (hnamed:bytesEq d g.sec0Off kUpx0≠true) :
    HeaderBytes cand g.headerOff g.packed ↔ NameKeepsHeader d g:=by
  have hd:=ha.input_bytes
  have hrepairable : sec0Repairable d g=true:=by
    rcases ha.named with hname | hrepairable
    · rw [sectionNamed,Bool.and_eq_true] at hname
      exact absurd hname.1 hnamed
    · exact hrepairable
  have hr:=ha.renamed hrepairable
  have hcLen:=hd.cLen.2
  rw [hr.header_iff hd,← ha.lengthAfter_eq]
  have hcases : g.sec0Off≤g.headerOff+28 ∨ g.sec0Off=g.headerOff+29 ∨
      g.sec0Off = g.headerOff+30 ∨ g.sec0Off=g.headerOff+31:=by omega
  have hlate : g.headerOff+28<g.sec0Off → lengthAfter d g≤g.packed.rawSize:=by
    intro hlt
    rw [ha.lengthAfter_eq,hr.word_eq (by omega) (by omega)]
    exact hcLen
  rcases hcases with hs | hs | hs | hs
  · rw [hr.checksum_inside hlo hs hd.checksum]
    constructor
    · rintro ⟨hlen,hsum⟩
      exact .inr (.inr (.inr (.inl ⟨hs,hsum,hlen⟩)))
    · rintro (hname | hlt | hge | ⟨-,hsum,hlen⟩ | ⟨heq,-⟩ | ⟨heq,-⟩)
      · exact absurd hname hnamed
      · omega
      · omega
      · exact ⟨hlen,hsum⟩
      · omega
      · omega
  · rw [hr.checksum_last hs hd.checksum]
    constructor
    · rintro ⟨-,hsum⟩
      exact .inr (.inr (.inr (.inr (.inl ⟨hs,hsum⟩))))
    · rintro (hname | hlt | hge | ⟨hle,-⟩ | ⟨-,hsum⟩ | ⟨heq,-⟩)
      · exact absurd hname hnamed
      · omega
      · omega
      · omega
      · exact ⟨hlate (by omega),hsum⟩
      · omega
  · rw [hr.checksum_middle hs hd.checksum]
    constructor
    · rintro ⟨-,hsum⟩
      exact .inr (.inr (.inr (.inr (.inr ⟨hs,hsum⟩))))
    · rintro (hname | hlt | hge | ⟨hle,-⟩ | ⟨heq,-⟩ | ⟨-,hsum⟩)
      · exact absurd hname hnamed
      · omega
      · omega
      · omega
      · omega
      · exact ⟨hlate (by omega),hsum⟩
  · rw [hr.checksum_first hs hd.checksum]
    constructor
    · rintro ⟨-,hfirst⟩
      exact absurd hfirst (ha.checksum_letter hs hnamed)
    · rintro (hname | hlt | hge | ⟨hle,-⟩ | ⟨heq,-⟩ | ⟨heq,-⟩)
      · exact absurd hname hnamed
      · omega
      · omega
      · omega
      · omega
      · omega

theorem Accepted.header_iff (ha:Accepted d pe ranges g h cand) :
    HeaderBytes cand g.headerOff g.packed ↔ NameKeepsHeader d g:=by
  by_cases hnamed : bytesEq d g.sec0Off kUpx0=true
  · -- the name is right already, so no byte after the magic changes
    refine iff_of_true (HeaderBytes.congr ?_ ha.input_bytes) (.inl hnamed)
    intro i hi _
    apply byteAt_congr
    by_cases hin : g.sec0Off ≤ i ∧ i<g.sec0Off+3
    · rw [bytesEq,beq_iff_eq] at hnamed
      have hlen : kUpx0.length=4:=rfl
      have hcand:=ha.cand_name (j:=i-g.sec0Off) (by omega)
      have hold:=take_drop_getElem? (j:=i-g.sec0Off) hnamed (by omega)
      rw [Nat.add_sub_cancel' hin.1] at hcand hold
      rw [hcand,hold]
    · exact ha.outside hi hin
  · by_cases hover : g.headerOff+4≤g.sec0Off ∧ g.sec0Off<g.headerOff+32
    · exact ha.overlap_iff hover.1 hover.2 hnamed
    · have hdisjoint:=canonical_disjoint ha.canonical
      refine iff_of_true (HeaderBytes.congr ?_ ha.input_bytes) ?_
      · intro i hi hlt
        exact byteAt_congr (ha.outside hi (by omega))
      · unfold NameKeepsHeader
        omega

end

theorem validated_repair_iff (input : String) (d : Bytes) (pe : PeInfo) (limits : RepairLimits)
    (hstate : (assessUpxMetadataRepair input d pe limits).state=.validated) :
    RepairContract d pe (assessUpxMetadataRepair input d pe limits).changedRanges ↔
      ∃ rp, rawPe d=some rp ∧ NameKeepsHeader d (handoffOf pe rp) := by
  obtain ⟨g,h,cand,ha⟩:=assess_validated hstate
  obtain ⟨rp,hrp,rfl⟩:=ha.closed.found
  constructor
  · rintro ⟨rp',cand',hrp',hminimal,hholds⟩
    rw [hrp,some.injEq] at hrp'
    subst hrp'
    have hcand : cand'=cand:=some.inj (hminimal.applied.symm.trans ha.candidate)
    rw [hcand] at hholds
    exact ⟨rp,hrp,ha.header_iff.mp (ha.holds_iff.mp hholds)⟩
  · rintro ⟨rp',hrp',hkeeps⟩
    rw [hrp,some.injEq] at hrp'
    subst hrp'
    exact ⟨rp,cand,hrp,ha.minimal,ha.holds_iff.mpr (ha.header_iff.mpr hkeeps)⟩

def dword (n : ℕ) : Bytes := [n,n/256,n/65536,n/16777216].map fun k => k.toUInt8

/-- The headers of an image with two sections, up to the data directories. -/
def imageStart : Bytes :=
  bytes "MZ"++List.replicate 58 0 ++ dword 0x40 ++
    peSignature ++ [0x4c,0x01,2,0] ++ List.replicate 12 0 ++ [224,0,2,1] ++
    [0x0b,0x01] ++ List.replicate 14 0 ++ dword 0x2000 ++ List.replicate 12 0 ++
    dword 0x1000 ++ dword 0x200 ++ List.replicate 20 0 ++ dword 392 ++ List.replicate 32 0

def sectionHeader (name : String) (rva rawSize rawOffset : ℕ) : Bytes :=
  bytes name ++ [0,0,0,0] ++ dword 0x1000 ++ dword rva ++ dword rawSize ++ dword rawOffset ++
    List.replicate 12 0 ++ dword 0xe0000040

def packHeaderStart : Bytes :=
  kUpxMagic ++ [13,9,2,9] ++ dword 31 ++ dword 0x00020001 ++ dword 0x1000 ++ dword 2 ++
    dword 0x1000

def separateImage : Bytes :=
  imageStart ++ List.replicate 128 0 ++ sectionHeader "ABC0" 0x1000 0 0 ++
    sectionHeader "UPX1" 0x2000 0x400 512 ++ List.replicate 88 0 ++ packHeaderStart ++
    [0,0,0,101] ++ List.replicate 1024 0

/-- The packed section begins inside the section table: the name `ABC0` is the filter and the
checksum of the header. -/
def overlappingImage : Bytes :=
  imageStart ++ List.replicate 100 0 ++ packHeaderStart ++ sectionHeader "ABC0" 0x1000 0 0 ++
    sectionHeader "UPX1" 0x2000 0x400 316 ++ List.replicate 948 0

theorem exists_of_any {α:Type} {o:Option α} {f:α→Bool} (h:o.any f=true) :
    ∃a,o=some a ∧ f a=true:=by
  cases o with
  | none=>cases h
  | some a=>exact ⟨a,rfl,h⟩

theorem not_contract_of_checksum {d:Bytes} {pe:PeInfo} {ranges:List RepairChangedRange}
    (hwrong:(rawPe d).any (fun rp=>(candidateBytes ranges d).any fun cand=>
      (packHeader cand (handoffOf pe rp).headerOff).any fun h=>!headerChecksumOk cand h) = true) :
    ¬RepairContract d pe ranges:=by
  rintro ⟨rp,cand,hrp,hminimal,h,hh,-,-,hsum,-⟩
  rw [hrp,any_some,hminimal.applied,any_some,hh,any_some,hsum] at hwrong
  cases hwrong

theorem separateImage_repaired : RepairContract separateImage (parsePe separateImage)
      (assessUpxMetadataRepair "a.exe" separateImage (parsePe separateImage) {}).changedRanges:=by
  refine (validated_repair_iff "a.exe" separateImage (parsePe separateImage) {}
    (by decide +kernel)).mpr ?_
  obtain ⟨rp,hrp,hkeeps⟩:=exists_of_any (o:=rawPe separateImage)
    (f:=fun rp=>decide (NameKeepsHeader separateImage
      (handoffOf (parsePe separateImage) rp))) (by decide +kernel)
  exact ⟨rp,hrp,of_decide_eq_true hkeeps⟩

theorem overlappingImage_broken :
    (assessUpxMetadataRepair "a.exe" overlappingImage (parsePe overlappingImage) {}).state =
        .validated ∧
      ¬RepairContract overlappingImage (parsePe overlappingImage)
        (assessUpxMetadataRepair "a.exe" overlappingImage (parsePe overlappingImage)
          {}).changedRanges:=by
  constructor
  · decide +kernel
  · exact not_contract_of_checksum (by decide +kernel)

end AutoRefirst.Repair
