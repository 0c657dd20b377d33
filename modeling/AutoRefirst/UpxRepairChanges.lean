import AutoRefirst.UpxRepair

/-!
# Changed ranges

The ranges of a proposal are the runs of bytes of two fields that differ from their
targets, and the candidate differs from the input exactly there.
-/

namespace AutoRefirst.Repair
open List Option

open BytePatches

def RepairChangedRange.Covers (r : RepairChangedRange) (i : ℕ) : Prop :=
  r.fileOffset ≤ i ∧ i < r.fileOffset+r.afterBytes.length

/-- What the changes of a proposal have to be: `cand` differs from `d` in the magic and the
name only, and the ranges are the maximal runs of bytes that differ. -/
structure MinimalRepair (d : Bytes) (pe : PeInfo) (g : Handoff)
    (ranges : List RepairChangedRange) (cand : Bytes) : Prop where
  applied : candidateBytes ranges d = some cand
  size : cand.length=d.length
  fields : ∀ i, cand[i]? ≠ d[i]? →
    (g.headerOff ≤ i ∧ i<g.headerOff+4) ∨ (g.sec0Off ≤ i ∧ i<g.sec0Off+4)
  listed : ∀ i, cand[i]? ≠ d[i]? ↔ ∃ r∈ranges, r.Covers i
  contents : ∀ r∈ranges, r.afterBytes≠[] ∧
    r.beforeBytes = (d.drop r.fileOffset).take r.afterBytes.length ∧
    r.afterBytes = (cand.drop r.fileOffset).take r.afterBytes.length
  apart : ranges.Pairwise fun r s => ∀ i, r.Covers i → ¬s.Covers i
  maximal : ∀ r∈ranges, (∀ i, i+1=r.fileOffset → cand[i]? = d[i]?) ∧
    cand[r.fileOffset+r.afterBytes.length]? = d[r.fileOffset+r.afterBytes.length]?
  notExecutable : ∀ r∈ranges, ∀ s∈pe.sections, PeSection.executable s = true →
    ∀ i, r.Covers i → ¬(s.rawOffset ≤ i ∧ i<s.rawOffset+s.rawSize)

/-- Position `j` of the field is not what the target says. -/
def Differs (d : Bytes) (off : ℕ) (target : Bytes) (j : ℕ) : Prop :=
  j < target.length ∧ d[off+j]? ≠ target[j]?

def fieldRanges (d : Bytes) (off : ℕ) (target : Bytes) (reason : String) (pe : PeInfo)
    (certOverlap : Bool) : List RepairChangedRange :=
  if off+target.length > d.length then []
  else (runs 0 0 (List.zipWith (fun x y => x != y) (d.drop off) target)).map fun r =>
    changedRange d (off+r.1) ((target.drop r.1).take r.2) reason pe certOverlap

section
variable {d target : Bytes} {off : ℕ} {reason : String} {pe : PeInfo} {certOverlap : Bool}
  {p : RepairProposal}

theorem addFieldDiff_changedRanges :
    (addFieldDiff p d off target reason pe certOverlap).changedRanges =
      p.changedRanges++fieldRanges d off target reason pe certOverlap:=by
  unfold addFieldDiff fieldRanges
  split
  · rw [append_nil]
  · simp only
    generalize runs 0 0 (List.zipWith (fun x y=>x != y) (d.drop off) target) = l
    induction l generalizing p with
    | nil=>simp
    | cons r l ih=>
      rw [foldl_cons,ih,addChange,map_cons,append_assoc,singleton_append]

theorem runsOf_differs (hin:off+target.length≤d.length) : RunsOf (Differs d off target) 0
      (runs 0 0 (List.zipWith (fun x y=>x != y) (d.drop off) target)):=by
  refine runsOf_runs (by omega) ?_
  intro j
  rw [Nat.add_zero,Nat.zero_add,getElem?_zipWith,getElem?_drop]
  unfold Differs
  constructor
  · rintro ⟨hj,hne⟩
    rw [getElem?_eq_getElem (by omega),getElem?_eq_getElem hj] at hne ⊢
    simpa using hne
  · intro h
    split at h
    · rename_i x y hx hy
      refine ⟨(List.getElem?_eq_some_iff.mp hy).1,?_⟩
      rw [hx,hy]
      simpa using h
    · cases h

variable {r : RepairChangedRange}

theorem mem_fieldRanges (hin:off+target.length≤d.length)
    (hr:r∈fieldRanges d off target reason pe certOverlap) :
    ∃run ∈ runs 0 0 (List.zipWith (fun x y=>x != y) (d.drop off) target),
      r=changedRange d (off+run.1) ((target.drop run.1).take run.2) reason pe certOverlap ∧
      r.fileOffset = off+run.1 ∧ r.afterBytes.length=run.2 ∧ 0 < run.2 ∧
      run.1 + run.2 ≤ target.length:=by
  rw [fieldRanges,if_neg (by omega)] at hr
  obtain ⟨run,hrun,rfl⟩:=List.mem_map.mp hr
  have hruns:=runsOf_differs hin
  have hle:=hruns.lengths_le (fun j hj=>hj.1) run hrun
  refine ⟨run,hrun,rfl,rfl,?_,hruns.nonempty run hrun,hle⟩
  simp only [changedRange,length_take,length_drop]
  omega

theorem fieldRanges_within (hin:off+target.length≤d.length)
    (hr:r∈fieldRanges d off target reason pe certOverlap) :
    off ≤ r.fileOffset ∧ r.fileOffset+r.afterBytes.length≤off+target.length ∧
      0 < r.afterBytes.length:=by
  obtain ⟨run,-,-,hoff,hlen,hpos,hle⟩:=mem_fieldRanges hin hr
  omega

theorem fieldRanges_covers (hin:off+target.length≤d.length) (i:ℕ) :
    (∃r∈fieldRanges d off target reason pe certOverlap,r.Covers i) ↔
      off ≤ i ∧ Differs d off target (i-off):=by
  have hruns:=runsOf_differs hin
  constructor
  · rintro ⟨r,hr,hlo,hhi⟩
    obtain ⟨run,hrun,-,hoff,hlen,hpos,hle⟩:=mem_fieldRanges hin hr
    refine ⟨by omega,(hruns.covers (i-off) (by omega)).mpr ⟨run,hrun,?_,?_⟩⟩ <;> omega
  · rintro ⟨hlo,hdiff⟩
    obtain ⟨run,hrun,hlo',hhi'⟩:=(hruns.covers (i-off) (by omega)).mp hdiff
    have hmem : changedRange d (off+run.1) ((target.drop run.1).take run.2) reason pe
        certOverlap∈fieldRanges d off target reason pe certOverlap:=by
      rw [fieldRanges,if_neg (by omega)]
      exact List.mem_map_of_mem hrun
    have hle:=hruns.lengths_le (fun j hj=>hj.1) run hrun
    refine ⟨_,hmem,?_,?_⟩
    · simp only [changedRange]
      omega
    · simp only [changedRange,length_take,length_drop]
      omega

theorem fieldRanges_apart (hin:off+target.length≤d.length) :
    (fieldRanges d off target reason pe certOverlap).Pairwise fun r s=>
      ∀i,r.Covers i → ¬s.Covers i:=by
  have hruns:=runsOf_differs hin
  rw [fieldRanges,if_neg (by omega),pairwise_map]
  refine hruns.apart.imp ?_
  intro r s hlt i hr hs
  have hend:=hr.2
  have hbegin:=hs.1
  simp only [changedRange,length_take,length_drop] at hend hbegin
  omega

theorem fieldRanges_maximal (hin:off+target.length≤d.length)
    (hr:r∈fieldRanges d off target reason pe certOverlap) :
    ¬Differs d off target (r.fileOffset+r.afterBytes.length-off) ∧
      ∀i,off ≤ i → i+1=r.fileOffset → ¬Differs d off target (i-off):=by
  obtain ⟨run,hrun,-,hoff,hlen,hpos,hle⟩:=mem_fieldRanges hin hr
  obtain ⟨hright,hleft⟩:=(runsOf_differs hin).maximal hrun
  constructor
  · have heq : r.fileOffset+r.afterBytes.length-off=run.1+run.2:=by omega
    rwa [heq]
  · intro i hi hnext
    exact hleft (i-off) (by omega) (by omega)

theorem fieldRanges_contents {cand:Bytes} (hin:off+target.length≤d.length)
    (hcand:∀j,j<target.length → cand[off+j]? = target[j]?)
    (hr:r∈fieldRanges d off target reason pe certOverlap) :
    r.afterBytes≠[] ∧ r.beforeBytes=(d.drop r.fileOffset).take r.afterBytes.length ∧
      r.afterBytes=(cand.drop r.fileOffset).take r.afterBytes.length:=by
  obtain ⟨run,-,heq,hoff,hlen,hpos,hle⟩:=mem_fieldRanges hin hr
  refine ⟨ne_nil_of_length_pos (by omega),by rw [heq];rfl,?_⟩
  rw [hlen,hoff]
  have hafter : r.afterBytes=(target.drop run.1).take run.2:=by
    rw [heq]
    rfl
  rw [hafter]
  apply ext_getElem?
  intro j
  rcases Nat.lt_or_ge j run.2 with hlt | hge
  · rw [getElem?_take_of_lt hlt,getElem?_take_of_lt hlt,getElem?_drop,
      getElem?_drop,Nat.add_assoc,hcand _ (by omega)]
  · rw [getElem?_take_eq_none hge,getElem?_take_eq_none hge]

/-- A field that is right already needs no change. -/
theorem fieldRanges_eq_nil (hin:off+target.length≤d.length)
    (heq:(d.drop off).take target.length=target) :
    fieldRanges d off target reason pe certOverlap=[]:=by
  rw [eq_nil_iff_forall_not_mem]
  intro r hr
  obtain ⟨hlo,hhi,hpos⟩:=fieldRanges_within hin hr
  obtain ⟨-,hlt,hne⟩:=(fieldRanges_covers hin r.fileOffset).mp ⟨r,hr,Nat.le_refl _,by omega⟩
  apply hne
  rw [← heq,getElem?_take_of_lt hlt,getElem?_drop]

end

def RepairChangedRange.toPatch (r : RepairChangedRange) : Patch UInt8 :=
  ⟨r.fileOffset,r.beforeBytes,r.afterBytes⟩

theorem candidateBytes_eq (ranges:List RepairChangedRange) (d:Bytes) :
    candidateBytes ranges d=applyAll (ranges.map RepairChangedRange.toPatch) d:=by
  induction ranges generalizing d with
  | nil=>rfl
  | cons r ranges ih=>
    rw [candidateBytes,map_cons,applyAll,Patch.apply]
    by_cases hfits : r.toPatch.Fits d
    · rw [if_pos hfits,bind_some,if_neg,ih]
      · rfl
      · obtain ⟨hin,hlen,heq⟩:=hfits
        simp only [RepairChangedRange.toPatch] at hin hlen heq
        simp only [not_or,not_not,hlen]
        exact ⟨by omega,trivial,by rw [← hlen];exact heq⟩
    · rw [if_neg hfits,bind_none,if_pos]
      by_contra hnot
      simp only [not_or,not_not] at hnot
      exact hfits ⟨Nat.le_of_not_lt hnot.1,hnot.2.1,hnot.2.2⟩

section
variable {ranges : List RepairChangedRange} {d cand : Bytes}

theorem candidateBytes_length (h:candidateBytes ranges d=some cand) : cand.length=d.length:=
  applyAll_length (candidateBytes_eq ranges d▸h)

theorem candidateBytes_outside {i:ℕ} (h:candidateBytes ranges d=some cand)
    (hi:∀r∈ranges,¬r.Covers i) : cand[i]? = d[i]? := by
  refine applyAll_outside (candidateBytes_eq ranges d▸h) ?_
  intro p hp
  obtain ⟨r,hr,rfl⟩:=List.mem_map.mp hp
  exact hi r hr

end

theorem take_drop_getElem? {d want:Bytes} {off j:ℕ}
    (h:(d.drop off).take want.length=want) (hj:j<want.length) :
    d[off+j]? = want[j]? := by
  have hget : ((d.drop off).take want.length)[j]? = d[off+j]? := by
    rw [getElem?_take_of_lt hj,getElem?_drop]
  rw [← hget,h]

theorem packHeader_eq_some {d:Bytes} {off:ℕ} {h:PackHeader} (hrun:packHeader d off=some h) :
    off + 32 ≤ d.length ∧ h.offset=off ∧ h.magic=(d.drop off).take 4:=by
  unfold packHeader at hrun
  split at hrun
  · cases hrun
  · rename_i hin
    cases hrun
    exact ⟨Nat.le_of_not_lt hin,rfl,rfl⟩

section
variable {d cand : Bytes} {pe : PeInfo} {g : Handoff} {h : PackHeader}
  {ranges : List RepairChangedRange}

theorem canonical_magic (hc:canonical cand g=true) :
    (cand.drop g.headerOff).take 4=kUpxMagic:=by
  unfold canonical at hc
  split at hc
  · cases hc
  · rename_i ch hch
    simp only [Bool.and_eq_true,beq_iff_eq] at hc
    rw [← (packHeader_eq_some hch).2.2]
    exact hc.1.1

theorem canonical_name (hc:canonical cand g=true) : (cand.drop g.sec0Off).take 4=kUpx0:=by
  unfold canonical at hc
  split at hc
  · cases hc
  · simp only [Bool.and_eq_true,bytesEq,beq_iff_eq] at hc
    exact hc.1.2

/-- The magic and the name cannot share a byte: `UPX!` and `UPX0` do not overlap. -/
theorem canonical_disjoint (hc:canonical cand g=true) :
    g.headerOff + 4 ≤ g.sec0Off ∨ g.sec0Off+4≤g.headerOff:=by
  have hmagic : ∀j,j<4 → cand[g.headerOff+j]? = kUpxMagic[j]? := fun j hj=>
    take_drop_getElem? (canonical_magic hc) hj
  have hname : ∀j,j<4 → cand[g.sec0Off+j]? = kUpx0[j]? := fun j hj=>
    take_drop_getElem? (canonical_name hc) hj
  by_contra hover
  have hcases : g.sec0Off=g.headerOff ∨ g.sec0Off=g.headerOff+1 ∨
      g.sec0Off = g.headerOff+2 ∨ g.sec0Off=g.headerOff+3 ∨
      g.headerOff = g.sec0Off+1 ∨ g.headerOff=g.sec0Off+2 ∨
      g.headerOff = g.sec0Off+3:=by omega
  have hm0:=hmagic 0 (by omega)
  have hm1:=hmagic 1 (by omega)
  have hm2:=hmagic 2 (by omega)
  have hm3:=hmagic 3 (by omega)
  have hn0:=hname 0 (by omega)
  have hn1:=hname 1 (by omega)
  have hn2:=hname 2 (by omega)
  have hn3:=hname 3 (by omega)
  rcases hcases with heq | heq | heq | heq | heq | heq | heq
  · rw [heq,hm3] at hn3
    exact absurd hn3 (by decide)
  · rw [heq,Nat.add_zero,hm1] at hn0
    exact absurd hn0 (by decide)
  · rw [heq,Nat.add_zero,hm2] at hn0
    exact absurd hn0 (by decide)
  · rw [heq,Nat.add_zero,hm3] at hn0
    exact absurd hn0 (by decide)
  · rw [heq,Nat.add_zero,hn1] at hm0
    exact absurd hm0 (by decide)
  · rw [heq,Nat.add_zero,hn2] at hm0
    exact absurd hm0 (by decide)
  · rw [heq,Nat.add_zero,hn3] at hm0
    exact absurd hm0 (by decide)

theorem Accepted.named (ha:Accepted d pe ranges g h cand) :
    sectionNamed d g.sec0Off kUpx0=true ∨ sec0Repairable d g=true:=by
  have hsome:=ha.mechanism
  unfold mechanismOf at hsome
  by_cases hname : sectionNamed d g.sec0Off kUpx0=true
  · exact Or.inl hname
  · by_cases hrepairable : sec0Repairable d g=true
    · exact Or.inr hrepairable
    · simp [hname,hrepairable] at hsome

theorem Accepted.name_in (ha:Accepted d pe ranges g h cand) :
    g.sec0Off + kUpx0.length ≤ d.length:=by
  have hname:=ha.closed.name
  have hlen : kUpx0.length=4:=rfl
  omega

theorem Accepted.magic_in (ha:Accepted d pe ranges g h cand) :
    g.headerOff + kUpxMagic.length ≤ d.length:=by
  have hin:=(packHeader_eq_some ha.closed.header).1
  have hlen : kUpxMagic.length=4:=rfl
  omega

theorem Accepted.ranges_eq (ha:Accepted d pe ranges g h cand) :
    ranges = fieldRanges d g.headerOff kUpxMagic magicReason pe false ++
      fieldRanges d g.sec0Off kUpx0 nameReason pe false:=by
  obtain ⟨p,hp,hranges⟩:=ha.proposed
  obtain ⟨-,hoff,hmagic⟩:=packHeader_eq_some ha.closed.header
  have hmagicNil : h.magic=kUpxMagic →
      fieldRanges d g.headerOff kUpxMagic magicReason pe false=[]:=by
    intro heq
    exact fieldRanges_eq_nil ha.magic_in (hmagic▸heq)
  have hnameNil : sectionNamed d g.sec0Off kUpx0=true →
      fieldRanges d g.sec0Off kUpx0 nameReason pe false=[]:=by
    intro hname
    rw [sectionNamed,Bool.and_eq_true,bytesEq,beq_iff_eq] at hname
    exact fieldRanges_eq_nil ha.name_in hname.1
  rw [hranges]
  simp only [proposeChanges,hoff]
  rcases ha.named with hname | hrepairable
  · rw [hnameNil hname,append_nil]
    by_cases heq : h.magic=kUpxMagic
    · rw [hmagicNil heq]
      simp [hname,heq,hp]
    · simp only [hname,Bool.not_true,Bool.false_and,Bool.true_or,Bool.and_true,
        Bool.false_eq_true,if_false]
      rw [if_pos (by simpa using heq),addFieldDiff_changedRanges,hp,nil_append]
  · by_cases hname : sectionNamed d g.sec0Off kUpx0=true
    · rw [sec0Repairable,sec0RoleShape,hname] at hrepairable
      simp at hrepairable
    · simp only [hname,hrepairable,Bool.not_false,Bool.and_true,if_true]
      rw [addFieldDiff_changedRanges]
      by_cases heq : h.magic=kUpxMagic
      · rw [hmagicNil heq]
        simp [heq,hp]
      · simp [heq,addFieldDiff_changedRanges,hp]

theorem Accepted.cand_magic (ha:Accepted d pe ranges g h cand) {j:ℕ} (hj:j<4) :
    cand[g.headerOff+j]? = kUpxMagic[j]? :=
  take_drop_getElem? (canonical_magic ha.canonical) hj

theorem Accepted.cand_name (ha:Accepted d pe ranges g h cand) {j:ℕ} (hj:j<4) :
    cand[g.sec0Off+j]? = kUpx0[j]? :=
  take_drop_getElem? (canonical_name ha.canonical) hj

theorem Accepted.covers (ha:Accepted d pe ranges g h cand) (i:ℕ) : (∃r∈ranges,r.Covers i) ↔
      (g.headerOff ≤ i ∧ Differs d g.headerOff kUpxMagic (i-g.headerOff)) ∨
      (g.sec0Off ≤ i ∧ Differs d g.sec0Off kUpx0 (i-g.sec0Off)):=by
  have hmagic : (∃r∈fieldRanges d g.headerOff kUpxMagic magicReason pe false,r.Covers i) ↔ _:=
    fieldRanges_covers ha.magic_in i
  have hname : (∃r∈fieldRanges d g.sec0Off kUpx0 nameReason pe false,r.Covers i) ↔ _:=
    fieldRanges_covers ha.name_in i
  rw [← hmagic,← hname,ha.ranges_eq]
  simp only [mem_append,or_and_right,exists_or]

/-- A covered byte differs from the repaired one, and no other byte does. -/
theorem Accepted.listed (ha:Accepted d pe ranges g h cand) (i:ℕ) :
    cand[i]? ≠ d[i]? ↔ ∃r∈ranges,r.Covers i:=by
  constructor
  · intro hne
    by_contra hnone
    apply hne
    exact candidateBytes_outside ha.candidate fun r hr hcov=>hnone ⟨r,hr,hcov⟩
  · intro hcov
    rcases (ha.covers i).mp hcov with ⟨hlo,hlt,hne⟩ | ⟨hlo,hlt,hne⟩
    · have hcand:=ha.cand_magic hlt
      rw [Nat.add_sub_cancel' hlo] at hcand hne
      rw [hcand]
      exact fun heq=>hne heq.symm
    · have hcand:=ha.cand_name hlt
      rw [Nat.add_sub_cancel' hlo] at hcand hne
      rw [hcand]
      exact fun heq=>hne heq.symm

theorem Accepted.fields_only (ha:Accepted d pe ranges g h cand) {i:ℕ} (hne:cand[i]? ≠ d[i]?) :
    (g.headerOff ≤ i ∧ i<g.headerOff+4) ∨ (g.sec0Off ≤ i ∧ i<g.sec0Off+4):=by
  have hmagic : kUpxMagic.length=4:=rfl
  have hname : kUpx0.length=4:=rfl
  rcases (ha.covers i).mp ((ha.listed i).mp hne) with ⟨hlo,hlt,-⟩ | ⟨hlo,hlt,-⟩ <;> omega

theorem Accepted.digit (ha:Accepted d pe ranges g h cand) :
    d[g.sec0Off+3]? = cand[g.sec0Off+3]? := by
  rw [ha.cand_name (by omega)]
  rcases ha.named with hname | hrepairable
  · rw [sectionNamed,Bool.and_eq_true,bytesEq,beq_iff_eq] at hname
    exact take_drop_getElem? hname.1 (by decide)
  · have hin:=ha.closed.name
    simp only [sec0Repairable,sec0RoleShape,roleShape,Bool.and_eq_true,beq_iff_eq]
      at hrepairable
    have hdigit:=hrepairable.1.2.1.2
    rw [getD_eq_getElem?_getD,getElem?_eq_getElem (by omega),getD_some]
      at hdigit
    rw [getElem?_eq_getElem (by omega),hdigit]
    rfl

/-- A letter is no byte of a header: all the fields with a bound are below it. -/
theorem le_of_prefixByte {c:UInt8} (h:prefixByte c=true) : 48 ≤ c.toNat ∧ c.toNat≤122:=by
  simp only [prefixByte,Bool.or_eq_true,Bool.and_eq_true,decide_eq_true_eq,beq_iff_eq,
    ge_iff_le,UInt8.le_iff_toNat_le] at h
  have hA : (byte 'A').toNat=65:=rfl
  have hZ : (byte 'Z').toNat=90:=rfl
  have ha : (byte 'a').toNat=97:=rfl
  have hz : (byte 'z').toNat=122:=rfl
  have h0 : (byte '0').toNat=48:=rfl
  have h9 : (byte '9').toNat=57:=rfl
  have hu : (byte '_').toNat=95:=rfl
  rcases h with ((h | h) | h) | h
  · omega
  · omega
  · omega
  · rw [h]
    omega

theorem Accepted.first_unchanged (ha:Accepted d pe ranges g h cand)
    (heq:g.sec0Off=g.headerOff+4) : cand[g.sec0Off]? = d[g.sec0Off]? := by
  rcases ha.named with hname | hrepairable
  · have hcand:=ha.cand_name (j:=0) (by omega)
    rw [sectionNamed,Bool.and_eq_true,bytesEq,beq_iff_eq] at hname
    have hd:=take_drop_getElem? (j:=0) hname.1 (by decide)
    exact hcand.trans hd.symm
  · exfalso
    simp only [sec0Repairable,sec0RoleShape,roleShape,Bool.and_eq_true] at hrepairable
    have hletter:=(le_of_prefixByte hrepairable.1.2.1.1.1.1).1
    have hversion : h.version=(d.getD (g.headerOff+4) 0).toNat:=by
      have hrun:=ha.closed.header
      unfold packHeader at hrun
      split at hrun
      · cases hrun
      · cases hrun
        rfl
    have hbound:=ha.fields.2.1
    rw [hversion,← heq] at hbound
    omega

variable {r : RepairChangedRange}

theorem Accepted.mem_ranges (ha:Accepted d pe ranges g h cand) :
    r∈ranges ↔ r∈fieldRanges d g.headerOff kUpxMagic magicReason pe false ∨
      r∈fieldRanges d g.sec0Off kUpx0 nameReason pe false:=by
  rw [ha.ranges_eq,mem_append]

/-- A change of the magic ends at bytes that stay: the name next to it does not change
there. -/
theorem Accepted.magic_maximal (ha:Accepted d pe ranges g h cand)
    (hr:r∈fieldRanges d g.headerOff kUpxMagic magicReason pe false) :
    (∀i,i+1=r.fileOffset → cand[i]? = d[i]?) ∧
      cand[r.fileOffset+r.afterBytes.length]? = d[r.fileOffset+r.afterBytes.length]? := by
  have hmagicLen : kUpxMagic.length=4:=rfl
  have hnameLen : kUpx0.length=4:=rfl
  have hdisjoint:=canonical_disjoint ha.canonical
  have hin:=fieldRanges_within ha.magic_in hr
  obtain ⟨hright,hleft⟩:=fieldRanges_maximal ha.magic_in hr
  constructor
  · intro i hnext
    by_contra hne
    rcases (ha.covers i).mp ((ha.listed i).mp hne) with ⟨hlo,hdiff⟩ | ⟨hlo,hlt,-⟩
    · exact hleft i hlo hnext hdiff
    · have hi : i=g.sec0Off+3:=by omega
      rw [hi] at hne
      exact hne ha.digit.symm
  · by_contra hne
    rcases (ha.covers _).mp ((ha.listed _).mp hne) with ⟨hlo,hdiff⟩ | ⟨hlo,hlt,-⟩
    · exact hright hdiff
    · have hi : r.fileOffset+r.afterBytes.length=g.sec0Off:=by omega
      rw [hi] at hne
      exact hne (ha.first_unchanged (by omega))

theorem Accepted.name_maximal (ha:Accepted d pe ranges g h cand)
    (hr:r∈fieldRanges d g.sec0Off kUpx0 nameReason pe false) :
    (∀i,i+1=r.fileOffset → cand[i]? = d[i]?) ∧
      cand[r.fileOffset+r.afterBytes.length]? = d[r.fileOffset+r.afterBytes.length]? := by
  have hmagicLen : kUpxMagic.length=4:=rfl
  have hnameLen : kUpx0.length=4:=rfl
  have hdisjoint:=canonical_disjoint ha.canonical
  have hin:=fieldRanges_within ha.name_in hr
  have hmem : r∈ranges:=ha.mem_ranges.mpr (Or.inr hr)
  obtain ⟨hright,hleft⟩:=fieldRanges_maximal ha.name_in hr
  constructor
  · intro i hnext
    by_contra hne
    rcases (ha.covers i).mp ((ha.listed i).mp hne) with ⟨hlo,hlt,-⟩ | ⟨hlo,hdiff⟩
    · have hfirst:=ha.first_unchanged (by omega)
      exact (ha.listed g.sec0Off).mpr ⟨r,hmem,by omega,by omega⟩ hfirst
    · exact hleft i hlo hnext hdiff
  · by_contra hne
    rcases (ha.covers _).mp ((ha.listed _).mp hne) with ⟨hlo,hlt,-⟩ | ⟨hlo,hdiff⟩
    · exact (ha.listed (g.sec0Off+3)).mpr ⟨r,hmem,by omega,by omega⟩ ha.digit.symm
    · exact hright hdiff

theorem Accepted.not_executable (ha:Accepted d pe ranges g h cand) (hr:r∈ranges)
    {s:PeSection} (hs:s∈pe.sections) (hexec:PeSection.executable s=true) {i:ℕ}
    (hcov:r.Covers i) :
    ¬(s.rawOffset ≤ i ∧ i<s.rawOffset+s.rawSize):=by
  intro hin
  have hrange : r.executableBytes=rangeExecutable pe r.fileOffset r.afterBytes.length:=by
    rcases ha.mem_ranges.mp hr with hr | hr
    · obtain ⟨run,-,heq,-⟩:=mem_fieldRanges ha.magic_in hr
      rw [heq]
      rfl
    · obtain ⟨run,-,heq,-⟩:=mem_fieldRanges ha.name_in hr
      rw [heq]
      rfl
  have hclean:=ha.clean r hr
  obtain ⟨hlo,hhi⟩:=hcov
  rw [hrange,rangeExecutable,if_neg (by omega),List.any_eq_false] at hclean
  apply hclean s hs
  simp only [hexec,Bool.true_and,Bool.and_eq_true,bne_iff_ne,decide_eq_true_eq]
  omega

theorem Accepted.minimal (ha:Accepted d pe ranges g h cand) :
    MinimalRepair d pe g ranges cand:=by
  refine ⟨ha.candidate,candidateBytes_length ha.candidate,fun i hne=>ha.fields_only hne,
    ha.listed,?_,?_,?_,fun r hr s hs hexec i hcov=>ha.not_executable hr hs hexec hcov⟩
  · intro r hr
    rcases ha.mem_ranges.mp hr with hr | hr
    · exact fieldRanges_contents ha.magic_in (fun j hj=>ha.cand_magic hj) hr
    · exact fieldRanges_contents ha.name_in (fun j hj=>ha.cand_name hj) hr
  · rw [ha.ranges_eq]
    refine pairwise_append.mpr ⟨fieldRanges_apart ha.magic_in, fieldRanges_apart ha.name_in,?_⟩
    intro r hr s hs i hri hsi
    have hrin:=fieldRanges_within ha.magic_in hr
    have hsin:=fieldRanges_within ha.name_in hs
    have hdisjoint:=canonical_disjoint ha.canonical
    have hmagicLen : kUpxMagic.length=4:=rfl
    have hnameLen : kUpx0.length=4:=rfl
    unfold RepairChangedRange.Covers at hri hsi
    omega
  · intro r hr
    rcases ha.mem_ranges.mp hr with hr | hr
    · exact ha.magic_maximal hr
    · exact ha.name_maximal hr

end

end AutoRefirst.Repair
