import AutoRefirst.Authenticode

/-! Which bytes of an image the digest covers, what the covered bytes decide and what they do
not depend on. -/

namespace AutoRefirst.Authenticode
open List

open Fallible ByteRanges

/-- What `hash_layout` demands of an image. -/
structure Accepts (d : Bytes) : Prop where
  length : 0x40≤d.length
  magic : d.getD 0 0 = byte 'M' ∧ d.getD 1 0 = byte 'Z'
  pe : peAt d + 24 ≤ d.length
  signature : slice d (peAt d,4) = peSignature
  optional : tableAt d ≤ d.length ∧ optAt d + 2 ≤ d.length
  width : field 2 d (optAt d) = 0x10b ∨ field 2 d (optAt d) = 0x20b
  count : countAt d + 4 ≤ d.length
  headers : 0 < headersSize d ∧ headersSize d ≤ d.length ∧ checksumAt d + 4 ≤ headersSize d
  entry : hasEntry d = true → entryAt d + 8 ≤ headersSize d ∧ checksumAt d + 4 ≤ entryAt d
  table : tableAt d + sectionCount d * 40 ≤ d.length
  ranges : ∀ r ∈ rawSections d, headersSize d ≤ r.1 ∧ r.1+r.2≤d.length
  apart : apart (headersSize d) ((rawSections d).insertionSort rangeLe)=true

variable {d d' : Bytes} {x x' : PeHashLayout} {i : ℕ}

theorem hash_layout_ok_iff : hash_layout d=.ok x ↔ Accepts d ∧ layoutOf d=x:=by
  simp only [hash_layout,rejectIf_bind,pure_eq_ok]
  constructor
  · rintro ⟨hmz,hpe,hopt,hcount,hheaders,hentry,htable,hranges,hapart,hx⟩
    simp only [any_eq_true,decide_eq_true_eq] at hranges
    push Not at hmz hpe hopt hcount hheaders hentry htable hranges
    exact ⟨⟨hmz.1,hmz.2,hpe.1,hpe.2,⟨hopt.1,hopt.2.1⟩,by tauto,hcount,
      ⟨Nat.pos_of_ne_zero hheaders.1,hheaders.2⟩,hentry,htable,hranges,by simpa using hapart⟩,
      hx⟩
  · rintro ⟨h,hx⟩
    have hentry:=h.entry
    have hmagic:=h.magic
    have hheaders:=h.headers
    have hoptional:=h.optional
    have hwidth:=h.width
    simp only [any_eq_true,decide_eq_true_eq]
    push Not
    exact ⟨⟨h.length,hmagic⟩,⟨h.pe,h.signature⟩,⟨hoptional.1,hoptional.2,by tauto⟩,h.count,
      ⟨by omega,hheaders.2⟩,hentry,h.table,h.ranges,by simp [h.apart],hx⟩

variable {n : ℕ}

theorem ascending_of_apart {prev:ℕ} {rs:List Range} (h:apart prev rs=true)
    (hin:∀r∈rs,r.1+r.2≤n) (hprev:prev≤n) : Ascending prev n rs:=by
  induction rs generalizing prev with
  | nil=>exact hprev
  | cons r rs ih=>
    obtain ⟨hle,hrest⟩ : prev ≤ r.1 ∧ apart (r.1+r.2) rs=true:=by simpa [apart] using h
    exact ⟨hle,ih hrest (fun s hs=>hin s (mem_cons_of_mem _ hs))
      (hin r mem_cons_self)⟩

theorem mem_sections {r:Range} : r∈(layoutOf d).sections ↔ r∈rawSections d:=
  (perm_insertionSort rangeLe (rawSections d)).mem_iff

/-- The end of the sections, by their maximum. -/
theorem foldl_max_le_iff {rs:List Range} {e:ℕ} :
    rs.foldl (fun e r=>max e (r.1+r.2)) e≤n ↔ e≤n ∧ ∀r∈rs,r.1+r.2≤n:=by
  induction rs generalizing e with
  | nil=>simp
  | cons r rs ih=>
    rw [foldl_cons,ih,Nat.max_le,forall_mem_cons,and_assoc]

theorem sectionsEnd_le_iff : sectionsEnd d≤n ↔ headersSize d≤n ∧ ∀r∈rawSections d,r.1+r.2≤n:=
  foldl_max_le_iff

namespace Accepts

theorem sectionsEnd_le (h:Accepts d) : sectionsEnd d≤d.length:=
  sectionsEnd_le_iff.mpr ⟨h.headers.2.1,fun r hr=>(h.ranges r hr).2⟩

theorem sections_ascending (h:Accepts d) :
    Ascending (headersSize d) (sectionsEnd d) (layoutOf d).sections:=
  have hends:=sectionsEnd_le_iff.mp (Nat.le_refl (sectionsEnd d))
  ascending_of_apart h.apart (fun r hr=>hends.2 r (mem_sections.mp hr)) hends.1

variable (he : hasEntry d = true)
include he

theorem covered_parts_eq : covered_parts (layoutOf d) =
    [(0,checksumAt d),(checksumAt d + 4,entryAt d - (checksumAt d + 4)),
      (entryAt d + 8,headersSize d - (entryAt d + 8))]++(layoutOf d).sections:=by
  simp [covered_parts,layoutOf,he]

theorem parts_ascending (h:Accepts d) :
    Ascending 0 (sectionsEnd d) (covered_parts (layoutOf d)):=by
  obtain ⟨hin,hafter⟩:=h.entry he
  rw [covered_parts_eq he]
  refine Ascending.append (b:=headersSize d) ?_ h.sections_ascending
  refine ⟨by omega,by omega,by omega,?_⟩
  change _≤_
  omega

theorem parts_within (h:Accepts d) {r:Range} (hr:r∈covered_parts (layoutOf d)) :
    r.1 + r.2 ≤ d.length:=
  Nat.le_trans ((h.parts_ascending he).within hr).2 h.sectionsEnd_le

end Accepts

def InHeaders (d : Bytes) (i : ℕ) : Prop :=
  i < headersSize d ∧ ¬Range.Holds (checksumAt d,4) i ∧ ¬Range.Holds (entryAt d,8) i

def InSection (d : Bytes) (i : ℕ) : Prop := ∃ r ∈ rawSections d, r.Holds i

instance : DecidablePred (InHeaders d) := fun _ => inferInstanceAs (Decidable (_ ∧ _ ∧ _))

instance : DecidablePred (InSection d) := fun _ => decidableBEx _ _

theorem mem_positions_parts (h:Accepts d) (he:hasEntry d=true) :
    i∈positions (covered_parts (layoutOf d)) ↔ InHeaders d i ∨ InSection d i:=by
  obtain ⟨hin,hafter⟩:=h.entry he
  rw [mem_positions,Accepts.covered_parts_eq he]
  simp only [mem_append,or_and_right,exists_or,mem_sections,InSection]
  refine or_congr ?_ Iff.rfl
  simp only [mem_cons,not_mem_nil,or_false,exists_eq_or_imp,exists_eq_left, Range.Holds,InHeaders]
  omega

theorem hashed_eq (h:Accepts d) (he:hasEntry d=true) : hashed d (layoutOf d) =
    bytesAt d ((List.range d.length).filter fun i=>InHeaders d i ∨ InSection d i):=by
  rw [hashed,gather_eq_bytesAt fun r hr=>h.parts_within he hr]
  congr 1
  refine eq_filter_range (h.parts_ascending he).positions_lt fun i=>?_
  rw [decide_eq_true_eq,← mem_positions_parts h he]
  refine ⟨fun hi=>⟨?_,hi⟩,And.right⟩
  obtain ⟨r,hr,hi⟩:=mem_positions.mp hi
  exact Nat.lt_of_lt_of_le hi.2 (h.parts_within he hr)

def InTail (d : Bytes) (i : ℕ) : Prop :=
  headersSize d ≤ i ∧ (∀ r ∈ rawSections d, r.1+r.2 ≤ i) ∧ ¬(certificates d).Holds i

instance : DecidablePred (InTail d) := fun i =>
  have : Decidable (∀ r ∈ rawSections d, r.1+r.2 ≤ i) := decidableBAll _ _
  inferInstanceAs (Decidable (_ ∧ _ ∧ _))

/-- The bytes an Authenticode digest is defined over, in ascending order: the headers without
the checksum and the directory entry, the sections, and what follows the last section and is
not the Certificate Table. -/
def specification (d : Bytes) : Bytes :=
  bytesAt d ((List.range d.length).filter fun i => InHeaders d i ∨ InSection d i ∨ InTail d i)

theorem not_inTail (hi:InHeaders d i ∨ InSection d i) : ¬InTail d i:=by
  rintro ⟨hheaders,hsections,-⟩
  rcases hi with ⟨hlt,-⟩ | ⟨r,hr,hhold⟩
  · omega
  · have hend:=hsections r hr
    have hin:=hhold.2
    omega

/-- What is hashed is what the specification names, exactly when nothing but the Certificate
Table follows the last section. -/
theorem hashed_eq_specification_iff (h:Accepts d) (he:hasEntry d=true) :
    hashed d (layoutOf d)=specification d ↔ ∀i<d.length,¬InTail d i:=by
  rw [hashed_eq h he,specification]
  constructor
  · intro heq i hi htail
    have hfilter : ((List.range d.length).filter
        (fun i=>InHeaders d i ∨ InSection d i ∨ InTail d i)).filter
          (fun i=>InHeaders d i ∨ InSection d i) =
        (List.range d.length).filter fun i=>InHeaders d i ∨ InSection d i:=by
      rw [filter_filter]
      refine filter_congr fun j _=>?_
      by_cases hj : InHeaders d j ∨ InSection d j <;> simp [hj,← or_assoc]
    have hlen : (((List.range d.length).filter
        (fun i=>InHeaders d i ∨ InSection d i ∨ InTail d i)).filter
          (fun i=>InHeaders d i ∨ InSection d i)).length =
        ((List.range d.length).filter
          (fun i=>InHeaders d i ∨ InSection d i ∨ InTail d i)).length:=by
      rw [hfilter]
      simpa [bytesAt] using congrArg List.length heq
    have hall:=length_filter_eq_length_iff.mp hlen i
      (mem_filter.mpr ⟨mem_range.mpr hi,by simp [htail]⟩)
    exact not_inTail (by simpa using hall) htail
  · intro hnone
    congr 1
    refine filter_congr fun i hi=>?_
    simp [hnone i (mem_range.mp hi)]

theorem field_congr {w o:ℕ} (h:∀i,o ≤ i → i<o+w → d'[i]? = d[i]?) (hw:0<w) :
    field w d' o=field w d o:=by
  have hslice : slice d' (o,w)=slice d (o,w):=slice_congr fun i hi=>h i hi.1 hi.2
  have hlength : o+w > d'.length ↔ o+w > d.length:=by
    have hlast:=h (o+(w-1)) (by omega) (by omega)
    have hd' : d'[o+(w-1)]? = none ↔ d'.length≤o+(w-1):=getElem?_eq_none_iff
    have hd : d[o+(w-1)]? = none ↔ d.length≤o+(w-1):=getElem?_eq_none_iff
    rw [hlast,hd] at hd'
    omega
  simp only [field,rd,hlength]
  exact congrArg (fun b=>(if o+w > d.length then none else some (littleEndian b)).getD 0) hslice

theorem sectionTable_congr {st nsec:ℕ} (h:∀i,st ≤ i → i<st+nsec*40 → d'[i]? = d[i]?) :
    sectionTable d' st nsec=sectionTable d st nsec:=by
  refine map_congr_left fun k hk=>?_
  have hk':=mem_range.mp hk
  have hentry : ∀i,st+k*40 ≤ i → i<st+k*40+40 → d'[i]? = d[i]? := by
    intro i hle hlt
    exact h i (by omega) (by omega)
  rw [sectionRange,sectionRange,field_congr (fun i hle hlt=>hentry i (by omega) (by omega))
    (by decide),field_congr (fun i hle hlt=>hentry i (by omega) (by omega)) (by decide)]

/-- The bytes in front of the checksum decide where the parts of the headers lie. -/
structure SameHeaders (d d' : Bytes) : Prop where
  pe : peAt d' = peAt d
  count : sectionCount d' = sectionCount d
  table : tableAt d' = tableAt d
  width : field 2 d' (optAt d') = field 2 d (optAt d)
  headers : headersSize d' = headersSize d

theorem peAt_congr (h:∀i<64,d'[i]? = d[i]?) : peAt d'=peAt d:=
  field_congr (fun i _ hlt=>h i (by omega)) (by decide)

theorem sameHeaders_of (h:∀i<checksumAt d,d'[i]? = d[i]?) : SameHeaders d d':=by
  have hchecksum : checksumAt d = peAt d + 88:=rfl
  have hpe : peAt d'=peAt d:=peAt_congr fun i hi=>h i (by omega)
  have hopt : optAt d'=optAt d:=by rw [optAt,hpe,optAt]
  have hsize : field 2 d' (peAt d + 20)=field 2 d (peAt d + 20):=
    field_congr (fun i _ hlt=>h i (by omega)) (by decide)
  have hoptional : optAt d = peAt d + 24:=rfl
  refine ⟨hpe,?_,by rw [tableAt,hopt,hpe,hsize,tableAt],?_,?_⟩
  · rw [sectionCount,hpe,sectionCount]
    exact field_congr (fun i _ hlt=>h i (by omega)) (by decide)
  · rw [hopt]
    exact field_congr (fun i _ hlt=>h i (by omega)) (by decide)
  · rw [headersSize,hopt,headersSize]
    exact field_congr (fun i _ hlt=>h i (by omega)) (by decide)

namespace SameHeaders

variable (h : SameHeaders d d')
include h

theorem opt : optAt d'=optAt d:=by rw [optAt,h.pe,optAt]

theorem checksum : checksumAt d'=checksumAt d:=by rw [checksumAt,h.opt,checksumAt]

theorem dirs : dirsAt d'=dirsAt d:=by rw [dirsAt,h.width,h.opt,dirsAt]

theorem entry : entryAt d'=entryAt d:=by rw [entryAt,h.dirs,entryAt]

theorem countAt_eq : countAt d'=countAt d:=by rw [countAt,h.width,h.opt,countAt]

theorem rawSections_eq (htable:∀i,tableAt d ≤ i → i < tableAt d + sectionCount d * 40 →
    d'[i]? = d[i]?) : rawSections d'=rawSections d:=by
  rw [rawSections,h.table,h.count,sectionTable_congr htable,rawSections]

end SameHeaders

theorem hashed_append (he:hasEntry d=true) : hashed d (layoutOf d) = slice d (0,checksumAt d) ++
      (slice d (checksumAt d + 4,entryAt d - (checksumAt d + 4)) ++
        (slice d (entryAt d + 8,headersSize d - (entryAt d + 8)) ++
          gather d (layoutOf d).sections)):=by
  rw [hashed,Accepts.covered_parts_eq he]
  simp [gather]

theorem getElem?_hashed (h:Accepts d) (he:hasEntry d=true) (hi:i<checksumAt d) :
    (hashed d (layoutOf d))[i]? = d[i]? := by
  have hheaders:=h.headers
  have hlen : (slice d (0,checksumAt d)).length=checksumAt d:=length_slice (by simp only;omega)
  rw [hashed_append he,getElem?_append_left (by omega),getElem?_slice hi,Nat.zero_add]

/-- Two images that are hashed alike have the same headers, but for the checksum and the entry
of the Certificate Table. -/
theorem headers_of_hashed_eq (h:Accepts d) (h':Accepts d') (he:hasEntry d=true)
    (heq:hashed d (layoutOf d)=hashed d' (layoutOf d')) :
    (SameHeaders d d' ∧ hasEntry d'=true) ∧ (∀i,InHeaders d i → d'[i]? = d[i]?) ∧
      gather d (layoutOf d).sections=gather d' (layoutOf d').sections:=by
  have hchecksum : checksumAt d = peAt d + 88:=rfl
  have hchecksum' : checksumAt d' = peAt d' + 88:=rfl
  have he' : hasEntry d'=true:=by
    by_contra hno
    have hnil : hashed d' (layoutOf d')=[]:=by
      simp [hashed,covered_parts,layoutOf,hno,gather]
    have hfirst:=getElem?_hashed (i:=0) h he (by omega)
    have hlength:=h.length
    rw [heq,hnil,getElem?_nil,eq_comm,getElem?_eq_none_iff] at hfirst
    omega
  have hstart : ∀i<64,d'[i]? = d[i]? := by
    intro i hi
    rw [← getElem?_hashed h' he' (by omega),← heq,getElem?_hashed h he (by omega)]
  have hpe:=peAt_congr hstart
  have hfront : ∀i<checksumAt d,d'[i]? = d[i]? := by
    intro i hi
    rw [← getElem?_hashed h' he' (by omega),← heq,getElem?_hashed h he hi]
  have hsame:=sameHeaders_of hfront
  have hin:=h.entry he
  have hin':=h'.entry he'
  have hheaders:=h.headers
  have hheaders':=h'.headers
  rw [hashed_append he,hashed_append he',hsame.checksum,hsame.entry,hsame.headers] at heq
  rw [hsame.checksum,hsame.entry,hsame.headers] at hin'
  rw [hsame.checksum,hsame.headers] at hheaders'
  obtain ⟨-,heq⟩:=append_inj heq
    (by rw [length_slice (by simp only;omega),length_slice (by simp only;omega)])
  obtain ⟨hmiddle,heq⟩:=append_inj heq
    (by rw [length_slice (by simp only;omega),length_slice (by simp only;omega)])
  obtain ⟨hrest,hsections⟩:=append_inj heq
    (by rw [length_slice (by simp only;omega),length_slice (by simp only;omega)])
  refine ⟨⟨hsame,he'⟩,fun i hi=>?_,hsections⟩
  obtain ⟨hlt,hnotChecksum,hnotEntry⟩:=hi
  simp only [Range.Holds] at hnotChecksum hnotEntry
  by_cases hbefore : i<checksumAt d
  · exact hfront i hbefore
  · by_cases hbetween : i<entryAt d
    · exact (getElem?_eq_of_slice_eq hmiddle ⟨by simp only;omega,by simp only;omega⟩).symm
    · exact (getElem?_eq_of_slice_eq hrest ⟨by simp only;omega,by simp only;omega⟩).symm

theorem entry_before_table (he:hasEntry d=true) : entryAt d + 8 ≤ tableAt d:=by
  have hdirs:=(of_decide_eq_true he).2
  unfold entryAt
  omega

def TableInside (d : Bytes) : Prop := tableAt d + sectionCount d * 40 ≤ headersSize d

theorem inHeaders_of_table (h:Accepts d) (he:hasEntry d=true) (hinside:TableInside d)
    (hle:tableAt d ≤ i) (hlt:i < tableAt d + sectionCount d * 40) : InHeaders d i:=by
  obtain ⟨hin,hafter⟩:=h.entry he
  have hbehind:=entry_before_table he
  unfold TableInside at hinside
  exact ⟨by omega,by simp only [Range.Holds];omega,by simp only [Range.Holds];omega⟩

theorem covered_of_hashed_eq (h:Accepts d) (h':Accepts d') (he:hasEntry d=true)
    (heq:hashed d (layoutOf d)=hashed d' (layoutOf d')) (hinside:TableInside d)
    (hi:InHeaders d i ∨ InSection d i) : d'[i]? = d[i]? := by
  obtain ⟨⟨hsame,-⟩,hheaders,hsections⟩:=headers_of_hashed_eq h h' he heq
  rcases hi with hi | ⟨r,hr,hhold⟩
  · exact hheaders i hi
  · have hraw : rawSections d'=rawSections d:=
      hsame.rawSections_eq fun j hle hlt=>hheaders j (inHeaders_of_table h he hinside hle hlt)
    have hlayout : (layoutOf d').sections=(layoutOf d).sections:=by
      simp only [layoutOf,hraw]
    rw [hlayout] at hsections
    refine (getElem?_eq_of_slice_eq (slice_eq_of_gather_eq (fun s hs=>?_) (fun s hs=>?_)
      hsections (mem_sections.mpr hr)) hhold).symm
    · exact (h.ranges s (mem_sections.mp hs)).2
    · exact (h'.ranges s (hraw▸mem_sections.mp hs)).2

/-- A file with the same headers and the same section table has the same layout, but for the
range of the Certificate Table. -/
theorem accepts_congr (h:Accepts d) (he:hasEntry d=true) (hlength:d'.length=d.length)
    (hheaders:∀i,InHeaders d i → d'[i]? = d[i]?)
    (htable:∀i,tableAt d ≤ i → i < tableAt d + sectionCount d * 40 → d'[i]? = d[i]?) :
    Accepts d' ∧ hasEntry d'=true ∧ covered_parts (layoutOf d')=covered_parts (layoutOf d):=by
  obtain ⟨hin,hafter⟩:=h.entry he
  have hcount : countAt d + 4 ≤ entryAt d ∧ checksumAt d + 4 ≤ countAt d:=by
    unfold entryAt dirsAt countAt checksumAt
    split <;> omega
  have hpart : ∀j,j<checksumAt d ∨ checksumAt d + 4 ≤ j ∧ j<entryAt d → InHeaders d j:=by
    intro j hj
    exact ⟨by omega,by simp only [Range.Holds];omega,by simp only [Range.Holds];omega⟩
  have hfront : ∀j<checksumAt d,d'[j]? = d[j]? := fun j hj=>hheaders j (hpart j (.inl hj))
  have hsame:=sameHeaders_of hfront
  have hchecksum : checksumAt d = peAt d + 88:=rfl
  have hentry : hasEntry d'=hasEntry d:=by
    have hdirs : field 4 d' (countAt d)=field 4 d (countAt d):=
      field_congr (fun j hle hlt=>hheaders j (hpart j (.inr ⟨by omega,by omega⟩))) (by decide)
    rw [hasEntry,hsame.countAt_eq,hdirs,hsame.dirs,hsame.table,hasEntry]
  have hraw:=hsame.rawSections_eq htable
  have hsections : (layoutOf d').sections=(layoutOf d).sections:=by
    simp only [layoutOf,hraw]
  have hfirst : d'.getD 0 0=d.getD 0 0 ∧ d'.getD 1 0=d.getD 1 0:=by
    simp [getD_eq_getElem?_getD,hfront 0 (by omega),hfront 1 (by omega)]
  have hsignature : slice d' (peAt d,4)=slice d (peAt d,4):=
    slice_congr fun j hj=>hfront j (by have:=hj.2;simp only at this;omega)
  refine ⟨?_,hentry.trans he,?_⟩
  · constructor
    · rw [hlength]
      exact h.length
    · rw [hfirst.1,hfirst.2]
      exact h.magic
    · rw [hsame.pe,hlength]
      exact h.pe
    · rw [hsame.pe,hsignature]
      exact h.signature
    · rw [hsame.table,hsame.opt,hlength]
      exact h.optional
    · rw [hsame.width]
      exact h.width
    · rw [hsame.countAt_eq,hlength]
      exact h.count
    · rw [hsame.headers,hsame.checksum,hlength]
      exact h.headers
    · rw [hentry,hsame.entry,hsame.headers,hsame.checksum]
      exact h.entry
    · rw [hsame.table,hsame.count,hlength]
      exact h.table
    · rw [hraw,hsame.headers,hlength]
      exact h.ranges
    · rw [hraw,hsame.headers]
      exact h.apart
  · rw [Accepts.covered_parts_eq he,Accepts.covered_parts_eq (hentry.trans he),hsame.checksum,
      hsame.entry,hsame.headers,hsections]

theorem hashed_congr (h:Accepts d) (he:hasEntry d=true) (hlength:d'.length=d.length)
    (hcovered:∀i,InHeaders d i ∨ InSection d i → d'[i]? = d[i]?)
    (htable:∀i,tableAt d ≤ i → i < tableAt d + sectionCount d * 40 → d'[i]? = d[i]?) :
    hash_layout d'=.ok (layoutOf d') ∧ hashed d' (layoutOf d')=hashed d (layoutOf d):=by
  obtain ⟨haccepts,-,hparts⟩:=accepts_congr h he hlength (fun i hi=>hcovered i (.inl hi)) htable
  refine ⟨hash_layout_ok_iff.mpr ⟨haccepts,rfl⟩,?_⟩
  rw [hashed,hparts,hashed]
  refine gather_congr fun r hr i hi=>hcovered i ?_
  rw [← mem_positions_parts h he]
  exact mem_positions.mpr ⟨r,hr,hi⟩

theorem hashed_of_fields_changed (h:Accepts d) (he:hasEntry d=true) (hlength:d'.length=d.length)
    (hother:∀i,¬Range.Holds (checksumAt d,4) i → ¬Range.Holds (entryAt d,8) i → d'[i]? = d[i]?) :
    hash_layout d'=.ok (layoutOf d') ∧ hashed d' (layoutOf d')=hashed d (layoutOf d):=by
  obtain ⟨hin,hafter⟩:=h.entry he
  have hbehind:=entry_before_table he
  have hbeyond : ∀i,entryAt d + 8 ≤ i → d'[i]? = d[i]? := by
    intro i hi
    exact hother i (by simp only [Range.Holds];omega) (by simp only [Range.Holds];omega)
  refine hashed_congr h he hlength (fun i hi=>?_) fun i hle _=>hbeyond i (by omega)
  rcases hi with ⟨-,hnotChecksum,hnotEntry⟩ | ⟨r,hr,hhold⟩
  · exact hother i hnotChecksum hnotEntry
  · have hstart:=(h.ranges r hr).1
    have hfrom:=hhold.1
    exact hbeyond i (by omega)

/-- Nor is the Certificate Table, when it lies behind the sections and the headers hold the
section table. -/
theorem hashed_of_certificates_changed (h:Accepts d) (he:hasEntry d=true)
    (hinside:TableInside d) (hbehind:sectionsEnd d≤(certificates d).1)
    (hlength:d'.length=d.length)
    (hother:∀i,¬Range.Holds (checksumAt d,4) i → ¬Range.Holds (entryAt d,8) i →
      ¬(certificates d).Holds i → d'[i]? = d[i]?) :
    hash_layout d'=.ok (layoutOf d') ∧ hashed d' (layoutOf d')=hashed d (layoutOf d):=by
  obtain ⟨hheaders,hends⟩:=sectionsEnd_le_iff.mp hbehind
  have hin : ∀i,InHeaders d i → d'[i]? = d[i]? := by
    rintro i ⟨hlt,hnotChecksum,hnotEntry⟩
    exact hother i hnotChecksum hnotEntry fun hhold=>by
      have hfrom:=hhold.1
      omega
  refine hashed_congr h he hlength (fun i hi=>?_)
    fun i hle hlt=>hin i (inHeaders_of_table h he hinside hle hlt)
  rcases hi with hi | ⟨r,hr,hhold⟩
  · exact hin i hi
  · have hstart:=(h.ranges r hr).1
    have hend:=hends r hr
    obtain ⟨hfrom,hto⟩:=hhold
    obtain ⟨hentryIn,hafter⟩:=h.entry he
    exact hother i (by simp only [Range.Holds];omega) (by simp only [Range.Holds];omega)
      fun hcert=>by
        have hfrom':=hcert.1
        omega

end AutoRefirst.Authenticode
