import AutoRefirst.NestedPe

/-!
# The extent of a nested ELF image

What the headers of an ELF image declare, read off its bytes, and that an image which passes the
validator declares nothing that ends behind its extent.
-/

namespace AutoRefirst.NestedExecutable
open List

open Probe ByteRanges Spans

def elfHeaderOf (d : Bytes) : ElfHeader :=
  let ident := slice d (0,16)
  let is_64 := decide (ident.getD 4 0 = 2)
  let le := decide (ident.getD 5 0 = 1)
  let w := if is_64 then 8 else 4
  let machine := numberAt d le 18 2
  let phoff := numberAt d le (if is_64 then 32 else 28) w
  let phentsize := numberAt d le (if is_64 then 54 else 42) 2
  let phnum := numberAt d le (if is_64 then 56 else 44) 2
  { out:={ elfBase with
      is_64,endianness := if le then "little" else "big",machine,architecture:=elf_arch machine }
    le,type:=numberAt d le 16 2,entry:=numberAt d le 24 w,phoff
    shoff:=numberAt d le (if is_64 then 40 else 32) w
    ehsize:=numberAt d le (if is_64 then 52 else 40) 2,phentsize,phnum
    shentsize:=numberAt d le (if is_64 then 58 else 46) 2
    shnum:=numberAt d le (if is_64 then 60 else 48) 2
    shstrndx:=numberAt d le (if is_64 then 62 else 50) 2,phend:=phoff+phnum*phentsize }

def segmentTypeOf (d : Bytes) (h : ElfHeader) (i : ℕ) : ℕ :=
  numberAt d h.le (h.phoff+i*h.phentsize) 4

def segmentOf (d : Bytes) (h : ElfHeader) (i : ℕ) : ElfLoad :=
  let q := h.phoff+i*h.phentsize
  let w := if h.out.is_64 then 8 else 4
  { off:=numberAt d h.le (q + if h.out.is_64 then 8 else 4) w
    file_size:=numberAt d h.le (q + if h.out.is_64 then 32 else 16) w
    vaddr:=numberAt d h.le (q + if h.out.is_64 then 16 else 8) w
    mem_size:=numberAt d h.le (q + if h.out.is_64 then 40 else 20) w
    flags:=numberAt d h.le (q + if h.out.is_64 then 4 else 24) 4 }

def loadsOf (d : Bytes) (h : ElfHeader) : List ElfLoad :=
  ((List.range h.phnum).filter fun i => segmentTypeOf d h i = 1).map (segmentOf d h)

def elfSectionOf (d : Bytes) (h : ElfHeader) (i : ℕ) : ElfSectionRaw :=
  let q := h.shoff+i*h.shentsize
  let w := if h.out.is_64 then 8 else 4
  { type:=numberAt d h.le (q+4) 4,flags:=numberAt d h.le (q+8) w
    addr:=numberAt d h.le (q + if h.out.is_64 then 16 else 12) w
    off:=numberAt d h.le (q + if h.out.is_64 then 24 else 16) w
    size:=numberAt d h.le (q + if h.out.is_64 then 32 else 20) w
    link:=numberAt d h.le (q + if h.out.is_64 then 40 else 24) 4
    align:=numberAt d h.le (q + if h.out.is_64 then 48 else 32) w
    entsize:=numberAt d h.le (q + if h.out.is_64 then 56 else 36) w }

def elfSectionsOf (d : Bytes) (h : ElfHeader) : List ElfSectionRaw :=
  if h.shoff = 0 then [] else (List.range h.shnum).map (elfSectionOf d h)

def segmentRange (l : ElfLoad) : List Range := unlessEmpty (l.off,l.file_size)

def sectionRange (s : ElfSectionRaw) : List Range := if s.FileBacked then [(s.off,s.size)] else []

def sectionTableOf (h : ElfHeader) : List Range :=
  if h.shoff = 0 then [] else [(h.shoff,h.shnum*h.shentsize)]

/-- The ranges of the file that an ELF image declares: the ELF header, the program headers, the
section headers, the segments, and the sections that are in the file. -/
def elfDeclared (d : Bytes) : List Range :=
  let h := elfHeaderOf d
  [(0,h.ehsize),(h.phoff,h.phnum*h.phentsize)] ++ sectionTableOf h ++
  (List.range h.phnum).flatMap (fun i => segmentRange (segmentOf d h i)) ++
  (elfSectionsOf d h).flatMap sectionRange

variable {d : Bytes} {h : ElfHeader} {max_child_bytes : ℕ}

theorem elf_header_spec : Ensures elf_header d fun h e=>h = elfHeaderOf d ∧
    h.phoff + h.phnum*h.phentsize<2^64 ∧ h.phend=h.phoff+h.phnum*h.phentsize ∧
      h.phentsize = (if h.out.is_64 then 56 else 32) ∧ h.ehsize<2^64 ∧
      e ≤ max h.ehsize h.phend:=by
  simp only [elf_header,ensures_bind,ensures_within,ensures_bytesOf,ensures_rejectIf,
    ensures_number,ensures_closes,ensures_pure]
  intro _ _ _ _ _ _ hsize _ hentry hfits _ _
  refine ⟨rfl,hfits,trivial,by omega,?_,?_⟩
  · rw [not_not.mp hsize]
    split <;> decide
  · simp only [not_not] at hsize
    simp only [hsize,Nat.max_le]
    split_ifs <;> omega

theorem elf_segment_spec {s:ElfSegments} {i:ℕ} :
    Ensures (elf_segment h max_child_bytes s i) d fun t e=>
      t.loads = s.loads++(if segmentTypeOf d h i=1 then [segmentOf d h i] else []) ∧
      s.exact_end≤t.exact_end ∧
      (∀r∈segmentRange (segmentOf d h i),EndsBy t.exact_end r) ∧
      e ≤ max t.exact_end (h.phoff+i*h.phentsize + if h.out.is_64 then 56 else 32):=by
  simp only [elf_segment,segment_end,segmentRange,forall_mem_unlessEmpty,ensures_bind,ensures_rejectIf,
    ensures_number,ensures_closes,ensures_pure,ensures_ite]
  intro _
  constructor
  · intro hempty
    constructor
    · intro hload _ _
      refine ⟨?_,Nat.le_refl _,fun hne=>absurd hempty hne,by split_ifs <;> omega⟩
      rw [if_pos (show segmentTypeOf d h i=1 from hload)]
      rfl
    · intro hother
      refine ⟨?_,Nat.le_refl _,fun hne=>absurd hempty hne,by split_ifs <;> omega⟩
      simp [segmentTypeOf,hother]
  · intro _ hfits _ _
    have hends : ∀x,(segmentOf d h i).file_size≠0 → EndsBy (max x
        ((segmentOf d h i).off+(segmentOf d h i).file_size))
        ((segmentOf d h i).off,(segmentOf d h i).file_size):=
      fun x _=>⟨Nat.le_max_right _ _,hfits⟩
    constructor
    · intro hload _ _
      refine ⟨?_,Nat.le_max_left _ _,hends _,by split_ifs <;> omega⟩
      rw [if_pos (show segmentTypeOf d h i=1 from hload)]
      rfl
    · intro hother
      refine ⟨?_,Nat.le_max_left _ _,hends _,by split_ifs <;> omega⟩
      simp [segmentTypeOf,hother]

theorem elf_segments_spec (hsize:h.phentsize = if h.out.is_64 then 56 else 32)
    (hend:h.phend=h.phoff+h.phnum*h.phentsize) :
    Ensures (elf_segments h max_child_bytes) d fun t e=>t.loads = loadsOf d h ∧
      max h.ehsize h.phend≤t.exact_end ∧
      (∀i∈List.range h.phnum,∀r∈segmentRange (segmentOf d h i),EndsBy t.exact_end r) ∧
      overlaps (fileRanges t.loads)=false ∧ e≤t.exact_end:=by
  simp only [elf_segments,ensures_bind,ensures_rejectIf,ensures_pure]
  refine (ensures_each (fun done t=>
    t.loads = (done.filter fun i=>segmentTypeOf d h i=1).map (segmentOf d h) ∧
    max h.ehsize h.phend≤t.exact_end ∧
    ∀i∈done,∀r∈segmentRange (segmentOf d h i),EndsBy t.exact_end r)
    (·.exact_end) ?_ [] ⟨rfl,Nat.le_refl _,by simp⟩).mono ?_
  · intro done i t hi ht
    obtain ⟨hloads,hheaders,hends⟩:=ht
    refine elf_segment_spec.mono fun u e hu=>?_
    obtain ⟨hcons,hmono,hnew,he⟩:=hu
    have hindex : i+1≤h.phnum:=mem_range.mp hi
    have hrow : (i+1)*h.phentsize≤h.phnum*h.phentsize:=Nat.mul_le_mul_right _ hindex
    rw [← hsize] at he
    rw [Nat.succ_mul] at hrow
    refine ⟨⟨?_,Nat.le_trans hheaders hmono,?_⟩,hmono,by omega⟩
    · rw [hcons,hloads,filter_append,map_append]
      congr 1
      by_cases hload : segmentTypeOf d h i=1 <;> simp [hload]
    · intro j hj r hr
      rcases mem_append.mp hj with hold | hlast
      · exact (hends j hold r hr).mono hmono
      · rw [mem_singleton.mp hlast] at hr
        exact hnew r hr
  · intro t e ht _ _ hover _ _
    obtain ⟨⟨hloads,hheaders,hends⟩,-,he⟩:=ht
    refine ⟨by simpa [loadsOf] using hloads,hheaders,by simpa using hends,?_,?_⟩
    · exact Bool.eq_false_iff.mpr fun htrue=>hover (.inl htrue)
    · simpa using he

theorem elf_section_spec {s:ElfSections} {i:ℕ} :
    Ensures (elf_section h max_child_bytes s i) d fun t e=>
      t.secs = s.secs++[elfSectionOf d h i] ∧ s.exact_end≤t.exact_end ∧
      (∀r∈sectionRange (elfSectionOf d h i),EndsBy t.exact_end r) ∧
      e ≤ max t.exact_end (h.shoff+i*h.shentsize + if h.out.is_64 then 64 else 40):=by
  simp only [elf_section,ensures_bind,ensures_rejectIf,ensures_number,ensures_closes,
    ensures_pure,ensures_ite]
  intro _ _ _
  constructor
  · intro hbacked hfits _ _
    refine ⟨rfl,Nat.le_max_left _ _,?_,by split_ifs <;> omega⟩
    rw [sectionRange,if_pos (show (elfSectionOf d h i).FileBacked from hbacked)]
    simp only [mem_singleton,forall_eq]
    exact ⟨Nat.le_max_right _ _,hfits⟩
  · intro hbacked
    refine ⟨rfl,Nat.le_refl _,?_,by split_ifs <;> omega⟩
    rw [sectionRange,if_neg (show ¬(elfSectionOf d h i).FileBacked from hbacked)]
    simp

theorem elf_sections_spec {s:ElfSegments} : Ensures (elf_sections h max_child_bytes s) d
    fun t e=>t.secs = elfSectionsOf d h ∧ s.exact_end≤t.exact_end ∧
      (∀r∈sectionTableOf h,EndsBy t.exact_end r) ∧
      (∀x∈t.secs,∀r∈sectionRange x,EndsBy t.exact_end r) ∧
      overlaps (sectionRanges t.secs)=false ∧ e≤t.exact_end:=by
  simp only [elf_sections,elfSectionsOf,sectionTableOf,ensures_bind,ensures_ite,
    ensures_rejectIf,ensures_closes,ensures_pure]
  constructor
  · intro hnone _
    simp [hnone,overlaps,sectionRanges,neighboursOverlap]
  · intro hsome _ hsize hfits _ _
    rw [if_neg hsome,if_neg hsome]
    refine (ensures_each (fun done t=>t.secs=done.map (elfSectionOf d h) ∧
      max s.exact_end (h.shoff+h.shnum*h.shentsize)≤t.exact_end ∧
      ∀x∈t.secs,∀r∈sectionRange x,EndsBy t.exact_end r)
      (·.exact_end) ?_ [] ⟨rfl,Nat.le_refl _,by simp⟩).mono ?_
    · intro done i t hi ht
      obtain ⟨hsecs,hheaders,hends⟩:=ht
      refine elf_section_spec.mono fun u e hu=>?_
      obtain ⟨hcons,hmono,hnew,he⟩:=hu
      have hindex : i+1≤h.shnum:=mem_range.mp hi
      have hrow : (i+1)*h.shentsize≤h.shnum*h.shentsize:=Nat.mul_le_mul_right _ hindex
      rw [← not_not.mp hsize] at he
      rw [Nat.succ_mul] at hrow
      refine ⟨⟨by simp [hcons,hsecs],Nat.le_trans hheaders hmono,?_⟩,hmono,?_⟩
      · rw [hcons]
        intro x hx r hr
        rcases mem_append.mp hx with hold | hlast
        · exact (hends x hold r hr).mono hmono
        · rw [mem_singleton.mp hlast] at hr
          exact hnew r hr
      · omega
    · intro t e ht hover _ _
      obtain ⟨⟨hsecs,hheaders,hends⟩,-,he⟩:=ht
      refine ⟨by simpa using hsecs,by omega,?_,hends,Bool.eq_false_iff.mpr hover,by omega⟩
      simp only [mem_singleton,forall_eq]
      exact ⟨by dsimp only;omega,hfits⟩

/-- Everything that an accepted image declares ends by its extent, the text behind the extent was
not needed, and neither two loaded segments nor two sections share bytes. -/
theorem validate_elf_spec {sha256:Bytes→Bytes} :
    Ensures (validate_elf sha256 max_child_bytes) d fun info e=>
      info.child_sha256=sha256 (d.take info.exact_size) ∧ info.exact_size≤d.length ∧
      info.exact_size ≤ max_child_bytes ∧ info.validation_state=.validatedExact ∧
      (∀r∈elfDeclared d,EndsBy info.exact_size r) ∧
      overlaps (fileRanges (loadsOf d (elfHeaderOf d)))=false ∧
      overlaps (sectionRanges (elfSectionsOf d (elfHeaderOf d)))=false ∧
      e ≤ info.exact_size:=by
  simp only [validate_elf,ensures_bind]
  refine elf_header_spec.mono fun h e₁ hh=>?_
  obtain ⟨rfl,hfits,hend,hsize,hehsize,he₁⟩:=hh
  refine (elf_segments_spec hsize hend).mono fun s e₂ hs=>?_
  obtain ⟨hloads,hheaders,hsegments,hfile,he₂⟩:=hs
  refine elf_sections_spec.mono fun t e₃ ht=>?_
  obtain ⟨hsecs,hmono,htable,hsections,hraw,he₃⟩:=ht
  refine exactly_spec.mono fun info e₄ hinfo=>?_
  obtain ⟨hexact,hsha,hin,hlimit,hstate,he₄⟩:=hinfo
  rw [hexact]
  rw [hloads] at hfile
  rw [hsecs] at hsections hraw
  refine ⟨hsha,hin,hlimit,hstate,?_,hfile,hraw,by omega⟩
  simp only [elfDeclared,forall_mem_append,forall_mem_cons]
  refine ⟨⟨⟨⟨?_,?_,by simp⟩,htable⟩,?_⟩,?_⟩
  · constructor <;> dsimp only <;> omega
  · constructor <;> dsimp only <;> omega
  · intro r hr
    obtain ⟨i,hi,hri⟩:=mem_flatMap.mp hr
    exact (hsegments i hi r hri).mono hmono
  · intro r hr
    obtain ⟨x,hx,hrx⟩:=mem_flatMap.mp hr
    exact hsections x hx r hrx

theorem elf_header_stable : Stable elf_header:=by
  refine .bind (.within _ _) fun _ => .bind (.bytesOf _) fun _ => .reject fun _=>?_
  refine .reject fun _ => .bind (.within _ _) fun _=>?_
  iterate 6 refine .field fun _ => .field fun _=>?_
  refine .reject fun _ => .reject fun _=>?_
  refine .reject fun _ => .reject fun _=>?_
  refine .reject fun _ => .bind (.closes _ _ _) fun _=>?_
  exact .reject fun _ => .pure _

theorem elf_segment_stable (s:ElfSegments) (i:ℕ) :
    Stable (elf_segment h max_child_bytes s i):=by
  iterate 3 refine .field fun _ => .field fun _=>?_
  refine .field fun _ => .reject fun _=>?_
  refine .bind (.ite (.pure _) ?_) fun _ => .ite ?_ (.pure _)
  · exact .bind (.closes _ _ _) fun _ => .reject fun _ => .pure _
  · exact .reject fun _ => .reject fun _ => .pure _

theorem elf_segments_stable : Stable (elf_segments h max_child_bytes):=by
  refine .bind (.each elf_segment_stable _) fun _ => .reject fun _=>?_
  refine .reject fun _ => .reject fun _=>?_
  exact .reject fun _ => .reject fun _ => .pure _

theorem elf_section_stable (s:ElfSections) (i:ℕ) :
    Stable (elf_section h max_child_bytes s i):=by
  iterate 4 refine .field fun _ => .field fun _=>?_
  refine .reject fun _ => .reject fun _=>?_
  refine .reject fun _ => .ite ?_ (.pure _)
  exact .bind (.closes _ _ _) fun _ => .reject fun _ => .pure _

theorem elf_sections_stable (s:ElfSegments) : Stable (elf_sections h max_child_bytes s):=by
  refine .ite (.reject fun _ => .pure _) ?_
  refine .reject fun _ => .reject fun _=>?_
  refine .bind (.closes _ _ _) fun _ => .reject fun _=>?_
  refine .bind (.each elf_section_stable _) fun _ => .reject fun _=>?_
  exact .reject fun _ => .reject fun _ => .pure _

theorem validate_elf_stable (sha256:Bytes→Bytes) :
    Stable (validate_elf sha256 max_child_bytes):=by
  refine .bind elf_header_stable fun h => .bind elf_segments_stable fun s=>?_
  exact .bind (elf_sections_stable s) fun _=>exactly_stable _ _ _ _ _

end AutoRefirst.NestedExecutable

/-!
## Nested executables are self-contained

An image that is validated with an extent is validated with it whatever follows, no shorter text
is validated, and all that the image declares is in the extent.
-/

namespace AutoRefirst.NestedExecutable
open List

open Probe ByteRanges Spans

def declared (format : String) (d : Bytes) : List Range :=
  if format = "PE" then peDeclared d else elfDeclared d

/-- The starts and the ends of what must not overlap: the raw data of the sections of a PE image;
the loaded segments of an ELF image, and its sections. -/
def exclusive (format : String) (d : Bytes) : List (List (ℕ×ℕ)) :=
  if format = "PE" then [rawRanges (peSectionsOf d (optionalOf d (ntOf d)))]
  else [fileRanges (loadsOf d (elfHeaderOf d)),sectionRanges (elfSectionsOf d (elfHeaderOf d))]

def validator (sha256 : Bytes→Bytes) (format : String) (max_child_bytes : ℕ) :
    Probe Refusal NestedExecutableInfo :=
  if format = "PE" then validate_pe sha256 max_child_bytes else validate_elf sha256 max_child_bytes

variable {sha256 : Bytes→Bytes} {parent d : Bytes} {parent_offset max_child_bytes : ℕ}
variable {format : String}

theorem le_of_mem_rawRanges {h:OptionalHeader} {a:ℕ×ℕ}
    (ha:a∈rawRanges (peSectionsOf d h)) : a.1≤a.2:=by
  obtain ⟨s,hs,rfl⟩:=mem_map.mp ha
  obtain ⟨hmem,hraw⟩:=mem_filter.mp hs
  obtain ⟨i,-,rfl⟩:=mem_map.mp hmem
  have hsize : (peSectionOf d h i).raw_size≠0:=by simpa using hraw
  have hend : (peSectionOf d h i).raw_end =
      (peSectionOf d h i).raw_offset + (peSectionOf d h i).raw_size:=if_neg hsize
  dsimp only
  omega

theorem validator_stable : Stable (validator sha256 format max_child_bytes):=by
  rw [validator]
  split
  · exact validate_pe_stable sha256
  · exact validate_elf_stable sha256

theorem validator_spec : Ensures (validator sha256 format max_child_bytes) d fun info e=>
    info.child_sha256=sha256 (d.take info.exact_size) ∧ info.exact_size≤d.length ∧
    info.exact_size ≤ max_child_bytes ∧ info.validation_state=.validatedExact ∧
    (∀r∈declared format d,EndsBy info.exact_size r) ∧
    (∀v∈exclusive format d,v.Pairwise Apart) ∧ e ≤ info.exact_size:=by
  rw [validator,declared,exclusive]
  split
  · refine validate_pe_spec.mono fun info e hinfo=>?_
    obtain ⟨hsha,hin,hlimit,hstate,hends,hraw,he⟩:=hinfo
    refine ⟨hsha,hin,hlimit,hstate,hends,?_,he⟩
    simp only [mem_singleton,forall_eq]
    exact pairwise_apart (fun a=>le_of_mem_rawRanges) hraw
  · refine validate_elf_spec.mono fun info e hinfo=>?_
    obtain ⟨hsha,hin,hlimit,hstate,hends,hfile,hraw,he⟩:=hinfo
    refine ⟨hsha,hin,hlimit,hstate,hends,?_,he⟩
    simp only [forall_mem_cons]
    refine ⟨pairwise_apart ?_ hfile,pairwise_apart ?_ hraw,by simp⟩
    · intro a ha
      obtain ⟨l,-,rfl⟩:=mem_map.mp ha
      exact Nat.le_add_right _ _
    · intro a ha
      obtain ⟨s,-,rfl⟩:=mem_map.mp ha
      exact Nat.le_add_right _ _

variable {out : NestedExecutableInfo} {e : ℕ}

theorem validate_of_accepted (hin:parent_offset<parent.length) (hmax:max_child_bytes≠0)
    (hformat:format = "PE" ∨ format = "ELF")
    (h:validator sha256 format max_child_bytes (parent.drop parent_offset)=.ok (out,e)) :
    validate_nested_executable sha256 parent parent_offset format max_child_bytes =
      {out with parent_offset}:=by
  rw [validate_nested_executable,if_neg (by omega),if_neg hmax]
  rw [validator] at h
  by_cases hpe : format = "PE"
  · rw [if_pos hpe] at h ⊢
    simp only [report,h]
  · rw [if_neg hpe] at h ⊢
    rw [if_pos (hformat.resolve_left hpe)]
    simp only [report,h]

theorem accepted_of_validated (h:(validate_nested_executable sha256 parent parent_offset format
      max_child_bytes).validation_state = .validatedExact) :
    parent_offset<parent.length ∧ max_child_bytes≠0 ∧ (format = "PE" ∨ format = "ELF") ∧
      ∃out e,validator sha256 format max_child_bytes (parent.drop parent_offset) =
        .ok (out,e):=by
  have hreport : ∀m : Probe Refusal NestedExecutableInfo,
      (report m (parent.drop parent_offset) parent_offset).validation_state=.validatedExact →
        ∃out e,m (parent.drop parent_offset)=.ok (out,e):=by
    intro m hm
    cases hrun : m (parent.drop parent_offset) with
    | error x=>simp [report,hrun,Refusal.info] at hm
    | ok r=>exact ⟨r.1,r.2,rfl⟩
  rw [validate_nested_executable] at h
  split_ifs at h with hin hmax hpe helf
  · simp [Refusal.info] at h
  · simp [Refusal.info] at h
  · refine ⟨by omega,hmax,.inl hpe,?_⟩
    rw [validator,if_pos hpe]
    exact hreport _ h
  · refine ⟨by omega,hmax,.inr helf,?_⟩
    rw [validator,if_neg hpe]
    exact hreport _ h
  · simp [Refusal.info] at h

theorem accepted_of_take (h:validator sha256 format max_child_bytes d=.ok (out,e)) (d':Bytes)
    (hlen:out.exact_size≤d'.length) (htake:d'.take out.exact_size=d.take out.exact_size) :
    validator sha256 format max_child_bytes d'=.ok (out,e):=by
  obtain ⟨-,hin,-,-,-,-,he⟩:=validator_spec h
  exact validator_stable h (he.trans hin) (he.trans hlen) (take_of_take htake he)

theorem exact_size_pos (h:validator sha256 format max_child_bytes d=.ok (out,e)) :
    0<out.exact_size:=by
  refine Nat.pos_of_ne_zero fun hzero=>?_
  have hnil:=accepted_of_take h [] (by simp [hzero]) (by simp [hzero])
  rw [validator] at hnil
  split at hnil <;> cases hnil

/-- A validated image is inside its parent and its limit. Its bytes give the same result alone
and before any text, and none of their proper prefixes is validated. Every range it declares is
inside it, with an end of 64 bits, and the raw data of its sections and its loaded segments do not
overlap. -/
theorem validated_self_contained (sha256 : Bytes→Bytes) (parent : Bytes)
    (parent_offset max_child_bytes : ℕ) (format : String)
    (h : (validate_nested_executable sha256 parent parent_offset format
      max_child_bytes).validation_state = .validatedExact) :
    let info := validate_nested_executable sha256 parent parent_offset format max_child_bytes
    let child:=slice parent (parent_offset,info.exact_size)
    info.exact_size ≤ max_child_bytes ∧ parent_offset+info.exact_size≤parent.length ∧
    info.child_sha256=sha256 child ∧
    validate_nested_executable sha256 child 0 format max_child_bytes =
      {info with parent_offset:=0} ∧
    (∀t,validate_nested_executable sha256 (child++t) 0 format max_child_bytes =
      {info with parent_offset:=0}) ∧
    (∀m < info.exact_size,(validate_nested_executable sha256 (child.take m) 0 format
      max_child_bytes).validation_state ≠ .validatedExact) ∧
    (∀r∈declared format child,EndsBy info.exact_size r) ∧
    ∀v∈exclusive format child,v.Pairwise Apart:=by
  obtain ⟨hoff,hmax,hformat,out,e,hrun⟩:=accepted_of_validated h
  rw [validate_of_accepted hoff hmax hformat hrun]
  dsimp only
  obtain ⟨hsha,hin,hlimit,-⟩:=validator_spec hrun
  have hpos:=exact_size_pos hrun
  have hdrop : (parent.drop parent_offset).length=parent.length-parent_offset:=length_drop
  have hlen : (slice parent (parent_offset,out.exact_size)).length=out.exact_size:=
    length_slice (by dsimp only;omega)
  have hwith : ∀t,validator sha256 format max_child_bytes
      (slice parent (parent_offset,out.exact_size)++t)=.ok (out,e):=by
    intro t
    refine accepted_of_take hrun _ (by simp [hlen]) ?_
    rw [take_append_of_le_length (Nat.le_of_eq hlen.symm),slice,take_take, Nat.min_self]
  have halone : validator sha256 format max_child_bytes
      (slice parent (parent_offset,out.exact_size))=.ok (out,e):=by
    simpa using hwith []
  obtain ⟨-,-,-,-,hends,hapart,-⟩:=validator_spec halone
  refine ⟨hlimit,by omega,hsha,?_,fun t=>?_,fun m hm hprefix=>?_,hends,hapart⟩
  · exact validate_of_accepted (by omega) hmax hformat halone
  · exact validate_of_accepted (by simp only [length_append];omega) hmax hformat (hwith t)
  · -- what a prefix is validated with, the whole would be validated with as well
    obtain ⟨-,-,-,out',e',hshort⟩:=accepted_of_validated hprefix
    rw [drop_zero] at hshort
    obtain ⟨-,hin',-⟩:=validator_spec hshort
    rw [length_take,hlen] at hin'
    have hlong:=accepted_of_take hshort (slice parent (parent_offset,out.exact_size))
      (by omega) (by rw [take_take,Nat.min_eq_left (by omega)])
    rw [halone] at hlong
    obtain ⟨rfl,-⟩:=Prod.mk.inj (Except.ok.inj hlong)
    omega

/-- A header, one program header, and a segment of these 84 bytes. -/
def smallElf : Bytes :=
  [127,69,76,70,1,1,1,0,0,0,0,0,0,0,0,0,3,0,3,0,1,
    0,0,0,0,0,0,0,52,0,0,0,0,0,0,0,0,0,0,0,52,0,
    32,0,1,0,0,0,0,0,0,0,1,0,0,0,0,0,0,0,0,0,0,
    0,0,0,0,0,84,0,0,0,84,0,0,0,5,0,0,0,0,0,0,0]

theorem smallElf_self_contained :
    (validate_nested_executable id (smallElf++bytes "behind") 0 "ELF" 100).exact_size = 84:=by
  have hvalid : (validate_nested_executable id smallElf 0 "ELF" 100).validation_state =
      .validatedExact:=by decide +kernel
  have hsize : (validate_nested_executable id smallElf 0 "ELF" 100).exact_size=84:=by
    decide +kernel
  have h:=validated_self_contained id smallElf 0 100 "ELF" hvalid
  simp only [hsize] at h
  exact (congrArg NestedExecutableInfo.exact_size (h.2.2.2.2.1 (bytes "behind"))).trans hsize

end AutoRefirst.NestedExecutable
