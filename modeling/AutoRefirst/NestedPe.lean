import AutoRefirst.NestedExecutable

/-!
# The extent of a nested PE image

What the headers of a PE image declare, read off its bytes, and that an image which passes the
validator declares nothing that ends behind its extent.
-/

namespace AutoRefirst.NestedExecutable
open List

open Probe ByteRanges Spans

def ntOf (d : Bytes) : NtHeader :=
  let lfanew := numberAt d true 0x3c 4
  { lfanew
    machine:=numberAt d true (lfanew+4) 2,nsec:=numberAt d true (lfanew+6) 2
    ptr_sym:=numberAt d true (lfanew+12) 4,num_sym:=numberAt d true (lfanew+16) 4
    opt_size:=numberAt d true (lfanew+20) 2,characteristics:=numberAt d true (lfanew+22) 2 }

def optionalOf (d : Bytes) (nt : NtHeader) : OptionalHeader :=
  let oo := nt.lfanew+24
  let is_64 := decide (numberAt d true oo 2 = 0x20b)
  { toNtHeader:=nt,is_64,opt_end:=oo+nt.opt_size
    dd_start:=oo + if is_64 then 112 else 96,entry:=numberAt d true (oo+16) 4
    section_align:=numberAt d true (oo+32) 4,file_align:=numberAt d true (oo+36) 4
    size_image:=numberAt d true (oo+56) 4,size_headers:=numberAt d true (oo+60) 4
    num_dirs:=numberAt d true (oo + if is_64 then 108 else 92) 4 }

def peSectionOf (d : Bytes) (h : OptionalHeader) (i : ℕ) : PeSectionRaw :=
  let sh := h.opt_end+i*40
  let vsize := numberAt d true (sh+8) 4
  let rva := numberAt d true (sh+12) 4
  let raw_size := numberAt d true (sh+16) 4
  let raw_offset := numberAt d true (sh+20) 4
  { rva,vsize,raw_offset,raw_size
    characteristics:=numberAt d true (sh+36) 4
    raw_end := if raw_size = 0 then 0 else raw_offset+raw_size
    virtual_end := if max vsize raw_size = 0 then 0 else rva + max vsize raw_size }

def peSectionsOf (d : Bytes) (h : OptionalHeader) : List PeSectionRaw :=
  (List.range h.nsec).map (peSectionOf d h)

def unlessEmpty (r : Range) : List Range := if r.2 = 0 then [] else [r]

def rawRange (s : PeSectionRaw) : List Range := unlessEmpty (s.raw_offset,s.raw_size)

def dirOf (d : Bytes) (h : OptionalHeader) (idx : ℕ) : ℕ×ℕ :=
  if idx ≥ h.num_dirs then (0,0)
  else (numberAt d true (h.dd_start+idx*8) 4,numberAt d true (h.dd_start+idx*8+4) 4)

def symbolsOf (d : Bytes) (h : OptionalHeader) : List Range :=
  if h.ptr_sym = 0 then []
  else [(h.ptr_sym,h.num_sym*18),
    (h.ptr_sym+h.num_sym*18,numberAt d true (h.ptr_sym+h.num_sym*18) 4)]

/-- What a record of the debug directory points to. -/
def debugDataOf (d : Bytes) (debug_off i : ℕ) : Range :=
  (numberAt d true (debug_off+i*28+24) 4,numberAt d true (debug_off+i*28+16) 4)

/-- The debug directory and the data its records point to. -/
def debugOf (d : Bytes) (h : OptionalHeader) : List Range :=
  if (dirOf d h 6).2 = 0 then []
  else
    match map_rva h (peSectionsOf d h) (dirOf d h 6).1 (dirOf d h 6).2 with
    | none => []
    | some debug_off => (debug_off,(dirOf d h 6).2) ::
        (List.range ((dirOf d h 6).2/28)).flatMap fun i => unlessEmpty (debugDataOf d debug_off i)

/-- The ranges of the file that a PE image declares: the DOS header, the COFF header, the optional
header, the section table, all headers, the raw data of the sections, the certificate table,
the symbols with their names, and the debug directory with its data. -/
def peDeclared (d : Bytes) : List Range :=
  let h := optionalOf d (ntOf d)
  [(0,0x40),(h.lfanew,24),(h.lfanew+24,h.opt_size),(h.opt_end,h.nsec*40),
    (0,h.size_headers)] ++
  (peSectionsOf d h).flatMap rawRange ++
  unlessEmpty (dirOf d h 4) ++ symbolsOf d h ++ debugOf d h

variable {d : Bytes} {h : OptionalHeader} {max_child_bytes x : ℕ}

/-- A range ends inside the first `x` bytes, and its end is a number of 64 bits. -/
def EndsBy (x : ℕ) (r : Range) : Prop := r.1+r.2≤x ∧ r.1+r.2<2^64

theorem EndsBy.mono {r:Range} {y:ℕ} (hr:EndsBy x r) (hxy:x≤y) : EndsBy y r:=
  ⟨Nat.le_trans hr.1 hxy,hr.2⟩

theorem forall_mem_unlessEmpty {r:Range} {P:Range→Prop} :
    (∀s∈unlessEmpty r,P s) ↔ (r.2≠0 → P r):=by
  by_cases hr : r.2=0 <;> simp [unlessEmpty,hr]

theorem nt_header_spec : Ensures nt_header d fun nt e=>nt = ntOf d ∧
    0x40≤nt.lfanew ∧ nt.lfanew+24<2^64 ∧ e≤nt.lfanew+24:=by
  simp only [nt_header,ensures_bind,ensures_within,ensures_bytesOf,ensures_rejectIf,
    ensures_number,ensures_closes,ensures_pure]
  intro _ _ hlfanew hfits _ _ _ _ _
  refine ⟨rfl,by omega,hfits,?_⟩
  simp only [Nat.max_le]
  omega

theorem optional_header_spec {nt:NtHeader} : Ensures (optional_header nt) d fun h e=>
    h=optionalOf d nt ∧ h.opt_end<2^64 ∧ h.dd_start+h.num_dirs*8≤h.opt_end ∧
      h.opt_end + h.nsec*40<2^64 ∧ h.opt_end+h.nsec*40≤h.size_headers ∧
      h.size_headers<2^64 ∧ e≤h.size_headers:=by
  simp only [optional_header,ensures_bind,ensures_within,ensures_rejectIf,
    ensures_number,ensures_closes,ensures_pure]
  intro hopt hin hmagic hmin _ _ _ _ _ _ hheaders hdirs htable htablein hcovers
  have hsize:=numberAt_lt d true (nt.lfanew+24+60) 4
  have hfixed : (nt.lfanew+24 +
        if decide (numberAt d true (nt.lfanew+24) 2=523) = true then 112 else 96) ≤
      nt.lfanew + 24 + nt.opt_size:=by
    omega
  refine ⟨rfl,hopt,?_,htable,by omega,by omega,?_⟩
  · omega
  · simp only [Nat.max_le]
    split_ifs at hfixed ⊢ <;> omega

theorem pe_section_spec {s:PeSections} {i:ℕ} : Ensures (pe_section h max_child_bytes s i) d
    fun t e=>t.sections=s.sections++[peSectionOf d h i] ∧ s.exact_end≤t.exact_end ∧
      (∀r∈rawRange (peSectionOf d h i),EndsBy t.exact_end r) ∧
      e ≤ max t.exact_end (h.opt_end+i*40+40):=by
  simp only [pe_section,ensures_bind,ensures_rejectIf,ensures_number,ensures_closes,
    ensures_pure,ensures_ite]
  intro _ _
  constructor
  · intro hempty
    refine ⟨?_,Nat.le_refl _,?_,?_⟩
    · simp [peSectionOf,hempty]
    · simp [rawRange,unlessEmpty,peSectionOf,hempty]
    · simp only [Nat.max_le]
      omega
  · intro hraw _ hoffset hfits _ _
    refine ⟨?_,Nat.le_max_left _ _,?_,?_⟩
    · simp [peSectionOf,hraw]
    · rw [rawRange,forall_mem_unlessEmpty]
      exact fun _=>⟨Nat.le_max_right _ _,hfits⟩
    · simp only [Nat.max_le]
      omega

theorem pe_sections_spec (hcount:h.opt_end+h.nsec*40≤h.size_headers) :
    Ensures (pe_sections h max_child_bytes) d fun t e=>t.sections = peSectionsOf d h ∧
      h.size_headers≤t.exact_end ∧
      (∀s∈t.sections,∀r∈rawRange s,EndsBy t.exact_end r) ∧
      overlaps (rawRanges t.sections)=false ∧ e≤t.exact_end:=by
  simp only [pe_sections,ensures_bind,ensures_rejectIf,ensures_pure]
  refine (ensures_each (fun done t=>t.sections=done.map (peSectionOf d h) ∧
    h.size_headers≤t.exact_end ∧ ∀s∈t.sections,∀r∈rawRange s,EndsBy t.exact_end r)
    (·.exact_end) ?_ [] ⟨rfl,Nat.le_refl _,by simp⟩).mono ?_
  · intro done i t hi ht
    obtain ⟨hsections,hheaders,hends⟩:=ht
    refine pe_section_spec.mono fun u e hu=>?_
    obtain ⟨hcons,hmono,hnew,he⟩:=hu
    have hindex : i<h.nsec:=mem_range.mp hi
    refine ⟨⟨by simp [hcons,hsections],Nat.le_trans hheaders hmono,?_⟩,hmono,by omega⟩
    rw [hcons]
    intro s hs r hr
    rcases mem_append.mp hs with hold | hlast
    · exact (hends s hold r hr).mono hmono
    · rw [mem_singleton.mp hlast] at hr
      exact hnew r hr
  · intro t e ht hraw _
    obtain ⟨⟨hsections,hheaders,hends⟩,-,he⟩:=ht
    refine ⟨by simpa [peSectionsOf] using hsections,hheaders,hends,Bool.eq_false_iff.mpr hraw,?_⟩
    simpa using he

theorem pe_entry_spec {sections:List PeSectionRaw}
    (hends:∀s∈sections,∀r∈rawRange s,EndsBy x r) :
    Ensures (pe_entry h sections) d fun _ e=>e≤x:=by
  rw [pe_entry,ensures_ite]
  refine ⟨fun _=>ensures_rejectIf.mpr fun _=>Nat.zero_le _,fun _=>?_⟩
  cases hfind : sections.find? fun s=>s.rva≤h.entry ∧ h.entry<s.virtual_end with
  | none=>exact ensures_fail.mpr trivial
  | some s=>
    simp only [entry_file,ensures_bind,ensures_ite,ensures_rejectIf,ensures_present, ensures_pure]
    refine ⟨fun hin _=>?_,fun _ _=>by omega⟩
    have hs:=hends s (mem_of_find?_eq_some hfind) (s.raw_offset,s.raw_size)
      (by simp [rawRange,unlessEmpty,hin.1])
    have hle : s.raw_offset+s.raw_size≤x:=hs.1
    omega

theorem dir_spec {idx:ℕ} {r:Refusal} : Ensures (dir h idx r) d fun v e=>
    v=dirOf d h idx ∧ e≤h.dd_start+h.num_dirs*8:=by
  simp only [dir,dirOf,ensures_bind,ensures_ite,ensures_within,ensures_number,ensures_pure]
  constructor
  · intro hidx
    exact ⟨(if_pos hidx).symm,Nat.zero_le _⟩
  · intro hidx _
    refine ⟨(if_neg hidx).symm,?_⟩
    simp only [Nat.max_le]
    omega

theorem cert_walk_spec {out:NestedExecutableInfo} {cert_end q:ℕ} :
    Ensures (cert_walk out cert_end q) d fun _ e=>e ≤ cert_end:=by
  induction hleft : cert_end-q using Nat.strong_induction_on generalizing q with
  | _ left ih=>
    rw [cert_walk]
    simp only [ensures_bind,ensures_ite,ensures_fail,ensures_number,ensures_pure]
    refine ⟨fun hq=>⟨fun _=>trivial,fun hroom=>⟨fun _=>trivial,fun hlen=>
      ⟨fun _=>trivial,fun hnext=>⟨fun hprogress=>?_,fun _=>by omega⟩⟩⟩⟩,
      fun _=>Nat.zero_le _⟩
    refine (ih _ (by omega) rfl).mono fun _ e he=>?_
    omega

theorem pe_certificates_spec {s:PeSections} (hdirs:h.dd_start+h.num_dirs*8 ≤ s.exact_end) :
    Ensures (pe_certificates h s) d fun y e=>s.exact_end≤y ∧
      (∀r∈unlessEmpty (dirOf d h 4),EndsBy y r) ∧ e≤y:=by
  simp only [pe_certificates,ensures_bind]
  refine dir_spec.mono fun v e hv=>?_
  obtain ⟨rfl,he⟩:=hv
  simp only [forall_mem_unlessEmpty,ensures_rejectIf,ensures_ite,ensures_bind,ensures_closes,
    ensures_pure]
  intro _
  constructor
  · intro hempty
    exact ⟨Nat.le_refl _,fun hne=>absurd hempty hne,by omega⟩
  · intro _ _ hfits _ _
    refine cert_walk_spec.mono fun _ n hn=>?_
    exact ⟨Nat.le_max_left _ _,fun _=>⟨Nat.le_max_right _ _,hfits⟩,by omega⟩

variable {exact_end : ℕ}

theorem pe_symbols_spec : Ensures (pe_symbols h exact_end) d fun y e=>
    exact_end≤y ∧ (∀r∈symbolsOf d h,EndsBy y r) ∧ e≤y:=by
  simp only [pe_symbols,symbolsOf,ensures_rejectIf,ensures_ite,ensures_bind,ensures_closes,
    ensures_within,ensures_number,ensures_pure]
  intro _
  constructor
  · intro hnone
    simp [hnone]
  · intro hsome hfits _ _ _ hnames _
    rw [if_neg hsome]
    refine ⟨Nat.le_max_left _ _,?_,by omega⟩
    simp only [forall_mem_cons,EndsBy]
    refine ⟨?_,?_,by simp⟩ <;> omega

theorem debug_record_spec {debug_off i:ℕ} :
    Ensures (debug_record h debug_off exact_end i) d fun y e=>exact_end≤y ∧
      (∀r∈unlessEmpty (debugDataOf d debug_off i),EndsBy y r) ∧
      e ≤ max y (debug_off+i*28+28):=by
  simp only [debug_record,forall_mem_unlessEmpty,ensures_rejectIf,ensures_ite,ensures_bind,
    ensures_closes,ensures_number,ensures_pure]
  intro _
  constructor
  · intro hempty
    exact ⟨Nat.le_refl _,fun hne=>absurd hempty hne,by omega⟩
  · intro _ hfits _
    exact ⟨Nat.le_max_left _ _,fun _=>⟨Nat.le_max_right _ _,hfits⟩,by omega⟩

theorem map_rva_ends {sections:List PeSectionRaw} {rva size off:ℕ}
    (hmap:map_rva h sections rva size=some off) (hsize:size≠0)
    (hheaders:h.size_headers≤x) (hfits:h.size_headers<2^64)
    (hends:∀s∈sections,∀r∈rawRange s,EndsBy x r) : EndsBy x (off,size):=by
  rw [map_rva] at hmap
  split at hmap
  · obtain rfl:=Option.some.inj hmap
    constructor <;> dsimp only <;> omega
  · obtain ⟨s,hfind,rfl⟩:=Option.map_eq_some_iff.mp hmap
    have hin:=find?_some hfind
    simp only [decide_eq_true_eq] at hin
    have hs:=hends s (mem_of_find?_eq_some hfind) (s.raw_offset,s.raw_size) (by
      have hraw : s.raw_size≠0:=by omega
      simp [rawRange,unlessEmpty,hraw])
    have hle : s.raw_offset+s.raw_size≤x:=hs.1
    have hlt : s.raw_offset+s.raw_size<2^64:=hs.2
    constructor <;> dsimp only <;> omega

theorem pe_debug_spec (hdirs:h.dd_start+h.num_dirs*8≤exact_end)
    (hheaders:h.size_headers≤exact_end) (hfits:h.size_headers<2^64)
    (hends:∀s∈peSectionsOf d h,∀r∈rawRange s,EndsBy exact_end r) :
    Ensures (pe_debug h (peSectionsOf d h) exact_end) d fun y e=>exact_end≤y ∧
      (∀r∈debugOf d h,EndsBy y r) ∧ e≤y:=by
  simp only [pe_debug,debugOf,ensures_bind]
  refine dir_spec.mono fun v e hv=>?_
  obtain ⟨rfl,he⟩:=hv
  simp only [ensures_rejectIf,ensures_ite,ensures_bind,ensures_pure]
  intro _
  constructor
  · intro hempty
    simp only [hempty,if_true]
    exact ⟨Nat.le_refl _,by simp,by omega⟩
  · intro hsize _
    rw [if_neg hsize]
    cases hmap : map_rva h (peSectionsOf d h) (dirOf d h 6).1 (dirOf d h 6).2 with
    | none=>exact ensures_fail.mpr trivial
    | some off=>
      have hdir:=map_rva_ends hmap hsize hheaders hfits hends
      simp only [ensures_bind,ensures_within]
      intro _
      refine (ensures_each (fun done y=>exact_end≤y ∧ ∀i∈done,
        ∀r∈unlessEmpty (debugDataOf d off i),EndsBy y r) id ?_ []
        ⟨Nat.le_refl _,by simp⟩).mono ?_
      · intro done i y hi hy
        refine debug_record_spec.mono fun z k hz=>?_
        obtain ⟨hmono,hnew,hk⟩:=hz
        have hindex : i<(dirOf d h 6).2/28:=mem_range.mp hi
        have hle : off+(dirOf d h 6).2≤exact_end:=hdir.1
        have hold:=hy.1
        refine ⟨⟨by omega,?_⟩,hmono,by dsimp only [id];omega⟩
        intro j hj r hr
        rcases mem_append.mp hj with hdone | hlast
        · exact (hy.2 j hdone r hr).mono hmono
        · rw [mem_singleton.mp hlast] at hr
          exact hnew r hr
      · intro y k hy
        obtain ⟨⟨hmono,hdata⟩,-,hk⟩:=hy
        have hle : off+(dirOf d h 6).2≤exact_end:=hdir.1
        refine ⟨hmono,?_,?_⟩
        · intro r hr
          rcases mem_cons.mp hr with rfl | hmem
          · exact hdir.mono hmono
          · obtain ⟨i,hi,hri⟩:=mem_flatMap.mp hmem
            exact hdata i (by simpa using hi) r hri
        · dsimp only [id] at hk
          omega

theorem exactly_spec {sha256:Bytes→Bytes} {out:NestedExecutableInfo}
    {unresolved tooLarge:String} :
    Ensures (exactly sha256 out exact_end max_child_bytes unresolved tooLarge) d fun info e=>
      info.exact_size=exact_end ∧ info.child_sha256=sha256 (d.take exact_end) ∧
      exact_end≤d.length ∧ exact_end ≤ max_child_bytes ∧
      info.validation_state=.validatedExact ∧ e≤exact_end:=by
  simp only [exactly,ensures_bind,ensures_within,ensures_rejectIf,ensures_bytesOf,ensures_pure]
  intro hin hlimit
  exact ⟨trivial,rfl,hin,by omega,trivial,by omega⟩

/-- Everything that an accepted image declares ends by its extent, the text behind the extent was
not needed, and the raw data of two sections do not overlap. -/
theorem validate_pe_spec {sha256:Bytes→Bytes} :
    Ensures (validate_pe sha256 max_child_bytes) d fun info e=>
      info.child_sha256=sha256 (d.take info.exact_size) ∧ info.exact_size≤d.length ∧
      info.exact_size ≤ max_child_bytes ∧ info.validation_state=.validatedExact ∧
      (∀r∈peDeclared d,EndsBy info.exact_size r) ∧
      overlaps (rawRanges (peSectionsOf d (optionalOf d (ntOf d))))=false ∧
      e ≤ info.exact_size:=by
  simp only [validate_pe,ensures_bind,ensures_rejectIf]
  refine nt_header_spec.mono fun nt e₁ hnt=>?_
  obtain ⟨rfl,hdos,hcoff,he₁⟩:=hnt
  refine optional_header_spec.mono fun h e₂ hh=>?_
  obtain ⟨rfl,hopt,hdirs,htable,hcovers,hheaders,he₂⟩:=hh
  refine (pe_sections_spec hcovers).mono fun s e₃ hs=>?_
  obtain ⟨hsections,hsize,hends,hoverlaps,he₃⟩:=hs
  rw [hsections] at hends hoverlaps ⊢
  refine (pe_entry_spec hends).mono fun _ e₄ he₄=>?_
  refine (pe_certificates_spec (by omega)).mono fun x e₅ hx=>?_
  obtain ⟨hx,hcertificates,he₅⟩:=hx
  refine pe_symbols_spec.mono fun y e₆ hy=>?_
  obtain ⟨hy,hsymbols,he₆⟩:=hy
  refine (pe_debug_spec (by omega) (by omega) hheaders fun s hs r hr=>
    (hends s hs r hr).mono (by omega)).mono fun z e₇ hz=>?_
  obtain ⟨hz,hdebug,he₇⟩:=hz
  intro _
  refine exactly_spec.mono fun info e₈ hinfo=>?_
  obtain ⟨rfl,hsha,hin,hlimit,hstate,he₈⟩:=hinfo
  have hend : (optionalOf d (ntOf d)).opt_end=(ntOf d).lfanew+24+(ntOf d).opt_size:=rfl
  refine ⟨hsha,hin,hlimit,hstate,?_,hoverlaps,by omega⟩
  simp only [peDeclared,forall_mem_append]
  refine ⟨⟨⟨⟨?_,?_⟩,?_⟩,?_⟩,hdebug⟩
  · have hlfanew : (optionalOf d (ntOf d)).lfanew=(ntOf d).lfanew:=rfl
    have hsize : (optionalOf d (ntOf d)).opt_size=(ntOf d).opt_size:=rfl
    simp only [forall_mem_cons,EndsBy]
    refine ⟨?_,?_,?_,?_,?_,by simp⟩ <;> constructor <;> omega
  · intro r hr
    obtain ⟨t,ht,hrt⟩:=mem_flatMap.mp hr
    exact (hends t ht r hrt).mono (by omega)
  · exact fun r hr=>(hcertificates r hr).mono (by omega)
  · exact fun r hr=>(hsymbols r hr).mono hz

theorem nt_header_stable : Stable nt_header:=by
  refine .bind (.within _ _) fun _ => .bind (.bytesOf _) fun _ => .reject fun _=>?_
  refine .field fun _ => .reject fun _=>?_
  refine .bind (.closes _ _ _) fun _ => .bind (.bytesOf _) fun _ => .reject fun _=>?_
  iterate 3 refine .field fun _ => .field fun _=>?_
  refine .reject fun _ => .reject fun _=>?_
  exact .reject fun _ => .pure _

theorem optional_header_stable (nt:NtHeader) : Stable (optional_header nt):=by
  refine .bind (.closes _ _ _) fun _ => .field fun _=>?_
  refine .reject fun _ => .reject fun _=>?_
  refine .reject fun _ => .reject fun _=>?_
  iterate 3 refine .field fun _ => .field fun _=>?_
  refine .reject fun _ => .reject fun _=>?_
  refine .reject fun _ => .reject fun _=>?_
  refine .bind (.within _ _) fun _ => .reject fun _=>?_
  exact .bind (.closes _ _ _) fun _ => .reject fun _ => .pure _

theorem pe_section_stable (s:PeSections) (i:ℕ) : Stable (pe_section h max_child_bytes s i):=by
  refine .field fun _ => .field fun _=>?_
  refine .field fun _ => .field fun _=>?_
  refine .field fun _ => .reject fun _=>?_
  refine .reject fun _ => .ite (.pure _) ?_
  refine .reject fun _ => .reject fun _=>?_
  exact .bind (.closes _ _ _) fun _ => .reject fun _ => .pure _

theorem pe_sections_stable : Stable (pe_sections h max_child_bytes):=by
  refine .bind (.each pe_section_stable _) fun _=>?_
  exact .reject fun _ => .reject fun _ => .pure _

theorem pe_entry_stable (sections:List PeSectionRaw) : Stable (pe_entry h sections):=by
  refine .ite (.rejectIf _ _) ?_
  cases sections.find? fun s=>s.rva≤h.entry ∧ h.entry<s.virtual_end with
  | none=>exact .fail _
  | some s=>exact .bind (.ite (.present _) (.pure _)) fun _ => .rejectIf _ _

theorem dir_stable (idx:ℕ) (r:Refusal) : Stable (dir h idx r):=by
  refine .ite (.pure _) (.bind (.within _ _) fun _=>?_)
  exact .field fun _ => .field fun _ => .pure _

theorem cert_walk_stable (out:NestedExecutableInfo) (cert_end q:ℕ) :
    Stable (cert_walk out cert_end q):=by
  induction hleft : cert_end-q using Nat.strong_induction_on generalizing q with
  | _ left ih=>
    rw [cert_walk]
    by_cases hq : q<cert_end
    · rw [if_pos hq]
      refine .ite (.fail _) (.bind (.number _ _ _) fun len=>?_)
      refine .ite (.fail _) (.ite (.fail _) ?_)
      by_cases hnext : q<align_up (q+len) 8
      · rw [if_pos hnext]
        exact ih _ (by omega) _ rfl
      · rw [if_neg hnext]
        exact .pure _
    · rw [if_neg hq]
      exact .pure _

theorem pe_certificates_stable (s:PeSections) : Stable (pe_certificates h s):=by
  refine .bind (dir_stable _ _) fun _ => .reject fun _ => .ite (.pure _) ?_
  refine .reject fun _ => .bind (.closes _ _ _) fun _=>?_
  exact .reject fun _ => .bind (cert_walk_stable _ _ _) fun _ => .pure _

theorem pe_symbols_stable (exact_end:ℕ) : Stable (pe_symbols h exact_end):=by
  refine .reject fun _ => .ite (.pure _) ?_
  refine .bind (.closes _ _ _) fun _ => .bind (.within _ _) fun _=>?_
  refine .field fun _ => .reject fun _=>?_
  exact .bind (.closes _ _ _) fun _ => .pure _

theorem debug_record_stable (debug_off exact_end i:ℕ) :
    Stable (debug_record h debug_off exact_end i):=by
  refine .field fun _ => .field fun _=>?_
  exact .reject fun _ => .ite (.pure _) (.bind (.closes _ _ _) fun _ => .pure _)

theorem pe_debug_stable (sections:List PeSectionRaw) (exact_end:ℕ) :
    Stable (pe_debug h sections exact_end):=by
  refine .bind (dir_stable _ _) fun v => .reject fun _ => .ite (.pure _) ?_
  refine .reject fun _=>?_
  cases map_rva h sections v.1 v.2 with
  | none=>exact .fail _
  | some off=>exact .bind (.within _ _) fun _ => .each (debug_record_stable off) _

theorem exactly_stable (sha256:Bytes→Bytes) (out:NestedExecutableInfo) (exact_end:ℕ)
    (unresolved tooLarge:String) :
    Stable (exactly sha256 out exact_end max_child_bytes unresolved tooLarge):=by
  refine .bind (.within _ _) fun _ => .reject fun _=>?_
  exact .bind (.bytesOf _) fun _ => .pure _

theorem validate_pe_stable (sha256:Bytes→Bytes) :
    Stable (validate_pe sha256 max_child_bytes):=by
  refine .bind nt_header_stable fun nt => .bind (optional_header_stable nt) fun h=>?_
  refine .bind pe_sections_stable fun s => .bind (pe_entry_stable _) fun _=>?_
  refine .bind (pe_certificates_stable s) fun _ => .bind (pe_symbols_stable _) fun _=>?_
  refine .bind (pe_debug_stable _ _) fun _ => .reject fun _=>?_
  exact exactly_stable _ _ _ _ _

end AutoRefirst.NestedExecutable
