import AutoRefirst.Probes
import AutoRefirst.Spans

/-!
# Nested executables

The validator of a PE or ELF image found inside a parent file. It reads the headers and every
structure they declare, and takes the extent of the image as the last of their ends.
-/

namespace AutoRefirst.NestedExecutable

open Probe ByteRanges Spans

inductive RefusalState where
  | outsideParent | sizeLimit | unsupportedFormat | invalidHeader | truncatedHeader
  | architectureContradiction | headerGeometryContradiction | truncatedSectionTable
  | sectionGeometryContradiction | impossibleRawOffset | truncatedSection | overlapContradiction
  | entryRelationContradiction | certificateContradiction | truncatedCertificate
  | coffSymbolContradiction | truncatedCoffSymbols | debugDirectoryContradiction
  | truncatedDebugData | unresolvedExtent | notExecutableImage | unresolvedExtendedNumbering
  | truncatedProgramHeaders | segmentGeometryContradiction | truncatedSegment
  | sectionTableContradiction | sectionSegmentContradiction
deriving DecidableEq, Repr

inductive ValidationState where
  | unresolved | validatedExact | refused (s : RefusalState)
deriving DecidableEq, Repr

structure NestedExecutableInfo where
  valid : Bool := false
  (format architecture endianness : String := "")
  machine : ℕ := 0
  is_64 : Bool := false
  (parent_offset exact_size : ℕ := 0)
  child_sha256 : Bytes := []
  validation_state : ValidationState := .unresolved
  error : String := ""
deriving DecidableEq, Repr

/-- What a refused image is reported with. -/
structure Refusal where
  out : NestedExecutableInfo
  state : RefusalState
  error : String

def Refusal.info (r : Refusal) : NestedExecutableInfo :=
  {r.out with valid:=false,validation_state:=.refused r.state,error:=r.error}

def power2 (x : ℕ) : Prop := x≠0 ∧ x &&& (x-1) = 0

instance : DecidablePred power2 := fun _ => inferInstanceAs (Decidable (_ ∧ _))

def align_up (x a : ℕ) : ℕ :=
  if a = 0 then x
  else if x % a = 0 then x
  else if a - x % a > 2^64-1-x then 2^64-1
  else x+(a - x % a)

def pe_arch (m : ℕ) : String :=
  if m = 0x014c then "x86" else if m = 0x8664 then "x86-64" else if m = 0xaa64 then "AArch64"
  else if m = 0x01c0 ∨ m = 0x01c2 ∨ m = 0x01c4 then "ARM" else if m = 0x0200 then "IA64"
  else "PE_MACHINE_"++toString m

def peBase : NestedExecutableInfo := {format := "PE",endianness := "little"}

structure NtHeader where
  (lfanew machine nsec ptr_sym num_sym opt_size characteristics : ℕ)

def NtHeader.out (nt : NtHeader) : NestedExecutableInfo :=
  {peBase with machine:=nt.machine,architecture:=pe_arch nt.machine}

def nt_header : Probe Refusal NtHeader := do
  within 0x40 ⟨peBase,.invalidHeader,"exact DOS header is absent or truncated"⟩
  let mz ← bytesOf (0,2)
  rejectIf (mz ≠ [byte 'M',byte 'Z'])
    ⟨peBase,.invalidHeader,"exact DOS header is absent or truncated"⟩
  let lfanew ← number true 0x3c 4
  rejectIf (lfanew < 0x40 ∨ lfanew > 0x100000 ∨ lfanew % 4 ≠ 0) ⟨peBase,.invalidHeader,
    "PE e_lfanew is outside the bounded/aligned DOS-to-NT header range"⟩
  let _ ← closes lfanew 24
    ⟨peBase,.truncatedHeader,"NT/COFF header extends outside parent bytes"⟩
  let signature ← bytesOf (lfanew,4)
  rejectIf (signature ≠ peSignature)
    ⟨peBase,.invalidHeader,"PE signature does not close at e_lfanew"⟩
  let machine ← number true (lfanew+4) 2
  let nsec ← number true (lfanew+6) 2
  let ptr_sym ← number true (lfanew+12) 4
  let num_sym ← number true (lfanew+16) 4
  let opt_size ← number true (lfanew+20) 2
  let characteristics ← number true (lfanew+22) 2
  let nt : NtHeader := { lfanew, machine, nsec, ptr_sym, num_sym, opt_size, characteristics }
  rejectIf (machine = 0)
    ⟨nt.out,.invalidHeader,"PE machine is IMAGE_FILE_MACHINE_UNKNOWN"⟩
  rejectIf (characteristics &&& 0x0002 = 0)
    ⟨nt.out,.invalidHeader,"COFF header does not mark an executable image"⟩
  rejectIf (nsec = 0 ∨ nsec > 96) ⟨nt.out,.invalidHeader,
    "PE section count is zero or outside the bounded 96-section validator limit"⟩
  pure nt

structure OptionalHeader extends NtHeader where
  is_64 : Bool
  (opt_end dd_start entry section_align file_align size_image size_headers num_dirs : ℕ)

variable (h : OptionalHeader)

def OptionalHeader.info : NestedExecutableInfo :=
  {h.out with is_64:=h.is_64}

def optional_header (nt : NtHeader) : Probe Refusal OptionalHeader := do
  let oo := nt.lfanew+24
  let opt_end ← closes oo nt.opt_size
    ⟨nt.out,.truncatedHeader,"optional header extends outside parent bytes"⟩
  let magic ← number true oo 2
  rejectIf (magic ≠ 0x10b ∧ magic ≠ 0x20b)
    ⟨nt.out,.invalidHeader,"unsupported PE optional-header magic"⟩
  let is_64 := decide (magic = 0x20b)
  let out := {nt.out with is_64}
  rejectIf (nt.opt_size < if is_64 then 112 else 96) ⟨out,.truncatedHeader,
    "optional header is shorter than its PE32/PE32+ fixed fields"⟩
  rejectIf ((nt.machine = 0x8664 ∨ nt.machine = 0xaa64 ∨ nt.machine = 0x0200) ∧ is_64 = false)
    ⟨out,.architectureContradiction,
      "64-bit PE machine is paired with a PE32 optional header"⟩
  rejectIf ((nt.machine = 0x014c ∨ nt.machine = 0x01c0 ∨ nt.machine = 0x01c2 ∨
      nt.machine = 0x01c4) ∧ is_64 = true)
    ⟨out,.architectureContradiction,
      "32-bit PE machine is paired with a PE32+ optional header"⟩
  let entry ← number true (oo+16) 4
  let section_align ← number true (oo+32) 4
  let file_align ← number true (oo+36) 4
  let size_image ← number true (oo+56) 4
  let size_headers ← number true (oo+60) 4
  let num_dirs ← number true (oo + if is_64 then 108 else 92) 4
  rejectIf (¬power2 file_align ∨ file_align < 512 ∨ file_align > 65536)
    ⟨out,.headerGeometryContradiction,"PE FileAlignment is not a 512..65536 power of two"⟩
  rejectIf (¬power2 section_align ∨ section_align < file_align ∨
      section_align < 4096 ∧ section_align ≠ file_align)
    ⟨out,.headerGeometryContradiction,
      "PE SectionAlignment/FileAlignment relationship is incoherent"⟩
  rejectIf (size_image = 0 ∨ size_image % section_align ≠ 0)
    ⟨out,.headerGeometryContradiction,"SizeOfImage is zero or not SectionAlignment-aligned"⟩
  rejectIf (size_headers = 0 ∨ size_headers % file_align ≠ 0)
    ⟨out,.truncatedHeader,"SizeOfHeaders is zero, misaligned, or not file-backed"⟩
  within size_headers
    ⟨out,.truncatedHeader,"SizeOfHeaders is zero, misaligned, or not file-backed"⟩
  let dd_start := oo + if is_64 then 112 else 96
  rejectIf (num_dirs > (opt_end-dd_start)/8)
    ⟨out,.truncatedHeader,"NumberOfRvaAndSizes exceeds bytes present in the optional header"⟩
  let sec_table_end ← closes opt_end (nt.nsec*40)
    ⟨out,.truncatedSectionTable,"complete PE section table is not file-backed"⟩
  rejectIf (sec_table_end > size_headers)
    ⟨out,.headerGeometryContradiction,
      "SizeOfHeaders does not cover the complete section table"⟩
  pure { toNtHeader:=nt,is_64,opt_end,dd_start,entry,section_align,file_align,size_image,
         size_headers,num_dirs }

structure PeSectionRaw where
  (rva vsize raw_offset raw_size characteristics raw_end virtual_end : ℕ)

/-- The sections so far, and the extent so far. -/
structure PeSections where
  sections : List PeSectionRaw
  exact_end : ℕ

def pe_section (max_child_bytes : ℕ) (s : PeSections) (i : ℕ) : Probe Refusal PeSections := do
  let out := h.info
  let sh := h.opt_end+i*40
  let vsize ← number true (sh+8) 4
  let rva ← number true (sh+12) 4
  let raw_size ← number true (sh+16) 4
  let raw_offset ← number true (sh+20) 4
  let characteristics ← number true (sh+36) 4
  rejectIf (rva = 0 ∨ rva % h.section_align ≠ 0) ⟨out,.sectionGeometryContradiction,
    "PE section RVA is zero or not SectionAlignment-aligned"⟩
  let mem_size := max vsize raw_size
  rejectIf (mem_size ≠ 0 ∧ (2^64 ≤ rva+mem_size ∨ rva+mem_size > h.size_image))
    ⟨out,.sectionGeometryContradiction,"PE section virtual extent exceeds SizeOfImage"⟩
  let virtual_end := if mem_size = 0 then 0 else rva+mem_size
  if raw_size = 0 then
    pure { s with sections:=s.sections ++
      [{rva,vsize,raw_offset,raw_size,characteristics,raw_end:=0,virtual_end}] }
  else do
    rejectIf (raw_size % h.file_align ≠ 0) ⟨out,.sectionGeometryContradiction,
      "PE section SizeOfRawData is not FileAlignment-aligned"⟩
    rejectIf (raw_offset = 0 ∨ raw_offset < h.size_headers ∨ raw_offset % h.file_align ≠ 0)
      ⟨out,.impossibleRawOffset,
        "PE section raw range starts in headers, at zero, or off FileAlignment"⟩
    let raw_end ← closes raw_offset raw_size ⟨out,.truncatedSection,
      "declared PE section raw range extends outside parent bytes"⟩
    rejectIf (raw_end > max_child_bytes) ⟨out,.sizeLimit,
      "declared PE section extent exceeds the one-child safety ceiling"⟩
    pure { sections:=s.sections ++
             [{ rva, vsize, raw_offset, raw_size, characteristics, raw_end, virtual_end }]
           exact_end:=max s.exact_end raw_end }

variable (sections : List PeSectionRaw)

def rawRanges : List (ℕ×ℕ) :=
  (sections.filter fun s => s.raw_size ≠ 0).map fun s => (s.raw_offset,s.raw_end)

def virtualRanges : List (ℕ×ℕ) :=
  (sections.filter fun s => s.rva < s.virtual_end).map fun s => (s.rva,s.virtual_end)

def pe_sections (max_child_bytes : ℕ) : Probe Refusal PeSections := do
  let s ← each (List.range h.nsec) ⟨[],h.size_headers⟩ (pe_section h max_child_bytes)
  rejectIf (overlaps (rawRanges s.sections) = true) ⟨h.info,.overlapContradiction,
    "PE sections have overlapping file-backed raw ranges"⟩
  rejectIf (overlaps (virtualRanges s.sections) = true) ⟨h.info,.overlapContradiction,
    "PE sections have overlapping virtual ranges"⟩
  pure s

/-- Whether the bytes behind the entry point are in the file. -/
def entry_file (s : PeSectionRaw) (delta : ℕ) : Probe Refusal Bool :=
  if s.raw_size ≠ 0 ∧ delta < s.raw_size then present (s.raw_offset+delta) else pure false

def pe_entry : Probe Refusal Unit :=
  let e : Refusal := ⟨h.info,.entryRelationContradiction,
    "PE entry point is not file-backed inside an executable section"⟩
  if h.entry = 0 then
    rejectIf (h.characteristics &&& 0x2000 = 0)
      ⟨h.info,.entryRelationContradiction,"non-DLL PE has a zero entry point"⟩
  else
    match sections.find? fun s => s.rva ≤ h.entry ∧ h.entry < s.virtual_end with
    | none => fail e
    | some s => do
      let file ← entry_file s (h.entry-s.rva)
      rejectIf (s.characteristics &&& 0x20000000 = 0 ∨ file = false) e

/-- A data directory: its address and its size. -/
def dir (idx : ℕ) (e : Refusal) : Probe Refusal (ℕ×ℕ) :=
  if idx ≥ h.num_dirs then pure (0,0)
  else do
    within (h.dd_start+idx*8+8) e
    let rva ← number true (h.dd_start+idx*8) 4
    let size ← number true (h.dd_start+idx*8+4) 4
    pure (rva,size)

def cert_walk (out : NestedExecutableInfo) (cert_end q : ℕ) : Probe Refusal Unit :=
  if q < cert_end then
    if cert_end-q < 8 then
      fail ⟨out,.certificateContradiction,
        "trailing certificate bytes cannot hold a WIN_CERTIFICATE header"⟩
    else do
      let len ← number true q 4
      if len < 8 ∨ len > cert_end-q then
        fail ⟨out,.certificateContradiction,
          "WIN_CERTIFICATE length escapes the declared security directory"⟩
      else
        let next := align_up (q+len) 8
        if next = 2^64-1 ∨ next > cert_end then
          fail ⟨out,.certificateContradiction,
            "WIN_CERTIFICATE padding escapes the declared security directory"⟩
        else if q < next then cert_walk out cert_end next
        else pure ()
  else pure ()
termination_by cert_end - q

def pe_certificates (s : PeSections) : Probe Refusal ℕ := do
  let out := h.info
  let (cert_off,cert_size) ← dir h 4
    ⟨out,.truncatedHeader,"security data-directory entry is truncated"⟩
  rejectIf (¬(cert_off = 0 ↔ cert_size = 0)) ⟨out,.certificateContradiction,
    "PE security directory has only one of file offset/size"⟩
  if cert_size = 0 then pure s.exact_end
  else do
    rejectIf (cert_off % 8 ≠ 0 ∨ cert_size < 8) ⟨out,.certificateContradiction,
      "certificate table file offset/size violates WIN_CERTIFICATE alignment/minimum geometry"⟩
    let cert_end ← closes cert_off cert_size ⟨out,.truncatedCertificate,
      "PE certificate table extends outside parent bytes"⟩
    rejectIf ((s.sections.any fun x =>
        x.raw_size ≠ 0 ∧ cert_off < x.raw_end ∧ x.raw_offset < cert_end) = true)
      ⟨out,.certificateContradiction,
        "certificate table overlaps a mapped section raw range"⟩
    cert_walk out cert_end cert_off
    pure (max s.exact_end cert_end)

def pe_symbols (exact_end : ℕ) : Probe Refusal ℕ := do
  let out := h.info
  rejectIf (¬(h.ptr_sym = 0 ↔ h.num_sym = 0)) ⟨out,.coffSymbolContradiction,
    "COFF symbol pointer/count are not jointly present"⟩
  if h.ptr_sym = 0 then pure exact_end
  else do
    let sym_end ← closes h.ptr_sym (h.num_sym*18) ⟨out,.truncatedCoffSymbols,
      "COFF symbol/string table is not completely file-backed"⟩
    within (sym_end+4) ⟨out,.truncatedCoffSymbols,
      "COFF symbol/string table is not completely file-backed"⟩
    let str_len ← number true sym_end 4
    rejectIf (str_len < 4) ⟨out,.coffSymbolContradiction,
      "COFF string table length is smaller than its length word"⟩
    let str_end ← closes sym_end str_len ⟨out,.truncatedCoffSymbols,
      "COFF string table extends outside parent bytes"⟩
    pure (max exact_end str_end)

/-- The file offset of `size` bytes at an address. -/
def map_rva (rva size : ℕ) : Option ℕ :=
  if rva < h.size_headers ∧ size ≤ h.size_headers-rva then some rva
  else
    (sections.find? fun s =>
        s.rva ≤ rva ∧ rva-s.rva ≤ s.raw_size ∧ size ≤ s.raw_size-(rva-s.rva)).map
      fun s => s.raw_offset+(rva-s.rva)

def debug_record (debug_off exact_end i : ℕ) : Probe Refusal ℕ := do
  let out := h.info
  let q := debug_off+i*28
  let data_size ← number true (q+16) 4
  let data_off ← number true (q+24) 4
  rejectIf (¬(data_size = 0 ↔ data_off = 0)) ⟨out,.debugDirectoryContradiction,
    "debug raw-data pointer/size are not jointly present"⟩
  if data_size = 0 then pure exact_end
  else do
    let e ← closes data_off data_size ⟨out,.truncatedDebugData,
      "debug raw-data range extends outside parent bytes"⟩
    pure (max exact_end e)

def pe_debug (exact_end : ℕ) : Probe Refusal ℕ := do
  let out := h.info
  let (debug_rva,debug_size) ← dir h 6
    ⟨out,.truncatedHeader,"debug data-directory entry is truncated"⟩
  rejectIf (¬(debug_rva = 0 ↔ debug_size = 0)) ⟨out,.debugDirectoryContradiction,
    "PE debug directory has only one of RVA/size"⟩
  if debug_size = 0 then pure exact_end
  else do
    rejectIf (debug_size % 28 ≠ 0) ⟨out,.debugDirectoryContradiction,
      "PE debug directory size is not an array of IMAGE_DEBUG_DIRECTORY records"⟩
    let e : Refusal := ⟨out,.debugDirectoryContradiction,
      "PE debug directory RVA is not wholly file-backed"⟩
    match map_rva h sections debug_rva debug_size with
    | none => fail e
    | some debug_off => do
      within (debug_off+debug_size) e
      each (List.range (debug_size/28)) exact_end (debug_record h debug_off)

variable (sha256 : Bytes→Bytes)

/-- The end of both validators: the extent is in the file and below the ceiling. -/
def exactly (out : NestedExecutableInfo) (exact_end max_child_bytes : ℕ)
    (unresolved tooLarge : String) : Probe Refusal NestedExecutableInfo := do
  within exact_end ⟨out,.unresolvedExtent,unresolved⟩
  rejectIf (exact_end > max_child_bytes) ⟨out,.sizeLimit,tooLarge⟩
  let child ← bytesOf (0,exact_end)
  pure { out with
    exact_size:=exact_end,child_sha256:=sha256 child,valid:=true,validation_state:=.validatedExact }

def validate_pe (max_child_bytes : ℕ) : Probe Refusal NestedExecutableInfo := do
  let nt ← nt_header
  let h ← optional_header nt
  let s ← pe_sections h max_child_bytes
  pe_entry h s.sections
  let exact_end ← pe_certificates h s
  let exact_end ← pe_symbols h exact_end
  let exact_end ← pe_debug h s.sections exact_end
  rejectIf (exact_end < h.size_headers) ⟨h.info,.unresolvedExtent,
    "PE declared file extent does not close inside parent bytes"⟩
  exactly sha256 h.info exact_end max_child_bytes
    "PE declared file extent does not close inside parent bytes"
    "validated PE exact extent exceeds the one-child safety ceiling"

def elf_arch (m : ℕ) : String :=
  if m = 3 then "x86" else if m = 8 then "MIPS" else if m = 40 then "ARM"
  else if m = 62 then "x86-64" else if m = 183 then "AArch64" else if m = 243 then "RISC-V"
  else "EM_"++toString m

def elfBase : NestedExecutableInfo := {format := "ELF"}

structure ElfHeader where
  out : NestedExecutableInfo
  le : Bool
  (type entry phoff shoff ehsize phentsize phnum shentsize shnum shstrndx phend : ℕ)

def elf_header : Probe Refusal ElfHeader := do
  within 16 ⟨elfBase,.invalidHeader,"ELF identification magic is absent"⟩
  let ident ← bytesOf (0,16)
  rejectIf (ident.take 4 ≠ [0x7f,byte 'E',byte 'L',byte 'F'])
    ⟨elfBase,.invalidHeader,"ELF identification magic is absent"⟩
  let cls := ident.getD 4 0
  let data := ident.getD 5 0
  rejectIf (cls ≠ 1 ∧ cls ≠ 2 ∨ data ≠ 1 ∧ data ≠ 2 ∨ ident.getD 6 0 ≠ 1)
    ⟨elfBase,.invalidHeader,"ELF class/endian/ident version is unsupported or invalid"⟩
  let is_64 := decide (cls = 2)
  let le := decide (data = 1)
  let out := {elfBase with is_64,endianness := if le then "little" else "big"}
  let eh_expected := if is_64 then 64 else 52
  let w := if is_64 then 8 else 4
  within eh_expected ⟨out,.truncatedHeader,"complete ELF header is not file-backed"⟩
  let type ← number le 16 2
  let machine ← number le 18 2
  let version ← number le 20 4
  let entry ← number le 24 w
  let phoff ← number le (if is_64 then 32 else 28) w
  let shoff ← number le (if is_64 then 40 else 32) w
  let ehsize ← number le (if is_64 then 52 else 40) 2
  let phentsize ← number le (if is_64 then 54 else 42) 2
  let phnum ← number le (if is_64 then 56 else 44) 2
  let shentsize ← number le (if is_64 then 58 else 46) 2
  let shnum ← number le (if is_64 then 60 else 48) 2
  let shstrndx ← number le (if is_64 then 62 else 50) 2
  let out := {out with machine,architecture:=elf_arch machine}
  rejectIf (version ≠ 1 ∨ machine = 0)
    ⟨out,.invalidHeader,"ELF version/machine is invalid"⟩
  rejectIf (type ≠ 2 ∧ type ≠ 3)
    ⟨out,.notExecutableImage,"ELF child is neither ET_EXEC nor ET_DYN"⟩
  rejectIf (ehsize ≠ eh_expected) ⟨out,.headerGeometryContradiction,
    "ELF e_ehsize does not equal the class-defined header size"⟩
  rejectIf (phnum = 0 ∨ phnum = 0xffff) ⟨out,.unresolvedExtendedNumbering,
    "ELF has no program headers or uses unsupported PN_XNUM extended numbering"⟩
  rejectIf (phentsize ≠ if is_64 then 56 else 32) ⟨out,.headerGeometryContradiction,
    "ELF e_phentsize does not equal the class-defined program-header size"⟩
  let e : Refusal := ⟨out,.truncatedProgramHeaders,
    "complete ELF program-header table is not file-backed"⟩
  let phend ← closes phoff (phnum*phentsize) e
  rejectIf (phoff < ehsize) e
  pure { out, le, type, entry, phoff, shoff, ehsize, phentsize, phnum, shentsize, shnum, shstrndx,
         phend }

structure ElfLoad where
  (off file_size vaddr mem_size flags : ℕ)

structure ElfSegments where
  loads : List ElfLoad
  exact_end : ℕ

def segment_end (out : NestedExecutableInfo) (max_child_bytes exact_end off fs : ℕ) :
    Probe Refusal ℕ :=
  if fs = 0 then pure exact_end
  else do
    let e ← closes off fs ⟨out,.truncatedSegment,
      "declared ELF file-backed segment extends outside parent bytes"⟩
    rejectIf (e > max_child_bytes) ⟨out,.sizeLimit,
      "declared ELF segment extent exceeds the one-child safety ceiling"⟩
    pure (max exact_end e)

def elf_segment (h : ElfHeader) (max_child_bytes : ℕ) (s : ElfSegments) (i : ℕ) :
    Probe Refusal ElfSegments := do
  let out := h.out
  let q := h.phoff+i*h.phentsize
  let w := if out.is_64 then 8 else 4
  let pt ← number h.le q 4
  let flags ← number h.le (q + if out.is_64 then 4 else 24) 4
  let off ← number h.le (q + if out.is_64 then 8 else 4) w
  let va ← number h.le (q + if out.is_64 then 16 else 8) w
  let fs ← number h.le (q + if out.is_64 then 32 else 16) w
  let ms ← number h.le (q + if out.is_64 then 40 else 20) w
  let al ← number h.le (q + if out.is_64 then 48 else 28) w
  rejectIf (al > 1 ∧ ¬power2 al) ⟨out,.segmentGeometryContradiction,
    "ELF segment p_align is not zero/one/power-of-two"⟩
  let exact_end ← segment_end out max_child_bytes s.exact_end off fs
  if pt = 1 then do
    rejectIf (fs > ms) ⟨out,.segmentGeometryContradiction,
      "ELF PT_LOAD has p_filesz greater than p_memsz"⟩
    rejectIf (al > 1 ∧ off % al ≠ va % al) ⟨out,.segmentGeometryContradiction,
      "ELF PT_LOAD p_offset/p_vaddr are incongruent modulo p_align"⟩
    pure {loads:=s.loads++[⟨off,fs,va,ms,flags⟩],exact_end}
  else pure {s with exact_end}

def fileRanges (loads : List ElfLoad) : List (ℕ×ℕ) :=
  (loads.filter fun l => l.file_size ≠ 0).map fun l => (l.off,l.off+l.file_size)

def addressRanges (loads : List ElfLoad) : List (ℕ×ℕ) :=
  (loads.filter fun l => l.mem_size ≠ 0).map fun l => (l.vaddr,l.vaddr+l.mem_size)

def elf_segments (h : ElfHeader) (max_child_bytes : ℕ) : Probe Refusal ElfSegments := do
  let out := h.out
  let s ← each (List.range h.phnum) ⟨[],max h.ehsize h.phend⟩ (elf_segment h max_child_bytes)
  rejectIf (s.loads.isEmpty = true) ⟨out,.segmentGeometryContradiction,
    "ELF executable has no PT_LOAD segment"⟩
  rejectIf ((s.loads.any fun l => l.mem_size ≠ 0 ∧ 2^64 ≤ l.vaddr+l.mem_size) = true)
    ⟨out,.segmentGeometryContradiction,"ELF PT_LOAD virtual extent overflows address space"⟩
  rejectIf (overlaps (fileRanges s.loads) = true ∨ overlaps (addressRanges s.loads) = true)
    ⟨out,.overlapContradiction,
      "ELF PT_LOAD segments overlap in file or virtual address space"⟩
  rejectIf (h.entry ≠ 0 ∧ (s.loads.any fun l =>
      l.flags &&& 1 ≠ 0 ∧ l.vaddr ≤ h.entry ∧ h.entry-l.vaddr < l.file_size) = false)
    ⟨out,.entryRelationContradiction,
      "ELF entry is not file-backed by an executable PT_LOAD segment"⟩
  rejectIf (h.entry = 0 ∧ h.type = 2)
    ⟨out,.entryRelationContradiction,"ET_EXEC has a zero entry point"⟩
  pure s

structure ElfSectionRaw where
  (type flags addr off size align entsize link : ℕ)

structure ElfSections where
  secs : List ElfSectionRaw
  exact_end : ℕ

def ElfSectionRaw.FileBacked (s : ElfSectionRaw) : Prop := s.type≠8 ∧ s.size≠0

instance (s : ElfSectionRaw) : Decidable s.FileBacked := inferInstanceAs (Decidable (_ ∧ _))

def elf_section (h : ElfHeader) (max_child_bytes : ℕ) (s : ElfSections) (i : ℕ) :
    Probe Refusal ElfSections := do
  let out := h.out
  let q := h.shoff+i*h.shentsize
  let w := if out.is_64 then 8 else 4
  let type ← number h.le (q+4) 4
  let flags ← number h.le (q+8) w
  let addr ← number h.le (q + if out.is_64 then 16 else 12) w
  let off ← number h.le (q + if out.is_64 then 24 else 16) w
  let size ← number h.le (q + if out.is_64 then 32 else 20) w
  let link ← number h.le (q + if out.is_64 then 40 else 24) 4
  let align ← number h.le (q + if out.is_64 then 48 else 32) w
  let entsize ← number h.le (q + if out.is_64 then 56 else 36) w
  let sec : ElfSectionRaw := { type, flags, addr, off, size, align, entsize, link }
  rejectIf (link ≥ h.shnum ∧ link ≠ 0) ⟨out,.sectionTableContradiction,
    "ELF section sh_link points outside the section table"⟩
  rejectIf (align > 1 ∧ ¬power2 align) ⟨out,.sectionGeometryContradiction,
    "ELF section sh_addralign is not zero/one/power-of-two"⟩
  rejectIf (entsize ≠ 0 ∧ size % entsize ≠ 0) ⟨out,.sectionGeometryContradiction,
    "ELF section size is not a multiple of nonzero sh_entsize"⟩
  if sec.FileBacked then do
    let e ← closes off size ⟨out,.truncatedSection,
      "declared ELF file-backed section extends outside parent bytes"⟩
    rejectIf (e > max_child_bytes) ⟨out,.sizeLimit,
      "declared ELF section extent exceeds the one-child safety ceiling"⟩
    pure {secs:=s.secs++[sec],exact_end:=max s.exact_end e}
  else pure {s with secs:=s.secs++[sec]}

def sectionRanges (secs : List ElfSectionRaw) : List (ℕ×ℕ) :=
  (secs.filter fun s => s.FileBacked).map fun s => (s.off,s.off+s.size)

def ElfSectionRaw.mapped (s : ElfSectionRaw) (loads : List ElfLoad) : Bool :=
  loads.any fun l => l.vaddr ≤ s.addr ∧ s.addr-l.vaddr ≤ l.mem_size ∧
    s.size ≤ l.mem_size-(s.addr-l.vaddr) ∧
    (s.type = 8 ∨ s.addr-l.vaddr ≤ l.file_size ∧ s.size ≤ l.file_size-(s.addr-l.vaddr) ∧
      s.off = l.off+(s.addr-l.vaddr))

def elf_sections (h : ElfHeader) (max_child_bytes : ℕ) (s : ElfSegments) :
    Probe Refusal ElfSections := do
  let out := h.out
  if h.shoff = 0 then do
    rejectIf (h.shnum ≠ 0 ∨ h.shstrndx ≠ 0) ⟨out,.sectionTableContradiction,
      "ELF omits e_shoff but declares section headers/string table"⟩
    pure ⟨[],s.exact_end⟩
  else do
    rejectIf (h.shnum = 0 ∨ h.shstrndx = 0xffff) ⟨out,.unresolvedExtendedNumbering,
      "ELF section table uses unsupported extended numbering"⟩
    rejectIf (h.shentsize ≠ if out.is_64 then 64 else 40) ⟨out,.headerGeometryContradiction,
      "ELF e_shentsize does not equal the class-defined section-header size"⟩
    let shend ← closes h.shoff (h.shnum*h.shentsize) ⟨out,.truncatedSectionTable,
      "complete ELF section-header table is not file-backed"⟩
    rejectIf (h.shstrndx ≥ h.shnum ∧ h.shstrndx ≠ 0) ⟨out,.sectionTableContradiction,
      "ELF e_shstrndx is outside the section table"⟩
    let t ← each (List.range h.shnum) ⟨[],max s.exact_end shend⟩ (elf_section h max_child_bytes)
    rejectIf (overlaps (sectionRanges t.secs) = true) ⟨out,.overlapContradiction,
      "ELF file-backed sections overlap"⟩
    rejectIf (h.shstrndx ≠ 0 ∧ (t.secs[h.shstrndx]?.map (·.type)) ≠ some 3)
      ⟨out,.sectionTableContradiction,
        "ELF section-name string-table index does not reference SHT_STRTAB"⟩
    rejectIf ((t.secs.any fun x => x.flags &&& 2 ≠ 0 ∧ x.size ≠ 0 ∧ x.mapped s.loads = false) = true)
      ⟨out,.sectionSegmentContradiction,
        "SHF_ALLOC section is not coherently covered by a PT_LOAD mapping"⟩
    pure t

def validate_elf (max_child_bytes : ℕ) : Probe Refusal NestedExecutableInfo := do
  let h ← elf_header
  let s ← elf_segments h max_child_bytes
  let t ← elf_sections h max_child_bytes s
  exactly sha256 h.out t.exact_end max_child_bytes
    "ELF declared file extent does not close inside parent bytes"
    "validated ELF exact extent exceeds the one-child safety ceiling"

def report (m : Probe Refusal NestedExecutableInfo) (child : Bytes) (parent_offset : ℕ) :
    NestedExecutableInfo :=
  match m child with
  | .ok (out,_) => {out with parent_offset}
  | .error e => {e.info with parent_offset}

def validate_nested_executable (parent : Bytes) (parent_offset : ℕ)
    (expected_format : String) (max_child_bytes : ℕ) : NestedExecutableInfo :=
  let x : NestedExecutableInfo := {format:=expected_format,parent_offset}
  if parent_offset ≥ parent.length then
    (Refusal.mk x .outsideParent "candidate offset is outside parent bytes").info
  else if max_child_bytes = 0 then
    (Refusal.mk x .sizeLimit "one-child safety ceiling is zero").info
  else
    let child := parent.drop parent_offset
    if expected_format = "PE" then report (validate_pe sha256 max_child_bytes) child parent_offset
    else if expected_format = "ELF" then
      report (validate_elf sha256 max_child_bytes) child parent_offset
    else
      (Refusal.mk x .unsupportedFormat
        "nested executable validator only accepts PE or ELF candidates").info

end AutoRefirst.NestedExecutable
