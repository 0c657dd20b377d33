import AutoRefirst.PortableExecutable
import AutoRefirst.Scan

/-!
# The scan of an ELF file

The headers, the segments, the sections and the names in the dynamic tables. Every offset, size
and count is a value of the file.
-/

namespace AutoRefirst.Elf
open Scan

def number (le : Bool) (b : Bytes) : ℕ := littleEndian (if le then b else b.reverse)

def numberAt (d : Bytes) (le : Bool) (off w : ℕ) : ℕ := number le ((d.drop off).take w)

def rd (d : Bytes) (off : ℕ) (le : Bool) (w : ℕ) : Scan (Option ℕ) := do
  let stop ← sum 64 off w
  if stop > d.length then return none
  else
    let b ← touch d off w
    return some (number le b)

/-- A field that stays 0 when it cannot be read. -/
def field (d : Bytes) (o k : ℕ) (le : Bool) (w : ℕ) : Scan ℕ := do
  let off ← sum 64 o k
  let r ← rd d off le w
  return r.getD 0

/-- The text up to a NUL, or up to the end. -/
def zstr (d : Bytes) (off : ℕ) : Scan Bytes :=
  if off ≥ d.length then return []
  else do
    let s := (d.drop off).takeWhile (· ≠ 0)
    let _ ← touch d off (min (s.length+1) (d.length-off))
    return s

structure ElfHeader where
  (elf64 littleEndian : Bool := false)
  (type machine entry phoff shoff phentsize phnum shentsize shnum shstrndx : ℕ := 0)
  deriving DecidableEq

variable (h : ElfHeader)

def ElfHeader.minPhentsize : ℕ := if h.elf64 then 56 else 32
def ElfHeader.minShentsize : ℕ := if h.elf64 then 64 else 40

def readHeaderFields (d : Bytes) (elf64 le : Bool) : Scan ElfHeader := do
  let w := if elf64 then 8 else 4
  let type ← field d 16 0 le 2
  let machine ← field d 18 0 le 2
  let entry ← field d 24 0 le w
  let phoff ← field d (if elf64 then 32 else 28) 0 le w
  let shoff ← field d (if elf64 then 40 else 32) 0 le w
  let phentsize ← field d (if elf64 then 54 else 42) 0 le 2
  let phnum ← field d (if elf64 then 56 else 44) 0 le 2
  let shentsize ← field d (if elf64 then 58 else 46) 0 le 2
  let shnum ← field d (if elf64 then 60 else 48) 0 le 2
  let shstrndx ← field d (if elf64 then 62 else 50) 0 le 2
  return { elf64,littleEndian:=le,type,machine,entry,phoff,shoff,phentsize,phnum,
           shentsize,shnum,shstrndx }

def readHeader (d : Bytes) : Scan (Except String ElfHeader) :=
  if d.length < 0x34 then return .error "not ELF"
  else do
    let ident ← touch d 0 6
    if ident.take 4 ≠ 0x7f::bytes "ELF" then return .error "not ELF"
    else
      let cls := ident.getD 4 0
      let data := ident.getD 5 0
      if cls ≠ 1 ∧ cls ≠ 2 then return .error "unsupported ELF class"
      else if data ≠ 1 ∧ data ≠ 2 then return .error "unsupported ELF endian"
      else
        let h ← readHeaderFields d (cls == 2) (data == 1)
        return .ok h

/-- No entry is read of a table whose entries are too small. -/
def tableCount (num entsize minimum : ℕ) : ℕ := if entsize ≥ minimum then num else 0

def laterEnd (fileEnd : ℕ) : Option (ℕ×ℕ) → Scan ℕ
  | some (off,size) => do
    let last ← sum 64 off size
    return max fileEnd last
  | none => return fileEnd

/-- The entries of a header table from number `i` on, at most `count`, and the end of what they
describe. -/
def scanTable {α : Type} (d : Bytes) (off entsize minimum : ℕ) (read : ℕ→Scan α)
    (extent : α → Option (ℕ×ℕ)) : ℕ → ℕ → ℕ → Scan (List α×ℕ)
  | 0, _, fileEnd => return ([],fileEnd)
  | count+1, i, fileEnd => do
    let o ← sum 64 off (i*entsize)
    let stop ← sum 64 o minimum
    if stop > d.length then return ([],fileEnd)
    else
      let s ← read o
      let fileEnd ← laterEnd fileEnd (extent s)
      let rest ← scanTable d off entsize minimum read extent count (i+1) fileEnd
      return (s::rest.1,rest.2)

structure ElfSegment where
  (type flags offset address fileSize memorySize align usedSize : ℕ := 0)

/-- The size of a content without the filling at its end. -/
def trimmedSize (b : Bytes) : ℕ := (b.reverse.dropWhile fun c => c == 0 || c == 0xcc).length

/-- The bytes of a range as far as they are in the file: their frequencies are counted, and the
filling is taken off. -/
def usedSize (d : Bytes) (off size : ℕ) : Scan ℕ :=
  if off < d.length then do
    let content ← touch d off (min size (d.length-off))
    return trimmedSize content
  else return 0

def readSegment (d : Bytes) (o : ℕ) : Scan ElfSegment := do
  let le := h.littleEndian
  let type ← field d o 0 le 4
  let flags ← field d o (if h.elf64 then 4 else 24) le 4
  let w := if h.elf64 then 8 else 4
  let offset ← field d o (if h.elf64 then 8 else 4) le w
  let address ← field d o (if h.elf64 then 16 else 8) le w
  let fileSize ← field d o (if h.elf64 then 32 else 16) le w
  let memorySize ← field d o (if h.elf64 then 40 else 20) le w
  let align ← field d o (if h.elf64 then 48 else 28) le w
  let used ← usedSize d offset fileSize
  return {type,flags,offset,address,fileSize,memorySize,align,usedSize:=used}

def scanSegments (d : Bytes) : Scan (List ElfSegment×ℕ) :=
  scanTable d h.phoff h.phentsize h.minPhentsize (readSegment h d)
    (fun s => some (s.offset,s.fileSize)) (tableCount h.phnum h.phentsize h.minPhentsize) 0 0

/-- The text of the last `PT_INTERP`. -/
def interpreterOf (d : Bytes) : List ElfSegment → Bytes → Scan Bytes
  | [], found => return found
  | s::rest, found =>
    if s.type = 3 ∧ s.offset < d.length then do
      let text ← zstr d s.offset
      interpreterOf d rest text
    else interpreterOf d rest found

def vaddrToFile (d : Bytes) (va : ℕ) : List ElfSegment → Scan (Option ℕ)
  | [] => return none
  | s::rest =>
    if s.type ≠ 1 ∨ va < s.address then vaddrToFile d va rest
    else
      let delta := va-s.address
      if delta < s.fileSize then do
        let off ← sum 64 s.offset delta
        if off < d.length then return some off
        else vaddrToFile d va rest
      else vaddrToFile d va rest

def vaddrFileExtent (d : Bytes) (va : ℕ) : List ElfSegment → Scan (Option (ℕ×ℕ))
  | [] => return none
  | s::rest =>
    if s.type ≠ 1 ∨ va < s.address then vaddrFileExtent d va rest
    else
      let delta := va-s.address
      if delta < s.fileSize then do
        let off ← sum 64 s.offset delta
        if off < d.length then return some (off,min (s.fileSize-delta) (d.length-off))
        else vaddrFileExtent d va rest
      else vaddrFileExtent d va rest

structure RawSec where
  (name type link flags addr off size entsize : ℕ := 0)

def readRawSec (d : Bytes) (o : ℕ) : Scan RawSec := do
  let le := h.littleEndian
  let w := if h.elf64 then 8 else 4
  let name ← field d o 0 le 4
  let type ← field d o 4 le 4
  let flags ← field d o 8 le w
  let addr ← field d o (if h.elf64 then 16 else 12) le w
  let off ← field d o (if h.elf64 then 24 else 16) le w
  let size ← field d o (if h.elf64 then 32 else 20) le w
  let link ← field d o (if h.elf64 then 40 else 24) le 4
  let entsize ← field d o (if h.elf64 then 56 else 36) le w
  return { name, type, link, flags, addr, off, size, entsize }

/-- `SHT_NOBITS` has no file bytes. -/
def RawSec.extent (rs : RawSec) : Option (ℕ×ℕ) :=
  if rs.type ≠ 8 then some (rs.off,rs.size) else none

def scanSections (d : Bytes) (fileEnd : ℕ) : Scan (List RawSec×ℕ) :=
  scanTable d h.shoff h.shentsize h.minShentsize (readRawSec h d) RawSec.extent
    (tableCount h.shnum h.shentsize h.minShentsize) 0 fileEnd

structure ElfInitArray where
  kind : Bytes
  (address offset size : ℕ := 0)
  entries : List ℕ := []

structure ElfSection where
  name : Bytes := []
  (type flags address offset size usedSize : ℕ := 0)
  array : Option ElfInitArray := none

def pointersFrom (d : Bytes) (off n w : ℕ) (le : Bool) : ℕ → ℕ → Scan (List ℕ)
  | 0, _ => return []
  | count+1, p => do
    let stop ← sum 64 p w
    if stop > n then return []
    else
      let at_ ← sum 64 off p
      let x ← rd d at_ le w
      match x with
      | none => return []
      | some v =>
        let rest ← pointersFrom d off n w le count stop
        return v::rest

def pointerEntries (d : Bytes) (off size : ℕ) (is64 le : Bool) : Scan (List ℕ) :=
  if off ≥ d.length then return []
  else pointersFrom d off (min size (d.length-off)) (if is64 then 8 else 4) le 4096 0

def initArrayNames : List Bytes := [".preinit_array",".init_array",".fini_array"].map bytes

def sectionName (d : Bytes) (strings : ℕ×ℕ) (rs : RawSec) : Scan Bytes :=
  if strings.1 < d.length ∧ rs.name < strings.2 then do
    let off ← sum 64 strings.1 rs.name
    zstr d off
  else return []

def sectionUsed (d : Bytes) (rs : RawSec) : Scan ℕ :=
  if rs.type ≠ 8 then usedSize d rs.off rs.size else return 0

def sectionArray (d : Bytes) (name : Bytes) (rs : RawSec) : Scan (Option ElfInitArray) :=
  if name ∈ initArrayNames then do
    let entries ← pointerEntries d rs.off rs.size h.elf64 h.littleEndian
    return some {kind:=name,address:=rs.addr,offset:=rs.off,size:=rs.size,entries}
  else return none

def readSection (d : Bytes) (strings : ℕ×ℕ) (rs : RawSec) : Scan ElfSection := do
  let name ← sectionName d strings rs
  let used ← sectionUsed d rs
  let array ← sectionArray h d name rs
  return { name,type:=rs.type,flags:=rs.flags,address:=rs.addr,offset:=rs.off,
           size:=rs.size,usedSize:=used,array }

def readSections (h : ElfHeader) (d : Bytes) (strings : ℕ×ℕ) : List RawSec → Scan (List ElfSection)
  | [] => return []
  | rs::rest => do
    let s ← readSection h d strings rs
    let tail ← readSections h d strings rest
    return s::tail

/-- The tags and values of `n` bytes from `p` on, up to a null tag; at most `room` are kept. -/
def dynamicTags (h : ElfHeader) (d : Bytes) (off n entsz : ℕ) : ℕ → ℕ → ℕ → Scan (List (ℕ×ℕ))
  | 0, _, _ => return []
  | count+1, room, p => do
    let stop ← sum 64 p entsz
    if stop > n then return []
    else
      let at_ ← sum 64 off p
      let w := if h.elf64 then 8 else 4
      let tag ← field d at_ 0 h.littleEndian w
      let val ← field d at_ w h.littleEndian w
      if tag = 0 ∨ room = 0 then return []
      else
        let rest ← dynamicTags h d off n entsz count (room-1) stop
        return (tag,val)::rest

/-- The names of `DT_NEEDED`, each once; a name behind the end is empty. -/
def neededFrom (d : Bytes) (base : ℕ) (admits : ℕ→Bool) :
    List (ℕ×ℕ) → List Bytes → Scan (List Bytes)
  | [], needed => return needed
  | (tag,val)::rest, needed =>
    if tag = 1 ∧ admits val = true then do
      let at_ ← sum 64 base val
      let lib ← zstr d at_
      neededFrom d base admits rest
        (if lib ≠ [] ∧ lib ∉ needed then needed++[lib] else needed)
    else neededFrom d base admits rest needed

def defaultEntsize : ℕ := if h.elf64 then 16 else 8

def linkedStrings (raw : List RawSec) (rs : RawSec) : ℕ×ℕ :=
  match raw[rs.link]? with
  | some s => (s.off,s.size)
  | none => (0,0)

/-- The tags of a section: as many as fit between its offset and its end. -/
def sectionTags (d : Bytes) (rs : RawSec) : Scan (List (ℕ×ℕ)) :=
  let entsz := if rs.entsize ≠ 0 then rs.entsize else defaultEntsize h
  let n := min rs.size (d.length-rs.off)
  dynamicTags h d rs.off n entsz (n/entsz+1) (n+1) 0

def neededOfSections (h : ElfHeader) (d : Bytes) (raw : List RawSec) :
    List RawSec → List Bytes → Scan (List Bytes)
  | [], needed => return needed
  | rs::rest, needed =>
    if rs.type ≠ 6 ∨ rs.off ≥ d.length then neededOfSections h d raw rest needed
    else do
      let tags ← sectionTags h d rs
      let strings := linkedStrings raw rs
      let needed ← neededFrom d strings.1
        (fun val => strings.1 < d.length && val < strings.2) tags needed
      neededOfSections h d raw rest needed

def lastTag (kind : ℕ) (tags : List (ℕ×ℕ)) : ℕ :=
  tags.foldl (fun v t => if t.1 = kind then t.2 else v) 0

def segmentTags (d : Bytes) (s : ElfSegment) : Scan (List (ℕ×ℕ)) :=
  let entsz := defaultEntsize h
  let n := min s.fileSize (d.length-s.offset)
  dynamicTags h d s.offset n entsz (n/entsz+1) 65536 0

def admitsString (tags : List (ℕ×ℕ)) (val : ℕ) : Bool :=
  lastTag 10 tags == 0 || val < lastTag 10 tags

def neededOfSegments (h : ElfHeader) (d : Bytes) (segments : List ElfSegment) :
    List ElfSegment → List Bytes → Scan (List Bytes)
  | [], needed => return needed
  | s::rest, needed =>
    if s.type ≠ 2 ∨ s.offset ≥ d.length then neededOfSegments h d segments rest needed
    else do
      let tags ← segmentTags h d s
      let base ← vaddrToFile d (lastTag 5 tags) segments
      match base with
      | none => neededOfSegments h d segments rest needed
      | some base =>
        let needed ← neededFrom d base (admitsString tags) tags needed
        neededOfSegments h d segments rest needed

structure ElfInfo where
  valid : Bool := false
  error : String := ""
  header : ElfHeader := {}
  sectionTablePresent : Bool := false
  interpreter : Bytes := []
  (programHeaderCount sectionHeaderCount : ℕ := 0)
  segments : List ElfSegment := []
  rawSections : List RawSec := []
  sections : List ElfSection := []
  needed : List Bytes := []
  (overlayOffset overlaySize : ℕ := 0)

def sectionStrings (raw : List RawSec) : ℕ×ℕ :=
  match raw[h.shstrndx]? with
  | some s => (s.off,s.size)
  | none => (0,0)

/-- What lies behind everything that the headers describe. -/
def overlay (d : Bytes) (fileEnd : ℕ) : ℕ×ℕ :=
  if fileEnd < d.length then (fileEnd,d.length-fileEnd) else (0,0)

def scanFile (d : Bytes) : Scan ElfInfo := do
  let (segments,fileEnd) ← scanSegments h d
  let interpreter ← interpreterOf d segments []
  let (raw,fileEnd) ← scanSections h d fileEnd
  let sections ← readSections h d (sectionStrings h raw) raw
  let needed ← neededOfSections h d raw raw []
  let needed ← neededOfSegments h d segments segments needed
  let behind := overlay d fileEnd
  return {
    valid:=true,header:=h,sectionTablePresent:=h.shoff ≠ 0 && h.shentsize ≠ 0,interpreter
    programHeaderCount:=min segments.length 0xffff,sectionHeaderCount:=min raw.length 0xffff
    segments,rawSections:=raw,sections,needed,overlayOffset:=behind.1,overlaySize:=behind.2 }

def parseElf (d : Bytes) : Scan ElfInfo := do
  let header ← readHeader d
  match header with
  | .error message => return {error:=message}
  | .ok h => scanFile h d

end AutoRefirst.Elf

/-!
## When the scan of an ELF file stays inside the file

A read is checked by a sum, so it can leave the file only after a sum has wrapped. Which sums
can wrap is a condition on the fields of the headers.
-/

namespace AutoRefirst.Elf
open Scan

def Guarded {α : Type} (x : Scan α) : Prop := x.fits=true → x.inside=true

section
variable {α β : Type} {d : Bytes}

theorem Guarded.pure (a:α) : Guarded (pure a:Scan α):=fun _=>rfl

theorem Guarded.bind {x:Scan α} {f:α→Scan β} (hx:Guarded x)
    (hf:∀a,Guarded (f a)) : Guarded (x >>= f):=by
  intro h
  obtain ⟨hxf,hff⟩:=(bind_fits x f).mp h
  exact (bind_inside x f).mpr ⟨hx hxf,hf _ hff⟩

theorem Guarded.sum (w a b:ℕ) : Guarded (Scan.sum w a b):=fun _=>rfl

theorem Guarded.touch {off n:ℕ} (h:off+n≤d.length) : Guarded (Scan.touch d off n):=by
  rw [touch_eq h]
  exact Guarded.pure _

theorem guarded_rd (d:Bytes) (off:ℕ) (le:Bool) (w:ℕ) : Guarded (rd d off le w):=by
  intro h
  unfold rd at h ⊢
  obtain ⟨hsum,hrest⟩:=(bind_fits _ _).mp h
  rw [sum_fits] at hsum
  rw [sum_eq hsum,pure_bind]
  split
  · rfl
  · rw [touch_eq (by omega),pure_bind]
    rfl

theorem guarded_field (d:Bytes) (o k:ℕ) (le:Bool) (w:ℕ) : Guarded (field d o k le w):=
  (Guarded.sum _ _ _).bind fun _=>(guarded_rd _ _ _ _).bind fun _=>Guarded.pure _

def stringAt (d : Bytes) (off : ℕ) : Bytes := (d.drop off).takeWhile (· ≠ 0)

theorem zstr_eq (d:Bytes) (off:ℕ) : zstr d off=pure (stringAt d off):=by
  unfold zstr stringAt
  split
  · rename_i h
    rw [List.drop_eq_nil_of_le h]
    rfl
  · dsimp only
    rw [touch_eq (by omega),pure_bind]

/-- The size without filling of the part of a range that is in the file. -/
def usedAt (d : Bytes) (off size : ℕ) : ℕ := trimmedSize ((d.drop off).take (min size (d.length-off)))

theorem usedSize_eq (d:Bytes) (off size:ℕ) : usedSize d off size=pure (usedAt d off size):=by
  unfold usedSize usedAt
  split
  · rw [touch_eq (by omega),pure_bind]
  · rename_i h
    rw [List.drop_eq_nil_of_le (by omega),List.take_nil]
    rfl

theorem guarded_zstr (d:Bytes) (off:ℕ) : Guarded (zstr d off):=by
  rw [zstr_eq]
  exact Guarded.pure _

theorem guarded_usedSize (d:Bytes) (off size:ℕ) : Guarded (usedSize d off size):=by
  rw [usedSize_eq]
  exact Guarded.pure _

theorem guarded_readHeaderFields (d:Bytes) (elf64 le:Bool) :
    Guarded (readHeaderFields d elf64 le):=by
  unfold readHeaderFields
  dsimp only
  repeat refine (guarded_field _ _ _ _ _).bind fun _=>?_
  exact Guarded.pure _

theorem guarded_readHeader (d:Bytes) : Guarded (readHeader d):=by
  unfold readHeader
  split
  · exact Guarded.pure _
  · rename_i hlen
    refine (Guarded.touch (by omega)).bind ?_
    intro ident
    split
    · exact Guarded.pure _
    dsimp only
    split
    · exact Guarded.pure _
    split
    · exact Guarded.pure _
    · exact (guarded_readHeaderFields _ _ _).bind fun _=>Guarded.pure _

variable (h : ElfHeader)

theorem guarded_readSegment (d:Bytes) (o:ℕ) : Guarded (readSegment h d o):=by
  unfold readSegment
  dsimp only
  repeat refine (guarded_field _ _ _ _ _).bind fun _=>?_
  exact (guarded_usedSize _ _ _).bind fun _=>Guarded.pure _

theorem guarded_readRawSec (d:Bytes) (o:ℕ) : Guarded (readRawSec h d o):=by
  unfold readRawSec
  dsimp only
  repeat refine (guarded_field _ _ _ _ _).bind fun _=>?_
  exact Guarded.pure _

theorem guarded_laterEnd (fileEnd:ℕ) (e:Option (ℕ×ℕ)) : Guarded (laterEnd fileEnd e):=by
  cases e with
  | none=>exact Guarded.pure _
  | some e=>exact (Guarded.sum _ _ _).bind fun _=>Guarded.pure _

theorem guarded_scanTable {off entsize minimum:ℕ} {read:ℕ→Scan α}
    {extent:α → Option (ℕ×ℕ)} (hread:∀o,Guarded (read o)) (count i fileEnd:ℕ) :
    Guarded (scanTable d off entsize minimum read extent count i fileEnd):=by
  induction count generalizing i fileEnd with
  | zero=>exact Guarded.pure _
  | succ count ih=>
    refine (Guarded.sum _ _ _).bind fun o=>(Guarded.sum _ _ _).bind fun stop=>?_
    split
    · exact Guarded.pure _
    · refine (hread o).bind fun s=>(guarded_laterEnd _ _).bind fun fileEnd=>?_
      exact (ih (i+1) fileEnd).bind fun _=>Guarded.pure _

theorem guarded_interpreterOf (segments:List ElfSegment) (found:Bytes) :
    Guarded (interpreterOf d segments found):=by
  induction segments generalizing found with
  | nil=>exact Guarded.pure _
  | cons s rest ih=>
    rw [interpreterOf]
    split
    · exact (guarded_zstr _ _).bind fun text=>ih text
    · exact ih found

theorem guarded_vaddrToFile (va:ℕ) (segments:List ElfSegment) :
    Guarded (vaddrToFile d va segments):=by
  induction segments with
  | nil=>exact Guarded.pure _
  | cons s rest ih=>
    rw [vaddrToFile]
    split
    · exact ih
    dsimp only
    split
    · refine (Guarded.sum _ _ _).bind fun off=>?_
      split
      · exact Guarded.pure _
      · exact ih
    · exact ih

theorem guarded_pointersFrom (off n w:ℕ) (le:Bool) (count p:ℕ) :
    Guarded (pointersFrom d off n w le count p):=by
  induction count generalizing p with
  | zero=>exact Guarded.pure _
  | succ count ih=>
    refine (Guarded.sum _ _ _).bind fun stop=>?_
    split
    · exact Guarded.pure _
    · refine (Guarded.sum _ _ _).bind fun at_=>(guarded_rd _ _ _ _).bind fun x=>?_
      cases x with
      | none=>exact Guarded.pure _
      | some v=>exact (ih stop).bind fun _=>Guarded.pure _

theorem guarded_pointerEntries (off size:ℕ) (is64 le:Bool) :
    Guarded (pointerEntries d off size is64 le):=by
  unfold pointerEntries
  split
  · exact Guarded.pure _
  · exact guarded_pointersFrom _ _ _ _ _ _

theorem guarded_readSection (strings:ℕ×ℕ) (rs:RawSec) :
    Guarded (readSection h d strings rs):=by
  have hname : Guarded (sectionName d strings rs):=by
    unfold sectionName
    split
    · exact (Guarded.sum _ _ _).bind fun off=>guarded_zstr _ _
    · exact Guarded.pure _
  have hused : Guarded (sectionUsed d rs):=by
    unfold sectionUsed
    split
    · exact guarded_usedSize _ _ _
    · exact Guarded.pure _
  have harray : ∀name,Guarded (sectionArray h d name rs):=by
    intro name
    unfold sectionArray
    split
    · exact (guarded_pointerEntries _ _ _ _).bind fun _=>Guarded.pure _
    · exact Guarded.pure _
  exact hname.bind fun name=>hused.bind fun _=>(harray name).bind fun _=>Guarded.pure _

theorem guarded_readSections (strings:ℕ×ℕ) (raw:List RawSec) :
    Guarded (readSections h d strings raw):=by
  induction raw with
  | nil=>exact Guarded.pure _
  | cons rs rest ih=>
    exact (guarded_readSection h strings rs).bind fun _=>ih.bind fun _=>Guarded.pure _

theorem guarded_dynamicTags (off n entsz count room p:ℕ) :
    Guarded (dynamicTags h d off n entsz count room p):=by
  induction count generalizing room p with
  | zero=>exact Guarded.pure _
  | succ count ih=>
    refine (Guarded.sum _ _ _).bind fun stop=>?_
    split
    · exact Guarded.pure _
    · refine (Guarded.sum _ _ _).bind fun at_=>(guarded_field _ _ _ _ _).bind fun tag=>
        (guarded_field _ _ _ _ _).bind fun val=>?_
      split
      · exact Guarded.pure _
      · exact (ih _ _).bind fun _=>Guarded.pure _

theorem guarded_neededFrom (base:ℕ) (admits:ℕ→Bool) (tags:List (ℕ×ℕ))
    (needed:List Bytes) : Guarded (neededFrom d base admits tags needed):=by
  induction tags generalizing needed with
  | nil=>exact Guarded.pure _
  | cons t rest ih=>
    rw [neededFrom]
    split
    · exact (Guarded.sum _ _ _).bind fun at_=>(guarded_zstr _ _).bind fun lib=>ih _
    · exact ih needed

theorem guarded_neededOfSections (raw l:List RawSec) (needed:List Bytes) :
    Guarded (neededOfSections h d raw l needed):=by
  induction l generalizing needed with
  | nil=>exact Guarded.pure _
  | cons rs rest ih=>
    rw [neededOfSections]
    split
    · exact ih needed
    · exact (guarded_dynamicTags _ _ _ _ _ _ _).bind fun tags=>
        (guarded_neededFrom _ _ _ _).bind fun needed=>ih needed

theorem guarded_neededOfSegments (segments l:List ElfSegment)
    (needed:List Bytes) : Guarded (neededOfSegments h d segments l needed):=by
  induction l generalizing needed with
  | nil=>exact Guarded.pure _
  | cons s rest ih=>
    rw [neededOfSegments]
    split
    · exact ih needed
    · refine (guarded_dynamicTags _ _ _ _ _ _ _).bind fun tags=>
        (guarded_vaddrToFile _ _).bind fun base=>?_
      cases base with
      | none=>exact ih needed
      | some base=>exact (guarded_neededFrom _ _ _ _).bind fun needed=>ih needed

theorem guarded_parseElf (d:Bytes) : Guarded (parseElf d):=by
  refine (guarded_readHeader d).bind fun header=>?_
  cases header with
  | error message=>exact Guarded.pure _
  | ok h=>
    refine (guarded_scanTable (guarded_readSegment h d) _ _ _).bind fun segments=>?_
    refine (guarded_interpreterOf _ _).bind fun interpreter=>?_
    refine (guarded_scanTable (guarded_readRawSec h d) _ _ _).bind fun raw=>?_
    refine (guarded_readSections _ _ _).bind fun sections=>?_
    refine (guarded_neededOfSections _ _ _ _).bind fun needed=>?_
    exact (guarded_neededOfSegments _ _ _ _).bind fun needed=>Guarded.pure _

end

end AutoRefirst.Elf
