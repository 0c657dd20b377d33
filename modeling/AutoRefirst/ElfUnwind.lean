import AutoRefirst.ElfScan

/-!
# The unwind plane of an ELF file

The pointers of GNU exception-handling data in their encodings, the header with its search table,
and the records of `.eh_frame`. The symbols of the dynamic plane and the sizes of the rows that are
charged are parameters; what a failed parse had collected is dropped.
-/

namespace AutoRefirst.Elf

/-- Why the plane is not resolved. -/
inductive EhStop
  | unsupported (message : String)
  | failed (message : String)
  deriving DecidableEq

variable (d : Bytes)

def byteAt (off : ℕ) : UInt8 := d.getD off 0

/-- `eh_uleb`, with the bytes that may still be read: the number and the place behind it. -/
def ehUlebFrom (d : Bytes) (stop : ℕ) : ℕ → ℕ → ℕ → ℕ → Option (ℕ×ℕ)
  | 0, _, _, _ => none
  | n+1, off, shift, v =>
    if off < stop then
      let b := (byteAt d off).toNat
      if shift = 63 ∧ b &&& 0x7e ≠ 0 then none
      else
        let v := v + b % 128 * 2^shift
        if b < 128 then some (v,off+1) else ehUlebFrom d stop n (off+1) (shift+7) v
    else none

def ehUleb (off stop : ℕ) : Option (ℕ×ℕ) := ehUlebFrom d stop 10 off 0 0

def signed (bits n : ℕ) : ℤ := if 2*n < 2^bits then n else (n : ℤ)-2^bits

def ehSlebFrom (d : Bytes) (stop : ℕ) : ℕ → ℕ → ℕ → ℕ → Option (ℤ×ℕ)
  | 0, _, _, _ => none
  | n+1, off, shift, raw =>
    if off < stop then
      let b := (byteAt d off).toNat
      if shift = 63 ∧ b &&& 0x7e ≠ 0 ∧ b &&& 0x7e ≠ 0x7e then none
      else
        let raw := (raw + b % 128 * 2^shift) % 2^64
        if b < 128 then
          let raw := if 64 ≤ b ∧ shift+7 < 64 then (raw+(2^64-2^(shift+7))) % 2^64
            else raw
          some (signed 64 raw,off + 1)
        else ehSlebFrom d stop n (off+1) (shift+7) raw
    else none

def ehSleb (off stop : ℕ) : Option (ℤ×ℕ) := ehSlebFrom d stop 10 off 0 0

def ehAddSigned (base : UInt64) (delta : ℤ) : Option UInt64 :=
  if 0 ≤ delta then
    if delta.toNat > 2^64-1-base.toNat then none else some (.ofNat (base.toNat+delta.toNat))
  else if (-delta).toNat > base.toNat then none
  else some (.ofNat (base.toNat-(-delta).toNat))

def ehBase (app : ℕ) (fieldVa : UInt64) (datarel funcrel : Option UInt64) : Except EhStop UInt64 :=
  if app = 0x20 then .error (.unsupported "DW_EH_PE_textrel base is unavailable")
  else if app = 0x30 then
    match datarel with
    | none => .error (.unsupported "DW_EH_PE_datarel base is unavailable")
    | some base => .ok base
  else if app = 0x40 then
    match funcrel with
    | none => .error (.unsupported "DW_EH_PE_funcrel base is unavailable")
    | some base => .ok base
  else if app = 0x10 then .ok fieldVa
  else if app = 0 ∨ app = 0x50 then .ok 0
  else .error (.unsupported "unsupported DW_EH_PE application")

def ehFixed (le : Bool) (name : String) (off stop w : ℕ) : Except EhStop (ℕ×ℕ) :=
  if off+w ≤ stop ∧ off+w ≤ d.length then .ok (numberAt d le off w,off + w)
  else .error (.failed ("truncated DW_EH_PE_"++name))

/-- The number in its format, and the place behind it. -/
def ehNumber (le : Bool) (fmt off stop : ℕ) : Except EhStop (ℤ×ℕ) :=
  match fmt with
  | 0x00 => (ehFixed d le "absptr" off stop 8).map fun r => (r.1,r.2)
  | 0x01 =>
    match ehUleb d off stop with
    | none => .error (.failed "invalid DW_EH_PE_uleb128")
    | some r => .ok (r.1,r.2)
  | 0x02 => (ehFixed d le "udata2" off stop 2).map fun r => (r.1,r.2)
  | 0x03 => (ehFixed d le "udata4" off stop 4).map fun r => (r.1,r.2)
  | 0x04 => (ehFixed d le "udata8" off stop 8).map fun r => (r.1,r.2)
  | 0x09 =>
    match ehSleb d off stop with
    | none => .error (.failed "invalid DW_EH_PE_sleb128")
    | some r => .ok r
  | 0x0a => (ehFixed d le "sdata2" off stop 2).map fun r => (signed 16 r.1,r.2)
  | 0x0b => (ehFixed d le "sdata4" off stop 4).map fun r => (signed 32 r.1,r.2)
  | 0x0c => (ehFixed d le "sdata8" off stop 8).map fun r => (signed 64 r.1,r.2)
  | _ => .error (.unsupported "unsupported DW_EH_PE format")

/-- The filling in front of an aligned value. -/
def ehPadding (app : ℕ) (fieldVa : UInt64) : ℕ :=
  if app = 0x50 then (8 - fieldVa.toNat % 8) % 8 else 0

def ehApply (app : ℕ) (base : UInt64) (n : ℤ) : Except EhStop UInt64 :=
  if n = 0 then .ok 0
  else if app = 0 ∨ app = 0x50 then
    if n < 0 then .error (.failed "negative absolute DW_EH_PE value") else .ok (.ofNat n.toNat)
  else
    match ehAddSigned base n with
    | none => .error (.failed "relative DW_EH_PE value overflows address space")
    | some v => .ok v

/-- Where a pointer is read, and what it may be relative to. -/
structure EhField where
  (off stop enc : ℕ)
  fieldVa : UInt64
  (datarel funcrel : Option UInt64 := none)

variable (c : EhField)

def EhField.app : ℕ := c.enc &&& 0x70
def EhField.fmt : ℕ := c.enc &&& 0x0f
def EhField.indirect : Bool := c.enc &&& 0x80 ≠ 0

/-- The value, and the place behind it. -/
def ehReadEncoded (le : Bool) (c : EhField) : Except EhStop (UInt64×ℕ) :=
  if c.enc = 0xff then .error (.unsupported "DW_EH_PE_omit has no value")
  else
    match ehBase c.app c.fieldVa c.datarel c.funcrel with
    | .error e => .error e
    | .ok base =>
      if c.off > c.stop then .error (.failed "DW_EH_PE value offset exceeds record")
      else if c.app = 0x50 ∧ c.fmt ≠ 0 then
        .error (.unsupported "DW_EH_PE_aligned with non-absptr format is unsupported")
      else if ehPadding c.app c.fieldVa > c.stop-c.off then
        .error (.failed "aligned DW_EH_PE value exceeds record")
      else
        match ehNumber d le c.fmt (c.off + ehPadding c.app c.fieldVa) c.stop with
        | .error e => .error e
        | .ok (n,next) =>
          match ehApply c.app base n with
          | .error e => .error e
          | .ok v => .ok (v,next)

structure ElfUnwindCie where
  (index fileOffset : ℕ := 0)
  va : UInt64 := 0
  (recordSize version addressSize segmentSelectorSize codeAlignment returnAddressRegister : ℕ := 0)
  dataAlignment : ℤ := 0
  augmentation : Bytes := []
  fdeEncoding : ℕ := 0
  (lsdaEncoding personalityEncoding : ℕ := 0xff)
  personalityReferenceVa : UInt64 := 0
  personalityIndirect : Bool := false
  personalityFileOffset : Option ℕ := none
  signalFrame : Bool := false
  personalitySymbol : Bytes := []
  personalityImported : Bool := false
  (cfiFileOffset cfiSize : ℕ := 0)

structure ElfUnwindFde where
  (index cieIndex fileOffset : ℕ := 0)
  va : UInt64 := 0
  (recordSize cieFileOffset : ℕ := 0)
  (cieVa functionStartVa functionSize functionEndVa : UInt64 := 0)
  functionFileOffset : Option ℕ := none
  lsdaReferenceVa : UInt64 := 0
  lsdaIndirect : Bool := false
  lsdaFileOffset : Option ℕ := none
  (cfiFileOffset cfiSize : ℕ := 0)
  headerMatched : Bool := false

structure HeaderRow where
  entryFileOffset : ℕ
  (functionStartVa fdeVa : UInt64)

/-- A pointer that was decoded. -/
structure Decoded where
  field : EhField
  value : UInt64
  next : ℕ

/-- The memory that was charged, and the pointers that were decoded. -/
structure UnwindLog where
  memory : ℕ := 0
  decoded : List Decoded := []

abbrev Unwind := StateT UnwindLog (Except EhStop)

/-- The input of the plane: the file, its tables, and what the dynamic plane names. -/
structure UnwindInput where
  data : Bytes
  (elf64 le : Bool)
  machine : ℕ
  segments : List ElfSegment
  sections : List ElfSection
  /-- The name of a personality reference, and whether it is imported. -/
  symbolOf : UInt64 → Bool → Bytes×Bool
  /-- The sizes of a header row, a CIE and an FDE. -/
  (headerRowSize cieSize fdeSize : ℕ)

def maxFdes : ℕ := 4000000
def maxCies : ℕ := 1000000
def maxUnwindMemory : ℕ := 256*1024*1024
def mapNodeEstimate : ℕ := 64

def stopWith {α : Type} (e : EhStop) : Unwind α := fun _ => .error e

def failWith {α : Type} (message : String) : Unwind α := stopWith (.failed message)

def failIf (bad : Bool) (message : String) : Unwind Unit :=
  if bad then failWith message else pure ()

def unsupportedIf (bad : Bool) (message : String) : Unwind Unit :=
  if bad then stopWith (.unsupported message) else pure ()

/-- A number that could not be read is a failure. -/
def orFail {α : Type} (message : String) : Option α → Unwind α
  | none => failWith message
  | some a => pure a

def charge (n : ℕ) (what : String) : Unwind Unit := fun log =>
  if n > maxUnwindMemory-log.memory then
    .error (.failed ("unwind metadata memory budget exceeded by "++what))
  else .ok ((),{log with memory:=log.memory+n})

variable (x : UnwindInput)

def decode (what : String) (c : EhField) : Unwind (UInt64×ℕ) := fun log =>
  match ehReadEncoded x.data x.le c with
  | .error (.unsupported m) => .error (.unsupported (what++": "++m))
  | .error (.failed m) => .error (.failed (what++": "++m))
  | .ok (v,next) => .ok ((v,next),{log with decoded:=log.decoded++[⟨c,v,next⟩]})

def ElfSegment.holds (s : ElfSegment) (exec : Bool) (va size : ℕ) : Bool :=
  s.type = 1 && (!exec || s.flags % 2 = 1) && s.address ≤ va &&
    va - s.address < s.memorySize && size ≤ s.memorySize-(va-s.address)

def loadRange (va size : UInt64) (exec : Bool) : Option (Option ℕ) :=
  if size = 0 || va.toNat > 2^64-1-size.toNat then none
  else
    (x.segments.find? (·.holds exec va.toNat size.toNat)).map fun s =>
      let delta := va.toNat-s.address
      if delta < s.fileSize && size.toNat ≤ s.fileSize-delta &&
          s.offset + delta < x.data.length && size.toNat ≤ x.data.length-(s.offset+delta) then
        some (s.offset+delta)
      else none

def fileExtent (va : UInt64) : Option (ℕ×ℕ) := (vaddrFileExtent x.data va.toNat x.segments).value

structure EhHeader where
  present : Bool := false
  frameVa : UInt64 := 0
  rows : List HeaderRow := []

/-- The search table from the `i`-th row on. -/
def headerRows (hoff stop : ℕ) (hva : UInt64) (enc : ℕ) :
    ℕ → ℕ → List HeaderRow → Unwind (ℕ×List HeaderRow)
  | 0, p, rows => pure (p,rows)
  | n+1, p, rows => do
    let (start,q) ← decode x ".eh_frame_hdr table initial location"
      {off:=p,stop,enc,fieldVa:=hva + .ofNat (p-hoff),datarel:=some hva}
    let (fdeVa,r) ← decode x ".eh_frame_hdr table FDE pointer"
      {off:=q,stop,enc,fieldVa:=hva + .ofNat (q-hoff),datarel:=some hva}
    unsupportedIf (enc &&& 0x80 ≠ 0) "indirect .eh_frame_hdr table entries are unsupported"
    failIf (start = 0 || fdeVa = 0) ".eh_frame_hdr table contains null entry"
    failIf (rows.getLast?.any fun row => decide (start < row.functionStartVa))
      ".eh_frame_hdr search table is not sorted"
    charge (2*x.headerRowSize) ".eh_frame_hdr rows"
    headerRows hoff stop hva enc n r (rows++[⟨p,start,fdeVa⟩])

def parseEhHeader (hoff : ℕ) (hva : UInt64) (hsize : ℕ) : Unwind EhHeader := do
  let d := x.data
  failIf (hoff > d.length || hsize > d.length-hoff || hsize < 4)
    ".eh_frame_hdr file range invalid"
  failIf (!(fileExtent x hva).any fun ex => ex.1 = hoff && hsize ≤ ex.2)
    ".eh_frame_hdr is not exactly file-backed by PT_LOAD"
  let stop := hoff+hsize
  let ptrEnc := (byteAt d (hoff+1)).toNat
  let countEnc := (byteAt d (hoff+2)).toNat
  let tableEnc := (byteAt d (hoff+3)).toNat
  unsupportedIf (byteAt d hoff ≠ 1) "unsupported .eh_frame_hdr version"
  unsupportedIf (ptrEnc = 0xff) ".eh_frame_hdr omits the .eh_frame pointer"
  let (frameVa,p) ← decode x ".eh_frame_hdr eh_frame pointer"
    {off:=hoff+4,stop,enc:=ptrEnc,fieldVa:=hva+4,datarel:=some hva}
  unsupportedIf (ptrEnc &&& 0x80 ≠ 0) "indirect .eh_frame_hdr eh_frame pointer is unsupported"
  failIf (frameVa = 0) ".eh_frame_hdr resolved a null .eh_frame pointer"
  unsupportedIf (countEnc = 0xff) ".eh_frame_hdr omits the FDE count"
  let (count,p) ← decode x ".eh_frame_hdr FDE count"
    {off:=p,stop,enc:=countEnc,fieldVa:=hva + .ofNat (p-hoff),datarel:=some hva}
  unsupportedIf (countEnc &&& 0x80 ≠ 0) "indirect .eh_frame_hdr FDE count is unsupported"
  failIf (count.toNat > maxFdes) ".eh_frame_hdr FDE count exceeds limit"
  unsupportedIf (count ≠ 0 && tableEnc = 0xff) ".eh_frame_hdr omits a non-empty search table"
  let (p,rows) ← headerRows x hoff stop hva tableEnc count.toNat p []
  failIf (((d.take stop).drop p).any (· ≠ 0)) ".eh_frame_hdr has non-zero trailing bytes"
  return {present:=true,frameVa,rows}

/-- Where the records lie, and in which virtual addresses. -/
structure FramePlace where
  off : ℕ
  va : UInt64
  size : ℕ
  exact : Bool

variable (f : FramePlace)

def FramePlace.vaOf (p : ℕ) : UInt64 := f.va + .ofNat (p-f.off)

def augmentationLetters (f : FramePlace) (ae : ℕ) :
    Bytes → ℕ → ElfUnwindCie → Unwind (ℕ×ElfUnwindCie)
  | [], p, cie => pure (p,cie)
  | ch::rest, p, cie =>
    if ch = byte 'L' then do
      failIf (p ≥ ae) "truncated CIE LSDA encoding"
      augmentationLetters f ae rest (p+1)
        {cie with lsdaEncoding:=(byteAt x.data p).toNat}
    else if ch = byte 'R' then do
      failIf (p ≥ ae) "truncated CIE FDE encoding"
      augmentationLetters f ae rest (p+1)
        {cie with fdeEncoding:=(byteAt x.data p).toNat}
    else if ch = byte 'P' then do
      failIf (p ≥ ae) "truncated CIE personality encoding"
      let enc := (byteAt x.data p).toNat
      let indirect : Bool := enc &&& 0x80 ≠ 0
      let (value,q) ← decode x "CIE personality reference"
        {off:=p+1,stop:=ae,enc,fieldVa:=f.vaOf (p+1)}
      let range := if value = 0 then some none else loadRange x value 1 (!indirect)
      failIf (range.isNone && indirect)
        "indirect CIE personality slot is outside PT_LOAD memory"
      failIf (range.isNone && !indirect)
        "direct CIE personality address is outside executable PT_LOAD memory"
      augmentationLetters f ae rest q
        { cie with
          personalityEncoding:=enc,personalityReferenceVa:=value,personalityIndirect:=indirect
          personalityFileOffset:=range.join }
    else if ch = byte 'S' then augmentationLetters f ae rest p {cie with signalFrame:=true}
    else
      stopWith (.unsupported ("unsupported CIE augmentation character: "++textOf [ch]))

/-- The text up to its zero byte, and the place behind that. -/
def augmentationText (p rend : ℕ) : Unwind (Bytes×ℕ) := do
  let text := ((x.data.take rend).drop p).takeWhile (· ≠ 0)
  failIf (p+text.length ≥ rend) "unterminated .eh_frame CIE augmentation string"
  failIf (text.length > 128) ".eh_frame CIE augmentation string exceeds limit"
  failIf (text.any fun c => c < 0x20 || c > 0x7e) "non-ASCII .eh_frame CIE augmentation string"
  return (text,p+text.length+1)

def addressSizes (version p rend : ℕ) : Unwind (ℕ×ℕ×ℕ) :=
  if version = 4 then do
    failIf (rend-p < 2) "truncated DWARF4 CIE address-size fields"
    let address := (byteAt x.data p).toNat
    let selector := (byteAt x.data (p+1)).toNat
    unsupportedIf (address ≠ 8 || selector ≠ 0) "unsupported DWARF4 CIE address/segment size"
    return (address,selector,p+2)
  else return (8,0,p)

def returnRegister (version p rend : ℕ) : Unwind (ℕ×ℕ) :=
  if version = 1 then do
    failIf (p ≥ rend) "truncated CIE return-address register"
    return ((byteAt x.data p).toNat,p+1)
  else orFail "invalid CIE return-address register" (ehUleb x.data p rend)

def augmentationEnd (message : String) (p rend : ℕ) : Unwind (ℕ×ℕ) := do
  let (length,q) ← orFail message (ehUleb x.data p rend)
  failIf (length > rend-q) message
  return (q,q+length)

def cieAugmentation (p rend : ℕ) (cie : ElfUnwindCie) : Unwind (ℕ×ElfUnwindCie) :=
  match cie.augmentation with
  | [] => return (p,cie)
  | c::letters =>
    if c = byte 'z' then do
      let (p,ae) ← augmentationEnd x "invalid CIE augmentation-data length" p rend
      let (p,cie) ← augmentationLetters x f ae letters p cie
      failIf (p ≠ ae) "CIE augmentation-data length does not match known fields"
      return (ae,cie)
    else stopWith (.unsupported "legacy non-z CIE augmentation is unsupported")

/-- The rows so far; `order` has the extent of every record. -/
structure FrameRows where
  cies : List ElfUnwindCie := []
  fdes : List ElfUnwindFde := []
  order : List (ℕ×ℕ) := []

def parseCie (rows : FrameRows) (rec len : ℕ) : Unwind ElfUnwindCie := do
  let d := x.data
  let rend := rec+4+len
  failIf (rows.cies.length ≥ maxCies) ".eh_frame CIE count exceeds limit"
  failIf (rec+8 ≥ rend) "truncated .eh_frame CIE version"
  let version := (byteAt d (rec+8)).toNat
  unsupportedIf (version ≠ 1 && version ≠ 3 && version ≠ 4) "unsupported .eh_frame CIE version"
  let (augmentation,p) ← augmentationText x (rec+9) rend
  let (addressSize,segmentSelectorSize,p) ← addressSizes x version p rend
  let (codeAlignment,p) ← orFail "invalid .eh_frame CIE code alignment" (ehUleb d p rend)
  failIf (codeAlignment = 0) "invalid .eh_frame CIE code alignment"
  let (dataAlignment,p) ← orFail "invalid .eh_frame CIE data alignment" (ehSleb d p rend)
  let (returnAddressRegister,p) ← returnRegister x version p rend
  let (p,cie) ← cieAugmentation x f p rend
    { index:=rows.cies.length,fileOffset:=rec,va:=f.vaOf rec,recordSize:=4+len,
      version,addressSize,segmentSelectorSize,codeAlignment,dataAlignment,
      returnAddressRegister,augmentation }
  let symbol := if cie.personalityReferenceVa = 0 then ([],false)
    else x.symbolOf cie.personalityReferenceVa cie.personalityIndirect
  charge (2*x.cieSize+mapNodeEstimate+cie.augmentation.length+symbol.1.length)
    "CIE rows/bookkeeping"
  return { cie with
    cfiFileOffset:=p,cfiSize:=rend-p,personalitySymbol:=symbol.1,personalityImported:=symbol.2 }

def fdeAugmentation (cie : ElfUnwindCie) (p rend : ℕ) (fde : ElfUnwindFde) :
    Unwind (ℕ×ElfUnwindFde) :=
  if cie.augmentation.head? = some (byte 'z') then do
    let (p,ae) ← augmentationEnd x "invalid FDE augmentation-data length" p rend
    if cie.lsdaEncoding = 0xff then do
      failIf (p ≠ ae) "FDE augmentation-data length does not match known fields"
      return (ae,fde)
    else do
      let (value,q) ← decode x "FDE LSDA reference"
        { off:=p,stop:=ae,enc:=cie.lsdaEncoding,fieldVa:=f.vaOf p,
          funcrel:=some fde.functionStartVa }
      let range := if value = 0 then some none else loadRange x value 1 false
      failIf range.isNone "FDE LSDA reference is outside PT_LOAD memory"
      failIf (q ≠ ae) "FDE augmentation-data length does not match known fields"
      return (ae,{ fde with
        lsdaReferenceVa:=value,lsdaIndirect:=cie.lsdaEncoding &&& 0x80 ≠ 0
        lsdaFileOffset:=range.join })
  else return (p,fde)

def cieOf (rows : FrameRows) (rec ident : ℕ) : Unwind ElfUnwindCie := do
  failIf (ident > rec+4-f.off) "FDE CIE pointer moves before .eh_frame"
  orFail "FDE CIE pointer does not reference a prior CIE"
    (rows.cies.find? (·.fileOffset = rec+4-ident))

def parseFde (headerPresent : Bool) (rows : FrameRows) (rec len ident : ℕ) :
    Unwind ElfUnwindFde := do
  let rend := rec+4+len
  failIf (rows.fdes.length ≥ maxFdes) ".eh_frame FDE count exceeds limit"
  let cie ← cieOf f rows rec ident
  unsupportedIf (cie.fdeEncoding = 0xff) "FDE initial-location encoding is DW_EH_PE_omit"
  let (start,p) ← decode x "FDE initial location"
    {off:=rec+8,stop:=rend,enc:=cie.fdeEncoding,fieldVa:=f.vaOf (rec+8)}
  unsupportedIf (cie.fdeEncoding &&& 0x80 ≠ 0) "indirect FDE initial location is unsupported"
  failIf (start = 0) "FDE initial location is null"
  let (size,p) ← decode x "FDE address range"
    {off:=p,stop:=rend,enc:=cie.fdeEncoding &&& 0x0f,fieldVa:=0}
  failIf (size = 0) "FDE address range is zero/indirect"
  failIf (start.toNat > 2^64-1-size.toNat) "FDE function range overflows address space"
  let range ← orFail "FDE function range is outside one executable PT_LOAD segment"
    (loadRange x start size true)
  let (p,fde) ← fdeAugmentation x f cie p rend
    { index:=rows.fdes.length,cieIndex:=cie.index,fileOffset:=rec,va:=f.vaOf rec,
      recordSize:=4+len,cieFileOffset:=cie.fileOffset,cieVa:=cie.va,
      functionStartVa:=start,functionSize:=size,functionEndVa:=start+size,
      functionFileOffset:=range }
  charge (2*x.fdeSize + if headerPresent then mapNodeEstimate else 0) "FDE rows/bookkeeping"
  return {fde with cfiFileOffset:=p,cfiSize:=rend-p}

def parseRecord (headerPresent : Bool) (rows : FrameRows) (rec len : ℕ) : Unwind FrameRows := do
  failIf (len < 4 || len > f.off+f.size-(rec+4)) ".eh_frame record length exceeds bounded range"
  failIf (rows.order.length ≥ maxFdes+maxCies) ".eh_frame record count exceeds limit"
  let ident := numberAt x.data x.le (rec+4) 4
  let order := rows.order++[(rec,4+len)]
  if ident = 0 then do
    let cie ← parseCie x f rows rec len
    return {rows with cies:=rows.cies++[cie],order}
  else do
    let fde ← parseFde x f headerPresent rows rec len ident
    return {rows with fdes:=rows.fdes++[fde],order}

/-- The records from `p` on: whether a terminator was met, where they end, and the rows. -/
def parseRecords (f : FramePlace) (headerPresent : Bool) (p : ℕ) (rows : FrameRows) :
    Unwind (Bool×ℕ×FrameRows) :=
  if h : p+4 ≤ f.off+f.size then
    let len := numberAt x.data x.le p 4
    if len = 0 then pure (true,p,rows)
    else if len = 0xffffffff then
      stopWith (.unsupported "DWARF64 .eh_frame records are unsupported")
    else do
      let rows ← parseRecord x f headerPresent rows p len
      parseRecords f headerPresent (p+4+len) rows
  else pure (false,p,rows)
termination_by f.off + f.size - p
decreasing_by omega

structure ElfUnwindInfo where
  source : String := ""
  headerPresent : Bool := false
  frame : FramePlace := ⟨0,0,0,false⟩
  /-- Where the terminator of the records is, or where they end. -/
  recordsEnd : ℕ := 0
  rows : FrameRows := {}
  headerRows : List HeaderRow := []

/-- `PT_GNU_EH_FRAME`. -/
def ptGnuEhFrame : ℕ := 0x6474e550

/-- Where the header lies, with the name of its source. -/
def headerPlace (segment : Option ElfSegment) (hdrSec : Option ElfSection) :
    Option (ℕ×UInt64×ℕ×String) :=
  match segment, hdrSec with
  | some s, _ => some (s.offset,.ofNat s.address,s.fileSize,"PT_GNU_EH_FRAME")
  | none, some s => some (s.offset,.ofNat s.address,s.size,"SHT_EH_FRAME_HDR")
  | none, none => none

def locateHeader (place : Option (ℕ×UInt64×ℕ×String)) : Unwind EhHeader :=
  match place with
  | some (hoff,hva,hsize,_) => parseEhHeader x hoff hva hsize
  | none => return {}

def frameBehindHeader (frameVa : UInt64) (frameSec : Option ElfSection) : Unwind FramePlace := do
  let ex ← orFail ".eh_frame pointer is not file-backed by PT_LOAD" (fileExtent x frameVa)
  match frameSec.filter fun s => UInt64.ofNat s.address = frameVa && s.offset = ex.1 with
  | some s => do
    failIf (s.size = 0 || s.size > ex.2) ".eh_frame section range invalid"
    return ⟨ex.1,frameVa,s.size,true⟩
  | none => return ⟨ex.1,frameVa,ex.2,false⟩

def frameOfSection (s : ElfSection) : Unwind FramePlace := do
  failIf (s.size = 0 || s.offset > x.data.length || s.size > x.data.length-s.offset)
    ".eh_frame section file range invalid"
  failIf (!(fileExtent x (.ofNat s.address)).any fun ex => ex.1 = s.offset && s.size ≤ ex.2)
    ".eh_frame section is not exactly file-backed by PT_LOAD"
  return ⟨s.offset,.ofNat s.address,s.size,true⟩

def locateFrame (header : EhHeader) (frameSec : Option ElfSection) : Unwind FramePlace :=
  if header.present then frameBehindHeader x header.frameVa frameSec
  else
    match frameSec with
    | some s => frameOfSection x s
    | none => failWith "GNU EH header is present but .eh_frame could not be located"

def checkEnd (terminated : Bool) (p : ℕ) : Unwind Unit := do
  failIf (!f.exact && !terminated) "PT_LOAD-bounded .eh_frame has no zero terminator"
  let q := if terminated then p+4 else p
  failIf (f.exact && ((x.data.take (f.off+f.size)).drop q).any (· ≠ 0))
    ".eh_frame has non-zero bytes after terminator"

def matchRows (fdes : List ElfUnwindFde) : List HeaderRow → List UInt64 → Unwind Unit
  | [], matched =>
    failIf (fdes.any fun f => !matched.contains f.va)
      "parsed FDE is missing from .eh_frame_hdr table"
  | h::rest, matched => do
    let f ← orFail ".eh_frame_hdr table references unknown FDE" (fdes.find? (·.va = h.fdeVa))
    failIf (matched.contains f.va) ".eh_frame_hdr table references one FDE more than once"
    failIf (f.functionStartVa ≠ h.functionStartVa)
      ".eh_frame_hdr initial location disagrees with FDE"
    matchRows fdes rest (f.va::matched)

def matchHeader (header : EhHeader) (fdes : List ElfUnwindFde) : Unwind Unit :=
  if header.present then do
    failIf (header.rows.length ≠ fdes.length)
      ".eh_frame_hdr FDE count does not match parsed .eh_frame FDE count"
    failIf (!(fdes.map (·.va)).Nodup) "duplicate FDE record VA"
    matchRows fdes header.rows []
  else return ()

def resolveUnwind (segments : List ElfSegment) (hdrSecs frameSecs : List ElfSection) :
    Unwind ElfUnwindInfo := do
  unsupportedIf (!x.elf64 || !x.le || (x.machine ≠ 62 && x.machine ≠ 183))
    "unwind parsing currently supports little-endian ELF64 x86-64/AArch64"
  failIf (segments.length > 1) "multiple PT_GNU_EH_FRAME segments"
  failIf (hdrSecs.length > 1) "multiple .eh_frame_hdr sections"
  failIf (frameSecs.length > 1) "multiple .eh_frame sections"
  let place := headerPlace segments.head? hdrSecs.head?
  let header ← locateHeader x place
  let frame ← locateFrame x header frameSecs.head?
  let (terminated,recordsEnd,rows) ← parseRecords x frame header.present frame.off {}
  checkEnd x frame terminated recordsEnd
  matchHeader header rows.fdes
  return {
    source:=(place.map (·.2.2.2)).getD "SHT_EH_FRAME",headerPresent:=header.present,frame,recordsEnd
    rows:={rows with fdes:=rows.fdes.map ({· with headerMatched:=header.present})}
    headerRows:=header.rows }

def parseUnwind : Option (Except EhStop (ElfUnwindInfo×UnwindLog)) :=
  let segments := x.segments.filter (·.type = ptGnuEhFrame)
  let hdrSecs := x.sections.filter (·.name = bytes ".eh_frame_hdr")
  let frameSecs := x.sections.filter (·.name = bytes ".eh_frame")
  if segments.isEmpty && hdrSecs.isEmpty && frameSecs.isEmpty then none
  else some ((resolveUnwind x segments hdrSecs frameSecs).run {})

/-- The plane of a file, with the names that the dynamic plane gives. -/
def unwindOf (symbolOf : UInt64 → Bool → Bytes×Bool)
    (headerRowSize cieSize fdeSize : ℕ) : Option (Except EhStop (ElfUnwindInfo×UnwindLog)) :=
  let info := (parseElf d).value
  parseUnwind
    { data:=d,elf64:=info.header.elf64,le:=info.header.littleEndian,
      machine:=info.header.machine,segments:=info.segments,sections:=info.sections,
      symbolOf,headerRowSize,cieSize,fdeSize }

end AutoRefirst.Elf
