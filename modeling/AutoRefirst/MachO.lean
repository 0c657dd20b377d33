import AutoRefirst.Fallible
import AutoRefirst.PortableExecutable

/-!
# Mach-O images

The parser of thin and of universal images, and the check of a universal header that is made
before it.
-/

namespace AutoRefirst.MachO
open Fallible

abbrev Parse := Except String

def number (le : Bool) (b : Bytes) : ℕ := littleEndian (if le then b else b.reverse)

variable (d : Bytes) (o : ℕ)

def rd (le : Bool) (n : ℕ) : Option ℕ :=
  if o > d.length ∨ n > d.length-o then none else some (number le ((d.drop o).take n))

/-- A number whose read is not checked: zero stays where there are no bytes. -/
def rd0 (le : Bool) (n : ℕ) : ℕ := (rd d o le n).getD 0

/-- A number whose read is checked. -/
def rdOr (le : Bool) (n : ℕ) (error : String) : Parse ℕ :=
  match rd d o le n with
  | some v => .ok v
  | none => .error error

def byteOf : ℕ := (d.getD o 0).toNat

structure Seg where
  name : Bytes
  (vmaddr vmsize fileoff filesize : ℕ)

structure SymtabCmd where
  (symoff nsyms stroff strsize : ℕ)

structure LinkeditCmd where
  (off size : ℕ)

structure MachOSection where
  (name segment : Bytes)
  (address size offset flags : ℕ)

structure MachOSymbol where
  name : Bytes
  (value desc type sect : ℕ)
  (external privateExternal defined : Bool)
  fileOffset : Option ℕ

structure MachOFunctionStart where
  (address fileOffset : ℕ)
  symbol : Bytes := []

structure MachOLoadCommand where
  (command size offset : ℕ)

structure MachOSlice where
  (macho64 littleEndian : Bool)
  (cpuType cpuSubtype filetype flags sliceOffset sliceSize loadCommandCount : ℕ)
  (entryFileOffset entryVa routineInitAddress routineCommandFileOffset : ℕ := 0)
  sections : List MachOSection := []
  symbols : List MachOSymbol := []
  functionStarts : List MachOFunctionStart := []
  dylibs : List Bytes := []
  uuid : Bytes := []
  (platform minOs sdk : ℕ := 0)
  encrypted : Bool := false
  (cryptid cryptOffset cryptSize : ℕ := 0)
  codeSignature : Bool := false
  (codeSignatureOffset codeSignatureSize : ℕ := 0)

/-- The state of the walk over the load commands. The commands are all kept here; of the slice
they are a record of at most 4096. -/
structure Walk where
  p : ℕ
  commands : List MachOLoadCommand := []
  segs : List Seg := []
  haveBuild : Bool := false
  symtab : Option SymtabCmd := none
  functionStarts : Option LinkeditCmd := none
  out : MachOSlice

def zerofillType (t : ℕ) : Bool := t = 1 || t = 0xc || t = 0x12

def name16 : Bytes :=
  if o+16 > d.length then [] else ((d.drop o).take 16).takeWhile (· ≠ 0)

def boundedZstr (stop : ℕ) : Bytes :=
  if o ≥ stop ∨ stop > d.length then []
  else
    let b := (d.drop o).take (stop-o)
    if 0 ∈ b then b.takeWhile (· ≠ 0) else []

structure SegmentLayout where
  (command sect : String)
  (word head vm vms fo fs ns stride address size off flags : ℕ)

def segment32 : SegmentLayout :=
  { command := "LC_SEGMENT",sect := "Mach-O section",word:=4,head:=56,vm:=24,vms:=28,
    fo:=32,fs:=36,ns:=48,stride:=68,address:=32,size:=36,off:=40,flags:=56 }

def segment64 : SegmentLayout :=
  { command := "LC_SEGMENT_64",sect := "Mach-O section_64",word:=8,head:=72,vm:=24,
    vms:=32,fo:=40,fs:=48,ns:=64,stride:=80,address:=32,size:=40,off:=48,flags:=64 }

def parseSection (L : SegmentLayout) (d : Bytes) (le : Bool) (base q : ℕ) : Parse MachOSection := do
  let off := rd0 d (q+L.off) le 4
  let size := rd0 d (q+L.size) le L.word
  let flags := rd0 d (q+L.flags) le 4
  let zerofill := zerofillType (flags % 256)
  rejectIf (zerofill = false ∧ (off > d.length ∨ size > d.length-off))
    (L.sect++" file range exceeds slice")
  return { name:=name16 d q,segment:=name16 d (q+16),address:=rd0 d (q+L.address) le L.word,size,
           offset := if zerofill then 0 else base+off,flags }

def parseSegment (L : SegmentLayout) (d : Bytes) (le : Bool) (base : ℕ) (w : Walk) (sz : ℕ) :
    Parse Walk := do
  rejectIf (sz < L.head) (L.command++" too small")
  let ns := rd0 d (w.p+L.ns) le 4
  rejectIf (ns > 65536 ∨ L.head+ns*L.stride > sz) (L.command++" section table invalid")
  let s : Seg :=
    { name:=name16 d (w.p+8),vmaddr:=rd0 d (w.p+L.vm) le L.word,
      vmsize:=rd0 d (w.p+L.vms) le L.word,fileoff:=rd0 d (w.p+L.fo) le L.word,
      filesize:=rd0 d (w.p+L.fs) le L.word }
  rejectIf (s.fileoff > d.length ∨ s.filesize > d.length-s.fileoff)
    (L.command++" file range exceeds slice")
  let sections ← (List.range ns).foldlM (fun l j => do
    let x ← parseSection L d le base (w.p+L.head+j*L.stride)
    return l++[x]) w.out.sections
  return {w with segs:=w.segs++[s],out:={w.out with sections}}

variable (le : Bool)

def parseSymtabCommand (w : Walk) (sz : ℕ) : Parse Walk := do
  rejectIf (sz < 24) "LC_SYMTAB too small"
  rejectIf (w.symtab.isSome = true) "duplicate LC_SYMTAB"
  let c : SymtabCmd :=
    { symoff:=rd0 d (w.p+8) le 4,nsyms:=rd0 d (w.p+12) le 4,
      stroff:=rd0 d (w.p+16) le 4,strsize:=rd0 d (w.p+20) le 4 }
  return {w with symtab:=some c}

def parseFunctionStartsCommand (w : Walk) (sz : ℕ) : Parse Walk := do
  rejectIf (sz < 16) "LC_FUNCTION_STARTS too small"
  rejectIf (w.functionStarts.isSome = true) "duplicate LC_FUNCTION_STARTS"
  let c : LinkeditCmd := {off:=rd0 d (w.p+8) le 4,size:=rd0 d (w.p+12) le 4}
  return {w with functionStarts:=some c}

variable (base : ℕ) (w : Walk) (sz : ℕ)

def parseMain : Parse Walk := do
  rejectIf (sz < 24) "LC_MAIN too small"
  let eo := rd0 d (w.p+8) le 8
  rejectIf (eo ≥ d.length) "LC_MAIN entry offset exceeds slice"
  return {w with out:={w.out with entryFileOffset:=base+eo}}

def parseRoutines (least word : ℕ) (error : String) : Parse Walk := do
  rejectIf (sz < least) error
  return { w with out:={ w.out with
    routineInitAddress:=rd0 d (w.p+8) le word,routineCommandFileOffset:=base+w.p+8 } }

def parseDylib : Parse Walk := do
  rejectIf (sz < 24) "Mach-O dylib command too small"
  let no := rd0 d (w.p+8) le 4
  rejectIf (no < 24 ∨ no ≥ sz) "Mach-O dylib name offset invalid"
  let n := boundedZstr d (w.p+no) (w.p+sz)
  rejectIf (n = []) "Mach-O dylib name invalid"
  return { w with out:={ w.out with
    dylibs := if n ∈ w.out.dylibs then w.out.dylibs else w.out.dylibs++[n] } }

def parseUuid : Parse Walk := do
  rejectIf (sz < 24) "LC_UUID too small"
  return {w with out:={w.out with uuid:=(d.drop (w.p+8)).take 16}}

def parseCodeSignature : Parse Walk := do
  rejectIf (sz < 16) "LC_CODE_SIGNATURE too small"
  let off := rd0 d (w.p+8) le 4
  let n := rd0 d (w.p+12) le 4
  rejectIf (off > d.length ∨ n > d.length-off) "LC_CODE_SIGNATURE range exceeds slice"
  return { w with out:={ w.out with
    codeSignature:=true,codeSignatureOffset:=base+off,codeSignatureSize:=n } }

def parseEncryption (least : ℕ) : Parse Walk := do
  rejectIf (sz < least) "LC_ENCRYPTION_INFO command too small"
  let off := rd0 d (w.p+8) le 4
  let n := rd0 d (w.p+12) le 4
  let id := rd0 d (w.p+16) le 4
  rejectIf (off > d.length ∨ n > d.length-off) "Mach-O encrypted range exceeds slice"
  return { w with out:={ w.out with
    cryptOffset:=base+off,cryptSize:=n,cryptid:=id,encrypted:=id ≠ 0 } }

def parseBuildVersion : Parse Walk := do
  rejectIf (sz < 24) "LC_BUILD_VERSION too small"
  rejectIf (24 + rd0 d (w.p+20) le 4 * 8 > sz) "LC_BUILD_VERSION tool table invalid"
  return { w with
    haveBuild:=true
    out:={ w.out with
      platform:=rd0 d (w.p+8) le 4,minOs:=rd0 d (w.p+12) le 4,sdk:=rd0 d (w.p+16) le 4 } }

def parseMinimumVersion (platform : ℕ) : Parse Walk := do
  rejectIf (sz < 16) "Mach-O minimum-version command too small"
  return { w with out:={ w.out with
    minOs:=rd0 d (w.p+8) le 4,sdk:=rd0 d (w.p+12) le 4,platform } }

variable (is64 : Bool)

def parseCommand (base : ℕ) (w : Walk) (cmd sz : ℕ) : Parse Walk :=
  let basecmd := cmd % 2^31
  if cmd = 1 ∧ is64 = false then parseSegment segment32 d le base w sz
  else if cmd = 0x19 ∧ is64 = true then parseSegment segment64 d le base w sz
  else if cmd = 0x2 then parseSymtabCommand d le w sz
  else if cmd = 0x26 then parseFunctionStartsCommand d le w sz
  else if basecmd = 0x28 then parseMain d le base w sz
  else if cmd = 0x11 ∧ is64 = false then
    parseRoutines d le base w sz 40 4 "LC_ROUTINES too small"
  else if cmd = 0x1a ∧ is64 = true then
    parseRoutines d le base w sz 72 8 "LC_ROUTINES_64 too small"
  else if basecmd = 0xc ∨ basecmd = 0x18 ∨ basecmd = 0x1f ∨ basecmd = 0x20 ∨ basecmd = 0x23 then
    parseDylib d le w sz
  else if cmd = 0x1b then parseUuid d w sz
  else if cmd = 0x1d then parseCodeSignature d le base w sz
  else if cmd = 0x21 ∨ cmd = 0x2c then
    parseEncryption d le base w sz (if cmd = 0x2c then 24 else 20)
  else if cmd = 0x32 then parseBuildVersion d le w sz
  else if w.haveBuild = false ∧ (cmd = 0x24 ∨ cmd = 0x25 ∨ cmd = 0x2f ∨ cmd = 0x30) then
    parseMinimumVersion d le w sz
      (if cmd = 0x24 then 1 else if cmd = 0x25 then 2 else if cmd = 0x2f then 3 else 4)
  else return w

def walkCommand (base cmdEnd : ℕ) (w : Walk) : Parse Walk := do
  rejectIf (w.p+8 > cmdEnd) "Mach-O load command truncated"
  let cmd ← rdOr d w.p le 4 "Mach-O load command truncated"
  let sz ← rdOr d (w.p+4) le 4 "Mach-O load command truncated"
  rejectIf (sz < 8 ∨ sz > cmdEnd-w.p) "Mach-O load command size invalid"
  rejectIf (sz % (if is64 then 8 else 4) ≠ 0) "Mach-O load command alignment invalid"
  let w' ← parseCommand d le is64 base
    {w with commands:=w.commands++[{command:=cmd,size:=sz,offset:=base+w.p}]} cmd sz
  return {w' with p:=w.p+sz}

/-- The entries of a symbol table that are no symbols make no difference. -/
def parseSymbol (c : SymtabCmd) (sections : List MachOSection)
    (o : ℕ) : Parse (Option MachOSymbol) := do
  let strx ← rdOr d o le 4 "LC_SYMTAB entry truncated"
  let desc ← rdOr d (o+6) le 2 "LC_SYMTAB entry truncated"
  let type := byteOf d (o+4)
  let sect := byteOf d (o+5)
  let value ← rdOr d (o+8) le (if is64 then 8 else 4)
    (if is64 then "LC_SYMTAB nlist_64 value truncated" else "LC_SYMTAB nlist value truncated")
  rejectIf (strx ≠ 0 ∧ strx ≥ c.strsize) "LC_SYMTAB string index out of bounds"
  let text := (d.drop (c.stroff+strx)).take (c.strsize-strx)
  rejectIf (strx ≠ 0 ∧ 0 ∉ text) "LC_SYMTAB symbol name is not NUL-terminated"
  let name := if strx = 0 then [] else text.takeWhile (· ≠ 0)
  if type &&& 0xe0 ≠ 0 then return none
  else
    let kind := type &&& 0x0e
    rejectIf (kind = 0x0e ∧ (sect = 0 ∨ sect > sections.length))
      "LC_SYMTAB N_SECT ordinal out of bounds"
    rejectIf (kind = 0x0a ∧ value ≥ c.strsize) "LC_SYMTAB N_INDR target string index out of bounds"
    if name = [] then return none
    else
      let place := match sections[sect-1]? with
        | none => none
        | some x =>
          if kind = 0x0e ∧ zerofillType (x.flags % 256) = false ∧ value ≥ x.address ∧
              value - x.address < x.size then some (x.offset+(value-x.address)) else none
      return some { name,value,desc,type,sect,external:=type &&& 1 ≠ 0,
                    privateExternal:=type &&& 0x10 ≠ 0,defined:=kind = 0x0e,fileOffset:=place }

def parseSymtab (c : Option SymtabCmd) (sections : List MachOSection) : Parse (List MachOSymbol) :=
  match c with
  | none => return []
  | some c => do
    let es := if is64 then 16 else 12
    rejectIf (c.nsyms > 1000000) "LC_SYMTAB symbol count unreasonable"
    rejectIf (c.symoff > d.length ∨ c.nsyms*es > d.length-c.symoff)
      "LC_SYMTAB symbol table exceeds slice"
    rejectIf (c.stroff > d.length ∨ c.strsize > d.length-c.stroff)
      "LC_SYMTAB string table exceeds slice"
    (List.range c.nsyms).foldlM (fun l i => do
      let x ← parseSymbol d le is64 c sections (c.symoff+i*es)
      return l++x.toList) []

/-- Seven bits a byte, the lowest first, in at most ten bytes. -/
def ulebFrom : ℕ → ℕ → ℕ → Bytes → Option (ℕ×Bytes)
  | 0, _, _, _ => none
  | _+1, _, _, [] => none
  | n+1, shift, v, b::s =>
    let part := (b &&& 0x7f).toNat
    if shift = 63 ∧ part > 1 then none
    else
      let v := v ||| (part <<< shift)
      if b &&& 0x80 = 0 then some (v,s) else ulebFrom n (shift+7) v s

def readUleb (s : Bytes) : Option (ℕ×Bytes) := ulebFrom 10 0 0 s

variable (segs : List Seg)

def mapFileVa (va base : ℕ) : Option ℕ :=
  match segs.find? fun s => va ≥ s.vmaddr && va-s.vmaddr < s.filesize with
  | none => none
  | some s =>
    let delta := va-s.vmaddr
    if s.fileoff > 2^64-1-delta ∨ base > 2^64-1-s.fileoff-delta then none
    else some (base+s.fileoff+delta)

/-- The starts from `rel` on, and the bytes after the zero that ends them. -/
def startsFrom (segs : List Seg) (base vmaddr : ℕ) :
    ℕ → Bytes → ℕ → List MachOFunctionStart → Parse (List MachOFunctionStart×Bytes)
  | 0, _, _, _ => .error "LC_FUNCTION_STARTS missing zero terminator"
  | fuel+1, s, rel, l =>
    if s = [] then .error "LC_FUNCTION_STARTS missing zero terminator"
    else match readUleb s with
      | none => .error "LC_FUNCTION_STARTS malformed/truncated ULEB128"
      | some (delta,rest) =>
        if delta = 0 then .ok (l,rest)
        else if rel > 2^64-1-delta ∨ vmaddr > 2^64-1-(rel+delta) then
          .error "LC_FUNCTION_STARTS address overflow"
        else
          match mapFileVa segs (vmaddr+(rel+delta)) base with
          | none => .error "LC_FUNCTION_STARTS function address is not file-backed"
          | some off =>
            let l := l++[{address:=vmaddr+(rel+delta),fileOffset:=off}]
            if l.length > 1000000 then .error "LC_FUNCTION_STARTS function count unreasonable"
            else startsFrom segs base vmaddr fuel rest (rel+delta) l

/-- Each turn takes a byte, so that the size bounds the turns. -/
def parseFunctionStarts (base : ℕ) (c : Option LinkeditCmd) : Parse (List MachOFunctionStart) :=
  match c with
  | none => return []
  | some c => do
    rejectIf (c.off > d.length ∨ c.size > d.length-c.off)
      "LC_FUNCTION_STARTS data exceeds slice"
    if c.size = 0 then return []
    else
      match segs.find? fun s => s.name = bytes "__TEXT" with
      | none => .error "LC_FUNCTION_STARTS present without __TEXT segment"
      | some text =>
        let (l,rest) ← startsFrom segs base text.vmaddr (c.size+1)
          ((d.drop c.off).take c.size) 0 []
        rejectIf (∃ b ∈ rest, b ≠ 0) "LC_FUNCTION_STARTS non-zero bytes after terminator"
        return l

def functionName (symbols : List MachOSymbol) (f : MachOFunctionStart) : Bytes :=
  let here := symbols.filter fun s => s.defined && s.value = f.address
  match here.find? (·.external), here.head? with
  | some s, _ => s.name
  | none, some s => s.name
  | none, none => f.symbol

def attachFunctionNames (symbols : List MachOSymbol) (l : List MachOFunctionStart) :
    List MachOFunctionStart := l.map fun f => {f with symbol:=functionName symbols f}

/-- The byte order and the width that a magic says. -/
def thinMagic : Option (Bool×Bool) :=
  if d.take 4 = [0xce,0xfa,0xed,0xfe] then some (true,false)
  else if d.take 4 = [0xcf,0xfa,0xed,0xfe] then some (true,true)
  else if d.take 4 = [0xfe,0xed,0xfa,0xce] then some (false,false)
  else if d.take 4 = [0xfe,0xed,0xfa,0xcf] then some (false,true)
  else none

def headerSize : ℕ := if is64 then 32 else 28

def entryAddress (eo : ℕ) : Option ℕ :=
  (segs.find? fun s => eo ≥ s.fileoff && eo < (s.fileoff+s.filesize) % 2^64).map fun s =>
    (s.vmaddr+(eo-s.fileoff)) % 2^64

def withEntry : Parse MachOSlice :=
  if w.out.entryFileOffset = 0 then return w.out
  else match entryAddress w.segs (w.out.entryFileOffset-base) with
    | none => .error "LC_MAIN entry offset is not file-backed by a segment"
    | some va =>
      if va = 0 then .error "LC_MAIN entry offset is not file-backed by a segment"
      else return {w.out with entryVa:=va}

def thinWalk (le is64 : Bool) : Parse Walk := do
  let hs := headerSize is64
  rejectIf (d.length < hs) "Mach-O header truncated"
  let cpu ← rdOr d 4 le 4 "Mach-O header read failed"
  let sub ← rdOr d 8 le 4 "Mach-O header read failed"
  let filetype ← rdOr d 12 le 4 "Mach-O header read failed"
  let ncmds ← rdOr d 16 le 4 "Mach-O header read failed"
  let cmdbytes ← rdOr d 20 le 4 "Mach-O header read failed"
  let flags ← rdOr d 24 le 4 "Mach-O header read failed"
  rejectIf (ncmds > 65536) "Mach-O load-command count unreasonable"
  rejectIf (cmdbytes > d.length-hs) "Mach-O load-command table exceeds slice"
  let out : MachOSlice :=
    { macho64:=is64,littleEndian:=le,cpuType:=cpu,cpuSubtype:=sub,filetype,flags,
      sliceOffset:=base,sliceSize:=d.length,loadCommandCount:=ncmds }
  let w ← (List.range ncmds).foldlM
    (fun w _ => walkCommand d le is64 base (hs+cmdbytes) w) ({p:=hs,out} : Walk)
  rejectIf (w.p ≠ hs+cmdbytes) "Mach-O load-command size total mismatch"
  return w

/-- What stands beside the slice: the walk that led to it. -/
def parseThin : Parse (Walk×MachOSlice) := do
  rejectIf (d.length < 4) "Mach-O header too small"
  match thinMagic d with
  | none => .error "not Mach-O"
  | some (le,is64) => do
    let w ← thinWalk d base le is64
    let out ← withEntry base w
    let symbols ← parseSymtab d le is64 w.symtab out.sections
    let starts ← parseFunctionStarts d w.segs base w.functionStarts
    return (w,{out with symbols,functionStarts:=attachFunctionNames symbols starts})

/-- Whether the entries have 64 bits, and the byte order. -/
def fatMagic : Option (Bool×Bool) :=
  if d.take 4 = [0xca,0xfe,0xba,0xbe] then some (false,false)
  else if d.take 4 = [0xca,0xfe,0xba,0xbf] then some (true,false)
  else if d.take 4 = [0xbe,0xba,0xfe,0xca] then some (false,true)
  else if d.take 4 = [0xbf,0xba,0xfe,0xca] then some (true,true)
  else none

structure FatArch where
  (cpu subtype offset size align reserved : ℕ)

variable (fat64 : Bool)

def entrySize : ℕ := if fat64 then 32 else 20

def readArch (p : ℕ) : FatArch :=
  if fat64 then
    { cpu:=rd0 d p le 4,subtype:=rd0 d (p+4) le 4,offset:=rd0 d (p+8) le 8,
      size:=rd0 d (p+16) le 8,align:=rd0 d (p+24) le 4,reserved:=rd0 d (p+28) le 4 }
  else
    { cpu:=rd0 d p le 4,subtype:=rd0 d (p+4) le 4,offset:=rd0 d (p+8) le 4,
      size:=rd0 d (p+12) le 4,align:=rd0 d (p+16) le 4,reserved:=0 }

/-- A slice of a universal image with the entry that declares it. -/
structure FatSlice where
  arch : FatArch
  walk : Walk
  slice : MachOSlice

def sliceError (i : ℕ) : String → String := fun e =>
  "Mach-O universal slice "++toString i++" invalid: "++e

def fatSlice (tableEnd : ℕ) (done : List FatSlice) (i : ℕ) : Parse (List FatSlice) := do
  let a := readArch d le fat64 (8 + i * entrySize fat64)
  rejectIf (a.reserved ≠ 0) "Mach-O universal64 reserved field is non-zero"
  rejectIf (a.align > 31) "Mach-O universal slice alignment exponent invalid"
  rejectIf (a.offset % 2^a.align ≠ 0)
    "Mach-O universal slice offset violates declared alignment"
  rejectIf (a.size = 0 ∨ a.offset < tableEnd ∨ a.offset > d.length ∨ a.size > d.length-a.offset)
    "Mach-O universal slice range invalid"
  rejectIf (∃ x ∈ done, a.offset < x.arch.offset+x.arch.size ∧ x.arch.offset < a.offset+a.size)
    "Mach-O universal slices overlap"
  rejectIf (∃ x ∈ done, x.arch.cpu = a.cpu ∧ x.arch.subtype = a.subtype)
    "Mach-O universal duplicate CPU/subtype slice"
  let (walk,slice) ← (parseThin ((d.drop a.offset).take a.size) a.offset).mapError (sliceError i)
  rejectIf (slice.cpuType ≠ a.cpu) "Mach-O universal slice CPU type mismatch"
  rejectIf (slice.cpuSubtype ≠ a.subtype) "Mach-O universal slice CPU subtype mismatch"
  return done++[{arch:=a,walk,slice}]

def parseFat : Parse (List FatSlice) := do
  rejectIf (d.length < 8) "Mach-O universal header truncated"
  let count := rd0 d 4 le 4
  rejectIf (count = 0 ∨ count > 64) "Mach-O universal architecture count invalid"
  let tableEnd := 8 + count * entrySize fat64
  rejectIf (tableEnd > d.length) "Mach-O universal architecture table truncated"
  (List.range count).foldlM (fatSlice d le fat64 tableEnd) []

inductive MachOInfo where
  | thin (walk : Walk) (slice : MachOSlice)
  | fat (le fat64 : Bool) (slices : List FatSlice)

def parseMacho : Parse MachOInfo := do
  rejectIf (d.length < 4) "not Mach-O"
  match fatMagic d with
  | none => do
    let (walk,slice) ← parseThin d 0
    return .thin walk slice
  | some (fat64,le) => do
    let slices ← parseFat d le fat64
    return .fat le fat64 slices

/-- A number of the prefix; zero where it is not there. -/
def read (offset width : ℕ) (le : Bool) : ℕ := rd0 d offset le width

variable (fileSize : ℕ)

/-- The entry is one that the check accepts after those before it. -/
def archPasses (stop : ℕ) (fat64 : Bool) (before : List FatArch) (a : FatArch) : Bool :=
  if a.cpu = 0 ∨ a.align > 31 ∨ (fat64 = true ∧ a.reserved ≠ 0) ∨ a.offset < stop ∨
      a.offset > fileSize ∨ a.size < 28 ∨ a.size > fileSize-a.offset then false
  else if a.offset % 2^a.align ≠ 0 then false
  else before.all fun x =>
    !((x.cpu = a.cpu && x.subtype = a.subtype) ||
      (a.offset < x.offset+x.size && x.offset < a.offset+a.size))

def fatArchOk (stop : ℕ) (le fat64 : Bool) (i : ℕ) : Bool :=
  let at_ (i : ℕ) := readArch d le fat64 (8 + i * entrySize fat64)
  archPasses fileSize stop fat64 ((List.range i).map at_) (at_ i)

def fatMacho (le fat64 : Bool) : Bool :=
  if d.length < 8 then false
  else
    let count := read d 4 4 le
    if count = 0 ∨ count > 64 then false
    else
      let stop := 8 + count * entrySize fat64
      if stop > d.length then false
      else (List.range count).all (fatArchOk d fileSize stop le fat64)

end AutoRefirst.MachO
