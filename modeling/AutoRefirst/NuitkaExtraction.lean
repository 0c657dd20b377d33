import AutoRefirst.WxapkgExtraction
import AutoRefirst.PortableExecutable

/-!
# Nuitka onefile payloads

A payload is a row of named files up to an empty name. The parser filters names and the
extractor rewrites them.
-/

namespace AutoRefirst.Nuitka
open ExtractRun

structure NuitkaEntry where
  name : Bytes
  (size dataOffset : ℕ := 0)
  flags : UInt8 := 0

structure NuitkaConstantBlock where
  name : Bytes
  (headerOffset dataOffset size : ℕ := 0)

def kOnefileFilenameChars : ℕ := 1024

def safeName (n : Bytes) : Bool :=
  n ≠ [] && decide (n.length < kOnefileFilenameChars) && !contains n (bytes "..") &&
    !n.contains 0 && n.countP (fun c => 0x20 ≤ c && c < 0x7f) * 100 / n.length > 80

variable (d : Bytes)

/-- A name that ends at a NUL, and the position behind it. -/
def readName8 (p : ℕ) : Option (Bytes×ℕ) :=
  let n := ((d.drop p).take kOnefileFilenameChars).takeWhile (· ≠ 0)
  if p+n.length ≥ d.length ∨ n.length ≥ kOnefileFilenameChars then none
  else some (n,p+n.length+1)

/-- The same in units of two bytes, all of them ASCII; `chars` are left. -/
def readName16 (d : Bytes) : ℕ → ℕ → Option (Bytes×ℕ)
  | 0, _ => none
  | chars+1, q =>
    if q+1 < d.length then
      let c := (d.getD q 0).toNat+256*(d.getD (q+1) 0).toNat
      if c = 0 then some ([],q+2)
      else if c > 0x7f then none
      else (readName16 d chars (q+2)).map fun r => (c.toUInt8::r.1,r.2)
    else none

structure ParsedArchive where
  ok : Bool := false
  entries : List NuitkaEntry := []
  (consumed score : ℕ := 0)

def parseFlags (flags : Bool) (p : ℕ) : Option (UInt8×ℕ) :=
  if flags then
    if p ≥ d.length then none
    else if d.getD p 0 > 3 then none
    else some (d.getD p 0,p + 1)
  else some (0,p)

def skipCrc (crc : Bool) (p : ℕ) : Option ℕ :=
  if crc then
    if p+4 > d.length then none else some (p+4)
  else some p

/-- The entries from `p` on, at most `count` of them, behind those of `r`. -/
def parseEntries (d : Bytes) (win flags crc : Bool) : ℕ → ℕ → ParsedArchive → ParsedArchive
  | 0, _, r => r
  | count+1, p, r =>
    match (if win then readName16 d kOnefileFilenameChars p else readName8 d p) with
    | none => r
    | some (name,p) =>
      if name = [] then
        { r with
          ok:=r.entries ≠ [],consumed:=p
          score:=r.entries.length*100+(if p = d.length then 500 else 0) }
      else if !safeName name then r
      else match parseFlags d flags p with
      | none => r
      | some (fl,p) =>
        if p+8 > d.length then r
        else
          let sz := (rd 8 d p).getD 0
          match skipCrc d crc (p+8) with
          | none => r
          | some p =>
            if sz > d.length-p then r
            else parseEntries d win flags crc count (p+sz)
              {r with entries:=r.entries++[{name,size:=sz,dataOffset:=p,flags:=fl}]}

def parseArchive (win flags crc : Bool) : ParsedArchive :=
  parseEntries d win flags crc 100000 0 {}

structure NuitkaInfo where
  (valid onefile compressed : Bool := false)
  payloadOffset : ℕ := 0
  entries : List NuitkaEntry := []
  constantBlocks : List NuitkaConstantBlock := []
  /-- The texts of the decoded blocks. -/
  manifests : List Bytes := []

def isAlnum (c : UInt8) : Bool := Wxapkg.isAlnum c

def blockSafeName (n : Bytes) : Bytes :=
  (if n = [] then bytes "__global__" else n).map fun c =>
    if isAlnum c || c == byte '_' || c == byte '.' || c == byte '-' then c else byte '_'

/-- Every `../`, from the left, becomes `__/ `, which makes no new one. -/
def replaceUp : Bytes → Bytes
  | a :: b :: c::s =>
    if a = byte '.' ∧ b = byte '.' ∧ c = byte '/' then bytes "__/ "++replaceUp s
    else a::replaceUp (b :: c::s)
  | s => s

/-- One slash in front goes, not all of them. -/
def dropSlash : Bytes → Bytes
  | c::s => if c = byte '/' ∨ c = byte '\\' then s else c::s
  | [] => []

def sanitize (s : Bytes) : Bytes :=
  dropSlash (replaceUp (s.map fun c => if c = byte '\\' then byte '/' else c))

def target (style : PathStyle) (out : Bytes) (e : NuitkaEntry) : Bytes :=
  style.append out (sanitize e.name)

variable (payload : Bytes) (e : NuitkaEntry)

def entryBytes : Bytes :=
  (payload.drop e.dataOffset).take e.size

def hasExecutableMagic : Bool :=
  let q := (payload.drop e.dataOffset).take 4
  e.dataOffset ≤ payload.length && e.size ≤ payload.length-e.dataOffset && e.size ≥ 4 &&
    ((bytes "MZ").isPrefixOf q || q == 0x7f::bytes "ELF")

def score : ℕ :=
  let n := lower e.name
  let base := (n.reverse.takeWhile fun c => c ≠ byte '/' && c ≠ byte '\\').reverse
  let named := if base = bytes "main.bin" ∨ base = bytes "__main__.bin" then 1200 else 0
  let named := if base.length ≥ 4 ∧ (bytes ".exe").isSuffixOf base then max named 1100 else named
  let runtimeLib := (bytes ".so").isSuffixOf base || contains base (bytes ".so.") ||
    (bytes ".dll").isSuffixOf base || (bytes ".pyd").isSuffixOf base ||
    (bytes ".dylib").isSuffixOf base
  if !runtimeLib && hasExecutableMagic payload e then max named 1000 else named

def largest : List NuitkaEntry → Option NuitkaEntry
  | [] => none
  | e::l => some (l.foldl (fun best x => if best.size < x.size then x else best) e)

def coreEntries (entries : List NuitkaEntry) : List NuitkaEntry :=
  let high := entries.filter fun e => score payload e ≥ 1000
  let chosen := if high = [] then (largest entries).toList else high
  chosen.insertionSort fun a b => score payload a > score payload b ∨
    (score payload a = score payload b ∧ a.size ≥ b.size)

def selected (i : NuitkaInfo) (coreOnly : Bool) : List NuitkaEntry :=
  if coreOnly then coreEntries payload i.entries else i.entries

section
variable {σ : Type} (D : OutputDisk σ) (style : PathStyle)

def put (maxBytes maxFiles : ℕ) (t : ExtractRun σ) (p content : Bytes) : ExtractRun σ :=
  if t.fits maxBytes maxFiles content.length then t.write D style p content content.length
  else t.omitEntry content.length

def putBlock (d out : Bytes) (coreOnly : Bool)
    (maxBytes maxFiles : ℕ) (t : ExtractRun σ) (b : NuitkaConstantBlock×Option Bytes) :
    ExtractRun σ :=
  if b.1.dataOffset > d.length ∨ b.1.size > d.length-b.1.dataOffset then t
  else
    let n := blockSafeName b.1.name
    let t := if coreOnly then t
      else put D style maxBytes maxFiles t (style.append out (n++bytes ".nuitka-const.bin"))
        ((d.drop b.1.dataOffset).take b.1.size)
    match b.2 with
    | some text =>
      put D style maxBytes maxFiles t (style.append out (n++bytes ".nuitka-const.txt")) text
    | none => t

/-- The blocks with their texts. -/
def blocksOf (i : NuitkaInfo) : List (NuitkaConstantBlock×Option Bytes) :=
  i.constantBlocks.zipIdx.map fun b => (b.1,i.manifests[b.2]?)

def putEntry (payload out : Bytes)
    (maxBytes maxFiles : ℕ) (t : ExtractRun σ) (e : NuitkaEntry) : ExtractRun σ :=
  if sanitize e.name ≠ [] then
    put D style maxBytes maxFiles t (target style out e) (entryBytes payload e)
  else t

/-- The loop over the entries; an entry out of bounds ends it, and the result is false. -/
def putEntries (D : OutputDisk σ) (style : PathStyle) (payload out : Bytes)
    (maxBytes maxFiles : ℕ) : List NuitkaEntry → ExtractRun σ → Bool×ExtractRun σ
  | [], t => (true,t)
  | e::l, t =>
    if e.dataOffset > payload.length ∨ e.size > payload.length-e.dataOffset then (false,t)
    else putEntries D style payload out maxBytes maxFiles l
      (putEntry D style payload out maxBytes maxFiles t e)

def fail (t : ExtractRun σ) (message : String) : ExtractRun σ :=
  {t with result:={t.result with error:=message}}

def finish (t : ExtractRun σ) (message : String) : ExtractRun σ :=
  { t with result:={ t.result with
      success:=decide (t.result.fileCount > 0)
      error := if t.result.fileCount > 0 then t.result.error else message } }

/-- What is reported after the loop over the entries. -/
def conclude (coreOnly : Bool) (r : Bool×ExtractRun σ) : ExtractRun σ :=
  if r.1 then
    finish r.2 (if coreOnly then "no Nuitka main executable/code payload materialized"
      else "no files written")
  else fail r.2 "entry bounds invalid"

/-- The payload behind the marker; `zstd` decompresses a frame. -/
def payloadOf (zstd : Bytes→Option Bytes) (d : Bytes) (i : NuitkaInfo) : Option Bytes :=
  if i.compressed then zstd (d.drop (i.payloadOffset+3)) else some (d.drop (i.payloadOffset+3))

def extractNuitka (zstd : Bytes→Option Bytes) (D : OutputDisk σ) (style : PathStyle)
    (d : Bytes) (i : NuitkaInfo) (out : Bytes) (coreOnly : Bool) (maxBytes maxFiles : ℕ)
    (s : σ) : ExtractRun σ :=
  let t : ExtractRun σ := {disk:=s,result:={coreOnly,outputDir:=out}}
  if !i.valid then fail t "Nuitka not validated"
  else
    let made := D.createDirectories s (located style out)
    let t := {t with disk:=made.2}
    match made.1 with
    | some message => fail t message
    | none =>
      if !i.onefile ∧ i.constantBlocks ≠ [] then
        finish ((blocksOf i).foldl (putBlock D style d out coreOnly maxBytes maxFiles) t)
          "no constant/code artifacts written"
      else if !i.onefile then fail t "no validated Nuitka onefile payload"
      else match payloadOf zstd d i with
      | none => fail t "zstd payload decompression failed"
      | some payload =>
        conclude coreOnly
          (putEntries D style payload out maxBytes maxFiles (selected payload i coreOnly) t)

end

end AutoRefirst.Nuitka
