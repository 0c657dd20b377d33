import AutoRefirst.AsarJson
import AutoRefirst.PortableExecutable
import Mathlib.Data.List.Sort

/-!
# ASAR archives

The header of an archive is a tree of files in JSON, and a packed file is a range of the data
that follows it.
-/

namespace AutoRefirst.Asar
open CPythonIntrospection (J)

inductive AsarEntryKind
  | file | directory | link
  deriving DecidableEq

structure AsarEntry where
  path : Bytes
  kind : AsarEntryKind := .file
  (offset size : ℕ := 0)
  (unpacked executable : Bool := false)
  (link integrityAlgorithm integritySha256 : Bytes := [])
  (integrityBlockSize integrityBlockCount : ℕ := 0)

structure AsarInfo where
  valid : Bool := false
  archivePath : Bytes := []
  (headerSize dataOffset packedBytes trailingBytes fileCount directoryCount linkCount
    packedFileCount unpackedFileCount integrityCount : ℕ := 0)
  entries : List AsarEntry := []
  interestingPaths : List Bytes := []
  packageJsonValid : Bool := false
  (packageName packageVersion packageMain packageMainResolved : Bytes := [])
  error : String := ""

def baseLower (p : Bytes) : Bytes := lower ((afterLast (byte '/') p).getD p)

/-- The extension, dot included, of the last component. -/
def extLower (p : Bytes) : Bytes :=
  match afterLast (byte '.') ((afterLast (byte '/') p).getD p) with
  | some e => lower (byte '.' :: e)
  | none => []

def jstr : Option J → Option Bytes
  | some (.string s) => some s
  | _ => none

def jbool : Option J → Option Bool
  | some (.bool b) => some b
  | _ => none

def isDigitByte (c : UInt8) : Bool := 0x30 ≤ c && c ≤ 0x39

variable (s : Bytes)

/-- Decimal digits of a 64-bit value. -/
def digitsU64 : Option ℕ :=
  if s = [] ∨ !s.all isDigitByte then none
  else
    let v := s.foldl (fun v c => v*10+(c.toNat-0x30)) 0
    if v < 2^64 then some v else none

def ju64 : Option J → Option ℕ
  | some (.number s) => digitsU64 s
  | _ => none

def validName : Bool :=
  s ≠ [] && s.length ≤ 4096 && s ≠ bytes "." && s ≠ bytes ".." && !s.contains (byte '/') &&
    !s.contains (byte '\\') && !s.contains 0

def isHexDigit (c : UInt8) : Bool :=
  (0x30 ≤ c && c ≤ 0x39) || (0x41 ≤ c && c ≤ 0x46) || (0x61 ≤ c && c ≤ 0x66)

def validHexSha : Bool := s.length == 64 && s.all isHexDigit

def isString : J → Bool
  | .string _ => true
  | _ => false

def parseIntegrity (v : Option J) (e : AsarEntry) : Except String AsarEntry :=
  match v with
  | none => .ok e
  | some (.object o) =>
    match jstr (o.lookup (bytes "algorithm")), jstr (o.lookup (bytes "hash")) with
    | some alg, some hash =>
      match ju64 (o.lookup (bytes "blockSize")) with
      | none => .error "ASAR integrity blockSize invalid"
      | some bs =>
        if bs = 0 then .error "ASAR integrity blockSize invalid"
        else match o.lookup (bytes "blocks") with
        | some (.array a) =>
          if a.all isString then
            .ok { e with
              integrityAlgorithm:=alg,integritySha256:=hash,integrityBlockSize:=bs
              integrityBlockCount:=a.length }
          else .error "ASAR integrity block hash is not a string"
        | _ => .error "ASAR integrity blocks invalid"
    | _, _ => .error "ASAR integrity algorithm/hash invalid"
  | some _ => .error "ASAR integrity must be an object"

/-- What the walk has found, and the ranges of packed files that are not empty. -/
structure WalkState where
  info : AsarInfo
  ranges : List (ℕ×ℕ) := []

abbrev Walk := Except (String×WalkState)

namespace WalkState

def fail {α : Type} (w : WalkState) (message : String) : Walk α := .error (message,w)

variable (w : WalkState)

def push (e : AsarEntry) : WalkState :=
  {w with info:={w.info with entries:=w.info.entries++[e]}}

variable (o : List (Bytes×J))

def flag (message : String) : Walk Bool :=
  match o.lookup (bytes "unpacked") with
  | none => .ok false
  | some x =>
    match jbool (some x) with
    | some b => .ok b
    | none => w.fail message

variable (path : Bytes)

def walkLink (link : J) : Walk WalkState :=
  match jstr (some link) with
  | none => w.fail ("ASAR link target invalid: "++textOf path)
  | some target =>
    if target = [] then w.fail ("ASAR link target invalid: "++textOf path)
    else do
      let unpacked ← w.flag o ("ASAR link unpacked flag invalid: "++textOf path)
      let w := w.push {path,kind:=.link,link:=target,unpacked}
      return {w with info:={w.info with linkCount:=w.info.linkCount+1}}

def walkDirectory : Walk WalkState := do
  let unpacked ← w.flag o ("ASAR directory unpacked flag invalid: "++textOf path)
  let w := w.push {path,kind:=.directory,unpacked}
  return {w with info:={w.info with directoryCount:=w.info.directoryCount+1}}

def walkPacked (size : ℕ) (o : List (Bytes×J)) (e : AsarEntry) : Walk (WalkState×AsarEntry) :=
  match (jstr (o.lookup (bytes "offset"))).bind digitsU64 with
  | none => w.fail ("ASAR packed file offset invalid: "++textOf e.path)
  | some offset =>
    if offset > size ∨ w.info.dataOffset > size ∨ offset > size-w.info.dataOffset ∨
        e.size > size-w.info.dataOffset-offset then
      w.fail ("ASAR packed file range out of bounds: "++textOf e.path)
    else
      .ok ({ info:={ w.info with
              packedFileCount:=w.info.packedFileCount+1
              packedBytes:=max w.info.packedBytes (offset+e.size) }
             ranges := if e.size ≠ 0 then w.ranges++[(offset,e.size)] else w.ranges },
        {e with offset})

def fileFlags : Walk (Bool×Bool) := do
  let unpacked ← w.flag o ("ASAR file unpacked flag invalid: "++textOf path)
  match o.lookup (bytes "executable") with
  | none => return (unpacked,false)
  | some x =>
    match jbool (some x) with
    | some b => return (unpacked,b)
    | none => w.fail ("ASAR executable flag invalid: "++textOf path)

def walkFile (size : ℕ) (o : List (Bytes×J)) (path : Bytes) : Walk WalkState :=
  match ju64 (o.lookup (bytes "size")) with
  | none => w.fail ("ASAR file size invalid: "++textOf path)
  | some fileSize => do
    let flags ← w.fileFlags o path
    match parseIntegrity (o.lookup (bytes "integrity"))
        {path,size:=fileSize,unpacked:=flags.1,executable:=flags.2} with
    | .error message => w.fail message
    | .ok e =>
      let w := if e.integrityAlgorithm ≠ [] then
          {w with info:={w.info with integrityCount:=w.info.integrityCount+1}}
        else w
      let (w,e) ←
        if e.unpacked then
          .ok ({w with info:={w.info with unpackedFileCount:=w.info.unpackedFileCount+1}},
            e)
        else w.walkPacked size o e
      let w := {w with info:={w.info with fileCount:=w.info.fileCount+1}}
      return w.push e

end WalkState

mutual

def walkFiles (size : ℕ) (files : J) (base : Bytes) (w : WalkState) : Walk WalkState :=
  match files with
  | .object o => walkMembers size o base w
  | _ => w.fail "ASAR files node is not an object"

def walkMembers (size : ℕ) (o : List (Bytes×J)) (base : Bytes) (w : WalkState) : Walk WalkState :=
  match o with
  | [] => .ok w
  | (name,v)::rest => do
    let w ← walkMember size name v base w
    walkMembers size rest base w

def walkMember (size : ℕ) (name : Bytes) (v : J) (base : Bytes) (w : WalkState) : Walk WalkState :=
  if !validName name then w.fail ("ASAR invalid entry name: "++textOf name)
  else match v with
  | .object o =>
    let path := if base = [] then name else base++byte '/' :: name
    match o.lookup (bytes "link") with
    | some link => w.walkLink o path link
    | none =>
      if (o.lookup (bytes "files")).isSome then do
        let w ← w.walkDirectory o path
        walkChildren size o path w
      else w.walkFile size o path
  | _ => w.fail ("ASAR entry is not an object: "++textOf name)

/-- The walk of the member `files`. -/
def walkChildren (size : ℕ) (o : List (Bytes×J)) (path : Bytes) (w : WalkState) : Walk WalkState :=
  match o with
  | [] => .ok w
  | (k,v)::rest =>
    if k = bytes "files" then walkFiles size v path w else walkChildren size rest path w

end

variable (i : AsarInfo)

def findFile (p : Bytes) : Option AsarEntry :=
  i.entries.find? fun e => e.kind == .file && e.path == p

/-- The text without `./` in front, as often as it is there. -/
def dropDotSlash : Bytes → Bytes
  | a :: b::s => if a = byte '.' ∧ b = byte '/' then dropDotSlash s else a :: b::s
  | s => s

def normMain : Bytes :=
  let s := s.map fun c => if c = byte '\\' then byte '/' else c
  let s := (dropDotSlash s).dropWhile (· == byte '/')
  if s = [] ∨ s = bytes ".." ∨ (bytes "../").isPrefixOf s ∨ contains s (bytes "/../") then []
  else s

def packageFields (o : List (Bytes×J)) : AsarInfo :=
  { i with
    packageJsonValid:=true,packageName:=(jstr (o.lookup (bytes "name"))).getD i.packageName
    packageVersion:=(jstr (o.lookup (bytes "version"))).getD i.packageVersion
    packageMain := match jstr (o.lookup (bytes "main")) with
      | some m => normMain m
      | none => i.packageMain }

def resolveMain : AsarInfo :=
  if i.packageMain = [] then i
  else match [i.packageMain,i.packageMain++bytes ".js",i.packageMain ++ bytes ".json",
      i.packageMain ++ bytes "/index.js"].find? fun x => (findFile i x).isSome with
  | some x => {i with packageMainResolved:=x}
  | none => i

variable (d : Bytes)

def packageMetadata (i : AsarInfo) : AsarInfo :=
  match findFile i (bytes "package.json") with
  | none => i
  | some e =>
    if e.unpacked ∨ e.size > 2*1024*1024 then i
    else match parseJson ((d.drop (i.dataOffset+e.offset)).take e.size) with
    | .ok (.object o) => resolveMain (packageFields i o)
    | _ => i

/-- How much a file is worth looking at. -/
def pathScore (e : AsarEntry) : Option ℕ :=
  if e.kind ≠ .file then none
  else
    let p := lower e.path
    let b := baseLower e.path
    let ex := extLower e.path
    if p = bytes "package.json" then some 1000
    else if i.packageMainResolved ≠ [] ∧ e.path = i.packageMainResolved then some 950
    else if (bytes "node_modules/").isPrefixOf p then none
    else if contains b (bytes "preload") then some 900
    else if b ∈ ["main.js","index.js","renderer.js","main.cjs","index.cjs"].map bytes then
      some 850
    else if ex = bytes ".node" then some 800
    else if (bytes "src/").isPrefixOf p ∨ (bytes "app/").isPrefixOf p then some 700
    else if ex ∈ [".js",".cjs",".mjs",".ts"].map bytes then some 500
    else if ex = bytes ".map" then some 450
    else if ex = bytes ".json" then some 300
    else none

def interesting : AsarInfo :=
  let scored := i.entries.filterMap fun e => (pathScore i e).map fun s => (s,e.path)
  let sorted := scored.insertionSort fun a b => a.1 > b.1 ∨ (a.1 = b.1 ∧ bytesLt b.2 a.2 = false)
  {i with interestingPaths:=((sorted.map Prod.snd).reverse.dedup.reverse).take 48}

def le32 (o : ℕ) : ℕ := (rd 4 d o).getD 0

def align4 (x : ℕ) : ℕ := (x+3)/4*4

/-- No range starts before `stop`, and none before the end of an earlier one. -/
def rangesApart : ℕ → List (ℕ×ℕ) → Bool
  | _, [] => true
  | stop, r::ranges => stop ≤ r.1 && rangesApart (max stop (r.1+r.2)) ranges

def rangeLe (a b : ℕ×ℕ) : Prop := a.1<b.1 ∨ (a.1=b.1 ∧ a.2≤b.2)

instance : DecidableRel rangeLe := fun _ _ => inferInstanceAs (Decidable (_ ∨ _))

def headerFiles : Except AsarInfo (AsarInfo×J) :=
  if d.length < 16 then .error {i with error := "ASAR too small"}
  else if le32 d 0 ≠ 4 then
    .error {i with error := "ASAR size Pickle payload is not 4 bytes"}
  else
    let i := {i with headerSize:=le32 d 4}
    if i.headerSize < 8 ∨ i.headerSize > 64*1024*1024 ∨ i.headerSize > d.length-8 then
      .error {i with error := "ASAR header size invalid"}
    else if le32 d 8 + 4 ≠ i.headerSize then
      .error {i with error := "ASAR header Pickle geometry invalid"}
    else if 4+align4 (le32 d 12) ≠ le32 d 8 ∨ 16 + le32 d 12 > d.length then
      .error {i with error := "ASAR JSON Pickle string geometry invalid"}
    else match parseJson ((d.drop 16).take (le32 d 12)) with
    | .error message => .error {i with error := "ASAR header JSON invalid: "++message}
    | .ok (.object o) =>
      match o.lookup (bytes "files") with
      | some (.object files) =>
        .ok ({i with dataOffset:=8+i.headerSize},.object files)
      | _ => .error {i with error := "ASAR root files object missing"}
    | .ok _ => .error {i with error := "ASAR header JSON invalid: "}

def detectAsar (archivePath : Bytes) : AsarInfo :=
  match headerFiles { archivePath } d with
  -- nothing before the last line sets `valid`
  | .error i => {i with valid:=false}
  | .ok (i,files) =>
    match walkFiles d.length files [] {info:=i} with
    | .error (message,w) => {w.info with error:=message,valid:=false}
    | .ok w =>
      let i := {w.info with valid:=false}
      if !rangesApart 0 (w.ranges.insertionSort rangeLe) then
        {i with error := "ASAR packed file ranges overlap"}
      else if i.dataOffset+i.packedBytes > d.length then
        {i with error := "ASAR packed data exceeds archive"}
      else
        let i := {i with trailingBytes:=d.length-(i.dataOffset+i.packedBytes)}
        {interesting (packageMetadata d i) with valid:=true}

end AutoRefirst.Asar
