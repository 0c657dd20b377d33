import AutoRefirst.ExtractionRun
import AutoRefirst.FileTree
import AutoRefirst.PortableExecutable
import AutoRefirst.ByteRanges

/-!
# Extraction of PyInstaller archives

The members of a CArchive and the modules of its nested PYZ archives, the inventories of both,
and bytecode with its header are written below one directory, under one budget and one set of
names.
-/

namespace AutoRefirst.PyInstaller

open ByteRanges PathStyle

structure PyInstEntry where
  (offset compressed_size uncompressed_size compression_flag : ℕ)
  typecode : UInt8
  name : Bytes

structure PyInstArchiveInfo where
  valid : Bool := false
  (archive_start python_version : ℕ := 0)
  python_library : Bytes := []
  entries : List PyInstEntry := []

structure PyzEnt where
  name : Bytes
  type : ℤ
  (off len : ℕ)

inductive PyInstExtractMode where
  | autoCore | full
deriving DecidableEq

structure PyInstMaterializedFile where
  path : Bytes
  role : String
  source_name : Bytes
  priority : String
  (normalized recursive_candidate : Bool)

structure PyInstExtractResult where
  success : Bool := false
  mode : PyInstExtractMode := .full
  (output_dir carchive_inventory pyz_inventory : Bytes := [])
  files : List Bytes := []
  materialized : List PyInstMaterializedFile := []
  warnings : List String := []
  (normalized_files target_preserved_files normalized_code_units output_bytes omitted_count
    omitted_bytes policy_omitted_count policy_omitted_bytes pyz_entry_count pyz_selected_count
    user_files bootstrap_files runtime_files bulk_files : ℕ := 0)
  budget_exhausted : Bool := false
  error : String := ""

/-- What one call of the decompressor gives for a buffer of a size. -/
inductive Inflated where
  | ok (b : Bytes) | bufferTooSmall | failed

/-- A marshal text with its opcodes mapped back. -/
structure OpcodeRewrite where
  bytes : Bytes
  changed : Bool
  rewritten_code_units : ℕ

/-- What the extraction is handed: the decompressor, the table of contents of a PYZ with the magic
of its bytecode, the roots of the standard library, and the opcode map of the interpreter, when
one is proved, with the official magic. -/
structure Setting where
  inflate : Bytes → ℕ → Inflated
  parse_pyz_toc : Bytes → Option (List PyzEnt×Bytes)
  stdlib_module : Bytes → Bool
  remap : Option (Bytes → Except String OpcodeRewrite)
  official_magic : Option Bytes

/-- Continuation bytes after a lead byte. -/
def utf8Need (c : UInt8) : ℕ :=
  if 0xc2 ≤ c ∧ c ≤ 0xdf then 1
  else if 0xe0 ≤ c ∧ c ≤ 0xef then 2
  else if 0xf0 ≤ c ∧ c ≤ 0xf4 then 3
  else 0

/-- Overlong forms, surrogates and what is behind the last code point. -/
def utf8Excluded (c c1 : UInt8) : Bool :=
  (c == 0xe0 && c1 < 0xa0) || (c == 0xed && 0xa0 ≤ c1) ||
    (c == 0xf0 && c1 < 0x90) || (c == 0xf4 && 0x90 ≤ c1)

def utf8Loop : ℕ → Bytes → Bool
  | _, [] => true
  | 0, _::_ => false
  | fuel+1, c::s =>
    if c < 0x80 then 0x20 ≤ c && utf8Loop fuel s
    else
      let n := utf8Need c
      n != 0 && n ≤ s.length && ((s.take n).all fun x => x &&& 0xc0 == 0x80) &&
        !utf8Excluded c (s.headD 0) && utf8Loop fuel (s.drop n)

def valid_utf8 (s : Bytes) : Bool := utf8Loop s.length s

def reserved_windows_component (part : Bytes) : Bool :=
  let stem := (lower part).takeWhile (· != byte '.')
  let numbered := fun (name : String) =>
    stem.length == 4 && (bytes name).isPrefixOf stem &&
      byte '1' ≤ stem.getD 3 0 && stem.getD 3 0 ≤ byte '9'
  ["con","prn","aux","nul","clock$"].any (fun name => stem == bytes name) ||
    numbered "com" || numbered "lpt"

def safe_part (part : Bytes) : Bool :=
  !(part == [] || part == bytes "." || part == bytes ".." || 255 < part.length ||
    !valid_utf8 part) &&
  !(part.any fun c => c == byte ':' || c == 0) &&
  !(part.getLast? == some (byte '.') || part.getLast? == some (byte ' ') ||
    reserved_windows_component part)

/-- The names on the way down that a relative path spells. -/
def safe_relative_path (raw : Bytes) : Option (List Bytes) :=
  if raw = [] ∨ raw.head? = some (byte '/') ∨ raw.head? = some (byte '\\') then none
  else
    let parts := (raw.map fun c => if c = byte '\\' then byte '/' else c).splitOnP
      fun c => c == byte '/'
    if parts.all safe_part then some parts else none

def safe_module_path (name : Bytes) : Option (List Bytes) :=
  safe_relative_path (name.map fun c => if c = byte '.' then byte '/' else c)

def joinAll (style : PathStyle) (p : Bytes) (parts : List Bytes) : Bytes :=
  parts.foldl (append style) p

def bootstrap_script (n : Bytes) : Bool :=
  n == bytes "struct" || (bytes "pyimod").isPrefixOf n || (bytes "pyiboot").isPrefixOf n

def runtime_hook_script (n : Bytes) : Bool := (bytes "pyi_rth").isPrefixOf n

def script (e : PyInstEntry) : Bool :=
  e.typecode == byte 's' || e.typecode == byte 'm' || e.typecode == byte 'M'

def outer_role (info : PyInstArchiveInfo) (e : PyInstEntry) : String :=
  if script e then
    if bootstrap_script e.name then "bootstrap"
    else if runtime_hook_script e.name then "runtime_hook"
    else "user"
  else if e.typecode = byte 'z' then "pyz_archive"
  else if info.python_library ≠ [] ∧ e.name = info.python_library then "runtime_binary"
  else "bulk"

def outer_score (info : PyInstArchiveInfo) (e : PyInstEntry) : ℕ :=
  let r := outer_role info e
  if r = "user" then 1000
  else if r = "pyz_archive" then 900
  else if r = "bootstrap" then 350
  else if r = "runtime_hook" then 300
  else if r = "runtime_binary" then 100
  else 10

def pyz_role (S : Setting) (n : Bytes) : String :=
  if bootstrap_script n || runtime_hook_script n then "bootstrap"
  else if S.stdlib_module n then "stdlib"
  else "user"

def pyz_score (S : Setting) (n : Bytes) : ℕ :=
  let r := pyz_role S n
  if n = bytes "__main__" ∨ n = bytes "main" then 1200
  else if r = "user" then 900
  else if r = "bootstrap" then 200
  else 100

def ranked {α : Type} (score : α→ℕ) (name : α→Bytes) (l : List α) : List α :=
  l.insertionSort fun a b => score a > score b ∨
    score a = score b ∧ bytesLt (name b) (name a) = false

def zlib_dec (S : Setting) (raw : Bytes) (expected : ℕ) : Option Bytes :=
  if expected = 0 then some []
  else match S.inflate raw expected with
  | .ok b => some b
  | _ => none

/-- Buffers of twice the size until the text fits or the limit is hit. -/
def growBuffer (S : Setting) (raw : Bytes) (max_output : ℕ) : ℕ → ℕ → Option Bytes×Bool
  | 0, _ => (none,true)
  | fuel+1, cap =>
    match S.inflate raw cap with
    | .ok b => (some b,false)
    | .failed => (none,false)
    | .bufferTooSmall =>
      if cap = max_output then (none,true)
      else growBuffer S raw max_output fuel
        (min max_output (if cap > max_output/2 then max_output else cap*2))

/-- The text of a stream of unknown length, and whether the limit was hit. Fifteen buffers go from
4096 bytes to 64 MiB. -/
def zlib_dec_unknown (S : Setting) (raw : Bytes) (max_output : ℕ) : Option Bytes×Bool :=
  let max_output := min max_output (64*1024*1024)
  if max_output = 0 then (none,true)
  else growBuffer S raw max_output 16 (min 4096 max_output)

/-- A file that was opened for writing: what it was given, and whether it was listed. -/
structure Opened where
  (path data : Bytes)
  listed : Bool

structure PyRun (σ : Type) where
  disk : σ
  r : PyInstExtractResult
  claimed : List Bytes := []
  /-- The files opened so far. The program keeps no such list. -/
  opened : List Opened := []

variable {σ : Type}

def warn (t : PyRun σ) (text : String) : PyRun σ :=
  if t.r.warnings.length < 256 then {t with r:={t.r with warnings:=t.r.warnings++[text]}}
  else t

def remaining_bytes (t : PyRun σ) (max_output_bytes : ℕ) : ℕ :=
  if t.r.output_bytes < max_output_bytes then max_output_bytes-t.r.output_bytes else 0

def note_omitted (t : PyRun σ) (n : ℕ) (why : String) : PyRun σ :=
  warn { t with r:={ t.r with
    budget_exhausted:=true,omitted_count:=t.r.omitted_count+1
    omitted_bytes:=Word64.satAdd t.r.omitted_bytes n } } why

def count_role (r : PyInstExtractResult) (role : String) : PyInstExtractResult :=
  if role = "user" ∨ role = "pyz_user" then {r with user_files:=r.user_files+1}
  else if role = "bootstrap" ∨ role = "pyz_bootstrap" then
    {r with bootstrap_files:=r.bootstrap_files+1}
  else if role = "runtime_hook" ∨ role = "runtime_binary" then
    {r with runtime_files:=r.runtime_files+1}
  else if role = "bulk" then {r with bulk_files:=r.bulk_files+1}
  else r

/-- `lexically_relative` of two normal paths, each its root and its names. -/
def lexicallyRelative (p base : DiskPath) : List Bytes :=
  if p.head? ≠ base.head? then []
  else
    let common := ((p.tail.zip base.tail).takeWhile fun x => x.1 == x.2).length
    let rest := base.tail.drop common
    let ups := (rest.filter (· ≠ bytes "..")).length
    let downs := (rest.filter (· = bytes "..")).length
    let left := p.tail.drop common
    if ups < downs then []
    else if ups = downs ∧ left = [] then [bytes "."]
    else List.replicate (ups-downs) (bytes "..") ++ left

/-- A directory on the way: there, or made now. -/
def ensure (D : FileTree σ) (s : σ) (p : DiskPath) (text : String) : Option String×σ :=
  let make :=
    let made := D.createDirectory s p
    match made.1 with
    | some e => (some ("cannot create output directory: "++e),made.2)
    | none =>
      match D.status made.2 p with
      | .ok (some .directory) => (none,made.2)
      | _ => (some "created output component is not a real directory",made.2)
  match D.status s p with
  | .ok (some .symlink) => (some ("output path component is a symlink: "++text),s)
  | .ok (some .directory) => (none,s)
  | .ok (some _) => (some ("output path component is not a directory: "++text),s)
  | .ok none => make
  | .error _ => make

def path_utf8 (style : PathStyle) (p : DiskPath) : String :=
  textOf (p.headD [] ++ [preferredSep style].intercalate p.tail)

/-- The directories below `cur`, one after another. -/
def ensureAll (D : FileTree σ) (style : PathStyle) : σ → DiskPath → List Bytes → Option String×σ
  | s, _, [] => (none,s)
  | s, cur, part::rest =>
    let made := ensure D s (cur++[part]) (path_utf8 style (cur++[part]))
    match made.1 with
    | some why => (some why,made.2)
    | none => ensureAll D style made.2 (cur++[part]) rest

def ensure_output_parent (D : FileTree σ) (style : PathStyle) (s : σ) (root dest : Bytes) :
    Option String×σ :=
  let nr := located style root
  let parent := (located style dest).dropLast
  let rel := lexicallyRelative parent nr
  if rel = [] ∧ parent ≠ nr then (some "output parent is outside extraction root",s)
  else if bytes ".." ∈ rel then (some "output parent escapes extraction root",s)
  else
    let made := ensure D s nr (path_utf8 style nr)
    match made.1 with
    | some why => (some why,made.2)
    | none => ensureAll D style made.2 nr (rel.filter isName)

/-- The message of a failure, the disk, and whether the file was opened. -/
def write_file_safe (D : FileTree σ) (style : PathStyle) (s : σ) (root p data : Bytes) :
    Option String×σ×Bool :=
  let parent := ensure_output_parent D style s root p
  match parent.1 with
  | some why => (some why,parent.2,false)
  | none =>
    if D.status parent.2 (located style p) = .ok (some .symlink) then
      (some ("output file is a symlink: "++textOf p),parent.2,false)
    else
      let made := D.create parent.2 (located style p)
      if made.1 = false then (some ("cannot create output file: "++textOf p),made.2,true)
      else
        let wrote := D.write made.2 (located style p) data
        let closed := D.close wrote.2 (located style p)
        (if wrote.1 then none else some ("write failed: "++textOf p),closed.2,true)

/-- What is written, and how it is reported. -/
structure Output where
  (path data : Bytes)
  role : String
  source : Bytes
  priority : String
  (normalized recursive : Bool := false)

/-- What an extraction has in hand. -/
structure Job (σ : Type) where
  D : FileTree σ
  style : PathStyle
  S : Setting
  d : Bytes
  info : PyInstArchiveInfo
  dir : Bytes
  (max_output_bytes max_output_files : ℕ)
  mode : PyInstExtractMode

variable (J : Job σ)

/-- The path below the output directory. -/
def relativeOf (p : Bytes) : List Bytes :=
  lexicallyRelative (located J.style p) (located J.style J.dir)

def keyOf (rel : List Bytes) : Bytes := lower ([preferredSep J.style].intercalate rel)

/-- One file, when its name is free and the budget allows it. -/
def write_budgeted (t : PyRun σ) (o : Output) : Bool×PyRun σ :=
  let rel := relativeOf J o.path
  let text := textOf ([preferredSep J.style].intercalate rel)
  if rel = [] then
    (false,warn t ("refused output outside PyInstaller root: "++textOf o.path))
  else if keyOf J rel ∈ t.claimed then
    (false,warn t ("refused case-colliding/duplicate PyInstaller output: "++text))
  else
    let t := {t with claimed:=t.claimed++[keyOf J rel]}
    if o.data.length > remaining_bytes t J.max_output_bytes ∨
        t.r.files.length ≥ J.max_output_files then
      (false,note_omitted t o.data.length
        ("artifact budget refused PyInstaller output: "++text))
    else
      let wrote := write_file_safe J.D J.style t.disk J.dir o.path o.data
      match wrote.1 with
      | some why =>
        (false,warn
          { t with
            disk:=wrote.2.1
            opened := if wrote.2.2 then t.opened++[⟨o.path,o.data,false⟩] else t.opened }
          ("PyInstaller output refused/failed: "++why))
      | none =>
        (true,
          { t with
            disk:=wrote.2.1,opened:=t.opened++[⟨o.path,o.data,true⟩]
            r:=count_role
              { t.r with
                output_bytes:=t.r.output_bytes+o.data.length,files:=t.r.files++[o.path]
                materialized:=t.r.materialized ++
                  [⟨o.path,o.role,o.source,o.priority,o.normalized,o.recursive⟩] } o.role })

/-- A path with text behind its last name. -/
def path_with_ascii_suffix (p : Bytes) (suffix : String) : Bytes := p ++ bytes suffix

def pyc_wrap (marshal magic : Bytes) (pyver : ℕ) : Bytes :=
  let h := if pyver ≥ 307 then 16 else if pyver ≥ 303 then 12 else 8
  magic ++ List.replicate (h-4) 0++marshal

def write_target (t : PyRun σ) (base marshal : Bytes) (target_magic : Option Bytes)
    (suffix : String) (o : Output) : Bool×PyRun σ :=
  match target_magic with
  | some magic => write_budgeted J t { o with
      path:=path_with_ascii_suffix base (suffix++".pyc")
      data:=pyc_wrap marshal magic J.info.python_version }
  | none => write_budgeted J t { o with
      path:=path_with_ascii_suffix base (suffix++".marshal"),data:=marshal }

/-- The form of the target is kept beside bytecode that differs from it. -/
def preserve_target (t : PyRun σ) (base marshal official : Bytes) (target_magic : Option Bytes)
    (norm : OpcodeRewrite) (o : Output) : Bool×PyRun σ :=
  if norm.changed || target_magic.any (· != official) then
    let target := write_target J t base marshal target_magic ".target" o
    if target.1 then
      (true,{ target.2 with r:={ target.2.r with
        target_preserved_files:=target.2.r.target_preserved_files+1 } })
    else target
  else (true,t)

def write_normalized (t : PyRun σ) (base marshal official : Bytes) (target_magic : Option Bytes)
    (norm : OpcodeRewrite) (o : Output) : Bool×PyRun σ :=
  let target := preserve_target J t base marshal official target_magic norm o
  if target.1 then
    let wrote := write_budgeted J target.2 { o with
      path:=path_with_ascii_suffix base ".pyc"
      data:=pyc_wrap norm.bytes official J.info.python_version,normalized:=true }
    if wrote.1 then
      (true,{ wrote.2 with r:={ wrote.2.r with
        normalized_files:=wrote.2.r.normalized_files+1
        normalized_code_units:=wrote.2.r.normalized_code_units+norm.rewritten_code_units } })
    else wrote
  else target

def write_code (t : PyRun σ) (base marshal : Bytes) (target_magic : Option Bytes) (o : Output) :
    Bool×PyRun σ :=
  match J.S.remap, J.S.official_magic with
  | some remap, some official =>
    match remap marshal with
    | .ok norm => write_normalized J t base marshal official target_magic norm o
    | .error e => write_target J (warn t ("opcode normalization skipped for "++textOf o.source ++
        ": "++e)) base marshal target_magic "" o
  | _, _ => write_target J t base marshal target_magic "" o

def csvq (s : Bytes) : Bytes :=
  bytes "\""++s.flatMap (fun c =>
    if c = byte '"' then bytes "\"\""
    else if c = byte '\n' ∨ c = byte '\r' then bytes " "
    else [c]) ++ bytes "\""

def auto_selected (info : PyInstArchiveInfo) (e : PyInstEntry) : Bool :=
  outer_role info e ∈ ["user","bootstrap","runtime_hook","pyz_archive"]

def noFile (e : PyInstEntry) : Bool := e.typecode == byte 'd' || e.typecode == byte 'o'

def entrySelected (e : PyInstEntry) : Bool :=
  if J.mode = .full then !noFile e else auto_selected J.info e

def inventoryRow (e : PyInstEntry) : Bytes :=
  csvq e.name ++ bytes ","++csvq [e.typecode] ++ bytes "," ++
    bytes (toString e.compressed_size) ++ bytes ","++bytes (toString e.uncompressed_size) ++
    bytes ","++bytes (if e.compression_flag ≠ 0 then "true" else "false") ++ bytes "," ++
    csvq (bytes (outer_role J.info e)) ++ bytes "," ++
    bytes (if entrySelected J e then "materialize" else "bulk_explicit") ++ bytes "\n"

def pyzRow (z : PyzEnt) : Bytes :=
  csvq z.name ++ bytes ","++bytes (toString z.type) ++ bytes ","++bytes (toString z.len) ++
    bytes ","++csvq (bytes (pyz_role J.S z.name)) ++ bytes "," ++
    bytes (toString (pyz_score J.S z.name)) ++ bytes ",materialize_by_priority_budget\n"

/-- What the mode leaves out is counted. -/
def policyOmit (r : PyInstExtractResult) (e : PyInstEntry) : PyInstExtractResult :=
  if J.mode = .autoCore ∧ entrySelected J e = false ∧ noFile e = false then
    { r with
      policy_omitted_count:=r.policy_omitted_count+1
      policy_omitted_bytes:=Word64.satAdd r.policy_omitted_bytes
        (if e.compression_flag ≠ 0 then e.uncompressed_size else e.compressed_size) }
  else r

/-- The magic of the first PYZ that can be read. -/
def pycMagic : Option Bytes :=
  J.info.entries.findSome? fun e =>
    let off := J.info.archive_start+e.offset
    if e.typecode ≠ byte 'z' ∨ off+e.compressed_size > J.d.length then none
    else
      let raw := slice J.d (off,e.compressed_size)
      let payload := if e.compression_flag = 0 then some raw
        else if e.uncompressed_size > J.max_output_bytes then none
        else zlib_dec J.S raw e.uncompressed_size
      match payload with
      | none => none
      | some payload =>
        if payload.length ≥ 8 ∧ payload.take 4 = bytes "PYZ"++[0] then
          some (slice payload (4,4))
        else none

def below (names : List String) : Bytes := joinAll J.style J.dir (names.map bytes)

def pyzFolder (role : String) : String :=
  if role = "user" then "user" else if role = "bootstrap" then "bootstrap" else "stdlib"

def publicRole (role : String) : String :=
  if role = "user" then "pyz_user" else if role = "bootstrap" then "pyz_bootstrap"
  else "pyz_stdlib"

def count_selected (r : Bool×PyRun σ) : PyRun σ :=
  if r.1 then {r.2 with r:={r.2.r with pyz_selected_count:=r.2.r.pyz_selected_count+1}}
  else r.2

def pyz_module (payload magic : Bytes) (t : PyRun σ) (z : PyzEnt) : PyRun σ :=
  if z.off+z.len > payload.length then warn t ("PYZ entry out of bounds: "++textOf z.name)
  else match safe_module_path z.name with
  | none => warn t ("unsafe/cross-platform PYZ module path refused: "++textOf z.name)
  | some parts =>
    let zr := pyz_role J.S z.name
    let base := joinAll J.style (below J ["PYZ",pyzFolder zr])
      (if z.type = 1 then parts ++ [bytes "__init__"] else parts)
    let raw := slice payload (z.off,z.len)
    let o : Output := { path:=base,data:=raw,role:=publicRole zr,source:=z.name
                        priority := if zr = "user" then "HIGH" else "LOW",recursive:=zr == "user" }
    let dec := zlib_dec_unknown J.S raw (remaining_bytes t J.max_output_bytes)
    match dec.1 with
    | some marshal => count_selected (write_code J t base marshal (some magic) o)
    | none =>
      if dec.2 then
        note_omitted t z.len ("artifact budget refused PYZ module before full decompression: " ++
          textOf z.name)
      else
        warn (count_selected (write_budgeted J t { o with
          path:=path_with_ascii_suffix base ".encrypted" }))
          ("PYZ entry is encrypted/corrupt: "++textOf z.name)

/-- The first inventory has the plain name. -/
def inventoryPath (t : PyRun σ) (pyz_path : Bytes) : Bytes :=
  if t.r.pyz_inventory = [] then below J ["PYZ","inventory.csv"]
  else path_with_ascii_suffix pyz_path ".inventory.csv"

def note_inventory (inv : Bytes) (r : Bool×PyRun σ) : PyRun σ :=
  if r.1 = true ∧ r.2.r.pyz_inventory = [] then
    {r.2 with r:={r.2.r with pyz_inventory:=inv}}
  else r.2

/-- The inventory and the modules of a PYZ that was written. -/
def pyz_contents (t : PyRun σ) (e : PyInstEntry) (pyz_path payload : Bytes) : PyRun σ :=
  match J.S.parse_pyz_toc payload with
  | none => warn t ("PYZ TOC could not be decoded for "++textOf e.name)
  | some toc =>
    let t := {t with r:={t.r with pyz_entry_count:=t.r.pyz_entry_count+toc.1.length}}
    let inv := inventoryPath J t pyz_path
    let wrote := write_budgeted J t
      { path:=inv
        data:=bytes "name,type,compressed_size,role,priority_score,policy\n" ++
          toc.1.flatMap (pyzRow J)
        role := "inventory",source:=e.name++bytes ":PYZ_TOC",priority := "ANALYSIS" }
    (ranked (fun z => pyz_score J.S z.name) (·.name) toc.1).foldl (pyz_module J payload toc.2)
      (note_inventory inv wrote)

def member (target_magic : Option Bytes) (t : PyRun σ) (e : PyInstEntry) (payload : Bytes) :
    PyRun σ :=
  match safe_relative_path e.name with
  | none => warn t ("unsafe/cross-platform PyInstaller entry path refused: "++textOf e.name)
  | some rel =>
    let role := outer_role J.info e
    if script e then
      let folder := if role = "user" then "user" else if role = "bootstrap" then "bootstrap"
        else "runtime"
      let base := joinAll J.style (below J ["python",folder]) rel
      (write_code J t base payload target_magic
        { path:=base,data:=payload,role,source:=e.name
          priority := if role = "user" then "HIGH" else "LOW",recursive:=role == "user" }).2
    else if e.typecode ≠ byte 'z' then
      if J.mode ≠ .full then t
      else
        let runtime := role = "runtime_binary"
        (write_budgeted J t
          { path:=joinAll J.style (below J [if runtime then "runtime" else "bulk"]) rel
            data:=payload,role,source:=e.name
            priority := if runtime then "LOW" else "BULK",recursive:=true }).2
    else
      let pyz_path := joinAll J.style (below J ["PYZ"]) rel
      let wrote := write_budgeted J t
        { path:=pyz_path,data:=payload,role := "pyz_archive",source:=e.name,priority := "HIGH" }
      if wrote.1 then pyz_contents J wrote.2 e pyz_path payload else wrote.2

/-- A member that cannot be decompressed. -/
def failedMember (t : PyRun σ) (e : PyInstEntry) (raw : Bytes) : PyRun σ :=
  match safe_relative_path e.name with
  | none => warn t ("unsafe PyInstaller entry path refused: "++textOf e.name)
  | some rel =>
    let t := if J.mode = .full then
        (write_budgeted J t
          { path:=path_with_ascii_suffix (joinAll J.style (below J ["bulk"]) rel) ".compressed"
            data:=raw,role := "bulk",source:=e.name,priority := "BULK",recursive:=true }).2
      else t
    warn t ("zlib failed for CArchive entry: "++textOf e.name)

/-- One turn of the loop over the members. -/
def outer_entry (target_magic : Option Bytes) (t : PyRun σ) (e : PyInstEntry) : PyRun σ :=
  let off := J.info.archive_start+e.offset
  if off+e.compressed_size > J.d.length then
    warn t ("entry out of bounds during materialization: "++textOf e.name)
  else
    let raw := slice J.d (off,e.compressed_size)
    if e.compression_flag = 0 then member J target_magic t e raw
    else if e.uncompressed_size > J.max_output_bytes then
      note_omitted t e.uncompressed_size
        ("artifact budget refused PyInstaller entry before decompression: "++textOf e.name)
    else match zlib_dec J.S raw e.uncompressed_size with
    | none => failedMember J t e raw
    | some payload => member J target_magic t e payload

def outer : List PyInstEntry :=
  ranked (outer_score J.info) (·.name) (J.info.entries.filter fun e =>
    !noFile e && (J.mode == .full || auto_selected J.info e))

/-- The inventory of the archive, and then its members. -/
def extract_all (t : PyRun σ) : PyRun σ :=
  let t := if J.S.remap.isSome = true ∧ J.S.official_magic = none then
      { t with r:={ t.r with warnings:=t.r.warnings ++
          ["opcode normalization validated, but no exact official CPython pyc magic reference is " ++
            "available; extracted bytecode is kept in target form"] } }
    else t
  let inventory := below J ["inventory.csv"]
  let t := { t with r:={ (J.info.entries.foldl (policyOmit J) t.r) with
    carchive_inventory:=inventory } }
  let wrote := write_budgeted J t
    { path:=inventory
      data:=bytes ("name,typecode,compressed_size,uncompressed_size,compressed,role," ++
        "default_policy\n") ++
        J.info.entries.flatMap (inventoryRow J)
      role := "inventory",source:=bytes "CArchive",priority := "ANALYSIS" }
  (outer J).foldl (outer_entry J (pycMagic J)) wrote.2

def finish (mode : PyInstExtractMode) (r : PyInstExtractResult) : PyInstExtractResult :=
  let success := !r.files.isEmpty && (mode == .autoCore || !r.budget_exhausted)
  { r with
    success
    error :=
      if mode = .full ∧ r.budget_exhausted = true then "recursive extraction budget exhausted"
      else if success then r.error
      else "no PyInstaller artifacts materialized" }

def extract_pyinstaller (s : σ) : PyRun σ :=
  let r : PyInstExtractResult := {output_dir:=J.dir,mode:=J.mode}
  if J.info.valid = false then
    {disk:=s,r:={r with error := "invalid CArchive info"}}
  else
    let root := ensure_output_parent J.D J.style s J.dir (below J [".init"])
    match root.1 with
    | some error => {disk:=root.2,r:={r with error}}
    | none =>
      let t := extract_all J {disk:=root.2,r}
      {t with r:=finish J.mode t.r}

end AutoRefirst.PyInstaller
