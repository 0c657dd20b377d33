import AutoRefirst.GodotPck
import AutoRefirst.LexicalPaths
import AutoRefirst.OutputDisk
import Mathlib.Data.List.Sort

/-!
# Extraction of a Godot pack

The entries are written one after another under the names of their paths, within a budget of
bytes and of files. Beside the state goes what was listed, and the budgets that were compared.
-/

namespace AutoRefirst.Godot
open CheckedRun

/-- The names of a path; none where it is refused. -/
def safePath (s : Bytes) : DiskPath :=
  let s := if bytes "res://" <+: s then s.drop 6 else s
  let s := s.map fun c => if c = byte '\\' then byte '/' else c
  if s = [] ∨ s.head? = some (byte '/') then []
  else
    let parts := (s.splitOnP (· == byte '/')).filter PathStyle.isName
    if bytes ".." ∈ parts ∨ ∃ x ∈ parts, byte ':' ∈ x then [] else parts

variable (p : DiskPath)

/-- The names as they are compared. -/
def outputKey : DiskPath := p.map lower

def sidecarSuffixes : List Bytes :=
  [bytes ".godot-script-info.json",bytes ".godot-identifiers.csv",bytes ".godot-constants.csv",
    bytes ".godot-lines.csv",bytes ".godot-tokens.csv"]

/-- A file whose name goes on after that of another. -/
def withSuffix (suffix : Bytes) : DiskPath :=
  p.dropLast ++ [p.getLastD [] ++ suffix]

def sidecars : List DiskPath := sidecarSuffixes.map (withSuffix p)

/-- A disk that may also hold the analysis of a script, in the files beside it. A place is what
two names share that the disk takes for one. -/
structure ScriptDisk (σ : Type) extends OutputDisk σ where
  place : DiskPath → DiskPath
  place_key : ∀ p q, place p = place q → outputKey p = outputKey q
  /-- Whether the bytes are a script that can be analysed. -/
  analyzed : Bytes → Bool
  materialize : σ → DiskPath → Bytes → Bool×σ
  materialize_other : ∀ s p b q, (∀ x ∈ sidecars p, place x ≠ q) →
    content (materialize s p b).2 q = content s q

/-- A file that is listed, with the entry it was written for. -/
structure Listed where
  entry : GodotPckEntry
  path : DiskPath
  payload : Bytes

structure GodotExtractResult where
  (success coreOnly budgetExhausted : Bool := false)
  outputDir : DiskPath := []
  files : List DiskPath := []
  (outputBytes omittedCount omittedBytes scriptAnalysisCount scriptArtifactCount
    scriptAnalysisFailures : ℕ := 0)
  warnings : List Bytes := []
  error : String := ""

structure ExtractState (σ : Type) where
  result : GodotExtractResult := {}
  disk : σ
  listed : List Listed := []
  /-- The bytes counted when the rest of the budget was worked out. -/
  charged : List ℕ := []

structure ExtractArgs where
  dir : DiskPath
  (materializeScriptAnalysis coreOnly : Bool)
  (maxOutputBytes maxOutputFiles : ℕ)
  /-- The descriptors and the libraries that the bundles of extensions name. -/
  nativePaths : List Bytes := []

variable {σ : Type} (C : Ciphers) (K : ScriptDisk σ) (d : Bytes) (key : GodotKeyInfo)

/-- A difference in 64 bits. -/
def sub64 (a b : ℕ) : ℕ := (a+2^64-b) % 2^64

variable (s : ExtractState σ)

def warn (text : String) (e : GodotPckEntry) : ExtractState σ :=
  {s with result:={s.result with warnings:=s.result.warnings++[bytes text ++ e.path]}}

def payloadOf (e : GodotPckEntry) : Option Bytes×Option String :=
  match (extractedPayload C d key e).value with
  | .ok x => x
  | .error _ => (none,none)

def omitEntry (e : GodotPckEntry) : ExtractState σ :=
  { s with result:={ s.result with
      budgetExhausted:=true,omittedCount:=s.result.omittedCount+1
      omittedBytes:=min (s.result.omittedBytes+e.size) (2^64-1) } }

def analyzeScript (declared : List DiskPath) (s : ExtractState σ) (e : GodotPckEntry)
    (p : DiskPath) (payload : Bytes) : ExtractState σ :=
  let failed (s : ExtractState σ) (text : String) : ExtractState σ :=
    warn { s with result:={ s.result with
      scriptAnalysisFailures:=s.result.scriptAnalysisFailures+1 } } text e
  if ∃ x ∈ sidecars p, outputKey x ∈ declared then
    failed s "GDScript sidecar materialization refused due to declared PCK path collision: "
  else if K.analyzed payload = false then failed s "GDScript analysis failed for "
  else
    let o := K.materialize s.disk p payload
    let s := {s with disk:=o.2}
    if o.1 = false then failed s "GDScript artifact materialization failed for "
    else { s with result:={ s.result with
      scriptAnalysisCount:=s.result.scriptAnalysisCount+1
      scriptArtifactCount:=s.result.scriptArtifactCount+5 } }

def writeFile (s : σ) (p : DiskPath) (payload : Bytes) : Bool×σ :=
  K.writeFile (K.createDirectories s p.dropLast).2 (K.place p) payload

variable (x : ExtractArgs)

def writeEntry (declared : List DiskPath) (s : ExtractState σ)
    (e : GodotPckEntry) (p : DiskPath) (payload : Bytes) : ExtractState σ :=
  let o := writeFile K s.disk p payload
  let s := {s with disk:=o.2}
  if o.1 = false then warn s "write failed: " e
  else
    let s := { s with
      result:={ s.result with
        files:=s.result.files++[p],outputBytes:=(s.result.outputBytes+payload.length) % 2^64 }
      listed:=s.listed++[⟨e,p,payload⟩] }
    if x.materializeScriptAnalysis ∧ bytes "GDSC" <+: payload then
      analyzeScript K declared s e p payload
    else s

def warnIf (text : Option String) (e : GodotPckEntry) : ExtractState σ :=
  match text with
  | some text => warn s text e
  | none => s

def extractEntry (declared : List DiskPath) (s : ExtractState σ)
    (e : GodotPckEntry) : ExtractState σ :=
  if s.result.files.length ≥ x.maxOutputFiles then omitEntry s e
  else
    let rest := sub64 x.maxOutputBytes s.result.outputBytes
    let s := {s with charged:=s.charged++[s.result.outputBytes]}
    if e.size > rest then omitEntry s e
    else
      let o := payloadOf C d key e
      let s := warnIf s o.2 e
      match o.1 with
      | none => s
      | some payload =>
        if safePath e.path = [] then warn s "unsafe PCK output path refused: " e
        else writeEntry K x declared s e (x.dir ++ safePath e.path) payload

def endsWith (s : Bytes) (t : String) : Bool := bytes t <:+ s

def baseName (s : Bytes) : Bytes := s.rtakeWhile (· ≠ byte '/')

def score (nativePaths : List Bytes) (path : Bytes) : ℕ :=
  let path := lower path
  if endsWith path ".gdc" then 1200
  else if endsWith path ".gd" then 1150
  else if baseName path = bytes "project.binary" ∨ baseName path = bytes "project.godot" then 1100
  else if endsWith path ".gdextension" then 1050
  else if path ∈ nativePaths ∨ bytes "res://"++path ∈ nativePaths then 1000
  else 0

variable (entries : List GodotPckEntry)

/-- The entries with something to extract. -/
def present : List GodotPckEntry :=
  entries.filter fun e => !e.removal && !e.delta

def selectedEntries : List GodotPckEntry :=
  if x.coreOnly then
    ((present entries).filter fun e => score x.nativePaths e.path ≠ 0).insertionSort fun a b =>
      score x.nativePaths b.path < score x.nativePaths a.path ∨
        (score x.nativePaths a.path = score x.nativePaths b.path ∧ bytesLt b.path a.path = false)
  else present entries

def declaredOutputs : List DiskPath :=
  if x.materializeScriptAnalysis then
    ((present entries).filter fun e => safePath e.path ≠ []).map fun e =>
      outputKey (x.dir ++ safePath e.path)
  else []

def extractGodot (i : GodotPckInfo) (disk : σ) : ExtractState σ :=
  let r : GodotExtractResult := {outputDir:=x.dir,coreOnly:=x.coreOnly}
  if i.valid = false ∨ i.entries = [] then
    { disk,result:={ r with
        error := if i.encryptedDirectory ∧ key.confirmed = false then
          "encrypted directory has no validated key" else "no validated PCK entries" } }
  else
    let o := K.createDirectories disk x.dir
    match o.1 with
    | some message => {disk:=o.2,result:={r with error:=message}}
    | none =>
      let selected := selectedEntries x i.entries
      if x.coreOnly ∧ selected = [] then {disk:=o.2,result:={r with success:=true}}
      else
        let s := selected.foldl (extractEntry C K d key x (declaredOutputs x i.entries))
          {disk:=o.2,result:=r}
        let success := if x.coreOnly then s.result.files ≠ []
          else s.result.files ≠ [] ∧ s.result.budgetExhausted = false
        { s with result:={ s.result with
            success:=success
            error := if success then s.result.error
              else if x.coreOnly then "no Godot script/project/native core artifacts materialized"
              else "no files extracted" } }

end AutoRefirst.Godot
