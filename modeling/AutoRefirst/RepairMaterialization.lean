import AutoRefirst.JsonText
import AutoRefirst.LinkDisk
import AutoRefirst.UpxRepair

/-!
# Materializing a validated repair

The repaired bytes go into a part file, which gets its final name by a hard link, and a record of
the repair is written beside it in the same way. This is the POSIX half of the source.
-/

namespace AutoRefirst.Repair

/-- A proposal with its input path taken apart, and what materialization reports of it. -/
structure RepairMaterialization where
  proposal : RepairProposal
  inputPath : DiskPath
  (resultPath provenancePath : DiskPath := [])
  (resultSha256 materializationError : String := "")
  (materialized originalUnchanged : Bool := false)

namespace RepairMaterialization

def kHardMaxArtifactBytes : ℕ := 64*1024*1024

def kHardMaxRanges : ℕ := 8

def kHardMaxChangedBytes : ℕ := 64

def cleared (p : RepairMaterialization) : RepairMaterialization :=
  {proposal:=p.proposal,inputPath:=p.inputPath}

def passed (p : RepairProposal) (stage : RepairValidationStage) : Bool :=
  p.validations.any fun v => v.stage = stage ∧ v.state = .pass

/-- The changed bytes that fit below the bound, counted up from those before. -/
def changedBytes : ℕ → List RepairChangedRange → Option ℕ
  | n, [] => some n
  | n, r::ranges =>
    if r.beforeBytes.length ≠ r.afterBytes.length ∨
        r.beforeBytes.length > kHardMaxChangedBytes-n then none
    else changedBytes (n+r.beforeBytes.length) ranges

/-- What is refused before the disk is looked at. -/
def refusal (p : RepairProposal) (original : Bytes) : Option String :=
  if p.state ≠ .validated ∨ p.proposedResultSha256 = "" ∨ !p.staticReanalysisEligible then
    some "proposal is not strict VALIDATED/static-reanalysis eligible"
  else if !passed p .internalStructure ∨ !passed p .formatPackerInvariant ∨
      !passed p .exactReferenceChosenInputOracle then
    some "validated proposal lacks required V1/V2/V3 PASS evidence"
  else if original.length > kHardMaxArtifactBytes ∨ p.inputSize > kHardMaxArtifactBytes then
    some "parent/output exceeds hard materialization byte bound"
  else if sha256Bytes original ≠ p.inputSha256 ∨ original.length ≠ p.inputSize then
    some "supplied parent bytes do not match proposal identity"
  else if p.changedRanges = [] ∨ p.changedRanges.length > kHardMaxRanges then
    some "changed-range contract is empty or exceeds hard materialization bound"
  else if changedBytes 0 p.changedRanges = none then
    some "changed bytes exceed hard materialization bound"
  else none

def candidate (p : RepairProposal) (original : Bytes) : Option Bytes :=
  (candidateBytes p.changedRanges original).filter fun cand =>
    sha256Bytes cand = p.proposedResultSha256

def extended (p : DiskPath) (more : String) : DiskPath :=
  p.dropLast ++ [p.getLast?.getD [] ++ bytes more]

def partOf (dest : DiskPath) : DiskPath := extended dest ".part"

def defaultRepairRoot (input : DiskPath) : DiskPath :=
  extended input ".auto-refirst"++[bytes "repair"]

def repairRoot (p : RepairMaterialization) (requestedRoot : DiskPath) : DiskPath :=
  if requestedRoot = [] then defaultRepairRoot p.inputPath else requestedRoot

def resultDirectory (p : RepairMaterialization) (requestedRoot : DiskPath) : DiskPath :=
  p.repairRoot requestedRoot ++ [bytes p.proposal.proposedResultSha256]

def baseName (input : DiskPath) : Bytes :=
  let name := input.getLast?.getD []
  if name = [] then bytes "artifact.bin" else name

def outputPath (input dir : DiskPath) : DiskPath := dir ++ [baseName input ++ bytes ".repaired"]

def provenanceIn (dir : DiskPath) : DiskPath := dir ++ [bytes "provenance.json"]

def hexByte (b : UInt8) : Bytes :=
  [byte (Sha256.hexDigit (b.toNat/16)),byte (Sha256.hexDigit (b.toNat % 16))]

def escapeByte (c : UInt8) : Bytes :=
  if c = byte '"' then bytes "\\\""
  else if c = byte '\\' then bytes "\\\\"
  else if c = 0x08 then bytes "\\b"
  else if c = 0x0c then bytes "\\f"
  else if c = 0x0a then bytes "\\n"
  else if c = 0x0d then bytes "\\r"
  else if c = 0x09 then bytes "\\t"
  else if c < 0x20 then bytes "\\u00"++hexByte c
  else [c]

def escaped (s : Bytes) : Bytes := s.flatMap escapeByte

def className : RepairClass → String
  | .metadataNormalization => "R1_METADATA_NORMALIZATION"
  | .layoutReconstruction => "R2_LAYOUT_RECONSTRUCTION"
  | .deterministicBytePatch => "R3_DETERMINISTIC_BYTE_PATCH"
  | .decompressUnpackHandoff => "R4_DECOMPRESS_UNPACK_HANDOFF"
  | .runtimeDerivedRepair => "R5_RUNTIME_DERIVED_REPAIR"

def stateName : RepairState → String
  | .proposed => "PROPOSED"
  | .bounded => "BOUNDED"
  | .validated => "VALIDATED"
  | .rejected => "REJECTED"
  | .ambiguous => "AMBIGUOUS"

def stageName : RepairValidationStage → String
  | .internalStructure => "V1_INTERNAL_STRUCTURE"
  | .formatPackerInvariant => "V2_FORMAT_PACKER_INVARIANT"
  | .exactReferenceChosenInputOracle => "V3_EXACT_REFERENCE_OR_CHOSEN_INPUT_ORACLE"
  | .nativeBoundary => "V4_NATIVE_BOUNDARY"
  | .resultSemanticClosure => "V5_RESULT_SEMANTIC_CLOSURE"

def validationName : RepairValidationState → String
  | .notRun => "NOT_RUN"
  | .pass => "PASS"
  | .fail => "FAIL"

def levelName : ModelEvidenceLevel → String
  | .none => "NONE"
  | .modelInternalRoundTrip => "MODEL_INTERNAL_ROUND_TRIP"
  | .offlineModel => "OFFLINE_MODEL"
  | .chosenInputOracle => "CHOSEN_INPUT_ORACLE"
  | .exactKnownGoodReference => "EXACT_KNOWN_GOOD_REFERENCE"
  | .lowDisturbanceNativeBoundary => "LOW_DISTURBANCE_NATIVE_BOUNDARY"
  | .originalNativeResult => "ORIGINAL_NATIVE_RESULT"

def pathText (p : DiskPath) : Bytes := [byte '/'].intercalate p

def line (key : String) (value : Bytes) : Bytes :=
  bytes "  \""++bytes key ++ bytes "\": "++value ++ bytes ",\n"

def text (key : String) (value : Bytes) : Bytes := line key (JsonText.quote (escaped value))

def flag (b : Bool) : Bytes := bytes (if b then "true" else "false")

def rangeText (r : RepairChangedRange) : Bytes :=
  bytes "\x7b\"file_offset\":"++bytes (toString r.fileOffset) ++
    bytes ",\"size\":"++bytes (toString r.beforeBytes.length) ++
    bytes ",\"before_bytes\":"++JsonText.quote (r.beforeBytes.flatMap hexByte) ++
    bytes ",\"after_bytes\":"++JsonText.quote (r.afterBytes.flatMap hexByte) ++
    bytes ",\"before_sha256\":"++JsonText.quote (bytes r.beforeSha256) ++
    bytes ",\"after_sha256\":"++JsonText.quote (bytes r.afterSha256) ++
    bytes ",\"reason\":"++JsonText.quote (escaped (bytes r.reason)) ++
    bytes ",\"executable_bytes\":"++flag r.executableBytes ++
    bytes ",\"embedded_signature_overlap\":"++flag r.embeddedSignatureOverlap ++ bytes "\x7d"

def validationText (v : RepairValidation) : Bytes :=
  bytes "\x7b\"stage\":"++JsonText.quote (bytes (stageName v.stage)) ++
    bytes ",\"state\":"++JsonText.quote (bytes (validationName v.state)) ++
    bytes ",\"evidence_level\":"++JsonText.quote (bytes (levelName v.evidenceLevel)) ++
    bytes ",\"detail\":"++JsonText.quote (escaped (bytes v.detail)) ++ bytes "\x7d"

def listText (items : List Bytes) : Bytes := bytes "["++JsonText.commas items ++ bytes "]"

def renderRepairJson (p : RepairMaterialization) : Bytes :=
  bytes "\x7b\n"++line "provenance_version" (bytes "1") ++
    text "transformation_relation" (bytes "REPAIRED_FROM") ++
    text "input" (pathText p.inputPath) ++
    text "parent_sha256" (bytes p.proposal.inputSha256) ++
    line "parent_size" (bytes (toString p.proposal.inputSize)) ++
    text "repair_class" (bytes (className p.proposal.repairClass)) ++
    text "state" (bytes (stateName p.proposal.state)) ++
    text "semantic_scope" (bytes p.proposal.semanticScope) ++
    text "mechanism" (bytes p.proposal.mechanism) ++
    text "decision_reason" (bytes p.proposal.decisionReason) ++
    text "evidence_ceiling" (bytes (levelName p.proposal.evidenceCeiling)) ++
    text "integrity_semantics" (bytes p.proposal.integritySemantics) ++
    text "proposed_result_sha256" (bytes p.proposal.proposedResultSha256) ++
    text "result_path" (pathText p.resultPath) ++
    text "result_sha256" (bytes p.resultSha256) ++
    text "provenance_path" (pathText p.provenancePath) ++
    line "materialized" (flag p.materialized) ++
    line "original_unchanged" (flag p.originalUnchanged) ++
    line "static_reanalysis_eligible" (flag p.proposal.staticReanalysisEligible) ++
    line "automatic_runtime_execution_eligible"
      (flag p.proposal.automaticRuntimeExecutionEligible) ++
    text "materialization_error" (bytes p.materializationError) ++
    line "changed_range_count" (bytes (toString p.proposal.changedRanges.length)) ++
    line "changed_ranges" (listText (p.proposal.changedRanges.map rangeText)) ++
    line "validations" (listText (p.proposal.validations.map validationText)) ++
    line "evidence"
      (listText (p.proposal.evidence.map fun e => JsonText.quote (escaped (bytes e)))) ++
    bytes "  \"ambiguity\": " ++
    listText (p.proposal.ambiguity.map fun e => JsonText.quote (escaped (bytes e))) ++
    bytes "\n\x7d\n"

variable {σ : Type} (fs : LinkDisk σ)

def existingSymlink (s : σ) (p : DiskPath) : Bool :=
  match (fs.look s p).symlinkStatus with
  | .ok (some .symlink) => true
  | _ => false

/-- `exists` without an error. -/
def seen (s : σ) (p : DiskPath) : Bool :=
  match (fs.look s p).status with
  | .ok (some _) => true
  | _ => false

def isRegularFile (s : σ) (p : DiskPath) : Bool :=
  match (fs.look s p).status with
  | .ok (some .regular) => true
  | _ => false

/-- A stream that fails in the middle counts as one that has ended. -/
def sha256File (s : σ) (p : DiskPath) : String×σ :=
  let a := fs.call s (.read p)
  (match a.1.got with
    | some b => sha256Bytes b
    | none => "",a.2)

/-- The error of a step, if there is one, and the disk after it. -/
abbrev Attempt (σ : Type) := Option String×σ

def Attempt.andThen (a : Attempt σ) (next : σ→Attempt σ) : Attempt σ :=
  match a with
  | (some e,s) => (some e,s)
  | (none,s) => next s

/-- Remove the part file, whether that fails or not, and go on with this result. -/
def afterRemoving (part : DiskPath) (e : Option String) (s : σ) : Attempt σ :=
  (e,(fs.call s (.remove part)).2)

def clearStale (part : DiskPath) (s : σ) : Attempt σ :=
  if seen fs s part then
    if isRegularFile fs s part then
      let a := fs.call s (.remove part)
      (a.1.error.map fun e => "cannot remove stale temporary output: "++e.message,a.2)
    else (some "unsafe pre-existing temporary output",s)
  else (none,s)

def createPart (part : DiskPath) (s : σ) : Attempt σ :=
  let a := fs.call s (.create part)
  (a.1.error.map fun _ => "cannot create temporary repair artifact",a.2)

def fillPart (part : DiskPath) (d : Bytes) (s : σ) : Attempt σ :=
  let written := fs.call s (.write part d)
  let closed := fs.call written.2 (.close part)
  if written.1.error.isSome || closed.1.error.isSome then
    afterRemoving fs part (some "repair artifact write failed") closed.2
  else (none,closed.2)

def protectPart (part : DiskPath) (s : σ) : Attempt σ :=
  let a := fs.call s (.permissions part)
  if a.1.error.isSome then
    afterRemoving fs part (some "cannot make repair artifact non-executable") a.2
  else (none,a.2)

/-- What stands at the destination already has to be the same. -/
def compareExisting (dest : DiskPath) (d : Bytes) (s : σ) : Attempt σ :=
  if isRegularFile fs s dest then
    let h := sha256File fs s dest
    if h.1 = sha256Bytes d then afterRemoving fs (partOf dest) none h.2
    else afterRemoving fs (partOf dest)
      (some "refused to overwrite non-identical repair artifact") h.2
  else afterRemoving fs (partOf dest) (some "unsafe pre-existing repair artifact") s

/-- The part file gets a second name, and loses its first. -/
def linkPart (dest : DiskPath) (s : σ) : Attempt σ :=
  let linked := fs.call s (.link (partOf dest) dest)
  match linked.1.error with
  | some e =>
    afterRemoving fs (partOf dest)
      (some (if e.alreadyThere then "repair destination appeared concurrently; refused overwrite"
        else "cannot atomically publish repair artifact")) linked.2
  | none =>
    let a := fs.call linked.2 (.remove (partOf dest))
    (a.1.error.map fun e =>
      "published repair artifact but could not remove temporary hard link: "++e.message,a.2)

def publish (dest : DiskPath) (d : Bytes) (s : σ) : Attempt σ :=
  if seen fs s dest then compareExisting fs dest d s else linkPart fs dest s

def preparePart (part : DiskPath) (d : Bytes) (s : σ) : Attempt σ :=
  (((clearStale fs part s).andThen (createPart fs part)).andThen (fillPart fs part d)).andThen
    (protectPart fs part)

def writeAtomic (dest : DiskPath) (d : Bytes) (s : σ) : Attempt σ :=
  if existingSymlink fs s dest then (some "refused symlink output path",s)
  else if existingSymlink fs s (partOf dest) then
    (some "refused symlink temporary output path",s)
  else (preparePart fs (partOf dest) d s).andThen (publish fs dest d)

structure Materialization (σ : Type) where
  ok : Bool
  proposal : RepairMaterialization
  disk : σ

def refused (p : RepairMaterialization) (why : String) (s : σ) : Materialization σ :=
  ⟨false,{p with materializationError:=why},s⟩

def createRoot (root : DiskPath) (s : σ) : Attempt σ :=
  if existingSymlink fs s root then (some "refused symlink repair root",s)
  else
    let a := fs.call s (.createDirectories root)
    (a.1.error.map fun e => "cannot create repair root: "++e.message,a.2)

def createResultDirectory (dir : DiskPath) (s : σ) : Attempt σ :=
  if existingSymlink fs s dir then (some "refused symlink repair result directory",s)
  else
    let a := fs.call s (.createDirectories dir)
    (a.1.error.map fun e => "cannot create repair result directory: "++e.message,a.2)

/-- Take back what was published, unless it was there before. -/
def discard (outputPreexisting : Bool) (out : DiskPath) (s : σ) : σ :=
  if outputPreexisting then s else (fs.call s (.remove out)).2

def admitted (p : RepairMaterialization) (dir : DiskPath) : RepairMaterialization :=
  { p with
    proposal:={ p.proposal with
      staticReanalysisEligible:=true,automaticRuntimeExecutionEligible:=false }
    resultPath:=outputPath p.inputPath dir,resultSha256:=p.proposal.proposedResultSha256
    provenancePath:=provenanceIn dir,originalUnchanged:=true,materialized:=true }

/-- The admission is taken back, and with it the eligibility. -/
def withdrawn (p : RepairMaterialization) : RepairMaterialization :=
  { p with
    proposal:={ p.proposal with
      staticReanalysisEligible:=false,automaticRuntimeExecutionEligible:=false } }

def recordProvenance (p : RepairMaterialization) (dir : DiskPath) (outputPreexisting : Bool)
    (s : σ) : Materialization σ :=
  let p' := admitted p dir
  match writeAtomic fs p'.provenancePath (renderRepairJson p') s with
  | (some e,s) =>
    refused (withdrawn p) ("provenance persistence failed: "++e)
      (discard fs outputPreexisting p'.resultPath s)
  | (none,s) => ⟨true,p',s⟩

/-- What was published is read back, and so is the input. -/
def verifyOutput (p : RepairMaterialization) (dir : DiskPath) (outputPreexisting : Bool)
    (s : σ) : Materialization σ :=
  let out := outputPath p.inputPath dir
  let persisted := sha256File fs s out
  if persisted.1 ≠ p.proposal.proposedResultSha256 then
    refused p "persisted repaired artifact SHA256 mismatch"
      (discard fs outputPreexisting out persisted.2)
  else
    let liveAfter := sha256File fs persisted.2 p.inputPath
    if liveAfter.1 ≠ p.proposal.inputSha256 then
      refused p "original input identity changed concurrently; derived artifact not admitted"
        (discard fs outputPreexisting out liveAfter.2)
    else recordProvenance fs p dir outputPreexisting liveAfter.2

def persist (p : RepairMaterialization) (dir : DiskPath) (cand : Bytes) (s : σ) :
    Materialization σ :=
  let out := outputPath p.inputPath dir
  match writeAtomic fs out cand s with
  | (some e,next) => refused p e next
  | (none,next) => verifyOutput fs p dir (isRegularFile fs s out) next

def inDirectory (p : RepairMaterialization) (root dir : DiskPath) (cand : Bytes) (s : σ) :
    Materialization σ :=
  match (createRoot fs root s).andThen (createResultDirectory fs dir) with
  | (some e,s) => refused p e s
  | (none,s) => persist fs p dir cand s

def materializeValidatedRepair (p : RepairMaterialization) (original : Bytes)
    (requestedRoot : DiskPath) (s : σ) : Materialization σ :=
  let p := p.cleared
  match refusal p.proposal original with
  | some why => refused p why s
  | none =>
    let liveBefore := sha256File fs s p.inputPath
    if liveBefore.1 = "" ∨ liveBefore.1 ≠ p.proposal.inputSha256 then
      refused p "input path no longer matches proposal parent SHA256" liveBefore.2
    else
      match candidate p.proposal original with
      | none =>
        refused p "candidate bytes no longer close against proposal ranges/result SHA256"
          liveBefore.2
      | some cand =>
        let root := p.repairRoot requestedRoot
        if root = p.inputPath ∨ root.dropLast = p.inputPath then
          refused p "refused repair root aliasing original input" liveBefore.2
        else inDirectory fs p root (p.resultDirectory requestedRoot) cand liveBefore.2

end RepairMaterialization

end AutoRefirst.Repair
