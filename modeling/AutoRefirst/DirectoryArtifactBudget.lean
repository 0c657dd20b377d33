import AutoRefirst.StaticArtifactChildren

/-!
# The artifact budget of a directory run

`analyze_directory_spooled` as far as it writes artifacts: the candidates are analysed
one after another, each with what is left of the pre-relationship budget, and after the
relationships are built the decisive children of encrypted Godot packs are materialised
with what is left of the hard one. One step is one operation of the run: an analysis, the
settlement of its output, one turn over the child artifacts, or one Godot target.
-/

namespace AutoRefirst.ArtifactGraph

open StepMachine

def kDirectoryArtifactBytes : ℕ := 64*1024*1024

def kDirectoryArtifactFiles : ℕ := 512

def kDirectoryPreRelationshipArtifactBytes : ℕ := 56*1024*1024

def kDirectoryPreRelationshipArtifactFiles : ℕ := 384

def kAutoMaterializationBytes : ℕ := 64*1024*1024

def kAutoMaterializationFiles : ℕ := 256

def kMaxTargets : ℕ := 8

def artifactRootForInput (input : NativePath) : NativePath := ⟨input.native++".auto-refirst"⟩

def directoryReportKey (p : NativePath) : String := pathUtf8 p.lexicallyNormal

/-- The options of the command line that the artifact budget reads. -/
structure Options extends Limits where
  (extract runRequested : Bool := false)
  extractBudgetBytes : ℕ := Word64.maxValue
  extractBudgetFiles : ℕ := 2^32-1
  (suppressAutoChildAnalysis suppressAutoMaterialization : Bool := false)

structure AnalysisOptions where
  extract : Bool
  (extractBudgetBytes extractBudgetFiles artifactMaxBytes artifactMaxNodes : ℕ)
  (suppressAutoChildAnalysis suppressAutoMaterialization : Bool)
  deriving DecidableEq, Repr

namespace Options

variable (opt : Options)

def static : AnalysisOptions :=
  { extract:=opt.extract,extractBudgetBytes:=opt.extractBudgetBytes
    extractBudgetFiles:=opt.extractBudgetFiles,artifactMaxBytes:=opt.artifactMaxBytes
    artifactMaxNodes:=opt.artifactMaxNodes,suppressAutoChildAnalysis:=opt.suppressAutoChildAnalysis
    suppressAutoMaterialization:=opt.suppressAutoMaterialization }

/-- The options of a deferred candidate, and of the analysis that follows a rollback. -/
def suppressed : AnalysisOptions :=
  { opt.static with
    suppressAutoMaterialization:=true,suppressAutoChildAnalysis:=true,extractBudgetBytes:=0
    extractBudgetFiles:=0,artifactMaxBytes:=0,artifactMaxNodes:=0 }

def lending (remainingBytes remainingFiles : ℕ) : AnalysisOptions :=
  { opt.static with
    suppressAutoChildAnalysis:=true,extractBudgetBytes:=min opt.extractBudgetBytes remainingBytes
    extractBudgetFiles:=min opt.extractBudgetFiles remainingFiles
    artifactMaxBytes:=min opt.artifactMaxBytes remainingBytes
    artifactMaxNodes:=min opt.artifactMaxNodes remainingFiles }

def autoCoreBudget : ℕ×ℕ :=
  if opt.suppressAutoMaterialization then (0,0)
  else
    (min (min kAutoMaterializationBytes opt.artifactMaxBytes) opt.extractBudgetBytes,
      min (min kAutoMaterializationFiles opt.artifactMaxNodes) opt.extractBudgetFiles)

def boundedArtifacts : Bool := !opt.extract

end Options

/-- The state texts of a candidate, by their words. -/
inductive MaterializationState where
  | notMeasured | refusedUnsafeRoot | deferred | materialized | materializedPartial | noOutput
  deriving DecidableEq, Repr

structure DirectoryCandidate where
  path : NativePath
  readable : Bool := true
  artifactMaterializationState : MaterializationState := .notMeasured
  artifactMaterializationReason : String := ""
  (artifactMaterializedBytes artifactMaterializedFiles : ℕ := 0)
  deriving DecidableEq, Repr

/-- The part of a candidate's report that the artifact budget reads. `retained` is the
decision that the report is kept until the relationships are known, `encryptedDirectory`
that it is a valid Godot pack with an encrypted directory. -/
structure CandidateReport where
  input : NativePath
  inputSha256 : String := ""
  artifacts : List AnalysisArtifact := []
  artifactGraph : ArtifactGraphInfo := {}
  materialization : Materialization := {}
  (inputAnalysisFailed retained encryptedDirectory : Bool := false)

def CandidateReport.artifactRoot (r : CandidateReport) : NativePath := artifactRootForInput r.input

def noteDirectoryArtifactDeferred (r : CandidateReport) (files bytes : ℕ) (reason : String) :
    CandidateReport :=
  { r with
    materialization :=
      { isPartial:=true
        omittedCount:=satAdd r.materialization.omittedCount files
        omittedBytes:=satAdd r.materialization.omittedBytes bytes
        reasons:=r.materialization.reasons ++ [reason++"; rerun this file directly to restore its normal single-file automatic materialization contract"] } }

structure DirectoryArtifactRendering where
  profile : String := "unbounded"
  isPartial : Bool := false
  (maxBytes maxFiles preRelationshipMaxBytes preRelationshipMaxFiles postRelationshipReserveBytes
    postRelationshipReserveFiles materializedBytes materializedFiles retainedCandidateRoots
    deferredCandidateCount knownOmittedBytes knownOmittedFiles unknownOmittedCandidateCount
    : ℕ := 0)
  reason : String := ""
  deriving DecidableEq, Repr

namespace DirectoryArtifactRendering

def start (opt : Options) : DirectoryArtifactRendering :=
  if opt.boundedArtifacts then
    { profile := if opt.runRequested then "bounded_static_preparation" else "bounded_default"
      maxBytes:=kDirectoryArtifactBytes,maxFiles:=kDirectoryArtifactFiles
      preRelationshipMaxBytes:=kDirectoryPreRelationshipArtifactBytes
      preRelationshipMaxFiles:=kDirectoryPreRelationshipArtifactFiles
      postRelationshipReserveBytes :=
        kDirectoryArtifactBytes - kDirectoryPreRelationshipArtifactBytes
      postRelationshipReserveFiles :=
        kDirectoryArtifactFiles - kDirectoryPreRelationshipArtifactFiles }
  else {profile := "explicit_extract_per_file"}

variable (a : DirectoryArtifactRendering)

/-- A candidate without automatic output. -/
def deferUnknown : DirectoryArtifactRendering :=
  { a with
    isPartial:=true,deferredCandidateCount:=Word64.add a.deferredCandidateCount 1
    unknownOmittedCandidateCount:=Word64.add a.unknownOmittedCandidateCount 1 }

/-- Output that is known and left out. -/
def omitKnown (bytes files : ℕ) : DirectoryArtifactRendering :=
  { a with
    isPartial:=true,knownOmittedBytes:=satAdd a.knownOmittedBytes bytes
    knownOmittedFiles:=satAdd a.knownOmittedFiles files }

def rollBack (st : DirectoryArtifactTreeStats) : DirectoryArtifactRendering :=
  { a.omitKnown st.bytes st.files with
    deferredCandidateCount:=Word64.add a.deferredCandidateCount 1 }

def retainRoot : DirectoryArtifactRendering :=
  {a with retainedCandidateRoots:=Word64.add a.retainedCandidateRoots 1}

/-- The totals at the end of the run. -/
def finish (opt : Options) (bytesUsed filesUsed : ℕ) : DirectoryArtifactRendering :=
  let isPartial := a.isPartial || a.deferredCandidateCount != 0
  { a with
    materializedBytes:=bytesUsed,materializedFiles:=filesUsed,isPartial
    reason :=
      if opt.boundedArtifacts then
        if isPartial then "one or more automatic artifact outputs or derivatives were deferred/refused to preserve the directory aggregate hard bound"
        else "all automatic artifact outputs fit the default directory aggregate hard bound"
      else "explicit --extract requested the established per-file materialization behavior; no default directory aggregate cap is claimed" }

end DirectoryArtifactRendering

/-- The report of an analysis, and what it wrote below the artifact root. -/
structure AnalyzedFile where
  report : CandidateReport
  (bytes files : ℕ := 0)

/-- The result of `materialize_godot_external_pck_core`. Each child comes with the artifact
of the report that is the same file, if there is one; `leaves` is what failed writes left. -/
structure GodotExternalPckMaterializeResult where
  budgetExhausted : Bool := false
  children : List (Option AnalysisArtifact) := []
  (outputBytes omittedCount omittedBytes : ℕ := 0)
  leaves : DirectoryArtifactTreeStats := {}

/-- A write that succeeds, or fails and leaves something behind. -/
inductive WriteOutcome where
  | written
  | failed (leaves : DirectoryArtifactTreeStats)

/-- The file system, the analyses and the Godot pass, by the number of the turn. `none` is
success, an error text is failure. `children` is the environment of the child pass that
starts in a turn; `composeTarget` gives the hash of the only source that resolves a target. -/
structure DirectoryEnvironment where
  resetRoot : ℕ → Option String
  analyzeFile : ℕ → NativePath → AnalysisOptions → AnalyzedFile
  (inspectTree cleanup : ℕ→Option String)
  children : ℕ → BoundedEnvironment
  spoolReport : ℕ → Option String
  composeTarget : ℕ → CandidateReport → Option String
  resetSubdirectory : ℕ → Option String
  materializeCore : ℕ → ℕ → ℕ → GodotExternalPckMaterializeResult
  provenanceBytes : ℕ → GodotExternalPckMaterializeResult → ℕ
  writeProvenance : ℕ → WriteOutcome
  staticChildren : ℕ → DirectoryArtifactTreeStats

/-- How a candidate's analysis was prepared: without a budget (`--extract`), below a root
that could not be emptied, after the budget was exhausted, or with what remained. -/
inductive Preparation where
  | unmetered | unsafeRoot | deferred
  | lent (remainingBytes remainingFiles : ℕ)

/-- A Godot target after its own output was charged. -/
structure GodotTarget where
  report : CandidateReport
  (addedBytes addedFiles : ℕ)
  exhausted : Bool

inductive Phase where
  | candidates (rest : List DirectoryCandidate)
  | analyzed (r : CandidateReport) (preparation : Preparation) (rest : List DirectoryCandidate)
  | reanalyzed (r : CandidateReport) (rolledBack : DirectoryArtifactTreeStats)
    (rest : List DirectoryCandidate)
  | children (r : CandidateReport) (before : DirectoryArtifactTreeStats) (pass : ℕ)
    (loop : BoundedLoop) (rest : List DirectoryCandidate)
  | targets (rest : List CandidateReport) (count : ℕ)
  | targetChildren (target : GodotTarget) (before : DirectoryArtifactTreeStats) (pass : ℕ)
    (loop : BoundedLoop) (rest : List CandidateReport) (count : ℕ)
  | finished
  | failed (message : String)

structure DirectoryRun where
  plan : List DirectoryCandidate
  (artifactBytesUsed artifactFilesUsed : ℕ := 0)
  disk : ArtifactDisk := []
  rendering : DirectoryArtifactRendering
  retained : List CandidateReport := []
  (successfulInputs turn : ℕ := 0)
  phase : Phase

/-- The readable and unreadable files of the input directory; no file is listed twice. -/
structure Inventory where
  candidates : List DirectoryCandidate
  distinct : (candidates.map (·.path)).Nodup

def preRelationshipBudget : DirectoryBudget :=
  ⟨kDirectoryPreRelationshipArtifactBytes,kDirectoryPreRelationshipArtifactFiles⟩

def hardBudget : DirectoryBudget := ⟨kDirectoryArtifactBytes,kDirectoryArtifactFiles⟩

namespace DirectoryRun

def start (opt : Options) (inventory : Inventory) : DirectoryRun :=
  { plan:=inventory.candidates,rendering:=.start opt,phase:=.candidates inventory.candidates }

def fail (s : DirectoryRun) (message : String) : DirectoryRun := {s with phase:=.failed message}

def updateCandidate (s : DirectoryRun) (path : NativePath)
    (f : DirectoryCandidate→DirectoryCandidate) : DirectoryRun :=
  {s with plan:=s.plan.map fun c => if c.path = path then f c else c}

def remainingBytes (s : DirectoryRun) (budget : DirectoryBudget) : ℕ :=
  remainingBudget budget.maxBytes s.artifactBytesUsed

def remainingFiles (s : DirectoryRun) (budget : DirectoryBudget) : ℕ :=
  remainingBudget budget.maxFiles s.artifactFilesUsed

/-- The counters and files of the run after a turn over the child artifacts. -/
def charge (s : DirectoryRun) (loop : BoundedLoop) : DirectoryRun :=
  { s with
    artifactBytesUsed:=loop.directoryBytesUsed,artifactFilesUsed:=loop.directoryFilesUsed
    disk:=loop.disk }

variable (env : DirectoryEnvironment) (s : DirectoryRun)

/-- An analysis starts and leaves its output. -/
def analyze (path : NativePath)
    (o : AnalysisOptions) (phase : CandidateReport→Phase) : DirectoryRun :=
  let out := env.analyzeFile s.turn path o
  { s with
    disk:=s.disk++[⟨artifactRootForInput path,.analysis,out.bytes,out.files,false⟩]
    phase:=phase {out.report with input:=path} }

variable (opt : Options)

/-- The head of the loop over the candidates, up to the analysis. -/
def prepare (s : DirectoryRun)
    (c : DirectoryCandidate) (rest : List DirectoryCandidate) : DirectoryRun :=
  if !c.readable then {s with phase:=.candidates rest}
  else if !opt.boundedArtifacts then
    s.analyze env c.path opt.static fun r => .analyzed r .unmetered rest
  else
    match env.resetRoot s.turn with
    | some error =>
      let s := s.updateCandidate c.path fun c => { c with
        artifactMaterializationState:=.refusedUnsafeRoot,artifactMaterializationReason:=error }
      s.analyze env c.path opt.suppressed fun r => .analyzed r .unsafeRoot rest
    | none =>
      let s := {s with disk:=s.disk.resetRoot (artifactRootForInput c.path)}
      let bytes := s.remainingBytes preRelationshipBudget
      let files := s.remainingFiles preRelationshipBudget
      if bytes = 0 ∨ files = 0 then
        let s := s.updateCandidate c.path fun c => { c with
          artifactMaterializationState:=.deferred
          artifactMaterializationReason := "directory aggregate artifact byte/file budget is exhausted" }
        s.analyze env c.path opt.suppressed fun r => .analyzed r .deferred rest
      else s.analyze env c.path (opt.lending bytes files) fun r => .analyzed r (.lent bytes files) rest

variable (r : CandidateReport)

/-- The tail of the loop over the candidates: the report is retained or spooled. -/
def finishCandidate (rest : List DirectoryCandidate) : DirectoryRun :=
  let s := { s with
    successfulInputs := if r.inputAnalysisFailed then s.successfulInputs else s.successfulInputs+1 }
  if r.retained then {s with retained:=s.retained++[r],phase:=.candidates rest}
  else
    match env.spoolReport s.turn with
    | some error => s.fail error
    | none => {s with phase:=.candidates rest}

/-- The state of a candidate whose output was kept. -/
def finishMaterialized (rest : List DirectoryCandidate) : DirectoryRun :=
  let s := s.updateCandidate r.input fun c =>
    if r.materialization.isPartial then
      { c with
        artifactMaterializationState:=.materializedPartial
        artifactMaterializationReason := "materialized within the remaining directory aggregate allowance; compact high-value child reports were bounded and one or more derivatives were deferred" }
    else
      { c with
        artifactMaterializationState:=.materialized
        artifactMaterializationReason := "materialized within the remaining directory aggregate allowance; high-value child reports use compact no-sidecar summaries" }
  s.finishCandidate env r rest

def rolledBackReason : String :=
  "candidate automatic output exceeded the remaining directory aggregate byte/file allowance and was atomically rolled back"

/-- The output of an analysis that was lent a budget: over it, it is removed and the file
analysed again without output; within it, it is charged. -/
def settleLent (s : DirectoryRun)
    (r : CandidateReport) (bytes files : ℕ) (rest : List DirectoryCandidate) : DirectoryRun :=
  let st := s.disk.inspectTree r.artifactRoot
  if st.bytes > bytes ∨ st.files > files then
    let s := {s with rendering:=s.rendering.rollBack st}
    match env.cleanup s.turn with
    | some error => s.fail error
    | none =>
      let s := {s with disk:=s.disk.resetRoot r.artifactRoot}
      s.analyze env r.input opt.suppressed fun r => .reanalyzed r st rest
  else
    let s := { s with
      artifactBytesUsed:=satAdd s.artifactBytesUsed st.bytes
      artifactFilesUsed:=satAdd s.artifactFilesUsed st.files }
    let s := s.updateCandidate r.input fun c => { c with
      artifactMaterializedBytes:=st.bytes,artifactMaterializedFiles:=st.files }
    if st.files = 0 then
      (s.updateCandidate r.input fun c => { c with
        artifactMaterializationState:=.noOutput
        artifactMaterializationReason := "analysis produced no regular automatic artifact files" }).finishCandidate
          env r rest
    else
      let s := {s with rendering:=s.rendering.retainRoot}
      let selected := r.artifacts.filter automaticStaticChildCandidate
      if selected.isEmpty then s.finishMaterialized env r rest
      else
        { s with
          phase:=.children r ⟨s.artifactBytesUsed,s.artifactFilesUsed⟩ s.turn
            (.start opt.toLimits r.input r.inputSha256 r.artifactGraph selected r.materialization
              s.artifactBytesUsed s.artifactFilesUsed s.disk) rest }

/-- A deferred candidate has no output, and its root is emptied once more. -/
def settleDeferred (unexpected : String) (k : DirectoryRun→DirectoryRun) : DirectoryRun :=
  match env.inspectTree s.turn with
  | some error => s.fail error
  | none =>
    let st := s.disk.inspectTree r.artifactRoot
    if st.files ≠ 0 ∨ st.bytes ≠ 0 then s.fail unexpected
    else
      match env.cleanup s.turn with
      | some error => s.fail error
      | none => k {s with disk:=s.disk.resetRoot r.artifactRoot}

/-- What follows the analysis of a candidate. -/
def settle (s : DirectoryRun) (r : CandidateReport)
    (preparation : Preparation) (rest : List DirectoryCandidate) : DirectoryRun :=
  match preparation with
  | .unmetered => s.finishCandidate env r rest
  | .unsafeRoot =>
    {s with rendering:=s.rendering.deferUnknown}.finishCandidate env
      (noteDirectoryArtifactDeferred r 0 0
        "automatic directory materialization was refused because the pre-existing product artifact root was unsafe to reset") rest
  | .deferred =>
    s.settleDeferred env r
      "internal directory artifact invariant failed: suppressed candidate still materialized output"
      fun s => {s with rendering:=s.rendering.deferUnknown}.finishCandidate env
        (noteDirectoryArtifactDeferred r 0 0
          "automatic materialization was deferred after the directory aggregate budget was exhausted") rest
  | .lent bytes files =>
    match env.inspectTree s.turn with
    | some error => s.fail error
    | none => s.settleLent env opt r bytes files rest

/-- What follows the analysis after a rollback. -/
def settleReanalyzed
    (rolledBack : DirectoryArtifactTreeStats) (rest : List DirectoryCandidate) : DirectoryRun :=
  s.settleDeferred env r
    "internal directory artifact invariant failed: rollback reanalysis still materialized output"
    fun s =>
      (s.updateCandidate r.input fun c => { c with
        artifactMaterializationState:=.deferred
        artifactMaterializationReason:=rolledBackReason }).finishCandidate env
          (noteDirectoryArtifactDeferred r rolledBack.files rolledBack.bytes rolledBackReason) rest

/-- The report after the pass over its children. -/
def reportOf (loop : BoundedLoop) : CandidateReport :=
  {r with artifactGraph:=loop.graph,materialization:=loop.materialization}

def finishChildren
    (before : DirectoryArtifactTreeStats) (loop : BoundedLoop) (rest : List DirectoryCandidate) :
    DirectoryRun :=
  let s := s.updateCandidate r.input fun c => { c with
    artifactMaterializedBytes :=
      satAdd c.artifactMaterializedBytes (Word64.sub s.artifactBytesUsed before.bytes)
    artifactMaterializedFiles :=
      satAdd c.artifactMaterializedFiles (Word64.sub s.artifactFilesUsed before.files) }
  s.finishMaterialized env (reportOf r loop) rest

/-- What a Godot target adds to the totals, after the pass over its children. -/
def finishTarget (target : GodotTarget) (before : DirectoryArtifactTreeStats)
    (after : Materialization) (rest : List CandidateReport) (count : ℕ) : DirectoryRun :=
  let prior := target.report.materialization
  let omittedBytes :=
    if after.omittedBytes ≥ prior.omittedBytes then after.omittedBytes-prior.omittedBytes else 0
  let omittedCount :=
    if after.omittedCount ≥ prior.omittedCount then after.omittedCount-prior.omittedCount else 0
  let addedBytes := satAdd target.addedBytes (Word64.sub s.artifactBytesUsed before.bytes)
  let addedFiles := satAdd target.addedFiles (Word64.sub s.artifactFilesUsed before.files)
  let omitted := omittedBytes != 0 || omittedCount != 0
  let hit := s.plan.find? fun c =>
    directoryReportKey c.path == directoryReportKey target.report.input
  let rendering := if omitted then s.rendering.omitKnown omittedBytes omittedCount else s.rendering
  let rendering :=
    if hit.any fun c => addedFiles != 0 && c.artifactMaterializedFiles == 0 then
      rendering.retainRoot
    else rendering
  let s := {s with rendering,phase:=.targets rest count}
  match hit with
  | none => s
  | some hit => s.updateCandidate hit.path fun c =>
    let c := { c with
      artifactMaterializedBytes:=satAdd c.artifactMaterializedBytes addedBytes
      artifactMaterializedFiles:=satAdd c.artifactMaterializedFiles addedFiles }
    if target.exhausted || omitted then
      { c with
        artifactMaterializationState:=.materializedPartial
        artifactMaterializationReason := "post-relationship decisive materialization/child-report derivatives were bounded by the shared directory aggregate allowance" }
    else if addedFiles != 0 then
      { c with
        artifactMaterializationState:=.materialized
        artifactMaterializationReason := "preflight and post-relationship decisive materialization/child reports fit the shared directory aggregate allowance" }
    else c

/-- The totals of the run are taken over into the report. -/
def finish (opt : Options) (s : DirectoryRun) : DirectoryRun :=
  { s with
    rendering:=s.rendering.finish opt s.artifactBytesUsed s.artifactFilesUsed,phase:=.finished }

/-- The provenance map of a target: whether it was written, whether the budget refused it,
and what the attempt left below the target's root. -/
def writeGodotSemanticProvenance (turn : ℕ) (root : NativePath)
    (sha256 : String) (required maxBytes : ℕ) (fileAllowed : Bool) : Bool×Bool×ArtifactDisk :=
  if !fileAllowed || decide (required > maxBytes) then (false,true,[])
  else
    match env.writeProvenance turn with
    | .failed leaves =>
      (false,false,[⟨root,.godotExternal sha256,leaves.bytes,leaves.files,true⟩])
    | .written => (true,false,[⟨root,.godotExternal sha256,required,1,false⟩])

/-- The output of a target is on disk, its provenance map is written, and both are charged. -/
def chargeTarget (s : DirectoryRun)
    (t : CandidateReport) (sha256 : String) (remainingBytes remainingFiles : ℕ)
    (m : GodotExternalPckMaterializeResult) (rest : List CandidateReport) (count : ℕ) :
    DirectoryRun :=
  let required := env.provenanceBytes s.turn m
  let provRemaining :=
    if opt.boundedArtifacts then remainingBudget remainingBytes m.outputBytes else Word64.maxValue
  let fileAllowed := !opt.boundedArtifacts || decide (m.children.length < remainingFiles)
  let provenance := writeGodotSemanticProvenance env s.turn t.artifactRoot sha256 required
    provRemaining fileAllowed
  let output : ArtifactDisk :=
    [⟨t.artifactRoot,.godotExternal sha256,m.outputBytes,m.children.length,false⟩,
      ⟨t.artifactRoot,.godotExternal sha256,m.leaves.bytes,m.leaves.files,true⟩]
  let s := {s with disk:=s.disk++(output++provenance.2.2)}
  if !opt.boundedArtifacts then
    let st := if opt.suppressAutoChildAnalysis then {} else env.staticChildren s.turn
    { s with
      disk:=s.disk++[⟨t.artifactRoot,.analysis,st.bytes,st.files,false⟩]
      phase:=.targets rest count }
  else
    let addedBytes := satAdd m.outputBytes (if provenance.1 then required else 0)
    let addedFiles := m.children.length + if provenance.1 then 1 else 0
    let s := { s with
      artifactBytesUsed:=satAdd s.artifactBytesUsed addedBytes
      artifactFilesUsed:=satAdd s.artifactFilesUsed addedFiles }
    if s.artifactBytesUsed > kDirectoryArtifactBytes ∨ s.artifactFilesUsed > kDirectoryArtifactFiles then
      -- "internal directory post-relationship artifact budget invariant failed"
      s.finish opt
    else
      let rendering :=
        if m.budgetExhausted then s.rendering.omitKnown m.omittedBytes m.omittedCount
        else s.rendering
      let rendering := if provenance.2.1 then rendering.omitKnown required 1 else rendering
      let s := {s with rendering}
      let before : DirectoryArtifactTreeStats := ⟨s.artifactBytesUsed,s.artifactFilesUsed⟩
      let target : GodotTarget :=
        {report:=t,addedBytes,addedFiles,exhausted:=m.budgetExhausted || provenance.2.1}
      let selected := m.children.filterMap id
      if selected.isEmpty then s.finishTarget target before t.materialization rest count
      else
        { s with
          phase:=.targetChildren target before s.turn
            (.start opt.toLimits t.input t.inputSha256 t.artifactGraph selected t.materialization
              s.artifactBytesUsed s.artifactFilesUsed s.disk) rest count }

/-- One target of `integrate_directory_godot_semantics`, up to the pass over its children. -/
def composeTarget (env : DirectoryEnvironment) (opt : Options) (s : DirectoryRun)
    (t : CandidateReport) (rest : List CandidateReport) (count : ℕ) : DirectoryRun :=
  if !t.encryptedDirectory then {s with phase:=.targets rest count}
  else if count ≥ kMaxTargets then {s with phase:=.targets rest (count+1)}
  else
    match env.composeTarget s.turn t with
    | none => {s with phase:=.targets rest (count+1)}
    | some sha256 =>
      let remainingBytes :=
        if opt.boundedArtifacts then s.remainingBytes hardBudget else Word64.maxValue
      let remainingFiles :=
        if opt.boundedArtifacts then s.remainingFiles hardBudget else Word64.maxValue
      if !opt.boundedArtifacts || decide (remainingFiles > 1) then
        match env.resetSubdirectory s.turn with
        | some _ => {s with phase:=.targets rest (count+1)}
        | none =>
          let s := {s with disk:=s.disk.resetArea t.artifactRoot (.godotExternal sha256)}
          let budget :=
            if opt.boundedArtifacts then
              (min opt.autoCoreBudget.1 remainingBytes,min opt.autoCoreBudget.2 (remainingFiles-1))
            else opt.autoCoreBudget
          s.chargeTarget env opt t sha256 remainingBytes remainingFiles
            (env.materializeCore s.turn budget.1 budget.2) rest (count+1)
      else
        s.chargeTarget env opt t sha256 remainingBytes remainingFiles {budgetExhausted:=true}
          rest (count+1)

def next (s : DirectoryRun) : Option DirectoryRun :=
  match s.phase with
  | .candidates [] =>
    if s.successfulInputs = 0 then some (s.fail "no readable regular input files found")
    else some {s with phase:=.targets s.retained 0}
  | .candidates (c::rest) => some (s.prepare env opt c rest)
  | .analyzed r preparation rest => some (s.settle env opt r preparation rest)
  | .reanalyzed r rolledBack rest => some (s.settleReanalyzed env r rolledBack rest)
  | .children r before pass loop rest =>
    match loop.step (env.children pass) preRelationshipBudget r.input r.artifactRoot with
    | some loop => some {s.charge loop with phase:=.children r before pass loop rest}
    | none => some (s.finishChildren env r before loop rest)
  | .targets [] _ => some (s.finish opt)
  | .targets (t::rest) count => some (s.composeTarget env opt t rest count)
  | .targetChildren target before pass loop rest count =>
    match loop.step (env.children pass) hardBudget target.report.input
        target.report.artifactRoot with
    | some loop =>
      some {s.charge loop with phase:=.targetChildren target before pass loop rest count}
    | none => some (s.finishTarget target before loop.materialization rest count)
  | .finished | .failed _ => none

def step (s : DirectoryRun) : Option DirectoryRun :=
  next env opt {s with turn:=s.turn+1}

end DirectoryRun

end AutoRefirst.ArtifactGraph
