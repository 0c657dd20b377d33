import AutoRefirst.DirectoryRelationships

/-!
# Reports and their indexes

The part of an analysis report that its compact index is made from, the reports that are
kept in memory until the relationships are known, and the way back of a mutation from the
index into the report.
-/

namespace AutoRefirst.DirectoryRelationships

structure PeExport where
  name : String
  forwarder : String := ""
  rva : ℕ := 0
  deriving DecidableEq, Repr

structure PeInfo where
  (valid dll pe64 : Bool := false)
  machine : ℕ := 0
  imports : List DirectoryPeImportFact := []
  exports : List PeExport := []
  deriving DecidableEq, Repr

structure ElfDynamicSymbol where
  name : String
  exported : Bool
  deriving DecidableEq, Repr

structure ElfInfo where
  valid : Bool := false
  (type entry : ℕ := 0)
  (interpreter soname : String := "")
  sonameFileOffset : ℕ := 0
  needed : List String := []
  symbols : List ElfDynamicSymbol := []
  deriving DecidableEq, Repr

structure UnityInfo where
  (valid metadataValid il2cpp registrationResolved gameAssemblyValidated mono monoRuntimeValidated
    : Bool := false)
  (metadataPath gameAssemblyPath managedPath monoRuntimePath : NativePath := ⟨""⟩)
  backendState : String := "ABSENT"
  error : String := ""
  deriving DecidableEq, Repr

structure DotnetMethod where
  pinvoke : Bool
  importModule : String
  deriving DecidableEq, Repr

structure DotnetInfo where
  (valid unityManaged unityMono : Bool := false)
  methods : List DotnetMethod := []
  deriving DecidableEq, Repr

structure GDExtensionLibraryMatchInfo where
  (exactPathMatch childValidated : Bool)
  matchedChildPath : String
  deriving DecidableEq, Repr

structure GDExtensionBundleInfo where
  (valid descriptorChildValidated : Bool)
  descriptorPath : String
  libraries : List GDExtensionLibraryMatchInfo
  deriving DecidableEq, Repr

structure GodotInfo where
  (valid encryptedDirectory : Bool := false)
  gdextensions : List GDExtensionBundleInfo := []
  deriving DecidableEq, Repr

structure WasmImport where
  (module name kind : String)
  deriving DecidableEq, Repr

structure WasmExport where
  (name kind : String)
  deriving DecidableEq, Repr

structure WasmInfo where
  valid : Bool := false
  imports : List WasmImport := []
  exports : List WasmExport := []
  deriving DecidableEq, Repr

structure UnrealIoStoreInfo where
  (tocValid pairValid encrypted : Bool := false)
  partitions : List DirectoryUnrealPartitionFact := []
  deriving DecidableEq, Repr

structure InterpreterBoundaryInfo where
  state : String := ""
  (externalProgramArgumentRequired exactProgramTargetBound : Bool := false)
  (targetRole runtimeFamily : String := "")
  deriving DecidableEq, Repr

structure AnalysisArtifact where
  (path parent : NativePath)
  (role relation priority source : String)
  sha256 : String := ""
  runtimeConfirmed : Bool := false
  deriving DecidableEq, Repr

structure ArtifactGraphEdge where
  child : NativePath
  depth : ℕ
  state : String
  deriving DecidableEq, Repr

structure AnalysisReport where
  input : NativePath
  pe : PeInfo := {}
  elf : ElfInfo := {}
  unity : UnityInfo := {}
  dotnet : DotnetInfo := {}
  godot : GodotInfo := {}
  godotOutputDir : NativePath := ⟨""⟩
  wasm : WasmInfo := {}
  iostore : UnrealIoStoreInfo := {}
  interpreterBoundary : InterpreterBoundaryInfo := {}
  artifacts : List AnalysisArtifact := []
  artifactGraphEnabled : Bool := false
  artifactGraphEdges : List ArtifactGraphEdge := []
  deriving DecidableEq, Repr

def exactMonoRuntimeExports (r : AnalysisReport) : Bool :=
  let names :=
    (if r.pe.valid then (r.pe.exports.map (·.name)).filter (· != "") else []) ++
    (if r.elf.valid then ((r.elf.symbols.filter (·.exported)).map (·.name)).filter (· != "") else [])
  (names.contains "mono_jit_init" || names.contains "mono_jit_init_version") &&
    names.contains "mono_runtime_invoke" && names.contains "mono_thread_attach" &&
    names.contains "mono_domain_get"

def maxCompactNamedPeExports : ℕ := 8192
def maxCompactWasmImports : ℕ := 2048
def maxCompactWasmExports : ℕ := 4096

variable (fs : FileSystem) (r : AnalysisReport)

def compactArtifact (a : AnalysisArtifact) : Option DirectoryArtifactFact :=
  if a.path.empty || a.parent.empty then none
  else
    let childReport := a.role == "static_child_report"
    let highValue := a.priority == "HIGH" && a.relation != "analysis_of"
    if !childReport && !highValue && !a.runtimeConfirmed then none
    else
      let edges := if r.artifactGraphEnabled then r.artifactGraphEdges else []
      let edge := (edges.filter fun e => fs.pathKey e.child == fs.pathKey a.path).getLast?
      some
        { path:=a.path,parent:=a.parent,role:=a.role,relation:=a.relation
          source:=a.source,sha256:=a.sha256,graphLinked:=edge.isSome
          graphDepth:=(edge.map (·.depth)).getD 0,graphState:=(edge.map (·.state)).getD "" }

def godotLibraryRefs : List DirectoryGodotLibraryFact :=
  if !r.godot.valid || r.godotOutputDir.empty then []
  else
    r.godot.gdextensions.flatMap fun bundle =>
      if !bundle.valid || !bundle.descriptorChildValidated then []
      else
        bundle.libraries.filterMap fun lib =>
          if !lib.exactPathMatch || !lib.childValidated || lib.matchedChildPath == "" then none
          else
            some
              { descriptor:=r.godotOutputDir.append ⟨resRelative bundle.descriptorPath⟩
                target:=r.godotOutputDir.append ⟨resRelative lib.matchedChildPath⟩
                descriptorEntry:=bundle.descriptorPath,targetEntry:=lib.matchedChildPath }

def pinvokeModules (methods : List DotnetMethod) : List String :=
  let mods := (methods.filter fun m => m.pinvoke && m.importModule != "").map fun m =>
    lowerAscii m.importModule
  (mods.insertionSort (· ≤ ·)).dedup

/-- `make_directory_report_index`. The references are what
`extract_relationship_reference_evidence` finds in the report. -/
def makeDirectoryReportIndex
    (references : AnalysisReport→List RelationshipReferenceEvidence) (r : AnalysisReport) :
    DirectoryReportIndex :=
  let namedExports := r.pe.exports.filter fun e => e.name != ""
  let functionImports := r.wasm.imports.filter fun i => i.kind == "function"
  let functionExports := r.wasm.exports.filter fun e => e.kind == "function"
  { input:=r.input,peValid:=r.pe.valid,peDll:=r.pe.dll,pe64:=r.pe.pe64,peMachine:=r.pe.machine
    peImports:=r.pe.imports
    peExports:=(namedExports.take maxCompactNamedPeExports).map fun e =>
      {name:=e.name,rva:=e.rva,forwarded:=e.forwarder != ""}
    peExportsTruncated:=decide (namedExports.length > maxCompactNamedPeExports)
    elfValid:=r.elf.valid,elfType:=r.elf.type,elfEntry:=r.elf.entry
    elfInterpreter:=r.elf.interpreter,elfSoname:=r.elf.soname
    elfSonameFileOffset:=r.elf.sonameFileOffset,elfNeeded:=r.elf.needed
    monoRuntimeExportSurface:=exactMonoRuntimeExports r,wasmValid:=r.wasm.valid
    wasmImports:=(functionImports.take maxCompactWasmImports).map fun i =>
      {module:=i.module,name:=i.name}
    wasmExports:=(functionExports.take maxCompactWasmExports).map (·.name)
    interpreterBoundaryConfirmed:=r.interpreterBoundary.state == "CONFIRMED"
    interpreterExternalProgramArgument:=r.interpreterBoundary.externalProgramArgumentRequired
    interpreterExactProgramTargetBound:=r.interpreterBoundary.exactProgramTargetBound
    interpreterTargetRole:=r.interpreterBoundary.targetRole
    interpreterRuntimeFamily:=r.interpreterBoundary.runtimeFamily
    unityValid:=r.unity.valid,unityMetadataValid:=r.unity.metadataValid
    unityIl2cpp:=r.unity.il2cpp,unityRegistrationResolved:=r.unity.registrationResolved
    unityGameAssemblyValidated:=r.unity.gameAssemblyValidated
    unityMono:=r.unity.mono,unityMonoRuntimeValidated:=r.unity.monoRuntimeValidated
    unityMetadataPath:=r.unity.metadataPath,unityGameAssemblyPath:=r.unity.gameAssemblyPath
    unityManagedPath:=r.unity.managedPath,unityMonoRuntimePath:=r.unity.monoRuntimePath
    unityBackendState:=r.unity.backendState
    dotnetValid:=r.dotnet.valid,dotnetUnityManaged:=r.dotnet.unityManaged
    dotnetUnityMono:=r.dotnet.unityMono,dotnetPinvokeModules:=pinvokeModules r.dotnet.methods
    relationshipReferences:=references r,artifacts:=r.artifacts.filterMap (compactArtifact fs r)
    godotLibraryRefs:=godotLibraryRefs r
    unrealIostoreTocValid:=r.iostore.tocValid,unrealIostorePairValid:=r.iostore.pairValid
    unrealIostoreEncrypted:=r.iostore.encrypted,unrealIostorePartitions:=r.iostore.partitions }

def unityExecutableRoot : Bool :=
  if !r.unity.valid then false
  else if r.pe.valid && !r.pe.dll then true
  else if r.elf.valid then
    r.elf.type == 2 || (r.elf.type == 3 &&
      (r.elf.interpreter != "" || (r.elf.entry != 0 && fs.hasExecutePermission r.input)))
  else false

/-- The reports that the relationships or the Godot oracle may still change. -/
def directoryReportRequiresPostRelationshipRetention : Bool :=
  unityExecutableRoot fs r ||
    (r.dotnet.valid && r.dotnet.unityManaged && pathComponentIeq r.input "Assembly-CSharp.dll" &&
      pathComponentIeq r.input.parentPath "Managed") ||
    (r.godot.valid && r.godot.encryptedDirectory)

def applyDirectoryReportIndexMutations (x : DirectoryReportIndex) : AnalysisReport :=
  if !x.postRelationshipMutated then r
  else
    let r :=
      if x.unityMono then
        { r with unity:={ r.unity with
            mono:=true,monoRuntimeValidated:=x.unityMonoRuntimeValidated
            managedPath:=x.unityManagedPath,monoRuntimePath:=x.unityMonoRuntimePath
            backendState:=x.unityBackendState
            error := if r.unity.il2cpp then r.unity.error else "" } }
      else r
    if x.dotnetUnityMono then {r with dotnet:={r.dotnet with unityMono:=true}} else r

end AutoRefirst.DirectoryRelationships

/-!
## From the relationships to the final indexes

The part of `analyze_directory_spooled` between the analysis of the candidates and the
final selection: the reports that are retained, the semantic Godot pass, the mutations, the
runtime and the last refresh of the indexes. What a single analysis, the Godot composition
and the runtime do is the environment's answer.
-/

namespace AutoRefirst.DirectoryRelationships

inductive FileMagic where
  | mz | elf | gdpc | other
  deriving DecidableEq, Repr

/-- A report of `analyze_file`. The parsers check the first bytes of the file, and only the
relationships find a Mono backend. -/
structure FreshReport (magic : FileMagic) (input : NativePath) where
  report : AnalysisReport
  input_eq : report.input=input
  pe_magic : report.pe.valid=true → magic = .mz
  elf_magic : report.elf.valid=true → magic = .elf
  dotnet_pe : report.dotnet.valid=true → report.pe.valid=true
  mono : report.unity.mono=false
  unityMono : report.dotnet.unityMono=false

/-- One directory run: the plan as it is when the relationships are built, and the answers
of the environment. -/
structure DirectoryRun where
  fs : FileSystem
  /-- `directory_report_key`. -/
  reportKey : NativePath → String
  references : AnalysisReport → List RelationshipReferenceEvidence
  magic : NativePath → FileMagic
  analyze : (p : NativePath) → FreshReport (magic p) p
  /-- `retain_directory_runtime_report`. -/
  retainDirectoryRuntimeReport : AnalysisReport → Bool
  /-- The artifacts of a report after a complete Godot composition. -/
  composeGodot : AnalysisReport → Option (List AnalysisArtifact)
  /-- Which candidates the runtime is started for. -/
  runtimeSelected : NativePath → Bool
  /-- Where the runtime installs an image that is `UNPACKED_VALIDATED`. -/
  installed : NativePath → Bool
  installedMagic : NativePath → FileMagic
  reanalyze : (p : NativePath) → FreshReport (installedMagic p) p
  runtimeArtifacts : AnalysisReport → List AnalysisArtifact
  spoolReport : AnalysisReport → DirectoryReportIndex → Bool
  plan : DirectoryPlan
  /-- The inventory lists each file once. -/
  keys : (plan.candidates.map fun c => reportKey c.path).Nodup

inductive DirectoryError where
  | spool
  | missingRetained (input : NativePath)
  | noCompactIndex | noCandidate
  deriving DecidableEq, Repr

namespace DirectoryRun

variable (run : DirectoryRun)

/-- The reports of the readable candidates. -/
def reports : List AnalysisReport :=
  (run.plan.candidates.filter (·.readable)).map fun c => (run.analyze c.path).report

variable (r : AnalysisReport)

def index : DirectoryReportIndex :=
  makeDirectoryReportIndex run.fs run.references r

def compact : List DirectoryReportIndex := run.reports.map run.index

def retains : Bool :=
  directoryReportRequiresPostRelationshipRetention run.fs r || run.retainDirectoryRuntimeReport r

def retained : List AnalysisReport := run.reports.filter run.retains

def built : Build := buildDirectoryRelationships run.fs run.plan run.compact

def compactByInput (p : NativePath) : Option ℕ :=
  ((run.reports.zipIdx.filter fun x => run.reportKey x.1.input == run.reportKey p).map
    (·.2)).getLast?

/-- An index is made anew from its report; only the flag is kept. -/
def refreshed (x : DirectoryReportIndex) : DirectoryReportIndex :=
  {run.index r with postRelationshipMutated:=x.postRelationshipMutated}

def maxTargets : ℕ := 8

/-- The Godot composition of one retained report, when the pass gets that far: the target
is a standalone encrypted PCK within the target budget. -/
def godotTarget (targets : ℕ) (r : AnalysisReport) : Option AnalysisReport :=
  if targets ≥ maxTargets || run.magic r.input != .gdpc then none
  else (run.composeGodot r).map fun artifacts => {r with artifacts}

def integrateDirectoryGodotSemantics : ℕ → List AnalysisReport → List DirectoryReportIndex →
      List AnalysisReport×List DirectoryReportIndex
  | _, [], compact => ([],compact)
  | targets, r::rest, compact =>
    if !r.godot.valid || !r.godot.encryptedDirectory then
      let s := integrateDirectoryGodotSemantics targets rest compact
      (r::s.1,s.2)
    else
      match run.godotTarget targets r with
      | none =>
        let s := integrateDirectoryGodotSemantics (targets+1) rest compact
        (r::s.1,s.2)
      | some target =>
        let compact :=
          match run.compactByInput r.input with
          | none => compact
          | some i => compact.modify i (run.refreshed target)
        let s := integrateDirectoryGodotSemantics (targets+1) rest compact
        (target::s.1,s.2)

def mutateRetained (compact : List DirectoryReportIndex) (r : AnalysisReport) :
    Option AnalysisReport := do
  let i ← run.compactByInput r.input
  let x ← compact[i]?
  return applyDirectoryReportIndexMutations r x

def mutateAll (compact : List DirectoryReportIndex) :
    List AnalysisReport → Option (List AnalysisReport)
  | [] => some []
  | r::rest => do
    let r ← run.mutateRetained compact r
    let rest ← mutateAll compact rest
    return r::rest

/-- `execute_runtime_plan` for one report: after an installation the report is replaced by
a new analysis of the installed image. -/
def executeRuntimePlan : AnalysisReport :=
  if run.installed r.input then
    let post := (run.reanalyze r.input).report
    {post with artifacts:=run.runtimeArtifacts post}
  else {r with artifacts:=run.runtimeArtifacts r}

/-- The first report with an input is the one that runs. -/
def executeAt (p : NativePath) : List AnalysisReport → List AnalysisReport
  | [] => []
  | r::rest =>
    if r.input = p then run.executeRuntimePlan r :: rest else r :: executeAt p rest

def executeDirectoryRuntime (candidates : List DirectoryCandidate)
    (reports : List AnalysisReport) : List AnalysisReport :=
  candidates.foldl
    (fun reports c => if run.runtimeSelected c.path then run.executeAt c.path reports else reports)
    reports

def finalIndex (x : DirectoryReportIndex) : DirectoryReportIndex :=
  if x.postRelationshipMutated || run.runtimeSelected r.input then run.refreshed r x else x

def spoolRetained (candidates : List DirectoryCandidate) :
    List AnalysisReport → List DirectoryReportIndex →
      Except DirectoryError (List DirectoryReportIndex)
  | [], compact => .ok compact
  | r::rest, compact =>
    match run.compactByInput r.input with
    | none => .error .noCompactIndex
    | some i =>
      match candidates.find? fun c => run.reportKey c.path == run.reportKey r.input with
      | none => .error .noCandidate
      | some _ =>
        let compact := compact.modify i (run.finalIndex r)
        match compact[i]? with
        | none => .error .noCompactIndex
        | some x =>
          if run.spoolReport r x then spoolRetained candidates rest compact else .error .spool

/-- The run from the analysed reports to the final indexes. The order of the candidates,
which the Godot pass may still change, has no influence here. -/
def finish : Except DirectoryError (List DirectoryReportIndex) :=
  if !(run.reports.all fun r => run.retains r || run.spoolReport r (run.index r)) then
    .error .spool
  else
    let s := run.integrateDirectoryGodotSemantics 0 run.retained run.built.reports
    let retainedInputs := s.1.map fun r => run.reportKey r.input
    match s.2.find? fun x =>
        x.postRelationshipMutated && !retainedInputs.contains (run.reportKey x.input) with
    | some x => .error (.missingRetained x.input)
    | none =>
      match run.mutateAll s.2 s.1 with
      | none => .error .noCompactIndex
      | some retained =>
        let candidates := sortDirectoryCandidates run.built.plan.candidates
        run.spoolRetained candidates (run.executeDirectoryRuntime candidates retained) s.2

end DirectoryRun

end AutoRefirst.DirectoryRelationships
