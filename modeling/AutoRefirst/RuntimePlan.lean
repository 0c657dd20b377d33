import AutoRefirst.NativePath

/-!
# Runtime plans

`build_runtime_plan`: what a run of one target would do, decided from the static report of
the target and from what the user asked for. A plan only selects steps; it runs nothing.
-/

namespace AutoRefirst.DirectoryRuntime

/-- The platform the program is built for. -/
inductive Platform where
  | windows | linux | other
  deriving DecidableEq, Repr

/-- The values of a CPython reference status that a plan tells apart. -/
inductive ReferenceStatus where
  | unset | referenceMatch | buildIncomparable | other
  deriving DecidableEq, Repr

structure CPythonInfo where
  valid : Bool := false
  source : String := ""
  (referenceStatus semanticReferenceStatus : ReferenceStatus := .unset)
  dispatchAttempted : Bool := false
  dispatchReferenceStatus : ReferenceStatus := .unset
  deriving DecidableEq, Repr

structure PeInfo where
  (valid dll : Bool := false)
  deriving DecidableEq, Repr

structure ElfInfo where
  valid : Bool := false
  type : UInt16 := 0
  interpreter : String := ""
  entry : UInt64 := 0
  deriving DecidableEq, Repr

inductive Analyzer where
  | genericRuntimeTrace | materializationTracking | unpackReconstruction | cpythonCompilerProbe
  | postUnpackStaticReanalysis | exceptionalRuntimeCorrelation | validatedTransactionalInstall
  deriving DecidableEq, Repr

inductive StepState where
  | planned | skipped
  deriving DecidableEq, Repr

structure RuntimePlanStep where
  analyzer : Analyzer
  selected : Bool
  reason : String
  evidence : List String := []
  timeoutMs : UInt32
  budgetMs : UInt64
  destructive : Bool
  state : StepState
  deriving DecidableEq, Repr

inductive Policy where
  | staticOnly | legacyTrace | legacyUnpackApply | legacyUnpackNonDestructive | legacyPythonProbe
  | autoDeepApply | autoDeepNonDestructive
  deriving DecidableEq, Repr

structure RuntimePlan where
  (requested applyRequested runtimeEligible : Bool := false)
  runtimeEligibilityReason : String := ""
  policy : Policy := .staticOnly
  timeoutMs : UInt32 := 0
  steps : List RuntimePlanStep := []
  deriving DecidableEq, Repr

/-- What directory runs read of the report of a file. -/
structure AnalysisReport where
  input : NativePath
  pe : PeInfo := {}
  elf : ElfInfo := {}
  cpythonRuntimes : List CPythonInfo := []
  (replacementPerformed runtimeRequested runtimeTimedOut : Bool := false)
  runtimePlan : RuntimePlan := {}
  deriving DecidableEq, Repr

structure RuntimePlanningRequest where
  (requested applyRequested legacyTrace legacyUnpack forcedPythonProbe : Bool)
  timeoutMs : UInt32
  deriving DecidableEq, Repr

def platformRuntimeEligible (platform : Platform) (execMode : Bool) (report : AnalysisReport) :
    Bool×String :=
  match platform with
  | .windows =>
    if report.pe.valid && !report.pe.dll then
      (true,"validated PE executable supported by the Windows runtime backend")
    else if report.pe.valid && report.pe.dll then
      (false,"validated PE DLL is a loadable sidecar, not a direct runtime root")
    else (false,"no validated direct PE executable for this runtime backend")
  | .linux =>
    let elf := report.elf
    let direct := elf.valid && (elf.type == 2 ||
      (elf.type == 3 && (!elf.interpreter.isEmpty || (elf.entry != 0 && execMode))))
    if direct then
      if elf.type == 3 && elf.interpreter.isEmpty then
        (true,"validated executable ET_DYN has a nonzero entry and executable file mode " ++
          "(static/packed PIE root)")
      else (true,"validated ELF executable supported by the Linux runtime backend")
    else if elf.valid then
      (false,"validated ELF lacks direct execution evidence " ++
        "(ET_EXEC or executable ET_DYN entry/interpreter root)")
    else (false,"no validated direct ELF executable for this runtime backend")
  | .other => (false,"runtime execution backend is unavailable on this platform")

/-- The question that one CPython runtime leaves to a probe; `none` after the reason why it
leaves none. -/
def probeQuestion (cp : CPythonInfo) : Option String×String :=
  let embedded := "CArchive:".toList.isPrefixOf cp.source.toList
  if cp.semanticReferenceStatus = .referenceMatch ∨ cp.referenceStatus = .referenceMatch then
    (none,"exact/semantic official CPython reference already matches; " ++
      "runtime compiler probe has no information gain")
  else if cp.semanticReferenceStatus = .buildIncomparable then
    (some (if embedded then
        "validated PyInstaller embedded CPython is BUILD_INCOMPARABLE; compiler probe can " ++
          "resolve currently incomparable opcode/compiler semantics"
      else
        "validated CPython runtime is BUILD_INCOMPARABLE; compiler probe can resolve " ++
          "currently incomparable compiler/opcode semantics"),"")
  else if cp.dispatchReferenceStatus = .buildIncomparable then
    (some (if embedded then
        "validated PyInstaller embedded CPython dispatch semantics are BUILD_INCOMPARABLE; " ++
          "compiler probe can provide a runtime normalization reference"
      else
        "validated CPython runtime dispatch semantics are BUILD_INCOMPARABLE; compiler probe " ++
          "can provide a runtime normalization reference"),"")
  else if cp.dispatchAttempted ∧ cp.dispatchReferenceStatus ≠ .referenceMatch ∧
      cp.dispatchReferenceStatus ≠ .unset then
    (some ("native CPython dispatch was recovered but compiler semantics are not an exact " ++
      "reference match; compiler probe can provide independent runtime evidence"),"")
  else
    (none,"validated CPython runtime has no unresolved compiler-semantic question that the " ++
      "runtime probe is known to answer")

/-- The loop of `auto_probe_candidate`, with the reason of the last runtime that left no
question. -/
def autoProbeFrom (reason : String) : List CPythonInfo → Bool×String
  | [] =>
    (false,if reason.isEmpty then
      "no validated CPython runtime requires compiler-semantic disambiguation" else reason)
  | cp::rest =>
    if !cp.valid then autoProbeFrom reason rest
    else
      match probeQuestion cp with
      | (some question,_) => (true,question)
      | (none,why) => autoProbeFrom why rest

def autoProbeCandidate (report : AnalysisReport) : Bool×String :=
  autoProbeFrom "" report.cpythonRuntimes

def makeStep (analyzer : Analyzer) (selected : Bool) (reason : String) (timeout : UInt32)
    (destructive : Bool := false) : RuntimePlanStep :=
  { analyzer,selected,reason,destructive
    timeoutMs := if selected then timeout else 0
    budgetMs:=(if selected then timeout else 0).toUInt64
    state := if selected then .planned else .skipped }

def RuntimePlanStep.withEvidence (s : RuntimePlanStep) (evidence : List String) : RuntimePlanStep :=
  {s with evidence}

def policyOf (request : RuntimePlanningRequest) : Policy :=
  if request.legacyTrace then .legacyTrace
  else if request.legacyUnpack && request.applyRequested then .legacyUnpackApply
  else if request.legacyUnpack then .legacyUnpackNonDestructive
  else if request.forcedPythonProbe then .legacyPythonProbe
  else if request.applyRequested then .autoDeepApply
  else .autoDeepNonDestructive

def noCorrelation : String :=
  "standalone static exceptional-flow evidence is available; no runtime-correlation consumer " ++
    "is integrated"

def staticOnlySteps (timeout : UInt32) : List RuntimePlanStep :=
  [makeStep .genericRuntimeTrace false
      "runtime execution was not authorized; static analysis only" timeout,
    makeStep .materializationTracking false "runtime execution was not authorized" timeout,
    makeStep .unpackReconstruction false "runtime execution was not authorized" timeout,
    makeStep .cpythonCompilerProbe false "runtime execution was not authorized" timeout,
    makeStep .postUnpackStaticReanalysis false "no runtime reconstruction was requested" timeout,
    makeStep .exceptionalRuntimeCorrelation false noCorrelation timeout,
    makeStep .validatedTransactionalInstall false "--apply was not requested" timeout true]

/-- Whether the compiler probe is selected, and why. Only Windows builds have one. -/
def probeChoice (platform : Platform) (report : AnalysisReport)
    (request : RuntimePlanningRequest) : Bool×String :=
  match platform with
  | .windows =>
    if request.forcedPythonProbe then
      if report.cpythonRuntimes.isEmpty then
        (false,"forced python-probe requested, but static analysis found no CPython runtime " ++
          "to probe")
      else (true,"legacy --run=python-probe explicitly forces the CPython compiler probe")
    else if !request.legacyTrace then autoProbeCandidate report
    else
      (false,"legacy trace compatibility mode does not request the CPython compiler probe")
  | .linux | .other =>
    if request.forcedPythonProbe then
      (false,"legacy python-probe was requested, but this build has no Windows CPython " ++
        "compiler-probe runtime backend")
    else (false,"CPython compiler probe runtime is Windows-only on this build")

def requestedSteps (platform : Platform) (eligible : Bool×String) (report : AnalysisReport)
    (request : RuntimePlanningRequest) : List RuntimePlanStep :=
  let timeout := request.timeoutMs
  let pythonOnly := request.forcedPythonProbe
  let deep := !request.legacyTrace && !pythonOnly
  let generic := !pythonOnly && eligible.1
  let materialize := deep && eligible.1
  let refusal := if request.legacyTrace then
    "legacy trace compatibility mode intentionally keeps shallow tracing" else eligible.2
  let noReconstruction := if request.legacyTrace then
    "legacy trace compatibility mode does not request reconstruction" else eligible.2
  let probe := probeChoice platform report request
  let install := request.applyRequested && materialize
  [(makeStep .genericRuntimeTrace generic
      (if generic then "validated executable is eligible for the platform runtime backend"
        else if pythonOnly then
          "forced python-probe compatibility mode does not execute the generic runtime tracer"
        else eligible.2) timeout).withEvidence (if generic then [eligible.2] else []),
    makeStep .materializationTracking materialize
      (if materialize then "deep runtime analysis is enabled by --run; track executable " ++
          "materialization and first execution without requiring installation"
        else refusal) timeout,
    makeStep .unpackReconstruction materialize
      (if materialize then "deep runtime analysis may reconstruct and independently validate " ++
          "PE/ELF candidates without modifying the input"
        else noReconstruction) timeout,
    (makeStep .cpythonCompilerProbe probe.1 probe.2 timeout).withEvidence
      (if probe.1 then
        ["probe is auxiliary; failure does not invalidate the main runtime run"] else []),
    makeStep .postUnpackStaticReanalysis materialize
      (if materialize then "if runtime produces a validated installed image, rerun " ++
          "static/ecosystem analysis against the authoritative bytes"
        else "no deep reconstruction is selected") timeout,
    makeStep .exceptionalRuntimeCorrelation false noCorrelation timeout,
    makeStep .validatedTransactionalInstall install
      (if install then
          "--apply explicitly authorizes transactional installation after strict validation"
        else if request.applyRequested then eligible.2
        else "installation is not authorized; reconstructed/standalone-validated candidates " ++
          "remain separate artifacts") timeout true]

def buildRuntimePlan (platform : Platform) (execMode : Bool) (report : AnalysisReport)
    (request : RuntimePlanningRequest) : RuntimePlan :=
  let eligible := platformRuntimeEligible platform execMode report
  { requested:=request.requested,applyRequested:=request.applyRequested
    timeoutMs:=request.timeoutMs,runtimeEligible:=eligible.1,runtimeEligibilityReason:=eligible.2
    policy := if request.requested then policyOf request else .staticOnly
    steps := if request.requested then requestedSteps platform eligible report request
      else staticOnlySteps request.timeoutMs }

def RuntimePlan.step (plan : RuntimePlan) (analyzer : Analyzer) : Option RuntimePlanStep :=
  plan.steps.find? (·.analyzer == analyzer)

def RuntimePlan.selects (plan : RuntimePlan) (analyzer : Analyzer) : Bool :=
  (plan.step analyzer).any (·.selected)

section

variable {platform : Platform} {execMode : Bool} {report : AnalysisReport}
  {request : RuntimePlanningRequest}

theorem selects_generic :
    (buildRuntimePlan platform execMode report request).selects .genericRuntimeTrace =
      (request.requested && (!request.forcedPythonProbe &&
        (platformRuntimeEligible platform execMode report).1)):=by
  obtain ⟨requested,_,_,_,_,_⟩:=request
  cases requested <;> rfl

theorem selects_probe :
    (buildRuntimePlan platform execMode report request).selects .cpythonCompilerProbe =
      (request.requested && (probeChoice platform report request).1):=by
  obtain ⟨requested,_,_,_,_,_⟩:=request
  cases requested <;> rfl

end

end AutoRefirst.DirectoryRuntime
