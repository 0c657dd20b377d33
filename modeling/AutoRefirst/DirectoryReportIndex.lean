import AutoRefirst.NativePath
import Mathlib.Data.List.Sort
import Mathlib.Data.List.Dedup

/-!
# Compact report indexes

What the cross-file analysis of a directory reads and writes: the plan with its candidates
and relationships, and the compact index of each report. A path is compared through a key
that the file system computes.
-/

namespace AutoRefirst.DirectoryRelationships

/-- The questions to the file system: `path_key`, `file_has_execute_permission` and
`path_is_under`. -/
structure FileSystem where
  pathKey : NativePath → String
  hasExecutePermission : NativePath → Bool
  isUnder : NativePath → NativePath → Bool

/-- `tolower` on each byte, which leaves all but ASCII alone. -/
def lowerAscii (s : String) : String := s.map Char.toLower

/-- `res://` is taken off the front of a path. -/
def resRelative (s : String) : String :=
  if "res://".toList.isPrefixOf s.toList then String.ofList (s.toList.drop 6) else s

inductive RelationshipState where
  | confirmed | bounded | routeHint | unresolved
  deriving DecidableEq, Repr

def artifactRelationshipStateAllowsPriority (state : RelationshipState) : Bool :=
  state == .confirmed || state == .bounded

structure DirectoryRelationship where
  (first second : NativePath)
  directed : Bool
  kind : String
  state : RelationshipState
  (firstRole secondRole firstRelationRole secondRelationRole evidenceBasis evidenceSource
    sourceCoordinate targetCoordinate provenanceScope evidenceLevel : String)
  ambiguity : String := "NONE"
  semanticRelevance : String
  priorityEligible : Bool
  (firstPriorityDelta secondPriorityDelta : ℤ := 0)
  reason : String
  deriving DecidableEq, Repr

inductive PriorityTier where
  | tier1 | tier2 | tier3
  deriving DecidableEq, Repr

structure DirectoryCandidate where
  path : NativePath
  typeHint : String := "unknown"
  structuralConfidence : String := "low"
  role : String := "unknown"
  (priorityScore relationshipPriorityBoost : ℤ := 0)
  priorityTier : PriorityTier := .tier3
  priorityReasons : List String := []
  relatedFiles : List NativePath := []
  readable : Bool := true
  analysisState : String := "PENDING"
  deriving DecidableEq, Repr

def tierOf (score : ℤ) : PriorityTier :=
  if score ≥ 100 then .tier1 else if score ≥ 50 then .tier2 else .tier3

namespace DirectoryCandidate

def setTier (c : DirectoryCandidate) : DirectoryCandidate :=
  {c with priorityTier:=tierOf c.priorityScore}

def addReason (c : DirectoryCandidate) (score : ℤ) (reason : String) : DirectoryCandidate :=
  setTier { c with
    priorityScore:=c.priorityScore+score
    priorityReasons :=
      if reason ∈ c.priorityReasons then c.priorityReasons else c.priorityReasons++[reason] }

end DirectoryCandidate

def directoryCandidateBetter (a b : DirectoryCandidate) : Bool :=
  if a.priorityScore ≠ b.priorityScore then decide (a.priorityScore > b.priorityScore)
  else decide (pathUtf8 a.path < pathUtf8 b.path)

structure DirectoryPlan where
  root : NativePath
  maxRelationships : ℕ := 16384
  maxRelatedFilesPerArtifact : ℕ := 32
  (relationshipCandidateLookups relationshipAmbiguousReferenceCount relationshipOmittedCount
    relatedFileOmittedCount : ℕ := 0)
  relationshipBudgetExhausted : Bool := false
  candidates : List DirectoryCandidate
  relationships : List DirectoryRelationship := []
  deriving DecidableEq, Repr

/-- The ways in which the text of a reference names its target. -/
inductive ResolutionMode where
  | exactRelativePath | godotResPath | exactAbsolutePath | declaredBasenameValidatedImage | other
  deriving DecidableEq, Repr

structure RelationshipReferenceEvidence where
  (kind evidenceLevel semanticRelevance reference : String)
  resolutionMode : ResolutionMode
  (targetSymbol featureKey : String := "")
  (sourceCoordinate evidenceBasis evidenceSource sourceRelationRole targetRelationRole : String)
  (sourcePriorityDelta targetPriorityDelta : ℤ := 0)
  priorityCap : ℤ := 20
  targetMustBeValidatedImage : Bool := false
  deriving DecidableEq, Repr

structure DirectoryPeImportFact where
  name : String
  descriptorRva : ℕ := 0
  deriving DecidableEq, Repr

structure DirectoryPeExportFact where
  name : String
  rva : ℕ := 0
  forwarded : Bool := false
  deriving DecidableEq, Repr

structure DirectoryArtifactFact where
  (path parent : NativePath)
  (role relation source sha256 : String)
  graphLinked : Bool := false
  graphDepth : ℕ := 0
  graphState : String := ""
  deriving DecidableEq, Repr

structure DirectoryGodotLibraryFact where
  (descriptor target : NativePath)
  (descriptorEntry targetEntry : String)
  deriving DecidableEq, Repr

structure DirectoryUnrealPartitionFact where
  path : NativePath
  (index requiredBytes : ℕ)
  state : String
  deriving DecidableEq, Repr

structure DirectoryWasmImportFact where
  (module name : String)
  deriving DecidableEq, Repr

/-- The fields of a report index that the relationships and their mutations use. -/
structure DirectoryReportIndex where
  input : NativePath
  (peValid peDll pe64 : Bool := false)
  peMachine : ℕ := 0
  peImports : List DirectoryPeImportFact := []
  peExports : List DirectoryPeExportFact := []
  (peExportsTruncated elfValid : Bool := false)
  (elfType elfEntry : ℕ := 0)
  (elfInterpreter elfSoname : String := "")
  elfSonameFileOffset : ℕ := 0
  elfNeeded : List String := []
  (monoRuntimeExportSurface wasmValid : Bool := false)
  wasmImports : List DirectoryWasmImportFact := []
  wasmExports : List String := []
  (interpreterBoundaryConfirmed interpreterExternalProgramArgument
    interpreterExactProgramTargetBound : Bool := false)
  (interpreterTargetRole interpreterRuntimeFamily : String := "")
  (unityValid unityMetadataValid unityIl2cpp unityRegistrationResolved unityGameAssemblyValidated
    unityMono unityMonoRuntimeValidated : Bool := false)
  (unityMetadataPath unityGameAssemblyPath unityManagedPath unityMonoRuntimePath
    : NativePath := ⟨""⟩)
  unityBackendState : String := ""
  (dotnetValid dotnetUnityManaged dotnetUnityMono : Bool := false)
  dotnetPinvokeModules : List String := []
  relationshipReferences : List RelationshipReferenceEvidence := []
  artifacts : List DirectoryArtifactFact := []
  godotLibraryRefs : List DirectoryGodotLibraryFact := []
  (unrealIostoreTocValid unrealIostorePairValid unrealIostoreEncrypted : Bool := false)
  unrealIostorePartitions : List DirectoryUnrealPartitionFact := []
  postRelationshipMutated : Bool := false
  deriving DecidableEq, Repr

def pathComponentIeq (p : NativePath) (expected : String) : Bool :=
  lowerAscii p.filename == lowerAscii expected

def indexUnityExecutableRoot (fs : FileSystem) (r : DirectoryReportIndex) : Bool :=
  if !r.unityValid then false
  else if r.peValid && !r.peDll then true
  else if r.elfValid then
    r.elfType == 2 || (r.elfType == 3 &&
      (r.elfInterpreter != "" || (r.elfEntry != 0 && fs.hasExecutePermission r.input)))
  else false

def indexUnityManagedMatchesExecutable (fs : FileSystem) (executable : NativePath)
    (managed : DirectoryReportIndex) : Bool :=
  if !managed.dotnetValid || !managed.dotnetUnityManaged then false
  else
    let p := managed.input
    if !pathComponentIeq p "Assembly-CSharp.dll" || !pathComponentIeq p.parentPath "Managed" then
      false
    else
      let data := p.parentPath.parentPath
      lowerAscii data.filename == lowerAscii (executable.stem++"_Data") &&
        fs.pathKey data.parentPath == fs.pathKey executable.parentPath

def indexExactMonoRuntimeExports (r : DirectoryReportIndex) : Bool := r.monoRuntimeExportSurface

end AutoRefirst.DirectoryRelationships
