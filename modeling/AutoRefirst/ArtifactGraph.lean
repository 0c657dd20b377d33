import AutoRefirst.Word64
import AutoRefirst.GreedySelection
import AutoRefirst.NativePath

/-!
# Artifact graphs

The graph of analysed artifacts that three loops build: the recursive analysis of the
command line, the automatic analysis of a file's static children, and its bounded form
in directory runs. This module has what they share: the graph and its edges, what the
loops ask the file system about a path, and the part of an analysis report they read.
-/

namespace AutoRefirst.ArtifactGraph

open GreedySelection

def satAdd (a b : ℕ) : ℕ := Word64.satAdd a b

/-- `++` on a 32-bit counter. -/
def inc32 (n : ℕ) : ℕ := (n+1) % 2^32

def capCount (n : ℕ) : ℕ := min n (2^32-1)

def remainingBudget (limit used : ℕ) : ℕ := if used < limit then limit-used else 0

inductive EdgeState where
  | admitted | analyzedStatic | analyzedReportWriteFailed | duplicateSkipped | skippedUnsafe
  | skippedDepth | skippedNodeLimit | skippedByteLimit | skippedDirectoryArtifactBudget
  | skippedOutputInvariant
  deriving DecidableEq, Repr

/-- `state` is `none` until the loop has decided; the source then has the empty text. -/
structure ArtifactGraphEdge where
  (parent child : NativePath)
  duplicateOf : NativePath := ⟨""⟩
  relation : String
  sha256 : String := ""
  state : Option EdgeState := none
  size : ℕ := 0
  depth : ℕ
  deriving DecidableEq, Repr

structure ArtifactGraphInfo where
  (enabled truncated : Bool := false)
  (maxDepth maxNodes nodes deduplicated skippedLimits skippedUnsafe materializedFiles maxTotalBytes
    materializedBytes admittedBytes : ℕ := 0)
  edges : List ArtifactGraphEdge := []
  warnings : List String := []
  deriving DecidableEq, Repr

/-- The limits of the command line, in the types that hold them. -/
structure Limits where
  (artifactMaxDepth artifactMaxNodes artifactMaxBytes : ℕ)
  depth_lt : artifactMaxDepth<2^32
  nodes_lt : artifactMaxNodes<2^32
  bytes_le : artifactMaxBytes≤Word64.maxValue

namespace ArtifactGraphInfo

variable (g : ArtifactGraphInfo) (edge : ArtifactGraphEdge)

def pushEdge (state : EdgeState) : ArtifactGraphInfo :=
  {g with edges:=g.edges++[{edge with state:=some state}]}

def pushUnsafe : ArtifactGraphInfo :=
  {g.pushEdge edge .skippedUnsafe with skippedUnsafe:=inc32 g.skippedUnsafe}

def pushLimit (state : EdgeState) : ArtifactGraphInfo :=
  {g.pushEdge edge state with truncated:=true,skippedLimits:=inc32 g.skippedLimits}

def pushDuplicate (first : NativePath) : ArtifactGraphInfo :=
  { g.pushEdge {edge with duplicateOf:=first} .duplicateSkipped with
    deduplicated:=inc32 g.deduplicated }

def warn (message : String) : ArtifactGraphInfo :=
  {g with warnings:=g.warnings++[message]}

/-- The two counters every hashed child adds to, before any admission check. -/
def materialize (size : ℕ) : ArtifactGraphInfo :=
  { g with
    materializedBytes:=satAdd g.materializedBytes size
    materializedFiles:=inc32 g.materializedFiles }

end ArtifactGraphInfo

/-- What the file system says about a path: whether `symlink_status` finds a regular file,
its size, and its hash, which is empty when the file cannot be read. -/
structure FileProbe where
  regular : Bool := true
  size : Option ℕ
  sha256 : String
  deriving DecidableEq, Repr

/-- The size and hash an edge gets, up to the first failing question: `none` where the child
is unsafe. A failing `file_size` leaves its error value in the edge. -/
def FileProbe.identify (st : FileProbe) (edge : ArtifactGraphEdge) : ArtifactGraphEdge×Bool :=
  if !st.regular then (edge,false)
  else
    match st.size with
    | none => ({edge with size:=Word64.maxValue},false)
    | some size => ({edge with size,sha256:=st.sha256},!st.sha256.toList.isEmpty)

/-- `std::map` from hashes to the first path that had them. -/
abbrev FirstBySha := List (String×NativePath)

def FirstBySha.emplace (m : FirstBySha) (sha : String) (path : NativePath) : FirstBySha :=
  if (m.lookup sha).isSome then m else m++[(sha,path)]

structure ArtifactCandidate where
  path : NativePath
  relation : String
  deriving DecidableEq, Repr

structure PyInstMaterializedFile where
  path : NativePath
  role : String
  recursiveCandidate : Bool

structure Finding where
  (kind family state : String)
  fields : List (String×String) := []

/-- What the recursive loop reads of a report: the hash and existence of the input, the
extracted files by extractor, which containers were recognised, and which extractors ran
out of budget. -/
structure AnalysisReport where
  inputExists : Bool := true
  inputSha256 : String
  pyinstallerMaterialized : List PyInstMaterializedFile := []
  (godotFiles autoitFiles renpyRpaFiles : List NativePath := [])
  renpyPicklePath : NativePath := ⟨""⟩
  (wxapkgFiles asarFiles apkFiles jarFiles dotnetResourceFiles dotnetBundleFiles nuitkaFiles
    : List NativePath := [])
  (pyinstallerValid godotValid autoitValid renpyRpaValid renpyRpycValid wxapkgValid : Bool := false)
  wxapkgEntries : ℕ := 0
  (asarValid apkValid jarValid nuitkaValid nuitkaOnefile nuitkaDecompressionLimited
    pyinstallerBudgetExhausted apkBudgetExhausted jarBudgetExhausted godotBudgetExhausted
    nuitkaBudgetExhausted asarBudgetExhausted wxapkgBudgetExhausted renpyRpaBudgetExhausted
    dotnetResourceBudgetExhausted dotnetBundleBudgetExhausted : Bool := false)
  findings : List Finding := []

variable (r : AnalysisReport)

def rootInputAnalysisFailed : Bool :=
  !r.inputExists || r.findings.any fun f => f.kind == "input" && f.state == "FAILED"

def hasExtractableChildContainer : Bool :=
  r.pyinstallerValid || r.godotValid || r.autoitValid || r.renpyRpaValid || r.renpyRpycValid ||
    (r.wxapkgValid && r.wxapkgEntries != 0) || r.asarValid || r.apkValid || r.jarValid ||
    !r.dotnetResourceFiles.isEmpty || !r.dotnetBundleFiles.isEmpty ||
    (r.nuitkaValid && (r.nuitkaOnefile || r.nuitkaDecompressionLimited))

/-- The extracted files in the order in which `extracted_artifacts` adds them. -/
def addedArtifacts : List ArtifactCandidate :=
  let all (relation : String) (paths : List NativePath) :=
    paths.map fun path => ({ path, relation } : ArtifactCandidate)
  ((r.pyinstallerMaterialized.filter (·.recursiveCandidate)).map fun m =>
      {path:=m.path,relation := "extracted:pyinstaller:"++m.role}) ++
    all "extracted:godot-pck" r.godotFiles ++
    all "extracted:autoit" r.autoitFiles ++
    all "extracted:renpy-rpa" r.renpyRpaFiles ++
    all "decoded:renpy-rpyc-pickle" [r.renpyPicklePath] ++
    all "extracted:wxapkg" r.wxapkgFiles ++
    all "extracted:asar" r.asarFiles ++
    all "extracted:apk" r.apkFiles ++
    all "extracted:jar" r.jarFiles ++
    all "extracted:dotnet-managed-resource" r.dotnetResourceFiles ++
    all "extracted:dotnet-bundle" r.dotnetBundleFiles ++
    (if r.nuitkaOnefile then all "extracted:nuitka-onefile" r.nuitkaFiles else [])

def artifactKey (c : ArtifactCandidate) : String := pathUtf8 c.path.lexicallyNormal

def addArtifact (out : List ArtifactCandidate) (c : ArtifactCandidate) : List ArtifactCandidate :=
  if c.path.empty || out.any (artifactKey · == artifactKey c) then out else out++[c]

def extractedArtifacts (sorter : StdSort) (r : AnalysisReport) : List ArtifactCandidate :=
  sorter.sort (fun a b => decide (pathUtf8 a.path < pathUtf8 b.path))
    ((addedArtifacts r).foldl addArtifact [])

/-- The budget flags of a report, each with the warning it causes. -/
def budgetNotes (input : NativePath) : List (Bool×String) :=
  let here := " at "++pathUtf8 input
  let rest := here++" because the remaining byte/file budget was insufficient"
  [(r.pyinstallerBudgetExhausted,
      "PyInstaller extraction hit the recursive byte/file budget while decoding outer/PYZ artifacts"
        ++ here),
   (r.apkBudgetExhausted,
      "APK analysis-only extraction omitted lower-priority static children"++rest),
   (r.jarBudgetExhausted,
      "JAR analysis-only extraction omitted lower-priority static children"++rest),
   (r.godotBudgetExhausted,"Godot extraction omitted lower-priority materialization"++rest),
   (r.nuitkaBudgetExhausted,"Nuitka extraction omitted lower-priority materialization"++rest),
   (r.asarBudgetExhausted,"ASAR extraction omitted lower-priority materialization"++rest),
   (r.wxapkgBudgetExhausted,"wxapkg extraction omitted lower-priority materialization"++rest),
   (r.renpyRpaBudgetExhausted,
      "Ren'Py RPA extraction omitted lower-priority materialization"++rest),
   (r.dotnetResourceBudgetExhausted,
      ".NET managed resource extraction omitted lower-priority materialization"++rest),
   (r.dotnetBundleBudgetExhausted,
      ".NET single-file bundle extraction omitted lower-priority materialization"++rest)]

/-- The refused extractions of a report, each with the warning it causes. -/
def refusalNotes (depth : ℕ) : List (Bool×String) :=
  r.findings.map fun f =>
    (f.family == "Artifact extraction budget" && f.state == "REFUSED",
      "recursive extraction preflight refused "++(f.fields.lookup "ecosystem").getD "container" ++
        " at depth "++toString depth ++
        " because the remaining byte/file budget was insufficient")

def note (g : ArtifactGraphInfo) (n : Bool×String) : ArtifactGraphInfo :=
  if n.1 then
    { g with
      truncated:=true,skippedLimits:=inc32 g.skippedLimits,warnings:=g.warnings++[n.2] }
  else g

def noteRecursiveExtractionBudget (g : ArtifactGraphInfo)
    (input : NativePath) (depth : ℕ) : ArtifactGraphInfo :=
  (budgetNotes r input ++ refusalNotes r depth).foldl note g

end AutoRefirst.ArtifactGraph
