import AutoRefirst.ArtifactGraph
import AutoRefirst.StepMachine

/-!
# The artifact trees of a directory run

What a run has written below the artifact roots of its inputs, as a list of outputs. An
output that a failed write left behind is marked: no counter of the run knows of it.
-/

namespace AutoRefirst.ArtifactGraph
open List

/-- The parts of an artifact root with a writer of their own. -/
inductive ArtifactArea where
  | analysis
  | child (sha256 : String)
  | godotExternal (sha256 : String)
  deriving DecidableEq, Repr

structure ArtifactOutput where
  root : NativePath
  area : ArtifactArea
  (bytes files : ℕ)
  abandoned : Bool := false
  deriving DecidableEq, Repr

abbrev ArtifactDisk := List ArtifactOutput

structure DirectoryArtifactTreeStats where
  (bytes files : ℕ := 0)
  deriving DecidableEq, Repr

namespace ArtifactDisk

def resetRoot (d : ArtifactDisk) (root : NativePath) : ArtifactDisk :=
  d.filter fun o => o.root != root

/-- The outputs that remain when one part of an artifact root is emptied. -/
def resetArea (d : ArtifactDisk) (root : NativePath) (area : ArtifactArea) : ArtifactDisk :=
  d.filter fun o => !(o.root == root && o.area == area)

def inspectTree (d : ArtifactDisk) (root : NativePath) : DirectoryArtifactTreeStats :=
  (d.filter fun o => o.root == root).foldl (fun st o =>
    {bytes:=Word64.satAdd st.bytes o.bytes,files:=Word64.satAdd st.files o.files}) {}

def kept (measure : ArtifactOutput→ℕ) (d : ArtifactDisk) : ℕ :=
  ((d.filter fun o => !o.abandoned).map measure).sum

def bytes (d : ArtifactDisk) : ℕ := kept (·.bytes) d

def files (d : ArtifactDisk) : ℕ := kept (·.files) d

variable {d : ArtifactDisk} {root : NativePath} {area : ArtifactArea} {o : ArtifactOutput}
  {measure : ArtifactOutput→ℕ}

@[simp] theorem kept_nil : kept measure []=0:=rfl

@[simp] theorem kept_append (d e:ArtifactDisk) :
    kept measure (d++e) = kept measure d + kept measure e:=by
  simp [kept,filter_append]

theorem kept_singleton (o:ArtifactOutput) :
    kept measure [o] = if o.abandoned then 0 else measure o:=by
  cases h : o.abandoned <;> simp [kept,h]

theorem resetRoot_of_absent (h:∀o∈d,o.root≠root) : d.resetRoot root=d:=
  filter_eq_self.mpr fun o ho=>by simpa using h o ho

theorem resetArea_of_absent (h:∀o∈d,o.root=root → o.area≠area) : d.resetArea root area=d:=by
  apply filter_eq_self.mpr
  intro o ho
  by_cases hroot : o.root=root
  · simp [h o ho hroot]
  · simp [hroot]

/-- The outputs of one writer go when its root is emptied. -/
theorem resetRoot_append_own (habsent:∀o∈d,o.root≠root) (hroot:o.root=root) :
    resetRoot (d++[o]) root=d:=by
  have hown : List.filter (fun o=>o.root != root) [o]=[]:=by simp [hroot]
  have hrest : d.filter (fun o=>o.root != root) = d:=resetRoot_of_absent habsent
  rw [resetRoot,filter_append,hown,hrest,append_nil]

theorem inspectTree_append_own (habsent:∀o∈d,o.root≠root) (hroot:o.root=root) :
    inspectTree (d++[o]) root =
      {bytes:=min o.bytes Word64.maxValue,files:=min o.files Word64.maxValue}:=by
  have hnone : d.filter (fun o=>o.root == root) = []:=
    filter_eq_nil_iff.mpr fun o ho=>by simpa using habsent o ho
  have hzero (n:ℕ) : Word64.satAdd 0 n=min n Word64.maxValue:=by
    rw [Word64.satAdd_eq_min n (Nat.zero_le _),Nat.zero_add]
  simp [inspectTree,filter_append,hnone,hroot,hzero]

end ArtifactDisk

end AutoRefirst.ArtifactGraph

/-!
## Static artifact children

The two loops that analyse the artifacts of one file without the command line's
recursion: a queue of children and grandchildren, and its bounded form in directory
runs, which charges the persisted child reports to the directory and starts from the
edges of an earlier pass. One step is one turn of the loop.
-/

namespace AutoRefirst.ArtifactGraph
open List

open StepMachine

structure AnalysisArtifact where
  (kind role relation priority : String)
  path : NativePath
  size : ℕ := 0
  sha256 : String := ""
  runtimeConfirmed : Bool := false
  deriving DecidableEq, Repr

def automaticStaticChildCandidate (a : AnalysisArtifact) : Bool :=
  if a.priority != "HIGH" || a.path.empty || a.runtimeConfirmed then false
  else !(a.role == "analysis_map" || a.role == "static_child_report" ||
    a.kind == "analysis_report" || a.kind == "pyinstaller_pyz")

/-- The materialization summary of a report. -/
structure Materialization where
  isPartial : Bool := false
  (omittedCount omittedBytes : ℕ := 0)
  reasons : List String := []
  deriving DecidableEq, Repr

def noteStaticChildSkip (m : Materialization) (reason : String) (bytes : ℕ := 0) :
    Materialization :=
  { isPartial:=true,omittedCount:=satAdd m.omittedCount 1
    omittedBytes:=satAdd m.omittedBytes bytes,reasons:=m.reasons++[reason] }

/-- What is said about an unsafe child, and the bytes it is charged with. -/
def FileProbe.refusal (st : FileProbe) : String×ℕ :=
  if !st.regular then ("refused a non-regular/symlink artifact: ",0)
  else
    match st.size with
    | none => ("could not read artifact size: ",0)
    | some size => ("could not hash artifact: ",size)

def relationOf (a : AnalysisArtifact) : String :=
  if a.relation.toList.isEmpty then "auto_high_value" else a.relation

namespace ArtifactGraphInfo

variable (g : ArtifactGraphInfo)

def pushUnsafeTruncated (edge : ArtifactGraphEdge) : ArtifactGraphInfo :=
  {g.pushUnsafe edge with truncated:=true}

def pushTruncated (edge : ArtifactGraphEdge) (state : EdgeState) : ArtifactGraphInfo :=
  {g.pushEdge edge state with truncated:=true}

def admitStatic (size : ℕ) : ArtifactGraphInfo :=
  {g with admittedBytes:=satAdd g.admittedBytes size,nodes:=inc32 g.nodes}

def exceedsBytes (size : ℕ) : Bool :=
  decide (g.admittedBytes > g.maxTotalBytes) || decide (size > g.maxTotalBytes-g.admittedBytes)

end ArtifactGraphInfo

def seedInput (inputSha256 : String) (input : NativePath) : FirstBySha :=
  if inputSha256.toList.isEmpty then [] else FirstBySha.emplace [] inputSha256 input

structure AutoStaticChildPending where
  artifact : AnalysisArtifact
  parent : NativePath
  depth : ℕ := 0
  deriving DecidableEq, Repr

structure ChildOptions where
  (extractBudgetBytes extractBudgetFiles : ℕ)

/-- The file system and the analysis of a child, by the number of the turn. `none` is
success, an error text is failure. -/
structure StaticEnvironment where
  probe : ℕ → NativePath → FileProbe
  ensureSubdirectory : ℕ → Option String
  analyzeFile : ℕ → NativePath → ChildOptions → List AnalysisArtifact
  writeReport : ℕ → Option String

structure StaticLoop where
  graph : ArtifactGraphInfo
  firstBySha : FirstBySha
  queue : List AutoStaticChildPending
  materialization : Materialization
  (analyzed reportFailures : ℕ := 0)

namespace StaticLoop

def start (opt : Limits) (input : NativePath) (inputSha256 : String)
    (artifacts : List AnalysisArtifact) (materialization : Materialization) : StaticLoop :=
  { graph:={ enabled:=true,maxDepth:=opt.artifactMaxDepth,
               maxNodes:=opt.artifactMaxNodes,maxTotalBytes:=opt.artifactMaxBytes,nodes:=1 }
    firstBySha:=seedInput inputSha256 input
    queue:=(artifacts.filter automaticStaticChildCandidate).map fun a => ⟨a,input,1⟩
    materialization }

def childOptions (g : ArtifactGraphInfo) : ChildOptions :=
  { extractBudgetBytes:=remainingBudget g.maxTotalBytes g.admittedBytes
    extractBudgetFiles:=remainingBudget g.maxNodes g.nodes }

def newEdge (cur : AutoStaticChildPending) : ArtifactGraphEdge :=
  { parent:=cur.parent,child:=cur.artifact.path,relation:=relationOf cur.artifact,depth:=cur.depth }

variable (env : StaticEnvironment)

/-- What follows the admission: the directory of the child, its analysis and its report. -/
def analyzeChild (turn : ℕ) (s : StaticLoop)
    (cur : AutoStaticChildPending) (edge : ArtifactGraphEdge) : StaticLoop :=
  match env.ensureSubdirectory turn with
  | some error =>
    { s with
      graph:=s.graph.pushUnsafeTruncated edge
      materialization:=noteStaticChildSkip s.materialization error edge.size }
  | none =>
    let artifacts := env.analyzeFile turn cur.artifact.path (childOptions s.graph)
    let children := (artifacts.filter automaticStaticChildCandidate).map fun a =>
      (⟨a,cur.artifact.path,inc32 cur.depth⟩ : AutoStaticChildPending)
    match env.writeReport turn with
    | some error =>
      { s with
        graph:=s.graph.pushTruncated edge .analyzedReportWriteFailed
        materialization:={ s.materialization with
          isPartial:=true,reasons:=s.materialization.reasons++[error] }
        reportFailures:=s.reportFailures+1,queue:=s.queue++children }
    | none =>
      { s with
        graph:=s.graph.pushEdge edge .analyzedStatic,analyzed:=s.analyzed+1
        queue:=s.queue++children }

def considerChild (turn : ℕ) (s : StaticLoop) (cur : AutoStaticChildPending) : StaticLoop :=
  let path := pathUtf8 cur.artifact.path
  let st := env.probe turn cur.artifact.path
  match st.identify (newEdge cur) with
  | (edge,false) =>
    { s with
      graph:=s.graph.pushUnsafeTruncated edge
      materialization:=noteStaticChildSkip s.materialization
        ("automatic static child analysis "++st.refusal.1 ++ path) st.refusal.2 }
  | (edge,true) =>
    let graph := s.graph.materialize edge.size
    match s.firstBySha.lookup edge.sha256 with
    | some first => {s with graph:=graph.pushDuplicate edge first}
    | none =>
      if cur.depth > graph.maxDepth then
        { s with
          graph:=graph.pushLimit edge .skippedDepth
          materialization:=noteStaticChildSkip s.materialization
            ("automatic static child depth limit reached for "++path) edge.size }
      else if graph.exceedsBytes edge.size then
        { s with
          graph:=graph.pushLimit edge .skippedByteLimit
          materialization:=noteStaticChildSkip s.materialization
            ("automatic static child byte budget omitted "++path) edge.size }
      else if graph.nodes ≥ graph.maxNodes then
        { s with
          graph:=graph.pushLimit edge .skippedNodeLimit
          materialization:=noteStaticChildSkip s.materialization
            ("automatic static child node budget omitted "++path) edge.size }
      else
        analyzeChild env turn
          { s with
            graph:=graph.admitStatic edge.size
            firstBySha:=s.firstBySha.emplace edge.sha256 cur.artifact.path } cur edge

/-- One turn; the turns are numbered by the edges. -/
def step (s : StaticLoop) : Option StaticLoop :=
  match s.queue with
  | [] => none
  | cur::queue => some (considerChild env s.graph.edges.length {s with queue} cur)

end StaticLoop

/-- The file system and the analysis of a child, by the number of the turn. `inspectTree`
gives the files and bytes that a child left behind, `cleanupLeaves` what is still there
where the inspection failed, or after a clean-up whose result nobody asks for. -/
structure BoundedEnvironment where
  probe : ℕ → NativePath → FileProbe
  resetRoot : ℕ → Option String
  inspectTree : ℕ → Except String (ℕ×ℕ)
  payloadSize : ℕ → NativePath → ℕ
  ensureSubdirectory : ℕ → Option String
  (reportPathExists openReport writeReport : ℕ→Bool)
  cleanupLeaves : ℕ → DirectoryArtifactTreeStats := fun _ => {}

structure DirectoryBudget where
  (maxBytes maxFiles : ℕ)

structure BoundedLoop where
  graph : ArtifactGraphInfo
  firstBySha : FirstBySha
  selected : List AnalysisArtifact
  materialization : Materialization
  (directoryBytesUsed directoryFilesUsed : ℕ)
  disk : ArtifactDisk

namespace BoundedLoop

def startGraph (opt : Limits) (graph : ArtifactGraphInfo) : ArtifactGraphInfo :=
  if graph.enabled then graph
  else
    { graph with
      enabled:=true,maxDepth:=opt.artifactMaxDepth,maxNodes:=opt.artifactMaxNodes,
      maxTotalBytes:=opt.artifactMaxBytes,nodes:=1 }

/-- Every edge with a hash is taken for a known child. -/
def seedEdges (m : FirstBySha) (edges : List ArtifactGraphEdge) : FirstBySha :=
  edges.foldl (fun m e =>
    if e.sha256.toList.isEmpty then m else FirstBySha.emplace m e.sha256 e.child) m

def start (opt : Limits) (input : NativePath) (inputSha256 : String) (graph : ArtifactGraphInfo)
    (selected : List AnalysisArtifact) (materialization : Materialization)
    (directoryBytesUsed directoryFilesUsed : ℕ) (disk : ArtifactDisk) : BoundedLoop :=
  { graph:=startGraph opt graph
    firstBySha:=seedEdges (seedInput inputSha256 input) (startGraph opt graph).edges
    selected,materialization,directoryBytesUsed,directoryFilesUsed,disk }

def newEdge (input : NativePath) (a : AnalysisArtifact) : ArtifactGraphEdge :=
  {parent:=input,child:=a.path,relation:=relationOf a,depth:=1}

variable (env : BoundedEnvironment)

/-- The recorded hash of an artifact is used without reading the file. -/
def probeArtifact (turn : ℕ) (a : AnalysisArtifact) : FileProbe :=
  let st := env.probe turn a.path
  {st with sha256 := if a.sha256.toList.isEmpty then st.sha256 else a.sha256}

def reportPath (root : NativePath) (sha256 : String) : NativePath :=
  (((root.append ⟨"children"⟩).append ⟨sha256⟩).append ⟨"analysis.json"⟩)

def skip (s : BoundedLoop) (graph : ArtifactGraphInfo) (reason : String) (bytes : ℕ := 0) :
    BoundedLoop :=
  {s with graph,materialization:=noteStaticChildSkip s.materialization reason bytes}

/-- What stays in a child's directory without being charged. -/
def abandon (s : BoundedLoop) (root : NativePath) (sha256 : String)
    (st : DirectoryArtifactTreeStats) : BoundedLoop :=
  {s with disk:=s.disk++[⟨root,.child sha256,st.bytes,st.files,true⟩]}

variable (budget : DirectoryBudget)

/-- What follows the admission: the child's directory is emptied, the child analysed, its
directory inspected, and its rendered report written and charged. -/
def analyzeChild (root : NativePath)
    (turn : ℕ) (s : BoundedLoop) (a : AnalysisArtifact) (edge : ArtifactGraphEdge) : BoundedLoop :=
  let path := pathUtf8 a.path
  let report := pathUtf8 (reportPath root edge.sha256)
  match env.resetRoot turn with
  | some error => s.skip (s.graph.pushUnsafeTruncated edge) error edge.size
  | none =>
    let s := {s with disk:=s.disk.resetArea root (.child edge.sha256)}
    match env.inspectTree turn with
    | .error error =>
      (s.abandon root edge.sha256 (env.cleanupLeaves turn)).skip
        (s.graph.pushUnsafeTruncated edge) error edge.size
    | .ok (files,bytes) =>
      if files ≠ 0 ∨ bytes ≠ 0 then
        (s.abandon root edge.sha256 (env.cleanupLeaves turn)).skip (s.graph.pushLimit edge .skippedOutputInvariant)
          ("bounded directory static child suppression produced unexpected derivative output " ++
            "and was rolled back") bytes
      else
        let payload := env.payloadSize turn a.path
        let remainingBytes := remainingBudget budget.maxBytes s.directoryBytesUsed
        let remainingFiles := remainingBudget budget.maxFiles s.directoryFilesUsed
        if remainingFiles = 0 ∨ payload > remainingBytes then
          s.skip (s.graph.pushLimit edge .skippedDirectoryArtifactBudget)
            ("bounded directory aggregate artifact budget deferred static child report for "++path)
            payload
        else
          match env.ensureSubdirectory turn with
          | some error => s.skip (s.graph.pushUnsafeTruncated edge) error edge.size
          | none =>
            if env.reportPathExists turn then
              s.skip (s.graph.pushUnsafeTruncated edge)
                ("bounded directory child report path unexpectedly existed before write: "++report)
            else if !env.openReport turn then
              s.skip (s.graph.pushTruncated edge .analyzedReportWriteFailed)
                ("cannot create bounded directory static child report: "++report)
            else if !env.writeReport turn then
              (s.abandon root edge.sha256 (env.cleanupLeaves turn)).skip (s.graph.pushTruncated edge .analyzedReportWriteFailed)
                ("bounded directory static child report write failed: "++report) payload
            else
              { s with
                graph:=s.graph.pushEdge edge .analyzedStatic
                directoryBytesUsed:=satAdd s.directoryBytesUsed payload
                directoryFilesUsed:=satAdd s.directoryFilesUsed 1
                disk:=s.disk++[⟨root,.child edge.sha256,payload,1,false⟩] }

/-- A turn of the loop over a candidate; `a` has left the selection. -/
def considerChild (input root : NativePath)
    (turn : ℕ) (s : BoundedLoop) (a : AnalysisArtifact) : BoundedLoop :=
  let path := pathUtf8 a.path
  let st := probeArtifact env turn a
  match st.identify (newEdge input a) with
  | (edge,false) =>
    s.skip (s.graph.pushUnsafeTruncated edge)
      ("bounded directory static child analysis "++st.refusal.1 ++ path) st.refusal.2
  | (edge,true) =>
    let graph := s.graph.materialize edge.size
    match s.firstBySha.lookup edge.sha256 with
    | some first => {s with graph:=graph.pushDuplicate edge first}
    | none =>
      if edge.depth > graph.maxDepth then
        s.skip (graph.pushLimit edge .skippedDepth)
          ("bounded directory static child depth limit reached for "++path) a.size
      else if graph.nodes ≥ graph.maxNodes then
        s.skip (graph.pushLimit edge .skippedNodeLimit)
          ("bounded directory static child node budget omitted "++path) edge.size
      else if graph.exceedsBytes edge.size then
        s.skip (graph.pushLimit edge .skippedByteLimit)
          ("bounded directory static child input-byte budget omitted "++path) edge.size
      else if s.directoryFilesUsed ≥ budget.maxFiles ∨ s.directoryBytesUsed ≥ budget.maxBytes then
        s.skip (graph.pushLimit edge .skippedDirectoryArtifactBudget)
          ("bounded directory aggregate artifact budget deferred static child report for "++path)
      else
        analyzeChild env budget root turn
          { s with
            graph:=graph.admitStatic edge.size
            firstBySha:=s.firstBySha.emplace edge.sha256 a.path } a edge

/-- One turn. -/
def step (input root : NativePath) (s : BoundedLoop) : Option BoundedLoop :=
  match s.selected with
  | [] => none
  | a::selected =>
    if automaticStaticChildCandidate a then
      some (considerChild env budget input root s.graph.edges.length {s with selected} a)
    else some {s with selected}

end BoundedLoop

end AutoRefirst.ArtifactGraph
