import AutoRefirst.ArtifactGraph
import AutoRefirst.StepMachine

/-!
# The recursive artifact graph

The breadth-first loop of the command line under `--recursive --extract`. One step is
one turn of one of its two loops: a node leaves the queue and is analysed, or one
extracted child of the current node is considered. The analysis of a node and the file
system are an environment that may answer differently at every node.
-/

namespace AutoRefirst.ArtifactGraph

open GreedySelection StepMachine

structure PendingArtifact where
  (path parent rootInput : NativePath)
  relation : String
  depth : ℕ := 0
  root : Bool := false
  deriving DecidableEq, Repr

/-- What the loop sets in the options of one analysis. -/
structure NodeOptions where
  extract : Bool
  (extractBudgetBytes extractBudgetFiles : ℕ)
  deriving DecidableEq, Repr

/-- The answers of `analyze_file` and of the file system. The first argument is the number
of nodes analysed before, so that nothing has to be answered the same way twice. -/
structure Environment where
  analyzeFile : ℕ → PendingArtifact → NodeOptions → AnalysisReport
  probe : ℕ → NativePath → FileProbe

structure NodeReport where
  node : PendingArtifact
  report : AnalysisReport

structure CurrentNode extends NodeReport where
  children : List ArtifactCandidate

structure GraphLoop where
  graph : ArtifactGraphInfo
  queue : List PendingArtifact
  firstBySha : FirstBySha := []
  reports : List NodeReport := []
  current : Option CurrentNode := none
  successfulRootInputs : ℕ := 0

namespace GraphLoop

/-- The state before the first turn. -/
def start (opt : Limits) (files : List NativePath) : GraphLoop :=
  let graph : ArtifactGraphInfo :=
    { enabled:=true,maxDepth:=opt.artifactMaxDepth,maxNodes:=opt.artifactMaxNodes,
      maxTotalBytes:=opt.artifactMaxBytes }
  { graph := if files.length > opt.artifactMaxNodes then
      { graph with
        truncated:=true,skippedLimits:=capCount (files.length-opt.artifactMaxNodes)
        warnings :=
          ["input root count exceeds artifact node limit; remaining roots were not analyzed"] }
      else graph
    queue:=(files.take opt.artifactMaxNodes).map fun file =>
      {path:=file,parent:=⟨""⟩,rootInput:=file,relation := "input",root:=true} }

variable (s : GraphLoop) (cur : PendingArtifact)

def nodeOptions : NodeOptions :=
  let occupied := s.reports.length+s.queue.length+1
  { extract:=decide (cur.depth < s.graph.maxDepth)
    extractBudgetBytes:=remainingBudget s.graph.maxTotalBytes s.graph.materializedBytes
    extractBudgetFiles:=remainingBudget s.graph.maxNodes occupied % 2^32 }

def noteDepthLimit (g : ArtifactGraphInfo) (cur : PendingArtifact) (report : AnalysisReport) :
    ArtifactGraphInfo :=
  note g (decide (g.maxDepth ≤ cur.depth) && hasExtractableChildContainer report,
    "recursive depth limit reached at "++pathUtf8 cur.path ++
      "; deeper extraction was not materialized")

/-- A turn of the outer loop up to the inner one; `cur` has left the queue. -/
def analyzeNext (sorter : StdSort) (env : Environment) (s : GraphLoop) (cur : PendingArtifact) :
    GraphLoop :=
  let report := env.analyzeFile s.reports.length cur (s.nodeOptions cur)
  let graph := {s.graph with nodes:=inc32 s.graph.nodes}
  let graph := noteRecursiveExtractionBudget report graph cur.path cur.depth
  { s with
    graph:=noteDepthLimit graph cur report
    firstBySha := if report.inputSha256.toList.isEmpty then s.firstBySha
      else s.firstBySha.emplace report.inputSha256 cur.path
    current:=some {node:=cur,report,children:=extractedArtifacts sorter report}
    successfulRootInputs := if cur.root && !rootInputAnalysisFailed report then
      s.successfulRootInputs + 1 else s.successfulRootInputs }

variable (child : ArtifactCandidate)

def newEdge : ArtifactGraphEdge :=
  {parent:=cur.path,child:=child.path,relation:=child.relation,depth:=inc32 cur.depth}

def admitChild (edge : ArtifactGraphEdge) : GraphLoop :=
  let pending : PendingArtifact :=
    { path:=child.path,parent:=cur.path,rootInput:=cur.rootInput,
      relation:=child.relation,depth:=edge.depth }
  { s with
    firstBySha:=s.firstBySha.emplace edge.sha256 child.path
    graph:={ s.graph.pushEdge edge .admitted with
      admittedBytes:=satAdd s.graph.admittedBytes edge.size }
    queue:=s.queue++[pending] }

/-- A turn of the inner loop. -/
def considerChild (st : FileProbe) : GraphLoop :=
  match st.identify (newEdge cur child) with
  | (edge,false) =>
    {s with graph:=s.graph.pushUnsafe edge}
  | (edge,true) =>
    let graph := s.graph.materialize edge.size
    if graph.materializedBytes > graph.maxTotalBytes then
      let warning := "extractor materialized bytes exceeded the declared recursive budget; " ++
        "offending child was not analyzed"
      {s with graph:=(graph.pushLimit edge .skippedByteLimit).warn warning}
    else
      match s.firstBySha.lookup edge.sha256 with
      | some first => {s with graph:=graph.pushDuplicate edge first}
      | none =>
        if edge.depth > graph.maxDepth then
          {s with graph:=graph.pushLimit edge .skippedDepth}
        else if s.reports.length+s.queue.length+1 ≥ graph.maxNodes then
          {s with graph:=graph.pushLimit edge .skippedNodeLimit}
        else admitChild {s with graph} cur child edge

/-- One turn of the innermost running loop; `none` once the queue is empty. -/
def step (sorter : StdSort) (env : Environment) (s : GraphLoop) : Option GraphLoop :=
  match s.current with
  | some {node,report,children:=child::children} =>
    let next := s.considerChild node child (env.probe s.reports.length child.path)
    some {next with current:=some { node, report, children }}
  | some {node,report,children:=[]} =>
    some {s with reports:=s.reports++[{ node, report }],current:=none}
  | none =>
    match s.queue with
    | [] => none
    | cur::queue => some (analyzeNext sorter env {s with queue} cur)

end GraphLoop

end AutoRefirst.ArtifactGraph
