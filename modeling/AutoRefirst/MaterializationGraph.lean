import AutoRefirst.OrderedMap
import AutoRefirst.RuntimeTimeline
import AutoRefirst.Word64
import Mathlib.Data.List.Dedup

/-!
# The materialisation graph

The builder follows the events of a run. A node is a piece of code that may be executed, and
its generation says how many times code has written code before it. Nodes are named by their
position, from one on.
-/

namespace AutoRefirst.Materialization

inductive CoordinateSpace
  | unknown | fileOffset | rva | va | serializedOffset | memoryRegionRelative | token | index
  deriving DecidableEq

inductive CoordinateBasis
  | unknown | currentInputFile | currentInputImage | artifactFile | artifactImage | processImage
  | memoryRegion
  deriving DecidableEq

inductive MaterializationNodeKind
  | originalImage | originalImageRegion | anonymousRegion | memfdBacking | oTmpfileBacking
  | releasedFile | crossProcessRegion | replacementImage | memoryDump | reconstructedImage
  | installedValidatedImage
  deriving DecidableEq

inductive MaterializationEdgeKind
  | allocatedFrom | writtenFrom | mutatedFrom | copiedFrom | materializedByRuntime
  | protectedExecutable | firstExecutedAs | dumpedAs | reconstructedAs | execHandoffTo
  | installedAs | childInherited
  deriving DecidableEq

structure MaterializationNode where
  id : ℕ := 0
  kind : MaterializationNodeKind := .anonymousRegion
  generation : Option ℕ := none
  (executed crossProcess : Bool := false)
  (processUid pid : ℕ := 0)
  threadId : Option ℕ := none
  creatorProcessUid : ℕ := 0
  creatorThreadId : Option ℕ := none
  writerProcessUid : ℕ := 0
  (writerThreadId writerExecutionGeneration : Option ℕ := none)
  (writeFirstSeq writeLastSeq firstExecutionProcessUid : ℕ := 0)
  firstExecutionThreadId : Option ℕ := none
  (firstExecutionSeq firstExecutionAddress seq tUs : ℕ := 0)
  coordinateSpace : CoordinateSpace := .unknown
  coordinateBasis : CoordinateBasis := .unknown
  (address size : ℕ := 0)
  (backingIdentity backingPath : String := "")
  (device inode : ℕ := 0)
  sha256 : String := ""
  evidenceState : String := "OBSERVED"
  (image detail : String := "")

structure MaterializationEdge where
  id : ℕ
  sourceNode : Option ℕ
  destinationNode : ℕ
  kind : MaterializationEdgeKind
  sourceGeneration : Option ℕ := none
  writerExecutionGeneration : Option ℕ
  processUid : ℕ
  threadId : Option ℕ
  (seq tUs : ℕ)
  coordinateBasis : CoordinateBasis
  (address size : ℕ)
  (evidenceState detail : String)

structure RuntimeSemanticDivergence where
  (seq processUid : ℕ := 0)
  (kind staticExpectation runtimeObservation : String)
  evidenceState : String := "CONFIRMED"

structure RuntimeArtifact where
  (kind state path : String := "")
  (processUid pid : ℕ := 0)
  detail : String := ""
  fields : Fields := []

structure ReplacementReport where
  performed : Bool := false
  (target originalSha256 newSha256 : String := "")

structure NodeState where
  (writeConfirmed executableTransition exactExecHandoff zeroInitializedBasis writeEdgeEmitted
    : Bool := false)
  (writerExecutionGeneration byteSourceGeneration executorPriorGeneration mutationParentGeneration
    executorTid : Option ℕ := none)

structure BackingKey where
  processUid : ℕ
  kind : String
  backingId : ℕ
  deriving DecidableEq, Ord

structure RegionKey where
  (processUid start stop code : ℕ)
  deriving DecidableEq, Ord

/-- What the builder is given: the artifacts of the run, and the files they name. -/
structure Environment where
  linux : Bool := true
  artifacts : List RuntimeArtifact := []
  timedOut : Bool := false
  replacement : Option ReplacementReport := none
  fileNonzero : String → Bool := fun _ => false
  fileSha256 : String → String := fun _ => ""

structure Builder where
  nodes : ℕ → MaterializationNode := fun _ => {}
  states : ℕ → NodeState := fun _ => {}
  nodeCount : ℕ := 0
  edges : List MaterializationEdge := []
  divergences : List RuntimeSemanticDivergence := []
  original : ℕ → Option ℕ := fun _ => none
  (threadGeneration threadNode : ℕ×ℕ → Option ℕ := fun _ => none)
  backings : OrderedMap BackingKey ℕ := []
  regions : OrderedMap RegionKey ℕ := []
  artifacts : String → Option ℕ := fun _ => none
  processesWithGeneratedExecution : ℕ → Bool := fun _ => false
  latestExecutedNode : ℕ → Option ℕ := fun _ => none

def artifactNonzero (env : Environment) (a : RuntimeArtifact) : Bool :=
  a.path != "" && env.fileNonzero a.path

def artifactSha (env : Environment) (a : RuntimeArtifact) : String :=
  match field a.fields "snapshot_sha256", field a.fields "post_exec_snapshot_sha256" with
  | some s, _ => s
  | none, some s => s
  | none, none => if a.path = "" then "" else env.fileSha256 a.path

def backingNonzeroCapture (env : Environment) (processUid backingId : ℕ) : Bool :=
  env.artifacts.any fun a =>
    (a.kind == "materialized_region" || a.kind == "runtime_backing_elf") &&
      a.processUid == processUid && fu64 a.fields "backing_id" == some backingId &&
      artifactNonzero env a

def regionRange (a : RuntimeArtifact) : Option ℕ×ℕ :=
  let start := (fu64 a.fields "memory_address").or (fu64 a.fields "region_start")
  let size := match fu64 a.fields "memory_size", fu64 a.fields "region_end", start with
    | some z, _, _ => z
    | none, some e, some s => if e > s then e-s else 0
    | none, _, _ => 0
  (start,size)

/-- The last capture of exactly this region has bytes that are not zero. -/
def regionNonzeroCapture (env : Environment) (processUid start stop : ℕ) : Bool :=
  env.artifacts.foldl (fun known a =>
    let r := regionRange a
    if a.kind = "materialized_region" ∧ a.processUid = processUid ∧ r.1 = some start ∧ r.2 ≠ 0 ∧
        Word64.add start r.2 = stop
      then artifactNonzero env a else known) false

def hasText (part : String) (s : String) : Bool := s.toList.tails.any part.toList.isPrefixOf

def backingKind (k : String) : MaterializationNodeKind :=
  if hasText "tmpfile" k then .oTmpfileBacking
  else if hasText "released_file" k then .releasedFile
  else .memfdBacking

def strippedKind (k : String) : String :=
  if "runtime_".toList.isPrefixOf k.toList then String.ofList (k.toList.drop 8) else k

def imageKind (k : MaterializationNodeKind) : Bool :=
  k == .originalImage || k == .originalImageRegion || k == .replacementImage ||
    k == .reconstructedImage || k == .installedValidatedImage

def memoryKind (k : MaterializationNodeKind) : Bool :=
  k == .anonymousRegion || k == .memfdBacking || k == .oTmpfileBacking || k == .releasedFile ||
    k == .crossProcessRegion

def executableProtection (f : Fields) : Bool :=
  fieldIs f "armed_execute_breakpoint" "true" || fieldIs f "materialization_candidate" "true" ||
    match (field f "requested_prot").bind parseU64 with
    | none => false
    | some v => v &&& 4 != 0 || v == 0x10 || v == 0x20 || v == 0x40 || v == 0x80

def eventTid (env : Environment) (e : TimelineEvent) : Option ℕ :=
  match ["writer_tid","thread_id","executor_tid","backing_executor_tid",
      "creator_tid"].findSome? fun k => fu32 e.fields k with
  | some t => some t
  | none =>
    if ["root_thread","child_thread","root_process","child_process",
        "descendant_process"].any fun s => field e.fields "scope" == some s then some e.pid
    else if e.kind = .fileWrite then some e.pid
    else if e.kind = .processStart ∧ e.subject = "runtime_backing_exec_handoff" then some e.pid
    else if env.linux && (e.kind == .memoryAllocate || e.kind == .memoryProtect ||
        e.kind == .memoryWrite || e.kind == .fileCreate || e.kind == .materializedExecute) then
      some e.pid
    else none

def imageRelation (e : TimelineEvent) : Option String :=
  (field e.fields "image_relation").or (field e.fields "target_image_relation")

def regionCode : MaterializationNodeKind → ℕ
  | .originalImage => 0
  | .originalImageRegion => 1
  | .anonymousRegion => 2
  | .memfdBacking => 3
  | .oTmpfileBacking => 4
  | .releasedFile => 5
  | .crossProcessRegion => 6
  | .replacementImage => 7
  | .memoryDump => 8
  | .reconstructedImage => 9
  | .installedValidatedImage => 10

def regionKind (e : TimelineEvent) (cross : Bool) : MaterializationNodeKind :=
  if imageRelation e = some "replacement_at_original_base" then .replacementImage
  else if imageRelation e = some "original_image" then .originalImageRegion
  else if cross then .crossProcessRegion
  else .anonymousRegion

namespace Builder

def addNode (b : Builder) (n : MaterializationNode) : ℕ×Builder :=
  (b.nodeCount+1,
    { b with
      nodes:=Function.update b.nodes (b.nodeCount+1) {n with id:=b.nodeCount+1}
      states:=Function.update b.states (b.nodeCount+1) {},nodeCount:=b.nodeCount+1 })

def modifyNode (b : Builder) (id : ℕ) (f : MaterializationNode→MaterializationNode) : Builder :=
  {b with nodes:=Function.update b.nodes id (f (b.nodes id))}

def modifyState (b : Builder) (id : ℕ) (f : NodeState→NodeState) : Builder :=
  {b with states:=Function.update b.states id (f (b.states id))}

def nameBacking (b : Builder) (key : BackingKey) (id : ℕ) : Builder :=
  {b with backings:=b.backings.insert key id}

def nameRegion (b : Builder) (key : RegionKey) (id : ℕ) : Builder :=
  {b with regions:=b.regions.insert key id}

/-- The thread runs in the node from now on. -/
def enterNode (b : Builder) (processUid tid generation id : ℕ) : Builder :=
  { b with
    threadGeneration:=Function.update b.threadGeneration (processUid,tid) (some generation)
    threadNode:=Function.update b.threadNode (processUid,tid) (some id) }

def noteDivergence (b : Builder) (d : RuntimeSemanticDivergence) : Builder :=
  {b with divergences:=b.divergences++[d]}

/-- The nodes in their order. -/
def nodeList (b : Builder) : List MaterializationNode :=
  (List.range b.nodeCount).map fun i => b.nodes (i+1)

def addEdge (b : Builder) (env : Environment) (src : Option ℕ) (dst : ℕ)
    (kind : MaterializationEdgeKind) (e : Option TimelineEvent) (evidence detail : String)
    (writerGen : Option ℕ) : Builder :=
  let n := b.nodes dst
  { b with edges:=b.edges ++
      [{ id:=b.edges.length+1
         sourceNode:=src,destinationNode:=dst,kind,writerExecutionGeneration:=writerGen
         processUid:=(e.map TimelineEvent.processUid).getD n.processUid
         threadId := match e with
           | some e => eventTid env e
           | none => n.threadId
         seq:=(e.map TimelineEvent.seq).getD n.seq,tUs:=(e.map TimelineEvent.tUs).getD n.tUs
         coordinateBasis:=n.coordinateBasis,address:=n.address,size:=n.size,evidenceState:=evidence
         detail }] }

def placeLastEdge (b : Builder) (address : ℕ) (size : Option ℕ) : Builder :=
  { b with edges:=b.edges.dropLast++(b.edges.getLast?.map fun x =>
      {x with address:=address,size:=size.getD x.size}).toList }

section

variable (b : Builder) (env : Environment) (e : TimelineEvent)

def activeGeneration : Option ℕ :=
  (eventTid env e).bind fun t => b.threadGeneration (e.processUid,t)

def activeNode : Option ℕ :=
  (eventTid env e).bind fun t => b.threadNode (e.processUid,t)

def ensureOriginal : Builder :=
  match b.original e.processUid with
  | some _ => b
  | none =>
    let r := b.addNode
      { kind:=.originalImage,generation:=some 0
        executed:=true,processUid:=e.processUid,pid:=e.pid,creatorProcessUid:=e.processUid
        creatorThreadId:=eventTid env e,firstExecutionProcessUid:=e.processUid
        firstExecutionThreadId:=eventTid env e,firstExecutionSeq:=e.seq,seq:=e.seq,tUs:=e.tUs
        coordinateSpace:=.va,coordinateBasis:=.processImage,image:=e.processImage
        backingPath:=e.processImage
        backingIdentity := "process:"++toString e.processUid++":original_image"
        evidenceState := "CONFIRMED",detail := "process image observed at runtime start" }
    let b := { r.2 with
      original:=Function.update r.2.original e.processUid (some r.1)
      latestExecutedNode:=Function.update r.2.latestExecutedNode e.processUid (some r.1) }
    b.enterNode e.processUid ((fu32 e.fields "initial_thread_id").getD e.pid) 0 r.1

variable (processUid : ℕ)

def ensureBacking (kind : String) (bid : ℕ) : ℕ×Builder :=
  match b.backings.find ⟨processUid,kind,bid⟩ with
  | some id => (id,b)
  | none =>
    let r := b.addNode
      { kind:=backingKind kind,processUid,pid:=e.pid,threadId:=eventTid env e
        creatorProcessUid:=(fu64 e.fields "backing_creator_process_uid").getD processUid
        creatorThreadId:=((fu32 e.fields "backing_creator_tid").or
          (fu32 e.fields "creator_tid")).or (eventTid env e)
        seq:=e.seq,tUs:=e.tUs
        backingIdentity := "process:"++toString processUid++":"++kind++":"++toString bid
        backingPath:=(field e.fields "backing_path").getD ""
        device:=(fu64 e.fields "backing_device").getD 0
        inode:=(fu64 e.fields "backing_inode").getD 0,image:=e.processImage
        evidenceState := "CONFIRMED",detail := "runtime-created backing identity" }
    let b := r.2.nameBacking ⟨processUid,kind,bid⟩ r.1
    (r.1,b.modifyState r.1 fun s =>
      { s with
        zeroInitializedBasis:=true
        writeConfirmed:=s.writeConfirmed || backingNonzeroCapture env processUid bid })

def hex (n : ℕ) : String := String.ofList (Nat.toDigits 16 n)

def ensureRegion (start stop : ℕ) (kind : MaterializationNodeKind) (cross : Bool) : ℕ×Builder :=
  let stop := if stop ≤ start then Word64.add start 1 else stop
  let key : RegionKey := ⟨processUid,start,stop,regionCode kind⟩
  match b.regions.find key with
  | some id => (id,b)
  | none =>
    match b.regions.find? fun kv => kv.1.processUid == processUid && kv.1.code == regionCode kind &&
        decide (kv.1.start < stop) && decide (kv.1.stop > start) with
    | some kv => (kv.2,b)
    | none =>
      let r := b.addNode
        { kind
          processUid
          pid := if processUid = e.processUid then e.pid else (fu32 e.fields "target_pid").getD 0
          threadId := if processUid = e.processUid then eventTid env e else none,seq:=e.seq
          tUs:=e.tUs,coordinateSpace:=.va,coordinateBasis:=.memoryRegion,address:=start
          size:=Word64.sub stop start,image:=e.processImage,crossProcess:=cross
          evidenceState := "OBSERVED"
          backingIdentity := "process:"++toString processUid++":va:0x"++hex start++"-0x" ++
            hex stop }
      let b := r.2.nameRegion key r.1
      (r.1,b.modifyState r.1 fun s =>
        { s with
          writeConfirmed:=s.writeConfirmed || regionNonzeroCapture env processUid start stop })

def existingRegion (b : Builder) (processUid start stop : ℕ) : Option ℕ :=
  let stop := if stop ≤ start then Word64.add start 1 else stop
  (b.regions.find? fun kv => kv.1.processUid == processUid && decide (kv.1.start < stop) &&
    decide (kv.1.stop > start)).map Prod.snd

def existingRegionForExecution (b : Builder) (e : TimelineEvent) : Option ℕ :=
  match ((fu64 e.fields "range_start").or (fu64 e.fields "address")).or (parseU64 e.subject) with
  | none => none
  | some start =>
    let stop := (fu64 e.fields "range_end").getD
      (Word64.add start (max 1 ((fu64 e.fields "size").getD 1)))
    (b.regions.find? fun kv =>
      kv.1.processUid == e.processUid && decide (kv.1.start < stop) && decide (kv.1.stop > start) &&
        (kv.1.code == regionCode .crossProcessRegion || kv.1.code == regionCode .replacementImage ||
          kv.1.code == regionCode .originalImageRegion)).map Prod.snd

def eventRegion (cross : Bool) : ℕ×Builder :=
  let start := (fu64 e.fields "range_start").or (fu64 e.fields "address")
  let size := (fu64 e.fields "written_bytes").getD ((fu64 e.fields "size").getD 1)
  let stop := (fu64 e.fields "range_end").or (start.map fun s => Word64.add s (max 1 size))
  let start := start.or (parseU64 e.subject)
  b.ensureRegion env e processUid (start.getD 0)
    (stop.getD (Word64.add (start.getD 0) (max 1 size))) (regionKind e cross) cross

/-- The generation that an execution of the node gives it, when its bytes are known to be
written: one more than that of the code which wrote them. -/
def nextGeneration (b : Builder) (id : ℕ) : Option ℕ :=
  match (b.states id).mutationParentGeneration.or (b.states id).writerExecutionGeneration with
  | some base => some ((base+1) % 2^32)
  | none => if b.processesWithGeneratedExecution (b.nodes id).processUid then none else some 1

def assignGeneration (b : Builder) (id : ℕ) : Builder :=
  if (b.nodes id).generation.isSome || !(b.states id).writeConfirmed then b
  else b.modifyNode id fun n =>
    { n with
      generation:=b.nextGeneration id
      evidenceState := if (b.nextGeneration id).isSome then "CONFIRMED" else "PROVENANCE_UNKNOWN" }

/-- The mapping of `prior` continues as a new node, on an edge that says where the bytes
changed. -/
def rollOver (start stop prior : ℕ) : ℕ×Builder :=
  let r := b.addNode
    { kind:=.anonymousRegion,processUid
      pid:=e.pid,threadId:=eventTid env e,creatorProcessUid:=(b.nodes prior).creatorProcessUid
      creatorThreadId:=(b.nodes prior).creatorThreadId,writerProcessUid:=e.processUid
      writerThreadId:=eventTid env e,writeFirstSeq:=e.seq,writeLastSeq:=e.seq,seq:=e.seq,tUs:=e.tUs
      coordinateSpace:=.va,coordinateBasis:=.memoryRegion,address:=start,size:=stop-start
      image:=e.processImage,evidenceState := "CONFIRMED"
      backingIdentity:=(b.nodes prior).backingIdentity++":mutation:"++toString e.seq
      detail := "same anonymous mapping bytes changed after a prior confirmed execution; " ++
        "awaiting post-mutation execution before assigning the next generation" }
  let c := (r.2.nameRegion ⟨processUid,start,stop,regionCode .anonymousRegion⟩ r.1).modifyState
    r.1 fun s =>
      { s with
        writeConfirmed:=true,writeEdgeEmitted:=true
        mutationParentGeneration:=(b.nodes prior).generation }
  let c := c.addEdge env (some prior) r.1 .mutatedFrom (some e) "CONFIRMED"
    ("bounded same-mapping byte mutation observed after prior confirmed execution; " ++
      "generation advances only if this mutated mapping is later actually executed") none
  match fu64 e.fields "range_start", fu64 e.fields "range_end" with
  | some rs, some re => (r.1,c.placeLastEdge rs (if re > rs then some (re-rs) else none))
  | some rs, none => (r.1,c.placeLastEdge rs none)
  | none, _ => (r.1,c)

/-- A mapping that was executed and is written again continues as a node of its own. -/
def rollSameMappingMutation : Option (ℕ×Builder) :=
  if !fieldIs e.fields "runtime_mutation_generation_candidate" "true" then none
  else match fu64 e.fields "mapping_range_start", fu64 e.fields "mapping_range_end" with
  | some start, some stop =>
    if stop ≤ start then none
    else match b.regions.find ⟨processUid,start,stop,regionCode .anonymousRegion⟩ with
    | none => none
    | some prior =>
      if (b.nodes prior).kind ≠ .anonymousRegion ∨ (b.nodes prior).executed = false ∨
          (b.nodes prior).generation = none then none
      else some (b.rollOver env e processUid start stop prior)
  | _, _ => none

variable (id : ℕ)

/-- Bytes that are known to be written without a known writer get an edge of their own. -/
def noteUnknownWriter (detail : String) : Builder :=
  if (b.states id).writeConfirmed && !(b.states id).writeEdgeEmitted then
    (b.addEdge env none id .materializedByRuntime (some e) "CONFIRMED" detail none).modifyState id
      fun s => {s with writeEdgeEmitted:=true}
  else b

def firstExecution (env : Environment) (e : TimelineEvent) (address : Option ℕ)
    (n : MaterializationNode) : MaterializationNode :=
  if n.firstExecutionSeq = 0 then
    { n with
      firstExecutionProcessUid:=e.processUid,firstExecutionThreadId:=eventTid env e
      firstExecutionSeq:=e.seq,firstExecutionAddress:=address.getD n.firstExecutionAddress }
  else n

def enterThread (generation id : ℕ) : Builder :=
  match eventTid env e with
  | none => b
  | some tid => b.enterNode e.processUid tid generation id

def executedLast (b : Builder) (processUid id : ℕ) : Builder :=
  {b with latestExecutedNode:=Function.update b.latestExecutedNode processUid (some id)}

def threadStart : Builder :=
  match eventTid env e, fu32 e.fields "parent_thread_tid" with
  | some tid, some pt =>
    { b with
      threadGeneration := match b.threadGeneration (e.processUid,pt) with
        | some g => Function.update b.threadGeneration (e.processUid,tid) (some g)
        | none => b.threadGeneration
      threadNode := match b.threadNode (e.processUid,pt) with
        | some n => Function.update b.threadNode (e.processUid,tid) (some n)
        | none => b.threadNode }
  | _, _ => b

/-- What an exec handoff shows about the backing. -/
def handOver (bk bid : ℕ) : Builder :=
  let b := b.modifyState bk fun s =>
    { s with
      exactExecHandoff:=true,executableTransition:=true
      writeConfirmed:=s.writeConfirmed ||
        decide ((fu64 e.fields "backing_write_bytes").getD 0 > 0) ||
        backingNonzeroCapture env e.processUid bid }
  b.noteUnknownWriter env e bk
    ("runtime backing contains materialized bytes before exact exec handoff; writer identity, " ++
      "write time, and source byte generation remain UNKNOWN")

def execBacking (bk bid : ℕ) : Builder :=
  ((b.handOver env e bk bid).assignGeneration bk).modifyNode bk fun n =>
    { firstExecution env e none {n with executed:=true} with
      evidenceState := if n.generation.isSome then "CONFIRMED" else "PROVENANCE_UNKNOWN" }

/-- The process image takes over what is known about the backing. -/
def takeImage (bk repl : ℕ) : Builder :=
  let n := b.nodes bk
  let c := b.modifyNode repl fun m =>
    { m with
      backingIdentity:=n.backingIdentity
      backingPath:=(field e.fields "exec_image_path").getD n.backingPath,coordinateSpace:=.unknown
      coordinateBasis:=.processImage,address:=0,size:=0,executed:=true,generation:=n.generation
      creatorProcessUid:=n.creatorProcessUid,creatorThreadId:=n.creatorThreadId
      writerProcessUid:=n.writerProcessUid,writerThreadId:=n.writerThreadId
      writerExecutionGeneration:=n.writerExecutionGeneration,writeFirstSeq:=n.writeFirstSeq
      writeLastSeq:=n.writeLastSeq,firstExecutionProcessUid:=e.processUid
      firstExecutionThreadId:=eventTid env e,firstExecutionSeq:=e.seq }
  let c := c.modifyState repl fun s =>
    {s with writeConfirmed:=(b.states bk).writeConfirmed,exactExecHandoff:=true}
  c.addEdge env (some bk) repl .execHandoffTo (some e) "CONFIRMED"
    "exact runtime backing identity matched executed image" none

/-- The process continues in the image that the backing holds. -/
def replaceImage (bk repl : ℕ) : Builder :=
  let c := b.takeImage env e bk repl
  match (c.nodes repl).generation with
  | none => c
  | some g => (c.executedLast e.processUid repl).enterThread env e g repl

def execHandoff (kind : String) (bid : ℕ) : Builder :=
  let r := b.ensureBacking env e e.processUid kind bid
  let c := r.2.execBacking env e r.1 bid
  let q := c.ensureRegion env e e.processUid 0 1 .replacementImage false
  q.2.replaceImage env e r.1 q.1

def copyBacking (parent child : ℕ) : Builder :=
  let n := b.nodes parent
  let c := b.modifyNode child fun m =>
    { m with
      backingPath:=n.backingPath,device:=n.device,inode:=n.inode
      creatorProcessUid:=n.creatorProcessUid,creatorThreadId:=n.creatorThreadId
      writerProcessUid:=n.writerProcessUid,writerThreadId:=n.writerThreadId
      writerExecutionGeneration:=n.writerExecutionGeneration,writeFirstSeq:=n.writeFirstSeq
      writeLastSeq:=n.writeLastSeq,generation:=n.generation }
  let c := c.modifyState child fun _ => b.states parent
  c.addEdge env (some parent) child .childInherited (some e) "CONFIRMED"
    "runtime backing identity inherited across child creation" none

def inheritBacking (bid : ℕ) : Builder :=
  match b.backings.find? fun kv => kv.1.processUid == e.parentUid && kv.1.backingId == bid with
  | none => b
  | some (key,parent) =>
    let r := b.ensureBacking env e e.processUid key.kind key.backingId
    r.2.copyBacking env e parent r.1

def splitComma (s : String) : List (List Char) :=
  s.toList.foldr (fun c parts =>
    if c = ',' then []::parts
    else match parts with
      | [] => [[c]]
      | part::parts => (c::part)::parts) [[]]

def inheritedIds (e : TimelineEvent) : List ℕ :=
  match field e.fields "inherited_backing_ids" with
  | none => []
  | some ids =>
    if e.parentUid = 0 then []
    else (splitComma ids).filterMap fun tok => parseU64 (String.ofList tok)

def namedBacking (e : TimelineEvent) : Option (String×ℕ) :=
  match fu64 e.fields "backing_id", field e.fields "backing_kind" with
  | some bid, some kind => some (strippedKind kind,bid)
  | _, _ => none

def isThreadStart (e : TimelineEvent) : Bool :=
  field e.fields "scope" == some "root_thread" || field e.fields "scope" == some "child_thread"

def isExecHandoff (e : TimelineEvent) : Bool :=
  e.subject == "runtime_backing_exec_handoff" &&
    fieldIs e.fields "exec_image_identity_match" "true"

def plainStart : Builder :=
  (inheritedIds e).foldl (fun b bid => b.inheritBacking env e bid) (b.ensureOriginal env e)

def startEvent : Builder :=
  if isThreadStart e then b.threadStart env e
  else if isExecHandoff e then
    match namedBacking e with
    | some (kind,bid) => b.execHandoff env e kind bid
    | none => b.plainStart env e
  else b.plainStart env e

def targetUid (e : TimelineEvent) : ℕ := (fu64 e.fields "target_process_uid").getD e.processUid

def imageMaterialization (e : TimelineEvent) : Bool :=
  imageRelation e == some "original_image" ||
    imageRelation e == some "replacement_at_original_base"

def allocationNode : Option (ℕ×Builder) :=
  match namedBacking e with
  | some (kind,bid) => some (b.ensureBacking env e e.processUid kind bid)
  | none =>
    let cross := targetUid e != e.processUid
    if fieldIs e.fields "anonymous" "true" || fieldIs e.fields "materialization_candidate" "true" ||
        cross || imageMaterialization e then
      let r := b.eventRegion env e (targetUid e) cross
      let b := r.2.modifyState r.1 fun s =>
        { s with zeroInitializedBasis:=fieldIs e.fields "anonymous" "true" ||
            fieldIs e.fields "materialization_candidate" "true" }
      some (r.1,b.modifyNode r.1 fun n =>
        { n with
          creatorProcessUid:=e.processUid,creatorThreadId:=eventTid env e
          crossProcess:=n.crossProcess || cross })
    else none

def allocationEvent : Builder :=
  match b.allocationNode env e with
  | none => b
  | some r => r.2.addEdge env (r.2.activeNode env e) r.1 .allocatedFrom (some e) "OBSERVED"
      "allocation/mapping fact only; does not assign a generation" (r.2.activeGeneration env e)

def writeConfirmedBy (e : TimelineEvent) : Bool :=
  ((field e.fields "success").all fun s => s == "true") &&
    ((field e.fields "state").all fun s =>
      s == "CONFIRMED" || s == "CHANGED_SINCE_PROCESS_CREATE") &&
    (fu64 e.fields "written_bytes").getD 1 != 0

def mutationCandidate (e : TimelineEvent) : Bool :=
  writeConfirmedBy e && fieldIs e.fields "runtime_mutation_generation_candidate" "true"

def writeNode : ℕ×Builder :=
  match namedBacking e with
  | some (kind,bid) => b.ensureBacking env e e.processUid kind bid
  | none =>
    let cross := targetUid e != e.processUid
    let rolled := if mutationCandidate e then b.rollSameMappingMutation env e (targetUid e)
      else none
    rolled.getD (b.eventRegion env e (targetUid e) cross)

def noteWrite : Builder :=
  (b.modifyState id fun s => {s with writeConfirmed:=true}).modifyNode id fun n =>
    { n with
      writerProcessUid:=e.processUid,writerThreadId:=eventTid env e
      writeFirstSeq := if n.writeFirstSeq = 0 then e.seq else n.writeFirstSeq,writeLastSeq:=e.seq
      evidenceState := "CONFIRMED" }

def recordWrite : Builder :=
  let b := b.noteWrite env e id
  if mutationCandidate e then b
  else
    let wg := b.activeGeneration env e
    (b.modifyState id fun s => {s with writerExecutionGeneration:=wg}).modifyNode id fun n =>
      {n with writerExecutionGeneration:=wg}

def byteSource (b : Builder) (e : TimelineEvent) : Option MaterializationNode :=
  (fu64 e.fields "source_buffer").bind fun sb => b.nodeList.find? fun n =>
    n.processUid == e.processUid && n.address != 0 && n.size != 0 && decide (sb ≥ n.address) &&
      decide (sb < Word64.add n.address n.size) && n.generation.isSome

def noteByteSource (b : Builder) (id : ℕ) : Option MaterializationNode → Builder
  | some n => b.modifyState id fun s => {s with byteSourceGeneration:=n.generation}
  | none => b

def isImageRegion (b : Builder) (id : ℕ) : Bool := (b.nodes id).kind == .originalImageRegion

def imageEdge : Builder :=
  if b.isImageRegion id then
    b.addEdge env (b.original (if (namedBacking e).isSome then e.processUid else targetUid e)) id
      .mutatedFrom (some e) (if writeConfirmedBy e then "CONFIRMED" else "FAILED")
      ("original image region differs from the process-create baseline; incoming byte source " ++
        "may remain UNKNOWN") (b.activeGeneration env e)
  else b

def byteEdge : Option MaterializationNode → Builder
  | some n => b.addEdge env (some n.id) id .writtenFrom (some e)
      (if writeConfirmedBy e then "CONFIRMED" else "FAILED")
      "source buffer lies inside a generation-known runtime node" (b.activeGeneration env e)
  | none =>
    if b.isImageRegion id then b
    else b.addEdge env (b.activeNode env e) id .materializedByRuntime (some e)
      (if writeConfirmedBy e then "CONFIRMED" else "FAILED")
      "runtime write observed; source byte generation intentionally UNKNOWN"
      (b.activeGeneration env e)

def writeEdges : Builder :=
  let src := b.byteSource e
  let c := ((b.noteByteSource id src).imageEdge env e id).byteEdge env e id src
  if writeConfirmedBy e then c.modifyState id fun s => {s with writeEdgeEmitted:=true} else c

def writeEvent : Builder :=
  let r := b.writeNode env e
  let b := if writeConfirmedBy e then r.2.recordWrite env e r.1 else r.2
  if mutationCandidate e && (b.states r.1).mutationParentGeneration.isSome then b
  else b.writeEdges env e r.1

def protectNode : Option (ℕ×Builder) :=
  match namedBacking e with
  | some (kind,bid) => some (b.ensureBacking env e e.processUid kind bid)
  | none =>
    let cross := targetUid e != e.processUid
    let start := (fu64 e.fields "range_start").or (fu64 e.fields "address")
    let stop := (fu64 e.fields "range_end").or (start.map fun s =>
      Word64.add s (max 1 ((fu64 e.fields "size").getD 1)))
    match start.bind fun s => b.existingRegion (targetUid e) s (stop.getD (Word64.add s 1)) with
    | some id => some (id,b)
    | none =>
      if fieldIs e.fields "materialization_candidate" "true" ||
          fieldIs e.fields "armed_execute_breakpoint" "true" || cross || imageMaterialization e then
        some (b.eventRegion env e (targetUid e) cross)
      else none

def protectEvent : Builder :=
  if !executableProtection e.fields then b
  else match b.protectNode env e with
  | none => b
  | some r =>
    let b := r.2.modifyState r.1 fun s => {s with executableTransition:=true}
    b.addEdge env (some r.1) r.1 .protectedExecutable (some e)
      (if fieldIs e.fields "success" "false" then "FAILED" else "CONFIRMED")
      "observed executable protection/arm; generation is not assigned by protection alone" none

def executeNode : ℕ×Builder :=
  match namedBacking e with
  | some (kind,bid) =>
    let r := b.ensureBacking env e e.processUid kind bid
    (r.1,r.2.modifyState r.1 fun s =>
      { s with writeConfirmed:=s.writeConfirmed ||
          backingNonzeroCapture env e.processUid bid ||
          decide ((fu64 e.fields "backing_write_bytes").getD 0 > 0) })
  | none =>
    let existing := b.existingRegionForExecution e
    let r := b.eventRegion env e e.processUid false
    let id := existing.getD r.1
    let n := r.2.nodes id
    let captured := regionNonzeroCapture env e.processUid n.address (Word64.add n.address n.size) &&
      n.kind == .anonymousRegion
    (id,r.2.modifyState id fun s =>
      { s with
        writeConfirmed:=s.writeConfirmed || captured ||
          decide ((fu64 e.fields "changed_bytes").getD 0 > 0)
        zeroInitializedBasis:=s.zeroInitializedBasis || captured })

def markExecuted : Builder :=
  b.modifyNode id fun n =>
    { firstExecution env e (fu64 e.fields "address")
        { n with
          executed:=true,threadId:=eventTid env e
          evidenceState :=
            if n.generation.isNone then "PROVENANCE_UNKNOWN" else n.evidenceState } with
      seq:=e.seq
      tUs:=e.tUs }

def executionEdge : Builder :=
  let c := b.addEdge env (some id) id .firstExecutedAs (some e) "CONFIRMED"
    (if (b.nodes id).generation.isSome then "first execution of confirmed runtime materialization"
      else "execution observed without sufficient prior write/source evidence") none
  match fu64 e.fields "address" with
  | some a => c.placeLastEdge a (some 1)
  | none => c

/-- The node is executed, and the thread goes on in it when its generation is known. -/
def runNode : Builder :=
  let b := (b.markExecuted env e id).executionEdge env e id
  match (b.nodes id).generation with
  | none => b
  | some g =>
    let b := { b with
      processesWithGeneratedExecution :=
        Function.update b.processesWithGeneratedExecution e.processUid true }
    (b.executedLast e.processUid id).enterThread env e g id

/-- What an execution shows about the bytes of the node. -/
def observeExecution : Builder :=
  let b := b.modifyState id fun s => {s with executableTransition:=true}
  let b := b.noteUnknownWriter env e id
    ("nonzero execution-time bytes prove materialization of a runtime-created zero-based " ++
      "region/backing; writer identity, write time, and source byte generation remain UNKNOWN")
  b.modifyState id fun s =>
    {s with executorPriorGeneration:=b.activeGeneration env e,executorTid:=eventTid env e}

def executeEvent : Builder :=
  let r := b.executeNode env e
  let b := ((r.2.observeExecution env e r.1).assignGeneration r.1).runNode env e r.1
  if (b.nodes r.1).kind = .originalImageRegion ∧ (fu64 e.fields "changed_bytes").getD 0 > 0 then
    b.noteDivergence
      { seq:=e.seq,processUid:=e.processUid,kind := "EXECUTION_TIME_IMAGE_BYTES_CHANGED"
        staticExpectation := "process-create original-image executable baseline"
        runtimeObservation := "first executed region differs from baseline" }
  else b

end

def initialImage (b : Builder) (e : TimelineEvent) : String :=
  match b.original e.processUid with
  | some id => (b.nodes id).image
  | none => e.processImage

def semanticExecHandoffDivergence (b : Builder) (e : TimelineEvent) : Builder :=
  if !isExecHandoff e then b
  else match (field e.fields "exec_image_path").or (field e.fields "backing_path") with
  | none => b
  | some target =>
    if b.initialImage e ≠ "" ∧ target ≠ b.initialImage e then
      b.noteDivergence
        { seq:=e.seq,processUid:=e.processUid,kind := "RUNTIME_EXEC_TARGET_DIVERGED"
          staticExpectation := "initial_image="++b.initialImage e
          runtimeObservation := "runtime_materialized_exec_target="++target }
    else b

def step (env : Environment) (b : Builder) (e : TimelineEvent) : Builder :=
  match e.kind with
  | .processStart => (b.startEvent env e).semanticExecHandoffDivergence e
  | .memoryAllocate | .fileCreate => b.allocationEvent env e
  | .memoryWrite | .fileWrite => b.writeEvent env e
  | .memoryProtect => b.protectEvent env e
  | .materializedExecute => b.executeEvent env e
  | _ => b

def runEvents (env : Environment) (timeline : List TimelineEvent) : Builder :=
  timeline.foldl (step env) {}

def findSourceForArtifact (b : Builder) (a : RuntimeArtifact) : Option ℕ :=
  let byExecution := (fu64 a.fields "materialization_execute_seq").bind fun seq =>
    (b.nodeList.find? fun n => n.processUid == a.processUid && n.firstExecutionSeq == seq).map
      MaterializationNode.id
  let byBacking := (fu64 a.fields "backing_id").bind fun bid =>
    let kind := strippedKind ((field a.fields "backing_kind").getD "memfd")
    (b.backings.find ⟨a.processUid,kind,bid⟩).or
      ((b.backings.find? fun kv => kv.1.processUid == a.processUid && kv.1.backingId == bid).map
        Prod.snd)
  let byAddress := (regionRange a).1.bind fun start =>
    (b.nodeList.find? fun n =>
      n.processUid == a.processUid && n.address != 0 && n.size != 0 &&
        decide (start ≥ n.address) && decide (start < Word64.add n.address n.size) &&
        (b.artifacts n.backingPath).isNone).map MaterializationNode.id
  (((byExecution.or byBacking).or byAddress).or (b.latestExecutedNode a.processUid)).or
    (b.original a.processUid)

def artifactKind (a : RuntimeArtifact) : Option MaterializationNodeKind :=
  if a.kind = "materialized_region" then some .memoryDump
  else if a.kind = "reconstructed_elf" ∨ a.kind = "unpacked_pe" ∨ a.kind = "runtime_backing_elf" then
    some .reconstructedImage
  else none

/-- The node of an artifact takes over what is known about its source. -/
def inheritArtifact (m n : MaterializationNode) : MaterializationNode :=
  { m with
    generation:=n.generation,creatorProcessUid:=n.creatorProcessUid
    creatorThreadId:=n.creatorThreadId,writerProcessUid:=n.writerProcessUid
    writerThreadId:=n.writerThreadId,writerExecutionGeneration:=n.writerExecutionGeneration
    writeFirstSeq:=n.writeFirstSeq,writeLastSeq:=n.writeLastSeq
    firstExecutionProcessUid:=n.firstExecutionProcessUid
    firstExecutionThreadId:=n.firstExecutionThreadId,firstExecutionSeq:=n.firstExecutionSeq
    firstExecutionAddress:=n.firstExecutionAddress }

def installArtifact (b : Builder) (env : Environment) (a : RuntimeArtifact) (id : ℕ)
    (replacement : ReplacementReport) : Builder :=
  let r := b.addNode (inheritArtifact
    { kind:=.installedValidatedImage,executed:=true
      processUid:=a.processUid,pid:=a.pid,coordinateSpace:=.fileOffset
      coordinateBasis:=.currentInputFile,backingPath:=replacement.target
      backingIdentity:=replacement.target,sha256:=replacement.newSha256
      evidenceState := "UNPACKED_VALIDATED"
      detail := "validated runtime-derived image transactionally installed" } (b.nodes id))
  let b := r.2.addEdge env (some id) r.1 .installedAs none "CONFIRMED"
    "standalone-validated image installed at target path" none
  if replacement.originalSha256 ≠ replacement.newSha256 then
    b.noteDivergence
      { processUid:=a.processUid,kind := "INSTALLED_IMAGE_HASH_CHANGED"
        staticExpectation := "original_sha256="++replacement.originalSha256
        runtimeObservation := "installed_runtime_validated_sha256="++replacement.newSha256 }
  else b

def addArtifact (b : Builder) (env : Environment) (a : RuntimeArtifact)
    (kind : MaterializationNodeKind) : ℕ×Builder :=
  let r := b.addNode
    { kind
      processUid:=a.processUid,pid:=a.pid,coordinateSpace:=.fileOffset
      coordinateBasis:=.artifactFile,backingPath:=a.path
      backingIdentity := if a.path = "" then a.kind else a.path,sha256:=artifactSha env a
      evidenceState:=a.state,detail:=a.detail
      executed:=hasText "EXEC_HANDOFF" a.state || a.state == "UNPACKED_VALIDATED" }
  (r.1,{r.2 with artifacts:=Function.update r.2.artifacts a.path (some r.1)})

def linkArtifact (b : Builder) (env : Environment) (kind : MaterializationNodeKind) (id : ℕ)
    (src : Option ℕ) : Builder :=
  let c := match src with
    | some src => b.modifyNode id fun m => inheritArtifact m (b.nodes src)
    | none => b
  if kind = .memoryDump then
    c.addEdge env src id .dumpedAs none "CONFIRMED" "captured runtime memory artifact" none
  else c.addEdge env src id .reconstructedAs none "CONFIRMED"
    "runtime-derived reconstructed/snapshotted image artifact" none

def artifactStep (env : Environment) (b : Builder) (a : RuntimeArtifact) : Builder :=
  match artifactKind a with
  | none => b
  | some kind =>
    let r := b.addArtifact env a kind
    let c := r.2.linkArtifact env kind r.1 (r.2.findSourceForArtifact a)
    match env.replacement with
    | some replacement =>
      if a.state = "UNPACKED_VALIDATED" ∧ replacement.performed then
        c.installArtifact env a r.1 replacement
      else c
    | none => c

def artifactsPhase (env : Environment) (b : Builder) : Builder :=
  env.artifacts.foldl (artifactStep env) b

def finalEdges (b : Builder) : Builder :=
  { b with edges:=b.edges.map fun x =>
      if x.kind = .materializedByRuntime then {x with sourceGeneration:=none}
      else if x.kind ≠ .protectedExecutable ∧ x.kind ≠ .firstExecutedAs then
        { x with sourceGeneration := match x.sourceNode with
            | some src => (b.nodes src).generation
            | none => x.sourceGeneration }
      else x }

end Builder

structure MaterializationGraphSummary where
  (generationCount deepestConfirmedGeneration executedGenerationCount imageGenerationCount
    memoryOnlyGenerationCount crossProcessGenerationCount provenanceUnknownEdgeCount : ℕ)
  isPartial : Bool

structure MaterializationGraph where
  nodes : List MaterializationNode
  edges : List MaterializationEdge
  divergences : List RuntimeSemanticDivergence
  summary : MaterializationGraphSummary

def generationsOf (nodes : List MaterializationNode) (select : MaterializationNode→Bool) : List ℕ :=
  ((nodes.filter select).filterMap MaterializationNode.generation).dedup

def summarize (env : Environment) (nodes : List MaterializationNode)
    (edges : List MaterializationEdge) : MaterializationGraphSummary :=
  let gens := generationsOf nodes fun _ => true
  let image := generationsOf nodes fun n => imageKind n.kind
  let memory := generationsOf nodes fun n =>
    memoryKind n.kind && n.generation.any fun g => decide (g > 0)
  { generationCount:=gens.length,deepestConfirmedGeneration:=gens.foldl max 0
    executedGenerationCount:=(generationsOf nodes fun n => n.executed).length
    imageGenerationCount:=image.length
    memoryOnlyGenerationCount:=(memory.filter fun g => !image.contains g).length
    crossProcessGenerationCount:=(generationsOf nodes fun n => n.crossProcess).length
    provenanceUnknownEdgeCount:=(edges.filter fun x =>
      x.kind == .materializedByRuntime && x.sourceGeneration.isNone).length
    isPartial:=env.timedOut }

def buildMaterializationGraph (env : Environment) (timeline : List TimelineEvent) :
    MaterializationGraph :=
  let b := ((Builder.runEvents env timeline).artifactsPhase env).finalEdges
  { nodes:=b.nodeList,edges:=b.edges
    divergences:=b.divergences,summary:=summarize env b.nodeList b.edges }

end AutoRefirst.Materialization
