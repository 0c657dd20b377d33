import AutoRefirst.IntrospectionJson

/-!
# The CPython introspection protocol

A stream is a file of JSON lines. Each record is checked against the state of the stream:
the interpreter bound so far, the hooks that were armed and the triggers that no frame
snapshot has consumed yet.
-/

namespace AutoRefirst.CPythonIntrospection

structure EventFact where
  (event state transport hook trigger hookScope exceptionType : Bytes := [])
  (behaviorModified behaviorModifiedPresent : Bool := false)
  (threadIdent threadNativeId : ℕ := 0)
  (threadName interpreterRuntime interpreterExecutable interpreterIdentityKind interpreterIdentity
    interpreterModulesIdentity : Bytes := [])

structure Budgets where
  maxLineBytes : ℕ := 2*1024*1024
  maxJsonDepth : ℕ := 64
  maxJsonNodes : ℕ := 65536
  maxRecords : ℕ := 256
  maxEvents : ℕ := 128

structure Report where
  (attempted protocolValid : Bool := false)
  schema : ℕ := 0
  (state runtimeState parserState : Bytes := bytes "NOT_ATTEMPTED")
  transport : Bytes := []
  (recordsSeen recordsRetained : ℕ := 0)
  (recordsTruncated eventsConsumerTruncated : Bool := false)
  (hookArmedCount hookTriggeredCount frameSnapshotCount : ℕ := 0)
  events : List EventFact := []

def jstr : Option J → Option Bytes
  | some (.string s) => some s
  | _ => none

def jbool : Option J → Option Bool
  | some (.bool b) => some b
  | _ => none

def decimal (s : Bytes) : ℕ := s.foldl (fun n c => n*10+(c.toNat-0x30)) 0

/-- An unsigned number without fraction and exponent that fits 64 bits. -/
def ju64 : Option J → Option ℕ
  | some (.number s) => if s ≠ [] ∧ s.all isDigit ∧ decimal s < 2^64 then some (decimal s) else none
  | _ => none

def object : Option J → Option J
  | some (.object o) => some (.object o)
  | _ => none

def rankState (s : Bytes) : Int :=
  if s = bytes "NOT_ATTEMPTED" then 0
  else if s = bytes "TRANSPORT_FAILED" then 1
  else if s = bytes "INTERPRETER_NOT_FOUND" then 2
  else if s = bytes "PROBE_LOADED" then 3
  else if s = bytes "HOOK_ARMED" then 4
  else if s = bytes "HOOK_TRIGGERED" then 5
  else if s = bytes "FRAME_SNAPSHOT_CAPTURED" then 6
  else if s = bytes "PARTIAL" then 7
  else if s = bytes "FAILED" then 8
  else -1

def Report.updateState (r : Report) (s : Bytes) : Report :=
  if rankState s ≥ 0 ∧
      (r.runtimeState = bytes "NOT_ATTEMPTED" ∨ rankState s > rankState r.runtimeState) then
    {r with runtimeState:=s}
  else r

abbrev Key := Bytes×Bytes

structure TriggerCorrelation where
  (behaviorModified behaviorModifiedPresent : Bool := false)
  (threadIdent threadNativeId : ℕ := 0)
  (scope interpreterRuntime interpreterExecutable interpreterIdentity : Bytes := [])

structure StreamState where
  (interpreterRuntime interpreterExecutable interpreterIdentityKind interpreterIdentity
    : Bytes := [])
  armed : Key → Bool := fun _ => false
  pending : Key → Option TriggerCorrelation := fun _ => none

def EventFact.key (e : EventFact) : Key := (e.hook,e.trigger)

def EventFact.is (e : EventFact) (name : String) : Bool := e.event = bytes name

def EventFact.effectiveInterpreterIdentity (e : EventFact) : Bytes :=
  if e.interpreterIdentity ≠ [] then e.interpreterIdentity else e.interpreterModulesIdentity

def EventFact.correlation (e : EventFact) : TriggerCorrelation where
  behaviorModified := e.behaviorModified
  behaviorModifiedPresent := e.behaviorModifiedPresent
  threadIdent := e.threadIdent
  threadNativeId := e.threadNativeId
  scope := e.hookScope
  interpreterRuntime := e.interpreterRuntime
  interpreterExecutable := e.interpreterExecutable
  interpreterIdentity := e.effectiveInterpreterIdentity

def bindStreamField (baseline current : Bytes) (name : String) : Except String Bytes :=
  if current = [] then .ok baseline
  else if baseline = [] then .ok current
  else if baseline = current then .ok baseline
  else .error ("interpreter context changed within one protocol stream: "++name)

def equalIfKnown (a b : Bytes) : Bool := a = [] || b = [] || a = b

/-- The check that stops a record when it fails. -/
def require (p : Prop) [Decidable p] (e : String) : Except String Unit :=
  if p then .ok () else .error e

/-- The fields that a record must have before its event is looked at. -/
def recordHeader (j : J) : Except String (Bytes×Bytes) := do
  require ((object (some j)).isSome) "protocol record is not an object"
  require (jstr (j.get "protocol") = some (bytes "auto-refirst.cpython.introspection"))
    "protocol identifier mismatch"
  require (ju64 (j.get "schema") = some 1) "unsupported introspection schema"
  match jstr (j.get "event"), jstr (j.get "state") with
  | some event, some state =>
    require (rankState state ≥ 0) ("unknown protocol state: "++textOf state)
    require (event = bytes "probe_loaded" ∨ event = bytes "hook_armed" ∨
      event = bytes "hook_triggered" ∨ event = bytes "frame_snapshot")
      ("unknown schema-1 event: "++textOf event)
    return (event,state)
  | _, _ => .error "protocol record lacks event/state"

/-- The event of a record, read from its fields. -/
def eventFact (j : J) (event state : Bytes) : EventFact :=
  let interpreter := (object (j.get "interpreter")).getD .null
  let thread := (object (j.get "thread")).getD .null
  { event,state
    transport:=(jstr (j.get "transport")).getD [],hook:=(jstr (j.get "hook")).getD []
    trigger:=(jstr (j.get "trigger")).getD [],hookScope:=(jstr (j.get "scope")).getD []
    exceptionType:=(jstr (j.get "exception_type")).getD []
    behaviorModified:=(jbool (j.get "behavior_modified")).getD false
    behaviorModifiedPresent:=(jbool (j.get "behavior_modified")).isSome
    threadIdent:=(ju64 (thread.get "ident")).getD 0
    threadNativeId:=(ju64 (thread.get "native_id")).getD 0
    threadName:=(jstr (thread.get "name")).getD []
    interpreterRuntime:=(jstr (interpreter.get "runtime")).getD []
    interpreterExecutable:=(jstr (interpreter.get "executable")).getD []
    interpreterIdentityKind:=(jstr (interpreter.get "identity_kind")).getD []
    interpreterIdentity:=(jstr (interpreter.get "identity")).getD []
    interpreterModulesIdentity:=(jstr (interpreter.get "sys_modules_identity")).getD [] }

def checkEvent (r : Report) (e : EventFact) : Except String Report := do
  require (r.recordsRetained ≠ 0 ∨ (e.is "probe_loaded" ∧ e.state = bytes "PROBE_LOADED"))
    "first protocol record must be probe_loaded/PROBE_LOADED"
  require (¬(e.is "probe_loaded" ∧ r.recordsRetained ≠ 0)) "duplicate or late probe_loaded record"
  require (¬((e.is "hook_armed" ∧ e.state ≠ bytes "HOOK_ARMED") ∨
      (e.is "hook_triggered" ∧ e.state ≠ bytes "HOOK_TRIGGERED") ∨
      (e.is "frame_snapshot" ∧ e.state ≠ bytes "FRAME_SNAPSHOT_CAPTURED" ∧
        e.state ≠ bytes "PARTIAL")))
    ("event/state mismatch for "++textOf e.event)
  if r.transport = [] then return {r with transport:=e.transport}
  else
    require (e.transport = [] ∨ r.transport = e.transport)
      "transport changed within one protocol stream"
    return r

variable (stream : StreamState) (e : EventFact)

def bindInterpreter : Except String StreamState := do
  require (e.interpreterIdentity = [] ∨ e.interpreterModulesIdentity = [] ∨
      e.interpreterIdentity = e.interpreterModulesIdentity)
    "interpreter identity disagrees with sys_modules_identity"
  let runtime ← bindStreamField stream.interpreterRuntime e.interpreterRuntime "runtime"
  let executable ←
    bindStreamField stream.interpreterExecutable e.interpreterExecutable "executable"
  let kind ←
    bindStreamField stream.interpreterIdentityKind e.interpreterIdentityKind "identity_kind"
  let identity ←
    bindStreamField stream.interpreterIdentity e.effectiveInterpreterIdentity "identity"
  return { stream with
    interpreterRuntime:=runtime,interpreterExecutable:=executable,interpreterIdentityKind:=kind
    interpreterIdentity:=identity }

def arm : StreamState :=
  if e.is "hook_armed" then {stream with armed:=Function.update stream.armed e.key true}
  else stream

/-- A trigger that modifies behaviour, or does not say, needs its hook armed before. -/
def openTrigger : Except String StreamState :=
  if e.is "hook_triggered" then do
    require (¬((!e.behaviorModifiedPresent || e.behaviorModified) ∧ ¬stream.armed e.key))
      "behavior-modifying hook_triggered lacks prior matching hook_armed"
    return {stream with pending:=Function.update stream.pending e.key (some e.correlation)}
  else return stream

def consumeTrigger : Except String StreamState :=
  if e.is "frame_snapshot" then
    match stream.pending e.key with
    | none => .error "frame_snapshot lacks prior matching hook_triggered (trigger must be unconsumed)"
    | some pending => do
      require (pending.threadIdent = 0 ∨ e.threadIdent = 0 ∨ pending.threadIdent = e.threadIdent)
        "frame_snapshot thread ident differs from matching hook_triggered"
      require (pending.threadNativeId = 0 ∨ e.threadNativeId = 0 ∨
          pending.threadNativeId = e.threadNativeId)
        "frame_snapshot native thread id differs from matching hook_triggered"
      require (equalIfKnown pending.scope e.hookScope)
        "frame_snapshot scope differs from matching hook_triggered"
      require (¬(pending.behaviorModifiedPresent ∧ e.behaviorModifiedPresent ∧
          pending.behaviorModified ≠ e.behaviorModified))
        "frame_snapshot behavior_modified differs from matching hook_triggered"
      require (equalIfKnown pending.interpreterRuntime e.interpreterRuntime ∧
          equalIfKnown pending.interpreterExecutable e.interpreterExecutable ∧
          equalIfKnown pending.interpreterIdentity e.effectiveInterpreterIdentity)
        "frame_snapshot interpreter differs from matching hook_triggered"
      return {stream with pending:=Function.update stream.pending e.key none}
  else return stream

def countEvent (r : Report) (e : EventFact) : Report :=
  if e.is "probe_loaded" then r
  else if e.is "hook_armed" then {r with hookArmedCount:=r.hookArmedCount+1}
  else if e.is "hook_triggered" then {r with hookTriggeredCount:=r.hookTriggeredCount+1}
  else if e.is "frame_snapshot" then {r with frameSnapshotCount:=r.frameSnapshotCount+1}
  else r

variable (b : Budgets)

def retainEvent (r : Report) (e : EventFact) : Report :=
  if r.events.length < b.maxEvents then {r with events:=r.events++[e]}
  else {r with eventsConsumerTruncated:=true}

def record (j : J) (r : Report) (stream : StreamState) : Except String (Report×StreamState) := do
  let (event,state) ← recordHeader j
  let e := eventFact j event state
  let r ← checkEvent {r with schema:=1,protocolValid:=true} e
  let stream ← bindInterpreter stream e
  let stream ← openTrigger (arm stream e) e
  let stream ← consumeTrigger stream e
  return (retainEvent b ((countEvent r e).updateState e.state) e,stream)

/-- What was read of the file: its bytes, and whether reading ended before the end. -/
structure JsonlFile where
  text : Bytes
  readFailed : Bool := false

def splitLines (text : Bytes) : List Bytes := text.splitOn 0x0a

def dropCarriageReturn (line : Bytes) : Bytes :=
  if line.getLast? = some 0x0d then line.dropLast else line

def parseLine (no : ℕ) (line : Bytes) (r : Report) (stream : StreamState) :
    Except String (Report×StreamState) :=
  match root b.maxJsonDepth b.maxJsonNodes line with
  | .error e => .error ("invalid introspection JSONL at line "++toString no++": "++e)
  | .ok j =>
    match record b j r stream with
    | .error e => .error ("invalid introspection protocol at line "++toString no++": "++e)
    | .ok (r,stream) => .ok ({r with recordsRetained:=r.recordsRetained+1},stream)

/-- The reading loop. Lines beyond the record budget are counted and not looked at. -/
def parseLines (b : Budgets) :
    ℕ → List Bytes → Report → StreamState → Except String (Report×StreamState)
  | _, [], r, stream => .ok (r,stream)
  | no, line::lines, r, stream =>
    let line := dropCarriageReturn line
    if line = [] then parseLines b (no+1) lines r stream
    else
      let r := {r with recordsSeen:=r.recordsSeen+1}
      if line.length > b.maxLineBytes then
        .error ("introspection JSONL line exceeds byte budget at line "++toString no)
      else if r.recordsSeen > b.maxRecords then
        parseLines b (no+1) lines {r with recordsTruncated:=true} stream
      else do
        let (r,stream) ← parseLine b no line r stream
        parseLines b (no+1) lines r stream

def parseCPythonIntrospectionJsonl (file : Option JsonlFile) : Except String Report :=
  match file with
  | none => .error "cannot open introspection JSONL"
  | some f => do
    let initial : Report :=
      {attempted:=true,state:=bytes "FAILED",parserState:=bytes "FAILED"}
    let (r,_) ← parseLines b 1 (splitLines f.text) initial {}
    require (¬f.readFailed) "failed while reading introspection JSONL"
    require (r.recordsSeen ≠ 0) "introspection JSONL is empty"
    require (r.runtimeState ≠ bytes "NOT_ATTEMPTED")
      "introspection stream contained no recognized runtime state"
    let partialStream := r.recordsTruncated || r.eventsConsumerTruncated
    return { r with
      parserState := if partialStream then bytes "PARTIAL" else bytes "COMPLETE"
      state := if partialStream then bytes "PARTIAL" else r.runtimeState }

end AutoRefirst.CPythonIntrospection
