import AutoRefirst.GenerationRuns

/-!
# The first generation of a process

Written bytes whose writer is not known count as the first generation of their process, unless the
process has executed generated code before. An execution is remembered for that; the start of a new
image is not.
-/

namespace AutoRefirst.Materialization
open List Option

namespace Builder

def handedBacking (e : TimelineEvent) : Option (String×ℕ) :=
  if e.kind = .processStart ∧ isThreadStart e = false ∧ isExecHandoff e = true then namedBacking e
  else none

/-- The node whose generation the event decides, and the state in which it does. -/
def decides (E : Environment) (b : Builder) (e : TimelineEvent) : Option (ℕ×Builder) :=
  if e.kind = .materializedExecute then
    let r := b.executeNode E e
    some (r.1,r.2.observeExecution E e r.1)
  else match handedBacking e with
  | some (kind,bid) =>
    let r := b.ensureBacking E e e.processUid kind bid
    some (r.1,r.2.handOver E e r.1 bid)
  | none => none

def runsGenerated (E : Environment) (b : Builder) (e : TimelineEvent) : Bool :=
  e.kind = .materializedExecute &&
    ((b.executeEvent E e).nodes (b.executeNode E e).1).generation.isSome

/-- A handoff to a new image whose generation is known. -/
def startsGenerated (E : Environment) (b : Builder) (e : TimelineEvent) : Bool :=
  match handedBacking e with
  | none => false
  | some (kind,bid) =>
    let r := b.ensureBacking E e e.processUid kind bid
    let c := r.2.execBacking E e r.1 bid
    let q := c.ensureRegion E e e.processUid 0 1 .replacementImage false
    ((q.2.replaceImage E e r.1 q.1).nodes q.1).generation.isSome

def Earlier (E : Environment) (timeline : List TimelineEvent)
    (did : Builder→TimelineEvent→Bool) (p : ℕ) : Prop :=
  ∃ before e after, timeline=before++e::after ∧ e.processUid=p ∧
    did (runEvents E before) e=true

structure UnknownWriter (d : Builder) (id : ℕ) : Prop where
  isOpen : (d.nodes id).generation=none
  written : (d.states id).writeConfirmed=true
  unknown : (d.states id).mutationParentGeneration.or (d.states id).writerExecutionGeneration = none

variable {b c d : Builder} {E : Environment} {e : TimelineEvent} {p : ℕ}
  {timeline : List TimelineEvent} {did did' : Builder→TimelineEvent→Bool}

theorem earlier_nil : ¬Earlier E [] did p:=by
  rintro ⟨before,e,after,h,-⟩
  exact append_ne_nil_of_right_ne_nil _ (cons_ne_nil _ _) h.symm

theorem earlier_concat : Earlier E (timeline++[e]) did p ↔
    Earlier E timeline did p ∨ (e.processUid=p ∧ did (runEvents E timeline) e=true):=by
  constructor
  · rintro ⟨before,x,after,h,hx⟩
    rcases eq_nil_or_concat after with rfl | ⟨after,y,rfl⟩
    · obtain ⟨rfl,hlast⟩:=append_inj' h rfl
      rw [List.cons.inj hlast |>.1]
      exact .inr hx
    · rw [concat_eq_append,← cons_append,← append_assoc] at h
      exact .inl ⟨before,x,after,(append_inj' h rfl).1,hx⟩
  · rintro (⟨before,x,after,rfl,hx⟩ | hx)
    · exact ⟨before,x,after++[e],by simp,hx⟩
    · exact ⟨timeline,e,[],rfl,hx⟩

/-- The same executions are remembered, and no edge is lost. -/
structure Silent (b c : Builder) : Prop where
  executions : c.processesWithGeneratedExecution=b.processesWithGeneratedExecution
  edges : b.edges ⊆ c.edges

theorem Silent.refl (b:Builder) : Silent b b:=⟨rfl,List.Subset.refl _⟩

theorem Silent.trans (h:Silent b c) (h':Silent c d) : Silent b d:=
  ⟨h'.executions.trans h.executions,List.Subset.trans h.edges h'.edges⟩

theorem silent_same (hexecutions:c.processesWithGeneratedExecution =
    b.processesWithGeneratedExecution) (hedges:c.edges=b.edges) : Silent b c:=
  ⟨hexecutions,hedges▸List.Subset.refl _⟩

theorem Silent.addEdge (h:Silent b c) (src:Option ℕ) (dst:ℕ) (kind:MaterializationEdgeKind)
    (o:Option TimelineEvent) (evidence detail:String) (w:Option ℕ) :
    Silent b (c.addEdge E src dst kind o evidence detail w):=
  h.trans ⟨rfl,subset_append_left _ _⟩

theorem Silent.modifyNode (h:Silent b c) (id:ℕ)
    (f:MaterializationNode→MaterializationNode) : Silent b (c.modifyNode id f):=
  h.trans (silent_same rfl rfl)

theorem Silent.modifyState (h:Silent b c) (id:ℕ) (f:NodeState→NodeState) :
    Silent b (c.modifyState id f):=
  h.trans (silent_same rfl rfl)

theorem Silent.executedLast (h:Silent b c) (q id:ℕ) : Silent b (c.executedLast q id):=
  h.trans (silent_same rfl rfl)

/-- Moving an edge that was added since loses none of the others. -/
theorem Silent.placeLastEdge (h:Silent b c) (src:Option ℕ) (dst:ℕ)
    (kind:MaterializationEdgeKind) (o:Option TimelineEvent) (evidence detail:String)
    (w:Option ℕ) (address:ℕ) (size:Option ℕ) :
    Silent b ((c.addEdge E src dst kind o evidence detail w).placeLastEdge address size):=by
  refine h.trans ⟨rfl,?_⟩
  intro x hx
  simp only [Builder.placeLastEdge,Builder.addEdge,dropLast_concat]
  exact mem_append_left _ hx

theorem Quiet.silent (h:Quiet b c) : Silent b c:=⟨h.processes,h.edges_subset⟩

theorem silent_ensureBacking (q:ℕ) (kind:String) (bid:ℕ) :
    Silent b (b.ensureBacking E e q kind bid).2:=
  (finds_ensureBacking q kind bid).quiet.silent

theorem silent_eventRegion (q:ℕ) (cross:Bool) : Silent b (b.eventRegion E e q cross).2:=
  (finds_eventRegion q cross).quiet.silent

variable (id : ℕ)

theorem silent_noteUnknownWriter (detail:String) :
    Silent b (b.noteUnknownWriter E e id detail):=by
  unfold noteUnknownWriter
  split
  · exact ((Silent.refl b).addEdge _ _ _ _ _ _ _).modifyState _ _
  · exact .refl b

theorem silent_assignGeneration : Silent b (b.assignGeneration id):=by
  unfold assignGeneration
  split
  · exact .refl b
  · exact silent_same rfl rfl

theorem silent_handOver (bk bid:ℕ) : Silent b (b.handOver E e bk bid):=by
  unfold handOver
  exact ((Silent.refl b).modifyState _ _).trans (silent_noteUnknownWriter _ _)

theorem silent_execBacking (bk bid:ℕ) : Silent b (b.execBacking E e bk bid):=by
  unfold execBacking
  exact ((silent_handOver bk bid).trans (silent_assignGeneration bk)).modifyNode _ _

theorem silent_enterThread (generation id:ℕ) : Silent b (b.enterThread E e generation id):=by
  unfold enterThread
  split
  · exact .refl b
  · exact silent_same rfl rfl

theorem silent_replaceImage (bk repl:ℕ) : Silent b (b.replaceImage E e bk repl):=by
  have htake : Silent b (b.takeImage E e bk repl):=
    (((Silent.refl b).modifyNode _ _).modifyState _ _).addEdge _ _ _ _ _ _ _
  unfold replaceImage
  dsimp only
  split
  · exact htake
  · exact (htake.executedLast _ _).trans (silent_enterThread _ _)

theorem silent_execHandoff (kind:String) (bid:ℕ) : Silent b (b.execHandoff E e kind bid):=by
  unfold execHandoff
  dsimp only
  exact (((silent_ensureBacking _ _ _).trans (silent_execBacking _ _)).trans
    (finds_ensureRegion _ _ _ _ _).quiet.silent).trans (silent_replaceImage _ _)

theorem silent_inheritBacking (bid:ℕ) : Silent b (b.inheritBacking E e bid):=by
  unfold inheritBacking
  split
  · exact .refl b
  · exact (((silent_ensureBacking _ _ _).modifyNode _ _).modifyState _ _).addEdge _ _ _ _ _ _ _

theorem silent_inherit (ids:List ℕ) :
    Silent b (ids.foldl (fun b bid=>b.inheritBacking E e bid) b):=by
  induction ids generalizing b with
  | nil=>exact .refl b
  | cons bid ids ih=>exact (silent_inheritBacking bid).trans ih

theorem silent_plainStart : Silent b (b.plainStart E e):=by
  refine Silent.trans ?_ (silent_inherit _)
  unfold ensureOriginal
  split
  · exact .refl b
  · exact silent_same rfl rfl

theorem silent_startEvent : Silent b (b.startEvent E e):=by
  unfold startEvent
  split
  · unfold threadStart
    split
    · exact silent_same rfl rfl
    · exact .refl b
  · split
    · split
      · exact silent_execHandoff _ _
      · exact silent_plainStart
    · exact silent_plainStart

variable (q : ℕ)

theorem silent_rollOver (start stop prior:ℕ) :
    Silent b (b.rollOver E e q start stop prior).2:=by
  have hnode : ∀n key,Silent b ((b.addNode n).2.nameRegion key (b.addNode n).1):=
    fun _ _=>silent_same rfl rfl
  unfold rollOver
  dsimp only
  split
  · exact ((hnode _ _).modifyState _ _).placeLastEdge _ _ _ _ _ _ _ _ _
  · exact ((hnode _ _).modifyState _ _).placeLastEdge _ _ _ _ _ _ _ _ _
  · exact ((hnode _ _).modifyState _ _).addEdge _ _ _ _ _ _ _

theorem silent_rollSameMappingMutation {q:ℕ} {r:ℕ×Builder}
    (h:b.rollSameMappingMutation E e q=some r) : Silent b r.2:=by
  unfold rollSameMappingMutation at h
  split at h
  · cases h
  split at h
  case h_2=>cases h
  split at h
  · cases h
  split at h
  · cases h
  split at h
  · cases h
  rw [← some.inj h]
  exact silent_rollOver _ _ _ _

theorem silent_writeNode : Silent b (b.writeNode E e).2:=by
  unfold writeNode
  split
  · exact silent_ensureBacking _ _ _
  · dsimp only
    cases hroll : if mutationCandidate e then b.rollSameMappingMutation E e (targetUid e) else none with
    | none=>exact silent_eventRegion _ _
    | some r=>
      split at hroll
      · exact silent_rollSameMappingMutation hroll
      · cases hroll

theorem silent_writeEdges : Silent b (b.writeEdges E e id):=by
  have hedges:=(((quiet_noteByteSource (b:=b) id (b.byteSource e)).silent).trans
    (quiet_imageEdge (E:=E) (e:=e) id).silent).trans
    (quiet_byteEdge (E:=E) (e:=e) id (b.byteSource e)).silent
  unfold writeEdges
  dsimp only
  split
  · exact hedges.modifyState _ _
  · exact hedges

theorem silent_recordWrite : Silent b (b.recordWrite E e id):=by
  unfold recordWrite
  dsimp only
  split <;> exact silent_same rfl rfl

theorem silent_writeEvent : Silent b (b.writeEvent E e):=by
  have hnode:=silent_writeNode (b:=b) (E:=E) (e:=e)
  have hrecorded:=hnode.trans (silent_recordWrite (E:=E) (e:=e) (b.writeNode E e).1)
  unfold writeEvent
  dsimp only
  split <;> split
  · exact hrecorded
  · exact hrecorded.trans (silent_writeEdges _)
  · exact hnode
  · exact hnode.trans (silent_writeEdges _)

theorem silent_executeNode : Silent b (b.executeNode E e).2:=by
  unfold executeNode
  split
  · dsimp only
    exact (silent_ensureBacking _ _ _).modifyState _ _
  · dsimp only
    exact (silent_eventRegion _ _).modifyState _ _

theorem silent_observeExecution : Silent b (b.observeExecution E e id):=by
  unfold observeExecution
  dsimp only
  exact (((Silent.refl b).modifyState _ _).trans (silent_noteUnknownWriter id _)).modifyState _ _

theorem silent_executionEdge : Silent b ((b.markExecuted E e id).executionEdge E e id):=by
  unfold executionEdge
  dsimp only
  cases fu64 e.fields "address" with
  | none=>exact ((Silent.refl b).modifyNode _ _).addEdge _ _ _ _ _ _ _
  | some a=>exact ((Silent.refl b).modifyNode _ _).placeLastEdge _ _ _ _ _ _ _ _ _

theorem edges_runNode : b.edges ⊆ (b.runNode E e id).edges:=by
  have hedge:=(silent_executionEdge (b:=b) (E:=E) (e:=e) id).edges
  unfold runNode
  dsimp only
  split
  · exact hedge
  · unfold enterThread
    split <;> exact hedge

theorem executions_runNode : (b.runNode E e id).processesWithGeneratedExecution q=true ↔
      b.processesWithGeneratedExecution q=true ∨
        (e.processUid=q ∧ ((b.runNode E e id).nodes id).generation.isSome=true):=by
  have hsame:=(silent_executionEdge (b:=b) (E:=E) (e:=e) id).executions
  unfold runNode
  dsimp only
  cases hg : (((b.markExecuted E e id).executionEdge E e id).nodes id).generation with
  | none=>
    rw [hg,hsame]
    simp
  | some g=>
    have hnodes : ((executedLast { (b.markExecuted E e id).executionEdge E e id with
        processesWithGeneratedExecution:=Function.update
          ((b.markExecuted E e id).executionEdge E e id).processesWithGeneratedExecution
          e.processUid true } e.processUid id).enterThread E e g id).nodes =
        ((b.markExecuted E e id).executionEdge E e id).nodes:=by
      unfold enterThread
      split <;> rfl
    have hset : ((executedLast { (b.markExecuted E e id).executionEdge E e id with
        processesWithGeneratedExecution:=Function.update
          ((b.markExecuted E e id).executionEdge E e id).processesWithGeneratedExecution
          e.processUid true } e.processUid id).enterThread E e g id).processesWithGeneratedExecution =
        Function.update b.processesWithGeneratedExecution e.processUid true:=by
      rw [← hsame]
      unfold enterThread
      split <;> rfl
    dsimp only
    rw [hnodes,hset,hg,Function.update_apply]
    by_cases hq : q=e.processUid
    · simp [hq]
    · simp [hq,Ne.symm hq]

theorem executions_executeEvent : (b.executeEvent E e).processesWithGeneratedExecution q=true ↔
      b.processesWithGeneratedExecution q=true ∨ (e.processUid=q ∧
          ((b.executeEvent E e).nodes (b.executeNode E e).1).generation.isSome=true):=by
  have hbefore : Silent b
      (((b.executeNode E e).2.observeExecution E e (b.executeNode E e).1).assignGeneration
        (b.executeNode E e).1):=
    (silent_executeNode.trans (silent_observeExecution _)).trans (silent_assignGeneration _)
  have hrun:=executions_runNode (b:=((b.executeNode E e).2.observeExecution E e
    (b.executeNode E e).1).assignGeneration (b.executeNode E e).1) (E:=E) (e:=e)
    (b.executeNode E e).1 q
  rw [hbefore.executions] at hrun
  unfold executeEvent
  dsimp only
  split <;> exact hrun

theorem executions_step : (step E b e).processesWithGeneratedExecution q=true ↔
    b.processesWithGeneratedExecution q=true ∨
      (e.processUid=q ∧ runsGenerated E b e=true):=by
  have hother : e.kind≠.materializedExecute → Silent b (step E b e) →
      ((step E b e).processesWithGeneratedExecution q=true ↔
        b.processesWithGeneratedExecution q=true ∨
          (e.processUid=q ∧ runsGenerated E b e=true)):=by
    intro hkind hsame
    rw [hsame.executions]
    simp [runsGenerated,hkind]
  cases hkind : e.kind with
  | materializedExecute=>
    have hstep : step E b e=b.executeEvent E e:=by rw [step,hkind]
    rw [hstep,executions_executeEvent]
    simp [runsGenerated,hkind]
  | processStart=>
    refine hother (by simp [hkind]) ?_
    obtain ⟨l,hl⟩:=divergence_eq (b:=b.startEvent E e) (e:=e)
    have hstep : step E b e = {b.startEvent E e with divergences:=l}:=by
      rw [step,hkind,← hl]
    rw [hstep]
    exact silent_startEvent.trans (silent_same rfl rfl)
  | memoryAllocate | fileCreate=>
    refine hother (by simp [hkind]) ?_
    rw [step,hkind]
    exact quiet_allocationEvent.silent
  | memoryWrite | fileWrite=>
    refine hother (by simp [hkind]) ?_
    rw [step,hkind]
    exact silent_writeEvent
  | memoryProtect=>
    refine hother (by simp [hkind]) ?_
    rw [step,hkind]
    exact quiet_protectEvent.silent
  | _=>
    refine hother (by simp [hkind]) ?_
    rw [step,hkind]
    exact .refl b

theorem edges_step : b.edges ⊆ (step E b e).edges:=by
  unfold step
  split
  · obtain ⟨l,hl⟩:=divergence_eq (b:=b.startEvent E e) (e:=e)
    rw [hl]
    exact silent_startEvent.edges
  · exact quiet_allocationEvent.silent.edges
  · exact quiet_allocationEvent.silent.edges
  · exact silent_writeEvent.edges
  · exact silent_writeEvent.edges
  · exact quiet_protectEvent.silent.edges
  · have hassigned:=((silent_executeNode (b:=b) (E:=E) (e:=e)).trans
      (silent_observeExecution (E:=E) (e:=e) (b.executeNode E e).1)).trans
      (silent_assignGeneration (b.executeNode E e).1)
    have hrun:=List.Subset.trans hassigned.edges
      (edges_runNode (E:=E) (e:=e) (b.executeNode E e).1)
    unfold executeEvent
    dsimp only
    split <;> exact hrun
  · exact List.Subset.refl _

theorem executions_run (timeline:List TimelineEvent) (q:ℕ) :
    (runEvents E timeline).processesWithGeneratedExecution q=true ↔
      Earlier E timeline (runsGenerated E) q:=by
  induction timeline using List.reverseRecOn with
  | nil=>exact ⟨fun h=>absurd h (by simp [runEvents]),fun h=>absurd h earlier_nil⟩
  | append_singleton timeline e ih=>rw [runEvents_concat,executions_step,earlier_concat,ih]

theorem silent_decides {id:ℕ} (h:decides E b e=some (id,d)) : Silent b d:=by
  unfold decides at h
  split at h
  · obtain ⟨rfl,rfl⟩:=Prod.mk.inj (some.inj h)
    exact silent_executeNode.trans (silent_observeExecution _)
  · split at h
    · obtain ⟨rfl,rfl⟩:=Prod.mk.inj (some.inj h)
      exact (silent_ensureBacking _ _ _).trans (silent_handOver _ _)
    · cases h

theorem generation_of_unknown {id:ℕ} (h:UnknownWriter d id) :
    ((d.assignGeneration id).nodes id).generation =
      if d.processesWithGeneratedExecution (d.nodes id).processUid then none else some 1:=by
  unfold assignGeneration nextGeneration
  rw [h.isOpen,h.written,h.unknown]
  simp [modifyNode]

end Builder

open Builder

/-- After generated code has been executed in the process, bytes of an unknown writer are left
without a generation, exactly when a new image of known generation was not the only such code. -/
theorem fallback_is_first (E : Environment) (timeline : List TimelineEvent) (e : TimelineEvent)
    (d : Builder) (id : ℕ) (hdecides : decides E (runEvents E timeline) e=some (id,d))
    (hunknown : UnknownWriter d id) :
    (Earlier E timeline (fun b x => runsGenerated E b x || startsGenerated E b x)
        (d.nodes id).processUid → ((d.assignGeneration id).nodes id).generation=none) ↔
      (Earlier E timeline (startsGenerated E) (d.nodes id).processUid →
        Earlier E timeline (runsGenerated E) (d.nodes id).processUid) := by
  have hran:=executions_run (E:=E) timeline (d.nodes id).processUid
  rw [generation_of_unknown hunknown,(silent_decides hdecides).executions]
  constructor
  · rintro hunresolved ⟨before,x,after,htimeline,hx,hstart⟩
    rw [← hran]
    have hnone:=hunresolved ⟨before,x,after,htimeline,hx,by simp [hstart]⟩
    by_contra hnot
    rw [if_neg hnot] at hnone
    cases hnone
  · rintro himage ⟨before,x,after,htimeline,hx,hdid⟩
    rw [Bool.or_eq_true] at hdid
    rw [if_pos (hran.mpr ?_)]
    rcases hdid with hrun | hstart
    · exact ⟨before,x,after,htimeline,hx,hrun⟩
    · exact himage ⟨before,x,after,htimeline,hx,hstart⟩

def handedRun : List TimelineEvent :=
  [{ kind:=.processStart,processUid:=1,pid:=10,subject := "runtime_backing_exec_handoff",
      fields:=[("exec_image_identity_match","true"),("backing_id","5"),
        ("backing_kind","memfd"),("backing_write_bytes","64")] }]

def changedExecution : TimelineEvent :=
  { kind:=.materializedExecute,processUid:=1,pid:=10,
    fields:=[("address","0x1000"),("changed_bytes","16")] }

def changedState : Builder :=
  let r := (runEvents {} handedRun).executeNode {} changedExecution
  r.2.observeExecution {} changedExecution r.1

theorem changed_decides :
    decides {} (runEvents {} handedRun) changedExecution=some (3,changedState):=rfl

theorem changed_unknown : UnknownWriter changedState 3:=by
  constructor <;> decide +kernel

/-- The first generated code of the process is the new image, and the memory that is executed after
it counts as the first generation as well. -/
theorem handoff_forgotten : ¬∀(timeline:List TimelineEvent) (e:TimelineEvent) (d:Builder) (id:ℕ),
      decides {} (runEvents {} timeline) e=some (id,d) → UnknownWriter d id →
      Earlier {} timeline (fun b x=>runsGenerated {} b x || startsGenerated {} b x)
        (d.nodes id).processUid → ((d.assignGeneration id).nodes id).generation=none:=by
  intro hall
  have hprocess : (changedState.nodes 3).processUid=1:=by decide +kernel
  have hnone:=hall handedRun changedExecution changedState 3 changed_decides changed_unknown
    ⟨[],_,[],rfl,hprocess.symm,by decide +kernel⟩
  exact absurd hnone (by decide +kernel)

/-- The same process executes other changed memory. -/
def nextExecution : TimelineEvent :=
  { kind:=.materializedExecute,processUid:=1,pid:=10,
    fields:=[("address","0x5000"),("changed_bytes","16")] }

def nextState : Builder :=
  let r := (runEvents {} [changedExecution]).executeNode {} nextExecution
  r.2.observeExecution {} nextExecution r.1

/-- After an execution the second piece of changed memory has no generation. -/
theorem fallback_is_first_changed : ((nextState.assignGeneration 2).nodes 2).generation=none:=by
  have hunknown : UnknownWriter nextState 2:=by constructor <;> decide +kernel
  have hprocess : (nextState.nodes 2).processUid=1:=by decide +kernel
  have hran : Earlier {} [changedExecution] (runsGenerated {}) (nextState.nodes 2).processUid:=
    ⟨[],_,[],rfl,hprocess.symm,by decide +kernel⟩
  refine (fallback_is_first {} [changedExecution] nextExecution nextState 2 rfl hunknown).mpr
    (fun _=>hran) ?_
  exact ⟨[],_,[],rfl,hprocess.symm,by decide +kernel⟩

end AutoRefirst.Materialization
