import AutoRefirst.MaterializationGraph

/-!
# What the builder leaves alone

Of a node only its mark matters for generations: the generation itself, whether the node was
executed, and what its state knows about writes. Most operations keep every mark.
-/

namespace AutoRefirst.Materialization
open List Option

structure Mark where
  generation : Option ℕ := none
  (executed writeEdgeEmitted : Bool := false)
  (writerExecutionGeneration mutationParentGeneration : Option ℕ := none)

namespace Builder

def mark (b : Builder) (id : ℕ) : Mark :=
  if id ≤ b.nodeCount then
    { generation:=(b.nodes id).generation,executed:=(b.nodes id).executed
      writeEdgeEmitted:=(b.states id).writeEdgeEmitted
      writerExecutionGeneration:=(b.states id).writerExecutionGeneration
      mutationParentGeneration:=(b.states id).mutationParentGeneration }
  else {}

def generationOf (b : Builder) (id : ℕ) : Option ℕ := (b.mark id).generation

structure Valid (b : Builder) : Prop where
  backings : ∀ kv∈b.backings, kv.2≤b.nodeCount
  regions : ∀ kv∈b.regions, kv.2≤b.nodeCount
  threads : ∀ k id, b.threadNode k = some id → id≤b.nodeCount
  originals : ∀ p id, b.original p = some id → id≤b.nodeCount ∧ ∀ kv∈b.backings, kv.2≠id

/-- The generation of the writer on an edge is that of a thread, and the edge of a write whose
bytes have no known source comes from the node in which that thread runs. -/
def WriterOn (b : Builder) (x : MaterializationEdge) : Prop :=
  ∀ w, x.writerExecutionGeneration = some w → ∃ k, b.threadGeneration k = some w ∧
    (x.kind = .materializedByRuntime → x.sourceNode = b.threadNode k)

/-- `c` continues `b` with the same marks, and the new edges tell of no other writers than the
threads of `b`. -/
structure Quiet (b c : Builder) : Prop where
  count : b.nodeCount ≤ c.nodeCount
  mark : ∀ id, c.mark id = b.mark id
  edges : ∃ l, c.edges=b.edges++l ∧ ∀ x∈l, WriterOn b x
  threadGeneration : c.threadGeneration=b.threadGeneration
  threadNode : c.threadNode=b.threadNode
  processes : c.processesWithGeneratedExecution=b.processesWithGeneratedExecution

theorem Quiet.refl (b:Builder) : Quiet b b:=
  ⟨Nat.le_refl _,fun _=>rfl,⟨[],by simp,by simp⟩,rfl,rfl,rfl⟩

theorem Quiet.trans {b c d:Builder} (h:Quiet b c) (h':Quiet c d) : Quiet b d:=by
  obtain ⟨l,hl,hw⟩:=h.edges
  obtain ⟨l',hl',hw'⟩:=h'.edges
  refine ⟨h.count.trans h'.count,fun id=>(h'.mark id).trans (h.mark id),
    ⟨l++l',?_,?_⟩,h'.threadGeneration.trans h.threadGeneration,
    h'.threadNode.trans h.threadNode,h'.processes.trans h.processes⟩
  · rw [hl',hl,append_assoc]
  · intro x hx w hxw
    rcases mem_append.mp hx with hx | hx
    · exact hw x hx w hxw
    · obtain ⟨k,hk,hsrc⟩:=hw' x hx w hxw
      rw [h.threadGeneration] at hk
      rw [h.threadNode] at hsrc
      exact ⟨k,hk,hsrc⟩

section
variable {b c : Builder} {E : Environment} {e : TimelineEvent}

theorem mark_addNode (b:Builder) (n:MaterializationNode) (id:ℕ) : (b.addNode n).2.mark id =
      if id = b.nodeCount+1 then {generation:=n.generation,executed:=n.executed}
      else b.mark id:=by
  unfold addNode mark
  by_cases hid : id=b.nodeCount+1
  · subst hid
    simp
  · simp only [hid,if_false,Function.update_of_ne hid]
    by_cases hle : id≤b.nodeCount
    · rw [if_pos (by omega),if_pos hle]
    · rw [if_neg (by omega),if_neg hle]

theorem mark_modifyNode (b:Builder) (i:ℕ) (f:MaterializationNode→MaterializationNode)
    (id:ℕ) : (b.modifyNode i f).mark id =
      if id = i ∧ i≤b.nodeCount then
        { b.mark id with
          generation:=(f (b.nodes i)).generation,executed:=(f (b.nodes i)).executed }
      else b.mark id:=by
  unfold modifyNode mark
  by_cases hid : id=i
  · subst hid
    by_cases hle : id≤b.nodeCount
    · simp [hle]
    · simp [hle]
  · simp [hid]

theorem mark_modifyState (b:Builder) (i:ℕ) (f:NodeState→NodeState) (id:ℕ) :
    (b.modifyState i f).mark id =
      if id = i ∧ i≤b.nodeCount then
        { b.mark id with
          writeEdgeEmitted:=(f (b.states i)).writeEdgeEmitted
          writerExecutionGeneration:=(f (b.states i)).writerExecutionGeneration
          mutationParentGeneration:=(f (b.states i)).mutationParentGeneration }
      else b.mark id:=by
  unfold modifyState mark
  by_cases hid : id=i
  · subst hid
    by_cases hle : id≤b.nodeCount
    · simp [hle]
    · simp [hle]
  · simp [hid]

@[simp] theorem mark_addEdge (src:Option ℕ) (dst:ℕ) (kind:MaterializationEdgeKind)
    (o:Option TimelineEvent) (evidence detail:String) (w:Option ℕ) (id:ℕ) :
    (b.addEdge E src dst kind o evidence detail w).mark id=b.mark id:=rfl

@[simp] theorem mark_placeLastEdge (address:ℕ) (size:Option ℕ) (id:ℕ) :
    (b.placeLastEdge address size).mark id=b.mark id:=rfl

@[simp] theorem nodeCount_modifyNode (id:ℕ) (f:MaterializationNode→MaterializationNode) :
    (b.modifyNode id f).nodeCount=b.nodeCount:=rfl

@[simp] theorem nodeCount_modifyState (id:ℕ) (f:NodeState→NodeState) :
    (b.modifyState id f).nodeCount=b.nodeCount:=rfl

@[simp] theorem nodeCount_addEdge (src:Option ℕ) (dst:ℕ) (kind:MaterializationEdgeKind)
    (o:Option TimelineEvent) (evidence detail:String) (w:Option ℕ) :
    (b.addEdge E src dst kind o evidence detail w).nodeCount=b.nodeCount:=rfl

theorem quiet_addNode {n:MaterializationNode} (hg:n.generation=none)
    (hx:n.executed=false) : Quiet b (b.addNode n).2:=by
  refine ⟨Nat.le_succ _,?_,⟨[],by simp [addNode],by simp⟩,rfl,rfl,rfl⟩
  intro id
  rw [mark_addNode]
  split
  · rename_i hid
    rw [hg,hx,mark,if_neg (by omega)]
  · rfl

variable {i : ℕ}

theorem Quiet.modifyNode (h:Quiet b c) {f:MaterializationNode→MaterializationNode}
    (hg:∀n,(f n).generation=n.generation) (hx:∀n,(f n).executed=n.executed) :
    Quiet b (c.modifyNode i f):=by
  refine h.trans ⟨Nat.le_refl _,?_,⟨[],by simp [Builder.modifyNode],by simp⟩,rfl,rfl,rfl⟩
  intro id
  rw [mark_modifyNode]
  split
  · rename_i hid
    rw [hg,hx,hid.1,Builder.mark,if_pos hid.2]
  · rfl

theorem Quiet.modifyState (h:Quiet b c) {f:NodeState→NodeState}
    (he:∀s,(f s).writeEdgeEmitted=s.writeEdgeEmitted)
    (hw:∀s,(f s).writerExecutionGeneration=s.writerExecutionGeneration)
    (hm:∀s,(f s).mutationParentGeneration=s.mutationParentGeneration) :
    Quiet b (c.modifyState i f):=by
  refine h.trans ⟨Nat.le_refl _,?_,⟨[],by simp [Builder.modifyState],by simp⟩,rfl,rfl,rfl⟩
  intro id
  rw [mark_modifyState]
  split
  · rename_i hid
    rw [he,hw,hm,hid.1,Builder.mark,if_pos hid.2]
  · rfl

theorem mark_modifyState_keep {f:NodeState→NodeState}
    (he:∀s,(f s).writeEdgeEmitted=s.writeEdgeEmitted)
    (hw:∀s,(f s).writerExecutionGeneration=s.writerExecutionGeneration)
    (hm:∀s,(f s).mutationParentGeneration=s.mutationParentGeneration) (id:ℕ) :
    (b.modifyState i f).mark id=b.mark id:=
  ((Quiet.refl b).modifyState he hw hm).mark id

theorem Quiet.addEdge (h:Quiet b c) {src:Option ℕ} {dst:ℕ} {kind:MaterializationEdgeKind}
    {o:Option TimelineEvent} {evidence detail:String} {w:Option ℕ}
    (hw:∀v,w=some v → ∃k,c.threadGeneration k=some v ∧
      (kind=.materializedByRuntime → src=c.threadNode k)) :
    Quiet b (c.addEdge E src dst kind o evidence detail w):=by
  refine h.trans ⟨Nat.le_refl _,fun _=>rfl,⟨_,rfl,?_⟩,rfl,rfl,rfl⟩
  intro x hx v hv
  rw [mem_singleton.mp hx] at hv ⊢
  exact hw v hv

theorem Quiet.fields {c':Builder} (h:Quiet b c) (hnodes:c'.nodes=c.nodes)
    (hstates:c'.states=c.states) (hcount:c'.nodeCount=c.nodeCount)
    (hedges:c'.edges=c.edges) (hgeneration:c'.threadGeneration=c.threadGeneration)
    (hnode:c'.threadNode=c.threadNode)
    (hprocesses:c'.processesWithGeneratedExecution=c.processesWithGeneratedExecution) :
    Quiet b c':=by
  refine h.trans ⟨hcount.ge,?_,⟨[],by rw [hedges,append_nil],by simp⟩,hgeneration,
    hnode,hprocesses⟩
  intro id
  unfold Builder.mark
  rw [hnodes,hstates,hcount]

theorem Quiet.nameBacking (h:Quiet b c) (key:BackingKey) (id:ℕ) :
    Quiet b (c.nameBacking key id):=
  h.fields rfl rfl rfl rfl rfl rfl rfl

theorem Quiet.nameRegion (h:Quiet b c) (key:RegionKey) (id:ℕ) :
    Quiet b (c.nameRegion key id):=
  h.fields rfl rfl rfl rfl rfl rfl rfl

theorem thread_of_active {v:ℕ} (h:b.activeGeneration E e=some v) :
    ∃k,b.threadGeneration k=some v ∧ b.activeNode E e=b.threadNode k:=by
  obtain ⟨t,ht,hv⟩:=bind_eq_some_iff.mp h
  exact ⟨_,hv,by rw [activeNode,ht,bind_some]⟩

/-- A node was looked up or made. -/
structure Finds (b : Builder) (r : ℕ×Builder) : Prop where
  quiet : Quiet b r.2
  valid : b.Valid → r.2.Valid ∧ r.1 ≤ r.2.nodeCount

theorem addNode_le (b:Builder) (n:MaterializationNode) :
    (b.addNode n).1≤(b.addNode n).2.nodeCount:=Nat.le_refl _

theorem Valid.addNode (h:b.Valid) (n:MaterializationNode) : (b.addNode n).2.Valid:=
  ⟨fun kv hkv=>(h.backings kv hkv).trans (Nat.le_succ _),
    fun kv hkv=>(h.regions kv hkv).trans (Nat.le_succ _),
    fun k id hid=>(h.threads k id hid).trans (Nat.le_succ _),
    fun p id hid=>⟨(h.originals p id hid).1.trans (Nat.le_succ _),(h.originals p id hid).2⟩⟩

theorem Valid.modifyNode (h:b.Valid) (i:ℕ) (f:MaterializationNode→MaterializationNode) :
    (b.modifyNode i f).Valid:=
  ⟨h.backings,h.regions,h.threads,h.originals⟩

theorem Valid.modifyState (h:b.Valid) (i:ℕ) (f:NodeState→NodeState) :
    (b.modifyState i f).Valid:=
  ⟨h.backings,h.regions,h.threads,h.originals⟩

variable {id : ℕ}

theorem Valid.nameBacking (h:b.Valid) (key:BackingKey) (hid:id≤b.nodeCount)
    (hne:∀p,b.original p≠some id) : (b.nameBacking key id).Valid:=by
  refine ⟨?_,h.regions,h.threads,?_⟩
  · intro kv hkv
    rcases OrderedMap.value_insert hkv with heq | hmem
    · rw [heq]
      exact hid
    · exact h.backings kv hmem
  · intro p m hm
    refine ⟨(h.originals p m hm).1,?_⟩
    intro kv hkv heq
    rcases OrderedMap.value_insert hkv with hv | hmem
    · exact hne p (by rw [← hv,heq];exact hm)
    · exact (h.originals p m hm).2 kv hmem heq

theorem Valid.nameRegion (h:b.Valid) (key:RegionKey) (hid:id≤b.nodeCount) :
    (b.nameRegion key id).Valid:=by
  refine ⟨h.backings,?_,h.threads,h.originals⟩
  intro kv hkv
  rcases OrderedMap.value_insert hkv with heq | hmem
  · rw [heq]
    exact hid
  · exact h.regions kv hmem

theorem Valid.enterNode (h:b.Valid) (processUid tid g:ℕ) (hid:id≤b.nodeCount) :
    (b.enterNode processUid tid g id).Valid:=by
  refine ⟨h.backings,h.regions,?_,h.originals⟩
  intro k m hm
  simp only [Builder.enterNode,Function.update_apply] at hm
  split at hm
  · rw [← some.inj hm]
    exact hid
  · exact h.threads k m hm

theorem finds_ensureBacking (processUid:ℕ) (kind:String) (bid:ℕ) :
    Finds b (b.ensureBacking E e processUid kind bid):=by
  unfold ensureBacking
  dsimp only
  split
  · rename_i id hid
    refine ⟨Quiet.refl b,fun hv=>⟨hv,?_⟩⟩
    obtain ⟨kv,hkv,rfl⟩:=OrderedMap.mem_of_find hid
    exact hv.backings kv hkv
  · refine ⟨?_,fun hv=>⟨?_,Nat.le_refl _⟩⟩
    · dsimp only
      refine ((quiet_addNode ?_ ?_).nameBacking _ _).modifyState ?_ ?_ ?_ <;> intros <;> rfl
    · dsimp only
      apply Valid.modifyState
      refine (hv.addNode _).nameBacking _ (addNode_le _ _) ?_
      intro p hp
      have hle:=(hv.originals p _ hp).1
      exact Nat.not_succ_le_self _ hle

theorem finds_ensureRegion (processUid start stop:ℕ) (kind:MaterializationNodeKind)
    (cross:Bool) : Finds b (b.ensureRegion E e processUid start stop kind cross):=by
  unfold ensureRegion
  dsimp only
  split
  · rename_i id hid
    refine ⟨Quiet.refl b,fun hv=>⟨hv,?_⟩⟩
    obtain ⟨kv,hkv,rfl⟩:=OrderedMap.mem_of_find hid
    exact hv.regions kv hkv
  · split
    · rename_i kv hkv
      exact ⟨Quiet.refl b,fun hv=>⟨hv,hv.regions kv (mem_of_find?_eq_some hkv)⟩⟩
    · refine ⟨?_,fun hv=>⟨?_,Nat.le_refl _⟩⟩
      · dsimp only
        refine ((quiet_addNode ?_ ?_).nameRegion _ _).modifyState ?_ ?_ ?_ <;> intros <;> rfl
      · dsimp only
        apply Valid.modifyState
        exact (hv.addNode _).nameRegion _ (addNode_le _ _)

theorem finds_eventRegion (processUid:ℕ) (cross:Bool) :
    Finds b (b.eventRegion E e processUid cross):=
  finds_ensureRegion _ _ _ _ _

theorem Valid.addEdge (h:b.Valid) (src:Option ℕ) (dst:ℕ) (kind:MaterializationEdgeKind)
    (o:Option TimelineEvent) (evidence detail:String) (w:Option ℕ) :
    (b.addEdge E src dst kind o evidence detail w).Valid:=
  ⟨h.backings,h.regions,h.threads,h.originals⟩

theorem valid_existingRegion (h:b.Valid) {processUid start stop:ℕ}
    (hid:b.existingRegion processUid start stop=some id) : id≤b.nodeCount:=by
  obtain ⟨kv,hkv,rfl⟩:=map_eq_some_iff.mp hid
  exact h.regions kv (mem_of_find?_eq_some hkv)

theorem valid_existingRegionForExecution (h:b.Valid)
    (hid:b.existingRegionForExecution e=some id) : id≤b.nodeCount:=by
  unfold existingRegionForExecution at hid
  split at hid
  · cases hid
  · obtain ⟨kv,hkv,rfl⟩:=map_eq_some_iff.mp hid
    exact h.regions kv (mem_of_find?_eq_some hkv)

theorem finds_allocationNode {r:ℕ×Builder} (hr:b.allocationNode E e=some r) : Finds b r:=by
  unfold allocationNode at hr
  split at hr
  · rw [← some.inj hr]
    exact finds_ensureBacking _ _ _
  · dsimp only at hr
    split at hr
    · have hregion:=finds_eventRegion (b:=b) (E:=E) (e:=e) (targetUid e)
        (targetUid e != e.processUid)
      rw [← some.inj hr]
      refine ⟨?_,fun hv=>⟨?_,(hregion.valid hv).2⟩⟩
      · dsimp only
        refine (hregion.quiet.modifyState ?_ ?_ ?_).modifyNode ?_ ?_ <;> intros <;> rfl
      · dsimp only
        apply Valid.modifyNode
        apply Valid.modifyState
        exact (hregion.valid hv).1
    · cases hr

theorem quiet_allocationEvent : Quiet b (b.allocationEvent E e):=by
  unfold allocationEvent
  split
  · exact Quiet.refl b
  · rename_i r hr
    refine (finds_allocationNode hr).quiet.addEdge ?_
    intro v hv
    obtain ⟨k,hk,hnode⟩:=thread_of_active hv
    exact ⟨k,hk,fun _=>hnode⟩

theorem valid_allocationEvent (h:b.Valid) : (b.allocationEvent E e).Valid:=by
  unfold allocationEvent
  split
  · exact h
  · rename_i r hr
    exact ((finds_allocationNode hr).valid h).1.addEdge _ _ _ _ _ _ _

theorem finds_protectNode {r:ℕ×Builder} (hr:b.protectNode E e=some r) : Finds b r:=by
  unfold protectNode at hr
  split at hr
  · rw [← some.inj hr]
    exact finds_ensureBacking _ _ _
  · dsimp only at hr
    split at hr
    · rename_i id hid
      rw [← some.inj hr]
      obtain ⟨s,-,hs⟩:=bind_eq_some_iff.mp hid
      exact ⟨Quiet.refl b,fun hv=>⟨hv,valid_existingRegion hv hs⟩⟩
    · split at hr
      · rw [← some.inj hr]
        exact finds_eventRegion _ _
      · cases hr

theorem quiet_protectEvent : Quiet b (b.protectEvent E e):=by
  unfold protectEvent
  split
  · exact Quiet.refl b
  · split
    · exact Quiet.refl b
    · rename_i r hr
      refine ((finds_protectNode hr).quiet.modifyState ?_ ?_ ?_).addEdge ?_
      · exact fun s=>rfl
      · exact fun s=>rfl
      · exact fun s=>rfl
      · intro v hv
        cases hv

theorem valid_protectEvent (h:b.Valid) : (b.protectEvent E e).Valid:=by
  unfold protectEvent
  split
  · exact h
  · split
    · exact h
    · rename_i r hr
      apply Valid.addEdge
      apply Valid.modifyState
      exact ((finds_protectNode hr).valid h).1

end

end Builder

end AutoRefirst.Materialization
