import AutoRefirst.GenerationRuns

/-!
# Names of nodes

The builder's maps name nodes that were added, and nothing else is ever given a generation.
-/

namespace AutoRefirst.Materialization
open Option

namespace Builder

variable {b c d : Builder} {E : Environment} {e : TimelineEvent}

/-- The number of a node that was added. -/
def Names (b : Builder) (id : ℕ) : Prop := id≠0 ∧ id≤b.nodeCount

/-- Names stand for nodes, and nothing else has been given a generation. -/
structure Grounded (b : Builder) : Prop where
  backings : ∀ kv∈b.backings, b.Names kv.2
  regions : ∀ kv∈b.regions, b.Names kv.2
  ungenerated : ∀ j, ¬b.Names j → (b.nodes j).generation=none

/-- A node was found, or made. -/
structure Grounds (b : Builder) (r : ℕ×Builder) : Prop where
  id : b.Grounded → r.2.Names r.1
  grounded : b.Grounded → r.2.Grounded

theorem grounded_initial : Grounded {}:=⟨by simp,by simp,fun _ _=>rfl⟩

theorem Grounded.same (h:b.Grounded) (hbackings:c.backings=b.backings)
    (hregions:c.regions=b.regions) (hnodes:c.nodes=b.nodes)
    (hcount:c.nodeCount=b.nodeCount) : c.Grounded:=by
  have hnames : ∀j,c.Names j ↔ b.Names j:=fun j=>by rw [Names,Names,hcount]
  refine ⟨?_,?_,?_⟩
  · exact fun kv hkv=>(hnames _).mpr (h.backings kv (hbackings▸hkv))
  · exact fun kv hkv=>(hnames _).mpr (h.regions kv (hregions▸hkv))
  · exact fun j hj=>hnodes▸h.ungenerated j fun hnamed=>hj ((hnames j).mpr hnamed)

theorem names_addNode (n:MaterializationNode) : (b.addNode n).2.Names (b.addNode n).1:=
  ⟨Nat.succ_ne_zero _,Nat.le_refl _⟩

theorem Grounded.addNode (h:b.Grounded) (n:MaterializationNode) : (b.addNode n).2.Grounded:=by
  have hnames : ∀j,b.Names j → (b.addNode n).2.Names j:=fun j hj=>⟨hj.1,Nat.le_succ_of_le hj.2⟩
  refine ⟨fun kv hkv=>hnames _ (h.backings kv hkv),fun kv hkv=>hnames _ (h.regions kv hkv),?_⟩
  intro j hj
  have hne : j≠b.nodeCount+1:=by
    rintro rfl
    exact hj (names_addNode n)
  have hkept : (b.addNode n).2.nodes j=b.nodes j:=by
    rw [Builder.addNode]
    dsimp only
    rw [Function.update_of_ne hne]
  rw [hkept]
  exact h.ungenerated j fun hnamed=>hj (hnames j hnamed)

variable {id : ℕ}

theorem Grounded.modifyNode (h:b.Grounded) (hid:b.Names id)
    (f:MaterializationNode→MaterializationNode) : (b.modifyNode id f).Grounded:=by
  refine ⟨h.backings,h.regions,?_⟩
  intro j hj
  have hne : j≠id:=by
    rintro rfl
    exact hj hid
  have hkept : (b.modifyNode id f).nodes j=b.nodes j:=Function.update_of_ne hne _ _
  rw [hkept]
  exact h.ungenerated j hj

theorem Grounded.modifyState (h:b.Grounded) (id:ℕ) (f:NodeState→NodeState) :
    (b.modifyState id f).Grounded:=
  h.same rfl rfl rfl rfl

theorem Grounded.addEdge (h:b.Grounded) (src:Option ℕ) (dst:ℕ)
    (kind:MaterializationEdgeKind) (o:Option TimelineEvent) (evidence detail:String)
    (w:Option ℕ) : (b.addEdge E src dst kind o evidence detail w).Grounded:=
  h.same rfl rfl rfl rfl

theorem Grounded.nameBacking (h:b.Grounded) (key:BackingKey) (hid:b.Names id) :
    (b.nameBacking key id).Grounded:=by
  refine ⟨?_,h.regions,h.ungenerated⟩
  intro kv hkv
  rcases OrderedMap.value_insert hkv with hv | hold
  · rw [hv]
    exact hid
  · exact h.backings kv hold

theorem Grounded.nameRegion (h:b.Grounded) (key:RegionKey) (hid:b.Names id) :
    (b.nameRegion key id).Grounded:=by
  refine ⟨h.backings,?_,h.ungenerated⟩
  intro kv hkv
  rcases OrderedMap.value_insert hkv with hv | hold
  · rw [hv]
    exact hid
  · exact h.regions kv hold

theorem grounds_ensureBacking (q:ℕ) (kind:String) (bid:ℕ) :
    Grounds b (b.ensureBacking E e q kind bid):=by
  unfold ensureBacking
  split
  · rename_i id hid
    refine ⟨fun h=>?_,fun h=>h⟩
    obtain ⟨kv,hkv,rfl⟩:=OrderedMap.mem_of_find hid
    exact h.backings kv hkv
  · refine ⟨fun _=>⟨Nat.succ_ne_zero _,Nat.le_refl _⟩,fun h=>?_⟩
    dsimp only
    exact ((h.addNode _).nameBacking _ (names_addNode _)).modifyState _ _

theorem grounds_ensureRegion (q start stop:ℕ) (kind:MaterializationNodeKind) (cross:Bool) :
    Grounds b (b.ensureRegion E e q start stop kind cross):=by
  unfold ensureRegion
  dsimp only
  split
  · rename_i id hid
    refine ⟨fun h=>?_,fun h=>h⟩
    obtain ⟨kv,hkv,rfl⟩:=OrderedMap.mem_of_find hid
    exact h.regions kv hkv
  · split
    · rename_i kv hkv
      exact ⟨fun h=>h.regions kv (List.mem_of_find?_eq_some hkv),fun h=>h⟩
    · refine ⟨fun _=>⟨Nat.succ_ne_zero _,Nat.le_refl _⟩,fun h=>?_⟩
      dsimp only
      exact ((h.addNode _).nameRegion _ (names_addNode _)).modifyState _ _

theorem grounds_eventRegion (q:ℕ) (cross:Bool) : Grounds b (b.eventRegion E e q cross):=
  grounds_ensureRegion _ _ _ _ _

theorem Grounded.noteUnknownWriter (h:b.Grounded) (id:ℕ) (detail:String) :
    (b.noteUnknownWriter E e id detail).Grounded:=by
  unfold Builder.noteUnknownWriter
  split
  · exact (h.addEdge _ _ _ _ _ _ _).modifyState _ _
  · exact h

theorem Names.noteUnknownWriter (h:b.Names id) (i:ℕ) (detail:String) :
    (b.noteUnknownWriter E e i detail).Names id:=by
  unfold Builder.noteUnknownWriter
  split <;> exact h

theorem Names.assignGeneration (h:b.Names id) (i:ℕ) : (b.assignGeneration i).Names id:=by
  unfold Builder.assignGeneration
  split <;> exact h

theorem Grounded.assignGeneration (h:b.Grounded) (hid:b.Names id) :
    (b.assignGeneration id).Grounded:=by
  unfold Builder.assignGeneration
  split
  · exact h
  · exact h.modifyNode hid _

theorem Grounded.enterThread (h:b.Grounded) (generation id:ℕ) :
    (b.enterThread E e generation id).Grounded:=by
  unfold Builder.enterThread
  split
  · exact h
  · exact h.same rfl rfl rfl rfl

theorem Grounded.execBacking (h:b.Grounded) {bk:ℕ} (hbk:b.Names bk) (bid:ℕ) :
    (b.execBacking E e bk bid).Grounded:=by
  have hnamed : (b.handOver E e bk bid).Names bk:=by
    unfold handOver
    exact Names.noteUnknownWriter (b:=b.modifyState bk _) hbk _ _
  have hover : (b.handOver E e bk bid).Grounded:=by
    unfold handOver
    exact (h.modifyState _ _).noteUnknownWriter _ _
  unfold Builder.execBacking
  exact (hover.assignGeneration hnamed).modifyNode (hnamed.assignGeneration bk) _

theorem Grounded.replaceImage (h:b.Grounded) (bk:ℕ) {repl:ℕ} (hrepl:b.Names repl) :
    (b.replaceImage E e bk repl).Grounded:=by
  have htake : (b.takeImage E e bk repl).Grounded:=
    ((h.modifyNode hrepl _).modifyState _ _).addEdge _ _ _ _ _ _ _
  unfold Builder.replaceImage
  dsimp only
  split
  · exact htake
  · exact (htake.same rfl rfl rfl rfl : ((b.takeImage E e bk repl).executedLast _ _).Grounded).enterThread
      _ _

theorem Grounded.execHandoff (h:b.Grounded) (kind:String) (bid:ℕ) :
    (b.execHandoff E e kind bid).Grounded:=by
  have hbacking:=grounds_ensureBacking (b:=b) (E:=E) (e:=e) e.processUid kind bid
  have hexec:=(hbacking.grounded h).execBacking (E:=E) (e:=e) (hbacking.id h) bid
  have hregion:=grounds_ensureRegion (b:=(b.ensureBacking E e e.processUid kind bid).2.execBacking
    E e (b.ensureBacking E e e.processUid kind bid).1 bid) (E:=E) (e:=e) e.processUid 0 1
    .replacementImage false
  exact (hregion.grounded hexec).replaceImage _ (hregion.id hexec)

theorem Grounded.inheritBacking (h:b.Grounded) (bid:ℕ) :
    (b.inheritBacking E e bid).Grounded:=by
  unfold Builder.inheritBacking
  split
  · exact h
  · rename_i key parent _
    have hbacking:=grounds_ensureBacking (b:=b) (E:=E) (e:=e) e.processUid key.kind
      key.backingId
    exact (((hbacking.grounded h).modifyNode (hbacking.id h) _).modifyState _ _).addEdge
      _ _ _ _ _ _ _

theorem Grounded.plainStart (h:b.Grounded) : (b.plainStart E e).Grounded:=by
  have horiginal : (b.ensureOriginal E e).Grounded:=by
    unfold ensureOriginal
    split
    · exact h
    · exact (h.addNode _).same rfl rfl rfl rfl
  have hinherit : ∀(ids:List ℕ) (c:Builder),c.Grounded →
      (ids.foldl (fun b bid=>b.inheritBacking E e bid) c).Grounded:=by
    intro ids
    induction ids with
    | nil=>exact fun c hc=>hc
    | cons bid ids ih=>exact fun c hc=>ih _ (hc.inheritBacking bid)
  exact hinherit _ _ horiginal

theorem Grounded.startEvent (h:b.Grounded) : (b.startEvent E e).Grounded:=by
  unfold Builder.startEvent
  split
  · unfold threadStart
    split
    · exact h.same rfl rfl rfl rfl
    · exact h
  · split
    · split
      · exact h.execHandoff _ _
      · exact h.plainStart
    · exact h.plainStart

theorem Grounded.allocationEvent (h:b.Grounded) : (b.allocationEvent E e).Grounded:=by
  unfold Builder.allocationEvent allocationNode
  split
  · exact h
  · rename_i r hr
    refine Grounded.addEdge ?_ _ _ _ _ _ _ _
    split at hr
    · rw [← some.inj hr]
      exact (grounds_ensureBacking _ _ _).grounded h
    · dsimp only at hr
      split at hr
      · have hregion:=grounds_eventRegion (b:=b) (E:=E) (e:=e) (targetUid e)
          (targetUid e != e.processUid)
        rw [← some.inj hr]
        dsimp only
        exact ((hregion.grounded h).modifyState _ _).modifyNode (hregion.id h) _
      · cases hr

theorem Grounded.protectEvent (h:b.Grounded) : (b.protectEvent E e).Grounded:=by
  unfold Builder.protectEvent protectNode
  split
  · exact h
  · split
    · exact h
    · rename_i r hr
      have hfound : r.2.Grounded:=by
        split at hr
        · rw [← some.inj hr]
          exact (grounds_ensureBacking _ _ _).grounded h
        · dsimp only at hr
          split at hr
          · rw [← some.inj hr]
            exact h
          · split at hr
            · rw [← some.inj hr]
              exact (grounds_eventRegion _ _).grounded h
            · cases hr
      exact (hfound.modifyState _ _).addEdge _ _ _ _ _ _ _

theorem grounds_rollOver (q start stop prior:ℕ) : Grounds b (b.rollOver E e q start stop prior):=by
  have hnode : ∀n key,b.Grounded → ((b.addNode n).2.nameRegion key (b.addNode n).1).Grounded:=
    fun n _ h=>(h.addNode n).nameRegion _ (names_addNode n)
  unfold rollOver
  dsimp only
  split <;> exact ⟨fun _=>⟨Nat.succ_ne_zero _,Nat.le_refl _⟩,fun h=>(hnode _ _ h).same rfl rfl rfl rfl⟩

theorem grounds_writeNode : Grounds b (b.writeNode E e):=by
  unfold writeNode
  split
  · exact grounds_ensureBacking _ _ _
  · dsimp only
    cases hroll : if mutationCandidate e then b.rollSameMappingMutation E e (targetUid e) else none with
    | none=>exact grounds_eventRegion _ _
    | some r=>
      split at hroll
      case isFalse=>cases hroll
      unfold rollSameMappingMutation at hroll
      split at hroll
      · cases hroll
      split at hroll
      case h_2=>cases hroll
      split at hroll
      · cases hroll
      split at hroll
      · cases hroll
      split at hroll
      · cases hroll
      rw [← some.inj hroll]
      exact grounds_rollOver _ _ _ _

theorem Grounded.writeEvent (h:b.Grounded) : (b.writeEvent E e).Grounded:=by
  have hnode:=grounds_writeNode (b:=b) (E:=E) (e:=e)
  have hrecord : ((b.writeNode E e).2.recordWrite E e (b.writeNode E e).1).Grounded:=by
    have hnote:=((hnode.grounded h).modifyState (b.writeNode E e).1 fun s=>
      {s with writeConfirmed:=true}).modifyNode (hnode.id h)
    unfold recordWrite
    dsimp only
    split
    · exact hnote _
    · exact ((hnote _).modifyState _ _).modifyNode (hnode.id h) _
  have hedges : ∀(b:Builder) (id:ℕ),b.Grounded → (b.writeEdges E e id).Grounded:=by
    intro b id hb
    have hnoted : (b.noteByteSource id (b.byteSource e)).Grounded:=by
      unfold noteByteSource
      split
      · exact hb.modifyState _ _
      · exact hb
    have himage : ((b.noteByteSource id (b.byteSource e)).imageEdge E e id).Grounded:=by
      unfold imageEdge
      split
      · exact hnoted.addEdge _ _ _ _ _ _ _
      · exact hnoted
    have hbyte : (((b.noteByteSource id (b.byteSource e)).imageEdge E e id).byteEdge E e id
        (b.byteSource e)).Grounded:=by
      unfold byteEdge
      split
      · exact himage.addEdge _ _ _ _ _ _ _
      · split
        · exact himage
        · exact himage.addEdge _ _ _ _ _ _ _
    unfold writeEdges
    dsimp only
    split
    · exact hbyte.modifyState _ _
    · exact hbyte
  unfold Builder.writeEvent
  dsimp only
  split <;> split
  · exact hrecord
  · exact hedges _ _ hrecord
  · exact hnode.grounded h
  · exact hedges _ _ (hnode.grounded h)

theorem grounds_executeNode : Grounds b (b.executeNode E e):=by
  unfold executeNode
  split
  · rename_i kind bid _
    have hbacking:=grounds_ensureBacking (b:=b) (E:=E) (e:=e) e.processUid kind bid
    refine ⟨hbacking.id,fun h=>?_⟩
    dsimp only
    exact (hbacking.grounded h).modifyState _ _
  · have hregion:=grounds_eventRegion (b:=b) (E:=E) (e:=e) e.processUid false
    constructor
    · intro h
      dsimp only
      cases hexisting : b.existingRegionForExecution e with
      | none=>exact hregion.id h
      | some id=>
        unfold existingRegionForExecution at hexisting
        split at hexisting
        · cases hexisting
        · obtain ⟨kv,hkv,rfl⟩:=map_eq_some_iff.mp hexisting
          have hnamed:=h.regions kv (List.mem_of_find?_eq_some hkv)
          have hcount:=(finds_eventRegion (b:=b) (E:=E) (e:=e) e.processUid false).quiet.count
          exact ⟨hnamed.1,hnamed.2.trans hcount⟩
    · intro h
      dsimp only
      exact (hregion.grounded h).modifyState _ _

theorem Grounded.runNode (h:b.Grounded) (hid:b.Names id) : (b.runNode E e id).Grounded:=by
  have hmarked : (b.markExecuted E e id).Grounded:=h.modifyNode hid _
  have hedge : ((b.markExecuted E e id).executionEdge E e id).Grounded:=by
    unfold executionEdge
    dsimp only
    cases fu64 e.fields "address" with
    | none=>exact hmarked.addEdge _ _ _ _ _ _ _
    | some a=>exact hmarked.same rfl rfl rfl rfl
  unfold Builder.runNode
  dsimp only
  split
  · exact hedge
  · apply Grounded.enterThread
    exact hedge.same rfl rfl rfl rfl

theorem Grounded.executeEvent (h:b.Grounded) : (b.executeEvent E e).Grounded:=by
  have hnode:=grounds_executeNode (b:=b) (E:=E) (e:=e)
  have hobserved : ((b.executeNode E e).2.observeExecution E e (b.executeNode E e).1).Grounded:=by
    unfold observeExecution
    dsimp only
    exact (((hnode.grounded h).modifyState _ _).noteUnknownWriter _ _).modifyState _ _
  have hnamed : ((b.executeNode E e).2.observeExecution E e (b.executeNode E e).1).Names
      (b.executeNode E e).1:=by
    unfold observeExecution
    exact Names.noteUnknownWriter (b:=(b.executeNode E e).2.modifyState _ _) (hnode.id h) _ _
  have hrun:=(hobserved.assignGeneration hnamed).runNode (E:=E) (e:=e)
    (hnamed.assignGeneration _)
  unfold Builder.executeEvent
  dsimp only
  split
  · exact hrun.same rfl rfl rfl rfl
  · exact hrun

theorem Grounded.step (h:b.Grounded) : (step E b e).Grounded:=by
  unfold Builder.step
  split
  · obtain ⟨l,hl⟩:=divergence_eq (b:=b.startEvent E e) (e:=e)
    rw [hl]
    exact h.startEvent.same rfl rfl rfl rfl
  · exact h.allocationEvent
  · exact h.allocationEvent
  · exact h.writeEvent
  · exact h.writeEvent
  · exact h.protectEvent
  · exact h.executeEvent
  · exact h

theorem grounded_run (timeline:List TimelineEvent) : (runEvents E timeline).Grounded:=by
  induction timeline using List.reverseRecOn with
  | nil=>exact grounded_initial
  | append_singleton timeline e ih=>
    rw [runEvents_concat]
    exact ih.step

end Builder

end AutoRefirst.Materialization
