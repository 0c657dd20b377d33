import AutoRefirst.GenerationInheritance
import Mathlib.Data.List.Induction

/-!
# Generations over whole runs

Whatever events come in whatever order, a node with a generation above zero has evidence, and
its generation counts from the code that wrote it.
-/

namespace AutoRefirst.Materialization
open List

namespace Builder

variable {H : ℕ→ℕ→Prop} {b c : Builder} {E : Environment} {e : TimelineEvent}

/-- A divergence that is noted changes nothing else. -/
theorem divergence_eq : ∃l,b.semanticExecHandoffDivergence e = {b with divergences:=l}:=by
  unfold semanticExecHandoffDivergence
  split
  · exact ⟨b.divergences,rfl⟩
  · split
    · exact ⟨b.divergences,rfl⟩
    · split
      · exact ⟨_,rfl⟩
      · exact ⟨b.divergences,rfl⟩

theorem Sound.divergences (h:Sound H b) (l:List RuntimeSemanticDivergence) :
    Sound H {b with divergences:=l}:=
  ⟨⟨h.valid.backings,h.valid.regions,h.valid.threads,h.valid.originals⟩,h.threads,h.entered,
    h.writers,h.emitted,h.writer,h.parent,h.generated⟩

theorem Sound.step (h:Sound H b) (hbefore:∀m w,b.generationOf m=some w → H m w)
    (hafter:∀m w,(step E b e).generationOf m=some w → H m w) :
    Sound H (step E b e):=by
  unfold Builder.step at hafter ⊢
  split
  · rename_i hkind
    rw [hkind] at hafter
    obtain ⟨l,hl⟩:=divergence_eq (b:=b.startEvent E e) (e:=e)
    dsimp only at hafter
    rw [hl] at hafter ⊢
    exact (h.startEvent hafter).divergences l
  · exact h.quiet quiet_allocationEvent (valid_allocationEvent h.valid)
  · exact h.quiet quiet_allocationEvent (valid_allocationEvent h.valid)
  · exact h.writeEvent hbefore
  · exact h.writeEvent hbefore
  · exact h.quiet quiet_protectEvent (valid_protectEvent h.valid)
  · rename_i hkind
    rw [hkind] at hafter
    exact h.executeEvent hafter
  · exact h

theorem explains_step (hv:b.Valid) : Explains b (step E b e):=by
  unfold step
  split
  · obtain ⟨l,hl⟩:=divergence_eq (b:=b.startEvent E e) (e:=e)
    rw [hl]
    exact explains_startEvent hv
  · exact quiet_allocationEvent.sameGenerations.explains
  · exact quiet_allocationEvent.sameGenerations.explains
  · exact sameGenerations_writeEvent.explains
  · exact sameGenerations_writeEvent.explains
  · exact quiet_protectEvent.sameGenerations.explains
  · exact explains_executeEvent
  · exact Explains.refl b

theorem sameGenerations_step
    (hkind:e.kind=.memoryAllocate ∨ e.kind=.fileCreate ∨ e.kind=.memoryProtect) :
    SameGenerations b (step E b e):=by
  unfold step
  rcases hkind with hkind | hkind | hkind
  · rw [hkind]
    exact quiet_allocationEvent.sameGenerations
  · rw [hkind]
    exact quiet_allocationEvent.sameGenerations
  · rw [hkind]
    exact quiet_protectEvent.sameGenerations

def Held (E : Environment) (timeline : List TimelineEvent) (id g : ℕ) : Prop :=
  ∃ pre, pre <+: timeline ∧ (runEvents E pre).generationOf id = some g

theorem Held.extend {timeline more:List TimelineEvent} {id g:ℕ}
    (h:Held E timeline id g) : Held E (timeline++more) id g:=by
  obtain ⟨pre,hpre,hg⟩:=h
  exact ⟨pre,hpre.trans (prefix_append _ _),hg⟩

theorem runEvents_concat (timeline:List TimelineEvent) (e:TimelineEvent) :
    runEvents E (timeline++[e])=step E (runEvents E timeline) e:=by
  simp [runEvents,foldl_append]

theorem sound_runEvents (E:Environment) (timeline:List TimelineEvent) :
    Sound (Held E timeline) (runEvents E timeline):=by
  induction timeline using List.reverseRecOn with
  | nil=>exact sound_initial
  | append_singleton timeline e ih=>
    rw [runEvents_concat]
    refine (ih.history fun m w h=>h.extend).step ?_ ?_
    · intro m w hw
      exact ⟨timeline,prefix_append _ _,hw⟩
    · intro m w hw
      exact ⟨timeline++[e],prefix_refl _,(runEvents_concat timeline e)▸hw⟩

/-- The nodes of the run stay as they are, and nodes and edges are added. -/
structure Extends (b c : Builder) : Prop where
  count : b.nodeCount ≤ c.nodeCount
  nodes : ∀ id≤b.nodeCount, c.nodes id = b.nodes id
  states : ∀ id≤b.nodeCount, c.states id = b.states id
  edges : b.edges <+: c.edges

theorem Extends.refl (b:Builder) : Extends b b:=
  ⟨Nat.le_refl _,fun _ _=>rfl,fun _ _=>rfl,prefix_refl _⟩

theorem Extends.trans {d:Builder} (h:Extends b c) (h':Extends c d) : Extends b d:=by
  refine ⟨h.count.trans h'.count,?_,?_,h.edges.trans h'.edges⟩
  · intro id hid
    rw [h'.nodes id (hid.trans h.count),h.nodes id hid]
  · intro id hid
    rw [h'.states id (hid.trans h.count),h.states id hid]

theorem extends_addNode (n:MaterializationNode) : Extends b (b.addNode n).2:=by
  refine ⟨Nat.le_succ _,?_,?_,prefix_refl _⟩
  · intro id hid
    exact Function.update_of_ne (by omega) _ _
  · intro id hid
    exact Function.update_of_ne (by omega) _ _

theorem Extends.addEdge (h:Extends b c) (src:Option ℕ) (dst:ℕ)
    (kind:MaterializationEdgeKind) (o:Option TimelineEvent) (evidence detail:String)
    (w:Option ℕ) : Extends b (c.addEdge E src dst kind o evidence detail w):=
  ⟨h.count,h.nodes,h.states,h.edges.trans (prefix_append _ _)⟩

theorem Extends.modifyNode (h:Extends b c) {id:ℕ} (hid:b.nodeCount < id)
    (f:MaterializationNode→MaterializationNode) : Extends b (c.modifyNode id f):=by
  refine ⟨h.count,?_,h.states,h.edges⟩
  intro j hj
  have hne : j≠id:=by omega
  exact (Function.update_of_ne hne _ _).trans (h.nodes j hj)

theorem extends_installArtifact (a:RuntimeArtifact) (id:ℕ) (replacement:ReplacementReport) :
    Extends b (b.installArtifact E a id replacement):=by
  unfold installArtifact
  dsimp only
  generalize inheritArtifact _ _ = n
  have hnode : Extends b ((b.addNode n).2.addEdge E (some id) (b.addNode n).1 .installedAs none
      "CONFIRMED" "standalone-validated image installed at target path" none):=
    (extends_addNode n).addEdge _ _ _ _ _ _ _
  split
  · exact ⟨hnode.count,hnode.nodes,hnode.states,hnode.edges⟩
  · exact hnode

theorem Extends.linkArtifact (h:Extends b c) (kind:MaterializationNodeKind) {id:ℕ}
    (hid:b.nodeCount < id) (src:Option ℕ) : Extends b (c.linkArtifact E kind id src):=by
  unfold Builder.linkArtifact
  cases src with
  | none=>
    dsimp only
    split
    · exact h.addEdge _ _ _ _ _ _ _
    · exact h.addEdge _ _ _ _ _ _ _
  | some src=>
    dsimp only
    split
    · exact (h.modifyNode hid _).addEdge _ _ _ _ _ _ _
    · exact (h.modifyNode hid _).addEdge _ _ _ _ _ _ _

theorem extends_artifactStep (a:RuntimeArtifact) : Extends b (artifactStep E b a):=by
  unfold artifactStep
  split
  · exact Extends.refl b
  · rename_i kind _
    dsimp only
    have hadded : Extends b (b.addArtifact E a kind).2:=by
      unfold addArtifact
      dsimp only
      generalize hn : b.addNode _=r
      have hnode : Extends b r.2:=hn▸extends_addNode _
      exact ⟨hnode.count,hnode.nodes,hnode.states,hnode.edges⟩
    have hlinked:=@Extends.linkArtifact _ _ E hadded kind (b.addArtifact E a kind).1
      (Nat.lt_succ_self b.nodeCount) ((b.addArtifact E a kind).2.findSourceForArtifact a)
    split
    · split
      · exact hlinked.trans (extends_installArtifact _ _ _)
      · exact hlinked
    · exact hlinked

theorem extends_artifactsPhase : Extends b (b.artifactsPhase E):=by
  unfold artifactsPhase
  generalize E.artifacts = l
  induction l generalizing b with
  | nil=>exact Extends.refl b
  | cons a l ih=>exact (extends_artifactStep a).trans ih

theorem Extends.nodeList (h:Extends b c) : b.nodeList <+: c.nodeList:=by
  obtain ⟨k,hk⟩:=Nat.exists_eq_add_of_le h.count
  have hsame : b.nodeList = (List.range b.nodeCount).map fun i=>c.nodes (i+1):=by
    apply map_congr_left
    intro i hi
    exact (h.nodes (i+1) (mem_range.mp hi)).symm
  rw [hsame,Builder.nodeList,hk,range_add,map_append]
  exact prefix_append _ _

theorem nodeList_prefix (timeline:List TimelineEvent) :
    (runEvents E timeline).nodeList <+: (buildMaterializationGraph E timeline).nodes:=
  (extends_artifactsPhase (E:=E)).nodeList

/-- The writer from which an execution of the node counts. -/
def WriterOf (H : ℕ→ℕ→Prop) (edges : List MaterializationEdge) (id w : ℕ) : Prop :=
  ∃ p, Comes edges id p ∧ ∃ x∈edges, IsWrite x p ∧ ∃ m, H m w ∧
    ((x.kind = .mutatedFrom ∧ x.sourceNode = some m) ∨
      (x.writerExecutionGeneration = some w ∧
        (x.kind = .materializedByRuntime → x.sourceNode = some m)))

theorem Sound.writerOf (h:Sound H b) {id w:ℕ} (hw:b.knownWriter id=some w) :
    WriterOf H b.edges id w:=by
  rw [knownWriter,Option.or_eq_some_iff] at hw
  rcases hw with hparent | ⟨-,hwriter⟩
  · obtain ⟨m,⟨p,hp,x,hx,hwrite,hkind,hsrc⟩,hH⟩:=h.parent id w hparent
    exact ⟨p,hp,x,hx,hwrite,m,hH,Or.inl ⟨hkind,hsrc⟩⟩
  · obtain ⟨p,hp,x,hx,hwrite,hgen⟩:=h.writer id w hwriter
    obtain ⟨m,hH,hsrc⟩:=h.writers x hx w hgen
    exact ⟨p,hp,x,hx,hwrite,m,hH,Or.inr ⟨hgen,hsrc⟩⟩

end Builder

open Builder

/-- Generations come from executions and from taking over what another node has, and each
counts from the code that wrote the bytes. -/
theorem generations_sound (E : Environment) (timeline : List TimelineEvent) :
    (∀ (b : Builder) (e : TimelineEvent),
      e.kind=.memoryAllocate ∨ e.kind=.fileCreate ∨ e.kind=.memoryProtect →
        ∀ id, (step E b e).generationOf id=b.generationOf id) ∧
    (∀ id g, (runEvents E timeline).generationOf id=some g → 1≤g →
      (((runEvents E timeline).mark id).executed=true ∨ Inherited (runEvents E timeline).edges id) ∧
      Evidenced (runEvents E timeline).edges id) ∧
    (∀ (e : TimelineEvent) (id g : ℕ), (step E (runEvents E timeline) e).generationOf id=some g →
        (runEvents E timeline).generationOf id=some g ∨
        Assigned (runEvents E timeline) (step E (runEvents E timeline) e).original
          (step E (runEvents E timeline) e).edges id g) ∧
    (∀ id w, (runEvents E timeline).knownWriter id=some w →
      WriterOf (Held E timeline) (runEvents E timeline).edges id w) ∧
    (runEvents E timeline).nodeList <+: (buildMaterializationGraph E timeline).nodes := by
  have hsound:=sound_runEvents E timeline
  refine ⟨fun b e hkind=>sameGenerations_step hkind,?_,fun e=>explains_step hsound.valid,
    fun id w hw=>hsound.writerOf hw, nodeList_prefix timeline⟩
  intro id g hg hpos
  exact hsound.generated id g hg (by omega)

section
/-- A process writes a backing and executes it; its child, which inherits the backing, does
not. -/
def inheritedRun : List TimelineEvent :=
  [{kind:=.processStart,processUid:=1,pid:=10,fields:=[("scope","root_process")]},
    { kind:=.fileWrite,processUid:=1,pid:=10,
      fields:=[("backing_id","5"),("backing_kind","memfd")] },
    { kind:=.materializedExecute,processUid:=1,pid:=10,
      fields:=[("backing_id","5"),("backing_kind","memfd")] },
    { kind:=.processStart,processUid:=2,parentUid:=1,pid:=11,
      fields:=[("inherited_backing_ids","5")] }]

/-- A backing of generation one writes to itself and is handed to `exec`. -/
def rewrittenRun : List TimelineEvent :=
  [{kind:=.processStart,processUid:=1,pid:=10,fields:=[("scope","root_process")]},
    { kind:=.fileWrite,processUid:=1,pid:=10,
      fields:=[("backing_id","5"),("backing_kind","memfd")] },
    { kind:=.materializedExecute,processUid:=1,pid:=10,
      fields:=[("backing_id","5"),("backing_kind","memfd")] },
    { kind:=.fileWrite,processUid:=1,pid:=10,
      fields:=[("backing_id","5"),("backing_kind","memfd")] },
    { kind:=.processStart,processUid:=1,pid:=10,subject := "runtime_backing_exec_handoff",
      fields:=[("exec_image_identity_match","true"),("backing_id","5"),
        ("backing_kind","memfd")] }]

/-- The child's backing has a generation, and it was neither executed nor handed over. The new
image has the generation of its writer, not one more. -/
theorem generation_without_execution : ((runEvents {} inheritedRun).generationOf 4=some 1 ∧
      ((runEvents {} inheritedRun).mark 4).executed=false ∧
      ((runEvents {} inheritedRun).edges.all fun x=>x.kind != .execHandoffTo) = true) ∧
    ((runEvents {} (rewrittenRun.take 4)).generationOf 3=none ∧
      (runEvents {} rewrittenRun).generationOf 3=some 1 ∧
      ((runEvents {} rewrittenRun).nodes 3).writerExecutionGeneration=some 1):=by
  decide +kernel

end

end AutoRefirst.Materialization
