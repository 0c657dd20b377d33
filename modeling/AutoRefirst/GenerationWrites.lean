import AutoRefirst.MaterializationFrames

/-!
# Evidence for generations

The edges of the graph tell why a node has a generation. A write edge is the evidence itself;
a backing that a child inherits, and the image of an exec handoff, take over what their source
has.
-/

namespace AutoRefirst.Materialization
open List

section
variable {edges edges' : List MaterializationEdge} {id p w : ℕ}

/-- The edge shows bytes that were written to the node. One without a source and without a
generation of the writer stands for an unknown writer. -/
structure IsWrite (x : MaterializationEdge) (id : ℕ) : Prop where
  destination : x.destinationNode=id
  kind : x.kind = .materializedByRuntime ∨ x.kind = .writtenFrom ∨ x.kind = .mutatedFrom
  confirmed : x.evidenceState = "CONFIRMED"

/-- The node took over what `p` has. -/
def TakenFrom (edges : List MaterializationEdge) (id p : ℕ) : Prop :=
  ∃ x∈edges, x.destinationNode=id ∧ x.sourceNode = some p ∧
    (x.kind = .childInherited ∨ x.kind = .execHandoffTo)

/-- What the node has goes back to `p`. -/
inductive Comes (edges : List MaterializationEdge) : ℕ → ℕ → Prop
  | refl (id : ℕ) : Comes edges id id
  | taken {id q p : ℕ} : TakenFrom edges id q → Comes edges q p → Comes edges id p

def Evidenced (edges : List MaterializationEdge) (id : ℕ) : Prop :=
  ∃ p, Comes edges id p ∧ ∃ x∈edges, IsWrite x p

def WrittenBy (edges : List MaterializationEdge) (id w : ℕ) : Prop :=
  ∃ p, Comes edges id p ∧ ∃ x∈edges, IsWrite x p ∧ x.writerExecutionGeneration = some w

/-- The node continues the mapping of `m`, which was executed before. -/
def RolledFrom (edges : List MaterializationEdge) (id m : ℕ) : Prop :=
  ∃ p, Comes edges id p ∧ ∃ x∈edges, IsWrite x p ∧ x.kind = .mutatedFrom ∧
    x.sourceNode = some m

def Inherited (edges : List MaterializationEdge) (id : ℕ) : Prop :=
  ∃ x∈edges, x.destinationNode=id ∧ x.kind = .childInherited

theorem TakenFrom.mono (hsub:edges ⊆ edges') (h:TakenFrom edges id p) :
    TakenFrom edges' id p:=by
  obtain ⟨x,hx,hrest⟩:=h
  exact ⟨x,hsub hx,hrest⟩

theorem Comes.mono (hsub:edges ⊆ edges') (h:Comes edges id p) : Comes edges' id p:=by
  induction h with
  | refl id=>exact .refl id
  | taken htaken _ ih=>exact .taken (htaken.mono hsub) ih

theorem Evidenced.mono (hsub:edges ⊆ edges') (h:Evidenced edges id) : Evidenced edges' id:=by
  obtain ⟨p,hp,x,hx,hwrite⟩:=h
  exact ⟨p,hp.mono hsub,x,hsub hx,hwrite⟩

theorem WrittenBy.mono (hsub:edges ⊆ edges') (h:WrittenBy edges id w) :
    WrittenBy edges' id w:=by
  obtain ⟨p,hp,x,hx,hwrite⟩:=h
  exact ⟨p,hp.mono hsub,x,hsub hx,hwrite⟩

theorem RolledFrom.mono (hsub:edges ⊆ edges') (h:RolledFrom edges id p) :
    RolledFrom edges' id p:=by
  obtain ⟨q,hq,x,hx,hwrite⟩:=h
  exact ⟨q,hq.mono hsub,x,hsub hx,hwrite⟩

theorem Inherited.mono (hsub:edges ⊆ edges') (h:Inherited edges id) : Inherited edges' id:=by
  obtain ⟨x,hx,hrest⟩:=h
  exact ⟨x,hsub hx,hrest⟩

theorem Evidenced.taken (htaken:TakenFrom edges id p) (h:Evidenced edges p) :
    Evidenced edges id:=by
  obtain ⟨q,hq,hwrite⟩:=h
  exact ⟨q,.taken htaken hq,hwrite⟩

theorem WrittenBy.taken (htaken:TakenFrom edges id p) (h:WrittenBy edges p w) :
    WrittenBy edges id w:=by
  obtain ⟨q,hq,hwrite⟩:=h
  exact ⟨q,.taken htaken hq,hwrite⟩

theorem RolledFrom.taken {m:ℕ} (htaken:TakenFrom edges id p) (h:RolledFrom edges p m) :
    RolledFrom edges id m:=by
  obtain ⟨q,hq,hwrite⟩:=h
  exact ⟨q,.taken htaken hq,hwrite⟩

end

namespace Builder

/-- `H m w` says that node `m` had generation `w` at some time. -/
structure Sound (H : ℕ→ℕ→Prop) (b : Builder) : Prop where
  valid : b.Valid
  threads : ∀ k w, b.threadGeneration k = some w → ∃ m, b.threadNode k = some m ∧ H m w
  entered : ∀ k m, b.threadNode k = some m → ∃ w, b.threadGeneration k = some w
  writers : ∀ x∈b.edges, ∀ w, x.writerExecutionGeneration = some w →
    ∃ m, H m w ∧ (x.kind = .materializedByRuntime → x.sourceNode = some m)
  emitted : ∀ id, (b.mark id).writeEdgeEmitted=true → Evidenced b.edges id
  writer : ∀ id w, (b.mark id).writerExecutionGeneration = some w → WrittenBy b.edges id w
  parent : ∀ id w, (b.mark id).mutationParentGeneration = some w →
    ∃ m, RolledFrom b.edges id m ∧ H m w
  generated : ∀ id g, b.generationOf id = some g → g≠0 →
    ((b.mark id).executed=true ∨ Inherited b.edges id) ∧ Evidenced b.edges id

section
variable {H : ℕ→ℕ→Prop} {b c : Builder} {E : Environment} {e : TimelineEvent}

theorem sound_initial : Sound H {}:=by
  have hmark : ∀id,mark {} id={}:=by
    intro id
    simp [mark]
  refine ⟨⟨by simp,by simp,by simp,by simp⟩,by simp,by simp,by simp,?_,?_,?_,?_⟩
  · intro id h
    rw [hmark] at h
    cases h
  · intro id w h
    rw [hmark] at h
    cases h
  · intro id w h
    rw [hmark] at h
    cases h
  · intro id g h
    rw [generationOf,hmark] at h
    cases h

theorem Sound.history {H':ℕ→ℕ→Prop} (hmono:∀m w,H m w → H' m w) (h:Sound H b) :
    Sound H' b:=by
  refine ⟨h.valid,?_,h.entered,?_,h.emitted,h.writer,?_,h.generated⟩
  · intro k w hk
    obtain ⟨m,hm,hw⟩:=h.threads k w hk
    exact ⟨m,hm,hmono m w hw⟩
  · intro x hx w hw
    obtain ⟨m,hm,hsrc⟩:=h.writers x hx w hw
    exact ⟨m,hmono m w hm,hsrc⟩
  · intro id w hw
    obtain ⟨m,hm,hH⟩:=h.parent id w hw
    exact ⟨m,hm,hmono m w hH⟩

theorem Sound.writerOn (h:Sound H b) {x:MaterializationEdge} (hx:WriterOn b x) :
    ∀w,x.writerExecutionGeneration=some w →
      ∃m,H m w ∧ (x.kind=.materializedByRuntime → x.sourceNode=some m):=by
  intro w hw
  obtain ⟨k,hk,hsrc⟩:=hx w hw
  obtain ⟨m,hm,hH⟩:=h.threads k w hk
  exact ⟨m,hH,fun hkind=>(hsrc hkind).trans hm⟩

/-- Marks may change and edges may come, as long as what is new is right. -/
theorem Sound.extend (h:Sound H b) (hvalid:c.Valid)
    (hgeneration:c.threadGeneration=b.threadGeneration) (hnode:c.threadNode=b.threadNode)
    {l:List MaterializationEdge} (hedges:c.edges=b.edges++l) (hl:∀x∈l,WriterOn b x)
    (hemitted:∀id,(c.mark id).writeEdgeEmitted=true →
      (b.mark id).writeEdgeEmitted=true ∨ Evidenced c.edges id)
    (hwriter:∀id w,(c.mark id).writerExecutionGeneration=some w →
      (b.mark id).writerExecutionGeneration=some w ∨ WrittenBy c.edges id w)
    (hparent:∀id w,(c.mark id).mutationParentGeneration=some w →
      (b.mark id).mutationParentGeneration=some w ∨ ∃m,RolledFrom c.edges id m ∧ H m w)
    (hgenerated:∀id g,c.generationOf id=some g → g≠0 →
      (b.generationOf id=some g ∧ ((b.mark id).executed=true → (c.mark id).executed=true)) ∨
        (((c.mark id).executed=true ∨ Inherited c.edges id) ∧ Evidenced c.edges id)) :
    Sound H c:=by
  have hsub : b.edges ⊆ c.edges:=by
    rw [hedges]
    exact subset_append_left _ _
  refine ⟨hvalid,?_,?_,?_,?_,?_,?_,?_⟩
  · rw [hgeneration,hnode]
    exact h.threads
  · rw [hgeneration,hnode]
    exact h.entered
  · intro x hx
    rw [hedges] at hx
    rcases mem_append.mp hx with hx | hx
    · exact h.writers x hx
    · exact h.writerOn (hl x hx)
  · intro id hid
    rcases hemitted id hid with hold | hnew
    · exact (h.emitted id hold).mono hsub
    · exact hnew
  · intro id w hw
    rcases hwriter id w hw with hold | hnew
    · exact (h.writer id w hold).mono hsub
    · exact hnew
  · intro id w hw
    rcases hparent id w hw with hold | hnew
    · obtain ⟨m,hm,hH⟩:=h.parent id w hold
      exact ⟨m,hm.mono hsub,hH⟩
    · exact hnew
  · intro id g hg hpos
    rcases hgenerated id g hg hpos with ⟨hold,hexec⟩ | hnew
    · obtain ⟨hwhy,hev⟩:=h.generated id g hold hpos
      exact ⟨hwhy.imp hexec (Inherited.mono hsub),hev.mono hsub⟩
    · exact hnew

theorem Sound.quiet (h:Sound H b) (hq:Quiet b c) (hvalid:c.Valid) : Sound H c:=by
  obtain ⟨l,hl,hw⟩:=hq.edges
  refine h.extend hvalid hq.threadGeneration hq.threadNode hl hw ?_ ?_ ?_ ?_
  · intro id hid
    exact .inl (hq.mark id▸hid)
  · intro id w hid
    exact .inl (hq.mark id▸hid)
  · intro id w hid
    exact .inl (hq.mark id▸hid)
  · intro id g hg _
    rw [generationOf,hq.mark] at hg
    exact .inl ⟨hg,fun hexec=>by rw [hq.mark];exact hexec⟩

end

end Builder

end AutoRefirst.Materialization

/-!
## Writes

A write gives no generation. It leaves the evidence that a later execution needs, and a write
to a mapping that was executed starts a new node.
-/

namespace AutoRefirst.Materialization.Builder
open List

variable {H : ℕ→ℕ→Prop} {b c : Builder} {E : Environment} {e : TimelineEvent}

def SameGenerations (b c : Builder) : Prop := ∀ id, c.generationOf id = b.generationOf id

theorem Quiet.sameGenerations (h:Quiet b c) : SameGenerations b c:=by
  intro id
  rw [generationOf,h.mark,generationOf]

theorem SameGenerations.trans {d:Builder} (h:SameGenerations b c) (h':SameGenerations c d) :
    SameGenerations b d:=
  fun id=>(h' id).trans (h id)

theorem edges_placeLastEdge {l:List MaterializationEdge} {x:MaterializationEdge}
    (h:b.edges=l++[x]) (address:ℕ) (size:Option ℕ) :
    (b.placeLastEdge address size).edges =
      l++[{x with address:=address,size:=size.getD x.size}]:=by
  rw [placeLastEdge,h]
  simp

theorem Valid.placeLastEdge (h:b.Valid) (address:ℕ) (size:Option ℕ) :
    (b.placeLastEdge address size).Valid:=
  ⟨h.backings,h.regions,h.threads,h.originals⟩

structure Rolled (b : Builder) (prior : ℕ) (r : ℕ×Builder) : Prop where
  id : r.1=b.nodeCount+1
  count : r.2.nodeCount=b.nodeCount+1
  valid : b.Valid → r.2.Valid
  edges : ∃ x, r.2.edges=b.edges++[x] ∧ IsWrite x (b.nodeCount+1) ∧ x.kind = .mutatedFrom ∧
    x.sourceNode = some prior ∧ x.writerExecutionGeneration=none
  mark : ∀ id, r.2.mark id = if id = b.nodeCount+1 then
      { writeEdgeEmitted:=true,mutationParentGeneration:=(b.nodes prior).generation }
    else b.mark id
  threadGeneration : r.2.threadGeneration=b.threadGeneration
  threadNode : r.2.threadNode=b.threadNode

variable {prior : ℕ} {r : ℕ×Builder}

theorem Rolled.placeLastEdge (h:Rolled b prior r) (address:ℕ) (size:Option ℕ) :
    Rolled b prior (r.1,r.2.placeLastEdge address size):=by
  obtain ⟨x,hx,hwrite,hkind,hsrc,hgen⟩:=h.edges
  refine ⟨h.id,h.count,fun hv=>(h.valid hv).placeLastEdge _ _,
    ⟨_,edges_placeLastEdge hx address size,⟨hwrite.1,hwrite.2,hwrite.3⟩,hkind,hsrc,hgen⟩,
    h.mark,h.threadGeneration,h.threadNode⟩

theorem rolled_addNode {n:MaterializationNode} (hg:n.generation=none)
    (hx:n.executed=false) (key:RegionKey) (prior:ℕ) (detail:String) :
    Rolled b prior ((b.addNode n).1,(((b.addNode n).2.nameRegion key (b.addNode n).1).modifyState
      (b.addNode n).1 fun s=>
        { s with
          writeConfirmed:=true,writeEdgeEmitted:=true
          mutationParentGeneration:=(b.nodes prior).generation }).addEdge E (some prior)
        (b.addNode n).1 .mutatedFrom (some e) "CONFIRMED" detail none):=by
  refine ⟨rfl,rfl,?_,⟨_,rfl,⟨rfl,.inr (.inr rfl),rfl⟩,rfl,rfl,rfl⟩,?_,rfl,rfl⟩
  · intro hv
    apply Valid.addEdge
    apply Valid.modifyState
    exact (hv.addNode _).nameRegion _ (addNode_le _ _)
  · intro id
    rw [mark_addEdge,mark_modifyState]
    have hmark : ((b.addNode n).2.nameRegion key (b.addNode n).1).mark id =
        (b.addNode n).2.mark id:=rfl
    rw [hmark,mark_addNode,hg,hx]
    by_cases hid : id=b.nodeCount+1
    · subst hid
      rw [if_pos ⟨rfl,Nat.le_refl _⟩,if_pos rfl,if_pos rfl]
      simp [addNode,nameRegion]
    · rw [if_neg fun h=>hid h.1,if_neg hid,if_neg hid]

theorem rolled_rollOver (processUid start stop prior:ℕ) :
    Rolled b prior (b.rollOver E e processUid start stop prior):=by
  unfold rollOver
  dsimp only
  split
  · exact (rolled_addNode rfl rfl _ _ _).placeLastEdge _ _
  · exact (rolled_addNode rfl rfl _ _ _).placeLastEdge _ _
  · exact rolled_addNode rfl rfl _ _ _

theorem rolled_of_some {processUid:ℕ} (hr:b.rollSameMappingMutation E e processUid=some r) :
    ∃prior,Rolled b prior r ∧ (b.Valid → prior≤b.nodeCount):=by
  unfold rollSameMappingMutation at hr
  split at hr
  · cases hr
  split at hr
  case h_2=>cases hr
  split at hr
  · cases hr
  split at hr
  · cases hr
  rename_i prior hprior
  split at hr
  · cases hr
  refine ⟨prior,?_,?_⟩
  · rw [← Option.some.inj hr]
    exact rolled_rollOver _ _ _ _
  · intro hv
    obtain ⟨kv,hkv,rfl⟩:=OrderedMap.mem_of_find hprior
    exact hv.regions kv hkv

theorem Rolled.sameGenerations (h:Rolled b prior r) : SameGenerations b r.2:=by
  intro id
  rw [generationOf,h.mark]
  split
  · rename_i hid
    rw [generationOf,Builder.mark,if_neg (by omega)]
  · rfl

theorem Sound.rolled (h:Sound H b) (hr:Rolled b prior r) (hprior:prior≤b.nodeCount)
    (hH:∀m w,b.generationOf m=some w → H m w) :
    Sound H r.2:=by
  obtain ⟨x,hx,hwrite,hkind,hsrc,hgen⟩:=hr.edges
  have hmem : x∈r.2.edges:=by
    rw [hx]
    exact mem_append_right _ (mem_singleton_self _)
  have hev : Evidenced r.2.edges (b.nodeCount+1):=⟨_,.refl _,x,hmem,hwrite⟩
  refine h.extend (hr.valid h.valid) hr.threadGeneration hr.threadNode hx ?_ ?_ ?_ ?_ ?_
  · intro y hy w hw
    rw [mem_singleton.mp hy,hgen] at hw
    cases hw
  · intro id hid
    rw [hr.mark] at hid
    split at hid
    · rename_i heq
      rw [heq]
      exact .inr hev
    · exact .inl hid
  · intro id w hw
    rw [hr.mark] at hw
    split at hw
    · cases hw
    · exact .inl hw
  · intro id w hw
    rw [hr.mark] at hw
    split at hw
    · rename_i heq
      rw [heq]
      refine .inr ⟨prior,⟨_,.refl _,x,hmem,hwrite,hkind,hsrc⟩,hH prior w ?_⟩
      rw [generationOf,Builder.mark,if_pos hprior]
      exact hw
    · exact .inl hw
  · intro id g hg _
    rw [hr.sameGenerations id] at hg
    refine .inl ⟨hg,fun hexec=>?_⟩
    rw [hr.mark,if_neg]
    · exact hexec
    · intro heq
      rw [heq,Builder.mark,if_neg (by omega)] at hexec
      cases hexec

theorem Quiet.addActiveEdge (h:Quiet b c) {src:Option ℕ} {dst:ℕ}
    {kind:MaterializationEdgeKind} {evidence detail:String}
    (hsrc:kind=.materializedByRuntime → src=c.activeNode E e) :
    Quiet b (c.addEdge E src dst kind (some e) evidence detail (c.activeGeneration E e)):=by
  apply h.addEdge
  intro v hv
  obtain ⟨k,hk,hnode⟩:=thread_of_active hv
  exact ⟨k,hk,fun hkind=>(hsrc hkind).trans hnode⟩

theorem Quiet.activeGeneration (h:Quiet b c) : c.activeGeneration E e=b.activeGeneration E e:=by
  rw [Builder.activeGeneration,h.threadGeneration,Builder.activeGeneration]

theorem mem_addEdge (src:Option ℕ) (dst:ℕ) (kind:MaterializationEdgeKind)
    (evidence detail:String) (w:Option ℕ) :
    ∃x∈(b.addEdge E src dst kind (some e) evidence detail w).edges,
      x.destinationNode=dst ∧ x.kind=kind ∧ x.evidenceState=evidence ∧
        x.sourceNode=src ∧ x.writerExecutionGeneration=w:=
  ⟨_,mem_append_right _ (mem_singleton_self _),rfl,rfl,rfl,rfl,rfl⟩

def Recorded (b : Builder) (E : Environment) (e : TimelineEvent) (id : ℕ) (c : Builder) : Prop :=
  writeConfirmedBy e = true →
    ∃ x∈c.edges, IsWrite x id ∧ x.writerExecutionGeneration = b.activeGeneration E e

theorem recorded_addEdge (h:Quiet b c) {src:Option ℕ} {id:ℕ}
    {kind:MaterializationEdgeKind} {detail:String}
    (hkind:kind=.materializedByRuntime ∨ kind=.writtenFrom ∨ kind=.mutatedFrom) :
    Recorded b E e id (c.addEdge E src id kind (some e)
      (if writeConfirmedBy e then "CONFIRMED" else "FAILED") detail
      (c.activeGeneration E e)):=by
  intro hconfirmed
  obtain ⟨x,hx,hdst,hk,hev,-,hw⟩:=mem_addEdge (b:=c) (E:=E) (e:=e) src id kind
    (if writeConfirmedBy e then "CONFIRMED" else "FAILED") detail (c.activeGeneration E e)
  refine ⟨x,hx,⟨hdst,hk▸hkind,?_⟩,hw.trans h.activeGeneration⟩
  rw [hev,hconfirmed]
  rfl

theorem quiet_noteByteSource (id:ℕ) (src:Option MaterializationNode) :
    Quiet b (b.noteByteSource id src):=by
  cases src with
  | none=>exact Quiet.refl b
  | some n=>
    unfold noteByteSource
    refine (Quiet.refl b).modifyState ?_ ?_ ?_ <;> intros <;> rfl

theorem quiet_imageEdge (id:ℕ) : Quiet b (b.imageEdge E e id):=by
  unfold imageEdge
  split
  · apply (Quiet.refl b).addActiveEdge
    intro h
    cases h
  · exact Quiet.refl b

theorem quiet_byteEdge (id:ℕ) (src:Option MaterializationNode) :
    Quiet b (b.byteEdge E e id src):=by
  unfold byteEdge
  cases src with
  | none=>
    dsimp only
    split
    · exact Quiet.refl b
    · exact (Quiet.refl b).addActiveEdge fun _=>rfl
  | some n=>
    apply (Quiet.refl b).addActiveEdge
    intro h
    cases h

theorem Valid.writeEdge (h:b.Valid) (id:ℕ) (src:Option MaterializationNode) :
    (((b.noteByteSource id src).imageEdge E e id).byteEdge E e id src).Valid:=by
  have hnote : (b.noteByteSource id src).Valid:=by
    unfold noteByteSource
    cases src with
    | none=>exact h
    | some n=>exact h.modifyState _ _
  have himage : ((b.noteByteSource id src).imageEdge E e id).Valid:=by
    unfold imageEdge
    split
    · exact hnote.addEdge _ _ _ _ _ _ _
    · exact hnote
  unfold byteEdge
  cases src with
  | none=>
    dsimp only
    split
    · exact himage
    · exact himage.addEdge _ _ _ _ _ _ _
  | some n=>exact himage.addEdge _ _ _ _ _ _ _

theorem isImageRegion_imageEdge (id:ℕ) :
    (b.imageEdge E e id).isImageRegion id=b.isImageRegion id:=by
  unfold imageEdge
  split <;> rfl

theorem recorded_writeEdge (id:ℕ) (src:Option MaterializationNode) : Recorded b E e id
      (((b.noteByteSource id src).imageEdge E e id).byteEdge E e id src):=by
  have hnote : Quiet b (b.noteByteSource id src):=quiet_noteByteSource id src
  cases src with
  | some n=>exact recorded_addEdge (hnote.trans (quiet_imageEdge id)) (.inr (.inl rfl))
  | none=>
    unfold byteEdge
    dsimp only
    rw [isImageRegion_imageEdge]
    split
    · rename_i himage
      rw [imageEdge,if_pos himage]
      exact recorded_addEdge hnote (.inr (.inr rfl))
    · exact recorded_addEdge (hnote.trans (quiet_imageEdge id)) (.inl rfl)

theorem writeEdges_eq (id:ℕ) : ∃c,Quiet b c ∧ (b.Valid → c.Valid) ∧ Recorded b E e id c ∧
    b.writeEdges E e id = if writeConfirmedBy e then
      c.modifyState id fun s=>{s with writeEdgeEmitted:=true} else c:=by
  refine ⟨_,?_,fun hv=>hv.writeEdge id (b.byteSource e),recorded_writeEdge id _,rfl⟩
  exact ((quiet_noteByteSource id _).trans (quiet_imageEdge id)).trans (quiet_byteEdge id _)

theorem quiet_noteWrite (id:ℕ) : Quiet b (b.noteWrite E e id):=by
  unfold noteWrite
  refine ((Quiet.refl b).modifyState ?_ ?_ ?_).modifyNode ?_ ?_ <;> intros <;> rfl

theorem mark_recordWrite (id j:ℕ) : (b.recordWrite E e id).mark j =
    if (j=id ∧ id≤b.nodeCount) ∧ mutationCandidate e = false then
      {b.mark j with writerExecutionGeneration:=b.activeGeneration E e}
    else b.mark j:=by
  unfold recordWrite
  dsimp only
  split
  · rename_i hcand
    rw [if_neg (by simp [hcand]),(quiet_noteWrite id).mark]
  · rename_i hcand
    rw [(quiet_noteWrite id).activeGeneration]
    generalize hc : b.noteWrite E e id=c
    have hquiet : Quiet b c:=hc▸quiet_noteWrite id
    have hcount : c.nodeCount=b.nodeCount:=by
      rw [← hc]
      rfl
    rw [mark_modifyNode,nodeCount_modifyState,hcount]
    by_cases hid : j=id ∧ id≤b.nodeCount
    · obtain ⟨rfl,hle⟩:=hid
      rw [if_pos ⟨rfl,hle⟩,if_pos ⟨⟨rfl,hle⟩,by simpa using hcand⟩,mark_modifyState,hcount,
        if_pos ⟨rfl,hle⟩,← hquiet.mark,mark,if_pos (hcount▸hle)]
      rfl
    · rw [if_neg hid,mark_modifyState,hcount,if_neg hid,if_neg fun h=>hid h.1,hquiet.mark]

theorem sameGenerations_recordWrite (id:ℕ) : SameGenerations b (b.recordWrite E e id):=by
  intro j
  rw [generationOf,mark_recordWrite]
  split <;> rfl

theorem Valid.recordWrite (h:b.Valid) (id:ℕ) : (b.recordWrite E e id).Valid:=by
  have hnote : (b.noteWrite E e id).Valid:=(h.modifyState _ _).modifyNode _ _
  unfold Builder.recordWrite
  dsimp only
  split
  · exact hnote
  · exact (hnote.modifyState _ _).modifyNode _ _

theorem quiet_recordWrite (hcand:mutationCandidate e=true) (id:ℕ) :
    Quiet b (b.recordWrite E e id):=by
  unfold recordWrite
  dsimp only
  rw [if_pos hcand]
  exact quiet_noteWrite id

theorem edges_recordWrite (id:ℕ) : (b.recordWrite E e id).edges=b.edges:=by
  unfold recordWrite
  dsimp only
  split <;> rfl

theorem threads_recordWrite (id:ℕ) : (b.recordWrite E e id).threadGeneration=b.threadGeneration ∧
      (b.recordWrite E e id).threadNode=b.threadNode:=by
  unfold recordWrite
  dsimp only
  split <;> exact ⟨rfl,rfl⟩

theorem Sound.writeEdges_unconfirmed (h:Sound H b) (hconfirmed:writeConfirmedBy e=false)
    (id:ℕ) : Sound H (b.writeEdges E e id):=by
  obtain ⟨c,hquiet,hvalid,-,heq⟩:=writeEdges_eq (b:=b) (E:=E) (e:=e) id
  rw [heq,hconfirmed,if_neg (by decide)]
  exact h.quiet hquiet (hvalid h.valid)

theorem Sound.writeEdges_confirmed (h:Sound H b) (hconfirmed:writeConfirmedBy e=true)
    (id:ℕ) : Sound H ((b.recordWrite E e id).writeEdges E e id):=by
  obtain ⟨hgeneration,hnode⟩:=threads_recordWrite (b:=b) (E:=E) (e:=e) id
  have hactive : (b.recordWrite E e id).activeGeneration E e=b.activeGeneration E e:=by
    rw [activeGeneration,hgeneration,activeGeneration]
  obtain ⟨c,hquiet,hvalid,hrecorded,heq⟩:=writeEdges_eq (b:=b.recordWrite E e id) (E:=E) (e:=e) id
  obtain ⟨x,hx,hwrite,hgen⟩:=hrecorded hconfirmed
  obtain ⟨l,hl,hwriters⟩:=hquiet.edges
  rw [edges_recordWrite] at hl
  rw [heq,if_pos hconfirmed]
  generalize hd : c.modifyState id _=d
  have hedges : d.edges=c.edges:=by
    rw [← hd]
    rfl
  have hmark : ∀j,(d.mark j).writerExecutionGeneration=(c.mark j).writerExecutionGeneration ∧
      (d.mark j).mutationParentGeneration=(c.mark j).mutationParentGeneration ∧
      (d.mark j).generation=(c.mark j).generation ∧
      (d.mark j).executed=(c.mark j).executed ∧
      ((d.mark j).writeEdgeEmitted=true → j=id ∨ (c.mark j).writeEdgeEmitted=true):=by
    intro j
    rw [← hd,mark_modifyState]
    split
    · rename_i hj
      refine ⟨?_,?_,rfl,rfl,fun _ => .inl hj.1⟩ <;>
        rw [hj.1,Builder.mark,if_pos hj.2]
    · exact ⟨rfl,rfl,rfl,rfl,.inr⟩
  refine h.extend ?_ ?_ ?_ (hedges.trans hl) ?_ ?_ ?_ ?_ ?_
  · rw [← hd]
    exact (hvalid (h.valid.recordWrite id)).modifyState _ _
  · rw [← hd]
    exact hquiet.threadGeneration.trans hgeneration
  · rw [← hd]
    exact hquiet.threadNode.trans hnode
  · intro y hy w hw
    obtain ⟨k,hk,hsrc⟩:=hwriters y hy w hw
    exact ⟨k,hgeneration▸hk,hnode▸hsrc⟩
  · intro j hj
    rcases (hmark j).2.2.2.2 hj with rfl | hold
    · exact .inr ⟨_,.refl _,x,hedges▸hx,hwrite⟩
    · rw [hquiet.mark,mark_recordWrite] at hold
      left
      split at hold <;> exact hold
  · intro j w hj
    rw [(hmark j).1,hquiet.mark,mark_recordWrite] at hj
    split at hj
    · rename_i hcond
      obtain ⟨⟨rfl,-⟩,-⟩:=hcond
      exact .inr ⟨_,.refl _,x,hedges▸hx,hwrite,(hgen.trans hactive).trans hj⟩
    · exact .inl hj
  · intro j w hj
    rw [(hmark j).2.1,hquiet.mark,mark_recordWrite] at hj
    left
    split at hj <;> exact hj
  · intro j g hj _
    have hexec : (d.mark j).executed=(b.mark j).executed:=by
      rw [(hmark j).2.2.2.1,hquiet.mark,mark_recordWrite]
      split <;> rfl
    rw [generationOf,(hmark j).2.2.1,hquiet.mark] at hj
    exact .inl ⟨sameGenerations_recordWrite (E:=E) (e:=e) id j▸hj, fun hold=>hexec.trans hold⟩

theorem writeNode_cases : Finds b (b.writeNode E e) ∨
    ∃prior,Rolled b prior (b.writeNode E e) ∧ (b.Valid → prior≤b.nodeCount):=by
  unfold writeNode
  split
  · exact .inl (finds_ensureBacking _ _ _)
  · dsimp only
    split
    · cases hroll : b.rollSameMappingMutation E e (targetUid e) with
      | none=>exact .inl (finds_eventRegion _ _)
      | some r=>exact .inr (rolled_of_some hroll)
    · exact .inl (finds_eventRegion _ _)

theorem Sound.writeNode (h:Sound H b) (hH:∀m w,b.generationOf m=some w → H m w) :
    Sound H (b.writeNode E e).2:=by
  rcases writeNode_cases (b:=b) (E:=E) (e:=e) with hfinds | ⟨prior,hrolled,hle⟩
  · exact h.quiet hfinds.quiet (hfinds.valid h.valid).1
  · exact h.rolled hrolled (hle h.valid) hH

theorem sameGenerations_writeNode : SameGenerations b (b.writeNode E e).2:=by
  rcases writeNode_cases (b:=b) (E:=E) (e:=e) with hfinds | ⟨prior,hrolled,-⟩
  · exact hfinds.quiet.sameGenerations
  · exact hrolled.sameGenerations

theorem sameGenerations_writeEdges (id:ℕ) : SameGenerations b (b.writeEdges E e id):=by
  obtain ⟨c,hquiet,-,-,heq⟩:=writeEdges_eq (b:=b) (E:=E) (e:=e) id
  rw [heq]
  refine hquiet.sameGenerations.trans ?_
  intro j
  split
  · rw [generationOf,mark_modifyState]
    split <;> rfl
  · rfl

theorem sameGenerations_writeEvent : SameGenerations b (b.writeEvent E e):=by
  have hnode : SameGenerations b (b.writeNode E e).2:=sameGenerations_writeNode
  have hrecord : SameGenerations b (if writeConfirmedBy e then
      (b.writeNode E e).2.recordWrite E e (b.writeNode E e).1 else (b.writeNode E e).2):=by
    split
    · exact hnode.trans (sameGenerations_recordWrite _)
    · exact hnode
  unfold writeEvent
  dsimp only
  generalize (if writeConfirmedBy e then (b.writeNode E e).2.recordWrite E e
    (b.writeNode E e).1 else (b.writeNode E e).2) = c at hrecord ⊢
  split
  · exact hrecord
  · exact hrecord.trans (sameGenerations_writeEdges _)

theorem Sound.writeEvent (h:Sound H b) (hH:∀m w,b.generationOf m=some w → H m w) :
    Sound H (b.writeEvent E e):=by
  have hnode : Sound H (b.writeNode E e).2:=h.writeNode hH
  unfold Builder.writeEvent
  dsimp only
  cases hconfirmed : writeConfirmedBy e with
  | false=>
    have hcand : mutationCandidate e=false:=by simp [mutationCandidate,hconfirmed]
    simp only [hcand,Bool.false_and,Bool.false_eq_true,if_false]
    exact hnode.writeEdges_unconfirmed hconfirmed _
  | true=>
    rw [if_pos rfl]
    split
    · rename_i hcand
      simp only [Bool.and_eq_true] at hcand
      exact hnode.quiet (quiet_recordWrite hcand.1 _) (hnode.valid.recordWrite _)
    · exact hnode.writeEdges_confirmed hconfirmed _

end AutoRefirst.Materialization.Builder
