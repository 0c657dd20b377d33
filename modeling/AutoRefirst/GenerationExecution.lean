import AutoRefirst.GenerationWrites

/-!
# Executions

Only an execution gives a generation, and it does so on evidence: bytes that are known to be
written have a write edge by then, if only one that says the writer is unknown.
-/

namespace AutoRefirst.Materialization

/-- What the next execution of the node would count from. -/
def Builder.knownWriter (b : Builder) (id : ℕ) : Option ℕ :=
  (b.mark id).mutationParentGeneration.or (b.mark id).writerExecutionGeneration

/-- How a node comes to its generation in the step from `b`. -/
inductive Assigned (b : Builder) (original : ℕ→Option ℕ) (edges : List MaterializationEdge) :
    ℕ → ℕ → Prop
  | image {p id : ℕ} : original p = some id → Assigned b original edges id 0
  | next {id w : ℕ} : b.knownWriter id = some w →
      Assigned b original edges id ((w+1) % 2^32)
  | first {id : ℕ} : b.knownWriter id = none → Assigned b original edges id 1
  | held {id src g : ℕ} : TakenFrom edges id src → b.generationOf src = some g →
      Assigned b original edges id g
  | taken {id src g : ℕ} : TakenFrom edges id src → Assigned b original edges src g →
      Assigned b original edges id g

theorem Assigned.mono {b:Builder} {original original':ℕ→Option ℕ} {edges edges':List MaterializationEdge}
    (horiginal:∀p id,original p=some id → original' p=some id) (hsub:edges ⊆ edges')
    {id g:ℕ} (h:Assigned b original edges id g) : Assigned b original' edges' id g:=by
  induction h with
  | image hp=>exact .image (horiginal _ _ hp)
  | next hw=>exact .next hw
  | first hw=>exact .first hw
  | held htaken hg=>exact .held (htaken.mono hsub) hg
  | taken htaken _ ih=>exact .taken (htaken.mono hsub) ih

namespace Builder

variable {H : ℕ→ℕ→Prop} {b c d : Builder} {E : Environment} {e : TimelineEvent}

def Explains (b c : Builder) : Prop := ∀ id g, c.generationOf id = some g →
  b.generationOf id = some g ∨ Assigned b c.original c.edges id g

theorem Explains.refl (b:Builder) : Explains b b:=fun _ _ h => .inl h

theorem Assigned.quiet {original:ℕ→Option ℕ} {edges:List MaterializationEdge} {id g:ℕ}
    (h:Assigned c original edges id g) (hquiet:Quiet b c) :
    Assigned b original edges id g:=by
  induction h with
  | image hp=>exact .image hp
  | next hw=>
    rw [knownWriter,hquiet.mark] at hw
    exact .next hw
  | first hw=>
    rw [knownWriter,hquiet.mark] at hw
    exact .first hw
  | held htaken hg=>
    rw [hquiet.sameGenerations] at hg
    exact .held htaken hg
  | taken htaken _ ih=>exact .taken htaken ih

theorem Quiet.explains (hquiet:Quiet b c) (h:Explains c d) : Explains b d:=by
  intro id g hg
  rcases h id g hg with hold | hassigned
  · rw [hquiet.sameGenerations] at hold
    exact .inl hold
  · exact .inr (Assigned.quiet hassigned hquiet)

theorem SameGenerations.explains (h:SameGenerations b c) : Explains b c:=by
  intro id g hg
  exact .inl (h id▸hg)

/-- Later changes that give no generation do not matter. -/
theorem Explains.same (h:Explains b c) (hsame:SameGenerations c d)
    (horiginal:∀p id,c.original p=some id → d.original p=some id)
    (hsub:c.edges ⊆ d.edges) : Explains b d:=by
  intro id g hg
  rw [hsame id] at hg
  exact (h id g hg).imp_right (Assigned.mono horiginal hsub)

theorem Explains.takeOver (h:Explains b c) {i src:ℕ}
    (hother:∀id,id≠i → d.generationOf id=c.generationOf id)
    (htake:∀g,d.generationOf i=some g → c.generationOf src=some g)
    (htaken:TakenFrom d.edges i src)
    (horiginal:∀p id,c.original p=some id → d.original p=some id)
    (hsub:c.edges ⊆ d.edges) : Explains b d:=by
  intro id g hg
  by_cases hid : id=i
  · subst hid
    right
    rcases h src g (htake g hg) with hheld | hassigned
    · exact .held htaken hheld
    · exact .taken htaken (hassigned.mono horiginal hsub)
  · rw [hother id hid] at hg
    exact (h id g hg).imp_right (Assigned.mono horiginal hsub)

theorem Valid.noteUnknownWriter (h:b.Valid) (id:ℕ) (detail:String) :
    (b.noteUnknownWriter E e id detail).Valid:=by
  unfold Builder.noteUnknownWriter
  split
  · exact (h.addEdge _ _ _ _ _ _ _).modifyState _ _
  · exact h

theorem mark_noteUnknownWriter (id:ℕ) (detail:String) (j:ℕ) :
    ∃v,(b.noteUnknownWriter E e id detail).mark j =
      {b.mark j with writeEdgeEmitted:=v}:=by
  unfold noteUnknownWriter
  split
  · rw [mark_modifyState]
    split
    · rename_i hj
      have hle : id≤b.nodeCount:=hj.2
      refine ⟨true,?_⟩
      rw [mark_addEdge,hj.1]
      simp [mark,hle,addEdge]
    · exact ⟨(b.mark j).writeEdgeEmitted,rfl⟩
  · exact ⟨(b.mark j).writeEdgeEmitted,rfl⟩

theorem Sound.noteUnknownWriter (h:Sound H b) (id:ℕ) (detail:String) :
    Sound H (b.noteUnknownWriter E e id detail):=by
  have hmark:=mark_noteUnknownWriter (b:=b) (E:=E) (e:=e) id detail
  have hvalid:=h.valid.noteUnknownWriter (E:=E) (e:=e) id detail
  unfold Builder.noteUnknownWriter at hmark hvalid ⊢
  split
  · rename_i hcond
    rw [if_pos hcond] at hmark hvalid
    obtain ⟨x,hx,hdst,hkind,hev,-,-⟩:=mem_addEdge (b:=b) (E:=E) (e:=e) none id
      .materializedByRuntime "CONFIRMED" detail none
    refine h.extend hvalid rfl rfl rfl ?_ ?_ ?_ ?_ ?_
    · intro y hy w hw
      rw [List.mem_singleton.mp hy] at hw
      cases hw
    · intro j hj
      rw [mark_modifyState] at hj
      split at hj
      · rename_i hcond
        rw [hcond.1]
        exact .inr ⟨id,.refl id,x,hx,hdst,.inl hkind,hev⟩
      · exact .inl hj
    · intro j w hj
      obtain ⟨v,hv⟩:=hmark j
      rw [hv] at hj
      exact .inl hj
    · intro j w hj
      obtain ⟨v,hv⟩:=hmark j
      rw [hv] at hj
      exact .inl hj
    · intro j g hj _
      obtain ⟨v,hv⟩:=hmark j
      rw [generationOf,hv] at hj
      exact .inl ⟨hj,fun hexec=>by rw [hv];exact hexec⟩
  · exact h

theorem Sound.evidence_noteUnknownWriter (h:Sound H b) {id:ℕ} (hid:id≤b.nodeCount)
    {detail:String}
    (hw:((b.noteUnknownWriter E e id detail).states id).writeConfirmed=true) :
    Evidenced (b.noteUnknownWriter E e id detail).edges id:=by
  have hconfirmed : (b.states id).writeConfirmed=true:=by
    unfold Builder.noteUnknownWriter at hw
    split at hw
    · rename_i hcond
      simp only [Bool.and_eq_true] at hcond
      exact hcond.1
    · exact hw
  unfold Builder.noteUnknownWriter
  split
  · obtain ⟨x,hx,hdst,hkind,hev,-,-⟩:=mem_addEdge (b:=b) (E:=E) (e:=e) none id
      .materializedByRuntime "CONFIRMED" detail none
    exact ⟨id,.refl id,x,hx,hdst,.inl hkind,hev⟩
  · rename_i hcond
    refine h.emitted id ?_
    rw [mark,if_pos hid]
    simpa [hconfirmed] using hcond

theorem mark_execute {id:ℕ} {f:MaterializationNode→MaterializationNode}
    (hg:∀n,(f n).generation=n.generation) (hx:∀n,(f n).executed=true) (j:ℕ) :
    ((b.assignGeneration id).modifyNode id f).mark j =
      if j = id ∧ id≤b.nodeCount then
        { b.mark id with
          generation:=
            if (b.nodes id).generation.isSome || !(b.states id).writeConfirmed then
              (b.nodes id).generation
            else b.nextGeneration id
          executed:=true }
      else b.mark j:=by
  have hcount : (b.assignGeneration id).nodeCount=b.nodeCount:=by
    unfold assignGeneration
    split <;> rfl
  rw [mark_modifyNode,hcount]
  by_cases hj : j=id ∧ id≤b.nodeCount
  · obtain ⟨rfl,hle⟩:=hj
    rw [if_pos ⟨rfl,hle⟩,if_pos ⟨rfl,hle⟩,hg,hx]
    unfold assignGeneration
    split
    · rfl
    · rw [mark_modifyNode,if_pos ⟨rfl,hle⟩]
      simp [modifyNode]
  · rw [if_neg hj,if_neg hj]
    unfold assignGeneration
    split
    · rfl
    · rw [mark_modifyNode,if_neg hj]

theorem knownWriter_of_le {id:ℕ} (hid:id≤b.nodeCount) : b.knownWriter id =
    (b.states id).mutationParentGeneration.or (b.states id).writerExecutionGeneration:=by
  rw [knownWriter,mark,if_pos hid]

theorem generationOf_execute {id:ℕ} {f:MaterializationNode→MaterializationNode}
    (hg:∀n,(f n).generation=n.generation) (hx:∀n,(f n).executed=true) {j g:ℕ}
    (h:((b.assignGeneration id).modifyNode id f).generationOf j=some g) :
    b.generationOf j=some g ∨ (j=id ∧ (b.states id).writeConfirmed=true ∧
      ((∃w,b.knownWriter id=some w ∧ g = (w+1) % 2^32) ∨
        (b.knownWriter id=none ∧ g=1))):=by
  rw [generationOf,mark_execute hg hx] at h
  split at h
  · rename_i hcond
    obtain ⟨rfl,hle⟩:=hcond
    dsimp only at h
    split at h
    · left
      rw [generationOf,mark,if_pos hle]
      exact h
    · rename_i hopen
      simp only [Bool.or_eq_true,Bool.not_eq_true',not_or,Bool.not_eq_false] at hopen
      refine .inr ⟨rfl,hopen.2,?_⟩
      unfold nextGeneration at h
      rw [← knownWriter_of_le hle] at h
      split at h
      · rename_i w hw
        exact .inl ⟨w,hw,(Option.some.inj h).symm⟩
      · rename_i hnone
        split at h
        · cases h
        · exact .inr ⟨hnone,(Option.some.inj h).symm⟩
  · exact .inl h

theorem Valid.assignGeneration (h:b.Valid) (id:ℕ) : (b.assignGeneration id).Valid:=by
  unfold Builder.assignGeneration
  split
  · exact h
  · exact h.modifyNode _ _

theorem assignGeneration_fields (id:ℕ) : (b.assignGeneration id).edges=b.edges ∧
    (b.assignGeneration id).original=b.original ∧
    (b.assignGeneration id).threadGeneration=b.threadGeneration ∧
    (b.assignGeneration id).threadNode=b.threadNode:=by
  unfold assignGeneration
  split <;> exact ⟨rfl,rfl,rfl,rfl⟩

theorem Sound.execute (h:Sound H b) {id:ℕ} {f:MaterializationNode→MaterializationNode}
    (hg:∀n,(f n).generation=n.generation) (hx:∀n,(f n).executed=true)
    (hev:(b.states id).writeConfirmed=true → Evidenced b.edges id) :
    Sound H ((b.assignGeneration id).modifyNode id f):=by
  obtain ⟨hedges,-,hgeneration,hnode⟩:=assignGeneration_fields (b:=b) id
  have hmark:=@mark_execute b id _ hg hx
  refine h.extend ((h.valid.assignGeneration id).modifyNode _ _) hgeneration hnode
    (hedges.trans (List.append_nil _).symm) (by simp) ?_ ?_ ?_ ?_
  · intro j hj
    rw [hmark] at hj
    left
    split at hj
    · rename_i hcond
      rw [hcond.1]
      exact hj
    · exact hj
  · intro j w hj
    rw [hmark] at hj
    left
    split at hj
    · rename_i hcond
      rw [hcond.1]
      exact hj
    · exact hj
  · intro j w hj
    rw [hmark] at hj
    left
    split at hj
    · rename_i hcond
      rw [hcond.1]
      exact hj
    · exact hj
  · intro j g hj _
    have hexec : (b.mark j).executed=true →
        (((b.assignGeneration id).modifyNode id f).mark j).executed=true:=by
      intro hold
      rw [hmark]
      split
      · rfl
      · exact hold
    rcases generationOf_execute hg hx hj with hold | ⟨rfl,hconfirmed,-⟩
    · exact .inl ⟨hold,hexec⟩
    · by_cases hle : j≤b.nodeCount
      · refine .inr ⟨.inl ?_,hedges▸hev hconfirmed⟩
        rw [hmark,if_pos ⟨rfl,hle⟩]
      · rw [generationOf,hmark,if_neg fun h=>hle h.2,mark,if_neg hle] at hj
        cases hj

theorem Sound.enterThread (h:Sound H b) {id g:ℕ} (hid:id≤b.nodeCount) (hH:H id g) :
    Sound H (b.enterThread E e g id):=by
  unfold Builder.enterThread
  split
  · exact h
  · refine ⟨h.valid.enterNode _ _ _ hid,?_,?_,h.writers,h.emitted,h.writer,h.parent,
      h.generated⟩
    · intro k w hk
      simp only [enterNode,Function.update_apply] at hk ⊢
      split at hk
      · rw [if_pos ‹_›,← Option.some.inj hk]
        exact ⟨id,rfl,hH⟩
      · rw [if_neg ‹_›]
        exact h.threads k w hk
    · intro k m hm
      simp only [enterNode,Function.update_apply] at hm ⊢
      split at hm
      · rw [if_pos ‹_›]
        exact ⟨g,rfl⟩
      · rw [if_neg ‹_›]
        exact h.entered k m hm

theorem mark_enterThread (g id j:ℕ) : (b.enterThread E e g id).mark j=b.mark j:=by
  unfold enterThread
  split <;> rfl

theorem enterThread_fields (g id:ℕ) : (b.enterThread E e g id).edges=b.edges ∧
    (b.enterThread E e g id).original=b.original ∧
    (b.enterThread E e g id).nodes=b.nodes:=by
  unfold enterThread
  split <;> exact ⟨rfl,rfl,rfl⟩

theorem firstExecution_generation (o:Option ℕ) (n:MaterializationNode) :
    (firstExecution E e o n).generation=n.generation:=by
  unfold firstExecution
  split <;> rfl

theorem firstExecution_executed (o:Option ℕ) (n:MaterializationNode) :
    (firstExecution E e o n).executed=n.executed:=by
  unfold firstExecution
  split <;> rfl

theorem finds_executeNode : Finds b (b.executeNode E e):=by
  unfold executeNode
  split
  · rename_i kind bid _
    have hfinds:=finds_ensureBacking (b:=b) (E:=E) (e:=e) e.processUid kind bid
    refine ⟨?_,fun hv=>⟨?_,(hfinds.valid hv).2⟩⟩
    · dsimp only
      refine hfinds.quiet.modifyState ?_ ?_ ?_ <;> intros <;> rfl
    · dsimp only
      exact (hfinds.valid hv).1.modifyState _ _
  · have hfinds:=finds_eventRegion (b:=b) (E:=E) (e:=e) e.processUid false
    refine ⟨?_,fun hv=>⟨?_,?_⟩⟩
    · dsimp only
      refine hfinds.quiet.modifyState ?_ ?_ ?_ <;> intros <;> rfl
    · dsimp only
      exact (hfinds.valid hv).1.modifyState _ _
    · dsimp only
      cases hexisting : b.existingRegionForExecution e with
      | none=>exact (hfinds.valid hv).2
      | some id=>exact (valid_existingRegionForExecution hv hexisting).trans hfinds.quiet.count

theorem quiet_executionEdge (id:ℕ) : Quiet b (b.executionEdge E e id):=by
  unfold executionEdge
  dsimp only
  split
  · refine ⟨Nat.le_refl _,fun _=>rfl,⟨_,edges_placeLastEdge rfl _ _,?_⟩,rfl,rfl,rfl⟩
    intro x hx w hw
    rw [List.mem_singleton.mp hx] at hw
    cases hw
  · apply (Quiet.refl b).addEdge
    intro v hv
    cases hv

theorem Valid.executionEdge (h:b.Valid) (id:ℕ) : (b.executionEdge E e id).Valid:=by
  unfold Builder.executionEdge
  dsimp only
  split
  · exact (h.addEdge _ _ _ _ _ _ _).placeLastEdge _ _
  · exact h.addEdge _ _ _ _ _ _ _

theorem executionEdge_fields (id:ℕ) : (b.executionEdge E e id).original=b.original ∧
    (b.executionEdge E e id).nodes=b.nodes ∧
    (b.executionEdge E e id).nodeCount=b.nodeCount:=by
  unfold executionEdge
  dsimp only
  split <;> exact ⟨rfl,rfl,rfl⟩

theorem mark_observeExecution (id j:ℕ) : ∃v,(b.observeExecution E e id).mark j =
    {b.mark j with writeEdgeEmitted:=v}:=by
  have hfirst : Quiet b (b.modifyState id fun s=>{s with executableTransition:=true}):=by
    refine (Quiet.refl b).modifyState ?_ ?_ ?_ <;> intros <;> rfl
  unfold observeExecution
  dsimp only
  generalize b.modifyState id _ = c at hfirst ⊢
  obtain ⟨v,hv⟩:=mark_noteUnknownWriter (b:=c) (E:=E) (e:=e) id
    ("nonzero execution-time bytes prove materialization of a runtime-created zero-based " ++
      "region/backing; writer identity, write time, and source byte generation remain UNKNOWN") j
  refine ⟨v,?_⟩
  refine (mark_modifyState_keep ?_ ?_ ?_ j).trans ?_
  · intro s
    rfl
  · intro s
    rfl
  · intro s
    rfl
  · rw [hv,hfirst.mark]

theorem Sound.observeExecution (h:Sound H b) {id:ℕ} (hid:id≤b.nodeCount) :
    Sound H (b.observeExecution E e id) ∧
      (((b.observeExecution E e id).states id).writeConfirmed=true →
        Evidenced (b.observeExecution E e id).edges id):=by
  have hfirst : Sound H (b.modifyState id fun s=>{s with executableTransition:=true}):=
    h.quiet ((Quiet.refl b).modifyState (fun _=>rfl) (fun _=>rfl) (fun _=>rfl))
      (h.valid.modifyState _ _)
  have hcount : id≤(b.modifyState id fun s=>
      {s with executableTransition:=true}).nodeCount:=hid
  unfold Builder.observeExecution
  dsimp only
  generalize b.modifyState id _ = c at hfirst hcount ⊢
  constructor
  · have hnoted:=hfirst.noteUnknownWriter (E:=E) (e:=e) id
      ("nonzero execution-time bytes prove materialization of a runtime-created zero-based " ++
        "region/backing; writer identity, write time, and source byte generation remain UNKNOWN")
    refine hnoted.quiet ?_ (hnoted.valid.modifyState _ _)
    refine (Quiet.refl _).modifyState ?_ ?_ ?_ <;> intros <;> rfl
  · intro hw
    simp only [modifyState,Function.update_self] at hw
    exact hfirst.evidence_noteUnknownWriter hcount hw

theorem observeExecution_fields (id:ℕ) : (b.observeExecution E e id).original=b.original ∧
      (b.observeExecution E e id).nodeCount=b.nodeCount:=by
  unfold observeExecution noteUnknownWriter
  dsimp only
  split <;> exact ⟨rfl,rfl⟩

theorem executedLast_mark (p id j:ℕ) : (b.executedLast p id).mark j=b.mark j:=rfl

/-- What `runNode` does after the execution itself concerns threads and processes only. -/
theorem runNode_mark (id j:ℕ) : (b.runNode E e id).mark j =
    ((b.markExecuted E e id).executionEdge E e id).mark j:=by
  unfold runNode
  dsimp only
  split
  · rfl
  · rw [mark_enterThread]
    rfl

theorem Sound.runNode (h:Sound H b) {id:ℕ} (hid:id≤b.nodeCount)
    (hev:(b.states id).writeConfirmed=true → Evidenced b.edges id)
    (hH:∀g,((b.assignGeneration id).runNode E e id).generationOf id=some g → H id g) :
    Sound H ((b.assignGeneration id).runNode E e id):=by
  have hcount : (b.assignGeneration id).nodeCount=b.nodeCount:=by
    unfold assignGeneration
    split <;> rfl
  have hmarked : Sound H ((b.assignGeneration id).markExecuted E e id):=
    h.execute (fun n=>firstExecution_generation _ _) (fun n=>firstExecution_executed _ _) hev
  have hedge:=hmarked.quiet (quiet_executionEdge (E:=E) (e:=e) id)
    (hmarked.valid.executionEdge id)
  have hgeneration : ∀g,((((b.assignGeneration id).markExecuted E e id).executionEdge E e
      id).nodes id).generation = some g → H id g:=by
    intro g hg
    refine hH g ?_
    rw [generationOf,runNode_mark,mark,if_pos]
    · exact hg
    · rw [(executionEdge_fields id).2.2]
      exact hcount▸hid
  unfold Builder.runNode
  dsimp only
  split
  · exact hedge
  · rename_i g hg
    refine Sound.enterThread (b:=(Builder.executedLast _ e.processUid id)) ?_ ?_ (hgeneration g hg)
    · exact ⟨⟨hedge.valid.backings,hedge.valid.regions,hedge.valid.threads,
        hedge.valid.originals⟩,hedge.threads,hedge.entered,hedge.writers,hedge.emitted,
        hedge.writer,hedge.parent,hedge.generated⟩
    · change id ≤ (((b.assignGeneration id).markExecuted E e id).executionEdge E e id).nodeCount
      rw [(executionEdge_fields id).2.2]
      exact hcount▸hid

theorem generationOf_markExecuted {id j g:ℕ}
    (h:((b.assignGeneration id).markExecuted E e id).generationOf j=some g) :
    b.generationOf j=some g ∨ (j=id ∧ (b.states id).writeConfirmed=true ∧
      ((∃w,b.knownWriter id=some w ∧ g = (w+1) % 2^32) ∨
        (b.knownWriter id=none ∧ g=1))):=by
  unfold markExecuted at h
  refine generationOf_execute ?_ ?_ h
  · intro n
    exact firstExecution_generation _ _
  · intro n
    exact firstExecution_executed _ _

theorem executeEvent_eq : ∃l,b.executeEvent E e =
    { (((b.executeNode E e).2.observeExecution E e (b.executeNode E e).1).assignGeneration
        (b.executeNode E e).1).runNode E e (b.executeNode E e).1 with divergences:=l }:=by
  unfold executeEvent
  dsimp only
  split
  · exact ⟨_,rfl⟩
  · exact ⟨_,rfl⟩

theorem Sound.executeEvent (h:Sound H b)
    (hH:∀m w,(b.executeEvent E e).generationOf m=some w → H m w) :
    Sound H (b.executeEvent E e):=by
  obtain ⟨l,heq⟩:=executeEvent_eq (b:=b) (E:=E) (e:=e)
  have hfinds:=finds_executeNode (b:=b) (E:=E) (e:=e)
  rw [heq] at hH ⊢
  generalize b.executeNode E e = r at hfinds hH ⊢
  obtain ⟨hvalid,hid⟩:=hfinds.valid h.valid
  obtain ⟨hobserved,hev⟩:=(h.quiet hfinds.quiet hvalid).observeExecution (E:=E) (e:=e) hid
  obtain ⟨-,hcount⟩:=observeExecution_fields (b:=r.2) (E:=E) (e:=e) r.1
  have hrun:=hobserved.runNode (E:=E) (e:=e) (hcount▸hid) hev fun g hg=>hH _ _ hg
  exact ⟨⟨hrun.valid.backings,hrun.valid.regions,hrun.valid.threads,hrun.valid.originals⟩,
    hrun.threads,hrun.entered,hrun.writers,hrun.emitted,hrun.writer,hrun.parent,
    hrun.generated⟩

theorem explains_executeEvent : Explains b (b.executeEvent E e):=by
  obtain ⟨l,heq⟩:=executeEvent_eq (b:=b) (E:=E) (e:=e)
  have hfinds:=finds_executeNode (b:=b) (E:=E) (e:=e)
  rw [heq]
  generalize b.executeNode E e = r at hfinds ⊢
  intro j g hg
  change (Builder.runNode _ E e r.1).generationOf j = some g at hg
  rw [generationOf,runNode_mark,(quiet_executionEdge _).mark] at hg
  have hmark:=mark_observeExecution (b:=r.2) (E:=E) (e:=e) r.1
  rcases generationOf_markExecuted hg with hold | ⟨rfl,-,hassigned⟩
  · obtain ⟨v,hv⟩:=hmark j
    rw [generationOf,hv,hfinds.quiet.mark] at hold
    exact .inl hold
  · have hknown : (r.2.observeExecution E e r.1).knownWriter r.1=b.knownWriter r.1:=by
      obtain ⟨v,hv⟩:=hmark r.1
      rw [knownWriter,hv,hfinds.quiet.mark,knownWriter]
    rw [hknown] at hassigned
    right
    rcases hassigned with ⟨w,hw,rfl⟩ | ⟨hnone,rfl⟩
    · exact .next hw
    · exact .first hnone

end Builder

end AutoRefirst.Materialization
