import AutoRefirst.GenerationExecution

/-!
# Process starts

A process starts as its original image. An exec handoff puts what a backing holds in its place,
and a child takes over the backings of its parent.
-/

namespace AutoRefirst.Materialization.Builder
open List Option

variable {H : ℕ→ℕ→Prop} {b c d : Builder} {E : Environment} {e : TimelineEvent}

theorem threadStart_fields : (b.threadStart E e).edges=b.edges ∧
    (b.threadStart E e).original=b.original ∧ SameGenerations b (b.threadStart E e):=by
  unfold threadStart
  split <;> exact ⟨rfl,rfl,fun _=>rfl⟩

theorem Sound.threadStart (h:Sound H b) : Sound H (b.threadStart E e):=by
  unfold Builder.threadStart
  split
  · rename_i tid pt _ _
    cases hnode : b.threadNode (e.processUid,pt) with
    | some m=>
      obtain ⟨g,hg⟩:=h.entered _ _ hnode
      have hH : H m g:=by
        obtain ⟨m',hm',hH⟩:=h.threads _ _ hg
        rw [hnode,some.injEq] at hm'
        exact hm'▸hH
      rw [hg]
      refine ⟨⟨h.valid.backings,h.valid.regions,?_,h.valid.originals⟩,?_,?_,h.writers,
        h.emitted,h.writer,h.parent,h.generated⟩
      · intro k id hid
        simp only [Function.update_apply] at hid
        split at hid
        · exact h.valid.threads _ _ (hid▸hnode)
        · exact h.valid.threads k id hid
      · intro k w hw
        simp only [Function.update_apply] at hw ⊢
        split at hw
        · rw [if_pos ‹_›,← some.inj hw]
          exact ⟨m,rfl,hH⟩
        · rw [if_neg ‹_›]
          exact h.threads k w hw
      · intro k id hid
        simp only [Function.update_apply] at hid ⊢
        split at hid
        · rw [if_pos ‹_›]
          exact ⟨g,rfl⟩
        · rw [if_neg ‹_›]
          exact h.entered k id hid
    | none=>
      have hg : b.threadGeneration (e.processUid,pt)=none:=by
        cases hg : b.threadGeneration (e.processUid,pt) with
        | none=>rfl
        | some g=>
          obtain ⟨m,hm,-⟩:=h.threads _ _ hg
          rw [hnode] at hm
          cases hm
      rw [hg]
      exact ⟨⟨h.valid.backings,h.valid.regions,h.valid.threads,h.valid.originals⟩,h.threads,
        h.entered,h.writers,h.emitted,h.writer,h.parent,h.generated⟩
  · exact h

theorem mark_takeImage (bk repl j:ℕ) : (b.takeImage E e bk repl).mark j =
    if j = repl ∧ repl≤b.nodeCount then
      {b.mark repl with generation:=(b.nodes bk).generation,executed:=true}
    else b.mark j:=by
  unfold takeImage
  rw [mark_addEdge]
  refine (mark_modifyState_keep ?_ ?_ ?_ j).trans ?_
  · intro s
    rfl
  · intro s
    rfl
  · intro s
    rfl
  · rw [mark_modifyNode]
    split
    · rename_i hj
      rw [hj.1]
    · rfl

theorem generationOf_of_le {id:ℕ} (hid:id≤b.nodeCount) :
    b.generationOf id=(b.nodes id).generation:=by
  rw [generationOf,mark,if_pos hid]

theorem takenFrom_addEdge {src dst:ℕ} {kind:MaterializationEdgeKind} {detail:String}
    (hkind:kind=.childInherited ∨ kind=.execHandoffTo) :
    TakenFrom (b.addEdge E (some src) dst kind (some e) "CONFIRMED" detail none).edges dst
      src:=by
  obtain ⟨x,hx,hdst,hk,-,hsrc,-⟩:=mem_addEdge (b:=b) (E:=E) (e:=e) (some src) dst
    kind "CONFIRMED" detail none
  exact ⟨x,hx,hdst,hsrc,hk▸hkind⟩

theorem takenFrom_takeImage (bk repl:ℕ) : TakenFrom (b.takeImage E e bk repl).edges repl bk:=
  takenFrom_addEdge (.inr rfl)

variable {bk : ℕ}

theorem Sound.takeImage (h:Sound H b) {repl:ℕ} (hbk:bk≤b.nodeCount) :
    Sound H (b.takeImage E e bk repl):=by
  have htaken:=takenFrom_takeImage (b:=b) (E:=E) (e:=e) bk repl
  have hsub : b.edges ⊆ (b.takeImage E e bk repl).edges:=subset_append_left _ _
  have hmark:=mark_takeImage (b:=b) (E:=E) (e:=e) bk repl
  refine h.extend (((h.valid.modifyNode _ _).modifyState _ _).addEdge _ _ _ _ _ _ _) rfl rfl rfl
    ?_ ?_ ?_ ?_ ?_
  · intro x hx w hw
    rw [mem_singleton.mp hx] at hw
    cases hw
  · intro j hj
    rw [hmark] at hj
    left
    split at hj
    · rename_i hcond
      rw [hcond.1]
      exact hj
    · exact hj
  · intro j w hj
    rw [hmark] at hj
    left
    split at hj
    · rename_i hcond
      rw [hcond.1]
      exact hj
    · exact hj
  · intro j w hj
    rw [hmark] at hj
    left
    split at hj
    · rename_i hcond
      rw [hcond.1]
      exact hj
    · exact hj
  · intro j g hj hpos
    rw [generationOf,hmark] at hj
    by_cases hcond : j=repl ∧ repl≤b.nodeCount
    · rw [if_pos hcond] at hj
      right
      rw [hmark,if_pos hcond,hcond.1]
      refine ⟨.inl rfl,Evidenced.taken htaken ?_⟩
      exact (h.generated bk g ((generationOf_of_le hbk).trans hj) hpos).2.mono hsub
    · rw [if_neg hcond] at hj
      rw [hmark,if_neg hcond]
      exact .inl ⟨hj,fun hexec=>hexec⟩

theorem mark_copyBacking (parent child j:ℕ) : (b.copyBacking E e parent child).mark j =
    if j = child ∧ child≤b.nodeCount then
      { generation:=(b.nodes parent).generation,executed:=(b.mark child).executed
        writeEdgeEmitted:=(b.states parent).writeEdgeEmitted
        writerExecutionGeneration:=(b.states parent).writerExecutionGeneration
        mutationParentGeneration:=(b.states parent).mutationParentGeneration }
    else b.mark j:=by
  unfold copyBacking
  rw [mark_addEdge,mark_modifyState,nodeCount_modifyNode]
  by_cases hj : j=child ∧ child≤b.nodeCount
  · obtain ⟨rfl,hle⟩:=hj
    rw [if_pos ⟨rfl,hle⟩,if_pos ⟨rfl,hle⟩,mark_modifyNode,if_pos ⟨rfl,hle⟩,mark,if_pos hle]
  · rw [if_neg hj,if_neg hj,mark_modifyNode,if_neg hj]

theorem takenFrom_copyBacking (parent child:ℕ) :
    TakenFrom (b.copyBacking E e parent child).edges child parent:=
  takenFrom_addEdge (.inl rfl)

theorem inherited_copyBacking (parent child:ℕ) :
    Inherited (b.copyBacking E e parent child).edges child:=
  ⟨_,mem_append_right _ (mem_singleton_self _),rfl,rfl⟩

theorem Sound.copyBacking (h:Sound H b) {parent child:ℕ} (hparent:parent≤b.nodeCount) :
    Sound H (b.copyBacking E e parent child):=by
  have htaken:=takenFrom_copyBacking (b:=b) (E:=E) (e:=e) parent child
  have hsub : b.edges ⊆ (b.copyBacking E e parent child).edges:=subset_append_left _ _
  have hmark:=mark_copyBacking (b:=b) (E:=E) (e:=e) parent child
  have hstate : b.mark parent =
      { generation:=(b.nodes parent).generation,executed:=(b.nodes parent).executed
        writeEdgeEmitted:=(b.states parent).writeEdgeEmitted
        writerExecutionGeneration:=(b.states parent).writerExecutionGeneration
        mutationParentGeneration:=(b.states parent).mutationParentGeneration }:=by
    rw [mark,if_pos hparent]
  refine h.extend (((h.valid.modifyNode _ _).modifyState _ _).addEdge _ _ _ _ _ _ _) rfl rfl rfl
    ?_ ?_ ?_ ?_ ?_
  · intro x hx w hw
    rw [mem_singleton.mp hx] at hw
    cases hw
  · intro j hj
    rw [hmark] at hj
    split at hj
    · rename_i hcond
      rw [hcond.1]
      right
      exact Evidenced.taken htaken ((h.emitted parent (by rw [hstate];exact hj)).mono hsub)
    · exact .inl hj
  · intro j w hj
    rw [hmark] at hj
    split at hj
    · rename_i hcond
      rw [hcond.1]
      right
      exact WrittenBy.taken htaken ((h.writer parent w (by rw [hstate];exact hj)).mono hsub)
    · exact .inl hj
  · intro j w hj
    rw [hmark] at hj
    split at hj
    · rename_i hcond
      rw [hcond.1]
      right
      obtain ⟨m,hm,hH⟩:=h.parent parent w (by rw [hstate];exact hj)
      exact ⟨m,RolledFrom.taken htaken (hm.mono hsub),hH⟩
    · exact .inl hj
  · intro j g hj hpos
    rw [generationOf,hmark] at hj
    by_cases hcond : j=child ∧ child≤b.nodeCount
    · rw [if_pos hcond] at hj
      right
      rw [hcond.1]
      refine ⟨.inr (inherited_copyBacking parent child),Evidenced.taken htaken ?_⟩
      exact (h.generated parent g ((generationOf_of_le hparent).trans hj) hpos).2.mono hsub
    · rw [if_neg hcond] at hj
      rw [hmark,if_neg hcond]
      exact .inl ⟨hj,fun hexec=>hexec⟩

theorem mark_handOver (bk bid j:ℕ) : ∃v,(b.handOver E e bk bid).mark j =
    {b.mark j with writeEdgeEmitted:=v}:=by
  unfold handOver
  dsimp only
  generalize hc : b.modifyState bk _=c
  have hquiet : Quiet b c:=by
    rw [← hc]
    refine (Quiet.refl b).modifyState ?_ ?_ ?_ <;> intros <;> rfl
  obtain ⟨v,hv⟩:=mark_noteUnknownWriter (b:=c) (E:=E) (e:=e) bk
    ("runtime backing contains materialized bytes before exact exec handoff; writer identity, " ++
      "write time, and source byte generation remain UNKNOWN") j
  exact ⟨v,by rw [hv,hquiet.mark]⟩

theorem Sound.handOver (h:Sound H b) (bid:ℕ) (hbk:bk≤b.nodeCount) :
    Sound H (b.handOver E e bk bid) ∧ (((b.handOver E e bk bid).states bk).writeConfirmed=true →
        Evidenced (b.handOver E e bk bid).edges bk):=by
  unfold Builder.handOver
  dsimp only
  generalize hc : b.modifyState bk _=c
  have hfirst : Sound H c:=by
    rw [← hc]
    refine h.quiet ?_ (h.valid.modifyState _ _)
    refine (Quiet.refl b).modifyState ?_ ?_ ?_ <;> intros <;> rfl
  have hcount : bk ≤ c.nodeCount:=by
    rw [← hc]
    exact hbk
  exact ⟨hfirst.noteUnknownWriter _ _,hfirst.evidence_noteUnknownWriter hcount⟩

theorem handOver_fields (bk bid:ℕ) : (b.handOver E e bk bid).original=b.original ∧
    (b.handOver E e bk bid).nodeCount=b.nodeCount:=by
  unfold handOver noteUnknownWriter
  dsimp only
  split <;> exact ⟨rfl,rfl⟩

theorem Sound.execBacking (h:Sound H b) (bid:ℕ) (hbk:bk≤b.nodeCount) :
    Sound H (b.execBacking E e bk bid):=by
  obtain ⟨hsound,hev⟩:=h.handOver (E:=E) (e:=e) bid hbk
  unfold Builder.execBacking
  refine hsound.execute ?_ ?_ hev
  · intro n
    exact firstExecution_generation _ _
  · intro n
    exact firstExecution_executed _ _

theorem Valid.execBacking (h:b.Valid) (bk bid:ℕ) : (b.execBacking E e bk bid).Valid:=by
  apply Valid.modifyNode
  apply Valid.assignGeneration
  exact (h.modifyState _ _).noteUnknownWriter _ _

theorem execBacking_fields (bk bid:ℕ) : (b.execBacking E e bk bid).original=b.original ∧
    (b.execBacking E e bk bid).nodeCount=b.nodeCount:=by
  obtain ⟨horiginal,hcount⟩:=handOver_fields (b:=b) (E:=E) (e:=e) bk bid
  unfold execBacking assignGeneration
  split <;> exact ⟨horiginal,hcount⟩

theorem explains_execBacking (bk bid:ℕ) : Explains b (b.execBacking E e bk bid):=by
  intro j g hg
  unfold execBacking at hg ⊢
  have hcases : (b.handOver E e bk bid).generationOf j=some g ∨
      (j=bk ∧ ((b.handOver E e bk bid).states bk).writeConfirmed=true ∧
        ((∃w,(b.handOver E e bk bid).knownWriter bk=some w ∧ g = (w+1) % 2^32) ∨
          ((b.handOver E e bk bid).knownWriter bk=none ∧ g=1))):=by
    refine generationOf_execute ?_ ?_ hg
    · intro n
      exact firstExecution_generation _ _
    · intro n
      exact firstExecution_executed _ _
  rcases hcases with hold | ⟨rfl,-,hassigned⟩
  · obtain ⟨v,hv⟩:=mark_handOver (b:=b) (E:=E) (e:=e) bk bid j
    rw [generationOf,hv] at hold
    exact .inl hold
  · have hknown : (b.handOver E e j bid).knownWriter j=b.knownWriter j:=by
      obtain ⟨v,hv⟩:=mark_handOver (b:=b) (E:=E) (e:=e) j bid j
      rw [knownWriter,hv,knownWriter]
    rw [hknown] at hassigned
    right
    rcases hassigned with ⟨w,hw,rfl⟩ | ⟨hnone,rfl⟩
    · exact .next hw
    · exact .first hnone

/-- Looking a node up or making one changes no generation and no image. -/
theorem original_ensureBacking (processUid:ℕ) (kind:String) (bid:ℕ) :
    (b.ensureBacking E e processUid kind bid).2.original=b.original:=by
  unfold ensureBacking
  dsimp only
  split <;> rfl

theorem original_ensureRegion (processUid start stop:ℕ) (kind:MaterializationNodeKind)
    (cross:Bool) :
    (b.ensureRegion E e processUid start stop kind cross).2.original=b.original:=by
  unfold ensureRegion
  dsimp only
  split
  · rfl
  · split <;> rfl

theorem Quiet.edges_subset (h:Quiet b c) : b.edges ⊆ c.edges:=by
  obtain ⟨l,hl,-⟩:=h.edges
  rw [hl]
  exact subset_append_left _ _

theorem replaceImage_cases (bk repl:ℕ) : b.replaceImage E e bk repl=b.takeImage E e bk repl ∨
      ∃g,((b.takeImage E e bk repl).nodes repl).generation=some g ∧ b.replaceImage E e bk repl =
          ((b.takeImage E e bk repl).executedLast e.processUid repl).enterThread E e g repl:=by
  unfold replaceImage
  dsimp only
  split
  · exact .inl rfl
  · rename_i g hg
    exact .inr ⟨g,hg,rfl⟩

theorem replaceImage_fields (bk repl:ℕ) :
    (b.replaceImage E e bk repl).edges=(b.takeImage E e bk repl).edges ∧
      (b.replaceImage E e bk repl).original=b.original ∧
      ∀j,(b.replaceImage E e bk repl).mark j=(b.takeImage E e bk repl).mark j:=by
  rcases replaceImage_cases (b:=b) (E:=E) (e:=e) bk repl with heq | ⟨g,-,heq⟩
  · rw [heq]
    exact ⟨rfl,rfl,fun _=>rfl⟩
  · rw [heq,(enterThread_fields g repl).1,(enterThread_fields g repl).2.1]
    refine ⟨rfl,rfl,?_⟩
    intro j
    rw [mark_enterThread,executedLast_mark]

theorem Sound.executedLast (h:Sound H b) (p id:ℕ) : Sound H (b.executedLast p id):=
  ⟨⟨h.valid.backings,h.valid.regions,h.valid.threads,h.valid.originals⟩,h.threads,h.entered,
    h.writers,h.emitted,h.writer,h.parent,h.generated⟩

theorem Sound.replaceImage (h:Sound H b) {repl:ℕ} (hbk:bk≤b.nodeCount)
    (hrepl:repl≤b.nodeCount)
    (hH:∀g,(b.replaceImage E e bk repl).generationOf repl=some g → H repl g) :
    Sound H (b.replaceImage E e bk repl):=by
  have htake : Sound H (b.takeImage E e bk repl):=h.takeImage hbk
  obtain ⟨-,-,hmark⟩:=replaceImage_fields (b:=b) (E:=E) (e:=e) bk repl
  have hcount : repl≤(b.takeImage E e bk repl).nodeCount:=hrepl
  rcases replaceImage_cases (b:=b) (E:=E) (e:=e) bk repl with heq | ⟨g,hg,heq⟩
  · rw [heq]
    exact htake
  · have hheld : H repl g:=by
      refine hH g ?_
      rw [generationOf,hmark,mark,if_pos hcount]
      exact hg
    rw [heq]
    exact (htake.executedLast _ _).enterThread hcount hheld

theorem Sound.execHandoff (h:Sound H b) (kind:String) (bid:ℕ)
    (hH:∀m w,(b.execHandoff E e kind bid).generationOf m=some w → H m w) :
    Sound H (b.execHandoff E e kind bid):=by
  have hbacking:=finds_ensureBacking (b:=b) (E:=E) (e:=e) e.processUid kind bid
  unfold Builder.execHandoff at hH ⊢
  dsimp only at hH ⊢
  generalize b.ensureBacking E e e.processUid kind bid = r at hbacking hH ⊢
  obtain ⟨hvalid,hbk⟩:=hbacking.valid h.valid
  have hexec : Sound H (r.2.execBacking E e r.1 bid):=
    (h.quiet hbacking.quiet hvalid).execBacking bid hbk
  obtain ⟨-,hcount⟩:=execBacking_fields (b:=r.2) (E:=E) (e:=e) r.1 bid
  have hregion:=finds_ensureRegion (b:=r.2.execBacking E e r.1 bid) (E:=E) (e:=e)
    e.processUid 0 1 .replacementImage false
  generalize (r.2.execBacking E e r.1 bid).ensureRegion E e e.processUid 0 1 .replacementImage
    false = q at hregion hH ⊢
  obtain ⟨hvalid',hrepl⟩:=hregion.valid hexec.valid
  refine (hexec.quiet hregion.quiet hvalid').replaceImage ?_ hrepl fun g hg=>hH _ _ hg
  exact (hcount▸hbk).trans hregion.quiet.count

theorem explains_execHandoff (hv:b.Valid) (kind:String) (bid:ℕ) :
    Explains b (b.execHandoff E e kind bid):=by
  have hbacking:=finds_ensureBacking (b:=b) (E:=E) (e:=e) e.processUid kind bid
  have horiginal:=original_ensureBacking (b:=b) (E:=E) (e:=e) e.processUid kind bid
  unfold execHandoff
  dsimp only
  generalize b.ensureBacking E e e.processUid kind bid = r at hbacking horiginal ⊢
  obtain ⟨hvalid,hbk⟩:=hbacking.valid hv
  have hexec : Explains b (r.2.execBacking E e r.1 bid):=
    hbacking.quiet.explains (explains_execBacking r.1 bid)
  obtain ⟨-,hcount⟩:=execBacking_fields (b:=r.2) (E:=E) (e:=e) r.1 bid
  have hregion:=finds_ensureRegion (b:=r.2.execBacking E e r.1 bid) (E:=E) (e:=e)
    e.processUid 0 1 .replacementImage false
  have hsame:=original_ensureRegion (b:=r.2.execBacking E e r.1 bid) (E:=E) (e:=e)
    e.processUid 0 1 .replacementImage false
  generalize (r.2.execBacking E e r.1 bid).ensureRegion E e e.processUid 0 1 .replacementImage
    false = q at hregion hsame ⊢
  have hbefore : Explains b q.2:=by
    refine hexec.same hregion.quiet.sameGenerations ?_ hregion.quiet.edges_subset
    intro p id hp
    rw [hsame]
    exact hp
  have hle : r.1≤q.2.nodeCount:=(hcount▸hbk).trans hregion.quiet.count
  have hrepl : q.1≤q.2.nodeCount:=(hregion.valid (hvalid.execBacking _ _)).2
  obtain ⟨hedges,himage,hmark⟩:=replaceImage_fields (b:=q.2) (E:=E) (e:=e) r.1 q.1
  refine @Explains.takeOver _ _ _ hbefore q.1 r.1 ?_ ?_ ?_ ?_ ?_
  · intro id hid
    rw [generationOf,hmark,mark_takeImage,if_neg fun h=>hid h.1,generationOf]
  · intro g hg
    rw [generationOf,hmark,mark_takeImage,if_pos ⟨rfl,hrepl⟩] at hg
    rw [generationOf_of_le hle]
    exact hg
  · rw [hedges]
    exact takenFrom_takeImage r.1 q.1
  · intro p id hp
    rw [himage]
    exact hp
  · rw [hedges]
    exact subset_append_left _ _

theorem ensureOriginal_cases : b.ensureOriginal E e=b ∨
    (b.original e.processUid=none ∧ ∃n tid,n.generation=some 0 ∧ n.executed=true ∧
      b.ensureOriginal E e =
        { (b.addNode n).2 with
          original:=Function.update b.original e.processUid (some (b.nodeCount+1))
          latestExecutedNode:=
            Function.update b.latestExecutedNode e.processUid (some (b.nodeCount+1)) }.enterNode
          e.processUid tid 0 (b.nodeCount+1)):=by
  unfold ensureOriginal
  split
  · exact .inl rfl
  · rename_i hnone
    exact .inr ⟨hnone,_,_,rfl,rfl,rfl⟩

theorem mark_ensureOriginal (id:ℕ) : (b.ensureOriginal E e).mark id=b.mark id ∨
    ((b.ensureOriginal E e).mark id={generation:=some 0,executed:=true} ∧
      id = b.nodeCount+1 ∧ (b.ensureOriginal E e).original e.processUid=some id):=by
  rcases ensureOriginal_cases (b:=b) (E:=E) (e:=e) with heq | ⟨-,n,tid,hg,hx,heq⟩
  · exact .inl (by rw [heq])
  · have hmark : (b.ensureOriginal E e).mark id=(b.addNode n).2.mark id:=by
      rw [heq]
      rfl
    rw [hmark,mark_addNode,hg,hx]
    by_cases hid : id=b.nodeCount+1
    · rw [if_pos hid]
      refine .inr ⟨rfl,hid,?_⟩
      rw [heq,hid]
      simp [enterNode]
    · rw [if_neg hid]
      exact .inl rfl

theorem Valid.ensureOriginal (h:b.Valid) : (b.ensureOriginal E e).Valid:=by
  rcases ensureOriginal_cases (b:=b) (E:=E) (e:=e) with heq | ⟨-,n,tid,-,-,heq⟩
  · rw [heq]
    exact h
  · rw [heq]
    have hnode:=h.addNode n
    apply Valid.enterNode
    · refine ⟨hnode.backings,hnode.regions,hnode.threads,?_⟩
      intro p id hid
      simp only [Function.update_apply] at hid
      split at hid
      · rw [← some.inj hid]
        refine ⟨Nat.le_refl _,?_⟩
        intro kv hkv heq'
        have hle:=h.backings kv hkv
        omega
      · exact hnode.originals p id hid
    · exact Nat.le_refl _

theorem ensureOriginal_fields : (b.ensureOriginal E e).edges=b.edges ∧
    ∀p id,b.original p=some id → (b.ensureOriginal E e).original p=some id:=by
  rcases ensureOriginal_cases (b:=b) (E:=E) (e:=e) with heq | ⟨hnone,n,tid,-,-,heq⟩
  · rw [heq]
    exact ⟨rfl,fun _ _ hp=>hp⟩
  · rw [heq]
    refine ⟨rfl,?_⟩
    intro p id hp
    have hne : p≠e.processUid:=by
      intro heq'
      rw [heq',hnone] at hp
      cases hp
    simpa [enterNode,Function.update_of_ne hne] using hp

theorem explains_ensureOriginal : Explains b (b.ensureOriginal E e):=by
  intro id g hg
  rcases mark_ensureOriginal (b:=b) (E:=E) (e:=e) id with heq | ⟨heq,-,hp⟩
  · rw [generationOf,heq] at hg
    exact .inl hg
  · rw [generationOf,heq,some.injEq] at hg
    subst hg
    exact .inr (.image hp)

theorem Sound.ensureOriginal (h:Sound H b)
    (hH:∀id,(b.ensureOriginal E e).original e.processUid=some id →
      (b.ensureOriginal E e).generationOf id=some 0 → H id 0) :
    Sound H (b.ensureOriginal E e):=by
  have hmark:=mark_ensureOriginal (b:=b) (E:=E) (e:=e)
  have hvalid:=h.valid.ensureOriginal (E:=E) (e:=e)
  obtain ⟨hedges,-⟩:=ensureOriginal_fields (b:=b) (E:=E) (e:=e)
  rcases ensureOriginal_cases (b:=b) (E:=E) (e:=e) with heq | ⟨-,n,tid,hg,hx,heq⟩
  · rw [heq]
    exact h
  have hheld : H (b.nodeCount+1) 0:=by
    refine hH _ ?_ ?_
    · rw [heq]
      simp [enterNode]
    · rw [heq,generationOf]
      change ((b.addNode n).2.mark (b.nodeCount+1)).generation=some 0
      rw [mark_addNode,if_pos rfl,hg]
  refine ⟨hvalid,?_,?_,by rw [hedges];exact h.writers,?_,?_,?_,?_⟩
  · intro k w hk
    rw [heq] at hk ⊢
    simp only [enterNode,Function.update_apply] at hk ⊢
    split at hk
    · rw [if_pos ‹_›,← some.inj hk]
      exact ⟨_,rfl,hheld⟩
    · rw [if_neg ‹_›]
      exact h.threads k w hk
  · intro k m hm
    rw [heq] at hm ⊢
    simp only [enterNode,Function.update_apply] at hm ⊢
    split at hm
    · rw [if_pos ‹_›]
      exact ⟨0,rfl⟩
    · rw [if_neg ‹_›]
      exact h.entered k m hm
  · intro id hid
    rw [hedges]
    rcases hmark id with heq' | ⟨heq',-⟩
    · exact h.emitted id (heq'▸hid)
    · rw [heq'] at hid
      cases hid
  · intro id w hid
    rw [hedges]
    rcases hmark id with heq' | ⟨heq',-⟩
    · exact h.writer id w (heq'▸hid)
    · rw [heq'] at hid
      cases hid
  · intro id w hid
    rw [hedges]
    rcases hmark id with heq' | ⟨heq',-⟩
    · exact h.parent id w (heq'▸hid)
    · rw [heq'] at hid
      cases hid
  · intro id g hid hpos
    rw [hedges]
    rcases hmark id with heq' | ⟨heq',-⟩
    · rw [generationOf,heq'] at hid
      rw [heq']
      exact h.generated id g hid hpos
    · rw [generationOf,heq',some.injEq] at hid
      exact absurd hid.symm hpos

theorem inheritBacking_cases (bid:ℕ) : b.inheritBacking E e bid=b ∨
    ∃kv∈b.backings,b.inheritBacking E e bid =
      (b.ensureBacking E e e.processUid kv.1.kind kv.1.backingId).2.copyBacking E e kv.2
        (b.ensureBacking E e e.processUid kv.1.kind kv.1.backingId).1:=by
  unfold inheritBacking
  split
  · exact .inl rfl
  · rename_i key parent hfind
    exact .inr ⟨(key,parent),mem_of_find?_eq_some hfind,rfl⟩

theorem ensureBacking_not_original (hv:b.Valid) (processUid:ℕ) (kind:String) (bid p:ℕ) :
    b.original p≠some (b.ensureBacking E e processUid kind bid).1:=by
  intro hp
  obtain ⟨hle,hne⟩:=hv.originals p _ hp
  unfold ensureBacking at hle hne
  dsimp only at hle hne
  split at hle
  · rename_i id hid
    rw [hid] at hne
    obtain ⟨kv,hkv,heq⟩:=OrderedMap.mem_of_find hid
    exact hne kv hkv heq
  · exact Nat.not_succ_le_self _ hle

structure Inherits (b c : Builder) : Prop where
  valid : c.Valid
  original : c.original=b.original
  images : ∀ p id, b.original p = some id → c.generationOf id = b.generationOf id
  edges : b.edges ⊆ c.edges

theorem Inherits.refl (h:b.Valid) : Inherits b b:=⟨h,rfl,fun _ _ _=>rfl,List.Subset.refl _⟩

theorem Inherits.trans (h:Inherits b c) (h':Inherits c d) : Inherits b d:=by
  refine ⟨h'.valid,h'.original.trans h.original,?_,List.Subset.trans h.edges h'.edges⟩
  intro p id hp
  rw [h'.images p id (by rw [h.original];exact hp),h.images p id hp]

theorem inherits_inheritBacking (hv:b.Valid) (bid:ℕ) :
    Inherits b (b.inheritBacking E e bid):=by
  rcases inheritBacking_cases (b:=b) (E:=E) (e:=e) bid with heq | ⟨kv,hkv,heq⟩
  · rw [heq]
    exact Inherits.refl hv
  · rw [heq]
    have hfinds:=finds_ensureBacking (b:=b) (E:=E) (e:=e) e.processUid kv.1.kind
      kv.1.backingId
    refine ⟨?_,original_ensureBacking _ _ _,?_,?_⟩
    · apply Valid.addEdge
      apply Valid.modifyState
      apply Valid.modifyNode
      exact (hfinds.valid hv).1
    · intro p id hp
      rw [generationOf,mark_copyBacking,if_neg,hfinds.quiet.mark,generationOf]
      rintro ⟨rfl,-⟩
      exact ensureBacking_not_original hv _ _ _ p hp
    · exact List.Subset.trans hfinds.quiet.edges_subset (subset_append_left _ _)

theorem Sound.inheritBacking (h:Sound H b) (bid:ℕ) : Sound H (b.inheritBacking E e bid):=by
  rcases inheritBacking_cases (b:=b) (E:=E) (e:=e) bid with heq | ⟨kv,hkv,heq⟩
  · rw [heq]
    exact h
  · rw [heq]
    have hfinds:=finds_ensureBacking (b:=b) (E:=E) (e:=e) e.processUid kv.1.kind
      kv.1.backingId
    refine (h.quiet hfinds.quiet (hfinds.valid h.valid).1).copyBacking ?_
    exact (h.valid.backings kv hkv).trans hfinds.quiet.count

theorem Explains.inheritBacking (h:Explains b c) (hv:c.Valid) (bid:ℕ) :
    Explains b (c.inheritBacking E e bid):=by
  rcases inheritBacking_cases (b:=c) (E:=E) (e:=e) bid with heq | ⟨kv,hkv,heq⟩
  · rw [heq]
    exact h
  · rw [heq]
    have hfinds:=finds_ensureBacking (b:=c) (E:=E) (e:=e) e.processUid kv.1.kind
      kv.1.backingId
    have horiginal:=original_ensureBacking (b:=c) (E:=E) (e:=e) e.processUid kv.1.kind
      kv.1.backingId
    generalize c.ensureBacking E e e.processUid kv.1.kind kv.1.backingId = r at hfinds horiginal ⊢
    have hparent : kv.2 ≤ r.2.nodeCount:=(hv.backings kv hkv).trans hfinds.quiet.count
    have hbefore : Explains b r.2:=by
      refine h.same hfinds.quiet.sameGenerations ?_ hfinds.quiet.edges_subset
      intro p id hp
      rw [horiginal]
      exact hp
    refine @Explains.takeOver _ _ _ hbefore r.1 kv.2 ?_ ?_ (takenFrom_copyBacking kv.2 r.1)
      (fun _ _ hp=>hp) (subset_append_left _ _)
    · intro id hid
      rw [generationOf,mark_copyBacking,if_neg fun h=>hid h.1,generationOf]
    · intro g hg
      rw [generationOf,mark_copyBacking,if_pos ⟨rfl,(hfinds.valid hv).2⟩] at hg
      rw [generationOf_of_le hparent]
      exact hg

theorem inherits_foldl (hv:b.Valid) (ids:List ℕ) :
    Inherits b (ids.foldl (fun b bid=>b.inheritBacking E e bid) b):=by
  induction ids generalizing b with
  | nil=>exact Inherits.refl hv
  | cons bid ids ih=>
    have hfirst:=inherits_inheritBacking (E:=E) (e:=e) hv bid
    exact hfirst.trans (ih hfirst.valid)

theorem Sound.inherit_foldl (h:Sound H b) (ids:List ℕ) :
    Sound H (ids.foldl (fun b bid=>b.inheritBacking E e bid) b):=by
  induction ids generalizing b with
  | nil=>exact h
  | cons bid ids ih=>exact ih (h.inheritBacking bid)

theorem Explains.inherit_foldl (h:Explains b c) (hv:c.Valid) (ids:List ℕ) :
    Explains b (ids.foldl (fun b bid=>b.inheritBacking E e bid) c):=by
  induction ids generalizing c with
  | nil=>exact h
  | cons bid ids ih=>
    exact ih (h.inheritBacking hv bid) (inherits_inheritBacking hv bid).valid

theorem explains_plainStart (hv:b.Valid) : Explains b (b.plainStart E e):=
  explains_ensureOriginal.inherit_foldl hv.ensureOriginal _

theorem Sound.plainStart (h:Sound H b) (hH:∀m w,(b.plainStart E e).generationOf m=some w → H m w) :
    Sound H (b.plainStart E e):=by
  refine Sound.inherit_foldl (h.ensureOriginal ?_) _
  intro id hid hg
  refine hH id 0 ?_
  rw [Builder.plainStart,(inherits_foldl h.valid.ensureOriginal _).images _ id hid]
  exact hg

theorem explains_startEvent (hv:b.Valid) : Explains b (b.startEvent E e):=by
  obtain ⟨-,-,hsame⟩:=threadStart_fields (b:=b) (E:=E) (e:=e)
  unfold startEvent
  split
  · exact hsame.explains
  · split
    · split
      · exact explains_execHandoff hv _ _
      · exact explains_plainStart hv
    · exact explains_plainStart hv

theorem Sound.startEvent (h:Sound H b) (hH:∀m w,(b.startEvent E e).generationOf m=some w → H m w) :
    Sound H (b.startEvent E e):=by
  unfold Builder.startEvent at hH ⊢
  split
  · exact h.threadStart
  · rename_i hthread
    rw [if_neg hthread] at hH
    split
    · rename_i hhandoff
      rw [if_pos hhandoff] at hH
      split
      · rename_i kind bid hnamed
        rw [hnamed] at hH
        exact h.execHandoff kind bid hH
      · rename_i hnamed
        rw [hnamed] at hH
        exact h.plainStart hH
    · rename_i hhandoff
      rw [if_neg hhandoff] at hH
      exact h.plainStart hH

end AutoRefirst.Materialization.Builder
