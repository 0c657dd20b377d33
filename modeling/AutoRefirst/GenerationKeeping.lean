import AutoRefirst.GenerationRuns

/-!
# Generations that stay

A node that has a generation loses it when an event takes the node again for something else:
the image of a second exec handoff, or a backing that the child has and inherits. Every other
event keeps all generations.
-/

namespace AutoRefirst.Materialization
open List Option

theorem compare_backingKey {k k':BackingKey} : compare k k'=.eq ↔ k=k':=by
  obtain ⟨p,kind,bid⟩:=k
  obtain ⟨p',kind',bid'⟩:=k'
  change (compare p p').then ((compare kind kind').then ((compare bid bid').then .eq)) = .eq ↔ _
  simp only [Ordering.then_eq_eq,Std.compare_eq_iff_eq,BackingKey.mk.injEq,and_true]

instance : Std.LawfulEqOrd BackingKey where
  compare_self := compare_backingKey.mpr rfl
  eq_of_compare := compare_backingKey.mp

namespace Builder

/-- The node in which an exec handoff puts the image of the process. -/
def replacementImage (b : Builder) (processUid : ℕ) : Option ℕ :=
  (b.regions.find ⟨processUid,0,1,regionCode .replacementImage⟩).or
    ((b.regions.find? fun kv => kv.1.processUid == processUid &&
      kv.1.code == regionCode .replacementImage && decide (kv.1.start < 1) &&
      decide (kv.1.stop > 0)).map Prod.snd)

def handoffKeeps (b : Builder) (key : BackingKey) : Bool :=
  match b.replacementImage key.processUid with
  | none => true
  | some image => (b.generationOf image).isNone ||
      (b.backings.find key).any fun bk => b.generationOf bk == b.generationOf image

/-- There is no generation to lose in the child's backing, or its parent has the same one. -/
def inheritKeeps (b : Builder) (e : TimelineEvent) (bid : ℕ) : Bool :=
  match b.backings.find? fun kv => kv.1.processUid == e.parentUid && kv.1.backingId == bid with
  | none => true
  | some (key,parent) =>
    match b.backings.find ⟨e.processUid,key.kind,key.backingId⟩ with
    | none => true
    | some child => (b.generationOf child).isNone || b.generationOf child == b.generationOf parent

def keepsGenerations (b : Builder) (e : TimelineEvent) : Bool :=
  if e.kind ≠ .processStart ∨ isThreadStart e then true
  else match if isExecHandoff e then namedBacking e else none with
    | some (kind,bid) => b.handoffKeeps ⟨e.processUid,kind,bid⟩
    | none => (inheritedIds e).all (b.inheritKeeps e)

def Keeps (b c : Builder) : Prop := ∀ id g, b.generationOf id = some g → c.generationOf id = some g

variable {b c d : Builder} {E : Environment} {e : TimelineEvent}

theorem Keeps.refl (b:Builder) : Keeps b b:=fun _ _ h=>h

theorem Keeps.trans (h:Keeps b c) (h':Keeps c d) : Keeps b d:=fun id g hg=>h' id g (h id g hg)

theorem SameGenerations.keeps (h:SameGenerations b c) : Keeps b c:=by
  intro id g hg
  rw [h id]
  exact hg

variable {id : ℕ}

theorem le_of_generationOf {g:ℕ} (h:b.generationOf id=some g) : id≤b.nodeCount:=by
  by_contra hlt
  rw [generationOf,mark,if_neg hlt] at h
  cases h

theorem keeps_execute {f:MaterializationNode→MaterializationNode}
    (hg:∀n,(f n).generation=n.generation) (hx:∀n,(f n).executed=true) :
    Keeps b ((b.assignGeneration id).modifyNode id f):=by
  intro j g hj
  rw [generationOf,mark_execute hg hx]
  split
  · rename_i hcond
    obtain ⟨rfl,hle⟩:=hcond
    rw [generationOf_of_le hle] at hj
    simp [hj]
  · exact hj

theorem keeps_executeEvent : Keeps b (b.executeEvent E e):=by
  obtain ⟨l,heq⟩:=executeEvent_eq (b:=b) (E:=E) (e:=e)
  have hfinds:=finds_executeNode (b:=b) (E:=E) (e:=e)
  rw [heq]
  generalize b.executeNode E e = r at hfinds ⊢
  have hobserve : Keeps r.2 (r.2.observeExecution E e r.1):=by
    intro j g hj
    obtain ⟨v,hv⟩:=mark_observeExecution (b:=r.2) (E:=E) (e:=e) r.1 j
    rw [generationOf,hv]
    exact hj
  have hexecute : Keeps (r.2.observeExecution E e r.1)
      (((r.2.observeExecution E e r.1).assignGeneration r.1).markExecuted E e r.1):=by
    unfold markExecuted
    refine keeps_execute ?_ ?_
    · intro n
      exact firstExecution_generation _ _
    · intro n
      exact firstExecution_executed _ _
  intro j g hj
  change (Builder.runNode _ E e r.1).generationOf j=some g
  rw [generationOf,runNode_mark,(quiet_executionEdge _).mark]
  exact (hfinds.quiet.sameGenerations.keeps.trans (hobserve.trans hexecute)) j g hj

theorem keeps_execBacking (bk bid:ℕ) : Keeps b (b.execBacking E e bk bid):=by
  have hover : Keeps b (b.handOver E e bk bid):=by
    intro j g hj
    obtain ⟨v,hv⟩:=mark_handOver (b:=b) (E:=E) (e:=e) bk bid j
    rw [generationOf,hv]
    exact hj
  unfold execBacking
  refine hover.trans (keeps_execute ?_ ?_)
  · intro n
    exact firstExecution_generation _ _
  · intro n
    exact firstExecution_executed _ _

theorem regions_ensureBacking (processUid:ℕ) (kind:String) (bid:ℕ) :
    (b.ensureBacking E e processUid kind bid).2.regions=b.regions:=by
  unfold ensureBacking
  dsimp only
  split <;> rfl

theorem regions_execBacking (bk bid:ℕ) : (b.execBacking E e bk bid).regions=b.regions:=by
  unfold execBacking assignGeneration handOver noteUnknownWriter
  dsimp only
  split <;> split <;> rfl

variable {bid : ℕ}

theorem ensureBacking_of_find {processUid:ℕ} {kind:String}
    (h:b.backings.find ⟨processUid,kind,bid⟩=some id) :
    b.ensureBacking E e processUid kind bid=(id,b):=by
  unfold ensureBacking
  rw [h]

theorem ensureRegion_image (processUid:ℕ) : (b.replacementImage processUid=some
        (b.ensureRegion E e processUid 0 1 .replacementImage false).1) ∨
      (b.replacementImage processUid=none ∧
        (b.ensureRegion E e processUid 0 1 .replacementImage false).1 = b.nodeCount+1):=by
  unfold replacementImage ensureRegion
  dsimp only
  rw [if_neg (by omega)]
  split
  · rename_i id hid
    left
    rw [hid,some_or]
  · rename_i hnone
    rw [hnone,none_or]
    split
    · rename_i kv hkv
      left
      rw [hkv,map_some]
    · rename_i hnone'
      right
      rw [hnone',map_none]
      exact ⟨rfl,rfl⟩

theorem keeps_execHandoff (hv:b.Valid) {kind:String}
    (hkeeps:b.handoffKeeps ⟨e.processUid,kind,bid⟩=true) :
    Keeps b (b.execHandoff E e kind bid):=by
  have hbacking:=finds_ensureBacking (b:=b) (E:=E) (e:=e) e.processUid kind bid
  have hregions:=regions_ensureBacking (b:=b) (E:=E) (e:=e) e.processUid kind bid
  have hfind : ∀id,b.backings.find ⟨e.processUid,kind,bid⟩=some id →
      (b.ensureBacking E e e.processUid kind bid).1=id:=by
    intro id hid
    rw [ensureBacking_of_find hid]
  unfold execHandoff
  dsimp only
  generalize b.ensureBacking E e e.processUid kind bid = r at hbacking hregions hfind ⊢
  obtain ⟨hvalid,hbk⟩:=hbacking.valid hv
  have hexec : Keeps b (r.2.execBacking E e r.1 bid):=
    hbacking.quiet.sameGenerations.keeps.trans (keeps_execBacking r.1 bid)
  obtain ⟨-,hcount⟩:=execBacking_fields (b:=r.2) (E:=E) (e:=e) r.1 bid
  have himage : (r.2.execBacking E e r.1 bid).replacementImage e.processUid =
      b.replacementImage e.processUid:=by
    rw [replacementImage,regions_execBacking,hregions,replacementImage]
  have hregion:=finds_ensureRegion (b:=r.2.execBacking E e r.1 bid) (E:=E) (e:=e)
    e.processUid 0 1 .replacementImage false
  have hcases:=ensureRegion_image (b:=r.2.execBacking E e r.1 bid) (E:=E) (e:=e)
    e.processUid
  rw [himage] at hcases
  generalize (r.2.execBacking E e r.1 bid).ensureRegion E e e.processUid 0 1 .replacementImage
    false = q at hregion hcases ⊢
  have hbefore : Keeps b q.2:=hexec.trans hregion.quiet.sameGenerations.keeps
  have hle : r.1≤q.2.nodeCount:=(hcount▸hbk).trans hregion.quiet.count
  obtain ⟨-,-,hmark⟩:=replaceImage_fields (b:=q.2) (E:=E) (e:=e) r.1 q.1
  intro j g hj
  rw [generationOf,hmark,mark_takeImage]
  split
  · rename_i hcond
    obtain ⟨rfl,-⟩:=hcond
    have hold : b.replacementImage e.processUid=some q.1:=by
      rcases hcases with hsome | ⟨-,hnew⟩
      · exact hsome
      · have hle':=le_of_generationOf (hexec q.1 g hj)
        omega
    rw [handoffKeeps,hold] at hkeeps
    dsimp only at hkeeps
    rw [hj] at hkeeps
    obtain ⟨bk,hbk,hgen⟩ : ∃bk,b.backings.find ⟨e.processUid,kind,bid⟩=some bk ∧
        b.generationOf bk=some g:=by
      simpa [Option.any_eq_true] using hkeeps
    rw [← hfind bk hbk] at hgen
    rw [← generationOf_of_le hle]
    exact hbefore r.1 g hgen
  · exact hbefore j g hj

theorem keeps_ensureOriginal : Keeps b (b.ensureOriginal E e):=by
  intro id g hg
  rcases mark_ensureOriginal (b:=b) (E:=E) (e:=e) id with heq | ⟨-,hid,-⟩
  · rw [generationOf,heq]
    exact hg
  · have hle:=le_of_generationOf hg
    omega

/-- What stays while a child takes over backings: the backings of the parent, and those of the
child as far as they were there. -/
structure Tracks (b : Builder) (e : TimelineEvent) (c : Builder) : Prop where
  valid : c.Valid
  count : b.nodeCount ≤ c.nodeCount
  keeps : Keeps b c
  parents : ∀ bid, (c.backings.find? fun kv =>
      kv.1.processUid == e.parentUid && kv.1.backingId == bid) =
    b.backings.find? fun kv => kv.1.processUid == e.parentUid && kv.1.backingId == bid
  children : ∀ key id, c.backings.find key = some id →
    b.backings.find key = some id ∨ b.nodeCount < id

theorem backings_ensureBacking (processUid:ℕ) (kind:String) (bid:ℕ) :
    b.ensureBacking E e processUid kind bid = ((b.ensureBacking E e processUid kind bid).1,b) ∧
        b.backings.find ⟨processUid,kind,bid⟩ = some (b.ensureBacking E e processUid kind bid).1 ∨
      b.backings.find ⟨processUid,kind,bid⟩=none ∧
        (b.ensureBacking E e processUid kind bid).1 = b.nodeCount+1 ∧
        (b.ensureBacking E e processUid kind bid).2.backings =
          b.backings.insert ⟨processUid,kind,bid⟩ (b.nodeCount+1):=by
  cases hfind : b.backings.find ⟨processUid,kind,bid⟩ with
  | some id=>
    left
    rw [ensureBacking_of_find hfind]
    exact ⟨rfl,rfl⟩
  | none=>
    right
    unfold ensureBacking
    rw [hfind]
    exact ⟨rfl,rfl,rfl⟩

theorem Tracks.inheritBacking (h:Tracks b e c) (hkeeps:b.inheritKeeps e bid=true) :
    Tracks b e (c.inheritBacking E e bid):=by
  cases hparent : c.backings.find? fun kv=>
      kv.1.processUid == e.parentUid && kv.1.backingId == bid with
  | none=>
    have heq : c.inheritBacking E e bid=c:=by
      rw [Builder.inheritBacking,hparent]
    rw [heq]
    exact h
  | some kv=>
    obtain ⟨key,parent⟩:=kv
    have heq : c.inheritBacking E e bid =
        (c.ensureBacking E e e.processUid key.kind key.backingId).2.copyBacking E e parent
          (c.ensureBacking E e e.processUid key.kind key.backingId).1:=by
      rw [Builder.inheritBacking,hparent]
    have hmem:=mem_of_find?_eq_some hparent
    have hfinds:=finds_ensureBacking (b:=c) (E:=E) (e:=e) e.processUid key.kind
      key.backingId
    have hcases:=backings_ensureBacking (b:=c) (E:=E) (e:=e) e.processUid key.kind
      key.backingId
    rw [heq]
    generalize c.ensureBacking E e e.processUid key.kind key.backingId = r at hfinds hcases ⊢
    obtain ⟨hvalid,hchild⟩:=hfinds.valid h.valid
    have hle : parent ≤ r.2.nodeCount:=(h.valid.backings _ hmem).trans hfinds.quiet.count
    have hbefore : Keeps b r.2:=h.keeps.trans hfinds.quiet.sameGenerations.keeps
    refine ⟨?_,h.count.trans hfinds.quiet.count,?_,?_,?_⟩
    · exact ((hvalid.modifyNode _ _).modifyState _ _).addEdge _ _ _ _ _ _ _
    · intro j g hj
      rw [generationOf,mark_copyBacking]
      split
      · rename_i hcond
        obtain ⟨rfl,-⟩:=hcond
        have hjle:=le_of_generationOf hj
        have hold : b.backings.find ⟨e.processUid,key.kind,key.backingId⟩=some r.1:=by
          rcases hcases with ⟨-,hfind⟩ | ⟨-,hnew,-⟩
          · rcases h.children _ _ hfind with hold | hlt
            · exact hold
            · omega
          · have hcount:=h.count
            omega
        rw [inheritKeeps,← h.parents,hparent] at hkeeps
        dsimp only at hkeeps
        rw [hold] at hkeeps
        dsimp only at hkeeps
        rw [hj] at hkeeps
        simp only [isNone_some,Bool.false_or,beq_iff_eq] at hkeeps
        have hgen : b.generationOf parent=some g:=hkeeps.symm
        dsimp only
        rw [← generationOf_of_le hle]
        exact hbefore parent g hgen
      · exact hbefore j g hj
    · intro bid'
      rw [← h.parents bid']
      change (r.2.backings.find? _)=_
      rcases hcases with ⟨hr,-⟩ | ⟨hnone,-,hbackings⟩
      · rw [hr]
      · rw [hbackings,OrderedMap.find?_insert_of_not]
        intro w
        by_cases hp : e.processUid=e.parentUid
        · -- then the key is that of the parent, and it is not new
          exfalso
          have hkey : key.processUid=e.parentUid:=by
            have:=find?_some hparent
            simp only [Bool.and_eq_true,beq_iff_eq] at this
            exact this.1
          refine OrderedMap.find_eq_none hnone hmem ?_
          rw [hp,← hkey]
        · simp [hp]
    · intro key' id hid
      change r.2.backings.find key' = some id at hid
      rcases hcases with ⟨hr,-⟩ | ⟨hnone,-,hbackings⟩
      · rw [hr] at hid
        exact h.children key' id hid
      · rw [hbackings] at hid
        rcases OrderedMap.find_insert hnone hid with hold | rfl
        · exact h.children key' id hold
        · exact Or.inr (Nat.lt_succ_of_le h.count)

theorem Tracks.inherit_foldl (h:Tracks b e c) {ids:List ℕ}
    (hkeeps:ids.all (b.inheritKeeps e)=true) :
    Tracks b e (ids.foldl (fun b bid=>b.inheritBacking E e bid) c):=by
  induction ids generalizing c with
  | nil=>exact h
  | cons bid ids ih=>
    rw [all_cons,Bool.and_eq_true] at hkeeps
    exact ih (h.inheritBacking hkeeps.1) hkeeps.2

theorem backings_ensureOriginal : (b.ensureOriginal E e).backings=b.backings:=by
  rcases ensureOriginal_cases (b:=b) (E:=E) (e:=e) with heq | ⟨-,n,tid,-,-,heq⟩
  · rw [heq]
  · rw [heq]
    rfl

theorem count_ensureOriginal : b.nodeCount≤(b.ensureOriginal E e).nodeCount:=by
  rcases ensureOriginal_cases (b:=b) (E:=E) (e:=e) with heq | ⟨-,n,tid,-,-,heq⟩
  · rw [heq]
  · rw [heq]
    exact Nat.le_succ _

theorem keeps_plainStart (hv:b.Valid) (hkeeps:(inheritedIds e).all (b.inheritKeeps e)=true) :
    Keeps b (b.plainStart E e):=by
  have hstart : Tracks b e (b.ensureOriginal E e):=by
    refine ⟨hv.ensureOriginal,count_ensureOriginal,keeps_ensureOriginal,?_,?_⟩
    · intro bid
      rw [backings_ensureOriginal]
    · intro key id hid
      rw [backings_ensureOriginal] at hid
      exact Or.inl hid
  exact (hstart.inherit_foldl hkeeps).keeps

theorem keeps_startEvent (hv:b.Valid) (hkind:e.kind=.processStart)
    (hkeeps:b.keepsGenerations e=true) : Keeps b (b.startEvent E e):=by
  obtain ⟨-,-,hsame⟩:=threadStart_fields (b:=b) (E:=E) (e:=e)
  unfold keepsGenerations at hkeeps
  unfold startEvent
  split
  · exact hsame.keeps
  · rename_i hthread
    rw [if_neg (by simp [hkind,hthread])] at hkeeps
    split
    · rename_i hhandoff
      rw [if_pos hhandoff] at hkeeps
      split
      · rename_i kind bid hnamed
        rw [hnamed] at hkeeps
        exact keeps_execHandoff hv hkeeps
      · rename_i hnamed
        rw [hnamed] at hkeeps
        exact keeps_plainStart hv hkeeps
    · rename_i hhandoff
      rw [if_neg hhandoff] at hkeeps
      exact keeps_plainStart hv hkeeps

theorem keeps_step (hv:b.Valid) (hkeeps:b.keepsGenerations e=true) : Keeps b (step E b e):=by
  unfold step
  split
  · rename_i hkind
    obtain ⟨l,hl⟩:=divergence_eq (b:=b.startEvent E e) (e:=e)
    rw [hl]
    exact keeps_startEvent hv hkind hkeeps
  · exact quiet_allocationEvent.sameGenerations.keeps
  · exact quiet_allocationEvent.sameGenerations.keeps
  · exact sameGenerations_writeEvent.keeps
  · exact sameGenerations_writeEvent.keeps
  · exact quiet_protectEvent.sameGenerations.keeps
  · exact keeps_executeEvent
  · exact Keeps.refl b

theorem Extends.keeps (h:Extends b c) : Keeps b c:=by
  intro id g hg
  have hle:=le_of_generationOf hg
  rw [generationOf_of_le hle] at hg
  rw [generationOf_of_le (hle.trans h.count),h.nodes id hle]
  exact hg

def keepsAll (E : Environment) (b : Builder) : List TimelineEvent → Bool
  | [] => true
  | e::later => b.keepsGenerations e && keepsAll E (step E b e) later

theorem keeps_run (before:List TimelineEvent) {later:List TimelineEvent}
    (h:keepsAll E (runEvents E before) later=true) :
    Keeps (runEvents E before) (runEvents E (before++later)):=by
  induction later generalizing before with
  | nil=>
    rw [append_nil]
    exact Keeps.refl _
  | cons e later ih=>
    rw [keepsAll,Bool.and_eq_true,← runEvents_concat] at h
    have hstep : Keeps (runEvents E before) (runEvents E (before++[e])):=by
      rw [runEvents_concat]
      exact keeps_step (sound_runEvents E before).valid h.1
    rw [append_cons]
    exact hstep.trans (ih _ h.2)

end Builder

open Builder

/-- Through events that all keep the generations there are, no node loses or changes its
generation, and neither does it through the artifacts at the end. -/
theorem generations_immutable (E : Environment) (before later : List TimelineEvent)
    (h : keepsAll E (runEvents E before) later=true) :
    ∀ id g, (runEvents E before).generationOf id=some g →
      (runEvents E (before++later)).generationOf id=some g ∧
      ((runEvents E (before++later)).artifactsPhase E).generationOf id=some g := by
  have hrun:=keeps_run before h
  intro id g hg
  exact ⟨hrun id g hg,extends_artifactsPhase.keeps id g (hrun id g hg)⟩

/-- The node of a backing keeps its generation when a child inherits it. -/
theorem inherited_generation_kept : (runEvents {} inheritedRun).generationOf 2=some 1 ∧
      ((runEvents {} inheritedRun).artifactsPhase {}).generationOf 2=some 1:=
  generations_immutable {} (inheritedRun.take 3) (inheritedRun.drop 3) (by decide +kernel) 2 1
    (by decide +kernel)

/-- A process writes two backings and hands first one and then the other to `exec`. -/
def handoffRun : List TimelineEvent :=
  [{kind:=.processStart,processUid:=1,pid:=10,fields:=[("scope","root_process")]},
    { kind:=.fileWrite,processUid:=1,pid:=10,
      fields:=[("backing_id","5"),("backing_kind","memfd")] },
    { kind:=.processStart,processUid:=1,pid:=10,subject := "runtime_backing_exec_handoff",
      fields:=[("exec_image_identity_match","true"),("backing_id","5"),
        ("backing_kind","memfd")] },
    { kind:=.fileWrite,processUid:=1,pid:=10,
      fields:=[("backing_id","6"),("backing_kind","memfd")] },
    { kind:=.processStart,processUid:=1,pid:=10,subject := "runtime_backing_exec_handoff",
      fields:=[("exec_image_identity_match","true"),("backing_id","6"),
        ("backing_kind","memfd")] }]

/-- A child executes a backing of its own and is then said to inherit one of the same name. -/
def inheritanceRun : List TimelineEvent :=
  [{kind:=.processStart,processUid:=1,pid:=10,fields:=[("scope","root_process")]},
    { kind:=.fileCreate,processUid:=1,pid:=10,
      fields:=[("backing_id","5"),("backing_kind","memfd")] },
    { kind:=.fileWrite,processUid:=2,pid:=11,
      fields:=[("backing_id","5"),("backing_kind","memfd")] },
    { kind:=.materializedExecute,processUid:=2,pid:=11,
      fields:=[("backing_id","5"),("backing_kind","memfd")] },
    { kind:=.processStart,processUid:=2,parentUid:=1,pid:=11,
      fields:=[("inherited_backing_ids","5")] }]

/-- The second handoff changes the generation of the image, and the child's start clears that
of its backing. -/
theorem generation_overwritten : ((runEvents {} (handoffRun.take 4)).generationOf 3=some 1 ∧
      (runEvents {} handoffRun).generationOf 3=some 2) ∧
    ((runEvents {} (inheritanceRun.take 4)).generationOf 3=some 1 ∧
      (runEvents {} inheritanceRun).generationOf 3=none):=by
  decide +kernel

end AutoRefirst.Materialization
