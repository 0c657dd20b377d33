import AutoRefirst.GenerationKeeping

/-!
# Executions of known regions

An execution event that names no backing looks for the region that is executed twice. The second
search runs whether or not the first one has found a region, and it makes a region where it finds
none of the kind that the event stands for.
-/

namespace AutoRefirst.Materialization
open List Option

theorem compare_regionKey {k k':RegionKey} : compare k k'=.eq ↔ k=k':=by
  obtain ⟨p,start,stop,code⟩:=k
  obtain ⟨p',start',stop',code'⟩:=k'
  change (compare p p').then ((compare start start').then ((compare stop stop').then
    ((compare code code').then .eq))) = .eq ↔ _
  simp only [Ordering.then_eq_eq,Std.compare_eq_iff_eq,RegionKey.mk.injEq,and_true]

instance : Std.LawfulEqOrd RegionKey where
  compare_self := compare_regionKey.mpr rfl
  eq_of_compare := compare_regionKey.mp

namespace Builder

def eventStart (e : TimelineEvent) : ℕ :=
  (((fu64 e.fields "range_start").or (fu64 e.fields "address")).or (parseU64 e.subject)).getD 0

/-- Where `event_region` takes it to end. -/
def eventStop (e : TimelineEvent) : ℕ :=
  let size := max 1 ((fu64 e.fields "written_bytes").getD ((fu64 e.fields "size").getD 1))
  let start := (fu64 e.fields "range_start").or (fu64 e.fields "address")
  ((fu64 e.fields "range_end").or (start.map fun s => Word64.add s size)).getD
    (Word64.add (eventStart e) size)

def executionStop (e : TimelineEvent) : ℕ :=
  (fu64 e.fields "range_end").getD
    (Word64.add (eventStart e) (max 1 ((fu64 e.fields "size").getD 1)))

def knownRegion (b : Builder) (processUid start stop : ℕ) (kind : MaterializationNodeKind) :
    Option ℕ :=
  let stop := if stop ≤ start then Word64.add start 1 else stop
  (b.regions.find ⟨processUid,start,stop,regionCode kind⟩).or
    ((b.regions.find? fun kv => kv.1.processUid == processUid && kv.1.code == regionCode kind &&
      decide (kv.1.start < stop) && decide (kv.1.stop > start)).map Prod.snd)

/-- The backing that the event names is there; or it names none, and a region of the event's own
kind is there for its range. -/
def executionKnown (b : Builder) (e : TimelineEvent) : Bool :=
  match namedBacking e with
  | some (kind,bid) => (b.backings.find ⟨e.processUid,kind,bid⟩).isSome
  | none => (b.knownRegion e.processUid (eventStart e) (eventStop e) (regionKind e false)).isSome

def Meets (key : RegionKey) (e : TimelineEvent) : Prop :=
  let stop := if eventStop e ≤ eventStart e then Word64.add (eventStart e) 1 else eventStop e
  eventStart e < key.stop ∧ (key.start<stop ∨ key.start < executionStop e) ∨
    key.start = eventStart e ∧ key.stop=stop

def PlaceOf (b : Builder) (e : TimelineEvent) (id : ℕ) : Prop :=
  match namedBacking e with
  | some (kind,bid) => b.backings.find ⟨e.processUid,kind,bid⟩ = some id
  | none => ∃ key, (key,id)∈b.regions ∧ key.processUid=e.processUid ∧ Meets key e

def OnlyUpdates (b : Builder) (e : TimelineEvent) (c : Builder) : Prop :=
  c.nodeCount = b.nodeCount ∧ ∃ id, b.PlaceOf e id ∧ ∀ j, j≠id → c.nodes j = b.nodes j

def InKnownRegion (b : Builder) (e : TimelineEvent) : Prop :=
  ∃ kv∈b.regions, kv.1.processUid=e.processUid ∧ ∃ a, fu64 e.fields "address" = some a ∧
    kv.1.start ≤ a ∧ a<kv.1.stop

variable {b c d : Builder} {E : Environment} {e : TimelineEvent}

variable {processUid id : ℕ} {kind : MaterializationNodeKind}

theorem ensureRegion_known {start stop:ℕ} {cross:Bool}
    (h:b.knownRegion processUid start stop kind=some id) :
    b.ensureRegion E e processUid start stop kind cross=(id,b):=by
  rw [knownRegion,or_eq_some_iff] at h
  rw [ensureRegion]
  dsimp only at h ⊢
  rcases h with hfind | ⟨hnone,hover⟩
  · rw [hfind]
  · obtain ⟨kv,hkv,rfl⟩:=map_eq_some_iff.mp hover
    rw [hnone,hkv]

theorem ensureRegion_unknown {start stop:ℕ} {cross:Bool}
    (h:b.knownRegion processUid start stop kind=none) :
    (b.ensureRegion E e processUid start stop kind cross).2.nodeCount = b.nodeCount+1:=by
  rw [knownRegion,or_eq_none_iff,map_eq_none_iff] at h
  rw [ensureRegion]
  dsimp only at h ⊢
  rw [h.1,h.2]
  rfl

theorem ensureBacking_unknown {bid:ℕ} {kind:String}
    (h:b.backings.find ⟨processUid,kind,bid⟩=none) :
    (b.ensureBacking E e processUid kind bid).2.nodeCount = b.nodeCount+1:=by
  rw [ensureBacking,h]
  rfl

theorem meets_knownRegion
    (h:b.knownRegion e.processUid (eventStart e) (eventStop e) kind=some id) :
    ∃key,(key,id)∈b.regions ∧ key.processUid=e.processUid ∧ Meets key e:=by
  rw [knownRegion,or_eq_some_iff] at h
  rcases h with hfind | ⟨-,hover⟩
  · exact ⟨_,OrderedMap.find_eq_some hfind,rfl,.inr ⟨rfl,rfl⟩⟩
  · obtain ⟨⟨key,i⟩,hkv,rfl⟩:=map_eq_some_iff.mp hover
    have hp:=find?_some hkv
    simp only [Bool.and_eq_true,beq_iff_eq,decide_eq_true_eq] at hp
    exact ⟨key,mem_of_find?_eq_some hkv,hp.1.1.1,.inl ⟨hp.2,.inl hp.1.2⟩⟩

theorem meets_existingRegion (h:b.existingRegionForExecution e=some id) :
    ∃key,(key,id)∈b.regions ∧ key.processUid=e.processUid ∧ Meets key e:=by
  rw [existingRegionForExecution] at h
  split at h
  · cases h
  · rename_i start hstart
    obtain ⟨⟨key,i⟩,hkv,rfl⟩:=map_eq_some_iff.mp h
    have hp:=find?_some hkv
    simp only [Bool.and_eq_true,beq_iff_eq,decide_eq_true_eq] at hp
    have hevent : eventStart e=start:=by
      rw [eventStart,hstart]
      rfl
    refine ⟨key,mem_of_find?_eq_some hkv,hp.1.1.1,.inl ⟨hevent▸hp.1.2,.inr ?_⟩⟩
    rw [executionStop,hevent]
    exact hp.1.1.2

structure SameBut (id : ℕ) (b c : Builder) : Prop where
  count : c.nodeCount=b.nodeCount
  nodes : ∀ j, j≠id → c.nodes j = b.nodes j

theorem SameBut.refl (id:ℕ) (b:Builder) : SameBut id b b:=⟨rfl,fun _ _=>rfl⟩

theorem SameBut.trans (h:SameBut id b c) (h':SameBut id c d) : SameBut id b d:=
  ⟨h'.count.trans h.count,fun j hj=>(h'.nodes j hj).trans (h.nodes j hj)⟩

theorem sameBut_modifyNode (id:ℕ) (f:MaterializationNode→MaterializationNode) :
    SameBut id b (b.modifyNode id f):=
  ⟨rfl,fun _ hj=>Function.update_of_ne hj _ _⟩

theorem sameBut_of_nodes (hcount:c.nodeCount=b.nodeCount) (hnodes:c.nodes=b.nodes) :
    SameBut id b c:=
  ⟨hcount,fun j _=>congrFun hnodes j⟩

theorem sameBut_assignGeneration (id:ℕ) : SameBut id b (b.assignGeneration id):=by
  unfold assignGeneration
  split
  · exact .refl id b
  · exact sameBut_modifyNode id _

theorem sameBut_observeExecution (id:ℕ) : SameBut id b (b.observeExecution E e id):=by
  unfold observeExecution noteUnknownWriter
  dsimp only
  split <;> exact sameBut_of_nodes rfl rfl

theorem sameBut_runNode (id:ℕ) : SameBut id b (b.runNode E e id):=by
  refine (sameBut_modifyNode id _:SameBut id b (b.markExecuted E e id)).trans ?_
  unfold runNode executionEdge enterThread
  dsimp only
  split <;> split <;> try split
  all_goals exact sameBut_of_nodes rfl rfl

theorem sameBut_executed (id:ℕ) :
    SameBut id b (((b.observeExecution E e id).assignGeneration id).runNode E e id):=
  ((sameBut_observeExecution id).trans (sameBut_assignGeneration id)).trans (sameBut_runNode id)

theorem executeEvent_same : SameBut (b.executeNode E e).1 (b.executeNode E e).2
    (b.executeEvent E e):=by
  unfold executeEvent
  dsimp only
  split
  · exact (sameBut_executed _).trans (sameBut_of_nodes rfl rfl)
  · exact sameBut_executed _

theorem executeNode_known (h:b.executionKnown e=true) :
    b.PlaceOf e (b.executeNode E e).1 ∧ (b.executeNode E e).2.nodeCount=b.nodeCount ∧
      (b.executeNode E e).2.nodes=b.nodes:=by
  unfold executionKnown at h
  unfold PlaceOf executeNode
  cases hnamed : namedBacking e with
  | some named=>
    rw [hnamed] at h
    obtain ⟨id,hid⟩:=isSome_iff_exists.mp h
    dsimp only
    rw [ensureBacking_of_find hid]
    exact ⟨hid,rfl,rfl⟩
  | none=>
    rw [hnamed] at h
    obtain ⟨id,hid⟩:=isSome_iff_exists.mp h
    have hregion : b.eventRegion E e e.processUid false=(id,b):=ensureRegion_known hid
    dsimp only
    rw [hregion]
    refine ⟨?_,rfl,rfl⟩
    cases hexisting : b.existingRegionForExecution e with
    | some i=>exact meets_existingRegion hexisting
    | none=>exact meets_knownRegion hid

theorem executeNode_unknown (h:b.executionKnown e=false) :
    (b.executeNode E e).2.nodeCount = b.nodeCount+1:=by
  unfold executionKnown at h
  unfold executeNode
  cases hnamed : namedBacking e with
  | some named=>
    rw [hnamed] at h
    exact ensureBacking_unknown (not_isSome_iff_eq_none.mp (ne_true_of_eq_false h))
  | none=>
    rw [hnamed] at h
    exact ensureRegion_unknown (not_isSome_iff_eq_none.mp (ne_true_of_eq_false h))

end Builder

open Builder

/-- An execution adds no node and changes only the node of a known place, exactly when the backing
it names is known or a region of its own kind is. -/
theorem execution_only_updates (E : Environment) (b : Builder) (e : TimelineEvent) :
    OnlyUpdates b e (b.executeEvent E e) ↔ b.executionKnown e=true := by
  have hsame:=executeEvent_same (b:=b) (E:=E) (e:=e)
  constructor
  · rintro ⟨hcount,-⟩
    by_contra hunknown
    rw [Bool.not_eq_true] at hunknown
    have hadded:=executeNode_unknown (E:=E) hunknown
    have hafter:=hsame.count
    omega
  · intro hknown
    obtain ⟨hplace,hcount,hnodes⟩:=executeNode_known (E:=E) hknown
    refine ⟨hsame.count.trans hcount,_,hplace,fun j hj=>?_⟩
    rw [hsame.nodes j hj,hnodes]

def injectedRun : List TimelineEvent :=
  [{ kind:=.memoryWrite,processUid:=1,pid:=10,
      fields:=[("target_process_uid","2"),("address","0x1000"),("size","4096")] }]

def injectedExecution : TimelineEvent :=
  {kind:=.materializedExecute,processUid:=2,pid:=20,fields:=[("address","0x1000")]}

/-- The written region is found, and a second one is made for the same place. -/
theorem executed_region_doubled : ¬∀(timeline:List TimelineEvent) (e:TimelineEvent),
      InKnownRegion (runEvents {} timeline) e →
        OnlyUpdates (runEvents {} timeline) e ((runEvents {} timeline).executeEvent {} e):=by
  intro hall
  have hknown : InKnownRegion (runEvents {} injectedRun) injectedExecution:=
    ⟨(⟨2,4096,8192,regionCode .crossProcessRegion⟩,1),by decide +kernel,rfl,4096,
      by decide +kernel,by decide,by decide⟩
  have hcount:=(hall injectedRun injectedExecution hknown).1
  exact absurd hcount (by decide +kernel)

end AutoRefirst.Materialization
