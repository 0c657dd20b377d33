import AutoRefirst.AnsweredRequests
import AutoRefirst.IntrospectionProtocol

/-!
# Accepted introspection streams

What the records of an accepted stream have in common. A record that is accepted extends
the list of events; the state of the stream remembers which triggers are still open.
-/

namespace AutoRefirst.CPythonIntrospection
open AnsweredRequests Fallible List

theorem require_eq_ok {p:Prop} [Decidable p] {e:String} {u:Unit} : require p e=.ok u ↔ p:=by
  unfold require
  split_ifs with h <;> simp [h]

/-- The trigger modifies behaviour, or leaves open whether it does. -/
def EventFact.modifies (e : EventFact) : Bool := !e.behaviorModifiedPresent || e.behaviorModified

def lineEvent (b : Budgets) (line : Bytes) : Except String EventFact := do
  let j ← root b.maxJsonDepth b.maxJsonNodes line
  let (event,state) ← recordHeader j
  return eventFact j event state

/-- The lines that hold a record. -/
def contentLines (lines : List Bytes) : List Bytes :=
  (lines.map dropCarriageReturn).filter (· ≠ [])

def streamEvents (b : Budgets) (text : Bytes) : Except String (List EventFact) :=
  ((contentLines (splitLines text)).take b.maxRecords).mapM (lineEvent b)

/-- A request is a trigger, its answer the frame snapshot of the same hook and trigger. -/
def SameKey (t s : EventFact) : Prop := t.key=s.key

/-- The contract of a stream of records. -/
structure Contract (es : List EventFact) : Prop where
  first : ∃ e rest, es=e::rest ∧ e.is "probe_loaded" ∧ ∀ x∈rest, ¬x.is "probe_loaded"
  identity : ∀ x∈es, ∀ y∈es, x.effectiveInterpreterIdentity≠[] →
    y.effectiveInterpreterIdentity ≠ [] →
      x.effectiveInterpreterIdentity = y.effectiveInterpreterIdentity
  consumed : ∃ f, Answered (EventFact.is · "hook_triggered") (EventFact.is · "frame_snapshot")
    SameKey es f
  armed : ∀ (i : ℕ) (e : EventFact), es[i]? = some e → e.is "hook_triggered" → e.modifies →
    ∃ j < i, ∃ a : EventFact, es[j]? = some a ∧ a.is "hook_armed" ∧ a.key=e.key

structure Recorded (r : Report) (s : StreamState) (e : EventFact) (r' : Report) (s' : StreamState) :
    Prop where
  probe : e.is "probe_loaded" ↔ r.recordsRetained=0
  retained : r'.recordsRetained=r.recordsRetained
  seen : r'.recordsSeen=r.recordsSeen
  truncated : r'.recordsTruncated=r.recordsTruncated
  identity : bindStreamField s.interpreterIdentity e.effectiveInterpreterIdentity "identity" =
    .ok s'.interpreterIdentity
  armed : s'.armed=(arm s e).armed
  modifying : e.is "hook_triggered" → e.modifies → s.armed e.key
  triggered : r'.hookTriggeredCount = r.hookTriggeredCount + (e.is "hook_triggered").toNat
  snapshots : r'.frameSnapshotCount = r.frameSnapshotCount + (e.is "frame_snapshot").toNat
  pending :
    (e.is "hook_triggered" ∧
      s'.pending = Function.update s.pending e.key (some e.correlation)) ∨
    (e.is "frame_snapshot" ∧ (s.pending e.key).isSome ∧
      s'.pending = Function.update s.pending e.key none) ∨
    (e.is "hook_triggered" = false ∧ e.is "frame_snapshot" = false ∧ s'.pending=s.pending)

theorem EventFact.is_unique {e:EventFact} {a b:String} (h:bytes a≠bytes b)
    (ha:e.is a=true) : e.is b=false:=by
  unfold EventFact.is at *
  rw [decide_eq_true_iff] at ha
  rw [decide_eq_false_iff_not,ha]
  exact h

theorem checkEvent_ok {r r':Report} {e:EventFact} (h:checkEvent r e=.ok r') :
    (e.is "probe_loaded" ↔ r.recordsRetained=0) ∧ ∃t,r' = {r with transport:=t}:=by
  unfold checkEvent at h
  simp only [bind_eq_ok,require_eq_ok] at h
  obtain ⟨-,hfirst,-,hlate,-,-,h⟩:=h
  constructor
  · constructor
    · intro hp
      by_contra hne
      exact hlate ⟨hp,hne⟩
    · intro h0
      rcases hfirst with hfirst | hfirst
      · exact absurd h0 hfirst
      · exact hfirst.1
  · split_ifs at h
    · rw [pure_eq_ok] at h
      exact ⟨_,h.symm⟩
    · simp only [bind_eq_ok,require_eq_ok] at h
      obtain ⟨-,-,h⟩:=h
      rw [pure_eq_ok] at h
      exact ⟨r.transport,h.symm⟩

theorem bindInterpreter_ok {s s':StreamState} {e:EventFact} (h:bindInterpreter s e=.ok s') :
    bindStreamField s.interpreterIdentity e.effectiveInterpreterIdentity "identity" =
        .ok s'.interpreterIdentity ∧ s'.armed=s.armed ∧ s'.pending=s.pending:=by
  unfold bindInterpreter at h
  simp only [bind_eq_ok,require_eq_ok] at h
  obtain ⟨-,-,runtime,-,executable,-,kind,-,identity,hid,h⟩:=h
  rw [pure_eq_ok] at h
  subst h
  exact ⟨hid,rfl,rfl⟩

theorem openTrigger_ok {s s':StreamState} {e:EventFact} (h:openTrigger s e=.ok s') :
    (e.is "hook_triggered" ∧ (e.modifies → s.armed e.key) ∧
        s' = {s with pending:=Function.update s.pending e.key (some e.correlation)}) ∨
      (e.is "hook_triggered" = false ∧ s'=s):=by
  unfold openTrigger at h
  split_ifs at h with ht
  · simp only [bind_eq_ok,require_eq_ok] at h
    obtain ⟨-,harmed,h⟩:=h
    rw [pure_eq_ok] at h
    refine .inl ⟨ht,fun hm=>?_,h.symm⟩
    by_contra hn
    exact harmed ⟨hm,hn⟩
  · rw [pure_eq_ok] at h
    exact .inr ⟨by simpa using ht,h.symm⟩

theorem consumeTrigger_ok {s s':StreamState} {e:EventFact} (h:consumeTrigger s e=.ok s') :
    (e.is "frame_snapshot" ∧ (s.pending e.key).isSome ∧
        s' = {s with pending:=Function.update s.pending e.key none}) ∨
      (e.is "frame_snapshot" = false ∧ s'=s):=by
  unfold consumeTrigger at h
  split_ifs at h with hs
  · split at h
    · simp at h
    · next c hc=>
      simp only [bind_eq_ok,require_eq_ok] at h
      obtain ⟨-,-,-,-,-,-,-,-,-,-,h⟩:=h
      rw [pure_eq_ok] at h
      exact .inl ⟨hs,by rw [hc];rfl,h.symm⟩
  · rw [pure_eq_ok] at h
    exact .inr ⟨by simpa using hs,h.symm⟩

theorem updateState_counts (r:Report) (s:Bytes) :
    ∃st,r.updateState s = {r with runtimeState:=st}:=by
  unfold Report.updateState
  split_ifs
  · exact ⟨s,rfl⟩
  · exact ⟨r.runtimeState,rfl⟩

theorem retainEvent_counts (b:Budgets) (r:Report) (e:EventFact) :
    ∃es t,retainEvent b r e = {r with events:=es,eventsConsumerTruncated:=t}:=by
  unfold retainEvent
  split_ifs
  · exact ⟨_,_,rfl⟩
  · exact ⟨_,_,rfl⟩

theorem countEvent_eq (r:Report) (e:EventFact) : ∃n,countEvent r e = { r with
      hookArmedCount:=n,hookTriggeredCount:=r.hookTriggeredCount + (e.is "hook_triggered").toNat
      frameSnapshotCount:=r.frameSnapshotCount + (e.is "frame_snapshot").toNat }:=by
  unfold countEvent
  split_ifs with hp ha ht hs
  · rw [EventFact.is_unique (by decide) hp,EventFact.is_unique (b := "frame_snapshot") (by decide) hp]
    exact ⟨_,rfl⟩
  · rw [EventFact.is_unique (by decide) ha,EventFact.is_unique (b := "frame_snapshot") (by decide) ha]
    exact ⟨_,rfl⟩
  · rw [ht,EventFact.is_unique (b := "frame_snapshot") (by decide) ht]
    exact ⟨_,rfl⟩
  · rw [hs,EventFact.is_unique (b := "hook_triggered") (by decide) hs]
    exact ⟨_,rfl⟩
  · rw [Bool.eq_false_iff.mpr ht,Bool.eq_false_iff.mpr hs]
    exact ⟨_,rfl⟩

variable {b : Budgets}

theorem record_ok {j:J} {r r':Report} {s s':StreamState} (h:record b j r s=.ok (r',s')) :
    ∃event state,recordHeader j=.ok (event,state) ∧
      Recorded r s (eventFact j event state) r' s':=by
  unfold record at h
  simp only [bind_eq_ok] at h
  obtain ⟨⟨event,state⟩,hheader,r₁,hcheck,s₁,hbind,s₂,hopen,s₃,hconsume,h⟩:=h
  refine ⟨event,state,hheader,?_⟩
  rw [pure_eq_ok,Prod.mk.injEq] at h
  obtain ⟨hr,rfl⟩:=h
  obtain ⟨hprobe,t,rfl⟩:=checkEvent_ok hcheck
  obtain ⟨hid,harmed,hpending⟩:=bindInterpreter_ok hbind
  have harm : (arm s₁ (eventFact j event state)).armed=(arm s (eventFact j event state)).armed:=by
    unfold arm
    split_ifs
    · rw [harmed]
    · exact harmed
  have harmPending : (arm s₁ (eventFact j event state)).pending=s.pending:=by
    rw [← hpending]
    unfold arm
    split_ifs <;> rfl
  have harmId : (arm s₁ (eventFact j event state)).interpreterIdentity=s₁.interpreterIdentity:=by
    unfold arm
    split_ifs <;> rfl
  generalize eventFact j event state = e at *
  obtain ⟨st,hst⟩:=updateState_counts (countEvent
    {r with schema:=1,protocolValid:=true,transport:=t} e) e.state
  obtain ⟨es,tr,hret⟩:=retainEvent_counts b ((countEvent
    {r with schema:=1,protocolValid:=true,transport:=t} e).updateState e.state) e
  obtain ⟨n,hn⟩:=countEvent_eq {r with schema:=1,protocolValid:=true,transport:=t} e
  rw [hret,hst,hn] at hr
  have hnotrig : e.is "hook_triggered" → arm s e=s:=by
    intro ht
    unfold arm
    rw [EventFact.is_unique (b := "hook_armed") (by decide) ht]
    rfl
  subst hr
  constructor
  case probe=>exact hprobe
  case retained=>rfl
  case seen=>rfl
  case truncated=>rfl
  case triggered=>rfl
  case snapshots=>rfl
  case identity=>
    rcases openTrigger_ok hopen with ⟨-,-,rfl⟩ | ⟨-,rfl⟩ <;>
      rcases consumeTrigger_ok hconsume with ⟨-,-,rfl⟩ | ⟨-,rfl⟩ <;>
        simpa only [harmId] using hid
  case armed=>
    rcases openTrigger_ok hopen with ⟨-,-,rfl⟩ | ⟨-,rfl⟩ <;>
      rcases consumeTrigger_ok hconsume with ⟨-,-,rfl⟩ | ⟨-,rfl⟩ <;> exact harm
  case modifying=>
    intro ht hm
    rcases openTrigger_ok hopen with ⟨-,harmed',-⟩ | ⟨hf,-⟩
    · have:=harmed' hm
      rwa [harm,hnotrig ht] at this
    · rw [ht] at hf
      simp at hf
  case pending=>
    rcases openTrigger_ok hopen with ⟨ht,-,rfl⟩ | ⟨ht,rfl⟩
    · left
      rcases consumeTrigger_ok hconsume with ⟨hs,-,-⟩ | ⟨-,rfl⟩
      · rw [EventFact.is_unique (b := "frame_snapshot") (by decide) ht] at hs
        simp at hs
      · exact ⟨ht,by rw [← harmPending]⟩
    · right
      rcases consumeTrigger_ok hconsume with ⟨hs,hsome,rfl⟩ | ⟨hs,rfl⟩
      · exact .inl ⟨hs,by rwa [harmPending] at hsome,by rw [← harmPending]⟩
      · exact .inr ⟨ht,hs,harmPending⟩

structure Follows (r : Report) (s : StreamState) (es : List EventFact) : Prop where
  retained : r.recordsRetained=es.length
  probe : ∀ (i : ℕ) (e : EventFact), es[i]? = some e → (e.is "probe_loaded" ↔ i=0)
  identity : ∀ e∈es, e.effectiveInterpreterIdentity=[] ∨
    e.effectiveInterpreterIdentity = s.interpreterIdentity
  armed : ∀ k, s.armed k → ∃ a∈es, a.is "hook_armed" ∧ a.key=k
  modifying : ∀ (i : ℕ) (e : EventFact), es[i]? = some e → e.is "hook_triggered" → e.modifies →
    ∃ j < i, ∃ a : EventFact, es[j]? = some a ∧ a.is "hook_armed" ∧ a.key=e.key
  consumed : ∃ f, Answered (EventFact.is · "hook_triggered") (EventFact.is · "frame_snapshot")
      SameKey es f ∧
    ∀ k, (s.pending k).isSome → ∃ (t : ℕ) (e : EventFact), es[t]? = some e ∧
      e.is "hook_triggered" ∧ e.key=k ∧ Free (EventFact.is · "frame_snapshot") es f t
  triggered : r.hookTriggeredCount=es.countP (EventFact.is · "hook_triggered")
  snapshots : r.frameSnapshotCount=es.countP (EventFact.is · "frame_snapshot")
  idle : es=[] → r.runtimeState=bytes "NOT_ATTEMPTED"

theorem follows_nil {r:Report} (hr:r.recordsRetained=0) (ht:r.hookTriggeredCount=0)
    (hs:r.frameSnapshotCount=0) (hstate:r.runtimeState=bytes "NOT_ATTEMPTED") :
    Follows r {} []:=by
  constructor
  case retained=>exact hr
  case probe=>intro i e h;exact absurd h (by simp)
  case identity=>intro e h;exact absurd h (by simp)
  case armed=>intro k h;exact absurd h (by simp)
  case modifying=>intro i e h;exact absurd h (by simp)
  case consumed=>exact ⟨id,answered_nil,fun k h=>absurd h (by simp)⟩
  case triggered=>exact ht
  case snapshots=>exact hs
  case idle=>exact fun _=>hstate

theorem bindStreamField_ok {x y z:Bytes} {n:String} (h:bindStreamField x y n=.ok z) :
    (y=[] ∧ z=x) ∨ (x=[] ∧ z=y) ∨ (z=x ∧ z=y):=by
  unfold bindStreamField at h
  split_ifs at h with h₁ h₂ h₃
  · exact .inl ⟨h₁,(Except.ok.inj h).symm⟩
  · exact .inr (.inl ⟨h₂,(Except.ok.inj h).symm⟩)
  · exact .inr (.inr ⟨(Except.ok.inj h).symm,by rw [← h₃];exact (Except.ok.inj h).symm⟩)

variable {r r' : Report} {s s' : StreamState} {es : List EventFact} {e : EventFact}

/-- The seen and truncated counters do not matter. -/
theorem Follows.of_eq (h:Follows r s es) (hretained:r'.recordsRetained=r.recordsRetained)
    (ht:r'.hookTriggeredCount=r.hookTriggeredCount)
    (hs:r'.frameSnapshotCount=r.frameSnapshotCount) (hstate:r'.runtimeState=r.runtimeState) :
    Follows r' s es:=
  ⟨hretained.trans h.retained,h.probe,h.identity,h.armed,h.modifying,h.consumed,
    ht.trans h.triggered,hs.trans h.snapshots,fun hes=>hstate.trans (h.idle hes)⟩

theorem Follows.snoc_probe (h:Follows r s es) (hrec:Recorded r s e r' s') (i:ℕ) (x:EventFact)
    (hx:(es++[e])[i]? = some x) : x.is "probe_loaded" ↔ i=0:=by
  rcases getElem?_snoc hx with hx | ⟨rfl,rfl⟩
  · exact h.probe i x hx
  · rw [hrec.probe,h.retained]

theorem Follows.snoc_identity (h:Follows r s es) (hrec:Recorded r s e r' s') :
    ∀x∈es++[e],x.effectiveInterpreterIdentity=[] ∨
      x.effectiveInterpreterIdentity=s'.interpreterIdentity:=by
  intro x hx
  have hbind:=bindStreamField_ok hrec.identity
  rcases mem_append.mp hx with hx | hx
  · rcases h.identity x hx with hnil | heq
    · exact .inl hnil
    · rcases hbind with ⟨-,hz⟩ | ⟨hnil,-⟩ | ⟨hz,-⟩
      · exact .inr (by rw [hz,heq])
      · exact .inl (by rw [heq,hnil])
      · exact .inr (by rw [hz,heq])
  · rw [mem_singleton] at hx
    subst hx
    rcases hbind with ⟨hnil,-⟩ | ⟨-,hz⟩ | ⟨-,hz⟩
    · exact .inl hnil
    · exact .inr hz.symm
    · exact .inr hz.symm

theorem Follows.snoc_armed (h:Follows r s es) (hrec:Recorded r s e r' s') (k:Key)
    (hk:s'.armed k) : ∃a∈es++[e],a.is "hook_armed" ∧ a.key=k:=by
  rw [hrec.armed] at hk
  have hold : s.armed k → ∃a∈es++[e],a.is "hook_armed" ∧ a.key=k:=by
    intro hs
    obtain ⟨a,ha,hrest⟩:=h.armed k hs
    exact ⟨a,mem_append_left _ ha,hrest⟩
  unfold arm at hk
  split_ifs at hk with harm
  · by_cases hkey : k=e.key
    · exact ⟨e,mem_append_right _ (mem_singleton.mpr rfl),harm,hkey.symm⟩
    · exact hold (by simpa [Function.update_of_ne hkey] using hk)
  · exact hold hk

theorem Follows.snoc_modifying (h:Follows r s es) (hrec:Recorded r s e r' s') (i:ℕ)
    (x:EventFact) (hx:(es++[e])[i]? = some x) (ht:x.is "hook_triggered") (hm:x.modifies) :
    ∃j < i,∃a : EventFact,(es++[e])[j]? = some a ∧ a.is "hook_armed" ∧ a.key=x.key:=by
  rcases getElem?_snoc hx with hx | ⟨rfl,rfl⟩
  · obtain ⟨j,hj,a,ha,hrest⟩:=h.modifying i x hx ht hm
    exact ⟨j,hj,a,getElem?_snoc_of ha,hrest⟩
  · obtain ⟨a,ha,hrest⟩:=h.armed x.key (hrec.modifying ht hm)
    obtain ⟨j,hj,rfl⟩:=getElem_of_mem ha
    exact ⟨j,hj,es[j],getElem?_snoc_of (getElem?_eq_getElem hj),hrest⟩

/-- A trigger opens its key, a snapshot closes it, and nothing else touches the open triggers. -/
theorem Follows.snoc_consumed (h:Follows r s es) (hrec:Recorded r s e r' s') :
    ∃f,Answered (EventFact.is · "hook_triggered") (EventFact.is · "frame_snapshot")
        SameKey (es++[e]) f ∧
      ∀k,(s'.pending k).isSome → ∃(t:ℕ) (x:EventFact),(es++[e])[t]? = some x ∧
        x.is "hook_triggered" ∧ x.key=k ∧ Free (EventFact.is · "frame_snapshot") (es++[e]) f t:=by
  obtain ⟨f,hans,hopen⟩:=h.consumed
  have hkeep : e.is "frame_snapshot" = false → ∀k,(s.pending k).isSome →
      ∃(t:ℕ) (x:EventFact),(es++[e])[t]? = some x ∧ x.is "hook_triggered" ∧ x.key=k ∧
        Free (EventFact.is · "frame_snapshot") (es++[e]) f t:=by
    intro hs k hk
    obtain ⟨t,x,hx,hxt,hxk,hfree⟩:=hopen k hk
    exact ⟨t,x,getElem?_snoc_of hx,hxt,hxk,hfree.snoc hs⟩
  rcases hrec.pending with ⟨ht,hp⟩ | ⟨hs,hsome,hp⟩ | ⟨-,hs,hp⟩
  · have hs : e.is "frame_snapshot" = false:=EventFact.is_unique (by decide) ht
    refine ⟨f,hans.snoc hs,fun k hk=>?_⟩
    by_cases hkey : k=e.key
    · exact ⟨es.length,e,getElem?_concat_length,ht,hkey.symm,hans.free_length.snoc hs⟩
    · rw [hp,Function.update_of_ne hkey] at hk
      exact hkeep hs k hk
  · obtain ⟨t,x,hx,hxt,hxk,hfree⟩:=hopen e.key hsome
    refine ⟨_,hans.snoc_answer hx hxt hxk hfree,fun k hk=>?_⟩
    have hkey : k≠e.key:=by
      rintro rfl
      rw [hp,Function.update_self] at hk
      simp at hk
    rw [hp,Function.update_of_ne hkey] at hk
    obtain ⟨u,y,hy,hyt,hyk,hyfree⟩:=hopen k hk
    refine ⟨u,y,getElem?_snoc_of hy,hyt,hyk,hyfree.snoc_answer ?_⟩
    rintro rfl
    rw [hx] at hy
    exact hkey (by rw [← hyk,← hxk,Option.some.inj hy])
  · exact ⟨f,hans.snoc hs,by rw [hp];exact hkeep hs⟩

theorem Follows.snoc (h:Follows r s es) (hrec:Recorded r s e r' s') :
    Follows {r' with recordsRetained:=r'.recordsRetained+1} s' (es++[e]):=by
  constructor
  case retained=>simp only [length_append,length_singleton,hrec.retained,h.retained]
  case probe=>exact h.snoc_probe hrec
  case identity=>exact h.snoc_identity hrec
  case armed=>exact h.snoc_armed hrec
  case modifying=>exact h.snoc_modifying hrec
  case consumed=>exact h.snoc_consumed hrec
  case triggered=>
    rw [countP_append,← h.triggered,countP_singleton]
    exact hrec.triggered.trans (by cases e.is "hook_triggered" <;> rfl)
  case snapshots=>
    rw [countP_append,← h.snapshots,countP_singleton]
    exact hrec.snapshots.trans (by cases e.is "frame_snapshot" <;> rfl)
  case idle=>exact fun hes=>absurd hes (by simp)

theorem parseLine_ok {no:ℕ} {line:Bytes} (h:parseLine b no line r s=.ok (r',s')) :
    ∃x r₁,lineEvent b line=.ok x ∧ Recorded r s x r₁ s' ∧
      r' = {r₁ with recordsRetained:=r₁.recordsRetained+1}:=by
  unfold parseLine at h
  split at h
  · simp at h
  · next j hj=>
    split at h
    · simp at h
    · next r₁ s₁ hrecord=>
      rw [Except.ok.injEq,Prod.mk.injEq] at h
      obtain ⟨rfl,rfl⟩:=h
      obtain ⟨event,state,hheader,hrec⟩:=record_ok hrecord
      refine ⟨_,r₁,?_,hrec,rfl⟩
      unfold lineEvent
      rw [bind_eq_ok]
      refine ⟨j,hj,?_⟩
      rw [bind_eq_ok]
      exact ⟨_,hheader,rfl⟩

theorem parseLines_ok (lines:List Bytes) {no:ℕ} (h:parseLines b no lines r s=.ok (r',s'))
    (hf:Follows r s es) (htr:r.recordsTruncated=decide (b.maxRecords < r.recordsSeen)) :
    ∃more,((contentLines lines).take (b.maxRecords-r.recordsSeen)).mapM (lineEvent b)=.ok more ∧
      Follows r' s' (es++more) ∧ r'.recordsSeen=r.recordsSeen+(contentLines lines).length ∧
      r'.recordsTruncated=decide (b.maxRecords < r'.recordsSeen):=by
  induction lines generalizing no r s es with
  | nil=>
    rw [parseLines,Except.ok.injEq,Prod.mk.injEq] at h
    obtain ⟨rfl,rfl⟩:=h
    refine ⟨[],by simp [contentLines,pure_eq_ok],?_,rfl,htr⟩
    rw [append_nil]
    exact hf
  | cons line lines ih=>
    rw [parseLines] at h
    by_cases hempty : dropCarriageReturn line=[]
    · have hrecords : contentLines (line::lines)=contentLines lines:=by simp [contentLines,hempty]
      rw [if_pos hempty] at h
      rw [hrecords]
      exact ih h hf htr
    · have hrecords : contentLines (line::lines)=dropCarriageReturn line::contentLines lines:=by
        simp [contentLines,hempty]
      rw [if_neg hempty] at h
      simp only [] at h
      split_ifs at h with hbytes hbudget
      · -- beyond the record budget
        have hseen : b.maxRecords-r.recordsSeen=0:=by omega
        have hnone : b.maxRecords-(r.recordsSeen+1)=0:=by omega
        obtain ⟨more,hmore,hfollows,hcount,htrunc⟩:=
          ih h (hf.of_eq rfl rfl rfl rfl) (by simp only [decide_eq_true hbudget])
        simp only [hnone,take_zero] at hmore
        refine ⟨more,by rwa [hseen],hfollows,?_,htrunc⟩
        rw [hcount,hrecords,length_cons]
        exact Nat.add_right_comm _ _ _
      · rw [bind_eq_ok] at h
        obtain ⟨⟨r₁,s₁⟩,hline,h⟩:=h
        obtain ⟨x,r₂,hx,hrec,rfl⟩:=parseLine_ok hline
        have hstart : Follows {r with recordsSeen:=r.recordsSeen+1} s es:=hf.of_eq rfl rfl rfl rfl
        have hstep:=hstart.snoc hrec
        have hseen₂ : r₂.recordsSeen=r.recordsSeen+1:=hrec.seen
        have htr₂ : r₂.recordsTruncated=decide (b.maxRecords < r₂.recordsSeen):=by
          rw [hrec.truncated,hseen₂]
          have hlow : ¬b.maxRecords < r.recordsSeen:=by omega
          rw [decide_eq_false hbudget]
          exact htr.trans (decide_eq_false hlow)
        obtain ⟨more,hmore,hfollows,hcount,htrunc⟩:=ih h hstep htr₂
        have hbudget' : b.maxRecords-r.recordsSeen=b.maxRecords-(r.recordsSeen+1)+1:=by
          omega
        refine ⟨x::more,?_,?_,?_,htrunc⟩
        · rw [hrecords,hbudget',take_succ_cons,mapM_cons,hx]
          simp only [hseen₂] at hmore
          rw [hmore]
          rfl
        · rwa [append_assoc,singleton_append] at hfollows
        · rw [hcount,hrecords,length_cons]
          simp only [hseen₂]
          omega

theorem Follows.contract (h:Follows r s es) (hne:es≠[]) : Contract es:=by
  constructor
  case first=>
    obtain ⟨e,rest,rfl⟩:=exists_cons_of_ne_nil hne
    refine ⟨e,rest,rfl,(h.probe 0 e rfl).mpr rfl,fun x hx hp=>?_⟩
    obtain ⟨i,hi,rfl⟩:=getElem_of_mem hx
    have:=(h.probe (i+1) rest[i] (by simp [hi])).mp hp
    omega
  case identity=>
    intro x hx y hy hxn hyn
    rw [(h.identity x hx).resolve_left hxn,(h.identity y hy).resolve_left hyn]
  case consumed=>
    obtain ⟨f,hans,-⟩:=h.consumed
    exact ⟨f,hans⟩
  case armed=>exact h.modifying

/-- The records that an accepted stream shows to the parser keep the contract, and each of them
is counted. Lines beyond the budget are skipped, and the report says so. -/
theorem accepted_stream_contract (b : Budgets) (f : JsonlFile) (r : Report)
    (h : parseCPythonIntrospectionJsonl b (some f)=.ok r) :
    ∃ es, streamEvents b f.text=.ok es ∧ Contract es ∧ r.frameSnapshotCount ≤ r.hookTriggeredCount ∧
      r.hookTriggeredCount = es.countP (EventFact.is · "hook_triggered") ∧
      r.frameSnapshotCount = es.countP (EventFact.is · "frame_snapshot") ∧
      r.recordsTruncated=decide (b.maxRecords<(contentLines (splitLines f.text)).length) := by
  unfold parseCPythonIntrospectionJsonl at h
  simp only [bind_eq_ok,require_eq_ok] at h
  obtain ⟨⟨r₁,s₁⟩,hlines,-,-,-,-,-,hstate,h⟩:=h
  rw [pure_eq_ok] at h
  subst h
  obtain ⟨es,hes,hfollows,hseen,htrunc⟩:=parseLines_ok _ hlines (follows_nil rfl rfl rfl rfl) rfl
  rw [nil_append] at hfollows
  rw [Nat.zero_add] at hseen
  have hne : es≠[]:=fun hnil=>hstate (hfollows.idle hnil)
  have hcontract:=hfollows.contract hne
  refine ⟨es,hes,hcontract,?_,hfollows.triggered,hfollows.snapshots,?_⟩
  · obtain ⟨p,hans⟩:=hcontract.consumed
    show r₁.frameSnapshotCount ≤ r₁.hookTriggeredCount
    rw [hfollows.triggered,hfollows.snapshots]
    exact hans.countP_le
  · rw [← hseen]
    exact htrunc

def probeLine : Bytes :=
  bytes ("\x7b\"protocol\":\"auto-refirst.cpython.introspection\",\"schema\":1," ++
    "\"event\":\"probe_loaded\",\"state\":\"PROBE_LOADED\",\"interpreter\":\x7b\"identity\":\"0x1\"\x7d\x7d")

def armedLine : Bytes :=
  bytes ("\x7b\"protocol\":\"auto-refirst.cpython.introspection\",\"schema\":1," ++
    "\"event\":\"hook_armed\",\"state\":\"HOOK_ARMED\"\x7d")

def twoLines (a b : Bytes) : JsonlFile where
  text := a++0x0a::b

theorem exists_report_twoLines :
    ∃r,parseCPythonIntrospectionJsonl {} (some (twoLines probeLine armedLine))=.ok r:=by
  have haccept : (parseCPythonIntrospectionJsonl {}
      (some (twoLines probeLine armedLine))).toOption.map Report.recordsRetained = some 2:=by
    decide +kernel
  obtain ⟨r,hr,-⟩:=exists_ok_of_map haccept
  exact ⟨r,hr⟩

/-- The stream of `probeLine` and `armedLine` is accepted, and its second record names no
interpreter. With a budget of one record a second `probe_loaded` record is accepted as well. -/
theorem unnamed_and_unread_records :
    (∃r es, parseCPythonIntrospectionJsonl {} (some (twoLines probeLine armedLine))=.ok r ∧
      streamEvents {} (twoLines probeLine armedLine).text=.ok es ∧
      ∃x∈es, ∃y∈es, x.effectiveInterpreterIdentity≠y.effectiveInterpreterIdentity) ∧
    ∃r es, parseCPythonIntrospectionJsonl {maxRecords:=1}
        (some (twoLines probeLine probeLine))=.ok r ∧
      (contentLines (splitLines (twoLines probeLine probeLine).text)).mapM (lineEvent {})=.ok es ∧
      1 < es.countP (EventFact.is · "probe_loaded"):=by
  constructor
  · have hevents : (streamEvents {} (twoLines probeLine armedLine).text).toOption.map
        (List.map EventFact.effectiveInterpreterIdentity) = some [bytes "0x1",[]]:=by
      decide +kernel
    obtain ⟨r,hr⟩:=exists_report_twoLines
    obtain ⟨es,hes,hids⟩:=exists_ok_of_map hevents
    obtain ⟨x,l,rfl,hx,hl⟩:=map_eq_cons_iff.mp hids
    obtain ⟨y,l,rfl,hy,-⟩:=map_eq_cons_iff.mp hl
    refine ⟨r,_,hr,hes,x,by simp,y,by simp,?_⟩
    rw [hx,hy]
    decide
  · have haccept : (parseCPythonIntrospectionJsonl {maxRecords:=1}
        (some (twoLines probeLine probeLine))).toOption.map Report.recordsRetained = some 1:=by
      decide +kernel
    have hevents : ((contentLines (splitLines (twoLines probeLine probeLine).text)).mapM
        (lineEvent {})).toOption.map (List.countP (EventFact.is · "probe_loaded")) = some 2:=by
      decide +kernel
    obtain ⟨r,hr,-⟩:=exists_ok_of_map haccept
    obtain ⟨es,hes,hcount⟩:=exists_ok_of_map hevents
    exact ⟨r,es,hr,hes,by omega⟩

/-- The contract at the stream of `probeLine` and `armedLine`. -/
theorem accepted_stream_contract_twoLines :
    ∃es, streamEvents {} (twoLines probeLine armedLine).text=.ok es ∧ Contract es:=by
  obtain ⟨r,hr⟩:=exists_report_twoLines
  obtain ⟨es,hes,hcontract,-⟩:=accepted_stream_contract {} (twoLines probeLine armedLine) r hr
  exact ⟨es,hes,hcontract⟩

end AutoRefirst.CPythonIntrospection
