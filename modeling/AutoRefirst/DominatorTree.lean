import AutoRefirst.FlowDominance

/-!
# The tree of dominators and the triggers behind a registration

Of two nodes that dominate a third one, one dominates the other. So every node but the entry has a
nearest dominator. A trigger is taken for the registration of a handler when the registration
dominates it and no barrier lies between the two: each path to the trigger meets the registration,
and no barrier from there on.
-/

namespace AutoRefirst.FlowGraphs
open List GraphSearch

/-- What a test of dominance says when the dominators of each node lie on one line. -/
structure DominatorTree (dominates : ℕ → ℕ → Bool) : Prop where
  trans : ∀ a b t, dominates a b → dominates b t → dominates a t
  antisymm : ∀ a b, dominates a b → dominates b a → a=b
  chain : ∀ a b t, dominates a t → dominates b t → dominates a b ∨ dominates b a
  nearest : ∀ t, t≠0 → dominates 0 t → ∃ i, i≠t ∧ dominates i t ∧
    ∀ a, a≠t → dominates a t → dominates a i

section
variable {g : FlowGraph} {a b s t v : ℕ} {l p l₁ l₂ : List ℕ}

/-- A path is cut where it meets a node. -/
theorem FlowGraph.Path.cut (h:g.Path l t) (hb:b∈l) :
    ∃l',g.Path l' b ∧ l' <:+ l ∧ (b≠t → l'.length<l.length):=by
  induction h with
  | entry hpos=>
    obtain rfl:=mem_singleton.mp hb
    exact ⟨_,.entry hpos,suffix_refl _,fun h=>absurd rfl h⟩
  | edge hpath hv ih=>
    rcases mem_cons.mp hb with rfl | hb
    · exact ⟨_,.edge hpath hv,suffix_refl _,fun h=>absurd rfl h⟩
    · obtain ⟨l',hpath',hsub,-⟩:=ih hb
      exact ⟨l',hpath',hsub.trans (suffix_cons _ _),fun _=>Nat.lt_succ_of_le hsub.length_le⟩

/-- Behind a node of a path, any path to that node may go before. -/
theorem FlowGraph.Path.splice (h:g.Path (l₁++b::l₂) t) (hp:g.Path p b) :
    g.Path (l₁++p) t:=by
  induction l₁ generalizing t with
  | nil=>
    cases h with
    | entry _=>exact hp
    | edge _ _=>exact hp
  | cons x l₁ ih=>
    obtain ⟨rfl,u,hpath,hv⟩:=h.tail (append_ne_nil_of_right_ne_nil l₁ (cons_ne_nil b l₂))
    exact .edge (ih hpath) hv

theorem FlowGraph.Dominates.trans (h:g.Dominates a b) (h':g.Dominates b t) :
    g.Dominates a t:=by
  refine ⟨h.1,h'.2.1,fun l hpath=>?_⟩
  obtain ⟨l',hpath',hsub,-⟩:=hpath.cut (h'.2.2 l hpath)
  exact hsub.subset (h.2.2 l' hpath')

/-- Two nodes that dominate each other would cut every path shorter and shorter. -/
theorem FlowGraph.Dominates.antisymm (h:g.Dominates a b) (h':g.Dominates b a) : a=b:=by
  by_contra hne
  obtain ⟨l,hpath⟩:=h.1
  induction hlen : l.length using Nat.strongRecOn generalizing l with | _ n ih=>
  obtain ⟨l₁,hpath₁,-,hlt₁⟩:=hpath.cut (h'.2.2 l hpath)
  obtain ⟨l₂,hpath₂,-,hlt₂⟩:=hpath₁.cut (h.2.2 l₁ hpath₁)
  exact ih l₂.length (hlen▸(hlt₂ hne).trans (hlt₁ (Ne.symm hne))) l₂ hpath₂ rfl

/-- A path around a node that does not dominate the last of two dominators leads on around it. -/
theorem FlowGraph.Dominates.of_last (h:g.Dominates a t) (hb:g.Reachable b)
    (hpath:g.Path (l₁++b::l₂) t) (ha:a∉l₁) : g.Dominates a b:=by
  refine ⟨h.1,hb,fun p hp=>?_⟩
  exact (mem_append.mp (h.2.2 _ (hpath.splice hp))).resolve_left ha

theorem FlowGraph.Dominates.chain (h:g.Dominates a t) (h':g.Dominates b t) :
    g.Dominates a b ∨ g.Dominates b a:=by
  obtain ⟨l,hpath⟩:=h.2.1
  -- the dominator that the path meets last on its way to the target is dominated by the other one
  obtain ⟨l₁,l₂,rfl,hb⟩:=eq_append_cons_of_mem (h'.2.2 l hpath)
  by_cases ha : a∈l₁
  · obtain ⟨m₁,m₂,rfl⟩:=append_of_mem ha
    have hpath' : g.Path (m₁++a::(m₂++b::l₂)) t:=by simpa using hpath
    exact .inr (h'.of_last h.1 hpath' fun hmem=>hb (mem_append_left _ hmem))
  · exact .inl (h.of_last h'.1 hpath ha)

/-- The first strict dominator that a path meets on its way back is the nearest one. -/
theorem exists_nearest (ht:t≠0) (h:g.Reachable t) : ∃i,i≠t ∧ g.Dominates i t ∧
    ∀a,a≠t → g.Dominates a t → g.Dominates a i:=by
  classical
  obtain ⟨l,hpath⟩:=h
  have hentry : g.Dominates 0 t:=entry_dominates.mpr ⟨l,hpath⟩
  obtain ⟨i,hi⟩:=Option.isSome_iff_exists.mp <|
    find?_isSome (p:=fun a=>a≠t ∧ g.Dominates a t).mpr
      ⟨0,hentry.2.2 l hpath,decide_eq_true ⟨ht.symm,hentry⟩⟩
  obtain ⟨hdom,l₁,l₂,rfl,hbefore⟩:=find?_eq_some_iff_append.mp hi
  have hdom:=of_decide_eq_true hdom
  refine ⟨i,hdom.1,hdom.2,fun a hne ha=>ha.of_last hdom.2.1 hpath fun hmem=>?_⟩
  simpa [hne,ha] using hbefore a hmem

theorem dominatorTree_of_exact {dominates:ℕ → ℕ → Bool}
    (h:∀b t,dominates b t = true ↔ g.Dominates b t) : DominatorTree dominates:=by
  refine ⟨fun a b t=>?_,fun a b=>?_,fun a b t=>?_,fun t ht h0=>?_⟩
  · simpa only [h] using FlowGraph.Dominates.trans
  · simpa only [h] using FlowGraph.Dominates.antisymm
  · simpa only [h] using FlowGraph.Dominates.chain
  · simpa only [h] using exists_nearest ht ((h 0 t).mp h0).2.1

/-- In every flow graph the dominators of a node, as each of the three tests sees them, form a line
from the entry to a nearest one. -/
theorem dominators_form_tree (g : FlowGraph) : DominatorTree (jni_dominates (jni_flow g)) ∧
    DominatorTree (pe_dominates g) ∧ DominatorTree (elf_dominates g) :=
  ⟨dominatorTree_of_exact (jni_dominates_iff g),dominatorTree_of_exact (cfgDominates_iff g),
    dominatorTree_of_exact (cfgDominates_iff g)⟩

theorem FlowGraph.Path.head (h:g.Path (b::l) v) : b=v:=by
  cases h with
  | entry _=>rfl
  | edge _ _=>rfl

theorem FlowGraph.Path.drop (h:g.Path (l₁++b::l₂) t) : g.Path (b::l₂) b:=by
  induction l₁ generalizing t with
  | nil=>
    obtain rfl:=h.head
    exact h
  | cons x l₁ ih=>
    obtain ⟨-,u,hpath,-⟩:=h.tail (append_ne_nil_of_right_ne_nil l₁ (cons_ne_nil b l₂))
    exact ih hpath

/-- What is reached from a node of a path is at the end of a path that goes on from there. -/
theorem reach_iff_behind (hs:g.Path (s::l₂) s) :
    Reach g.next (fun _=>true) s v ↔ ∃l₁,g.Path (l₁++s::l₂) v:=by
  constructor
  · intro h
    induction h with
    | refl=>exact ⟨[],hs⟩
    | tail _ hstep ih=>
      obtain ⟨l₁,hpath⟩:=ih
      exact ⟨_::l₁,.edge hpath hstep.1⟩
  · rintro ⟨l₁,hpath⟩
    induction l₁ generalizing v with
    | nil=>exact hpath.head ▸ .refl
    | cons x l₁ ih=>
      obtain ⟨rfl,u,hpath,hv⟩:=hpath.tail (append_ne_nil_of_right_ne_nil l₁ (cons_ne_nil s l₂))
      exact (ih hpath).tail ⟨hv,rfl⟩

theorem cfgReachable_from (hs:g.Path (s::l₂) s) :
    cfgReachable g s v none = true ↔ ∃l₁,g.Path (l₁++s::l₂) v:=by
  by_cases hv : v<g.edges.length
  · rw [← reach_iff_behind hs,cfgReachable,if_neg (by simp [hs.inRange,hv])]
    refine (finds_iff (nodes_closed g) (Finset.mem_range.mpr hs.inRange)
      (Finset.card_range _).le v).trans ?_
    simp
  · refine iff_of_false (by simp [cfgReachable,Nat.not_lt.mp hv]) ?_
    rintro ⟨_,h⟩
    exact hv h.inRange

end

/-- `PeCfg` and `ElfCfg`: a flow graph and the nodes of the addresses. -/
structure Cfg (α : Type) extends FlowGraph where
  node : α → Option ℕ

variable {α : Type}

def barrierBetween (reachable : FlowGraph → ℕ → ℕ → Option ℕ → Bool) (g : Cfg α)
    (reg trigger : ℕ) (barriers : List α) : Bool :=
  barriers.any fun a =>
    match g.node a with
    | none => false
    | some b => reachable g.toFlowGraph reg b none && reachable g.toFlowGraph b trigger none

def pe_barrier_between (g : Cfg UInt32) := barrierBetween pe_reachable g

def elf_barrier_between (g : Cfg UInt64) := barrierBetween elf_reachable g

/-- When the loops over the triggers of a registration add a fact. -/
def correlated (dominates : FlowGraph → ℕ → ℕ → Bool)
    (reachable : FlowGraph → ℕ → ℕ → Option ℕ → Bool)
    (barrier_between : Cfg α → ℕ → ℕ → List α → Bool) (admits : ℕ → ℕ → Bool) (g : Cfg α)
    (callsite trigger : α) (barriers : List α) : Bool :=
  match g.node callsite, g.node trigger with
  | some ri, some ti =>
    admits ri ti && dominates g.toFlowGraph ri ti && reachable g.toFlowGraph ri ti none &&
      !barrier_between g ri ti barriers
  | _, _ => false

/-- In `analyze_pe_exception_flow`. -/
def pe_correlated := correlated pe_dominates pe_reachable pe_barrier_between fun ri ti => ti ≠ ri

/-- In `analyze_elf_exception_flow`, where a call may be its own trigger. -/
def elf_correlated (registered signal : ℤ) :=
  correlated elf_dominates elf_reachable elf_barrier_between fun _ _ => signal = registered

/-- A node that the map of the addresses gives for a barrier. -/
def Cfg.Barrier (g : Cfg α) (barriers : List α) (b : ℕ) : Prop :=
  ∃ a∈barriers, g.node a = some b

/-- The target is reachable, and each path to it meets the registration and no barrier from there
on. -/
def Cfg.Guarded (g : Cfg α) (barriers : List α) (reg t : ℕ) : Prop :=
  g.Reachable t ∧ ∀ l, g.Path l t → reg∈l ∧
    ∀ l₁ l₂, l = l₁++reg::l₂ → ∀ b∈reg::l₁, ¬g.Barrier barriers b

variable {g : Cfg α} {reg t : ℕ} {l₂ : List ℕ} {barriers : List α}

theorem barrierBetween_iff (hs:g.Path (reg::l₂) reg) :
    barrierBetween cfgReachable g reg t barriers = true ↔
      ∃l b,g.Path (l++reg::l₂) t ∧ b∈reg::l ∧ g.Barrier barriers b:=by
  rw [barrierBetween,any_eq_true]
  constructor
  · rintro ⟨a,ha,h⟩
    split at h
    · cases h
    case h_2 b hb=>
      rw [Bool.and_eq_true] at h
      obtain ⟨l,hl⟩:=(cfgReachable_from hs).mp h.1
      obtain ⟨x,m,hm⟩:=exists_cons_of_ne_nil
        (append_ne_nil_of_right_ne_nil l (cons_ne_nil reg l₂))
      rw [hm] at hl
      obtain rfl:=hl.head
      obtain ⟨l',hl'⟩:=(cfgReachable_from hl).mp h.2
      refine ⟨l'++l,x,by rwa [append_assoc,hm],?_,a,ha,hb⟩
      cases l with
      | nil=>exact (cons.inj hm).1▸mem_cons_self
      | cons y l=>exact (cons.inj hm).1▸by simp
  · rintro ⟨l,b,hpath,hb,a,ha,hnode⟩
    refine ⟨a,ha,?_⟩
    simp only [hnode,Bool.and_eq_true]
    rcases mem_cons.mp hb with rfl | hb
    · exact ⟨(cfgReachable_from hs).mpr ⟨[],hs⟩,(cfgReachable_from hs).mpr ⟨l,hpath⟩⟩
    · obtain ⟨m₁,m₂,rfl⟩:=append_of_mem hb
      have hpath' : g.Path (m₁++b::(m₂++reg::l₂)) t:=by simpa using hpath
      have hb' : g.Path (b::(m₂++reg::l₂)) b:=hpath'.drop
      exact ⟨(cfgReachable_from hs).mpr ⟨b::m₂,hb'⟩,(cfgReachable_from hb').mpr ⟨m₁,hpath'⟩⟩

/-- That the trigger is reachable from its registration follows from the dominance. -/
theorem guarded_iff : g.Guarded barriers reg t ↔
    cfgDominates cfgReachable g.toFlowGraph reg t = true ∧
      cfgReachable g.toFlowGraph reg t none = true ∧
      barrierBetween cfgReachable g reg t barriers = false:=by
  rw [cfgDominates_iff,← Bool.not_eq_true]
  constructor
  · rintro ⟨⟨l,hpath⟩,hall⟩
    obtain ⟨l₁,l₂,rfl⟩:=append_of_mem (hall l hpath).1
    have hs : g.Path (reg::l₂) reg:=hpath.drop
    refine ⟨⟨⟨_,hs⟩,⟨_,hpath⟩,fun l hl=>(hall l hl).1⟩,(cfgReachable_from hs).mpr ⟨l₁,hpath⟩,?_⟩
    intro hbarrier
    obtain ⟨l,b,hl,hb,hnode⟩:=(barrierBetween_iff hs).mp hbarrier
    exact (hall _ hl).2 l l₂ rfl b hb hnode
  · rintro ⟨hdom,-,hno⟩
    refine ⟨hdom.2.1,fun l hpath=>⟨hdom.2.2 l hpath,?_⟩⟩
    rintro l₁ l₂ rfl b hb hbarrier
    exact hno ((barrierBetween_iff hpath.drop).mpr ⟨l₁,b,hpath,hb,hbarrier⟩)

theorem correlated_iff {admits:ℕ → ℕ → Bool} {callsite trigger:α} :
    correlated (cfgDominates cfgReachable) cfgReachable (barrierBetween cfgReachable) admits g
      callsite trigger barriers = true ↔ ∃ri ti,g.node callsite = some ri ∧
        g.node trigger = some ti ∧ admits ri ti = true ∧ g.Guarded barriers ri ti:=by
  unfold correlated
  split
  case h_1 ri ti hri hti=>simp [hri,hti,guarded_iff,and_assoc]
  case h_2 hnone=>exact iff_of_false Bool.false_ne_true fun ⟨ri,ti,h,h',_⟩=>hnone ri ti h h'

/-- Both analyses take exactly the triggers that each path reaches behind the registration with no
barrier since. -/
theorem correlation_exact :
    (∀ (g : Cfg UInt32) (callsite rva : UInt32) (barriers : List UInt32),
      pe_correlated g callsite rva barriers = true ↔ ∃ ri ti, g.node callsite = some ri ∧
        g.node rva = some ti ∧ ti≠ri ∧ g.Guarded barriers ri ti) ∧
    ∀ (g : Cfg UInt64) (registered signal : ℤ) (callsite va : UInt64) (barriers : List UInt64),
      elf_correlated registered signal g callsite va barriers = true ↔
        ∃ ri ti, g.node callsite = some ri ∧ g.node va = some ti ∧ signal = registered ∧
          g.Guarded barriers ri ti := by
  constructor
  · intro g callsite rva barriers
    refine correlated_iff.trans ?_
    simp only [decide_eq_true_eq]
  · intro g registered signal callsite va barriers
    refine correlated_iff.trans ?_
    simp only [decide_eq_true_eq]

end AutoRefirst.FlowGraphs
