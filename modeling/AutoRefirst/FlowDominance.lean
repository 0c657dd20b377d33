import AutoRefirst.GraphSearch

/-!
# Dominance in flow graphs

The flow graphs of JNI code, of PE functions and of ELF functions are searched from the entry for
the nodes it reaches, and once more without a node for what that node dominates.
-/

namespace AutoRefirst.FlowGraphs
open List GraphSearch

/-- A flow graph whose edges lead to its nodes. -/
structure FlowGraph where
  edges : List (List ℕ)
  inRange : ∀ row∈edges, ∀ v∈row, v<edges.length

namespace FlowGraph
variable (g : FlowGraph)

def next (u : ℕ) : List ℕ := g.edges.getD u []

/-- A path from the entry to a node, with its nodes from the last one to the entry. -/
inductive Path : List ℕ → ℕ → Prop
  | entry : 0<g.edges.length → Path [0] 0
  | edge {l : List ℕ} {u v : ℕ} : Path l u → v∈g.next u → Path (v::l) v

def Reachable (v : ℕ) : Prop := ∃ l, g.Path l v

/-- The nodes are reachable and each path to `t` goes through `b`. -/
def Dominates (b t : ℕ) : Prop := g.Reachable b ∧ g.Reachable t ∧ ∀ l, g.Path l t → b∈l

end FlowGraph

structure JniFlow where
  complete : Bool := false
  edges : List (List ℕ) := []
  reachable : Finset ℕ := ∅

/-- The end of `jni_build_flow` and `jni_a64_build_flow`, once the edges are there. -/
def jni_flow (g : FlowGraph) : JniFlow :=
  if g.edges = [] then {}
  else {complete:=true,edges:=g.edges,
        reachable:=search g.next (fun _ => true) g.edges.length [0] {0}}

def jni_dominates (flow : JniFlow) (blocker target : ℕ) : Bool :=
  if !flow.complete || blocker ≥ flow.edges.length || target ≥ flow.edges.length ||
      blocker∉flow.reachable || target∉flow.reachable then false
  else if blocker = 0 || blocker = target then true
  else target∉search (fun u => flow.edges.getD u []) (· ≠ blocker) flow.edges.length [0] {0}

/-- What `pe_reachable` and `elf_reachable` do. -/
def cfgReachable (g : FlowGraph) (start goal : ℕ) (blocked : Option ℕ) : Bool :=
  if start ≥ g.edges.length || goal ≥ g.edges.length || blocked = some start then false
  else finds g.next (fun v => blocked ≠ some v) goal g.edges.length [start] {start}

def cfgDominates (reachable : FlowGraph → ℕ → ℕ → Option ℕ → Bool) (g : FlowGraph)
    (dom node : ℕ) : Bool :=
  if g.edges = [] || dom ≥ g.edges.length || node ≥ g.edges.length || !reachable g 0 node none then
    false
  else if dom = 0 then true
  else !reachable g 0 node (some dom)

def pe_reachable := cfgReachable

def pe_dominates := cfgDominates pe_reachable

def elf_reachable := cfgReachable

def elf_dominates := cfgDominates elf_reachable

variable {g : FlowGraph} {b t u v : ℕ} {l : List ℕ}

theorem next_inRange (g:FlowGraph) (u:ℕ) (hv:v∈g.next u) : v<g.edges.length:=by
  unfold FlowGraph.next at hv
  rw [getD_eq_getElem?_getD] at hv
  cases hrow : g.edges[u]? with
  | none=>
    rw [hrow] at hv
    exact absurd hv not_mem_nil
  | some row=>
    rw [hrow] at hv
    exact g.inRange row (mem_of_getElem? hrow) v hv

theorem FlowGraph.Path.inRange (h:g.Path l v) : v<g.edges.length:=by
  cases h with
  | entry h=>exact h
  | edge _ hv=>exact next_inRange g _ hv

theorem FlowGraph.Path.reachable (h:g.Path l v) (hb:b∈l) : g.Reachable b:=by
  induction h with
  | entry hpos=>exact mem_singleton.mp hb▸⟨_,.entry hpos⟩
  | edge hpath hv ih=>
    rcases mem_cons.mp hb with rfl | hb
    · exact ⟨_,.edge hpath hv⟩
    · exact ih hb

theorem FlowGraph.Path.entry_last (h:g.Path l v) : ∃l',l=l'++[0]:=by
  induction h with
  | entry _=>exact ⟨[],rfl⟩
  | @edge _ _ v _ _ ih=>
    obtain ⟨l',rfl⟩:=ih
    exact ⟨v::l',rfl⟩

theorem FlowGraph.Path.single {x:ℕ} (h:g.Path [x] v) : 0=v:=by
  cases h with
  | entry _=>rfl
  | edge h _=>cases h

theorem FlowGraph.Path.tail {x:ℕ} (h:g.Path (x::l) v) (hl:l≠[]) :
    x=v ∧ ∃u,g.Path l u ∧ v∈g.next u:=by
  cases h with
  | entry _=>exact absurd rfl hl
  | edge h hv=>exact ⟨rfl,_,h,hv⟩

/-- What is reached through allowed nodes has a path of them behind the entry. -/
theorem reach_iff {ok:ℕ→Bool} (hpos:0<g.edges.length) :
    Reach g.next ok 0 v ↔ ∃l,g.Path (l++[0]) v ∧ ∀x∈l,ok x = true:=by
  constructor
  · intro h
    induction h with
    | refl=>exact ⟨[],.entry hpos,fun _ hx=>absurd hx not_mem_nil⟩
    | tail _ hstep ih=>
      obtain ⟨l,hpath,hok⟩:=ih
      exact ⟨_::l,.edge hpath hstep.1,forall_mem_cons.mpr ⟨hstep.2,hok⟩⟩
  · rintro ⟨l,hpath,hok⟩
    induction l generalizing v with
    | nil=>exact hpath.single ▸ .refl
    | cons x l ih=>
      obtain ⟨hx,hok⟩:=forall_mem_cons.mp hok
      obtain ⟨rfl,u,hpath,hv⟩:=hpath.tail (append_ne_nil_of_right_ne_nil l (cons_ne_nil 0 []))
      exact (ih hpath hok).tail ⟨hv,hx⟩

theorem reachable_iff (hpos:0<g.edges.length) :
    Reach g.next (fun _=>true) 0 v ↔ g.Reachable v:=by
  rw [reach_iff hpos]
  constructor
  · exact fun ⟨_,hpath,_⟩=>⟨_,hpath⟩
  · rintro ⟨l,hpath⟩
    obtain ⟨l',rfl⟩:=hpath.entry_last
    exact ⟨l',hpath,fun _ _=>rfl⟩

/-- A node other than the entry is on all paths where the search without it does not come. -/
theorem unreached_iff {ok:ℕ→Bool} (hok:∀x,ok x = true ↔ x≠b) (hpos:0<g.edges.length)
    (hb:b≠0) : ¬Reach g.next ok 0 t ↔ ∀l,g.Path l t → b∈l:=by
  rw [reach_iff hpos]
  constructor
  · intro hno l hpath
    obtain ⟨l',rfl⟩:=hpath.entry_last
    by_contra hmem
    refine hno ⟨l',hpath,fun x hx=>(hok x).mpr fun hxb=>hmem ?_⟩
    exact mem_append_left _ (hxb▸hx)
  · rintro hall ⟨l,hpath,hnone⟩
    rcases mem_append.mp (hall _ hpath) with hmem | hmem
    · exact (hok b).mp (hnone b hmem) rfl
    · exact hb (mem_singleton.mp hmem)

theorem nodes_closed (g:FlowGraph) : ∀u∈Finset.range g.edges.length,∀v∈g.next u,
    v∈Finset.range g.edges.length:=
  fun u _ _ hv=>Finset.mem_range.mpr (next_inRange g u hv)

theorem mem_flowSearch {ok:ℕ→Bool} (hpos:0<g.edges.length) :
    v∈search g.next ok g.edges.length [0] {0} ↔ Reach g.next ok 0 v:=
  mem_search (nodes_closed g) (Finset.mem_range.mpr hpos) (Finset.card_range _).le v

/-- The marks of the flow builders are the nodes on the paths from the entry. -/
theorem mem_jni_flow (g:FlowGraph) (v:ℕ) : v∈(jni_flow g).reachable ↔ g.Reachable v:=by
  unfold jni_flow
  split_ifs with hempty
  · refine iff_of_false (Finset.notMem_empty v) fun ⟨l,h⟩=>?_
    exact absurd h.inRange (by simp [hempty])
  · have hpos:=length_pos_iff.mpr hempty
    exact (mem_flowSearch hpos).trans (reachable_iff hpos)

/-- The entry is on each path. -/
theorem entry_dominates : g.Dominates 0 t ↔ g.Reachable t:=by
  refine ⟨fun h=>h.2.1,fun h=>?_⟩
  have hmem : ∀l,g.Path l t → 0∈l:=by
    intro l hpath
    obtain ⟨l',rfl⟩:=hpath.entry_last
    exact mem_append_right l' (mem_singleton.mpr rfl)
  obtain ⟨l,hpath⟩:=h
  exact ⟨hpath.reachable (hmem l hpath),⟨l,hpath⟩,hmem⟩

theorem self_dominates : g.Dominates t t ↔ g.Reachable t:=by
  refine ⟨fun h=>h.1,fun h=>⟨h,h,fun l hpath=>?_⟩⟩
  cases hpath with
  | entry _=>exact mem_singleton.mpr rfl
  | edge _ _=>exact mem_cons_self

theorem FlowGraph.Reachable.inRange (h:g.Reachable v) : v<g.edges.length:=by
  obtain ⟨_,hpath⟩:=h
  exact hpath.inRange

theorem jni_dominates_iff (g:FlowGraph) (b t:ℕ) :
    jni_dominates (jni_flow g) b t = true ↔ g.Dominates b t:=by
  have hmem:=mem_jni_flow g
  by_cases hr : g.Reachable b ∧ g.Reachable t
  · obtain ⟨hb,ht⟩:=hr
    have hpos:=Nat.zero_lt_of_lt hb.inRange
    have hflow : jni_flow g = ⟨true,g.edges,search g.next (fun _=>true) g.edges.length [0] {0}⟩:=
      if_neg (length_pos_iff.mp hpos)
    have hbm:=(hmem b).mpr hb
    have htm:=(hmem t).mpr ht
    rw [hflow] at hbm htm ⊢
    simp only [jni_dominates,Bool.not_true,hbm,htm,hb.inRange.not_ge,ht.inRange.not_ge,
      not_true,decide_false,Bool.or_false,Bool.false_eq_true,if_false,Bool.or_eq_true,
      decide_eq_true_eq]
    split_ifs with hsame
    · refine iff_of_true rfl ?_
      rcases hsame with rfl | rfl
      · exact entry_dominates.mpr ht
      · exact self_dominates.mpr hb
    · have hb0 : b≠0:=fun h=>hsame (.inl h)
      rw [decide_eq_true_eq]
      refine (not_congr (mem_flowSearch hpos)).trans
        ((unreached_iff (fun x=>decide_eq_true_iff) hpos hb0).trans ?_)
      exact ⟨fun h=>⟨hb,ht,h⟩,fun h=>h.2.2⟩
  · refine iff_of_false (fun h=>hr ?_) fun h=>hr ⟨h.1,h.2.1⟩
    unfold jni_dominates at h
    split_ifs at h with hbad
    all_goals
      simp only [Bool.or_eq_true,decide_eq_true_eq,not_or,not_not] at hbad
      exact ⟨(hmem b).mp hbad.1.2,(hmem t).mp hbad.2⟩

theorem cfgReachable_iff {v:ℕ} {blocked:Option ℕ} (hblocked:blocked≠some 0) (hv:v<g.edges.length) :
    cfgReachable g 0 v blocked = true ↔ Reach g.next (fun x=>blocked≠some x) 0 v:=by
  have hpos:=Nat.zero_lt_of_lt hv
  unfold cfgReachable
  rw [if_neg (by simp [hblocked,hv,length_pos_iff.mp hpos])]
  exact finds_iff (nodes_closed g) (Finset.mem_range.mpr hpos) (Finset.card_range _).le v

theorem cfgReachable_none {v:ℕ} : cfgReachable g 0 v none = true ↔ g.Reachable v:=by
  by_cases hv : v<g.edges.length
  · have hnone : (none:Option ℕ)≠some 0:=nofun
    rw [cfgReachable_iff hnone hv,← reachable_iff (Nat.zero_lt_of_lt hv)]
    simp
  · refine iff_of_false ?_ fun h=>hv h.inRange
    simp [cfgReachable,Nat.not_lt.mp hv]

theorem cfgDominates_iff (g:FlowGraph) (b t:ℕ) :
    cfgDominates cfgReachable g b t = true ↔ g.Dominates b t:=by
  by_cases hr : b<g.edges.length ∧ g.Reachable t
  · obtain ⟨hb,ht⟩:=hr
    have hpos:=Nat.zero_lt_of_lt hb
    have hreach:=cfgReachable_none.mpr ht
    unfold cfgDominates
    rw [if_neg (by simp [length_pos_iff.mp hpos,hb,ht.inRange,hreach])]
    split_ifs with hb0
    · exact iff_of_true rfl (hb0▸entry_dominates.mpr ht)
    · have hblocked : some b≠some 0:=fun h=>hb0 (Option.some.inj h)
      rw [Bool.not_eq_true',← Bool.not_eq_true,cfgReachable_iff hblocked ht.inRange,
        unreached_iff (fun x=>?_) hpos hb0]
      · refine ⟨fun h=>?_,fun h=>h.2.2⟩
        obtain ⟨l,hpath⟩:=ht
        exact ⟨hpath.reachable (h l hpath),⟨l,hpath⟩,h⟩
      · rw [decide_eq_true_eq,ne_eq,Option.some.injEq]
        exact not_congr eq_comm
  · refine iff_of_false (fun h=>hr ?_) fun h=>hr ⟨h.1.inRange,h.2.1⟩
    unfold cfgDominates at h
    split_ifs at h with hbad
    all_goals
      simp only [Bool.or_eq_true,decide_eq_true_eq,not_or,Bool.not_eq_true',Bool.not_eq_false,
        ge_iff_le,Nat.not_le] at hbad
      exact ⟨hbad.1.1.2,cfgReachable_none.mp hbad.2⟩

/-- Each of the three tests says whether a node dominates another one, and the marks of the flow
builders are the reachable nodes. -/
theorem dominance_exact (g : FlowGraph) : (∀ v, v∈(jni_flow g).reachable ↔ g.Reachable v) ∧ ∀ b t,
      (jni_dominates (jni_flow g) b t = true ↔ g.Dominates b t) ∧
      (pe_dominates g b t = true ↔ g.Dominates b t) ∧
      (elf_dominates g b t = true ↔ g.Dominates b t) :=
  ⟨mem_jni_flow g,fun b t=>⟨jni_dominates_iff g b t,cfgDominates_iff g b t,cfgDominates_iff g b t⟩⟩

end AutoRefirst.FlowGraphs
