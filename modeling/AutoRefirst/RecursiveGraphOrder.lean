import AutoRefirst.RecursiveGraphBudgets

/-!
# The order of the recursive artifact graph

Nodes are analysed in the order of their depth. So the node that stands for a hash is no deeper
than any copy that is met later, and every node hangs from an input by as many admitted edges as it
is deep.
-/

namespace AutoRefirst.ArtifactGraph
open List StepMachine GreedySelection

/-- A chain of `k` admitted edges from an input. -/
inductive Lineage (s : GraphLoop) (root : PendingArtifact) : PendingArtifact → ℕ → Prop
  | input : root∈s.nodes → root.root=true → Lineage s root root 0
  | child {p n : PendingArtifact} {k : ℕ} {e : ArtifactGraphEdge} : Lineage s root p k →
    n∈s.nodes → e∈admittedEdges s.graph → e.key=n.key → e.parent=p.path →
    Lineage s root n (k+1)

/-- The node was analysed with this hash, or admitted with it. -/
def HasHash (s : GraphLoop) (n : PendingArtifact) (sha : String) : Prop :=
  (∃ r∈s.analyzed, r.node=n ∧ r.report.inputSha256=sha) ∨
    ∃ e∈admittedEdges s.graph, e.key=n.key ∧ e.sha256=sha

/-- An input, or a child of a node that was analysed before. -/
def Placed (s : GraphLoop) (n : PendingArtifact) : Prop :=
  n.root = true ∧ n.depth=0 ∧ n.path=n.rootInput ∨
    n.root = false ∧ ∃ r∈s.analyzed, n.parent=r.node.path ∧ n.rootInput=r.node.rootInput ∧
      n.depth = r.node.depth+1

structure GraphOrder (s : GraphLoop) : Prop where
  order : s.nodes.Pairwise fun a b => a.depth≤b.depth
  span : ∀ c∈s.current, ∀ n∈s.queue, n.depth≤c.node.depth+1
  placed : ∀ n∈s.nodes, Placed s n
  known : ∀ x∈s.firstBySha, ∃ n∈s.nodes, n.path=x.2 ∧ HasHash s n x.1
  duplicates : ∀ e∈s.graph.edges, e.state = some .duplicateSkipped →
    ∃ n∈s.nodes, n.path=e.duplicateOf ∧ HasHash s n e.sha256 ∧ n.depth≤e.depth

variable {sorter : StdSort} {opt : Limits} {env : Environment} {s t : GraphLoop}

theorem graphOrder_start (opt:Limits) (files:List NativePath) :
    GraphOrder (.start opt files):=by
  have hall : (GraphLoop.start opt files).nodes=(GraphLoop.start opt files).queue:=rfl
  have hroot : ∀n∈(GraphLoop.start opt files).queue,
      n.root = true ∧ n.depth=0 ∧ n.path=n.rootInput:=by
    intro n hn
    obtain ⟨file,-,rfl⟩:=mem_map.mp hn
    exact ⟨rfl,rfl,rfl⟩
  have hedges : (GraphLoop.start opt files).graph.edges=[]:=by
    unfold GraphLoop.start
    dsimp only
    split <;> rfl
  have hcurrent : (GraphLoop.start opt files).current=none:=rfl
  have hknown : (GraphLoop.start opt files).firstBySha=[]:=rfl
  refine ⟨?_,?_,?_,?_,?_⟩
  · rw [hall]
    exact pairwise_of_forall_mem_list fun a ha b _=>(hroot a ha).2.1▸Nat.zero_le _
  · intro c hc
    rw [hcurrent] at hc
    cases hc
  · rw [hall]
    exact fun n hn => .inl (hroot n hn)
  · intro x hx
    rw [hknown] at hx
    cases hx
  · intro e he
    rw [hedges] at he
    cases he

theorem mem_of_lookup {m:FirstBySha} {sha:String} {path:NativePath}
    (h:m.lookup sha = some path) : (sha,path)∈m:=by
  induction m with
  | nil=>cases h
  | cons x m ih=>
    rw [lookup_cons] at h
    split at h
    case h_1 heq=>
      rw [beq_iff_eq.mp heq,← Option.some_inj.mp h]
      exact mem_cons_self
    case h_2=>exact mem_cons_of_mem x (ih h)

/-- A duplicate names the first path with its hash. -/
theorem considerChild_duplicate {cur:PendingArtifact} {child:ArtifactCandidate} {st:FileProbe}
    {e:ArtifactGraphEdge}
    (hedges:(s.considerChild cur child st).graph.edges=s.graph.edges++[e])
    (hstate:e.state = some .duplicateSkipped) : (e.sha256,e.duplicateOf)∈s.firstBySha:=by
  have hother : ∀x : ArtifactGraphEdge,x.state≠some .duplicateSkipped →
      s.graph.edges++[x]≠s.graph.edges++[e]:=by
    rintro x hx heq
    rw [cons.inj (append_cancel_left heq) |>.1] at hx
    exact hx hstate
  revert hedges
  unfold GraphLoop.considerChild
  split
  case h_1=>exact fun h=>absurd h (hother _ nofun)
  case h_2 edge _=>
    dsimp only
    split
    case isTrue=>exact fun h=>absurd h (hother _ nofun)
    case isFalse=>
      split
      case h_1 first hfirst=>
        intro h
        rw [← (cons.inj (append_cancel_left h)).1]
        exact mem_of_lookup hfirst
      case h_2=>
        split
        case isTrue=>exact fun h=>absurd h (hother _ nofun)
        case isFalse=>
          split <;> exact fun h=>absurd h (hother _ nofun)

/-- What is known of a state stays known when nodes and admitted edges are only added. -/
theorem HasHash.mono {n:PendingArtifact} {sha:String} (h:HasHash s n sha)
    (hanalyzed:s.analyzed ⊆ t.analyzed) (hedges:admittedEdges s.graph ⊆ admittedEdges t.graph) :
    HasHash t n sha:=
  h.imp (fun ⟨r,hr,hn⟩=>⟨r,hanalyzed hr,hn⟩) fun ⟨e,he,hn⟩=>⟨e,hedges he,hn⟩

theorem Placed.mono {n:PendingArtifact} (h:Placed s n) (hanalyzed:s.analyzed ⊆ t.analyzed) :
    Placed t n:=
  h.imp_right fun ⟨hroot,r,hr,hn⟩=>⟨hroot,r,hanalyzed hr,hn⟩

/-- While a node has its turn, no node is more than one level deeper. -/
theorem GraphOrder.close (h:GraphOrder s) {cur:CurrentNode} (hcur:s.current = some cur)
    {n:PendingArtifact} (hn:n∈s.nodes) : n.depth≤cur.node.depth+1:=by
  have hnodes : s.nodes=s.reports.map (·.node)++cur.node::s.queue:=by
    simp [GraphLoop.nodes,GraphLoop.analyzed,hcur]
  have horder:=h.order
  rw [hnodes,pairwise_append] at horder
  rw [hnodes,mem_append,mem_cons] at hn
  rcases hn with hn | rfl | hn
  · exact (horder.2.2 n hn _ mem_cons_self).trans (Nat.le_succ _)
  · exact Nat.le_succ _
  · exact h.span cur hcur n hn

theorem GraphOrder.considered (h:GraphOrder s) (hg:GraphInvariant sorter opt s)
    {cur:CurrentNode} {child:ArtifactCandidate} {children:List ArtifactCandidate}
    {st:FileProbe} (hcur:s.current = some cur) :
    GraphOrder {s.considerChild cur.node child st with current:=some {cur with children}}:=by
  obtain ⟨e,ht,hcase⟩:=considerChild_spec s cur.node child st
  have hdup:=considerChild_duplicate ht.edges
  have hadmitted:=ht.admittedEdges_eq
  have hdepth : e.depth=cur.node.depth+1:=by
    have hlt:=(hg.current_depth cur hcur).trans_le ((Nat.le_add_right _ _).trans hg.occupied)
    have:=congrArg EdgeKey.depth ht.key
    have:=opt.nodes_lt
    rw [inc32,Nat.mod_eq_of_lt (by omega)] at *
    assumption
  generalize s.considerChild cur.node child st = t at *
  set u : GraphLoop:={t with current:=some {cur with children}} with hu
  have hanalyzed : u.analyzed=s.analyzed:=by
    simp [u,GraphLoop.analyzed,ht.reports,hcur]
  have hsub : admittedEdges s.graph ⊆ admittedEdges u.graph:=by
    change _ ⊆ admittedEdges t.graph
    rw [hadmitted]
    exact subset_append_left _ _
  have hmine : cur.toNodeReport∈s.analyzed:=by simp [GraphLoop.analyzed,hcur]
  have hkeep : s.analyzed ⊆ u.analyzed:=hanalyzed▸Subset.refl _
  obtain ⟨l,hl,hnew,hfirst⟩ : ∃l,t.queue=s.queue++l ∧
      (∀n∈l,n.depth=cur.node.depth+1 ∧ n.root=false ∧ n.parent=cur.node.path ∧
        n.rootInput = cur.node.rootInput) ∧
      ∀x∈t.firstBySha,x∈s.firstBySha ∨ ∃n∈l,n.path=x.2 ∧
        ∃e'∈admittedEdges t.graph,e'.key=n.key ∧ e'.sha256=x.1:=by
    rcases hcase with haway | hin
    · exact ⟨[],by rw [haway.queue,append_nil],fun _ hn=>(not_mem_nil hn).elim,
        fun x hx => .inl (haway.firstBySha▸hx)⟩
    · refine ⟨_,hin.queue,fun n hn=>?_,fun x hx=>?_⟩
      · rw [mem_singleton.mp hn]
        exact ⟨hdepth,rfl,congrArg EdgeKey.parent ht.key,rfl⟩
      · rw [hin.firstBySha,FirstBySha.emplace] at hx
        split at hx
        · exact .inl hx
        · refine (mem_append.mp hx).imp_right fun hx=>⟨_,mem_singleton_self _,?_⟩
          rw [mem_singleton.mp hx]
          exact ⟨rfl,e,by rw [hadmitted,if_pos hin.state];simp,rfl,rfl⟩
  have hnodes : u.nodes=s.nodes++l:=by
    rw [GraphLoop.nodes,hanalyzed,GraphLoop.nodes,append_assoc,← hl]
  have hnear : ∀n∈u.nodes,n.depth≤cur.node.depth+1:=by
    intro n hn
    rcases mem_append.mp (hnodes▸hn) with hn | hn
    · exact h.close hcur hn
    · exact (hnew n hn).1.le
  have hknown : ∀x∈t.firstBySha,∃n∈u.nodes,n.path=x.2 ∧ HasHash u n x.1:=by
    intro x hx
    rw [hnodes]
    rcases hfirst x hx with hx | ⟨n,hn,hpath,he⟩
    · obtain ⟨n,hn,hpath,hhash⟩:=h.known x hx
      exact ⟨n,mem_append_left l hn,hpath,hhash.mono hkeep hsub⟩
    · exact ⟨n,mem_append_right _ hn,hpath,.inr he⟩
  refine ⟨?_,fun c hc n hn=>?_,fun n hn=>?_,hknown,fun e' he' hstate=>?_⟩
  · rw [hnodes,pairwise_append]
    refine ⟨h.order,?_,fun a ha b hb=>(hnew b hb).1▸h.close hcur ha⟩
    exact pairwise_of_forall_mem_list fun a ha b hb=>((hnew a ha).1.trans (hnew b hb).1.symm).le
  · rw [← Option.some_inj.mp hc]
    exact hnear n (mem_append_right _ hn)
  · rcases mem_append.mp (hnodes▸hn) with hn | hn
    · exact (h.placed n hn).mono hkeep
    · obtain ⟨hdepth,hroot,hparent,hinput⟩:=hnew n hn
      exact .inr ⟨hroot,_,hkeep hmine,hparent,hinput,hdepth⟩
  · rcases mem_append.mp (ht.edges▸he') with he' | he'
    · obtain ⟨n,hn,hpath,hhash,hle⟩:=h.duplicates e' he' hstate
      exact ⟨n,hnodes▸mem_append_left l hn,hpath,hhash.mono hkeep hsub,hle⟩
    · obtain rfl:=mem_singleton.mp he'
      obtain ⟨n,hn,hpath,hhash⟩:=h.known _ (hdup hstate)
      have hn : n∈u.nodes:=hnodes▸mem_append_left l hn
      exact ⟨n,hn,hpath,hhash.mono hkeep hsub,hdepth▸hnear n hn⟩

theorem GraphOrder.analyzed (h:GraphOrder s) {cur:PendingArtifact}
    {queue:List PendingArtifact} (hcur:s.current=none) (hqueue:s.queue=cur::queue) :
    GraphOrder (GraphLoop.analyzeNext sorter env {s with queue} cur):=by
  have hbudget:=analyzeNext_budget sorter env {s with queue} cur
  set t:=GraphLoop.analyzeNext sorter env {s with queue} cur with ht
  set report:=env.analyzeFile s.reports.length cur (GraphLoop.nodeOptions {s with queue} cur)
    with hreport
  have hs : s.analyzed=s.reports:=by simp [GraphLoop.analyzed,hcur]
  have hanalyzed : t.analyzed=s.analyzed++[⟨cur,report⟩]:=by
    rw [hs]
    rfl
  have hkeep : s.analyzed ⊆ t.analyzed:=hanalyzed▸subset_append_left _ _
  have hnodes : t.nodes=s.nodes:=by
    rw [GraphLoop.nodes,hanalyzed,show t.queue = queue from rfl,GraphLoop.nodes,hqueue]
    simp
  have hedges : t.graph.edges=s.graph.edges:=hbudget.edges
  have hsub : admittedEdges s.graph ⊆ admittedEdges t.graph:=by
    rw [admittedEdges,admittedEdges,hedges]
    exact Subset.refl _
  have hmine : cur∈s.nodes:=by simp [GraphLoop.nodes,hqueue]
  refine ⟨hnodes▸h.order,fun c hc n hn=>?_,fun n hn=>(h.placed n (hnodes▸hn)).mono hkeep,
    fun x hx=>?_,fun e he hstate=>?_⟩
  · have hnode : c.node=cur:=by rw [← Option.some_inj.mp hc]
    have horder:=h.order
    rw [GraphLoop.nodes,hqueue,pairwise_append] at horder
    rw [hnode]
    have hn : n∈s.queue:=hqueue▸mem_cons_of_mem cur hn
    rcases h.placed n (mem_append_right _ hn) with ⟨-,hzero,-⟩ | ⟨-,r,hr,-,-,hdepth⟩
    · omega
    · rw [hdepth]
      exact Nat.succ_le_succ (horder.2.2 r.node (mem_map_of_mem hr) cur mem_cons_self)
  · have hcases : x∈s.firstBySha ∨ x=(report.inputSha256,cur.path):=by
      change x∈(if report.inputSha256.toList.isEmpty then s.firstBySha
        else s.firstBySha.emplace report.inputSha256 cur.path) at hx
      rw [FirstBySha.emplace] at hx
      split at hx
      · exact .inl hx
      · split at hx
        · exact .inl hx
        · simpa using hx
    rw [hnodes]
    rcases hcases with hx | rfl
    · obtain ⟨n,hn,hpath,hhash⟩:=h.known x hx
      exact ⟨n,hn,hpath,hhash.mono hkeep hsub⟩
    · exact ⟨cur,hmine,rfl,.inl ⟨_,hanalyzed▸mem_append_right _ mem_cons_self,rfl,rfl⟩⟩
  · obtain ⟨n,hn,hpath,hhash,hle⟩:=h.duplicates e (hedges▸he) hstate
    exact ⟨n,hnodes▸hn,hpath,hhash.mono hkeep hsub,hle⟩

theorem graphOrder_step (hg:GraphInvariant sorter opt s) (h:GraphOrder s)
    (hstep:s.step sorter env = some t) : GraphOrder t:=by
  obtain ⟨cur,child,children,hcur,-,rfl⟩ | ⟨cur,hcur,-,rfl⟩ | ⟨cur,queue,hcur,hqueue,rfl⟩:=
    step_cases hstep
  · exact h.considered hg hcur
  · set u : GraphLoop:={s with reports:=s.reports++[cur.toNodeReport],current:=none} with hu
    have hanalyzed : u.analyzed=s.analyzed:=by simp [u,GraphLoop.analyzed,hcur]
    have hkeep : s.analyzed ⊆ u.analyzed:=hanalyzed▸Subset.refl _
    have hnodes : u.nodes=s.nodes:=by
      rw [GraphLoop.nodes,hanalyzed]
      rfl
    refine ⟨hnodes▸h.order,(fun c hc=>by cases hc),
      fun n hn=>(h.placed n (hnodes▸hn)).mono hkeep,fun x hx=>?_,fun e he hstate=>?_⟩
    · obtain ⟨n,hn,hpath,hhash⟩:=h.known x hx
      exact ⟨n,hnodes▸hn,hpath,hhash.mono hkeep (Subset.refl _)⟩
    · obtain ⟨n,hn,hpath,hhash,hle⟩:=h.duplicates e he hstate
      exact ⟨n,hnodes▸hn,hpath,hhash.mono hkeep (Subset.refl _),hle⟩
  · exact h.analyzed hcur hqueue

theorem exists_lineage (hg:GraphInvariant sorter opt s) (h:GraphOrder s) (k:ℕ)
    {n:PendingArtifact} (hn:n∈s.nodes) (hk:n.depth=k) :
    ∃root,root.path=n.rootInput ∧ Lineage s root n k:=by
  induction k generalizing n with
  | zero=>
    rcases h.placed n hn with ⟨hroot,-,hpath⟩ | ⟨-,r,-,-,-,hdepth⟩
    · exact ⟨n,hpath,.input hn hroot⟩
    · omega
  | succ k ih=>
    rcases h.placed n hn with ⟨-,hzero,-⟩ | ⟨hroot,r,hr,hparent,hinput,hdepth⟩
    · omega
    · have hmem : r.node∈s.nodes:=mem_append_left _ (mem_map_of_mem hr)
      obtain ⟨root,hpath,hline⟩:=ih hmem (by omega)
      have hkey : n.key∈(admittedEdges s.graph).map (·.key):=by
        rw [← hg.children]
        exact mem_map_of_mem (mem_filter.mpr ⟨hn,by rw [hroot];rfl⟩)
      obtain ⟨e,he,heq⟩:=mem_map.mp hkey
      have hedge : e.parent=r.node.path:=(congrArg EdgeKey.parent heq).trans hparent
      exact ⟨root,hpath.trans hinput.symm,.child hline hn he heq hedge⟩

/-- The recursion goes breadth first: nodes come in the order of their depth, each hangs from its
input by as many admitted edges, and a child is only left out as a duplicate of a node that has its
hash and is no deeper. -/
theorem recursive_graph_breadth_first (sorter : StdSort) (opt : Limits) (env : Environment)
    (files : List NativePath) (s : GraphLoop)
    (hs : Reachable (GraphLoop.step sorter env) (.start opt files) s) :
    (s.nodes.Pairwise fun a b => a.depth≤b.depth) ∧
    (∀ n∈s.nodes, ∃ root, root.path = n.rootInput ∧ Lineage s root n n.depth) ∧
    ∀ e∈s.graph.edges, e.state = some .duplicateSkipped →
      ∃ n∈s.nodes, n.path = e.duplicateOf ∧ HasHash s n e.sha256 ∧ n.depth≤e.depth := by
  have hboth : GraphInvariant sorter opt s ∧ GraphOrder s:=
    hs.invariant (fun s=>GraphInvariant sorter opt s ∧ GraphOrder s)
      ⟨graphInvariant_start sorter opt files,graphOrder_start opt files⟩
      fun a b h hab=>⟨graphInvariant_step a b h.1 hab,graphOrder_step h.1 h.2 hab⟩
  exact ⟨hboth.2.order,fun n hn=>exists_lineage hboth.1 hboth.2 n.depth hn rfl,
    hboth.2.duplicates⟩

/-- An input, and an archive with a copy of it. -/
def copyInArchive : Environment where
  analyzeFile
    | 0, _, _ => {inputSha256 := "6b86b273"}
    | _, _, _ => {inputSha256 := "d4735e3a",asarValid:=true,asarFiles:=[⟨"x/a"⟩]}
  probe _ _ := {size:=some 10,sha256 := "6b86b273"}

def afterCopy : GraphLoop :=
  iterate (GraphLoop.step insertionStdSort copyInArchive) 4
    (.start Limits.commandLine [⟨"a"⟩,⟨"x"⟩])

theorem recursive_graph_breadth_first_afterCopy :
    ∃e∈afterCopy.graph.edges, ∃n∈afterCopy.nodes, n.path=e.duplicateOf ∧
      HasHash afterCopy n e.sha256 ∧ n.depth≤e.depth:=by
  have hedges : afterCopy.graph.edges = [{
      parent:=⟨"x"⟩,child:=⟨"x/a"⟩,duplicateOf:=⟨"a"⟩,relation := "extracted:asar"
      sha256 := "6b86b273",state:=some .duplicateSkipped,size:=10,depth:=1}]:=by decide
  obtain ⟨-,-,hdup⟩:=recursive_graph_breadth_first insertionStdSort Limits.commandLine
    copyInArchive [⟨"a"⟩,⟨"x"⟩] afterCopy (reachable_iterate 4 _)
  rw [hedges] at hdup ⊢
  exact ⟨_,mem_cons_self,hdup _ mem_cons_self rfl⟩

end AutoRefirst.ArtifactGraph
