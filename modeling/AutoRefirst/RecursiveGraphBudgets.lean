import AutoRefirst.RecursiveArtifactGraph
import Mathlib.Data.Prod.Lex

/-!
# Budgets of the recursive artifact graph

What one turn of the inner loop can do is said once, in `considerChild_spec`: it adds
one edge, and either admits the child, with every check passed, or leaves the queue, the
admitted bytes and the known hashes alone. The invariant of the whole loop follows, and
with it the bounds on nodes, depth and bytes.
-/

namespace AutoRefirst.ArtifactGraph
open List Option

open GreedySelection StepMachine

namespace FirstBySha

variable (m : FirstBySha) (sha : String)

theorem lookup_append_singleton (sha':String) (path:NativePath) :
    List.lookup sha' (m++[(sha,path)]) =
      (m.lookup sha').or (if sha' == sha then some path else none):=by
  induction m with
  | nil=>
    rw [nil_append,lookup_cons]
    cases sha' == sha <;> rfl
  | cons entry m ih=>
    rw [cons_append,lookup_cons,lookup_cons,ih]
    cases sha' == entry.1 <;> rfl

theorem lookup_emplace (sha':String) (path:NativePath) : (m.emplace sha path).lookup sha' =
      (m.lookup sha').or (if sha' == sha then some path else none):=by
  by_cases hknown : (m.lookup sha).isSome
  · rw [emplace,if_pos hknown]
    obtain ⟨first,hfirst⟩:=isSome_iff_exists.mp hknown
    by_cases heq : sha'=sha
    · simp [heq,hfirst]
    · simp [heq]
  · rw [emplace,if_neg hknown,lookup_append_singleton]

/-- A known hash stays known, with the path it had. -/
theorem lookup_emplace_of_some {m:FirstBySha} {sha sha':String} {path first:NativePath}
    (h:m.lookup sha'=some first) : (m.emplace sha path).lookup sha'=some first:=by
  rw [lookup_emplace,h]
  rfl

theorem isSome_lookup_emplace_self (path:NativePath) :
    ((m.emplace sha path).lookup sha).isSome=true:=by
  rw [lookup_emplace]
  cases m.lookup sha <;> simp

theorem isSome_lookup_emplace {m:FirstBySha} {sha sha':String} {path:NativePath}
    (h:(m.lookup sha').isSome=true) : ((m.emplace sha path).lookup sha').isSome=true:=by
  obtain ⟨first,hfirst⟩:=isSome_iff_exists.mp h
  rw [lookup_emplace_of_some hfirst]
  rfl

end FirstBySha

structure EdgeKey where
  (parent child : NativePath)
  relation : String
  depth : ℕ
  deriving DecidableEq

def ArtifactGraphEdge.key (e : ArtifactGraphEdge) : EdgeKey :=
  ⟨e.parent,e.child,e.relation,e.depth⟩

def PendingArtifact.key (n : PendingArtifact) : EdgeKey :=
  ⟨n.parent,n.path,n.relation,n.depth⟩

def admittedEdges (g : ArtifactGraphInfo) : List ArtifactGraphEdge :=
  g.edges.filter fun e => e.state == some .admitted

/-- What every turn of the inner loop does. -/
structure Considered (s t : GraphLoop) (cur : PendingArtifact) (child : ArtifactCandidate)
    (e : ArtifactGraphEdge) : Prop where
  edges : t.graph.edges=s.graph.edges++[e]
  key : e.key=⟨cur.path,child.path,child.relation,inc32 cur.depth⟩
  decided : e.state.isSome=true
  maxDepth : t.graph.maxDepth=s.graph.maxDepth
  maxNodes : t.graph.maxNodes=s.graph.maxNodes
  maxTotalBytes : t.graph.maxTotalBytes=s.graph.maxTotalBytes
  reports : t.reports=s.reports

structure TurnedAway (s t : GraphLoop) (e : ArtifactGraphEdge) : Prop where
  state : e.state ≠ some .admitted
  queue : t.queue=s.queue
  firstBySha : t.firstBySha=s.firstBySha
  admittedBytes : t.graph.admittedBytes=s.graph.admittedBytes
  materialized : t.graph.materializedBytes=s.graph.materializedBytes ∨
    t.graph.materializedBytes = satAdd s.graph.materializedBytes e.size

structure AdmittedChild (s t : GraphLoop) (cur : PendingArtifact) (e : ArtifactGraphEdge) :
    Prop where
  state : e.state = some .admitted
  sha : e.sha256.toList.isEmpty=false
  unknown : s.firstBySha.lookup e.sha256 = none
  firstBySha : t.firstBySha = s.firstBySha.emplace e.sha256 e.child
  queue : t.queue=s.queue++[
    ⟨e.child,e.parent,cur.rootInput,e.relation,e.depth,false⟩]
  admittedBytes : t.graph.admittedBytes = satAdd s.graph.admittedBytes e.size
  materialized : t.graph.materializedBytes = satAdd s.graph.materializedBytes e.size
  bytes : t.graph.materializedBytes ≤ s.graph.maxTotalBytes
  depth : e.depth ≤ s.graph.maxDepth
  nodes : s.reports.length+s.queue.length+1<s.graph.maxNodes

theorem FileProbe.identify_key (st:FileProbe) (edge:ArtifactGraphEdge) :
    (st.identify edge).1.key=edge.key:=by
  unfold identify
  split
  · rfl
  · cases st.size <;> rfl

theorem FileProbe.identify_sha {st:FileProbe} {edge:ArtifactGraphEdge}
    (h:(st.identify edge).2=true) : (st.identify edge).1.sha256.toList.isEmpty=false:=by
  revert h
  unfold identify
  split
  · simp
  · cases st.size with
    | none=>simp
    | some size=>simp

theorem considerChild_spec (s:GraphLoop) (cur:PendingArtifact) (child:ArtifactCandidate)
    (st:FileProbe) : ∃e,Considered s (s.considerChild cur child st) cur child e ∧
      (TurnedAway s (s.considerChild cur child st) e ∨
        AdmittedChild s (s.considerChild cur child st) cur e):=by
  have hkey:=st.identify_key (GraphLoop.newEdge cur child)
  have hsha:=@FileProbe.identify_sha st (GraphLoop.newEdge cur child)
  unfold GraphLoop.considerChild
  generalize st.identify (GraphLoop.newEdge cur child) = identified at hkey hsha ⊢
  obtain ⟨edge,safe⟩:=identified
  cases safe with
  | false=>
    exact ⟨{edge with state:=some .skippedUnsafe},
      ⟨rfl,hkey,rfl,rfl,rfl,rfl,rfl⟩,.inl ⟨by simp,rfl,rfl,rfl,.inl rfl⟩⟩
  | true=>
    have hrest : edge.depth=inc32 cur.depth ∧ edge.parent=cur.path ∧
        edge.child=child.path ∧ edge.relation=child.relation:=by
      have hcopy:=hkey
      simp only [ArtifactGraphEdge.key,GraphLoop.newEdge,EdgeKey.mk.injEq] at hcopy
      exact ⟨hcopy.2.2.2,hcopy.1,hcopy.2.1,hcopy.2.2.1⟩
    obtain ⟨hdepth,hparent,hchild,hrelation⟩:=hrest
    dsimp only
    split
    · exact ⟨{edge with state:=some .skippedByteLimit},
        ⟨rfl,hkey,rfl,rfl,rfl,rfl,rfl⟩,.inl ⟨by simp,rfl,rfl,rfl,.inr rfl⟩⟩
    · rename_i hbytes
      split
      · rename_i first hfirst
        exact ⟨{edge with duplicateOf:=first,state:=some .duplicateSkipped},
          ⟨rfl,hkey,rfl,rfl,rfl,rfl,rfl⟩,.inl ⟨by simp,rfl,rfl,rfl,.inr rfl⟩⟩
      · rename_i hunknown
        split
        · exact ⟨{edge with state:=some .skippedDepth},
            ⟨rfl,hkey,rfl,rfl,rfl,rfl,rfl⟩,.inl ⟨by simp,rfl,rfl,rfl,.inr rfl⟩⟩
        · rename_i hfits
          split
          · exact ⟨{edge with state:=some .skippedNodeLimit},
              ⟨rfl,hkey,rfl,rfl,rfl,rfl,rfl⟩,.inl ⟨by simp,rfl,rfl,rfl,.inr rfl⟩⟩
          · rename_i hroom
            refine ⟨{edge with state:=some .admitted},
              ⟨rfl,hkey,rfl,rfl,rfl,rfl,rfl⟩,.inr ⟨rfl,hsha rfl,hunknown,?_,?_,rfl,
                rfl,Nat.le_of_not_lt hbytes,Nat.le_of_not_lt hfits,Nat.lt_of_not_le hroom⟩⟩
            · simp [GraphLoop.admitChild,hchild]
            · simp [GraphLoop.admitChild,hchild,hparent,hrelation]

/-- The part of the graph that notes never write. -/
structure SameBudget (g g' : ArtifactGraphInfo) : Prop where
  edges : g'.edges=g.edges
  maxDepth : g'.maxDepth=g.maxDepth
  maxNodes : g'.maxNodes=g.maxNodes
  maxTotalBytes : g'.maxTotalBytes=g.maxTotalBytes
  admittedBytes : g'.admittedBytes=g.admittedBytes
  materializedBytes : g'.materializedBytes=g.materializedBytes

theorem SameBudget.note (g:ArtifactGraphInfo) (n:Bool×String) : SameBudget g (note g n):=by
  unfold ArtifactGraph.note
  split <;> exact ⟨rfl,rfl,rfl,rfl,rfl,rfl⟩

theorem SameBudget.trans {g g' g'':ArtifactGraphInfo} (h:SameBudget g g')
    (h':SameBudget g' g'') : SameBudget g g'':=
  ⟨h'.edges.trans h.edges,h'.maxDepth.trans h.maxDepth,h'.maxNodes.trans h.maxNodes,
    h'.maxTotalBytes.trans h.maxTotalBytes,h'.admittedBytes.trans h.admittedBytes,
    h'.materializedBytes.trans h.materializedBytes⟩

theorem SameBudget.foldl_note (notes:List (Bool×String)) (g:ArtifactGraphInfo) :
    SameBudget g (notes.foldl ArtifactGraph.note g):=by
  induction notes generalizing g with
  | nil=>exact ⟨rfl,rfl,rfl,rfl,rfl,rfl⟩
  | cons n notes ih=>exact (SameBudget.note g n).trans (ih _)

variable (sorter : StdSort)

theorem analyzeNext_budget (env:Environment) (s:GraphLoop)
    (cur:PendingArtifact) : SameBudget s.graph (s.analyzeNext sorter env cur).graph:=by
  have hcount : SameBudget s.graph {s.graph with nodes:=inc32 s.graph.nodes}:=
    ⟨rfl,rfl,rfl,rfl,rfl,rfl⟩
  exact (hcount.trans (SameBudget.foldl_note _ _)).trans (SameBudget.note _ _)

namespace GraphLoop

def analyzed (s : GraphLoop) : List NodeReport :=
  s.reports ++ s.current.toList.map (·.toNodeReport)

/-- The children of the current node that are still to be considered. -/
def remaining (s : GraphLoop) : List EdgeKey :=
  s.current.toList.flatMap fun c =>
    c.children.map fun child => ⟨c.node.path,child.path,child.relation,c.node.depth+1⟩

def nodes (s : GraphLoop) : List PendingArtifact := s.analyzed.map (·.node) ++ s.queue

end GraphLoop

def childKeys (r : NodeReport) : List EdgeKey :=
  (extractedArtifacts sorter r.report).map fun child =>
    ⟨r.node.path,child.path,child.relation,r.node.depth+1⟩

/-- The bytes of the admitted children. -/
def admittedSizes (g : ArtifactGraphInfo) : ℕ := ((admittedEdges g).map (·.size)).sum

/-- What holds at every turn of the loop. -/
structure GraphInvariant (sorter : StdSort) (opt : Limits) (s : GraphLoop) : Prop where
  maxDepth : s.graph.maxDepth=opt.artifactMaxDepth
  maxNodes : s.graph.maxNodes=opt.artifactMaxNodes
  maxTotalBytes : s.graph.maxTotalBytes=opt.artifactMaxBytes
  occupied : s.analyzed.length+s.queue.length≤opt.artifactMaxNodes
  depth : ∀ n∈s.nodes, n.depth≤opt.artifactMaxDepth
  queue_depth : ∀ n∈s.queue, n.depth ≤ s.analyzed.length
  current_depth : ∀ c∈s.current, c.node.depth<s.analyzed.length
  admitted_le : s.graph.admittedBytes ≤ s.graph.materializedBytes
  materialized_le : s.graph.materializedBytes≤Word64.maxValue
  bytes : s.graph.admittedBytes≤opt.artifactMaxBytes
  bytes_sum : s.graph.admittedBytes=min (admittedSizes s.graph) Word64.maxValue
  edges : s.graph.edges.map (·.key) ++ s.remaining = s.analyzed.flatMap (childKeys sorter)
  decided : ∀ e∈s.graph.edges, e.state.isSome=true
  children : (s.nodes.filter (!·.root)).map (·.key) = (admittedEdges s.graph).map (·.key)
  distinct : ((admittedEdges s.graph).map (·.sha256)).Nodup
  admitted_known : ∀ e ∈ admittedEdges s.graph, (s.firstBySha.lookup e.sha256).isSome=true
  analyzed_known : ∀ r∈s.analyzed, r.report.inputSha256.toList.isEmpty=false →
    (s.firstBySha.lookup r.report.inputSha256).isSome = true

theorem graphInvariant_start (opt:Limits) (files:List NativePath) :
    GraphInvariant sorter opt (.start opt files):=by
  have hgraph : (GraphLoop.start opt files).graph.maxDepth=opt.artifactMaxDepth ∧
      (GraphLoop.start opt files).graph.maxNodes=opt.artifactMaxNodes ∧
      (GraphLoop.start opt files).graph.maxTotalBytes=opt.artifactMaxBytes ∧
      (GraphLoop.start opt files).graph.edges=[] ∧
      (GraphLoop.start opt files).graph.admittedBytes=0 ∧
      (GraphLoop.start opt files).graph.materializedBytes=0:=by
    unfold GraphLoop.start
    dsimp only
    split <;> exact ⟨rfl,rfl,rfl,rfl,rfl,rfl⟩
  obtain ⟨hdepth,hnodes,hbytes,hedges,hadmitted,hmaterialized⟩:=hgraph
  have hroot : ∀n∈(GraphLoop.start opt files).queue,n.depth=0 ∧ n.root=true:=by
    intro n hn
    obtain ⟨file,-,rfl⟩:=mem_map.mp hn
    exact ⟨rfl,rfl⟩
  have hall : (GraphLoop.start opt files).nodes=(GraphLoop.start opt files).queue:=rfl
  refine ⟨hdepth,hnodes,hbytes,?_,?_,?_,?_,?_,?_,?_,?_,?_,?_,?_,?_,?_,?_⟩
  · simp [GraphLoop.start,GraphLoop.analyzed]
  · intro n hn
    rw [(hroot n (hall▸hn)).1]
    exact Nat.zero_le _
  · intro n hn
    rw [(hroot n hn).1]
    exact Nat.zero_le _
  · simp [GraphLoop.start]
  · rw [hadmitted]
    exact Nat.zero_le _
  · rw [hmaterialized]
    exact Nat.zero_le _
  · rw [hadmitted]
    exact Nat.zero_le _
  · rw [hadmitted,admittedSizes,admittedEdges,hedges]
    rfl
  · rw [hedges]
    rfl
  · simp [hedges]
  · rw [hall,filter_eq_nil_iff.mpr fun n hn=>by simp [(hroot n hn).2],admittedEdges,hedges]
    rfl
  · simp [admittedEdges,hedges]
  · simp [admittedEdges,hedges]
  · simp [GraphLoop.start,GraphLoop.analyzed]

variable {s t : GraphLoop} {e : ArtifactGraphEdge}

theorem Considered.admittedEdges_eq {cur:PendingArtifact} {child:ArtifactCandidate}
    (h:Considered s t cur child e) :
    admittedEdges t.graph =
      admittedEdges s.graph++if e.state = some .admitted then [e] else []:=by
  rw [admittedEdges,h.edges,filter_append,← admittedEdges]
  by_cases hadmitted : e.state = some .admitted <;> simp [hadmitted]

variable {opt : Limits}

theorem GraphInvariant.considered {sorter:StdSort} {cur:CurrentNode} {child:ArtifactCandidate}
    {children:List ArtifactCandidate} (h:GraphInvariant sorter opt s)
    (hcur:s.current=some cur) (hchildren:cur.children=child::children)
    (ht:Considered s t cur.node child e)
    (hcase:TurnedAway s t e ∨ AdmittedChild s t cur.node e) :
    GraphInvariant sorter opt {t with current:=some {cur with children}}:=by
  set u : GraphLoop:={t with current:=some {cur with children}} with hu
  have hanalyzed : u.analyzed=s.analyzed:=by
    simp [u,GraphLoop.analyzed,ht.reports,hcur]
  have hlen : s.analyzed.length=s.reports.length+1:=by
    simp [GraphLoop.analyzed,hcur]
  have hcurrent : cur.node.depth<s.analyzed.length:=h.current_depth cur hcur
  have hword : cur.node.depth+1<2^32:=by
    have hle : s.analyzed.length≤opt.artifactMaxNodes:=(Nat.le_add_right _ _).trans h.occupied
    have:=opt.nodes_lt
    omega
  have hinc : inc32 cur.node.depth = cur.node.depth+1:=Nat.mod_eq_of_lt hword
  have hkey : e.key=⟨cur.node.path,child.path,child.relation,cur.node.depth+1⟩:=by
    rw [ht.key,hinc]
  have hremaining : s.remaining=e.key::u.remaining:=by
    simp [GraphLoop.remaining,hcur,hchildren,u,hkey]
  have hedges : u.graph.edges.map (·.key)++u.remaining = s.analyzed.flatMap (childKeys sorter):=by
    rw [← h.edges,hremaining]
    change t.graph.edges.map (·.key)++_ = _
    rw [ht.edges]
    simp
  have hdecided : ∀e'∈u.graph.edges,e'.state.isSome=true:=by
    intro e' he'
    rw [show u.graph.edges = s.graph.edges++[e] from ht.edges,mem_append, mem_singleton] at he'
    rcases he' with he' | rfl
    · exact h.decided e' he'
    · exact ht.decided
  have hadmitted:=ht.admittedEdges_eq
  rcases hcase with haway | hin
  · rw [if_neg haway.state,append_nil] at hadmitted
    have hnodes : u.nodes=s.nodes:=by
      rw [GraphLoop.nodes,hanalyzed,GraphLoop.nodes]
      exact congrArg _ haway.queue
    have hmaterialized : s.graph.materializedBytes≤t.graph.materializedBytes ∧
        t.graph.materializedBytes≤Word64.maxValue:=by
      rcases haway.materialized with hm | hm
      · exact ⟨hm.ge,hm.le.trans h.materialized_le⟩
      · exact ⟨(Word64.le_satAdd_left h.materialized_le).trans hm.ge,
          hm.le.trans (Word64.satAdd_le_maxValue h.materialized_le)⟩
    refine ⟨ht.maxDepth.trans h.maxDepth,ht.maxNodes.trans h.maxNodes,
      ht.maxTotalBytes.trans h.maxTotalBytes,?_,?_,?_,?_,?_,hmaterialized.2,?_,?_,
      hanalyzed▸hedges,hdecided,?_,?_,?_,?_⟩
    · rw [hanalyzed]
      change _ + t.queue.length ≤ _
      rw [haway.queue]
      exact h.occupied
    · rw [hnodes]
      exact h.depth
    · rw [hanalyzed]
      intro n hn
      exact h.queue_depth n (haway.queue▸hn)
    · rw [hanalyzed]
      intro c hc
      obtain rfl : {cur with children} = c:=some.inj hc
      exact hcurrent
    · exact haway.admittedBytes.le.trans (h.admitted_le.trans hmaterialized.1)
    · exact haway.admittedBytes.le.trans h.bytes
    · refine haway.admittedBytes.trans ?_
      rw [h.bytes_sum,admittedSizes,admittedSizes]
      exact congrArg (fun l=>min (List.map _ l).sum _) hadmitted.symm
    · rw [hnodes,h.children]
      exact congrArg _ hadmitted.symm
    · exact hadmitted▸h.distinct
    · intro e' he'
      change (t.firstBySha.lookup _).isSome=true
      rw [haway.firstBySha]
      exact h.admitted_known e' (hadmitted▸he')
    · rw [hanalyzed]
      change ∀r∈_,_ → (t.firstBySha.lookup _).isSome=true
      rw [haway.firstBySha]
      exact h.analyzed_known
  · rw [if_pos hin.state] at hadmitted
    set pending : PendingArtifact:=
      ⟨e.child,e.parent,cur.node.rootInput,e.relation,e.depth,false⟩ with hpending
    have hqueue : u.queue=s.queue++[pending]:=hin.queue
    have hnodes : u.nodes=s.nodes++[pending]:=by
      rw [GraphLoop.nodes,hanalyzed,hqueue,GraphLoop.nodes,append_assoc]
    have hdepth : e.depth=cur.node.depth+1:=congrArg EdgeKey.depth hkey
    have hnew : ∀e'∈admittedEdges s.graph,e'.sha256≠e.sha256:=by
      intro e' he' heq
      have hknown:=h.admitted_known e' he'
      rw [heq,hin.unknown] at hknown
      cases hknown
    refine ⟨ht.maxDepth.trans h.maxDepth,ht.maxNodes.trans h.maxNodes,
      ht.maxTotalBytes.trans h.maxTotalBytes,?_,?_,?_,?_,?_,?_,?_,?_,
      hanalyzed▸hedges,hdecided,?_,?_,?_,?_⟩
    · have hroom:=hin.nodes
      rw [h.maxNodes] at hroom
      rw [hanalyzed,hqueue,hlen,length_append,length_singleton]
      omega
    · rw [hnodes]
      intro n hn
      rcases mem_append.mp hn with hn | hn
      · exact h.depth n hn
      · obtain rfl:=mem_singleton.mp hn
        exact hin.depth.trans h.maxDepth.le
    · rw [hanalyzed,hqueue]
      intro n hn
      rcases mem_append.mp hn with hn | hn
      · exact h.queue_depth n hn
      · obtain rfl:=mem_singleton.mp hn
        change e.depth≤_
        omega
    · rw [hanalyzed]
      intro c hc
      obtain rfl : {cur with children} = c:=some.inj hc
      exact hcurrent
    · change t.graph.admittedBytes ≤ t.graph.materializedBytes
      rw [hin.admittedBytes,hin.materialized,satAdd,satAdd,
        Word64.satAdd_eq_min _ (h.admitted_le.trans h.materialized_le),
        Word64.satAdd_eq_min _ h.materialized_le]
      exact min_le_min_right _ (Nat.add_le_add_right h.admitted_le _)
    · change t.graph.materializedBytes ≤ _
      rw [hin.materialized]
      exact Word64.satAdd_le_maxValue h.materialized_le
    · change t.graph.admittedBytes ≤ _
      refine le_trans ?_ (hin.bytes.trans h.maxTotalBytes.le)
      rw [hin.admittedBytes,hin.materialized,satAdd,satAdd,
        Word64.satAdd_eq_min _ (h.admitted_le.trans h.materialized_le),
        Word64.satAdd_eq_min _ h.materialized_le]
      exact min_le_min_right _ (Nat.add_le_add_right h.admitted_le _)
    · change t.graph.admittedBytes = min (admittedSizes t.graph) _
      rw [hin.admittedBytes,satAdd,
        Word64.satAdd_eq_min _ (h.admitted_le.trans h.materialized_le),h.bytes_sum,
        admittedSizes,admittedSizes,hadmitted]
      simp only [map_append,map_cons,map_nil,sum_append,sum_cons, sum_nil]
      omega
    · rw [hnodes,filter_append,map_append,h.children]
      change _=(admittedEdges t.graph).map (·.key)
      rw [hadmitted]
      simp [pending,PendingArtifact.key,ArtifactGraphEdge.key]
    · change ((admittedEdges t.graph).map (·.sha256)).Nodup
      rw [hadmitted,map_append,nodup_append]
      refine ⟨h.distinct,nodup_singleton _,?_⟩
      intro sha hsha sha' hsha' heq
      obtain ⟨e',he',rfl⟩:=mem_map.mp hsha
      exact hnew e' he' (heq.trans (mem_singleton.mp hsha'))
    · intro e' he'
      change (t.firstBySha.lookup _).isSome=true
      rw [hin.firstBySha]
      change e' ∈ admittedEdges t.graph at he'
      rw [hadmitted,mem_append,mem_singleton] at he'
      rcases he' with he' | rfl
      · exact FirstBySha.isSome_lookup_emplace (h.admitted_known e' he')
      · exact FirstBySha.isSome_lookup_emplace_self _ _ _
    · rw [hanalyzed]
      intro r hr hsha
      change (t.firstBySha.lookup _).isSome=true
      rw [hin.firstBySha]
      exact FirstBySha.isSome_lookup_emplace (h.analyzed_known r hr hsha)

theorem GraphInvariant.closed {sorter:StdSort} {cur:CurrentNode}
    (h:GraphInvariant sorter opt s) (hcur:s.current=some cur)
    (hchildren:cur.children=[]) :
    GraphInvariant sorter opt
      {s with reports:=s.reports++[cur.toNodeReport],current:=none}:=by
  set t : GraphLoop:={s with reports:=s.reports++[cur.toNodeReport],current:=none}
  have hanalyzed : t.analyzed=s.analyzed:=by
    simp [t,GraphLoop.analyzed,hcur]
  have hnodes : t.nodes=s.nodes:=by
    rw [GraphLoop.nodes,hanalyzed]
    rfl
  have hremaining : s.remaining=[]:=by
    simp [GraphLoop.remaining,hcur,hchildren]
  have hremaining' : t.remaining=[]:=rfl
  refine ⟨h.maxDepth,h.maxNodes,h.maxTotalBytes,?_,?_,?_,?_,h.admitted_le,
    h.materialized_le,h.bytes,h.bytes_sum,?_,h.decided,?_,h.distinct,h.admitted_known,?_⟩
  · rw [hanalyzed]
    exact h.occupied
  · rw [hnodes]
    exact h.depth
  · rw [hanalyzed]
    exact h.queue_depth
  · intro c hc
    cases hc
  · rw [hanalyzed,hremaining',← hremaining]
    exact h.edges
  · rw [hnodes]
    exact h.children
  · rw [hanalyzed]
    exact h.analyzed_known

/-- Analysing the next node takes it out of the queue and records its hash. -/
theorem GraphInvariant.analyzed {sorter:StdSort} (env:Environment) {cur:PendingArtifact}
    {queue:List PendingArtifact} (h:GraphInvariant sorter opt s) (hcur:s.current=none)
    (hqueue:s.queue=cur::queue) :
    GraphInvariant sorter opt (GraphLoop.analyzeNext sorter env {s with queue} cur):=by
  have hbudget:=analyzeNext_budget sorter env {s with queue} cur
  set t:=GraphLoop.analyzeNext sorter env {s with queue} cur with ht
  set report:=env.analyzeFile s.reports.length cur (GraphLoop.nodeOptions {s with queue} cur)
    with hreport
  have hs : s.analyzed=s.reports:=by simp [GraphLoop.analyzed,hcur]
  have hanalyzed : t.analyzed=s.analyzed++[⟨cur,report⟩]:=by
    rw [hs]
    rfl
  have hqueue' : t.queue=queue:=rfl
  have hnodes : t.nodes=s.nodes:=by
    rw [GraphLoop.nodes,hanalyzed,hqueue',GraphLoop.nodes,hqueue]
    simp
  have hremaining : s.remaining=[]:=by simp [GraphLoop.remaining,hcur]
  have hremaining' : t.remaining=childKeys sorter ⟨cur,report⟩:=by
    change _++[] = _
    rw [append_nil]
    rfl
  have hadmitted : admittedEdges t.graph=admittedEdges s.graph:=by
    rw [admittedEdges,hbudget.edges]
    rfl
  have hknown : ∀sha,(s.firstBySha.lookup sha).isSome=true →
      (t.firstBySha.lookup sha).isSome=true:=by
    intro sha hsha
    change (List.lookup sha (if report.inputSha256.toList.isEmpty then s.firstBySha
      else s.firstBySha.emplace report.inputSha256 cur.path)).isSome = true
    split
    · exact hsha
    · exact FirstBySha.isSome_lookup_emplace hsha
  refine ⟨hbudget.maxDepth.trans h.maxDepth,hbudget.maxNodes.trans h.maxNodes,
    hbudget.maxTotalBytes.trans h.maxTotalBytes,?_,?_,?_,?_,?_,?_,?_,?_,?_,?_,?_,?_,
    ?_,?_⟩
  · have hoccupied:=h.occupied
    rw [hqueue,length_cons] at hoccupied
    rw [hanalyzed,hqueue',length_append,length_singleton]
    omega
  · rw [hnodes]
    exact h.depth
  · rw [hqueue',hanalyzed,length_append]
    intro n hn
    exact Nat.le_add_right_of_le (h.queue_depth n (hqueue▸mem_cons_of_mem cur hn))
  · intro c hc
    have hnode : c.node=cur:=by
      obtain rfl:=some.inj hc
      rfl
    rw [hnode,hanalyzed,length_append,length_singleton]
    exact Nat.lt_succ_of_le (h.queue_depth cur (hqueue▸mem_cons_self))
  · rw [hbudget.admittedBytes,hbudget.materializedBytes]
    exact h.admitted_le
  · rw [hbudget.materializedBytes]
    exact h.materialized_le
  · rw [hbudget.admittedBytes]
    exact h.bytes
  · rw [hbudget.admittedBytes,admittedSizes,hadmitted]
    exact h.bytes_sum
  · rw [hbudget.edges,hanalyzed,hremaining',flatMap_append,← h.edges,hremaining]
    simp
  · rw [hbudget.edges]
    exact h.decided
  · rw [hnodes,hadmitted]
    exact h.children
  · rw [hadmitted]
    exact h.distinct
  · rw [hadmitted]
    exact fun e he=>hknown _ (h.admitted_known e he)
  · rw [hanalyzed]
    intro r hr hsha
    rcases mem_append.mp hr with hr | hr
    · exact hknown _ (h.analyzed_known r hr hsha)
    · obtain rfl:=mem_singleton.mp hr
      change (List.lookup report.inputSha256 (if report.inputSha256.toList.isEmpty
        then s.firstBySha else s.firstBySha.emplace report.inputSha256 cur.path)).isSome = true
      rw [if_neg (by simpa using hsha)]
      exact FirstBySha.isSome_lookup_emplace_self _ _ _

variable {env : Environment}

theorem step_cases {sorter:StdSort} (h:s.step sorter env=some t) :
    (∃cur child children,s.current=some cur ∧ cur.children=child::children ∧
      t = { s.considerChild cur.node child (env.probe s.reports.length child.path) with
        current:=some {cur with children} }) ∨
    (∃cur,s.current=some cur ∧ cur.children=[] ∧
      t = {s with reports:=s.reports++[cur.toNodeReport],current:=none}) ∨
    (∃cur queue,s.current=none ∧ s.queue=cur::queue ∧
      t = GraphLoop.analyzeNext sorter env {s with queue} cur):=by
  unfold GraphLoop.step at h
  cases hcur : s.current with
  | some cur=>
    obtain ⟨node,children⟩:=cur
    rw [hcur] at h
    cases children with
    | nil=>exact .inr (.inl ⟨_,rfl,rfl,(some.inj h).symm⟩)
    | cons child children=>exact .inl ⟨_,child,children,rfl,rfl,(some.inj h).symm⟩
  | none=>
    rw [hcur] at h
    cases hqueue : s.queue with
    | nil=>
      rw [hqueue] at h
      cases h
    | cons cur queue=>
      rw [hqueue] at h
      exact .inr (.inr ⟨cur,queue,rfl,rfl,(some.inj h).symm⟩)

theorem graphInvariant_step {sorter:StdSort} (s t:GraphLoop) (h:GraphInvariant sorter opt s)
    (hstep:s.step sorter env=some t) :
    GraphInvariant sorter opt t:=by
  obtain ⟨cur,child,children,hcur,hchildren,rfl⟩ | ⟨cur,hcur,hchildren,rfl⟩ |
    ⟨cur,queue,hcur,hqueue,rfl⟩:=step_cases hstep
  · obtain ⟨e,ht,hcase⟩:=
      considerChild_spec s cur.node child (env.probe s.reports.length child.path)
    exact h.considered hcur hchildren ht hcase
  · exact h.closed hcur hchildren
  · exact h.analyzed env hcur hqueue

theorem graphInvariant_reachable {sorter:StdSort} {files:List NativePath}
    (h:Reachable (GraphLoop.step sorter env) (.start opt files) s) :
    GraphInvariant sorter opt s:=
  h.invariant _ (graphInvariant_start sorter opt files) graphInvariant_step

/-- What is left to do: nodes that may still be analysed, then turns on the current one. -/
def work (opt : Limits) (s : GraphLoop) : ℕ ×ₗ ℕ :=
  toLex (opt.artifactMaxNodes-s.analyzed.length,
    (s.current.toList.map fun c => c.children.length+1).sum)

theorem work_step {sorter:StdSort} (s t:GraphLoop) (h:GraphInvariant sorter opt s)
    (hstep:s.step sorter env=some t) :
    work opt t<work opt s:=by
  have ht:=graphInvariant_step s t h hstep
  rw [work,work,Prod.Lex.toLex_lt_toLex]
  obtain ⟨cur,child,children,hcur,hchildren,rfl⟩ | ⟨cur,hcur,hchildren,rfl⟩ |
    ⟨cur,queue,hcur,hqueue,rfl⟩:=step_cases hstep
  · obtain ⟨e,hconsidered,-⟩:=
      considerChild_spec s cur.node child (env.probe s.reports.length child.path)
    refine .inr ⟨?_,?_⟩
    · simp [GraphLoop.analyzed,hconsidered.reports,hcur]
    · simp [hcur,hchildren]
  · refine .inr ⟨?_,?_⟩
    · simp [GraphLoop.analyzed,hcur]
    · simp [hcur]
  · refine .inl ?_
    have hroom:=ht.occupied
    have hlen : (GraphLoop.analyzeNext sorter env {s with queue} cur).analyzed.length =
        s.analyzed.length + 1:=by
      simp [GraphLoop.analyzed,GraphLoop.analyzeNext,hcur]
    rw [hlen] at hroom ⊢
    omega

/-- The loop ends, whatever the extractors deliver. -/
theorem graph_halts (opt:Limits) (env:Environment) (files:List NativePath) :
    ∃s,Reachable (GraphLoop.step sorter env) (.start opt files) s ∧
      s.step sorter env=none:=
  halts_of_measure wellFounded_lt (work opt) graphInvariant_step work_step
    (graphInvariant_start sorter opt files)

/-- An admitted child has a hash that no node analysed before and no child admitted before
it had. -/
theorem admitted_is_new {sorter:StdSort} (h:GraphInvariant sorter opt s)
    (hstep:s.step sorter env=some t) (hedges:t.graph.edges=s.graph.edges++[e])
    (hstate:e.state=some .admitted) :
    (∀r∈s.analyzed,r.report.inputSha256≠e.sha256) ∧
      ∀e'∈admittedEdges s.graph,e'.sha256≠e.sha256:=by
  have hsame : ∀g : ArtifactGraphInfo,SameBudget s.graph g → g.edges≠s.graph.edges++[e]:=by
    intro g hg heq
    have hlen:=congrArg List.length (hg.edges.symm.trans heq)
    simp at hlen
  obtain ⟨cur,child,children,hcur,hchildren,rfl⟩ | ⟨cur,hcur,hchildren,rfl⟩ |
    ⟨cur,queue,hcur,hqueue,rfl⟩:=step_cases hstep
  · obtain ⟨e₁,hconsidered,hcase⟩:=
      considerChild_spec s cur.node child (env.probe s.reports.length child.path)
    obtain rfl : e₁=e:=by
      have heq:=hconsidered.edges.symm.trans hedges
      simpa using heq
    rcases hcase with haway | hin
    · exact absurd hstate haway.state
    refine ⟨fun r hr heq=>?_,fun e' he' heq=>?_⟩
    · have hknown:=h.analyzed_known r hr (heq▸hin.sha)
      rw [heq,hin.unknown] at hknown
      cases hknown
    · have hknown:=h.admitted_known e' he'
      rw [heq,hin.unknown] at hknown
      cases hknown
  · exact absurd hedges (hsame s.graph ⟨rfl,rfl,rfl,rfl,rfl,rfl⟩)
  · exact absurd hedges (hsame _ (analyzeNext_budget sorter env {s with queue} cur))

/-- The bounds of the recursive graph. -/
structure GraphBudgets (sorter : StdSort) (opt : Limits) (s : GraphLoop) : Prop where
  nodes : s.analyzed.length≤opt.artifactMaxNodes
  depth : ∀ r∈s.analyzed, r.node.depth≤opt.artifactMaxDepth
  bytes : s.graph.admittedBytes≤opt.artifactMaxBytes
  bytes_sum : s.graph.admittedBytes=min (admittedSizes s.graph) Word64.maxValue
  /-- The children taken in are the admitted ones, in order. -/
  children : (s.nodes.filter (!·.root)).map (·.key) = (admittedEdges s.graph).map (·.key)
  distinct : ((admittedEdges s.graph).map (·.sha256)).Nodup
  /-- One edge for every child of every analysed report, up to those still to come. -/
  edges : s.graph.edges.map (·.key) ++ s.remaining = s.analyzed.flatMap (childKeys sorter)
  decided : ∀ e∈s.graph.edges, e.state.isSome=true

/-- The recursion ends, its graph is within every budget all along, and a child is only
admitted with a hash that is new. -/
theorem recursive_graph_budgets (sorter : StdSort) (opt : Limits) (env : Environment)
    (files : List NativePath) :
    (∃ s, Reachable (GraphLoop.step sorter env) (.start opt files) s ∧ s.step sorter env=none) ∧
    ∀ s, Reachable (GraphLoop.step sorter env) (.start opt files) s → GraphBudgets sorter opt s ∧
      ∀ t, s.step sorter env=some t → ∀ e, t.graph.edges=s.graph.edges++[e] →
        e.state=some .admitted →
        (∀ r∈s.analyzed, r.report.inputSha256≠e.sha256) ∧
          ∀ e'∈admittedEdges s.graph, e'.sha256≠e.sha256 := by
  refine ⟨graph_halts sorter opt env files,fun s hs=>?_⟩
  have h:=graphInvariant_reachable hs
  refine ⟨⟨(Nat.le_add_right _ _).trans h.occupied,fun r hr=>?_,h.bytes,h.bytes_sum,
    h.children,h.distinct,h.edges,h.decided⟩,
    fun t hstep e hedges hstate=>admitted_is_new h hstep hedges hstate⟩
  exact h.depth r.node (mem_append_left _ (mem_map_of_mem hr))

def Limits.commandLine : Limits :=
  ⟨4,1024,512*1024*1024,by decide,by decide,by decide⟩

/-- Every input has the same contents. -/
def twinInputs : Environment where
  analyzeFile _ _ _ := {inputSha256 := "6b86b273"}
  probe _ _ := {size:=some 1,sha256 := "6b86b273"}

/-- An archive with two members of `2 ^ 63` bytes. -/
def hugeMembers : Environment where
  analyzeFile
    | 0, _, _ => {inputSha256 := "6b86b273",asarValid:=true,asarFiles:=[⟨"a"⟩,⟨"b"⟩]}
    | _, _, _ => {inputSha256 := "d4735e3a"}
  probe _ path := {size:=some (2^63),sha256:=path.native}

theorem recursive_graph_budgets_hugeMembers :
    let start:=GraphLoop.start Limits.commandLine [⟨"x"⟩]
    let s:=iterate (GraphLoop.step insertionStdSort hugeMembers) 1 start
    GraphBudgets insertionStdSort Limits.commandLine s:=
  ((recursive_graph_budgets insertionStdSort Limits.commandLine hugeMembers [⟨"x"⟩]).2 _
    (reachable_iterate 1 _)).1

/-- Two inputs with the same contents are both analysed, and the byte total saturates. -/
theorem recursive_graph_budgets_not_exact :
    (¬ ∀(opt:Limits) (env:Environment) (files:List NativePath) (s:GraphLoop),
      Reachable (GraphLoop.step insertionStdSort env) (.start opt files) s →
      (s.analyzed.map (·.report.inputSha256)).Nodup) ∧
    ¬ ∀(opt:Limits) (env:Environment) (files:List NativePath) (s:GraphLoop),
      Reachable (GraphLoop.step insertionStdSort env) (.start opt files) s →
      s.graph.admittedBytes=admittedSizes s.graph:=by
  refine ⟨fun h=>?_,fun h=>?_⟩
  · have hnodup:=h Limits.commandLine twinInputs [⟨"a"⟩,⟨"b"⟩] _ (reachable_iterate 4 _)
    revert hnodup
    decide
  · have hsum:=h ⟨4,1024,2^64-1,by decide,by decide,by decide⟩ hugeMembers [⟨"x"⟩] _
      (reachable_iterate 4 _)
    revert hsum
    decide

end AutoRefirst.ArtifactGraph
