import AutoRefirst.StaticChildTurns
import Mathlib.Data.List.Induction

/-!
# Duplicates in artifact graphs

Which hashes the static loops know, and where each came from: the input, an edge of an
earlier pass, or a child whose analysis was attempted. Two questions are answered with
it: whether a duplicate is recognised before any budget is asked, and whether what it is
a duplicate of was analysed.
-/

namespace AutoRefirst.ArtifactGraph
open List Option

open GreedySelection StepMachine

def ArtifactGraphEdge.analyzed (e : ArtifactGraphEdge) : Bool :=
  e.state == some .analyzedStatic || e.state == some .analyzedReportWriteFailed

structure KnownHashes (input : NativePath) (inputSha256 : String)
    (prior new : List ArtifactGraphEdge) (m : FirstBySha) : Prop where
  input_known : inputSha256.toList.isEmpty=false → m.lookup inputSha256 = some input
  analyzed_known : ∀ e∈prior++new, e.sha256.toList.isEmpty=false → e.analyzed=true →
    (m.lookup e.sha256).isSome = true
  /-- The path of a hash is the input, the first earlier edge with it, or an attempted child. -/
  origin : ∀ sha first, m.lookup sha = some first →
    (first=input ∧ sha=inputSha256) ∨
    (∃ e, prior.find? (·.sha256 == sha) = some e ∧ e.child=first) ∨
    ∃ e∈new, e.sha256=sha ∧ e.child=first ∧
      ∃ state, e.state = some state ∧ attempted state = true

theorem KnownHashes.input_seed (input:NativePath) (inputSha256:String) :
    KnownHashes input inputSha256 [] [] (seedInput inputSha256 input):=by
  unfold seedInput
  split
  · rename_i hempty
    exact ⟨fun h=>absurd hempty (by simp [h]),by simp,by simp⟩
  · refine ⟨fun _=>by simp [FirstBySha.lookup_emplace],by simp,?_⟩
    intro sha first h
    rw [FirstBySha.lookup_emplace,lookup_nil,none_or] at h
    by_cases heq : sha=inputSha256
    · simp only [heq,beq_self_eq_true,if_true,some.injEq] at h
      exact .inl ⟨h.symm,heq⟩
    · simp [heq] at h

variable {e : ArtifactGraphEdge}

private theorem find?_append_singleton {prior:List ArtifactGraphEdge} {e':ArtifactGraphEdge}
    {sha:String} (h:prior.find? (·.sha256 == sha)=some e) :
    (prior++[e']).find? (·.sha256 == sha)=some e:=by
  rw [find?_append,h]
  rfl

variable {m : FirstBySha}

/-- Each earlier edge with a hash is known, the first one by its own path. -/
theorem KnownHashes.prior_seed {input:NativePath} {inputSha256:String}
    (h:KnownHashes input inputSha256 [] [] m) (prior:List ArtifactGraphEdge) :
    KnownHashes input inputSha256 prior [] (BoundedLoop.seedEdges m prior) ∧
      ∀e∈prior,e.sha256.toList.isEmpty=false →
        ((BoundedLoop.seedEdges m prior).lookup e.sha256).isSome=true:=by
  induction prior using List.reverseRecOn with
  | nil=>exact ⟨h,by simp⟩
  | append_singleton prior e ih=>
    obtain ⟨ih,hall⟩:=ih
    have hseed : BoundedLoop.seedEdges m (prior++[e]) =
        if e.sha256.toList.isEmpty then BoundedLoop.seedEdges m prior
        else (BoundedLoop.seedEdges m prior).emplace e.sha256 e.child:=by
      simp [BoundedLoop.seedEdges]
    have hknown : ∀sha,((BoundedLoop.seedEdges m prior).lookup sha).isSome=true →
        ((BoundedLoop.seedEdges m (prior++[e])).lookup sha).isSome=true:=by
      intro sha hsha
      rw [hseed]
      split
      · exact hsha
      · exact FirstBySha.isSome_lookup_emplace hsha
    have hall' : ∀e'∈prior++[e],e'.sha256.toList.isEmpty=false →
        ((BoundedLoop.seedEdges m (prior++[e])).lookup e'.sha256).isSome=true:=by
      intro e' he' hsha
      rcases mem_append.mp he' with he' | he'
      · exact hknown _ (hall e' he' hsha)
      · obtain rfl:=mem_singleton.mp he'
        rw [hseed,if_neg (by simpa using hsha)]
        exact FirstBySha.isSome_lookup_emplace_self _ _ _
    have hinput : inputSha256.toList.isEmpty=false →
        (BoundedLoop.seedEdges m (prior++[e])).lookup inputSha256=some input:=by
      intro hsha
      rw [hseed]
      split
      · exact ih.input_known hsha
      · exact FirstBySha.lookup_emplace_of_some (ih.input_known hsha)
    refine ⟨⟨hinput,?_,?_⟩,hall'⟩
    · intro e' he' hsha _
      rw [append_nil] at he'
      exact hall' e' he' hsha
    · intro sha first hlookup
      rw [hseed] at hlookup
      have hold : (BoundedLoop.seedEdges m prior).lookup sha=some first →
          (first=input ∧ sha=inputSha256) ∨
          (∃e',(prior++[e]).find? (·.sha256 == sha)=some e' ∧ e'.child=first) ∨
          ∃e'∈([] : List ArtifactGraphEdge),e'.sha256=sha ∧ e'.child=first ∧
            ∃state,e'.state=some state ∧ attempted state=true:=by
        intro hlookup
        rcases ih.origin sha first hlookup with hinput | ⟨e',he',hchild⟩ | ⟨e',he',-⟩
        · exact .inl hinput
        · exact .inr (.inl ⟨e',find?_append_singleton he',hchild⟩)
        · cases he'
      split at hlookup
      · exact hold hlookup
      · rename_i hnonempty
        rw [FirstBySha.lookup_emplace] at hlookup
        cases hm : (BoundedLoop.seedEdges m prior).lookup sha with
        | some first'=>
          rw [hm,some_or,some.injEq] at hlookup
          exact hold (hm.trans (congrArg some hlookup))
        | none=>
          rw [hm,none_or] at hlookup
          by_cases heq : sha=e.sha256
          · subst heq
            simp only [beq_self_eq_true,if_true,some.injEq] at hlookup
            -- no earlier edge has this hash, or it would be known
            have hfirst : prior.find? (·.sha256 == e.sha256)=none:=by
              refine find?_eq_none.mpr fun e' he' heq=>?_
              have hsha : e'.sha256=e.sha256:=by simpa using heq
              have hsome:=hall e' he' (hsha▸by simpa using hnonempty)
              rw [hsha,hm] at hsome
              cases hsome
            refine .inr (.inl ⟨e,?_,hlookup⟩)
            rw [find?_append,hfirst]
            simp
          · simp [heq] at hlookup

variable {m' : FirstBySha}

theorem KnownHashes.turn {input:NativePath} {inputSha256:String}
    {prior new:List ArtifactGraphEdge} (h:KnownHashes input inputSha256 prior new m)
    (hturn:TurnOutcome m e m') :
    KnownHashes input inputSha256 prior (new++[e]) m':=by
  have hsame : e.sha256.toList.isEmpty=true ∨ e.analyzed=false →
      KnownHashes input inputSha256 prior (new++[e]) m:=by
    intro he
    refine ⟨h.input_known,?_,?_⟩
    · intro e' he' hsha hanalyzed
      rw [← append_assoc,mem_append,mem_singleton] at he'
      rcases he' with he' | rfl
      · exact h.analyzed_known e' he' hsha hanalyzed
      · rcases he with he | he
        · rw [he] at hsha
          cases hsha
        · rw [he] at hanalyzed
          cases hanalyzed
    · intro sha first hlookup
      rcases h.origin sha first hlookup with hinput | hprior | ⟨e',he',horigin⟩
      · exact .inl hinput
      · exact .inr (.inl hprior)
      · exact .inr (.inr ⟨e',mem_append_left _ he',horigin⟩)
  cases hturn with
  | refused hsha hstate=>exact hsame (.inl hsha)
  | duplicate hsha hknown hstate=>
    exact hsame (.inr (by simp [ArtifactGraphEdge.analyzed,hstate]))
  | @outside state hsha hnew hstate hlimited=>
    refine hsame (.inr ?_)
    cases state <;> simp_all [ArtifactGraphEdge.analyzed,limited]
  | @tried state hsha hnew hstate hattempted=>
    refine ⟨fun hinput=>FirstBySha.lookup_emplace_of_some (h.input_known hinput),?_,?_⟩
    · intro e' he' hsha' hanalyzed
      rw [← append_assoc,mem_append,mem_singleton] at he'
      rcases he' with he' | rfl
      · exact FirstBySha.isSome_lookup_emplace (h.analyzed_known e' he' hsha' hanalyzed)
      · exact FirstBySha.isSome_lookup_emplace_self _ _ _
    · intro sha first hlookup
      rw [FirstBySha.lookup_emplace] at hlookup
      cases hm : m.lookup sha with
      | some first'=>
        rw [hm,some_or,some.injEq] at hlookup
        rcases h.origin sha first (hm.trans (congrArg some hlookup)) with
          hinput | hprior | ⟨e',he',horigin⟩
        · exact .inl hinput
        · exact .inr (.inl hprior)
        · exact .inr (.inr ⟨e',mem_append_left _ he',horigin⟩)
      | none=>
        rw [hm,none_or] at hlookup
        by_cases heq : sha=e.sha256
        · subst heq
          simp only [beq_self_eq_true,if_true,some.injEq] at hlookup
          exact .inr (.inr ⟨e,mem_append_right _ (mem_singleton_self e),rfl,
            hlookup,state,hstate,hattempted⟩)
        · simp [heq] at hlookup

section Runs
variable {opt : Limits} {input root : NativePath} {inputSha256 : String}

theorem StaticLoop.step_cases {env:StaticEnvironment} {s t:StaticLoop}
    (h:s.step env=some t) : ∃cur queue,s.queue=cur::queue ∧
      t = considerChild env s.graph.edges.length {s with queue} cur:=by
  unfold step at h
  cases hqueue : s.queue with
  | nil=>
    rw [hqueue] at h
    cases h
  | cons cur queue=>
    rw [hqueue] at h
    exact ⟨cur,queue,rfl,(some.inj h).symm⟩

theorem StaticLoop.knownHashes {env:StaticEnvironment} {artifacts:List AnalysisArtifact}
    {materialization:Materialization} {s:StaticLoop}
    (h:Reachable (step env) (start opt input inputSha256 artifacts materialization) s) :
    KnownHashes input inputSha256 [] s.graph.edges s.firstBySha:=by
  refine h.invariant (fun s=>KnownHashes input inputSha256 [] s.graph.edges s.firstBySha)
    (KnownHashes.input_seed input inputSha256) ?_
  intro a b hknown hstep
  obtain ⟨cur,queue,-,rfl⟩:=step_cases hstep
  obtain ⟨e,hturn,-⟩:=considerChild_spec env a.graph.edges.length {a with queue} cur
  rw [hturn.edges]
  exact hknown.turn hturn.outcome

theorem BoundedLoop.step_cases {env:BoundedEnvironment} {budget:DirectoryBudget}
    {s t:BoundedLoop} (h:s.step env budget input root=some t) :
    ∃a selected,s.selected=a::selected ∧ ((automaticStaticChildCandidate a=true ∧
        t = considerChild env budget input root s.graph.edges.length {s with selected} a) ∨
      (automaticStaticChildCandidate a=false ∧ t = {s with selected})):=by
  unfold step at h
  cases hselected : s.selected with
  | nil=>
    rw [hselected] at h
    cases h
  | cons a selected=>
    rw [hselected] at h
    cases hcandidate : automaticStaticChildCandidate a with
    | true=>
      simp only [hcandidate,if_true,some.injEq] at h
      exact ⟨a,selected,rfl,.inl ⟨hcandidate,h.symm⟩⟩
    | false=>
      simp only [hcandidate,Bool.false_eq_true,if_false,some.injEq] at h
      exact ⟨a,selected,rfl,.inr ⟨hcandidate,h.symm⟩⟩

/-- The edges that an earlier pass left. -/
def BoundedLoop.prior (opt : Limits) (graph : ArtifactGraphInfo) : List ArtifactGraphEdge :=
  (startGraph opt graph).edges

theorem BoundedLoop.knownHashes {env:BoundedEnvironment} {budget:DirectoryBudget}
    {graph:ArtifactGraphInfo} {selected:List AnalysisArtifact}
    {materialization:Materialization} {bytes files:ℕ} {disk:ArtifactDisk} {s:BoundedLoop}
    (h:Reachable (step env budget input root)
      (start opt input inputSha256 graph selected materialization bytes files disk) s) :
    ∃new,s.graph.edges = prior opt graph++new ∧
      KnownHashes input inputSha256 (prior opt graph) new s.firstBySha:=by
  refine h.invariant (fun s=>∃new,s.graph.edges = prior opt graph++new ∧
    KnownHashes input inputSha256 (prior opt graph) new s.firstBySha) ?_ ?_
  · exact ⟨[],(append_nil _).symm,
      ((KnownHashes.input_seed input inputSha256).prior_seed _).1⟩
  · rintro a b ⟨new,hedges,hknown⟩ hstep
    obtain ⟨artifact,selected,-,⟨-,rfl⟩ | ⟨-,rfl⟩⟩:=step_cases hstep
    · obtain ⟨e,hturn,-⟩:=considerChild_spec env budget input root a.graph.edges.length
        {a with selected} artifact
      refine ⟨new++[e],?_,hknown.turn hturn.outcome⟩
      rw [hturn.edges,← append_assoc,← hedges]
    · exact ⟨new,hedges,hknown⟩

end Runs

def DuplicateEdge (g g' : ArtifactGraphInfo) (edge : ArtifactGraphEdge) : Prop :=
  ∃ first, g'.edges = g.edges ++
    [{edge with duplicateOf:=first,state:=some .duplicateSkipped}]

/-- No admission was counted and no limit was reported. -/
structure Unspent (g g' : ArtifactGraphInfo) : Prop where
  nodes : g'.nodes=g.nodes
  admittedBytes : g'.admittedBytes=g.admittedBytes
  skippedLimits : g'.skippedLimits=g.skippedLimits
  truncated : g'.truncated=g.truncated

theorem duplicateEdge_pushDuplicate (g:ArtifactGraphInfo) (edge:ArtifactGraphEdge)
    (first:NativePath) (size:ℕ) :
    DuplicateEdge g ((g.materialize size).pushDuplicate edge first) edge ∧
      Unspent g ((g.materialize size).pushDuplicate edge first):=
  ⟨⟨first,rfl⟩,⟨rfl,rfl,rfl,rfl⟩⟩

def GraphLoop.Knows (s : GraphLoop) (sha : String) : Prop :=
  (∃ r∈s.analyzed, r.report.inputSha256=sha) ∨ ∃ e ∈ admittedEdges s.graph, e.sha256=sha

variable {s : GraphLoop}

/-- A known hash in the recursive loop: the byte limit is asked first, about all bytes that
were materialized, this child's included. -/
theorem GraphLoop.considerChild_known {cur:PendingArtifact} {child:ArtifactCandidate}
    {st:FileProbe} {edge:ArtifactGraphEdge}
    (hsafe:st.identify (newEdge cur child)=(edge,true))
    (hknown:(s.firstBySha.lookup edge.sha256).isSome=true) :
    (DuplicateEdge s.graph (s.considerChild cur child st).graph edge ↔
      satAdd s.graph.materializedBytes edge.size ≤ s.graph.maxTotalBytes) ∧
    (DuplicateEdge s.graph (s.considerChild cur child st).graph edge →
      Unspent s.graph (s.considerChild cur child st).graph ∧
      (s.considerChild cur child st).queue=s.queue ∧
      (s.considerChild cur child st).graph.materializedBytes =
        satAdd s.graph.materializedBytes edge.size):=by
  obtain ⟨first,hfirst⟩:=isSome_iff_exists.mp hknown
  by_cases hfits : satAdd s.graph.materializedBytes edge.size ≤ s.graph.maxTotalBytes
  · have hturn : s.considerChild cur child st =
        {s with graph:=(s.graph.materialize edge.size).pushDuplicate edge first}:=by
      have hguard : ¬(s.graph.materialize edge.size).materializedBytes >
          (s.graph.materialize edge.size).maxTotalBytes:=Nat.not_lt.mpr hfits
      simp only [considerChild,hsafe,hguard,if_false,hfirst]
    rw [hturn]
    obtain ⟨hedge,hunspent⟩:=duplicateEdge_pushDuplicate s.graph edge first edge.size
    exact ⟨⟨fun _=>hfits,fun _=>hedge⟩,fun _=>⟨hunspent,rfl,rfl⟩⟩
  · have hedges : (s.considerChild cur child st).graph.edges =
        s.graph.edges++[{edge with state:=some .skippedByteLimit}]:=by
      have hguard : (s.graph.materialize edge.size).materializedBytes >
          (s.graph.materialize edge.size).maxTotalBytes:=Nat.lt_of_not_le hfits
      simp only [considerChild,hsafe,hguard,if_true]
      rfl
    have hno : ¬DuplicateEdge s.graph (s.considerChild cur child st).graph edge:=by
      rintro ⟨first,hdup⟩
      simp [hedges] at hdup
    exact ⟨⟨fun h=>absurd h hno,fun h=>absurd h hfits⟩,fun h=>absurd h hno⟩

theorem GraphLoop.isSome_lookup_of_knows {sorter:StdSort} {opt:Limits}
    (h:GraphInvariant sorter opt s) {sha:String} (hsha:sha.toList.isEmpty=false)
    (hknows:s.Knows sha) : (s.firstBySha.lookup sha).isSome=true:=by
  rcases hknows with ⟨r,hr,rfl⟩ | ⟨e,he,rfl⟩
  · exact h.analyzed_known r hr hsha
  · exact h.admitted_known e he

theorem GraphLoop.step_child {sorter:StdSort} {env:Environment} {cur:CurrentNode}
    {child:ArtifactCandidate} {children:List ArtifactCandidate} (hcur:s.current=some cur)
    (hchildren:cur.children=child::children) :
    s.step sorter env =
      some { s.considerChild cur.node child (env.probe s.reports.length child.path) with
        current:=some {cur with children} }:=by
  obtain ⟨node,children'⟩:=cur
  subst hchildren
  rw [step,hcur]

theorem BoundedLoop.step_candidate {env:BoundedEnvironment} {budget:DirectoryBudget}
    {input root:NativePath} {s:BoundedLoop} {a:AnalysisArtifact}
    {selected:List AnalysisArtifact} (hselected:s.selected=a::selected)
    (hcandidate:automaticStaticChildCandidate a=true) :
    s.step env budget input root =
      some (considerChild env budget input root s.graph.edges.length {s with selected} a):=by
  rw [step,hselected]
  simp only [hcandidate,if_true]

/-- In the recursive loop a known child is a duplicate exactly while the materialized bytes,
its own included, are within the limit, and it leaves every counter that a limit is compared
with alone exactly when it also adds no byte to them. In the two static loops it always is a
duplicate and costs nothing. -/
theorem duplicates_precede_budgets (sorter : StdSort) (opt : Limits) :
    (∀ (env : Environment) (files : List NativePath) (s : GraphLoop),
      Reachable (GraphLoop.step sorter env) (.start opt files) s →
      ∀ cur child children edge, s.current=some cur → cur.children=child::children →
      (env.probe s.reports.length child.path).identify (GraphLoop.newEdge cur.node child) =
        (edge,true) → s.Knows edge.sha256 →
      ∃ t, s.step sorter env=some t ∧ (DuplicateEdge s.graph t.graph edge ↔
          satAdd s.graph.materializedBytes edge.size ≤ s.graph.maxTotalBytes) ∧
        ((DuplicateEdge s.graph t.graph edge ∧ Unspent s.graph t.graph ∧ t.queue=s.queue ∧
          t.graph.materializedBytes=s.graph.materializedBytes) ↔
          satAdd s.graph.materializedBytes edge.size ≤ s.graph.maxTotalBytes ∧
            satAdd s.graph.materializedBytes edge.size=s.graph.materializedBytes)) ∧
    (∀ (env : StaticEnvironment) (input : NativePath) (inputSha256 : String)
      (artifacts : List AnalysisArtifact) (materialization : Materialization) (s : StaticLoop),
      Reachable (StaticLoop.step env) (.start opt input inputSha256 artifacts materialization) s →
      ∀ cur queue edge, s.queue=cur::queue →
      (env.probe s.graph.edges.length cur.artifact.path).identify (StaticLoop.newEdge cur) =
        (edge,true) →
      (edge.sha256=inputSha256 ∨ ∃ e∈s.graph.edges, e.sha256=edge.sha256 ∧ e.analyzed=true) →
      ∃ t, s.step env=some t ∧ DuplicateEdge s.graph t.graph edge ∧ Unspent s.graph t.graph) ∧
    (∀ (env : BoundedEnvironment) (budget : DirectoryBudget) (input root : NativePath)
      (inputSha256 : String) (graph : ArtifactGraphInfo) (selected : List AnalysisArtifact)
      (materialization : Materialization) (bytes files : ℕ) (disk : ArtifactDisk) (s : BoundedLoop),
      Reachable (BoundedLoop.step env budget input root)
        (.start opt input inputSha256 graph selected materialization bytes files disk) s →
      ∀ a selected edge, s.selected=a::selected → automaticStaticChildCandidate a=true →
      (BoundedLoop.probeArtifact env s.graph.edges.length a).identify
        (BoundedLoop.newEdge input a)=(edge,true) →
      (edge.sha256=inputSha256 ∨ ∃ e∈s.graph.edges, e.sha256=edge.sha256 ∧ e.analyzed=true) →
      ∃ t, s.step env budget input root=some t ∧ DuplicateEdge s.graph t.graph edge ∧
        Unspent s.graph t.graph ∧ t.directoryBytesUsed=s.directoryBytesUsed ∧
        t.directoryFilesUsed=s.directoryFilesUsed) := by
  refine ⟨?_,?_,?_⟩
  · intro env files s hs cur child children edge hcur hchildren hsafe hknows
    have hsha : edge.sha256.toList.isEmpty=false:=by
      have:=FileProbe.identify_sha (congrArg Prod.snd hsafe)
      rwa [hsafe] at this
    have hknown:=GraphLoop.isSome_lookup_of_knows (graphInvariant_reachable hs) hsha hknows
    obtain ⟨hiff,hcounters⟩:=GraphLoop.considerChild_known hsafe hknown
    refine ⟨_,GraphLoop.step_child hcur hchildren,hiff,⟨?_,?_⟩⟩
    · rintro ⟨hedge,-,-,hbytes⟩
      exact ⟨hiff.mp hedge,(hcounters hedge).2.2.symm.trans hbytes⟩
    · rintro ⟨hfits,hsame⟩
      obtain ⟨hunspent,hqueue,hbytes⟩:=hcounters (hiff.mpr hfits)
      exact ⟨hiff.mpr hfits,hunspent,hqueue,hbytes.trans hsame⟩
  · intro env input inputSha256 artifacts materialization s hs cur queue edge hqueue hsafe hknows
    have hsha : edge.sha256.toList.isEmpty=false:=by
      have:=FileProbe.identify_sha (congrArg Prod.snd hsafe)
      rwa [hsafe] at this
    have hhashes:=StaticLoop.knownHashes hs
    have hknown : (s.firstBySha.lookup edge.sha256).isSome=true:=by
      rcases hknows with heq | ⟨e,he,heq,hanalyzed⟩
      · rw [heq,hhashes.input_known (heq▸hsha)]
        rfl
      · rw [← heq]
        exact hhashes.analyzed_known e he (heq▸hsha) hanalyzed
    obtain ⟨first,hfirst⟩:=isSome_iff_exists.mp hknown
    obtain ⟨hedge,hunspent⟩:=duplicateEdge_pushDuplicate s.graph edge first edge.size
    refine ⟨_,by rw [StaticLoop.step,hqueue],?_⟩
    rw [StaticLoop.considerChild_duplicate (s:={s with queue}) hsafe hfirst]
    exact ⟨hedge,hunspent⟩
  · intro env budget input root inputSha256 graph selected₀ materialization bytes files disk s hs a
      selected edge hselected hcandidate hsafe hknows
    have hsha : edge.sha256.toList.isEmpty=false:=by
      have:=FileProbe.identify_sha (congrArg Prod.snd hsafe)
      rwa [hsafe] at this
    obtain ⟨new,hedges,hhashes⟩:=BoundedLoop.knownHashes hs
    have hknown : (s.firstBySha.lookup edge.sha256).isSome=true:=by
      rcases hknows with heq | ⟨e,he,heq,hanalyzed⟩
      · rw [heq,hhashes.input_known (heq▸hsha)]
        rfl
      · rw [← heq]
        exact hhashes.analyzed_known e (hedges▸he) (heq▸hsha) hanalyzed
    obtain ⟨first,hfirst⟩:=isSome_iff_exists.mp hknown
    obtain ⟨hedge,hunspent⟩:=duplicateEdge_pushDuplicate s.graph edge first edge.size
    refine ⟨_,BoundedLoop.step_candidate hselected hcandidate,?_⟩
    rw [BoundedLoop.considerChild_duplicate (s:={s with selected}) hsafe hfirst]
    exact ⟨hedge,hunspent,rfl,rfl⟩

/-- A small file, then an archive whose second member is a copy of it. -/
def copiedInput : Environment where
  analyzeFile
    | 0, _, _ => {inputSha256 := "6b86b273"}
    | 1, _, _ => {inputSha256 := "d4735e3a",asarValid:=true,asarFiles:=[⟨"x/a"⟩,⟨"x/b"⟩]}
    | _, _, _ => {inputSha256 := "4e074085"}
  probe _ path := {size:=some 10,sha256 := if path = ⟨"x/b"⟩ then "6b86b273" else "4e074085"}

def oneMemberLimits : Limits :=
  {Limits.commandLine with artifactMaxBytes:=15,bytes_le := by decide}

/-- The state in which the copy is considered. -/
def beforeCopy : GraphLoop :=
  iterate (GraphLoop.step insertionStdSort copiedInput) 4
    (.start oneMemberLimits [⟨"a"⟩,⟨"x"⟩])

theorem duplicates_precede_budgets_beforeCopy :
    ∃t, beforeCopy.step insertionStdSort copiedInput=some t ∧
      (DuplicateEdge beforeCopy.graph t.graph
        { parent:=⟨"x"⟩,child:=⟨"x/b"⟩,relation := "extracted:asar",sha256 := "6b86b273",
          size:=10,depth:=1 } ↔ satAdd 10 10≤15):=by
  obtain ⟨t,ht,hiff,-⟩:=
    (duplicates_precede_budgets insertionStdSort oneMemberLimits).1 copiedInput [⟨"a"⟩,⟨"x"⟩]
      beforeCopy (reachable_iterate 4 _) _ ⟨⟨"x/b"⟩,"extracted:asar"⟩ [] _ rfl rfl rfl
      (.inl ⟨_,mem_cons_self,rfl⟩)
  exact ⟨t,ht,hiff⟩

/-- The copy of an analysed input is turned away by the byte limit. -/
theorem known_child_skipped_for_bytes :
    ¬ ∀(opt:Limits) (env:Environment) (files:List NativePath) (s:GraphLoop),
      Reachable (GraphLoop.step insertionStdSort env) (.start opt files) s →
      ∀cur child children edge, s.current=some cur → cur.children=child::children →
      (env.probe s.reports.length child.path).identify (GraphLoop.newEdge cur.node child) =
        (edge,true) → s.Knows edge.sha256 →
      ∃t, s.step insertionStdSort env=some t ∧ DuplicateEdge s.graph t.graph edge:=by
  intro h
  obtain ⟨t,ht,first,hdup⟩:=h oneMemberLimits copiedInput [⟨"a"⟩,⟨"x"⟩] beforeCopy
    (reachable_iterate 4 _) _ ⟨⟨"x/b"⟩,"extracted:asar"⟩ [] _ rfl rfl rfl
    (.inl ⟨_,mem_cons_self,rfl⟩)
  have hstates : (beforeCopy.step insertionStdSort copiedInput).map
      (fun t=>t.graph.edges.map (·.state)) =
        some [some .admitted,some .skippedByteLimit]:=by decide
  have hbefore : beforeCopy.graph.edges.map (·.state)=[some .admitted]:=by decide
  rw [ht,map_some,hdup,map_append,hbefore] at hstates
  simp at hstates

def SoundDuplicate (input : NativePath) (inputSha256 : String) (edges : List ArtifactGraphEdge)
    (e : ArtifactGraphEdge) : Prop :=
  (e.duplicateOf=input ∧ e.sha256=inputSha256) ∨
    ∃ e'∈edges, e'.child=e.duplicateOf ∧ e'.sha256=e.sha256 ∧
      e'.state = some .analyzedStatic

theorem SoundDuplicate.append {input:NativePath} {inputSha256:String}
    {edges:List ArtifactGraphEdge} (h:SoundDuplicate input inputSha256 edges e)
    (edges':List ArtifactGraphEdge) :
    SoundDuplicate input inputSha256 (edges++edges') e:=by
  rcases h with hinput | ⟨e',he',hanalyzed⟩
  · exact .inl hinput
  · exact .inr ⟨e',mem_append_left _ he',hanalyzed⟩

/-- A child with this hash was admitted, and then its analysis or its report failed. -/
def FailedTwin (edges : List ArtifactGraphEdge) (sha : String) : Prop :=
  ∃ e∈edges, e.sha256=sha ∧
    ∃ state, e.state = some state ∧ attempted state = true ∧ state ≠ .analyzedStatic

/-- The first edge of the earlier pass with this hash, if there is one, stands for the input
or was analysed. -/
def PriorAnalyzed (inputSha256 : String) (prior : List ArtifactGraphEdge) (sha : String) : Prop :=
  ∀ e, prior.find? (·.sha256 == sha) = some e →
    sha = inputSha256 ∨ e.state = some .analyzedStatic

theorem KnownHashes.duplicate_sound {input:NativePath} {inputSha256:String}
    {prior new:List ArtifactGraphEdge} (h:KnownHashes input inputSha256 prior new m)
    (hturn:TurnOutcome m e m') (hdup:e.state=some .duplicateSkipped)
    (hprior:PriorAnalyzed inputSha256 prior e.sha256) (hnew:¬FailedTwin new e.sha256) :
    SoundDuplicate input inputSha256 (prior++new) e:=by
  cases hturn with
  | refused hsha hstate=>cases hstate.symm.trans hdup
  | outside hsha hunknown hstate hlimited=>
    obtain rfl:=some.inj (hstate.symm.trans hdup)
    cases hlimited
  | tried hsha hunknown hstate hattempted=>
    obtain rfl:=some.inj (hstate.symm.trans hdup)
    cases hattempted
  | duplicate hsha hknown _=>
    rcases h.origin e.sha256 e.duplicateOf hknown with
      ⟨hfirst,hsame⟩ | ⟨e',he',hchild⟩ | ⟨e',he',hsame,hchild,state,hstate,hattempted⟩
    · exact .inl ⟨hfirst,hsame⟩
    · rcases hprior e' he' with hsame | hanalyzed
      · have hfirst:=h.input_known (hsame▸hsha)
        rw [← hsame,hknown,some.injEq] at hfirst
        exact .inl ⟨hfirst,hsame⟩
      · have hmem:=mem_of_find?_eq_some he'
        have heq : e'.sha256=e.sha256:=by simpa using find?_some he'
        exact .inr ⟨e',mem_append_left _ hmem,hchild,heq,hanalyzed⟩
    · have hanalyzed : state=.analyzedStatic:=by
        by_contra hne
        exact hnew ⟨e',he',hsame,state,hstate,hattempted,hne⟩
      exact .inr ⟨e',mem_append_right _ he',hchild,hsame,hanalyzed▸hstate⟩

/-- Before a child with a known hash, no child with its hash has failed. -/
def StaticLoop.TwinsSucceed (env : StaticEnvironment) (s : StaticLoop) : Prop :=
  ∀ cur queue edge, s.queue=cur::queue →
    (env.probe s.graph.edges.length cur.artifact.path).identify (newEdge cur) = (edge,true) →
    (s.firstBySha.lookup edge.sha256).isSome = true → ¬FailedTwin s.graph.edges edge.sha256

/-- The same for the bounded pass, and if an earlier pass had an edge with this hash, the
first one stands for the input or was analysed. -/
def BoundedLoop.TwinsSucceed (env : BoundedEnvironment) (input : NativePath)
    (inputSha256 : String) (prior : List ArtifactGraphEdge) (s : BoundedLoop) : Prop :=
  ∀ a selected edge, s.selected=a::selected → automaticStaticChildCandidate a = true →
    (probeArtifact env s.graph.edges.length a).identify (newEdge input a) = (edge,true) →
    (s.firstBySha.lookup edge.sha256).isSome = true →
    PriorAnalyzed inputSha256 prior edge.sha256 ∧
      ¬FailedTwin (s.graph.edges.drop prior.length) edge.sha256

theorem safe_of_duplicate {st:FileProbe} {edge₀:ArtifactGraphEdge} (hnew:edge₀.sha256 = "")
    (hturn:TurnOutcome m e m') (hdup:e.state=some .duplicateSkipped)
    (hsha:e.sha256=(st.identify edge₀).1.sha256) :
    ∃edge,st.identify edge₀=(edge,true) ∧ edge.sha256=e.sha256 ∧
      (m.lookup e.sha256).isSome=true:=by
  cases hturn with
  | refused hempty hstate=>cases hstate.symm.trans hdup
  | outside hnonempty hunknown hstate hlimited=>
    obtain rfl:=some.inj (hstate.symm.trans hdup)
    cases hlimited
  | tried hnonempty hunknown hstate hattempted=>
    obtain rfl:=some.inj (hstate.symm.trans hdup)
    cases hattempted
  | duplicate hnonempty hknown _=>
    refine ⟨(st.identify edge₀).1,?_,hsha.symm,by rw [hknown];rfl⟩
    cases hsafe : (st.identify edge₀).2 with
    | true=>rw [← hsafe]
    | false=>
      have hempty:= FileProbe.identify_unsafe hnew hsafe
      rw [← hsha,hnonempty] at hempty
      cases hempty

/-- In every run in which no twin of a known child has failed, every duplicate the run adds
is sound. -/
theorem duplicates_are_analyzed (opt : Limits) (input : NativePath) (inputSha256 : String) :
    (∀ (env : StaticEnvironment) (artifacts : List AnalysisArtifact)
      (materialization : Materialization) (s : StaticLoop),
      RunsWhile (StaticLoop.step env) (StaticLoop.TwinsSucceed env)
        (.start opt input inputSha256 artifacts materialization) s →
      ∀ e∈s.graph.edges, e.state=some .duplicateSkipped →
        SoundDuplicate input inputSha256 s.graph.edges e) ∧
    (∀ (env : BoundedEnvironment) (budget : DirectoryBudget) (root : NativePath)
      (graph : ArtifactGraphInfo) (selected : List AnalysisArtifact)
      (materialization : Materialization) (bytes files : ℕ) (disk : ArtifactDisk) (s : BoundedLoop),
      RunsWhile (BoundedLoop.step env budget input root)
        (BoundedLoop.TwinsSucceed env input inputSha256 (BoundedLoop.prior opt graph))
        (.start opt input inputSha256 graph selected materialization bytes files disk) s →
      ∀ e∈s.graph.edges.drop (BoundedLoop.prior opt graph).length, e.state=some .duplicateSkipped →
        SoundDuplicate input inputSha256 s.graph.edges e) := by
  refine ⟨?_,?_⟩
  · intro env artifacts materialization s hs
    refine (hs.invariant (fun s=>KnownHashes input inputSha256 [] s.graph.edges s.firstBySha ∧
      ∀e∈s.graph.edges,e.state=some .duplicateSkipped →
        SoundDuplicate input inputSha256 s.graph.edges e)
      ⟨KnownHashes.input_seed input inputSha256,by simp [StaticLoop.start]⟩ ?_).2
    rintro a b hcond ⟨hknown,hsound⟩ hstep
    obtain ⟨cur,queue,hqueue,rfl⟩:=StaticLoop.step_cases hstep
    obtain ⟨e,hturn,hsha⟩:=StaticLoop.considerChild_spec env a.graph.edges.length {a with queue} cur
    rw [hturn.edges]
    refine ⟨hknown.turn hturn.outcome,fun e' he' hdup=>?_⟩
    rcases mem_append.mp he' with he' | he'
    · exact (hsound e' he' hdup).append [e]
    · obtain rfl:=mem_singleton.mp he'
      obtain ⟨edge,hsafe,hedge,hlookup⟩:=safe_of_duplicate rfl hturn.outcome hdup hsha
      have hfailed:=hcond cur queue edge hqueue hsafe (hedge▸hlookup)
      have hdup':=hknown.duplicate_sound hturn.outcome hdup
        (fun e'' he''=>by cases he'') (hedge▸hfailed)
      exact hdup'.append [e']
  · intro env budget root graph selected materialization bytes files disk s hs
    set prior:=BoundedLoop.prior opt graph
    have hinv : ∃new,s.graph.edges=prior++new ∧
        KnownHashes input inputSha256 prior new s.firstBySha ∧
        ∀e∈new,e.state=some .duplicateSkipped →
          SoundDuplicate input inputSha256 s.graph.edges e:=by
      refine hs.invariant (fun s=>∃new,s.graph.edges=prior++new ∧
        KnownHashes input inputSha256 prior new s.firstBySha ∧
        ∀e∈new,e.state=some .duplicateSkipped → SoundDuplicate input inputSha256 s.graph.edges e)
        ⟨[],(append_nil _).symm,
          ((KnownHashes.input_seed input inputSha256).prior_seed _).1,by simp⟩ ?_
      rintro a b hcond ⟨new,hedges,hknown,hsound⟩ hstep
      obtain ⟨artifact,selected,hselected,⟨hcandidate,rfl⟩ | ⟨-,rfl⟩⟩:=BoundedLoop.step_cases hstep
      · obtain ⟨e,hturn,hsha⟩:=BoundedLoop.considerChild_spec env budget input root
          a.graph.edges.length {a with selected} artifact
        refine ⟨new++[e],?_,hknown.turn hturn.outcome,fun e' he' hdup=>?_⟩
        · rw [hturn.edges,← append_assoc,← hedges]
        rw [hturn.edges]
        rcases mem_append.mp he' with he' | he'
        · exact (hsound e' he' hdup).append [e]
        · obtain rfl:=mem_singleton.mp he'
          obtain ⟨edge,hsafe,hedge,hlookup⟩:=safe_of_duplicate rfl hturn.outcome hdup hsha
          obtain ⟨hprior,hfailed⟩:=
            hcond artifact selected edge hselected hcandidate hsafe (hedge▸hlookup)
          rw [hedges,drop_left] at hfailed
          have hdup':=hknown.duplicate_sound hturn.outcome hdup (hedge▸hprior) (hedge▸hfailed)
          rw [← hedges] at hdup'
          exact hdup'.append [e']
      · exact ⟨new,hedges,hknown,hsound⟩
    obtain ⟨new,hedges,-,hsound⟩:=hinv
    rw [hedges,drop_left,← hedges]
    exact hsound

def highArtifact (name : String) : AnalysisArtifact :=
  { kind := "godot_pck",role := "member",relation := "extracted:godot-pck",priority := "HIGH",
    path:=⟨name⟩ }

/-- Every file has ten bytes and the same hash, and the directory of the child with number
`failing` cannot be made. -/
def twinChildren (failing : Option ℕ) : StaticEnvironment where
  probe _ _ := {size:=some 10,sha256 := "d4735e3a"}
  ensureSubdirectory turn :=
    if some turn = failing then some "artifact path component is not a directory: x/children"
    else none
  analyzeFile _ _ _ := []
  writeReport _ := none

def twinStart : StaticLoop :=
  .start Limits.commandLine ⟨"x"⟩ "6b86b273" [highArtifact "x/a",highArtifact "x/b"] {}

theorem duplicates_are_analyzed_twinChildren :
    ∃e∈(iterate (StaticLoop.step (twinChildren none)) 2 twinStart).graph.edges,
      e.state=some .duplicateSkipped ∧ SoundDuplicate ⟨"x"⟩ "6b86b273"
        (iterate (StaticLoop.step (twinChildren none)) 2 twinStart).graph.edges e:=by
  have hfirst : StaticLoop.TwinsSucceed (twinChildren none) twinStart:=by
    rintro cur queue edge - - - ⟨e,he,-⟩
    cases he
  have hsecond : StaticLoop.TwinsSucceed (twinChildren none)
      (iterate (StaticLoop.step (twinChildren none)) 1 twinStart):=by
    rintro cur queue edge - - - ⟨e,he,-,state,hstate,-,hne⟩
    obtain rfl:=mem_singleton.mp he
    exact hne (some.inj hstate).symm
  have hrun : RunsWhile (StaticLoop.step (twinChildren none))
      (StaticLoop.TwinsSucceed (twinChildren none)) twinStart
      (iterate (StaticLoop.step (twinChildren none)) 2 twinStart):=
    (Relation.ReflTransGen.refl.tail ⟨hfirst,rfl⟩).tail ⟨hsecond,rfl⟩
  have hsound:=(duplicates_are_analyzed Limits.commandLine ⟨"x"⟩ "6b86b273").1 _ _ _ _ hrun
  exact ⟨_,mem_cons_of_mem _ mem_cons_self,rfl, hsound _ (mem_cons_of_mem _ mem_cons_self) rfl⟩

/-- Every operation succeeds, and every child report has 100 bytes. -/
def everythingSucceeds : BoundedEnvironment where
  probe _ _ := {size:=some 10,sha256 := "d4735e3a"}
  resetRoot _ := none
  inspectTree _ := .ok (0,0)
  payloadSize _ _ := 100
  ensureSubdirectory _ := none
  reportPathExists _ := false
  openReport _ := true
  writeReport _ := true

/-- The graph of an earlier pass that had no directory budget left for the child `x/a`. -/
def deferredGraph : ArtifactGraphInfo :=
  let deferred : ArtifactGraphEdge :=
    { parent:=⟨"x"⟩,child:=⟨"x/a"⟩,relation := "extracted:godot-pck",sha256 := "d4735e3a",
      state:=some .skippedDirectoryArtifactBudget,size:=10,depth:=1 }
  { enabled:=true,truncated:=true,maxDepth:=4,maxNodes:=1024,nodes:=1,
    skippedLimits:=1,materializedFiles:=1,maxTotalBytes:=536870912,
    materializedBytes:=10,edges:=[deferred] }

/-- A child that failed, or that an earlier pass deferred, makes its twin a duplicate. -/
theorem duplicates_of_unanalyzed :
    (¬ ∀(opt:Limits) (input:NativePath) (inputSha256:String) (env:StaticEnvironment)
      (artifacts:List AnalysisArtifact) (materialization:Materialization) (s:StaticLoop),
      Reachable (StaticLoop.step env) (.start opt input inputSha256 artifacts materialization) s →
      ∀e∈s.graph.edges, e.state=some .duplicateSkipped →
        SoundDuplicate input inputSha256 s.graph.edges e) ∧
    ¬ ∀(opt:Limits) (input:NativePath) (inputSha256:String) (env:BoundedEnvironment)
      (budget:DirectoryBudget) (root:NativePath) (graph:ArtifactGraphInfo)
      (selected:List AnalysisArtifact) (materialization:Materialization) (bytes files:ℕ)
      (disk:ArtifactDisk) (s:BoundedLoop),
      Reachable (BoundedLoop.step env budget input root)
        (.start opt input inputSha256 graph selected materialization bytes files disk) s →
      ∀e∈s.graph.edges.drop (BoundedLoop.prior opt graph).length,
        e.state=some .duplicateSkipped → SoundDuplicate input inputSha256 s.graph.edges e:=by
  refine ⟨fun h=>?_,fun h=>?_⟩
  · have hsound:=h Limits.commandLine ⟨"x"⟩ "6b86b273" (twinChildren (some 0))
      [highArtifact "x/a",highArtifact "x/b"] {} _ (reachable_iterate 2 _) _
      (mem_cons_of_mem _ mem_cons_self) rfl
    revert hsound
    unfold SoundDuplicate
    decide
  · have hsound:=h Limits.commandLine ⟨"x"⟩ "6b86b273" everythingSucceeds
      ⟨67108864,512⟩ ⟨"x.auto-refirst"⟩ deferredGraph [highArtifact "x/b"] {} 0 0 [] _
      (reachable_iterate 1 _) _ mem_cons_self rfl
    revert hsound
    unfold SoundDuplicate
    decide

end AutoRefirst.ArtifactGraph
