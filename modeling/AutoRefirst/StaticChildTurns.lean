import AutoRefirst.StaticArtifactChildren
import AutoRefirst.RecursiveGraphBudgets

/-!
# Turns over static children

What one turn of either static loop can do: it adds one edge, and a hash becomes known
exactly when its child passes the admission checks. Both loops are covered by the same
four outcomes.
-/

namespace AutoRefirst.ArtifactGraph

open StepMachine

/-- The states of a child whose analysis was attempted. -/
def attempted (state : EdgeState) : Bool :=
  match state with
  | .analyzedStatic | .analyzedReportWriteFailed | .skippedUnsafe | .skippedOutputInvariant
  | .skippedDirectoryArtifactBudget => true
  | _ => false

def limited (state : EdgeState) : Bool :=
  match state with
  | .skippedDepth | .skippedNodeLimit | .skippedByteLimit | .skippedDirectoryArtifactBudget => true
  | _ => false

/-- How a turn that knows the hashes `m` ends with the edge `e`, and what is known then. -/
inductive TurnOutcome (m : FirstBySha) (e : ArtifactGraphEdge) : FirstBySha → Prop
  | refused (hsha : e.sha256.toList.isEmpty=true) (hstate : e.state = some .skippedUnsafe) :
      TurnOutcome m e m
  | duplicate (hsha : e.sha256.toList.isEmpty=false)
      (hknown : m.lookup e.sha256 = some e.duplicateOf)
      (hstate : e.state = some .duplicateSkipped) : TurnOutcome m e m
  | outside {state : EdgeState} (hsha : e.sha256.toList.isEmpty=false)
      (hnew : m.lookup e.sha256 = none) (hstate : e.state = some state)
      (hlimited : limited state = true) : TurnOutcome m e m
  | tried {state : EdgeState} (hsha : e.sha256.toList.isEmpty=false)
      (hnew : m.lookup e.sha256 = none) (hstate : e.state = some state)
      (hattempted : attempted state = true) : TurnOutcome m e (m.emplace e.sha256 e.child)

theorem FileProbe.identify_unsafe {st:FileProbe} {edge:ArtifactGraphEdge}
    (hedge:edge.sha256 = "") (h:(st.identify edge).2=false) :
    (st.identify edge).1.sha256.toList.isEmpty=true:=by
  revert h
  unfold identify
  split
  · simp [hedge]
  · cases st.size with
    | none=>simp [hedge]
    | some size=>simp

theorem FileProbe.identify_child (st:FileProbe) (edge:ArtifactGraphEdge) :
    (st.identify edge).1.child=edge.child:=congrArg EdgeKey.child (st.identify_key edge)

/-- What a turn over a queued child leaves. -/
structure StaticTurn (s t : StaticLoop) (e : ArtifactGraphEdge) : Prop where
  edges : t.graph.edges=s.graph.edges++[e]
  outcome : TurnOutcome s.firstBySha e t.firstBySha

theorem StaticLoop.analyzeChild_spec (env:StaticEnvironment) (turn:ℕ) (s:StaticLoop)
    (cur:AutoStaticChildPending) (edge:ArtifactGraphEdge) :
    ∃state,attempted state=true ∧ (analyzeChild env turn s cur edge).graph.edges =
        s.graph.edges++[{edge with state:=some state}] ∧
      (analyzeChild env turn s cur edge).firstBySha=s.firstBySha:=by
  unfold analyzeChild
  split
  · exact ⟨.skippedUnsafe,rfl,rfl,rfl⟩
  · dsimp only
    split
    · exact ⟨.analyzedReportWriteFailed,rfl,rfl,rfl⟩
    · exact ⟨.analyzedStatic,rfl,rfl,rfl⟩

theorem StaticLoop.considerChild_spec (env:StaticEnvironment) (turn:ℕ) (s:StaticLoop)
    (cur:AutoStaticChildPending) : ∃e,StaticTurn s (considerChild env turn s cur) e ∧
      e.sha256=((env.probe turn cur.artifact.path).identify (newEdge cur)).1.sha256:=by
  unfold considerChild
  dsimp only
  generalize env.probe turn cur.artifact.path = st
  have hbad:=@FileProbe.identify_unsafe st (newEdge cur) rfl
  have hsha:=@FileProbe.identify_sha st (newEdge cur)
  have hchild:=st.identify_child (newEdge cur)
  generalize st.identify (newEdge cur) = identified at hbad hsha hchild ⊢
  obtain ⟨edge,safe⟩:=identified
  cases safe with
  | false=>
    exact ⟨{edge with state:=some .skippedUnsafe},⟨rfl,.refused (hbad rfl) rfl⟩,rfl⟩
  | true=>
    have hsha:=hsha rfl
    dsimp only
    split
    · rename_i first hfirst
      exact ⟨{edge with duplicateOf:=first,state:=some .duplicateSkipped},
        ⟨rfl,.duplicate hsha hfirst rfl⟩,rfl⟩
    · rename_i hnew
      split
      · exact ⟨{edge with state:=some .skippedDepth},⟨rfl,.outside hsha hnew rfl rfl⟩,rfl⟩
      · split
        · exact ⟨{edge with state:=some .skippedByteLimit},⟨rfl,.outside hsha hnew rfl rfl⟩,rfl⟩
        · split
          · exact ⟨{edge with state:=some .skippedNodeLimit},⟨rfl,.outside hsha hnew rfl rfl⟩,rfl⟩
          · obtain ⟨state,hstate,hedges,hfirst⟩:=analyzeChild_spec env turn
              { s with
                graph:=(s.graph.materialize edge.size).admitStatic edge.size
                firstBySha:=s.firstBySha.emplace edge.sha256 cur.artifact.path } cur edge
            have hpath : cur.artifact.path=edge.child:=hchild.symm
            refine ⟨{edge with state:=some state},⟨hedges,?_⟩,rfl⟩
            rw [hfirst,hpath]
            exact .tried hsha hnew rfl hstate

/-- A duplicate is found before every limit, and costs nothing. -/
theorem StaticLoop.considerChild_duplicate {env:StaticEnvironment} {turn:ℕ} {s:StaticLoop}
    {cur:AutoStaticChildPending} {edge:ArtifactGraphEdge} {first:NativePath}
    (hsafe:(env.probe turn cur.artifact.path).identify (newEdge cur)=(edge,true))
    (hknown:s.firstBySha.lookup edge.sha256=some first) :
    considerChild env turn s cur =
      {s with graph:=(s.graph.materialize edge.size).pushDuplicate edge first}:=by
  simp only [considerChild,hsafe,hknown]

structure BoundedTurn (s t : BoundedLoop) (e : ArtifactGraphEdge) : Prop where
  edges : t.graph.edges=s.graph.edges++[e]
  outcome : TurnOutcome s.firstBySha e t.firstBySha

theorem BoundedLoop.analyzeChild_spec (env:BoundedEnvironment) (budget:DirectoryBudget)
    (root:NativePath) (turn:ℕ) (s:BoundedLoop) (a:AnalysisArtifact)
    (edge:ArtifactGraphEdge) :
    ∃state,attempted state=true ∧ (analyzeChild env budget root turn s a edge).graph.edges =
        s.graph.edges++[{edge with state:=some state}] ∧
      (analyzeChild env budget root turn s a edge).firstBySha=s.firstBySha:=by
  unfold analyzeChild
  dsimp only
  split
  · exact ⟨.skippedUnsafe,rfl,rfl,rfl⟩
  split
  · exact ⟨.skippedUnsafe,rfl,rfl,rfl⟩
  split
  · exact ⟨.skippedOutputInvariant,rfl,rfl,rfl⟩
  split
  · exact ⟨.skippedDirectoryArtifactBudget,rfl,rfl,rfl⟩
  split
  · exact ⟨.skippedUnsafe,rfl,rfl,rfl⟩
  split
  · exact ⟨.skippedUnsafe,rfl,rfl,rfl⟩
  split
  · exact ⟨.analyzedReportWriteFailed,rfl,rfl,rfl⟩
  split
  · exact ⟨.analyzedReportWriteFailed,rfl,rfl,rfl⟩
  · exact ⟨.analyzedStatic,rfl,rfl,rfl⟩

theorem BoundedLoop.considerChild_spec (env:BoundedEnvironment) (budget:DirectoryBudget)
    (input root:NativePath) (turn:ℕ) (s:BoundedLoop) (a:AnalysisArtifact) :
    ∃e,BoundedTurn s (considerChild env budget input root turn s a) e ∧
      e.sha256=((probeArtifact env turn a).identify (newEdge input a)).1.sha256:=by
  unfold considerChild
  dsimp only
  generalize probeArtifact env turn a = st
  have hbad:=@FileProbe.identify_unsafe st (newEdge input a) rfl
  have hsha:=@FileProbe.identify_sha st (newEdge input a)
  have hchild:=st.identify_child (newEdge input a)
  generalize st.identify (newEdge input a) = identified at hbad hsha hchild ⊢
  obtain ⟨edge,safe⟩:=identified
  cases safe with
  | false=>
    exact ⟨{edge with state:=some .skippedUnsafe},⟨rfl,.refused (hbad rfl) rfl⟩,rfl⟩
  | true=>
    have hsha:=hsha rfl
    dsimp only
    split
    · rename_i first hfirst
      exact ⟨{edge with duplicateOf:=first,state:=some .duplicateSkipped},
        ⟨rfl,.duplicate hsha hfirst rfl⟩,rfl⟩
    · rename_i hnew
      split
      · exact ⟨{edge with state:=some .skippedDepth},⟨rfl,.outside hsha hnew rfl rfl⟩,rfl⟩
      split
      · exact ⟨{edge with state:=some .skippedNodeLimit},⟨rfl,.outside hsha hnew rfl rfl⟩,rfl⟩
      split
      · exact ⟨{edge with state:=some .skippedByteLimit},⟨rfl,.outside hsha hnew rfl rfl⟩,rfl⟩
      split
      · exact ⟨{edge with state:=some .skippedDirectoryArtifactBudget},
          ⟨rfl,.outside hsha hnew rfl rfl⟩,rfl⟩
      · obtain ⟨state,hstate,hedges,hfirst⟩:=analyzeChild_spec env budget root turn
          { s with
            graph:=(s.graph.materialize edge.size).admitStatic edge.size
            firstBySha:=s.firstBySha.emplace edge.sha256 a.path } a edge
        have hpath : a.path=edge.child:=hchild.symm
        refine ⟨{edge with state:=some state},⟨hedges,?_⟩,rfl⟩
        rw [hfirst,hpath]
        exact .tried hsha hnew rfl hstate

theorem BoundedLoop.considerChild_duplicate {env:BoundedEnvironment} {budget:DirectoryBudget}
    {input root:NativePath} {turn:ℕ} {s:BoundedLoop} {a:AnalysisArtifact}
    {edge:ArtifactGraphEdge} {first:NativePath}
    (hsafe:(probeArtifact env turn a).identify (newEdge input a)=(edge,true))
    (hknown:s.firstBySha.lookup edge.sha256=some first) :
    considerChild env budget input root turn s a =
      {s with graph:=(s.graph.materialize edge.size).pushDuplicate edge first}:=by
  simp only [considerChild,hsafe,hknown]

end AutoRefirst.ArtifactGraph
