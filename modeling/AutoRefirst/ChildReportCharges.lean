import AutoRefirst.GraphDeduplication

/-!
# Child reports on disk

The bounded pass over child artifacts writes one report for each analysed child and
charges it to the directory. What a turn writes is charged exactly, fits the budget, and
lies in the directory of a hash that no earlier output has, so that emptying that
directory first removes nothing that was charged.
-/

namespace AutoRefirst.ArtifactGraph
open List

open StepMachine

/-- A budget whose limits the 64-bit counters can reach. -/
structure DirectoryBudget.Representable (budget : DirectoryBudget) : Prop where
  bytes : budget.maxBytes≤Word64.maxValue
  files : budget.maxFiles≤Word64.maxValue

/-- The guarded difference is exact below the limit. -/
theorem remainingBudget_add {limit used:ℕ} (h:used≤limit) :
    remainingBudget limit used + used = limit:=by
  unfold remainingBudget
  split <;> omega

/-- No output is marked as left behind, unless it is empty. -/
def ArtifactDisk.Clean (d : ArtifactDisk) : Prop :=
  ∀ o∈d, o.abandoned=true → o.bytes=0 ∧ o.files=0

/-- What a pass has added to the disk when it went from `s` to `t`. -/
structure ChildCharge (env : BoundedEnvironment) (budget : DirectoryBudget) (root : NativePath)
    (s t : BoundedLoop) (new : ArtifactDisk) : Prop where
  disk : t.disk=s.disk++new
  own : ∀ o∈new, o.root=root ∧ ∃ sha256, o.area = .child sha256 ∧
    sha256.toList.isEmpty = false ∧ (t.firstBySha.lookup sha256).isSome=true ∧
      ∃ e∈t.graph.edges, e.sha256=sha256
  bytes : t.directoryBytesUsed = s.directoryBytesUsed + ArtifactDisk.bytes new
  files : t.directoryFilesUsed = s.directoryFilesUsed + ArtifactDisk.files new
  bytes_le : t.directoryBytesUsed≤budget.maxBytes
  files_le : t.directoryFilesUsed≤budget.maxFiles
  clean : (∀ turn, env.cleanupLeaves turn = {}) → ArtifactDisk.Clean new

structure PassInvariant (budget : DirectoryBudget) (root : NativePath) (s : BoundedLoop) :
    Prop where
  bytes : s.disk.bytes=s.directoryBytesUsed
  files : s.disk.files=s.directoryFilesUsed
  bytes_le : s.directoryBytesUsed≤budget.maxBytes
  files_le : s.directoryFilesUsed≤budget.maxFiles
  known : ∀ o∈s.disk, o.root=root → ∀ sha256, o.area = .child sha256 →
    (s.firstBySha.lookup sha256).isSome = true

namespace BoundedLoop

variable {env : BoundedEnvironment} {budget : DirectoryBudget} {input root : NativePath}
  {s t : BoundedLoop}

theorem considerChild_cases (env:BoundedEnvironment) (budget:DirectoryBudget)
    (input root:NativePath) (turn:ℕ) (s:BoundedLoop) (a:AnalysisArtifact) :
    ((considerChild env budget input root turn s a).disk=s.disk ∧
      (considerChild env budget input root turn s a).directoryBytesUsed=s.directoryBytesUsed ∧
      (considerChild env budget input root turn s a).directoryFilesUsed=s.directoryFilesUsed) ∨
    ∃edge : ArtifactGraphEdge,edge.sha256.toList.isEmpty=false ∧
      s.firstBySha.lookup edge.sha256=none ∧
      considerChild env budget input root turn s a = analyzeChild env budget root turn
          { s with
            graph:=(s.graph.materialize edge.size).admitStatic edge.size
            firstBySha:=s.firstBySha.emplace edge.sha256 a.path } a edge:=by
  unfold considerChild
  dsimp only
  have hsha:=@FileProbe.identify_sha (probeArtifact env turn a) (newEdge input a)
  generalize (probeArtifact env turn a).identify (newEdge input a) = identified at hsha ⊢
  obtain ⟨edge,safe⟩:=identified
  cases safe with
  | false=>exact .inl ⟨rfl,rfl,rfl⟩
  | true=>
    dsimp only
    split
    · exact .inl ⟨rfl,rfl,rfl⟩
    · rename_i hnew
      split
      · exact .inl ⟨rfl,rfl,rfl⟩
      split
      · exact .inl ⟨rfl,rfl,rfl⟩
      split
      · exact .inl ⟨rfl,rfl,rfl⟩
      split
      · exact .inl ⟨rfl,rfl,rfl⟩
      · exact .inr ⟨edge,hsha rfl,hnew,rfl⟩

/-- What the analysis of one admitted child writes. -/
structure AdmittedOutput (env : BoundedEnvironment) (budget : DirectoryBudget)
    (root : NativePath) (turn : ℕ) (sha256 : String) (s t : BoundedLoop) (new : ArtifactDisk) :
    Prop where
  disk : t.disk=s.disk++new
  own : ∀ o∈new, o.root=root ∧ o.area = .child sha256
  bytes : t.directoryBytesUsed=s.directoryBytesUsed+new.bytes
  files : t.directoryFilesUsed=s.directoryFilesUsed+new.files
  bytes_le : s.directoryBytesUsed+new.bytes≤budget.maxBytes
  files_le : s.directoryFilesUsed+new.files≤budget.maxFiles
  clean : env.cleanupLeaves turn = {} → new.Clean

/-- The files of a child's directory that a failure leaves there. -/
def restOf (env : BoundedEnvironment) (root : NativePath) (turn : ℕ) (sha256 : String) :
    ArtifactOutput :=
  ⟨root,.child sha256,(env.cleanupLeaves turn).bytes,(env.cleanupLeaves turn).files,true⟩

theorem AdmittedOutput.nothing {turn:ℕ} {sha256:String} (hdisk:t.disk=s.disk)
    (hbytes:t.directoryBytesUsed=s.directoryBytesUsed)
    (hfiles:t.directoryFilesUsed=s.directoryFilesUsed)
    (hbytesLe:s.directoryBytesUsed≤budget.maxBytes)
    (hfilesLe:s.directoryFilesUsed≤budget.maxFiles) :
    AdmittedOutput env budget root turn sha256 s t []:=
  ⟨by simp [hdisk],by simp,hbytes,hfiles,hbytesLe,hfilesLe,fun _ o ho=>by cases ho⟩

theorem AdmittedOutput.rest {turn:ℕ} {sha256:String}
    (hdisk:t.disk=s.disk++[restOf env root turn sha256])
    (hbytes:t.directoryBytesUsed=s.directoryBytesUsed)
    (hfiles:t.directoryFilesUsed=s.directoryFilesUsed)
    (hbytesLe:s.directoryBytesUsed≤budget.maxBytes)
    (hfilesLe:s.directoryFilesUsed≤budget.maxFiles) :
    AdmittedOutput env budget root turn sha256 s t [restOf env root turn sha256]:=by
  have hzeroBytes : ArtifactDisk.bytes [restOf env root turn sha256]=0:=rfl
  have hzeroFiles : ArtifactDisk.files [restOf env root turn sha256]=0:=rfl
  refine ⟨hdisk,by simp [restOf],?_,?_,?_,?_,?_⟩
  · rw [hzeroBytes,hbytes,Nat.add_zero]
  · rw [hzeroFiles,hfiles,Nat.add_zero]
  · rwa [hzeroBytes,Nat.add_zero]
  · rwa [hzeroFiles,Nat.add_zero]
  · intro hempty o ho _
    obtain rfl:=mem_singleton.mp ho
    simp [restOf,hempty]

/-- The outputs of one admitted child: nothing, what a failure left, or the charged report. -/
theorem analyzeChild_disk (env:BoundedEnvironment) (root:NativePath)
    (hbudget:budget.Representable) (hbytes:s.directoryBytesUsed≤budget.maxBytes)
    (hfiles:s.directoryFilesUsed≤budget.maxFiles) (turn:ℕ) (a:AnalysisArtifact)
    (edge:ArtifactGraphEdge)
    (habsent:∀o∈s.disk,o.root=root → o.area≠.child edge.sha256) :
    ∃new,AdmittedOutput env budget root turn edge.sha256 s
      (analyzeChild env budget root turn s a edge) new:=by
  have hreset : s.disk.resetArea root (.child edge.sha256)=s.disk:=
    ArtifactDisk.resetArea_of_absent habsent
  unfold analyzeChild
  dsimp only
  rw [hreset]
  split
  · exact ⟨_,.nothing rfl rfl rfl hbytes hfiles⟩
  split
  · exact ⟨_,.rest rfl rfl rfl hbytes hfiles⟩
  split
  · exact ⟨_,.rest rfl rfl rfl hbytes hfiles⟩
  split
  · exact ⟨_,.nothing rfl rfl rfl hbytes hfiles⟩
  rename_i hfits
  split
  · exact ⟨_,.nothing rfl rfl rfl hbytes hfiles⟩
  split
  · exact ⟨_,.nothing rfl rfl rfl hbytes hfiles⟩
  split
  · exact ⟨_,.nothing rfl rfl rfl hbytes hfiles⟩
  split
  · exact ⟨_,.rest rfl rfl rfl hbytes hfiles⟩
  -- the report fits what remains, so neither sum saturates
  obtain ⟨hone,hpayload⟩:=not_or.mp hfits
  have hroomBytes:=remainingBudget_add hbytes
  have hroomFiles:=remainingBudget_add hfiles
  have hmaxBytes:=hbudget.bytes
  have hmaxFiles:=hbudget.files
  let report : ArtifactOutput:=⟨root,.child edge.sha256,env.payloadSize turn a.path,1,false⟩
  have hreportBytes : ArtifactDisk.bytes [report]=env.payloadSize turn a.path:=by
    simp [ArtifactDisk.bytes,ArtifactDisk.kept,report]
  have hreportFiles : ArtifactDisk.files [report]=1:=by
    simp [ArtifactDisk.files,ArtifactDisk.kept,report]
  refine ⟨[report],rfl,by simp [report],?_,?_,?_,?_,fun _ o ho hmark=>?_⟩
  · rw [hreportBytes]
    apply Word64.satAdd_eq
    omega
  · rw [hreportFiles]
    apply Word64.satAdd_eq
    omega
  · rw [hreportBytes]
    omega
  · rw [hreportFiles]
    omega
  · obtain rfl:=mem_singleton.mp ho
    cases hmark

theorem considerChild_charge (env:BoundedEnvironment) (input:NativePath)
    (hbudget:budget.Representable) (h:PassInvariant budget root s) (turn:ℕ)
    (a:AnalysisArtifact) :
    ∃new,ChildCharge env budget root s (considerChild env budget input root turn s a) new:=by
  rcases considerChild_cases env budget input root turn s a with
    ⟨hdisk,hbytes,hfiles⟩ | ⟨edge,hsha,hnew,heq⟩
  · exact ⟨[],⟨by simp [hdisk],by simp,hbytes,hfiles,hbytes▸h.bytes_le,
      hfiles▸h.files_le,fun _ o ho=>by cases ho⟩⟩
  · rw [heq]
    have habsent : ∀o∈s.disk,o.root=root → o.area≠.child edge.sha256:=by
      intro o ho hroot harea
      have hknown:=h.known o ho hroot edge.sha256 harea
      rw [hnew] at hknown
      cases hknown
    obtain ⟨new,houtput⟩:=analyzeChild_disk env root
      (s:={ s with
        graph:=(s.graph.materialize edge.size).admitStatic edge.size
        firstBySha:=s.firstBySha.emplace edge.sha256 a.path })
      hbudget h.bytes_le h.files_le turn a edge habsent
    obtain ⟨state,-,hedges,hfirst⟩:=analyzeChild_spec env budget root turn
      { s with
        graph:=(s.graph.materialize edge.size).admitStatic edge.size
        firstBySha:=s.firstBySha.emplace edge.sha256 a.path } a edge
    refine ⟨new,⟨houtput.disk,?_,houtput.bytes,houtput.files,
      houtput.bytes▸houtput.bytes_le,houtput.files▸houtput.files_le,
      fun hall=>houtput.clean (hall turn)⟩⟩
    intro o ho
    obtain ⟨hroot,harea⟩:=houtput.own o ho
    refine ⟨hroot,edge.sha256,harea,hsha,?_,?_⟩
    · rw [hfirst]
      exact FirstBySha.isSome_lookup_emplace_self _ _ _
    · rw [hedges]
      exact ⟨_,mem_append_right _ mem_cons_self,rfl⟩

/-- One turn of the pass: the edges grow, the known hashes stay known. -/
theorem step_grows (hstep:s.step env budget input root=some t) :
    (∀e∈s.graph.edges,e∈t.graph.edges) ∧ ∀sha256,(s.firstBySha.lookup sha256).isSome=true →
        (t.firstBySha.lookup sha256).isSome=true:=by
  obtain ⟨a,selected,-,⟨-,rfl⟩ | ⟨-,rfl⟩⟩:=step_cases hstep
  · obtain ⟨e,hturn,-⟩:=considerChild_spec env budget input root s.graph.edges.length
      {s with selected} a
    constructor
    · intro e' he'
      rw [hturn.edges]
      exact mem_append_left _ he'
    · intro sha256 hknown
      have houtcome:=hturn.outcome
      generalize (considerChild env budget input root s.graph.edges.length
        {s with selected} a).firstBySha = known at houtcome ⊢
      cases houtcome with
      | refused | duplicate | outside=>exact hknown
      | tried=>exact FirstBySha.isSome_lookup_emplace hknown
  · exact ⟨fun e he=>he,fun sha256 hknown=>hknown⟩

theorem step_charge (hbudget:budget.Representable) (h:PassInvariant budget root s)
    (hstep:s.step env budget input root=some t) :
    PassInvariant budget root t ∧ ∃new,ChildCharge env budget root s t new:=by
  obtain ⟨new,hcharge⟩ : ∃new,ChildCharge env budget root s t new:=by
    obtain ⟨a,selected,-,⟨-,rfl⟩ | ⟨-,rfl⟩⟩:=step_cases hstep
    · obtain ⟨new,hcharge⟩:=considerChild_charge env input (s:={s with selected})
        hbudget ⟨h.bytes,h.files,h.bytes_le,h.files_le,h.known⟩ s.graph.edges.length a
      exact ⟨new,hcharge.disk,hcharge.own,hcharge.bytes,hcharge.files,hcharge.bytes_le,
        hcharge.files_le,hcharge.clean⟩
    · exact ⟨[],⟨by simp,by simp,rfl,rfl,h.bytes_le,h.files_le,fun _ o ho=>by cases ho⟩⟩
  refine ⟨⟨?_,?_,hcharge.bytes_le,hcharge.files_le,?_⟩,new,hcharge⟩
  · rw [hcharge.disk,hcharge.bytes,← h.bytes]
    exact ArtifactDisk.kept_append _ _
  · rw [hcharge.disk,hcharge.files,← h.files]
    exact ArtifactDisk.kept_append _ _
  · intro o ho hroot sha256 harea
    rw [hcharge.disk] at ho
    rcases mem_append.mp ho with ho | ho
    · exact (step_grows hstep).2 sha256 (h.known o ho hroot sha256 harea)
    · obtain ⟨-,sha,harea',-,hknown,-⟩:=hcharge.own o ho
      rw [harea'] at harea
      cases harea
      exact hknown

/-- A pass starts with every hash of the earlier edges known. -/
theorem isSome_lookup_start {opt:Limits} {inputSha256:String} {graph:ArtifactGraphInfo}
    {selected:List AnalysisArtifact} {materialization:Materialization} {bytes files:ℕ}
    {disk:ArtifactDisk} {e:ArtifactGraphEdge} (he:e∈graph.edges)
    (hsha:e.sha256.toList.isEmpty=false) :
    ((start opt input inputSha256 graph selected materialization bytes files
      disk).firstBySha.lookup e.sha256).isSome = true:=by
  have hedges : (startGraph opt graph).edges=graph.edges:=by
    unfold startGraph
    split <;> rfl
  exact ((KnownHashes.input_seed input inputSha256).prior_seed _).2 e (hedges▸he) hsha

end BoundedLoop

end AutoRefirst.ArtifactGraph
