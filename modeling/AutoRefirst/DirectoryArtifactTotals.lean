import AutoRefirst.DirectoryArtifactBudget
import AutoRefirst.ChildReportCharges

/-!
# Totals of a directory run

The counters of a directory run are the sizes of what it keeps on disk, below the
pre-relationship limits while candidates are analysed and below the hard limits after
that. Between the operations of a candidate the disk also holds the output of an analysis
that is not settled yet. The totals come from one invariant for each phase.
-/

namespace AutoRefirst.ArtifactGraph
open List

open StepMachine

/-- No budget, no output, and the Godot materialization keeps within its budget. -/
structure DirectoryEnvironment.ExtractorsObey (env : DirectoryEnvironment) : Prop where
  suppressed : ∀ turn path o, o.extractBudgetBytes=0 → o.extractBudgetFiles=0 →
    (env.analyzeFile turn path o).bytes = 0 ∧ (env.analyzeFile turn path o).files=0
  core : ∀ turn maxBytes maxFiles,
    (env.materializeCore turn maxBytes maxFiles).outputBytes ≤ maxBytes ∧
      (env.materializeCore turn maxBytes maxFiles).children.length ≤ maxFiles

def DirectoryEnvironment.AnalysesObey (env : DirectoryEnvironment) : Prop :=
  ∀ turn path o, (env.analyzeFile turn path o).bytes≤o.extractBudgetBytes ∧
    (env.analyzeFile turn path o).files ≤ o.extractBudgetFiles

/-- No failed write leaves anything behind. -/
structure DirectoryEnvironment.LeavesNothing (env : DirectoryEnvironment) : Prop where
  children : ∀ pass turn, (env.children pass).cleanupLeaves turn = {}
  core : ∀ turn maxBytes maxFiles, (env.materializeCore turn maxBytes maxFiles).leaves = {}
  provenance : ∀ turn leaves, env.writeProvenance turn = .failed leaves → leaves = {}

theorem artifactRootForInput_injective : Function.Injective artifactRootForInput:=by
  intro a b h
  have hnative : a.native++".auto-refirst" = b.native++".auto-refirst" :=
    congrArg NativePath.native h
  have hlist:=congrArg String.toList hnative
  rw [String.toList_append,String.toList_append] at hlist
  have hsame:=String.toList_inj.mp (append_cancel_right hlist)
  cases a
  cases b
  exact congrArg NativePath.mk hsame

/-- The outputs below a report's root are those of its analysis and of known children. -/
def Reopenable (d : ArtifactDisk) (r : CandidateReport) : Prop :=
  ∀ o∈d, o.root=r.artifactRoot → o.area = .analysis ∨
    ∃ sha256, o.area = .child sha256 ∧ sha256.toList.isEmpty=false ∧
      ∃ e∈r.artifactGraph.edges, e.sha256=sha256

/-- A disk whose outputs are all charged, within a budget, while the reports `retained` can
still be extended and the inputs `pending` have not been started. -/
structure Settled (env : DirectoryEnvironment) (budget : DirectoryBudget) (d : ArtifactDisk)
    (bytesUsed filesUsed : ℕ) (retained : List CandidateReport) (pending : List NativePath) :
    Prop where
  bytes : d.bytes=bytesUsed
  files : d.files=filesUsed
  bytes_le : bytesUsed≤budget.maxBytes
  files_le : filesUsed≤budget.maxFiles
  nodup : (retained.map (·.input) ++ pending).Nodup
  fresh : ∀ o∈d, ∀ p∈pending, o.root ≠ artifactRootForInput p
  reopenable : ∀ r∈retained, Reopenable d r
  clean : env.LeavesNothing → d.Clean

section Settled

variable {env : DirectoryEnvironment} {budget budget' : DirectoryBudget}
  {d new : ArtifactDisk} {b f : ℕ} {retained retained' : List CandidateReport}
  {pending : List NativePath} {r : CandidateReport} {p : NativePath}

theorem ArtifactDisk.Clean.append (hd:d.Clean) (hnew:new.Clean) :
    ArtifactDisk.Clean (d++new):=by
  intro o ho hmark
  rcases mem_append.mp ho with ho | ho
  · exact hd o ho hmark
  · exact hnew o ho hmark

theorem Settled.start (h:pending.Nodup) : Settled env budget [] 0 0 [] pending:=
  ⟨rfl,rfl,Nat.zero_le _,Nat.zero_le _,h,by simp,by simp,fun _ o ho=>by cases ho⟩

/-- The budget of a later phase is not smaller. -/
theorem Settled.raise (h:Settled env budget d b f retained pending)
    (hbytes:budget.maxBytes≤budget'.maxBytes) (hfiles:budget.maxFiles≤budget'.maxFiles) :
    Settled env budget' d b f retained pending:=
  ⟨h.bytes,h.files,h.bytes_le.trans hbytes,h.files_le.trans hfiles,h.nodup,h.fresh,
    h.reopenable,h.clean⟩

/-- Reports that nobody extends any more need not be remembered. -/
theorem Settled.forget (h:Settled env budget d b f retained pending)
    (hsub:retained'.Sublist retained) : Settled env budget d b f retained' pending:=
  ⟨h.bytes,h.files,h.bytes_le,h.files_le,
    h.nodup.sublist ((hsub.map _).append (List.Sublist.refl _)),h.fresh,
    fun r hr=>h.reopenable r (hsub.subset hr),h.clean⟩

theorem Settled.retain (h:Settled env budget d b f retained (p::pending))
    (hinput:r.input=p) : Settled env budget d b f (retained++[r]) pending:=by
  refine ⟨h.bytes,h.files,h.bytes_le,h.files_le,?_,?_,?_,h.clean⟩
  · simpa [hinput] using h.nodup
  · exact fun o ho q hq=>h.fresh o ho q (mem_cons_of_mem _ hq)
  · intro r' hr'
    rcases mem_append.mp hr' with hr' | hr'
    · exact h.reopenable r' hr'
    · obtain rfl:=mem_singleton.mp hr'
      intro o ho hroot
      exact absurd (hinput▸hroot) (h.fresh o ho p mem_cons_self)

/-- Charged outputs below a root that is not pending. -/
theorem Settled.extend (h:Settled env budget d b f retained pending)
    (hinputs:retained'.map (·.input)=retained.map (·.input))
    (hfresh:∀o∈new,∀p∈pending,o.root≠artifactRootForInput p)
    (hreopenable:∀r∈retained',Reopenable (d++new) r)
    (hbytes:b+new.bytes≤budget.maxBytes) (hfiles:f+new.files≤budget.maxFiles)
    (hclean:env.LeavesNothing→new.Clean) :
    Settled env budget (d++new) (b+new.bytes) (f+new.files) retained' pending:=by
  refine ⟨?_,?_,hbytes,hfiles,hinputs▸h.nodup,?_,hreopenable,?_⟩
  · rw [← h.bytes]
    exact ArtifactDisk.kept_append _ _
  · rw [← h.files]
    exact ArtifactDisk.kept_append _ _
  · intro o ho
    rcases mem_append.mp ho with ho | ho
    · exact h.fresh o ho
    · exact hfresh o ho
  · exact fun hleaves=>(h.clean hleaves).append (hclean hleaves)

theorem Reopenable.append_foreign (h:Reopenable d r)
    (hforeign:∀o∈new,o.root≠r.artifactRoot) : Reopenable (d++new) r:=by
  intro o ho hroot
  rcases mem_append.mp ho with ho | ho
  · exact h o ho hroot
  · exact absurd hroot (hforeign o ho)

/-- Charged outputs below the root of an input that is neither retained nor pending. -/
theorem Settled.extend_foreign (h:Settled env budget d b f retained [])
    (hroot:∀o∈new,o.root=artifactRootForInput p)
    (happart:p ∉ retained.map (·.input))
    (hbytes:b+new.bytes≤budget.maxBytes) (hfiles:f+new.files≤budget.maxFiles)
    (hclean:env.LeavesNothing→new.Clean) :
    Settled env budget (d++new) (b+new.bytes) (f+new.files) retained []:=by
  apply h.extend rfl (by simp) _ hbytes hfiles hclean
  intro q hq
  apply (h.reopenable q hq).append_foreign
  intro o ho heq
  have hsame : p=q.input:=artifactRootForInput_injective ((hroot o ho).symm.trans heq)
  exact happart (hsame▸List.mem_map_of_mem hq)

/-- A pass can start on the artifacts of a report whose known children are its edges. -/
theorem PassInvariant.start {root input:NativePath} {opt:Limits} {inputSha256:String}
    {graph:ArtifactGraphInfo} {selected:List AnalysisArtifact}
    {materialization:Materialization} (hbytes:d.bytes=b) (hfiles:d.files=f)
    (hbytesLe:b≤budget.maxBytes) (hfilesLe:f≤budget.maxFiles)
    (hknown:∀o∈d,o.root=root → ∀sha256,o.area=.child sha256 →
      sha256.toList.isEmpty=false ∧ ∃e∈graph.edges,e.sha256=sha256) :
    PassInvariant budget root
      (.start opt input inputSha256 graph selected materialization b f d):=by
  refine ⟨hbytes,hfiles,hbytesLe,hfilesLe,?_⟩
  intro o ho hroot sha256 harea
  obtain ⟨hsha,e,he,rfl⟩:=hknown o ho hroot sha256 harea
  exact BoundedLoop.isSome_lookup_start he hsha

end Settled

def paths (rest : List DirectoryCandidate) : List NativePath := rest.map (·.path)

structure Unsettled (env : DirectoryEnvironment) (s : DirectoryRun) (r : CandidateReport)
    (rest : List DirectoryCandidate) (base : ArtifactDisk) (out : ArtifactOutput) : Prop where
  disk : s.disk=base++[out]
  root : out.root=r.artifactRoot
  area : out.area = .analysis
  kept : out.abandoned=false
  settled : Settled env preRelationshipBudget base s.artifactBytesUsed s.artifactFilesUsed
    s.retained (r.input :: paths rest)
  obeying : env.AnalysesObey →
    s.artifactBytesUsed + out.bytes ≤ preRelationshipBudget.maxBytes ∧
      s.artifactFilesUsed + out.files ≤ preRelationshipBudget.maxFiles

/-- What the preparation of an analysis says about its output and the budget. -/
def Prepared (s : DirectoryRun) (out : ArtifactOutput) : Preparation → Prop
  | .unmetered => False
  | .unsafeRoot => out.bytes = 0 ∧ out.files = 0
  | .deferred => True
  | .lent bytes files =>
    bytes + s.artifactBytesUsed = preRelationshipBudget.maxBytes ∧
      files + s.artifactFilesUsed = preRelationshipBudget.maxFiles

/-- A run that ended with an error, perhaps with an analysis that was never settled. -/
def Failed (env : DirectoryEnvironment) (s : DirectoryRun) : Prop :=
  ∃ base flight, s.disk=base++flight ∧
    Settled env preRelationshipBudget base s.artifactBytesUsed s.artifactFilesUsed [] [] ∧
    (env.AnalysesObey →
      s.artifactBytesUsed + flight.bytes ≤ preRelationshipBudget.maxBytes ∧
        s.artifactFilesUsed + flight.files ≤ preRelationshipBudget.maxFiles) ∧
    (env.LeavesNothing → flight.Clean)

/-- The pass over the children works on the counters and the disk of the run. -/
structure Synced (s : DirectoryRun) (loop : BoundedLoop) : Prop where
  bytes : loop.directoryBytesUsed=s.artifactBytesUsed
  files : loop.directoryFilesUsed=s.artifactFilesUsed
  disk : loop.disk=s.disk

/-- The disk of a run and its counters. -/
def DirectoryRun.Settles (s : DirectoryRun) (env : DirectoryEnvironment)
    (budget : DirectoryBudget) (retained : List CandidateReport) (pending : List NativePath) :
    Prop :=
  Settled env budget s.disk s.artifactBytesUsed s.artifactFilesUsed retained pending

def RunInvariant (env : DirectoryEnvironment) (s : DirectoryRun) : Prop :=
  match s.phase with
  | .candidates rest => s.Settles env preRelationshipBudget s.retained (paths rest)
  | .analyzed r preparation rest =>
    ∃ base out, Unsettled env s r rest base out ∧ Prepared s out preparation
  | .reanalyzed r _ rest => ∃ base out, Unsettled env s r rest base out
  | .children r _ _ loop rest =>
    PassInvariant preRelationshipBudget r.artifactRoot loop ∧ Synced s loop ∧
      s.Settles env preRelationshipBudget (s.retained++[DirectoryRun.reportOf r loop])
        (paths rest)
  | .targets rest _ => s.Settles env hardBudget rest []
  | .targetChildren target _ _ loop rest _ =>
    PassInvariant hardBudget target.report.artifactRoot loop ∧ Synced s loop ∧
      s.Settles env hardBudget rest [] ∧ target.report.input ∉ rest.map (·.input)
  | .finished =>
    s.Settles env hardBudget [] [] ∧ s.rendering.materializedBytes=s.artifactBytesUsed ∧
      s.rendering.materializedFiles = s.artifactFilesUsed
  | .failed _ => Failed env s

/-- The run takes over what a turn over the children has charged. -/
theorem Synced.settles_charge {env:DirectoryEnvironment} {bounded:BoundedEnvironment}
    {budget:DirectoryBudget} {s:DirectoryRun} {loop loop':BoundedLoop} {root:NativePath}
    {new:ArtifactDisk} {retained:List CandidateReport} {pending:List NativePath}
    (hsync:Synced s loop) (hnew:ChildCharge bounded budget root loop loop' new)
    (h:Settled env budget (s.disk++new) (s.artifactBytesUsed + ArtifactDisk.bytes new)
      (s.artifactFilesUsed + ArtifactDisk.files new) retained pending) :
    (s.charge loop').Settles env budget retained pending:=by
  have hdisk : loop'.disk=s.disk++new:=hnew.disk.trans (by rw [hsync.disk])
  have hbytes : loop'.directoryBytesUsed = s.artifactBytesUsed + ArtifactDisk.bytes new:=
    hnew.bytes.trans (by rw [hsync.bytes])
  have hfiles : loop'.directoryFilesUsed = s.artifactFilesUsed + ArtifactDisk.files new:=
    hnew.files.trans (by rw [hsync.files])
  change Settled env budget loop'.disk loop'.directoryBytesUsed loop'.directoryFilesUsed
    retained pending
  rw [hdisk,hbytes,hfiles]
  exact h

section Candidates

variable {env : DirectoryEnvironment} {opt : Options} {s : DirectoryRun} {r : CandidateReport}
  {rest : List DirectoryCandidate} {base : ArtifactDisk} {out : ArtifactOutput}

theorem bytes_singleton (h:out.abandoned=false) : ArtifactDisk.bytes [out]=out.bytes:=by
  simp [ArtifactDisk.bytes,ArtifactDisk.kept_singleton,h]

theorem files_singleton (h:out.abandoned=false) : ArtifactDisk.files [out]=out.files:=by
  simp [ArtifactDisk.files,ArtifactDisk.kept_singleton,h]

theorem clean_singleton (h:out.abandoned=false) : ArtifactDisk.Clean [out]:=by
  intro o ho hmark
  obtain rfl:=mem_singleton.mp ho
  rw [h] at hmark
  cases hmark

theorem DirectoryRun.Settles.failed {retained:List CandidateReport} {pending:List NativePath}
    (h:s.Settles env preRelationshipBudget retained pending) (message:String) :
    RunInvariant env (s.fail message):=by
  have hbase : Settled env preRelationshipBudget s.disk s.artifactBytesUsed s.artifactFilesUsed
      [] []:=
    ⟨h.bytes,h.files,h.bytes_le,h.files_le,nodup_nil,by simp,by simp,h.clean⟩
  exact ⟨s.disk,[],(append_nil _).symm,hbase,fun _=>⟨h.bytes_le,h.files_le⟩,
    fun _ o ho=>by cases ho⟩

theorem Unsettled.failed (h:Unsettled env s r rest base out) (message:String) :
    RunInvariant env (s.fail message):=by
  have hbase : Settled env preRelationshipBudget base s.artifactBytesUsed s.artifactFilesUsed
      [] []:=
    ⟨h.settled.bytes,h.settled.files,h.settled.bytes_le,h.settled.files_le,nodup_nil,
      by simp,by simp,h.settled.clean⟩
  refine ⟨base,[out],h.disk,hbase,?_,fun _=>clean_singleton h.kept⟩
  intro hobey
  rw [bytes_singleton h.kept,files_singleton h.kept]
  exact h.obeying hobey

/-- Nothing else lies below the root of an unsettled analysis. -/
theorem Unsettled.absent (h:Unsettled env s r rest base out) : ∀o∈base,o.root≠r.artifactRoot:=
  fun o ho=>h.settled.fresh o ho r.input mem_cons_self

theorem Unsettled.resetRoot (h:Unsettled env s r rest base out) :
    s.disk.resetRoot r.artifactRoot=base:=by
  rw [h.disk]
  exact ArtifactDisk.resetRoot_append_own h.absent h.root

theorem Unsettled.inspectTree (h:Unsettled env s r rest base out) :
    s.disk.inspectTree r.artifactRoot =
      {bytes:=min out.bytes Word64.maxValue,files:=min out.files Word64.maxValue}:=by
  rw [h.disk]
  exact ArtifactDisk.inspectTree_append_own h.absent h.root

theorem Unsettled.charge (h:Unsettled env s r rest base out) {r':CandidateReport}
    (hinput:r'.input=r.input)
    (hbytes:s.artifactBytesUsed+out.bytes≤preRelationshipBudget.maxBytes)
    (hfiles:s.artifactFilesUsed+out.files≤preRelationshipBudget.maxFiles) :
    Settled env preRelationshipBudget s.disk (s.artifactBytesUsed+out.bytes)
      (s.artifactFilesUsed+out.files) (s.retained++[r']) (paths rest):=by
  have hretained:=h.settled.retain hinput
  have hnodup : (s.retained.map (·.input)++r.input::paths rest).Nodup:=h.settled.nodup
  rw [h.disk,← bytes_singleton h.kept,← files_singleton h.kept]
  apply hretained.extend rfl
  · intro o ho p hp heq
    obtain rfl:=mem_singleton.mp ho
    have hsame : r.input=p:=artifactRootForInput_injective (h.root.symm.trans heq)
    have hrest:=(nodup_cons.mp (nodup_append.mp hnodup).2.1).1
    exact hrest (hsame▸hp)
  · intro q hq o ho hroot
    rcases mem_append.mp ho with ho | ho
    · exact hretained.reopenable q hq o ho hroot
    · obtain rfl:=mem_singleton.mp ho
      exact .inl h.area
  · rw [bytes_singleton h.kept]
    exact hbytes
  · rw [files_singleton h.kept]
    exact hfiles
  · exact fun _=>clean_singleton h.kept

theorem DirectoryRun.analyze_unsettled {path:NativePath} {o:AnalysisOptions}
    (h:s.Settles env preRelationshipBudget s.retained (path::paths rest))
    (hbytes:s.artifactBytesUsed+o.extractBudgetBytes≤preRelationshipBudget.maxBytes)
    (hfiles:s.artifactFilesUsed+o.extractBudgetFiles≤preRelationshipBudget.maxFiles)
    (phase:CandidateReport→Phase) :
    Unsettled env (s.analyze env path o phase)
      {(env.analyzeFile s.turn path o).report with input:=path} rest s.disk
      ⟨artifactRootForInput path,.analysis,(env.analyzeFile s.turn path o).bytes,
        (env.analyzeFile s.turn path o).files,false⟩:=by
  refine ⟨rfl,rfl,rfl,rfl,h,?_⟩
  intro hobey
  obtain ⟨hb,hf⟩:=hobey s.turn path o
  exact ⟨(Nat.add_le_add_left hb _).trans hbytes,(Nat.add_le_add_left hf _).trans hfiles⟩

/-- The head of the loop: whatever the preparation, the output fits what it promises. -/
theorem DirectoryRun.prepare_invariant (hextract:opt.extract=false)
    (hobey:env.ExtractorsObey) {c:DirectoryCandidate}
    (h:s.Settles env preRelationshipBudget s.retained (paths (c::rest))) :
    RunInvariant env (s.prepare env opt c rest):=by
  have hbounded : opt.boundedArtifacts=true:=by simp [Options.boundedArtifacts,hextract]
  unfold prepare
  by_cases hreadable : c.readable=true
  swap
  · have hnot : (!c.readable)=true:=by simpa using hreadable
    rw [if_pos hnot]
    exact ⟨h.bytes,h.files,h.bytes_le,h.files_le,h.nodup.sublist
      ((List.Sublist.refl _).append (sublist_cons_self _ _)),
      fun o ho p hp=>h.fresh o ho p (mem_cons_of_mem _ hp),h.reopenable,h.clean⟩
  have hnot : (!c.readable)=false:=by simpa using hreadable
  simp only [hnot,hbounded,Bool.false_eq_true,if_false,Bool.not_true]
  have hbytes:=h.bytes_le
  have hfiles:=h.files_le
  split
  · -- a root that is not emptied is lent nothing
    rename_i error _
    refine ⟨_,_,analyze_unsettled (o:=opt.suppressed) ?_ ?_ ?_ _,?_⟩
    · exact h
    · exact hbytes
    · exact hfiles
    · exact hobey.suppressed _ _ _ rfl rfl
  · have habsent : s.disk.resetRoot (artifactRootForInput c.path)=s.disk:=
      ArtifactDisk.resetRoot_of_absent fun o ho=>h.fresh o ho c.path mem_cons_self
    rw [habsent]
    split
    · refine ⟨_,_,analyze_unsettled (o:=opt.suppressed) ?_ ?_ ?_ _,trivial⟩
      · exact h
      · exact hbytes
      · exact hfiles
    · -- the remaining budget is exact, and the options stay within it
      have hroomBytes:=remainingBudget_add hbytes
      have hroomFiles:=remainingBudget_add hfiles
      refine ⟨_,_,analyze_unsettled ?_ ?_ ?_ _,hroomBytes,hroomFiles⟩
      · exact h
      · have hmin:=Nat.min_le_right opt.extractBudgetBytes
          (remainingBudget preRelationshipBudget.maxBytes s.artifactBytesUsed)
        change s.artifactBytesUsed + min opt.extractBudgetBytes
          (remainingBudget preRelationshipBudget.maxBytes s.artifactBytesUsed)≤_
        omega
      · have hmin:=Nat.min_le_right opt.extractBudgetFiles
          (remainingBudget preRelationshipBudget.maxFiles s.artifactFilesUsed)
        change s.artifactFilesUsed + min opt.extractBudgetFiles
          (remainingBudget preRelationshipBudget.maxFiles s.artifactFilesUsed)≤_
        omega

theorem DirectoryRun.finishCandidate_invariant
    (h:s.Settles env preRelationshipBudget (s.retained++[r]) (paths rest)) :
    RunInvariant env (s.finishCandidate env r rest):=by
  have hdropped : s.Settles env preRelationshipBudget s.retained (paths rest):=
    Settled.forget h (sublist_append_left _ _)
  unfold finishCandidate
  dsimp only
  split
  · exact h
  · split
    · exact DirectoryRun.Settles.failed (s:={ s with
        successfulInputs:=
          if r.inputAnalysisFailed then s.successfulInputs else s.successfulInputs+1 })
        hdropped _
    · exact hdropped

theorem DirectoryRun.finishMaterialized_invariant
    (h:s.Settles env preRelationshipBudget (s.retained++[r]) (paths rest)) :
    RunInvariant env (s.finishMaterialized env r rest):=
  finishCandidate_invariant h

/-- A deferred candidate goes on only without output. -/
theorem DirectoryRun.settleDeferred_invariant (h:Unsettled env s r rest base out)
    {unexpected:String} {k:DirectoryRun→DirectoryRun}
    (hk:RunInvariant env (k {s with disk:=base})) :
    RunInvariant env (s.settleDeferred env r unexpected k):=by
  unfold settleDeferred
  dsimp only
  split
  · exact h.failed _
  split
  · exact h.failed _
  split
  · exact h.failed _
  · rw [h.resetRoot]
    exact hk

/-- Whatever the report says, an input whose root is empty again is done. -/
theorem Unsettled.reset (h:Unsettled env s r rest base out) {r':CandidateReport}
    (hinput:r'.input=r.input) :
    Settled env preRelationshipBudget base s.artifactBytesUsed s.artifactFilesUsed
      (s.retained++[r']) (paths rest):=h.settled.retain hinput

theorem DirectoryRun.settleReanalyzed_invariant (h:Unsettled env s r rest base out)
    (rolledBack:DirectoryArtifactTreeStats) :
    RunInvariant env (s.settleReanalyzed env r rolledBack rest):=by
  apply settleDeferred_invariant h
  exact finishCandidate_invariant (h.reset rfl)

/-- An output within what was lent is charged exactly, and one above it is taken back. -/
theorem DirectoryRun.settleLent_invariant (h:Unsettled env s r rest base out) {bytes files:ℕ}
    (hbytes:bytes+s.artifactBytesUsed=preRelationshipBudget.maxBytes)
    (hfiles:files+s.artifactFilesUsed=preRelationshipBudget.maxFiles) :
    RunInvariant env (s.settleLent env opt r bytes files rest):=by
  have hmaxBytes : preRelationshipBudget.maxBytes<Word64.maxValue:=by decide
  have hmaxFiles : preRelationshipBudget.maxFiles<Word64.maxValue:=by decide
  unfold settleLent
  rw [h.inspectTree]
  dsimp only
  split
  · split
    · rename_i error _
      exact h.failed error
    · -- the root is empty again before the second analysis
      rw [h.resetRoot]
      refine ⟨_,_,analyze_unsettled (o:=opt.suppressed) ?_ ?_ ?_ _⟩
      · exact h.settled
      · exact h.settled.bytes_le
      · exact h.settled.files_le
  rename_i hover
  have hfitBytes : out.bytes≤bytes:=by omega
  have hfitFiles : out.files≤files:=by omega
  have hminBytes : min out.bytes Word64.maxValue=out.bytes:=min_eq_left (by omega)
  have hminFiles : min out.files Word64.maxValue=out.files:=min_eq_left (by omega)
  have hsumBytes : satAdd s.artifactBytesUsed out.bytes = s.artifactBytesUsed+out.bytes:=
    Word64.satAdd_eq (by omega)
  have hsumFiles : satAdd s.artifactFilesUsed out.files = s.artifactFilesUsed+out.files:=
    Word64.satAdd_eq (by omega)
  rw [hminBytes,hminFiles,hsumBytes,hsumFiles]
  have hcharge {r':CandidateReport} (hinput:r'.input=r.input):=h.charge hinput (by omega) (by omega)
  split
  · exact finishCandidate_invariant (hcharge rfl)
  · split
    · exact finishMaterialized_invariant (hcharge rfl)
    · refine ⟨?_,⟨rfl,rfl,rfl⟩,hcharge rfl⟩
      have hdisk:=@hcharge r rfl
      apply PassInvariant.start hdisk.bytes hdisk.files hdisk.bytes_le hdisk.files_le
      intro o ho hroot sha256 harea
      -- only the analysis has written below this root
      have hareas:=hdisk.reopenable r (mem_append_right _ mem_cons_self) o ho hroot
      rcases hareas with hanalysis | ⟨sha,hchild,hsha,hedge⟩
      · rw [hanalysis] at harea
        cases harea
      · rw [hchild] at harea
        cases harea
        exact ⟨hsha,hedge⟩

theorem DirectoryRun.settle_invariant (h:Unsettled env s r rest base out)
    {preparation:Preparation} (hprepared:Prepared s out preparation) :
    RunInvariant env (s.settle env opt r preparation rest):=by
  cases preparation with
  | unmetered=>exact hprepared.elim
  | unsafeRoot=>
    obtain ⟨hbytes,hfiles⟩:=hprepared
    have hcharge (r':CandidateReport) (hinput:r'.input=r.input) :
        s.Settles env preRelationshipBudget (s.retained++[r']) (paths rest):=by
      have hsum:=h.charge hinput (by rw [hbytes];exact h.settled.bytes_le)
        (by rw [hfiles];exact h.settled.files_le)
      rw [hbytes,hfiles] at hsum
      exact hsum
    exact finishCandidate_invariant (hcharge _ rfl)
  | deferred=>
    apply settleDeferred_invariant h
    exact finishCandidate_invariant (h.reset rfl)
  | lent bytes files=>
    obtain ⟨hbytes,hfiles⟩:=hprepared
    unfold settle
    dsimp only
    split
    · exact h.failed _
    · exact settleLent_invariant h hbytes hfiles

theorem DirectoryRun.children_turn {before:DirectoryArtifactTreeStats} {pass:ℕ}
    {loop loop':BoundedLoop}
    (hpass:PassInvariant preRelationshipBudget r.artifactRoot loop) (hsync:Synced s loop)
    (h:s.Settles env preRelationshipBudget (s.retained++[reportOf r loop]) (paths rest))
    (hstep:loop.step (env.children pass) preRelationshipBudget r.input r.artifactRoot =
      some loop') :
    RunInvariant env {s.charge loop' with phase:=.children r before pass loop' rest}:=by
  have hrepresentable : preRelationshipBudget.Representable:=⟨by decide,by decide⟩
  obtain ⟨hpass',new,hnew⟩:=BoundedLoop.step_charge hrepresentable hpass hstep
  obtain ⟨hedges,-⟩:=BoundedLoop.step_grows hstep
  have hnodup : ((s.retained++[reportOf r loop]).map (·.input)++paths rest).Nodup:=h.nodup
  have hextended : Settled env preRelationshipBudget (s.disk++new)
      (s.artifactBytesUsed + ArtifactDisk.bytes new) (s.artifactFilesUsed + ArtifactDisk.files new)
      (s.retained++[reportOf r loop']) (paths rest):=by
    apply Settled.extend h
    · simp [reportOf]
    · intro o ho p hp heq
      have hroot:=(hnew.own o ho).1
      have hsame : r.input=p:=artifactRootForInput_injective (hroot.symm.trans heq)
      have hapart:=(nodup_append.mp hnodup).2.2 r.input (by simp [reportOf]) p hp
      exact hapart hsame
    · intro q hq
      rcases mem_append.mp hq with hq | hq
      · apply (h.reopenable q (mem_append_left _ hq)).append_foreign
        intro o ho heq
        have hroot:=(hnew.own o ho).1
        have hsame : r.input=q.input:=artifactRootForInput_injective (hroot.symm.trans heq)
        have hinputs:=(nodup_append.mp hnodup).1
        rw [map_append] at hinputs
        exact (nodup_append.mp hinputs).2.2 q.input (List.mem_map_of_mem hq) r.input
          (by simp [reportOf]) hsame.symm
      · obtain rfl:=mem_singleton.mp hq
        intro o ho hroot
        rcases mem_append.mp ho with ho | ho
        · have hold:=h.reopenable (reportOf r loop)
            (mem_append_right _ mem_cons_self) o ho hroot
          rcases hold with hanalysis | ⟨sha256,harea,hsha,e,he,hesha⟩
          · exact .inl hanalysis
          · exact .inr ⟨sha256,harea,hsha,e,hedges e he,hesha⟩
        · obtain ⟨-,sha256,harea,hsha,-,hedge⟩:=hnew.own o ho
          exact .inr ⟨sha256,harea,hsha,hedge⟩
    · rw [← hsync.bytes,← hnew.bytes]
      exact hnew.bytes_le
    · rw [← hsync.files,← hnew.files]
      exact hnew.files_le
    · exact fun hleaves=>hnew.clean (hleaves.children pass)
  exact ⟨hpass',⟨rfl,rfl,rfl⟩,hsync.settles_charge hnew hextended⟩

end Candidates

section Targets

variable {env : DirectoryEnvironment} {opt : Options} {s : DirectoryRun}
  {t : CandidateReport} {rest : List CandidateReport} {sha256 : String}
  {m : GodotExternalPckMaterializeResult}

/-- What an attempt to write the provenance map adds to the disk. -/
structure ProvenanceOutput (env : DirectoryEnvironment) (root : NativePath) (sha256 : String)
    (required maxBytes : ℕ) (fileAllowed : Bool) (p : Bool×Bool×ArtifactDisk) : Prop where
  own : ∀ o∈p.2.2, o.root=root ∧ o.area = .godotExternal sha256
  bytes : p.2.2.bytes = if p.1 then required else 0
  files : p.2.2.files = if p.1 then 1 else 0
  fits : p.1=true → fileAllowed=true ∧ required ≤ maxBytes
  clean : env.LeavesNothing → p.2.2.Clean

theorem DirectoryRun.provenance_output (env:DirectoryEnvironment) (turn:ℕ)
    (root:NativePath) (sha256:String) (required maxBytes:ℕ) (fileAllowed:Bool) :
    ProvenanceOutput env root sha256 required maxBytes fileAllowed
      (writeGodotSemanticProvenance env turn root sha256 required maxBytes fileAllowed):=by
  unfold writeGodotSemanticProvenance
  split
  · exact ⟨by simp,rfl,rfl,by simp,fun _ o ho=>by cases ho⟩
  rename_i hallowed
  simp only [Bool.or_eq_true,Bool.not_eq_true',decide_eq_true_eq,not_or,Bool.not_eq_false,
    not_lt] at hallowed
  cases hwrite : env.writeProvenance turn with
  | written=>
    refine ⟨by simp,?_,?_,fun _=>⟨hallowed.1,by omega⟩,fun _=>clean_singleton rfl⟩
    · simp [ArtifactDisk.bytes,ArtifactDisk.kept]
    · simp [ArtifactDisk.files,ArtifactDisk.kept]
  | failed leaves=>
    refine ⟨by simp,?_,?_,by simp,?_⟩
    · simp [ArtifactDisk.bytes,ArtifactDisk.kept]
    · simp [ArtifactDisk.files,ArtifactDisk.kept]
    · intro hleaves o ho _
      obtain rfl:=mem_singleton.mp ho
      simp [hleaves.provenance turn leaves hwrite]

theorem DirectoryRun.finishTarget_invariant {target:GodotTarget}
    {before:DirectoryArtifactTreeStats} {after:Materialization} {count:ℕ}
    (h:s.Settles env hardBudget rest []) :
    RunInvariant env (s.finishTarget target before after rest count):=by
  unfold finishTarget
  dsimp only
  split
  · exact h
  · exact h

theorem DirectoryRun.finish_invariant (h:s.Settles env hardBudget [] []) :
    RunInvariant env (s.finish opt):=⟨h,rfl,rfl⟩

theorem DirectoryRun.chargeTarget_invariant (hextract:opt.extract=false)
    (h:s.Settles env hardBudget (t::rest) [])
    (hbytes:m.outputBytes ≤ s.remainingBytes hardBudget)
    (hfiles:m.children.length ≤ s.remainingFiles hardBudget)
    (hleaves:env.LeavesNothing → m.leaves={}) (count:ℕ) :
    RunInvariant env (s.chargeTarget env opt t sha256 (s.remainingBytes hardBudget)
      (s.remainingFiles hardBudget) m rest count):=by
  have hbounded : opt.boundedArtifacts=true:=by simp [Options.boundedArtifacts,hextract]
  have hroomBytes : s.remainingBytes hardBudget + s.artifactBytesUsed = kDirectoryArtifactBytes:=
    remainingBudget_add h.bytes_le
  have hroomFiles : s.remainingFiles hardBudget + s.artifactFilesUsed = kDirectoryArtifactFiles:=
    remainingBudget_add h.files_le
  have hmaxBytes : kDirectoryArtifactBytes<Word64.maxValue:=by decide
  have hmaxFiles : kDirectoryArtifactFiles<Word64.maxValue:=by decide
  have hleft:=remainingBudget_add hbytes
  unfold chargeTarget
  simp only [hbounded,Bool.not_true,Bool.false_or,Bool.false_eq_true,if_false,if_true]
  have hprov:=provenance_output env s.turn t.artifactRoot sha256 (env.provenanceBytes s.turn m)
    (remainingBudget (s.remainingBytes hardBudget) m.outputBytes)
    (decide (m.children.length<s.remainingFiles hardBudget))
  generalize env.provenanceBytes s.turn m = required at hprov ⊢
  generalize writeGodotSemanticProvenance env s.turn t.artifactRoot sha256 required
    (remainingBudget (s.remainingBytes hardBudget) m.outputBytes)
    (decide (m.children.length<s.remainingFiles hardBudget)) = prov at hprov ⊢
  let output : ArtifactDisk:=
    [⟨t.artifactRoot,.godotExternal sha256,m.outputBytes,m.children.length,false⟩,
      ⟨t.artifactRoot,.godotExternal sha256,m.leaves.bytes,m.leaves.files,true⟩]
  have houtputBytes : output.bytes=m.outputBytes:=by
    simp [output,ArtifactDisk.bytes,ArtifactDisk.kept]
  have houtputFiles : output.files=m.children.length:=by
    simp [output,ArtifactDisk.files,ArtifactDisk.kept]
  have haddedBytes : ArtifactDisk.bytes (output++prov.2.2) =
      m.outputBytes + if prov.1 then required else 0:=by
    rw [← houtputBytes,← hprov.bytes]
    exact ArtifactDisk.kept_append _ _
  have haddedFiles : ArtifactDisk.files (output++prov.2.2) =
      m.children.length + if prov.1 then 1 else 0:=by
    rw [← houtputFiles,← hprov.files]
    exact ArtifactDisk.kept_append _ _
  -- the map takes what the children left
  have hfitBytes : (m.outputBytes + if prov.1 then required else 0) ≤
      s.remainingBytes hardBudget:=by
    split
    · have hfits:=(hprov.fits ‹_›).2
      omega
    · omega
  have hfitFiles : (m.children.length + if prov.1 then 1 else 0) ≤
      s.remainingFiles hardBudget:=by
    split
    · have hfits:=(hprov.fits ‹_›).1
      simp only [decide_eq_true_eq] at hfits
      omega
    · omega
  have hown : ∀o∈output++prov.2.2,o.root=t.artifactRoot ∧
      o.area=.godotExternal sha256:=by
    intro o ho
    rcases mem_append.mp ho with ho | ho
    · simp only [output,mem_cons,not_mem_nil,or_false] at ho
      rcases ho with rfl | rfl <;> exact ⟨rfl,rfl⟩
    · exact hprov.own o ho
  have hapart : t.input ∉ rest.map (·.input):=by
    have hnodup:=h.nodup
    simp only [append_nil,map_cons,nodup_cons] at hnodup
    exact hnodup.1
  have hsettled : Settled env hardBudget (s.disk++(output++prov.2.2))
      (s.artifactBytesUsed+ArtifactDisk.bytes (output++prov.2.2))
      (s.artifactFilesUsed+ArtifactDisk.files (output++prov.2.2)) rest []:=by
    apply (Settled.forget h (sublist_cons_self t rest)).extend_foreign
      (fun o ho=>(hown o ho).1) hapart
    · change _ ≤ kDirectoryArtifactBytes
      omega
    · change _ ≤ kDirectoryArtifactFiles
      omega
    · intro hnone
      refine ArtifactDisk.Clean.append ?_ (hprov.clean hnone)
      intro o ho hmark
      simp only [output,hleaves hnone,mem_cons,not_mem_nil,or_false] at ho
      rcases ho with rfl | rfl
      · cases hmark
      · exact ⟨rfl,rfl⟩
  have hsumBytes : satAdd s.artifactBytesUsed
      (satAdd m.outputBytes (if prov.1 then required else 0)) =
        s.artifactBytesUsed + ArtifactDisk.bytes (output++prov.2.2):=by
    have hinner : satAdd m.outputBytes (if prov.1 then required else 0) =
        m.outputBytes + if prov.1 then required else 0:=Word64.satAdd_eq (by omega)
    rw [hinner,haddedBytes]
    exact Word64.satAdd_eq (by omega)
  have hsumFiles : satAdd s.artifactFilesUsed (m.children.length + if prov.1 then 1 else 0) =
      s.artifactFilesUsed + ArtifactDisk.files (output++prov.2.2):=by
    rw [haddedFiles]
    exact Word64.satAdd_eq (by omega)
  rw [hsumBytes,hsumFiles]
  split
  · -- the internal check of the pass never fires
    rename_i hover
    omega
  split
  · exact finishTarget_invariant hsettled
  · refine ⟨?_,⟨rfl,rfl,rfl⟩,hsettled,hapart⟩
    apply PassInvariant.start hsettled.bytes hsettled.files hsettled.bytes_le hsettled.files_le
    intro o ho hroot sha harea
    rcases mem_append.mp ho with ho | ho
    · rcases h.reopenable t mem_cons_self o ho hroot with hanalysis | ⟨sha',hchild,hsha⟩
      · rw [hanalysis] at harea
        cases harea
      · rw [hchild] at harea
        cases harea
        exact hsha
    · rw [(hown o ho).2] at harea
      cases harea

theorem DirectoryRun.composeTarget_invariant (hextract:opt.extract=false)
    (hobey:env.ExtractorsObey) (h:s.Settles env hardBudget (t::rest) []) (count:ℕ) :
    RunInvariant env (s.composeTarget env opt t rest count):=by
  have hbounded : opt.boundedArtifacts=true:=by simp [Options.boundedArtifacts,hextract]
  have hrest : s.Settles env hardBudget rest []:=Settled.forget h (sublist_cons_self t rest)
  unfold composeTarget
  simp only [hbounded,Bool.not_true,Bool.false_or,if_true]
  split
  · exact hrest
  split
  · exact hrest
  split
  · exact hrest
  rename_i sha256 _
  split
  · split
    · exact hrest
    · -- the target has no output of its own yet
      have habsent : s.disk.resetArea t.artifactRoot (.godotExternal sha256)=s.disk:=by
        apply ArtifactDisk.resetArea_of_absent
        intro o ho hroot harea
        rcases h.reopenable t mem_cons_self o ho hroot with hanalysis | ⟨sha,hchild,-⟩
        · rw [hanalysis] at harea
          cases harea
        · rw [hchild] at harea
          cases harea
      rw [habsent]
      obtain ⟨hcoreBytes,hcoreFiles⟩:=hobey.core s.turn
        (min opt.autoCoreBudget.1 (s.remainingBytes hardBudget))
        (min opt.autoCoreBudget.2 (s.remainingFiles hardBudget - 1))
      apply chargeTarget_invariant hextract h
      · exact hcoreBytes.trans (Nat.min_le_right _ _)
      · exact hcoreFiles.trans ((Nat.min_le_right _ _).trans (Nat.sub_le _ _))
      · exact fun hleaves=>hleaves.core _ _ _
  · apply chargeTarget_invariant hextract h
    · exact Nat.zero_le _
    · exact Nat.zero_le _
    · exact fun _=>rfl

theorem DirectoryRun.targetChildren_turn {target:GodotTarget}
    {before:DirectoryArtifactTreeStats} {pass count:ℕ} {loop loop':BoundedLoop}
    (hpass:PassInvariant hardBudget target.report.artifactRoot loop) (hsync:Synced s loop)
    (h:s.Settles env hardBudget rest []) (happart:target.report.input ∉ rest.map (·.input))
    (hstep:loop.step (env.children pass) hardBudget target.report.input
      target.report.artifactRoot=some loop') :
    RunInvariant env
      {s.charge loop' with phase:=.targetChildren target before pass loop' rest count}:=by
  have hrepresentable : hardBudget.Representable:=⟨by decide,by decide⟩
  obtain ⟨hpass',new,hnew⟩:=BoundedLoop.step_charge hrepresentable hpass hstep
  have hextended : Settled env hardBudget (s.disk++new)
      (s.artifactBytesUsed + ArtifactDisk.bytes new) (s.artifactFilesUsed + ArtifactDisk.files new)
      rest []:=by
    apply Settled.extend_foreign h (fun o ho=>(hnew.own o ho).1) happart
    · rw [← hsync.bytes,← hnew.bytes]
      exact hnew.bytes_le
    · rw [← hsync.files,← hnew.files]
      exact hnew.files_le
    · exact fun hleaves=>hnew.clean (hleaves.children pass)
  exact ⟨hpass',⟨rfl,rfl,rfl⟩,hsync.settles_charge hnew hextended,happart⟩

end Targets

end AutoRefirst.ArtifactGraph
