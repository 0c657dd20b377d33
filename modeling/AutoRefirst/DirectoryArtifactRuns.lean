import AutoRefirst.DirectoryArtifactTotals

/-!
# Whole directory runs

Every step of a directory run keeps the invariant of its phase, so every state of every
run keeps what has been written within the limits of the phase, and the totals of the
final report are what is on disk.
-/

namespace AutoRefirst.ArtifactGraph
open List Option

open StepMachine

def Phase.settled : Phase → Bool
  | .analyzed .. | .reanalyzed .. | .failed _ => false
  | _ => true

def Phase.related : Phase → Bool
  | .targets .. | .targetChildren .. | .finished => true
  | _ => false

def Phase.budget (phase : Phase) : DirectoryBudget :=
  if phase.related then hardBudget else preRelationshipBudget

structure WithinArtifactBudget (env : DirectoryEnvironment) (s : DirectoryRun) : Prop where
  used : s.artifactBytesUsed ≤ s.phase.budget.maxBytes ∧
    s.artifactFilesUsed ≤ s.phase.budget.maxFiles
  charged : s.phase.settled=true →
    s.disk.bytes = s.artifactBytesUsed ∧ s.disk.files=s.artifactFilesUsed
  unsettled : env.AnalysesObey →
    s.disk.bytes ≤ s.phase.budget.maxBytes ∧ s.disk.files ≤ s.phase.budget.maxFiles
  remaining : s.remainingBytes s.phase.budget + s.artifactBytesUsed = s.phase.budget.maxBytes ∧
    s.remainingFiles s.phase.budget + s.artifactFilesUsed = s.phase.budget.maxFiles
  lent : ∀ r bytes files rest, s.phase = .analyzed r (.lent bytes files) rest →
    bytes + s.artifactBytesUsed = kDirectoryPreRelationshipArtifactBytes ∧
      files + s.artifactFilesUsed = kDirectoryPreRelationshipArtifactFiles
  reported : s.phase = .finished →
    s.rendering.materializedBytes = s.disk.bytes ∧ s.rendering.materializedFiles=s.disk.files
  complete : env.LeavesNothing →
    (s.disk.map (·.bytes)).sum = s.disk.bytes ∧ (s.disk.map (·.files)).sum=s.disk.files

namespace DirectoryRun

variable {env : DirectoryEnvironment} {opt : Options} {inventory : Inventory} {s t : DirectoryRun}

theorem start_invariant : RunInvariant env (start opt inventory):=Settled.start inventory.distinct

theorem tick_invariant (h:RunInvariant env s) (turn:ℕ) : RunInvariant env {s with turn}:=by
  unfold RunInvariant at h ⊢
  dsimp only
  cases hphase : s.phase with
  | candidates | targets | finished | failed=>
    rw [hphase] at h
    exact h
  | analyzed r preparation rest=>
    rw [hphase] at h
    obtain ⟨base,out,hu,hprepared⟩:=h
    exact ⟨base,out,⟨hu.disk,hu.root,hu.area,hu.kept,hu.settled,hu.obeying⟩,hprepared⟩
  | reanalyzed r rolledBack rest=>
    rw [hphase] at h
    obtain ⟨base,out,hu⟩:=h
    exact ⟨base,out,hu.disk,hu.root,hu.area,hu.kept,hu.settled,hu.obeying⟩
  | children | targetChildren=>
    rw [hphase] at h
    obtain ⟨hpass,hsync,hsettles⟩:=h
    exact ⟨hpass,⟨hsync.bytes,hsync.files,hsync.disk⟩,hsettles⟩

theorem next_invariant (hextract:opt.extract=false) (hobey:env.ExtractorsObey)
    (h:RunInvariant env s) (hstep:next env opt s=some t) : RunInvariant env t:=by
  unfold next at hstep
  unfold RunInvariant at h
  cases hphase : s.phase with
  | candidates rest=>
    rw [hphase] at h hstep
    cases rest with
    | nil=>
      dsimp only at h hstep
      split at hstep
      · obtain rfl:=some.inj hstep
        exact h.failed _
      · obtain rfl:=some.inj hstep
        have hhard : Settled env hardBudget s.disk s.artifactBytesUsed s.artifactFilesUsed
            s.retained []:=Settled.raise h (by decide) (by decide)
        exact hhard
    | cons c rest=>
      obtain rfl:=some.inj hstep
      exact prepare_invariant hextract hobey h
  | analyzed r preparation rest=>
    rw [hphase] at h hstep
    obtain rfl:=some.inj hstep
    obtain ⟨base,out,hunsettled,hprepared⟩:=h
    exact settle_invariant hunsettled hprepared
  | reanalyzed r rolledBack rest=>
    rw [hphase] at h hstep
    obtain rfl:=some.inj hstep
    obtain ⟨base,out,hunsettled⟩:=h
    exact settleReanalyzed_invariant hunsettled rolledBack
  | children r before pass loop rest=>
    rw [hphase] at h hstep
    obtain ⟨hpass,hsync,hsettles⟩:=h
    dsimp only at hstep
    split at hstep
    · rename_i loop' hturn
      obtain rfl:=some.inj hstep
      exact children_turn hpass hsync hsettles hturn
    · obtain rfl:=some.inj hstep
      exact finishMaterialized_invariant hsettles
  | targets rest count=>
    rw [hphase] at h hstep
    cases rest with
    | nil=>
      obtain rfl:=some.inj hstep
      exact finish_invariant h
    | cons target rest=>
      obtain rfl:=some.inj hstep
      exact composeTarget_invariant hextract hobey h count
  | targetChildren target before pass loop rest count=>
    rw [hphase] at h hstep
    obtain ⟨hpass,hsync,hsettles,happart⟩:=h
    dsimp only at hstep
    split at hstep
    · rename_i loop' hturn
      obtain rfl:=some.inj hstep
      exact targetChildren_turn hpass hsync hsettles happart hturn
    · obtain rfl:=some.inj hstep
      exact finishTarget_invariant hsettles
  | finished=>
    rw [hphase] at hstep
    cases hstep
  | failed message=>
    rw [hphase] at hstep
    cases hstep

end DirectoryRun

theorem runInvariant_of_reachable {env:DirectoryEnvironment} {opt:Options}
    {inventory:Inventory} {s:DirectoryRun} (hextract:opt.extract=false)
    (hobey:env.ExtractorsObey)
    (hs:Reachable (DirectoryRun.step env opt) (.start opt inventory) s) : RunInvariant env s:=by
  apply hs.invariant (RunInvariant env) DirectoryRun.start_invariant
  intro a b ha hstep
  exact DirectoryRun.next_invariant hextract hobey (DirectoryRun.tick_invariant ha _) hstep

theorem ArtifactDisk.Clean.kept_eq {d:ArtifactDisk} (h:d.Clean)
    {measure:ArtifactOutput→ℕ} (hzero:∀o,o.bytes=0 ∧ o.files=0 → measure o=0) :
    (d.map measure).sum=ArtifactDisk.kept measure d:=by
  induction d with
  | nil=>rfl
  | cons o d ih=>
    have hd : ArtifactDisk.Clean d:=fun o' ho'=>h o' (mem_cons_of_mem _ ho')
    have hcons : ArtifactDisk.kept measure (o::d) =
        ArtifactDisk.kept measure [o] + ArtifactDisk.kept measure d:=
      ArtifactDisk.kept_append [o] d
    rw [map_cons,sum_cons,ih hd,hcons,ArtifactDisk.kept_singleton]
    cases hmark : o.abandoned with
    | false=>rfl
    | true=>
      rw [hzero o (h o mem_cons_self hmark)]
      rfl

theorem WithinArtifactBudget.of_settles {env:DirectoryEnvironment} {s:DirectoryRun}
    {budget:DirectoryBudget} {retained:List CandidateReport} {pending:List NativePath}
    (h:s.Settles env budget retained pending) (hbudget:s.phase.budget=budget)
    (hlent:∀r bytes files rest,s.phase≠.analyzed r (.lent bytes files) rest)
    (hreported:s.phase=.finished → s.rendering.materializedBytes=s.artifactBytesUsed ∧
      s.rendering.materializedFiles=s.artifactFilesUsed) : WithinArtifactBudget env s:=by
  subst hbudget
  refine ⟨⟨h.bytes_le,h.files_le⟩,fun _=>⟨h.bytes,h.files⟩,fun _=>?_,
    ⟨remainingBudget_add h.bytes_le,remainingBudget_add h.files_le⟩,
    fun r bytes files rest hphase=>absurd hphase (hlent r bytes files rest),?_,?_⟩
  · rw [h.bytes,h.files]
    exact ⟨h.bytes_le,h.files_le⟩
  · intro hfinished
    rw [h.bytes,h.files]
    exact hreported hfinished
  · intro hleaves
    exact ⟨(h.clean hleaves).kept_eq fun o ho=>ho.1,(h.clean hleaves).kept_eq fun o ho=>ho.2⟩

/-- A state whose last outputs are not settled. -/
theorem WithinArtifactBudget.of_flight {env:DirectoryEnvironment} {s:DirectoryRun}
    {base flight:ArtifactDisk} {retained:List CandidateReport} {pending:List NativePath}
    (hdisk:s.disk=base++flight) (hbudget:s.phase.budget=preRelationshipBudget)
    (h:Settled env preRelationshipBudget base s.artifactBytesUsed s.artifactFilesUsed retained
      pending)
    (hobeying:env.AnalysesObey →
      s.artifactBytesUsed + flight.bytes ≤ preRelationshipBudget.maxBytes ∧
        s.artifactFilesUsed + flight.files ≤ preRelationshipBudget.maxFiles)
    (hclean:env.LeavesNothing → flight.Clean) (hsettled:s.phase.settled=false)
    (hlent:∀r bytes files rest,s.phase=.analyzed r (.lent bytes files) rest →
      bytes + s.artifactBytesUsed = preRelationshipBudget.maxBytes ∧
        files + s.artifactFilesUsed = preRelationshipBudget.maxFiles) :
    WithinArtifactBudget env s:=by
  have hbytes : s.disk.bytes=s.artifactBytesUsed+flight.bytes:=by
    rw [hdisk,← h.bytes]
    exact ArtifactDisk.kept_append _ _
  have hfiles : s.disk.files=s.artifactFilesUsed+flight.files:=by
    rw [hdisk,← h.files]
    exact ArtifactDisk.kept_append _ _
  refine ⟨?_,?_,?_,?_,hlent,?_,?_⟩
  · rw [hbudget]
    exact ⟨h.bytes_le,h.files_le⟩
  · intro hphase
    rw [hsettled] at hphase
    cases hphase
  · intro hobey
    rw [hbudget,hbytes,hfiles]
    exact hobeying hobey
  · rw [hbudget]
    exact ⟨remainingBudget_add h.bytes_le,remainingBudget_add h.files_le⟩
  · intro hphase
    rw [hphase] at hsettled
    cases hsettled
  · intro hleaves
    have hall : ArtifactDisk.Clean s.disk:=hdisk▸(h.clean hleaves).append (hclean hleaves)
    exact ⟨hall.kept_eq fun o ho=>ho.1,hall.kept_eq fun o ho=>ho.2⟩

theorem RunInvariant.within {env:DirectoryEnvironment} {s:DirectoryRun}
    (h:RunInvariant env s) : WithinArtifactBudget env s:=by
  unfold RunInvariant at h
  cases hphase : s.phase with
  | candidates rest=>
    rw [hphase] at h
    exact .of_settles h (by rw [hphase];rfl) (by simp [hphase]) (by simp [hphase])
  | analyzed r preparation rest=>
    rw [hphase] at h
    obtain ⟨base,out,hunsettled,hprepared⟩:=h
    refine .of_flight hunsettled.disk (by rw [hphase];rfl) hunsettled.settled ?_
      (fun _=>clean_singleton hunsettled.kept) (by rw [hphase];rfl) ?_
    · rw [bytes_singleton hunsettled.kept,files_singleton hunsettled.kept]
      exact hunsettled.obeying
    · intro r' bytes files rest' hlent
      rw [hphase] at hlent
      cases hlent
      exact hprepared
  | reanalyzed r rolledBack rest=>
    rw [hphase] at h
    obtain ⟨base,out,hunsettled⟩:=h
    refine .of_flight hunsettled.disk (by rw [hphase];rfl) hunsettled.settled ?_
      (fun _=>clean_singleton hunsettled.kept) (by rw [hphase];rfl) (by simp [hphase])
    rw [bytes_singleton hunsettled.kept,files_singleton hunsettled.kept]
    exact hunsettled.obeying
  | children r before pass loop rest=>
    rw [hphase] at h
    obtain ⟨-,-,hsettles⟩:=h
    exact .of_settles hsettles (by rw [hphase];rfl) (by simp [hphase]) (by simp [hphase])
  | targets rest count=>
    rw [hphase] at h
    exact .of_settles h (by rw [hphase];rfl) (by simp [hphase]) (by simp [hphase])
  | targetChildren target before pass loop rest count=>
    rw [hphase] at h
    obtain ⟨-,-,hsettles,-⟩:=h
    exact .of_settles hsettles (by rw [hphase];rfl) (by simp [hphase]) (by simp [hphase])
  | finished=>
    rw [hphase] at h
    obtain ⟨hsettles,hreported⟩:=h
    exact .of_settles hsettles (by rw [hphase];rfl) (by simp [hphase]) fun _=>hreported
  | failed message=>
    rw [hphase] at h
    obtain ⟨base,flight,hdisk,hsettled,hobeying,hclean⟩:=h
    exact .of_flight hdisk (by rw [hphase];rfl) hsettled hobeying hclean (by rw [hphase];rfl)
      (by simp [hphase])

/-- The artifact budget of a directory run without `--extract`. -/
theorem directory_artifact_budget (opt : Options) (hextract : opt.extract=false)
    (inventory : Inventory) (env : DirectoryEnvironment) (hobey : env.ExtractorsObey)
    (s : DirectoryRun) (hs : Reachable (DirectoryRun.step env opt) (.start opt inventory) s) :
    WithinArtifactBudget env s :=
  (runInvariant_of_reachable hextract hobey hs).within

/-- A directory with one Godot pack. -/
def packInventory : Inventory where
  candidates := [{path:=⟨"d/game.pck"⟩}]
  distinct := nodup_singleton _

/-- The analysis of the pack writes two files of `bytes` bytes, one of them an artifact of
high priority, when the budget allows it; the pack's key is found later, and one decisive
child of 40 bytes is materialised with a provenance map of 30 bytes. -/
def packEnvironment (bytes : ℕ) : DirectoryEnvironment where
  resetRoot _ := none
  analyzeFile _ _ o :=
    if bytes ≤ o.extractBudgetBytes ∧ 2 ≤ o.extractBudgetFiles then
      { report:={ input:=⟨"d/game.pck"⟩,artifacts:=[highArtifact "x/a"],retained:=true,
                    encryptedDirectory:=true }
        bytes,files:=2 }
    else {report:={input:=⟨"d/game.pck"⟩,retained:=true,encryptedDirectory:=true}}
  inspectTree _ := none
  cleanup _ := none
  children _ := { everythingSucceeds with
    probe := fun _ path =>
      {size:=some 10,sha256 := if path = ⟨"x/a"⟩ then "d4735e3a" else "4e074085"} }
  spoolReport _ := none
  composeTarget _ _ := some "6b86b273"
  resetSubdirectory _ := none
  materializeCore _ maxBytes maxFiles :=
    if 40 ≤ maxBytes ∧ 1 ≤ maxFiles then
      {outputBytes:=40,children:=[some (highArtifact "x/b")]}
    else {budgetExhausted:=true,omittedCount:=1,omittedBytes:=40}
  provenanceBytes _ _ := 30
  writeProvenance _ := .written
  staticChildren _ := {}

theorem packEnvironment_obeys (bytes:ℕ) :
    (packEnvironment bytes).ExtractorsObey ∧ (packEnvironment bytes).AnalysesObey ∧
      (packEnvironment bytes).LeavesNothing:=by
  refine ⟨⟨?_,?_⟩,?_,⟨?_,?_,?_⟩⟩
  · intro turn path o _ hfiles
    simp [packEnvironment,hfiles]
  · intro turn maxBytes maxFiles
    simp only [packEnvironment]
    split
    · rename_i hfits
      exact hfits
    · exact ⟨Nat.zero_le _,Nat.zero_le _⟩
  · intro turn path o
    simp only [packEnvironment]
    split
    · rename_i hfits
      exact hfits
    · exact ⟨Nat.zero_le _,Nat.zero_le _⟩
  · exact fun _ _=>rfl
  · intro turn maxBytes maxFiles
    simp only [packEnvironment]
    split <;> rfl
  · intro turn leaves h
    cases h

def directoryOptions (extract : Bool) : Options := {toLimits:=Limits.commandLine,extract}

def packRun (bytes : ℕ) (extract : Bool) (n : ℕ) : DirectoryRun :=
  iterate (DirectoryRun.step (packEnvironment bytes) (directoryOptions extract)) n
    (.start (directoryOptions extract) packInventory)

theorem directory_artifact_budget_packRun :
    WithinArtifactBudget (packEnvironment 100) (packRun 100 false 9) ∧
      (packRun 100 false 9).phase=.finished ∧
      (packRun 100 false 9).rendering.materializedBytes=370 ∧
      (packRun 100 false 9).rendering.materializedFiles=6:=
  ⟨directory_artifact_budget _ rfl _ _ (packEnvironment_obeys 100).1 _ (reachable_iterate 9 _),
    rfl,rfl,rfl⟩

/-- With `--extract` no limit of the directory applies, and nothing is counted. -/
theorem extract_exceeds_directory_budget :
    ¬ ∀(opt:Options) (inventory:Inventory) (env:DirectoryEnvironment),
      env.ExtractorsObey → env.AnalysesObey → env.LeavesNothing →
      ∀s, Reachable (DirectoryRun.step env opt) (.start opt inventory) s →
        s.phase=.finished → s.disk.bytes≤kDirectoryArtifactBytes ∧
          s.rendering.materializedBytes=s.disk.bytes:=by
  intro h
  obtain ⟨hobey,hanalyses,hleaves⟩:=packEnvironment_obeys 100000000
  obtain ⟨hbytes,-⟩:=h (directoryOptions true) packInventory (packEnvironment 100000000) hobey
    hanalyses hleaves (packRun 100000000 true 5) (reachable_iterate 5 _) rfl
  revert hbytes
  decide

end AutoRefirst.ArtifactGraph
