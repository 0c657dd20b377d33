import AutoRefirst.RepairOutcome

/-!
# What holds of a materialization

In every run in which the files of the repair can be removed, a call is all or nothing and a success
can be repeated, unless the input itself stands where the part file of the record goes: there a
success removes it.
-/

namespace AutoRefirst.Repair.RepairMaterialization
open Option List

open LinkDisk

variable {σ : Type} {fs : LinkDisk σ} {s t u : σ} {p : RepairMaterialization}
  {original cand : Bytes} {requestedRoot root dir q : DiskPath}

variable {outputPreexisting : Bool}

theorem recordProvenance_again
    (h:Settled fs s (provenanceIn dir) (renderRepairJson (admitted p dir)))
    (hcalm:fs.failures (recordProvenance fs p dir outputPreexisting s).disk≤fs.failures s) :
    (recordProvenance fs p dir outputPreexisting s).ok=true ∧
      (recordProvenance fs p dir outputPreexisting s).proposal=admitted p dir:=by
  rcases recordProvenance_cases fs p dir outputPreexisting s with ⟨-,heq⟩ | ⟨e,herror,heq⟩
  · rw [heq]
    exact ⟨rfl,rfl⟩
  · rw [heq] at hcalm
    have hdone:=writeAtomic_again h (Nat.le_trans discard_runs.failures_le hcalm)
    exact absurd (hdone.symm.trans herror) (some_ne_none e).symm

/-- The files that a call has admitted, and the input that it has read. -/
structure Standing (fs : LinkDisk σ) (p : RepairMaterialization) (original : Bytes)
    (dir : DiskPath) (cand : Bytes) (s : σ) : Prop where
  output : Settled fs s (outputPath p.inputPath dir) cand
  record : Settled fs s (provenanceIn dir) (renderRepairJson (admitted p dir))
  input : fs.content s p.inputPath = some original
  parent : sha256Bytes original = p.proposal.inputSha256
  proposed : sha256Bytes cand = p.proposal.proposedResultSha256

theorem Standing.of_kept (h:Standing fs p original dir cand s)
    (houtput:fs.look t (outputPath p.inputPath dir)=fs.look s (outputPath p.inputPath dir))
    (houtputPart:FreeOrFile fs t (partOf (outputPath p.inputPath dir)))
    (hrecord:fs.look t (provenanceIn dir)=fs.look s (provenanceIn dir))
    (hrecordPart:fs.look t (partOf (provenanceIn dir)) = fs.look s (partOf (provenanceIn dir)))
    (hinput:fs.content t p.inputPath=fs.content s p.inputPath) :
    Standing fs p original dir cand t where
  output:=by
    refine ⟨?_,?_,houtputPart⟩
    · rw [content,houtput]
      exact h.output.content
    · rw [houtput]
      exact h.output.regular
  record:=h.record.of_kept hrecord hrecordPart
  input:=hinput.trans h.input
  parent:=h.parent
  proposed:=h.proposed

theorem Standing.of_look (h:Standing fs p original dir cand s) (hlook:fs.look t=fs.look s) :
    Standing fs p original dir cand t:=by
  refine h.of_kept (by rw [hlook]) ?_ (by rw [hlook]) (by rw [hlook])
    (by rw [content,hlook,content])
  unfold FreeOrFile
  rw [hlook]
  exact h.output.part

theorem sha256File_eq : fs.look (sha256File fs s q).2=fs.look s:=funext fun r=>sha256File_look s q r

theorem verifyOutput_again (h:Standing fs p original dir cand s)
    (hcalm:fs.failures (verifyOutput fs p dir outputPreexisting s).disk≤fs.failures s) :
    (verifyOutput fs p dir outputPreexisting s).ok=true ∧
      (verifyOutput fs p dir outputPreexisting s).proposal=admitted p dir:=by
  have hread:=fs.succeeds verifyOutput_after hcalm
  have hdigest:=(sha256File_whole hread h.output.content).trans h.proposed
  have hfirst : fs.failures s ≤
      fs.failures (sha256File fs s (outputPath p.inputPath dir)).2:=
    (sha256File_runs s _).failures_le
  have hstanding : Standing fs p original dir cand
      (sha256File fs s (outputPath p.inputPath dir)).2:=h.of_look sha256File_eq
  unfold verifyOutput at hcalm ⊢
  dsimp only at hcalm ⊢
  rw [if_neg (not_not.mpr hdigest)] at hcalm ⊢
  generalize (sha256File fs s (outputPath p.inputPath dir)).2 = u at hcalm hfirst hstanding ⊢
  have hlater:=Nat.le_trans hcalm hfirst
  have hinput : (fs.call u (.read p.inputPath)).1.error=none:=by
    split at hlater
    · exact fs.succeeds discard_runs hlater
    · exact fs.succeeds recordProvenance_runs hlater
  have hlive:=(sha256File_whole hinput hstanding.input).trans h.parent
  rw [if_neg (not_not.mpr hlive)] at hlater ⊢
  exact recordProvenance_again (hstanding.of_look sha256File_eq).record
    (Nat.le_trans hlater (sha256File_runs u _).failures_le)

theorem writeAtomic_standing (h:Standing fs p original dir cand s)
    (hdone:(writeAtomic fs (outputPath p.inputPath dir) cand s).1=none) :
    Standing fs p original dir cand (writeAtomic fs (outputPath p.inputPath dir) cand s).2:=by
  have htaken : fs.content s (outputPath p.inputPath dir)≠none:=by
    rw [h.output.content]
    simp
  have hsame : NoLookalike fs s (outputPath p.inputPath dir) cand:=by
    intro c hc r _ _
    rw [h.output.content] at hc
    exact (some.inj hc).symm
  refine h.of_kept (writeAtomic_taken (Or.inl htaken)) (writeAtomic_settles hsame hdone).part
    (writeAtomic_other (output_ne_provenance _ dir).symm (part_ne_provenance _ dir).symm)
    (writeAtomic_other (output_ne_provenancePart _ dir).symm (part_ne_provenancePart _ dir).symm)
    ?_
  rw [content,writeAtomic_input,content]

theorem persist_again (h:Standing fs p original dir cand s)
    (hcalm:fs.failures (persist fs p dir cand s).disk≤fs.failures s) :
    (persist fs p dir cand s).ok=true ∧
      (persist fs p dir cand s).proposal=admitted p dir:=by
  rcases persist_cases fs p dir cand s with ⟨hdone,heq⟩ | ⟨e,herror,heq⟩
  · rw [heq] at hcalm ⊢
    have hrun : fs.Runs s (writeAtomic fs (outputPath p.inputPath dir) cand s).2:=writeAtomic_runs
    exact verifyOutput_again (writeAtomic_standing h hdone) (Nat.le_trans hcalm hrun.failures_le)
  · rw [heq] at hcalm
    exact absurd ((writeAtomic_again h.output hcalm).symm.trans herror)
      (some_ne_none e).symm

theorem inDirectory_runs : fs.Runs s (inDirectory fs p root dir cand s).disk:=by
  have hrun : fs.Runs s ((createRoot fs root s).andThen (createResultDirectory fs dir)).2:=
    Attempt.andThen_state (P:=fs.Runs s) createRoot_runs
      fun _ h=>h.trans createResultDirectory_runs
  unfold inDirectory
  rcases hw : (createRoot fs root s).andThen (createResultDirectory fs dir) with ⟨_ | e,v⟩
  · rw [hw] at hrun
    exact hrun.trans persist_runs
  · rwa [hw] at hrun

theorem partOf_append (dir:DiskPath) (x:Bytes) :
    partOf (dir++[x]) = dir++[x++bytes ".part"]:=by
  simp [partOf,extended]

/-- What lies in a directory is not on the way to it. -/
theorem not_above {x:Bytes} {sub:DiskPath} (h:sub <+: dir) : ¬(dir++[x]) <+: sub:=by
  intro hle
  have hlen:=hle.length_le
  have hsub:=h.length_le
  simp only [length_append,length_singleton] at hlen
  omega

theorem directories_standing (h:Standing fs p original dir cand s) (hsub:root <+: dir) :
    Standing fs p original dir cand (fs.call s (.createDirectories root)).2:=by
  have hkept : ∀x,fs.look (fs.call s (.createDirectories root)).2 (dir++[x]) =
      fs.look s (dir++[x]):=fun x=>fs.call_keeps s _ _ (not_above hsub)
  have hpart:=h.output.part
  refine h.of_kept (hkept _) ?_ (hkept _) ?_ (fs.createDirectories_content s root _)
  · unfold FreeOrFile at hpart ⊢
    rwa [outputPath,partOf_append,hkept,← partOf_append]
  · rw [provenanceIn,partOf_append,hkept]

theorem inDirectory_again (h:Standing fs p original dir cand s) (hsub:root <+: dir)
    (hroot:existingSymlink fs s root=false) (hdir:existingSymlink fs s dir=false)
    (hcalm:fs.failures (inDirectory fs p root dir cand s).disk≤fs.failures s) :
    (inDirectory fs p root dir cand s).ok=true ∧
      (inDirectory fs p root dir cand s).proposal=admitted p dir:=by
  have hcreated : fs.Runs s (createRoot fs root s).2:=createRoot_runs
  have hboth : fs.Runs s ((createRoot fs root s).andThen (createResultDirectory fs dir)).2:=
    Attempt.andThen_state (P:=fs.Runs s) hcreated fun _ h=>h.trans createResultDirectory_runs
  have hrooteq : createRoot fs root s = ((fs.call s (.createDirectories root)).1.error.map
      fun e => "cannot create repair root: "++e.message,
      (fs.call s (.createDirectories root)).2):=by
    simp only [createRoot,hroot,Bool.false_eq_true,if_false]
  have hdir' : existingSymlink fs (createRoot fs root s).2 dir=false:=
    existingSymlink_runs hcreated hdir
  have hdireq : createResultDirectory fs dir (createRoot fs root s).2 =
      ((fs.call (createRoot fs root s).2 (.createDirectories dir)).1.error.map
        fun e => "cannot create repair result directory: "++e.message,
        (fs.call (createRoot fs root s).2 (.createDirectories dir)).2):=by
    simp only [createResultDirectory,hdir',Bool.false_eq_true,if_false]
  have hstanding : Standing fs p original dir cand
      (createResultDirectory fs dir (createRoot fs root s).2).2:=by
    rw [hdireq]
    refine directories_standing ?_ (prefix_refl dir)
    rw [hrooteq]
    exact directories_standing h hsub
  have hdone : fs.failures ((createRoot fs root s).andThen (createResultDirectory fs dir)).2 ≤
      fs.failures s → ((createRoot fs root s).andThen (createResultDirectory fs dir)).1=none:=by
    refine andThen_calm hcreated (fun hle=>?_) fun hle=>?_
    · rw [hrooteq] at hle ⊢
      exact map_eq_none_iff.mpr (fs.succeeds .refl hle)
    · rw [hdireq] at hle ⊢
      exact map_eq_none_iff.mpr (fs.succeeds .refl hle)
  unfold inDirectory at hcalm ⊢
  rcases hw : (createRoot fs root s).andThen (createResultDirectory fs dir) with ⟨_ | e,v⟩
  · rw [hw] at hcalm hboth
    have hrootdone:=(Attempt.andThen_fst.mp (congrArg Prod.fst hw)).1
    have hv : (createResultDirectory fs dir (createRoot fs root s).2).2=v:=
      (congrArg Prod.snd (Attempt.andThen_of_none hrootdone)).symm.trans (congrArg Prod.snd hw)
    rw [hv] at hstanding
    exact persist_again hstanding (Nat.le_trans hcalm hboth.failures_le)
  · rw [hw] at hcalm hdone
    exact absurd (hdone hcalm) (by simp)

theorem materialize_admissible (fs:LinkDisk σ) (hadmissible:refusal p.proposal original=none)
    (hcand:candidate p.proposal original=some cand)
    (hroot:¬(p.repairRoot requestedRoot=p.inputPath ∨
      (p.repairRoot requestedRoot).dropLast=p.inputPath)) :
    materializeValidatedRepair fs p original requestedRoot s =
      if (sha256File fs s p.inputPath).1 = "" ∨
          (sha256File fs s p.inputPath).1 ≠ p.proposal.inputSha256 then
        refused p.cleared "input path no longer matches proposal parent SHA256"
          (sha256File fs s p.inputPath).2
      else inDirectory fs p.cleared (p.repairRoot requestedRoot)
        (p.resultDirectory requestedRoot) cand (sha256File fs s p.inputPath).2:=by
  unfold materializeValidatedRepair
  simp only [show p.cleared.proposal = p.proposal from rfl,
    show p.cleared.inputPath = p.inputPath from rfl,
    show p.cleared.repairRoot requestedRoot = p.repairRoot requestedRoot from rfl,
    show p.cleared.resultDirectory requestedRoot = p.resultDirectory requestedRoot from rfl,
    hadmissible,hcand,if_neg hroot]

theorem sha256Bytes_ne_empty (b:Bytes) : sha256Bytes b ≠ "" := by
  intro h
  have hlen:=sha256Bytes_length b
  rw [h] at hlen
  exact absurd hlen (by decide)

/-- Where everything stands and nothing fails, the call reports the same once more. -/
theorem materialize_again
    (h:Standing fs p.cleared original (p.resultDirectory requestedRoot) cand s)
    (hadmissible:refusal p.proposal original=none)
    (hcand:candidate p.proposal original=some cand)
    (hroot:¬(p.repairRoot requestedRoot=p.inputPath ∨
      (p.repairRoot requestedRoot).dropLast=p.inputPath))
    (hrootLink:existingSymlink fs s (p.repairRoot requestedRoot)=false)
    (hdirLink:existingSymlink fs s (p.resultDirectory requestedRoot)=false)
    (hcalm:fs.failures (materializeValidatedRepair fs p original requestedRoot s).disk ≤
      fs.failures s) :
    (materializeValidatedRepair fs p original requestedRoot s).ok=true ∧
      (materializeValidatedRepair fs p original requestedRoot s).proposal =
        admitted p.cleared (p.resultDirectory requestedRoot):=by
  have hread : fs.Runs s (sha256File fs s p.inputPath).2:=sha256File_runs s p.inputPath
  have heq:=materialize_admissible fs (s:=s) hadmissible hcand hroot
  rw [heq] at hcalm ⊢
  have hinput : (fs.call s (.read p.inputPath)).1.error=none:=by
    split at hcalm
    · exact fs.succeeds .refl hcalm
    · exact fs.succeeds inDirectory_runs hcalm
  have hlive : (sha256File fs s p.inputPath).1=p.proposal.inputSha256:=
    (sha256File_whole hinput h.input).trans h.parent
  have hlong : (sha256File fs s p.inputPath).1 ≠ "" := by
    rw [sha256File_whole hinput h.input]
    exact sha256Bytes_ne_empty original
  rw [if_neg (not_or.mpr ⟨hlong,not_not.mpr hlive⟩)] at hcalm ⊢
  exact inDirectory_again (h.of_look sha256File_eq) ⟨[_],rfl⟩
    (existingSymlink_runs hread hrootLink) (existingSymlink_runs hread hdirLink)
    (Nat.le_trans hcalm hread.failures_le)

theorem refusal_admitted (h:refusal p.proposal original=none) :
    refusal (admitted p dir).proposal original=none:=by
  have hstatic : p.proposal.staticReanalysisEligible=true:=by
    unfold refusal at h
    split at h
    · simp at h
    · rename_i hfirst
      simp only [not_or,Bool.not_eq_true,Bool.not_eq_false'] at hfirst
      exact hfirst.2.2
  rw [← h]
  unfold refusal
  rw [hstatic]
  rfl

theorem admitted_again (p:RepairMaterialization) (dir:DiskPath) :
    admitted (admitted p.cleared dir).cleared dir=admitted p.cleared dir:=rfl

theorem refusal_parent {p:RepairProposal} (h:refusal p original=none) :
    sha256Bytes original=p.inputSha256:=by
  unfold refusal at h
  by_contra hne
  split at h
  · simp at h
  · split at h
    · simp at h
    · split at h
      · simp at h
      · rw [if_pos (Or.inl hne)] at h
        simp at h

theorem repeatable (h:Undisturbed fs p (p.resultDirectory requestedRoot))
    (hlook:NoLookalikes fs p original (p.resultDirectory requestedRoot) s) :
    Repeatable fs p original requestedRoot s:=by
  unfold Repeatable
  dsimp only
  intro horiginal hok hcalm
  rcases materialize_outcome h hlook.output with
    ⟨⟨cand,u,hentered,hrun,hadmitted⟩,hinput⟩ | ⟨-,hnot⟩
  swap
  · exact absurd hok (by rw [hnot.ok];simp)
  generalize materializeValidatedRepair fs p original requestedRoot s = r at *
  obtain ⟨hcand,hsha⟩:=candidate_eq_some hentered.candidate
  obtain ⟨ok,q,t⟩:=r
  obtain rfl : q=admitted p.cleared (p.resultDirectory requestedRoot):=hadmitted.proposal
  have hrecord:=hadmitted.record (hlook.record.of_content (hentered.content _))
  have hstanding : Standing fs (admitted p.cleared (p.resultDirectory requestedRoot)).cleared
      original (p.resultDirectory requestedRoot) cand t:=by
    have hparent : sha256Bytes original=p.proposal.inputSha256:=refusal_parent hentered.admissible
    refine ⟨hadmitted.output,?_,hinput.trans horiginal,hparent,hsha⟩
    rwa [admitted_again]
  have hagain:=materialize_again hstanding (refusal_admitted hentered.admissible)
    hentered.candidate hentered.root (existingSymlink_runs hrun hentered.rootLink)
    (existingSymlink_runs hrun hentered.directoryLink) (Nat.le_of_eq hcalm)
  refine ⟨hagain.1,hagain.2,?_⟩
  have hlook' : ∀cand',candidateBytes p.proposal.changedRanges original=some cand' →
      NoLookalike fs t (outputPath p.inputPath (p.resultDirectory requestedRoot)) cand':=by
    intro cand' hcand' c hc _ _ _
    obtain rfl : cand=cand':=some.inj (hcand.symm.trans hcand')
    exact some.inj (hc.symm.trans hadmitted.output.content)
  have hundisturbed : Undisturbed fs (admitted p.cleared (p.resultDirectory requestedRoot))
      (p.resultDirectory requestedRoot):=⟨h.output,h.part,h.input⟩
  rcases materialize_outcome hundisturbed hlook' with
    ⟨⟨cand',u',hentered',-,hadmitted'⟩,-⟩ | ⟨-,hnot⟩
  · have hcand':=(candidate_eq_some hentered'.candidate).1
    obtain rfl : cand=cand':=some.inj (hcand.symm.trans hcand')
    exact hadmitted'.output.content.trans hadmitted.output.content.symm
  · exact absurd hagain.1 (by rw [hnot.ok];simp)

theorem publish_part {d:Bytes} {dest:DiskPath} (hremove:fs.Removable (partOf dest)) :
    fs.look (publish fs dest d s).2 (partOf dest)=DiskEntry.missing:=by
  unfold publish compareExisting linkPart afterRemoving
  dsimp only
  split
  · split
    · split
      · exact fs.removed hremove _
      · exact fs.removed hremove _
    · exact fs.removed hremove _
  · split
    · exact fs.removed hremove _
    · exact fs.removed hremove _

theorem writeAtomic_part {d:Bytes} {dest:DiskPath} (hremove:fs.Removable (partOf dest))
    (h:(writeAtomic fs dest d s).1=none) :
    fs.look (writeAtomic fs dest d s).2 (partOf dest)=DiskEntry.missing:=by
  rcases writeAtomic_cases fs dest d s with ⟨e,heq⟩ | ⟨-,-,heq⟩
  · rw [heq] at h
    simp at h
  · rw [heq] at h ⊢
    rw [Attempt.andThen_of_none (Attempt.andThen_fst.mp h).1]
    exact publish_part hremove

theorem recordProvenance_part (hremove:fs.Removable (partOf (provenanceIn dir)))
    (hok:(recordProvenance fs p dir outputPreexisting s).ok=true) :
    fs.content (recordProvenance fs p dir outputPreexisting s).disk (partOf (provenanceIn dir)) =
      none:=by
  rcases recordProvenance_cases fs p dir outputPreexisting s with ⟨hdone,heq⟩ | ⟨e,-,heq⟩
  · rw [heq]
    exact congrArg DiskEntry.content (writeAtomic_part hremove hdone)
  · rw [heq] at hok
    exact absurd hok (by simp [refused])

/-- An input that stands where the part file of the record goes is gone after a success. -/
theorem input_removed (hremove:fs.Removable (partOf (provenanceIn
      (p.resultDirectory requestedRoot))))
    (hinput:p.inputPath=partOf (provenanceIn (p.resultDirectory requestedRoot)))
    (hok:(materializeValidatedRepair fs p original requestedRoot s).ok=true) :
    fs.content (materializeValidatedRepair fs p original requestedRoot s).disk p.inputPath =
      none:=by
  rcases materialize_cases fs p original requestedRoot s with ⟨why,t,heq,-⟩ |
    ⟨cand,u,-,heq⟩
  · rw [heq] at hok
    exact absurd hok (by simp [refused])
  · rw [heq] at hok ⊢
    rw [hinput]
    rcases persist_cases fs p.cleared (p.resultDirectory requestedRoot) cand u with
      ⟨-,hpersist⟩ | ⟨e,-,hpersist⟩
    · rw [hpersist] at hok ⊢
      unfold verifyOutput at hok ⊢
      dsimp only at hok ⊢
      split at hok
      · exact absurd hok (by simp [refused])
      · rename_i hpersisted
        rw [if_neg hpersisted]
        split at hok
        · exact absurd hok (by simp [refused])
        · rename_i hlive
          rw [if_neg hlive]
          exact recordProvenance_part hremove hok
    · rw [hpersist] at hok
      exact absurd hok (by simp [refused])

section Memory

variable {m : LinkMemory} {input : DiskPath} {d : Bytes} {dest : DiskPath}

theorem memory_existingSymlink : existingSymlink LinkMemory.disk m q=false:=
  existingSymlink_eq_false.mpr (LinkMemory.entry_symlinkStatus m q)

theorem memory_sha256File {b:Bytes} (h:m.files q=some b) :
    sha256File LinkMemory.disk m q=(sha256Bytes b,m):=by
  simp [sha256File,LinkMemory.disk,LinkMemory.call,h]

theorem memory_createRoot : createRoot LinkMemory.disk root m=(none,m):=by
  rw [createRoot,memory_existingSymlink]
  rfl

theorem memory_createResultDirectory : createResultDirectory LinkMemory.disk dir m=(none,m):=by
  rw [createResultDirectory,memory_existingSymlink]
  rfl

theorem memory_preparePart : (preparePart LinkMemory.disk q d m).1=none:=by
  rw [preparePart,Attempt.andThen_fst,Attempt.andThen_fst,Attempt.andThen_fst]
  refine ⟨⟨⟨?_,rfl⟩,rfl⟩,rfl⟩
  cases h : m.files q <;>
    simp [clearStale,seen,isRegularFile,LinkMemory.disk,LinkMemory.entry,LinkMemory.call,h]

theorem memory_publish (h:m.files dest=none) : (publish LinkMemory.disk dest d m).1=none:=by
  simp [publish,seen,linkPart,LinkMemory.disk,LinkMemory.entry,LinkMemory.call,h]

theorem memory_writeAtomic (h:m.files dest=none) :
    (writeAtomic LinkMemory.disk dest d m).1=none:=by
  have hkept : LinkMemory.disk.look (preparePart LinkMemory.disk (partOf dest) d m).2 dest =
      LinkMemory.disk.look m dest:=preparePart_other (partOf_ne dest).symm
  simp only [writeAtomic,memory_existingSymlink,Bool.false_eq_true,if_false]
  refine Attempt.andThen_fst.mpr ⟨memory_preparePart,memory_publish ?_⟩
  exact (congrArg DiskEntry.content hkept).trans h

theorem memory_recordProvenance {outputPreexisting:Bool} (h:m.files (provenanceIn dir)=none) :
    (recordProvenance LinkMemory.disk p dir outputPreexisting m).ok=true:=by
  rcases recordProvenance_cases LinkMemory.disk p dir outputPreexisting m with ⟨-,heq⟩ |
    ⟨e,herror,heq⟩
  · rw [heq]
  · exact absurd ((memory_writeAtomic h).symm.trans herror) (some_ne_none e).symm

theorem memory_materialize (hadmissible:refusal p.proposal original=none)
    (hcand:candidate p.proposal original=some cand)
    (hroot:¬(p.repairRoot requestedRoot=p.inputPath ∨
      (p.repairRoot requestedRoot).dropLast=p.inputPath))
    (hinput:m.files p.inputPath=some original)
    (hfree:∀x,p.resultDirectory requestedRoot++[x] ≠ p.inputPath →
      m.files (p.resultDirectory requestedRoot++[x])=none)
    (hrecord:p.inputPath≠provenanceIn (p.resultDirectory requestedRoot)) :
    (materializeValidatedRepair LinkMemory.disk p original requestedRoot m).ok=true:=by
  have hparent:=refusal_parent hadmissible
  have hdirs : (createRoot LinkMemory.disk (p.repairRoot requestedRoot) m).andThen
      (createResultDirectory LinkMemory.disk (p.resultDirectory requestedRoot))=(none,m):=by
    rw [memory_createRoot]
    exact memory_createResultDirectory
  rw [materialize_admissible LinkMemory.disk hadmissible hcand hroot,memory_sha256File hinput,
    if_neg (not_or.mpr ⟨sha256Bytes_ne_empty _,not_not.mpr hparent⟩)]
  simp only [inDirectory,hdirs]
  have hout:=hfree _ (input_ne_output p.inputPath (p.resultDirectory requestedRoot)).symm
  have hnone : NoLookalike LinkMemory.disk m
      (outputPath p.inputPath (p.resultDirectory requestedRoot)) cand:=
    fun c hc=>absurd (hout.symm.trans hc) (by simp)
  have hdone : (writeAtomic LinkMemory.disk
      (outputPath p.inputPath (p.resultDirectory requestedRoot)) cand m).1=none:=
    memory_writeAtomic hout
  have hsettled:=writeAtomic_settles hnone hdone
  have hlive : LinkMemory.disk.look (writeAtomic LinkMemory.disk
      (outputPath p.inputPath (p.resultDirectory requestedRoot)) cand m).2 p.inputPath =
      LinkMemory.disk.look m p.inputPath:=writeAtomic_input _ _
  have hfreeRecord : LinkMemory.disk.look (writeAtomic LinkMemory.disk
      (outputPath p.inputPath (p.resultDirectory requestedRoot)) cand m).2
        (provenanceIn (p.resultDirectory requestedRoot)) =
      LinkMemory.disk.look m (provenanceIn (p.resultDirectory requestedRoot)):=
    writeAtomic_other (output_ne_provenance _ _).symm (part_ne_provenance _ _).symm
  rcases persist_cases LinkMemory.disk p.cleared (p.resultDirectory requestedRoot) cand m with
    ⟨-,heq⟩ | ⟨e,herror,heq⟩
  · have hv:=(congrArg DiskEntry.content hlive).trans hinput
    have hrecordFree:=(congrArg DiskEntry.content hfreeRecord).trans (hfree _ hrecord.symm)
    have hproposed : sha256Bytes cand=p.cleared.proposal.proposedResultSha256:=
      (candidate_eq_some hcand).2
    have hparent' : sha256Bytes original=p.cleared.proposal.inputSha256:=hparent
    rw [heq]
    simp only [verifyOutput,show p.cleared.inputPath = p.inputPath from rfl,
      memory_sha256File hsettled.content,memory_sha256File hv]
    rw [if_neg (not_not.mpr hproposed),if_neg (not_not.mpr hparent')]
    exact memory_recordProvenance hrecordFree
  · exact absurd (hdone.symm.trans herror) (some_ne_none e).symm

end Memory

/-- The call on a small proposal. -/
def patched : RepairProposal where
  inputPath := "input"
  inputSha256 := sha256Bytes [0]
  inputSize := 1
  repairClass := .metadataNormalization
  state := .validated
  changedRanges := [⟨0,[0],[1],sha256Bytes [0],sha256Bytes [1],"one byte",false,false⟩]
  validations := [⟨.internalStructure,.pass,.none,""⟩,
    ⟨.formatPackerInvariant,.pass,.none,""⟩,
    ⟨.exactReferenceChosenInputOracle,.pass,.none,""⟩]
  proposedResultSha256 := sha256Bytes [1]
  staticReanalysisEligible := true

def patchedAt (input : DiskPath) : RepairMaterialization :=
  {proposal:=patched,inputPath:=input}

def onlyInput (input : DiskPath) : LinkMemory :=
  {files:=Function.update (fun _ => none) input (some [0])}

theorem onlyInput_self (input:DiskPath) : (onlyInput input).files input=some [0]:=by
  simp [onlyInput]

theorem onlyInput_other {input:DiskPath} (h:q≠input) : (onlyInput input).files q=none:=by
  simp [onlyInput,Function.update_of_ne h]

theorem onlyInput_content (input:DiskPath) :
    LinkMemory.disk.content (onlyInput input) (patchedAt input).inputPath=some [0]:=
  onlyInput_self input

theorem patched_refusal : refusal patched [0]=none:=by
  simp [refusal,patched,passed,sha256Bytes_ne_empty,changedBytes,kHardMaxArtifactBytes,
    kHardMaxRanges,kHardMaxChangedBytes]

theorem patched_candidate : candidate patched [0]=some [1]:=by
  have hbytes : candidateBytes patched.changedRanges [0]=some [1]:=rfl
  rw [candidate,hbytes]
  simp [patched]

/-- In every run in which the files of the repair can be removed, materialization is all or nothing
and can be repeated. -/
theorem materializeValidatedRepair_sound (h : Undisturbed fs p (p.resultDirectory requestedRoot))
    (hlook : NoLookalikes fs p original (p.resultDirectory requestedRoot) s) :
    AllOrNothing fs p original requestedRoot s ∧ Repeatable fs p original requestedRoot s :=
  ⟨all_or_nothing h hlook,repeatable h hlook⟩

theorem all_or_nothing_beside :
    AllOrNothing LinkMemory.disk (patchedAt [[105]]) [0] [[114]] (onlyInput [[105]]) ∧
      Repeatable LinkMemory.disk (patchedAt [[105]]) [0] [[114]] (onlyInput [[105]]):=by
  have hfree : ∀x,(onlyInput [[105]]).files ((patchedAt [[105]]).resultDirectory [[114]]++[x]) =
      none:=by
    intro x
    have hne : (patchedAt [[105]]).resultDirectory [[114]]++[x] ≠ [[105]]:=fun h=>
      absurd (congrArg List.length h) (by simp [resultDirectory,repairRoot])
    exact onlyInput_other hne
  refine materializeValidatedRepair_sound ⟨fun _=>rfl,fun _=>rfl,fun h=>?_⟩
    ⟨fun _ _ c hc=>?_,fun c hc=>?_⟩
  · rw [provenanceIn,partOf_append] at h
    exact absurd (congrArg List.length h) (by simp [resultDirectory,repairRoot,patchedAt])
  · have hnone : (onlyInput [[105]]).files (outputPath (patchedAt [[105]]).inputPath
        ((patchedAt [[105]]).resultDirectory [[114]])) = none:=hfree _
    exact absurd (hnone.symm.trans hc) (by simp)
  · have hnone : (onlyInput [[105]]).files
        (provenanceIn ((patchedAt [[105]]).resultDirectory [[114]]))=none:=hfree _
    exact absurd (hnone.symm.trans hc) (by simp)

def recordPart : DiskPath := partOf (provenanceIn [[114],bytes (sha256Bytes [1])])

theorem patchedAt_lost {input:DiskPath} (h:input=recordPart) :
    ¬AllOrNothing LinkMemory.disk (patchedAt input) [0] [[114]] (onlyInput input):=by
  intro hall
  have hdir : (patchedAt input).resultDirectory [[114]]=[[114],bytes (sha256Bytes [1])]:=rfl
  have hlong : (patchedAt input).inputPath.length=3:=by
    change input.length=3
    rw [h,recordPart,provenanceIn,partOf_append]
    rfl
  have hplace : (patchedAt input).inputPath =
      partOf (provenanceIn ((patchedAt input).resultDirectory [[114]])):=by
    rw [hdir]
    exact h
  have hok : (materializeValidatedRepair LinkMemory.disk (patchedAt input) [0] [[114]]
      (onlyInput input)).ok=true:=by
    refine memory_materialize patched_refusal patched_candidate ?_ (onlyInput_content input) ?_ ?_
    · rintro (hroot | hroot)
      · have hlen:=congrArg List.length hroot
        rw [hlong] at hlen
        exact absurd hlen (by simp [repairRoot])
      · have hlen:=congrArg List.length hroot
        rw [hlong] at hlen
        exact absurd hlen (by simp [repairRoot])
    · intro x hne
      exact onlyInput_other hne
    · rw [hplace]
      exact partOf_ne _
  have hlost:=input_removed (fun _=>rfl) hplace hok
  exact absurd (hlost.symm.trans (hall.1.trans (onlyInput_content input))) (by simp)

theorem not_all_or_nothing :
    ¬AllOrNothing LinkMemory.disk (patchedAt recordPart) [0] [[114]] (onlyInput recordPart):=
  patchedAt_lost rfl

end AutoRefirst.Repair.RepairMaterialization
