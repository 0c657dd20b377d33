import AutoRefirst.RepairPublishing

/-!
# Materialization is all or nothing

Either the repaired bytes are at the final name, or nothing new is there and no path is reported,
wherever a call of the disk fails.
-/

namespace AutoRefirst.Repair.RepairMaterialization
open List Option

open LinkDisk

variable {σ : Type} {fs : LinkDisk σ} {s t u : σ} {p : RepairMaterialization}
  {original cand : Bytes} {requestedRoot root dir out q : DiskPath}

variable (input : DiskPath)

theorem baseName_length : (lastName input).length≤(baseName input).length:=by
  unfold baseName lastName
  dsimp only
  split
  · rename_i hempty
    rw [hempty]
    exact Nat.zero_le _
  · exact Nat.le_refl _

theorem lastName_outputPath (dir:DiskPath) :
    lastName (outputPath input dir) = baseName input++bytes ".repaired" := lastName_append _ _

theorem lastName_provenanceIn (dir:DiskPath) :
    lastName (provenanceIn dir) = bytes "provenance.json" := lastName_append _ _

theorem lastName_partOf (p:DiskPath) : lastName (partOf p) = lastName p++bytes ".part" :=
  lastName_extended p _

theorem input_ne_output (dir:DiskPath) : input≠outputPath input dir:=by
  intro h
  have hlen:=congrArg (fun p=>(lastName p).length) h
  simp only [lastName_outputPath,length_append] at hlen
  have hbase:=baseName_length input
  have hext : (bytes ".repaired").length=9:=by decide
  omega

theorem input_ne_part (dir:DiskPath) : input≠partOf (outputPath input dir):=by
  intro h
  have hlen:=congrArg (fun p=>(lastName p).length) h
  simp only [lastName_partOf,lastName_outputPath,length_append] at hlen
  have hbase:=baseName_length input
  have hext : (bytes ".repaired").length=9:=by decide
  omega

theorem lastByte_output (dir:DiskPath) :
    (lastName (outputPath input dir)).getLast? = some (byte 'd'):=by
  rw [lastName_outputPath,getLast?_append_of_ne_nil _ (by decide)]
  decide

theorem lastByte_part (p:DiskPath) : (lastName (partOf p)).getLast? = some (byte 't'):=by
  rw [lastName_partOf,getLast?_append_of_ne_nil _ (by decide)]
  decide

theorem lastByte_provenance (dir:DiskPath) :
    (lastName (provenanceIn dir)).getLast? = some (byte 'n'):=by
  rw [lastName_provenanceIn]
  decide

theorem ne_of_lastByte {p q:DiskPath} {a b:UInt8} (hp:(lastName p).getLast? = some a)
    (hq:(lastName q).getLast? = some b) (hab:a≠b) : p≠q:=by
  intro h
  rw [h,hq] at hp
  exact hab (some.inj hp).symm

theorem output_ne_provenance (dir:DiskPath) : outputPath input dir≠provenanceIn dir:=
  ne_of_lastByte (lastByte_output input dir) (lastByte_provenance dir) (by decide)

theorem output_ne_provenancePart (dir:DiskPath) :
    outputPath input dir≠partOf (provenanceIn dir):=
  ne_of_lastByte (lastByte_output input dir) (lastByte_part _) (by decide)

theorem part_ne_provenance (dir:DiskPath) : partOf (outputPath input dir)≠provenanceIn dir:=
  ne_of_lastByte (lastByte_part _) (lastByte_provenance dir) (by decide)

theorem part_ne_provenancePart (dir:DiskPath) :
    partOf (outputPath input dir)≠partOf (provenanceIn dir):=by
  intro h
  have hname:=congrArg lastName h
  rw [lastName_partOf,lastName_partOf] at hname
  have hlast:=congrArg List.getLast? (append_cancel_right hname)
  rw [lastByte_output,lastByte_provenance] at hlast
  exact absurd hlast (by decide)

/-- Nothing is reported but the error, and nothing new is at the final name. -/
structure NotMaterialized (fs : LinkDisk σ) (out : DiskPath) (s : σ) (r : Materialization σ) :
    Prop where
  ok : r.ok=false
  materialized : r.proposal.materialized=false
  resultPath : r.proposal.resultPath=[]
  provenancePath : r.proposal.provenancePath=[]
  resultSha256 : r.proposal.resultSha256 = ""
  output : fs.content r.disk out = none ∨ fs.content r.disk out = fs.content s out

structure Complete (fs : LinkDisk σ) (p : RepairMaterialization) (original : Bytes)
    (out : DiskPath) (r : Materialization σ) : Prop where
  ok : r.ok=true
  materialized : r.proposal.materialized=true
  resultPath : r.proposal.resultPath=out
  output : ∃ cand, candidateBytes p.proposal.changedRanges original = some cand ∧
    sha256Bytes cand = p.proposal.proposedResultSha256 ∧ fs.content r.disk out = some cand

theorem refused_notMaterialized {why:String}
    (hout:fs.content t out=none ∨ fs.content t out=fs.content s out) :
    NotMaterialized fs out s (refused p.cleared why t):=
  ⟨rfl,rfl,rfl,rfl,rfl,hout⟩

theorem withdrawn_notMaterialized {why:String}
    (hout:fs.content t out=none ∨ fs.content t out=fs.content s out) :
    NotMaterialized fs out s (refused (withdrawn p.cleared) why t):=
  ⟨rfl,rfl,rfl,rfl,rfl,hout⟩

variable {outputPreexisting : Bool}

theorem discard_other (h:q≠out) : fs.look (discard fs outputPreexisting out s) q=fs.look s q:=by
  unfold discard
  split
  · rfl
  · exact fs.call_keeps s (.remove out) q h

theorem discard_runs : fs.Runs s (discard fs outputPreexisting out s):=by
  unfold discard
  split
  · exact .refl
  · exact .one _

theorem seen_of_isRegularFile {p:DiskPath} (h:isRegularFile fs s p=true) :
    seen fs s p=true:=by
  simp [seen,isRegularFile_eq.mp h]

/-- After what was published is taken back, the final name is free or as it was. -/
theorem discard_output (hremove:fs.Removable out)
    (hout:fs.look t out=fs.look (writeAtomic fs out cand s).2 out) :
    fs.content (discard fs (isRegularFile fs s out) out t) out=none ∨
      fs.content (discard fs (isRegularFile fs s out) out t) out=fs.content s out:=by
  unfold discard
  split
  · rename_i hpre
    refine .inr ?_
    rw [content,hout,writeAtomic_taken (.inr (seen_of_isRegularFile hpre)),content]
  · refine .inl ?_
    rw [content,fs.removed hremove]
    rfl

theorem recordProvenance_cases (fs:LinkDisk σ) (p:RepairMaterialization) (dir:DiskPath)
    (outputPreexisting:Bool) (s:σ) :
    ((writeAtomic fs (provenanceIn dir) (renderRepairJson (admitted p dir)) s).1=none ∧
      recordProvenance fs p dir outputPreexisting s = ⟨true,admitted p dir,
        (writeAtomic fs (provenanceIn dir) (renderRepairJson (admitted p dir)) s).2⟩) ∨
    ∃e,(writeAtomic fs (provenanceIn dir) (renderRepairJson (admitted p dir)) s).1=some e ∧
      recordProvenance fs p dir outputPreexisting s =
        refused (withdrawn p) ("provenance persistence failed: "++e)
          (discard fs outputPreexisting (outputPath p.inputPath dir)
            (writeAtomic fs (provenanceIn dir) (renderRepairJson (admitted p dir)) s).2):=by
  have hplace : (admitted p dir).provenancePath=provenanceIn dir:=rfl
  unfold recordProvenance
  dsimp only
  rw [hplace]
  rcases writeAtomic fs (provenanceIn dir) (renderRepairJson (admitted p dir)) s with ⟨_ | e,v⟩
  · exact .inl ⟨rfl,rfl⟩
  · exact .inr ⟨e,rfl,rfl⟩

theorem recordProvenance_runs : fs.Runs s (recordProvenance fs p dir outputPreexisting s).disk:=by
  rcases recordProvenance_cases fs p dir outputPreexisting s with ⟨-,heq⟩ | ⟨e,-,heq⟩
  · rw [heq]
    exact writeAtomic_runs
  · rw [heq]
    exact writeAtomic_runs.trans discard_runs

theorem verifyOutput_after : fs.Runs (sha256File fs s (outputPath p.inputPath dir)).2
      (verifyOutput fs p dir outputPreexisting s).disk:=by
  unfold verifyOutput
  dsimp only
  split
  · exact discard_runs
  · split
    · exact (sha256File_runs _ _).trans discard_runs
    · exact (sha256File_runs _ _).trans recordProvenance_runs

theorem verifyOutput_runs : fs.Runs s (verifyOutput fs p dir outputPreexisting s).disk:=
  (sha256File_runs s _).trans verifyOutput_after

theorem persist_cases (fs:LinkDisk σ) (p:RepairMaterialization) (dir:DiskPath) (cand:Bytes) (s:σ) :
    ((writeAtomic fs (outputPath p.inputPath dir) cand s).1=none ∧ persist fs p dir cand s =
        verifyOutput fs p dir (isRegularFile fs s (outputPath p.inputPath dir))
          (writeAtomic fs (outputPath p.inputPath dir) cand s).2) ∨
    ∃e,(writeAtomic fs (outputPath p.inputPath dir) cand s).1=some e ∧ persist fs p dir cand s =
        refused p e (writeAtomic fs (outputPath p.inputPath dir) cand s).2:=by
  unfold persist
  dsimp only
  rcases writeAtomic fs (outputPath p.inputPath dir) cand s with ⟨_ | e,v⟩
  · exact .inl ⟨rfl,rfl⟩
  · exact .inr ⟨e,rfl,rfl⟩

theorem persist_runs : fs.Runs s (persist fs p dir cand s).disk:=by
  rcases persist_cases fs p dir cand s with ⟨-,heq⟩ | ⟨e,-,heq⟩
  · rw [heq]
    exact writeAtomic_runs.trans verifyOutput_runs
  · rw [heq]
    exact writeAtomic_runs

variable {d : Bytes}

/-- The record is written without touching the input. -/
theorem provenance_input {input:DiskPath} (halias:input≠partOf (provenanceIn dir))
    (hinput:fs.content s input≠none) :
    fs.look (writeAtomic fs (provenanceIn dir) d s).2 input=fs.look s input:=by
  by_cases h : input=provenanceIn dir
  · subst h
    exact writeAtomic_taken (.inl hinput)
  · exact writeAtomic_other h halias

/-- What materialization leaves when it reports success. -/
structure Admitted (fs : LinkDisk σ) (p : RepairMaterialization) (dir : DiskPath) (cand : Bytes)
    (s : σ) (r : Materialization σ) : Prop where
  ok : r.ok=true
  proposal : r.proposal = admitted p.cleared dir
  output : Settled fs r.disk (outputPath p.inputPath dir) cand
  record : NoLookalike fs s (provenanceIn dir) (renderRepairJson (admitted p.cleared dir)) →
    Settled fs r.disk (provenanceIn dir) (renderRepairJson (admitted p.cleared dir))

/-- The input is as it was, and the rest is all or nothing. -/
structure Outcome (fs : LinkDisk σ) (p : RepairMaterialization) (dir : DiskPath) (cand : Bytes)
    (s : σ) (r : Materialization σ) : Prop where
  input : fs.content r.disk p.inputPath = fs.content s p.inputPath
  output : NotMaterialized fs (outputPath p.inputPath dir) s r ∨ Admitted fs p dir cand s r

/-- Every removal that the outcome depends on succeeds, and the input is in nobody's way. -/
structure Undisturbed (fs : LinkDisk σ) (p : RepairMaterialization) (dir : DiskPath) : Prop where
  output : fs.Removable (outputPath p.inputPath dir)
  part : fs.Removable (partOf (outputPath p.inputPath dir))
  input : p.inputPath≠partOf (provenanceIn dir)

theorem writeAtomic_input (dir:DiskPath) :
    fs.look (writeAtomic fs (outputPath input dir) d s).2 input=fs.look s input:=
  writeAtomic_other (input_ne_output input dir) (input_ne_part input dir)

theorem recordProvenance_outcome (h:Undisturbed fs p dir) (hinput:fs.content s p.inputPath≠none)
    (hlook:fs.look t=fs.look (writeAtomic fs (outputPath p.inputPath dir) cand s).2)
    (hsettled:Settled fs t (outputPath p.inputPath dir) cand) :
    Outcome fs p dir cand s (recordProvenance fs p.cleared dir
      (isRegularFile fs s (outputPath p.inputPath dir)) t):=by
  have hlive : fs.look t p.inputPath=fs.look s p.inputPath:=by
    rw [hlook,writeAtomic_input]
  have hlive' : fs.content t p.inputPath≠none:=by rwa [content,hlive]
  have hkept:=provenance_input (d:=renderRepairJson (admitted p.cleared dir)) h.input hlive'
  have hout : fs.look (writeAtomic fs (provenanceIn dir)
      (renderRepairJson (admitted p.cleared dir)) t).2 (outputPath p.inputPath dir) =
      fs.look t (outputPath p.inputPath dir):=
    writeAtomic_other (output_ne_provenance _ dir) (output_ne_provenancePart _ dir)
  have hpart : fs.look (writeAtomic fs (provenanceIn dir)
      (renderRepairJson (admitted p.cleared dir)) t).2 (partOf (outputPath p.inputPath dir)) =
      fs.look t (partOf (outputPath p.inputPath dir)):=
    writeAtomic_other (part_ne_provenance _ dir) (part_ne_provenancePart _ dir)
  have hrecord : NoLookalike fs s (provenanceIn dir)
      (renderRepairJson (admitted p.cleared dir)) →
      NoLookalike fs t (provenanceIn dir) (renderRepairJson (admitted p.cleared dir)):=by
    intro hs
    refine hs.of_kept ?_
    rw [hlook]
    exact writeAtomic_other (output_ne_provenance p.inputPath dir).symm
      (part_ne_provenance p.inputPath dir).symm
  rcases recordProvenance_cases fs p.cleared dir
      (isRegularFile fs s (outputPath p.inputPath dir)) t with ⟨hdone,heq⟩ | ⟨e,-,heq⟩
  · rw [heq]
    refine ⟨?_,.inr ⟨rfl,rfl,hsettled.of_kept hout hpart,fun hs=>?_⟩⟩
    · rw [content,hkept,hlive,content]
    · exact writeAtomic_settles (hrecord hs) hdone
  · rw [heq]
    have hpublished : fs.look (writeAtomic fs (provenanceIn dir)
        (renderRepairJson (admitted p.cleared dir)) t).2 (outputPath p.inputPath dir) =
        fs.look (writeAtomic fs (outputPath p.inputPath dir) cand s).2
          (outputPath p.inputPath dir):=by rw [hout,hlook]
    refine ⟨?_,.inl (withdrawn_notMaterialized (discard_output h.output hpublished))⟩
    change fs.content (discard fs _ (outputPath p.inputPath dir) _) p.inputPath=_
    rw [content,discard_other (input_ne_output _ dir),hkept,hlive,content]

theorem verifyOutput_outcome (h:Undisturbed fs p dir) (hinput:fs.content s p.inputPath≠none)
    (hlook:fs.look t=fs.look (writeAtomic fs (outputPath p.inputPath dir) cand s).2)
    (hsettled:Settled fs t (outputPath p.inputPath dir) cand) :
    Outcome fs p dir cand s (verifyOutput fs p.cleared dir
      (isRegularFile fs s (outputPath p.inputPath dir)) t):=by
  have hread : ∀(u:σ) (q:DiskPath),fs.look (sha256File fs u q).2=fs.look u:=
    fun u q=>funext fun r=>sha256File_look u q r
  have hback : ∀(u:σ) (why:String),
      fs.look u=fs.look (writeAtomic fs (outputPath p.inputPath dir) cand s).2 →
      Outcome fs p dir cand s (refused p.cleared why
        (discard fs (isRegularFile fs s (outputPath p.inputPath dir))
          (outputPath p.inputPath dir) u)):=by
    intro u why hu
    refine ⟨?_,.inl (refused_notMaterialized (discard_output h.output (by rw [hu])))⟩
    change fs.content (discard fs _ _ u) p.inputPath=_
    rw [content,discard_other (input_ne_output _ dir),hu,writeAtomic_input,content]
  unfold verifyOutput
  dsimp only
  split
  · exact hback _ _ (by rw [hread,hlook])
  · split
    · refine hback _ _ ?_
      rw [hread,hread,hlook]
    · refine recordProvenance_outcome h hinput ?_ (hsettled.of_kept ?_ ?_)
      · rw [hread,hread,hlook]
      · rw [hread,hread]
      · rw [hread,hread]

/-- Materialization in its directory is all or nothing. -/
theorem persist_outcome (h:Undisturbed fs p dir) (hinput:fs.content s p.inputPath≠none)
    (hlook:NoLookalike fs s (outputPath p.inputPath dir) cand) :
    Outcome fs p dir cand s (persist fs p.cleared dir cand s):=by
  rcases persist_cases fs p.cleared dir cand s with ⟨hdone,heq⟩ | ⟨e,herror,heq⟩
  · rw [heq]
    exact verifyOutput_outcome h hinput rfl (writeAtomic_settles hlook hdone)
  · rw [heq]
    have hout:=writeAtomic_failed (d:=cand) (s:=s) h.part
      (ne_of_eq_of_ne herror (some_ne_none e))
    refine ⟨?_,.inl (refused_notMaterialized (.inr (congrArg DiskEntry.content hout)))⟩
    exact congrArg DiskEntry.content (writeAtomic_input p.inputPath dir)

/-- What lies behind a call that got as far as its directory. -/
structure Entered (fs : LinkDisk σ) (p : RepairMaterialization) (original : Bytes)
    (requestedRoot : DiskPath) (cand : Bytes) (s u : σ) : Prop where
  content : ∀ q, fs.content u q = fs.content s q
  live : fs.content s p.inputPath ≠ none
  admissible : refusal p.proposal original = none
  candidate : candidate p.proposal original = some cand
  root : ¬(p.repairRoot requestedRoot = p.inputPath ∨
    (p.repairRoot requestedRoot).dropLast = p.inputPath)
  rootLink : existingSymlink fs u (p.repairRoot requestedRoot) = false
  directoryLink : existingSymlink fs u (p.resultDirectory requestedRoot) = false

theorem existingSymlink_runs (hrun:fs.Runs s t) (h:existingSymlink fs s q=false) :
    existingSymlink fs t q=false:=by
  rw [existingSymlink_eq_false] at h ⊢
  exact fun ht=>h (hrun.links ht)

theorem createRoot_content : fs.content (createRoot fs root s).2 q=fs.content s q:=by
  unfold createRoot
  split
  · rfl
  · exact fs.createDirectories_content s root q

theorem createResultDirectory_content :
    fs.content (createResultDirectory fs dir s).2 q=fs.content s q:=by
  unfold createResultDirectory
  split
  · rfl
  · exact fs.createDirectories_content s dir q

theorem createRoot_runs : fs.Runs s (createRoot fs root s).2:=by
  unfold createRoot
  split
  · exact .refl
  · exact .one _

theorem createResultDirectory_runs : fs.Runs s (createResultDirectory fs dir s).2:=by
  unfold createResultDirectory
  split
  · exact .refl
  · exact .one _

theorem createRoot_link (h:(createRoot fs root s).1=none) : existingSymlink fs s root=false:=by
  unfold createRoot at h
  split at h
  · simp at h
  · rename_i hlink
    exact Bool.not_eq_true _▸hlink

theorem createResultDirectory_link (h:(createResultDirectory fs dir s).1=none) :
    existingSymlink fs s dir=false:=by
  unfold createResultDirectory at h
  split at h
  · simp at h
  · rename_i hlink
    exact Bool.not_eq_true _▸hlink

theorem directories_content : fs.content ((createRoot fs root s).andThen
    (createResultDirectory fs dir)).2 q = fs.content s q:=
  Attempt.andThen_state (P:=fun u=>fs.content u q = fs.content s q) createRoot_content
    fun _ hu=>createResultDirectory_content.trans hu

theorem inDirectory_cases (fs:LinkDisk σ) (p:RepairMaterialization) (root dir:DiskPath)
    (cand:Bytes) (s:σ) :
    (∃why t,inDirectory fs p root dir cand s=refused p why t ∧ ∀q,fs.content t q=fs.content s q) ∨
    ∃u,inDirectory fs p root dir cand s=persist fs p dir cand u ∧
      (∀q,fs.content u q=fs.content s q) ∧ existingSymlink fs u root=false ∧
        existingSymlink fs u dir=false:=by
  have hcontent : ∀q,fs.content ((createRoot fs root s).andThen
      (createResultDirectory fs dir)).2 q = fs.content s q:=fun q=>directories_content
  rcases hdir : (createRoot fs root s).andThen (createResultDirectory fs dir) with ⟨_ | e,u⟩
  · rw [hdir] at hcontent
    refine .inr ⟨u,by simp only [inDirectory,hdir],hcontent,?_⟩
    obtain ⟨hroot,hresult⟩:=Attempt.andThen_fst.mp (congrArg Prod.fst hdir)
    have hu : (createResultDirectory fs dir (createRoot fs root s).2).2=u:=
      (congrArg Prod.snd (Attempt.andThen_of_none hroot)).symm.trans (congrArg Prod.snd hdir)
    have hrun : fs.Runs (createRoot fs root s).2 u:=hu▸createResultDirectory_runs
    exact ⟨existingSymlink_runs (createRoot_runs.trans hrun) (createRoot_link hroot),
      existingSymlink_runs hrun (createResultDirectory_link hresult)⟩
  · rw [hdir] at hcontent
    exact .inl ⟨e,u,by simp only [inDirectory,hdir],hcontent⟩

theorem sha256File_there {input:DiskPath} (h:(sha256File fs s input).1 ≠ "") :
    fs.content s input≠none:=by
  intro hnone
  apply h
  cases hgot : (fs.call s (.read input)).1.got with
  | none=>simp only [sha256File,hgot]
  | some b=>
    obtain ⟨c,hc,-⟩:=fs.read_got s input b hgot
    rw [content,hc] at hnone
    simp at hnone

/-- A call is refused with the files as they were, or gets as far as its directory. -/
theorem materialize_cases (fs:LinkDisk σ) (p:RepairMaterialization) (original:Bytes)
    (requestedRoot:DiskPath) (s:σ) :
    (∃why t,materializeValidatedRepair fs p original requestedRoot s=refused p.cleared why t ∧
      ∀q,fs.content t q=fs.content s q) ∨
    ∃cand u,Entered fs p original requestedRoot cand s u ∧
      materializeValidatedRepair fs p original requestedRoot s =
        persist fs p.cleared (p.resultDirectory requestedRoot) cand u:=by
  have hread : ∀q,fs.content (sha256File fs s p.inputPath).2 q=fs.content s q:=
    fun q=>congrArg DiskEntry.content (sha256File_look s p.inputPath q)
  unfold materializeValidatedRepair
  dsimp only
  split
  · exact .inl ⟨_,_,rfl,fun _=>rfl⟩
  · rename_i hadmissible
    split
    · exact .inl ⟨_,_,rfl,hread⟩
    · rename_i hlive
      split
      · exact .inl ⟨_,_,rfl,hread⟩
      · rename_i cand hcand
        split
        · exact .inl ⟨_,_,rfl,hread⟩
        · rename_i hroot
          have hthere : fs.content s p.inputPath≠none:=
            sha256File_there fun hempty=>hlive (.inl hempty)
          rcases inDirectory_cases fs p.cleared (p.repairRoot requestedRoot)
              (p.resultDirectory requestedRoot) cand (sha256File fs s p.inputPath).2 with
            ⟨why,t,heq,hkept⟩ | ⟨u,heq,hkept,hrootlink,hdirlink⟩
          · exact .inl ⟨why,t,heq,fun q=>(hkept q).trans (hread q)⟩
          · exact .inr ⟨cand,u,⟨fun q=>(hkept q).trans (hread q),hthere,hadmissible,hcand,
              hroot,hrootlink,hdirlink⟩,heq⟩

/-- The input stays; the repaired bytes are at the final name, or nothing new is there and nothing
is reported. -/
def AllOrNothing (fs : LinkDisk σ) (p : RepairMaterialization) (original : Bytes)
    (requestedRoot : DiskPath) (s : σ) : Prop :=
  let r := materializeValidatedRepair fs p original requestedRoot s
  let out := outputPath p.inputPath (p.resultDirectory requestedRoot)
  fs.content r.disk p.inputPath = fs.content s p.inputPath ∧
    (Complete fs p original out r ∨ NotMaterialized fs out s r)

/-- After a success on the bytes of the input, a second call in which nothing fails reports the
same, and keeps the file. -/
def Repeatable (fs : LinkDisk σ) (p : RepairMaterialization) (original : Bytes)
    (requestedRoot : DiskPath) (s : σ) : Prop :=
  let r := materializeValidatedRepair fs p original requestedRoot s
  let again := materializeValidatedRepair fs r.proposal original requestedRoot r.disk
  fs.content s p.inputPath = some original → r.ok=true →
    fs.failures again.disk = fs.failures r.disk →
    again.ok = true ∧ again.proposal=r.proposal ∧
      fs.content again.disk r.proposal.resultPath = fs.content r.disk r.proposal.resultPath

/-- No file of the repair that is there already passes for another one. -/
structure NoLookalikes (fs : LinkDisk σ) (p : RepairMaterialization) (original : Bytes)
    (dir : DiskPath) (s : σ) : Prop where
  output : ∀ cand, candidateBytes p.proposal.changedRanges original = some cand →
    NoLookalike fs s (outputPath p.inputPath dir) cand
  record : NoLookalike fs s (provenanceIn dir) (renderRepairJson (admitted p.cleared dir))

theorem candidate_eq_some {p:RepairProposal} {original cand:Bytes}
    (h:candidate p original=some cand) :
    candidateBytes p.changedRanges original=some cand ∧
      sha256Bytes cand=p.proposedResultSha256:=by
  simpa [candidate,filter_eq_some_iff] using h

theorem NoLookalike.of_content {dest:DiskPath} (h:NoLookalike fs s dest d)
    (hdest:fs.content t dest=fs.content s dest) : NoLookalike fs t dest d:=by
  intro c hc
  rw [hdest] at hc
  exact h c hc

/-- A call is all or nothing, and what it admits is settled. -/
theorem materialize_outcome (h:Undisturbed fs p (p.resultDirectory requestedRoot))
    (hlook:∀cand,candidateBytes p.proposal.changedRanges original=some cand →
      NoLookalike fs s (outputPath p.inputPath (p.resultDirectory requestedRoot)) cand) :
    (∃cand u,Entered fs p original requestedRoot cand s u ∧
      fs.Runs u (materializeValidatedRepair fs p original requestedRoot s).disk ∧
      Admitted fs p (p.resultDirectory requestedRoot) cand u
        (materializeValidatedRepair fs p original requestedRoot s)) ∧
      fs.content (materializeValidatedRepair fs p original requestedRoot s).disk p.inputPath =
        fs.content s p.inputPath ∨
    fs.content (materializeValidatedRepair fs p original requestedRoot s).disk p.inputPath =
        fs.content s p.inputPath ∧
      NotMaterialized fs (outputPath p.inputPath (p.resultDirectory requestedRoot)) s
        (materializeValidatedRepair fs p original requestedRoot s):=by
  rcases materialize_cases fs p original requestedRoot s with ⟨why,t,heq,hkept⟩ |
    ⟨cand,u,hentered,heq⟩
  · rw [heq]
    exact .inr ⟨hkept _,refused_notMaterialized (.inr (hkept _))⟩
  · have hlive : fs.content u p.inputPath≠none:=by
      rw [hentered.content]
      exact hentered.live
    have hcand:=(candidate_eq_some hentered.candidate).1
    have houtcome:=persist_outcome h hlive ((hlook cand hcand).of_content (hentered.content _))
    rw [← heq] at houtcome
    have hinput:=houtcome.input.trans (hentered.content _)
    rcases houtcome.output with hnot | hadmitted
    · refine .inr ⟨hinput,{hnot with output:=?_}⟩
      rw [← hentered.content]
      exact hnot.output
    · refine .inl ⟨⟨cand,u,hentered,?_,hadmitted⟩,hinput⟩
      rw [heq]
      exact persist_runs

theorem all_or_nothing (h:Undisturbed fs p (p.resultDirectory requestedRoot))
    (hlook:NoLookalikes fs p original (p.resultDirectory requestedRoot) s) :
    AllOrNothing fs p original requestedRoot s:=by
  rcases materialize_outcome h hlook.output with ⟨⟨cand,u,hentered,-,hadmitted⟩,hinput⟩ |
    ⟨hinput,hnot⟩
  · obtain ⟨hcand,hsha⟩:=candidate_eq_some hentered.candidate
    refine ⟨hinput,.inl ⟨hadmitted.ok,?_,?_,cand,hcand,hsha,hadmitted.output.content⟩⟩
    · rw [hadmitted.proposal]
      rfl
    · rw [hadmitted.proposal]
      rfl
  · exact ⟨hinput,.inr hnot⟩

end AutoRefirst.Repair.RepairMaterialization
