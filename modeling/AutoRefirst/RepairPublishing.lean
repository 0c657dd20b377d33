import AutoRefirst.RepairMaterialization

/-!
# Publishing one file

Whatever fails, a destination that was taken keeps its file, and one that was free gets the
whole new file or stays free, unless the part file cannot be removed after it was linked.
-/

namespace AutoRefirst.Repair.RepairMaterialization
open Option

open LinkDisk

variable {σ : Type} {fs : LinkDisk σ} {s t : σ} {p q part dest : DiskPath} {d : Bytes}

def lastName (p : DiskPath) : Bytes := p.getLast?.getD []

@[simp] theorem lastName_append (dir:DiskPath) (x:Bytes) : lastName (dir++[x])=x:=by
  simp [lastName]

@[simp] theorem lastName_extended (p:DiskPath) (more:String) :
    lastName (extended p more) = lastName p++bytes more:=
  lastName_append _ _

theorem partOf_ne (dest:DiskPath) : partOf dest≠dest:=by
  intro h
  have hlen:=congrArg (fun p=>(lastName p).length) h
  simp only [partOf,lastName_extended,List.length_append] at hlen
  have hpart : (bytes ".part").length=5:=by decide
  omega

namespace Attempt

variable {a : Attempt σ} {next : σ→Attempt σ}

theorem andThen_fst : (a.andThen next).1=none ↔ a.1=none ∧ (next a.2).1=none:=by
  obtain ⟨e,u⟩:=a
  cases e <;> simp [andThen]

theorem andThen_of_none (h:a.1=none) : a.andThen next=next a.2:=by
  obtain ⟨e,u⟩:=a
  subst h
  rfl

theorem andThen_of_some (h:a.1≠none) : a.andThen next=a:=by
  obtain ⟨e,u⟩:=a
  cases e with
  | none=>exact absurd rfl h
  | some e=>rfl

/-- What the first step leaves and the second keeps. -/
theorem andThen_state {P:σ→Prop} (ha:P a.2) (hnext:∀u,P u → P (next u).2) :
    P (a.andThen next).2:=by
  obtain ⟨e,u⟩:=a
  cases e with
  | none=>exact hnext u ha
  | some e=>exact ha

end Attempt

theorem sha256File_runs (s:σ) (p:DiskPath) : fs.Runs s (sha256File fs s p).2 := .one _

@[simp] theorem sha256File_look (s:σ) (p q:DiskPath) :
    fs.look (sha256File fs s p).2 q=fs.look s q:=fs.call_keeps s (.read p) q trivial

theorem sha256File_digest {b:Bytes} (h:(sha256File fs s p).1=sha256Bytes b) :
    ∃r c,fs.content s p=some c ∧ r <+: c ∧ sha256Bytes r=sha256Bytes b:=by
  cases hgot : (fs.call s (.read p)).1.got with
  | none=>
    have hempty : (sha256File fs s p).1 = "" := by simp only [sha256File,hgot]
    have hlen:=sha256Bytes_length b
    rw [← h,hempty] at hlen
    exact absurd hlen (by decide)
  | some r=>
    obtain ⟨c,hc,hpre⟩:=fs.read_got s p r hgot
    refine ⟨r,c,hc,hpre,?_⟩
    rw [← h]
    simp only [sha256File,hgot]

theorem sha256File_whole {c:Bytes} (herror:(fs.call s (.read p)).1.error=none)
    (hc:fs.content s p=some c) : (sha256File fs s p).1=sha256Bytes c:=by
  have hgot : (fs.call s (.read p)).1.got=some c:=(fs.read_whole s p herror).trans hc
  simp only [sha256File,hgot]

theorem clearStale_runs : fs.Runs s (clearStale fs part s).2:=by
  unfold clearStale
  split
  · split
    · exact .one _
    · exact .refl
  · exact .refl

theorem fillPart_runs : fs.Runs s (fillPart fs part d s).2:=by
  have hfilled:=(Runs.one (.write part d) : fs.Runs s _).trans (.one (.close part))
  unfold fillPart afterRemoving
  dsimp only
  split
  · exact .call _ hfilled
  · exact hfilled

theorem protectPart_runs : fs.Runs s (protectPart fs part s).2:=by
  unfold protectPart afterRemoving
  dsimp only
  split
  · exact .call _ (.one _)
  · exact .one _

theorem preparePart_runs : fs.Runs s (preparePart fs part d s).2:=
  Attempt.andThen_state (P:=fs.Runs s)
    (Attempt.andThen_state (P:=fs.Runs s)
      (Attempt.andThen_state (P:=fs.Runs s) clearStale_runs fun _ h=>h.trans (.one _))
      fun _ h=>h.trans fillPart_runs)
    fun _ h=>h.trans protectPart_runs

theorem compareExisting_runs : fs.Runs s (compareExisting fs dest d s).2:=by
  unfold compareExisting afterRemoving
  dsimp only
  split
  · split
    · exact .call _ (sha256File_runs s dest)
    · exact .call _ (sha256File_runs s dest)
  · exact .one _

theorem linkPart_runs : fs.Runs s (linkPart fs dest s).2:=by
  unfold linkPart afterRemoving
  dsimp only
  split
  · exact .call _ (.one _)
  · exact .call _ (.one _)

theorem publish_runs : fs.Runs s (publish fs dest d s).2:=by
  unfold publish
  split
  · exact compareExisting_runs
  · exact linkPart_runs

/-- A link is refused at once; otherwise the part file is prepared and published. -/
theorem writeAtomic_cases (fs:LinkDisk σ) (dest:DiskPath) (d:Bytes) (s:σ) :
    (∃e,writeAtomic fs dest d s=(some e,s)) ∨
    existingSymlink fs s dest=false ∧ existingSymlink fs s (partOf dest)=false ∧
      writeAtomic fs dest d s =
        (preparePart fs (partOf dest) d s).andThen (publish fs dest d):=by
  unfold writeAtomic
  split
  · exact .inl ⟨_,rfl⟩
  · rename_i hdest
    split
    · exact .inl ⟨_,rfl⟩
    · rename_i hpart
      exact .inr ⟨Bool.not_eq_true _▸hdest,Bool.not_eq_true _▸hpart,rfl⟩

theorem writeAtomic_runs : fs.Runs s (writeAtomic fs dest d s).2:=by
  rcases writeAtomic_cases fs dest d s with ⟨e,heq⟩ | ⟨-,-,heq⟩
  · rw [heq]
    exact .refl
  · rw [heq]
    exact Attempt.andThen_state (P:=fs.Runs s) preparePart_runs fun _ h=>h.trans publish_runs

theorem preparePart_other (h:q≠part) : fs.look (preparePart fs part d s).2 q=fs.look s q:=by
  have hcall : ∀(u:σ) (c:DiskCall),c.Keeps q → fs.look u q=fs.look s q →
      fs.look (fs.call u c).2 q=fs.look s q:=
    fun u c hc hu=>(fs.call_keeps u c q hc).trans hu
  refine Attempt.andThen_state (P:=fun u=>fs.look u q = fs.look s q)
    (Attempt.andThen_state (P:=fun u=>fs.look u q = fs.look s q)
      (Attempt.andThen_state (P:=fun u=>fs.look u q = fs.look s q) ?_ ?_) ?_) ?_
  · unfold clearStale
    split
    · split
      · exact hcall s _ h rfl
      · rfl
    · rfl
  · intro u hu
    exact hcall u _ h hu
  · intro u hu
    have hfilled:=hcall _ (.close part) h (hcall u (.write part d) h hu)
    unfold fillPart afterRemoving
    dsimp only
    split
    · exact hcall _ (.remove part) h hfilled
    · exact hfilled
  · intro u hu
    have hset:=hcall u (.permissions part) trivial hu
    unfold protectPart afterRemoving
    dsimp only
    split
    · exact hcall _ (.remove part) h hset
    · exact hset

theorem compareExisting_other (h:q≠partOf dest) :
    fs.look (compareExisting fs dest d s).2 q=fs.look s q:=by
  have hremove : ∀u,fs.look (fs.call u (.remove (partOf dest))).2 q=fs.look u q:=
    fun u=>fs.call_keeps u (.remove (partOf dest)) q h
  unfold compareExisting afterRemoving
  dsimp only
  split
  · split
    · rw [hremove,sha256File_look]
    · rw [hremove,sha256File_look]
  · exact hremove s

theorem linkPart_other (hdest:q≠dest) (h:q≠partOf dest) :
    fs.look (linkPart fs dest s).2 q=fs.look s q:=by
  have hboth : fs.look (fs.call (fs.call s (.link (partOf dest) dest)).2
      (.remove (partOf dest))).2 q = fs.look s q:=
    (fs.call_keeps _ (.remove (partOf dest)) q h).trans
      (fs.call_keeps s (.link (partOf dest) dest) q hdest)
  unfold linkPart afterRemoving
  dsimp only
  split
  · exact hboth
  · exact hboth

theorem publish_other (hdest:q≠dest) (h:q≠partOf dest) :
    fs.look (publish fs dest d s).2 q=fs.look s q:=by
  unfold publish
  split
  · exact compareExisting_other h
  · exact linkPart_other hdest h

theorem writeAtomic_other (hdest:q≠dest) (h:q≠partOf dest) :
    fs.look (writeAtomic fs dest d s).2 q=fs.look s q:=by
  rcases writeAtomic_cases fs dest d s with ⟨e,heq⟩ | ⟨-,-,heq⟩
  · rw [heq]
  · rw [heq]
    exact Attempt.andThen_state (P:=fun u=>fs.look u q = fs.look s q) (preparePart_other h)
      fun _ hu=>(publish_other hdest h).trans hu

theorem protectPart_done (h:(protectPart fs part s).1=none) :
    fs.look (protectPart fs part s).2 part=fs.look s part:=by
  unfold protectPart afterRemoving at h ⊢
  dsimp only at h ⊢
  split at h
  · simp at h
  · rename_i hset
    rw [if_neg hset]
    exact fs.call_keeps s _ part trivial

theorem fillPart_done (h:(fillPart fs part d s).1=none) :
    fs.content (fillPart fs part d s).2 part=some (fs.given s part++d) ∧
      ((fs.look s part).symlinkStatus=.ok (some .regular) →
        (fs.look (fillPart fs part d s).2 part).symlinkStatus=.ok (some .regular)):=by
  unfold fillPart afterRemoving at h ⊢
  dsimp only at h ⊢
  split at h
  · simp at h
  · rename_i herrors
    rw [if_neg herrors]
    simp only [Bool.or_eq_true,not_or,Bool.not_eq_true,isSome_eq_false_iff,
      isNone_iff_eq_none] at herrors
    obtain ⟨hwrite,hclose⟩:=herrors
    refine ⟨?_,fun hregular=>fs.close_regular _ part (fs.write_regular s part d hregular)⟩
    rw [content,fs.close_content _ part hclose,fs.write_given s part d hwrite]

/-- The part file holds what was to be written. -/
theorem preparePart_content (h:(preparePart fs part d s).1=none) :
    fs.content (preparePart fs part d s).2 part=some d:=by
  rw [preparePart,Attempt.andThen_fst,Attempt.andThen_fst,Attempt.andThen_fst] at h
  obtain ⟨⟨⟨hclear,hcreate⟩,hfill⟩,hprotect⟩:=h
  have hcreated : ((clearStale fs part s).andThen (createPart fs part)).1=none:=
    Attempt.andThen_fst.mpr ⟨hclear,hcreate⟩
  rw [preparePart,Attempt.andThen_of_none (Attempt.andThen_fst.mpr ⟨hcreated,hfill⟩),content,
    protectPart_done hprotect,Attempt.andThen_of_none hcreated]
  have hfilled:=(fillPart_done hfill).1
  have hempty : fs.given ((clearStale fs part s).andThen (createPart fs part)).2 part=[]:=by
    rw [Attempt.andThen_of_none hclear]
    exact fs.create_given _ part (map_eq_none_iff.mp hcreate)
  rw [hempty,List.nil_append] at hfilled
  exact hfilled

def FreeOrFile (fs : LinkDisk σ) (s : σ) (p : DiskPath) : Prop :=
  (fs.look s p).symlinkStatus = .ok none ∨ (fs.look s p).symlinkStatus = .ok (some .regular)

theorem existingSymlink_eq_true :
    existingSymlink fs s p=true ↔ (fs.look s p).symlinkStatus=.ok (some .symlink):=by
  unfold existingSymlink
  split <;> simp_all

theorem existingSymlink_eq_false :
    existingSymlink fs s p=false ↔ (fs.look s p).symlinkStatus≠.ok (some .symlink):=by
  rw [← Bool.not_eq_true,not_congr existingSymlink_eq_true]

theorem FreeOrFile.not_link (h:FreeOrFile fs s p) : existingSymlink fs s p=false:=by
  rw [existingSymlink_eq_false]
  rcases h with h | h <;> simp [h]

theorem isRegularFile_eq : isRegularFile fs s p=true ↔
    (fs.look s p).status=.ok (some .regular):=by
  unfold isRegularFile
  split <;> simp_all

/-- After the stale file was removed, there is none, or the path cannot be looked at. -/
theorem clearStale_done (hlink:existingSymlink fs s part=false) (h:(clearStale fs part s).1=none) :
    (fs.look (clearStale fs part s).2 part).symlinkStatus=.ok none ∨
      ∃e,(fs.look (clearStale fs part s).2 part).status=.error e:=by
  unfold clearStale at h ⊢
  split at h
  · split at h
    · rename_i hseen hregular
      rw [if_pos hseen,if_pos hregular]
      rw [fs.remove_done s part (map_eq_none_iff.mp h)]
      exact .inl rfl
    · simp at h
  · rename_i hseen
    rw [if_neg hseen]
    cases hstatus : (fs.look s part).status with
    | error e=>exact .inr ⟨e,rfl⟩
    | ok k=>
      cases k with
      | none=>
        exact .inl (fs.symlinkStatus_of_status (existingSymlink_eq_false.mp hlink) hstatus)
      | some k=>exact absurd (by simp [seen,hstatus]) hseen

theorem preparePart_regular (hlink:existingSymlink fs s part=false)
    (h:(preparePart fs part d s).1=none) :
    (fs.look (preparePart fs part d s).2 part).symlinkStatus=.ok (some .regular):=by
  rw [preparePart,Attempt.andThen_fst,Attempt.andThen_fst,Attempt.andThen_fst] at h
  obtain ⟨⟨⟨hclear,hcreate⟩,hfill⟩,hprotect⟩:=h
  have hcreated : ((clearStale fs part s).andThen (createPart fs part)).1=none:=
    Attempt.andThen_fst.mpr ⟨hclear,hcreate⟩
  rw [preparePart,Attempt.andThen_of_none (Attempt.andThen_fst.mpr ⟨hcreated,hfill⟩),
    protectPart_done hprotect,Attempt.andThen_of_none hcreated]
  refine (fillPart_done hfill).2 ?_
  rw [Attempt.andThen_of_none hclear]
  have hopen:=map_eq_none_iff.mp hcreate
  rcases clearStale_done hlink hclear with hnone | ⟨e,he⟩
  · exact fs.create_regular _ part hnone hopen
  · exact absurd hopen (fs.create_unknown _ part e he)

/-- What is at the destination is this file, or no beginning of it has its digest. -/
def NoLookalike (fs : LinkDisk σ) (s : σ) (dest : DiskPath) (d : Bytes) : Prop :=
  ∀ c, fs.content s dest = some c → ∀ r, r <+: c → sha256Bytes r = sha256Bytes d → c=d

theorem linkPart_kept (h:(fs.call s (.link (partOf dest) dest)).1.error≠none) :
    fs.look (linkPart fs dest s).2 dest=fs.look s dest:=by
  have hkept : fs.look (fs.call (fs.call s (.link (partOf dest) dest)).2
      (.remove (partOf dest))).2 dest = fs.look s dest:=by
    rw [fs.call_keeps _ (.remove (partOf dest)) dest (partOf_ne dest).symm,fs.link_failed s _ dest h]
  unfold linkPart afterRemoving
  dsimp only
  split
  · exact hkept
  · exact hkept

theorem publish_taken (h:fs.content s dest≠none ∨ seen fs s dest=true) :
    fs.look (publish fs dest d s).2 dest=fs.look s dest:=by
  unfold publish
  split
  · exact compareExisting_other (partOf_ne dest).symm
  · rename_i hunseen
    refine linkPart_kept fun hdone=>?_
    exact h.resolve_right hunseen (fs.link_done s _ dest hdone).1

theorem writeAtomic_taken (h:fs.content s dest≠none ∨ seen fs s dest=true) :
    fs.look (writeAtomic fs dest d s).2 dest=fs.look s dest:=by
  rcases writeAtomic_cases fs dest d s with ⟨e,heq⟩ | ⟨-,-,heq⟩
  · rw [heq]
  · rw [heq]
    refine Attempt.andThen_state (P:=fun u=>fs.look u dest = fs.look s dest)
      (preparePart_other (partOf_ne dest).symm) fun u hu=>?_
    rw [publish_taken (by simpa only [content,seen,hu] using h),hu]

theorem publish_failed (hremove:fs.Removable (partOf dest)) (h:(publish fs dest d s).1≠none) :
    fs.look (publish fs dest d s).2 dest=fs.look s dest:=by
  unfold publish at h ⊢
  split at h
  · rename_i hseen
    rw [if_pos hseen]
    exact compareExisting_other (partOf_ne dest).symm
  · rename_i hseen
    rw [if_neg hseen]
    refine linkPart_kept fun hdone=>h ?_
    simp [linkPart,hdone,hremove (fs.call s (.link (partOf dest) dest)).2]

theorem writeAtomic_failed (hremove:fs.Removable (partOf dest))
    (h:(writeAtomic fs dest d s).1≠none) :
    fs.look (writeAtomic fs dest d s).2 dest=fs.look s dest:=by
  rcases writeAtomic_cases fs dest d s with ⟨e,heq⟩ | ⟨-,-,heq⟩
  · rw [heq]
  · rw [heq] at h ⊢
    have hprepared : fs.look (preparePart fs (partOf dest) d s).2 dest=fs.look s dest:=
      preparePart_other (partOf_ne dest).symm
    by_cases hprep : (preparePart fs (partOf dest) d s).1=none
    · rw [Attempt.andThen_of_none hprep] at h ⊢
      exact (publish_failed hremove h).trans hprepared
    · rw [Attempt.andThen_of_some hprep]
      exact hprepared

/-- The file is at its destination, and nothing is in the way of writing it once more. -/
structure Settled (fs : LinkDisk σ) (s : σ) (dest : DiskPath) (d : Bytes) : Prop where
  content : fs.content s dest = some d
  regular : (fs.look s dest).symlinkStatus = .ok (some .regular)
  part : FreeOrFile fs s (partOf dest)

theorem Settled.of_kept (h:Settled fs s dest d) (hdest:fs.look t dest=fs.look s dest)
    (hpart:fs.look t (partOf dest)=fs.look s (partOf dest)) : Settled fs t dest d where
  content:=by
    rw [LinkDisk.content,hdest]
    exact h.content
  regular:=by
    rw [hdest]
    exact h.regular
  part:=by
    unfold FreeOrFile
    rw [hpart]
    exact h.part

theorem removed_part {u:σ} (hregular:(fs.look u p).symlinkStatus=.ok (some .regular)) :
    FreeOrFile fs (fs.call u (.remove p)).2 p:=by
  unfold FreeOrFile
  cases herror : (fs.call u (.remove p)).1.error with
  | none=>
    rw [fs.remove_done u p herror]
    exact .inl rfl
  | some e=>
    rw [fs.remove_failed u p (by simp [herror]),hregular]
    exact .inr rfl

theorem publish_settles (hregular:(fs.look s (partOf dest)).symlinkStatus=.ok (some .regular))
    (hlink:existingSymlink fs s dest=false) (hcontent:fs.content s (partOf dest)=some d)
    (hlook:NoLookalike fs s dest d) (h:(publish fs dest d s).1=none) :
    Settled fs (publish fs dest d s).2 dest d:=by
  have hne:=(partOf_ne dest).symm
  unfold publish at h ⊢
  split
  · rename_i hseen
    rw [if_pos hseen] at h
    unfold compareExisting afterRemoving at h ⊢
    dsimp only at h ⊢
    by_cases hfile : isRegularFile fs s dest=true
    · rw [if_pos hfile] at h ⊢
      by_cases hsame : (sha256File fs s dest).1=sha256Bytes d
      · rw [if_pos hsame]
        obtain ⟨r,c,hc,hpre,hr⟩:=sha256File_digest hsame
        have hkept : fs.look (fs.call (sha256File fs s dest).2 (.remove (partOf dest))).2 dest =
            fs.look s dest:=by
          rw [fs.call_keeps _ (.remove (partOf dest)) dest hne,sha256File_look]
        refine ⟨?_,?_,removed_part (by rw [sha256File_look];exact hregular)⟩
        · rw [LinkDisk.content,hkept]
          exact hc.trans (congrArg some (hlook c hc r hpre hr))
        · rw [hkept]
          exact fs.symlinkStatus_of_status (existingSymlink_eq_false.mp hlink)
            (isRegularFile_eq.mp hfile)
      · rw [if_neg hsame] at h
        simp at h
    · rw [if_neg hfile] at h
      simp at h
  · rename_i hseen
    rw [if_neg hseen] at h
    unfold linkPart afterRemoving at h ⊢
    dsimp only at h ⊢
    split
    · rename_i e he
      rw [he] at h
      simp at h
    · rename_i he
      obtain ⟨-,hnew⟩:=fs.link_done s _ dest he
      have hkept : fs.look (fs.call (fs.call s (.link (partOf dest) dest)).2
          (.remove (partOf dest))).2 dest = fs.look s (partOf dest):=by
        rw [fs.call_keeps _ (.remove (partOf dest)) dest hne,hnew]
      refine ⟨?_,?_,removed_part ?_⟩
      · rw [LinkDisk.content,hkept]
        exact hcontent
      · rw [hkept]
        exact hregular
      · rw [fs.call_keeps s (.link (partOf dest) dest) (partOf dest) (partOf_ne dest)]
        exact hregular

theorem NoLookalike.of_kept (h:NoLookalike fs s dest d)
    (hdest:fs.look t dest=fs.look s dest) : NoLookalike fs t dest d:=by
  intro c hc
  rw [LinkDisk.content,hdest] at hc
  exact h c hc

/-- An attempt without an error has the file at its destination. -/
theorem writeAtomic_settles (hlook:NoLookalike fs s dest d) (h:(writeAtomic fs dest d s).1=none) :
    Settled fs (writeAtomic fs dest d s).2 dest d:=by
  rcases writeAtomic_cases fs dest d s with ⟨e,heq⟩ | ⟨hdestlink,hpartlink,heq⟩
  · rw [heq] at h
    simp at h
  · rw [heq] at h ⊢
    obtain ⟨hprep,hpub⟩:=Attempt.andThen_fst.mp h
    rw [Attempt.andThen_of_none hprep]
    have hkept : fs.look (preparePart fs (partOf dest) d s).2 dest=fs.look s dest:=
      preparePart_other (partOf_ne dest).symm
    refine publish_settles (preparePart_regular hpartlink hprep) ?_ (preparePart_content hprep)
      (hlook.of_kept hkept) hpub
    rw [existingSymlink_eq_false,hkept]
    exact existingSymlink_eq_false.mp hdestlink

theorem andThen_calm {a:Attempt σ} {next:σ→Attempt σ} (hrun:fs.Runs s a.2)
    (hfirst:fs.failures a.2≤fs.failures s → a.1=none)
    (hsecond:fs.failures (next a.2).2≤fs.failures a.2 → (next a.2).1=none)
    (hcalm:fs.failures (a.andThen next).2≤fs.failures s) : (a.andThen next).1=none:=by
  by_cases ha : a.1=none
  · rw [Attempt.andThen_of_none ha] at hcalm ⊢
    exact hsecond (Nat.le_trans hcalm hrun.failures_le)
  · rw [Attempt.andThen_of_some ha] at hcalm
    exact absurd (hfirst hcalm) ha

theorem clearStale_calm (hfree:FreeOrFile fs s part)
    (hcalm:fs.failures (clearStale fs part s).2≤fs.failures s) :
    (clearStale fs part s).1=none:=by
  unfold clearStale at hcalm ⊢
  rcases hfree with hfree | hfile
  · have hunseen : seen fs s part=false:=by
      simp [seen,fs.status_of_symlinkStatus hfree (by simp)]
    simp [hunseen]
  · have hstatus:=fs.status_of_symlinkStatus hfile (by simp)
    have hseen : seen fs s part=true:=by simp [seen,hstatus]
    rw [if_pos hseen,if_pos (isRegularFile_eq.mpr hstatus)] at hcalm ⊢
    exact map_eq_none_iff.mpr (fs.succeeds .refl hcalm)

theorem createPart_calm (hcalm:fs.failures (createPart fs part s).2≤fs.failures s) :
    (createPart fs part s).1=none:=
  map_eq_none_iff.mpr (fs.succeeds .refl hcalm)

theorem fillPart_calm (hcalm:fs.failures (fillPart fs part d s).2≤fs.failures s) :
    (fillPart fs part d s).1=none:=by
  have hwrite : fs.Runs s (fs.call s (.write part d)).2 := .one _
  unfold fillPart afterRemoving at hcalm ⊢
  dsimp only at hcalm ⊢
  split at hcalm
  · rename_i herrors
    have hwritten:=fs.succeeds ((Runs.one (.close part)).trans (.one (.remove part))) hcalm
    have hclosed:=fs.succeeds (.one (.remove part)) (Nat.le_trans hcalm hwrite.failures_le)
    simp [hwritten,hclosed] at herrors
  · rename_i herrors
    rw [if_neg herrors]

theorem protectPart_calm (hcalm:fs.failures (protectPart fs part s).2≤fs.failures s) :
    (protectPart fs part s).1=none:=by
  unfold protectPart afterRemoving at hcalm ⊢
  dsimp only at hcalm ⊢
  split at hcalm
  · rename_i herror
    have hset:=fs.succeeds (.one (.remove part)) hcalm
    simp [hset] at herror
  · rename_i herror
    rw [if_neg herror]

theorem preparePart_calm (hfree:FreeOrFile fs s part)
    (hcalm:fs.failures (preparePart fs part d s).2≤fs.failures s) :
    (preparePart fs part d s).1=none:=by
  have hcleared : fs.Runs s (clearStale fs part s).2:=clearStale_runs
  have hcreated : fs.Runs s ((clearStale fs part s).andThen (createPart fs part)).2:=
    Attempt.andThen_state (P:=fs.Runs s) hcleared fun _ h=>h.trans (.one _)
  have hfilled : fs.Runs s
      (((clearStale fs part s).andThen (createPart fs part)).andThen (fillPart fs part d)).2:=
    Attempt.andThen_state (P:=fs.Runs s) hcreated fun _ h=>h.trans fillPart_runs
  refine andThen_calm hfilled ?_ protectPart_calm hcalm
  refine andThen_calm hcreated ?_ fillPart_calm
  exact andThen_calm hcleared (clearStale_calm hfree) createPart_calm

theorem publish_calm (hcontent:fs.content s dest=some d)
    (hregular:(fs.look s dest).symlinkStatus=.ok (some .regular))
    (hcalm:fs.failures (publish fs dest d s).2≤fs.failures s) :
    (publish fs dest d s).1=none:=by
  have hstatus:=fs.status_of_symlinkStatus hregular (by simp)
  have hseen : seen fs s dest=true:=by simp [seen,hstatus]
  unfold publish compareExisting afterRemoving at hcalm ⊢
  dsimp only at hcalm ⊢
  rw [if_pos hseen,if_pos (isRegularFile_eq.mpr hstatus)] at hcalm ⊢
  have hread : (fs.call s (.read dest)).1.error=none:=by
    split at hcalm
    · exact fs.succeeds (.one (.remove (partOf dest))) hcalm
    · exact fs.succeeds (.one (.remove (partOf dest))) hcalm
  rw [if_pos (sha256File_whole hread hcontent)]

theorem writeAtomic_again (h:Settled fs s dest d)
    (hcalm:fs.failures (writeAtomic fs dest d s).2≤fs.failures s) :
    (writeAtomic fs dest d s).1=none:=by
  have hdest : existingSymlink fs s dest=false:=FreeOrFile.not_link (.inr h.regular)
  have hkept : fs.look (preparePart fs (partOf dest) d s).2 dest=fs.look s dest:=
    preparePart_other (partOf_ne dest).symm
  have heq : writeAtomic fs dest d s =
      (preparePart fs (partOf dest) d s).andThen (publish fs dest d):=by
    simp only [writeAtomic,hdest,h.part.not_link,Bool.false_eq_true,if_false]
  rw [heq] at hcalm ⊢
  refine andThen_calm preparePart_runs (preparePart_calm h.part) (publish_calm ?_ ?_) hcalm
  · rw [LinkDisk.content,hkept]
    exact h.content
  · rw [hkept]
    exact h.regular

end AutoRefirst.Repair.RepairMaterialization
