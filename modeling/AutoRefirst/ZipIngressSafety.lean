import AutoRefirst.ZipMarks

/-!
# Materialization of ZIP members

Everything that is written lies below the output root, nothing that exists is overwritten, and a
member is published whole or not at all, as far as the disk keeps what it was given and removes
what it is told to.
-/

namespace AutoRefirst.Zip
open List Option

variable {σ τ : Type}

theorem partPath_ne {dest:DiskPath} (h:dest≠[]) (i:ℕ) : partPath dest i≠dest:=by
  intro heq
  have hdest:=dropLast_concat_getLast h
  have hlast : dest.getLast? = some (dest.getLast h):=getLast?_eq_some_getLast h
  rw [partPath,hlast,getD_some] at heq
  have hsame:=append_cancel_left (heq.trans hdest.symm)
  have hlen:=congrArg List.length (singleton_inj.mp hsame)
  have hsuffix : (bytes s!".auto-refirst-part-{i}").length≠0:=by
    simp [bytes,String.toList_append,toString]
  rw [length_append] at hlen
  omega

theorem refusedPart_name {c:Bytes} (h:refusedPart c=false) :
    c≠[] ∧ c≠bytes "." ∧ c≠bytes ".." := by
  simp only [refusedPart,Bool.or_eq_false_iff,isEmpty_eq_false_iff,beq_eq_false_iff_ne]
    at h
  exact ⟨h.1.1.1.1.1,h.1.1.1.1.2,h.1.1.1.2⟩

variable {root : DiskPath}

theorem dest_inside {p:Bytes} (h:PlainPath p) :
    StrictlyInside root (root++pathComponents p):=
  ⟨pathComponents p,pathComponents_ne_nil p,rfl,fun c hc=>refusedPart_name (h.2 c hc)⟩

theorem suffix_long (i:ℕ) (c:Bytes) : 2 < (c++bytes s!".auto-refirst-part-{i}").length:=by
  have hsuffix : 2 < (bytes s!".auto-refirst-part-{i}").length:=by
    simp [bytes,String.toList_append,toString]
  rw [length_append]
  omega

theorem part_inside {p:Bytes} (h:PlainPath p) (i:ℕ) :
    StrictlyInside root (partPath (root++pathComponents p) i):=by
  have hne:=pathComponents_ne_nil p
  refine ⟨(pathComponents p).dropLast ++
    [(root++pathComponents p).getLast?.getD []++bytes s!".auto-refirst-part-{i}"],
    by simp,?_,?_⟩
  · rw [partPath,dropLast_append_of_ne_nil hne,append_assoc]
  · intro c hc
    rcases mem_append.mp hc with hc | hc
    · exact refusedPart_name (h.2 c (dropLast_subset _ hc))
    · obtain rfl:=mem_singleton.mp hc
      have hlong:=suffix_long i ((root++pathComponents p).getLast?.getD [])
      refine ⟨fun h0=>?_,fun h1=>?_,fun h2=>?_⟩
      · rw [h0] at hlong
        exact absurd hlong (by decide)
      · rw [h1] at hlong
        exact absurd hlong (by decide)
      · rw [h2] at hlong
        exact absurd hlong (by decide)

variable (fs : FileTree σ) (zip : ZipReader τ)

theorem ensureRoot_content (root:DiskPath) (s:σ) (q:DiskPath) :
    fs.content (ensureRoot fs root s).2 q=fs.content s q:=by
  have hmade:=fs.createDirectories_content s root q
  fun_cases ensureRoot fs root s with
  | case4 hs m next hc=>rw [hc] at hmade;exact hmade
  | case5 hs next hc=>rw [hc] at hmade;exact hmade
  | _=>rfl

theorem ensureBelow_content (cur:DiskPath) (s:σ) (parts:List Bytes) (q:DiskPath) :
    fs.content (ensureBelow fs cur s parts).2 q=fs.content s q:=by
  induction parts generalizing cur s with
  | nil=>rfl
  | cons part rest ih=>
    have hmade:=fs.createDirectory_content s (cur++[part]) q
    unfold ensureBelow
    split
    · rfl
    · split
      · rfl
      · exact ih _ _
      · rfl
      · split
        · rename_i hc
          rw [hc] at hmade
          exact hmade
        · rename_i next hc
          rw [hc] at hmade
          exact (ih _ _).trans hmade

theorem ensureSafeOutputParents_content (root relative:DiskPath) (s:σ) (q:DiskPath) :
    fs.content (ensureSafeOutputParents fs root relative s).2 q=fs.content s q:=by
  have hroot:=ensureRoot_content fs root s q
  unfold ensureSafeOutputParents
  split
  · rename_i m next h
    rw [h] at hroot
    exact hroot
  · rename_i next h
    rw [h] at hroot
    exact (ensureBelow_content fs _ _ _ _).trans hroot

def IsDirectory (s : σ) (p : DiskPath) : Prop := fs.status s p = .ok (some .directory)

variable {s : σ}

theorem ensureRoot_directory (h:(ensureRoot fs root s).1=none) :
    IsDirectory fs (ensureRoot fs root s).2 root:=by
  revert h
  fun_cases ensureRoot fs root s with
  | case2 hs=>
    intro _
    exact hs
  | case5 hs next hc=>
    intro _
    have hmade:=fs.createDirectories_status s root hs (by rw [hc])
    rw [hc] at hmade
    exact hmade
  | _=>
    intro h
    simp at h

/-- Going down makes directories, and leaves those above as they are. -/
theorem ensureBelow_directories {cur:DiskPath} {parts:List Bytes}
    (h:(ensureBelow fs cur s parts).1=none) :
    (∀q,q.length ≤ cur.length → fs.status (ensureBelow fs cur s parts).2 q=fs.status s q) ∧
      ∀above,above≠[] → above <+: parts →
        IsDirectory fs (ensureBelow fs cur s parts).2 (cur++above):=by
  induction parts generalizing cur s with
  | nil=>exact ⟨fun _ _=>rfl,fun above hne hpre=>absurd (prefix_nil.mp hpre) hne⟩
  | cons part rest ih=>
    -- One directory is there, and the rest of the way goes on from it.
    have hgo : ∀next : σ,IsDirectory fs next (cur++[part]) →
        (∀q,q.length ≤ cur.length → fs.status next q=fs.status s q) →
        (ensureBelow fs (cur++[part]) next rest).1=none →
        (∀q,q.length ≤ cur.length →
          fs.status (ensureBelow fs (cur++[part]) next rest).2 q=fs.status s q) ∧
        ∀above,above≠[] → above <+: part::rest →
          IsDirectory fs (ensureBelow fs (cur++[part]) next rest).2 (cur++above):=by
      intro next hdir hsame hrest
      obtain ⟨hkeep,hbelow⟩:=ih hrest
      refine ⟨fun q hq=>?_,fun above hne hpre=>?_⟩
      · have hlong : q.length≤(cur++[part]).length:=by
          rw [length_append]
          omega
        exact (hkeep q hlong).trans (hsame q hq)
      · obtain ⟨tail,rfl,htail⟩ : ∃tail,above=part::tail ∧ tail <+: rest:=by
          cases above with
          | nil=>exact absurd rfl hne
          | cons a tail=>
            obtain ⟨rfl,htail⟩:=cons_prefix_cons.mp hpre
            exact ⟨tail,rfl,htail⟩
        by_cases hnil : tail=[]
        · subst hnil
          exact (hkeep (cur++[part]) (Nat.le_refl _)).trans hdir
        · have hdeep:=hbelow tail hnil htail
          rwa [append_assoc] at hdeep
    unfold ensureBelow at h ⊢
    split
    · rename_i hpart
      rw [if_pos hpart] at h
      simp at h
    · rename_i hpart
      rw [if_neg hpart] at h
      cases hs : fs.status s (cur++[part]) with
      | error m=>simp [hs] at h
      | ok k=>
        cases k with
        | some k=>
          cases k with
          | directory=>
            simp only [hs] at h ⊢
            exact hgo s hs (fun _ _=>rfl) h
          | regular=>simp [hs] at h
          | symlink=>simp [hs] at h
          | other=>simp [hs] at h
        | none=>
          simp only [hs] at h ⊢
          have hmade:=fs.createDirectory_status s (cur++[part]) hs
          have hother:=fs.createDirectory_other s (cur++[part])
          cases hc : fs.createDirectory s (cur++[part]) with
          | mk message next=>
            rw [hc] at hmade hother h
            cases message with
            | some m=>exact absurd h (by simp)
            | none=>
              refine hgo next (hmade rfl) (fun q hq=>hother q ?_) h
              rintro rfl
              rw [length_append] at hq
              exact absurd hq (by simp)

/-- From the root down to where a member is written there are directories, no links. -/
def RealDirectories (root relative : DiskPath) (s : σ) : Prop :=
  ∀ above, above <+: relative.dropLast → IsDirectory fs s (root++above)

theorem ensureSafeOutputParents_directories {relative:DiskPath}
    (h:(ensureSafeOutputParents fs root relative s).1=none) :
    RealDirectories fs root relative (ensureSafeOutputParents fs root relative s).2:=by
  intro above hpre
  have hroot : (ensureRoot fs root s).1=none → IsDirectory fs (ensureRoot fs root s).2 root:=
    ensureRoot_directory fs
  unfold ensureSafeOutputParents at h ⊢
  cases he : ensureRoot fs root s with
  | mk message next=>
    rw [he] at hroot
    simp only [he] at h ⊢
    cases message with
    | some m=>exact absurd h (by simp)
    | none=>
      obtain ⟨hkeep,hbelow⟩:=ensureBelow_directories fs h
      by_cases hnil : above=[]
      · subst hnil
        rw [append_nil]
        exact (hkeep root (Nat.le_refl _)).trans (hroot rfl)
      · exact hbelow above hnil hpre

/-- Writing at one path leaves every other as it was. -/
def Elsewhere (p : DiskPath) (s s' : σ) : Prop :=
  ∀ q, q≠p → fs.content s' q = fs.content s q ∧ fs.status s' q = fs.status s q

theorem Elsewhere.trans {p:DiskPath} {s' s'':σ} (h:Elsewhere fs p s s')
    (h':Elsewhere fs p s' s'') : Elsewhere fs p s s'':=fun q hq=>
  ⟨(h' q hq).1.trans (h q hq).1,(h' q hq).2.trans (h q hq).2⟩

theorem streamOut_elsewhere (part:DiskPath) (size budget written:ℕ) (it:τ) (s:σ) :
    Elsewhere fs part s (streamOut fs zip part size budget written it s).disk:=by
  fun_induction streamOut fs zip part size budget written it s with
  | case1=>exact fun q _=>⟨rfl,rfl⟩
  | case2 written it s hw want r got hgot w hok ih=>
    exact Elsewhere.trans fs (fun q hq=>fs.write_other s part r.1 q hq) ih
  | case3 written it s hw want r got hgot w hok=>
    exact fun q hq=>fs.write_other s part r.1 q hq
  | case4=>exact fun q _=>⟨rfl,rfl⟩

variable {part : DiskPath}

theorem streamOut_given {size budget written:ℕ} {it:τ}
    (hgiven:(fs.given s part).length=written)
    (hok:(streamOut fs zip part size budget written it s).ok=true) :
    (fs.given (streamOut fs zip part size budget written it s).disk part).length =
      (streamOut fs zip part size budget written it s).written:=by
  fun_induction streamOut fs zip part size budget written it s with
  | case1=>exact absurd hok (by simp)
  | case2 written it s hw want r got hgot w hok' ih=>
    apply ih _ hok
    rw [fs.write_given s part r.1 hok',length_append,hgiven]
  | case3=>exact absurd hok (by simp)
  | case4=>exact hgiven

theorem verified_disk (good:Bool) (written:ℕ) (s:σ) : (verified good written s).disk=s:=by
  cases good <;> rfl

theorem verified_good {good:Bool} {written:ℕ} (h:(verified good written s).failure=none) :
    good=true ∧ (verified good written s).written=written:=by
  cases good with
  | false=>exact absurd h (by simp [verified])
  | true=>exact ⟨rfl,rfl⟩

theorem fillPart_elsewhere (archive:Bytes) (e:ContainerMemberIdentity) (part:DiskPath)
    (budget:ℕ) (s:σ) :
    Elsewhere fs part s (fillPart fs zip archive e part budget s).disk:=by
  unfold fillPart
  split
  · exact fun q _=>⟨rfl,rfl⟩
  · rename_i it _
    rw [verified_disk]
    exact streamOut_elsewhere fs zip part e.uncompressedSize budget 0 it s

variable {e : ContainerMemberIdentity}

theorem fillPart_whole {archive:Bytes} {budget:ℕ} (hgiven:fs.given s part=[])
    (h:(fillPart fs zip archive e part budget s).failure=none) :
    (fillPart fs zip archive e part budget s).written=e.uncompressedSize ∧
      (fs.given (fillPart fs zip archive e part budget s).disk part).length =
        e.uncompressedSize:=by
  unfold fillPart at h ⊢
  split
  · rename_i hnew
    simp [hnew] at h
  · rename_i it hnew
    simp only [hnew] at h ⊢
    obtain ⟨hgood,hwritten⟩:=verified_good h
    rw [hwritten,verified_disk]
    simp only [Bool.and_eq_true,beq_iff_eq] at hgood
    obtain ⟨⟨⟨hok,-⟩,-⟩,hsize⟩:=hgood
    exact ⟨hsize,(streamOut_given fs zip (by simp [hgiven]) hok).trans hsize⟩

structure Opened (root relative : DiskPath) (memberIndex : ℕ) (s opened : σ) : Prop where
  free : fs.content s (partPath (root++relative) memberIndex) = none
  given : fs.given opened (partPath (root++relative) memberIndex) = []
  elsewhere : ∀ q, q≠partPath (root++relative) memberIndex →
    fs.content opened q = fs.content s q
  /-- The destination is missing, or cannot be looked at. -/
  dest : partPath (root++relative) memberIndex≠root++relative →
    fs.content s (root++relative) = none ∨
      ∃ m, fs.status opened (root++relative) = .error m

variable {data : Bytes} {info : ContainerIngressInfo} {memberIndex : ℕ}

theorem openPart_spec {relative:DiskPath} {r:Option (String×String)×σ}
    (h:openPart fs zip data info root relative memberIndex s=r) :
    (r.1≠none → ∀q,fs.content r.2 q=fs.content s q) ∧
      (r.1=none → Opened fs root relative memberIndex s r.2):=by
  have hparents:=ensureSafeOutputParents_content fs root relative s
  subst h
  unfold openPart
  dsimp only
  cases hensure : ensureSafeOutputParents fs root relative s with
  | mk message next=>
  rw [hensure] at hparents
  cases message with
  | some m=>exact ⟨fun _=>hparents,fun h=>absurd h (by simp)⟩
  | none=>
    dsimp only
    split
    · exact ⟨fun _=>hparents,fun h=>absurd h (by simp)⟩
    split
    · exact ⟨fun _=>hparents,fun h=>absurd h (by simp)⟩
    split
    · exact ⟨fun _=>hparents,fun h=>absurd h (by simp)⟩
    split
    · exact ⟨fun _=>hparents,fun h=>absurd h (by simp)⟩
    rename_i hdest hpart _ _
    have hfails:=fs.create_fails next (partPath (root++relative) memberIndex)
    have hunknown:=fs.create_unknown next (partPath (root++relative) memberIndex)
    have hgiven:=fs.create_given next (partPath (root++relative) memberIndex)
    have hother:=fs.create_other next (partPath (root++relative) memberIndex)
    have hunseen : ∀p,¬seenAt fs next p = true →
        fs.status next p=.ok none ∨ ∃m,fs.status next p=.error m:=by
      intro p hp
      unfold seenAt at hp
      cases hs : fs.status next p with
      | error m=>exact .inr ⟨m,rfl⟩
      | ok k=>
        cases k with
        | none=>exact .inl rfl
        | some k=>simp [hs] at hp
    cases hc : fs.create next (partPath (root++relative) memberIndex) with
    | mk good opened=>
    rw [hc] at hfails hunknown hgiven hother
    cases good with
    | false=>
      exact ⟨fun _ q=>(hfails q rfl).trans (hparents q),fun h=>absurd h (by simp)⟩
    | true=>
      refine ⟨fun h=>absurd rfl h,fun _=>?_⟩
      refine ⟨?_,hgiven rfl,fun q hq=>((hother q hq).1).trans (hparents q),fun hne=>?_⟩
      · rcases hunseen _ hpart with hs | ⟨m,hs⟩
        · exact (hparents _).symm.trans (fs.missing next _ hs)
        · exact absurd (hunknown m hs) (by simp)
      · rcases hunseen _ hdest with hs | ⟨m,hs⟩
        · exact .inl ((hparents _).symm.trans (fs.missing next _ hs))
        · exact .inr ⟨m,((hother _ (Ne.symm hne)).2).trans hs⟩

/-- What a materialization may do to the files. -/
structure Materializes (info : ContainerIngressInfo) (memberIndex : ℕ) (root : DiskPath)
    (remaining : UInt64) (s : σ) (r : ContainerMaterializationResult×σ) : Prop where
  inside : ∀ p, ¬StrictlyInside root p → fs.content r.2 p = fs.content s p
  keeps : ∀ p b, fs.content s p = some b → fs.content r.2 p = some b
  whole : r.1.success=true → ∃ e, info.members[memberIndex]? = some e ∧
    e.safeToMaterialize = true ∧ r.1.outputPath = root ++ pathComponents e.normalizedPath ∧
    r.1.bytesWritten = e.uncompressedSize ∧ e.uncompressedSize ≤ remaining.toNat ∧
    (fs.content r.2 r.1.outputPath).map List.length = some e.uncompressedSize
  nothing : r.1.success=false → ∀ p, fs.content r.2 p = fs.content s p

variable {remaining : UInt64}

theorem Materializes.unchanged {r:ContainerMaterializationResult×σ}
    (h:∀p,fs.content r.2 p=fs.content s p) (hfail:r.1.success=false) :
    Materializes fs info memberIndex root remaining s r where
  inside:=fun p _=>h p
  keeps:=fun p b hb=>(h p).trans hb
  whole:=fun hs=>absurd hs (by simp [hfail])
  nothing:=fun _=>h

/-- Of the part file of this run: closing it keeps its bytes when it is to be published, and
removing it works when it is to be removed. -/
def DiskHolds (sha256 : Bytes→Bytes) (data : Bytes) (info : ContainerIngressInfo)
    (memberIndex : ℕ) (root : DiskPath) (depth : ℕ) (remaining : UInt64) (s : σ) : Prop :=
  ∀ e opened, admitMember sha256 data info memberIndex depth remaining = .ok e →
    openPart fs zip data info root (pathComponents e.normalizedPath) memberIndex s =
      (none,opened) →
    let dest := root ++ pathComponents e.normalizedPath
    let part := partPath dest memberIndex
    let f := fillPart fs zip (data.drop info.archiveBaseOffset) e part
      (outputBudget info.limits remaining).toNat opened
    let closed := (fs.close f.disk part).2
    (f.failure=none → (fs.rename closed part dest).1=none → fs.FlushKeeps f.disk part) ∧
      (f.failure=none → (fs.rename closed part dest).1≠none →
        fs.Removes (fs.rename closed part dest).2 part) ∧
      (f.failure≠none → fs.Removes closed part)

/-- When a failed run is allowed to have taken the part file away. -/
theorem removed_iff {kept:σ} {out:ContainerMaterializationResult}
    (hfree:fs.content s part=none) (hkept:∀q,q≠part → fs.content kept q=fs.content s q)
    (hout:out.success=false) :
    Materializes fs info memberIndex root remaining s (out,(fs.remove kept part).2) ↔
      fs.Removes kept part:=by
  constructor
  · intro h
    exact (h.nothing hout part).trans hfree
  · intro h
    apply Materializes.unchanged fs _ hout
    intro q
    by_cases hq : q=part
    · subst hq
      exact h.trans hfree.symm
    · exact (fs.remove_other kept part q hq).trans (hkept q hq)

theorem publish_iff (sha256:Bytes→Bytes) (out:ContainerMaterializationResult) {opened:σ}
    {f:Filled σ} {dest:DiskPath} (hdest:dest = root++pathComponents e.normalizedPath)
    (hpart:part=partPath dest memberIndex) (he:info.members[memberIndex]? = some e)
    (hsafe:e.safeToMaterialize=true) (hplain:PlainPath e.normalizedPath)
    (hbudget:e.uncompressedSize ≤ remaining.toNat)
    (hopen:Opened fs root (pathComponents e.normalizedPath) memberIndex s opened)
    (hf:Elsewhere fs part opened f.disk)
    (hwhole:f.failure=none → f.written=e.uncompressedSize ∧
      (fs.given f.disk part).length=e.uncompressedSize)
    (hout:out.success=false) :
    Materializes fs info memberIndex root remaining s (publish fs sha256 out dest part f) ↔
      (f.failure=none → (fs.rename (fs.close f.disk part).2 part dest).1=none →
          fs.FlushKeeps f.disk part) ∧
        (f.failure=none → (fs.rename (fs.close f.disk part).2 part dest).1≠none →
          fs.Removes (fs.rename (fs.close f.disk part).2 part dest).2 part) ∧
        (f.failure≠none → fs.Removes (fs.close f.disk part).2 part):=by
  have hne : part≠dest:=by
    rw [hpart]
    apply partPath_ne
    rw [hdest]
    simp [pathComponents_ne_nil]
  have hclose : Elsewhere fs part f.disk (fs.close f.disk part).2:=fun q hq=>
    fs.close_other f.disk part q hq
  have hclosed:=Elsewhere.trans fs hf hclose
  have hfree : fs.content s part=none:=by
    rw [hpart,hdest]
    exact hopen.free
  have hsame : ∀q,q≠part → fs.content (fs.close f.disk part).2 q=fs.content s q:=by
    intro q hq
    refine ((hclosed q hq).1).trans (hopen.elsewhere q ?_)
    rw [← hdest,← hpart]
    exact hq
  cases hfail : f.failure with
  | some failure=>
    have hpublish : publish fs sha256 out dest part f =
        (refuse out failure.1 failure.2,(fs.remove (fs.close f.disk part).2 part).2):=by
      unfold publish
      rw [hfail]
    have hrefused : (refuse out failure.1 failure.2).success=false:=hout
    rw [hpublish,removed_iff fs hfree hsame hrefused]
    simp
  | none=>
    obtain ⟨hwritten,hgiven⟩:=hwhole hfail
    have hrename:=fs.rename_fails (fs.close f.disk part).2 part dest
    have hmoves:=fs.rename_moves (fs.close f.disk part).2 part dest hne
    have hother:=fs.rename_other (fs.close f.disk part).2 part dest
    have hunknown:=fs.rename_unknown (fs.close f.disk part).2 part dest
    cases hmove : fs.rename (fs.close f.disk part).2 part dest with
    | mk message moved=>
    rw [hmove] at hrename hmoves hother hunknown
    cases message with
    | some m=>
      have hpublish : publish fs sha256 out dest part f =
          (refuse out "OUTPUT_PATH_REFUSED" ("cannot atomically finalize output file: " ++
            (fs.remove moved part).1),(fs.remove moved part).2):=by
        unfold publish
        simp only [hfail,hmove]
      have hkept : ∀q,q≠part → fs.content moved q=fs.content s q:=fun q hq=>
        (hrename q (by simp)).trans (hsame q hq)
      have hrefused : (refuse out "OUTPUT_PATH_REFUSED"
          ("cannot atomically finalize output file: "++(fs.remove moved part).1)).success =
          false:=hout
      rw [hpublish,removed_iff fs hfree hkept hrefused]
      simp
    | none=>
      obtain ⟨hnew,hgone⟩:=hmoves rfl
      -- The destination was free: had it been hidden, nothing could have been moved there.
      have hdestFree : fs.content s dest=none:=by
        rcases hopen.dest (by rw [← hdest,← hpart];exact hne) with h | ⟨m,h⟩
        · rw [hdest]
          exact h
        · rw [← hdest] at h
          exact absurd rfl (hunknown m ((hclosed dest (Ne.symm hne)).2.trans h))
      have hpublish : publish fs sha256 out dest part f =
          ({ out with
              outputPath:=dest,bytesWritten:=f.written
              uncompressedSha256:=((fs.content moved dest).map sha256).getD []
              state := "MATERIALIZED_VERIFIED"
              success:=true },moved):=by
        unfold publish
        simp only [hfail,hmove]
      have hrest : ∀q,q≠part → q≠dest → fs.content moved q=fs.content s q:=
        fun q hq hqd=>(hother q hq hqd).trans (hsame q hq)
      rw [hpublish]
      simp only [ne_eq,not_true_eq_false,false_implies,implies_true,and_true,forall_const]
      constructor
      · intro h
        obtain ⟨e',he',-,-,-,-,hlen⟩:=h.whole rfl
        obtain rfl : e=e':=some.inj (he.symm.trans he')
        rw [FileTree.FlushKeeps,hgiven,← hnew]
        exact hlen
      · intro h
        refine ⟨fun p hp=>?_,fun p b hb=>?_,fun _=>?_,fun hs=>absurd hs (by simp)⟩
        · refine hrest p (fun hpp=>hp ?_) (fun hpd=>hp ?_)
          · rw [hpp,hpart,hdest]
            exact part_inside hplain memberIndex
          · rw [hpd,hdest]
            exact dest_inside hplain
        · refine (hrest p (fun hpp=>?_) (fun hpd=>?_)).trans hb
          · rw [hpp,hfree] at hb
            simp at hb
          · rw [hpd,hdestFree] at hb
            simp at hb
        · refine ⟨e,he,hsafe,hdest,hwritten,hbudget,?_⟩
          rw [FileTree.FlushKeeps,hgiven,← hnew] at h
          exact h

variable {sha256 : Bytes→Bytes}

theorem admitMember_spec {depth:ℕ}
    (h:admitMember sha256 data info memberIndex depth remaining=.ok e) :
    info.structurallyValid=true ∧ info.members[memberIndex]? = some e ∧
      e.safeToMaterialize=true ∧ e.uncompressedSize ≤ remaining.toNat:=by
  revert h
  fun_cases admitMember sha256 data info memberIndex depth remaining with
  | case8 hshape e' he hidx budget hsafe hdepth hsize hsha=>
    intro h
    obtain rfl:=Except.ok.inj h
    simp only [Bool.or_eq_true,Bool.not_eq_true',not_or,Bool.not_eq_false] at hshape
    simp only [Bool.not_eq_true',Bool.not_eq_false] at hsafe
    simp only [Bool.or_eq_true,decide_eq_true_eq,not_or,Nat.not_lt] at hsize
    refine ⟨hshape.1.2,he,hsafe,?_⟩
    have hbudget : e'.uncompressedSize≤(outputBudget info.limits remaining).toNat:=hsize.1
    unfold outputBudget at hbudget
    split at hbudget
    · rename_i hmax
      have hlt:=info.limits.maxTotalMaterializedBytes.toNat_lt
      rw [hmax]
      have htop : (UInt64.ofNat maxU64).toNat=2^64-1:=by decide
      omega
    · exact hbudget
  | _=>
    intro h
    simp at h

theorem admitMember_refused {depth:ℕ} {out:ContainerMaterializationResult}
    (h:admitMember sha256 data info memberIndex depth remaining=.error out) :
    out.success=false:=by
  revert h
  fun_cases admitMember sha256 data info memberIndex depth remaining <;>
    intro h <;> first | exact (Except.error.inj h)▸rfl | exact absurd h (by simp)

variable {limits : ContainerIngressLimits}

theorem memberState_safe (h:(memberState limits e).1 = "SAFE_TO_MATERIALIZE") :
    e.safePath=true ∧ e.directory=false ∧ e.duplicatePath=false ∧
      e.caseCollision=false:=by
  revert h
  fun_cases memberState limits e with
  | case12 hpath _ _ _ hdir hdup hcase=>
    intro _
    simp only [Bool.not_eq_true',Bool.not_eq_false] at hpath
    exact ⟨hpath,by simpa using hdir,by simpa using hdup,by simpa using hcase⟩
  | _=>
    intro h
    simp at h

theorem inspectEntry_plain {base directoryOfs directoryOffset i:ℕ} {st:ArchiveFileStat}
    (h:inspectEntry sha256 limits data base directoryOfs directoryOffset i st=.ok e)
    (hsafe:e.safePath=true) (hdir:e.directory=false) : PlainPath e.normalizedPath:=by
  revert h
  fun_cases inspectEntry sha256 limits data base directoryOfs directoryOffset i st with
  | case12=>
    intro h
    obtain rfl:=Except.ok.inj h
    exact safeRelativeName_plain hdir hsafe
  | _=>
    intro h
    simp at h

theorem inspectZipContainer_marked (h:(inspectZipContainer sha256 zip limits data).members≠[]) :
    ∃inv,Marked inv ∧ (inspectZipContainer sha256 zip limits data).members =
      inv.members.map (finalizeMemberState limits):=by
  unfold inspectZipContainer at h ⊢
  cases heocd : strictEocdOffset data with
  | none=>simp [heocd] at h
  | some eocd=>
    simp only [heocd] at h ⊢
    split
    · rename_i hbig
      rw [if_pos hbig] at h
      exact absurd rfl h
    · rename_i hbig
      rw [if_neg hbig] at h
      cases hbase : archiveBase zip data eocd with
      | error m=>simp [hbase,failStructure] at h
      | ok base=>
        simp only [hbase] at h ⊢
        split
        · rename_i hmany
          rw [if_pos hmany] at h
          exact absurd rfl h
        · rename_i hmany
          rw [if_neg hmany] at h
          split
          · rename_i m hrun
            simp [hrun,failStructure] at h
          · rename_i inv hrun
            refine ⟨inv,inventoryFrom_marked ?_ _ _ marked_empty hrun,rfl⟩
            intro i st e he hsafe hdir
            exact inspectEntry_plain he hsafe hdir

def SafeMembersApart (info : ContainerIngressInfo) : Prop :=
  ∀ (i j : ℕ) (a b : ContainerMemberIdentity), i≠j → info.members[i]? = some a → info.members[j]? = some b →
    a.safeToMaterialize = true → b.safePath=true →
    lower a.normalizedPath ≠ lower b.normalizedPath

theorem safe_members_apart (sha256:Bytes→Bytes) (limits:ContainerIngressLimits)
    (data:Bytes) : SafeMembersApart (inspectZipContainer sha256 zip limits data):=by
  intro i j a b hij ha hb hsafe hpath hfold
  have hne : (inspectZipContainer sha256 zip limits data).members≠[]:=by
    intro hnil
    rw [hnil] at ha
    simp at ha
  obtain ⟨inv,hmarked,hmembers⟩:=inspectZipContainer_marked zip hne
  rw [hmembers,getElem?_map] at ha hb
  obtain ⟨a',ha',rfl⟩:=map_eq_some_iff.mp ha
  obtain ⟨b',hb',rfl⟩:=map_eq_some_iff.mp hb
  obtain ⟨hsafePath,hdir,hdup,hcase⟩:=memberState_safe (beq_iff_eq.mp hsafe)
  have hplain:=hmarked.plain a' (mem_of_getElem? ha') hsafePath hdir
  have hfold' : lower a'.normalizedPath=lower b'.normalizedPath:=hfold
  have hb'path : b'.safePath=true:=hpath
  have hb'ne : b'.normalizedPath≠[]:=by
    intro hnil
    rw [hnil] at hfold'
    exact hplain.1 (map_eq_nil_iff.mp hfold')
  have hpa : markedPath a'=some a'.normalizedPath:=by
    simp [markedPath,hsafePath,hplain.1]
  have hpb : markedPath b'=some b'.normalizedPath:=by
    simp [markedPath,hb'path,hb'ne]
  rcases hmarked.apart hij ha' hb' hpa hpb hfold' with h | h
  · rw [hdup] at h
    simp at h
  · rw [hcase] at h
    simp at h

theorem safe_member_plain
    (he:(inspectZipContainer sha256 zip limits data).members[memberIndex]? = some e)
    (hsafe:e.safeToMaterialize=true) : PlainPath e.normalizedPath:=by
  have hne : (inspectZipContainer sha256 zip limits data).members≠[]:=by
    intro hnil
    rw [hnil] at he
    simp at he
  obtain ⟨inv,hmarked,hmembers⟩:=inspectZipContainer_marked zip hne
  rw [hmembers,getElem?_map] at he
  obtain ⟨a,ha,rfl⟩:=map_eq_some_iff.mp he
  obtain ⟨hsafePath,hdir,-,-⟩:=memberState_safe (beq_iff_eq.mp hsafe)
  exact hmarked.plain a (mem_of_getElem? ha) hsafePath hdir

theorem materializeZipMember_iff (sha256:Bytes→Bytes) (limits:ContainerIngressLimits)
    (scanned data:Bytes) (memberIndex:ℕ) (root:DiskPath) (depth:ℕ) (remaining:UInt64)
    (s:σ) :
    Materializes fs (inspectZipContainer sha256 zip limits scanned) memberIndex root remaining s
        (materializeZipMember fs zip sha256 data (inspectZipContainer sha256 zip limits scanned)
          memberIndex root depth remaining s) ↔
      DiskHolds fs zip sha256 data (inspectZipContainer sha256 zip limits scanned) memberIndex
        root depth remaining s:=by
  unfold materializeZipMember DiskHolds
  cases hadmit : admitMember sha256 data (inspectZipContainer sha256 zip limits scanned)
      memberIndex depth remaining with
  | error out=>
    constructor
    · intro _ e opened he
      simp at he
    · intro _
      exact Materializes.unchanged fs (fun _=>rfl) (admitMember_refused hadmit)
  | ok e=>
    obtain ⟨-,he,hsafe,hbudget⟩:=admitMember_spec hadmit
    have hplain:=safe_member_plain zip he hsafe
    dsimp only
    cases hopen : openPart fs zip data (inspectZipContainer sha256 zip limits scanned) root
        (pathComponents e.normalizedPath) memberIndex s with
    | mk refusal opened=>
    obtain ⟨hsame,hopened⟩:=openPart_spec fs zip hopen
    cases refusal with
    | some refusal=>
      constructor
      · intro _ e' opened' he' hopen'
        obtain rfl:=Except.ok.inj he'
        rw [hopen] at hopen'
        exact absurd hopen' (by simp)
      · intro _
        exact Materializes.unchanged fs (hsame (by simp)) rfl
    | none=>
      have ho:=hopened rfl
      have hiff:=publish_iff fs sha256
        (describeMember { memberIndex:=memberIndex,parentSha256:=
          (inspectZipContainer sha256 zip limits scanned).parentSha256 } e)
        rfl rfl he hsafe hplain hbudget ho
        (fillPart_elsewhere fs zip
          (data.drop (inspectZipContainer sha256 zip limits scanned).archiveBaseOffset) e _
          (outputBudget (inspectZipContainer sha256 zip limits scanned).limits remaining).toNat
          opened)
        (fillPart_whole fs zip ho.given) rfl
      dsimp only
      rw [hiff]
      constructor
      · intro h e' opened' he' hopen'
        obtain rfl:=Except.ok.inj he'
        rw [hopen] at hopen'
        obtain ⟨-,rfl⟩ : True ∧ opened=opened':=by simpa using hopen'
        exact h
      · intro h
        exact h e opened rfl hopen

/-- For every ZIP container: what is safe is apart, it is written below real directories only,
and a member is published whole or not at all exactly when the disk holds its part file. -/
theorem zip_ingress_safe (sha256 : Bytes→Bytes) (limits : ContainerIngressLimits)
    (scanned data : Bytes) (memberIndex : ℕ) (root : DiskPath) (depth : ℕ) (remaining : UInt64)
    (s : σ) :
    SafeMembersApart (inspectZipContainer sha256 zip limits scanned) ∧
      (∀ relative, (ensureSafeOutputParents fs root relative s).1=none →
        RealDirectories fs root relative (ensureSafeOutputParents fs root relative s).2) ∧
      (Materializes fs (inspectZipContainer sha256 zip limits scanned) memberIndex root remaining s
          (materializeZipMember fs zip sha256 data (inspectZipContainer sha256 zip limits scanned)
            memberIndex root depth remaining s) ↔
        DiskHolds fs zip sha256 data (inspectZipContainer sha256 zip limits scanned) memberIndex
          root depth remaining s) :=
  ⟨safe_members_apart zip sha256 limits scanned, fun _ h=>ensureSafeOutputParents_directories fs h,
    materializeZipMember_iff fs zip sha256 limits scanned data memberIndex root depth remaining s⟩

def oneMember : Bytes :=
  [0x50,0x4b,0x03,0x04,20,0,0,0,0,0,0,0,0,0,7,0,0,0,1,0,0,0,1,0,0,0,
    1,0,0,0,0x61,0x62] ++
  [0x50,0x4b,0x01,0x02,20,0,20,0,0,0,0,0,0,0,0,0,7,0,0,0,1,0,0,0,
    1,0,0,0,1,0,0,0,0,0,0,0,0,0,0,0,0,0,0,0,0,0,0x61] ++
  [0x50,0x4b,0x05,0x06,0,0,0,0,1,0,1,0,47,0,0,0,32,0,0,0,0,0]

/-- What the library says of it; the decompression is the bytes that are left. -/
def oneMemberReader : ZipReader Bytes where
  initMem := fun _ => true
  lastError := fun _ => ""
  centralDirectoryFileOfs := fun _ => 32
  fileStats := fun _ =>
    [some { centralDirOfs:=0,localHeaderOfs:=0,compSize:=1,uncompSize:=1,crc32:=7,
            method:=0,bitFlag:=0,versionMadeBy:=20,externalAttr:=0,
            isDirectory:=false,isEncrypted:=false,isSupported:=true,headersValid:=true }]
  extractIterNew := fun archive _ => some ((archive.drop 31).take 1)
  extractIterRead := fun left want => (left.take want,left.drop want)
  extractIterFree := fun left => left.isEmpty

def oneMemberInfo : ContainerIngressInfo :=
  inspectZipContainer id oneMemberReader {aboveRatio := fun _ => false} oneMember

def emptyRoot : MemoryTree := ⟨fun _ => none,fun _ => [],fun p => p == [bytes "out"]⟩

def fullDiskRun : ContainerMaterializationResult×MemoryTree :=
  materializeZipMember (MemoryTree.tree false) oneMemberReader id oneMember oneMemberInfo 0
    [bytes "out"] 0 1000 emptyRoot

/-- The part file is closed on a full disk: what is reported as written is not there. -/
theorem full_disk_reported_whole : fullDiskRun.1.success=true ∧ fullDiskRun.1.bytesWritten=1 ∧
      (MemoryTree.tree false).content fullDiskRun.2 [bytes "out",bytes "a"] = some [] ∧
      ¬Materializes (MemoryTree.tree false) oneMemberInfo 0 [bytes "out"] 1000 emptyRoot
        fullDiskRun:=by
  have hrun : fullDiskRun.1.success=true ∧ fullDiskRun.1.bytesWritten=1 ∧
      fullDiskRun.1.outputPath = [bytes "out",bytes "a"] ∧
      (MemoryTree.tree false).content fullDiskRun.2 [bytes "out",bytes "a"] = some []:=by
    decide +kernel
  obtain ⟨hsuccess,hwritten,hpath,hcontent⟩:=hrun
  refine ⟨hsuccess,hwritten,hcontent,fun h=>?_⟩
  obtain ⟨e,-,-,-,hsize,-,hlen⟩:=h.whole hsuccess
  rw [hpath,hcontent,← hsize,hwritten] at hlen
  exact absurd hlen (by decide)

end AutoRefirst.Zip
