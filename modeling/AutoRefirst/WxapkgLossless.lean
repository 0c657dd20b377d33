import AutoRefirst.WxapkgExtraction
import AutoRefirst.Fallible

/-!
# What the extraction of a wxapkg package loses

Ranges and budgets are kept for every package. Names are not compared: entries whose cleaned
names lead to one place share a file, and the extraction still counts both.
-/

namespace AutoRefirst.Wxapkg
open Fallible ExtractRun List

variable {d : Bytes}

theorem parseEntries_ranges {bodyStart bodyEnd count p stop:ℕ} {entries:List WxapkgEntry}
    (h:parseEntries d bodyStart bodyEnd count p=.ok (entries,stop)) :
    entries.length=count ∧
      ∀e∈entries,bodyStart≤e.offset ∧ e.offset+e.size≤bodyEnd:=by
  induction count generalizing p entries with
  | zero=>
    cases h
    exact ⟨rfl,by simp⟩
  | succ count ih=>
    rw [parseEntries] at h
    split at h
    · cases h
    dsimp only at h
    split at h
    · cases h
    split at h
    · cases h
    split at h
    · cases h
    rename_i hrange
    rw [bind_eq_ok] at h
    obtain ⟨⟨rest,stop'⟩,hrest,h⟩:=h
    cases h
    obtain ⟨hlength,hranges⟩:=ih hrest
    refine ⟨by rw [length_cons,hlength],?_⟩
    intro e he
    rcases mem_cons.mp he with rfl | he
    · dsimp only
      omega
    · exact hranges e he

structure InBody (data : Bytes) (w : WxapkgInfo) : Prop where
  body : w.entries≠[] → 14+w.indexLength+w.bodyLength≤data.length
  entries : ∀ e∈w.entries, 14+w.indexLength≤e.offset ∧
    e.offset + e.size ≤ 14+w.indexLength+w.bodyLength

theorem parsePlain_inBody (h:(parsePlain d).valid=true) : InBody d (parsePlain d):=by
  unfold parsePlain at h ⊢
  split at h
  · cases h
  dsimp only at h ⊢
  split at h
  · cases h
  split at h
  · cases h
  split at h
  · cases h
  split at h
  · cases h
  rename_i hmarkers hindex hcount hmany hgeometry
  rw [if_neg hmarkers,if_neg hindex,if_neg hcount,if_neg hmany,if_neg hgeometry]
  split at h
  · cases h
  · rename_i entries p hentries
    generalize (if p>14 + be32 d 5 then p-(14 + be32 d 5) else 14 + be32 d 5 - p) = delta at h ⊢
    split at h
    · cases h
    · rename_i hdelta
      rw [if_neg hdelta]
      refine ⟨?_,(parseEntries_ranges hentries).2⟩
      intro _
      dsimp only
      omega

theorem parsePlain_decrypted (d:Bytes) : (parsePlain d).decrypted=false:=by
  unfold parsePlain
  dsimp only
  repeat' split
  all_goals rfl

theorem detectWxapkg_inBody {cipher:HeadCipher} {path:List Bytes} {wxid:Bytes}
    (h:(detectWxapkg cipher d path wxid).valid=true) :
    InBody (dataOf (detectWxapkg cipher d path wxid) d) (detectWxapkg cipher d path wxid):=by
  have hempty : ∀(data:Bytes) (w:WxapkgInfo),w.entries=[] → InBody data w:=by
    intro data w hw
    exact ⟨fun hne=>absurd hw hne,by simp [hw]⟩
  unfold detectWxapkg at h ⊢
  generalize (if wxid = [] then inferWxid path else wxid) = wxid' at h ⊢
  dsimp only at h ⊢
  split
  · split
    · exact hempty _ _ rfl
    · split
      · exact hempty _ _ rfl
      · split
        · exact hempty _ _ rfl
        · rename_i hvalid
          have hplain:=parsePlain_inBody (by simpa using hvalid)
          exact ⟨hplain.body,hplain.entries⟩
  · rename_i hmarker
    rw [if_neg hmarker] at h
    have hplain:=parsePlain_inBody h
    have hdata : dataOf {parsePlain d with wxid:=wxid'} d=d:=by
      rw [dataOf,parsePlain_decrypted]
      rfl
    rw [hdata]
    exact ⟨hplain.body,hplain.entries⟩

section
variable {σ : Type} {D : OutputDisk σ} {style : PathStyle} {data original out : Bytes}
  {w : WxapkgInfo} {coreOnly : Bool} {maxBytes maxFiles : ℕ}

theorem effect_extractEntry (t:ExtractRun σ) (e:WxapkgEntry) :
    Effect D style (target style out) (entryBytes data) e t
      (extractEntry D style data out maxBytes maxFiles t e):=by
  unfold extractEntry
  split
  · exact .skipped rfl rfl fun _ _=>rfl
  split
  · exact .skipped rfl rfl fun _ _=>rfl
  split
  · exact .skipped rfl rfl fun _ _=>rfl
  · exact effect_write D style (target style out) (entryBytes data) t e e.size

theorem bounded_extractEntry (t:ExtractRun σ) (e:WxapkgEntry) (h:Bounded maxBytes maxFiles t) :
    Bounded maxBytes maxFiles (extractEntry D style data out maxBytes maxFiles t e):=by
  unfold extractEntry
  split
  · exact h
  split
  · exact h.omitEntry e.size
  split
  · exact h
  · rename_i hfits _
    exact h.write _ _ (by simpa using hfits)

theorem bounded_extractWxapkg (s:σ) : Bounded maxBytes maxFiles
      (extractWxapkg D style original w out coreOnly maxBytes maxFiles s):=by
  unfold extractWxapkg
  dsimp only
  split
  · exact ⟨Nat.zero_le _,Nat.zero_le _,rfl⟩
  split
  · exact ⟨Nat.zero_le _,Nat.zero_le _,rfl⟩
  split
  · exact ⟨Nat.zero_le _,Nat.zero_le _,rfl⟩
  · have hrun : Bounded maxBytes maxFiles (extractAll D style original w out coreOnly maxBytes
        maxFiles (D.createDirectories s (located style out)).2):=
      foldl_keeps bounded_extractEntry _ ⟨Nat.zero_le _,Nat.zero_le _,rfl⟩
    exact ⟨hrun.files,hrun.bytes,hrun.counted⟩

def OwnFiles (D : OutputDisk σ) (style : PathStyle) (data : Bytes) (entries : List WxapkgEntry)
    (t : ExtractRun σ) : Prop :=
  (t.result.files.map (located style)).Nodup ∧
    List.Forall₂ (fun e p => D.content t.disk (located style p) = some (entryBytes data e))
      entries t.result.files

def places (style : PathStyle) (out : Bytes) (entries : List WxapkgEntry) : List DiskPath :=
  entries.map fun e => located style (target style out e)

variable {s : σ}

theorem extractWxapkg_success
    (h:(extractWxapkg D style original w out false maxBytes maxFiles s).result.success=true) :
    ∃s',(extractAll D style original w out false maxBytes maxFiles s').result.fileCount =
        w.entries.length ∧
      (extractWxapkg D style original w out false maxBytes maxFiles s).result.files =
        (extractAll D style original w out false maxBytes maxFiles s').result.files ∧
      (extractWxapkg D style original w out false maxBytes maxFiles s).disk =
        (extractAll D style original w out false maxBytes maxFiles s').disk:=by
  unfold extractWxapkg at h ⊢
  dsimp only at h ⊢
  split at h
  · cases h
  rename_i hvalid
  rw [if_neg hvalid]
  simp only [Bool.false_eq_true,false_and,if_false] at h ⊢
  split at h
  · cases h
  · refine ⟨_,?_,rfl,rfl⟩
    simp only [success,Bool.false_eq_true,if_false,Bool.and_eq_true,beq_iff_eq] at h
    exact h.1.1

theorem extractAll_files
    (h:(extractAll D style original w out false maxBytes maxFiles s).result.fileCount =
      w.entries.length) :
    (extractAll D style original w out false maxBytes maxFiles s).result.files =
      w.entries.map (target style out):=by
  obtain ⟨l',hsub,hfiles,hcount⟩:=@run_files _ _ _ _ _ _
    (extractEntry D style (dataOf w original) out maxBytes maxFiles)
    effect_extractEntry w.entries {disk:=s,result:={}}
  change (extractAll D style original w out false maxBytes maxFiles s).result.files = _ at hfiles
  change (extractAll D style original w out false maxBytes maxFiles s).result.fileCount=_
    at hcount
  rw [h,Nat.zero_add] at hcount
  rw [hfiles,hsub.eq_of_length hcount.symm]
  rfl

/-- A run that reports complete success has lost nothing, when the places differ. -/
theorem ownFiles_of_nodup
    (h:(extractWxapkg D style original w out false maxBytes maxFiles s).result.success=true)
    (hplaces:(places style out w.entries).Nodup) :
    OwnFiles D style (dataOf w original) w.entries
      (extractWxapkg D style original w out false maxBytes maxFiles s):=by
  obtain ⟨s',hcount,hfiles,hdisk⟩:=extractWxapkg_success h
  rw [OwnFiles,hfiles,hdisk,extractAll_files hcount]
  constructor
  · rw [List.map_map]
    exact hplaces
  · rw [forall₂_map_right_iff]
    apply forall₂_same.mpr
    exact @run_contents _ _ _ _ _ _ (extractEntry D style (dataOf w original) out maxBytes maxFiles)
      effect_extractEntry w.entries hplaces {disk:=s',result:={}}
      (by rw [Nat.zero_add];exact hcount)

theorem places_nodup_of_ownFiles
    (h:(extractWxapkg D style original w out false maxBytes maxFiles s).result.success=true)
    (hown:OwnFiles D style (dataOf w original) w.entries
      (extractWxapkg D style original w out false maxBytes maxFiles s)) :
    (places style out w.entries).Nodup:=by
  obtain ⟨s',hcount,hfiles,-⟩:=extractWxapkg_success h
  have hnodup:=hown.1
  rw [hfiles,extractAll_files hcount,List.map_map] at hnodup
  exact hnodup

/-- A name that is refused is never written, so the counts differ at the end. -/
theorem fileCount_le (l:List WxapkgEntry) (t:ExtractRun σ) :
    (l.foldl (extractEntry D style data out maxBytes maxFiles) t).result.fileCount ≤
      t.result.fileCount + l.countP fun e=>!refused (clean e.name):=by
  induction l generalizing t with
  | nil=>exact Nat.le_refl _
  | cons e l ih=>
    have hrest:=ih (extractEntry D style data out maxBytes maxFiles t e)
    rw [foldl_cons,countP_cons]
    have hstep : (extractEntry D style data out maxBytes maxFiles t e).result.fileCount ≤
        t.result.fileCount + if !refused (clean e.name) then 1 else 0:=by
      cases hrefused : refused (clean e.name) with
      | true=>
        unfold extractEntry
        rw [hrefused]
        split
        · exact Nat.le_refl _
        · split <;> exact Nat.le_refl _
      | false=>
        cases @effect_extractEntry _ D style data out maxBytes maxFiles t e with
        | skipped files count others=>
          rw [count]
          exact Nat.le_add_right _ _
        | wrote files count bytes others=>
          rw [count]
          exact Nat.le_refl _
    omega

theorem not_refused_of_success
    (h:(extractWxapkg D style original w out false maxBytes maxFiles s).result.success=true) :
    ∀e∈w.entries,refused (clean e.name)=false:=by
  obtain ⟨s',hcount,-,-⟩:=extractWxapkg_success h
  have hle:=@fileCount_le _ D style (dataOf w original) out maxBytes maxFiles w.entries {disk:=s',result:={}}
  change (extractAll D style original w out false maxBytes maxFiles s').result.fileCount ≤ _ at hle
  rw [hcount,Nat.zero_add] at hle
  have hall:=countP_eq_length.mp (Nat.le_antisymm countP_le_length hle)
  intro e he
  simpa using hall e he

end

section
variable {style : PathStyle} {original out : Bytes} {w : WxapkgInfo}

theorem memory_success (hvalid:w.valid=true) (hne:w.entries≠[])
    (hnames:∀e∈w.entries,refused (clean e.name)=false)
    (hranges:∀e∈w.entries,e.offset+e.size≤(dataOf w original).length) :
    (extractWxapkg (OutputDisk.memory fun _=>none) style original w out false
      (w.entries.map WxapkgEntry.size).sum w.entries.length fun _=>none).result.success =
        true:=by
  have hkeep : ∀(t:ExtractRun (DiskPath → Option Bytes)),∀e∈w.entries,true=true →
      t.fits (w.entries.map WxapkgEntry.size).sum w.entries.length e.size=true →
      extractEntry (OutputDisk.memory fun _=>none) style (dataOf w original) out
          (w.entries.map WxapkgEntry.size).sum w.entries.length t e =
        t.write (OutputDisk.memory fun _=>none) style (target style out e)
          (entryBytes (dataOf w original) e) e.size:=by
    intro t e he _ hfits
    have hrange:=hranges e he
    unfold extractEntry
    rw [if_neg (by omega),hfits,hnames e he]
    rfl
  obtain ⟨-,hcount,hgood⟩:=@memory_run _ _ _ _ _ (fun _=>true) _ _ _ w.entries
    {disk:=fun _=>none,result:={}} hkeep (fun _ _ _ hno=>by cases hno) (by simp)
    (by simp) rfl
  rw [filter_eq_self.mpr fun _ _=>rfl] at hcount
  change (extractAll (OutputDisk.memory fun _=>none) style original w out false
    (w.entries.map WxapkgEntry.size).sum w.entries.length fun _=>none).result.fileCount =
      0 + w.entries.length at hcount
  change (extractAll (OutputDisk.memory fun _=>none) style original w out false
    (w.entries.map WxapkgEntry.size).sum w.entries.length fun _=>none).result.budgetExhausted =
      false at hgood
  have hlength : 0<w.entries.length:=length_pos_iff.mpr hne
  unfold extractWxapkg
  dsimp only
  rw [if_neg (by simp [hvalid,hne])]
  simp only [Bool.false_eq_true,false_and,if_false]
  change success w false (extractAll (OutputDisk.memory fun _=>none) style original w out false
    (w.entries.map WxapkgEntry.size).sum w.entries.length fun _=>none).result = true
  simp only [success,Bool.false_eq_true,if_false,hcount,hgood,Nat.zero_add]
  simpa using hlength

end

def twoEntries (n₁ n₂ : Bytes) : Bytes :=
  let bodyStart : UInt8 := (14+4+(12+n₁.length)+(12+n₂.length)).toUInt8
  [0xbe,0,0,0,0,0,0,0,bodyStart-14,0,0,0,2,0xed,0,0,0,2] ++
    ([0,0,0,n₁.length.toUInt8]++n₁++[0,0,0,bodyStart,0,0,0,1]) ++
    ([0,0,0,n₂.length.toUInt8]++n₂++[0,0,0,bodyStart+1,0,0,0,1]) ++ bytes "pq"

/-- The package under no encryption, whatever the cipher. -/
def twoEntriesInfo (n₁ n₂ : Bytes) : WxapkgInfo :=
  detectWxapkg (fun _ head => head) (twoEntries n₁ n₂) [] []

def twoEntriesRun (n₁ n₂ : Bytes) : ExtractRun (DiskPath → Option Bytes) :=
  extractWxapkg (OutputDisk.memory fun _ => none) .posix (twoEntries n₁ n₂)
    (twoEntriesInfo n₁ n₂) (bytes "out") false 10 10 fun _ => none

end AutoRefirst.Wxapkg
