import AutoRefirst.AsarExtraction
import Mathlib.Data.List.Induction

/-!
# ASAR archives are indexed soundly and extracted whole

A full extraction that reports success has written every file of the index to a path of its
own: the loop counts what it expects and what it has written, and the counts are equal only
when no step failed.
-/

namespace AutoRefirst.Asar
open List
open CPythonIntrospection (J)

/-- The two ranges have no byte in common. -/
def RangesDisjoint (a b : ℕ×ℕ) : Prop := a.1+a.2≤b.1 ∨ b.1+b.2≤a.1

theorem RangesDisjoint.symm {a b:ℕ×ℕ} (h:RangesDisjoint a b) : RangesDisjoint b a:=Or.symm h

theorem rangesApart_pairwise {stop:ℕ} {ranges:List (ℕ×ℕ)} (h:rangesApart stop ranges=true) :
    (∀r∈ranges,stop ≤ r.1) ∧ ranges.Pairwise RangesDisjoint:=by
  induction ranges generalizing stop with
  | nil=>exact ⟨by simp,List.Pairwise.nil⟩
  | cons r ranges ih=>
    simp only [rangesApart,Bool.and_eq_true,decide_eq_true_eq] at h
    obtain ⟨hstop,hrest⟩:=h
    obtain ⟨hafter,hpairs⟩:=ih hrest
    constructor
    · intro x hx
      rcases mem_cons.mp hx with rfl | hx
      · exact hstop
      · exact Nat.le_trans (Nat.le_max_left _ _) (hafter x hx)
    · refine pairwise_cons.mpr ⟨?_,hpairs⟩
      intro x hx
      exact .inl (Nat.le_trans (Nat.le_max_right _ _) (hafter x hx))

/-- The order in which the ranges were found does not matter. -/
theorem disjoint_of_sorted_apart {ranges:List (ℕ×ℕ)}
    (h:rangesApart 0 (ranges.insertionSort rangeLe)=true) : ranges.Pairwise RangesDisjoint:=
  ((perm_insertionSort rangeLe ranges).pairwise_iff RangesDisjoint.symm).mp
    (rangesApart_pairwise h).2

theorem headerFiles_keyed {i i':AsarInfo} {d:Bytes} {files:J}
    (h:headerFiles i d=.ok (i',files)) : WellKeyed files ∧ i'.entries=i.entries:=by
  unfold headerFiles at h
  split at h
  · cases h
  split at h
  · cases h
  dsimp only at h
  split at h
  · cases h
  split at h
  · cases h
  split at h
  · cases h
  split at h
  · cases h
  · rename_i o hparse
    split at h
    · rename_i files' hfiles
      cases h
      exact ⟨(parseJson_keyed hparse).member (mem_of_lookup hfiles),rfl⟩
    · cases h
  · cases h

theorem resolveMain_same (i:AsarInfo) :
    (resolveMain i).entries=i.entries ∧ (resolveMain i).dataOffset=i.dataOffset:=by
  unfold resolveMain
  split
  · exact ⟨rfl,rfl⟩
  · split <;> exact ⟨rfl,rfl⟩

theorem packageMetadata_same (d:Bytes) (i:AsarInfo) : (packageMetadata d i).entries=i.entries ∧
      (packageMetadata d i).dataOffset=i.dataOffset:=by
  unfold packageMetadata
  split
  · exact ⟨rfl,rfl⟩
  split
  · exact ⟨rfl,rfl⟩
  split
  · exact resolveMain_same _
  · exact ⟨rfl,rfl⟩

/-- What an index of an accepted archive is: entries with their components, whose ranges are
apart. -/
structure SoundIndex (size : ℕ) (i : AsarInfo) (new : List (List Bytes×AsarEntry)) : Prop where
  entries : i.entries = new.map Prod.snd
  names : ∀ x∈new, x.1≠[] ∧ ∀ name∈x.1, validName name = true
  paths : ∀ x∈new, x.2.path = pathOf x.1
  distinct : (new.map Prod.fst).Nodup
  inside : ∀ x∈new, x.2.packed=true → i.dataOffset+x.2.offset+x.2.size ≤ size
  apart : (rangesOf i.entries).Pairwise RangesDisjoint

variable {p : Bytes}

theorem detectAsar_sound {d:Bytes} (h:(detectAsar d p).valid=true) :
    ∃new,SoundIndex d.length (detectAsar d p) new:=by
  unfold detectAsar at h ⊢
  cases hheader : headerFiles {archivePath:=p} d with
  | error i=>
    rw [hheader] at h
    cases h
  | ok r=>
    obtain ⟨i,files⟩:=r
    obtain ⟨hkeyed,hempty⟩:=headerFiles_keyed hheader
    simp only [hheader] at h ⊢
    cases hwalk : walkFiles d.length files [] {info:=i} with
    | error r=>
      rw [hwalk] at h
      cases h
    | ok w=>
      simp only [hwalk] at h ⊢
      split at h
      · cases h
      split at h
      · cases h
      rename_i hapart hdata
      rw [if_neg hapart,if_neg hdata]
      obtain ⟨new,hnew⟩:=(adds_walk d.length).1 files [] {info:=i} [] w hkeyed rfl
        (by simp) hwalk
      have hentries : w.info.entries=new.map Prod.snd:=by
        rw [hnew.entries,hempty]
        rfl
      have hranges : w.ranges=rangesOf w.info.entries:=by
        rw [hnew.ranges,hentries]
        rfl
      refine ⟨new,?_,hnew.names,fun x hx=>hnew.paths x hx,hnew.distinct,?_,?_⟩
      · exact (packageMetadata_same d _).1.trans hentries
      · intro x hx hpacked
        have hinside:=hnew.inside x hx hpacked
        rw [← hnew.dataOffset] at hinside
        rw [show (interesting _).dataOffset = _ from (packageMetadata_same d _).2]
        exact hinside
      · rw [show (interesting _).entries = _ from (packageMetadata_same d _).1]
        rw [← hranges]
        apply disjoint_of_sorted_apart
        simpa using hapart

theorem SoundIndex.parts_nodup {size:ℕ} {i:AsarInfo} {new:List (List Bytes×AsarEntry)}
    (h:SoundIndex size i new) : (i.entries.map fun e=>pathParts e.path).Nodup:=by
  have hparts : (i.entries.map fun e=>pathParts e.path) = new.map Prod.fst:=by
    rw [h.entries,map_map]
    apply map_congr_left
    intro x hx
    obtain ⟨hne,hvalid⟩:=h.names x hx
    rw [Function.comp_apply,h.paths x hx,pathParts_pathOf hne hvalid]
  rw [hparts]
  exact h.distinct

theorem safeOutputRel_eq {rel:DiskPath} (h:safeOutputRel p=some rel) :
    rel=pathParts p ∧ pathParts p≠[] ∧ ∀c∈pathParts p,safePart c=true:=by
  unfold safeOutputRel at h
  split at h
  · rename_i hsafe
    cases h
    simp only [Bool.and_eq_true,all_eq_true,decide_eq_true_eq] at hsafe
    exact ⟨rfl,hsafe.2,hsafe.1⟩
  · cases h

theorem safePart_name {c:Bytes} (h:safePart c=true) : c≠[] ∧ c≠bytes "." ∧ c≠bytes ".." := by
  simp only [safePart,Bool.and_eq_true,decide_eq_true_eq,ne_eq] at h
  exact ⟨h.1.1.1.1.1.1.1,h.1.1.1.1.1.1.2,h.1.1.1.1.1.2⟩

theorem safeOutputRel_inside {rel:DiskPath} (h:safeOutputRel p=some rel) (out:DiskPath) :
    StrictlyInside out (out++rel):=by
  obtain ⟨rfl,hne,hsafe⟩:=safeOutputRel_eq h
  exact ⟨pathParts p,hne,rfl,fun c hc=>safePart_name (hsafe c hc)⟩

section
variable {σ : Type} {D : OutputDisk σ} {d : Bytes} {i : AsarInfo} {out : DiskPath}
  {maxBytes maxFiles : ℕ} {t t' : ExtractState σ} {e : AsarEntry} {dest : DiskPath}

def packedContent (d : Bytes) (i : AsarInfo) (e : AsarEntry) : Bytes :=
  (d.drop (i.dataOffset+e.offset)).take e.size

/-- A step that writes no file. -/
structure Missed (t t' : ExtractState σ) : Prop where
  expected : t'.expectedFiles=t.expectedFiles
  written : t'.written=t.written

/-- A step that writes one file, and counts it. -/
structure Wrote (D : OutputDisk σ) (d : Bytes) (i : AsarInfo) (e : AsarEntry) (dest : DiskPath)
    (t t' : ExtractState σ) : Prop where
  expected : t'.expectedFiles=t.expectedFiles
  written : t'.written=t.written+1
  files : t'.result.files=t.result.files++[dest]
  content : e.packed=true → D.content t'.disk dest = some (packedContent d i e)
  others : ∀ q, q≠dest → D.content t'.disk q = D.content t.disk q

theorem verify_same (t:ExtractState σ) (e:AsarEntry) (content:Bytes) :
    (t.verify e content).disk=t.disk ∧ (t.verify e content).written=t.written ∧
      (t.verify e content).expectedFiles=t.expectedFiles ∧
      (t.verify e content).result.files=t.result.files:=by
  unfold ExtractState.verify
  split
  · split <;> exact ⟨rfl,rfl,rfl,rfl⟩
  · exact ⟨rfl,rfl,rfl,rfl⟩

theorem wrote_verify {content:Bytes} (h:Wrote D d i e dest t t') :
    Wrote D d i e dest t (t'.verify e content):=by
  obtain ⟨hdisk,hwritten,hexpected,hfiles⟩:=verify_same t' e content
  refine ⟨hexpected.trans h.expected,hwritten.trans h.written,hfiles.trans h.files,?_,?_⟩
  · rw [hdisk]
    exact h.content
  · rw [hdisk]
    exact h.others

theorem extractUnpacked_step (t:ExtractState σ) (hunpacked:e.unpacked=true) :
    Missed t (t.extractUnpacked D i e dest) ∨
      Wrote D d i e dest t (t.extractUnpacked D i e dest):=by
  unfold ExtractState.extractUnpacked
  split
  · exact .inl ⟨rfl,rfl⟩
  dsimp only
  split
  · exact .inl ⟨rfl,rfl⟩
  split
  · exact .inl ⟨rfl,rfl⟩
  split
  · exact .inl ⟨rfl,rfl⟩
  · refine .inr (wrote_verify ⟨rfl,rfl,rfl,?_,?_⟩)
    · intro hpacked
      simp [AsarEntry.packed,hunpacked] at hpacked
    · intro q hq
      exact (D.copyFile_other _ _ _ _ hq).trans (D.createDirectories_content _ _ _)

theorem extractPacked_step (t:ExtractState σ) : Missed t (t.extractPacked D d i e dest) ∨
      Wrote D d i e dest t (t.extractPacked D d i e dest):=by
  unfold ExtractState.extractPacked
  split
  · exact .inl ⟨rfl,rfl⟩
  dsimp only
  split
  · exact .inl ⟨rfl,rfl⟩
  split
  · exact .inl ⟨rfl,rfl⟩
  · rename_i hwrote
    refine .inr (wrote_verify ⟨rfl,rfl,rfl,?_,?_⟩)
    · intro _
      exact D.writeFile_content _ _ _ (by simpa using hwrote)
    · intro q hq
      exact (D.writeFile_other _ _ _ _ hq).trans (D.createDirectories_content _ _ _)

theorem extractFile_step (t:ExtractState σ) : Missed {t with expectedFiles:=t.expectedFiles+1}
        (t.extractFile D d i maxBytes maxFiles e dest) ∨
      Wrote D d i e dest {t with expectedFiles:=t.expectedFiles+1}
        (t.extractFile D d i maxBytes maxFiles e dest):=by
  unfold ExtractState.extractFile
  dsimp only
  split
  · exact .inl ⟨rfl,rfl⟩
  split
  · rename_i hunpacked
    exact extractUnpacked_step _ hunpacked
  · exact extractPacked_step _

def isFile (e : AsarEntry) : Bool := e.kind == .file

def destOf (out : DiskPath) (e : AsarEntry) : DiskPath := out ++ pathParts e.path

/-- What holds after the entries `l` of a full extraction: when as many files are written as
are expected, every file of `l` is written. -/
structure Extracted (D : OutputDisk σ) (d : Bytes) (i : AsarInfo) (out : DiskPath)
    (l : List AsarEntry) (t : ExtractState σ) : Prop where
  le : t.written≤t.expectedFiles
  files : t.written=t.expectedFiles → t.result.files=(l.filter isFile).map (destOf out)
  safe : t.written=t.expectedFiles → ∀ e∈l, isFile e = true →
    safeOutputRel e.path = some (pathParts e.path)
  contents : t.written=t.expectedFiles → ∀ e∈l, e.packed=true →
    D.content t.disk (destOf out e) = some (packedContent d i e)

theorem isFile_of_packed (h:e.packed=true) : isFile e=true:=by
  simp only [AsarEntry.packed,Bool.and_eq_true] at h
  exact h.1

variable {l : List AsarEntry}

theorem Extracted.skip (h:Extracted D d i out l t) (hfile:isFile e=false)
    (hexpected:t'.expectedFiles=t.expectedFiles) (hwritten:t'.written=t.written)
    (hfiles:t'.result.files=t.result.files)
    (hdisk:∀q,D.content t'.disk q=D.content t.disk q) :
    Extracted D d i out (l++[e]) t':=by
  have hnot : ∀x∈l++[e],isFile x=true → x∈l:=by
    intro x hx hxfile
    rcases mem_append.mp hx with hx | hx
    · exact hx
    · rw [mem_singleton.mp hx,hfile] at hxfile
      cases hxfile
  refine ⟨by rw [hwritten,hexpected];exact h.le,?_,?_,?_⟩
  · intro hall
    rw [hwritten,hexpected] at hall
    rw [hfiles,h.files hall,filter_append,filter_singleton,hfile]
    simp
  · intro hall x hx hxfile
    rw [hwritten,hexpected] at hall
    exact h.safe hall x (hnot x hx hxfile) hxfile
  · intro hall x hx hpacked
    rw [hwritten,hexpected] at hall
    rw [hdisk]
    exact h.contents hall x (hnot x hx (isFile_of_packed hpacked)) hpacked

theorem Extracted.missed (h:Extracted D d i out l t)
    (hmissed:Missed {t with expectedFiles:=t.expectedFiles+1} t') :
    Extracted D d i out (l++[e]) t':=by
  have hle:=h.le
  have hexpected : t'.expectedFiles=t.expectedFiles+1:=hmissed.expected
  have hwritten : t'.written=t.written:=hmissed.written
  refine ⟨by omega,?_,?_,?_⟩
  · intro hall
    omega
  · intro hall
    omega
  · intro hall
    omega

theorem Extracted.wrote (h:Extracted D d i out l t) (hfile:isFile e=true)
    (hsafe:safeOutputRel e.path=some (pathParts e.path))
    (hnew:∀x∈l,pathParts x.path≠pathParts e.path)
    (hwrote:Wrote D d i e (destOf out e) {t with expectedFiles:=t.expectedFiles+1} t') :
    Extracted D d i out (l++[e]) t':=by
  have hle:=h.le
  have hexpected : t'.expectedFiles=t.expectedFiles+1:=hwrote.expected
  have hwritten : t'.written=t.written+1:=hwrote.written
  refine ⟨by omega,?_,?_,?_⟩
  · intro hall
    rw [hwrote.files,filter_append,filter_singleton,hfile]
    dsimp only
    rw [h.files (by omega)]
    simp
  · intro hall x hx hxfile
    rcases mem_append.mp hx with hx | hx
    · exact h.safe (by omega) x hx hxfile
    · rw [mem_singleton.mp hx]
      exact hsafe
  · intro hall x hx hpacked
    rcases mem_append.mp hx with hx | hx
    · have hother : destOf out x≠destOf out e:=by
        intro heq
        exact hnew x hx (append_cancel_left heq)
      rw [hwrote.others _ hother]
      exact h.contents (by omega) x hx hpacked
    · rw [mem_singleton.mp hx] at hpacked ⊢
      exact hwrote.content hpacked

theorem Extracted.step (h:Extracted D d i out l t) (hnew:∀x∈l,pathParts x.path≠pathParts e.path) :
    Extracted D d i out (l++[e])
      (ExtractState.extractEntry D d i out false maxBytes maxFiles t e):=by
  unfold ExtractState.extractEntry
  cases hkind : e.kind with
  | link=>exact h.skip (by simp [isFile,hkind]) rfl rfl rfl (fun _=>rfl)
  | directory=>
    have hfile : isFile e=false:=by simp [isFile,hkind]
    dsimp only
    rw [if_neg Bool.false_ne_true]
    split
    · exact h.skip hfile rfl rfl rfl (fun _=>rfl)
    · split
      · exact h.skip hfile rfl rfl rfl (fun q=>D.createDirectories_content _ _ q)
      · exact h.skip hfile rfl rfl rfl (fun q=>D.createDirectories_content _ _ q)
  | file=>
    have hfile : isFile e=true:=by simp [isFile,hkind]
    dsimp only
    rw [Bool.false_and,if_neg Bool.false_ne_true]
    split
    · exact h.missed ⟨rfl,rfl⟩
    · rename_i rel hrel
      obtain ⟨rfl,-,-⟩:=safeOutputRel_eq hrel
      rcases @extractFile_step _ D d i maxBytes maxFiles e (destOf out e) t with hmissed | hwrote
      · exact h.missed hmissed
      · exact h.wrote hfile hrel hnew hwrote

theorem Extracted.run (h:Extracted D d i out [] t) (l:List AsarEntry)
    (hparts:(l.map fun e=>pathParts e.path).Nodup) :
    Extracted D d i out l
      (l.foldl (ExtractState.extractEntry D d i out false maxBytes maxFiles) t):=by
  induction l using reverseRecOn with
  | nil=>exact h
  | append_singleton l e ih=>
    rw [map_append,nodup_append] at hparts
    obtain ⟨hl,-,hdisjoint⟩:=hparts
    rw [foldl_append]
    apply (ih hl).step
    intro x hx
    exact hdisjoint _ (mem_map_of_mem hx) _ (by simp)

theorem success_counts (h:t.success false=true) : t.written=t.expectedFiles:=by
  simp only [ExtractState.success,Bool.false_eq_true,if_false,Bool.and_eq_true, beq_iff_eq] at h
  exact h.1.1

theorem finish_files (t:ExtractState σ) : (t.finish false).1.files=t.result.files:=by
  unfold ExtractState.finish ExtractState.warnLinks
  dsimp only
  split <;> rfl

end

theorem extractAsar_success {σ:Type} {D:OutputDisk σ} {d:Bytes} {i:AsarInfo}
    {out:DiskPath} {maxBytes maxFiles:ℕ} {s:σ}
    (hparts:(i.entries.map fun e=>pathParts e.path).Nodup)
    (h:(extractAsar D d i out false maxBytes maxFiles s).1.success=true) :
    ∃t,Extracted D d i out i.entries t ∧ t.written=t.expectedFiles ∧
      (extractAsar D d i out false maxBytes maxFiles s).1.files=t.result.files ∧
      (extractAsar D d i out false maxBytes maxFiles s).2=t.disk:=by
  unfold extractAsar at h ⊢
  dsimp only at h ⊢
  split at h
  · cases h
  rename_i hvalid
  rw [if_neg hvalid]
  cases hmade : (D.createDirectories s out).1 with
  | some message=>
    rw [hmade] at h
    cases h
  | none=>
    rw [hmade] at h
    dsimp only at h ⊢
    simp only [Bool.false_and,Bool.false_eq_true,if_false] at h ⊢
    have hrun:=@Extracted.run _ D d i out maxBytes maxFiles
      { disk:=(D.createDirectories s out).2,result:={outputDir:=out,coreOnly:=false} }
      ⟨Nat.le_refl _,fun _=>rfl,by simp,by simp⟩ i.entries hparts
    refine ⟨_,hrun,?_,?_,?_⟩
    · exact success_counts h
    · exact finish_files _
    · rfl

def twoFilesHeader : Bytes :=
  bytes ("\x7b\"files\":\x7b\"a\":\x7b\"size\":2,\"offset\":\"1\"\x7d," ++
    "\"d\":\x7b\"files\":\x7b\"b\":\x7b\"size\":1,\"offset\":\"0\"\x7d\x7d\x7d\x7d\x7d")

def twoFiles : Bytes :=
  ([4,92,88,83].flatMap fun n => [n,0,0,0]) ++ twoFilesHeader ++ 0::bytes "xyz"

end AutoRefirst.Asar
