import AutoRefirst.LexicalPaths
import AutoRefirst.OutputDisk
import AutoRefirst.Word64
import Mathlib.Data.List.Induction

/-!
# Loops that extract files

The loops over the entries of an archive differ in what they skip, and agree in how a file is
written and counted.
-/

namespace AutoRefirst
open List

/-- The result records of the wxapkg, RPA and Nuitka extractors have the same fields. -/
structure ExtractResult where
  (success coreOnly budgetExhausted : Bool := false)
  outputDir : Bytes := []
  (fileCount outputBytes omittedCount omittedBytes : ℕ := 0)
  files : List Bytes := []
  error : String := ""

structure ExtractRun (σ : Type) where
  disk : σ
  result : ExtractResult

/-- The file that a path is opened at: the name ends at a NUL. -/
def located (style : PathStyle) (p : Bytes) : DiskPath := style.resolve (p.takeWhile (· ≠ 0))

namespace ExtractRun

variable {σ : Type}

def fits (t : ExtractRun σ) (maxBytes maxFiles size : ℕ) : Bool :=
  !(t.result.fileCount ≥ maxFiles || size > maxBytes-t.result.outputBytes)

def omitEntry (t : ExtractRun σ) (size : ℕ) : ExtractRun σ :=
  { t with result:={ t.result with
      budgetExhausted:=true,omittedCount:=t.result.omittedCount+1
      omittedBytes:=Word64.satAdd t.result.omittedBytes size } }

def write (t : ExtractRun σ) (D : OutputDisk σ) (style : PathStyle) (p content : Bytes)
    (size : ℕ) : ExtractRun σ :=
  let made := D.createDirectories t.disk (located style p).dropLast
  let wrote := D.writeFile made.2 (located style p) content
  if wrote.1 then
    { disk:=wrote.2
      result:={ t.result with
        fileCount:=t.result.fileCount+1,outputBytes:=t.result.outputBytes+size
        files:=t.result.files++[p] } }
  else {t with disk:=wrote.2}

structure Bounded (maxBytes maxFiles : ℕ) (t : ExtractRun σ) : Prop where
  files : t.result.fileCount ≤ maxFiles
  bytes : t.result.outputBytes ≤ maxBytes
  counted : t.result.files.length=t.result.fileCount

section
variable {D : OutputDisk σ} {style : PathStyle} {maxBytes maxFiles size : ℕ} {t : ExtractRun σ}

theorem Bounded.omitEntry (h:Bounded maxBytes maxFiles t) (size:ℕ) :
    Bounded maxBytes maxFiles (t.omitEntry size):=⟨h.files,h.bytes,h.counted⟩

theorem Bounded.write (h:Bounded maxBytes maxFiles t) (p content:Bytes)
    (hfits:t.fits maxBytes maxFiles size=true) :
    Bounded maxBytes maxFiles (t.write D style p content size):=by
  simp only [fits,Bool.not_eq_true',Bool.or_eq_false_iff,decide_eq_false_iff_not] at hfits
  have hbytes:=h.bytes
  have hcounted:=h.counted
  unfold ExtractRun.write
  dsimp only
  split
  · refine ⟨?_,?_,?_⟩
    · dsimp only
      omega
    · dsimp only
      omega
    · simp [hcounted]
  · exact ⟨h.files,h.bytes,h.counted⟩

end

theorem foldl_keeps {α:Type} {P:ExtractRun σ→Prop} {step:ExtractRun σ→α→ExtractRun σ}
    (hstep:∀t e,P t → P (step t e)) (l:List α) {t:ExtractRun σ} (h:P t) :
    P (l.foldl step t):=by
  induction l generalizing t with
  | nil=>exact h
  | cons e l ih=>exact ih (hstep t e h)

section
variable {α : Type} (D : OutputDisk σ) (style : PathStyle) (target content : α→Bytes)

/-- The step of one entry: it writes the file of the entry, or none. -/
inductive Effect (e : α) (t t' : ExtractRun σ) : Prop
  | skipped (files : t'.result.files=t.result.files)
      (count : t'.result.fileCount=t.result.fileCount)
      (others : ∀ q, q ≠ located style (target e) → D.content t'.disk q = D.content t.disk q)
  | wrote (files : t'.result.files=t.result.files++[target e])
      (count : t'.result.fileCount=t.result.fileCount+1)
      (bytes : D.content t'.disk (located style (target e)) = some (content e))
      (others : ∀ q, q ≠ located style (target e) → D.content t'.disk q = D.content t.disk q)

theorem effect_write (t:ExtractRun σ) (e:α) (size:ℕ) :
    Effect D style target content e t (t.write D style (target e) (content e) size):=by
  unfold ExtractRun.write
  dsimp only
  split
  · rename_i hwrote
    refine .wrote rfl rfl (D.writeFile_content _ _ _ hwrote) ?_
    intro q hq
    exact (D.writeFile_other _ _ _ _ hq).trans (D.createDirectories_content _ _ _)
  · refine .skipped rfl rfl ?_
    intro q hq
    exact (D.writeFile_other _ _ _ _ hq).trans (D.createDirectories_content _ _ _)

variable {D style target content} {step : ExtractRun σ→α→ExtractRun σ}

/-- The loop has written the files of some of the entries, in their order. -/
theorem run_files (hstep:∀t e,Effect D style target content e t (step t e)) (l:List α)
    (t:ExtractRun σ) :
    ∃l',List.Sublist l' l ∧ (l.foldl step t).result.files = t.result.files++l'.map target ∧
      (l.foldl step t).result.fileCount = t.result.fileCount+l'.length:=by
  induction l generalizing t with
  | nil=>exact ⟨[],List.Sublist.refl _,by simp,by simp⟩
  | cons e l ih=>
    obtain ⟨l',hsub,hfiles,hcount⟩:=ih (step t e)
    rw [foldl_cons,hfiles,hcount]
    cases hstep t e with
    | skipped files count others=>
      exact ⟨l',hsub.cons e,by rw [files],by rw [count]⟩
    | wrote files count bytes others=>
      refine ⟨e::l',hsub.cons_cons e,?_,?_⟩
      · rw [files,append_assoc,map_cons,singleton_append]
      · rw [count,length_cons]
        omega

/-- Files at places of their own keep their bytes to the end of the loop. -/
theorem run_contents (hstep:∀t e,Effect D style target content e t (step t e)) (l:List α)
    (hown:(l.map fun e=>located style (target e)).Nodup) (s:ExtractRun σ)
    (hall:(l.foldl step s).result.fileCount=s.result.fileCount+l.length) :
    ∀e∈l,D.content (l.foldl step s).disk (located style (target e))=some (content e):=by
  induction l using List.reverseRecOn with
  | nil=>simp
  | append_singleton l e ih=>
    rw [map_append,nodup_append] at hown
    obtain ⟨hl,-,hdisjoint⟩:=hown
    rw [foldl_append,foldl_cons,foldl_nil,length_append] at hall
    rw [foldl_append,foldl_cons,foldl_nil]
    obtain ⟨l',hsub,-,hcount⟩:=run_files hstep l s
    have hlength:=hsub.length_le
    simp only [length_singleton] at hall
    cases hstep (l.foldl step s) e with
    | skipped files count others=>omega
    | wrote files count bytes others=>
      intro x hx
      rcases mem_append.mp hx with hx | hx
      · rw [others _ (hdisjoint _ (List.mem_map_of_mem hx) _ (by simp))]
        exact ih hl (by omega) x hx
      · rw [mem_singleton.mp hx]
        exact bytes

end

/-- On a disk where everything succeeds, within a budget for all, the loop writes the files of
all the entries that it keeps. -/
theorem memory_run {α:Type} {style:PathStyle} {target content:α→Bytes} {size:α→ℕ}
    {keep:α→Bool} {maxBytes maxFiles:ℕ}
    {step:ExtractRun (DiskPath → Option Bytes) → α → ExtractRun (DiskPath → Option Bytes)}
    (l:List α) (t:ExtractRun (DiskPath → Option Bytes))
    (hkeep:∀t,∀e∈l,keep e=true → t.fits maxBytes maxFiles (size e)=true →
      step t e = t.write (OutputDisk.memory fun _=>none) style (target e) (content e) (size e))
    (hskip:∀t,∀e∈l,keep e=false → step t e=t)
    (hfiles:t.result.fileCount+l.length ≤ maxFiles)
    (hbytes:t.result.outputBytes+(l.map size).sum ≤ maxBytes)
    (hbudget:t.result.budgetExhausted=false) :
    (l.foldl step t).result.files = t.result.files++(l.filter keep).map target ∧
      (l.foldl step t).result.fileCount = t.result.fileCount+(l.filter keep).length ∧
      (l.foldl step t).result.budgetExhausted=false:=by
  induction l generalizing t with
  | nil=>exact ⟨by simp,rfl,hbudget⟩
  | cons e l ih=>
    simp only [length_cons,map_cons,sum_cons] at hfiles hbytes
    have hkeep':=fun t x hx=>hkeep t x (mem_cons_of_mem e hx)
    have hskip':=fun t x hx=>hskip t x (mem_cons_of_mem e hx)
    rw [foldl_cons]
    cases hkept : keep e with
    | false=>
      rw [hskip t e mem_cons_self hkept,filter_cons_of_neg (by simp [hkept])]
      exact ih t hkeep' hskip' (by omega) (by omega) hbudget
    | true=>
      have hfits : t.fits maxBytes maxFiles (size e)=true:=by
        simp only [fits,Bool.not_eq_true',Bool.or_eq_false_iff,decide_eq_false_iff_not]
        omega
      rw [hkeep t e mem_cons_self hkept hfits,filter_cons_of_pos hkept]
      obtain ⟨hout,hcount,hgood⟩:=ih
        (t.write (OutputDisk.memory fun _=>none) style (target e) (content e) (size e))
        hkeep' hskip'
        (by
          change t.result.fileCount + 1 + l.length ≤ maxFiles
          omega)
        (by
          change t.result.outputBytes + size e + (l.map size).sum ≤ maxBytes
          omega)
        hbudget
      refine ⟨?_,?_,hgood⟩
      · rw [hout]
        change (t.result.files++[target e])++_ = _
        rw [append_assoc,map_cons,singleton_append]
      · rw [hcount]
        change t.result.fileCount + 1 + _ = _
        rw [length_cons]
        omega

end ExtractRun

end AutoRefirst
