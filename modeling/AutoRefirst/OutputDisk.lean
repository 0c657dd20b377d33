import AutoRefirst.ByteText

/-!
# A disk that files are extracted to

A file is named by the components of its path. Every operation may fail, and what it leaves
behind then is not known at its own path; at every other path it changes nothing.
-/

namespace AutoRefirst

abbrev DiskPath := List Bytes

structure OutputDisk (σ : Type) where
  content : σ → DiskPath → Option Bytes
  /-- `create_directories`, with the message of its error. -/
  createDirectories : σ → DiskPath → Option String×σ
  /-- Open for writing, truncate and write; true when the stream is good after it. -/
  writeFile : σ → DiskPath → Bytes → Bool×σ
  /-- The size of a regular file beside the archive. -/
  regularSize : σ → Bytes → Option ℕ
  copyFile : σ → Bytes → DiskPath → Bool×σ
  createDirectories_content : ∀ s p q, content (createDirectories s p).2 q = content s q
  writeFile_content : ∀ s p b, (writeFile s p b).1=true →
    content (writeFile s p b).2 p = some b
  writeFile_other : ∀ s p b q, q≠p → content (writeFile s p b).2 q = content s q
  copyFile_other : ∀ s src p q, q≠p → content (copyFile s src p).2 q = content s q

/-- The path goes down from `out`, through names only. -/
def StrictlyInside (out p : DiskPath) : Prop :=
  ∃ rel : DiskPath, rel≠[] ∧ p=out++rel ∧
    ∀ c∈rel, c≠[] ∧ c≠bytes "." ∧ c≠bytes ".."

namespace OutputDisk

/-- A disk on which everything succeeds, with the files that lie beside the archive. -/
def memory (beside : Bytes→Option Bytes) : OutputDisk (DiskPath → Option Bytes) where
  content := fun s p => s p
  createDirectories := fun s _ => (none,s)
  writeFile := fun s p b => (true,Function.update s p (some b))
  regularSize := fun _ src => (beside src).map List.length
  copyFile := fun s src p =>
    match beside src with
    | some b => (true,Function.update s p (some b))
    | none => (false,s)
  createDirectories_content := fun _ _ _ => rfl
  writeFile_content := fun _ _ _ _ => Function.update_self _ _ _
  writeFile_other := fun _ _ _ _ h => Function.update_of_ne h _ _
  copyFile_other := by
    intro s src p q h
    cases beside src with
    | none => rfl
    | some b => exact Function.update_of_ne h _ _

end OutputDisk

end AutoRefirst
