import AutoRefirst.OutputDisk

/-!
# A file tree, with buffered output

Every operation may fail. An open output file holds back what it was given until it is closed, and
closing it may fail too.
-/

namespace AutoRefirst

inductive FileKind
  | regular | directory | symlink | other
  deriving DecidableEq

structure FileTree (σ : Type) where
  /-- `symlink_status`: nothing there, a kind, or an error other than "not found". -/
  status : σ → DiskPath → Except String (Option FileKind)
  content : σ → DiskPath → Option Bytes
  /-- What an open output file was given since it was opened. -/
  given : σ → DiskPath → Bytes
  (createDirectories createDirectory : σ → DiskPath → Option String×σ)
  /-- Open for writing and truncate. -/
  create : σ → DiskPath → Bool×σ
  write : σ → DiskPath → Bytes → Bool×σ
  /-- Write out what is held back, and close. -/
  close : σ → DiskPath → Bool×σ
  /-- `remove` with the message of the error code after it. -/
  remove : σ → DiskPath → String×σ
  /-- `rename` with the message of its error. -/
  rename : σ → DiskPath → DiskPath → Option String×σ
  missing : ∀ s p, status s p = .ok none → content s p = none
  createDirectories_content : ∀ s p q, content (createDirectories s p).2 q = content s q
  createDirectories_status : ∀ s p, status s p = .ok none → (createDirectories s p).1=none →
    status (createDirectories s p).2 p = .ok (some .directory)
  createDirectory_content : ∀ s p q, content (createDirectory s p).2 q = content s q
  createDirectory_status : ∀ s p, status s p = .ok none → (createDirectory s p).1=none →
    status (createDirectory s p).2 p = .ok (some .directory)
  createDirectory_other : ∀ s p q, q≠p → status (createDirectory s p).2 q = status s q
  /-- What cannot be looked at cannot be opened. -/
  create_unknown : ∀ s p e, status s p = .error e → (create s p).1=false
  create_fails : ∀ s p q, (create s p).1=false → content (create s p).2 q = content s q
  create_given : ∀ s p, (create s p).1=true → given (create s p).2 p = []
  create_other : ∀ s p q, q≠p → content (create s p).2 q = content s q ∧
    status (create s p).2 q = status s q
  write_given : ∀ s p b, (write s p b).1=true → given (write s p b).2 p = given s p ++ b
  write_other : ∀ s p b q, q≠p → content (write s p b).2 q = content s q ∧
    status (write s p b).2 q = status s q
  close_content : ∀ s p, (close s p).1=true → content (close s p).2 p = some (given s p)
  close_other : ∀ s p q, q≠p → content (close s p).2 q = content s q ∧
    status (close s p).2 q = status s q
  remove_other : ∀ s p q, q≠p → content (remove s p).2 q = content s q
  /-- Nor can anything be moved there. -/
  rename_unknown : ∀ s p q e, status s q = .error e → (rename s p q).1≠none
  rename_fails : ∀ s p q r, (rename s p q).1≠none → content (rename s p q).2 r = content s r
  rename_moves : ∀ s p q, p≠q → (rename s p q).1=none →
    content (rename s p q).2 q = content s p ∧ content (rename s p q).2 p = none
  rename_other : ∀ s p q r, r≠p → r≠q → content (rename s p q).2 r = content s r

namespace FileTree

variable {σ : Type} (fs : FileTree σ)

/-- Closing the file now leaves as many bytes on the disk as it was given. -/
def FlushKeeps (s : σ) (p : DiskPath) : Prop :=
  (fs.content (fs.close s p).2 p).map List.length = some (fs.given s p).length

/-- Removing the file now leaves nothing of it. -/
def Removes (s : σ) (p : DiskPath) : Prop := fs.content (fs.remove s p).2 p = none

def SameBut (p : DiskPath) (s s' : σ) : Prop := ∀ q, q≠p → fs.content s' q = fs.content s q

end FileTree

structure MemoryTree where
  files : DiskPath → Option Bytes
  held : DiskPath → Bytes
  directories : DiskPath → Bool

namespace MemoryTree

variable (s : MemoryTree) (p : DiskPath)

def status : Except String (Option FileKind) :=
  .ok (if s.directories p then some .directory else (s.files p).map fun _ => .regular)

def content : Option Bytes :=
  if s.directories p then none else s.files p

def makeDirectory : Option String×MemoryTree :=
  if (s.files p).isSome then (some "file exists",s)
  else (none,{s with directories:=Function.update s.directories p true})

theorem makeDirectory_content (q:DiskPath) : content (makeDirectory s p).2 q=content s q:=by
  unfold makeDirectory
  split
  · rfl
  · rename_i h
    by_cases hq : q=p
    · subst hq
      have hfile : s.files q=none:=by simpa using h
      simp [content,hfile]
    · simp [content,Function.update_of_ne hq]

theorem makeDirectory_status {s:MemoryTree} {p:DiskPath} (h:(makeDirectory s p).1=none) :
    status (makeDirectory s p).2 p=.ok (some .directory):=by
  unfold makeDirectory at h ⊢
  split
  · rename_i hfile
    rw [if_pos hfile] at h
    simp at h
  · simp [status]

theorem makeDirectory_other (q:DiskPath) (h:q≠p) :
    status (makeDirectory s p).2 q=status s q:=by
  unfold makeDirectory
  split
  · rfl
  · simp [status,Function.update_of_ne h]

/-- With no room left, closing loses what is held back. -/
def tree (room : Bool) : FileTree MemoryTree where
  status := status
  content := content
  given := fun s p => s.held p
  createDirectories := makeDirectory
  createDirectory := makeDirectory
  create := fun s p =>
    if s.directories p then (false,s)
    else
      (true,{ s with
        files:=Function.update s.files p (some []),held:=Function.update s.held p [] })
  write := fun s p b => (true,{s with held:=Function.update s.held p (s.held p ++ b)})
  close := fun s p =>
    if room && !s.directories p then
      (true,{s with files:=Function.update s.files p (some (s.held p))})
    else (false,s)
  remove := fun s p => ("Success",{s with files:=Function.update s.files p none})
  rename := fun s p q =>
    if s.directories p || s.directories q then (some "is a directory",s)
    else
      (none,{ s with
        files:=Function.update (Function.update s.files q (s.files p)) p none })
  missing := by
    intro s p h
    unfold content
    split
    · rfl
    · rename_i hdir
      cases hf : s.files p with
      | none => rfl
      | some b => simp [status,hdir,hf] at h
  createDirectories_content := makeDirectory_content
  createDirectories_status := fun _ _ _ h => makeDirectory_status h
  createDirectory_content := makeDirectory_content
  createDirectory_status := fun _ _ _ h => makeDirectory_status h
  createDirectory_other := makeDirectory_other
  create_unknown := by
    intro s p e h
    exact absurd h (by simp [status])
  create_fails := by
    intro s p q h
    by_cases hdir : s.directories p = true
    · simp only [hdir,if_true]
    · exact absurd h (by simp [hdir])
  create_given := by
    intro s p h
    by_cases hdir : s.directories p = true
    · exact absurd h (by simp [hdir])
    · simp [hdir]
  create_other := by
    intro s p q h
    split
    · exact ⟨rfl,rfl⟩
    · simp [content,status,Function.update_of_ne h]
  write_given := fun s p b _ => Function.update_self p _ s.held
  write_other := fun _ _ _ _ _ => ⟨rfl,rfl⟩
  close_content := by
    intro s p h
    by_cases hroom : (room && !s.directories p) = true
    · have hdir : s.directories p = false := by simpa using (Bool.and_eq_true_iff.mp hroom).2
      simp only [hroom,if_true]
      simp [content,hdir]
    · exact absurd h (by simp [hroom])
  close_other := by
    intro s p q h
    split
    · simp [content,status,Function.update_of_ne h]
    · exact ⟨rfl,rfl⟩
  remove_other := by
    intro s p q h
    simp [content,Function.update_of_ne h]
  rename_unknown := by
    intro s p q e h
    exact absurd h (by simp [status])
  rename_fails := by
    intro s p q r h
    by_cases hdirs : (s.directories p || s.directories q) = true
    · simp only [hdirs,if_true]
    · exact absurd (by simp [hdirs]) h
  rename_moves := by
    intro s p q h hmove
    split at hmove
    · simp at hmove
    · rename_i hdirs
      simp only [Bool.or_eq_true,not_or,Bool.not_eq_true] at hdirs
      simp [content,hdirs,Function.update_of_ne (Ne.symm h)]
  rename_other := by
    intro s p q r hp hq
    split
    · rfl
    · simp [content,Function.update_of_ne hp,Function.update_of_ne hq]

end MemoryTree

end AutoRefirst
