import AutoRefirst.FileTree

/-!
# A disk with hard links

Every call may fail, at every point of a run. What a call leaves behind at its own path is known
only where a law says so; at every other path it changes nothing.
-/

namespace AutoRefirst

inductive DiskCall
  /-- Open for reading, and read to the end. -/
  | read (p : DiskPath)
  | createDirectories (p : DiskPath)
  /-- Open for writing, and truncate. -/
  | create (p : DiskPath)
  | write (p : DiskPath) (b : Bytes)
  /-- Write out what is held back, and close. -/
  | close (p : DiskPath)
  | permissions (p : DiskPath)
  /-- A second name `q` for the file at `p`. -/
  | link (p q : DiskPath)
  | remove (p : DiskPath)

/-- What a call leaves as it was, whether it fails or not. -/
def DiskCall.Keeps : DiskCall → DiskPath → Prop
  | .read _, _ | .permissions _, _ => True
  | .createDirectories p, q => ¬q <+: p
  | .create p, q | .write p _, q | .close p, q | .remove p, q => q ≠ p
  | .link _ p, q => q ≠ p

structure DiskError where
  /-- `EEXIST` -/
  alreadyThere : Bool := false
  message : String := ""

structure Answer where
  error : Option DiskError := none
  /-- What a reading stream got before the end of the file, or before it failed. -/
  got : Option Bytes := none

/-- What can be seen at a path: `symlink_status`, and `status`, which follows links. -/
structure DiskEntry where
  content : Option Bytes
  (symlinkStatus status : Except String (Option FileKind))

def DiskEntry.missing : DiskEntry := ⟨none,.ok none,.ok none⟩

structure LinkDisk (σ : Type) where
  look : σ → DiskPath → DiskEntry
  /-- What an open output file was given since it was opened. -/
  given : σ → DiskPath → Bytes
  call : σ → DiskCall → Answer×σ
  /-- How many calls have failed so far. -/
  failures : σ → ℕ
  call_failures : ∀ s c,
    failures (call s c).2 = failures s + if (call s c).1.error.isSome then 1 else 0
  call_keeps : ∀ s c q, c.Keeps q → look (call s c).2 q = look s q
  /-- No call makes a symbolic link. -/
  call_links : ∀ s c q, (look (call s c).2 q).symlinkStatus = .ok (some .symlink) →
    (look s q).symlinkStatus = .ok (some .symlink)
  status_plain : ∀ s p k, (look s p).symlinkStatus = .ok k → k ≠ some .symlink →
    (look s p).status = .ok k
  status_unknown : ∀ s p e, (look s p).symlinkStatus = .error e → ∃ e, (look s p).status = .error e
  read_whole : ∀ s p, (call s (.read p)).1.error=none →
    (call s (.read p)).1.got = (look s p).content
  /-- A stream that fails in the middle has got a beginning of the file. -/
  read_got : ∀ s p b, (call s (.read p)).1.got = some b →
    ∃ c, (look s p).content = some c ∧ b <+: c
  createDirectories_content : ∀ s p q,
    (look (call s (.createDirectories p)).2 q).content = (look s q).content
  /-- What cannot be looked at cannot be opened. -/
  create_unknown : ∀ s p e, (look s p).status = .error e → (call s (.create p)).1.error≠none
  create_given : ∀ s p, (call s (.create p)).1.error=none → given (call s (.create p)).2 p = []
  create_regular : ∀ s p, (look s p).symlinkStatus = .ok none →
    (call s (.create p)).1.error = none →
    (look (call s (.create p)).2 p).symlinkStatus = .ok (some .regular)
  write_given : ∀ s p b, (call s (.write p b)).1.error=none →
    given (call s (.write p b)).2 p = given s p ++ b
  write_regular : ∀ s p b, (look s p).symlinkStatus = .ok (some .regular) →
    (look (call s (.write p b)).2 p).symlinkStatus = .ok (some .regular)
  close_content : ∀ s p, (call s (.close p)).1.error=none →
    (look (call s (.close p)).2 p).content = some (given s p)
  close_regular : ∀ s p, (look s p).symlinkStatus = .ok (some .regular) →
    (look (call s (.close p)).2 p).symlinkStatus = .ok (some .regular)
  /-- A name that is taken stays, and a new name shows the same file. -/
  link_done : ∀ s p q, (call s (.link p q)).1.error=none →
    (look s q).content = none ∧ look (call s (.link p q)).2 q = look s p
  link_failed : ∀ s p q, (call s (.link p q)).1.error≠none →
    look (call s (.link p q)).2 q = look s q
  remove_done : ∀ s p, (call s (.remove p)).1.error=none →
    look (call s (.remove p)).2 p = DiskEntry.missing
  remove_failed : ∀ s p, (call s (.remove p)).1.error≠none →
    look (call s (.remove p)).2 p = look s p

namespace LinkDisk

variable {σ : Type} (fs : LinkDisk σ)

def content (s : σ) (p : DiskPath) : Option Bytes := (fs.look s p).content

/-- Removing the file at this path never fails. -/
def Removable (p : DiskPath) : Prop := ∀ s, (fs.call s (.remove p)).1.error=none

variable {p : DiskPath}

theorem status_of_symlinkStatus {s:σ} {k:Option FileKind}
    (h:(fs.look s p).symlinkStatus=.ok k) (hk:k≠some .symlink) :
    (fs.look s p).status=.ok k:=fs.status_plain s p k h hk

theorem symlinkStatus_of_status {s:σ} {k:Option FileKind}
    (hlink:(fs.look s p).symlinkStatus≠.ok (some .symlink)) (h:(fs.look s p).status=.ok k) :
    (fs.look s p).symlinkStatus=.ok k:=by
  cases hs : (fs.look s p).symlinkStatus with
  | error e=>
    obtain ⟨e',he⟩:=fs.status_unknown s p e hs
    rw [he] at h
    simp at h
  | ok k'=>
    have hk' : k'≠some .symlink:=fun hk=>hlink (by rw [hs,hk])
    rw [fs.status_plain s p k' hs hk'] at h
    exact h

theorem removed (hp:fs.Removable p) (s:σ) :
    fs.look (fs.call s (.remove p)).2 p=DiskEntry.missing:=fs.remove_done s p (hp s)

/-- The second state is reached from the first by calls. -/
inductive Runs (s : σ) : σ → Prop
  | refl : Runs s s
  | call {t : σ} (c : DiskCall) : Runs s t → Runs s (fs.call t c).2

namespace Runs

variable {fs} {s t u : σ}

theorem one (c:DiskCall) : fs.Runs s (fs.call s c).2 := .call c .refl

theorem trans (h:fs.Runs s t) (h':fs.Runs t u) : fs.Runs s u:=by
  induction h' with
  | refl=>exact h
  | call c _ ih=>exact .call c ih

theorem failures_le (h:fs.Runs s t) : fs.failures s≤fs.failures t:=by
  induction h with
  | refl=>exact Nat.le_refl _
  | call c _ ih=>
    rw [fs.call_failures]
    exact Nat.le_add_right_of_le ih

theorem links (h:fs.Runs s t) {q:DiskPath}
    (hq:(fs.look t q).symlinkStatus=.ok (some .symlink)) :
    (fs.look s q).symlinkStatus=.ok (some .symlink):=by
  induction h with
  | refl=>exact hq
  | call c _ ih=>exact ih (fs.call_links _ _ _ hq)

end Runs

theorem succeeds {s t:σ} {c:DiskCall} (hrun:fs.Runs (fs.call s c).2 t)
    (hcalm:fs.failures t≤fs.failures s) : (fs.call s c).1.error=none:=by
  have hle:=hrun.failures_le
  rw [fs.call_failures] at hle
  by_contra herror
  rw [if_pos (Option.isSome_iff_ne_none.mpr herror)] at hle
  omega

end LinkDisk

structure LinkMemory where
  files : DiskPath → Option Bytes
  held : DiskPath → Bytes := fun _ => []
  failures : ℕ := 0

namespace LinkMemory

def entry (s : LinkMemory) (p : DiskPath) : DiskEntry :=
  let kind := (s.files p).map fun _ => FileKind.regular
  ⟨s.files p,.ok kind,.ok kind⟩

def fail (s : LinkMemory) (e : DiskError) : Answer×LinkMemory :=
  ({error:=some e},{s with failures:=s.failures+1})

def call (s : LinkMemory) : DiskCall → Answer×LinkMemory
  | .read p =>
    match s.files p with
    | none => fail s {message := "no such file"}
    | some b => ({got:=some b},s)
  | .createDirectories _ | .permissions _ => ({},s)
  | .create p =>
    ({},{ s with
      files:=Function.update s.files p (some []),held:=Function.update s.held p [] })
  | .write p b => ({},{s with held:=Function.update s.held p (s.held p ++ b)})
  | .close p => ({},{s with files:=Function.update s.files p (some (s.held p))})
  | .link p q =>
    if (s.files q).isSome then fail s {alreadyThere:=true}
    else ({},{s with files:=Function.update s.files q (s.files p)})
  | .remove p => ({},{s with files:=Function.update s.files p none})

theorem entry_symlinkStatus (s:LinkMemory) (p:DiskPath) :
    (entry s p).symlinkStatus≠.ok (some .symlink):=by
  intro h
  cases hp : s.files p <;> simp [entry,hp] at h

theorem call_failures (s:LinkMemory) (c:DiskCall) :
    (call s c).2.failures = s.failures+if (call s c).1.error.isSome then 1 else 0:=by
  cases c with
  | read p=>cases h : s.files p <;> simp [call,h,fail]
  | link p q=>cases h : s.files q <;> simp [call,h,fail]
  | createDirectories p=>rfl
  | permissions p=>rfl
  | create p=>rfl
  | write p b=>rfl
  | close p=>rfl
  | remove p=>rfl

theorem call_files (s:LinkMemory) (c:DiskCall) (q:DiskPath) (h:c.Keeps q) :
    (call s c).2.files q=s.files q:=by
  cases c with
  | read p=>cases hp : s.files p <;> simp [call,hp,fail]
  | createDirectories p=>rfl
  | permissions p=>rfl
  | create p=>exact Function.update_of_ne h _ _
  | write p b=>rfl
  | close p=>exact Function.update_of_ne h _ _
  | remove p=>exact Function.update_of_ne h _ _
  | link p r=>
    cases hr : s.files r <;> simp [call,hr,fail,Function.update_of_ne (show q ≠ r from h)]

theorem entry_congr {s t:LinkMemory} {p:DiskPath} (h:t.files p=s.files p) :
    entry t p=entry s p:=by
  simp only [entry,h]

def disk : LinkDisk LinkMemory where
  look := entry
  given := fun s p => s.held p
  call := call
  failures := fun s => s.failures
  call_failures := call_failures
  call_keeps := fun s c q h => entry_congr (call_files s c q h)
  call_links := fun s c q h => absurd h (entry_symlinkStatus _ q)
  status_plain := fun _ _ _ h _ => h
  status_unknown := fun _ _ _ h => ⟨_,h⟩
  read_whole := by
    intro s p h
    cases hp : s.files p with
    | none => simp [call,hp,fail] at h
    | some b => simp [call,hp,entry]
  read_got := by
    intro s p b h
    cases hp : s.files p with
    | none => simp [call,hp,fail] at h
    | some c =>
      have hcb : c = b := by simpa [call,hp] using h
      exact ⟨c,hp,hcb ▸ List.prefix_refl c⟩
  createDirectories_content := fun _ _ _ => rfl
  create_unknown := fun _ _ _ h => absurd h (by simp [entry])
  create_given := fun s p _ => Function.update_self p _ s.held
  create_regular := fun s p _ _ => by simp [call,entry]
  write_given := fun s p _ _ => Function.update_self p _ s.held
  write_regular := fun _ _ _ h => h
  close_content := fun s p _ => Function.update_self p _ s.files
  close_regular := fun s p _ => by simp [call,entry]
  link_done := by
    intro s p q h
    cases hq : s.files q with
    | none =>
      refine ⟨hq,?_⟩
      simp [call,hq,entry]
    | some b => simp [call,hq,fail] at h
  link_failed := by
    intro s p q h
    cases hq : s.files q with
    | none => simp [call,hq] at h
    | some b => simp [call,hq,fail,entry]
  remove_done := fun s p _ => by simp [call,entry,DiskEntry.missing]
  remove_failed := fun _ _ h => absurd rfl h

end LinkMemory

end AutoRefirst
