import Mathlib.Algebra.Ring.Nat
import Mathlib.Tactic.Common

/-!
# The runtime timeline

Events of a traced run. What an event observed is in its fields, numbers as text.
-/

namespace AutoRefirst

inductive TimelineKind
  | processStart | processExit
  | moduleLoad | moduleUnload
  | fileCreate | fileOpen | fileWrite | fileRename | fileDelete
  | memoryAllocate | memoryProtect | memoryWrite | materializedExecute
  | preEntryExecute | oepCandidate | dumpCreated
  | consoleStdout | consoleStderr
  deriving DecidableEq

abbrev Fields := List (String×String)

structure TimelineEvent where
  (seq tUs processUid parentUid pid : ℕ := 0)
  kind : TimelineKind := .processStart
  (processImage subject : String := "")
  fields : Fields := []

variable (f : Fields) (key : String)

def field : Option String := f.lookup key

def fieldIs (value : String) : Bool := field f key == some value

def digitValue (c : Char) : Option ℕ :=
  if '0' ≤ c ∧ c ≤ '9' then some (c.toNat-48)
  else if 'a' ≤ c ∧ c ≤ 'f' then some (c.toNat-87)
  else if 'A' ≤ c ∧ c ≤ 'F' then some (c.toNat-55)
  else none

/-- `std::from_chars` where it takes the whole text: digits of the base, and a value of 64
bits. -/
def fromChars (base : ℕ) (s : List Char) : Option ℕ :=
  if s = [] then none
  else
    let v := s.foldl (fun v c => v.bind fun v => (digitValue c).bind fun x =>
      if x < base ∧ v*base+x < 2^64 then some (v*base+x) else none) (some 0)
    v

def parseU64 (s : String) : Option ℕ :=
  if s = "" ∨ s = "UNKNOWN" then none
  else match s.toList with
  | '0' :: x::rest =>
    if (x = 'x' ∨ x = 'X') ∧ rest ≠ [] then fromChars 16 rest else fromChars 10 s.toList
  | l => fromChars 10 l

def fu64 : Option ℕ := (field f key).bind parseU64

def fu32 : Option ℕ :=
  (fu64 f key).bind fun v => if v > 2^32-1 then none else some v

end AutoRefirst
