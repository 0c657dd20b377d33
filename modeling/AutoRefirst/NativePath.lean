import Mathlib.Data.String.Basic

/-!
# Native paths

The lexical half of `std::filesystem::path` with POSIX rules: a path is its native
spelling, `/` is the only separator, and there is no root name. Operations that ask
the file system (`weakly_canonical`, `relative`, permissions) are not defined here.
-/

namespace AutoRefirst

structure NativePath where
  native : String
  deriving DecidableEq, Repr, Inhabited

namespace NativePath

variable (p : NativePath)

def empty : Bool := p.native.toList.isEmpty

def isAbsolute : Bool := p.native.toList.head? == some '/'

/-- The segments between separators; a trailing separator leaves a last empty segment. -/
def segments : List (List Char) := p.native.toList.splitOn '/'

def filename : String := String.ofList (p.segments.getLastD [])

private def dropSeparators (s : List Char) : List Char :=
  (s.reverse.dropWhile (· == '/')).reverse

def parentPath : NativePath :=
  let s := p.native.toList
  if s.all (· == '/') then p
  else
    let dir := (s.reverse.dropWhile (· != '/')).reverse
    let cut := dropSeparators dir
    if cut.isEmpty && !dir.isEmpty then ⟨"/"⟩ else ⟨String.ofList cut⟩

def extensionDot (name : List Char) : Option ℕ :=
  if name == ['.'] || name == ['.','.'] then none
  else
    match name.reverse.findIdx? (· == '.') with
    | none => none
    | some k => if k+1 == name.length then none else some (name.length-1-k)

def stem : String :=
  let name := p.segments.getLastD []
  match extensionDot name with
  | none => String.ofList name
  | some k => String.ofList (name.take k)

def extension : String :=
  let name := p.segments.getLastD []
  match extensionDot name with
  | none => ""
  | some k => String.ofList (name.drop k)

/-- `operator/`. -/
def append (q : NativePath) : NativePath :=
  if q.isAbsolute then q
  else if p.filename.toList.isEmpty then ⟨p.native++q.native⟩
  else ⟨p.native++"/"++q.native⟩

private def normalStep (rooted : Bool) (stack : List (List Char)) (seg : List Char) :
    List (List Char) :=
  if seg == [] || seg == ['.'] then stack
  else if seg == ['.','.'] then
    match stack with
    | [] => if rooted then [] else [seg]
    | top::rest => if top == ['.','.'] then seg::stack else rest
  else seg::stack

/-- `path::lexically_normal`. The trailing separator survives when the last segment was
empty, a dot, or a dot-dot that removed a name. -/
def lexicallyNormal : NativePath :=
  if p.empty then p
  else
    let stack := p.segments.foldl (normalStep p.isAbsolute) []
    let last := p.segments.getLastD []
    let trailing := last == [] || last == ['.'] || last == ['.','.']
    match stack with
    | [] => if p.isAbsolute then ⟨"/"⟩ else ⟨"."⟩
    | top::_ =>
      let body := List.intercalate ['/'] stack.reverse
      let root := if p.isAbsolute then ['/'] else []
      let tail := if trailing && top != ['.','.'] then ['/'] else []
      ⟨String.ofList (root++body++tail)⟩

example : (⟨"a/.///b/../"⟩ : NativePath).lexicallyNormal = ⟨"a/"⟩:=by decide

end NativePath

def pathUtf8 (p : NativePath) : String := p.native

end AutoRefirst
