import AutoRefirst.ByteRanges
import Mathlib.Data.ENat.Basic

/-!
# The depth of recursive readers

The marshal reader of PYZ tables, the reader of JVM descriptors and that of JVM annotations nest as
their input does. Each is given a number of levels, and stops where its recursion needs one more.
Only for annotations there is a number of levels that is enough for every input; for the two others
there is one as soon as the length of the input is bounded.
-/

namespace AutoRefirst.ReaderDepth
open List ByteRanges

/-- Why a reader has no value: its recursion is deeper than allowed, or the input is refused. -/
inductive Stop (ε : Type) where
  | tooDeep | refused (e : ε)

abbrev Parse (σ ε α : Type) := StateT σ (Except (Stop ε)) α

section runs
variable {σ ε α β : Type} {P Q R : σ→Prop} {f g : Parse σ ε α}

def tooDeep : Parse σ ε α := fun _ => .error .tooDeep

/-- From a state of `P`, `f` is never too deep and does what `g` does, and leaves one of `R`. -/
def Runs (P : σ→Prop) (f g : Parse σ ε α) (R : σ→Prop) : Prop :=
  ∀ r, P r → f r = g r ∧ f r≠.error .tooDeep ∧ ∀ a r', f r = .ok (a,r') → R r'

theorem Runs.bind {k h:α→Parse σ ε β} (hf:Runs P f g Q)
    (hk:∀a,Runs Q (k a) (h a) R) : Runs P (f >>= k) (g >>= h) R:=by
  intro r hr
  obtain ⟨heq,hdeep,hmid⟩:=hf r hr
  have hl : (f >>= k) r=(f r >>= fun x=>k x.1 x.2):=rfl
  have hg : (g >>= h) r=(g r >>= fun x=>h x.1 x.2):=rfl
  rw [hl,hg,← heq]
  cases hx : f r with
  | error e=>exact ⟨rfl,fun he=>hdeep (hx.trans (by cases he;rfl)),fun a r' ha=>nomatch ha⟩
  | ok x=>exact hk x.1 x.2 (hmid x.1 x.2 hx)

theorem Runs.pure (a:α) : Runs P (Pure.pure a) (Pure.pure a : Parse σ ε α) P:=
  fun _ hr=>⟨rfl,nofun,fun _ _ h=>by cases h;exact hr⟩

theorem Runs.refused (e:σ→ε) :
    Runs P (fun r => .error (.refused (e r))) (fun r => .error (.refused (e r)) : Parse σ ε α) R:=
  fun _ _=>⟨rfl,nofun,nofun⟩

theorem Runs.weaken {P₁ R₁:σ→Prop} (h:Runs P f g R) (hpre:∀r,P₁ r → P r)
    (hpost:∀r,R r → R₁ r) : Runs P₁ f g R₁:=
  fun r hr=>⟨(h r (hpre r hr)).1,(h r (hpre r hr)).2.1,
    fun a r' ha=>hpost r' ((h r (hpre r hr)).2.2 a r' ha)⟩

theorem Runs.same (h:∀r,f r≠.error .tooDeep) : Runs P f f fun _=>True:=
  fun r _=>⟨rfl,h r,fun _ _ _=>trivial⟩

theorem bind_ok {k:α→Parse σ ε β} {a:α} {r r':σ} (h:f r = .ok (a,r')) :
    (f >>= k) r = k a r':=by
  change (f r >>= fun x=>k x.1 x.2) = _
  rw [h]
  rfl

theorem bind_tooDeep {k:α→Parse σ ε β} {r:σ} (h:f r = .error .tooDeep) :
    (f >>= k) r = .error .tooDeep:=by
  change (f r >>= fun x=>k x.1 x.2) = _
  rw [h]
  rfl

end runs

/-- The levels left are more than the bytes left. -/
def Ahead (d : Bytes) (levels p : ℕ) : Prop := d.length<p+levels ∧ 0<levels

inductive MKind where
  | null | none | bool | int | str | seq | dict

/-- A value; those in it are given by their numbers, as it can be in itself. -/
structure MVal where
  k : MKind := .none
  i : ℤ := 0
  s : Bytes := []
  seq : List ℕ := []
  dict : List (ℕ×ℕ) := []

structure MarshalReader where
  p : ℕ
  refs : List ℕ := []
  vals : List MVal := []

abbrev Marshal := Parse MarshalReader Unit

namespace Marshal
variable {α : Type} (d : Bytes)

def fail : Marshal α := fun _ => .error (.refused ())

def bytes (n : ℕ) : Marshal Bytes := fun r =>
  if d.length < r.p+n then .error (.refused ()) else .ok (slice d (r.p,n),{r with p:=r.p+n})

def u8 : Marshal ℕ := do return ((← bytes d 1).headD 0).toNat

/-- A little-endian number of two's complement. -/
def signed (b : Bytes) : ℤ :=
  let v : ℕ := b.foldr (fun c v => v*256+c.toNat) 0
  if v < 2^(8*b.length-1) then v else (v : ℤ)-2^(8*b.length)

def i32 : Marshal ℤ := do return signed (← bytes d 4)

def update (id : ℕ) (f : MVal→MVal) : Marshal ℕ :=
  fun r => .ok (id,{r with vals:=r.vals.modify id f})

/-- A new value, which can be referred to from now on when the tag says so. -/
def new (addref : Bool) : Marshal ℕ := fun r => .ok (r.vals.length,
  {r with vals:=r.vals++[{}],refs:=if addref then r.refs++[r.vals.length] else r.refs})

/-- The elements of a container, which are in it as they are read. -/
def items (obj : Marshal ℕ) (id : ℕ) : ℕ → Marshal ℕ
  | 0 => return id
  | n+1 => do
    let x ← obj
    let id ← update id fun v => {v with seq:=v.seq++[x]}
    items obj id n

def isNull (id : ℕ) : Marshal Bool := fun r => .ok (match (r.vals.getD id {}).k with
  | .null => true
  | _ => false,r)

/-- The pairs of a dict, with the number of those it can still take. -/
def pairs (obj : Marshal ℕ) (id : ℕ) : ℕ → Marshal ℕ
  | 0 => fail
  | n+1 => do
    let k ← obj
    if ← isNull k then return id
    else
      let x ← obj
      let id ← update id fun v => {v with dict:=v.dict++[(k,x)]}
      pairs obj id n

/-- A long integer, of which four digits are read. -/
def long : Marshal ℤ := do
  let n ← i32 d
  if n.natAbs > 1024 then fail
  else
    let digits ← bytes d (2*n.natAbs)
    let digit j := (digits.getD (2*j) 0).toNat+256*(digits.getD (2*j+1) 0).toNat
    let x := (range (min n.natAbs 4)).foldl (fun x j => x ||| digit j <<< (15*j)) 0
    return if n < 0 then -(x : ℤ) else x

def sequence (obj : Marshal ℕ) (id : ℕ) (n : ℤ) : Marshal ℕ :=
  if n < 0 ∨ n > 2^22 then fail
  else do
    let id ← update id fun v => {v with k:=.seq}
    items obj id n.toNat

def text (id : ℕ) (n : ℤ) : Marshal ℕ :=
  if n < 0 ∨ n > 2^26 then fail
  else do
    let x ← bytes d n.toNat
    update id fun v => {v with k:=.str,s:=x}

def reference (n : ℤ) : Marshal ℕ :=
  fun r => match r.refs[n.toNat]? with
    | some id => if n < 0 then .error (.refused ()) else .ok (id,r)
    | none => .error (.refused ())

def int (id : ℕ) (x : ℤ) : Marshal ℕ := update id fun v => {v with k:=.int,i:=x}

/-- The value behind a tag; `obj` reads those in it. -/
def content (obj : Marshal ℕ) (id : ℕ) : Char → Marshal ℕ
  | '0' => update id fun v => {v with k:=.null}
  | 'N' => return id
  | 'F' => update id fun v => {v with k:=.bool}
  | 'T' => update id fun v => {v with k:=.bool,i:=1}
  | 'i' => do int id (← i32 d)
  | 'I' => do int id (signed (← bytes d 8))
  | 'l' => do int id (← long d)
  | 'z' | 'Z' => do text d id (← u8 d)
  | 's' | 't' | 'u' | 'a' | 'A' => do text d id (← i32 d)
  | '(' | '[' | '<' | '>' => do sequence obj id (← i32 d)
  | ')' => do sequence obj id (← u8 d)
  | '{' => do pairs obj (← update id fun v => {v with k:=.dict}) (2^22+1)
  | 'r' => do reference (← i32 d)
  | _ => fail

/-- `obj`, within a number of levels. -/
def obj : ℕ → Marshal ℕ
  | 0 => tooDeep
  | levels+1 => do
    let code ← u8 d
    let id ← new (code ≥ 128)
    content d (obj levels) id (Char.ofNat (code%128))

/-- A reader that comes to the same in more levels, when it is given `l` of them. -/
abbrev Reads (l : ℕ) (x y : Marshal α) : Prop := Runs (Ahead d l ·.p) x y (Ahead d l ·.p)

variable {d} {l : ℕ} {x y : Marshal ℕ}

/-- Bytes that are read leave as many levels less to be enough. -/
theorem runs_bytes {n k:ℕ} (hk:k≤n) :
    Runs (Ahead d (l+k) ·.p) (bytes d n) (bytes d n) (Ahead d l ·.p):=by
  intro r hr
  unfold bytes
  split
  · exact ⟨rfl,nofun,nofun⟩
  · refine ⟨rfl,nofun,fun a r' h=>?_⟩
    cases h
    have hlen:=hr.1
    exact ⟨by simp only;omega,by omega⟩

theorem runs_u8 {k:ℕ} (hk:k≤1) : Runs (Ahead d (l+k) ·.p) (u8 d) (u8 d) (Ahead d l ·.p):=
  (runs_bytes hk).bind fun _ => .pure _

theorem runs_i32 : Reads d l (i32 d) (i32 d):=(runs_bytes (Nat.zero_le 4)).bind fun _ => .pure _

theorem runs_update (id:ℕ) (f:MVal→MVal) :
    Reads d l (update id f) (update id f):=
  fun _ hr=>⟨rfl,nofun,fun _ _ h=>by cases h;exact hr⟩

theorem runs_items (h:Reads d l x y) (id n:ℕ) :
    Reads d l (items x id n) (items y id n):=by
  induction n generalizing id with
  | zero=>exact .pure _
  | succ n ih=>exact h.bind fun a=>(runs_update _ _).bind fun id=>ih id

theorem runs_pairs (h:Reads d l x y) (id n:ℕ) :
    Reads d l (pairs x id n) (pairs y id n):=by
  induction n generalizing id with
  | zero=>exact .refused _
  | succ n ih=>
    refine h.bind fun k=>Runs.bind (Q:=(Ahead d l ·.p)) ?_ fun null=>?_
    · exact fun _ hr=>⟨rfl,nofun,fun _ _ h=>by cases h;exact hr⟩
    · split
      · exact .pure _
      · exact h.bind fun a=>(runs_update _ _).bind fun id=>ih id

theorem runs_long : Reads d l (long d) (long d):=by
  refine runs_i32.bind fun n=>?_
  split
  · exact .refused _
  · exact (runs_bytes (Nat.zero_le _)).bind fun _ => .pure _

theorem runs_sequence (h:Reads d l x y) (id:ℕ) (n:ℤ) :
    Reads d l (sequence x id n) (sequence y id n):=by
  unfold sequence
  split
  · exact .refused _
  · exact (runs_update _ _).bind fun id=>runs_items h id _

theorem runs_text (id:ℕ) (n:ℤ) :
    Reads d l (text d id n) (text d id n):=by
  unfold text
  split
  · exact .refused _
  · exact (runs_bytes (Nat.zero_le _)).bind fun _=>runs_update _ _

theorem runs_reference (n:ℤ) :
    Reads d l (reference n) (reference n):=by
  intro r hr
  unfold reference
  split
  · split
    · exact ⟨rfl,nofun,nofun⟩
    · exact ⟨rfl,nofun,fun _ _ h=>by cases h;exact hr⟩
  · exact ⟨rfl,nofun,nofun⟩

/-- One case for each tag: what is in a value is read within the levels that `x` has. -/
theorem runs_content (h:Reads d l x y) (id:ℕ) (c:Char) :
    Reads d l (content d x id c) (content d y id c):=by
  unfold content
  split
  all_goals first
    | exact runs_update _ _
    | exact .pure _
    | exact .refused _
    | exact runs_i32.bind fun _=>runs_update _ _
    | exact (runs_bytes (Nat.zero_le 8)).bind fun _=>runs_update _ _
    | exact runs_long.bind fun _=>runs_update _ _
    | exact (runs_u8 (Nat.zero_le 1)).bind fun _=>runs_text _ _
    | exact runs_i32.bind fun _=>runs_text _ _
    | exact runs_i32.bind fun _=>runs_sequence h _ _
    | exact (runs_u8 (Nat.zero_le 1)).bind fun _=>runs_sequence h _ _
    | exact (runs_update _ _).bind fun _=>runs_pairs h _ _
    | exact runs_i32.bind fun _=>runs_reference _

theorem runs_obj {l':ℕ} (hl:l≤l') :
    Reads d l (obj d l) (obj d l'):=by
  induction l generalizing l' with
  | zero=>exact fun r hr=>absurd hr.2 (Nat.lt_irrefl 0)
  | succ l ih=>
    obtain ⟨l',rfl⟩ : ∃k,l'=k+1:=⟨l'-1,by omega⟩
    refine (runs_u8 le_rfl).bind fun code=>Runs.bind (Q:=(Ahead d l ·.p)) ?_ fun id=>?_
    · exact fun _ hr=>⟨rfl,nofun,fun _ _ h=>by cases h;exact hr⟩
    · refine (runs_content (ih (by omega)) id _).weaken (fun _ h=>h) fun r h=>⟨?_,by omega⟩
      exact Nat.lt_succ_of_lt h.1

/-- A dict that opens as the first key of a dict, and so on. -/
theorem obj_nested {n:ℕ} {r:MarshalReader} (h:r.p+l≤n) :
    obj (replicate n 0x7b) l r = .error .tooDeep:=by
  induction l generalizing r with
  | zero=>rfl
  | succ l ih=>
    have hbyte : bytes (replicate n 0x7b) 1 r = .ok ([0x7b],{r with p:=r.p+1}):=by
      have hin : ¬(replicate n (0x7b : UInt8)).length < r.p+1:=by simp;omega
      have hleft : n-r.p=(n-r.p-1)+1:=by omega
      simp only [bytes,if_neg hin,slice,drop_replicate]
      rw [hleft,replicate_succ]
      rfl
    have hu8 : u8 (replicate n 0x7b) r = .ok (0x7b,{r with p:=r.p+1}):=bind_ok hbyte
    rw [obj,bind_ok hu8,bind_ok rfl]
    change (update _ _ >>= fun id=>pairs _ id _) _=_
    rw [bind_ok rfl,pairs]
    exact bind_tooDeep (ih (by simp only;omega))

end Marshal

def dotted (s : Bytes) : Bytes := s.map fun c => if c = byte '/' then byte '.' else c

abbrev Descriptor := Parse ℕ Unit

def next (s : Bytes) : Descriptor Char := fun p => match s[p]? with
  | some c => .ok (Char.ofNat c.toNat,p+1)
  | none => .error (.refused ())

/-- `type_one`, within a number of levels; the state is the position. -/
def type_one (s : Bytes) : ℕ → Bool → Descriptor Bytes
  | 0, _ => tooDeep
  | levels+1, allow_void => do
    match ← next s with
    | 'B' => return bytes "byte"
    | 'C' => return bytes "char"
    | 'D' => return bytes "double"
    | 'F' => return bytes "float"
    | 'I' => return bytes "int"
    | 'J' => return bytes "long"
    | 'S' => return bytes "short"
    | 'Z' => return bytes "boolean"
    | 'V' => fun p => if allow_void then .ok (bytes "void",p) else .error (.refused ())
    | 'L' => fun p =>
      let name := (s.drop p).takeWhile (· ≠ byte ';')
      if s.length ≤ p+name.length ∨ name = [] then .error (.refused ())
      else .ok (dotted name,p+name.length+1)
    | '[' => do return (← type_one s levels false)++bytes "[]"
    | _ => fun _ => .error (.refused ())

theorem runs_type_one {s:Bytes} {l l':ℕ} (hl:l≤l') (allow_void:Bool) :
    Runs (Ahead s l) (type_one s l allow_void) (type_one s l' allow_void) fun _=>True:=by
  induction l generalizing l' allow_void with
  | zero=>exact fun r hr=>absurd hr.2 (Nat.lt_irrefl 0)
  | succ l ih=>
    obtain ⟨l',rfl⟩ : ∃k,l'=k+1:=⟨l'-1,by omega⟩
    refine Runs.bind (Q:=Ahead s l) ?_ fun c=>?_
    · intro p hp
      unfold next
      split
      next hin=>
        refine ⟨rfl,nofun,fun _ _ h=>?_⟩
        cases h
        have hlt:=(List.getElem?_eq_some_iff.mp hin).1
        have hlen:=hp.1
        exact ⟨by omega,by omega⟩
      · exact ⟨rfl,nofun,nofun⟩
    · split
      case h_11=>exact (ih (by omega) false).bind fun _ => .pure _
      case h_9=>exact .same fun p=>by split <;> exact nofun
      case h_10=>exact .same fun p=>by dsimp only;split <;> exact nofun
      case h_12=>exact .refused _
      all_goals exact (Runs.pure _).weaken (fun _ h=>h) fun _ _=>trivial

theorem type_one_nested {n l p:ℕ} (allow_void:Bool) (h:p+l≤n) :
    type_one (replicate n 0x5b) l allow_void p = .error .tooDeep:=by
  induction l generalizing p allow_void with
  | zero=>rfl
  | succ l ih=>
    have hnext : next (replicate n 0x5b) p = .ok ('[',p+1):=by
      have hin : p<n:=by omega
      simp [next,hin]
    rw [type_one,bind_ok hnext]
    exact bind_tooDeep (ih false (by omega))

/-- An entry of the constant pool. -/
structure Cp where
  tag : ℕ := 0
  a : ℕ := 0
  wide : ℕ := 0
  utf : Bytes := []

/-- A reader of a part of a class file: a position, and the first error with the one it is at. -/
abbrev Jvm := Parse ℕ (String×ℕ)

namespace Jvm
variable {α : Type} (cp : List Cp) (d : Bytes) (stop : ℕ)

def fail (s : String) : Jvm α := fun p => .error (.refused (s,p))

def checked (b : Bool) (s : String) (a : α) : Jvm α := if b then return a else fail s

/-- `u1` and `u2`: a big-endian number of `n` bytes. -/
def number (n : ℕ) : Jvm ℕ := fun p =>
  if p+n ≤ min stop d.length then .ok ((slice d (p,n)).foldl (fun v c => v*256+c.toNat) 0,p+n)
  else .error (.refused ("JVM class structure truncated",p))

def u1 : Jvm ℕ := number d stop 1

def u2 : Jvm ℕ := number d stop 2

def cp_index (i tag : ℕ) : Bool := match cp[i]? with
  | some c => 0 < i && c.tag ≠ 0 && (tag = 0 || c.tag = tag)
  | none => false

def utf (i : ℕ) : Bytes := if cp_index cp i 1 then (cp.getD i {}).utf else []

def const_text (i : ℕ) : Bytes :=
  let c := cp.getD i {}
  if !cp_index cp i 0 then []
  else match c.tag with
    | 8 => utf cp (c.a%2^16)
    | 1 => c.utf
    | 3 => bytes (toString (BitVec.ofNat 32 c.a).toInt)
    | 5 => bytes (toString (BitVec.ofNat 64 c.wide).toInt)
    | _ => []

def repeated (x : Jvm α) : ℕ → Jvm (List α)
  | 0 => return []
  | n+1 => do
    let a ← x
    return a::(← repeated x n)

/-- The name of an element and the texts of its value. -/
def element (value : Jvm (List Bytes)) : Jvm (Bytes×List Bytes) := do
  let ni ← u2 d stop
  if cp_index cp ni 1 then return (utf cp ni,← value)
  else fail "invalid JVM annotation element name"

def annotationName (desc : Bytes) : Bytes :=
  if 2 ≤ desc.length ∧ desc.head? = some (byte 'L') ∧ desc.getLast? = some (byte ';')
  then dotted (desc.drop 1).dropLast else desc

mutual

/-- An annotation's name and elements, within a number of levels. -/
def annotation : ℕ → ℕ → Jvm (Bytes×List (Bytes×List Bytes))
  | 0, _ => tooDeep
  | levels+1, depth => do
    let ti ← u2 d stop
    if cp_index cp ti 1 then
      let n ← u2 d stop
      return (annotationName (utf cp ti),
        ← repeated (element cp d stop (annotation_value levels (depth+1))) n)
    else fail "invalid JVM annotation header"

/-- The texts of an element's value, in the order in which they are kept. -/
def annotation_value : ℕ → ℕ → Jvm (List Bytes)
  | 0, _ => tooDeep
  | levels+1, depth =>
    if depth > 32 then fail "JVM annotation nesting too deep"
    else do
      let tag ← u1 d stop
      match Char.ofNat tag with
      | 'B' | 'C' | 'D' | 'F' | 'I' | 'J' | 'S' | 'Z' | 's' =>
        let x ← u2 d stop
        checked (cp_index cp x 0) "invalid JVM annotation constant index"
          ([const_text cp x].filter (· ≠ []))
      | 'e' =>
        let x ← u2 d stop
        let n ← u2 d stop
        checked (cp_index cp x 1 && cp_index cp n 1) "invalid JVM annotation enum constant index" []
      | 'c' =>
        let x ← u2 d stop
        checked (cp_index cp x 1) "invalid JVM annotation class constant index" []
      | '@' =>
        let _ ← annotation levels (depth+1)
        return []
      | '[' =>
        let n ← u2 d stop
        return (← repeated (annotation_value levels (depth+1)) n).flatten
      | _ => fail "invalid JVM annotation element tag"

end

abbrev Same (x y : Jvm α) : Prop := Runs (fun _ => True) x y fun _ => True

variable {cp d stop} {x y : Jvm (List Bytes)}

theorem runs_number (n:ℕ) :
    Same (number d stop n) (number d stop n):=
  .same fun p=>by unfold number;split <;> exact nofun

theorem runs_checked (b:Bool) (s:String) (a:α) : Same (checked b s a) (checked b s a):=by
  unfold checked
  split
  · exact .pure _
  · exact .refused _

theorem runs_repeated {a b:Jvm α} (h:Same a b) (n:ℕ) :
    Same (repeated a n) (repeated b n):=by
  induction n with
  | zero=>exact .pure _
  | succ n ih=>exact h.bind fun _=>ih.bind fun _ => .pure _

theorem runs_element (h:Same x y) :
    Same (element cp d stop x) (element cp d stop y):=by
  refine (runs_number 2).bind fun ni=>?_
  split
  · exact h.bind fun _ => .pure _
  · exact .refused _

/-- Where depth and levels come to 35 the levels are enough, and more of them read the same: a
value deeper than 32 is refused. -/
theorem runs_levels {l l' depth:ℕ} (hl:l≤l') (h:35≤l+depth) :
    (2≤l → Same ( annotation cp d stop l depth) ( annotation cp d stop l' depth)) ∧
    (1≤l → Runs (fun _=>True) (annotation_value cp d stop l depth)
      (annotation_value cp d stop l' depth) fun _=>True):=by
  induction l generalizing l' depth with
  | zero=>exact ⟨nofun,nofun⟩
  | succ l ih=>
    obtain ⟨l',rfl⟩ : ∃k,l'=k+1:=⟨l'-1,by omega⟩
    have hle : l≤l':=by omega
    have hsum : 35≤l+(depth+1):=by omega
    obtain ⟨hann,hval⟩:=ih hle hsum
    constructor
    · intro hl
      rw [ annotation, annotation]
      refine (runs_number 2).bind fun ti=>?_
      split
      · refine (runs_number 2).bind fun n=>?_
        exact (runs_repeated (runs_element (hval (by omega))) n).bind fun _ => .pure _
      · exact .refused _
    · intro _
      rw [annotation_value,annotation_value]
      split
      · exact .refused _
      next hdepth=>
        refine (runs_number 1).bind fun tag=>?_
        split
        case h_12=>exact (hann (by omega)).bind fun _ => .pure _
        case h_13=>
          refine (runs_number 2).bind fun n=>?_
          exact (runs_repeated (hval (by omega)) n).bind fun _ => .pure _
        case h_14=>exact .refused _
        case h_10=>exact (runs_number 2).bind fun x=>(runs_number 2).bind fun n=>runs_checked _ _ _
        all_goals exact (runs_number 2).bind fun x=>runs_checked _ _ _

end Jvm

/-- A number of levels that is enough for each input of `P`: more levels read the same. -/
def Bounded {ι ε α : Type} (P : ι→Prop) (read : ℕ→ι→Except (Stop ε) α) : Prop :=
  ∃ depth, ∀ x, P x → ∀ n≥depth, read n x = read depth x ∧ read depth x≠.error .tooDeep

/-- A reader with levels for each byte and one more, which no number is enough for. -/
theorem bounded_iff {κ ε α:Type} {read:ℕ→Bytes×κ→Except (Stop ε) α} {length:ℕ∞}
    (hread:∀ {n m x},x.1.length<n → n ≤ m → read n x = read m x ∧ read n x≠.error .tooDeep)
    (hdeep:∀n,∃x,read n x = .error .tooDeep) :
    Bounded (fun x=>(x.1.length : ℕ∞)≤length) read ↔ length≠⊤ := by
  constructor
  · rintro ⟨depth,h⟩ rfl
    obtain ⟨x,hx⟩:=hdeep depth
    exact (h x le_top depth le_rfl).2 hx
  · intro h
    lift length to ℕ using h
    refine ⟨length+1,fun x hx n hn=>?_⟩
    have hlen : x.1.length≤length:=by exact_mod_cast hx
    exact ⟨(hread (Nat.lt_succ_of_le hlen) hn).1.symm,(hread (Nat.lt_succ_of_le hlen) hn).2⟩

inductive Kind where
  | marshal | descriptor | annotations

/-- The reader's levels are bounded over the inputs of at most `length` bytes. -/
def BoundedOver (length : ℕ∞) : Kind → Prop
  | .marshal => Bounded (fun x : Bytes×ℕ => (x.1.length : ℕ∞)≤length)
      fun n x => Marshal.obj x.1 n {p:=x.2}
  | .descriptor => Bounded (fun x : Bytes×Bool×ℕ => (x.1.length : ℕ∞)≤length)
      fun n x => type_one x.1 n x.2.1 x.2.2
  | .annotations => Bounded (fun x : Bytes×List Cp×ℕ×ℕ => (x.1.length : ℕ∞)≤length)
      fun n x => Jvm.annotation x.2.1 x.1 x.2.2.1 n 0 x.2.2.2

variable {length : ℕ∞}

theorem marshal_bounded_iff : BoundedOver length .marshal ↔ length≠⊤ := by
  refine bounded_iff (fun {n m x} hn hm=>?_) fun n=>⟨(replicate n 0x7b,0),?_⟩
  · obtain ⟨heq,hdeep,-⟩:=Marshal.runs_obj hm {p:=x.2} ⟨Nat.lt_add_left _ hn,by omega⟩
    exact ⟨heq,hdeep⟩
  · exact Marshal.obj_nested (Nat.le_of_eq (Nat.zero_add n))

theorem descriptor_bounded_iff : BoundedOver length .descriptor ↔ length≠⊤ := by
  refine bounded_iff (fun {n m x} hn hm=>?_) fun n=>⟨(replicate n 0x5b,false,0),?_⟩
  · obtain ⟨heq,hdeep,-⟩:=runs_type_one hm x.2.1 x.2.2 ⟨Nat.lt_add_left _ hn,by omega⟩
    exact ⟨heq,hdeep⟩
  · exact type_one_nested false (Nat.le_of_eq (Nat.zero_add n))

theorem annotation_bounded : BoundedOver length .annotations:=by
  refine ⟨35,fun x _ n hn=>?_⟩
  obtain ⟨heq,hdeep,-⟩:=(Jvm.runs_levels hn (Nat.le_refl (35+0))).1 (by omega) x.2.2.2 trivial
  exact ⟨heq.symm,hdeep⟩

/-- The annotations have a number of levels for every input, the others for inputs of bounded
length only, as the descriptors of a class file are. -/
theorem readers_bounded_iff (length : ℕ∞) (k : Kind) :
    BoundedOver length k ↔ k = .annotations ∨ length≠⊤ := by
  cases k with
  | marshal=>exact marshal_bounded_iff.trans ⟨.inr,fun h=>h.resolve_left nofun⟩
  | descriptor=>exact descriptor_bounded_iff.trans ⟨.inr,fun h=>h.resolve_left nofun⟩
  | annotations=>exact ⟨fun _ => .inl rfl,fun _=>annotation_bounded⟩

/-- Open dicts and array marks nest as deep as they are many. -/
theorem readers_unbounded : ¬∀k, BoundedOver ⊤ k:=fun h=>marshal_bounded_iff.mp (h .marshal) rfl

end AutoRefirst.ReaderDepth
