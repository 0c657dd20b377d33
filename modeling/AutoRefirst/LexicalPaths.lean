import AutoRefirst.ByteText

/-!
# Paths by their spelling

Two grammars of paths, joining, and the lexical normal form. Nothing is looked up on a disk.
-/

namespace AutoRefirst
open List

inductive PathStyle
  | posix | windows
  deriving DecidableEq

namespace PathStyle

def isSep : PathStyle → UInt8 → Bool
  | posix, c => c == byte '/'
  | windows, c => c == byte '/' || c == byte '\\'

def preferredSep : PathStyle → UInt8
  | posix => byte '/'
  | windows => byte '\\'

def isLetter (c : UInt8) : Bool := (0x41 ≤ c && c ≤ 0x5a) || (0x61 ≤ c && c ≤ 0x7a)

def hasDrive : Bytes → Bool
  | c :: d::_ => isLetter c && d == byte ':'
  | _ => false

/-- Two separators and the name of a host. -/
def hasHost : Bytes → Bool
  | c :: d :: e::_ => isSep windows c && isSep windows d && !isSep windows e
  | _ => false

def rootName : PathStyle → Bytes → Bytes
  | posix, _ => []
  | windows, p =>
    if hasDrive p then p.take 2
    else if hasHost p then p.take 2 ++ (p.drop 2).takeWhile (!isSep windows ·)
    else []

variable (style : PathStyle)

def afterRoot (p : Bytes) : Bytes := p.drop (rootName style p).length

def hasRootDirectory (p : Bytes) : Bool := (afterRoot style p).head?.any (isSep style)

def hasFilename (p : Bytes) : Bool := (afterRoot style p).getLast?.any (!isSep style ·)

/-- A drive alone is relative, to the current directory of that drive. -/
def isAbsolute : PathStyle → Bytes → Bool
  | posix, p => hasRootDirectory posix p
  | windows, p => hasHost p || (hasDrive p && hasRootDirectory windows p)

/-- `operator/`: a path that is absolute, or on another root, replaces the first one. -/
def append (p q : Bytes) : Bytes :=
  if isAbsolute style q ∨ (rootName style q ≠ [] ∧ rootName style q ≠ rootName style p) then q
  else if hasRootDirectory style q then rootName style p ++ afterRoot style q
  else if hasFilename style p ∨ (!hasRootDirectory style p && isAbsolute style p) then
    p ++ preferredSep style :: afterRoot style q
  else p ++ afterRoot style q

def isName (c : Bytes) : Bool := c ≠ [] && c ≠ bytes "."

variable (rooted : Bool)

/-- One component: nothing and `.` are dropped, and `..` takes the last name back. -/
def step (acc : List Bytes) (c : Bytes) : List Bytes :=
  if !isName c then acc
  else if c = bytes ".." then
    if acc = [] then (if rooted then [] else [c])
    else if acc.getLast? = some c then acc++[c]
    else acc.dropLast
  else acc++[c]

def components (p : Bytes) : List Bytes := p.splitOnP (isSep style)

def normalize (cs : List Bytes) : List Bytes := cs.foldl (step rooted) []

/-- The root of a path and its normal form below it. -/
def resolve (p : Bytes) : List Bytes :=
  (if hasRootDirectory style p then rootName style p ++ [byte '/'] else rootName style p) ::
    normalize (hasRootDirectory style p) (components style (afterRoot style p))

theorem foldl_step_down (acc cs:List Bytes) (h:bytes ".." ∉ cs) :
    cs.foldl (step rooted) acc = acc++cs.filter isName:=by
  induction cs generalizing acc with
  | nil=>simp
  | cons c cs ih=>
    have hc : c≠bytes ".." := fun heq=>h (heq▸mem_cons_self)
    have hcs : bytes ".." ∉ cs:=fun hmem=>h (mem_cons_of_mem _ hmem)
    rw [foldl_cons,ih _ hcs]
    cases hname : isName c with
    | false=>simp [step,hname]
    | true=>simp [step,hname,hc]

/-- Components after others, when none of them goes up. -/
theorem normalize_append (cs cs':List Bytes) (h:bytes ".." ∉ cs') :
    normalize rooted (cs++cs') = normalize rooted cs++cs'.filter isName:=by
  rw [normalize,foldl_append,foldl_step_down rooted _ cs' h]
  rfl

theorem isSep_preferredSep : isSep style (preferredSep style)=true:=by
  cases style <;> rfl

theorem components_append (p q:Bytes) :
    components style (p++preferredSep style::q) = components style p++components style q:=
  splitOnP_append_cons p q (isSep_preferredSep style)

theorem takeWhile_stop {P:UInt8→Bool} {x:UInt8} (hx:P x=false) (l q:Bytes) :
    (l++x::q).takeWhile P=l.takeWhile P:=by
  induction l with
  | nil=>simp [hx]
  | cons y l ih=>
    rw [cons_append,takeWhile_cons,takeWhile_cons,ih]

variable {p : Bytes}

theorem rootName_append (h:hasFilename style p=true) (q:Bytes) :
    rootName style (p++preferredSep style::q)=rootName style p:=by
  cases style with
  | posix=>rfl
  | windows=>
    match p with
    | []=>simp [hasFilename,afterRoot] at h
    | [c]=>
      have hc : isSep windows c=false:=by
        simpa [hasFilename,afterRoot,rootName,hasDrive,hasHost] using h
      have hdrive : hasDrive (c::byte '\\' :: q) = false:=by
        have hd : (byte '\\' == byte ':') = false:=by decide
        simp [hasDrive,hd]
      have hhost : hasHost (c::byte '\\' :: q) = false:=by
        cases q <;> simp [hasHost,hc]
      change rootName windows (c::byte '\\' :: q) = []
      simp [rootName,hdrive,hhost]
    | [c,d]=>
      cases hdrive : hasDrive [c,d] with
      | true=>simp [hasFilename,afterRoot,rootName,hdrive] at h
      | false=>
        have hd : isSep windows d=false:=by
          simpa [hasFilename,afterRoot,rootName,hdrive,hasHost] using h
        have hnot : hasDrive (c::d::preferredSep windows::q)=false:=hdrive
        simp [rootName,hdrive,hnot,hasHost,hd]
    | c::d::e::rest=>
      have hdrive : hasDrive (c::d::e::rest++preferredSep windows::q) =
          hasDrive (c::d::e::rest):=rfl
      have hhost : hasHost (c::d::e::rest++preferredSep windows::q) =
          hasHost (c::d::e::rest):=rfl
      have hwhile : (e::rest++preferredSep windows::q).takeWhile (!isSep windows ·) =
          (e::rest).takeWhile (!isSep windows ·):=takeWhile_stop (by decide) _ _
      rw [rootName,rootName,hdrive,hhost]
      simp only [cons_append,take_succ_cons,take_zero,drop_succ_cons, drop_zero] at hwhile ⊢
      rw [hwhile]

theorem rootName_start (p:Bytes) : rootName style p <+: p:=by
  cases style with
  | posix=>exact nil_prefix
  | windows=>
    unfold rootName
    dsimp only
    split
    · exact take_prefix 2 p
    · split
      · have hrest:=( takeWhile_prefix (!isSep windows ·) (l:=p.drop 2))
        have hwhole : p.take 2++(p.drop 2).takeWhile (!isSep windows ·) <+:
            p.take 2++p.drop 2:=(prefix_append_right_inj _).mpr hrest
        rwa [take_append_drop] at hwhole
      · exact nil_prefix

theorem afterRoot_append (h:hasFilename style p=true) (q:Bytes) :
    afterRoot style (p++preferredSep style::q) =
      afterRoot style p++preferredSep style::q:=by
  unfold afterRoot
  rw [rootName_append style h]
  exact drop_append_of_le_length (rootName_start style p).length_le

theorem hasRootDirectory_append (h:hasFilename style p=true) (q:Bytes) :
    hasRootDirectory style (p++preferredSep style::q)=hasRootDirectory style p:=by
  unfold hasRootDirectory
  rw [afterRoot_append style h]
  have hne : afterRoot style p≠[]:=by
    intro hnil
    simp [hasFilename,hnil] at h
  rw [head?_append_of_ne_nil _ hne]

/-- A path without a root. -/
def Relative (q : Bytes) : Prop := rootName style q = [] ∧ hasRootDirectory style q = false

variable {q : Bytes}

theorem Relative.afterRoot (h:Relative style q) : afterRoot style q=q:=by
  rw [PathStyle.afterRoot,h.1]
  rfl

theorem Relative.not_absolute (h:Relative style q) : isAbsolute style q=false:=by
  obtain ⟨hname,hdir⟩:=h
  cases style with
  | posix=>exact hdir
  | windows=>
    unfold rootName at hname
    dsimp only at hname
    split at hname
    · rename_i hdrive
      cases q with
      | nil=>cases hdrive
      | cons c q=>simp at hname
    · split at hname
      · rename_i hhost
        cases q with
        | nil=>cases hhost
        | cons c q=>simp at hname
      · rename_i hdrive hhost
        simp [isAbsolute,hdrive,hhost]

theorem Relative.append_eq (h:Relative style q) (hp:hasFilename style p=true) :
    append style p q = p++preferredSep style::q:=by
  unfold append
  rw [h.not_absolute,h.2,h.1,h.afterRoot,hp]
  simp

/-- The names of a relative path. -/
def names (q : Bytes) : List Bytes := (components style q).filter isName

/-- Joining a relative path that never goes up only adds its names. -/
theorem resolve_append (hp:hasFilename style p=true) (hq:Relative style q)
    (hup:bytes ".." ∉ components style q) :
    resolve style (append style p q) = resolve style p++names style q:=by
  rw [hq.append_eq style hp,resolve,hasRootDirectory_append style hp,rootName_append style hp,
    afterRoot_append style hp,components_append,normalize_append _ _ _ hup]
  rfl

theorem components_within {c:Bytes} (h:c∈components style q) : c <:+: q:=by
  have hall : (∀c∈components style q,c <:+: q) ∧
      ∀c,(components style q).head? = some c → c <+: q:=by
    unfold components
    clear h
    induction q with
    | nil=>simp
    | cons x q ih=>
      obtain ⟨hwithin,hhead⟩:=ih
      rw [splitOnP_cons_eq_if_modifyHead]
      split
      · constructor
        · intro c hc
          rcases mem_cons.mp hc with rfl | hc
          · exact nil_infix
          · exact (hwithin c hc).trans (suffix_cons x q).isInfix
        · intro c hc
          cases hc
          exact nil_prefix
      · cases hsplit : q.splitOnP (isSep style) with
        | nil=>exact absurd hsplit (splitOnP_ne_nil _ _)
        | cons c₀ cs=>
          rw [hsplit] at hwithin hhead
          have hc₀ : x::c₀ <+: x::q:=prefix_cons_inj x |>.mpr (hhead c₀ rfl)
          constructor
          · intro c hc
            rcases mem_cons.mp hc with rfl | hc
            · exact hc₀.isInfix
            · exact (hwithin c (mem_cons_of_mem _ hc)).trans (suffix_cons x q).isInfix
          · intro c hc
            cases hc
            exact hc₀
  exact hall.1 c h

end PathStyle

end AutoRefirst
