import AutoRefirst.AsarSoundness
import AutoRefirst.WxapkgLossless
import Mathlib.Data.List.Infix
import Mathlib.Data.List.TakeWhile

/-!
# Ren'Py archives

The index of an archive is a pickle; extraction takes the entries as they were read from it.
-/

namespace AutoRefirst.Renpy
open ExtractRun List

structure RenpyRpaEntry where
  name : Bytes
  (offset length : ℕ := 0)
  pre : Bytes := []

structure RenpyRpaInfo where
  valid : Bool := false
  entries : List RenpyRpaEntry := []

def rpaClean (s : Bytes) : Bytes := stripSlashes s

def target (style : PathStyle) (out : Bytes) (e : RenpyRpaEntry) : Bytes :=
  style.append out (rpaClean e.name)

def refused (n : Bytes) : Bool := n = [] || contains n (bytes "..")

end AutoRefirst.Renpy

/-!
## Where archive entries are written to

The three extractors make the path of an entry from its name. The check of the ASAR extractor
refuses every name that another platform reads differently; the other two only take slashes
away and refuse `..`.
-/

namespace AutoRefirst
open PathStyle List

/-- A directory as the program hands it to an extractor: its last component is a name. -/
def Directory (style : PathStyle) (out : Bytes) : Prop :=
  hasFilename style out = true ∧ 0 ∉ out

/-- The file is below the directory, and no name on the way down is that of a device; when
`strict`, it is not the directory itself. -/
def Contained (strict : Bool) (style : PathStyle) (out p : Bytes) : Prop :=
  ∃ rel : DiskPath, located style p = located style out ++ rel ∧
    (strict=true → rel≠[]) ∧
    ∀ c∈rel, c≠bytes ".." ∧ (style=windows → Asar.deviceName c = false)

/-- The name up to a NUL. -/
def cName (n : Bytes) : Bytes := n.takeWhile (· ≠ 0)

/-- A name with no drive in front and no device in it; when `strict`, with a component that is
more than a dot. -/
def Harmless (strict : Bool) (n : Bytes) : Prop :=
  hasDrive n = false ∧ (∀ c ∈ names windows (cName n), Asar.deviceName c = false) ∧
    (strict=true → names posix (cName n) ≠ [])

variable {style : PathStyle}

theorem isSep_of_posix {c:UInt8} (h:isSep windows c=false) : isSep style c=false:=by
  cases style with
  | windows=>exact h
  | posix=>
    simp only [isSep,Bool.or_eq_false_iff] at h
    exact h.1

variable {n : Bytes}

theorem relative_of_plain (hhead:n.head?.any (isSep windows)=false) (hdrive:hasDrive n=false) :
    Relative style n:=by
  have hname : rootName style n=[]:=by
    cases style with
    | posix=>rfl
    | windows=>
      have hhost : hasHost n=false:=by
        match n with
        | []=>rfl
        | [_]=>rfl
        | [_,_]=>rfl
        | c::d::e::_=>
          have hc : isSep windows c=false:=by simpa using hhead
          simp [hasHost,hc]
      simp [rootName,hdrive,hhost]
  refine ⟨hname,?_⟩
  rw [hasRootDirectory,afterRoot,hname]
  cases n with
  | nil=>rfl
  | cons c n=>
    have hc : isSep windows c=false:=by simpa using hhead
    simpa using isSep_of_posix hc

theorem relative_posix (h:n.head?.any (isSep posix)=false) : Relative posix n:=⟨rfl,h⟩

theorem head_cName {P:UInt8→Bool} (h:n.head?.any P=false) : (cName n).head?.any P=false:=by
  cases n with
  | nil=>rfl
  | cons c n=>
    unfold cName
    rw [takeWhile_cons]
    split
    · exact h
    · rfl

theorem hasDrive_cName (n:Bytes) : hasDrive (cName n)=hasDrive n:=by
  match n with
  | []=>rfl
  | [c]=>
    unfold cName
    rw [takeWhile_cons]
    split <;> rfl
  | c::d::n=>
    unfold cName
    rw [takeWhile_cons,takeWhile_cons]
    by_cases hc : c=0
    · subst hc
      rfl
    · by_cases hd : d=0
      · subst hd
        simp [hc,hasDrive,byte]
      · simp [hc,hd,hasDrive]

theorem no_drive (h:byte ':' ∉ n) : hasDrive n=false:=by
  cases n with
  | nil=>rfl
  | cons c n=>
    cases n with
    | nil=>rfl
    | cons d n=>
      have hd : d≠byte ':' := fun heq=>h (by simp [heq])
      simp [hasDrive,hd]

theorem contains_of_within {s part:Bytes} (h:part <:+: s) : contains s part=true:=by
  obtain ⟨t, hprefix,hsuffix⟩:=infix_iff_prefix_suffix.mp h
  rw [contains,any_eq_true]
  exact ⟨t,(mem_tails _ _).mpr hsuffix, isPrefixOf_iff_prefix.mpr hprefix⟩

theorem no_up (h:contains n (bytes "..") = false) : bytes ".." ∉ components style (cName n):=by
  intro hmem
  have hwithin : bytes ".." <:+: n:=
    (components_within style hmem).trans ( takeWhile_prefix _).isInfix
  rw [contains_of_within hwithin] at h
  cases h

variable {p : Bytes}

theorem located_eq (h:0 ∉ p) : located style p=resolve style p:=by
  have hself : p.takeWhile (· ≠ 0)=p:=by
    rw [takeWhile_eq_self_iff]
    intro c hc
    have hne : c≠0:=fun heq=>h (heq▸hc)
    simpa using hne
  rw [located,hself]

theorem located_append {out:Bytes} (hout:Directory style out) (hn:Relative style n)
    (hcut:Relative style (cName n)) (hup:contains n (bytes "..") = false) :
    located style (append style out n) = located style out++names style (cName n):=by
  have hsep : preferredSep style≠0:=by cases style <;> decide
  have hcutPath : (append style out n).takeWhile (· ≠ 0)=append style out (cName n):=by
    rw [hn.append_eq style hout.1,hcut.append_eq style hout.1,takeWhile_append_of_pos,
      takeWhile_cons,if_pos (by simpa using hsep)]
    · rfl
    · intro c hc
      have hne : c≠0:=fun heq=>hout.2 (heq▸hc)
      simpa using hne
  rw [located,hcutPath,resolve_append style hout.1 hcut (no_up hup),located_eq hout.2]

theorem names_no_up (h:contains n (bytes "..") = false) :
    ∀c∈names style (cName n),c≠bytes ".." := by
  intro c hc heq
  exact no_up h (heq▸(mem_filter.mp hc).1)

theorem stripSlashes_head (s:Bytes) : (stripSlashes s).head?.any (isSep posix)=false:=by
  rw [stripSlashes]
  cases h : (dropWhile (· == byte '/') (s.map fun c=>if c = byte '\\' then byte '/' else c)) with
  | nil=>rfl
  | cons c rest=>
    have hc:=head?_dropWhile_not (· == byte '/')
      (s.map fun c=>if c = byte '\\' then byte '/' else c)
    rw [h] at hc
    simpa [isSep] using hc

theorem stripSlashes_no_backslash (s:Bytes) : byte '\\' ∉ stripSlashes s:=by
  intro hmem
  have hmap:=(dropWhile_suffix _).subset hmem
  obtain ⟨c,-,hc⟩:=mem_map.mp hmap
  split at hc
  · exact absurd hc (by decide)
  · rename_i hne
    exact hne hc

theorem splitOnP_congr {P Q:UInt8→Bool} {l:Bytes} (h:∀x∈l,P x = Q x) :
    l.splitOnP P=l.splitOnP Q:=by
  induction l with
  | nil=>rfl
  | cons x l ih=>
    rw [splitOnP_cons_eq_if_modifyHead,splitOnP_cons_eq_if_modifyHead,
      h x mem_cons_self,ih fun y hy=>h y (mem_cons_of_mem _ hy)]

theorem isSep_eq_posix {c:UInt8} (h:c≠byte '\\') : isSep windows c=isSep posix c:=by
  simp [isSep,h]

theorem names_windows (h:byte '\\' ∉ n) : names windows n=names posix n:=by
  rw [names,names,components,components,
    splitOnP_congr fun x hx=>isSep_eq_posix fun heq=>h (heq▸hx)]

theorem head_windows (hno:byte '\\' ∉ n) (h:n.head?.any (isSep posix)=false) :
    n.head?.any (isSep windows)=false:=by
  cases n with
  | nil=>rfl
  | cons c n=>
    have hc : c≠byte '\\' := fun heq=>hno (heq▸mem_cons_self)
    simpa [isSep_eq_posix hc] using h

/-- A cleaned name is contained in every directory under both grammars exactly when it is
harmless. -/
theorem contained_iff_harmless (strict:Bool) (s:Bytes)
    (hup:contains (stripSlashes s) (bytes "..") = false) :
    (∀(style:PathStyle) (out:Bytes),Directory style out →
      Contained strict style out (append style out (stripSlashes s))) ↔
    Harmless strict (stripSlashes s):=by
  have hhead:=stripSlashes_head s
  have hno:=stripSlashes_no_backslash s
  generalize stripSlashes s = n at hhead hno hup ⊢
  have hnames : names windows (cName n)=names posix (cName n):=by
    apply names_windows
    exact fun hmem=>hno (( takeWhile_prefix _).subset hmem)
  have hout : Directory windows (bytes "out"):=by
    constructor
    · rfl
    · decide
  constructor
  · intro hall
    have hdrive : hasDrive n=false:=by
      cases hdrive : hasDrive n with
      | false=>rfl
      | true=>
        obtain ⟨rel,hrel,-⟩:=hall windows (bytes "out") hout
        have hroot : ∀ {m:Bytes},hasDrive m=true → rootName windows m≠[]:=by
          intro m hm
          cases m with
          | nil=>cases hm
          | cons c m=>simp [rootName,hm]
        have hreplaced : append windows (bytes "out") n=n:=by
          unfold append
          rw [if_pos]
          right
          exact ⟨hroot hdrive,hroot hdrive⟩
        have hhead : (located windows (bytes "out")).head? = some []:=rfl
        rw [hreplaced] at hrel
        have hroots:=congrArg head? hrel
        rw [head?_append,hhead,located,resolve,head?_cons] at hroots
        have hcut : rootName windows (cName n)≠[]:=hroot ((hasDrive_cName n).trans hdrive)
        simp only [Option.some_or,Option.some.injEq] at hroots
        split at hroots
        · simp at hroots
        · exact absurd hroots hcut
    have hrelative : Relative windows n:=relative_of_plain (head_windows hno hhead) hdrive
    have hcut : Relative windows (cName n):=by
      apply relative_of_plain
      · exact head_cName (head_windows hno hhead)
      · rw [hasDrive_cName,hdrive]
    obtain ⟨rel,hrel,hbelow,hdevice⟩:=hall windows (bytes "out") hout
    rw [located_append hout hrelative hcut hup,append_cancel_left_eq] at hrel
    refine ⟨hdrive,?_,?_⟩
    · intro c hc
      exact (hdevice c (hrel▸hc)).2 rfl
    · intro hs
      rw [← hnames,hrel]
      exact hbelow hs
  · rintro ⟨hdrive,hdevice,hstrict⟩ style out hdir
    have hrelative : Relative style n:=relative_of_plain (head_windows hno hhead) hdrive
    have hcut : Relative style (cName n):=by
      apply relative_of_plain
      · exact head_cName (head_windows hno hhead)
      · rw [hasDrive_cName,hdrive]
    refine ⟨names style (cName n),located_append hdir hrelative hcut hup,?_,?_⟩
    · intro hs
      cases style with
      | posix=>exact hstrict hs
      | windows=>exact hnames▸hstrict hs
    · intro c hc
      refine ⟨names_no_up hup c hc,?_⟩
      rintro rfl
      exact hdevice c hc

/-- The path of the parts, each joined to those before it. -/
def relPath (style : PathStyle) (rel : DiskPath) : Bytes := rel.foldl (append style) []

def asarTarget (style : PathStyle) (out : Bytes) (rel : DiskPath) : Bytes :=
  append style out (relPath style rel)

structure SafePart (c : Bytes) : Prop where
  safe : Asar.safePart c = true
  noSlash : byte '/' ∉ c
  noBackslash : byte '\\' ∉ c

variable {c : Bytes}

theorem SafePart.ne_nil (h:SafePart c) : c≠[]:=(Asar.safePart_name h.safe).1

theorem SafePart.isName (h:SafePart c) : isName c=true:=by
  obtain ⟨hne,hdot,-⟩:=Asar.safePart_name h.safe
  simp [PathStyle.isName,hne,hdot]

theorem SafePart.byte (h:SafePart c) {x:UInt8} (hx:x∈c) : x≠0 ∧ x≠AutoRefirst.byte ':' := by
  have hall:=h.safe
  simp only [Asar.safePart,Bool.and_eq_true,all_eq_true] at hall
  have hone:=hall.1.1.1.2 x hx
  simp only [Bool.not_eq_true',Bool.or_eq_false_iff,decide_eq_false_iff_not,
    beq_eq_false_iff_ne] at hone
  refine ⟨?_,hone.2⟩
  rintro rfl
  exact hone.1 (by decide)

theorem SafePart.not_device (h:SafePart c) : Asar.deviceName c=false:=by
  have hall:=h.safe
  simp only [Asar.safePart,Bool.and_eq_true,Bool.not_eq_true'] at hall
  exact hall.2

theorem SafePart.no_sep (h:SafePart c) (style:PathStyle) {x:UInt8} (hx:x∈c) :
    isSep style x=false:=by
  apply isSep_of_posix
  have hslash : x≠AutoRefirst.byte '/' := fun heq=>h.noSlash (heq▸hx)
  have hback : x≠AutoRefirst.byte '\\' := fun heq=>h.noBackslash (heq▸hx)
  simp [isSep,hslash,hback]

theorem SafePart.components (h:SafePart c) (style:PathStyle) : components style c=[c]:=
  splitOnP_eq_singleton fun _ hx=>h.no_sep style hx

theorem SafePart.relative (h:SafePart c) (style:PathStyle) : Relative style c:=by
  apply relative_of_plain
  · cases c with
    | nil=>rfl
    | cons x c=>simpa using h.no_sep windows mem_cons_self
  · match c with
    | []=>rfl
    | [_]=>rfl
    | x::y::c=>
      have hy:=(h.byte (mem_cons_of_mem x mem_cons_self)).2
      simp [hasDrive,hy]

/-- What is known of the path of some safe parts. -/
structure Joined (style : PathStyle) (p : Bytes) (rel : DiskPath) : Prop where
  relative : Relative style p
  filename : hasFilename style p = true
  components : components style p = rel
  nul : 0 ∉ p

theorem Joined.first (hc:SafePart c) : Joined style (append style [] c) [c]:=by
  have hjoin : append style [] c=c:=by
    unfold append
    rw [(hc.relative style).not_absolute,(hc.relative style).2,(hc.relative style).1,
      (hc.relative style).afterRoot]
    cases style <;> rfl
  rw [hjoin]
  refine ⟨hc.relative style,?_,hc.components style,fun h0=>(hc.byte h0).1 rfl⟩
  rw [hasFilename,(hc.relative style).afterRoot,getLast?_eq_getLast_of_ne_nil hc.ne_nil]
  simpa using hc.no_sep style (getLast_mem hc.ne_nil)

variable {rel : DiskPath}

theorem Joined.next (h:Joined style p rel) (hc:SafePart c) :
    Joined style (append style p c) (rel++[c]):=by
  rw [(hc.relative style).append_eq style h.filename]
  have hroot : rootName style (p++preferredSep style::c)=[]:=
    (rootName_append style h.filename c).trans h.relative.1
  refine ⟨⟨hroot,?_⟩,?_,?_,?_⟩
  · exact (hasRootDirectory_append style h.filename c).trans h.relative.2
  · rw [hasFilename,afterRoot,hroot,length_nil,drop_zero,
      getLast?_append_of_ne_nil _ (by simp),getLast?_cons,
      getLast?_eq_getLast_of_ne_nil hc.ne_nil]
    simpa using hc.no_sep style (getLast_mem hc.ne_nil)
  · rw [components_append,h.components,hc.components]
  · intro hmem
    rcases mem_append.mp hmem with hp | hc0
    · exact h.nul hp
    · rcases mem_cons.mp hc0 with hsep | hin
      · cases style <;> exact absurd hsep (by decide)
      · exact (hc.byte hin).1 rfl

theorem Joined.all (hne:rel≠[]) (hrel:∀c∈rel,SafePart c) :
    Joined style (relPath style rel) rel:=by
  induction rel using reverseRecOn with
  | nil=>exact absurd rfl hne
  | append_singleton rel c ih=>
    have hc:=hrel c (by simp)
    rw [relPath,foldl_append]
    by_cases hrest : rel=[]
    · subst hrest
      exact Joined.first hc
    · exact (ih hrest fun c' hc'=>hrel c' (mem_append_left _ hc')).next hc

theorem asarTarget_contained {out:Bytes} (hout:Directory style out) (hne:rel≠[])
    (hrel:∀c∈rel,SafePart c) :
    Contained true style out (asarTarget style out rel):=by
  have hjoined : Joined style (relPath style rel) rel:=Joined.all hne hrel
  have hup : bytes ".." ∉ components style (relPath style rel):=by
    rw [hjoined.components]
    intro hmem
    exact (Asar.safePart_name (hrel _ hmem).safe).2.2 rfl
  have hnames : names style (relPath style rel)=rel:=by
    rw [names,hjoined.components]
    exact filter_eq_self.mpr fun c hc=>(hrel c hc).isName
  have hnul : 0 ∉ asarTarget style out rel:=by
    rw [asarTarget,hjoined.relative.append_eq style hout.1]
    intro hmem
    rcases mem_append.mp hmem with hin | hin
    · exact hout.2 hin
    · rcases mem_cons.mp hin with hsep | hin
      · cases style <;> exact absurd hsep (by decide)
      · exact hjoined.nul hin
  refine ⟨rel,?_,fun _=>hne,?_⟩
  · rw [located_eq hnul,located_eq hout.2,asarTarget,
      resolve_append style hout.1 hjoined.relative hup,hnames]
  · intro c hc
    exact ⟨(Asar.safePart_name (hrel c hc).safe).2.2,fun _=>(hrel c hc).not_device⟩

theorem safeOutputRel_parts {d:Bytes} (h:(Asar.detectAsar d p).valid=true)
    {e:Asar.AsarEntry} (he:e∈(Asar.detectAsar d p).entries)
    (hrel:Asar.safeOutputRel e.path=some rel) : rel≠[] ∧ ∀c∈rel,SafePart c:=by
  obtain ⟨new,hsound⟩:=Asar.detectAsar_sound h
  obtain ⟨rfl,hne,hsafe⟩:=Asar.safeOutputRel_eq hrel
  rw [hsound.entries] at he
  obtain ⟨x,hx,rfl⟩:=mem_map.mp he
  obtain ⟨hxne,hvalid⟩:=hsound.names x hx
  rw [hsound.paths x hx,Asar.pathParts_pathOf hxne hvalid] at hne hsafe ⊢
  refine ⟨hne,?_⟩
  intro c hc
  refine ⟨hsafe c hc,Asar.validName_no_slash (hvalid c hc),?_⟩
  intro hmem
  have hcontains : c.contains (byte '\\') = true:=contains_iff_mem.mpr hmem
  have hname:=hvalid c hc
  simp only [Asar.validName,hcontains] at hname
  simp at hname

def drivePackage : Wxapkg.WxapkgInfo := Wxapkg.twoEntriesInfo (bytes "x") (bytes "C:/x")

end AutoRefirst
