import AutoRefirst.AsarIndex
import AutoRefirst.OutputDisk
import AutoRefirst.Sha256
import AutoRefirst.Word64

/-!
# Extraction of ASAR archives

Every file of the index is written below the output directory, as long as its path is safe on
every platform and the budgets last.
-/

namespace AutoRefirst.Asar
open List

def pathParts (p : Bytes) : List Bytes :=
  let parts := p.splitOn (byte '/')
  if parts.getLast? = some [] then parts.dropLast else parts

/-- The names that Windows keeps for devices. -/
def deviceStem (stem : Bytes) : Bool :=
  stem ∈ ["con","prn","aux","nul","clock$"].map bytes ||
    (stem.length == 4 && ((bytes "com").isPrefixOf stem || (bytes "lpt").isPrefixOf stem) &&
      byte '1' ≤ stem.getD 3 0 && stem.getD 3 0 ≤ byte '9')

def deviceName (part : Bytes) : Bool :=
  deviceStem ((lower part).takeWhile (· ≠ byte '.'))

def safePart (part : Bytes) : Bool :=
  part ≠ [] && part ≠ bytes "." && part ≠ bytes ".." && part.length ≤ 255 &&
    part.all (fun c => !(c < 0x20 || c == byte ':')) &&
    part.getLast? ≠ some (byte '.') && part.getLast? ≠ some (byte ' ') && !deviceName part

def safeOutputRel (p : Bytes) : Option DiskPath :=
  if (pathParts p).all safePart && pathParts p ≠ [] then some (pathParts p) else none

structure AsarExtractResult where
  (success coreOnly budgetExhausted : Bool := false)
  outputDir : DiskPath := []
  (packedFiles unpackedFiles directories linksSkipped outputBytes omittedCount omittedBytes
    integrityVerified integrityMismatches : ℕ := 0)
  files : List DiskPath := []
  warnings : List String := []
  error : String := ""

/-- What the loop over the entries keeps. -/
structure ExtractState (σ : Type) where
  disk : σ
  result : AsarExtractResult
  (expectedFiles written : ℕ := 0)

def digestBytes (content : Bytes) : Bytes := bytes (sha256Bytes content)

def checksIntegrity (e : AsarEntry) : Bool :=
  lower e.integrityAlgorithm == bytes "sha256" && validHexSha e.integritySha256

namespace ExtractState

variable {σ : Type} (t : ExtractState σ)

def warn (message : String) : ExtractState σ :=
  {t with result:={t.result with warnings:=t.result.warnings++[message]}}

def omitEntry (e : AsarEntry) : ExtractState σ :=
  { t with result:={ t.result with
      budgetExhausted:=true,omittedCount:=t.result.omittedCount+1
      omittedBytes:=Word64.satAdd t.result.omittedBytes e.size } }

/-- The digest of a written file against that of the index. -/
def verify (e : AsarEntry) (content : Bytes) : ExtractState σ :=
  if checksIntegrity e then
    if lower (digestBytes content) = lower e.integritySha256 then
      {t with result:={t.result with integrityVerified:=t.result.integrityVerified+1}}
    else
      ({ t with result:={ t.result with
          integrityMismatches:=t.result.integrityMismatches+1 } }).warn
        ("ASAR SHA256 mismatch: "++textOf e.path)
  else t

def account (e : AsarEntry) (dest : DiskPath) : ExtractState σ :=
  { t with
    written:=t.written+1
    result:={ t.result with
      packedFiles := if e.unpacked then t.result.packedFiles else t.result.packedFiles+1
      unpackedFiles := if e.unpacked then t.result.unpackedFiles+1 else t.result.unpackedFiles
      outputBytes:=t.result.outputBytes+e.size,files:=t.result.files++[dest] } }

variable (D : OutputDisk σ)

/-- A file that lies beside the archive is copied. -/
def extractUnpacked (i : AsarInfo) (e : AsarEntry) (dest : DiskPath) : ExtractState σ :=
  if i.archivePath = [] then
    t.warn ("unpacked ASAR file unavailable without archive path: "++textOf e.path)
  else
    let src := i.archivePath++bytes ".unpacked"++byte '/' :: e.path
    match D.regularSize t.disk src with
    | none => t.warn ("unpacked ASAR sibling file missing/not regular: "++textOf e.path)
    | some size =>
      if size ≠ e.size then t.warn ("unpacked ASAR sibling size mismatch: "++textOf e.path)
      else
        let made := D.createDirectories t.disk dest.dropLast
        let copied := D.copyFile made.2 src dest
        let t := {t with disk:=copied.2}
        if !copied.1 then t.warn ("failed to copy unpacked ASAR file: "++textOf e.path)
        else (t.account e dest).verify e ((D.content copied.2 dest).getD [])

/-- A packed file is written from its range of the archive. -/
def extractPacked (d : Bytes) (i : AsarInfo) (e : AsarEntry) (dest : DiskPath) : ExtractState σ :=
  if i.dataOffset+e.offset > d.length ∨ e.size > d.length-i.dataOffset-e.offset then
    t.warn ("ASAR packed range became invalid: "++textOf e.path)
  else
    let content := (d.drop (i.dataOffset+e.offset)).take e.size
    let made := D.createDirectories t.disk dest.dropLast
    if made.1.isSome then
      ({t with disk:=made.2}).warn ("failed to write ASAR file: "++textOf e.path)
    else
      let wrote := D.writeFile made.2 dest content
      let t := {t with disk:=wrote.2}
      if !wrote.1 then t.warn ("failed to write ASAR file: "++textOf e.path)
      else (t.account e dest).verify e content

def extractFile (d : Bytes) (i : AsarInfo)
    (maxBytes maxFiles : ℕ) (e : AsarEntry) (dest : DiskPath) : ExtractState σ :=
  let t := {t with expectedFiles:=t.expectedFiles+1}
  if t.result.files.length ≥ maxFiles ∨ e.size > maxBytes-t.result.outputBytes then t.omitEntry e
  else if e.unpacked then t.extractUnpacked D i e dest
  else t.extractPacked D d i e dest

def extractEntry (d : Bytes) (i : AsarInfo) (out : DiskPath)
    (coreOnly : Bool) (maxBytes maxFiles : ℕ) (t : ExtractState σ) (e : AsarEntry) :
    ExtractState σ :=
  match e.kind with
  | .link =>
    if coreOnly then t
    else {t with result:={t.result with linksSkipped:=t.result.linksSkipped+1}}
  | .directory =>
    if coreOnly then t
    else match safeOutputRel e.path with
    | none => t.warn ("ASAR extraction refused unsafe cross-platform path: "++textOf e.path)
    | some rel =>
      let made := D.createDirectories t.disk (out++rel)
      let t := {t with disk:=made.2}
      if made.1.isSome then t
      else {t with result:={t.result with directories:=t.result.directories+1}}
  | .file =>
    if coreOnly && !i.interestingPaths.contains e.path then t
    else match safeOutputRel e.path with
    | none => ({t with expectedFiles:=t.expectedFiles+1}).warn
        ("ASAR extraction refused unsafe cross-platform path: "++textOf e.path)
    | some rel => t.extractFile D d i maxBytes maxFiles e (out++rel)

/-- What is judged after the loop. -/
def success (coreOnly : Bool) : Bool :=
  if coreOnly then decide (t.written > 0) && t.result.integrityMismatches == 0
  else t.written == t.expectedFiles && t.result.integrityMismatches == 0 &&
    !t.result.budgetExhausted

def warnLinks : ExtractState σ :=
  if t.result.linksSkipped ≠ 0 then
    t.warn ("ASAR link entries were reported but not materialized as symlinks: " ++
      toString t.result.linksSkipped)
  else t

def finish (coreOnly : Bool) : AsarExtractResult×σ :=
  ({ t.warnLinks.result with
      success:=t.success coreOnly
      error := if t.success coreOnly then t.result.error
        else if coreOnly then "no complete ASAR core artifact set was materialized"
        else "not all ASAR files were extracted/validated" },t.disk)

end ExtractState

def extractAsar {σ : Type} (D : OutputDisk σ) (d : Bytes) (i : AsarInfo) (out : DiskPath)
    (coreOnly : Bool) (maxBytes maxFiles : ℕ) (s : σ) : AsarExtractResult×σ :=
  let r : AsarExtractResult := {outputDir:=out,coreOnly}
  if !i.valid then ({r with error := "invalid ASAR info"},s)
  else
    let made := D.createDirectories s out
    match made.1 with
    | some message => ({r with error := "cannot create ASAR output directory: "++message},made.2)
    | none =>
      if coreOnly && i.interestingPaths.isEmpty then ({r with success:=true},made.2)
      else
        let t := i.entries.foldl
          (ExtractState.extractEntry D d i out coreOnly maxBytes maxFiles)
          {disk:=made.2,result:=r}
        t.finish coreOnly

end AutoRefirst.Asar

/-!
## What the index of an ASAR archive is

The walk gives every entry the path of its components, so entries of one tree have different
paths, and it checks the range of every packed file.
-/

namespace AutoRefirst.Asar
open List
open CPythonIntrospection (J)
open Fallible

def pathOf (cs : List Bytes) : Bytes := [byte '/'].intercalate cs

theorem pathOf_cons_ne_nil {c:Bytes} (hc:c≠[]) (cs:List Bytes) : pathOf (c::cs)≠[]:=by
  intro h
  unfold pathOf at h
  cases cs with
  | nil=>exact hc (by simpa using h)
  | cons c' cs=>simp [intercalate,intersperse] at h

theorem pathOf_append {cs:List Bytes} (hcs:cs≠[]) (name:Bytes) :
    pathOf (cs++[name]) = pathOf cs++byte '/' :: name:=by
  induction cs with
  | nil=>exact absurd rfl hcs
  | cons c cs ih=>
    cases cs with
    | nil=>simp [pathOf,intercalate,intersperse]
    | cons c' cs=>
      have hrest:=ih (by simp)
      simp only [pathOf,intercalate,cons_append,intersperse, flatten_cons] at hrest ⊢
      rw [hrest]
      simp

theorem validName_ne_nil {name:Bytes} (h:validName name=true) : name≠[]:=by
  rintro rfl
  simp [validName] at h

theorem validName_no_slash {name:Bytes} (h:validName name=true) : byte '/' ∉ name:=by
  intro hmem
  have hcontains : name.contains (byte '/') = true:=contains_iff_mem.mpr hmem
  simp only [validName,hcontains] at h
  simp at h

theorem path_member {bs:List Bytes} (hbs:∀b∈bs,validName b=true) (name:Bytes) :
    (if pathOf bs = [] then name else pathOf bs++byte '/' :: name) = pathOf (bs++[name]):=by
  cases bs with
  | nil=>simp [pathOf,intercalate]
  | cons b bs=>
    have hb : b≠[]:=validName_ne_nil (hbs b mem_cons_self)
    rw [if_neg (pathOf_cons_ne_nil hb bs),pathOf_append (by simp)]

theorem pathParts_pathOf {cs:List Bytes} (hne:cs≠[]) (hcs:∀c∈cs,validName c=true) :
    pathParts (pathOf cs)=cs:=by
  have hsplit : (pathOf cs).splitOn (byte '/') = cs:=by
    apply splitOn_intercalate
    · intro c hc
      exact validName_no_slash (hcs c hc)
    · exact hne
  unfold pathParts
  dsimp only
  rw [hsplit,if_neg]
  intro hlast
  exact validName_ne_nil (hcs [] (mem_of_getLast? hlast)) rfl

/-- The entry is a file whose bytes lie in the archive. -/
def AsarEntry.packed (e : AsarEntry) : Bool := e.kind == .file && !e.unpacked

def rangesOf (entries : List AsarEntry) : List (ℕ×ℕ) :=
  (entries.filter fun e => e.packed && e.size != 0).map fun e => (e.offset,e.size)

theorem rangesOf_append (l l':List AsarEntry) : rangesOf (l++l') = rangesOf l++rangesOf l':=by
  rw [rangesOf,filter_append,map_append,rangesOf,rangesOf]

/-- What a part of the walk adds below the components `bs`: entries with the rest of their
components. -/
structure Adds (size : ℕ) (bs : List Bytes) (w w' : WalkState)
    (new : List (List Bytes×AsarEntry)) : Prop where
  entries : w'.info.entries = w.info.entries ++ new.map Prod.snd
  names : ∀ x∈new, x.1≠[] ∧ ∀ name∈x.1, validName name = true
  paths : ∀ x∈new, x.2.path=pathOf (bs++x.1)
  distinct : (new.map Prod.fst).Nodup
  ranges : w'.ranges=w.ranges++rangesOf (new.map Prod.snd)
  inside : ∀ x∈new, x.2.packed=true → w.info.dataOffset+x.2.offset+x.2.size ≤ size
  dataOffset : w'.info.dataOffset=w.info.dataOffset

section
variable {size : ℕ} {bs : List Bytes} {w w₁ w' : WalkState}

theorem Adds.nil (w:WalkState) : Adds size bs w w []:=by
  refine ⟨by simp,by simp,by simp,by simp,?_,by simp,rfl⟩
  simp [rangesOf]

theorem Adds.append {new new':List (List Bytes×AsarEntry)} (h:Adds size bs w w₁ new)
    (h':Adds size bs w₁ w' new')
    (hdisjoint:∀x∈new,∀y∈new',x.1≠y.1) : Adds size bs w w' (new++new'):=by
  refine ⟨?_,?_,?_,?_,?_,?_,h'.dataOffset.trans h.dataOffset⟩
  · rw [h'.entries,h.entries,map_append,append_assoc]
  · intro x hx
    rcases mem_append.mp hx with hx | hx
    · exact h.names x hx
    · exact h'.names x hx
  · intro x hx
    rcases mem_append.mp hx with hx | hx
    · exact h.paths x hx
    · exact h'.paths x hx
  · rw [map_append,nodup_append]
    refine ⟨h.distinct,h'.distinct,?_⟩
    intro a ha c hc
    obtain ⟨x,hx,rfl⟩:=mem_map.mp ha
    obtain ⟨y,hy,rfl⟩:=mem_map.mp hc
    exact hdisjoint x hx y hy
  · rw [h'.ranges,h.ranges,map_append,rangesOf_append,append_assoc]
  · intro x hx hpacked
    rcases mem_append.mp hx with hx | hx
    · exact h.inside x hx hpacked
    · rw [← h.dataOffset]
      exact h'.inside x hx hpacked

variable {name : Bytes}

/-- What is added below a directory, seen from above it. -/
theorem Adds.below {new:List (List Bytes×AsarEntry)} (h:Adds size (bs++[name]) w w' new)
    (hname:validName name=true) :
    Adds size bs w w' (new.map fun x=>(name::x.1,x.2)):=by
  have hsnd : (new.map fun x=>(name::x.1,x.2)).map Prod.snd = new.map Prod.snd:=by
    rw [map_map]
    rfl
  refine ⟨by rw [hsnd];exact h.entries,?_,?_,?_,by rw [hsnd];exact h.ranges,?_,
    h.dataOffset⟩
  · intro x hx
    obtain ⟨y,hy,rfl⟩:=mem_map.mp hx
    refine ⟨by simp,?_⟩
    intro n hn
    rcases mem_cons.mp hn with rfl | hn
    · exact hname
    · exact (h.names y hy).2 n hn
  · intro x hx
    obtain ⟨y,hy,rfl⟩:=mem_map.mp hx
    rw [h.paths y hy,append_assoc,singleton_append]
  · have hfst : (new.map fun x=>(name::x.1,x.2)).map Prod.fst =
        (new.map Prod.fst).map (name :: ·):=by
      rw [map_map,map_map]
      rfl
    rw [hfst]
    exact h.distinct.map fun _ _ heq=>(List.cons.inj heq).2
  · intro x hx hpacked
    obtain ⟨y,hy,rfl⟩:=mem_map.mp hx
    exact h.inside y hy hpacked

variable {e : AsarEntry}

theorem adds_push (hname:validName name=true) (hpath:e.path=pathOf (bs++[name]))
    (hpacked:e.packed=false) (hentries:w'.info.entries=w.info.entries++[e])
    (hranges:w'.ranges=w.ranges) (hdata:w'.info.dataOffset=w.info.dataOffset) :
    Adds size bs w w' [([name],e)]:=by
  refine ⟨by simpa using hentries,by simpa using hname,by simpa using hpath,by simp,?_,?_,
    hdata⟩
  · rw [hranges]
    simp [rangesOf,hpacked]
  · intro x hx hp
    rw [mem_singleton.mp hx,hpacked] at hp
    cases hp

variable {o : List (Bytes×J)}

theorem adds_walkLink {link:J} (hname:validName name=true)
    (h:w.walkLink o (pathOf (bs++[name])) link=.ok w') :
    ∃e,Adds size bs w w' [([name],e)]:=by
  unfold WalkState.walkLink at h
  split at h
  · cases h
  · split at h
    · cases h
    · rw [bind_eq_ok] at h
      obtain ⟨unpacked,-,h⟩:=h
      cases h
      exact ⟨_,adds_push hname rfl rfl rfl rfl rfl⟩

theorem adds_walkDirectory (hname:validName name=true)
    (h:w.walkDirectory o (pathOf (bs++[name]))=.ok w') :
    ∃e,Adds size bs w w' [([name],e)]:=by
  unfold WalkState.walkDirectory at h
  rw [bind_eq_ok] at h
  obtain ⟨unpacked,-,h⟩:=h
  cases h
  exact ⟨_,adds_push hname rfl rfl rfl rfl rfl⟩

theorem parseIntegrity_same {v:Option J} {e':AsarEntry} (h:parseIntegrity v e=.ok e') :
    e'.path=e.path ∧ e'.kind=e.kind ∧ e'.unpacked=e.unpacked ∧ e'.size=e.size:=by
  unfold parseIntegrity at h
  split at h
  · cases h
    exact ⟨rfl,rfl,rfl,rfl⟩
  · split at h
    · split at h
      · cases h
      · split at h
        · cases h
        · split at h
          · split at h
            · cases h
              exact ⟨rfl,rfl,rfl,rfl⟩
            · cases h
          · cases h
    · cases h
  · cases h

theorem walkPacked_inside {e':AsarEntry} (h:w.walkPacked size o e=.ok (w',e')) :
    w.info.dataOffset + e'.offset + e'.size ≤ size ∧ e'.path=e.path ∧ e'.kind=e.kind ∧
      e'.unpacked=e.unpacked ∧ w'.info.entries=w.info.entries ∧
      w'.info.dataOffset=w.info.dataOffset ∧
      w'.ranges = if e'.size≠0 then w.ranges++[(e'.offset,e'.size)] else w.ranges:=by
  unfold WalkState.walkPacked at h
  split at h
  · cases h
  · split at h
    · cases h
    · rename_i hrange
      cases h
      exact ⟨by dsimp only;omega,rfl,rfl,rfl,rfl,rfl,rfl⟩

theorem adds_walkFile (hname:validName name=true)
    (h:w.walkFile size o (pathOf (bs++[name]))=.ok w') :
    ∃e,Adds size bs w w' [([name],e)]:=by
  unfold WalkState.walkFile at h
  split at h
  · cases h
  rw [bind_eq_ok] at h
  obtain ⟨flags,-,h⟩:=h
  split at h
  · cases h
  rename_i e he
  obtain ⟨hpath,hkind,-,-⟩:=parseIntegrity_same he
  dsimp only at hpath hkind h
  generalize hw₀ : (if e.integrityAlgorithm ≠ [] then
    {w with info:={w.info with integrityCount:=w.info.integrityCount+1}} else w)=w₀ at h
  have hsame : w₀.info.entries=w.info.entries ∧ w₀.ranges=w.ranges ∧
      w₀.info.dataOffset=w.info.dataOffset:=by
    rw [← hw₀]
    split <;> exact ⟨rfl,rfl,rfl⟩
  obtain ⟨hentries,hranges,hdata⟩:=hsame
  split at h
  · rename_i hunpacked
    cases h
    refine ⟨e,adds_push hname hpath ?_ ?_ hranges hdata⟩
    · simp [AsarEntry.packed,hunpacked]
    · simp [WalkState.push,hentries]
  · rename_i hunpacked
    rw [bind_eq_ok] at h
    obtain ⟨⟨w₁,e₁⟩,h₁,h⟩:=h
    cases h
    obtain ⟨hinside,hpath₁,hkind₁,hunpacked₁,hentries₁,hdata₁,hranges₁⟩:=walkPacked_inside h₁
    have hpacked : e₁.packed=true:=by
      simp [AsarEntry.packed,hkind₁,hkind,hunpacked₁,hunpacked]
    refine ⟨e₁,?_,by simpa using hname,by simpa using hpath₁.trans hpath,by simp,?_,?_,
      hdata₁.trans hdata⟩
    · simp [WalkState.push,hentries₁,hentries]
    · change w₁.ranges = _
      rw [hranges₁,hranges]
      by_cases hsize : e₁.size=0
      · simp [rangesOf,hsize]
      · simp [rangesOf,hsize,hpacked]
    · intro x hx _
      rw [mem_singleton.mp hx,← hdata]
      exact hinside

def AddsUnder (size : ℕ) (bs : List Bytes) (w w' : WalkState) (keys : List Bytes) : Prop :=
  ∃ new, Adds size bs w w' new ∧ ∀ x∈new, ∃ k∈keys, x.1.head? = some k

theorem adds_walk (size:ℕ) : (∀(files:J) (base:Bytes) (w:WalkState) (bs:List Bytes) (w':WalkState),
      WellKeyed files → base=pathOf bs → (∀b∈bs,validName b=true) →
      walkFiles size files base w=.ok w' → ∃new,Adds size bs w w' new) ∧
    (∀(o:List (Bytes×J)) (base:Bytes) (w:WalkState) (bs:List Bytes) (w':WalkState),
      (o.map Prod.fst).Nodup → (∀kv∈o,WellKeyed kv.2) → base=pathOf bs →
      (∀b∈bs,validName b=true) →
      walkMembers size o base w=.ok w' → AddsUnder size bs w w' (o.map Prod.fst)) ∧
    (∀(name:Bytes) (v:J) (base:Bytes) (w:WalkState) (bs:List Bytes) (w':WalkState),
      WellKeyed v → base=pathOf bs → (∀b∈bs,validName b=true) →
      walkMember size name v base w=.ok w' → AddsUnder size bs w w' [name]) ∧
    (∀(o:List (Bytes×J)) (path:Bytes) (w:WalkState) (bs:List Bytes) (w':WalkState),
      (∀kv∈o,WellKeyed kv.2) → path=pathOf bs → (∀b∈bs,validName b=true) →
      walkChildren size o path w=.ok w' → ∃new,Adds size bs w w' new):=by
  apply walkFiles.mutual_induct
  case case1=>
    intro base w o ih bs w' hkeyed hbase hbs h
    rw [walkFiles] at h
    obtain ⟨new,hnew,-⟩:=ih bs w' hkeyed.keys (fun kv hkv=>hkeyed.member hkv) hbase hbs h
    exact ⟨new,hnew⟩
  case case2=>
    intro t base w hno bs w' _ _ _ h
    rw [walkFiles] at h
    · cases h
    · exact hno
  case case3=>
    intro t name base w hinvalid bs w' _ _ _ h
    unfold walkMember at h
    rw [if_pos hinvalid] at h
    cases h
  case case4=>
    intro name base w hvalid o link hlink bs w' _ hbase hbs h
    have hname : validName name=true:=by simpa using hvalid
    rw [walkMember,if_neg hvalid] at h
    simp only [hlink] at h
    rw [hbase,path_member hbs] at h
    obtain ⟨e,he⟩:=@adds_walkLink size _ _ _ _ _ _ hname h
    exact ⟨_,he,by simp⟩
  case case5=>
    intro name base w hvalid o path hlink hfiles ih bs w' hkeyed hbase hbs h
    have hname : validName name=true:=by simpa using hvalid
    have hpath : path=pathOf (bs++[name]):=by
      rw [← path_member hbs,← hbase]
    rw [walkMember,if_neg hvalid] at h
    simp only [hlink,hfiles,if_true] at h
    rw [bind_eq_ok] at h
    obtain ⟨w₁,hdir,h⟩:=h
    change w.walkDirectory o path = _ at hdir
    rw [hpath] at hdir
    obtain ⟨e,he⟩:=@adds_walkDirectory size _ _ _ _ _ hname hdir
    obtain ⟨new,hnew⟩:=ih w₁ (bs++[name]) w' (fun kv hkv=>hkeyed.member hkv) hpath
      (by
        intro b hb
        rcases mem_append.mp hb with hb | hb
        · exact hbs b hb
        · rw [mem_singleton.mp hb]
          exact hname) h
    refine ⟨_,he.append (hnew.below hname) ?_,?_⟩
    · intro x hx y hy heq
      obtain ⟨z,hz,rfl⟩:=mem_map.mp hy
      rw [mem_singleton.mp hx] at heq
      exact (hnew.names z hz).1 (List.cons.inj heq).2.symm
    · intro x hx
      refine ⟨name,mem_singleton_self _,?_⟩
      rcases mem_append.mp hx with hx | hx
      · rw [mem_singleton.mp hx]
        rfl
      · obtain ⟨z,hz,rfl⟩:=mem_map.mp hx
        rfl
  case case6=>
    intro name base w hvalid o hlink hfiles bs w' _ hbase hbs h
    have hname : validName name=true:=by simpa using hvalid
    rw [walkMember,if_neg hvalid] at h
    simp only [hlink,hfiles] at h
    rw [hbase,path_member hbs] at h
    obtain ⟨e,he⟩:=adds_walkFile hname h
    exact ⟨_,he,by simp⟩
  case case7=>
    intro t name base w hvalid hno bs w' _ _ _ h
    rw [walkMember,if_neg hvalid] at h
    · cases h
    · exact hno
  case case8=>
    intro base w bs w' _ _ _ _ h
    rw [walkMembers] at h
    cases h
    exact ⟨[],Adds.nil w,by simp⟩
  case case9=>
    intro base w name v rest ihmember ihrest bs w' hkeys hkeyed hbase hbs h
    rw [walkMembers,bind_eq_ok] at h
    obtain ⟨w₁,hmember,h⟩:=h
    rw [map_cons,nodup_cons] at hkeys
    obtain ⟨new,hnew,hhead⟩:=ihmember bs w₁ (hkeyed (name,v) mem_cons_self) hbase hbs hmember
    obtain ⟨new',hnew',hhead'⟩:=ihrest w₁ bs w' hkeys.2
      (fun kv hkv=>hkeyed kv (mem_cons_of_mem _ hkv)) hbase hbs h
    refine ⟨new++new',hnew.append hnew' ?_,?_⟩
    · intro x hx y hy heq
      obtain ⟨k,hk,hxk⟩:=hhead x hx
      obtain ⟨k',hk',hyk⟩:=hhead' y hy
      rw [heq,hyk,Option.some.injEq] at hxk
      rw [mem_singleton.mp hk] at hxk
      exact hkeys.1 (hxk▸hk')
    · intro x hx
      rcases mem_append.mp hx with hx | hx
      · obtain ⟨k,hk,hxk⟩:=hhead x hx
        rw [mem_singleton.mp hk] at hxk
        exact ⟨name,mem_cons_self,hxk⟩
      · obtain ⟨k,hk,hxk⟩:=hhead' x hx
        exact ⟨k,mem_cons_of_mem _ hk,hxk⟩
  case case10=>
    intro path w bs w' _ _ _ h
    rw [walkChildren] at h
    cases h
    exact ⟨[],Adds.nil w⟩
  case case11=>
    intro path w v rest ih bs w' hkeyed hbase hbs h
    rw [walkChildren,if_pos rfl] at h
    exact ih bs w' (hkeyed _ mem_cons_self) hbase hbs h
  case case12=>
    intro path w name v rest hne ih bs w' hkeyed hbase hbs h
    rw [walkChildren,if_neg hne] at h
    exact ih bs w' (fun kv hkv=>hkeyed kv (mem_cons_of_mem _ hkv)) hbase hbs h

end

end AutoRefirst.Asar
