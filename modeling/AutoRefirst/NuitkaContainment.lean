import AutoRefirst.ArchivePaths
import AutoRefirst.NuitkaExtraction

/-!
# Where onefile entries are written to

The parser refuses `..` and NULs in a name, and the extractor takes one slash away from its
front. What is left of a second slash, or of a drive, replaces the output directory.
-/

namespace AutoRefirst.Nuitka
open ExtractRun PathStyle List

def Admitted (d : Bytes) (e : NuitkaEntry) : Prop :=
  safeName e.name = true ∧ e.dataOffset+e.size≤d.length

theorem skipCrc_le {d:Bytes} {crc:Bool} {p q:ℕ} (hp:p≤d.length)
    (h:skipCrc d crc p=some q) : q≤d.length:=by
  unfold skipCrc at h
  split at h
  · split at h
    · cases h
    · cases h
      omega
  · cases h
    exact hp

theorem parseEntries_admitted {d:Bytes} {win flags crc:Bool} {count p:ℕ}
    {r:ParsedArchive} (h:∀e∈r.entries,Admitted d e) :
    ∀e∈(parseEntries d win flags crc count p r).entries,Admitted d e:=by
  induction count generalizing p r with
  | zero=>exact h
  | succ count ih=>
    rw [parseEntries]
    split
    · exact h
    · split
      · exact h
      split
      · exact h
      rename_i name _ _ hname
      split
      · exact h
      split
      · exact h
      rename_i hsize
      dsimp only
      split
      · exact h
      rename_i q hcrc
      split
      · exact h
      rename_i hdata
      have hq:=skipCrc_le (by omega) hcrc
      apply ih
      intro e he
      rcases mem_append.mp he with he | he
      · exact h e he
      · rw [mem_singleton.mp he]
        refine ⟨by simpa using hname,?_⟩
        dsimp only
        omega

theorem parseArchive_admitted (d:Bytes) (win flags crc:Bool) :
    ∀e∈(parseArchive d win flags crc).entries,Admitted d e:=
  parseEntries_admitted (by simp)

variable {s : Bytes}

theorem not_infix_of_contains {part:Bytes} (h:contains s part=false) : ¬part <:+: s:=by
  intro hwithin
  rw [contains_of_within hwithin] at h
  cases h

theorem contains_false {part:Bytes} (h:¬part <:+: s) : contains s part=false:=by
  rw [contains,any_eq_false]
  intro t ht hprefix
  apply h
  have hp : part <+: t:= isPrefixOf_iff_prefix.mp hprefix
  exact hp.isInfix.trans ((mem_tails _ _).mp ht).isInfix

theorem replaceUp_eq (h:¬bytes ".." <:+: s) : replaceUp s=s:=by
  induction s with
  | nil=>rfl
  | cons a s ih=>
    rcases s with _ | ⟨b,_ | ⟨c,s⟩⟩
    · rfl
    · rfl
    · rw [replaceUp,if_neg]
      · rw [ih]
        intro hwithin
        exact h (hwithin.trans (suffix_cons a _).isInfix)
      · rintro ⟨rfl,rfl,rfl⟩
        exact h ⟨[],byte '/' :: s,rfl⟩

/-- Backslashes are no dots, and become none. -/
theorem infix_up_of_map (h:bytes ".." <:+: s.map fun c=>if c = byte '\\' then byte '/' else c) :
    bytes ".." <:+: s:=by
  have hdot : ∀c : UInt8,(if c = byte '\\' then byte '/' else c) = byte '.' → c=byte '.' := by
    intro c hc
    split at hc
    · exact absurd hc (by decide)
    · exact hc
  obtain ⟨part,hpart,heq⟩:=infix_map_iff.mp h
  have hself : part=bytes ".." := by
    apply ext_getElem
    · rw [← length_map (f:=fun c=>if c = byte '\\' then byte '/' else c),← heq]
    · intro k hk hk'
      have hone : ∀x∈bytes "..", x=byte '.' := by decide +kernel
      rw [hone _ (getElem_mem hk')]
      apply hdot
      have hget:=hone _ (getElem_mem hk')
      simp only [heq,getElem_map] at hget
      exact hget
  exact hself▸hpart

theorem dropSlash_suffix (s:Bytes) : dropSlash s <:+ s:=by
  unfold dropSlash
  split
  · split
    · exact suffix_cons _ _
    · exact suffix_refl _
  · exact suffix_refl _

/-- What the parser and the sanitizer together guarantee of a name. -/
structure Rewritten (n : Bytes) : Prop where
  up : contains n (bytes "..") = false
  backslash : byte '\\' ∉ n
  nul : 0 ∉ n

theorem rewritten_sanitize {name:Bytes} (h:safeName name=true) : Rewritten (sanitize name):=by
  simp only [safeName,Bool.and_eq_true,Bool.not_eq_true'] at h
  obtain ⟨⟨⟨-,hup⟩,hnul⟩,-⟩:=h
  have hno : ¬bytes ".." <:+: name.map fun c=>if c = byte '\\' then byte '/' else c:=
    fun hmap=>not_infix_of_contains hup (infix_up_of_map hmap)
  have hsuffix:=dropSlash_suffix (name.map fun c=>if c = byte '\\' then byte '/' else c)
  rw [sanitize,replaceUp_eq hno]
  refine ⟨contains_false fun hwithin=>hno (hwithin.trans hsuffix.isInfix),?_,?_⟩
  · intro hmem
    obtain ⟨c,-,hc⟩:=mem_map.mp (hsuffix.subset hmem)
    split at hc
    · exact absurd hc (by decide)
    · rename_i hne
      exact hne hc
  · intro hmem
    obtain ⟨c,hcmem,hc⟩:=mem_map.mp (hsuffix.subset hmem)
    split at hc
    · exact absurd hc (by decide)
    · subst hc
      have hcontains : name.contains 0=true:=contains_iff_mem.mpr hcmem
      rw [hcontains] at hnul
      cases hnul

variable {n : Bytes}

theorem Rewritten.cName (h:Rewritten n) : cName n=n:=by
  unfold AutoRefirst.cName
  rw [takeWhile_eq_self_iff]
  intro c hc
  have hne : c≠0:=fun heq=>h.nul (heq▸hc)
  simpa using hne

def StrictlyBelow (style : PathStyle) (out p : Bytes) : Prop :=
  ∃ rel : DiskPath, located style p = located style out ++ rel ∧ rel≠[] ∧
    ∀ c∈rel, c≠bytes ".."

/-- A name with no slash in front, under Windows with no drive either, that names something. -/
def Stays (style : PathStyle) (n : Bytes) : Prop :=
  n.head?.any (isSep posix) = false ∧ (style=windows → hasDrive n = false) ∧
    names style n ≠ []

instance (style : PathStyle) (n : Bytes) : Decidable (Stays style n) :=
  inferInstanceAs (Decidable (_ ∧ _ ∧ _))

theorem relative_of_stays {style:PathStyle} (hn:Rewritten n)
    (hhead:n.head?.any (isSep posix)=false) (hdrive:style=windows → hasDrive n=false) :
    Relative style n:=by
  cases style with
  | posix=>exact relative_posix hhead
  | windows=>exact relative_of_plain (head_windows hn.backslash hhead) (hdrive rfl)

theorem located_stays {style:PathStyle} {out:Bytes} (hout:Directory style out)
    (hn:Rewritten n) (hrelative:Relative style n) :
    located style (append style out n) = located style out++names style n:=by
  have hcut : Relative style (cName n):=hn.cName.symm▸hrelative
  rw [located_append hout hrelative hcut hn.up,hn.cName]

theorem not_below_of_root {style:PathStyle} {rel:Bytes} {tail:DiskPath} (hn:0 ∉ n)
    (hroot:hasRootDirectory style n=true ∨ rootName style n≠[])
    (hrel:hasRootDirectory style rel=false ∧ rootName style rel=[]) (hnul:0 ∉ rel) :
    located style n ≠ located style rel++tail:=by
  intro heq
  have hheads:=congrArg head? heq
  rw [located_eq hn,located_eq hnul,head?_append,resolve,resolve,head?_cons,
    head?_cons,hrel.1,hrel.2] at hheads
  simp only [Bool.false_eq_true,if_false,Option.some_or,Option.some.injEq] at hheads
  split at hheads
  · simp at hheads
  · rename_i hdir
    rcases hroot with hdir' | hname
    · exact hdir hdir'
    · exact hname hheads

theorem append_rooted {style:PathStyle}
    (h:n.head?.any (isSep posix)=true ∨ (style=windows ∧ hasDrive n=true)) :
    append style (bytes "out") n=n ∧
      (hasRootDirectory style n=true ∨ rootName style n≠[]):=by
  have hdriveName : ∀ {m:Bytes},hasDrive m=true → rootName windows m≠[]:=by
    intro m hm
    cases m with
    | nil=>cases hm
    | cons c m=>simp [rootName,hm]
  cases style with
  | posix=>
    rcases h with h | ⟨h,-⟩
    · have hdir : hasRootDirectory posix n=true:=h
      refine ⟨?_,.inl hdir⟩
      unfold append
      rw [if_pos]
      exact .inl hdir
    · cases h
  | windows=>
    by_cases hname : rootName windows n=[]
    · have hhead : n.head?.any (isSep posix)=true:=by
        rcases h with h | ⟨-,h⟩
        · exact h
        · exact absurd hname (hdriveName h)
      have hafter : afterRoot windows n=n:=by
        rw [afterRoot,hname]
        rfl
      have hdir : hasRootDirectory windows n=true:=by
        rw [hasRootDirectory,hafter]
        cases n with
        | nil=>cases hhead
        | cons c n=>
          have hc : c=byte '/' := by simpa [isSep] using hhead
          subst hc
          rfl
      refine ⟨?_,.inl hdir⟩
      unfold append
      split
      · rfl
      · rw [hafter]
        rfl
    · refine ⟨?_,.inr hname⟩
      unfold append
      rw [if_pos]
      exact .inr ⟨hname,hname⟩

theorem below_iff_stays {style:PathStyle} (hn:Rewritten n) :
    (∀out,Directory style out → StrictlyBelow style out (append style out n)) ↔
      Stays style n:=by
  have hout : Directory style (bytes "out"):=by
    constructor
    · cases style <;> rfl
    · decide
  have hplain : hasRootDirectory style (bytes "out") = false ∧
      rootName style (bytes "out") = []:=by
    cases style <;> exact ⟨rfl,rfl⟩
  constructor
  · intro hall
    obtain ⟨rel,hrel,hne,-⟩:=hall (bytes "out") hout
    have hnot : ¬(n.head?.any (isSep posix)=true ∨ (style=windows ∧ hasDrive n=true)):=by
      intro hrooted
      obtain ⟨happend,hroot⟩:=append_rooted hrooted
      rw [happend] at hrel
      exact not_below_of_root hn.nul hroot hplain hout.2 hrel
    have hhead : n.head?.any (isSep posix)=false:=by
      simpa using fun h=>hnot (.inl h)
    have hdrive : style=windows → hasDrive n=false:=by
      intro hstyle
      simpa using fun h=>hnot (.inr ⟨hstyle,h⟩)
    refine ⟨hhead,hdrive,?_⟩
    rw [located_stays hout hn (relative_of_stays hn hhead hdrive), append_cancel_left_eq] at hrel
    rw [hrel]
    exact hne
  · rintro ⟨hhead,hdrive,hnames⟩ out hdir
    refine ⟨names style n,located_stays hdir hn (relative_of_stays hn hhead hdrive),hnames,?_⟩
    intro c hc
    rw [← hn.cName] at hc
    exact names_no_up hn.up c hc

section
variable {σ : Type} {zstd : Bytes→Option Bytes} {D : OutputDisk σ} {style : PathStyle}
  {d payload out : Bytes} {i : NuitkaInfo} {coreOnly : Bool} {maxBytes maxFiles : ℕ}

theorem bounded_put (t:ExtractRun σ) (p content:Bytes) (h:Bounded maxBytes maxFiles t) :
    Bounded maxBytes maxFiles (put D style maxBytes maxFiles t p content):=by
  unfold put
  split
  · rename_i hfits
    exact h.write p content hfits
  · exact h.omitEntry content.length

theorem bounded_putBlock (t:ExtractRun σ) (b:NuitkaConstantBlock×Option Bytes)
    (h:Bounded maxBytes maxFiles t) :
    Bounded maxBytes maxFiles (putBlock D style d out coreOnly maxBytes maxFiles t b):=by
  unfold putBlock
  split
  · exact h
  dsimp only
  have hfirst : Bounded maxBytes maxFiles (if coreOnly = true then t else
      put D style maxBytes maxFiles t
        (style.append out (blockSafeName b.1.name++bytes ".nuitka-const.bin"))
        ((d.drop b.1.dataOffset).take b.1.size)):=by
    split
    · exact h
    · exact bounded_put t _ _ h
  split
  · exact bounded_put _ _ _ hfirst
  · exact hfirst

theorem bounded_putEntry (t:ExtractRun σ) (e:NuitkaEntry) (h:Bounded maxBytes maxFiles t) :
    Bounded maxBytes maxFiles (putEntry D style payload out maxBytes maxFiles t e):=by
  unfold putEntry
  split
  · exact bounded_put t _ _ h
  · exact h

variable {t : ExtractRun σ}

theorem bounded_putEntries (l:List NuitkaEntry) (h:Bounded maxBytes maxFiles t) :
    Bounded maxBytes maxFiles (putEntries D style payload out maxBytes maxFiles l t).2:=by
  induction l generalizing t with
  | nil=>exact h
  | cons e l ih=>
    rw [putEntries]
    split
    · exact h
    · exact ih (bounded_putEntry t e h)

theorem bounded_fail (message:String) (h:Bounded maxBytes maxFiles t) :
    Bounded maxBytes maxFiles (fail t message):=⟨h.files,h.bytes,h.counted⟩

theorem bounded_finish (message:String) (h:Bounded maxBytes maxFiles t) :
    Bounded maxBytes maxFiles (finish t message):=⟨h.files,h.bytes,h.counted⟩

theorem bounded_conclude {r:Bool×ExtractRun σ} (h:Bounded maxBytes maxFiles r.2) :
    Bounded maxBytes maxFiles (conclude coreOnly r):=by
  unfold conclude
  split
  · exact bounded_finish _ h
  · exact bounded_fail _ h

/-- No run goes over a budget. -/
theorem bounded_extractNuitka (s:σ) : Bounded maxBytes maxFiles
      (extractNuitka zstd D style d i out coreOnly maxBytes maxFiles s):=by
  have hstart : ∀s' : σ,Bounded maxBytes maxFiles
      {disk:=s',result:={coreOnly,outputDir:=out}}:=
    fun _=>⟨Nat.zero_le _,Nat.zero_le _,rfl⟩
  unfold extractNuitka
  dsimp only
  split
  · exact bounded_fail _ (hstart s)
  split
  · exact bounded_fail _ (hstart _)
  split
  · exact bounded_finish _ (foldl_keeps bounded_putBlock (blocksOf i) (hstart _))
  split
  · exact bounded_fail _ (hstart _)
  split
  · exact bounded_fail _ (hstart _)
  · exact bounded_conclude (bounded_putEntries _ (hstart _))

def named (e : NuitkaEntry) : Bool := sanitize e.name ≠ []

theorem putEntries_eq (l:List NuitkaEntry) (t:ExtractRun σ)
    (h:∀e∈l,e.dataOffset+e.size≤payload.length) :
    putEntries D style payload out maxBytes maxFiles l t =
      (true,l.foldl (putEntry D style payload out maxBytes maxFiles) t):=by
  induction l generalizing t with
  | nil=>rfl
  | cons e l ih=>
    have he:=h e mem_cons_self
    rw [putEntries,if_neg (by omega),ih _ fun x hx=>h x (mem_cons_of_mem _ hx)]
    rfl

theorem largest_mem {l:List NuitkaEntry} {e:NuitkaEntry} (h:largest l=some e) : e∈l:=by
  cases l with
  | nil=>cases h
  | cons e₀ l=>
    cases h
    induction l generalizing e₀ with
    | nil=>exact mem_singleton_self _
    | cons x l ih=>
      rw [foldl_cons]
      split
      · exact mem_cons_of_mem _ (ih x)
      · rcases mem_cons.mp (ih e₀) with heq | hmem
        · rw [heq]
          exact mem_cons_self
        · exact mem_cons_of_mem _ (mem_cons_of_mem _ hmem)

theorem selected_perm (payload:Bytes) (i:NuitkaInfo) (coreOnly:Bool) :
    ∃l,List.Sublist l i.entries ∧ (selected payload i coreOnly).Perm l:=by
  unfold selected
  split
  · refine ⟨_,?_,perm_insertionSort _ _⟩
    split
    · cases hlargest : largest i.entries with
      | none=>exact nil_sublist _
      | some e=>exact singleton_sublist.mpr (largest_mem hlargest)
    · exact filter_sublist
  · exact ⟨i.entries,List.Sublist.refl _,List.Perm.refl _⟩

theorem effect_put (t:ExtractRun σ) (e:NuitkaEntry) :
    Effect D style (target style out) (entryBytes payload) e t
      (put D style maxBytes maxFiles t (target style out e) (entryBytes payload e)):=by
  unfold put
  split
  · exact effect_write D style (target style out) (entryBytes payload) t e _
  · exact .skipped rfl rfl fun _ _=>rfl

theorem extractNuitka_files (honefile:i.onefile=true) (hpayload:payloadOf zstd d i=some payload)
    (hbounds:∀e∈i.entries,e.dataOffset+e.size≤payload.length) (s:σ) :
    ∃l l' : List NuitkaEntry,List.Sublist l (i.entries.filter named) ∧ l'.Perm l ∧
      (extractNuitka zstd D style d i out coreOnly maxBytes maxFiles s).result.files =
        l'.map (target style out):=by
  obtain ⟨l,hsub,hperm⟩:=selected_perm payload i coreOnly
  have hselected : ∀e∈selected payload i coreOnly,
      e.dataOffset + e.size ≤ payload.length:=by
    intro e he
    exact hbounds e (hsub.subset (hperm.subset he))
  have hnone : ∃l l' : List NuitkaEntry,List.Sublist l (i.entries.filter named) ∧ l'.Perm l ∧
      ([] : List Bytes)=l'.map (target style out):=
    ⟨[],[],nil_sublist _,List.Perm.refl _,rfl⟩
  unfold extractNuitka
  dsimp only
  split
  · exact hnone
  split
  · exact hnone
  rw [honefile,hpayload]
  simp only [Bool.not_true,Bool.false_eq_true,false_and,if_false]
  rw [putEntries_eq _ _ hselected,conclude,if_pos rfl]
  change ∃l l',_ ∧ _ ∧ ((selected payload i coreOnly).foldl
    (putEntry D style payload out maxBytes maxFiles) _).result.files=_
  have hfilter : ∀t : ExtractRun σ,(selected payload i coreOnly).foldl
      (putEntry D style payload out maxBytes maxFiles) t =
      ((selected payload i coreOnly).filter named).foldl (fun t e=>
        put D style maxBytes maxFiles t (target style out e) (entryBytes payload e)) t:=by
    intro t
    rw [foldl_filter]
    unfold putEntry named
    simp only [decide_eq_true_eq]
  rw [hfilter]
  obtain ⟨l',hsub',hfiles,-⟩:=@run_files _ _ _ _ _ _
    (fun t e=>put D style maxBytes maxFiles t (target style out e) (entryBytes payload e))
    effect_put ((selected payload i coreOnly).filter named)
    { disk:=(D.createDirectories s (located style out)).2,result:={coreOnly,outputDir:=out} }
  obtain ⟨l'',hperm'',hsub''⟩:=exists_perm_sublist hsub' (hperm.filter named)
  refine ⟨l'',l',hsub''.trans (hsub.filter _),hperm''.symm,?_⟩
  rw [hfiles]
  rfl

end

section
variable {zstd : Bytes→Option Bytes} {style : PathStyle} {d payload out : Bytes}
  {i : NuitkaInfo}

/-- On a disk where everything succeeds, within a budget for all, every named entry is written. -/
theorem memory_files (hvalid:i.valid=true) (honefile:i.onefile=true)
    (hpayload:payloadOf zstd d i=some payload)
    (hbounds:∀e∈i.entries,e.dataOffset+e.size≤payload.length) :
    ∃maxBytes maxFiles,(extractNuitka zstd (OutputDisk.memory fun _=>none) style d i out false
      maxBytes maxFiles fun _=>none).result.files =
        (i.entries.filter named).map (target style out):=by
  refine ⟨(i.entries.map fun e=>(entryBytes payload e).length).sum,i.entries.length,?_⟩
  have hkeep : ∀(t:ExtractRun (DiskPath → Option Bytes)),∀e∈i.entries,named e=true →
      t.fits (i.entries.map fun e=>(entryBytes payload e).length).sum i.entries.length
        (entryBytes payload e).length=true →
      putEntry (OutputDisk.memory fun _=>none) style payload out
          (i.entries.map fun e=>(entryBytes payload e).length).sum i.entries.length t e =
        t.write (OutputDisk.memory fun _=>none) style (target style out e)
          (entryBytes payload e) (entryBytes payload e).length:=by
    intro t e _ hname hfits
    rw [putEntry,if_pos (by simpa [named] using hname),put,if_pos hfits]
  have hskip : ∀(t:ExtractRun (DiskPath → Option Bytes)),∀e∈i.entries,named e=false →
      putEntry (OutputDisk.memory fun _=>none) style payload out
          (i.entries.map fun e=>(entryBytes payload e).length).sum i.entries.length t e = t:=by
    intro t e _ hname
    rw [putEntry,if_neg (by simpa [named] using hname)]
  obtain ⟨hfiles,-,-⟩:=memory_run i.entries
    {disk:=fun _=>none,result:={outputDir:=out}} hkeep hskip (by simp) (by simp) rfl
  unfold extractNuitka
  dsimp only
  rw [hvalid,honefile,hpayload]
  simp only [Bool.not_true,Bool.false_eq_true,false_and,if_false]
  change (conclude false (putEntries _ style payload out _ _ i.entries _)).result.files=_
  rw [putEntries_eq _ _ hbounds,conclude,if_pos rfl]
  exact hfiles

end

/-- What is asked of the files of every run with a payload: they are strictly below the output
directory, and no two are one. -/
def KeepsPaths (zstd : Bytes→Option Bytes) (style : PathStyle) (d : Bytes) (i : NuitkaInfo) :
    Prop :=
  ∀ (out : Bytes), Directory style out →
    ∀ (σ : Type) (D : OutputDisk σ) (coreOnly : Bool) (maxBytes maxFiles : ℕ) (s : σ),
      (∀ p ∈ (extractNuitka zstd D style d i out coreOnly maxBytes maxFiles s).result.files,
        StrictlyBelow style out p) ∧
      ((extractNuitka zstd D style d i out coreOnly maxBytes maxFiles s).result.files.map
        (located style)).Nodup

def writtenNames (style : PathStyle) (i : NuitkaInfo) : List DiskPath :=
  (i.entries.filter named).map fun e => names style (sanitize e.name)

theorem below_of_stays {style:PathStyle} {out:Bytes} {e:NuitkaEntry}
    (hout:Directory style out) (hname:safeName e.name=true)
    (hstays:Stays style (sanitize e.name)) :
    StrictlyBelow style out (target style out e) ∧ located style (target style out e) =
        located style out++names style (sanitize e.name):=by
  have hn:=rewritten_sanitize hname
  exact ⟨(below_iff_stays hn).mpr hstays out hout,
    located_stays hout hn (relative_of_stays hn hstays.1 hstays.2.1)⟩

/-- No run goes over a budget, and the files of an accepted payload keep their paths exactly when
every rewritten name stays below and no two of them are the same. -/
theorem nuitka_onefile_contained (zstd : Bytes→Option Bytes) (d payload : Bytes)
    (i : NuitkaInfo) (win flags crc : Bool) (hvalid : i.valid=true)
    (honefile : i.onefile=true) (hpayload : payloadOf zstd d i=some payload)
    (hentries : i.entries=(parseArchive payload win flags crc).entries) :
    (∀ (σ : Type) (D : OutputDisk σ) (style : PathStyle) (out : Bytes) (coreOnly : Bool)
      (maxBytes maxFiles : ℕ) (s : σ), Bounded maxBytes maxFiles
        (extractNuitka zstd D style d i out coreOnly maxBytes maxFiles s)) ∧
    ∀ style : PathStyle, KeepsPaths zstd style d i ↔
      (∀ e∈i.entries, sanitize e.name≠[] → Stays style (sanitize e.name)) ∧
        (writtenNames style i).Nodup := by
  have hadmitted : ∀e∈i.entries,Admitted payload e:=by
    rw [hentries]
    exact parseArchive_admitted payload win flags crc
  have hbounds : ∀e∈i.entries,e.dataOffset+e.size≤payload.length:=fun e he=>(hadmitted e he).2
  have hnamed : ∀e∈i.entries.filter named,e∈i.entries ∧ sanitize e.name≠[]:=by
    intro e he
    obtain ⟨hmem,hname⟩:=mem_filter.mp he
    exact ⟨hmem,by simpa [named] using hname⟩
  refine ⟨fun σ D style out coreOnly maxBytes maxFiles s=>bounded_extractNuitka s,?_⟩
  intro style
  constructor
  · intro hall
    have hstays : ∀e∈i.entries,sanitize e.name≠[] → Stays style (sanitize e.name):=by
      intro e he hne
      apply (below_iff_stays (rewritten_sanitize (hadmitted e he).1)).mp
      intro out hout
      obtain ⟨maxBytes,maxFiles,hfiles⟩:=@memory_files _ style _ _ out _ hvalid
        honefile hpayload hbounds
      apply (hall out hout _ (OutputDisk.memory fun _=>none) false maxBytes maxFiles
        fun _=>none).1
      rw [hfiles]
      exact mem_map_of_mem (mem_filter.mpr ⟨he,by simpa [named] using hne⟩)
    refine ⟨hstays,?_⟩
    have hout : Directory style (bytes "out"):=by
      constructor
      · cases style <;> rfl
      · decide
    obtain ⟨maxBytes,maxFiles,hfiles⟩:=@memory_files _ style _ _ (bytes "out") _
      hvalid honefile hpayload hbounds
    have hnodup:=(hall (bytes "out") hout _ (OutputDisk.memory fun _=>none) false maxBytes
      maxFiles fun _=>none).2
    rw [hfiles,map_map] at hnodup
    have hplaces : (i.entries.filter named).map (located style ∘ target style (bytes "out")) =
        (writtenNames style i).map (located style (bytes "out") ++ ·):=by
      rw [writtenNames,map_map]
      apply map_congr_left
      intro e he
      obtain ⟨hmem,hne⟩:=hnamed e he
      exact (below_of_stays hout (hadmitted e hmem).1 (hstays e hmem hne)).2
    rw [hplaces] at hnodup
    exact hnodup.of_map _
  · rintro ⟨hstays,hnodup⟩ out hout σ D coreOnly maxBytes maxFiles s
    obtain ⟨l,l',hsub,hperm,hfiles⟩:=@extractNuitka_files _ _ D style _ _
      out _ coreOnly maxBytes maxFiles honefile hpayload hbounds s
    have hplace : ∀e∈l',StrictlyBelow style out (target style out e) ∧
        located style (target style out e) =
          located style out++names style (sanitize e.name):=by
      intro e he
      obtain ⟨hmem,hne⟩:=hnamed e (hsub.subset (hperm.subset he))
      exact below_of_stays hout (hadmitted e hmem).1 (hstays e hmem hne)
    rw [hfiles]
    constructor
    · intro p hp
      obtain ⟨e,he,rfl⟩:=mem_map.mp hp
      exact (hplace e he).1
    · have hplaces : (l'.map (target style out)).map (located style) =
          (l'.map fun e=>names style (sanitize e.name)).map (located style out ++ ·):=by
        rw [map_map,map_map]
        exact map_congr_left fun e he=>(hplace e he).2
      rw [hplaces]
      have hdistinct : (l'.map fun e=>names style (sanitize e.name)).Nodup:=
        ((hperm.map _).nodup_iff).mpr (hnodup.sublist (hsub.map _))
      exact hdistinct.map fun _ _ heq=>append_cancel_left heq

/-- A payload of files of one byte, without flags or checksums. -/
def oneByteFiles (ns : List Bytes) : Bytes :=
  (ns.flatMap fun n => n++[0,1,0,0,0,0,0,0,0]++bytes "p") ++ [0]

def oneByteInfo (ns : List Bytes) : NuitkaInfo where
  valid := true
  onefile := true
  entries := (parseArchive (oneByteFiles ns) false false false).entries

theorem plain_names_kept :
    KeepsPaths (fun _=>none) posix (bytes "KAX"++oneByteFiles [bytes "x",bytes "a/y"])
      (oneByteInfo [bytes "x",bytes "a/y"]):=by
  have h:=nuitka_onefile_contained (fun _=>none)
    (bytes "KAX"++oneByteFiles [bytes "x",bytes "a/y"])
    (oneByteFiles [bytes "x",bytes "a/y"]) (oneByteInfo [bytes "x",bytes "a/y"])
    false false false rfl rfl rfl rfl
  apply (h.2 posix).mpr
  exact ⟨by decide +kernel,by decide +kernel⟩

/-- Of two slashes in front one is left, and the file is written from the root on. -/
theorem two_slashes_escape :
    (parseArchive (oneByteFiles [bytes "//x"]) false false false).ok = true ∧
      (extractNuitka (fun _=>none) (OutputDisk.memory fun _=>none) posix
        (bytes "KAX"++oneByteFiles [bytes "//x"]) (oneByteInfo [bytes "//x"]) (bytes "out")
        false 10 10 fun _=>none).result.files = [bytes "/x"] ∧
      ¬StrictlyBelow posix (bytes "out") (bytes "/x"):=by
  refine ⟨by decide +kernel,by decide +kernel,?_⟩
  rintro ⟨rel,hrel,-⟩
  have hplace : located posix (bytes "/x") = [bytes "/",bytes "x"]:=by decide +kernel
  have hout : located posix (bytes "out") = [[],bytes "out"]:=by decide +kernel
  rw [hplace,hout] at hrel
  exact absurd (List.cons.inj hrel).1 (by decide)

end AutoRefirst.Nuitka
