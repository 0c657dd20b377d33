import AutoRefirst.DotNetBundle

/-!
# What extraction of a bundle leaves

Every member is listed with its bytes or counted as omitted, within the budgets, and nothing is
written outside the output directory.
-/

namespace AutoRefirst.DotNetBundle
open List

open ByteRanges PathStyle

variable {σ : Type} {D : StreamTree σ} {style : PathStyle} {data output_dir : Bytes}
variable {max_output_bytes max_output_files : ℕ} {t t' : BundleRun σ} {e : DotNetBundleEntry}

theorem component_safe_content (s:σ) (current:Bytes) (parts:List Bytes) (q:DiskPath) :
    D.content (bundle_path_component_safe D style s current parts).2 q=D.content s q:=by
  induction parts generalizing s current with
  | nil=>rfl
  | cons part parts ih=>
    rw [bundle_path_component_safe]
    dsimp only
    split
    · rfl
    · rfl
    · exact ih _ _
    · rfl
    · split
      · exact D.createDirectory_content _ _ _
      · exact (ih _ _).trans (D.createDirectory_content _ _ _)

variable (D style data output_dir max_output_bytes max_output_files)

/-- What a turn does about its entry: it is omitted, and its file is as it was or was removed; or
it is listed, and its file has its bytes. -/
inductive Turn (e : DotNetBundleEntry) (t t' : BundleRun σ) : Prop
  | omitted (files : t'.out.files=t.out.files) (count : t'.out.file_count=t.out.file_count)
      (bytes : t'.out.output_bytes=t.out.output_bytes)
      (omits : t'.out.omitted_count=t.out.omitted_count+1)
      (others : ∀ q, q ≠ place style output_dir e → D.content t'.disk q = D.content t.disk q)
      (here : D.content t'.disk (place style output_dir e) =
          D.content t.disk (place style output_dir e) ∨
        ∃ s, D.content t'.disk (place style output_dir e) =
          D.content (D.remove s (place style output_dir e)).2 (place style output_dir e))
  | listed (files : t'.out.files=t.out.files++[target style output_dir e])
      (count : t'.out.file_count=t.out.file_count+1)
      (bytes : t'.out.output_bytes = Word64.satAdd t.out.output_bytes e.size)
      (omits : t'.out.omitted_count=t.out.omitted_count)
      (plain : e.compressed=false)
      (fits : t.out.file_count < max_output_files ∧
        e.size ≤ max_output_bytes-t.out.output_bytes)
      (here : D.content t'.disk (place style output_dir e) = some (slice data (e.offset,e.size)))
      (others : ∀ q, q ≠ place style output_dir e → D.content t'.disk q = D.content t.disk q)

variable {D style data output_dir max_output_bytes max_output_files}

theorem note_bundle_warning_out (t:BundleRun σ) (text:String) :
    (note_bundle_warning t text).disk=t.disk ∧ (note_bundle_warning t text).out.files=t.out.files ∧
      (note_bundle_warning t text).out.file_count=t.out.file_count ∧
      (note_bundle_warning t text).out.output_bytes=t.out.output_bytes ∧
      (note_bundle_warning t text).out.omitted_count=t.out.omitted_count:=by
  rw [note_bundle_warning]
  split <;> exact ⟨rfl,rfl,rfl,rfl,rfl⟩

theorem Turn.refuse {r:BundleRun σ} {disk:σ} {text:String}
    (files:r.out.files=t.out.files) (count:r.out.file_count=t.out.file_count)
    (bytes:r.out.output_bytes=t.out.output_bytes)
    (omits:r.out.omitted_count=t.out.omitted_count)
    (others:∀q,q≠place style output_dir e → D.content disk q=D.content t.disk q)
    (here:D.content disk (place style output_dir e) = D.content t.disk (place style output_dir e) ∨
      ∃s,D.content disk (place style output_dir e) =
        D.content (D.remove s (place style output_dir e)).2 (place style output_dir e)) :
    Turn D style data output_dir max_output_bytes max_output_files e t
      (DotNetBundle.refuse r disk text e.size):=by
  obtain ⟨hdisk,hfiles,hcount,hbytes,homits⟩:=note_bundle_warning_out {r with disk} text
  have hdisk' : (DotNetBundle.refuse r disk text e.size).disk=disk:=hdisk
  refine .omitted (hfiles.trans files) (hcount.trans count) (hbytes.trans bytes)
    (congrArg (· + 1) (homits.trans omits)) ?_ ?_
  · rw [hdisk']
    exact others
  · rw [hdisk']
    exact here

theorem write_member_turn (hplain:e.compressed=false)
    (hfits:t.out.file_count < max_output_files ∧ e.size ≤ max_output_bytes-t.out.output_bytes)
    {r:BundleRun σ} (hout:r.out=t.out)
    (hdisk:∀q,D.content r.disk q=D.content t.disk q) :
    Turn D style data output_dir max_output_bytes max_output_files e t
      (write_member D style data output_dir r e):=by
  rw [write_member]
  dsimp only
  set p:=place style output_dir e with hp
  have hcreated : ∀q,q≠p → D.content (D.create r.disk p).2 q=D.content t.disk q:=
    fun q hq=>(D.create_other r.disk p q hq).1.trans (hdisk q)
  split
  · rename_i hopened
    have hsame : ∀q,D.content (D.create r.disk p).2 q=D.content t.disk q:=
      fun q=>(D.create_fails r.disk p q hopened).trans (hdisk q)
    exact .refuse (by rw [hout]) (by rw [hout]) (by rw [hout]) (by rw [hout]) (fun q _=>hsame q)
      (.inl (hsame p))
  · rename_i hopened
    set wrote:=D.write (D.create r.disk p).2 p (slice data (e.offset,e.size)) with hwrote
    have hwritten : ∀q,q≠p → D.content wrote.2 q=D.content t.disk q:=
      fun q hq=>(D.write_other _ p _ q hq).1.trans (hcreated q hq)
    set flushed:=if wrote.1 = true then D.flush wrote.2 p else wrote with hflushed
    have hflush : ∀q,q≠p → D.content flushed.2 q=D.content t.disk q:=by
      intro q hq
      rw [hflushed]
      split
      · exact (D.flush_other _ _ _ hq).trans (hwritten q hq)
      · exact hwritten q hq
    have hclosed : ∀q,q≠p → D.content (D.close flushed.2 p).2 q=D.content t.disk q:=
      fun q hq=>(D.close_other _ _ _ hq).1.trans (hflush q hq)
    have hremoved : ∀text,Turn D style data output_dir max_output_bytes max_output_files e t
        (DotNetBundle.refuse r (D.remove (D.close flushed.2 p).2 p).2 text e.size):=fun text=>
      .refuse (by rw [hout]) (by rw [hout]) (by rw [hout]) (by rw [hout])
        (fun q hq=>(D.remove_other _ _ _ hq).trans (hclosed q hq)) (.inr ⟨_,rfl⟩)
    split
    · exact hremoved _
    · rename_i hgood
      split
      · exact hremoved _
      · refine .listed (by rw [hout]) (by rw [hout]) (by rw [hout]) (by rw [hout]) hplain hfits ?_
          hclosed
        -- the write and the flush both went well
        have hwroteOk : wrote.1=true:=by
          by_contra hbad
          rw [hflushed,if_neg hbad] at hgood
          exact hgood (Bool.eq_false_iff.mpr hbad)
        rw [hflushed,if_pos hwroteOk] at hgood
        obtain ⟨hcontent,hgiven⟩:=D.flush_content _ _ (Bool.eq_true_of_not_eq_false hgood)
        have hall : D.given wrote.2 p=slice data (e.offset,e.size):=by
          rw [hwrote,D.write_given _ _ _ hwroteOk,
            D.create_given _ _ (Bool.eq_true_of_not_eq_false hopened)]
          rfl
        dsimp only
        rw [hflushed,if_pos hwroteOk,D.close_flushed _ _ (by rw [hcontent,hgiven]),hgiven,hall]

theorem extract_entry_turn (t:BundleRun σ) (e:DotNetBundleEntry) :
    Turn D style data output_dir max_output_bytes max_output_files e t
      (extract_entry D style data output_dir max_output_bytes max_output_files t e):=by
  have hhere : ∀ {r:BundleRun σ} {disk:σ} (text:String),r.out.files=t.out.files →
      r.out.file_count=t.out.file_count → r.out.output_bytes=t.out.output_bytes →
      r.out.omitted_count=t.out.omitted_count →
      (∀q,D.content disk q=D.content t.disk q) →
      Turn D style data output_dir max_output_bytes max_output_files e t
        (DotNetBundle.refuse r disk text e.size):=
    fun text files count bytes omits hsame=>
      .refuse files count bytes omits (fun q _=>hsame q) (.inl (hsame _))
  rw [extract_entry]
  split
  · exact hhere _ rfl rfl rfl rfl fun _=>rfl
  split
  · exact hhere _ rfl rfl rfl rfl fun _=>rfl
  split
  · exact .omitted rfl rfl rfl rfl (fun _ _=>rfl) (.inl rfl)
  split
  · exact hhere _ rfl rfl rfl rfl fun _=>rfl
  rename_i hplain hfits _
  have hway : ∀q,D.content (bundle_path_component_safe D style t.disk output_dir
      (names style e.relative_path).dropLast).2 q = D.content t.disk q:=
    component_safe_content _ _ _
  dsimp only
  split
  · exact hhere _ rfl rfl rfl rfl hway
  split
  · exact hhere _ rfl rfl rfl rfl hway
  split
  · exact hhere _ rfl rfl rfl rfl hway
  split
  · exact hhere _ rfl rfl rfl rfl hway
  · exact write_member_turn (by simpa using hplain) (by omega) rfl hway

variable {n m : Bytes}

theorem SafeRelative.components_eq (h:SafeRelative n) (style:PathStyle) :
    components style n = n.splitOnP fun c=>c == byte '/' := by
  refine splitOnP_congr fun c hc=>?_
  have hplain:=(h.bytes_ok c hc).2.1
  cases style with
  | posix=>rfl
  | windows=>simp [isSep,hplain]

theorem SafeRelative.names_eq (h:SafeRelative n) (style:PathStyle) :
    names style n = n.splitOnP fun c=>c == byte '/' := by
  rw [names,h.components_eq style,filter_eq_self]
  intro part hpart
  obtain ⟨hne,hdot,-⟩:=h.parts part hpart
  simp [isName,hne,hdot]

theorem SafeRelative.relative (h:SafeRelative n) (style:PathStyle) : Relative style n:=by
  refine relative_of_plain ?_ ?_
  · cases n with
    | nil=>rfl
    | cons c n=>
      have hplain:=(h.bytes_ok c mem_cons_self).2.1
      have hhead : c≠byte '/' := fun heq=>h.relative_head (by rw [heq];rfl)
      simp [isSep,hplain,hhead]
  · exact no_drive fun hmem=>(h.bytes_ok _ hmem).2.2 rfl

/-- A member goes where its path says, name by name. -/
theorem SafeRelative.located_append (h:SafeRelative n) (hout:Directory style output_dir) :
    located style (append style output_dir n) =
      located style output_dir++n.splitOnP fun c=>c == byte '/' := by
  have hsep : preferredSep style≠0:=by cases style <;> decide
  have hzero : 0 ∉ append style output_dir n:=by
    rw [(h.relative style).append_eq style hout.1]
    intro hmem
    rcases mem_append.mp hmem with hmem | hmem
    · exact hout.2 hmem
    · rcases mem_cons.mp hmem with heq | hmem
      · exact hsep heq.symm
      · exact (h.bytes_ok 0 hmem).1 rfl
  have hup : bytes ".." ∉ components style n:=by
    rw [h.components_eq style]
    exact fun hmem=>(h.parts _ hmem).2.2 rfl
  rw [located_eq hzero,resolve_append style hout.1 (h.relative style) hup,h.names_eq style,
    located_eq hout.2]

theorem SafeRelative.inside (h:SafeRelative n) (hout:Directory style output_dir) :
    StrictlyInside (located style output_dir) (located style (append style output_dir n)):=by
  refine ⟨_,?_,h.located_append hout,h.parts⟩
  exact splitOnP_ne_nil _ _

theorem SafeRelative.place_injective (hn:SafeRelative n) (hm:SafeRelative m)
    (hout:Directory style output_dir)
    (h:located style (append style output_dir n)=located style (append style output_dir m)) :
    n=m:=by
  rw [hn.located_append hout,hm.located_append hout] at h
  have hparts : n.splitOn (byte '/') = m.splitOn (byte '/'):=append_cancel_left h
  calc n = [byte '/'].intercalate (n.splitOn (byte '/')):=(intercalate_splitOn _).symm
    _ = [byte '/'].intercalate (m.splitOn (byte '/')):=by rw [hparts]
    _=m:=intercalate_splitOn _

variable (D style data output_dir max_output_bytes max_output_files)

/-- What the loop over `l`, from the disk `s`, leaves when it listed `written`. -/
structure Written (s : σ) (l : List DotNetBundleEntry) (t : BundleRun σ)
    (written : List DotNetBundleEntry) : Prop where
  sub : List.Sublist written l
  files : t.out.files=written.map (target style output_dir)
  count : t.out.file_count=written.length
  bytes : t.out.output_bytes=(written.map (·.size)).sum
  files_le : t.out.file_count ≤ max_output_files
  bytes_le : t.out.output_bytes ≤ max_output_bytes
  accounted : t.out.file_count+t.out.omitted_count=l.length
  contents : ∀ e∈written, e.compressed=false ∧
    D.content t.disk (place style output_dir e) = some (slice data (e.offset,e.size))
  others : ∀ q, (∀ e∈l, q ≠ place style output_dir e) → D.content t.disk q = D.content s q
  /-- Where removing leaves nothing, a member that is not listed left nothing new. -/
  unlisted : (∀ s p, D.Removes s p) → ∀ e∈l, e ∉ written →
    D.content t.disk (place style output_dir e) = D.content s (place style output_dir e) ∨
      D.content t.disk (place style output_dir e) = none

variable {D style data output_dir max_output_bytes max_output_files}

theorem Written.next {s:σ} {l written:List DotNetBundleEntry}
    (h:Written D style data output_dir max_output_bytes max_output_files s l t written)
    (hlimit:max_output_bytes<2^64)
    (hown:∀x∈l,place style output_dir x≠place style output_dir e)
    (hturn:Turn D style data output_dir max_output_bytes max_output_files e t t') :
    ∃written',Written D style data output_dir max_output_bytes max_output_files s (l++[e]) t'
      written':=by
  have hhere : D.content t.disk (place style output_dir e) =
      D.content s (place style output_dir e):=h.others _ fun x hx heq=>hown x hx heq.symm
  have hbytesLe:=h.bytes_le
  have hcount:=h.count
  have haccounted:=h.accounted
  cases hturn with
  | omitted files count bytes omits others here=>
    refine ⟨written,?_⟩
    constructor
    case sub=>exact h.sub.trans (sublist_append_left l [e])
    case files=>rw [files,h.files]
    case count=>rw [count,h.count]
    case bytes=>rw [bytes,h.bytes]
    case files_le=>exact count▸h.files_le
    case bytes_le=>exact bytes▸h.bytes_le
    case accounted=>
      rw [count,omits,length_append,length_singleton]
      omega
    case contents=>
      intro x hx
      rw [others _ (hown x (h.sub.subset hx))]
      exact h.contents x hx
    case others=>
      intro q hq
      rw [others q (hq e (by simp))]
      exact h.others q fun x hx=>hq x (mem_append_left _ hx)
    case unlisted=>
      intro hremoves x hx hnot
      rcases mem_append.mp hx with hold | hlast
      · rw [others _ (hown x hold)]
        exact h.unlisted hremoves x hold hnot
      · rw [mem_singleton.mp hlast]
        rcases here with hsame | ⟨u,hremoved⟩
        · exact .inl (hsame.trans hhere)
        · exact .inr (hremoved.trans (hremoves u _))
  | listed files count bytes omits plain fits here others=>
    refine ⟨written++[e],?_⟩
    have hsum : t'.out.output_bytes=t.out.output_bytes+e.size:=by
      rw [bytes,Word64.satAdd,if_neg]
      simp only [Word64.maxValue]
      omega
    constructor
    case sub=>exact h.sub.append (List.Sublist.refl _)
    case files=>rw [files,h.files,map_append,map_singleton]
    case count=>rw [count,h.count,length_append,length_singleton]
    case bytes=>simp [hsum,h.bytes]
    case files_le=>omega
    case bytes_le=>omega
    case accounted=>
      rw [count,omits,length_append,length_singleton]
      omega
    case contents=>
      intro x hx
      rcases mem_append.mp hx with hold | hlast
      · rw [others _ (hown x (h.sub.subset hold))]
        exact h.contents x hold
      · rw [mem_singleton.mp hlast]
        exact ⟨plain,here⟩
    case others=>
      intro q hq
      rw [others q (hq e (by simp))]
      exact h.others q fun x hx=>hq x (mem_append_left _ hx)
    case unlisted=>
      intro hremoves x hx hnot
      rcases mem_append.mp hx with hold | hlast
      · rw [others _ (hown x hold)]
        exact h.unlisted hremoves x hold fun hmem=>hnot (mem_append_left _ hmem)
      · exact absurd (mem_append_right _ hlast) hnot

/-- The loop from an empty report. -/
theorem extract_written {s:σ} {l:List DotNetBundleEntry} {start:BundleRun σ}
    (hlimit:max_output_bytes<2^64) (hown:(l.map (place style output_dir)).Nodup)
    (hdisk:start.disk=s) (hfiles:start.out.files=[]) (hcount:start.out.file_count=0)
    (hbytes:start.out.output_bytes=0) (homits:start.out.omitted_count=0) :
    ∃written,Written D style data output_dir max_output_bytes max_output_files s l
      (l.foldl (extract_entry D style data output_dir max_output_bytes max_output_files) start)
      written:=by
  induction l using List.reverseRecOn with
  | nil=>
    refine ⟨[],?_⟩
    constructor <;> simp [hfiles,hcount,hbytes,homits,hdisk]
  | append_singleton l e ih=>
    rw [map_append,nodup_append] at hown
    obtain ⟨hl,-,hdisjoint⟩:=hown
    obtain ⟨written,hwritten⟩:=ih hl
    rw [foldl_append,foldl_cons,foldl_nil]
    exact hwritten.next hlimit
      (fun x hx=>hdisjoint _ (List.mem_map_of_mem hx) _ (by simp)) (extract_entry_turn _ _)

theorem perm_ordered (info:DotNetBundleInfo) (core_only:Bool) :
    List.Perm (ordered info core_only) info.entries:=by
  rw [ordered]
  split
  · exact perm_insertionSort _ _
  · exact List.Perm.refl _

theorem places_nodup {info:DotNetBundleInfo} (hsound:Sound data info)
    (hout:Directory style output_dir) (core_only:Bool) :
    ((ordered info core_only).map (place style output_dir)).Nodup:=by
  have hperm:=(perm_ordered info core_only).map (place style output_dir)
  rw [hperm.nodup_iff]
  have hentries:=hsound.distinct.of_map
  refine List.Nodup.map_on (fun a ha b hb hab=>?_) hentries
  exact inj_on_of_nodup_map hsound.distinct ha hb
    ((hsound.paths a ha).place_injective (hsound.paths b hb) hout hab)

theorem prepare_output_content (s:σ) (q:DiskPath) :
    D.content (prepare_output D style output_dir s).2 q=D.content s q:=by
  rw [prepare_output]
  split
  · rfl
  · rfl
  · rfl
  · rfl
  · exact D.createDirectories_content _ _ _

theorem finish_success {info:DotNetBundleInfo} (h:(finish info t).out.success=true) :
    (finish info t).out.file_count=info.entries.length:=by
  simp only [finish,Bool.and_eq_true,beq_iff_eq] at h ⊢
  exact h.1.1.1

theorem output_dir_ne_nil (hout:Directory style output_dir) : output_dir≠[]:=by
  rintro rfl
  have hname:=hout.1
  cases style <;> exact absurd hname (by decide)

/-- A bundle that is reported valid is sound. Its members go to places of their own below the
output directory and nothing else is touched; what is listed is within both budgets and has the
stored bytes of its member; when the output directory can be used, every member is listed or
counted as omitted, and otherwise nothing is written and the error is reported. -/
theorem bundle_sound_and_extracted (data : Bytes) (pe_valid elf_valid : Bool)
    (hvalid : (detect_dotnet_bundle data pe_valid elf_valid).valid=true)
    {σ : Type} (D : StreamTree σ) (style : PathStyle) (output_dir : Bytes)
    (hout : Directory style output_dir) (core_only : Bool) (max_output_bytes max_output_files : ℕ)
    (hlimit : max_output_bytes<2^64) (s : σ) :
    let info := detect_dotnet_bundle data pe_valid elf_valid
    let t:=extract_dotnet_bundle D style data info output_dir core_only max_output_bytes
      max_output_files s
    Sound data info ∧
    (∀e∈info.entries,StrictlyInside (located style output_dir) (place style output_dir e)) ∧
    (∀q,(∀e∈info.entries,q≠place style output_dir e) → D.content t.disk q=D.content s q) ∧
    t.out.file_count ≤ max_output_files ∧ t.out.output_bytes ≤ max_output_bytes ∧
    (∃written : List DotNetBundleEntry,written ⊆ info.entries ∧ written.Nodup ∧
      t.out.files=written.map (target style output_dir) ∧
      t.out.file_count=written.length ∧ t.out.output_bytes=(written.map (·.size)).sum ∧
      (∀e∈written,(storedBytes data e).length=e.size ∧
        D.content t.disk (place style output_dir e)=some (storedBytes data e)) ∧
      ((∀s p,D.Removes s p) → ∀e∈info.entries,e ∉ written →
        D.content t.disk (place style output_dir e)=D.content s (place style output_dir e) ∨
          D.content t.disk (place style output_dir e)=none)) ∧
    (t.out.success=true → t.out.file_count=info.entries.length) ∧
    ((prepare_output D style output_dir s).1=none →
      t.out.file_count + t.out.omitted_count = info.entries.length) ∧
    ∀error,(prepare_output D style output_dir s).1=some error →
      t.out.error=error ∧ t.out.success=false ∧ t.out.files=[]:=by
  have hsound:=detect_sound hvalid
  generalize detect_dotnet_bundle data pe_valid elf_valid = info at hvalid hsound
  dsimp only
  rw [extract_dotnet_bundle,if_neg (by simp [hvalid]),if_neg (output_dir_ne_nil hout),
    if_neg hsound.entries]
  refine ⟨hsound,fun e he=>(hsound.paths e he).inside hout,?_⟩
  have hcontent : ∀q,D.content (prepare_output D style output_dir s).2 q=D.content s q:=
    prepare_output_content s
  dsimp only
  cases hroot : (prepare_output D style output_dir s).1 with
  | some error=>
    refine ⟨fun q _=>hcontent q,Nat.zero_le _,Nat.zero_le _,⟨[],by simp,by simp,rfl,rfl,
      rfl,by simp,fun _ e _ _ => .inl (hcontent _)⟩,?_,?_,?_⟩
    · exact fun hsuccess=>absurd hsuccess (by simp)
    · exact fun hnone=>absurd hnone (by simp)
    · intro other hother
      exact ⟨Option.some.inj hother,rfl,rfl⟩
  | none=>
    have hperm:=perm_ordered info core_only
    have hrun : ∃written,Written D style data output_dir max_output_bytes max_output_files
        (prepare_output D style output_dir s).2 (ordered info core_only)
        (extract_all D style data info output_dir core_only max_output_bytes max_output_files
          (prepare_output D style output_dir s).2) written:=
      extract_written hlimit (places_nodup hsound hout core_only) rfl rfl rfl rfl rfl
    obtain ⟨written,hw⟩:=hrun
    refine ⟨fun q hq=>?_,hw.files_le,hw.bytes_le,⟨written,?_,?_,hw.files,hw.count,
      hw.bytes,fun e he=>?_,fun hremoves e he hnot=>?_⟩,finish_success,?_,?_⟩
    · exact (hw.others q fun e he=>hq e (hperm.mem_iff.mp he)).trans (hcontent q)
    · exact fun e he=>hperm.mem_iff.mp (hw.sub.subset he)
    · exact hw.sub.nodup (hperm.nodup_iff.mpr hsound.distinct.of_map)
    · have hmem:=hperm.mem_iff.mp (hw.sub.subset he)
      obtain ⟨hplain,hbytes⟩:=hw.contents e he
      have hstored : e.stored_size=e.size:=by simpa [hplain] using hsound.stored e hmem
      have hbetween:=hsound.between e hmem
      have hinside:=hsound.inside
      refine ⟨(length_slice ?_).trans hstored,hbytes.trans (by rw [storedBytes,hstored])⟩
      dsimp only
      omega
    · have hkept:=hw.unlisted hremoves e (hperm.mem_iff.mpr he) hnot
      rwa [hcontent] at hkept
    · intro _
      exact hw.accounted.trans hperm.length_eq
    · exact fun error herror=>absurd herror (by simp)

def oneMember : Bytes :=
  [41,0,0,0,0,0,0,0] ++ k_bundle_signature ++
  [7,2,0,0,0,0,0,0,0,1,0,0,0,12,65,65,65,65,65,65,65,65,65,65,65,65,0,
    0,0,0,0,0,0,0,0,0,0,0,0,0,0,0,0,0,0,0,0,0,0,0,0,0,0,0,0,0,0,0,
    0,0,0,0,0,0,0,0,40,0,0,0,0,0,0,0,1,0,0,0,0,0,0,0,1,1,97]

def oneFile (p : DiskPath) : MemoryTree :=
  { files := fun q => if q = p then some [] else none,held := fun _ => []
    directories := fun _ => false }

theorem oneMember_extracted : (extract_dotnet_bundle (MemoryTree.stream true) posix oneMember
      (detect_dotnet_bundle oneMember true false) (bytes "out") false 10 10
      (oneFile [])).out.output_bytes ≤ 10 ∧
    Sound oneMember (detect_dotnet_bundle oneMember true false):=by
  have h:=bundle_sound_and_extracted oneMember true false (by decide +kernel)
    (MemoryTree.stream true) posix (bytes "out") ⟨by decide,by decide⟩ false 10 10 (by decide)
    (oneFile [])
  exact ⟨h.2.2.2.2.1,h.1⟩

/-- Where a file stands in the place of the output directory, no member is listed or counted. -/
theorem members_uncounted : ¬∀(data:Bytes) (pe_valid elf_valid:Bool) (σ:Type) (D:StreamTree σ)
      (style:PathStyle) (output_dir:Bytes) (core_only:Bool)
      (max_output_bytes max_output_files:ℕ) (s:σ),
      (detect_dotnet_bundle data pe_valid elf_valid).valid=true →
      let info:=detect_dotnet_bundle data pe_valid elf_valid
      let t:=extract_dotnet_bundle D style data info output_dir core_only max_output_bytes
        max_output_files s
      t.out.file_count + t.out.omitted_count = info.entries.length:=by
  intro hall
  have hone:=hall oneMember true false MemoryTree (MemoryTree.stream true) posix (bytes "out")
    false 10 10 (oneFile (located posix (bytes "out"))) (by decide +kernel)
  exact absurd hone (by decide +kernel)

end AutoRefirst.DotNetBundle
