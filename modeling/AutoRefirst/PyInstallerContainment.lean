import AutoRefirst.ArchivePaths
import AutoRefirst.PyInstaller

/-!
# What an extraction of a PyInstaller archive writes

Every file that is opened has a name of its own below the output directory, and what is listed
stays within the budget.
-/

namespace AutoRefirst.PyInstaller
open List

open ByteRanges PathStyle

variable {style : PathStyle} {dir p c : Bytes} {parts cs : List Bytes}

/-- A byte that no path of either style reads as more than a part of a name. -/
def PlainByte (x : UInt8) : Prop := x≠byte '/' ∧ x≠byte '\\' ∧ x≠byte ':' ∧ x≠0

instance : DecidablePred PlainByte := fun _ => inferInstanceAs (Decidable (_ ∧ _))

structure SafeName (c : Bytes) : Prop where
  ne_nil : c≠[]
  ne_dot : c≠bytes "."
  ne_up : c≠bytes ".."
  plain : ∀ x∈c, PlainByte x
  device : Asar.deviceName c = false

instance : Decidable (SafeName c) :=
  decidable_of_iff (c ≠ [] ∧ c ≠ bytes "." ∧ c ≠ bytes ".." ∧
      (c.all fun x => PlainByte x) = true ∧ Asar.deviceName c = false)
    ⟨fun h => ⟨h.1,h.2.1,h.2.2.1,by simpa using h.2.2.2.1,h.2.2.2.2⟩,
      fun h => ⟨h.ne_nil,h.ne_dot,h.ne_up,by simpa using h.plain,h.device⟩⟩

/-- What may stand behind a name: an extension. -/
structure Extension (suffix : Bytes) : Prop where
  dot : suffix.head? = some (byte '.')
  long : 2<suffix.length
  plain : ∀ x∈suffix, PlainByte x

theorem deviceName_extension {suffix:Bytes} (h:suffix.head? = some (byte '.')) (c:Bytes) :
    Asar.deviceName (c++suffix)=Asar.deviceName c:=by
  obtain ⟨rest,rfl⟩:=head?_eq_some_iff.mp h
  have hcut : (lower (byte '.' :: rest)).takeWhile (· ≠ byte '.') = []:=by
    rw [lower,map_cons,takeWhile_cons,if_neg (by decide)]
  have hstem : (lower (c++byte '.' :: rest)).takeWhile (· ≠ byte '.') =
      (lower c).takeWhile (· ≠ byte '.'):=by
    have hsplit : lower (c++byte '.' :: rest) = lower c++lower (byte '.' :: rest):=by
      rw [lower,map_append]
      rfl
    rw [hsplit,takeWhile_append,hcut,append_nil]
    split
    · rename_i hall
      exact (( takeWhile_prefix _).eq_of_length hall).symm
    · rfl
  rw [Asar.deviceName,hstem,Asar.deviceName]

theorem SafeName.extended (h:SafeName c) {suffix:Bytes} (hs:Extension suffix) :
    SafeName (c++suffix):=by
  have hlen : 2<(c++suffix).length:=by
    have hlong:=hs.long
    rw [length_append]
    omega
  refine ⟨?_,?_,?_,?_,?_⟩
  · rintro heq
    rw [heq] at hlen
    exact absurd hlen (by decide)
  · rintro heq
    rw [heq] at hlen
    exact absurd hlen (by decide)
  · rintro heq
    rw [heq] at hlen
    exact absurd hlen (by decide)
  · intro x hx
    rcases mem_append.mp hx with hold | hnew
    · exact h.plain x hold
    · exact hs.plain x hnew
  · rw [deviceName_extension hs.dot]
    exact h.device

theorem SafeName.no_sep (h:SafeName c) (style:PathStyle) {x:UInt8} (hx:x∈c) :
    isSep style x=false:=by
  obtain ⟨hslash,hback,-⟩:=h.plain x hx
  exact isSep_of_posix (by simp [isSep,hslash,hback])

theorem SafeName.components (h:SafeName c) (style:PathStyle) : components style c=[c]:=
  splitOnP_eq_singleton fun _ hx=>h.no_sep style hx

theorem SafeName.relative (h:SafeName c) (style:PathStyle) : Relative style c:=by
  apply relative_of_plain
  · cases c with
    | nil=>rfl
    | cons x c=>simpa using h.no_sep windows mem_cons_self
  · exact no_drive fun hmem=>(h.plain _ hmem).2.2.1 rfl

structure Below (style : PathStyle) (dir p : Bytes) (parts : List Bytes) : Prop where
  spelled : p=dir++parts.flatMap (preferredSep style :: ·)
  filename : hasFilename style p = true
  nul : 0 ∉ p
  place : resolve style p = resolve style dir ++ parts
  names : ∀ c∈parts, SafeName c

theorem Below.start (h:Directory style dir) : Below style dir dir []:=
  ⟨by simp,h.1,h.2,by simp,by simp⟩

theorem Below.next (h:Below style dir p parts) (hc:SafeName c) :
    Below style dir (append style p c) (parts++[c]):=by
  have hjoin:=(hc.relative style).append_eq style h.filename
  have hup : bytes ".." ∉ PathStyle.components style c:=by
    rw [hc.components]
    exact fun hmem=>hc.ne_up (mem_singleton.mp hmem).symm
  refine ⟨?_,?_,?_,?_,?_⟩
  · rw [hjoin,h.spelled]
    simp
  · rw [hjoin,hasFilename,afterRoot_append style h.filename,getLast?_append_of_ne_nil _
      (by simp),getLast?_cons,getLast?_eq_getLast_of_ne_nil hc.ne_nil]
    simpa using hc.no_sep style (getLast_mem hc.ne_nil)
  · rw [hjoin]
    intro hmem
    rcases mem_append.mp hmem with hp | hin
    · exact h.nul hp
    · rcases mem_cons.mp hin with hsep | hin
      · cases style <;> exact absurd hsep (by decide)
      · exact (hc.plain 0 hin).2.2.2 rfl
  · rw [resolve_append style h.filename (hc.relative style) hup,h.place,PathStyle.names,hc.components]
    simp [isName,hc.ne_nil,hc.ne_dot]
  · intro x hx
    rcases mem_append.mp hx with hold | hlast
    · exact h.names x hold
    · exact mem_singleton.mp hlast▸hc

theorem Below.all (h:Below style dir p parts) (hcs:∀c∈cs,SafeName c) :
    Below style dir (joinAll style p cs) (parts++cs):=by
  induction cs generalizing p parts with
  | nil=>simpa [joinAll] using h
  | cons c cs ih=>
    have hrest:=ih (h.next (hcs c mem_cons_self)) fun x hx=>
      hcs x (mem_cons_of_mem c hx)
    simpa [joinAll] using hrest

theorem Below.suffixed (h:Below style dir p parts) (hcs:∀c∈cs,SafeName c) (hne:cs≠[])
    {suffix:String} (hs:Extension (bytes suffix)) :
    ∃parts',parts'≠[] ∧
      Below style dir (path_with_ascii_suffix (joinAll style p cs) suffix) parts':=by
  obtain ⟨cs,c,rfl⟩:=eq_nil_or_concat cs |>.resolve_left hne
  rw [concat_eq_append] at *
  have hlast : SafeName c:=hcs c (by simp)
  have hc : SafeName (c++bytes suffix):=hlast.extended hs
  have hq : Below style dir (joinAll style p cs) (parts++cs):=h.all fun x hx=>hcs x (by simp [hx])
  have hjoin : path_with_ascii_suffix (joinAll style p (cs++[c])) suffix =
      append style (joinAll style p cs) (c++bytes suffix):=by
    rw [path_with_ascii_suffix,joinAll,foldl_append,foldl_cons,foldl_nil]
    change append style (joinAll style p cs) c++_=_
    rw [(hc.relative style).append_eq style hq.filename,
      (hlast.relative style).append_eq style hq.filename,append_assoc]
    rfl
  rw [hjoin]
  exact ⟨_,by simp,hq.next hc⟩

theorem Below.located_eq (h:Below style dir p parts) (hdir:Directory style dir) :
    located style p = located style dir++parts:=by
  rw [AutoRefirst.located_eq h.nul,AutoRefirst.located_eq hdir.2,h.place]

theorem reserved_eq (c:Bytes) : reserved_windows_component c=Asar.deviceName c:=by
  have hstem : ((lower c).takeWhile fun x=>x != byte '.') =
      (lower c).takeWhile fun x=>decide (x≠byte '.'):=by
    congr 1
    funext x
    by_cases hx : x=byte '.' <;> simp [hx]
  rw [reserved_windows_component,hstem,Asar.deviceName]
  generalize (lower c).takeWhile (fun x=>decide (x≠byte '.')) = stem
  have hany (names:List String) :
      decide (stem∈names.map bytes) = names.any fun name=>stem == bytes name:=by
    induction names with
    | nil=>rfl
    | cons name names ih=>
      rw [any_cons,← ih,map_cons]
      by_cases hname : stem = bytes name <;> simp [hname]
  rw [Asar.deviceStem,hany,Bool.and_or_distrib_left,Bool.and_or_distrib_right,
    Bool.and_or_distrib_right,Bool.or_assoc]

theorem safeName_of_part (h:safe_part c=true) (hslash:byte '/' ∉ c) (hback:byte '\\' ∉ c) :
    SafeName c:=by
  simp only [safe_part,Bool.and_eq_true,Bool.not_eq_true',Bool.or_eq_false_iff,
    beq_eq_false_iff_ne,any_eq_false] at h
  obtain ⟨⟨⟨⟨⟨⟨hnil,hdot⟩,hup⟩,-⟩,-⟩,hbytes⟩,-,hdevice⟩:=h
  refine ⟨hnil,hdot,hup,fun x hx=>⟨?_,?_,?_,?_⟩,reserved_eq c▸hdevice⟩
  · exact fun heq=>hslash (heq▸hx)
  · exact fun heq=>hback (heq▸hx)
  all_goals
    have hx:=hbytes x hx
    simp only [Bool.or_eq_true,beq_iff_eq,not_or] at hx
  · exact hx.1
  · exact hx.2

theorem not_mem_part {P:UInt8→Bool} {s part:Bytes} (h:part∈s.splitOnP P) {x:UInt8}
    (hx:P x=true) : x ∉ part:=by
  induction s generalizing part with
  | nil=>
    rw [splitOnP_nil,mem_singleton] at h
    simp [h]
  | cons y s ih=>
    rw [splitOnP_cons_eq_if_modifyHead] at h
    split at h
    · rcases mem_cons.mp h with rfl | hrest
      · exact not_mem_nil
      · exact ih hrest
    · rename_i hy
      obtain ⟨first,rest,hsplit⟩:=exists_cons_of_ne_nil (splitOnP_ne_nil P s)
      rw [hsplit,modifyHead_cons] at h
      rcases mem_cons.mp h with rfl | hrest
      · intro hmem
        rcases mem_cons.mp hmem with rfl | hin
        · exact hy hx
        · exact ih (by rw [hsplit];exact mem_cons_self) hin
      · exact ih (by rw [hsplit];exact mem_cons_of_mem first hrest)

theorem part_subset {P:UInt8→Bool} {s part:Bytes} (h:part∈s.splitOnP P) : part ⊆ s:=by
  induction s generalizing part with
  | nil=>
    rw [splitOnP_nil,mem_singleton] at h
    simp [h]
  | cons y s ih=>
    rw [splitOnP_cons_eq_if_modifyHead] at h
    split at h
    · rcases mem_cons.mp h with rfl | hrest
      · simp
      · exact fun x hx=>mem_cons_of_mem y (ih hrest hx)
    · obtain ⟨first,rest,hsplit⟩:=exists_cons_of_ne_nil (splitOnP_ne_nil P s)
      rw [hsplit,modifyHead_cons] at h
      rcases mem_cons.mp h with rfl | hrest
      · exact cons_subset_cons y (ih (by rw [hsplit];exact mem_cons_self))
      · have hold:=ih (by rw [hsplit];exact mem_cons_of_mem first hrest)
        exact fun x hx=>mem_cons_of_mem y (hold hx)

theorem safe_relative_path_names {raw:Bytes} (h:safe_relative_path raw=some cs) :
    cs≠[] ∧ ∀c∈cs,SafeName c:=by
  rw [safe_relative_path] at h
  split at h
  · cases h
  · dsimp only at h
    split at h
    · rename_i hall
      obtain rfl:=Option.some.inj h
      refine ⟨splitOnP_ne_nil _ _,fun c hc=>?_⟩
      refine safeName_of_part (all_eq_true.mp hall c hc) (not_mem_part hc (by simp)) ?_
      intro hmem
      obtain ⟨x,-,hx⟩:=mem_map.mp (part_subset hc hmem)
      split at hx
      · exact absurd hx (by decide)
      · rename_i hne
        exact hne hx
    · cases h

variable {σ : Type} {J : Job σ} {D : FileTree σ} {s s₀ : σ} {t t' : PyRun σ} {o : Output}

theorem ensure_content (D:FileTree σ) (s:σ) (p:DiskPath) (text:String) (q:DiskPath) :
    D.content (ensure D s p text).2 q=D.content s q:=by
  have hmade:=D.createDirectory_content s p q
  simp only [ensure]
  split
  · rfl
  · rfl
  · rfl
  all_goals
    split
    · exact hmade
    · split <;> exact hmade

theorem ensureAll_content (D:FileTree σ) (style:PathStyle) (s:σ) (cur:DiskPath)
    (parts:List Bytes) (q:DiskPath) :
    D.content (ensureAll D style s cur parts).2 q=D.content s q:=by
  induction parts generalizing s cur with
  | nil=>rfl
  | cons part rest ih=>
    have hmade:=ensure_content D s (cur++[part]) (path_utf8 style (cur++[part])) q
    rw [ensureAll]
    split
    · exact hmade
    · rw [ih,hmade]

theorem ensure_output_parent_content (D:FileTree σ) (style:PathStyle) (s:σ)
    (root dest:Bytes) (q:DiskPath) :
    D.content (ensure_output_parent D style s root dest).2 q=D.content s q:=by
  rw [ensure_output_parent]
  dsimp only
  split
  · rfl
  · split
    · rfl
    · split
      · exact ensure_content D s _ _ q
      · rw [ensureAll_content,ensure_content]

theorem write_file_safe_other (D:FileTree σ) (s:σ) (root p data:Bytes) {q:DiskPath}
    (hq:q≠located style p) :
    D.content (write_file_safe D style s root p data).2.1 q=D.content s q:=by
  rw [write_file_safe]
  dsimp only
  split
  · exact ensure_output_parent_content D style s root p q
  · rw [← ensure_output_parent_content D style s root p q]
    split
    · rfl
    · split
      · exact (D.create_other _ _ q hq).1
      · rw [(D.close_other _ _ q hq).1,(D.write_other _ _ _ q hq).1,(D.create_other _ _ q hq).1]

theorem write_file_safe_unopened (D:FileTree σ) (s:σ) (root p data:Bytes) (q:DiskPath)
    (h:(write_file_safe D style s root p data).2.2=false) :
    D.content (write_file_safe D style s root p data).2.1 q=D.content s q:=by
  rw [write_file_safe] at h ⊢
  dsimp only at h ⊢
  split
  · exact ensure_output_parent_content D style s root p q
  · rename_i hparent
    rw [hparent] at h
    dsimp only at h
    rw [← ensure_output_parent_content D style s root p q]
    split
    · rfl
    · rename_i hlink
      rw [if_neg hlink] at h
      split at h <;> cases h

theorem write_file_safe_written (D:FileTree σ) (s:σ) (root p data:Bytes)
    (hclose:∀s p,(D.close s p).1=true)
    (h:(write_file_safe D style s root p data).1=none) :
    D.content (write_file_safe D style s root p data).2.1 (located style p)=some data:=by
  rw [write_file_safe] at h ⊢
  dsimp only at h ⊢
  split
  · rename_i hparent
    rw [hparent] at h
    cases h
  · rename_i hparent
    rw [hparent] at h
    dsimp only at h
    split at h
    · cases h
    · rename_i hlink
      rw [if_neg hlink]
      split at h
      · cases h
      · rename_i hmade
        rw [if_neg hmade]
        dsimp only at h ⊢
        split at h
        · rename_i hwrote
          rw [D.close_content _ _ (hclose _ _),D.write_given _ _ _ hwrote,
            D.create_given _ _ (eq_true_of_ne_false hmade),nil_append]
        · cases h

/-- A path that has names below the output directory. -/
def Under (J : Job σ) (p : Bytes) : Prop := ∃ parts, parts≠[] ∧ Below J.style J.dir p parts

/-- The run so far, on a disk that was `s₀`: what is listed is what was written, within the budget,
and every file that was opened has a claimed name of its own. -/
structure Inv (J : Job σ) (s₀ : σ) (t : PyRun σ) : Prop where
  files : t.r.files=(t.opened.filter (·.listed)).map (·.path)
  bytes : t.r.output_bytes=((t.opened.filter (·.listed)).map (·.data.length)).sum
  bytes_le : t.r.output_bytes≤J.max_output_bytes
  files_le : t.r.files.length≤J.max_output_files
  inside : ∀ w∈t.opened, ∃ parts, parts≠[] ∧ Below J.style J.dir w.path parts ∧
    keyOf J parts ∈ t.claimed
  distinct : (t.opened.map fun w => lower w.path).Nodup
  frame : ∀ q, (∀ w∈t.opened, q ≠ located J.style w.path) →
    J.D.content t.disk q = J.D.content s₀ q
  kept : (∀ s p, (J.D.close s p).1=true) → ∀ w∈t.opened, w.listed=true →
    J.D.content t.disk (located J.style w.path) = some w.data

theorem Inv.of_same (h:Inv J s₀ t) (hfiles:t'.r.files=t.r.files)
    (hbytes:t'.r.output_bytes=t.r.output_bytes) (hopened:t'.opened=t.opened)
    (hclaimed:t.claimed ⊆ t'.claimed) (hdisk:t'.disk=t.disk) : Inv J s₀ t':=by
  constructor
  case files=>rw [hfiles,hopened,h.files]
  case bytes=>rw [hbytes,hopened,h.bytes]
  case bytes_le=>exact hbytes▸h.bytes_le
  case files_le=>exact hfiles▸h.files_le
  case inside=>
    intro w hw
    obtain ⟨parts,hne,hb,hkey⟩:=h.inside w (hopened▸hw)
    exact ⟨parts,hne,hb,hclaimed hkey⟩
  case distinct=>exact hopened▸h.distinct
  case frame=>exact hopened▸hdisk▸h.frame
  case kept=>exact hopened▸hdisk▸h.kept

theorem Inv.warn (h:Inv J s₀ t) (text:String) : Inv J s₀ (warn t text):=by
  rw [PyInstaller.warn]
  split
  · exact h.of_same rfl rfl rfl (List.Subset.refl _) rfl
  · exact h

theorem Inv.note_omitted (h:Inv J s₀ t) (n:ℕ) (why:String) :
    Inv J s₀ (note_omitted t n why):=by
  rw [PyInstaller.note_omitted]
  refine Inv.warn ?_ why
  exact h.of_same rfl rfl rfl (List.Subset.refl _) rfl

theorem count_role_same (r:PyInstExtractResult) (role:String) :
    (count_role r role).files=r.files ∧ (count_role r role).output_bytes=r.output_bytes:=by
  rw [count_role]
  split_ifs <;> exact ⟨rfl,rfl⟩

theorem zip_common (l m:List Bytes) :
    (((l++m).zip l).takeWhile fun x=>x.1 == x.2).length = l.length:=by
  induction l with
  | nil=>simp
  | cons c l ih=>simpa using ih

theorem lexicallyRelative_append {base:DiskPath} (hbase:base≠[]) (hparts:parts≠[]) :
    lexicallyRelative (base++parts) base=parts:=by
  obtain ⟨root,l,rfl⟩:=exists_cons_of_ne_nil hbase
  rw [lexicallyRelative,if_neg (by simp)]
  simp only [cons_append,tail_cons,zip_common,drop_length,drop_left]
  simp [hparts]

theorem flatMap_sep (x:UInt8) (hparts:parts≠[]) :
    parts.flatMap (x :: ·)=x::[x].intercalate parts:=by
  induction parts with
  | nil=>exact absurd rfl hparts
  | cons c parts ih=>
    cases parts with
    | nil=>simp [intercalate]
    | cons d parts=>
      rw [flatMap_cons,ih (by simp)]
      simp [intercalate]

/-- The key of a name is the end of its path without case. -/
theorem Below.lower_eq (h:Below J.style J.dir p parts) (hparts:parts≠[]) :
    lower p = lower J.dir++lowerByte (preferredSep J.style)::keyOf J parts:=by
  rw [h.spelled,flatMap_sep _ hparts,keyOf,lower,lower,lower,map_append,map_cons]

theorem relativeOf_eq (hdir:Directory J.style J.dir) (h:Below J.style J.dir p parts)
    (hparts:parts≠[]) : relativeOf J p=parts:=by
  rw [relativeOf,h.located_eq hdir]
  exact lexicallyRelative_append (by simp [located,resolve]) hparts

/-- A file whose name was free has a path and a place that no earlier one has. -/
theorem Inv.fresh (h:Inv J s₀ t) (hdir:Directory J.style J.dir)
    (hb:Below J.style J.dir p parts) (hparts:parts≠[]) (hfree:keyOf J parts ∉ t.claimed) :
    ∀w∈t.opened,lower w.path≠lower p ∧ located J.style w.path≠located J.style p:=by
  intro w hw
  obtain ⟨parts',hne,hw',hkey⟩:=h.inside w hw
  have hkeys : keyOf J parts'≠keyOf J parts:=fun heq=>hfree (heq▸hkey)
  refine ⟨fun heq=>?_,fun heq=>?_⟩
  · rw [hw'.lower_eq hne,hb.lower_eq hparts] at heq
    exact hkeys (List.cons.inj (append_cancel_left heq)).2
  · rw [hw'.located_eq hdir,hb.located_eq hdir] at heq
    exact hkeys (congrArg _ (append_cancel_left heq))

theorem remaining_le {n limit:ℕ} (h:¬n > remaining_bytes t limit)
    (hle:t.r.output_bytes≤limit) : t.r.output_bytes+n≤limit:=by
  rw [remaining_bytes] at h
  split at h <;> omega

theorem write_budgeted_inv (hdir:Directory J.style J.dir) (h:Inv J s₀ t)
    (ho:Under J o.path) : Inv J s₀ (write_budgeted J t o).2:=by
  obtain ⟨parts,hparts,hb⟩:=ho
  rw [write_budgeted,relativeOf_eq hdir hb hparts]
  dsimp only
  rw [if_neg hparts]
  split
  · exact h.warn _
  rename_i hfree
  have hclaim : Inv J s₀ {t with claimed:=t.claimed++[keyOf J parts]}:=
    h.of_same rfl rfl rfl (subset_append_left _ _) rfl
  split
  · exact hclaim.note_omitted _ _
  rename_i hroom
  obtain ⟨hbytes,hfiles⟩:=not_or.mp hroom
  have hfresh:=h.fresh hdir hb hparts hfree
  have hinside : ∀listed,∀w∈t.opened++[(⟨o.path,o.data,listed⟩ : Opened)], ∃parts',parts'≠[] ∧
      Below J.style J.dir w.path parts' ∧ keyOf J parts' ∈ t.claimed++[keyOf J parts]:=by
    intro listed w hw
    rcases mem_append.mp hw with hold | hnew
    · exact hclaim.inside w hold
    · obtain rfl:=mem_singleton.mp hnew
      exact ⟨parts,hparts,hb,mem_append_right _ (mem_singleton_self _)⟩
  have hdistinct : ∀listed,((t.opened++[(⟨o.path,o.data,listed⟩ : Opened)]).map
      fun w=>lower w.path).Nodup:=by
    intro listed
    rw [map_append,nodup_append]
    refine ⟨h.distinct,nodup_singleton _,fun x hx y hy=>?_⟩
    obtain ⟨w,hw,rfl⟩:=mem_map.mp hx
    obtain rfl:=mem_singleton.mp hy
    exact (hfresh w hw).1
  have hframe : ∀listed,∀q,(∀w∈t.opened++[(⟨o.path,o.data,listed⟩ : Opened)],
      q≠located J.style w.path) → J.D.content
        (write_file_safe J.D J.style t.disk J.dir o.path o.data).2.1 q=J.D.content s₀ q:=by
    intro listed q hq
    rw [write_file_safe_other J.D t.disk J.dir o.path o.data
      (hq ⟨o.path,o.data,listed⟩ (mem_append_right _ (mem_singleton_self _)))]
    exact h.frame q fun w hw=>hq w (mem_append_left _ hw)
  have hkept : (∀s p,(J.D.close s p).1=true) → ∀w∈t.opened,w.listed=true → J.D.content
      (write_file_safe J.D J.style t.disk J.dir o.path o.data).2.1 (located J.style w.path) =
        some w.data:=by
    intro hclose w hw hlisted
    rw [write_file_safe_other J.D t.disk J.dir o.path o.data (hfresh w hw).2]
    exact h.kept hclose w hw hlisted
  split
  · refine Inv.warn ?_ _
    split
    · constructor
      case files=>simpa using h.files
      case bytes=>simpa using h.bytes
      case bytes_le=>exact h.bytes_le
      case files_le=>exact h.files_le
      case inside=>exact hinside false
      case distinct=>exact hdistinct false
      case frame=>exact hframe false
      case kept=>
        intro hclose w hw hlisted
        rcases mem_append.mp hw with hold | hnew
        · exact hkept hclose w hold hlisted
        · obtain rfl:=mem_singleton.mp hnew
          cases hlisted
    · rename_i hopen
      constructor
      case files=>exact h.files
      case bytes=>exact h.bytes
      case bytes_le=>exact h.bytes_le
      case files_le=>exact h.files_le
      case inside=>exact hclaim.inside
      case distinct=>exact h.distinct
      case frame=>
        intro q hq
        rw [write_file_safe_unopened J.D t.disk J.dir o.path o.data q (by simpa using hopen)]
        exact h.frame q hq
      case kept=>exact hkept
  · rename_i hwrote
    constructor
    case files=>
      dsimp only
      rw [(count_role_same _ _).1,h.files]
      simp
    case bytes=>
      dsimp only
      rw [(count_role_same _ _).2,h.bytes]
      simp
    case bytes_le=>
      dsimp only
      rw [(count_role_same _ _).2]
      exact remaining_le hbytes h.bytes_le
    case files_le=>
      dsimp only at hfiles ⊢
      rw [(count_role_same _ _).1,length_append,length_singleton]
      omega
    case inside=>exact hinside true
    case distinct=>exact hdistinct true
    case frame=>exact hframe true
    case kept=>
      intro hclose w hw hlisted
      rcases mem_append.mp hw with hold | hnew
      · exact hkept hclose w hold hlisted
      · obtain rfl:=mem_singleton.mp hnew
        exact write_file_safe_written J.D t.disk J.dir o.path o.data hclose hwrote

end AutoRefirst.PyInstaller
