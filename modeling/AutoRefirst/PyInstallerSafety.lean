import AutoRefirst.PyInstallerContainment

/-!
# A whole extraction of a PyInstaller archive

Every step keeps what the extraction has promised so far, and with it every run does.
-/

namespace AutoRefirst.PyInstaller
open List

open ByteRanges PathStyle

variable {σ : Type} {J : Job σ} {s s₀ : σ} {t t' : PyRun σ} {o : Output}
  {parts cs : List Bytes} {base marshal : Bytes} {magic : Option Bytes} {e : PyInstEntry}

/-- A path below the output directory that stays there with an extension. -/
def Stem (J : Job σ) (p : Bytes) : Prop :=
  Under J p ∧ ∀ suffix : String, Extension (bytes suffix) →
    Under J (path_with_ascii_suffix p suffix)

variable {names : List String}

theorem below_names (hdir:Directory J.style J.dir) (hnames:∀n∈names,SafeName (bytes n)) :
    Below J.style J.dir (below J names) (names.map bytes):=by
  refine (Below.start hdir).all fun c hc=>?_
  obtain ⟨n,hn,rfl⟩:=mem_map.mp hc
  exact hnames n hn

theorem stem_below (hdir:Directory J.style J.dir) (hnames:∀n∈names,SafeName (bytes n))
    (hcs:∀c∈cs,SafeName c) (hne:cs≠[]) :
    Stem J (joinAll J.style (below J names) cs):=by
  have hfolder:=below_names hdir hnames
  exact ⟨⟨_,by simp [hne],hfolder.all hcs⟩,fun suffix hs=>hfolder.suffixed hcs hne hs⟩

theorem under_below (hdir:Directory J.style J.dir) (hnames:∀n∈names,SafeName (bytes n))
    (hne:names≠[]) : Under J (below J names):=
  ⟨_,by simp [hne],below_names hdir hnames⟩

/-- The texts that are put behind a path. -/
theorem extension_of_mem : ∀suffix ∈ [".pyc",".marshal",".target.pyc",".target.marshal",
    ".encrypted",".compressed",".inventory.csv"], Extension (bytes suffix):=by
  have hall : ∀suffix ∈ [".pyc",".marshal",".target.pyc",".target.marshal",".encrypted",
      ".compressed",".inventory.csv"], (bytes suffix).head? = some (byte '.') ∧
        2<(bytes suffix).length ∧ ((bytes suffix).all fun x=>PlainByte x)=true:=by decide
  intro suffix hs
  obtain ⟨hdot,hlong,hplain⟩:=hall suffix hs
  exact ⟨hdot,hlong,by simpa using hplain⟩

theorem write_target_inv (hdir:Directory J.style J.dir) (h:Inv J s₀ t) (hbase:Stem J base)
    {suffix:String} (hsuffix:suffix ∈ ["",".target"]) :
    Inv J s₀ (write_target J t base marshal magic suffix o).2:=by
  have hs : Extension (bytes (suffix++".pyc")) ∧ Extension (bytes (suffix++".marshal")):=by
    simp only [mem_cons,not_mem_nil,or_false] at hsuffix
    rcases hsuffix with rfl | rfl
    · exact ⟨extension_of_mem _ (by decide),extension_of_mem _ (by decide)⟩
    · exact ⟨extension_of_mem _ (by decide),extension_of_mem _ (by decide)⟩
  cases magic with
  | none=>exact write_budgeted_inv hdir h (hbase.2 _ hs.2)
  | some magic=>exact write_budgeted_inv hdir h (hbase.2 _ hs.1)

theorem preserve_target_inv (hdir:Directory J.style J.dir) (h:Inv J s₀ t)
    (hbase:Stem J base) {official:Bytes} {norm:OpcodeRewrite} :
    Inv J s₀ (preserve_target J t base marshal official magic norm o).2:=by
  have htarget : Inv J s₀ (write_target J t base marshal magic ".target" o).2:=
    write_target_inv hdir h hbase (by simp)
  rw [preserve_target]
  split
  · dsimp only
    split
    · exact htarget.of_same rfl rfl rfl (List.Subset.refl _) rfl
    · exact htarget
  · exact h

theorem write_normalized_inv (hdir:Directory J.style J.dir) (h:Inv J s₀ t)
    (hbase:Stem J base) {official:Bytes} {norm:OpcodeRewrite} :
    Inv J s₀ (write_normalized J t base marshal official magic norm o).2:=by
  have htarget : Inv J s₀ (preserve_target J t base marshal official magic norm o).2:=
    preserve_target_inv hdir h hbase
  rw [write_normalized]
  dsimp only
  split
  · have hwrote:=write_budgeted_inv (o:={ o with
      path:=path_with_ascii_suffix base ".pyc"
      data:=pyc_wrap norm.bytes official J.info.python_version
      normalized:=true }) hdir htarget (hbase.2 ".pyc" (extension_of_mem _ (by decide)))
    split
    · exact hwrote.of_same rfl rfl rfl (List.Subset.refl _) rfl
    · exact hwrote
  · exact htarget

theorem write_code_inv (hdir:Directory J.style J.dir) (h:Inv J s₀ t) (hbase:Stem J base) :
    Inv J s₀ (write_code J t base marshal magic o).2:=by
  rw [write_code]
  split
  · split
    · exact write_normalized_inv hdir h hbase
    · exact write_target_inv hdir (h.warn _) hbase (by simp)
  · exact write_target_inv hdir h hbase (by simp)

theorem Inv.count_selected {r:Bool×PyRun σ} (h:Inv J s₀ r.2) : Inv J s₀ (count_selected r):=by
  rw [PyInstaller.count_selected]
  split
  · exact h.of_same rfl rfl rfl (List.Subset.refl _) rfl
  · exact h

theorem pyzFolder_mem (role:String) : pyzFolder role ∈ ["user","bootstrap","stdlib"]:=by
  rw [pyzFolder]
  split_ifs <;> simp

theorem pyz_module_inv (hdir:Directory J.style J.dir) (h:Inv J s₀ t) (payload magic:Bytes)
    (z:PyzEnt) : Inv J s₀ (pyz_module J payload magic t z):=by
  rw [pyz_module]
  split
  · exact h.warn _
  split
  · exact h.warn _
  rename_i parts hparts
  obtain ⟨hne,hsafe⟩:=safe_relative_path_names hparts
  have hstem : Stem J (joinAll J.style (below J ["PYZ",pyzFolder (pyz_role J.S z.name)])
      (if z.type=1 then parts++[bytes "__init__"] else parts)):=by
    apply stem_below hdir
    · have hfolder:=pyzFolder_mem (pyz_role J.S z.name)
      generalize pyzFolder (pyz_role J.S z.name) = folder at hfolder ⊢
      have hall : ∀folder ∈ ["user","bootstrap","stdlib"], ∀n ∈ ["PYZ",folder],
          SafeName (bytes n):=by decide
      exact hall folder hfolder
    · have hinit : SafeName (bytes "__init__"):=by decide
      split
      · intro c hc
        rcases mem_append.mp hc with hold | hlast
        · exact hsafe c hold
        · exact mem_singleton.mp hlast▸hinit
      · exact hsafe
    · split <;> simp [hne]
  dsimp only
  split
  · exact Inv.count_selected (write_code_inv hdir h hstem)
  · split
    · exact h.note_omitted _ _
    · refine Inv.warn (Inv.count_selected ?_) _
      exact write_budgeted_inv hdir h (hstem.2 _ (extension_of_mem _ (by decide)))

theorem Inv.note_inventory {r:Bool×PyRun σ} (h:Inv J s₀ r.2) (inv:Bytes) :
    Inv J s₀ (note_inventory inv r):=by
  rw [PyInstaller.note_inventory]
  split
  · exact h.of_same rfl rfl rfl (List.Subset.refl _) rfl
  · exact h

theorem inventoryPath_under (hdir:Directory J.style J.dir) {pyz_path:Bytes}
    (hpath:Stem J pyz_path) (t:PyRun σ) : Under J (inventoryPath J t pyz_path):=by
  rw [inventoryPath]
  split
  · exact under_below hdir (by decide) (by simp)
  · exact hpath.2 _ (extension_of_mem _ (by decide))

theorem pyz_contents_inv (hdir:Directory J.style J.dir) (h:Inv J s₀ t) {pyz_path:Bytes}
    (hpath:Stem J pyz_path) (payload:Bytes) :
    Inv J s₀ (pyz_contents J t e pyz_path payload):=by
  rw [pyz_contents]
  split
  · exact h.warn _
  · dsimp only
    apply foldlRecOn
    · refine Inv.note_inventory (write_budgeted_inv hdir ?_ (inventoryPath_under hdir hpath _)) _
      exact h.of_same rfl rfl rfl (List.Subset.refl _) rfl
    · exact fun t ht z _=>pyz_module_inv hdir ht payload _ z

theorem member_inv (hdir:Directory J.style J.dir) (h:Inv J s₀ t) (payload:Bytes) :
    Inv J s₀ (member J magic t e payload):=by
  rw [member]
  split
  · exact h.warn _
  rename_i rel hrel
  obtain ⟨hne,hsafe⟩:=safe_relative_path_names hrel
  dsimp only
  split
  · refine write_code_inv hdir h (stem_below hdir ?_ hsafe hne)
    have hall : ∀folder ∈ ["user","bootstrap","runtime"], ∀n ∈ ["python",folder],
        SafeName (bytes n):=by decide
    apply hall
    split_ifs <;> simp
  · split
    · split
      · exact h
      · refine write_budgeted_inv hdir h (stem_below hdir ?_ hsafe hne).1
        have hall : ∀folder ∈ ["runtime","bulk"], ∀n∈[folder],SafeName (bytes n):=by decide
        apply hall
        split <;> simp
    · have hstem : Stem J (joinAll J.style (below J ["PYZ"]) rel):=
        stem_below hdir (by decide) hsafe hne
      have hwrote:=write_budgeted_inv (o:=⟨_,payload,"pyz_archive",e.name,"HIGH",false,
        false⟩) hdir h hstem.1
      split
      · exact pyz_contents_inv hdir hwrote hstem payload
      · exact hwrote

theorem failedMember_inv (hdir:Directory J.style J.dir) (h:Inv J s₀ t) (raw:Bytes) :
    Inv J s₀ (failedMember J t e raw):=by
  rw [failedMember]
  split
  · exact h.warn _
  rename_i rel hrel
  obtain ⟨hne,hsafe⟩:=safe_relative_path_names hrel
  refine Inv.warn ?_ _
  split
  · exact write_budgeted_inv hdir h ((stem_below hdir (by decide) hsafe hne).2 _
      (extension_of_mem _ (by decide)))
  · exact h

theorem outer_entry_inv (hdir:Directory J.style J.dir) (h:Inv J s₀ t) (e:PyInstEntry) :
    Inv J s₀ (outer_entry J magic t e):=by
  rw [outer_entry]
  dsimp only
  split
  · exact h.warn _
  split
  · exact member_inv hdir h _
  split
  · exact h.note_omitted _ _
  split
  · exact failedMember_inv hdir h _
  · exact member_inv hdir h _

theorem policyOmit_same (r:PyInstExtractResult) (e:PyInstEntry) :
    (policyOmit J r e).files=r.files ∧ (policyOmit J r e).output_bytes=r.output_bytes:=by
  rw [policyOmit]
  split <;> exact ⟨rfl,rfl⟩

theorem policyOmit_all (l:List PyInstEntry) (r:PyInstExtractResult) :
    (l.foldl (policyOmit J) r).files=r.files ∧
      (l.foldl (policyOmit J) r).output_bytes=r.output_bytes:=by
  induction l generalizing r with
  | nil=>exact ⟨rfl,rfl⟩
  | cons e l ih=>
    obtain ⟨hfiles,hbytes⟩:=ih (policyOmit J r e)
    obtain ⟨hfile,hbyte⟩:=policyOmit_same (J:=J) r e
    exact ⟨hfiles.trans hfile,hbytes.trans hbyte⟩

theorem extract_all_inv (hdir:Directory J.style J.dir) (h:Inv J s₀ t) :
    Inv J s₀ (extract_all J t):=by
  rw [extract_all]
  dsimp only
  apply foldlRecOn
  · refine write_budgeted_inv hdir ?_ (under_below hdir (by decide) (by simp))
    obtain ⟨hfiles,hbytes⟩:=policyOmit_all (J:=J) J.info.entries
      (if J.S.remap.isSome = true ∧ J.S.official_magic=none then
        { t with r:={ t.r with warnings:=t.r.warnings ++
          ["opcode normalization validated, but no exact official CPython pyc magic reference is " ++
            "available; extracted bytecode is kept in target form"] } }
      else t).r
    refine h.of_same (hfiles.trans ?_) (hbytes.trans ?_) ?_ ?_ ?_
    all_goals
      split
      · simp
      · simp
  · exact fun t ht e _=>outer_entry_inv hdir ht e

theorem Inv.start {r:PyInstExtractResult} (hfiles:r.files=[]) (hbytes:r.output_bytes=0)
    (hdisk:∀q,J.D.content s q=J.D.content s₀ q) : Inv J s₀ {disk:=s,r}:=by
  constructor
  case files=>simpa using hfiles
  case bytes=>simpa using hbytes
  case bytes_le=>exact hbytes.le.trans (Nat.zero_le _)
  case files_le=>simp [hfiles]
  case inside=>simp
  case distinct=>simp
  case frame=>exact fun q _=>hdisk q
  case kept=>simp

theorem extract_pyinstaller_inv (hdir:Directory J.style J.dir) (s:σ) :
    Inv J s (extract_pyinstaller J s):=by
  rw [extract_pyinstaller]
  dsimp only
  have hroot:=ensure_output_parent_content J.D J.style s J.dir (below J [".init"])
  split
  · exact Inv.start rfl rfl fun _=>rfl
  split
  · exact Inv.start rfl rfl hroot
  · have hall:=extract_all_inv hdir (Inv.start (r:={output_dir:=J.dir,mode:=J.mode})
      rfl rfl hroot)
    exact hall.of_same rfl rfl rfl (List.Subset.refl _) rfl

theorem Inv.contained (h:Inv J s₀ t) (hdir:Directory J.style J.dir) :
    ∀w∈t.opened,Contained true J.style J.dir w.path:=by
  intro w hw
  obtain ⟨parts,hne,hb,-⟩:=h.inside w hw
  refine ⟨parts,hb.located_eq hdir,fun _=>hne,fun c hc=>?_⟩
  exact ⟨(hb.names c hc).ne_up,fun _=>(hb.names c hc).device⟩

theorem Inv.places (h:Inv J s₀ t) (hdir:Directory J.style J.dir) :
    (t.opened.map fun w=>located J.style w.path).Nodup:=by
  refine pairwise_map.mpr ((pairwise_map.mp h.distinct).imp_of_mem ?_)
  intro w w' hw hw' hne heq
  obtain ⟨parts,-,hb,-⟩:=h.inside w hw
  obtain ⟨parts',-,hb',-⟩:=h.inside w' hw'
  rw [hb.located_eq hdir,hb'.located_eq hdir] at heq
  have hparts : parts=parts':=append_cancel_left heq
  exact hne (by rw [hb.spelled,hb'.spelled,hparts])

/-- An extraction lists the files it wrote and no more than both budgets allow. Every file it opens
is below the output directory, under a name that differs from every other by more than case; what
is listed is on the disk when closing a file succeeds, and nothing else is touched. -/
theorem extraction_contained (J : Job σ) (hdir : Directory J.style J.dir) (s : σ) :
    let t := extract_pyinstaller J s
    let listed:=t.opened.filter (·.listed)
    t.r.files=listed.map (·.path) ∧
    (∀p∈t.r.files,Contained true J.style J.dir p) ∧
    (t.r.files.map lower).Nodup ∧
    t.r.output_bytes=(listed.map (·.data.length)).sum ∧
    t.r.output_bytes≤J.max_output_bytes ∧
    t.r.files.length≤J.max_output_files ∧
    (∀w∈t.opened,Contained true J.style J.dir w.path) ∧
    (t.opened.map fun w=>lower w.path).Nodup ∧
    (t.opened.map fun w=>located J.style w.path).Nodup ∧
    (∀q,(∀w∈t.opened,q≠located J.style w.path) → J.D.content t.disk q=J.D.content s q) ∧
    ((∀s p,(J.D.close s p).1=true) → ∀w∈listed,
      J.D.content t.disk (located J.style w.path)=some w.data):=by
  have h : Inv J s (extract_pyinstaller J s):=extract_pyinstaller_inv hdir s
  have hcontained:=h.contained hdir
  have hdistinct : ((extract_pyinstaller J s).r.files.map lower).Nodup:=by
    rw [h.files,map_map]
    exact h.distinct.sublist ((filter_sublist).map _)
  refine ⟨h.files,fun p hp=>?_,hdistinct,h.bytes,h.bytes_le,h.files_le,hcontained,
    h.distinct,h.places hdir,h.frame,fun hclose w hw=>?_⟩
  · rw [h.files] at hp
    obtain ⟨w,hw,rfl⟩:=mem_map.mp hp
    exact hcontained w (mem_filter.mp hw).1
  · obtain ⟨hopen,hlisted⟩:=mem_filter.mp hw
    exact h.kept hclose w hopen hlisted

/-- An archive of one byte with one script, on an empty disk. -/
def oneScript : Job MemoryTree where
  D := MemoryTree.tree true
  style := windows
  S := { inflate := fun _ _ => .failed,parse_pyz_toc := fun _ => none
         stdlib_module := fun _ => false,remap:=none,official_magic:=none }
  d := [0x63]
  info := { valid:=true,python_version:=312
            entries:=[⟨0,1,1,0,byte 's',bytes "app"⟩,⟨0,1,1,0,byte 's',bytes "APP"⟩] }
  dir := bytes "out"
  max_output_bytes := 500
  max_output_files := 9
  mode := .full

theorem oneScript_contained :
    ((extract_pyinstaller oneScript ⟨fun _=>none,fun _=>[],fun _=>false⟩).r.files.map
      lower).Nodup:=
  (extraction_contained oneScript ⟨by decide,by decide⟩
    ⟨fun _=>none,fun _=>[],fun _=>false⟩).2.2.1

end AutoRefirst.PyInstaller
