import AutoRefirst.BoundedHeap
import AutoRefirst.RuntimePlan
import AutoRefirst.DirectoryReportIndex
import Mathlib

/-!
# Directory inventory

`inventory_directory` scores every regular file that the walk meets and keeps a bounded
number of candidates in a heap. Files are compared by score and then by the UTF-8 text of
their path, which on Windows is empty for a name that is not well-formed UTF-16.
-/

namespace AutoRefirst.DirectoryInventory
open List

open BoundedHeap
open DirectoryRuntime (Platform)
open DirectoryRelationships (PriorityTier tierOf lowerAscii)
open GreedySelection (StdSort insertionStdSort)

/-- The native spelling of a path: bytes that are taken for text on POSIX, UTF-16 code units
on Windows. -/
inductive HostPath where
  | posix (native : String)
  | windows (native : List UInt16)
  deriving DecidableEq, Repr

/-- Strict UTF-16: `none` at an unpaired surrogate. -/
def decodeUtf16 : List UInt16 → Option (List Char)
  | [] => some []
  | u::rest =>
    if u < 0xd800 ∨ 0xe000 ≤ u then (decodeUtf16 rest).map (Char.ofNat u.toNat :: ·)
    else if 0xdc00 ≤ u then none
    else
      match rest with
      | [] => none
      | v::rest =>
        if 0xdc00 ≤ v ∧ v < 0xe000 then
          let point := 0x10000+(u.toNat-0xd800)*0x400+(v.toNat-0xdc00)
          (decodeUtf16 rest).map (Char.ofNat point :: ·)
        else none

def pathUtf8 : HostPath → String
  | .posix native => native
  | .windows native => ((decodeUtf16 native).map String.ofList).getD ""

inductive PreflightFormat where
  | unknown | pe | elf | machO | jvmClass | machOOrJvm | hermes | lua | pythonBytecode
  | v8CodeCache | wasm | dex | zip | ioStore | godotPck | script | asar
  deriving DecidableEq, Repr

structure PreflightHeader where
  format : PreflightFormat := .unknown
  (typeHint role : String := "")
  confidence : String := "low"
  reason : String := ""
  priorityBoost : ℤ := 0
  nativeExecutableHint : Bool := false
  deriving DecidableEq, Repr

inductive AnalysisState where
  | pending | skipped
  deriving DecidableEq, Repr

structure InventoryCandidate where
  path : HostPath
  preflightFormat : PreflightFormat := .unknown
  formatPriorityBoost : ℤ := 0
  size : UInt64 := 0
  typeHint : String := "unknown"
  structuralConfidence : String := "low"
  role : String := "unknown"
  priorityScore : ℤ := 0
  priorityTier : PriorityTier := .tier3
  priorityReasons : List String := []
  runtimeEligible : Bool := false
  runtimeEligibilityReason : String := ""
  readable : Bool := true
  analysisState : AnalysisState := .pending
  skippedReason : String := ""
  deriving DecidableEq, Repr

/-- What the walk asks of the files: their size, the bytes of a bounded prefix (`none` when a
file cannot be opened), and the parts of their names. `probeHeader` is
`probe_preflight_header`. -/
structure FileAccess where
  platform : Platform
  fileSize : HostPath → Except String UInt64
  readPrefix : HostPath → ℕ → Option (List UInt8)
  probeHeader : List UInt8 → UInt64 → PreflightHeader
  (lowerExt fileName : HostPath→String)

namespace InventoryCandidate

variable (c : InventoryCandidate)

def setTier : InventoryCandidate :=
  {c with priorityTier:=tierOf c.priorityScore}

def addReason (score : ℤ) (reason : String) : InventoryCandidate :=
  setTier { c with
    priorityScore:=c.priorityScore+score
    priorityReasons :=
      if reason ∈ c.priorityReasons then c.priorityReasons else c.priorityReasons++[reason] }

def unreadable (reason : String) : InventoryCandidate :=
  {c with readable:=false,analysisState:=.skipped,skippedReason:=reason}

def hinted (platform : Platform) (header : PreflightHeader) : InventoryCandidate :=
  let scored := addReason
    { c with
      preflightFormat:=header.format,formatPriorityBoost:=header.priorityBoost
      typeHint:=header.typeHint,role:=header.role
      structuralConfidence:=header.confidence } header.priorityBoost header.reason
  let eligible :=
    match platform with
    | .windows => header.format == .pe && header.nativeExecutableHint
    | .linux => header.format == .elf && header.nativeExecutableHint
    | .other => scored.runtimeEligible
  { scored with
    runtimeEligible:=eligible
    runtimeEligibilityReason :=
      if eligible then
        "native header is a provisional runtime hint; full validation remains required"
      else "preflight does not establish a direct runtime root for this platform" }

def printable (bytes : List UInt8) : ℕ :=
  bytes.countP fun x => x == 9 || x == 10 || x == 13 || (decide (32 ≤ x) && decide (x < 127))

/-- What the bytes of a file without a known header give a candidate. -/
def unhinted (bytes : List UInt8) : InventoryCandidate :=
  if !bytes.isEmpty ∧ printable bytes * 100 / bytes.length > 90 then
    addReason {c with typeHint := "text",role := "text",formatPriorityBoost:=5} 5
      "bounded prefix is predominantly text"
  else
    addReason {c with typeHint := "unknown binary",role := "data",formatPriorityBoost:=10} 10
      "unknown binary is retained for full static analysis"

end InventoryCandidate

def weakExtensions : List String :=
  [".exe",".dll",".so",".pck",".apk",".jar",".dex",".wasm",".pak",".utoc",".ucas",
    ".dylib",".class",".hbc",".luac",".pyc",".asar"]

def preflightPrefixBytes : ℕ := 64*1024

def preflightDirectoryCandidate (fs : FileAccess) (path : HostPath) : InventoryCandidate :=
  let c : InventoryCandidate :=
    { path
      priorityScore:=5
      priorityReasons:=["regular files are eligible for bounded priority admission; " ++
        "extension never filters analysis"] }
  match fs.fileSize path with
  | .error message => c.unreadable ("file size/stat failed: "++message)
  | .ok size =>
    let c := {c with size}
    match fs.readPrefix path (min size.toNat preflightPrefixBytes) with
    | none => c.unreadable "file cannot be opened for bounded preflight"
    | some bytes =>
      let header := fs.probeHeader bytes size
      let c := if !header.typeHint.isEmpty then c.hinted fs.platform header else c.unhinted bytes
      let ext := fs.lowerExt path
      (if !ext.isEmpty && weakExtensions.contains ext then
        c.addReason 2 "filename extension is weak ordering evidence only" else c).setTier

def directoryCandidateBetter (a b : InventoryCandidate) : Bool :=
  if a.priorityScore ≠ b.priorityScore then decide (a.priorityScore > b.priorityScore)
  else decide (pathUtf8 a.path < pathUtf8 b.path)

/-- What `symlink_status` and the link test say of an entry. -/
inductive EntryStatus where
  | statusError (message : String)
  | link | directory | regular | other
  deriving DecidableEq, Repr

/-- An entry that the iterator stops at, and the error of moving on from it, if any. -/
structure WalkEntry where
  path : HostPath
  depth : UInt32
  status : EntryStatus
  advanceError : Option String := none
  deriving DecidableEq, Repr

structure DirectoryTraversalSkip where
  path : HostPath
  reason : String
  deriving DecidableEq, Repr

/-- What the walk did not take in. -/
structure Traversal where
  skips : List DirectoryTraversalSkip := []
  (skipsTotal errorCount depthLimitedDirectories : ℕ := 0)
  deriving DecidableEq, Repr

@[ext]
structure Inventory where
  (regularFilesSeen candidateOmittedCount : ℕ := 0)
  candidateAdmissionBudgetExhausted : Bool := false
  candidates : List InventoryCandidate := []
  traversal : Traversal := {}
  deriving DecidableEq, Repr

def Traversal.skip (t : Traversal) (path : HostPath) (reason : String) (failed : Bool := false) :
    Traversal :=
  { t with
    skipsTotal:=t.skipsTotal+1
    errorCount := if failed then t.errorCount+1 else t.errorCount
    skips := if t.skips.length < 128 then t.skips++[⟨path,reason⟩] else t.skips }

def autoRefirstArtifactDirectory (fs : FileAccess) (path : HostPath) : Bool :=
  ".auto-refirst".toList.isSuffixOf (lowerAscii (fs.fileName path)).toList

section

variable (S : StdSort) (H : StdHeap) (fs : FileAccess) (maxDepth : UInt32) (maxCandidates : ℕ)

def Traversal.visit (t : Traversal) (e : WalkEntry) : Traversal :=
  let t :=
    match e.status with
    | .statusError message => t.skip e.path ("symlink/status query failed: "++message) true
    | .link => t.skip e.path "file/directory symlink or reparse point skipped"
    | .directory =>
      if autoRefirstArtifactDirectory fs e.path then
        t.skip e.path "auto-refirst generated artifact directory skipped from user-input inventory"
      else if e.depth ≥ maxDepth then
        {t with depthLimitedDirectories:=t.depthLimitedDirectories+1}.skip e.path
          "directory depth limit reached; descendants were not inventoried"
      else t
    | .regular | .other => t
  match e.advanceError with
  | none => t
  | some message => t.skip e.path ("directory iteration failed: "++message) true

/-- A regular file is scored and offered to the heap. -/
def Inventory.admitFile (inv : Inventory) (path : HostPath) : Inventory :=
  { inv with
    regularFilesSeen:=inv.regularFilesSeen+1
    candidateOmittedCount :=
      if inv.candidates.length < maxCandidates then inv.candidateOmittedCount
      else inv.candidateOmittedCount+1
    candidateAdmissionBudgetExhausted :=
      inv.candidateAdmissionBudgetExhausted || !decide (inv.candidates.length < maxCandidates)
    candidates:=offer H directoryCandidateBetter maxCandidates inv.candidates
      (preflightDirectoryCandidate fs path) }

/-- One turn of the walk. Whether the iterator descends is seen in the entries that follow. -/
def Inventory.visit (inv : Inventory) (e : WalkEntry) : Inventory :=
  let inv := if e.status = .regular then inv.admitFile H fs maxCandidates e.path else inv
  {inv with traversal:=inv.traversal.visit fs maxDepth e}

def walk (entries : List WalkEntry) : Inventory :=
  entries.foldl (fun inv e => inv.visit H fs maxDepth maxCandidates e) {}

/-- What the root directory turns out to be. -/
inductive RootStatus where
  | link
  | notDirectory (error : Option String)
  | cannotEnumerate (message : String)
  | entries (entries : List WalkEntry)
  deriving DecidableEq, Repr

def inventoryDirectory (root : HostPath) : RootStatus → Inventory
  | .link =>
    { traversal:=({} : Traversal).skip root
        "input directory is a symlink/reparse point; following it is disabled by default" }
  | .notDirectory error =>
    { traversal:=({} : Traversal).skip root
        (match error with
          | some message => "directory status failed: "++message
          | none => "input is not a directory") true }
  | .cannotEnumerate message =>
    {traversal:=({} : Traversal).skip root ("cannot enumerate directory: "++message) true}
  | .entries entries =>
    let inv := walk H fs maxDepth maxCandidates entries
    {inv with candidates:=S.sort directoryCandidateBetter inv.candidates}

end

def rank (c : InventoryCandidate) : ℤ ×ₗ String := toLex (-c.priorityScore,pathUtf8 c.path)

theorem directoryCandidateBetter_iff (a b:InventoryCandidate) :
    directoryCandidateBetter a b=true ↔ rank a < rank b:=by
  simp only [rank,Prod.Lex.toLex_lt_toLex,directoryCandidateBetter]
  by_cases h : a.priorityScore=b.priorityScore
  · simp [h]
  · simp [h,neg_lt_neg_iff]

theorem preflight_path (fs:FileAccess) (path:HostPath) :
    (preflightDirectoryCandidate fs path).path=path:=by
  have hadd : ∀(c:InventoryCandidate) score reason,(c.addReason score reason).path=c.path:=
    fun _ _ _=>rfl
  have hchosen : ∀(c:InventoryCandidate) platform header bytes,
      (if !header.typeHint.isEmpty then c.hinted platform header else c.unhinted bytes).path =
        c.path:=by
    intro c platform header bytes
    split
    · rfl
    · unfold InventoryCandidate.unhinted
      split <;> rfl
  unfold preflightDirectoryCandidate
  dsimp only
  split
  · rfl
  · split
    · rfl
    · change InventoryCandidate.path (if _ then _ else _) = path
      split
      · rw [hadd,hchosen]
      · rw [hchosen]

section

variable {S : StdSort} {H : StdHeap} {fs : FileAccess} {maxDepth : UInt32} {maxCandidates : ℕ}

def files (entries : List WalkEntry) : List HostPath :=
  (entries.filter fun e => e.status = .regular).map (·.path)

def scored (fs : FileAccess) (entries : List WalkEntry) : List InventoryCandidate :=
  (files entries).map (preflightDirectoryCandidate fs)

/-- The walk has counted the candidates it was offered and keeps the best of them. -/
structure Walked (maxCandidates : ℕ) (seen : List InventoryCandidate) (inv : Inventory) :
    Prop where
  kept : KeepsBest directoryCandidateBetter rank maxCandidates seen inv.candidates
  counted : inv.regularFilesSeen=seen.length
  omitted : inv.candidateOmittedCount+inv.candidates.length=inv.regularFilesSeen
  exhausted : inv.candidateAdmissionBudgetExhausted=decide (0 < inv.candidateOmittedCount)

variable {inv : Inventory}

theorem Walked.admitFile {seen:List InventoryCandidate} (h:Walked maxCandidates seen inv)
    (H:StdHeap) (fs:FileAccess) (path:HostPath) :
    Walked maxCandidates (seen++[preflightDirectoryCandidate fs path])
      (inv.admitFile H fs maxCandidates path):=by
  obtain ⟨hkept,hcounted,homitted,hexhausted⟩:=h
  have hnext:=hkept.offer H directoryCandidateBetter_iff (preflightDirectoryCandidate fs path)
  have hold:=hkept.length
  have hlength:=hnext.length
  rw [length_append,length_singleton] at hlength
  refine ⟨hnext,by simp [Inventory.admitFile,hcounted],?_,?_⟩
  · simp only [Inventory.admitFile]
    rw [hlength]
    split <;> omega
  · simp only [Inventory.admitFile,hexhausted]
    by_cases hroom : inv.candidates.length < maxCandidates
    · simp [hroom]
    · simp [hroom]

theorem walked_walk (H:StdHeap) (fs:FileAccess) (maxDepth:UInt32) (maxCandidates:ℕ)
    (entries:List WalkEntry) :
    Walked maxCandidates (scored fs entries) (walk H fs maxDepth maxCandidates entries):=by
  induction entries using reverseRecOn with
  | nil=>exact ⟨keepsBest_nil,rfl,rfl,rfl⟩
  | append_singleton entries e ih=>
    unfold walk at ih ⊢
    rw [foldl_append,foldl_cons,foldl_nil]
    unfold Inventory.visit
    by_cases hregular : e.status=.regular
    · have hscored : scored fs (entries++[e]) =
          scored fs entries++[preflightDirectoryCandidate fs e.path]:=by
        simp [scored,files,hregular]
      rw [if_pos hregular,hscored]
      have hnext:=ih.admitFile H fs e.path
      exact ⟨hnext.kept,hnext.counted,hnext.omitted,hnext.exhausted⟩
    · have hscored : scored fs (entries++[e])=scored fs entries:=by
        simp [scored,files,hregular]
      rw [if_neg hregular,hscored]
      exact ⟨ih.kept,ih.counted,ih.omitted,ih.exhausted⟩

theorem posix_texts {paths:List HostPath} (hpaths:paths.Nodup)
    (hposix:∀p∈paths,∃native,p=.posix native) : (paths.map pathUtf8).Nodup:=by
  refine hpaths.map_on fun p hp q hq htext=>?_
  obtain ⟨s,rfl⟩:=hposix p hp
  obtain ⟨t,rfl⟩:=hposix q hq
  exact congrArg HostPath.posix htext

variable {entries : List WalkEntry}

theorem rank_injective (hdistinct:((files entries).map pathUtf8).Nodup) :
    ∀a∈scored fs entries,∀b∈scored fs entries,rank a=rank b → a=b:=by
  intro a ha b hb hab
  obtain ⟨p,hp,rfl⟩:=mem_map.mp ha
  obtain ⟨q,hq,rfl⟩:=mem_map.mp hb
  have htext:=congrArg (fun r=>(ofLex r).2) hab
  simp only [rank,preflight_path] at htext
  rw [inj_on_of_nodup_map hdistinct hp hq htext]

/-- `directory_candidate_better` never ranks two candidates of a sorted inventory the other
way round. -/
theorem sorted_pairwise (l:List InventoryCandidate) :
    (S.sort directoryCandidateBetter l).Pairwise fun a b=>
      directoryCandidateBetter b a=false:=
  S.sorted directoryCandidateBetter rank directoryCandidateBetter_iff l

theorem sorted_strictly (hdistinct:((files entries).map pathUtf8).Nodup) :
    (S.sort directoryCandidateBetter (scored fs entries)).Pairwise fun a b=>
      directoryCandidateBetter a b=true:=by
  have hperm:=S.perm directoryCandidateBetter (scored fs entries)
  have hnodup : (S.sort directoryCandidateBetter (scored fs entries)).Nodup:=by
    refine hperm.nodup_iff.mpr (List.Nodup.of_map (fun c=>pathUtf8 c.path) ?_)
    simpa [scored,map_map,Function.comp_def,preflight_path] using hdistinct
  refine (List.Pairwise.and_mem.mp (hnodup.and (sorted_pairwise _))).imp fun {a b} hab=>?_
  obtain ⟨ha,hb,hne,hle⟩:=hab
  rw [← Bool.not_eq_true,directoryCandidateBetter_iff,not_lt] at hle
  rw [directoryCandidateBetter_iff]
  exact lt_of_le_of_ne hle fun h=>hne (rank_injective hdistinct a (hperm.subset ha) b
    (hperm.subset hb) h)

theorem front_eq (hdistinct:((files entries).map pathUtf8).Nodup)
    (h:Walked maxCandidates (scored fs entries) inv) :
    S.sort directoryCandidateBetter inv.candidates =
      (S.sort directoryCandidateBetter (scored fs entries)).take maxCandidates:=
  h.kept.sort_eq_take S directoryCandidateBetter_iff (rank_injective hdistinct)

theorem sort_scored_congr {entries':List WalkEntry}
    (hdistinct:((files entries).map pathUtf8).Nodup)
    (hfiles:(files entries').Perm (files entries)) :
    S.sort directoryCandidateBetter (scored fs entries') =
      S.sort directoryCandidateBetter (scored fs entries):=by
  have hdistinct' : ((files entries').map pathUtf8).Nodup:=
    (hfiles.map pathUtf8).nodup_iff.mpr hdistinct
  have hperm : (S.sort directoryCandidateBetter (scored fs entries')).Perm
      (S.sort directoryCandidateBetter (scored fs entries)):=
    (S.perm _ _).trans ((hfiles.map _).trans (S.perm _ _).symm)
  refine hperm.eq_of_pairwise (fun a b _ _ hab hba=>?_) (sorted_strictly hdistinct')
    (sorted_strictly hdistinct)
  rw [directoryCandidateBetter_iff] at hab hba
  exact absurd hab hba.asymm

theorem Walked.same_counts {seen seen':List InventoryCandidate} {inv':Inventory}
    (h:Walked maxCandidates seen inv) (h':Walked maxCandidates seen' inv')
    (hlength:seen'.length=seen.length) :
    inv'.regularFilesSeen=inv.regularFilesSeen ∧
    inv'.candidateOmittedCount=inv.candidateOmittedCount ∧
    inv'.candidateAdmissionBudgetExhausted=inv.candidateAdmissionBudgetExhausted:=by
  have hkept:=h.kept.length
  have hkept':=h'.kept.length
  have hseen : inv'.regularFilesSeen=inv.regularFilesSeen:=by
    rw [h'.counted,h.counted,hlength]
  have homitted : inv'.candidateOmittedCount=inv.candidateOmittedCount:=by
    have hsum:=h.omitted
    have hsum':=h'.omitted
    rw [hlength] at hkept'
    omega
  exact ⟨hseen,homitted,by rw [h'.exhausted,h.exhausted,homitted]⟩

theorem inventory_keeps_best (S : StdSort) (H : StdHeap) (fs : FileAccess) (maxDepth : UInt32)
    (maxCandidates : ℕ) (root : HostPath) (entries : List WalkEntry) :
    let plan := inventoryDirectory S H fs maxDepth maxCandidates root (.entries entries)
    (∃left,(plan.candidates++left).Perm (scored fs entries) ∧
      ∀k∈plan.candidates,∀o∈left,directoryCandidateBetter o k=false) ∧
    plan.candidates.Pairwise (fun a b=>directoryCandidateBetter b a = false) ∧
    plan.candidates.length=min maxCandidates (files entries).length ∧
    plan.regularFilesSeen=(files entries).length ∧
    plan.candidateOmittedCount = plan.regularFilesSeen-plan.candidates.length ∧
    plan.candidateAdmissionBudgetExhausted=decide (0<plan.candidateOmittedCount) ∧
    ((files entries).Nodup → (∀p∈files entries,∃native,p=.posix native) →
      ((files entries).map pathUtf8).Nodup) ∧
    (((files entries).map pathUtf8).Nodup → plan.candidates =
        (S.sort directoryCandidateBetter (scored fs entries)).take maxCandidates ∧
      plan.candidates.Pairwise (fun a b=>directoryCandidateBetter a b = true) ∧
      ∀entries',(files entries').Perm (files entries) →
        let plan':=inventoryDirectory S H fs maxDepth maxCandidates root (.entries entries')
        plan' = {plan with traversal:=plan'.traversal}):=by
  intro plan
  have hwalked:=walked_walk H fs maxDepth maxCandidates entries
  have hsort:=S.perm directoryCandidateBetter (walk H fs maxDepth maxCandidates entries).candidates
  have hcount : (scored fs entries).length=(files entries).length:=by simp [scored]
  have hlength : plan.candidates.length =
      (walk H fs maxDepth maxCandidates entries).candidates.length:=hsort.length_eq
  obtain ⟨left,hperm,hbest⟩:=hwalked.kept.best
  refine ⟨⟨left,(hsort.append_right left).trans hperm,fun k hk o ho=>?_⟩,sorted_pairwise _,
    ?_,hwalked.counted.trans hcount,?_,hwalked.exhausted,posix_texts,
    fun hdistinct=>⟨?_,?_,?_⟩⟩
  · rw [← Bool.not_eq_true,directoryCandidateBetter_iff,not_lt]
    exact hbest k (hsort.subset hk) o ho
  · rw [hlength,hwalked.kept.length,hcount]
  · rw [hlength]
    exact Nat.eq_sub_of_add_eq hwalked.omitted
  · exact front_eq hdistinct hwalked
  · change List.Pairwise _ (S.sort directoryCandidateBetter _)
    rw [front_eq hdistinct hwalked]
    exact (sorted_strictly hdistinct).sublist (take_sublist _ _)
  · intro entries' hfiles plan'
    have hdistinct' : ((files entries').map pathUtf8).Nodup:=
      (hfiles.map pathUtf8).nodup_iff.mpr hdistinct
    have hwalked':=walked_walk H fs maxDepth maxCandidates entries'
    obtain ⟨hseen,homitted,hexhausted⟩:=hwalked.same_counts hwalked'
      (hfiles.map (preflightDirectoryCandidate fs)).length_eq
    have hcandidates : plan'.candidates=plan.candidates:=by
      change S.sort directoryCandidateBetter _=S.sort directoryCandidateBetter _
      rw [front_eq hdistinct hwalked,front_eq hdistinct' hwalked',
        sort_scored_congr hdistinct hfiles]
    exact Inventory.ext hseen homitted hexhausted hcandidates rfl

end

def emptyFiles : FileAccess where
  platform := .windows
  fileSize _ := .ok 0
  readPrefix _ _ := some []
  probeHeader _ _ := {}
  lowerExt _ := ""
  fileName _ := ""

/-- Two files named by one unpaired surrogate each have the same empty text, and with room
for one candidate the one that is met first is kept. -/
theorem unpaired_names_unordered :
    let plan:=fun names=>inventoryDirectory insertionStdSort
      (sortedStdHeap insertionStdSort) emptyFiles 8 1 (.windows [0x64])
      (.entries (names.map fun u=>⟨.windows [u],0,.regular,none⟩))
    [(0xd800 : UInt16),0xd801].Perm [0xd801,0xd800] ∧
    (plan [0xd800,0xd801]).candidates.map (·.path)=[.windows [0xd800]] ∧
    (plan [0xd801,0xd800]).candidates.map (·.path)=[.windows [0xd801]]:=by
  refine ⟨.swap _ _ _,?_,?_⟩
  · decide
  · decide

end AutoRefirst.DirectoryInventory
