import AutoRefirst.DirectoryReportIndex

/-!
# Building directory relationships

`build_directory_relationships`: nine passes over the reports of a directory. What a pass
does for one report, reference or candidate is a list of effects, computed from the
reports, the candidate paths and the roles that the candidates have at that moment; the
effects then change the plan one after another. Positions in the candidate list and in the
report list stand for the source's indexes and pointers.
-/

namespace AutoRefirst.DirectoryRelationships

/-- The part of a declared path after its last separator of either kind. -/
def declaredLeaf (s : String) : String :=
  String.ofList ((s.toList.reverse.takeWhile fun c => c != '/' && c != '\\').reverse)

def hx (n : ℕ) : String := "0x"++String.ofList (Nat.toDigits 16 n)

def featureTokens (key : String) : List String :=
  (key.toList.splitOn '.').map String.ofList

def gdextensionPe64X64FeatureCompatible (key : String) : Bool :=
  let t := featureTokens key
  let hasOs := ["windows","linux","macos","android","ios","web"].any t.contains
  let hasArch := ["x86_64","x86_32","arm64","arm32","rv64","wasm32"].any t.contains
  if hasOs && !t.contains "windows" then false
  else !(hasArch && !t.contains "x86_64")

def keepFirst {α β : Type*} [BEq β] (key : α→β) (l : List α) : List α :=
  l.foldl (fun acc x => if acc.any fun y => key y == key x then acc else acc++[x]) []

def sortUnique (l : List ℕ) : List ℕ := (l.insertionSort (· ≤ ·)).dedup

/-- The inputs of a build: the plan before it and the reports. -/
structure View where
  fs : FileSystem
  plan : DirectoryPlan
  reports : List DirectoryReportIndex

namespace View

variable (v : View)

def key (p : NativePath) : String := v.fs.pathKey p

def pathOf (i : ℕ) : NativePath := ((v.plan.candidates[i]?).map (·.path)).getD ⟨""⟩

def positions (p : DirectoryCandidate→Bool) : List ℕ :=
  (v.plan.candidates.zipIdx.filter fun c => p c.1).map (·.2)

def index (key : String) : Option ℕ := (v.positions fun c => v.key c.path == key).getLast?

def indexed : List DirectoryReportIndex :=
  v.reports.filter fun r => (v.index (v.key r.input)).isSome

def reportIndex (key : String) : Option DirectoryReportIndex :=
  (v.indexed.filter fun r => v.key r.input == key).getLast?

def candidatesOf (p : DirectoryReportIndex→Bool) : List ℕ :=
  (v.reports.filter p).filterMap fun r => v.index (v.key r.input)

def elfSoname (name : String) : List ℕ :=
  v.candidatesOf fun r => r.elfValid && r.elfSoname != "" && r.elfSoname == name

variable (name : String)

def elfBasename : List ℕ :=
  v.candidatesOf fun r => r.elfValid && r.input.filename == name

def peBasename : List ℕ :=
  v.candidatesOf fun r => r.peValid && r.peDll && lowerAscii r.input.filename == name

def candidateBasename : List ℕ :=
  v.positions fun c => lowerAscii c.path.filename == name

def sameStem (p : NativePath) : List ℕ :=
  v.positions fun c => v.key c.path.parentPath++"\n"++c.path.stem ==
    v.key p.parentPath++"\n"++p.stem

end View

/-- A relationship that is to be emitted, with the boosts it asks for. -/
structure Emission where
  relation : DirectoryRelationship
  (boostFirst boostSecond : ℤ := 0)
  strongPriority : Bool := false
  relationshipCap : ℤ := 20
  deriving DecidableEq, Repr

inductive Effect where
  | lookups (n : ℕ)
  | ambiguousReference
  | setRole (candidate : ℕ) (role : String)
  /-- The Unity Mono closure: the root report and the managed report are mutated. -/
  | confirmMono (root managed : ℕ) (managedPath runtimePath : NativePath)
  | emit (e : Emission)
  deriving DecidableEq, Repr

structure Build where
  plan : DirectoryPlan
  reports : List DirectoryReportIndex
  seen : List String := []
  deriving DecidableEq, Repr

namespace DirectoryCandidate

/-- The boost a candidate really gets. Relations that are not strong stay within their cap
and never lift a candidate to 100. -/
def actualBoost (c : DirectoryCandidate) (requested : ℤ) (strong : Bool) (relationshipCap : ℤ) :
    ℤ :=
  if requested ≤ 0 then 0
  else if strong then requested
  else
    let actual := max 0 (min requested (relationshipCap-c.relationshipPriorityBoost))
    if c.priorityScore < 100 then min actual (max 0 (99-c.priorityScore)) else actual

def boost (c : DirectoryCandidate) (actual : ℤ) (reason : String) : DirectoryCandidate :=
  if actual = 0 then c
  else
    {c with relationshipPriorityBoost:=c.relationshipPriorityBoost+actual}.addReason
      actual reason

end DirectoryCandidate

namespace Build

def role (b : Build) (i : ℕ) : String := ((b.plan.candidates[i]?).map (·.role)).getD ""

def modifyCandidate (b : Build) (i : ℕ) (f : DirectoryCandidate→DirectoryCandidate) : Build :=
  {b with plan:={b.plan with candidates:=b.plan.candidates.modify i f}}

def addRelatedBounded (b : Build) (i : Option ℕ) (p : NativePath) : Build :=
  match i with
  | none => b
  | some i =>
    match b.plan.candidates[i]? with
    | none => b
    | some c =>
      if p ∈ c.relatedFiles then b
      else if c.relatedFiles.length ≥ b.plan.maxRelatedFilesPerArtifact then
        { b with plan:={ b.plan with
            relatedFileOmittedCount:=b.plan.relatedFileOmittedCount+1 } }
      else b.modifyCandidate i fun c => {c with relatedFiles:=c.relatedFiles++[p]}

def applyBoost (b : Build) (i : Option ℕ) (requested : ℤ) (e : Emission) : Build×ℤ :=
  match i with
  | none => (b,0)
  | some i =>
    match b.plan.candidates[i]? with
    | none => (b,0)
    | some c =>
      let actual := c.actualBoost requested e.strongPriority e.relationshipCap
      if actual = 0 then (b,0)
      else (b.modifyCandidate i fun c => c.boost actual e.relation.reason,actual)

end Build

/-- A relationship keeps its priority only in a state that allows it, and asks for no boost
without priority. -/
def Emission.gate (e : Emission) : Emission :=
  let eligible :=
    e.relation.priorityEligible && artifactRelationshipStateAllowsPriority e.relation.state
  { e with
    relation:={e.relation with priorityEligible:=eligible}
    boostFirst := if eligible then e.boostFirst else 0
    boostSecond := if eligible then e.boostSecond else 0 }

variable (fs : FileSystem)

/-- The key by which relationships are told apart. The order of undirected endpoints does
not matter. -/
def relationshipKey (x : DirectoryRelationship) : String :=
  let ak := fs.pathKey x.first
  let bk := fs.pathKey x.second
  if x.directed then x.kind++"\n" ++ "D\n"++ak++"\n"++bk
  else x.kind++"\n" ++ "U\n"++(if bk < ak then bk++"\n"++ak else ak++"\n"++bk)

def selfLoop (x : DirectoryRelationship) : Bool :=
  x.first.empty || x.second.empty || fs.pathKey x.first == fs.pathKey x.second

namespace Build

def pushRelationship (b : Build) (x : DirectoryRelationship) : Build :=
  {b with plan:={b.plan with relationships:=b.plan.relationships++[x]}}

/-- The part of `emit` after the checks. -/
def record (v : View) (b : Build) (e : Emission) : Build :=
  let ai := v.index (v.key e.relation.first)
  let bi := v.index (v.key e.relation.second)
  let b := b.addRelatedBounded ai e.relation.second
  let b := b.addRelatedBounded bi e.relation.first
  let (b,first) := b.applyBoost ai e.boostFirst e
  let (b,second) := b.applyBoost bi e.boostSecond e
  b.pushRelationship
    {e.relation with firstPriorityDelta:=first,secondPriorityDelta:=second}

def emit (v : View) (b : Build) (e : Emission) : Build :=
  if selfLoop v.fs e.relation then b
  else
    let e := e.gate
    let key := relationshipKey v.fs e.relation
    if key ∈ b.seen then b
    else
      let b := {b with seen:=b.seen++[key]}
      if b.plan.relationships.length ≥ b.plan.maxRelationships then
        { b with plan:={ b.plan with
            relationshipBudgetExhausted:=true
            relationshipOmittedCount:=b.plan.relationshipOmittedCount+1 } }
      else b.record v e

def confirmMonoRoot (managedPath runtimePath : NativePath) (r : DirectoryReportIndex) :
    DirectoryReportIndex :=
  { r with
    unityMono:=true,unityMonoRuntimeValidated:=true,unityManagedPath:=managedPath
    unityMonoRuntimePath:=runtimePath
    unityBackendState := if r.unityIl2cpp then "HYBRID_OR_AMBIGUOUS" else "MONO_CONFIRMED"
    postRelationshipMutated:=true }

def confirmMonoManaged (r : DirectoryReportIndex) : DirectoryReportIndex :=
  {r with dotnetUnityMono:=true,postRelationshipMutated:=true}

def apply (v : View) (b : Build) : Effect → Build
  | .lookups n =>
    { b with plan:={ b.plan with
        relationshipCandidateLookups:=b.plan.relationshipCandidateLookups+n } }
  | .ambiguousReference =>
    { b with plan:={ b.plan with
        relationshipAmbiguousReferenceCount:=b.plan.relationshipAmbiguousReferenceCount+1 } }
  | .setRole i role => b.modifyCandidate i fun c => {c with role}
  | .confirmMono root managed managedPath runtimePath =>
    let rooted := b.reports.modify root (confirmMonoRoot managedPath runtimePath)
    {b with reports:=rooted.modify managed confirmMonoManaged}
  | .emit e => b.emit v e

end Build

def makeRelation (a b : NativePath) (directed : Bool) (kind : String) (state : RelationshipState)
    (arole brole basis source scoord tcoord scope : String) (priority : Bool) (reason : String) :
    DirectoryRelationship :=
  let relationRoles :=
    if kind == "artifact_materialization" || kind == "runtime_recovered_artifact" then
      ("producer_parent","produced_child")
    else if kind == "artifact_analysis_derivative" then
      ("analyzed_artifact","analysis_derivative")
    else if kind == "elf_loader_dependency" || kind == "elf_interpreter_dependency" ||
        kind == "pe_loader_dependency" || kind == "dotnet_pinvoke_dependency" then
      ("reference_consumer","reference_target")
    else if kind == "godot_gdextension_library_reference" then
      ("descriptor_reference_source","native_reference_target")
    else if kind == "unity_mono_managed_payload" then
      ("unity_runtime_root","consumed_managed_payload")
    else if kind == "unity_mono_runtime" then ("unity_runtime_root","runtime_provider")
    else if kind == "unity_il2cpp_pair" then ("validated_pair_member","validated_pair_member")
    else ("route_peer","route_peer")
  let levels :=
    if state == .routeHint then ("R1_ROUTING_HINT","ROUTING")
    else if kind == "unity_il2cpp_pair" || kind == "unity_mono_managed_payload" ||
        kind == "unity_mono_runtime" then
      ("R4_SEMANTIC_APPLICATION_RELATION","APPLICATION")
    else ("R2_STRUCTURAL_RELATION","STRUCTURAL")
  { first:=a,second:=b,directed,kind,state,firstRole:=arole,secondRole:=brole
    firstRelationRole:=relationRoles.1,secondRelationRole:=relationRoles.2
    evidenceBasis:=basis,evidenceSource:=source,sourceCoordinate:=scoord
    targetCoordinate:=tcoord,provenanceScope:=scope,evidenceLevel:=levels.1
    semanticRelevance:=levels.2,priorityEligible:=priority,reason }

section Passes

variable (v : View) (role : ℕ→String)

/-- `emit_ambiguous`: one unresolved relation for each of several targets. -/
def emitAmbiguous (sourcePath : NativePath) (candidates : List ℕ)
    (kind sourceRole basis evidenceSource sourceCoord level relevance reason : String) :
    List Effect :=
  if candidates.length < 2 then []
  else
    .ambiguousReference :: candidates.map fun dst =>
      let x := makeRelation sourcePath (v.pathOf dst) true kind .unresolved sourceRole (role dst)
        basis evidenceSource sourceCoord ("candidate:"++pathUtf8 (v.pathOf dst))
        "multiple admitted targets satisfy the same exact source reference; endpoint selection is withheld"
        false reason
      .emit { relation:={ x with
        evidenceLevel:=level,semanticRelevance:=relevance
        ambiguity := "MULTIPLE_VALIDATED_TARGETS" } }

variable (r : DirectoryReportIndex)

/-- The partitions of an Unreal container. -/
def unrealEffects : List Effect :=
  if !r.unrealIostoreTocValid then []
  else
    .lookups 1 :: match v.index (v.key r.input) with
    | none => []
    | some _ => r.unrealIostorePartitions.flatMap fun p =>
      if p.state != "CONFIRMED" then []
      else
        .lookups 1 :: match v.index (v.key p.path) with
        | none => []
        | some _ =>
          let state : RelationshipState :=
            if r.unrealIostorePairValid && !r.unrealIostoreEncrypted then .confirmed else .bounded
          let x := makeRelation r.input p.path true "unreal_iostore_partition" state "iostore_toc"
            "iostore_partition"
            "validated fixed UTOC section layout and compressed-block geometry close to this exact regular UCAS partition"
            "static Unreal IoStore v1-v8 parser" "UTOC:compressed_block_entries"
            ("UCAS[partition="++toString p.index++"]:required_bytes=" ++
              toString p.requiredBytes)
            "same-directory exact basename/split partition set; structural container relation only"
            false "the TOC declares physical block extents that fit this exact partition file"
          [.emit { relation:={ x with
            firstRelationRole := "partition_geometry_source"
            secondRelationRole := "partition_data_target"
            evidenceLevel := "R2_STRUCTURAL_RELATION",semanticRelevance := "STRUCTURAL"
            ambiguity := "NONE" } }]

/-- The Unity IL2CPP closure. -/
def il2cppEffects : List Effect :=
  if !r.unityMetadataValid || !r.unityRegistrationResolved || !r.unityGameAssemblyValidated then []
  else
    .lookups 2 ::
      match v.index (v.key r.unityMetadataPath), v.index (v.key r.unityGameAssemblyPath) with
      | some mi, some gi =>
        [.emit
          { relation:=makeRelation (v.pathOf mi) (v.pathOf gi) false "unity_il2cpp_pair"
              .confirmed "il2cpp_metadata" "native_code"
              "validated Unity metadata structure plus recovered CodeRegistration/codegen-module closure"
              "Unity IL2CPP parser/registration recovery"
              "current_input_file:validated IL2CPP metadata tables"
              "current_input_file:validated GameAssembly registration/codegen modules"
              "directory input; each endpoint retains its own current_input_file coordinate basis"
              true
              "validated IL2CPP metadata and native image close through the recovered CodeRegistration/codegen-module relationship"
            boostFirst:=25,boostSecond:=25,strongPriority:=true }]
      | _, _ => []

def managedOf (root : ℕ) (r : DirectoryReportIndex) : Option (DirectoryReportIndex×ℕ) :=
  v.reports.zipIdx.find? fun x =>
    x.2 != root && indexUnityManagedMatchesExecutable v.fs r.input x.1

/-- The first other report below the root's directory that exports a Mono runtime. -/
def runtimeOf (root managed : ℕ) (r : DirectoryReportIndex) : Option (DirectoryReportIndex×ℕ) :=
  v.reports.zipIdx.find? fun x =>
    x.2 != root && x.2 != managed && v.fs.isUnder x.1.input r.input.parentPath &&
      indexExactMonoRuntimeExports x.1

def monoEffects (root : DirectoryReportIndex×ℕ) : List Effect :=
  let r := root.1
  if !indexUnityExecutableRoot v.fs r then []
  else
    match managedOf v root.2 r with
    | none => []
    | some (managed,m) =>
      match runtimeOf v root.2 m r with
      | none => []
      | some (runtime,_) =>
        .lookups 3 ::
          match v.index (v.key r.input), v.index (v.key managed.input),
            v.index (v.key runtime.input) with
          | some _, some mi, some xi =>
            [.confirmMono root.2 m managed.input runtime.input,
              .setRole mi "managed_payload",.setRole xi "mono_runtime",
              .emit
                { relation:=makeRelation r.input managed.input true "unity_mono_managed_payload"
                    .confirmed "unity_executable" "managed_payload"
                    "exact executable-stem _Data/Managed layout + ECMA-335 UnityEngine AssemblyRefs + independent Mono runtime export closure"
                    "Unity/.NET/PE-or-ELF validated metadata" "directory:Unity executable root"
                    "current_input_file:validated Assembly-CSharp CLR metadata"
                    "same Unity product directory; managed payload coordinate basis is its own file"
                    true
                    "Unity executable layout closes to a validated Assembly-CSharp CLR payload with UnityEngine AssemblyRefs and an independently validated exact Mono runtime export surface"
                  boostFirst:=10,boostSecond:=55,strongPriority:=true },
              .emit
                { relation:=makeRelation r.input runtime.input true "unity_mono_runtime"
                    .confirmed "unity_executable" "mono_runtime"
                    "independently validated exact Mono runtime export set" "PE/ELF export tables"
                    "directory:Unity executable root" "current_input_file:Mono export surface"
                    "same Unity product directory; runtime coordinate basis is its own file" true
                    "exact Mono runtime exports independently validate the Mono scripting runtime used by this Unity executable/managed-payload relationship"
                  boostFirst:=5,boostSecond:=10,strongPriority:=true }]
          | _, _, _ => []

def roleFor (p : NativePath) (fallback : String) : String :=
  match v.index (v.key p) with
  | none => fallback
  | some i => role i

def artifactEffect (a : DirectoryArtifactFact) : Effect :=
  let scope := "producer_report="++pathUtf8 r.input ++
    if a.graphLinked then "; artifact_graph_depth="++toString a.graphDepth ++
      "; artifact_graph_state="++a.graphState else ""
  let basis := "persisted regular artifact registered after producer validation; relation=" ++
    a.relation ++ if a.sha256 != "" then "; sha256="++a.sha256 else ""
  let kind :=
    if a.relation == "analysis_of" then "artifact_analysis_derivative"
    else if a.relation == "runtime_recovered_image" then "runtime_recovered_artifact"
    else "artifact_materialization"
  let reason :=
    if a.relation == "analysis_of" then
      "persisted analysis derivative has an exact parent artifact and file identity"
    else "validated producer materialized this child at an exact path with recorded file identity"
  let x := makeRelation a.parent a.path true kind .confirmed
    (roleFor v role a.parent "producer_artifact") a.role basis a.source
    ("artifact_path:"++pathUtf8 a.parent)
    ("artifact_path:"++pathUtf8 a.path ++ if a.sha256 == "" then "" else ";sha256="++a.sha256)
    scope false reason
  .emit {relation:=x}

def godotLibraryEffect (g : DirectoryGodotLibraryFact) : Effect :=
  let x := makeRelation g.descriptor g.target true "godot_gdextension_library_reference"
    .confirmed "gdextension_descriptor" "native_extension"
    "validated .gdextension descriptor library path exactly matches a validated PCK child"
    "Godot GDExtension descriptor/bundle analysis" ("PCK entry:"++g.descriptorEntry)
    ("PCK entry:"++g.targetEntry)
    "validated PCK child namespace; extracted files retain independent current_input_file offsets"
    false "validated GDExtension descriptor explicitly references this exact validated native child path"
  .emit {relation:=x}

def materializationEffects : List Effect :=
  r.artifacts.map (artifactEffect v role r) ++ r.godotLibraryRefs.map godotLibraryEffect

def validatedImage (i : ℕ) : Bool :=
  match v.plan.candidates[i]? with
  | none => false
  | some c => c.analysisState == "ANALYZED" && c.structuralConfidence == "validated" &&
    (role i == "executable_root" || role i == "interpreter_host" || role i == "shared_library" ||
      role i == "object")

variable (src : ℕ)

def lookUp (p : NativePath) : List ℕ :=
  ((v.index (v.key p)).filter fun i => i != src).toList

/-- The ancestors of a directory up to the root of the plan, each with the referenced path
below it: how many were tried, and what was found. -/
def resPathMatches (src : ℕ) (rel : String) : ℕ → NativePath → ℕ×List ℕ
  | 0, _ => (0,[])
  | fuel+1, base =>
    if v.key base != v.key v.plan.root && !v.fs.isUnder base v.plan.root then (0,[])
    else
      let found := lookUp v src (base.append ⟨rel⟩)
      if v.key base == v.key v.plan.root then (1,found)
      else
        let parent := base.parentPath
        if parent == base then (1,found)
        else
          let rest := resPathMatches src rel fuel parent
          (rest.1+1,found++rest.2)

/-- The targets of a reference, and the lookups they cost. -/
def referenceMatches (r : DirectoryReportIndex) (ref : RelationshipReferenceEvidence) : ℕ×List ℕ :=
  match ref.resolutionMode with
  | .exactRelativePath => (1,lookUp v src (r.input.parentPath.append ⟨ref.reference⟩))
  | .godotResPath =>
    let rel := resRelative ref.reference
    if rel == "" then (0,[]) else resPathMatches v src rel 128 r.input.parentPath
  | .exactAbsolutePath => (1,lookUp v src ⟨ref.reference⟩)
  | .declaredBasenameValidatedImage =>
    let siblings := (v.candidateBasename (lowerAscii (declaredLeaf ref.reference))).filter fun i =>
      i != src && v.key (v.pathOf i).parentPath == v.key r.input.parentPath
    let found :=
      if ref.targetMustBeValidatedImage then siblings.filter (validatedImage v role) else siblings
    (found.length,found)
  | .other => (0,[])

/-- Why a GDExtension reference is not closed. -/
def nativeEntryProblem (tr : Option DirectoryReportIndex) (ref : RelationshipReferenceEvidence)
    (entryMatches : ℕ) : String :=
  match tr with
  | none => "target path is exact but target is not a validated PE image"
  | some tr =>
    if !tr.peValid then "target path is exact but target is not a validated PE image"
    else if !tr.peDll || !tr.pe64 || tr.peMachine != 0x8664 then
      "target path is exact but target is not a PE64 x86-64 DLL"
    else if !gdextensionPe64X64FeatureCompatible ref.featureKey then
      "target path is exact but descriptor feature key conflicts with PE64 x86-64 Windows format"
    else if tr.peExportsTruncated then
      "target path is exact but compact export inventory is truncated; entry uniqueness is unresolved"
    else if entryMatches != 1 then
      "target path is exact but entry_symbol does not resolve to exactly one export"
    else "target path and entry_symbol match, but the export is forwarded"

/-- The entry export of a GDExtension target, when everything about it is closed. -/
def closedEntry (tr : Option DirectoryReportIndex) (ref : RelationshipReferenceEvidence) :
    Option DirectoryPeExportFact :=
  match tr with
  | none => none
  | some tr =>
    let nativeShape := tr.peValid && tr.peDll && tr.pe64 && tr.peMachine == 0x8664 &&
      gdextensionPe64X64FeatureCompatible ref.featureKey
    match tr.peExports.filter fun e => e.name == ref.targetSymbol with
    | [entry] =>
      if nativeShape && !tr.peExportsTruncated && !entry.forwarded then some entry else none
    | _ => none

def gdextensionEffects (ref : RelationshipReferenceEvidence) (dst : ℕ) : List Effect :=
  let tr := v.reportIndex (v.key (v.pathOf dst))
  let targetCoord := "artifact_path:"++pathUtf8 (v.pathOf dst)
  let basis := ref.evidenceBasis++"; exact res:// path resolves through exactly one directory ancestor"
  let scope := "static Godot descriptor/native relationship only; target code is not executed and engine load success is not asserted"
  match closedEntry tr ref with
  | some entry =>
    let x := makeRelation r.input (v.pathOf dst) true ref.kind .confirmed "gdextension_descriptor"
      "native_extension"
      (basis++"; declared feature key is PE64/x86-64 Windows-compatible; target is a validated PE DLL; entry_symbol resolves to exactly one non-forwarded export")
      ref.evidenceSource ref.sourceCoordinate
      (targetCoord++";PE_export="++ref.targetSymbol++";rva="++hx entry.rva) scope true
      "validated GDExtension descriptor uniquely binds this native DLL and its configured entry export; prioritize the native extension as the application reverse-engineering surface"
    [.setRole dst "native_extension",
      .emit
        { relation:={ x with
            evidenceLevel := "R4_SEMANTIC_APPLICATION_RELATION",semanticRelevance := "APPLICATION"
            firstRelationRole:=ref.sourceRelationRole,secondRelationRole:=ref.targetRelationRole
            ambiguity := "NONE" }
          boostFirst:=ref.sourcePriorityDelta,boostSecond:=ref.targetPriorityDelta
          strongPriority:=true,relationshipCap:=ref.priorityCap }]
  | none =>
    let entryMatches := ((tr.map (·.peExports)).getD []).countP fun e => e.name == ref.targetSymbol
    let x := makeRelation r.input (v.pathOf dst) true ref.kind .bounded "gdextension_descriptor"
      (role dst) (basis++"; "++nativeEntryProblem tr ref entryMatches) ref.evidenceSource
      ref.sourceCoordinate targetCoord scope false
      "descriptor path reference is exact, but native entry closure is incomplete; do not promote the target automatically"
    [.emit { relation:={ x with
      evidenceLevel := "R2_STRUCTURAL_RELATION",semanticRelevance := "STRUCTURAL"
      firstRelationRole:=ref.sourceRelationRole,secondRelationRole:=ref.targetRelationRole
      ambiguity := "NATIVE_ENTRY_UNRESOLVED" } }]

/-- A reference with one target that is not a GDExtension library. -/
def referenceEffect (r : DirectoryReportIndex) (ref : RelationshipReferenceEvidence)
    (dst : ℕ) : Effect :=
  let targetCoord :=
    if ref.resolutionMode == .declaredBasenameValidatedImage then
      "validated_direct_sibling_basename:"++(v.pathOf dst).filename ++
        ";declared_runtime_path="++ref.reference
    else "artifact_path:"++pathUtf8 (v.pathOf dst)
  let x := makeRelation r.input (v.pathOf dst) true ref.kind .bounded (role src) (role dst)
    ref.evidenceBasis ref.evidenceSource ref.sourceCoordinate targetCoord
    "static source relationship only; referenced sidecar/stage is not executed and runtime success is not asserted"
    true
    "structured source evidence closes to exactly one admitted target; prioritize the relationship before incidental secondary findings"
  .emit
    { relation:={ x with
        evidenceLevel:=ref.evidenceLevel,semanticRelevance:=ref.semanticRelevance
        firstRelationRole:=ref.sourceRelationRole,secondRelationRole:=ref.targetRelationRole
        ambiguity := "NONE" }
      boostFirst:=ref.sourcePriorityDelta,boostSecond:=ref.targetPriorityDelta
      strongPriority:=false,relationshipCap:=ref.priorityCap }

def referenceEffects (item : DirectoryReportIndex×RelationshipReferenceEvidence) : List Effect :=
  let r := item.1
  let ref := item.2
  match v.index (v.key r.input) with
  | none => []
  | some src =>
    let found := referenceMatches v role src r ref
    .lookups found.1 :: match sortUnique found.2 with
    | [] => []
    | [dst] =>
      if ref.kind == "godot_gdextension_library_reference" &&
          ref.resolutionMode == .godotResPath then gdextensionEffects v role r ref dst
      else [referenceEffect v role src r ref dst]
    | several => emitAmbiguous v role r.input several ref.kind (role src) ref.evidenceBasis
        ref.evidenceSource ref.sourceCoordinate ref.evidenceLevel ref.semanticRelevance
        "exact source reference has multiple admissible targets; automatic relationship priority is refused"

/-- The ELF reports a loader name stands for: by `DT_SONAME`, else by file name. -/
def elfMatches (name : String) : Bool×List ℕ :=
  let bySoname := v.elfSoname name
  if !bySoname.isEmpty then (true,(sortUnique bySoname).filter (· != src))
  else (false,(sortUnique (v.elfBasename name)).filter (· != src))

def elfTargetCoordinate (sonameMatch : Bool) (dst : ℕ) (tr : DirectoryReportIndex) : String :=
  if sonameMatch && tr.elfSoname != "" then
    "current_input_file+"++hx tr.elfSonameFileOffset++":DT_SONAME("++tr.elfSoname++")"
  else "artifact_basename:"++(v.pathOf dst).filename

def sonameText (sonameMatch : Bool) : String :=
  if sonameMatch then " with exact DT_SONAME match" else " with exact artifact basename match"

def elfInterpreterEffects (r : DirectoryReportIndex) : List Effect :=
  if r.elfInterpreter == "" then []
  else
    let found := elfMatches v src (declaredLeaf r.elfInterpreter)
    let sourceCoord := "current_input_file:PT_INTERP("++r.elfInterpreter++")"
    .lookups found.2.length :: match found.2 with
    | [] => []
    | [dst] =>
      match v.reportIndex (v.key (v.pathOf dst)) with
      | none => []
      | some tr =>
        if !tr.elfValid then []
        else
          [.emit
            { relation:=makeRelation r.input (v.pathOf dst) true "elf_interpreter_dependency"
                .bounded (role src) (role dst)
                ("validated PT_INTERP exact loader path + one validated in-directory ELF target" ++
                  sonameText found.1)
                "ELF PT_INTERP / target ELF identity" sourceCoord
                (elfTargetCoordinate v found.1 dst tr)
                "directory candidate set only; host loader path and runtime namespace are not asserted"
                true
                "validated PT_INTERP names exactly one supplied loader identity; supplied loader should be reviewed with this executable"
              boostSecond:=10 }]
    | several => emitAmbiguous v role r.input several "elf_interpreter_dependency" (role src)
        "validated PT_INTERP exact loader path + validated in-directory ELF identity"
        "ELF PT_INTERP + target DT_SONAME/basename" sourceCoord "R2_STRUCTURAL_RELATION"
        "STRUCTURAL"
        "PT_INTERP names multiple admissible loader targets; loader choice is unresolved"

def elfNeededEffects (r : DirectoryReportIndex) (needed : String) : List Effect :=
  let found := elfMatches v src needed
  let sourceCoord := "current_input_file:DT_NEEDED("++needed++")"
  .lookups found.2.length :: match found.2 with
  | [] => []
  | [dst] =>
    match v.reportIndex (v.key (v.pathOf dst)) with
    | none => []
    | some tr =>
      if !tr.elfValid then []
      else
        [.emit
          { relation:=makeRelation r.input (v.pathOf dst) true "elf_loader_dependency" .bounded
              (role src) (role dst)
              ("validated DT_NEEDED exact module reference + one validated in-directory ELF target" ++
                sonameText found.1)
              "ELF PT_DYNAMIC / dynamic string table" sourceCoord
              (elfTargetCoordinate v found.1 dst tr)
              "directory candidate set only; runtime loader search/RPATH/namespace is not asserted"
              true
              "validated ELF loader metadata references exactly one in-directory validated target; runtime loader selection remains unobserved"
            boostSecond:=8 }]
  | several => emitAmbiguous v role r.input several "elf_loader_dependency" (role src)
      "validated DT_NEEDED exact module reference has multiple validated in-directory targets"
      "ELF PT_DYNAMIC / dynamic string table" sourceCoord "R2_STRUCTURAL_RELATION" "STRUCTURAL"
      "DT_NEEDED target set is ambiguous; automatic loader target priority is refused"

/-- A DLL named by a module of a PE image: the imports and the P/Invoke modules differ in
their texts only. -/
def peModuleEffects (r : DirectoryReportIndex) (mod kind ambiguousCoord sourceCoord
    evidenceSource basis ambiguousBasis scope ambiguousReason reason : String) : List Effect :=
  let byName := v.peBasename mod
  if byName.isEmpty then []
  else
    let found := byName.filter (· != src)
    .lookups found.length :: match found with
    | [] => []
    | [dst] =>
      [.emit
        { relation:=makeRelation r.input (v.pathOf dst) true kind .bounded (role src) (role dst)
            basis evidenceSource sourceCoord ("artifact_basename:"++(v.pathOf dst).filename)
            scope true reason
          boostSecond:=8 }]
    | several => emitAmbiguous v role r.input several kind (role src) ambiguousBasis evidenceSource
        ambiguousCoord "R2_STRUCTURAL_RELATION" "STRUCTURAL" ambiguousReason

def peImportEffects (r : DirectoryReportIndex) (m : DirectoryPeImportFact) : List Effect :=
  peModuleEffects v role src r (lowerAscii m.name) "pe_loader_dependency"
    ("current_input_file:IMPORT_MODULE("++m.name++")")
    ("current_input_file:RVA="++hx m.descriptorRva++":IMPORT_MODULE("++m.name++")")
    "PE import table"
    "validated PE import descriptor module name + one validated in-directory PE DLL target"
    "validated PE import descriptor exact module reference has multiple validated DLL targets"
    "directory candidate set only; Windows loader/SxS/search order is not asserted"
    "PE import target set is ambiguous; automatic loader target priority is refused"
    "validated PE import metadata references exactly one in-directory validated DLL target; runtime loader selection remains unobserved"

def pinvokeEffects (r : DirectoryReportIndex) (mod : String) : List Effect :=
  peModuleEffects v role src r mod "dotnet_pinvoke_dependency"
    ("current_input_file:ECMA-335 PInvoke("++mod++")")
    ("current_input_file:ECMA-335 PInvoke("++mod++")") ".NET ImplMap/PInvoke metadata"
    "validated ECMA-335 P/Invoke module reference + one validated in-directory PE DLL target"
    "validated ECMA-335 P/Invoke module reference has multiple validated DLL targets"
    "directory candidate set only; CLR/native loader resolution is not asserted"
    "P/Invoke target set is ambiguous; automatic native target priority is refused"
    "validated .NET P/Invoke metadata references exactly one in-directory validated DLL target; runtime loader selection remains unobserved"

def loaderEffects : List Effect :=
  match v.index (v.key r.input) with
  | none => []
  | some src =>
    (if r.elfValid then
      elfInterpreterEffects v role src r ++
        (keepFirst id (r.elfNeeded.filter (· != ""))).flatMap (elfNeededEffects v role src r)
    else []) ++
    (if r.peValid then
      (keepFirst (fun m => lowerAscii m.name)
        (r.peImports.filter fun m => lowerAscii m.name != "")).flatMap
          (peImportEffects v role src r) ++
        r.dotnetPinvokeModules.flatMap (pinvokeEffects v role src r)
    else [])

def wasmModuleMatches (path : NativePath) (module : String) : Bool :=
  let m := lowerAscii module
  let file := lowerAscii path.filename
  let stem := lowerAscii path.stem
  m != "" && (m == file || m == stem || m++".wasm" == file)

def wasmTargets (module : String) : List (DirectoryReportIndex×ℕ) :=
  v.reports.filterMap fun r =>
    match v.index (v.key r.input) with
    | none => none
    | some i =>
      if i == src || !r.wasmValid || !wasmModuleMatches r.input module then none else some (r,i)

def wasmImportEffects (r : DirectoryReportIndex) (imp : DirectoryWasmImportFact) : List Effect :=
  if imp.module == "" || imp.name == "" then []
  else
    let named := wasmTargets v src imp.module
    .lookups named.length :: match named.filter fun t => t.1.wasmExports.contains imp.name with
    | [(target,dst)] =>
      let x := makeRelation r.input target.input true "wasm_import_module_dependency" .bounded
        (role src) (role dst)
        "validated WebAssembly import module/name + one supplied Wasm sibling whose function export matches exactly"
        "WebAssembly import/export sections"
        ("current_input_file:import("++imp.module++"!"++imp.name++")")
        ("current_input_file:export("++imp.name++")")
        "supplied directory candidate set only; WebAssembly module search/instantiation success is not asserted"
        true
        "validated Wasm import closes to one supplied module/export target; prioritize the target for static review while retaining runtime resolution uncertainty"
      [.emit
        { relation:={ x with
            firstRelationRole := "reference_consumer",secondRelationRole := "reference_target" }
          boostSecond:=8 }]
    | _ => []

def wasmEffects : List Effect :=
  if !r.wasmValid then []
  else
    match v.index (v.key r.input) with
    | none => []
    | some src => r.wasmImports.flatMap (wasmImportEffects v role src r)

/-- The opaque siblings of an interpreter host. -/
def programCandidates (r : DirectoryReportIndex) : List ℕ :=
  (v.positions fun c => v.key c.path.parentPath == v.key r.input.parentPath &&
    c.analysisState == "ANALYZED" && c.readable).filter fun i => i != src && role i == "data"

def interpreterEffects : List Effect :=
  if !r.interpreterBoundaryConfirmed || r.interpreterExactProgramTargetBound then []
  else
    match v.index (v.key r.input) with
    | none => []
    | some src =>
      if r.interpreterTargetRole != "BYTECODE_PROGRAM" &&
          r.interpreterTargetRole != "RUNTIME_IMAGE" then []
      else
        let found := programCandidates v role src r
        let endpoint :=
          if r.interpreterTargetRole == "RUNTIME_IMAGE" then "runtime_image_candidate"
          else "bytecode_program_candidate"
        let sourceCoord :=
          if r.interpreterExternalProgramArgument then
            "current_input_image:confirmed argv[1] -> file-read -> interpreter-dispatch chain"
          else "current_input_image:ecosystem-wide "++r.interpreterRuntimeFamily ++
            " runtime/interpreter identity"
        let basis :=
          if r.interpreterExternalProgramArgument then
            "confirmed external-program requirement plus opaque direct-sibling inventory; runtime argv value itself is unknown"
          else "confirmed runtime/interpreter family plus opaque direct-sibling inventory; no load-path binding was recovered"
        .lookups found.length :: match found with
        | [] => []
        | [dst] =>
          -- the role is rewritten before the relation reads it
          let x := makeRelation r.input (v.pathOf dst) true "interpreter_program_candidate"
            .routeHint (role src) endpoint basis "AW bounded interpreter boundary + directory inventory"
            sourceCoord ("candidate:"++pathUtf8 (v.pathOf dst))
            "same direct parent only; filename/suffix is not semantic proof and the endpoint is not asserted"
            false
            "one admitted opaque sibling is a routing candidate for the already-confirmed interpreter/program boundary; exact target selection is withheld"
          [.setRole dst endpoint,
            .emit { relation:={ x with
              firstRelationRole := "interpreter_host",secondRelationRole:=endpoint
              ambiguity :=
                if r.interpreterExternalProgramArgument then "RUNTIME_ARGUMENT_VALUE_UNRESOLVED"
                else "RUNTIME_IMAGE_SELECTION_UNRESOLVED" } }]
        | several =>
          .ambiguousReference :: several.map fun dst =>
            let x := makeRelation r.input (v.pathOf dst) true "interpreter_program_candidate"
              .unresolved (role src) (role dst) basis
              "AW bounded interpreter boundary + directory inventory" sourceCoord
              ("candidate:"++pathUtf8 (v.pathOf dst))
              "multiple opaque direct siblings are admissible; endpoint selection is withheld" false
              "multiple siblings could satisfy the external program/image role; automatic selection is refused"
            .emit { relation:={ x with
              evidenceLevel := "R1_ROUTING_HINT",semanticRelevance := "ROUTING"
              firstRelationRole := "interpreter_host",secondRelationRole:=endpoint
              ambiguity := "MULTIPLE_PROGRAM_CANDIDATES" } }

/-- The same-stem sibling `d` of the executable `c`. -/
def siblingEffects (i j : ℕ) : List Effect :=
  let c := v.pathOf i
  let d := v.pathOf j
  let hint (kind basis scope reason : String) : Effect :=
    let x := makeRelation c d false kind .routeHint (role i) (role j) basis
      "bounded directory inventory" ("artifact_basename:"++c.filename)
      ("artifact_basename:"++d.filename) scope false reason
    .emit {relation:=x}
  if ((v.plan.candidates[j]?).map (·.typeHint)).getD "" == "Godot PCK" then
    [hint "executable_pck_sibling"
      "same stem + recognized/validated PCK are routing evidence only"
      "same parent directory; no consumer/producer semantics inferred"
      "validated/recognized PCK plus structurally executable same-stem sibling; filename relationship is not ecosystem confirmation"]
  else if role j == "shared_library" then
    [hint "executable_sidecar"
      "same stem + validated shared-library identity are routing evidence only"
      "same parent directory; no load/reference semantics inferred"
      "structural executable and same-stem shared-library sibling; name is weak relationship evidence only"]
  else []

/-- The same-stem siblings of a candidate. -/
def stemEffects (i : ℕ) : List Effect :=
  if role i != "executable_root" && role i != "interpreter_host" then []
  else
    let stems := v.sameStem (v.pathOf i)
    .lookups stems.length :: (stems.filter (· != i)).flatMap (siblingEffects v role i)

end Passes

def runPass {ι : Type*} (v : View) (effects : (ℕ → String) → ι → List Effect) (items : List ι)
    (b : Build) : Build :=
  items.foldl (fun b item => (effects b.role item).foldl (Build.apply v) b) b

variable (plan : DirectoryPlan)

/-- The plan when the build starts: what an earlier build left is cleared. -/
def clearedPlan : DirectoryPlan :=
  { plan with
    relationships:=[],relationshipCandidateLookups:=0,relationshipAmbiguousReferenceCount:=0
    relationshipOmittedCount:=0,relatedFileOmittedCount:=0,relationshipBudgetExhausted:=false
    candidates:=plan.candidates.map fun c =>
      {c with relatedFiles:=[],relationshipPriorityBoost:=0} }

variable (reports : List DirectoryReportIndex)

def referenceItems : List (DirectoryReportIndex×RelationshipReferenceEvidence) :=
  reports.flatMap fun r => r.relationshipReferences.map fun ref => (r,ref)

/-- The passes in the order of the source. -/
def runPasses (v : View) (b : Build) : Build :=
  let b := runPass v (fun _ => unrealEffects v) v.reports b
  let b := runPass v (fun _ => il2cppEffects v) v.reports b
  let b := runPass v (fun _ => monoEffects v) v.reports.zipIdx b
  let b := runPass v (materializationEffects v) v.reports b
  let b := runPass v (referenceEffects v) (referenceItems v.reports) b
  let b := runPass v (loaderEffects v) v.reports b
  let b := runPass v (wasmEffects v) v.reports b
  let b := runPass v (interpreterEffects v) v.reports b
  runPass v (stemEffects v) (List.range v.plan.candidates.length) b

/-- What the passes of a build look up. -/
def viewOf : View :=
  ⟨fs,clearedPlan plan,reports⟩

def buildDirectoryRelationships : Build :=
  runPasses (viewOf fs plan reports) {plan:=clearedPlan plan,reports}

def sortDirectoryCandidates (candidates : List DirectoryCandidate) : List DirectoryCandidate :=
  candidates.insertionSort fun a b => directoryCandidateBetter a b = true

end AutoRefirst.DirectoryRelationships
