import AutoRefirst.StreamNumbers

/-!
# The JSON of a directory

What `render_directory_json_impl` writes, text by text. A path is its text in UTF-8, and `path_key`,
which asks the file system, is a parameter. Texts keep the bytes of their fields; the order of a map
is the order of its list.
-/

namespace AutoRefirst.DirectoryJson
open JsonText

def hexDigit (n : ℕ) : UInt8 := (bytes "0123456789abcdef").getD n 0

def escapeByte (c : UInt8) : Bytes :=
  if c = byte '"' then bytes "\\\""
  else if c = byte '\\' then bytes "\\\\"
  else if c = 0x08 then bytes "\\b"
  else if c = 0x0c then bytes "\\f"
  else if c = 0x0a then bytes "\\n"
  else if c = 0x0d then bytes "\\r"
  else if c = 0x09 then bytes "\\t"
  else if c < 0x20 then bytes "\\u00"++[hexDigit (c.toNat/16),hexDigit (c.toNat % 16)]
  else [c]

def directoryJsonEscape (v : Bytes) : Bytes := v.flatMap escapeByte

def str (s : Bytes) : Bytes := quote (directoryJsonEscape s)

def flag (b : Bool) : Bytes := bytes (if b then "true" else "false")

def arr (ts : List Bytes) : Bytes := byte '[' :: (commas ts ++ [byte ']'])

def strs (xs : List Bytes) : Bytes := arr (xs.map str)

def obj (ms : List (Bytes×Bytes)) : Bytes :=
  byte '{' :: (commas (ms.map fun m => m.1++byte ':' :: m.2) ++ [byte '}'])

/-- Members under keys that the source spells out. -/
def fields (ms : List (String×Bytes)) : List (Bytes×Bytes) :=
  ms.map fun m => (quote (bytes m.1),m.2)

structure RuntimeModalityRequirement where
  modality : Bytes
  state : Bytes := bytes "REQUIRED"
  confidence : Double
  (evidenceGate reason : Bytes := [])
  (evidence negativeEvidence artifacts : List Bytes := [])

structure RuntimeModalityGuidance where
  policy : Bytes := bytes "STATIC_GUIDANCE_ONLY"
  staticEvidenceOnly : Bool := true
  runtimeExecutionAuthorized : Bool := false
  requirements : List RuntimeModalityRequirement := []
  priorityGuidance : List Bytes := []

structure DirectoryRelationship where
  (first second : Bytes)
  directed : Bool := false
  kind : Bytes
  state : Bytes := bytes "UNRESOLVED"
  (firstRole secondRole firstRelationRole secondRelationRole evidenceBasis evidenceSource
    sourceCoordinate targetCoordinate provenanceScope : Bytes := [])
  evidenceLevel : Bytes := bytes "R0_COLOCATED_ONLY"
  (ambiguity semanticRelevance : Bytes := bytes "NONE")
  priorityEligible : Bool := false
  (firstPriorityDelta secondPriorityDelta : ℤ := 0)
  reason : Bytes := []

structure DirectoryCandidate where
  path : Bytes
  size : ℕ := 0
  typeHint : Bytes := bytes "unknown"
  structuralConfidence : Bytes := bytes "low"
  role : Bytes := bytes "unknown"
  (priorityScore relationshipPriorityBoost : ℤ := 0)
  priorityTier : Bytes := bytes "Tier 3"
  (priorityReasons relatedFiles : List Bytes := [])
  runtimeEligible : Bool := false
  runtimeEligibilityReason : Bytes := []
  analysisState : Bytes := bytes "PENDING"
  skippedReason : Bytes := []
  runtimeSelected : Bool := false
  runtimeState : Bytes := bytes "NOT_REQUESTED"
  runtimeSkipReason : Bytes := []
  (analysisElapsedMs runtimeElapsedMs : ℕ := 0)
  reportDetailState : Bytes := bytes "NOT_RENDERED"
  reportDetailReason : Bytes := []
  reportFullBytes : ℕ := 0
  artifactMaterializationState : Bytes := bytes "NOT_MEASURED"
  artifactMaterializationReason : Bytes := []
  (artifactMaterializedBytes artifactMaterializedFiles : ℕ := 0)

structure DirectoryTraversalSkip where
  (path reason : Bytes)

structure DirectoryPlan where
  root : Bytes
  maxDepth : ℕ := 0xffffffff
  maxRuntimeTargets : ℕ := 4
  maxCandidates : ℕ := 1024
  (regularFilesSeen candidateOmittedCount : ℕ := 0)
  candidateAdmissionBudgetExhausted : Bool := false
  totalRuntimeBudgetMs : ℕ := 45000
  perTargetTimeoutMs : ℕ := 15000
  runAll : Bool := false
  maxRelationships : ℕ := 16384
  maxRelatedFilesPerArtifact : ℕ := 32
  maxRenderedRelationships : ℕ := 64
  (relationshipCandidateLookups relationshipAmbiguousReferenceCount relationshipOmittedCount
    relatedFileOmittedCount : ℕ := 0)
  relationshipBudgetExhausted : Bool := false
  candidates : List DirectoryCandidate := []
  relationships : List DirectoryRelationship := []
  traversalSkips : List DirectoryTraversalSkip := []
  (traversalSkipsTotal traversalErrorCount depthLimitedDirectories : ℕ := 0)

structure DirectorySummary where
  (totalFiles analyzedFiles skippedFiles totalBytes discoveredRegularFiles candidateOmittedCount
    : ℕ := 0)
  isPartial : Bool := false
  partialReasons : List Bytes := []
  typeCounts : List (Bytes×ℕ) := []
  confirmedEcosystems : List Bytes := []
  (unityEngineState unityBackendState : Bytes := bytes "ABSENT")
  unityNextPriority : Bytes := []
  (unityMonoRelationshipCount unityIl2cppRelationshipCount highPriorityEvidenceCount
    artifactRelationshipCount relationshipOmittedCount relationshipAmbiguousReferenceCount : ℕ := 0)
  relationshipBudgetExhausted : Bool := false
  (failures partials elapsedMs : ℕ := 0)
  runtimeModality : RuntimeModalityGuidance := {}

structure DirectoryReportRendering where
  profile : Bytes := bytes "full"
  (isPartial truncated : Bool := false)
  (fullReportCount fullReportsRendered fullReportsDeferred knownFullReportBytes inlineReportBytes
    knownDeferredReportBytes inlineReportBudgetBytes perReportMaxBytes spoolHardBudgetBytes
    spoolPeakBytes spoolResidentBytes cacheEvictedReports reportsReselected : ℕ := 0)
  (prioritiesFinalized runtimeDetailDeferred : Bool := false)
  retainedFullReportsPeak : ℕ := 0
  (modelRetentionPolicy selectionPolicy reason detailRetrievalMode detailRetrievalCommand
    : Bytes := [])

structure DirectoryArtifactRendering where
  profile : Bytes := bytes "unbounded"
  scope : Bytes := bytes "automatic_static_preparation"
  isPartial : Bool := false
  (maxBytes maxFiles preRelationshipMaxBytes preRelationshipMaxFiles postRelationshipReserveBytes
    postRelationshipReserveFiles materializedBytes materializedFiles retainedCandidateRoots
    deferredCandidateCount knownOmittedBytes knownOmittedFiles unknownOmittedCandidateCount
    : ℕ := 0)
  (selectionPolicy reason detailRetrievalMode detailRetrievalCommand : Bytes := [])

def renderRequirement (r : RuntimeModalityRequirement) : Bytes :=
  obj (fields [("modality",str r.modality),("state",str r.state),
    ("confidence",r.confidence.text),("evidence_gate",str r.evidenceGate),
    ("reason",str r.reason),("evidence",strs r.evidence),
    ("negative_evidence",strs r.negativeEvidence),("artifacts",strs r.artifacts)])

def renderModality (m : RuntimeModalityGuidance) : Bytes :=
  obj (fields [("policy",str m.policy),("static_evidence_only",flag m.staticEvidenceOnly),
    ("runtime_execution_authorized",flag m.runtimeExecutionAuthorized),
    ("priority_guidance",strs m.priorityGuidance),
    ("requirements",arr (m.requirements.map renderRequirement))])

def relationRenderPriority (r : DirectoryRelationship) : ℕ :=
  if (bytes "unity_").isPrefixOf r.kind ∨ r.kind = bytes "godot_gdextension_library_reference" then 0
  else if r.evidenceLevel ∈
      ["R4_SEMANTIC_APPLICATION_RELATION","R3_EXACT_DATA_DEPENDENCY"].map bytes then 0
  else if r.kind ∈ ["elf_loader_dependency","elf_interpreter_dependency","pe_loader_dependency",
      "dotnet_pinvoke_dependency","script_runner_argv","manifest_declared_member",
      "runtime_recovered_artifact"].map bytes then 1
  else if r.kind = bytes "artifact_materialization" then 2
  else if r.kind = bytes "artifact_analysis_derivative" then 3
  else if r.state = bytes "ROUTE_HINT" then 5
  else 4

def byPriority (rs : List DirectoryRelationship) : List DirectoryRelationship :=
  rs.mergeSort fun r s => relationRenderPriority r ≤ relationRenderPriority s

def perFileRelationCap : ℕ := 8
def topCap : ℕ := 12
def skipCap : ℕ := 64

/-- The first of the relations with the greatest number. -/
def worstIndex (rs : List DirectoryRelationship) : ℕ :=
  rs.findIdx fun r => rs.all fun s => relationRenderPriority s ≤ relationRenderPriority r

def addRef (refs : List DirectoryRelationship) (r : DirectoryRelationship) :
    List DirectoryRelationship :=
  if refs.length < perFileRelationCap then refs++[r]
  else
    match refs[worstIndex refs]? with
    | some worst =>
      if relationRenderPriority r < relationRenderPriority worst then refs.set (worstIndex refs) r
      else refs
    | none => refs

variable (pathKey : Bytes→Bytes) (plan : DirectoryPlan)

def relationRefs (c : DirectoryCandidate) : List DirectoryRelationship :=
  let ends := plan.relationships.flatMap fun r => [(r.first,r),(r.second,r)]
  byPriority (((ends.filter fun e => pathKey e.1 = pathKey c.path).map (·.2)).foldl addRef [])

def renderRelation (r : DirectoryRelationship) : Bytes :=
  obj (fields [("first",str r.first),("second",str r.second),("directed",flag r.directed),
    ("kind",str r.kind),("state",str r.state),("first_role",str r.firstRole),
    ("second_role",str r.secondRole),("first_relation_role",str r.firstRelationRole),
    ("second_relation_role",str r.secondRelationRole),("evidence_basis",str r.evidenceBasis),
    ("evidence_source",str r.evidenceSource),("source_coordinate",str r.sourceCoordinate),
    ("target_coordinate",str r.targetCoordinate),("provenance_scope",str r.provenanceScope),
    ("evidence_level",str r.evidenceLevel),("ambiguity",str r.ambiguity),
    ("semantic_relevance",str r.semanticRelevance),
    ("priority_eligible",flag r.priorityEligible),
    ("first_priority_delta",integer r.firstPriorityDelta),
    ("second_priority_delta",integer r.secondPriorityDelta),("reason",str r.reason)])

variable (c : DirectoryCandidate)

/-- A relation as one of its ends sees it. -/
def renderRef (r : DirectoryRelationship) : Bytes :=
  let isFirst := pathKey r.first = pathKey c.path
  obj (fields [("other",str (if isFirst then r.second else r.first)),("kind",str r.kind),
    ("state",str r.state),
    ("direction",quote (bytes
      (if !r.directed then "UNDIRECTED" else if isFirst then "OUTBOUND" else "INBOUND"))),
    ("relation_role",str (if isFirst then r.firstRelationRole else r.secondRelationRole)),
    ("evidence_level",str r.evidenceLevel),("ambiguity",str r.ambiguity),
    ("semantic_relevance",str r.semanticRelevance),
    ("priority_delta",integer (if isFirst then r.firstPriorityDelta else r.secondPriorityDelta))])

def renderFileRelationRefs (c : DirectoryCandidate) : Bytes :=
  arr ((relationRefs pathKey plan c).map (renderRef pathKey c))

def renderSummary (s : DirectorySummary) : Bytes :=
  obj (fields [("root",str plan.root),("total_files",decimal s.totalFiles),
    ("discovered_regular_files",decimal s.discoveredRegularFiles),
    ("candidate_omitted_count",decimal s.candidateOmittedCount),("partial",flag s.isPartial),
    ("partial_reasons",strs s.partialReasons),("analyzed_files",decimal s.analyzedFiles),
    ("skipped_files",decimal s.skippedFiles),("total_bytes",decimal s.totalBytes),
    ("unity_engine_state",str s.unityEngineState),
    ("unity_backend_state",str s.unityBackendState),
    ("unity_next_priority",str s.unityNextPriority),
    ("unity_mono_relationship_count",decimal s.unityMonoRelationshipCount),
    ("unity_il2cpp_relationship_count",decimal s.unityIl2cppRelationshipCount),
    ("high_priority_evidence_count",decimal s.highPriorityEvidenceCount),
    ("artifact_relationship_count",decimal s.artifactRelationshipCount),
    ("relationship_omitted_count",decimal s.relationshipOmittedCount),
    ("relationship_ambiguous_reference_count",decimal s.relationshipAmbiguousReferenceCount),
    ("relationship_budget_exhausted",flag s.relationshipBudgetExhausted),
    ("failures",decimal s.failures),("partials",decimal s.partials),
    ("elapsed_ms",decimal s.elapsedMs),
    ("type_counts",obj (s.typeCounts.map fun kv => (str kv.1,decimal kv.2))),
    ("confirmed_ecosystems",strs s.confirmedEcosystems),
    ("runtime_modality",renderModality s.runtimeModality)])

def renderTopFile (i : ℕ) : Bytes :=
  obj (fields [("rank",decimal (i+1)),("path",str c.path),("size",decimal c.size),
    ("type_hint",str c.typeHint),("role",str c.role),("tier",str c.priorityTier),
    ("score",integer c.priorityScore),
    ("relationship_priority_boost",integer c.relationshipPriorityBoost),
    ("reasons",strs c.priorityReasons),("related_files",strs c.relatedFiles),
    ("analysis_state",str c.analysisState),("runtime_eligible",flag c.runtimeEligible),
    ("runtime_selected",flag c.runtimeSelected),("runtime_state",str c.runtimeState),
    ("runtime_skip_reason",str c.runtimeSkipReason)])

def reportState : List (String×Bytes) :=
  [("report_detail_state",str c.reportDetailState),
    ("report_full_bytes",decimal c.reportFullBytes),
    ("report_detail_reason",str c.reportDetailReason)]

def artifactState : List (String×Bytes) :=
  [("artifact_materialization_state",str c.artifactMaterializationState),
    ("artifact_materialized_bytes",decimal c.artifactMaterializedBytes),
    ("artifact_materialized_files",decimal c.artifactMaterializedFiles),
    ("artifact_materialization_reason",str c.artifactMaterializationReason)]

def renderFileState (rendering artifactRendering : Bool) (c : DirectoryCandidate) (i : ℕ) : Bytes :=
  obj (fields ([("rank",decimal (i+1)),("path",str c.path),("size",decimal c.size),
    ("type_hint",str c.typeHint),("structural_confidence",str c.structuralConfidence),
    ("role",str c.role),("tier",str c.priorityTier),("score",integer c.priorityScore),
    ("relationship_priority_boost",integer c.relationshipPriorityBoost),
    ("related_files",strs c.relatedFiles),
    ("relationship_refs",renderFileRelationRefs pathKey plan c),
    ("analysis_state",str c.analysisState),("skipped_reason",str c.skippedReason),
    ("analysis_elapsed_ms",decimal c.analysisElapsedMs),
    ("runtime_eligible",flag c.runtimeEligible),
    ("runtime_eligibility_reason",str c.runtimeEligibilityReason),
    ("runtime_selected",flag c.runtimeSelected),("runtime_state",str c.runtimeState),
    ("runtime_skip_reason",str c.runtimeSkipReason),
    ("runtime_elapsed_ms",decimal c.runtimeElapsedMs)] ++
    ((if rendering then reportState c else []) ++
      if artifactRendering then artifactState c else [])))

def renderSelected : Bytes :=
  obj (fields [("path",str c.path),("score",integer c.priorityScore),
    ("tier",str c.priorityTier),("state",str c.runtimeState),
    ("elapsed_ms",decimal c.runtimeElapsedMs)])

def isSkipped : Bool :=
  !c.runtimeSelected && (!c.runtimeSkipReason.isEmpty || c.runtimeEligible)

def renderSkipped : Bytes :=
  obj (fields [("path",str c.path),("runtime_eligible",flag c.runtimeEligible),
    ("state",str c.runtimeState),
    ("reason",str
      (if c.runtimeSkipReason.isEmpty then c.runtimeEligibilityReason else c.runtimeSkipReason))])

def renderTraversalSkip (s : DirectoryTraversalSkip) : Bytes :=
  obj (fields [("path",str s.path),("reason",str s.reason)])

def renderPlan (rendering artifactRendering : Bool) : Bytes :=
  let relationships := byPriority plan.relationships
  let cap := plan.maxRenderedRelationships
  let skips := min plan.traversalSkips.length skipCap
  obj (fields [("max_depth",decimal plan.maxDepth),("max_candidates",decimal plan.maxCandidates),
    ("regular_files_seen",decimal plan.regularFilesSeen),
    ("candidate_omitted_count",decimal plan.candidateOmittedCount),
    ("candidate_admission_budget_exhausted",flag plan.candidateAdmissionBudgetExhausted),
    ("candidate_admission_policy",quote (bytes
      "bounded preflight semantic priority; score descending, deterministic path tie-break; all admitted files retain compact state")),
    ("candidate_detail_retrieval",obj (fields [("mode",quote (bytes "reanalyze_file")),
      ("command",quote (bytes "auto-refirst <deferred-file> --json"))])),
    ("max_runtime_targets",decimal plan.maxRuntimeTargets),
    ("total_runtime_budget_ms",decimal plan.totalRuntimeBudgetMs),
    ("per_target_timeout_ms",decimal plan.perTargetTimeoutMs),("run_all",flag plan.runAll),
    ("max_relationships",decimal plan.maxRelationships),
    ("max_related_files_per_artifact",decimal plan.maxRelatedFilesPerArtifact),
    ("max_rendered_relationships",decimal plan.maxRenderedRelationships),
    ("relationship_candidate_lookups",decimal plan.relationshipCandidateLookups),
    ("relationship_ambiguous_reference_count",decimal plan.relationshipAmbiguousReferenceCount),
    ("relationship_omitted_count",decimal plan.relationshipOmittedCount),
    ("related_file_omitted_count",decimal plan.relatedFileOmittedCount),
    ("relationship_budget_exhausted",flag plan.relationshipBudgetExhausted),
    ("relationships_rendered",decimal (min relationships.length cap)),
    ("relationships_truncated",flag (cap < relationships.length)),
    ("top_priority_files",arr ((plan.candidates.take topCap).mapIdx fun i c => renderTopFile c i)),
    ("file_states",arr (plan.candidates.mapIdx fun i c =>
      renderFileState pathKey plan rendering artifactRendering c i)),
    ("runtime_selected",arr ((plan.candidates.filter (·.runtimeSelected)).map renderSelected)),
    ("runtime_skipped",arr (((plan.candidates.filter isSkipped).take skipCap).map renderSkipped)),
    ("relationships",arr ((relationships.take cap).map renderRelation)),
    ("traversal_skips_total",decimal plan.traversalSkipsTotal),
    ("traversal_skips_rendered",decimal skips),
    ("depth_limited_directories",decimal plan.depthLimitedDirectories),
    ("traversal_error_count",decimal plan.traversalErrorCount),
    ("traversal_skips_truncated",flag (skips < plan.traversalSkipsTotal)),
    ("traversal_skips",arr ((plan.traversalSkips.take skipCap).map renderTraversalSkip))])

def renderRetrieval (mode command : Bytes) : Bytes :=
  obj (fields [("mode",str mode),("command",str command)])

def renderReports (r : DirectoryReportRendering) : Bytes :=
  obj (fields [("profile",str r.profile),("partial",flag r.isPartial),
    ("truncated",flag r.truncated),("full_report_count",decimal r.fullReportCount),
    ("full_reports_rendered",decimal r.fullReportsRendered),
    ("full_reports_deferred",decimal r.fullReportsDeferred),
    ("known_full_report_bytes",decimal r.knownFullReportBytes),
    ("inline_report_bytes",decimal r.inlineReportBytes),
    ("known_deferred_report_bytes",decimal r.knownDeferredReportBytes),
    ("inline_report_budget_bytes",decimal r.inlineReportBudgetBytes),
    ("per_report_max_bytes",decimal r.perReportMaxBytes),
    ("spool_hard_budget_bytes",decimal r.spoolHardBudgetBytes),
    ("spool_peak_bytes",decimal r.spoolPeakBytes),
    ("spool_resident_bytes",decimal r.spoolResidentBytes),
    ("cache_evicted_reports",decimal r.cacheEvictedReports),
    ("reports_reselected",decimal r.reportsReselected),
    ("priorities_finalized",flag r.prioritiesFinalized),
    ("runtime_detail_deferred",flag r.runtimeDetailDeferred),
    ("retained_full_reports_peak",decimal r.retainedFullReportsPeak),
    ("model_retention_policy",str r.modelRetentionPolicy),
    ("selection_policy",str r.selectionPolicy),("reason",str r.reason),
    ("detail_retrieval",renderRetrieval r.detailRetrievalMode r.detailRetrievalCommand)])

def renderArtifacts (r : DirectoryArtifactRendering) : Bytes :=
  obj (fields [("profile",str r.profile),("partial",flag r.isPartial),("scope",str r.scope),
    ("max_bytes",decimal r.maxBytes),("max_files",decimal r.maxFiles),
    ("pre_relationship_max_bytes",decimal r.preRelationshipMaxBytes),
    ("pre_relationship_max_files",decimal r.preRelationshipMaxFiles),
    ("post_relationship_reserve_bytes",decimal r.postRelationshipReserveBytes),
    ("post_relationship_reserve_files",decimal r.postRelationshipReserveFiles),
    ("materialized_bytes",decimal r.materializedBytes),
    ("materialized_files",decimal r.materializedFiles),
    ("retained_candidate_roots",decimal r.retainedCandidateRoots),
    ("deferred_candidate_count",decimal r.deferredCandidateCount),
    ("known_omitted_bytes",decimal r.knownOmittedBytes),
    ("known_omitted_files",decimal r.knownOmittedFiles),
    ("unknown_omitted_candidate_count",decimal r.unknownOmittedCandidateCount),
    ("selection_policy",str r.selectionPolicy),("reason",str r.reason),
    ("detail_retrieval",renderRetrieval r.detailRetrievalMode r.detailRetrievalCommand)])

/-- A member on a line of its own. -/
def topMember (name : String) (value : Bytes) : Bytes×Bytes :=
  (bytes "\n  "++quote (bytes name),byte ' ' :: value)

def writeReports (writeReport : ℕ→Option Bytes) : ℕ → ℕ → Option (List Bytes)
  | 0, _ => some []
  | n+1, i => do
    let t ← writeReport i
    let ts ← writeReports writeReport n (i+1)
    return t::ts

def renderAll (summary : DirectorySummary) (rendering : Option DirectoryReportRendering)
    (artifactRendering : Option DirectoryArtifactRendering) (reports : List Bytes) : Bytes :=
  obj ([topMember "report_schema_version" (quote (bytes "1.0")),
    topMember "directory_summary" (renderSummary plan summary),
    topMember "directory_plan"
      (renderPlan pathKey plan rendering.isSome artifactRendering.isSome)] ++
    ((rendering.map fun r => topMember "report_rendering" (renderReports r)).toList ++
      ((artifactRendering.map fun r => topMember "artifact_materialization"
        (renderArtifacts r)).toList ++
      [topMember "reports"
        (byte '[' :: ((bytes ",\n").intercalate reports ++ bytes "]\n"))]))) ++ bytes "\n"

/-- `render_directory_json_impl`: the text, when every report is written and the stream is good. -/
def renderDirectoryJsonImpl (summary : DirectorySummary) (reportCount : ℕ)
    (writeReport : ℕ→Option Bytes) (rendering : Option DirectoryReportRendering)
    (artifactRendering : Option DirectoryArtifactRendering) (good : Bool) : Option Bytes := do
  let reports ← writeReports writeReport reportCount 0
  if good then some (renderAll pathKey plan summary rendering artifactRendering reports) else none

end AutoRefirst.DirectoryJson
