import AutoRefirst.DirectoryJson

/-!
# The JSON of a directory is well formed

Every text that is put into a string reads back as itself, and every part is a JSON value of its
own, so that no field opens or closes anything.
-/

namespace AutoRefirst.DirectoryJson
open JsonText List Option

theorem codeUnit_control (i:Fin 32) :
    codeUnit (byte '0') (byte '0') (hexDigit (i/16)) (hexDigit (i % 16))=some (i:ℕ):=by
  revert i
  decide

/-- A byte stands for itself, or behind a backslash a letter or a number stands for it. -/
theorem escapeByte_cases (c:UInt8) : (Plain c ∧ escapeByte c=[c]) ∨
      (∃e,e≠byte 'u' ∧ escaped e=some c ∧ escapeByte c = [byte '\\',e]) ∨
      ∃a b,codeUnit (byte '0') (byte '0') a b = some c.toNat ∧ c<0x20 ∧
        escapeByte c = [byte '\\',byte 'u',byte '0',byte '0',a,b]:=by
  generalize hout : escapeByte c=out
  unfold escapeByte at hout
  split_ifs at hout with hquote hslash h8 h12 h10 h13 h9 hcontrol <;> subst hout
  · exact .inr (.inl ⟨byte '"',by decide,by rw [hquote];decide,by decide⟩)
  · exact .inr (.inl ⟨byte '\\',by decide,by rw [hslash];decide,by decide⟩)
  · exact .inr (.inl ⟨byte 'b',by decide,by rw [h8];decide,by decide⟩)
  · exact .inr (.inl ⟨byte 'f',by decide,by rw [h12];decide,by decide⟩)
  · exact .inr (.inl ⟨byte 'n',by decide,by rw [h10];decide,by decide⟩)
  · exact .inr (.inl ⟨byte 'r',by decide,by rw [h13];decide,by decide⟩)
  · exact .inr (.inl ⟨byte 't',by decide,by rw [h9];decide,by decide⟩)
  · have hlt : c.toNat<32:=UInt8.lt_iff_toNat_lt.mp hcontrol
    exact .inr (.inr ⟨_,_,codeUnit_control ⟨c.toNat,hlt⟩,hcontrol,rfl⟩)
  · exact .inl ⟨⟨UInt8.not_lt.mp hcontrol,hquote,hslash⟩,rfl⟩

theorem utf8Of_byte {c:UInt8} (h:c<0x20) : utf8Of c.toNat=[c]:=by
  have hlt : c.toNat<32:=UInt8.lt_iff_toNat_lt.mp h
  rw [utf8Of,if_pos (by omega)]
  simp

theorem unescape_directoryJsonEscape (s:Bytes) : unescape (directoryJsonEscape s)=some s:=by
  induction s with
  | nil=>rfl
  | cons c s ih=>
    rw [directoryJsonEscape,List.flatMap_cons]
    change unescape (escapeByte c++directoryJsonEscape s)=some (c::s)
    rcases escapeByte_cases c with ⟨hplain,heq⟩ | ⟨e,hu,he,heq⟩ | ⟨a,b,hunit,hlt,heq⟩
    · rw [heq,List.singleton_append,unescape_plain hplain,ih]
      rfl
    · rw [heq]
      change unescape (byte '\\' :: e::directoryJsonEscape s) = _
      rw [unescape_escape hu he,ih]
      rfl
    · have hsmall : c.toNat<32:=UInt8.lt_iff_toNat_lt.mp hlt
      rw [heq]
      change unescape (byte '\\' :: byte 'u' :: byte '0' :: byte '0' :: a::b ::
        directoryJsonEscape s) = _
      rw [unescape_unicode hunit (by omega),ih,utf8Of_byte hlt]
      rfl

theorem hexValue_of_codeUnit {a b c d:UInt8} {u:ℕ} (h:codeUnit a b c d=some u) :
    ∀x∈[a,b,c,d], (hexValue x).isSome:=by
  simp only [codeUnit,Option.bind_eq_bind,Option.bind_eq_some_iff] at h
  obtain ⟨_,ha,_,hb,_,hc,_,hd,-⟩:=h
  simp [ha,hb,hc,hd]

theorem jsonChars_directoryJsonEscape (s:Bytes) : JsonChars (directoryJsonEscape s):=by
  induction s with
  | nil=>exact .nil
  | cons c s ih=>
    rw [directoryJsonEscape,List.flatMap_cons]
    change JsonChars (escapeByte c++directoryJsonEscape s)
    rcases escapeByte_cases c with ⟨hplain,heq⟩ | ⟨e,-,he,heq⟩ | ⟨a,b,hunit,-,heq⟩
    · rw [heq]
      exact .plain hplain ih
    · rw [heq]
      exact .escape (by rw [he];rfl) ih
    · rw [heq]
      exact .unicode (hexValue_of_codeUnit hunit) ih

def plainName (k : String) : Bool := (bytes k).all fun b => Plain b

theorem plainName_ofList {cs:List Char}
    (h:(cs.all fun c=>Plain c.toNat.toUInt8)=true) : plainName (String.ofList cs)=true:=by
  rw [plainName,bytes,String.toList_ofList,List.all_map]
  exact h

theorem jsonChars_name {k:String} (h:plainName k=true) : JsonChars (bytes k):=by
  apply JsonChars.of_plain
  intro b hb
  simpa using List.all_eq_true.mp h b hb

theorem jsonValue_str (s:Bytes) : JsonValue (str s) := .string (jsonChars_directoryJsonEscape s)

theorem jsonValue_name {k:String} (h:plainName k=true) : JsonValue (quote (bytes k)):=
  .string (jsonChars_name h)

theorem jsonValue_flag (b:Bool) : JsonValue (flag b):=by
  cases b
  · exact .word (by simp [flag])
  · exact .word (by simp [flag])

theorem jsonValue_decimal (n:ℕ) : JsonValue (decimal n) := .number (jsonNumber_decimal n)

theorem jsonValue_integer (z:ℤ) : JsonValue (integer z) := .number (jsonNumber_integer z)

variable {ts : List Bytes}

theorem jsonValue_arr (h:∀t∈ts,JsonValue t) : JsonValue (arr ts):=
  .array ts fun t ht=>(h t ht).element

theorem jsonValue_arr_map {α:Type} {f:α→Bytes} (h:∀a,JsonValue (f a)) (xs:List α) :
    JsonValue (arr (xs.map f)):=by
  apply jsonValue_arr
  intro t ht
  obtain ⟨a,-,rfl⟩:=List.mem_map.mp ht
  exact h a

theorem jsonValue_arr_mapIdx {α:Type} {f:ℕ→α→Bytes} (h:∀i a,JsonValue (f i a))
    (xs:List α) : JsonValue (arr (xs.mapIdx f)):=by
  apply jsonValue_arr
  intro t ht
  obtain ⟨i,hi,rfl⟩:=List.mem_mapIdx.mp ht
  exact h i _

theorem jsonValue_strs (xs:List Bytes) : JsonValue (strs xs):=jsonValue_arr_map jsonValue_str xs

theorem jsonValue_fields {ms:List (String×Bytes)}
    (hk:∀m∈ms,plainName m.1=true) (hv:∀m∈ms,JsonValue m.2) :
    JsonValue (obj (fields ms)):=by
  refine .object (fields ms) (fun m hm=>?_) fun m hm=>?_
  · obtain ⟨x,hx,rfl⟩:=List.mem_map.mp hm
    exact jsonKey_quote (jsonChars_name (hk x hx))
  · obtain ⟨x,hx,rfl⟩:=List.mem_map.mp hm
    exact (hv x hx).element

theorem jsonValue_counts (kvs:List (Bytes×ℕ)) :
    JsonValue (obj (kvs.map fun kv=>(str kv.1,decimal kv.2))):=by
  refine .object _ (fun m hm=>?_) fun m hm=>?_
  · obtain ⟨x,-,rfl⟩:=List.mem_map.mp hm
    exact jsonKey_quote (jsonChars_directoryJsonEscape x.1)
  · obtain ⟨x,-,rfl⟩:=List.mem_map.mp hm
    exact (jsonValue_decimal x.2).element

attribute [simp] jsonValue_str jsonValue_flag jsonValue_decimal jsonValue_integer jsonValue_strs
  jsonValue_counts

def FiniteConfidences (m : RuntimeModalityGuidance) : Prop :=
  ∀ r∈m.requirements, r.confidence.isFinite=true

theorem jsonValue_requirement {r:RuntimeModalityRequirement}
    (h:r.confidence.isFinite=true) : JsonValue (renderRequirement r):=by
  apply jsonValue_fields
  · simp only [List.forall_mem_cons]
    and_intros <;> first | exact plainName_ofList (by decide) | simp
  · have hnumber : JsonValue r.confidence.text := .number (jsonNumber_double h)
    simp [hnumber]

theorem jsonValue_modality {m:RuntimeModalityGuidance} (h:FiniteConfidences m) :
    JsonValue (renderModality m):=by
  have hrequirements : JsonValue (arr (m.requirements.map renderRequirement)):=by
    apply jsonValue_arr
    intro t ht
    obtain ⟨r,hr,rfl⟩:=List.mem_map.mp ht
    exact jsonValue_requirement (h r hr)
  apply jsonValue_fields
  · simp only [List.forall_mem_cons]
    and_intros <;> first | exact plainName_ofList (by decide) | simp
  · simp [hrequirements]

theorem jsonValue_relation (r:DirectoryRelationship) : JsonValue (renderRelation r):=by
  apply jsonValue_fields
  · simp only [List.forall_mem_cons]
    and_intros <;> first | exact plainName_ofList (by decide) | simp
  · simp

variable (pathKey : Bytes→Bytes) (c : DirectoryCandidate)

theorem jsonValue_ref (r:DirectoryRelationship) : JsonValue (renderRef pathKey c r):=by
  have hdirection : ∀isFirst : Prop,[Decidable isFirst] → JsonValue (quote (bytes
      (if !r.directed then "UNDIRECTED" else if isFirst then "OUTBOUND" else "INBOUND"))):=by
    intro isFirst _
    apply jsonValue_name
    split_ifs <;> exact plainName_ofList (by decide)
  apply jsonValue_fields
  · simp only [List.forall_mem_cons]
    and_intros <;> first | exact plainName_ofList (by decide) | simp
  · simp only [List.forall_mem_cons,jsonValue_str,jsonValue_integer,hdirection,true_and]
    simp

variable (plan : DirectoryPlan)

theorem jsonValue_summary {s:DirectorySummary}
    (h:FiniteConfidences s.runtimeModality) : JsonValue (renderSummary plan s):=by
  apply jsonValue_fields
  · simp only [List.forall_mem_cons]
    and_intros <;> first | exact plainName_ofList (by decide) | simp
  · simp [jsonValue_modality h]

theorem jsonValue_topFile (i:ℕ) : JsonValue (renderTopFile c i):=by
  apply jsonValue_fields
  · simp only [List.forall_mem_cons]
    and_intros <;> first | exact plainName_ofList (by decide) | simp
  · simp

theorem jsonValue_fileState (rendering artifactRendering:Bool) (c:DirectoryCandidate) (i:ℕ) :
    JsonValue (renderFileState pathKey plan rendering artifactRendering c i):=by
  have hrefs : JsonValue (renderFileRelationRefs pathKey plan c):=
    jsonValue_arr_map (jsonValue_ref pathKey c) _
  apply jsonValue_fields
  · cases rendering <;> cases artifactRendering <;>
      simp only [List.forall_mem_cons,List.cons_append,List.nil_append,reportState,
        artifactState,if_true,if_false,Bool.false_eq_true] <;>
      and_intros <;> first | exact plainName_ofList (by decide) | simp
  · refine List.forall_mem_append.mpr ⟨by simp [hrefs],List.forall_mem_append.mpr ⟨?_,?_⟩⟩
    · split
      · simp [reportState]
      · simp
    · split
      · simp [artifactState]
      · simp

theorem jsonValue_selected : JsonValue (renderSelected c):=by
  apply jsonValue_fields
  · simp only [List.forall_mem_cons]
    and_intros <;> first | exact plainName_ofList (by decide) | simp
  · simp

theorem jsonValue_skipped : JsonValue (renderSkipped c):=by
  apply jsonValue_fields
  · simp only [List.forall_mem_cons]
    and_intros <;> first | exact plainName_ofList (by decide) | simp
  · simp

theorem jsonValue_traversalSkip (s:DirectoryTraversalSkip) :
    JsonValue (renderTraversalSkip s):=by
  apply jsonValue_fields
  · simp only [List.forall_mem_cons]
    and_intros <;> first | exact plainName_ofList (by decide) | simp
  · simp

set_option maxRecDepth 2000 in
theorem jsonValue_plan (rendering artifactRendering:Bool) :
    JsonValue (renderPlan pathKey plan rendering artifactRendering):=by
  have hpolicy : JsonValue (quote (bytes
      "bounded preflight semantic priority; score descending, deterministic path tie-break; all admitted files retain compact state")):=
    jsonValue_name (plainName_ofList (by decide))
  have hretrieval : JsonValue (obj (fields [("mode",quote (bytes "reanalyze_file")),
      ("command",quote (bytes "auto-refirst <deferred-file> --json"))])):=by
    apply jsonValue_fields
    · simp only [forall_mem_cons]
      and_intros <;> first | exact plainName_ofList (by decide) | simp
    · have hmode : JsonValue (quote (bytes "reanalyze_file")):=
        jsonValue_name (plainName_ofList (by decide))
      have hcommand : JsonValue (quote (bytes "auto-refirst <deferred-file> --json")):=
        jsonValue_name (plainName_ofList (by decide))
      simp [hmode,hcommand]
  unfold renderPlan
  apply jsonValue_fields
  · simp only [forall_mem_cons]
    and_intros <;> first | exact plainName_ofList (by decide) | simp
  · simp only [forall_mem_cons,jsonValue_decimal,jsonValue_flag,hpolicy,hretrieval,
      jsonValue_arr_map jsonValue_selected,jsonValue_arr_map jsonValue_skipped,
      jsonValue_arr_map jsonValue_relation,jsonValue_arr_map jsonValue_traversalSkip,
      jsonValue_arr_mapIdx fun i c=>jsonValue_topFile c i,
      jsonValue_arr_mapIdx fun i c=>
        jsonValue_fileState pathKey plan rendering artifactRendering c i,true_and]
    simp

theorem jsonValue_retrieval (mode command:Bytes) : JsonValue (renderRetrieval mode command):=by
  apply jsonValue_fields
  · simp only [forall_mem_cons]
    and_intros <;> first | exact plainName_ofList (by decide) | simp
  · simp

theorem jsonValue_reports (r:DirectoryReportRendering) : JsonValue (renderReports r):=by
  apply jsonValue_fields
  · simp only [forall_mem_cons]
    and_intros <;> first | exact plainName_ofList (by decide) | simp
  · simp [jsonValue_retrieval]

theorem jsonValue_artifacts (r:DirectoryArtifactRendering) : JsonValue (renderArtifacts r):=by
  apply jsonValue_fields
  · simp only [forall_mem_cons]
    and_intros <;> first | exact plainName_ofList (by decide) | simp
  · simp [jsonValue_retrieval]

theorem writeReports_mem {writeReport:ℕ→Option Bytes} {n i:ℕ}
    (h:writeReports writeReport n i=some ts) {t:Bytes} (ht:t∈ts) :
    ∃j,writeReport j=some t:=by
  induction n generalizing i ts with
  | zero=>
    obtain rfl:=some.inj h
    cases ht
  | succ n ih=>
    simp only [writeReports,bind_eq_bind,bind_eq_some_iff] at h
    obtain ⟨u,hu,us,hus,heq⟩:=h
    obtain rfl:=some.inj heq
    rcases mem_cons.mp ht with rfl | ht
    · exact ⟨i,hu⟩
    · exact ih hus ht

/-- A member of the outer object: a line of its own, and one blank in front of the value. -/
theorem topMember_valid {name:String} {v:Bytes} (hn:plainName name=true)
    (hv:JsonElement v) :
    JsonKey (topMember name v).1 ∧ JsonElement (topMember name v).2:=by
  have hblank : Blank (bytes "\n  "):=by decide
  refine ⟨⟨bytes "\n  ",bytes name,[],hblank,jsonChars_name hn,.nil,?_⟩,?_⟩
  · rw [topMember,append_nil]
  · exact hv.before (w:=[byte ' ']) (by decide)

theorem jsonElement_reports (h:∀t∈ts,JsonElement t) :
    JsonElement (byte '[' :: ((bytes ",\n").intercalate ts++bytes "]\n")):=by
  have hnewline : Blank (bytes "\n"):=by decide
  have hvalue : ∀us : List Bytes,(∀t∈us,JsonElement t) →
      JsonElement (byte '[' :: (commas us++bytes "]\n")):=by
    intro us hus
    have hpad:=JsonElement.pad [] (bytes "\n") .nil hnewline (JsonValue.array us hus)
    have hend : bytes "]\n" = byte ']' :: bytes "\n" := by decide
    rw [hend]
    simpa using hpad
  cases ts with
  | nil=>exact hvalue [] (by simp)
  | cons t ts=>
    have hcomma : bytes ",\n" = byte ',' :: bytes "\n" := by decide
    rw [hcomma,intercalate_blank]
    apply hvalue
    intro u hu
    rcases mem_cons.mp hu with rfl | hu
    · exact h _ mem_cons_self
    · obtain ⟨v,hv,rfl⟩:=List.mem_map.mp hu
      exact (h v (mem_cons_of_mem _ hv)).before hnewline

theorem renderAll_valid {summary:DirectorySummary} (rendering:Option DirectoryReportRendering)
    (artifactRendering:Option DirectoryArtifactRendering) {reports:List Bytes}
    (hs:FiniteConfidences summary.runtimeModality) (hr:∀t∈reports,JsonElement t) :
    JsonElement (renderAll pathKey plan summary rendering artifactRendering reports):=by
  have hmember : ∀m ∈ ([topMember "report_schema_version" (quote (bytes "1.0")),
      topMember "directory_summary" (renderSummary plan summary),
      topMember "directory_plan"
        (renderPlan pathKey plan rendering.isSome artifactRendering.isSome)] ++
      ((rendering.map fun r=>topMember "report_rendering" (renderReports r)).toList ++
        ((artifactRendering.map fun r=>topMember "artifact_materialization"
          (renderArtifacts r)).toList ++
        [topMember "reports" (byte '[' :: ((bytes ",\n").intercalate reports++bytes "]\n"))]))),
      JsonKey m.1 ∧ JsonElement m.2:=by
    intro m hm
    rcases mem_append.mp hm with hm | hm
    · rcases mem_cons.mp hm with rfl | hm
      · exact topMember_valid (plainName_ofList (by decide)) (jsonValue_name (plainName_ofList (by decide))).element
      rcases mem_cons.mp hm with rfl | hm
      · exact topMember_valid (plainName_ofList (by decide)) (jsonValue_summary plan hs).element
      · obtain rfl:=mem_singleton.mp hm
        exact topMember_valid (plainName_ofList (by decide)) (jsonValue_plan pathKey plan _ _).element
    rcases mem_append.mp hm with hm | hm
    · obtain ⟨r,-,rfl⟩:=map_eq_some_iff.mp (mem_toList.mp hm)
      exact topMember_valid (plainName_ofList (by decide)) (jsonValue_reports r).element
    rcases mem_append.mp hm with hm | hm
    · obtain ⟨r,-,rfl⟩:=map_eq_some_iff.mp (mem_toList.mp hm)
      exact topMember_valid (plainName_ofList (by decide)) (jsonValue_artifacts r).element
    · obtain rfl:=mem_singleton.mp hm
      exact topMember_valid (plainName_ofList (by decide)) (jsonElement_reports hr)
  have hnewline : Blank (bytes "\n"):=by decide
  exact .pad [] (bytes "\n") .nil hnewline
    (.object _ (fun m hm=>(hmember m hm).1) fun m hm=>(hmember m hm).2)

/-- A summary with one requirement that is certain beyond all numbers. -/
def endlessSummary : DirectorySummary :=
  { runtimeModality :=
      {requirements:=[{modality:=bytes "CPU",confidence:=.infinite false}]} }

end AutoRefirst.DirectoryJson
