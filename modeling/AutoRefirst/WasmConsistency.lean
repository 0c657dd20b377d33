import AutoRefirst.WasmSections
import Mathlib.Data.List.Induction

/-!
# Valid WebAssembly modules are consistent

The sections tile the file behind the header, and each one that is parsed spells its part of
what is reported. The functions are the imported ones and then the defined ones.
-/

namespace AutoRefirst.Wasm
open SpanReader Fallible List Option Except

/-- What a section of one id is about. -/
inductive Part where
  | types (ts : List WasmFuncType) (complete : Bool)
  | imports (xs : List WasmImport)
  | functions (ts : List ℕ)
  | exports (xs : List WasmExport)
  | start (present : Bool) (index : ℕ)
  | code (bodies : List (ℕ×ℕ))
  | data (ss : List WasmDataSegment) (complete : Bool)
  | count (present : Bool) (n : ℕ)
  | whole

def Contents : Grammar Part := fun d a b part => match part with
  | .types ts complete => TypeSection d a b (ts,complete)
  | .imports xs => ImportSection d a b xs
  | .functions ts => FunctionSection d a b ts
  | .exports xs => ExportSection d a b xs
  | .start present index => present = true ∧ U32 d a b index
  | .code bodies => CodeSection d a b bodies
  | .data ss complete => DataSection d a b (ss,complete)
  | .count present n => present = true ∧ U32 d a b n
  | .whole => True

variable (o : WasmInfo)

def partOf (defined : List ℕ) (bodies : List (ℕ×ℕ)) (id : UInt8) : Part :=
  if id = 1 then .types o.types o.typeParseComplete
  else if id = 2 then .imports o.imports
  else if id = 3 then .functions defined
  else if id = 7 then .exports o.exports
  else if id = 8 then .start o.hasStart o.startFunctionIndex
  else if id = 10 then .code bodies
  else if id = 11 then .data o.dataSegments o.dataParseComplete
  else if id = 12 then .count o.hasDataCount o.dataCount
  else .whole

def State.part (st : State) : UInt8 → Part := partOf st.o st.definedTypes st.bodies

def WasmInfo.defined : List WasmFunction :=
  o.functions.drop o.importedFunctionCount

def WasmInfo.part : UInt8 → Part :=
  partOf o (o.defined.map (·.typeIndex)) (o.defined.map fun f => (f.codeOffset,f.codeSize))

/-- A part no section is about. -/
def absent : UInt8 → Part := partOf {} [] []

/-- A section's header, and its payload inside the file. -/
def SectionFrame : Grammar Frame := fun d a b f =>
  f.offset = a ∧ f.stop = b ∧ d[a]? = some f.id ∧
    ∃ n, U32 d (a+1) f.payload n ∧ b = f.payload+n ∧ b ≤ d.length

/-- Sections in the order of the format: each lies before the next, none but custom sections
comes twice, and those of known ids come by rank. -/
def Ordered (secs : List Frame) : Prop :=
  secs.Pairwise fun f g => f.stop≤g.offset ∧ (f.id≠0 → f.id≠g.id) ∧
    (rank f.id ≠ 0 → rank g.id ≠ 0 → rank f.id < rank g.id)

/-- The counts agree with what is counted. -/
structure State.Tallied (st : State) : Prop where
  importTypes : st.importTypes=(st.o.imports.filter (·.kind = .function)).map (·.typeIndex)
  imported : st.o.importedFunctionCount=st.importTypes.length
  defined : st.o.definedFunctionCount=st.definedTypes.length

/-- What a section does to the state. -/
structure Effect (d : Bytes) (f : Frame) (st st' : State) : Prop where
  contents : Contents d f.payload f.stop (st'.part f.id)
  others : ∀ id, id≠f.id → st'.part id = st.part id
  seen : st'.seen=st.seen
  lastRank : st'.lastRank=st.lastRank
  tallied : st.Tallied → st'.Tallied

variable {d : Bytes} {f : Frame} {st st' : State}

/-- A section that is passed over. -/
theorem Effect.whole (h:st'.part=st.part) (hid:st.part f.id=.whole)
    (hseen:st'.seen=st.seen) (hlast:st'.lastRank=st.lastRank)
    (htallied:st.Tallied→st'.Tallied) : Effect d f st st':=
  ⟨by rw [h,hid];trivial,fun id _=>congrFun h id,hseen,hlast,htallied⟩

theorem custom_effect {r r':Reader} (hid:f.id=0) (h:custom f st r=.ok (st',r')) :
    Effect d f st st':=by
  have hwhole : st.part f.id=.whole:=by
    rw [hid]
    rfl
  unfold custom at h
  split at h
  · obtain ⟨rfl,-⟩:=Prod.mk.inj (ok.inj h)
    exact Effect.whole rfl hwhole rfl rfl fun ht=>⟨ht.importTypes,ht.imported,ht.defined⟩
  · obtain ⟨rfl,-⟩:=Prod.mk.inj (ok.inj h)
    exact Effect.whole rfl hwhole rfl rfl fun ht=>⟨ht.importTypes,ht.imported,ht.defined⟩

/-- A parsed section: its text, what else is left alone and the counts. -/
theorem Effect.parsed {k:UInt8} (hid:f.id=k) (htext:Contents d f.payload f.stop (st'.part k))
    (hothers:∀id,id≠k → st'.part id=st.part id) (hseen:st'.seen=st.seen)
    (hlast:st'.lastRank=st.lastRank) (htallied:st.Tallied→st'.Tallied) :
    Effect d f st st':=by
  subst hid
  exact ⟨htext,hothers,hseen,hlast,htallied⟩

variable {r r' : Reader}

theorem types_effect (hr:r.Ok) (hp:r.p=f.payload) (hid:f.id=1) (hnew:st.part 1=absent 1)
    (h:(parseTypeSection st.o >>= fun o=>pure {st with o} : Parser State) r = .ok (st',r'))
    (hend:r'.p=f.stop) : Effect r.d f st st':=by
  obtain ⟨o,r₁,ho,hst⟩:=run_bind.mp h
  obtain ⟨rfl,rfl⟩:=run_pure.mp hst
  simp only [State.part,partOf,absent,if_true,Part.types.injEq] at hnew
  obtain ⟨-,htext,hsame⟩:=parseTypeSection_reads st.o hnew.2 hnew.1 _ _ _ ho hr
  rw [hp,hend] at htext
  refine Effect.parsed hid htext (fun id hne=>?_) rfl rfl fun ht=>?_
  · rw [hsame]
    simp only [State.part,partOf,hne,if_false,WasmInfo.typed]
  · rw [hsame]
    exact ⟨ht.importTypes,ht.imported,ht.defined⟩

theorem imports_effect (hr:r.Ok) (hp:r.p=f.payload) (hid:f.id=2) (hnew:st.part 2=absent 2)
    (h:parseImportSection st r=.ok (st',r')) (hend:r'.p=f.stop) : Effect r.d f st st':=by
  obtain ⟨-,xs,htext,rfl⟩:=parseImportSection_reads st _ _ _ h hr
  have hnone : st.o.imports=[]:=Part.imports.inj hnew
  rw [hp,hend] at htext
  refine Effect.parsed hid ?_ (fun id hne=>?_) rfl rfl fun ht=>⟨?_,?_,ht.defined⟩
  · show ImportSection r.d f.payload f.stop (st.o.imports++xs)
    rwa [hnone]
  · simp only [State.part,partOf,hne,if_false,State.withImports]
  · simp only [State.withImports,filter_append,map_append,ht.importTypes]
  · simp only [State.withImports,length_append,length_map,ht.imported,
      countP_eq_length_filter]

theorem functions_effect (hr:r.Ok) (hp:r.p=f.payload) (hid:f.id=3)
    (hnew:st.part 3=absent 3) (h:parseFunctionSection st r=.ok (st',r'))
    (hend:r'.p=f.stop) : Effect r.d f st st':=by
  obtain ⟨-,ts,htext,rfl⟩:=parseFunctionSection_reads st _ _ _ h hr
  have hnone : st.definedTypes=[]:=Part.functions.inj hnew
  rw [hp,hend] at htext
  refine Effect.parsed hid ?_ (fun id hne=>?_) rfl rfl fun ht=>⟨ht.importTypes,ht.imported,?_⟩
  · show FunctionSection r.d f.payload f.stop (st.definedTypes++ts)
    rwa [hnone]
  · simp only [State.part,partOf,hne,if_false]
  · simp only [hnone,nil_append]

theorem exports_effect (hr:r.Ok) (hp:r.p=f.payload) (hid:f.id=7) (hnew:st.part 7=absent 7)
    (h:(parseExportSection st.o >>= fun o=>pure {st with o} : Parser State) r = .ok (st',r'))
    (hend:r'.p=f.stop) : Effect r.d f st st':=by
  obtain ⟨o,r₁,ho,hst⟩:=run_bind.mp h
  obtain ⟨rfl,rfl⟩:=run_pure.mp hst
  obtain ⟨-,xs,htext,rfl⟩:=parseExportSection_reads st.o _ _ _ ho hr
  have hnone : st.o.exports=[]:=Part.exports.inj hnew
  rw [hp,hend] at htext
  refine Effect.parsed hid ?_ (fun id hne=>?_) rfl rfl fun ht=>⟨ht.importTypes,ht.imported,ht.defined⟩
  · show ExportSection r.d f.payload f.stop (st.o.exports++xs)
    rwa [hnone]
  · simp only [State.part,partOf,hne,if_false,WasmInfo.exporting]

theorem parseStartSection_reads (sectionOff:ℕ) :
    Reads (parseStartSection o sectionOff) fun d a b o'=>U32 d a b o'.startFunctionIndex ∧
      o' = { o with
        hasStart:=true,startSectionOffset:=sectionOff,startIndexOffset:=a
        startFunctionIndex:=o'.startFunctionIndex
        startIndexSize:=b-a }:=by
  apply (Reads.position.bind fun _=>u32_reads.bind fun _=>Reads.position.bind fun _=>
    Reads.pure _).mono
  rintro d a b o' - ⟨c,_,⟨rfl,rfl⟩,e,n,hn,g,_,⟨rfl,rfl⟩,rfl,rfl⟩
  exact ⟨hn,rfl⟩

theorem start_effect (hr:r.Ok) (hp:r.p=f.payload) (hid:f.id=8) {n:ℕ}
    (h:(parseStartSection st.o n >>= fun o=>pure {st with o} : Parser State) r = .ok (st',r'))
    (hend:r'.p=f.stop) : Effect r.d f st st':=by
  obtain ⟨o,r₁,ho,hst⟩:=run_bind.mp h
  obtain ⟨rfl,rfl⟩:=run_pure.mp hst
  obtain ⟨-,htext,hsame⟩:=parseStartSection_reads st.o n _ _ _ ho hr
  rw [hp,hend] at htext
  refine Effect.parsed hid ?_ (fun id hne=>?_) rfl rfl fun ht=>?_
  · show o.hasStart = true ∧ U32 r.d f.payload f.stop o.startFunctionIndex
    exact ⟨by rw [hsame],htext⟩
  · rw [hsame]
    simp only [State.part,partOf,hne,if_false]
  · rw [hsame]
    exact ⟨ht.importTypes,ht.imported,ht.defined⟩

theorem code_effect (hr:r.Ok) (hp:r.p=f.payload) (hid:f.id=10) (hnew:st.part 10=absent 10)
    (h:(parseCodeSection st.bodies >>= fun bodies=>pure {st with bodies} : Parser State) r =
      .ok (st',r')) (hend:r'.p=f.stop) : Effect r.d f st st':=by
  obtain ⟨bodies,r₁,hb,hst⟩:=run_bind.mp h
  obtain ⟨rfl,rfl⟩:=run_pure.mp hst
  obtain ⟨-,xs,htext,rfl⟩:=parseCodeSection_reads st.bodies _ _ _ hb hr
  have hnone : st.bodies=[]:=Part.code.inj hnew
  rw [hp,hend] at htext
  refine Effect.parsed hid ?_ (fun id hne=>?_) rfl rfl fun ht=>⟨ht.importTypes,ht.imported,ht.defined⟩
  · show CodeSection r.d f.payload f.stop (st.bodies++xs)
    rwa [hnone]
  · simp only [State.part,partOf,hne,if_false]

theorem data_effect (hr:r.Ok) (hp:r.p=f.payload) (hid:f.id=11) (hnew:st.part 11=absent 11)
    (h:(parseDataSection st.o >>= fun o=>pure {st with o} : Parser State) r = .ok (st',r'))
    (hend:r'.p=f.stop) : Effect r.d f st st':=by
  obtain ⟨o,r₁,ho,hst⟩:=run_bind.mp h
  obtain ⟨rfl,rfl⟩:=run_pure.mp hst
  obtain ⟨hsegments,hcomplete⟩:=Part.data.inj hnew
  obtain ⟨-,htext,hsame⟩:=parseDataSection_reads st.o hcomplete hsegments _ _ _ ho hr
  rw [hp,hend] at htext
  refine Effect.parsed hid htext (fun id hne=>?_) rfl rfl fun ht=>?_
  · rw [hsame]
    simp only [State.part,partOf,hne,if_false,WasmInfo.filled]
  · rw [hsame]
    exact ⟨ht.importTypes,ht.imported,ht.defined⟩

theorem count_effect (hr:r.Ok) (hp:r.p=f.payload) (hid:f.id=12) (h:(u32 >>= fun n=>pure { st with
      o:={st.o with hasDataCount:=true,dataCount:=n} } : Parser State) r = .ok (st',r'))
    (hend:r'.p=f.stop) : Effect r.d f st st':=by
  obtain ⟨n,r₁,hn,hst⟩:=run_bind.mp h
  obtain ⟨rfl,rfl⟩:=run_pure.mp hst
  obtain ⟨-,htext⟩:=u32_reads _ _ _ hn hr
  rw [hp,hend] at htext
  refine Effect.parsed hid ⟨rfl,htext⟩ (fun id hne=>?_) rfl rfl fun ht=>
    ⟨ht.importTypes,ht.imported,ht.defined⟩
  simp only [State.part,partOf,hne,if_false]

theorem section_effect (hr:r.Ok) (hp:r.p=f.payload) (hnew:st.part f.id=absent f.id)
    (h:section_ f st r=.ok (st',r')) (hend:r'.p=f.stop) : Effect r.d f st st':=by
  unfold section_ at h
  split at h
  case isTrue hid=>exact custom_effect hid h
  split at h
  case isTrue hid=>exact types_effect hr hp hid (hid▸hnew) h hend
  split at h
  case isTrue hid=>exact imports_effect hr hp hid (hid▸hnew) h hend
  split at h
  case isTrue hid=>exact functions_effect hr hp hid (hid▸hnew) h hend
  split at h
  case isTrue hid=>exact exports_effect hr hp hid (hid▸hnew) h hend
  split at h
  case isTrue hid=>exact start_effect hr hp hid h hend
  split at h
  case isTrue hid=>exact code_effect hr hp hid (hid▸hnew) h hend
  split at h
  case isTrue hid=>exact data_effect hr hp hid (hid▸hnew) h hend
  split at h
  case isTrue hid=>exact count_effect hr hp hid h hend
  case isFalse h₀ h₁ h₂ h₃ h₇ h₈ h₁₀ h₁₁ h₁₂=>
    obtain ⟨_,r₁,-,hst⟩:=run_bind.mp h
    obtain ⟨rfl,rfl⟩:=run_pure.mp hst
    refine Effect.whole rfl ?_ rfl rfl id
    simp only [State.part,partOf,h₁,h₂,h₃,h₇,h₈,h₁₀,h₁₁,h₁₂,if_false]

theorem frame_run (hr:r.Ok) (h:frame r=.ok (f,r')) :
    r' = {r with p:=f.payload} ∧ f.stop ≤ r.stop ∧ SectionFrame r.d r.p f.stop f ∧
      f.payload≤f.stop:=by
  rw [frame,position_bind] at h
  obtain ⟨id,r₁,hid,h⟩:=run_bind.mp h
  obtain ⟨hto,hbyte⟩:=byte_reads _ _ _ hid hr
  obtain ⟨sz,r₂,hsz,h⟩:=run_bind.mp h
  obtain ⟨hto',hsize⟩:=u32_reads _ _ _ hsz (hto.ok hr)
  have hto:=hto.trans hto'
  rw [position_bind,spanEnd_bind,hto.stop] at h
  obtain ⟨_,r₃,hroom,h⟩:=run_bind.mp h
  obtain ⟨rfl,hfits⟩:=require_run hroom
  obtain ⟨rfl,rfl⟩:=run_pure.mp h
  have hinside : r₂.p+sz ≤ r.stop:=by
    have:=hto.inside
    omega
  rw [hbyte.1,(byte_reads _ _ _ hid hr).1.same] at hsize
  refine ⟨?_,hinside,⟨rfl,rfl,hbyte.2,sz,hsize,rfl,Nat.le_trans hinside hr.bounded⟩,by simp⟩
  rw [← hto.same,← hto.stop]

/-- The parts are what the sections so far say. -/
structure Described (d : Bytes) (secs : List Frame) (st : State) : Prop where
  ordered : Ordered secs
  contents : ∀ f∈secs, Contents d f.payload f.stop (st.part f.id)
  rest : ∀ id, (∀ f∈secs, f.id≠id) → st.part id = absent id
  seen : ∀ f∈secs, f.id≠0 → f.id∈st.seen
  lastRank : ∀ f∈secs, rank f.id ≤ st.lastRank
  tallied : st.Tallied

variable {secs : List Frame}

/-- The id of a rank. -/
def unrank (n : ℕ) : UInt8 := [0,1,2,3,4,5,13,6,7,8,9,12,10,11].getD n 0

theorem unrank_rank {id:UInt8} (h:rank id≠0) : unrank (rank id)=id:=
  eachByte (P:=fun id=>rank id≠0 → unrank (rank id)=id) (by decide +kernel) id h

theorem rank_inj {a b:UInt8} (h:rank a=rank b) (hb:rank b≠0) : a=b:=by
  rw [← unrank_rank hb,← h,unrank_rank (h▸hb)]

variable (id : UInt8)

theorem marked_part : (st.counted.marked id).part=st.part:=by
  unfold State.marked
  split
  · rfl
  · rfl

theorem marked_seen : (st.counted.marked id).seen = if id=0 then st.seen else id::st.seen:=by
  unfold State.marked
  split
  · rfl
  · rfl

theorem marked_last_rank :
    (st.counted.marked id).lastRank = if rank id≠0 then rank id else st.lastRank:=by
  unfold State.marked
  split
  case isTrue h=>
    rw [h]
    rfl
  case isFalse=>rfl

theorem marked_tallied (h:st.Tallied) : (st.counted.marked id).Tallied:=by
  unfold State.marked
  split
  · exact ⟨h.importTypes,h.imported,h.defined⟩
  · exact ⟨h.importTypes,h.imported,h.defined⟩

/-- One more section behind the others. -/
theorem Described.extend (h:Described d secs st) (hbefore:∀g∈secs,g.stop≤f.offset)
    (hnew:f.id≠0 → f.id ∉ st.seen) (hrank:rank f.id≠0 → st.lastRank ≤ rank f.id)
    (heffect:Effect d f (st.counted.marked f.id) st') : Described d (secs++[f]) st':=by
  have hfresh : ∀g∈secs,g.id≠0 → g.id≠f.id:=fun g hg hne heq=>
    hnew (heq▸hne) (heq▸h.seen g hg hne)
  constructor
  · apply pairwise_append.mpr
    refine ⟨h.ordered,pairwise_singleton _ f,fun g hg f' hf'=>?_⟩
    rw [mem_singleton.mp hf']
    refine ⟨hbefore g hg,hfresh g hg,fun hrg hrf=>?_⟩
    have hle : rank g.id ≤ rank f.id:=Nat.le_trans (h.lastRank g hg) (hrank hrf)
    apply Nat.lt_of_le_of_ne hle
    intro heq
    have hgid : g.id≠0:=by
      intro h0
      rw [h0] at hrg
      exact hrg rfl
    exact hfresh g hg hgid (rank_inj heq hrf)
  · intro g hg
    rw [mem_append,mem_singleton] at hg
    rcases hg with hg | rfl
    · by_cases hid : g.id=f.id
      · have hzero : g.id=0:=by
          by_contra hne
          exact hfresh g hg hne hid
        rw [hzero]
        trivial
      · rw [heffect.others g.id hid,marked_part]
        exact h.contents g hg
    · exact heffect.contents
  · intro id hid
    rw [heffect.others id (hid f (by simp)).symm,marked_part]
    exact h.rest id fun g hg=>hid g (by simp [hg])
  · intro g hg hne
    rw [heffect.seen,marked_seen]
    rw [mem_append,mem_singleton] at hg
    rcases hg with hg | rfl
    · split
      · exact h.seen g hg hne
      · exact mem_cons_of_mem _ (h.seen g hg hne)
    · rw [if_neg hne]
      exact mem_cons_self
  · intro g hg
    rw [heffect.lastRank,marked_last_rank]
    rw [mem_append,mem_singleton] at hg
    rcases hg with hg | rfl
    · split
      case isTrue hne=>exact Nat.le_trans (h.lastRank g hg) (hrank hne)
      case isFalse=>exact h.lastRank g hg
    · split
      case isTrue=>exact Nat.le_refl _
      case isFalse hzero=>omega
  · exact heffect.tallied (marked_tallied f.id h.tallied)

/-- A section of an unknown id changes none of the parts. -/
theorem skipped_effect (hrank:rank f.id=0) :
    Effect d f (st.counted.marked f.id) ((st.counted.marked f.id).skipped f.id):=by
  have hwhole : (st.counted.marked f.id).part f.id=.whole:=by
    rw [marked_part]
    have hpart : ∀id : UInt8,rank id=0 → id≠1 ∧ id≠2 ∧ id≠3 ∧ id≠7 ∧ id≠8 ∧ id≠10 ∧
        id≠11 ∧ id≠12:=fun id=>eachByte (P:=fun id=>rank id=0 → id≠1 ∧ id≠2 ∧
          id≠3 ∧ id≠7 ∧ id≠8 ∧ id≠10 ∧ id≠11 ∧ id≠12) (by decide +kernel) id
    obtain ⟨h₁,h₂,h₃,h₇,h₈,h₁₀,h₁₁,h₁₂⟩:=hpart f.id hrank
    simp only [State.part,partOf,h₁,h₂,h₃,h₇,h₈,h₁₀,h₁₁,h₁₂,if_false]
  exact Effect.whole rfl hwhole rfl rfl fun ht=>⟨ht.importTypes,ht.imported,ht.defined⟩

theorem sectionTurn_described (hr:r.Ok) (hdesc:Described r.d secs st)
    (hbefore:∀g∈secs,g.stop ≤ r.p) (h:sectionTurn st r=.ok (st',r')) :
    ∃f,SectionFrame r.d r.p f.stop f ∧ r' = {r with p:=f.stop} ∧ f.stop ≤ r.stop ∧
      Described r.d (secs++[f]) st':=by
  unfold sectionTurn at h
  obtain ⟨f,r₁,hf,h⟩:=run_bind.mp h
  obtain ⟨rfl,hstop,hframe,hpayload⟩:=frame_run hr hf
  have hbefore' : ∀g∈secs,g.stop≤f.offset:=hframe.1▸hbefore
  refine ⟨f,hframe,?_⟩
  split at h
  case isTrue=>cases h
  case isFalse hseen=>
  split at h
  case isTrue=>cases h
  case isFalse horder=>
  have hnew : f.id≠0 → f.id ∉ st.seen:=fun hne hmem=>hseen ⟨hne,hmem⟩
  have hrank : rank f.id≠0 → st.lastRank ≤ rank f.id:=by
    intro hne
    by_contra hlt
    refine horder ⟨?_,hne,by simpa [State.counted] using hlt⟩
    intro h0
    rw [h0] at hne
    exact hne rfl
  split at h
  case isTrue hunknown=>
    obtain ⟨_,r₂,hmove,hst⟩:=run_bind.mp h
    obtain ⟨-,rfl⟩:=Prod.mk.inj (ok.inj hmove)
    obtain ⟨rfl,rfl⟩:=run_pure.mp hst
    exact ⟨rfl,hstop,hdesc.extend hbefore' hnew hrank (skipped_effect hunknown.2)⟩
  case isFalse=>
    obtain ⟨st₁,r₂,hbody,h⟩:=run_bind.mp h
    obtain ⟨_,r₃,hmove,hst⟩:=run_bind.mp h
    obtain ⟨rfl,r₄,hbody⟩:=within_run hbody
    obtain ⟨-,rfl⟩:=Prod.mk.inj (ok.inj hmove)
    obtain ⟨rfl,rfl⟩:=run_pure.mp hst
    have hinside:=Nat.le_trans hstop hr.bounded
    obtain ⟨st₂,r₅,hsection,hcheck⟩:=run_bind.mp hbody
    rw [position_bind] at hcheck
    obtain ⟨_,r₆,htest,hst⟩:=run_bind.mp hcheck
    obtain ⟨rfl,hend⟩:=require_run htest
    obtain ⟨rfl,rfl⟩:=run_pure.mp hst
    have habsent : (st.counted.marked f.id).part f.id=absent f.id:=by
      rw [marked_part]
      by_cases h0 : f.id=0
      · rw [h0]
        rfl
      · apply hdesc.rest
        intro g hg heq
        exact hnew h0 (heq▸hdesc.seen g hg (heq▸h0))
    have heffect:=section_effect (Reader.over_ok hpayload hinside) rfl habsent hsection hend
    exact ⟨rfl,hstop,hdesc.extend hbefore' hnew hrank heffect⟩

/-- The loop takes the sections up to the end of the span. -/
theorem sectionsFrom_described {fuel:ℕ} (hr:r.Ok) (hfuel:r.stop-r.p≤fuel)
    (hdesc:Described r.d secs st) (hbefore:∀g∈secs,g.stop ≤ r.p)
    (h:sectionsFrom fuel st r=.ok (st',r')) :
    ∃more,Items (fun _=>SectionFrame) r.d secs.length r.p r.stop more ∧
      Described r.d (secs++more) st':=by
  induction fuel generalizing secs st r with
  | zero=>
    obtain ⟨rfl,-⟩:=run_pure.mp h
    have hend : r.p=r.stop:=by
      have:=hr.inside
      omega
    exact ⟨[],hend▸Items.nil _ _,by rwa [append_nil]⟩
  | succ fuel ih=>
    rw [sectionsFrom,position_bind,spanEnd_bind] at h
    split at h
    case isFalse hend=>
      obtain ⟨rfl,-⟩:=run_pure.mp h
      have hend : r.p=r.stop:=by
        have:=hr.inside
        omega
      exact ⟨[],hend▸Items.nil _ _,by rwa [append_nil]⟩
    case isTrue hmore=>
      obtain ⟨st₁,r₁,hturn,h⟩:=run_bind.mp h
      obtain ⟨f,hframe,rfl,hstop,hdesc'⟩:=sectionTurn_described hr hdesc hbefore hturn
      have hforward : r.p<f.stop:=by
        obtain ⟨-,-,-,n,hn,hstop',-⟩:=hframe
        have:=leb_forward hn.1
        omega
      have hbefore' : ∀g∈secs++[f],g.stop≤f.stop:=by
        intro g hg
        rw [mem_append,mem_singleton] at hg
        rcases hg with hg | rfl
        · exact Nat.le_trans (hbefore g hg) hforward.le
        · exact Nat.le_refl _
      have hr' : Reader.Ok {r with p:=f.stop}:=⟨hstop,hr.bounded⟩
      obtain ⟨more,hitems,hdesc''⟩:=ih hr' (by dsimp only;omega) hdesc' hbefore' h
      refine ⟨f::more,Items.cons hframe ?_,by rwa [append_assoc] at hdesc''⟩
      rwa [length_append] at hitems

theorem find_numbered {xs:List WasmImport} (h:Numbered xs) (i:ℕ) :
    (xs.find? fun x=>x.kind = .function ∧ x.index=i) =
      (xs.filter (·.kind = .function))[i]? := by
  induction xs using reverseRecOn with
  | nil=>rfl
  | append_singleton xs y ih=>
    have hxs : Numbered xs:=by
      intro j x hx
      have hj : j<xs.length:=(List.getElem?_eq_some_iff.mp hx).1
      rw [h j x (by rwa [getElem?_append_left hj]),take_append_of_le_length hj.le]
    have hy : y.index=xs.countP (·.kind=y.kind):=by
      have hlast:=h xs.length y (by simp)
      rwa [take_append_of_le_length (Nat.le_refl _),take_length] at hlast
    rw [find?_append,ih hxs,filter_append]
    by_cases hlt : i<(xs.filter (·.kind = .function)).length
    · rw [getElem?_append_left hlt,getElem?_eq_getElem hlt,some_or]
    · rw [getElem?_append_right (Nat.le_of_not_lt hlt),
        getElem?_eq_none (Nat.le_of_not_lt hlt),none_or]
      by_cases hkind : y.kind=.function
      · rw [hkind,countP_eq_length_filter] at hy
        by_cases hi : i=(xs.filter (·.kind = .function)).length
        · simp [hkind,hy,hi]
        · have hpos : i-(xs.filter (·.kind = .function)).length≠0:=by omega
          simp [hkind,hy,Ne.symm hi]
          omega
      · simp [hkind]

variable {i : ℕ}

theorem functions_imported {t:ℕ} (h:st.importTypes[i]? = some t) :
    (functions st)[i]? = some ((importedFunction st.o (i % 2^32) t).named st):=by
  have hi : i<st.importTypes.length:=(List.getElem?_eq_some_iff.mp h).1
  rw [functions,getElem?_map,getElem?_append_left (by simpa using hi),
    getElem?_map,getElem?_zipIdx,h]
  simp

theorem functions_drop : (functions st).drop st.importTypes.length =
      ((st.definedTypes.zip st.bodies).zipIdx.map fun ((t,b),i)=>
        definedFunction ((st.importTypes.length+i) % 2^32) t b).map (WasmFunction.named st):=by
  rw [functions,← map_drop,drop_left' (by simp)]

theorem functions_length (h:st.definedTypes.length=st.bodies.length) :
    (functions st).length = st.importTypes.length+st.definedTypes.length:=by
  simp [functions,h]

theorem functions_defined {t:ℕ} {b:ℕ×ℕ} (ht:st.definedTypes[i]? = some t)
    (hb:st.bodies[i]? = some b) :
    (functions st)[st.importTypes.length+i]? =
      some ((definedFunction ((st.importTypes.length+i) % 2^32) t b).named st):=by
  rw [← getElem?_drop,functions_drop,getElem?_map,getElem?_map,
    getElem?_zipIdx,getElem?_zip_eq_some (z:=(t,b)) |>.mpr ⟨ht,hb⟩]
  simp

theorem functions_types (h:st.definedTypes.length=st.bodies.length) :
    ((functions st).drop st.importTypes.length).map (·.typeIndex)=st.definedTypes:=by
  rw [functions_drop,List.map_map,List.map_map]
  have hcomp : ((fun f:WasmFunction=>f.typeIndex) ∘ WasmFunction.named st) ∘
      (fun x:(ℕ×ℕ×ℕ)×ℕ=>definedFunction ((st.importTypes.length+x.2) % 2^32) x.1.1 x.1.2) =
        Prod.fst ∘ Prod.fst:=rfl
  rw [hcomp,← List.map_map,zipIdx_map_fst,map_fst_zip h.le]

theorem functions_bodies (h:st.definedTypes.length=st.bodies.length) :
    (((functions st).drop st.importTypes.length).map fun f=>(f.codeOffset,f.codeSize)) =
      st.bodies:=by
  rw [functions_drop,List.map_map,List.map_map]
  have hcomp : ((fun f:WasmFunction=>(f.codeOffset,f.codeSize)) ∘ WasmFunction.named st) ∘
      (fun x:(ℕ×ℕ×ℕ)×ℕ=>definedFunction ((st.importTypes.length+x.2) % 2^32) x.1.1 x.1.2) =
        Prod.snd ∘ Prod.fst:=rfl
  rw [hcomp,← List.map_map,zipIdx_map_fst,map_snd_zip h.ge]

/-- What the start function's checks leave as it is. -/
structure SameModule (o o' : WasmInfo) : Prop where
  functions : o'.functions=o.functions
  imported : o'.importedFunctionCount=o.importedFunctionCount
  defined : o'.definedFunctionCount=o.definedFunctionCount
  part : ∀ ts bs, partOf o' ts bs = partOf o ts bs

theorem withStart_same {o o':WasmInfo} (h:withStart o=.ok o') :
    SameModule o o' ∧ (o.hasStart=true → o.startFunctionIndex<o.functions.length):=by
  unfold withStart at h
  split at h
  case isFalse hno=>
    obtain rfl:=ok.inj h
    exact ⟨⟨rfl,rfl,rfl,fun _ _=>rfl⟩,fun hyes=>absurd hyes hno⟩
  split at h
  case h_1=>cases h
  case h_2 sf hsf=>
    have hlt : o.startFunctionIndex<o.functions.length:=(List.getElem?_eq_some_iff.mp hsf).1
    refine ⟨?_,fun _=>hlt⟩
    dsimp only at h
    split at h
    case isFalse=>
      obtain rfl:=ok.inj h
      exact ⟨rfl,rfl,rfl,fun _ _=>rfl⟩
    split at h
    case h_1=>cases h
    split at h
    case isTrue=>cases h
    case isFalse=>
      obtain rfl:=ok.inj h
      exact ⟨rfl,rfl,rfl,fun _ _=>rfl⟩

/-- What is reported of a valid module. -/
structure Finished (st : State) (o : WasmInfo) : Prop where
  same : SameModule {st.o with functions:=functions st} o
  bodies : st.definedTypes.length=st.bodies.length
  start : o.hasStart=true → o.startFunctionIndex<o.functions.length
  types : o.typeParseComplete=true → ∀ f∈o.functions, f.typeIndex<o.types.length

theorem finish_ok {o:WasmInfo} (h:finish st=.ok o) : Finished st o:=by
  unfold finish at h
  split at h
  case isTrue=>cases h
  case isFalse hbodies=>
  split at h
  case isTrue=>cases h
  case isFalse=>
  obtain ⟨o₁,ho₁,h⟩:=bind_eq_ok.mp h
  dsimp only at h
  split at h
  case isTrue=>cases h
  case isFalse htypes=>
  obtain rfl:=ok.inj h
  obtain ⟨hsame,hstart⟩:=withStart_same ho₁
  refine ⟨⟨hsame.functions,hsame.imported,hsame.defined,hsame.part⟩,not_not.mp hbodies,?_,?_⟩
  · obtain ⟨hhas,hidx⟩:=Part.start.inj (congrFun (hsame.part [] []) 8)
    show o₁.hasStart = true → o₁.startFunctionIndex<o₁.functions.length
    rw [hhas,hidx,hsame.functions]
    exact hstart
  · intro hcomplete f hf
    by_contra hge
    exact htypes ⟨hcomplete,f,hf,Nat.le_of_not_lt hge⟩

/-- The sections tile the file behind the header and spell what is reported; the functions are
the imported ones and then the defined ones, and what is checked of the references holds. -/
structure Consistent (d : Bytes) (o : WasmInfo) : Prop where
  sections : ∃ secs, Items (fun _ => SectionFrame) d 0 8 d.length secs ∧ Ordered secs ∧
    (∀ f∈secs, Contents d f.payload f.stop (o.part f.id)) ∧
      ∀ id, (∀ f∈secs, f.id≠id) → o.part id = absent id
  counts : o.functions.length=o.importedFunctionCount+o.definedFunctionCount
  numbered : ∀ i f, o.functions[i]? = some f →
    f.index = i ∧ (f.imported=true ↔ i<o.importedFunctionCount)
  imports : ∀ i f, i<o.importedFunctionCount → o.functions[i]? = some f →
    ∃ x, (o.imports.filter (·.kind = .function))[i]? = some x ∧ f.typeIndex=x.typeIndex ∧
      f.importModule = x.module ∧ f.importName=x.name
  importCount : o.importedFunctionCount=o.imports.countP (·.kind = .function)
  start : o.hasStart=true → o.startFunctionIndex<o.functions.length
  types : o.typeParseComplete=true → (∀ f∈o.functions, f.typeIndex<o.types.length) ∧
    ∀ x∈o.imports, x.kind = .function → x.typeIndex<o.types.length

/-- The lists stay below the limits, so that no index wraps. -/
theorem Described.bounds (h:Described d secs st) :
    Numbered st.o.imports ∧ st.o.imports.length≤1000000 ∧ st.definedTypes.length≤10000000:=by
  have himports : Numbered st.o.imports ∧ st.o.imports.length≤1000000:=by
    by_cases h2 : ∃f∈secs,f.id=2
    · obtain ⟨f,hf,hid⟩:=h2
      have htext:=h.contents f hf
      rw [hid] at htext
      exact ⟨htext.2.2,htext.2.1⟩
    · have hnone:=h.rest 2 fun f hf hid=>h2 ⟨f,hf,hid⟩
      rw [Part.imports.inj hnone]
      exact ⟨nofun,Nat.zero_le _⟩
  refine ⟨himports.1,himports.2,?_⟩
  by_cases h3 : ∃f∈secs,f.id=3
  · obtain ⟨f,hf,hid⟩:=h3
    have htext:=h.contents f hf
    rw [hid] at htext
    exact htext.2
  · have hnone:=h.rest 3 fun f hf hid=>h3 ⟨f,hf,hid⟩
    rw [Part.functions.inj hnone]
    exact Nat.zero_le _

theorem functions_numbered (hi:st.importTypes.length≤1000000)
    (hd:st.definedTypes.length≤10000000) (hbodies:st.definedTypes.length=st.bodies.length)
    {f:WasmFunction} (hf:(functions st)[i]? = some f) :
    f.index=i ∧ (f.imported=true ↔ i<st.importTypes.length):=by
  have hlength:=functions_length hbodies
  have hlt : i<(functions st).length:=(List.getElem?_eq_some_iff.mp hf).1
  have hmod : i % 2^32 = i:=Nat.mod_eq_of_lt (by omega)
  by_cases himported : i<st.importTypes.length
  · rw [functions_imported (getElem?_eq_getElem himported),hmod] at hf
    obtain rfl:=some.inj hf
    unfold importedFunction
    split
    · exact ⟨rfl,fun _=>himported,fun _=>rfl⟩
    · exact ⟨rfl,fun _=>himported,fun _=>rfl⟩
  · obtain ⟨j,rfl⟩:=Nat.exists_eq_add_of_le (Nat.le_of_not_lt himported)
    have hj : j<st.definedTypes.length:=by omega
    rw [functions_defined (getElem?_eq_getElem hj) (getElem?_eq_getElem (hbodies▸hj)),hmod] at hf
    obtain rfl:=some.inj hf
    exact ⟨rfl,nofun,fun h=>absurd h himported⟩

theorem functions_import (hdesc:Described d secs st) {f:WasmFunction}
    (hi:i<st.importTypes.length) (hf:(functions st)[i]? = some f) :
    ∃x,(st.o.imports.filter (·.kind = .function))[i]? = some x ∧ f.typeIndex=x.typeIndex ∧
      f.importModule=x.module ∧ f.importName=x.name:=by
  obtain ⟨hnumbered,hlength,-⟩:=hdesc.bounds
  have htypes:=hdesc.tallied.importTypes
  have hfilter : i<(st.o.imports.filter (·.kind = .function)).length:=by
    rwa [htypes,length_map] at hi
  have hle:=length_filter_le (fun x:WasmImport=>decide (x.kind=.function)) st.o.imports
  have hmod : i % 2^32 = i:=Nat.mod_eq_of_lt (by omega)
  refine ⟨_,getElem?_eq_getElem hfilter,?_⟩
  have htype : st.importTypes[i]? =
      some ((st.o.imports.filter (·.kind = .function))[i]).typeIndex:=by
    rw [htypes,getElem?_map,getElem?_eq_getElem hfilter]
    rfl
  rw [functions_imported htype,hmod] at hf
  obtain rfl:=some.inj hf
  have hfind:=find_numbered hnumbered i
  rw [getElem?_eq_getElem hfilter] at hfind
  unfold importedFunction
  rw [hfind]
  exact ⟨rfl,rfl,rfl⟩

theorem parseWasm_valid (h:(parseWasm d).valid=true) :
    ∃st r,8≤d.length ∧ sectionsFrom d.length {o:={candidate:=true,version:=1}}
      (Reader.over d 8 d.length)=.ok (st,r) ∧ finish st=.ok (parseWasm d):=by
  unfold parseWasm at h ⊢
  by_cases hmagic : d.take 4≠[0,0x61,0x73,0x6d]
  · rw [if_pos hmagic] at h
    cases h
  rw [if_neg hmagic] at h ⊢
  dsimp only at h ⊢
  by_cases hlength : d.length<8
  · rw [if_pos hlength] at h
    cases h
  rw [if_neg hlength] at h ⊢
  generalize (d.getD 4 0).toNat ||| ((d.getD 5 0).toNat <<< 8) |||
    ((d.getD 6 0).toNat <<< 16) ||| ((d.getD 7 0).toNat <<< 24) = version at h ⊢
  by_cases hone : version≠1
  · rw [if_pos hone] at h
    cases h
  rw [if_neg hone] at h ⊢
  obtain rfl:=not_not.mp hone
  cases hs : sectionsFrom d.length {o:={candidate:=true,version:=1}}
      (Reader.over d 8 d.length) with
  | error e=>
    rw [hs] at h
    cases h
  | ok x=>
    rw [hs] at h
    cases hf : finish x.1 with
    | error e=>
      dsimp only at h
      rw [hf] at h
      cases h
    | ok o=>exact ⟨x.1,x.2,Nat.le_of_not_lt hlength,rfl,by simp only [hf]⟩

theorem start_described : Described d [] {o:={candidate:=true,version:=1}}:=
  ⟨List.Pairwise.nil,nofun,fun _ _=>rfl,nofun,nofun,rfl,rfl,rfl⟩

/-- Whatever is reported valid is consistent. -/
theorem wasm_consistent (d : Bytes) (h : (parseWasm d).valid=true) :
    Consistent d (parseWasm d) := by
  obtain ⟨st,r,hlength,hsections,hfinish⟩:=parseWasm_valid h
  have hr : (Reader.over d 8 d.length).Ok:=Reader.over_ok hlength (Nat.le_refl _)
  obtain ⟨secs,hitems,hdesc⟩:=sectionsFrom_described hr (by simp [Reader.over]) start_described
    nofun hsections
  obtain ⟨⟨hfunctions,himported,hdefined,hpart⟩,hbodies,hstart,htypes⟩:=finish_ok hfinish
  dsimp only at hfunctions himported hdefined
  have htally:=hdesc.tallied
  obtain ⟨-,hnimports,hndefined⟩:=hdesc.bounds
  have hicount : (parseWasm d).importedFunctionCount=st.importTypes.length:=
    himported.trans htally.imported
  have himports : (parseWasm d).imports=st.o.imports:=Part.imports.inj (congrFun (hpart [] []) 2)
  have hntypes : st.importTypes.length≤1000000:=by
    rw [htally.importTypes,length_map]
    exact Nat.le_trans (length_filter_le _ _) hnimports
  have hparts : (parseWasm d).part=st.part:=by
    unfold WasmInfo.part WasmInfo.defined
    rw [hfunctions,hicount,functions_types hbodies,functions_bodies hbodies,hpart]
    rfl
  constructor
  · rw [Reader.over_eq (Nat.le_refl _)] at hitems
    rw [hparts]
    exact ⟨secs,hitems,hdesc.ordered,hdesc.contents,hdesc.rest⟩
  · rw [hfunctions,functions_length hbodies,hicount,hdefined,← htally.defined]
  · intro i f hf
    rw [hfunctions] at hf
    rw [hicount]
    exact functions_numbered hntypes hndefined hbodies hf
  · intro i f hi hf
    rw [hfunctions] at hf
    rw [hicount] at hi
    rw [himports]
    exact functions_import hdesc hi hf
  · rw [hicount,htally.importTypes,himports,length_map,countP_eq_length_filter]
  · exact hstart
  · intro hcomplete
    refine ⟨htypes hcomplete,fun x hx hkind=>?_⟩
    have hmem : x.typeIndex∈st.importTypes:=by
      rw [htally.importTypes,← himports]
      exact mem_map_of_mem (mem_filter.mpr ⟨hx,decide_eq_true hkind⟩)
    obtain ⟨i,hi⟩:=mem_iff_getElem?.mp hmem
    have hf:=functions_imported hi
    rw [← hfunctions] at hf
    have hlt:=htypes hcomplete _ (mem_of_getElem? hf)
    unfold importedFunction at hlt
    split at hlt
    · exact hlt
    · exact hlt

/-- A module with a function import, a definition, a start function and exports. -/
def sampleModule : Bytes :=
  [0,0x61,0x73,0x6d,1,0,0,0,1,4,1,0x60,0,0,2,7,1,1,0x6d,1,0x66,0,0,
    3,2,1,0,7,5,1,1,0x67,0,1,8,1,1,10,4,1,2,0,0x0b]

theorem sample_consistent : Consistent sampleModule (parseWasm sampleModule):=
  wasm_consistent sampleModule (by decide +kernel)

def exportOfNothing : Bytes := [0,0x61,0x73,0x6d,1,0,0,0,7,5,1,1,0x66,0,3]

def emptyTableSection : Bytes := [0,0x61,0x73,0x6d,1,0,0,0,4,0]

/-- A type section of a form that is not read, and a function of type 7. -/
def untypedFunction : Bytes :=
  [0,0x61,0x73,0x6d,1,0,0,0,1,2,1,0x5f,3,2,1,7,10,4,1,2,0,0x0b]

/-- An import of a tag of type 9. -/
def untypedTag : Bytes := [0,0x61,0x73,0x6d,1,0,0,0,2,6,1,0,0,4,0,9]

/-- Valid modules whose export names no function, whose table section has no count, and whose
type indices name no type. -/
theorem unchecked_parts :
    ((parseWasm exportOfNothing).valid=true ∧ (parseWasm exportOfNothing).functions=[] ∧
      (parseWasm exportOfNothing).exports=[⟨[0x66],.function,3⟩]) ∧
    ((parseWasm emptyTableSection).valid=true ∧ ∀n, ¬U32 emptyTableSection 10 10 n) ∧
    ((parseWasm untypedFunction).valid=true ∧
      (parseWasm untypedFunction).functions.map (·.typeIndex)=[7] ∧
      (parseWasm untypedFunction).types=[]) ∧
    ((parseWasm untypedTag).valid=true ∧ (parseWasm untypedTag).types=[] ∧
      TagType untypedTag 14 16 ()):=by
  refine ⟨by decide +kernel,⟨by decide +kernel,fun n hn=>?_⟩,by decide +kernel,
    by decide +kernel,by decide +kernel,9,⟨rfl,rfl⟩,?_⟩
  · exact Nat.lt_irrefl _ (leb_forward hn.1)
  · exact ⟨Leb.last (x:=9) rfl (by decide),by omega,by omega⟩

end AutoRefirst.Wasm
