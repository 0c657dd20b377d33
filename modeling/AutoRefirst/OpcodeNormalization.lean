import AutoRefirst.CPythonDispatch

/-!
# When a validated opcode map is a permutation

Each slot of a recovered table stands for the official entries with its handler, or, when no
official entry has that handler, for those with its signature. A slot is mapped to its own
opcode when it stands for the entry there, and else to its only counterpart. Nothing keeps
two slots from standing for one entry, so the map merges opcodes exactly when they do.
-/

namespace AutoRefirst.CPythonDispatch
open List Option

variable {ref : OpcodeReference} {t : DispatchEntry} {e : ReferenceEntry}

/-- The official entries that a slot may stand for: those with its handler, and those with its
signature and number of blocks when there are none with its handler. -/
def counterparts (ref : OpcodeReference) (t : DispatchEntry) : List ReferenceEntry :=
  if ref.byRva t.handlerRva ≠ [] then ref.byRva t.handlerRva
  else ref.bySig t.entryBlockHash t.entryInstructionCount

def Stands (ref : OpcodeReference) (t : DispatchEntry) (e : ReferenceEntry) : Prop :=
  e ∈ counterparts ref t ∧ (e.opcode=t.opcode ∨ counterparts ref t = [e])

/-- The slot has the handler of an official entry: at its address or, where no official entry
has that address, by a signature that belongs to one official address. -/
def SameHandler (ref : OpcodeReference) (t : DispatchEntry) (e : ReferenceEntry) : Prop :=
  e.handlerRva = t.handlerRva ∨
    ((∀ x∈ref.entries, x.handlerRva≠t.handlerRva) ∧ e.signature≠0 ∧
      e.signature = t.entryBlockHash ∧ e.blockCount=t.entryInstructionCount ∧
      ∀ x∈ref.entries, x.signature=e.signature → x.blockCount=e.blockCount →
        x.handlerRva = e.handlerRva)

/-- No entry that is the only counterpart of a moved slot is also the counterpart of another
slot, at that slot's own opcode or as its only one. -/
def NoSharedCounterpart (ref : OpcodeReference) (entries : List DispatchEntry) : Prop :=
  ∀ u∈entries, ∀ e, counterparts ref u = [e] → e.opcode≠u.opcode →
    ∀ t∈entries, t.opcode≠u.opcode → e ∈ counterparts ref t →
      t.opcode ≠ e.opcode ∧ counterparts ref t ≠ [e]

theorem mem_byRva {rva:UInt32} : e∈ref.byRva rva ↔ e∈ref.entries ∧ e.handlerRva=rva:=by
  simp [OpcodeReference.byRva]

theorem mem_bySig {signature:UInt64} {blockCount:UInt32} : e∈ref.bySig signature blockCount ↔
      e∈ref.entries ∧ e.signature≠0 ∧ e.signature=signature ∧ e.blockCount=blockCount:=by
  simp [OpcodeReference.bySig]

theorem mem_of_mem_counterparts (h:e∈counterparts ref t) : e∈ref.entries:=by
  unfold counterparts at h
  split at h
  · exact (mem_byRva.mp h).1
  · exact (mem_bySig.mp h).1

theorem entry_unique {x y:ReferenceEntry} (hx:x∈ref.entries) (hy:y∈ref.entries)
    (hxy:x.opcode=y.opcode) : x=y:=by
  have hnodup : (ref.entries.map (·.opcode)).Nodup:=ref.opcodes▸nodup_range'
  exact inj_on_of_nodup_map hnodup hx hy hxy

theorem byOpcode_eq_some {op:ℕ} : ref.byOpcode op=some e ↔ e∈ref.entries ∧ e.opcode=op:=by
  have hmem : ∀x,ref.byOpcode op=some x → x∈ref.entries ∧ x.opcode=op:=by
    intro x hx
    have hin:=mem_of_getLast? hx
    simpa using hin
  constructor
  · exact hmem e
  · rintro ⟨he,hop⟩
    cases hlast : ref.byOpcode op with
    | none=>
      have hnil:=getLast?_eq_none_iff.mp hlast
      have hin : e ∈ ref.entries.filter fun x=>x.opcode=op:=by simpa using ⟨he,hop⟩
      rw [hnil] at hin
      cases hin
    | some x=>
      obtain ⟨hx,hxop⟩:=hmem x hlast
      rw [entry_unique hx he (hxop.trans hop.symm)]

def MappingState.Clean (s : MappingState) : Prop :=
  s = .slotMatch ∨ s = .semanticSlotMatch ∨ s = .permuted ∨ s = .semanticPermuted

structure SlotSpec (ref : OpcodeReference) (t : DispatchEntry) (s : MappingState)
    (assigned : List ReferenceEntry) : Prop where
  assigned : assigned = counterparts ref t
  place : s.countsSlotMatch=true ↔ ∃ e ∈ counterparts ref t, e.opcode=t.opcode
  handler : ∀ e ∈ counterparts ref t, SameHandler ref t e

theorem sameHandler_of_signature (hnil:ref.byRva t.handlerRva=[])
    (hone:((ref.bySig t.entryBlockHash t.entryInstructionCount).map (·.handlerRva)).dedup.length=1)
    (he:e∈ref.bySig t.entryBlockHash t.entryInstructionCount) : SameHandler ref t e:=by
  obtain ⟨hin,hsigned,hsig,hblocks⟩:=mem_bySig.mp he
  refine .inr ⟨fun x hx hrva=>?_,hsigned,hsig,hblocks,fun x hx hxs hxb=>?_⟩
  · have hmem:=mem_byRva.mpr ⟨hx,hrva⟩
    rw [hnil] at hmem
    cases hmem
  · obtain ⟨rva,hrva⟩:=length_eq_one_iff.mp hone
    have honly : ∀y∈ref.bySig t.entryBlockHash t.entryInstructionCount,
        y.handlerRva=rva:=by
      intro y hy
      have hy':=mem_dedup.mpr (mem_map_of_mem (f:=fun e=>e.handlerRva) hy)
      rw [hrva] at hy'
      exact mem_singleton.mp hy'
    have hx' : x∈ref.bySig t.entryBlockHash t.entryInstructionCount:=
      mem_bySig.mpr ⟨hx,hxs▸hsigned,hxs.trans hsig,hxb.trans hblocks⟩
    rw [honly x hx',honly e he]

theorem slot_spec (hclean:(slotState ref t).1.Clean) :
    SlotSpec ref t (slotState ref t).1 (slotState ref t).2:=by
  have hrva : ∀e∈ref.byRva t.handlerRva,SameHandler ref t e:=fun e he=>
    .inl (mem_byRva.mp he).2
  unfold slotState at hclean ⊢
  dsimp only at hclean ⊢
  split at hclean
  · rename_i e hexpected
    obtain ⟨hop,hhandler⟩:=filter_eq_some_iff.mp hexpected
    obtain ⟨he,hop⟩:=byOpcode_eq_some.mp hop
    have hin : e∈ref.byRva t.handlerRva:=mem_byRva.mpr ⟨he,by simpa using hhandler⟩
    have hne : ref.byRva t.handlerRva≠[]:=ne_nil_of_mem hin
    have hc : counterparts ref t=ref.byRva t.handlerRva:=if_pos hne
    split at hclean
    · rename_i hsig
      rw [if_pos hsig]
      exact ⟨hc.symm,⟨fun _=>⟨e,hc▸hin,hop⟩,fun _=>rfl⟩,hc▸hrva⟩
    · simp [MappingState.Clean] at hclean
  · rename_i hmoved
    have hnotplace : ∀e∈ref.byRva t.handlerRva,e.opcode≠t.opcode:=by
      intro e he hop
      obtain ⟨hin,hhandler⟩:=mem_byRva.mp he
      have hsome : (ref.byOpcode t.opcode).filter (fun e=>e.handlerRva=t.handlerRva) =
          some e:=filter_eq_some_iff.mpr
        ⟨byOpcode_eq_some.mpr ⟨hin,hop⟩,by simpa using hhandler⟩
      rw [hmoved] at hsome
      cases hsome
    split at hclean
    · rename_i hne
      have hc : counterparts ref t=ref.byRva t.handlerRva:=if_pos hne
      rw [if_pos hne]
      split at hclean
      · rename_i hsig
        rw [if_pos hsig]
        refine ⟨hc.symm,⟨nofun,?_⟩,hc▸hrva⟩
        rintro ⟨e,he,hop⟩
        exact absurd hop (hnotplace e (hc▸he))
      · simp [MappingState.Clean] at hclean
    · rename_i hnil
      have hc : counterparts ref t=ref.bySig t.entryBlockHash t.entryInstructionCount:=if_neg hnil
      rw [if_neg hnil]
      split at hclean
      · simp [MappingState.Clean] at hclean
      · rename_i hhash
        rw [if_neg hhash]
        split at hclean
        · simp [MappingState.Clean] at hclean
        · rename_i hgroup
          rw [if_neg hgroup]
          split at hclean
          · rename_i hone
            rw [if_pos hone]
            have hsame : ∀e∈counterparts ref t,SameHandler ref t e:=fun e he=>
              sameHandler_of_signature (not_not.mp hnil) hone (hc▸he)
            split at hclean
            · rename_i hplace
              rw [if_pos hplace]
              refine ⟨hc.symm,⟨fun _=>?_,fun _=>rfl⟩,hsame⟩
              simpa [hc] using hplace
            · rename_i hplace
              rw [if_neg hplace]
              refine ⟨hc.symm,⟨nofun,?_⟩,hsame⟩
              rintro ⟨e,he,hop⟩
              exact absurd (any_eq_true.mpr ⟨e,hc▸he,by simpa using hop⟩) hplace
          · simp [MappingState.Clean] at hclean

theorem onlyOne_map {l:List ReferenceEntry} {o:ℕ} :
    onlyOne (l.map (·.opcode))=some o ↔ ∃e,l=[e] ∧ e.opcode=o:=by
  cases l with
  | nil=>simp [onlyOne]
  | cons x l=>
    cases l with
    | nil=>simp [onlyOne]
    | cons y l=>simp [onlyOne]

theorem official_mapSlot (hclean:(slotState ref t).1.Clean) {o:ℕ} :
    (mapSlot ref t).official=some o ↔ ∃e,Stands ref t e ∧ e.opcode=o:=by
  obtain ⟨hassigned,hplace,-⟩:=slot_spec hclean
  have hofficial : (mapSlot ref t).official =
      if (slotState ref t).1.countsSlotMatch then some t.opcode
      else onlyOne ((counterparts ref t).map (·.opcode)):=by
    have hrefs : (mapSlot ref t).referenceOpcodes=(counterparts ref t).map (·.opcode):=by
      rw [← hassigned]
      rfl
    unfold OpcodeMapping.official
    rw [hrefs]
    rcases hclean with h | h | h | h <;> simp [mapSlot,OpcodeMapping.assignRefs,h,
      MappingState.countsSlotMatch]
  rw [hofficial]
  split
  · rename_i hslot
    obtain ⟨e,he,hop⟩:=hplace.mp hslot
    constructor
    · intro ho
      exact ⟨e,⟨he,.inl hop⟩,hop.trans (some.inj ho)⟩
    · rintro ⟨x,⟨hx,hop' | honly⟩,rfl⟩
      · rw [hop']
      · rw [honly,mem_singleton] at he
        rw [← he,hop]
  · rename_i hmoved
    rw [onlyOne_map]
    constructor
    · rintro ⟨e,honly,ho⟩
      exact ⟨e,⟨by simp [honly],.inr honly⟩,ho⟩
    · rintro ⟨e,⟨he,hop | honly⟩,ho⟩
      · exact absurd (hplace.mpr ⟨e,he,hop⟩) hmoved
      · exact ⟨e,honly,ho⟩

theorem clean_iff {s:MappingState} :
    s.Clean ↔ s.countsHandlerModified=false ∧ (s == .ambiguousSemantic)=false ∧
      (s == .unmapped)=false:=by
  cases s <;> simp [MappingState.Clean,MappingState.countsHandlerModified]

theorem clean_of_slotMatch {s:MappingState} (h:s.countsSlotMatch=true) : s.Clean:=by
  cases s <;> simp_all [MappingState.Clean,MappingState.countsSlotMatch]

theorem statusOf_permutation {out:CPythonDispatchInfo} {sameShape:Bool} {n:ℕ}
    (h:statusOf out sameShape n=.opcodePermutation) :
    sameShape=true ∧ out.handlerModified=0 ∧ out.ambiguous=0 ∧ out.unmapped=0:=by
  unfold statusOf at h
  split at h
  · cases h
  · split at h
    · cases h
    · split at h
      · cases h
      · rename_i hmodified
        split at h
        · rename_i hpure
          exact ⟨hpure.2.2.2,not_not.mp hmodified,hpure.2.1,hpure.2.2.1⟩
        · cases h

theorem statusOf_match {out:CPythonDispatchInfo} {sameShape:Bool} {n:ℕ}
    (h:statusOf out sameShape n=.referenceMatch) :
    sameShape=true ∧ out.slotMatches=n:=by
  unfold statusOf at h
  split at h
  · rename_i hmatch
    exact ⟨hmatch.1,hmatch.2.1⟩
  · split at h
    · cases h
    · split at h
      · cases h
      · split at h <;> cases h

section

variable {table : RecoveredTable} {comparable exact : Bool}

def SameShape (table : RecoveredTable) (ref : OpcodeReference) : Prop :=
  table.firstOpcode = ref.firstOpcode ∧ table.entryCount=ref.entryCount

theorem analyze_permutation
    (hstatus:(analyzeCpythonDispatch (some table) (some ref) comparable exact).referenceStatus =
      .opcodePermutation) :
    (analyzeCpythonDispatch (some table) (some ref) comparable exact).mappings =
        table.entries.map (mapSlot ref) ∧
      SameShape table ref ∧ ∀t∈table.entries,(slotState ref t).1.Clean:=by
  unfold analyzeCpythonDispatch at hstatus ⊢
  dsimp only at hstatus ⊢
  split at hstatus
  · cases hstatus
  · rename_i hexact
    rw [if_neg hexact]
    split at hstatus
    · cases hstatus
    · rename_i hcomparable
      rw [if_neg hcomparable]
      obtain ⟨hshape,hmodified,hambiguous,hunmapped⟩:=statusOf_permutation hstatus
      have hsame : _ ∧ _:=of_decide_eq_true hshape
      refine ⟨rfl,hsame,fun t ht=>clean_iff.mpr ?_⟩
      have hin : mapSlot ref t∈table.entries.map (mapSlot ref):=mem_map_of_mem ht
      exact ⟨Bool.not_eq_true _▸countP_eq_zero.mp hmodified _ hin,
        Bool.not_eq_true _▸countP_eq_zero.mp hambiguous _ hin,
        Bool.not_eq_true _▸countP_eq_zero.mp hunmapped _ hin⟩

theorem analyze_match
    (hstatus:(analyzeCpythonDispatch (some table) (some ref) comparable exact).referenceStatus =
      .referenceMatch) :
    SameShape table ref ∧
      (exact=true ∨ ∀t∈table.entries,(slotState ref t).1.countsSlotMatch=true):=by
  unfold analyzeCpythonDispatch at hstatus
  dsimp only at hstatus
  split at hstatus
  · rename_i hexact
    rw [Bool.and_eq_true] at hexact
    have hsame : _ ∧ _:=of_decide_eq_true hexact.2
    exact ⟨hsame,.inl hexact.1⟩
  · split at hstatus
    · cases hstatus
    · obtain ⟨hshape,hmatches⟩:=statusOf_match hstatus
      have hsame : _ ∧ _:=of_decide_eq_true hshape
      refine ⟨hsame,.inr fun t ht=>?_⟩
      have hlength : table.entries.length=table.entryCount:=by
        simpa using table.opcodes.length_eq
      have hall : (table.entries.map (mapSlot ref)).countP (·.state.countsSlotMatch) =
          (table.entries.map (mapSlot ref)).length:=by
        rw [length_map,hlength,hsame.2]
        exact hmatches
      exact countP_eq_length.mp hall _ (mem_map_of_mem ht)

structure Built (pairs : List (ℕ×ℕ)) (b : OpcodeMapBuild) : Prop where
  maps : ∀ a o, b.targetToOfficial a = some o ↔ (a,o)∈pairs ∧ a<256 ∧ o<256
  counts : b.mappedOpcodes = pairs.countP fun p => p.1<256 ∧ p.2<256

variable {pairs : List (ℕ×ℕ)}

theorem Built.assign {b:OpcodeMapBuild} (h:Built pairs b) {target official:ℕ}
    (hfresh:∀o,(target,o) ∉ pairs) :
    Built (pairs++[(target,official)]) (b.assign target official):=by
  have hnone : b.targetToOfficial target=none:=by
    cases hmap : b.targetToOfficial target with
    | none=>rfl
    | some o=>exact absurd ((h.maps target o).mp hmap).1 (hfresh o)
  unfold OpcodeMapBuild.assign
  split
  · rename_i hroom
    refine ⟨fun a o=>?_,?_⟩
    · by_cases ha : a=target
      · subst ha
        simp only [Function.update_self,some_inj,mem_append,hfresh,false_or,
          mem_singleton,Prod.mk.injEq,true_and]
        constructor
        · rintro rfl
          exact ⟨rfl,hroom.1,hroom.2.1⟩
        · exact fun ho=>ho.1.symm
      · simp [h.maps,ha]
    · simp [h.counts,countP_append,hroom]
  · rename_i hroom
    have hlarge : ¬(target<256 ∧ official<256):=fun hsmall=>
      hroom ⟨hsmall.1,hsmall.2,hnone⟩
    refine ⟨fun a o=>?_,?_⟩
    · rw [h.maps]
      constructor
      · rintro ⟨hin,hsmall⟩
        exact ⟨mem_append_left _ hin,hsmall⟩
      · rintro ⟨hin,hsmall⟩
        rcases mem_append.mp hin with hin | hin
        · exact ⟨hin,hsmall⟩
        · cases mem_singleton.mp hin
          exact absurd hsmall hlarge
    · simp [h.counts,countP_append,hlarge]

theorem built_foldl (hnodup:(pairs.map Prod.fst).Nodup) :
    Built pairs (pairs.foldl (fun b p=>b.assign p.1 p.2) {}):=by
  induction pairs using reverseRecOn with
  | nil=>exact ⟨by simp,rfl⟩
  | append_singleton pairs p ih=>
    rw [map_append,nodup_append] at hnodup
    obtain ⟨hleft,-,hapart⟩:=hnodup
    rw [foldl_append,foldl_cons,foldl_nil]
    refine (ih hleft).assign fun o hin=>?_
    exact hapart p.1 (mem_map.mpr ⟨(p.1,o),hin,rfl⟩) p.1 (by simp) rfl

def OpcodeMapping.pair (m : OpcodeMapping) : Option (ℕ×ℕ) :=
  m.official.map fun official => (m.targetOpcode,official)

theorem foldl_assignMapping (ms:List OpcodeMapping) (b:OpcodeMapBuild) :
    ms.foldl OpcodeMapBuild.assignMapping b =
      (ms.filterMap OpcodeMapping.pair).foldl (fun b p=>b.assign p.1 p.2) b:=by
  induction ms generalizing b with
  | nil=>rfl
  | cons m ms ih=>
    rw [foldl_cons,ih]
    cases hofficial : m.official with
    | none=>simp [OpcodeMapping.pair,OpcodeMapBuild.assignMapping,hofficial]
    | some official=>simp [OpcodeMapping.pair,OpcodeMapBuild.assignMapping,hofficial]

def pairsOf (ref : OpcodeReference) (entries : List DispatchEntry) : List (ℕ×ℕ) :=
  (entries.map (mapSlot ref)).filterMap OpcodeMapping.pair

theorem nodup_opcodes (table:RecoveredTable) : (table.entries.map (·.opcode)).Nodup:=
  table.opcodes.nodup_iff.mpr nodup_range'

theorem pairsOf_nodup (table:RecoveredTable) :
    ((pairsOf ref table.entries).map Prod.fst).Nodup:=by
  have hsub : ∀entries : List DispatchEntry,
      ((pairsOf ref entries).map Prod.fst).Sublist (entries.map (·.opcode)):=by
    intro entries
    induction entries with
    | nil=>exact .slnil
    | cons t entries ih=>
      unfold pairsOf at ih ⊢
      rw [map_cons,filterMap_cons]
      cases hofficial : (mapSlot ref t).official with
      | none=>
        simp only [OpcodeMapping.pair,hofficial,map_none,map_cons]
        exact ih.cons _
      | some official=>
        simp only [OpcodeMapping.pair,hofficial,map_some,map_cons]
        exact ih.cons_cons _
  exact (nodup_opcodes table).sublist (hsub _)

variable {entries : List DispatchEntry} {a o : ℕ}

theorem mem_pairsOf : (a,o)∈pairsOf ref entries ↔
      ∃t∈entries,t.opcode=a ∧ (mapSlot ref t).official=some o:=by
  simp only [pairsOf,mem_filterMap,List.mem_map,OpcodeMapping.pair,map_eq_some_iff]
  constructor
  · rintro ⟨_,⟨t,ht,rfl⟩,official,hofficial,hpair⟩
    cases hpair
    exact ⟨t,ht,rfl,hofficial⟩
  · rintro ⟨t,ht,rfl,hofficial⟩
    exact ⟨_,⟨t,ht,rfl⟩,o,hofficial,rfl⟩

theorem opcode_lt (table:RecoveredTable) (ht:t∈table.entries) : t.opcode<256:=by
  have hin:=table.opcodes.subset (mem_map_of_mem (f:=fun t=>t.opcode) ht)
  have hrange:=mem_range'_1.mp hin
  have hbound:=table.bounded
  omega

theorem reference_opcode_lt (hshape:SameShape table ref) (he:e∈ref.entries) : e.opcode<256:=by
  have hin:=mem_map_of_mem (f:=fun e=>e.opcode) he
  rw [ref.opcodes,mem_range'_1] at hin
  have hbound:=table.bounded
  obtain ⟨hfirst,hcount⟩:=hshape
  omega

def ExactBuild (table : RecoveredTable) (ref : OpcodeReference) : Prop :=
  ∀ t∈table.entries, ∃ e∈ref.entries, e.opcode=t.opcode ∧ e.handlerRva=t.handlerRva

theorem place_of_exact (hexact:ExactBuild table ref) (ht:t∈table.entries) :
    ∃e∈counterparts ref t,e.opcode=t.opcode ∧ SameHandler ref t e:=by
  obtain ⟨e,he,hop,hrva⟩:=hexact t ht
  have hin:=mem_byRva.mpr ⟨he,hrva⟩
  refine ⟨e,?_,hop,.inl hrva⟩
  rw [counterparts,if_pos (ne_nil_of_mem hin)]
  exact hin

theorem place_of_match {comparable exact:Bool}
    (hstatus:(analyzeCpythonDispatch (some table) (some ref) comparable exact).referenceStatus =
      .referenceMatch) (hexact:exact=true → ExactBuild table ref) (ht:t∈table.entries) :
    ∃e∈counterparts ref t,e.opcode=t.opcode ∧ SameHandler ref t e:=by
  rcases (analyze_match hstatus).2 with hx | hslots
  · exact place_of_exact (hexact hx) ht
  · have hspec:=slot_spec (clean_of_slotMatch (hslots t ht))
    obtain ⟨e,he,hop⟩:=hspec.place.mp (hslots t ht)
    exact ⟨e,he,hop,hspec.handler e he⟩

theorem stands_iff_place (hplace:∃e∈counterparts ref t,e.opcode=t.opcode) :
    (∃e,Stands ref t e ∧ e.opcode=o) ↔ o=t.opcode:=by
  obtain ⟨x,hx,hop⟩:=hplace
  constructor
  · rintro ⟨e,⟨he,heop | honly⟩,rfl⟩
    · exact heop
    · rw [honly,mem_singleton] at hx
      rw [← hx,hop]
  · rintro rfl
    exact ⟨x,⟨hx,.inl hop⟩,hop⟩

variable {dispatch : CPythonDispatchInfo}

/-- The table and the reference agree so far that the map is taken from them. -/
theorem status_of_mapped (hmapped:(dispatchMap dispatch).mappedOpcodes≠0) :
    dispatch.referenceStatus=.referenceMatch ∨ dispatch.referenceStatus=.opcodePermutation:=by
  unfold dispatchMap at hmapped
  split at hmapped
  · exact .inl ‹_›
  · exact .inr ‹_›
  · exact absurd rfl hmapped

theorem dispatchMap_permutation (hstatus:dispatch.referenceStatus=.opcodePermutation)
    (hmappings:dispatch.mappings=table.entries.map (mapSlot ref)) :
    Built (pairsOf ref table.entries) (dispatchMap dispatch):=by
  unfold dispatchMap
  rw [hstatus]
  dsimp only
  rw [foldl_assignMapping,hmappings]
  exact built_foldl (pairsOf_nodup table)

theorem dispatchMap_match (hstatus:dispatch.referenceStatus=.referenceMatch) :
    Built ((range' dispatch.tableFirstOpcode dispatch.tableEntryCount).map fun op=>(op,op))
      (dispatchMap dispatch):=by
  have hnodup : (((range' dispatch.tableFirstOpcode dispatch.tableEntryCount).map
      fun op=>(op,op)).map Prod.fst).Nodup:=by
    simpa [List.map_map,Function.comp_def] using nodup_range'
  have hbuilt:=built_foldl hnodup
  rw [foldl_map] at hbuilt
  unfold dispatchMap
  rw [hstatus]
  exact hbuilt

theorem analyze_shape (table:RecoveredTable) (ref:Option OpcodeReference) (comparable exact:Bool) :
    (analyzeCpythonDispatch (some table) ref comparable exact).tableFirstOpcode =
        table.firstOpcode ∧
      (analyzeCpythonDispatch (some table) ref comparable exact).tableEntryCount =
        table.entryCount ∧
      (analyzeCpythonDispatch (some table) ref comparable exact).tableFound=true:=by
  unfold analyzeCpythonDispatch
  cases ref with
  | none=>exact ⟨rfl,rfl,rfl⟩
  | some ref=>
    dsimp only
    split
    · exact ⟨rfl,rfl,rfl⟩
    · split <;> exact ⟨rfl,rfl,rfl⟩

theorem dispatchMap_iff {comparable exact:Bool} (hexact:exact=true → ExactBuild table ref)
    (hmapped:(dispatchMap (analyzeCpythonDispatch (some table) (some ref) comparable
      exact)).mappedOpcodes≠0) :
    (dispatchMap (analyzeCpythonDispatch (some table) (some ref) comparable
        exact)).targetToOfficial a = some o ↔
      ∃t∈table.entries,t.opcode=a ∧ ∃e,Stands ref t e ∧ e.opcode=o:=by
  rcases status_of_mapped hmapped with hstatus | hstatus
  · obtain ⟨hfirst,hcount,-⟩:=analyze_shape table (some ref) comparable exact
    rw [(dispatchMap_match hstatus).maps,hfirst,hcount]
    have hplace : ∀t∈table.entries,∃e∈counterparts ref t,e.opcode=t.opcode:=by
      intro t ht
      obtain ⟨e,he,hop,-⟩:=place_of_match hstatus hexact ht
      exact ⟨e,he,hop⟩
    constructor
    · rintro ⟨hin,-,-⟩
      obtain ⟨op,hop,hpair⟩:=mem_map.mp hin
      cases hpair
      obtain ⟨t,ht,rfl⟩:=mem_map.mp (table.opcodes.symm.subset hop)
      exact ⟨t,ht,rfl,(stands_iff_place (hplace t ht)).mpr rfl⟩
    · rintro ⟨t,ht,rfl,hstands⟩
      rw [(stands_iff_place (hplace t ht)).mp hstands]
      have hlt:=opcode_lt table ht
      refine ⟨mem_map.mpr ⟨t.opcode,?_,rfl⟩,hlt,hlt⟩
      exact table.opcodes.subset (mem_map_of_mem ht)
  · obtain ⟨hmappings,hshape,hclean⟩:=analyze_permutation hstatus
    rw [(dispatchMap_permutation hstatus hmappings).maps,mem_pairsOf]
    constructor
    · rintro ⟨⟨t,ht,hop,hofficial⟩,-,-⟩
      exact ⟨t,ht,hop,(official_mapSlot (hclean t ht)).mp hofficial⟩
    · rintro ⟨t,ht,rfl,hstands⟩
      refine ⟨⟨t,ht,rfl,(official_mapSlot (hclean t ht)).mpr hstands⟩,opcode_lt table ht,?_⟩
      obtain ⟨e,⟨he,-⟩,rfl⟩:=hstands
      exact reference_opcode_lt hshape (mem_of_mem_counterparts he)

/-- A slot of a table that the map is taken from has the handler of each of its counterparts
that it stands for. -/
theorem sameHandler_of_mapped {comparable exact:Bool} (hexact:exact=true → ExactBuild table ref)
    (hmapped:(dispatchMap (analyzeCpythonDispatch (some table) (some ref) comparable
      exact)).mappedOpcodes≠0) (ht:t∈table.entries) (hstands:Stands ref t e) :
    SameHandler ref t e:=by
  rcases status_of_mapped hmapped with hstatus | hstatus
  · obtain ⟨x,hx,hop,hsame⟩:=place_of_match hstatus hexact ht
    have heop:=(stands_iff_place ⟨x,hx,hop⟩).mp ⟨e,hstands,rfl⟩
    have hex : e=x:=entry_unique (mem_of_mem_counterparts hstands.1)
      (mem_of_mem_counterparts hx) (heop.trans hop.symm)
    rwa [hex]
  · exact (slot_spec ((analyze_permutation hstatus).2.2 t ht)).handler e hstands.1

theorem Built.unique {pairs':List (ℕ×ℕ)} {b b':OpcodeMapBuild} (h:Built pairs b)
    (h':Built pairs' b') (hpairs:pairs'.Perm pairs) : b'=b:=by
  obtain ⟨map,mapped⟩:=b
  obtain ⟨map',mapped'⟩:=b'
  have hmap : map'=map:=by
    funext a
    refine ext fun o=>?_
    exact (h'.maps a o).trans ((and_congr_left' hpairs.mem_iff).trans (h.maps a o).symm)
  have hmapped : mapped'=mapped:=h'.counts.trans ((hpairs.countP_eq _).trans h.counts.symm)
  rw [hmap,hmapped]

theorem statusOf_congr {entries':List DispatchEntry} (hentries:entries'.Perm entries)
    (out:CPythonDispatchInfo) (sameShape:Bool) (n:ℕ) :
    statusOf (out.counted (entries'.map (mapSlot ref))) sameShape n =
      statusOf (out.counted (entries.map (mapSlot ref))) sameShape n:=by
  have hcount:=fun p=>(hentries.map (mapSlot ref)).countP_eq p
  unfold statusOf CPythonDispatchInfo.counted
  dsimp only
  rw [hcount,hcount,hcount,hcount,hcount,hcount]

/-- The entries of a table may be listed in any order. -/
theorem analyze_congr {table':RecoveredTable} (ref:OpcodeReference) (comparable exact:Bool)
    (hfirst:table'.firstOpcode=table.firstOpcode)
    (hcount:table'.entryCount=table.entryCount)
    (hentries:table'.entries.Perm table.entries) :
    (analyzeCpythonDispatch (some table') (some ref) comparable exact).referenceStatus =
      (analyzeCpythonDispatch (some table) (some ref) comparable exact).referenceStatus:=by
  unfold analyzeCpythonDispatch
  dsimp only
  rw [hfirst,hcount]
  split
  · rfl
  · split
    · rfl
    · exact statusOf_congr hentries _ _ _

theorem dispatchMap_congr {table':RecoveredTable} (ref:OpcodeReference) (comparable exact:Bool)
    (hfirst:table'.firstOpcode=table.firstOpcode)
    (hcount:table'.entryCount=table.entryCount)
    (hentries:table'.entries.Perm table.entries) :
    dispatchMap (analyzeCpythonDispatch (some table') (some ref) comparable exact) =
      dispatchMap (analyzeCpythonDispatch (some table) (some ref) comparable exact):=by
  have hstatus:=analyze_congr ref comparable exact hfirst hcount hentries
  cases hcase : (analyzeCpythonDispatch (some table) (some ref) comparable
      exact).referenceStatus with
  | referenceMatch=>
    obtain ⟨hfirst₁,hcount₁,-⟩:=analyze_shape table (some ref) comparable exact
    obtain ⟨hfirst₂,hcount₂,-⟩:=analyze_shape table' (some ref) comparable exact
    have hmap:=dispatchMap_match hcase
    have hmap':=dispatchMap_match (hstatus.trans hcase)
    rw [hfirst₁,hcount₁] at hmap
    rw [hfirst₂,hcount₂,hfirst,hcount] at hmap'
    exact hmap.unique hmap' .rfl
  | opcodePermutation=>
    have hmap:=dispatchMap_permutation hcase (analyze_permutation hcase).1
    have hmap':=dispatchMap_permutation (hstatus.trans hcase)
      (analyze_permutation (hstatus.trans hcase)).1
    exact hmap.unique hmap' ((hentries.map _).filterMap _)
  | _=>simp only [dispatchMap,hstatus,hcase]

/-- No two opcodes are mapped to one. -/
def InjectiveMap (map : ℕ→Option ℕ) : Prop :=
  ∀ a b o, map a = some o → map b = some o → a=b

/-- What is expected of a map that was validated against a table: it is a permutation of
instructions that keeps their handlers, it does not depend on the order of the entries, and
rewriting code with it loses nothing. -/
structure ValidPermutation (table : RecoveredTable) (ref : OpcodeReference)
    (comparable exact : Bool) (probe : CPythonCompilerProbeInfo)
    (m : CPythonOpcodeNormalizationMap) : Prop where
  injective : InjectiveMap m.targetToOfficial
  handlers : ∀ a o, m.targetToOfficial a = some o →
    ∃ t∈table.entries, t.opcode=a ∧ ∃ e∈ref.entries, e.opcode=o ∧ SameHandler ref t e
  order : ∀ table' : RecoveredTable, table'.firstOpcode=table.firstOpcode →
    table'.entryCount = table.entryCount → table'.entries.Perm table.entries →
      cpythonValidatedOpcodeMap
        (analyzeCpythonDispatch (some table') (some ref) comparable exact) probe = some m
  lossless : ∀ code code' out, rewriteUnits m.targetToOfficial code = some out →
    rewriteUnits m.targetToOfficial code' = some out → code=code'

variable {map : ℕ→Option ℕ}

theorem rewriteUnits_length {code out:List UInt8} (h:rewriteUnits map code=some out) :
    out.length=code.length:=by
  fun_induction rewriteUnits map code generalizing out with
  | case1=>cases h;rfl
  | case2=>cases h
  | case3=>cases h
  | case4 op arg rest official hmap ih=>
    obtain ⟨tail,htail,rfl⟩:=map_eq_some_iff.mp h
    simp [ih htail]

theorem rewriteUnits_lossless (hinj:InjectiveMap map) (hbytes:∀a o,map a=some o → o<256)
    {code code' out:List UInt8} (h:rewriteUnits map code=some out)
    (h':rewriteUnits map code'=some out) :
    code=code':=by
  fun_induction rewriteUnits map code generalizing code' out with
  | case1=>
    cases h
    exact (eq_nil_of_length_eq_zero (rewriteUnits_length h').symm).symm
  | case2=>cases h
  | case3=>cases h
  | case4 op arg rest official hmap ih=>
    obtain ⟨tail,htail,rfl⟩:=map_eq_some_iff.mp h
    have hlength:=rewriteUnits_length h'
    cases code' with
    | nil=>simp at hlength
    | cons op' code'=>
      cases code' with
      | nil=>simp at hlength
      | cons arg' rest'=>
        rw [rewriteUnits] at h'
        cases hmap' : map op'.toNat with
        | none=>simp [hmap'] at h'
        | some official'=>
          simp only [hmap',map_eq_some_iff,List.cons.injEq] at h'
          obtain ⟨tail',htail',hop,rfl,rfl⟩:=h'
          have hofficial : official'=official:=by
            have hlt:=hbytes _ _ hmap
            have hlt':=hbytes _ _ hmap'
            have hnat:=congrArg UInt8.toNat hop
            rw [UInt8.toNat_ofNat',UInt8.toNat_ofNat'] at hnat
            omega
          subst hofficial
          have hsame:=UInt8.toNat_inj.mp (hinj _ _ _ hmap hmap')
          rw [hsame,ih htail htail']

theorem injective_iff (hmap:∀a o,map a=some o ↔
      ∃t∈entries,t.opcode=a ∧ ∃e,Stands ref t e ∧ e.opcode=o) :
    InjectiveMap map ↔ NoSharedCounterpart ref entries:=by
  constructor
  · intro hinj u hu e honly hmoved t ht hne he
    have hstands : map u.opcode=some e.opcode:=
      (hmap _ _).mpr ⟨u,hu,rfl,e,⟨by simp [honly],.inr honly⟩,rfl⟩
    constructor
    · intro hplace
      have hother:=(hmap t.opcode e.opcode).mpr ⟨t,ht,rfl,e,⟨he,.inl hplace.symm⟩,rfl⟩
      exact hne (hinj _ _ _ hother hstands)
    · intro hsingle
      have hother:=(hmap t.opcode e.opcode).mpr ⟨t,ht,rfl,e,⟨he,.inr hsingle⟩,rfl⟩
      exact hne (hinj _ _ _ hother hstands)
  · intro hapart a b o ha hb
    obtain ⟨t,ht,rfl,e,hte,rfl⟩:=(hmap a o).mp ha
    obtain ⟨u,hu,rfl,x,hux,hxe⟩:=(hmap b _).mp hb
    have hx : x=e:=entry_unique (mem_of_mem_counterparts hux.1)
      (mem_of_mem_counterparts hte.1) hxe
    subst hx
    by_contra hne
    rcases hte.2 with hplace | honly
    · rcases hux.2 with hplace' | honly'
      · exact hne (hplace.symm.trans hplace')
      · have hmoved : x.opcode≠u.opcode:=fun h=>hne (hplace.symm.trans h)
        exact (hapart u hu x honly' hmoved t ht hne hte.1).1 hplace.symm
    · by_cases hmoved : x.opcode=t.opcode
      · rcases hux.2 with hplace' | honly'
        · exact hne (hmoved.symm.trans hplace')
        · exact (hapart u hu x honly' (fun h=>hne (hmoved.symm.trans h)) t ht hne hte.1).1
            hmoved.symm
      · have hclash:=hapart t ht x honly hmoved u hu (Ne.symm hne) hux.1
        rcases hux.2 with hplace' | honly'
        · exact hclash.1 hplace'.symm
        · exact hclash.2 honly'

theorem dispatchMap_lt (hmapped:(dispatchMap dispatch).mappedOpcodes≠0) {comparable exact:Bool}
    (hanalyzed:dispatch=analyzeCpythonDispatch (some table) (some ref) comparable exact)
    (h:(dispatchMap dispatch).targetToOfficial a=some o) : o<256:=by
  subst hanalyzed
  rcases status_of_mapped hmapped with hstatus | hstatus
  · exact (((dispatchMap_match hstatus).maps a o).mp h).2.2
  · have hbuilt:=dispatchMap_permutation hstatus (analyze_permutation hstatus).1
    exact ((hbuilt.maps a o).mp h).2.2

theorem validated_of_mapped (hfound:dispatch.tableFound=true)
    (hmapped:(dispatchMap dispatch).mappedOpcodes≠0) (probe:CPythonCompilerProbeInfo) :
    cpythonValidatedOpcodeMap dispatch probe =
      some ⟨(dispatchMap dispatch).targetToOfficial,(dispatchMap dispatch).mappedOpcodes,
        .dispatch⟩:=by
  unfold cpythonValidatedOpcodeMap
  rw [if_pos hfound]
  exact if_pos hmapped

theorem mapped_of_validated {probe:CPythonCompilerProbeInfo} {m:CPythonOpcodeNormalizationMap}
    (hfound:dispatch.tableFound=true) (hm:cpythonValidatedOpcodeMap dispatch probe=some m)
    (hsource:m.source=.dispatch) :
    (dispatchMap dispatch).mappedOpcodes≠0:=by
  intro hzero
  unfold cpythonValidatedOpcodeMap at hm
  rw [if_pos hfound] at hm
  dsimp only at hm
  rw [if_neg (not_not.mpr hzero)] at hm
  split at hm
  · split at hm
    · cases hm
      cases hsource
    · cases hm
  · cases hm

theorem opcode_map_is_permutation (table : RecoveredTable) (ref : OpcodeReference)
    (comparable exact : Bool) (probe : CPythonCompilerProbeInfo)
    (m : CPythonOpcodeNormalizationMap)
    (hexact : exact=true → ExactBuild table ref)
    (hm : cpythonValidatedOpcodeMap
      (analyzeCpythonDispatch (some table) (some ref) comparable exact) probe=some m)
    (hsource : m.source=.dispatch) :
    ValidPermutation table ref comparable exact probe m ↔
      NoSharedCounterpart ref table.entries := by
  have hfound:=(analyze_shape table (some ref) comparable exact).2.2
  have hmapped:=mapped_of_validated hfound hm hsource
  have hvalid:=validated_of_mapped hfound hmapped probe
  have htarget : m.targetToOfficial=(dispatchMap (analyzeCpythonDispatch (some table)
      (some ref) comparable exact)).targetToOfficial:=by
    rw [hvalid] at hm
    cases hm
    rfl
  have hmap : ∀a o,m.targetToOfficial a=some o ↔
      ∃t∈table.entries,t.opcode=a ∧ ∃e,Stands ref t e ∧ e.opcode=o:=by
    intro a o
    rw [htarget]
    exact dispatchMap_iff hexact hmapped
  refine ⟨fun h=>(injective_iff hmap).mp h.injective,fun hapart=>?_⟩
  have hinj:=(injective_iff hmap).mpr hapart
  refine ⟨hinj,fun a o ho=>?_,fun table' hfirst hcount hentries=>?_,
    fun code code' out=>?_⟩
  · obtain ⟨t,ht,hop,e,hstands,heo⟩:=(hmap a o).mp ho
    exact ⟨t,ht,hop,e,mem_of_mem_counterparts hstands.1,heo,
      sameHandler_of_mapped hexact hmapped ht hstands⟩
  · have hsame:=dispatchMap_congr ref comparable exact hfirst hcount hentries
    rw [validated_of_mapped (analyze_shape table' (some ref) comparable exact).2.2
      (by rwa [hsame]) probe,hsame,← hvalid,hm]
  · refine rewriteUnits_lossless hinj fun a o ho=>?_
    rw [htarget] at ho
    exact dispatchMap_lt hmapped rfl ho

end

/-- A reference of some number of opcodes, each with a handler and a signature of its own. -/
def plainReference (count : ℕ) : OpcodeReference where
  version := "3.8.10"
  firstOpcode := 0
  entryCount := count
  entries := (List.range count).map fun i =>
    { opcode:=i,name := "",handlerRva:=0x1000+16*i.toUInt32,signature:=i.toUInt64+1,blockCount:=1 }
  opcodes := by simp [Function.comp_def,range_eq_range']

def movedTable (count : ℕ) (moved : ℕ→ℕ) (hcount : count ≤ 256) : RecoveredTable where
  firstOpcode := 0
  entryCount := count
  entries := (List.range count).map fun i =>
    { opcode:=i,handlerRva:=0x1000+16*(moved i).toUInt32
      entryBlockHash:=(moved i).toUInt64+1,entryInstructionCount:=1 }
  bounded := by omega
  opcodes := by simp [Function.comp_def,range_eq_range']

/-- Opcode 0 has the handler of opcode 1, and so have two opcodes of the target: both are
mapped to opcode 1, and the table is reported as a permutation. -/
theorem repeated_handler_merged : (cpythonValidatedOpcodeMap (analyzeCpythonDispatch
        (some (movedTable 96 (fun i=>max i 1) (by decide))) (some (plainReference 96))
        true false) {}).map
      (fun m=>(m.source,m.targetToOfficial 0,m.targetToOfficial 1)) =
        some (.dispatch,some 1,some 1) ∧
    (analyzeCpythonDispatch (some (movedTable 96 (fun i=>max i 1) (by decide)))
      (some (plainReference 96)) true false).referenceStatus = .opcodePermutation:=by
  decide +kernel

theorem opcode_map_is_permutation_swapped :
    ValidPermutation (movedTable 2 (fun i=>1-i) (by decide)) (plainReference 2) true false {}
        ⟨(dispatchMap (analyzeCpythonDispatch (some (movedTable 2 (fun i=>1-i) (by decide)))
          (some (plainReference 2)) true false)).targetToOfficial,2,.dispatch⟩ ↔
      NoSharedCounterpart (plainReference 2)
        (movedTable 2 (fun i=>1-i) (by decide)).entries:=
  opcode_map_is_permutation _ _ _ _ _ _ nofun rfl rfl

end AutoRefirst.CPythonDispatch
