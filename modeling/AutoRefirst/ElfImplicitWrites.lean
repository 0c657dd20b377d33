import AutoRefirst.ElfImplicit

/-!
# Which writes to loader metadata are reported

A dependency fact looks at the first byte of a write only.
-/

namespace AutoRefirst.Elf
open List Option

variable {d : Bytes} {segments : List ElfSegment} {m : LoaderMetadata} {x y : RelRecord}
  {Other : Type} {o : OtherFacts Other} {p : ImplicitPlane Other} {k : MetadataKind} {place : ℕ}

/-- The byte at an address and an offset belongs to what the loader reads. -/
def IsMetadata (m : LoaderMetadata) (va place : ℕ) : MetadataKind → Prop
  | .relocationRecord => ∃ r ∈ m.ranges, r.off ≤ place ∧ place < r.off+r.size
  | .dynamicControl => m.dyn.off ≤ place ∧ place < m.dyn.off+m.dyn.size
  | .dynamicSymbol =>
    m.symbols.1 ≠ 0 ∧ m.symbols.1 ≤ place ∧ place-m.symbols.1 < m.symbols.2
  | .initializerSlot => ∃ r ∈ m.inits, r.va ≤ va ∧ va-r.va < r.size

/-- How many bytes a relocation writes: `R_X86_64_PC32` four, all others eight. -/
def writeWidth (machine : ℕ) (x : RelRecord) : ℕ := if machine = 62 ∧ x.type = 2 then 4 else 8

/-- Some byte that the relocation writes is in the file and belongs to the metadata. -/
def Touches (d : Bytes) (segments : List ElfSegment) (machine : ℕ) (m : LoaderMetadata)
    (x : RelRecord) (k : MetadataKind) : Prop :=
  ∃ i < writeWidth machine x, ∃ place,
    (vaddrToFile d ((x.target+i) % 2^64) segments).value = some place ∧
      IsMetadata m ((x.target+i) % 2^64) place k

/-- The first byte that the relocation writes is in the file and belongs to the metadata, in the
dynamic table to a record before the end. -/
def FirstByte (d : Bytes) (segments : List ElfSegment) (m : LoaderMetadata) (x : RelRecord)
    (k : MetadataKind) : Prop :=
  ∃ place, targetOff d segments x = some place ∧ IsMetadata m x.target place k ∧
    (k = .dynamicControl → (place-m.dyn.off)/16 < m.dyn.records.length)

def Reported (p : ImplicitPlane Other) (x : RelRecord) (k : MetadataKind) : Prop :=
  ∃ f, ImplicitFact.dependency f ∈ p.facts ∧ f.kind=k ∧ f.source = x.source++"_RECORD" ∧
    f.sourceFileOffset = x.off

variable {va : ℕ}

theorem isMetadata_relocation : IsMetadata m va place .relocationRecord ↔
    ∃r∈m.ranges,r.off≤place ∧ place < r.off+r.size:=Iff.rfl

theorem isMetadata_dynamic : IsMetadata m va place .dynamicControl ↔
    m.dyn.off≤place ∧ place < m.dyn.off+m.dyn.size:=Iff.rfl

theorem isMetadata_symbol : IsMetadata m va place .dynamicSymbol ↔
    m.symbols.1≠0 ∧ m.symbols.1≤place ∧ place-m.symbols.1 < m.symbols.2:=Iff.rfl

theorem isMetadata_initializer : IsMetadata m va place .initializerSlot ↔
    ∃r∈m.inits,r.va≤va ∧ va-r.va < r.size:=Iff.rfl

theorem relocationFact_isSome :
    (relocationFact m x place).isSome=true ↔ IsMetadata m x.target place .relocationRecord:=by
  rw [isMetadata_relocation]
  simp [relocationFact,relocationLoc,find?_isSome]

theorem dynamicFact_isSome :
    (dynamicFact m x place).isSome=true ↔ IsMetadata m x.target place .dynamicControl ∧
      (place-m.dyn.off) / 16 < m.dyn.records.length:=by
  rw [dynamicFact,isSome_map,dynamicLoc]
  split
  · rename_i hout
    simp only [isSome_none,Bool.false_eq_true,isMetadata_dynamic,false_iff]
    omega
  · rename_i hin
    rw [isSome_iff_ne_none,Ne,getElem?_eq_none_iff,not_le,isMetadata_dynamic]
    omega

theorem symbolFact_isSome :
    (symbolFact m x place).isSome=true ↔ IsMetadata m x.target place .dynamicSymbol:=by
  rw [symbolFact]
  split
  · rename_i hin
    simpa [isMetadata_symbol,symbolLoc,and_assoc] using hin
  · rename_i hout
    simpa [isMetadata_symbol,symbolLoc,and_assoc] using hout

theorem initFact_isSome :
    (initFact m x place).isSome=true ↔ IsMetadata m x.target place .initializerSlot:=by
  rw [isMetadata_initializer]
  simp [initFact,initLoc,find?_isSome]

theorem metadataFact_isSome : (metadataFact m x place k).isSome=true ↔
    IsMetadata m x.target place k ∧
      (k=.dynamicControl → (place-m.dyn.off)/16 < m.dyn.records.length):=by
  cases k with
  | relocationRecord=>simp [metadataFact,relocationFact_isSome]
  | dynamicControl=>simp [metadataFact,dynamicFact_isSome]
  | dynamicSymbol=>simp [metadataFact,symbolFact_isSome]
  | initializerSlot=>simp [metadataFact,initFact_isSome]

variable {f : DependencyFact}

theorem metadataFact_names (h:metadataFact m x place k=some f) :
    f.kind=k ∧ f.source = x.source++"_RECORD" ∧ f.sourceFileOffset=x.off:=by
  cases k with
  | relocationRecord=>
    obtain ⟨loc,-,rfl⟩:=map_eq_some_iff.mp h
    exact ⟨rfl,rfl,rfl⟩
  | dynamicControl=>
    obtain ⟨loc,-,rfl⟩:=map_eq_some_iff.mp h
    exact ⟨rfl,rfl,rfl⟩
  | dynamicSymbol=>
    rw [metadataFact,symbolFact] at h
    split at h
    · obtain rfl:=some.inj h
      exact ⟨rfl,rfl,rfl⟩
    · cases h
  | initializerSlot=>
    obtain ⟨loc,-,rfl⟩:=map_eq_some_iff.mp h
    exact ⟨rfl,rfl,rfl⟩

theorem mem_recordFacts : ImplicitFact.dependency f∈recordFacts d segments o m x ↔
      ∃k place,targetOff d segments x=some place ∧ metadataFact m x place k=some f:=by
  have hkind : ∀k,ImplicitFact.dependency f ∈ ((((targetOff d segments x).bind fun place=>
      metadataFact m x place k).map (@ImplicitFact.dependency Other)).toList) ↔
        ∃place,targetOff d segments x=some place ∧ metadataFact m x place k=some f:=by
    intro k
    simp [bind_eq_some_iff]
  have hother (l:List Other) :
      ImplicitFact.dependency f ∉ l.map (@ImplicitFact.other Other):=by
    simp
  rw [recordFacts]
  simp only [mem_append,hkind,hother,false_or,or_false]
  constructor
  · rintro (⟨place,h⟩ | ⟨place,h⟩ | ⟨place,h⟩ | ⟨place,h⟩)
    · exact ⟨_,place,h⟩
    · exact ⟨_,place,h⟩
    · exact ⟨_,place,h⟩
    · exact ⟨_,place,h⟩
  · rintro ⟨k,place,h⟩
    cases k with
    | relocationRecord=>exact .inl ⟨place,h⟩
    | dynamicControl=>exact .inr (.inl ⟨place,h⟩)
    | dynamicSymbol=>exact .inr (.inr (.inl ⟨place,h⟩))
    | initializerSlot=>exact .inr (.inr (.inr ⟨place,h⟩))

theorem addFacts_kept {fs:List (ImplicitFact Other)} (h:(addFacts p fs).limited=false) :
    (addFacts p fs).facts = p.facts++fs ∧ p.limited=false:=by
  induction fs generalizing p with
  | nil=>exact ⟨by simp [addFacts],h⟩
  | cons f fs ih=>
    obtain ⟨hfacts,hlimited⟩:=ih (p:=addFact p f) h
    rw [addFact] at hlimited hfacts
    split at hlimited
    · cases hlimited
    · rename_i hroom
      rw [if_neg hroom] at hfacts
      refine ⟨?_,hlimited⟩
      rw [addFacts,foldl_cons,addFact,if_neg hroom]
      rw [addFacts] at hfacts
      simpa using hfacts

theorem scan_kept {l:List RelRecord}
    (h:(l.foldl (fun p x=>addFacts p (recordFacts d segments o m x)) p).limited=false) :
    (l.foldl (fun p x=>addFacts p (recordFacts d segments o m x)) p).facts =
      p.facts++l.flatMap (recordFacts d segments o m) ∧ p.limited=false:=by
  induction l generalizing p with
  | nil=>exact ⟨by simp,h⟩
  | cons x l ih=>
    obtain ⟨hfacts,hlimited⟩:=ih (p:=addFacts p (recordFacts d segments o m x)) h
    obtain ⟨hfirst,hstart⟩:=addFacts_kept hlimited
    refine ⟨?_,hstart⟩
    rw [foldl_cons,hfacts,hfirst,flatMap_cons,append_assoc]

theorem mem_scanRecords (h:(scanRecords d segments o m).limited=false) :
    ImplicitFact.dependency f∈(scanRecords d segments o m).facts ↔
      ∃x∈relocationRecords d m,ImplicitFact.dependency f∈recordFacts d segments o m x:=by
  rw [scanRecords] at h ⊢
  split at h
  · cases h
  rename_i hlength
  have hall : (relocationRecords d m).take maxRawRelocations=relocationRecords d m:=by
    apply take_of_length_le
    rw [length_take] at hlength
    omega
  rw [if_neg hlength]
  rw [hall] at h ⊢
  obtain ⟨hafter,hscanned⟩:=addFacts_kept h
  obtain ⟨hscan,hstart⟩:=scan_kept hscanned
  obtain ⟨hbefore,-⟩:=addFacts_kept hstart
  rw [hafter,hscan,hbefore]
  simp

variable {source : String} {size ent : ℕ} {rela : Bool} {r : RelRange}

theorem mem_addRelRange (h:r∈addRelRange d segments source va size ent rela) :
    ∃ex,(vaddrFileExtent d va segments).value=some ex ∧
      r=⟨source,va,ex.1,size - size % ent,size,rela⟩:=by
  rw [addRelRange] at h
  by_cases hshape : va=0 ∨ size=0 ∨ ent ≠ if rela = true then 24 else 16
  · rw [if_pos hshape] at h
    exact absurd h not_mem_nil
  · rw [if_neg hshape] at h
    cases hex : (vaddrFileExtent d va segments).value with
    | none=>
      rw [hex] at h
      exact absurd h not_mem_nil
    | some ex=>
      rw [hex] at h
      dsimp only at h
      by_cases hsize : size > ex.2
      · rw [if_pos hsize] at h
        exact absurd h not_mem_nil
      · rw [if_neg hsize] at h
        exact ⟨ex,rfl,mem_singleton.mp h⟩

theorem addRelRange_source (h:r∈addRelRange d segments source va size ent rela) :
    r.source=source:=by
  obtain ⟨ex,-,rfl⟩:=mem_addRelRange h
  rfl

theorem addRelRange_single {s:RelRange} (hr:r∈addRelRange d segments source va size ent rela)
    (hs:s∈addRelRange d segments source va size ent rela) : r=s:=by
  obtain ⟨ex,hex,rfl⟩:=mem_addRelRange hr
  obtain ⟨ex',hex',rfl⟩:=mem_addRelRange hs
  rw [some.inj (hex.symm.trans hex')]

variable {t : DynTable}

theorem mem_relRanges (h:r∈relRanges d segments t) :
    r ∈ addRelRange d segments "DT_RELA" (t.tv 7) (t.tv 8) (t.tv 9) true ∨
    r ∈ addRelRange d segments "DT_REL" (t.tv 17) (t.tv 18) (t.tv 19) false ∨
    (t.tv 20=7 ∧ r ∈ addRelRange d segments "DT_JMPREL" (t.tv 23) (t.tv 2) 24 true) ∨
    (t.tv 20=17 ∧ r ∈ addRelRange d segments "DT_JMPREL" (t.tv 23) (t.tv 2) 16 false):=by
  rw [relRanges,mem_insertionSort,mem_append,mem_append] at h
  refine h.imp_right fun h=>h.imp_right fun h=>?_
  split at h
  · exact .inl ⟨‹_›,h⟩
  · split at h
    · exact .inr ⟨‹_›,h⟩
    · cases h

theorem relRanges_source {s:RelRange} (hr:r∈relRanges d segments t)
    (hs:s∈relRanges d segments t) (h:r.source=s.source) : r=s:=by
  rcases mem_relRanges hr with hr | hr | ⟨htag,hr⟩ | ⟨htag,hr⟩ <;>
    rcases mem_relRanges hs with hs | hs | ⟨htag',hs⟩ | ⟨htag',hs⟩ <;>
    first
      | exact addRelRange_single hr hs
      | (rw [addRelRange_source hr,addRelRange_source hs] at h
         exact absurd h (by decide))
      | omega

theorem mem_records (h:x∈relocationRecords d (loaderMetadata d segments t)) :
    ∃r∈relRanges d segments t,∃place,x=readRecord d r place:=by
  obtain ⟨r,hr,hx⟩:=mem_flatMap.mp h
  obtain ⟨i,-,rfl⟩:=mem_map.mp hx
  exact ⟨r,hr,_,rfl⟩

theorem record_unique (hx:x∈relocationRecords d (loaderMetadata d segments t))
    (hy:y∈relocationRecords d (loaderMetadata d segments t)) (hsource:x.source=y.source)
    (hoff:x.off=y.off) : x=y:=by
  obtain ⟨r,hr,i,rfl⟩:=mem_records hx
  obtain ⟨s,hs,j,rfl⟩:=mem_records hy
  obtain rfl:=relRanges_source hr hs hsource
  have hij : i=j:=Nat.add_left_cancel hoff
  rw [hij]

theorem source_cancel {a b:String} (h:a++"_RECORD" = b++"_RECORD") : a=b:=by
  have hlist:=congrArg String.toList h
  rw [String.toList_append,String.toList_append] at hlist
  exact String.ext (append_cancel_right hlist)

/-- In a scan that met no limit a record has a fact of a kind exactly when the first byte of its
write belongs to the metadata. -/
theorem reported_iff (hx:x∈relocationRecords d (loaderMetadata d segments t))
    (hlimited:(scanRecords d segments o (loaderMetadata d segments t)).limited=false) :
    Reported (scanRecords d segments o (loaderMetadata d segments t)) x k ↔
      FirstByte d segments (loaderMetadata d segments t) x k:=by
  constructor
  · rintro ⟨f,hf,rfl,hsource,hoff⟩
    obtain ⟨y,hy,hmem⟩:=(mem_scanRecords hlimited).mp hf
    obtain ⟨kind,place,hplace,hfact⟩:=mem_recordFacts.mp hmem
    obtain ⟨rfl,hnamed,hat⟩:=metadataFact_names hfact
    obtain rfl:=record_unique hx hy (source_cancel (hsource.symm.trans hnamed))
      (hoff.symm.trans hat)
    obtain ⟨hin,hrecord⟩:=metadataFact_isSome.mp (by rw [hfact];rfl)
    exact ⟨place,hplace,hin,hrecord⟩
  · rintro ⟨place,hplace,hin,hrecord⟩
    obtain ⟨f,hf⟩:=isSome_iff_exists.mp (metadataFact_isSome.mpr ⟨hin,hrecord⟩)
    refine ⟨f,(mem_scanRecords hlimited).mpr ⟨x,hx,?_⟩,metadataFact_names hf⟩
    exact mem_recordFacts.mpr ⟨k,place,hplace,hf⟩

/-- For every record of a supported file and every kind of metadata: when the first byte that the
relocation writes belongs to the metadata, it is reported, or the plane met a limit. -/
theorem metadata_write_reported (d : Bytes) (o : OtherFacts Other) (t : DynTable)
    (x : RelRecord) (k : MetadataKind) (hsupported : supported (parseElf d).value=true)
    (ht : dynTable d (parseElf d).value.segments (parseElf d).value.rawSections=some t)
    (hx : x∈relocationRecords d (loaderMetadata d (parseElf d).value.segments t))
    (hfirst : FirstByte d (parseElf d).value.segments
      (loaderMetadata d (parseElf d).value.segments t) x k) :
    Reported (implicitPlane d o (parseElf d).value) x k ∨
      (implicitPlane d o (parseElf d).value).limited=true := by
  rw [implicitPlane,if_pos hsupported,ht]
  cases hlimited : (scanRecords d (parseElf d).value.segments o
      (loaderMetadata d (parseElf d).value.segments t)).limited with
  | true=>exact .inr rfl
  | false=>exact .inl ((reported_iff hx hlimited).mpr hfirst)

/-- A file with one loaded segment, a dynamic table at 176 and one relocation record behind it, for
the address 172. -/
def straddling : Bytes :=
  [127,69,76,70,2,1,1,0,0,0,0,0,0,0,0,0,3,0,62,0,1,0,0,0,
    0,0,0,0,0,0,0,0,64,0,0,0,0,0,0,0,0,0,0,0,0,0,0,0,
    0,0,0,0,64,0,56,0,2,0,64,0,0,0,0,0] ++
  [1,0,0,0,4,0,0,0,0,0,0,0,0,0,0,0,0,0,0,0,0,0,0,0,0,0,0,0,0,0,0,0,
    8,1,0,0,0,0,0,0,8,1,0,0,0,0,0,0,0,16,0,0,0,0,0,0] ++
  [2,0,0,0,4,0,0,0,176,0,0,0,0,0,0,0,176,0,0,0,0,0,0,0,
    176,0,0,0,0,0,0,0,64,0,0,0,0,0,0,0,64,0,0,0,0,0,0,0,
    8,0,0,0,0,0,0,0] ++
  [7,0,0,0,0,0,0,0,240,0,0,0,0,0,0,0,8,0,0,0,0,0,0,0,24,0,0,0,0,0,0,0,
    9,0,0,0,0,0,0,0,24,0,0,0,0,0,0,0,0,0,0,0,0,0,0,0,0,0,0,0,0,0,0,0] ++
  [172,0,0,0,0,0,0,0,8,0,0,0,0,0,0,0,0,0,0,0,0,0,0,0]

def straddlingTable : DynTable := scanDyn straddling 176 176 64

def straddlingRecord : RelRecord := ⟨"DT_RELA",24,240,240,172,8,0⟩

/-- What the reader makes of the file: the table, the record, and a plane without facts. -/
theorem straddling_read : ((parseElf straddling).value.header.elf64=true ∧
      (parseElf straddling).value.header.littleEndian=true) ∧
    (dynTable straddling (parseElf straddling).value.segments
        (parseElf straddling).value.rawSections=some straddlingTable ∧
      straddlingRecord ∈ relocationRecords straddling (loaderMetadata straddling
        (parseElf straddling).value.segments straddlingTable)) ∧
    ((vaddrToFile straddling ((straddlingRecord.target+4) % 2^64)
        (parseElf straddling).value.segments).value = some 176 ∧
      4<writeWidth (parseElf straddling).value.header.machine straddlingRecord ∧
      straddlingTable.off≤176 ∧ 176<straddlingTable.off+straddlingTable.size) ∧
    (implicitPlane straddling ({} : OtherFacts Unit)
        (parseElf straddling).value).facts.isEmpty = true ∧
      (implicitPlane straddling ({} : OtherFacts Unit)
        (parseElf straddling).value).limited = false:=by
  decide +kernel

theorem dynamic_metadata : IsMetadata (loaderMetadata d segments t) va place .dynamicControl ↔
      t.off≤place ∧ place<t.off+t.size:=Iff.rfl

theorem firstByte_dynamic {x:RelRecord} (htarget:targetOff d segments x=some place)
    (hrange:t.off≤place ∧ place<t.off+t.size)
    (hrecords:(place-t.off)/16<t.records.length) :
    FirstByte d segments (loaderMetadata d segments t) x .dynamicControl:=
  ⟨place,htarget,dynamic_metadata.mpr hrange,fun _=>hrecords⟩

theorem straddling_touches : Touches straddling (parseElf straddling).value.segments
    (parseElf straddling).value.header.machine (loaderMetadata straddling
      (parseElf straddling).value.segments straddlingTable) straddlingRecord .dynamicControl:=by
  obtain ⟨-,-,⟨hplace,hwidth,hrange⟩,-⟩:=straddling_read
  exact ⟨4,hwidth,176,hplace,dynamic_metadata.mpr hrange⟩

/-- Eight bytes from 172 on reach four bytes into the dynamic table, and nothing is reported. -/
theorem straddling_unreported :
    ¬∀(d:Bytes) (o:OtherFacts Unit) (t:DynTable) (x:RelRecord) (k:MetadataKind),
      (parseElf d).value.header.elf64=true → (parseElf d).value.header.littleEndian=true →
      dynTable d (parseElf d).value.segments (parseElf d).value.rawSections=some t →
      x∈relocationRecords d (loaderMetadata d (parseElf d).value.segments t) → x.type≠0 →
      Touches d (parseElf d).value.segments (parseElf d).value.header.machine
        (loaderMetadata d (parseElf d).value.segments t) x k →
      Reported (implicitPlane d o (parseElf d).value) x k ∨
        (implicitPlane d o (parseElf d).value).limited=true:=by
  intro hall
  obtain ⟨⟨helf64,hendian⟩,⟨htable,hrecord⟩,-,hfacts,hlimited⟩:=straddling_read
  rcases hall straddling {} straddlingTable straddlingRecord .dynamicControl helf64 hendian htable
    hrecord (by decide) straddling_touches with ⟨f,hf,-⟩ | hreported
  · exact eq_nil_iff_forall_not_mem.mp (isEmpty_iff.mp hfacts) _ hf
  · exact Bool.false_ne_true (hlimited.symm.trans hreported)

/-- The same file with a record for the first byte of the table. -/
def onTable : Bytes := straddling.set 240 176

def onTableTable : DynTable := scanDyn onTable 176 176 64

def onTableRecord : RelRecord := ⟨"DT_RELA",24,240,240,176,8,0⟩

theorem onTable_read : supported (parseElf onTable).value=true ∧
    (dynTable onTable (parseElf onTable).value.segments
        (parseElf onTable).value.rawSections=some onTableTable ∧
      onTableRecord ∈ relocationRecords onTable (loaderMetadata onTable
        (parseElf onTable).value.segments onTableTable)) ∧
    targetOff onTable (parseElf onTable).value.segments onTableRecord=some 176 ∧
      (onTableTable.off≤176 ∧ 176<onTableTable.off+onTableTable.size) ∧
      (176-onTableTable.off) / 16 < onTableTable.records.length:=by
  decide +kernel

theorem onTable_reported :
    Reported (implicitPlane onTable ({} : OtherFacts Unit) (parseElf onTable).value) onTableRecord
        .dynamicControl ∨
      (implicitPlane onTable ({} : OtherFacts Unit) (parseElf onTable).value).limited=true:=by
  obtain ⟨hsupported,⟨htable,hrecord⟩,htarget,hrange,hrecords⟩:=onTable_read
  exact metadata_write_reported onTable {} onTableTable onTableRecord .dynamicControl
    hsupported htable hrecord (firstByte_dynamic htarget hrange hrecords)

end AutoRefirst.Elf
