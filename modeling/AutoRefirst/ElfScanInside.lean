import AutoRefirst.ElfScanSums

/-!
# The scan of an ELF file stays inside the file

Exactly for the files whose fields fit: no sum wraps, every read lies inside, addresses are mapped
into their segments, and an overlay starts behind everything that the headers describe.
-/

namespace AutoRefirst.Elf
open Scan

section
variable {d : Bytes} {h : ElfHeader}

/-- The stages behind the segments, once the sums of these fit. -/
theorem scanFile_fits (hb:HeaderBounds h) (hd:d.length<2^63) :
    (scanFile h d).fits=true ↔ FieldsFit h d:=by
  unfold scanFile
  rw [bind_fits]
  constructor
  · rintro ⟨hsegments,hrest⟩
    have hsegmentTable:=fun hcount=>first_of_fits hb.phoff hsegments hcount
    obtain ⟨hiff,heq⟩:=scanSegments_fits h hb hd hsegmentTable
    have hsegmentsFit:=hiff.mp hsegments
    rw [heq hsegmentsFit,pure_value] at hrest
    dsimp only at hrest
    rw [bind_fits,bind_fits] at hrest
    obtain ⟨-,hsections,hrest⟩:=hrest
    have hsectionTable:=fun hcount=>first_of_fits hb.shoff hsections hcount
    obtain ⟨hiff',heq'⟩:=scanSections_fits h hb hd
      ((segmentsIn h d).foldl (fun m s=>endAfter m (some (s.offset,s.fileSize))) 0)
      hsectionTable
    have hsectionsFit:=hiff'.mp hsections
    rw [heq' hsectionsFit,pure_value] at hrest
    dsimp only at hrest
    rw [bind_fits,bind_fits,bind_fits] at hrest
    obtain ⟨-,hsectionNames,hsegmentNames,-⟩:=hrest
    rw [neededOfSections_fits h _ _ hd fun rs hrs=>bounds_of_mem_sectionsIn hrs]
      at hsectionNames
    rw [neededOfSegments_fits h _ _ hd hsegmentsFit] at hsegmentNames
    exact ⟨hsegmentTable,hsegmentsFit,hsectionTable,hsectionsFit,hsectionNames, hsegmentNames⟩
  · intro hfit
    obtain ⟨hiff,heq⟩:=scanSegments_fits h hb hd hfit.segmentTable
    obtain ⟨hiff',heq'⟩:=scanSections_fits h hb hd
      ((segmentsIn h d).foldl (fun m s=>endAfter m (some (s.offset,s.fileSize))) 0)
      hfit.sectionTable
    refine ⟨hiff.mpr hfit.segments,?_⟩
    rw [heq hfit.segments,pure_value]
    dsimp only
    rw [bind_fits,bind_fits]
    refine ⟨interpreterOf_fits _ _,hiff'.mpr hfit.sections,?_⟩
    rw [heq' hfit.sections,pure_value]
    dsimp only
    rw [bind_fits,bind_fits,bind_fits]
    refine ⟨?_,?_,?_,rfl⟩
    · exact readSections_fits h _ hd fun rs hrs=>bounds_of_mem_sectionsIn hrs
    · exact (neededOfSections_fits h _ _ hd fun rs hrs=>bounds_of_mem_sectionsIn hrs).mpr
        hfit.sectionNames
    · exact (neededOfSegments_fits h _ _ hd hfit.segments).mpr hfit.segmentNames

theorem scanFile_value (hb:HeaderBounds h) (hd:d.length<2^63) (hfit:FieldsFit h d) :
    (scanFile h d).value.segments=segmentsIn h d ∧ (scanFile h d).value.rawSections=sectionsIn h d ∧
      (scanFile h d).value.overlayOffset=(overlay d (describedEnd h d)).1 ∧
      (scanFile h d).value.overlaySize=(overlay d (describedEnd h d)).2:=by
  have heq:=(scanSegments_fits h hb hd hfit.segmentTable).2 hfit.segments
  have heq':=(scanSections_fits h hb hd
    ((segmentsIn h d).foldl (fun m s=>endAfter m (some (s.offset,s.fileSize))) 0)
    hfit.sectionTable).2 hfit.sections
  unfold scanFile
  rw [heq,pure_bind]
  dsimp only
  rw [bind_value,heq',pure_bind]
  exact ⟨rfl,rfl,rfl,rfl⟩

end

theorem le_endAfter (fileEnd:ℕ) (e:Option (ℕ×ℕ)) : fileEnd≤endAfter fileEnd e:=by
  cases e with
  | none=>exact Nat.le_refl _
  | some x=>exact Nat.le_max_left _ _

theorem le_foldl_endAfter {α:Type} (extent:α → Option (ℕ×ℕ)) (l:List α) (m:ℕ) :
    m ≤ l.foldl (fun m s=>endAfter m (extent s)) m:=by
  induction l generalizing m with
  | nil=>exact Nat.le_refl _
  | cons s l ih=>exact Nat.le_trans (le_endAfter m _) (ih _)

theorem extent_le_foldl {α:Type} {extent:α → Option (ℕ×ℕ)} {l:List α} (m:ℕ) {s:α}
    (hs:s∈l) {x:ℕ×ℕ} (hx:extent s=some x) :
    x.1 + x.2 ≤ l.foldl (fun m s=>endAfter m (extent s)) m:=by
  induction l generalizing m with
  | nil=>cases hs
  | cons y l ih=>
    rw [List.foldl_cons]
    rcases List.mem_cons.mp hs with rfl | hs
    · rw [hx]
      exact Nat.le_trans (Nat.le_max_right _ _) (le_foldl_endAfter extent l _)
    · exact ih _ hs

theorem segment_le_describedEnd {h:ElfHeader} {d:Bytes} {s:ElfSegment}
    (hs:s∈segmentsIn h d) : s.offset+s.fileSize ≤ describedEnd h d:=
  Nat.le_trans
    (@extent_le_foldl _ (fun s:ElfSegment=>some (s.offset,s.fileSize)) _ 0 _ hs _ rfl)
    (le_foldl_endAfter RawSec.extent _ _)

theorem section_le_describedEnd {h:ElfHeader} {d:Bytes} {rs:RawSec}
    (hrs:rs∈sectionsIn h d) (htype:rs.type≠8) : rs.off+rs.size ≤ describedEnd h d:=
  extent_le_foldl (x:=(rs.off,rs.size)) _ hrs (if_pos htype)

/-- What is asked of the scan of a file. -/
structure StaysInside (d : Bytes) : Prop where
  inside : (parseElf d).inside=true
  fits : (parseElf d).fits=true
  address : ∀ va, (vaddrToFile d va (parseElf d).value.segments).fits=true ∧
    ∀ off, (vaddrToFile d va (parseElf d).value.segments).value = some off →
      InSegment d (parseElf d).value.segments va off 1
  extent : ∀ va, (vaddrFileExtent d va (parseElf d).value.segments).fits=true ∧
    ∀ r, (vaddrFileExtent d va (parseElf d).value.segments).value = some r →
      InSegment d (parseElf d).value.segments va r.1 r.2
  overlay : (parseElf d).value.overlaySize≠0 →
    (∀ s∈(parseElf d).value.segments,
      s.offset + s.fileSize ≤ (parseElf d).value.overlayOffset) ∧
    (∀ rs∈(parseElf d).value.rawSections, rs.type≠8 →
      rs.off + rs.size ≤ (parseElf d).value.overlayOffset)

theorem staysInside_of_error {d:Bytes} {message:String}
    (h:readHeader d=pure (.error message)) : StaysInside d:=by
  have hparse : parseElf d=pure {error:=message}:=by
    rw [parseElf,h,pure_bind]
  refine ⟨by rw [hparse];rfl,by rw [hparse];rfl,?_,?_,?_⟩
  · intro va
    rw [hparse]
    exact ⟨rfl,fun off hoff=>by cases hoff⟩
  · intro va
    rw [hparse]
    exact ⟨rfl,fun r hr=>by cases hr⟩
  · intro hsize
    rw [hparse] at hsize
    exact absurd rfl hsize

theorem staysInside_of_fit {d:Bytes} {h:ElfHeader} (hd:d.length<2^63)
    (hheader:readHeader d=pure (.ok h)) (hb:HeaderBounds h) (hfit:FieldsFit h d) :
    StaysInside d:=by
  have hparse : parseElf d=scanFile h d:=by
    rw [parseElf,hheader,pure_bind]
  have hfits : (parseElf d).fits=true:=by
    rw [hparse]
    exact (scanFile_fits hb hd).mpr hfit
  obtain ⟨hsegments,hsections,hoffset,hsize⟩:=scanFile_value hb hd hfit
  rw [← hparse] at hsegments hsections hoffset hsize
  refine ⟨guarded_parseElf d hfits,hfits,?_,?_,?_⟩
  · intro va
    rw [hsegments,vaddrToFile_eq va hfit.segments]
    exact ⟨rfl,fun off hoff=>mapped_inSegment hoff⟩
  · intro va
    rw [hsegments]
    exact vaddrFileExtent_inSegment hfit.segments
  · intro hne
    rw [hsegments,hsections,hoffset]
    rw [hsize] at hne
    unfold overlay at hne ⊢
    split at hne
    · rename_i hbehind
      rw [if_pos hbehind]
      exact ⟨fun s hs=>segment_le_describedEnd hs,fun rs hrs=>section_le_describedEnd hrs⟩
    · exact absurd rfl hne

/-- The scan of a file stays inside it exactly when the fields of its headers fit. The length is
that of an object in memory. -/
theorem elf_scan_inside (d : Bytes) (hd : d.length<2^63) :
    StaysInside d ↔ ∀ h, (readHeader d).value=.ok h → FieldsFit h d := by
  obtain ⟨r,hr,hbounds⟩:=readHeader_eq d
  cases r with
  | error message=>
    refine ⟨?_,fun _=>staysInside_of_error hr⟩
    intro _ h hh
    rw [hr] at hh
    cases hh
  | ok h=>
    have hb:=hbounds h rfl
    constructor
    · intro hstays h' hh
      rw [hr] at hh
      cases hh
      have hfits:=hstays.fits
      rw [parseElf,hr,pure_bind] at hfits
      exact (scanFile_fits hb hd).mp hfits
    · intro hall
      exact staysInside_of_fit hd hr hb (hall h (by rw [hr];rfl))

def oneProgramHeader (phoff : Bytes) : Bytes :=
  0x7f :: bytes "ELF"++[2,1] ++ List.replicate 26 0 ++ phoff ++ List.replicate 14 0 ++
    [56,0,1,0] ++ List.replicate 6 0

def loadSegment : Bytes :=
  [1,0,0,0] ++ List.replicate 28 0 ++ [64] ++ List.replicate 7 0 ++ List.replicate 16 0

def oneSegment : Bytes := oneProgramHeader [64,0,0,0,0,0,0,0] ++ loadSegment

def oneSegmentHeader : ElfHeader where
  elf64 := true
  littleEndian := true
  phoff := 64
  phentsize := 56
  phnum := 1

theorem one_segment_inside : StaysInside oneSegment:=by
  have hheader : (readHeader oneSegment).value=.ok oneSegmentHeader:=by decide +kernel
  have hsections : sectionsIn oneSegmentHeader oneSegment=[]:=rfl
  have hload : ∀s∈segmentsIn oneSegmentHeader oneSegment,
      s.type=1 ∧ s.offset+s.fileSize<2^64:=by decide +kernel
  apply (elf_scan_inside oneSegment (by decide +kernel)).mpr
  intro h hh
  rw [hheader] at hh
  cases hh
  refine ⟨fun _=>by decide,fun s hs=>(hload s hs).2,fun _=>by decide,?_,?_,?_⟩
  · rw [hsections]
    simp
  · rw [hsections]
    simp
  · intro s hs htype
    rw [(hload s hs).1] at htype
    cases htype

/-- A program header at the last eight addresses: its end wraps, and four bytes before the file
are read. -/
theorem far_table_leaves :
    (parseElf (oneProgramHeader [0xf8,0xff,0xff,0xff,0xff,0xff,0xff,0xff])).inside=false ∧
      ¬StaysInside (oneProgramHeader [0xf8,0xff,0xff,0xff,0xff,0xff,0xff,0xff]):=by
  have houtside : (parseElf
      (oneProgramHeader [0xf8,0xff,0xff,0xff,0xff,0xff,0xff,0xff])).inside=false:=by
    decide +kernel
  refine ⟨houtside,?_⟩
  intro hstays
  rw [hstays.inside] at houtside
  cases houtside

end AutoRefirst.Elf
