import AutoRefirst.BytePatches
import AutoRefirst.Fallible
import AutoRefirst.PortableExecutable
import AutoRefirst.Sha256

/-!
# Repair of UPX metadata

An image packed by UPX keeps a header of 32 bytes right before its packed section. The
assessment looks for damage of that header's magic and of the name of the empty section
before the packed one, and proposes the bytes to write back.
-/

namespace AutoRefirst.Repair
open List

def kPe32MachineI386 : ℕ := 0x14c

def kImageScnMemExecute : ℕ := 0x20000000

def kPackHeaderSize : ℕ := 32

def kUpxFormatWin32Pe : ℕ := 9

def kUpxMagic : Bytes := bytes "UPX!"

def kUpx0 : Bytes := bytes "UPX0"

def kUpx1 : Bytes := bytes "UPX1"

structure RawPe where
  (lfanew nsec optSize opt sectionTable : ℕ)
  securityDirectory : ℕ := 0
  (fileAlignment sectionAlignment : ℕ)
  (certOffset certSize : ℕ := 0)
  certDirectoryAvailable : Bool := false

structure PackHeader where
  offset : ℕ
  magic : Bytes
  (version format method level uAdler cAdler uLen cLen uFileSize filter filterCto unused
    headerChecksum : ℕ)

def bytesEq (d : Bytes) (off : ℕ) (want : Bytes) : Bool := (d.drop off).take want.length == want

def adlerLoop : ℕ → Bytes → ℕ×ℕ → ℕ×ℕ
  | 0, _, s => s
  | n+1, d, s =>
    if d.isEmpty then s else
      let s := (d.take 5552).foldl (fun s x => (s.1+x.toNat,s.2+(s.1+x.toNat))) s
      adlerLoop n (d.drop 5552) (s.1 % 65521,s.2 % 65521)

def adler32 (d : Bytes) : ℕ :=
  let s := adlerLoop d.length d (1,0)
  (s.2 <<< 16) ||| s.1

def alignUp (v a : ℕ) : ℕ :=
  if a = 0 then v else if v % a ≠ 0 then v+(a - v % a) else v

def rawPe (d : Bytes) : Option RawPe := do
  guard (¬(d.length < 0x40 ∨ d.getD 0 0 ≠ byte 'M' ∨ d.getD 1 0 ≠ byte 'Z'))
  let lfanew ← rd 4 d 0x3c
  guard (lfanew+24 ≤ d.length ∧ bytesEq d lfanew peSignature)
  let nsec ← rd 2 d (lfanew+6)
  let optSize ← rd 2 d (lfanew+20)
  let opt := lfanew+24
  guard (opt+optSize ≤ d.length)
  let magic ← rd 2 d opt
  guard (magic = 0x10b)
  let sectionAlignment ← rd 4 d (opt+32)
  let fileAlignment ← rd 4 d (opt+36)
  let sectionTable := opt+optSize
  guard (sectionTable ≤ d.length ∧ nsec ≤ (d.length-sectionTable)/40)
  let r : RawPe := { lfanew, nsec, optSize, opt, sectionTable, fileAlignment, sectionAlignment }
  let dirs := (rd 4 d (opt+92)).getD 0
  let dd := opt+96
  if dirs > 4 ∧ dd ≤ opt+optSize ∧ 40 ≤ opt+optSize-dd then
    return { r with
      securityDirectory:=dd+32,certDirectoryAvailable:=true,certOffset:=(rd 4 d (dd+32)).getD 0
      certSize:=(rd 4 d (dd+36)).getD 0 }
  else
    return r

def packHeader (d : Bytes) (off : ℕ) : Option PackHeader :=
  if off+kPackHeaderSize > d.length then none
  else some
    { offset:=off,magic:=(d.drop off).take 4
      version:=(d.getD (off+4) 0).toNat,format:=(d.getD (off+5) 0).toNat
      method:=(d.getD (off+6) 0).toNat,level:=(d.getD (off+7) 0).toNat
      uAdler:=(rd 4 d (off+8)).getD 0,cAdler:=(rd 4 d (off+12)).getD 0
      uLen:=(rd 4 d (off+16)).getD 0,cLen:=(rd 4 d (off+20)).getD 0
      uFileSize:=(rd 4 d (off+24)).getD 0,filter:=(d.getD (off+28) 0).toNat
      filterCto:=(d.getD (off+29) 0).toNat,unused:=(d.getD (off+30) 0).toNat
      headerChecksum:=(d.getD (off+31) 0).toNat }

def recognizedMethod (m : ℕ) : Bool := m == 2 || m == 5 || m == 8 || m == 14

/-- The reason why some declared raw range is not in the file. -/
def strictRawGeometry (d : Bytes) (pe : PeInfo) : Option String :=
  if !pe.valid then some "base PE parse failed"
  else pe.sections.zipIdx.findSome? fun (s,i) =>
    if s.rawSize ≠ 0 ∧ s.rawOffset+s.rawSize > d.length then
      some ("section "++toString i++" declared raw range exceeds observed file bytes")
    else none

def PeSection.executable (s : PeSection) : Bool := s.characteristics &&& kImageScnMemExecute != 0

def rangeExecutable (pe : PeInfo) (off size : ℕ) : Bool :=
  if size = 0 then false
  else pe.sections.any fun s =>
    PeSection.executable s && s.rawSize != 0 && decide (off < s.rawOffset+s.rawSize) &&
      decide (s.rawOffset < off+size)

inductive RepairClass
  | metadataNormalization | layoutReconstruction | deterministicBytePatch
  | decompressUnpackHandoff | runtimeDerivedRepair
  deriving DecidableEq

inductive RepairState
  | proposed | bounded | validated | rejected | ambiguous
  deriving DecidableEq

inductive RepairValidationStage
  | internalStructure | formatPackerInvariant | exactReferenceChosenInputOracle | nativeBoundary
  | resultSemanticClosure
  deriving DecidableEq

inductive RepairValidationState
  | notRun | pass | fail
  deriving DecidableEq

inductive ModelEvidenceLevel
  | none | modelInternalRoundTrip | offlineModel | chosenInputOracle | exactKnownGoodReference
  | lowDisturbanceNativeBoundary | originalNativeResult
  deriving DecidableEq

/-- The order of the levels is their strength. -/
def ModelEvidenceLevel.rank : ModelEvidenceLevel → ℕ
  | .none => 0
  | .modelInternalRoundTrip => 1
  | .offlineModel => 2
  | .chosenInputOracle => 3
  | .exactKnownGoodReference => 4
  | .lowDisturbanceNativeBoundary => 5
  | .originalNativeResult => 6

structure RepairChangedRange where
  fileOffset : ℕ
  (beforeBytes afterBytes : Bytes)
  (beforeSha256 afterSha256 reason : String)
  (executableBytes embeddedSignatureOverlap : Bool)

structure RepairValidation where
  stage : RepairValidationStage
  state : RepairValidationState
  evidenceLevel : ModelEvidenceLevel
  detail : String

structure RepairLimits where
  (maxInputBytes maxOutputBytes : ℕ := 64*1024*1024)
  maxCandidateCount : ℕ := 4
  maxChangedRanges : ℕ := 8
  maxChangedBytes : ℕ := 64

structure RepairProposal where
  (inputPath inputSha256 : String)
  inputSize : ℕ
  repairClass : RepairClass
  state : RepairState := .proposed
  (semanticScope mechanism : String := "")
  changedRanges : List RepairChangedRange := []
  validations : List RepairValidation := []
  (evidence ambiguity : List String := [])
  evidenceCeiling : ModelEvidenceLevel := .none
  (proposedResultSha256 integritySemantics decisionReason : String := "")
  (staticReanalysisEligible automaticRuntimeExecutionEligible : Bool := false)

def validation (p : RepairProposal) (stage : RepairValidationStage)
    (state : RepairValidationState) (level : ModelEvidenceLevel) (detail : String) :
    RepairProposal :=
  { p with
    validations:=p.validations++[⟨stage,state,level,detail⟩]
    evidenceCeiling := if level.rank > p.evidenceCeiling.rank then level else p.evidenceCeiling }

def appendTerminalNotRun (p : RepairProposal) : RepairProposal :=
  let p := validation p .nativeBoundary .notRun .none
    "static repair producer never executes a candidate"
  validation p .resultSemanticClosure .notRun .none
    "no downstream decoded-image or behavior oracle is part of the product repair gate"

def base (input : String) (d : Bytes) (c : RepairClass) : RepairProposal :=
  {inputPath:=input,inputSize:=d.length,inputSha256:=sha256Bytes d,repairClass:=c}

def reject (p : RepairProposal) (why : String) : RepairProposal :=
  {p with state:=.rejected,decisionReason:=why,staticReanalysisEligible:=false}

def ambiguous (p : RepairProposal) (why : String) : RepairProposal :=
  { p with
    state:=.ambiguous,decisionReason:=why,ambiguity:=p.ambiguity++[why]
    staticReanalysisEligible:=false }

def changedRange (d : Bytes) (off : ℕ) (after : Bytes) (reason : String) (pe : PeInfo)
    (certOverlap : Bool) : RepairChangedRange :=
  let before := (d.drop off).take after.length
  { fileOffset:=off,beforeBytes:=before
    afterBytes:=after,beforeSha256:=sha256Bytes before,afterSha256:=sha256Bytes after,reason
    executableBytes:=rangeExecutable pe off after.length,embeddedSignatureOverlap:=certOverlap }

def addChange (p : RepairProposal) (d : Bytes) (off : ℕ) (after : Bytes) (reason : String)
    (pe : PeInfo) (certOverlap : Bool) : RepairProposal :=
  {p with changedRanges:=p.changedRanges++[changedRange d off after reason pe certOverlap]}

def addFieldDiff (p : RepairProposal) (d : Bytes) (off : ℕ) (target : Bytes) (reason : String)
    (pe : PeInfo) (certOverlap : Bool) : RepairProposal :=
  if off+target.length > d.length then p
  else
    let differ := List.zipWith (fun x y => x != y) (d.drop off) target
    (BytePatches.runs 0 0 differ).foldl (fun p r =>
      addChange p d (off+r.1) ((target.drop r.1).take r.2) reason pe certOverlap) p

def candidateBytes : List RepairChangedRange → Bytes → Option Bytes
  | [], out => some out
  | r::ranges, out =>
    if r.fileOffset+r.beforeBytes.length > out.length ∨
        r.beforeBytes.length ≠ r.afterBytes.length ∨
        (out.drop r.fileOffset).take r.beforeBytes.length ≠ r.beforeBytes then none
    else candidateBytes ranges (BytePatches.overwrite out r.fileOffset r.afterBytes)

/-- The section with the entry, and the names before it in the section table. -/
structure Handoff where
  packedIndex : ℕ
  (empty packed : PeSection)
  (sec0Off sec1Off : ℕ)

def Handoff.headerOff (g : Handoff) : ℕ := g.packed.rawOffset-kPackHeaderSize

def packedIndex (pe : PeInfo) : ℕ :=
  pe.sections.findIdx fun s =>
    decide (s.rva ≤ pe.entryRva ∧ pe.entryRva < s.rva + max s.vsize s.rawSize)

def handoffOf (pe : PeInfo) (rp : RawPe) : Handoff where
  packedIndex := packedIndex pe
  empty := pe.sections.getD (packedIndex pe - 1) {}
  packed := pe.sections.getD (packedIndex pe) {}
  sec0Off := rp.sectionTable+(packedIndex pe - 1)*40
  sec1Off := rp.sectionTable + packedIndex pe * 40

def pairGeometry (rp : RawPe) (g : Handoff) : Prop :=
  g.empty.rawSize = 0 ∧ g.empty.vsize ≥ 0x1000 ∧ PeSection.executable g.empty ∧
    g.packed.rawSize ≥ 0x400 ∧ g.packed.rawOffset ≥ kPackHeaderSize ∧
    PeSection.executable g.packed ∧
    alignUp (g.empty.rva+g.empty.vsize) rp.sectionAlignment=g.packed.rva

instance (rp : RawPe) (g : Handoff) : Decidable (pairGeometry rp g) :=
  inferInstanceAs (Decidable (_ ∧ _ ∧ _ ∧ _ ∧ _ ∧ _ ∧ _))

def entryDelta (pe : PeInfo) (g : Handoff) : ℕ :=
  if pe.entryRva ≥ g.packed.rva then pe.entryRva-g.packed.rva else 2^64-1

def structureFailed (p : RepairProposal) (detail why : String) : RepairProposal :=
  appendTerminalNotRun
    (reject (validation p .internalStructure .fail .modelInternalRoundTrip detail) why)

def closeStructure (d : Bytes) (pe : PeInfo) (limits : RepairLimits) (p : RepairProposal) :
    Except RepairProposal (Handoff×PackHeader×RepairProposal) :=
  if d.isEmpty ∨ d.length > limits.maxInputBytes ∨ d.length > limits.maxOutputBytes ∨
      limits.maxCandidateCount = 0 then
    .error (structureFailed p
      "input/output is empty or exceeds bounded repair budget, or candidate budget is zero"
      "INPUT_OUTPUT_OR_CANDIDATE_BUDGET")
  else match rawPe d with
  | none => .error (structureFailed p "not a structurally readable PE32 image"
      "V1_PE32_STRUCTURE_NOT_CLOSED")
  | some rp =>
    if !pe.valid ∨ pe.pe64 ∨ pe.machine ≠ kPe32MachineI386 ∨ pe.sections.length < 2 then
      .error (structureFailed p "" "V1_PE32_STRUCTURE_NOT_CLOSED")
    else match strictRawGeometry d pe with
    | some gw => .error (structureFailed p gw "V1_PE32_STRUCTURE_NOT_CLOSED")
    | none =>
      if rp.fileAlignment = 0 ∨ rp.sectionAlignment = 0 ∨
          rp.sectionAlignment < rp.fileAlignment then
        .error (structureFailed p "invalid PE file/section alignment" "V1_ALIGNMENT_INVALID")
      else if rp.certOffset ≠ 0 ∨ rp.certSize ≠ 0 then
        .error { structureFailed p
            ("embedded PE Attribute Certificate Table is declared; header repair would create " ++
              "content distinct from the signed parent and is not auto-materialized")
            "EMBEDDED_AUTHENTICODE_REPAIR_REFUSED" with
          integritySemantics := "REPAIR_REFUSED_SIGNED_PARENT; any header/section-name " ++
            "mutation changes signed-content identity" }
      else if pe.overlaySize ≠ 0 then
        .error (structureFailed p
          ("post-section overlay is present; first product gate refuses to normalize packer " ++
            "metadata across an unmodeled overlay")
          "OVERLAY_REQUIRES_STRONGER_VALIDATION")
      else
        let g := handoffOf pe rp
        if g.packedIndex = 0 ∨ g.packedIndex ≥ pe.sections.length then
          .error (structureFailed p
            ("declared entry is not in a section immediately following an unpack-to-empty " ++
              "candidate")
            "UPX_ENTRY_SECTION_GEOMETRY_ABSENT")
        else if ¬pairGeometry rp g ∨ entryDelta pe g ≥ g.packed.rawSize then
          .error (structureFailed p
            ("entry/empty-section/packed-section relation does not satisfy strict contiguous " ++
              "UPX PE geometry")
            "UPX_STRICT_PAIR_GEOMETRY_ABSENT")
        else match packHeader d g.headerOff with
        | none => .error (structureFailed p
            ("32-byte legacy PackHeader is not file-backed immediately before packed section " ++
              "data")
            "PACKHEADER_RANGE_ABSENT")
        | some h =>
          let p := validation p .internalStructure .pass .modelInternalRoundTrip
            ("all declared PE raw ranges are observed; entry is file-backed in a packed " ++
              "executable section immediately after a raw-empty executable section; bounded " ++
              "32-byte PackHeader location is file-backed")
          if g.sec0Off+8 > d.length ∨ g.sec1Off+8 > d.length then
            .error (reject p "SECTION_NAME_RANGE_NOT_FILE_BACKED")
          else .ok (g,h,p)

def sectionNamed (d : Bytes) (off : ℕ) (want : Bytes) : Bool :=
  bytesEq d off want && ((d.drop (off+4)).take 4).all fun x => x == 0

def headerChecksumOk (d : Bytes) (h : PackHeader) : Bool :=
  let csumBytes := (d.drop (h.offset+4)).take 31
  (csumBytes.take 27).foldl (fun sum x => sum+x.toNat) 0 % 251 == h.headerChecksum

def headerFieldsOk (h : PackHeader) (packed : PeSection) (size : ℕ) : Prop :=
  h.version > 9 ∧ h.version≤32 ∧ h.format=kUpxFormatWin32Pe ∧ recognizedMethod h.method ∧
    h.level ≥ 1 ∧ h.level≤10 ∧ h.uLen > 0 ∧ h.uFileSize > 0 ∧ h.uLen≤512*1024*1024 ∧
    h.uFileSize ≤ 512*1024*1024 ∧ h.cLen ≥ 2 ∧ h.cLen≤packed.rawSize ∧
    packed.rawOffset + h.cLen ≤ size

instance (h : PackHeader) (packed : PeSection) (size : ℕ) :
    Decidable (headerFieldsOk h packed size) :=
  inferInstanceAs (Decidable (_ ∧ _ ∧ _ ∧ _ ∧ _ ∧ _ ∧ _ ∧ _ ∧ _ ∧ _ ∧ _ ∧ _ ∧ _))

/-- The checksum of the packed data. A range past the end of the file is undefined in the
source; here it is what is left of the file. -/
def payloadChecksumOk (d : Bytes) (h : PackHeader) (packed : PeSection) : Bool :=
  adler32 ((d.drop packed.rawOffset).take h.cLen) == h.cAdler

def bindPackHeader (d : Bytes) (g : Handoff) (h : PackHeader) (p : RepairProposal) :
    Except RepairProposal RepairProposal :=
  let hdrChecksum := headerChecksumOk d h
  let hdrFields := decide (headerFieldsOk h g.packed d.length)
  let payloadChecksum := hdrFields && payloadChecksumOk d h g.packed
  if !hdrChecksum ∨ !hdrFields ∨ !payloadChecksum then
    let detail := "legacy UPX PackHeader invariant failed:" ++
      (if !hdrFields then " field-domain/bounds" else "") ++
      (if !hdrChecksum then " header-checksum" else "") ++
      (if !payloadChecksum then " compressed-payload-Adler" else "")
    .error (appendTerminalNotRun (reject
      (validation p .formatPackerInvariant .fail .offlineModel detail)
      "V2_PACKHEADER_OR_PAYLOAD_BINDING_FAILED"))
  else
    let p := { p with evidence:=p.evidence ++
      ["legacy 32-byte UPX PackHeader checksum closes independently of its 4-byte magic",
       "PackHeader compressed-length and Adler32 bind the declared packed payload to the " ++
         "observed packed-section bytes",
       "entry is file-backed in the packed executable section immediately after a contiguous " ++
         "raw-empty executable section"] }
    .ok (validation p .formatPackerInvariant .pass .offlineModel
      ("legacy UPX Win32/PE format/method/level domains, PackHeader checksum, packed payload " ++
        "bounds, compressed Adler32, and section/entry geometry all close"))

def prefixByte (c : UInt8) : Bool :=
  (c ≥ byte 'A' && c ≤ byte 'Z') || (c ≥ byte 'a' && c ≤ byte 'z') ||
    (c ≥ byte '0' && c ≤ byte '9') || c == byte '_'

def roleShape (d : Bytes) (off : ℕ) (digit : UInt8) : Bool :=
  prefixByte (d.getD off 0) && prefixByte (d.getD (off+1) 0) &&
    prefixByte (d.getD (off+2) 0) && d.getD (off+3) 0 == digit &&
    ((d.drop (off+4)).take 4).all fun x => x == 0

def sec0RoleShape (d : Bytes) (g : Handoff) : Bool :=
  !sectionNamed d g.sec0Off kUpx0 && roleShape d g.sec0Off (byte '0')

def systematicPair (d : Bytes) (g : Handoff) : Bool :=
  sec0RoleShape d g && !sectionNamed d g.sec1Off kUpx1 && roleShape d g.sec1Off (byte '1') &&
    (d.drop g.sec0Off).take 3 == (d.drop g.sec1Off).take 3

def sec0Repairable (d : Bytes) (g : Handoff) : Bool :=
  sec0RoleShape d g && (sectionNamed d g.sec1Off kUpx1 || systematicPair d g)

def magicReason : String :=
  "normalize only bytes that differ from the exact 4-byte UPX PackHeader magic; " ++
    "checksum-covered fields, compressed bytes, and PE geometry already validate"

def nameReason : String :=
  "normalize only bytes that differ in the raw-empty UPX0 role name; the sibling " ++
    "role-name relation and packer header/payload independently validate this role"

def proposeChanges (d : Bytes) (pe : PeInfo) (g : Handoff) (h : PackHeader)
    (p : RepairProposal) : RepairProposal :=
  let magicOk := h.magic == kUpxMagic
  let sec0Ok := sectionNamed d g.sec0Off kUpx0
  let p := if !magicOk && (sec0Ok || sec0Repairable d g) then
      addFieldDiff p d h.offset kUpxMagic magicReason pe false
    else p
  if !sec0Ok && sec0Repairable d g then
    addFieldDiff p d g.sec0Off kUpx0 nameReason pe false
  else p

/-- The name of the repair, unless the damage is not one that is repaired. -/
def mechanismOf (d : Bytes) (g : Handoff) (h : PackHeader) : Option String :=
  let magicOk := h.magic == kUpxMagic
  let sec0Ok := sectionNamed d g.sec0Off kUpx0
  if !magicOk && sec0Repairable d g then some "upx_combined_minimal_handoff_normalization"
  else if !magicOk && sec0Ok then some "upx_packheader_magic_normalization"
  else if magicOk && sec0Repairable d g then some "upx_empty_section_role_normalization"
  else none

def boundChanges (d : Bytes) (pe : PeInfo) (limits : RepairLimits) (g : Handoff)
    (h : PackHeader) (p : RepairProposal) : Except RepairProposal RepairProposal :=
  if h.magic == kUpxMagic && sectionNamed d g.sec0Off kUpx0 then
    .error (appendTerminalNotRun
      { reject p (if sectionNamed d g.sec1Off kUpx1 then "NO_REPAIR_NEEDED_STANDARD_UPX"
          else "NO_REPAIR_NEEDED_UPX_HANDOFF_SURFACE") with
        integritySemantics :=
          "ORIGINAL_UNCHANGED; required UPX handoff surface is already canonical" })
  else
    let p := proposeChanges d pe g h p
    match mechanismOf d g h with
    | none => .error (appendTerminalNotRun (ambiguous p
        ("packer invariants close but the noncanonical surface is not one bounded supported " ++
          "mutation family (PackHeader magic and/or evidenced raw-empty UPX0 role)")))
    | some mechanism =>
      let p := {p with mechanism}
      let changed := (p.changedRanges.map fun r => r.afterBytes.length).sum
      if p.changedRanges.any fun r => r.executableBytes || r.embeddedSignatureOverlap then
        .error (appendTerminalNotRun
          (reject p "R1_RANGE_TOUCHES_EXECUTABLE_OR_CERTIFICATE_BYTES"))
      else if p.changedRanges.isEmpty ∨ p.changedRanges.length > limits.maxChangedRanges ∨
          changed > limits.maxChangedBytes then
        .error (appendTerminalNotRun (reject p "REPAIR_RANGE_BUDGET_EXCEEDED"))
      else .ok { p with
        state:=.bounded,decisionReason := "EXACT_NONEXECUTABLE_RANGES_BOUNDED" }

/-- The checks that are made again on the repaired bytes. -/
def canonical (cand : Bytes) (g : Handoff) : Bool :=
  match packHeader cand g.headerOff with
  | none => false
  | some ch => ch.magic == kUpxMagic && bytesEq cand g.sec0Off kUpx0 &&
      payloadChecksumOk cand ch g.packed

def revalidate (d : Bytes) (g : Handoff) (p : RepairProposal) :
    Except RepairProposal RepairProposal :=
  match candidateBytes p.changedRanges d with
  | none => .error (appendTerminalNotRun (reject p "CANDIDATE_CONSTRUCTION_FAILED"))
  | some cand =>
    let cpe := parsePe cand
    if !cpe.valid ∨ (strictRawGeometry cand cpe).isSome then
      .error (appendTerminalNotRun (reject
        (validation p .exactReferenceChosenInputOracle .fail .exactKnownGoodReference
          "canonicalized candidate does not preserve strict PE structure")
        "V3_CANONICAL_CANDIDATE_STRUCTURE_FAILED"))
    else if !canonical cand g then
      .error (appendTerminalNotRun (reject
        (validation p .exactReferenceChosenInputOracle .fail .exactKnownGoodReference
          ("candidate failed the minimal canonical official UPX handoff surface (UPX! " ++
            "PackHeader magic + raw-empty UPX0 role) or payload-binding revalidation"))
        "V3_CANONICAL_UPX_REFERENCE_FAILED"))
    else
      let p := { p with
        proposedResultSha256:=sha256Bytes cand,state:=.validated
        decisionReason := "STRICT_UPX_METADATA_NORMALIZATION_VALIDATED"
        staticReanalysisEligible:=true }
      .ok (appendTerminalNotRun
        (validation p .exactReferenceChosenInputOracle .pass .exactKnownGoodReference
          ("candidate is canonical at the minimal official UPX handoff surface (UPX! " ++
            "PackHeader magic and raw-empty UPX0 role); all other bytes, including a " ++
            "nonessential renamed packed-section label, remain parent-derived; strict " ++
            "PackHeader/payload/PE invariants revalidate after the exact edit")))

/-- The stages in order; a proposal that stops early is an error. -/
def assessStages (d : Bytes) (pe : PeInfo) (limits : RepairLimits) (p : RepairProposal) :
    Except RepairProposal RepairProposal := do
  let (g,h,p) ← closeStructure d pe limits p
  let p ← bindPackHeader d g h p
  let p ← boundChanges d pe limits g h p
  revalidate d g p

def assessUpxMetadataRepair (input : String) (d : Bytes) (pe : PeInfo) (limits : RepairLimits) :
    RepairProposal :=
  let p := { base input d .metadataNormalization with
    semanticScope := "UPX Win32 PE packer-surface metadata"
    mechanism := "strict_upx_pe32_packheader_normalization"
    integritySemantics := "DERIVED_ARTIFACT; repaired bytes have a distinct SHA256 and never " ++
      "inherit pristine-signature semantics from the parent" }
  match assessStages d pe limits p with
  | .ok p => p
  | .error p => p

/-!
## Stages of the assessment

What each stage has checked when it succeeds, and that a stage that stops leaves a proposal
that is not validated.
-/

variable {d : Bytes} {pe : PeInfo} {limits : RepairLimits} {p q : RepairProposal}
  {g : Handoff} {h : PackHeader}

@[simp] theorem validation_state (stage:RepairValidationStage) (state:RepairValidationState)
    (level:ModelEvidenceLevel) (detail:String) :
    (validation p stage state level detail).state=p.state:=rfl

@[simp] theorem validation_changedRanges (stage:RepairValidationStage)
    (state:RepairValidationState) (level:ModelEvidenceLevel) (detail:String) :
    (validation p stage state level detail).changedRanges=p.changedRanges:=rfl

@[simp] theorem appendTerminalNotRun_state : (appendTerminalNotRun p).state=p.state:=rfl

@[simp] theorem appendTerminalNotRun_changedRanges :
    (appendTerminalNotRun p).changedRanges=p.changedRanges:=rfl

@[simp] theorem structureFailed_state (detail why:String) :
    (structureFailed p detail why).state=.rejected:=rfl

@[simp] theorem reject_state (why:String) : (reject p why).state=.rejected:=rfl

@[simp] theorem ambiguous_state (why:String) : (ambiguous p why).state=.ambiguous:=rfl

theorem closeStructure_stops (hrun:closeStructure d pe limits p=.error q) :
    q.state≠.validated:=by
  have hstate : q.state=.rejected:=by
    unfold closeStructure at hrun
    split at hrun
    · cases hrun;rfl
    split at hrun
    · cases hrun;rfl
    split at hrun
    · cases hrun;rfl
    split at hrun
    · cases hrun;rfl
    split at hrun
    · cases hrun;rfl
    split at hrun
    · cases hrun;rfl
    split at hrun
    · cases hrun;rfl
    simp only at hrun
    split at hrun
    · cases hrun;rfl
    split at hrun
    · cases hrun;rfl
    split at hrun
    · cases hrun;rfl
    split at hrun
    · cases hrun;rfl
    · cases hrun
  rw [hstate]
  decide

theorem bindPackHeader_stops (hrun:bindPackHeader d g h p=.error q) : q.state≠.validated:=by
  simp only [bindPackHeader] at hrun
  split at hrun
  · cases hrun
    simp
  · cases hrun

theorem boundChanges_stops (hrun:boundChanges d pe limits g h p=.error q) :
    q.state≠.validated:=by
  simp only [boundChanges] at hrun
  split at hrun
  · cases hrun
    simp
  split at hrun
  · cases hrun
    simp
  split at hrun
  · cases hrun
    simp
  split at hrun
  · cases hrun
    simp
  · cases hrun

theorem revalidate_stops (hrun:revalidate d g p=.error q) : q.state≠.validated:=by
  simp only [revalidate] at hrun
  split at hrun
  · cases hrun
    simp
  split at hrun
  · cases hrun
    simp
  split at hrun
  · cases hrun
    simp
  · cases hrun

/-- What the structure stage has found. -/
structure Closed (d : Bytes) (pe : PeInfo) (g : Handoff) (h : PackHeader) : Prop where
  found : ∃ rp, rawPe d = some rp ∧ g = handoffOf pe rp
  member : g.packed∈pe.sections
  executable : PeSection.executable g.packed = true
  rawSize : 0x400≤g.packed.rawSize
  rawOffset : 32≤g.packed.rawOffset
  observed : g.packed.rawOffset+g.packed.rawSize≤d.length
  header : packHeader d g.headerOff = some h
  name : g.sec0Off+8≤d.length

theorem strictRawGeometry_none (hrun:strictRawGeometry d pe=none) :
    ∀s∈pe.sections,s.rawSize≠0 → s.rawOffset+s.rawSize≤d.length:=by
  intro s hs hsize
  unfold strictRawGeometry at hrun
  split at hrun
  · cases hrun
  · obtain ⟨i,hi⟩:=mem_iff_getElem?.mp hs
    have hmem : (s,i)∈pe.sections.zipIdx:=mem_zipIdx_iff_getElem?.mpr hi
    have hnone:=findSome?_eq_none_iff.mp hrun (s,i) hmem
    simp only at hnone
    split at hnone
    · cases hnone
    · omega

theorem closeStructure_ok (hrun:closeStructure d pe limits p=.ok (g,h,q)) :
    Closed d pe g h ∧ q.changedRanges=p.changedRanges:=by
  unfold closeStructure at hrun
  split at hrun
  · cases hrun
  split at hrun
  · cases hrun
  rename_i rp hrp
  split at hrun
  · cases hrun
  split at hrun
  · cases hrun
  rename_i hgeometry
  split at hrun
  · cases hrun
  split at hrun
  · cases hrun
  split at hrun
  · cases hrun
  simp only at hrun
  split at hrun
  · cases hrun
  rename_i hindex
  split at hrun
  · cases hrun
  rename_i hpair
  split at hrun
  · cases hrun
  rename_i header hheader
  split at hrun
  · cases hrun
  rename_i hnames
  cases hrun
  obtain ⟨-,-,-,hsize,hoffset,hexec,-⟩ : pairGeometry rp (handoffOf pe rp):=by
    by_contra hnot
    exact hpair (Or.inl hnot)
  have hlt : packedIndex pe<pe.sections.length:=by
    by_contra hge
    exact hindex (Or.inr (Nat.le_of_not_lt hge))
  have hmem : (handoffOf pe rp).packed∈pe.sections:=by
    simp only [handoffOf,getD_eq_getElem?_getD,getElem?_eq_getElem hlt, Option.getD_some]
    exact getElem_mem hlt
  refine ⟨⟨⟨rp,hrp,rfl⟩,hmem,hexec,hsize,hoffset,?_,hheader,?_⟩,rfl⟩
  · exact strictRawGeometry_none hgeometry _ hmem (by omega)
  · omega

theorem bindPackHeader_ok (hrun:bindPackHeader d g h p=.ok q) :
    headerChecksumOk d h=true ∧ headerFieldsOk h g.packed d.length ∧
      payloadChecksumOk d h g.packed=true ∧ q.changedRanges=p.changedRanges:=by
  simp only [bindPackHeader] at hrun
  split at hrun
  · cases hrun
  · rename_i hchecks
    cases hrun
    simp only [Bool.not_eq_true',decide_eq_false_iff_not,Bool.and_eq_false_iff,not_or,
      Bool.not_eq_false,not_not] at hchecks
    exact ⟨hchecks.1,hchecks.2.1,hchecks.2.2.2,rfl⟩

theorem boundChanges_ok (hrun:boundChanges d pe limits g h p=.ok q) :
    (mechanismOf d g h).isSome=true ∧ q.changedRanges=(proposeChanges d pe g h p).changedRanges ∧
      ∀r∈q.changedRanges,r.executableBytes=false:=by
  simp only [boundChanges] at hrun
  split at hrun
  · cases hrun
  split at hrun
  · cases hrun
  rename_i mechanism hmechanism
  split at hrun
  · cases hrun
  rename_i hclean
  split at hrun
  · cases hrun
  cases hrun
  refine ⟨by rw [hmechanism];rfl,rfl,?_⟩
  intro r hr
  by_contra hexec
  exact hclean (List.any_eq_true.mpr ⟨r,hr,by simp_all⟩)

theorem revalidate_ok (hrun:revalidate d g p=.ok q) :
    ∃cand,candidateBytes p.changedRanges d=some cand ∧ canonical cand g=true ∧
      q.changedRanges=p.changedRanges:=by
  simp only [revalidate] at hrun
  split at hrun
  · cases hrun
  rename_i cand hcand
  split at hrun
  · cases hrun
  split at hrun
  · cases hrun
  rename_i hcanonical
  cases hrun
  exact ⟨cand,hcand,by simpa using hcanonical,rfl⟩

/-- All that was checked before a proposal is validated. -/
structure Accepted (d : Bytes) (pe : PeInfo) (ranges : List RepairChangedRange) (g : Handoff)
    (h : PackHeader) (cand : Bytes) : Prop where
  closed : Closed d pe g h
  checksum : headerChecksumOk d h = true
  fields : headerFieldsOk h g.packed d.length
  payload : payloadChecksumOk d h g.packed = true
  mechanism : (mechanismOf d g h).isSome=true
  proposed : ∃ p, p.changedRanges=[] ∧ ranges=(proposeChanges d pe g h p).changedRanges
  clean : ∀ r∈ranges, r.executableBytes=false
  candidate : candidateBytes ranges d = some cand
  canonical : canonical cand g = true

theorem assess_validated {input:String}
    (hstate:(assessUpxMetadataRepair input d pe limits).state=.validated) :
    ∃g h cand,Accepted d pe (assessUpxMetadataRepair input d pe limits).changedRanges
      g h cand:=by
  generalize hp : assessUpxMetadataRepair input d pe limits = r at hstate ⊢
  simp only [assessUpxMetadataRepair,assessStages] at hp
  generalize hp0 : ({ base input d .metadataNormalization with
    semanticScope := "UPX Win32 PE packer-surface metadata"
    mechanism := "strict_upx_pe32_packheader_normalization"
    integritySemantics := "DERIVED_ARTIFACT; repaired bytes have a distinct SHA256 and never " ++
      "inherit pristine-signature semantics from the parent" } : RepairProposal) = p0 at hp
  have hranges : p0.changedRanges=[]:=by
    rw [← hp0]
    rfl
  cases hclose : closeStructure d pe limits p0 with
  | error e=>
    rw [hclose] at hp
    cases hp
    exact absurd hstate (closeStructure_stops hclose)
  | ok t=>
    obtain ⟨g,h,p1⟩:=t
    rw [hclose] at hp
    cases hbind : bindPackHeader d g h p1 with
    | error e=>
      simp only [bind,Except.bind,hbind] at hp
      exact absurd (hp▸hstate) (bindPackHeader_stops hbind)
    | ok p2=>
      cases hbound : boundChanges d pe limits g h p2 with
      | error e=>
        simp only [bind,Except.bind,hbind,hbound] at hp
        exact absurd (hp▸hstate) (boundChanges_stops hbound)
      | ok p3=>
        cases hcheck : revalidate d g p3 with
        | error e=>
          simp only [bind,Except.bind,hbind,hbound,hcheck] at hp
          exact absurd (hp▸hstate) (revalidate_stops hcheck)
        | ok p4=>
          simp only [bind,Except.bind,hbind,hbound,hcheck] at hp
          obtain ⟨hclosed,h1⟩:=closeStructure_ok hclose
          obtain ⟨hsum,hfields,hpayload,h2⟩:=bindPackHeader_ok hbind
          obtain ⟨hmechanism,h3,hclean⟩:=boundChanges_ok hbound
          obtain ⟨cand,hcand,hcanonical,h4⟩:=revalidate_ok hcheck
          rw [← hp]
          exact ⟨g,h,cand,hclosed,hsum,hfields,hpayload,hmechanism,
            ⟨p2,by rw [h2,h1,hranges],by rw [h4,h3]⟩,by rw [h4];exact hclean,
            by rw [h4];exact hcand,hcanonical⟩

end AutoRefirst.Repair
