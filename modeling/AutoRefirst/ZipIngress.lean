import AutoRefirst.FileTree
import AutoRefirst.PortableExecutable

/-!
# The inventory of a ZIP container

The library that reads the central directory, the digest and the floating-point comparison of
the expansion ratio are parameters; names, geometry and marks are the source's.
-/

namespace AutoRefirst.Zip

def localHeaderSig : ℕ := 0x04034b50
def centralHeaderSig : ℕ := 0x02014b50
def eocdSig : ℕ := 0x06054b50
def dataDescriptorSig : ℕ := 0x08074b50
def zipFlagEncrypted : ℕ := 0x0001
def zipFlagDataDescriptor : ℕ := 0x0008
def zipFlagStrongEncryption : ℕ := 0x0040

def spanInBounds (b : Bytes) (off len : ℕ) : Bool := off+len ≤ b.length

def le (width : ℕ) (b : Bytes) (off : ℕ) : ℕ :=
  if spanInBounds b off width then littleEndian ((b.drop off).take width) else 0

def le16 : Bytes → ℕ → ℕ := le 2
def le32 : Bytes → ℕ → ℕ := le 4
def le64 (b : Bytes) (off : ℕ) : ℕ := le32 b off + 2^32 * le32 b (off+4)

/-- The ratio of the sizes of a member, as it is compared. -/
inductive ExpansionRatio
  | one | infinite
  | quotient (uncompressed compressed : ℕ)

structure ContainerIngressLimits where
  maxInputBytes : ℕ := 512*1024*1024
  (maxMembers maxPathBytes : ℕ := 4096)
  maxMemberUncompressedBytes : ℕ := 128*1024*1024
  maxTotalDeclaredUncompressedBytes : ℕ := 2*1024*1024*1024
  maxTotalMaterializedBytes : UInt64 := 256*1024*1024
  maxRecursiveDepth : ℕ := 4
  /-- The ratio is above `max_expansion_ratio`. -/
  aboveRatio : ExpansionRatio → Bool

structure ContainerMemberIdentity where
  index : ℕ := 0
  (name normalizedPath : Bytes := [])
  (state failureReason : String := "")
  compressedSha256 : Bytes := []
  (compressedSize uncompressedSize localHeaderOffset dataOffset centralDirectoryOffset crc32 method
    flags : ℕ := 0)
  (directory symlink specialFile encrypted supportedMethod safePath portablePath duplicatePath
    caseCollision dataDescriptor safeToMaterialize : Bool := false)

structure ContainerIngressInfo where
  kind : String := "unknown"
  state : String := "ABSENT"
  parentSha256 : Bytes := []
  failureReason : String := ""
  (recognized structurallyValid policyGated credentialRequired : Bool := false)
  (archiveBaseOffset centralDirectoryOffset memberCount regularFileCount encryptedFileCount
    safeMaterializationCount totalCompressedBytes totalDeclaredUncompressedBytes : ℕ := 0)
  limits : ContainerIngressLimits
  members : List ContainerMemberIdentity := []

/-- What the library reports of an entry; `headersValid` is its own check of the headers. -/
structure ArchiveFileStat where
  (centralDirOfs localHeaderOfs compSize uncompSize crc32 method bitFlag versionMadeBy externalAttr
    : ℕ)
  (isDirectory isEncrypted isSupported headersValid : Bool)

/-- The reader of the library, over the bytes of an archive. `τ` is a running decompression. -/
structure ZipReader (τ : Type) where
  initMem : Bytes → Bool
  lastError : Bytes → String
  centralDirectoryFileOfs : Bytes → ℕ
  fileStats : Bytes → List (Option ArchiveFileStat)
  extractIterNew : Bytes → ℕ → Option τ
  /-- The bytes handed over when so many are wanted. -/
  extractIterRead : τ → ℕ → Bytes×τ
  /-- True when the size and the checksum agreed. -/
  extractIterFree : τ → Bool

def windowsReservedComponent (component : Bytes) : Bool :=
  let base := (lower component).takeWhile (· ≠ byte '.')
  base ∈ ["con","prn","aux","nul","conin$","conout$"].map bytes ||
    (base.length == 4 && ((bytes "com").isPrefixOf base || (bytes "lpt").isPrefixOf base) &&
      byte '1' ≤ base.getD 3 0 && base.getD 3 0 ≤ byte '9')

def refusedPart (part : Bytes) : Bool :=
  part.isEmpty || part == bytes "." || part == bytes ".." || part.getLast? == some (byte '.') ||
    part.getLast? == some (byte ' ') || windowsReservedComponent part

def joinSlash (parts : List Bytes) : Bytes := [byte '/'].intercalate parts

/-- The components of a relative path in generic form. -/
def pathComponents (p : Bytes) : List Bytes := p.splitOnP (· == byte '/')

def dropTrailingSlashes (p : Bytes) : Bytes :=
  (p.reverse.dropWhile (· == byte '/')).reverse

structure RelativeName where
  safe : Bool := false
  normalized : Bytes := []
  portableAscii : Bool := true

def refusedByte (c : UInt8) : Bool := c < 0x20 || c == 0x7f || c == byte ':'

def safeRelativeName (raw : Bytes) (directory : Bool) (maxBytes : ℕ) : RelativeName :=
  if raw.isEmpty || raw.length > maxBytes || raw.head? == some (byte '/') ||
      raw.head? == some (byte '\\') then
    {safe:=false}
  else if raw.any refusedByte then
    {safe:=false,portableAscii:=(raw.takeWhile (!refusedByte ·)).all (· < 0x80)}
  else
    let portable := raw.all (· < 0x80)
    let slashed := raw.map fun c => if c == byte '\\' then byte '/' else c
    let tmp := if directory then dropTrailingSlashes slashed else slashed
    if tmp.isEmpty then {safe:=directory,portableAscii:=portable}
    else
      let parts := pathComponents tmp
      { safe:=parts.all (!refusedPart ·),normalized:=joinSlash (parts.takeWhile (!refusedPart ·))
        portableAscii:=portable }

def descriptorMatches (data : Bytes) (off crc comp uncomp : ℕ) : Bool :=
  [false,true].any fun signature =>
    let p := if signature then off+4 else off
    (!signature || (spanInBounds data off 4 && le32 data off == dataDescriptorSig)) &&
      spanInBounds data p 12 && le32 data p == crc &&
      ((le32 data (p+4) == comp && le32 data (p+8) == uncomp) ||
        (spanInBounds data p 20 && le64 data (p+4) == comp && le64 data (p+12) == uncomp))

/-- The part of the loop's body that turns an entry into a member. -/
def inspectEntry (sha256 : Bytes→Bytes) (limits : ContainerIngressLimits) (data : Bytes)
    (base directoryOfs directoryOffset i : ℕ) (st : ArchiveFileStat) :
    Except String ContainerMemberIdentity :=
  let at' := s!" at index {i}"
  let centralOff := base+directoryOfs+st.centralDirOfs
  if !spanInBounds data centralOff 46 || le32 data centralOff ≠ centralHeaderSig then
    .error ("invalid ZIP central-directory entry geometry"++at')
  else
  let centralNameLen := le16 data (centralOff+28)
  if centralOff+46+(centralNameLen + le16 data (centralOff+30) +
      le16 data (centralOff+32)) > data.length then
    .error ("truncated ZIP central-directory variable fields"++at')
  else
  let rawName := (data.drop (centralOff+46)).take centralNameLen
  let localOff := base+st.localHeaderOfs
  if !spanInBounds data localOff 30 || le32 data localOff ≠ localHeaderSig then
    .error ("invalid ZIP local-header geometry"++at')
  else
  let localNameLen := le16 data (localOff+26)
  let dataOff := localOff+30+(localNameLen + le16 data (localOff+28))
  if dataOff > data.length then
    .error ("truncated ZIP local-header fields"++at')
  else if localNameLen ≠ centralNameLen || !spanInBounds data (localOff+30) localNameLen ||
      rawName ≠ (data.drop (localOff+30)).take localNameLen then
    .error ("ZIP local/central filename mismatch"++at')
  else if !spanInBounds data dataOff st.compSize || dataOff+st.compSize > directoryOffset then
    .error ("ZIP compressed payload geometry exceeds member-data region"++at')
  else if le16 data (localOff+6) ≠ st.bitFlag then
    .error ("ZIP local/central flags mismatch"++at')
  else if le16 data (localOff+8) ≠ st.method then
    .error ("ZIP local/central compression-method mismatch"++at')
  else
  let hasDescriptor := st.bitFlag &&& zipFlagDataDescriptor ≠ 0
  let localComp := le32 data (localOff+18)
  let localUncomp := le32 data (localOff+22)
  if !hasDescriptor && (le32 data (localOff+14) ≠ st.crc32 ||
      (localComp ≠ 0xffffffff && localComp ≠ st.compSize) ||
      (localUncomp ≠ 0xffffffff && localUncomp ≠ st.uncompSize)) then
    .error ("ZIP local/central CRC or size mismatch"++at')
  else if hasDescriptor &&
      !descriptorMatches data (dataOff+st.compSize) st.crc32 st.compSize st.uncompSize then
    .error ("ZIP data descriptor does not match central-directory CRC/sizes"++at')
  else if !st.isEncrypted && st.isSupported && !st.isDirectory && !st.headersValid then
    .error ("ZIP library header validation failed"++at')
  else
  let creator := st.versionMadeBy/256 % 256
  let unixType := (st.externalAttr/65536 % 65536) &&& 0xf000
  let unixMade : Bool := creator == 3 || creator == 19
  let relative := safeRelativeName rawName st.isDirectory limits.maxPathBytes
  .ok
    { index:=i,name:=rawName,normalizedPath:=relative.normalized
      compressedSha256:=sha256 ((data.drop dataOff).take st.compSize),compressedSize:=st.compSize
      uncompressedSize:=st.uncompSize,localHeaderOffset:=localOff,dataOffset:=dataOff
      centralDirectoryOffset:=centralOff,crc32:=st.crc32,method:=st.method,flags:=st.bitFlag
      directory:=st.isDirectory,symlink:=unixMade && unixType == 0xa000
      specialFile:=unixMade && unixType != 0 && unixType != 0x8000 && unixType != 0x4000 &&
        unixType != 0xa000
      encrypted:=st.isEncrypted ||
        st.bitFlag &&& (zipFlagEncrypted ||| zipFlagStrongEncryption) != 0
      supportedMethod:=st.isSupported,safePath:=relative.safe,portablePath:=relative.portableAscii
      dataDescriptor:=hasDescriptor }

structure Inventory where
  members : List ContainerMemberIdentity := []
  /-- Where a normalized path was seen first. -/
  exactSeen : List (Bytes×ℕ) := []
  /-- Where a path of this case fold was seen first. -/
  caseSeen : List (Bytes×ℕ) := []
  (regularFileCount encryptedFileCount totalCompressedBytes totalDeclaredUncompressedBytes : ℕ := 0)

def setDuplicate (e : ContainerMemberIdentity) : ContainerMemberIdentity :=
  {e with duplicatePath:=true}

def setCollision (e : ContainerMemberIdentity) : ContainerMemberIdentity :=
  {e with caseCollision:=true}

def seeExact (inv : Inventory) (e : ContainerMemberIdentity) : Inventory×ContainerMemberIdentity :=
  match inv.exactSeen.lookup e.normalizedPath with
  | some k => ({inv with members:=inv.members.modify k setDuplicate},setDuplicate e)
  | none =>
    ({inv with exactSeen:=inv.exactSeen++[(e.normalizedPath,inv.members.length)]},e)

def seeFolded (inv : Inventory) (e : ContainerMemberIdentity) : Inventory×ContainerMemberIdentity :=
  match inv.caseSeen.lookup (lower e.normalizedPath) with
  | some k =>
    if inv.members[k]?.map (·.normalizedPath) ≠ some e.normalizedPath then
      ({inv with members:=inv.members.modify k setCollision},setCollision e)
    else (inv,e)
  | none =>
    ({inv with caseSeen:=inv.caseSeen++[(lower e.normalizedPath,inv.members.length)]},e)

/-- The path of a member, when it takes part in the marks. -/
def markedPath (e : ContainerMemberIdentity) : Option Bytes :=
  if e.safePath && !e.normalizedPath.isEmpty then some e.normalizedPath else none

def seeMember (inv : Inventory) (e : ContainerMemberIdentity) : Inventory×ContainerMemberIdentity :=
  if (markedPath e).isSome then
    let r := seeExact inv e
    seeFolded r.1 r.2
  else (inv,e)

def maxU64 : ℕ := 2^64-1

def addMember (inv : Inventory) (e : ContainerMemberIdentity) : Except String Inventory :=
  let r := seeMember inv e
  if inv.totalCompressedBytes > maxU64-e.compressedSize ||
      inv.totalDeclaredUncompressedBytes > maxU64-e.uncompressedSize then
    .error "ZIP aggregate member sizes overflow uint64 accounting"
  else
    .ok
      { r.1 with
        members:=r.1.members++[r.2]
        regularFileCount:=inv.regularFileCount + if e.directory then 0 else 1
        encryptedFileCount :=
          inv.encryptedFileCount + if !e.directory && e.encrypted then 1 else 0
        totalCompressedBytes:=inv.totalCompressedBytes+e.compressedSize
        totalDeclaredUncompressedBytes :=
          inv.totalDeclaredUncompressedBytes + e.uncompressedSize }

/-- The members in the order of the central directory, from the `i`-th on. -/
def inventoryFrom (inspect : ℕ→ArchiveFileStat→Except String ContainerMemberIdentity)
    (lastError : String) (i : ℕ) (inv : Inventory) :
    List (Option ArchiveFileStat) → Except String Inventory
  | [] => .ok inv
  | none::_ => .error s!"cannot read ZIP central-directory entry {i}: {lastError}"
  | some st :: rest =>
    match inspect i st with
    | .error reason => .error reason
    | .ok e =>
      match addMember inv e with
      | .error reason => .error reason
      | .ok next => inventoryFrom inspect lastError (i+1) next rest

def expansionRatio (e : ContainerMemberIdentity) : ExpansionRatio :=
  if e.compressedSize = 0 then
    if e.uncompressedSize = 0 then .one else .infinite
  else .quotient e.uncompressedSize e.compressedSize

def memberState (limits : ContainerIngressLimits) (e : ContainerMemberIdentity) : String×String :=
  if !e.safePath then
    ("UNSAFE_PATH","member path is not a portable safe relative path")
  else if !e.portablePath then
    ("PORTABILITY_UNVERIFIED",
      "non-ASCII path requires a Unicode normalization/casefold policy")
  else if e.symlink then ("LINK_REFUSED","ZIP symlink materialization is forbidden")
  else if e.specialFile then
    ("SPECIAL_FILE_REFUSED","non-regular ZIP filesystem object is forbidden")
  else if e.directory then ("DIRECTORY","")
  else if e.duplicatePath then ("DUPLICATE_PATH_REFUSED","normalized path is duplicated")
  else if e.caseCollision then
    ("CASE_COLLISION_REFUSED","portable ASCII case-fold path collision")
  else if e.encrypted then
    ("EXPLICIT_CREDENTIAL_REQUIRED",
      "encrypted ZIP member; no credential guessing is attempted")
  else if !e.supportedMethod then
    ("UNSUPPORTED_METHOD",
      "compression/encryption method is unsupported by the bounded decoder")
  else if e.uncompressedSize > limits.maxMemberUncompressedBytes then
    ("BUDGET_REFUSED","declared uncompressed member size exceeds limit")
  else if limits.aboveRatio (expansionRatio e) then
    ("BUDGET_REFUSED","declared expansion ratio exceeds limit")
  else ("SAFE_TO_MATERIALIZE","")

def finalizeMemberState (limits : ContainerIngressLimits) (e : ContainerMemberIdentity) :
    ContainerMemberIdentity :=
  let r := memberState limits e
  { e with
    state:=r.1,failureReason:=r.2,safeToMaterialize:=r.1 == "SAFE_TO_MATERIALIZE" }

/-- The last end-of-directory record whose comment reaches the end, from the given place back. -/
def eocdFrom (data : Bytes) (floor : ℕ) : ℕ → Option ℕ
  | 0 => if le32 data 0 == eocdSig && 22 + le16 data 20 == data.length then some 0 else none
  | pos+1 =>
    if le32 data (pos+1) == eocdSig && pos+1+22 + le16 data (pos+21) == data.length then
      some (pos+1)
    else if pos+1 = floor then none
    else eocdFrom data floor pos

def strictEocdOffset (data : Bytes) : Option ℕ :=
  if data.length < 22 then none else eocdFrom data (data.length-65557) (data.length-22)

def classicPrefixBase (data : Bytes) (eocd : ℕ) : Option ℕ :=
  let cdSize := le32 data (eocd+12)
  let cdOff := le32 data (eocd+16)
  let physicalCd := eocd-cdSize
  let base := physicalCd-cdOff
  if !spanInBounds data eocd 22 || cdSize == 0xffffffff || cdOff == 0xffffffff then none
  else if cdSize > eocd || physicalCd < cdOff then none
  else if base = 0 || base ≥ data.length then none
  else if !spanInBounds data physicalCd 4 || le32 data physicalCd ≠ centralHeaderSig then none
  else some base

def failStructure (out : ContainerIngressInfo) (reason : String) : ContainerIngressInfo :=
  {out with state := "MALFORMED",structurallyValid:=false,failureReason:=reason}

variable {τ : Type}

/-- The base of the archive in the input: its start, or behind a prefix. -/
def archiveBase (zip : ZipReader τ) (data : Bytes) (eocd : ℕ) : Except String ℕ :=
  if zip.initMem data then .ok 0
  else
    match classicPrefixBase data eocd with
    | none => .error ("ZIP central-directory validation failed: "++zip.lastError data)
    | some base =>
      if zip.initMem (data.drop base) then .ok base
      else
        .error ("prefix-adjusted ZIP central-directory validation failed: " ++
          zip.lastError (data.drop base))

def confirmedState (policyGated : Bool) (regular encrypted : ℕ) : String :=
  if regular ≠ 0 && encrypted = regular then "EXPLICIT_CREDENTIAL_REQUIRED"
  else if policyGated then "CONFIRMED_WITH_POLICY_GATES"
  else "CONFIRMED"

/-- What is said of the container once every entry was read. -/
def confirmInventory (out : ContainerIngressInfo) (inv : Inventory) : ContainerIngressInfo :=
  let members := inv.members.map (finalizeMemberState out.limits)
  let gated := members.any (fun e => !e.directory && !e.safeToMaterialize) ||
    inv.totalDeclaredUncompressedBytes > out.limits.maxTotalDeclaredUncompressedBytes
  { out with
    members:=members,regularFileCount:=inv.regularFileCount
    encryptedFileCount:=inv.encryptedFileCount,totalCompressedBytes:=inv.totalCompressedBytes
    totalDeclaredUncompressedBytes:=inv.totalDeclaredUncompressedBytes
    safeMaterializationCount:=members.countP (·.safeToMaterialize),policyGated:=gated
    credentialRequired:=inv.encryptedFileCount ≠ 0,structurallyValid:=true
    state:=confirmedState gated inv.regularFileCount inv.encryptedFileCount }

def inspectZipContainer (sha256 : Bytes→Bytes) (zip : ZipReader τ)
    (limits : ContainerIngressLimits) (data : Bytes) : ContainerIngressInfo :=
  match strictEocdOffset data with
  | none => {limits:=limits}
  | some eocd =>
    let found : ContainerIngressInfo := {limits:=limits,recognized:=true,kind := "zip"}
    if data.length > limits.maxInputBytes then
      { found with
        state := "REFUSED",failureReason := "container input bytes exceed L0 safety budget" }
    else
      let known : ContainerIngressInfo := {found with parentSha256:=sha256 data}
      match archiveBase zip data eocd with
      | .error reason => failStructure known reason
      | .ok base =>
        let archive := data.drop base
        let directoryOfs := zip.centralDirectoryFileOfs archive
        let stats := zip.fileStats archive
        let placed : ContainerIngressInfo :=
          { known with
            archiveBaseOffset:=base,memberCount:=stats.length
            centralDirectoryOffset:=base+directoryOfs }
        if stats.length > limits.maxMembers then
          { placed with
            state := "REFUSED",failureReason := "member count exceeds L1 inventory budget" }
        else
          match inventoryFrom
              (inspectEntry sha256 limits data base directoryOfs (base+directoryOfs))
              (zip.lastError archive) 0 {} stats with
          | .error reason => failStructure placed reason
          | .ok inv => confirmInventory placed inv

end AutoRefirst.Zip

/-!
## Materializing one member of a ZIP container

A member is decompressed into a part file beside its destination and moved there when its size
and its checksum agree.
-/

namespace AutoRefirst.Zip

def ioChunk : ℕ := 2^20

structure ContainerMaterializationResult where
  state : String := "REFUSED"
  failureReason : String := ""
  outputPath : DiskPath := []
  (parentSha256 memberName compressedSha256 uncompressedSha256 : Bytes := [])
  (memberIndex compressedSize uncompressedSize bytesWritten dataOffset : ℕ := 0)
  success : Bool := false

def refuse (out : ContainerMaterializationResult) (state reason : String) :
    ContainerMaterializationResult :=
  {out with state:=state,failureReason:=reason}

def describeMember (out : ContainerMaterializationResult) (e : ContainerMemberIdentity) :
    ContainerMaterializationResult :=
  { out with
    memberName:=e.name,compressedSha256:=e.compressedSha256,compressedSize:=e.compressedSize
    uncompressedSize:=e.uncompressedSize,dataOffset:=e.dataOffset }

def outputBudget (limits : ContainerIngressLimits) (remaining : UInt64) : UInt64 :=
  if remaining = .ofNat maxU64 then limits.maxTotalMaterializedBytes else remaining

/-- The checks before the disk is looked at: the member, or what is refused. -/
def admitMember (sha256 : Bytes→Bytes) (data : Bytes) (info : ContainerIngressInfo)
    (memberIndex depth : ℕ) (remaining : UInt64) :
    Except ContainerMaterializationResult ContainerMemberIdentity :=
  let out : ContainerMaterializationResult :=
    {memberIndex:=memberIndex,parentSha256:=info.parentSha256}
  if !info.recognized || !info.structurallyValid || info.kind ≠ "zip" then
    .error {out with failureReason := "container was not structurally confirmed as ZIP"}
  else
    match info.members[memberIndex]? with
    | none => .error {out with failureReason := "member index is outside the inspected inventory"}
    | some e =>
      if e.index ≠ memberIndex then
        .error {out with failureReason := "member index is outside the inspected inventory"}
      else
        let out := describeMember out e
        let budget := (outputBudget info.limits remaining).toNat
        if !e.safeToMaterialize then .error (refuse out e.state e.failureReason)
        else if depth ≥ info.limits.maxRecursiveDepth then
          .error (refuse out "BUDGET_REFUSED"
            "recursive depth budget exhausted before child materialization")
        else if e.uncompressedSize > budget ||
            e.uncompressedSize > info.limits.maxTotalMaterializedBytes.toNat then
          .error (refuse out "BUDGET_REFUSED"
            "remaining materialized-byte budget cannot admit this child")
        else if sha256 data ≠ info.parentSha256 then
          .error (refuse out "IDENTITY_MISMATCH" "input bytes changed since ZIP inspection")
        else .ok e

variable {σ τ : Type} (fs : FileTree σ) (zip : ZipReader τ)

def ensureRoot (root : DiskPath) (s : σ) : Option String×σ :=
  match fs.status s root with
  | .error m => (some ("cannot inspect output root: "++m),s)
  | .ok (some .directory) => (none,s)
  | .ok (some _) => (some "output root exists but is not a real directory",s)
  | .ok none =>
    match fs.createDirectories s root with
    | (some m,next) => (some ("cannot create output root: "++m),next)
    | (none,next) => (none,next)

def ensureBelow (cur : DiskPath) (s : σ) : List Bytes → Option String×σ
  | [] => (none,s)
  | part::rest =>
    if part.isEmpty || part == bytes "." || part == bytes ".." then
      (some "validated path produced an invalid filesystem component",s)
    else
      match fs.status s (cur++[part]) with
      | .error m => (some ("cannot inspect output path component: "++m),s)
      | .ok (some .directory) => ensureBelow (cur++[part]) s rest
      | .ok (some _) => (some "output path component is a symlink or non-directory",s)
      | .ok none =>
        match fs.createDirectory s (cur++[part]) with
        | (some m,next) => (some ("cannot create output path component: "++m),next)
        | (none,next) => ensureBelow (cur++[part]) next rest

def ensureSafeOutputParents (root relative : DiskPath) (s : σ) : Option String×σ :=
  match ensureRoot fs root s with
  | (some m,next) => (some m,next)
  | (none,next) => ensureBelow fs root next relative.dropLast

def partPath (dest : DiskPath) (memberIndex : ℕ) : DiskPath :=
  dest.dropLast ++ [dest.getLast?.getD [] ++ bytes s!".auto-refirst-part-{memberIndex}"]

/-- `symlink_status` saw something; an error counts as nothing. -/
def seenAt (s : σ) (p : DiskPath) : Bool :=
  match fs.status s p with
  | .ok (some _) => true
  | _ => false

structure Streamed (τ σ : Type) where
  ok : Bool
  written : ℕ
  iter : τ
  disk : σ

def streamOut (part : DiskPath) (size budget written : ℕ) (it : τ) (s : σ) : Streamed τ σ :=
  if h : written < size then
    let want := min ioChunk (size-written)
    let r := zip.extractIterRead it want
    let got := r.1.length
    if hgot : got = 0 ∨ got > want ∨ written > budget-got then ⟨false,written,r.2,s⟩
    else
      let w := fs.write s part r.1
      if w.1 then streamOut part size budget (written+got) r.2 w.2
      else ⟨false,written,r.2,w.2⟩
  else ⟨true,written,it,s⟩
termination_by size - written
decreasing_by
  have hpos : got ≠ 0 := fun h0 => hgot (Or.inl h0)
  change size - (written+got) < size-written
  omega

/-- What became of the part file before it is closed. -/
structure Filled (σ : Type) where
  failure : Option (String×String) := none
  written : ℕ := 0
  disk : σ

/-- The part file holds the member, or what was streamed is not what was declared. -/
def verified (good : Bool) (written : ℕ) (s : σ) : Filled σ :=
  if good then {written:=written,disk:=s}
  else
    { failure:=some ("DECOMPRESSION_OR_CRC_FAILED",
        "streamed output did not match declared size and ZIP CRC")
      written:=written,disk:=s }

def fillPart (archive : Bytes) (e : ContainerMemberIdentity) (part : DiskPath) (budget : ℕ)
    (s : σ) : Filled σ :=
  match zip.extractIterNew archive e.index with
  | none =>
    { failure:=some ("DECOMPRESSION_FAILED",
        "cannot start ZIP member decompression: "++zip.lastError archive)
      disk:=s }
  | some it =>
    let r := streamOut fs zip part e.uncompressedSize budget 0 it s
    let extra := zip.extractIterRead r.iter 1
    let streamOk := r.ok && extra.1.isEmpty
    let crcOk := zip.extractIterFree (if r.ok then extra.2 else r.iter)
    verified (streamOk && crcOk && r.written == e.uncompressedSize) r.written r.disk

/-- The part file is closed, and moved or removed. -/
def publish (sha256 : Bytes→Bytes) (out : ContainerMaterializationResult)
    (dest part : DiskPath) (f : Filled σ) : ContainerMaterializationResult×σ :=
  let closed := (fs.close f.disk part).2
  match f.failure with
  | some (state,reason) => (refuse out state reason,(fs.remove closed part).2)
  | none =>
    match fs.rename closed part dest with
    | (some _,kept) =>
      -- The message is the removal's, which used the error code of the rename.
      let removed := fs.remove kept part
      (refuse out "OUTPUT_PATH_REFUSED" ("cannot atomically finalize output file: "++removed.1),
        removed.2)
    | (none,moved) =>
      ({ out with
          outputPath:=dest,bytesWritten:=f.written
          uncompressedSha256:=((fs.content moved dest).map sha256).getD []
          state := "MATERIALIZED_VERIFIED",success:=true },moved)

/-- The part file in which a member may be written, or the state and the reason of a refusal. -/
def openPart (data : Bytes) (info : ContainerIngressInfo) (root relative : DiskPath)
    (memberIndex : ℕ) (s : σ) : Option (String×String)×σ :=
  let dest := root++relative
  match ensureSafeOutputParents fs root relative s with
  | (some m,next) => (some ("OUTPUT_PATH_REFUSED",m),next)
  | (none,next) =>
    if seenAt fs next dest then
      (some ("OUTPUT_PATH_REFUSED","destination already exists; overwrite is forbidden"),next)
    else if seenAt fs next (partPath dest memberIndex) then
      (some ("OUTPUT_PATH_REFUSED","temporary destination already exists"),next)
    else if info.archiveBaseOffset > data.length then
      (some ("IDENTITY_MISMATCH","stored ZIP archive base is outside current parent bytes"),next)
    else if !zip.initMem (data.drop info.archiveBaseOffset) then
      (some ("DECOMPRESSION_FAILED","cannot reopen verified ZIP at stored archive base: " ++
        zip.lastError (data.drop info.archiveBaseOffset)),next)
    else
      match fs.create next (partPath dest memberIndex) with
      | (false,failed) =>
        (some ("OUTPUT_PATH_REFUSED","cannot create temporary output file"),failed)
      | (true,opened) => (none,opened)

def materializeZipMember (sha256 : Bytes→Bytes) (data : Bytes) (info : ContainerIngressInfo)
    (memberIndex : ℕ) (root : DiskPath) (depth : ℕ) (remaining : UInt64) (s : σ) :
    ContainerMaterializationResult×σ :=
  match admitMember sha256 data info memberIndex depth remaining with
  | .error out => (out,s)
  | .ok e =>
    let out := describeMember {memberIndex:=memberIndex,parentSha256:=info.parentSha256} e
    let relative := pathComponents e.normalizedPath
    let dest := root++relative
    let part := partPath dest memberIndex
    match openPart fs zip data info root relative memberIndex s with
    | (some (state,reason),next) => (refuse out state reason,next)
    | (none,opened) =>
      publish fs sha256 out dest part
        (fillPart fs zip (data.drop info.archiveBaseOffset) e part
          (outputBudget info.limits remaining).toNat opened)

end AutoRefirst.Zip
