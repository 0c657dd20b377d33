import AutoRefirst.ByteRanges
import AutoRefirst.Fallible
import AutoRefirst.PortableExecutable

/-!
# Authenticode

The layout of an image that decides which of its bytes are hashed, the digest in a PKCS#7
certificate, and the analysis that compares the two for every certificate of the table and
every signature nested in one. The certificate chain, the time stamps, the page hashes and the
extension payloads are read besides and decide no state.
-/

namespace AutoRefirst.Authenticode
open Option

open Fallible ByteRanges

structure Der where
  tag : UInt8 := 0
  (start content length stop : ℕ := 0)
deriving Repr, DecidableEq

def longLength (bs : Bytes) : Option ℕ :=
  bs.foldlM (fun len b => if len > 2^56-1 then none else some (len*256+b.toNat)) 0

/-- The length at `p`, and where the content starts. -/
def der_length (d : Bytes) (p : ℕ) : Option (ℕ×ℕ) := do
  let b ← d[p]?
  if b &&& 0x80 = 0 then some (b.toNat,p+1)
  else
    let count := (b &&& 0x7f).toNat
    if count = 0 ∨ count > 8 ∨ p+1+count > d.length then none
    else if count > 1 ∧ d.getD (p+1) 0 = 0 then none
    else
      let len ← longLength (slice d (p+1,count))
      if len < 128 then none else some (len,p+1+count)

/-- The element at `p`; reading goes on where it stops. -/
def der_one (d : Bytes) (p : ℕ) : Option Der := do
  let tag ← d[p]?
  if tag &&& 0x1f = 0x1f then none
  else
    let (len,q) ← der_length d (p+1)
    if len > d.length-q then none
    else some {tag,start:=p,content:=q,length:=len,stop:=q+len}

theorem der_one_forward {d:Bytes} {p:ℕ} {n:Der} (h:der_one d p=some n) :
    p<n.stop ∧ p<d.length:=by
  simp only [der_one,bind_eq_bind,bind_eq_some_iff] at h
  obtain ⟨tag,htag,h⟩:=h
  have hp : p<d.length:=(List.getElem?_eq_some_iff.mp htag).1
  split_ifs at h
  obtain ⟨⟨len,q⟩,hlen,h⟩:=bind_eq_some_iff.mp h
  have hq : p<q:=by
    simp only [der_length,bind_eq_bind,bind_eq_some_iff] at hlen
    obtain ⟨b,-,hlen⟩:=hlen
    split_ifs at hlen
    · obtain ⟨-,rfl⟩:=Prod.mk.inj (some.inj hlen)
      omega
    · obtain ⟨len',-,hlen⟩:=bind_eq_some_iff.mp hlen
      split_ifs at hlen
      obtain ⟨-,rfl⟩:=Prod.mk.inj (some.inj hlen)
      omega
  split_ifs at h
  obtain rfl:=some.inj h
  exact ⟨Nat.lt_of_lt_of_le hq (Nat.le_add_right _ _),hp⟩

/-- The elements from `p` on; they must end exactly at `stop`. -/
def childrenFrom (d : Bytes) (stop p : ℕ) (found : List Der) : Option (List Der) :=
  if p < stop then
    match h : der_one d p with
    | none => none
    | some n =>
      have _ := der_one_forward h
      childrenFrom d stop n.stop (found++[n])
  else if p = stop then some found
  else none
termination_by d.length - p

def children (d : Bytes) (n : Der) : Option (List Der) :=
  if n.content+n.length > d.length then none else childrenFrom d n.stop n.content []

def oid_arr (d : Bytes) (n : Der) (a : Bytes) : Bool :=
  n.tag = 0x06 ∧ n.length = a.length ∧ slice d (n.content,n.length) = a

def OID_SIGNED_DATA : Bytes := [0x2a,0x86,0x48,0x86,0xf7,0x0d,0x01,0x07,0x02]
def OID_SPC_INDIRECT : Bytes := [0x2b,0x06,0x01,0x04,0x01,0x82,0x37,0x02,0x01,0x04]
def OID_SHA1 : Bytes := [0x2b,0x0e,0x03,0x02,0x1a]
def OID_SHA256 : Bytes := [0x60,0x86,0x48,0x01,0x65,0x03,0x04,0x02,0x01]
def OID_NESTED_SIGNATURE : Bytes := [0x2b,0x06,0x01,0x04,0x01,0x82,0x37,0x02,0x04,0x01]

def childrenIf (d : Bytes) (n : Der) (check : List Der→Bool) (e : String) :
    Except String (List Der) :=
  match children d n with
  | some ns => if check ns then .ok ns else .error e
  | none => .error e

variable (ns : List Der)

def nth (i : ℕ) : Der := ns.getD i {}

def last : Der := ns.getLastD {}

inductive DigestAlgorithm where
  | sha1 | sha256 | unsupported
deriving DecidableEq, Repr

structure SpcDigest where
  algorithm : DigestAlgorithm
  digest : Bytes
  signer_count : ℕ
deriving DecidableEq, Repr

def spcContent (d : Bytes) (wrap : List Der) : Except String Der :=
  match wrap with
  | [w] =>
    if w.tag = 0x30 then .ok w
    else if w.tag = 0x04 then
      let inner := slice d (w.content,w.length)
      match der_one inner 0 with
      | some spc =>
        if spc.tag = 0x30 ∧ spc.stop = inner.length then
          .ok { spc with
            start:=spc.start+w.content,content:=spc.content+w.content,stop:=spc.stop+w.content }
        else .error "encapsulated SpcIndirectDataContent invalid"
      | none => .error "encapsulated SpcIndirectDataContent invalid"
    else .error "SpcIndirectDataContent DER shape unsupported"
  | _ => .error "SpcIndirectDataContent DER shape unsupported"

variable (der : Bytes)

def parse_spc_digest : Except String SpcDigest := do
  let root ← (der_one der 0).elim (.error "PKCS#7 ContentInfo DER root invalid") .ok
  rejectIf (root.tag ≠ 0x30) "PKCS#7 ContentInfo DER root invalid"
  rejectIf ((der.drop root.stop).any (· ≠ 0)) "non-zero bytes follow PKCS#7 DER root"
  let rc ← childrenIf der root
    (fun rc => 2 ≤ rc.length ∧ oid_arr der (nth rc 0) OID_SIGNED_DATA ∧ (nth rc 1).tag = 0xa0)
    "certificate is not PKCS#7 SignedData"
  let c0 ← childrenIf der (nth rc 1) (fun c0 => c0.length = 1 ∧ (nth c0 0).tag = 0x30)
    "PKCS#7 SignedData wrapper invalid"
  let sd ← childrenIf der (nth c0 0)
    (fun sd => 4 ≤ sd.length ∧ (nth sd 0).tag = 0x02 ∧ (nth sd 1).tag = 0x31 ∧
      (nth sd 2).tag = 0x30 ∧ (last sd).tag = 0x31)
    "PKCS#7 SignedData fields invalid"
  let signers ← childrenIf der (last sd) (fun signers => signers ≠ [])
    "PKCS#7 SignerInfos is empty or malformed"
  rejectIf (signers.any fun x => x.tag ≠ 0x30) "PKCS#7 SignerInfo entry is not a SEQUENCE"
  let ci ← childrenIf der (nth sd 2)
    (fun ci => 2 ≤ ci.length ∧ oid_arr der (nth ci 0) OID_SPC_INDIRECT ∧ (nth ci 1).tag = 0xa0)
    "PKCS#7 content is not SpcIndirectDataContent"
  let wrap ← childrenIf der (nth ci 1) (fun wrap => wrap ≠ [])
    "SpcIndirectDataContent wrapper empty"
  let spc ← spcContent der wrap
  let sc ← childrenIf der spc
    (fun sc => sc.length = 2 ∧ (nth sc 0).tag = 0x30 ∧ (nth sc 1).tag = 0x30)
    "SpcIndirectDataContent fields invalid"
  let di ← childrenIf der (nth sc 1)
    (fun di => di.length = 2 ∧ (nth di 0).tag = 0x30 ∧ (nth di 1).tag = 0x04)
    "SpcIndirectDataContent DigestInfo invalid"
  let ai ← childrenIf der (nth di 0) (fun ai => ai ≠ [] ∧ (nth ai 0).tag = 0x06)
    "Authenticode digest AlgorithmIdentifier invalid"
  let algorithm : DigestAlgorithm :=
    if oid_arr der (nth ai 0) OID_SHA1 then .sha1
    else if oid_arr der (nth ai 0) OID_SHA256 then .sha256
    else .unsupported
  let digest := slice der ((nth di 1).content,(nth di 1).length)
  rejectIf (algorithm = .sha1 ∧ digest.length ≠ 20 ∨ algorithm = .sha256 ∧ digest.length ≠ 32)
    "Authenticode digest length does not match algorithm"
  pure {algorithm,digest,signer_count:=signers.length}

/-- What a scan found, and the error that ended it. -/
structure NestedScan where
  blobs : List Bytes := []
  error : Option String := none

variable (s : NestedScan)

def NestedScan.fail (e : String) : NestedScan := {s with error:=some e}

/-- A loop that an error ends. -/
def scanEach (s : NestedScan) (f : NestedScan→Der→NestedScan) : NestedScan :=
  ns.foldl (fun s n => if s.error.isSome then s else f s n) s

def scanValue (v : Der) : NestedScan :=
  if v.tag ≠ 0x30 ∧ v.tag ≠ 0x04 then
    s.fail "nested-signature attribute value is not PKCS#7 ContentInfo/OCTET STRING"
  else
    let blob :=
      if v.tag = 0x30 then slice der (v.start,v.stop-v.start)
      else slice der (v.content,v.length)
    if blob = [] ∨ blob.length > 16*1024*1024 then
      s.fail "nested-signature PKCS#7 size invalid/unreasonable"
    else
      let s := {s with blobs:=s.blobs++[blob]}
      if s.blobs.length > 16 then s.fail "nested-signature count exceeds safety limit" else s

def scanAttribute (a : Der) : NestedScan :=
  if a.tag ≠ 0x30 then s
  else
    match children der a with
    | none => s
    | some av =>
      if av.length ≠ 2 ∨ ¬oid_arr der (nth av 0) OID_NESTED_SIGNATURE ∨ (nth av 1).tag ≠ 0x31 then s
      else
        match children der (nth av 1) with
        | none => s.fail "nested-signature attribute SET malformed"
        | some values => scanEach values s (scanValue der)

def scanField (field : Der) : NestedScan :=
  if field.tag ≠ 0xa1 then s
  else
    match children der field with
    | none => s.fail "nested-signature scan: unauthenticated attributes malformed"
    | some attrs => scanEach attrs s (scanAttribute der)

def scanSigner (si : Der) : NestedScan :=
  if si.tag ≠ 0x30 then s
  else
    match children der si with
    | none => s
    | some sc => scanEach sc s (scanField der)

def collect_nested_signature_blobs : NestedScan :=
  let s : NestedScan := {}
  match der_one der 0 with
  | none => s.fail "nested-signature scan: PKCS#7 ContentInfo invalid"
  | some root =>
    if root.tag ≠ 0x30 then s.fail "nested-signature scan: PKCS#7 ContentInfo invalid"
    else
      match childrenIf der root (fun rc => 2 ≤ rc.length ∧
          oid_arr der (nth rc 0) OID_SIGNED_DATA ∧ (nth rc 1).tag = 0xa0) "" with
      | .error _ => s
      | .ok rc =>
        let signers := do
          let cw ← childrenIf der (nth rc 1) (fun cw => cw.length = 1 ∧ (nth cw 0).tag = 0x30)
            "nested-signature scan: SignedData wrapper invalid"
          let sd ← childrenIf der (nth cw 0) (fun sd => sd ≠ [] ∧ (last sd).tag = 0x31)
            "nested-signature scan: SignerInfos invalid"
          childrenIf der (last sd) (fun _ => true)
            "nested-signature scan: SignerInfos set malformed"
        match signers with
        | .error e => s.fail e
        | .ok signers => scanEach signers s (scanSigner der)

structure PeHashLayout where
  (checksum security_dir headers : ℕ := 0)
  security_dir_available : Bool := false
  (cert_off cert_size last_section_end : ℕ := 0)
  sections : List Range := []
deriving DecidableEq, Repr

/-- A number of the file, or zero. -/
def field (w : ℕ) (d : Bytes) (o : ℕ) : ℕ := (rd w d o).getD 0

/-- Raw offset and raw size in the section header at `o`. -/
def sectionRange (d : Bytes) (o : ℕ) : Range := (field 4 d (o+20),field 4 d (o+16))

def sectionTable (d : Bytes) (st nsec : ℕ) : List Range :=
  (List.range nsec).map fun i => sectionRange d (st+i*40)

def rangeLe (a b : Range) : Prop := a.1<b.1 ∨ a.1=b.1 ∧ a.2≤b.2

instance : DecidableRel rangeLe := fun _ _ => inferInstanceAs (Decidable (_ ∨ _))

/-- The sorted sections start after `prev` and after one another. -/
def apart : ℕ → List Range → Bool
  | _, [] => true
  | prev, r::rs => prev ≤ r.1 && apart (r.1+r.2) rs

section Geometry

variable (d : Bytes)

def peAt : ℕ := field 4 d 0x3c

/-- The optional header. -/
def optAt : ℕ := peAt d + 24

def checksumAt : ℕ := optAt d + 64

def sectionCount : ℕ := field 2 d (peAt d + 6)

/-- The section table, behind the optional header. -/
def tableAt : ℕ := optAt d + field 2 d (peAt d + 20)

/-- Where the number of the data directories stands. -/
def countAt : ℕ := optAt d + if field 2 d (optAt d) = 0x20b then 108 else 92

def dirsAt : ℕ := optAt d + if field 2 d (optAt d) = 0x20b then 112 else 96

/-- The directory entry of the Certificate Table. -/
def entryAt : ℕ := dirsAt d + 4*8

def headersSize : ℕ := field 4 d (optAt d + 60)

def hasEntry : Bool := decide (field 4 d (countAt d) > 4 ∧ dirsAt d + 5*8 ≤ tableAt d)

def certificates : Range := (field 4 d (entryAt d),field 4 d (entryAt d + 4))

def rawSections : List Range := (sectionTable d (tableAt d) (sectionCount d)).filter (·.2 ≠ 0)

def sectionsEnd : ℕ := (rawSections d).foldl (fun e r => max e (r.1+r.2)) (headersSize d)

def layoutOf : PeHashLayout where
  checksum := checksumAt d
  security_dir := if hasEntry d then entryAt d else 0
  headers := headersSize d
  security_dir_available := hasEntry d
  cert_off := if hasEntry d then (certificates d).1 else 0
  cert_size := if hasEntry d then (certificates d).2 else 0
  last_section_end := sectionsEnd d
  sections := (rawSections d).insertionSort rangeLe

end Geometry

def hash_layout (d : Bytes) : Except String PeHashLayout := do
  rejectIf (d.length < 0x40 ∨ d.getD 0 0 ≠ byte 'M' ∨ d.getD 1 0 ≠ byte 'Z') "not PE"
  rejectIf (peAt d + 24 > d.length ∨ slice d (peAt d,4) ≠ peSignature) "invalid PE header"
  rejectIf (tableAt d > d.length ∨ optAt d + 2 > d.length ∨
    field 2 d (optAt d) ≠ 0x10b ∧ field 2 d (optAt d) ≠ 0x20b) "invalid optional header"
  rejectIf (countAt d + 4 > d.length) "PE NumberOfRvaAndSizes unavailable"
  rejectIf (headersSize d = 0 ∨ headersSize d > d.length ∨ checksumAt d + 4 > headersSize d)
    "PE Authenticode header geometry invalid"
  rejectIf (hasEntry d ∧ (entryAt d + 8 > headersSize d ∨ checksumAt d + 4 > entryAt d))
    "PE Certificate Table directory geometry invalid"
  rejectIf (tableAt d + sectionCount d * 40 > d.length) "PE section table truncated"
  rejectIf ((rawSections d).any fun r => r.1 < headersSize d ∨ r.1+r.2 > d.length)
    "PE section raw range invalid for Authenticode"
  rejectIf (apart (headersSize d) ((rawSections d).insertionSort rangeLe) = false)
    "PE section raw ranges overlap for Authenticode"
  pure (layoutOf d)

def covered_parts (x : PeHashLayout) : List Range :=
  if x.security_dir_available then
    [(0,x.checksum),(x.checksum+4,x.security_dir-(x.checksum+4)),
      (x.security_dir+8,x.headers-(x.security_dir+8))] ++ x.sections
  else []

/-- The hash functions. -/
structure Digests where
  (sha1 sha256 : Bytes→Bytes)

def hex_bytes (b : Bytes) : Bytes :=
  b.flatMap fun x => [(bytes "0123456789abcdef").getD (x.toNat/16) 0,
    (bytes "0123456789abcdef").getD (x.toNat % 16) 0]

def hashed (d : Bytes) (x : PeHashLayout) : Bytes := gather d (covered_parts x)

variable (sha : Digests)

def compute_digest (d : Bytes) (x : PeHashLayout) : DigestAlgorithm → Bytes
  | .sha256 => hex_bytes (sha.sha256 (hashed d x))
  | .sha1 => hex_bytes (sha.sha1 (hashed d x))
  | .unsupported => []

structure AuthenticodeSignatureInfo where
  (certificate_offset certificate_size revision certificate_type nesting_depth
    nested_signature_count : ℕ := 0)
  parent_signature_index : ℤ := -1
  source : String := "WIN_CERTIFICATE"
  nested_signature_error : String := ""
  (pkcs7 spc_indirect_data signer_infos_present digest_extracted digest_match : Bool := false)
  signer_info_count : ℕ := 0
  digest_algorithm : Option DigestAlgorithm := none
  (signed_digest computed_digest : Bytes := [])
  (state error : String := "")

structure AuthenticodeInfo where
  (present certificate_table_valid : Bool := false)
  (certificate_table_offset certificate_table_size checksum_offset
    certificate_directory_entry_offset headers_size last_section_end covered_bytes
    post_section_bytes pre_certificate_unhashed_bytes post_certificate_unhashed_bytes : ℕ := 0)
  signatures : List AuthenticodeSignatureInfo := []
  (state error : String := "")

def parse_pkcs7_signature (file : Bytes) (x : PeHashLayout) (blob : Bytes)
    (out : AuthenticodeSignatureInfo) : AuthenticodeSignatureInfo :=
  let out := {out with pkcs7:=true}
  match parse_spc_digest blob with
  | .error e => {out with state := "PKCS7_PARSE_FAILED",error:=e}
  | .ok spc =>
    let out := { out with
      spc_indirect_data:=true,signer_infos_present:=true,signer_info_count:=spc.signer_count
      digest_extracted:=true,digest_algorithm:=some spc.algorithm
      signed_digest:=hex_bytes spc.digest,computed_digest:=compute_digest sha file x spc.algorithm }
    if out.computed_digest = [] then
      { out with
        state := "UNSUPPORTED_DIGEST"
        error := "SpcIndirectDataContent digest algorithm is not yet supported for local recomputation" }
    else
      let same := decide (out.signed_digest = out.computed_digest)
      { out with
        digest_match:=same
        state := if same then "DIGEST_MATCH" else "DIGEST_MISMATCH" }

structure PendingNested where
  blob : Bytes
  (parent depth : ℕ)

/-- The signatures so far, and the nested ones that are still to be looked at. -/
structure Analysis where
  signatures : List AuthenticodeSignatureInfo := []
  pending : List PendingNested := []

/-- The length of a certificate, aligned to eight. -/
def aligned (len : ℕ) : ℕ := (len+7)/8*8

def certificate (d : Bytes) (x : PeHashLayout) (q len : ℕ) (s : Analysis) : Analysis :=
  let type := field 2 d (q+6)
  let out : AuthenticodeSignatureInfo :=
    { certificate_offset:=q,certificate_size:=len,revision:=field 2 d (q+4),certificate_type:=type }
  if type = 0x0002 then
    let blob := slice d (q+8,len-8)
    let out := parse_pkcs7_signature sha d x blob out
    let nested := collect_nested_signature_blobs blob
    { signatures:=s.signatures ++ [{ out with
        nested_signature_error:=nested.error.getD "",nested_signature_count:=nested.blobs.length }]
      pending:=s.pending ++ nested.blobs.map fun n => ⟨n,s.signatures.length,1⟩ }
  else
    {s with signatures:=s.signatures ++ [{out with state := "NON_PKCS7_CERTIFICATE"}]}

theorem le_aligned (len:ℕ) : len≤aligned len:=by
  unfold aligned
  omega

/-- The walk over the table; an error ends it. -/
def walk (sha : Digests) (d : Bytes) (x : PeHashLayout) (stop q : ℕ) (s : Analysis) :
    Analysis×Option String :=
  if q < stop then
    if q+8 > stop then (s,some "WIN_CERTIFICATE header truncated")
    else if field 4 d q < 8 ∨ field 4 d q > stop-q then
      (s,some "WIN_CERTIFICATE length invalid")
    else if aligned (field 4 d q) > stop-q then
      (s,some "WIN_CERTIFICATE aligned length exceeds table")
    else if (slice d (q + field 4 d q,aligned (field 4 d q) - field 4 d q)).any (· ≠ 0) then
      (s,some "WIN_CERTIFICATE alignment padding is non-zero")
    else
      have _ := le_aligned (field 4 d q)
      walk sha d x stop (q+aligned (field 4 d q)) (certificate sha d x q (field 4 d q) s)
  else if q ≠ stop then
    (s,some "Attribute Certificate Table size does not equal aligned WIN_CERTIFICATE entries")
  else (s,none)
termination_by stop - q

/-- The nested signatures, first come first served, until there are sixteen signatures. -/
def nest (sha : Digests) (d : Bytes) (x : PeHashLayout) (signatures : List AuthenticodeSignatureInfo) :
    List PendingNested → List AuthenticodeSignatureInfo
  | [] => signatures
  | p::pending =>
    if 16 ≤ signatures.length then
      signatures.modify p.parent fun s =>
        {s with nested_signature_error := "nested-signature total count exceeds safety limit"}
    else
      let out := parse_pkcs7_signature sha d x p.blob
        { source := "SPC_NESTED_SIGNATURE",nesting_depth:=p.depth
          parent_signature_index:=p.parent,certificate_type:=0x0002
          certificate_size:=p.blob.length }
      let nested := collect_nested_signature_blobs p.blob
      let deep := decide (nested.blobs ≠ [] ∧ 4 ≤ p.depth)
      let out := { out with
        nested_signature_error :=
          if deep then "nested-signature depth exceeds safety limit" else nested.error.getD ""
        nested_signature_count:=nested.blobs.length }
      let more :=
        if deep then [] else nested.blobs.map fun n => ⟨n,signatures.length,p.depth+1⟩
      nest sha d x (signatures++[out]) (pending++more)
termination_by 16 - signatures.length
decreasing_by
  simp only [List.length_append,List.length_singleton]
  omega

def tableState (signatures : List AuthenticodeSignatureInfo) : String :=
  if signatures.any fun s => s.digest_extracted && s.computed_digest ≠ [] && !s.digest_match then
    "SIGNED_CONTENT_MISMATCH"
  else if signatures.any fun s => s.digest_extracted && s.digest_match then "SIGNED_CONTENT_MATCH"
  else if signatures.any fun s => s.digest_extracted then "DIGEST_UNSUPPORTED"
  else if signatures.any fun s => s.pkcs7 && !s.digest_extracted then "SIGNATURE_PARSE_FAILED"
  else "CERTIFICATE_TABLE_PRESENT"

def AuthenticodeInfo.fail (out : AuthenticodeInfo) (e : String) : AuthenticodeInfo :=
  {out with error:=e,state := "FAILED"}

/-- The table range the directory entry names, as the analysis demands it. -/
def tableRangeOk (d : Bytes) (x : PeHashLayout) : Bool :=
  x.cert_off ≠ 0 ∧ x.cert_size ≠ 0 ∧ x.cert_off % 8 = 0 ∧ x.last_section_end ≤ x.cert_off ∧
    x.cert_off + x.cert_size ≤ d.length

def analyze_authenticode (d : Bytes) (pe : PeInfo) : AuthenticodeInfo :=
  if pe.valid = false then {}
  else
    match hash_layout d with
    | .error e => ({} : AuthenticodeInfo).fail e
    | .ok x =>
      let out : AuthenticodeInfo :=
        { checksum_offset:=x.checksum,certificate_directory_entry_offset:=x.security_dir
          headers_size:=x.headers,last_section_end:=x.last_section_end
          post_section_bytes:=d.length-x.last_section_end }
      if x.security_dir_available = false ∨ x.cert_off = 0 ∧ x.cert_size = 0 then
        {out with state := "NO_EMBEDDED_SIGNATURE"}
      else
        let out := { out with
          covered_bytes:=x.headers-12+(x.sections.map Prod.snd).sum,present:=true
          certificate_table_offset:=x.cert_off,certificate_table_size:=x.cert_size }
        if tableRangeOk d x = false then
          out.fail "PE Attribute Certificate Table range/alignment invalid"
        else
          let stop := x.cert_off+x.cert_size
          let out := { out with
            pre_certificate_unhashed_bytes:=x.cert_off-x.last_section_end
            post_certificate_unhashed_bytes:=d.length-stop }
          match walk sha d x stop x.cert_off {} with
          | (s,some e) => {out with signatures:=s.signatures}.fail e
          | (s,none) =>
            let signatures := nest sha d x s.signatures s.pending
            { out with
              signatures,certificate_table_valid:=true,state:=tableState signatures }

end AutoRefirst.Authenticode
