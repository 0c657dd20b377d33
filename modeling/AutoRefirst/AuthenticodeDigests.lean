import AutoRefirst.AuthenticodeCoverage

/-! The analysis of a whole Certificate Table: a correctly signed image shows no mismatch. -/

namespace AutoRefirst.Authenticode
open List

open Fallible ByteRanges

variable {d : Bytes} {sha : Digests}

/-- The certificates of a table, one behind the other. -/
inductive CertificateAt (d : Bytes) (start stop : ℕ) : ℕ → Prop
  | first (h : start<stop) : CertificateAt d start stop start
  | next {q : ℕ} (hq : CertificateAt d start stop q) (h : q+aligned (field 4 d q) < stop) :
      CertificateAt d start stop (q+aligned (field 4 d q))

/-- The PKCS#7 signatures of a table, and those nested in them. -/
inductive SignatureBlob (d : Bytes) (start stop : ℕ) : Bytes → Prop
  | table {q : ℕ} (hq : CertificateAt d start stop q) (htype : field 2 d (q+6) = 0x0002) :
      SignatureBlob d start stop (slice d (q+8,field 4 d q - 8))
  | nested {blob n : Bytes} (hblob : SignatureBlob d start stop blob)
      (hn : n∈(collect_nested_signature_blobs blob).blobs) : SignatureBlob d start stop n

def CorrectlySigned (sha : Digests) (d : Bytes) : Prop :=
  ∀ blob, SignatureBlob d (certificates d).1 ((certificates d).1+(certificates d).2) blob →
    ∀ spc, parse_spc_digest blob = .ok spc →
      (spc.algorithm = .sha1 → spc.digest=sha.sha1 (specification d)) ∧
        (spc.algorithm = .sha256 → spc.digest=sha.sha256 (specification d))

def Agrees (s : AuthenticodeSignatureInfo) : Prop :=
  s.digest_extracted = true → s.computed_digest=[] ∨ s.digest_match=true

theorem tableState_of_agrees {signatures:List AuthenticodeSignatureInfo}
    (h:∀s∈signatures,Agrees s) : tableState signatures ≠ "SIGNED_CONTENT_MISMATCH" := by
  have hnone : (signatures.any fun s=>
      s.digest_extracted && s.computed_digest≠[] && !s.digest_match)=false:=by
    rw [any_eq_false]
    intro s hs hbad
    simp only [Bool.and_eq_true,decide_eq_true_eq,Bool.not_eq_true'] at hbad
    rcases h s hs hbad.1.1 with hempty | hmatch
    · exact hbad.1.2 hempty
    · rw [hbad.2] at hmatch
      cases hmatch
  unfold tableState
  rw [hnone,if_neg Bool.false_ne_true]
  split_ifs
  all_goals decide

theorem parse_pkcs7_signature_agrees {x:PeHashLayout} {blob:Bytes}
    (hx:hashed d x=specification d)
    (hblob:∀spc,parse_spc_digest blob=.ok spc →
      (spc.algorithm=.sha1 → spc.digest=sha.sha1 (specification d)) ∧
        (spc.algorithm=.sha256 → spc.digest=sha.sha256 (specification d)))
    (out:AuthenticodeSignatureInfo) (hout:out.digest_extracted=false) :
    Agrees (parse_pkcs7_signature sha d x blob out):=by
  unfold parse_pkcs7_signature Agrees
  cases hspc : parse_spc_digest blob with
  | error e=>exact fun hextracted=>absurd hextracted (by simp [hout])
  | ok spc=>
    obtain ⟨hsha1,hsha256⟩:=hblob spc hspc
    have hmatch : ¬compute_digest sha d x spc.algorithm = [] →
        hex_bytes spc.digest=compute_digest sha d x spc.algorithm:=by
      intro hempty
      cases halg : spc.algorithm with
      | sha1=>simp only [compute_digest,hx,hsha1 halg]
      | sha256=>simp only [compute_digest,hx,hsha256 halg]
      | unsupported=>
        rw [halg] at hempty
        exact absurd rfl hempty
    dsimp only
    split_ifs with hempty hsame
    · exact fun _ => .inl hempty
    · exact fun _ => .inr hsame
    · exact absurd (decide_eq_true (hmatch hempty)) hsame

theorem Agrees.of_eq {s t:AuthenticodeSignatureInfo} (h:Agrees s)
    (he:t.digest_extracted=s.digest_extracted) (hc:t.computed_digest=s.computed_digest)
    (hm:t.digest_match=s.digest_match) : Agrees t:=by
  intro hextracted
  rw [hc,hm]
  exact h (he▸hextracted)

/-- What the walk keeps: the signatures agree, and what is still to come is of the file. -/
structure Sound (d : Bytes) (start stop : ℕ) (s : Analysis) : Prop where
  agrees : ∀ t∈s.signatures, Agrees t
  pending : ∀ p∈s.pending, SignatureBlob d start stop p.blob

section

variable {x : PeHashLayout} {start stop : ℕ} (hx : hashed d x = specification d)
  (hsigned : ∀ blob, SignatureBlob d start stop blob → ∀ spc, parse_spc_digest blob = .ok spc →
    (spc.algorithm = .sha1 → spc.digest=sha.sha1 (specification d)) ∧
      (spc.algorithm = .sha256 → spc.digest=sha.sha256 (specification d)))
include hx hsigned

theorem certificate_sound {q:ℕ} {s:Analysis} (hs:Sound d start stop s)
    (hq:CertificateAt d start stop q) :
    Sound d start stop (certificate sha d x q (field 4 d q) s):=by
  unfold certificate
  dsimp only
  split_ifs with htype
  · have hblob:=SignatureBlob.table hq htype
    refine ⟨fun t ht=>?_,fun p hp=>?_⟩
    · rcases mem_append.mp ht with hold | hnew
      · exact hs.agrees t hold
      · obtain rfl:=mem_singleton.mp hnew
        refine Agrees.of_eq (parse_pkcs7_signature_agrees hx (hsigned _ hblob)
          { certificate_offset:=q,certificate_size:=field 4 d q
            revision:=field 2 d (q+4),certificate_type:=field 2 d (q+6) } rfl)
          rfl rfl rfl
    · rcases mem_append.mp hp with hold | hnew
      · exact hs.pending p hold
      · obtain ⟨n,hn,rfl⟩:=mem_map.mp hnew
        exact .nested hblob hn
  · refine ⟨fun t ht=>?_,hs.pending⟩
    rcases mem_append.mp ht with hold | hnew
    · exact hs.agrees t hold
    · obtain rfl:=mem_singleton.mp hnew
      intro hextracted
      cases hextracted

theorem walk_sound {q:ℕ} {s:Analysis} (hs:Sound d start stop s)
    (hq:q<stop → CertificateAt d start stop q) :
    Sound d start stop (walk sha d x stop q s).1:=by
  induction hn : stop-q using Nat.strong_induction_on generalizing q s with
  | _ n ih=>
    rw [walk]
    split_ifs with hlt hheader hlen haligned hpadding hend
    · exact hs
    · exact hs
    · exact hs
    · exact hs
    · have hle:=le_aligned (field 4 d q)
      exact ih _ (by omega) (certificate_sound hx hsigned hs (hq hlt)) (fun h=>(hq hlt).next h) rfl
    · exact hs
    · exact hs

theorem nest_agrees {signatures:List AuthenticodeSignatureInfo} {pending:List PendingNested}
    (hs:Sound d start stop ⟨signatures,pending⟩) :
    ∀t∈nest sha d x signatures pending,Agrees t:=by
  induction hn : 16-signatures.length using Nat.strong_induction_on
    generalizing signatures pending with
  | _ n ih=>
    cases pending with
    | nil=>
      rw [nest]
      exact hs.agrees
    | cons p pending=>
      rw [nest]
      split_ifs with hfull
      · intro t ht
        obtain ⟨i,hi,rfl⟩:=getElem_of_mem ht
        have hi' : i<signatures.length:=by simpa using hi
        rw [getElem_modify]
        have hold:=hs.agrees _ (getElem_mem hi')
        split_ifs
        · exact hold.of_eq rfl rfl rfl
        · exact hold
      · have hblob:=hs.pending p mem_cons_self
        refine ih _ ?_ ⟨fun t ht=>?_,fun r hr=>?_⟩ rfl
        · rw [length_append,length_singleton]
          omega
        · rcases mem_append.mp ht with hold | hnew
          · exact hs.agrees t hold
          · obtain rfl:=mem_singleton.mp hnew
            refine Agrees.of_eq (parse_pkcs7_signature_agrees hx (hsigned _ hblob)
              { source := "SPC_NESTED_SIGNATURE",nesting_depth:=p.depth
                parent_signature_index:=p.parent,certificate_type:=0x0002
                certificate_size:=p.blob.length } rfl) rfl rfl rfl
        · rcases mem_append.mp hr with hold | hnew
          · exact hs.pending r (mem_cons_of_mem _ hold)
          · split_ifs at hnew
            · cases hnew
            · obtain ⟨n,hmem,rfl⟩:=mem_map.mp hnew
              exact .nested hblob hmem

end

/-- A correctly signed image in which nothing but the Certificate Table follows the last section
is not reported as changed. -/
theorem no_mismatch (hsigned:CorrectlySigned sha d) (htail:∀i<d.length,¬InTail d i)
    (pe:PeInfo) : (analyze_authenticode sha d pe).state ≠ "SIGNED_CONTENT_MISMATCH" := by
  unfold analyze_authenticode
  split_ifs
  · decide
  · cases hlayout : hash_layout d with
    | error e=>exact of_decide_eq_true rfl
    | ok x=>
      obtain ⟨haccepts,rfl⟩:=hash_layout_ok_iff.mp hlayout
      dsimp only
      split_ifs with hnone hrange
      · exact of_decide_eq_true rfl
      · exact of_decide_eq_true rfl
      · have he : hasEntry d=true:=by
          simpa [layoutOf] using (not_or.mp hnone).1
        have hx:=(hashed_eq_specification_iff haccepts he).mpr htail
        have hoff : (layoutOf d).cert_off=(certificates d).1:=by simp [layoutOf,he]
        have hsize : (layoutOf d).cert_size=(certificates d).2:=by simp [layoutOf,he]
        rw [hoff,hsize]
        have hwalk:=walk_sound (s:={}) (q:=(certificates d).1) hx hsigned ⟨by simp,by simp⟩
          .first
        cases hw : walk sha d (layoutOf d) ((certificates d).1+(certificates d).2)
            (certificates d).1 {} with
        | mk s error=>
          rw [hw] at hwalk
          cases error with
          | some e=>exact of_decide_eq_true rfl
          | none=>exact tableState_of_agrees (nest_agrees hx hsigned hwalk)

/-- What the digest of an image covers, for every image with an entry for the Certificate
Table. -/
theorem digest_coverage (sha : Digests) :
    (∀ d x, hash_layout d=.ok x → x.security_dir_available=true → hashed d x =
          bytesAt d ((List.range d.length).filter fun i => InHeaders d i ∨ InSection d i) ∧
        (covered_parts x).Pairwise (fun r s => r.1+r.2 ≤ s.1) ∧
        (∀ r∈covered_parts x, r.1+r.2≤d.length) ∧
        (hashed d x=specification d ↔ ∀ i<d.length, ¬InTail d i)) ∧
    (∀ d d' x x', hash_layout d=.ok x → hash_layout d'=.ok x' →
      x.security_dir_available=true → ∀ i, InHeaders d i ∨ TableInside d ∧ InSection d i →
        d'[i]? ≠ d[i]? → hashed d' x'≠hashed d x) ∧
    (∀ d d' x, hash_layout d=.ok x → x.security_dir_available=true → d'.length=d.length →
      (∀ i, ¬Range.Holds (x.checksum,4) i → ¬Range.Holds (x.security_dir,8) i → d'[i]? = d[i]?) →
      ∃ x', hash_layout d'=.ok x' ∧ hashed d' x'=hashed d x) ∧
    (∀ d d' x, hash_layout d=.ok x → x.security_dir_available=true → d'.length=d.length →
      TableInside d → x.last_section_end≤x.cert_off →
      (∀ i, ¬Range.Holds (x.checksum,4) i → ¬Range.Holds (x.security_dir,8) i →
        ¬Range.Holds (x.cert_off,x.cert_size) i → d'[i]? = d[i]?) →
      ∃ x', hash_layout d'=.ok x' ∧ hashed d' x'=hashed d x) ∧
    (∀ d x, hash_layout d=.ok x → x.security_dir_available=false → ∀ pe : PeInfo,
      pe.valid=true → (analyze_authenticode sha d pe).state = "NO_EMBEDDED_SIGNATURE") ∧
    ∀ d pe, CorrectlySigned sha d → (∀ i<d.length, ¬InTail d i) →
      (analyze_authenticode sha d pe).state ≠ "SIGNED_CONTENT_MISMATCH" := by
  refine ⟨fun d x hx he=>?_,fun d d' x x' hx hx' he i hi hne heq=>?_,
    fun d d' x hx he hlength hother=>?_,fun d d' x hx he hlength hinside hbehind hother=>?_,
    fun d x hx he pe hvalid=>?_,fun d pe hsigned htail=>no_mismatch hsigned htail pe⟩
  · obtain ⟨h,rfl⟩:=hash_layout_ok_iff.mp hx
    exact ⟨hashed_eq h he,(h.parts_ascending he).disjoint,fun r hr=>h.parts_within he hr,
      hashed_eq_specification_iff h he⟩
  · obtain ⟨h,rfl⟩:=hash_layout_ok_iff.mp hx
    obtain ⟨h',rfl⟩:=hash_layout_ok_iff.mp hx'
    rcases hi with hi | ⟨hinside,hi⟩
    · exact hne ((headers_of_hashed_eq h h' he heq.symm).2.1 i hi)
    · exact hne (covered_of_hashed_eq h h' he heq.symm hinside (.inr hi))
  · obtain ⟨h,rfl⟩:=hash_layout_ok_iff.mp hx
    have he' : hasEntry d=true:=he
    simp only [layoutOf,he',if_true] at hother
    exact ⟨_,hashed_of_fields_changed h he hlength hother⟩
  · obtain ⟨h,rfl⟩:=hash_layout_ok_iff.mp hx
    have he' : hasEntry d=true:=he
    simp only [layoutOf,he',if_true] at hother hbehind
    exact ⟨_,hashed_of_certificates_changed h he hinside hbehind hlength hother⟩
  · simp [analyze_authenticode,hvalid,hx,he]

def zeros (n : ℕ) : Bytes := List.replicate n 0

/-- The headers of a small image: 164 bytes, with the section table behind them. -/
def stub (sections certOff certSize : UInt8) : Bytes :=
  [byte 'M',byte 'Z'] ++ zeros 2 ++ [byte 'P',byte 'E'] ++ zeros 4 ++ [sections,0] ++
    zeros 12 ++ [136,0] ++ zeros 2 ++ [0x0b,0x01] ++ zeros 30 ++ [4,0,0,0] ++ zeros 24 ++
    [164,0,0,0] ++ zeros 28 ++ [16,0,0,0] ++ zeros 32 ++
    [certOff,0,0,0,certSize,0,0,0]

def derOf (tag : UInt8) (content : Bytes) : Bytes := tag :: content.length.toUInt8::content

def zeroSignature : Bytes :=
  derOf 0x30 (derOf 0x06 OID_SIGNED_DATA ++ derOf 0xa0 (derOf 0x30 (derOf 0x02 [1] ++
    derOf 0x31 [] ++ derOf 0x30 (derOf 0x06 OID_SPC_INDIRECT ++ derOf 0xa0 (derOf 0x30
      (derOf 0x30 [] ++ derOf 0x30 (derOf 0x30 (derOf 0x06 OID_SHA1) ++
        derOf 0x04 (zeros 20))))) ++ derOf 0x31 (derOf 0x30 []))))

/-- Four bytes stand between the headers and the Certificate Table. -/
def tailImage : Bytes :=
  stub 0 168 88 ++ zeros 4 ++ [87,0,0,0,0,2,2,0] ++ zeroSignature ++ [0]

/-- A hash under which the signature of `tailImage` is right. -/
def tailDigests : Digests where
  sha1 b := if b = specification tailImage then zeros 20 else [1]
  sha256 _ := []

def sectionHeader (size off : UInt8) : Bytes :=
  zeros 16 ++ [size,0,0,0,off,0,0,0] ++ zeros 16

def selfImage (off : UInt8) : Bytes := stub 1 0 0 ++ sectionHeader 40 off ++ sectionHeader 40 164

def certImage (size : UInt8) : Bytes := stub 1 168 40 ++ sectionHeader size 164 ++ zeros 4

theorem getElem?_eq_of_take_eq {d d':Bytes} {n i:ℕ} (h:d'.take n=d.take n)
    (hi:i<n ∨ d.length ≤ i) (hlength:d'.length=d.length) : d'[i]? = d[i]? := by
  rcases hi with hlt | hle
  · rw [← getElem?_take_of_lt hlt,h,getElem?_take_of_lt hlt]
  · rw [getElem?_eq_none (by omega),getElem?_eq_none hle]

/-- The Certificate Table lies in a section. -/
def overlapImage (b : UInt8) : Bytes :=
  stub 1 208 4 ++ sectionHeader 8 204 ++ zeros 4 ++ [b,0,0,0]

/-- The headers end with four data directories. -/
def entrylessImage : Bytes := (stub 0 0 0).set 120 4

theorem tailImage_correctlySigned : CorrectlySigned tailDigests tailImage:=by
  have hcertificates : certificates tailImage=(168,88):=by decide +kernel
  have hlength : field 4 tailImage 168=87:=by decide +kernel
  have honly : ∀q,CertificateAt tailImage 168 (168+88) q → q=168:=by
    intro q hq
    induction hq with
    | first h=>rfl
    | next hq h ih=>
      rw [ih,hlength,aligned] at h
      omega
  have hnested : (collect_nested_signature_blobs zeroSignature).blobs=[]:=by decide +kernel
  have hblob : ∀blob,SignatureBlob tailImage 168 (168+88) blob → blob=zeroSignature:=by
    intro blob h
    induction h with
    | table hq htype=>
      rw [honly _ hq,hlength]
      decide +kernel
    | nested hblob hn ih=>
      rw [ih,hnested] at hn
      cases hn
  have hspc : parse_spc_digest zeroSignature =
      .ok {algorithm:=.sha1,digest:=zeros 20,signer_count:=1}:=by decide +kernel
  intro blob h spc hparse
  rw [hcertificates] at h
  rw [hblob blob h,hspc] at hparse
  obtain rfl:=Except.ok.inj hparse
  exact ⟨fun _=>by simp [tailDigests],fun halg=>by cases halg⟩

/-- Bytes in front of the Certificate Table are not hashed, so that a right signature is called
a mismatch; a section table outside the headers can be covered without being decided, or be
changed with the certificates; certificates can lie in a section; and nothing is hashed where
no directory entry says where the certificates are. -/
theorem digest_coverage_gaps : (hashed tailImage (layoutOf tailImage)≠specification tailImage ∧
      CorrectlySigned tailDigests tailImage ∧
      (analyze_authenticode tailDigests tailImage {valid:=true}).state =
        "SIGNED_CONTENT_MISMATCH") ∧
    ((selfImage 204)[184]? ≠ (selfImage 164)[184]? ∧ InSection (selfImage 164) 184 ∧
      hash_layout (selfImage 164)=.ok (layoutOf (selfImage 164)) ∧
      hash_layout (selfImage 204)=.ok (layoutOf (selfImage 204)) ∧
      hashed (selfImage 204) (layoutOf (selfImage 204)) =
        hashed (selfImage 164) (layoutOf (selfImage 164))) ∧
    (∀i, ¬(certificates (certImage 0)).Holds i → (certImage 4)[i]? = (certImage 0)[i]?) ∧
      hash_layout (certImage 0)=.ok (layoutOf (certImage 0)) ∧
      hash_layout (certImage 4)=.ok (layoutOf (certImage 4)) ∧
      hashed (certImage 4) (layoutOf (certImage 4)) ≠
        hashed (certImage 0) (layoutOf (certImage 0)) ∧
    ((∀i, ¬(certificates (overlapImage 0)).Holds i → (overlapImage 1)[i]? = (overlapImage 0)[i]?) ∧
      hash_layout (overlapImage 0)=.ok (layoutOf (overlapImage 0)) ∧
      hash_layout (overlapImage 1)=.ok (layoutOf (overlapImage 1)) ∧
      hashed (overlapImage 1) (layoutOf (overlapImage 1)) ≠
        hashed (overlapImage 0) (layoutOf (overlapImage 0))) ∧
    hash_layout entrylessImage=.ok (layoutOf entrylessImage) ∧
      hashed entrylessImage (layoutOf entrylessImage)≠specification entrylessImage:=by
  refine ⟨⟨by decide +kernel,tailImage_correctlySigned,by decide +kernel⟩,
    ⟨by decide +kernel,by decide +kernel,by decide +kernel,by decide +kernel,
      by decide +kernel⟩,fun i hi=>?_,by decide +kernel,by decide +kernel,
    by decide +kernel,⟨fun i hi=>?_,by decide +kernel,by decide +kernel,
      by decide +kernel⟩,by decide +kernel,by decide +kernel⟩
  · have hrange : certificates (certImage 0)=(168,40):=by decide +kernel
    rw [hrange,Range.Holds] at hi
    exact getElem?_eq_of_take_eq (n:=168) (by decide +kernel)
      (by have hlength:(certImage 0).length=208:=by decide +kernel
          omega) (by decide +kernel)
  · have hrange : certificates (overlapImage 0)=(208,4):=by decide +kernel
    rw [hrange,Range.Holds] at hi
    exact getElem?_eq_of_take_eq (n:=208) (by decide +kernel)
      (by have hlength:(overlapImage 0).length=212:=by decide +kernel
          omega) (by decide +kernel)

end AutoRefirst.Authenticode
