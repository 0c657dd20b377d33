import AutoRefirst.ArchivePaths
import AutoRefirst.ByteRanges
import AutoRefirst.FileTree
import AutoRefirst.Spans
import AutoRefirst.Utf8Check

/-!
# .NET single-file bundles

The manifest of a bundle behind the executable that hosts it.
-/

namespace AutoRefirst.DotNetBundle
open List

open ByteRanges Fallible Spans PathStyle

structure DotNetBundleEntry where
  (index offset size compressed_size stored_size type : ℕ)
  compressed : Bool
  type_name : String
  relative_path : Bytes
deriving DecidableEq

structure DotNetBundleInfo where
  (candidate valid : Bool := false)
  state : String := "NOT_PRESENT"
  error : String := ""
  (locator_offset header_offset manifest_end trailing_bytes major_version minor_version file_count
    : ℕ := 0)
  bundle_id : Bytes := []
  (deps_json_offset deps_json_size runtimeconfig_json_offset runtimeconfig_json_size flags
    stored_bytes uncompressed_bytes compressed_file_count : ℕ := 0)
  integrity_state : String := "NOT_AVAILABLE_IN_FORMAT"
  entries : List DotNetBundleEntry := []

def k_bundle_signature : Bytes :=
  [0x8b,0x12,0x02,0xb9,0x6a,0x61,0x20,0x38,0x72,0x7b,0x93,0x02,0x14,0xd7,0xa0,0x32,
    0x13,0xf5,0xb9,0xe6,0xef,0xae,0x33,0x18,0xee,0x3b,0x2d,0xce,0x24,0xb3,0x6a,0xae]

def k_max_entries : ℕ := 4096

def k_max_path : ℕ := 4096

def bundle_fail (i : DotNetBundleInfo) (e : String) : DotNetBundleInfo :=
  {i with valid:=false,state := "FAILED",error:=e}

/-- UTF-8 without a NUL. -/
def utf8_valid (s : Bytes) : Bool := !s.any (· == 0) && isUtf8 s

/-- A component of a safe path. -/
def safe_part (part : Bytes) : Bool :=
  !(part == [] || part == bytes "." || part == bytes "..") && part.all fun c => 0x20 ≤ c && c != 0x7f

def safe_relative_path (s : Bytes) : Bool :=
  !(s == [] || k_max_path < s.length || s.head? == some (byte '/') ||
    s.getLast? == some (byte '/') || !utf8_valid s) &&
  !(s.any fun c => c == byte '\\' || c == byte ':') &&
  (s.splitOnP fun c => c == byte '/').all safe_part

def read (d : Bytes) (p w : ℕ) : Except String ℕ :=
  if p+w ≤ d.length then .ok (littleEndian (slice d (p,w))) else .error "manifest is truncated"

def path (d : Bytes) (p : ℕ) : Except String (Bytes×ℕ) := do
  let a ← read d p 1
  let long := a &&& 0x80 ≠ 0
  let b ← if long then read d (p+1) 1 else pure 0
  rejectIf (b &&& 0x80 ≠ 0) "path length encoding exceeds two bytes"
  let n := a &&& 0x7f ||| b <<< 7
  let p := if long then p+2 else p+1
  rejectIf (n = 0 ∨ n > k_max_path) "path length is zero or exceeds the bounded limit"
  rejectIf (p+n > d.length) "path string is truncated"
  pure (slice d (p,n),p + n)

def type_name (t : ℕ) : String :=
  ["unknown","assembly","native_binary","deps_json","runtimeconfig_json","symbols"].getD t
    "invalid"

/-- The loop over the entries: what is reported so far, and where the manifest goes on. -/
structure Manifest where
  out : DotNetBundleInfo
  p : ℕ
  paths : List Bytes := []
  spans : List (ℕ×ℕ) := []
  (deps config : Option (ℕ×ℕ) := none)

/-- What is reported so far, and why it is refused. -/
abbrev Refusal := DotNetBundleInfo×String

def orFail {α : Type} (out : DotNetBundleInfo) (x : Except String α) : Except Refusal α :=
  x.mapError fun e => (out,e)

/-- The highest bit of a number of 64 bits. -/
def negative (v : ℕ) : Prop := 2^63≤v

instance : DecidablePred negative := fun _ => inferInstanceAs (Decidable (_ ≤ _))

def entryOf (index offset size compressed_size type : ℕ) (relative_path : Bytes) :
    DotNetBundleEntry :=
  let compressed := decide (compressed_size ≠ 0)
  { index,offset,size,compressed_size
    stored_size := if compressed then compressed_size else size
    type,compressed,type_name:=type_name type,relative_path }

/-- The third number of an entry is there from version 6 on. -/
def compressedSize (d : Bytes) (major_version p : ℕ) : Except String ℕ :=
  if major_version ≥ 6 then read d p 8 else .ok 0

def manifest_entry (d : Bytes) (stop : ℕ) (m : Manifest) (i : ℕ) : Except Refusal Manifest := do
  let out := m.out
  let offset ← orFail out (read d m.p 8)
  let size ← orFail out (read d (m.p+8) 8)
  let compressed_size ← orFail out (compressedSize d out.major_version (m.p+16))
  let p := if out.major_version ≥ 6 then m.p+24 else m.p+16
  rejectIf (negative offset ∨ negative size ∨ negative compressed_size)
    (out,"bundle entry contains a negative signed value")
  let type ← (read d p 1).mapError fun _ => (out,"bundle entry has an unknown file type")
  rejectIf (type ≥ 6) (out,"bundle entry has an unknown file type")
  let named ← orFail out (path d (p+1))
  let entry := entryOf i offset size compressed_size type named.1
  rejectIf (safe_relative_path entry.relative_path = false)
    (out,"bundle entry path is not strict normalized relative UTF-8")
  rejectIf (entry.relative_path ∈ m.paths)
    (out,"bundle manifest contains a duplicate normalized path")
  rejectIf (entry.offset = 0) (out,"bundle entry offset is zero")
  rejectIf (entry.compressed = true ∧ (out.major_version < 6 ∨ entry.size = 0 ∨
    entry.compressed_size ≥ entry.size)) (out,"compressed bundle entry has invalid size geometry")
  rejectIf (2^64 ≤ entry.offset+entry.stored_size ∨ entry.offset < stop ∨
      entry.offset + entry.stored_size > out.header_offset)
    (out,"bundle entry span is outside the embedded-data region")
  rejectIf (2^64 ≤ out.stored_bytes+entry.stored_size)
    (out,"bundle aggregate byte count overflow")
  let out := {out with stored_bytes:=out.stored_bytes+entry.stored_size}
  rejectIf (2^64 ≤ out.uncompressed_bytes+entry.size)
    (out,"bundle aggregate byte count overflow")
  let out := { out with
    uncompressed_bytes:=out.uncompressed_bytes+entry.size
    compressed_file_count:=out.compressed_file_count + if entry.compressed then 1 else 0 }
  rejectIf (entry.type = 3 ∧ m.deps.isSome = true)
    (out,"bundle has multiple deps.json manifest entries")
  rejectIf (entry.type = 4 ∧ m.config.isSome = true)
    (out,"bundle has multiple runtimeconfig.json manifest entries")
  pure
    { out:={out with entries:=out.entries++[entry]},p:=named.2,paths:=m.paths++[entry.relative_path]
      spans:=m.spans++[(entry.offset,entry.offset+entry.stored_size)]
      deps := if entry.type = 3 then some (entry.offset,entry.size) else m.deps
      config := if entry.type = 4 then some (entry.offset,entry.size) else m.config }

def cached_ok (off size : ℕ) (entry : Option (ℕ×ℕ)) : Bool :=
  match entry with
  | some e => off == e.1 && size == e.2
  | none => off == 0 && size == 0

/-- The version, the number of entries, the id and the cached locations, and where they end. -/
def manifest_header (d : Bytes) (out : DotNetBundleInfo) : Except Refusal (DotNetBundleInfo×ℕ) := do
  let p := out.header_offset
  let major_version ← orFail out (read d p 4)
  let out := {out with major_version}
  let minor_version ← orFail out (read d (p+4) 4)
  let out := {out with minor_version}
  let count ← orFail out (read d (p+8) 4)
  rejectIf (¬((major_version = 2 ∨ major_version = 6) ∧ minor_version = 0))
    (out,"unsupported or unknown bundle manifest version")
  rejectIf (count = 0 ∨ count > k_max_entries)
    (out,"bundle entry count is zero or exceeds the bounded limit")
  let out := {out with file_count:=count}
  let id ← orFail out (path d (p+12))
  let out := {out with bundle_id:=id.1}
  rejectIf (id.1.length ≠ 12 ∨
      (id.1.all fun c => Wxapkg.isAlnum c || c == byte '-' || c == byte '_') = false)
    (out,"bundle ID is not the official 12-byte base64url form")
  let q := id.2
  let deps_json_offset ← orFail out (read d q 8)
  let out := {out with deps_json_offset}
  let deps_json_size ← orFail out (read d (q+8) 8)
  let out := {out with deps_json_size}
  let runtimeconfig_json_offset ← orFail out (read d (q+16) 8)
  let out := {out with runtimeconfig_json_offset}
  let runtimeconfig_json_size ← orFail out (read d (q+24) 8)
  let out := {out with runtimeconfig_json_size}
  let flags ← orFail out (read d (q+32) 8)
  let out := {out with flags}
  rejectIf (negative deps_json_offset ∨ negative deps_json_size ∨
      negative runtimeconfig_json_offset ∨ negative runtimeconfig_json_size)
    (out,"cached JSON location contains a negative signed value")
  rejectIf (flags > 1) (out,"bundle header contains unknown flags")
  pure (out,q+40)

/-- Where the locator signature stands. -/
def signatures (d : Bytes) : List ℕ :=
  (List.range (d.length+1-k_bundle_signature.length)).filter fun i =>
    slice d (i,k_bundle_signature.length) == k_bundle_signature

def locator (d : Bytes) (pe_valid elf_valid : Bool) (out : DotNetBundleInfo) (sig : ℕ) :
    Except Refusal DotNetBundleInfo := do
  rejectIf (sig < 8)
    (out,"bundle locator signature has no preceding header offset")
  let out := {out with locator_offset:=sig-8}
  rejectIf (pe_valid = false ∧ elf_valid = false)
    (out,"bundle locator is not inside a validated PE or ELF image")
  let raw_header := littleEndian (slice d (sig-8,8))
  rejectIf (negative raw_header ∨ raw_header = 0 ∨ raw_header ≥ d.length)
    (out,"bundle header offset is invalid")
  let out := {out with header_offset:=raw_header}
  rejectIf (raw_header ≤ sig+k_bundle_signature.length)
    (out,"bundle header does not follow the complete apphost locator")
  pure out

/-- What is left to check after the entries. -/
def manifest_end (d : Bytes) (m : Manifest) : Except Refusal DotNetBundleInfo := do
  let out := m.out
  rejectIf (overlaps m.spans = true) (out,"bundle entry spans overlap")
  rejectIf (cached_ok out.deps_json_offset out.deps_json_size m.deps = false ∨
      cached_ok out.runtimeconfig_json_offset out.runtimeconfig_json_size m.config = false)
    (out,"cached JSON locations do not exactly match unique manifest entries")
  let out := { out with
    manifest_end:=m.p,trailing_bytes:=d.length-m.p,valid:=true
    integrity_state :=
      if out.compressed_file_count ≠ 0 then
        "MEMBER_METADATA_ONLY_COMPRESSED_CONTENT_NOT_VALIDATED"
      else "FORMAT_HAS_NO_PER_ENTRY_CRC_OR_HASH" }
  if out.trailing_bytes ≠ 0 then
    pure {out with state := "PARTIAL",error := "validated manifest has unexplained trailing bytes"}
  else pure {out with state := "CONFIRMED"}

def manifest (d : Bytes) (pe_valid elf_valid : Bool) (out : DotNetBundleInfo) (sig : ℕ) :
    Except Refusal DotNetBundleInfo := do
  let out ← locator d pe_valid elf_valid out sig
  let header ← manifest_header d out
  let m ← (List.range header.1.file_count).foldlM
    (manifest_entry d (sig+k_bundle_signature.length)) {out:=header.1,p:=header.2}
  manifest_end d m

def detect_dotnet_bundle (d : Bytes) (pe_valid elf_valid : Bool) : DotNetBundleInfo :=
  match signatures d with
  | [] => {}
  | [sig] =>
    match manifest d pe_valid elf_valid {candidate:=true} sig with
    | .ok out => out
    | .error (out,e) => bundle_fail out e
  | _ :: _::_ =>
    bundle_fail {candidate:=true} "bundle locator signature is not unique"

/-- A relative path of plain names, in UTF-8. -/
structure SafeRelative (s : Bytes) : Prop where
  utf8 : isUtf8 s = true
  short : s.length≤k_max_path
  bytes_ok : ∀ c∈s, c≠0 ∧ c≠byte '\\' ∧ c≠byte ':'
  nonempty : s≠[]
  relative_head : s.head? ≠ some (byte '/')
  parts : ∀ part∈s.splitOnP (fun c => c == byte '/'),
    part ≠ [] ∧ part≠bytes "." ∧ part≠bytes ".."

def Cached (info : DotNetBundleInfo) (type off size : ℕ) : Prop :=
  (info.entries.filter fun e => e.type=type) = [] ∧ off=0 ∧ size=0 ∨
    ∃ e, (info.entries.filter fun e => e.type=type)=[e] ∧ e.offset=off ∧ e.size=size

structure Sound (d : Bytes) (info : DotNetBundleInfo) : Prop where
  /-- The signature behind the locator is there, and nowhere else. -/
  located : signatures d = [info.locator_offset+8]
  entries : info.entries≠[]
  paths : ∀ e∈info.entries, SafeRelative e.relative_path
  distinct : (info.entries.map (·.relative_path)).Nodup
  stored : ∀ e∈info.entries, e.stored_size = if e.compressed then e.compressed_size else e.size
  between : ∀ e∈info.entries, info.locator_offset+40≤e.offset ∧
    e.offset + e.stored_size ≤ info.header_offset
  inside : info.header_offset<d.length ∧ info.header_offset<2^63
  apart : (info.entries.map fun e => (e.offset,e.offset+e.stored_size)).Pairwise Apart
  stored_sum : info.stored_bytes=(info.entries.map (·.stored_size)).sum
  size_sum : info.uncompressed_bytes=(info.entries.map (·.size)).sum
  no_wrap : info.stored_bytes<2^64 ∧ info.uncompressed_bytes<2^64
  deps : Cached info 3 info.deps_json_offset info.deps_json_size
  config : Cached info 4 info.runtimeconfig_json_offset info.runtimeconfig_json_size

variable {d : Bytes} {info : DotNetBundleInfo}

theorem safeRelative_of_check {s:Bytes} (h:safe_relative_path s=true) : SafeRelative s:=by
  simp only [safe_relative_path,Bool.and_eq_true,Bool.not_eq_true',Bool.or_eq_false_iff,
    any_eq_false,all_eq_true,decide_eq_false_iff_not,beq_eq_false_iff_ne,
    Bool.not_eq_false'] at h
  obtain ⟨⟨⟨⟨⟨⟨hnonempty,hshort⟩,hhead⟩,-⟩,hutf8⟩,hbytes⟩,hparts⟩:=h
  simp only [utf8_valid,Bool.and_eq_true,Bool.not_eq_true',any_eq_false] at hutf8
  refine ⟨hutf8.2,Nat.le_of_not_lt hshort,fun c hc=>?_,hnonempty,hhead,fun part hpart=>?_⟩
  · have hzero:=hutf8.1 c hc
    have hplain:=hbytes c hc
    simp only [Bool.or_eq_true,beq_iff_eq,not_or] at hzero hplain
    exact ⟨hzero,hplain⟩
  · have hpart:=hparts part hpart
    simp only [safe_part,Bool.and_eq_true,Bool.not_eq_true',Bool.or_eq_false_iff,
      beq_eq_false_iff_ne] at hpart
    exact ⟨hpart.1.1.1,hpart.1.1.2,hpart.1.2⟩

variable {out : DotNetBundleInfo}

theorem orFail_eq_ok {α:Type} {x:Except String α} {a:α} : orFail out x=.ok a ↔ x=.ok a:=by
  cases x <;> simp [orFail,Except.mapError]

/-- The header of a report: what the loop over the entries does not touch. -/
def SameHeader (a b : DotNetBundleInfo) : Prop :=
  a.locator_offset = b.locator_offset ∧ a.header_offset=b.header_offset ∧
    a.deps_json_offset = b.deps_json_offset ∧ a.deps_json_size=b.deps_json_size ∧
    a.runtimeconfig_json_offset = b.runtimeconfig_json_offset ∧
    a.runtimeconfig_json_size = b.runtimeconfig_json_size ∧ a.file_count=b.file_count

/-- What the loop keeps: the tables next to the entries agree with them, and each entry passed its
checks. -/
structure Keeps (stop : ℕ) (start : DotNetBundleInfo) (n : ℕ) (m : Manifest) : Prop where
  header : SameHeader m.out start
  count : m.out.entries.length=n
  names : m.paths=m.out.entries.map (·.relative_path)
  distinct : m.paths.Nodup
  paths : ∀ e∈m.out.entries, SafeRelative e.relative_path
  spans : m.spans = m.out.entries.map fun e => (e.offset,e.offset+e.stored_size)
  stored : ∀ e∈m.out.entries, e.stored_size = if e.compressed then e.compressed_size else e.size
  between : ∀ e∈m.out.entries, stop≤e.offset ∧ e.offset+e.stored_size ≤ start.header_offset
  nonzero : ∀ e∈m.out.entries, e.offset≠0
  stored_sum : m.out.stored_bytes=(m.out.entries.map (·.stored_size)).sum
  size_sum : m.out.uncompressed_bytes=(m.out.entries.map (·.size)).sum
  no_wrap : m.out.stored_bytes<2^64 ∧ m.out.uncompressed_bytes<2^64
  deps : ((m.out.entries.filter fun e => e.type=3).map fun e => (e.offset,e.size)) =
    m.deps.toList
  config : ((m.out.entries.filter fun e => e.type=4).map fun e => (e.offset,e.size)) =
    m.config.toList

theorem one_of_type {l:List DotNetBundleEntry} {e:DotNetBundleEntry} {type:ℕ}
    {seen:Option (ℕ×ℕ)}
    (h:((l.filter fun e=>e.type=type).map fun e=>(e.offset,e.size))=seen.toList)
    (hone:¬(e.type=type ∧ seen.isSome=true)) :
    (((l++[e]).filter fun e=>e.type=type).map fun e=>(e.offset,e.size)) =
      (if e.type = type then some (e.offset,e.size) else seen).toList:=by
  rw [filter_append,map_append,h]
  by_cases htype : e.type=type
  · have hnone : seen=none:=by
      cases seen with
      | none=>rfl
      | some x=>exact absurd ⟨htype,rfl⟩ hone
    simp [htype,hnone]
  · simp [htype]

variable {stop : ℕ}

theorem manifest_entry_keeps {n i:ℕ} {start:DotNetBundleInfo} {m m':Manifest}
    (h:Keeps stop start n m) (hstep:manifest_entry d stop m i=.ok m') :
    Keeps stop start (n+1) m':=by
  simp only [manifest_entry,↓rejectIf_bind,bind_eq_ok,orFail_eq_ok,pure_eq_ok] at hstep
  obtain ⟨offset,-,size,-,compressed_size,-,-,type,-,-,named,-,hsafe,hnew,hnonzero,-,
    hspan,hstored,hsize,hdeps,hconfig,rfl⟩:=hstep
  generalize hentry : entryOf i offset size compressed_size type named.1 = entry at *
  have hall : ∀ {P:DotNetBundleEntry→Prop},(∀e∈m.out.entries,P e) → P entry →
      ∀e∈m.out.entries++[entry],P e:=by
    intro P hold hlast e he
    rcases mem_append.mp he with hmem | hmem
    · exact hold e hmem
    · exact mem_singleton.mp hmem▸hlast
  have hfield : entry.stored_size =
      if entry.compressed then entry.compressed_size else entry.size:=by
    rw [← hentry]
    rfl
  constructor
  case header=>exact h.header
  case count=>simp [h.count]
  case names=>simp [h.names]
  case distinct=>
    exact nodup_append.mpr ⟨h.distinct,nodup_singleton _,fun x hx y hy heq=>
      hnew (mem_singleton.mp hy▸heq▸hx)⟩
  case paths=>exact hall h.paths (safeRelative_of_check (by simpa using hsafe))
  case spans=>simp [h.spans]
  case stored=>exact hall h.stored hfield
  case between=>
    have hheader:=h.header.2.1
    exact hall h.between ⟨by omega,by omega⟩
  case nonzero=>exact hall h.nonzero hnonzero
  case stored_sum=>simp [h.stored_sum]
  case size_sum=>simp [h.size_sum]
  case no_wrap=>exact ⟨Nat.lt_of_not_le hstored,Nat.lt_of_not_le hsize⟩
  case deps=>exact one_of_type h.deps hdeps
  case config=>exact one_of_type h.config hconfig

theorem cached_of_ok {off size type:ℕ} {seen:Option (ℕ×ℕ)}
    (hseen:((info.entries.filter fun e=>e.type=type).map fun e=>(e.offset,e.size)) =
      seen.toList)
    (h:cached_ok off size seen=true) : Cached info type off size:=by
  cases seen with
  | none=>
    refine .inl ⟨map_eq_nil_iff.mp hseen,?_⟩
    simpa [cached_ok] using h
  | some x=>
    obtain ⟨e,hfilter,hx⟩:=map_eq_singleton_iff.mp hseen
    obtain ⟨rfl,rfl⟩ : off=x.1 ∧ size=x.2:=by simpa [cached_ok] using h
    exact .inr ⟨e,hfilter,by rw [← hx],by rw [← hx]⟩

theorem manifest_end_spec {m:Manifest} {n:ℕ} {start:DotNetBundleInfo}
    (h:Keeps stop start n m) (hend:manifest_end d m=.ok info) :
    info.entries=m.out.entries ∧ SameHeader info start ∧ info.stored_bytes=m.out.stored_bytes ∧
      info.uncompressed_bytes=m.out.uncompressed_bytes ∧ overlaps m.spans=false ∧
      Cached info 3 info.deps_json_offset info.deps_json_size ∧
      Cached info 4 info.runtimeconfig_json_offset info.runtimeconfig_json_size:=by
  simp only [manifest_end,rejectIf_bind] at hend
  obtain ⟨hoverlaps,hcached,hend⟩:=hend
  simp only [not_or,Bool.not_eq_false] at hcached
  have hinfo : info.entries=m.out.entries ∧ SameHeader info m.out ∧
      info.stored_bytes=m.out.stored_bytes ∧
      info.uncompressed_bytes=m.out.uncompressed_bytes:=by
    split at hend <;> obtain rfl:=pure_eq_ok.mp hend <;>
      exact ⟨rfl,⟨rfl,rfl,rfl,rfl,rfl,rfl,rfl⟩,rfl,rfl⟩
  obtain ⟨hentries,hsame,hstored,hsize⟩:=hinfo
  obtain ⟨hlocator,hheader,hdeps,hdepsSize,hconfig,hconfigSize,hcount⟩:=hsame
  obtain ⟨hlocator',hheader',hdeps',hdepsSize',hconfig',hconfigSize',hcount'⟩:=h.header
  rw [← hdeps,← hdepsSize,← hconfig,← hconfigSize] at hcached
  refine ⟨hentries,⟨by omega,by omega,by omega,by omega,by omega,by omega,by omega⟩,hstored,
    hsize,Bool.eq_false_iff.mpr hoverlaps,?_,?_⟩
  · exact cached_of_ok (hentries▸h.deps) hcached.1
  · exact cached_of_ok (hentries▸h.config) hcached.2

variable {pe_valid elf_valid : Bool}

theorem locator_spec {sig:ℕ} (h:locator d pe_valid elf_valid out sig=.ok info) :
    8 ≤ sig ∧ info = {out with locator_offset:=sig-8,header_offset:=info.header_offset} ∧
      info.header_offset<d.length ∧ info.header_offset<2^63:=by
  simp only [locator,↓rejectIf_bind,pure_eq_ok] at h
  obtain ⟨hsig,-,hheader,-,rfl⟩:=h
  simp only [negative] at hheader
  exact ⟨by omega,rfl,by dsimp only;omega,by dsimp only;omega⟩

theorem manifest_header_spec {r:DotNetBundleInfo×ℕ} (h:manifest_header d out=.ok r) :
    r.1.locator_offset=out.locator_offset ∧ r.1.header_offset=out.header_offset ∧
      r.1.entries=out.entries ∧ r.1.stored_bytes=out.stored_bytes ∧
      r.1.uncompressed_bytes=out.uncompressed_bytes ∧ 0 < r.1.file_count:=by
  simp only [manifest_header,↓rejectIf_bind,bind_eq_ok,orFail_eq_ok,pure_eq_ok] at h
  obtain ⟨_,-,_,-,_,-,-,hcount,_,-,-,_,-,_,-,_,-,_,-,_,-,-,-,rfl⟩:=h
  exact ⟨rfl,rfl,rfl,rfl,rfl,by dsimp only;omega⟩

theorem keeps_start {p:ℕ} (hentries:out.entries=[]) (hstored:out.stored_bytes=0)
    (hsize:out.uncompressed_bytes=0) :
    Keeps stop out 0 { out, p }:=by
  constructor <;> simp [hentries,hstored,hsize,SameHeader]

theorem manifest_of_valid (h:(detect_dotnet_bundle d pe_valid elf_valid).valid=true) :
    ∃sig,signatures d=[sig] ∧ manifest d pe_valid elf_valid {candidate:=true} sig =
      .ok (detect_dotnet_bundle d pe_valid elf_valid):=by
  unfold detect_dotnet_bundle at h ⊢
  split at h
  · cases h
  · rename_i sig hsigs
    refine ⟨sig,hsigs,?_⟩
    split at h
    · rename_i hrun
      simp [hrun]
    · cases h
  · cases h

theorem detect_sound (h:(detect_dotnet_bundle d pe_valid elf_valid).valid=true) :
    Sound d (detect_dotnet_bundle d pe_valid elf_valid):=by
  obtain ⟨sig,hsigs,hrun⟩:=manifest_of_valid h
  generalize detect_dotnet_bundle d pe_valid elf_valid = info at hrun
  simp only [manifest,bind_eq_ok] at hrun
  obtain ⟨out,hlocator,header,hheader,m,hloop,hend⟩:=hrun
  obtain ⟨hsig,hout,hin,hsmall⟩:=locator_spec hlocator
  obtain ⟨hloc,hoff,hentries,hstored,hsize,hcount⟩:=manifest_header_spec hheader
  have hkeeps:=foldlM_range (P:=Keeps (sig+k_bundle_signature.length) header.1)
    (fun n _ m hm m' hm'=>manifest_entry_keeps hm hm')
    (keeps_start (by rw [hentries,hout]) (by rw [hstored,hout]) (by rw [hsize,hout])) hloop
  obtain ⟨hinfo,hsame,hstoredSum,hsizeSum,hoverlaps,hdeps,hconfig⟩:=manifest_end_spec hkeeps hend
  have hstart : info.locator_offset+8=sig:=by
    rw [hsame.1,hloc,hout]
    dsimp only
    omega
  have hheaderOffset : info.header_offset=out.header_offset:=hsame.2.1.trans hoff
  have hlength : k_bundle_signature.length=32:=rfl
  have hspans:=pairwise_apart (fun a ha=>by
    rw [hkeeps.spans] at ha
    obtain ⟨e,-,rfl⟩:=mem_map.mp ha
    exact Nat.le_add_right _ _) hoverlaps
  rw [hkeeps.spans] at hspans
  constructor
  case located=>rw [hsigs,hstart]
  case entries=>
    rw [hinfo]
    intro hnil
    have hzero:=hkeeps.count
    rw [hnil,length_nil] at hzero
    omega
  case paths=>exact hinfo▸hkeeps.paths
  case distinct=>
    rw [hinfo,← hkeeps.names]
    exact hkeeps.distinct
  case stored=>exact hinfo▸hkeeps.stored
  case between=>
    rw [hinfo]
    intro e he
    have hspan:=hkeeps.between e he
    omega
  case inside=>omega
  case apart=>exact hinfo▸hspans
  case stored_sum=>rw [hstoredSum,hkeeps.stored_sum,hinfo]
  case size_sum=>rw [hsizeSum,hkeeps.size_sum,hinfo]
  case no_wrap=>
    rw [hstoredSum,hsizeSum]
    exact hkeeps.no_wrap
  case deps=>exact hdeps
  case config=>exact hconfig

end AutoRefirst.DotNetBundle

/-!
## Extraction of .NET bundle members

The loop that writes the stored members of a bundle below an output directory.
-/

namespace AutoRefirst
open List

structure StreamTree (σ : Type) extends FileTree σ where
  flush : σ → DiskPath → Bool×σ
  fileSize : σ → DiskPath → Option ℕ
  flush_content : ∀ s p, (flush s p).1=true →
    content (flush s p).2 p = some (given s p) ∧ given (flush s p).2 p = given s p
  flush_other : ∀ s p q, q≠p → content (flush s p).2 q = content s q
  /-- Closing a file that holds nothing back leaves what is on the disk. -/
  close_flushed : ∀ s p, content s p = some (given s p) →
    content (close s p).2 p = some (given s p)

/-- The tree in memory; a flush writes what is held back, where there is room. -/
def MemoryTree.stream (room : Bool) : StreamTree MemoryTree where
  toFileTree := tree room
  flush := (tree room).close
  fileSize := fun s p => (content s p).map List.length
  flush_content := by
    intro s p h
    refine ⟨(tree room).close_content s p h,?_⟩
    simp only [tree]
    split <;> rfl
  flush_other := fun s p q hq => ((tree room).close_other s p q hq).1
  close_flushed := by
    intro s p h
    by_cases hroom : (room && !s.directories p) = true
    · exact (tree room).close_content s p (by simp only [tree,hroom,if_true])
    · simp only [tree,hroom] at h ⊢
      exact h

namespace DotNetBundle

open ByteRanges PathStyle

structure DotNetBundleExtractResult where
  (success core_only budget_exhausted : Bool := false)
  output_dir : Bytes := []
  (file_count omitted_count compressed_omitted_count output_bytes omitted_bytes : ℕ := 0)
  files : List Bytes := []
  warnings : List String := []
  error : String := ""

structure BundleRun (σ : Type) where
  disk : σ
  out : DotNetBundleExtractResult
  output_keys : List Bytes := []

variable {σ : Type}

def note_bundle_warning (t : BundleRun σ) (text : String) : BundleRun σ :=
  if t.out.warnings.length < 128 then
    {t with out:={t.out with warnings:=t.out.warnings++[text]}}
  else t

def omitEntry (t : BundleRun σ) (size : ℕ) : BundleRun σ :=
  { t with out:={ t.out with
      omitted_count:=t.out.omitted_count+1,omitted_bytes:=Word64.satAdd t.out.omitted_bytes size } }

def refuse (t : BundleRun σ) (disk : σ) (text : String) (size : ℕ) : BundleRun σ :=
  omitEntry (note_bundle_warning {t with disk} text) size

def bundle_priority (e : DotNetBundleEntry) : ℕ :=
  if e.type = 3 ∨ e.type = 4 then 1000
  else if e.type = 1 then 900
  else if e.type = 2 then 850
  else if e.type = 5 then 600
  else 100

/-- The directories on the way, made where they are missing. -/
def bundle_path_component_safe (D : StreamTree σ) (style : PathStyle) :
    σ → Bytes → List Bytes → Option String×σ
  | s, _, [] => (none,s)
  | s, current, part::rest =>
    let current := append style current part
    match D.status s (located style current) with
    | .error e => (some ("cannot inspect .NET bundle output path: "++e),s)
    | .ok (some .symlink) =>
      (some ("refusing .NET bundle output symlink: "++textOf current),s)
    | .ok (some .directory) => bundle_path_component_safe D style s current rest
    | .ok (some _) =>
      (some ("refusing non-directory .NET bundle output component: "++textOf current),s)
    | .ok none =>
      let made := D.createDirectory s (located style current)
      match made.1 with
      | some e => (some ("cannot create .NET bundle output directory: "++e),made.2)
      | none => bundle_path_component_safe D style made.2 current rest

def target (style : PathStyle) (output_dir : Bytes) (e : DotNetBundleEntry) : Bytes :=
  append style output_dir e.relative_path

def place (style : PathStyle) (output_dir : Bytes) (e : DotNetBundleEntry) : DiskPath :=
  located style (target style output_dir e)

def storedBytes (data : Bytes) (e : DotNetBundleEntry) : Bytes := slice data (e.offset,e.stored_size)

variable (D : StreamTree σ) (style : PathStyle) (data output_dir : Bytes)

def write_member (t : BundleRun σ) (e : DotNetBundleEntry) : BundleRun σ :=
  let path := target style output_dir e
  let p := place style output_dir e
  let opened := D.create t.disk p
  if opened.1 = false then
    refuse t opened.2 ("cannot create .NET bundle member output: "++textOf path) e.size
  else
    let wrote := D.write opened.2 p (slice data (e.offset,e.size))
    let flushed := if wrote.1 then D.flush wrote.2 p else wrote
    let closed := D.close flushed.2 p
    if flushed.1 = false then
      refuse t (D.remove closed.2 p).2
        (".NET bundle member output write failed: "++textOf path) e.size
    else if D.fileSize closed.2 p ≠ some e.size then
      refuse t (D.remove closed.2 p).2
        (".NET bundle member output size mismatch: "++textOf path) e.size
    else
      { t with
        disk:=closed.2
        out:={ t.out with
          files:=t.out.files++[path],file_count:=t.out.file_count+1
          output_bytes:=Word64.satAdd t.out.output_bytes e.size } }

/-- Whether something that is no file stands at a place. -/
def nonRegular (s : σ) (p : DiskPath) : Bool :=
  match D.status s p with
  | .ok (some k) => k != .regular
  | _ => false

def output_key (e : DotNetBundleEntry) : Bytes :=
  if style = windows then lower e.relative_path else e.relative_path

/-- One turn of the loop. -/
def extract_entry
    (max_output_bytes max_output_files : ℕ) (t : BundleRun σ) (e : DotNetBundleEntry) :
    BundleRun σ :=
  if e.offset > data.length ∨ e.stored_size > data.length-e.offset then
    refuse t t.disk ("validated .NET bundle member is outside the input: " ++
      textOf e.relative_path) e.size
  else if e.compressed then
    refuse { t with out:={ t.out with
        compressed_omitted_count:=t.out.compressed_omitted_count+1 } } t.disk
      ("compressed .NET bundle member was not decompressed: "++textOf e.relative_path) e.size
  else if t.out.file_count ≥ max_output_files ∨ e.size > max_output_bytes-t.out.output_bytes then
    omitEntry {t with out:={t.out with budget_exhausted:=true}} e.size
  else if e.relative_path = [] ∨ isAbsolute style e.relative_path = true ∨
      rootName style e.relative_path ≠ [] then
    refuse t t.disk ("cannot encode safe .NET bundle member path: "++textOf e.relative_path)
      e.size
  else
    let way := bundle_path_component_safe D style t.disk output_dir
      (names style e.relative_path).dropLast
    match way.1 with
    | some path_error => refuse t way.2 path_error e.size
    | none =>
      if output_key style e ∈ t.output_keys then
        refuse t way.2 ("case-insensitive .NET bundle member path collision refused: " ++
          textOf e.relative_path) e.size
      else
        let t := {t with disk:=way.2,output_keys:=t.output_keys++[output_key style e]}
        if nonRegular D t.disk (place style output_dir e) then
          refuse t t.disk ("refusing non-regular .NET bundle output: " ++
            textOf (target style output_dir e)) e.size
        else if e.size > 2^63-1 then
          refuse t t.disk (".NET bundle member exceeds the local stream write limit: " ++
            textOf e.relative_path) e.size
        else write_member D style data output_dir t e

def ordered (info : DotNetBundleInfo) (core_only : Bool) : List DotNetBundleEntry :=
  if core_only then
    info.entries.insertionSort fun a b => bundle_priority a > bundle_priority b ∨
      bundle_priority a = bundle_priority b ∧ a.index ≤ b.index
  else info.entries

/-- The output directory, looked at and made: an error when it cannot be used. -/
def prepare_output (s : σ) : Option String×σ :=
  match D.status s (located style output_dir) with
  | .error e => (some ("cannot inspect .NET bundle output directory: "++e),s)
  | .ok (some .symlink) =>
    (some ("refusing .NET bundle output directory symlink: "++textOf output_dir),s)
  | .ok (some .regular) | .ok (some .other) =>
    (some ("refusing non-directory .NET bundle output path: "++textOf output_dir),s)
  | .ok _ =>
    let made := D.createDirectories s (located style output_dir)
    (made.1.map fun e => "cannot create .NET bundle output directory: "++e,made.2)

def extract_all (info : DotNetBundleInfo)
    (output_dir : Bytes) (core_only : Bool) (max_output_bytes max_output_files : ℕ) (s : σ) :
    BundleRun σ :=
  (ordered info core_only).foldl
    (extract_entry D style data output_dir max_output_bytes max_output_files)
    {disk:=s,out:={ output_dir, core_only }}

/-- The verdict over the whole loop. -/
def finish (info : DotNetBundleInfo) (t : BundleRun σ) : BundleRun σ :=
  let success := t.out.file_count == info.entries.length && !t.out.budget_exhausted &&
    t.out.compressed_omitted_count == 0 && t.out.warnings.isEmpty
  { t with out:={ t.out with
      success
      error :=
        if success then t.out.error
        else if t.out.compressed_omitted_count ≠ 0 then
          "compressed .NET bundle members require decompression support"
        else "not all validated .NET bundle members were materialized" } }

def extract_dotnet_bundle (info : DotNetBundleInfo) (output_dir : Bytes) (core_only : Bool)
    (max_output_bytes max_output_files : ℕ) (s : σ) : BundleRun σ :=
  let out : DotNetBundleExtractResult := { output_dir, core_only }
  if info.valid = false then
    {disk:=s,out:={out with error := ".NET bundle manifest is not valid"}}
  else if output_dir = [] then
    {disk:=s,out:={out with error := ".NET bundle output directory is empty"}}
  else if info.entries = [] then
    {disk:=s,out:={out with error := ".NET bundle has no validated members"}}
  else
    let root := prepare_output D style output_dir s
    match root.1 with
    | some error => {disk:=root.2,out:={out with error}}
    | none =>
      finish info (extract_all D style data info output_dir core_only max_output_bytes
        max_output_files root.2)

end DotNetBundle

end AutoRefirst
