import AutoRefirst.CheckedRun
import AutoRefirst.Fallible
import AutoRefirst.PortableExecutable
import Mathlib.Data.List.DropRight

/-!
# Godot packs

The header and the directory of a pack, the envelope of what is encrypted in it, and the readers
of its files. MD5 and the block cipher are parameters.
-/

namespace AutoRefirst.Godot
open CheckedRun List

/-- The checks that add up offsets and lengths, in 64 bits. -/
inductive Site where
  | number | magic | envelope | padded | base | directory | entry | range
  deriving DecidableEq

abbrev PckRun := Run Site

/-- What is taken as it is: the digest, and the cipher's block under a key. -/
structure Ciphers where
  md5 : Bytes → Bytes
  block : Bytes → Bytes → Bytes

structure GodotPckEntry where
  path : Bytes
  (offset size : ℕ := 0)
  md5 : Bytes := []
  flags : ℕ := 0
  (encrypted removal delta : Bool := false)
  deriving DecidableEq

structure GodotPckInfo where
  (valid validated : Bool := false)
  (pckOffset formatVersion engineMajor engineMinor enginePatch flags fileCount fileBase dirOffset
    : ℕ := 0)
  (encryptedDirectory relativeFilebase sparseBundle modifiedMagic : Bool := false)
  entries : List GodotPckEntry := []
  evidence : List String := []

/-- The key of a pack, and whether it is known to be right. -/
structure GodotKeyInfo where
  confirmed : Bool := false
  key : Bytes := []

def refuseIf (c : Prop) [Decidable c] : PckRun Unit := failIf c 0 ""

def leAt (d : Bytes) (o n : ℕ) : PckRun ℕ := do
  let stop ← sum .number o n 64
  if stop > d.length then return 0
  else
    let b ← read d o n
    return littleEndian b

def le32 (d : Bytes) (o : ℕ) : PckRun ℕ := leAt d o 4

def le64 (d : Bytes) (o : ℕ) : PckRun ℕ := leAt d o 8

def isMagic (d : Bytes) (o : ℕ) : PckRun Bool := do
  let stop ← sum .magic o 4 64
  if stop ≤ d.length then
    let b ← read d o 4
    return b = bytes "GDPC"
  else return false

/-- The path without the zeros at its end. -/
def trimPath (s : Bytes) : Bytes := s.rdropWhile (· = 0)

/-- Where a pack begins whose length stands at the end of the file. -/
def embeddedPckTrailerOffset (d : Bytes) : PckRun (Option ℕ) :=
  if d.length < 16 then return none
  else do
    let last ← isMagic d (d.length-4)
    if last = false then return none
    else
      let packSize ← le64 d (d.length-12)
      if packSize > d.length-12 then return none
      else
        let off := d.length-12-packSize
        let first ← isMagic d off
        return if first = false then none else some off

def xorBytes (a b : Bytes) : Bytes := List.zipWith (· ^^^ ·) a b

/-- Sixteen bytes a turn, the ciphertext fed back into the cipher. -/
def cfbFrom (block : Bytes→Bytes) : ℕ → Bytes → Bytes → Bytes
  | 0, _, _ => []
  | fuel+1, feedback, cipher =>
    if cipher = [] then []
    else
      let part := cipher.take 16
      xorBytes part (block feedback) ++
        cfbFrom block fuel (part ++ feedback.drop part.length) (cipher.drop 16)

variable (C : Ciphers)

def aes256CfbDecrypt (cipher key iv : Bytes) : Bytes :=
  cfbFrom (C.block key) cipher.length iv cipher

structure DecStream where
  plain : Bytes
  consumed : ℕ

/-- `decrypt_stream` as far as it goes; it gives up where this fails. -/
def openStream (d : Bytes) (o : ℕ) (key : Bytes) : PckRun DecStream := do
  let stop ← sum .envelope o 40 64
  refuseIf (stop > d.length)
  let want ← read d o 16
  let len ← le64 d (o+16)
  refuseIf (len > 512*1024*1024)
  let iv ← read d (o+24) 16
  let padded := (len+15)/16*16
  let stop ← sum .padded (o+40) padded 64
  refuseIf (stop > d.length)
  let cipher ← read d (o+40) padded
  let all := (aes256CfbDecrypt C cipher key iv).take len
  refuseIf (C.md5 all ≠ want)
  return {plain:=all,consumed:=40+padded}

def decryptStream (d : Bytes) (o : ℕ) (key : Bytes) : PckRun (Option DecStream) :=
  caught (openStream C d o key) some fun _ _ => none

/-- Where an entry's bytes begin. -/
def entryOffset (version fileBase stored : ℕ) : PckRun ℕ :=
  if version ≥ 2 then do
    refuseIf (stored > 2^64-1-fileBase)
    sum .entry fileBase stored 64
  else return stored

variable (src : Bytes)

def entryFlags (p version : ℕ) : PckRun ℕ :=
  if version ≥ 2 then le32 src p else return 0

/-- The entry at `p` and where the next one begins. -/
def entryAt (p version fileBase wholeSize : ℕ) : PckRun (GodotPckEntry×ℕ) := do
  refuseIf (p > src.length ∨ src.length-p < 4)
  let sl ← le32 src p
  let p := p+4
  refuseIf (sl > 2^20 ∨ sl > src.length-p)
  let text ← read src p sl
  let path := trimPath text
  let p := p+sl
  refuseIf (path = [] ∨ path.length > 2^20)
  let fixed := 8+8+16 + if version ≥ 2 then 4 else 0
  refuseIf (p > src.length ∨ fixed > src.length-p)
  let stored ← le64 src p
  let size ← le64 src (p+8)
  let md5 ← read src (p+16) 16
  let flags ← entryFlags src (p+32) version
  let offset ← entryOffset version fileBase stored
  let e : GodotPckEntry :=
    { path,offset,size,md5,flags,encrypted:=flags &&& 1 ≠ 0,removal:=flags &&& 2 ≠ 0,
      delta:=flags &&& 4 ≠ 0 }
  refuseIf (e.removal = false ∧ e.encrypted = false ∧ e.delta = false ∧
    (offset > wholeSize ∨ size > wholeSize-offset))
  return (e,p+fixed)

def entriesFrom (src : Bytes) (version fileBase wholeSize : ℕ) : ℕ → ℕ → PckRun (List GodotPckEntry)
  | 0, _ => return []
  | count+1, p => do
    let e ← entryAt src p version fileBase wholeSize
    let rest ← entriesFrom src version fileBase wholeSize count e.2
    return e.1::rest

def parseEntries (p count version fileBase wholeSize : ℕ) : PckRun (List GodotPckEntry) := do
  refuseIf (count > 1000000)
  entriesFrom src version fileBase wholeSize count p

/-- The flags of a pack, its stored base, and where the header goes on. -/
def packFlags (d : Bytes) (p ver : ℕ) : PckRun (ℕ×ℕ×ℕ) :=
  if ver ≥ 2 then do
    refuseIf (p > d.length ∨ d.length-p < 12)
    let flags ← le32 d p
    let storedBase ← le64 d (p+4)
    refuseIf (flags &&& 0xfffffff8 ≠ 0)
    return (flags,storedBase,p+12)
  else return (0,0,p)

def packBase (off ver flags storedBase : ℕ) : PckRun ℕ :=
  if ver = 3 ∨ ver = 4 ∨ (ver = 2 ∧ flags &&& 2 ≠ 0) then do
    refuseIf (storedBase > 2^64-1-off)
    sum .base storedBase off 64
  else return storedBase

/-- Thirty-two bytes more in a sparse encrypted pack of the fourth version. -/
def sparseSkip (d : Bytes) (p ver flags : ℕ) : PckRun Unit :=
  refuseIf ((flags &&& 4 ≠ 0 ∧ flags &&& 1 ≠ 0 ∧ ver = 4) ∧ (p > d.length ∨ d.length-p < 32))

def packDirectory (d : Bytes) (off p ver flags : ℕ) : PckRun ℕ :=
  if ver = 3 ∨ ver = 4 then do
    refuseIf (p > d.length ∨ d.length-p < 8)
    let storedDir ← le64 d p
    refuseIf (storedDir > 2^64-1-off)
    let dir ← sum .directory storedDir off 64
    sparseSkip d (p+8) ver flags
    refuseIf (dir = 0 ∨ dir > d.length ∨ d.length-dir < 4)
    return dir
  else do
    refuseIf (p > d.length ∨ d.length-p < 64)
    return p+64

def directoryEntries (d : Bytes) (p : ℕ) (r : GodotPckInfo) (key : Option Bytes) :
    PckRun GodotPckInfo :=
  if r.encryptedDirectory then
    match key with
    | none => return { r with
        valid:=true
        evidence:=["PCK header/version/flags/directory offset are structurally valid",
          "encrypted directory detected",
          "file_count prefix is plausible: "++toString r.fileCount] }
    | some key => do
      let dec ← openStream C d p key
      let entries ← aside
        (parseEntries dec.plain 0 r.fileCount r.formatVersion r.fileBase d.length)
      return { r with
        valid:=true,validated:=true,entries
        evidence:=["encrypted PCK directory decrypted and MD5 verified",
          "directory entries structurally validated"] }
  else do
    let entries ← parseEntries d p r.fileCount r.formatVersion r.fileBase d.length
    return { r with
      valid:=true,validated:=true,entries
      evidence:=["PCK header and directory entries structurally validated",
        "all unencrypted file ranges are in bounds"] }

def parseAt (d : Bytes) (off : ℕ) (allowBadMagic : Bool) (key : Option Bytes) :
    PckRun GodotPckInfo := do
  refuseIf (off > d.length ∨ d.length-off < 20)
  let standard ← isMagic d off
  refuseIf (standard = false ∧ allowBadMagic = false)
  let ver ← le32 d (off+4)
  let maj ← le32 d (off+8)
  let min ← le32 d (off+12)
  let pat ← le32 d (off+16)
  refuseIf (ver > 4 ∨ maj = 0 ∨ maj > 25 ∨ min > 1000 ∨ pat > 100000)
  let h ← packFlags d (off+20) ver
  let flags := h.1
  let fileBase ← packBase off ver flags h.2.1
  let dir ← packDirectory d off h.2.2 ver flags
  refuseIf (dir > d.length ∨ d.length-dir < 4)
  let fileCount ← le32 d dir
  refuseIf (fileCount > 1000000)
  refuseIf (fileCount > 0 ∧ ver ≥ 2 ∧ fileBase ≥ d.length)
  directoryEntries C d (dir+4)
    { pckOffset:=off,formatVersion:=ver,engineMajor:=maj,engineMinor:=min,
      enginePatch:=pat,flags,fileCount,fileBase,dirOffset:=dir,
      encryptedDirectory:=flags &&& 1 ≠ 0,relativeFilebase:=flags &&& 2 ≠ 0,
      sparseBundle:=flags &&& 4 ≠ 0,modifiedMagic := !standard } key

abbrev ValidatedPckPayload := Except String Bytes

def validatedPckPayload (d : Bytes) (key : GodotKeyInfo) (e : GodotPckEntry) :
    PckRun ValidatedPckPayload :=
  if e.removal ∨ e.delta then return .error "PCK entry is a removal/delta record"
  else if e.size > 512*1024*1024 then return .error "PCK child exceeds D21 validation limit"
  else if e.encrypted then
    if key.confirmed = false then
      return .error "encrypted PCK child has no confirmed pack key"
    else do
      let dec ← decryptStream C d e.offset key.key
      match dec with
      | none => return .error "encrypted child envelope/decryption MD5 did not validate"
      | some dec =>
        return if dec.plain.length ≠ e.size then
            .error "encrypted child plaintext size disagrees with PCK directory"
          else if C.md5 dec.plain ≠ e.md5 then
            .error "encrypted child plaintext MD5 disagrees with PCK directory"
          else .ok dec.plain
  else if e.offset > d.length ∨ e.size > d.length-e.offset then
    return .error "PCK child range escapes current input"
  else do
    let payload ← read d e.offset e.size
    return if C.md5 payload ≠ e.md5 then .error "PCK child MD5 disagrees with directory"
      else .ok payload

def decryptPckEntryVerified (d : Bytes) (e : GodotPckEntry) (key : Bytes) :
    PckRun (Option DecStream) :=
  if e.encrypted = false ∨ e.removal ∨ e.delta then return none
  else do
    let dec ← decryptStream C d e.offset key
    return dec.filter fun x => x.plain.length = e.size && C.md5 x.plain = e.md5

/-- The payload that is extracted for an entry, with the warning that goes with it; `none` where
the warning is all there is. -/
def extractedPayload (d : Bytes) (key : GodotKeyInfo) (e : GodotPckEntry) :
    PckRun (Option Bytes×Option String) :=
  if e.encrypted then
    if key.confirmed = false then return (none,some "encrypted file skipped: ")
    else do
      let dec ← decryptStream C d e.offset key.key
      match dec with
      | none => return (none,some "encrypted file MD5/decrypt failed: ")
      | some dec => return (some dec.plain,none)
  else do
    let stop ← sum .range e.offset e.size 64
    if stop > d.length then return (none,some "out-of-bounds file: ")
    else
      let payload ← read d e.offset e.size
      return (some payload,
        if C.md5 payload ≠ e.md5 then some "directory MD5 mismatch: " else none)

/-!
## What the readers of a pack read

The header and the directory are read inside the input, whatever they say. Of the readers of a
file only the one that opens an envelope adds to an offset that was never compared.
-/

variable {A : Sum Site→Prop} {d : Bytes}

theorem refuseIf_keeps (c:Prop) [Decidable c] : Keeps A d (refuseIf c) fun _=>¬c:=
  Keeps.failIf c 0 ""

variable {o : ℕ}

theorem leAt_keeps {n:ℕ} (h:o+n<2^64) : Keeps A d (leAt d o n) fun v=>v<256^n:=by
  apply (Keeps.sum fun _=>h).bind
  rintro stop rfl
  apply Keeps.ite
  · exact fun _=>Keeps.pure (Nat.pow_pos (by omega))
  · intro hstop
    apply (Keeps.read (by omega)).bind
    rintro b rfl
    apply Keeps.pure
    apply Nat.lt_of_lt_of_le (littleEndian_lt _)
    exact Nat.pow_le_pow_right (by omega:256>0) (length_take_le n _)

theorem le32_keeps (h:o+4<2^64) : Keeps A d (le32 d o) fun v=>v<2^32:=leAt_keeps h

theorem le64_keeps (h:o+8<2^64) : Keeps A d (le64 d o) fun v=>v<2^64:=leAt_keeps h

theorem isMagic_keeps (h:o+4<2^64) : Keeps A d (isMagic d o) fun _=>True:=by
  apply (Keeps.sum fun _=>h).bind
  rintro stop rfl
  apply Keeps.ite
  · intro hstop
    apply (Keeps.read hstop).bind
    intro b _
    exact Keeps.pure trivial
  · exact fun _=>Keeps.pure trivial

theorem embeddedPckTrailerOffset_keeps (hd:d.length<2^63) :
    Keeps A d (embeddedPckTrailerOffset d) fun _=>True:=by
  apply Keeps.ite
  case hx=>exact fun _=>Keeps.pure trivial
  intro hlen
  apply (isMagic_keeps (by omega)).bind
  intro last _
  apply Keeps.ite
  case hx=>exact fun _=>Keeps.pure trivial
  intro _
  apply (le64_keeps (by omega)).bind
  intro packSize _
  apply Keeps.ite
  case hx=>exact fun _=>Keeps.pure trivial
  intro hsize
  apply (isMagic_keeps (by omega)).bind
  intro first _
  exact Keeps.pure trivial

/-- All but the first sum follows from the first. -/
theorem openStream_keeps (key:Bytes) (hd:d.length<2^63) (ho:A ⟨.envelope,o,40,64⟩ → o+40<2^64) :
    Keeps A d (openStream C d o key) fun r=>r.plain.length≤512*1024*1024:=by
  apply (Keeps.sum ho).bind
  rintro stop rfl
  apply (refuseIf_keeps _).bind
  intro _ hstop
  apply (Keeps.read (by omega)).bind
  intro want _
  apply (le64_keeps (by omega)).bind
  intro len _
  apply (refuseIf_keeps _).bind
  intro _ hlen
  apply (Keeps.read (by omega)).bind
  intro iv _
  apply (Keeps.sum fun _=>by omega).bind
  rintro stop rfl
  apply (refuseIf_keeps _).bind
  intro _ hpadded
  apply (Keeps.read (by omega)).bind
  intro cipher _
  apply (refuseIf_keeps _).bind
  intro _ _
  apply Keeps.pure
  have htake:=length_take_le len (aes256CfbDecrypt C cipher key iv)
  dsimp only
  omega

theorem decryptStream_keeps (key:Bytes) (hd:d.length<2^63) (ho:A ⟨.envelope,o,40,64⟩ → o+40<2^64) :
    Keeps A d (decryptStream C d o key) fun _=>True:=
  (openStream_keeps C key hd ho).caught _ _

theorem decryptStream_sums (d:Bytes) (o:ℕ) (key:Bytes) :
    ⟨.envelope,o,40,64⟩∈(decryptStream C d o key).sums:=
  mem_cons_self

variable {fileBase : ℕ}

theorem entryOffset_keeps {version stored:ℕ} (hbase:fileBase<2^64) :
    Keeps A d (entryOffset version fileBase stored) fun _=>True:=by
  apply Keeps.ite
  · intro _
    apply (refuseIf_keeps _).bind
    intro _ hstored
    exact (Keeps.sum fun _=>by omega).mono fun _ _=>trivial
  · exact fun _=>Keeps.pure trivial

variable {p : ℕ}

theorem entryFlags_keeps (version:ℕ) (hp:p+4<2^64) :
    Keeps A d (entryFlags d p version) fun _=>True:=
  Keeps.ite (fun _=>(le32_keeps hp).mono fun _ _=>trivial) fun _=>Keeps.pure trivial

/-- A plain entry of a directory lies in the file; nothing is known of an encrypted one. -/
def GodotPckEntry.Ranged (wholeSize : ℕ) (e : GodotPckEntry) : Prop :=
  e.removal = false → e.encrypted=false → e.delta=false → e.offset+e.size≤wholeSize

theorem entryAt_keeps (version wholeSize:ℕ) (hd:d.length<2^63) (hbase:fileBase<2^64) :
    Keeps A d (entryAt d p version fileBase wholeSize) fun x=>x.1.Ranged wholeSize:=by
  apply (refuseIf_keeps _).bind
  intro _ hp
  apply (le32_keeps (by omega)).bind
  intro sl _
  apply (refuseIf_keeps _).bind
  intro _ hsl
  apply (Keeps.read (by omega)).bind
  intro text _
  apply (refuseIf_keeps _).bind
  intro _ _
  apply (refuseIf_keeps _).bind
  intro _ hfixed
  have hplain : 32≤d.length-(p+4+sl):=by split at hfixed <;> omega
  apply (le64_keeps (by omega)).bind
  intro stored _
  apply (le64_keeps (by omega)).bind
  intro size _
  apply (Keeps.read (by omega)).bind
  intro md5 _
  apply (entryFlags_keeps version (by omega)).bind
  intro flags _
  apply (entryOffset_keeps hbase).bind
  intro offset _
  apply (refuseIf_keeps _).bind
  intro _ hranged
  apply Keeps.pure
  intro hremoval hencrypted hdelta
  have hrange : ¬(offset > wholeSize ∨ size > wholeSize-offset):=
    fun h=>hranged ⟨hremoval,hencrypted,hdelta,h⟩
  show offset+size ≤ wholeSize
  omega

theorem entriesFrom_keeps (version wholeSize count:ℕ) (hd:d.length<2^63) (hbase:fileBase<2^64) :
    Keeps A d (entriesFrom d version fileBase wholeSize count p)
      fun l=>∀e∈l,e.Ranged wholeSize:=by
  induction count generalizing p with
  | zero=>exact Keeps.pure nofun
  | succ count ih=>
    apply (entryAt_keeps version wholeSize hd hbase).bind
    rintro ⟨e,p'⟩ he
    apply ih.bind
    intro rest hrest
    apply Keeps.pure
    intro x hx
    cases mem_cons.mp hx with
    | inl hx=>exact hx▸he
    | inr hx=>exact hrest x hx

theorem parseEntries_keeps (p count version wholeSize:ℕ) (hd:d.length<2^63) (hbase:fileBase<2^64) :
    Keeps A d (parseEntries d p count version fileBase wholeSize)
      fun l=>∀e∈l,e.Ranged wholeSize:=by
  apply (refuseIf_keeps _).bind
  intro _ _
  exact entriesFrom_keeps version wholeSize count hd hbase

theorem packFlags_keeps (ver:ℕ) (hd:d.length<2^63) (hp:p≤d.length) :
    Keeps A d (packFlags d p ver) fun h=>h.2.1<2^64 ∧ h.2.2≤d.length:=by
  apply Keeps.ite
  · intro _
    apply (refuseIf_keeps _).bind
    intro _ hleft
    apply (le32_keeps (by omega)).bind
    intro flags _
    apply (le64_keeps (by omega)).bind
    intro storedBase hbase
    apply (refuseIf_keeps _).bind
    intro _ _
    exact Keeps.pure ⟨hbase,by dsimp only;omega⟩
  · exact fun _=>Keeps.pure ⟨Nat.pow_pos (by omega),hp⟩

theorem packBase_keeps {off storedBase:ℕ} (ver flags:ℕ) (hoff:off<2^63)
    (hstored:storedBase<2^64) :
    Keeps A d (packBase off ver flags storedBase) fun base=>base<2^64:=by
  apply Keeps.ite
  · intro _
    apply (refuseIf_keeps _).bind
    intro _ hbase
    exact (Keeps.sum fun _=>by omega).mono fun _ h=>by omega
  · exact fun _=>Keeps.pure hstored

theorem packDirectory_keeps {off:ℕ} (ver flags:ℕ) (hd:d.length<2^63)
    (hoff:off≤d.length) : Keeps A d (packDirectory d off p ver flags) fun _=>True:=by
  apply Keeps.ite
  · intro _
    apply (refuseIf_keeps _).bind
    intro _ hleft
    apply (le64_keeps (by omega)).bind
    intro storedDir hstored
    apply (refuseIf_keeps _).bind
    intro _ hdir
    apply (Keeps.sum fun _=>by omega).bind
    intro dir _
    apply (refuseIf_keeps _).bind
    intro _ _
    apply (refuseIf_keeps _).bind
    intro _ _
    exact Keeps.pure trivial
  · intro _
    apply (refuseIf_keeps _).bind
    intro _ _
    exact Keeps.pure trivial

theorem directoryEntries_keeps {r:GodotPckInfo} (key:Option Bytes)
    (hd:d.length<2^63) (hp:p≤d.length) (hbase:r.fileBase<2^64)
    (hentries:r.entries=[]) :
    Keeps A d (directoryEntries C d p r key) fun i=>∀e∈i.entries,e.Ranged d.length:=by
  apply Keeps.ite
  · intro _
    cases key with
    | none=>
      apply Keeps.pure
      show ∀e∈r.entries,_
      rw [hentries]
      exact nofun
    | some key=>
      apply (openStream_keeps C key hd fun _=>by omega).bind
      intro dec hplain
      have hlen : dec.plain.length<2^63:=by omega
      apply (parseEntries_keeps 0 _ _ d.length hlen hbase).aside.bind
      intro entries h
      exact Keeps.pure h
  · intro _
    apply (parseEntries_keeps p _ _ d.length hd hbase).bind
    intro entries h
    exact Keeps.pure h

theorem parseAt_keeps (off:ℕ) (allowBadMagic:Bool) (key:Option Bytes) (hd:d.length<2^63) :
    Keeps A d (parseAt C d off allowBadMagic key)
      fun i=>∀e∈i.entries,e.Ranged d.length:=by
  apply (refuseIf_keeps _).bind
  intro _ hoff
  apply (isMagic_keeps (by omega)).bind
  intro standard _
  apply (refuseIf_keeps _).bind
  intro _ _
  apply (le32_keeps (by omega)).bind
  intro ver _
  apply (le32_keeps (by omega)).bind
  intro maj _
  apply (le32_keeps (by omega)).bind
  intro min _
  apply (le32_keeps (by omega)).bind
  intro pat _
  apply (refuseIf_keeps _).bind
  intro _ _
  apply (packFlags_keeps ver hd (by omega)).bind
  intro h hflags
  apply (packBase_keeps ver h.1 (by omega) hflags.1).bind
  intro fileBase hbase
  apply (packDirectory_keeps ver h.1 hd (by omega)).bind
  intro dir _
  apply (refuseIf_keeps _).bind
  intro _ hdir
  apply (le32_keeps (by omega)).bind
  intro fileCount _
  apply (refuseIf_keeps _).bind
  intro _ _
  apply (refuseIf_keeps _).bind
  intro _ _
  exact directoryEntries_keeps C key hd (by omega) hbase rfl

theorem validatedPckPayload_keeps (key:GodotKeyInfo) (e:GodotPckEntry) (hd:d.length<2^63)
    (he:e.encrypted=true → e.removal=false → e.delta=false → e.offset+40<2^64) :
    Keeps A d (validatedPckPayload C d key e) fun _=>True:=by
  apply Keeps.ite
  case hx=>exact fun _=>Keeps.pure trivial
  intro hkind
  apply Keeps.ite
  case hx=>exact fun _=>Keeps.pure trivial
  intro _
  apply Keeps.ite
  · intro hencrypted
    apply Keeps.ite
    case hx=>exact fun _=>Keeps.pure trivial
    intro _
    have hremoval : e.removal=false:=by simpa using fun h=>hkind (.inl h)
    have hdelta : e.delta=false:=by simpa using fun h=>hkind (.inr h)
    apply (decryptStream_keeps C key.key hd fun _=>he hencrypted hremoval hdelta).bind
    intro dec _
    cases dec with
    | none=>exact Keeps.pure trivial
    | some dec=>exact Keeps.pure trivial
  · intro _
    apply Keeps.ite
    case hx=>exact fun _=>Keeps.pure trivial
    intro hrange
    apply (Keeps.read (by omega)).bind
    intro payload _
    exact Keeps.pure trivial

theorem decryptPckEntryVerified_keeps (e:GodotPckEntry) (key:Bytes) (hd:d.length<2^63)
    (he:e.encrypted=true → e.removal=false → e.delta=false → e.offset+40<2^64) :
    Keeps A d (decryptPckEntryVerified C d e key) fun _=>True:=by
  apply Keeps.ite
  case hx=>exact fun _=>Keeps.pure trivial
  intro hkind
  have hencrypted : e.encrypted=true:=by simpa using fun h=>hkind (.inl h)
  have hremoval : e.removal=false:=by simpa using fun h=>hkind (.inr (.inl h))
  have hdelta : e.delta=false:=by simpa using fun h=>hkind (.inr (.inr h))
  apply (decryptStream_keeps C key hd fun _=>he hencrypted hremoval hdelta).bind
  intro dec _
  exact Keeps.pure trivial

theorem extractedPayload_keeps (key:GodotKeyInfo) {e:GodotPckEntry}
    (hd:d.length<2^63) (hremoval:e.removal=false) (hdelta:e.delta=false)
    (hranged:e.Ranged d.length) (he:e.encrypted=true → e.offset+40<2^64) :
    Keeps A d (extractedPayload C d key e) fun _=>True:=by
  apply Keeps.ite
  · intro hencrypted
    apply Keeps.ite
    case hx=>exact fun _=>Keeps.pure trivial
    intro _
    apply (decryptStream_keeps C key.key hd fun _=>he hencrypted).bind
    intro dec _
    cases dec with
    | none=>exact Keeps.pure trivial
    | some dec=>exact Keeps.pure trivial
  · intro hplain
    have hrange:=hranged hremoval (by simpa using hplain) hdelta
    apply (Keeps.sum fun _=>by omega).bind
    rintro stop rfl
    apply Keeps.ite
    case hx=>exact fun _=>Keeps.pure trivial
    intro _
    apply (Keeps.read hrange).bind
    intro payload _
    exact Keeps.pure trivial

def EntryReadersStay (d : Bytes) (e : GodotPckEntry) : Prop :=
  ∀ key : GodotKeyInfo, Stays d (validatedPckPayload C d key e) ∧
    Stays d (decryptPckEntryVerified C d e key.key) ∧
    (e.removal=false → e.delta=false → Stays d (extractedPayload C d key e))

/-- Parsing stays inside the input, and so do the readers of an entry exactly when the offset of
one that is encrypted leaves room for the envelope's first sum. -/
theorem pck_reads_inside (C : Ciphers) (d : Bytes) (off : ℕ) (allowBadMagic : Bool)
    (key : Option Bytes) (hd : d.length<2^63) :
    Stays d (embeddedPckTrailerOffset d) ∧ Stays d (parseAt C d off allowBadMagic key) ∧
    (∀ plain : Bytes, plain.length<2^63 → ∀ p count version fileBase wholeSize, fileBase<2^64 →
        Stays plain (parseEntries plain p count version fileBase wholeSize)) ∧
    ∀ i, (parseAt C d off allowBadMagic key).value=.ok i → ∀ e∈i.entries, EntryReadersStay C d e ↔
        (e.encrypted=true → e.removal=false → e.delta=false → e.offset+40<2^64) := by
  have hparse:=parseAt_keeps (A:=fun _=>True) C off allowBadMagic key hd fun _ _=>trivial
  refine ⟨(embeddedPckTrailerOffset_keeps (A:=fun _=>True) hd fun _ _=>trivial).1,
    hparse.1,?_,?_⟩
  · intro plain hplain p count version fileBase wholeSize hbase
    exact (parseEntries_keeps (A:=fun _=>True) p count version wholeSize hplain hbase
      fun _ _=>trivial).1
  intro i hi e he
  have hranged:=hparse.2 i hi e he
  constructor
  · intro hstays hencrypted hremoval hdelta
    -- opening an envelope begins with the sum in question
    have hverified:=(hstays {}).2.1
    have hrun : decryptPckEntryVerified C d e [] = (do
        let dec ← decryptStream C d e.offset []
        return dec.filter fun x=>x.plain.length=e.size && C.md5 x.plain = e.md5):=by
      unfold decryptPckEntryVerified
      rw [if_neg (by simp [hencrypted,hremoval,hdelta])]
    rw [hrun] at hverified
    exact hverified.sums _ (mem_sums_bind (decryptStream_sums C d e.offset []) _)
  · intro hfits k
    refine ⟨(validatedPckPayload_keeps (A:=fun _=>True) C k e hd hfits fun _ _=>trivial).1,
      (decryptPckEntryVerified_keeps (A:=fun _=>True) C e k.key hd hfits
        fun _ _=>trivial).1,fun hremoval hdelta=>?_⟩
    exact (extractedPayload_keeps (A:=fun _=>True) C k hd hremoval hdelta hranged
      (fun h=>hfits h hremoval hdelta) fun _ _=>trivial).1

def farEntry : GodotPckEntry :=
  { path:=bytes "a",offset:=2^64-40,md5:=List.replicate 16 0,flags:=1,encrypted:=true }

/-- A pack of the second version whose one entry is that one. -/
def farPack : Bytes :=
  bytes "GDPC"++[2,0,0,0,4,0,0,0] ++ List.replicate 84 0 ++ [1,0,0,0] ++
    [1,0,0,0] ++ bytes "a"++[0xd8] ++ List.replicate 7 0xff ++ List.replicate 24 0 ++
    [1,0,0,0]

def plainCiphers : Ciphers := ⟨fun _ => [],fun _ b => b⟩

/-- The sum is cut, and the envelope is read outside the input. -/
theorem farEntry_reads_outside :
    ¬ ∀(C:Ciphers) (d:Bytes) (off:ℕ) (allowBadMagic:Bool) (key:Option Bytes),
      d.length < 2^63 → ∀i, (parseAt C d off allowBadMagic key).value=.ok i →
        ∀e∈i.entries, EntryReadersStay C d e:=by
  intro h
  have hparse : (parseAt plainCiphers farPack 0 false none).value.toOption.map (·.entries) =
      some [farEntry]:=by decide +kernel
  obtain ⟨i,hi,hentries⟩:=Fallible.exists_ok_of_map hparse
  have hread : ∃r∈(decryptPckEntryVerified plainCiphers farPack farEntry []).reads,
      farPack.length < r.1+r.2:=by decide +kernel
  obtain ⟨r,hr,hout⟩:=hread
  have hmem : farEntry∈i.entries:=by rw [hentries];exact mem_cons_self
  have hstays:=h plainCiphers farPack 0 false none (by decide +kernel) i hi farEntry hmem {}
  have hin:=hstays.2.1.reads r hr
  omega

/-- The reads of the pack with the far entry, as the general result has them. -/
theorem farPack_reads :
    farPack.length < 2^63 ∧ Stays farPack (parseAt plainCiphers farPack 0 false none):=
  ⟨by decide +kernel,
    (pck_reads_inside plainCiphers farPack 0 false none (by decide +kernel)).2.1⟩

end AutoRefirst.Godot
