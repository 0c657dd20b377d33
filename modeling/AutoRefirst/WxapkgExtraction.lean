import AutoRefirst.ExtractionRun
import Mathlib.Data.List.Sort

/-!
# wxapkg packages

The index of a package names ranges of the bytes behind it, and extraction writes each range
under its cleaned name.
-/

namespace AutoRefirst

/-- The name with slashes only and none in front. -/
def stripSlashes (s : Bytes) : Bytes :=
  (s.map fun c => if c = byte '\\' then byte '/' else c).dropWhile (· == byte '/')

namespace Wxapkg

structure WxapkgEntry where
  name : Bytes
  (offset size : ℕ := 0)

structure WxapkgInfo where
  (valid encrypted decrypted : Bool := false)
  wxid : Bytes := []
  (indexLength bodyLength : ℕ := 0)
  entries : List WxapkgEntry := []
  plaintext : Bytes := []
  error : String := ""

def be32 (d : Bytes) (o : ℕ) : ℕ :=
  if o+4 > d.length then 0
  else ((d.drop o).take 4).foldl (fun v c => v*256+c.toNat) 0

def safeName (s : Bytes) : Bool :=
  s ≠ [] && s.length ≤ 4096 && !contains s (bytes "..") &&
    s.countP (fun c => 0x20 ≤ c && c < 0x7f) * 100 / s.length > 90

def parseEntries (d : Bytes) (bodyStart bodyEnd : ℕ) : ℕ → ℕ → Except String (List WxapkgEntry×ℕ)
  | 0, p => .ok ([],p)
  | count+1, p =>
    if p+4 > d.length then .error "wxapkg index truncated"
    else
      let nl := be32 d p
      let p := p+4
      if nl = 0 ∨ nl > 4096 ∨ nl > d.length-p then .error "wxapkg filename length invalid"
      else
        let name := (d.drop p).take nl
        let p := p+nl
        if !safeName name ∨ p+8 > d.length then .error "wxapkg filename/index invalid"
        else
          let off := be32 d p
          let sz := be32 d (p+4)
          if off < bodyStart ∨ off > bodyEnd ∨ sz > bodyEnd-off then
            .error "wxapkg file range falls outside declared body"
          else do
            let (entries,stop) ← parseEntries d bodyStart bodyEnd count (p+8)
            return ({name,offset:=off,size:=sz} :: entries,stop)

def parsePlain (d : Bytes) : WxapkgInfo :=
  if d.length < 18 ∨ d.getD 0 0 ≠ 0xbe ∨ d.getD 13 0 ≠ 0xed then
    {error := "wxapkg header markers missing"}
  else
    let index := be32 d 5
    let body := be32 d 9
    let count := be32 d 14
    if index < 4 then {error := "wxapkg index length smaller than file-count field"}
    else if count = 0 then {error := "wxapkg file count is zero"}
    else if count > 100000 then {error := "wxapkg file count unreasonable"}
    else
      let bodyStart := 14+index
      if bodyStart > d.length ∨ body > d.length-bodyStart then
        {error := "wxapkg index/body geometry exceeds file"}
      else match parseEntries d bodyStart (bodyStart+body) count 18 with
      | .error message => {error:=message}
      | .ok (entries,p) =>
        if (if p > bodyStart then p-bodyStart else bodyStart-p) > 16 then
          {entries,error := "wxapkg index length does not match entry table"}
        else {valid:=true,indexLength:=index,bodyLength:=body,entries}

/-- The CBC decryption of the first block of a package under the key of an application id:
PBKDF2 with HMAC-SHA-1 and AES. -/
abbrev HeadCipher := Bytes → Bytes → Bytes

def decryptPc (cipher : HeadCipher) (d wxid : Bytes) : Option Bytes :=
  if d.length < 6+1024 ∨ d.take 6 ≠ bytes "V1MMWX" ∨ wxid = [] then none
  else
    let head := cipher wxid ((d.drop 6).take 1024)
    let xorKey := if wxid.length ≥ 2 then wxid.getD (wxid.length-2) 0 else 0x66
    some (head.take 1023 ++ (d.drop (6+1024)).map (· ^^^ xorKey))

def isAlnum (c : UInt8) : Bool :=
  (0x30 ≤ c && c ≤ 0x39) || (0x41 ≤ c && c ≤ 0x5a) || (0x61 ≤ c && c ≤ 0x7a)

/-- The last component of the path that looks like an application id. -/
def inferWxid (components : List Bytes) : Bytes :=
  (components.reverse.find? fun s =>
    s.length == 18 && (bytes "wx").isPrefixOf s && (s.drop 2).all isAlnum).getD []

def detectWxapkg (cipher : HeadCipher) (d : Bytes) (path : List Bytes) (wxid : Bytes) :
    WxapkgInfo :=
  let wxid := if wxid = [] then inferWxid path else wxid
  if d.length ≥ 6 ∧ d.take 6 = bytes "V1MMWX" then
    let w : WxapkgInfo := {valid:=true,encrypted:=true,wxid}
    if wxid = [] then
      {w with error := "PC encrypted wxapkg confirmed; wxid required for decryption"}
    else match decryptPc cipher d wxid with
    | none => {w with error := "encrypted wxapkg decryption setup failed"}
    | some dec =>
      let plain := parsePlain dec
      if !plain.valid then
        { w with error := "wxid/decryption did not produce a structurally valid wxapkg: " ++
            plain.error }
      else {plain with encrypted:=true,decrypted:=true,wxid,plaintext:=dec}
  else {parsePlain d with wxid}

def clean (s : Bytes) : Bytes := stripSlashes s

/-- How much a file says about the program. -/
def score (name : Bytes) : ℕ :=
  let name := lower (name.map fun c => if c = byte '\\' then byte '/' else c)
  let base := (afterLast (byte '/') name).getD name
  if base ∈ ["app.js","app.json","app-config.json","app-service.js"].map bytes then 1000
  else
    let ext := match afterLast (byte '.') base with
      | some e => byte '.' :: e
      | none => []
    if ext = bytes ".js" ∨ ext = bytes ".wxs" then 900
    else if ext = bytes ".wxml" ∨ ext = bytes ".wxss" then 800
    else if ext = bytes ".json" then 700
    else 0

def selected (w : WxapkgInfo) (coreOnly : Bool) : List WxapkgEntry :=
  if coreOnly then
    (w.entries.filter fun e => score e.name ≠ 0).insertionSort fun a b =>
      score a.name > score b.name ∨
        (score a.name = score b.name ∧ bytesLt b.name a.name = false)
  else w.entries

def target (style : PathStyle) (out : Bytes) (e : WxapkgEntry) : Bytes :=
  style.append out (clean e.name)

/-- No file is opened for such a name. -/
def refused (n : Bytes) : Bool := n = [] || contains n (bytes "..")

def entryBytes (data : Bytes) (e : WxapkgEntry) : Bytes := (data.drop e.offset).take e.size

section
variable {σ : Type} (D : OutputDisk σ) (style : PathStyle)

def extractEntry (data out : Bytes)
    (maxBytes maxFiles : ℕ) (t : ExtractRun σ) (e : WxapkgEntry) : ExtractRun σ :=
  if e.offset > data.length ∨ e.size > data.length-e.offset then t
  else if !t.fits maxBytes maxFiles e.size then t.omitEntry e.size
  else if refused (clean e.name) then t
  else t.write D style (target style out e) (entryBytes data e) e.size

def dataOf (w : WxapkgInfo) (original : Bytes) : Bytes :=
  if w.decrypted then w.plaintext else original

/-- The loop over the entries, after the output directory is there. -/
def extractAll (original : Bytes) (w : WxapkgInfo)
    (out : Bytes) (coreOnly : Bool) (maxBytes maxFiles : ℕ) (s : σ) : ExtractRun σ :=
  (selected w coreOnly).foldl
    (extractEntry D style (dataOf w original) out maxBytes maxFiles)
    {disk:=s,result:={ coreOnly }}

def success (w : WxapkgInfo) (coreOnly : Bool) (r : ExtractResult) : Bool :=
  if coreOnly then decide (r.fileCount > 0)
  else r.fileCount == w.entries.length && decide (r.fileCount > 0) && !r.budgetExhausted

def extractWxapkg (original : Bytes) (w : WxapkgInfo)
    (out : Bytes) (coreOnly : Bool) (maxBytes maxFiles : ℕ) (s : σ) : ExtractRun σ :=
  let r : ExtractResult := { coreOnly }
  if !w.valid ∨ w.entries = [] then
    { disk:=s
      result:={ r with
        error := if w.encrypted && !w.decrypted then "encrypted wxapkg requires correct wxid"
          else "no validated wxapkg entries" } }
  else if coreOnly ∧ selected w coreOnly = [] then
    {disk:=s,result:={r with success:=true,outputDir:=out}}
  else
    let made := D.createDirectories s (located style out)
    match made.1 with
    | some message => {disk:=made.2,result:={r with error:=message}}
    | none =>
      let t := extractAll D style original w out coreOnly maxBytes maxFiles made.2
      let good := success w coreOnly t.result
      { t with result:={ t.result with
          success:=good,outputDir:=out
          error := if good then t.result.error
            else if coreOnly then "no wxapkg script/config artifacts materialized"
            else "not all wxapkg files were written" } }

end

end Wxapkg

end AutoRefirst
