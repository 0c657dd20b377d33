import AutoRefirst.CheckedRun
import AutoRefirst.PortableExecutable
import AutoRefirst.Utf8Check
import Mathlib.Data.List.Sort

/-!
# Numbers and strings of Android's binary formats

What the readers of binary XML and of resource tables have in common.
-/

namespace AutoRefirst.Apk
open CheckedRun

/-- The checks that add up sizes in 32 bits; the last is made at the header of a type. -/
inductive Site where
  | header | counts
  | config (off : ℕ)
  deriving DecidableEq

abbrev ApkRun := Run Site

/-- `need`: the bytes are inside the input, or the message says what is truncated. -/
def need (doc : String) (d : Bytes) (off n : ℕ) (what : String) : ApkRun Unit :=
  failIf (off > d.length ∨ n > d.length-off) off (doc++what)

def numberAt (doc : String) (d : Bytes) (off n : ℕ) (what : String) : ApkRun ℕ := do
  need doc d off n what
  let b ← read d off n
  return littleEndian b

variable (d : Bytes)

def byteAt (off : ℕ) : ApkRun UInt8 := do
  let b ← read d off 1
  return b.headD 0

/-- A number of two bytes read with no check of its own. -/
def pairAt (off : ℕ) : ApkRun ℕ := do
  let b ← read d off 2
  return littleEndian b

/-- A length of one or two bytes that end before `stop`: where it ends, and the length unless it
is cut off. -/
def len8 (p stop : ℕ) : ApkRun (ℕ×Option ℕ) :=
  if p ≥ stop then return (p,none)
  else do
    let x ← byteAt d p
    if x &&& 0x80 = 0 then return (p+1,some x.toNat)
    else if p+1 ≥ stop then return (p+1,none)
    else
      let y ← byteAt d (p+1)
      return (p+2,some (((x &&& 0x7f).toNat <<< 8) ||| y.toNat))

def len16 (p stop : ℕ) : ApkRun (ℕ×Option ℕ) :=
  if p+2 > stop then return (p,none)
  else do
    let x ← pairAt d p
    if x &&& 0x8000 = 0 then return (p+2,some x)
    else if p+4 > stop then return (p+2,none)
    else
      let y ← pairAt d (p+2)
      return (p+4,some (((x &&& 0x7fff) <<< 16) ||| y))

def appendUtf8Cp (cp : ℕ) : Bytes :=
  if cp ≤ 0x7f then [cp.toUInt8]
  else if cp ≤ 0x7ff then [(0xc0 ||| (cp >>> 6)).toUInt8,(0x80 ||| (cp &&& 0x3f)).toUInt8]
  else if cp ≤ 0xffff then
    [(0xe0 ||| (cp >>> 12)).toUInt8,(0x80 ||| ((cp >>> 6) &&& 0x3f)).toUInt8,
      (0x80 ||| (cp &&& 0x3f)).toUInt8]
  else
    [(0xf0 ||| (cp >>> 18)).toUInt8,(0x80 ||| ((cp >>> 12) &&& 0x3f)).toUInt8,
      (0x80 ||| ((cp >>> 6) &&& 0x3f)).toUInt8,(0x80 ||| (cp &&& 0x3f)).toUInt8]

def validUtf8 (s : Bytes) : Bool := isUtf8 s

def isHigh (u : ℕ) : Bool := 0xd800 ≤ u && u ≤ 0xdbff

def isLow (u : ℕ) : Bool := 0xdc00 ≤ u && u ≤ 0xdfff

/-- UTF-16 from its bytes, the low byte first; `none` for an unpaired surrogate. -/
def utf16leToUtf8 : Bytes → Option Bytes
  | a :: b :: c :: e::rest =>
    let u := a.toNat+256*b.toNat
    let lo := c.toNat+256*e.toNat
    if isHigh u then
      if isLow lo then
        (utf16leToUtf8 rest).map (appendUtf8Cp (0x10000+(((u-0xd800) <<< 10) ||| (lo-0xdc00))) ++ ·)
      else none
    else if isLow u then none
    else (utf16leToUtf8 (c :: e::rest)).map (appendUtf8Cp u ++ ·)
  | a :: b::rest =>
    let u := a.toNat+256*b.toNat
    if isHigh u || isLow u then none else (utf16leToUtf8 rest).map (appendUtf8Cp u ++ ·)
  | _ => some []

def leadLength (c : UInt8) : ℕ×ℕ :=
  if c < 0x80 then (c.toNat,1)
  else if c &&& 0xe0 = 0xc0 then ((c &&& 0x1f).toNat,2)
  else if c &&& 0xf0 = 0xe0 then ((c &&& 0x0f).toNat,3)
  else ((c &&& 0x07).toNat,4)

/-- The UTF-16 units of a text that is UTF-8. -/
def utf16UnitsFrom : ℕ → Bytes → ℕ
  | _, [] => 0
  | 0, _::_ => 0
  | fuel+1, c::s =>
    let (first,n) := leadLength c
    let cp := (s.take (n-1)).foldl (fun cp q => (cp <<< 6) ||| (q &&& 0x3f).toNat) first
    (if cp > 0xffff then 2 else 1) + utf16UnitsFrom fuel (s.drop (n-1))

/-- Each turn takes a byte, so that the length bounds the turns. -/
def utf16Units (s : Bytes) : ℕ := utf16UnitsFrom s.length s

def hexByte (n : ℕ) : UInt8 := ((if n < 10 then 0x30+n else 0x57+n) : ℕ).toUInt8

def hexDigits (digits n : ℕ) : Bytes :=
  (List.range digits).reverse.map fun k => hexByte ((n >>> (4*k)) &&& 0xf)

/-- Eight digits without the zeros before the first other one, but for the last. -/
def hexTrimmed (n : ℕ) : Bytes :=
  (hexDigits 7 (n >>> 4)).dropWhile (· = 0x30) ++ hexDigits 1 n

end AutoRefirst.Apk

/-!
## Binary XML manifests

The parser of the manifest: the string pool, the chunks of the document and what it collects
from the elements.
-/

namespace AutoRefirst.Apk
open CheckedRun

structure ApkManifestComponent where
  kind : Bytes
  (name process : Bytes := [])
  (exportedKnown exported exportedReference : Bool := false)
  exportedReferenceId : ℕ := 0
  deriving DecidableEq

structure ApkManifestInfo where
  (candidate valid parseComplete stringPoolUtf8 : Bool := false)
  (stringCount resourceIdCount startElementCount : ℕ := 0)
  (packageName versionName applicationName : Bytes := [])
  versionCodeKnown : Bool := false
  versionCode : ℕ := 0
  minSdkKnown : Bool := false
  minSdk : ℕ := 0
  targetSdkKnown : Bool := false
  targetSdk : ℕ := 0
  (debuggableKnown debuggable debuggableReference : Bool := false)
  debuggableReferenceId : ℕ := 0
  permissions : List Bytes := []
  components : List ApkManifestComponent := []
  anomalies : List Bytes := []
  error : String := ""
  errorOffset : ℕ := 0
  deriving DecidableEq

/-- What the parser keeps while it runs; the innermost open element comes first. -/
structure AxmlState where
  out : ApkManifestInfo := {}
  strings : List Bytes := []
  resourceIds : List ℕ := []
  elementStack : List Bytes := []
  (stringPoolSeen resourceMapSeen rootSeen rootClosed : Bool := false)

namespace AxmlParser

def doc : String := "truncated binary Android XML "

variable (d : Bytes)

def u16 (off : ℕ) : ApkRun ℕ := numberAt doc d off 2 "uint16"

def u32 (off : ℕ) : ApkRun ℕ := numberAt doc d off 4 "uint32"

def kNoString : ℕ := 0xffffffff

variable (st : AxmlState)

def str (idx refOff : ℕ) : ApkRun Bytes :=
  match st.strings[idx]? with
  | some s => return s
  | none => fail refOff "binary Android XML string index out of range"

/-- A string that may be left out. -/
def strOrNone (idx refOff : ℕ) : ApkRun Bytes :=
  if idx = kNoString then return [] else str st idx refOff

variable (p : ℕ)

def readLen8 (stop : ℕ) : ApkRun (ℕ×Option ℕ) := len8 d p stop

def readLen16 (stop : ℕ) : ApkRun (ℕ×Option ℕ) := len16 d p stop

def lengthAt (x : ℕ×Option ℕ) (message : String) : ApkRun ℕ :=
  match x.2 with
  | some n => return n
  | none => fail x.1 message

def stringUtf8 (stringEnd : ℕ) : ApkRun Bytes := do
  let x ← readLen8 d p stringEnd
  let utf16Len ← lengthAt x "truncated binary Android XML UTF-8 length"
  let y ← readLen8 d x.1 stringEnd
  let bytesLen ← lengthAt y "truncated binary Android XML UTF-8 length"
  let p := y.1
  failIf (bytesLen > stringEnd-p ∨ p+bytesLen ≥ stringEnd) p
    "binary Android XML UTF-8 string exceeds pool"
  let text ← read d p bytesLen
  failIf (validUtf8 text = false) p "invalid binary Android XML UTF-8 string"
  let last ← byteAt d (p+bytesLen)
  failIf (last ≠ 0) p "invalid binary Android XML UTF-8 string"
  failIf (utf16Units text ≠ utf16Len) p "binary Android XML UTF-8 UTF-16-length mismatch"
  return text

def stringUtf16 (stringEnd : ℕ) : ApkRun Bytes := do
  let x ← readLen16 d p stringEnd
  let units ← lengthAt x "truncated binary Android XML UTF-16 length"
  let p := x.1
  let size := units*2
  failIf (size > stringEnd-p ∨ p+size+2 > stringEnd) p
    "binary Android XML UTF-16 string exceeds pool"
  let last ← u16 d (p+size)
  failIf (last ≠ 0) p "binary Android XML UTF-16 string exceeds pool"
  let text ← read d p size
  match utf16leToUtf8 text with
  | some s => return s
  | none => fail p "invalid surrogate sequence in binary Android XML UTF-16 string"

structure PoolHeader where
  count : ℕ
  utf8 : Bool
  (stringsStart stringEnd : ℕ)

variable (off hs size : ℕ)

def poolHeader : ApkRun PoolHeader := do
  let count ← u32 d (off+8)
  let styleCount ← u32 d (off+12)
  let flags ← u32 d (off+16)
  let stringsStart ← u32 d (off+20)
  let stylesStart ← u32 d (off+24)
  failIf (count > 1000000 ∨ styleCount > 1000000) (off+8)
    "unreasonable binary Android XML string/style count"
  let entries ← sum .counts count styleCount
  let offsetsBytes := entries*4
  failIf (offsetsBytes > size-hs) (off+hs)
    "binary Android XML string/style offset arrays exceed chunk"
  failIf (stringsStart < hs+offsetsBytes ∨ stringsStart ≥ size) (off+20)
    "invalid binary Android XML stringsStart"
  failIf (stylesStart ≠ 0 ∧ (stylesStart < stringsStart ∨ stylesStart ≥ size)) (off+24)
    "invalid binary Android XML stylesStart"
  return { count,utf8:=flags &&& 0x100 ≠ 0,stringsStart,
           stringEnd := if stylesStart ≠ 0 then off+stylesStart else off+size }

def poolString (h : PoolHeader) (i : ℕ) : ApkRun Bytes := do
  let roff ← u32 d (off+hs+i*4)
  failIf (roff ≥ size-h.stringsStart) (off+hs+i*4)
    "binary Android XML string offset exceeds string data"
  let p := off+h.stringsStart+roff
  failIf (p ≥ h.stringEnd) p "binary Android XML string offset exceeds string pool"
  if h.utf8 then stringUtf8 d p h.stringEnd else stringUtf16 d p h.stringEnd

def parseStringPool : ApkRun AxmlState := do
  failIf (st.stringPoolSeen = true) off "duplicate binary Android XML string pool"
  failIf (hs < 28 ∨ size < hs) off "invalid binary Android XML string-pool header"
  let h ← poolHeader d off hs size
  let strings ← each (fun out i => do
    let s ← poolString d off hs size h i
    return out++[s]) st.strings (List.range h.count)
  return { st with
    strings,stringPoolSeen:=true,out:={st.out with stringPoolUtf8:=h.utf8,stringCount:=h.count} }

structure Attr where
  (name ns raw : Bytes)
  type : UInt8
  data : ℕ
  value : Bytes
  reference : Bool := false

def decimal (n : ℕ) : Bytes := bytes (toString n)

def attrValue (type : UInt8) (data : ℕ) (raw : Bytes) : Bytes :=
  if type = 0x12 then bytes (if data ≠ 0 then "true" else "false")
  else if type = 0x10 then decimal data
  else if type = 0x11 then bytes "0x"++hexTrimmed data
  else if type = 0x01 ∨ type = 0x07 then bytes "@0x"++hexDigits 8 data
  else if raw ≠ [] then raw
  else bytes "type=0x"++hexDigits 2 type.toNat ++ bytes ":0x"++hexDigits 8 data

def attr (a asz : ℕ) : ApkRun Attr := do
  failIf (asz < 20) a "binary Android XML attributeSize is smaller than ResXMLTree_attribute"
  let nsIdx ← u32 d a
  let nameIdx ← u32 d (a+4)
  let rawIdx ← u32 d (a+8)
  let ns ← strOrNone st nsIdx a
  let name ← str st nameIdx (a+4)
  let raw ← strOrNone st rawIdx (a+8)
  let valueSize ← u16 d (a+12)
  let res0 ← byteAt d (a+14)
  let type ← byteAt d (a+15)
  let data ← u32 d (a+16)
  failIf (valueSize ≠ 8 ∨ res0 ≠ 0) (a+12) "invalid binary Android XML Res_value header"
  if type = 0x03 then
    let value ← str st data (a+16)
    return { name, ns, raw, type, data, value }
  else
    return { name,ns,raw,type,data,value:=attrValue type data raw,
             reference:=type = 0x01 || type = 0x07 }

def qualify (package name : Bytes) : Bytes :=
  if name = [] ∨ package = [] then name
  else if name.head? = some (byte '.') then package++name
  else if byte '.' ∉ name then package++bytes "."++name
  else name

def androidNs : Bytes := bytes "http://schemas.android.com/apk/res/android"

variable (attrs : List Attr)

def findPlainAttr (name : String) : Option Attr :=
  attrs.find? fun a => a.name = bytes name ∧ a.ns = []

def findAndroidAttr (name : String) : Option Attr :=
  attrs.find? fun a => a.name = bytes name ∧ a.ns = androidNs

def withAttr (a : Option Attr) (f : Attr→ApkManifestInfo→ApkManifestInfo)
    (out : ApkManifestInfo) : ApkManifestInfo :=
  match a with
  | some a => f a out
  | none => out

def anomaly (text : String) (a : Attr) (out : ApkManifestInfo) : ApkManifestInfo :=
  {out with anomalies:=out.anomalies++[bytes text ++ a.value]}

def isInteger (a : Attr) : Bool := a.type = 0x10 || a.type = 0x11

def isLiteral (a : Attr) : Bool := !a.reference && a.type = 0x03

variable (out : ApkManifestInfo)

def consumeManifest : ApkManifestInfo :=
  let out := withAttr (findPlainAttr attrs "package") (fun a out =>
    if isLiteral a then {out with packageName:=a.value}
    else anomaly "manifest package is not a literal string: " a out) out
  let out := withAttr (findAndroidAttr attrs "versionName") (fun a out =>
    {out with versionName:=a.value}) out
  withAttr (findAndroidAttr attrs "versionCode") (fun a out =>
    if isInteger a then {out with versionCodeKnown:=true,versionCode:=a.data}
    else anomaly "versionCode is not a literal integer: " a out) out

def consumeUsesSdk : ApkManifestInfo :=
  let out := withAttr (findAndroidAttr attrs "minSdkVersion") (fun a out =>
    if isInteger a then {out with minSdkKnown:=true,minSdk:=a.data}
    else anomaly "minSdkVersion is not a literal integer: " a out) out
  withAttr (findAndroidAttr attrs "targetSdkVersion") (fun a out =>
    if isInteger a then {out with targetSdkKnown:=true,targetSdk:=a.data}
    else anomaly "targetSdkVersion is not a literal integer: " a out) out

def consumeApplication : ApkManifestInfo :=
  let out := withAttr (findAndroidAttr attrs "name") (fun a out =>
    if isLiteral a then {out with applicationName:=qualify out.packageName a.value}
    else anomaly "application name is not a literal string: " a out) out
  withAttr (findAndroidAttr attrs "debuggable") (fun a out =>
    if a.type = 0x12 then {out with debuggableKnown:=true,debuggable:=a.data ≠ 0}
    else if a.reference then
      {out with debuggableReference:=true,debuggableReferenceId:=a.data}
    else anomaly "application debuggable has unresolved typed value: " a out) out

def consumePermission : ApkManifestInfo :=
  withAttr (findAndroidAttr attrs "name") (fun a out =>
    if isLiteral a ∧ a.value ≠ [] then {out with permissions:=out.permissions++[a.value]}
    else out) out

def componentOf (package tag : Bytes) (attrs : List Attr) : ApkManifestComponent :=
  let c : ApkManifestComponent := {kind:=tag}
  let c := match findAndroidAttr attrs "name" with
    | some a => if isLiteral a then {c with name:=qualify package a.value} else c
    | none => c
  let c := match findAndroidAttr attrs "process" with
    | some a => if isLiteral a then {c with process:=a.value} else c
    | none => c
  match findAndroidAttr attrs "exported" with
    | some a =>
      if a.type = 0x12 then {c with exportedKnown:=true,exported:=a.data ≠ 0}
      else if a.reference then
        {c with exportedReference:=true,exportedReferenceId:=a.data}
      else c
    | none => c

variable (tag : Bytes)

def isOneOf (names : List String) : Bool := names.any fun n => tag = bytes n

def consumeTag (parent : Bytes) (attrs : List Attr) (out : ApkManifestInfo) : ApkManifestInfo :=
  if tag = bytes "manifest" then consumeManifest attrs out
  else if tag = bytes "uses-sdk" ∧ parent = bytes "manifest" then consumeUsesSdk attrs out
  else if tag = bytes "application" ∧ parent = bytes "manifest" then consumeApplication attrs out
  else if isOneOf tag ["uses-permission","uses-permission-sdk-23","uses-permission-sdk-m"] ∧
      parent = bytes "manifest" then consumePermission attrs out
  else if (tag = bytes "instrumentation" ∧ parent = bytes "manifest") ∨
      (isOneOf tag ["activity","activity-alias","service","receiver","provider"] ∧
        parent = bytes "application") then
    {out with components:=out.components++[componentOf out.packageName tag attrs]}
  else out

def consumeElement (attrs : List Attr) (off : ℕ) : ApkRun AxmlState := do
  failIf (st.elementStack = [] ∧ st.rootSeen = true) off
    "binary Android XML contains multiple root elements"
  failIf (st.elementStack = [] ∧ tag ≠ bytes "manifest") off
    "binary Android XML root element is not manifest"
  let parent := st.elementStack.headD []
  failIf (tag = bytes "manifest" ∧ parent ≠ []) off "manifest element is nested instead of root"
  return { st with
    rootSeen:=st.rootSeen || st.elementStack = [],out:=consumeTag tag parent attrs st.out }

/-- The attributes of an element, no two of one namespace and name. -/
def attributes (attrs size count : ℕ) : ApkRun (List Attr) :=
  each (fun av i => do
    let x ← attr d st (attrs+i*size) size
    failIf (∃ y ∈ av, y.ns = x.ns ∧ y.name = x.name) (attrs+i*size)
      "duplicate binary Android XML attribute namespace/name"
    return av++[x]) [] (List.range count)

def headerTooShort (extra : ℕ) (off : ℕ) (message : String) : ApkRun Unit := do
  failIf (hs < 16) off message
  let least ← sum .header hs extra
  failIf (size < least) off message

def parseStartElement : ApkRun AxmlState := do
  failIf (st.stringPoolSeen = false) off
    "binary Android XML start element appears before string pool"
  failIf (st.rootClosed = true) off "binary Android XML start element appears after root close"
  headerTooShort hs size 20 off "invalid binary Android XML start-element header"
  let ext := off+hs
  let tagIdx ← u32 d (ext+4)
  let tag ← str st tagIdx (ext+4)
  let attributeStart ← u16 d (ext+8)
  let attributeSize ← u16 d (ext+10)
  let attributeCount ← u16 d (ext+12)
  let idIndex ← u16 d (ext+14)
  let classIndex ← u16 d (ext+16)
  let styleIndex ← u16 d (ext+18)
  failIf (attributeSize < 20) (ext+10) "binary Android XML attributeSize is too small"
  failIf (idIndex > attributeCount ∨ classIndex > attributeCount ∨ styleIndex > attributeCount)
    (ext+14) "binary Android XML special attribute index exceeds attributeCount"
  let attrs := ext+attributeStart
  failIf (attributeStart < 20 ∨ attrs > off+size ∨
      attributeSize * attributeCount > off+size-attrs) (ext+8)
    "binary Android XML attributes exceed start-element chunk"
  let av ← attributes d st attrs attributeSize attributeCount
  let st ← consumeElement st tag av off
  return { st with
    elementStack:=tag::st.elementStack
    out:={st.out with startElementCount:=st.out.startElementCount+1} }

def parseEndElement : ApkRun AxmlState := do
  headerTooShort hs size 8 off "invalid binary Android XML end-element header"
  let ext := off+hs
  let tagIdx ← u32 d (ext+4)
  let tag ← str st tagIdx (ext+4)
  failIf (st.elementStack.head? ≠ some tag) off
    ("binary Android XML element nesting mismatch at "++textOf tag)
  return { st with
    elementStack:=st.elementStack.tail,rootClosed:=st.rootClosed || st.elementStack.tail = [] }

def parseResourceMap : ApkRun AxmlState := do
  failIf (st.stringPoolSeen = false) p "binary Android XML resource map appears before string pool"
  failIf (hs ≠ 8 ∨ (size-hs) % 4 ≠ 0) p "invalid binary Android XML resource-map geometry"
  failIf (st.resourceMapSeen = true) p "duplicate binary Android XML resource map"
  let ids ← each (fun ids i => do
    let id ← u32 d (p+hs+i*4)
    return ids++[id]) st.resourceIds (List.range ((size-hs)/4))
  return { st with
    resourceMapSeen:=true,resourceIds:=ids,out:={st.out with resourceIdCount:=ids.length} }

def parseNamespace : ApkRun AxmlState := do
  headerTooShort hs size 8 p "invalid binary Android XML namespace chunk"
  let a ← u32 d (p+hs)
  let _ ← strOrNone st a (p+hs)
  let b ← u32 d (p+hs+4)
  let _ ← strOrNone st b (p+hs+4)
  return st

def parseCdata : ApkRun AxmlState := do
  headerTooShort hs size 12 p "invalid binary Android XML CDATA chunk"
  let a ← u32 d (p+hs)
  let _ ← str st a (p+hs)
  let valueSize ← u16 d (p+hs+4)
  failIf (valueSize ≠ 8) (p+hs+4) "invalid binary Android XML CDATA typed value"
  let res0 ← byteAt d (p+hs+6)
  failIf (res0 ≠ 0) (p+hs+4) "invalid binary Android XML CDATA typed value"
  return st

def parseChunk (type hs size : ℕ) : ApkRun AxmlState :=
  if type = 0x0001 then parseStringPool d st p hs size
  else if type = 0x0180 then parseResourceMap d st p hs size
  else if type = 0x0100 ∨ type = 0x0101 then parseNamespace d st p hs size
  else if type = 0x0102 then parseStartElement d st p hs size
  else if type = 0x0103 then parseEndElement d st p hs size
  else if type = 0x0104 then parseCdata d st p hs size
  else fail p "unsupported binary Android XML chunk type"

def chunkTurn (s : ℕ×AxmlState) : ApkRun (Option (ℕ×AxmlState)) :=
  if s.1 < d.length then do
    let p := s.1
    need doc d p 8 "chunk header"
    let type ← u16 d p
    let hs ← u16 d (p+2)
    let size ← u32 d (p+4)
    failIf (hs < 8 ∨ size < hs ∨ size > d.length-p) p
      "invalid binary Android XML child chunk geometry"
    let st ← parseChunk d s.2 p type hs size
    return some (p+size,st)
  else return none

def sortedPermissions (l : List Bytes) : List Bytes :=
  (l.insertionSort fun a b => bytesLt b a = false).dedup

def finished : ApkManifestInfo :=
  let out := if st.out.packageName = [] then
    {st.out with anomalies:=st.out.anomalies ++ [bytes "manifest package name was not recovered"]}
    else st.out
  {out with permissions:=sortedPermissions out.permissions}

def parse : ApkRun ApkManifestInfo := do
  let rootHs ← u16 d 2
  let rootSize ← u32 d 4
  failIf (rootHs ≠ 8 ∨ rootSize ≠ d.length) 0 "invalid binary Android XML root chunk geometry"
  let (p,st) ← turns (ℕ×AxmlState) (chunkTurn d) (d.length+1) (rootHs,st)
  failIf (st.stringPoolSeen = false ∨ st.rootSeen = false ∨ st.rootClosed = false ∨
    st.elementStack ≠ []) p "incomplete binary Android XML document"
  return finished st

/-- A failed parse reports its message; what it had collected is dropped. -/
def run : ApkRun ApkManifestInfo :=
  if d.length < 8 then return {}
  else do
    let b ← read d 0 2
    if littleEndian b ≠ 0x0003 then return {}
    else
      let st : AxmlState := {out:={candidate:=true}}
      caught (parse d st) (fun out => {out with valid:=true,parseComplete:=true})
        fun message offset => {st.out with error:=message,errorOffset:=offset}

end AxmlParser

end AutoRefirst.Apk
