import AutoRefirst.AndroidManifest
import AutoRefirst.OrderedMap

/-!
# Resource tables

The parser of `resources.arsc`: the string pools, the packages with their type specifications,
and the default value of every resource.
-/

namespace AutoRefirst.Apk
open CheckedRun

structure ResourceScalar where
  type : UInt8 := 0
  data : ℕ := 0
  (value packageName typeName keyName : Bytes := [])
  deriving DecidableEq

structure ApkResourceTableInfo where
  (candidate valid parseComplete : Bool := false)
  (declaredPackageCount parsedPackageCount typeSpecCount typeConfigCount defaultScalarCount
    complexEntryCount nondefaultConfigCount : ℕ := 0)
  (packageNames anomalies : List Bytes := [])
  error : String := ""
  errorOffset : ℕ := 0
  deriving DecidableEq

/-- What is known of the table; the default values go by the identifiers of the resources. -/
structure ResourceTableParse where
  info : ApkResourceTableInfo := {}
  defaults : OrderedMap ℕ ResourceScalar := []

structure ArscState where
  result : ResourceTableParse := {}
  globalStrings : List Bytes := []

namespace ArscParser

def doc : String := "truncated Android resource table "

variable (d : Bytes)

def u16 (off : ℕ) : ApkRun ℕ := numberAt doc d off 2 "uint16"

def u32 (off : ℕ) : ApkRun ℕ := numberAt doc d off 4 "uint32"

def geometry : String := "invalid UTF-8 resource string geometry"

def stringUtf8 (p stringEnd : ℕ) : ApkRun Bytes := do
  let x ← len8 d p stringEnd
  let _ ← AxmlParser.lengthAt x geometry
  let y ← len8 d x.1 stringEnd
  let size ← AxmlParser.lengthAt y geometry
  let p := y.1
  failIf (size > stringEnd-p ∨ p+size ≥ stringEnd) p geometry
  let text ← read d p size
  failIf (validUtf8 text = false) p "invalid UTF-8 resource string"
  let last ← byteAt d (p+size)
  failIf (last ≠ 0) p "invalid UTF-8 resource string"
  return text

def stringUtf16 (p stringEnd : ℕ) : ApkRun Bytes := do
  let x ← len16 d p stringEnd
  let units ← AxmlParser.lengthAt x "invalid UTF-16 resource string length"
  let p := x.1
  let size := units*2
  failIf (size > stringEnd-p ∨ p+size+2 > stringEnd) p
    "invalid UTF-16 resource string geometry"
  let last ← u16 d (p+size)
  failIf (last ≠ 0) p "invalid UTF-16 resource string geometry"
  let text ← read d p size
  match utf16leToUtf8 text with
  | some s => return s
  | none => fail p "invalid UTF-16 resource string"

/-- The header of a pool, whose first words have been read; `none` for a pool with nothing
in it. -/
def poolHeader (off hs size : ℕ) (label : String) : ApkRun (Option AxmlParser.PoolHeader) := do
  let count ← u32 d (off+8)
  let styles ← u32 d (off+12)
  let flags ← u32 d (off+16)
  let stringsStart ← u32 d (off+20)
  let stylesStart ← u32 d (off+24)
  failIf (count > 1000000 ∨ styles > 1000000) (off+8)
    ("unreasonable "++label++" string/style count")
  let entries ← sum .counts count styles
  let indexBytes := entries*4
  failIf (indexBytes > size-hs) (off+hs) "string pool index arrays exceed chunk"
  if count = 0 ∧ styles = 0 then
    failIf (stringsStart ≠ 0 ∧ stringsStart < hs+indexBytes) (off+20)
      "invalid empty string pool stringsStart"
    return none
  else
    failIf (stringsStart < hs+indexBytes ∨ stringsStart ≥ size) (off+20)
      "invalid string pool stringsStart"
    failIf (stylesStart ≠ 0 ∧ (stylesStart < stringsStart ∨ stylesStart ≥ size)) (off+24)
      "invalid string pool stylesStart"
    return some { count,utf8:=flags &&& 0x100 ≠ 0,stringsStart,
                  stringEnd := if stylesStart ≠ 0 then off+stylesStart else off+size }

def poolString (off hs size : ℕ) (h : AxmlParser.PoolHeader) (i : ℕ) : ApkRun Bytes := do
  let refOff := off+hs+i*4
  let rel ← u32 d refOff
  failIf (rel ≥ size-h.stringsStart) refOff "string offset exceeds pool"
  let p := off+h.stringsStart+rel
  failIf (p ≥ h.stringEnd) p "string starts past string pool"
  if h.utf8 then stringUtf8 d p h.stringEnd else stringUtf16 d p h.stringEnd

def pool (d : Bytes) (off limit : ℕ) (label : String) : ApkRun (List Bytes) := do
  failIf (off+8 > limit) off (label++" does not point to ResStringPool")
  let type ← u16 d off
  failIf (type ≠ 0x0001) off (label++" does not point to ResStringPool")
  let hs ← u16 d (off+2)
  let size ← u32 d (off+4)
  failIf (hs < 28 ∨ size < hs ∨ size > limit-off) off
    ("invalid "++label++" string pool geometry")
  let h ← poolHeader d off hs size label
  match h with
  | none => return []
  | some h =>
    each (fun out i => do
      let s ← poolString d off hs size h i
      return out++[s]) [] (List.range h.count)

/-- The units before the first zero of the next `n`. -/
def unitsAt (d : Bytes) (off : ℕ) : ℕ → ℕ → ApkRun ℕ
  | 0, units => return units
  | n+1, units => do
    let u ← u16 d (off+units*2)
    if u ≠ 0 then unitsAt d off n (units+1) else return units

def packageName (off : ℕ) : ApkRun Bytes := do
  need doc d off 256 "package name"
  let units ← unitsAt d off 128 0
  failIf (units = 128) off "unterminated Android resource package name"
  let b ← read d off (units*2)
  match utf16leToUtf8 b with
  | some text =>
    failIf (text = []) off "invalid Android resource package name"
    return text
  | none => fail off "invalid Android resource package name"

/-- Whether the next `n` bytes are zero. There is no test that they are in the input: a byte that
is not is no zero here. -/
def zerosAt (d : Bytes) : ℕ → ℕ → ApkRun Bool
  | 0, _ => return true
  | n+1, p => do
    let b ← read d p 1
    if b = [0] then zerosAt d n (p+1) else return false

def defaultConfig (off size : ℕ) : ApkRun Bool :=
  if size < 4 then return false else zerosAt d (size-4) (off+4)

variable (st : ArscState) (off : ℕ)

def validateValue (stop : ℕ) : ApkRun (UInt8×ℕ) := do
  failIf (off+8 > stop) off "resource value exceeds type chunk"
  let size ← u16 d off
  failIf (size ≠ 8) off "invalid resource Res_value header"
  let res0 ← byteAt d (off+2)
  failIf (res0 ≠ 0) off "invalid resource Res_value header"
  let type ← byteAt d (off+3)
  let data ← u32 d (off+4)
  failIf (type = 0x03 ∧ data ≥ st.globalStrings.length) (off+4)
    "resource string value index out of range"
  return (type,data)

def scalarValue (type : UInt8) (data : ℕ) : Bytes :=
  if type = 0x03 then st.globalStrings.getD data []
  else if type = 0x12 then bytes (if data ≠ 0 then "true" else "false")
  else if type = 0x10 then AxmlParser.decimal data
  else if type = 0x11 then bytes "0x"++hexTrimmed data
  else if type = 0x01 ∨ type = 0x07 then bytes "@0x"++hexDigits 8 data
  else []

def scalar (type : UInt8) (data : ℕ) (package typeName key : Bytes) : ResourceScalar :=
  { type,data,value:=scalarValue st type data,packageName:=package,typeName,
    keyName:=key }

structure EntryContext where
  chunkEnd : ℕ
  (package typeName : Bytes)
  keys : List Bytes
  storeDefault : Bool

def withInfo (f : ApkResourceTableInfo→ApkResourceTableInfo) : ArscState :=
  {st with result:={st.result with info:=f st.result.info}}

variable (c : EntryContext) (entry : ℕ)

/-- A scalar entry, once its value is known. -/
def storeEntry (resid keyIndex : ℕ) (type : UInt8) (data : ℕ) : ApkRun ArscState := do
  failIf (keyIndex ≥ c.keys.length) (entry+4) "resource key index out of range"
  if c.storeDefault = false then return st
  else
    let value := scalar st type data c.package c.typeName (c.keys.getD keyIndex [])
    failIf ((st.result.defaults.find resid).isSome = true) entry "duplicate default resource value"
    let st := { st with
      result:={st.result with defaults:=st.result.defaults.insert resid value} }
    return withInfo st fun i => {i with defaultScalarCount:=i.defaultScalarCount+1}

def compactEntry (resid first flags : ℕ) : ApkRun ArscState := do
  failIf (flags &&& 0x0001 ≠ 0) (entry+2) "compact resource entry is also marked complex"
  let type := (flags >>> 8).toUInt8
  let data ← u32 d (entry+4)
  failIf (type = 0x03 ∧ data ≥ st.globalStrings.length) (entry+4)
    "compact resource string index out of range"
  storeEntry st c entry resid first type data

def complexEntry (size : ℕ) : ApkRun ArscState := do
  failIf (size < 16) entry "complex resource entry header too small"
  let count ← u32 d (entry+12)
  failIf (count > 1000000 ∨ count*12 > c.chunkEnd-(entry+size)) (entry+12)
    "complex resource map exceeds type chunk"
  each (fun _ i => do
    let map := entry+size+i*12
    let _ ← u32 d map
    let _ ← validateValue d st (map+4) c.chunkEnd
    return ()) () (List.range count)
  return withInfo st fun i => {i with complexEntryCount:=i.complexEntryCount+1}

def parseEntry (resid : ℕ) : ApkRun ArscState := do
  failIf (entry+8 > c.chunkEnd) entry "resource entry header exceeds type chunk"
  let first ← u16 d entry
  let flags ← u16 d (entry+2)
  if flags &&& 0x0008 ≠ 0 then compactEntry d st c entry resid first flags
  else
    failIf (first < 8 ∨ entry+first > c.chunkEnd) entry "invalid resource entry size"
    let keyIndex ← u32 d (entry+4)
    if flags &&& 0x0001 ≠ 0 then complexEntry d st c entry first
    else
      let v ← validateValue d st (entry+first) c.chunkEnd
      storeEntry st c entry resid keyIndex v.1 v.2

structure TypeChunk where
  (off size headerSize : ℕ)
  flags : UInt8
  (count entriesStart : ℕ)
  /-- The identifiers of its resources but for their last sixteen bits. -/
  base : ℕ
  /-- The number of entries its specification has. -/
  specCount : ℕ
  isDefault : Bool
  typeName : Bytes

/-- What a package has read when it comes to its types. -/
structure PackageContext where
  name : Bytes
  (packageId typeIdOffset : ℕ)
  (types keys : List Bytes)
  specs : OrderedMap ℕ ℕ

variable (t : TypeChunk)

def isSparse : Bool := t.flags &&& 0x01 ≠ 0

def isShort : Bool := t.flags &&& 0x02 ≠ 0

/-- A turn over a sparse table: the last index seen goes with the state. -/
def sparseEntry (s : Option ℕ×ArscState) (i : ℕ) : ApkRun (Option ℕ×ArscState) := do
  let pos := t.off+t.headerSize+i*4
  let entryIndex ← u16 d pos
  let offset16 ← u16 d (pos+2)
  failIf (∃ previous ∈ s.1, entryIndex ≤ previous) pos
    "sparse resource indices are unsorted/duplicate"
  failIf (entryIndex ≥ t.specCount) pos "sparse resource entry index exceeds typeSpec"
  failIf (offset16 = 0xffff) (pos+2) "sparse resource entry uses NO_ENTRY offset"
  let entryOffset := offset16*4
  failIf (entryOffset > t.size-t.entriesStart) (pos+2)
    "sparse resource offset exceeds chunk"
  let st ← parseEntry d s.2 c (t.off+t.entriesStart+entryOffset) (t.base ||| entryIndex)
  return (some entryIndex,st)

/-- The offset of a dense entry and where it stands; `none` where there is no entry. -/
def denseOffset (i : ℕ) : ApkRun (Option ℕ) :=
  if isShort t then do
    let x ← u16 d (t.off+t.headerSize+i*2)
    return if x = 0xffff then none else some (x*4)
  else do
    let x ← u32 d (t.off+t.headerSize+i*4)
    return if x = 0xffffffff then none else some x

def denseEntry (st : ArscState) (i : ℕ) : ApkRun ArscState := do
  let o ← denseOffset d t i
  match o with
  | none => return st
  | some entryOffset =>
    failIf (entryOffset > t.size-t.entriesStart)
      (t.off+t.headerSize + i * if isShort t then 2 else 4)
      "resource entry offset exceeds chunk"
    parseEntry d st c (t.off+t.entriesStart+entryOffset) (t.base ||| i)

def typeEntries (st : ArscState) : ApkRun ArscState :=
  if isSparse t then do
    let s ← each (sparseEntry d c t) (none,st) (List.range t.count)
    return s.2
  else each (denseEntry d c t) st (List.range t.count)

variable (x : PackageContext)

/-- The header of the type at `off`. The sum with the size of the configuration is made in 32
bits. -/
def typeHeader (off size : ℕ) : ApkRun TypeChunk := do
  let headerSize ← u16 d (off+2)
  failIf (headerSize < 24 ∨ size < headerSize) off "invalid ResTable_type header"
  let id ← byteAt d (off+8)
  let flags ← byteAt d (off+9)
  failIf (id = 0 ∨ flags &&& 0xfc ≠ 0) (off+8) "invalid ResTable_type id/flags/reserved"
  let reserved ← u16 d (off+10)
  failIf (reserved ≠ 0) (off+8) "invalid ResTable_type id/flags/reserved"
  let count ← u32 d (off+12)
  let entriesStart ← u32 d (off+16)
  let configSize ← u32 d (off+20)
  failIf (configSize < 4) (off+20) "invalid ResTable_config size"
  let configEnd ← sum (.config off) 20 configSize
  failIf (configEnd > headerSize) (off+20) "invalid ResTable_config size"
  failIf (count > 1000000) (off+12) "unreasonable resource type entryCount"
  let effectiveType := (id.toNat+x.typeIdOffset) % 2^32
  failIf (effectiveType = 0 ∨ effectiveType > 255) (off+8)
    "resource effective type id out of range"
  failIf (id.toNat > x.types.length) (off+8) "resource type id exceeds typeStrings"
  match x.specs.find id.toNat with
  | none => fail (off+8) "ResTable_type has no matching typeSpec"
  | some specCount =>
    failIf (flags &&& 0x01 = 0 ∧ count ≠ specCount) (off+12)
      "ResTable_type entryCount differs from typeSpec"
    failIf (flags &&& 0x01 ≠ 0 ∧ count > specCount) (off+12)
      "sparse ResTable_type entryCount exceeds typeSpec"
    let isDefault ← defaultConfig d (off+20) configSize
    return { off,size,headerSize,flags,count,entriesStart,
             base:=(x.packageId <<< 24) ||| (effectiveType <<< 16),specCount,isDefault,
             typeName:=x.types.getD (id.toNat-1) [] }

def indexBytes : ℕ :=
  if isSparse t then t.count*4 else if isShort t then t.count*2 else t.count*4

def parseType (st : ArscState) (off size : ℕ) : ApkRun ArscState := do
  let t ← typeHeader d x off size
  let st := withInfo st fun i => { i with
    typeConfigCount:=i.typeConfigCount+1
    nondefaultConfigCount:=i.nondefaultConfigCount + if t.isDefault then 0 else 1 }
  failIf (indexBytes t > size-t.headerSize ∨ t.entriesStart < t.headerSize + indexBytes t ∨
    t.entriesStart > size) (off+t.headerSize)
    "resource type index/entriesStart geometry invalid"
  typeEntries d { chunkEnd:=off+size,package:=x.name,typeName:=t.typeName,
                  keys:=x.keys,storeDefault:=t.isDefault } t st

def typeSpec (types : List Bytes) (specs : OrderedMap ℕ ℕ) (p hs size : ℕ) :
    ApkRun (OrderedMap ℕ ℕ) := do
  failIf (hs ≠ 16 ∨ size < 16) p "invalid ResTable_typeSpec header"
  let id ← byteAt d (p+8)
  let res0 ← byteAt d (p+9)
  failIf (id = 0 ∨ res0 ≠ 0) (p+8) "invalid ResTable_typeSpec id/reserved"
  let res1 ← u16 d (p+10)
  failIf (res1 ≠ 0 ∨ id.toNat > types.length) (p+8) "invalid ResTable_typeSpec id/reserved"
  let entryCount ← u32 d (p+12)
  failIf (entryCount > 65536 ∨ entryCount*4 ≠ size-16) (p+12)
    "ResTable_typeSpec entryCount/size mismatch"
  failIf ((specs.find id.toNat).isSome = true) (p+8) "duplicate ResTable_typeSpec id"
  return specs.insert id.toNat entryCount

def specTurn (types : List Bytes) (stop : ℕ)
    (s : ℕ×OrderedMap ℕ ℕ×ArscState) : ApkRun (Option (ℕ×OrderedMap ℕ ℕ×ArscState)) :=
  if s.1 < stop then do
    let p := s.1
    failIf (p+8 > stop) p "truncated resource package child chunk"
    let type ← u16 d p
    let hs ← u16 d (p+2)
    let size ← u32 d (p+4)
    failIf (hs < 8 ∨ size < hs ∨ size > stop-p) p
      "invalid resource package child chunk geometry"
    if type = 0x0202 then
      let specs ← typeSpec d types s.2.1 p hs size
      return some (p+size,specs,
        withInfo s.2.2 fun i => {i with typeSpecCount:=i.typeSpecCount+1})
    else return some (p+size,s.2)
  else return none

/-- A turn of the second walk over the children: its types. -/
def typeTurn (stop : ℕ) (s : ℕ×ArscState) : ApkRun (Option (ℕ×ArscState)) :=
  if s.1 < stop then do
    let p := s.1
    let type ← u16 d p
    let size ← u32 d (p+4)
    if type = 0x0201 then
      let st ← parseType d x s.2 p size
      return some (p+size,st)
    else if type ≠ 0x0001 ∧ type ≠ 0x0202 then
      return some (p+size,withInfo s.2 fun i => { i with
        anomalies:=i.anomalies ++
          [bytes "uninterpreted resource package chunk type 0x"++hexDigits 4 type] })
    else return some (p+size,s.2)
  else return none

def typeOffset (hs : ℕ) : ApkRun ℕ :=
  if hs ≥ 288 then u32 d (off+284) else return 0

/-- The words of a package's header: where its types and its keys are named, and what is added
to the identifiers of its types. -/
def packageHeader (hs size : ℕ) : ApkRun (ℕ×Bytes×ℕ×ℕ×ℕ) := do
  failIf (hs < 284 ∨ size < hs) off "invalid ResTable_package header"
  let packageId ← u32 d (off+8)
  failIf (packageId = 0 ∨ packageId > 255) (off+8) "invalid resource package id"
  let name ← packageName d (off+12)
  let typeStringsOff ← u32 d (off+268)
  let keyStringsOff ← u32 d (off+276)
  let typeIdOffset ← typeOffset d off hs
  failIf (typeStringsOff < hs ∨ keyStringsOff < hs ∨ typeStringsOff ≥ size ∨
    keyStringsOff ≥ size) (off+268) "invalid resource package string-pool offsets"
  return (packageId,name,typeStringsOff,keyStringsOff,typeIdOffset)

def parsePackage (hs size : ℕ) : ApkRun ArscState := do
  let (packageId,name,typeStringsOff,keyStringsOff,typeIdOffset) ← packageHeader d off hs size
  let types ← pool d (off+typeStringsOff) (off+size) "typeStrings"
  let keys ← pool d (off+keyStringsOff) (off+size) "keyStrings"
  let st := withInfo st fun i => { i with
    packageNames:=i.packageNames++[name],parsedPackageCount:=i.parsedPackageCount+1 }
  let (_,specs,st) ← turns (ℕ×OrderedMap ℕ ℕ×ArscState) (specTurn d types (off+size))
    (size+1) (off+hs,[],st)
  let x : PackageContext := { name, packageId, typeIdOffset, types, keys, specs }
  let (_,st) ← turns (ℕ×ArscState) (typeTurn d x (off+size)) (size+1) (off+hs,st)
  return st

/-- A turn over the chunks of the table; the state says whether the global pool was seen. -/
def chunkTurn (s : ℕ×Bool×ArscState) : ApkRun (Option (ℕ×Bool×ArscState)) :=
  if s.1 < d.length then do
    let p := s.1
    need doc d p 8 "child chunk"
    let type ← u16 d p
    let hs ← u16 d (p+2)
    let size ← u32 d (p+4)
    failIf (hs < 8 ∨ size < hs ∨ size > d.length-p) p
      "invalid Android resource-table child geometry"
    if type = 0x0001 then
      failIf (s.2.1 = true) p "duplicate global resource string pool"
      let strings ← pool d p d.length "global"
      return some (p+size,true,{s.2.2 with globalStrings:=strings})
    else if type = 0x0200 then
      failIf (s.2.1 = false) p "resource package appears before global string pool"
      let st ← parsePackage d s.2.2 p hs size
      return some (p+size,s.2.1,st)
    else fail p "unsupported top-level Android resource-table chunk"
  else return none

def parse : ApkRun ResourceTableParse := do
  let rootHs ← u16 d 2
  failIf (rootHs ≠ 12) 0 "invalid Android resource-table root geometry"
  let rootSize ← u32 d 4
  failIf (rootSize ≠ d.length) 0 "invalid Android resource-table root geometry"
  let declared ← u32 d 8
  failIf (declared = 0 ∨ declared > 255) 8 "invalid Android resource-table packageCount"
  let st := withInfo {} fun i => {i with candidate:=true,declaredPackageCount:=declared}
  let (p,globalSeen,st) ← turns (ℕ×Bool×ArscState) (chunkTurn d) (d.length+1)
    (12,false,st)
  failIf (globalSeen = false ∨
    st.result.info.parsedPackageCount ≠ st.result.info.declaredPackageCount) p
    "resource-table package count mismatch"
  return st.result

/-- A failed parse reports its message; what it had collected is dropped. -/
def run : ApkRun ResourceTableParse :=
  if d.length < 12 then return {}
  else do
    let b ← read d 0 2
    if littleEndian b ≠ 0x0002 then return {}
    else
      caught (parse d)
        (fun r => {r with info:={r.info with valid:=true,parseComplete:=true}})
        fun message offset =>
          {info:={candidate:=true,error:=message,errorOffset:=offset}}

end ArscParser

end AutoRefirst.Apk
