import AutoRefirst.NuitkaExtraction

/-!
# Nuitka constant streams

A block of constants is read in three encodings. The decoder is written over what it builds:
the program builds texts, and the same reading can build the constants themselves.
-/

namespace AutoRefirst.NuitkaConstants
open Nuitka (NuitkaConstantBlock)

inductive ConstEncoding where
  | varint | legacyLong32 | legacyLong64
  deriving DecidableEq

/-- What a reader keeps while it runs: the first error stays. -/
structure Cursor where
  d : Bytes
  encoding : ConstEncoding
  p : ℕ := 0
  error : Option (String×ℕ) := none
  stringValues : List Bytes := []

/-- A run over a state that may give up. -/
def Attempt (σ α : Type) : Type := σ → Option α×σ

def Attempt.next {σ α β : Type} (f : α→Attempt σ β) : Option α×σ → Option β×σ
  | (some a,r) => f a r
  | (none,r) => (none,r)

instance {σ : Type} : Monad (Attempt σ) where
  pure a := fun r => (some a,r)
  bind m f := fun r => Attempt.next f (m r)

/-- A read that notes an error and goes on gives a value. -/
abbrev Read := Attempt Cursor

def Cursor.fail (r : Cursor) (msg : String) : Cursor :=
  {r with error:=r.error.or (some (msg,r.p))}

def fail {α : Type} (msg : String) : Read α := fun r => (none,r.fail msg)

def noted {α : Type} (msg : String) (a : α) : Read α := fun r => (some a,r.fail msg)

def stop {α : Type} : Read α := fun r => (none,r)

def failed : Read Bool := fun r => (some r.error.isSome,r)

def legacy : Read Bool := fun r => (some (r.encoding ≠ .varint),r)

def legacyLongWidth : Read ℕ := fun r =>
  (some (if r.encoding = .legacyLong64 then 8 else 4),r)

variable (n : ℕ)

def needed : Read (Option Bytes) := fun r =>
  if n ≤ r.d.length - min r.p r.d.length then
    (some (some ((r.d.drop r.p).take n)),{r with p:=r.p+n})
  else (some none,r.fail "constant blob truncated")

/-- A number of `n` bytes; 0 when they are not there. -/
def fixed : Read ℕ := do
  let b ← needed n
  return (b.map littleEndian).getD 0

def byte : Read UInt8 := do
  let b ← needed 1
  return (b.bind List.head?).getD 0

def word : Read ℕ := fixed 2

/-- A two's complement number. -/
def signedFixed (width : ℕ) : Read ℤ := do
  let v ← fixed width
  let bad ← failed
  return if bad then 0 else if 2^(8*width-1) ≤ v then (v : ℤ)-2^(8*width) else v

def maxU64 : ℕ := 2^64-1

/-- Digits to the base 128, the lowest first; `k` more may follow. -/
def varFrom : ℕ → ℕ → ℕ → Read ℕ
  | 0, _, _ => noted "constant varint too long" 0
  | k+1, r, f => do
    let v ← byte
    let bad ← failed
    let digit := (v &&& 0x7f).toNat
    if bad then return 0
    else if digit ≠ 0 ∧ maxU64/f < digit then noted "constant varint overflow" 0
    else if v < 128 then return r+digit*f
    else if maxU64 >>> 7 < f then noted "constant varint overflow" 0
    else varFrom k (r+digit*f) (f*128)

def var : Read ℕ := varFrom 10 0 1

def sizeValue : Read ℕ := do
  let old ← legacy
  if old then fixed 4 else var

/-- A string up to a NUL. -/
def cstr : Read Bytes := fun r =>
  let x := ((r.d.drop r.p).take (1 <<< 20)).takeWhile (· ≠ 0)
  if r.p+x.length ≥ r.d.length ∨ x.length ≥ 1 <<< 20 then
    (some [],r.fail "unterminated constant string")
  else (some x,{r with p:=r.p+x.length+1})

def rawstr : Read Bytes := fun r =>
  if n > r.d.length-r.p then (some [],r.fail "constant string length out of range")
  else (some ((r.d.drop r.p).take n),{r with p:=r.p+n})

def printableHint (s : Bytes) : Bool :=
  decide (3 ≤ s.length) && decide (s.length ≤ 4096) &&
    s.countP (fun c => 0x20 ≤ c && c < 0x7f) * 100 / s.length ≥ 85

def saveString (x : Bytes) : Read Unit := fun r =>
  (some (),if printableHint x ∧ r.stringValues.length < 4096 then
    {r with stringValues:=r.stringValues++[x]} else r)

inductive Leaf where
  | none_ | true_ | false_ | empty
  | natural (neg : Bool) (n : ℕ)
  | signed (n : ℤ)
  | bigint (neg : Bool) (parts : List ℕ)
  | double (bits : ℕ)
  | complex (re im : ℕ)
  | text (s : Bytes)
  | byteString (s : Bytes)
  | byteArray (s : Bytes)
  | anonymous (special : Bool) (n : UInt8)
  | builtin (exception : Bool) (name : Bytes)
  | special (n : UInt8)
  | blob (data : Bytes)
  deriving DecidableEq

variable (tag : UInt8)

/-- Values given by the tag alone. -/
def plainLeaf : Option Leaf :=
  if tag = 0x6e then some .none_ else if tag = 0x74 then some .true_
  else if tag = 0x46 then some .false_ else if tag = 0x73 then some .empty else none

/-- The result stands when no error was noted. -/
def clean {α : Type} (a : α) : Read α := do
  let bad ← failed
  if bad then stop else return a

def numbers (m : Read ℕ) : ℕ → Read (List ℕ)
  | 0 => return []
  | n+1 => do
    let x ← m
    let xs ← numbers m n
    return x::xs

def legacyInt : Read Leaf := do
  if tag = 0x49 then fail "negative-int tag is not valid in legacy fixed-width constant streams"
  else
    let width ← legacyLongWidth
    let n ← signedFixed (if tag = 0x71 then 8 else width)
    clean (.signed n)

def intLeaf : Read Leaf := do
  let old ← legacy
  if old then legacyInt tag
  else
    let n ← var
    return .natural (tag = 0x71 || tag = 0x49) n

def bigintParts (neg : Bool) (n : ℕ) (part : Read ℕ) : Read Leaf :=
  if n > 100000 then fail "large integer part count unreasonable"
  else do
    let parts ← numbers part n
    clean (.bigint neg parts)

def legacyBigint : Read Leaf := do
  let sign ← byte
  if sign ≠ 0x2b ∧ sign ≠ 0x2d then fail "invalid legacy bigint sign"
  else
    let n ← fixed 4
    bigintParts (sign = 0x2d) n (fixed 8)

def varBigint (neg : Bool) : Read Leaf := do
  let n ← var
  bigintParts neg n var

def bigintLeaf : Read Leaf := do
  let old ← legacy
  if old then legacyBigint else varBigint false

def doubleLeaf : Read Leaf := do
  let b ← needed 8
  match b with
  | none => stop
  | some b => return .double (littleEndian b)

def complexLeaf : Read Leaf := do
  let b ← needed 16
  match b with
  | none => stop
  | some b => return .complex (littleEndian (b.take 8)) (littleEndian (b.drop 8))

def stringKind (x : Bytes) : Leaf :=
  if tag = 0x77 ∨ tag = 0x75 ∨ tag = 0x61 ∨ tag = 0x76 then .text x
  else if tag = 0x42 then .byteArray x
  else .byteString x

def oneByteString : Read Leaf := do
  let b ← needed 1
  match b with
  | none => stop
  | some x =>
    saveString x
    return stringKind tag x

def cString : Read Leaf := do
  let x ← cstr
  let bad ← failed
  if bad then stop
  else
    saveString x
    return stringKind tag x

def sizedString : Read Leaf := do
  let n ← sizeValue
  if n > 1 <<< 31 then fail "constant byte/string length unreasonable"
  else
    let x ← rawstr n
    let bad ← failed
    if bad then stop
    else
      saveString x
      return stringKind tag x

def builtinLeaf : Read Leaf := do
  let x ← cstr
  let bad ← failed
  if bad then stop
  else
    saveString x
    return .builtin (tag = 0x45) x

def anonymousLeaf : Read Leaf := do
  let n ← byte
  clean (.anonymous (tag = 0x51) n)

def specialLeaf : Read Leaf := do
  let n ← byte
  if n ≥ 6 then fail "invalid float-special subtype" else return .special n

def blobLeaf : Read Leaf := do
  let n ← sizeValue
  fun r =>
    if n > r.d.length-r.p then (none,r.fail "blob-data length out of range")
    else (some (.blob ((r.d.drop r.p).take n)),{r with p:=r.p+n})

def unknownTag : String :=
  "unknown Nuitka constant tag 0x"++String.ofList (Nat.toDigits 16 tag.toNat)

def decodeLeaf : Read Leaf :=
  match plainLeaf tag with
  | some l => return l
  | none =>
    if tag = 0x6c ∨ tag = 0x71 ∨ tag = 0x69 ∨ tag = 0x49 then intLeaf tag
    else if tag = 0x67 then bigintLeaf
    else if tag = 0x47 then varBigint true
    else if tag = 0x66 then doubleLeaf
    else if tag = 0x6a then complexLeaf
    else if tag = 0x77 ∨ tag = 0x64 then oneByteString tag
    else if tag = 0x75 ∨ tag = 0x61 ∨ tag = 0x63 then cString tag
    else if tag = 0x76 ∨ tag = 0x62 ∨ tag = 0x42 then sizedString tag
    else if tag = 0x4d ∨ tag = 0x51 then anonymousLeaf tag
    else if tag = 0x4f ∨ tag = 0x45 then builtinLeaf tag
    else if tag = 0x5a then specialLeaf
    else if tag = 0x58 then blobLeaf
    else if tag = 0x41 then
      fail "GenericAlias tag is not valid in legacy fixed-width constant streams"
    else if tag = 0x2e then fail "unexpected END tag before declared constant count"
    else fail (unknownTag tag)

inductive Group where
  | tuple | list | set | frozenset | complex | slice | range | alias_ | union
  deriving DecidableEq

def sizedGroup : Option Group :=
  if tag = 0x54 then some .tuple else if tag = 0x4c then some .list
  else if tag = 0x53 then some .set else if tag = 0x50 then some .frozenset else none

/-- The groups of a size of their own; two tags change their meaning with the encoding. -/
def fixedGroup (old : Bool) (tag : UInt8) : Option (Group×ℕ) :=
  if tag = 0x4a then some (.complex,2) else if tag = 0x3a then some (.slice,3)
  else if tag = 0x3b then some (.range,3) else if tag = 0x48 then some (.union,1)
  else if (tag = 0x47 ∧ old) ∨ (tag = 0x41 ∧ ¬old) then some (.alias_,2) else none

/-- What a code-object tag reads. -/
structure CodeFields (V : Type) where
  flags : ℕ
  name : V
  line : ℕ
  args : V
  argCount : ℕ
  (qualname freeVars : Option V)
  (kwOnly posOnly : ℕ)

structure Builder (V : Type) where
  leaf : Leaf → V
  again : V → V
  group : Group → List V → V
  dict : List V → List V → V
  code : CodeFields V → V

structure ConstReader (V : Type) where
  cursor : Cursor
  codeObjects : List (CodeFields V) := []

abbrev Decode (V : Type) := Attempt (ConstReader V)

variable {V α : Type}

def lift (m : Read α) : Decode V α := fun r =>
  ((m r.cursor).1,{r with cursor:=(m r.cursor).2})

def pushCode (c : CodeFields V) : Decode V Unit := fun r =>
  (some (),{r with codeObjects:=r.codeObjects++[c]})

def seqFrom (value : Option V→Decode V V) : ℕ → Option V → Decode V (List V)
  | 0, _ => return []
  | n+1, previous => do
    let v ← value previous
    let vs ← seqFrom value n (some v)
    return v::vs

def decodeSeq (value : Option V→Decode V V) (n : ℕ) : Decode V (List V) :=
  if n > 1000000 then lift (fail "constant sequence count unreasonable")
  else seqFrom value n none

def whenSet (c : Bool) (m : Decode V α) : Decode V (Option α) :=
  if c then do
    let a ← m
    return some a
  else return none

def countWhenSet (c : Bool) : Decode V ℕ := do
  let n ← whenSet c (lift var)
  return (n.map (· + 1)).getD 0

def codeFields (value : Option V→Decode V V) (flags : ℕ) : Decode V (CodeFields V) := do
  let name ← value none
  let line ← lift var
  let args ← value none
  let argCount ← lift var
  let qualname ← whenSet (flags.testBit 0) (value none)
  let freeVars ← whenSet (flags.testBit 1) (value none)
  let kwOnly ← countWhenSet (flags.testBit 2)
  let posOnly ← countWhenSet (flags.testBit 3)
  return ⟨flags,name,line+1,args,argCount,qualname,freeVars,kwOnly,posOnly⟩

variable (b : Builder V)

def decodeCode (deep : Bool) (value : Option V→Decode V V) : Decode V V := do
  let old ← lift legacy
  if old then lift (fail "code-object tag is not valid in legacy fixed-width constant streams")
  else if deep then lift (fail "Nuitka constant nesting too deep")
  else
    let flags ← lift var
    let _ ← lift (clean ())
    let c ← codeFields value flags
    let _ ← lift (clean ())
    pushCode c
    return b.code c

def decodeDict (value : Option V→Decode V V) : Decode V V := do
  let n ← lift sizeValue
  let ks ← decodeSeq value n
  let xs ← decodeSeq value n
  return b.dict ks xs

def decodeTagged (deep : Bool) (value : Option V→Decode V V) (tag : UInt8) : Decode V V := do
  let old ← lift legacy
  match sizedGroup tag with
  | some g =>
    let n ← lift sizeValue
    let xs ← decodeSeq value n
    return b.group g xs
  | none =>
    match fixedGroup old tag with
    | some (g,n) =>
      let xs ← decodeSeq value n
      return b.group g xs
    | none =>
      if tag = 0x44 then decodeDict b value
      else if tag = 0x43 then decodeCode b deep value
      else
        let l ← lift (decodeLeaf tag)
        return b.leaf l

/-- A value with `k` levels left to go down. -/
def decodeValue (b : Builder V) : ℕ → Option V → Decode V V
  | 0, _ => lift (fail "Nuitka constant nesting too deep")
  | k+1, previous => do
    let tag ← lift byte
    let _ ← lift (clean ())
    if tag = 0x70 then
      match previous with
      | none => lift (fail "PREVIOUS tag without previous value")
      | some v => return b.again v
    else decodeTagged b (k = 0) (decodeValue b k) tag

/-- An error that takes the place of the first one. -/
def refuse (msg : String) : Read α := fun r => (none,{r with error:=some (msg,r.p)})

def endTag : Read Unit := fun r =>
  if r.p ≥ r.d.length ∨ r.d.getD r.p 0 ≠ 0x2e then
    refuse "constant stream END tag missing after declared count" r
  else if r.p+1 ≠ r.d.length then
    refuse "constant stream trailing bytes after END tag" {r with p:=r.p+1}
  else (some (),{r with p:=r.p+1})

/-- The declared count and the values of a whole block. -/
def decodeBlock : Decode V (ℕ×List V) := do
  let n ← lift word
  let vals ← decodeSeq (decodeValue b 129) n
  lift endTag
  return (n,vals)

def hexDigit : UInt8 := ((if n < 10 then 0x30+n else 0x57+n) : ℕ).toUInt8

def escapeByte (c : UInt8) : Bytes :=
  if c = AutoRefirst.byte '\\' then bytes "\\\\"
  else if c = AutoRefirst.byte '"' then bytes "\\\""
  else if c = AutoRefirst.byte '\n' then bytes "\\n"
  else if c = AutoRefirst.byte '\r' then bytes "\\r"
  else if c = AutoRefirst.byte '\t' then bytes "\\t"
  else if 0x20 ≤ c ∧ c < 0x7f then [c]
  else bytes "\\x"++[hexDigit (c.toNat/16),hexDigit (c.toNat % 16)]

def reprText (s : Bytes) : Bytes :=
  bytes "\""++(s.take 512).flatMap escapeByte ++ (if s.length > 512 then bytes "..." else []) ++
    bytes "\""

def reprBytes (s : Bytes) : Bytes := bytes "b"++reprText s

def joinFrom (r : Bytes) : ℕ → List Bytes → Bytes
  | _, [] => r
  | n, x::xs =>
    let r := if n ≠ 0 then r++bytes ", " else r
    if r.length+x.length > 2048 then r++bytes "..." else joinFrom (r++x) (n+1) xs

def joinValues (open_ close : String) (v : List Bytes) : Bytes :=
  joinFrom (bytes open_) 0 v ++ bytes close

def dictFrom (z : Bytes) : ℕ → List (Bytes×Bytes) → Bytes
  | _, [] => z
  | i, (k,x)::kxs =>
    let z := if i ≠ 0 then z++bytes ", " else z
    if z.length+k.length+x.length > 2048 then z++bytes "..."
    else dictFrom (z ++ (k++bytes ": "++x)) (i+1) kxs

/-- What the decoder reports of a value. -/
structure DVal where
  repr : Bytes
  str : Option Bytes := none
  deriving DecidableEq

def valsRepr (v : List DVal) (a b : String) : Bytes := joinValues a b (v.map (·.repr))

/-- How the library writes doubles and complex numbers to 17 digits, given by their bits. -/
structure DoubleFormat where
  double : ℕ → Bytes
  complex : ℕ → ℕ → Bytes

def number : Bytes := bytes (toString n)

def specialNames : List String := ["0.0","-0.0","nan","-nan","inf","-inf"]

variable (fmt : DoubleFormat)

def leafRepr : Leaf → Bytes
  | .none_ => bytes "None"
  | .true_ => bytes "True"
  | .false_ => bytes "False"
  | .empty => bytes "\"\""
  | .natural neg n => (if neg then bytes "-" else []) ++ number n
  | .signed n => bytes (toString n)
  | .bigint neg parts =>
    (if neg then bytes "-" else []) ++ bytes "bigint["++number parts.length ++ bytes " parts]"
  | .double u => fmt.double u
  | .complex x y => fmt.complex x y
  | .text s => reprText s
  | .byteString s => reprBytes s
  | .byteArray s => bytes "bytearray("++reprBytes s ++ bytes ")"
  | .anonymous special n =>
    bytes (if special then "builtin_special#" else "builtin_anon#") ++ number n.toNat
  | .builtin exception name =>
    bytes (if exception then "exception(" else "builtin(") ++ name ++ bytes ")"
  | .special n => bytes (specialNames.getD n.toNat "")
  | .blob data => bytes "blob_data["++number data.length ++ bytes "]"

/-- The string a value is, where it was saved as one. -/
def leafStr : Leaf → Option Bytes
  | .empty => some []
  | .text s | .byteString s | .byteArray s => some s
  | .builtin _ name => some name
  | _ => none

/-- The texts of a value's parts between two others, in full. -/
def partsRepr (open_ : String) (v : List DVal) : Bytes :=
  bytes open_ ++ (bytes ", ").intercalate (v.map (·.repr)) ++ bytes ")"

def groupRepr (v : List DVal) : Group → Bytes
  | .tuple => valsRepr v "(" ")"
  | .list => valsRepr v "[" "]"
  | .set => valsRepr v "set\x7b" "\x7d"
  | .frozenset => valsRepr v "frozenset\x7b" "\x7d"
  | .complex => partsRepr "complex(" v
  | .slice => partsRepr "slice(" v
  | .range => partsRepr "range(" v
  | .alias_ => partsRepr "GenericAlias(" v
  | .union => partsRepr "Union(" v

structure NuitkaCodeObjectInfo where
  (name qualname args : Bytes)
  freeVars : Bytes := []
  (flags line argCount : ℕ)
  (kwOnly posOnly : ℕ := 0)
  deriving DecidableEq

/-- The string a value is, or else its text. -/
def DVal.naming (v : DVal) : Bytes := v.str.getD v.repr

def codeInfo (c : CodeFields DVal) : NuitkaCodeObjectInfo :=
  { name:=c.name.naming
    qualname := match c.qualname with
      | some q => q.naming++bytes "."++c.name.naming
      | none => c.name.naming
    args:=c.args.repr,freeVars:=(c.freeVars.map (·.repr)).getD [],flags:=c.flags,line:=c.line % 2^32
    argCount:=c.argCount % 2^32,kwOnly:=c.kwOnly % 2^32,posOnly:=c.posOnly % 2^32 }

def codeRepr (c : NuitkaCodeObjectInfo) : Bytes :=
  bytes "code(name="++reprText c.name ++ bytes ", line="++number c.line ++ bytes ", argc=" ++
    number c.argCount ++ bytes ", flags=0x"++bytes (String.ofList (Nat.toDigits 16 c.flags)) ++
      bytes ")"

/-- What the program builds: texts. -/
def rendering : Builder DVal where
  leaf l := {repr:=leafRepr fmt l,str:=leafStr l}
  again v := v
  group g xs := {repr:=groupRepr xs g}
  dict ks xs :=
    { repr:=dictFrom (bytes "\x7b") 0 ((ks.zip xs).map fun kx => (kx.1.repr,kx.2.repr)) ++
        bytes "\x7d" }
  code c := {repr:=codeRepr (codeInfo c)}

structure NuitkaDecodedBlock where
  name : Bytes
  success : Bool := false
  (declaredCount consumed errorOffset : ℕ := 0)
  error : String := ""
  (values stringValues : List Bytes := [])
  codeObjects : List NuitkaCodeObjectInfo := []
  deriving DecidableEq

def valueCap : ℕ := 512

/-- The texts that are kept: the first ones, and how many more there are. -/
def keptTexts (vals : List Bytes) : List Bytes :=
  vals.take valueCap ++ if vals.length > valueCap then
    [bytes "... "++number (vals.length-valueCap) ++ bytes " more constants"] else []

variable (all : Bytes)

def blockBytes (b : NuitkaConstantBlock) : Option Bytes :=
  if b.dataOffset > all.length ∨ b.size > all.length-b.dataOffset then none
  else some ((all.drop b.dataOffset).take b.size)

def startOf {V : Type} (d : Bytes) (e : ConstEncoding) : ConstReader V :=
  {cursor:={d,encoding:=e}}

/-- The part of the report taken over from the reader. -/
def Cursor.report (r : Cursor) (name d : Bytes) (codeObjects : List NuitkaCodeObjectInfo) :
    NuitkaDecodedBlock :=
  { name
    declaredCount:=littleEndian (d.take 2),consumed:=r.p,errorOffset:=(r.error.map Prod.snd).getD 0
    error:=(r.error.map Prod.fst).getD "",stringValues:=r.stringValues,codeObjects }

def decodeConstantBlockProfile (b : NuitkaConstantBlock) (e : ConstEncoding) : NuitkaDecodedBlock :=
  match blockBytes all b with
  | none => {name:=b.name,error := "constant block bounds invalid"}
  | some d =>
    if d.length < 3 then {name:=b.name,error := "constant block too small"}
    else
      match decodeBlock (rendering fmt) (startOf d e) with
      | (none,r) => r.cursor.report b.name d (r.codeObjects.map codeInfo)
      | (some (_,vals),r) =>
        { r.cursor.report b.name d (r.codeObjects.map codeInfo) with
          success:=true,values:=keptTexts (vals.map (·.repr)) }

def sameDecodedSemantics (a b : NuitkaDecodedBlock) : Bool :=
  a.declaredCount = b.declaredCount && a.values = b.values && a.stringValues = b.stringValues &&
    a.codeObjects = b.codeObjects

def encodings : List ConstEncoding := [.varint,.legacyLong64,.legacyLong32]

def furthest (best : NuitkaDecodedBlock) : List NuitkaDecodedBlock → NuitkaDecodedBlock
  | [] => best
  | x::xs => furthest (if x.consumed > best.consumed then x else best) xs

def decodeConstantBlock (b : NuitkaConstantBlock) : NuitkaDecodedBlock :=
  let modern := decodeConstantBlockProfile fmt all b .varint
  let legacy64 := decodeConstantBlockProfile fmt all b .legacyLong64
  let legacy32 := decodeConstantBlockProfile fmt all b .legacyLong32
  match [modern,legacy64,legacy32].filter (·.success) with
  | [] => furthest modern [legacy64,legacy32]
  | x::xs =>
    if xs.all (sameDecodedSemantics x) then x
    else { name:=b.name,declaredCount:=x.declaredCount,
           error := "constant stream encoding profile ambiguous" }

end AutoRefirst.NuitkaConstants
