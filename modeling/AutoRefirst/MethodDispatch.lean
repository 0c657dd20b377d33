import AutoRefirst.MethodTables

/-!
# Unity method dispatch

`resolve_method_dispatch_pre108` and `resolve_method_dispatch_v108` attach invokers, adjustor
thunks and static initialisers to the retained methods and types. The first collects what it
finds and commits it at the end; the second writes into the methods and types as it goes, so a
failure carries what has been written. What `header`, `layout` and `parse_images` read of the
metadata file and the mapping helpers of the PE are given.
-/

namespace AutoRefirst.MethodDispatch

open Fallible

structure UnityMethodInfo where
  (index token : ℕ := 0)
  declaringType : Option ℕ := none
  (imageName name fullName : String := "")
  rva : UInt64 := 0
  invokerIndex : Option ℕ := none
  (invokerPointerVa invokerRva : UInt64 := 0)
  invokerResolved : Bool := false
  (adjustorThunkVa adjustorThunkRva : UInt64 := 0)
  adjustorThunkResolved : Bool := false
  deriving DecidableEq

structure UnityTypeInfo where
  index : ℕ := 0
  imageIndex : Option ℕ := none
  (staticInitListed staticConstructorResolved : Bool := false)
  staticConstructorMethodIndex : Option ℕ := none
  staticConstructorRva : UInt64 := 0
  deriving DecidableEq

structure UnityInfo where
  metadataVersion : ℕ
  metadataRegistrationNormalizedVariant : String := ""
  (memberMetadataValid registrationResolved metadataRegistrationResolved : Bool)
  codeRegistrationVa : UInt64
  (metadataMethodDefinitionCount metadataTypeDefinitionCount : ℕ)
  methods : List UnityMethodInfo
  types : List UnityTypeInfo
  methodDispatchResolved : Bool := false
  methodDispatchState : String := "NOT_ATTEMPTED"
  (methodDispatchProfile methodDispatchError : String := "")
  (methodDispatchMethodCount methodInvokerResolvedCount methodInvokerMissingCount
    methodAdjustorCount staticInitTypeCount staticInitWithCctorCount : ℕ := 0)

/-- An image of the metadata; a negative start is `none`. -/
structure ImageRec where
  name : String
  index : ℕ
  (invokerStart staticCtorStart : Option ℕ := none)
  staticCtorCount : ℕ := 0

structure Sec where
  (off size count : ℕ := 0)

/-- The metadata file with what `header`, `layout` and `parse_images` read of it. -/
structure Metadata where
  bytes : Bytes
  ok : Bool
  ver : ℕ
  tdidx : ℕ := 4
  images : List ImageRec
  (invokerIndicesV108 staticCtorTypesV108 : Sec := {})

/-- The game image with the mapping helpers of its PE. -/
structure Game where
  bytes : Bytes
  imageBase : UInt64
  vaoff : UInt64 → Option ℕ
  mappedSpan : UInt64 → ℕ → Bool
  (ptrOk vaExecutable : UInt64→Bool)
  vaString : UInt64 → String

variable (d : Bytes)

def u32 (o : ℕ) : ℕ := (rd 4 d o).getD 0

def s32 (o : ℕ) : ℤ :=
  if u32 d o < 0x80000000 then (u32 d o : ℤ) else (u32 d o : ℤ)-0x100000000

def q64 (o : ℕ) : UInt64 := UInt64.ofNat ((rd 8 d o).getD 0)

/-- The width of an index into a table. -/
def iw (count : ℕ) : ℕ := if count ≤ 0xff then 1 else if count ≤ 0xffff then 2 else 4

def idx (p w : ℕ) : ℕ := (rd w d p).getD 0xffffffffffffffff

def isnull (v w : ℕ) : Bool :=
  if w = 1 then v == 0xff else if w = 2 then v == 0xffff else v == 0xffffffff

/-- A pointer to code of the image. -/
def Game.code (g : Game) (va : UInt64) : Bool := va != 0 && g.ptrOk va && g.vaExecutable va

def groupOf (methods : List UnityMethodInfo) (image : String) : List ℕ :=
  (List.range methods.length).filter fun i => methods[i]?.any (·.imageName == image)

def tokenOf (methods : List UnityMethodInfo) (i : ℕ) : ℕ := (methods[i]?.map (·.token)).getD 0

def fullNameOf (methods : List UnityMethodInfo) (i : ℕ) : String :=
  (methods[i]?.map (·.fullName)).getD ""

def UnityMethodInfo.cleared (m : UnityMethodInfo) : UnityMethodInfo :=
  { m with
    invokerIndex:=none,invokerPointerVa:=0,invokerRva:=0,invokerResolved:=false
    adjustorThunkVa:=0,adjustorThunkRva:=0,adjustorThunkResolved:=false }

def pre108Supported (version : ℕ) (variant : String) : Bool :=
  (version == 106 || version == 107) && (variant == "106" || variant == "106.1")

/-- One row of a module's tables; the invokers that are there and those that are missing are
counted. -/
def validateRow (globalInvokerCount : ℕ) (out : ℕ×ℕ) (x : (ℕ×ℤ)×ℕ) : Except String (ℕ×ℕ) :=
  let ((token,ii),i) := x
  if token ≠ 0x06000000+(i+1) then
    .error "image-local MethodDef tokens are not dense RID order"
  else if ii = -1 then .ok (out.1,out.2+1)
  else if 0 ≤ ii ∧ ii < globalInvokerCount then .ok (out.1+1,out.2)
  else .error "module invoker index is outside global invoker table"

def validateAdjustor (tokens : List ℕ) (prev : ℕ) (x : ℕ×ℕ) : Except String ℕ :=
  let (tok,i) := x
  if table tok ≠ 0x06 ∨ rid tok = 0 ∨ tokens.length < rid tok then
    .error "adjustor thunk token has no image-local MethodDef owner"
  else if i ≠ 0 ∧ tok ≤ prev then .error "adjustor thunk tokens are not strictly increasing"
  else if tokens[rid tok - 1]? ≠ some tok then
    .error "adjustor thunk token does not match MethodDef RID"
  else .ok tok

/-- `validate_unity_pre108_method_dispatch_tables`. -/
def validatePre108Tables (version : ℕ) (variant : String) (tokens : List ℕ) (pointerCount : ℕ)
    (rows : List ℤ) (globalInvokerCount : ℕ) (adjustors : List ℕ) : Except String (ℕ×ℕ) :=
  if ¬pre108Supported version variant then .error "unsupported pre-v108 method-dispatch profile"
  else if pointerCount ≠ tokens.length ∨ rows.length ≠ tokens.length then
    .error "module method/invoker table count differs from image-local MethodDef count"
  else do
    let out ← ((tokens.zip rows).zipIdx).foldlM (validateRow globalInvokerCount) (0,0)
    let _ ← adjustors.zipIdx.foldlM (validateAdjustor tokens) 0
    return out

/-- What is collected of the modules before anything is written. -/
structure Pending where
  moduleNames : List String := []
  invokers : List (Option (ℕ×UInt64))
  adjustors : List UInt64
  (totalMethods totalInvResolved totalInvMissing totalAdjustors : ℕ := 0)

/-- The dispatch part of a CodeGenModule. -/
structure DispatchModule where
  name : String
  methodCount : ℕ
  methodPtrsVa : UInt64
  adjustorCount : ℕ
  (adjustorTableVa invokerIndicesVa : UInt64)

section
variable (g : Game)

def modulePre108 (mlo mi : ℕ) : Except String DispatchModule :=
  match g.vaoff (q64 g.bytes (mlo+mi*8)) with
  | none => .error "pre-v108 CodeGenModule dispatch prefix truncated"
  | some mo =>
    if g.bytes.length < mo+48 then .error "pre-v108 CodeGenModule dispatch prefix truncated"
    else .ok {
      name:=g.vaString (q64 g.bytes mo),methodCount:=u32 g.bytes (mo+8)
      methodPtrsVa:=q64 g.bytes (mo+16),adjustorCount:=u32 g.bytes (mo+24)
      adjustorTableVa:=q64 g.bytes (mo+32),invokerIndicesVa:=q64 g.bytes (mo+40) }

/-- The place of the method pointers and the rows of the invoker indices. -/
def rowsPre108 (m : DispatchModule) : Except String (ℕ×List ℤ) :=
  if m.methodCount = 0 then .ok (0,[])
  else if m.methodPtrsVa = 0 ∨ m.invokerIndicesVa = 0 ∨
      ¬g.mappedSpan m.methodPtrsVa (m.methodCount*8) ∨
      ¬g.mappedSpan m.invokerIndicesVa (m.methodCount*4) then
    .error ("pre-v108 module method/invoker tables are not file-backed: "++m.name)
  else
    match g.vaoff m.methodPtrsVa, g.vaoff m.invokerIndicesVa with
    | some ptrs, some rows =>
      .ok (ptrs,(List.range m.methodCount).map fun i => s32 g.bytes (rows+i*4))
    | _, _ => .error ("pre-v108 module method/invoker raw mapping unavailable: "++m.name)

/-- The token and the thunk of each adjustor. -/
def adjustorsPre108 (m : DispatchModule) : Except String (List (ℕ×UInt64)) :=
  if m.adjustorCount = 0 then .ok []
  else if m.adjustorTableVa = 0 ∨ ¬g.mappedSpan m.adjustorTableVa (m.adjustorCount*16) then
    .error ("pre-v108 adjustor thunk table is not file-backed: "++m.name)
  else
    match g.vaoff m.adjustorTableVa with
    | none => .error ("pre-v108 adjustor thunk raw mapping unavailable: "++m.name)
    | some ao => (List.range m.adjustorCount).mapM fun i =>
      if g.code (q64 g.bytes (ao+i*16+8)) then
        .ok (u32 g.bytes (ao+i*16),q64 g.bytes (ao+i*16+8))
      else .error ("pre-v108 adjustor thunk pointer invalid: "++m.name)

variable (methods : List UnityMethodInfo)

def expectedPointer (m : ℕ) : UInt64 :=
  let rva := (methods[m]?.map (·.rva)).getD 0
  if rva ≠ 0 then g.imageBase+rva else 0

def pendInvoker (methodPtrs invPtrs : ℕ) (invokers : List (Option (ℕ×UInt64)))
    (x : (ℕ×ℤ)×ℕ) : Except String (List (Option (ℕ×UInt64))) :=
  let ((m,ii),i) := x
  let methodVa := q64 g.bytes (methodPtrs+i*8)
  if methodVa ≠ expectedPointer g methods m ∨ (methodVa ≠ 0 ∧ ¬g.code methodVa) then
    .error ("pre-v108 module method pointer disagrees with exact native MethodDef binding: " ++
      fullNameOf methods m)
  else if ii < 0 then .ok invokers
  else
    let inv := q64 g.bytes (invPtrs+ii.toNat*8)
    if ¬g.code inv then
      .error ("pre-v108 MethodDef invoker pointer null/non-executable: "++fullNameOf methods m)
    else .ok (invokers.modify m fun _ => some (ii.toNat,inv))

/-- A thunk is noted for the method of its row id. -/
def pendAdjustor (slots : List ℕ) (adjustors : List UInt64) (a : ℕ×UInt64) :
    Except String (List UInt64) :=
  match slots[rid a.1 - 1]? with
  | none => .error "pre-v108 adjustor owner escaped retained method vector"
  | some m =>
    if adjustors[m]?.getD 0 ≠ 0 then
      .error ("multiple pre-v108 adjustor thunks map to one MethodDef: "++fullNameOf methods m)
    else .ok (adjustors.modify m fun _ => a.2)

def nameModule (imageNames : List String) (p : Pending) (name : String) : Except String Unit :=
  if name = "" ∨ name ∈ p.moduleNames ∨ name ∉ imageNames then
    .error "pre-v108 CodeGenModule name invalid/duplicate/not present in metadata images"
  else .ok ()

def contractPre108 (name : String) (contract : Except String (ℕ×ℕ)) : Except String (ℕ×ℕ) :=
  contract.mapError fun e =>
    "pre-v108 module dispatch contract failed in "++name++": "++e

def pendModule (version : ℕ) (variant : String) (imageNames : List String)
    (invokerCount invPtrs mlo : ℕ) (p : Pending) (mi : ℕ) : Except String Pending := do
  let m ← modulePre108 g mlo mi
  nameModule imageNames p m.name
  if 1000000 < m.methodCount ∨ 1000000 < m.adjustorCount then
    .error ("pre-v108 module method/adjustor count exceeds bound: "++m.name)
  else
    let slots ← slotsOf (tokenOf methods) (fun t => table t == 0x06)
      ("pre-v108 image MethodDef tokens are not unique dense RID order: "++m.name)
      (groupOf methods m.name)
    match slots.mapM id with
    | none => .error ("pre-v108 image MethodDef RID sequence has a gap: "++m.name)
    | some slots =>
      let (methodPtrs,rows) ← rowsPre108 g m
      let thunks ← adjustorsPre108 g m
      let contract ← contractPre108 m.name (validatePre108Tables version variant
        (slots.map (tokenOf methods)) m.methodCount rows invokerCount (thunks.map Prod.fst))
      if m.methodCount ≠ slots.length then
        .error ("pre-v108 module methodPointerCount differs from retained image MethodDefs: " ++
          m.name)
      else
        let invokers ← ((slots.zip rows).zipIdx).foldlM (pendInvoker g methods methodPtrs invPtrs)
          p.invokers
        let adjustors ← thunks.foldlM (pendAdjustor methods slots) p.adjustors
        return {
          moduleNames:=p.moduleNames++[m.name],invokers,adjustors
          totalMethods:=p.totalMethods+m.methodCount,totalInvResolved:=p.totalInvResolved+contract.1
          totalInvMissing:=p.totalInvMissing+contract.2
          totalAdjustors:=p.totalAdjustors+m.adjustorCount }

end

def checkImageNames (images : List ImageRec) : Bool :=
  images.all (·.name != "") && decide (images.map (·.name)).Nodup

variable (u : UnityInfo)

/-- The invoker count and the place of the invoker pointers. -/
def geometryPre108 (g : Game) (md : Metadata) (moduleCount : ℕ) : Except String (ℕ×ℕ) :=
  if ¬md.ok ∨ md.ver ≠ u.metadataVersion ∨ md.images.length ≠ moduleCount then
    .error "metadata image table does not match pre-v108 CodeGenModule count"
  else
    match g.vaoff u.codeRegistrationVa with
    | none => .error "pre-v108 CodeRegistration invoker prefix unavailable"
    | some cro =>
      let invokerCount := u32 g.bytes (cro+40)
      let invokersVa := q64 g.bytes (cro+48)
      if g.bytes.length < cro+56 then
        .error "pre-v108 CodeRegistration invoker prefix unavailable"
      else if 1000000 < invokerCount then .error "pre-v108 global invoker count exceeds bound"
      else if invokerCount = 0 then .ok (0,0)
      else if invokersVa = 0 ∨ ¬g.mappedSpan invokersVa (invokerCount*8) then
        .error "pre-v108 global invoker pointer table invalid"
      else
        match g.vaoff invokersVa with
        | none => .error "pre-v108 global invoker table raw mapping unavailable"
        | some invPtrs => .ok (invokerCount,invPtrs)

def collectModules (g : Game) (md : Metadata) (moduleListVa : UInt64)
    (moduleCount invokerCount invPtrs : ℕ) : Except String Pending :=
  if u.methods.length ≠ u.metadataMethodDefinitionCount then
    .error "retained MethodDef count does not cover pre-v108 metadata method table"
  else if ¬checkImageNames md.images then
    .error "metadata image name empty/duplicate for pre-v108 dispatch"
  else
    match g.vaoff moduleListVa with
    | none => .error "pre-v108 CodeGenModule list unavailable"
    | some mlo =>
      if g.bytes.length-mlo < moduleCount*8 then
        .error "pre-v108 CodeGenModule list unavailable"
      else do
        let imageNames := md.images.map (·.name)
        let p ← (List.range moduleCount).foldlM
          (pendModule g u.methods u.metadataVersion u.metadataRegistrationNormalizedVariant
            imageNames invokerCount invPtrs mlo)
          { invokers:=List.replicate u.methods.length none
            adjustors:=List.replicate u.methods.length 0 }
        if ¬(∀ n ∈ imageNames, n ∈ p.moduleNames) ∨ p.totalMethods ≠ u.methods.length then
          .error "pre-v108 CodeGenModule/image MethodDef partitions do not exactly cover metadata"
        else return p

/-- What the attempt before v108 collects, or the state and the error it ends in. -/
def collectPre108 (g : Game) (md : Option Metadata) (moduleListVa : UInt64)
    (moduleCount : ℕ) : Except (String×String) Pending :=
  if ¬pre108Supported u.metadataVersion u.metadataRegistrationNormalizedVariant then
    .error ("UNSUPPORTED_PROFILE",
      "pre-v108 method dispatch requires metadata v106/v107 normalized to 106 or 106.1")
  else if ¬u.memberMetadataValid ∨ ¬u.registrationResolved ∨ ¬u.metadataRegistrationResolved then
    .error ("DEPENDENCY_UNAVAILABLE",
      "member metadata/CodeRegistration/MetadataRegistration unavailable")
  else
    match md with
    | none => .error ("FAILED","metadata file cannot be reopened for pre-v108 method dispatch")
    | some md =>
      match geometryPre108 u g md moduleCount with
      | .error e => .error ("FAILED",e)
      | .ok (invokerCount,invPtrs) =>
        match collectModules u g md moduleListVa moduleCount invokerCount invPtrs with
        | .error e => .error ("FAILED",e)
        | .ok p => .ok p

def commitMethod (base : UInt64) (m : UnityMethodInfo) (invoker : Option (ℕ×UInt64))
    (adjustor : UInt64) : UnityMethodInfo :=
  let m := m.cleared
  let m :=
    match invoker with
    | none => m
    | some (ii,va) => { m with
        invokerIndex:=some ii,invokerPointerVa:=va,invokerRva:=va-base,invokerResolved:=true }
  if adjustor ≠ 0 then
    { m with
      adjustorThunkVa:=adjustor,adjustorThunkRva:=adjustor-base,adjustorThunkResolved:=true }
  else m

def UnityInfo.reset : UnityInfo :=
  { u with
    methodDispatchResolved:=false,methodDispatchState := "NOT_ATTEMPTED"
    methodDispatchProfile := "",methodDispatchError := "",methodDispatchMethodCount:=0
    methodInvokerResolvedCount:=0,methodInvokerMissingCount:=0,methodAdjustorCount:=0
    staticInitTypeCount:=0,staticInitWithCctorCount:=0 }

def resolveMethodDispatchPre108 (g : Game) (md : Option Metadata)
    (moduleListVa : UInt64) (moduleCount : ℕ) : UnityInfo :=
  match collectPre108 u g md moduleListVa moduleCount with
  | .error (state,e) => {u.reset with methodDispatchState:=state,methodDispatchError:=e}
  | .ok p => { u.reset with
      methods:=u.methods.zipWith (fun m x => commitMethod g.imageBase m x.1 x.2)
        (p.invokers.zip p.adjustors)
      methodDispatchMethodCount:=p.totalMethods,methodInvokerResolvedCount:=p.totalInvResolved
      methodInvokerMissingCount:=p.totalInvMissing,methodAdjustorCount:=p.totalAdjustors
      methodDispatchProfile := "pre-v108-module-method+invoker+token-adjustor"
      methodDispatchState := "RESOLVED",methodDispatchResolved:=true }

/-- What has been written, and the error. -/
abbrev Failed (α : Type) := List α×String

structure InvokerWalk where
  methods : List UnityMethodInfo
  rows : List ℕ := []
  (resolved missing : ℕ := 0)

structure ThunkWalk where
  methods : List UnityMethodInfo
  moduleNames : List String := []
  keys : List (String×ℕ) := []
  (prev adjustors : ℕ := 0)

structure StaticWalk where
  types : List UnityTypeInfo
  (rows staticTypes : List ℕ := [])
  (total withCctor : ℕ := 0)

section
variable (g : Game) (md : Metadata)

/-- The index in a row of a section of narrow indices, and its width. -/
def rowIndex (sec : Sec) (w row : ℕ) : ℕ := idx md.bytes (sec.off+row*w) w

def invokerRow (invokerCount invPtrs : ℕ) (s : InvokerWalk) (x : ℕ×ℕ) :
    Except (Failed UnityMethodInfo) InvokerWalk :=
  let (m,gi) := x
  if gi ∈ s.rows then .error (s.methods,"v108 invoker-index row assigned to multiple images")
  else
    let ii := rowIndex md md.invokerIndicesV108 (iw invokerCount) gi
    if isnull ii (iw invokerCount) then
      .ok {s with rows:=s.rows++[gi],missing:=s.missing+1}
    else if invokerCount ≤ ii then
      .error (s.methods,"v108 MethodDef invoker index out of range: "++fullNameOf s.methods m)
    else
      let va := q64 g.bytes (invPtrs+ii*8)
      if ¬g.code va then
        .error (s.methods.modify m fun m => {m with invokerIndex:=some ii,invokerPointerVa:=va},
          "v108 MethodDef invoker pointer is null/non-executable: "++fullNameOf s.methods m)
      else .ok { s with
        methods:=s.methods.modify m fun m => { m with
          invokerIndex:=some ii,invokerPointerVa:=va,invokerRva:=va-g.imageBase
          invokerResolved:=true }
        rows:=s.rows++[gi],resolved:=s.resolved+1 }

def imageInvokers (methods : List UnityMethodInfo) (invokerCount invPtrs : ℕ)
    (s : InvokerWalk) (im : ImageRec) : Except (Failed UnityMethodInfo) InvokerWalk :=
  let group := groupOf methods im.name
  if group = [] then .error (s.methods,"v108 image has no retained MethodDefs: "++im.name)
  else
    match slotsOf (tokenOf methods) (fun _ => true)
      ("v108 MethodDef tokens do not form a unique image-local row sequence: "++im.name) group with
    | .error e => .error (s.methods,e)
    | .ok slots =>
      let tooLong := md.invokerIndicesV108.count < im.invokerStart.getD 0 + slots.length
      if im.invokerStart.isNone ∨ tooLong then
        .error (s.methods,"v108 image invoker-index partition out of bounds: "++im.name)
      else ((slots.filterMap id).zipIdx (im.invokerStart.getD 0)).foldlM
        (invokerRow g md invokerCount invPtrs) s

def ownerOf (methods : List UnityMethodInfo) (image : String) (token : ℕ) : Option ℕ :=
  (List.range methods.length).reverse.find? fun i =>
    methods[i]?.any fun m => m.imageName == image && m.token == token

/-- One adjustor thunk of a module. -/
def thunkRow (methods : List UnityMethodInfo) (name : String) (ao : ℕ) (s : ThunkWalk) (j : ℕ) :
    Except (Failed UnityMethodInfo) ThunkWalk :=
  let token := u32 g.bytes (ao+j*16)
  let pad := u32 g.bytes (ao+j*16+4)
  let thunk := q64 g.bytes (ao+j*16+8)
  if table token ≠ 0x06 ∨ pad ≠ 0 ∨ (j ≠ 0 ∧ token ≤ s.prev) then
    .error (s.methods,"v108 adjustor-thunk token/padding/order invalid: "++name)
  else if (name,token) ∈ s.keys then
    .error (s.methods,"duplicate v108 adjustor-thunk token: "++name)
  else
    match ownerOf methods name token with
    | none =>
      .error (s.methods,"v108 adjustor thunk has no same-module MethodDef owner: "++name)
    | some m =>
      if ¬g.code thunk then
        .error (s.methods,
          "v108 ordinary adjustor thunk is null/non-executable: "++fullNameOf s.methods m)
      else if s.methods[m]?.any (·.adjustorThunkResolved) then
        .error (s.methods,"multiple v108 adjustor thunks map to one MethodDef")
      else .ok { s with
        methods:=s.methods.modify m fun m => { m with
          adjustorThunkVa:=thunk,adjustorThunkRva:=thunk-g.imageBase,adjustorThunkResolved:=true }
        keys:=s.keys++[(name,token)],prev:=token,adjustors:=s.adjustors+1 }

def moduleThunks (methods : List UnityMethodInfo) (mlo : ℕ) (s : ThunkWalk) (mi : ℕ) :
    Except (Failed UnityMethodInfo) ThunkWalk :=
  match g.vaoff (q64 g.bytes (mlo+mi*8)) with
  | none => .error (s.methods,"v108 CodeGenModule header truncated for dispatch")
  | some mo =>
    if g.bytes.length < mo+0x28 then
      .error (s.methods,"v108 CodeGenModule header truncated for dispatch")
    else
      let name := g.vaString (q64 g.bytes mo)
      let count := u32 g.bytes (mo+0x18)
      let tableVa := q64 g.bytes (mo+0x20)
      if name = "" ∨ name ∈ s.moduleNames then
        .error (s.methods,"v108 CodeGenModule name invalid/duplicate for dispatch")
      else if 1000000 < count then
        .error (s.methods,"v108 adjustor-thunk count exceeds bound: "++name)
      else
        let s := {s with moduleNames:=s.moduleNames++[name],prev:=0}
        if count = 0 then .ok s
        else if tableVa = 0 ∨ ¬g.mappedSpan tableVa (count*16) then
          .error (s.methods,"v108 adjustor-thunk table is not file-backed: "++name)
        else
          match g.vaoff tableVa with
          | none => .error (s.methods,"v108 adjustor-thunk raw mapping unavailable: "++name)
          | some ao => (List.range count).foldlM (thunkRow g methods name ao) s

end

def cctorsOf (methods : List UnityMethodInfo) (td : ℕ) : List UnityMethodInfo :=
  methods.filter fun m => m.declaringType == some td && m.name == ".cctor"

variable (md : Metadata)

def staticRow (methods : List UnityMethodInfo) (typeCount : ℕ) (im : ImageRec)
    (s : StaticWalk) (si : ℕ) : Except (Failed UnityTypeInfo) StaticWalk :=
  if si ∈ s.rows then .error (s.types,"v108 static-init row assigned to multiple images")
  else
    let td := rowIndex md md.staticCtorTypesV108 md.tdidx si
    if isnull td md.tdidx ∨ typeCount ≤ td then
      .error (s.types,"v108 static-init TypeDefinition index out of range")
    else if td ∈ s.staticTypes then
      .error (s.types,"duplicate v108 static-init TypeDefinition index")
    else
      match s.types.findIdx? (·.index == td) with
      | none => .error (s.types,"v108 static-init TypeDefinition does not belong to declaring image")
      | some t =>
        if ¬s.types[t]?.any (·.imageIndex == some im.index) then
          .error (s.types,"v108 static-init TypeDefinition does not belong to declaring image")
        else
          let listed := s.types.modify t fun t => {t with staticInitListed:=true}
          let s := { s with
            rows:=s.rows++[si],staticTypes:=s.staticTypes++[td],total:=s.total+1 }
          match cctorsOf methods td with
          | [] => .ok {s with types:=listed}
          | [cctor] => .ok { s with
              types:=listed.modify t fun t => { t with
                staticConstructorMethodIndex:=some cctor.index,staticConstructorRva:=cctor.rva
                staticConstructorResolved:=true }
              withCctor:=s.withCctor+1 }
          | _ => .error (listed,"multiple .cctor MethodDefs for one v108 static-init type")

def imageStatics (methods : List UnityMethodInfo) (typeCount : ℕ) (s : StaticWalk)
    (im : ImageRec) : Except (Failed UnityTypeInfo) StaticWalk :=
  if im.staticCtorCount = 0 then .ok s
  else if im.staticCtorStart.isNone ∨
      md.staticCtorTypesV108.count < im.staticCtorStart.getD 0 + im.staticCtorCount then
    .error (s.types,"v108 image static-init partition out of bounds: "++im.name)
  else (List.range' (im.staticCtorStart.getD 0) im.staticCtorCount).foldlM
    (staticRow md methods typeCount im) s

def UnityTypeInfo.cleared (t : UnityTypeInfo) : UnityTypeInfo :=
  { t with
    staticInitListed:=false,staticConstructorResolved:=false
    staticConstructorMethodIndex:=none,staticConstructorRva:=0 }

def walkInvokers (g : Game) (md : Metadata) (u : UnityInfo) (invokerCount invPtrs : ℕ) :
    Except (Failed UnityMethodInfo) InvokerWalk := do
  let cleared := u.methods.map UnityMethodInfo.cleared
  if u.methods.length ≠ u.metadataMethodDefinitionCount then
    .error (cleared,"retained MethodDef count does not cover v108 metadata method table")
  else
    let s ← md.images.foldlM (imageInvokers g md u.methods invokerCount invPtrs)
      {methods:=cleared}
    if ¬∀ row < md.invokerIndicesV108.count, row ∈ s.rows then
      .error (s.methods,
        "v108 image partitions do not cover every MethodDef invoker-index row")
    else return s

def walkThunks (g : Game) (md : Metadata) (u : UnityInfo) (moduleListVa : UInt64)
    (moduleCount : ℕ) (methods : List UnityMethodInfo) :
    Except (Failed UnityMethodInfo) ThunkWalk :=
  match g.vaoff moduleListVa with
  | none => .error (methods,"v108 CodeGenModule list unavailable for adjustor thunks")
  | some mlo =>
    if g.bytes.length-mlo < moduleCount*8 then
      .error (methods,"v108 CodeGenModule list unavailable for adjustor thunks")
    else do
      let s ← (List.range moduleCount).foldlM (moduleThunks g u.methods mlo) { methods }
      if s.moduleNames.length ≠ md.images.length then
        .error (s.methods,"v108 CodeGenModule/image name sets differ")
      else if ¬∀ im ∈ md.images, im.name ∈ s.moduleNames then
        .error (s.methods,"v108 metadata image missing from CodeGenModule set")
      else return s

/-- The static initialisers of every image. -/
def walkStatics (u : UnityInfo) : Except (Failed UnityTypeInfo) StaticWalk :=
  if md.staticCtorTypesV108.size ≠ md.staticCtorTypesV108.count*md.tdidx then
    .error (u.types,"v108 static-init TypeDefinition index geometry invalid")
  else do
    let s ← md.images.foldlM (imageStatics md u.methods u.metadataTypeDefinitionCount)
      {types:=u.types.map UnityTypeInfo.cleared}
    if ¬∀ row < md.staticCtorTypesV108.count, row ∈ s.rows then
      .error (s.types,"v108 image partitions do not cover every static-init type index")
    else return s

/-- The invoker count and the place of the invoker pointers, before the walk. -/
def geometryV108 (g : Game) (md : Metadata) (moduleCount : ℕ) : Except String (ℕ×ℕ) :=
  if ¬md.ok ∨ md.ver ≠ 108 ∨ md.images.length ≠ moduleCount then
    .error "v108 image table does not match CodeGenModule count"
  else
    match g.vaoff u.codeRegistrationVa with
    | none => .error "v108 CodeRegistration invoker prefix unavailable"
    | some cro =>
      let invokerCount := u32 g.bytes (cro+40)
      let invokersVa := q64 g.bytes (cro+48)
      if g.bytes.length < cro+56 then .error "v108 CodeRegistration invoker prefix unavailable"
      else if invokerCount = 0 ∨ 1000000 < invokerCount ∨ invokersVa = 0 ∨
          ¬g.mappedSpan invokersVa (invokerCount*8) then
        .error "v108 global invoker pointer table invalid"
      else
        match g.vaoff invokersVa with
        | none => .error "v108 global invoker table raw mapping unavailable"
        | some invPtrs =>
          if md.invokerIndicesV108.count ≠ u.metadataMethodDefinitionCount ∨
              md.invokerIndicesV108.size ≠ md.invokerIndicesV108.count * iw invokerCount then
            .error "v108 per-MethodDef invoker-index geometry invalid"
          else .ok (invokerCount,invPtrs)

def UnityInfo.failV108 (e : String) : UnityInfo :=
  {u with methodDispatchState := "FAILED",methodDispatchError:=e}

def resolveMethodDispatchV108 (g : Game) (md : Option Metadata)
    (moduleListVa : UInt64) (moduleCount : ℕ) : UnityInfo :=
  if u.metadataVersion ≠ 108 then {u with methodDispatchState := "NOT_APPLICABLE"}
  else if ¬u.memberMetadataValid ∨ ¬u.registrationResolved then
    { u with
      methodDispatchState := "DEPENDENCY_UNAVAILABLE"
      methodDispatchError := "member metadata/CodeRegistration unavailable" }
  else
    match md with
    | none => u.failV108 "v108 metadata file cannot be reopened for method dispatch"
    | some md =>
      match geometryV108 u g md moduleCount with
      | .error e => u.failV108 e
      | .ok (invokerCount,invPtrs) =>
        match walkInvokers g md u invokerCount invPtrs with
        | .error (methods,e) => {u.failV108 e with methods}
        | .ok inv =>
          match walkThunks g md u moduleListVa moduleCount inv.methods with
          | .error (methods,e) => {u.failV108 e with methods}
          | .ok thunks =>
            match walkStatics md u with
            | .error (types,e) => {u.failV108 e with methods:=thunks.methods,types}
            | .ok statics => { u with
                methods:=thunks.methods,types:=statics.types
                methodDispatchMethodCount:=u.methods.length,methodInvokerResolvedCount:=inv.resolved
                methodInvokerMissingCount:=inv.missing,methodAdjustorCount:=thunks.adjustors
                staticInitTypeCount:=statics.total,staticInitWithCctorCount:=statics.withCctor
                methodDispatchProfile := "v108-image-invoker+token-adjustor+static-init"
                methodDispatchState := "RESOLVED",methodDispatchError := ""
                methodDispatchResolved:=true }

end AutoRefirst.MethodDispatch
