import AutoRefirst.BackwardScan
import AutoRefirst.ByteRanges
import AutoRefirst.PortableExecutable

/-!
# Constants in registers

Two detectors follow constants through decoded x86-64 code. The detector of control records goes
forwards with a map of the registers it knows; the analysis of exception flow searches backwards
from a call for what is in the register of an argument.
-/

namespace AutoRefirst.RegisterTracking

open BackwardScan ByteRanges

/-- The bits of a general-purpose register that an operand names. -/
inductive GprPart where
  | low8 | high8 | word | dword | qword
deriving DecidableEq

inductive ZydisRegister where
  | NONE
  | gpr (part : GprPart) (id : Fin 16)
  | ip (part : GprPart)
  | other (largest part : ℕ)
deriving DecidableEq

/-- `ZydisRegisterGetLargestEnclosing` in 64-bit mode. -/
def large : ZydisRegister → ZydisRegister
  | .NONE => .NONE
  | .gpr _ id => .gpr .qword id
  | .ip _ => .ip .qword
  | .other largest _ => .other largest 0

def RAX : ZydisRegister := .gpr .qword 0
def RCX : ZydisRegister := .gpr .qword 1
def RDX : ZydisRegister := .gpr .qword 2
def RSI : ZydisRegister := .gpr .qword 6
def RDI : ZydisRegister := .gpr .qword 7
def R8 : ZydisRegister := .gpr .qword 8
def R9 : ZydisRegister := .gpr .qword 9
def R10 : ZydisRegister := .gpr .qword 10
def R11 : ZydisRegister := .gpr .qword 11
def RIP : ZydisRegister := .ip .qword
def EAX : ZydisRegister := .gpr .dword 0
def EDI : ZydisRegister := .gpr .dword 7

structure Memory where
  (segment base index : ZydisRegister)
  scale : ℕ
  disp : Option (BitVec 64)
deriving DecidableEq

inductive OperandValue where
  | register (r : ZydisRegister)
  | memory (m : Memory)
  | immediate (value : BitVec 64) (is_relative : Bool)
  | pointer
deriving DecidableEq

/-- An operand, its size in bits, and whether it is written always or under a condition. -/
structure Operand where
  value : OperandValue
  size : ℕ
  (write condwrite : Bool := false)
deriving DecidableEq

inductive Mnemonic where
  | MOV | LEA | ADD | SUB | XOR | other (n : ℕ)
deriving DecidableEq

inductive Category where
  | CALL | other
deriving DecidableEq

/-- An instruction at an address, which for a PE is relative to the image base. -/
structure Decoded where
  (va length : ℕ)
  mnemonic : Mnemonic
  category : Category := .other
  address_width : ℕ := 64
  visible : List Operand
  hidden : List Operand := []

variable (x : Decoded)

def Decoded.destination : Option ZydisRegister :=
  match x.visible with
  | [] => none
  | o::_ =>
    match o.value with
    | .register r => if o.write then some r else none
    | _ => none

def Decoded.target : Option ZydisRegister := x.destination.map large

variable (m : Memory)

def displacement : BitVec 64 := m.disp.getD 0

abbrev Registers := ZydisRegister → Option (BitVec 64)

variable (regs : Registers)

def reg_value (r : ZydisRegister) : Option (BitVec 64) := regs (large r)

/-- Modulo 2^64. -/
def add_signed (base delta : BitVec 64) : BitVec 64 := base+delta

def scaleOf : ℕ := if m.scale = 0 then 1 else m.scale

def max64 : ℕ := 2^64-1

def memory_base : Option (BitVec 64) :=
  if large m.base = RIP then some (BitVec.ofNat 64 (x.va+x.length))
  else if m.base = .NONE then some 0
  else reg_value regs m.base

def memory_index (value : BitVec 64) : Option (BitVec 64) :=
  if m.index = .NONE then some value
  else match reg_value regs m.index with
  | none => none
  | some index =>
    if index.toNat ≠ 0 ∧ scaleOf m > max64/index.toNat then none
    else if value.toNat > max64 - index.toNat * scaleOf m then none
    else some (value + BitVec.ofNat 64 (index.toNat * scaleOf m))

def memory_address (o : Operand) (regs : Registers) : Option (BitVec 64) :=
  match o.value with
  | .memory m =>
    match memory_base x m regs with
    | none => none
    | some base => (memory_index m regs base).map fun value =>
      match m.disp with
      | some disp => add_signed value disp
      | none => value
  | _ => none

/-- The lower 32 bits, as a signed number. -/
def signed32 (v : BitVec 64) : BitVec 64 := (v.setWidth 32).signExtend 64

variable (dst : Operand)

def mov_immediate (src : Operand) : Option (BitVec 64) :=
  match src.value with
  | .immediate v false =>
    if dst.size = 64 ∧ src.size = 32 then some (signed32 v)
    else if dst.size = 32 then some ((v.setWidth 32).setWidth 64)
    else some v
  | _ => none

def next_value (r : ZydisRegister) (rest : List Operand) : Option (BitVec 64) :=
  match x.mnemonic, rest with
  | .MOV, src::_ =>
    match src.value with
    | .register q => reg_value regs q
    | _ => mov_immediate dst src
  | .LEA, src::_ => memory_address x src regs
  | .ADD, src::_ =>
    match src.value with
    | .immediate v _ => (regs r).map fun cur => add_signed cur v
    | _ => none
  | .SUB, src::_ =>
    match src.value with
    | .immediate v _ => (regs r).map fun cur => add_signed cur (-v)
    | _ => none
  | .XOR, src::_ =>
    match src.value with
    | .register q => if large q = r then some 0 else none
    | _ => none
  | _, _ => none

def apply_register_write : Registers :=
  match x.visible, x.target with
  | dst::rest, some r => Function.update regs r (next_value x regs dst r rest)
  | _, _ => regs

def pe_volatile : List ZydisRegister := [RAX,RCX,RDX,R8,R9,R10,R11]

def elf_volatile : List ZydisRegister := [RAX,RCX,RDX,RSI,RDI,R8,R9,R10,R11]

variable (ins : List Decoded) (callsite : ℕ)

/-- The instructions before the call, the last one first. -/
def before_call : Option (List Decoded) :=
  let site := ins.findIdx fun x => x.va == callsite
  if site = ins.length then none else some (ins.take site).reverse

/-- One turn of the search for a scalar. -/
def scalar_step (volatile : List ZydisRegister) (x : Decoded) (cur : ZydisRegister) :
    ScanStep ZydisRegister (BitVec 64) :=
  if x.category = .CALL ∧ cur ∈ volatile then .stop none
  else if x.target ≠ some cur then .go cur
  else match x.mnemonic, x.visible with
  | .MOV, _ :: q::_ =>
    match q.value with
    | .register r => .go (large r)
    | .immediate v false => .stop (some v)
    | _ => .stop none
  | .XOR, _ :: q::_ =>
    match q.value with
    | .register r => if large r = cur then .stop (some 0) else .stop none
    | _ => .stop none
  | _, _ => .stop none

def pe_arguments : List ZydisRegister := [RCX,RDX,R8,R9]

def elf_arguments : List ZydisRegister := [RDI,RSI,RDX,RCX,R8,R9]

def argument (registers : List ZydisRegister) (arg : ℤ) : Option ZydisRegister :=
  if arg < 0 then none else registers[arg.toNat]?

def pe_scalar_arg (func_end callsite : ℕ) (arg : ℤ) : Option (BitVec 64) := do
  let cur ← argument pe_arguments arg
  if func_end = 0 then none
  else scanBack (scalar_step pe_volatile) 128 (← before_call ins callsite) cur

def elf_scalar_arg (arg : ℤ) : Option (BitVec 64) := do
  let cur ← argument elf_arguments arg
  scanBack (scalar_step elf_volatile) 128 (← before_call ins callsite) cur

/-- A register, and what is added to it on the way to the call. -/
structure Cursor where
  cur : ZydisRegister
  add : ℤ

def add_signed_u64 (base : BitVec 64) (delta : ℤ) : Option (BitVec 64) :=
  let sum := (base.toNat : ℤ)+delta
  if 0 ≤ sum ∧ sum ≤ max64 then some (BitVec.ofNat 64 sum.toNat) else none

def add_signed_i64 (base delta : ℤ) : Option ℤ :=
  if -2^63 ≤ base+delta ∧ base+delta < 2^63 then some (base+delta) else none

/-- What an immediate adds; nothing can be subtracted that has no negative. -/
def immediate_delta (v : BitVec 64) : Option ℤ :=
  if x.mnemonic = .SUB then if v.toInt = -2^63 then none else some (-v.toInt)
  else some v.toInt

/-- The search goes on with the sum, when there is one. -/
def go_on {α : Type} (cur : ZydisRegister) : Option ℤ → ScanStep Cursor α
  | some add => .go ⟨cur,add⟩
  | none => .stop none

variable (st : Cursor)

def elf_lea : ScanStep Cursor (BitVec 64) :=
  if m.index ≠ .NONE then .stop none
  else if large m.base = RIP then
    if x.va > max64-x.length then .stop none
    else match add_signed_u64 (BitVec.ofNat 64 (x.va+x.length)) (displacement m).toInt with
    | none => .stop none
    | some v => .stop (add_signed_u64 v st.add)
  else if m.base ≠ .NONE then
    go_on (large m.base) (add_signed_i64 st.add (displacement m).toInt)
  else .stop none

/-- One turn of the search for a pointer. -/
def elf_pointer_step : ScanStep Cursor (BitVec 64) :=
  if x.category = .CALL ∧ st.cur ∈ elf_volatile then .stop none
  else if x.target ≠ some st.cur then .go st
  else match x.visible with
  | _ :: q::_ =>
    match x.mnemonic, q.value with
    | .MOV, .register r => .go {st with cur:=large r}
    | .MOV, .immediate v false => .stop (add_signed_u64 v st.add)
    | .LEA, .memory m => elf_lea x m st
    | .ADD, .immediate v false | .SUB, .immediate v false =>
      go_on st.cur ((immediate_delta x v).bind (add_signed_i64 st.add))
    | _, _ => .stop none
  | _ => .stop none

def elf_pointer_arg (arg : ℤ) : Option (BitVec 64) := do
  let cur ← argument elf_arguments arg
  scanBack elf_pointer_step 128 (← before_call ins callsite) ⟨cur,0⟩

/-- One turn of the search for a constant: no register but the instruction pointer is an address. -/
def elf_constant_step : ScanStep Cursor (BitVec 64) :=
  if x.category = .CALL ∧ st.cur ∈ elf_volatile then .stop none
  else if x.target ≠ some st.cur then .go st
  else match x.visible with
  | _ :: q::_ =>
    match x.mnemonic, q.value with
    | .MOV, .register r => .go {st with cur:=large r}
    | .MOV, .immediate v false => .stop (add_signed_u64 v st.add)
    | .LEA, .memory m =>
      if m.index ≠ .NONE then .stop none
      else if large m.base = RIP then
        match add_signed_u64 (BitVec.ofNat 64 (x.va+x.length)) (displacement m).toInt with
        | none => .stop none
        | some v => .stop (add_signed_u64 v st.add)
      else .stop none
    | .XOR, .register r =>
      if large r = st.cur then
        if st.add = 0 then .stop (some 0) else .stop (add_signed_u64 0 st.add)
      else .stop none
    | .ADD, .immediate v false | .SUB, .immediate v false =>
      go_on st.cur ((immediate_delta x v).bind (add_signed_i64 st.add))
    | _, _ => .stop none
  | _ => .stop none

def elf_reg_constant_before (before : ℕ) (wanted : ZydisRegister)
    (budget : ℕ) : Option (BitVec 64) :=
  scanBack elf_constant_step budget (ins.take before).reverse ⟨large wanted,0⟩

structure PeSection where
  (rva vsize raw_offset raw_size : ℕ)

structure PeInfo where
  (headers_size image_base : ℕ)
  sections : List PeSection

/-- The first section around an address that is no padding or has its file bytes. -/
def section_off (rva n : ℕ) : List PeSection → Option ℕ
  | [] => none
  | s::rest =>
    if rva < s.rva ∨ rva ≥ s.rva + max s.vsize s.raw_size then section_off rva n rest
    else if rva-s.rva ≥ s.raw_size then none
    else if s.raw_offset+(rva-s.rva) < n then some (s.raw_offset+(rva-s.rva))
    else section_off rva n rest

def pe_rva_off (pe : PeInfo) (rva n : ℕ) : Option ℕ :=
  if rva < pe.headers_size ∧ rva < n then some rva else section_off rva n pe.sections

/-- The next instruction, by addresses of 32 bits. -/
def pe_next : ℤ := ((x.va+x.length) % 2^32 : ℕ)

def pe_rip_mem_rva : Option ℕ :=
  if m.index ≠ .NONE ∨ large m.base ≠ RIP then none
  else
    let t := pe_next x + (displacement m).toInt
    if t < 0 ∨ t > 0xffffffff then none else some t.toNat

/-- The eight bytes of the file at an address. -/
def pe_qword (d : Bytes) (pe : PeInfo) (slot : ℕ) : Option (BitVec 64) :=
  match pe_rva_off pe slot d.length with
  | none => none
  | some off =>
    if off+8 > d.length then none
    else some (BitVec.ofNat 64 (littleEndian (slice d (off,8))))

def image_offset (pe : PeInfo) (v : ℤ) : Option ℕ :=
  if v < 0 ∨ v.toNat < pe.image_base ∨ v.toNat-pe.image_base > 0xffffffff then none
  else some (v.toNat-pe.image_base)

def pe_immediate (q : Operand) (v : BitVec 64) : BitVec 64 :=
  if dst.size = 64 ∧ q.size = 32 then signed32 v else v

def pe_lea : ScanStep Cursor ℕ :=
  if m.index ≠ .NONE then .stop none
  else if large m.base = RIP then
    let r := pe_next x + (displacement m).toInt + st.add
    if r < 0 ∨ r > 0xffffffff then .stop none else .stop (some r.toNat)
  else if m.base ≠ .NONE then .go ⟨large m.base,st.add + (displacement m).toInt⟩
  else .stop none

/-- One turn of the search for a pointer into the image. -/
def pe_pointer_step (d : Bytes) (pe : PeInfo) (x : Decoded) (st : Cursor) : ScanStep Cursor ℕ :=
  if x.category = .CALL ∧ st.cur ∈ pe_volatile then .stop none
  else if x.target ≠ some st.cur then .go st
  else match x.visible with
  | dst :: q::_ =>
    match x.mnemonic, q.value with
    | .MOV, .register r => .go {st with cur:=large r}
    | .MOV, .immediate v false =>
      .stop (image_offset pe ((pe_immediate dst q v).toInt+st.add))
    | .MOV, .memory m =>
      .stop (((pe_rip_mem_rva x m).bind (pe_qword d pe)).bind fun va =>
        image_offset pe (va.toInt+st.add))
    | .LEA, .memory m => pe_lea x m st
    | .ADD, .immediate v false => .go {st with add:=st.add+v.toInt}
    | .SUB, .immediate v false => .go {st with add:=st.add-v.toInt}
    | _, _ => .stop none
  | _ => .stop none

def pe_pointer_arg (d : Bytes) (pe : PeInfo) (ins : List Decoded) (func_end callsite : ℕ)
    (arg : ℤ) : Option ℕ := do
  let cur ← argument pe_arguments arg
  if func_end = 0 then none
  else scanBack (pe_pointer_step d pe) 128 (← before_call ins callsite) ⟨cur,0⟩

end AutoRefirst.RegisterTracking
