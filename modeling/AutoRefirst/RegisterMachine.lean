import AutoRefirst.RegisterTracking

/-!
# What an instruction does to registers

The machine executes five instructions as the processor does, on the part of the register that
they name; of every other instruction it is known which registers it may write.
-/

namespace AutoRefirst.RegisterTracking
open Option

def GprPart.size : GprPart → ℕ
  | .low8 => 8
  | .high8 => 8
  | .word => 16
  | .dword => 32
  | .qword => 64

/-- The lower bits, with zeros above them. -/
def low (n : ℕ) (v : BitVec 64) : BitVec 64 := (v.setWidth n).setWidth 64

def readPart : GprPart → BitVec 64 → BitVec 64
  | .low8, v => low 8 v
  | .high8, v => low 8 (v >>> 8)
  | .word, v => low 16 v
  | .dword, v => low 32 v
  | .qword, v => v

/-- The upper half is cleared by a write of 32 bits and kept by a smaller one. -/
def writePart : GprPart → BitVec 64 → BitVec 64 → BitVec 64
  | .low8, old, v => (old &&& ~~~(0xff : BitVec 64)) ||| low 8 v
  | .high8, old, v => (old &&& ~~~(0xff00 : BitVec 64)) ||| (low 8 v <<< 8)
  | .word, old, v => (old &&& ~~~(0xffff : BitVec 64)) ||| low 16 v
  | .dword, _, v => low 32 v
  | .qword, _, v => v

/-- The value is that of the whole register after it is written to the part. -/
def Fits (part : GprPart) (v : BitVec 64) : Prop :=
  part = .qword ∨ part = .dword ∧ v.toNat<2^32

theorem low_eq {v:BitVec 64} (h:v.toNat<2^32) : low 32 v=v:=by
  apply BitVec.eq_of_toNat_eq
  rw [low,BitVec.toNat_setWidth,BitVec.toNat_setWidth,Nat.mod_eq_of_lt h, Nat.mod_eq_of_lt v.isLt]

theorem low_add_low (v w:BitVec 64) : low 32 (low 32 v + w)=low 32 (v+w):=by
  apply BitVec.eq_of_toNat_eq
  simp only [low,BitVec.toNat_setWidth,BitVec.toNat_add]
  omega

theorem writePart_add {part:GprPart} {v w:BitVec 64} (old:BitVec 64) (h:Fits part (v+w)) :
    writePart part old (readPart part v + w) = v+w:=by
  rcases h with rfl | ⟨rfl,hlt⟩
  · rfl
  · rw [writePart,readPart,low_add_low,low_eq hlt]

theorem writePart_fits {part:GprPart} {v:BitVec 64} (old:BitVec 64) (h:Fits part v) :
    writePart part old v=v:=by
  rcases h with rfl | ⟨rfl,hlt⟩
  · rfl
  · exact low_eq hlt

theorem readPart_fits {part:GprPart} {v:BitVec 64} (h:Fits part v) : readPart part v=v:=by
  rcases h with rfl | ⟨rfl,hlt⟩
  · rfl
  · exact low_eq hlt

structure Machine where
  reg : ZydisRegister → BitVec 64
  /-- Eight bytes of memory, in a segment. -/
  load : ZydisRegister → BitVec 64 → BitVec 64

variable (origin : ℕ) (x : Decoded) (s : Machine)

/-- The address of the next instruction, in an image that is loaded at the origin. -/
def nextAddress : BitVec 64 := BitVec.ofNat 64 (origin+x.va+x.length)

/-- The value of a register as a part of an address or as a source. -/
def readRegister : ZydisRegister → Option (BitVec 64)
  | .NONE => some 0
  | .gpr part id => some (readPart part (s.reg (.gpr .qword id)))
  | .ip part => some (readPart part (nextAddress origin x))
  | .other _ _ => none

def effectiveAddress (m : Memory) : Option (BitVec 64) := do
  let base ← readRegister origin x s m.base
  let index ← readRegister origin x s m.index
  let a := base + index * BitVec.ofNat 64 (scaleOf m) + displacement m
  some (if x.address_width = 64 then a else low 32 a)

def immediateValue (dst src : Operand) (v : BitVec 64) : BitVec 64 :=
  if src.size < dst.size then (v.setWidth src.size).signExtend 64 else v

def sourceValue (dst src : Operand) : Option (BitVec 64) :=
  match src.value with
  | .register r => readRegister origin x s r
  | .immediate v false => some (immediateValue dst src v)
  | .memory m =>
    if src.size = 64 then (effectiveAddress origin x s m).map (s.load m.segment) else none
  | _ => none

/-- What the instruction writes to its first operand, where that is a general-purpose register. -/
def outcome : Option (BitVec 64) :=
  match x.mnemonic, x.visible with
  | .MOV, dst :: src::_ => sourceValue origin x s dst src
  | .LEA, _ :: src::_ =>
    match src.value with
    | .memory m => effectiveAddress origin x s m
    | _ => none
  | .ADD, dst :: src::_ => do
    some ((← sourceValue origin x s dst dst)+(← sourceValue origin x s dst src))
  | .SUB, dst :: src::_ => do
    some ((← sourceValue origin x s dst dst) + -(← sourceValue origin x s dst src))
  | .XOR, dst :: src::_ => do
    some ((← sourceValue origin x s dst dst) ^^^ (← sourceValue origin x s dst src))
  | _, _ => none

/-- The instruction may write the register, by whatever operand; all of them move the
instruction pointer. -/
def Decoded.Writes (x : Decoded) (r : ZydisRegister) : Prop :=
  r = RIP ∨ ∃ o∈x.visible++x.hidden, (o.write=true ∨ o.condwrite=true) ∧
    ∃ q, o.value = .register q ∧ large q = r

structure Executes (s' : Machine) : Prop where
  frame : ∀ r, ¬x.Writes r → s'.reg r = s.reg r
  dest : ∀ part id w, x.destination=some (.gpr part id) → outcome origin x s = some w →
    s'.reg (.gpr .qword id) = writePart part (s.reg (.gpr .qword id)) w

def wholeRegister (r : ZydisRegister) : BitVec 64 :=
  if large r = RIP then nextAddress origin x
  else if r = .NONE then 0
  else s.reg (large r)

def wholeAddress (m : Memory) : BitVec 64 :=
  wholeRegister origin x s m.base +
    wholeRegister origin x s m.index * BitVec.ofNat 64 (scaleOf m) + displacement m

def movedValue (dst src : Operand) (v : BitVec 64) : BitVec 64 :=
  if dst.size = 32 then low 32 (immediateValue dst src v) else immediateValue dst src v

/-- What the instruction would write if it worked on whole registers. -/
def whole : Option (BitVec 64) :=
  match x.mnemonic, x.visible with
  | .MOV, dst :: src::_ =>
    match src.value with
    | .register r => some (s.reg (large r))
    | .immediate v _ => some (movedValue dst src v)
    | .memory m => some (s.load m.segment (wholeAddress origin x s m))
    | .pointer => none
  | .LEA, _ :: src::_ =>
    match src.value with
    | .memory m => some (wholeAddress origin x s m)
    | _ => none
  | .ADD, dst :: src::_ =>
    match dst.value, src.value with
    | .register r, .immediate v _ => some (s.reg (large r) + immediateValue dst src v)
    | _, _ => none
  | .SUB, dst :: src::_ =>
    match dst.value, src.value with
    | .register r, .immediate v _ => some (s.reg (large r) + -immediateValue dst src v)
    | _, _ => none
  | .XOR, _ :: src::_ =>
    match src.value with
    | .register _ => some 0
    | _ => none
  | _, _ => none

/-- An address is computed in 64 bits from 64-bit registers. -/
def WholeAddress (m : Memory) : Prop :=
  x.address_width = 64 ∧ (m.base = .NONE ∨ m.base=RIP ∨ ∃ id, m.base = .gpr .qword id) ∧
    (m.index = .NONE ∨ ∃ id, m.index = .gpr .qword id)

/-- The sources of the instruction are of the size of its destination. -/
def WholeSources : Prop :=
  match x.mnemonic, x.visible with
  | .MOV, dst :: src::_ =>
    match src.value with
    | .register r => ∃ part id id', dst.value = .register (.gpr part id) ∧ r = .gpr part id'
    | .immediate _ rel => rel=false ∧
      ∃ part id, dst.value = .register (.gpr part id) ∧ dst.size=part.size
    | .memory m => src.size=64 ∧ WholeAddress x m
    | .pointer => True
  | .LEA, _ :: src::_ =>
    match src.value with
    | .memory m => WholeAddress x m
    | _ => True
  | .ADD, _ :: src::_ | .SUB, _ :: src::_ =>
    match src.value with
    | .immediate _ rel => rel=false
    | _ => True
  | .XOR, dst :: src::_ => dst.value=src.value
  | _, _ => True

/-- The instruction writes a whole register with what it computes on whole registers: its
destination has 64 bits, or 32 that hold all of the value, and its sources are as large. -/
structure Whole : Prop where
  fits : ∀ w, whole origin x s = some w → ∃ part id, x.destination=some (.gpr part id) ∧
    Fits part w
  sources : WholeSources x

variable {origin : ℕ} {x : Decoded} {s s' : Machine} {m : Memory} {part : GprPart} {id : Fin 16}
  {r : ZydisRegister} {v w : BitVec 64}

theorem readRegister_whole (h:r=.NONE ∨ r=RIP ∨ ∃id,r=.gpr .qword id) :
    readRegister origin x s r=some (wholeRegister origin x s r):=by
  rcases h with rfl | rfl | ⟨id,rfl⟩
  · rfl
  · rfl
  · rfl

theorem effectiveAddress_whole (h:WholeAddress x m) :
    effectiveAddress origin x s m=some (wholeAddress origin x s m):=by
  obtain ⟨hwidth,hbase,hindex⟩:=h
  have hread : readRegister origin x s m.index=some (wholeRegister origin x s m.index):=
    readRegister_whole (hindex.imp_right fun hid=>Or.inr hid)
  rw [effectiveAddress,readRegister_whole hbase,hread]
  simp [wholeAddress,hwidth]

theorem destination_eq {dst:Operand} {rest:List Operand} (hvis:x.visible=dst::rest)
    (h:x.destination=some r) : dst.value=.register r:=by
  rw [Decoded.destination,hvis] at h
  dsimp only at h
  split at h
  · rename_i q hq
    split at h
    · rw [hq,some.inj h]
    · cases h
  · cases h

theorem outcome_whole (hsources:WholeSources x) (hwhole:whole origin x s=some w)
    (hdest:x.destination=some (.gpr part id)) (hfits:Fits part w) (old:BitVec 64) :
    ∃u,outcome origin x s=some u ∧ writePart part old u=w:=by
  cases hvis : x.visible with
  | nil=>
    rw [Decoded.destination,hvis] at hdest
    cases hdest
  | cons dst rest=>
    have hdst:=destination_eq hvis hdest
    cases rest with
    | nil=>
      cases hm : x.mnemonic <;> simp [whole,hvis,hm] at hwhole
    | cons src rest=>
      cases hm : x.mnemonic with
      | MOV=>
        simp only [whole,WholeSources,outcome,sourceValue,hm,hvis] at hwhole hsources ⊢
        cases hsrc : src.value with
        | register q=>
          rw [hsrc] at hwhole hsources
          obtain ⟨p,i,i',hp,rfl⟩:=hsources
          obtain ⟨rfl,rfl⟩ : part=p ∧ id=i:=by simpa [hdst] using hp
          obtain rfl:=some.inj hwhole
          have hreg : Fits part (s.reg (.gpr .qword i')):=hfits
          refine ⟨_,rfl,?_⟩
          rw [readPart_fits hreg]
          exact writePart_fits old hreg
        | immediate v rel=>
          rw [hsrc] at hwhole hsources
          obtain ⟨rfl,p,i,hp,hsize⟩:=hsources
          obtain ⟨rfl,rfl⟩ : part=p ∧ id=i:=by simpa [hdst] using hp
          obtain rfl:=some.inj hwhole
          refine ⟨_,rfl,?_⟩
          rcases hfits with rfl | ⟨rfl,-⟩
          · simp [writePart,movedValue,hsize,GprPart.size]
          · simp [writePart,movedValue,hsize,GprPart.size]
        | memory m=>
          rw [hsrc] at hwhole hsources
          obtain rfl:=some.inj hwhole
          refine ⟨_,?_,writePart_fits old hfits⟩
          simp [hsources.1,effectiveAddress_whole hsources.2]
        | pointer=>
          rw [hsrc] at hwhole
          cases hwhole
      | LEA=>
        simp only [whole,WholeSources,outcome,hm,hvis] at hwhole hsources ⊢
        cases hsrc : src.value with
        | memory m=>
          rw [hsrc] at hwhole hsources
          obtain rfl:=some.inj hwhole
          exact ⟨_,effectiveAddress_whole hsources,writePart_fits old hfits⟩
        | register q=>simp [hsrc] at hwhole
        | immediate v rel=>simp [hsrc] at hwhole
        | pointer=>simp [hsrc] at hwhole
      | ADD=>
        simp only [whole,WholeSources,outcome,sourceValue,hm,hvis,hdst] at hwhole hsources ⊢
        cases hsrc : src.value with
        | immediate v rel=>
          rw [hsrc] at hwhole hsources
          obtain rfl:=hsources
          obtain rfl:=some.inj hwhole
          exact ⟨_,rfl,writePart_add old hfits⟩
        | register q=>simp [hsrc] at hwhole
        | memory m=>simp [hsrc] at hwhole
        | pointer=>simp [hsrc] at hwhole
      | SUB=>
        simp only [whole,WholeSources,outcome,sourceValue,hm,hvis,hdst] at hwhole hsources ⊢
        cases hsrc : src.value with
        | immediate v rel=>
          rw [hsrc] at hwhole hsources
          obtain rfl:=hsources
          obtain rfl:=some.inj hwhole
          exact ⟨_,rfl,writePart_add old hfits⟩
        | register q=>simp [hsrc] at hwhole
        | memory m=>simp [hsrc] at hwhole
        | pointer=>simp [hsrc] at hwhole
      | XOR=>
        simp only [whole,WholeSources,outcome,sourceValue,hm,hvis] at hwhole hsources ⊢
        rw [← hsources,hdst] at hwhole
        obtain rfl:=some.inj hwhole
        refine ⟨_,by rw [← hsources,hdst];rfl,?_⟩
        rw [BitVec.xor_self]
        exact writePart_fits old hfits
      | other n=>simp [whole,hm] at hwhole

theorem Executes.written (h:Executes origin x s s') (hx:Whole origin x s)
    (hwhole:whole origin x s=some w) (htarget:x.target=some r) : s'.reg r=w:=by
  obtain ⟨part,id,hdest,hfits⟩:=hx.fits w hwhole
  obtain ⟨u,hu,hw⟩:=outcome_whole hx.sources hwhole hdest hfits (s.reg (.gpr .qword id))
  rw [Decoded.target,hdest] at htarget
  obtain rfl:=some.inj htarget
  rw [large,h.dest part id u hdest hu,hw]

end AutoRefirst.RegisterTracking
