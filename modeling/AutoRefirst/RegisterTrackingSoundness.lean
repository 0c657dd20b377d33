import AutoRefirst.RegisterMachine
import Mathlib.Tactic.Ring

/-!
# What the trackers know

Along code that only writes whole registers, and only by the first operand of an instruction, a
tracker's value is what the register holds.
-/

namespace AutoRefirst.RegisterTracking
open Option

open BackwardScan ByteRanges

variable {origin : ℕ} {x : Decoded} {s s' : Machine} {m : Memory} {regs : Registers}
  {r cur : ZydisRegister} {v w : BitVec 64} {dst src : Operand} {rest : List Operand}
  {imm : Operand→Operand→BitVec 64→BitVec 64}

/-- The tracker reads an immediate as the processor does. -/
def Spelled (imm : Operand→Operand→BitVec 64→BitVec 64) (x : Decoded) : Prop :=
  match x.mnemonic, x.visible with
  | .MOV, dst :: src::_ =>
    match src.value with
    | .immediate v _ => imm dst src v = movedValue dst src v
    | _ => True
  | .ADD, dst :: src::_ | .SUB, dst :: src::_ =>
    match src.value with
    | .immediate v _ => immediateValue dst src v = v
    | _ => True
  | _, _ => True

/-- A step of the tracker that goes forwards: of the registers it knows the instruction writes no
other than the first operand, and where it goes on to know that one, the instruction works on the
whole of it. -/
structure Tracked (x : Decoded) (s : Machine) (regs : Registers) : Prop where
  only : ∀ r, x.Writes r → regs r ≠ none → x.target = some r
  whole : ∀ dst rest r, x.visible=dst::rest → x.target = some r →
    next_value x regs dst r rest ≠ none →
      Whole 0 x s ∧ Spelled (fun dst src v => (mov_immediate dst src).getD v) x

/-- A step of a backward search for what is in a register: the instruction writes it by the first
operand or not at all, and if it does, it works on the whole of it. -/
structure Followed (origin : ℕ) (imm : Operand→Operand→BitVec 64→BitVec 64) (x : Decoded)
    (s : Machine) (cur : ZydisRegister) : Prop where
  only : x.Writes cur → x.target = some cur
  whole : x.target = some cur → Whole origin x s ∧ Spelled imm x

theorem Followed.kept (h:Followed origin imm x s cur) (hx:Executes origin x s s')
    (htarget:x.target≠some cur) : s'.reg cur=s.reg cur:=
  hx.frame cur fun hwrites=>htarget (h.only hwrites)

theorem Followed.written (h:Followed origin imm x s cur) (hx:Executes origin x s s')
    (htarget:x.target=some cur) (hwhole:RegisterTracking.whole origin x s=some w) :
    s'.reg cur=w:=
  hx.written (h.whole htarget).1 hwhole htarget

/-- Every register that is known holds its value. -/
def Sound (regs : Registers) (s : Machine) : Prop := ∀ r v, regs r = some v → s.reg r = v

theorem Sound.base_whole (h:Sound regs s) (hbase:memory_base x m regs=some v) :
    v=wholeRegister 0 x s m.base:=by
  rw [RegisterTracking.memory_base] at hbase
  rw [wholeRegister]
  split at hbase
  · rename_i hip
    rw [if_pos hip,← some.inj hbase,nextAddress,Nat.zero_add]
  · rename_i hip
    rw [if_neg hip]
    split at hbase
    · rename_i hnone
      rw [if_pos hnone,some.inj hbase]
    · rename_i hnone
      rw [if_neg hnone,h _ _ hbase]

theorem Sound.index_whole (h:Sound regs s) {base:BitVec 64}
    (hip:large m.index≠RIP) (hindex:memory_index m regs base=some v) :
    v = base + wholeRegister 0 x s m.index * BitVec.ofNat 64 (scaleOf m):=by
  rw [RegisterTracking.memory_index] at hindex
  rw [wholeRegister,if_neg hip]
  split at hindex
  · rename_i hnone
    rw [if_pos hnone,← some.inj hindex]
    simp
  · rename_i hnone
    rw [if_neg hnone]
    split at hindex
    · cases hindex
    · rename_i index hknown
      rw [h _ _ hknown]
      split at hindex
      · cases hindex
      · split at hindex
        · cases hindex
        · rw [← some.inj hindex,BitVec.ofNat_mul,BitVec.ofNat_toNat]
          simp

theorem Sound.address_whole (h:Sound regs s) {o:Operand} (ho:o.value=.memory m)
    (hip:large m.index≠RIP) (haddr:memory_address x o regs=some v) :
    v=wholeAddress 0 x s m:=by
  rw [RegisterTracking.memory_address,ho] at haddr
  dsimp only at haddr
  split at haddr
  · cases haddr
  · rename_i base hbase
    obtain ⟨value,hvalue,rfl⟩:=map_eq_some_iff.mp haddr
    rw [wholeAddress,← h.base_whole hbase,← h.index_whole hip hvalue,displacement]
    cases m.disp with
    | none=>simp
    | some disp=>rfl

theorem WholeAddress.index_ne (h:WholeAddress x m) : large m.index≠RIP:=by
  rcases h.2.2 with hnone | ⟨id,hid⟩
  · rw [hnone]
    exact nofun
  · rw [hid]
    exact nofun

theorem Sound.next_value_whole (h:Sound regs s) (hvis:x.visible=dst::rest) (htarget:x.target=some r)
    (hsources:WholeSources x) (hspelled:Spelled (fun dst src v=>
      (mov_immediate dst src).getD v) x) (hnext:next_value x regs dst r rest=some v) :
    whole 0 x s=some v:=by
  obtain ⟨q,hdest,rfl⟩:=map_eq_some_iff.mp htarget
  have hdst:=destination_eq hvis hdest
  cases rest with
  | nil=>
    cases hm : x.mnemonic <;> simp [RegisterTracking.next_value,hm] at hnext
  | cons src rest=>
    cases hm : x.mnemonic with
    | MOV=>
      simp only [RegisterTracking.next_value,whole,Spelled,hm,hvis] at hnext hspelled ⊢
      cases hsrc : src.value with
      | register p=>
        rw [hsrc] at hnext
        exact congrArg some (h _ _ hnext)
      | immediate u rel=>
        rw [hsrc] at hnext hspelled
        dsimp only at hnext hspelled ⊢
        rw [← hspelled,hnext,getD_some]
      | memory m=>simp [hsrc,mov_immediate] at hnext
      | pointer=>simp [hsrc,mov_immediate] at hnext
    | LEA=>
      simp only [RegisterTracking.next_value,whole,WholeSources,hm,hvis] at hnext hsources ⊢
      cases hsrc : src.value with
      | memory m=>
        rw [hsrc] at hsources
        exact congrArg some (h.address_whole hsrc hsources.index_ne hnext).symm
      | register p=>simp [hsrc,RegisterTracking.memory_address] at hnext
      | immediate u rel=>simp [hsrc,RegisterTracking.memory_address] at hnext
      | pointer=>simp [hsrc,RegisterTracking.memory_address] at hnext
    | ADD=>
      simp only [RegisterTracking.next_value,whole,Spelled,hm,hvis,hdst] at hnext hspelled ⊢
      cases hsrc : src.value with
      | immediate u rel=>
        rw [hsrc] at hnext hspelled
        obtain ⟨known,hknown,rfl⟩:=map_eq_some_iff.mp hnext
        dsimp only at hspelled ⊢
        rw [h _ _ hknown,hspelled]
        rfl
      | register p=>simp [hsrc] at hnext
      | memory m=>simp [hsrc] at hnext
      | pointer=>simp [hsrc] at hnext
    | SUB=>
      simp only [RegisterTracking.next_value,whole,Spelled,hm,hvis,hdst] at hnext hspelled ⊢
      cases hsrc : src.value with
      | immediate u rel=>
        rw [hsrc] at hnext hspelled
        obtain ⟨known,hknown,rfl⟩:=map_eq_some_iff.mp hnext
        dsimp only at hspelled ⊢
        rw [h _ _ hknown,hspelled]
        rfl
      | register p=>simp [hsrc] at hnext
      | memory m=>simp [hsrc] at hnext
      | pointer=>simp [hsrc] at hnext
    | XOR=>
      simp only [RegisterTracking.next_value,whole,hm,hvis] at hnext ⊢
      cases hsrc : src.value with
      | register p=>
        rw [hsrc] at hnext
        dsimp only at hnext ⊢
        split at hnext
        · exact hnext
        · cases hnext
      | immediate u rel=>simp [hsrc] at hnext
      | memory m=>simp [hsrc] at hnext
      | pointer=>simp [hsrc] at hnext
    | other n=>simp [RegisterTracking.next_value,hm] at hnext

theorem Sound.kept (h:Sound regs s) (hx:Executes 0 x s s') (hok:Tracked x s regs)
    (hr:x.target≠some r) (hknown:regs r=some v) : s'.reg r=v:=by
  rw [hx.frame r fun hwrites=>hr (hok.only r hwrites (by simp [hknown]))]
  exact h r v hknown

theorem target_visible (htarget:x.target=some r) : ∃dst rest,x.visible=dst::rest:=by
  cases hvis : x.visible with
  | nil=>
    rw [Decoded.target,Decoded.destination,hvis] at htarget
    cases htarget
  | cons dst rest=>exact ⟨dst,rest,rfl⟩

/-- One instruction. -/
theorem Sound.step (hx:Executes 0 x s s') (hok:Tracked x s regs) (h:Sound regs s) :
    Sound (apply_register_write x regs) s':=by
  intro r v hknown
  cases htarget : x.target with
  | none=>
    have hsame : apply_register_write x regs=regs:=by
      rw [apply_register_write,htarget]
      cases x.visible <;> rfl
    rw [hsame] at hknown
    exact h.kept hx hok (by simp [htarget]) hknown
  | some target=>
    obtain ⟨dst,rest,hvis⟩:=target_visible htarget
    have hwrite : apply_register_write x regs =
        Function.update regs target (next_value x regs dst target rest):=by
      rw [apply_register_write,hvis,htarget]
    rw [hwrite] at hknown
    by_cases heq : r=target
    · subst heq
      rw [Function.update_self] at hknown
      obtain ⟨hwhole,hspelled⟩:=hok.whole dst rest r hvis htarget (by simp [hknown])
      have hnext:=h.next_value_whole hvis htarget hwhole.sources hspelled hknown
      exact hx.written hwhole hnext htarget
    · rw [Function.update_of_ne heq] at hknown
      refine h.kept hx hok (fun hr=>heq ?_) hknown
      exact some.inj (hr.symm.trans htarget)

/-- The registers that are known after a run, of which nothing was known before. -/
def tracked (run : List (Decoded×Machine)) : Registers :=
  (run.map Prod.fst).foldr apply_register_write fun _ => none

theorem tracked_sound {run:List (Decoded×Machine)} (hrun:Reaches (Executes 0) run s)
    (hok:Throughout apply_register_write (fun _=>none) Tracked run) :
    Sound (tracked run) s:=by
  have hstart : ∀m,Sound (fun _=>none) m:=by
    intro m r v hknown
    cases hknown
  have hstep : ∀x m m' regs,Executes 0 x m m' → Tracked x m regs → Sound regs m →
      Sound (apply_register_write x regs) m':=fun _ _ _ _ hx hmet hsound=>hsound.step hx hmet
  exact Reaches.fold_keeps hstart hstep hrun hok

theorem Followed.mov_register (h:Followed origin imm x s cur) (hx:Executes origin x s s')
    (htarget:x.target=some cur) (hm:x.mnemonic=.MOV) (hvis:x.visible=dst::src::rest)
    (hsrc:src.value=.register r) : s'.reg cur=s.reg (large r):=
  h.written hx htarget (by simp only [RegisterTracking.whole,hm,hvis,hsrc])

variable {rel : Bool}

theorem Followed.mov_immediate (h:Followed origin imm x s cur) (hx:Executes origin x s s')
    (htarget:x.target=some cur) (hm:x.mnemonic=.MOV) (hvis:x.visible=dst::src::rest)
    (hsrc:src.value=.immediate v rel) :
    s'.reg cur=imm dst src v:=by
  have hspelled:=(h.whole htarget).2
  simp only [Spelled,hm,hvis,hsrc] at hspelled
  rw [hspelled]
  exact h.written hx htarget (by simp only [RegisterTracking.whole,hm,hvis,hsrc])

theorem Followed.mov_memory (h:Followed origin imm x s cur) (hx:Executes origin x s s')
    (htarget:x.target=some cur) (hm:x.mnemonic=.MOV) (hvis:x.visible=dst::src::rest)
    (hsrc:src.value=.memory m) :
    s'.reg cur=s.load m.segment (wholeAddress origin x s m):=
  h.written hx htarget (by simp only [RegisterTracking.whole,hm,hvis,hsrc])

theorem Followed.lea (h:Followed origin imm x s cur) (hx:Executes origin x s s')
    (htarget:x.target=some cur) (hm:x.mnemonic=.LEA) (hvis:x.visible=dst::src::rest)
    (hsrc:src.value=.memory m) : s'.reg cur=wholeAddress origin x s m:=
  h.written hx htarget (by simp only [RegisterTracking.whole,hm,hvis,hsrc])

theorem Followed.xor (h:Followed origin imm x s cur) (hx:Executes origin x s s')
    (htarget:x.target=some cur) (hm:x.mnemonic=.XOR) (hvis:x.visible=dst::src::rest)
    (hsrc:src.value=.register r) : s'.reg cur=0:=
  h.written hx htarget (by simp only [RegisterTracking.whole,hm,hvis,hsrc])

theorem target_operand (htarget:x.target=some cur) (hvis:x.visible=dst::rest) :
    ∃q,dst.value=.register q ∧ large q=cur:=by
  obtain ⟨q,hdest,hq⟩:=map_eq_some_iff.mp htarget
  exact ⟨q,destination_eq hvis hdest,hq⟩

theorem Followed.add (h:Followed origin imm x s cur) (hx:Executes origin x s s')
    (htarget:x.target=some cur) (hm:x.mnemonic=.ADD) (hvis:x.visible=dst::src::rest)
    (hsrc:src.value=.immediate v rel) :
    s'.reg cur = s.reg cur + v:=by
  obtain ⟨q,hdst,hq⟩:=target_operand htarget hvis
  have hspelled:=(h.whole htarget).2
  simp only [Spelled,hm,hvis,hsrc] at hspelled
  refine h.written hx htarget ?_
  simp only [RegisterTracking.whole,hm,hvis,hsrc,hdst,hq,hspelled]

theorem Followed.sub (h:Followed origin imm x s cur) (hx:Executes origin x s s')
    (htarget:x.target=some cur) (hm:x.mnemonic=.SUB) (hvis:x.visible=dst::src::rest)
    (hsrc:src.value=.immediate v rel) :
    s'.reg cur = s.reg cur + -v:=by
  obtain ⟨q,hdst,hq⟩:=target_operand htarget hvis
  have hspelled:=(h.whole htarget).2
  simp only [Spelled,hm,hvis,hsrc] at hspelled
  refine h.written hx htarget ?_
  simp only [RegisterTracking.whole,hm,hvis,hsrc,hdst,hq,hspelled]

def decoded (_ _ : Operand) (v : BitVec 64) : BitVec 64 := v

theorem scalar_explains (volatile:List ZydisRegister) :
    Explains (Executes origin) (scalar_step volatile)
      (fun x s cur=>Followed origin decoded x s cur) fun cur s v=>s.reg cur = v:=by
  constructor
  case go=>
    intro x m m' s s' a hx hok hgo hmeans
    rw [scalar_step] at hgo
    split at hgo
    · cases hgo
    split at hgo
    · rename_i htarget
      obtain rfl:=ScanStep.go.inj hgo
      rw [hok.kept hx htarget]
      exact hmeans
    rename_i htarget
    have htarget:=not_not.mp htarget
    split at hgo
    · rename_i dst q rest hm hvis
      split at hgo
      · rename_i r hsrc
        obtain rfl:=ScanStep.go.inj hgo
        rw [hok.mov_register hx htarget hm hvis hsrc]
        exact hmeans
      · cases hgo
      · cases hgo
    · split at hgo
      · split at hgo <;> cases hgo
      · cases hgo
    · cases hgo
  case stop=>
    intro x m m' s a hx hok hstop
    rw [scalar_step] at hstop
    split at hstop
    · cases hstop
    split at hstop
    · cases hstop
    rename_i htarget
    have htarget:=not_not.mp htarget
    split at hstop
    · rename_i dst q rest hm hvis
      split at hstop
      · cases hstop
      · rename_i v hsrc
        obtain rfl:=some.inj (ScanStep.stop.inj hstop)
        exact hok.mov_immediate hx htarget hm hvis hsrc
      · cases hstop
    · rename_i dst q rest hm hvis
      split at hstop
      · rename_i r hsrc
        split at hstop
        · obtain rfl:=some.inj (ScanStep.stop.inj hstop)
          exact hok.xor hx htarget hm hvis hsrc
        · cases hstop
      · cases hstop
    · cases hstop

theorem ofInt_toNat {z:ℤ} (h:0≤z) : BitVec.ofNat 64 z.toNat=BitVec.ofInt 64 z:=by
  obtain ⟨n,rfl⟩:=Int.eq_ofNat_of_zero_le h
  simp

theorem ofInt_cast (n:ℕ) : BitVec.ofInt 64 (n:ℤ)=BitVec.ofNat 64 n:=by
  simp

theorem add_signed_u64_eq {base v:BitVec 64} {delta:ℤ}
    (h:add_signed_u64 base delta=some v) : v = base + BitVec.ofInt 64 delta:=by
  rw [add_signed_u64] at h
  split at h
  · rename_i hrange
    rw [← some.inj h,ofInt_toNat hrange.1,BitVec.ofInt_add]
    simp
  · cases h

theorem add_signed_i64_eq {base delta sum:ℤ} (h:add_signed_i64 base delta=some sum) :
    sum = base+delta:=by
  rw [add_signed_i64] at h
  split at h
  · exact (some.inj h).symm
  · cases h

/-- What is in the register with what is added to it on the way. -/
def Cursor.Means (st : Cursor) (s : Machine) (v : BitVec 64) : Prop :=
  s.reg st.cur + BitVec.ofInt 64 st.add = v

variable {st : Cursor}

/-- A step that adds to the register is made up for. -/
theorem Cursor.Means.moved {add delta:ℤ} {next:ZydisRegister} (h:Cursor.Means ⟨next,add⟩ s v)
    (hadd:add=st.add+delta) (hreg:s'.reg st.cur = s.reg next + BitVec.ofInt 64 delta) :
    st.Means s' v:=by
  rw [Cursor.Means] at h ⊢
  rw [hreg,← h,hadd,BitVec.ofInt_add,BitVec.add_assoc,BitVec.add_comm (BitVec.ofInt 64 delta)]

theorem go_on_eq {α:Type} {add:Option ℤ} (h:go_on (α:=α) cur add=.go st) :
    ∃a,add=some a ∧ st=⟨cur,a⟩:=by
  cases add with
  | none=>cases h
  | some a=>exact ⟨a,rfl,(ScanStep.go.inj h).symm⟩

theorem go_on_stop {α:Type} {add:Option ℤ} {a:α} (h:go_on cur add=.stop (some a)) :
    False:=by
  cases add <;> cases h

/-- An immediate that is added or subtracted. -/
theorem Followed.delta {add:ℤ} (h:Followed origin imm x s st.cur) (hx:Executes origin x s s')
    (htarget:x.target=some st.cur) (hm:x.mnemonic=.ADD ∨ x.mnemonic=.SUB)
    (hvis:x.visible=dst::src::rest) (hsrc:src.value=.immediate v rel)
    (hadd:(immediate_delta x v).bind (add_signed_i64 st.add)=some add)
    (hmeans:Cursor.Means ⟨st.cur,add⟩ s w) : st.Means s' w:=by
  obtain ⟨delta,hdelta,hsum⟩:=bind_eq_some_iff.mp hadd
  refine hmeans.moved (add_signed_i64_eq hsum) ?_
  rcases hm with hm | hm
  · rw [immediate_delta,if_neg (by simp [hm])] at hdelta
    rw [h.add hx htarget hm hvis hsrc,← some.inj hdelta,BitVec.ofInt_toInt]
  · rw [immediate_delta,if_pos hm] at hdelta
    split at hdelta
    · cases hdelta
    · rw [h.sub hx htarget hm hvis hsrc,← some.inj hdelta,BitVec.ofInt_neg,
        BitVec.ofInt_toInt]

theorem wholeAddress_base (hindex:m.index=.NONE) (hip:large m.base≠RIP) (hbase:m.base≠.NONE) :
    wholeAddress origin x s m = s.reg (large m.base) + displacement m:=by
  have hnone : wholeRegister origin x s .NONE=0:=rfl
  rw [wholeAddress,hindex,hnone,wholeRegister,if_neg hip,if_neg hbase]
  simp

theorem wholeAddress_ip (hindex:m.index=.NONE) (hip:large m.base=RIP) :
    wholeAddress origin x s m = nextAddress origin x + displacement m:=by
  have hnone : wholeRegister origin x s .NONE=0:=rfl
  rw [wholeAddress,hindex,hnone,wholeRegister,if_pos hip]
  simp

/-- An address that is relative to another register. -/
theorem Followed.lea_base {add:ℤ} (h:Followed origin imm x s st.cur)
    (hx:Executes origin x s s') (htarget:x.target=some st.cur) (hm:x.mnemonic=.LEA)
    (hvis:x.visible=dst::src::rest) (hsrc:src.value=.memory m)
    (hindex:m.index=.NONE) (hip:large m.base≠RIP) (hbase:m.base≠.NONE)
    (hadd:add=st.add+(displacement m).toInt) (hmeans:Cursor.Means ⟨large m.base,add⟩ s w) :
    st.Means s' w:=by
  refine hmeans.moved hadd ?_
  rw [h.lea hx htarget hm hvis hsrc,wholeAddress_base hindex hip hbase,BitVec.ofInt_toInt]

/-- An address that is relative to the instruction. -/
theorem Followed.lea_ip (h:Followed 0 imm x s st.cur) (hx:Executes 0 x s s')
    (htarget:x.target=some st.cur) (hm:x.mnemonic=.LEA)
    (hvis:x.visible=dst::src::rest) (hsrc:src.value=.memory m)
    (hindex:m.index=.NONE) (hip:large m.base=RIP)
    (haddr:add_signed_u64 (BitVec.ofNat 64 (x.va+x.length)) (displacement m).toInt=some v)
    (hsum:add_signed_u64 v st.add=some w) : st.Means s' w:=by
  rw [Cursor.Means,h.lea hx htarget hm hvis hsrc,wholeAddress_ip hindex hip,nextAddress,
    add_signed_u64_eq hsum,add_signed_u64_eq haddr,BitVec.ofInt_toInt,Nat.zero_add]

theorem elf_lea_go {st':Cursor} (h:elf_lea x m st=.go st') :
    m.index=.NONE ∧ large m.base≠RIP ∧ m.base≠.NONE ∧
      st'=⟨large m.base,st.add + (displacement m).toInt⟩:=by
  rw [elf_lea] at h
  split at h
  · cases h
  rename_i hindex
  split at h
  · split at h
    · cases h
    · split at h <;> cases h
  rename_i hip
  split at h
  · rename_i hbase
    obtain ⟨add,hadd,rfl⟩:=go_on_eq h
    rw [add_signed_i64_eq hadd]
    exact ⟨not_not.mp hindex,hip,hbase,rfl⟩
  · cases h

theorem elf_lea_stop (h:elf_lea x m st=.stop (some w)) :
    m.index=.NONE ∧ large m.base=RIP ∧ ∃v,add_signed_u64 v st.add=some w ∧
      add_signed_u64 (BitVec.ofNat 64 (x.va+x.length)) (displacement m).toInt=some v:=by
  rw [elf_lea] at h
  split at h
  · cases h
  rename_i hindex
  split at h
  · rename_i hip
    split at h
    · cases h
    · split at h
      · cases h
      · rename_i v hv
        exact ⟨not_not.mp hindex,hip,v,ScanStep.stop.inj h,hv⟩
  · split at h
    · exact (go_on_stop h).elim
    · cases h

theorem elf_pointer_explains : Explains (Executes 0) elf_pointer_step
      (fun x s st=>Followed 0 decoded x s st.cur) Cursor.Means:=by
  constructor
  case go=>
    intro x m m' st st' a hx hok hgo hmeans
    rw [elf_pointer_step] at hgo
    split at hgo
    · cases hgo
    split at hgo
    · rename_i htarget
      obtain rfl:=ScanStep.go.inj hgo
      rw [Cursor.Means,hok.kept hx htarget]
      exact hmeans
    rename_i htarget
    have htarget:=not_not.mp htarget
    split at hgo
    · rename_i dst q rest hvis
      split at hgo
      · rename_i r hm hsrc
        obtain rfl:=ScanStep.go.inj hgo
        rw [Cursor.Means,hok.mov_register hx htarget hm hvis hsrc]
        exact hmeans
      · cases hgo
      · rename_i mem hm hsrc
        obtain ⟨hindex,hip,hbase,rfl⟩:=elf_lea_go hgo
        exact hok.lea_base hx htarget hm hvis hsrc hindex hip hbase rfl hmeans
      · rename_i v hm hsrc
        obtain ⟨add,hadd,rfl⟩:=go_on_eq hgo
        exact hok.delta hx htarget (.inl hm) hvis hsrc hadd hmeans
      · rename_i v hm hsrc
        obtain ⟨add,hadd,rfl⟩:=go_on_eq hgo
        exact hok.delta hx htarget (.inr hm) hvis hsrc hadd hmeans
      · cases hgo
    · cases hgo
  case stop=>
    intro x m m' st a hx hok hstop
    rw [elf_pointer_step] at hstop
    split at hstop
    · cases hstop
    split at hstop
    · cases hstop
    rename_i htarget
    have htarget:=not_not.mp htarget
    split at hstop
    · rename_i dst q rest hvis
      split at hstop
      · cases hstop
      · rename_i v hm hsrc
        rw [Cursor.Means,hok.mov_immediate hx htarget hm hvis hsrc,
          add_signed_u64_eq (ScanStep.stop.inj hstop)]
        rfl
      · rename_i mem hm hsrc
        obtain ⟨hindex,hip,v,hsum,haddr⟩:=elf_lea_stop hstop
        exact hok.lea_ip hx htarget hm hvis hsrc hindex hip haddr hsum
      · exact (go_on_stop hstop).elim
      · exact (go_on_stop hstop).elim
      · cases hstop
    · cases hstop

theorem elf_constant_explains : Explains (Executes 0) elf_constant_step
      (fun x s st=>Followed 0 decoded x s st.cur) Cursor.Means:=by
  constructor
  case go=>
    intro x m m' st st' a hx hok hgo hmeans
    rw [elf_constant_step] at hgo
    split at hgo
    · cases hgo
    split at hgo
    · rename_i htarget
      obtain rfl:=ScanStep.go.inj hgo
      rw [Cursor.Means,hok.kept hx htarget]
      exact hmeans
    rename_i htarget
    have htarget:=not_not.mp htarget
    split at hgo
    · rename_i dst q rest hvis
      split at hgo
      · rename_i r hm hsrc
        obtain rfl:=ScanStep.go.inj hgo
        rw [Cursor.Means,hok.mov_register hx htarget hm hvis hsrc]
        exact hmeans
      · cases hgo
      · split at hgo
        · cases hgo
        · split at hgo
          · split at hgo <;> cases hgo
          · cases hgo
      · split at hgo
        · split at hgo <;> cases hgo
        · cases hgo
      · rename_i v hm hsrc
        obtain ⟨add,hadd,rfl⟩:=go_on_eq hgo
        exact hok.delta hx htarget (.inl hm) hvis hsrc hadd hmeans
      · rename_i v hm hsrc
        obtain ⟨add,hadd,rfl⟩:=go_on_eq hgo
        exact hok.delta hx htarget (.inr hm) hvis hsrc hadd hmeans
      · cases hgo
    · cases hgo
  case stop=>
    intro x m m' st a hx hok hstop
    rw [elf_constant_step] at hstop
    split at hstop
    · cases hstop
    split at hstop
    · cases hstop
    rename_i htarget
    have htarget:=not_not.mp htarget
    split at hstop
    · rename_i dst q rest hvis
      split at hstop
      · cases hstop
      · rename_i v hm hsrc
        rw [Cursor.Means,hok.mov_immediate hx htarget hm hvis hsrc,
          add_signed_u64_eq (ScanStep.stop.inj hstop)]
        rfl
      · rename_i mem hm hsrc
        split at hstop
        · cases hstop
        · rename_i hindex
          split at hstop
          · rename_i hip
            split at hstop
            · cases hstop
            · rename_i v hv
              exact hok.lea_ip hx htarget hm hvis hsrc (not_not.mp hindex) hip hv
                (ScanStep.stop.inj hstop)
          · cases hstop
      · rename_i r hm hsrc
        rw [Cursor.Means,hok.xor hx htarget hm hvis hsrc]
        split at hstop
        · split at hstop
          · rename_i hzero
            rw [← some.inj (ScanStep.stop.inj hstop),hzero]
            rfl
          · rw [add_signed_u64_eq (ScanStep.stop.inj hstop)]
        · cases hstop
      · exact (go_on_stop hstop).elim
      · exact (go_on_stop hstop).elim
      · cases hstop
    · cases hstop

end AutoRefirst.RegisterTracking
