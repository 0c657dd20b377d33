import AutoRefirst.RegisterTrackingSoundness

/-!
# Every tracker

The search for pointers into a PE follows addresses relative to the image base. With it, every
tracker is right on the code that it is made for, and a move of half a register shows that it is
wrong beyond.
-/

namespace AutoRefirst.RegisterTracking
open Option

open BackwardScan ByteRanges

variable {x : Decoded} {s : Machine} {m : Memory} {cur : ZydisRegister}

/-- A step of the search in an image that is loaded at its base: the instruction ends inside the
image, and a pointer that is loaded is still the one in the file. -/
structure FollowedImage (d : Bytes) (pe : PeInfo) (x : Decoded) (s : Machine)
    (cur : ZydisRegister) : Prop extends Followed pe.image_base pe_immediate x s cur where
  next : x.va+x.length<2^32
  load : ∀ dst src rest m va, x.visible = dst :: src::rest → x.mnemonic = .MOV →
    src.value = .memory m → (pe_rip_mem_rva x m).bind (pe_qword d pe) = some va →
      s.load m.segment (wholeAddress pe.image_base x s m) = va

/-- The offset stands for an address in the image. -/
def imageMeans (pe : PeInfo) (st : Cursor) (s : Machine) (rva : ℕ) : Prop :=
  st.Means s (BitVec.ofNat 64 (pe.image_base+rva))

theorem image_offset_eq {pe:PeInfo} {z:ℤ} {rva:ℕ} (h:image_offset pe z=some rva) :
    BitVec.ofNat 64 (pe.image_base+rva)=BitVec.ofInt 64 z:=by
  rw [image_offset] at h
  split at h
  · cases h
  · rename_i hrange
    have hrva:=some.inj h
    have hsum : pe.image_base+rva=z.toNat:=by omega
    rw [hsum]
    exact ofInt_toNat (by omega)

theorem pe_lea_go {st st':Cursor} (h:pe_lea x m st=.go st') :
    m.index=.NONE ∧ large m.base≠RIP ∧ m.base≠.NONE ∧
      st'=⟨large m.base,st.add + (displacement m).toInt⟩:=by
  rw [pe_lea] at h
  split at h
  · cases h
  rename_i hindex
  split at h
  · dsimp only at h
    split at h <;> cases h
  rename_i hip
  split at h
  · rename_i hbase
    exact ⟨not_not.mp hindex,hip,hbase,(ScanStep.go.inj h).symm⟩
  · cases h

theorem pe_lea_stop {st:Cursor} {rva:ℕ} (h:pe_lea x m st=.stop (some rva)) :
    m.index=.NONE ∧ large m.base=RIP ∧
      (rva:ℤ) = pe_next x + (displacement m).toInt + st.add:=by
  rw [pe_lea] at h
  split at h
  · cases h
  rename_i hindex
  split at h
  · rename_i hip
    dsimp only at h
    split at h
    · cases h
    · rename_i hrange
      have hrva:=some.inj (ScanStep.stop.inj h)
      exact ⟨not_not.mp hindex,hip,by omega⟩
  · split at h <;> cases h

theorem pe_pointer_explains (d:Bytes) (pe:PeInfo) :
    Explains (Executes pe.image_base) (pe_pointer_step d pe)
      (fun x s st=>FollowedImage d pe x s st.cur) (imageMeans pe):=by
  constructor
  case go=>
    intro x m m' st st' a hx hok hgo hmeans
    rw [pe_pointer_step] at hgo
    split at hgo
    · cases hgo
    split at hgo
    · rename_i htarget
      obtain rfl:=ScanStep.go.inj hgo
      rw [imageMeans,Cursor.Means,hok.kept hx htarget]
      exact hmeans
    rename_i htarget
    have htarget:=not_not.mp htarget
    split at hgo
    · rename_i dst q rest hvis
      split at hgo
      · rename_i r hm hsrc
        obtain rfl:=ScanStep.go.inj hgo
        rw [imageMeans,Cursor.Means,hok.mov_register hx htarget hm hvis hsrc]
        exact hmeans
      · cases hgo
      · cases hgo
      · rename_i mem hm hsrc
        obtain ⟨hindex,hip,hbase,rfl⟩:=pe_lea_go hgo
        exact hok.lea_base hx htarget hm hvis hsrc hindex hip hbase rfl hmeans
      · rename_i v hm hsrc
        obtain rfl:=ScanStep.go.inj hgo
        refine Cursor.Means.moved hmeans rfl ?_
        rw [hok.add hx htarget hm hvis hsrc,BitVec.ofInt_toInt]
      · rename_i v hm hsrc
        obtain rfl:=ScanStep.go.inj hgo
        refine Cursor.Means.moved hmeans (Int.sub_eq_add_neg) ?_
        rw [hok.sub hx htarget hm hvis hsrc,BitVec.ofInt_neg,BitVec.ofInt_toInt]
      · cases hgo
    · cases hgo
  case stop=>
    intro x m m' st a hx hok hstop
    rw [pe_pointer_step] at hstop
    split at hstop
    · cases hstop
    split at hstop
    · cases hstop
    rename_i htarget
    have htarget:=not_not.mp htarget
    split at hstop
    · rename_i dst q rest hvis
      split at hstop
      · cases hstop
      · rename_i v hm hsrc
        rw [imageMeans,Cursor.Means,hok.mov_immediate hx htarget hm hvis hsrc,
          image_offset_eq (ScanStep.stop.inj hstop),BitVec.ofInt_add,BitVec.ofInt_toInt]
      · rename_i mem hm hsrc
        obtain ⟨va,hva,hoff⟩:=bind_eq_some_iff.mp (ScanStep.stop.inj hstop)
        rw [imageMeans,Cursor.Means,hok.mov_memory hx htarget hm hvis hsrc,
          hok.load dst q rest mem va hvis hm hsrc hva,image_offset_eq hoff,BitVec.ofInt_add,
          BitVec.ofInt_toInt]
      · rename_i mem hm hsrc
        obtain ⟨hindex,hip,hrva⟩:=pe_lea_stop hstop
        have hnext : pe_next x=((x.va+x.length : ℕ) : ℤ):=by
          rw [pe_next,Nat.mod_eq_of_lt hok.next]
        have hsum : BitVec.ofNat 64 (pe.image_base+a)=BitVec.ofInt 64
            (((pe.image_base+x.va+x.length : ℕ) : ℤ)+(displacement mem).toInt+st.add):=by
          have hcast : (((pe.image_base+a : ℕ) : ℤ)) =
              ((pe.image_base+x.va+x.length : ℕ) : ℤ) + (displacement mem).toInt + st.add:=by
            push_cast at hnext ⊢
            omega
          rw [← hcast,ofInt_cast]
        rw [imageMeans,Cursor.Means,hok.lea hx htarget hm hvis hsrc,
          wholeAddress_ip hindex hip,nextAddress,hsum,BitVec.ofInt_add,BitVec.ofInt_add,
          BitVec.ofInt_toInt,ofInt_cast]
      · cases hstop
      · cases hstop
      · cases hstop
    · cases hstop

theorem Cursor.Means.start {v:BitVec 64} (h:Cursor.Means ⟨cur,0⟩ s v) : s.reg cur=v:=by
  rw [Cursor.Means] at h
  simpa using h

/-- In every run whose instructions write what is tracked by their first operand only, and then all
of it with what they compute on whole registers, a value that a tracker reports is what the
register holds at the end. -/
theorem trackers_sound (run : List (Decoded×Machine)) (s : Machine) : (Reaches (Executes 0) run s →
      Throughout apply_register_write (fun _ => none) Tracked run →
      ∀ r v, tracked run r=some v → s.reg r=v) ∧
    (∀ origin ins func_end callsite arg cur v, Reaches (Executes origin) run s →
      before_call ins callsite=some (run.map Prod.fst) → argument pe_arguments arg=some cur →
      Along (scalar_step pe_volatile) (Followed origin decoded) run cur →
      pe_scalar_arg ins func_end callsite arg=some v → s.reg cur=v) ∧
    (∀ origin ins callsite arg cur v, Reaches (Executes origin) run s →
      before_call ins callsite=some (run.map Prod.fst) → argument elf_arguments arg=some cur →
      Along (scalar_step elf_volatile) (Followed origin decoded) run cur →
      elf_scalar_arg ins callsite arg=some v → s.reg cur=v) ∧
    (∀ ins callsite arg cur v, Reaches (Executes 0) run s →
      before_call ins callsite=some (run.map Prod.fst) → argument elf_arguments arg=some cur →
      Along elf_pointer_step (fun x s st => Followed 0 decoded x s st.cur) run ⟨cur,0⟩ →
      elf_pointer_arg ins callsite arg=some v → s.reg cur=v) ∧
    (∀ ins before wanted budget v, Reaches (Executes 0) run s →
      (ins.take before).reverse=run.map Prod.fst →
      Along elf_constant_step (fun x s st => Followed 0 decoded x s st.cur) run
        ⟨large wanted,0⟩ →
      elf_reg_constant_before ins before wanted budget=some v → s.reg (large wanted)=v) ∧
    (∀ d pe ins func_end callsite arg cur rva, Reaches (Executes pe.image_base) run s →
      before_call ins callsite=some (run.map Prod.fst) → argument pe_arguments arg=some cur →
      Along (pe_pointer_step d pe) (fun x s st => FollowedImage d pe x s st.cur) run ⟨cur,0⟩ →
      pe_pointer_arg d pe ins func_end callsite arg=some rva →
      s.reg cur=BitVec.ofNat 64 (pe.image_base+rva)) := by
  refine ⟨?_,?_,?_,?_,?_,?_⟩
  · intro hrun hok r v hknown
    exact tracked_sound hrun hok r v hknown
  · intro origin ins func_end callsite arg cur v hrun hcall harg hok hscan
    rw [pe_scalar_arg,harg,hcall] at hscan
    dsimp only [bind_eq_bind,bind_some] at hscan
    split at hscan
    · cases hscan
    · exact (scalar_explains pe_volatile).scanBack hrun hok hscan
  · intro origin ins callsite arg cur v hrun hcall harg hok hscan
    rw [elf_scalar_arg,harg,hcall] at hscan
    exact (scalar_explains elf_volatile).scanBack hrun hok hscan
  · intro ins callsite arg cur v hrun hcall harg hok hscan
    rw [elf_pointer_arg,harg,hcall] at hscan
    exact (elf_pointer_explains.scanBack hrun hok hscan).start
  · intro ins before wanted budget v hrun hins hok hscan
    rw [elf_reg_constant_before,hins] at hscan
    exact (elf_constant_explains.scanBack hrun hok hscan).start
  · intro d pe ins func_end callsite arg cur rva hrun hcall harg hok hscan
    rw [pe_pointer_arg,harg,hcall] at hscan
    dsimp only [bind_eq_bind,bind_some] at hscan
    split at hscan
    · cases hscan
    · exact ((pe_pointer_explains d pe).scanBack hrun hok hscan).start

def movRax : Decoded where
  va := 0
  length := 10
  mnemonic := .MOV
  visible := [⟨.register RAX,64,true,false⟩,⟨.immediate 0x100000005 false,64,false,false⟩]

def movEdi : Decoded where
  va := 10
  length := 2
  mnemonic := .MOV
  visible := [⟨.register EDI,32,true,false⟩,⟨.register EAX,32,false,false⟩]

def callHere : Decoded where
  va := 12
  length := 5
  mnemonic := .other 0
  category := .CALL
  visible := []

def blank : Machine := ⟨fun _ => 0,fun _ _ => 0⟩

def withRax : Machine := {blank with reg:=Function.update blank.reg RAX 0x100000005}

def withEdi : Machine := {withRax with reg:=Function.update withRax.reg RDI 5}

theorem movRax_executes : Executes 0 movRax blank withRax:=by
  constructor
  case frame=>
    intro r hr
    refine Function.update_of_ne (fun heq=>hr (.inr ?_)) _ _
    exact ⟨_,List.mem_cons_self,.inl rfl,RAX,rfl,heq.symm⟩
  case dest=>
    intro part id w hdest hw
    obtain ⟨rfl,rfl⟩:=ZydisRegister.gpr.inj (some.inj hdest)
    obtain rfl:=some.inj hw
    decide

theorem movEdi_executes : Executes 0 movEdi withRax withEdi:=by
  constructor
  case frame=>
    intro r hr
    refine Function.update_of_ne (fun heq=>hr (.inr ?_)) _ _
    exact ⟨_,List.mem_cons_self,.inl rfl,EDI,rfl,heq.symm⟩
  case dest=>
    intro part id w hdest hw
    obtain ⟨rfl,rfl⟩:=ZydisRegister.gpr.inj (some.inj hdest)
    obtain rfl:=some.inj hw
    decide

theorem trackers_sound_movRax : withRax.reg RAX=0x100000005:=by
  refine (trackers_sound [(movRax,blank)] withRax).1 ⟨movRax_executes,trivial⟩ ⟨?_,trivial⟩ RAX
    0x100000005 (by decide)
  constructor
  case only=>exact fun r _ hknown=>absurd rfl hknown
  case whole=>
    intro dst rest r hvis htarget hnext
    refine ⟨⟨fun w hw=>⟨.qword,0,rfl,.inl rfl⟩,?_⟩,?_⟩
    · exact ⟨rfl,.qword,0,rfl,rfl⟩
    · change (_:BitVec 64) = _
      decide

/-- A move of 32 bits is taken for one of 64, forwards and backwards. -/
theorem half_register_tracked :
    (¬∀run s, Reaches (Executes 0) run s → ∀r v, tracked run r=some v → s.reg r=v) ∧
    ¬∀run s ins callsite arg cur v, Reaches (Executes 0) run s →
      before_call ins callsite=some (run.map Prod.fst) → argument elf_arguments arg=some cur →
      elf_scalar_arg ins callsite arg=some v → s.reg cur=v:=by
  have hrun : Reaches (Executes 0) [(movEdi,withRax),(movRax,blank)] withEdi:=
    ⟨movEdi_executes,movRax_executes,trivial⟩
  constructor
  · intro hall
    have hone:=hall _ _ hrun RDI 0x100000005 (by decide)
    exact absurd hone (by decide)
  · intro hall
    have hone:=hall _ _ [movRax,movEdi,callHere] 12 0 RDI 0x100000005 hrun rfl (by decide)
      (by decide)
    exact absurd hone (by decide)

end AutoRefirst.RegisterTracking
