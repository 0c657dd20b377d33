import AutoRefirst.MachO
import Mathlib.Tactic.Ring

/-!
# The geometry of accepted Mach-O images

What lies where in an image that the parser accepts, thin or universal, and what the check of a
universal header makes of it.
-/

namespace AutoRefirst.MachO
open Fallible List Option

variable {d : Bytes} {le is64 : Bool} {base : ℕ}

def Tiles (base : ℕ) : ℕ → List MachOLoadCommand → ℕ → Prop
  | p, [], stop => p = stop
  | p, c::l, stop => c.offset = base+p ∧ 8 ≤ c.size ∧ Tiles base (p+c.size) l stop

theorem Tiles.append {p q:ℕ} {l:List MachOLoadCommand} (h:Tiles base p l q)
    {c:MachOLoadCommand} (hoff:c.offset=base+q) (hsize:8 ≤ c.size) :
    Tiles base p (l++[c]) (q+c.size):=by
  induction l generalizing p with
  | nil=>
    cases h
    exact ⟨hoff,hsize,rfl⟩
  | cons x l ih=>exact ⟨h.1,h.2.1,ih h.2.2⟩

/-- The file range of a section that has one. -/
def MachOSection.Inside (d : Bytes) (base : ℕ) (x : MachOSection) : Prop :=
  zerofillType (x.flags % 256) = false → base≤x.offset ∧ x.offset-base+x.size≤d.length

structure TablesInside (d : Bytes) (base : ℕ) (w : Walk) : Prop where
  segments : ∀ s∈w.segs, s.fileoff+s.filesize≤d.length
  sections : ∀ x∈w.out.sections, x.Inside d base

theorem parseSection_inside {L:SegmentLayout} {q:ℕ} {x:MachOSection}
    (h:parseSection L d le base q=.ok x) : x.Inside d base:=by
  unfold parseSection at h
  obtain ⟨hrange,h⟩:=rejectIf_bind.mp h
  rw [← pure_eq_ok.mp h]
  intro hfill
  dsimp only at hfill ⊢
  rw [if_neg (by simp [hfill])]
  have hin : ¬(_ ∨ _):=fun hout=>hrange ⟨hfill,hout⟩
  omega

theorem parseSegment_inside {L:SegmentLayout} {w w':Walk} {sz:ℕ}
    (hw:TablesInside d base w) (h:parseSegment L d le base w sz=.ok w') :
    TablesInside d base w' ∧ w'.commands=w.commands:=by
  unfold parseSegment at h
  obtain ⟨_,h⟩:=rejectIf_bind.mp h
  obtain ⟨_,h⟩:=rejectIf_bind.mp h
  obtain ⟨hrange,h⟩:=rejectIf_bind.mp h
  obtain ⟨sections,hsections,h⟩:=bind_eq_ok.mp h
  rw [← pure_eq_ok.mp h]
  refine ⟨⟨?_,?_⟩,rfl⟩
  · intro s hs
    cases mem_append.mp hs with
    | inl hs=>exact hw.segments s hs
    | inr hs=>
      rw [mem_singleton.mp hs]
      dsimp only at hrange ⊢
      omega
  · refine foldlM_keeps (P:=fun l=>∀x∈l,MachOSection.Inside d base x) ?_ hw.sections
      hsections
    intro l hl j _ l' hl'
    obtain ⟨x,hx,hl'⟩:=bind_eq_ok.mp hl'
    rw [← pure_eq_ok.mp hl']
    intro y hy
    cases mem_append.mp hy with
    | inl hy=>exact hl y hy
    | inr hy=>exact mem_singleton.mp hy▸parseSection_inside hx

/-- A command that is no segment leaves the tables. -/
structure SameTables (w w' : Walk) : Prop where
  segs : w'.segs=w.segs
  sections : w'.out.sections=w.out.sections
  commands : w'.commands=w.commands

theorem SameTables.inside {w w':Walk} (h:SameTables w w') (hw:TablesInside d base w) :
    TablesInside d base w' ∧ w'.commands=w.commands:=by
  refine ⟨⟨?_,?_⟩,h.commands⟩
  · rw [h.segs]
    exact hw.segments
  · rw [h.sections]
    exact hw.sections

section
variable {w w' : Walk} {sz : ℕ}

theorem parseSymtabCommand_same (h:parseSymtabCommand d le w sz=.ok w') : SameTables w w':=by
  unfold parseSymtabCommand at h
  obtain ⟨_,h⟩:=rejectIf_bind.mp h
  obtain ⟨_,h⟩:=rejectIf_bind.mp h
  exact pure_eq_ok.mp h▸⟨rfl,rfl,rfl⟩

theorem parseFunctionStartsCommand_same (h:parseFunctionStartsCommand d le w sz=.ok w') :
    SameTables w w':=by
  unfold parseFunctionStartsCommand at h
  obtain ⟨_,h⟩:=rejectIf_bind.mp h
  obtain ⟨_,h⟩:=rejectIf_bind.mp h
  exact pure_eq_ok.mp h▸⟨rfl,rfl,rfl⟩

theorem parseMain_same (h:parseMain d le base w sz=.ok w') : SameTables w w':=by
  unfold parseMain at h
  obtain ⟨_,h⟩:=rejectIf_bind.mp h
  obtain ⟨_,h⟩:=rejectIf_bind.mp h
  exact pure_eq_ok.mp h▸⟨rfl,rfl,rfl⟩

theorem parseRoutines_same {least word:ℕ} {error:String}
    (h:parseRoutines d le base w sz least word error=.ok w') : SameTables w w':=by
  unfold parseRoutines at h
  obtain ⟨_,h⟩:=rejectIf_bind.mp h
  exact pure_eq_ok.mp h▸⟨rfl,rfl,rfl⟩

theorem parseDylib_same (h:parseDylib d le w sz=.ok w') : SameTables w w':=by
  unfold parseDylib at h
  iterate 3 obtain ⟨_,h⟩:=rejectIf_bind.mp h
  exact pure_eq_ok.mp h▸⟨rfl,rfl,rfl⟩

theorem parseUuid_same (h:parseUuid d w sz=.ok w') : SameTables w w':=by
  unfold parseUuid at h
  obtain ⟨_,h⟩:=rejectIf_bind.mp h
  exact pure_eq_ok.mp h▸⟨rfl,rfl,rfl⟩

theorem parseCodeSignature_same (h:parseCodeSignature d le base w sz=.ok w') :
    SameTables w w':=by
  unfold parseCodeSignature at h
  obtain ⟨_,h⟩:=rejectIf_bind.mp h
  obtain ⟨_,h⟩:=rejectIf_bind.mp h
  exact pure_eq_ok.mp h▸⟨rfl,rfl,rfl⟩

theorem parseEncryption_same {least:ℕ} (h:parseEncryption d le base w sz least=.ok w') :
    SameTables w w':=by
  unfold parseEncryption at h
  obtain ⟨_,h⟩:=rejectIf_bind.mp h
  obtain ⟨_,h⟩:=rejectIf_bind.mp h
  exact pure_eq_ok.mp h▸⟨rfl,rfl,rfl⟩

theorem parseBuildVersion_same (h:parseBuildVersion d le w sz=.ok w') : SameTables w w':=by
  unfold parseBuildVersion at h
  obtain ⟨_,h⟩:=rejectIf_bind.mp h
  obtain ⟨_,h⟩:=rejectIf_bind.mp h
  exact pure_eq_ok.mp h▸⟨rfl,rfl,rfl⟩

theorem parseMinimumVersion_same {platform:ℕ}
    (h:parseMinimumVersion d le w sz platform=.ok w') : SameTables w w':=by
  unfold parseMinimumVersion at h
  obtain ⟨_,h⟩:=rejectIf_bind.mp h
  exact pure_eq_ok.mp h▸⟨rfl,rfl,rfl⟩

theorem parseCommand_inside {cmd:ℕ} (hw:TablesInside d base w)
    (h:parseCommand d le is64 base w cmd sz=.ok w') :
    TablesInside d base w' ∧ w'.commands=w.commands:=by
  revert h
  fun_cases parseCommand d le is64 base w cmd sz
  case case1=>exact parseSegment_inside hw
  case case2=>exact parseSegment_inside hw
  case case3=>exact fun h=>(parseSymtabCommand_same h).inside hw
  case case4=>exact fun h=>(parseFunctionStartsCommand_same h).inside hw
  case case5=>exact fun h=>(parseMain_same h).inside hw
  case case6=>exact fun h=>(parseRoutines_same h).inside hw
  case case7=>exact fun h=>(parseRoutines_same h).inside hw
  case case8=>exact fun h=>(parseDylib_same h).inside hw
  case case9=>exact fun h=>(parseUuid_same h).inside hw
  case case10=>exact fun h=>(parseCodeSignature_same h).inside hw
  case case11=>exact fun h=>(parseEncryption_same h).inside hw
  case case12=>exact fun h=>(parseBuildVersion_same h).inside hw
  case case13=>exact fun h=>(parseMinimumVersion_same h).inside hw
  case case14=>exact fun h=>pure_eq_ok.mp h▸⟨hw,rfl⟩

end

structure Walked (d : Bytes) (base start : ℕ) (n : ℕ) (w : Walk) : Prop where
  tiles : Tiles base start w.commands w.p
  count : w.commands.length=n
  inside : TablesInside d base w

variable {n : ℕ}

theorem walkCommand_walked {start cmdEnd:ℕ} {w w':Walk} (hw:Walked d base start n w)
    (h:walkCommand d le is64 base cmdEnd w=.ok w') : Walked d base start (n+1) w':=by
  unfold walkCommand at h
  obtain ⟨_,h⟩:=rejectIf_bind.mp h
  obtain ⟨cmd,_,h⟩:=bind_eq_ok.mp h
  obtain ⟨sz,_,h⟩:=bind_eq_ok.mp h
  obtain ⟨hsz,h⟩:=rejectIf_bind.mp h
  obtain ⟨_,h⟩:=rejectIf_bind.mp h
  obtain ⟨w₁,hcommand,h⟩:=bind_eq_ok.mp h
  have hstart : TablesInside d base
      {w with commands:=w.commands++[{command:=cmd,size:=sz,offset:=base+w.p}]}:=
    ⟨hw.inside.segments,hw.inside.sections⟩
  obtain ⟨hinside,hcommands⟩:=parseCommand_inside hstart hcommand
  rw [← pure_eq_ok.mp h]
  refine ⟨?_,?_,⟨hinside.segments,hinside.sections⟩⟩
  · dsimp only
    rw [hcommands]
    exact hw.tiles.append rfl (by dsimp only;omega)
  · dsimp only
    rw [hcommands,length_append,hw.count]
    rfl

structure CommandArea (d : Bytes) (base : ℕ) (le is64 : Bool) (w : Walk) : Prop where
  tiles : Tiles base (headerSize is64) w.commands (headerSize is64 + rd0 d 20 le 4)
  fits : headerSize is64 + rd0 d 20 le 4 ≤ d.length
  count : w.commands.length = rd0 d 16 le 4
  inside : TablesInside d base w

variable {v : ℕ}

theorem rdOr_eq_ok {o:ℕ} {error:String} (h:rdOr d o le n error=.ok v) : rd0 d o le n=v:=by
  unfold rdOr at h
  unfold rd0
  cases hrd : rd d o le n with
  | none=>rw [hrd] at h;cases h
  | some x=>rw [hrd] at h;exact Except.ok.inj h

theorem thinWalk_area {w:Walk} (h:thinWalk d base le is64=.ok w) :
    CommandArea d base le is64 w:=by
  unfold thinWalk at h
  obtain ⟨_,h⟩:=rejectIf_bind.mp h
  obtain ⟨cpu,_,h⟩:=bind_eq_ok.mp h
  obtain ⟨sub,_,h⟩:=bind_eq_ok.mp h
  obtain ⟨filetype,_,h⟩:=bind_eq_ok.mp h
  obtain ⟨ncmds,hncmds,h⟩:=bind_eq_ok.mp h
  obtain ⟨cmdbytes,hcmdbytes,h⟩:=bind_eq_ok.mp h
  obtain ⟨flags,_,h⟩:=bind_eq_ok.mp h
  obtain ⟨_,h⟩:=rejectIf_bind.mp h
  obtain ⟨hfits,h⟩:=rejectIf_bind.mp h
  obtain ⟨w₁,hwalk,h⟩:=bind_eq_ok.mp h
  obtain ⟨hend,h⟩:=rejectIf_bind.mp h
  have hw : w₁=w:=pure_eq_ok.mp h
  subst hw
  have hrun : Walked d base (headerSize is64) (0+(List.range ncmds).length) w₁:=by
    refine foldlM_counts (P:=Walked d base (headerSize is64)) ?_ ?_ hwalk
    · exact fun n s hs _ _ t ht=>walkCommand_walked hs ht
    · exact ⟨rfl,rfl,⟨nofun,nofun⟩⟩
  have hend : w₁.p = headerSize is64 + cmdbytes:=by omega
  rw [length_range,Nat.zero_add] at hrun
  refine ⟨?_,?_,?_,hrun.inside⟩
  · rw [rdOr_eq_ok hcmdbytes,← hend]
    exact hrun.tiles
  · rw [rdOr_eq_ok hcmdbytes]
    omega
  · rw [rdOr_eq_ok hncmds]
    exact hrun.count

/-- The number that seven bits of each byte make, the lowest first. -/
def ulebValue : Bytes → ℕ
  | [] => 0
  | b::s => b.toNat % 128 + 128 * ulebValue s

def IsUleb (e : Bytes) : Prop :=
  ∃ front last, e=front++[last] ∧ last.toNat<128 ∧ ∀ x∈front, 128≤x.toNat

variable {s rest : Bytes}

theorem ulebFrom_spec {shift:ℕ} {v':ℕ} (h:ulebFrom n shift v s=some (v',rest))
    (hv:v<2^shift) :
    ∃e,IsUleb e ∧ s=e++rest ∧ v' = v + ulebValue e * 2^shift:=by
  induction n generalizing shift v s with
  | zero=>cases h
  | succ n ih=>
    cases s with
    | nil=>cases h
    | cons b s=>
      rw [ulebFrom] at h
      dsimp only at h
      split at h
      · cases h
      have hor : v ||| ((b &&& 0x7f).toNat <<< shift) = v + b.toNat % 128 * 2^shift:=by
        rw [low_bits,Nat.or_comm,← Nat.shiftLeft_add_eq_or_of_lt hv,Nat.shiftLeft_eq, Nat.add_comm]
      split at h
      case isTrue hlast=>
        obtain ⟨hvalue,hrest⟩:=Prod.mk.inj (some.inj h)
        have hlow : b.toNat<128:=(high_bit b).mp hlast
        refine ⟨[b],⟨[],b,rfl,hlow,nofun⟩,by rw [hrest];rfl,?_⟩
        rw [← hvalue,hor]
        rfl
      case isFalse hmore=>
        have hhigh : 128≤b.toNat:=Nat.le_of_not_lt fun hlt=>hmore ((high_bit b).mpr hlt)
        have hnext : v ||| ((b &&& 0x7f).toNat <<< shift)<2^(shift+7):=by
          rw [hor,Nat.pow_add]
          have hdigit : b.toNat % 128≤127:=by omega
          have hmul:=Nat.mul_le_mul_right (2^shift) hdigit
          omega
        obtain ⟨e,⟨front,last,he,hlast,hfront⟩,hs,hvalue⟩:=ih h hnext
        refine ⟨b::e,⟨b::front,last,by rw [he];rfl,hlast,?_⟩,by rw [hs];rfl,?_⟩
        · intro x hx
          cases mem_cons.mp hx with
          | inl hx=>exact hx▸hhigh
          | inr hx=>exact hfront x hx
        · rw [hvalue,hor,ulebValue,Nat.pow_add,Nat.add_mul,Nat.add_assoc]
          congr 2
          ring

theorem readUleb_spec (h:readUleb s=some (v,rest)) :
    ∃e,IsUleb e ∧ s=e++rest ∧ v=ulebValue e:=by
  obtain ⟨e,he,hs,hv⟩:=ulebFrom_spec h Nat.one_pos
  refine ⟨e,he,hs,?_⟩
  rw [hv]
  omega

def runningSums (a : ℕ) : List ℕ → List ℕ
  | [] => []
  | x::l => (a+x)::runningSums (a+x) l

theorem runningSums_gt {a:ℕ} {l:List ℕ} (h:∀x∈l,0<x) : ∀y∈runningSums a l,a<y:=by
  induction l generalizing a with
  | nil=>exact nofun
  | cons x l ih=>
    have hx : 0<x:=h x mem_cons_self
    intro y hy
    cases mem_cons.mp hy with
    | inl hy=>omega
    | inr hy=>
      have hgt:=ih (fun z hz=>h z (mem_cons_of_mem x hz)) y hy
      omega

theorem runningSums_increasing {a:ℕ} {l:List ℕ} (h:∀x∈l,0<x) :
    (runningSums a l).Pairwise (· < ·):=by
  induction l generalizing a with
  | nil=>exact List.Pairwise.nil
  | cons x l ih=>
    have hl : ∀z∈l,0<z:=fun z hz=>h z (mem_cons_of_mem x hz)
    exact List.Pairwise.cons (runningSums_gt hl) (ih hl)

/-- The address is in the file bytes of a segment, at the offset that is given. -/
def Backed (segs : List Seg) (base : ℕ) (f : MachOFunctionStart) : Prop :=
  ∃ s∈segs, s.vmaddr≤f.address ∧ f.address-s.vmaddr<s.filesize ∧
    f.fileOffset = base+s.fileoff+(f.address-s.vmaddr)

variable {segs : List Seg}

theorem mapFileVa_backed {va off:ℕ} (h:mapFileVa segs va base=some off) :
    Backed segs base {address:=va,fileOffset:=off}:=by
  unfold mapFileVa at h
  split at h
  case h_1=>cases h
  case h_2 s hs=>
    dsimp only at h
    split at h
    · cases h
    have hfound:=find?_some hs
    rw [Bool.and_eq_true,decide_eq_true_eq,decide_eq_true_eq] at hfound
    exact ⟨s,mem_of_find?_eq_some hs,hfound.1,hfound.2,(some.inj h).symm⟩

def Encodes (table : Bytes) (deltas : List ℕ) (rest : Bytes) : Prop :=
  ∃ (encs : List Bytes) (zero : Bytes), (∀ e∈encs, IsUleb e) ∧ IsUleb zero ∧
    ulebValue zero = 0 ∧ table=encs.flatten++zero++rest ∧ encs.map ulebValue = deltas

theorem startsFrom_spec {vmaddr fuel rel:ℕ} {l l':List MachOFunctionStart}
    (h:startsFrom segs base vmaddr fuel s rel l=.ok (l',rest)) :
    ∃(deltas:List ℕ) (new:List MachOFunctionStart),(∀x∈deltas,0<x) ∧
      Encodes s deltas rest ∧ l'=l++new ∧
      new.map MachOFunctionStart.address=runningSums (vmaddr+rel) deltas ∧
      ∀f∈new,Backed segs base f:=by
  induction fuel generalizing s rel l with
  | zero=>cases h
  | succ fuel ih=>
    rw [startsFrom] at h
    split at h
    · cases h
    split at h
    case h_1=>cases h
    case h_2 delta rest' huleb=>
      obtain ⟨e,he,hs,hvalue⟩:=readUleb_spec huleb
      split at h
      case isTrue hzero=>
        obtain ⟨hl,hrest⟩:=Prod.mk.inj (Except.ok.inj h)
        refine ⟨[],[],nofun,⟨[],e,nofun,he,hvalue▸hzero,?_,rfl⟩,?_,rfl,nofun⟩
        · rw [hs,hrest]
          rfl
        · rw [hl,append_nil]
      case isFalse hpos=>
        split at h
        · cases h
        split at h
        case h_1=>cases h
        case h_2 off hoff=>
          dsimp only at h
          split at h
          · cases h
          obtain ⟨deltas,new,hdeltas,⟨encs,zero,hencs,hzero,hz,htable,hmap⟩,hl,hsums,
            hbacked⟩:=ih h
          refine ⟨delta::deltas,
            {address:=vmaddr+(rel+delta),fileOffset:=off}::new,?_,
            ⟨e::encs,zero,?_,hzero,hz,?_,?_⟩,?_,?_,?_⟩
          · intro x hx
            cases mem_cons.mp hx with
            | inl hx=>omega
            | inr hx=>exact hdeltas x hx
          · intro x hx
            cases mem_cons.mp hx with
            | inl hx=>exact hx▸he
            | inr hx=>exact hencs x hx
          · rw [hs,htable,flatten_cons]
            simp only [append_assoc]
          · rw [map_cons,hmap,hvalue]
          · rw [hl,append_assoc]
            rfl
          · rw [map_cons,hsums,runningSums,Nat.add_assoc]
          · intro f hf
            cases mem_cons.mp hf with
            | inl hf=>exact hf▸mapFileVa_backed hoff
            | inr hf=>exact hbacked f hf

/-- What the function starts of an image are: none without a table, and otherwise the running
sums of what its table spells, from the text segment on. -/
def StartsSpelled (d : Bytes) (base : ℕ) (segs : List Seg) (c : Option LinkeditCmd)
    (starts : List MachOFunctionStart) : Prop :=
  match c with
  | none => starts=[]
  | some c => c.off+c.size≤d.length ∧ if c.size = 0 then starts = [] else
      ∃ text∈segs, text.name=bytes "__TEXT" ∧ ∃ deltas rest, (∀ x∈deltas, 0<x) ∧
        Encodes ((d.drop c.off).take c.size) deltas rest ∧ (∀ b∈rest, b=0) ∧
        starts.map MachOFunctionStart.address = runningSums text.vmaddr deltas ∧
        ∀ f∈starts, Backed segs base f

variable {c : Option LinkeditCmd} {starts : List MachOFunctionStart}

theorem parseFunctionStarts_spelled (h:parseFunctionStarts d segs base c=.ok starts) :
    StartsSpelled d base segs c starts:=by
  unfold parseFunctionStarts at h
  cases c with
  | none=>exact (pure_eq_ok.mp h).symm
  | some c=>
    dsimp only at h
    obtain ⟨hrange,h⟩:=rejectIf_bind.mp h
    refine ⟨by omega,?_⟩
    split at h
    case isTrue hsize=>
      rw [if_pos hsize]
      exact (pure_eq_ok.mp h).symm
    case isFalse hsize=>
      rw [if_neg hsize]
      split at h
      case h_1=>cases h
      case h_2 text htext=>
        obtain ⟨⟨l,rest⟩,hstarts,h⟩:=bind_eq_ok.mp h
        obtain ⟨hzeros,h⟩:=rejectIf_bind.mp h
        obtain ⟨deltas,new,hdeltas,hencodes,hl,hsums,hbacked⟩:=startsFrom_spec hstarts
        have hnew : new=starts:=hl.symm.trans (pure_eq_ok.mp h)
        subst hnew
        refine ⟨text,mem_of_find?_eq_some htext,?_,deltas,rest,hdeltas,hencodes,?_, hsums,hbacked⟩
        · simpa using find?_some htext
        · intro b hb
          by_contra hne
          exact hzeros ⟨b,hb,hne⟩

theorem StartsSpelled.named (h:StartsSpelled d base segs c starts) (symbols:List MachOSymbol) :
    StartsSpelled d base segs c (attachFunctionNames symbols starts):=by
  have haddress : (attachFunctionNames symbols starts).map MachOFunctionStart.address =
      starts.map MachOFunctionStart.address:=map_map
  have hnone : starts=[] → attachFunctionNames symbols starts=[]:=fun h=>by rw [h];rfl
  cases c with
  | none=>exact hnone h
  | some c=>
    obtain ⟨hrange,hrest⟩:=h
    refine ⟨hrange,?_⟩
    split
    case isTrue hsize=>
      rw [if_pos hsize] at hrest
      exact hnone hrest
    case isFalse hsize=>
      rw [if_neg hsize] at hrest
      obtain ⟨text,htext,hname,deltas,rest,hdeltas,hencodes,hzeros,hsums,hbacked⟩:=hrest
      refine ⟨text,htext,hname,deltas,rest,hdeltas,hencodes,hzeros, haddress.trans hsums,?_⟩
      intro f hf
      obtain ⟨f',hf',rfl⟩:=mem_map.mp hf
      exact hbacked f' hf'

/-- The symbol and the string table lie in the image. -/
def SymtabInside (d : Bytes) (is64 : Bool) (c : Option SymtabCmd) : Prop :=
  ∀ x, c = some x → x.symoff+x.nsyms*(if is64 then 16 else 12) ≤ d.length ∧
    x.stroff + x.strsize ≤ d.length

theorem parseSymtab_inside {c:Option SymtabCmd} {sections:List MachOSection}
    {symbols:List MachOSymbol} (h:parseSymtab d le is64 c sections=.ok symbols) :
    SymtabInside d is64 c:=by
  rintro x rfl
  unfold parseSymtab at h
  dsimp only at h
  obtain ⟨_,h⟩:=rejectIf_bind.mp h
  obtain ⟨hsymbols,h⟩:=rejectIf_bind.mp h
  obtain ⟨hstrings,h⟩:=rejectIf_bind.mp h
  exact ⟨by omega,by omega⟩

theorem StartsSpelled.increasing (h:StartsSpelled d base segs c starts) :
    (starts.map MachOFunctionStart.address).Pairwise (· < ·):=by
  have hnone : starts=[] → (starts.map MachOFunctionStart.address).Pairwise (· < ·):=
    fun h=>by rw [h];exact List.Pairwise.nil
  cases c with
  | none=>exact hnone h
  | some c=>
    obtain ⟨_,hrest⟩:=h
    split at hrest
    · exact hnone hrest
    · obtain ⟨text,_,_,deltas,rest,hdeltas,_,_,hsums,_⟩:=hrest
      rw [hsums]
      exact runningSums_increasing hdeltas

theorem withEntry_keeps {w:Walk} {out:MachOSlice} (h:withEntry base w=.ok out) :
    ∃va,out = {w.out with entryVa:=va}:=by
  unfold withEntry at h
  split at h
  · exact ⟨w.out.entryVa,(pure_eq_ok.mp h).symm⟩
  split at h
  case h_1=>cases h
  case h_2 va _=>
    split at h
    · cases h
    · exact ⟨va,(pure_eq_ok.mp h).symm⟩

structure ThinGeometry (d : Bytes) (base : ℕ) (le is64 : Bool) (w : Walk) (m : MachOSlice) :
    Prop where
  magic : thinMagic d = some (le,is64)
  area : CommandArea d base le is64 w
  sections : m.sections=w.out.sections
  symtab : SymtabInside d is64 w.symtab
  starts : StartsSpelled d base w.segs w.functionStarts m.functionStarts
  increasing : (m.functionStarts.map MachOFunctionStart.address).Pairwise (· < ·)

theorem parseThin_geometry {w:Walk} {m:MachOSlice} (h:parseThin d base=.ok (w,m)) :
    ∃le is64,ThinGeometry d base le is64 w m:=by
  unfold parseThin at h
  obtain ⟨_,h⟩:=rejectIf_bind.mp h
  split at h
  case h_1=>cases h
  case h_2 le is64 hmagic=>
    obtain ⟨w₁,hwalk,h⟩:=bind_eq_ok.mp h
    obtain ⟨out,hentry,h⟩:=bind_eq_ok.mp h
    obtain ⟨symbols,hsymbols,h⟩:=bind_eq_ok.mp h
    obtain ⟨starts,hstarts,h⟩:=bind_eq_ok.mp h
    obtain ⟨hw,hm⟩:=Prod.mk.inj (pure_eq_ok.mp h)
    subst hw hm
    obtain ⟨va,rfl⟩:=withEntry_keeps hentry
    have hspelled:=(parseFunctionStarts_spelled hstarts).named symbols
    exact ⟨le,is64,hmagic,thinWalk_area hwalk,rfl,parseSymtab_inside hsymbols,hspelled,
      hspelled.increasing⟩

theorem parseThin_size {w:Walk} {m:MachOSlice} (h:parseThin d base=.ok (w,m)) :
    28≤d.length:=by
  obtain ⟨le,is64,hthin⟩:=parseThin_geometry h
  have hfits:=hthin.area.fits
  cases is64
  · change 28 + _ ≤ _ at hfits
    omega
  · change 32 + _ ≤ _ at hfits
    omega

/-- Two slices without a common byte. -/
def Apart (x y : FatSlice) : Prop :=
  x.arch.offset + x.arch.size ≤ y.arch.offset ∨ y.arch.offset+y.arch.size≤x.arch.offset

def SameArchitecture (x y : FatSlice) : Prop :=
  x.arch.cpu = y.arch.cpu ∧ x.arch.subtype=y.arch.subtype

/-- A slice as its entry declares it. -/
structure SliceOk (d : Bytes) (tableEnd : ℕ) (x : FatSlice) : Prop where
  reserved : x.arch.reserved=0
  align : x.arch.align≤31
  aligned : x.arch.offset % 2^x.arch.align = 0
  start : tableEnd≤x.arch.offset
  size : 28≤x.arch.size
  inside : x.arch.offset+x.arch.size≤d.length
  thin : ∃ le is64, ThinGeometry ((d.drop x.arch.offset).take x.arch.size) x.arch.offset le is64
    x.walk x.slice

structure SlicesOk (d : Bytes) (le fat64 : Bool) (tableEnd n : ℕ) (l : List FatSlice) : Prop where
  entries : l.map FatSlice.arch =
    (List.range n).map fun i => readArch d le fat64 (8 + i * entrySize fat64)
  slices : ∀ x∈l, SliceOk d tableEnd x
  apart : l.Pairwise Apart
  distinct : l.Pairwise fun x y => ¬SameArchitecture x y

variable {fat64 : Bool} {tableEnd : ℕ} {l : List FatSlice}

theorem SlicesOk.length (h:SlicesOk d le fat64 tableEnd n l) : l.length=n:=by
  have hlen:=congrArg List.length h.entries
  rwa [length_map,length_map,length_range] at hlen

theorem fatSlice_ok {l':List FatSlice} (hl:SlicesOk d le fat64 tableEnd n l)
    (h:fatSlice d le fat64 tableEnd l n=.ok l') :
    SlicesOk d le fat64 tableEnd (n+1) l':=by
  unfold fatSlice at h
  obtain ⟨hreserved,h⟩:=rejectIf_bind.mp h
  obtain ⟨halign,h⟩:=rejectIf_bind.mp h
  obtain ⟨haligned,h⟩:=rejectIf_bind.mp h
  obtain ⟨hrange,h⟩:=rejectIf_bind.mp h
  obtain ⟨hapart,h⟩:=rejectIf_bind.mp h
  obtain ⟨hdistinct,h⟩:=rejectIf_bind.mp h
  obtain ⟨⟨walk,slice⟩,hthin,h⟩:=bind_eq_ok.mp h
  obtain ⟨_,h⟩:=rejectIf_bind.mp h
  obtain ⟨_,h⟩:=rejectIf_bind.mp h
  rw [← pure_eq_ok.mp h]
  generalize ha : readArch d le fat64 (8 + n * entrySize fat64) = a at *
  have hparsed : parseThin ((d.drop a.offset).take a.size) a.offset=.ok (walk,slice):=by
    cases hp : parseThin ((d.drop a.offset).take a.size) a.offset with
    | error e=>rw [hp] at hthin;cases hthin
    | ok x=>rw [hp] at hthin;exact congrArg Except.ok (Except.ok.inj hthin)
  have hsize : 28≤a.size:=by
    have hlen:=parseThin_size hparsed
    rw [length_take] at hlen
    omega
  refine ⟨?_,?_,?_,?_⟩
  · rw [map_append,hl.entries,range_succ,map_append,map_singleton,
      map_singleton,ha]
  · intro x hx
    cases mem_append.mp hx with
    | inl hx=>exact hl.slices x hx
    | inr hx=>
      rw [mem_singleton.mp hx]
      refine ⟨?_,?_,?_,?_,hsize,?_,parseThin_geometry hparsed⟩
      all_goals dsimp only
      all_goals omega
  · refine pairwise_append.mpr ⟨hl.apart,pairwise_singleton _ _,?_⟩
    intro x hx y hy
    rw [mem_singleton.mp hy]
    by_contra hover
    apply hapart
    refine ⟨x,hx,?_⟩
    unfold Apart at hover
    dsimp only at hover
    omega
  · refine pairwise_append.mpr ⟨hl.distinct,pairwise_singleton _ _,?_⟩
    intro x hx y hy
    rw [mem_singleton.mp hy]
    exact fun hsame=>hdistinct ⟨x,hx,hsame⟩

def tableEndOf (d : Bytes) (le fat64 : Bool) : ℕ := 8 + rd0 d 4 le 4 * entrySize fat64

structure FatGeometry (d : Bytes) (le fat64 : Bool) (l : List FatSlice) : Prop where
  count : 0 < rd0 d 4 le 4 ∧ rd0 d 4 le 4 ≤ 64
  table : tableEndOf d le fat64 ≤ d.length
  slices : SlicesOk d le fat64 (tableEndOf d le fat64) (rd0 d 4 le 4) l

theorem parseFat_geometry (h:parseFat d le fat64=.ok l) : FatGeometry d le fat64 l:=by
  unfold parseFat at h
  obtain ⟨_,h⟩:=rejectIf_bind.mp h
  obtain ⟨hcount,h⟩:=rejectIf_bind.mp h
  obtain ⟨htable,h⟩:=rejectIf_bind.mp h
  refine ⟨by omega,Nat.le_of_not_lt htable,?_⟩
  refine foldlM_range (P:=SlicesOk d le fat64 (tableEndOf d le fat64)) ?_ ?_ h
  · exact fun n _ s hs t ht=>fatSlice_ok hs ht
  · exact ⟨rfl,fun _ hx=>absurd hx not_mem_nil,List.Pairwise.nil,List.Pairwise.nil⟩

variable {pre : Bytes}

/-- A number that lies in a prefix is the same in the whole. -/
theorem rd0_start (hpre:pre <+: d) {o:ℕ} (h:o+n≤pre.length) :
    rd0 pre o le n=rd0 d o le n:=by
  have hlen:=hpre.length_le
  obtain ⟨rest,rfl⟩:=hpre
  have hdrop : (pre++rest).drop o = pre.drop o++rest:=drop_append_of_le_length (by omega)
  have htake : ((pre++rest).drop o).take n=(pre.drop o).take n:=by
    rw [hdrop]
    exact take_append_of_le_length (by rw [length_drop];omega)
  unfold rd0 rd
  rw [if_neg (by omega),if_neg (by omega),htake]

theorem readArch_prefix (hpre:pre <+: d) {p:ℕ} (h:p + entrySize fat64 ≤ pre.length) :
    readArch pre le fat64 p=readArch d le fat64 p:=by
  cases fat64 with
  | false=>
    have hp : p+20≤pre.length:=h
    simp only [readArch,Bool.false_eq_true,if_false]
    rw [rd0_start hpre (by omega),rd0_start hpre (by omega),rd0_start hpre (by omega),
      rd0_start hpre (by omega),rd0_start hpre (by omega)]
  | true=>
    have hp : p+32≤pre.length:=h
    simp only [readArch,if_true]
    rw [rd0_start hpre (by omega),rd0_start hpre (by omega),rd0_start hpre (by omega),
      rd0_start hpre (by omega),rd0_start hpre (by omega),rd0_start hpre (by omega)]

variable {i : ℕ}

theorem entry_fits (h:i<n) :
    8 + i * entrySize fat64 + entrySize fat64≤8 + n * entrySize fat64:=by
  have hmul : (i+1) * entrySize fat64 ≤ n * entrySize fat64:=Nat.mul_le_mul_right _ h
  rw [Nat.add_mul,Nat.one_mul] at hmul
  omega

theorem SlicesOk.get (h:SlicesOk d le fat64 tableEnd n l) (hi:i<n) :
    ∃hl : i<l.length,(l.get ⟨i,hl⟩).arch=readArch d le fat64 (8 + i * entrySize fat64):=by
  have hl : i<l.length:=h.length▸hi
  refine ⟨hl,?_⟩
  have hget : (l.map FatSlice.arch)[i]? =
      ((List.range n).map fun i=>readArch d le fat64 (8 + i * entrySize fat64))[i]? := by
    rw [h.entries]
  rw [getElem?_map,getElem?_map,getElem?_range hi, getElem?_eq_getElem hl] at hget
  exact some.inj hget

/-- What is checked of a slice on its own is known of an accepted one. -/
theorem archPasses_iff {x:FatSlice} {before:List FatArch} (hok:SliceOk d tableEnd x)
    (hbefore:∀a∈before,(a.offset+a.size≤x.arch.offset ∨
      x.arch.offset + x.arch.size ≤ a.offset) ∧ ¬(a.cpu=x.arch.cpu ∧ a.subtype=x.arch.subtype)) :
    archPasses d.length tableEnd fat64 before x.arch=true ↔ x.arch.cpu≠0:=by
  have halign:=hok.align
  have haligned:=hok.aligned
  have hstart:=hok.start
  have hsize:=hok.size
  have hinside:=hok.inside
  unfold archPasses
  by_cases hcpu : x.arch.cpu=0
  · simp [hcpu]
  · have hdone : ¬(x.arch.cpu=0 ∨ x.arch.align>31 ∨ (fat64=true ∧ x.arch.reserved≠0) ∨
        x.arch.offset<tableEnd ∨ x.arch.offset > d.length ∨ x.arch.size<28 ∨
        x.arch.size > d.length-x.arch.offset):=by
      rintro (h | h | h | h | h | h | h)
      · exact hcpu h
      · omega
      · exact h.2 hok.reserved
      · omega
      · omega
      · omega
      · omega
    rw [if_neg hdone,if_neg (by omega:¬x.arch.offset % 2^x.arch.align≠0)]
    refine ⟨fun _=>hcpu,fun _=>List.all_eq_true.mpr fun a ha=>?_⟩
    obtain ⟨hapart,hdistinct⟩:=hbefore a ha
    rw [Bool.not_eq_true',Bool.or_eq_false_iff,Bool.and_eq_false_iff,Bool.and_eq_false_iff,
      decide_eq_false_iff_not,decide_eq_false_iff_not,decide_eq_false_iff_not,
      decide_eq_false_iff_not]
    refine ⟨?_,by omega⟩
    by_cases hc : a.cpu=x.arch.cpu
    · exact Or.inr fun hs=>hdistinct ⟨hc,hs⟩
    · exact Or.inl hc

/-- An entry of an accepted table passes the check, if only it names a CPU. -/
theorem fatArchOk_iff (hpre:pre <+: d) (h:FatGeometry d le fat64 l)
    (hlen:tableEndOf d le fat64≤pre.length) (hi:i < rd0 d 4 le 4) :
    fatArchOk pre d.length (tableEndOf d le fat64) le fat64 i=true ↔
      (readArch d le fat64 (8 + i * entrySize fat64)).cpu≠0:=by
  have hsame : ∀j ≤ i,readArch pre le fat64 (8 + j * entrySize fat64) =
      readArch d le fat64 (8 + j * entrySize fat64):=by
    intro j hj
    have hfits:=@entry_fits _ fat64 _ (Nat.lt_of_le_of_lt hj hi)
    exact readArch_prefix hpre (by unfold tableEndOf at hlen;omega)
  obtain ⟨hil,hia⟩:=h.slices.get hi
  unfold fatArchOk
  dsimp only
  rw [hsame i (Nat.le_refl i),← hia]
  apply archPasses_iff (h.slices.slices _ (get_mem l ⟨i,hil⟩))
  intro a ha
  obtain ⟨j,hj,rfl⟩:=mem_map.mp ha
  have hji : j < i:=mem_range.mp hj
  obtain ⟨hjl,hja⟩:=h.slices.get (Nat.lt_trans hji hi)
  rw [hsame j (Nat.le_of_lt hji),← hja]
  exact ⟨pairwise_iff_getElem.mp h.slices.apart j i hjl hil hji,
    pairwise_iff_getElem.mp h.slices.distinct j i hjl hil hji⟩

/-- The check before, on a prefix with the whole table, accepts exactly the accepted tables that
name a CPU for each slice. -/
theorem fatMacho_iff (hpre:pre <+: d) (h:FatGeometry d le fat64 l)
    (hlen:tableEndOf d le fat64≤pre.length) :
    fatMacho pre d.length le fat64=true ↔ ∀x∈l,x.arch.cpu≠0:=by
  have hcount : read pre 4 4 le=rd0 d 4 le 4:=rd0_start hpre (by unfold tableEndOf at hlen;omega)
  have hrange:=h.count
  have hlen8 : 8≤pre.length:=by unfold tableEndOf at hlen;omega
  unfold fatMacho
  dsimp only
  rw [hcount,if_neg (by omega),if_neg (by omega),
    if_neg (by unfold tableEndOf at hlen;omega),List.all_eq_true]
  constructor
  · intro hall x hx
    obtain ⟨i,hi,rfl⟩:=getElem_of_mem hx
    have hin : i < rd0 d 4 le 4:=h.slices.length▸hi
    obtain ⟨hil,hia⟩:=h.slices.get hin
    have hcpu:=(fatArchOk_iff hpre h hlen hin).mp (hall i (mem_range.mpr hin))
    rw [← hia] at hcpu
    exact hcpu
  · intro hcpu i hi
    have hin : i < rd0 d 4 le 4:=mem_range.mp hi
    obtain ⟨hil,hia⟩:=h.slices.get hin
    apply (fatArchOk_iff hpre h hlen hin).mpr
    rw [← hia]
    exact hcpu _ (get_mem l ⟨i,hil⟩)

/-- What holds of an image by its kind. -/
def Geometry (d : Bytes) : MachOInfo → Prop
  | .thin w m => ∃ le is64, ThinGeometry d 0 le is64 w m
  | .fat le fat64 l => FatGeometry d le fat64 l ∧
      ∀ pre, pre <+: d → tableEndOf d le fat64 ≤ pre.length →
        (fatMacho pre d.length le fat64 = true ↔ ∀ x ∈ l, x.arch.cpu ≠ 0)

theorem macho_geometry (d : Bytes) (info : MachOInfo) (h : parseMacho d=.ok info) :
    Geometry d info := by
  unfold parseMacho at h
  obtain ⟨_,h⟩:=rejectIf_bind.mp h
  split at h
  case h_1=>
    obtain ⟨⟨w,m⟩,hthin,h⟩:=bind_eq_ok.mp h
    rw [← pure_eq_ok.mp h]
    exact parseThin_geometry hthin
  case h_2 fat64 le _=>
    obtain ⟨l,hfat,h⟩:=bind_eq_ok.mp h
    rw [← pure_eq_ok.mp h]
    have hgeometry:=parseFat_geometry hfat
    exact ⟨hgeometry,fun pre hpre hlen=>fatMacho_iff hpre hgeometry hlen⟩

def oneSlice (cpu : UInt8) : Bytes :=
  [0xca,0xfe,0xba,0xbe,0,0,0,1] ++
    [0,0,0,cpu,0,0,0,0,0,0,0,28,0,0,0,28,0,0,0,0] ++
    [0xfe,0xed,0xfa,0xce,0,0,0,cpu] ++ List.replicate 20 0

/-- The image of one slice, as the general result has it. -/
theorem oneSlice_geometry : ∃info, parseMacho (oneSlice 7)=.ok info ∧
    Geometry (oneSlice 7) info:=by
  have hparse : (parseMacho (oneSlice 7)).toOption.map (fun _=>()) = some ():=by
    decide +kernel
  obtain ⟨info,hinfo,-⟩:=exists_ok_of_map hparse
  exact ⟨info,hinfo,macho_geometry _ info hinfo⟩

/-- The parser accepts a slice for CPU zero, and the check before does not. -/
theorem zero_cpu_refused :
    ¬ ∀(d:Bytes) (le fat64:Bool) (l:List FatSlice), parseMacho d=.ok (.fat le fat64 l) →
      fatMacho d d.length le fat64=true:=by
  intro h
  have hparse : (parseMacho (oneSlice 0)).toOption.map (fun info=>match info with
      | .thin _ _=>none
      | .fat le fat64 _=>some (le,fat64)) = some (some (false,false)):=by decide +kernel
  obtain ⟨info,hinfo,hkind⟩:=exists_ok_of_map hparse
  cases info with
  | thin w m=>cases hkind
  | fat le fat64 l=>
    obtain ⟨hle,hfat⟩:=Prod.mk.inj (some.inj hkind)
    subst hle hfat
    have hcheck:=h _ _ _ _ hinfo
    have hrefused : fatMacho (oneSlice 0) (oneSlice 0).length false false=false:=by
      decide +kernel
    rw [hrefused] at hcheck
    cases hcheck

end AutoRefirst.MachO
