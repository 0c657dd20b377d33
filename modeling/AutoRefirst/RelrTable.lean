import AutoRefirst.ElfScan
import Mathlib.Data.List.TakeWhile
import Mathlib.Data.Nat.BitIndices

/-!
# Packed relative relocations

A `DT_RELR` table is a list of words: an address, or a bitmap of the 63 words behind the last one
that was covered.
-/

namespace AutoRefirst.Relr
open Elf List

structure Setting where
  data : Bytes
  littleEndian : Bool
  machine : ℕ
  segments : List ElfSegment
  /-- `sizeof(ElfRelocation)`. -/
  relocationSize : ℕ

structure Relocation where
  entryFileOffset : ℕ
  targetVa : ℕ
  type : ℕ
  typeName : String
  targetFileOffset : Option ℕ

structure Decoder where
  cursor : Option ℕ := none
  lastTarget : Option ℕ := none
  relocations : List Relocation := []
  memory : ℕ

def maxRelocs : ℕ := 4000000
def maxDynamicMemory : ℕ := 256*1024*1024
def maxU64 : ℕ := 2^64-1
def span : ℕ := 63*8

namespace Setting

variable (x : Setting)

def relativeType : ℕ := if x.machine = 62 then 8 else 1027

def relativeName : String :=
  if x.machine = 62 then "R_X86_64_RELATIVE"
  else if x.machine = 183 then "R_AARCH64_RELATIVE"
  else "R_1027"

def vaddrInLoadMemory (va : ℕ) : Bool :=
  x.segments.any fun s => s.type == 1 && s.address ≤ va && va-s.address < s.memorySize

/-- What a row is charged. -/
def rowMemory : ℕ := 2*x.relocationSize + "DT_RELR".length + x.relativeName.length

def emitRelr (entryOff : ℕ) (s : Decoder) (target : ℕ) : Except String Decoder :=
  if target % 8 ≠ 0 ∨ ¬x.vaddrInLoadMemory target then
    .error "DT_RELR target invalid or outside PT_LOAD memory"
  else if s.lastTarget.any (target ≤ ·) then
    .error "DT_RELR targets are not strictly increasing"
  else if s.relocations.length+1 > maxRelocs then
    .error "DT_RELR expanded relocation count out of bounds"
  else if x.rowMemory > maxDynamicMemory-s.memory then
    .error "dynamic metadata memory budget exceeded by DT_RELR expanded rows"
  else
    .ok { s with
      lastTarget:=some target,memory:=s.memory+x.rowMemory
      relocations:=s.relocations++[{
        entryFileOffset:=entryOff,targetVa:=target,type:=x.relativeType,typeName:=x.relativeName
        targetFileOffset:=(vaddrToFile x.data target x.segments).value }] }

def emitBits (entryOff cursor bitmap : ℕ) (s : Decoder) : List ℕ → Except String Decoder
  | [] => .ok s
  | bit::bits =>
    if bitmap.testBit bit then
      if cursor > maxU64-bit*8 then .error "DT_RELR bitmap target overflow"
      else
        match x.emitRelr entryOff s (cursor+bit*8) with
        | .error e => .error e
        | .ok s => emitBits entryOff cursor bitmap s bits
    else emitBits entryOff cursor bitmap s bits

def relrWord (s : Decoder) (entryOff word : ℕ) : Except String Decoder :=
  if word % 2 = 0 then
    if word % 8 ≠ 0 then .error "DT_RELR direct target is not pointer aligned"
    else if s.cursor.any (word < ·) then .error "DT_RELR direct target moves backwards"
    else
      match x.emitRelr entryOff s word with
      | .error e => .error e
      | .ok s =>
        if word > maxU64-8 then .error "DT_RELR direct target overflow"
        else .ok {s with cursor:=some (word+8)}
  else
    match s.cursor with
    | none => .error "DT_RELR bitmap appears before direct base"
    | some cursor =>
      match x.emitBits entryOff cursor (word/2) s (range 63) with
      | .error e => .error e
      | .ok s =>
        if cursor > maxU64-span then .error "DT_RELR bitmap cursor overflow"
        else .ok {s with cursor:=some (cursor+span)}

/-- The words of the table, with the offsets they stand at. -/
def relrWords (s : Decoder) : List (ℕ×ℕ) → Except String Decoder
  | [] => .ok s
  | (entryOff,word)::rest =>
    match x.relrWord s entryOff word with
    | .error e => .error e
    | .ok s => relrWords s rest

/-- The rows of a table, when so much memory is charged before. -/
def parseRelr (va size ent memory : ℕ) : Except String (List Relocation) :=
  if va = 0 ∧ size = 0 ∧ ent = 0 then .ok []
  else if va = 0 ∨ size = 0 ∨ ent ≠ 8 ∨ size % 8 ≠ 0 then .error "DT_RELR geometry invalid"
  else
    match (vaddrFileExtent x.data va x.segments).value with
    | none => .error "DT_RELR table not bounded by PT_LOAD file range"
    | some (off,extent) =>
      if size > extent then .error "DT_RELR table not bounded by PT_LOAD file range"
      else
        match x.relrWords { memory } ((range (size/8)).map fun i =>
          (off+i*8,numberAt x.data x.littleEndian (off+i*8) 8)) with
        | .error e => .error e
        | .ok s => .ok s.relocations

end Setting

def bitmapWord (base : ℕ) (targets : List ℕ) : ℕ :=
  2 * (targets.map fun t => 2^((t-base)/8)).sum + 1

/-- The words for a list of addresses, when the words below the cursor are covered. -/
def encodeFrom (cursor : Option ℕ) (targets : List ℕ) : List ℕ :=
  match cursor, targets with
  | none, [] => []
  | none, t::rest => t::encodeFrom (some (t+8)) rest
  | some base, targets =>
    if targets.takeWhile (· < base+span) = [] then encodeFrom none targets
    else bitmapWord base (targets.takeWhile (· < base+span)) ::
      encodeFrom (some (base+span)) (targets.dropWhile (· < base+span))
termination_by (targets.length,cursor.isSome.toNat)
decreasing_by
  · exact Prod.Lex.left _ _ (by simp)
  · exact Prod.Lex.right _ (by simp)
  · refine Prod.Lex.left _ _ ?_
    rename_i hne
    have hsplit := congrArg length (takeWhile_append_dropWhile (p := (· < base+span)) (l := targets))
    have hpos := length_pos_of_ne_nil hne
    rw [length_append] at hsplit
    omega

/-- The words of a table. -/
def encode (targets : List ℕ) : List ℕ := encodeFrom none targets

variable {x : Setting} {s : Decoder}

def Decoder.targets (s : Decoder) : List ℕ := s.relocations.map (·.targetVa)

/-- What is still to be decoded can follow what has been. -/
structure Ready (x : Setting) (s : Decoder) (l : List ℕ) : Prop where
  increasing : l.Pairwise (· < ·)
  aligned : ∀ t∈l, t % 8 = 0
  inside : ∀ t∈l, x.vaddrInLoadMemory t = true
  small : ∀ t∈l, t<2^63
  above : ∀ t∈l, ∀ c, s.lastTarget = some c → c<t
  covered : ∀ c, s.cursor = some c → c % 8 = 0 ∧ ∀ t∈l, c≤t
  count : s.relocations.length+l.length ≤ maxRelocs
  budget : s.memory+l.length*x.rowMemory ≤ maxDynamicMemory

theorem Ready.emitRelr {t:ℕ} {l:List ℕ} (h:Ready x s (t::l)) (entryOff:ℕ) :
    ∃s',x.emitRelr entryOff s t=.ok s' ∧ s'.cursor=s.cursor ∧
      s'.targets = s.targets++[t] ∧ Ready x s' l:=by
  have hcount:=h.count
  have hbudget:=h.budget
  rw [length_cons] at hcount hbudget
  rw [Nat.add_mul,Nat.one_mul] at hbudget
  have hlast : s.lastTarget.any (t ≤ ·)=false:=by
    cases hl : s.lastTarget with
    | none=>rfl
    | some c=>simpa using h.above t mem_cons_self c hl
  unfold Setting.emitRelr
  rw [if_neg (by simp [h.aligned t mem_cons_self,h.inside t mem_cons_self]),hlast,
    if_neg Bool.false_ne_true,if_neg (by omega),if_neg (by omega)]
  refine ⟨_,rfl,rfl,by simp [Decoder.targets],?_⟩
  have hincreasing:=pairwise_cons.mp h.increasing
  exact {
    increasing:=hincreasing.2,aligned:=(forall_mem_cons.mp h.aligned).2
    inside:=(forall_mem_cons.mp h.inside).2,small:=(forall_mem_cons.mp h.small).2
    above:=by
      rintro u hu c hc
      obtain rfl:=Option.some.inj hc
      exact hincreasing.1 u hu
    covered:=fun c hc=>⟨(h.covered c hc).1,fun u hu=>(h.covered c hc).2 u (mem_cons_of_mem _ hu)⟩
    count:=by rw [length_append];simp only [length_singleton];omega
    budget:=by dsimp only;omega }

theorem Ready.cover {c:ℕ} {l:List ℕ} (h:Ready x s l) (hc:c % 8=0) (hle:∀t∈l,c≤t) :
    Ready x {s with cursor:=some c} l:=
  { h with
    covered:=by
      rintro _ hcursor
      obtain rfl:=Option.some.inj hcursor
      exact ⟨hc,hle⟩ }

/-- The rows of a list of targets. -/
def Setting.emitAll (x : Setting) (entryOff : ℕ) (s : Decoder) : List ℕ → Except String Decoder
  | [] => .ok s
  | t::rest =>
    match x.emitRelr entryOff s t with
    | .error e => .error e
    | .ok s => emitAll x entryOff s rest

theorem Ready.emitAll {l later:List ℕ} (h:Ready x s (l++later)) (entryOff:ℕ) :
    ∃s',x.emitAll entryOff s l=.ok s' ∧ s'.cursor=s.cursor ∧
      s'.targets = s.targets++l ∧ Ready x s' later:=by
  induction l generalizing s with
  | nil=>exact ⟨s,rfl,rfl,(append_nil _).symm,h⟩
  | cons t l ih=>
    obtain ⟨s₁,hemit,hcursor,htargets,hready⟩:=Ready.emitRelr h entryOff
    obtain ⟨s₂,hrest,hcursor',htargets',hlater⟩:=ih hready
    refine ⟨s₂,?_,hcursor'.trans hcursor,?_,hlater⟩
    · rw [Setting.emitAll,hemit]
      exact hrest
    · rw [htargets',htargets,append_assoc]
      rfl

theorem emitBits_eq {entryOff cursor bitmap:ℕ} {bits:List ℕ}
    (h:∀b∈bits,cursor+b*8 ≤ maxU64) :
    x.emitBits entryOff cursor bitmap s bits =
      x.emitAll entryOff s ((bits.filter bitmap.testBit).map (cursor + · * 8)):=by
  induction bits generalizing s with
  | nil=>rfl
  | cons b bits ih=>
    have hb:=h b mem_cons_self
    have hrest : ∀ {s:Decoder},x.emitBits entryOff cursor bitmap s bits=_:=
      ih fun c hc=>h c (mem_cons_of_mem _ hc)
    rw [Setting.emitBits,filter_cons]
    by_cases hbit : bitmap.testBit b=true
    · rw [if_pos hbit,if_pos hbit,if_neg (by omega),map_cons,Setting.emitAll]
      cases x.emitRelr entryOff s (cursor+b*8) with
      | error e=>rfl
      | ok s'=>exact hrest
    · rw [if_neg hbit,if_neg hbit]
      exact hrest

theorem bits_bitmapWord {base:ℕ} {l:List ℕ} (hbase:base % 8=0) (hl:l.Pairwise (· < ·))
    (haligned:∀t∈l,t % 8=0) (hin:∀t∈l,base≤t ∧ t<base+span) :
    ((range 63).filter (bitmapWord base l / 2).testBit).map (base + · * 8)=l:=by
  have hback : ∀t∈l,base+(t-base)/8*8=t:=by
    intro t ht
    have:=haligned t ht
    have:=hin t ht
    omega
  have hsorted : (l.map fun t=>(t-base)/8).SortedLT:=by
    rw [sortedLT_iff_pairwise,pairwise_map]
    refine hl.imp_of_mem fun {a b} ha hb hab=>?_
    have:=hback a ha
    have:=hback b hb
    omega
  have hword : bitmapWord base l / 2 = ((l.map fun t=>(t-base)/8).map (2 ^ ·)).sum:=by
    rw [bitmapWord,map_map,Nat.mul_comm]
    have hcomp : ((2 ^ ·) ∘ fun t=>(t-base)/8) = fun t : ℕ=>2^((t-base)/8):=rfl
    rw [hcomp]
    omega
  have hbits : (range 63).filter (bitmapWord base l / 2).testBit = l.map fun t=>(t-base)/8:=by
    rw [← Nat.bitIndices_sum_map_two_pow hsorted,← hword]
    refine (pairwise_lt_range.filter _).eq_of_mem_iff Nat.bitIndices_sorted.pairwise fun i=>?_
    rw [mem_filter,Nat.mem_bitIndices,mem_range]
    refine ⟨fun h=>h.2,fun h=>⟨?_,h⟩⟩
    have hmem : i∈(bitmapWord base l / 2).bitIndices:=Nat.mem_bitIndices.mpr h
    rw [hword,Nat.bitIndices_sum_map_two_pow hsorted,mem_map] at hmem
    obtain ⟨t,ht,rfl⟩:=hmem
    have:=hin t ht
    unfold span at this
    omega
  rw [hbits,map_map]
  exact (map_congr_left hback).trans (map_id l)

theorem le_of_mem_dropWhile {n t:ℕ} {l:List ℕ} (hl:l.Pairwise (· < ·))
    (h:t∈l.dropWhile (· < n)) : n≤t:=by
  induction l with
  | nil=>simp at h
  | cons a l ih=>
    have hparts:=pairwise_cons.mp hl
    rw [dropWhile_cons] at h
    split at h
    · exact ih hparts.2 h
    · rename_i ha
      have hna : n≤a:=by simpa using ha
      rcases mem_cons.mp h with rfl | ht
      · exact hna
      · exact hna.trans (hparts.1 t ht).le

theorem relrWords_encodeFrom (cursor:Option ℕ) (l:List ℕ) {es:List (ℕ×ℕ)}
    (h:Ready x s l) (hcursor:cursor=none ∨ cursor=s.cursor)
    (hes:es.map Prod.snd=encodeFrom cursor l) :
    ∃s',x.relrWords s es=.ok s' ∧ s'.targets=s.targets++l:=by
  induction cursor, l using encodeFrom.induct generalizing s es with
  | case1=>
    rw [encodeFrom,map_eq_nil_iff] at hes
    exact ⟨s,by rw [hes];rfl,(append_nil _).symm⟩
  | case2 t rest ih=>
    rw [encodeFrom] at hes
    cases es with
    | nil=>simp at hes
    | cons e es=>
      obtain ⟨entryOff,word⟩:=e
      obtain ⟨rfl,hrest⟩ : word=t ∧ es.map Prod.snd=encodeFrom (some (t+8)) rest:=by
        simpa using hes
      obtain ⟨s₁,hemit,-,htargets,hready⟩:=h.emitRelr entryOff
      have haligned:=h.aligned word mem_cons_self
      have hsmall:=h.small word mem_cons_self
      have hback : s.cursor.any (word < ·)=false:=by
        cases hc : s.cursor with
        | none=>rfl
        | some c=>simpa using (h.covered c hc).2 word mem_cons_self
      have hnext : Ready x {s₁ with cursor:=some (word+8)} rest:=by
        refine hready.cover (by omega) fun u hu=>?_
        have:=(pairwise_cons.mp h.increasing).1 u hu
        have:=hready.aligned u hu
        omega
      obtain ⟨s₂,hrun,hall⟩:=ih hnext (.inr rfl) hrest
      refine ⟨s₂,?_,?_⟩
      · rw [Setting.relrWords,Setting.relrWord,if_pos (by omega),if_neg (by omega),hback,
          if_neg Bool.false_ne_true,hemit]
        simp only [if_neg (show ¬word > maxU64-8 by unfold maxU64;omega)]
        exact hrun
      · rw [hall]
        exact (congrArg (· ++ rest) htargets).trans (append_assoc _ _ _)
  | case3 base l hnone ih=>
    rw [encodeFrom,if_pos hnone] at hes
    exact ih h (.inl rfl) hes
  | case4 base l hsome ih=>
    rw [encodeFrom,if_neg hsome] at hes
    have hbase : s.cursor=some base:=(hcursor.resolve_left (by simp)).symm
    obtain ⟨haligned,hle⟩:=h.covered base hbase
    have hsplit:=takeWhile_append_dropWhile (p:=(· < base+span)) (l:=l)
    have hlater:=fun t=>le_of_mem_dropWhile (t:=t) (n:=base+span) h.increasing
    have hhere : ∀t∈l.takeWhile (· < base+span),base≤t ∧ t<base+span:=fun t ht=>
      ⟨hle t (( takeWhile_prefix _).subset ht),by simpa using mem_takeWhile_imp ht⟩
    generalize l.takeWhile (· < base+span) = here at hes hsome hsplit hhere
    generalize l.dropWhile (· < base+span) = later at hes hsplit hlater ih
    subst hsplit
    obtain ⟨t,ht⟩:=exists_mem_of_ne_nil here hsome
    have hsmall:=h.small t (mem_append_left _ ht)
    have hbelow:=(hhere t ht).1
    cases es with
    | nil=>simp at hes
    | cons e es=>
      obtain ⟨entryOff,word⟩:=e
      obtain ⟨rfl,hrest⟩ : word=bitmapWord base here ∧
          es.map Prod.snd=encodeFrom (some (base+span)) later:=by simpa using hes
      obtain ⟨s₁,hemit,-,htargets,hready⟩:=h.emitAll entryOff
      have hbits:=bits_bitmapWord haligned (pairwise_append.mp h.increasing).1
        (fun t ht=>h.aligned t (mem_append_left _ ht)) hhere
      have hword : x.emitBits entryOff base (bitmapWord base here / 2) s (range 63)=.ok s₁:=by
        rw [emitBits_eq,hbits,hemit]
        intro b hb
        have:=mem_range.mp hb
        unfold maxU64
        omega
      have hnext:=hready.cover (c:=base+span) (by unfold span;omega) hlater
      obtain ⟨s₂,hrun,hall⟩:=ih hnext (.inr rfl) hrest
      refine ⟨s₂,?_,?_⟩
      · have hodd : ¬bitmapWord base here % 2=0:=by
          unfold bitmapWord
          omega
        have hroom : ¬base > maxU64-span:=by
          unfold maxU64 span
          omega
        rw [Setting.relrWords,Setting.relrWord,if_neg hodd,hbase]
        simp only [hword,if_neg hroom]
        exact hrun
      · rw [hall]
        exact (congrArg (· ++ later) htargets).trans (append_assoc _ _ _)

/-- The targets so far stand in order, and every one of them is a word in loaded memory. -/
structure Sound (x : Setting) (s : Decoder) : Prop where
  increasing : s.targets.Pairwise (· < ·)
  good : ∀ t∈s.targets, t % 8 = 0 ∧ x.vaddrInLoadMemory t = true ∧ t<2^64
  last : ∀ t∈s.targets, ∃ c, s.lastTarget = some c ∧ t ≤ c

variable {s' : Decoder}

theorem Sound.emitRelr {entryOff t:ℕ} (h:Sound x s) (ht:t<2^64)
    (hemit:x.emitRelr entryOff s t=.ok s') : Sound x s':=by
  unfold Setting.emitRelr at hemit
  split_ifs at hemit with hbad hlast hcount hbudget
  obtain rfl:=Except.ok.inj hemit
  have hbelow : ∀u∈s.targets,u<t:=by
    intro u hu
    obtain ⟨c,hc,hle⟩:=h.last u hu
    rw [hc,Option.any_some,decide_eq_true_eq] at hlast
    omega
  have htargets : ∀(c:Option ℕ) m r,Decoder.targets
      {cursor:=c,lastTarget:=some t,memory:=m,relocations:=s.relocations++[r]} =
        s.targets++[r.targetVa]:=fun c m r=>by simp [Decoder.targets]
  simp only [not_or,not_not] at hbad
  constructor
  · rw [htargets,pairwise_append]
    exact ⟨h.increasing,pairwise_singleton _ _,fun u hu v hv=>by
      rw [mem_singleton.mp hv]
      exact hbelow u hu⟩
  · intro u hu
    rw [htargets] at hu
    rcases mem_append.mp hu with hold | hnew
    · exact h.good u hold
    · rw [mem_singleton.mp hnew]
      exact ⟨hbad.1,hbad.2,ht⟩
  · intro u hu
    rw [htargets] at hu
    refine ⟨t,rfl,?_⟩
    rcases mem_append.mp hu with hold | hnew
    · exact (hbelow u hold).le
    · exact (mem_singleton.mp hnew).le

theorem Sound.emitBits {entryOff cursor bitmap:ℕ} {bits:List ℕ} (h:Sound x s)
    (hbits:∀b∈bits,b<63)
    (hrun:x.emitBits entryOff cursor bitmap s bits=.ok s') : Sound x s':=by
  induction bits generalizing s with
  | nil=>
    obtain rfl:=Except.ok.inj hrun
    exact h
  | cons b bits ih=>
    rw [Setting.emitBits] at hrun
    split_ifs at hrun with hbit hroom
    · have hlt : cursor+b*8<2^64:=by
        have:=hbits b mem_cons_self
        unfold maxU64 at hroom
        omega
      cases hemit : x.emitRelr entryOff s (cursor+b*8) with
      | error e=>simp [hemit] at hrun
      | ok s₁=>
        simp only [hemit] at hrun
        exact ih (h.emitRelr hlt hemit) (fun c hc=>hbits c (mem_cons_of_mem _ hc)) hrun
    · exact ih h (fun c hc=>hbits c (mem_cons_of_mem _ hc)) hrun

theorem Sound.relrWord {entryOff word:ℕ} (h:Sound x s) (hword:word<2^64)
    (hrun:x.relrWord s entryOff word=.ok s') : Sound x s':=by
  have hcursor : ∀ {s:Decoder} {c:Option ℕ},Sound x s → Sound x {s with cursor:=c}:=
    fun h=>⟨h.increasing,h.good,h.last⟩
  unfold Setting.relrWord at hrun
  split at hrun
  · cases hemit : x.emitRelr entryOff s word with
    | error e=>
      rw [hemit] at hrun
      split_ifs at hrun
    | ok s₁=>
      rw [hemit] at hrun
      dsimp only at hrun
      split_ifs at hrun
      obtain rfl:=Except.ok.inj hrun
      exact hcursor (h.emitRelr hword hemit)
  · split at hrun
    · simp at hrun
    · rename_i cursor _
      cases hbits : x.emitBits entryOff cursor (word/2) s (range 63) with
      | error e=>simp [hbits] at hrun
      | ok s₁=>
        simp only [hbits] at hrun
        split_ifs at hrun
        obtain rfl:=Except.ok.inj hrun
        exact hcursor (h.emitBits (fun b hb=>mem_range.mp hb) hbits)

theorem Sound.relrWords {es:List (ℕ×ℕ)} (h:Sound x s) (hes:∀e∈es,e.2<2^64)
    (hrun:x.relrWords s es=.ok s') : Sound x s':=by
  induction es generalizing s with
  | nil=>
    obtain rfl:=Except.ok.inj hrun
    exact h
  | cons e es ih=>
    rw [Setting.relrWords] at hrun
    cases hstep : x.relrWord s e.1 e.2 with
    | error m=>simp [hstep] at hrun
    | ok s₁=>
      simp only [hstep] at hrun
      exact ih (h.relrWord (hes e mem_cons_self) hstep) (fun e he=>hes e (mem_cons_of_mem _ he)) hrun

/-- The addresses that a table can be made of, with the budgets that are left. -/
structure Encodable (x : Setting) (targets : List ℕ) (memory : ℕ) : Prop where
  increasing : targets.Pairwise (· < ·)
  aligned : ∀ t∈targets, t % 8 = 0
  inside : ∀ t∈targets, x.vaddrInLoadMemory t = true
  small : ∀ t∈targets, t<2^63
  count : targets.length ≤ maxRelocs
  budget : memory+targets.length*x.rowMemory ≤ maxDynamicMemory

def Stored (x : Setting) (words : List ℕ) (va : ℕ) : Prop :=
  va ≠ 0 ∧ ∃ off extent, (vaddrFileExtent x.data va x.segments).value=some (off,extent) ∧
    words.length * 8 ≤ extent ∧
    ∀ i w, words[i]? = some w → numberAt x.data x.littleEndian (off+i*8) 8=w

def Setting.parseTable (x : Setting) (words : List ℕ) (va memory : ℕ) :
    Except String (List Relocation) :=
  if words = [] then x.parseRelr 0 0 0 memory
  else x.parseRelr va (words.length*8) 8 memory

theorem parse_encode {targets:List ℕ} {memory va:ℕ} (h:Encodable x targets memory)
    (hstored:encode targets≠[] → Stored x (encode targets) va) :
    ∃rows,x.parseTable (encode targets) va memory=.ok rows ∧
      rows.map (·.targetVa)=targets:=by
  unfold Setting.parseTable
  by_cases hnone : encode targets=[]
  · rw [if_pos hnone]
    refine ⟨[],rfl,?_⟩
    cases targets with
    | nil=>rfl
    | cons t rest=>
      rw [encode,encodeFrom] at hnone
      exact absurd hnone (cons_ne_nil _ _)
  obtain ⟨hva,off,extent,hextent,hfits,hwords⟩:=hstored hnone
  have hlen:=length_pos_of_ne_nil hnone
  have hready : Ready x { memory } targets:=
    ⟨h.increasing,h.aligned,h.inside,h.small,fun t ht c hc=>by simp at hc,
      fun c hc=>by simp at hc,by simpa using h.count,h.budget⟩
  have hread : ((range (encode targets).length).map fun i=>
      (off+i*8,numberAt x.data x.littleEndian (off+i*8) 8)).map Prod.snd =
        encode targets:=by
    apply ext_getElem?
    intro i
    rcases Nat.lt_or_ge i (encode targets).length with hi | hi
    · simp [hi,hwords i _ (getElem?_eq_getElem hi)]
    · simp [hi]
  obtain ⟨s,hrun,htargets⟩:=relrWords_encodeFrom none targets hready (.inl rfl) hread
  rw [if_neg hnone,Setting.parseRelr,if_neg (by omega),if_neg (by omega),hextent]
  simp only [if_neg (show ¬(encode targets).length*8 > extent by omega),
    Nat.mul_div_cancel _ (show 0<8 by decide),hrun]
  exact ⟨_,rfl,htargets⟩

theorem numberAt_lt (d:Bytes) (le:Bool) (off:ℕ) : numberAt d le off 8<2^64:=by
  refine Nat.lt_of_lt_of_le (littleEndian_lt _) ?_
  refine (Nat.pow_le_pow_right (by decide) (?_ : _≤8)).trans (by decide)
  cases le <;> simp

theorem parse_sound {va size ent memory:ℕ} {rows:List Relocation}
    (h:x.parseRelr va size ent memory=.ok rows) :
    (rows.map (·.targetVa)).Pairwise (· < ·) ∧
      ∀r∈rows,r.targetVa % 8=0 ∧ x.vaddrInLoadMemory r.targetVa=true ∧
        r.targetVa<2^64:=by
  have hdone : ∀ {s:Decoder},Sound x s → s.targets.Pairwise (· < ·) ∧ ∀r∈s.relocations,
      r.targetVa % 8=0 ∧ x.vaddrInLoadMemory r.targetVa=true ∧ r.targetVa<2^64:=
    fun hs=>⟨hs.increasing,fun r hr=>hs.good _ (mem_map_of_mem hr)⟩
  have hstart : Sound x { memory }:=
    ⟨Pairwise.nil,fun t ht=>by simp [Decoder.targets] at ht,fun t ht=>by
      simp [Decoder.targets] at ht⟩
  unfold Setting.parseRelr at h
  split_ifs at h
  · obtain rfl:=Except.ok.inj h
    exact hdone (s:={ memory }) hstart
  split at h
  · simp at h
  rename_i off extent _
  split_ifs at h
  split at h
  · simp at h
  rename_i s hrun
  obtain rfl:=Except.ok.inj h
  refine hdone (hstart.relrWords (fun e he=>?_) hrun)
  obtain ⟨i,-,rfl⟩:=mem_map.mp he
  exact numberAt_lt _ _ _

/-- A list that is encoded comes back, and what any table decodes to is in order. -/
theorem relr_inverts {targets : List ℕ} {memory va : ℕ} (h : Encodable x targets memory)
    (hstored : encode targets≠[] → Stored x (encode targets) va) :
    (∃ rows, x.parseTable (encode targets) va memory=.ok rows ∧ rows.map (·.targetVa)=targets) ∧
      ∀ y : Setting, ∀ va size ent memory rows, y.parseRelr va size ent memory=.ok rows →
        (rows.map (·.targetVa)).Pairwise (· < ·) ∧
          ∀ r∈rows, r.targetVa % 8 = 0 ∧ y.vaddrInLoadMemory r.targetVa=true ∧
            r.targetVa < 2^64 :=
  ⟨parse_encode h hstored,fun _ _ _ _ _ _ hrun=>parse_sound hrun⟩

/-- A file of one segment that has a table of three words at its start. -/
def threeWords : Setting where
  data := [0x08,1,0,0,0,0,0,0]++[3,0,0,0,0,0,0,0x80]++[5,0,0,0,0,0,0,0]
  littleEndian := true
  machine := 62
  segments := [{type:=1,address:=0x100,fileSize:=24,memorySize:=0x1000}]
  relocationSize := 200

theorem encode_four : encode [0x108,0x110,0x300,0x310]=[0x108,2^63+3,5]:=by
  rw [encode,encodeFrom,encodeFrom,if_neg (by decide),encodeFrom,if_neg (by decide)]
  have hend : dropWhile (· < 0x108+8+span+span)
      (dropWhile (· < 0x108+8+span) [0x110,0x300,0x310])=[]:=by decide
  rw [hend,encodeFrom,if_pos (by decide),encodeFrom]
  decide

theorem relr_inverts_four :
    ∃rows, threeWords.parseTable (encode [0x108,0x110,0x300,0x310]) 0x100 0=.ok rows ∧
      rows.map (·.targetVa)=[0x108,0x110,0x300,0x310]:=by
  have hstored : Stored threeWords (encode [0x108,0x110,0x300,0x310]) 0x100:=by
    rw [encode_four]
    refine ⟨by decide,0,24,by decide,by decide,fun i w hi=>?_⟩
    have hlt : i<3:=(List.getElem?_eq_some_iff.mp hi).1
    obtain rfl | rfl | rfl : i=0 ∨ i=1 ∨ i=2:=by omega
    all_goals
      obtain rfl:=Option.some.inj hi
      decide
  exact (relr_inverts ⟨by decide,by decide,by decide,by decide,by decide,by decide⟩
    fun _=>hstored).1

end AutoRefirst.Relr
