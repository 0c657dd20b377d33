import AutoRefirst.MarshalSubstitution
import AutoRefirst.MarshalTruncation
import Mathlib.Data.Set.Card

/-!
# What mapping opcodes changes

A stream with its opcodes mapped differs from the original at the even offsets of the
bytecode of code objects, and each of these is mapped once. A permutation is undone by its
inverse.
-/

namespace AutoRefirst.PythonMarshal
open List

variable {ps : List ℕ}

theorem foldl_modify {α:Type} (f:α→α) (hps:ps.Nodup) (l:List α) (i:ℕ) :
    (ps.foldl (fun l p=>l.modify p f) l)[i]? = l[i]?.map fun x=>if i ∈ ps then f x else x:=by
  induction ps generalizing l with
  | nil=>simp
  | cons p ps ih=>
    obtain ⟨hp,hps⟩:=nodup_cons.mp hps
    rw [foldl_cons,ih hps,getElem?_modify]
    by_cases hi : p=i
    · subst hi
      simp [hp]
      rfl
    · have hi' : i≠p:=Ne.symm hi
      simp [hi,hi']

def Defined (map : OpcodeMap) (op : UInt8) : Prop := 0 ≤ map op ∧ map op ≤ 255

instance (map : OpcodeMap) (op : UInt8) : Decidable (Defined map op) := by
  unfold Defined
  infer_instance

def mapped (map : OpcodeMap) (op : UInt8) : UInt8 :=
  if Defined map op then (map op).toNat.toUInt8 else op

theorem not_defined_iff {map:OpcodeMap} {op:UInt8} :
    ¬Defined map op ↔ map op<0 ∨ map op>255:=by
  unfold Defined
  omega

variable {off : ℕ}

theorem modify_eq_set {b:Bytes} (h:off<b.length) (f:UInt8→UInt8) :
    b.modify off f=b.set off (f (b.getD off 0)):=by
  apply ext_getElem?
  intro i
  rw [getElem?_modify,getElem?_set]
  by_cases hi : off=i
  · subst hi
    rw [if_pos rfl,if_pos h,getD_eq_getElem?_getD,getElem?_eq_getElem h]
    simp
  · rw [if_neg hi]
    simp [hi]

theorem modify_self {b:Bytes} {f:UInt8→UInt8} (h:off<b.length)
    (hf:f (b.getD off 0)=b.getD off 0) : b.modify off f=b:=by
  rw [modify_eq_set h,hf,getD_eq_getElem?_getD,getElem?_eq_getElem h]
  exact set_getElem_self h

theorem rewriteUnit_bytes (map:OpcodeMap) {out:OpcodeRewrite} (h:off<out.bytes.length) :
    (rewriteUnit map out off).bytes=out.bytes.modify off (mapped map):=by
  unfold rewriteUnit
  dsimp only
  split_ifs with hundefined hchange
  · have hid : mapped map (out.bytes.getD off 0)=out.bytes.getD off 0:=
      if_neg (not_defined_iff.mpr hundefined)
    exact (modify_self h hid).symm
  · have hdefined : Defined map (out.bytes.getD off 0):=by
      by_contra hnot
      exact hundefined (not_defined_iff.mp hnot)
    rw [modify_eq_set h,mapped,if_pos hdefined]
  · have hid : mapped map (out.bytes.getD off 0)=out.bytes.getD off 0:=by
      unfold mapped
      split_ifs with hdefined
      · rw [not_not.mp hchange,Int.toNat_natCast]
        exact UInt8.ofNat_toNat
      · rfl
    exact (modify_self h hid).symm

theorem rewriteUnit_unmapped (map:OpcodeMap) (out:OpcodeRewrite) (off:ℕ) :
    (rewriteUnit map out off).unmappedOpcodes = out.unmappedOpcodes ++
      if Defined map (out.bytes.getD off 0) then [] else [(out.bytes.getD off 0).toNat]:=by
  by_cases hdefined : Defined map (out.bytes.getD off 0)
  · have hnot:=fun h=>not_defined_iff.mpr h hdefined
    unfold rewriteUnit
    dsimp only
    rw [if_neg hnot,if_pos hdefined,append_nil]
    split_ifs
    · rfl
    · rfl
  · unfold rewriteUnit
    dsimp only
    rw [if_pos (not_defined_iff.mp hdefined),if_neg hdefined]

theorem rewriteUnit_counts (map:OpcodeMap) (out:OpcodeRewrite) (off:ℕ) :
    (rewriteUnit map out off).codeUnits = out.codeUnits+1 ∧
      (rewriteUnit map out off).valid=out.valid:=by
  unfold rewriteUnit
  dsimp only
  split_ifs
  · exact ⟨rfl,rfl⟩
  · exact ⟨rfl,rfl⟩
  · exact ⟨rfl,rfl⟩

theorem units_counts (map:OpcodeMap) (ps:List ℕ) (out:OpcodeRewrite) :
    (ps.foldl (rewriteUnit map) out).codeUnits = out.codeUnits+ps.length ∧
      (ps.foldl (rewriteUnit map) out).valid=out.valid:=by
  induction ps generalizing out with
  | nil=>exact ⟨rfl,rfl⟩
  | cons p ps ih=>
    obtain ⟨hunits,hvalid⟩:=ih (rewriteUnit map out p)
    obtain ⟨hunits',hvalid'⟩:=rewriteUnit_counts map out p
    rw [foldl_cons,hunits,hvalid,hunits',hvalid',length_cons]
    exact ⟨by omega,rfl⟩

theorem units_bytes (map:OpcodeMap) {out:OpcodeRewrite} (h:∀p∈ps,p<out.bytes.length) :
    (ps.foldl (rewriteUnit map) out).bytes =
      ps.foldl (fun b p=>b.modify p (mapped map)) out.bytes:=by
  induction ps generalizing out with
  | nil=>rfl
  | cons p ps ih=>
    have hp:=rewriteUnit_bytes map (h p (mem_cons_self ..))
    rw [foldl_cons,foldl_cons,← hp]
    apply ih
    intro q hq
    rw [hp,length_modify]
    exact h q (mem_cons_of_mem _ hq)

theorem units_unmapped (map:OpcodeMap) {out:OpcodeRewrite} (hps:ps.Nodup)
    (h:∀p∈ps,p<out.bytes.length) :
    (ps.foldl (rewriteUnit map) out).unmappedOpcodes=[] ↔
      out.unmappedOpcodes=[] ∧ ∀p∈ps,Defined map (out.bytes.getD p 0):=by
  induction ps generalizing out with
  | nil=>simp
  | cons p ps ih=>
    obtain ⟨hp,hps⟩:=nodup_cons.mp hps
    have hbytes:=rewriteUnit_bytes map (h p (mem_cons_self ..))
    have hsame : ∀q∈ps,(rewriteUnit map out p).bytes.getD q 0=out.bytes.getD q 0:=by
      intro q hq
      have hne : p≠q:=by
        rintro rfl
        exact hp hq
      rw [hbytes,getD_eq_getElem?_getD,getElem?_modify,getD_eq_getElem?_getD]
      simp [hne]
    have hin : ∀q∈ps,q<(rewriteUnit map out p).bytes.length:=by
      intro q hq
      rw [hbytes,length_modify]
      exact h q (mem_cons_of_mem _ hq)
    rw [foldl_cons,ih hps hin,rewriteUnit_unmapped,append_eq_nil_iff,forall_mem_cons]
    constructor
    · rintro ⟨⟨hold,hnew⟩,hrest⟩
      refine ⟨hold,?_,fun q hq=>?_⟩
      · by_contra hnot
        rw [if_neg hnot] at hnew
        simp at hnew
      · rw [← hsame q hq]
        exact hrest q hq
    · rintro ⟨hold,hnew,hrest⟩
      refine ⟨⟨hold,if_pos hnew⟩,fun q hq=>?_⟩
      rw [hsame q hq]
      exact hrest q hq

def Sound (d : Bytes) (x : CodeRange) : Prop :=
  x.size % 2 ≠ 1 ∧ x.offset≤d.length ∧ x.size≤d.length-x.offset

variable {out' : OpcodeRewrite}

theorem rewriteRange_ok {d:Bytes} {map:OpcodeMap} {out:OpcodeRewrite} {x:CodeRange} :
    rewriteRange d map out x=.ok out' ↔
      Sound d x ∧ out'=(units x).foldl (rewriteUnit map) out:=by
  unfold rewriteRange Sound
  split_ifs with hodd hrange
  · constructor
    · intro h
      simp at h
    · rintro ⟨⟨h,-⟩,-⟩
      exact absurd hodd h
  · constructor
    · intro h
      simp at h
    · rintro ⟨⟨-,hoff,hsize⟩,-⟩
      omega
  · rw [Except.ok.injEq]
    constructor
    · rintro rfl
      exact ⟨⟨hodd,by omega,by omega⟩,rfl⟩
    · rintro ⟨-,rfl⟩
      rfl

theorem rewriteRanges_ok {d:Bytes} {map:OpcodeMap} {xs:List CodeRange} {out:OpcodeRewrite} :
    rewriteRanges d map xs out=.ok out' ↔
      (∀x∈xs,Sound d x) ∧ out'=(xs.flatMap units).foldl (rewriteUnit map) out:=by
  induction xs generalizing out with
  | nil=>
    rw [rewriteRanges,Except.ok.injEq]
    simp [eq_comm]
  | cons x xs ih=>
    rw [rewriteRanges,forall_mem_cons,flatMap_cons,foldl_append]
    constructor
    · intro h
      rcases hx : rewriteRange d map out x with e | out₁
      · rw [hx] at h
        exact absurd h (by simp [bind,Except.bind])
      · rw [hx] at h
        obtain ⟨hsound,rfl⟩:=rewriteRange_ok.mp hx
        obtain ⟨hrest,rfl⟩:=ih.mp h
        exact ⟨⟨hsound,hrest⟩,rfl⟩
    · rintro ⟨⟨hsound,hrest⟩,rfl⟩
      rw [rewriteRange_ok.mpr ⟨hsound,rfl⟩]
      exact ih.mpr ⟨hrest,rfl⟩

theorem rewriteRanges_error {d:Bytes} {map:OpcodeMap} {xs:List CodeRange}
    {out:OpcodeRewrite} (h:rewriteRanges d map xs out=.error out') :
    out'.bytes=[] ∧ out'.valid=out.valid:=by
  induction xs generalizing out with
  | nil=>exact absurd h (by simp [rewriteRanges])
  | cons x xs ih=>
    rw [rewriteRanges] at h
    rcases hx : rewriteRange d map out x with e | out₁
    · rw [hx] at h
      have he : e=out':=Except.error.inj h
      subst he
      unfold rewriteRange at hx
      split_ifs at hx
      · rw [← Except.error.inj hx]
        exact ⟨rfl,rfl⟩
      · rw [← Except.error.inj hx]
        exact ⟨rfl,rfl⟩
    · rw [hx] at h
      obtain ⟨-,rfl⟩:=rewriteRange_ok.mp hx
      obtain ⟨hbytes,hvalid⟩:=ih h
      exact ⟨hbytes,hvalid.trans (units_counts map (units x) out).2⟩

/-- An even offset in the bytecode of a code object of the stream. -/
def IsOpcode (d : Bytes) (version : ℤ) (i : ℕ) : Prop :=
  ∃ b, IsBytecode (parseRoot .source d (minorFromVersion version)).2.heap b ∧
    ∃ j, 2*j<b.blob.length ∧ i=b.blobOffset+2*j

/-- Only opcodes are changed, and each of them is mapped once. -/
structure RewritesOpcodes (d : Bytes) (version : ℤ) (map : OpcodeMap) (out : OpcodeRewrite) : Prop where
  payload : ∀ b, IsBytecode (parseRoot .source d (minorFromVersion version)).2.heap b →
    b.blob.length % 2 = 0 ∧ b.blob = (d.drop b.blobOffset).take b.blob.length
  length : out.bytes.length=d.length
  opcode : ∀ i, IsOpcode d version i → ∃ op, d[i]? = some op ∧ 0 ≤ map op ∧ map op ≤ 255 ∧
    out.bytes[i]? = some (map op).toNat.toUInt8
  other : ∀ i, ¬IsOpcode d version i → out.bytes[i]? = d[i]?
  once : out.codeUnits = {i | IsOpcode d version i}.ncard

section
variable {d : Bytes} {version : ℤ} {root : ℕ} {r : Reader} {i : ℕ}

theorem mem_units {x:CodeRange} {b:Node} (hof:x.Of b) (heven:x.size % 2≠1) :
    i∈units x ↔ ∃j,2*j<b.blob.length ∧ i=b.blobOffset+2*j:=by
  obtain ⟨hoff,hsize⟩:=hof
  unfold units
  rw [mem_map]
  constructor
  · rintro ⟨j,hj,rfl⟩
    exact ⟨j,by rw [mem_range] at hj;omega,by rw [hoff]⟩
  · rintro ⟨j,hj,rfl⟩
    exact ⟨j,by rw [mem_range];omega,by rw [hoff]⟩

theorem nodup_units (x:CodeRange) : (units x).Nodup:=by
  apply List.Nodup.map_on
  · intro i _ j _ h
    omega
  · exact nodup_range

variable (hparse : parseRoot .source d (minorFromVersion version) = (some root,r))
include hparse

theorem mem_flatMap_units (heven:∀x∈r.out.codeRanges,x.size % 2≠1) :
    i∈r.out.codeRanges.flatMap units ↔ IsOpcode d version i:=by
  have hpay:=payloads_parseRoot hparse
  unfold IsOpcode
  rw [hparse,mem_flatMap]
  constructor
  · rintro ⟨x,hx,hi⟩
    obtain ⟨b,hb,hof⟩:=hpay.sound x hx
    exact ⟨b,hb,(mem_units hof (heven x hx)).mp hi⟩
  · rintro ⟨b,hb,hi⟩
    obtain ⟨x,hx,hof⟩:=hpay.complete b hb
    exact ⟨x,hx,(mem_units hof (heven x hx)).mpr hi⟩

theorem covered_of_isOpcode (h:IsOpcode d version i) : Covered r.heap i:=by
  unfold IsOpcode at h
  rw [hparse] at h
  obtain ⟨b,⟨cid,n,hn,c,id,hk,hc,hid,hb,hbytes⟩,j,hj,rfl⟩:=h
  exact ⟨id,b,hb,hbytes,Nat.le_add_right _ _,by omega⟩

/-- Payloads are recorded once and do not meet. -/
theorem nodup_flatMap_units (heven:∀x∈r.out.codeRanges,x.size % 2≠1) :
    (r.out.codeRanges.flatMap units).Nodup:=by
  have hpay:=payloads_parseRoot hparse
  refine nodup_flatMap.mpr ⟨fun x _=>nodup_units x,?_⟩
  refine hpay.once.imp_of_mem ?_
  intro x y hx hy hne i hi hi'
  obtain ⟨b,⟨cid,n,hn,c,id,hk,hc,hid,hb,hbytes⟩,hof⟩:=hpay.sound x hx
  obtain ⟨b',⟨cid',n',hn',c',id',hk',hc',hid',hb',hbytes'⟩,hof'⟩:=hpay.sound y hy
  obtain ⟨j,hj,rfl⟩:=(mem_units hof (heven x hx)).mp hi
  obtain ⟨j',hj',heq⟩:=(mem_units hof' (heven y hy)).mp hi'
  have hsame : id=id':=hpay.apart (b.blobOffset+2*j) id id' b b' hb hb'
    ⟨hbytes,Nat.le_add_right _ _,by omega⟩ ⟨hbytes',by omega,by omega⟩
  rw [hsame] at hb
  have hnode : b=b':=Option.some.inj (hb.symm.trans hb')
  rw [hnode] at hof
  exact hne ⟨hof.1.trans hof'.1.symm,hof.2.trans hof'.2.symm⟩

omit hparse in
theorem units_lt (hsound:∀x∈r.out.codeRanges,Sound d x) (p:ℕ)
    (hp:p∈r.out.codeRanges.flatMap units) : p<d.length:=by
  obtain ⟨x,hx,hpx⟩:=mem_flatMap.mp hp
  obtain ⟨j,hj,rfl⟩:=mem_map.mp hpx
  obtain ⟨hodd,hoff,hsize⟩:=hsound x hx
  rw [mem_range] at hj
  omega

theorem rewritten_getElem? (map:OpcodeMap) (hsound:∀x∈r.out.codeRanges,Sound d x)
    {out:OpcodeRewrite} (hd:out.bytes=d) (i:ℕ) :
    ((r.out.codeRanges.flatMap units).foldl (rewriteUnit map) out).bytes[i]? =
      d[i]?.map fun op=>if i ∈ r.out.codeRanges.flatMap units then mapped map op else op:=by
  have hlt : ∀p∈r.out.codeRanges.flatMap units,p<out.bytes.length:=by
    rw [hd]
    exact units_lt hsound
  rw [units_bytes map hlt,foldl_modify _ (nodup_flatMap_units hparse fun x hx=>(hsound x hx).1),hd]

end

def firstRewrite (d : Bytes) (version : ℤ) (layout : Semantic) : OpcodeRewrite :=
  {pythonMinor:=minorFromVersion version,codeObjectCount:=layout.codeObjectCount,bytes:=d}

/-- The payloads of a valid stream are mapped, and the result is a valid stream again. -/
structure Remapping (sha : Bytes→Bytes) (fuel : ℕ) (d : Bytes) (version : ℤ) (map : OpcodeMap)
    (layout verify : Semantic) (out : OpcodeRewrite) : Prop where
  parsed : semanticHash sha fuel d version = some layout
  valid : layout.valid=true
  rewritten : rewriteRanges d map layout.codeRanges (firstRewrite d version layout) = .ok out
  complete : out.unmappedOpcodes=[]
  reparsed : semanticHash sha fuel out.bytes version = some verify
  verified : verify.valid=true
  codes : verify.codeObjectCount=layout.codeObjectCount
  ranges : verify.codeRanges.length=layout.codeRanges.length

section
variable {sha : Bytes→Bytes} {fuel : ℕ} {d : Bytes} {version : ℤ} {map : OpcodeMap}
  {layout verify : Semantic} {out : OpcodeRewrite}

theorem Remapping.remap (h:Remapping sha fuel d version map layout verify out) :
    remapOpcodes sha fuel d version map =
      some {out with changed:=out.rewrittenCodeUnits≠0,valid:=true}:=by
  have hrewritten:=h.rewritten
  unfold firstRewrite at hrewritten
  unfold remapOpcodes
  simp only [h.parsed,Option.bind_eq_bind,Option.bind_some,h.valid,not_true_eq_false,if_false,
    hrewritten,h.complete,ne_eq,h.reparsed,h.verified,h.codes,h.ranges,or_self]
  rfl

theorem remap_cases (h:remapOpcodes sha fuel d version map=some out) :
    (out.valid=false ∧ out.bytes=[]) ∨
      ∃layout verify out₁,Remapping sha fuel d version map layout verify out₁ ∧
        out = {out₁ with changed:=out₁.rewrittenCodeUnits≠0,valid:=true}:=by
  unfold remapOpcodes at h
  obtain ⟨layout,hlayout,h₁⟩:=Option.bind_eq_some_iff.mp h
  by_cases hvalid : layout.valid=true
  swap
  · left
    rw [if_pos hvalid] at h₁
    rw [← Option.some.inj h₁]
    exact ⟨rfl,rfl⟩
  rw [if_neg (not_not.mpr hvalid)] at h₁
  dsimp only at h₁
  split at h₁
  · next out' hrewrite=>
    left
    obtain ⟨hbytes,hfalse⟩:=rewriteRanges_error hrewrite
    rw [← Option.some.inj h₁]
    exact ⟨hfalse,hbytes⟩
  · next out' hrewrite=>
    have hfalse : out'.valid=false:=by
      obtain ⟨-,hout⟩:=rewriteRanges_ok.mp hrewrite
      rw [hout,(units_counts map _ _).2]
    by_cases hunmapped : out'.unmappedOpcodes=[]
    swap
    · left
      rw [if_pos hunmapped] at h₁
      rw [← Option.some.inj h₁]
      exact ⟨hfalse,rfl⟩
    rw [if_neg (not_not.mpr hunmapped)] at h₁
    obtain ⟨verify,hverify,h₂⟩:=Option.bind_eq_some_iff.mp h₁
    split_ifs at h₂ with hstructure
    · left
      rw [← Option.some.inj h₂]
      exact ⟨hfalse,rfl⟩
    · right
      rw [not_or,not_or,not_not,not_not,not_not] at hstructure
      obtain ⟨hverified,hcodes,hranges⟩:=hstructure
      exact ⟨layout,verify,out',⟨hlayout,hvalid,hrewrite,hunmapped,hverify,hverified,hcodes,
        hranges⟩,(Option.some.inj h₂).symm⟩

theorem Remapping.bytes {root:ℕ} {r:Reader} (h:Remapping sha fuel d version map layout verify out)
    (hparse:parseRoot .source d (minorFromVersion version)=(some root,r))
    (hranges:layout.codeRanges=r.out.codeRanges) (i:ℕ) :
    (∀x∈r.out.codeRanges,Sound d x) ∧ out.bytes[i]? = d[i]?.map fun op=>
        if i ∈ r.out.codeRanges.flatMap units then mapped map op else op:=by
  obtain ⟨hsound,hout⟩:=rewriteRanges_ok.mp h.rewritten
  rw [hranges] at hsound hout
  refine ⟨hsound,?_⟩
  have hd : (firstRewrite d version layout).bytes=d:=rfl
  rw [hout]
  exact rewritten_getElem? hparse map hsound hd i

theorem Remapping.parse (h:Remapping sha fuel d version map layout verify out) :
    ∃root r,readCode d version=.ok (root,r) ∧ layout.codeRanges=r.out.codeRanges ∧
      layout.codeObjectCount=r.out.codeObjectCount:=by
  obtain ⟨root,r,c,hcode,-,rfl⟩:=semanticHash_valid h.parsed h.valid
  exact ⟨root,r,hcode,rfl,rfl⟩

theorem Remapping.length (h:Remapping sha fuel d version map layout verify out) :
    out.bytes.length=d.length:=by
  obtain ⟨root,r,hcode,hranges,-⟩:=h.parse
  have hparse:=(readCode_ok hcode).1
  have hnone : ∀i : ℕ,out.bytes[i]? = none ↔ d[i]? = none:=by
    intro i
    rw [(h.bytes hparse hranges i).2,Option.map_eq_none_iff]
  apply Nat.le_antisymm
  · rw [← getElem?_eq_none_iff,hnone,getElem?_eq_none_iff]
  · rw [← getElem?_eq_none_iff,← hnone,getElem?_eq_none_iff]

/-- The opcodes of the stream and no other bytes are mapped. -/
theorem Remapping.rewrites (h:Remapping sha fuel d version map layout verify out) :
    RewritesOpcodes d version map out:=by
  obtain ⟨root,r,hcode,hranges,-⟩:=h.parse
  have hparse:=(readCode_ok hcode).1
  obtain ⟨hsound,hout⟩:=rewriteRanges_ok.mp h.rewritten
  rw [hranges] at hsound hout
  have heven : ∀x∈r.out.codeRanges,x.size % 2≠1:=fun x hx=>(hsound x hx).1
  have hmem:=fun i=>mem_flatMap_units hparse heven (i:=i)
  have hnodup:=nodup_flatMap_units hparse heven
  have hdefined:=(units_unmapped map hnodup (units_lt hsound)).mp (hout▸h.complete)
  constructor
  case payload=>
    intro b hb
    rw [hparse] at hb
    obtain ⟨x,hx,hof⟩:=(payloads_parseRoot hparse).complete b hb
    obtain ⟨cid,n,hn,c,id,hk,hc,hid,hget,hbytes⟩:=hb
    have hodd:=heven x hx
    rw [hof.2] at hodd
    exact ⟨by omega,blob_window hparse hget hbytes⟩
  case length=>exact h.length
  case opcode=>
    intro i hi
    have hunit:=(hmem i).mpr hi
    have hlt:=units_lt hsound i hunit
    have hop : d.getD i 0=d[i]:=by
      rw [getD_eq_getElem?_getD,getElem?_eq_getElem hlt,Option.getD_some]
    have hentry : Defined map d[i]:=by
      rw [← hop]
      exact hdefined.2 i hunit
    refine ⟨d[i],getElem?_eq_getElem hlt,hentry.1,hentry.2,?_⟩
    rw [(h.bytes hparse hranges i).2,getElem?_eq_getElem hlt,Option.map_some,if_pos hunit,
      mapped,if_pos hentry]
  case other=>
    intro i hi
    have hunit : i ∉ r.out.codeRanges.flatMap units:=fun hunit=>hi ((hmem i).mp hunit)
    rw [(h.bytes hparse hranges i).2]
    simp only [hunit,if_false,Option.map_id']
  case once=>
    have hset : {i | IsOpcode d version i}=((r.out.codeRanges.flatMap units).toFinset : Set ℕ):=by
      ext i
      rw [Set.mem_ofPred_eq,← hmem i,coe_toFinset,Set.mem_ofPred_eq]
    rw [hset,Set.ncard_coe_finset,toFinset_card_of_nodup hnodup,hout,(units_counts map _ _).1]
    exact Nat.zero_add _

/-- The rewritten stream is parsed to the same objects, up to the payloads. -/
theorem Remapping.reparse {root:ℕ} {r:Reader}
    (h:Remapping sha fuel d version map layout verify out)
    (hparse:parseRoot .source d (minorFromVersion version)=(some root,r)) :
    parseRoot .source out.bytes (minorFromVersion version)=(some root,r.onto out.bytes):=by
  have hrewrites:=h.rewrites
  refine parseRoot_onto hparse h.length fun i hne=>covered_of_isOpcode hparse ?_
  by_contra hnot
  exact hne (hrewrites.other i hnot).symm

theorem defined_perm (σ:Equiv.Perm UInt8) (op:UInt8) : Defined (fun op=>(σ op).toNat) op:=by
  have hlt:=(σ op).toNat_lt
  show 0 ≤ ((σ op).toNat : ℤ) ∧ ((σ op).toNat : ℤ)≤255
  omega

theorem mapped_perm (σ:Equiv.Perm UInt8) (op:UInt8) :
    mapped (fun op=>(σ op).toNat) op = σ op:=by
  rw [mapped,if_pos (defined_perm σ op),Int.toNat_natCast]
  exact UInt8.ofNat_toNat

theorem Remapping.inverse {σ:Equiv.Perm UInt8}
    (h:Remapping sha fuel d version (fun op=>(σ op).toNat) layout verify out) :
    ∃out',Remapping sha fuel out.bytes version (fun op=>(σ.symm op).toNat) verify layout out' ∧
      out'.bytes=d:=by
  obtain ⟨root,r,hcode,hranges,hcount⟩:=h.parse
  have hparse:=(readCode_ok hcode).1
  have hreparse:=h.reparse hparse
  obtain ⟨root',r',c,hcode',-,hverify⟩:=semanticHash_valid h.reparsed h.verified
  have hr' : r'=r.onto out.bytes:=
    Ran.unique (m:=obj .source maxLevels) (readCode_ok hcode').1 hreparse
  have hvranges : verify.codeRanges=r.out.codeRanges:=by
    rw [hverify,hr']
    rfl
  have hsound : ∀x∈r.out.codeRanges,Sound out.bytes x:=by
    intro x hx
    unfold Sound
    rw [h.length]
    exact (h.bytes hparse hranges 0).1 x hx
  have heven : ∀x∈r.out.codeRanges,x.size % 2≠1:=fun x hx=>(hsound x hx).1
  have hfirst : (firstRewrite out.bytes version verify).bytes=out.bytes:=rfl
  have hlt : ∀p∈r.out.codeRanges.flatMap units,
      p<(firstRewrite out.bytes version verify).bytes.length:=by
    rw [hfirst]
    exact units_lt hsound
  have hback : ((r.out.codeRanges.flatMap units).foldl (rewriteUnit fun op=>(σ.symm op).toNat)
      (firstRewrite out.bytes version verify)).bytes=d:=by
    apply ext_getElem?
    intro i
    have hi:=rewritten_getElem? hreparse (fun op=>(σ.symm op).toNat) hsound hfirst i
    have hout : (r.onto out.bytes).out=r.out:=rfl
    rw [hout] at hi
    rw [hi,(h.bytes hparse hranges i).2,Option.map_map]
    show Option.map (fun op=>if i ∈ r.out.codeRanges.flatMap units then _ else _) d[i]? = d[i]?
    by_cases hunit : i∈r.out.codeRanges.flatMap units
    · simp only [hunit,if_true,mapped_perm,Equiv.symm_apply_apply,Option.map_id']
    · simp only [hunit,if_false,Option.map_id']
  refine ⟨_,⟨h.reparsed,h.verified,rewriteRanges_ok.mpr ⟨?_,rfl⟩,?_,?_,h.valid,h.codes.symm,
    h.ranges.symm⟩,?_⟩
  · rw [hvranges]
    exact hsound
  · rw [hvranges]
    exact (units_unmapped _ (nodup_flatMap_units hparse heven) hlt).mpr
      ⟨rfl,fun p _=>defined_perm σ.symm _⟩
  · rw [hvranges,hback]
    exact h.parsed
  · rw [hvranges]
    exact hback

end

/-- A rewrite that succeeds maps each opcode of the stream once, those of inline cache entries
included, and changes nothing else; one that fails gives no bytes. The inverse of a permutation
restores the stream. -/
theorem remap_rewrites_opcodes (sha : Bytes→Bytes) (fuel : ℕ) (d : Bytes) (version : ℤ)
    (map : OpcodeMap) (out : OpcodeRewrite) (h : remapOpcodes sha fuel d version map=some out) :
    (out.valid=false → out.bytes=[]) ∧ (out.valid=true → RewritesOpcodes d version map out ∧
        ∀ σ : Equiv.Perm UInt8, (∀ op, map op=(σ op).toNat) →
          ∃ back, remapOpcodes sha fuel out.bytes version (fun op => (σ.symm op).toNat) = some back ∧
            back.valid=true ∧ back.bytes=d) := by
  rcases remap_cases h with ⟨hinvalid,hbytes⟩ | ⟨layout,verify,out₁,hremapping,rfl⟩
  · refine ⟨fun _=>hbytes,fun hvalid=>?_⟩
    rw [hinvalid] at hvalid
    exact absurd hvalid (by decide)
  · refine ⟨fun hinvalid=>absurd hinvalid (by simp),fun _=>⟨?_,fun σ hσ=>?_⟩⟩
    · have hrewrites:=hremapping.rewrites
      exact ⟨hrewrites.payload,hrewrites.length,hrewrites.opcode,hrewrites.other,hrewrites.once⟩
    · obtain rfl : map = fun op=>((σ op).toNat : ℤ):=funext hσ
      obtain ⟨out',hinverse,hback⟩:=hremapping.inverse
      exact ⟨_,hinverse.remap,rfl,hback⟩

/-- The opcode of the code units after an instruction that hold its inline cache. -/
def cacheOpcode : UInt8 := 0

/-- A code object of Python 3.11 whose bytecode is one `BINARY_OP` with its cache entry. -/
def cachedStream : Bytes :=
  byte 'c' :: List.replicate 20 0 ++
    [byte 's',4,0,0,0,122,0,cacheOpcode,0,byte ')',0,byte ')',0,byte ')',0,
      byte 's',0,0,0,0,byte 'z',0,byte 'z',0,byte 'z',0,0,0,0,0,
      byte 's',0,0,0,0,byte 's',0,0,0,0]

/-- The exchange of two opcodes, one of them that of a cache entry. -/
def exchange : OpcodeMap := fun op => if op = 0 then 1 else if op = 1 then 0 else op.toNat

theorem cachedStream_remap : ∃out,remapOpcodes id 100 cachedStream 311 exchange=some out ∧
    out.valid=true ∧ out.bytes[28]? = some 1:=by
  have hrun : (remapOpcodes id 100 cachedStream 311 exchange).map
      (fun out=>(out.valid,out.bytes[28]?)) = some (true,some 1):=by decide +kernel
  obtain ⟨out,hout,hpair⟩:=Option.map_eq_some_iff.mp hrun
  exact ⟨out,hout,(Prod.mk.inj hpair).1,(Prod.mk.inj hpair).2⟩

/-- The cache entry is mapped like any other code unit. -/
theorem cache_entry_mapped : ¬ ∀out, remapOpcodes id 100 cachedStream 311 exchange=some out →
    out.valid=true → ∀i, IsOpcode cachedStream 311 i → cachedStream[i]? = some cacheOpcode →
      out.bytes[i]? = some cacheOpcode:=by
  obtain ⟨out,hout,hvalid,hcache⟩:=cachedStream_remap
  intro hunchanged
  have hold : cachedStream[28]? = some cacheOpcode:=by decide
  have hrewrites : RewritesOpcodes cachedStream 311 exchange out:=by
    rcases remap_cases hout with ⟨hinvalid,-⟩ | ⟨layout,verify,out₁,hremapping,rfl⟩
    · rw [hinvalid] at hvalid
      exact absurd hvalid (by decide)
    · have h:=hremapping.rewrites
      exact ⟨h.payload,h.length,h.opcode,h.other,h.once⟩
  by_cases hop : IsOpcode cachedStream 311 28
  · rw [hunchanged out hout hvalid 28 hop hold] at hcache
    exact absurd hcache (by decide)
  · rw [hrewrites.other 28 hop,hold] at hcache
    exact absurd hcache (by decide)

theorem remap_rewrites_opcodes_cachedStream :
    ∃out, remapOpcodes id 100 cachedStream 311 exchange=some out ∧
      RewritesOpcodes cachedStream 311 exchange out:=by
  obtain ⟨out,hout,hvalid,-⟩:=cachedStream_remap
  exact ⟨out,hout,((remap_rewrites_opcodes id 100 cachedStream 311 exchange out hout).2 hvalid).1⟩

end AutoRefirst.PythonMarshal
