import AutoRefirst.WasmModule
import Mathlib.Tactic.Ring

/-!
# What the WebAssembly reader accepts

Every reader accepts what its grammar spells, and moves over just those bytes.
-/

namespace AutoRefirst.Wasm
open SpanReader

theorem spare_u32 (b:UInt8) (h:b &&& 0xf0=0) : b.toNat<2^4:=
  eachByte (P:=fun b=>b &&& 0xf0=0 → b.toNat<2^4) (by decide +kernel) b h

theorem spare_u64 (b:UInt8) (h:b &&& 0xfe=0) : b.toNat<2^1:=
  eachByte (P:=fun b=>b &&& 0xfe=0 → b.toNat<2^1) (by decide +kernel) b h

theorem byte_reads : Reads byte Byte:=by
  apply (Reads.needed "WebAssembly structure truncated" 1 fun v=>Reads.pure (v.headD 0)).mono
  rintro d a c w hc ⟨b,v,⟨rfl,hb,rfl⟩,rfl,rfl⟩
  refine ⟨rfl,?_⟩
  rw [List.getElem?_eq_getElem (by omega:a<d.length),Option.some.injEq]
  rw [List.drop_eq_getElem_cons (by omega:a<d.length)]
  rfl

theorem leb_forward {d:Bytes} {a b v:ℕ} (h:Leb d a b v) : a<b:=by
  induction h with
  | last=>exact Nat.lt_succ_self _
  | more _ _ _ ih=>exact Nat.lt_of_succ_lt ih

theorem digit_add {v i:ℕ} (b:UInt8) (hv:v<2^(7*i)) :
    v ||| ((b &&& 0x7f).toNat <<< (7*i)) = v+2^(7*i)*(b.toNat % 128):=by
  rw [low_bits,Nat.or_comm,← Nat.shiftLeft_add_eq_or_of_lt hv,Nat.shiftLeft_eq]
  ring

theorem digit_lt {v i x:ℕ} (hv:v<2^(7*i)) {t:ℕ} (hx:x<2^t) : v + 2^(7*i)*x<2^(7*i+t):=by
  have h : 2^(7*i)*(x+1)≤2^(7*i)*2^t:=Nat.mul_le_mul_left _ hx
  rw [pow_add]
  rw [Nat.mul_add] at h
  omega

theorem leb_reads (type:String) {last t:ℕ} {spare:UInt8} (ht:t≤7)
    (hspare:∀b : UInt8,b &&& spare=0 → b.toNat<2^t) (k i v:ℕ) (hi:i+k=last+1)
    (hv:v<2^(7*i)) :
    Reads (lebFrom type last spare k i v) fun d a b w=>
      ∃u,Leb d a b u ∧ b≤a+k ∧ w=v+2^(7*i)*u ∧ w<2^(7*last+t):=by
  induction k generalizing i v with
  | zero=>exact Reads.fail
  | succ k ih=>
    apply (byte_reads.bind (H:=fun x d a b w=>d[a-1]? = some x → 0<a →
      ∃u,Leb d (a-1) b u ∧ b≤a+k ∧ w=v+2^(7*i)*u ∧ w<2^(7*last+t)) ?_).mono
    · rintro d a c w - ⟨b,x,⟨rfl,hx⟩,h⟩
      obtain ⟨u,hu,hc,hw⟩:=h hx (Nat.succ_pos a)
      exact ⟨u,hu,by omega,hw⟩
    intro x
    apply Reads.ite
    · exact fun _=>Reads.fail
    intro hover
    have hlast : i=last → x.toNat<2^t:=fun h=>by
      apply hspare
      by_contra hne
      exact hover ⟨h,hne⟩
    have hx : x.toNat % 128<2^7:=Nat.mod_lt _ (by decide)
    have hnext : v+2^(7*i)*(x.toNat % 128)<2^(7*(i+1)):=digit_lt hv hx
    rw [digit_add x hv]
    apply Reads.ite
    · intro hdone
      have hsmall:=(high_bit x).mp hdone
      rw [Nat.mod_eq_of_lt hsmall] at hnext ⊢
      apply (Reads.pure _).mono
      rintro d a b w - ⟨rfl,rfl⟩ hd ha
      refine ⟨x.toNat,?_,by omega,rfl,?_⟩
      · have hleb:=Leb.last hd hsmall
        rwa [Nat.sub_add_cancel ha] at hleb
      by_cases h : i=last
      · exact h▸digit_lt hv (hlast h)
      · exact Nat.lt_of_lt_of_le hnext (Nat.pow_le_pow_right (by omega) (by omega))
    · intro hmore
      have hlarge : 128≤x.toNat:=by
        have:=mt (high_bit x).mpr hmore
        omega
      apply (ih (i+1) _ (by omega) hnext).mono
      rintro d a b w - ⟨u,hu,hb,rfl,hw⟩ hd ha
      have hdigit : x.toNat % 128 = x.toNat-128:=by
        have:=x.toNat_lt
        omega
      refine ⟨x.toNat-128+128*u,?_,by omega,?_,hw⟩
      · apply Leb.more hd hlarge
        rwa [Nat.sub_add_cancel ha]
      · rw [hdigit]
        ring

theorem u32_reads : Reads u32 U32:=by
  apply (leb_reads "u32" (by omega) spare_u32 5 0 0 rfl (by omega)).mono
  rintro d a b w - ⟨u,hu,hb,rfl,hw⟩
  rw [Nat.zero_add,Nat.mul_zero,pow_zero,one_mul] at hw ⊢
  exact ⟨hu,hb,hw⟩

theorem u64_reads : Reads u64 (Unsigned 64 10):=by
  apply (leb_reads "u64" (by omega) spare_u64 10 0 0 rfl (by omega)).mono
  rintro d a b w - ⟨u,hu,hb,rfl,hw⟩
  rw [Nat.zero_add,Nat.mul_zero,pow_zero,one_mul] at hw ⊢
  exact ⟨hu,hb,hw⟩

theorem s64From_reads (k shift:ℕ) (x:UInt64) :
    Reads (s64From k shift x) fun d a b _=>(∃v,Leb d a b v) ∧ b≤a+k:=by
  induction k generalizing shift x with
  | zero=>exact Reads.fail
  | succ k ih=>
    apply (byte_reads.bind (H:=fun y d a b _=>d[a-1]? = some y → 0<a →
      (∃v,Leb d (a-1) b v) ∧ b≤a+k) ?_).mono
    · rintro d a c w - ⟨b,y,⟨rfl,hy⟩,h⟩
      obtain ⟨hv,hc⟩:=h hy (Nat.succ_pos a)
      exact ⟨hv,by omega⟩
    intro y
    apply Reads.ite
    · intro hdone
      apply (Reads.pure _).mono
      rintro d a b w - ⟨rfl,rfl⟩ hd ha
      have hleb:=Leb.last hd ((high_bit y).mp hdone)
      rw [Nat.sub_add_cancel ha] at hleb
      exact ⟨⟨_,hleb⟩,by omega⟩
    · intro hmore
      have hlarge : 128≤y.toNat:=by
        have:=mt (high_bit y).mpr hmore
        omega
      apply (ih _ _).mono
      rintro d a b w - ⟨⟨v,hv⟩,hb⟩ hd ha
      rw [← Nat.sub_add_cancel ha] at hv
      exact ⟨⟨_,Leb.more hd hlarge hv⟩,by omega⟩

theorem s64_reads (bits:ℕ) : Reads (s64 bits) (Signed bits):=s64From_reads _ 0 0

theorem name_reads : Reads name Name:=by
  have h:=u32_reads.bind fun n=>
    (Reads.takeLeft "WebAssembly name length out of bounds" n).bind fun out=>
      (Reads.require (c:=utf8Ok out = true)
        (s := "WebAssembly name is not valid UTF-8")).bind fun _=>Reads.pure out
  apply h.mono
  rintro d a e v - ⟨b,n,hn,c,out,hout,c',-,⟨rfl,hok⟩,rfl,rfl⟩
  exact ⟨b,n,hn,hout,hok⟩

theorem valtype_reads : Reads valtype ValType:=by
  apply byte_reads.bind
  intro b
  cases plainType b with
  | some t=>
    apply (Reads.pure t).mono
    rintro d a c v - ⟨rfl,rfl⟩
    simp only [and_self]
  | none=>
    apply Reads.ite
    · intro href
      apply ((s64_reads 33).bind fun ht=>Reads.pure _).mono
      rintro d a c v - ⟨e,ht,hht,rfl,rfl⟩
      exact ⟨href,ht,hht,rfl⟩
    · exact fun _=>Reads.fail

theorem vecTypes_reads : Reads vecTypes (Vec fun _=>ValType):=by
  have h:=u32_reads.bind fun n=>
    (Reads.require (c:=n≤1000000) (s := "WebAssembly type vector count unreasonable")).bind
      fun _=>valtype_reads.collect n []
  apply h.mono
  rintro d a e v - ⟨b,n,hn,c,-,⟨rfl,-⟩,xs,hxs,hlen,rfl⟩
  exact ⟨b,n,hn,hxs,hlen⟩

theorem limits_reads : Reads limits Limits:=by
  apply byte_reads.bind
  intro flags
  have h:=(Reads.require (c:=flags=0 ∨ flags=1 ∨ flags=4 ∨ flags=5)
    (s := "unsupported WebAssembly limits flags")).bind fun _=>u64_reads.bind fun _=>
      @Reads.ite _ (flags &&& 1≠0) _ (do let _ ← u64;return ()) (Pure.pure ())
        (fun d b c _=>if flags &&& 1≠0 then ∃m,Unsigned 64 10 d b c m else b = c)
        (fun hmax=>(u64_reads.bind fun _=>Reads.pure ()).mono ?_)
        (fun hmax=>(Reads.pure ()).mono ?_)
  · apply h.mono
    rintro d a e v - ⟨b,-,⟨rfl,hflags⟩,c,n,hn,hmax⟩
    exact ⟨hflags,c,n,hn,hmax⟩
  · rintro d a b v - ⟨c,m,hm,rfl,-⟩
    rw [if_pos hmax]
    exact ⟨m,hm⟩
  · rintro d a b v - ⟨rfl,-⟩
    rw [if_neg hmax]

theorem tableType_reads : Reads tableType TableType:=valtype_reads.bind fun _=>limits_reads

theorem globalType_reads : Reads globalType GlobalType:=by
  apply valtype_reads.bind
  intro t
  apply (byte_reads.bind fun m=>Reads.require (c:=m≤1)
    (s := "invalid WebAssembly global mutability")).mono
  rintro d a b v - ⟨c,m,hm,rfl,hle⟩
  exact ⟨m,hm,hle⟩

theorem tagType_reads : Reads tagType TagType:=by
  apply (byte_reads.bind fun attr=>u32_reads.bind fun _=>Reads.require (c:=attr=0)
    (s := "unsupported WebAssembly tag attribute")).mono
  rintro d a b v - ⟨c,attr,⟨rfl,hattr⟩,e,ti,hti,rfl,rfl⟩
  exact ⟨ti,⟨rfl,hattr⟩,hti⟩

end AutoRefirst.Wasm
