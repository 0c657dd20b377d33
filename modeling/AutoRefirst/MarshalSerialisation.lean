import AutoRefirst.MarshalSizes
import AutoRefirst.MarshalValues
import Mathlib.Data.List.Perm.Basic

/-!
# The serialisation of values

The serialisation of a sized value can be read back, up to the order of the members of
sets, the texts of numbers and the distance of open objects. Nothing else is lost.
-/

namespace AutoRefirst.PythonMarshal
open List Option

theorem byteLess_total (a b:Bytes) : byteLess a b=false ∨ byteLess b a=false:=by
  induction a generalizing b with
  | nil=>exact .inr (by cases b <;> rfl)
  | cons x xs ih=>
    cases b with
    | nil=>exact .inl rfl
    | cons y ys=>
      by_cases hxy : x=y
      · subst hxy
        simpa [byteLess] using ih ys
      · have hyx : y≠x:=Ne.symm hxy
        simp only [byteLess,ne_eq,hxy,hyx,not_false_eq_true,if_true,decide_eq_false_iff_not,
          UInt8.not_lt]
        exact UInt8.le_total y x

variable {b : Bytes}

theorem byteLess_antisymm {a:Bytes} (h:byteLess a b=false) (h':byteLess b a=false) : a=b:=by
  induction a generalizing b with
  | nil=>
    cases b with
    | nil=>rfl
    | cons y ys=>exact absurd h (by simp [byteLess])
  | cons x xs ih=>
    cases b with
    | nil=>exact absurd h' (by simp [byteLess])
    | cons y ys=>
      by_cases hxy : x=y
      · subst hxy
        rw [ih (by simpa [byteLess] using h) (by simpa [byteLess] using h')]
      · have hyx : y≠x:=Ne.symm hxy
        simp only [byteLess,ne_eq,hxy,hyx,not_false_eq_true,if_true,decide_eq_false_iff_not,
          UInt8.not_lt] at h h'
        exact absurd (UInt8.le_antisymm h' h) hxy

theorem byteLess_trans {a c:Bytes} (h:byteLess b a=false) (h':byteLess c b=false) :
    byteLess c a=false:=by
  induction a generalizing b c with
  | nil=>cases c <;> cases b <;> simp_all [byteLess]
  | cons x xs ih=>
    cases b with
    | nil=>exact absurd h (by simp [byteLess])
    | cons y ys=>
      cases c with
      | nil=>exact absurd h' (by simp [byteLess])
      | cons z zs=>
        simp only [byteLess] at h h' ⊢
        split_ifs at h h' ⊢ <;> grind

/-- The order that `sortBytes` sorts by. -/
def ByteLE (a b : Bytes) : Prop := byteLess b a = false

instance : DecidableRel ByteLE := fun a b => inferInstanceAs (Decidable (byteLess b a = false))

instance : Std.Total ByteLE := ⟨fun a b => byteLess_total b a⟩

instance : IsTrans Bytes ByteLE := ⟨fun _ _ _ h h' => byteLess_trans h h'⟩

instance : Std.Antisymm ByteLE := ⟨fun _ _ h h' => byteLess_antisymm h' h⟩

theorem sortBytes_perm (xs:List Bytes) : (sortBytes xs).Perm xs:=perm_insertionSort _ xs

theorem sortBytes_eq_of_perm {xs ys:List Bytes} (h:xs.Perm ys) : sortBytes xs=sortBytes ys:=by
  have hx : (sortBytes xs).Pairwise ByteLE:=pairwise_insertionSort ByteLE xs
  have hy : (sortBytes ys).Pairwise ByteLE:=pairwise_insertionSort ByteLE ys
  exact List.Perm.eq_of_pairwise' hx hy ((sortBytes_perm xs).trans (h.trans (sortBytes_perm ys).symm))

theorem sortBytes_map (vs:List Value) :
    ∃us : List Value,us.Perm vs ∧ us.map Value.bytes=sortBytes (vs.map Value.bytes):=
  ⟨vs.insertionSort fun a b=>byteLess b.bytes a.bytes = false,perm_insertionSort _ vs,
    map_insertionSort _ _ Value.bytes vs fun _ _ _ _=>Iff.rfl⟩

theorem lowBytes_length (n v:ℕ) : (lowBytes n v).length=n:=by
  induction n generalizing v with
  | zero=>rfl
  | succ n ih=>rw [lowBytes,length_cons,ih]

variable {n : ℕ}

theorem lowBytes_inj {a b:ℕ} (ha:a<256^n) (hb:b<256^n)
    (h:lowBytes n a=lowBytes n b) : a=b:=by
  induction n generalizing a b with
  | zero=>
    rw [Nat.pow_zero] at ha hb
    omega
  | succ n ih=>
    rw [lowBytes,lowBytes,List.cons.injEq] at h
    obtain ⟨hlow,hhigh⟩:=h
    rw [Nat.pow_succ] at ha hb
    have hdiv:=ih (by omega) (by omega) hhigh
    have hmod:=congrArg UInt8.toNat hlow
    simp only [Nat.toUInt8,UInt8.toNat_ofNat'] at hmod
    omega

theorem putU64_length (v:ℤ) : (putU64 v).length=8:=lowBytes_length 8 _

theorem putU32_length (v:ℤ) : (putU32 v).length=4:=lowBytes_length 4 _

theorem putU64_nat_inj {a b:ℕ} (ha:a<2^64) (hb:b<2^64) (h:putU64 a=putU64 b) : a=b:=by
  have hmod:=lowBytes_inj (n:=8) (by omega) (by omega) h
  omega

variable {a : ℤ}

theorem putU64_inj {b:ℤ} (ha:Fits32 a) (hb:Fits32 b) (h:putU64 a=putU64 b) : a=b:=by
  unfold Fits32 at ha hb
  have hmod:=lowBytes_inj (n:=8) (by omega) (by omega) h
  omega

theorem putU32_inj {b:ℤ} (ha:Fits32 a) (hb:Fits32 b) (h:putU32 a=putU32 b) : a=b:=by
  unfold Fits32 at ha hb
  have hmod:=lowBytes_inj (n:=4) (by omega) (by omega) h
  omega

variable {s s' : Bytes}

theorem putU32_append_inj {b:ℤ} (ha:Fits32 a) (hb:Fits32 b)
    (h:putU32 a++s = putU32 b++s') : a=b ∧ s=s':=by
  obtain ⟨hnumber,hrest⟩:=append_inj h (by rw [putU32_length,putU32_length])
  exact ⟨putU32_inj ha hb hnumber,hrest⟩

theorem putBlob_append_inj {b':Bytes} (hb:b.length<2^64) (hb':b'.length<2^64)
    (h:putBlob b++s = putBlob b'++s') : b=b' ∧ s=s':=by
  unfold putBlob at h
  rw [append_assoc,append_assoc] at h
  obtain ⟨hlen,hrest⟩:=append_inj h (by rw [putU64_length,putU64_length])
  exact append_inj hrest (putU64_nat_inj hb hb' hlen)

/-- The label can stand for an object with `n` parts; code objects have `fields` parts. -/
def Label.Sized (fields : ℕ) (ℓ : Label) (n : ℕ) : Prop :=
  match ℓ with
  | .missing => n=0
  | .enclosing _ => n=0
  | .constant k => n=0 ∧ k∈[K.nullTag,.none,.false,.true,.stopIter,.ellipsis]
  | .integer k iv blob => n=0 ∧ k∈[K.int,.long] ∧ Fits32 iv ∧ blob.length<2^64
  | .payload k blob _ => n=0 ∧ k∈[K.float,.complex,.bytes,.string] ∧ blob.length<2^64
  | .seq k => k∈[K.tuple,.list,.slice] ∧ n<2^64
  | .members k => k∈[K.set,.frozenSet] ∧ n<2^64
  | .dict => ∃ m, n=2*m ∧ m<2^64
  | .code argcount posonly kwonly nlocals stacksize flags =>
    n = fields ∧ ∀ v∈[argcount,posonly,kwonly,nlocals,stacksize,flags], Fits32 v

inductive Value.Sized (fields : ℕ) : Value → Prop
  | node {ℓ : Label} {vs : List Value} :
      ℓ.Sized fields vs.length → (∀ v∈vs, Value.Sized fields v) → Value.Sized fields (.node ℓ vs)

def codeFieldCount (minor : ℤ) : ℕ := if minor ≤ 10 then 7 else 8

variable {minor : ℤ}

theorem fields_length {c:CodeData} (h:c.Sized minor) :
    c.fields.length=codeFieldCount minor:=by
  unfold CodeData.fields codeFieldCount
  by_cases hminor : minor≤10
  · obtain ⟨hvarnames,hqualname,hexception⟩:=h.old hminor
    rw [if_pos hvarnames,hqualname,hexception,if_pos hminor]
    rfl
  · obtain ⟨hvarnames,hqualname,hexception⟩:=h.new hminor
    rw [hvarnames,if_pos hqualname,if_pos hexception,if_neg hminor]
    rfl

variable {ℓ : Label}

theorem shape_sized {n:Node} (h:n.Sized minor) {parts:List (Option ℕ)}
    (hshape:n.shape=some (ℓ,parts)) : ℓ.Sized (codeFieldCount minor) parts.length:=by
  unfold Node.shape at hshape
  cases hk : n.k <;> rw [hk] at hshape <;>
    simp only [some.injEq,Prod.mk.injEq,map_eq_some_iff] at hshape
  case int | long=>
    obtain ⟨rfl,rfl⟩:=hshape
    exact ⟨rfl,by decide,h.iv,h.blob⟩
  case float | complex | bytes | string=>
    obtain ⟨rfl,rfl⟩:=hshape
    exact ⟨rfl,by decide,h.blob⟩
  case tuple | list | slice | set | frozenSet=>
    obtain ⟨rfl,rfl⟩:=hshape
    exact ⟨by decide,by rw [length_map];exact h.seq⟩
  case dict=>
    obtain ⟨rfl,rfl⟩:=hshape
    refine ⟨n.dict.length,?_,h.dict⟩
    rw [length_flatMap]
    simp [Nat.mul_comm]
  case code=>
    obtain ⟨c,hc,rfl,rfl⟩:=hshape
    exact ⟨fields_length (h.code c hc),(h.code c hc).numbers⟩
  all_goals
    obtain ⟨rfl,rfl⟩:=hshape
    exact ⟨rfl,by decide⟩

theorem ofHeap_sized {h:Heap} (hn:∀n∈h,n.Sized minor) {fuel:ℕ} {active:List ℕ}
    {x:Option ℕ} {v:Value} (hv:Value.ofHeap h fuel active x=some v) :
    v.Sized (codeFieldCount minor):=by
  induction fuel generalizing active x v with
  | zero=>exact absurd hv (by simp [Value.ofHeap])
  | succ fuel ih=>
    have hleaf : ∀ {ℓ : Label},ℓ.Sized (codeFieldCount minor) 0 →
        (Value.node ℓ []).Sized (codeFieldCount minor):=fun hℓ => .node hℓ (by simp)
    cases x with
    | none=>
      rw [← some.inj hv]
      exact hleaf rfl
    | some id=>
      rw [Value.ofHeap] at hv
      cases hlevel : active.idxOf? id with
      | some level=>
        rw [hlevel] at hv
        rw [← some.inj hv]
        exact hleaf rfl
      | none=>
        rw [hlevel] at hv
        obtain ⟨n,hnode,h₁⟩:=bind_eq_some_iff.mp hv
        obtain ⟨⟨ℓ,parts⟩,hs,h₂⟩:=bind_eq_some_iff.mp h₁
        obtain ⟨vs,hvs,h₃⟩:=bind_eq_some_iff.mp h₂
        rw [← some.inj h₃]
        have hsized:=shape_sized (hn n (mem_of_getElem? hnode)) hs
        rw [← mapM_length hvs] at hsized
        refine .node hsized fun w hw=>?_
        obtain ⟨i,hi⟩:=getElem?_of_mem hw
        obtain ⟨y,-,hy⟩:=mapM_getElem? hvs i w hi
        exact ih hy

/-- Labels that are written alike. -/
inductive Label.Stored : Label → Label → Prop
  | refl (ℓ : Label) : Label.Stored ℓ ℓ
  | enclosing (level level' : ℕ) : Label.Stored (.enclosing level) (.enclosing level')
  | payload (k : K) (blob : Bytes) (texts texts' : List Bytes) :
      Label.Stored (.payload k blob texts) (.payload k blob texts')

/-- The members of a set have no order. -/
def Label.unordered (ℓ : Label) : Bool :=
  match ℓ with
  | .members _ => true
  | _ => false

variable {ℓ' : Label}

theorem header_congr (h:ℓ.Stored ℓ') (n:ℕ) : ℓ.header n=ℓ'.header n:=by
  cases h <;> rfl

theorem body_congr (h:ℓ.Stored ℓ') (parts:List Bytes) : ℓ.body parts=ℓ'.body parts:=by
  cases h <;> rfl

theorem body_unordered (h:ℓ.unordered=true) (parts:List Bytes) :
    ℓ.body parts=((sortBytes parts).map putBlob).flatten:=by
  cases ℓ with
  | members=>rfl
  | _=>exact absurd h (by simp [Label.unordered])

theorem body_ordered (h:ℓ.unordered=false) (parts:List Bytes) : ℓ.body parts=parts.flatten:=by
  cases ℓ with
  | members=>exact absurd h (by simp [Label.unordered])
  | _=>rfl

/-- The kind whose number is the first byte of the header. -/
def K.ofNumber (b : UInt8) : Option K :=
  [K.nullTag,.none,.false,.true,.stopIter,.ellipsis,.int,.long,.float,.complex,.bytes,
    .string,.tuple,.list,.dict,.set,.frozenSet,.slice,.code][b.toNat]?

theorem ofNumber_number (k:K) : K.ofNumber k.number=some k:=by
  cases k <;> rfl

def Label.kind : Label → Option K
  | .missing => none
  | .enclosing _ => none
  | .constant k => some k
  | .integer k _ _ => some k
  | .payload k _ _ => some k
  | .seq k => some k
  | .members k => some k
  | .dict => some .dict
  | .code .. => some .code

/-- The place of the constructor of the label. -/
def Label.form : Label → ℕ
  | .missing => 0
  | .enclosing _ => 1
  | .constant _ => 2
  | .integer .. => 3
  | .payload .. => 4
  | .seq _ => 5
  | .members _ => 6
  | .dict => 7
  | .code .. => 8

def K.form : K → ℕ
  | .nullTag | .none | .false | .true | .stopIter | .ellipsis => 2
  | .int | .long => 3
  | .float | .complex | .bytes | .string => 4
  | .tuple | .list | .slice => 5
  | .set | .frozenSet => 6
  | .dict => 7
  | .code => 8

def tagForm (b : UInt8) : ℕ :=
  match K.ofNumber b with
  | some k => k.form
  | none => if b = 0xff then 0 else 1

theorem header_head {fields:ℕ} (h:ℓ.Sized fields n) :
    ∃b t,ℓ.header n=b::t ∧ tagForm b=ℓ.form ∧ K.ofNumber b=ℓ.kind:=by
  have hform : ∀ {k:K},tagForm k.number=k.form:=by
    intro k
    unfold tagForm
    rw [ofNumber_number]
  cases ℓ with
  | missing=>exact ⟨_,_,rfl,rfl,rfl⟩
  | enclosing=>exact ⟨_,_,rfl,rfl,rfl⟩
  | constant k=>
    refine ⟨_,_,rfl,hform.trans ?_,ofNumber_number k⟩
    obtain ⟨-,hk⟩:=h
    simp only [mem_cons,not_mem_nil,or_false] at hk
    rcases hk with rfl | rfl | rfl | rfl | rfl | rfl <;> rfl
  | integer k=>
    refine ⟨_,_,rfl,hform.trans ?_,ofNumber_number k⟩
    obtain ⟨-,hk,-⟩:=h
    simp only [mem_cons,not_mem_nil,or_false] at hk
    rcases hk with rfl | rfl <;> rfl
  | payload k=>
    refine ⟨_,_,rfl,hform.trans ?_,ofNumber_number k⟩
    obtain ⟨-,hk,-⟩:=h
    simp only [mem_cons,not_mem_nil,or_false] at hk
    rcases hk with rfl | rfl | rfl | rfl <;> rfl
  | seq k=>
    refine ⟨_,_,rfl,hform.trans ?_,ofNumber_number k⟩
    obtain ⟨hk,-⟩:=h
    simp only [mem_cons,not_mem_nil,or_false] at hk
    rcases hk with rfl | rfl | rfl <;> rfl
  | members k=>
    refine ⟨_,_,rfl,hform.trans ?_,ofNumber_number k⟩
    obtain ⟨hk,-⟩:=h
    simp only [mem_cons,not_mem_nil,or_false] at hk
    rcases hk with rfl | rfl <;> rfl
  | dict=>exact ⟨_,_,rfl,hform,ofNumber_number .dict⟩
  | code=>exact ⟨_,_,rfl,hform,ofNumber_number .code⟩

/-- A header can be read back, and only the number of fields of a code object is not in it. -/
theorem header_inj {fields fields':ℕ} {n':ℕ} (h:ℓ.Sized fields n) (h':ℓ'.Sized fields' n')
    (heq:ℓ.header n++s = ℓ'.header n'++s') :
    ℓ.Stored ℓ' ∧ s=s' ∧ (n=n' ∨ (ℓ.unordered=false ∧ n=fields ∧ n'=fields')):=by
  obtain ⟨b,t,hb,hform,hkind⟩:=header_head h
  obtain ⟨b',t',hb',hform',hkind'⟩:=header_head h'
  have htag : b=b':=by
    rw [hb,hb'] at heq
    exact (List.cons.inj heq).1
  rw [htag,hform'] at hform
  rw [htag,hkind'] at hkind
  cases ℓ <;> cases ℓ' <;> first | (exfalso;simp [Label.form] at hform;done) | skip
  case missing.missing=>
    obtain ⟨-,rfl⟩:=List.cons.inj heq
    exact ⟨.refl _,rfl,.inl (h.trans h'.symm)⟩
  case enclosing.enclosing=>
    obtain ⟨-,rfl⟩:=List.cons.inj heq
    exact ⟨.enclosing _ _,rfl,.inl (h.trans h'.symm)⟩
  case constant.constant=>
    obtain rfl:=some.inj hkind
    obtain ⟨-,rfl⟩:=List.cons.inj heq
    exact ⟨.refl _,rfl,.inl (h.1.trans h'.1.symm)⟩
  case integer.integer=>
    obtain rfl:=some.inj hkind
    rw [Label.header,Label.header,cons_append,cons_append,append_assoc, append_assoc] at heq
    obtain ⟨-,hrest⟩:=List.cons.inj heq
    obtain ⟨hiv,hblob⟩:=append_inj hrest (by rw [putU64_length,putU64_length])
    obtain ⟨rfl,rfl⟩:=putBlob_append_inj h.2.2.2 h'.2.2.2 hblob
    obtain rfl:=putU64_inj h.2.2.1 h'.2.2.1 hiv
    exact ⟨.refl _,rfl,.inl (h.1.trans h'.1.symm)⟩
  case payload.payload=>
    obtain rfl:=some.inj hkind
    obtain ⟨-,hrest⟩:=List.cons.inj heq
    obtain ⟨rfl,rfl⟩:=putBlob_append_inj h.2.2 h'.2.2 hrest
    exact ⟨.payload _ _ _ _,rfl,.inl (h.1.trans h'.1.symm)⟩
  case seq.seq=>
    obtain rfl:=some.inj hkind
    obtain ⟨-,hrest⟩:=List.cons.inj heq
    obtain ⟨hn,rfl⟩:=append_inj hrest (by rw [putU64_length,putU64_length])
    exact ⟨.refl _,rfl,.inl (putU64_nat_inj h.2 h'.2 hn)⟩
  case members.members=>
    obtain rfl:=some.inj hkind
    obtain ⟨-,hrest⟩:=List.cons.inj heq
    obtain ⟨hn,rfl⟩:=append_inj hrest (by rw [putU64_length,putU64_length])
    exact ⟨.refl _,rfl,.inl (putU64_nat_inj h.2 h'.2 hn)⟩
  case dict.dict=>
    obtain ⟨m,rfl,hm⟩:=h
    obtain ⟨m',rfl,hm'⟩:=h'
    obtain ⟨-,hrest⟩:=List.cons.inj heq
    obtain ⟨hn,rfl⟩:=append_inj hrest (by rw [putU64_length,putU64_length])
    have hmm:=putU64_nat_inj (by omega) (by omega) hn
    exact ⟨.refl _,rfl,.inl (by omega)⟩
  case code.code=>
    obtain ⟨rfl,hnumbers⟩:=h
    obtain ⟨rfl,hnumbers'⟩:=h'
    simp only [forall_mem_cons,not_mem_nil,false_imp_iff,forall_const] at hnumbers hnumbers'
    obtain ⟨h₁,h₂,h₃,h₄,h₅,h₆,-⟩:=hnumbers
    obtain ⟨h₁',h₂',h₃',h₄',h₅',h₆',-⟩:=hnumbers'
    simp only [Label.header,cons_append,append_assoc] at heq
    obtain ⟨-,e₀⟩:=List.cons.inj heq
    obtain ⟨rfl,e₁⟩:=putU32_append_inj h₁ h₁' e₀
    obtain ⟨rfl,e₂⟩:=putU32_append_inj h₂ h₂' e₁
    obtain ⟨rfl,e₃⟩:=putU32_append_inj h₃ h₃' e₂
    obtain ⟨rfl,e₄⟩:=putU32_append_inj h₄ h₄' e₃
    obtain ⟨rfl,e₅⟩:=putU32_append_inj h₅ h₅' e₄
    obtain ⟨rfl,e₆⟩:=putU32_append_inj h₆ h₆' e₅
    exact ⟨.refl _,e₆,.inr ⟨rfl,rfl,rfl⟩⟩

end AutoRefirst.PythonMarshal
