import AutoRefirst.MarshalEquivalence
import AutoRefirst.MarshalTruncation
import Mathlib.Data.Rat.Defs

/-!
# What the semantic hash tells apart

Two accepted streams have the same canonical bytes if and only if they decode to the same
value, where a number is taken as it is stored and a reference to an open object is a bare
mark.
-/

namespace AutoRefirst.PythonMarshal
open Option List

def decodeValue (fuel : ℕ) (d : Bytes) (version : ℤ) : Option Value :=
  match readCode d version with
  | .error _ => none
  | .ok (root,r) => Value.ofHeap r.heap fuel [] (some root)

def canonicalBytes (fuel : ℕ) (d : Bytes) (version : ℤ) : Option Bytes :=
  match readCode d version with
  | .error _ => none
  | .ok (root,r) => canonOne fuel r.heap root

def Decodes (d : Bytes) (version : ℤ) (t : Value) : Prop := ∃ fuel, decodeValue fuel d version = some t

/-- The bytes of an accepted stream that are hashed. -/
def Canonical (d : Bytes) (version : ℤ) (c : Bytes) : Prop :=
  ∃ fuel, canonicalBytes fuel d version = some c

theorem canonicalBytes_eq (fuel:ℕ) (d:Bytes) (version:ℤ) :
    canonicalBytes fuel d version=(decodeValue fuel d version).map Value.bytes:=by
  unfold canonicalBytes decodeValue
  split
  · rfl
  · exact canon_eq_bytes _ _ _ _

theorem decodeValue_mono {fuel fuel':ℕ} (hle:fuel≤fuel') {d:Bytes} {version:ℤ} {t:Value}
    (h:decodeValue fuel d version=some t) : decodeValue fuel' d version=some t:=by
  unfold decodeValue at h ⊢
  split at h
  · simp at h
  · exact Value.ofHeap_mono hle h

section
variable {d d' c c' : Bytes} {version version' : ℤ} {t t' : Value}

theorem Canonical.eq_bytes (h:Canonical d version c) (ht:Decodes d version t) : c=t.bytes:=by
  obtain ⟨fuel,hc⟩:=h
  obtain ⟨fuel',hv⟩:=ht
  rw [canonicalBytes_eq] at hc
  obtain ⟨v,hv',rfl⟩:=map_eq_some_iff.mp hc
  have hmax:=decodeValue_mono (Nat.le_max_left fuel fuel') hv'
  have hmax':=decodeValue_mono (Nat.le_max_right fuel fuel') hv
  rw [some.inj (hmax.symm.trans hmax')]

theorem Decodes.sized (h:Decodes d version t) :
    t.Sized (codeFieldCount (minorFromVersion version)) ∧ t.IsCode:=by
  obtain ⟨fuel,hv⟩:=h
  unfold decodeValue at hv
  split at hv
  · simp at hv
  · next root r hcode=>
    obtain ⟨hparse,-,hkind⟩:=readCode_ok hcode
    refine ⟨ofHeap_sized (sized_parseRoot hparse) hv,?_⟩
    cases fuel with
    | zero=>exact absurd hv (by simp [Value.ofHeap])
    | succ fuel=>
      obtain ⟨n,hn,h₁⟩:=bind_eq_some_iff.mp hv
      obtain ⟨s,hs,h₂⟩:=bind_eq_some_iff.mp h₁
      obtain ⟨vs,-,h₃⟩:=bind_eq_some_iff.mp h₂
      rw [hn,map_some,some.injEq] at hkind
      rw [Node.shape,hkind] at hs
      obtain ⟨c,-,rfl⟩:=map_eq_some_iff.mp hs
      rw [← some.inj h₃]
      rfl

/-- The canonical bytes are the same if and only if the values are, up to what is not written. -/
theorem Canonical.eq_iff (h:Canonical d version c) (h':Canonical d' version' c')
    (ht:Decodes d version t) (ht':Decodes d' version' t') (hsize:c.length<2^64) :
    c=c' ↔ Same Label.Stored t t':=by
  have hc:=h.eq_bytes ht
  have hc':=h'.eq_bytes ht'
  rw [hc] at hsize ⊢
  rw [hc']
  exact bytes_eq_iff ht.sized.1 ht'.sized.1 ht.sized.2 hsize

end

/-- An empty code object of Python 3.8 with these constants. -/
def streamWith (consts : Bytes) : Bytes :=
  byte 'c' :: List.replicate 24 0 ++ [byte 's',0,0,0,0] ++ consts ++
    [byte ')',0,byte ')',0,byte ')',0,byte ')',0,byte 'z',0,byte 'z',0,0,0,0,0,
      byte 's',0,0,0,0]

mutual

def Value.test : Value → Value → Bool
  | .node ℓ vs, .node ℓ' ws => decide (ℓ = ℓ') && Value.testList vs ws

def Value.testList : List Value → List Value → Bool
  | [], [] => true
  | v::vs, w::ws => v.test w && Value.testList vs ws
  | _, _ => false

end

mutual

theorem Value.same_of_test (v w:Value) (h:v.test w=true) : Same Label.Stored v w:=by
  match v, w with
  | .node ℓ vs, .node ℓ' ws=>
    rw [Value.test,Bool.and_eq_true,decide_eq_true_iff] at h
    obtain ⟨rfl,hparts⟩:=h
    have hall:=Value.forall₂_of_testList vs ws hparts
    exact .node (.refl ℓ) (Or.inl rfl) hall.length_eq (getElem?_of_forall₂ hall)

theorem Value.forall₂_of_testList (vs ws:List Value) (h:Value.testList vs ws=true) :
    List.Forall₂ (Same Label.Stored) vs ws:=by
  match vs, ws with
  | [], []=>exact .nil
  | v::vs, w::ws=>
    rw [Value.testList,Bool.and_eq_true] at h
    exact .cons (Value.same_of_test v w h.1) (Value.forall₂_of_testList vs ws h.2)
  | [], _::_=>exact absurd h (by simp [Value.testList])
  | _::_, []=>exact absurd h (by simp [Value.testList])

end

theorem hash_canonical {sha:Bytes→Bytes} {fuel:ℕ} {d:Bytes} {version:ℤ} {out:Semantic}
    (h:semanticHash sha fuel d version=some out) (hvalid:out.valid=true) :
    ∃c,Canonical d version c ∧ out.sha256=sha c:=by
  obtain ⟨root,r,c,hcode,hc,rfl⟩:=semanticHash_valid h hvalid
  refine ⟨c,⟨fuel,?_⟩,rfl⟩
  rw [canonicalBytes,hcode]
  exact hc

/-- The objects `i` and `j` have related labels, and parts that are related, in some order where
they have none. -/
def Alike (E : Label→Label→Prop) (R : Option ℕ→Option ℕ→Prop) (h h' : Heap) (i j : ℕ) : Prop :=
  ∃ (n n' : Node) (ℓ ℓ' : Label) (parts parts' qs : List (Option ℕ)),
    h[i]? = some n ∧ h'[j]? = some n' ∧ n.shape=some (ℓ,parts) ∧ n'.shape=some (ℓ',parts') ∧
      E ℓ ℓ' ∧ (qs=parts' ∨ (ℓ.unordered=true ∧ qs.Perm parts')) ∧ List.Forall₂ R parts qs

/-- The same graph of objects up to sharing: a relation between objects that goes over to
their parts. -/
def SameGraph (E : Label→Label→Prop) (h h' : Heap) (x x' : Option ℕ) : Prop :=
  ∃ R : Option ℕ → Option ℕ → Prop, R x x' ∧ ∀ a b, R a b → (a=none ∧ b=none) ∨
    ∃ i j, a = some i ∧ b = some j ∧ Alike E R h h' i j

/-- The value refers to no open object. -/
inductive Value.Closed : Value → Prop
  | node {ℓ : Label} {vs : List Value} :
      (∀ level, ℓ ≠ .enclosing level) → (∀ v∈vs, Value.Closed v) → Value.Closed (.node ℓ vs)

/-- Digits of fifteen bits, the lowest first. -/
def digits15 : Bytes → ℕ
  | a :: b::rest => a.toNat+256*b.toNat + 2^15 * digits15 rest
  | _ => 0

/-- The number that is stored in four bytes, in eight bytes or in digits. -/
def integerValue (k : K) (iv : ℤ) (blob : Bytes) : ℤ :=
  match k with
  | .long => if iv < 0 then -(digits15 blob) else digits15 blob
  | _ =>
    if blob = [] then iv
    else if littleEndian blob < 2^63 then littleEndian blob
    else (littleEndian blob : ℤ)-2^64

inductive Content (V : Type)
  | integer (v : ℤ)
  | number (k : K) (v : V)
  | other (ℓ : Label)
  deriving DecidableEq

def Label.content {V : Type} (val : Bytes→List Bytes→V) : Label → Content V
  | .integer k iv blob => .integer (integerValue k iv blob)
  | .payload k blob texts =>
    if k = .float ∨ k = .complex then .number k (val blob texts)
    else .other (.payload k blob texts)
  | ℓ => .other ℓ

def SameContent {V : Type} (val : Bytes→List Bytes→V) (ℓ ℓ' : Label) : Prop :=
  ℓ.content val = ℓ'.content val

instance {V : Type} [DecidableEq V] (val : Bytes→List Bytes→V) : DecidableRel (SameContent val) :=
  fun ℓ ℓ' => inferInstanceAs (Decidable (ℓ.content val = ℓ'.content val))

/-- The label that is reached through ordered parts. -/
def Value.labelAt : List ℕ → Value → Option Label
  | [], .node ℓ _ => some ℓ
  | i::path, .node ℓ vs =>
    if ℓ.unordered then none else vs[i]?.bind (Value.labelAt path)

variable {E : Label→Label→Prop}

theorem Same.labelAt {path:List ℕ} {t t':Value} {ℓ ℓ' : Label} (h:Same E t t')
    (hℓ:t.labelAt path=some ℓ) (hℓ':t'.labelAt path=some ℓ') : E ℓ ℓ':=by
  induction path generalizing t t' with
  | nil=>
    cases h with
    | node hE=>
      rw [← some.inj hℓ,← some.inj hℓ']
      exact hE
  | cons i path ih=>
    cases h with
    | node hE horder hlen hparts=>
      rw [Value.labelAt] at hℓ hℓ'
      split_ifs at hℓ hℓ' with hset
      obtain ⟨v,hv,hpath⟩:=bind_eq_some_iff.mp hℓ
      obtain ⟨w,hw,hpath'⟩:=bind_eq_some_iff.mp hℓ'
      rcases horder with rfl | ⟨hset',-⟩
      · exact ih (hparts i v w hv hw) hpath hpath'
      · exact absurd hset' hset

/-- The digits of a text as a number. -/
def digitsValue (b : Bytes) : ℕ := b.foldl (fun n x => 10*n+(x.toNat-48)) 0

/-- A decimal text without sign and exponent. -/
def decimalValue (b : Bytes) : ℚ :=
  let whole := b.takeWhile (· ≠ byte '.')
  let fraction := (b.dropWhile (· ≠ byte '.')).drop 1
  (digitsValue (whole++fraction) : ℚ) / (10^fraction.length : ℕ)

/-- A finite positive number in eight bytes of binary floating point. -/
def doubleValue (b : Bytes) : ℚ :=
  let n := littleEndian b
  let exponent := n/2^52
  if exponent = 0 then (n : ℚ)/(2^1074 : ℕ)
  else ((n % 2^52 + 2^52 : ℕ) : ℚ)*(2^(exponent-1) : ℕ)/(2^1074 : ℕ)

def numberValue (blob : Bytes) (texts : List Bytes) : ℚ×ℚ :=
  match texts with
  | [] => (doubleValue (blob.take 8),doubleValue (blob.drop 8))
  | [x] => (decimalValue x,0)
  | x :: y::_ => (decimalValue x,decimalValue y)

def floatText : Bytes := bytes "1.500000"

/-- The finite part of the relation of `SameGraph`, tested. -/
def graphCheck (E : Label→Label→Prop) [DecidableRel E] (h h' : Heap) (R : List (ℕ×ℕ)) : Bool :=
  R.all fun p =>
    match h[p.1]?.bind Node.shape, h'[p.2]?.bind Node.shape with
    | some (ℓ,parts), some (ℓ',parts') =>
      decide (E ℓ ℓ') && parts.length = parts'.length &&
        (parts.zip parts').all fun q =>
          match q with
          | (some i,some j) => (i,j) ∈ R
          | _ => false
    | _, _ => false

theorem sameGraph_of_check [DecidableRel E] {h h':Heap} {R:List (ℕ×ℕ)}
    (hcheck:graphCheck E h h' R=true) {i j:ℕ} (hij:(i,j)∈R) :
    SameGraph E h h' (some i) (some j):=by
  refine ⟨fun a b=>∃p∈R,a=some p.1 ∧ b=some p.2,⟨(i,j),hij,rfl,rfl⟩,?_⟩
  rintro a b ⟨p,hp,rfl,rfl⟩
  right
  have hone:=all_eq_true.mp hcheck p hp
  refine ⟨p.1,p.2,rfl,rfl,?_⟩
  split at hone
  · next ℓ parts ℓ' parts' hs hs'=>
    obtain ⟨n,hn,hshape⟩:=bind_eq_some_iff.mp hs
    obtain ⟨n',hn',hshape'⟩:=bind_eq_some_iff.mp hs'
    rw [Bool.and_eq_true,Bool.and_eq_true,decide_eq_true_iff,decide_eq_true_iff] at hone
    obtain ⟨⟨hE,hlen⟩,hparts⟩:=hone
    refine ⟨n,n',ℓ,ℓ',parts,parts',parts',hn,hn',hshape,hshape',hE,Or.inl rfl,?_⟩
    rw [forall₂_iff_zip]
    refine ⟨hlen,fun {a b} hab=>?_⟩
    have hq:=all_eq_true.mp hparts (a,b) hab
    split at hq
    · next i j heq=>
      rw [Prod.mk.injEq] at heq
      exact ⟨(i,j),by simpa using hq,heq.1,heq.2⟩
    · simp at hq
  · simp at hone

/-- The hash is the same for the same graphs of objects with related labels. -/
def HashInvariant (E : Label→Label→Prop) : Prop :=
  ∀ (d d' : Bytes) (version version' : ℤ) (fuel fuel' root root' : ℕ) (r r' : Reader)
    (out out' : Semantic), readCode d version = .ok (root,r) →
      readCode d' version' = .ok (root',r') →
        SameGraph E r.heap r'.heap (some root) (some root') →
          semanticHash id fuel d version = some out → out.valid=true →
            semanticHash id fuel' d' version' = some out' → out'.valid=true →
              out.sha256 = out'.sha256

/-- The results of two streams, with a test that their graphs are the same. -/
theorem not_hashInvariant [DecidableRel E] (d d':Bytes) (version:ℤ) (R:List (ℕ×ℕ)) (fuel:ℕ)
    (hcheck:graphCheck E (parseRoot .source d (minorFromVersion version)).2.heap
      (parseRoot .source d' (minorFromVersion version)).2.heap R=true)
    (hroot:(parseRoot .source d (minorFromVersion version)).1=some 0)
    (hroot':(parseRoot .source d' (minorFromVersion version)).1=some 0) (hR:(0,0)∈R)
    (hvalid:(semanticHash id fuel d version).map Semantic.valid=some true)
    (hvalid':(semanticHash id fuel d' version).map Semantic.valid=some true)
    (hne:(semanticHash id fuel d version).map Semantic.sha256 ≠
      (semanticHash id fuel d' version).map Semantic.sha256) : ¬HashInvariant E:=by
  intro hinvariant
  obtain ⟨out,hout,hv⟩:=map_eq_some_iff.mp hvalid
  obtain ⟨out',hout',hv'⟩:=map_eq_some_iff.mp hvalid'
  obtain ⟨root,r,c,hcode,-,-⟩:=semanticHash_valid hout hv
  obtain ⟨root',r',c',hcode',-,-⟩:=semanticHash_valid hout' hv'
  have hparse:=(readCode_ok hcode).1
  have hparse':=(readCode_ok hcode').1
  rw [hparse,hparse'] at hcheck
  rw [hparse] at hroot
  rw [hparse'] at hroot'
  obtain rfl:=some.inj hroot
  obtain rfl:=some.inj hroot'
  rw [hout,hout'] at hne
  exact hne (congrArg some (hinvariant d d' version version fuel fuel 0 0 r r' out out' hcode hcode'
    (sameGraph_of_check hcheck hR) hout hv hout' hv'))

end AutoRefirst.PythonMarshal
