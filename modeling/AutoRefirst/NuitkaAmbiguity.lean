import AutoRefirst.NuitkaConstants

/-!
# Readings of Nuitka constant streams

What the decoder builds does not steer it. So a run that builds texts is a run that builds the
constants themselves, with the texts made afterwards.
-/

namespace AutoRefirst.NuitkaConstants
open List Option
open Nuitka (NuitkaConstantBlock)

/-- A constant as it stands in the stream. -/
inductive Constant where
  | leaf (l : Leaf)
  | again (c : Constant)
  | group (g : Group) (xs : List Constant)
  | dict (ks xs : List Constant)
  | code (c : CodeFields Constant)

/-- The builder that keeps everything. -/
def standing : Builder Constant where
  leaf := .leaf
  again := .again
  group := .group
  dict := .dict
  code := .code

variable {V W α β : Type}

def CodeFields.map (h : V→W) (c : CodeFields V) : CodeFields W :=
  ⟨c.flags,h c.name,c.line,h c.args,c.argCount,c.qualname.map h,c.freeVars.map h,c.kwOnly,
    c.posOnly⟩

mutual

def Constant.fold (b : Builder V) : Constant → V
  | .leaf l => b.leaf l
  | .again c => b.again (c.fold b)
  | .group g xs => b.group g (foldAll b xs)
  | .dict ks xs => b.dict (foldAll b ks) (foldAll b xs)
  | .code c => b.code (foldCode b c)

def foldAll (b : Builder V) : List Constant → List V
  | [] => []
  | x::xs => x.fold b :: foldAll b xs

def foldCode (b : Builder V) : CodeFields Constant → CodeFields V
  | ⟨flags,name,line,args,argCount,qualname,freeVars,kwOnly,posOnly⟩ =>
    ⟨flags,name.fold b,line,args.fold b,argCount,foldOption b qualname,
      foldOption b freeVars,kwOnly,posOnly⟩

def foldOption (b : Builder V) : Option Constant → Option V
  | none => none
  | some c => some (c.fold b)

end

theorem foldAll_eq (b:Builder V) (xs:List Constant) : foldAll b xs=xs.map (Constant.fold b):=by
  induction xs with
  | nil=>simp only [foldAll,map_nil]
  | cons x xs ih=>simp only [foldAll,map_cons,ih]

theorem foldOption_eq (b:Builder V) (x:Option Constant) :
    foldOption b x=x.map (Constant.fold b):=by
  cases x with
  | none=>simp only [foldOption,map_none]
  | some c=>simp only [foldOption,map_some]

theorem foldCode_eq (b:Builder V) (c:CodeFields Constant) :
    foldCode b c=c.map (Constant.fold b):=by
  cases c
  simp only [foldCode,CodeFields.map,foldOption_eq]

def ConstReader.map (h : V→W) (r : ConstReader V) : ConstReader W where
  cursor := r.cursor
  codeObjects := r.codeObjects.map (CodeFields.map h)

/-- The second run does what the first does, on what `h` makes of it. -/
def Carries (h : V→W) (g : α→β) (m : Decode V α) (m' : Decode W β) : Prop :=
  ∀ r, m' (r.map h) = ((m r).1.map g,(m r).2.map h)

variable {h : V→W} {g : α→β}

theorem Carries.pure {a:α} {b:β} (hab:g a=b) :
    Carries h g (Pure.pure a) (Pure.pure b):=fun r=>by
  show (some b,r.map h) = (some (g a),r.map h)
  rw [hab]

variable {m : Decode V α} {m' : Decode W β}

theorem Carries.bind {γ δ:Type} {g':γ→δ} {k:α→Decode V γ} {k':β→Decode W δ}
    (hm:Carries h g m m') (hk:∀a,Carries h g' (k a) (k' (g a))) :
    Carries h g' (m >>= k) (m' >>= k'):=by
  intro r
  show Attempt.next k' (m' (r.map h)) =
    ((Attempt.next k (m r)).1.map g',(Attempt.next k (m r)).2.map h)
  rw [hm r]
  rcases m r with ⟨_ | a,r₁⟩
  · rfl
  · exact hk a r₁

theorem Carries.ite {c:Prop} [Decidable c] {n:Decode V α} {n':Decode W β}
    (hm:Carries h g m m') (hn:Carries h g n n') :
    Carries h g (if c then m else n) (if c then m' else n'):=by
  split
  · exact hm
  · exact hn

/-- A step on the bytes alone. -/
theorem Carries.lift (m:Read α) : Carries h id (lift m:Decode V α) (NuitkaConstants.lift m):=by
  intro r
  show ((m r.cursor).1,_) = ((m r.cursor).1.map id,_)
  rw [Option.map_id]
  rfl

theorem Carries.refused (msg:String) :
    Carries h g (NuitkaConstants.lift (fail msg) : Decode V α) (NuitkaConstants.lift (fail msg)):=
  fun _=>rfl

theorem Carries.whenSet (c:Bool) (hm:Carries h g m m') :
    Carries h (Option.map g) (whenSet c m) (whenSet c m'):=by
  apply Carries.ite
  · exact hm.bind fun a=>Carries.pure rfl
  · exact Carries.pure rfl

theorem Carries.countWhenSet (c:Bool) :
    Carries h id (countWhenSet c:Decode V ℕ) (NuitkaConstants.countWhenSet c):=by
  apply ((Carries.lift var).whenSet c).bind
  intro n
  rw [Option.map_id]
  exact Carries.pure rfl

/-- Values are read the same way. -/
abbrev CarriesValue (h : V→W) (value : Option V→Decode V V) (value' : Option W→Decode W W) :
    Prop := ∀ v, Carries h h (value v) (value' (v.map h))

variable {value : Option V→Decode V V} {value' : Option W→Decode W W}

theorem Carries.seqFrom (hv:CarriesValue h value value') (n:ℕ) (previous:Option V) :
    Carries h (List.map h) (seqFrom value n previous)
      (NuitkaConstants.seqFrom value' n (previous.map h)):=by
  induction n generalizing previous with
  | zero=>exact Carries.pure rfl
  | succ n ih=>
    apply (hv previous).bind
    intro v
    apply (ih (some v)).bind
    intro vs
    exact Carries.pure rfl

theorem Carries.decodeSeq (hv:CarriesValue h value value') (n:ℕ) :
    Carries h (List.map h) (decodeSeq value n) (NuitkaConstants.decodeSeq value' n):=by
  apply Carries.ite
  · exact Carries.refused _
  · exact Carries.seqFrom hv n none

theorem Carries.codeFields (hv:CarriesValue h value value') (flags:ℕ) :
    Carries h (CodeFields.map h) (codeFields value flags)
      (NuitkaConstants.codeFields value' flags):=by
  apply (hv none).bind
  intro name
  apply (Carries.lift var).bind
  intro line
  apply (hv none).bind
  intro args
  apply (Carries.lift var).bind
  intro argCount
  apply ((hv none).whenSet _).bind
  intro qualname
  apply ((hv none).whenSet _).bind
  intro freeVars
  apply (Carries.countWhenSet _).bind
  intro kwOnly
  apply (Carries.countWhenSet _).bind
  intro posOnly
  exact Carries.pure rfl

theorem Carries.pushCode (c:CodeFields V) :
    Carries h id (pushCode c) (NuitkaConstants.pushCode (c.map h)):=by
  intro r
  simp only [NuitkaConstants.pushCode,ConstReader.map,map_append,map_cons,map_nil, map_some,id]

/-- `h` takes what the first builder makes to what the second makes. -/
structure Hom (h : V→W) (b : Builder V) (b' : Builder W) : Prop where
  leaf : ∀ l, h (b.leaf l) = b'.leaf l
  again : ∀ v, h (b.again v) = b'.again (h v)
  group : ∀ g xs, h (b.group g xs) = b'.group g (xs.map h)
  dict : ∀ ks xs, h (b.dict ks xs) = b'.dict (ks.map h) (xs.map h)
  code : ∀ c, h (b.code c) = b'.code (c.map h)

theorem fold_hom (b:Builder V) : Hom (Constant.fold b) standing b where
  leaf _:=rfl
  again _:=rfl
  group g xs:=by rw [← foldAll_eq];rfl
  dict ks xs:=by rw [← foldAll_eq,← foldAll_eq];rfl
  code c:=by rw [← foldCode_eq];rfl

variable {b : Builder V} {b' : Builder W}

theorem Carries.decodeCode (hb:Hom h b b') (hv:CarriesValue h value value') (deep:Bool) :
    Carries h h (decodeCode b deep value) (NuitkaConstants.decodeCode b' deep value'):=by
  apply (Carries.lift legacy).bind
  intro old
  apply Carries.ite
  · exact Carries.refused _
  apply Carries.ite
  · exact Carries.refused _
  apply (Carries.lift var).bind
  intro flags
  apply (Carries.lift (clean ())).bind
  intro _
  apply (Carries.codeFields hv flags).bind
  intro c
  apply (Carries.lift (clean ())).bind
  intro _
  apply (Carries.pushCode c).bind
  intro _
  exact Carries.pure (hb.code c)

theorem Carries.decodeDict (hb:Hom h b b') (hv:CarriesValue h value value') :
    Carries h h (decodeDict b value) (NuitkaConstants.decodeDict b' value'):=by
  apply (Carries.lift sizeValue).bind
  intro n
  apply (Carries.decodeSeq hv n).bind
  intro ks
  apply (Carries.decodeSeq hv n).bind
  intro xs
  exact Carries.pure (hb.dict ks xs)

theorem Carries.decodeTagged (hb:Hom h b b') (hv:CarriesValue h value value') (deep:Bool)
    (tag:UInt8) :
    Carries h h (decodeTagged b deep value tag) (NuitkaConstants.decodeTagged b' deep value' tag):=by
  apply (Carries.lift legacy).bind
  intro old
  cases sizedGroup tag with
  | some g=>
    apply (Carries.lift sizeValue).bind
    intro n
    apply (Carries.decodeSeq hv n).bind
    intro xs
    exact Carries.pure (hb.group g xs)
  | none=>
    dsimp only [id]
    rcases fixedGroup old tag with _ | ⟨g,n⟩
    · apply Carries.ite
      · exact Carries.decodeDict hb hv
      apply Carries.ite
      · exact Carries.decodeCode hb hv deep
      apply (Carries.lift (decodeLeaf tag)).bind
      intro l
      exact Carries.pure (hb.leaf l)
    · apply (Carries.decodeSeq hv n).bind
      intro xs
      exact Carries.pure (hb.group g xs)

theorem Carries.decodeValue (hb:Hom h b b') (k:ℕ) :
    CarriesValue h (decodeValue b k) (NuitkaConstants.decodeValue b' k):=by
  induction k with
  | zero=>exact fun _=>Carries.refused _
  | succ k ih=>
    intro previous
    apply (Carries.lift byte).bind
    intro tag
    apply (Carries.lift (clean ())).bind
    intro _
    apply Carries.ite
    · cases previous with
      | none=>exact Carries.refused _
      | some v=>exact Carries.pure (hb.again v)
    · exact Carries.decodeTagged hb ih _ tag

/-- A run over a block builds what `h` makes of what the other builds. -/
theorem Carries.decodeBlock (hb:Hom h b b') :
    Carries h (Prod.map id (List.map h)) (decodeBlock b) (NuitkaConstants.decodeBlock b'):=by
  apply (Carries.lift word).bind
  intro n
  apply (Carries.decodeSeq (Carries.decodeValue hb 129) n).bind
  intro vals
  apply (Carries.lift endTag).bind
  intro _
  exact Carries.pure rfl

end AutoRefirst.NuitkaConstants

/-!
## Ambiguous Nuitka constant blocks

A block may be read to its end in more than one encoding. The readings are compared by their
texts, and texts are cut short: what is told apart is what looks different.
-/

namespace AutoRefirst.NuitkaConstants
open List Option
open Nuitka (NuitkaConstantBlock)

/-- A whole block as one encoding reads it, nothing left out. -/
structure Reading where
  constants : List Constant
  stringValues : List Bytes
  codeObjects : List (CodeFields Constant)

def reading (all : Bytes) (b : NuitkaConstantBlock) (e : ConstEncoding) : Option Reading :=
  match blockBytes all b with
  | none => none
  | some d =>
    if d.length < 3 then none
    else
      match decodeBlock standing (startOf d e) with
      | (none,_) => none
      | (some (_,cs),r) => some ⟨cs,r.cursor.stringValues,r.codeObjects⟩

def Leaf.value : Leaf → Leaf
  | .natural neg n => .signed (if neg then -n else n)
  | .empty => .text []
  | l => l

/-- The values: a repeat is what it repeats, and an integer is one however it is written. -/
def values : Builder Constant where
  leaf l := .leaf l.value
  again c := c
  group := .group
  dict := .dict
  code := .code

/-- The complete values of a reading, code objects among them. -/
def Reading.values (x : Reading) : List Constant := foldAll NuitkaConstants.values x.constants

/-- What the readings are compared by. -/
structure Looks where
  (texts stringValues : List Bytes)
  codeObjects : List NuitkaCodeObjectInfo

def Reading.looks (fmt : DoubleFormat) (x : Reading) : Looks where
  texts := keptTexts ((foldAll (rendering fmt) x.constants).map (·.repr))
  stringValues := x.stringValues
  codeObjects := x.codeObjects.map fun c => codeInfo (foldCode (rendering fmt) c)

variable {fmt : DoubleFormat} {all : Bytes} {b : NuitkaConstantBlock}

def Unanimous (all : Bytes) (b : NuitkaConstantBlock) : Prop :=
  ∀ e e' x x', reading all b e = some x → reading all b e' = some x' → x.values=x'.values

/-- A block is decoded only when its values are beyond doubt, and is reported as ambiguous when
two encodings read different values. -/
def Detected (fmt : DoubleFormat) (all : Bytes) (b : NuitkaConstantBlock) : Prop :=
  ((decodeConstantBlock fmt all b).success=true → Unanimous all b) ∧
    (¬Unanimous all b → (decodeConstantBlock fmt all b).success=false ∧
      (decodeConstantBlock fmt all b).error = "constant stream encoding profile ambiguous")

/-- Readings of different values do not all look alike. -/
def ToldApart (fmt : DoubleFormat) (all : Bytes) (b : NuitkaConstantBlock) : Prop :=
  ¬Unanimous all b → ∃ e e' x x', reading all b e = some x ∧ reading all b e' = some x' ∧
    x.looks fmt ≠ x'.looks fmt

theorem rendering_run (d:Bytes) (e:ConstEncoding) : decodeBlock (rendering fmt) (startOf d e) =
      ((decodeBlock standing (startOf d e)).1.map
          (Prod.map id (List.map (Constant.fold (rendering fmt)))),
        (decodeBlock standing (startOf d e)).2.map (Constant.fold (rendering fmt))):=
  Carries.decodeBlock (fold_hom (rendering fmt)) (startOf d e)

variable {e : ConstEncoding}

theorem profile_none (h:reading all b e=none) :
    (decodeConstantBlockProfile fmt all b e).success=false:=by
  unfold reading at h
  unfold decodeConstantBlockProfile
  cases hbytes : blockBytes all b with
  | none=>rfl
  | some d=>
    rw [hbytes] at h
    dsimp only at h ⊢
    split
    case isTrue=>rfl
    case isFalse hlength=>
      rw [if_neg hlength] at h
      rw [rendering_run]
      rcases hrun : decodeBlock standing (startOf d e) with ⟨_ | ⟨n,cs⟩,r⟩
      · rfl
      · rw [hrun] at h
        cases h

structure Reports (fmt : DoubleFormat) (x : Reading) (o : NuitkaDecodedBlock) : Prop where
  success : o.success=true
  looks : x.looks fmt = ⟨o.values,o.stringValues,o.codeObjects⟩

theorem profile_some {x:Reading} (h:reading all b e=some x) :
    Reports fmt x (decodeConstantBlockProfile fmt all b e) ∧
      (decodeConstantBlockProfile fmt all b e).declaredCount =
        littleEndian (((blockBytes all b).getD []).take 2):=by
  unfold reading at h
  unfold decodeConstantBlockProfile
  cases hbytes : blockBytes all b with
  | none=>
    rw [hbytes] at h
    cases h
  | some d=>
    rw [hbytes] at h
    dsimp only at h ⊢
    split at h
    case isTrue=>cases h
    case isFalse hlength=>
      rw [if_neg hlength,rendering_run]
      rcases hrun : decodeBlock standing (startOf d e) with ⟨_ | ⟨n,cs⟩,r⟩
      · rw [hrun] at h
        cases h
      · rw [hrun] at h
        obtain rfl:=some.inj h
        refine ⟨⟨rfl,?_⟩,rfl⟩
        simp only [Reading.looks,map_some,Prod.map,id,foldAll_eq,ConstReader.map,
          List.map_map,Looks.mk.injEq,true_and]
        refine ⟨rfl,?_⟩
        apply map_congr_left
        intro c _
        rw [foldCode_eq]
        rfl

theorem profile_success :
    (decodeConstantBlockProfile fmt all b e).success=true ↔ ∃x,reading all b e=some x:=by
  cases h : reading all b e with
  | none=>simp [profile_none h]
  | some x=>simp [(@profile_some fmt _ _ _ _ h).1.success]

/-- Two reports agree when the readings look alike. -/
theorem same_iff {e':ConstEncoding} {x x':Reading} (h:reading all b e=some x)
    (h':reading all b e'=some x') :
    sameDecodedSemantics (decodeConstantBlockProfile fmt all b e)
      (decodeConstantBlockProfile fmt all b e')=true ↔ x.looks fmt=x'.looks fmt:=by
  obtain ⟨hx,hcount⟩:=@profile_some fmt _ _ _ _ h
  obtain ⟨hx',hcount'⟩:=@profile_some fmt _ _ _ _ h'
  rw [hx.looks,hx'.looks]
  simp only [sameDecodedSemantics,hcount,hcount',decide_true,Bool.true_and,Bool.and_eq_true,
    decide_eq_true_eq,Looks.mk.injEq,and_assoc]

theorem furthest_success (best:NuitkaDecodedBlock) (xs:List NuitkaDecodedBlock)
    (hbest:best.success=false) (h:∀x∈xs,x.success=false) :
    (furthest best xs).success=false:=by
  induction xs generalizing best with
  | nil=>exact hbest
  | cons x xs ih=>
    apply ih
    · split
      · exact h x mem_cons_self
      · exact hbest
    · exact fun y hy=>h y (mem_cons_of_mem _ hy)

theorem mem_encodings (e:ConstEncoding) : e∈encodings:=by
  cases e
  all_goals decide

def AllAlike (fmt : DoubleFormat) (all : Bytes) (b : NuitkaConstantBlock) : Prop :=
  ∀ e e' x x', reading all b e = some x → reading all b e' = some x' → x.looks fmt = x'.looks fmt

/-- Without a reading the block fails; with readings that look alike it is decoded, and else it
is ambiguous. -/
theorem decode_cases (fmt:DoubleFormat) (all:Bytes) (b:NuitkaConstantBlock) :
    ((∀e,reading all b e=none) ∧ (decodeConstantBlock fmt all b).success=false) ∨
      ((∃e x,reading all b e=some x) ∧ AllAlike fmt all b ∧
        (decodeConstantBlock fmt all b).success=true) ∨
      (¬AllAlike fmt all b ∧ (decodeConstantBlock fmt all b).success=false ∧
        (decodeConstantBlock fmt all b).error = "constant stream encoding profile ambiguous"):=by
  have hlist : ([decodeConstantBlockProfile fmt all b .varint,
      decodeConstantBlockProfile fmt all b .legacyLong64,
      decodeConstantBlockProfile fmt all b .legacyLong32].filter (·.success)) =
      (encodings.filter fun e=>(decodeConstantBlockProfile fmt all b e).success).map
        (decodeConstantBlockProfile fmt all b):=by
    show (encodings.map (decodeConstantBlockProfile fmt all b)).filter (·.success) = _
    rw [List.filter_map]
    rfl
  unfold decodeConstantBlock
  dsimp only
  rw [hlist]
  have hmem : ∀e,e∈encodings.filter (fun e=>(decodeConstantBlockProfile fmt all b e).success) ↔
      ∃x,reading all b e=some x:=by
    intro e
    rw [mem_filter,and_iff_right (mem_encodings e),profile_success]
  cases hes : encodings.filter (fun e=>(decodeConstantBlockProfile fmt all b e).success) with
  | nil=>
    refine Or.inl ⟨fun e=>?_,?_⟩
    · cases hx : reading all b e with
      | none=>rfl
      | some x=>exact absurd ((hmem e).mpr ⟨x,hx⟩) (by rw [hes];exact not_mem_nil)
    · have hfail : ∀e,(decodeConstantBlockProfile fmt all b e).success=false:=by
        intro e
        rw [Bool.eq_false_iff]
        intro h
        exact absurd ((hmem e).mpr (profile_success.mp h)) (by rw [hes];exact not_mem_nil)
      apply furthest_success
      · exact hfail _
      · simp [hfail]
  | cons e es=>
    obtain ⟨x,hx⟩:=(hmem e).mp (by rw [hes];exact mem_cons_self)
    right
    have hall : (es.map (decodeConstantBlockProfile fmt all b)).all
        (sameDecodedSemantics (decodeConstantBlockProfile fmt all b e))=true ↔
          AllAlike fmt all b:=by
      rw [List.all_eq_true]
      constructor
      · intro h
        have hfirst : ∀e' x',reading all b e'=some x' → x.looks fmt=x'.looks fmt:=by
          intro e' x' hx'
          have hmem':=(hmem e').mpr ⟨x',hx'⟩
          rw [hes] at hmem'
          rcases mem_cons.mp hmem' with rfl | hmem'
          · rw [some.inj (hx.symm.trans hx')]
          · exact (same_iff hx hx').mp (h _ (mem_map_of_mem hmem'))
        intro e₁ e₂ x₁ x₂ h₁ h₂
        rw [← hfirst e₁ x₁ h₁,hfirst e₂ x₂ h₂]
      · intro h o ho
        obtain ⟨e',he',rfl⟩:=mem_map.mp ho
        obtain ⟨x',hx'⟩:=(hmem e').mp (by rw [hes];exact mem_cons_of_mem _ he')
        exact (same_iff hx hx').mpr (h e e' x x' hx hx')
    show _ ∨ _
    rw [map_cons]
    dsimp only
    split
    case isTrue h=>
      exact Or.inl ⟨⟨e,x,hx⟩,hall.mp h,(profile_some hx).1.success⟩
    case isFalse h=>exact Or.inr ⟨fun h'=>h (hall.mpr h'),rfl,rfl⟩

/-- Ambiguity is detected just when readings of different values do not all look alike. -/
theorem ambiguity_detected_iff (fmt : DoubleFormat) (all : Bytes) (b : NuitkaConstantBlock) :
    Detected fmt all b ↔ ToldApart fmt all b := by
  have halike : ¬AllAlike fmt all b ↔ ∃e e' x x',reading all b e=some x ∧
      reading all b e'=some x' ∧ x.looks fmt≠x'.looks fmt:=by
    unfold AllAlike
    push Not
    rfl
  unfold Detected ToldApart
  rw [← halike]
  rcases decode_cases fmt all b with ⟨hnone,hfail⟩ | ⟨⟨e,x,hx⟩,hsame,hok⟩ | ⟨hdiff,hfail,herror⟩
  · have hun : Unanimous all b:=by
      intro e e' x x' hx
      rw [hnone e] at hx
      cases hx
    simp [hun]
  · rw [hok]
    constructor
    · exact fun h hnot=>absurd (h.1 rfl) hnot
    · exact fun h=>⟨fun _=>by_contra fun hnot=>h hnot hsame,fun hnot=>absurd hsame (h hnot)⟩
  · rw [hfail,herror]
    exact ⟨fun _ _=>hdiff,fun _=>⟨nofun,fun _=>⟨rfl,rfl⟩⟩⟩

def wholeBlock (d : Bytes) : NuitkaConstantBlock := {name:=[],size:=d.length}

/-- A number of `n + 1` digits to the base 128. -/
def longVar (n : ℕ) : Bytes := List.replicate n 0x80 ++ [1]

/-- One integer of 43 parts: in digits to the base 128, or in parts of 8 bytes after a sign. -/
def twoBigints : Bytes :=
  [1,0,0x67,0x2b,0x2b,0,0,0] ++ (List.replicate 32 (longVar 8)).flatten ++
    (List.replicate 7 (longVar 7)).flatten ++ [0x2e]

def partsOf : Constant → List ℕ
  | .leaf (.bigint _ parts) => parts
  | _ => []

def noDoubles : DoubleFormat := ⟨fun _ => [],fun _ _ => []⟩

set_option maxRecDepth 4000 in
/-- Both readings are written as `bigint[43 parts]`, and the block is decoded. -/
theorem bigints_confused : ¬Detected noDoubles twoBigints (wholeBlock twoBigints):=by
  intro h
  have hsuccess : (decodeConstantBlock noDoubles twoBigints (wholeBlock twoBigints)).success=true:=by
    decide +kernel
  have hfirst : ∀e n,((reading twoBigints (wholeBlock twoBigints) e).map fun x=>
      (x.values.flatMap partsOf).head?)=some (some n) →
        ∃x,reading twoBigints (wholeBlock twoBigints) e=some x ∧
          (x.values.flatMap partsOf).head? = some n:=fun e n hn=>map_eq_some_iff.mp hn
  obtain ⟨x,hx,hfx⟩:=hfirst .varint 43 (by decide +kernel)
  obtain ⟨y,hy,hfy⟩:=hfirst .legacyLong64 0x8080808080808080 (by decide +kernel)
  rw [h.1 hsuccess _ _ x y hx hy,hfy] at hfx
  exact absurd hfx (by decide)

end AutoRefirst.NuitkaConstants
