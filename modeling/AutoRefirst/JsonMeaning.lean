import AutoRefirst.AsarJson
import AutoRefirst.JsonText
import Mathlib.Data.List.DropRight

/-!
# What a JSON text means

The JSON grammar with values: which text is read as which value, how deep the values lie and
how many there are. Both readers are the same partial function, and it is this one.
-/

namespace AutoRefirst.JsonMeaning
open List

open CPythonIntrospection (J JP ValueReader isWs isDigit hex hex4 utf8 simpleEscape isHigh isLow
  strBody digits sign exponentSign integerPart fractionPart exponentPart numberRest members elements
  objectBody arrayBody atom value root)
open JsonText Fallible

/-- The text between the quotes of a string, and the string. A surrogate stands in a pair. -/
inductive Chars : Bytes → Bytes → Prop
  | nil : Chars [] []
  | plain {b : UInt8} {t u : Bytes} (hb : Plain b) (h : Chars t u) : Chars (b::t) (b::u)
  | escape {e c : UInt8} {t u : Bytes} (he : escaped e = some c) (h : Chars t u) :
    Chars (byte '\\' :: e::t) (c::u)
  | unicode {a b c d : UInt8} {n : ℕ} {t u : Bytes} (hn : codeUnit a b c d = some n)
    (hs : n<0xd800 ∨ 0xe000≤n) (h : Chars t u) :
    Chars (byte '\\' :: byte 'u' :: a :: b :: c :: d::t) (utf8Of n ++ u)
  | pair {a b c d a' b' c' d' : UInt8} {high low : ℕ} {t u : Bytes}
    (hhigh : codeUnit a b c d = some high) (hh : 0xd800≤high ∧ high<0xdc00)
    (hlow : codeUnit a' b' c' d' = some low) (hl : 0xdc00≤low ∧ low<0xe000)
    (h : Chars t u) :
    Chars (byte '\\' :: byte 'u' :: a :: b :: c :: d ::
        byte '\\' :: byte 'u' :: a' :: b' :: c' :: d'::t)
      (utf8Of (0x10000+(high-0xd800)*0x400+(low-0xdc00)) ++ u)

theorem hex_eq (c:UInt8) : hex c=hexValue c:=by
  unfold hex hexValue
  have h0 : byte '0' = 0x30:=rfl
  have h9 : byte '9' = 0x39:=rfl
  have ha : byte 'a' = 0x61:=rfl
  have hf : byte 'f' = 0x66:=rfl
  have hA : byte 'A' = 0x41:=rfl
  have hF : byte 'F' = 0x46:=rfl
  simp only [h0,h9,ha,hf,hA,hF,Bool.and_eq_true,decide_eq_true_eq]
  split
  · rfl
  · split
    · rename_i h
      have hle:=UInt8.le_iff_toNat_le.mp h.1
      congr 1
      change 0x61 ≤ c.toNat at hle
      omega
    · split
      · rename_i h
        have hle:=UInt8.le_iff_toNat_le.mp h.1
        congr 1
        change 0x41 ≤ c.toNat at hle
        omega
      · rfl

theorem hex4_eq (a b c d:UInt8) : hex4 a b c d=codeUnit a b c d:=by
  simp only [hex4,codeUnit,hex_eq]

theorem utf8_eq (n:ℕ) : utf8 n=utf8Of n:=by
  unfold utf8 utf8Of
  simp only [← Nat.lt_succ_iff]

theorem simpleEscape_eq (e:UInt8) : simpleEscape e=escaped e:=by
  unfold simpleEscape
  split_ifs with h₁ h₂ h₃ h₄ h₅ h₆ h₇ h₈
  · rw [h₁];rfl
  · rw [h₂];rfl
  · rw [h₃];rfl
  · rw [h₄];rfl
  · rw [h₅];rfl
  · rw [h₆];rfl
  · rw [h₇];rfl
  · rw [h₈];rfl
  · simp only [escaped,lookup_cons,lookup_nil,beq_eq_false_iff_ne.mpr h₁,beq_eq_false_iff_ne.mpr h₂,
      beq_eq_false_iff_ne.mpr h₃,beq_eq_false_iff_ne.mpr h₄,beq_eq_false_iff_ne.mpr h₅,
      beq_eq_false_iff_ne.mpr h₆,beq_eq_false_iff_ne.mpr h₇,beq_eq_false_iff_ne.mpr h₈]

variable {n : ℕ}

theorem isHigh_iff : isHigh n=true ↔ 0xd800≤n ∧ n<0xdc00:=by
  simp only [isHigh,Bool.and_eq_true,decide_eq_true_eq]
  omega

theorem isLow_iff : isLow n=true ↔ 0xdc00≤n ∧ n<0xe000:=by
  simp only [isLow,Bool.and_eq_true,decide_eq_true_eq]
  omega

variable {b : UInt8}

theorem strBody_plain (hb:Plain b) (o s:Bytes) : strBody o (b::s)=strBody (o++[b]) s:=by
  rw [CPythonIntrospection.strBody.eq_def]
  simp [hb.2.1,hb.2.2,UInt8.not_lt.mpr hb.1]

variable {c : UInt8}

theorem strBody_escape {e:UInt8} (hc:escaped e=some c) (o s:Bytes) :
    strBody o (byte '\\' :: e::s) = strBody (o++[c]) s:=by
  have hu : e≠byte 'u' := by
    rintro rfl
    have hnone : escaped (byte 'u') = none:=by decide
    rw [hnone] at hc
    cases hc
  have hslash : byte '\\' ≠ byte '"' ∧ ¬byte '\\' < 0x20:=by decide
  rw [CPythonIntrospection.strBody.eq_def]
  simp [hslash,hu,simpleEscape_eq,hc]

theorem strBody_unicode {a d:UInt8} (hn:codeUnit a b c d=some n)
    (hs:n<0xd800 ∨ 0xe000≤n) (o s:Bytes) :
    strBody o (byte '\\' :: byte 'u' :: a::b::c::d::s) = strBody (o++utf8Of n) s:=by
  have hhigh : ¬isHigh n = true:=fun h=>by
    have:=isHigh_iff.mp h
    omega
  have hlow : ¬isLow n = true:=fun h=>by
    have:=isLow_iff.mp h
    omega
  have hslash : byte '\\' ≠ byte '"' ∧ ¬byte '\\' < 0x20:=by decide
  rw [CPythonIntrospection.strBody.eq_def]
  simp [hslash,hex4_eq,hn,hhigh,hlow,utf8_eq]

theorem strBody_pair {a d a' b' c' d':UInt8} {high low:ℕ} (hhigh:codeUnit a b c d=some high)
    (hh:0xd800≤high ∧ high<0xdc00) (hlow:codeUnit a' b' c' d'=some low)
    (hl:0xdc00≤low ∧ low<0xe000) (o s:Bytes) :
    strBody o (byte '\\' :: byte 'u' :: a::b::c::d :: byte '\\' :: byte 'u' :: a'::b'::c'::d'::s) =
      strBody (o++utf8Of (0x10000+(high-0xd800)*0x400+(low-0xdc00))) s:=by
  have hslash : byte '\\' ≠ byte '"' ∧ ¬byte '\\' < 0x20:=by decide
  rw [CPythonIntrospection.strBody.eq_def]
  simp [hslash,hex4_eq,hhigh,hlow,isHigh_iff.mpr hh,isLow_iff.mpr hl,utf8_eq]

variable {t u rest : Bytes}

theorem strBody_complete (h:Chars t u) (o:Bytes) :
    strBody o (t++byte '"' :: rest) = .ok (o++u,rest):=by
  induction h generalizing o with
  | nil=>
    rw [nil_append,CPythonIntrospection.strBody.eq_def]
    simp
  | plain hb _ ih=>
    rw [cons_append,strBody_plain hb,ih]
    simp
  | escape he _ ih=>
    rw [cons_append,cons_append,strBody_escape he,ih]
    simp
  | unicode hn hs _ ih=>
    simp only [cons_append]
    rw [strBody_unicode hn hs,ih]
    simp
  | pair hhigh hh hlow hl _ ih=>
    simp only [cons_append]
    rw [strBody_pair hhigh hh hlow hl,ih]
    simp

variable {s : Bytes}

theorem strBody_sound {o v:Bytes} (h:strBody o s=.ok (v,rest)) :
    ∃t u,s=t++byte '"' :: rest ∧ v=o++u ∧ Chars t u:=by
  fun_induction strBody o s
  all_goals try (cases h;done)
  case case2=>
    cases h
    exact ⟨[],[],rfl,by simp,.nil⟩
  case case4 hquote hctl hslash ih=>
    obtain ⟨t,u,rfl,rfl,ht⟩:=ih h
    exact ⟨_,_,rfl,by simp,.plain ⟨UInt8.not_lt.mp hctl,hquote,hslash⟩ ht⟩
  case case9 hslash a b c d high hhigh hh s₁ u₁ hmark a' b' c' d' _ low hlow hl ih=>
    obtain ⟨t,u,rfl,rfl,ht⟩:=ih h
    rw [not_or,not_not,not_not] at hmark
    obtain ⟨rfl,rfl⟩:=hmark
    obtain rfl:=not_not.mp hslash
    rw [hex4_eq] at hhigh hlow
    refine ⟨_,_,?_,?_,.pair hhigh (isHigh_iff.mp hh) hlow (isLow_iff.mp hl) ht⟩
    · rfl
    · rw [utf8_eq,List.append_assoc]
  case case14 hslash a b c d _ n hn hhigh hlow ih=>
    obtain ⟨t,u,rfl,rfl,ht⟩:=ih h
    obtain rfl:=not_not.mp hslash
    rw [isHigh_iff] at hhigh
    rw [isLow_iff] at hlow
    rw [hex4_eq] at hn
    refine ⟨_,_,?_,?_,.unicode hn (by omega) ht⟩
    · rfl
    · rw [utf8_eq,List.append_assoc]
  case case16 hslash e _ _ c hc ih=>
    obtain ⟨t,u,rfl,rfl,ht⟩:=ih h
    obtain rfl:=not_not.mp hslash
    rw [simpleEscape_eq] at hc
    exact ⟨_,_,rfl,by simp,.escape hc ht⟩

/-- What may follow a number. -/
def Stops (rest : Bytes) : Prop :=
  ∀ c∈rest.head?, ¬Digit c ∧ c≠byte '.' ∧ c≠byte 'e' ∧ c≠byte 'E'

theorem isDigit_iff : isDigit c=true ↔ Digit c:=by
  rw [isDigit,Bool.and_eq_true,decide_eq_true_eq,decide_eq_true_eq]
  rfl

theorem dropWhile_append {p:UInt8→Bool} (ht:∀b∈t,p b=true)
    (hrest:∀c∈rest.head?,p c=false) : (t++rest).dropWhile p=rest:=by
  rw [List.dropWhile_append_of_pos ht]
  cases rest with
  | nil=>rfl
  | cons c rest=>
    rw [List.dropWhile_cons,if_neg]
    rw [hrest c rfl]
    exact Bool.false_ne_true

theorem digits_complete {e:String} (ht:Digits t) (hrest:∀c∈rest.head?,¬Digit c) :
    digits e (t++rest)=.ok rest:=by
  obtain ⟨hne,ht⟩:=ht
  cases t with
  | nil=>exact absurd rfl hne
  | cons b t=>
    have htail : (t++rest).dropWhile isDigit=rest:=by
      apply dropWhile_append
      · exact fun c hc=>isDigit_iff.mpr (ht c (List.mem_cons_of_mem _ hc))
      · intro c hc
        exact Bool.eq_false_iff.mpr fun h=>hrest c hc (isDigit_iff.mp h)
    rw [List.cons_append,digits,if_pos (isDigit_iff.mpr (ht b List.mem_cons_self)),htail]

theorem digits_sound {e:String} (h:digits e s=.ok rest) :
    ∃t,s=t++rest ∧ Digits t ∧ t.head? = s.head? := by
  cases s with
  | nil=>cases h
  | cons c s=>
    rw [digits] at h
    split at h
    · rename_i hc
      cases h
      refine ⟨c::s.takeWhile isDigit,?_,⟨by simp,?_⟩,rfl⟩
      · rw [List.cons_append,List.takeWhile_append_dropWhile]
      · intro b hb
        rcases List.mem_cons.mp hb with rfl | hb
        · exact isDigit_iff.mp hc
        · exact isDigit_iff.mp (List.all_eq_true.mp List.all_takeWhile b hb)
    · cases h

theorem sign_complete {sgn:Bytes} (hs:sgn=[] ∨ sgn = [byte '-'])
    (hrest:∀c∈rest.head?,c≠byte '-') : sign (sgn++rest)=rest:=by
  rcases hs with rfl | rfl
  · cases rest with
    | nil=>rfl
    | cons c rest=>rw [List.nil_append,sign,if_neg (hrest c rfl)]
  · rw [List.cons_append,List.nil_append,sign,if_pos rfl]

theorem sign_sound (s:Bytes) : ∃sgn,s = sgn++sign s ∧ (sgn=[] ∨ sgn = [byte '-']):=by
  cases s with
  | nil=>exact ⟨[],rfl,.inl rfl⟩
  | cons c s=>
    rw [sign]
    split
    · rename_i hc
      exact ⟨[byte '-'],by rw [hc];rfl,.inr rfl⟩
    · exact ⟨[],rfl,.inl rfl⟩

theorem exponentSign_complete {sgn:Bytes} (hs:sgn=[] ∨ sgn = [byte '+'] ∨ sgn = [byte '-'])
    (hrest:∀c∈rest.head?,Digit c) : exponentSign (sgn++rest)=rest:=by
  rcases hs with rfl | rfl | rfl
  · cases rest with
    | nil=>rfl
    | cons c rest=>
      have hd:=hrest c rfl
      have hne : ¬(c=byte '+' ∨ c=byte '-'):=by
        rintro (rfl | rfl) <;> exact absurd hd (by decide)
      rw [List.nil_append,exponentSign,if_neg hne]
  · rw [List.cons_append,List.nil_append,exponentSign,if_pos (.inl rfl)]
  · rw [List.cons_append,List.nil_append,exponentSign,if_pos (.inr rfl)]

theorem exponentSign_sound (s:Bytes) :
    ∃sgn,s = sgn++exponentSign s ∧ (sgn=[] ∨ sgn = [byte '+'] ∨ sgn = [byte '-']):=by
  cases s with
  | nil=>exact ⟨[],rfl,.inl rfl⟩
  | cons c s=>
    rw [exponentSign]
    split
    · rename_i hc
      rcases hc with rfl | rfl
      · exact ⟨_,rfl,.inr (.inl rfl)⟩
      · exact ⟨_,rfl,.inr (.inr rfl)⟩
    · exact ⟨[],rfl,.inl rfl⟩

theorem digits_head (h:Digits t) : ∀c∈(t++rest).head?,Digit c:=by
  obtain ⟨hne,ht⟩:=h
  cases t with
  | nil=>exact absurd rfl hne
  | cons b t=>
    rintro c hc
    cases hc
    exact ht b List.mem_cons_self

theorem integerPart_complete (ht:WholePart t) (hrest:∀c∈rest.head?,¬Digit c) :
    integerPart (t++rest)=.ok rest:=by
  rcases ht with rfl | ⟨hd,hzero⟩
  · rw [List.cons_append,List.nil_append,integerPart,if_pos rfl]
  · have hdigits:=digits_complete (e := "bad JSON number") hd hrest
    obtain ⟨hne,-⟩:=hd
    cases t with
    | nil=>exact absurd rfl hne
    | cons b t=>
      have hb : b≠byte '0' := by
        rintro rfl
        exact hzero rfl
      rw [List.cons_append,integerPart,if_neg hb]
      exact hdigits

theorem integerPart_sound (h:integerPart s=.ok rest) : ∃t,s=t++rest ∧ WholePart t:=by
  cases s with
  | nil=>cases h
  | cons c s=>
    rw [integerPart] at h
    split at h
    · rename_i hc
      cases h
      exact ⟨[byte '0'],by rw [hc];rfl,.inl rfl⟩
    · rename_i hc
      obtain ⟨t,hs,ht,hhead⟩:=digits_sound h
      refine ⟨t,hs,.inr ⟨ht,?_⟩⟩
      rw [hhead,List.head?_cons,ne_eq,Option.some.injEq]
      exact hc

theorem fractionPart_complete (ht:FractionPart t) (hrest:∀c∈rest.head?,¬Digit c ∧ c≠byte '.') :
    fractionPart (t++rest)=.ok rest:=by
  rcases ht with rfl | ⟨d,hd,rfl⟩
  · cases rest with
    | nil=>rfl
    | cons c rest=>rw [List.nil_append,fractionPart,if_neg (hrest c rfl).2]
  · rw [List.cons_append,fractionPart,if_pos rfl]
    exact digits_complete hd fun c hc=>(hrest c hc).1

theorem fractionPart_sound (h:fractionPart s=.ok rest) : ∃t,s=t++rest ∧ FractionPart t:=by
  cases s with
  | nil=>
    cases h
    exact ⟨[],rfl,.inl rfl⟩
  | cons c s=>
    rw [fractionPart] at h
    split at h
    · rename_i hc
      obtain ⟨d,rfl,hd,-⟩:=digits_sound h
      exact ⟨byte '.' :: d,by rw [hc];rfl,.inr ⟨d,hd,rfl⟩⟩
    · cases h
      exact ⟨[],rfl,.inl rfl⟩

theorem exponentPart_complete (ht:ExponentPart t) (hrest:Stops rest) :
    exponentPart (t++rest)=.ok rest:=by
  rcases ht with rfl | ⟨e,sgn,d,he,hsgn,hd,rfl⟩
  · cases rest with
    | nil=>rfl
    | cons c rest=>
      have hc:=(hrest c rfl).2.2
      rw [List.nil_append,exponentPart,if_neg (by rintro (rfl | rfl) <;> simp at hc)]
  · rw [List.cons_append,List.append_assoc,exponentPart,if_pos he,
      exponentSign_complete hsgn (digits_head hd)]
    exact digits_complete hd fun c hc=>(hrest c hc).1

theorem exponentPart_sound (h:exponentPart s=.ok rest) : ∃t,s=t++rest ∧ ExponentPart t:=by
  cases s with
  | nil=>
    cases h
    exact ⟨[],rfl,.inl rfl⟩
  | cons c s=>
    rw [exponentPart] at h
    split at h
    · rename_i hc
      obtain ⟨d,hs,hd,-⟩:=digits_sound h
      obtain ⟨sgn,hsgn,hcases⟩:=exponentSign_sound s
      rw [hs] at hsgn
      refine ⟨c::(sgn++d),?_,.inr ⟨c,sgn,d,hc,hcases,hd,rfl⟩⟩
      rw [hsgn,List.cons_append,List.append_assoc]
    · cases h
      exact ⟨[],rfl,.inl rfl⟩

theorem numberRest_sound (h:numberRest s=.ok rest) : ∃t,s=t++rest ∧ JsonNumber t:=by
  simp only [numberRest,bind_eq_ok] at h
  obtain ⟨s₁,hint,s₂,hfraction,hexponent⟩:=h
  obtain ⟨sgn,hs,hsgn⟩:=sign_sound s
  obtain ⟨whole,hs₁,hwhole⟩:=integerPart_sound hint
  obtain ⟨frac,hs₂,hfrac⟩:=fractionPart_sound hfraction
  obtain ⟨exp,hs₃,hexp⟩:=exponentPart_sound hexponent
  refine ⟨_,?_,sgn,whole,frac,exp,hsgn,hwhole,hfrac,hexp,rfl⟩
  rw [hs,hs₁,hs₂,hs₃]
  simp only [List.append_assoc]

theorem numberRest_complete (ht:JsonNumber t) (hrest:Stops rest) :
    numberRest (t++rest)=.ok rest:=by
  obtain ⟨sgn,whole,frac,exp,hsgn,hwhole,hfrac,hexp,rfl⟩:=ht
  have hafter : ∀c∈(exp++rest).head?,¬Digit c ∧ c≠byte '.' := by
    rcases hexp with rfl | ⟨e,esgn,d,he,-,-,rfl⟩
    · exact fun c hc=>⟨(hrest c hc).1,(hrest c hc).2.1⟩
    · intro c hc
      cases hc
      rcases he with rfl | rfl <;> decide
  have hdigit : ∀c∈(frac++(exp++rest)).head?,¬Digit c:=by
    rcases hfrac with rfl | ⟨d,-,rfl⟩
    · exact fun c hc=>(hafter c hc).1
    · intro c hc
      cases hc
      decide
  have hminus : ∀c∈(whole++(frac++(exp++rest))).head?,c≠byte '-' := by
    rintro c hc rfl
    rcases hwhole with rfl | ⟨hd,-⟩
    · cases hc
    · exact absurd (digits_head hd _ hc) (by decide)
  have hsplit : sgn++(whole++(frac++exp))++rest =
      sgn++(whole++(frac++(exp++rest))):=by
    simp only [List.append_assoc]
  rw [hsplit]
  simp only [numberRest,bind_eq_ok]
  refine ⟨_,?_,_,fractionPart_complete hfrac hafter,exponentPart_complete hexp hrest⟩
  rw [sign_complete hsgn hminus]
  exact integerPart_complete hwhole hdigit

theorem number_head (h:JsonNumber t) : ∃c s,t=c::s ∧ (c=byte '-' ∨ Digit c):=by
  obtain ⟨sgn,whole,frac,exp,hsgn,hwhole,-,-,rfl⟩:=h
  have hdigit : ∃c s,whole++(frac++exp)=c::s ∧ Digit c:=by
    rcases hwhole with rfl | ⟨⟨hne,hd⟩,-⟩
    · exact ⟨_,_,rfl,by decide⟩
    · cases whole with
      | nil=>exact absurd rfl hne
      | cons c whole=>exact ⟨c,_,rfl,hd c List.mem_cons_self⟩
  rcases hsgn with rfl | rfl
  · obtain ⟨c,s,hs,hc⟩:=hdigit
    exact ⟨c,s,hs,.inr hc⟩
  · exact ⟨_,_,rfl,.inl rfl⟩

variable {w : Bytes}

theorem blank_append {w':Bytes} (hw:Blank w) (hw':Blank w') : Blank (w++w'):=by
  intro b hb
  rcases List.mem_append.mp hb with hb | hb
  · exact hw b hb
  · exact hw' b hb

def Key (t u : Bytes) : Prop :=
  ∃ w k w', Blank w ∧ Chars k u ∧ Blank w' ∧ t=w++(quote k ++ w')

section
variable (M : Bytes→J→ℕ→Prop)

/-- What stands between the brackets of an array, its elements and the values among them. -/
inductive Items : Bytes → List J → ℕ → Prop
  | last {w v w' : Bytes} {j : J} {n : ℕ} (hw : Blank w) (hv : M v j n) (hw' : Blank w') :
    Items (w++(v++w')) [j] n
  | more {w v w' t : Bytes} {j : J} {js : List J} {n m : ℕ} (hw : Blank w) (hv : M v j n)
    (hw' : Blank w') (h : Items t js m) :
    Items (w ++ (v ++ (w'++byte ',' :: t))) (j::js) (n+m)

/-- What stands between the braces of an object. -/
inductive Members : Bytes → List (Bytes×J) → ℕ → Prop
  | last {k u w v w' : Bytes} {j : J} {n : ℕ} (hk : Key k u) (hw : Blank w) (hv : M v j n)
    (hw' : Blank w') : Members (k++byte ':' :: (w++(v++w'))) [(u,j)] n
  | more {k u w v w' t : Bytes} {j : J} {o : List (Bytes×J)} {n m : ℕ} (hk : Key k u)
    (hw : Blank w) (hv : M v j n) (hw' : Blank w') (h : Members t o m) :
    Members (k++byte ':' :: (w ++ (v ++ (w'++byte ',' :: t)))) ((u,j)::o) (n+m)

/-- A text, the value it is read as and the number of values in it, where `M` says so of what
lies a level deeper. No object has a key twice. -/
inductive ValueText : Bytes → J → ℕ → Prop
  | string {t u : Bytes} (h : Chars t u) : ValueText (quote t) (.string u) 1
  | number {t : Bytes} (h : JsonNumber t) : ValueText t (.number t) 1
  | true : ValueText (bytes "true") (.bool Bool.true) 1
  | false : ValueText (bytes "false") (.bool Bool.false) 1
  | null : ValueText (bytes "null") .null 1
  | blankArray {w : Bytes} (h : Blank w) : ValueText (byte '[' :: (w ++ [byte ']'])) (.array []) 1
  | array {t : Bytes} {a : List J} {n : ℕ} (h : Items M t a n) :
    ValueText (byte '[' :: (t ++ [byte ']'])) (.array a) (n+1)
  | blankObject {w : Bytes} (h : Blank w) :
    ValueText (byte '{' :: (w ++ [byte '}'])) (.object []) 1
  | object {t : Bytes} {o : List (Bytes×J)} {n : ℕ} (h : Members M t o n)
    (hkeys : (o.map Prod.fst).Nodup) :
    ValueText (byte '{' :: (t ++ [byte '}'])) (.object o) (n+1)

end

/-- The text is read as the value, which has `n` values in it and no more than `levels` levels. -/
def Means : ℕ → Bytes → J → ℕ → Prop
  | 0 => fun _ _ _ => False
  | levels+1 => ValueText (Means levels)

section
variable {M : Bytes→J→ℕ→Prop}

theorem ValueText.head {v:Bytes} {j:J} {n:ℕ} (h:ValueText M v j n) :
    ∃c t,v=c::t ∧ isWs c=Bool.false ∧ c≠byte ']' := by
  cases h with
  | string h=>exact ⟨_,_,rfl,by decide,by decide⟩
  | number h=>
    obtain ⟨c,s,rfl,hc⟩:=number_head h
    refine ⟨c,s,rfl,?_,?_⟩
    · rcases hc with rfl | hc
      · rfl
      · rw [Bool.eq_false_iff]
        intro hws
        simp only [isWs,Bool.or_eq_true,beq_iff_eq] at hws
        rcases hws with ((rfl | rfl) | rfl) | rfl <;> exact absurd hc (by decide)
    · rintro rfl
      exact absurd hc (by decide)
  | true=>exact ⟨_,_,rfl,by decide,by decide⟩
  | false=>exact ⟨_,_,rfl,by decide,by decide⟩
  | null=>exact ⟨_,_,rfl,by decide,by decide⟩
  | blankArray h=>exact ⟨_,_,rfl,by decide,by decide⟩
  | array h=>exact ⟨_,_,rfl,by decide,by decide⟩
  | blankObject h=>exact ⟨_,_,rfl,by decide,by decide⟩
  | object h hkeys=>exact ⟨_,_,rfl,by decide,by decide⟩

end

theorem isWs_iff : isWs c=true ↔ c=0x20 ∨ c=0x09 ∨ c=0x0a ∨ c=0x0d:=by
  simp only [isWs,Bool.or_eq_true,beq_iff_eq]
  tauto

theorem ws_split (p:JP) : ∃w,Blank w ∧ p.rest=w++p.ws.rest:=by
  refine ⟨p.rest.takeWhile isWs,?_,List.takeWhile_append_dropWhile.symm⟩
  intro b hb
  exact isWs_iff.mp (List.all_eq_true.mp List.all_takeWhile b hb)

theorem ws_append (nodes:ℕ) (hw:Blank w) (hs:∀c∈s.head?,isWs c=false) :
    JP.ws ⟨w++s,nodes⟩=⟨s,nodes⟩:=by
  rw [JP.ws,dropWhile_append (fun b hb=>isWs_iff.mpr (hw b hb)) hs]

theorem ws_ws (p:JP) : p.ws.ws=p.ws:=by
  simp only [JP.ws,List.dropWhile_idempotent]

theorem str_sound {p p':JP} (h:p.str=.ok (u,p')) :
    ∃w k,p.rest=w++(quote k++p'.rest) ∧ Blank w ∧ Chars k u ∧ p'.nodes=p.nodes:=by
  obtain ⟨w,hw,hrest⟩:=ws_split p
  unfold JP.str at h
  split at h
  · cases h
  · rename_i c rest hws
    split at h
    · cases h
    · rename_i hc
      split at h
      · cases h
      · rename_i s rest' hbody
        cases h
        obtain ⟨k,u,rfl,hu,hk⟩:=strBody_sound hbody
        rw [List.nil_append] at hu
        subst hu
        refine ⟨w,k,?_,hw,hk,rfl⟩
        rw [hrest,hws,not_not.mp hc]
        simp [quote]

theorem str_complete {k:Bytes} (rest:Bytes) (nodes:ℕ) (hw:Blank w) (hk:Chars k u) :
    JP.str ⟨w++(quote k++rest),nodes⟩=.ok (u,⟨rest,nodes⟩):=by
  have hquote : quote k++rest = byte '"' :: (k++byte '"' :: rest):=by simp [quote]
  have hws : JP.ws ⟨w++(quote k++rest),nodes⟩=⟨quote k++rest,nodes⟩:=by
    apply ws_append nodes hw
    rw [hquote]
    intro c hc
    cases hc
    rfl
  unfold JP.str
  rw [hws,hquote]
  simp only [ne_eq,not_true_eq_false,if_false,strBody_complete hk,List.nil_append]

section
variable (M : Bytes→J→ℕ→Prop) (N : ℕ) (read : ValueReader)

def Sound : Prop :=
  ∀ p j p', read p = .ok (j,p') → ∃ w v n, p.rest=w++(v++p'.rest) ∧ Blank w ∧ M v j n ∧
    p'.nodes = p.nodes+n ∧ p'.nodes≤N

/-- Every value of `M` is read, within the budget of values. -/
def Complete : Prop :=
  ∀ w v j n rest nodes, Blank w → M v j n → Stops rest → nodes+n≤N →
    read ⟨w++(v++rest),nodes⟩ = .ok (j,⟨rest,nodes+n⟩)

end

section
variable {M : Bytes→J→ℕ→Prop} {N : ℕ} {read : ValueReader} {w : Bytes}

theorem stops_of_blank {c:UInt8} (rest:Bytes) (hw:Blank w)
    (hc:c=byte ',' ∨ c=byte ']' ∨ c=byte '}') : Stops (w++c::rest):=by
  intro d hd
  cases w with
  | nil=>
    cases hd
    rcases hc with rfl | rfl | rfl <;> decide
  | cons e w=>
    cases hd
    rcases hw d List.mem_cons_self with rfl | rfl | rfl | rfl <;> decide

variable {a : List J} {p : JP}

theorem elements_round {fuel:ℕ} {r:J×JP} :
    elements read (fuel+1) a p=.ok r ↔ ∃x p₁ q rest,read p=.ok (x,p₁) ∧
      p₁.ws.rest=q::rest ∧ (q=byte ']' ∧ r=(.array (a++[x]),{p₁ with rest}) ∨
        q = byte ',' ∧ elements read fuel (a++[x]) {p₁ with rest} = .ok r):=by
  rw [elements,bind_eq_ok]
  constructor
  · rintro ⟨⟨x,p₁⟩,hx,h⟩
    dsimp only at h
    split at h
    · cases h
    · rename_i q rest hq
      split at h
      · rename_i hclose
        cases h
        exact ⟨x,p₁,q,rest,hx,hq,.inl ⟨hclose,rfl⟩⟩
      · split at h
        · cases h
        · rename_i hcomma
          exact ⟨x,p₁,q,rest,hx,hq,.inr ⟨not_not.mp hcomma,h⟩⟩
  · rintro ⟨x,p₁,q,rest,hx,hq,h⟩
    refine ⟨(x,p₁),hx,?_⟩
    dsimp only
    rw [hq]
    rcases h with ⟨rfl,rfl⟩ | ⟨rfl,h⟩
    · rfl
    · exact h

variable {p' : JP} {j : J}

theorem elements_sound (hread:Sound M N read) (fuel:ℕ) (h:elements read fuel a p=.ok (j,p')) :
    ∃t b n,p.rest=t++byte ']' :: p'.rest ∧ Items M t b n ∧ j=.array (a++b) ∧
      p'.nodes = p.nodes+n ∧ p'.nodes≤N:=by
  induction fuel generalizing a p with
  | zero=>cases h
  | succ fuel ih=>
    obtain ⟨x,p₁,q,rest,hx,hq,h⟩:=elements_round.mp h
    obtain ⟨w,v,n,hp,hw,hv,hn,hN⟩:=hread _ _ _ hx
    obtain ⟨w',hw',hp₁⟩:=ws_split p₁
    rw [hq] at hp₁
    rcases h with ⟨rfl,h⟩ | ⟨rfl,h⟩
    · cases h
      refine ⟨_,[x],n,?_,.last hw hv hw',rfl,hn,hN⟩
      rw [hp,hp₁]
      simp only [List.append_assoc]
    · obtain ⟨t,b,m,hrest,ht,rfl,hm,hN⟩:=ih h
      refine ⟨_,x::b,n+m,?_,.more hw hv hw' ht,by simp,?_,hN⟩
      · rw [hp,hp₁,show rest = _ from hrest]
        simp only [List.append_assoc,List.cons_append]
      · rw [hm,← Nat.add_assoc,← hn]

variable {t : Bytes} {m : ℕ}

theorem elements_complete (hread:Complete M N read) {b:List J} (h:Items M t b m) (fuel:ℕ)
    (a:List J) (rest:Bytes) (nodes:ℕ) (hf:t.length<fuel) (hN:nodes+m≤N) :
    elements read fuel a ⟨t++byte ']' :: rest,nodes⟩ =
      .ok (.array (a++b),⟨rest,nodes+m⟩):=by
  induction h generalizing fuel a nodes with
  | @last w v w' j n hw hv hw'=>
    obtain ⟨fuel,rfl⟩:=Nat.exists_eq_add_one_of_ne_zero (Nat.ne_zero_of_lt hf)
    have hx:=hread w v j n _ nodes hw hv (stops_of_blank rest hw' (.inr (.inl rfl))) hN
    have hws:=ws_append (s:=byte ']' :: rest) (nodes+n) hw' (by rintro c ⟨⟩;rfl)
    simp only [List.append_assoc]
    exact elements_round.mpr ⟨j,_,_,rest,hx,by rw [hws],.inl ⟨rfl,rfl⟩⟩
  | @more w v w' t j js n m hw hv hw' _ ih=>
    obtain ⟨fuel,rfl⟩:=Nat.exists_eq_add_one_of_ne_zero (Nat.ne_zero_of_lt hf)
    have hx:=hread w v j n _ nodes hw hv
      (stops_of_blank (t++byte ']' :: rest) hw' (.inl rfl)) (by omega)
    have hws:=ws_append (s:=byte ',' :: (t++byte ']' :: rest)) (nodes+n) hw'
      (by rintro c ⟨⟩;rfl)
    have htail:=ih fuel (a++[j]) (nodes+n) (by simp at hf;omega) (by omega)
    rw [List.append_assoc,List.singleton_append,Nat.add_assoc] at htail
    simp only [List.append_assoc,List.cons_append]
    exact elements_round.mpr ⟨j,_,_,_,hx,by rw [hws],.inr ⟨rfl,htail⟩⟩

variable {o : List (Bytes×J)}

theorem members_round {fuel:ℕ} {r:J×JP} :
    members read (fuel+1) o p=.ok r ↔ ∃k p₁ c rest x p₂ q rest',p.str=.ok (k,p₁) ∧
      p₁.ws.rest=c::rest ∧ c=byte ':' ∧ read {p₁ with rest} = .ok (x,p₂) ∧
      ¬(o.lookup k).isSome ∧ p₂.ws.rest=q::rest' ∧
      (q=byte '}' ∧ r=(.object (o++[(k,x)]),{p₂ with rest:=rest'}) ∨
        q = byte ',' ∧ members read fuel (o++[(k,x)]) {p₂ with rest:=rest'} = .ok r):=by
  rw [members,bind_eq_ok]
  constructor
  · rintro ⟨⟨k,p₁⟩,hk,h⟩
    dsimp only at h
    split at h
    · cases h
    · rename_i c rest hc
      split at h
      · cases h
      · rename_i hcolon
        obtain ⟨⟨x,p₂⟩,hx,h⟩:=bind_eq_ok.mp h
        dsimp only at h
        split at h
        · cases h
        · rename_i hfresh
          split at h
          · cases h
          · rename_i q rest' hq
            refine ⟨k,p₁,c,rest,x,p₂,q,rest',hk,hc,not_not.mp hcolon,hx,hfresh,hq,?_⟩
            split at h
            · rename_i hclose
              cases h
              exact .inl ⟨hclose,rfl⟩
            · split at h
              · cases h
              · rename_i hcomma
                exact .inr ⟨not_not.mp hcomma,h⟩
  · rintro ⟨k,p₁,c,rest,x,p₂,q,rest',hk,hc,rfl,hx,hfresh,hq,h⟩
    refine ⟨(k,p₁),hk,?_⟩
    dsimp only
    rw [hc]
    refine bind_eq_ok.mpr ⟨(x,p₂),hx,?_⟩
    dsimp only
    rw [if_neg hfresh,hq]
    rcases h with ⟨rfl,rfl⟩ | ⟨rfl,h⟩
    · rfl
    · exact h

theorem nodup_snoc {k:Bytes} {x:J} (ho:(o.map Prod.fst).Nodup)
    (hfresh:¬(o.lookup k).isSome) : ((o++[(k,x)]).map Prod.fst).Nodup:=by
  rw [List.map_append,List.nodup_append]
  refine ⟨ho,by simp,?_⟩
  intro a ha c hc heq
  rw [List.map_cons,List.map_nil,List.mem_singleton] at hc
  rw [heq,hc] at ha
  exact hfresh (Asar.lookup_isSome_of_mem ha)

theorem lookup_fresh {b:List (Bytes×J)} {k:Bytes} {x:J}
    (h:((o++(k,x)::b).map Prod.fst).Nodup) : ¬(o.lookup k).isSome:=by
  intro hk
  obtain ⟨y,hy⟩:=Option.isSome_iff_exists.mp hk
  rw [List.map_append,List.nodup_append] at h
  exact h.2.2 k (List.mem_map_of_mem (Asar.mem_of_lookup hy)) k (by simp) rfl

theorem members_sound (hread:Sound M N read) (fuel:ℕ) (ho:(o.map Prod.fst).Nodup)
    (h:members read fuel o p=.ok (j,p')) :
    ∃t b n,p.rest=t++byte '}' :: p'.rest ∧ Members M t b n ∧ j=.object (o++b) ∧
      ((o++b).map Prod.fst).Nodup ∧ p'.nodes=p.nodes+n ∧ p'.nodes≤N:=by
  induction fuel generalizing o p with
  | zero=>cases h
  | succ fuel ih=>
    obtain ⟨k,p₁,c,rest,x,p₂,q,rest',hk,hc,rfl,hx,hfresh,hq,h⟩:=members_round.mp h
    obtain ⟨wk,t,hp,hwk,ht,hnodes⟩:=str_sound hk
    obtain ⟨wc,hwc,hp₁⟩:=ws_split p₁
    obtain ⟨w,v,n,hrest,hw,hv,hn,hN⟩:=hread _ _ _ hx
    obtain ⟨w',hw',hp₂⟩:=ws_split p₂
    have hkey : Key (wk++(quote t++wc)) k:=⟨wk,t,wc,hwk,ht,hwc,rfl⟩
    have hnext:=nodup_snoc (x:=x) ho hfresh
    rw [hc] at hp₁
    rw [hq] at hp₂
    rw [show rest = _ from hrest] at hp₁
    rw [show ({p₁ with rest} : JP).nodes = p.nodes from hnodes] at hn
    rcases h with ⟨rfl,h⟩ | ⟨rfl,h⟩
    · cases h
      refine ⟨_,[(k,x)],n,?_,.last hkey hw hv hw',rfl,hnext,hn,hN⟩
      rw [hp,hp₁,hp₂]
      simp only [List.append_assoc,List.cons_append]
    · obtain ⟨s,b,m,hs,hb,rfl,hkeys,hm,hN⟩:=ih hnext h
      rw [List.append_assoc,List.singleton_append] at hkeys
      refine ⟨_,(k,x)::b,n+m,?_,.more hkey hw hv hw' hb,by simp,hkeys,?_,hN⟩
      · rw [hp,hp₁,hp₂,show rest' = _ from hs]
        simp only [List.append_assoc,List.cons_append]
      · rw [hm,← Nat.add_assoc,← hn]

theorem members_complete (hread:Complete M N read) {b:List (Bytes×J)} (h:Members M t b m)
    (fuel:ℕ) (o:List (Bytes×J)) (rest:Bytes) (nodes:ℕ)
    (hkeys:((o++b).map Prod.fst).Nodup) (hf:t.length<fuel) (hN:nodes+m≤N) :
    members read fuel o ⟨t++byte '}' :: rest,nodes⟩ =
      .ok (.object (o++b),⟨rest,nodes+m⟩):=by
  induction h generalizing fuel o nodes with
  | @last k u w v w' j n hk hw hv hw'=>
    obtain ⟨fuel,rfl⟩:=Nat.exists_eq_add_one_of_ne_zero (Nat.ne_zero_of_lt hf)
    obtain ⟨wk,s,wc,hwk,hs,hwc,rfl⟩:=hk
    have hkey:=str_complete (wc++byte ':' :: (w++(v++(w'++byte '}' :: rest)))) nodes hwk hs
    have hcolon:=ws_append (s:=byte ':' :: (w++(v++(w'++byte '}' :: rest)))) nodes hwc
      (by rintro c ⟨⟩;rfl)
    have hx:=hread w v j n _ nodes hw hv (stops_of_blank rest hw' (.inr (.inr rfl))) hN
    have hws:=ws_append (s:=byte '}' :: rest) (nodes+n) hw' (by rintro c ⟨⟩;rfl)
    simp only [List.append_assoc,List.cons_append]
    exact members_round.mpr ⟨u,_,_,_,j,_,_,rest,hkey,by rw [hcolon],rfl,hx,
      lookup_fresh hkeys,by rw [hws],.inl ⟨rfl,rfl⟩⟩
  | @more k u w v w' t j o' n m hk hw hv hw' _ ih=>
    obtain ⟨fuel,rfl⟩:=Nat.exists_eq_add_one_of_ne_zero (Nat.ne_zero_of_lt hf)
    obtain ⟨wk,s,wc,hwk,hs,hwc,rfl⟩:=hk
    have hkey:=str_complete
      (wc++byte ':' :: (w++(v++(w'++byte ',' :: (t++byte '}' :: rest))))) nodes hwk hs
    have hcolon:=ws_append
      (s:=byte ':' :: (w++(v++(w'++byte ',' :: (t++byte '}' :: rest))))) nodes hwc
      (by rintro c ⟨⟩;rfl)
    have hx:=hread w v j n _ nodes hw hv
      (stops_of_blank (t++byte '}' :: rest) hw' (.inl rfl)) (by omega)
    have hws:=ws_append (s:=byte ',' :: (t++byte '}' :: rest)) (nodes+n) hw'
      (by rintro c ⟨⟩;rfl)
    have htail:=ih fuel (o++[(u,j)]) (nodes+n) (by simpa using hkeys)
      (by simp at hf;omega) (by omega)
    rw [List.append_assoc,List.singleton_append,Nat.add_assoc] at htail
    simp only [List.append_assoc,List.cons_append]
    exact members_round.mpr ⟨u,_,_,_,j,_,_,_,hkey,by rw [hcolon],rfl,hx,
      lookup_fresh hkeys,by rw [hws],.inr ⟨rfl,htail⟩⟩

def SkipsBlanks (read : ValueReader) : Prop := ∀ p : JP, read p.ws = read p

theorem str_ws (p:JP) : p.ws.str=p.str:=by
  unfold JP.str
  rw [ws_ws]
  rfl

theorem members_ws (fuel:ℕ) (o:List (Bytes×J)) : SkipsBlanks (members read fuel o):=by
  intro p
  cases fuel with
  | zero=>rfl
  | succ fuel=>rw [members,members,str_ws]

theorem elements_ws (hws:SkipsBlanks read) (fuel:ℕ) (a:List J) :
    SkipsBlanks (elements read fuel a):=by
  intro p
  cases fuel with
  | zero=>rfl
  | succ fuel=>rw [elements,elements,hws]

theorem objectBody_sound (hread:Sound M N read) (h:objectBody read p=.ok (j,p')) (hN:p.nodes≤N) :
    ∃t n,p.rest=t++byte '}' :: p'.rest ∧
      ValueText M (byte '{' :: (t++[byte '}'])) j (n+1) ∧ p'.nodes=p.nodes+n ∧
      p'.nodes≤N:=by
  obtain ⟨w,hw,hp⟩:=ws_split p
  have hmembers : ∀fuel,members read fuel [] p.ws=.ok (j,p') → ∃t n,p.rest=t++byte '}' :: p'.rest ∧
        ValueText M (byte '{' :: (t++[byte '}'])) j (n+1) ∧ p'.nodes=p.nodes+n ∧
        p'.nodes≤N:=by
    intro fuel h
    rw [members_ws] at h
    obtain ⟨t,b,n,ht,hb,rfl,hkeys,hn⟩:=members_sound hread fuel (by simp) h
    exact ⟨t,n,ht,.object hb hkeys,hn⟩
  unfold objectBody at h
  split at h
  · exact hmembers _ h
  · rename_i c rest hc
    split at h
    · rename_i hclose
      cases h
      rw [hc,hclose] at hp
      exact ⟨w,0,hp,.blankObject hw,rfl,hN⟩
    · exact hmembers _ h

theorem arrayBody_sound (hread:Sound M N read) (hblanks:SkipsBlanks read)
    (h:arrayBody read p=.ok (j,p')) (hN:p.nodes≤N) :
    ∃t n,p.rest=t++byte ']' :: p'.rest ∧
      ValueText M (byte '[' :: (t++[byte ']'])) j (n+1) ∧ p'.nodes=p.nodes+n ∧
      p'.nodes≤N:=by
  obtain ⟨w,hw,hp⟩:=ws_split p
  have helements : ∀fuel,elements read fuel [] p.ws=.ok (j,p') →
      ∃t n,p.rest=t++byte ']' :: p'.rest ∧
        ValueText M (byte '[' :: (t++[byte ']'])) j (n+1) ∧ p'.nodes=p.nodes+n ∧
        p'.nodes≤N:=by
    intro fuel h
    rw [elements_ws hblanks] at h
    obtain ⟨t,b,n,ht,hb,rfl,hn⟩:=elements_sound hread fuel h
    exact ⟨t,n,ht,.array hb,hn⟩
  unfold arrayBody at h
  split at h
  · exact helements _ h
  · rename_i c rest hc
    split at h
    · rename_i hclose
      cases h
      rw [hc,hclose] at hp
      exact ⟨w,0,hp,.blankArray hw,rfl,hN⟩
    · exact helements _ h

theorem Members.head {n:ℕ} (h:Members M t o n) : ∃w s,Blank w ∧ t=w++byte '"' :: s:=by
  cases h with
  | last hk hw hv hw'=>
    obtain ⟨w,k,w',hw,-,-,rfl⟩:=hk
    exact ⟨w,_,hw,by simp only [quote,append_assoc,cons_append];rfl⟩
  | more hk hw hv hw' h=>
    obtain ⟨w,k,w',hw,-,-,rfl⟩:=hk
    exact ⟨w,_,hw,by simp only [quote,append_assoc,cons_append];rfl⟩

/-- The values of `M` start as values do. -/
def Starts (M : Bytes→J→ℕ→Prop) : Prop :=
  ∀ v j n, M v j n → ∃ c t, v=c::t ∧ isWs c = false ∧ c≠byte ']'

theorem Items.head (hstart:Starts M) {n:ℕ} (h:Items M t a n) :
    ∃w c s,Blank w ∧ isWs c=false ∧ c≠byte ']' ∧ t=w++c::s:=by
  cases h with
  | last hw hv hw'=>
    obtain ⟨c,s,rfl,hc,hne⟩:=hstart _ _ _ hv
    exact ⟨_,c,_,hw,hc,hne,by simp only [cons_append];rfl⟩
  | more hw hv hw' h=>
    obtain ⟨c,s,rfl,hc,hne⟩:=hstart _ _ _ hv
    exact ⟨_,c,_,hw,hc,hne,by simp only [cons_append];rfl⟩

theorem objectBody_complete (hread:Complete M N read)
    (hconsumes:CPythonIntrospection.Consumes read) (h:Members M t o m)
    (hkeys:(o.map Prod.fst).Nodup) (rest:Bytes) {nodes:ℕ} (hN:nodes+m≤N) :
    objectBody read ⟨t++byte '}' :: rest,nodes⟩ =
      .ok (.object o,⟨rest,nodes+m⟩):=by
  have hall:=members_complete hread h ((t++byte '}' :: rest).length + 1) [] rest nodes hkeys
    (by rw [length_append];omega) hN
  have hle:=JP.ws_le ⟨t++byte '}' :: rest,nodes⟩
  obtain ⟨w,s,hw,rfl⟩:=h.head
  have hws : JP.ws ⟨w++byte '"' :: s++byte '}' :: rest,nodes⟩ =
      ⟨byte '"' :: (s++byte '}' :: rest),nodes⟩:=by
    rw [append_assoc]
    exact ws_append nodes hw (by rintro c ⟨⟩;rfl)
  rw [← members_ws] at hall
  rw [CPythonIntrospection.members_fuel hconsumes (Nat.lt_succ_of_le hle)
    (Nat.lt_succ_self _)] at hall
  unfold objectBody
  split
  · rename_i hnil
    rw [hws] at hnil
    cases hnil
  · rename_i c s' hc
    rw [hws] at hc
    cases hc
    rw [if_neg (by decide)]
    exact hall

theorem objectBody_blank (rest:Bytes) (nodes:ℕ) (hw:Blank w) :
    objectBody read ⟨w++byte '}' :: rest,nodes⟩ = .ok (.object [],⟨rest,nodes⟩):=by
  have hws:=ws_append (s:=byte '}' :: rest) nodes hw (by rintro c ⟨⟩;rfl)
  unfold objectBody
  rw [hws]
  rfl

theorem arrayBody_blank (rest:Bytes) (nodes:ℕ) (hw:Blank w) :
    arrayBody read ⟨w++byte ']' :: rest,nodes⟩ = .ok (.array [],⟨rest,nodes⟩):=by
  have hws:=ws_append (s:=byte ']' :: rest) nodes hw (by rintro c ⟨⟩;rfl)
  unfold arrayBody
  rw [hws]
  rfl

theorem arrayBody_complete (hread:Complete M N read) (hblanks:SkipsBlanks read)
    (hstart:Starts M) (hconsumes:CPythonIntrospection.Consumes read) (h:Items M t a m)
    (rest:Bytes) {nodes:ℕ} (hN:nodes+m≤N) :
    arrayBody read ⟨t++byte ']' :: rest,nodes⟩ = .ok (.array a,⟨rest,nodes+m⟩):=by
  have hall:=elements_complete hread h ((t++byte ']' :: rest).length + 1) [] rest nodes
    (by rw [length_append];omega) hN
  have hle:=JP.ws_le ⟨t++byte ']' :: rest,nodes⟩
  obtain ⟨w,c,s,hw,hc,hne,rfl⟩:=h.head hstart
  have hws : JP.ws ⟨w++c::s++byte ']' :: rest,nodes⟩ =
      ⟨c::(s++byte ']' :: rest),nodes⟩:=by
    rw [append_assoc]
    exact ws_append nodes hw (by rintro d ⟨⟩;exact hc)
  rw [← elements_ws hblanks] at hall
  rw [CPythonIntrospection.elements_fuel hconsumes (Nat.lt_succ_of_le hle)
    (Nat.lt_succ_self _)] at hall
  unfold arrayBody
  split
  · rename_i hnil
    rw [hws] at hnil
    cases hnil
  · rename_i d s' hd
    rw [hws] at hd
    cases hd
    rw [if_neg hne]
    exact hall

theorem atom_sound (h:atom p=.ok (j,p')) :
    ∃v,p.rest=v++p'.rest ∧ ValueText M v j 1 ∧ p'.nodes=p.nodes:=by
  have hword : ∀k v,p.rest.take k=v → p.rest = v++p.rest.drop k:=by
    rintro k v rfl
    exact (take_append_drop k _).symm
  unfold atom at h
  split at h
  · rename_i htake
    cases h
    exact ⟨_,hword 4 _ htake,.true,rfl⟩
  · split at h
    · rename_i htake
      cases h
      exact ⟨_,hword 5 _ htake,.false,rfl⟩
    · split at h
      · rename_i htake
        cases h
        exact ⟨_,hword 4 _ htake,.null,rfl⟩
      · obtain ⟨rest,hrest,h⟩:=bind_eq_ok.mp h
        cases h
        obtain ⟨t,hp,ht⟩:=numberRest_sound hrest
        have htake : p.rest.take (p.rest.length-rest.length)=t:=by
          rw [hp,length_append,Nat.add_sub_cancel,take_left]
        rw [htake]
        exact ⟨t,hp,.number ht,rfl⟩

theorem atom_number {rest:Bytes} (nodes:ℕ) (ht:JsonNumber t) (hrest:Stops rest) :
    atom ⟨t++rest,nodes⟩=.ok (.number t,⟨rest,nodes⟩):=by
  have hnot : ∀(k:ℕ) (w:Bytes) (b:UInt8),w.head? = some b → 0<k →
      (b≠byte '-' ∧ ¬Digit b) → ¬(t++rest).take k = w:=by
    rintro k w b hw hk hb rfl
    obtain ⟨c,s,rfl,hc⟩:=number_head ht
    obtain ⟨k,rfl⟩:=Nat.exists_eq_add_one_of_ne_zero (Nat.ne_zero_of_lt hk)
    cases hw
    rcases hc with rfl | hc
    · exact hb.1 rfl
    · exact hb.2 hc
  have htake : (t++rest).take ((t++rest).length-rest.length)=t:=by
    rw [length_append,Nat.add_sub_cancel,take_left]
  unfold atom
  rw [if_neg (hnot 4 (bytes "true") (byte 't') rfl (by decide) (by decide)),
    if_neg (hnot 5 (bytes "false") (byte 'f') rfl (by decide) (by decide)),
    if_neg (hnot 4 (bytes "null") (byte 'n') rfl (by decide) (by decide))]
  refine bind_eq_ok.mpr ⟨rest,numberRest_complete ht hrest,?_⟩
  rw [pure_eq_ok,htake]

end

theorem value_skipsBlanks (N levels:ℕ) : SkipsBlanks (value N levels):=by
  intro p
  cases levels with
  | zero=>rfl
  | succ levels=>rw [value,value,ws_ws]

theorem node_eq_ok {N:ℕ} {p p':JP} :
    p.node N=.ok p' ↔ p.nodes+1≤N ∧ p' = {p with nodes:=p.nodes+1}:=by
  unfold JP.node
  split
  · rename_i h
    rw [Except.ok.injEq,eq_comm]
    exact ⟨fun heq=>⟨h,heq⟩,fun heq=>heq.2⟩
  · rename_i h
    exact ⟨fun heq=>(by cases heq),fun heq=>absurd heq.1 h⟩

theorem value_sound (N levels:ℕ) : Sound (Means levels) N (value N levels):=by
  induction levels with
  | zero=>
    intro p j p' h
    cases h
  | succ levels ih=>
    intro p j p' h
    rw [value,bind_eq_ok] at h
    obtain ⟨p₁,hnode,h⟩:=h
    obtain ⟨hN,rfl⟩:=node_eq_ok.mp hnode
    obtain ⟨w,hw,hp⟩:=ws_split p
    dsimp only at h
    split at h
    · cases h
    · rename_i c rest hc
      split at h
      · obtain ⟨⟨s,p₂⟩,hs,h⟩:=bind_eq_ok.mp h
        cases h
        obtain ⟨w',k,hk,hw',hchars,hnodes⟩:=str_sound hs
        refine ⟨w++w',quote k,1,?_,blank_append hw hw',.string hchars,hnodes,?_⟩
        · rw [hp,show p.ws.rest = _ from hk,append_assoc]
        · rw [hnodes]
          exact hN
      · split at h
        · rename_i hopen
          obtain ⟨t,n,ht,hv,hn,hle⟩:=objectBody_sound ih h hN
          refine ⟨w,_,n+1,?_,hw,hv,?_,hle⟩
          · rw [hp,hc,hopen,show rest = _ from ht]
            simp
          · rw [hn,Nat.add_comm n 1,← Nat.add_assoc]
            rfl
        · split at h
          · rename_i hopen
            obtain ⟨t,n,ht,hv,hn,hle⟩:=arrayBody_sound ih (value_skipsBlanks N levels) h hN
            refine ⟨w,_,n+1,?_,hw,hv,?_,hle⟩
            · rw [hp,hc,hopen,show rest = _ from ht]
              simp
            · rw [hn,Nat.add_comm n 1,← Nat.add_assoc]
              rfl
          · obtain ⟨v,hv,hvalue,hnodes⟩:=atom_sound (M:=Means levels) h
            refine ⟨w,v,1,?_,hw,hvalue,hnodes,?_⟩
            · rw [hp,show p.ws.rest = _ from hv]
            · rw [hnodes]
              exact hN

theorem means_starts (levels:ℕ) : Starts (Means levels):=by
  intro v j n h
  cases levels with
  | zero=>cases h
  | succ levels=>exact ValueText.head h

theorem value_eq_ok {N levels nodes:ℕ} {v:Bytes} {r:J×JP} (hw:Blank w) (hv:v=c::t)
    (hc:isWs c=false) (hN:nodes+1≤N)
    (h:(if c = byte '"' then do
          let (s,p) ← JP.str ⟨c::(t++rest),nodes+1⟩
          return (.string s,p)
        else if c = byte '{' then objectBody (value N levels) ⟨t++rest,nodes+1⟩
        else if c = byte '[' then arrayBody (value N levels) ⟨t++rest,nodes+1⟩
        else atom ⟨c::(t++rest),nodes+1⟩) = .ok r) :
    value N (levels+1) ⟨w++(v++rest),nodes⟩=.ok r:=by
  subst hv
  have hws : JP.ws ⟨w++(c::t++rest),nodes⟩=⟨c::(t++rest),nodes⟩:=
    ws_append nodes hw (by rintro d ⟨⟩;exact hc)
  rw [value,bind_eq_ok]
  refine ⟨⟨c::(t++rest),nodes+1⟩,?_,h⟩
  rw [hws,node_eq_ok]
  exact ⟨hN,rfl⟩

theorem value_complete (N levels:ℕ) : Complete (Means levels) N (value N levels):=by
  induction levels with
  | zero=>
    intro w v j n rest nodes hw hv
    cases hv
  | succ levels ih=>
    intro w v j n rest nodes hw hv hrest hN
    have hblanks:=value_skipsBlanks N levels
    have hconsumes:=CPythonIntrospection.value_consumes N levels
    have hstart:=means_starts levels
    cases hv with
    | @string t u h=>
      refine value_eq_ok hw rfl (by decide) hN ?_
      rw [if_pos rfl,bind_eq_ok]
      exact ⟨(u,⟨rest,nodes+1⟩),str_complete (w:=[]) rest _ .nil h,rfl⟩
    | number h=>
      obtain ⟨c,s,rfl,hc⟩:=number_head h
      obtain ⟨_,_,hcons,hws,-⟩:=(ValueText.number (M:=Means levels) h).head
      cases hcons
      refine value_eq_ok hw rfl hws hN ?_
      rw [if_neg (by rintro rfl;exact absurd hc (by decide)),
        if_neg (by rintro rfl;exact absurd hc (by decide)),
        if_neg (by rintro rfl;exact absurd hc (by decide))]
      exact atom_number _ h hrest
    | true=>exact value_eq_ok hw rfl (by decide) hN rfl
    | false=>exact value_eq_ok hw rfl (by decide) hN rfl
    | null=>exact value_eq_ok hw rfl (by decide) hN rfl
    | @blankArray w' h=>
      refine value_eq_ok hw rfl (by decide) hN ?_
      rw [append_assoc,singleton_append]
      exact arrayBody_blank rest _ h
    | @array t a n h=>
      refine value_eq_ok hw rfl (by decide) (by omega) ?_
      rw [append_assoc,singleton_append,Nat.add_comm n 1,← Nat.add_assoc]
      exact arrayBody_complete ih hblanks hstart hconsumes h rest (by omega)
    | @blankObject w' h=>
      refine value_eq_ok hw rfl (by decide) hN ?_
      rw [append_assoc,singleton_append]
      exact objectBody_blank rest _ h
    | @object t o n h hkeys=>
      refine value_eq_ok hw rfl (by decide) (by omega) ?_
      rw [append_assoc,singleton_append,Nat.add_comm n 1,← Nat.add_assoc]
      exact objectBody_complete ih hconsumes h hkeys rest (by omega)

/-- The reader of the introspection protocol reads the values of the grammar within its budgets,
each with blanks around it. -/
theorem root_iff {maxDepth maxNodes:ℕ} {text:Bytes} {j:J} :
    root maxDepth maxNodes text=.ok j ↔ ∃w v w' n,text=w++(v++w') ∧ Blank w ∧
      Blank w' ∧ Means maxDepth v j n ∧ n ≤ maxNodes:=by
  constructor
  · intro h
    rw [root,bind_eq_ok] at h
    obtain ⟨⟨x,p⟩,hx,h⟩:=h
    dsimp only at h
    split at h
    · rename_i hend
      cases h
      obtain ⟨w,v,n,htext,hw,hv,hn,hN⟩:=value_sound _ _ _ _ _ hx
      obtain ⟨w',hw',hp⟩:=ws_split p
      rw [hend,append_nil] at hp
      rw [hp] at htext
      exact ⟨w,v,w',n,htext,hw,hw',hv,by rwa [hn,Nat.zero_add] at hN⟩
    · cases h
  · rintro ⟨w,v,w',n,rfl,hw,hw',hv,hN⟩
    have hstops : Stops w':=by
      intro c hc
      cases w' with
      | nil=>cases hc
      | cons b w'=>
        cases hc
        rcases hw' c mem_cons_self with rfl | rfl | rfl | rfl <;> decide
    have hx:=value_complete maxNodes maxDepth w v j n w' 0 hw hv hstops
      (by rwa [Nat.zero_add])
    have hws : JP.ws ⟨w',0+n⟩=⟨[],0+n⟩:=by
      have hblank:=ws_append (s:=[]) (0+n) hw' (by rintro c ⟨⟩)
      rwa [append_nil] at hblank
    rw [root,bind_eq_ok]
    refine ⟨(j,⟨w',0+n⟩),hx,?_⟩
    dsimp only
    rw [hws]
    rfl

end AutoRefirst.JsonMeaning
