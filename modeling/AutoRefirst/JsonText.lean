import AutoRefirst.ByteText

/-!
# JSON as text

The grammar of a JSON value over bytes, where a byte of `0x80` or more is a character like any
other, and what the escapes of a string stand for.
-/

namespace AutoRefirst.JsonText

/-- A byte that stands for itself. -/
def Plain (b : UInt8) : Prop := 0x20≤b ∧ b≠byte '"' ∧ b≠byte '\\'

instance (b : UInt8) : Decidable (Plain b) := inferInstanceAs (Decidable (_ ∧ _ ∧ _))

/-- The value of a hexadecimal digit. -/
def hexValue (b : UInt8) : Option ℕ :=
  if byte '0' ≤ b ∧ b ≤ byte '9' then some (b.toNat-0x30)
  else if byte 'a' ≤ b ∧ b ≤ byte 'f' then some (b.toNat-0x57)
  else if byte 'A' ≤ b ∧ b ≤ byte 'F' then some (b.toNat-0x37)
  else none

/-- What a letter behind a backslash stands for. -/
def escaped (e : UInt8) : Option UInt8 :=
  [(byte '"',byte '"'),(byte '\\',byte '\\'),(byte '/',byte '/'),(byte 'b',0x08),
    (byte 'f',0x0c),(byte 'n',0x0a),(byte 'r',0x0d),(byte 't',0x09)].lookup e

/-- What stands between the quotes of a string. -/
inductive JsonChars : Bytes → Prop
  | nil : JsonChars []
  | plain {b : UInt8} {t : Bytes} (hb : Plain b) (ht : JsonChars t) : JsonChars (b::t)
  | escape {e : UInt8} {t : Bytes} (he : (escaped e).isSome) (ht : JsonChars t) :
    JsonChars (byte '\\' :: e::t)
  | unicode {a b c d : UInt8} {t : Bytes}
    (h : ∀ x∈[a,b,c,d], (hexValue x).isSome) (ht : JsonChars t) :
    JsonChars (byte '\\' :: byte 'u' :: a :: b :: c :: d::t)

/-- The unit that four digits stand for. -/
def codeUnit (a b c d : UInt8) : Option ℕ := do
  let a ← hexValue a
  let b ← hexValue b
  let c ← hexValue c
  let d ← hexValue d
  return ((a*16+b)*16+c)*16+d

def utf8Of (n : ℕ) : Bytes :=
  if n < 0x80 then [n.toUInt8]
  else if n < 0x800 then [(0xc0+n/64).toUInt8,(0x80 + n % 64).toUInt8]
  else if n < 0x10000 then
    [(0xe0+n/4096).toUInt8,(0x80 + n/64 % 64).toUInt8,(0x80 + n % 64).toUInt8]
  else
    [(0xf0+n/262144).toUInt8,(0x80 + n/4096 % 64).toUInt8,(0x80 + n/64 % 64).toUInt8,
      (0x80 + n % 64).toUInt8]

/-- The string that the text between the quotes stands for. -/
def unescape : Bytes → Option Bytes
  | [] => some []
  | b::t =>
    if b ≠ byte '\\' then if Plain b then (unescape t).map (b :: ·) else none
    else
      match t with
      | [] => none
      | e::t =>
        if e ≠ byte 'u' then (escaped e).bind fun c => (unescape t).map (c :: ·)
        else
          match t with
          | a :: b :: c :: d::t =>
            (codeUnit a b c d).bind fun u =>
              if 0xd800 ≤ u ∧ u < 0xdc00 then
                match t with
                | s :: v :: a :: b :: c :: d::t =>
                  if s = byte '\\' ∧ v = byte 'u' then
                    (codeUnit a b c d).bind fun low =>
                      if 0xdc00 ≤ low ∧ low < 0xe000 then
                        (unescape t).map
                          (utf8Of (0x10000+(u-0xd800)*0x400+(low-0xdc00)) ++ ·)
                      else none
                  else none
                | _ => none
              else if 0xdc00 ≤ u ∧ u < 0xe000 then none
              else (unescape t).map (utf8Of u ++ ·)
          | _ => none

variable {t : Bytes}

theorem JsonChars.of_plain (h:∀b∈t,Plain b) : JsonChars t:=by
  induction t with
  | nil=>exact .nil
  | cons b t ih=>
    exact .plain (h b List.mem_cons_self) (ih fun c hc=>h c (List.mem_cons_of_mem _ hc))

variable {b : UInt8}

theorem unescape_plain (h:Plain b) : unescape (b::t)=(unescape t).map (b :: ·):=by
  rw [unescape.eq_def]
  simp [h.2.2,h]

theorem unescape_escape {e c:UInt8} (hu:e≠byte 'u') (he:escaped e=some c) :
    unescape (byte '\\' :: e::t) = (unescape t).map (c :: ·):=by
  rw [unescape.eq_def]
  simp [hu,he]

theorem unescape_unicode {a c d:UInt8} {u:ℕ} (h:codeUnit a b c d=some u) (hu:u<0xd800) :
    unescape (byte '\\' :: byte 'u' :: a::b::c::d::t) =
      (unescape t).map (utf8Of u ++ ·):=by
  have hhigh : ¬(0xd800≤u ∧ u<0xdc00):=fun hc=>absurd hc.1 (by omega)
  have hlow : ¬(0xdc00≤u ∧ u<0xe000):=fun hc=>absurd hc.1 (by omega)
  rw [unescape.eq_def]
  simp [h,hhigh,hlow]

def Digit (b : UInt8) : Prop := byte '0' ≤ b ∧ b≤byte '9'

instance (b : UInt8) : Decidable (Digit b) := inferInstanceAs (Decidable (_ ∧ _))

def Digits (t : Bytes) : Prop := t≠[] ∧ ∀ b∈t, Digit b

/-- The whole part of a number, without a leading zero. -/
def WholePart (t : Bytes) : Prop := t = [byte '0'] ∨ Digits t ∧ t.head? ≠ some (byte '0')

def FractionPart (t : Bytes) : Prop := t=[] ∨ ∃ d, Digits d ∧ t=byte '.' :: d

def ExponentPart (t : Bytes) : Prop :=
  t = [] ∨ ∃ e sign d, (e=byte 'e' ∨ e=byte 'E') ∧
    (sign=[] ∨ sign = [byte '+'] ∨ sign = [byte '-']) ∧ Digits d ∧ t=e::(sign++d)

def JsonNumber (t : Bytes) : Prop :=
  ∃ sign whole fraction exponent, (sign=[] ∨ sign = [byte '-']) ∧ WholePart whole ∧
    FractionPart fraction ∧ ExponentPart exponent ∧ t=sign++(whole++(fraction++exponent))

def Blank (w : Bytes) : Prop := ∀ b∈w, b=0x20 ∨ b=0x09 ∨ b=0x0a ∨ b=0x0d

instance (w : Bytes) : Decidable (Blank w) := List.decidableBAll _ w

def quote (t : Bytes) : Bytes := byte '"' :: (t ++ [byte '"'])

def commas (ts : List Bytes) : Bytes := [byte ','].intercalate ts

def JsonKey (k : Bytes) : Prop :=
  ∃ w t w', Blank w ∧ JsonChars t ∧ Blank w' ∧ k=w++(quote t ++ w')

mutual
inductive JsonValue : Bytes → Prop
  | string {t : Bytes} (h : JsonChars t) : JsonValue (quote t)
  | number {t : Bytes} (h : JsonNumber t) : JsonValue t
  | word {t : Bytes} (h : t ∈ [bytes "true",bytes "false",bytes "null"]) : JsonValue t
  | array (ts : List Bytes) (h : ∀ t∈ts, JsonElement t) :
    JsonValue (byte '[' :: (commas ts ++ [byte ']']))
  | blankArray {w : Bytes} (h : Blank w) : JsonValue (byte '[' :: (w ++ [byte ']']))
  | object (ms : List (Bytes×Bytes)) (hk : ∀ m∈ms, JsonKey m.1)
    (hv : ∀ m∈ms, JsonElement m.2) :
    JsonValue (byte '{' :: (commas (ms.map fun m => m.1++byte ':' :: m.2) ++ [byte '}']))
  | blankObject {w : Bytes} (h : Blank w) : JsonValue (byte '{' :: (w ++ [byte '}']))

inductive JsonElement : Bytes → Prop
  | pad (w w' : Bytes) {v : Bytes} (hw : Blank w) (hw' : Blank w') (hv : JsonValue v) :
    JsonElement (w++(v++w'))
end

theorem Blank.nil : Blank []:=by
  intro b hb
  cases hb

theorem JsonValue.element {v:Bytes} (h:JsonValue v) : JsonElement v:=by
  have hpad:=JsonElement.pad [] [] .nil .nil h
  rwa [List.nil_append,List.append_nil] at hpad

theorem JsonElement.before {w:Bytes} (hw:Blank w) (h:JsonElement t) : JsonElement (w++t):=by
  cases h with
  | pad w₁ w' hw₁ hw' hv=>
    rw [← List.append_assoc]
    refine .pad (w++w₁) w' (fun b hb=>?_) hw' hv
    rcases List.mem_append.mp hb with hb | hb
    · exact hw b hb
    · exact hw₁ b hb

theorem jsonKey_quote (h:JsonChars t) : JsonKey (quote t):=⟨[],t,[],.nil,h,.nil,by simp⟩

theorem commas_cons_cons (t u:Bytes) (ts:List Bytes) :
    commas (t::u::ts) = t++(byte ',' :: commas (u::ts)):=by
  simp [commas,List.intercalate,List.intersperse]

theorem intercalate_blank (w t:Bytes) (ts:List Bytes) :
    (byte ',' :: w).intercalate (t::ts) = commas (t::ts.map (w ++ ·)):=by
  induction ts generalizing t with
  | nil=>simp [commas,List.intercalate,List.intersperse]
  | cons u us ih=>
    have hstep : (byte ',' :: w).intercalate (t::u::us) =
        t++(byte ',' :: (w++(byte ',' :: w).intercalate (u::us))):=by
      simp [List.intercalate,List.intersperse]
    rw [hstep,ih,List.map_cons,commas_cons_cons]
    cases us with
    | nil=>simp [commas,List.intercalate]
    | cons v vs=>simp [commas_cons_cons]

/-- Where a reader of the text stands. -/
inductive Place
  | bare | inside | escape
  deriving DecidableEq

def Place.step : Place → UInt8 → Place
  | .bare, b => if b = byte '"' then .inside else .bare
  | .inside, b => if b = byte '"' then .bare else if b = byte '\\' then .escape else .inside
  | .escape, _ => .inside

/-- Where the reader stands behind the text, unless it met a bare `i`. -/
def scan : Place → Bytes → Option Place
  | p, [] => some p
  | p, b::t => if p = .bare ∧ b = byte 'i' then none else scan (p.step b) t

/-- No bare `i`, and every string is closed. -/
def Clean (t : Bytes) : Prop := scan .bare t = some .bare

instance (t : Bytes) : Decidable (Clean t) := inferInstanceAs (Decidable (_ = _))

theorem scan_append (p:Place) (s t:Bytes) :
    scan p (s++t) = (scan p s).bind fun q=>scan q t:=by
  induction s generalizing p with
  | nil=>rfl
  | cons b s ih=>
    rw [List.cons_append,scan,scan]
    split
    · rfl
    · exact ih _

theorem Clean.append {s:Bytes} (hs:Clean s) (ht:Clean t) : Clean (s++t):=by
  rw [Clean,scan_append,hs]
  exact ht

theorem Clean.cons (hq:b≠byte '"') (hi:b≠byte 'i') (ht:Clean t) : Clean (b::t):=by
  rw [Clean,scan,if_neg fun h=>hi h.2,Place.step,if_neg hq]
  exact ht

theorem Clean.of_forall (h:∀b∈t,b≠byte '"' ∧ b≠byte 'i') : Clean t:=by
  induction t with
  | nil=>rfl
  | cons b t ih=>
    have hb:=h b List.mem_cons_self
    exact (ih fun c hc=>h c (List.mem_cons_of_mem _ hc)).cons hb.1 hb.2

theorem scan_inside (hq:b≠byte '"') (hs:b≠byte '\\') : scan .inside (b::t)=scan .inside t:=by
  rw [scan,if_neg fun h=>absurd h.1 (by decide),Place.step,if_neg hq,if_neg hs]

theorem JsonChars.scans (h:JsonChars t) : scan .inside t=some .inside:=by
  induction h with
  | nil=>rfl
  | plain hb _ ih=>rw [scan_inside hb.2.1 hb.2.2,ih]
  | escape _ _ ih=>exact ih
  | @unicode a b c d t hx _ ih=>
    have hdigit : ∀x,(hexValue x).isSome → x≠byte '"' ∧ x≠byte '\\' := by
      intro x hsome
      constructor <;> rintro rfl <;> exact absurd hsome (by decide)
    have hd : ∀x∈[a,b,c,d], x≠byte '"' ∧ x≠byte '\\' := fun x hmem=>hdigit x (hx x hmem)
    simp only [List.forall_mem_cons] at hd
    obtain ⟨ha,hb,hc,hd,-⟩:=hd
    change scan .inside (a::b::c::d::t)=some .inside
    rw [scan_inside ha.1 ha.2,scan_inside hb.1 hb.2,scan_inside hc.1 hc.2,scan_inside hd.1 hd.2, ih]

theorem JsonChars.clean (h:JsonChars t) : Clean (quote t):=by
  change scan .inside (t++[byte '"']) = some .bare
  rw [scan_append,h.scans]
  rfl

theorem Blank.clean {w:Bytes} (h:Blank w) : Clean w:=by
  apply Clean.of_forall
  intro b hb
  rcases h b hb with rfl | rfl | rfl | rfl <;> decide

theorem Digits.clean (h:∀b∈t,Digit b) : Clean t:=by
  apply Clean.of_forall
  intro b hb
  constructor <;> rintro rfl <;> exact absurd (h _ hb) (by decide)

theorem JsonNumber.clean (h:JsonNumber t) : Clean t:=by
  obtain ⟨sign,whole,frac,exp,hsign,hwhole,hfrac,hexp,rfl⟩:=h
  have hs : Clean sign:=by
    rcases hsign with rfl | rfl <;> rfl
  have hw : Clean whole:=by
    rcases hwhole with rfl | ⟨hd,-⟩
    · rfl
    · exact Digits.clean hd.2
  have hf : Clean frac:=by
    rcases hfrac with rfl | ⟨d,hd,rfl⟩
    · rfl
    · exact (Digits.clean hd.2).cons (by decide) (by decide)
  have he : Clean exp:=by
    rcases hexp with rfl | ⟨e,sign,d,he,hsign,hd,rfl⟩
    · rfl
    · have htail : Clean (sign++d):=by
        rcases hsign with rfl | rfl | rfl
        · exact Digits.clean hd.2
        · exact (Digits.clean hd.2).cons (by decide) (by decide)
        · exact (Digits.clean hd.2).cons (by decide) (by decide)
      rcases he with rfl | rfl
      · exact htail.cons (by decide) (by decide)
      · exact htail.cons (by decide) (by decide)
  exact hs.append (hw.append (hf.append he))

theorem clean_commas {ts:List Bytes} (h:∀t∈ts,Clean t) : Clean (commas ts):=by
  induction ts with
  | nil=>rfl
  | cons t ts ih=>
    have ht:=h t List.mem_cons_self
    cases ts with
    | nil=>simpa [commas,List.intercalate] using ht
    | cons u us=>
      rw [commas_cons_cons]
      exact ht.append ((ih fun v hv=>h v (List.mem_cons_of_mem _ hv)).cons (by decide) (by decide))

theorem Clean.bracket {l r:UInt8} (hl:l≠byte '"' ∧ l≠byte 'i')
    (hr:r≠byte '"' ∧ r≠byte 'i') (h:Clean t) : Clean (l::(t++[r])):=
  (h.append ((show Clean [] from rfl).cons hr.1 hr.2)).cons hl.1 hl.2

theorem JsonKey.clean {k:Bytes} (h:JsonKey k) : Clean k:=by
  obtain ⟨w,t,w',hw,ht,hw',rfl⟩:=h
  exact hw.clean.append (ht.clean.append hw'.clean)

mutual
theorem JsonValue.clean {t:Bytes} : JsonValue t → Clean t
  | .string h=>h.clean
  | .number h=>h.clean
  | .word h=>by
    simp only [List.mem_cons,List.not_mem_nil,or_false] at h
    rcases h with rfl | rfl | rfl <;> decide
  | .array ts h=>(clean_commas fun t ht=>(h t ht).clean).bracket (by decide) (by decide)
  | .blankArray h=>h.clean.bracket (by decide) (by decide)
  | .object ms hk hv=>by
    refine (clean_commas fun t ht=>?_).bracket (by decide) (by decide)
    obtain ⟨m,hm,rfl⟩:=List.mem_map.mp ht
    exact (hk m hm).clean.append ((hv m hm).clean.cons (by decide) (by decide))
  | .blankObject h=>h.clean.bracket (by decide) (by decide)

theorem JsonElement.clean {t:Bytes} : JsonElement t → Clean t
  | .pad _ _ hw hw' hv=>hw.clean.append (hv.clean.append hw'.clean)
end

end AutoRefirst.JsonText
