import AutoRefirst.AndroidManifest
import Mathlib.Tactic.Ring

/-!
# The manifest parser stays inside its input

Every function says what it needs to be inside the input and what holds of its result. The
assumption on the sums is never used: none of them can be cut.
-/

namespace AutoRefirst.Apk
open CheckedRun

variable {A : Sum Site→Prop} {d : Bytes}

theorem need_keeps (doc:String) (off n:ℕ) (what:String) :
    Keeps A d (need doc d off n what) fun _=>off+n≤d.length:=by
  apply (Keeps.failIf _ _ _).mono
  intro _ h
  omega

theorem numberAt_keeps (doc:String) (off n:ℕ) (what:String) :
    Keeps A d (numberAt doc d off n what) fun v=>
      off + n ≤ d.length ∧ v=littleEndian ((d.drop off).take n):=by
  apply (need_keeps doc off n what).bind
  intro _ h
  apply (Keeps.read h).bind
  rintro b rfl
  exact Keeps.pure ⟨h,rfl⟩

theorem byteAt_keeps {off:ℕ} (h:off<d.length) : Keeps A d (byteAt d off) fun _=>True:=by
  apply (Keeps.read h).bind
  intro b _
  exact Keeps.pure trivial

theorem pairAt_keeps {off:ℕ} (h:off+2≤d.length) : Keeps A d (pairAt d off) fun _=>True:=by
  apply (Keeps.read h).bind
  intro b _
  exact Keeps.pure trivial

theorem pair_lt (off:ℕ) : littleEndian ((d.drop off).take 2)<2^16:=by
  apply Nat.lt_of_lt_of_le (littleEndian_lt _)
  exact Nat.pow_le_pow_right (by omega:256>0) (List.length_take_le 2 _)

/-- The end of a length that is not cut off lies before the end of its string. -/
def EndsBy (stop : ℕ) (x : ℕ×Option ℕ) : Prop := ∀ n, x.2 = some n → x.1 ≤ stop

theorem len8_keeps {p stop:ℕ} (hstop:stop≤d.length) :
    Keeps A d (len8 d p stop) (EndsBy stop):=by
  apply Keeps.ite
  case hx=>exact fun _=>Keeps.pure nofun
  intro hp
  apply (byteAt_keeps (by omega)).bind
  intro x _
  apply Keeps.ite
  case hx=>exact fun _=>Keeps.pure fun _ _=>by show p+1 ≤ stop;omega
  intro _
  apply Keeps.ite
  case hx=>exact fun _=>Keeps.pure nofun
  intro hp'
  apply (byteAt_keeps (by omega)).bind
  intro y _
  exact Keeps.pure fun _ _=>by show p+2 ≤ stop;omega

theorem len16_keeps {p stop:ℕ} (hstop:stop≤d.length) :
    Keeps A d (len16 d p stop) (EndsBy stop):=by
  apply Keeps.ite
  case hx=>exact fun _=>Keeps.pure nofun
  intro hp
  apply (pairAt_keeps (by omega)).bind
  intro x _
  apply Keeps.ite
  case hx=>exact fun _=>Keeps.pure fun _ _=>by show p+2 ≤ stop;omega
  intro _
  apply Keeps.ite
  case hx=>exact fun _=>Keeps.pure nofun
  intro hp'
  apply (pairAt_keeps (by omega)).bind
  intro y _
  exact Keeps.pure fun _ _=>by show p+4 ≤ stop;omega

namespace AxmlParser

theorem u16_keeps (off:ℕ) : Keeps A d (u16 d off) fun v=>off+2≤d.length ∧ v<2^16:=
  (numberAt_keeps doc off 2 "uint16").mono fun _ h=>⟨h.1,h.2▸pair_lt off⟩

theorem u32_keeps (off:ℕ) : Keeps A d (u32 d off) fun _=>off+4≤d.length:=
  (numberAt_keeps doc off 4 "uint32").mono fun _ h=>h.1

variable (st : AxmlState)

theorem str_keeps (idx off:ℕ) : Keeps A d (str st idx off) fun _=>True:=by
  unfold str
  cases st.strings[idx]? with
  | none=>exact Keeps.fail _ _
  | some s=>exact Keeps.pure trivial

theorem strOrNone_keeps (idx off:ℕ) : Keeps A d (strOrNone st idx off) fun _=>True:=
  Keeps.ite (fun _=>Keeps.pure trivial) fun _=>str_keeps st idx off

variable {stop : ℕ}

theorem lengthAt_keeps {x:ℕ×Option ℕ} (h:EndsBy stop x) (message:String) :
    Keeps A d (lengthAt x message) fun _=>x.1 ≤ stop:=by
  unfold lengthAt
  cases hx : x.2 with
  | none=>exact Keeps.fail _ _
  | some n=>exact Keeps.pure (h n hx)

variable {p : ℕ}

theorem stringUtf8_keeps (hstop:stop≤d.length) :
    Keeps A d (stringUtf8 d p stop) fun _=>True:=by
  apply (len8_keeps hstop).bind
  intro x hx
  apply (lengthAt_keeps hx _).bind
  intro utf16Len _
  apply (len8_keeps hstop).bind
  intro y hy
  apply (lengthAt_keeps hy _).bind
  intro bytesLen hp
  apply Keeps.check
  intro hfits
  push Not at hfits
  apply (Keeps.read (by omega)).bind
  intro text _
  apply Keeps.check
  intro _
  apply (byteAt_keeps (by omega)).bind
  intro last _
  apply Keeps.check
  intro _
  apply Keeps.check
  intro _
  exact Keeps.pure trivial

theorem stringUtf16_keeps (hstop:stop≤d.length) :
    Keeps A d (stringUtf16 d p stop) fun _=>True:=by
  apply (len16_keeps hstop).bind
  intro x hx
  apply (lengthAt_keeps hx _).bind
  intro units hp
  apply Keeps.check
  intro hfits
  push Not at hfits
  apply (u16_keeps _).bind
  intro last _
  apply Keeps.check
  intro _
  apply (Keeps.read (by omega)).bind
  intro text _
  cases utf16leToUtf8 text with
  | none=>exact Keeps.fail _ _
  | some s=>exact Keeps.pure trivial

theorem poolHeader_keeps (off hs size:ℕ) :
    Keeps A d (poolHeader d off hs size) fun h=>h.stringEnd≤off+size:=by
  apply (u32_keeps _).bind
  intro count _
  apply (u32_keeps _).bind
  intro styleCount _
  apply (u32_keeps _).bind
  intro flags _
  apply (u32_keeps _).bind
  intro stringsStart _
  apply (u32_keeps _).bind
  intro stylesStart _
  apply Keeps.check
  intro hcounts
  push Not at hcounts
  -- two counts of at most a million are not cut to 32 bits
  apply (Keeps.sum fun _=>by omega).bind
  intro entries _
  apply Keeps.check
  intro _
  apply Keeps.check
  intro _
  apply Keeps.check
  intro hstyles
  apply Keeps.pure
  dsimp only
  split <;> omega

theorem poolString_keeps (off hs size:ℕ) {h:PoolHeader} (hstop:h.stringEnd≤d.length)
    (i:ℕ) : Keeps A d (poolString d off hs size h i) fun _=>True:=by
  apply (u32_keeps _).bind
  intro roff _
  apply Keeps.check
  intro _
  apply Keeps.check
  intro _
  exact Keeps.ite (fun _=>stringUtf8_keeps hstop) fun _=>stringUtf16_keeps hstop

variable {off hs size : ℕ}

theorem parseStringPool_keeps (hoff:off+size≤d.length) :
    Keeps A d (parseStringPool d st off hs size) fun _=>True:=by
  apply Keeps.check
  intro _
  apply Keeps.check
  intro _
  apply (poolHeader_keeps off hs size).bind
  intro h hend
  have hstop : h.stringEnd≤d.length:=Nat.le_trans hend hoff
  apply (Keeps.each (P:=fun _=>True) (fun out _ i _=>?_) trivial).bind
  · intro strings _
    exact Keeps.pure trivial
  · apply (poolString_keeps off hs size hstop i).bind
    intro s _
    exact Keeps.pure trivial

theorem attr_keeps {a asz:ℕ} (st:AxmlState) (ha:a+asz≤d.length) :
    Keeps A d (attr d st a asz) fun _=>True:=by
  apply Keeps.check
  intro hasz
  apply (u32_keeps _).bind
  intro nsIdx _
  apply (u32_keeps _).bind
  intro nameIdx _
  apply (u32_keeps _).bind
  intro rawIdx _
  apply (strOrNone_keeps st nsIdx _).bind
  intro ns _
  apply (str_keeps st nameIdx _).bind
  intro name _
  apply (strOrNone_keeps st rawIdx _).bind
  intro raw _
  apply (u16_keeps _).bind
  intro valueSize _
  -- the two bytes read without a check of their own are inside the attribute
  apply (byteAt_keeps (by omega)).bind
  intro res0 _
  apply (byteAt_keeps (by omega)).bind
  intro type _
  apply (u32_keeps _).bind
  intro data _
  apply Keeps.check
  intro _
  apply Keeps.ite
  · intro _
    apply (str_keeps st data _).bind
    intro value _
    exact Keeps.pure trivial
  · exact fun _=>Keeps.pure trivial

theorem attributes_keeps {attrs count:ℕ} (st:AxmlState) (h:attrs+size*count≤d.length) :
    Keeps A d (attributes d st attrs size count) fun _=>True:=by
  apply Keeps.each (P:=fun _=>True) _ trivial
  intro av _ i hi
  have hmul : size*(i+1) ≤ size*count:=Nat.mul_le_mul_left _ (List.mem_range.mp hi)
  rw [Nat.mul_add,Nat.mul_one,Nat.mul_comm size i] at hmul
  apply (attr_keeps st (by omega)).bind
  intro x _
  apply Keeps.check
  intro _
  exact Keeps.pure trivial

theorem consumeElement_keeps (tag:Bytes) (attrs:List Attr) (off:ℕ) :
    Keeps A d (consumeElement st tag attrs off) fun _=>True:=by
  apply Keeps.check
  intro _
  apply Keeps.check
  intro _
  apply Keeps.check
  intro _
  exact Keeps.pure trivial

theorem headerTooShort_keeps (size:ℕ) {extra:ℕ} (off:ℕ) (message:String)
    (h:hs+extra<2^32) :
    Keeps A d (headerTooShort hs size extra off message) fun _=>hs+extra ≤ size:=by
  apply Keeps.check
  intro _
  apply (Keeps.sum fun _=>h).bind
  rintro least rfl
  exact (Keeps.failIf _ _ _).mono fun _=>Nat.le_of_not_lt

theorem parseStartElement_keeps (hoff:off+size≤d.length)
    (hhs:hs<2^16) : Keeps A d (parseStartElement d st off hs size) fun _=>True:=by
  apply Keeps.check
  intro _
  apply Keeps.check
  intro _
  apply (headerTooShort_keeps size off _ (by omega)).bind
  intro _ _
  apply (u32_keeps _).bind
  intro tagIdx _
  apply (str_keeps st tagIdx _).bind
  intro tag _
  apply (u16_keeps _).bind
  intro attributeStart _
  apply (u16_keeps _).bind
  intro attributeSize _
  apply (u16_keeps _).bind
  intro attributeCount _
  apply (u16_keeps _).bind
  intro idIndex _
  apply (u16_keeps _).bind
  intro classIndex _
  apply (u16_keeps _).bind
  intro styleIndex _
  apply Keeps.check
  intro _
  apply Keeps.check
  intro _
  apply Keeps.check
  intro hattrs
  push Not at hattrs
  apply (attributes_keeps st (by omega)).bind
  intro av _
  apply (consumeElement_keeps st tag av off).bind
  intro st' _
  exact Keeps.pure trivial

theorem parseEndElement_keeps (hhs:hs<2^16) :
    Keeps A d (parseEndElement d st off hs size) fun _=>True:=by
  apply (headerTooShort_keeps size off _ (by omega)).bind
  intro _ _
  apply (u32_keeps _).bind
  intro tagIdx _
  apply (str_keeps st tagIdx _).bind
  intro tag _
  apply Keeps.check
  intro _
  exact Keeps.pure trivial

theorem parseResourceMap_keeps (p hs size:ℕ) (st:AxmlState) :
    Keeps A d (parseResourceMap d st p hs size) fun _=>True:=by
  apply Keeps.check
  intro _
  apply Keeps.check
  intro _
  apply Keeps.check
  intro _
  apply (Keeps.each (P:=fun _=>True) (fun ids _ i _=>?_) trivial).bind
  · intro ids _
    exact Keeps.pure trivial
  · apply (u32_keeps _).bind
    intro id _
    exact Keeps.pure trivial

theorem parseNamespace_keeps (hhs:hs<2^16) :
    Keeps A d (parseNamespace d st p hs size) fun _=>True:=by
  apply (headerTooShort_keeps size p _ (by omega)).bind
  intro _ _
  apply (u32_keeps _).bind
  intro a _
  apply (strOrNone_keeps st a _).bind
  intro _ _
  apply (u32_keeps _).bind
  intro b _
  apply (strOrNone_keeps st b _).bind
  intro _ _
  exact Keeps.pure trivial

theorem parseCdata_keeps (hp:p+size≤d.length) (hhs:hs<2^16) :
    Keeps A d (parseCdata d st p hs size) fun _=>True:=by
  apply (headerTooShort_keeps size p _ (by omega)).bind
  intro _ hleast
  apply (u32_keeps _).bind
  intro a _
  apply (str_keeps st a _).bind
  intro _ _
  apply (u16_keeps _).bind
  intro valueSize _
  apply Keeps.check
  intro _
  apply (byteAt_keeps (by omega)).bind
  intro res0 _
  apply Keeps.check
  intro _
  exact Keeps.pure trivial

theorem parseChunk_keeps (type:ℕ) (hp:p+size≤d.length)
    (hhs:hs<2^16) : Keeps A d (parseChunk d st p type hs size) fun _=>True:=by
  apply Keeps.ite (fun _=>parseStringPool_keeps st hp)
  intro _
  apply Keeps.ite (fun _=>parseResourceMap_keeps p hs size st)
  intro _
  apply Keeps.ite (fun _=>parseNamespace_keeps st hhs)
  intro _
  apply Keeps.ite (fun _=>parseStartElement_keeps st hp hhs)
  intro _
  apply Keeps.ite (fun _=>parseEndElement_keeps st hhs)
  intro _
  exact Keeps.ite (fun _=>parseCdata_keeps st hp hhs) fun _=>Keeps.fail _ _

theorem chunkTurn_keeps (s:ℕ×AxmlState) : Keeps A d (chunkTurn d s)
      (Turn (fun _=>True) (fun _=>True) (fun s=>d.length-s.1) s):=by
  apply Keeps.ite
  case hy=>exact fun _=>Keeps.pure trivial
  intro hs
  apply (need_keeps _ _ _ _).bind
  intro _ _
  apply (u16_keeps _).bind
  intro type _
  apply (u16_keeps _).bind
  intro hs hhs
  apply (u32_keeps _).bind
  intro size _
  apply Keeps.check
  intro hgeometry
  push Not at hgeometry
  apply (parseChunk_keeps s.2 type (by omega) hhs.2).bind
  intro st _
  apply Keeps.pure
  refine ⟨trivial,?_⟩
  dsimp only
  omega

theorem parse_keeps : Keeps A d (parse d st) fun _=>True:=by
  apply (u16_keeps _).bind
  intro rootHs _
  apply (u32_keeps _).bind
  intro rootSize _
  apply Keeps.check
  intro _
  apply (Keeps.turns _ (fun s _=>chunkTurn_keeps s) trivial (by dsimp only;omega)).bind
  intro s _
  apply Keeps.check
  intro _
  exact Keeps.pure trivial

theorem run_keeps : Keeps A d (run d) fun _=>True:=by
  apply Keeps.ite
  case hx=>exact fun _=>Keeps.pure trivial
  intro hd
  apply (Keeps.read (by omega)).bind
  intro b _
  apply Keeps.ite
  case hx=>exact fun _=>Keeps.pure trivial
  intro _
  exact (parse_keeps _).caught _ _

end AxmlParser

end AutoRefirst.Apk
