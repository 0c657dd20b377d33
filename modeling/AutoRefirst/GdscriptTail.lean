import AutoRefirst.Fallible
import AutoRefirst.PortableExecutable
import Mathlib.Data.List.Chain
import Mathlib.Data.Finset.Insert

/-!
# The tail of the old GDScript buffers

Behind the identifiers and constants of a Godot 2 or 3 buffer stand a sparse line map and the
tokens. An entry of the map is two words, a token is one byte when it carries no data and a word
with bit 7 set otherwise. Words are natural numbers.
-/

namespace AutoRefirst.Gdscript
open List Option

structure Cursor where
  bytes : Bytes
  pos : ℕ := 0

def Cursor.rest (c : Cursor) : Bytes := c.bytes.drop c.pos

def u32 (d : Bytes) (o : ℕ) : ℕ := (rd 4 d o).getD 0

structure LegacyParsedToken where
  (offset word recordSize : ℕ := 0)
  deriving DecidableEq

def LegacyParsedToken.type (t : LegacyParsedToken) : ℕ := t.word &&& 0xff

def LegacyParsedToken.dataIndex (t : LegacyParsedToken) : ℕ := t.word >>> 8

structure LegacyTailPlanes where
  valid : Bool := false
  (failureStage error : String := "")
  maps : List (ℕ×ℕ) := []
  tokens : List LegacyParsedToken := []
  deriving DecidableEq

/-- The line of an entry; the column stands in the high byte. -/
def line (linecol : ℕ) : ℕ := linecol &&& 0x00ffffff

/-- A failure returns what has been read so far. -/
abbrev Tail := Except LegacyTailPlanes

def refuse {α : Type} (out : LegacyTailPlanes) (stage error : String) : Tail α :=
  .error {out with failureStage:=stage,error:=error}

theorem refuse_ne {α:Type} {out:LegacyTailPlanes} {stage error:String} {a:α} :
    refuse out stage error≠.ok a:=by
  simp [refuse]

/-- The same step a number of times. -/
def rounds {σ : Type} (step : σ→Tail σ) : ℕ → σ → Tail σ
  | 0, s => .ok s
  | n+1, s => step s >>= rounds step n

structure MapState where
  c : Cursor
  out : LegacyTailPlanes := {}
  (prevToken prevLine : ℕ := 0)
  have_ : Bool := false
  lineTokens : Finset ℕ := ∅

def MapState.push (s : MapState) (e : ℕ×ℕ) : MapState where
  c := {s.c with pos:=s.c.pos+8}
  out := {s.out with maps:=s.out.maps++[e]}
  prevToken := e.1
  prevLine := line e.2
  have_ := true
  lineTokens := insert e.1 s.lineTokens

def parseMap (family : String) (tokenCount : ℕ) (s : MapState) : Tail MapState :=
  if s.c.bytes.length-s.c.pos < 8 then
    refuse s.out "lines" (family++" sparse line map is truncated")
  else
    let ti := u32 s.c.bytes s.c.pos
    let linecol := u32 s.c.bytes (s.c.pos+4)
    if ti ≥ tokenCount ∨ ti ∈ s.lineTokens ∨
        (s.have_ ∧ (ti ≤ s.prevToken ∨ line linecol < s.prevLine)) then
      refuse s.out "lines"
        (family++" sparse line map is noncanonical or references outside token stream")
    else .ok (s.push (ti,linecol))

structure TokenState where
  c : Cursor
  out : LegacyTailPlanes

def TokenState.push (s : TokenState) (word size : ℕ) : TokenState where
  c := {s.c with pos:=s.c.pos+size}
  out := {s.out with tokens:=s.out.tokens++[⟨s.c.pos,word,size⟩]}

def parseToken (family : String) (s : TokenState) : Tail TokenState :=
  if s.c.pos ≥ s.c.bytes.length then refuse s.out "tokens" (family++" token stream is truncated")
  else
    let first := s.c.bytes.getD s.c.pos 0
    let wide : Bool := first &&& 0x80 ≠ 0
    if wide ∧ s.c.bytes.length-s.c.pos < 4 then
      refuse s.out "tokens" (family++" wide token is truncated")
    else
      let word := if wide then u32 s.c.bytes s.c.pos &&& 0xffffff7f else first.toNat
      if decide (word > 0xff) ≠ wide then
        refuse s.out "tokens" (family++" token does not use canonical 1/4-byte encoding")
      else .ok (s.push word (if wide then 4 else 1))

def tailRun (c : Cursor) (lineCount tokenCount : ℕ) (family : String) : Tail LegacyTailPlanes :=
  rounds (parseMap family tokenCount) lineCount {c:=c} >>= fun m =>
    if 0 ∉ m.lineTokens then
      refuse m.out "lines" (family++" sparse line map does not anchor token zero")
    else rounds (parseToken family) tokenCount ⟨m.c,m.out⟩ >>= fun t =>
      if t.c.pos ≠ t.c.bytes.length then
        refuse t.out "payload_tail" ("bytes remain after "++family++" tables and token stream")
      else .ok {t.out with valid:=true}

def parseLegacyTail (c : Cursor) (lineCount tokenCount : ℕ) (family : String) : LegacyTailPlanes :=
  match tailRun c lineCount tokenCount family with
  | .ok out => out
  | .error out => out

def putWord (w : ℕ) : Bytes :=
  [w.toUInt8,(w/256).toUInt8,(w/256^2).toUInt8,(w/256^3).toUInt8]

def encodeMap (e : ℕ×ℕ) : Bytes := putWord e.1 ++ putWord e.2

/-- A token of a type and data. -/
def encodeToken (t : ℕ×ℕ) : Bytes :=
  if t.2 = 0 then [t.1.toUInt8] else putWord ((t.1 ||| 0x80)+256*t.2)

def encodeTail (maps tokens : List (ℕ×ℕ)) : Bytes :=
  maps.flatMap encodeMap ++ tokens.flatMap encodeToken

/-- An entry is two words. -/
def IsEntry (e : ℕ×ℕ) : Prop := e.1<2^32 ∧ e.2<2^32

def IsToken (t : ℕ×ℕ) : Prop := t.1<128 ∧ t.2<2^24

/-- The later entry is of a later token and of no earlier line. -/
def Before (a b : ℕ×ℕ) : Prop := a.1<b.1 ∧ line a.2 ≤ line b.2

def LegacyParsedToken.fields (t : LegacyParsedToken) : ℕ×ℕ := (t.type,t.dataIndex)

structure LineMap (maps : List (ℕ×ℕ)) : Prop where
  words : ∀ e∈maps, IsEntry e
  ordered : maps.Pairwise Before
  anchored : maps.head?.map Prod.fst = some 0

theorem toNat_toUInt8 (n:ℕ) : n.toUInt8.toNat = n % 256:=by simp [Nat.toUInt8]

theorem putWord_length (w:ℕ) : (putWord w).length=4:=rfl

theorem littleEndian_putWord {w:ℕ} (h:w<2^32) : littleEndian (putWord w)=w:=by
  simp only [putWord,littleEndian,toNat_toUInt8]
  omega

theorem exists_putWord {b:Bytes} (h:b.length=4) :
    littleEndian b<2^32 ∧ b=putWord (littleEndian b):=by
  obtain ⟨x,y,z,u,rfl⟩ : ∃x y z u,b=[x,y,z,u]:=by
    rcases b with _ | ⟨x,_ | ⟨y,_ | ⟨z,_ | ⟨u,_ | ⟨v,b⟩⟩⟩⟩⟩ <;> simp at h ⊢
  have hx:=x.toNat_lt
  have hy:=y.toNat_lt
  have hz:=z.toNat_lt
  have hu:=u.toNat_lt
  simp only [putWord,littleEndian,List.cons.injEq,← UInt8.toNat_inj,toNat_toUInt8]
  refine ⟨?_,?_,?_,?_,?_,trivial⟩ <;> omega

variable {d : Bytes} {o : ℕ}

theorem rd_of_rest {b rest:Bytes} (h:d.drop o = b++rest) (hb:b≠[]) :
    rd b.length d o=some (littleEndian b):=by
  have hlen : d.length-o=b.length+rest.length:=by
    rw [← length_drop,h,length_append]
  have hpos : 0<b.length:=length_pos_of_ne_nil hb
  rw [rd,if_neg (by omega),h,take_left]

theorem u32_of_rest {rest:Bytes} {w:ℕ} (h:d.drop o = putWord w++rest) (hw:w<2^32) :
    u32 d o=w:=by
  have hrd:=rd_of_rest h (by simp [putWord])
  rw [putWord_length,littleEndian_putWord hw] at hrd
  rw [u32,hrd,getD_some]

theorem exists_word (h:4≤d.length-o) :
    u32 d o<2^32 ∧ d.drop o = putWord (u32 d o)++d.drop (o+4):=by
  have hlen : ((d.drop o).take 4).length=4:=by simp only [length_take,length_drop];omega
  obtain ⟨hlt,heq⟩:=exists_putWord hlen
  have hsplit : d.drop o = (d.drop o).take 4++d.drop (o+4):=by
    rw [← drop_drop,take_append_drop]
  have hval : u32 d o=littleEndian ((d.drop o).take 4):=by
    rw [u32,rd,if_neg (by omega),getD_some]
  rw [hval]
  exact ⟨hlt,heq▸hsplit⟩

variable {n : ℕ}

theorem setBit (h:n<128) : n ||| 0x80 = n+128:=by
  rw [Nat.or_comm]
  exact (Nat.two_pow_add_eq_or_of_lt (i:=7) h 1).symm.trans (Nat.add_comm _ _)

theorem clearBit {t d:ℕ} (ht:t<128) (hd:d<2^24) : (t+128+256*d) &&& 0xffffff7f = t+256*d:=by
  have hlow : ((t+128+256*d) &&& 0xffffff7f) % 2^8 = t:=by
    rw [Nat.and_mod_two_pow,show (t+128+256*d) % 2^8 = t+128 by omega,
      ← setBit ht,Nat.and_or_distrib_right]
    rw [show 0xffffff7f % 2^8=2^7-1 from rfl,Nat.and_two_pow_sub_one_eq_mod,
      Nat.and_two_pow_sub_one_eq_mod,Nat.mod_eq_of_lt ht]
    exact Nat.or_zero t
  have hhigh : ((t+128+256*d) &&& 0xffffff7f)/2^8=d:=by
    rw [Nat.and_div_two_pow,show (t+128+256*d)/2^8 = d by omega,
      show 0xffffff7f/2^8=2^24-1 from rfl,Nat.and_two_pow_sub_one_eq_mod,
      Nat.mod_eq_of_lt hd]
  omega

theorem fields_eq (offset w size:ℕ) :
    (LegacyParsedToken.mk offset w size).fields=(w % 256,w / 256):=by
  simp only [LegacyParsedToken.fields,LegacyParsedToken.type,LegacyParsedToken.dataIndex,
    Nat.shiftRight_eq_div_pow]
  rw [show 0xff=2^8-1 from rfl,Nat.and_two_pow_sub_one_eq_mod]

/-- The checks of an entry. -/
def Allowed (tokenCount : ℕ) (s : MapState) (e : ℕ×ℕ) : Prop :=
  e.1 < tokenCount ∧ e.1 ∉ s.lineTokens ∧
    (s.have_ → s.prevToken<e.1 ∧ s.prevLine ≤ line e.2)

variable {family : String}

theorem parseMap_eq_ok {s t:MapState} :
    parseMap family n s=.ok t ↔ ∃e,(IsEntry e ∧ Allowed n s e) ∧
      s.c.rest = encodeMap e++t.c.rest ∧ t=s.push e:=by
  constructor
  · intro h
    unfold parseMap at h
    split at h
    case isTrue=>exact absurd h refuse_ne
    case isFalse hlen=>
      simp only at h
      split at h
      case isTrue=>exact absurd h refuse_ne
      case isFalse hok=>
        obtain ⟨hlt,hti⟩:=exists_word (d:=s.c.bytes) (o:=s.c.pos) (by omega)
        obtain ⟨hlt',hlc⟩:=exists_word (d:=s.c.bytes) (o:=s.c.pos+4) (by omega)
        rw [← Except.ok.inj h]
        refine ⟨_,⟨⟨hlt,hlt'⟩,?_⟩,?_,rfl⟩
        · simp only [not_or,not_and,not_lt,ge_iff_le,not_le] at hok
          exact ⟨hok.1,hok.2.1,hok.2.2⟩
        · simp only [Cursor.rest,MapState.push,encodeMap,append_assoc]
          rw [hti,hlc]
  · rintro ⟨⟨ti,linecol⟩,⟨⟨hti,hlc⟩,hn,hnew,hafter⟩,hrest,rfl⟩
    simp only [Cursor.rest,MapState.push,encodeMap,append_assoc] at hrest
    have hlen : s.c.bytes.length-s.c.pos=8+(s.c.bytes.length-(s.c.pos+8)):=by
      have:=congrArg List.length hrest
      simp only [length_drop,length_append,putWord_length] at this
      omega
    have hfirst : u32 s.c.bytes s.c.pos=ti:=u32_of_rest hrest hti
    have hdrop : s.c.bytes.drop (s.c.pos+4) = putWord linecol++s.c.bytes.drop (s.c.pos+8):=by
      rw [← drop_drop,hrest,drop_left' (putWord_length ti)]
    have hsecond : u32 s.c.bytes (s.c.pos+4)=linecol:=u32_of_rest hdrop hlc
    unfold parseMap
    rw [if_neg (by omega)]
    simp only [hfirst,hsecond]
    rw [if_neg]
    simp only [not_or,not_and,not_lt,ge_iff_le,not_le]
    exact ⟨hn,hnew,hafter⟩

def TokenState.pushFields (s : TokenState) (t : ℕ×ℕ) : TokenState :=
  s.push (t.1+256*t.2) (encodeToken t).length

theorem getD_of_rest {rest:Bytes} {b:UInt8} (h:d.drop o=b::rest) :
    o<d.length ∧ d.getD o 0=b:=by
  have hlt : o<d.length:=by
    by_contra hge
    rw [drop_eq_nil_of_le (by omega)] at h
    exact cons_ne_nil _ _ h.symm
  rw [drop_eq_getElem_cons hlt] at h
  refine ⟨hlt,?_⟩
  rw [getD_eq_getElem?_getD,getElem?_eq_getElem hlt]
  exact (List.cons.inj h).1

theorem wide_iff (b:UInt8) : decide (b &&& 0x80≠0)=decide (128≤b.toNat):=by
  rw [decide_eq_decide,← not_lt,← high_bit]

variable {s : TokenState}

theorem parseToken_complete {t:ℕ×ℕ} (ht:IsToken t)
    (hrest:s.c.rest = encodeToken t++(s.pushFields t).c.rest) :
    parseToken family s=.ok (s.pushFields t):=by
  obtain ⟨type,data⟩:=t
  obtain ⟨htype,hdata⟩:=ht
  simp only at htype hdata
  by_cases hzero : data=0
  case pos=>
    subst hzero
    have hone : encodeToken (type,0)=[type.toUInt8]:=if_pos rfl
    rw [hone] at hrest
    obtain ⟨hlt,hfirst⟩:=getD_of_rest hrest
    have hnat : type.toUInt8.toNat=type:=by rw [toNat_toUInt8];omega
    unfold parseToken
    rw [if_neg (by omega)]
    simp only [hfirst,wide_iff,hnat,show ¬128≤type by omega,decide_false,
      Bool.false_eq_true,false_and,if_false]
    rw [if_neg (by simp;omega),TokenState.pushFields,hone]
    rfl
  case neg=>
    have hfour : encodeToken (type,data)=putWord (type+128+256*data):=by
      rw [encodeToken,if_neg hzero,setBit htype]
    rw [hfour] at hrest
    have hlen : 4 ≤ s.c.bytes.length-s.c.pos:=by
      have:=congrArg List.length hrest
      simp only [Cursor.rest,length_drop,length_append,putWord_length] at this
      omega
    have hword : u32 s.c.bytes s.c.pos = type+128+256*data:=u32_of_rest hrest (by omega)
    have hfirst:=(getD_of_rest hrest).2
    have hnat : (type+128+256*data).toUInt8.toNat=type+128:=by
      rw [toNat_toUInt8];omega
    unfold parseToken
    rw [if_neg (by omega)]
    simp only [hfirst,wide_iff,hnat,hword,clearBit htype hdata,
      show 128 ≤ type+128 by omega,decide_true,if_true,true_and]
    rw [if_neg (by omega),if_neg (by simp;omega),TokenState.pushFields,hfour]
    rfl

theorem parseToken_sound {s':TokenState} (h:parseToken family s=.ok s') : ∃t,IsToken t ∧
      s.c.rest = encodeToken t++s'.c.rest ∧ s'=s.pushFields t:=by
  unfold parseToken at h
  split at h
  case isTrue=>exact absurd h refuse_ne
  case isFalse hpos=>
    have hlt : s.c.pos<s.c.bytes.length:=by omega
    have hrest : s.c.rest=s.c.bytes.getD s.c.pos 0::s.c.bytes.drop (s.c.pos+1):=by
      rw [getD_eq_getElem?_getD,getElem?_eq_getElem hlt,Cursor.rest, drop_eq_getElem_cons hlt]
      rfl
    generalize s.c.bytes.getD s.c.pos 0 = b at h hrest
    have hb:=b.toNat_lt
    by_cases hwide : 128≤b.toNat
    case pos=>
      simp only [wide_iff,hwide,decide_true,if_true,true_and] at h
      split at h
      case isTrue=>exact absurd h refuse_ne
      case isFalse hfits=>
        split at h
        case isTrue=>exact absurd h refuse_ne
        case isFalse hcanon=>
          rw [← Except.ok.inj h]
          obtain ⟨hword,hsplit⟩:=exists_word (d:=s.c.bytes) (o:=s.c.pos) (by omega)
          generalize u32 s.c.bytes s.c.pos = w at *
          have hw : w % 256 = b.toNat:=by
            rw [Cursor.rest,hsplit] at hrest
            have:=congrArg UInt8.toNat (List.cons.inj hrest).1
            rwa [toNat_toUInt8] at this
          have hform : w % 256 - 128 + 128 + 256*(w/256) = w:=by omega
          have hclear : w &&& 0xffffff7f = w % 256 - 128 + 256*(w/256):=by
            rw [← clearBit (t:=w % 256 - 128) (d:=w/256) (by omega) (by omega),hform]
          rw [hclear] at hcanon ⊢
          have hbig:=of_decide_eq_true (not_not.mp hcanon)
          have hfour : encodeToken (w % 256 - 128,w/256)=putWord w:=by
            rw [encodeToken,if_neg (by simp only;omega),setBit (by simp only;omega),hform]
          refine ⟨(w % 256 - 128,w/256),⟨by simp only;omega,by simp only;omega⟩,?_,?_⟩
          · rw [hfour]
            exact hsplit
          · rw [TokenState.pushFields,hfour]
            rfl
    case neg=>
      simp only [wide_iff,hwide,decide_false,Bool.false_eq_true,false_and,if_false] at h
      split at h
      case isTrue=>exact absurd h refuse_ne
      case isFalse=>
        have hone : encodeToken (b.toNat,0)=[b]:=by simp [encodeToken]
        rw [← Except.ok.inj h]
        refine ⟨(b.toNat,0),⟨by simp only;omega,by simp⟩,?_,?_⟩
        · rw [hone]
          exact hrest
        · rw [TokenState.pushFields,hone]
          rfl

theorem parseToken_eq_ok {s':TokenState} : parseToken family s=.ok s' ↔ ∃t,IsToken t ∧
      s.c.rest = encodeToken t++s'.c.rest ∧ s'=s.pushFields t:=by
  constructor
  · exact parseToken_sound
  · rintro ⟨t,ht,hrest,rfl⟩
    exact parseToken_complete ht hrest

section Rounds

variable {σ α : Type} {step : σ→Tail σ} {code : α→Bytes} {rest : σ→Bytes} {push : σ→α→σ}
  {Ok : σ→α→Prop}

/-- Each element is allowed by the state that those before it lead to. -/
def Admits (Ok : σ→α→Prop) (push : σ→α→σ) : σ → List α → Prop
  | _, [] => True
  | s, a::l => Ok s a ∧ Admits Ok push (push s a) l

/-- What a reader of one element says of a reader of many. -/
theorem rounds_eq_ok (hpush:∀s a,rest (push s a)=(rest s).drop (code a).length)
    (hstep:∀s t,step s=.ok t ↔ ∃a,Ok s a ∧ rest s = code a++rest t ∧ t=push s a) {n:ℕ} {s t:σ} :
    rounds step n s=.ok t ↔ ∃l,l.length=n ∧ Admits Ok push s l ∧
      rest s = l.flatMap code++rest t ∧ t=l.foldl push s:=by
  induction n generalizing s with
  | zero=>
    simp only [rounds,length_eq_zero_iff]
    constructor
    · intro h
      obtain rfl : s=t:=Except.ok.inj h
      exact ⟨[],rfl,trivial,rfl,rfl⟩
    · rintro ⟨l,rfl,-,-,rfl⟩
      rfl
  | succ n ih=>
    rw [rounds,Fallible.bind_eq_ok]
    constructor
    · rintro ⟨s',hs',h⟩
      obtain ⟨a,ha,hrest,rfl⟩:=(hstep s s').mp hs'
      obtain ⟨l,hlen,hl,hcode,ht⟩:=ih.mp h
      refine ⟨a::l,by simp [hlen],⟨ha,hl⟩,?_,ht⟩
      rw [hrest,hcode,flatMap_cons,append_assoc]
    · rintro ⟨l,hlen,hl,hcode,ht⟩
      cases l with
      | nil=>exact absurd hlen (by simp)
      | cons a l=>
        rw [flatMap_cons,append_assoc] at hcode
        have hnext : rest (push s a) = l.flatMap code++rest t:=by
          rw [hpush,hcode,drop_left]
        have hfirst : step s=.ok (push s a):=by
          rw [← hnext] at hcode
          exact (hstep s _).mpr ⟨a,hl.1,hcode,rfl⟩
        exact ⟨_,hfirst,ih.mpr ⟨l,Nat.succ.inj hlen,hl.2,hnext,ht⟩⟩

end Rounds

theorem MapState.push_rest (s:MapState) (e:ℕ×ℕ) :
    (s.push e).c.rest=s.c.rest.drop (encodeMap e).length:=
  (drop_drop (i:=8)).symm

theorem TokenState.pushFields_rest (s:TokenState) (t:ℕ×ℕ) :
    (s.pushFields t).c.rest=s.c.rest.drop (encodeToken t).length:=by
  rw [Cursor.rest,Cursor.rest,drop_drop]
  rfl

variable {count : ℕ}

theorem parseMaps_eq_ok {s t:MapState} :
    rounds (parseMap family count) n s=.ok t ↔ ∃l,l.length=n ∧
      Admits (fun s e=>IsEntry e ∧ Allowed count s e) MapState.push s l ∧
      s.c.rest = l.flatMap encodeMap++t.c.rest ∧ t=l.foldl MapState.push s:=
  rounds_eq_ok MapState.push_rest fun _ _=>parseMap_eq_ok

theorem parseTokens_eq_ok {t:TokenState} :
    rounds (parseToken family) n s=.ok t ↔ ∃l,l.length=n ∧
      Admits (fun _ a=>IsToken a) TokenState.pushFields s l ∧
      s.c.rest = l.flatMap encodeToken++t.c.rest ∧ t=l.foldl TokenState.pushFields s:=
  rounds_eq_ok TokenState.pushFields_rest fun _ _=>parseToken_eq_ok

variable {l : List (ℕ×ℕ)}

theorem admits_tokens :
    Admits (fun _ a=>IsToken a) TokenState.pushFields s l ↔ ∀a∈l,IsToken a:=by
  induction l generalizing s with
  | nil=>simp [Admits]
  | cons a l ih=>simp [Admits,ih]

/-- The entry the next one is compared with. -/
structure Last (s : MapState) (e : ℕ×ℕ) : Prop where
  seen : s.have_=true
  token : s.prevToken=e.1
  line : s.prevLine = line e.2
  greatest : ∀ i∈s.lineTokens, i≤e.1

variable {e : ℕ×ℕ}

theorem Last.push (s:MapState) (h:∀i∈s.lineTokens,i≤e.1) : Last (s.push e) e where
  seen:=rfl
  token:=rfl
  line:=rfl
  greatest i hi:=by
    rcases Finset.mem_insert.mp hi with rfl | hi
    · exact le_rfl
    · exact h i hi

theorem Last.allowed_iff {s:MapState} {a:ℕ×ℕ} (h:Last s e) :
    Allowed count s a ↔ a.1<count ∧ Before e a:=by
  constructor
  · rintro ⟨hlt,-,hafter⟩
    rw [h.token,h.line] at hafter
    exact ⟨hlt,hafter h.seen⟩
  · rintro ⟨hlt,hbefore⟩
    refine ⟨hlt,fun hmem=>?_,fun _=>?_⟩
    · exact absurd (h.greatest _ hmem) (not_le.mpr hbefore.1)
    · rw [h.token,h.line]
      exact hbefore

theorem Before.trans {a b c:ℕ×ℕ} (h:Before a b) (h':Before b c) : Before a c:=
  ⟨h.1.trans h'.1,h.2.trans h'.2⟩

instance : Trans Before Before Before := ⟨Before.trans⟩

/-- Behind an entry the checks ask for a chain. -/
theorem Last.admits_iff {s:MapState} (h:Last s e) :
    Admits (fun s e=>IsEntry e ∧ Allowed count s e) MapState.push s l ↔
      (∀a∈l,IsEntry a ∧ a.1<count) ∧ (e::l).Pairwise Before:=by
  rw [← isChain_iff_pairwise]
  induction l generalizing s e with
  | nil=>simp [Admits]
  | cons a l ih=>
    simp only [Admits,isChain_cons_cons,forall_mem_cons,h.allowed_iff]
    constructor
    · rintro ⟨⟨hentry,hlt,hbefore⟩,hl⟩
      have hlast:=Last.push s (e:=a) fun i hi=>(h.greatest i hi).trans hbefore.1.le
      obtain ⟨hall,hchain⟩:=(ih hlast).mp hl
      exact ⟨⟨⟨hentry,hlt⟩,hall⟩,hbefore,hchain⟩
    · rintro ⟨⟨⟨hentry,hlt⟩,hall⟩,hbefore,hchain⟩
      have hlast:=Last.push s (e:=a) fun i hi=>(h.greatest i hi).trans hbefore.1.le
      exact ⟨⟨hentry,hlt,hbefore⟩,(ih hlast).mpr ⟨hall,hchain⟩⟩

variable {c : Cursor}

theorem admits_start : Admits (fun s e=>IsEntry e ∧ Allowed count s e) MapState.push {c:=c} l ↔
      (∀a∈l,IsEntry a ∧ a.1<count) ∧ l.Pairwise Before:=by
  cases l with
  | nil=>simp [Admits]
  | cons a l=>
    have hlast : Last (MapState.push {c:=c} a) a:=Last.push _ (by simp)
    have hfirst : Allowed count {c:=c} a ↔ a.1<count:=by simp [Allowed]
    simp only [Admits,hlast.admits_iff,hfirst,forall_mem_cons]
    tauto

theorem foldl_push (s:MapState) (l:List (ℕ×ℕ)) :
    (l.foldl MapState.push s).out = {s.out with maps:=s.out.maps++l} ∧
      ∀i,i∈(l.foldl MapState.push s).lineTokens ↔ i∈s.lineTokens ∨ i∈l.map Prod.fst:=by
  induction l generalizing s with
  | nil=>simp
  | cons a l ih=>
    obtain ⟨hout,htokens⟩:=ih (s.push a)
    refine ⟨?_,fun i=>?_⟩
    · rw [foldl_cons,hout]
      simp [MapState.push]
    · rw [foldl_cons,htokens]
      simp only [MapState.push,Finset.mem_insert,map_cons,mem_cons]
      tauto

theorem foldl_pushFields (s:TokenState) (l:List (ℕ×ℕ)) (hl:∀a∈l,IsToken a) :
    (l.foldl TokenState.pushFields s).out.maps=s.out.maps ∧
      (l.foldl TokenState.pushFields s).out.tokens.map LegacyParsedToken.fields =
        s.out.tokens.map LegacyParsedToken.fields++l:=by
  induction l generalizing s with
  | nil=>simp
  | cons a l ih=>
    obtain ⟨ha,hl⟩:=forall_mem_cons.mp hl
    obtain ⟨hmaps,htokens⟩:=ih (s.pushFields a) hl
    rw [foldl_cons,hmaps,htokens]
    refine ⟨rfl,?_⟩
    have hfields (o z:ℕ) : (LegacyParsedToken.mk o (a.1+256*a.2) z).fields=a:=by
      obtain ⟨ha,-⟩:=ha
      rw [fields_eq]
      ext <;> simp only <;> omega
    simp [TokenState.pushFields,TokenState.push,hfields]

theorem foldl_pushFields_cursor (s:TokenState) (l:List (ℕ×ℕ)) :
    (l.foldl TokenState.pushFields s).c =
      {s.c with pos:=s.c.pos+(l.flatMap encodeToken).length}:=by
  induction l generalizing s with
  | nil=>rfl
  | cons a l ih=>
    rw [foldl_cons,ih,flatMap_cons,length_append,← Nat.add_assoc]
    rfl

theorem foldl_push_cursor (s:MapState) (l:List (ℕ×ℕ)) :
    (l.foldl MapState.push s).c = {s.c with pos:=s.c.pos+(l.flatMap encodeMap).length}:=by
  induction l generalizing s with
  | nil=>rfl
  | cons a l ih=>
    rw [foldl_cons,ih,flatMap_cons,length_append,← Nat.add_assoc]
    rfl

variable {maps : List (ℕ×ℕ)}

/-- Among entries in order it is the first that is of token zero. -/
theorem anchored_iff (h:maps.Pairwise Before) :
    0∈maps.map Prod.fst ↔ maps.head?.map Prod.fst=some 0:=by
  cases maps with
  | nil=>simp
  | cons a l=>
    obtain ⟨hall,-⟩:=pairwise_cons.mp h
    simp only [map_cons,mem_cons,List.mem_map,head?_cons,map_some, some.injEq]
    constructor
    · rintro (h0 | ⟨b,hb,h0⟩)
      · exact h0.symm
      · exact absurd (hall b hb).1 (by omega)
    · exact fun h0 => .inl h0.symm

/-- Where the tokens of a tail begin. -/
def afterMaps (c : Cursor) (maps : List (ℕ×ℕ)) : TokenState :=
  let s := maps.foldl MapState.push {c:=c}
  ⟨s.c,s.out⟩

variable {tokens : List (ℕ×ℕ)}

/-- Where a cursor ends that stands behind the whole of a tail. -/
theorem rest_eq_iff (hpos:c.pos ≤ c.bytes.length) : c.rest=encodeTail maps tokens ↔
      c.rest = maps.flatMap encodeMap++(afterMaps c maps).c.rest ∧
      (afterMaps c maps).c.rest = tokens.flatMap encodeToken ++
        (tokens.foldl TokenState.pushFields (afterMaps c maps)).c.rest ∧
      (tokens.foldl TokenState.pushFields (afterMaps c maps)).c.pos =
        (tokens.foldl TokenState.pushFields (afterMaps c maps)).c.bytes.length:=by
  rw [foldl_pushFields_cursor,afterMaps,foldl_push_cursor]
  simp only [Cursor.rest,encodeTail]
  constructor
  · intro h
    have hlen:=congrArg List.length h
    rw [length_drop,length_append] at hlen
    have hmid : c.bytes.drop (c.pos+(maps.flatMap encodeMap).length) =
        tokens.flatMap encodeToken:=by
      rw [← drop_drop,h,drop_left]
    have hend : c.pos+(maps.flatMap encodeMap).length+(tokens.flatMap encodeToken).length =
        c.bytes.length:=by omega
    refine ⟨by rw [hmid,h],?_,hend⟩
    rw [hmid,hend,drop_length,append_nil]
  · rintro ⟨hmaps,htokens,hend⟩
    rw [hmaps,htokens,hend,drop_length,append_nil]

variable {lines : ℕ}

theorem tailRun_eq_ok {out:LegacyTailPlanes} (hpos:c.pos ≤ c.bytes.length) :
    tailRun c lines count family=.ok out ↔ ∃maps tokens,maps.length=lines ∧
      tokens.length=count ∧ LineMap maps ∧ (∀e∈maps,e.1<count) ∧
      (∀t∈tokens,IsToken t) ∧ c.rest=encodeTail maps tokens ∧
      out = {(tokens.foldl TokenState.pushFields (afterMaps c maps)).out with valid:=true}:=by
  have hzero (maps:List (ℕ×ℕ)) :
      0∈(maps.foldl MapState.push {c:=c}).lineTokens ↔ 0∈maps.map Prod.fst:=by
    simp [(foldl_push _ maps).2]
  simp only [tailRun,Fallible.bind_eq_ok,parseMaps_eq_ok,admits_start]
  constructor
  · rintro ⟨m,⟨maps,hlines,⟨hall,hordered⟩,hmaps,rfl⟩,h⟩
    split at h
    case isTrue=>exact absurd h refuse_ne
    case isFalse hanchor=>
      obtain ⟨t,ht,h⟩:=Fallible.bind_eq_ok.mp h
      obtain ⟨tokens,hcount,htok,htokens,rfl⟩:=parseTokens_eq_ok.mp ht
      split at h
      case isTrue=>exact absurd h refuse_ne
      case isFalse hend=>
        rw [not_not,hzero,anchored_iff hordered] at hanchor
        exact ⟨maps,tokens,hlines,hcount,⟨fun e he=>(hall e he).1,hordered,hanchor⟩,
          fun e he=>(hall e he).2,admits_tokens.mp htok,
          (rest_eq_iff hpos).mpr ⟨hmaps,htokens,not_not.mp hend⟩,(Except.ok.inj h).symm⟩
  · rintro ⟨maps,tokens,hlines,hcount,hline,hlt,htok,hrest,rfl⟩
    obtain ⟨hmaps,htokens,hend⟩:=(rest_eq_iff hpos).mp hrest
    refine ⟨_,⟨maps,hlines,⟨fun e he=>⟨hline.words e he,hlt e he⟩,hline.ordered⟩,hmaps,rfl⟩,
      ?_⟩
    rw [if_neg (not_not.mpr ((hzero maps).mpr ((anchored_iff hline.ordered).mpr hline.anchored)))]
    refine Fallible.bind_eq_ok.mpr ⟨_,parseTokens_eq_ok.mpr
      ⟨tokens,hcount,admits_tokens.mpr htok,htokens,rfl⟩,?_⟩
    exact if_neg (not_not.mpr hend)

/-- A failure is not marked valid. -/
def Marked {α : Type} (P : α→Prop) : Tail α → Prop
  | .ok a => P a
  | .error out => out.valid = false

theorem Marked.bind {α β:Type} {P:α→Prop} {R:β→Prop} {x:Tail α} {f:α→Tail β}
    (hx:Marked P x) (hf:∀a,P a → Marked R (f a)) : Marked R (x >>= f):=by
  cases x with
  | ok a=>exact hf a hx
  | error out=>exact hx

theorem Marked.rounds {σ:Type} {P:σ→Prop} {step:σ→Tail σ}
    (hstep:∀s,P s → Marked P (step s)) {s:σ} (hs:P s) :
    Marked P (rounds step n s):=by
  induction n generalizing s with
  | zero=>exact hs
  | succ n ih=>exact (hstep s hs).bind fun a ha=>ih ha

theorem parseMap_marked (s:MapState) (hs:s.out.valid=false) :
    Marked (fun s:MapState=>s.out.valid=false) (parseMap family count s):=by
  unfold parseMap
  split
  · exact hs
  · simp only
    split <;> exact hs

theorem parseToken_marked (s:TokenState) (hs:s.out.valid=false) :
    Marked (fun s:TokenState=>s.out.valid=false) (parseToken family s):=by
  unfold parseToken
  split
  · exact hs
  · simp only
    split_ifs <;> exact hs

theorem tailRun_marked (c:Cursor) (lines count:ℕ) (family:String) :
    Marked (fun out=>out.valid=true) (tailRun c lines count family):=by
  refine Marked.bind (Marked.rounds parseMap_marked rfl) fun m hm=>?_
  split
  · exact hm
  · refine Marked.bind (Marked.rounds parseToken_marked hm) fun t ht=>?_
    split
    · exact ht
    · rfl

theorem valid_iff : (parseLegacyTail c lines count family).valid=true ↔
      tailRun c lines count family=.ok (parseLegacyTail c lines count family):=by
  have h:=tailRun_marked c lines count family
  unfold parseLegacyTail
  cases hrun : tailRun c lines count family with
  | ok out=>
    rw [hrun] at h
    exact iff_of_true h rfl
  | error out=>
    rw [hrun] at h
    simp [show out.valid = false from h]

def Cursor.behind (before tail : Bytes) : Cursor := ⟨before++tail,before.length⟩

theorem Cursor.behind_rest (before tail:Bytes) : (behind before tail).rest=tail:=drop_left

theorem Cursor.behind_pos (before tail:Bytes) :
    (behind before tail).pos≤(behind before tail).bytes.length:=by
  simp [behind]

def LegacyTailPlanes.Holds (out : LegacyTailPlanes) (maps tokens : List (ℕ×ℕ)) : Prop :=
  out.maps = maps ∧ out.tokens.map LegacyParsedToken.fields = tokens

theorem holds_of_tokens (c:Cursor) (maps:List (ℕ×ℕ)) (htok:∀t∈tokens,IsToken t) :
    LegacyTailPlanes.Holds { (tokens.foldl TokenState.pushFields (afterMaps c maps)).out with
      valid:=true } maps tokens:=by
  obtain ⟨hmaps,htokens⟩:=foldl_pushFields (afterMaps c maps) tokens htok
  have hout : (afterMaps c maps).out={maps:=maps}:=by
    simp [afterMaps,(foldl_push {c:=c} maps).1]
  rw [hout] at hmaps htokens
  exact ⟨hmaps,htokens⟩

theorem parseLegacyTail_encode (hmaps:LineMap maps) (hlt:∀e∈maps,e.1<tokens.length)
    (htok:∀t∈tokens,IsToken t) (family:String) (before:Bytes) :
    let out:=parseLegacyTail (.behind before (encodeTail maps tokens)) maps.length tokens.length
      family
    out.valid=true ∧ out.Holds maps tokens:=by
  have hrun : tailRun (.behind before (encodeTail maps tokens)) maps.length tokens.length family =
      .ok _:=
    (tailRun_eq_ok (Cursor.behind_pos before (encodeTail maps tokens))).mpr
      ⟨maps,tokens,rfl,rfl,hmaps,hlt,htok,Cursor.behind_rest _ _,rfl⟩
  simp only [parseLegacyTail,hrun]
  exact ⟨trivial,holds_of_tokens _ maps htok⟩

theorem parseLegacyTail_sound {before tail:Bytes}
    (h:(parseLegacyTail (.behind before tail) lines count family).valid=true) :
    ∃maps tokens,(parseLegacyTail (.behind before tail) lines count family).Holds maps tokens ∧
      maps.length=lines ∧ tokens.length=count ∧ LineMap maps ∧ (∀e∈maps,e.1<count) ∧
      (∀t∈tokens,IsToken t) ∧ tail=encodeTail maps tokens:=by
  obtain ⟨maps,tokens,hlines,hcount,hmaps,hlt,htok,hrest,hout⟩:=
    (tailRun_eq_ok (Cursor.behind_pos before tail)).mp (valid_iff.mp h)
  rw [hout]
  exact ⟨maps,tokens,holds_of_tokens _ maps htok,hlines,hcount,hmaps,hlt,htok,
    (Cursor.behind_rest before tail).symm.trans hrest⟩

/-- Encoding and decoding of a tail, both ways, for entries of tokens that are there. -/
theorem legacy_tail_canonical (family : String) (before : Bytes) :
    (∀ maps tokens, LineMap maps → (∀ e∈maps, e.1<tokens.length) → (∀ t∈tokens, IsToken t) →
      let out := parseLegacyTail (.behind before (encodeTail maps tokens)) maps.length
        tokens.length family
      out.valid=true ∧ out.Holds maps tokens) ∧
    (∀ tail lines count,
      let out := parseLegacyTail (.behind before tail) lines count family
      out.valid=true → LineMap out.maps ∧ out.maps.length=lines ∧ out.tokens.length=count ∧
        (∀ e∈out.maps, e.1<count) ∧ (∀ t∈out.tokens, IsToken t.fields) ∧
        tail=encodeTail out.maps (out.tokens.map LegacyParsedToken.fields)) ∧
    (∀ tail lines count tail' lines' count',
      let out := parseLegacyTail (.behind before tail) lines count family
      let out' := parseLegacyTail (.behind before tail') lines' count' family
      out.valid=true → out'.valid=true → out.Holds out'.maps
        (out'.tokens.map LegacyParsedToken.fields) → tail=tail') := by
  refine ⟨fun maps tokens hmaps hlt htok=>parseLegacyTail_encode hmaps hlt htok family before,
    fun tail lines count h=>?_,fun tail lines count tail' lines' count' h h' hsame=>?_⟩
  · obtain ⟨maps,tokens,⟨rfl,rfl⟩,hlines,hcount,hmaps,hlt,htok,htail⟩:=
      parseLegacyTail_sound h
    exact ⟨hmaps,hlines,by simpa using hcount,hlt,
      fun t ht=>htok _ (List.mem_map_of_mem ht),htail⟩
  · obtain ⟨maps,tokens,⟨rfl,rfl⟩,-,-,-,-,-,htail⟩:=parseLegacyTail_sound h
    obtain ⟨maps',tokens',⟨rfl,rfl⟩,-,-,-,-,-,htail'⟩:=parseLegacyTail_sound h'
    rw [htail,htail',hsame.1,hsame.2]

theorem legacy_tail_canonical_pair :
    (parseLegacyTail (.behind [] (encodeTail [(0,0x04000002)] [(1,3),(96,0)])) 1 2
      "Godot 3 tokenizer-v13").Holds [(0,0x04000002)] [(1,3),(96,0)]:=by
  refine ((legacy_tail_canonical "Godot 3 tokenizer-v13" []).1 _ [(1,3),(96,0)] ?_ (by simp)
    (by simp [IsToken])).2
  exact ⟨by simp [IsEntry],by simp,rfl⟩

/-- An entry of a token that is not there. -/
theorem legacy_tail_beyond : ¬ ∀(family:String) (before:Bytes) (maps tokens:List (ℕ×ℕ)),
    LineMap maps → (∀t∈tokens, IsToken t) →
      let out:=parseLegacyTail (.behind before (encodeTail maps tokens)) maps.length
        tokens.length family
      out.valid=true ∧ out.Holds maps tokens:=by
  intro h
  have hmaps : LineMap [(0,1),(5,1)]:=by
    constructor
    · simp [IsEntry]
    · simp [Before]
    · rfl
  have hout:=(h "Godot 2 tokenizer-v10" [] _ [(7,0)] hmaps (by simp [IsToken])).1
  exact absurd hout (by decide)

end AutoRefirst.Gdscript
