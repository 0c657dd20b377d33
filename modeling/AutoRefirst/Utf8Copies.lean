import AutoRefirst.DotNetBundle
import AutoRefirst.WasmReader

/-!
# Checks of UTF-8 and the encoding

Four copies of the check are the same function, up to zero bytes, and it accepts exactly the
encodings of sequences of code points that are not surrogates.
-/

namespace AutoRefirst.Utf8Copies
open List

/-- The bytes that follow a lead byte and what the lead byte holds; a lead byte of an overlong
form of two bytes or of a code point too large has none. -/
def strictLead (c : UInt8) : Option (ℕ×ℕ) :=
  if c &&& 0xe0 = 0xc0 then
    let cp := (c &&& 0x1f).toNat
    if cp < 2 then none else some (1,cp)
  else if c &&& 0xf0 = 0xe0 then some (2,(c &&& 0x0f).toNat)
  else if c &&& 0xf8 = 0xf0 then
    let cp := (c &&& 0x07).toNat
    if cp > 4 then none else some (3,cp)
  else none

def strictFrom : ℕ → Bytes → Bool
  | _, [] => true
  | 0, _::_ => false
  | fuel+1, c::s =>
    if c < 0x80 then strictFrom fuel s
    else match strictLead c with
      | none => false
      | some (need,cp) =>
        if need > s.length then false
        else match utf8Tail need cp s with
          | none => false
          | some (cp,s) =>
            if (need = 2 ∧ cp < 0x800) ∨ (need = 3 ∧ cp < 0x10000) then false
            else if (0xd800 ≤ cp ∧ cp ≤ 0xdfff) ∨ cp > 0x10ffff then false
            else strictFrom fuel s

/-- `valid_utf8` of the asset-manifest codec. -/
def flutterValidUtf8 (s : Bytes) : Bool := strictFrom s.length s

def gdscriptValidUtf8 (s : Bytes) : Bool := strictFrom s.length s

/-- The bytes are the encoding of a sequence of code points, none of them a surrogate. -/
def WellFormed (s : Bytes) : Prop := ∃ l : List Char, l.flatMap String.utf8EncodeChar = s

theorem utf8Lead_eq (c:UInt8) : utf8Lead c =
    if 192 ≤ c.toNat ∧ c.toNat<224 then some (1,0x80,c.toNat % 32)
    else if 224 ≤ c.toNat ∧ c.toNat<240 then some (2,0x800,c.toNat % 16)
    else if 240 ≤ c.toNat ∧ c.toNat<248 then some (3,0x10000,c.toNat % 8)
    else none:=by
  revert c
  exact eachByte (by decide +kernel)

theorem continuation_iff (q:UInt8) : q &&& 0xc0≠0x80 ↔ ¬(128≤q.toNat ∧ q.toNat<192):=by
  revert q
  exact eachByte (by decide +kernel)

theorem continuation_bits (q:UInt8) : (q &&& 0x3f).toNat = q.toNat % 64:=by
  revert q
  exact eachByte (by decide +kernel)

variable (cp : ℕ)

theorem shifted_or (q:UInt8) : (cp <<< 6) ||| (q &&& 0x3f).toNat = cp * 64 + q.toNat % 64:=by
  rw [continuation_bits,← Nat.shiftLeft_add_eq_or_of_lt (Nat.mod_lt _ (by decide) :
    q.toNat % 64<2^6),Nat.shiftLeft_eq]

def Continues (q : UInt8) : Prop := 128≤q.toNat ∧ q.toNat<192

instance {q : UInt8} : Decidable (Continues q) := inferInstanceAs (Decidable (_ ∧ _))

theorem utf8Tail_cons (n cp:ℕ) (q:UInt8) (s:Bytes) : utf8Tail (n+1) cp (q::s) =
    if Continues q then utf8Tail n (cp*64 + q.toNat % 64) s else none:=by
  rw [utf8Tail,shifted_or]
  by_cases hq : Continues q
  · rw [if_pos hq,if_neg (by rw [continuation_iff];exact not_not.mpr hq)]
  · rw [if_neg hq,if_pos ((continuation_iff q).mpr hq)]

variable {n v : ℕ} {s : Bytes}

theorem utf8Tail_eq_some {cp:ℕ} {rest:Bytes} : utf8Tail n cp s=some (v,rest) ↔
      ∃t,s=t++rest ∧ t.length=n ∧ (∀q∈t,Continues q) ∧
        v = t.foldl (fun cp q=>cp*64 + q.toNat % 64) cp:=by
  induction n generalizing cp s with
  | zero=>
    constructor
    · intro h
      obtain ⟨rfl,rfl⟩:=Prod.mk.inj (Option.some.inj h)
      exact ⟨[],rfl,rfl,fun _ hq=>absurd hq not_mem_nil,rfl⟩
    · rintro ⟨t,rfl,hlen,_,rfl⟩
      rw [length_eq_zero_iff.mp hlen]
      rfl
  | succ n ih=>
    cases s with
    | nil=>
      refine iff_of_false (fun h=>by cases h) ?_
      rintro ⟨t,ht,hlen,_⟩
      rw [(append_eq_nil_iff.mp ht.symm).1] at hlen
      cases hlen
    | cons q s=>
      rw [utf8Tail_cons]
      split_ifs with hq
      · rw [ih]
        constructor
        · rintro ⟨t,rfl,hlen,hall,rfl⟩
          refine ⟨q::t,rfl,by rw [length_cons,hlen],?_,rfl⟩
          intro x hx
          rcases mem_cons.mp hx with rfl | hx
          · exact hq
          · exact hall x hx
        · rintro ⟨t,ht,hlen,hall,rfl⟩
          cases t with
          | nil=>cases hlen
          | cons x t=>
            obtain ⟨rfl,rfl⟩:=List.cons.inj ht
            exact ⟨t,rfl,Nat.succ.inj hlen,fun y hy=>hall y (mem_cons_of_mem _ hy),rfl⟩
      · refine iff_of_false (fun h=>by cases h) ?_
        rintro ⟨t,ht,hlen,hall,_⟩
        cases t with
        | nil=>cases hlen
        | cons x t=>
          obtain ⟨rfl,rfl⟩:=List.cons.inj ht
          exact hq (hall _ mem_cons_self)

def value (t : Bytes) : ℕ := t.foldl (fun cp q => cp*64 + q.toNat % 64) cp

/-- A code point that is no surrogate. -/
def Scalar (v : ℕ) : Prop := v≤0x10ffff ∧ ¬(0xd800≤v ∧ v≤0xdfff)

inductive Shortest (c : UInt8) : Bytes → ℕ → Prop
  | two {t : Bytes} {v : ℕ} (hlen : t.length=1) (hc : 192 ≤ c.toNat ∧ c.toNat<224)
      (hv : v=value (c.toNat % 32) t) (hmin : 0x80≤v) : Shortest c t v
  | three {t : Bytes} {v : ℕ} (hlen : t.length=2) (hc : 224 ≤ c.toNat ∧ c.toNat<240)
      (hv : v=value (c.toNat % 16) t) (hmin : 0x800≤v) : Shortest c t v
  | four {t : Bytes} {v : ℕ} (hlen : t.length=3) (hc : 240 ≤ c.toNat ∧ c.toNat<248)
      (hv : v=value (c.toNat % 8) t) (hmin : 0x10000≤v) : Shortest c t v

structure Spells (c : UInt8) (t : Bytes) (v : ℕ) : Prop where
  shortest : Shortest c t v
  continues : ∀ q∈t, Continues q
  scalar : Scalar v

variable {t : Bytes}

theorem value_one (h:t.length=1) : ∃q,t=[q] ∧ value cp t = cp*64 + q.toNat % 64:=by
  obtain ⟨q,rfl⟩:=length_eq_one_iff.mp h
  exact ⟨q,rfl,rfl⟩

theorem value_two (h:t.length=2) :
    ∃q r,t=[q,r] ∧ value cp t = (cp*64 + q.toNat % 64)*64 + r.toNat % 64:=by
  obtain ⟨q,r,rfl⟩:=length_eq_two.mp h
  exact ⟨q,r,rfl,rfl⟩

theorem value_three (h:t.length=3) : ∃q r w,t=[q,r,w] ∧
      value cp t = ((cp*64 + q.toNat % 64)*64 + r.toNat % 64)*64 + w.toNat % 64:=by
  obtain ⟨q,r,w,rfl⟩:=length_eq_three.mp h
  exact ⟨q,r,w,rfl,rfl⟩

def afterLead (n cp : ℕ) (ok : ℕ→Bool) (next : Bytes→Bool) (s : Bytes) : Bool :=
  if s.length < n then false
  else match utf8Tail n cp s with
    | none => false
    | some (cp,s) => if ok cp then next s else false

theorem afterLead_iff {cp:ℕ} {ok:ℕ→Bool} {next:Bytes→Bool} : afterLead n cp ok next s=true ↔
      ∃t rest,s=t++rest ∧ t.length=n ∧ (∀q∈t,Continues q) ∧ ok (value cp t)=true ∧
        next rest=true:=by
  unfold afterLead
  constructor
  · intro h
    split_ifs at h with hlen
    split at h
    · cases h
    · next v rest htail=>
      obtain ⟨t,rfl,hn,hall,rfl⟩:=utf8Tail_eq_some.mp htail
      split_ifs at h with hok
      exact ⟨t,rest,rfl,hn,hall,hok,h⟩
  · rintro ⟨t,rest,rfl,hn,hall,hok,h⟩
    have htail : utf8Tail n cp (t++rest)=some (value cp t,rest):=
      utf8Tail_eq_some.mpr ⟨t,rfl,hn,hall,rfl⟩
    rw [if_neg (by rw [length_append];omega),htail]
    dsimp only
    rw [if_pos hok]
    exact h

/-- The test of a code point in the check that has a least value for each lead byte. -/
def atLeast (min v : ℕ) : Bool := ¬(v < min ∨ 0x10ffff < v ∨ (0xd800 ≤ v ∧ v ≤ 0xdfff))

theorem atLeast_iff {min:ℕ} : atLeast min v=true ↔ min≤v ∧ Scalar v:=by
  unfold atLeast Scalar
  rw [decide_eq_true_iff]
  omega

/-- The test of a code point in the check that refuses some lead bytes. -/
def notOverlong (need v : ℕ) : Bool :=
  ¬((need = 2 ∧ v < 0x800) ∨ (need = 3 ∧ v < 0x10000)) ∧
    ¬((0xd800 ≤ v ∧ v ≤ 0xdfff) ∨ v > 0x10ffff)

theorem notOverlong_iff {need:ℕ} : notOverlong need v=true ↔ (need=2 → 0x800≤v)
    ∧ (need=3 → 0x10000≤v) ∧ Scalar v:=by
  unfold notOverlong Scalar
  rw [decide_eq_true_iff]
  omega

variable {fuel : ℕ} {c : UInt8}

theorem utf8From_lead (hc:¬c<0x80) : utf8From (fuel+1) (c::s) = match utf8Lead c with
      | none=>false
      | some (n,min,cp)=>afterLead n cp (atLeast min) (utf8From fuel) s:=by
  rw [utf8From,if_neg hc]
  rcases utf8Lead c with _ | ⟨n,min,cp⟩
  · rfl
  · dsimp only
    unfold afterLead
    split_ifs with hlen
    · rfl
    · rcases utf8Tail n cp s with _ | ⟨v,rest⟩
      · rfl
      · dsimp only
        unfold atLeast
        by_cases hbad : v < min ∨ 0x10ffff<v ∨ (0xd800≤v ∧ v≤0xdfff)
        · rw [if_pos hbad,if_neg fun h=>(of_decide_eq_true h:¬_) hbad]
        · rw [if_neg hbad,if_pos (decide_eq_true hbad)]

theorem strictFrom_lead (hc:¬c<0x80) : strictFrom (fuel+1) (c::s) = match strictLead c with
      | none=>false
      | some (need,cp)=>afterLead need cp (notOverlong need) (strictFrom fuel) s:=by
  rw [strictFrom,if_neg hc]
  rcases strictLead c with _ | ⟨need,cp⟩
  · rfl
  · dsimp only
    unfold afterLead
    split_ifs with hlen
    · rfl
    · rcases utf8Tail need cp s with _ | ⟨v,rest⟩
      · rfl
      · dsimp only
        unfold notOverlong
        by_cases hshort : (need=2 ∧ v<0x800) ∨ (need=3 ∧ v<0x10000)
        · rw [if_pos hshort,if_neg]
          exact fun h=>(of_decide_eq_true h).1 hshort
        · by_cases hbad : (0xd800≤v ∧ v≤0xdfff) ∨ v>0x10ffff
          · rw [if_neg hshort,if_pos hbad,if_neg]
            exact fun h=>(of_decide_eq_true h).2 hbad
          · rw [if_neg hshort,if_neg hbad,if_pos (decide_eq_true ⟨hshort,hbad⟩)]

theorem strictLead_eq (c:UInt8) : strictLead c =
    if 194 ≤ c.toNat ∧ c.toNat<224 then some (1,c.toNat % 32)
    else if 224 ≤ c.toNat ∧ c.toNat<240 then some (2,c.toNat % 16)
    else if 240 ≤ c.toNat ∧ c.toNat<245 then some (3,c.toNat % 8)
    else none:=by
  revert c
  exact eachByte (by decide +kernel)

theorem utf8From_cons (hc:¬c<0x80) : utf8From (fuel+1) (c::s)=true ↔
      ∃t rest v,s=t++rest ∧ Spells c t v ∧ utf8From fuel rest=true:=by
  rw [utf8From_lead hc,utf8Lead_eq]
  constructor
  · intro h
    split_ifs at h with h2 h3 h4
    all_goals
      obtain ⟨t,rest,rfl,hlen,hall,hok,hnext⟩:=afterLead_iff.mp h
      obtain ⟨hmin,hscalar⟩:=atLeast_iff.mp hok
    · exact ⟨t,rest,_,rfl,⟨.two hlen h2 rfl hmin,hall,hscalar⟩,hnext⟩
    · exact ⟨t,rest,_,rfl,⟨.three hlen h3 rfl hmin,hall,hscalar⟩,hnext⟩
    · exact ⟨t,rest,_,rfl,⟨.four hlen h4 rfl hmin,hall,hscalar⟩,hnext⟩
  · rintro ⟨t,rest,v,rfl,⟨hshort,hall,hscalar⟩,hnext⟩
    cases hshort with
    | two hlen hc hv hmin=>
      subst hv
      rw [if_pos hc]
      exact afterLead_iff.mpr ⟨t,rest,rfl,hlen,hall,atLeast_iff.mpr ⟨hmin,hscalar⟩,hnext⟩
    | three hlen hc hv hmin=>
      subst hv
      rw [if_neg (by omega),if_pos hc]
      exact afterLead_iff.mpr ⟨t,rest,rfl,hlen,hall,atLeast_iff.mpr ⟨hmin,hscalar⟩,hnext⟩
    | four hlen hc hv hmin=>
      subst hv
      rw [if_neg (by omega),if_neg (by omega),if_pos hc]
      exact afterLead_iff.mpr ⟨t,rest,rfl,hlen,hall,atLeast_iff.mpr ⟨hmin,hscalar⟩,hnext⟩

/-- The lead bytes that are refused at once make an overlong form or a code point too large. -/
theorem strictFrom_cons (hc:¬c<0x80) : strictFrom (fuel+1) (c::s)=true ↔
      ∃t rest v,s=t++rest ∧ Spells c t v ∧ strictFrom fuel rest=true:=by
  rw [strictFrom_lead hc,strictLead_eq]
  constructor
  · intro h
    split_ifs at h with h2 h3 h4
    all_goals
      obtain ⟨t,rest,rfl,hlen,hall,hok,hnext⟩:=afterLead_iff.mp h
      obtain ⟨hthree,hfour,hscalar⟩:=notOverlong_iff.mp hok
    · obtain ⟨q,rfl,hv⟩:=value_one (c.toNat % 32) hlen
      exact ⟨[q],rest,_,rfl,⟨.two hlen (by omega) rfl (by omega),hall,hscalar⟩,hnext⟩
    · exact ⟨t,rest,_,rfl,⟨.three hlen h3 rfl (hthree rfl),hall,hscalar⟩,hnext⟩
    · exact ⟨t,rest,_,rfl,⟨.four hlen (by omega) rfl (hfour rfl),hall,hscalar⟩,hnext⟩
  · rintro ⟨t,rest,v,rfl,⟨hshort,hall,hscalar⟩,hnext⟩
    cases hshort with
    | two hlen hc hv hmin=>
      subst hv
      obtain ⟨q,rfl,hv⟩:=value_one (c.toNat % 32) hlen
      rw [if_pos (by omega)]
      exact afterLead_iff.mpr ⟨[q],rest,rfl,hlen,hall,
        notOverlong_iff.mpr ⟨by omega,by omega,hscalar⟩,hnext⟩
    | three hlen hc hv hmin=>
      subst hv
      rw [if_neg (by omega),if_pos hc]
      exact afterLead_iff.mpr ⟨t,rest,rfl,hlen,hall,
        notOverlong_iff.mpr ⟨fun _=>hmin,by omega,hscalar⟩,hnext⟩
    | four hlen hc hv hmin=>
      subst hv
      obtain ⟨q,r,w,rfl,hv⟩:=value_three (c.toNat % 8) hlen
      have hmax:=hscalar.1
      rw [if_neg (by omega),if_neg (by omega),if_pos (by omega)]
      exact afterLead_iff.mpr ⟨[q,r,w],rest,rfl,hlen,hall,
        notOverlong_iff.mpr ⟨by omega,fun _=>hmin,hscalar⟩,hnext⟩

/-- The two ways to check are the same function. -/
theorem strictFrom_eq (fuel:ℕ) (s:Bytes) : strictFrom fuel s=utf8From fuel s:=by
  induction fuel generalizing s with
  | zero=>cases s <;> rfl
  | succ fuel ih=>
    cases s with
    | nil=>rfl
    | cons c s=>
      by_cases hc : c<0x80
      · rw [strictFrom,utf8From,if_pos hc,if_pos hc,ih]
      · rw [Bool.eq_iff_iff,strictFrom_cons hc,utf8From_cons hc]
        simp only [ih]

theorem toNat_ofNat (h:Scalar v) : (Char.ofNat v).toNat=v:=by
  have hvalid : v.isValidChar:=by
    unfold Scalar at h
    unfold Nat.isValidChar
    omega
  unfold Char.ofNat
  rw [dif_pos hvalid]
  rfl

theorem scalar_toNat (ch:Char) : Scalar ch.toNat:=by
  have hvalid : ch.toNat<0xd800 ∨ (0xdfff<ch.toNat ∧ ch.toNat<0x110000):=ch.valid
  unfold Scalar
  omega

theorem byte_eq {q:UInt8} (h:q.toNat=n) : UInt8.ofNat n=q:=by
  rw [← h,UInt8.ofNat_toNat]

theorem encode_ascii {ch:Char} (h:ch.toNat<0x80) :
    String.utf8EncodeChar ch=[UInt8.ofNat ch.toNat]:=if_pos (by
  change ch.toNat≤0x7f
  omega)

theorem Spells.encode (h:Spells c t v) : String.utf8EncodeChar (Char.ofNat v)=c::t:=by
  obtain ⟨hshort,hall,hscalar⟩:=h
  have hchar : (Char.ofNat v).val.toNat=v:=toNat_ofNat hscalar
  have hmax:=hscalar.1
  unfold String.utf8EncodeChar
  rw [hchar]
  cases hshort with
  | two hlen hc hv hmin=>
    obtain ⟨q,rfl,hval⟩:=value_one (c.toNat % 32) hlen
    have hq:=hall q mem_cons_self
    unfold Continues at hq
    rw [if_neg (by omega),if_pos (by omega)]
    exact congrArg₂ List.cons (byte_eq (by omega)) (congrArg₂ List.cons (byte_eq (by omega)) rfl)
  | three hlen hc hv hmin=>
    obtain ⟨q,r,rfl,hval⟩:=value_two (c.toNat % 16) hlen
    have hq:=hall q (by simp)
    have hr:=hall r (by simp)
    unfold Continues at hq hr
    rw [if_neg (by omega),if_neg (by omega),if_pos (by omega)]
    exact congrArg₂ List.cons (byte_eq (by omega)) (congrArg₂ List.cons (byte_eq (by omega))
      (congrArg₂ List.cons (byte_eq (by omega)) rfl))
  | four hlen hc hv hmin=>
    obtain ⟨q,r,w,rfl,hval⟩:=value_three (c.toNat % 8) hlen
    have hq:=hall q (by simp)
    have hr:=hall r (by simp)
    have hw:=hall w (by simp)
    unfold Continues at hq hr hw
    rw [if_neg (by omega),if_neg (by omega),if_neg (by omega)]
    exact congrArg₂ List.cons (byte_eq (by omega)) (congrArg₂ List.cons (byte_eq (by omega))
      (congrArg₂ List.cons (byte_eq (by omega)) (congrArg₂ List.cons (byte_eq (by omega)) rfl)))

theorem toNat_byte (h:n<256) : (UInt8.ofNat n).toNat=n:=by
  rw [UInt8.toNat_ofNat',Nat.mod_eq_of_lt h]

theorem encode_spells {ch:Char} (h:0x80 ≤ ch.toNat) :
    ∃c t,String.utf8EncodeChar ch=c::t ∧ Spells c t ch.toNat:=by
  have hscalar : Scalar ch.val.toNat:=scalar_toNat ch
  change 0x80 ≤ ch.val.toNat at h
  change ∃c t,_ ∧ Spells c t ch.val.toNat
  unfold String.utf8EncodeChar
  generalize ch.val.toNat = v at h hscalar ⊢
  have hmax:=hscalar.1
  have hcont : ∀n,Continues (UInt8.ofNat (n % 64 + 128)):=by
    intro n
    unfold Continues
    rw [toNat_byte (by omega)]
    omega
  dsimp only
  rw [if_neg (by omega)]
  by_cases h2 : v≤0x7ff
  · have hc:=toNat_byte (n:=v/64 % 32 + 192) (by omega)
    have hq:=toNat_byte (n:=v % 64 + 128) (by omega)
    have hv : v=value ((UInt8.ofNat (v/64 % 32 + 192)).toNat % 32)
        [UInt8.ofNat (v % 64 + 128)]:=by
      change v = _*64+_
      omega
    refine ⟨_,_,if_pos h2,?_,?_,hscalar⟩
    · exact .two rfl (by omega) hv (by omega)
    · intro q hq
      rw [mem_singleton.mp hq]
      exact hcont _
  rw [if_neg h2]
  by_cases h3 : v≤0xffff
  · have hc:=toNat_byte (n:=v/4096 % 16 + 224) (by omega)
    have hq:=toNat_byte (n:=v/64 % 64 + 128) (by omega)
    have hr:=toNat_byte (n:=v % 64 + 128) (by omega)
    have hv : v=value ((UInt8.ofNat (v/4096 % 16 + 224)).toNat % 16)
        [UInt8.ofNat (v/64 % 64 + 128),UInt8.ofNat (v % 64 + 128)]:=by
      change v = (_*64+_)*64+_
      omega
    refine ⟨_,_,if_pos h3,?_,?_,hscalar⟩
    · exact .three rfl (by omega) hv (by omega)
    · intro q hq
      rcases mem_cons.mp hq with rfl | hq
      · exact hcont _
      · rw [mem_singleton.mp hq]
        exact hcont _
  · have hc:=toNat_byte (n:=v/262144 % 8 + 240) (by omega)
    have hq:=toNat_byte (n:=v/4096 % 64 + 128) (by omega)
    have hr:=toNat_byte (n:=v/64 % 64 + 128) (by omega)
    have hw:=toNat_byte (n:=v % 64 + 128) (by omega)
    have hv : v=value ((UInt8.ofNat (v/262144 % 8 + 240)).toNat % 8)
        [UInt8.ofNat (v/4096 % 64 + 128),UInt8.ofNat (v/64 % 64 + 128),
          UInt8.ofNat (v % 64 + 128)]:=by
      change v = ((_*64+_)*64+_)*64+_
      omega
    refine ⟨_,_,if_neg h3,?_,?_,hscalar⟩
    · exact .four rfl (by omega) hv (by omega)
    · intro q hq
      rcases mem_cons.mp hq with rfl | hq
      · exact hcont _
      rcases mem_cons.mp hq with rfl | hq
      · exact hcont _
      · rw [mem_singleton.mp hq]
        exact hcont _

theorem WellFormed.cons (ch:Char) (h:WellFormed s) :
    WellFormed (String.utf8EncodeChar ch++s):=by
  obtain ⟨l,rfl⟩:=h
  exact ⟨ch::l,flatMap_cons⟩

/-- A text that is not empty starts with the encoding of a code point. -/
theorem WellFormed.cases (h:WellFormed (c::s)) :
    ∃ch rest,c::s = String.utf8EncodeChar ch++rest ∧ WellFormed rest:=by
  obtain ⟨l,hl⟩:=h
  cases l with
  | nil=>cases hl
  | cons ch l=>exact ⟨ch,_,hl.symm,l,rfl⟩

theorem ascii_toNat : c<0x80 ↔ c.toNat<128:=UInt8.lt_iff_toNat_lt

theorem encode_byte (h:c<0x80) : String.utf8EncodeChar (Char.ofNat c.toNat)=[c]:=by
  have hc:=ascii_toNat.mp h
  have hv : (Char.ofNat c.toNat).toNat=c.toNat:=toNat_ofNat ⟨by omega,by omega⟩
  rw [encode_ascii (by omega),hv,UInt8.ofNat_toNat]

/-- Each turn of the check takes the encoding of one code point; the induction is on the turns. -/
theorem utf8From_iff (h:s.length≤fuel) : utf8From fuel s=true ↔ WellFormed s:=by
  induction fuel generalizing s with
  | zero=>
    rw [length_eq_zero_iff.mp (Nat.le_zero.mp h)]
    exact iff_of_true rfl ⟨[],rfl⟩
  | succ fuel ih=>
    cases s with
    | nil=>exact iff_of_true rfl ⟨[],rfl⟩
    | cons c s=>
      rw [length_cons] at h
      by_cases hc : c<0x80
      · rw [utf8From,if_pos hc,ih (by omega)]
        constructor
        · intro hs
          have hcons:=hs.cons (Char.ofNat c.toNat)
          rwa [encode_byte hc] at hcons
        · intro hs
          obtain ⟨ch,rest,hcut,hrest⟩:=hs.cases
          by_cases hch : ch.toNat<0x80
          · rw [encode_ascii hch] at hcut
            rwa [(List.cons.inj hcut).2]
          · obtain ⟨c',t,hencode,hspells⟩:=encode_spells (not_lt.mp hch)
            rw [hencode] at hcut
            have hlead:=hspells.shortest
            have hascii:=ascii_toNat.mp hc
            rw [(List.cons.inj hcut).1] at hascii
            cases hlead <;> omega
      · rw [utf8From_cons hc]
        constructor
        · rintro ⟨t,rest,v,rfl,hspells,hrest⟩
          rw [length_append] at h
          have hcons:=((ih (by omega)).mp hrest).cons (Char.ofNat v)
          rwa [hspells.encode] at hcons
        · intro hs
          obtain ⟨ch,rest,hcut,hrest⟩:=hs.cases
          by_cases hch : ch.toNat<0x80
          · rw [encode_ascii hch] at hcut
            refine absurd (ascii_toNat.mpr ?_) hc
            rw [(List.cons.inj hcut).1,toNat_byte (by omega)]
            exact hch
          · obtain ⟨c',t,hencode,hspells⟩:=encode_spells (not_lt.mp hch)
            rw [hencode] at hcut
            obtain ⟨rfl,rfl⟩:=List.cons.inj hcut
            change (t++rest).length + 1 ≤ fuel+1 at h
            rw [length_append] at h
            exact ⟨t,rest,_,rfl,hspells,(ih (by omega)).mpr hrest⟩

theorem isUtf8_iff (s:Bytes) : isUtf8 s=true ↔ WellFormed s:=utf8From_iff le_rfl

theorem strict_eq (s:Bytes) : strictFrom s.length s=isUtf8 s:=strictFrom_eq s.length s

/-- Every copy accepts exactly the well-formed texts, the one of the bundles those of them that
have no zero byte. -/
theorem copies_exact (s : Bytes) :
    (flutterValidUtf8 s=true ↔ WellFormed s) ∧ (Wasm.utf8Ok s=true ↔ WellFormed s) ∧
      (gdscriptValidUtf8 s=true ↔ WellFormed s) ∧
      (DotNetBundle.utf8_valid s=true ↔ WellFormed s ∧ 0 ∉ s) ∧
      (0 ∉ s → flutterValidUtf8 s=DotNetBundle.utf8_valid s ∧
        Wasm.utf8Ok s=DotNetBundle.utf8_valid s ∧
        gdscriptValidUtf8 s=DotNetBundle.utf8_valid s) := by
  have hzero : s.any (· == 0)=false ↔ 0 ∉ s:=by
    rw [List.any_eq_false]
    exact ⟨fun h hs=>h 0 hs rfl,fun h x hx hx0=>h (beq_iff_eq.mp hx0▸hx)⟩
  refine ⟨?_,isUtf8_iff s,?_,?_,fun hs=>?_⟩
  · unfold flutterValidUtf8
    rw [strict_eq,isUtf8_iff]
  · unfold gdscriptValidUtf8
    rw [strict_eq,isUtf8_iff]
  · unfold DotNetBundle.utf8_valid
    rw [Bool.and_eq_true,Bool.not_eq_true',hzero,isUtf8_iff,and_comm]
  · unfold flutterValidUtf8 gdscriptValidUtf8 Wasm.utf8Ok DotNetBundle.utf8_valid
    rw [strict_eq,hzero.mpr hs]
    exact ⟨rfl,rfl,rfl⟩

end AutoRefirst.Utf8Copies
