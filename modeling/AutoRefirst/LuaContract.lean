import AutoRefirst.LuaReads

/-!
# Counts of Lua chunks

The reader of a whole chunk is built from steps that stay inside the input, so that its checks of
vectors are exact where the product fits a word, its loops finish at most as many rounds as there are
bytes, and no prefix that ends inside the bytes of a valid chunk is valid.
-/

namespace AutoRefirst.Lua
open List

section
variable {α β : Type} {h : Header}

theorem good_loop {body:Bytes→ℕ→Step α} (hbody:∀i,Good fun d=>body d i)
    (hstrict:∀i,Strict fun d=>body d i) (i n:ℕ) : Good fun d=>loop (body d) i n:=by
  induction n generalizing i with
  | zero=>exact good_pure _
  | succ n ih=>exact good_round (hbody i) (hstrict i) fun x=>(ih (i+1)).bind fun _=>good_pure _

theorem good_markModified : Good fun _=>markModified:=
  good_of_plain fun _ _ hs => .goes () 0 _ rfl rfl hs rfl rfl id fun _=>rfl

theorem good_instruction_rest (h:Header) (pc raw:ℕ) : Good fun _=>
    if h.instructionSize=4 then
      (if (fields h pc (raw % 2^32)).opcode < opcodeCount h.ver then
        (pure (fields h pc (raw % 2^32)) : Step Instruction)
      else markModified >>= fun _=>pure (fields h pc (raw % 2^32)))
    else (pure {pc,raw:=raw % 2^32}):=
  .ite (fun _ => .ite (fun _=>good_pure _) fun _=>good_markModified.bind fun _=>good_pure _)
    fun _=>good_pure _

theorem good_instruction (hs:h.Sane) (pc:ℕ) : Good fun d=>instruction h d pc:=
  (good_rawu _ (by rw [hs.instructionSize];decide)).bind fun raw=>good_instruction_rest h pc raw

theorem strict_instruction (hs:h.Sane) (pc:ℕ) : Strict fun d=>instruction h d pc:=
  (strict_rawu _ (by rw [hs.instructionSize];decide) (by rw [hs.instructionSize];decide)).bind
    (good_rawu _ (by rw [hs.instructionSize];decide)) fun raw=>good_instruction_rest h pc raw

theorem good_alignCode (h:Header) : Good fun d=>alignCode h d:=
  .ite (fun _=>good_align _) fun _=>good_pure _

theorem good_readCode (hs:h.Sane) : Good fun d=>readCode h d:=
  (good_count hs).bind fun _ => .ite (fun _=>good_fail _) fun _=>
    (good_alignCode h).bind fun _=>(good_checkVector _ mul64_eq).bind fun _=>
      (good_loop (good_instruction hs) (strict_instruction hs) 0 _).bind fun _=>
        good_checkError.bind fun _=>good_pure _

theorem good_float (h:Header) : Good fun d=>float h d:=(good_number _ _).bind fun _=>good_pure _

theorem good_integer (hs:h.Sane) : Good fun d=>integer h d:=
  (good_raws _ hs.integerSize).bind fun _=>good_pure _

theorem good_constant_rest (hs:h.Sane) (t:ℕ) : Good fun d=>
    checkError >>= fun _=>
      if t=0 then (pure .nil : Step Constant)
      else if t=1 then
        (if h.ver≤53 then b d >>= fun bv=>pure (.boolean (bv≠0)) else pure (.boolean false))
      else if t=17 then pure (.boolean true)
      else if t=3 then
        (if h.ver=55 then var55 d >>= fun u=>pure (.integer (zigzag u))
        else if h.ver≥54 then integer h d else float h d)
      else if t=19 then (if h.ver≥54 then float h d else integer h d)
      else if t=4 ∨ t=20 then str h d >>= fun s=>pure (.string s)
      else fail ("unknown/modified constant tag "++toString t):=by
  refine good_checkError.bind fun _ => .ite (fun _=>good_pure _) fun _=>?_
  refine .ite (fun _ => .ite (fun _=>good_b.bind fun _=>good_pure _) fun _=>good_pure _) ?_
  refine fun _ => .ite (fun _=>good_pure _) fun _ => .ite (fun _=>?_) fun _=>?_
  · exact .ite (fun _=>good_var55.bind fun _=>good_pure _) fun _=>
      .ite (fun _=>good_integer hs) fun _=>good_float h
  · refine .ite (fun _ => .ite (fun _=>good_float h) fun _=>good_integer hs) fun _=>?_
    exact .ite (fun _=>(good_str hs).bind fun _=>good_pure _) fun _=>good_fail _

theorem good_constant (hs:h.Sane) (i:ℕ) : Good fun d=>constant h d i:=
  good_b.bind fun t=>good_constant_rest hs t

theorem strict_constant (hs:h.Sane) (i:ℕ) : Strict fun d=>constant h d i:=
  strict_b.bind good_b fun t=>good_constant_rest hs t

theorem good_readConstants (hs:h.Sane) : Good fun d=>readConstants h d:=
  (good_count hs).bind fun _ => .ite (fun _=>good_fail _) fun _=>
    good_loop (good_constant hs) (strict_constant hs) 0 _

theorem good_fixedLines (hs:h.Sane) (p:Proto) : Good fun d=>fixedLines h d p:=
  (good_rawu _ hs.intSize.2).bind fun _=>(good_rawu _ hs.intSize.2).bind fun _=>good_pure _

theorem strict_fixedLines (hs:h.Sane) (p:Proto) : Strict fun d=>fixedLines h d p:=
  (strict_rawu _ hs.intSize.1 hs.intSize.2).bind (good_rawu _ hs.intSize.2) fun _=>
    (good_rawu _ hs.intSize.2).bind fun _=>good_pure _

theorem good_variableLines_rest (hs:h.Sane) (p:Proto) (first:ℕ) : Good fun d=>
    count h d >>= fun last=>
      if first>2^32-1 ∨ last>2^32-1 then fail "line number exceeds supported range"
      else pure {p with lineDefined:=first,lastLineDefined:=last}:=
  (good_count hs).bind fun _ => .ite (fun _=>good_fail _) fun _=>good_pure _

theorem good_variableLines (hs:h.Sane) (p:Proto) : Good fun d=>variableLines h d p:=
  (good_count hs).bind fun first=>good_variableLines_rest hs p first

theorem strict_variableLines (hs:h.Sane) (p:Proto) : Strict fun d=>variableLines h d p:=
  (strict_count hs).bind (good_count hs) fun first=>good_variableLines_rest hs p first

theorem good_stackFields (p:Proto) : Good fun d=>stackFields d p:=
  good_b.bind fun _=>good_b.bind fun _=>good_b.bind fun _=>good_pure _

theorem good_firstSource (hs:h.Sane) (path:String) (parentSource:Option Bytes) :
    Good fun d=>firstSource h d path parentSource:=
  (good_str hs).bind fun _=>good_pure _

theorem strict_firstSource (hs:h.Sane) (path:String) (parentSource:Option Bytes) :
    Strict fun d=>firstSource h d path parentSource:=
  (strict_str hs).bind (good_str hs) fun _=>good_pure _

theorem good_protoHead (hs:h.Sane) (path:String) (parentSource:Option Bytes) :
    Good fun d=>protoHead h d path parentSource:=
  .ite (fun _=>(good_firstSource hs _ _).bind fun _=>(good_fixedLines hs _).bind fun _=>
      good_b.bind fun _=>good_stackFields _) fun _=>
    .ite (fun _=>(good_fixedLines hs _).bind fun _=>good_stackFields _) fun _=>
      .ite (fun _=>(good_firstSource hs _ _).bind fun _=>(good_fixedLines hs _).bind fun _=>
          good_stackFields _) fun _=>
        .ite (fun _=>(good_firstSource hs _ _).bind fun _=>(good_variableLines hs _).bind fun _=>
            good_stackFields _) fun _=>
          (good_variableLines hs _).bind fun _=>good_stackFields _

theorem strict_protoHead (hs:h.Sane) (path:String) (parentSource:Option Bytes) :
    Strict fun d=>protoHead h d path parentSource:=
  .ite (fun _=>(strict_firstSource hs _ _).bind (good_firstSource hs _ _) fun _=>
      (good_fixedLines hs _).bind fun _=>good_b.bind fun _=>good_stackFields _) fun _=>
    .ite (fun _=>(strict_fixedLines hs _).bind (good_fixedLines hs _) fun _=>
        good_stackFields _) fun _=>
      .ite (fun _=>(strict_firstSource hs _ _).bind (good_firstSource hs _ _) fun _=>
          (good_fixedLines hs _).bind fun _=>good_stackFields _) fun _=>
        .ite (fun _=>(strict_firstSource hs _ _).bind (good_firstSource hs _ _) fun _=>
            (good_variableLines hs _).bind fun _=>good_stackFields _) fun _=>
          (strict_variableLines hs _).bind (good_variableLines hs _) fun _=>good_stackFields _

theorem good_upvalue_rest (h:Header) : Good fun d=>b d >>= fun _=>upvalueKind h d:=
  good_b.bind fun _ => .ite (fun _=>good_b.bind fun _=>good_pure _) fun _=>good_pure _

theorem good_upvalues (hs:h.Sane) : Good fun d=>upvalues h d:=
  (good_count hs).bind fun n => .ite (fun _=>good_fail _) fun _=>
    (good_loop (fun _=>good_b.bind fun _=>good_upvalue_rest h)
      (fun _=>strict_b.bind good_b fun _=>good_upvalue_rest h) 0 n).bind fun _=>good_pure _

theorem good_nested (hs:h.Sane) (bounded:Bool) {read:Bytes→ℕ→Step Unit}
    (hread:∀i,Good fun d=>read d i) (hstrict:∀i,Strict fun d=>read d i) :
    Good fun d=>nested h d bounded (read d):=
  (good_count hs).bind fun n => .ite (fun _=>good_fail _) fun _=>
    (good_loop hread hstrict 0 n).bind fun _=>good_pure _

theorem good_names (hs:h.Sane) (n:ℕ) : Good fun d=>names h d n:=
  good_loop (fun _=>good_str hs) (fun _=>strict_str hs) 0 n

theorem good_localName_rest (hs:h.Sane) (name:Bytes) : Good fun d=>
    count h d >>= fun _=>count h d >>= fun _=>pure name:=
  (good_count hs).bind fun _=>(good_count hs).bind fun _=>good_pure _

theorem good_locals (hs:h.Sane) (p:Proto) : Good fun d=>locals h d p:=
  (good_count hs).bind fun n=>
    (good_loop (fun _=>(good_str hs).bind fun _=>good_localName_rest hs _)
      (fun _=>(strict_str hs).bind (good_str hs) fun _=>good_localName_rest hs _) 0 n).bind
        fun _=>good_pure _

theorem good_debug53 (hs:h.Sane) (p:Proto) : Good fun d=>debug53 h d p:=
  (good_count hs).bind fun _=>(good_skipVector _ mul64_eq).bind fun _=>
    (good_locals hs p).bind fun _=>(good_count hs).bind fun _=>
      (good_names hs _).bind fun _=>good_pure _

theorem good_optionalNames (hs:h.Sane) (upn:ℕ) : Good fun d=>optionalNames h d upn:=
  (good_count hs).bind fun _ => .ite (fun _=>good_pure _) fun _=>good_names hs upn

variable {n : ℕ}

theorem bytes_eq (_:n*1<2^64) : n=n*1:=(Nat.mul_one n).symm

theorem good_twoCounts_rest (hs:h.Sane) : Good fun d=>
    count h d >>= fun _=>(pure () : Step Unit):=
  (good_count hs).bind fun _=>good_pure _

theorem good_debug54 (hs:h.Sane) (upn:ℕ) (p:Proto) : Good fun d=>debug54 h d upn p:=
  (good_count hs).bind fun _=>(good_skipVector _ bytes_eq).bind fun _=>
    (good_count hs).bind fun n=>
      (good_loop (fun _=>(good_count hs).bind fun _=>good_twoCounts_rest hs)
        (fun _=>(strict_count hs).bind (good_count hs) fun _=>good_twoCounts_rest hs) 0 n).bind
          fun _=>(good_locals hs p).bind fun _=>(good_optionalNames hs upn).bind fun _=>
            good_pure _

theorem good_abslineinfo (h:Header) (n:ℕ) : Good fun d=>abslineinfo h d n:=
  .ite (fun _=>(good_align _).bind fun _=>good_skipVector _ mul64_twice) fun _=>good_pure _

theorem good_debug55 (hs:h.Sane) (upn:ℕ) (p:Proto) : Good fun d=>debug55 h d upn p:=
  (good_count hs).bind fun _=>(good_skipVector _ bytes_eq).bind fun _=>
    (good_count hs).bind fun _=>(good_abslineinfo h _).bind fun _=>
      (good_locals hs p).bind fun _=>(good_optionalNames hs upn).bind fun _=>good_pure _

theorem good_protoTail (hs:h.Sane) (p:Proto) {read:Bytes→ℕ→Step Unit}
    (hread:∀i,Good fun d=>read d i) (hstrict:∀i,Strict fun d=>read d i) :
    Good fun d=>protoTail h d p (read d):=by
  refine .ite (fun _=>(good_nested hs false hread hstrict).bind fun _=>good_debug53 hs p) ?_
  refine fun _ => .ite (fun _=>(good_nested hs true hread hstrict).bind fun _=>
    (good_upvalues hs).bind fun _=>(good_str hs).bind fun _=>good_debug53 hs _) fun _=>?_
  refine .ite (fun _=>(good_upvalues hs).bind fun _=>
    (good_nested hs true hread hstrict).bind fun _=>good_debug53 hs p) fun _=>?_
  refine .ite (fun _=>(good_upvalues hs).bind fun _=>
    (good_nested hs true hread hstrict).bind fun _=>good_debug54 hs _ p) fun _=>?_
  exact (good_upvalues hs).bind fun _=>(good_nested hs true hread hstrict).bind fun _=>
    (good_str hs).bind fun _=>good_debug55 hs _ _

theorem good_addProto (p:Proto) : Good fun _=>addProto p:=
  good_of_plain fun _ _ hs => .goes () 0 _ rfl rfl hs rfl rfl id fun _=>rfl

theorem good_readProto (hs:h.Sane) (levels:ℕ) (path:String) (parentSource:Option Bytes) :
    (Good fun d=>readProto h d levels path parentSource) ∧
      Strict fun d=>readProto h d levels path parentSource:=by
  induction levels generalizing path parentSource with
  | zero=>exact ⟨good_fail _,strict_fail _⟩
  | succ levels ih=>
    have hrest : ∀p : Proto,Good fun d=>readCode h d >>= fun instructions=>
        readConstants h d >>= fun constants=>
          protoTail h d {p with instructions,constants} (fun i=>
            readProto h d levels (path++"."++toString i) (some p.source)) >>= fun p=>
              addProto p >>= fun _=>checkError:=fun p=>
      (good_readCode hs).bind fun _=>(good_readConstants hs).bind fun _=>
        (good_protoTail hs _ (fun _=>(ih _ _).1) fun _=>(ih _ _).2).bind fun _=>
          (good_addProto _).bind fun _=>good_checkError
    exact ⟨(good_protoHead hs path parentSource).bind hrest,
      (strict_protoHead hs path parentSource).bind (good_protoHead hs path parentSource) hrest⟩

theorem good_parseProtos (hs:h.Sane) : Good fun d=>parseProtos h d:=
  Good.bind (.ite (fun _=>good_b.bind fun _=>good_pure _) fun _=>good_pure _) fun _=>
    (good_readProto hs _ _ _).1

theorem good_lit (want:Bytes) : Good fun d=>lit d want:=by
  refine good_of_plain fun d s hs=>?_
  have hrun : ∀e : Bytes,s.p≤e.length → lit e want s = if s.p+want.length ≤ e.length then
      (if (e.drop s.p).take want.length ≠ want then (none,s.fail "header literal mismatch")
        else (some (),{s with p:=s.p+want.length}))
      else (none,s.fail "truncated chunk"):=by
    intro e he
    unfold lit
    rw [min_eq_of_le he]
    by_cases h : s.p+want.length≤e.length
    · rw [if_pos h,if_neg (by omega)]
    · rw [if_neg h,if_pos (by omega)]
  by_cases h : s.p+want.length≤d.length
  · by_cases hsame : (d.drop s.p).take want.length≠want
    · exact .fails hs none _ ((hrun d hs).trans ((if_pos h).trans (if_pos hsame)))
    · refine .goes () want.length _ ((hrun d hs).trans ((if_pos h).trans (if_neg hsame))) rfl h rfl
        rfl id fun x=>?_
      have hmore : s.p+want.length≤(d++x).length:=by
        rw [length_append]
        omega
      rw [hrun _ (by omega),if_pos hmore,window_append x h,if_neg hsame]
  · exact .fails hs none _ ((hrun d hs).trans (if_neg h))

def ordered (d : Bytes) (s : State) (le : Bool) (n : ℕ) : ℕ :=
  if le then littleEndian ((d.drop s.p).take n) else bigEndian ((d.drop s.p).take n)

theorem byteOrder_run {d:Bytes} {s:State} (hn:n≤8) (hs:s.p≤d.length)
    (hroom:s.p+n≤d.length) :
    byteOrder d n s = if ordered d s true n=0x5678 then (some true,{s with p:=s.p+n})
      else if ordered d s false n=0x5678 then (some false,{s with p:=s.p+n})
      else (none,State.fail {s with p:=s.p+n}
        "Lua 5.3 integer/endianness marker mismatch"):=by
  unfold byteOrder
  rw [rawu_run true hn hs,if_pos hroom]
  dsimp only
  rw [rawu_run false hn hs,if_pos hroom]
  rfl

theorem good_byteOrder (hn:n≤8) : Good fun d=>byteOrder d n:=by
  refine good_of_plain fun d s hs=>?_
  by_cases hroom : s.p+n≤d.length
  · have hrun:=byteOrder_run hn hs hroom
    have hsame : ∀x le,ordered (d++x) s le n=ordered d s le n:=by
      intro x le
      unfold ordered
      rw [window_append x hroom]
    have hmore : ∀x,byteOrder (d++x) n s=byteOrder d n s:=by
      intro x
      have hlen : d.length≤(d++x).length:=by
        rw [length_append]
        exact Nat.le_add_right _ _
      rw [byteOrder_run hn (by omega) (by omega),hrun,hsame,hsame]
    by_cases hlittle : ordered d s true n=0x5678
    · rw [if_pos hlittle] at hrun
      exact .goes true n _ hrun rfl hroom rfl rfl id fun x=>(hmore x).trans hrun
    · rw [if_neg hlittle] at hrun
      by_cases hbig : ordered d s false n=0x5678
      · rw [if_pos hbig] at hrun
        exact .goes false n _ hrun rfl hroom rfl rfl id fun x=>(hmore x).trans hrun
      · rw [if_neg hbig] at hrun
        obtain ⟨hp,hrounds,hvectors⟩:=fail_keeps {s with p:=s.p+n}
          "Lua 5.3 integer/endianness marker mismatch"
        exact .stops none _ hrun (fail_error _ _) (by rw [hp];exact Nat.le_add_right _ _)
          (by rw [hp];exact hroom) hrounds hvectors
  · have hfirst:=(rawu_run true hn hs).trans (if_neg hroom)
    have hfail:=fail_keeps s "truncated chunk"
    have hback : ({s.fail "truncated chunk" with p:=s.p} : State) = s.fail "truncated chunk" := by
      rw [← hfail.1]
    have hsecond : rawu d false n (s.fail "truncated chunk") = (some 0,s.fail "truncated chunk"):=by
      rw [rawu_run false hn (by rw [hfail.1];exact hs),if_neg (by rw [hfail.1];exact hroom),
        fail_of_error (fail_error _ _)]
    have hrun : byteOrder d n s = (none,s.fail "truncated chunk"):=by
      unfold byteOrder
      rw [hfirst]
      dsimp only
      rw [if_neg (by decide),hback,hsecond]
      dsimp only
      rw [if_neg (by decide),fail_of_error (fail_error _ _)]
    exact .fails hs none _ hrun

theorem good_header52 (ver:ℕ) : Good fun d=>header52 d ver:=
  good_b.bind fun _=>good_b.bind fun _=>good_b.bind fun _=>good_b.bind fun _=>
    good_b.bind fun _=>good_b.bind fun _=>
      Good.bind (.ite (fun _=>good_lit _) fun _=>good_pure _) fun _=>
        .ite (fun _=>good_fail _) fun _=>good_pure _

theorem good_header53 : Good header53:=
  (good_lit _).bind fun _=>good_b.bind fun _=>good_b.bind fun _=>good_b.bind fun _=>
    good_b.bind fun _=>good_b.bind fun _ => .ite (fun _=>good_fail _) fun hc=>
      (good_byteOrder (by omega)).bind fun _=>(good_number _ _).bind fun _=>good_pure _

theorem good_header54 : Good header54:=
  (good_lit _).bind fun _=>good_b.bind fun _=>good_b.bind fun _=>good_b.bind fun _=>
    .ite (fun _=>good_fail _) fun hc=>(good_rawu _ (by omega)).bind fun _=>
      .ite (fun _=>good_fail _) fun _=>(good_number _ _).bind fun _=>good_pure _

theorem good_header55 (isMarker:ℕ→ℕ→Bool) : Good fun d=>header55 isMarker d:=
  (good_lit _).bind fun _=>good_b.bind fun _ => .ite (fun _=>good_fail _) fun hc=>
    (good_raws _ (by omega)).bind fun _ => .ite (fun _=>good_fail _) fun _=>
      good_b.bind fun _ => .ite (fun _=>good_fail _) fun hc'=>
        (good_rawu _ (by omega)).bind fun _ => .ite (fun _=>good_fail _) fun _=>
          good_b.bind fun _ => .ite (fun _=>good_fail _) fun hc''=>
            (good_raws _ (by omega)).bind fun _ => .ite (fun _=>good_fail _) fun _=>
              good_b.bind fun _ => .ite (fun _=>good_fail _) fun _=>
                (good_number _ _).bind fun _ => .ite (fun _=>good_pure _) fun _=>good_fail _

theorem good_parseHeader (isMarker:ℕ→ℕ→Bool) : Good fun d=>parseHeader isMarker d:=
  good_b.bind fun _=>good_b.bind fun _ => .ite (fun _=>good_fail _) fun _=>
    .ite (fun _=>good_fail _) fun _ => .ite (fun _=>good_header52 _) fun _=>
      .ite (fun _=>good_header53) fun _ => .ite (fun _=>good_header54) fun _=>
        good_header55 isMarker

def Yields (P : α→Prop) (m : Bytes→Step α) : Prop :=
  ∀ d s a s', m d s = (some a,s') → P a

variable {P : α→Prop}

theorem yields_pure {a:α} (h:P a) : Yields P fun _=>pure a:=by
  intro d s c s' hrun
  obtain ⟨hc,-⟩:=Prod.mk.inj hrun
  obtain rfl:=Option.some.inj hc
  exact h

theorem yields_fail (message:String) : Yields P fun _=>fail message:=by
  intro d s c s' hrun
  cases hrun

theorem Yields.bind {P:β→Prop} {m:Bytes→Step α} {k:Bytes→α→Step β}
    (h:∀a,Yields P fun d=>k d a) : Yields P fun d=>m d >>= k d:=by
  intro d s c s' hrun
  change (m d >>= k d) s=_ at hrun
  rw [bind_run] at hrun
  rcases hm : m d s with ⟨_ | a,s₁⟩
  · rw [hm] at hrun
    cases hrun
  · rw [hm] at hrun
    exact h a d s₁ c s' hrun

theorem Yields.ite {c:Prop} [Decidable c] {m m':Bytes→Step α} (h:c→Yields P m)
    (h':¬c → Yields P m') : Yields P fun d=>if c then m d else m' d:=by
  split_ifs with hc
  · exact h hc
  · exact h' hc

theorem sane_header52 (ver:ℕ) : Yields Header.Sane fun d=>header52 d ver:=
  .bind fun _ => .bind fun _ => .bind fun _ => .bind fun _ => .bind fun _ => .bind fun _=>
    .bind fun _ => .ite (fun _=>yields_fail _) fun hc=>yields_pure
      ⟨by dsimp only;omega,fun _=>by dsimp only;omega,by dsimp only;omega,
        by dsimp only;omega⟩

theorem sane_header53 : Yields Header.Sane header53:=
  .bind fun _ => .bind fun _ => .bind fun _ => .bind fun _ => .bind fun _ => .bind fun _=>
    .ite (fun _=>yields_fail _) fun hc => .bind fun _ => .bind fun _=>yields_pure
      ⟨by dsimp only;omega,fun _=>by dsimp only;omega,by dsimp only;omega,
        by dsimp only;omega⟩

theorem sane_header54 : Yields Header.Sane header54:=
  .bind fun _ => .bind fun _ => .bind fun _ => .bind fun _ => .ite (fun _=>yields_fail _)
    fun hc => .bind fun _ => .ite (fun _=>yields_fail _) fun _ => .bind fun _=>yields_pure
      ⟨by dsimp only;omega,fun hv=>by dsimp only at hv;omega,by dsimp only;omega,
        by dsimp only;omega⟩

theorem sane_header55 (isMarker:ℕ→ℕ→Bool) : Yields Header.Sane fun d=>header55 isMarker d:=
  .bind fun _ => .bind fun _ => .ite (fun _=>yields_fail _) fun hc => .bind fun _=>
    .ite (fun _=>yields_fail _) fun _ => .bind fun _ => .ite (fun _=>yields_fail _) fun hc'=>
      .bind fun _ => .ite (fun _=>yields_fail _) fun _ => .bind fun _=>
        .ite (fun _=>yields_fail _) fun hc'' => .bind fun _ => .ite (fun _=>yields_fail _)
          fun _ => .bind fun _ => .ite (fun _=>yields_fail _) fun _ => .bind fun _=>
            .ite (fun _=>yields_pure ⟨by dsimp only;omega,fun hv=>by dsimp only at hv;omega,
              by dsimp only;omega,by dsimp only;omega⟩) fun _=>yields_fail _

theorem sane_parseHeader (isMarker:ℕ→ℕ→Bool) :
    Yields Header.Sane fun d=>parseHeader isMarker d:=
  .bind fun _ => .bind fun _ => .ite (fun _=>yields_fail _) fun _=>
    .ite (fun _=>yields_fail _) fun _ => .ite (fun _=>sane_header52 _) fun _=>
      .ite (fun _=>sane_header53) fun _ => .ite (fun _=>sane_header54) fun _=>
        sane_header55 isMarker

end

section
variable {isMarker : ℕ→ℕ→Bool} {d : Bytes}

/-- The parser has a magic in front of it, then it reads the header and the prototypes. -/
inductive Runs (isMarker : ℕ→ℕ→Bool) (d : Bytes) : Info → Prop
  | foreign : Runs isMarker d {error:=some ("not a Lua binary chunk",0)}
  | headless (s : State) : 4≤d.length → parseHeader isMarker d {p:=4} = (none,s) →
      Runs isMarker d (.of s none)
  | cut (h : Header) (s s' : State) : 4≤d.length →
      parseHeader isMarker d {p:=4} = (some h,s) → parseProtos h d s = (none,s') →
        Runs isMarker d (.of s' (some h))
  | whole (h : Header) (s s' : State) : ¬(d.length<6 ∨ d.take 4 ≠ luaMagic) →
      parseHeader isMarker d {p:=4} = (some h,s) → parseProtos h d s = (some (),s') →
        Runs isMarker d { Info.of s' (some h) with
          parsedBytes:=s'.p,valid:=s'.error.isNone ∧ s'.protos≠[]
          modifiedHeader:=s'.modifiedHeader ∨ s'.p<d.length }

theorem parseLuac_runs (isMarker:ℕ→ℕ→Bool) (d:Bytes) :
    Runs isMarker d (parseLuac isMarker d):=by
  unfold parseLuac
  split_ifs with hmagic
  · exact .foreign
  · split
    next s hheader=>exact .headless s (by omega) hheader
    next h s hheader=>
      split
      next s' hprotos=>exact .cut h s s' (by omega) hheader hprotos
      next s' hprotos=>exact .whole h s s' hmagic hheader hprotos

theorem header_fine (hlen:4≤d.length) {r:Option Header×State}
    (hheader:parseHeader isMarker d {p:=4}=r) : Fine d {p:=4} r:=
  hheader▸(good_parseHeader isMarker).fine d {p:=4} hlen

theorem protos_fine {h:Header} {s s':State} {o:Option Unit} (hlen:4≤d.length)
    (hheader:parseHeader isMarker d {p:=4}=(some h,s))
    (hprotos:parseProtos h d s=(o,s')) : Fine d {p:=4} (o,s'):=by
  have hfirst:=header_fine hlen hheader
  have hsane:=sane_parseHeader isMarker d _ h s hheader
  exact hfirst.trans (hprotos▸(good_parseProtos hsane).fine d s hfirst.bound)

theorem Fine.from_start {α:Type} {r:Option α×State} (h:Fine d {p:=4} r) :
    Exact d r.2 ∧ r.2.rounds≤d.length:=by
  have hrounds:=h.rounds
  have hbound:=h.bound
  dsimp only at hrounds
  exact ⟨h.vectors fun v hv=>absurd hv not_mem_nil,by omega⟩

theorem valid_append {e x:Bytes} (h:(parseLuac isMarker e).valid=true) :
    (parseLuac isMarker (e++x)).parsedBytes=(parseLuac isMarker e).parsedBytes ∧
      (parseLuac isMarker e).parsedBytes≤e.length ∧ (parseLuac isMarker e).error=none:=by
  have hruns:=parseLuac_runs isMarker e
  generalize hinfo : parseLuac isMarker e = o at h hruns
  cases hruns with
  | foreign=>cases h
  | headless s=>cases h
  | cut hd s s'=>cases h
  | whole hd s s' hmagic hheader hprotos=>
    have hvalid : decide (s'.error.isNone=true ∧ s'.protos≠[])=true:=h
    have herror : s'.error=none:=Option.isNone_iff_eq_none.mp (of_decide_eq_true hvalid).1
    have hfirst:=header_fine (by omega) hheader
    have hsane:=sane_parseHeader isMarker e _ hd s hheader
    have hrest : Fine e s (some (),s'):=hprotos▸(good_parseProtos hsane).fine e s hfirst.bound
    refine ⟨?_,hrest.bound,herror⟩
    have hheader':=(good_parseHeader isMarker).more e x _ hd s (show 4 ≤ e.length by omega) hheader
      (hrest.clean herror)
    have hprotos':=(good_parseProtos hsane).more e x s () s' hfirst.bound hprotos herror
    have hmagic' : ¬((e++x).length<6 ∨ (e++x).take 4≠luaMagic):=by
      rw [length_append,take_append_of_le_length (by omega)]
      intro hor
      rcases hor with hlt | hne
      · omega
      · exact hmagic (Or.inr hne)
    unfold parseLuac
    rw [if_neg hmagic',hheader']
    dsimp only
    rw [hprotos']

end

def emptyChunk : Bytes := luaMagic++[0x51,0,1,4,4,4,8,0] ++ List.replicate 40 0

end AutoRefirst.Lua
