import AutoRefirst.LuaChunk

/-!
# What the steps of the chunk reader keep

Each step stays inside the input, keeps an error, finishes at most as many rounds as it takes bytes,
and does the same with more bytes behind its input as long as there is no error.
-/

namespace AutoRefirst.Lua
open List

section
variable {α β : Type} {d : Bytes} {s s' : State}

theorem bind_run (m:Step α) (k:α→Step β) (s:State) :
    (m >>= k) s = match m s with | (some a,s)=>k a s | (none,s)=>(none,s):=rfl

theorem fail_error (s:State) (message:String) : (s.fail message).error.isSome=true:=by
  unfold State.fail
  split
  · rfl
  · next e he=>rw [he];rfl

theorem fail_of_error {message:String} (h:s.error.isSome=true) : s.fail message=s:=by
  unfold State.fail
  split
  · next he=>rw [he] at h;cases h
  · rfl

theorem fail_keeps (s:State) (message:String) :
    (s.fail message).p=s.p ∧ (s.fail message).rounds=s.rounds ∧
      (s.fail message).vectors=s.vectors:=by
  unfold State.fail
  split <;> exact ⟨rfl,rfl,rfl⟩

/-- The vectors whose product is not cut lie inside the input. -/
def Exact (d : Bytes) (s : State) : Prop :=
  ∀ v∈s.vectors, v.count*v.size<2^64 → v.pos+v.count*v.size≤d.length

/-- The result of a step from `s`. -/
structure Fine (d : Bytes) (s : State) (r : Option α×State) : Prop where
  sticky : s.error.isSome=true → r.2.error.isSome=true
  stops : r.1=none → r.2.error.isSome=true
  le : s.p ≤ r.2.p
  bound : r.2.p≤d.length
  rounds : r.2.rounds+s.p ≤ s.rounds+r.2.p
  vectors : Exact d s → Exact d r.2

structure Good (m : Bytes→Step α) : Prop where
  fine : ∀ d s, s.p≤d.length → Fine d s (m d s)
  more : ∀ d x s a s', s.p≤d.length → m d s = (some a,s') → s'.error=none →
    m (d++x) s=(some a,s')

/-- The step takes a byte beside those for which it finishes rounds. -/
def Strict (m : Bytes→Step α) : Prop :=
  ∀ d s, s.p≤d.length → (m d s).2.error=none →
    (m d s).2.rounds + s.p + 1 ≤ s.rounds+(m d s).2.p

theorem ne_none_of_isSome {γ:Type} {o:Option γ} (h:o.isSome=true) : o≠none:=by
  rintro rfl
  cases h

theorem Fine.clean {r:Option α×State} (h:Fine d s r) (herror:r.2.error=none) :
    s.error=none:=by
  cases hs : s.error with
  | none=>rfl
  | some e=>exact absurd herror (ne_none_of_isSome (h.sticky (by rw [hs];rfl)))

theorem Fine.trans {a:α} {r:Option β×State} (h:Fine d s (some a,s')) (h':Fine d s' r) :
    Fine d s r:=by
  have hle:=h.le
  have hrounds:=h.rounds
  have hrounds':=h'.rounds
  exact ⟨fun he=>h'.sticky (h.sticky he),h'.stops,Nat.le_trans h.le h'.le,h'.bound,
    by dsimp only at hrounds hle;omega,fun hv=>h'.vectors (h.vectors hv)⟩

theorem Fine.none {r:Option α×State} (h:Fine d s r) (hr:r.1=none) :
    Fine d s ((none:Option β),r.2):=
  ⟨h.sticky,fun _=>h.stops hr,h.le,h.bound,h.rounds,h.vectors⟩

variable {m : Bytes→Step α} {k : Bytes→α→Step β}

theorem Good.bind (h:Good m) (hk:∀a,Good fun d=>k d a) : Good fun d=>m d >>= k d:=by
  constructor
  · intro d s hs
    have hm:=h.fine d s hs
    rw [bind_run]
    rcases hrun : m d s with ⟨_ | a,s₁⟩
    · rw [hrun] at hm
      exact hm.none rfl
    · rw [hrun] at hm
      exact hm.trans ((hk a).fine d s₁ hm.bound)
  · intro d x s c s' hs hrun herror
    have hm:=h.fine d s hs
    change (m d >>= k d) s=_ at hrun
    change (m (d++x) >>= k (d++x)) s=_
    rw [bind_run] at hrun ⊢
    rcases hfirst : m d s with ⟨_ | a,s₁⟩
    · rw [hfirst] at hrun
      cases hrun
    · rw [hfirst] at hrun hm
      have hfine:=(hk a).fine d s₁ hm.bound
      have hrest : k d a s₁=(some c,s'):=hrun
      have hclean : s₁.error=Option.none:=hfine.clean (by rw [hrest];exact herror)
      rw [h.more d x s a s₁ hs hfirst hclean]
      exact (hk a).more d x s₁ c s' hm.bound hrun herror

theorem Strict.bind (h:Strict m) (hm:Good m) (hk:∀a,Good fun d=>k d a) :
    Strict fun d=>m d >>= k d:=by
  intro d s hs
  have hfine:=hm.fine d s hs
  have hstrict:=h d s hs
  dsimp only
  rw [bind_run]
  rcases hrun : m d s with ⟨_ | a,s₁⟩
  · rw [hrun] at hstrict
    exact hstrict
  · rw [hrun] at hstrict hfine
    dsimp only
    intro herror
    have hrest:=(hk a).fine d s₁ hfine.bound
    have hthis:=hstrict (hrest.clean herror)
    have hrounds:=hrest.rounds
    dsimp only at hthis
    omega

theorem Good.ite {c:Prop} [Decidable c] {m':Bytes→Step α} (h:c→Good m)
    (h':¬c → Good m') : Good fun d=>if c then m d else m' d:=by
  split_ifs with hc
  · exact h hc
  · exact h' hc

theorem Strict.ite {c:Prop} [Decidable c] {m':Bytes→Step α} (h:c→Strict m)
    (h':¬c → Strict m') : Strict fun d=>if c then m d else m' d:=by
  split_ifs with hc
  · exact h hc
  · exact h' hc

/-- A step leaves an error, or it goes on inside the input, and with more input just so. -/
inductive Plain (m : Bytes→Step α) (d : Bytes) (s : State) : Prop
  | stops (o : Option α) (s' : State) : m d s = (o,s') → s'.error.isSome=true → s.p ≤ s'.p →
      s'.p ≤ d.length → s'.rounds=s.rounds → s'.vectors=s.vectors → Plain m d s
  | goes (a : α) (n : ℕ) (s' : State) : m d s = (some a,s') → s'.p=s.p+n →
      s.p + n ≤ d.length → s'.error=s.error → s'.rounds=s.rounds →
        (Exact d s → Exact d s') → (∀ x, m (d++x) s=(some a,s')) → Plain m d s

theorem Plain.fails (hs:s.p≤d.length) (o:Option α) (message:String)
    (h:m d s=(o,s.fail message)) : Plain m d s:=by
  obtain ⟨hp,hrounds,hvectors⟩:=fail_keeps s message
  exact .stops o _ h (fail_error s message) (Nat.le_of_eq hp.symm) (Nat.le_trans (Nat.le_of_eq hp) hs)
    hrounds hvectors

theorem good_of_plain (h:∀d s,s.p≤d.length → Plain m d s) : Good m:=by
  constructor
  · intro d s hs
    cases h d s hs with
    | stops o s' hrun herror hle hbound hrounds hvectors=>
      rw [hrun]
      refine ⟨fun _=>herror,fun _=>herror,hle,hbound,?_,fun hexact v hv=>?_⟩
      · dsimp only
        omega
      · exact hexact v (hvectors▸hv)
    | goes a n s' hrun hp hbound herror hrounds hvectors=>
      rw [hrun]
      refine ⟨fun he=>herror▸he,(fun h=>by cases h),?_,?_,?_,hvectors⟩
      · dsimp only
        omega
      · dsimp only
        omega
      · dsimp only
        omega
  · intro d x s a s' hs hrun herror
    cases h d s hs with
    | stops o s₁ hstop hsome=>
      rw [hstop] at hrun
      obtain ⟨-,rfl⟩:=Prod.mk.inj hrun
      exact absurd herror (ne_none_of_isSome hsome)
    | goes c n s₁ hgo _ _ _ _ _ hmore=>
      rw [hgo] at hrun
      rw [hmore,hrun]

theorem good_pure (a:α) : Good fun _=>(pure a:Step α):=
  good_of_plain fun _ s hs => .goes a 0 s rfl rfl hs rfl rfl id fun _=>rfl

variable (message : String)

theorem good_fail : Good fun _=>(fail message:Step α):=
  good_of_plain fun _ _ hs => .fails hs none message rfl

theorem strict_fail : Strict fun _=>(fail message:Step α):=by
  intro d s _ herror
  exact absurd herror (ne_none_of_isSome (fail_error s message))

theorem good_checkError : Good fun _=>checkError:=by
  refine good_of_plain fun _ s hs=>?_
  cases he : s.error with
  | none=>
    refine .goes () 0 s ?_ rfl hs rfl rfl id fun _=>?_ <;>
    · unfold checkError
      rw [he]
      rfl
  | some e=>
    refine .fails hs none "" ?_
    rw [fail_of_error (by rw [he];rfl)]
    unfold checkError
    rw [he]
    rfl

theorem min_eq_of_le (hs:s.p≤d.length) : min s.p d.length=s.p:=Nat.min_eq_left hs

variable {n : ℕ}

/-- The bytes at hand do not change when there are more behind them. -/
theorem window_append {p:ℕ} (x:Bytes) (h:p+n≤d.length) :
    ((d++x).drop p).take n=(d.drop p).take n:=by
  rw [drop_append_of_le_length (by omega),take_append_of_le_length]
  rw [length_drop]
  omega

theorem need_run (hs:s.p≤d.length) : need d n s = if s.p+n ≤ d.length then (some true,s)
      else (some false,s.fail "truncated chunk"):=by
  unfold need
  rw [min_eq_of_le hs]
  by_cases h : s.p+n≤d.length
  · rw [if_pos h,if_pos (by omega)]
  · rw [if_neg h,if_neg (by omega)]

variable (le : Bool)

theorem rawu_run (hn:n≤8) (hs:s.p≤d.length) : rawu d le n s = if s.p+n ≤ d.length then
        (some (if le then littleEndian ((d.drop s.p).take n)
          else bigEndian ((d.drop s.p).take n)),{s with p:=s.p+n})
      else (some 0,s.fail "truncated chunk"):=by
  unfold rawu
  rw [bind_run,need_run hs]
  by_cases h : s.p+n≤d.length
  · rw [if_pos h,if_pos h]
    dsimp only
    rw [if_neg (by simpa using hn)]
    rfl
  · rw [if_neg h,if_neg h]
    rfl

theorem b_run (hs:s.p≤d.length) : b d s = if s.p+1 ≤ d.length then
        (some (littleEndian ((d.drop s.p).take 1)),{s with p:=s.p+1})
      else (some 0,s.fail "truncated chunk"):=by
  unfold b
  rw [bind_run,need_run hs]
  by_cases h : s.p+1≤d.length
  · rw [if_pos h,if_pos h]
    rfl
  · rw [if_neg h,if_neg h]
    rfl

theorem good_rawu (hn:n≤8) : Good fun d=>rawu d le n:=by
  refine good_of_plain fun d s hs=>?_
  by_cases h : s.p+n≤d.length
  · refine .goes _ n _ ((rawu_run le hn hs).trans (if_pos h)) rfl h rfl rfl id fun x=>?_
    have hmore : s.p+n≤(d++x).length:=by
      rw [length_append]
      omega
    rw [rawu_run le hn (by omega),if_pos hmore,window_append x h]
  · exact .fails hs (some 0) _ ((rawu_run le hn hs).trans (if_neg h))

theorem strict_rawu (hpos:0<n) (hn:n≤8) : Strict fun d=>rawu d le n:=by
  intro d s hs herror
  dsimp only at herror ⊢
  by_cases hroom : s.p+n≤d.length
  · rw [rawu_run le hn hs,if_pos hroom]
    dsimp only
    omega
  · rw [rawu_run le hn hs,if_neg hroom] at herror
    exact absurd herror (ne_none_of_isSome (fail_error s _))

theorem good_b : Good b:=by
  refine good_of_plain fun d s hs=>?_
  by_cases h : s.p+1≤d.length
  · refine .goes _ 1 _ ((b_run hs).trans (if_pos h)) rfl h rfl rfl id fun x=>?_
    have hmore : s.p+1≤(d++x).length:=by
      rw [length_append]
      omega
    rw [b_run (by omega),if_pos hmore,window_append x h]
  · exact .fails hs (some 0) _ ((b_run hs).trans (if_neg h))

theorem strict_b : Strict b:=by
  intro d s hs herror
  by_cases hroom : s.p+1≤d.length
  · rw [b_run hs,if_pos hroom]
    dsimp only
    omega
  · rw [b_run hs,if_neg hroom] at herror
    exact absurd herror (ne_none_of_isSome (fail_error s _))

theorem good_raws (hn:n≤8) : Good fun d=>raws d le n:=(good_rawu le hn).bind fun _=>good_pure _

theorem good_number (n:ℕ) : Good fun d=>number d le n:=by
  refine good_of_plain fun d s hs=>?_
  have hrun : ∀e : Bytes,s.p≤e.length → number e le n s = if s.p+n ≤ e.length then
      (if n=8 ∨ n=4 then rawu e le n s else (some 0,s.fail "unsupported lua_Number size"))
        else (some 0,s.fail "truncated chunk"):=by
    intro e he
    unfold number
    rw [bind_run,need_run he]
    by_cases h : s.p+n≤e.length
    · rw [if_pos h,if_pos h]
      dsimp only
      rw [if_neg (fun h:true=false=>Bool.noConfusion h)]
      split_ifs <;> rfl
    · rw [if_neg h,if_neg h]
      rfl
  by_cases h : s.p+n≤d.length
  · by_cases hsize : n=8 ∨ n=4
    · have hn : n≤8:=by omega
      have hvalue:=(hrun d hs).trans ((if_pos h).trans (if_pos hsize))
      rw [rawu_run le hn hs,if_pos h] at hvalue
      refine .goes _ n _ hvalue rfl h rfl rfl id fun x=>?_
      have hmore : s.p+n≤(d++x).length:=by
        rw [length_append]
        omega
      rw [hrun _ (by omega),if_pos hmore,if_pos hsize,rawu_run le hn (by omega),if_pos hmore,
        window_append x h]
    · exact .fails hs (some 0) _ ((hrun d hs).trans ((if_pos h).trans (if_neg hsize)))
  · exact .fails hs (some 0) _ ((hrun d hs).trans (if_neg h))

theorem good_varint (last:ℕ→Bool) (unterminated:String) (n x:ℕ) :
    Good fun d=>varint d last unterminated n x:=by
  induction n generalizing x with
  | zero=>exact good_fail _
  | succ n ih=>
    exact good_b.bind fun z=>good_checkError.bind fun _=>
      .ite (fun _=>good_fail _) fun _ => .ite (fun _=>good_pure _) fun _=>ih _

theorem strict_varint (last:ℕ→Bool) (unterminated:String) (n x:ℕ) :
    Strict fun d=>varint d last unterminated n x:=by
  cases n with
  | zero=>exact strict_fail _
  | succ n=>
    exact strict_b.bind good_b fun z=>good_checkError.bind fun _=>
      .ite (fun _=>good_fail _) fun _ => .ite (fun _=>good_pure _) fun _=>good_varint _ _ _ _

theorem good_var54 : Good var54:=good_varint _ _ _ _

theorem strict_var54 : Strict var54:=strict_varint _ _ _ _

theorem good_var55 : Good var55:=good_varint _ _ _ _

theorem strict_var55 : Strict var55:=strict_varint _ _ _ _

/-- The widths that the reader of the header lets through. -/
structure Header.Sane (h : Header) : Prop where
  intSize : 1≤h.intSize ∧ h.intSize≤8
  sizeTSize : h.ver≤53 → 1≤h.sizeTSize ∧ h.sizeTSize≤8
  instructionSize : h.instructionSize=4
  integerSize : h.integerSize≤8

variable {h : Header}

theorem good_count (hs:h.Sane) : Good fun d=>count h d:=
  .ite (fun _=>good_rawu _ hs.intSize.2) fun _ => .ite (fun _=>good_var54) fun _=>good_var55

theorem strict_count (hs:h.Sane) : Strict fun d=>count h d:=
  .ite (fun _=>strict_rawu _ hs.intSize.1 hs.intSize.2) fun _=>
    .ite (fun _=>strict_var54) fun _=>strict_var55

theorem good_align (n:ℕ) : Good fun d=>align d n:=by
  refine good_of_plain fun d s hs=>?_
  by_cases hn : n≤1
  · exact .goes () 0 s (if_pos hn) rfl hs rfl rfl id fun _=>if_pos hn
  · have hrun : ∀e : Bytes,s.p≤e.length → align e n s =
        if s.p + (n - s.p % n) % n ≤ e.length then
          (some (),{s with p:=s.p + (n - s.p % n) % n})
        else (none,s.fail "truncated chunk"):=by
      intro e he
      unfold align
      rw [if_neg hn,min_eq_of_le he]
      dsimp only
      by_cases h : s.p + (n - s.p % n) % n ≤ e.length
      · rw [if_pos h,if_pos (by omega)]
      · rw [if_neg h,if_neg (by omega)]
    by_cases h : s.p + (n - s.p % n) % n ≤ d.length
    · refine .goes () _ _ ((hrun d hs).trans (if_pos h)) rfl h rfl rfl id fun x=>?_
      have hmore : s.p + (n - s.p % n) % n ≤ (d++x).length:=by
        rw [length_append]
        omega
      exact (hrun _ (by omega)).trans (if_pos hmore)
    · exact .fails hs none _ ((hrun d hs).trans (if_neg h))

theorem good_text {kept:ℕ} (length:ℕ) (hkept:kept≤n) :
    Good fun d=>text d n kept length:=by
  refine good_of_plain fun d s hs=>?_
  by_cases h : n > d.length-s.p ∨ length>2^31
  · exact .fails hs none _ (if_pos h)
  · have hroom : s.p+n≤d.length:=by omega
    refine .goes _ n _ (if_neg h) rfl hroom rfl rfl id fun x=>?_
    have hmore : ¬(n > (d++x).length-s.p ∨ length>2^31):=by
      rw [length_append]
      omega
    dsimp only [text]
    rw [if_neg hmore,window_append x (by omega)]

theorem good_savedString (index:ℕ) : Good fun _=>savedString index:=by
  refine good_of_plain fun _ s hs=>?_
  by_cases h : index > s.savedStrings.length
  · exact .fails hs none _ (if_pos h)
  · exact .goes _ 0 s (if_neg h) rfl hs rfl rfl id fun _=>if_neg h

theorem good_saveString (t:Bytes) : Good fun _=>saveString t:=
  good_of_plain fun _ _ hs => .goes () 0 _ rfl rfl hs rfl rfl id fun _=>rfl

theorem good_str52 (hs:1≤h.sizeTSize ∧ h.sizeTSize≤8) : Good fun d=>str52 h d:=
  (good_rawu _ hs.2).bind fun _=>
    .ite (fun _=>good_pure _) fun _=>good_text _ (Nat.sub_le _ _)

theorem strict_str52 (hs:1≤h.sizeTSize ∧ h.sizeTSize≤8) : Strict fun d=>str52 h d:=
  (strict_rawu _ hs.1 hs.2).bind (good_rawu _ hs.2) fun _=>
    .ite (fun _=>good_pure _) fun _=>good_text _ (Nat.sub_le _ _)

theorem good_longLength (hs:h.sizeTSize≤8) (n:ℕ) : Good fun d=>longLength h d n:=
  .ite (fun _=>good_rawu _ hs) fun _=>good_pure _

theorem good_str53_rest (hs:h.sizeTSize≤8) (n:ℕ) : Good fun d=>
    longLength h d n >>= fun n=>
      if n=0 then return [] else text d (n-1) (n-1) (n-1):=
  (good_longLength hs n).bind fun _=>
    .ite (fun _=>good_pure _) fun _=>good_text _ (Nat.le_refl _)

theorem good_str53 (hs:h.sizeTSize≤8) : Good fun d=>str53 h d:=
  good_b.bind fun n=>good_str53_rest hs n

theorem strict_str53 (hs:h.sizeTSize≤8) : Strict fun d=>str53 h d:=
  strict_b.bind good_b fun n=>good_str53_rest hs n

theorem good_str54 : Good str54:=
  good_var54.bind fun _ => .ite (fun _=>good_pure _) fun _=>good_text _ (Nat.le_refl _)

theorem strict_str54 : Strict str54:=
  strict_var54.bind good_var54 fun _=>
    .ite (fun _=>good_pure _) fun _=>good_text _ (Nat.le_refl _)

theorem good_str55_rest (n:ℕ) : Good fun d=>if n=0 then (do
      let index ← var55 d
      if index=0 then return [] else savedString index)
    else do
      let t ← text d n (n-1) (n-1)
      saveString t
      return t:=
  .ite (fun _=>good_var55.bind fun _=>
      .ite (fun _=>good_pure _) fun _=>good_savedString _)
    fun _=>(good_text _ (Nat.sub_le _ _)).bind fun _=>(good_saveString _).bind fun _=>
      good_pure _

theorem good_str55 : Good str55:=good_var55.bind good_str55_rest

theorem strict_str55 : Strict str55:=strict_var55.bind good_var55 good_str55_rest

theorem good_str (hs:h.Sane) : Good fun d=>str h d:=
  .ite (fun hv=>good_str52 (hs.sizeTSize (by omega))) fun _=>
    .ite (fun hv=>good_str53 (hs.sizeTSize (by omega)).2) fun _=>
      .ite (fun _=>good_str54) fun _=>good_str55

theorem strict_str (hs:h.Sane) : Strict fun d=>str h d:=
  .ite (fun hv=>strict_str52 (hs.sizeTSize (by omega))) fun _=>
    .ite (fun hv=>strict_str53 (hs.sizeTSize (by omega)).2) fun _=>
      .ite (fun _=>strict_str54) fun _=>strict_str55

variable {count size bytes : ℕ}

theorem exact_add (hexact:Exact d s) (hbytes:count*size<2^64 → bytes=count*size)
    (hroom:s.p+bytes≤d.length) (hvectors:s'.vectors=s.vectors++[⟨s.p,count,size⟩]) :
    Exact d s':=by
  intro v hv hfits
  rw [hvectors,mem_append,mem_singleton] at hv
  rcases hv with hv | rfl
  · exact hexact v hv hfits
  · have:=hbytes hfits
    dsimp only at this ⊢
    omega

theorem good_checkVector (hbytes:count*size<2^64 → bytes=count*size) :
    Good fun d=>checkVector d count size bytes message:=by
  refine good_of_plain fun d s hs=>?_
  by_cases h : bytes > d.length-s.p
  · exact .fails hs none _ (if_pos h)
  · refine .goes () 0 _ (if_neg h) rfl hs rfl rfl
      (fun hexact=>exact_add hexact hbytes (by omega) rfl) fun x=>if_neg ?_
    rw [length_append]
    omega

theorem good_skipVector (hbytes:count*size<2^64 → bytes=count*size) :
    Good fun d=>skipVector d count size bytes message:=by
  refine good_of_plain fun d s hs=>?_
  have hrun : ∀e : Bytes,skipVector e count size bytes message s =
      if bytes > e.length-s.p then (none,s.fail message)
      else (some (),{ s with
        p:=s.p+bytes,vectors:=s.vectors++[⟨s.p,count,size⟩] }):=by
    intro e
    unfold skipVector
    rw [bind_run]
    unfold checkVector
    split_ifs <;> rfl
  by_cases h : bytes > d.length-s.p
  · exact .fails hs none _ ((hrun d).trans (if_pos h))
  · refine .goes () bytes _ ((hrun d).trans (if_neg h)) rfl (by omega) rfl rfl
      (fun hexact=>exact_add hexact hbytes (by omega) rfl) fun x=>(hrun _).trans (if_neg ?_)
    rw [length_append]
    omega

theorem mul64_eq {x y:ℕ} (h:x*y<2^64) : mul64 x y = x*y:=Nat.mod_eq_of_lt h

theorem mul64_twice {x y:ℕ} (h:x*(2*y)<2^64) : mul64 (mul64 x 2) y=x*(2*y):=by
  unfold mul64
  rw [Nat.mod_mul_mod,Nat.mul_assoc]
  exact Nat.mod_eq_of_lt h

theorem round_clean (h:s.error=none) : round s = (some (),{s with rounds:=s.rounds+1}):=by
  unfold round
  rw [if_pos (by rw [h];rfl)]

theorem round_error (h:s.error.isSome=true) : round s=(some (),s):=by
  unfold round
  rw [if_neg (by rw [Option.isNone_iff_eq_none];exact ne_none_of_isSome h)]

theorem good_round {body:Bytes→Step α} (h:Good body) (hstrict:Strict body)
    (hk:∀a,Good fun d=>k d a) :
    Good fun d=>body d >>= fun a=>round >>= fun _=>k d a:=by
  have hround : Good fun d=>body d >>= fun a=>round >>= fun _=>(pure a:Step α):=by
    constructor
    · intro d s hs
      have hfine:=h.fine d s hs
      have hthis:=hstrict d s hs
      change Fine d s ((body d >>= fun a=>round >>= fun _=>pure a) s)
      rw [bind_run]
      rcases hrun : body d s with ⟨_ | a,s₁⟩
      · rw [hrun] at hfine
        exact hfine.none rfl
      · rw [hrun] at hfine hthis
        change Fine d s (some a,(round s₁).2)
        cases he : s₁.error with
        | none=>
          have hround:=hthis he
          dsimp only at hround
          rw [round_clean he]
          refine ⟨fun hsome=>?_,(fun h=>by cases h),hfine.le,hfine.bound,?_,hfine.vectors⟩
          · exact absurd he (ne_none_of_isSome (hfine.sticky hsome))
          · dsimp only
            omega
        | some e=>
          rw [round_error (by rw [he];rfl)]
          exact ⟨hfine.sticky,(fun h=>by cases h),hfine.le,hfine.bound,hfine.rounds,
            hfine.vectors⟩
    · intro d x s a s' hs hrun herror
      change (body d >>= fun a=>round >>= fun _=>pure a) s=_ at hrun
      change (body (d++x) >>= fun a=>round >>= fun _=>pure a) s=_
      rw [bind_run] at hrun ⊢
      rcases hfirst : body d s with ⟨_ | c,s₁⟩
      · rw [hfirst] at hrun
        cases hrun
      · rw [hfirst] at hrun
        have hafter : (some c,(round s₁).2)=(some a,s'):=hrun
        have hclean : s₁.error=none:=by
          cases he : s₁.error with
          | none=>rfl
          | some e=>
            rw [round_error (by rw [he];rfl)] at hafter
            obtain ⟨-,rfl⟩:=Prod.mk.inj hafter
            rw [he] at herror
            cases herror
        rw [h.more d x s c s₁ hs hfirst hclean]
        exact hrun
  have hassoc : (fun d=>body d >>= fun a=>round >>= fun _=>k d a) = fun d=>
      (body d >>= fun a=>round >>= fun _=>(pure a:Step α)) >>= k d:=by
    funext d s
    rw [bind_run,bind_run,bind_run]
    rcases body d s with ⟨_ | a,s₁⟩ <;> rfl
  rw [hassoc]
  exact hround.bind hk

end

end AutoRefirst.Lua
