import AutoRefirst.JsonMeaning

/-!
# Two readers of JSON

The reader of ASAR headers and the reader of the introspection protocol were written apart.
They differ in their messages and in when a repeated key is noticed; what they accept and the
value they return are the same.
-/

namespace AutoRefirst.JsonReaders

open CPythonIntrospection (J JP ValueReader Consumes root)
open JsonText JsonMeaning Fallible

theorem strBody_agree (o s:Bytes) (x:Bytes×Bytes) :
    Asar.strBody o s=.ok x ↔ CPythonIntrospection.strBody o s=.ok x:=by
  fun_induction CPythonIntrospection.strBody o s <;> rw [Asar.strBody.eq_def]
  all_goals simp_all [-UInt8.not_lt]

variable {p : JP}

theorem str_agree {k:Bytes} {p':JP} :
    p.str=.ok (k,p') ↔ ∃rest,Asar.str p.ws.rest=.ok (k,rest) ∧ p' = {p with rest}:=by
  unfold JP.str Asar.str
  cases p.ws.rest with
  | nil=>simp
  | cons c s=>
    dsimp only
    by_cases hc : c=byte '"'
    · rw [if_neg (not_not.mpr hc),if_pos hc]
      simp only [strBody_agree]
      cases CPythonIntrospection.strBody [] s with
      | error e=>simp
      | ok x=>
        obtain ⟨u,rest⟩:=x
        simp only [Except.ok.injEq,Prod.mk.injEq]
        constructor
        · rintro ⟨rfl,rfl⟩
          exact ⟨rest,⟨rfl,rfl⟩,rfl⟩
        · rintro ⟨rest',⟨rfl,rfl⟩,rfl⟩
          exact ⟨rfl,rfl⟩
    · rw [if_pos hc,if_neg hc]
      simp

variable {r : Bytes}

theorem digits_agree (e e':String) (s:Bytes) :
    CPythonIntrospection.digits e s=.ok r ↔ CPythonIntrospection.digits e' s=.ok r:=by
  unfold CPythonIntrospection.digits
  cases s with
  | nil=>simp
  | cons c s=>
    dsimp only
    split <;> simp

variable {s : Bytes}

theorem integerPart_agree :
    Asar.integerPart s=.ok r ↔ CPythonIntrospection.integerPart s=.ok r:=by
  cases s with
  | nil=>exact iff_of_false (by intro h;cases h) (by intro h;cases h)
  | cons c s=>
    rw [Asar.integerPart,CPythonIntrospection.integerPart]
    split
    · rfl
    · exact digits_agree _ _ _

theorem fractionPart_agree :
    Asar.fractionPart s=.ok r ↔ CPythonIntrospection.fractionPart s=.ok r:=by
  cases s with
  | nil=>rfl
  | cons c s=>
    rw [Asar.fractionPart,CPythonIntrospection.fractionPart]
    split
    · exact digits_agree _ _ _
    · rfl

theorem exponentPart_agree :
    Asar.exponentPart s=.ok r ↔ CPythonIntrospection.exponentPart s=.ok r:=by
  cases s with
  | nil=>rfl
  | cons c s=>
    rw [Asar.exponentPart,CPythonIntrospection.exponentPart]
    split
    · exact digits_agree _ _ _
    · rfl

theorem numberRest_agree : Asar.numberRest s=.ok r ↔ CPythonIntrospection.numberRest s=.ok r:=by
  simp only [Asar.numberRest,CPythonIntrospection.numberRest,bind_eq_ok,integerPart_agree,
    fractionPart_agree,exponentPart_agree]

def Agree (read read' : ValueReader) : Prop := ∀ p x, read p = .ok x ↔ read' p = .ok x

section
variable {read read' : ValueReader} {p : JP}

theorem Consumes.rest_ne_nil (h:Consumes read) {x:J×JP} (hx:read p=.ok x) : p.rest≠[]:=by
  intro hnil
  have hlt:=h p x.1 x.2 hx
  rw [hnil] at hlt
  exact absurd hlt (Nat.not_lt_zero _)

theorem asar_elements_round (hread:Consumes read) {fuel:ℕ} {a:List J} {r:J×JP} :
    Asar.elements read (fuel+1) a p=.ok r ↔ ∃x p₁ q rest,read p=.ok (x,p₁) ∧
      p₁.ws.rest=q::rest ∧ (q=byte ']' ∧ r=(.array (a++[x]),{p₁ with rest}) ∨
        q = byte ',' ∧ Asar.elements read fuel (a++[x]) {p₁ with rest} = .ok r):=by
  rw [Asar.elements]
  constructor
  · intro h
    split at h
    · cases h
    · obtain ⟨⟨x,p₁⟩,hx,h⟩:=bind_eq_ok.mp h
      dsimp only at h
      split at h
      · cases h
      · rename_i q rest hq
        split at h
        · rename_i hclose
          cases h
          exact ⟨x,p₁,q,rest,hx,hq,.inl ⟨hclose,rfl⟩⟩
        · split at h
          · cases h
          · rename_i hcomma
            exact ⟨x,p₁,q,rest,hx,hq,.inr ⟨not_not.mp hcomma,h⟩⟩
  · rintro ⟨x,p₁,q,rest,hx,hq,h⟩
    rw [if_neg (Consumes.rest_ne_nil hread hx),bind_eq_ok]
    refine ⟨(x,p₁),hx,?_⟩
    dsimp only
    rw [hq]
    rcases h with ⟨rfl,rfl⟩ | ⟨rfl,h⟩
    · rfl
    · exact h

theorem elements_agree (hread:Consumes read) (h:Agree read read') (fuel:ℕ) (a:List J) :
    Agree (Asar.elements read fuel a) (CPythonIntrospection.elements read' fuel a):=by
  induction fuel generalizing a with
  | zero=>exact fun p x=>iff_of_false (by intro h;cases h) (by intro h;cases h)
  | succ fuel ih=>
    intro p x
    rw [asar_elements_round hread,elements_round]
    simp only [h _ _,ih _ _ _]

theorem asar_members_round {fuel:ℕ} {o:List (Bytes×J)} {r:J×JP} :
    Asar.members read (fuel+1) o p=.ok r ↔ ∃k p₁ c rest x p₂ q rest',p.str=.ok (k,p₁) ∧
      p₁.ws.rest=c::rest ∧ c=byte ':' ∧ read {p₁ with rest} = .ok (x,p₂) ∧
      ¬(o.lookup k).isSome ∧ p₂.ws.rest=q::rest' ∧
      (q=byte '}' ∧ r=(.object (o++[(k,x)]),{p₂ with rest:=rest'}) ∨
        q = byte ',' ∧ Asar.members read fuel (o++[(k,x)]) {p₂ with rest:=rest'} = .ok r):=by
  rw [Asar.members]
  constructor
  · intro h
    split at h
    · cases h
    · obtain ⟨⟨k,rest₁⟩,hk,h⟩:=bind_eq_ok.mp h
      have hstr:=str_agree.mpr ⟨rest₁,hk,rfl⟩
      dsimp only at h
      split at h
      · cases h
      · rename_i hfresh
        split at h
        · cases h
        · rename_i c rest hc
          split at h
          · cases h
          · rename_i hcolon
            obtain ⟨⟨x,p₂⟩,hx,h⟩:=bind_eq_ok.mp h
            dsimp only at h
            split at h
            · cases h
            · rename_i q rest' hq
              refine ⟨k,_,c,rest,x,p₂,q,rest',hstr,hc,not_not.mp hcolon,hx,hfresh, hq,?_⟩
              split at h
              · rename_i hclose
                cases h
                exact .inl ⟨hclose,rfl⟩
              · split at h
                · cases h
                · rename_i hcomma
                  exact .inr ⟨not_not.mp hcomma,h⟩
  · rintro ⟨k,p₁,c,rest,x,p₂,q,rest',hstr,hc,rfl,hx,hfresh,hq,h⟩
    have hne : p.rest≠[]:=by
      intro hnil
      have hlt:=JP.str_shorter hstr
      rw [hnil] at hlt
      exact absurd hlt (Nat.not_lt_zero _)
    obtain ⟨rest₁,hk,rfl⟩:=str_agree.mp hstr
    rw [if_neg hne,bind_eq_ok]
    refine ⟨(k,rest₁),hk,?_⟩
    dsimp only
    rw [if_neg hfresh,hc]
    refine bind_eq_ok.mpr ⟨(x,p₂),hx,?_⟩
    dsimp only
    rw [hq]
    rcases h with ⟨rfl,rfl⟩ | ⟨rfl,h⟩
    · rfl
    · exact h

theorem members_agree (h:Agree read read') (fuel:ℕ) (o:List (Bytes×J)) :
    Agree (Asar.members read fuel o) (CPythonIntrospection.members read' fuel o):=by
  induction fuel generalizing o with
  | zero=>exact fun p x=>iff_of_false (by intro h;cases h) (by intro h;cases h)
  | succ fuel ih=>
    intro p x
    rw [asar_members_round,members_round]
    simp only [h _ _,ih _ _ _]

theorem objectBody_agree (h:Agree read read') :
    Agree (Asar.objectBody read) (CPythonIntrospection.objectBody read'):=by
  intro p x
  unfold Asar.objectBody CPythonIntrospection.objectBody
  cases hrest : p.ws.rest with
  | nil=>
    refine ⟨fun hx=>(by cases hx),fun hx=>?_⟩
    obtain ⟨k,p₁,-,-,-,-,-,-,hk,-⟩:=members_round.mp hx
    have hlt:=JP.str_shorter hk
    rw [hrest] at hlt
    exact absurd hlt (Nat.not_lt_zero _)
  | cons c rest=>
    dsimp only
    split
    · rfl
    · exact members_agree h _ _ _ _

theorem arrayBody_agree (hread:Consumes read) (h:Agree read read') :
    Agree (Asar.arrayBody read) (CPythonIntrospection.arrayBody read'):=by
  intro p x
  unfold Asar.arrayBody CPythonIntrospection.arrayBody
  cases hrest : p.ws.rest with
  | nil=>
    refine ⟨fun hx=>(by cases hx),fun hx=>?_⟩
    obtain ⟨y,p₁,-,-,hy,-⟩:=elements_round.mp hx
    have hlt:=hread _ _ _ ((h _ _).mpr hy)
    rw [hrest] at hlt
    exact absurd hlt (Nat.not_lt_zero _)
  | cons c rest=>
    dsimp only
    split
    · rfl
    · exact elements_agree hread h _ _ _ _

end

theorem atom_agree {c:UInt8} (hp:p.rest=c::s) {x:J×JP} :
    Asar.atom c p=.ok x ↔ CPythonIntrospection.atom p=.ok x:=by
  unfold Asar.atom CPythonIntrospection.atom
  split
  · rfl
  split
  · rfl
  split
  · rfl
  split
  · simp only [bind_eq_ok,numberRest_agree]
  · rename_i hhead
    refine ⟨fun hx=>(by cases hx),fun hx=>?_⟩
    obtain ⟨rest,hrest,-⟩:=bind_eq_ok.mp hx
    obtain ⟨t,ht,hnumber⟩:=numberRest_sound hrest
    obtain ⟨d,u,rfl,hd⟩:=number_head hnumber
    rw [hp] at ht
    cases ht
    exact absurd (hd.imp_right isDigit_iff.mpr) hhead

theorem asar_node_eq_ok {p':JP} : Asar.node p=.ok p' ↔ p.node Asar.maxNodes=.ok p':=by
  unfold Asar.node JP.node
  split
  · rfl
  · exact iff_of_false (by intro h;cases h) (by intro h;cases h)

theorem value_agree (levels:ℕ) :
    Agree (Asar.value levels) (CPythonIntrospection.value Asar.maxNodes levels):=by
  induction levels with
  | zero=>
    refine fun p x=>⟨fun h=>?_,fun h=>(by cases h)⟩
    obtain ⟨-,-,h⟩:=bind_eq_ok.mp h
    cases h
  | succ levels ih=>
    intro p x
    have hconsumes : Consumes (Asar.value levels):=by
      intro q y q' hy
      exact CPythonIntrospection.value_consumes _ _ _ _ _ ((ih _ _).mp hy)
    rw [Asar.value,CPythonIntrospection.value]
    simp only [bind_eq_ok,asar_node_eq_ok]
    refine exists_congr fun p₁=>and_congr_right fun hnode=>?_
    cases hrest : p₁.rest with
    | nil=>exact iff_of_false (by intro h;cases h) (by intro h;cases h)
    | cons c rest=>
      dsimp only
      split
      · rename_i hc
        have hws : p₁.ws.rest=p₁.rest:=by
          rw [JP.ws,hrest,List.dropWhile_cons,if_neg]
          rw [hc]
          decide
        constructor
        · intro h
          obtain ⟨⟨s,rest'⟩,hs,h⟩:=bind_eq_ok.mp h
          rw [← hrest,← hws] at hs
          exact bind_eq_ok.mpr ⟨(s,_),str_agree.mpr ⟨rest',hs,rfl⟩,h⟩
        · intro h
          obtain ⟨⟨s,p₂⟩,hs,h⟩:=bind_eq_ok.mp h
          obtain ⟨rest',hbody,rfl⟩:=str_agree.mp hs
          rw [hws,hrest] at hbody
          exact bind_eq_ok.mpr ⟨(s,rest'),hbody,h⟩
      split
      · exact objectBody_agree ih _ _
      split
      · exact arrayBody_agree hconsumes ih _ _
      · exact atom_agree hrest

theorem parseJson_agree {text:Bytes} {j:J} :
    Asar.parseJson text=.ok j ↔ root Asar.maxDepth Asar.maxNodes text=.ok j:=by
  simp only [Asar.parseJson,root,bind_eq_ok,value_agree _ _ _]
  refine exists_congr fun x=>and_congr_right fun _=>?_
  obtain ⟨v,p⟩:=x
  dsimp only
  split
  · rfl
  · exact iff_of_false (by intro h;cases h) (by intro h;cases h)

theorem chars_json {t u:Bytes} (h:Chars t u) : JsonChars t:=by
  have hdigits : ∀ {a b c d:UInt8} {n:ℕ},codeUnit a b c d=some n →
      ∀x∈[a,b,c,d], (hexValue x).isSome:=by
    intro a b c d n hn
    simp only [codeUnit,Option.bind_eq_bind,Option.bind_eq_some_iff] at hn
    obtain ⟨_,ha,_,hb,_,hc,_,hd,-⟩:=hn
    simp [ha,hb,hc,hd]
  induction h with
  | nil=>exact .nil
  | plain hb _ ih=>exact .plain hb ih
  | escape he _ ih=>exact .escape (by rw [he];rfl) ih
  | unicode hn _ _ ih=>exact .unicode (hdigits hn) ih
  | pair hhigh _ hlow _ _ ih=>exact .unicode (hdigits hhigh) (.unicode (hdigits hlow) ih)

section
variable {M : Bytes→J→ℕ→Prop} {t : Bytes}

theorem items_json (hM:∀v j n,M v j n → JsonValue v) {a:List J} {n:ℕ} (h:Items M t a n) :
    ∃e es,t=commas (e::es) ∧ ∀x∈e::es,JsonElement x:=by
  induction h with
  | last hw hv hw'=>
    refine ⟨_,[],?_,List.forall_mem_singleton.mpr (.pad _ _ hw hw' (hM _ _ _ hv))⟩
    simp [commas,List.intercalate]
  | more hw hv hw' _ ih=>
    obtain ⟨e,es,rfl,hes⟩:=ih
    refine ⟨_,e::es,?_,List.forall_mem_cons.mpr ⟨.pad _ _ hw hw' (hM _ _ _ hv),hes⟩⟩
    rw [commas_cons_cons]
    simp only [List.append_assoc]

theorem key_json {u:Bytes} (h:Key t u) : JsonKey t:=by
  obtain ⟨w,k,w',hw,hk,hw',rfl⟩:=h
  exact ⟨w,k,w',hw,chars_json hk,hw',rfl⟩

theorem members_json (hM:∀v j n,M v j n → JsonValue v) {o:List (Bytes×J)} {n:ℕ}
    (h:Members M t o n) : ∃e es,
      t = commas ((e::es).map fun m : Bytes×Bytes=>m.1++byte ':' :: m.2) ∧
        (∀m∈e::es,JsonKey m.1) ∧ ∀m∈e::es,JsonElement m.2:=by
  induction h with
  | @last k u w v w' j n hk hw hv hw'=>
    refine ⟨(k,w++(v++w')),[],?_,List.forall_mem_singleton.mpr (key_json hk),
      List.forall_mem_singleton.mpr (.pad _ _ hw hw' (hM _ _ _ hv))⟩
    simp [commas,List.intercalate]
  | @more k u w v w' t j o n m hk hw hv hw' _ ih=>
    obtain ⟨e,es,rfl,hkeys,helements⟩:=ih
    refine ⟨(k,w++(v++w')),e::es,?_,List.forall_mem_cons.mpr ⟨key_json hk,hkeys⟩,
      List.forall_mem_cons.mpr ⟨.pad _ _ hw hw' (hM _ _ _ hv),helements⟩⟩
    simp only [List.map_cons,commas_cons_cons,List.append_assoc,List.cons_append]

end

theorem means_json (levels:ℕ) {v:Bytes} {j:J} {n:ℕ} (h:Means levels v j n) :
    JsonValue v:=by
  induction levels generalizing v j n with
  | zero=>cases h
  | succ levels ih=>
    cases h with
    | string h=>exact .string (chars_json h)
    | number h=>exact .number h
    | true=>exact .word (by simp)
    | false=>exact .word (by simp)
    | null=>exact .word (by simp)
    | blankArray h=>exact .blankArray h
    | array h=>
      obtain ⟨e,es,rfl,hes⟩:=items_json (fun _ _ _=>ih) h
      exact .array _ hes
    | blankObject h=>exact .blankObject h
    | object h _=>
      obtain ⟨e,es,rfl,hkeys,helements⟩:=members_json (fun _ _ _=>ih) h
      exact .object _ hkeys helements

/-- The text is a value with blanks around it, within a budget of levels and one of values. -/
def Denotes (maxDepth maxNodes : ℕ) (text : Bytes) (j : J) : Prop :=
  ∃ w v w' n, text=w++(v++w') ∧ Blank w ∧ Blank w' ∧ Means maxDepth v j n ∧ n ≤ maxNodes

theorem readers_accept_json (maxDepth maxNodes : ℕ) (text : Bytes) (j : J) :
    (root maxDepth maxNodes text=.ok j ↔ Denotes maxDepth maxNodes text j) ∧
      (Asar.parseJson text=.ok j ↔ Denotes Asar.maxDepth Asar.maxNodes text j) ∧
      (Denotes maxDepth maxNodes text j → JsonElement text) := by
  refine ⟨root_iff,parseJson_agree.trans root_iff,?_⟩
  rintro ⟨w,v,w',n,rfl,hw,hw',hv,-⟩
  exact .pad w w' hw hw' (means_json maxDepth hv)

/-- A surrogate that stands alone is JSON, and neither reader takes it. -/
theorem lone_surrogate_refused : JsonElement (bytes "\"\\ud800\"") ∧
      (root 64 65536 (bytes "\"\\ud800\"")).toOption.isNone = true ∧
      (Asar.parseJson (bytes "\"\\ud800\"")).toOption.isNone = true:=by
  have htext : bytes "\"\\ud800\"" = quote
      [byte '\\',byte 'u',byte 'd',byte '8',byte '0',byte '0']:=by decide +kernel
  refine ⟨?_,by decide +kernel⟩
  rw [htext]
  refine JsonValue.element (.string (.unicode ?_ .nil))
  simp only [List.forall_mem_cons,List.not_mem_nil,false_implies,implies_true,and_true]
  decide

end AutoRefirst.JsonReaders
