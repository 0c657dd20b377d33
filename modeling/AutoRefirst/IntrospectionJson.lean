import AutoRefirst.ByteText
import AutoRefirst.Fallible

/-!
# The JSON reader of the introspection protocol

One line of the protocol is one JSON value. The reader keeps the text that is left and the
number of nodes read; the depth budget is the number of levels that may still be opened.
-/

namespace AutoRefirst.CPythonIntrospection
open Fallible List Except

inductive J
  | null
  | bool (b : Bool)
  | number (s : Bytes)
  | string (s : Bytes)
  | array (a : List J)
  | object (o : List (Bytes×J))

def J.get (j : J) (k : String) : Option J :=
  match j with
  | .object o => o.lookup (bytes k)
  | _ => none

def isWs (c : UInt8) : Bool := c == 0x20 || c == 0x09 || c == 0x0d || c == 0x0a

def isDigit (c : UInt8) : Bool := 0x30 ≤ c && c ≤ 0x39

def hex (c : UInt8) : Option ℕ :=
  if 0x30 ≤ c && c ≤ 0x39 then some (c.toNat-0x30)
  else if 0x61 ≤ c && c ≤ 0x66 then some (c.toNat-0x61+10)
  else if 0x41 ≤ c && c ≤ 0x46 then some (c.toNat-0x41+10)
  else none

/-- The four digits of a unicode escape. -/
def hex4 (a b c d : UInt8) : Option ℕ := do
  let a ← hex a
  let b ← hex b
  let c ← hex c
  let d ← hex d
  return ((a*16+b)*16+c)*16+d

def utf8 (c : ℕ) : Bytes :=
  if c ≤ 0x7f then [c.toUInt8]
  else if c ≤ 0x7ff then [(0xc0+c/0x40).toUInt8,(0x80 + c % 0x40).toUInt8]
  else if c ≤ 0xffff then
    [(0xe0+c/0x1000).toUInt8,(0x80 + c/0x40 % 0x40).toUInt8,(0x80 + c % 0x40).toUInt8]
  else
    [(0xf0+c/0x40000).toUInt8,(0x80 + c/0x1000 % 0x40).toUInt8,
      (0x80 + c/0x40 % 0x40).toUInt8,(0x80 + c % 0x40).toUInt8]

def simpleEscape (e : UInt8) : Option UInt8 :=
  if e = byte '"' then some (byte '"')
  else if e = byte '\\' then some (byte '\\')
  else if e = byte '/' then some (byte '/')
  else if e = byte 'b' then some 0x08
  else if e = byte 'f' then some 0x0c
  else if e = byte 'n' then some 0x0a
  else if e = byte 'r' then some 0x0d
  else if e = byte 't' then some 0x09
  else none

def isHigh (cp : ℕ) : Bool := 0xd800 ≤ cp && cp ≤ 0xdbff

def isLow (cp : ℕ) : Bool := 0xdc00 ≤ cp && cp ≤ 0xdfff

/-- The body of a string after its opening quote; returns the value and what follows the
closing quote. -/
def strBody (o : Bytes) : Bytes → Except String (Bytes×Bytes)
  | [] => .error "unterminated JSON string"
  | c::rest =>
    if c = byte '"' then .ok (o,rest)
    else if c < 0x20 then .error "control byte in JSON string"
    else if c ≠ byte '\\' then strBody (o++[c]) rest
    else match rest with
      | [] => .error "truncated JSON escape"
      | e::rest =>
        if e = byte 'u' then
          match rest with
          | h₁ :: h₂ :: h₃ :: h₄::rest =>
            match hex4 h₁ h₂ h₃ h₄ with
            | none => .error "invalid JSON unicode escape"
            | some cp =>
              if isHigh cp then
                match rest with
                | s :: u::rest =>
                  if s ≠ byte '\\' ∨ u ≠ byte 'u' then .error "unpaired high JSON surrogate"
                  else match rest with
                    | l₁ :: l₂ :: l₃ :: l₄::rest =>
                      match hex4 l₁ l₂ l₃ l₄ with
                      | none => .error "invalid JSON unicode escape"
                      | some lo =>
                        if isLow lo then
                          strBody (o++utf8 (0x10000+(cp-0xd800)*0x400+(lo-0xdc00))) rest
                        else .error "invalid low JSON surrogate"
                    | _ => .error "truncated JSON unicode escape"
                | _ => .error "unpaired high JSON surrogate"
              else if isLow cp then .error "unpaired low JSON surrogate"
              else strBody (o ++ utf8 cp) rest
          | _ => .error "truncated JSON unicode escape"
        else match simpleEscape e with
          | some x => strBody (o++[x]) rest
          | none => .error "invalid JSON escape"

def digits (e : String) : Bytes → Except String Bytes
  | [] => .error e
  | c::s => if isDigit c then .ok (s.dropWhile isDigit) else .error e

def sign (s : Bytes) : Bytes :=
  match s with
  | c::t => if c = byte '-' then t else s
  | [] => []

def integerPart : Bytes → Except String Bytes
  | [] => .error "bad JSON number"
  | c::s => if c = byte '0' then .ok s else digits "bad JSON number" (c::s)

def fractionPart (s : Bytes) : Except String Bytes :=
  match s with
  | c::t => if c = byte '.' then digits "bad JSON fraction" t else .ok s
  | [] => .ok []

def exponentSign (s : Bytes) : Bytes :=
  match s with
  | c::t => if c = byte '+' ∨ c = byte '-' then t else s
  | [] => []

def exponentPart (s : Bytes) : Except String Bytes :=
  match s with
  | c::t =>
    if c = byte 'e' ∨ c = byte 'E' then digits "bad JSON exponent" (exponentSign t) else .ok s
  | [] => .ok []

/-- What follows the number at the head of the text. -/
def numberRest (s : Bytes) : Except String Bytes := do
  let s ← integerPart (sign s)
  let s ← fractionPart s
  exponentPart s

/-- The text that is left and the number of nodes read. -/
structure JP where
  rest : Bytes
  nodes : ℕ

def JP.ws (p : JP) : JP := {p with rest:=p.rest.dropWhile isWs}

def JP.node (maxNodes : ℕ) (p : JP) : Except String JP :=
  if p.nodes+1 ≤ maxNodes then .ok {p with nodes:=p.nodes+1}
  else .error "JSON node budget exceeded"

def JP.str (p : JP) : Except String (Bytes×JP) :=
  match p.ws.rest with
  | [] => .error "expected JSON string"
  | c::rest =>
    if c ≠ byte '"' then .error "expected JSON string"
    else match strBody [] rest with
      | .error e => .error e
      | .ok (s,rest) => .ok (s,{p with rest})

abbrev ValueReader := JP → Except String (J×JP)

/-- The members of an object after its opening brace, read one a round; `fuel` bounds the
rounds by the text that is left. -/
def members (value : ValueReader) : ℕ → List (Bytes×J) → ValueReader
  | 0, _, _ => .error "expected JSON string"
  | fuel+1, o, p => do
    let (k,p) ← p.str
    match p.ws.rest with
    | [] => .error "expected ':' in JSON object"
    | c::rest =>
      if c ≠ byte ':' then .error "expected ':' in JSON object"
      else
        let (x,p) ← value {p with rest}
        if (o.lookup k).isSome then .error "duplicate JSON object key"
        else match p.ws.rest with
          | [] => .error "unterminated JSON object"
          | q::rest =>
            if q = byte '}' then .ok (.object (o++[(k,x)]),{p with rest})
            else if q ≠ byte ',' then .error "expected ',' in JSON object"
            else members value fuel (o++[(k,x)]) {p with rest}

/-- The elements of an array after its opening bracket. -/
def elements (value : ValueReader) : ℕ → List J → ValueReader
  | 0, _, _ => .error "unexpected end of JSON"
  | fuel+1, a, p => do
    let (x,p) ← value p
    match p.ws.rest with
    | [] => .error "unterminated JSON array"
    | q::rest =>
      if q = byte ']' then .ok (.array (a++[x]),{p with rest})
      else if q ≠ byte ',' then .error "expected ',' in JSON array"
      else elements value fuel (a++[x]) {p with rest}

def objectBody (value : ValueReader) (p : JP) : Except String (J×JP) :=
  match p.ws.rest with
  | [] => members value 1 [] p.ws
  | c::rest =>
    if c = byte '}' then .ok (.object [],{p with rest})
    else members value (p.ws.rest.length+1) [] p.ws

def arrayBody (value : ValueReader) (p : JP) : Except String (J×JP) :=
  match p.ws.rest with
  | [] => elements value 1 [] p.ws
  | c::rest =>
    if c = byte ']' then .ok (.array [],{p with rest})
    else elements value (p.ws.rest.length+1) [] p.ws

/-- A literal or a number. -/
def atom (p : JP) : Except String (J×JP) :=
  if p.rest.take 4 = bytes "true" then .ok (.bool true,{p with rest:=p.rest.drop 4})
  else if p.rest.take 5 = bytes "false" then .ok (.bool false,{p with rest:=p.rest.drop 5})
  else if p.rest.take 4 = bytes "null" then .ok (.null,{p with rest:=p.rest.drop 4})
  else do
    let rest ← numberRest p.rest
    return (.number (p.rest.take (p.rest.length-rest.length)),{p with rest})

/-- A value; the first argument counts the levels that the depth budget still allows. -/
def value (maxNodes : ℕ) : ℕ → ValueReader
  | 0, _ => .error "JSON depth budget exceeded"
  | levels+1, p => do
    let p ← p.ws.node maxNodes
    match p.rest with
    | [] => .error "unexpected end of JSON"
    | c::rest =>
      if c = byte '"' then do
        let (s,p) ← p.str
        return (.string s,p)
      else if c = byte '{' then objectBody (value maxNodes levels) {p with rest}
      else if c = byte '[' then arrayBody (value maxNodes levels) {p with rest}
      else atom p

def root (maxDepth maxNodes : ℕ) (text : Bytes) : Except String J := do
  let (v,p) ← value maxNodes maxDepth {rest:=text,nodes:=0}
  if p.ws.rest = [] then return v else .error "trailing bytes after JSON value"

variable {s rest : Bytes}

theorem strBody_shorter {o v:Bytes} (h:strBody o s=.ok (v,rest)) : rest.length<s.length:=by
  fun_induction strBody o s <;> simp_all <;> omega

theorem dropWhile_le (p:UInt8→Bool) (s:Bytes) : (s.dropWhile p).length ≤ s.length:=
  (dropWhile_suffix p).length_le

theorem digits_shorter {e:String} (h:digits e s=.ok rest) : rest.length<s.length:=by
  unfold digits at h
  split at h
  · simp at h
  · split_ifs at h
    rw [← ok.inj h]
    exact Nat.lt_succ_of_le (dropWhile_le isDigit _)

theorem integerPart_shorter (h:integerPart s=.ok rest) : rest.length<s.length:=by
  unfold integerPart at h
  split at h
  · simp at h
  · split_ifs at h
    · rw [← ok.inj h]
      exact Nat.lt_succ_self _
    · exact digits_shorter h

theorem fractionPart_le (h:fractionPart s=.ok rest) : rest.length ≤ s.length:=by
  unfold fractionPart at h
  split at h
  · split_ifs at h
    · exact Nat.le_of_lt (Nat.lt_succ_of_lt (digits_shorter h))
    · exact Nat.le_of_eq (congrArg List.length (ok.inj h).symm)
  · exact Nat.le_of_eq (congrArg List.length (ok.inj h).symm)

theorem exponentSign_le (s:Bytes) : (exponentSign s).length ≤ s.length:=by
  unfold exponentSign
  split
  · split_ifs
    · exact Nat.le_succ _
    · exact Nat.le_refl _
  · exact Nat.le_refl _

theorem exponentPart_le (h:exponentPart s=.ok rest) : rest.length ≤ s.length:=by
  unfold exponentPart at h
  split at h
  · next c t=>
    split_ifs at h
    · have hdigits:=digits_shorter h
      have hsign:=exponentSign_le t
      rw [length_cons]
      omega
    · exact Nat.le_of_eq (congrArg List.length (ok.inj h).symm)
  · exact Nat.le_of_eq (congrArg List.length (ok.inj h).symm)

theorem sign_le (s:Bytes) : (sign s).length ≤ s.length:=by
  unfold sign
  split
  · split_ifs
    · exact Nat.le_succ _
    · exact Nat.le_refl _
  · exact Nat.le_refl _

theorem numberRest_shorter (h:numberRest s=.ok rest) : rest.length<s.length:=by
  unfold numberRest at h
  simp only [bind_eq_ok] at h
  obtain ⟨s₁,hint,s₂,hfraction,hexponent⟩:=h
  have hsign:=sign_le s
  have h₁:=integerPart_shorter hint
  have h₂:=fractionPart_le hfraction
  have h₃:=exponentPart_le hexponent
  omega

theorem JP.ws_le (p:JP) : p.ws.rest.length≤p.rest.length:=dropWhile_le isWs p.rest

variable {p : JP}

theorem JP.str_shorter {p':JP} (h:p.str=.ok (s,p')) : p'.rest.length<p.rest.length:=by
  unfold JP.str at h
  split at h
  · simp at h
  · next c rest hws=>
    split_ifs at h
    split at h
    · simp at h
    · next s₁ rest₁ hbody=>
      have hshort:=strBody_shorter hbody
      have hle:=p.ws_le
      rw [hws,length_cons] at hle
      rw [ok.injEq,Prod.mk.injEq] at h
      rw [← h.2]
      show rest₁.length < p.rest.length
      omega

def Consumes (value : ValueReader) : Prop :=
  ∀ p j p', value p = .ok (j,p') → p'.rest.length<p.rest.length

variable {read : ValueReader}

theorem members_consumes (hread:Consumes read) (fuel:ℕ) (o:List (Bytes×J)) :
    Consumes (members read fuel o):=by
  induction fuel generalizing o with
  | zero=>exact fun p j p' h=>absurd h (by simp [members])
  | succ fuel ih=>
    intro p j p' h
    rw [members,bind_eq_ok] at h
    obtain ⟨⟨k,p₁⟩,hstr,h⟩:=h
    have h₁:=JP.str_shorter hstr
    have h₁ws:=p₁.ws_le
    simp only [] at h
    split at h
    · simp at h
    · next c rest hrest=>
      rw [hrest,length_cons] at h₁ws
      split_ifs at h
      · rw [bind_eq_ok] at h
        obtain ⟨-,-,h⟩:=h
        simp at h
      · rw [bind_eq_ok] at h
        obtain ⟨⟨x,p₂⟩,hx,h⟩:=h
        have h₂ : p₂.rest.length < rest.length:=hread _ _ _ hx
        have h₂ws:=p₂.ws_le
        split at h
        · simp at h
        · next q rest₂ hrest₂=>
          rw [hrest₂,length_cons] at h₂ws
          split_ifs at h
          · rw [ok.injEq,Prod.mk.injEq] at h
            rw [← h.2]
            show rest₂.length < p.rest.length
            omega
          · have h₃ : p'.rest.length < rest₂.length:=ih _ _ _ _ h
            omega

theorem elements_consumes (hread:Consumes read) (fuel:ℕ) (a:List J) :
    Consumes (elements read fuel a):=by
  induction fuel generalizing a with
  | zero=>exact fun p j p' h=>absurd h (by simp [elements])
  | succ fuel ih=>
    intro p j p' h
    rw [elements,bind_eq_ok] at h
    obtain ⟨⟨x,p₁⟩,hx,h⟩:=h
    have h₁:=hread _ _ _ hx
    have h₁ws:=p₁.ws_le
    simp only [] at h
    split at h
    · simp at h
    · next q rest hrest=>
      rw [hrest,length_cons] at h₁ws
      split_ifs at h
      · rw [ok.injEq,Prod.mk.injEq] at h
        rw [← h.2]
        show rest.length < p.rest.length
        omega
      · have h₂ : p'.rest.length < rest.length:=ih _ _ _ _ h
        omega

theorem objectBody_consumes (hread:Consumes read) : Consumes (objectBody read):=by
  intro p j p' h
  have hws:=p.ws_le
  unfold objectBody at h
  split at h
  · have:=members_consumes hread _ _ _ _ _ h
    omega
  · next c rest hrest=>
    split_ifs at h
    · rw [ok.injEq,Prod.mk.injEq] at h
      rw [hrest,length_cons] at hws
      rw [← h.2]
      show rest.length < p.rest.length
      omega
    · have:=members_consumes hread _ _ _ _ _ h
      omega

theorem arrayBody_consumes (hread:Consumes read) : Consumes (arrayBody read):=by
  intro p j p' h
  have hws:=p.ws_le
  unfold arrayBody at h
  split at h
  · have:=elements_consumes hread _ _ _ _ _ h
    omega
  · next c rest hrest=>
    split_ifs at h
    · rw [ok.injEq,Prod.mk.injEq] at h
      rw [hrest,length_cons] at hws
      rw [← h.2]
      show rest.length < p.rest.length
      omega
    · have:=elements_consumes hread _ _ _ _ _ h
      omega

theorem atom_consumes : Consumes atom:=by
  intro p j p' h
  have hliteral : ∀(n:ℕ) (w:Bytes) (x:J),w.length=n → 0<n → p.rest.take n=w →
      Except.ok (x,{p with rest:=p.rest.drop n}) = Except.ok (ε:=String) (j,p') →
        p'.rest.length<p.rest.length:=by
    intro n w x hw hn htake heq
    rw [ok.injEq,Prod.mk.injEq] at heq
    rw [← heq.2]
    show (p.rest.drop n).length < p.rest.length
    have hlen:=congrArg List.length htake
    rw [length_take] at hlen
    rw [length_drop]
    omega
  unfold atom at h
  split_ifs at h with htrue hfalse hnull
  · exact hliteral 4 _ _ rfl (by omega) htrue h
  · exact hliteral 5 _ _ rfl (by omega) hfalse h
  · exact hliteral 4 _ _ rfl (by omega) hnull h
  · rw [bind_eq_ok] at h
    obtain ⟨rest,hrest,h⟩:=h
    rw [pure_eq_ok,Prod.mk.injEq] at h
    rw [← h.2]
    exact numberRest_shorter hrest

theorem value_consumes (maxNodes levels:ℕ) : Consumes (value maxNodes levels):=by
  induction levels with
  | zero=>exact fun p j p' h=>absurd h (by simp [value])
  | succ levels ih=>
    intro p j p' h
    rw [value,bind_eq_ok] at h
    obtain ⟨p₁,hnode,h⟩:=h
    have hp₁ : p₁.rest.length≤p.rest.length:=by
      unfold JP.node at hnode
      split_ifs at hnode
      rw [← ok.inj hnode]
      exact p.ws_le
    simp only [] at h
    split at h
    · simp at h
    · next c rest hrest=>
      have hlt : rest.length<p₁.rest.length:=by rw [hrest];exact Nat.lt_succ_self _
      split_ifs at h
      · rw [bind_eq_ok] at h
        obtain ⟨⟨s,p₂⟩,hs,h⟩:=h
        rw [pure_eq_ok,Prod.mk.injEq] at h
        have hshort:=JP.str_shorter hs
        rw [← h.2]
        exact Nat.lt_of_lt_of_le hshort hp₁
      · have h₁ : p'.rest.length < rest.length:=objectBody_consumes ih _ _ _ h
        omega
      · have h₁ : p'.rest.length < rest.length:=arrayBody_consumes ih _ _ _ h
        omega
      · have:=atom_consumes _ _ _ h
        omega

theorem members_fuel (hread:Consumes read) {fuel fuel':ℕ} {o:List (Bytes×J)}
    (h:p.rest.length<fuel) (h':p.rest.length<fuel') :
    members read fuel o p=members read fuel' o p:=by
  induction fuel generalizing fuel' o p with
  | zero=>exact absurd h (Nat.not_lt_zero _)
  | succ fuel ih=>
    cases fuel' with
    | zero=>exact absurd h' (Nat.not_lt_zero _)
    | succ fuel'=>
      rw [members,members]
      apply bind_congr_ok
      rintro ⟨k,p₁⟩ hstr
      have h₁:=JP.str_shorter hstr
      have h₁ws:=p₁.ws_le
      simp only []
      split
      · rfl
      · next c rest hrest=>
        rw [hrest,length_cons] at h₁ws
        split_ifs
        · rfl
        · rfl
        · apply bind_congr_ok
          rintro ⟨x,p₂⟩ hx
          have h₂ : p₂.rest.length < rest.length:=hread _ _ _ hx
          have h₂ws:=p₂.ws_le
          split
          · rfl
          · next q rest₂ hrest₂=>
            rw [hrest₂,length_cons] at h₂ws
            split_ifs
            · rfl
            · rfl
            · exact ih (by show rest₂.length < fuel;omega) (by show rest₂.length < fuel';omega)

theorem elements_fuel (hread:Consumes read) {fuel fuel':ℕ} {a:List J}
    (h:p.rest.length<fuel) (h':p.rest.length<fuel') :
    elements read fuel a p=elements read fuel' a p:=by
  induction fuel generalizing fuel' a p with
  | zero=>exact absurd h (Nat.not_lt_zero _)
  | succ fuel ih=>
    cases fuel' with
    | zero=>exact absurd h' (Nat.not_lt_zero _)
    | succ fuel'=>
      rw [elements,elements]
      apply bind_congr_ok
      rintro ⟨x,p₁⟩ hx
      have h₁:=hread _ _ _ hx
      have h₁ws:=p₁.ws_le
      simp only []
      split
      · rfl
      · next q rest hrest=>
        rw [hrest,length_cons] at h₁ws
        split_ifs
        · rfl
        · rfl
        · exact ih (by show rest.length < fuel;omega) (by show rest.length < fuel';omega)

end AutoRefirst.CPythonIntrospection
