import AutoRefirst.IntrospectionJson

/-!
# The JSON reader of ASAR headers

A reader of its own: the messages differ from the introspection protocol's, and a duplicate
key is refused before its value is read.
-/

namespace AutoRefirst.Asar
open List
open CPythonIntrospection (J JP ValueReader isWs isDigit hex4 utf8 simpleEscape isHigh isLow sign
  exponentSign digits)
open Fallible

/-- The body of a string after its opening quote; returns the value and what follows the
closing quote. -/
def strBody (o : Bytes) : Bytes → Except String (Bytes×Bytes)
  | [] => .error "unterminated JSON string"
  | c::rest =>
    if c = byte '"' then .ok (o,rest)
    else if c < 0x20 then .error "control character in JSON string"
    else if c ≠ byte '\\' then strBody (o++[c]) rest
    else match rest with
      | [] => .error "truncated JSON escape"
      | e::rest =>
        if e = byte 'u' then
          match rest with
          | h₁ :: h₂ :: h₃ :: h₄::rest =>
            match hex4 h₁ h₂ h₃ h₄ with
            | none => .error "invalid JSON unicode escape"
            | some cp =>
              if isHigh cp then
                match rest with
                | s :: u::rest =>
                  if s ≠ byte '\\' ∨ u ≠ byte 'u' then .error "unpaired JSON high surrogate"
                  else match rest with
                    | l₁ :: l₂ :: l₃ :: l₄::rest =>
                      match hex4 l₁ l₂ l₃ l₄ with
                      | none => .error "invalid JSON unicode escape"
                      | some lo =>
                        if isLow lo then
                          strBody (o++utf8 (0x10000+(cp-0xd800)*0x400+(lo-0xdc00))) rest
                        else .error "invalid JSON surrogate pair"
                    | _ => .error "truncated JSON unicode escape"
                | _ => .error "unpaired JSON high surrogate"
              else if isLow cp then .error "unpaired JSON low surrogate"
              else strBody (o ++ utf8 cp) rest
          | _ => .error "truncated JSON unicode escape"
        else match simpleEscape e with
          | some x => strBody (o++[x]) rest
          | none => .error "unknown JSON escape"

def str : Bytes → Except String (Bytes×Bytes)
  | [] => .error "expected JSON string"
  | c::rest => if c = byte '"' then strBody [] rest else .error "expected JSON string"

def integerPart : Bytes → Except String Bytes
  | [] => .error "truncated JSON number"
  | c::s => if c = byte '0' then .ok s else digits "invalid JSON number" (c::s)

def fractionPart (s : Bytes) : Except String Bytes :=
  match s with
  | c::t => if c = byte '.' then digits "invalid JSON fraction" t else .ok s
  | [] => .ok []

def exponentPart (s : Bytes) : Except String Bytes :=
  match s with
  | c::t =>
    if c = byte 'e' ∨ c = byte 'E' then digits "invalid JSON exponent" (exponentSign t) else .ok s
  | [] => .ok []

/-- What follows the number at the head of the text. -/
def numberRest (s : Bytes) : Except String Bytes := do
  let s ← integerPart (sign s)
  let s ← fractionPart s
  exponentPart s

def maxNodes : ℕ := 1000000

def maxDepth : ℕ := 160

def node (p : JP) : Except String JP :=
  if p.nodes+1 ≤ maxNodes then .ok {p with nodes:=p.nodes+1}
  else .error "JSON node limit exceeded"

/-- The members of an object after its opening brace, read one a round; `fuel` bounds the
rounds by the text that is left. -/
def members (value : ValueReader) : ℕ → List (Bytes×J) → ValueReader
  | 0, _, _ => .error "unterminated JSON object"
  | fuel+1, o, p =>
    if p.rest = [] then .error "unterminated JSON object"
    else do
      let (k,rest) ← str p.ws.rest
      if (o.lookup k).isSome then .error "duplicate JSON object key"
      else
        let p := {p with rest}
        match p.ws.rest with
        | [] => .error "expected JSON colon"
        | c::rest =>
          if c ≠ byte ':' then .error "expected JSON colon"
          else
            let (x,p) ← value {p with rest}
            match p.ws.rest with
            | [] => .error "expected JSON object comma"
            | q::rest =>
              if q = byte '}' then .ok (.object (o++[(k,x)]),{p with rest})
              else if q ≠ byte ',' then .error "expected JSON object comma"
              else members value fuel (o++[(k,x)]) {p with rest}

def elements (value : ValueReader) : ℕ → List J → ValueReader
  | 0, _, _ => .error "unterminated JSON array"
  | fuel+1, a, p =>
    if p.rest = [] then .error "unterminated JSON array"
    else do
      let (x,p) ← value p
      match p.ws.rest with
      | [] => .error "expected JSON array comma"
      | q::rest =>
        if q = byte ']' then .ok (.array (a++[x]),{p with rest})
        else if q ≠ byte ',' then .error "expected JSON array comma"
        else elements value fuel (a++[x]) {p with rest}

def objectBody (value : ValueReader) (p : JP) : Except String (J×JP) :=
  match p.ws.rest with
  | [] => .error "unterminated JSON object"
  | c::rest =>
    if c = byte '}' then .ok (.object [],{p with rest})
    else members value (p.ws.rest.length+1) [] p.ws

def arrayBody (value : ValueReader) (p : JP) : Except String (J×JP) :=
  match p.ws.rest with
  | [] => .error "unterminated JSON array"
  | c::rest =>
    if c = byte ']' then .ok (.array [],{p with rest})
    else elements value (p.ws.rest.length+1) [] p.ws

/-- A literal or a number. -/
def atom (c : UInt8) (p : JP) : Except String (J×JP) :=
  if p.rest.take 4 = bytes "true" then .ok (.bool true,{p with rest:=p.rest.drop 4})
  else if p.rest.take 5 = bytes "false" then .ok (.bool false,{p with rest:=p.rest.drop 5})
  else if p.rest.take 4 = bytes "null" then .ok (.null,{p with rest:=p.rest.drop 4})
  else if c = byte '-' ∨ isDigit c then do
    let rest ← numberRest p.rest
    return (.number (p.rest.take (p.rest.length-rest.length)),{p with rest})
  else .error "invalid JSON value"

/-- A value; the first argument counts the levels that the depth limit still allows. -/
def value : ℕ → ValueReader
  | 0, p => do
    let _ ← node p.ws
    .error "JSON depth limit exceeded"
  | levels+1, p => do
    let p ← node p.ws
    match p.rest with
    | [] => .error "truncated JSON value"
    | c::rest =>
      if c = byte '"' then do
        let (s,rest) ← str p.rest
        return (.string s,{p with rest})
      else if c = byte '{' then objectBody (value levels) {p with rest}
      else if c = byte '[' then arrayBody (value levels) {p with rest}
      else atom c p

def parseJson (text : Bytes) : Except String J := do
  let (v,p) ← value maxDepth {rest:=text,nodes:=0}
  if p.ws.rest = [] then return v else .error "trailing bytes after JSON root"

/-- No object of the value has a key twice. -/
inductive WellKeyed : J → Prop
  | null : WellKeyed .null
  | bool (b : Bool) : WellKeyed (.bool b)
  | number (s : Bytes) : WellKeyed (.number s)
  | string (s : Bytes) : WellKeyed (.string s)
  | array {a : List J} (h : ∀ x∈a, WellKeyed x) : WellKeyed (.array a)
  | object {o : List (Bytes×J)} (hkeys : (o.map Prod.fst).Nodup)
      (h : ∀ kv∈o, WellKeyed kv.2) : WellKeyed (.object o)

variable {o : List (Bytes×J)}

theorem WellKeyed.keys (h:WellKeyed (.object o)) : (o.map Prod.fst).Nodup:=by
  cases h with
  | object hkeys _=>exact hkeys

theorem WellKeyed.member (h:WellKeyed (.object o)) {kv:Bytes×J} (hkv:kv∈o) :
    WellKeyed kv.2:=by
  cases h with
  | object _ hvalues=>exact hvalues kv hkv

theorem mem_of_lookup {k:Bytes} {v:J} (h:o.lookup k=some v) : (k,v)∈o:=by
  induction o with
  | nil=>cases h
  | cons kv o ih=>
    obtain ⟨k',v'⟩:=kv
    rw [lookup_cons] at h
    split at h
    · rename_i heq
      rw [← Option.some.inj h,eq_of_beq heq]
      exact mem_cons_self
    · exact mem_cons_of_mem _ (ih h)

theorem lookup_isSome_of_mem {k:Bytes} (h:k∈o.map Prod.fst) : (o.lookup k).isSome=true:=by
  induction o with
  | nil=>cases h
  | cons kv o ih=>
    obtain ⟨k',v'⟩:=kv
    rw [lookup_cons]
    split
    · rfl
    · rename_i hne
      rcases mem_cons.mp h with heq | hmem
      · rw [heq] at hne
        simp at hne
      · exact ih hmem

def ReadsKeyed (read : ValueReader) : Prop := ∀ p v p', read p = .ok (v,p') → WellKeyed v

section
variable {read : ValueReader}

theorem members_keyed (hread:ReadsKeyed read) (fuel:ℕ) {o:List (Bytes×J)}
    (ho:WellKeyed (.object o)) : ReadsKeyed (members read fuel o):=by
  induction fuel generalizing o with
  | zero=>
    intro p v p' h
    cases h
  | succ fuel ih=>
    intro p v p' h
    rw [members] at h
    split at h
    · cases h
    rw [bind_eq_ok] at h
    obtain ⟨⟨k,rest⟩,-,h⟩:=h
    dsimp only at h
    split at h
    · cases h
    rename_i hfresh
    split at h
    · cases h
    split at h
    · cases h
    rw [bind_eq_ok] at h
    obtain ⟨⟨x,p₂⟩,hx,h⟩:=h
    have hnext : WellKeyed (.object (o++[(k,x)])):=by
      refine .object ?_ ?_
      · rw [map_append,nodup_append]
        refine ⟨ho.keys,by simp,?_⟩
        intro a ha c hc heq
        rw [map_cons,map_nil,mem_singleton] at hc
        rw [heq,hc] at ha
        exact hfresh (lookup_isSome_of_mem ha)
      · intro kv hkv
        rcases mem_append.mp hkv with hold | hnew
        · exact ho.member hold
        · rw [mem_singleton.mp hnew]
          exact hread _ _ _ hx
    dsimp only at h
    split at h
    · cases h
    split at h
    · cases h
      exact hnext
    · split at h
      · cases h
      · exact ih hnext _ _ _ h

theorem elements_keyed (hread:ReadsKeyed read) (fuel:ℕ) {a:List J}
    (ha:∀x∈a,WellKeyed x) : ReadsKeyed (elements read fuel a):=by
  induction fuel generalizing a with
  | zero=>
    intro p v p' h
    cases h
  | succ fuel ih=>
    intro p v p' h
    rw [elements] at h
    split at h
    · cases h
    rw [bind_eq_ok] at h
    obtain ⟨⟨x,p₂⟩,hx,h⟩:=h
    have hnext : ∀y∈a++[x],WellKeyed y:=by
      intro y hy
      rcases mem_append.mp hy with hold | hnew
      · exact ha y hold
      · rw [mem_singleton.mp hnew]
        exact hread _ _ _ hx
    dsimp only at h
    split at h
    · cases h
    split at h
    · cases h
      exact .array hnext
    · split at h
      · cases h
      · exact ih hnext _ _ _ h

theorem objectBody_keyed (hread:ReadsKeyed read) : ReadsKeyed (objectBody read):=by
  intro p v p' h
  have hempty : WellKeyed (.object []) := .object (by simp) (by simp)
  unfold objectBody at h
  split at h
  · cases h
  · split at h
    · cases h
      exact hempty
    · exact members_keyed hread _ hempty _ _ _ h

theorem arrayBody_keyed (hread:ReadsKeyed read) : ReadsKeyed (arrayBody read):=by
  intro p v p' h
  unfold arrayBody at h
  split at h
  · cases h
  · split at h
    · cases h
      exact .array (by simp)
    · exact elements_keyed hread _ (by simp) _ _ _ h

theorem atom_keyed (c:UInt8) : ReadsKeyed (atom c):=by
  intro p v p' h
  unfold atom at h
  split at h
  · cases h
    exact .bool true
  split at h
  · cases h
    exact .bool false
  split at h
  · cases h
    exact .null
  split at h
  · rw [bind_eq_ok] at h
    obtain ⟨rest,-,h⟩:=h
    cases h
    exact .number _
  · cases h

end

theorem value_keyed (levels:ℕ) : ReadsKeyed (value levels):=by
  induction levels with
  | zero=>
    intro p v p' h
    rw [value,bind_eq_ok] at h
    obtain ⟨-,-,h⟩:=h
    cases h
  | succ levels ih=>
    intro p v p' h
    rw [value,bind_eq_ok] at h
    obtain ⟨p₁,-,h⟩:=h
    split at h
    · cases h
    split at h
    · rw [bind_eq_ok] at h
      obtain ⟨⟨s,rest⟩,-,h⟩:=h
      cases h
      exact .string s
    split at h
    · exact objectBody_keyed ih _ _ _ h
    split at h
    · exact arrayBody_keyed ih _ _ _ h
    · exact atom_keyed _ _ _ _ h

theorem parseJson_keyed {text:Bytes} {v:J} (h:parseJson text=.ok v) : WellKeyed v:=by
  rw [parseJson,bind_eq_ok] at h
  obtain ⟨⟨v',p⟩,hv,h⟩:=h
  dsimp only at h
  split at h
  · cases h
    exact value_keyed _ _ _ _ hv
  · cases h

end AutoRefirst.Asar
