import AutoRefirst.ByteText

/-!
# Super calls of native classes

The part of `analyze_gdscript_buffer` that looks for `super.method(` in the functions of a script
with one `extends` clause. Blocks are known from the tokens alone: a block is open from its `INDENT`
up to the `DEDENT` that takes it back, and it belongs to the line that ended right before it.
-/

namespace AutoRefirst.GdscriptBuffer
open List

inductive TokenType
  | NEWLINE | INDENT | DEDENT | CLASS | EXTENDS | IDENTIFIER | PERIOD | TK_EOF | FUNC | SUPER
  | PARENTHESIS_OPEN
  | other (name : String)
  deriving DecidableEq

structure GDScriptTokenInfo where
  index : ℕ := 0
  type : TokenType
  (data effectiveLine : ℕ := 0)
  effectiveLineKnown : Bool := false

abbrev Tokens := List GDScriptTokenInfo

structure GDScriptNativeSuperCallInfo where
  (baseClass methodName : Bytes)
  (extendsKeywordTokenIndex extendsIdentifierTokenIndex superTokenIndex methodIdentifierTokenIndex
    effectiveLine : ℕ)
  effectiveLineKnown : Bool

structure ExtendsEvidence where
  name : Bytes
  (keyword identifier : ℕ)

def extendsEvidence (identifiers : List Bytes) (t : GDScriptTokenInfo) :
    Tokens → Option ExtendsEvidence
  | [] => none
  | idtok::rest =>
    if idtok.type ≠ .IDENTIFIER then none
    else match identifiers[idtok.data]? with
      | none => none
      | some text => match rest with
        | [] => some ⟨text,t.index,idtok.index⟩
        | next::_ => if next.type ≠ .NEWLINE ∧ next.type ≠ .TK_EOF then none
          else some ⟨text,t.index,idtok.index⟩

structure ExtendsState where
  indentDepth : ℕ := 0
  lineHasClass : Bool := false
  headExtends : Option ExtendsEvidence := none
  extendsAmbiguous : Bool := false

def ExtendsState.found (s : ExtendsState) (e : ExtendsEvidence) : ExtendsState :=
  if s.headExtends.isSome then {s with extendsAmbiguous:=true} else {s with headExtends:=some e}

def extendsTurn (identifiers : List Bytes) (s : ExtendsState) (t : GDScriptTokenInfo)
    (rest : Tokens) : ExtendsState :=
  match t.type with
  | .DEDENT => {s with indentDepth:=s.indentDepth-1}
  | .INDENT => {s with indentDepth:=s.indentDepth+1}
  | .NEWLINE => {s with lineHasClass:=false}
  | .CLASS => {s with lineHasClass:=true}
  | .EXTENDS =>
    if s.indentDepth ≠ 0 ∨ s.lineHasClass then s
    else match extendsEvidence identifiers t rest with
      | none => s
      | some e => s.found e
  | _ => s

inductive BlockKind
  | Other | Class | Function
  deriving DecidableEq

def superCall (e : ExtendsEvidence) (identifiers : List Bytes) (t : GDScriptTokenInfo) :
    Tokens → Option GDScriptNativeSuperCallInfo
  | period :: method :: opening::_ =>
    if period.type ≠ .PERIOD ∨ method.type ≠ .IDENTIFIER ∨ opening.type ≠ .PARENTHESIS_OPEN then none
    else identifiers[method.data]?.map fun text =>
      { baseClass:=e.name,methodName:=text
        extendsKeywordTokenIndex:=e.keyword,extendsIdentifierTokenIndex:=e.identifier
        superTokenIndex:=t.index,methodIdentifierTokenIndex:=method.index
        effectiveLine:=t.effectiveLine,effectiveLineKnown:=t.effectiveLineKnown }
  | _ => none

structure BlockState where
  blocks : List BlockKind := []
  pending : BlockKind := .Other
  (lineClass lineNamedFunc : Bool := false)
  nativeSuperCalls : List GDScriptNativeSuperCallInfo := []

def named (rest : Tokens) : Bool := rest.head?.any (·.type = .IDENTIFIER)

def blockTurn (e : ExtendsEvidence) (identifiers : List Bytes) (s : BlockState)
    (t : GDScriptTokenInfo) (rest : Tokens) : BlockState :=
  match t.type with
  | .DEDENT => {s with blocks:=s.blocks.tail}
  | .INDENT => {s with blocks:=s.pending::s.blocks,pending:=.Other}
  | .NEWLINE =>
    { s with
      pending := if s.lineClass then .Class else if s.lineNamedFunc then .Function else .Other
      lineClass:=false,lineNamedFunc:=false }
  | .CLASS => {s with lineClass:=true}
  | .FUNC => if named rest then {s with lineNamedFunc:=true} else s
  | .SUPER =>
    if .Class ∈ s.blocks ∨ .Function ∉ s.blocks then s
    else {s with nativeSuperCalls:=s.nativeSuperCalls++(superCall e identifiers t rest).toList}
  | _ => s

/-- A loop over the tokens that sees what follows. -/
def turns {σ : Type} (turn : σ→GDScriptTokenInfo→Tokens→σ) : σ → Tokens → σ
  | s, [] => s
  | s, t::rest => turns turn (turn s t rest) rest

def nativeSuperCalls (tokens : Tokens) (identifiers : List Bytes) :
    List GDScriptNativeSuperCallInfo :=
  let s := turns (extendsTurn identifiers) {} tokens
  match s.headExtends with
  | some e =>
    if s.extendsAmbiguous then [] else (turns (blockTurn e identifiers) {} tokens).nativeSuperCalls
  | none => []

/-- The blocks that are open behind tokens, which stand last first: a `DEDENT` takes back the nearest
block before it, and `n` of them wait. A block is given by the tokens before it. -/
def openBlocks : ℕ → Tokens → List Tokens
  | _, [] => []
  | n, t::l =>
    if t.type = .DEDENT then openBlocks (n+1) l
    else if t.type = .INDENT then
      match n with
      | 0 => l.reverse :: openBlocks 0 l
      | n+1 => openBlocks n l
    else openBlocks n l

def blocksAround (before : Tokens) : List Tokens := openBlocks 0 before.reverse

def currentLine (before : Tokens) : Tokens :=
  (before.reverse.takeWhile fun t => t.type ≠ .NEWLINE).reverse

/-- The line that a block opening here belongs to, which ends right before it. -/
def openingLine (before : Tokens) : Tokens :=
  match before.reverse.dropWhile fun t => t.type ≠ .NEWLINE ∧ t.type ≠ .INDENT with
  | [] => []
  | t::l => if t.type = .NEWLINE then currentLine l.reverse else []

def hasClass (line : Tokens) : Bool := line.any (·.type = .CLASS)

def hasNamedFunc : Tokens → Bool
  | [] => false
  | t::l => (t.type = .FUNC && named l) || hasNamedFunc l

def lineKind (line : Tokens) : BlockKind :=
  if hasClass line then .Class else if hasNamedFunc line then .Function else .Other

def kindsAround (before : Tokens) : List BlockKind :=
  (blocksAround before).map fun b => lineKind (openingLine b)

/-- What is found at the places of a stream, each seen once and in order, with the tokens before it
and behind it. -/
def places {α : Type} (f : Tokens→GDScriptTokenInfo→Tokens→Option α) : Tokens → Tokens → List α
  | _, [] => []
  | before, t::rest => (f before t rest).toList ++ places f (before++[t]) rest

/-- The clause of a script stands in no block and not behind `class`. -/
def topLevelExtends (identifiers : List Bytes) (before : Tokens) (t : GDScriptTokenInfo)
    (rest : Tokens) : Option ExtendsEvidence :=
  if t.type = .EXTENDS ∧ blocksAround before = [] ∧ hasClass (currentLine before) = false then
    extendsEvidence identifiers t rest
  else none

/-- A call in the block of a named function and in none of a class. -/
def scopedSuperCall (e : ExtendsEvidence) (identifiers : List Bytes) (before : Tokens)
    (t : GDScriptTokenInfo) (rest : Tokens) : Option GDScriptNativeSuperCallInfo :=
  if t.type = .SUPER ∧ .Function ∈ kindsAround before ∧ .Class ∉ kindsAround before then
    superCall e identifiers t rest
  else none

variable {before rest : Tokens} {t : GDScriptTokenInfo}

theorem currentLine_newline (h:t.type=.NEWLINE) : currentLine (before++[t])=[]:=by
  simp [currentLine,h]

theorem currentLine_snoc (h:t.type≠.NEWLINE) :
    currentLine (before++[t]) = currentLine before++[t]:=by
  simp [currentLine,h]

theorem hasClass_snoc (h:t.type≠.NEWLINE) : hasClass (currentLine (before++[t])) =
    (hasClass (currentLine before) || decide (t.type=.CLASS)):=by
  simp [currentLine_snoc h,hasClass]

theorem openingLine_newline (h:t.type=.NEWLINE) :
    openingLine (before++[t])=currentLine before:=by
  simp [openingLine,h]

theorem openingLine_indent (h:t.type=.INDENT) : openingLine (before++[t])=[]:=by
  simp [openingLine,h]

theorem openingLine_other (h:t.type≠.NEWLINE) (h':t.type≠.INDENT) :
    openingLine (before++[t])=openingLine before:=by
  simp [openingLine,h,h']

theorem hasNamedFunc_snoc (line:Tokens) : hasNamedFunc (line++t::rest.take 1) =
      (hasNamedFunc (line++[t]) || (t.type = .FUNC && named rest)):=by
  induction line with
  | nil=>
    cases rest with
    | nil=>simp [hasNamedFunc,named]
    | cons u rest=>by_cases h : u.type = .FUNC <;> simp [hasNamedFunc,named,h]
  | cons a line ih=>
    rw [cons_append,hasNamedFunc,ih,cons_append,hasNamedFunc,Bool.or_assoc]
    cases line <;> rfl

theorem hasNamedFunc_end (h:t.type≠.IDENTIFIER) (line:Tokens) :
    hasNamedFunc (line++[t])=hasNamedFunc line:=by
  induction line with
  | nil=>simp [hasNamedFunc,named]
  | cons a line ih=>
    rw [cons_append,hasNamedFunc,ih,hasNamedFunc]
    cases line <;> simp [named,h]

theorem openBlocks_succ (n:ℕ) (l:Tokens) : openBlocks (n+1) l=(openBlocks n l).tail:=by
  induction l generalizing n with
  | nil=>rfl
  | cons t l ih=>
    cases n <;> rw [openBlocks,openBlocks] <;> split_ifs
    · exact ih 1
    · rfl
    · exact ih 0
    · exact ih _
    · exact ih _
    · exact ih _

theorem blocksAround_dedent (h:t.type=.DEDENT) :
    blocksAround (before++[t])=(blocksAround before).tail:=by
  rw [blocksAround,reverse_append,reverse_singleton,singleton_append,openBlocks,if_pos h,
    openBlocks_succ,blocksAround]

theorem blocksAround_indent (h:t.type=.INDENT) :
    blocksAround (before++[t])=before::blocksAround before:=by
  rw [blocksAround,reverse_append,reverse_singleton,singleton_append,openBlocks,
    if_neg (by simp [h]),if_pos h,reverse_reverse,blocksAround]

theorem blocksAround_other (hi:t.type≠.INDENT) (hd:t.type≠.DEDENT) :
    blocksAround (before++[t])=blocksAround before:=by
  rw [blocksAround,reverse_append,reverse_singleton,singleton_append,openBlocks,if_neg hd,
    if_neg hi,blocksAround]

variable {identifiers : List Bytes}

/-- What the first loop knows behind these tokens. -/
structure ExtendsTracks (before : Tokens) (found : List ExtendsEvidence) (s : ExtendsState) : Prop where
  depth : s.indentDepth=(blocksAround before).length
  lineHasClass : s.lineHasClass=hasClass (currentLine before)
  headExtends : s.headExtends=found.head?
  ambiguous : s.extendsAmbiguous=true ↔ 1<found.length

theorem ExtendsTracks.start : ExtendsTracks [] [] {}:=⟨rfl,rfl,rfl,by simp⟩

variable {found : List ExtendsEvidence} {s : ExtendsState}

/-- A token that has nothing to do with the clause. -/
theorem ExtendsTracks.pass (h:ExtendsTracks before found s) {depth:ℕ} {inClass:Bool}
    (hdepth:depth=(blocksAround (before++[t])).length)
    (hline:inClass=hasClass (currentLine (before++[t]))) {o:Option ExtendsEvidence}
    (ho:o=none) : ExtendsTracks (before++[t]) (found++o.toList)
      {s with indentDepth:=depth,lineHasClass:=inClass}:=by
  subst ho
  rw [Option.toList_none,append_nil]
  exact ⟨hdepth,hline,h.headExtends,h.ambiguous⟩

theorem ExtendsTracks.clause (h:ExtendsTracks before found s) (e:ExtendsEvidence)
    (hdepth:s.indentDepth=(blocksAround (before++[t])).length)
    (hline:s.lineHasClass=hasClass (currentLine (before++[t]))) :
    ExtendsTracks (before++[t]) (found++[e]) (s.found e):=by
  have hhead:=h.headExtends
  have hambiguous:=h.ambiguous
  cases found with
  | nil=>
    rw [ExtendsState.found,hhead]
    exact ⟨hdepth,hline,rfl,by simpa using hambiguous⟩
  | cons f found=>
    have hsome : s.headExtends.isSome=true:=by rw [hhead];rfl
    rw [ExtendsState.found,if_pos hsome]
    exact ⟨hdepth,hline,hhead,by simp⟩

theorem ExtendsTracks.turn (h:ExtendsTracks before found s) :
    ExtendsTracks (before++[t]) (found++(topLevelExtends identifiers before t rest).toList)
      (extendsTurn identifiers s t rest):=by
  have hnone (hne:t.type≠.EXTENDS) : topLevelExtends identifiers before t rest=none:=
    if_neg fun hc=>hne hc.1
  have hother (hi:t.type≠.INDENT) (hd:t.type≠.DEDENT) :
      s.indentDepth=(blocksAround (before++[t])).length:=by
    rw [blocksAround_other hi hd,h.depth]
  have hline (hn:t.type≠.NEWLINE) (hc:t.type≠.CLASS) :
      s.lineHasClass=hasClass (currentLine (before++[t])):=by
    simp [hasClass_snoc hn,hc,h.lineHasClass]
  unfold extendsTurn
  split
  case h_1 ht=>
    refine h.pass ?_ (hline ?_ ?_) (hnone ?_) <;> simp [ht,h.depth,blocksAround_dedent]
  case h_2 ht=>
    refine h.pass ?_ (hline ?_ ?_) (hnone ?_) <;> simp [ht,h.depth,blocksAround_indent]
  case h_3 ht=>
    refine h.pass (hother ?_ ?_) ?_ (hnone ?_) <;> simp [ht,currentLine_newline,hasClass]
  case h_4 ht=>
    refine h.pass (hother ?_ ?_) ?_ (hnone ?_) <;> simp [ht,hasClass_snoc]
  case h_5 ht=>
    have hopen : blocksAround before=[] ↔ s.indentDepth=0:=by
      rw [h.depth,length_eq_zero_iff]
    have hi : t.type≠.INDENT:=by simp [ht]
    have hd : t.type≠.DEDENT:=by simp [ht]
    have hlast:=hline (by simp [ht]) (by simp [ht])
    split
    case isTrue hc=>
      refine h.pass (hother hi hd) hlast (if_neg fun hall=>?_)
      rcases hc with hc | hc
      · exact hc (hopen.mp hall.2.1)
      · rw [h.lineHasClass,hall.2.2] at hc
        exact absurd hc Bool.false_ne_true
    case isFalse hc=>
      rw [not_or,not_not,Bool.not_eq_true,h.lineHasClass] at hc
      have hevidence : topLevelExtends identifiers before t rest=extendsEvidence identifiers t rest:=
        if_pos ⟨ht,hopen.mpr hc.1,hc.2⟩
      rw [hevidence]
      cases extendsEvidence identifiers t rest with
      | none=>exact h.pass (hother hi hd) hlast rfl
      | some e=>exact h.clause e (hother hi hd) hlast
  case h_6 hd hi hn hc he=>exact h.pass (hother hi hd) (hline hn hc) (hnone he)

theorem ExtendsTracks.run (h:ExtendsTracks before found s) :
    ∃all,ExtendsTracks all (found++places (topLevelExtends identifiers) before rest)
      (turns (extendsTurn identifiers) s rest):=by
  induction rest generalizing before found s with
  | nil=>exact ⟨before,by rw [places,append_nil];exact h⟩
  | cons t rest ih=>
    rw [places,← append_assoc]
    exact ih h.turn

variable {e : ExtendsEvidence} {calls : List GDScriptNativeSuperCallInfo}

/-- What the second loop knows behind these tokens. -/
structure BlockTracks (before rest : Tokens) (calls : List GDScriptNativeSuperCallInfo)
    (s : BlockState) : Prop where
  blocks : s.blocks = kindsAround before
  pending : s.pending=lineKind (openingLine before)
  lineClass : s.lineClass=hasClass (currentLine before)
  lineNamedFunc : s.lineNamedFunc=hasNamedFunc (currentLine before ++ rest.take 1)
  calls : s.nativeSuperCalls=calls

theorem BlockTracks.start : BlockTracks [] rest [] {}:=by
  refine ⟨rfl,rfl,rfl,?_,rfl⟩
  cases rest <;> simp [currentLine,hasNamedFunc,named]

variable {s : BlockState}

theorem BlockTracks.turn (h:BlockTracks before (t::rest) calls s) :
    BlockTracks (before++[t]) rest (calls++(scopedSuperCall e identifiers before t rest).toList)
      (blockTurn e identifiers s t rest):=by
  have hnone (hne:t.type≠.SUPER) :
      calls++(scopedSuperCall e identifiers before t rest).toList = calls:=by
    rw [scopedSuperCall,if_neg fun hc=>hne hc.1,Option.toList_none,append_nil]
  have hother (hi:t.type≠.INDENT) (hd:t.type≠.DEDENT) :
      s.blocks=kindsAround (before++[t]):=by
    rw [kindsAround,blocksAround_other hi hd,h.blocks,kindsAround]
  have hpending (hn:t.type≠.NEWLINE) (hi:t.type≠.INDENT) :
      s.pending=lineKind (openingLine (before++[t])):=by rw [openingLine_other hn hi,h.pending]
  have hclass (hn:t.type≠.NEWLINE) (hc:t.type≠.CLASS) :
      s.lineClass=hasClass (currentLine (before++[t])):=by
    simp [hasClass_snoc hn,hc,h.lineClass]
  have hfunc : s.lineNamedFunc=hasNamedFunc (currentLine before++[t]):=h.lineNamedFunc
  have hnamed (hn:t.type≠.NEWLINE) (hf:(t.type = .FUNC && named rest)=false) :
      s.lineNamedFunc=hasNamedFunc (currentLine (before++[t])++rest.take 1):=by
    rw [currentLine_snoc hn,append_assoc,singleton_append,hasNamedFunc_snoc,hf, Bool.or_false,hfunc]
  unfold blockTurn
  split
  case h_1 ht=>
    rw [hnone (by simp [ht])]
    refine ⟨?_,hpending ?_ ?_,hclass ?_ ?_,hnamed ?_ ?_,h.calls⟩
    · rw [kindsAround,blocksAround_dedent ht,List.map_tail,h.blocks,kindsAround]
    all_goals simp [ht]
  case h_2 ht=>
    rw [hnone (by simp [ht])]
    refine ⟨?_,?_,hclass ?_ ?_,hnamed ?_ ?_,h.calls⟩
    · rw [kindsAround,blocksAround_indent ht,map_cons,h.blocks,h.pending,kindsAround]
    · rw [openingLine_indent ht]
      rfl
    all_goals simp [ht]
  case h_3 ht=>
    rw [hnone (by simp [ht])]
    refine ⟨hother ?_ ?_,?_,?_,?_,h.calls⟩
    · simp [ht]
    · simp [ht]
    · rw [openingLine_newline ht,lineKind,h.lineClass,hfunc,
        hasNamedFunc_end (by rw [ht];exact TokenType.noConfusion)]
    · rw [currentLine_newline ht]
      rfl
    · rw [currentLine_newline ht]
      cases rest <;> simp [hasNamedFunc,named]
  case h_4 ht=>
    rw [hnone (by simp [ht])]
    refine ⟨hother ?_ ?_,hpending ?_ ?_,?_,hnamed ?_ ?_,h.calls⟩
    all_goals simp [ht,hasClass_snoc]
  case h_5 ht=>
    rw [hnone (by simp [ht])]
    split
    case isTrue hn=>
      refine ⟨hother ?_ ?_,hpending ?_ ?_,hclass ?_ ?_,?_,h.calls⟩
      case refine_7=>
        rw [currentLine_snoc (by simp [ht]),append_assoc,singleton_append,
          hasNamedFunc_snoc]
        simp [ht,hn]
      all_goals simp [ht]
    case isFalse hn=>
      refine ⟨hother ?_ ?_,hpending ?_ ?_,hclass ?_ ?_,hnamed ?_ ?_,h.calls⟩
      all_goals simp [ht,hn]
  case h_6 ht=>
    have hstay (calls':List GDScriptNativeSuperCallInfo) : BlockTracks (before++[t]) rest calls'
        {s with nativeSuperCalls:=calls'}:=by
      refine ⟨hother ?_ ?_,hpending ?_ ?_,hclass ?_ ?_,hnamed ?_ ?_,rfl⟩
      all_goals simp [ht]
    split
    case isTrue hc=>
      rw [h.blocks] at hc
      rw [scopedSuperCall,if_neg (by tauto),Option.toList_none,append_nil,← h.calls]
      exact hstay s.nativeSuperCalls
    case isFalse hc=>
      rw [h.blocks] at hc
      rw [scopedSuperCall,if_pos (by tauto),← h.calls]
      exact hstay _
  case h_7 hd hi hn hc hf hs=>
    rw [hnone hs]
    exact ⟨hother hi hd,hpending hn hi,hclass hn hc,hnamed hn (by rw [decide_eq_false hf];rfl),
      h.calls⟩

theorem BlockTracks.run (h:BlockTracks before rest calls s) :
    (turns (blockTurn e identifiers) s rest).nativeSuperCalls =
      calls++places (scopedSuperCall e identifiers) before rest:=by
  induction rest generalizing before calls s with
  | nil=>rw [turns,places,append_nil,h.calls]
  | cons t rest ih=>rw [turns,ih h.turn,places,append_assoc]

/-- The calls that are recorded are those in the blocks of named functions and in none of a class,
each once and in order, where the script has exactly one clause; else there are none. -/
theorem native_super_calls_scoped (tokens : Tokens) (identifiers : List Bytes) :
    nativeSuperCalls tokens identifiers =
      match places (topLevelExtends identifiers) [] tokens with
      | [e] => places (scopedSuperCall e identifiers) [] tokens
      | _ => [] := by
  obtain ⟨all,h⟩ : ∃all,ExtendsTracks all _ (turns (extendsTurn identifiers) {} tokens):=
    ExtendsTracks.start.run
  have hhead:=h.headExtends
  have hambiguous:=h.ambiguous
  unfold nativeSuperCalls
  rw [nil_append] at hhead hambiguous
  generalize places (topLevelExtends identifiers) [] tokens=clauses at hhead hambiguous ⊢
  dsimp only
  rw [hhead]
  cases clauses with
  | nil=>rfl
  | cons e l=>
    rw [head?_cons]
    cases l with
    | nil=>
      have hone : (turns (extendsTurn identifiers) {} tokens).extendsAmbiguous=false:=by
        simpa using hambiguous
      simp only [hone,Bool.false_eq_true,if_false]
      exact BlockTracks.start.run
    | cons f l=>
      simp only [hambiguous.mpr (by simp),if_true]

end AutoRefirst.GdscriptBuffer
