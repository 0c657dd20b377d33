import Mathlib.Data.List.Basic

/-!
# Trees from opening and closing marks

A tree of nodes with a tag and attributes is written as a mark where a node opens and one where
it closes. A reader that keeps the tags of the open nodes on a stack, and closes only the
innermost one, has read one tree when the stack is empty again.
-/

namespace AutoRefirst.TaggedTrees
open List

variable {τ α : Type}

inductive Tree (τ α : Type)
  | node (tag : τ) (attrs : α) (children : List (Tree τ α))

inductive Mark (τ α : Type)
  | start (tag : τ) (attrs : α)
  | finish (tag : τ)

/-- A node with the tag of the node around it. -/
structure Visit (τ α : Type) where
  (tag parent : τ)
  attrs : α

def Tree.tag : Tree τ α → τ
  | .node t _ _ => t

mutual

def Tree.marks : Tree τ α → List (Mark τ α)
  | .node t a l => .start t a :: (marksOf l ++ [.finish t])

def marksOf : List (Tree τ α) → List (Mark τ α)
  | [] => []
  | x::l => x.marks ++ marksOf l

end

mutual

/-- The nodes in the order in which they open. -/
def Tree.visits (parent : τ) : Tree τ α → List (Visit τ α)
  | .node t a l => ⟨t,parent,a⟩ :: visitsOf t l

def visitsOf (parent : τ) : List (Tree τ α) → List (Visit τ α)
  | [] => []
  | x::l => x.visits parent ++ visitsOf parent l

end

theorem marksOf_append (l l':List (Tree τ α)) : marksOf (l++l') = marksOf l++marksOf l':=by
  induction l with
  | nil=>rfl
  | cons x l ih=>rw [cons_append,marksOf,ih,marksOf,append_assoc]

theorem visitsOf_append (p:τ) (l l':List (Tree τ α)) :
    visitsOf p (l++l') = visitsOf p l++visitsOf p l':=by
  induction l with
  | nil=>rfl
  | cons x l ih=>rw [cons_append,visitsOf,ih,visitsOf,append_assoc]

/-- An open node with its children so far. -/
structure Frame (τ α : Type) where
  tag : τ
  attrs : α
  children : List (Tree τ α) := []

def Frame.close (f : Frame τ α) : Tree τ α := .node f.tag f.attrs f.children

/-- The marks of open nodes, the innermost of which comes first. -/
def opened : List (Frame τ α) → List (Mark τ α)
  | [] => []
  | f::l => opened l ++ .start f.tag f.attrs :: marksOf f.children

/-- The tag of the innermost open node. -/
def innermost (top : τ) : List (Frame τ α) → τ
  | [] => top
  | f::_ => f.tag

def openedVisits (top : τ) : List (Frame τ α) → List (Visit τ α)
  | [] => []
  | f::l => openedVisits top l ++ ⟨f.tag,innermost top l,f.attrs⟩ :: visitsOf f.tag f.children

theorem opened_close (f g:Frame τ α) (l:List (Frame τ α)) :
    opened ({g with children:=g.children++[f.close]}::l) =
      opened (f::g::l)++[.finish f.tag]:=by
  simp [opened,Frame.close,marksOf_append,marksOf,Tree.marks]

theorem openedVisits_close (top:τ) (f g:Frame τ α) (l:List (Frame τ α)) :
    openedVisits top ({g with children:=g.children++[f.close]}::l) =
      openedVisits top (f::g::l):=by
  simp [openedVisits,Frame.close,visitsOf_append,visitsOf,Tree.visits,innermost]

theorem close_marks (f:Frame τ α) : f.close.marks=opened [f]++[.finish f.tag]:=by
  simp [opened,Frame.close,Tree.marks]

theorem close_visits (top:τ) (f:Frame τ α) : f.close.visits top=openedVisits top [f]:=by
  simp [openedVisits,Frame.close,Tree.visits,innermost]

/-- What the stack and the flags of a reader say about the marks it has read: nothing yet, open
nodes, or a whole tree. The outermost tag is as `P` says. -/
inductive Follows (P : τ→Prop) (top : τ) :
    List (Mark τ α) → List (Visit τ α) → List τ → Bool → Bool → Prop
  | before : Follows P top [] [] [] false false
  | within (f : Frame τ α) (l : List (Frame τ α)) (h : P (((f::l).map Frame.tag).getLastD top)) :
    Follows P top (opened (f::l)) (openedVisits top (f::l)) ((f::l).map Frame.tag) true false
  | after (root : Tree τ α) (h : P root.tag) :
    Follows P top root.marks (root.visits top) [] true true

variable {P : τ→Prop} {top : τ} {marks : List (Mark τ α)} {visits : List (Visit τ α)}
  {stack : List τ} {seen closed : Bool}

theorem Follows.start (h:Follows P top marks visits stack seen closed) (hclosed:closed=false)
    {t:τ} (ht:stack=[] → P t) (a:α) :
    Follows P top (marks++[.start t a]) (visits++[⟨t,stack.headD top,a⟩]) (t::stack) true
      false:=by
  cases h with
  | before=>exact .within ⟨t,a,[]⟩ [] (ht rfl)
  | within f l hP=>
    have hnext : Follows P top _ _ _ true false := .within ⟨t,a,[]⟩ (f::l) hP
    simpa [opened,openedVisits,marksOf,visitsOf,innermost] using hnext
  | after root hP=>exact absurd hclosed (by simp)

theorem Follows.finish {t:τ} {stack:List τ} {last:Bool}
    (h:Follows P top marks visits (t::stack) seen closed) (hlast:last=true ↔ stack=[]) :
    Follows P top (marks++[.finish t]) visits stack true last:=by
  generalize hopen : t::stack=open' at h
  cases h with
  | before=>exact absurd hopen (cons_ne_nil _ _)
  | after root hP=>exact absurd hopen (cons_ne_nil _ _)
  | within f l hP=>
    obtain ⟨rfl,rfl⟩:=List.cons.inj hopen
    cases l with
    | nil=>
      obtain rfl : last=true:=hlast.mpr rfl
      rw [← close_marks,← close_visits]
      exact .after f.close hP
    | cons g l=>
      obtain rfl : last=false:=by
        cases last with
        | false=>rfl
        | true=>exact absurd (hlast.mp rfl) (by simp)
      rw [← opened_close,← openedVisits_close]
      exact .within {g with children:=g.children++[f.close]} l hP

theorem Follows.seen_of_open (h:Follows P top marks visits stack seen closed) (hopen:stack≠[]) :
    seen=true:=by
  cases h with
  | before=>exact absurd rfl hopen
  | within f l hP=>rfl
  | after root hP=>rfl

theorem Follows.not_closed (h:Follows P top marks visits stack seen closed) (hopen:stack≠[]) :
    closed=false:=by
  cases h with
  | before=>rfl
  | within f l hP=>rfl
  | after root hP=>exact absurd rfl hopen

theorem Follows.tree (h:Follows P top marks visits [] seen true) :
    ∃root : Tree τ α,P root.tag ∧ marks=root.marks ∧ visits=root.visits top:=by
  generalize hstack : ([] : List τ)=stack at h
  generalize hclosed : true=closed at h
  cases h with
  | before=>exact absurd hclosed (by simp)
  | within f l hP=>exact absurd hclosed (by simp)
  | after root hP=>exact ⟨root,hP,rfl,rfl⟩

end AutoRefirst.TaggedTrees
