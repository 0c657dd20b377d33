import Mathlib.Data.Finset.Card

/-!
# Traversals with an active set

A depth-first traversal of a finite graph that stops at the nodes it is in the middle of. Some
nodes start their children with no such node. The traversal ends exactly when none of these nodes
that it can reach reaches itself.
-/

namespace ScopedTraversal
open List

variable {V : Type} (children : V→List V) (fresh : V→Prop)

def Edge (a c : V) : Prop := c ∈ children a

abbrev Reach : V → V → Prop := Relation.ReflTransGen (Edge children)

abbrev Reach₁ : V → V → Prop := Relation.TransGen (Edge children)

/-- What is active in the children of a node. -/
def Scope (active : List V) (a : V) (inner : List V) : Prop :=
  (fresh a ∧ inner=[]) ∨ (¬fresh a ∧ inner=a::active)

/-- The traversal of a node ends. -/
inductive Done : List V → V → Prop
  | seen {active : List V} {a : V} : a∈active → Done active a
  | visit {active inner : List V} {a : V} : a ∉ active → Scope fresh active a inner →
      (∀ c ∈ children a, Done inner c) → Done active a

/-- A path from a node to `s` whose nodes are apart from each other and from the active ones. -/
inductive Clear (s : V) : List V → V → Prop
  | here {active : List V} : s ∉ active → Clear s active s
  | step {active : List V} {a c : V} : a ∉ active → c ∈ children a → Clear s (a::active) c →
      Clear s active a

variable {children fresh} {s a : V} {active : List V}

theorem Clear.mono {active':List V} (h:Clear children s active a) (hsub:active' ⊆ active) :
    Clear children s active' a:=by
  induction h generalizing active' with
  | here hs=>exact .here fun hmem=>hs (hsub hmem)
  | @step active a c ha hc _ ih=>
    exact .step (fun hmem=>ha (hsub hmem)) hc (ih (cons_subset_cons a hsub))

theorem Clear.not_mem (h:Clear children s active a) : a ∉ active:=by
  cases h with
  | here hs=>exact hs
  | step ha _ _=>exact ha

theorem Clear.around {b:V} (h:Clear children s active b) (a:V) :
    Clear children s (a::active) b ∨ Clear children s active a:=by
  induction h with
  | @here active hs=>
    by_cases hsa : s=a
    · subst hsa
      exact .inr (.here hs)
    · exact .inl (.here fun hmem=>(mem_cons.mp hmem).elim hsa hs)
  | @step active b c hb hc hrest ih=>
    by_cases hba : b=a
    · subst hba
      exact .inr (.step hb hc hrest)
    · rcases ih with hin | hfrom
      · refine .inl (.step (fun hmem=>(mem_cons.mp hmem).elim hba hb) hc (hin.mono ?_))
        intro x hx
        rcases mem_cons.mp hx with rfl | hx
        · exact mem_cons_of_mem _ mem_cons_self
        · rcases mem_cons.mp hx with rfl | hx
          · exact mem_cons_self
          · exact mem_cons_of_mem _ (mem_cons_of_mem _ hx)
      · exact .inr (hfrom.mono (subset_cons_self b active))

theorem clear_of_reach (h:Reach children a s) : Clear children s [] a:=by
  induction h using Relation.ReflTransGen.head_induction_on with
  | refl=>exact .here not_mem_nil
  | @head a c hc _ ih=>
    rcases ih.around a with haround | hfrom
    · exact .step not_mem_nil hc haround
    · exact hfrom

/-- A node that starts afresh and reaches itself is in the way of the traversal. -/
theorem Done.not_clear (hs:fresh s) (hloop:Reach₁ children s s)
    (h:Done children fresh active a) : ¬Clear children s active a:=by
  induction h with
  | seen ha=>exact fun hclear=>hclear.not_mem ha
  | @visit active inner a _ hscope _ ih=>
    intro hclear
    cases hclear with
    | here _=>
      obtain ⟨c,hc,hrest⟩:=Relation.TransGen.head'_iff.mp hloop
      have hinner : inner=[]:=by
        rcases hscope with ⟨-,hinner⟩ | ⟨hfresh,-⟩
        · exact hinner
        · exact absurd hs hfresh
      exact ih c hc (hinner▸clear_of_reach hrest)
    | @step _ _ c _ hc hrest=>
      rcases hscope with ⟨-,rfl⟩ | ⟨-,rfl⟩
      · exact ih c hc (hrest.mono (nil_subset _))
      · exact ih c hc hrest

open Classical in
noncomputable def targets (nodes : Finset V) (children : V→List V) (fresh : V→Prop) (a : V) :
    Finset V := nodes.filter fun s => fresh s ∧ Reach children a s

variable {nodes : Finset V}

theorem mem_targets :
    s∈targets nodes children fresh a ↔ s∈nodes ∧ fresh s ∧ Reach children a s:=by
  classical
  exact Finset.mem_filter

theorem targets_subset {c:V} (hc:c∈children a) :
    targets nodes children fresh c ⊆ targets nodes children fresh a:=by
  intro s hs
  obtain ⟨hmem,hfresh,hreach⟩:=mem_targets.mp hs
  exact mem_targets.mpr ⟨hmem,hfresh,.head hc hreach⟩

theorem targets_lt {c:V} (ha:a∈nodes) (hfresh:fresh a) (hloop:¬Reach₁ children a a)
    (hc:c∈children a) :
    (targets nodes children fresh c).card<(targets nodes children fresh a).card:=by
  refine Finset.card_lt_card ⟨targets_subset hc,fun hsub=>?_⟩
  obtain ⟨-,-,hback⟩:=mem_targets.mp (hsub (mem_targets.mpr ⟨ha,hfresh,.refl⟩))
  exact hloop (Relation.TransGen.head'_iff.mpr ⟨c,hc,hback⟩)

theorem length_lt (hnodup:active.Nodup) (hactive:∀b∈active,b∈nodes) (ha:a∈nodes) (hmem:a ∉ active) :
    active.length<nodes.card:=by
  classical
  have hcons : (a::active).Nodup:=nodup_cons.mpr ⟨hmem,hnodup⟩
  have hsub : (a::active).toFinset ⊆ nodes:=by
    intro b hb
    rcases mem_cons.mp (List.mem_toFinset.mp hb) with rfl | hb
    · exact ha
    · exact hactive b hb
  have hcard:=Finset.card_le_card hsub
  rwa [toFinset_card_of_nodup hcons] at hcard

theorem done_of_measure (hclosed:∀a∈nodes,∀c∈children a,c∈nodes) :
    ∀(k free:ℕ) {active:List V} {a:V},a∈nodes → active.Nodup → (∀b∈active,b∈nodes) →
      (∀s,Reach children a s → fresh s → ¬Reach₁ children s s) →
      (targets nodes children fresh a).card≤k → nodes.card≤active.length+free →
      Done children fresh active a:=by
  intro k
  induction k using Nat.strong_induction_on with
  | _ k ihk=>
    intro free
    induction free with
    | zero=>
      intro active a ha hnodup hactive _ _ hfree
      by_cases hmem : a∈active
      · exact .seen hmem
      · exact absurd (length_lt hnodup hactive ha hmem) (Nat.not_lt.mpr hfree)
    | succ free ih=>
      intro active a ha hnodup hactive hloop hk hfree
      by_cases hmem : a∈active
      · exact .seen hmem
      by_cases hfresh : fresh a
      · refine .visit hmem (.inl ⟨hfresh,rfl⟩) fun c hc=>ihk _ ?_ nodes.card (hclosed a ha c hc)
          nodup_nil (fun b hb=>absurd hb not_mem_nil)
          (fun s hs=>hloop s (.head hc hs)) (Nat.le_refl _) (Nat.le_add_left _ _)
        exact Nat.lt_of_lt_of_le (targets_lt ha hfresh (hloop a .refl hfresh) hc) hk
      · refine .visit hmem (.inr ⟨hfresh,rfl⟩) fun c hc=>ih (hclosed a ha c hc)
          (nodup_cons.mpr ⟨hmem,hnodup⟩) ?_ (fun s hs=>hloop s (.head hc hs))
          (Nat.le_trans (Finset.card_le_card (targets_subset hc)) hk) ?_
        · exact forall_mem_cons.mpr ⟨ha,hactive⟩
        · rw [length_cons]
          omega

/-- The traversal of a node ends exactly when no node it reaches starts afresh and reaches
itself. -/
theorem done_iff (hclosed:∀a∈nodes,∀c∈children a,c∈nodes) (ha:a∈nodes) : Done children fresh [] a ↔
      ∀s,Reach children a s → fresh s → ¬Reach₁ children s s:=
  ⟨fun h _ hreach hfresh hloop=>h.not_clear hfresh hloop (clear_of_reach hreach),
    fun h=>done_of_measure hclosed _ nodes.card ha nodup_nil
      (fun _ hb=>absurd hb not_mem_nil) h (Nat.le_refl _) (Nat.le_add_left _ _)⟩

end ScopedTraversal
