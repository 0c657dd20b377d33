import Mathlib.Order.WellFounded
import Mathlib.Algebra.Order.Ring.Nat

/-!
# Deterministic step machines

A loop is a partial step function, and a state without a step is final. The rules
here are the ones every loop uses: an invariant of one step is an invariant of every
run, also of the runs whose steps all meet a condition, and a loop with a decreasing
measure reaches a final state.
-/

namespace AutoRefirst.StepMachine

variable {σ : Type*} (step : σ→Option σ)

def RunsWhile (cond : σ→Prop) : σ → σ → Prop :=
  Relation.ReflTransGen fun s t => cond s ∧ step s = some t

/-- All runs. -/
def Reachable : σ → σ → Prop := Relation.ReflTransGen fun s t => step s = some t

/-- The state after at most `n` steps. -/
def iterate : ℕ → σ → σ
  | 0, s => s
  | n+1, s => match step s with
    | none => s
    | some t => iterate n t

variable {step} {cond : σ→Prop} {s t : σ}

theorem RunsWhile.invariant (h:RunsWhile step cond s t) (Inv:σ→Prop) (hinit:Inv s)
    (hstep:∀a b,cond a → Inv a → step a=some b → Inv b) : Inv t:=by
  induction h with
  | refl=>exact hinit
  | tail _ hab ih=>exact hstep _ _ hab.1 ih hab.2

theorem Reachable.invariant (h:Reachable step s t) (Inv:σ→Prop) (hinit:Inv s)
    (hstep:∀a b,Inv a → step a=some b → Inv b) : Inv t:=by
  induction h with
  | refl=>exact hinit
  | tail _ hab ih=>exact hstep _ _ ih hab

theorem reachable_iterate (n:ℕ) (s:σ) : Reachable step s (iterate step n s):=by
  induction n generalizing s with
  | zero=>exact Relation.ReflTransGen.refl
  | succ n ih=>
    rw [iterate]
    cases hs : step s with
    | none=>exact Relation.ReflTransGen.refl
    | some t=>exact Relation.ReflTransGen.head hs (ih t)

/-- A loop whose invariant makes a measure decrease ends. -/
theorem halts_of_measure {α:Type*} {r:α→α→Prop} (hr:WellFounded r) (μ:σ→α)
    {Inv:σ→Prop} (hinv:∀a b,Inv a → step a=some b → Inv b)
    (hdec:∀a b,Inv a → step a=some b → r (μ b) (μ a)) (hs:Inv s) :
    ∃t,Reachable step s t ∧ step t=none:=by
  induction hμ : μ s using hr.induction generalizing s with
  | h m ih=>
    cases hstep : step s with
    | none=>exact ⟨s,Relation.ReflTransGen.refl,hstep⟩
    | some t=>
      obtain ⟨u,hu,hfinal⟩:=ih (μ t) (hμ▸hdec s t hs hstep) (hinv s t hs hstep) rfl
      exact ⟨u,Relation.ReflTransGen.head hstep hu,hfinal⟩

end AutoRefirst.StepMachine
