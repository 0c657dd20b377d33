import Mathlib.Data.Nat.Notation

/-!
# Runs, followed forwards and searched backwards

A run is a list of steps, the last one first, each with the state it starts in. A fold over the
steps follows it; a bounded search from the end asks which steps made the last state what it is.
-/

namespace AutoRefirst.BackwardScan

variable {ι σ μ α : Type}

/-- Every step of the run leads to the state the next one starts in. -/
def Reaches (R : ι→μ→μ→Prop) : List (ι×μ) → μ → Prop
  | [], _ => True
  | x::before, m => R x.1 x.2 m ∧ Reaches R before x.2

/-- The condition is met at every step, with what was computed before it. -/
def Throughout (f : ι→σ→σ) (s : σ) (ok : ι→μ→σ→Prop) : List (ι×μ) → Prop
  | [] => True
  | x::before =>
    ok x.1 x.2 ((before.map Prod.fst).foldr f s) ∧ Throughout f s ok before

theorem Reaches.fold_keeps {R:ι→μ→μ→Prop} {f:ι→σ→σ} {s:σ} {ok:ι→μ→σ→Prop}
    {inv:σ→μ→Prop} (hstart:∀m,inv s m)
    (hstep:∀x m m' b,R x m m' → ok x m b → inv b m → inv (f x b) m')
    {run:List (ι×μ)} {m:μ} (hrun:Reaches R run m) (hok:Throughout f s ok run) :
    inv ((run.map Prod.fst).foldr f s) m:=by
  induction run generalizing m with
  | nil=>exact hstart m
  | cons x before ih=>exact hstep x.1 x.2 m _ hrun.1 hok.1 (ih hrun.2 hok.2)

inductive ScanStep (σ α : Type) where
  | go (s : σ)
  | stop (result : Option α)

/-- At most so many steps are looked at. -/
def scanBack (step : ι→σ→ScanStep σ α) : ℕ → List ι → σ → Option α
  | 0, _, _ => none
  | _+1, [], _ => none
  | budget+1, x::before, s =>
    match step x s with
    | .go s' => scanBack step budget before s'
    | .stop result => result

/-- The condition is met at every step that the search looks at and that does not end it without
a result. -/
def Along (step : ι→σ→ScanStep σ α) (ok : ι→μ→σ→Prop) : List (ι×μ) → σ → Prop
  | [], _ => True
  | x::before, s =>
    (step x.1 s ≠ .stop none → ok x.1 x.2 s) ∧
      ∀ s', step x.1 s = .go s' → Along step ok before s'

/-- What a state of the search means for a state of the run: a step that is passed keeps the
meaning, and one that ends the search has it. -/
structure Explains (R : ι→μ→μ→Prop) (step : ι→σ→ScanStep σ α) (ok : ι→μ→σ→Prop)
    (means : σ→μ→α→Prop) : Prop where
  go : ∀ {x m m' s s' a}, R x m m' → ok x m s → step x s = .go s' → means s' m a → means s m' a
  stop : ∀ {x m m' s a}, R x m m' → ok x m s → step x s = .stop (some a) → means s m' a

theorem Explains.scanBack {R:ι→μ→μ→Prop} {step:ι→σ→ScanStep σ α}
    {ok:ι→μ→σ→Prop} {means:σ→μ→α→Prop} (h:Explains R step ok means)
    {run:List (ι×μ)} {m:μ} {s:σ} {budget:ℕ} {a:α} (hrun:Reaches R run m)
    (hok:Along step ok run s) (hscan:scanBack step budget (run.map Prod.fst) s=some a) :
    means s m a:=by
  induction run generalizing m s budget with
  | nil=>cases budget <;> cases hscan
  | cons x before ih=>
    cases budget with
    | zero=>cases hscan
    | succ budget=>
      rw [List.map_cons,BackwardScan.scanBack] at hscan
      split at hscan
      · rename_i s' hgo
        have hmet:=hok.1 (by rw [hgo];simp)
        exact h.go hrun.1 hmet hgo (ih hrun.2 (hok.2 s' hgo) hscan)
      · rename_i result hstop
        subst hscan
        have hmet:=hok.1 (by rw [hstop];simp)
        exact h.stop hrun.1 hmet hstop

end AutoRefirst.BackwardScan
