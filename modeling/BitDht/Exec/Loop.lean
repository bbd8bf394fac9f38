import Mathlib.Tactic.Common

/-!
# Loop — loops that need not end

A loop is the step that one pass through its body makes, with no step where its condition fails.  It
runs on a budget of passes.  `run_of_measure` is the rule for a loop that ends, with the invariant
that its body keeps; `run_of_forever` is the rule for one that does not.
-/

namespace Loop

universe u v

variable {ε : Type u} {σ : Type v}

/-- The state after the loop, or the error `stuck` after `n` tests of the condition. -/
def run (stuck : ε) (step : σ → Option σ) : Nat → σ → Except ε σ
  | 0, _ => .error stuck
  | n + 1, s =>
      match step s with
      | none => .ok s
      | some s' => run stuck step n s'

variable {stuck : ε} {step : σ → Option σ} {Inv : σ → Prop}

theorem run_of_none {s : σ} (h : step s = none) (n : Nat) : run stuck step (n + 1) s = .ok s := by
  rw [run, h]

theorem run_of_some {s s' : σ} (h : step s = some s') (n : Nat) :
    run stuck step (n + 1) s = run stuck step n s' := by
  rw [run, h]

/-- A loop ends within its budget if each pass lowers a measure that is below the budget.  What each
pass preserves holds afterwards, when the condition fails. -/
theorem run_of_measure (μ : σ → Nat)
    (hstep : ∀ {s s'}, Inv s → step s = some s' → Inv s' ∧ μ s' < μ s) {n : Nat} {s : σ}
    (hs : Inv s) (hn : μ s < n) :
    ∃ s', run stuck step n s = .ok s' ∧ Inv s' ∧ step s' = none := by
  induction n generalizing s with
  | zero =>
      exact absurd hn (Nat.not_lt_zero _)
  | succ n ih =>
      cases hnext : step s with
      | none =>
          exact ⟨s, run_of_none hnext n, hs, hnext⟩
      | some s₁ =>
          rcases hstep hs hnext with ⟨hs₁, hlt⟩
          rw [run_of_some hnext]
          exact ih hs₁ (Nat.lt_of_lt_of_le hlt (Nat.le_of_lt_succ hn))

/-- A loop whose condition holds in every state that the invariant admits never ends. -/
theorem run_of_forever (hstep : ∀ {s}, Inv s → ∃ s', step s = some s' ∧ Inv s') {s : σ}
    (hs : Inv s) (n : Nat) : run stuck step n s = .error stuck := by
  induction n generalizing s with
  | zero =>
      rfl
  | succ n ih =>
      rcases hstep hs with ⟨s₁, hnext, hs₁⟩
      rw [run_of_some hnext]
      exact ih hs₁

end Loop
