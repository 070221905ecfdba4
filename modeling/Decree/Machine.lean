import Mathlib.Data.List.Basic

/-!
# Step Machines

A library for state machines given by a partial step function: from a state, a label leads to
at most one state. `Reach` is the closure of the step function under every sequence of labels,
restricted to the steps an `allowed` predicate admits, so that a property of "every run whose
steps meet a condition" is a property of `Reach` under that condition.

## Main results

* `Reach.invariant`: the invariant rule.
-/

namespace Machine

variable {σ ι : Type} (step : σ → ι → Option σ)

/-- Reachability through steps that `allowed` admits. -/
inductive Reach (allowed : σ → ι → Prop) (s₀ : σ) : σ → Prop
  | refl : Reach allowed s₀ s₀
  | tail {s s' : σ} {i : ι} :
      Reach allowed s₀ s → allowed s i → step s i = some s' → Reach allowed s₀ s'

/-- Every step is admitted. -/
def anyStep : σ → ι → Prop :=
  fun _ _ => True

instance (s : σ) (i : ι) : Decidable (anyStep s i) :=
  .isTrue trivial

/-- A sequence of labels, evaluated; each step has to be admitted. -/
def run (allowed : σ → ι → Prop) [∀ s i, Decidable (allowed s i)] (s : σ) :
    List ι → Option σ
  | [] => some s
  | i :: is =>
    if allowed s i then
      match step s i with
      | none => none
      | some s' => run allowed s' is
    else none

variable {step} {allowed : σ → ι → Prop} {s₀ s : σ}

/-- **The invariant rule**. -/
theorem Reach.invariant (P : σ → Prop) (h : Reach step allowed s₀ s) (h0 : P s₀)
    (hstep : ∀ (s s' : σ) (i : ι), Reach step allowed s₀ s → P s → allowed s i →
      step s i = some s' → P s') : P s := by
  induction h with
  | refl => exact h0
  | tail hr ha hs ih => exact hstep _ _ _ hr ih ha hs

theorem Reach.trans {s1 s2 : σ} (h1 : Reach step allowed s₀ s1)
    (h2 : Reach step allowed s1 s2) : Reach step allowed s₀ s2 := by
  induction h2 with
  | refl => exact h1
  | tail _ ha hs ih => exact ih.tail ha hs

theorem run_reach [∀ s i, Decidable (allowed s i)] {is : List ι} {s' : σ}
    (h : run step allowed s is = some s') : Reach step allowed s s' := by
  induction is generalizing s with
  | nil =>
    cases h
    exact .refl
  | cons i is ih =>
    simp only [run] at h
    split at h
    · rename_i ha
      cases hs : step s i with
      | none =>
        rw [hs] at h
        cases h
      | some s1 =>
        rw [hs] at h
        exact (Reach.refl.tail ha hs).trans (ih h)
    · cases h

/-- A sequence of labels whose outcome passes a test reaches a state that does. -/
theorem exists_reach_of_run [∀ s i, Decidable (allowed s i)] (is : List ι) {P : σ → Prop}
    [DecidablePred P]
    (h : (run step allowed s is).any (fun s' => decide (P s')) = true) :
    ∃ s', Reach step allowed s s' ∧ P s' := by
  cases hs : run step allowed s is with
  | none =>
    rw [hs] at h
    cases h
  | some s' =>
    rw [hs, Option.any_some, decide_eq_true_eq] at h
    exact ⟨s', run_reach hs, h⟩

end Machine
