import Mathlib.Data.List.Forall2
import Mathlib.Data.List.MinMax
import Mathlib.Data.Int.Order.Basic
import Mathlib.Tactic.Linarith

/-!
# Logs of Numbered Deltas

A library for delta storage: a log is a list of entries, each with an integer number and a finite
partial map from the keys it changes to rows. The **resolved row** of a key at number `v` is the
row of the greatest-numbered entry up to `v` that has one (`rowAt`), which is what
`ORDER BY number DESC LIMIT 1` selects.

## Main results

* `rowAt_eq_or`: what an entry changes.
* `rowAt_append_of_lt`: what later entries do not.
-/

open List

namespace DeltaLog

/-- The order of the integers, found in one way wherever the module is used. -/
local instance numberOrder : Preorder ℤ :=
  Int.instLinearOrder.toPreorder

variable {ε κ ρ : Type} (num : ε → ℤ) (find : ε → κ → Option ρ)

/-- The entries up to `v` that have a row for the key. -/
def candidates (L : List ε) (v : ℤ) (k : κ) : List ε :=
  L.filter fun e => decide (num e ≤ v) && (find e k).isSome

/-- The **resolved row** of a key at a number. -/
def rowAt (L : List ε) (v : ℤ) (k : κ) : Option ρ :=
  ((candidates num find L v k).argmax num).bind fun e => find e k

/-- No two entries have one number. -/
def Numbered (L : List ε) : Prop :=
  ∀ e ∈ L, ∀ e' ∈ L, num e = num e' → e = e'

variable {num find} {L : List ε} {v : ℤ} {k : κ} {r : ρ} {e : ε} {M : List ε}

theorem mem_candidates :
    e ∈ candidates num find L v k ↔ e ∈ L ∧ num e ≤ v ∧ (find e k).isSome = true := by
  simp [candidates]

/-- Nothing is resolved exactly when no entry up to the number has the key. -/
theorem rowAt_eq_none : rowAt num find L v k = none ↔ ∀ e ∈ L, num e ≤ v → find e k = none := by
  constructor
  · intro h e he hle
    by_contra hne
    have hmem : e ∈ candidates num find L v k :=
      mem_candidates.mpr ⟨he, hle, Option.isSome_iff_ne_none.mpr hne⟩
    obtain ⟨m, hm⟩ : ∃ m, (candidates num find L v k).argmax num = some m := by
      rw [← Option.ne_none_iff_exists', Ne, argmax_eq_none]
      exact ne_nil_of_mem hmem
    have hsome := (mem_candidates.mp (argmax_mem hm)).2.2
    rw [rowAt, hm, Option.bind_some] at h
    rw [h] at hsome
    cases hsome
  · intro h
    have hnil : candidates num find L v k = [] := by
      rw [eq_nil_iff_forall_not_mem]
      intro e he
      obtain ⟨hmem, hle, hsome⟩ := mem_candidates.mp he
      rw [h e hmem hle] at hsome
      cases hsome
    rw [rowAt, hnil, argmax_nil]
    rfl

/-- What is resolved is the row of the entry with the greatest number up to `v` that has
the key. -/
theorem rowAt_eq_some (hL : Numbered num L) : rowAt num find L v k = some r ↔
      ∃ e ∈ L, num e ≤ v ∧ find e k = some r ∧
        ∀ e' ∈ L, num e' ≤ v → (find e' k).isSome = true → num e' ≤ num e := by
  constructor
  · intro h
    obtain ⟨e, he, hr⟩ := Option.bind_eq_some_iff.mp h
    obtain ⟨hmem, hle, -⟩ := mem_candidates.mp (argmax_mem he)
    refine ⟨e, hmem, hle, hr, fun e' he' hle' hs => ?_⟩
    exact le_of_mem_argmax (mem_candidates.mpr ⟨he', hle', hs⟩) he
  · rintro ⟨e, hmem, hle, hr, hmax⟩
    have hcand : e ∈ candidates num find L v k := mem_candidates.mpr ⟨hmem, hle, by rw [hr]; rfl⟩
    obtain ⟨m, hm⟩ : ∃ m, (candidates num find L v k).argmax num = some m := by
      rw [← Option.ne_none_iff_exists', Ne, argmax_eq_none]
      exact ne_nil_of_mem hcand
    obtain ⟨hmm, hmle, hms⟩ := mem_candidates.mp (argmax_mem hm)
    have hnum : num e = num m := le_antisymm (le_of_mem_argmax hcand hm) (hmax m hmm hmle hms)
    obtain rfl := hL e hmem m hmm hnum
    rw [rowAt, hm, Option.bind_some, hr]

theorem exists_of_rowAt_eq_some (h : rowAt num find L v k = some r) :
    ∃ e ∈ L, num e ≤ v ∧ find e k = some r := by
  obtain ⟨e, he, hr⟩ := Option.bind_eq_some_iff.mp h
  obtain ⟨hmem, hle, -⟩ := mem_candidates.mp (argmax_mem he)
  exact ⟨e, hmem, hle, hr⟩

/-- **The step lemma**: at an entry's own number the entry's row is resolved, and a key it
does not have is resolved as just below it. -/
theorem rowAt_eq_or (hL : Numbered num L) (he : e ∈ L) (k : κ) :
    rowAt num find L (num e) k = (find e k).or (rowAt num find L (num e - 1) k) := by
  cases hr : find e k with
  | some r =>
    rw [Option.some_or]
    exact (rowAt_eq_some hL).mpr ⟨e, he, le_refl _, hr, fun e' _ hle' _ => hle'⟩
  | none =>
    rw [Option.none_or]
    have hcand : candidates num find L (num e) k = candidates num find L (num e - 1) k := by
      refine filter_congr fun e' he' => ?_
      by_cases heq : num e' = num e
      · obtain rfl := hL e' he' e he heq
        simp [hr]
      · have hiff : num e' ≤ num e ↔ num e' ≤ num e - 1 := by omega
        simp only [hiff]
    rw [rowAt, hcand, rowAt]

theorem rowAt_append_of_candidates (hM : candidates num find M v k = []) :
    rowAt num find (L ++ M) v k = rowAt num find L v k := by
  have hcand : candidates num find (L ++ M) v k = candidates num find L v k := by
    rw [candidates, filter_append]
    exact (congrArg (candidates num find L v k ++ ·) hM).trans (append_nil _)
  rw [rowAt, hcand, rowAt]

/-- **Stability**: entries numbered above `v` do not change what is resolved at `v`. -/
theorem rowAt_append_of_lt (hM : ∀ e ∈ M, v < num e) (k : κ) :
    rowAt num find (L ++ M) v k = rowAt num find L v k := by
  refine rowAt_append_of_candidates (filter_eq_nil_iff.mpr fun e he => ?_)
  have := hM e he
  simp only [Bool.and_eq_true, decide_eq_true_eq, not_and]
  omega

theorem rowAt_append_of_absent (hM : ∀ e ∈ M, find e k = none) (v : ℤ) :
    rowAt num find (L ++ M) v k = rowAt num find L v k := by
  refine rowAt_append_of_candidates (filter_eq_nil_iff.mpr fun e he => ?_)
  simp [hM e he]

/-- From the greatest number on, the resolved row stays the same. -/
theorem rowAt_of_le {w : ℤ} (hv : ∀ e ∈ L, num e ≤ v) (hw : ∀ e ∈ L, num e ≤ w) (k : κ) :
    rowAt num find L v k = rowAt num find L w k := by
  have hcand : candidates num find L v k = candidates num find L w k :=
    filter_congr fun e he => by simp [hv e he, hw e he]
  rw [rowAt, hcand, rowAt]

/-- An entry numbered below all others changes nothing for a key that is resolved without
it. -/
theorem rowAt_append_of_covered (hL : Numbered num (L ++ [e])) (hleast : ∀ e' ∈ L, num e ≤ num e')
    (hcov : (find e k).isSome = true → (rowAt num find L v k).isSome = true) :
    rowAt num find (L ++ [e]) v k = rowAt num find L v k := by
  have hL' : Numbered num L := fun e1 h1 e2 h2 =>
    hL e1 (mem_append_left _ h1) e2 (mem_append_left _ h2)
  cases hrow : rowAt num find L v k with
  | none =>
    rw [hrow] at hcov
    refine rowAt_eq_none.mpr fun e' he' hle => ?_
    rcases mem_append.mp he' with he' | he'
    · exact rowAt_eq_none.mp hrow e' he' hle
    · obtain rfl := mem_singleton.mp he'
      cases hf : find e' k with
      | none => rfl
      | some r => cases (hcov (by rw [hf]; rfl))
  | some r =>
    obtain ⟨e', he', hle, hr, hmax⟩ := (rowAt_eq_some hL').mp hrow
    refine (rowAt_eq_some hL).mpr ⟨e', mem_append_left _ he', hle, hr, ?_⟩
    intro e'' he'' hle'' hs
    rcases mem_append.mp he'' with he'' | he''
    · exact hmax e'' he'' hle'' hs
    · obtain rfl := mem_singleton.mp he''
      exact hleast e' he'

/-- A key that is resolved stays resolved at greater numbers. -/
theorem rowAt_isSome_mono {w : ℤ} (hvw : v ≤ w) (h : (rowAt num find L v k).isSome = true) :
    (rowAt num find L w k).isSome = true := by
  rw [Option.isSome_iff_ne_none] at h ⊢
  intro hw
  refine h (rowAt_eq_none.mpr fun e he hle => ?_)
  exact rowAt_eq_none.mp hw e he (hle.trans hvw)

end DeltaLog
