import Decree.Machine
import Mathlib.Data.List.Count
import Mathlib.Data.List.Perm.Subperm

/-!
# The Compile Goroutines of the Validator Factory

`GetValidators` builds the validators of a tenant field by field, and `newJSONSchemaValidator`
(`internal/validation/json_schema.go`) compiles the schema of a JSON field in a goroutine that
holds a slot of a semaphore of capacity `MaxConcurrentCompiles`. A call waits for its goroutine or
for the timeout; a goroutine that is late keeps running. `WithLimits` makes a semaphore each time
it is applied, and `GetValidators` applies it to each field, so no two compiles share one.

## Main results

* `running_le`: how many compiles are running.
-/

open List

namespace Decree.CompileSlots

/-- Where a call of `GetValidators` is: between two fields, at the semaphore of a field, or waiting
for the goroutine of that field. -/
inductive Phase where
  | building
  | acquiring (sem : ℕ)
  | awaiting (sem : ℕ)
deriving DecidableEq

/-- The calls under way, the number of semaphores made, the slots taken of each, and the running
goroutines, given by the semaphores they hold. -/
structure Slots where
  calls : List Phase := []
  made : ℕ := 0
  taken : ℕ → ℕ := fun _ => 0
  running : List ℕ := []

/-- A call goes on from one phase to another. -/
def Slots.goOn (s : Slots) (p q : Phase) : Slots :=
  { s with calls := q :: s.calls.erase p }

/-- What happens: a call starts, comes to a JSON field, gets a slot, receives the result of its
goroutine, times out or returns; and a goroutine ends. -/
inductive Event where
  | start
  | field
  | acquire (sem : ℕ)
  | finish (sem : ℕ)
  | receive (sem : ℕ)
  | timeout (sem : ℕ)
  | done

/-- **The effect of an event**, with `m` as `MaxConcurrentCompiles`; without a limit there is no
semaphore. -/
def step (m : ℕ) (s : Slots) : Event → Option Slots
  | .start => some { s with calls := .building :: s.calls }
  | .field =>
    -- `WithLimits` makes the semaphore of the field
    if .building ∈ s.calls then
      some { s.goOn .building (.acquiring s.made) with made := s.made + 1 }
    else none
  | .acquire sem =>
    if .acquiring sem ∈ s.calls ∧ (m = 0 ∨ s.taken sem < m) then
      some { s.goOn (.acquiring sem) (.awaiting sem) with
        taken := fun k => if k = sem then s.taken k + 1 else s.taken k
        running := sem :: s.running }
    else none
  | .finish sem =>
    if sem ∈ s.running then
      some { s with
        taken := fun k => if k = sem then s.taken k - 1 else s.taken k
        running := s.running.erase sem }
    else none
  | .receive sem =>
    if .awaiting sem ∈ s.calls ∧ sem ∉ s.running then some (s.goOn (.awaiting sem) .building)
    else none
  | .timeout sem =>
    if .acquiring sem ∈ s.calls then some (s.goOn (.acquiring sem) .building)
    else if .awaiting sem ∈ s.calls then some (s.goOn (.awaiting sem) .building)
    else none
  | .done =>
    if .building ∈ s.calls then some { s with calls := s.calls.erase .building } else none

/-- **The step condition**: a call starts when fewer than `m` are under way, and none times out
while its compile runs. -/
def Within (m : ℕ) (s : Slots) : Event → Prop
  | .start => s.calls.length < m
  | .timeout sem => sem ∉ s.running
  | _ => True

instance (m : ℕ) (s : Slots) (e : Event) : Decidable (Within m s e) :=
  match e with
  | .start => inferInstanceAs (Decidable (s.calls.length < m))
  | .timeout sem => inferInstanceAs (Decidable (sem ∉ s.running))
  | .field | .acquire _ | .finish _ | .receive _ | .done => .isTrue trivial

/-- What the events keep: at most `m` calls, and a call that waits for each goroutine. -/
structure Awaited (m : ℕ) (s : Slots) : Prop where
  calls : s.calls.length ≤ m
  running : ∀ k, s.running.count k ≤ s.calls.count (.awaiting k)

theorem Awaited.goOn {m : ℕ} {s : Slots} {p : Phase} (h : Awaited m s) (q : Phase)
    (hp : p ∈ s.calls) (hfree : ∀ k, p = .awaiting k → k ∉ s.running) :
    Awaited m (s.goOn p q) := by
  refine ⟨?_, fun k => ?_⟩
  · have hpos := length_pos_of_mem hp
    have hcalls := h.calls
    rw [Slots.goOn, length_cons, length_erase_of_mem hp]
    omega
  · by_cases hpk : p = .awaiting k
    · have hzero : s.running.count k = 0 := count_eq_zero.mpr (hfree k hpk)
      exact hzero ▸ Nat.zero_le _
    · have hcount : (s.calls.erase p).count (.awaiting k) = s.calls.count (.awaiting k) :=
        count_erase_of_ne (Ne.symm hpk)
      exact Nat.le_trans (hcount ▸ h.running k) count_le_count_cons

theorem Awaited.step {m : ℕ} {s s' : Slots} {e : Event} (h : Awaited m s) (hok : Within m s e)
    (hs : step m s e = some s') : Awaited m s' := by
  cases e with
  | start =>
    cases hs
    exact ⟨hok, fun k => by simpa using h.running k⟩
  | field =>
    rw [CompileSlots.step] at hs
    split at hs
    · cases hs
      have hnext := h.goOn (.acquiring s.made) ‹_› (by simp)
      exact ⟨hnext.calls, hnext.running⟩
    · cases hs
  | acquire sem =>
    rw [CompileSlots.step] at hs
    split at hs
    · rename_i hmem
      cases hs
      refine ⟨(h.goOn (.awaiting sem) hmem.1 (by simp)).calls, fun k => ?_⟩
      have hk := h.running k
      have hcount : (s.calls.erase (.acquiring sem)).count (.awaiting k) =
          s.calls.count (.awaiting k) := count_erase_of_ne (by simp)
      simp only [Slots.goOn, count_cons, beq_iff_eq, Phase.awaiting.injEq, hcount]
      omega
    · cases hs
  | finish sem =>
    rw [CompileSlots.step] at hs
    split at hs
    · cases hs
      exact ⟨h.calls, fun k => Nat.le_trans (erase_sublist.count_le k) (h.running k)⟩
    · cases hs
  | receive sem =>
    rw [CompileSlots.step] at hs
    split at hs
    · rename_i hmem
      cases hs
      exact h.goOn _ hmem.1 fun k hk => Phase.awaiting.inj hk ▸ hmem.2
    · cases hs
  | timeout sem =>
    rw [CompileSlots.step] at hs
    split at hs
    · cases hs
      exact h.goOn _ ‹_› (by simp)
    · split at hs
      · cases hs
        exact h.goOn _ ‹_› fun k hk => Phase.awaiting.inj hk ▸ hok
      · cases hs
  | done =>
    rw [CompileSlots.step] at hs
    split at hs
    · cases hs
      refine ⟨Nat.le_trans (length_erase_le ..) h.calls, fun k => ?_⟩
      rw [count_erase_of_ne (by simp)]
      exact h.running k
    · cases hs

/-- **At most `m` compiles are running**, those included that outlived their timeout. -/
theorem running_le {m : ℕ} {s : Slots} (hr : Machine.Reach (step m) (Within m) {} s) :
    s.running.length ≤ m := by
  have h : Awaited m s := hr.invariant (Awaited m) ⟨Nat.zero_le m, fun _ => Nat.le_refl 0⟩
    fun s s' e _ hi hok hs => hi.step hok hs
  have hsub : (s.running.map Phase.awaiting).Subperm s.calls := by
    rw [subperm_ext_iff]
    intro p hp
    obtain ⟨k, -, rfl⟩ := mem_map.mp hp
    rw [count_map_of_injective _ _ fun _ _ => Phase.awaiting.inj]
    exact h.running k
  calc s.running.length = (s.running.map Phase.awaiting).length := (length_map _).symm
    _ ≤ s.calls.length := hsub.length_le
    _ ≤ m := h.calls

theorem running_le_two :
    ∃ s, Machine.Reach (step 2) (Within 2) {} s ∧ s.running = [2, 1] ∧ s.running.length ≤ 2 := by
  obtain ⟨s, hr, hrunning⟩ : ∃ s, Machine.Reach (step 2) (Within 2) {} s ∧ s.running = [2, 1] :=
    Machine.exists_reach_of_run [.start, .field, .acquire 0, .start, .field, .acquire 1, .finish 0,
      .receive 0, .field, .acquire 2] (by decide)
  exact ⟨s, hr, hrunning, running_le hr⟩

/-- With a limit of one, two tenants compile at once, and a third compile starts while those of
two fields outlive their timeout. -/
theorem running_beyond_limit :
    (∃ s, Machine.Reach (step 1) Machine.anyStep {} s ∧ s.running = [1, 0]) ∧
      ∃ s, Machine.Reach (step 1) Machine.anyStep {} s ∧ s.calls.length = 1 ∧
        s.running = [2, 1, 0] := by
  constructor
  · exact Machine.exists_reach_of_run [.start, .start, .field, .field, .acquire 0, .acquire 1]
      (by decide)
  · exact Machine.exists_reach_of_run [.start, .field, .acquire 0, .timeout 0, .field, .acquire 1,
      .timeout 1, .field, .acquire 2] (by decide)

end Decree.CompileSlots
