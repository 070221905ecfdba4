import Decree.Machine

/-!
# The In-Process Rate Limiter

`InProcessLimiter` (`internal/ratelimit/limiter.go`) keeps a token bucket for each key, and drops
the least recently used one when there are too many. A key that was dropped goes to a quarantine
log of the same size, and comes back with an empty bucket while it is there. A key that is dropped
again keeps its old place in the log, and so may leave it soon after.

Time stands still here: a bucket loses a token with every call, and gets none back.

## Main results

* `evicted_denied`: a key that comes back is denied.
-/

open List

namespace Decree.RateLimit

/-- **`InProcessLimiter`**: the keys with their tokens, the most recently used first, and the
quarantine log, the newest first. `evictions` is not in the source: all keys that were dropped,
the last one first. -/
structure Limiter where
  buckets : List (String × ℕ) := []
  quarantined : List String := []
  evictions : List String := []
deriving DecidableEq

variable (burst maxBuckets : ℕ)

def quarantine (log : List String) (key : String) : List String :=
  if key ∈ log then log
  else if maxBuckets < (key :: log).length then (key :: log).dropLast
  else key :: log

/-- The key that a call drops: the last one, if a bucket is made and there are too many then. -/
def evicted (l : Limiter) (key : String) : Option String :=
  if (l.buckets.lookup key).isSome ∨ l.buckets.length + 1 ≤ maxBuckets then none
  else some ((l.buckets.map Prod.fst).getLastD key)

/-- The tokens of the bucket that a call uses. -/
def tokens (l : Limiter) (key : String) : ℕ :=
  (l.buckets.lookup key).getD (if key ∈ l.quarantined then 0 else burst)

def allow (l : Limiter) (key : String) : Bool × Limiter :=
  let buckets := (key, tokens burst l key - 1) :: l.buckets.filter fun b => b.1 ≠ key
  (tokens burst l key ≠ 0,
    match evicted maxBuckets l key with
    | none => { l with buckets := buckets }
    | some old =>
      { buckets := buckets.dropLast
        quarantined := quarantine maxBuckets l.quarantined old
        evictions := old :: l.evictions })

def step (l : Limiter) (key : String) : Option Limiter :=
  some (allow burst maxBuckets l key).2

/-- **The step condition**: the call drops no key that is in the log. -/
def Unlogged (l : Limiter) (key : String) : Prop :=
  ∀ old ∈ evicted maxBuckets l key, old ∉ l.quarantined

instance (l : Limiter) (key : String) : Decidable (Unlogged maxBuckets l key) :=
  inferInstanceAs (Decidable (∀ old ∈ evicted maxBuckets l key, _))

variable {burst maxBuckets}

theorem quarantine_take {evictions : List String} {old : String}
    (h : old ∉ evictions.take maxBuckets) :
    quarantine maxBuckets (evictions.take maxBuckets) old = (old :: evictions).take maxBuckets := by
  rw [quarantine, if_neg h]
  split
  · rename_i hfull
    rw [length_cons, length_take] at hfull
    have hlen : min maxBuckets evictions.length = maxBuckets := by omega
    rw [dropLast_eq_take, length_cons, length_take, hlen, Nat.add_sub_cancel]
    cases maxBuckets with
    | zero => rfl
    | succ n => simp [take_take]
  · rename_i hroom
    rw [length_cons, length_take] at hroom
    rw [take_of_length_le (by omega), take_of_length_le (by simp; omega)]

/-- **The log holds the keys that were dropped last.** -/
theorem quarantined_eq_take {l : Limiter}
    (hr : Machine.Reach (step burst maxBuckets) (Unlogged maxBuckets) {} l) :
    l.quarantined = l.evictions.take maxBuckets := by
  refine hr.invariant (fun l => l.quarantined = l.evictions.take maxBuckets) (by simp) ?_
  intro l l' key _ hlog hok hstep
  cases hstep
  rw [allow]
  cases hev : evicted maxBuckets l key with
  | none => exact hlog
  | some old =>
    have hold : old ∉ l.quarantined := hok old hev
    rw [hlog] at hold
    simp only [hlog, quarantine_take hold]

/-- **A key that comes back is denied**, if its bucket was dropped and fewer others than there may
be buckets were dropped since. -/
theorem evicted_denied {l : Limiter}
    (hr : Machine.Reach (step burst maxBuckets) (Unlogged maxBuckets) {} l) {key : String}
    (hout : key ∉ l.buckets.map Prod.fst) (hev : key ∈ l.evictions)
    (hrecent : (l.evictions.takeWhile (· ≠ key)).length < maxBuckets) :
    (allow burst maxBuckets l key).1 = false := by
  obtain ⟨since, before, hsplit, hsince⟩ := eq_append_cons_of_mem hev
  have hwhile : l.evictions.takeWhile (· ≠ key) = since := by
    have hne : ∀ k ∈ since, decide (k ≠ key) = true := fun k hk =>
      decide_eq_true fun h => hsince (h ▸ hk)
    rw [hsplit, takeWhile_append_of_pos hne]
    simp
  have hlog : key ∈ l.quarantined := by
    rw [hwhile] at hrecent
    obtain ⟨n, hn⟩ : ∃ n, maxBuckets - since.length = n + 1 :=
      ⟨maxBuckets - since.length - 1, by omega⟩
    rw [quarantined_eq_take hr, hsplit, take_append, hn, take_succ_cons]
    simp
  have hnone : l.buckets.lookup key = none := by
    rw [lookup_eq_none_iff]
    intro b hb
    have hne : key ≠ b.1 := fun h => hout (h ▸ mem_map_of_mem hb)
    simpa using hne
  simp [allow, tokens, hnone, hlog]

/-- Two keys share one bucket: the one that is dropped is denied. -/
theorem evicted_denied_once :
    ∃ l, Machine.Reach (step 1 1) (Unlogged 1) {} l ∧ (allow 1 1 l "a").1 = false := by
  obtain ⟨l, hr, hout, hev, hrecent⟩ : ∃ l, Machine.Reach (step 1 1) (Unlogged 1) {} l ∧
      "a" ∉ l.buckets.map Prod.fst ∧ "a" ∈ l.evictions ∧
        (l.evictions.takeWhile (· ≠ "a")).length < 1 :=
    Machine.exists_reach_of_run ["a", "b"] (by decide)
  exact ⟨l, hr, evicted_denied hr hout hev hrecent⟩

/-- The key `a` is dropped twice and keeps its place in the log; after one more key was dropped it
comes back with a full bucket. -/
theorem evicted_allowed :
    ∃ l, Machine.Reach (step 1 2) Machine.anyStep {} l ∧ "a" ∉ l.buckets.map Prod.fst ∧
      "a" ∈ l.evictions ∧ (l.evictions.takeWhile (· ≠ "a")).length < 2 ∧
      (allow 1 2 l "a").1 = true :=
  Machine.exists_reach_of_run ["a", "b", "c", "a", "c", "d", "e"] (by decide)

end Decree.RateLimit
