import Decree.Machine
import Mathlib.Data.Int.Notation

/-!
# The Index of the Redis Cache

`RedisCache` (`internal/cache/redis.go`) keeps the keys of a tenant in an index set, so that
`Invalidate` finds them. `Set` writes its key and the index in one transaction. `SetNegative`
writes them one after the other, and `Invalidate` reads the index and then deletes what it has
read, together with the index. A key that is written in between loses its place in the index.

Calls on one tenant are interleaved command by command; a transaction is one command.

## Main results

* `indexed_of_idle`: every key is in the index.
* `key_left_behind`: a key that is not.
-/

open List

namespace Decree.RedisIndex

/-- The keys of a tenant: `key` and `negKey`. -/
inductive Key where
  | version (v : ℤ)
  | negative (v : ℤ)
deriving DecidableEq

/-- The keys of the tenant that exist, the members of its index, and the calls that are under way:
`SetNegative` that has yet to index its key, and `Invalidate` with the members that it has read. -/
structure Redis where
  keys : List Key := []
  index : List Key := []
  indexing : List Key := []
  deleting : List (List Key) := []
deriving DecidableEq

/-- The commands: the transaction of `Set`, the two commands of `SetNegative` and those of
`Invalidate`, and a key that expires. -/
inductive Command where
  | set (v : ℤ)
  | setNegative (v : ℤ)
  | indexNegative (v : ℤ)
  | smembers
  | del (members : List Key)
  | expire (k : Key)
deriving DecidableEq

/-- **The effect of a command.** An `Invalidate` that reads an empty index returns at once. -/
def step (s : Redis) : Command → Option Redis
  | .set v => some { s with
      keys := s.keys.insert (.version v), index := s.index.insert (.version v) }
  | .setNegative v => some { s with
      keys := s.keys.insert (.negative v), indexing := .negative v :: s.indexing }
  | .indexNegative v =>
    if .negative v ∈ s.indexing then
      some { s with
        index := s.index.insert (.negative v), indexing := s.indexing.erase (.negative v) }
    else none
  | .smembers => some (if s.index = [] then s else { s with deleting := s.index :: s.deleting })
  | .del members =>
    if members ∈ s.deleting then
      some { s with
        keys := s.keys.filter (· ∉ members), index := [], deleting := s.deleting.erase members }
    else none
  | .expire k => some { s with keys := s.keys.filter (· ≠ k) }

/-- What an `Invalidate` without concurrent calls leaves. -/
def invalidate (s : Redis) : List Key :=
  s.keys.filter (· ∉ s.index)

/-- **The step condition**: what an `Invalidate` deletes includes the whole index. -/
def Undisturbed (s : Redis) (c : Command) : Prop :=
  match c with
  | .del members => ∀ k ∈ s.index, k ∈ members
  | _ => True

instance (s : Redis) (c : Command) : Decidable (Undisturbed s c) :=
  match c with
  | .del members => inferInstanceAs (Decidable (∀ k ∈ s.index, k ∈ members))
  | .set _ | .setNegative _ | .indexNegative _ | .smembers | .expire _ => .isTrue trivial

/-- A key is in the index, or the call that wrote it has yet to put it there. -/
def Indexed (s : Redis) : Prop :=
  ∀ k ∈ s.keys, k ∈ s.index ∨ k ∈ s.indexing

theorem Indexed.step {s s' : Redis} {c : Command} (h : Indexed s) (hok : Undisturbed s c)
    (hs : step s c = some s') : Indexed s' := by
  cases c with
  | set v =>
    cases hs
    intro k hk
    rcases mem_insert_iff.mp hk with rfl | hk
    · exact .inl (mem_insert_self ..)
    · exact (h k hk).imp_left (mem_insert_of_mem ·)
  | setNegative v =>
    cases hs
    intro k hk
    rcases mem_insert_iff.mp hk with rfl | hk
    · exact .inr mem_cons_self
    · exact (h k hk).imp_right (mem_cons_of_mem _)
  | indexNegative v =>
    rw [RedisIndex.step] at hs
    split at hs
    · cases hs
      intro k hk
      by_cases hv : k = .negative v
      · exact .inl (hv ▸ mem_insert_self ..)
      · exact (h k hk).imp (mem_insert_of_mem ·) (mem_erase_of_ne hv).mpr
    · cases hs
  | smembers =>
    cases hs
    split
    · exact h
    · exact h
  | del members =>
    rw [RedisIndex.step] at hs
    split at hs
    · cases hs
      intro k hk
      obtain ⟨hk, hnot⟩ := mem_filter.mp hk
      have hindex : k ∉ s.index := fun hi => of_decide_eq_true hnot (hok k hi)
      exact .inr ((h k hk).resolve_left hindex)
    · cases hs
  | expire k' =>
    cases hs
    exact fun k hk => h k (mem_of_mem_filter hk)

/-- In every run without disturbance the keys are in the index, or will be. -/
theorem indexed_of_reach {s : Redis} (hr : Machine.Reach step Undisturbed {} s) : Indexed s :=
  hr.invariant Indexed (fun _ hk => absurd hk not_mem_nil) fun _ _ _ _ hi hok hs => hi.step hok hs

/-- **When no call is under way** that has yet to index its key, every key is in the index, and an
`Invalidate` leaves none. -/
theorem indexed_of_idle {s : Redis} (hr : Machine.Reach step Undisturbed {} s)
    (hidle : s.indexing = []) :
    (∀ k ∈ s.keys, k ∈ s.index) ∧ invalidate s = [] := by
  have hall : ∀ k ∈ s.keys, k ∈ s.index := fun k hk =>
    (indexed_of_reach hr k hk).resolve_right (by simp [hidle])
  exact ⟨hall, filter_eq_nil_iff.mpr fun k hk => by simpa using hall k hk⟩

theorem indexed_of_idle_refilled :
    ∃ s, Machine.Reach step Undisturbed {} s ∧ s.keys = [.version 2] ∧ invalidate s = [] := by
  obtain ⟨s, hr, hkeys, hidle⟩ : ∃ s, Machine.Reach step Undisturbed {} s ∧
      s.keys = [.version 2] ∧ s.indexing = [] :=
    Machine.exists_reach_of_run
      [.set 1, .smembers, .setNegative 1, .del [.version 1], .indexNegative 1, .set 2,
        .expire (.negative 1)] (by decide)
  exact ⟨s, hr, hkeys, (indexed_of_idle hr hidle).2⟩

/-- The key of a `Set` between the two commands of an `Invalidate` stays behind. -/
theorem key_left_behind :
    ∃ s, Machine.Reach step Machine.anyStep {} s ∧ s.indexing = [] ∧ s.deleting = [] ∧
      s.keys = [.version 2] ∧ s.index = [] ∧ invalidate s = [.version 2] :=
  Machine.exists_reach_of_run [.set 1, .smembers, .set 2, .del [.version 1]] (by decide)

end Decree.RedisIndex
