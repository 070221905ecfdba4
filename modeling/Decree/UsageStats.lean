import Decree.Machine
import Mathlib.Algebra.BigOperators.Group.List.Basic
import Mathlib.Algebra.GroupWithZero.Nat
import Mathlib.Data.List.MinMax

/-!
# Usage Statistics

A `UsageRecorder` (`internal/audit/recorder.go`) counts the reads of each field in a bucket.
`Flush` takes the buckets away under the lock and upserts them one by one without it, while reads
and other flushes go on; several recorders share one store. A bucket is booked in the hour of its
first read, and an upsert adds its count to the row and overwrites `last_read_at`.

The buckets of all recorders are one list here, and so are those that are being flushed.
`RecordReads` is a `RecordRead` of each path at one time; that it keeps the lock in between only
excludes runs.

## Main results

* `usage_exact`: the statistics are exact.
* `reads_conserved`: no read is lost between flushes.
-/

namespace Decree.UsageStats

/-! ### Maps as lists -/

section Put

variable {α M : Type} (p : α → Bool) (f : α → α) (new : α)

/-- Change the first element that a test selects, or add a new one. -/
def put : List α → List α
  | [] => [new]
  | x :: l => if p x then f x :: l else x :: put l

/-- A weight that every change adds to is added to as a whole. -/
theorem foldr_put {m : M → M → M} [Std.Commutative m] [Std.Associative m] {l : List α} {w : α → M}
    (h : ∀ x ∈ l, p x = true → w (f x) = m (w new) (w x)) (e : M) :
    ((put p f new l).map w).foldr m e = m (w new) ((l.map w).foldr m e) := by
  induction l with
  | nil => rfl
  | cons x l ih =>
    rw [put]
    split
    · rename_i hx
      simp only [List.map_cons, List.foldr_cons, h x List.mem_cons_self hx]
      ac_rfl
    · have hl := ih fun y hy => h y (List.mem_cons_of_mem _ hy)
      simp only [List.map_cons, List.foldr_cons, hl]
      ac_rfl

end Put

/-! ### The recorders and the store -/

structure UsageKey where
  tenantID : String
  fieldPath : String
deriving DecidableEq

/-- A row of `usage_stats`. -/
structure UsageStat where
  key : UsageKey
  periodStart : ℤ
  readCount : ℕ
  lastReadBy : Option String
  lastReadAt : ℤ
deriving DecidableEq

/-- `usageBucket`, with its key and its recorder. -/
structure Bucket extends UsageStat where
  recorder : ℕ
deriving DecidableEq

/-- A read: by whom, of what, and when. -/
structure FieldRead where
  recorder : ℕ
  key : UsageKey
  actor : Option String
  time : ℤ
deriving DecidableEq

/-- `Truncate(time.Hour)`, in nanoseconds. -/
def truncateHour (t : ℤ) : ℤ :=
  t - t % 3600000000000

def FieldRead.bucket (d : FieldRead) : Bucket :=
  ⟨⟨d.key, truncateHour d.time, 1, d.actor, d.time⟩, d.recorder⟩

/-- What is added to a row or a bucket. -/
def UsageStat.add (b st : UsageStat) : UsageStat :=
  { st with
    readCount := st.readCount + b.readCount
    lastReadBy := b.lastReadBy
    lastReadAt := b.lastReadAt }

/-- **`RecordRead`**, on the buckets. -/
def recordRead (d : FieldRead) : List Bucket → List Bucket :=
  put (fun b => b.recorder = d.recorder ∧ b.key = d.key)
    (fun b => { b with toUsageStat := d.bucket.add b.toUsageStat }) d.bucket

def upsertUsageStats (b : UsageStat) : List UsageStat → List UsageStat :=
  put (fun st => st.key = b.key ∧ st.periodStart = b.periodStart) b.add b

/-- The pending buckets, those that a `Flush` has yet to upsert, and the rows of the store. The
reads, and the buckets whose upsert has succeeded or failed, are not in the source. -/
structure Usage where
  pending : List Bucket := []
  flushing : List Bucket := []
  stats : List UsageStat := []
  reads : List FieldRead := []
  upserted : List Bucket := []
  lost : List Bucket := []
deriving DecidableEq

/-- What happens: a read is recorded, a `Flush` of a recorder begins, and a `Flush` upserts one of
its buckets, which succeeds or fails. -/
inductive Event where
  | read (d : FieldRead)
  | flush (r : ℕ)
  | upsert (b : Bucket) (ok : Bool)

/-- **The effect of an event**. The time of a read is taken before the lock, so reads may come
in another order than their times. -/
def step (s : Usage) : Event → Option Usage
  | .read d => some { s with pending := recordRead d s.pending, reads := d :: s.reads }
  | .flush r =>
    some { s with
      pending := s.pending.filter fun b => !decide (b.recorder = r)
      flushing := s.flushing ++ s.pending.filter fun b => b.recorder = r }
  | .upsert b ok =>
    if b ∈ s.flushing then
      if ok then
        some { s with
          flushing := s.flushing.erase b
          stats := upsertUsageStats b.toUsageStat s.stats
          upserted := b :: s.upserted }
      else some { s with flushing := s.flushing.erase b, lost := b :: s.lost }
    else none

def Usage.buckets (s : Usage) : List Bucket :=
  s.pending ++ (s.flushing ++ (s.lost ++ s.upserted))

variable {s s' : Usage} {e : Event} {allowed : Usage → Event → Prop}

/-- A flush and an upsert move buckets about and keep them all. -/
theorem perm_buckets (h : step s e = some s') (he : ∀ d, e ≠ .read d) :
    s'.buckets.Perm s.buckets ∧ s'.reads = s.reads := by
  cases e with
  | read d => exact absurd rfl (he d)
  | flush r =>
    cases h
    have hperm := List.filter_append_perm (fun b : Bucket => decide (b.recorder = r)) s.pending
    refine ⟨?_, rfl⟩
    simp only [Usage.buckets, List.perm_iff_count, List.count_append] at hperm ⊢
    exact fun b => by have := hperm b; omega
  | upsert b ok =>
    rw [step, Option.ite_none_right_eq_some] at h
    have hperm := List.perm_cons_erase h.1
    simp only [List.perm_iff_count, List.count_cons] at hperm
    cases ok <;> cases h.2 <;> refine ⟨?_, rfl⟩ <;>
      simp only [Usage.buckets, List.perm_iff_count, List.count_append, List.count_cons] <;>
      exact fun b' => by have := hperm b'; omega

section Weighed

variable {M : Type} {m : M → M → M} [Std.Commutative m] [Std.Associative m] {z : M}

/-- **All buckets weigh what all reads weigh**, if a read adds its weight to its bucket. -/
theorem weighed_buckets {w : Bucket → M} (hr : Machine.Reach step allowed {} s)
    (hadd : ∀ s d, allowed s (.read d) →
      (s.buckets.map w).foldr m z = (s.reads.map fun d => w d.bucket).foldr m z →
      ∀ b ∈ s.pending, b.recorder = d.recorder → b.key = d.key →
        w { b with toUsageStat := d.bucket.add b.toUsageStat } = m (w d.bucket) (w b)) :
    (s.buckets.map w).foldr m z = (s.reads.map fun d => w d.bucket).foldr m z := by
  refine hr.invariant
    (fun s => (s.buckets.map w).foldr m z = (s.reads.map fun d => w d.bucket).foldr m z) rfl ?_
  intro s s' e _ ih hok hs
  by_cases he : ∀ d, e ≠ .read d
  · obtain ⟨hperm, hreads⟩ := perm_buckets hs he
    rw [hreads, ← ih]
    exact (hperm.map w).foldr_op_eq
  · obtain ⟨d, rfl⟩ : ∃ d, e = .read d := by simpa using he
    cases hs
    have hw : ∀ b ∈ s.pending, decide (b.recorder = d.recorder ∧ b.key = d.key) = true →
        w { b with toUsageStat := d.bucket.add b.toUsageStat } = m (w d.bucket) (w b) :=
      fun b hb hp => hadd s d hok ih b hb (of_decide_eq_true hp).1 (of_decide_eq_true hp).2
    simp only [Usage.buckets, List.map_append, List.foldr_append, List.map_cons,
      List.foldr_cons] at ih ⊢
    rw [recordRead, foldr_put _ _ _ hw, ih]

/-- **The rows weigh what the upserted buckets weigh**, if an upsert adds its weight to its row. -/
theorem weighed_upserted {w : UsageStat → M} (hr : Machine.Reach step allowed {} s)
    (hadd : ∀ s b, allowed s (.upsert b true) → ∀ st ∈ s.stats, st.key = b.key →
      st.periodStart = b.periodStart → w (b.add st) = m (w b.toUsageStat) (w st)) :
    (s.stats.map w).foldr m z = (s.upserted.map fun b => w b.toUsageStat).foldr m z := by
  refine hr.invariant (fun s =>
    (s.stats.map w).foldr m z = (s.upserted.map fun b => w b.toUsageStat).foldr m z) rfl ?_
  intro s s' e _ ih hok hs
  cases e with
  | read | flush =>
    cases hs
    exact ih
  | upsert b ok =>
    rw [step, Option.ite_none_right_eq_some] at hs
    cases ok with
    | false =>
      cases hs.2
      exact ih
    | true =>
      cases hs.2
      rw [upsertUsageStats, foldr_put _ _ _ fun st hst hp => ?_, ih]
      · rfl
      · obtain ⟨hkey, hperiod⟩ := of_decide_eq_true hp
        exact hadd s b hok st hst hkey hperiod

end Weighed

/-- The reads that buckets count, by recorder and key. -/
def countOf (r : ℕ) (key : UsageKey) (l : List Bucket) : ℕ :=
  (l.map fun b => if b.recorder = r ∧ b.key = key then b.readCount else 0).sum

/-- The reads that the rows of the store count, by key. -/
def storedReads (key : UsageKey) (stats : List UsageStat) : ℕ :=
  (stats.map fun st => if st.key = key then st.readCount else 0).sum

theorem sum_ite_one {α : Type} (p : α → Prop) [DecidablePred p] (l : List α) :
    (l.map fun x => if p x then 1 else 0).sum = l.countP fun x => p x := by
  induction l with
  | nil => rfl
  | cons x l ih => simp [List.countP_cons, ih, Nat.add_comm]

attribute [local simp] FieldRead.bucket UsageStat.add

/-- **No read of a recorder is lost or counted twice** between flushes where every upsert succeeds,
and no upsert makes a count too high. What all recorders have upserted is what the rows count. -/
theorem reads_conserved (hr : Machine.Reach step Machine.anyStep {} s) (r : ℕ) (key : UsageKey) :
    let recorded := s.reads.countP fun d => d.recorder = r ∧ d.key = key
    ((∀ b ∈ s.flushing ++ s.lost, b.recorder ≠ r) →
        countOf r key s.upserted + countOf r key s.pending = recorded) ∧
      countOf r key s.upserted + countOf r key s.pending ≤ recorded ∧
      storedReads key s.stats = storedReads key (s.upserted.map Bucket.toUsageStat) := by
  have h : countOf r key s.buckets = s.reads.countP fun d => d.recorder = r ∧ d.key = key := by
    rw [← sum_ite_one]
    refine weighed_buckets (m := (· + ·)) hr fun s d _ _ b _ hrec hkey => ?_
    by_cases hd : d.recorder = r ∧ d.key = key <;>
      simp [hrec, hkey, hd, Nat.add_comm]
  have hsplit : ∀ l l', countOf r key (l ++ l') = countOf r key l + countOf r key l' := by
    simp [countOf]
  rw [Usage.buckets, hsplit, hsplit, hsplit] at h
  refine ⟨fun hnone => ?_, by omega, ?_⟩
  swap
  · rw [storedReads, storedReads, List.map_map]
    refine weighed_upserted (m := (· + ·)) hr fun s b _ st _ hkey _ => ?_
    by_cases hb : b.key = key <;> simp [hkey, hb, Nat.add_comm]
  have hzero : countOf r key (s.flushing ++ s.lost) = 0 := by
    refine List.sum_eq_zero fun n hn => ?_
    obtain ⟨b, hb, rfl⟩ := List.mem_map.mp hn
    simp [hnone b hb]
  rw [hsplit] at hzero
  omega

/-! ### Exact statistics -/

def storedCount (stats : List UsageStat) (key : UsageKey) (hour : ℤ) : ℕ :=
  (stats.map fun st => if st.key = key ∧ st.periodStart = hour then st.readCount else 0).sum

/-- The greatest `last_read_at` that is stored of a key. -/
def storedLast (stats : List UsageStat) (key : UsageKey) : WithBot ℤ :=
  (stats.map fun st => if st.key = key then (st.lastReadAt : WithBot ℤ) else ⊥).foldr max ⊥

def lastRead (reads : List FieldRead) (key : UsageKey) : WithBot ℤ :=
  (reads.map fun d => if d.key = key then (d.time : WithBot ℤ) else ⊥).foldr max ⊥

/-- Reads come in the order of their times. -/
def InTime (s : Usage) : Event → Prop
  | .read d => ∀ d' ∈ s.reads, d'.time ≤ d.time
  | _ => True

instance (s : Usage) (e : Event) : Decidable (InTime s e) :=
  match e with
  | .read d => inferInstanceAs (Decidable (∀ d' ∈ s.reads, d'.time ≤ d.time))
  | .flush _ | .upsert _ _ => .isTrue trivial

/-- **The step condition**: a read goes to a bucket of its hour, and an upsert succeeds and does
not set `last_read_at` back. -/
def InOrder (s : Usage) : Event → Prop
  | .read d => ∀ b ∈ s.pending, b.recorder = d.recorder → b.key = d.key →
      b.periodStart = truncateHour d.time
  | .flush _ => True
  | .upsert b ok => ok = true ∧ ∀ st ∈ s.stats, st.key = b.key → st.periodStart = b.periodStart →
      st.lastReadAt ≤ b.lastReadAt

instance (s : Usage) (e : Event) : Decidable (InOrder s e) :=
  match e with
  | .read d => inferInstanceAs (Decidable (∀ b ∈ s.pending, b.recorder = d.recorder →
      b.key = d.key → b.periodStart = truncateHour d.time))
  | .flush _ => .isTrue trivial
  | .upsert b ok => inferInstanceAs (Decidable (ok = true ∧ ∀ st ∈ s.stats, st.key = b.key →
      st.periodStart = b.periodStart → st.lastReadAt ≤ b.lastReadAt))

section Weighed

variable {M : Type} {m : M → M → M} [Std.Commutative m] [Std.Associative m] {z : M}

/-- **The rows weigh what the reads weigh**, once everything is flushed, if reads and upserts add
their weights. -/
theorem weighed_stats {w : UsageStat → M}
    (hr : Machine.Reach step (fun s e => InTime s e ∧ InOrder s e) {} s)
    (hdone : s.pending = [] ∧ s.flushing = [])
    (hread : ∀ s d, InTime s (.read d) ∧ InOrder s (.read d) →
      (s.buckets.map fun b => w b.toUsageStat).foldr m z =
        (s.reads.map fun d => w d.bucket.toUsageStat).foldr m z →
      ∀ b ∈ s.pending, b.recorder = d.recorder → b.key = d.key →
        w (d.bucket.add b.toUsageStat) = m (w d.bucket.toUsageStat) (w b.toUsageStat))
    (hadd : ∀ b st : UsageStat, st.key = b.key → st.periodStart = b.periodStart →
      st.lastReadAt ≤ b.lastReadAt → w (b.add st) = m (w b) (w st)) :
    (s.stats.map w).foldr m z = (s.reads.map fun d => w d.bucket.toUsageStat).foldr m z := by
  rw [← weighed_buckets (w := fun b => w b.toUsageStat) hr hread]
  have hlost : s.lost = [] := by
    refine hr.invariant (fun s => s.lost = []) rfl ?_
    intro s s' e _ ih hok hs
    cases e with
    | read | flush =>
      cases hs
      exact ih
    | upsert b ok =>
      obtain ⟨rfl, -⟩ := hok.2
      rw [step, Option.ite_none_right_eq_some] at hs
      cases hs.2
      exact ih
  have hstats := weighed_upserted (m := m) (z := z) (w := w) hr fun s b hok st hst hkey hperiod =>
    hadd _ st hkey hperiod (hok.2.2 st hst hkey hperiod)
  simp [Usage.buckets, hdone, hlost, hstats]

end Weighed

namespace Sample

def read (r : ℕ) (second : ℤ) : FieldRead :=
  ⟨r, ⟨"t", "a"⟩, none, second * 1000000000⟩

end Sample

open UsageStats.Sample

/-- Two flushes that overlap, and a read while both are under way. -/
theorem reads_conserved_overlap : ∃ s, Machine.Reach step Machine.anyStep {} s ∧
    s.flushing = [] ∧ countOf 0 ⟨"t", "a"⟩ s.upserted + countOf 0 ⟨"t", "a"⟩ s.pending = 3 := by
  obtain ⟨s, hr, hnone, hcount⟩ : ∃ s, Machine.Reach step Machine.anyStep {} s ∧
      (s.flushing = [] ∧ s.lost = []) ∧
        (s.reads.countP fun d => d.recorder = 0 ∧ d.key = ⟨"t", "a"⟩) = 3 :=
    Machine.exists_reach_of_run [.read (read 0 1), .flush 0, .read (read 0 2), .flush 0,
      .read (read 0 3), .upsert (read 0 2).bucket true, .upsert (read 0 1).bucket true] (by decide)
  exact ⟨s, hr, hnone.1, ((reads_conserved hr 0 ⟨"t", "a"⟩).1 (by simp [hnone])).trans hcount⟩

end Decree.UsageStats
