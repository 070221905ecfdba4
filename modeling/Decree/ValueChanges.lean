import Decree.Machine
import Mathlib.Data.List.Sublists

/-!
# The Changes of a Watched Value

A `Value` of the watcher (`sdk/configwatcher/value.go`) sends its changes to a channel of sixteen.
When the channel is full, `notifyLocked` takes the oldest change out and sends again. The lock of
the value keeps other updates out meanwhile, but not the consumer, who may receive at any point
of it.

## Main results

* `changes_delivered`: what the consumer gets.
-/

open List

namespace Decree.ConfigWatcher

structure Change (T : Type) where
  old : T
  new : T
  wasNull : Bool
  isNull : Bool
deriving DecidableEq

/-- Where `notifyLocked` is: it is not running, it found the channel full, or it has made room for
its change. -/
inductive Notify (T : Type) where
  | idle
  | full (change : Change T)
  | drained (change : Change T)
deriving DecidableEq

/-- **`Value`**, with the changes in its channel, the oldest first. The changes that were emitted
and those that the consumer received are not in the source. -/
structure Value (T : Type) where
  current : T
  isSet : Bool := false
  closed : Bool := false
  changesCh : List (Change T) := []
  dropped : ℕ := 0
  notify : Notify T := .idle
  emitted : List (Change T) := []
  received : List (Change T) := []
deriving DecidableEq

/-- What `newValue` is given, and its `makeEqual`. -/
structure Kind (T : Type) where
  defaultVal : T
  parse : String → Option T
  equal : T → T → Bool

def capacity : ℕ := 16

def newValue {T : Type} (k : Kind T) : Value T :=
  { current := k.defaultVal }

/-- What happens to a value: it is updated or closed, `notifyLocked` goes on, or the consumer
receives. -/
inductive Event (T : Type) where
  | update (rawValue : String) (isSet : Bool)
  | updateDirect (val : T)
  | close
  | notifyLocked
  | receive

variable {T : Type}

/-- A send that does not block; it ends the emission. -/
def Value.send (v : Value T) (change : Change T) : Value T :=
  { v with
    changesCh := if v.changesCh.length < capacity then v.changesCh ++ [change] else v.changesCh
    notify := .idle
    emitted := v.emitted ++ [change] }

/-- The first part of `notifyLocked`, on the value as it was and as it is now. -/
def notifyLocked (k : Kind T) (old v : Value T) : Value T :=
  if v.closed ∨ (old.isSet = v.isSet ∧ k.equal old.current v.current = true) then v
  else
    let change : Change T := ⟨old.current, v.current, !old.isSet, !v.isSet⟩
    if v.changesCh.length < capacity then v.send change
    else { v with dropped := v.dropped + 1, notify := .full change }

/-- What both updates do: they set a value, or the default if there is none, and notify. -/
def Value.set (k : Kind T) (v : Value T) (val : Option T) : Value T :=
  notifyLocked k v { v with current := val.getD k.defaultVal, isSet := val.isSome }

/-- **The effect of an event.** The lock of the value is held while `notifyLocked` runs. -/
def step (k : Kind T) (v : Value T) (e : Event T) : Option (Value T) :=
  match e, v.notify with
  | .update rawValue isSet, .idle => some (v.set k (if isSet then k.parse rawValue else none))
  | .updateDirect val, .idle => some (v.set k (some val))
  | .close, .idle => some { v with closed := true }
  | .notifyLocked, .full change =>
    some { v with changesCh := v.changesCh.tail, notify := .drained change }
  | .notifyLocked, .drained change => some (v.send change)
  | .receive, _ =>
    match v.changesCh with
    | [] => none
    | c :: rest => some { v with changesCh := rest, received := v.received ++ [c] }
  | _, _ => none

/-- The changes that the consumer received and those that wait for it. -/
def Value.delivered (v : Value T) : List (Change T) :=
  v.received ++ v.changesCh

/-- What the events keep. A change in the making was counted before an older one was taken out for
it, and has a place in the channel then. -/
structure Delivering (v : Value T) : Prop where
  sub : v.delivered <+ v.emitted
  room : v.changesCh.length ≤ capacity
  last : v.notify = .idle → v.delivered.getLast? = v.emitted.getLast?
  counted : v.emitted.length ≤ v.delivered.length + v.dropped
  full : ∀ c, v.notify = .full c → v.emitted.length < v.delivered.length + v.dropped
  drained : ∀ c, v.notify = .drained c → v.changesCh.length < capacity

variable {k : Kind T} {v v' : Value T} {c : Change T}

theorem Delivering.send (h : Delivering v) (hroom : v.changesCh.length < capacity) :
    Delivering (v.send c) := by
  have hdel : (v.send c).delivered = v.delivered ++ [c] := by
    simp [Value.send, Value.delivered, hroom]
  have hcount := h.counted
  refine ⟨?_, ?_, fun _ => ?_, ?_, nofun, nofun⟩
  · exact hdel ▸ h.sub.append_right [c]
  · simp only [Value.send, if_pos hroom, length_append, length_singleton]
    exact hroom
  · rw [hdel]
    simp [Value.send]
  · rw [hdel]
    simp only [Value.send, length_append, length_singleton]
    omega

theorem Delivering.set (h : Delivering v) (val : Option T) : Delivering (v.set k val) := by
  have h' : Delivering { v with current := val.getD k.defaultVal, isSet := val.isSome } :=
    ⟨h.sub, h.room, h.last, h.counted, h.full, h.drained⟩
  rw [Value.set, notifyLocked]
  split
  · exact h'
  · dsimp only
    split
    · exact h'.send ‹_›
    · exact ⟨h.sub, h.room, nofun, Nat.le_succ_of_le h.counted,
        fun _ _ => Nat.lt_succ_of_le h.counted, nofun⟩

/-- `notifyLocked` takes out the oldest change, if the consumer has left one. -/
theorem Delivering.drain (h : Delivering v) (hfull : v.notify = .full c) :
    Delivering { v with changesCh := v.changesCh.tail, notify := .drained c } := by
  have hsub : v.received ++ v.changesCh.tail <+ v.delivered := (tail_sublist _).append_left _
  have hroom := h.room
  have hcount := h.full c hfull
  refine ⟨hsub.trans h.sub, ?_, nofun, ?_, nofun, fun _ _ => ?_⟩ <;>
    simp only [Value.delivered, length_append, length_tail, capacity] at * <;> omega

theorem Delivering.receive {rest : List (Change T)} (h : Delivering v)
    (hch : v.changesCh = c :: rest) :
    Delivering { v with changesCh := rest, received := v.received ++ [c] } := by
  have hdel : ({ v with changesCh := rest, received := v.received ++ [c] } : Value T).delivered =
      v.delivered := by simp [Value.delivered, hch]
  have hlen : rest.length < v.changesCh.length := by simp [hch]
  exact ⟨hdel ▸ h.sub, hlen.le.trans h.room, hdel ▸ h.last, hdel ▸ h.counted, hdel ▸ h.full,
    fun c hc => hlen.trans (h.drained c hc)⟩

theorem Delivering.step {e : Event T} (h : Delivering v) (hs : step k v e = some v') :
    Delivering v' := by
  rw [ConfigWatcher.step.eq_def] at hs
  split at hs
  · exact Option.some.inj hs ▸ h.set _
  · exact Option.some.inj hs ▸ h.set _
  · cases hs
    exact ⟨h.sub, h.room, h.last, h.counted, h.full, h.drained⟩
  · exact Option.some.inj hs ▸ h.drain ‹_›
  · exact Option.some.inj hs ▸ h.send (h.drained _ ‹_›)
  · split at hs
    · cases hs
    · exact Option.some.inj hs ▸ h.receive ‹_›
  · cases hs

/-- **What the consumer gets**: what it received and what waits for it is a subsequence of what was
emitted, at most sixteen changes wait, the newest is the last after each emission, and at most as
many are missing as were counted. -/
theorem changes_delivered (hr : Machine.Reach (step k) Machine.anyStep (newValue k) v) :
    v.received ++ v.changesCh <+ v.emitted ∧ v.changesCh.length ≤ 16 ∧
      (v.notify = .idle → (v.received ++ v.changesCh).getLast? = v.emitted.getLast?) ∧
      v.emitted.length - (v.received ++ v.changesCh).length ≤ v.dropped := by
  have h : Delivering v := hr.invariant Delivering
    ⟨.refl _, Nat.zero_le _, fun _ => rfl, Nat.zero_le _, nofun, nofun⟩
    fun v v' e _ hi _ hs => hi.step hs
  exact ⟨h.sub, h.room, h.last, Nat.sub_le_iff_le_add'.mpr h.counted⟩

/-- A consumer who comes late misses the first of eighteen changes, and receives while room is
made for the last. -/
theorem changes_delivered_late : ∃ v, Machine.Reach (step ⟨0, fun _ => none, (· == ·)⟩)
    Machine.anyStep (newValue ⟨0, fun _ => none, (· == ·)⟩) v ∧
      (v.emitted.length = 18 ∧ v.received.length = 1 ∧ v.dropped = 2) ∧
      v.emitted.length - (v.received ++ v.changesCh).length ≤ 2 := by
  obtain ⟨v, hr, hv⟩ : ∃ v, Machine.Reach (step ⟨0, fun _ => none, (· == ·)⟩) Machine.anyStep
      (newValue ⟨0, fun _ => none, (· == ·)⟩) v ∧
        v.emitted.length = 18 ∧ v.received.length = 1 ∧ v.dropped = 2 :=
    Machine.exists_reach_of_run ((range 17).map (fun n => .updateDirect (n + 1)) ++
      [.notifyLocked, .notifyLocked, .updateDirect 0, .receive, .notifyLocked, .notifyLocked])
      (by decide)
  exact ⟨v, hr, hv, hv.2.2 ▸ (changes_delivered hr).2.2.2⟩

end Decree.ConfigWatcher
