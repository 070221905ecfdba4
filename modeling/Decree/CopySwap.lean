import Mathlib.Data.List.Nodup
import Decree.Interleave
import Decree.Machine

/-!
# Copy-and-Swap Transactions

A library for stores whose transactions copy the whole state, work on the private copy, and
on success put the copy in the place of the shared state. Copying and swapping are atomic; the
body runs in between, one operation at a time, while others go on.

A caller's `Action` is one transaction, given by the program of its body, or one direct
operation. `apply` is the semantics of an operation on a state; its first argument is the
caller and how many operations it has performed, from which fresh identifiers can be made. Such a
store is meant to run its actions one after the other (`serialRun`), and does as long as every swap
meets the state its copy was made from (`Undisturbed`).

## Main results

* `Reach.serial`: undisturbed runs are serializable.
-/

open Interleave List

namespace CopySwap

variable {Op : Type} {Resp : Op → Type} {S ε α : Type}

/-- What one caller does. -/
inductive Action {Op : Type} (Resp : Op → Type) (ε α : Type) where
  | tx (body : Prog Resp (Except ε α))
  | direct (o : Op)

/-- How far a caller is. -/
inductive Phase {Op : Type} (Resp : Op → Type) (S ε α : Type) where
  | idle
  /-- In a transaction: the state that was copied, the copy, the number of operations
  performed on it and what is left of the body. -/
  | running (base copy : S) (n : ℕ) (rest : Prog Resp (Except ε α))
  | committed (a : α)
  | aborted (e : ε)
  | wrote (o : Op) (r : Resp o)

/-- Whether the caller's action has taken effect. -/
def Phase.effective : Phase Resp S ε α → Bool
  | committed _ | wrote _ _ => true
  | idle | running _ _ _ _ | aborted _ => false

instance [DecidableEq α] (p : Phase Resp S ε α) (a : α) : Decidable (p = .committed a) :=
  match p with
  | .committed b => decidable_of_iff (b = a) (by simp)
  | .idle => .isFalse (by simp)
  | .running _ _ _ _ => .isFalse (by simp)
  | .aborted _ => .isFalse (by simp)
  | .wrote _ _ => .isFalse (by simp)

/-- A configuration. `order` lists the callers whose actions have taken effect, in the order
in which they did. -/
structure Config {Op : Type} (Resp : Op → Type) (S ε α : Type) where
  shared : S
  phase : ℕ → Phase Resp S ε α
  order : List ℕ

def start (s : S) : Config Resp S ε α :=
  ⟨s, fun _ => .idle, []⟩

/-- The configuration with one caller's phase replaced. -/
def Config.set (c : Config Resp S ε α) (t : ℕ) (p : Phase Resp S ε α) : Config Resp S ε α :=
  { c with phase := Function.update c.phase t p }

/-- The configuration after an action has taken effect. -/
def Config.effect (c : Config Resp S ε α) (t : ℕ) (p : Phase Resp S ε α) (s : S) :
    Config Resp S ε α :=
  ⟨s, Function.update c.phase t p, c.order ++ [t]⟩

section Phases

variable (c : Config Resp S ε α) {t u : ℕ} (p : Phase Resp S ε α) (s : S)

@[simp] theorem Config.set_phase_self : (c.set t p).phase t = p :=
  Function.update_self _ _ _

@[simp] theorem Config.set_phase_of_ne (h : u ≠ t) : (c.set t p).phase u = c.phase u :=
  Function.update_of_ne h _ _

@[simp] theorem Config.effect_phase_self : (c.effect t p s).phase t = p :=
  Function.update_self _ _ _

@[simp] theorem Config.effect_phase_of_ne (h : u ≠ t) : (c.effect t p s).phase u = c.phase u :=
  Function.update_of_ne h _ _

end Phases

section Semantics

variable (apply : ℕ × ℕ → (o : Op) → S → Resp o × S) (acts : ℕ → Action Resp ε α)

/-- **One step** of a caller: it copies the state, performs the next operation of its body on
the copy, swaps the copy in or drops it, or performs its direct operation. -/
def step (c : Config Resp S ε α) (t : ℕ) : Option (Config Resp S ε α) :=
  match acts t, c.phase t with
  | .tx body, .idle => some (c.set t (.running c.shared c.shared 0 body))
  | .tx _, .running base copy n (.op o k) =>
    some (c.set t (.running base (apply (t, n) o copy).2 (n + 1) (k (apply (t, n) o copy).1)))
  | .tx _, .running _ copy _ (.ret (.ok a)) => some (c.effect t (.committed a) copy)
  | .tx _, .running _ _ _ (.ret (.error e)) => some (c.set t (.aborted e))
  | .direct o, .idle =>
    some (c.effect t (.wrote o (apply (t, 0) o c.shared).1) (apply (t, 0) o c.shared).2)
  | _, _ => none

/-- Run a program to its end on a state of its own. -/
def finish (t : ℕ) {ρ : Type} : Prog Resp ρ → ℕ → S → ρ × S
  | .ret a, _, s => (a, s)
  | .op o k, n, s => finish t (k (apply (t, n) o s).1) (n + 1) (apply (t, n) o s).2

/-- An action carried out alone: how it ends and the state it leaves. -/
def alone (t : ℕ) (s : S) : Phase Resp S ε α × S :=
  match acts t with
  | .tx body =>
    match finish apply t body 0 s with
    | (.ok a, s') => (.committed a, s')
    | (.error e, _) => (.aborted e, s)
  | .direct o => (.wrote o (apply (t, 0) o s).1, (apply (t, 0) o s).2)

/-- **Serial execution**: the actions of these callers, one after the other. -/
def serialRun : List ℕ → S → S
  | [], s => s
  | t :: ts, s => serialRun ts (alone apply acts t s).2

/-- The state that was copied by a transaction that is about to swap its copy in. -/
def Config.swapping (c : Config Resp S ε α) (t : ℕ) : Option S :=
  match c.phase t with
  | .running base _ _ (.ret (.ok _)) => some base
  | _ => none

/-- The swap of a transaction that is about to end meets the state it copied. -/
def Undisturbed (c : Config Resp S ε α) (t : ℕ) : Prop :=
  ∀ base ∈ c.swapping t, c.shared = base

/-- The configuration is what a serial execution of its order leaves: the shared state and
the outcome of every action that took effect. -/
structure Serial (s₀ : S) (c : Config Resp S ε α) : Prop where
  nodup : c.order.Nodup
  mem_iff : ∀ t, t ∈ c.order ↔ (c.phase t).effective = true
  shared : c.shared = serialRun apply acts c.order s₀
  outcome : ∀ l₁ t l₂, c.order = l₁ ++ t :: l₂ →
    c.phase t = (alone apply acts t (serialRun apply acts l₁ s₀)).1

/-- The copy of a running transaction is on the way from its base to what the body makes of
it. -/
def Prepared (c : Config Resp S ε α) (t : ℕ) : Prop :=
  ∀ base copy n rest, c.phase t = .running base copy n rest →
    ∃ body, acts t = .tx body ∧ finish apply t body 0 base = finish apply t rest n copy

/-- **What a step can do.** -/
inductive StepCase (c : Config Resp S ε α) (t : ℕ) : Config Resp S ε α → Prop
  | copy {body : Prog Resp (Except ε α)} (hact : acts t = .tx body) (hp : c.phase t = .idle) :
      StepCase c t (c.set t (.running c.shared c.shared 0 body))
  | work {base copy : S} {n : ℕ} {o : Op} {k : Resp o → Prog Resp (Except ε α)}
      (hp : c.phase t = .running base copy n (.op o k)) :
      StepCase c t
        (c.set t (.running base (apply (t, n) o copy).2 (n + 1) (k (apply (t, n) o copy).1)))
  | swap {base copy : S} {n : ℕ} {a : α} (hp : c.phase t = .running base copy n (.ret (.ok a))) :
      StepCase c t (c.effect t (.committed a) copy)
  | drop {base copy : S} {n : ℕ} {e : ε}
      (hp : c.phase t = .running base copy n (.ret (.error e))) :
      StepCase c t (c.set t (.aborted e))
  | direct {o : Op} (hact : acts t = .direct o) (hp : c.phase t = .idle) :
      StepCase c t (c.effect t (.wrote o (apply (t, 0) o c.shared).1) (apply (t, 0) o c.shared).2)

variable {apply acts} {c : Config Resp S ε α} {t : ℕ} {allowed : Config Resp S ε α → ℕ → Prop}
  {s₀ s : S} {evs : List (Event Resp S)}

theorem serialRun_append (l l' : List ℕ) (s : S) :
    serialRun apply acts (l ++ l') s = serialRun apply acts l' (serialRun apply acts l s) := by
  induction l generalizing s with
  | nil => rfl
  | cons t l ih => exact ih _

/-- What a step can be. -/
theorem step_cases {c' : Config Resp S ε α} (h : step apply acts c t = some c') :
    StepCase apply acts c t c' := by
  unfold step at h
  split at h
  · cases h
    exact .copy ‹_› ‹_›
  · cases h
    exact .work ‹_›
  · cases h
    exact .swap ‹_›
  · cases h
    exact .drop ‹_›
  · cases h
    exact .direct ‹_› ‹_›
  · cases h

/-- What a transaction holds is what its body, run alone, makes of the state it copied. -/
theorem Reach.prepared (hr : Machine.Reach (step apply acts) allowed (start s₀) c) (t : ℕ) :
    Prepared apply acts c t := by
  refine hr.invariant (fun c => Prepared apply acts c t) (fun _ _ _ _ h => by cases h) ?_
  rintro c c' u - ih - hs base copy n rest hp
  by_cases hu : t = u
  · subst hu
    cases step_cases hs with
    | copy hact hidle =>
      rw [Config.set_phase_self] at hp
      cases hp
      exact ⟨_, hact, rfl⟩
    | work hrun =>
      rw [Config.set_phase_self] at hp
      cases hp
      obtain ⟨body, hact, hfin⟩ := ih _ _ _ _ hrun
      exact ⟨body, hact, hfin⟩
    | swap hrun | drop hrun | direct hact hidle =>
      simp at hp
  · have hother : c'.phase t = c.phase t := by
      cases step_cases hs <;> simp [hu]
    exact ih _ _ _ _ (hother ▸ hp)

/-- A step without an effect keeps a configuration serial. -/
theorem Serial.set (h : Serial apply acts s₀ c) {p : Phase Resp S ε α}
    (hold : (c.phase t).effective = false) (hp : p.effective = false) :
    Serial apply acts s₀ (c.set t p) := by
  have ht : t ∉ c.order := by rw [h.mem_iff, hold]; simp
  refine ⟨h.nodup, fun u => ?_, h.shared, fun l1 u l2 hord => ?_⟩
  · by_cases hu : u = t
    · subst hu
      simp only [Config.set_phase_self, hp, Bool.false_eq_true, iff_false]
      exact ht
    · rw [Config.set_phase_of_ne _ _ hu]
      exact h.mem_iff u
  · have hu : u ≠ t := by
      rintro rfl
      exact ht (by rw [show c.order = _ from hord]; simp)
    rw [Config.set_phase_of_ne _ _ hu]
    exact h.outcome l1 u l2 hord

/-- A step with the effect its action has alone keeps a configuration serial. -/
theorem Serial.effect (h : Serial apply acts s₀ c) {p : Phase Resp S ε α}
    (hold : (c.phase t).effective = false) (hp : p.effective = true)
    (halone : alone apply acts t c.shared = (p, s)) : Serial apply acts s₀ (c.effect t p s) := by
  have ht : t ∉ c.order := by rw [h.mem_iff, hold]; simp
  refine ⟨?_, fun u => ?_, ?_, fun l1 u l2 hord => ?_⟩
  · rw [Config.effect, ← concat_eq_append]
    exact h.nodup.concat ht
  · by_cases hu : u = t
    · subst hu
      simp [hp, Config.effect]
    · rw [Config.effect_phase_of_ne _ _ _ hu, ← h.mem_iff u]
      simp [Config.effect, hu]
  · simp only [Config.effect, serialRun_append, ← h.shared, serialRun, halone]
  · rcases eq_nil_or_concat l2 with rfl | ⟨l3, v, rfl⟩
    · obtain ⟨rfl, hlast⟩ := append_inj' (show c.order ++ [t] = l1 ++ [u] from hord) rfl
      obtain rfl := singleton_inj.mp hlast
      rw [Config.effect_phase_self, ← h.shared, halone]
    · rw [concat_eq_append, ← cons_append, ← append_assoc] at hord
      obtain ⟨hord', -⟩ := append_inj' (show c.order ++ [t] = _ from hord) rfl
      have hu : u ≠ t := by
        rintro rfl
        exact ht (by rw [hord']; simp)
      rw [Config.effect_phase_of_ne _ _ _ hu]
      exact h.outcome l1 u l3 hord'

/-- **Undisturbed runs are serializable.** -/
theorem Reach.serial (hallowed : ∀ c t, allowed c t → Undisturbed c t)
    (hr : Machine.Reach (step apply acts) allowed (start s₀) c) : Serial apply acts s₀ c := by
  refine hr.invariant (Serial apply acts s₀) ⟨.nil, by simp [start, Phase.effective], rfl, ?_⟩ ?_
  · intro l1 t l2 h
    simp [start] at h
  intro c c' t hreach ih ha hs
  cases step_cases hs with
  | copy hact hp | work hp | drop hp => exact ih.set (by rw [hp]; rfl) rfl
  | swap hp =>
    obtain ⟨body, hact, hfin⟩ := Reach.prepared hreach t _ _ _ _ hp
    have hbase := hallowed c t ha _ (by rw [Config.swapping, hp]; rfl)
    refine ih.effect (by rw [hp]; rfl) rfl ?_
    simp only [alone, hact, hbase, hfin, finish]
  | direct hact hp =>
    refine ih.effect (by rw [hp]; rfl) rfl ?_
    simp only [alone, hact]

/-- In a serial execution, a transaction begins in a state that its swap was admitted in. -/
theorem Reach.at_swap {Q : S → Prop} (hallowed : ∀ c t, allowed c t → Undisturbed c t)
    (hQ : ∀ c t, allowed c t → ∀ base ∈ c.swapping t, Q base)
    (hr : Machine.Reach (step apply acts) allowed (start s₀) c) {l1 l2 : List ℕ}
    (hord : c.order = l1 ++ t :: l2) {body : Prog Resp (Except ε α)} (hact : acts t = .tx body) :
    Q (serialRun apply acts l1 s₀) := by
  induction hr generalizing l2 with
  | refl => simp [start] at hord
  | @tail c c' u hr ha hs ih =>
    have hser := Reach.serial hallowed hr
    cases step_cases hs with
    | copy | work | drop => exact ih hord
    | @swap base _ _ _ hp =>
      rcases eq_nil_or_concat l2 with rfl | ⟨l3, v, rfl⟩
      · obtain ⟨rfl, -⟩ := append_inj' (show c.order ++ [u] = l1 ++ [t] from hord) rfl
        have hmem : base ∈ c.swapping u := by rw [Config.swapping, hp]; rfl
        rw [← hser.shared, hallowed c u ha base hmem]
        exact hQ c u ha base hmem
      · rw [concat_eq_append, ← cons_append, ← append_assoc] at hord
        exact ih (append_inj' (show c.order ++ [u] = _ from hord) rfl).1
    | direct hdir hp =>
      rcases eq_nil_or_concat l2 with rfl | ⟨l3, v, rfl⟩
      · obtain ⟨-, hlast⟩ := append_inj' (show c.order ++ [u] = l1 ++ [t] from hord) rfl
        obtain rfl := singleton_inj.mp hlast
        rw [hact] at hdir
        cases hdir
      · rw [concat_eq_append, ← cons_append, ← append_assoc] at hord
        exact ih (append_inj' (show c.order ++ [u] = _ from hord) rfl).1

/-! ### Traces of a program run alone -/

/-- The events are what the caller, with `n` operations behind it, is answered from one state
on to another. -/
inductive Follows (apply : ℕ × ℕ → (o : Op) → S → Resp o × S) (t : ℕ) :
    ℕ → List (Event Resp S) → S → S → Prop
  | nil (n : ℕ) (s : S) : Follows apply t n [] s s
  | cons {n : ℕ} {o : Op} {s s' : S} {evs : List (Event Resp S)} :
      Follows apply t (n + 1) evs (apply (t, n) o s).2 s' →
      Follows apply t n (⟨o, (apply (t, n) o s).1, s⟩ :: evs) s s'

theorem follows_append {n : ℕ} {evs' : List (Event Resp S)} {s' : S}
    (h : Follows apply t n (evs ++ evs') s s') :
    ∃ n' s1, Follows apply t n evs s s1 ∧ Follows apply t n' evs' s1 s' := by
  induction evs generalizing n s with
  | nil => exact ⟨n, s, .nil n s, h⟩
  | cons e evs ih =>
    cases h with
    | cons h =>
      obtain ⟨n', s1, h1, h2⟩ := ih h
      exact ⟨n', s1, .cons h1, h2⟩

/-- A serial run has a trace. -/
theorem exists_trace {ρ : Type} (t : ℕ) (p : Prog Resp ρ) (n : ℕ) (s : S) :
    ∃ evs, Runs p evs (finish apply t p n s).1 ∧
      Follows apply t n evs s (finish apply t p n s).2 := by
  induction p generalizing n s with
  | ret a => exact ⟨[], .refl _, .nil n s⟩
  | op o k ih =>
    obtain ⟨evs, hruns, hfol⟩ := ih (apply (t, n) o s).1 (n + 1) (apply (t, n) o s).2
    exact ⟨_, .op hruns, .cons hfol⟩

/-- A preorder that every operation climbs is climbed by every program. -/
theorem Follows.climbs (le : S → S → Prop) (hrefl : ∀ s, le s s)
    (htrans : ∀ s1 s2 s3, le s1 s2 → le s2 s3 → le s1 s3) (hclimb : ∀ i o s, le s (apply i o s).2)
    {n : ℕ} {s' : S} (h : Follows apply t n evs s s') : le s s' := by
  induction h with
  | nil => exact hrefl _
  | cons _ ih => exact htrans _ _ _ (hclimb _ _ _) ih

/-- States grow along a serial run. -/
theorem serialRun_climbs (le : S → S → Prop) (hrefl : ∀ s, le s s)
    (htrans : ∀ s1 s2 s3, le s1 s2 → le s2 s3 → le s1 s3)
    (hclimb : ∀ i o s, le s (apply i o s).2) (l : List ℕ) (s : S) :
    le s (serialRun apply acts l s) := by
  induction l generalizing s with
  | nil => exact hrefl s
  | cons t l ih =>
    refine htrans _ _ _ ?_ (ih _)
    rw [alone]
    cases acts t with
    | direct o => exact hclimb _ _ _
    | tx body =>
      obtain ⟨evs, -, hfol⟩ : ∃ evs, _ ∧ Follows apply t 0 evs s _ := exists_trace t body 0 s
      simp only
      split
      · rename_i hfin
        rw [hfin] at hfol
        exact hfol.climbs le hrefl htrans hclimb
      · exact hrefl s

end Semantics

end CopySwap
