import Mathlib.Data.List.Forall2
import Mathlib.Data.List.Basic
import Mathlib.Logic.Function.Basic

/-!
# Interleaved Programs and Their Histories

A library for any number of concurrent callers of one shared store. A caller is a `Prog`: a finite
tree that returns a value or performs an operation and continues on its response. The store is an
executable semantics `exec`, which answers one operation of one caller atomically, under a choice
that resolves what the store leaves open. `Reach` is the closure of these steps under every
schedule and every choice that an `allowed` predicate admits.

Every caller carries its **history**: its operations, the responses, and the shared state each was
performed in. Its control flow depends on its responses alone, so what it is about to do is a fact
about its history (`After`), which is taken apart along the binds of its program. What the events
of a history say about the shared state is the store's business: each of them was a step of the
run.

## Main results

* `runs_bind`, `runs_bind_ok`, `Avoids.after_bind_late`: the trace of a sequence is a trace of
  its parts.
* `Reach.after`: the history of a caller is a trace of its program.
* `Reach.event`: every event of a history was a step of the run.
* `exists_reach_of_run`: a schedule that evaluates is a run.
-/

open List Function

namespace Interleave

/-- A **program** over operations `Op` with responses `Resp`: it returns a value, or
performs an operation and continues on the response. -/
inductive Prog {Op : Type} (Resp : Op → Type) (α : Type) where
  | ret (a : α) : Prog Resp α
  | op (o : Op) (k : Resp o → Prog Resp α) : Prog Resp α

variable {Op : Type} {Resp : Op → Type} {α β : Type}

variable {p : Prog Resp α} {a : α}

/-- Answers are equal by their parts. -/
theorem answer_inj {a a' : α} {b b' : β} (h : some (a, b) = some (a', b')) : a = a' ∧ b = b' :=
  Prod.mk.inj (Option.some.inj h)

namespace Prog

/-- Sequencing: run the first program and continue on its value. -/
def bind : Prog Resp α → (α → Prog Resp β) → Prog Resp β
  | ret a, f => f a
  | op o k, f => op o fun r => (k r).bind f

instance : Monad (Prog Resp) where
  pure := ret
  bind := bind

/-- `pure` is the program that returns. -/
@[simp] theorem pure_eq (a : α) : (pure a : Prog Resp α) = ret a := rfl

/-- The rest of a program follows its operation. -/
@[simp] theorem op_bind (o : Op) (k : Resp o → Prog Resp α) (f : α → Prog Resp β) :
    (op o k >>= f) = op o fun r => k r >>= f := rfl

/-- What the program has returned, if it has. -/
def result : Prog Resp α → Option α
  | ret a => some a
  | op _ _ => none

/-- A program with a result has returned it. -/
theorem result_eq_some : p.result = some a ↔ p = .ret a := by
  cases p <;> simp [result]

end Prog

/-- One entry of a history: the operation, its response, and the shared state in which
it was performed. -/
structure Event (Resp : Op → Type) (S : Type) where
  op : Op
  resp : Resp op
  pre : S

/-- A caller: what it has left to do and what it has done. -/
structure Thread (Resp : Op → Type) (S R : Type) where
  prog : Prog Resp R
  hist : List (Event Resp S)

/-- A configuration: the shared state and the pool of callers. -/
structure Config (Resp : Op → Type) (S R : Type) where
  shared : S
  pool : ℕ → Thread Resp S R

/-- What a caller has returned, if it has. -/
def Config.returned {S R : Type} (c : Config Resp S R) (t : ℕ) : Option R :=
  (c.pool t).prog.result

/-- A call has returned what its program returns. -/
theorem Config.returned_eq_some {S R : Type} {c : Config Resp S R} {t : ℕ} {a : R} :
    c.returned t = some a ↔ (c.pool t).prog = .ret a :=
  Prog.result_eq_some

section Semantics

variable {S R χ : Type}
variable (exec : χ → ℕ → (o : Op) → S → Option (Resp o × S))

/-- **One step**: caller `t` performs its next operation under the choice `ch`. There is
no step when the caller has returned or the store does not answer (the operation waits). -/
def step (c : Config Resp S R) (t : ℕ) (ch : χ) : Option (Config Resp S R) :=
  match c.pool t with
  | ⟨.ret _, _⟩ => none
  | ⟨.op o k, h⟩ =>
    match exec ch t o c.shared with
    | none => none
    | some (r, s) =>
      some ⟨s, update c.pool t ⟨k r, h ++ [⟨o, r, c.shared⟩]⟩⟩

/-- A program that **runs alone** from a state, under one choice: what it returns, and the state
in which it leaves the store. -/
def runAlone (ch : χ) (t : ℕ) : Prog Resp α → S → Option (α × S)
  | .ret a, s => some (a, s)
  | .op o k, s => (exec ch t o s).bind fun p => runAlone ch t (k p.1) p.2

/-- A program in a row, run alone. -/
theorem runAlone_bind (ch : χ) (t : ℕ) (p : Prog Resp α) (f : α → Prog Resp β) (s : S) :
    runAlone exec ch t (p >>= f) s =
      (runAlone exec ch t p s).bind fun x => runAlone exec ch t (f x.1) x.2 := by
  induction p generalizing s with
  | ret a => rfl
  | op o k ih =>
    rw [Prog.op_bind, runAlone, runAlone, Option.bind_assoc]
    exact congrArg _ (funext fun x => ih x.1 x.2)

/-- Reachability through steps that `allowed` admits: at the configuration before the
step, for the caller that takes it and the choice it is taken with. -/
inductive Reach (allowed : Config Resp S R → ℕ → χ → Prop) :
    Config Resp S R → Config Resp S R → Prop
  | refl (c : Config Resp S R) : Reach allowed c c
  | tail {c₀ c c' : Config Resp S R} {t : ℕ} {ch : χ} :
      Reach allowed c₀ c → allowed c t ch → step exec c t ch = some c' →
      Reach allowed c₀ c'

/-- Every step is admitted. -/
def anyStep : Config Resp S R → ℕ → χ → Prop :=
  fun _ _ _ => True

instance (c : Config Resp S R) (t : ℕ) (ch : χ) : Decidable (anyStep c t ch) :=
  .isTrue trivial

/-- A schedule, evaluated: each entry names the caller that moves and its choice, and each
step has to be admitted. -/
def run (allowed : Config Resp S R → ℕ → χ → Prop) [∀ c t ch, Decidable (allowed c t ch)]
    (c : Config Resp S R) : List (ℕ × χ) → Option (Config Resp S R)
  | [] => some c
  | (t, ch) :: sched =>
    if allowed c t ch then
      match step exec c t ch with
      | none => none
      | some c' => run allowed c' sched
    else none

variable {exec} {c c' c₀ : Config Resp S R} {t : ℕ} {ch : χ} {e : Event Resp S}
  {allowed : Config Resp S R → ℕ → χ → Prop} {evs : List (Event Resp S)} {o : Op}
  {f : α → Prog Resp β}

/-- **Inversion of a step**: the caller had an operation to perform, the store answered
it, and nothing but the shared state and that caller changed. -/
theorem step_eq_some (h : step exec c t ch = some c') :
    ∃ (o : Op) (k : Resp o → Prog Resp R) (r : Resp o),
      (c.pool t).prog = .op o k ∧ exec ch t o c.shared = some (r, c'.shared) ∧
      c'.pool = update c.pool t ⟨k r, (c.pool t).hist ++ [⟨o, r, c.shared⟩]⟩ := by
  unfold step at h
  cases hp : c.pool t with
  | mk p hist =>
    rw [hp] at h
    cases p with
    | ret a => simp at h
    | op o k =>
      simp only at h
      cases he : exec ch t o c.shared with
      | none =>
        rw [he] at h
        simp at h
      | some rs =>
        obtain ⟨r, s⟩ := rs
        rw [he] at h
        simp only [Option.some.injEq] at h
        subst h
        exact ⟨o, k, r, rfl, he, rfl⟩

/-- The events after a step: those before it, and the event of the step. -/
theorem mem_hist_step {p : Prog Resp R} {e0 : Event Resp S}
    (hpool : c'.pool = update c.pool t ⟨p, (c.pool t).hist ++ [e0]⟩) {u : ℕ} :
    e ∈ (c'.pool u).hist ↔ e ∈ (c.pool u).hist ∨ u = t ∧ e = e0 := by
  rw [hpool]
  by_cases hu : u = t
  · subst hu
    simp
  · simp [hu]

section Evaluation

variable {allowed : Config Resp S R → ℕ → χ → Prop} [∀ c t ch, Decidable (allowed c t ch)]
  {c : Config Resp S R} {P : Config Resp S R → Prop}

/-- A schedule that can be run reaches its end. -/
theorem run_reach {c' : Config Resp S R} {sched : List (ℕ × χ)}
    (h : run exec allowed c sched = some c') : Reach exec allowed c c' := by
  suffices H : ∀ (sched : List (ℕ × χ)) (c₀ c : Config Resp S R),
      Reach exec allowed c₀ c → run exec allowed c sched = some c' → Reach exec allowed c₀ c' from
    H sched c c (.refl c) h
  intro sched
  induction sched with
  | nil =>
    intro c₀ c hr h
    simp only [run, Option.some.injEq] at h
    exact h ▸ hr
  | cons m sched ih =>
    obtain ⟨t, ch⟩ := m
    intro c₀ c hr h
    simp only [run] at h
    split at h
    · rename_i ha
      cases hs : step exec c t ch with
      | none =>
        rw [hs] at h
        simp at h
      | some c1 =>
        rw [hs] at h
        exact ih c₀ c1 (hr.tail ha hs) h
    · cases h

/-- A schedule whose outcome passes a test reaches a configuration that does. -/
theorem exists_reach_of_run (sched : List (ℕ × χ)) [DecidablePred P]
    (h : (run exec allowed c sched).any (fun c' => decide (P c')) = true) :
    ∃ c', Reach exec allowed c c' ∧ P c' := by
  cases hc' : run exec allowed c sched with
  | none =>
    rw [hc'] at h
    simp at h
  | some c' =>
    rw [hc', Option.any_some, decide_eq_true_eq] at h
    exact ⟨c', run_reach hc', h⟩

/-- The same for a schedule in two parts, with a test in between. -/
theorem exists_reach_of_runs (sched sched' : List (ℕ × χ)) {Q : Config Resp S R → Prop}
    [DecidablePred P] [DecidablePred Q] {allowed' : Config Resp S R → ℕ → χ → Prop}
    [∀ c t ch, Decidable (allowed' c t ch)]
    (h : (run exec allowed c sched).any (fun c1 => decide (P c1) &&
      (run exec allowed' c1 sched').any fun c2 => decide (Q c2)) = true) :
    ∃ c1 c2, Reach exec allowed c c1 ∧ P c1 ∧ Reach exec allowed' c1 c2 ∧ Q c2 := by
  cases hc : run exec allowed c sched with
  | none =>
    rw [hc] at h
    simp at h
  | some c1 =>
    rw [hc, Option.any_some, Bool.and_eq_true, decide_eq_true_eq] at h
    obtain ⟨c2, hr2, hQ⟩ := exists_reach_of_run sched' h.2
    exact ⟨c1, c2, run_reach hc, h.1, hr2, hQ⟩

end Evaluation

/-- A run after a run. -/
theorem Reach.trans {c1 c2 : Config Resp S R} (h1 : Reach exec allowed c₀ c1)
    (h2 : Reach exec allowed c1 c2) : Reach exec allowed c₀ c2 := by
  induction h2 with
  | refl => exact h1
  | tail _ ha hs ih => exact ih.tail ha hs

/-- **A caller that runs alone** takes the configuration to its end, and nobody else moves. -/
theorem exists_reach_of_runAlone (hall : ∀ c, allowed c t ch) {a : R} {s' : S}
    (h : runAlone exec ch t (c.pool t).prog c.shared = some (a, s')) :
    ∃ c', Reach exec allowed c c' ∧ c'.shared = s' ∧ c'.returned t = some a ∧
      ∀ u, u ≠ t → c'.pool u = c.pool u := by
  generalize hp : (c.pool t).prog = p at h
  induction p generalizing c with
  | ret b =>
    cases h
    exact ⟨c, .refl c, rfl, Config.returned_eq_some.mpr hp, fun _ _ => rfl⟩
  | op o k ih =>
    obtain ⟨⟨r, s1⟩, hexec, hrest⟩ := Option.bind_eq_some_iff.mp h
    have hstep : step exec c t ch = some
        ⟨s1, update c.pool t ⟨k r, (c.pool t).hist ++ [⟨o, r, c.shared⟩]⟩⟩ := by
      have hcaller : c.pool t = ⟨.op o k, (c.pool t).hist⟩ := by rw [← hp]
      rw [step, hcaller]
      simp only [hexec]
    obtain ⟨c', hr, hs, ha, hpool⟩ := ih r
      (c := ⟨s1, update c.pool t ⟨k r, (c.pool t).hist ++ [⟨o, r, c.shared⟩]⟩⟩)
      (by simp) hrest
    refine ⟨c', ((Reach.refl c).tail (hall c) hstep).trans hr, hs, ha, fun u hu => ?_⟩
    exact (hpool u hu).trans (update_of_ne hu _ _)

/-- A run under a weaker condition. -/
theorem Reach.imp {allowed' : Config Resp S R → ℕ → χ → Prop}
    (himp : ∀ c t ch, allowed c t ch → allowed' c t ch) (h : Reach exec allowed c₀ c) :
    Reach exec allowed' c₀ c := by
  induction h with
  | refl => exact .refl _
  | tail _ ha hs ih => exact ih.tail (himp _ _ _ ha) hs

/-- **The invariant rule**: what holds at the start and survives every admitted step
from a reachable configuration holds throughout. -/
theorem Reach.invariant (P : Config Resp S R → Prop) (h : Reach exec allowed c₀ c) (h0 : P c₀)
    (hstep : ∀ (c c' : Config Resp S R) (t : ℕ) (ch : χ), Reach exec allowed c₀ c → P c →
      allowed c t ch → step exec c t ch = some c' → P c') : P c := by
  induction h with
  | refl => exact h0
  | tail hr ha hs ih => exact hstep _ _ _ _ hr ih ha hs

/-! ### A caller alone -/

/-- Only the caller moves, and with this choice. -/
def onlyStep (t : ℕ) (ch : χ) : Config Resp S R → ℕ → χ → Prop :=
  fun _ u ch' => u = t ∧ ch' = ch

/-- There is no step of a caller that has returned, or that waits. -/
theorem step_eq_none (h : step exec c t ch = none) : (∃ a, (c.pool t).prog = .ret a) ∨
      ∃ (o : Op) (k : Resp o → Prog Resp R), (c.pool t).prog = .op o k ∧
        exec ch t o c.shared = none := by
  rw [step] at h
  rcases hp : c.pool t with ⟨a | ⟨o, k⟩, hist⟩
  · exact .inl ⟨a, rfl⟩
  · rw [hp] at h
    cases he : exec ch t o c.shared with
    | none => exact .inr ⟨o, k, rfl, he⟩
    | some rs => simp [he] at h

/-- **A caller that moves alone** comes to its end, or waits. -/
theorem exists_waits (c : Config Resp S R) (t : ℕ) (ch : χ) :
    ∃ c', Reach exec (onlyStep t ch) c c' ∧ step exec c' t ch = none := by
  induction hp : (c.pool t).prog generalizing c with
  | ret a =>
    refine ⟨c, .refl c, Option.eq_none_iff_forall_not_mem.mpr fun c1 hs => ?_⟩
    obtain ⟨o, k, r, hp', -⟩ := step_eq_some hs
    cases (hp.symm.trans hp')
  | op o k ih =>
    cases hs : step exec c t ch with
    | none => exact ⟨c, .refl c, hs⟩
    | some c1 =>
      obtain ⟨o', k', r, hp', -, hpool⟩ := step_eq_some hs
      obtain ⟨rfl, hk⟩ := Prog.op.inj (hp.symm.trans hp')
      obtain ⟨c', hr, hend⟩ := ih r c1 (by
        rw [hpool, update_self, eq_of_heq hk])
      exact ⟨c', Reach.trans (.tail (.refl c) ⟨rfl, rfl⟩ hs) hr, hend⟩

/-- A call that waits alone changes nothing. -/
theorem Reach.eq_of_waits (hr : Reach exec (onlyStep t ch) c c') (h : step exec c t ch = none) :
    c' = c := by
  induction hr with
  | refl => rfl
  | tail hr ha hs ih =>
    obtain ⟨rfl, rfl⟩ := ha
    rw [ih, h] at hs
    cases hs

/-- The **step of an event** `e`, which a caller `t` performed after the history `h`: the
configurations just before and just after it, in a run from `c₀` to `c`. -/
structure EventStep (exec : χ → ℕ → (o : Op) → S → Option (Resp o × S))
    (allowed : Config Resp S R → ℕ → χ → Prop) (c₀ c : Config Resp S R) (t : ℕ)
    (h : List (Event Resp S)) (e : Event Resp S) (ch : χ) (c₁ c₂ : Config Resp S R) : Prop where
  reach : Reach exec allowed c₀ c₁
  admitted : allowed c₁ t ch
  stepped : step exec c₁ t ch = some c₂
  rest : Reach exec allowed c₂ c
  pre : c₁.shared = e.pre
  hist : (c₁.pool t).hist = h
  next : ∃ k, (c₁.pool t).prog = .op e.op k
  answer : exec ch t e.op e.pre = some (e.resp, c₂.shared)

/-- **Every event of a history was a step of the run.** -/
theorem Reach.event (hr : Reach exec allowed c₀ c) (h0 : (c₀.pool t).hist = [])
    {h1 h2 : List (Event Resp S)} (hh : (c.pool t).hist = h1 ++ e :: h2) :
    ∃ ch c1 c2, EventStep exec allowed c₀ c t h1 e ch c1 c2 := by
  induction hr generalizing h2 with
  | refl =>
    rw [h0] at hh
    simp at hh
  | @tail c c' u ch hr ha hs ih =>
    obtain ⟨o, k, r, hp, he, hpool⟩ := step_eq_some hs
    by_cases hu : t = u
    · subst hu
      rw [hpool, update_self] at hh
      rcases eq_nil_or_concat h2 with rfl | ⟨h3, e', rfl⟩
      · obtain ⟨rfl, hlast⟩ := append_inj' hh rfl
        obtain rfl := singleton_inj.mp hlast
        exact ⟨ch, c, c', hr, ha, hs, .refl c', rfl, rfl, ⟨k, hp⟩, he⟩
      · rw [concat_eq_append, ← cons_append, ← append_assoc] at hh
        obtain ⟨hh, -⟩ := append_inj' hh rfl
        obtain ⟨ch1, c1, c2, h⟩ := ih hh
        exact ⟨ch1, c1, c2, { h with rest := h.rest.tail ha hs }⟩
    · rw [hpool, update_of_ne hu] at hh
      obtain ⟨ch1, c1, c2, h⟩ := ih hh
      exact ⟨ch1, c1, c2, { h with rest := h.rest.tail ha hs }⟩

/-- Every event of a history was a step. -/
theorem Reach.event_of_mem (hr : Reach exec allowed c₀ c) (h0 : (c₀.pool t).hist = [])
    (he : e ∈ (c.pool t).hist) : ∃ h ch c1 c2, EventStep exec allowed c₀ c t h e ch c1 c2 := by
  obtain ⟨h1, h2, hh⟩ := append_of_mem he
  exact ⟨h1, hr.event h0 hh⟩

/-! ### Traces of a program -/

/-- The program can perform these events and be **left with** the second program. What the
responses were is in the events; nothing is said of the store. -/
inductive After : Prog Resp α → List (Event Resp S) → Prog Resp α → Prop
  | refl (p : Prog Resp α) : After p [] p
  | op {o : Op} {k : Resp o → Prog Resp α} {r : Resp o} {s : S} {evs : List (Event Resp S)}
      {q : Prog Resp α} : After (k r) evs q → After (.op o k) (⟨o, r, s⟩ :: evs) q

/-- The program can perform these events and return the value. -/
abbrev Runs (p : Prog Resp α) (evs : List (Event Resp S)) (a : α) : Prop :=
  After p evs (.ret a)

variable {q : Prog Resp α} {k : Resp o → Prog Resp α}

/-- A program that returns does no more. -/
theorem after_ret : After (.ret a) evs q ↔ evs = [] ∧ q = .ret a := by
  constructor
  · rintro ⟨⟩
    exact ⟨rfl, rfl⟩
  · rintro ⟨rfl, rfl⟩
    exact .refl _

/-- A program at an operation, or past it. -/
theorem after_op : After (.op o k) evs q ↔ (evs = [] ∧ q = .op o k) ∨
      ∃ r s evs', evs = ⟨o, r, s⟩ :: evs' ∧ After (k r) evs' q := by
  constructor
  · intro h
    cases h with
    | refl => exact .inl ⟨rfl, rfl⟩
    | op h => exact .inr ⟨_, _, _, rfl, h⟩
  · rintro (⟨rfl, rfl⟩ | ⟨r, s, evs', rfl, h⟩)
    · exact .refl _
    · exact .op h

/-- A program that returns performs nothing. -/
@[simp] theorem runs_ret {b : α} : Runs (.ret a) evs b ↔ evs = [] ∧ a = b := by
  rw [Runs, after_ret, Prog.ret.injEq, eq_comm (a := b)]

/-- A program performs its operation and goes on. -/
@[simp] theorem runs_op :
    Runs (.op o k) evs a ↔ ∃ r s evs', evs = ⟨o, r, s⟩ :: evs' ∧ Runs (k r) evs' a := by
  simp [Runs, after_op]

/-- A program of one operation. -/
theorem runs_request {f : Resp o → α} :
    Runs (.op o fun r => .ret (f r)) evs a ↔ ∃ r s, evs = [⟨o, r, s⟩] ∧ f r = a := by
  rw [runs_op]
  constructor
  · rintro ⟨r, s, evs', rfl, hret⟩
    obtain ⟨rfl, ha⟩ := runs_ret.mp hret
    exact ⟨r, s, rfl, ha⟩
  · rintro ⟨r, s, rfl, ha⟩
    exact ⟨r, s, [], rfl, runs_ret.mpr ⟨rfl, ha⟩⟩

/-- A program goes on from where it is. -/
theorem After.trans {r : Prog Resp α} {evs' : List (Event Resp S)} (h : After p evs q)
    (h' : After q evs' r) : After p (evs ++ evs') r := by
  induction h with
  | refl => exact h'
  | op _ ih => exact .op (ih h')

/-- A program was at each operation of its history. -/
theorem After.split {h1 h2 : List (Event Resp S)} (h : After p (h1 ++ e :: h2) q) :
    ∃ k, After p h1 (.op e.op k) ∧ After (k e.resp) h2 q := by
  induction h1 generalizing p with
  | nil =>
    cases h with
    | op h => exact ⟨_, .refl _, h⟩
  | cons e' h1 ih =>
    cases h with
    | op h =>
      obtain ⟨k, hk, hk'⟩ := ih h
      exact ⟨k, .op hk, hk'⟩

/-- **Inversion of a sequence**: the trace ends at an operation of the first program, or the
first program has returned. -/
theorem after_bind {q : Prog Resp β} (h : After (p >>= f) evs q) :
    (∃ o k, After p evs (.op o k) ∧ q = .op o fun r => k r >>= f) ∨
      ∃ e1 e2 a, evs = e1 ++ e2 ∧ Runs p e1 a ∧ After (f a) e2 q := by
  induction p generalizing evs with
  | ret a => exact .inr ⟨[], evs, a, rfl, .refl _, h⟩
  | op o k ih =>
    rcases after_op.mp h with ⟨rfl, rfl⟩ | ⟨r, s, evs', rfl, hk⟩
    · exact .inl ⟨o, k, .refl _, rfl⟩
    · rcases ih r hk with ⟨o', k', hp', rfl⟩ | ⟨e1, e2, a, rfl, hp, hf⟩
      · exact .inl ⟨o', k', .op hp', rfl⟩
      · exact .inr ⟨⟨o, r, s⟩ :: e1, e2, a, rfl, .op hp, hf⟩

/-- Programs in a row perform their parts in a row. -/
theorem runs_bind {b : β} :
    Runs (p >>= f) evs b ↔ ∃ e1 e2 a, evs = e1 ++ e2 ∧ Runs p e1 a ∧ Runs (f a) e2 b := by
  constructor
  · intro h
    rcases after_bind h with ⟨o, k, -, hq⟩ | h
    · cases hq
    · exact h
  · rintro ⟨e1, e2, a, rfl, hp, hf⟩
    induction e1 generalizing p with
    | nil =>
      obtain rfl : p = .ret a := by
        cases hp
        rfl
      exact hf
    | cons e e1 ih =>
      cases hp with
      | op hp => exact .op (ih hp)

/-! ### Operations a program never performs -/

/-- The program performs no `bad` operation, whatever it is answered. -/
def Avoids (bad : Op → Prop) : Prog Resp α → Prop
  | .ret _ => True
  | .op o k => ¬ bad o ∧ ∀ r, Avoids bad (k r)

variable {bad : Op → Prop}

/-- A program avoids what its parts avoid. -/
@[simp] theorem avoids_op : Avoids bad (.op o k) ↔ ¬ bad o ∧ ∀ r, Avoids bad (k r) := Iff.rfl

/-- Programs in a row avoid what both avoid. -/
theorem Avoids.bind (hp : Avoids bad p) (hf : ∀ a, Avoids bad (f a)) : Avoids bad (p >>= f) := by
  induction p with
  | ret a => exact hf a
  | op o k ih => exact ⟨hp.1, fun r => ih r (hp.2 r)⟩

/-- None of the events is `bad`, and neither is what is left. -/
theorem Avoids.after (hp : Avoids bad p) (h : After p evs q) :
    (∀ e ∈ evs, ¬ bad e.op) ∧ Avoids bad q := by
  induction h with
  | refl => exact ⟨by simp, hp⟩
  | op _ ih => exact ⟨forall_mem_cons.mpr ⟨hp.1, (ih (hp.2 _)).1⟩, (ih (hp.2 _)).2⟩

/-- When the next operation is `bad`, a first part that avoids it has returned. -/
theorem Avoids.after_bind (hp : Avoids bad p) (ho : bad o) {k : Resp o → Prog Resp β}
    (h : After (p >>= f) evs (.op o k)) :
    ∃ e1 e2 a, evs = e1 ++ e2 ∧ Runs p e1 a ∧ After (f a) e2 (.op o k) := by
  rcases Interleave.after_bind h with ⟨o', k', hp', hq⟩ | h
  · cases hq
    exact absurd ho (hp.after hp').2.1
  · exact h

/-! ### Programs that may fail -/

section Fallible

variable {ε : Type} {x : ExceptT ε (Prog Resp) α} {f : α → ExceptT ε (Prog Resp) β}
  {evs : List (Event Resp S)} {err : ε} {bad' : Op → Prop} {γ : Type}

/-- A success of two parts is one of each. -/
theorem runs_bind_ok {b : β} (h : Runs (x >>= f).run evs (.ok b)) :
    ∃ e1 e2 a, evs = e1 ++ e2 ∧ Runs x.run e1 (.ok a) ∧ Runs (f a).run e2 (.ok b) := by
  rw [ExceptT.run_bind, runs_bind] at h
  obtain ⟨e1, e2, a | a, rfl, hx, hf⟩ := h
  · simp at hf
  · exact ⟨e1, e2, a, rfl, hx, hf⟩

/-- A failure is one of the first part or the second. -/
theorem runs_bind_error (h : Runs (x >>= f).run evs (.error err)) : Runs x.run evs (.error err) ∨
      ∃ e1 e2 a, evs = e1 ++ e2 ∧ Runs x.run e1 (.ok a) ∧ Runs (f a).run e2 (.error err) := by
  rw [ExceptT.run_bind, runs_bind] at h
  obtain ⟨e1, e2, a | a, rfl, hx, hf⟩ := h
  · simp only [Prog.pure_eq, runs_ret, Except.error.injEq] at hf
    obtain ⟨rfl, rfl⟩ := hf
    exact .inl (by simpa using hx)
  · exact .inr ⟨e1, e2, a, rfl, hx, hf⟩

/-- The next operation is one of the first part, or the first part has succeeded. -/
theorem after_bind_op {o : Op} {k : Resp o → Prog Resp (Except ε β)}
    (h : After (x >>= f).run evs (.op o k)) :
    (∃ k', After x.run evs (.op o k')) ∨
      ∃ e1 e2 a, evs = e1 ++ e2 ∧ Runs x.run e1 (.ok a) ∧ After (f a).run e2 (.op o k) := by
  rw [ExceptT.run_bind] at h
  rcases after_bind h with ⟨o', k', hx, hq⟩ | ⟨e1, e2, a | a, rfl, hx, hf⟩
  · cases hq
    exact .inl ⟨k', hx⟩
  · cases (after_ret.mp hf).2
  · exact .inr ⟨e1, e2, a, rfl, hx, hf⟩

/-- Fallible programs in a row. -/
theorem Avoids.bind_run (hx : Avoids bad x.run) (hf : ∀ a, Avoids bad (f a).run) :
    Avoids bad (x >>= f).run := by
  rw [ExceptT.run_bind]
  refine hx.bind ?_
  rintro (err | a)
  · exact trivial
  · exact hf a

/-- A fallible program on either side. -/
theorem Avoids.ite_run {p : Prop} [Decidable p] {y : ExceptT ε (Prog Resp) α}
    (hx : Avoids bad x.run) (hy : Avoids bad y.run) : Avoids bad (if p then x else y).run := by
  split
  · exact hx
  · exact hy

/-- The program has succeeded, or its next operation is `bad`. -/
def Late (bad : Op → Prop) : Prog Resp (Except ε α) → Prop
  | .ret (.ok _) => True
  | .ret (.error _) => False
  | .op o _ => bad o

/-- Late for some operations, late for more. -/
theorem Late.mono (himp : ∀ o, bad o → bad' o) {q : Prog Resp (Except ε α)} (hq : Late bad q) :
    Late bad' q := by
  cases q with
  | ret r => cases r <;> exact hq
  | op o k => exact himp o hq

/-- **A late program is past every part that avoids `bad` operations**: that part has
succeeded. -/
theorem Avoids.after_bind_late (hx : Avoids bad x.run) {q : Prog Resp (Except ε β)}
    (hq : Late bad q) (h : After (x >>= f).run evs q) :
    ∃ e1 e2 a, evs = e1 ++ e2 ∧ Runs x.run e1 (.ok a) ∧ After (f a).run e2 q := by
  cases q with
  | ret r =>
    cases r with
    | error err => exact absurd hq id
    | ok b => exact runs_bind_ok h
  | op o k =>
    rw [ExceptT.run_bind] at h
    obtain ⟨e1, e2, a | a, rfl, hx', hf⟩ := hx.after_bind hq h
    · cases (after_ret.mp hf).2
    · exact ⟨e1, e2, a, rfl, hx', hf⟩

/-- To avoid some operations is to avoid fewer. -/
theorem Avoids.mono (himp : ∀ o, bad' o → bad o) {p : Prog Resp α} (hp : Avoids bad p) :
    Avoids bad' p := by
  induction p with
  | ret a => exact trivial
  | op o k ih => exact ⟨fun hb => hp.1 (himp o hb), fun r => ih r (hp.2 r)⟩

/-! ### Loops -/

/-- Run a program on every element. -/
def forEach {γ : Type} (f : γ → ExceptT ε (Prog Resp) Unit) :
    List γ → ExceptT ε (Prog Resp) Unit
  | [] => pure ()
  | x :: xs => f x >>= fun _ => forEach f xs

/-- Run a program on every element and collect the results. -/
def collect {γ : Type} (f : γ → ExceptT ε (Prog Resp) β) :
    List γ → ExceptT ε (Prog Resp) (List β)
  | [] => pure []
  | x :: xs => f x >>= fun b => collect f xs >>= fun bs => pure (b :: bs)

/-- A loop avoids what its body avoids. -/
theorem Avoids.forEach {f : γ → ExceptT ε (Prog Resp) Unit} (hf : ∀ x, Avoids bad (f x).run)
    (xs : List γ) : Avoids bad (forEach f xs).run := by
  induction xs with
  | nil => exact trivial
  | cons x xs ih => exact (hf x).bind_run fun _ => ih

/-- So does a loop that collects. -/
theorem Avoids.collect {f : γ → ExceptT ε (Prog Resp) β} (hf : ∀ x, Avoids bad (f x).run)
    (xs : List γ) : Avoids bad (collect f xs).run := by
  induction xs with
  | nil => exact trivial
  | cons x xs ih => exact (hf x).bind_run fun _ => ih.bind_run fun _ => trivial

/-- A loop that succeeds has succeeded on every element. -/
theorem mem_of_runs_forEach {f : γ → ExceptT ε (Prog Resp) Unit} {xs : List γ}
    (h : Runs (forEach f xs).run evs (.ok ())) {x : γ} (hx : x ∈ xs) :
    ∃ es, es <+ evs ∧ Runs (f x).run es (.ok ()) := by
  induction xs generalizing evs with
  | nil => exact absurd hx not_mem_nil
  | cons y ys ih =>
    obtain ⟨e1, e2, ⟨⟩, rfl, hy, hys⟩ := runs_bind_ok h
    rcases mem_cons.mp hx with rfl | hx
    · exact ⟨e1, sublist_append_left _ _, hy⟩
    · obtain ⟨es, hsub, hrun⟩ := ih hys hx
      exact ⟨es, sublist_append_of_sublist_right hsub, hrun⟩

/-- A collection that succeeds has its results in the order of the elements. -/
theorem forall₂_of_runs_collect {f : γ → ExceptT ε (Prog Resp) β} {xs : List γ} {bs : List β}
    (h : Runs (collect f xs).run evs (.ok bs)) :
    Forall₂ (fun x b => ∃ es, es <+ evs ∧ Runs (f x).run es (.ok b)) xs bs := by
  induction xs generalizing evs bs with
  | nil =>
    obtain ⟨-, hbs⟩ := runs_ret.mp h
    cases hbs
    exact .nil
  | cons y ys ih =>
    obtain ⟨e1, e2, b, rfl, hy, h'⟩ := runs_bind_ok h
    obtain ⟨e3, e4, cs, rfl, hys, hret⟩ := runs_bind_ok h'
    obtain ⟨-, hbs⟩ := runs_ret.mp hret
    cases hbs
    refine .cons ⟨e1, sublist_append_left .., hy⟩ ((ih hys).imp ?_)
    rintro x b ⟨es, hsub, hx⟩
    exact ⟨es, hsub.trans ((sublist_append_left ..).trans (sublist_append_right ..)), hx⟩

/-- A collection that is about to perform an operation performs it for an element. -/
theorem after_collect {f : γ → ExceptT ε (Prog Resp) β} {xs : List γ} {o : Op}
    {k : Resp o → Prog Resp (Except ε (List β))} (h : After (collect f xs).run evs (.op o k)) :
    ∃ x ∈ xs, ∃ e1 e2 k', evs = e1 ++ e2 ∧ After (f x).run e2 (.op o k') := by
  induction xs generalizing evs k with
  | nil => cases (after_ret.mp h).2
  | cons x xs ih =>
    rcases after_bind_op h with ⟨k', hx⟩ | ⟨e1, e2, b, rfl, -, hrest⟩
    · exact ⟨x, mem_cons_self, [], evs, k', rfl, hx⟩
    · rcases after_bind_op hrest with ⟨k', hxs⟩ | ⟨e3, e4, bs, rfl, -, hret⟩
      · obtain ⟨y, hy, e3, e4, k'', rfl, hafter⟩ := ih hxs
        exact ⟨y, mem_cons_of_mem _ hy, e1 ++ e3, e4, k'', by simp, hafter⟩
      · cases (after_ret.mp hret).2

/-! ### The errors a program fails with -/

/-- Whatever it is answered, the program **fails only with** errors that satisfy `P`. -/
def FailsWith (P : ε → Prop) : Prog Resp (Except ε α) → Prop
  | .ret (.ok _) => True
  | .ret (.error e) => P e
  | .op _ k => ∀ r, FailsWith P (k r)

variable {P : ε → Prop}

/-- A failure is one of the errors. -/
theorem FailsWith.error {p : Prog Resp (Except ε α)} (hp : FailsWith P p)
    (h : Runs p evs (.error err)) : P err := by
  induction p generalizing evs with
  | ret r =>
    obtain ⟨-, rfl⟩ := runs_ret.mp h
    exact hp
  | op o k ih =>
    obtain ⟨r, s, evs', rfl, hk⟩ := runs_op.mp h
    exact ih r (hp r) hk

/-- The errors of two parts. -/
theorem FailsWith.bind_run (hx : FailsWith P x.run) (hf : ∀ a, FailsWith P (f a).run) :
    FailsWith P (x >>= f).run := by
  rw [ExceptT.run_bind]
  generalize x.run = p at hx
  induction p with
  | ret r =>
    cases r with
    | error err => exact hx
    | ok a => exact hf a
  | op o k ih => exact fun r => ih r (hx r)

/-- A sequence that fails with another error has failed in its second part. -/
theorem FailsWith.of_bind_error (hx : FailsWith P x.run) (herr : ¬ P err)
    (h : Runs (x >>= f).run evs (.error err)) :
    ∃ e1 e2 a, evs = e1 ++ e2 ∧ Runs x.run e1 (.ok a) ∧ Runs (f a).run e2 (.error err) := by
  rcases runs_bind_error h with h | h
  · exact absurd (hx.error h) herr
  · exact h

/-- The errors of a loop. -/
theorem FailsWith.forEach {f : γ → ExceptT ε (Prog Resp) Unit} (hf : ∀ x, FailsWith P (f x).run)
    (xs : List γ) : FailsWith P (forEach f xs).run := by
  induction xs with
  | nil => exact trivial
  | cons x xs ih => exact (hf x).bind_run fun _ => ih

/-- The errors of a loop that collects. -/
theorem FailsWith.collect {f : γ → ExceptT ε (Prog Resp) β} (hf : ∀ x, FailsWith P (f x).run)
    (xs : List γ) : FailsWith P (collect f xs).run := by
  induction xs with
  | nil => exact trivial
  | cons x xs ih => exact (hf x).bind_run fun _ => ih.bind_run fun _ => trivial

end Fallible

/-! ### Programs with a settled result -/

/-- The result of the program when the function gives every answer. -/
def Prog.eval (answer : (o : Op) → Resp o) : Prog Resp α → α
  | ret a => a
  | op o k => (k (answer o)).eval answer

/-- Programs in a row under fixed answers. -/
theorem Prog.eval_bind (answer : (o : Op) → Resp o) (p : Prog Resp α) (f : α → Prog Resp β) :
    (p >>= f).eval answer = (f (p.eval answer)).eval answer := by
  induction p with
  | ret a => rfl
  | op o k ih => exact ih (answer o)

/-- Programs in a row can be grouped. -/
theorem Prog.bind_assoc {γ : Type} (p : Prog Resp α) (f : α → Prog Resp β)
    (g : β → Prog Resp γ) : p >>= f >>= g = p >>= fun a => f a >>= g := by
  induction p with
  | ret a => rfl
  | op o k ih =>
    simp only [Prog.op_bind]
    exact congrArg _ (funext ih)

/-- The program **yields** the value, whatever it is answered, as long as the answers are
good. -/
def Yields (good : (o : Op) → Resp o → Prop) : Prog Resp α → α → Prop
  | .ret b, a => b = a
  | .op o k, a => ∀ r, good o r → Yields good (k r) a

/-- What good answers lead to, part by part. -/
theorem Yields.bind {good : (o : Op) → Resp o → Prop} {b : β} (hp : Yields good p a)
    (hf : Yields good (f a) b) : Yields good (p >>= f) b := by
  induction p with
  | ret a' =>
    obtain rfl : a' = a := hp
    exact hf
  | op o k ih => exact fun r hr => ih r (hp r hr)

/-! ### Traces and runs -/

/-- The history of a caller is a trace of its program, along every run. -/
theorem Reach.after (hr : Reach exec allowed c₀ c) (t : ℕ) :
    ∃ evs, (c.pool t).hist = (c₀.pool t).hist ++ evs ∧
      After (c₀.pool t).prog evs (c.pool t).prog := by
  refine hr.invariant (fun c => ∃ evs, (c.pool t).hist = (c₀.pool t).hist ++ evs ∧
    After (c₀.pool t).prog evs (c.pool t).prog) ⟨[], by simp, .refl _⟩ ?_
  rintro c c' u ch - ⟨evs, hh, ha⟩ - hs
  obtain ⟨o, k, r, hp, he, hpool⟩ := step_eq_some hs
  by_cases hu : t = u
  · subst hu
    rw [hp] at ha
    refine ⟨evs ++ [⟨o, r, c.shared⟩], ?_, ?_⟩
    · rw [hpool, update_self, hh, append_assoc]
    · rw [hpool, update_self]
      exact ha.trans (.op (.refl _))
  · rw [hpool, update_of_ne hu]
    exact ⟨evs, hh, ha⟩

/-- What a caller has returned stays. -/
theorem Reach.returned (hr : Reach exec allowed c₀ c) {a : R} (h : c₀.returned t = some a) :
    c.returned t = some a := by
  obtain ⟨evs, -, ha⟩ := hr.after t
  rw [Config.returned_eq_some.mp h] at ha
  exact Config.returned_eq_some.mpr (after_ret.mp ha).2

/-- A preorder that every operation climbs is climbed by every run. -/
theorem Reach.climbs {le : S → S → Prop} (hr : Reach exec allowed c₀ c) (hrefl : ∀ s, le s s)
    (htrans : ∀ s1 s2 s3, le s1 s2 → le s2 s3 → le s1 s3)
    (hclimb : ∀ ch u (o : Op) s r s', exec ch u o s = some (r, s') → le s s') :
    le c₀.shared c.shared := by
  refine hr.invariant (fun c => le c₀.shared c.shared) (hrefl _) ?_
  rintro c c' u ch - ih - hs
  obtain ⟨o, k, r, -, he, -⟩ := step_eq_some hs
  exact htrans _ _ _ ih (hclimb _ _ _ _ _ _ he)

end Semantics

end Interleave
