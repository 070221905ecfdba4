import Decree.Interleave

/-!
# Programs over a Part of the Operations

Where a store answers two sets of operations, a program that was written over the first set is
a program over both. What such a caller has done is, seen through the first set, a trace of
the program that was written: its traces carry over, whatever else the store answers to the
other callers in between.

## Main results

* `split_of_lefts`, `after_left`: what an embedded program has done.
* `Reach.embed`: a run is one of the larger system.
-/

open List

namespace Interleave

variable {Op₁ Op₂ : Type} {R₁ : Op₁ → Type} {R₂ : Op₂ → Type} {α β S S₁ : Type}

/-- The responses of two sets of operations. -/
abbrev Both (R₁ : Op₁ → Type) (R₂ : Op₂ → Type) : Op₁ ⊕ Op₂ → Type
  | .inl o => R₁ o
  | .inr o => R₂ o

/-- A program over the first operations, as a program over both. -/
def Prog.left : Prog R₁ α → Prog (Both R₁ R₂) α
  | .ret a => .ret a
  | .op o k => .op (.inl o) fun r => (k r).left

/-- An event as the first store sees it, which is a part of the state. -/
def Event.left (view : S → S₁) : Event (Both R₁ R₂) S → Option (Event R₁ S₁)
  | ⟨.inl o, r, s⟩ => some ⟨o, r, view s⟩
  | ⟨.inr _, _, _⟩ => none

/-- The events of the first operations. -/
def lefts (view : S → S₁) (evs : List (Event (Both R₁ R₂) S)) : List (Event R₁ S₁) :=
  evs.filterMap (Event.left view)

variable {view : S → S₁} {evs : List (Event (Both R₁ R₂) S)} {bad : Op₁ ⊕ Op₂ → Prop} {f : α → β}

theorem Event.left_eq_some {e : Event (Both R₁ R₂) S} {e' : Event R₁ S₁}
    (h : e.left view = some e') : ∃ s, e = ⟨.inl e'.op, e'.resp, s⟩ ∧ view s = e'.pre := by
  obtain ⟨o | o, r, s⟩ := e
  · cases h
    exact ⟨s, rfl, rfl⟩
  · cases h

@[simp] theorem lefts_append {evs' : List (Event (Both R₁ R₂) S)} :
    lefts view (evs ++ evs') = lefts view evs ++ lefts view evs' :=
  filterMap_append

/-- **An event of the first operations** was an event of the caller, at the same place. -/
theorem split_of_lefts {h1 h2 : List (Event R₁ S₁)} {e : Event R₁ S₁}
    (h : lefts view evs = h1 ++ e :: h2) :
    ∃ g1 s g2, evs = g1 ++ ⟨.inl e.op, e.resp, s⟩ :: g2 ∧ view s = e.pre ∧ lefts view g1 = h1 := by
  obtain ⟨g1, g2, rfl, hg1, hg2⟩ := filterMap_eq_append_iff.mp h
  obtain ⟨k1, e', k2, rfl, hk1, he', -⟩ := filterMap_eq_cons_iff.mp hg2
  obtain ⟨s, rfl, hs⟩ := Event.left_eq_some he'
  refine ⟨g1 ++ k1, s, k2, by rw [append_assoc], hs, ?_⟩
  rw [lefts, filterMap_append, hg1, filterMap_eq_nil_iff.mpr hk1, append_nil]

/-- **What an embedded program has done** is a trace of the program. -/
theorem after_left (view : S → S₁) {p : Prog R₁ α} {q : Prog (Both R₁ R₂) α}
    (h : After p.left evs q) : ∃ q', q = q'.left ∧ After p (lefts view evs) q' := by
  induction p generalizing evs with
  | ret a =>
    obtain ⟨rfl, rfl⟩ := after_ret.mp h
    exact ⟨.ret a, rfl, .refl _⟩
  | op o k ih =>
    rcases after_op.mp h with ⟨rfl, rfl⟩ | ⟨r, s, evs', rfl, hk⟩
    · exact ⟨.op o k, rfl, .refl _⟩
    · obtain ⟨q', rfl, hq'⟩ := ih r hk
      exact ⟨q', rfl, .op hq'⟩

/-- Embedding adds no operations. -/
theorem Avoids.left {p : Prog R₁ α} (hp : Avoids (fun o => bad (.inl o)) p) :
    Avoids bad (p.left : Prog (Both R₁ R₂) α) := by
  induction p with
  | ret a => exact trivial
  | op o k ih => exact ⟨hp.1, fun r => ih r (hp.2 r)⟩

theorem avoids_left (hbad : ∀ o, ¬ bad (.inl o)) (p : Prog R₁ α) :
    Avoids bad (p.left : Prog (Both R₁ R₂) α) := by
  induction p with
  | ret a => exact trivial
  | op o k ih => exact ⟨hbad o, ih⟩

/-- A mapped program is a mapped remainder. -/
theorem after_map {Op : Type} {R : Op → Type} {p : Prog R α} {q : Prog R β} {evs : List (Event R S)}
    (h : After (p >>= fun a => .ret (f a)) evs q) :
    ∃ q', q = (q' >>= fun a => .ret (f a)) ∧ After p evs q' := by
  rcases after_bind h with ⟨o, k, hp, rfl⟩ | ⟨e1, e2, a, rfl, hp, hf⟩
  · exact ⟨.op o k, rfl, hp⟩
  · obtain ⟨rfl, rfl⟩ := after_ret.mp hf
    rw [append_nil]
    exact ⟨.ret a, rfl, hp⟩

theorem op_of_map {Op : Type} {R : Op → Type} {p : Prog R α} {o : Op} {k : R o → Prog R β}
    (h : (p >>= fun a => .ret (f a)) = .op o k) : ∃ k', p = .op o k' := by
  cases p with
  | ret a => cases h
  | op o' k' =>
    cases h
    exact ⟨k', rfl⟩

/-- And it is at the same operation. -/
theorem after_map_op {Op : Type} {R : Op → Type} {p : Prog R α} {o : Op} {k : R o → Prog R β}
    {evs : List (Event R S)} (h : After (p >>= fun a => .ret (f a)) evs (.op o k)) :
    ∃ k', After p evs (.op o k') := by
  obtain ⟨q, hq, hp⟩ := after_map h
  obtain ⟨k', rfl⟩ := op_of_map hq.symm
  exact ⟨k', hp⟩

/-- An embedded program that is about to perform an operation is the program at that
operation. -/
theorem op_of_left {p : Prog R₁ α} {o : Op₁} {k : R₁ o → Prog (Both R₁ R₂) α}
    (h : p.left = .op (.inl o) k) : ∃ k', p = .op o k' := by
  cases p with
  | ret a => cases h
  | op o' k' =>
    obtain ⟨ho, -⟩ := Prog.op.inj h
    cases ho
    exact ⟨k', rfl⟩

/-! ### Systems of embedded programs -/

/-- The callers of a system over the first operations, **within one over both**. -/
structure Embedded (view : S → S₁) (f : α → β) (c : Config R₁ S₁ α)
    (d : Config (Both R₁ R₂) S β) : Prop where
  shared : view d.shared = c.shared
  prog : ∀ t, (d.pool t).prog = ((c.pool t).prog.left >>= fun a => .ret (f a))
  hist : ∀ t, lefts view (d.pool t).hist = (c.pool t).hist

/-- What a caller has returned it has returned in the larger system. -/
theorem Embedded.returned {f : α → β} {c : Config R₁ S₁ α} {d : Config (Both R₁ R₂) S β}
    (hc : Embedded view f c d) {t : ℕ} {a : α} (hret : c.returned t = some a) :
    d.returned t = some (f a) := by
  rw [Config.returned_eq_some] at hret ⊢
  rw [hc.prog, hret]
  rfl

variable {χ χ₁ : Type} {exec₁ : χ₁ → ℕ → (o : Op₁) → S₁ → Option (R₁ o × S₁)}
  {exec : χ → ℕ → (o : Op₁ ⊕ Op₂) → S → Option (Both R₁ R₂ o × S)}
  {allowed₁ : Config R₁ S₁ α → ℕ → χ₁ → Prop} {allowed : Config (Both R₁ R₂) S β → ℕ → χ → Prop}

/-- **A run is one of the larger system**, in which the first operations are answered alike. -/
theorem Reach.embed (lift : χ₁ → χ)
    (hexec : ∀ {ch t o r s s₁}, exec₁ ch t o (view s) = some (r, s₁) →
      ∃ s', exec (lift ch) t (.inl o) s = some (r, s') ∧ view s' = s₁)
    (hallowed : ∀ {c d t ch}, Embedded view f c d → allowed₁ c t ch → allowed d t (lift ch))
    {c₀ c : Config R₁ S₁ α} (hr : Reach exec₁ allowed₁ c₀ c) {d₀ : Config (Both R₁ R₂) S β}
    (h₀ : Embedded view f c₀ d₀) : ∃ d, Reach exec allowed d₀ d ∧ Embedded view f c d := by
  induction hr with
  | refl => exact ⟨d₀, .refl d₀, h₀⟩
  | @tail c c' t ch _ ha hs ih =>
    obtain ⟨d, hd, hc⟩ := ih
    obtain ⟨o, k, r, hp, he, hpool⟩ := step_eq_some hs
    rw [← hc.shared] at he
    obtain ⟨s', he', hs'⟩ := hexec he
    have hprog := hc.prog t
    rw [hp] at hprog
    have hstep : step exec d t (lift ch) = some ⟨s', Function.update d.pool t
        ⟨(k r).left >>= fun a => .ret (f a), (d.pool t).hist ++ [⟨.inl o, r, d.shared⟩]⟩⟩ := by
      rw [step]
      cases hd : d.pool t with
      | mk p h =>
        obtain rfl : p = _ := (congrArg Thread.prog hd).symm.trans hprog
        simp only [Prog.left, bind, Prog.bind, he']
    refine ⟨_, hd.tail (hallowed hc ha) hstep, hs', fun u => ?_, fun u => ?_⟩
    · by_cases hu : u = t
      · subst hu
        simp [hpool]
      · simp [hpool, hu, hc.prog]
    · by_cases hu : u = t
      · subst hu
        have hist := hc.hist u
        rw [lefts] at hist
        simp [hpool, hist, hc.shared, lefts, Event.left]
      · simp [hpool, hu, hc.hist]

end Interleave
