import Decree.CacheTraces

/-!
# What the Config Cache Holds

The cache, the marks of empty versions and the flights that have landed hold values of versions.
What is held after an operation was held before it, or the operation has put it there; and what a
`GetConfig` has found was held, or fetched by it.

## Main results

* `exec_holds`: what an operation adds.
* `Looked.fetched_or_held`: what a `GetConfig` has found.
-/

open Interleave List

namespace Decree

variable {t : ℕ} {T : String} {v : ℤ} {values : CachedValues} {ch : Choice} {s s' : State}

/-! ### What the caches hold -/

/-- The cache, a mark of an empty version or a flight that has landed **holds** the values. -/
inductive State.Holds (s : State) (T : String) (v : ℤ) : CachedValues → Prop
  | entry {values : CachedValues} (h : ((T, v), values) ∈ s.cache.entries) : Holds s T v values
  | negative (h : (T, v) ∈ s.cache.negatives) : Holds s T v []
  | landed {f : Flight} {values : CachedValues} (hf : f ∈ s.flights) (hkey : f.key = (T, v))
      (hres : f.result = some (.ok values)) : Holds s T v values

/-- Where there are no more entries, marks and landed flights, no more is held. -/
theorem State.Holds.of_subset (h : s'.Holds T v values)
    (hentries : s'.cache.entries ⊆ s.cache.entries)
    (hnegatives : s'.cache.negatives ⊆ s.cache.negatives)
    (hflights : ∀ f ∈ s'.flights, f.result.isSome = true → f ∈ s.flights) :
    s.Holds T v values := by
  cases h with
  | entry h => exact .entry (hentries h)
  | negative h => exact .negative (hnegatives h)
  | landed hf hkey hres => exact .landed (hflights _ hf (by simp [hres])) hkey hres

/-- What the cache holds it held before, or was given. -/
theorem execCache_holds {o : CacheOp} (h : State.Holds
    { s with cache := (execCache ch o s.cache).2 } T v values) :
    s.Holds T v values ∨ Caches T v values (.cache o) := by
  have hevict : ∀ T' v', State.Holds { s with cache := s.cache.evict T' v' } T v values →
      s.Holds T v values := fun T' v' h =>
    h.of_subset filter_sublist.subset filter_sublist.subset fun f hf _ => hf
  cases o with
  | get T' v' =>
    cases ch with
    | expired => exact .inl (hevict T' v' h)
    | _ => exact .inl h
  | getNegative T' v' =>
    cases ch with
    | expired => exact .inl (hevict T' v' h)
    | _ => exact .inl h
  | set T' v' values' =>
    rw [execCache] at h
    split at h
    · exact .inl h
    · cases h with
      | entry h =>
        rcases mem_cons.mp h with heq | h
        · obtain ⟨hkey, rfl⟩ := Prod.mk.inj heq
          cases hkey
          exact .inr (.inl rfl)
        · exact .inl (.entry (mem_of_mem_filter h))
      | negative h => exact .inl (.negative h)
      | landed hf hkey hres => exact .inl (.landed hf hkey hres)
  | setNegative T' v' =>
    rw [execCache] at h
    split at h
    · exact .inl h
    · cases h with
      | entry h => exact .inl (.entry h)
      | negative h =>
        rcases mem_cons.mp h with heq | h
        · cases heq
          exact .inr (.inr (.inl ⟨rfl, rfl⟩))
        · exact .inl (.negative h)
      | landed hf hkey hres => exact .inl (.landed hf hkey hres)

/-- What a flight holds it held before, or was landed with. -/
theorem execFlight_holds {o : FlightOp} {r : o.Resp} {fs : List Flight}
    (he : o.exec t s.flights = some (r, fs)) (h : State.Holds { s with flights := fs } T v values) :
    s.Holds T v values ∨ Caches T v values (.flight o) := by
  cases o with
  | join key =>
    rw [FlightOp.exec] at he
    split at he
    · cases he
      exact .inl h
    · cases he
      refine .inl (h.of_subset (.refl _) (.refl _) fun f hf hres => ?_)
      rcases mem_cons.mp hf with rfl | hf
      · cases hres
      · exact hf
  | land key result =>
    cases he
    cases h with
    | entry h => exact .inl (.entry h)
    | negative h => exact .inl (.negative h)
    | landed hf hkey hres =>
      obtain ⟨f', hf', rfl⟩ := mem_map.mp hf
      split at hkey
      · rename_i hown
        rw [if_pos hown] at hres
        cases hres
        obtain rfl : key = (T, v) := hown.2.symm.trans hkey
        exact .inr (.inr (.inr rfl))
      · rename_i hown
        rw [if_neg hown] at hres
        exact .inl (.landed hf' hkey hres)
  | await leader key =>
    obtain ⟨r', -, hr'⟩ := Option.map_eq_some_iff.mp he
    cases hr'
    exact .inl h

/-- **What a cache holds after a step was there before, or the step has put it there.** -/
theorem exec_holds {o : Op} {r : o.Resp} (he : exec ch t o s = some (r, s'))
    (h : s'.Holds T v values) : s.Holds T v values ∨ Caches T v values o := by
  cases o with
  | publish ev =>
    cases he
    split at h <;> exact .inl (h.of_subset (.refl _) (.refl _) fun f hf _ => hf)
  | invalidate T' =>
    cases he
    split at h
    · exact .inl h
    · exact .inl (h.of_subset filter_sublist.subset filter_sublist.subset fun f hf _ => hf)
  | cache o =>
    cases he
    exact execCache_holds h
  | flight o =>
    obtain ⟨p, hp, hp'⟩ := Option.map_eq_some_iff.mp he
    cases hp'
    exact execFlight_holds hp h
  | _ =>
    have hsame := (exec_effect he).aside id
    refine .inl (h.of_subset ?_ ?_ ?_)
    · rw [hsame.cache]
      exact .refl _
    · rw [hsame.cache]
      exact .refl _
    · rw [hsame.flights]
      exact fun f hf _ => hf

/-- A hit is held. -/
theorem holds_of_get
    (h : exec ch t (.cache (.get T v)) s = some ((.ok (some values) : Except StoreErr _), s')) :
    s.Holds T v values := by
  have hget := congrArg Prod.fst (Option.some.inj h)
  cases ch with
  | fail | expired => cases hget
  | _ =>
    obtain ⟨l1, l2, hl, -⟩ := lookup_eq_some_iff.mp (Except.ok.inj hget)
    exact .entry (by simp [hl])

/-- And so is a mark. -/
theorem holds_of_getNegative
    (h : exec ch t (.cache (.getNegative T v)) s = some ((.ok true : Except StoreErr Bool), s')) :
    s.Holds T v [] := by
  have hget := congrArg Prod.fst (Option.some.inj h)
  cases ch with
  | fail | expired => cases hget
  | _ => exact .negative (of_decide_eq_true (Except.ok.inj hget))

/-- The values of a `GetConfig` were fetched by it, or held when it looked for them. -/
theorem Looked.fetched_or_held {h : Hist} (hl : Looked T v h values)
    (hexec : ∀ e ∈ h, ¬ e.op.IsRead → ∃ ch s', exec ch t e.op e.pre = some (e.resp, s')) :
    Fetched T v values h ∨ ∃ e ∈ h, e.pre.Holds T v values := by
  cases hl with
  | hit he =>
    obtain ⟨ch, s', hexec⟩ := hexec _ he id
    exact .inr ⟨_, he, holds_of_get hexec⟩
  | negative he =>
    obtain ⟨ch, s', hexec⟩ := hexec _ he id
    exact .inr ⟨_, he, holds_of_getNegative hexec⟩
  | shared he =>
    obtain ⟨ch, s', hexec⟩ := hexec _ he id
    obtain ⟨p, hp, hp'⟩ := Option.map_eq_some_iff.mp hexec
    obtain ⟨r, hr, rfl⟩ := Option.map_eq_some_iff.mp hp
    cases hp'
    obtain ⟨f, hf, hres⟩ := Option.bind_eq_some_iff.mp hr
    have hkey := find?_some hf
    rw [decide_eq_true_eq] at hkey
    exact .inr ⟨_, he, .landed (mem_of_find?_eq_some hf) hkey.2 hres⟩
  | fetched hf => exact .inl hf

/-- The values are those of the snapshot at the version, which is not ahead of the log. -/
def State.Shows (s : State) (T : String) (v : ℤ) (values : CachedValues) : Prop :=
  v ≤ (s.db.log T).length ∧ ∃ sv, s.db.boundSchema T = some sv ∧
    values = cachedValues sv.fields (fullConfigAtVersion (s.db.log T) v)

theorem Caches.fills {o : Op} (h : Caches T v values o) : o.Fills := by
  rcases h with rfl | ⟨rfl, -⟩ | rfl <;> trivial

/-- What an operation caches is determined. -/
theorem Caches.unique {T' : String} {v' : ℤ} {values' : CachedValues} {o : Op}
    (h : Caches T v values o) (h' : Caches T' v' values' o) :
    T' = T ∧ v' = v ∧ values' = values := by
  rcases h with rfl | ⟨rfl, rfl⟩ | rfl <;> rcases h' with h' | ⟨h', rfl⟩ | h' <;>
    simp_all

end Decree
