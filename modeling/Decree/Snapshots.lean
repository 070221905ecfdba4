import Decree.ConfigStores

/-!
# Three Ways to Resolve a Config in Memory

`GetConfigValueAtVersion`, `GetFullConfigAtVersion` and `GetConfigValuesSince` of the store in
memory (`internal/config/store_memory.go`) each have a loop of their own over the map of
versions, in whatever order the iteration takes. They find the same rows.

## Main results

* `snapshots_agree`: the three ways agree.
-/

open List

namespace Decree.ConfigStores

open Memory (VersionRow Store)

variable {s : Store} {T f : String} {v : ℤ} {row : ConfigValue} {o : List VersionRow}

/-- Distinct positive version numbers of a tenant, and one row at most of a field in a version. -/
structure Numbered (s : Store) : Prop where
  positive : ∀ cv ∈ s.configVersions, 0 < cv.version
  distinct : ∀ a ∈ s.configVersions, ∀ b ∈ s.configVersions,
    a.tenantID = b.tenantID → a.version = b.version → a = b
  once : ∀ cv ∈ s.configVersions, ((s.configValuesOf cv.id).map ConfigValue.fieldPath).Nodup

/-- The store with its map of versions iterated in another order. -/
abbrev iterate (s : Store) (o : List VersionRow) : Store :=
  { s with configVersions := o }

theorem mem_joined (ho : o.Perm s.configVersions) {p : ℤ × ConfigValue} :
    p ∈ joined (iterate s o) T f v ↔ ∃ cv ∈ s.configVersions, (cv.tenantID = T ∧ cv.version ≤ v) ∧
      p.2 ∈ s.configValuesOf cv.id ∧ p.2.fieldPath = f ∧ cv.version = p.1 := by
  obtain ⟨n, row⟩ := p
  simp [joined, ho.mem_iff, and_assoc]
  rfl

theorem Numbered.unique (hs : Numbered s) (ho : o.Perm s.configVersions) {p q : ℤ × ConfigValue}
    (hp : p ∈ joined (iterate s o) T f v) (hq : q ∈ joined (iterate s o) T f v) (h : p.1 = q.1) :
    p = q := by
  obtain ⟨cv, hcv, ⟨hT, -⟩, hrow, hf, hn⟩ := (mem_joined ho).mp hp
  obtain ⟨cv', hcv', ⟨hT', -⟩, hrow', hf', hn'⟩ := (mem_joined ho).mp hq
  obtain rfl := hs.distinct cv hcv cv' hcv' (hT.trans hT'.symm) (hn.trans (h.trans hn'.symm))
  exact Prod.ext h (inj_on_of_nodup_map (hs.once cv hcv) hrow hrow' (hf.trans hf'.symm))

/-- **`GetConfigValueAtVersion` finds the row of the greatest version**, in whatever order it
meets the versions. -/
theorem configValueAtVersion_eq_some (hs : Numbered s) (ho : o.Perm s.configVersions) :
    (iterate s o).configValueAtVersion T f v = some row ↔
      ∃ n, (n, row) ∈ joined s T f v ∧ ∀ p ∈ joined s T f v, p.1 ≤ n := by
  have hmem : ∀ p, p ∈ joined (iterate s o) T f v ↔ p ∈ joined s T f v := fun p =>
    (mem_joined ho).trans (mem_joined (.refl _)).symm
  rw [configValueAtVersion_eq fun cv hcv => hs.positive cv (ho.mem_iff.mp hcv), valueAtVersion,
    Option.map_eq_some_iff]
  simp only [← hmem]
  constructor
  · rintro ⟨p, hmax, rfl⟩
    exact ⟨p.1, argmax_mem hmax, fun q hq => le_of_mem_argmax hq hmax⟩
  · rintro ⟨n, hn, hmax⟩
    cases h : (joined (iterate s o) T f v).argmax Prod.fst with
    | none => exact absurd (argmax_eq_none.mp h ▸ hn) not_mem_nil
    | some p =>
      have hp := argmax_mem h
      exact ⟨p, rfl, congrArg Prod.snd (hs.unique ho hp hn
        ((hmax p hp).antisymm (le_of_mem_argmax hn h)))⟩

/-- A config as a map from the fields to their values. -/
def fieldMap (rows : List ConfigValue) (f : String) : Option (Option String) :=
  (rows.find? fun r => r.fieldPath = f).map ConfigValue.value

/-- The deltas are applied one after the other. -/
def replayed (config : String → Option (Option String)) (deltas : List ConfigValueSince) :
    String → Option (Option String) :=
  deltas.foldl (fun m d => Function.update m d.fieldPath (some d.value)) config

/-- A field has the value of its last delta, if it has one. -/
theorem replayed_eq (config : String → Option (Option String)) {deltas : List ConfigValueSince}
    (hsorted : deltas.Pairwise ConfigValueSince.Le) (f : String) :
    (replayed config deltas f = config f ∧ ∀ d ∈ deltas, d.fieldPath ≠ f) ∨
      ∃ d ∈ deltas, d.fieldPath = f ∧ replayed config deltas f = some d.value ∧
        ∀ d' ∈ deltas, d'.fieldPath = f → d'.version ≤ d.version := by
  induction deltas using reverseRecOn with
  | nil => exact .inl ⟨rfl, nofun⟩
  | append_singleton ds a ih =>
    obtain ⟨hds, -, hlast⟩ := pairwise_append.mp hsorted
    have hle : ∀ d ∈ ds, d.version ≤ a.version := by
      intro d hd
      rcases hlast d hd a (by simp) with h | h
      · exact h.le
      · exact h.1.le
    have hstep : replayed config (ds ++ [a]) =
        Function.update (replayed config ds) a.fieldPath (some a.value) := by
      simp [replayed]
    rw [hstep]
    by_cases ha : a.fieldPath = f
    · refine .inr ⟨a, by simp, ha, by rw [← ha, Function.update_self], fun d hd _ => ?_⟩
      rcases mem_append.mp hd with hd | hd
      · exact hle d hd
      · rw [mem_singleton.mp hd]
    · rw [Function.update_of_ne (Ne.symm ha)]
      rcases ih hds with ⟨hsame, hno⟩ | ⟨d, hd, hf, hval, hmax⟩
      · exact .inl ⟨hsame, by simpa [or_imp, forall_and, ha] using hno⟩
      · exact .inr ⟨d, by simp [hd], hf, hval, by simpa [or_imp, forall_and, ha] using hmax⟩

theorem mem_configValuesSince (ho : o.Perm s.configVersions) {n : ℤ} {value : Option String} :
    (∃ d ∈ (iterate s o).configValuesSince T v, d.fieldPath = f ∧ d.version = n ∧ d.value = value) ↔
    v ≤ n ∧ ∃ row : ConfigValue, row.value = value ∧ (n, row) ∈ joined s T f n := by
  simp only [Memory.Store.configValuesSince, mem_insertionSort, mem_flatMap,
    mem_filter, mem_map, ho.mem_iff, decide_eq_true_eq, mem_joined (.refl _)]
  constructor
  · rintro ⟨_, ⟨cv, ⟨hcv, hT, hv⟩, row, hrow, rfl⟩, hf, rfl, hval⟩
    exact ⟨hv, row, hval, cv, hcv, ⟨hT, le_rfl⟩, hrow, hf, rfl⟩
  · rintro ⟨hv, row, hval, cv, hcv, ⟨hT, -⟩, hrow, hf, rfl⟩
    exact ⟨_, ⟨cv, ⟨hcv, hT, hv⟩, row, hrow, rfl⟩, hf, rfl, hval⟩

/-- **The three ways agree**, whatever the orders in which the map of versions is iterated: the
row of a field is the one in the snapshot, and the deltas since a version lead from its snapshot
to the latest one. -/
theorem snapshots_agree (hs : Numbered s) {o₁ o₂ o₃ : List VersionRow}
    (h₁ : o₁.Perm s.configVersions) (h₂ : o₂.Perm s.configVersions)
    (h₃ : o₃.Perm s.configVersions) (T : String) (v : ℤ) :
    (∀ w, (∀ cv ∈ s.configVersions, cv.tenantID = T → cv.version ≤ w) →
      replayed (fieldMap ((iterate s o₁).fullConfigAtVersion T v))
        ((iterate s o₂).configValuesSince T (v + 1)) =
        fieldMap ((iterate s o₃).fullConfigAtVersion T w)) ∧
    ∀ f, found ((iterate s o₂).configValueAtVersion T f v) =
      found (((iterate s o₁).fullConfigAtVersion T v).find? fun r => r.fieldPath = f) := by
  refine ⟨fun w hw => funext fun f => ?_, fun f => ?_⟩
  · have hmem : ∀ u p, p ∈ joined s T f u ↔ p.1 ≤ u ∧ p ∈ joined s T f w := by
      intro u p
      rw [mem_joined (.refl _), mem_joined (.refl _)]
      constructor
      · rintro ⟨cv, hcv, ⟨hT, hu⟩, h⟩
        exact ⟨h.2.2 ▸ hu, cv, hcv, ⟨hT, hw cv hcv hT⟩, h⟩
      · rintro ⟨hu, cv, hcv, ⟨hT, -⟩, h⟩
        exact ⟨cv, hcv, ⟨hT, h.2.2 ▸ hu⟩, h⟩
    -- a row behind `v` has a delta
    have hdelta : ∀ p ∈ joined s T f w, v < p.1 →
        ∃ d ∈ (iterate s o₂).configValuesSince T (v + 1), d.fieldPath = f ∧ d.version = p.1 ∧
          d.value = p.2.value := fun p hp hv =>
      (mem_configValuesSince h₂).mpr ⟨hv, p.2, rfl, (hmem _ p).mpr ⟨le_rfl, hp⟩⟩
    rcases replayed_eq (fieldMap ((iterate s o₁).fullConfigAtVersion T v))
      (pairwise_insertionSort ..) f with ⟨hsame, hno⟩ | ⟨d, hd, hf, hval, hmax⟩
    · have hle : ∀ p ∈ joined s T f w, p.1 ≤ v := by
        intro p hp
        by_contra hv
        obtain ⟨d, hd, hf, -⟩ := hdelta p hp (not_le.mp hv)
        exact hno d hd hf
      have hsame' : ∀ p, p ∈ joined s T f v ↔ p ∈ joined s T f w := fun p =>
        (hmem v p).trans (and_iff_right_of_imp (hle p))
      rw [fieldMap, find?_fullConfigAtVersion] at hsame ⊢
      refine hsame.trans (congrArg (Option.map _) (Option.ext fun row => ?_))
      simp only [configValueAtVersion_eq_some hs h₁, configValueAtVersion_eq_some hs h₃, hsame']
    · obtain ⟨hn, row, hrow, hJ⟩ := (mem_configValuesSince h₂).mp ⟨d, hd, hf, rfl, rfl⟩
      have hres := (configValueAtVersion_eq_some hs h₃).mpr
        ⟨d.version, ((hmem _ _).mp hJ).2, fun p hp => ?_⟩
      · rw [fieldMap, find?_fullConfigAtVersion, hres, Option.map_some, hrow]
        exact hval
      · by_contra hlt
        obtain ⟨d', hd', hf', hn', -⟩ := hdelta p hp (by omega)
        exact hlt (hn' ▸ hmax d' hd' hf')
  · refine congrArg found (Option.ext fun row => ?_)
    rw [find?_fullConfigAtVersion, configValueAtVersion_eq_some hs h₁,
      configValueAtVersion_eq_some hs h₂]

namespace Sample

def twoVersions : Store :=
  { Decree.Sample.memory with
    configVersions := [⟨(0, 1), "t", 2, none, "x"⟩, ⟨(0, 0), "t", 1, none, "x"⟩]
    configValues := (rows ["a"]).map ((0, 0), ·) ++ (rows ["b", "a"]).map ((0, 1), ·) }

end Sample

theorem snapshots_agree_two_versions :
    replayed (fieldMap (Sample.twoVersions.fullConfigAtVersion "t" 1))
      (Sample.twoVersions.configValuesSince "t" 2) =
      fieldMap (Sample.twoVersions.fullConfigAtVersion "t" 2) :=
  (snapshots_agree (s := Sample.twoVersions) ⟨by decide, by decide, by decide⟩ (.refl _) (.refl _)
    (.refl _) "t" 1).1 2 (by decide)

end Decree.ConfigStores
