import Decree.Program
import Decree.Transactions

/-!
# Logs of Config Versions

The log of a tenant and the snapshots resolved from it, as functions of the log alone. The versions
of a log are numbered in the order in which they were committed (`Dense`). Numbers are 32-bit: the
one after `2 ^ 31 - 1` is `-2 ^ 31`, and after it none is free. The **snapshot** at a version gives
every path its value and its checksum, if it has a row at all.

## Main results

* `Dense.next_free`: the free number is the next one.
* `configValueAtVersion_append`: what a new version changes.
* `Dense.fullConfigAtVersion_stable`: snapshots are stable.
-/

open List

namespace Decree

/-! ### Dense logs -/

/-- The versions of the log are numbered one, two, three, in 32 bits. -/
structure Dense (L : List ConfigVersion) : Prop where
  numbers : versionNumbers L = (List.range L.length).map fun i : ℕ => wrap32 (i + 1)
  bound : L.length ≤ 2 ^ 31

variable {L L₁ : List ConfigVersion} {V : ConfigVersion} {n : ℤ} {M : List ConfigVersion}

/-- The empty log is dense. -/
theorem dense_nil : Dense [] := ⟨rfl, by simp⟩

/-- The next number keeps a log dense. -/
theorem Dense.append (h : Dense L) (hlen : L.length < 2 ^ 31)
    (hV : V.version = wrap32 (L.length + 1)) : Dense (L ++ [V]) := by
  refine ⟨?_, by rwa [length_append, length_singleton]⟩
  rw [length_append, length_singleton, range_succ, map_append, ← h.numbers]
  simp [hV]

/-- The last number is the length. -/
theorem Dense.last_number (h : Dense (L ++ [V])) : V.version = wrap32 (L.length + 1) := by
  have hlast := h.numbers
  rw [versionNumbers, map_append, length_append, length_singleton, range_succ, map_append] at hlast
  simpa using (append_inj' hlast (by simp)).2

/-- The latest version of the log, as the callers read it. -/
abbrev LatestRead (L : List ConfigVersion) (latest : ℤ) : Prop :=
  versionOrZero (found (latestConfigVersion L)) = .ok latest

section

variable (h : Dense L)

include h

/-- A beginning of a dense log is dense. -/
theorem Dense.of_prefix (hpre : L₁ <+: L) : Dense L₁ := by
  refine ⟨?_, hpre.length_le.trans h.bound⟩
  calc versionNumbers L₁ = (versionNumbers L).take L₁.length := by
        rw [← map_take, ← prefix_iff_eq_take.mp hpre]
    _ = (range L₁.length).map fun i : ℕ => wrap32 (i + 1) := by
        rw [h.numbers, ← map_take, take_range, Nat.min_eq_left hpre.length_le]

/-- The numbers are those of the places. -/
theorem Dense.mem_numbers : n ∈ versionNumbers L ↔ ∃ i : ℕ, i < L.length ∧ wrap32 (i + 1) = n := by
  rw [h.numbers]
  simp

/-- The latest number, up to the greatest `int32`. -/
theorem Dense.latest {latest : ℤ}
    (hl : versionOrZero (found (latestConfigVersion L)) = .ok latest) :
    latest = min (L.length : ℤ) (2 ^ 31 - 1) := by
  have hb := h.bound
  cases hm : latestConfigVersion L with
  | none =>
    obtain rfl : L = [] := by simpa [latestConfigVersion] using hm
    rw [hm] at hl
    exact (Except.ok.inj hl).symm
  | some m =>
    rw [hm] at hl
    obtain rfl : m = latest := Except.ok.inj hl
    obtain ⟨hmem, hmax⟩ := max?_eq_some_iff.mp hm
    obtain ⟨i, hi, rfl⟩ := h.mem_numbers.mp hmem
    -- the greatest number is reached by the last version that has not wrapped
    have hlast := hmax (wrap32 ((min L.length (2 ^ 31 - 1) - 1 : ℕ) + 1))
      (h.mem_numbers.mpr ⟨_, by omega, rfl⟩)
    simp only [wrap32] at hlast ⊢
    omega

/-- **The free number is the next one**: a write that takes the number after the latest one it
read, and finds it free, has read the whole log. -/
theorem Dense.next_free (hpre : L₁ <+: L) {latest : ℤ} (hl : LatestRead L₁ latest)
    (hfree : wrap32 (latest + 1) ∉ versionNumbers L) :
    L₁ = L ∧ latest = L.length ∧ L.length < 2 ^ 31 := by
  have hlat := (h.of_prefix hpre).latest hl
  have hle := hpre.length_le
  have hb := h.bound
  have hlen : L₁.length = L.length ∧ L.length < 2 ^ 31 := by
    by_contra hne
    refine hfree (h.mem_numbers.mpr ⟨min L₁.length (2 ^ 31 - 1), by omega, ?_⟩)
    rw [hlat]
    congr 2
    omega
  exact ⟨hpre.eq_of_length hlen.1, by omega, hlen.2⟩

/-- The numbers differ. -/
theorem Dense.nodup : (versionNumbers L).Nodup := by
  rw [h.numbers]
  refine .map_on (fun i hi j hj hij => ?_) nodup_range
  have hb := h.bound
  have := mem_range.mp hi
  have := mem_range.mp hj
  simp only [wrap32] at hij
  omega

/-- The numbers grow while they do not wrap. -/
theorem Dense.numbered : DeltaLog.Numbered ConfigVersion.version L := by
  intro V hV W hW hVW
  exact inj_on_of_nodup_map h.nodup hV hW hVW

variable (hlen : L.length < 2 ^ 31)

include hlen

/-- The latest number is the length. -/
theorem Dense.latest_short {latest : ℤ} (hl : LatestRead L latest) : latest = L.length := by
  have hlatest := h.latest hl
  omega

/-- The latest number of a log, or zero. -/
theorem Dense.latest_getD : (latestConfigVersion L).getD 0 = L.length := by
  refine h.latest_short hlen ?_
  rw [LatestRead]
  cases latestConfigVersion L <;> rfl

/-- The numbers are one, two and so on. -/
theorem Dense.numbers_of_lt :
    versionNumbers L = (range L.length).map fun i : ℕ => (i : ℤ) + 1 := by
  rw [h.numbers]
  refine map_congr_left fun i hi => wrap32_of_lt ?_ ?_
  · omega
  · have := mem_range.mp hi
    omega

/-- A number is at most the length. -/
theorem Dense.le_length_of_mem (hn : n ∈ versionNumbers L) : n ≤ L.length := by
  rw [h.numbers_of_lt hlen, mem_map] at hn
  obtain ⟨i, hi, rfl⟩ := hn
  have := mem_range.mp hi
  omega

/-- Every number up to the length is there. -/
theorem Dense.mem_of_le (hn : 1 ≤ n) (hle : n ≤ L.length) : n ∈ versionNumbers L := by
  rw [h.numbers_of_lt hlen, mem_map]
  exact ⟨(n - 1).toNat, mem_range.mpr (by omega), by omega⟩

/-- A number is positive. -/
theorem Dense.pos_of_mem (hn : n ∈ versionNumbers L) : 1 ≤ n := by
  rw [h.numbers_of_lt hlen, mem_map] at hn
  obtain ⟨i, -, rfl⟩ := hn
  omega

end

/-- A positive number that is appended is greater than the others. -/
theorem Dense.lt_of_pos (h : Dense (L ++ [V])) (hpos : 0 < V.version) (hn : n ∈ versionNumbers L) :
    n < V.version := by
  obtain ⟨i, hi, rfl⟩ := (h.of_prefix (prefix_append L [V])).mem_numbers.mp hn
  have hlast := h.last_number
  have hb := h.bound
  rw [length_append, length_singleton] at hb
  simp only [wrap32] at hlast ⊢
  omega

/-- What is appended has greater numbers, below the overflow. -/
theorem Dense.lt_of_mem_append (h : Dense (L ++ M)) (hlen : (L ++ M).length < 2 ^ 31) (hV : V ∈ M) :
    (L.length : ℤ) < V.version := by
  obtain ⟨i, hi, rfl⟩ := mem_iff_getElem.mp hV
  have hnum : (versionNumbers (L ++ M))[L.length + i]? = some M[i].version := by
    simp [hi]
  rw [h.numbers_of_lt hlen] at hnum
  rw [getElem?_map, getElem?_range (by simp [hi])] at hnum
  have hval : ((L.length + i : ℕ) : ℤ) + 1 = M[i].version := Option.some.inj hnum
  omega

/-! ### Resolved snapshots -/

variable {v : ℤ} {f : String} {row : ConfigValue}

/-- The row of a path has that path. -/
theorem ConfigVersion.row_path (h : V.row f = some row) : row.fieldPath = f := by
  simpa using find?_some h

/-- A path without a row. -/
theorem ConfigVersion.row_eq_none : V.row f = none ↔ f ∉ V.values.map ConfigValue.fieldPath := by
  simp [ConfigVersion.row, find?_eq_none]

/-- A row is found at its path. -/
theorem ConfigVersion.row_eq_some_iff_mem : V.row row.fieldPath = some row ↔ row ∈ V.values := by
  refine ⟨mem_of_find?_eq_some, fun hmem => ?_⟩
  obtain ⟨row', hrow'⟩ : ∃ row', V.row row.fieldPath = some row' :=
    Option.isSome_iff_exists.mp (find?_isSome.mpr ⟨row, hmem, by simp⟩)
  rw [hrow', inj_on_of_nodup_map V.nodup (mem_of_find?_eq_some hrow') hmem
    (ConfigVersion.row_path hrow')]

/-- The value at a path has that path. -/
theorem configValueAtVersion_path (h : configValueAtVersion L v f = some row) :
    row.fieldPath = f := by
  obtain ⟨V, -, -, hV⟩ := DeltaLog.exists_of_rowAt_eq_some h
  exact ConfigVersion.row_path hV

@[simp] theorem configValueAtVersion_nil (v : ℤ) (f : String) :
    configValueAtVersion [] v f = none := rfl

/-- The paths of a snapshot are those that have a resolved row. -/
theorem mem_pathsAtVersion :
    f ∈ pathsAtVersion L v ↔ (configValueAtVersion L v f).isSome = true := by
  rw [Option.isSome_iff_ne_none, ne_eq, configValueAtVersion, DeltaLog.rowAt_eq_none,
    pathsAtVersion, (perm_insertionSort _ _).mem_iff, mem_dedup, mem_flatMap]
  constructor
  · rintro ⟨V, hV, hf⟩ hnone
    rw [mem_filter, decide_eq_true_eq] at hV
    exact ConfigVersion.row_eq_none.mp (hnone V hV.1 hV.2) hf
  · intro hne
    simp only [not_forall] at hne
    obtain ⟨V, hV, hle, hrow⟩ := hne
    refine ⟨V, mem_filter.mpr ⟨hV, by simpa using hle⟩, ?_⟩
    by_contra hf
    exact hrow (ConfigVersion.row_eq_none.mpr hf)

/-- A row of the snapshot is the value at its path. -/
theorem mem_fullConfigAtVersion :
    row ∈ fullConfigAtVersion L v ↔ configValueAtVersion L v row.fieldPath = some row := by
  rw [fullConfigAtVersion, mem_filterMap]
  constructor
  · rintro ⟨f, -, hf⟩
    rw [configValueAtVersion_path hf]
    exact hf
  · intro h
    exact ⟨row.fieldPath, mem_pathsAtVersion.mpr (by rw [h]; rfl), h⟩

/-- **The rows of a resolved snapshot are the resolved rows.** -/
theorem find_fullConfigAtVersion (L : List ConfigVersion) (v : ℤ) (f : String) :
    ((fullConfigAtVersion L v).find? fun r => r.fieldPath = f) = configValueAtVersion L v f := by
  cases hrow : configValueAtVersion L v f with
  | none =>
    refine find?_eq_none.mpr fun r hr hpath => ?_
    rw [decide_eq_true_eq] at hpath
    rw [← hpath, mem_fullConfigAtVersion.mp hr] at hrow
    cases hrow
  | some row =>
    have hpath := configValueAtVersion_path hrow
    cases hfind : (fullConfigAtVersion L v).find? fun r => r.fieldPath = f with
    | none =>
      rw [← hpath] at hrow
      refine absurd (find?_eq_none.mp hfind row (mem_fullConfigAtVersion.mpr hrow)) ?_
      simp [hpath]
    | some r =>
      have hr : r.fieldPath = f := by simpa using find?_some hfind
      have hmem := mem_fullConfigAtVersion.mp (mem_of_find?_eq_some hfind)
      rw [hr, hrow] at hmem
      exact hmem.symm

/-- The paths are sorted. -/
theorem sorted_pathsAtVersion (L : List ConfigVersion) (v : ℤ) :
    (pathsAtVersion L v).Pairwise (· ≤ ·) :=
  pairwise_insertionSort _ _

/-- No path is listed twice. -/
theorem nodup_pathsAtVersion (L : List ConfigVersion) (v : ℤ) : (pathsAtVersion L v).Nodup :=
  (perm_insertionSort _ _).nodup_iff.mpr (nodup_dedup _)

/-- The snapshot has the paths. -/
theorem map_fieldPath_fullConfigAtVersion (L : List ConfigVersion) (v : ℤ) :
    (fullConfigAtVersion L v).map ConfigValue.fieldPath = pathsAtVersion L v := by
  have hpath : ∀ f ∈ pathsAtVersion L v,
      (configValueAtVersion L v f).map ConfigValue.fieldPath = some f := by
    intro f hf
    obtain ⟨row, hrow⟩ := Option.isSome_iff_exists.mp (mem_pathsAtVersion.mp hf)
    rw [hrow, Option.map_some, configValueAtVersion_path hrow]
  rw [fullConfigAtVersion, map_filterMap, filterMap_congr hpath, filterMap_some]

/-- **What a new version changes**: at its own number its rows are resolved, and every other
path as just below. -/
theorem configValueAtVersion_append (h : Dense (L ++ [V])) (f : String) :
    configValueAtVersion (L ++ [V]) V.version f =
      (V.row f).or (configValueAtVersion L (V.version - 1) f) := by
  rw [configValueAtVersion, DeltaLog.rowAt_eq_or h.numbered (by simp) f,
    DeltaLog.rowAt_append_of_lt (by simp)]
  rfl

/-- A version with a row for every path of the snapshot below it **is** the snapshot at its
own number. -/
theorem fullConfigAtVersion_of_paths (h : Dense (L ++ [V])) (hv : V.version - 1 ≤ v)
    (hpaths : V.values.map ConfigValue.fieldPath = pathsAtVersion L v) :
    fullConfigAtVersion (L ++ [V]) V.version = V.values := by
  have hrow : ∀ row ∈ V.values,
      (configValueAtVersion (L ++ [V]) V.version ∘ ConfigValue.fieldPath) row = some row := by
    intro row hmem
    rw [Function.comp_apply, configValueAtVersion_append h,
      ConfigVersion.row_eq_some_iff_mem.mpr hmem, Option.some_or]
  have hmem : ∀ f, f ∈ pathsAtVersion (L ++ [V]) V.version ↔ f ∈ pathsAtVersion L v := by
    intro f
    rw [mem_pathsAtVersion, configValueAtVersion_append h, Option.isSome_or, Bool.or_eq_true]
    constructor
    · rintro (hnew | hold)
      · rw [Option.isSome_iff_ne_none, ne_eq, ConfigVersion.row_eq_none, not_not, hpaths] at hnew
        exact hnew
      · exact mem_pathsAtVersion.mpr (DeltaLog.rowAt_isSome_mono hv hold)
    · intro hf
      refine .inl ?_
      rw [Option.isSome_iff_ne_none, ne_eq, ConfigVersion.row_eq_none, not_not, hpaths]
      exact hf
  have heq : pathsAtVersion (L ++ [V]) V.version = V.values.map ConfigValue.fieldPath := by
    rw [hpaths]
    exact ((perm_ext_iff_of_nodup (nodup_pathsAtVersion _ _)
      (nodup_pathsAtVersion _ _)).mpr hmem).eq_of_pairwise' (sorted_pathsAtVersion _ _)
      (sorted_pathsAtVersion _ _)
  rw [fullConfigAtVersion, heq, filterMap_map, filterMap_congr hrow, filterMap_some]

/-- A version whose paths all have a row at a committed version leaves the snapshot there as
it is. -/
theorem configValueAtVersion_append_of_covered (h : Dense (L ++ [V])) (hv : v ∈ versionNumbers L)
    (hcov : (V.row f).isSome = true → (configValueAtVersion L v f).isSome = true) :
    configValueAtVersion (L ++ [V]) v f = configValueAtVersion L v f := by
  have hL := h.of_prefix (prefix_append L [V])
  have hlen := h.bound
  rw [length_append, length_singleton] at hlen
  have hnum := h.last_number
  by_cases hwrap : L.length + 1 < 2 ^ 31
  · refine DeltaLog.rowAt_append_of_lt (fun W hW => ?_) f
    obtain rfl := mem_singleton.mp hW
    obtain ⟨i, hi, rfl⟩ := hL.mem_numbers.mp hv
    simp only [wrap32] at hnum ⊢
    omega
  · refine DeltaLog.rowAt_append_of_covered h.numbered (fun W hW => ?_) hcov
    obtain ⟨i, hi, hWi⟩ := hL.mem_numbers.mp (mem_map_of_mem hW)
    simp only [wrap32] at hnum hWi
    omega

/-- Later versions do not change a snapshot. -/
theorem fullConfigAtVersion_append (hM : ∀ V ∈ M, v < V.version) :
    fullConfigAtVersion (L ++ M) v = fullConfigAtVersion L v := by
  have hvalues : configValueAtVersion (L ++ M) v = configValueAtVersion L v :=
    funext fun f => DeltaLog.rowAt_append_of_lt hM f
  have hpaths : pathsAtVersion (L ++ M) v = pathsAtVersion L v := by
    have hnil : M.filter (fun V => V.version ≤ v) = [] := by
      refine filter_eq_nil_iff.mpr fun V hV => ?_
      have := hM V hV
      simp only [decide_eq_true_eq]
      omega
    rw [pathsAtVersion, filter_append, hnil, append_nil, pathsAtVersion]
  rw [fullConfigAtVersion, hvalues, hpaths, fullConfigAtVersion]

/-- **A snapshot stays as it is** when the log grows, below the overflow. -/
theorem Dense.fullConfigAtVersion_of_le (h : Dense M) (hlen : M.length < 2 ^ 31) (hpre : L <+: M)
    (hv : v ≤ L.length) : fullConfigAtVersion M v = fullConfigAtVersion L v := by
  obtain ⟨R, rfl⟩ := hpre
  exact fullConfigAtVersion_append fun V hV => hv.trans_lt (h.lt_of_mem_append hlen hV)

/-- The snapshot of a number is stable. -/
theorem Dense.fullConfigAtVersion_stable (h : Dense M) (hlen : M.length < 2 ^ 31) (hpre : L <+: M)
    (hv : v ∈ versionNumbers L) : fullConfigAtVersion M v = fullConfigAtVersion L v :=
  h.fullConfigAtVersion_of_le hlen hpre
    ((h.of_prefix hpre).le_length_of_mem (hpre.length_le.trans_lt hlen) hv)

/-- The row of a field in the **latest snapshot**. -/
def latestRow (L : List ConfigVersion) (f : String) : Option ConfigValue :=
  (latestConfigVersion L).bind fun v => configValueAtVersion L v f

/-- The **snapshot** at a version: the value and the checksum of every path that has a
row. -/
def snapshot (L : List ConfigVersion) (v : ℤ) (f : String) :
    Option (Option String × Option String) :=
  (configValueAtVersion L v f).map fun r => (r.value, r.checksum)

end Decree
