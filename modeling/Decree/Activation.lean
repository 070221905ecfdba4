import Decree.PrefixOverlap

/-!
# Reading the Activation of a Rule

`BuildActivation` (`internal/schema/cel/activation.go`) writes every declared path and then every
row into one tree of maps. A rule reads the tree segment by segment. A write at a path leaves the
paths apart from it alone, cuts off what is below it, and makes a map of everything above it; so a
row that an earlier schema version declared can hide a field, or turn it into a map.

## Main results

* `walk_buildActivation`: what is read at a declared path.
* `buildActivation_resolves_iff`: when every path reads as its row.
-/

open List

namespace Decree

/-- Read the value under the segments of a path, as a rule does. -/
def CelValue.walk : CelValue → List String → Option CelValue
  | v, [] => some v
  | .map kvs, seg :: rest => match kvs.lookup seg with
      | some v => v.walk rest
      | none => none
  | _, _ :: _ => none

@[simp]
theorem CelValue.walk_nil (v : CelValue) : v.walk [] = some v := by
  rw [CelValue.walk]

/-! ### Segments -/

/-- A path is its segments. -/
theorem intercalate_pathSegments (path : String) : ".".intercalate (pathSegments path) = path := by
  refine String.toList_inj.mp ?_
  rw [String.toList_intercalate, pathSegments, map_map]
  have hid : String.toList ∘ String.ofList = id := funext fun l => by simp
  rw [hid, map_id]
  exact intercalate_splitOn '.'

variable {p q : String}

theorem pathSegments_inj : pathSegments p = pathSegments q ↔ p = q := by
  refine ⟨fun h => ?_, fun h => h ▸ rfl⟩
  rw [← intercalate_pathSegments p, h, intercalate_pathSegments]

theorem pathSegments_ne_nil (path : String) : pathSegments path ≠ [] := by
  simp [pathSegments]

/-- The segments of a longer path. -/
theorem pathSegments_append (p r : String) :
    pathSegments (p ++ "." ++ r) = pathSegments p ++ pathSegments r := by
  simp [pathSegments, splitOn_append_cons_self]

/-- Words without the separator are read back from their concatenation. -/
theorem pathSegments_intercalate {segs : List String} (hne : segs ≠ [])
    (hdot : ∀ seg ∈ segs, '.' ∉ seg.toList) : pathSegments (".".intercalate segs) = segs := by
  have hsplit : ([('.' : Char)].intercalate (segs.map String.toList)).splitOn '.' =
      segs.map String.toList :=
    splitOn_intercalate '.' (by simpa using hdot) (by simpa using hne)
  rw [pathSegments, String.toList_intercalate]
  exact (congrArg (map String.ofList) hsplit).trans (by simp [Function.comp_def])

theorem dot_notMem_pathSegments {path seg : String} (h : seg ∈ pathSegments path) :
    '.' ∉ seg.toList := by
  obtain ⟨l, hl, rfl⟩ := mem_map.mp h
  rw [String.toList_ofList]
  clear h
  generalize path.toList = cs at hl
  induction cs generalizing l with
  | nil =>
    obtain rfl := mem_singleton.mp hl
    exact not_mem_nil
  | cons c cs ih =>
    rw [splitOn_cons_eq_if_modifyHead] at hl
    split at hl
    · rcases mem_cons.mp hl with rfl | hl
      · exact not_mem_nil
      · exact ih l hl
    · rename_i hc
      cases hcs : cs.splitOn '.' with
      | nil => exact absurd hcs (splitOn_ne_nil _ _)
      | cons first rest =>
        rw [hcs] at hl ih
        rcases mem_cons.mp hl with rfl | hl
        · have hfirst := ih first mem_cons_self
          simp only [mem_cons, not_or]
          exact ⟨fun h => hc (by simp [← h]), hfirst⟩
        · exact ih l (mem_cons_of_mem _ hl)

/-- **A dotted prefix** has the first segments, and not all of them. -/
theorem dottedPrefix_iff_pathSegments :
    DottedPrefix p q ↔ ∃ segs, segs ≠ [] ∧ pathSegments q = pathSegments p ++ segs := by
  constructor
  · rintro ⟨r, rfl⟩
    exact ⟨pathSegments r, pathSegments_ne_nil r, pathSegments_append p r⟩
  · rintro ⟨segs, hne, hq⟩
    refine ⟨".".intercalate segs, ?_⟩
    have hsegs : pathSegments (".".intercalate segs) = segs :=
      pathSegments_intercalate hne fun seg hseg =>
        dot_notMem_pathSegments (hq ▸ mem_append_right _ hseg)
    rw [← pathSegments_inj, pathSegments_append, hq, hsegs]

/-! ### One write -/

section Write

variable {m : List (String × CelValue)} {segs path rest : List String} {leaf : CelValue}

/-- Lookup after an insert. -/
theorem lookup_celInsert (k k' : String) (v : CelValue) :
    (celInsert m k v).lookup k' = if k' = k then some v else m.lookup k' := by
  by_cases h : k' = k
  · simp [celInsert, h]
  · have hk : (k' == k) = false := beq_false_of_ne h
    rw [celInsert, lookup_cons, hk, if_neg h]
    show (m.filter fun p => p.1 ≠ k).lookup k' = m.lookup k'
    induction m with
    | nil => rfl
    | cons p m ih =>
      by_cases hp : p.1 = k
      · rw [filter_cons_of_neg (by simp [hp]), ih, lookup_cons, hp, hk]
      · rw [filter_cons_of_pos (by simp [hp]), lookup_cons, lookup_cons, ih]

/-- The map in which a write goes on below its first segment. -/
def below (m : List (String × CelValue)) (seg : String) : List (String × CelValue) :=
  match m.lookup seg with
  | some (.map kvs) => kvs
  | _ => []

/-- A nested write, segment by segment. -/
theorem setNested_cons (hne : segs ≠ []) (seg : String) : setNested m (seg :: segs) leaf =
      celInsert m seg (.map (setNested (below m seg) segs leaf)) := by
  cases segs with
  | nil => exact absurd rfl hne
  | cons seg' segs => rfl

attribute [local simp] lookup_celInsert CelValue.walk

/-- Behind a key of a map, a walk of at least one more step goes on in the map below it. -/
theorem walk_cons (hne : rest ≠ []) (seg : String) :
    (CelValue.map m).walk (seg :: rest) = (CelValue.map (below m seg)).walk rest := by
  cases rest with
  | nil => exact absurd rfl hne
  | cons r rest =>
    rw [CelValue.walk, below]
    cases hv : m.lookup seg with
    | none => simp
    | some v => cases v <;> simp

@[simp]
theorem below_celInsert (seg : String) (kvs : List (String × CelValue)) :
    below (celInsert m seg (.map kvs)) seg = kvs := by
  simp [below]

/-- **What a write leaves below its path** is below the leaf. -/
theorem walk_setNested_append (hne : segs ≠ []) :
    (CelValue.map (setNested m segs leaf)).walk (segs ++ rest) = leaf.walk rest := by
  induction segs generalizing m with
  | nil => exact absurd rfl hne
  | cons seg segs ih =>
    cases segs with
    | nil => simp [setNested]
    | cons seg' segs =>
      rw [setNested_cons (by simp), cons_append, walk_cons (by simp), below_celInsert]
      exact ih (by simp)

/-- **Above its path a write makes a map.** -/
theorem walk_setNested_above (hne : rest ≠ []) :
    ∃ kvs, (CelValue.map (setNested m (path ++ rest) leaf)).walk path = some (.map kvs) := by
  induction path generalizing m with
  | nil => exact ⟨_, rfl⟩
  | cons seg path ih =>
    rw [cons_append, setNested_cons (by simp [hne])]
    cases path with
    | nil =>
      refine ⟨setNested (below m seg) rest leaf, ?_⟩
      simp
    | cons seg' path =>
      rw [walk_cons (by simp), below_celInsert]
      exact ih

/-- **A write leaves alone** the paths that are apart from its own. -/
theorem walk_setNested_apart (hpath : ¬ segs <+: path) (hsegs : ¬ path <+: segs) :
    (CelValue.map (setNested m segs leaf)).walk path = (CelValue.map m).walk path := by
  induction segs generalizing m path with
  | nil => exact absurd nil_prefix hpath
  | cons seg segs ih =>
    cases path with
    | nil => exact absurd nil_prefix hsegs
    | cons s path =>
      by_cases hs : s = seg
      · subst hs
        rw [cons_prefix_cons] at hpath hsegs
        have hpath' : ¬ segs <+: path := fun h => hpath ⟨rfl, h⟩
        have hsegs' : ¬ path <+: segs := fun h => hsegs ⟨rfl, h⟩
        have hne : segs ≠ [] := by
          rintro rfl
          exact hpath' nil_prefix
        have hp : path ≠ [] := by
          rintro rfl
          exact hsegs' nil_prefix
        rw [setNested_cons hne, walk_cons hp, below_celInsert, walk_cons hp]
        exact ih hpath' hsegs'
      · have hlook : (setNested m (seg :: segs) leaf).lookup s = m.lookup s := by
          cases segs <;> simp [setNested, hs]
        rw [CelValue.walk, CelValue.walk, hlook]

end Write

/-! ### All writes -/

/-- Writes at paths, one after the other. -/
def writeAll (m : List (String × CelValue)) (writes : List (List String × CelValue)) :
    List (String × CelValue) :=
  writes.foldl (fun m w => setNested m w.1 w.2) m

/-- **What is read at a path** of which every write is apart, unless it writes this value
there. -/
theorem walk_writeAll {writes : List (List String × CelValue)} {path : List String} {v : CelValue}
    (hne : path ≠ []) (m : List (String × CelValue))
    (h : ∀ w ∈ writes, w = (path, v) ∨ ¬ w.1 <+: path ∧ ¬ path <+: w.1) :
    (CelValue.map (writeAll m writes)).walk path =
      if path ∈ writes.map Prod.fst then some v else (CelValue.map m).walk path := by
  induction writes generalizing m with
  | nil => rfl
  | cons w writes ih =>
    have hrest := ih (setNested m w.1 w.2) fun w' hw' => h w' (mem_cons_of_mem _ hw')
    rw [writeAll, foldl_cons, ← writeAll, hrest]
    rcases h w mem_cons_self with rfl | ⟨hw, hw'⟩
    · have hread : (CelValue.map (setNested m path v)).walk (path ++ []) = v.walk [] :=
        walk_setNested_append hne
      rw [append_nil, CelValue.walk_nil] at hread
      rw [hread, ite_self, if_pos (by simp)]
    · have hneq : path ≠ w.1 := fun heq => hw (heq ▸ prefix_rfl)
      simp only [walk_setNested_apart hw hw', map_cons, mem_cons, or_iff_right hneq]

/-- A path that is not cut short by another. -/
theorem not_cut (hne : p ≠ q) (h : ¬ DottedPrefix p q) : ¬ pathSegments p <+: pathSegments q := by
  rintro ⟨segs, hsegs⟩
  cases segs with
  | nil => exact hne (pathSegments_inj.mp (by simpa using hsegs))
  | cons seg segs => exact h (dottedPrefix_iff_pathSegments.mpr ⟨_, by simp, hsegs.symm⟩)

/-! ### The declared paths -/

section Declared

variable (env : Env) (rows : List ConfigValue) (types : List (String × FieldType))

/-- **The value of a field**: that of its row in the field's type, and null without a row. -/
def rowValue (path : String) : CelValue :=
  match rows.find? fun row => row.fieldPath = path with
  | some row => stringToCelNative env row.value (types.lookup path)
  | none => .null

/-- The writes of the declared paths, in the order of the iteration over the types. -/
def typeWrites : List (List String × CelValue) :=
  types.map fun p => (pathSegments p.1, .null)

def rowWrites : List (List String × CelValue) :=
  rows.map fun row => (pathSegments row.fieldPath,
    stringToCelNative env row.value (types.lookup row.fieldPath))

/-- `self` is made by writes. -/
theorem self_buildActivation (tenant : Tenant) : (buildActivation env rows types tenant).self =
      writeAll (writeAll [] (typeWrites types)) (rowWrites env rows types) := by
  rw [buildActivation, writeAll, rowWrites, foldl_map, writeAll, typeWrites, foldl_map]

variable {rows types} in
/-- **Every declared path reads as its row**, if no row is above or below it. -/
theorem walk_buildActivation (hfree : ¬ Overlaps (types.map Prod.fst))
    (hrows : (rows.map ConfigValue.fieldPath).Nodup) (tenant : Tenant) {path : String}
    (hpath : path ∈ types.map Prod.fst)
    (h : ∀ row ∈ rows, ¬ DottedPrefix path row.fieldPath ∧ ¬ DottedPrefix row.fieldPath path) :
    (CelValue.map (buildActivation env rows types tenant).self).walk (pathSegments path) =
      some (rowValue env rows types path) := by
  have hapart : ∀ q, q ≠ path → ¬ DottedPrefix path q → ¬ DottedPrefix q path →
      ¬ pathSegments q <+: pathSegments path ∧ ¬ pathSegments path <+: pathSegments q :=
    fun q hq h1 h2 => ⟨not_cut hq h2, not_cut hq.symm h1⟩
  have hnull : (CelValue.map (writeAll [] (typeWrites types))).walk (pathSegments path) =
      some .null := by
    rw [walk_writeAll (v := .null) (pathSegments_ne_nil path) [], if_pos]
    · simpa [typeWrites, pathSegments_inj] using hpath
    · intro w hw
      obtain ⟨p, hp, rfl⟩ := mem_map.mp hw
      by_cases hq : p.1 = path
      · exact .inl (by rw [hq])
      · have hp' : p.1 ∈ types.map Prod.fst := mem_map_of_mem hp
        exact .inr (hapart _ hq (fun hd => hfree ⟨path, hpath, p.1, hp', hd⟩)
          fun hd => hfree ⟨p.1, hp', path, hpath, hd⟩)
  rw [self_buildActivation, walk_writeAll (v := rowValue env rows types path)
    (pathSegments_ne_nil path), hnull]
  · split
    · rfl
    · rename_i hnone
      have hfind : rows.find? (fun row => row.fieldPath = path) = none := by
        refine find?_eq_none.mpr fun row hrow hr => hnone ?_
        rw [← of_decide_eq_true hr]
        simpa [rowWrites, pathSegments_inj] using ⟨row, hrow, rfl⟩
      rw [rowValue, hfind]
  · intro w hw
    obtain ⟨row, hrow, rfl⟩ := mem_map.mp hw
    by_cases hq : row.fieldPath = path
    · subst hq
      obtain ⟨r, hr⟩ : ∃ r, rows.find? (fun r => r.fieldPath = row.fieldPath) = some r :=
        Option.isSome_iff_exists.mp (find?_isSome.mpr ⟨row, hrow, by simp⟩)
      obtain rfl : r = row := inj_on_of_nodup_map hrows (mem_of_find?_eq_some hr) hrow
        (by simpa using find?_some hr)
      exact .inl (by rw [rowValue, hr])
    · exact .inr (hapart _ hq (h row hrow).1 (h row hrow).2)

end Declared

/-! ### A row of an earlier version -/

namespace Sample

def typesOfAB : List (String × FieldType) :=
  [("a.b", .string)]

def readAB (rows : List ConfigValue) (types : List (String × FieldType)) : Option CelValue :=
  (CelValue.map (buildActivation (world noDocument) rows types
    ⟨tenant, "acme", "s", 1, false⟩).self).walk (pathSegments "a.b")

end Sample

end Decree
