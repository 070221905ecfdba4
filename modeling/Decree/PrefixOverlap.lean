import Decree.SchemaImport
import Decree.System

/-!
# The Check for Overlapping Paths

`validateNoPrefixOverlap` (`internal/schema/validate_constraints.go`) rejects a schema in which
one path is a dotted prefix of another. It sorts the paths and compares neighbours, which finds
every overlap as long as nothing sorts between a path and its extensions. A hyphen does: it comes
before the dot.

## Main results

* `validateNoPrefixOverlap_iff`: when the check is right.
-/

open List

namespace Decree

/-! ### Words in order -/

section Words

variable {α : Type} [LinearOrder α] {p r : List α}

/-- **What sorts between** a word and its extension by a letter extends the word, by a letter
that is no greater. -/
theorem exists_append_of_between {c : List α} {d : α} (hlt : p < c) (hle : ¬ p ++ d :: r < c) :
    ∃ e s, c = p ++ e :: s ∧ e ≤ d := by
  induction p generalizing c with
  | nil =>
    cases c with
    | nil => exact absurd hlt (lt_irrefl _)
    | cons e s =>
      refine ⟨e, s, rfl, not_lt.mp fun h => hle ?_⟩
      exact cons_lt_cons_iff.mpr (.inl h)
  | cons a p ih =>
    cases c with
    | nil => exact absurd hlt (not_lt_nil _)
    | cons b c =>
      rcases cons_lt_cons_iff.mp hlt with hab | ⟨rfl, hlt'⟩
      · exact absurd (cons_lt_cons_iff.mpr (.inl hab)) hle
      · have hle' : ¬ p ++ d :: r < c := fun h =>
          hle (cons_lt_cons_iff.mpr (.inr ⟨rfl, h⟩))
        obtain ⟨e, s, rfl, he⟩ := ih hlt' hle'
        exact ⟨e, s, rfl, he⟩

/-- Words with a common beginning are ordered by the letter behind it. -/
theorem append_cons_lt {s : List α} {d e : α} (h : e < d) : p ++ e :: s < p ++ d :: r := by
  induction p with
  | nil => exact cons_lt_cons_iff.mpr (.inl h)
  | cons a p ih => exact cons_lt_cons_iff.mpr (.inr ⟨rfl, ih⟩)

theorem lt_append_cons (p s : List α) (e : α) : p < p ++ e :: s := by
  induction p with
  | nil => exact nil_lt_cons _ _
  | cons a p ih => exact cons_lt_cons_iff.mpr (.inr ⟨rfl, ih⟩)

/-- In a sorted list, an element with a greater one has a neighbour that is greater, and no
greater than that one. -/
theorem exists_neighbour {l : List α} (hl : l.Pairwise (· ≤ ·)) {a b : α} (ha : a ∈ l)
    (hb : b ∈ l) (hab : a < b) : ∃ l1 c l2, l = l1 ++ a :: c :: l2 ∧ a < c ∧ c ≤ b := by
  induction l with
  | nil => exact absurd ha not_mem_nil
  | cons x l ih =>
    obtain ⟨hx, htail⟩ := pairwise_cons.mp hl
    have hbl : b ∈ l := by
      rcases mem_cons.mp hb with rfl | hb
      · rcases mem_cons.mp ha with rfl | ha
        · exact absurd hab (lt_irrefl _)
        · exact absurd hab (hx a ha).not_gt
      · exact hb
    by_cases hal : a ∈ l
    · obtain ⟨l1, c, l2, rfl, hc⟩ := ih htail hal hbl
      exact ⟨x :: l1, c, l2, rfl, hc⟩
    · -- `a` is the head, and what follows it is greater
      obtain rfl := (mem_cons.mp ha).resolve_right hal
      cases l with
      | nil => exact absurd hbl not_mem_nil
      | cons c l =>
        have hne : a ≠ c := fun h => hal (h ▸ mem_cons_self)
        refine ⟨[], c, l, rfl, lt_of_le_of_ne (hx c mem_cons_self) hne, ?_⟩
        rcases mem_cons.mp hbl with rfl | hbl'
        · exact le_rfl
        · exact (pairwise_cons.mp htail).1 b hbl'

/-- Neighbours have nothing between them. -/
theorem not_between {l1 l2 : List α} {a b c : α} (hl : (l1 ++ a :: b :: l2).Pairwise (· ≤ ·))
    (hc : c ∈ l1 ++ a :: b :: l2) : c ≤ a ∨ b ≤ c := by
  obtain ⟨-, hright, hcross⟩ := pairwise_append.mp hl
  rcases mem_append.mp hc with hc | hc
  · exact .inl (hcross c hc a mem_cons_self)
  · rcases mem_cons.mp hc with rfl | hc
    · exact .inl le_rfl
    · rcases mem_cons.mp hc with rfl | hc
      · exact .inr le_rfl
      · exact .inr ((pairwise_cons.mp (pairwise_cons.mp hright).2).1 c hc)

end Words

/-! ### Paths -/

/-- The path `q` is `p`, a dot and something more. -/
def DottedPrefix (p q : String) : Prop :=
  ∃ r, q = p ++ "." ++ r

/-- The path `q` is `p`, a hyphen and something more. -/
def HyphenPrefix (p q : String) : Prop :=
  ∃ r, q = p ++ "-" ++ r

/-- Some path of the list is a dotted prefix of another. -/
def Overlaps (paths : List String) : Prop :=
  ∃ p ∈ paths, ∃ q ∈ paths, DottedPrefix p q

variable {p q : String}

theorem dottedPrefix_iff : DottedPrefix p q ↔ ∃ r, q.toList = p.toList ++ '.' :: r := by
  constructor
  · rintro ⟨r, rfl⟩
    exact ⟨r.toList, by simp⟩
  · rintro ⟨r, hr⟩
    exact ⟨String.ofList r, String.toList_inj.mp (by simp [hr])⟩

theorem hyphenPrefix_iff : HyphenPrefix p q ↔ ∃ r, q.toList = p.toList ++ '-' :: r := by
  constructor
  · rintro ⟨r, rfl⟩
    exact ⟨r.toList, by simp⟩
  · rintro ⟨r, hr⟩
    exact ⟨String.ofList r, String.toList_inj.mp (by simp [hr])⟩

/-- A parent comes before its child. -/
theorem DottedPrefix.lt (h : DottedPrefix p q) : p < q := by
  obtain ⟨r, hr⟩ := dottedPrefix_iff.mp h
  rw [String.lt_iff_toList_lt, hr]
  exact lt_append_cons _ _ _

/-- A path with a hyphen comes between the path and its extensions. -/
theorem HyphenPrefix.between {c : String} (hc : HyphenPrefix p c) (hq : DottedPrefix p q) :
    p < c ∧ c < q := by
  obtain ⟨s, hs⟩ := hyphenPrefix_iff.mp hc
  obtain ⟨r, hr⟩ := dottedPrefix_iff.mp hq
  rw [String.lt_iff_toList_lt, String.lt_iff_toList_lt, hs, hr]
  exact ⟨lt_append_cons _ _ _, append_cons_lt (by decide)⟩

/-- The letters of a path that come no later than the dot are the dot and the hyphen. -/
theorem eq_of_le_dot {s : String} (hs : isFieldPath s = true) {c : Char} (hc : c ∈ s.toList)
    (hle : c ≤ '.') : c = '.' ∨ c = '-' := by
  have hletter : (isAlnum c || c = '_' || c = '.' || c = '-') = true := by
    rw [isFieldPath] at hs
    split at hs
    · cases hs
    · rename_i a l hl
      rw [hl] at hc
      rw [Bool.and_eq_true, all_eq_true] at hs
      rcases mem_cons.mp hc with rfl | hc
      · rcases Bool.or_eq_true _ _ ▸ hs.1 with h | h
        · rw [Bool.and_eq_true] at h
          simp [h.1]
        · simp [of_decide_eq_true h]
      · exact hs.2 c hc
  have halnum : isAlnum c = false := by
    have hlow : ∀ d : Char, '.' < d → ¬ d ≤ c := fun d hd hdc =>
      absurd (hd.trans_le (hdc.trans hle)) (lt_irrefl _)
    simp only [isAlnum, Bool.or_eq_false_iff, Bool.and_eq_false_iff, decide_eq_false_iff_not]
    exact ⟨⟨.inl (hlow _ (by decide)), .inl (hlow _ (by decide))⟩, .inl (hlow _ (by decide))⟩
  have hunder : c ≠ '_' := by
    rintro rfl
    exact absurd hle (by decide)
  simpa [halnum, hunder] using hletter

/-! ### The check -/

section Check

variable {env : Env} {fields : List SchemaField}

/-- No neighbours overlap. -/
theorem checkNeighbours_eq_ok {l : List String} :
    checkNeighbours env l = .ok () ↔ l.IsChain fun p q => ¬ DottedPrefix p q := by
  induction l with
  | nil => simp [checkNeighbours]
  | cons p l ih =>
    cases l with
    | nil => simp [checkNeighbours]
    | cons q l =>
      have hdot : (p ++ ".").toList.isPrefixOf q.toList = true ↔ DottedPrefix p q := by
        refine isPrefixOf_iff_prefix.trans ?_
        rw [dottedPrefix_iff]
        constructor
        · rintro ⟨r, hr⟩
          exact ⟨r, by simp [← hr]⟩
        · rintro ⟨r, hr⟩
          exact ⟨r, by simp [hr]⟩
      rw [checkNeighbours, seq_eq_ok, ensure_eq_ok, ih, isChain_cons_cons, ← hdot,
        Bool.not_eq_true', Bool.not_eq_true]

/-- **The check fails** exactly on a path that has an extension, and no sibling that goes on with
a hyphen. -/
theorem validateNoPrefixOverlap_error_iff (hpaths : ∀ f ∈ fields, isFieldPath f.path = true) :
    (∃ e, validateNoPrefixOverlap env fields = .error e) ↔
      ∃ p ∈ fields.map SchemaField.path, (∃ q ∈ fields.map SchemaField.path, DottedPrefix p q) ∧
        ∀ c ∈ fields.map SchemaField.path, ¬ HyphenPrefix p c := by
  have hgrammar : ∀ p ∈ fields.map SchemaField.path, isFieldPath p = true := by
    intro p hp
    obtain ⟨f, hf, rfl⟩ := mem_map.mp hp
    exact hpaths f hf
  rw [validateNoPrefixOverlap]
  generalize fields.map SchemaField.path = paths at hgrammar
  have hsorted : (paths.insertionSort (· ≤ ·)).Pairwise (· ≤ ·) := pairwise_insertionSort _ _
  have hmem : ∀ p, p ∈ paths.insertionSort (· ≤ ·) ↔ p ∈ paths := fun p =>
    mem_insertionSort _
  have hfails : (∃ e, checkNeighbours env (paths.insertionSort (· ≤ ·)) = .error e) ↔
      ¬ (paths.insertionSort (· ≤ ·)).IsChain fun p q => ¬ DottedPrefix p q := by
    rw [← checkNeighbours_eq_ok]
    cases checkNeighbours env (paths.insertionSort (· ≤ ·)) <;> simp
  rw [hfails]
  constructor
  · intro hchain
    obtain ⟨l1, p, q, l2, hl, hdot⟩ : ∃ l1 p q l2,
        paths.insertionSort (· ≤ ·) = l1 ++ p :: q :: l2 ∧ DottedPrefix p q := by
      by_contra hnone
      refine hchain (isChain_iff_forall_rel_of_append_cons_cons.mpr ?_)
      intro p q l1 l2 hl hdot
      exact hnone ⟨l1, p, q, l2, hl, hdot⟩
    refine ⟨p, (hmem p).mp (by simp [hl]), ⟨q, (hmem q).mp (by simp [hl]), hdot⟩, ?_⟩
    intro c hc hhyphen
    obtain ⟨hpc, hcq⟩ := hhyphen.between hdot
    rw [hl] at hsorted
    rcases not_between hsorted (hl ▸ (hmem c).mpr hc) with h | h
    · exact absurd hpc h.not_gt
    · exact absurd hcq h.not_gt
  · rintro ⟨p, hp, ⟨q, hq, hdot⟩, hnone⟩ hchain
    obtain ⟨l1, c, l2, hl, hpc, hcq⟩ :=
      exists_neighbour hsorted ((hmem p).mpr hp) ((hmem q).mpr hq) hdot.lt
    rw [hl, isChain_append_cons_cons] at hchain
    refine hchain.2.1 ?_
    -- the neighbour goes on with a dot, since it does not go on with a hyphen
    have hc : c ∈ paths := (hmem c).mp (by simp [hl])
    obtain ⟨r, hr⟩ := dottedPrefix_iff.mp hdot
    rw [String.lt_iff_toList_lt] at hpc
    rw [← not_lt, String.lt_iff_toList_lt, hr] at hcq
    obtain ⟨d, s, hs, hd⟩ := exists_append_of_between hpc hcq
    rcases eq_of_le_dot (hgrammar c hc) (by simp [hs]) hd with rfl | rfl
    · exact dottedPrefix_iff.mpr ⟨s, hs⟩
    · exact absurd (hyphenPrefix_iff.mpr ⟨s, hs⟩) (hnone c hc)

/-- **When the check is right**: there is no overlap, or one whose path has no sibling that goes
on with a hyphen. -/
theorem validateNoPrefixOverlap_iff (hpaths : ∀ f ∈ fields, isFieldPath f.path = true) :
    ((∃ e, validateNoPrefixOverlap env fields = .error e) ↔
        Overlaps (fields.map SchemaField.path)) ↔
      (Overlaps (fields.map SchemaField.path) → ∃ p ∈ fields.map SchemaField.path,
          (∃ q ∈ fields.map SchemaField.path, DottedPrefix p q) ∧
            ∀ c ∈ fields.map SchemaField.path, ¬ HyphenPrefix p c) := by
  rw [validateNoPrefixOverlap_error_iff hpaths]
  constructor
  · exact fun h => h.mpr
  · rintro h
    refine ⟨?_, h⟩
    rintro ⟨p, hp, ⟨q, hq, hdot⟩, -⟩
    exact ⟨p, hp, q, hq, hdot⟩

end Check

/-! ### A path with a hyphen -/

namespace Sample

def fieldsAt (paths : List String) : List SchemaField :=
  paths.map fun path => { path := path, fieldType := .string }

theorem validateNoPrefixOverlap_iff_nested :
    (∃ e, validateNoPrefixOverlap (world noDocument) (fieldsAt ["a.b", "a"]) = .error e) ↔
      Overlaps ["a.b", "a"] := by
  refine (validateNoPrefixOverlap_iff (by decide)).mpr fun _ => ?_
  refine ⟨"a", by decide, ⟨"a.b", by decide, "b", by decide⟩, ?_⟩
  intro c hc hhyphen
  obtain ⟨r, hr⟩ := hyphenPrefix_iff.mp hhyphen
  have hc' : c = "a.b" ∨ c = "a" := by simpa [fieldsAt] using hc
  rcases hc' with rfl | rfl <;> simp at hr

/-- The path `a-b` comes between `a` and `a.b`, and the overlap is not found. -/
theorem validateNoPrefixOverlap_misses_hyphen :
    validateNoPrefixOverlap (world noDocument) (fieldsAt ["a", "a-b", "a.b"]) = .ok () ∧
      (∀ f ∈ fieldsAt ["a", "a-b", "a.b"], isFieldPath f.path = true) ∧
      Overlaps ((fieldsAt ["a", "a-b", "a.b"]).map SchemaField.path) := by
  refine ⟨by decide +kernel, by decide, "a", by decide, "a.b", by decide, "b", by decide⟩

end Sample

end Decree
