import Decree.Domain

/-!
# Field Validators

The validators that the config service runs on every write (`internal/validation`): a
null check, a type check, and the checks that the field's constraints add. A check
returns the text of its error, or nothing.

## Main results

* `FieldValidator.validate_normalize`: a value and its normal form.
-/

open Go List

namespace Decree

/-- A constraint check: the text of its error, or nothing. -/
abbrev Check := TypedValue → Option String

structure FieldValidator where
  fieldPath : String
  fieldType : FieldType
  nullable : Bool
  sensitive : Bool
  checks : List Check

/-- The word `checkType` uses for a type. -/
def FieldType.word : FieldType → String
  | .integer => "integer"
  | .number => "number"
  | .string => "string"
  | .bool => "bool"
  | .time => "time"
  | .duration => "duration"
  | .url => "url"
  | .json => "json"

def checkType (tv : TypedValue) (expected : FieldType) : Option String :=
  if tv.fieldType = expected then none else some ("expected " ++ expected.word ++ " value")

/-- The constraint loop of `Validate`: the first error. -/
def firstError (tv : TypedValue) : List Check → Option String
  | [] => none
  | check :: checks => (check tv).or (firstError tv checks)

/-- `FieldValidator.Validate`: the first violation. -/
def FieldValidator.validate (v : FieldValidator) (tv : Option TypedValue) : Option String :=
  match tv with
  | none =>
    if v.nullable then none
    else some ("field " ++ v.fieldPath ++ ": value is required (not nullable)")
  | some tv =>
    ((checkType tv v.fieldType).or (firstError tv v.checks)).map fun e =>
      "field " ++ v.fieldPath ++ ": " ++ e

variable (env : Env) {tv : TypedValue} {fields : List SchemaField}

/-- One bound of `addNumericChecks`. -/
def boundCheck (extract : TypedValue → Float64) (violates : Float64 → Float64 → Bool)
    (word bound : Float64 → String) (limit : Option Float64) : List Check :=
  limit.toList.map fun l tv =>
    if violates (extract tv) l then some (word (extract tv) ++ bound l) else none

/-- `addNumericChecks`. -/
def numericChecks (c : FieldConstraints) (extract : TypedValue → Float64) : List Check :=
  boundCheck extract (fun x l => x.lt l)
      (fun x => "value " ++ sprintFloat x ++ " is less than minimum ") sprintFloat
      c.min ++
    boundCheck extract (fun x l => l.lt x)
      (fun x => "value " ++ sprintFloat x ++ " is greater than maximum ") sprintFloat
      c.max ++
    boundCheck extract (fun x l => x.le l)
      (fun x => "value " ++ sprintFloat x ++ " must be greater than ") sprintFloat
      c.exclusiveMin ++
    boundCheck extract (fun x l => l.le x)
      (fun x => "value " ++ sprintFloat x ++ " must be less than ") sprintFloat
      c.exclusiveMax

def durationSeconds (d : I64) : Float64 :=
  .add (.ofInt (d.1.tdiv (10 ^ 9))) (.div (.ofInt (d.1.tmod (10 ^ 9))) (.ofNat (10 ^ 9)))

/-- The number that the bounds of an integer, number or duration field compare. -/
def numericValue : TypedValue → Float64
  | .integerValue v => .ofInt v.1
  | .numberValue v => v
  | .durationValue d => durationSeconds ((d.map ProtoDuration.asDuration).getD .zero)
  | _ => .finite (.zero false)

/-- The text of a string, URL or JSON value. -/
def textValue : TypedValue → String
  | .stringValue v => v
  | .urlValue v => v
  | .jsonValue v => v
  | _ => ""

/-- The check that a number is finite, which every number field has. -/
def finiteCheck : Check
  | .numberValue (.finite _) => none
  | .numberValue _ => some "value is not a finite number"
  | _ => none

/-- The checks that every URL field has: an absolute URL of an allowed scheme. -/
def urlChecks (sensitive : Bool) (allowedSchemes : List String) : List Check :=
  let schemes := if allowedSchemes = [] then ["http", "https"] else allowedSchemes
  [fun tv =>
      if (env.urlParse (textValue tv)).getD "" ≠ "" then none
      else if sensitive then some "value is not a valid absolute URL"
      else some ("value " ++ env.quote (textValue tv) ++ " is not a valid absolute URL"),
    fun tv =>
      let scheme := (env.urlParse (textValue tv)).getD ""
      if scheme ∈ schemes then none
      else if sensitive then
        some ("URL scheme is not in the allowed list " ++ sprintStrings schemes)
      else
        some ("URL scheme " ++ env.quote scheme ++ " is not in the allowed list " ++
          sprintStrings schemes)]

/-- The checks of a string field's constraints. A pattern that does not compile fails
every value. -/
def stringChecks (sensitive : Bool) (c : FieldConstraints) : List Check :=
  (c.minLength.toList.map fun (m : ℤ) tv =>
    let n := (textValue tv).length
    if (n : ℤ) < m then
      some ("string length " ++ formatInt n ++ " is less than minimum " ++ formatInt m)
    else none) ++
  (c.maxLength.toList.map fun (m : ℤ) tv =>
    let n := (textValue tv).length
    if m < (n : ℤ) then
      some ("string length " ++ formatInt n ++ " is greater than maximum " ++ formatInt m)
    else none) ++
  c.regex.toList.map fun pattern =>
    match env.regexCompile pattern with
    | .error e => fun _ =>
      some ("constraint cannot be enforced: invalid regex pattern: " ++ e)
    | .ok isMatch => fun tv =>
      if isMatch (textValue tv) then none
      else if sensitive then some ("value does not match pattern " ++ pattern)
      else
        some ("value " ++ env.quote (textValue tv) ++ " does not match pattern " ++ pattern)

/-- The check of a JSON field's schema, if it has one. -/
def jsonChecks (c : FieldConstraints) : List Check :=
  c.jsonSchema.toList.map fun schema =>
    match env.jsonSchema schema with
    | .error e => fun _ => some ("constraint cannot be enforced: invalid json_schema: " ++ e)
    | .ok validate => fun tv => validate (textValue tv)

/-- The enumeration check, which applies to any type and compares storage strings. -/
def enumChecks (sensitive : Bool) (c : FieldConstraints) : List Check :=
  if c.enumValues = [] then []
  else
    [fun tv =>
      if tv.toStorage ∈ c.enumValues then none
      else if sensitive then some "value is not in allowed values"
      else
        some ("value " ++ env.quote tv.toStorage ++ " is not in allowed values " ++
          sprintStrings c.enumValues)]

def typeChecks (ft : FieldType) (sensitive : Bool) (c : FieldConstraints) : List Check :=
  match ft with
  | .integer | .number | .duration => numericChecks c numericValue
  | .string => stringChecks env sensitive c
  | .json => jsonChecks env c
  | .bool | .time | .url => []

def newFieldValidator (f : SchemaField) : FieldValidator where
  fieldPath := f.path
  fieldType := f.fieldType
  nullable := f.nullable
  sensitive := f.sensitive
  checks :=
    (if f.fieldType = .number then [finiteCheck] else []) ++
    (if f.fieldType = .url then
      urlChecks env f.sensitive ((f.constraints.map (·.allowedSchemes)).getD []) else []) ++
    (match f.constraints with
      | none => []
      | some c => typeChecks env f.fieldType f.sensitive c ++ enumChecks env f.sensitive c)

/-- `ValidatorFactory.GetValidators` on the fields of a schema: an over-long pattern is an
error. The result is a map by path; the paths are distinct. -/
def buildValidators : List SchemaField → Except String (List (String × FieldValidator))
  | [] => .ok []
  | f :: fs =>
    let pattern := ((f.constraints.bind (·.regex)).getD "")
    if env.regexMaxLength > 0 ∧ pattern ≠ "" ∧ pattern.utf8ByteSize > env.regexMaxLength then
      .error ("field " ++ f.path ++ ": regex pattern exceeds maximum length of " ++
        formatInt env.regexMaxLength ++ " characters")
    else
      match buildValidators fs with
      | .error e => .error e
      | .ok vs => .ok ((f.path, newFieldValidator env f) :: vs)

/-! ### Normal forms -/

/-- A check that looks at a value only through its number, its text and its storage
string. -/
def Check.Normal (check : Check) : Prop :=
  ∀ tv : TypedValue, tv.Storable → check tv.normalize = check tv

/-- The number of a value is kept. -/
theorem numericValue_normalize (tv : TypedValue) : numericValue tv.normalize = numericValue tv := by
  rcases tv with _ | _ | _ | _ | (_ | _) | (_ | d) | _ | _
  case durationValue.some =>
    simp only [TypedValue.normalize, numericValue, Option.map_some, Option.getD_some,
      asDuration_ofDuration]
  all_goals rfl

/-- The text of a value is kept. -/
theorem textValue_normalize (tv : TypedValue) : textValue tv.normalize = textValue tv := by
  rcases tv with _ | _ | _ | _ | (_ | _) | (_ | _) | _ | _ <;> rfl

variable (sensitive : Bool) (c : FieldConstraints) (f : SchemaField)

/-- Checks of numbers see normal values. -/
theorem numericChecks_normal : ∀ check ∈ numericChecks c numericValue, Check.Normal check := by
  intro check hc tv _
  simp only [numericChecks, mem_append] at hc
  rcases hc with ((hc | hc) | hc) | hc <;>
    obtain ⟨l, -, rfl⟩ := mem_map.mp hc <;> simp only [numericValue_normalize]

/-- Checks of strings see normal values. -/
theorem stringChecks_normal :
    ∀ check ∈ stringChecks env sensitive c, Check.Normal check := by
  intro check hc tv _
  simp only [stringChecks, mem_append, mem_map] at hc
  rcases hc with (⟨m, -, rfl⟩ | ⟨m, -, rfl⟩) | ⟨p, -, rfl⟩
  · simp only [textValue_normalize]
  · simp only [textValue_normalize]
  · cases env.regexCompile p with
    | error e => rfl
    | ok isMatch => simp only [textValue_normalize]

theorem jsonChecks_normal : ∀ check ∈ jsonChecks env c, Check.Normal check := by
  intro check hc tv _
  obtain ⟨schema, -, rfl⟩ := mem_map.mp hc
  cases env.jsonSchema schema with
  | error e => rfl
  | ok validate => simp only [textValue_normalize]

theorem enumChecks_normal :
    ∀ check ∈ enumChecks env sensitive c, Check.Normal check := by
  intro check hc tv hs
  simp only [enumChecks] at hc
  split at hc
  · exact absurd hc not_mem_nil
  · obtain rfl := mem_singleton.mp hc
    simp only [TypedValue.toStorage_normalize hs]

/-- The checks of a type see normal values. -/
theorem typeChecks_normal (ft : FieldType) (sensitive : Bool) (c : FieldConstraints) :
    ∀ check ∈ typeChecks env ft sensitive c, Check.Normal check := by
  intro check hc
  cases ft with
  | integer | number | duration => exact numericChecks_normal c check hc
  | string => exact stringChecks_normal env sensitive c check hc
  | json => exact jsonChecks_normal env c check hc
  | bool | time | url => exact absurd hc not_mem_nil

theorem finiteCheck_normal : Check.Normal finiteCheck := by
  intro tv _
  rcases tv with _ | _ | _ | _ | (_ | _) | (_ | _) | _ | _ <;> rfl

theorem urlChecks_normal (schemes : List String) :
    ∀ check ∈ urlChecks env sensitive schemes, Check.Normal check := by
  intro check hc tv _
  simp only [urlChecks, mem_cons, not_mem_nil, or_false] at hc
  rcases hc with rfl | rfl <;> simp only [textValue_normalize]

/-- All checks see normal values. -/
theorem newFieldValidator_checks_normal :
    ∀ check ∈ (newFieldValidator env f).checks, Check.Normal check := by
  intro check hc
  simp only [newFieldValidator, mem_append] at hc
  rcases hc with (hc | hc) | hc
  · split at hc
    · obtain rfl := mem_singleton.mp hc
      exact finiteCheck_normal
    · exact absurd hc not_mem_nil
  · split at hc
    · exact urlChecks_normal env _ _ check hc
    · exact absurd hc not_mem_nil
  · split at hc
    · exact absurd hc not_mem_nil
    · rcases mem_append.mp hc with hc | hc
      · exact typeChecks_normal env _ _ _ check hc
      · exact enumChecks_normal env _ _ check hc

/-- A normal value fails alike. -/
theorem firstError_normalize {checks : List Check} (h : ∀ check ∈ checks, Check.Normal check)
    (hs : tv.Storable) : firstError tv.normalize checks = firstError tv checks := by
  induction checks with
  | nil => rfl
  | cons check checks ih =>
    rw [firstError, firstError, h check mem_cons_self tv hs,
      ih fun c hc => h c (mem_cons_of_mem check hc)]

/-- **A validator does not tell a storable value from its normal form.** -/
theorem FieldValidator.validate_normalize (h : tv.Storable) :
    (newFieldValidator env f).validate (some tv.normalize) =
      (newFieldValidator env f).validate (some tv) := by
  simp only [FieldValidator.validate, checkType, TypedValue.fieldType_normalize,
    firstError_normalize (newFieldValidator_checks_normal env f) h]

/-- An accepted value has the field's type. -/
theorem FieldValidator.fieldType_of_validate {v : FieldValidator} {tv : TypedValue}
    (h : v.validate (some tv) = none) : tv.fieldType = v.fieldType := by
  by_contra hne
  simp [FieldValidator.validate, checkType, hne] at h

/-- The validators are those of the fields. -/
theorem buildValidators_eq {vs : List (String × FieldValidator)}
    (h : buildValidators env fields = .ok vs) :
    vs = fields.map fun f => (f.path, newFieldValidator env f) := by
  induction fields generalizing vs with
  | nil =>
    simp only [buildValidators, Except.ok.injEq] at h
    exact h.symm
  | cons f fs ih =>
    simp only [buildValidators] at h
    split at h
    · cases h
    · cases hb : buildValidators env fs with
      | error e =>
        rw [hb] at h
        cases h
      | ok ws =>
        rw [hb] at h
        cases h
        rw [ih hb, map_cons]

/-- A field is found by its path. -/
theorem lookup_map_path {β : Type} (g : SchemaField → β) (hnd : (fields.map SchemaField.path).Nodup)
    {fd : SchemaField} (hfd : fd ∈ fields) :
    (fields.map fun f => (f.path, g f)).lookup fd.path = some (g fd) := by
  induction fields with
  | nil => exact absurd hfd not_mem_nil
  | cons f fs ih =>
    rw [map_cons, nodup_cons] at hnd
    rw [map_cons, lookup_cons]
    rcases mem_cons.mp hfd with rfl | hfd
    · simp
    · have hne : (fd.path == f.path) = false := by
        rw [beq_eq_false_iff_ne]
        rintro heq
        exact hnd.1 (heq ▸ mem_map_of_mem hfd)
      rw [hne]
      exact ih hnd.2 hfd

end Decree
