import Decree.Duration
import Decree.Timestamp

/-!
# Typed Values and Their Storage Strings

A config value is stored as a string. `typedValueToString` writes a typed value and
`stringToTypedValue` reads a stored string back at the field's declared type. A string
that does not parse is read as the value the parser returns next to its error (zero, an
extreme of `int64`, an infinity, the zero time).

A value that has a string is read back from it (`parseStorage_toStorage`). A timestamp outside the
years 0 to 9999 and a time or duration without a payload have none, which is what
`TypedValue.Storable` excludes. Many strings are read as one value; the one that is written back is
the **canonical** string (`Canonical`).

## Main results

* `parseStorage_toStorage`: a value is read back.
* `canonical_toStorage`: its string is canonical.
-/

open Go

namespace Decree

variable {s : String} {tv : TypedValue}

inductive FieldType where
  | integer
  | number
  | string
  | bool
  | time
  | duration
  | url
  | json
deriving DecidableEq, Repr

/-- `pb.TypedValue` with its kind set. A value that is `nil` or has no kind is a null,
and is `none` wherever an `Option TypedValue` is used. The payload of a time or a
duration is a message of its own and may be absent. -/
inductive TypedValue where
  | integerValue (v : I64)
  | numberValue (v : Float64)
  | stringValue (v : String)
  | boolValue (v : Bool)
  | timeValue (v : Option ProtoTimestamp)
  | durationValue (v : Option ProtoDuration)
  | urlValue (v : String)
  | jsonValue (v : String)
deriving DecidableEq

def TypedValue.fieldType : TypedValue → FieldType
  | integerValue _ => .integer
  | numberValue _ => .number
  | stringValue _ => .string
  | boolValue _ => .bool
  | timeValue _ => .time
  | durationValue _ => .duration
  | urlValue _ => .url
  | jsonValue _ => .json

def TypedValue.toStorage : TypedValue → String
  | integerValue v => formatInt v.1
  | numberValue v => formatFloat v
  | stringValue v => v
  | boolValue v => formatBool v
  | timeValue none => ""
  | timeValue (some t) => formatTime t.asTime
  | durationValue none => ""
  | durationValue (some d) => durationString d.asDuration
  | urlValue v => v
  | jsonValue v => v

/-- `typedValueToString`: a null has no string. -/
def typedValueToString (tv : Option TypedValue) : Option String :=
  tv.map TypedValue.toStorage

def typedValueToDisplayString (tv : Option TypedValue) : String :=
  (typedValueToString tv).getD ""

/-- The value a stored string is read as at a field type. A field that the schema does
not declare has no type, and its values are read as strings. -/
def parseStorage (ft : Option FieldType) (s : String) : TypedValue :=
  match ft with
  | some .integer => .integerValue (parseInt s).1
  | some .number => .numberValue (parseFloat s).1
  | some .string => .stringValue s
  | some .bool => .boolValue (parseBool s).1
  | some .time => .timeValue (some (.ofTime ((parseTime s).getD .zero)))
  | some .duration => .durationValue (some (.ofDuration ((parseDuration s).getD .zero)))
  | some .url => .urlValue s
  | some .json => .jsonValue s
  | none => .stringValue s

def stringToTypedValue (s : Option String) (ft : Option FieldType) : Option TypedValue :=
  s.map (parseStorage ft)

/-- The string parses at the field type: the conversion reports no error. -/
def Parses (ft : FieldType) (s : String) : Prop :=
  match ft with
  | .integer => (parseInt s).2 = none
  | .number => (parseFloat s).2 = none
  | .bool => (parseBool s).2 = none
  | .time => (parseTime s).isSome = true
  | .duration => (parseDuration s).isSome = true
  | .string | .url | .json => True

instance : (ft : FieldType) → (s : String) → Decidable (Parses ft s)
  | .integer, _ | .number, _ | .bool, _ => inferInstanceAs (Decidable (_ = none))
  | .time, _ | .duration, _ => inferInstanceAs (Decidable (_ = true))
  | .string, _ | .url, _ | .json, _ => inferInstanceAs (Decidable True)

/-- The string is the **canonical** one of the value it is read as. -/
def Canonical (ft : FieldType) (s : String) : Prop :=
  (parseStorage (some ft) s).toStorage = s

instance (ft : FieldType) : Decidable (Canonical ft s) :=
  inferInstanceAs (Decidable (_ = _))

namespace TypedValue

/-- The value has a storage string that is read back: a time is in the years 0 to 9999,
and a time or duration has its payload. -/
def Storable : TypedValue → Prop
  | timeValue none => False
  | timeValue (some t) => 0 ≤ t.asTime.date.year ∧ t.asTime.date.year ≤ 9999
  | durationValue none => False
  | _ => True

instance : (tv : TypedValue) → Decidable tv.Storable
  | timeValue none => inferInstanceAs (Decidable False)
  | timeValue (some _) => instDecidableAnd
  | durationValue none => inferInstanceAs (Decidable False)
  | durationValue (some _) => inferInstanceAs (Decidable True)
  | integerValue _ | numberValue _ | stringValue _ | boolValue _ | urlValue _ | jsonValue _ =>
    inferInstanceAs (Decidable True)

/-- The wire normal form: a time or a duration as its constructor function builds it. -/
def normalize : TypedValue → TypedValue
  | timeValue (some t) => timeValue (some (.ofTime t.asTime))
  | durationValue (some d) => durationValue (some (.ofDuration d.asDuration))
  | tv => tv

@[simp] theorem fieldType_normalize (tv : TypedValue) : tv.normalize.fieldType = tv.fieldType := by
  rcases tv with _ | _ | _ | _ | (_ | _) | (_ | _) | _ | _ <;> rfl

theorem toStorage_normalize (h : tv.Storable) :
    tv.normalize.toStorage = tv.toStorage := by
  rcases tv with _ | _ | _ | _ | (_ | t) | (_ | d) | _ | _
  case timeValue.some =>
    simp only [normalize, toStorage, asTime_ofTime _ (t.asTime.sec_bounds h)]
  case durationValue.some =>
    simp only [normalize, toStorage, asDuration_ofDuration]
  all_goals rfl

end TypedValue

@[simp] theorem fieldType_parseStorage (ft : FieldType) (s : String) :
    (parseStorage (some ft) s).fieldType = ft := by
  cases ft <;> rfl

attribute [local simp] TypedValue.fieldType TypedValue.toStorage TypedValue.normalize Parses
  parseStorage in
theorem reads_toStorage (h : tv.Storable) : Parses tv.fieldType tv.toStorage ∧
      parseStorage (some tv.fieldType) tv.toStorage = tv.normalize := by
  rcases tv with v | v | v | v | (_ | t) | (_ | d) | v | v
  case integerValue => simp [parseInt_formatInt]
  case numberValue => simp [parseFloat_formatFloat]
  case boolValue => simp [parseBool_formatBool]
  case timeValue.none | durationValue.none => exact absurd h id
  case timeValue.some => simp [parseTime_formatTime t.asTime h]
  case durationValue.some => simp [parseDuration_durationString]
  all_goals exact ⟨trivial, rfl⟩

/-- **A storable value is read back** from its storage string, in its normal form. -/
theorem parseStorage_toStorage (h : tv.Storable) :
    parseStorage (some tv.fieldType) tv.toStorage = tv.normalize :=
  (reads_toStorage h).2

/-- **The storage string of a storable value is canonical.** -/
theorem canonical_toStorage (h : tv.Storable) :
    Canonical tv.fieldType tv.toStorage := by
  rw [Canonical, parseStorage_toStorage h, TypedValue.toStorage_normalize h]

example : ¬ Canonical .integer "007" := by decide

/-! ### The canonical form -/

/-- The **canonical form** of a stored string: the string of the value it is read as. -/
def canonicalForm (ft : Option FieldType) (s : String) : String :=
  (parseStorage ft s).toStorage

theorem normalize_parseStorage (ft : FieldType) (s : String) :
    (parseStorage (some ft) s).normalize = parseStorage (some ft) s := by
  cases ft with
  | time => simp only [parseStorage, TypedValue.normalize, ofTime_asTime]
  | duration => simp only [parseStorage, TypedValue.normalize, asDuration_ofDuration]
  | integer | number | string | bool | url | json => rfl

/-- A time that has no storage string is read from no canonical string. -/
theorem storable_of_canonical {ft : FieldType} (h : Canonical ft (canonicalForm (some ft) s)) :
    (parseStorage (some ft) s).Storable := by
  cases ft with
  | time =>
    simp only [parseStorage, TypedValue.Storable]
    by_contra hy
    have hnone := parseTime_formatTime_eq_none _ hy
    have hzero : formatTime (ProtoTimestamp.ofTime .zero).asTime =
        formatTime (ProtoTimestamp.ofTime ((parseTime s).getD .zero)).asTime := by
      simpa only [Canonical, canonicalForm, parseStorage, TypedValue.toStorage, hnone,
        Option.getD_none] using h
    rw [← hzero, parseTime_formatTime _ (by decide)] at hnone
    cases hnone
  | integer | number | string | bool | duration | url | json => trivial

/-- **A string and its canonical form are read as one value**, if the form is canonical. -/
theorem parseStorage_canonicalForm {ft : Option FieldType}
    (h : canonicalForm ft (canonicalForm ft s) = canonicalForm ft s) :
    parseStorage ft (canonicalForm ft s) = parseStorage ft s := by
  cases ft with
  | none => rfl
  | some ft =>
    have hback := parseStorage_toStorage (storable_of_canonical h)
    rw [fieldType_parseStorage, normalize_parseStorage] at hback
    exact hback

end Decree
