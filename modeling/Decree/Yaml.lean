import Mathlib.Data.List.Sort
import Decree.Domain

/-!
# Config Documents

The YAML format (`internal/config/yaml.go`, `parser.go`, `parser_v1.go`). On import:
dispatch on the document's `spec_version`, the checks on the document, and the conversion
of its values to strings at the types the schema declares. On export: the document of some
rows. What the YAML library makes of the bytes is `Env.yamlHeader` and `Env.yamlConfig`, and
the bytes it makes of a document `Env.yamlMarshal`. A string scalar is passed through as it is
written, whatever the field type, and a null becomes the empty string.

## Main results

* `stringifyAll_spec`: the conversion goes value by value.
-/

open Go List

namespace Decree

structure ConfigValueImport where
  fieldPath : String
  value : String
  description : Option String
deriving DecidableEq

structure ParsedImport where
  description : String
  values : List ConfigValueImport
deriving DecidableEq

/-- The field types of a schema by path; a path the schema does not declare has none. -/
abbrev FieldTypes := String → Option FieldType

/-- `fmt`'s `%T` of a decoded value. -/
def YamlValue.typeName : YamlValue → String
  | null => "<nil>"
  | bool _ => "bool"
  | int _ => "int"
  | uint64 _ => "uint64"
  | float _ => "float64"
  | str _ => "string"
  | time _ => "time.Time"
  | seq _ => "[]interface {}"
  | map _ => "map[string]interface {}"

variable (env : Env) {β : Type}

/-- `int64(x)` after the test that `x` is its own truncation, which infinities pass. -/
def integerOfFloat (x : Float64) : Option I64 :=
  match x.toInt? with
  | some i => some (if -2 ^ 63 ≤ i ∧ i < 2 ^ 63 then .clamp i else env.int64OfFloat x)
  | none =>
    match x with
    | .inf _ => some (env.int64OfFloat x)
    | _ => none

/-- `stringifyValue` at an integer field. -/
def stringifyInteger : YamlValue → Except String String
  | .int i => .ok (formatInt i.1)
  | .float x =>
    match integerOfFloat env x with
    | some i => .ok (formatInt i.1)
    | none => .error ("expected integer, got " ++ sprintFloat x)
  | .str s => .ok s
  | v => .error ("cannot convert " ++ v.typeName ++ " to integer")

/-- `stringifyValue` at a number field. -/
def stringifyNumber : YamlValue → Except String String
  | .int i => .ok (formatFloat (.ofInt i.1))
  | .float x => .ok (formatFloat x)
  | .str s => .ok s
  | v => .error ("cannot convert " ++ v.typeName ++ " to number")

/-- `stringifyValue` at a bool field. -/
def stringifyBool : YamlValue → Except String String
  | .bool b => .ok (formatBool b)
  | .str s => .ok s
  | v => .error ("cannot convert " ++ v.typeName ++ " to bool")

/-- `stringifyValue` at a JSON field. -/
def stringifyJSON : YamlValue → Except String String
  | .str s => .ok s
  | v =>
    match env.jsonMarshal v with
    | .ok s => .ok s
    | .error e => .error ("cannot marshal JSON: " ++ e)

/-- `fmt`'s `%v` of a decoded value. -/
def sprintValue : YamlValue → String
  | .int i => formatInt i.1
  | .uint64 n => formatInt n
  | .float x => sprintFloat x
  | .bool b => formatBool b
  | v => env.sprintYaml v

/-- `stringifyValue` at a string, time, duration or URL field, and at a field the schema
does not declare. -/
def stringifyText : YamlValue → Except String String
  | .str s => .ok s
  | v => .ok (sprintValue env v)

def stringifyValue (value : YamlValue) (ft : Option FieldType) : Except String String :=
  match value with
  | .null => .ok ""
  | value =>
    match ft with
    | some .integer => stringifyInteger env value
    | some .number => stringifyNumber value
    | some .bool => stringifyBool value
    | some .json => stringifyJSON env value
    | some .string | some .time | some .duration | some .url | none =>
      stringifyText env value

/-- `extensionKeyPattern`: `x-` and more, on one line. -/
def isExtensionKey (key : String) : Bool :=
  match key.toList with
  | x :: dash :: rest => x = 'x' && dash = '-' && rest ≠ [] && !rest.contains '\n'
  | _ => false

/-- `validateExtensions`: the first key that is no extension. -/
def validateExtensions (path : String) (keys : List String) : Except String Unit :=
  match keys.find? fun key => !isExtensionKey key with
  | none => .ok ()
  | some key =>
    .error ("unknown key " ++ env.quote key ++ " at " ++
      (if path = "" then "top level" else path) ++
      ": only known fields or x-* vendor extensions are allowed")

/-- The value loop of `validateConfigYAML`. -/
def validateValues : List (String × ConfigValueYAML) → Except String Unit
  | [] => .ok ()
  | (path, v) :: rest =>
    if path = "" then .error "field path cannot be empty"
    else
      match validateExtensions env ("values." ++ path) v.extensions with
      | .error e => .error e
      | .ok () => validateValues rest

def validateConfigYAML (doc : ConfigYAML) : Except String Unit :=
  if doc.specVersion = "" then .error "spec_version is required"
  else if doc.specVersion ≠ "v1" then
    .error ("unsupported spec_version: " ++ doc.specVersion)
  else
    match validateExtensions env "" doc.extensions with
    | .error e => .error e
    | .ok () =>
      if doc.values = [] then .error "at least one value is required"
      else validateValues env doc.values

/-- The conversion loop of `yamlToConfigValues`. -/
def stringifyAll (types : FieldTypes) :
    List (String × ConfigValueYAML) → Except String (List ConfigValueImport)
  | [] => .ok []
  | (path, yv) :: rest =>
    match stringifyValue env yv.value (types path) with
    | .error e => .error ("field " ++ path ++ ": " ++ e)
    | .ok s =>
      match stringifyAll types rest with
      | .error e => .error e
      | .ok vs => .ok (⟨path, s, ptrString yv.description⟩ :: vs)

/-- The values of a document in the order of their paths. -/
def sortedValues (doc : ConfigYAML) : List (String × ConfigValueYAML) :=
  doc.values.insertionSort fun a b => a.1 ≤ b.1

def yamlToConfigValues (doc : ConfigYAML) (types : FieldTypes) :
    Except String (List ConfigValueImport) :=
  stringifyAll env types (sortedValues doc)

/-- `parserV1.Parse`. -/
def parseV1 (data : String) (types : FieldTypes) : Except String ParsedImport :=
  match env.yamlConfig data with
  | .error e => .error ("invalid YAML: " ++ e)
  | .ok doc =>
    match validateConfigYAML env doc with
    | .error e => .error e
    | .ok () =>
      match yamlToConfigValues env doc types with
      | .error e => .error e
      | .ok vs => .ok ⟨doc.description, vs⟩

/-- **`DispatchImport`**: the only registered parser is the one for `v1`. -/
def dispatchImport (data : String) (types : FieldTypes) : Except String ParsedImport :=
  match env.yamlHeader data with
  | .error e => .error ("invalid YAML: " ++ e)
  | .ok specVersion =>
    if specVersion = "" then .error "spec_version is required (supported: [v1])"
    else if specVersion = "v1" then parseV1 env data types
    else
      .error ("unsupported spec_version " ++ env.quote specVersion ++ " (supported: [v1])")

/-! ### Export -/

structure ConfigRow where
  fieldPath : String
  value : String
  description : Option String

/-- `typedValue`: the string at the field's type, or as it is when it does not parse. -/
def typedValue (value : String) (ft : Option FieldType) : YamlValue :=
  match ft with
  | some .integer => if (parseInt value).2 = none then .int (parseInt value).1 else .str value
  | some .number =>
    if (parseFloat value).2 = none then .float (parseFloat value).1 else .str value
  | some .bool => if (parseBool value).2 = none then .bool (parseBool value).1 else .str value
  | some .json => (env.jsonUnmarshal value).getD (.str value)
  | some .string | some .time | some .duration | some .url | none => .str value

/-- The map that assignments in this order leave. -/
def assigned {β : Type} : List (String × β) → List (String × β)
  | [] => []
  | p :: ps => if p.1 ∈ ps.map Prod.fst then assigned ps else p :: assigned ps

theorem assigned_subset (ps : List (String × β)) : assigned ps ⊆ ps := by
  induction ps with
  | nil => exact .refl _
  | cons p ps ih =>
    rw [assigned]
    split
    · exact subset_cons_of_subset p ih
    · exact cons_subset_cons p ih

/-- A map has distinct keys. -/
theorem nodup_assigned (ps : List (String × β)) : ((assigned ps).map Prod.fst).Nodup := by
  induction ps with
  | nil => exact nodup_nil
  | cons p ps ih =>
    rw [assigned]
    split
    · exact ih
    · rename_i hp
      refine nodup_cons.mpr ⟨fun hmem => hp ?_, ih⟩
      exact map_subset Prod.fst (assigned_subset ps) hmem

/-- Distinct keys stay as they are. -/
theorem assigned_of_nodup {ps : List (String × β)} (h : (ps.map Prod.fst).Nodup) :
    assigned ps = ps := by
  induction ps with
  | nil => rfl
  | cons p ps ih =>
    obtain ⟨hp, hps⟩ := nodup_cons.mp h
    rw [assigned, if_neg hp, ih hps]

def configToYAML (version : ℤ) (description : String) (rows : List ConfigRow)
    (types : FieldTypes) : ConfigYAML where
  specVersion := "v1"
  version := version
  description := description
  values := assigned (rows.map fun row =>
    (row.fieldPath, ⟨typedValue env row.value (types row.fieldPath),
      derefString row.description, []⟩))
  extensions := []
  nodup := nodup_assigned _

/-- **`MarshalConfigAt`**: the only registered parser is the one for `v1`. -/
def marshalConfigAt (version : ℤ) (description : String) (rows : List ConfigRow)
    (types : FieldTypes) (specVersion : String) : Except String String :=
  if specVersion = "" ∨ specVersion = "v1" then
    env.yamlMarshal (configToYAML env version description rows types)
  else .error ("unsupported spec_version " ++ env.quote specVersion ++ " (supported: [v1])")

/-! ### What an accepted document gives -/

variable {env} {types : FieldTypes} {values : List (String × ConfigValueYAML)}
  {vs : List ConfigValueImport} {data : String} {parsed : ParsedImport}
  {p : String × ConfigValueYAML} {v : ConfigValueImport}

/-- **The conversion loop goes through the values one by one**: each result is a path and
the string of its value. -/
theorem stringifyAll_spec (h : stringifyAll env types values = .ok vs) :
    Forall₂ (fun p v => v.fieldPath = p.1 ∧
      stringifyValue env p.2.value (types p.1) = .ok v.value) values vs := by
  induction values generalizing vs with
  | nil =>
    simp only [stringifyAll, Except.ok.injEq] at h
    subst h
    exact .nil
  | cons p rest ih =>
    obtain ⟨path, yv⟩ := p
    simp only [stringifyAll] at h
    split at h
    · cases h
    · rename_i s hs
      split at h
      · cases h
      · rename_i ws hws
        simp only [Except.ok.injEq] at h
        subst h
        exact .cons ⟨rfl, hs⟩ (ih hws)

/-- The document behind an accepted import, and its conversion. -/
theorem dispatchImport_spec (h : dispatchImport env data types = .ok parsed) :
    ∃ doc, env.yamlConfig data = .ok doc ∧ validateConfigYAML env doc = .ok () ∧
      stringifyAll env types (sortedValues doc) = .ok parsed.values := by
  simp only [dispatchImport] at h
  split at h
  · cases h
  · split at h
    · cases h
    · split at h
      · simp only [parseV1] at h
        split at h
        · cases h
        · rename_i doc hdoc
          split at h
          · cases h
          · rename_i hvalid
            split at h
            · cases h
            · rename_i vs hvs
              simp only [Except.ok.injEq] at h
              subst h
              exact ⟨doc, hdoc, hvalid, hvs⟩
      · cases h

/-- Paths are kept. -/
theorem stringifyAll_paths (h : stringifyAll env types values = .ok vs) :
    vs.map ConfigValueImport.fieldPath = values.map Prod.fst := by
  have hspec := stringifyAll_spec h
  clear h
  induction hspec with
  | nil => rfl
  | cons hp _ ih => rw [map_cons, map_cons, hp.1, ih]

theorem mem_sortedValues {doc : ConfigYAML} : p ∈ sortedValues doc ↔ p ∈ doc.values :=
  (perm_insertionSort _ doc.values).mem_iff

theorem path_ne_of_validateValues (h : validateValues env values = .ok ()) (hp : p ∈ values) :
    p.1 ≠ "" := by
  induction values with
  | nil => exact absurd hp not_mem_nil
  | cons q values ih =>
    rw [validateValues] at h
    split at h
    · cases h
    · rename_i hne
      split at h
      · cases h
      · rcases mem_cons.mp hp with rfl | hp
        · exact hne
        · exact ih h hp

/-- No imported path is empty. -/
theorem dispatchImport_path_ne (h : dispatchImport env data types = .ok parsed)
    (hv : v ∈ parsed.values) : v.fieldPath ≠ "" := by
  obtain ⟨doc, -, hvalid, hall⟩ := dispatchImport_spec h
  have hvalues : validateValues env doc.values = .ok () := by
    simp only [validateConfigYAML] at hvalid
    split at hvalid
    · cases hvalid
    · split at hvalid
      · cases hvalid
      · split at hvalid
        · cases hvalid
        · split at hvalid
          · cases hvalid
          · exact hvalid
  have hpath : v.fieldPath ∈ (sortedValues doc).map Prod.fst :=
    stringifyAll_paths hall ▸ mem_map_of_mem hv
  obtain ⟨p, hp, hpv⟩ := mem_map.mp hpath
  exact hpv ▸ path_ne_of_validateValues hvalues (mem_sortedValues.mp hp)

/-- A value comes from the document. -/
theorem mem_stringifyAll (h : stringifyAll env types values = .ok vs) (hv : v ∈ vs) :
    ∃ yv, (v.fieldPath, yv) ∈ values ∧
      stringifyValue env yv.value (types v.fieldPath) = .ok v.value := by
  have hspec := stringifyAll_spec h
  clear h
  induction hspec with
  | nil => exact absurd hv not_mem_nil
  | @cons p w ps ws hp _ ih =>
    rcases mem_cons.mp hv with rfl | hv
    · rw [hp.1]
      exact ⟨p.2, mem_cons_self, hp.2⟩
    · obtain ⟨yv, hmem, hs⟩ := ih hv
      exact ⟨yv, mem_cons_of_mem p hmem, hs⟩

end Decree
