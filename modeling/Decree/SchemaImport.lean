import Mathlib.Data.String.Basic
import Decree.SchemaService
import Decree.Yaml

/-!
# Importing a Schema

What `ImportSchema` (`internal/schema/service.go`, `yaml.go`, `parser.go`,
`validate_constraints.go`, `dependent_required.go`) does before it writes: the checks on a schema
document, its conversion to fields and rules, and the checks on those. What it then does to the
store is in `SchemaAdmin`.

What the YAML library makes of the bytes, the lint of the CEL rules, and the hash of the
fields are parameters, a `SchemaEnv`. A Go map is a list of its entries here, and where the
code ranges over a map to find the first error, the list fixes the order.

## Main results

* `nodup_yamlToProtoFields`: the paths are distinct.
-/

open Go

namespace Decree

/-! ### Schema documents -/

/-- `ConstraintsYAML`, with the keys of its inline extensions. -/
structure ConstraintsYAML where
  minimum : Option Float64 := none
  maximum : Option Float64 := none
  exclusiveMinimum : Option Float64 := none
  exclusiveMaximum : Option Float64 := none
  minLength : Option ℤ := none
  maxLength : Option ℤ := none
  pattern : String := ""
  enum : List String := []
  jsonSchema : String := ""
  allowedSchemes : List String := []
  extensions : List String := []

structure ExampleYAML where
  value : String := ""
  summary : String := ""
  extensions : List String := []

structure ExternalDocsYAML where
  description : String := ""
  url : String := ""
  extensions : List String := []

/-- `SchemaFieldYAML`. Of its documentation only the extension keys are checked: those of
`externalDocs` and of each of the `examples`. -/
structure SchemaFieldYAML where
  type : String
  description : String := ""
  default : String := ""
  nullable : Bool := false
  deprecated : Bool := false
  redirectTo : String := ""
  constraints : Option ConstraintsYAML := none
  title : String := ""
  exampleValue : String := ""
  examples : List (String × ExampleYAML) := []
  externalDocs : Option ExternalDocsYAML := none
  tags : List String := []
  format : String := ""
  readOnly : Bool := false
  writeOnce : Bool := false
  sensitive : Bool := false
  extensions : List String := []

structure ValidationYAML where
  path : String := ""
  rule : String
  message : String
  severity : String := ""
  reason : String := ""
  extensions : List String := []

/-- `SchemaYAML`. Of the `info` block only the extension keys are checked: its own and those
of its `contact`. Fields and `dependentRequired` are maps: their keys are distinct. -/
structure SchemaYAML where
  specVersion : String
  schema : String := ""
  id : String := ""
  name : String
  info : Option (List String × Option (List String)) := none
  fields : List (String × SchemaFieldYAML)
  dependentRequired : List (String × List String) := []
  validations : List ValidationYAML := []
  extensions : List String := []
  nodup : (fields.map Prod.fst).Nodup
  nodup_triggers : (dependentRequired.map Prod.fst).Nodup

/-- `pb.ValidationRule`, with its severity. -/
structure PbValidationRule extends ValidationRule where
  severity : String
deriving DecidableEq

/-- The functions that only the import uses, and the limits of the schema service; zero is
no limit. -/
structure SchemaEnv where
  /-- `yaml.Unmarshal` into a schema document. -/
  yamlSchema : String → Except String SchemaYAML
  /-- Whether `url.Parse` finds the scheme `https` and a host. -/
  isHTTPS : String → Bool
  /-- `LintValidations`. -/
  lintValidations : List ValidationRule → List SchemaField → Except String Unit
  /-- `json.Marshal` of the constraints of a field. -/
  marshalConstraints : FieldConstraints → String
  /-- The SHA-256 of a text, in base sixteen. -/
  sha256Hex : String → String
  maxFields : ℕ
  maxDocBytes : ℕ
  regexPatternMaxLength : ℕ

/-! ### The checks on a document -/

section Document

variable (env : Env) (senv : SchemaEnv)

/-- A check: an error unless the condition holds. -/
def ensure (p : Bool) (e : String) : Except String Unit :=
  if p then .ok () else .error e

/-- Letters and digits of ASCII. -/
def isAlnum (c : Char) : Bool :=
  ('a' ≤ c && c ≤ 'z') || ('A' ≤ c && c ≤ 'Z') || ('0' ≤ c && c ≤ '9')

def isURNSegment (cs : List Char) : Bool :=
  cs.head?.any isAlnum && cs.all fun c => isAlnum c || c = '.' || c = '_' || c = '-'

/-- `schemaURNPattern`. -/
def isSchemaURN (s : String) : Bool :=
  match s.toList.splitOn ':' with
  | urn :: decree :: schema :: segment :: segments =>
    urn = "urn".toList && decree = "decree".toList && schema = "schema".toList &&
      (segment :: segments).all isURNSegment
  | _ => false

/-- `fieldPathPattern`. -/
def isFieldPath (s : String) : Bool :=
  match s.toList with
  | [] => false
  | c :: cs =>
    ((isAlnum c && !c.isDigit) || c = '_') &&
      cs.all fun c => isAlnum c || c = '_' || c = '.' || c = '-'

def yamlTypeToProto : String → Option FieldType
  | "integer" => some .integer
  | "number" => some .number
  | "string" => some .string
  | "bool" => some .bool
  | "time" => some .time
  | "duration" => some .duration
  | "url" => some .url
  | "json" => some .json
  | _ => none

/-- The loop over the dependents of a trigger, with those that were seen: the checks of
`validateDependentRequiredYAML` and of `validateDependentRequiredAgainstFields`. -/
def checkDependents (known : List String) (trigger : String) :
    List String → List String → Except String Unit
  | _, [] => .ok ()
  | seen, dep :: deps => do
    ensure (dep ≠ trigger) ("dependentRequired: trigger " ++ env.quote trigger ++
      " cannot list itself as a dependent")
    ensure (dep ∈ known) ("dependentRequired: dependent " ++ env.quote dep ++
      " (under trigger " ++ env.quote trigger ++ ") is not a defined field")
    ensure (dep ∉ seen) ("dependentRequired: dependent " ++ env.quote dep ++
      " listed twice under trigger " ++ env.quote trigger)
    checkDependents known trigger (dep :: seen) deps

/-- The check of one entry of `dependentRequired` against the declared fields. -/
def checkDependentEntry (known : List String) (trigger : String) (deps : List String) :
    Except String Unit := do
  ensure (trigger ∈ known) ("dependentRequired: trigger " ++ env.quote trigger ++
    " is not a defined field")
  checkDependents env known trigger [] deps

def validateDependentRequiredYAML (doc : SchemaYAML) : Except String Unit :=
  doc.dependentRequired.forM fun p =>
    checkDependentEntry env (doc.fields.map Prod.fst) p.1 p.2

/-- One rule of `validateValidationsYAML`. -/
def validateValidationYAML (i : ℕ) (v : ValidationYAML) : Except String Unit := do
  let loc := "validations[" ++ formatInt i ++ "]"
  ensure (v.rule ≠ "") (loc ++ ": rule is required")
  ensure (v.message ≠ "") (loc ++ ": message is required")
  ensure (v.severity = "" || v.severity = "error" || v.severity = "warning")
    (loc ++ ": severity " ++ env.quote v.severity ++ " must be \"error\" or \"warning\"")
  validateExtensions env loc v.extensions

def validateFieldYAML (path : String) (f : SchemaFieldYAML) : Except String Unit := do
  ensure (isFieldPath path) ("invalid field path " ++ env.quote path ++
    ": must match ^[a-zA-Z_][a-zA-Z0-9_.-]*$")
  ensure (yamlTypeToProto f.type).isSome ("field " ++ path ++ ": unknown type " ++ env.quote f.type)
  validateExtensions env ("fields." ++ path) f.extensions
  f.constraints.forM fun c =>
    validateExtensions env ("fields." ++ path ++ ".constraints") c.extensions
  f.externalDocs.forM fun docs =>
    validateExtensions env ("fields." ++ path ++ ".externalDocs") docs.extensions
  f.examples.forM fun ex =>
    validateExtensions env ("fields." ++ path ++ ".examples." ++ ex.1) ex.2.extensions

def validateSchemaYAML (doc : SchemaYAML) : Except String Unit := do
  ensure (doc.specVersion ≠ "") "spec_version is required"
  ensure (doc.specVersion = "v1") ("unsupported spec_version: " ++ doc.specVersion)
  ensure (doc.schema = "" || senv.isHTTPS doc.schema)
    ("$schema must be an HTTPS URL, got " ++ env.quote doc.schema)
  ensure (doc.id = "" || isSchemaURN doc.id)
    ("$id must match urn:decree:schema:<segment>(:<segment>)*, got " ++ env.quote doc.id)
  validateExtensions env "" doc.extensions
  doc.info.forM fun info => do
    validateExtensions env "info" info.1
    info.2.forM (validateExtensions env "info.contact")
  ensure (doc.name ≠ "") "name is required"
  ensure (isValidSlug doc.name)
    "name must be a slug: lowercase alphanumeric and hyphens, 1-63 chars"
  ensure (doc.fields.length ≠ 0) "at least one field is required"
  validateDependentRequiredYAML env doc
  doc.validations.zipIdx.forM fun p => validateValidationYAML env p.2 p.1
  doc.fields.forM fun p => validateFieldYAML env p.1 p.2

/-! ### The conversion -/

def yamlConstraintsToProto (c : ConstraintsYAML) : FieldConstraints where
  min := c.minimum
  max := c.maximum
  exclusiveMin := c.exclusiveMinimum
  exclusiveMax := c.exclusiveMaximum
  minLength := c.minLength
  maxLength := c.maxLength
  regex := ptrString c.pattern
  enumValues := c.enum
  jsonSchema := ptrString c.jsonSchema
  allowedSchemes := c.allowedSchemes

/-- The documentation of an entry of the document; an empty text is none. -/
def yamlToProtoDocs (f : SchemaFieldYAML) : FieldDocs where
  description := ptrString f.description
  redirectTo := ptrString f.redirectTo
  title := ptrString f.title
  exampleValue := ptrString f.exampleValue
  examples := f.examples.map fun ex => (ex.1, ⟨ex.2.value, ex.2.summary⟩)
  externalDocs := f.externalDocs.map fun docs => ⟨docs.description, docs.url⟩
  tags := f.tags
  format := ptrString f.format

/-- The field of an entry of the document; an empty default is none. -/
def yamlToProtoField (path : String) (f : SchemaFieldYAML) : SchemaField where
  path := path
  fieldType := (yamlTypeToProto f.type).getD .string
  constraints := f.constraints.map yamlConstraintsToProto
  nullable := f.nullable
  defaultValue := ptrString f.default
  readOnly := f.readOnly
  writeOnce := f.writeOnce
  sensitive := f.sensitive
  deprecated := f.deprecated
  docs := yamlToProtoDocs f

/-- `yamlToProtoFields`: the fields in the order of their paths. -/
def yamlToProtoFields (doc : SchemaYAML) : List SchemaField :=
  (doc.fields.map fun p => yamlToProtoField p.1 p.2).insertionSort fun f g => f.path ≤ g.path

/-- `yamlToProtoDependentRequired`: triggers and dependents in order. -/
def yamlToProtoDependentRequired (m : List (String × List String)) :
    List DependentRequiredEntry :=
  (m.insertionSort fun p q => p.1 ≤ q.1).map fun p => ⟨p.1, p.2.insertionSort (· ≤ ·)⟩

def yamlToProtoValidations (vs : List ValidationYAML) : List PbValidationRule :=
  vs.map fun v => { path := v.path, rule := v.rule, message := v.message, reason := v.reason,
                    severity := v.severity }

theorem perm_yamlToProtoFields (doc : SchemaYAML) :
    (yamlToProtoFields doc).Perm (doc.fields.map fun p => yamlToProtoField p.1 p.2) :=
  List.perm_insertionSort _ _

/-- **The fields of a document have distinct paths.** -/
theorem nodup_yamlToProtoFields (doc : SchemaYAML) :
    ((yamlToProtoFields doc).map SchemaField.path).Nodup := by
  refine ((perm_yamlToProtoFields doc).map SchemaField.path).nodup_iff.mpr ?_
  simpa [Function.comp_def, yamlToProtoField] using doc.nodup

/-- `Dispatch` and `parserV1.Parse`, up to the conversion of the document. -/
def dispatchSchema (data : String) : Except String SchemaYAML :=
  match env.yamlHeader data with
  | .error e => .error ("invalid YAML: " ++ e)
  | .ok "" => .error "spec_version is required (supported: [v1])"
  | .ok "v1" =>
    match senv.yamlSchema data with
    | .error e => .error ("invalid YAML: " ++ e)
    | .ok doc => (validateSchemaYAML env senv doc).map fun _ => doc
  | .ok v => .error ("unsupported spec_version " ++ env.quote v ++ " (supported: [v1])")

end Document

/-! ### The checks on the fields -/

section Fields

variable (env : Env) (senv : SchemaEnv)

/-- `pb.FieldType`'s name. -/
def FieldType.protoName : FieldType → String
  | .integer => "FIELD_TYPE_INT"
  | .number => "FIELD_TYPE_NUMBER"
  | .string => "FIELD_TYPE_STRING"
  | .bool => "FIELD_TYPE_BOOL"
  | .time => "FIELD_TYPE_TIME"
  | .duration => "FIELD_TYPE_DURATION"
  | .url => "FIELD_TYPE_URL"
  | .json => "FIELD_TYPE_JSON"

/-- A constraint that is present has to be one for the type of the field. -/
def ensureApplies (f : SchemaField) (present applies : Bool) (keyword only : String) :
    Except String Unit :=
  ensure (!present || applies) ("field " ++ f.path ++ ": '" ++ keyword ++
    "' constraint is not valid for type " ++ f.fieldType.protoName ++ " (only " ++ only ++ ")")

/-- The pattern of a string field has to be short enough and to compile. -/
def checkPattern (f : SchemaField) (pattern : String) : Except String Unit := do
  ensure (senv.regexPatternMaxLength = 0 || pattern.utf8ByteSize ≤ senv.regexPatternMaxLength)
    ("field " ++ f.path ++ ": regex pattern exceeds maximum length of " ++
      formatInt senv.regexPatternMaxLength ++ " characters")
  match env.regexCompile pattern with
  | .ok _ => .ok ()
  | .error e => .error ("field " ++ f.path ++ ": invalid regex constraint: " ++ e)

def checkJSONSchema (f : SchemaField) (schema : String) : Except String Unit :=
  match env.jsonSchema schema with
  | .ok _ => .ok ()
  | .error e => .error ("field " ++ f.path ++ ": invalid json_schema constraint: " ++ e)

/-- Two bounds of one kind, if both are present. -/
def ensureRange {α : Type} (f : SchemaField) (lo hi : Option α) (bad : α → α → Bool)
    (text : α → String) (loName relation hiName : String) : Except String Unit :=
  match lo, hi with
  | some a, some b => ensure (!bad a b) ("field " ++ f.path ++ ": " ++ loName ++ " (" ++
      text a ++ ") " ++ relation ++ " " ++ hiName ++ " (" ++ text b ++ ")")
  | _, _ => .ok ()

def validateFieldConstraints (f : SchemaField) : Except String Unit :=
  match f.constraints with
  | none => .ok ()
  | some c => do
    let numeric := f.fieldType = .integer || f.fieldType = .number || f.fieldType = .duration
    let numericTypes := "integer, number, duration"
    ensureApplies f c.min.isSome numeric "minimum" numericTypes
    ensureApplies f c.max.isSome numeric "maximum" numericTypes
    ensureApplies f c.exclusiveMin.isSome numeric "exclusiveMinimum" numericTypes
    ensureApplies f c.exclusiveMax.isSome numeric "exclusiveMaximum" numericTypes
    ensureApplies f c.minLength.isSome (f.fieldType = .string) "minLength" "string"
    ensureApplies f c.maxLength.isSome (f.fieldType = .string) "maxLength" "string"
    ensureApplies f c.regex.isSome (f.fieldType = .string) "pattern" "string"
    c.regex.forM (checkPattern env senv f)
    ensureApplies f c.jsonSchema.isSome (f.fieldType = .json) "json_schema" "json"
    c.jsonSchema.forM (checkJSONSchema env f)
    ensureRange f c.min c.max (fun a b => b.lt a) sprintFloat "minimum" "is greater than"
      "maximum"
    ensureRange f c.exclusiveMin c.exclusiveMax (fun a b => b.le a) sprintFloat
      "exclusiveMinimum" "must be less than" "exclusiveMaximum"
    ensureRange f c.minLength c.maxLength (fun a b => b < a) formatInt "minLength"
      "is greater than" "maxLength"

def validateFieldConstraintsBatch (fields : List SchemaField) : Except String Unit :=
  fields.forM (validateFieldConstraints env senv)

def validateDependentRequiredAgainstFields (entries : List DependentRequiredEntry)
    (fields : List SchemaField) : Except String Unit :=
  entries.forM fun e =>
    checkDependentEntry env (fields.map SchemaField.path) e.triggerField e.dependentFields

/-- The loop of `validateNoPrefixOverlap` over neighbours in the sorted paths. -/
def checkNeighbours : List String → Except String Unit
  | prev :: cur :: rest => do
    ensure (!(prev ++ ".").toList.isPrefixOf cur.toList) ("field paths conflict: " ++
      env.quote prev ++ " is a strict prefix of " ++ env.quote cur ++
      " (a path cannot be both a leaf and a parent)")
    checkNeighbours (cur :: rest)
  | _ => .ok ()

def validateNoPrefixOverlap (fields : List SchemaField) : Except String Unit :=
  checkNeighbours env ((fields.map SchemaField.path).insertionSort (· ≤ ·))

/-- `fmt`'s `%v` of a boolean. -/
def sprintBool (b : Bool) : String :=
  if b then "true" else "false"

end Fields

/-! ### The call -/

structure ImportSchemaRequest where
  yamlContent : String
  autoPublish : Bool := false

/-- What `ImportSchema` checks before it writes: the document, and its fields and rules. -/
def acceptSchema (env : Env) (senv : SchemaEnv) (caller : Caller) (req : ImportSchemaRequest) :
    Except Status SchemaYAML := do
  mustHaveClaims caller
  accessGuards caller .global {}
  (ensure (senv.maxDocBytes = 0 || req.yamlContent.utf8ByteSize ≤ senv.maxDocBytes)
    ("schema document is " ++ formatInt req.yamlContent.utf8ByteSize ++
      " bytes, exceeds limit of " ++ formatInt senv.maxDocBytes)).mapError invalidArgument
  let doc ← (dispatchSchema env senv req.yamlContent).mapError fun e =>
    invalidArgument ("invalid schema YAML: " ++ e)
  let fields := yamlToProtoFields doc
  (ensure (senv.maxFields = 0 || fields.length ≤ senv.maxFields)
    ("schema has " ++ formatInt fields.length ++ " fields, exceeds limit of " ++
      formatInt senv.maxFields)).mapError invalidArgument
  (validateFieldConstraintsBatch env senv fields).mapError invalidArgument
  (validateDependentRequiredAgainstFields env
    (yamlToProtoDependentRequired doc.dependentRequired) fields).mapError invalidArgument
  (senv.lintValidations ((yamlToProtoValidations doc.validations).map (·.toValidationRule))
    fields).mapError invalidArgument
  pure doc

/-- `createFieldsOn`, the checks: those on the constraints are made a second time. -/
def checkNewFields (env : Env) (senv : SchemaEnv) (fields : List SchemaField) :
    Except Status Unit := do
  (validateNoPrefixOverlap env fields).mapError invalidArgument
  (validateFieldConstraintsBatch env senv fields).mapError invalidArgument

/-! ### What an accepted schema is checked for -/

section Accepted

variable {env : Env} {senv : SchemaEnv} {known deps : List String} {trigger : String}

@[simp] theorem ensure_eq_ok {p : Bool} {e : String} : ensure p e = .ok () ↔ p = true := by
  cases p <;> simp [ensure]

theorem forM_eq_ok {α ε : Type} {f : α → Except ε Unit} {l : List α} :
    forM l f = .ok () ↔ ∀ x ∈ l, f x = .ok () := by
  induction l with
  | nil => simp [pure, Except.pure]
  | cons x l ih => simp [seq_eq_ok, ih]

theorem checkDependents_eq_ok {seen : List String} :
    checkDependents env known trigger seen deps = .ok () ↔
      trigger ∉ deps ∧ (∀ d ∈ deps, d ∈ known) ∧ deps.Nodup ∧ ∀ d ∈ deps, d ∉ seen := by
  induction deps generalizing seen with
  | nil => simp [checkDependents]
  | cons dep deps ih =>
    simp only [checkDependents, seq_eq_ok, ensure_eq_ok, decide_eq_true_eq, ih]
    grind

theorem checkDependentEntry_eq_ok : checkDependentEntry env known trigger deps = .ok () ↔
      trigger ∈ known ∧ trigger ∉ deps ∧ (∀ d ∈ deps, d ∈ known) ∧ deps.Nodup := by
  simp [checkDependentEntry, seq_eq_ok, checkDependents_eq_ok]

end Accepted

end Decree
