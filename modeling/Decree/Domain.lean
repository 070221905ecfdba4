import Decree.Values

/-!
# Entities, Requests and the Outside World

The entities of the storage layer (`internal/storage/domain`), the requests of the config
and schema services that write, and `Env`, the functions of other libraries that the
code calls: a hash, a regular-expression engine, the YAML and JSON libraries, `fmt`. Nothing is
assumed about them.

Columns that the storage layer keeps encoded as JSON (`constraints`, `dependent_required`,
`validations`, `locked_values`) appear decoded. Generated identifiers and times of config versions
and audit entries are left out, and so are the columns no modelled function reads.

## Main definitions

* `Env`: the functions of other libraries.
* `Status`: the errors of a call.
-/

open Go

namespace Decree

/-! ### Status errors -/

/-- `codes.Code`, the ones the modelled calls return. -/
inductive Code where
  | invalidArgument
  | notFound
  | alreadyExists
  | permissionDenied
  | failedPrecondition
  | aborted
  | internal
  | unavailable
  | unauthenticated
deriving DecidableEq, Repr

/-- A gRPC status error. -/
structure Status where
  code : Code
  message : String
deriving DecidableEq, Repr

/-! ### Schemas and tenants -/

structure FieldConstraints where
  min : Option Float64 := none
  max : Option Float64 := none
  exclusiveMin : Option Float64 := none
  exclusiveMax : Option Float64 := none
  minLength : Option ℤ := none
  maxLength : Option ℤ := none
  regex : Option String := none
  enumValues : List String := []
  jsonSchema : Option String := none
  allowedSchemes : List String := []
deriving DecidableEq

structure FieldExample where
  value : String := ""
  summary : String := ""
deriving DecidableEq

structure ExternalDocs where
  description : String := ""
  url : String := ""
deriving DecidableEq

/-- The attributes of a field that only document it; the examples are a map. -/
structure FieldDocs where
  description : Option String := none
  redirectTo : Option String := none
  title : Option String := none
  exampleValue : Option String := none
  examples : List (String × FieldExample) := []
  externalDocs : Option ExternalDocs := none
  tags : List String := []
  format : Option String := none
deriving DecidableEq

structure SchemaField where
  path : String
  fieldType : FieldType
  constraints : Option FieldConstraints := none
  nullable : Bool := false
  defaultValue : Option String := none
  readOnly : Bool := false
  writeOnce : Bool := false
  sensitive : Bool := false
  deprecated : Bool := false
  docs : FieldDocs := {}
deriving DecidableEq

structure DependentRequiredEntry where
  triggerField : String
  dependentFields : List String
deriving DecidableEq

/-- `pb.ValidationRule`: a CEL rule over the whole config. -/
structure ValidationRule where
  path : String
  rule : String
  message : String
  reason : String
deriving DecidableEq

/-- `domain.SchemaVersion` with its fields. The field paths are distinct:
`UNIQUE(schema_version_id, path)`. -/
structure SchemaVersion where
  id : String
  schemaID : String
  version : ℤ
  published : Bool
  dependentRequired : List DependentRequiredEntry
  validations : List ValidationRule
  fields : List SchemaField
  nodup : (fields.map SchemaField.path).Nodup
deriving DecidableEq

/-- `domain.Tenant`; `deleted` is whether `deleted_at` is set. -/
structure Tenant where
  id : String
  name : String
  schemaID : String
  schemaVersion : ℤ
  deleted : Bool
deriving DecidableEq

/-- The `locked_values` of a field lock: absent, text that is not a list of strings, or
the list. -/
inductive LockedValues where
  | absent
  | unparseable
  | values (vs : List String)
deriving DecidableEq

/-- `domain.TenantFieldLock`, of one tenant. -/
structure TenantFieldLock where
  fieldPath : String
  lockedValues : LockedValues
deriving DecidableEq

/-! ### Config -/

/-- `domain.ConfigValue`: one row of a version. A null value is `none`. -/
structure ConfigValue where
  fieldPath : String
  value : Option String
  checksum : Option String
  description : Option String
deriving DecidableEq

/-- A config version with its rows, which hold only the fields the version changes and
have distinct paths: `PRIMARY KEY (config_version_id, field_path)`. `writer` is not a
column: it is the call that wrote the version, by which statements about runs identify
it. -/
structure ConfigVersion where
  version : ℤ
  description : Option String
  createdBy : String
  values : List ConfigValue
  writer : ℕ
  nodup : (values.map ConfigValue.fieldPath).Nodup
deriving DecidableEq

/-- `domain.AuditWriteLog`, without its hash chain. -/
structure AuditEntry where
  tenantID : String
  actor : String
  action : String
  objectKind : String
  fieldPath : Option String := none
  oldValue : Option String := none
  newValue : Option String := none
  configVersion : Option ℤ := none
deriving DecidableEq

structure FieldChange where
  fieldPath : String
  oldValue : String
  newValue : String
deriving DecidableEq

structure ConfigChangeEvent where
  tenantID : String
  version : ℤ
  changes : List FieldChange
  changedBy : String
deriving DecidableEq

/-- `pb.ConfigChange`, the message of a stream, without its time. -/
structure ConfigChange where
  tenantId : String
  version : ℤ
  fieldPath : String
  oldValue : Option TypedValue := none
  newValue : Option TypedValue
  changedBy : String
deriving DecidableEq

structure PbConfigValue where
  fieldPath : String
  value : Option TypedValue
  checksum : String
  description : Option String := none
deriving DecidableEq

structure PbConfig where
  tenantId : String
  version : ℤ
  values : List PbConfigValue := []
deriving DecidableEq

inductive ChangeType where
  | added
  | removed
  | modified
deriving DecidableEq, Repr

structure FieldDiff where
  fieldPath : String
  changeType : ChangeType
  oldValue : String := ""
  newValue : String := ""
deriving DecidableEq

/-! ### Callers and requests -/

inductive Role where
  | superadmin
  | admin
  | user
deriving DecidableEq, Repr

structure Claims where
  role : Role
  tenantIDs : List String
  subject : String
deriving DecidableEq

/-- What the request context says about the caller: its claims, and whether the context
is marked as an internal one that bypasses authentication. -/
structure Caller where
  claims : Option Claims
  withoutAuth : Bool := false
deriving DecidableEq

structure SetFieldRequest where
  tenantId : String
  fieldPath : String
  value : Option TypedValue
  expectedChecksum : Option String := none
  description : String := ""
  valueDescription : String := ""
  idempotencyKey : String := ""
deriving DecidableEq

structure FieldUpdate where
  fieldPath : String
  value : Option TypedValue
  expectedChecksum : Option String := none
  valueDescription : String := ""
deriving DecidableEq

structure SetFieldsRequest where
  tenantId : String
  updates : List FieldUpdate
  description : String := ""
  idempotencyKey : String := ""
deriving DecidableEq

/-- `pb.RollbackToVersionRequest`. -/
structure RollbackRequest where
  tenantId : String
  version : ℤ
  description : Option String := none
deriving DecidableEq

inductive ImportMode where
  | unspecified
  | merge
  | replace
  | defaults
deriving DecidableEq, Repr

/-- `pb.ImportConfigRequest`. -/
structure ImportRequest where
  tenantId : String
  yamlContent : String
  mode : ImportMode
  description : Option String := none
deriving DecidableEq

structure LockFieldRequest where
  tenantId : String
  fieldPath : String
  lockedValues : List String
deriving DecidableEq

structure UnlockFieldRequest where
  tenantId : String
  fieldPath : String
deriving DecidableEq

structure CreateTenantRequest where
  name : String
  schemaId : String
  schemaVersion : ℤ
deriving DecidableEq

structure GetConfigRequest where
  tenantId : String
  version : Option ℤ := none
  includeDescriptions : Bool := false
deriving DecidableEq

structure GetFieldRequest where
  tenantId : String
  fieldPath : String
  version : Option ℤ := none
  includeDescription : Bool := false
deriving DecidableEq

structure GetFieldsRequest where
  tenantId : String
  fieldPaths : List String
  version : Option ℤ := none
  includeDescriptions : Bool := false
deriving DecidableEq

structure DiffVersionsRequest where
  tenantId : String
  fromVersion : ℤ
  toVersion : ℤ
deriving DecidableEq

structure ExportConfigRequest where
  tenantId : String
  version : Option ℤ := none
  specVersion : Option String := none
deriving DecidableEq

structure SubscribeRequest where
  tenantId : String
  fieldPaths : List String := []
  startVersion : Option ℤ := none
deriving DecidableEq

/-! ### YAML documents -/

/-- A value that the YAML decoder produces for an untyped field. -/
inductive YamlValue where
  | null
  | bool (b : Bool)
  | int (i : I64)
  | uint64 (n : ℕ)
  | float (x : Float64)
  | str (s : String)
  | time (t : Time)
  | seq (xs : List YamlValue)
  | map (kvs : List (String × YamlValue))

/-- `ConfigValueYAML`, with the keys of its inline extensions. -/
structure ConfigValueYAML where
  value : YamlValue
  description : String := ""
  extensions : List String := []

/-- `ConfigYAML`, with the keys of its inline extensions. Its values are a map: the paths
are distinct. -/
structure ConfigYAML where
  specVersion : String
  version : ℤ := 0
  description : String
  values : List (String × ConfigValueYAML)
  extensions : List String
  nodup : (values.map Prod.fst).Nodup

/-! ### CEL -/

/-- A value of a CEL activation: null, a value of the field's type, the parsed form of a
JSON text that is no object (which the text determines), or a map: an object, or the values
below a path. -/
inductive CelValue where
  | null
  | int (i : I64)
  | double (x : Float64)
  | bool (b : Bool)
  | timestamp (t : Time)
  | duration (d : I64)
  | json (text : String)
  | str (s : String)
  | map (kvs : List (String × CelValue))

/-- The variables of a CEL program. -/
structure CelActivation where
  self : List (String × CelValue)
  tenantID : String
  tenantName : String

/-- What evaluating a CEL program gives: an error, a boolean, or a value of another type,
and the cost if it is tracked. -/
inductive CelResult where
  | error (message : String)
  | bool (b : Bool) (cost : Option ℕ)
  | other (typeName : String) (cost : Option ℕ)
deriving DecidableEq

def CelProgram := CelActivation → CelResult

/-! ### The environment -/

/-- **The outside world**: the functions of other libraries, and the limits the process
is configured with. -/
structure Env where
  /-- `xxhash.Sum64String`. -/
  xxhash : String → ℕ
  /-- `fmt`'s `%q` of a string. -/
  quote : String → String
  /-- `fmt`'s `%v` of a decoded YAML value that is no scalar. -/
  sprintYaml : YamlValue → String
  /-- `json.Marshal` of a decoded YAML value. -/
  jsonMarshal : YamlValue → Except String String
  /-- `json.Unmarshal` into an untyped value, in a CEL activation. -/
  jsonNative : String → Option CelValue
  /-- `json.Unmarshal` into an untyped value. -/
  jsonUnmarshal : String → Option YamlValue
  /-- `int64(x)` of a number that is out of range, which the language leaves open. -/
  int64OfFloat : Float64 → I64
  /-- `yaml.Unmarshal` into the header of a document. -/
  yamlHeader : String → Except String String
  /-- `yaml.Unmarshal` into a config document. -/
  yamlConfig : String → Except String ConfigYAML
  /-- `yaml.Marshal` of a config document. -/
  yamlMarshal : ConfigYAML → Except String String
  /-- `regexp.Compile` and `MatchString`. -/
  regexCompile : String → Except String (String → Bool)
  /-- `url.Parse`: the scheme, empty for a relative reference. -/
  urlParse : String → Option String
  /-- The compiler of JSON-schema constraints, and its validator's errors. -/
  jsonSchema : String → Except String (String → Option String)
  /-- The CEL compiler over the fields of a schema. -/
  celCompile : List SchemaField → ValidationRule → Except String CelProgram
  /-- The cap on the cost of all rules together. -/
  celAggregateCostCap : ℕ
  /-- The cap on the length of a regular expression; zero is none. -/
  regexMaxLength : ℕ
  /-- `MaxListLen`, `MaxDocBytes` and `MaxFieldValueBytes`; zero is none. -/
  maxListLen : ℕ
  maxDocBytes : ℕ
  maxFieldValueBytes : ℕ
  /-- Whether the config service has a validator factory. -/
  hasValidators : Bool
  /-- Whether the config service has an idempotency cache. -/
  hasIdempotencyCache : Bool

variable (env : Env)

/-- `computeChecksum` and `configValueChecksum`: the hash in base sixteen. -/
def computeChecksum (value : String) : String :=
  String.ofList (Nat.toDigits 16 (env.xxhash value))

/-- `checksumPtr`: a null has no checksum. -/
def checksumPtr (value : Option String) : Option String :=
  value.map (computeChecksum env)

def derefString (s : Option String) : String :=
  s.getD ""

/-- `ptrString`: the empty string is a null. -/
def ptrString (s : String) : Option String :=
  if s = "" then none else some s

theorem ptrString_of_ne {s : String} (h : s ≠ "") : ptrString s = some s :=
  if_neg h

def redactIfSensitive (sensitive : Bool) (value : String) : String :=
  if sensitive then "[REDACTED]" else value

/-- The sum of a version number in `int32`, which wraps. -/
def wrap32 (i : ℤ) : ℤ :=
  (i + 2 ^ 31) % 2 ^ 32 - 2 ^ 31

theorem wrap32_of_lt {i : ℤ} (h : -2 ^ 31 ≤ i) (h' : i < 2 ^ 31) : wrap32 i = i := by
  simp only [wrap32]
  omega

/-- `fmt`'s `%v` of a list of strings. -/
def sprintStrings (xs : List String) : String :=
  "[" ++ " ".intercalate xs ++ "]"

end Decree
