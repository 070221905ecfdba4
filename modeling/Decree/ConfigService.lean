import Decree.Program
import Decree.Yaml

/-!
# The Config Service

The calls that create a config version (`internal/config/service.go`): `SetField`,
`SetFields`, `RollbackToVersion` and `ImportConfig`. They differ in what they read and check
beforehand, and in the rows they write; each ends in `commitWrite`.

## Main definitions

* `setField`, `setFields`, `rollbackToVersion`, `importConfig`: the calls.
-/

open Go Interleave

namespace Decree

variable (env : Env)

/-! ### SetField -/

def rowOfValue (fieldPath : String) (value : Option TypedValue) (description : String) :
    ConfigValue :=
  ⟨fieldPath, typedValueToString value, checksumPtr env (typedValueToString value),
    ptrString description⟩

def setFieldAudit (tenantID actor : String) (fields : List SchemaField) (fieldPath : String)
    (value : Option TypedValue) (oldValue : String) (version : ℤ) : AuditEntry where
  tenantID := tenantID
  actor := actor
  action := "set_field"
  objectKind := "field"
  fieldPath := ptrString fieldPath
  oldValue := ptrString (redactIfSensitive (isSensitive fields fieldPath) oldValue)
  newValue := ptrString (redactIfSensitive (isSensitive fields fieldPath)
    (derefString (typedValueToString value)))
  configVersion := some version

def setFieldWrite (caller : Caller) (req : SetFieldRequest) (tenantID : String) :
    VersionWrite where
  tenantID := tenantID
  description := ptrString req.description
  actor := getActor caller
  expected := req.expectedChecksum.toList.map (req.fieldPath, ·)
  rows := [rowOfValue env req.fieldPath req.value req.valueDescription]

/-- The part of `SetField` behind the idempotency key. -/
def applySetField (caller : Caller) (req : SetFieldRequest) (tenantID : String) :
    Proc Status Reply := do
  validateField env tenantID req.fieldPath req.value
  let latest ← resolveVersion tenantID
  let oldValue ← getCurrentValue tenantID req.fieldPath latest
  let fields ← getSchemaFieldSets tenantID
  ofExcept (checkWriteAttributes fields req.fieldPath oldValue)
  let depRules ← fetchDependentRequiredRules env tenantID
  commitWrite (setFieldWrite env caller req tenantID)
    (enforceThenAudit env tenantID depRules fun version =>
      [setFieldAudit tenantID (getActor caller) fields req.fieldPath req.value oldValue version])
    (txStatus "concurrent write conflict; retry with the latest checksum"
      "failed to set field" true)
    (some [redactChange fields ⟨req.fieldPath, oldValue, typedValueToDisplayString req.value⟩])

def setField (caller : Caller) (req : SetFieldRequest) : Proc Status Reply := do
  ofExcept (mustHaveClaims caller)
  require (req.fieldPath ≠ "") ⟨.invalidArgument, "field_path must not be empty"⟩
  let tenantID ← resolveTenantID req.tenantId
  guardCheck env caller .write
    ⟨tenantID, req.fieldPath, derefString (typedValueToString req.value)⟩ none
  let first ← claimKey env tenantID req.idempotencyKey
  if first then applySetField env caller req tenantID else pure .duplicate

/-! ### SetFields -/

/-- The checks of one update of `SetFields`. -/
def checkUpdate (caller : Caller) (tenantID : String) (locks : List TenantFieldLock)
    (u : FieldUpdate) : Proc Status Unit := do
  require (u.fieldPath ≠ "") ⟨.invalidArgument, "field_path must not be empty"⟩
  guardCheck env caller .write
    ⟨tenantID, u.fieldPath, derefString (typedValueToString u.value)⟩ (some locks)
  validateField env tenantID u.fieldPath u.value

def readChange (tenantID : String) (latest : ℤ) (fieldPath newValue : String) :
    Proc Status FieldChange := do
  let oldValue ← getCurrentValue tenantID fieldPath latest
  pure ⟨fieldPath, oldValue, newValue⟩

def setFieldsWrite (caller : Caller) (req : SetFieldsRequest) (tenantID : String) :
    VersionWrite where
  tenantID := tenantID
  description := ptrString req.description
  actor := getActor caller
  expected := req.updates.filterMap fun u => u.expectedChecksum.map (u.fieldPath, ·)
  rows := req.updates.map fun u => rowOfValue env u.fieldPath u.value u.valueDescription

/-- The part of `SetFields` behind the idempotency key. -/
def applySetFields (caller : Caller) (req : SetFieldsRequest) (tenantID : String) :
    Proc Status Reply := do
  let locks ← fetch false (.fieldLocks tenantID) fun _ =>
    internal "failed to check field locks"
  forEach (checkUpdate env caller tenantID locks) req.updates
  let latest ← resolveVersion tenantID
  let changes ← collect (fun u : FieldUpdate =>
    readChange tenantID latest u.fieldPath (typedValueToDisplayString u.value)) req.updates
  let fields ← getSchemaFieldSets tenantID
  ofExcept (checkAllWriteAttributes fields changes)
  let depRules ← fetchDependentRequiredRules env tenantID
  commitWrite (setFieldsWrite env caller req tenantID)
    (auditThenEnforce env tenantID depRules fun version =>
      List.zipWith (fun (u : FieldUpdate) ch => setFieldAudit tenantID (getActor caller) fields
        u.fieldPath u.value ch.oldValue version) req.updates changes)
    (txStatus "concurrent write conflict; retry with the latest checksum"
      "failed to set fields" true)
    (some (changes.map (redactChange fields)))

def setFields (caller : Caller) (req : SetFieldsRequest) : Proc Status Reply := do
  ofExcept (mustHaveClaims caller)
  let tenantID ← resolveTenantWithAccess env caller req.tenantId .write
  require (req.updates ≠ []) ⟨.invalidArgument, "updates must not be empty"⟩
  require (env.maxListLen = 0 ∨ req.updates.length ≤ env.maxListLen)
    ⟨.invalidArgument, "request has " ++ formatInt req.updates.length ++
      " updates, exceeds limit of " ++ formatInt env.maxListLen⟩
  let first ← claimKey env tenantID req.idempotencyKey
  if first then applySetFields env caller req tenantID else pure .duplicate

/-! ### RollbackToVersion -/

/-- The checks of one row that `RollbackToVersion` restores. -/
def checkRestored (caller : Caller) (tenantID : String) (locks : List TenantFieldLock)
    (types : List (String × FieldType)) (row : ConfigValue) : Proc Status Unit := do
  guardCheck env caller .write ⟨tenantID, row.fieldPath, derefString row.value⟩ (some locks)
  validateField env tenantID row.fieldPath
    (stringToTypedValue row.value (types.lookup row.fieldPath))

/-- The write attributes of one restored row; the current value of a field without
attributes is not read. -/
def checkRestoredAttributes (tenantID : String) (fields : List SchemaField) (latest : ℤ)
    (row : ConfigValue) : Proc Status Unit :=
  if fields.any fun f => f.path = row.fieldPath && (f.readOnly || f.writeOnce) then do
    let currentValue ← getCurrentValue tenantID row.fieldPath latest
    ofExcept (checkWriteAttributes fields row.fieldPath currentValue)
  else pure ()

def rollbackAudit (tenantID actor : String) (target version : ℤ) : AuditEntry where
  tenantID := tenantID
  actor := actor
  action := "rollback"
  objectKind := "field"
  newValue := some ("v" ++ formatInt target)
  configVersion := some version

/-- What `RollbackToVersion` writes: the rows of the target snapshot as they are. -/
def rollbackWrite (caller : Caller) (req : RollbackRequest) (tenantID : String)
    (targetRows : List ConfigValue) : VersionWrite where
  tenantID := tenantID
  description := some (req.description.getD ("Rollback to version " ++ formatInt req.version))
  actor := getActor caller
  rows := targetRows

/-- **`RollbackToVersion`**. Nothing is published. -/
def rollbackToVersion (caller : Caller) (req : RollbackRequest) : Proc Status Reply := do
  ofExcept (mustHaveClaims caller)
  let tenantID ← resolveTenantWithAccess env caller req.tenantId .write
  let targetRows : List ConfigValue ← fetch false (.fullConfigAtVersion tenantID req.version)
    fun _ => internal "failed to get target version config"
  require (targetRows ≠ []) ⟨.notFound, "target version not found or empty"⟩
  let locks ← fetch false (.fieldLocks tenantID) fun _ =>
    internal "failed to check field locks"
  let types ← fieldTypeMap env id tenantID
  forEach (checkRestored env caller tenantID locks types) targetRows
  let fields ← getSchemaFieldSets tenantID
  let latest ← resolveVersion tenantID
  forEach (checkRestoredAttributes tenantID fields latest) targetRows
  let depRules ← fetchDependentRequiredRules env tenantID
  commitWrite (rollbackWrite caller req tenantID targetRows)
    (enforceThenAudit env tenantID depRules fun version =>
      [rollbackAudit tenantID (getActor caller) req.version version])
    (txStatus "concurrent write conflict; retry the rollback" "failed to rollback" false)
    none

/-! ### ImportConfig -/

def checkImported (caller : Caller) (tenantID : String) (types : List (String × FieldType))
    (v : ConfigValueImport) : Proc Status Unit := do
  require (env.maxFieldValueBytes = 0 ∨ v.value.utf8ByteSize ≤ env.maxFieldValueBytes)
    ⟨.invalidArgument, "field " ++ env.quote v.fieldPath ++ " value is " ++
      formatInt v.value.utf8ByteSize ++ " bytes, exceeds limit of " ++
      formatInt env.maxFieldValueBytes⟩
  guardCheck env caller .write ⟨tenantID, v.fieldPath, v.value⟩ none
  validateField env tenantID v.fieldPath
    (stringToTypedValue (some v.value) (types.lookup v.fieldPath))

/-- The values that differ from the current ones. -/
def changedValues (tenantID : String) (latest : ℤ) :
    List ConfigValueImport → Proc Status (List ConfigValueImport)
  | [] => pure []
  | v :: vs => do
      let current ← getCurrentValue tenantID v.fieldPath latest
      let rest ← changedValues tenantID latest vs
      pure (if current ≠ v.value then v :: rest else rest)

def filterByImportMode (tenantID : String) (latest : ℤ) (values : List ConfigValueImport)
    (mode : ImportMode) : Proc Status (List ConfigValueImport) :=
  match mode with
  | .replace => pure values
  | .defaults =>
    if latest = 0 then pure values
    else
      ask (.read false (.fullConfigAtVersion tenantID latest)) fun r =>
        match (r : Except StoreErr (List ConfigValue)) with
        | .error _ => .ok values
        | .ok rows =>
          .ok (values.filter fun v => v.fieldPath ∉ rows.map ConfigValue.fieldPath)
  | .merge | .unspecified =>
    if latest = 0 then pure values else changedValues tenantID latest values

def rowOfImport (v : ConfigValueImport) : ConfigValue :=
  ⟨v.fieldPath, some v.value, checksumPtr env (some v.value), v.description⟩

def importAudit (tenantID actor : String) (fields : List SchemaField) (ch : FieldChange)
    (version : ℤ) : AuditEntry where
  tenantID := tenantID
  actor := actor
  action := "import"
  objectKind := "field"
  fieldPath := ptrString ch.fieldPath
  oldValue := ptrString (redactIfSensitive (isSensitive fields ch.fieldPath) ch.oldValue)
  newValue := some (redactIfSensitive (isSensitive fields ch.fieldPath) ch.newValue)
  configVersion := some version

def importWrite (caller : Caller) (req : ImportRequest) (tenantID docDescription : String)
    (values : List ConfigValueImport) : VersionWrite where
  tenantID := tenantID
  description := some (req.description.getD
    (if docDescription ≠ "" then docDescription else "Import from YAML"))
  actor := getActor caller
  rows := values.map (rowOfImport env)

/-- **`ImportConfig`**. The current values are read concurrently in the source; they are read
at one committed version. -/
def importConfig (caller : Caller) (req : ImportRequest) : Proc Status Reply := do
  ofExcept (mustHaveClaims caller)
  require (env.maxDocBytes = 0 ∨ req.yamlContent.utf8ByteSize ≤ env.maxDocBytes)
    ⟨.invalidArgument, "config document is " ++ formatInt req.yamlContent.utf8ByteSize ++
      " bytes, exceeds limit of " ++ formatInt env.maxDocBytes⟩
  let tenantID ← resolveTenantWithAccess env caller req.tenantId .write
  let _ ← fetch false (.tenantByID tenantID) fun _ => (⟨.notFound, "tenant not found"⟩ : Status)
  let types ← fieldTypeMap env id tenantID
  let parsed ← ofExcept ((dispatchImport env req.yamlContent (types.lookup ·)).mapError fun e =>
    (⟨.invalidArgument, "invalid config YAML: " ++ e⟩ : Status))
  forEach (checkImported env caller tenantID types) parsed.values
  let latest ← resolveVersion tenantID
  let values ← filterByImportMode tenantID latest parsed.values req.mode
  require (values ≠ []) ⟨.alreadyExists, "no changes to apply"⟩
  let changes ← collect (fun v : ConfigValueImport =>
    readChange tenantID latest v.fieldPath v.value) values
  let fields ← getSchemaFieldSets tenantID
  ofExcept (checkAllWriteAttributes fields changes)
  let depRules ← fetchDependentRequiredRules env tenantID
  commitWrite (importWrite env caller req tenantID parsed.description values)
    (auditThenEnforce env tenantID depRules fun version =>
      changes.map fun ch => importAudit tenantID (getActor caller) fields ch version)
    (txStatus "concurrent write conflict; retry the import" "failed to import config" false)
    (some (changes.map (redactChange fields)))

end Decree
