import Decree.Program

/-!
# The Schema Service

The calls of the schema service that field locks and new tenants come from
(`internal/schema/service.go`, `seed.go`): `LockField`, `UnlockField`, and `CreateTenant` with
the defaults it seeds.

## Main definitions

* `TenantReads`: the reads about tenants, over any store.
* `createTenant`, `lockField`, `unlockField`: the calls.
-/

open Go Interleave

namespace Decree

variable (env : Env)

/-! ### The schema service -/

/-- The reads of the store that the calls about tenants make, as programs of a monad, with the
checks between them. `V` is the row of a schema version. -/
structure TenantReads (m : Type → Type) (V : Type) where
  check : {α : Type} → Except Status α → m α
  tenantByID : String → m Tenant
  tenantByName : String → m Tenant
  schemaVersion : String → ℤ → m V
  schemaFields : V → m (List SchemaField)
  published : V → Bool

/-- The reads over the store of the config service. -/
def storeReads : TenantReads (Proc Status) SchemaVersion where
  check := ofExcept
  tenantByID id := fetch false (.tenantByID id)
    (lookupError "tenant not found" "failed to resolve tenant")
  tenantByName name := fetch false (.tenantByName name)
    (lookupError "tenant not found" "failed to resolve tenant")
  schemaVersion schemaID version := fetch false (.schemaVersion schemaID version)
    (lookupError "schema version not found" "failed to get schema version")
  schemaFields sv := fetch false (.schemaFields sv.id) fun _ =>
    internal "failed to load schema fields"
  published := SchemaVersion.published

section Reads

variable {m : Type → Type} [Monad m] {V : Type} (R : TenantReads m V)

def TenantReads.lookupTenant (idOrName : String) : m Tenant :=
  if isUUID idOrName then R.tenantByID idOrName else R.tenantByName idOrName

/-- `resolveTenantWithAccess` of the schema service. A denied caller learns nothing about the
tenant. -/
def TenantReads.resolveTenant (caller : Caller) (idOrName : String) : m Tenant := do
  R.check (demand (idOrName ≠ "") (invalidArgument "tenant id or name required"))
  let tenant ← R.lookupTenant idOrName
  R.check ((accessGuards caller .read { tenantID := tenant.id }).mapError fun e =>
    if e.code = .permissionDenied then ⟨.notFound, "tenant not found"⟩ else e)
  pure tenant

/-- The version that a tenant is assigned to exists and is published. -/
def TenantReads.publishedVersion (schemaID : String) (version : ℤ) : m V := do
  let sv ← R.schemaVersion schemaID version
  R.check (demand (R.published sv)
    ⟨.failedPrecondition, "schema version must be published before assigning to a tenant"⟩)
  pure sv

/-- The version that `UpdateTenant` is asked for, if it is, has to be published. -/
def TenantReads.checkVersion (schemaID : String) : Option ℤ → m Unit
  | none => pure ()
  | some version => do
      let _ ← R.publishedVersion schemaID version
      pure ()

end Reads

def lockAudit (tenantID actor action fieldPath : String) : AuditEntry where
  tenantID := tenantID
  actor := actor
  action := action
  objectKind := "lock"
  fieldPath := ptrString fieldPath

/-- The shape of `LockField` and `UnlockField`: one statement on the locks, and its audit
entry. -/
def changeLock (caller : Caller) (tenantId fieldPath action failedMsg : String)
    (write : String → Proc TxErr Unit) : Proc Status Reply := do
  ofExcept (mustHaveClaims caller)
  require (fieldPath ≠ "") ⟨.invalidArgument, "field_path must not be empty"⟩
  let tenant ← storeReads.resolveTenant caller tenantId
  ofExcept (accessGuards caller .write { tenantID := tenant.id })
  transact
    (runInTx do
      write tenant.id
      insertAudit [lockAudit tenant.id (getActor caller) action fieldPath])
    fun _ => internal failedMsg
  pure .done

/-- **`LockField`**: without values the whole field is locked. -/
def lockField (caller : Caller) (req : LockFieldRequest) : Proc Status Reply :=
  changeLock caller req.tenantId req.fieldPath "lock_field" "failed to lock field" fun tenantID =>
    ask (.createFieldLock tenantID req.fieldPath
      (if req.lockedValues = [] then .absent else .values req.lockedValues))
      (Except.mapError fun _ => .failed)

def unlockField (caller : Caller) (req : UnlockFieldRequest) : Proc Status Reply :=
  changeLock caller req.tenantId req.fieldPath "unlock_field" "failed to unlock field"
    fun tenantID =>
      ask (.deleteFieldLock tenantID req.fieldPath) fun r =>
        match (r : Except StoreErr Bool) with
        | .ok _ => .ok ()
        | .error _ => .error .failed

def isValidSlug (name : String) : Bool :=
  let alnum (c : Char) : Bool := ('a' ≤ c && c ≤ 'z') || ('0' ≤ c && c ≤ '9')
  let chars := name.toList
  1 ≤ name.utf8ByteSize && name.utf8ByteSize ≤ 63 &&
    chars.all (fun c => alnum c || c = '-') && chars.head?.any alnum && chars.getLast?.any alnum

/-- `defaultToTypedValue`: the value of a default, if it parses. -/
def defaultToTypedValue (s : String) (ft : FieldType) : Except String TypedValue :=
  if Parses ft s then .ok (parseStorage (some ft) s)
  else
    .error (match ft with
      | .integer => "not an integer: " ++ env.quote s
      | .number => "not a number: " ++ env.quote s
      | .bool => "not a bool: " ++ env.quote s
      | .time => "not an RFC3339 time: " ++ env.quote s
      | .duration => "not a duration: " ++ env.quote s
      | .string | .url | .json => "")

def validateDefaultValue (f : SchemaField) (default : String) : Except String Unit :=
  match defaultToTypedValue env default f.fieldType with
  | .error e => .error ("field " ++ f.path ++ ": invalid default value: " ++ e)
  | .ok tv =>
    match (newFieldValidator env f).validate (some tv) with
    | some e => .error ("invalid default value: " ++ e)
    | none => .ok ()

/-- `collectDefaultValues`: the rows of the defaults. -/
def collectDefaultValues : List SchemaField → Except String (List ConfigValue)
  | [] => .ok []
  | f :: fs =>
    match f.defaultValue with
    | none => collectDefaultValues fs
    | some default =>
      match validateDefaultValue env f default with
      | .error e => .error e
      | .ok () =>
        (collectDefaultValues fs).map
          (⟨f.path, some default, some (computeChecksum env default), none⟩ :: ·)

def defaultRow (f : SchemaField) : Option ConfigValue :=
  f.defaultValue.map fun default =>
    ⟨f.path, some default, some (computeChecksum env default), none⟩

/-- The rows are those of all fields that declare a default. -/
theorem rows_of_collectDefaultValues {env : Env} {fields : List SchemaField}
    {rows : List ConfigValue} (h : collectDefaultValues env fields = .ok rows) :
    rows = fields.filterMap (defaultRow env) := by
  induction fields generalizing rows with
  | nil => exact (Except.ok.inj h).symm
  | cons f fields ih =>
    simp only [collectDefaultValues] at h
    cases hd : f.defaultValue with
    | none =>
      rw [hd] at h
      rw [List.filterMap_cons_none (by simp [defaultRow, hd]), ← ih h]
    | some default =>
      simp only [hd] at h
      split at h
      · cases h
      · cases hrest : collectDefaultValues env fields with
        | error e =>
          rw [hrest] at h
          cases h
        | ok rest =>
          rw [hrest] at h
          cases h
          rw [ih hrest]
          simp [defaultRow, hd]

/-- `SeedTenantConfig`: the defaults as the first version. -/
def seedTenantConfig (tenantID actor : String) (rows : List ConfigValue) : Proc TxErr Unit := do
  let _ ← ask (.createConfigVersion
    ⟨tenantID, 1, some "Initial config from schema defaults", actor⟩)
    (Except.mapError fun _ => TxErr.failed)
  setConfigValues rows

/-- The transaction of `CreateTenant`. -/
def createTenantTx (caller : Caller) (req : CreateTenantRequest) (defaults : List ConfigValue) :
    Proc TxErr Tenant := do
  let tenant ← ask (.createTenant req.name req.schemaId req.schemaVersion) fun r =>
    (r : Except StoreErr Tenant).mapError fun e =>
      match e with
      | .alreadyExists => .status ⟨.alreadyExists, "tenant with this name already exists"⟩
      | _ => .failed
  (if defaults = [] then pure ()
    else seedTenantConfig tenant.id (getActor caller) defaults : Proc TxErr Unit)
  insertAudit [{ tenantID := tenant.id, actor := getActor caller, action := "create_tenant",
                 objectKind := "tenant", newValue := ptrString tenant.id }]
  pure tenant

/-- The check of the caller of a call that is about no tenant. -/
def admitGlobal (caller : Caller) : Except Status Unit := do
  mustHaveClaims caller
  accessGuards caller .global {}

def checkCreateTenant (caller : Caller) (req : CreateTenantRequest) : Except Status Unit := do
  admitGlobal caller
  demand (req.name ≠ "") (invalidArgument "name is required")
  demand (isValidSlug req.name)
    (invalidArgument "name must be a slug: lowercase alphanumeric and hyphens, 1-63 chars")
  demand (isUUID req.schemaId) (invalidArgument "invalid schema id")

section Reads

variable {m : Type → Type} [Monad m] {V : Type} (R : TenantReads m V)

/-- What `CreateTenant` does before its transaction: the checks, and the defaults that it
seeds. -/
def TenantReads.prepareCreate (caller : Caller) (req : CreateTenantRequest) :
    m (List ConfigValue) := do
  R.check (checkCreateTenant caller req)
  let version ← R.publishedVersion req.schemaId req.schemaVersion
  let fields ← R.schemaFields version
  R.check ((collectDefaultValues env fields).mapError fun e =>
    (⟨.failedPrecondition, e⟩ : Status))

structure UpdateTenantRequest where
  id : String
  name : Option String := none
  schemaVersion : Option ℤ := none
deriving DecidableEq

/-- What `UpdateTenant` does before its transaction. -/
def TenantReads.prepareUpdate (caller : Caller) (req : UpdateTenantRequest) : m Tenant := do
  R.check (mustHaveClaims caller)
  let resolved ← R.resolveTenant caller req.id
  R.check (accessGuards caller .global {})
  R.checkVersion resolved.schemaID req.schemaVersion
  R.check (demand (req.name.all fun name => name = "" || isValidSlug name)
    (invalidArgument "name must be a slug: lowercase alphanumeric and hyphens, 1-63 chars"))
  pure resolved

end Reads

def createTenant (caller : Caller) (req : CreateTenantRequest) : Proc Status Reply := do
  let defaults ← storeReads.prepareCreate env caller req
  let tenant ← transact (runInTx (createTenantTx caller req defaults)) fun e =>
    match e with
    | .status s => s
    | _ => internal "failed to create tenant"
  pure (.tenant tenant)

end Decree
