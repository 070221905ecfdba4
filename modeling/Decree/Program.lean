import Decree.Authz
import Decree.CrossField
import Decree.Store
import Decree.Validator

/-!
# Programs of the Services

The parts that the writing calls of the two services are made of, as programs over the
operations of the store (`internal/config/service.go`). Every store call of the source is one
operation here; what happens between two of them is a pure function of the responses. Logging,
metrics and tracing are left out.

The transactions of the config calls have one shape, `versionTx`: read the latest version,
compare checksums, create the next version with its rows, then audit and enforce the
cross-field rules in an order of their own. `commitWrite` is that transaction with its
retries and what follows it.

## Main definitions

* `Proc`: the programs.
* `versionTx`, `commitWrite`: a transaction and a whole config write.
-/

open Go Interleave

namespace Decree

/-- A program that may fail with an error. -/
abbrev Proc (ε α : Type) := ExceptT ε (Prog Op.Resp) α

section Basics

variable {ε α : Type}

@[simp] theorem mapError_eq_ok {ε' : Type} {g : ε → ε'} {x : Except ε α} {a : α} :
    x.mapError g = .ok a ↔ x = .ok a := by
  cases x <;> simp [Except.mapError]

theorem bind_eq_ok {β : Type} {x : Except ε α} {f : α → Except ε β} {b : β} :
    (x >>= f) = .ok b ↔ ∃ a, x = .ok a ∧ f a = .ok b := by
  cases x <;> simp [bind, Except.bind]

theorem seq_eq_ok {β : Type} {x : Except ε Unit} {f : Unit → Except ε β} {b : β} :
    (x >>= f) = .ok b ↔ x = .ok () ∧ f () = .ok b := by
  cases x <;> simp [bind, Except.bind]

/-- Perform an operation and take its response through a function. -/
def ask (o : Op) (f : o.Resp → Except ε α) : Proc ε α :=
  ExceptT.mk (.op o fun r => .ret (f r))

/-- Perform an operation whose errors are only logged. -/
def tell (o : Op) : Proc ε Unit :=
  ask o fun _ => .ok ()

def ofExcept (x : Except ε α) : Proc ε α :=
  ExceptT.mk (.ret x)

/-- Fail unless the condition holds. -/
def require (p : Prop) [Decidable p] (e : ε) : Proc ε Unit :=
  ofExcept (if p then .ok () else .error e)

/-- A read of the store, with its errors mapped. -/
def fetch (inTx : Bool) (q : Query) (onError : StoreErr → ε) : Proc ε q.Result :=
  ask (.read inTx q) (Except.mapError onError)

end Basics

def internal (message : String) : Status :=
  ⟨.internal, message⟩

def invalidArgument (message : String) : Status :=
  ⟨.invalidArgument, message⟩

/-- A check: a status unless the condition holds. -/
def demand (p : Bool) (s : Status) : Except Status Unit :=
  if p then .ok () else .error s

@[simp] theorem demand_eq_ok {p : Bool} {st : Status} : demand p st = .ok () ↔ p = true := by
  cases p <;> simp [demand]

/-- `errToStatus` on the errors a lookup returns. -/
def lookupError (notFoundMsg failedMsg : String) : StoreErr → Status
  | .notFound => ⟨.notFound, notFoundMsg⟩
  | .alreadyExists => ⟨.alreadyExists, "resource with this name already exists"⟩
  | .versionConflict | .failed => internal failedMsg

/-! ### Tenants and guards -/

def getActor (c : Caller) : String :=
  match c.claims with
  | none => "unknown"
  | some claims => claims.subject

/-- `resolveTenantID`: an identifier is taken as it is. -/
def resolveTenantID (idOrName : String) : Proc Status String :=
  if idOrName = "" then throw ⟨.invalidArgument, "tenant id or name required"⟩
  else if isUUID idOrName then pure idOrName
  else do
    let tenant : Tenant ← fetch false (.tenantByName idOrName)
      (lookupError "tenant not found" "failed to resolve tenant")
    pure tenant.id

variable (env : Env)

/-- `guard.Check` of the config service: the access guards, then the field locks, which are
read from the store unless the call has them. -/
def guardCheck (caller : Caller) (action : Action) (r : Resource)
    (locks : Option (List TenantFieldLock)) : Proc Status Unit := do
  ofExcept (accessGuards caller action r)
  if fieldLocksApply caller action r then
    match locks with
    | some locks => ofExcept (checkFieldLocks env r locks)
    | none => do
        let locks ← fetch false (.fieldLocks r.tenantID) fun _ =>
          internal "failed to check field locks"
        ofExcept (checkFieldLocks env r locks)
  else pure ()

/-- `resolveTenantWithAccess` of the config service. -/
def resolveTenantWithAccess (caller : Caller) (idOrName : String) (action : Action) :
    Proc Status String := do
  let tenantID ← resolveTenantID idOrName
  guardCheck env caller action { tenantID } none
  pure tenantID

/-- The claim of an idempotency key: whether the call is the first with it. An unreachable
cache counts as a first call. -/
def claimKey (tenantID key : String) : Proc Status Bool :=
  if key ≠ "" ∧ env.hasIdempotencyCache = true then
    ask (.claim (tenantID ++ ":" ++ key)) fun r =>
      match r with
      | .ok first => .ok first
      | .error _ => .ok true
  else pure true

/-! ### Schema-driven checks -/

/-- `validateField` on the fields of the bound schema. -/
def validateWith (fields : List SchemaField) (fieldPath : String) (value : Option TypedValue) :
    Except Status Unit :=
  match buildValidators env fields with
  | .error _ => .error (internal "validator lookup failed")
  | .ok vs =>
    match vs.lookup fieldPath with
    | none =>
      .error ⟨.invalidArgument, "field " ++ fieldPath ++ " is not defined in the schema"⟩
    | some v =>
      match v.validate value with
      | none => .ok ()
      | some e => .error ⟨.invalidArgument, e⟩

def validateField (tenantID fieldPath : String) (value : Option TypedValue) :
    Proc Status Unit :=
  if env.hasValidators then do
    let sv : SchemaVersion ← fetch false (.boundSchema tenantID) fun _ =>
      internal "validator lookup failed"
    ofExcept (validateWith env sv.fields fieldPath value)
  else pure ()

/-- The types of the validators of a schema, by path. -/
def typesOfFields (fields : List SchemaField) : Except Status (List (String × FieldType)) :=
  match buildValidators env fields with
  | .error _ => .error (internal "validator lookup failed")
  | .ok vs => .ok (vs.map fun p => (p.1, p.2.fieldType))

def fieldTypeMap {ε : Type} (wrap : Status → ε) (tenantID : String) :
    Proc ε (List (String × FieldType)) :=
  if env.hasValidators then do
    let sv : SchemaVersion ← fetch false (.boundSchema tenantID) fun _ =>
      wrap (internal "validator lookup failed")
    ofExcept ((typesOfFields env sv.fields).mapError wrap)
  else pure []

/-- `getSchemaFieldSets`: the fields, from which the sets are read off. -/
def getSchemaFieldSets (tenantID : String) : Proc Status (List SchemaField) := do
  let tenant : Tenant ← fetch false (.tenantByID tenantID) fun _ => ⟨.notFound, "tenant not found"⟩
  let sv : SchemaVersion ← fetch false (.schemaVersion tenant.schemaID tenant.schemaVersion)
    fun _ => internal "failed to get schema version"
  fetch false (.schemaFields sv.id) fun _ =>
    internal "failed to get schema fields"

/-- The `Sensitive` set. -/
def isSensitive (fields : List SchemaField) (fieldPath : String) : Bool :=
  fields.any fun f => f.path = fieldPath && f.sensitive

/-- `checkWriteAttributes` for a field that has write attributes, and nothing for others. -/
def checkWriteAttributes (fields : List SchemaField) (fieldPath currentValue : String) :
    Except Status Unit :=
  match fields.find? fun f => f.path = fieldPath && (f.readOnly || f.writeOnce) with
  | none => .ok ()
  | some f =>
    if f.readOnly then
      .error ⟨.failedPrecondition, "field " ++ fieldPath ++ " is read-only and cannot be modified"⟩
    else if f.writeOnce ∧ currentValue ≠ "" then
      .error ⟨.failedPrecondition,
        "field " ++ fieldPath ++ " is write-once and already has a value"⟩
    else .ok ()

/-- The loop of `checkWriteAttributes` over the changes of a call. -/
def checkAllWriteAttributes (fields : List SchemaField) :
    List FieldChange → Except Status Unit
  | [] => .ok ()
  | ch :: changes =>
    match checkWriteAttributes fields ch.fieldPath ch.oldValue with
    | .error e => .error e
    | .ok () => checkAllWriteAttributes fields changes

def fetchDependentRequiredRules (tenantID : String) :
    Proc Status (List DependentRequiredEntry) :=
  if env.hasValidators then do
    let sv : SchemaVersion ← fetch false (.boundSchema tenantID) fun _ =>
      internal "failed to load dependentRequired rules"
    pure sv.dependentRequired
  else pure []

/-! ### Versions and current values -/

/-- A version number as read: zero when there is none yet. -/
def versionOrZero : Except StoreErr ℤ → Except Status ℤ
  | .ok v => .ok v
  | .error .notFound => .ok 0
  | .error _ => .error (internal "failed to get latest version")

/-- `resolveVersion` without a requested version. -/
def resolveVersion (tenantID : String) : Proc Status ℤ :=
  ask (.read false (.latestConfigVersion tenantID)) versionOrZero

/-- The value of a row as read: an error, a missing row and a null are all empty. -/
def valueOrEmpty : Except StoreErr ConfigValue → String
  | .ok row => derefString row.value
  | .error _ => ""

def getCurrentValue (tenantID fieldPath : String) (version : ℤ) : Proc Status String :=
  if version = 0 then pure ""
  else
    ask (.read false (.configValueAtVersion tenantID fieldPath version)) fun r =>
      .ok (valueOrEmpty r)

/-! ### Transactions -/

/-- The errors of a transaction body, as the callers tell them apart. -/
inductive TxErr where
  | conflict
  | status (s : Status)
  | crossField (message : String)
  | failed
deriving DecidableEq

def txLatestVersion (tenantID : String) : Proc TxErr ℤ :=
  ask (.read true (.latestConfigVersion tenantID)) fun r => (versionOrZero r).mapError .status

/-- The comparison of `checkChecksumAtVersion` with the row it reads. -/
def compareChecksum (fieldPath expected : String) :
    Except StoreErr ConfigValue → Except TxErr Unit
  | .ok row =>
    if derefString row.checksum = expected then .ok ()
    else
      .error (.status ⟨.aborted, "checksum mismatch for " ++ fieldPath ++ ": expected " ++
        expected ++ ", got " ++ derefString row.checksum⟩)
  | .error .notFound => .ok ()
  | .error _ => .error (.status (internal "failed to get current value for checksum"))

def checkChecksumAtVersion (tenantID fieldPath expected : String) (version : ℤ) :
    Proc TxErr Unit :=
  if version = 0 then pure ()
  else
    ask (.read true (.configValueAtVersion tenantID fieldPath version))
      (compareChecksum fieldPath expected)

def createConfigVersion (p : CreateConfigVersionParams) : Proc TxErr ℤ :=
  ask (.createConfigVersion p) (Except.mapError fun e =>
    match e with
    | .versionConflict => .conflict
    | _ => .failed)

/-- `tx.SetConfigValue` and `tx.BulkSetConfigValues`. -/
def setConfigValues (rows : List ConfigValue) : Proc TxErr Unit :=
  ask (.setConfigValues rows) (Except.mapError fun _ => .failed)

/-- `tx.InsertAuditWriteLog` and `tx.BulkInsertAuditWriteLog`. -/
def insertAudit (entries : List AuditEntry) : Proc TxErr Unit :=
  ask (.insertAudit entries) (Except.mapError fun _ => .failed)

/-- `RunInTx`: any error of the body rolls the transaction back. -/
def runInTx {α : Type} (body : Proc TxErr α) : Proc TxErr α := do
  ask .begin (Except.mapError fun _ => TxErr.failed)
  ExceptT.mk <| body.run >>= fun
    | .error e => .op .rollback fun _ => .ret (.error e)
    | .ok a => .op .commit fun r =>
      .ret (match (r : Except StoreErr Unit) with
        | .ok _ => .ok a
        | .error _ => .error .failed)

/-- `retryOnVersionConflict`, with the number of retries left. -/
def retryOnVersionConflict {α : Type} (fn : Proc TxErr α) : ℕ → Proc TxErr α
  | 0 => fn
  | n + 1 => ExceptT.mk <| fn.run >>= fun
      | .error .conflict => (retryOnVersionConflict fn n).run
      | r => .ret r

/-- `runInTxWithRetry`: four attempts in all. -/
def runInTxWithRetry {α : Type} (body : Proc TxErr α) : Proc TxErr α :=
  retryOnVersionConflict (runInTx body) 3

/-- A transaction of a call, with its errors as the call returns them. -/
def transact {α : Type} (tx : Proc TxErr α) (onError : TxErr → Status) : Proc Status α :=
  ExceptT.mk (tx.run >>= fun r => .ret (r.mapError onError))

/-- The mapping of transaction errors. `SetField` and `SetFields` pass a status on, the other
calls do not. -/
def txStatus (conflictMsg failedMsg : String) (passStatus : Bool) : TxErr → Status
  | .conflict => ⟨.aborted, conflictMsg⟩
  | .status s => if passStatus then s else internal failedMsg
  | .crossField message => ⟨.invalidArgument, message⟩
  | .failed => internal failedMsg

/-! ### Cross-field rules in the transaction -/

structure CelArtifacts where
  rules : List (CelProgram × ValidationRule)
  fieldTypes : List (String × FieldType)

def fetchCelArtifactsForTenant (tenantID : String) : Proc TxErr (Option CelArtifacts) :=
  if env.hasValidators then do
    let sv : SchemaVersion ← fetch false (.boundSchema tenantID) fun _ =>
      .status (internal "failed to load validations")
    if sv.validations = [] then pure none
    else do
      let bound : SchemaVersion ← fetch false (.boundSchema tenantID) fun _ =>
        .status (internal "failed to compile validations")
      let rules ← ofExcept ((compileRules env bound.fields sv.validations).mapError fun _ =>
        .status (internal "failed to compile validations"))
      let fieldTypes ← fieldTypeMap env .status tenantID
      pure (some ⟨rules, fieldTypes⟩)
  else pure none

/-- The `dependentRequired` part of `enforceCrossFieldInTx`. -/
def dependentRequiredCheck (rules : List DependentRequiredEntry) (rows : List ConfigValue) :
    Except TxErr Unit :=
  let present := (rows.filter fun r => r.value.isSome).map ConfigValue.fieldPath
  match checkDependentRequired env rules present with
  | some message => .error (.crossField message)
  | none => .ok ()

/-- The CEL part of `enforceCrossFieldInTx`. -/
def celCheck (art : CelArtifacts) (rows : List ConfigValue) (tenant : Tenant) :
    Except TxErr Unit :=
  match celEval env (buildActivation env rows art.fieldTypes tenant) art.rules with
  | .error _ => .error .failed
  | .ok [] => .ok ()
  | .ok failed => .error (.crossField (aggregatedFailure failed))

def enforceCrossFieldInTx (tenantID : String) (version : ℤ)
    (depRules : List DependentRequiredEntry) (cel : Option CelArtifacts) : Proc TxErr Unit :=
  if depRules = [] ∧ cel.isNone then pure ()
  else do
    let rows ← fetch true (.fullConfigAtVersion tenantID version) fun _ => TxErr.failed
    ofExcept (dependentRequiredCheck env depRules rows)
    match cel with
    | none => pure ()
    | some art => do
        let tenant : Tenant ← fetch true (.tenantByID tenantID) fun _ => TxErr.failed
        ofExcept (celCheck env art rows tenant)

def enforceDependentRequiredInTx (tenantID : String) (version : ℤ)
    (depRules : List DependentRequiredEntry) : Proc TxErr Unit := do
  let cel ← fetchCelArtifactsForTenant env tenantID
  enforceCrossFieldInTx env tenantID version depRules cel

/-! ### The transaction of a config write -/

/-- What a config write puts in its transaction. -/
structure VersionWrite where
  tenantID : String
  description : Option String
  actor : String
  /-- The expected checksums, by path. -/
  expected : List (String × String) := []
  rows : List ConfigValue

/-- **The transaction of a config write**: the next version after the latest one, if the
checksums there are as expected, with its rows; `rest` audits it and enforces the
cross-field rules. -/
def versionTx (w : VersionWrite) (rest : ℤ → Proc TxErr Unit) : Proc TxErr ℤ := do
  let latest ← txLatestVersion w.tenantID
  forEach (fun p => checkChecksumAtVersion w.tenantID p.1 p.2 latest) w.expected
  let version ← createConfigVersion ⟨w.tenantID, wrap32 (latest + 1), w.description, w.actor⟩
  setConfigValues w.rows
  rest version
  pure version

/-- Audit, then enforce the cross-field rules. -/
def auditThenEnforce (tenantID : String) (depRules : List DependentRequiredEntry)
    (audit : ℤ → List AuditEntry) (version : ℤ) : Proc TxErr Unit := do
  insertAudit (audit version)
  enforceDependentRequiredInTx env tenantID version depRules

/-- Enforce the cross-field rules, then audit. -/
def enforceThenAudit (tenantID : String) (depRules : List DependentRequiredEntry)
    (audit : ℤ → List AuditEntry) (version : ℤ) : Proc TxErr Unit := do
  enforceDependentRequiredInTx env tenantID version depRules
  insertAudit (audit version)

/-- What a call returns. `duplicate` is the empty response to a repeated idempotency key. -/
inductive Reply where
  | version (n : ℤ)
  | duplicate
  | done
  | tenant (tn : Tenant)
  | config (config : PbConfig)
  | field (value : PbConfigValue)
  | fields (values : List PbConfigValue)
  | diffs (diffs : List FieldDiff)
  | exported (yamlContent : String)
  | closed
deriving DecidableEq

/-- The published form of a change. -/
def redactChange (fields : List SchemaField) (ch : FieldChange) : FieldChange :=
  ⟨ch.fieldPath, redactIfSensitive (isSensitive fields ch.fieldPath) ch.oldValue,
    redactIfSensitive (isSensitive fields ch.fieldPath) ch.newValue⟩

/-- **The end of a config call**: the cache is invalidated, the write is transacted, the cache
is invalidated again, and the changes are published, if the call publishes any. -/
def commitWrite (w : VersionWrite) (rest : ℤ → Proc TxErr Unit) (onError : TxErr → Status)
    (changes : Option (List FieldChange)) : Proc Status Reply := do
  tell (.invalidate w.tenantID)
  let version ← transact (runInTxWithRetry (versionTx w rest)) onError
  tell (.invalidate w.tenantID)
  match changes with
  | none => pure (.version version)
  | some changes => do
      tell (.publish ⟨w.tenantID, version, changes, w.actor⟩)
      pure (.version version)

end Decree
