import Decree.Combined
import Decree.System

/-!
# The Validator Factory and `UpdateTenant`

The factory looks up what the schema of a tenant says (`internal/validation/factory.go`). Each
lookup is cached by tenant: a getter looks in the cache, reads the store on a miss, and stores in
the cache, with nothing that holds them together. The compiled programs are shared by all tenants
and keyed by schema version and rule (`internal/schema/cel/compile.go`). `UpdateTenant` binds a
tenant to another version of its schema and then drops what the factory has cached for it
(`internal/schema/service.go`).

The server has the calls of the `System` next to these. Where such a call goes through the
factory it takes what is cached, which may be the schema of any earlier moment: its lookup
answers with any version of the tables.

## Main definitions

* `ServerOp`, `execServer`: the operations and what they do.
* `throughCache`: a getter of the factory.
-/

open Go Interleave

namespace Decree

/-! ### Operations -/

/-- The caches of the factory by tenant: the `ValidatorCache`, `rulesCache`,
`validationsCache`, `celEnvCache` and `celProgramsCache`. -/
inductive Slot where
  | validators
  | rules
  | validations
  | celEnv
  | celPrograms
deriving DecidableEq

/-- What a cache holds for a tenant. An environment is given by the fields it is built
from. -/
abbrev Slot.Value : Slot → Type
  | validators => List (String × FieldValidator)
  | rules => List DependentRequiredEntry
  | validations => List ValidationRule
  | celEnv => List SchemaField
  | celPrograms => List CelProgram

/-- `cacheKey` of the program cache. -/
structure ProgramKey where
  schemaID : String
  version : ℤ
  ruleIndex : ℕ
deriving DecidableEq

/-- A statement on the row of a tenant: `UpdateTenantName`, `UpdateTenantSchemaVersion`,
`GetTenantByID`. -/
inductive TenantStmt where
  | updateName (name : String)
  | updateSchemaVersion (version : ℤ)
  | get
deriving DecidableEq

/-- The errors of the transaction of `UpdateTenant`: of a statement, or any other. -/
inductive TenantTxErr where
  | stmt (stmt : TenantStmt) (e : StoreErr)
  | failed
deriving DecidableEq

/-- The operations beside those of the calls: the transaction of `UpdateTenant`, and the
operations on the caches. -/
inductive ServerOp where
  | updateTenant (id : String) (stmts : List TenantStmt) (audit : AuditEntry)
  | load (k : Slot) (tenantID : String)
  | store (k : Slot) (tenantID : String) (value : k.Value)
  | delete (k : Slot) (tenantID : String)
  | loadProgram (key : ProgramKey)
  | loadOrStoreProgram (key : ProgramKey) (prog : CelProgram)

abbrev ServerOp.Resp : ServerOp → Type
  | updateTenant _ _ _ => Except TenantTxErr Tenant
  | load k _ => Option k.Value
  | store _ _ _ | delete _ _ => Unit
  | loadProgram _ => Option CelProgram
  | loadOrStoreProgram _ _ => CelProgram

/-! ### Semantics -/

/-- The state of the server: that of the store, and the caches of the factory. -/
structure Server where
  store : State
  caches : (k : Slot) → String → Option k.Value
  programs : ProgramKey → Option CelProgram

/-- The state with another entry in a cache. -/
def Server.setCache (s : Server) (k : Slot) (tenantID : String) (value : Option k.Value) :
    Server :=
  { s with
    caches := Function.update s.caches k (Function.update (s.caches k) tenantID value) }

/-- What is left open: what the store leaves open, and the schema version that the factory
answers a call with, where it is not read from the store. -/
structure ServerChoice where
  choice : Choice
  cached : Option SchemaVersion := none

/-- The tables with the row of a live tenant changed. -/
def Tables.mapTenant (db : Tables) (id : String) (f : Tenant → Tenant) : Tables :=
  { db with tenants := db.tenants.map fun tn => if tn.id = id && !tn.deleted then f tn else tn }

/-- A statement on the row of a tenant. The names of live tenants are unique. -/
def TenantStmt.exec (id : String) (db : Tables) (stmt : TenantStmt) :
    Except StoreErr (Tenant × Tables) :=
  match db.tenantByID id with
  | none => .error .notFound
  | some tn =>
    match stmt with
    | updateName name =>
      if (db.tenants.any fun tn' => tn'.name = name && !tn'.deleted && tn'.id ≠ id) then
        .error .alreadyExists
      else .ok ({ tn with name := name }, db.mapTenant id fun tn => { tn with name := name })
    | updateSchemaVersion version =>
      .ok ({ tn with schemaVersion := version },
        db.mapTenant id fun tn => { tn with schemaVersion := version })
    | get => .ok (tn, db)

/-- The statements of a transaction, from the row that was last returned. -/
def execTenantStmts (id : String) :
    List TenantStmt → Tenant → Tables → Except TenantTxErr (Tenant × Tables)
  | [], tn, db => .ok (tn, db)
  | stmt :: stmts, _, db =>
    match stmt.exec id db with
    | .error e => .error (.stmt stmt e)
    | .ok (tn, db') => execTenantStmts id stmts tn db'

/-- The zero value of `domain.Tenant`. -/
def Tenant.zero : Tenant :=
  ⟨"", "", "", 0, false⟩

/-- The locks that the transaction waits for. -/
def TenantStmt.lockKeys : TenantStmt → List LockKey
  | updateName name => [.tenantName name]
  | updateSchemaVersion _ | get => []

/-- The transaction of `UpdateTenant`: its statements and its audit entry take effect together
or not at all. -/
def execUpdateTenant (ch : Choice) (t : ℕ) (id : String) (stmts : List TenantStmt)
    (audit : AuditEntry) (s : State) : Option (Except TenantTxErr Tenant × State) :=
  if ch = .fail then some (.error .failed, s)
  else if (.auditChain id :: stmts.flatMap TenantStmt.lockKeys).any (s.rival t) then none
  else
    match execTenantStmts id stmts .zero s.db with
    | .error e => some (.error e, s)
    | .ok (tn, db) =>
      some (if ch = .lost then .error .failed else .ok tn,
        { s with db := { db with audit := db.audit ++ [audit] } })

/-- The operations of a call: what goes through the factory may be answered with any schema
version. -/
def execCall (ch : ServerChoice) (t : ℕ) : (o : Op) → State → Option (o.Resp × State)
  | .read inTx (.boundSchema T), s =>
    match ch.cached with
    | some sv => if sv ∈ s.db.schemas.versions then some (.ok sv, s) else none
    | none => exec ch.choice t (.read inTx (.boundSchema T)) s
  | o, s => exec ch.choice t o s

/-- The operations on the caches. The `ValidatorCache` is bounded: it may have evicted the
validators of a tenant. -/
def execServerOp (ch : Choice) (t : ℕ) : (o : ServerOp) → Server → Option (o.Resp × Server)
  | .updateTenant id stmts audit, s =>
    (execUpdateTenant ch t id stmts audit s.store).map fun p => (p.1, { s with store := p.2 })
  | .load k T, s =>
    if k = .validators ∧ ch = .expired then some (none, s.setCache k T none)
    else some (s.caches k T, s)
  | .store k T value, s => some ((), s.setCache k T (some value))
  | .delete k T, s => some ((), s.setCache k T none)
  | .loadProgram key, s => some (s.programs key, s)
  | .loadOrStoreProgram key prog, s =>
    match s.programs key with
    | some actual => some (actual, s)
    | none => some (prog, { s with programs := Function.update s.programs key (some prog) })

/-- **The semantics of an operation** of the server. -/
def execServer (ch : ServerChoice) (t : ℕ) :
    (o : Op ⊕ ServerOp) → Server → Option (Both Op.Resp ServerOp.Resp o × Server)
  | .inl o, s => (execCall ch t o s.store).map fun p => (p.1, { s with store := p.2 })
  | .inr o, s => execServerOp ch.choice t o s

/-! ### Programs -/

/-- A program of the server that may fail with an error. -/
abbrev ServerProc (ε α : Type) := ExceptT ε (Prog (Both Op.Resp ServerOp.Resp)) α

section Basics

variable {ε ε' α : Type}

/-- Perform an operation beside those of the calls. -/
def askServer (o : ServerOp) (f : o.Resp → Except ε α) : ServerProc ε α :=
  ExceptT.mk (.op (.inr o) fun r => .ret (f r))

/-- A program of a call, with its errors mapped. -/
def embed (onError : ε → ε') (p : Proc ε α) : ServerProc ε' α :=
  ExceptT.mk (p.run.left >>= fun r => .ret (r.mapError onError))

end Basics

/-- The errors of the factory: those of the store, or a text of its own. -/
inductive FactoryErr where
  | store (e : StoreErr)
  | text (message : String)
deriving DecidableEq

def storeRead (q : Query) : ServerProc FactoryErr q.Result :=
  embed .store (fetch false q id)

variable (env : Env)

/-- The schema version a tenant is bound to: its row, then the version that it names. -/
def boundVersion (tenantID : String) : ServerProc FactoryErr SchemaVersion := do
  let tenant : Tenant ← storeRead (.tenantByID tenantID)
  storeRead (.schemaVersion tenant.schemaID tenant.schemaVersion)

/-- **The shape of a getter**: a lookup in the cache, and on a miss the value is built and
stored. -/
def throughCache (k : Slot) (tenantID : String) (build : ServerProc FactoryErr k.Value) :
    ServerProc FactoryErr k.Value := do
  let cached ← askServer (.load k tenantID) .ok
  match (cached : Option k.Value) with
  | some value => pure value
  | none => do
      let value ← build
      askServer (.store k tenantID value) .ok
      pure value

def getDependentRequired (tenantID : String) :
    ServerProc FactoryErr (List DependentRequiredEntry) :=
  throughCache .rules tenantID do
    let sv ← boundVersion tenantID
    pure sv.dependentRequired

def getValidators (tenantID : String) : ServerProc FactoryErr (List (String × FieldValidator)) :=
  throughCache .validators tenantID do
    let sv ← boundVersion tenantID
    let fields ← storeRead (.schemaFields sv.id)
    embed id (ofExcept ((buildValidators env fields).mapError .text))

def getValidations (tenantID : String) : ServerProc FactoryErr (List ValidationRule) :=
  throughCache .validations tenantID do
    let sv ← boundVersion tenantID
    pure sv.validations

/-- `ProgramFor`: the program of a rule, compiled where the cache has none. Where another call
has stored one in the meantime, it is the one that is returned. -/
def programFor (fields : List SchemaField) (rule : ValidationRule) (key : ProgramKey) :
    ServerProc FactoryErr CelProgram := do
  let cached ← askServer (.loadProgram key) .ok
  match (cached : Option CelProgram) with
  | some prog => pure prog
  | none => do
      let prog ← embed id (ofExcept ((env.celCompile fields rule).mapError fun e =>
        FactoryErr.text ("compile validations[" ++ formatInt key.ruleIndex ++ "]: " ++ e)))
      askServer (.loadOrStoreProgram key prog) .ok

/-- The programs of the rules, under the version that the tenant is bound to, and their
caching. -/
def bindPrograms (tenantID : String) (rules : List ValidationRule) :
    ServerProc FactoryErr (List SchemaField × List CelProgram) := do
  let sv ← boundVersion tenantID
  let fields ← storeRead (.schemaFields sv.id)
  let programs ← collect (fun p : ValidationRule × ℕ =>
    programFor env fields p.1 ⟨sv.schemaID, sv.version, p.2⟩) rules.zipIdx
  askServer (.store .celEnv tenantID fields) .ok
  askServer (.store .celPrograms tenantID programs) .ok
  pure (fields, programs)

/-- The artifacts of the rules: nothing where there are none, what is cached where the
environment and the programs both are, and the programs of the rules otherwise. -/
def artifactsOf (tenantID : String) (rules : List ValidationRule) :
    ServerProc FactoryErr (Option (List SchemaField × List CelProgram)) :=
  if rules = [] then pure none
  else do
    let celEnv ← askServer (.load .celEnv tenantID) .ok
    match (celEnv : Option (List SchemaField)) with
    | none => do
        let artifacts ← bindPrograms env tenantID rules
        pure (some artifacts)
    | some fields => do
        let cached ← askServer (.load .celPrograms tenantID) .ok
        match (cached : Option (List CelProgram)) with
        | none => do
            let artifacts ← bindPrograms env tenantID rules
            pure (some artifacts)
        | some programs => pure (some (fields, programs))

def getCelArtifacts (tenantID : String) :
    ServerProc FactoryErr (Option (List SchemaField × List CelProgram)) := do
  let rules ← getValidations tenantID
  artifactsOf env tenantID rules

/-! ### `UpdateTenant` -/

/-- The statements of the transaction. -/
def UpdateTenantRequest.stmts (req : UpdateTenantRequest) : List TenantStmt :=
  (req.name.filter (· ≠ "")).toList.map .updateName ++
    req.schemaVersion.toList.map .updateSchemaVersion ++
    (if req.name = none ∧ req.schemaVersion = none then [.get] else [])

/-- The errors of the transaction as the call returns them. -/
def TenantTxErr.toTxErr : TenantTxErr → TxErr
  | stmt (.updateName _) e =>
    .status (lookupError "tenant not found" "failed to update tenant name" e)
  | stmt (.updateSchemaVersion _) e =>
    .status (lookupError "tenant not found" "failed to update tenant schema version" e)
  | stmt .get e => .status (lookupError "tenant not found" "failed to get tenant" e)
  | failed => .failed

def updateTenantAudit (tenantID actor : String) : AuditEntry where
  tenantID := tenantID
  actor := actor
  action := "update_tenant"
  objectKind := "tenant"
  newValue := ptrString tenantID

/-- The order in which `UpdateTenant` drops the caches of a tenant: `Cache().Invalidate`, then
`InvalidateRules`. -/
def Slot.all : List Slot :=
  [.validators, .rules, .validations, .celEnv, .celPrograms]

/-- `Cache().Invalidate` and `InvalidateRules`, where the schema version has changed. -/
def invalidateFactory (tenantID : String) (changed : Bool) : ServerProc TxErr Unit :=
  if changed && env.hasValidators then
    forEach (fun k => askServer (.delete k tenantID) .ok) Slot.all
  else pure ()

def updateTenant (caller : Caller) (req : UpdateTenantRequest) : ServerProc TxErr Tenant := do
  let resolved ← embed .status (storeReads.prepareUpdate caller req)
  let tenant ← askServer
    (.updateTenant resolved.id req.stmts (updateTenantAudit resolved.id (getActor caller)))
    (Except.mapError TenantTxErr.toTxErr)
  invalidateFactory env resolved.id req.schemaVersion.isSome
  pure tenant

/-! ### The server -/

/-- A request to the server, and a call of the factory's getters. -/
inductive Request where
  | call (c : Call)
  | updateTenant (caller : Caller) (req : UpdateTenantRequest)
  | getValidators (tenantID : String)
  | getDependentRequired (tenantID : String)
  | getValidations (tenantID : String)
  | getCelArtifacts (tenantID : String)

inductive Answer where
  | reply (r : Except Status Reply)
  | updated (r : Except TxErr Tenant)
  | looked (k : Slot) (r : Except FactoryErr k.Value)
  | artifacts (r : Except FactoryErr (Option (List SchemaField × List CelProgram)))

def Request.prog : Request → Prog (Both Op.Resp ServerOp.Resp) Answer
  | call c => (c.proc env).run.left >>= fun r => .ret (.reply r)
  | updateTenant caller req => (Decree.updateTenant env caller req).run >>= fun r =>
    .ret (.updated r)
  | getValidators T => (Decree.getValidators env T).run >>= fun r => .ret (.looked .validators r)
  | getDependentRequired T => (Decree.getDependentRequired T).run >>= fun r =>
    .ret (.looked .rules r)
  | getValidations T => (Decree.getValidations T).run >>= fun r => .ret (.looked .validations r)
  | getCelArtifacts T => (Decree.getCelArtifacts env T).run >>= fun r => .ret (.artifacts r)

abbrev ServerSystem := Config (Both Op.Resp ServerOp.Resp) Server Answer

/-- Where a run begins: some tenants, schemas and field locks, no config, nothing cached, and
any number of requests that have not begun. -/
structure ServerInit where
  tenants : List Tenant
  schemas : Schemas
  locks : String → List TenantFieldLock
  requests : ℕ → Request

def ServerInit.system (init : ServerInit) : ServerSystem where
  shared :=
    { store :=
        { db := ⟨init.tenants, init.schemas, fun _ => [], init.locks, []⟩
          txs := fun _ => none
          held := []
          claims := []
          published := [] }
      caches := fun _ _ => none
      programs := fun _ => none }
  pool t := ⟨(init.requests t).prog env, []⟩

end Decree
