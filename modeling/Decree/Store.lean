import Mathlib.Data.List.Dedup
import Mathlib.Data.List.Sort
import Decree.Cache
import Decree.DeltaLog
import Decree.Interleave

/-!
# The Store

The store that the services call, as PostgreSQL gives it: transactions at READ COMMITTED
(`internal/config/store_pg.go`, `internal/schema/store_pg.go`, `db/queries`), and next to it the
idempotency cache, the config cache, and pub/sub with the streams that deliver its events.

`exec` answers one operation of one caller atomically. A `Choice` resolves what the store
leaves open: whether the operation fails, whether a commit is applied although its
answer is lost, which identifier is drawn. An insert that meets the uncommitted row of a
rival waits, which is no answer at all.

The uniqueness constraints are `UNIQUE(tenant_id, version)` on versions, the primary key
of config values, and the names and identifiers of tenants. Rows that a transaction has
written and not committed are kept apart by the row locks in `State.held`.

## Main definitions

* `Op`: the operations of a caller.
* `exec`: what they answer and do to the state.
-/

open Interleave

namespace Decree

/-- The errors of a store. `failed` is any error that the callers do not tell apart. -/
inductive StoreErr where
  | notFound
  | versionConflict
  | alreadyExists
  | failed
deriving DecidableEq, Repr

/-! ### Config versions -/

def ConfigVersion.row (V : ConfigVersion) (fieldPath : String) : Option ConfigValue :=
  V.values.find? fun r => r.fieldPath = fieldPath

/-- `GetLatestConfigVersion`: the greatest version number. -/
def latestConfigVersion (L : List ConfigVersion) : Option ℤ :=
  (L.map ConfigVersion.version).max?

/-- `GetConfigValueAtVersion`: the **resolved row** of a field at a version. -/
def configValueAtVersion (L : List ConfigVersion) (version : ℤ) (fieldPath : String) :
    Option ConfigValue :=
  DeltaLog.rowAt ConfigVersion.version ConfigVersion.row L version fieldPath

/-- The paths that have a row at or below a version, in order. -/
def pathsAtVersion (L : List ConfigVersion) (version : ℤ) : List String :=
  ((L.filter fun V => V.version ≤ version).flatMap fun V =>
    V.values.map ConfigValue.fieldPath).dedup.insertionSort (· ≤ ·)

/-- `GetFullConfigAtVersion`: the **resolved snapshot** at a version. -/
def fullConfigAtVersion (L : List ConfigVersion) (version : ℤ) : List ConfigValue :=
  (pathsAtVersion L version).filterMap (configValueAtVersion L version)

/-- `domain.ConfigVersion`: a version without its values. -/
structure VersionHeader where
  version : ℤ
  description : Option String
  createdBy : String
deriving DecidableEq

def ConfigVersion.header (V : ConfigVersion) : VersionHeader :=
  ⟨V.version, V.description, V.createdBy⟩

/-- A row of `GetConfigValuesSince`: a value with the number and the author of its
version. -/
structure ConfigValueSince where
  version : ℤ
  fieldPath : String
  value : Option String
  createdBy : String
deriving DecidableEq

/-- The order of `GetConfigValuesSince`: by version, then by path. -/
def ConfigValueSince.Le (a b : ConfigValueSince) : Prop :=
  a.version < b.version ∨ a.version = b.version ∧ a.fieldPath ≤ b.fieldPath

instance : DecidableRel ConfigValueSince.Le :=
  fun _ _ => inferInstanceAs (Decidable (_ ∨ _))

instance : IsTrans ConfigValueSince ConfigValueSince.Le where
  trans a b d := by
    rintro (hab | ⟨hab, hab'⟩) (hbd | ⟨hbd, hbd'⟩)
    · exact .inl (hab.trans hbd)
    · exact .inl (hbd ▸ hab)
    · exact .inl (hab ▸ hbd)
    · exact .inr ⟨hab.trans hbd, String.le_trans hab' hbd'⟩

instance : Std.Total ConfigValueSince.Le where
  total a b := by
    rcases lt_trichotomy a.version b.version with h | h | h
    · exact .inl (.inl h)
    · rcases String.le_total a.fieldPath b.fieldPath with hp | hp
      · exact .inl (.inr ⟨h, hp⟩)
      · exact .inr (.inr ⟨h.symm, hp⟩)
    · exact .inr (.inl h)

/-- The rows of a version, as `GetConfigValuesSince` returns them. -/
def ConfigVersion.since (V : ConfigVersion) : List ConfigValueSince :=
  V.values.map fun r => ⟨V.version, r.fieldPath, r.value, V.createdBy⟩

/-- `GetConfigValuesSince`: the rows of the versions from `startVersion` on. -/
def configValuesSince (L : List ConfigVersion) (startVersion : ℤ) : List ConfigValueSince :=
  ((L.filter fun V => startVersion ≤ V.version).flatMap ConfigVersion.since).insertionSort
    ConfigValueSince.Le

/-! ### The committed tables -/

/-- The schema versions of all schemas; `id` is their primary key. -/
structure Schemas where
  versions : List SchemaVersion
  nodup : (versions.map SchemaVersion.id).Nodup

/-- The committed contents of the database. `log` has the config versions of each tenant
in the order in which they were committed. -/
structure Tables where
  tenants : List Tenant
  schemas : Schemas
  log : String → List ConfigVersion
  locks : String → List TenantFieldLock
  audit : List AuditEntry

namespace Tables

/-- `GetTenantByName`: live tenants only. -/
def tenantByName (db : Tables) (name : String) : Option Tenant :=
  db.tenants.find? fun tn => tn.name = name && !tn.deleted

/-- `GetTenantByID`: live tenants only. -/
def tenantByID (db : Tables) (id : String) : Option Tenant :=
  db.tenants.find? fun tn => tn.id = id && !tn.deleted

/-- `GetSchemaVersion`. -/
def schemaVersion (db : Tables) (schemaID : String) (version : ℤ) : Option SchemaVersion :=
  db.schemas.versions.find? fun sv => sv.schemaID = schemaID && sv.version = version

/-- `GetSchemaFields`. -/
def schemaFields (db : Tables) (schemaVersionID : String) : List SchemaField :=
  ((db.schemas.versions.find? fun sv => sv.id = schemaVersionID).map SchemaVersion.fields).getD []

def boundSchema (db : Tables) (tenantID : String) : Option SchemaVersion :=
  (db.tenantByID tenantID).bind fun tn => db.schemaVersion tn.schemaID tn.schemaVersion

/-- The identifiers in use, soft-deleted tenants included. -/
def tenantIDs (db : Tables) : List String :=
  db.tenants.map Tenant.id

end Tables

/-! ### Queries -/

/-- The read statements. `boundSchema` is the lookup of the validator factory
(`GetTenantByID`, `GetSchemaVersion`, `GetSchemaFields`), whose result the factory caches;
the binding does not change here, so a cached result is the current one. -/
inductive Query where
  | tenantByName (name : String)
  | tenantByID (id : String)
  | schemaVersion (schemaID : String) (version : ℤ)
  | schemaFields (schemaVersionID : String)
  | boundSchema (tenantID : String)
  | fieldLocks (tenantID : String)
  | latestConfigVersion (tenantID : String)
  | configVersion (tenantID : String) (version : ℤ)
  | configValueAtVersion (tenantID fieldPath : String) (version : ℤ)
  | fullConfigAtVersion (tenantID : String) (version : ℤ)
  | configValuesSince (tenantID : String) (startVersion : ℤ)
deriving DecidableEq

abbrev Query.Result : Query → Type
  | tenantByName _ | tenantByID _ => Tenant
  | schemaVersion _ _ | boundSchema _ => SchemaVersion
  | schemaFields _ => List SchemaField
  | fieldLocks _ => List TenantFieldLock
  | latestConfigVersion _ => ℤ
  | configVersion _ _ => VersionHeader
  | configValueAtVersion _ _ _ => ConfigValue
  | fullConfigAtVersion _ _ => List ConfigValue
  | configValuesSince _ _ => List ConfigValueSince

/-- A row, or the error for there being none. -/
def found {α : Type} (row : Option α) : Except StoreErr α :=
  match row with
  | some a => .ok a
  | none => .error .notFound

@[simp] theorem found_eq_ok {α : Type} {row : Option α} {a : α} :
    found row = .ok a ↔ row = some a := by
  cases row <;> simp [found]

/-- A query of the pool, on the tables as the last commit has left them: `DB_READ_URL` is the
database of the writes, or a replica that does not lag. -/
def Tables.eval (db : Tables) : (q : Query) → Except StoreErr q.Result
  | .tenantByName name => found (db.tenantByName name)
  | .tenantByID id => found (db.tenantByID id)
  | .schemaVersion schemaID version => found (db.schemaVersion schemaID version)
  | .schemaFields schemaVersionID => .ok (db.schemaFields schemaVersionID)
  | .boundSchema tenantID => found (db.boundSchema tenantID)
  | .fieldLocks tenantID => .ok (db.locks tenantID)
  | .latestConfigVersion tenantID => found (Decree.latestConfigVersion (db.log tenantID))
  | .configVersion tenantID version =>
    found (((db.log tenantID).find? fun V => V.version = version).map ConfigVersion.header)
  | .configValueAtVersion tenantID fieldPath version =>
    found (Decree.configValueAtVersion (db.log tenantID) version fieldPath)
  | .fullConfigAtVersion tenantID version =>
    .ok (Decree.fullConfigAtVersion (db.log tenantID) version)
  | .configValuesSince tenantID startVersion =>
    .ok (Decree.configValuesSince (db.log tenantID) startVersion)

/-! ### Transactions -/

/-- A write to the field locks: the new locked values of a field, or its removal. -/
structure FieldLockWrite where
  tenantID : String
  fieldPath : String
  lockedValues : Option LockedValues
deriving DecidableEq

/-- An open transaction: what it has written. No call creates more than one config version
or more than one tenant in a transaction. -/
structure Tx where
  version : Option (String × ConfigVersion) := none
  tenant : Option Tenant := none
  lockWrites : List FieldLockWrite := []
  audit : List AuditEntry := []

/-- The upsert of `CreateFieldLock` and the delete of `DeleteFieldLock`. -/
def FieldLockWrite.apply (locks : String → List TenantFieldLock) (w : FieldLockWrite) :
    String → List TenantFieldLock :=
  Function.update locks w.tenantID <|
    (locks w.tenantID).filter (fun l => l.fieldPath ≠ w.fieldPath) ++
      (w.lockedValues.map fun lv => ⟨w.fieldPath, lv⟩).toList

namespace Tx

/-- The version the transaction adds to a tenant's log. -/
def added (tx : Tx) (tenantID : String) : List ConfigVersion :=
  match tx.version with
  | some (T, V) => if T = tenantID then [V] else []
  | none => []

/-- The tables with the transaction's writes: what it sees, and what its commit leaves. -/
def apply (tx : Tx) (db : Tables) : Tables where
  tenants := db.tenants ++ tx.tenant.toList
  schemas := db.schemas
  log := fun T => db.log T ++ tx.added T
  locks := tx.lockWrites.foldl FieldLockWrite.apply db.locks
  audit := db.audit ++ tx.audit

/-- Add rows to the version the transaction has created, if their paths are new. -/
def addRows (tx : Tx) (rows : List ConfigValue) : Option Tx :=
  match tx.version with
  | none => none
  | some (T, V) =>
    if h : ((V.values ++ rows).map ConfigValue.fieldPath).Nodup then
      some { tx with version := some (T, { V with values := V.values ++ rows, nodup := h }) }
    else none

end Tx

/-! ### Operations -/

structure CreateConfigVersionParams where
  tenantID : String
  version : ℤ
  description : Option String
  createdBy : String
deriving DecidableEq

/-- What a lookup in the config cache returns; errors of the other operations are only
logged. -/
abbrev CacheOp.Resp : CacheOp → Type
  | get _ _ => Except StoreErr (Option CachedValues)
  | getNegative _ _ => Except StoreErr Bool
  | set _ _ _ | setNegative _ _ => Unit

/-- The operations of a stream: open a subscription, receive its next event, send a message
to the client. -/
inductive StreamOp where
  | subscribe (tenantID : String)
  | receive (tenantID : String) (position : ℕ)
  | send (message : ConfigChange)

/-- What they return: the position from which the subscription receives, the event unless the
channel is closed, and whether the message was taken. -/
abbrev StreamOp.Resp : StreamOp → Type
  | subscribe _ => Except StoreErr ℕ
  | receive _ _ => Option ConfigChangeEvent
  | send _ => Except StoreErr Unit

/-- The operations of a call: reads (in its transaction or outside), statements of its
transaction, and the calls of the caches, the publisher and the streams. -/
inductive Op where
  | read (inTx : Bool) (q : Query)
  | begin
  | createConfigVersion (p : CreateConfigVersionParams)
  | setConfigValues (rows : List ConfigValue)
  | insertAudit (entries : List AuditEntry)
  | createFieldLock (tenantID fieldPath : String) (lockedValues : LockedValues)
  | deleteFieldLock (tenantID fieldPath : String)
  | createTenant (name schemaID : String) (schemaVersion : ℤ)
  | commit
  | rollback
  | claim (key : String)
  | invalidate (tenantID : String)
  | publish (event : ConfigChangeEvent)
  | cache (o : CacheOp)
  | flight (o : FlightOp)
  | stream (o : StreamOp)

/-- What an operation returns. A delete returns whether it met a row, which its caller
ignores. Errors of the invalidation and the publisher are only logged. -/
abbrev Op.Resp : Op → Type
  | read _ q => Except StoreErr q.Result
  | createConfigVersion _ => Except StoreErr ℤ
  | createTenant _ _ _ => Except StoreErr Tenant
  | claim _ | deleteFieldLock _ _ => Except StoreErr Bool
  | begin | setConfigValues _ | insertAudit _ | createFieldLock _ _ _ | commit =>
    Except StoreErr Unit
  | rollback | invalidate _ | publish _ => Unit
  | cache o => o.Resp
  | flight o => o.Resp
  | stream o => o.Resp

/-- What the operation's answer makes of the caller's transaction. -/
def Op.stage (t : ℕ) : (o : Op) → o.Resp → Option Tx → Option Tx
  | .begin, .ok _, _ => some {}
  | .createConfigVersion p, .ok _, some tx =>
    some { tx with
      version := some (p.tenantID, ⟨p.version, p.description, p.createdBy, [], t, by simp⟩) }
  | .setConfigValues rows, .ok _, some tx => tx.addRows rows
  | .insertAudit entries, .ok _, some tx => some { tx with audit := tx.audit ++ entries }
  | .createFieldLock T f lv, .ok _, some tx =>
    some { tx with lockWrites := tx.lockWrites ++ [⟨T, f, some lv⟩] }
  | .deleteFieldLock T f, .ok true, some tx =>
    some { tx with lockWrites := tx.lockWrites ++ [⟨T, f, none⟩] }
  | .createTenant _ _ _, .ok tn, some tx => some { tx with tenant := some tn }
  | .commit, _, _ => none
  | .rollback, _, _ => none
  | _, _, tx => tx

/-! ### States -/

/-- What a transaction locks until it ends. -/
inductive LockKey where
  | versionSlot (tenantID : String) (version : ℤ)
  | fieldLock (tenantID fieldPath : String)
  | tenantName (name : String)
  | tenantID (id : String)
  | auditChain (tenantID : String)
deriving DecidableEq

/-- The **state** that the calls share: the committed tables, the open transaction of each
call, the locks they hold, the claimed idempotency keys, what was published, the config cache
and the fetches that calls share. -/
structure State where
  db : Tables
  txs : ℕ → Option Tx
  held : List (LockKey × ℕ)
  claims : List String
  published : List ConfigChangeEvent
  cache : ConfigCache := {}
  flights : List Flight := []

/-- What the store leaves open. -/
inductive Choice where
  /-- The operation is carried out. -/
  | ok
  /-- It fails without effect. -/
  | fail
  /-- It takes effect and its answer is lost. -/
  | lost
  /-- It is carried out with this identifier drawn. -/
  | uuid (id : String)
  /-- It is carried out with the time to live of its key over. -/
  | expired
deriving DecidableEq, Repr

namespace State

/-- The tables as a statement of the call sees them. -/
def view (s : State) (inTx : Bool) (t : ℕ) : Tables :=
  match inTx, s.txs t with
  | true, some tx => tx.apply s.db
  | _, _ => s.db

/-- Whether another call holds the lock. -/
def rival (s : State) (t : ℕ) (key : LockKey) : Bool :=
  s.held.any fun p => p.1 = key && p.2 ≠ t

/-- The state with the caller's transaction as the operation leaves it, holding more
locks. -/
def staged (s : State) (t : ℕ) (o : Op) (r : o.Resp) (keys : List LockKey) : State :=
  { s with
    txs := Function.update s.txs t (o.stage t r (s.txs t))
    held := keys.map (·, t) ++ s.held }

/-- The state with the caller's transaction closed over these tables. -/
def closed (s : State) (t : ℕ) (db : Tables) : State :=
  { s with
    db := db
    txs := Function.update s.txs t none
    held := s.held.filter fun p => p.2 ≠ t }

end State

/-! ### The semantics -/

/-- `domain.IsUUID`: lower-case hexadecimal digits in groups of 8, 4, 4, 4 and 12. -/
def isUUID (s : String) : Bool :=
  let groups := s.toList.splitOn '-'
  groups.map List.length = [8, 4, 4, 4, 12] &&
    groups.all fun g => g.all fun c => ('0' ≤ c && c ≤ '9') || ('a' ≤ c && c ≤ 'f')

/-- `CREATE` of a config version: the unique constraint, then the reference to the
tenant. -/
def execCreateConfigVersion (t : ℕ) (p : CreateConfigVersionParams) (s : State) :
    Option (Except StoreErr ℤ × State) :=
  if p.version ∈ (s.db.log p.tenantID).map ConfigVersion.version then
    some (.error .versionConflict, s)
  else if s.rival t (.versionSlot p.tenantID p.version) then none
  else if p.tenantID ∈ (s.view true t).tenantIDs ∧
      ((s.txs t).bind Tx.version).isNone ∧ (s.txs t).isSome then
    some (.ok p.version,
      s.staged t (.createConfigVersion p) (.ok p.version) [.versionSlot p.tenantID p.version])
  else some (.error .failed, s)

/-- Insertion of config values: the primary key. -/
def execSetConfigValues (t : ℕ) (rows : List ConfigValue) (s : State) :
    Option (Except StoreErr Unit × State) :=
  if ((s.txs t).bind fun tx => tx.addRows rows).isSome then
    some (.ok (), s.staged t (.setConfigValues rows) (.ok ()) [])
  else some (.error .failed, s)

/-- Insertion of audit entries, which takes the lock of the tenant's chain. -/
def execInsertAudit (t : ℕ) (entries : List AuditEntry) (s : State) :
    Option (Except StoreErr Unit × State) :=
  let keys := (entries.head?.map fun e => LockKey.auditChain e.tenantID).toList
  if keys.any (s.rival t) then none
  else some (.ok (), s.staged t (.insertAudit entries) (.ok ()) keys)

/-- `CreateFieldLock`: an upsert of the row of a tenant. -/
def execCreateFieldLock (t : ℕ) (T f : String) (lv : LockedValues) (s : State) :
    Option (Except StoreErr Unit × State) :=
  if s.rival t (.fieldLock T f) then none
  else if T ∈ (s.view true t).tenantIDs then
    some (.ok (), s.staged t (.createFieldLock T f lv) (.ok ()) [.fieldLock T f])
  else some (.error .failed, s)

/-- `DeleteFieldLock`: a row that the statement does not see is left alone. -/
def execDeleteFieldLock (t : ℕ) (T f : String) (s : State) :
    Option (Except StoreErr Bool × State) :=
  if f ∈ ((s.view true t).locks T).map TenantFieldLock.fieldPath then
    if s.rival t (.fieldLock T f) then none
    else some (.ok true, s.staged t (.deleteFieldLock T f) (.ok true) [.fieldLock T f])
  else some (.ok false, s)

/-- `CreateTenant` with the identifier drawn: names of live tenants and identifiers are
unique. -/
def execCreateTenant (t : ℕ) (name schemaID : String) (schemaVersion : ℤ) (id : String)
    (s : State) : Option (Except StoreErr Tenant × State) :=
  let tn : Tenant := ⟨id, name, schemaID, schemaVersion, false⟩
  if !isUUID id then none
  else if (s.db.tenantByName name).isSome ∨ id ∈ s.db.tenantIDs then
    some (.error .alreadyExists, s)
  else if s.rival t (.tenantName name) ∨ s.rival t (.tenantID id) then none
  else if ((s.txs t).bind Tx.tenant).isSome then some (.error .failed, s)
  else
    some (.ok tn, s.staged t (.createTenant name schemaID schemaVersion) (.ok tn)
      [.tenantName name, .tenantID id])

def execCommit (ch : Choice) (t : ℕ) (s : State) : Option (Except StoreErr Unit × State) :=
  match s.txs t with
  | none => some (.error .failed, s)
  | some tx =>
    match ch with
    | .fail => some (.error .failed, s.closed t s.db)
    | .lost => some (.error .failed, s.closed t (tx.apply s.db))
    | _ => some (.ok (), s.closed t (tx.apply s.db))

/-- `IdempotencyCache.Claim`: whether the key was free. -/
def execClaim (ch : Choice) (key : String) (s : State) : Except StoreErr Bool × State :=
  match ch with
  | .fail => (.error .failed, s)
  | .lost => (.error .failed, { s with claims := key :: s.claims })
  | .expired => (.ok true, { s with claims := key :: s.claims })
  | _ =>
    if key ∈ s.claims then (.ok false, s)
    else (.ok true, { s with claims := key :: s.claims })

/-- The operations of the config cache. An entry that has expired is gone. -/
def execCache (ch : Choice) : (o : CacheOp) → ConfigCache → o.Resp × ConfigCache
  | .get T v, c =>
    match ch with
    | .fail => (.error .failed, c)
    | .expired => (.ok none, c.evict T v)
    | _ => (.ok (c.get T v), c)
  | .getNegative T v, c =>
    match ch with
    | .fail => (.error .failed, c)
    | .expired => (.ok false, c.evict T v)
    | _ => (.ok (c.getNegative T v), c)
  | .set T v values, c => ((), if ch = .fail then c else c.set T v values)
  | .setNegative T v, c => ((), if ch = .fail then c else c.setNegative T v)

def eventsOf (tenantID : String) (published : List ConfigChangeEvent) :
    List ConfigChangeEvent :=
  published.filter fun ev => ev.tenantID = tenantID

/-- The operations of a stream. A subscription receives what is published after it was
opened, in that order, and waits for more; under the choice `fail` its channel is closed. -/
def execStream (ch : Choice) : (o : StreamOp) → List ConfigChangeEvent → Option o.Resp
  | .subscribe T, published =>
    some (if ch = .fail then .error .failed else .ok (eventsOf T published).length)
  | .receive T position, published =>
    if ch = .fail then some none else (eventsOf T published)[position]?.map some
  | .send _, _ => some (if ch = .fail then .error .failed else .ok ())

/-- A statement that fails under the choice `fail`, without effect. -/
def failing {α : Type} (ch : Choice) (s : State) (answer : Option (Except StoreErr α × State)) :
    Option (Except StoreErr α × State) :=
  if ch = .fail then some (.error .failed, s) else answer

/-- **The semantics of an operation.** -/
def exec (ch : Choice) (t : ℕ) : (o : Op) → State → Option (o.Resp × State)
  | .read inTx q, s => failing ch s (some ((s.view inTx t).eval q, s))
  | .begin, s => failing ch s (some (.ok (), s.staged t .begin (.ok ()) []))
  | .createConfigVersion p, s => failing ch s (execCreateConfigVersion t p s)
  | .setConfigValues rows, s => failing ch s (execSetConfigValues t rows s)
  | .insertAudit entries, s => failing ch s (execInsertAudit t entries s)
  | .createFieldLock T f lv, s => failing ch s (execCreateFieldLock t T f lv s)
  | .deleteFieldLock T f, s => failing ch s (execDeleteFieldLock t T f s)
  | .createTenant name schemaID schemaVersion, s =>
    match ch with
    | .uuid id => execCreateTenant t name schemaID schemaVersion id s
    | _ => some (.error .failed, s)
  | .commit, s => execCommit ch t s
  | .rollback, s => some ((), s.closed t s.db)
  | .claim key, s => some (execClaim ch key s)
  | .invalidate T, s =>
    some ((), if ch = .fail then s else { s with cache := s.cache.invalidate T })
  | .publish ev, s =>
    some ((), if ch = .fail then s else { s with published := s.published ++ [ev] })
  | .cache o, s => some ((execCache ch o s.cache).1, { s with cache := (execCache ch o s.cache).2 })
  | .flight o, s => (o.exec t s.flights).map fun p => (p.1, { s with flights := p.2 })
  | .stream o, s => (execStream ch o s.published).map (·, s)

end Decree
