import Decree.Pagination
import Decree.SchemaImport
import Decree.ValidatorFactory

/-!
# The Catalog of Schemas and Tenants

The tables of the schema service (`internal/schema/store_pg.go`, `db/queries/schemas.sql`,
`tenants.sql`), with the queries and statements on them. A schema or a tenant that is deleted
stays as a row; names are unique among the rows that are live, a version number within its
schema, and a path within its version.

What one transaction does is one operation here, which rolls back as a whole when any of its
statements fails; the statements that `ImportSchema` makes outside of any transaction are
operations of their own. An operation may fail, or take effect while its answer is lost.

A field of a message has an open enumeration for a type, and constraints that may not be
numbers of JSON, so it is a type of its own next to the field that is stored.

## Main definitions

* `CatalogOp`: the operations.
* `execCatalog`: what they do to the tables.
-/

open Go Interleave

namespace Decree

/-! ### Fields of a message -/

/-- `pb.FieldType`, an open enumeration: the types, zero, and every other number. -/
inductive PbFieldType where
  | known (t : FieldType)
  | unspecified
  | unknown (n : ℤ) (h : n < 0 ∨ 8 < n)
deriving DecidableEq

def PbFieldType.name : PbFieldType → String
  | known t => t.protoName
  | unspecified => "FIELD_TYPE_UNSPECIFIED"
  | unknown n _ => formatInt n

def fieldTypeFromProto : PbFieldType → FieldType
  | .known t => t
  | .unspecified | .unknown _ _ => .string

structure PbSchemaField where
  path : String
  type : PbFieldType
  constraints : Option FieldConstraints := none
  nullable : Bool := false
  defaultValue : Option String := none
  readOnly : Bool := false
  writeOnce : Bool := false
  sensitive : Bool := false
  deprecated : Bool := false
  docs : FieldDocs := {}
deriving DecidableEq

def isJSONNumber : Option Float64 → Bool
  | none | some (.finite _) => true
  | some (.inf _) | some .nan => false

/-- The constraints that `json.Marshal` encodes. -/
def FieldConstraints.isJSON (c : FieldConstraints) : Bool :=
  isJSONNumber c.min && isJSONNumber c.max && isJSONNumber c.exclusiveMin &&
    isJSONNumber c.exclusiveMax

/-- A number of a `JSONB` column, where zero has no sign. -/
def unsignedZero : Float64 → Float64
  | .finite x => if x.mant = 0 then .finite { x with neg := false } else .finite x
  | x => x

/-- The constraints as their column gives them back: what cannot be encoded is `NULL`. -/
def FieldConstraints.stored (c : FieldConstraints) : Option FieldConstraints :=
  if c.isJSON then
    some { c with
      min := c.min.map unsignedZero
      max := c.max.map unsignedZero
      exclusiveMin := c.exclusiveMin.map unsignedZero
      exclusiveMax := c.exclusiveMax.map unsignedZero }
  else none

/-- The row that `createFieldsOn` makes of a field. -/
def PbSchemaField.stored (f : PbSchemaField) : SchemaField where
  path := f.path
  fieldType := fieldTypeFromProto f.type
  constraints := f.constraints.bind FieldConstraints.stored
  nullable := f.nullable
  defaultValue := f.defaultValue
  readOnly := f.readOnly
  writeOnce := f.writeOnce
  sensitive := f.sensitive
  deprecated := f.deprecated
  docs := f.docs

def fieldToProto (f : SchemaField) : PbSchemaField where
  path := f.path
  type := .known f.fieldType
  constraints := f.constraints
  nullable := f.nullable
  defaultValue := f.defaultValue
  readOnly := f.readOnly
  writeOnce := f.writeOnce
  sensitive := f.sensitive
  deprecated := f.deprecated
  docs := f.docs

@[simp] theorem PbSchemaField.path_stored (f : PbSchemaField) : f.stored.path = f.path := rfl

@[simp] theorem path_fieldToProto (f : SchemaField) : (fieldToProto f).path = f.path := rfl

theorem unsignedZero_unsignedZero (x : Float64) :
    unsignedZero (unsignedZero x) = unsignedZero x := by
  cases x with
  | finite x =>
    by_cases h : x.mant = 0
    · simp [unsignedZero, h]
    · simp [unsignedZero, h]
  | inf neg => rfl
  | nan => rfl

theorem isJSONNumber_map_unsignedZero (x : Option Float64) :
    isJSONNumber (x.map unsignedZero) = isJSONNumber x := by
  rcases x with _ | x | neg | _
  · rfl
  · by_cases h : x.mant = 0 <;> simp [unsignedZero, isJSONNumber, h]
  · rfl
  · rfl

/-- Storing what was stored changes nothing. -/
theorem FieldConstraints.stored_stored {c c' : FieldConstraints} (h : c.stored = some c') :
    c'.stored = some c' := by
  by_cases hj : c.isJSON = true
  · rw [FieldConstraints.stored, if_pos hj] at h
    cases h
    rw [FieldConstraints.stored, if_pos (by
      simpa [FieldConstraints.isJSON, isJSONNumber_map_unsignedZero] using hj)]
    simp [Function.comp_def, unsignedZero_unsignedZero]
  · rw [FieldConstraints.stored, if_neg hj] at h
    cases h

theorem stored_fieldToProto_stored (f : PbSchemaField) :
    (fieldToProto f.stored).stored = f.stored := by
  have hc : (f.constraints.bind FieldConstraints.stored).bind FieldConstraints.stored =
      f.constraints.bind FieldConstraints.stored := by
    cases hb : f.constraints.bind FieldConstraints.stored with
    | none => rfl
    | some c =>
      obtain ⟨c0, -, hc0⟩ := Option.bind_eq_some_iff.mp hb
      exact FieldConstraints.stored_stored hc0
  rw [PbSchemaField.stored]
  simp only [fieldToProto, PbSchemaField.stored, fieldTypeFromProto, hc]

/-! ### Tables -/

/-- A row of `schemas`. -/
structure CatalogSchema where
  id : String
  name : String
  deleted : Bool := false
deriving DecidableEq

structure CreateSchemaVersionParams where
  schemaID : String
  version : ℤ
  parentVersion : Option ℤ := none
  checksum : String
  dependentRequired : List DependentRequiredEntry := []
  validations : List PbValidationRule := []
deriving DecidableEq

/-- A row of `schema_versions`. -/
structure CatalogVersion extends CreateSchemaVersionParams where
  id : String
  published : Bool := false
deriving DecidableEq

/-- The tables of the schema service; a row of `schema_fields` is a field next to the
identifier of its version. -/
structure Catalog where
  schemas : List CatalogSchema := []
  versions : List CatalogVersion := []
  fields : List (String × SchemaField) := []
  tenants : List Tenant := []
  audit : List AuditEntry := []
deriving DecidableEq

namespace Catalog

def fieldsOf (db : Catalog) (versionID : String) : List SchemaField :=
  (db.fields.filter fun p => p.1 = versionID).map Prod.snd

/-- The fields of a version in the order of their paths, as `GetSchemaFields` lists them. -/
def schemaFields (db : Catalog) (versionID : String) : List SchemaField :=
  (db.fieldsOf versionID).insertionSort fun f g => f.path ≤ g.path

/-- `GetSchemaByID`. -/
def schemaByID (db : Catalog) (id : String) : Option CatalogSchema :=
  db.schemas.find? fun s => s.id = id && !s.deleted

/-- `GetSchemaByName`. -/
def schemaByName (db : Catalog) (name : String) : Option CatalogSchema :=
  db.schemas.find? fun s => s.name = name && !s.deleted

/-- `GetSchemaVersion`. -/
def schemaVersion (db : Catalog) (schemaID : String) (version : ℤ) : Option CatalogVersion :=
  db.versions.find? fun v => v.schemaID = schemaID && v.version = version

/-- The order of the integers, found in one way wherever the module is used. -/
local instance versionOrder : Preorder ℤ :=
  Int.instLinearOrder.toPreorder

/-- `GetLatestSchemaVersion`. -/
def latestSchemaVersion (db : Catalog) (schemaID : String) : Option CatalogVersion :=
  (db.versions.filter fun v => v.schemaID = schemaID).argmax fun v => v.version

/-- `GetTenantByID`. -/
def tenantByID (db : Catalog) (id : String) : Option Tenant :=
  db.tenants.find? fun tn => tn.id = id && !tn.deleted

/-- `GetTenantByName`. -/
def tenantByName (db : Catalog) (name : String) : Option Tenant :=
  db.tenants.find? fun tn => tn.name = name && !tn.deleted

end Catalog

/-! ### Queries -/

inductive CatalogQuery where
  | schemaByID (id : String)
  | schemaByName (name : String)
  | listSchemas (limit offset : ℤ)
  | schemaVersion (schemaID : String) (version : ℤ)
  | latestSchemaVersion (schemaID : String)
  | latestSchemaVersionsBatch (schemaIDs : List String)
  | schemaFields (versionID : String)
  | schemaFieldsByVersionIDs (versionIDs : List String)
  | tenantByID (id : String)
  | tenantByName (name : String)

abbrev CatalogQuery.Result : CatalogQuery → Type
  | schemaByID _ | schemaByName _ => CatalogSchema
  | listSchemas _ _ => List CatalogSchema
  | schemaVersion _ _ | latestSchemaVersion _ => CatalogVersion
  | latestSchemaVersionsBatch _ => List CatalogVersion
  | schemaFields _ => List SchemaField
  | schemaFieldsByVersionIDs _ => List (String × SchemaField)
  | tenantByID _ | tenantByName _ => Tenant

/-- The answer of a query. The newest schemas are listed first; the rows of the batch queries
go into maps, so their order is left to the list of identifiers. -/
def CatalogQuery.eval (db : Catalog) : (q : CatalogQuery) → Except StoreErr q.Result
  | schemaByID id => found (db.schemaByID id)
  | schemaByName name => found (db.schemaByName name)
  | listSchemas limit offset =>
    .ok (((db.schemas.reverse.filter fun s => !s.deleted).drop offset.toNat).take limit.toNat)
  | schemaVersion schemaID version => found (db.schemaVersion schemaID version)
  | latestSchemaVersion schemaID => found (db.latestSchemaVersion schemaID)
  | latestSchemaVersionsBatch schemaIDs => .ok (schemaIDs.dedup.filterMap db.latestSchemaVersion)
  | schemaFields versionID => .ok (db.schemaFields versionID)
  | schemaFieldsByVersionIDs versionIDs =>
    .ok (versionIDs.dedup.flatMap fun id => (db.schemaFields id).map (id, ·))
  | tenantByID id => found (db.tenantByID id)
  | tenantByName name => found (db.tenantByName name)

/-! ### Statements -/

namespace Catalog

def createSchema (db : Catalog) (id name : String) : Except StoreErr (CatalogSchema × Catalog) :=
  if (db.schemaByName name).isSome then .error .alreadyExists
  else .ok (⟨id, name, false⟩, { db with schemas := db.schemas ++ [⟨id, name, false⟩] })

/-- `CreateSchemaVersion`: `UNIQUE (schema_id, version)`, and the reference to the schema. -/
def createSchemaVersion (db : Catalog) (id : String) (p : CreateSchemaVersionParams) :
    Except StoreErr (CatalogVersion × Catalog) :=
  if (db.schemaVersion p.schemaID p.version).isSome ∨
      p.schemaID ∉ db.schemas.map CatalogSchema.id then .error .failed
  else .ok (⟨p, id, false⟩, { db with versions := db.versions ++ [⟨p, id, false⟩] })

/-- `BulkCreateSchemaFields`, one batch: `UNIQUE (schema_version_id, path)`, and the reference
to the version. -/
def bulkCreateSchemaFields (db : Catalog) (versionID : String) (fields : List SchemaField) :
    Except StoreErr (List SchemaField × Catalog) :=
  if fields = [] then .ok ([], db)
  else if ((db.fieldsOf versionID ++ fields).map SchemaField.path).Nodup ∧
      versionID ∈ db.versions.map CatalogVersion.id then
    .ok (fields, { db with fields := db.fields ++ fields.map (versionID, ·) })
  else .error .failed

def publishSchemaVersion (db : Catalog) (schemaID : String) (version : ℤ) :
    Except StoreErr (CatalogVersion × Catalog) :=
  match db.schemaVersion schemaID version with
  | none => .error .notFound
  | some v => .ok ({ v with published := true },
      { db with versions := db.versions.map fun v =>
          if v.schemaID = schemaID ∧ v.version = version then { v with published := true }
          else v })

def softDeleteSchema (db : Catalog) (id : String) : Catalog :=
  { db with schemas := db.schemas.map fun s => if s.id = id then { s with deleted := true } else s }

/-- `CreateTenant`: a name that is free, and the reference to the schema. -/
def createTenant (db : Catalog) (id name schemaID : String) (schemaVersion : ℤ) :
    Except StoreErr (Tenant × Catalog) :=
  if (db.tenantByName name).isSome then .error .alreadyExists
  else if schemaID ∉ db.schemas.map CatalogSchema.id then .error .failed
  else .ok (⟨id, name, schemaID, schemaVersion, false⟩,
    { db with tenants := db.tenants ++ [⟨id, name, schemaID, schemaVersion, false⟩] })

/-- The tables with the row of a live tenant changed. -/
def mapTenant (db : Catalog) (id : String) (f : Tenant → Tenant) : Catalog :=
  { db with tenants := db.tenants.map fun tn => if tn.id = id && !tn.deleted then f tn else tn }

/-- A statement on the row of a live tenant. -/
def tenantStmt (db : Catalog) (id : String) (stmt : TenantStmt) :
    Except StoreErr (Tenant × Catalog) :=
  match db.tenantByID id with
  | none => .error .notFound
  | some tn =>
    match stmt with
    | .updateName name =>
      if db.tenants.any fun tn' => tn'.name = name && !tn'.deleted && tn'.id ≠ id then
        .error .alreadyExists
      else .ok ({ tn with name := name }, db.mapTenant id fun tn => { tn with name := name })
    | .updateSchemaVersion version =>
      .ok ({ tn with schemaVersion := version },
        db.mapTenant id fun tn => { tn with schemaVersion := version })
    | .get => .ok (tn, db)

def softDeleteTenant (db : Catalog) (id : String) : Catalog :=
  { db with tenants := db.tenants.map fun tn =>
      if tn.id = id then { tn with deleted := true } else tn }

/-- `InsertAuditWriteLog`. -/
def insertAudit (db : Catalog) (entry : AuditEntry) : Catalog :=
  { db with audit := db.audit ++ [entry] }

end Catalog

/-! ### Operations -/

/-- The errors of an operation: a status that a transaction returns, or an error of the
store. -/
inductive CatalogErr where
  | status (s : Status)
  | store (e : StoreErr)
deriving DecidableEq

/-- The operations: a query, a statement outside of a transaction, or a transaction. The
fields of a new version come with the outcome of their checks. -/
inductive CatalogOp where
  | read (q : CatalogQuery)
  | createSchema (name : String)
  | createSchemaVersion (p : CreateSchemaVersionParams)
  | bulkCreateSchemaFields (versionID : String) (fields : List SchemaField)
  | createSchemaTx (name checksum : String) (fields : Except Status (List SchemaField))
      (actor : String)
  | updateSchemaTx (p : CreateSchemaVersionParams) (fields : Except Status (List SchemaField))
      (actor : String)
  | deleteSchemaTx (id actor : String)
  | publishSchemaTx (schemaID : String) (version : ℤ) (actor : String)
  | createTenantTx (name schemaID : String) (schemaVersion : ℤ) (actor : String)
  | updateTenantTx (id : String) (stmts : List TenantStmt) (actor : String)
  | deleteTenantTx (id actor : String)

/-- What an operation returns where it succeeds. -/
abbrev CatalogOp.Out : CatalogOp → Type
  | read q => q.Result
  | createSchema _ => CatalogSchema
  | createSchemaVersion _ => CatalogVersion
  | bulkCreateSchemaFields _ _ => List SchemaField
  | createSchemaTx _ _ _ _ => CatalogSchema × CatalogVersion × List SchemaField
  | updateSchemaTx _ _ _ | publishSchemaTx _ _ _ => CatalogVersion × List SchemaField
  | deleteSchemaTx _ _ | deleteTenantTx _ _ => Unit
  | createTenantTx _ _ _ _ | updateTenantTx _ _ _ => Tenant

abbrev CatalogOp.Resp (o : CatalogOp) : Type :=
  Except CatalogErr o.Out

/-- The identifiers that the database draws for new rows. -/
structure DrawnIDs where
  schema : String
  version : String
  tenant : String

/-- Identifiers of no row. -/
def DrawnIDs.Fresh (ids : DrawnIDs) (db : Catalog) : Prop :=
  (isUUID ids.schema = true ∧ ids.schema ∉ db.schemas.map CatalogSchema.id) ∧
    (isUUID ids.version = true ∧ ids.version ∉ db.versions.map CatalogVersion.id) ∧
    isUUID ids.tenant = true ∧ ids.tenant ∉ db.tenants.map Tenant.id

instance (ids : DrawnIDs) (db : Catalog) : Decidable (ids.Fresh db) :=
  instDecidableAnd

/-- An audit entry of the schema service. -/
def catalogAudit (tenantID actor action objectKind : String) (oldValue newValue : Option String) :
    AuditEntry where
  tenantID := tenantID
  actor := actor
  action := action
  objectKind := objectKind
  oldValue := oldValue
  newValue := newValue

/-- The end of `createFieldsOn`: fields that pass their checks are inserted. -/
def Catalog.createFieldsOn (db : Catalog) (versionID : String) :
    Except Status (List SchemaField) → Except CatalogErr (List SchemaField × Catalog)
  | .error s => .error (.status s)
  | .ok fields => (db.bulkCreateSchemaFields versionID fields).mapError fun _ =>
    .status (internal "failed to create schema fields")

/-- The statements of `UpdateTenant`, from the row that was last returned. -/
def Catalog.tenantStmts (id : String) :
    List TenantStmt → Tenant → Catalog → Except CatalogErr (Tenant × Catalog)
  | [], tn, db => .ok (tn, db)
  | stmt :: stmts, _, db =>
    match db.tenantStmt id stmt with
    | .error e =>
      match (TenantTxErr.stmt stmt e).toTxErr with
      | .status s => .error (.status s)
      | _ => .error (.store e)
    | .ok (tn, db') => tenantStmts id stmts tn db'

/-- **What an operation does** where the database does not fail. -/
def CatalogOp.body (ids : DrawnIDs) :
    (o : CatalogOp) → Catalog → Except CatalogErr (o.Out × Catalog)
  | read q, db => ((q.eval db).map (·, db)).mapError .store
  | createSchema name, db => (db.createSchema ids.schema name).mapError .store
  | createSchemaVersion p, db => (db.createSchemaVersion ids.version p).mapError .store
  | bulkCreateSchemaFields versionID fields, db =>
    (db.bulkCreateSchemaFields versionID fields).mapError .store
  | createSchemaTx name checksum fields actor, db => do
      let (schema, db) ← (db.createSchema ids.schema name).mapError fun e =>
        if e = .alreadyExists then .status ⟨.alreadyExists, "schema with this name already exists"⟩
        else .store e
      let (version, db) ← (db.createSchemaVersion ids.version
        { schemaID := schema.id, version := 1, checksum := checksum }).mapError .store
      let (rows, db) ← db.createFieldsOn version.id fields
      pure ((schema, version, rows), db.insertAudit
        (catalogAudit "" actor "create_schema" "schema" none (ptrString schema.id)))
  | updateSchemaTx p fields actor, db => do
      let (version, db) ← (db.createSchemaVersion ids.version p).mapError .store
      let (rows, db) ← db.createFieldsOn version.id fields
      pure ((version, rows), db.insertAudit
        (catalogAudit "" actor "update_schema" "schema" none (ptrString p.schemaID)))
  | deleteSchemaTx id actor, db => .ok ((), (db.softDeleteSchema id).insertAudit
      (catalogAudit "" actor "delete_schema" "schema" (ptrString id) none))
  | publishSchemaTx schemaID version actor, db => do
      let (v, db) ← (db.publishSchemaVersion schemaID version).mapError .store
      pure ((v, db.schemaFields v.id), db.insertAudit
        (catalogAudit "" actor "publish_schema" "schema" none (ptrString schemaID)))
  | createTenantTx name schemaID schemaVersion actor, db => do
      let (tn, db) ← (db.createTenant ids.tenant name schemaID schemaVersion).mapError fun e =>
        if e = .alreadyExists then .status ⟨.alreadyExists, "tenant with this name already exists"⟩
        else .store e
      pure (tn, db.insertAudit
        (catalogAudit tn.id actor "create_tenant" "tenant" none (ptrString tn.id)))
  | updateTenantTx id stmts actor, db => do
      let (tn, db) ← Catalog.tenantStmts id stmts Tenant.zero db
      pure (tn, db.insertAudit (catalogAudit id actor "update_tenant" "tenant" none (ptrString id)))
  | deleteTenantTx id actor, db => .ok ((), (db.softDeleteTenant id).insertAudit
      (catalogAudit id actor "delete_tenant" "tenant" (ptrString id) none))

/-- How an operation ends: as it should, without effect, or with its answer lost. -/
inductive Outcome where
  | ok
  | fail
  | lost
deriving DecidableEq

/-- What the database leaves open. -/
structure CatalogChoice where
  outcome : Outcome := .ok
  ids : DrawnIDs

/-- **The semantics of an operation.** -/
def execCatalog (ch : CatalogChoice) (_ : ℕ) (o : CatalogOp) (db : Catalog) :
    Option (o.Resp × Catalog) :=
  if ch.ids.Fresh db then
    match ch.outcome, o.body ch.ids db with
    | .fail, _ => some (.error (.store .failed), db)
    | _, .error e => some (.error e, db)
    | .ok, .ok (r, db') => some (.ok r, db')
    | .lost, .ok (_, db') => some (.error (.store .failed), db')
  else none

end Decree
