import Decree.Catalog

/-!
# The Schema Service over the Catalog

The calls of the schema service that create, change, publish, delete, list and import schemas,
and those that bind tenants to their versions (`internal/schema/service.go`), as programs over
the operations of the `Catalog`.

A call checks its request and its caller, reads, and then has one transaction. `ImportSchema` makes
the row of the schema, the row of the version and the rows of the fields with one statement each,
outside of any transaction, checks the paths of the fields between the second and the third, and
publishes by a call of `PublishSchema`.

## Main definitions

* `CatalogProc`: the programs.
* `catalogReads`: the reads about tenants, over the catalog.
-/

open Go Interleave

namespace Decree

/-- What the calls are given beside their requests: the functions and limits of the validators
and of the import, and `MaxRemoveFields`; zero is no limit. -/
structure AdminEnv where
  env : Env
  senv : SchemaEnv
  maxRemoveFields : ℕ

namespace SchemaAdmin

/-! ### Programs -/

/-- A program of the schema service. -/
abbrev CatalogProc (α : Type) := ExceptT CatalogErr (Prog CatalogOp.Resp) α

section Basics

variable {α : Type}

/-- Perform an operation and take its response through a function. -/
def ask (o : CatalogOp) (f : o.Resp → Except CatalogErr α) : CatalogProc α :=
  ExceptT.mk (.op o fun r => .ret (f r))

/-- The errors of the store as a status; a status of a transaction is passed on. -/
def toStatus (onError : StoreErr → Status) : CatalogErr → CatalogErr
  | .status s => .status s
  | .store e => .status (onError e)

/-- Perform an operation, with the errors of the store mapped. -/
def perform (o : CatalogOp) (onError : StoreErr → Status) : CatalogProc o.Out :=
  ask o (Except.mapError (toStatus onError))

/-- The result of a pure check. -/
def checked (x : Except Status α) : CatalogProc α :=
  ExceptT.mk (.ret (x.mapError .status))

end Basics

variable (aenv : AdminEnv)

/-! ### Requests -/

structure CreateSchemaRequest where
  name : String
  fields : List PbSchemaField

structure GetSchemaRequest where
  id : String
  version : Option ℤ := none

structure ListSchemasRequest where
  pageSize : ℤ
  pageToken : String

structure UpdateSchemaRequest where
  id : String
  fields : List PbSchemaField
  removeFields : List String

structure PublishSchemaRequest where
  id : String
  version : ℤ

/-- `schemaToProto`: a schema is answered by its rows. -/
structure SchemaReply where
  schema : CatalogSchema
  version : CatalogVersion
  fields : List SchemaField
deriving DecidableEq

inductive AdminReply where
  | schema (s : SchemaReply)
  | schemas (ss : List SchemaReply) (nextPageToken : String)
  | tenant (tn : Tenant)
  | done
deriving DecidableEq

/-! ### Fields -/

/-- A constraint that is present on a field of no known type is never one for its type. -/
def ensureUntyped (f : PbSchemaField) (present : Bool) (keyword only : String) :
    Except String Unit :=
  ensure (!present) ("field " ++ f.path ++ ": '" ++ keyword ++
    "' constraint is not valid for type " ++ f.type.name ++ " (only " ++ only ++ ")")

/-- `validateFieldConstraints` of a field of a message. -/
def validatePbConstraints (f : PbSchemaField) : Except String Unit :=
  match f.type, f.constraints with
  | .known t, _ => validateFieldConstraints aenv.env aenv.senv
      { path := f.path, fieldType := t, constraints := f.constraints }
  | _, none => .ok ()
  | _, some c => do
      let numericTypes := "integer, number, duration"
      ensureUntyped f c.min.isSome "minimum" numericTypes
      ensureUntyped f c.max.isSome "maximum" numericTypes
      ensureUntyped f c.exclusiveMin.isSome "exclusiveMinimum" numericTypes
      ensureUntyped f c.exclusiveMax.isSome "exclusiveMaximum" numericTypes
      ensureUntyped f c.minLength.isSome "minLength" "string"
      ensureUntyped f c.maxLength.isSome "maxLength" "string"
      ensureUntyped f c.regex.isSome "pattern" "string"
      ensureUntyped f c.jsonSchema.isSome "json_schema" "json"

/-- `createFieldsOn`, up to the insertion: the checks, and the rows. -/
def newFields (fields : List PbSchemaField) : Except Status (List SchemaField) := do
  (checkNeighbours aenv.env ((fields.map PbSchemaField.path).insertionSort (· ≤ ·))).mapError
    invalidArgument
  (fields.forM (validatePbConstraints aenv)).mapError invalidArgument
  pure (fields.map PbSchemaField.stored)

/-- The text that a field contributes to the checksum: no default, and no rule. -/
def fieldText (f : PbSchemaField) : String :=
  ":".intercalate [f.path, f.type.name, sprintBool f.nullable, sprintBool f.deprecated,
    sprintBool f.sensitive, sprintBool f.readOnly, sprintBool f.writeOnce] ++
    ((f.constraints.map aenv.senv.marshalConstraints).getD "")

/-- The text that is hashed, over the fields in the order of their paths. -/
def fieldsText (fields : List PbSchemaField) : String :=
  String.join ((fields.insertionSort fun f g => f.path ≤ g.path).map (fieldText aenv))

/-- Sixteen digits of the hash of a text. -/
def shortHash (text : String) : String :=
  String.ofList ((aenv.senv.sha256Hex text).toList.take 16)

def computeChecksum (fields : List PbSchemaField) : String :=
  shortHash aenv (fieldsText aenv fields)

/-- A map of fields with a field set at its path. -/
def setField (m : List PbSchemaField) (f : PbSchemaField) : List PbSchemaField :=
  m.filter (fun g => g.path ≠ f.path) ++ [f]

/-- The merge of `UpdateSchema`: the fields of the parent, without those that are removed,
and the fields of the request over them. -/
def mergeFields (existing : List SchemaField) (req : UpdateSchemaRequest) : List PbSchemaField :=
  let fieldMap := (existing.map fieldToProto).foldl setField []
  let kept := req.removeFields.foldl (fun m path => m.filter fun g => g.path ≠ path) fieldMap
  req.fields.foldl setField kept

/-! ### Schemas -/

/-- The check of an identifier or name in a request. -/
def requireSchemaID (id : String) : Except Status Unit :=
  demand (id ≠ "") (invalidArgument "schema id or name required")

def resolveSchema (idOrName failedMsg : String) : CatalogProc CatalogSchema :=
  if isUUID idOrName then
    perform (.read (.schemaByID idOrName)) (lookupError "schema not found" failedMsg)
  else perform (.read (.schemaByName idOrName)) (lookupError "schema not found" failedMsg)

def checkCreateSchema (caller : Caller) (req : CreateSchemaRequest) : Except Status Unit := do
  admitGlobal caller
  demand (req.name ≠ "") (invalidArgument "name is required")
  demand (isValidSlug req.name)
    (invalidArgument "name must be a slug: lowercase alphanumeric and hyphens, 1-63 chars")
  demand (aenv.senv.maxFields = 0 || req.fields.length ≤ aenv.senv.maxFields)
    (invalidArgument ("schema has " ++ formatInt req.fields.length ++
      " fields, exceeds limit of " ++ formatInt aenv.senv.maxFields))

def createSchema (caller : Caller) (req : CreateSchemaRequest) : CatalogProc AdminReply := do
  checked (checkCreateSchema aenv caller req)
  let (schema, version, rows) ← perform
    (.createSchemaTx req.name (computeChecksum aenv req.fields) (newFields aenv req.fields)
      (getActor caller))
    fun _ => internal "failed to create schema"
  pure (.schema ⟨schema, version, rows⟩)

/-- The lookup of the version that `GetSchema` is asked for. -/
def lookupVersion (schemaID : String) : Option ℤ → CatalogProc CatalogVersion
  | some version => perform (.read (.schemaVersion schemaID version))
      (lookupError "schema version not found" "failed to get schema version")
  | none => perform (.read (.latestSchemaVersion schemaID))
      (lookupError "schema version not found" "failed to get schema version")

def getSchema (caller : Caller) (req : GetSchemaRequest) : CatalogProc AdminReply := do
  checked (mustHaveClaims caller)
  checked (requireSchemaID req.id)
  let schema ← resolveSchema req.id "failed to get schema"
  let version ← lookupVersion schema.id req.version
  let fields ← perform (.read (.schemaFields version.id)) fun _ =>
    internal "failed to get schema fields"
  pure (.schema ⟨schema, version, fields⟩)

def pageOfSchemas (schemas : List CatalogSchema) (versions : List CatalogVersion)
    (rows : List (String × SchemaField)) : List SchemaReply :=
  schemas.filterMap fun s => (versions.find? fun v => v.schemaID = s.id).map fun v =>
    ⟨s, v, (rows.filter fun p => p.1 = v.id).map Prod.snd⟩

/-- The versions and the fields of the schemas of a page. -/
def fillPage (schemas : List CatalogSchema) : CatalogProc (List SchemaReply) :=
  if schemas = [] then pure []
  else do
    let versions ← perform (.read (.latestSchemaVersionsBatch (schemas.map CatalogSchema.id)))
      fun _ => internal "failed to get latest schema versions"
    let rows ← perform (.read (.schemaFieldsByVersionIDs (versions.map CatalogVersion.id)))
      fun _ => internal "failed to get schema fields"
    pure (pageOfSchemas schemas versions rows)

def listSchemas (caller : Caller) (req : ListSchemasRequest) : CatalogProc AdminReply := do
  checked (mustHaveClaims caller)
  let pageSize := clampPageSize req.pageSize 50 100
  let offset ← checked ((decodePageToken req.pageToken).mapError invalidArgument)
  let schemas ← perform (.read (.listSchemas (pageSize + 1) offset)) fun _ =>
    internal "failed to list schemas"
  let page ← fillPage (schemas.take pageSize.toNat)
  pure (.schemas page (nextPageToken pageSize schemas.length offset))

def checkUpdateSchema (caller : Caller) (req : UpdateSchemaRequest) : Except Status Unit := do
  admitGlobal caller
  requireSchemaID req.id
  demand (aenv.maxRemoveFields = 0 || req.removeFields.length ≤ aenv.maxRemoveFields)
    (invalidArgument ("remove_fields has " ++ formatInt req.removeFields.length ++
      " entries, exceeds limit of " ++ formatInt aenv.maxRemoveFields))

/-- **`UpdateSchema`**: the new version is made of fields alone. -/
def updateSchema (caller : Caller) (req : UpdateSchemaRequest) : CatalogProc AdminReply := do
  checked (checkUpdateSchema aenv caller req)
  let schema ← resolveSchema req.id "failed to get schema"
  let latest ← perform (.read (.latestSchemaVersion schema.id)) fun _ =>
    internal "failed to get latest version"
  let existing ← perform (.read (.schemaFields latest.id)) fun _ =>
    internal "failed to get fields"
  let merged := mergeFields existing req
  let (version, rows) ← perform
    (.updateSchemaTx
      { schemaID := schema.id
        version := wrap32 (latest.version + 1)
        parentVersion := some latest.version
        checksum := computeChecksum aenv merged }
      (newFields aenv merged) (getActor caller))
    fun _ => internal "failed to update schema"
  pure (.schema ⟨schema, version, rows⟩)

/-- The checks of `DeleteSchema` and `PublishSchema`. -/
def checkSchemaAction (caller : Caller) (id : String) : Except Status Unit := do
  admitGlobal caller
  requireSchemaID id

def deleteSchema (caller : Caller) (id : String) : CatalogProc AdminReply := do
  checked (checkSchemaAction caller id)
  let schema ← resolveSchema id "failed to resolve schema"
  perform (.deleteSchemaTx schema.id (getActor caller))
    (lookupError "schema not found" "failed to delete schema")
  pure .done

def publishSchema (caller : Caller) (req : PublishSchemaRequest) : CatalogProc SchemaReply := do
  checked (checkSchemaAction caller req.id)
  let schema ← resolveSchema req.id "failed to get schema"
  let (version, fields) ← perform (.publishSchemaTx schema.id req.version (getActor caller))
    (lookupError "schema version not found" "failed to publish schema version")
  pure ⟨schema, version, fields⟩

/-! ### The import -/

/-- The fields of a document as a message. -/
def importedFields (doc : SchemaYAML) : List PbSchemaField :=
  (yamlToProtoFields doc).map fieldToProto

/-- `createFields`, outside of a transaction. -/
def createFields (versionID : String) (doc : SchemaYAML) : CatalogProc (List SchemaField) := do
  checked (checkNewFields aenv.env aenv.senv (yamlToProtoFields doc))
  perform (.bulkCreateSchemaFields versionID ((importedFields doc).map PbSchemaField.stored))
    fun _ => internal "failed to create schema fields"

/-- The row of a version with the rules of the document. -/
def versionParams (doc : SchemaYAML) (schemaID : String) (version : ℤ) (parent : Option ℤ) :
    CreateSchemaVersionParams where
  schemaID := schemaID
  version := version
  parentVersion := parent
  checksum := computeChecksum aenv (importedFields doc)
  dependentRequired := yamlToProtoDependentRequired doc.dependentRequired
  validations := yamlToProtoValidations doc.validations

/-- The row of a version, and then its fields. -/
def importVersion (doc : SchemaYAML) (schema : CatalogSchema) (version : ℤ) (parent : Option ℤ) :
    CatalogProc SchemaReply := do
  let row ← perform (.createSchemaVersion (versionParams aenv doc schema.id version parent))
    fun _ => internal "failed to create schema version"
  let rows ← createFields aenv row.id doc
  pure ⟨schema, row, rows⟩

def importCreateNew (doc : SchemaYAML) : CatalogProc SchemaReply := do
  let schema ← perform (.createSchema doc.name) fun _ => internal "failed to create schema"
  importVersion aenv doc schema 1 none

/-- The status of an import that changes nothing. -/
def schemaIdentical : Status :=
  ⟨.alreadyExists, "schema is identical to the latest version"⟩

/-- The import into a schema that exists: identical to the latest version by its checksum, or
`importNewVersion`. -/
def importExisting (doc : SchemaYAML) (existing : CatalogSchema) : CatalogProc SchemaReply := do
  let latest ← perform (.read (.latestSchemaVersion existing.id)) fun _ =>
    internal "failed to get latest version"
  if latest.checksum = computeChecksum aenv (importedFields doc) then do
    let _ ← perform (.read (.schemaFields latest.id)) fun _ => internal "failed to get fields"
    throw (.status schemaIdentical)
  else importVersion aenv doc existing (wrap32 (latest.version + 1)) (some latest.version)

/-- The lookup of the schema by its name, which may be missing. -/
def lookupSchema (name : String) : CatalogProc (Option CatalogSchema) :=
  ask (.read (.schemaByName name)) fun r =>
    match (r : Except CatalogErr CatalogSchema) with
    | .ok s => .ok (some s)
    | .error (.store .notFound) => .ok none
    | .error _ => .error (.status (internal "failed to look up schema"))

/-- `autoPublish`, if it is asked for. -/
def autoPublish (caller : Caller) (asked : Bool) (reply : SchemaReply) : CatalogProc SchemaReply :=
  if asked then publishSchema caller ⟨reply.schema.id, reply.version.version⟩ else pure reply

/-- What `ImportSchema` does with a document, up to its publication. -/
def importDocument (doc : SchemaYAML) : CatalogProc SchemaReply := do
  let existing ← lookupSchema doc.name
  match existing with
  | none => importCreateNew aenv doc
  | some existing => importExisting aenv doc existing

def importSchema (caller : Caller) (req : ImportSchemaRequest) : CatalogProc AdminReply := do
  let doc ← checked (acceptSchema aenv.env aenv.senv caller req)
  let reply ← importDocument aenv doc
  let reply ← autoPublish caller req.autoPublish reply
  pure (.schema reply)

/-! ### Tenants -/

/-- The reads of the calls about tenants, over the catalog: `CreateTenant` and `UpdateTenant`
make the same checks and reads here as over the store of the config service. -/
def catalogReads : TenantReads (ExceptT CatalogErr (Prog CatalogOp.Resp)) CatalogVersion where
  check := checked
  tenantByID id := perform (.read (.tenantByID id))
    (lookupError "tenant not found" "failed to resolve tenant")
  tenantByName name := perform (.read (.tenantByName name))
    (lookupError "tenant not found" "failed to resolve tenant")
  schemaVersion schemaID version := perform (.read (.schemaVersion schemaID version))
    (lookupError "schema version not found" "failed to get schema version")
  schemaFields sv := perform (.read (.schemaFields sv.id)) fun _ =>
    internal "failed to load schema fields"
  published := CatalogVersion.published

/-- **`CreateTenant`**; the config that it seeds is in the tables of the config service. -/
def createTenant (caller : Caller) (req : CreateTenantRequest) : CatalogProc AdminReply := do
  let _ ← catalogReads.prepareCreate aenv.env caller req
  let tenant ← perform
    (.createTenantTx req.name req.schemaId req.schemaVersion (getActor caller))
    fun _ => internal "failed to create tenant"
  pure (.tenant tenant)

/-- **`UpdateTenant`**: an error of its transaction that is no status is passed on. -/
def updateTenant (caller : Caller) (req : UpdateTenantRequest) : CatalogProc AdminReply := do
  let resolved ← catalogReads.prepareUpdate caller req
  let tenant ← ask (.updateTenantTx resolved.id req.stmts (getActor caller)) id
  pure (.tenant tenant)

def deleteTenant (caller : Caller) (id : String) : CatalogProc AdminReply := do
  checked (mustHaveClaims caller)
  let tenant ← catalogReads.resolveTenant caller id
  checked (accessGuards caller .global {})
  perform (.deleteTenantTx tenant.id (getActor caller)) fun _ => internal "failed to delete tenant"
  pure .done

/-! ### The system -/

inductive AdminRequest where
  | createSchema (req : CreateSchemaRequest)
  | getSchema (req : GetSchemaRequest)
  | listSchemas (req : ListSchemasRequest)
  | updateSchema (req : UpdateSchemaRequest)
  | deleteSchema (id : String)
  | publishSchema (req : PublishSchemaRequest)
  | importSchema (req : ImportSchemaRequest)
  | createTenant (req : CreateTenantRequest)
  | updateTenant (req : UpdateTenantRequest)
  | deleteTenant (id : String)

def AdminRequest.proc (caller : Caller) : AdminRequest → CatalogProc AdminReply
  | createSchema req => SchemaAdmin.createSchema aenv caller req
  | getSchema req => SchemaAdmin.getSchema caller req
  | listSchemas req => SchemaAdmin.listSchemas caller req
  | updateSchema req => SchemaAdmin.updateSchema aenv caller req
  | deleteSchema id => SchemaAdmin.deleteSchema caller id
  | publishSchema req => do
      let reply ← SchemaAdmin.publishSchema caller req
      pure (.schema reply)
  | importSchema req => SchemaAdmin.importSchema aenv caller req
  | createTenant req => SchemaAdmin.createTenant aenv caller req
  | updateTenant req => SchemaAdmin.updateTenant caller req
  | deleteTenant id => SchemaAdmin.deleteTenant caller id

abbrev AdminConfig := Config CatalogOp.Resp Catalog (Except CatalogErr AdminReply)

/-- The requests of any number of concurrent callers. -/
abbrev Callers := List (Caller × AdminRequest)

/-- **The schema service**: every caller has its request to do, on an empty database. -/
def start (callers : Callers) : AdminConfig where
  shared := {}
  pool t :=
    match callers[t]? with
    | some (caller, req) => ⟨(req.proc aenv caller).run, []⟩
    | none => ⟨.ret (.ok .done), []⟩

end SchemaAdmin

end Decree
