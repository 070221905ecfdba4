import Decree.ConfigService
import Decree.ReadService
import Decree.SchemaService

/-!
# The System

Any number of calls over one store, interleaved operation by operation.

## Main definitions

* `Call`: the calls, with their requests.
* `Init.system`: where a run begins.
-/

open Interleave

namespace Decree

variable (env : Env)

inductive Call where
  | setField (caller : Caller) (req : SetFieldRequest)
  | setFields (caller : Caller) (req : SetFieldsRequest)
  | rollbackToVersion (caller : Caller) (req : RollbackRequest)
  | importConfig (caller : Caller) (req : ImportRequest)
  | lockField (caller : Caller) (req : LockFieldRequest)
  | unlockField (caller : Caller) (req : UnlockFieldRequest)
  | createTenant (caller : Caller) (req : CreateTenantRequest)
  | getConfig (caller : Caller) (req : GetConfigRequest)
  | getField (caller : Caller) (req : GetFieldRequest)
  | getFields (caller : Caller) (req : GetFieldsRequest)
  | diffVersions (caller : Caller) (req : DiffVersionsRequest)
  | exportConfig (caller : Caller) (req : ExportConfigRequest)
  | subscribe (caller : Caller) (req : SubscribeRequest) (patience : ℕ)

def Call.proc : Call → Proc Status Reply
  | setField caller req => Decree.setField env caller req
  | setFields caller req => Decree.setFields env caller req
  | rollbackToVersion caller req => Decree.rollbackToVersion env caller req
  | importConfig caller req => Decree.importConfig env caller req
  | lockField caller req => Decree.lockField caller req
  | unlockField caller req => Decree.unlockField caller req
  | createTenant caller req => Decree.createTenant env caller req
  | getConfig caller req => Decree.getConfig env caller req
  | getField caller req => Decree.getField env caller req
  | getFields caller req => Decree.getFields env caller req
  | diffVersions caller req => Decree.diffVersions env caller req
  | exportConfig caller req => Decree.exportConfig env caller req
  | subscribe caller req patience => Decree.subscribe env caller req patience

abbrev System := Config Op.Resp State (Except Status Reply)

/-- Where a run begins: some tenants, schemas and field locks, no config yet, and any number
of calls that have not begun. -/
structure Init where
  tenants : List Tenant
  schemas : Schemas
  locks : String → List TenantFieldLock
  calls : ℕ → Call

def Init.system (init : Init) : System where
  shared :=
    { db := ⟨init.tenants, init.schemas, fun _ => [], init.locks, []⟩
      txs := fun _ => none
      held := []
      claims := []
      published := [] }
  pool t := ⟨((init.calls t).proc env).run, []⟩

/-! ### A small instance

One tenant with an integer field `a`, a string field `b` and a write-once field `w`, on which
concrete runs are carried out. -/

namespace Sample

def document (values : List (String × YamlValue)) (h : (values.map Prod.fst).Nodup) :
    ConfigYAML where
  specVersion := "v1"
  description := ""
  values := values.map fun p => (p.1, { value := p.2 })
  extensions := []
  nodup := by simpa [Function.comp_def] using h

def noDocument : ConfigYAML :=
  document [] (by simp)

def documentOfA (value : String) : ConfigYAML :=
  document [("a", .str value)] (by simp)

/-- An environment in which every text is the same config document. -/
def world (doc : ConfigYAML) : Env where
  xxhash s := s.toList.foldl (fun h c => 31 * h + c.toNat) 7
  quote s := s
  sprintYaml _ := ""
  jsonMarshal _ := .error "unsupported value"
  jsonNative s := some (.json s)
  jsonUnmarshal _ := none
  int64OfFloat _ := .zero
  yamlHeader _ := .ok "v1"
  yamlConfig _ := .ok doc
  yamlMarshal _ := .ok ""
  regexCompile _ := .error "unsupported pattern"
  urlParse _ := none
  jsonSchema _ := .error "unsupported schema"
  celCompile _ _ := .error "unsupported rule"
  celAggregateCostCap := 0
  regexMaxLength := 0
  maxListLen := 0
  maxDocBytes := 0
  maxFieldValueBytes := 0
  hasValidators := true
  hasIdempotencyCache := true

def tenant : String :=
  "00000000-0000-0000-0000-000000000001"

def schema : SchemaVersion where
  id := "sv"
  schemaID := "s"
  version := 1
  published := true
  dependentRequired := []
  validations := []
  fields :=
    [{ path := "a", fieldType := .integer },
      { path := "b", fieldType := .string, nullable := true },
      { path := "w", fieldType := .string, writeOnce := true }]
  nodup := by decide

def init (locks : List TenantFieldLock) (calls : List Call) : Init where
  tenants := [⟨tenant, "acme", "s", 1, false⟩]
  schemas := ⟨[schema], by decide⟩
  locks _ := locks
  calls t := calls.getD t (.unlockField ⟨none, false⟩ ⟨"", ""⟩)

/-- A caller who may do everything, and one who may write the tenant's config. -/
def superadmin : Caller :=
  ⟨some ⟨.superadmin, [], "root"⟩, false⟩

@[inherit_doc superadmin]
def admin : Caller :=
  ⟨some ⟨.admin, [tenant], "ann"⟩, false⟩

def set (caller : Caller) (fieldPath value : String) : Call :=
  .setField caller
    { tenantId := tenant, fieldPath := fieldPath, value := some (.stringValue value) }

/-- A `SetField` of the tenant that expects the field to have a value. -/
def compareAndSet (caller : Caller) (fieldPath old value : String) : Call :=
  .setField caller
    { tenantId := tenant, fieldPath := fieldPath, value := some (.stringValue value),
      expectedChecksum := some (computeChecksum (world noDocument) old) }

def rollbackTo (caller : Caller) (version : ℤ) : Call :=
  .rollbackToVersion caller { tenantId := tenant, version := version }

def importDocument (caller : Caller) (mode : ImportMode) : Call :=
  .importConfig caller { tenantId := tenant, yamlContent := "", mode := mode }

def steps (t n : ℕ) : List (ℕ × Choice) :=
  List.replicate n (t, .ok)

end Sample

end Decree
