import Decree.SchemaAdmin

/-!
# Runs over the Catalog

What an operation does to the tables is the same for all of them: it marks rows in place, and
adds at most one row to each table, but for the fields, which come in a batch. `Effect` says
so, with the constraints that the new rows have passed. Everything that holds of the tables
along a run is a consequence: rows stay and keep what they say (`Extends`), and identifiers,
version numbers and paths are unique (`WF`).

## Main results

* `CatalogOp.effect`: the effect of every operation.
* `reach_wf`: the constraints hold along every run.
* `reach_extends`: rows stay along every run.
-/

open Go Interleave List

namespace Decree

/-! ### What an operation marks and adds -/

variable {v : CatalogVersion} {s : CatalogSchema}

section Marks

/-- The row of a schema after an operation. -/
def CatalogOp.markSchema : CatalogOp → CatalogSchema → CatalogSchema
  | deleteSchemaTx id _ => fun s => if s.id = id then { s with deleted := true } else s
  | _ => fun s => s

def CatalogOp.markVersion : CatalogOp → CatalogVersion → CatalogVersion
  | publishSchemaTx schemaID version _ => fun v =>
    if v.schemaID = schemaID ∧ v.version = version then { v with published := true } else v
  | _ => fun v => v

/-- The row of a tenant after a statement. -/
def TenantStmt.mark (id : String) (stmt : TenantStmt) (tn : Tenant) : Tenant :=
  if tn.id = id && !tn.deleted then
    match stmt with
    | updateName name => { tn with name := name }
    | updateSchemaVersion version => { tn with schemaVersion := version }
    | get => tn
  else tn

def CatalogOp.markTenant : CatalogOp → Tenant → Tenant
  | updateTenantTx id stmts _ => fun tn => stmts.foldl (fun tn stmt => stmt.mark id tn) tn
  | deleteTenantTx id _ => fun tn => if tn.id = id then { tn with deleted := true } else tn
  | _ => fun tn => tn

variable (ids : DrawnIDs)

def CatalogOp.newSchema : CatalogOp → Option CatalogSchema
  | createSchema name | createSchemaTx name _ _ _ => some ⟨ids.schema, name, false⟩
  | _ => none

def CatalogOp.newVersion : CatalogOp → Option CatalogVersion
  | createSchemaVersion p | updateSchemaTx p _ _ => some ⟨p, ids.version, false⟩
  | createSchemaTx _ checksum _ _ =>
    some ⟨{ schemaID := ids.schema, version := 1, checksum := checksum }, ids.version, false⟩
  | _ => none

def CatalogOp.newFields : CatalogOp → List (String × SchemaField)
  | bulkCreateSchemaFields versionID fields => fields.map (versionID, ·)
  | createSchemaTx _ _ (.ok fields) _ | updateSchemaTx _ (.ok fields) _ =>
    fields.map (ids.version, ·)
  | _ => []

def CatalogOp.newTenant : CatalogOp → Option Tenant
  | createTenantTx name schemaID schemaVersion _ =>
    some ⟨ids.tenant, name, schemaID, schemaVersion, false⟩
  | _ => none

variable (o : CatalogOp)

@[simp] theorem CatalogOp.markSchema_id (s : CatalogSchema) : (o.markSchema s).id = s.id := by
  cases o <;> simp only [markSchema]
  split <;> rfl

@[simp] theorem CatalogOp.markVersion_params (v : CatalogVersion) :
    (o.markVersion v).toCreateSchemaVersionParams = v.toCreateSchemaVersionParams := by
  cases o <;> simp only [markVersion]
  split <;> rfl

@[simp] theorem CatalogOp.markVersion_id (v : CatalogVersion) : (o.markVersion v).id = v.id := by
  cases o <;> simp only [markVersion]
  split <;> rfl

/-- A published version stays published. -/
theorem CatalogOp.published_markVersion (h : v.published = true) :
    (o.markVersion v).published = true := by
  cases o <;> simp only [markVersion, h]
  split <;> simp [h]

/-- A statement keeps the tenant and its schema. -/
theorem TenantStmt.mark_keeps (id : String) (stmt : TenantStmt) (tn : Tenant) :
    (stmt.mark id tn).id = tn.id ∧ (stmt.mark id tn).schemaID = tn.schemaID ∧
      (stmt.mark id tn).deleted = tn.deleted := by
  by_cases h : (tn.id = id && !tn.deleted) = true
  · cases stmt <;> simp [mark, h]
  · simp [mark, h]

/-- So do several statements. -/
theorem TenantStmt.marks_keep (id : String) (stmts : List TenantStmt) (tn : Tenant) :
    (stmts.foldl (fun tn stmt => stmt.mark id tn) tn).id = tn.id ∧
      (stmts.foldl (fun tn stmt => stmt.mark id tn) tn).schemaID = tn.schemaID ∧
      (stmts.foldl (fun tn stmt => stmt.mark id tn) tn).deleted = tn.deleted := by
  induction stmts generalizing tn with
  | nil => exact ⟨rfl, rfl, rfl⟩
  | cons stmt stmts ih =>
    obtain ⟨h1, h2, h3⟩ := ih (stmt.mark id tn)
    obtain ⟨g1, g2, g3⟩ := stmt.mark_keeps id tn
    exact ⟨h1.trans g1, h2.trans g2, h3.trans g3⟩

/-- A tenant keeps its identifier and its schema, and stays deleted. -/
theorem CatalogOp.markTenant_keeps (tn : Tenant) :
    (o.markTenant tn).id = tn.id ∧ (o.markTenant tn).schemaID = tn.schemaID ∧
      (tn.deleted = true → (o.markTenant tn).deleted = true) := by
  cases o with
  | updateTenantTx id stmts actor =>
    obtain ⟨h1, h2, h3⟩ := TenantStmt.marks_keep id stmts tn
    exact ⟨h1, h2, fun h => h3.trans h⟩
  | deleteTenantTx id actor =>
    simp only [markTenant]
    split
    · exact ⟨rfl, rfl, fun _ => rfl⟩
    · exact ⟨rfl, rfl, fun h => h⟩
  | _ => exact ⟨rfl, rfl, fun h => h⟩

@[simp] theorem CatalogOp.markTenant_id (tn : Tenant) : (o.markTenant tn).id = tn.id :=
  (o.markTenant_keeps tn).1

end Marks

/-! ### The effect of an operation -/

/-- The **effect** of an operation that takes place: the rows that it marks, the rows that it
adds, and the constraints that those have passed. -/
structure CatalogOp.Effect (ids : DrawnIDs) (o : CatalogOp) (db db' : Catalog) : Prop where
  schemas : db'.schemas = db.schemas.map o.markSchema ++ (o.newSchema ids).toList
  versions : db'.versions = db.versions.map o.markVersion ++ (o.newVersion ids).toList
  fields : db'.fields = db.fields ++ o.newFields ids
  tenants : db'.tenants = db.tenants.map o.markTenant ++ (o.newTenant ids).toList
  numbered : ∀ v ∈ o.newVersion ids, db.schemaVersion v.schemaID v.version = none ∧
    v.schemaID ∈ db'.schemas.map CatalogSchema.id
  placed : ∀ p ∈ o.newFields ids, p.1 ∈ db'.versions.map CatalogVersion.id ∧
    ((db'.fieldsOf p.1).map SchemaField.path).Nodup
  bound : ∀ tn ∈ o.newTenant ids, tn.schemaID ∈ db.schemas.map CatalogSchema.id

/-- New rows go to their own versions. -/
theorem Catalog.fieldsOf_append (db : Catalog) (rows : List (String × SchemaField))
    (versionID : String) :
    ({ db with fields := db.fields ++ rows } : Catalog).fieldsOf versionID =
      db.fieldsOf versionID ++ (rows.filter fun p => p.1 = versionID).map Prod.snd := by
  simp [fieldsOf]

attribute [local simp] Function.comp_def

theorem filter_map_pair (versionID : String) (fields : List SchemaField) :
    ((fields.map (versionID, ·)).filter fun p => p.1 = versionID).map Prod.snd = fields := by
  simp [filter_map]

section Statements

variable {db db' : Catalog} {id name versionID schemaID : String} {v : CatalogVersion}
  {rows : List SchemaField} {tn : Tenant}

theorem Catalog.createSchema_eq_ok {id name : String} (h : db.createSchema id name = .ok (s, db')) :
    s = ⟨id, name, false⟩ ∧ db' = { db with schemas := db.schemas ++ [s] } := by
  rw [createSchema] at h
  split at h
  · cases h
  · cases h
    exact ⟨rfl, rfl⟩

theorem Catalog.createSchemaVersion_eq_ok {p : CreateSchemaVersionParams}
    (h : db.createSchemaVersion id p = .ok (v, db')) :
    v = ⟨p, id, false⟩ ∧ db' = { db with versions := db.versions ++ [v] } ∧
      db.schemaVersion p.schemaID p.version = none ∧
      p.schemaID ∈ db.schemas.map CatalogSchema.id := by
  rw [createSchemaVersion] at h
  split at h
  · cases h
  · rename_i hfree
    cases h
    rw [not_or, not_not, Bool.not_eq_true, Option.isSome_eq_false_iff,
      Option.isNone_iff_eq_none] at hfree
    exact ⟨rfl, rfl, hfree⟩

theorem Catalog.bulkCreateSchemaFields_eq_ok {fields : List SchemaField}
    (h : db.bulkCreateSchemaFields versionID fields = .ok (rows, db')) :
    rows = fields ∧ db' = { db with fields := db.fields ++ fields.map (versionID, ·) } ∧
      (fields ≠ [] → ((db.fieldsOf versionID ++ fields).map SchemaField.path).Nodup ∧
        versionID ∈ db.versions.map CatalogVersion.id) := by
  rw [bulkCreateSchemaFields] at h
  split at h
  · rename_i hnil
    cases h
    exact ⟨hnil.symm, by simp [hnil], fun hne => absurd hnil hne⟩
  · split at h
    · rename_i hok
      cases h
      exact ⟨rfl, rfl, fun _ => hok⟩
    · cases h

theorem Catalog.createFieldsOn_eq_ok {fields : Except Status (List SchemaField)}
    (h : db.createFieldsOn versionID fields = .ok (rows, db')) :
    fields = .ok rows ∧ db.bulkCreateSchemaFields versionID rows = .ok (rows, db') := by
  cases fields with
  | error s => cases h
  | ok fields =>
    rw [createFieldsOn, mapError_eq_ok] at h
    obtain ⟨rfl, -⟩ := bulkCreateSchemaFields_eq_ok h
    exact ⟨rfl, h⟩

theorem Catalog.publishSchemaVersion_eq_ok {version : ℤ}
    (h : db.publishSchemaVersion schemaID version = .ok (v, db')) :
    (∃ v0, db.schemaVersion schemaID version = some v0 ∧ v = { v0 with published := true }) ∧
      db' = { db with
        versions := db.versions.map
          (CatalogOp.publishSchemaTx schemaID version "").markVersion } := by
  rw [publishSchemaVersion] at h
  split at h
  · cases h
  · rename_i v0 hv0
    cases h
    exact ⟨⟨v0, hv0, rfl⟩, rfl⟩

theorem Catalog.createTenant_eq_ok {schemaVersion : ℤ}
    (h : db.createTenant id name schemaID schemaVersion = .ok (tn, db')) :
    tn = ⟨id, name, schemaID, schemaVersion, false⟩ ∧
      db' = { db with tenants := db.tenants ++ [tn] } ∧
      schemaID ∈ db.schemas.map CatalogSchema.id := by
  rw [createTenant] at h
  split at h
  · cases h
  · split at h
    · cases h
    · rename_i hs
      cases h
      exact ⟨rfl, rfl, not_not.mp hs⟩

theorem Catalog.tenantStmt_eq_ok {stmt : TenantStmt} (h : db.tenantStmt id stmt = .ok (tn, db')) :
    db' = { db with tenants := db.tenants.map (stmt.mark id) } := by
  rw [tenantStmt] at h
  split at h
  · cases h
  · cases stmt with
    | updateName name =>
      simp only at h
      split at h
      · cases h
      · exact (Prod.mk.inj (Except.ok.inj h)).2.symm
    | updateSchemaVersion version => exact (Prod.mk.inj (Except.ok.inj h)).2.symm
    | get =>
      have hmark : TenantStmt.mark id .get = fun tn => tn := by
        funext tn
        simp [TenantStmt.mark]
      rw [hmark, map_id']
      exact (Prod.mk.inj (Except.ok.inj h)).2.symm

theorem Catalog.tenantStmts_eq_ok {stmts : List TenantStmt} {tn0 : Tenant}
    (h : Catalog.tenantStmts id stmts tn0 db = .ok (tn, db')) :
    db' = { db with
      tenants := db.tenants.map fun tn => stmts.foldl (fun tn stmt => stmt.mark id tn) tn } := by
  induction stmts generalizing tn0 db with
  | nil =>
    cases h
    simp
  | cons stmt stmts ih =>
    rw [tenantStmts] at h
    split at h
    · split at h <;> cases h
    · rename_i tn1 db1 h1
      rw [ih h, tenantStmt_eq_ok h1]
      simp

end Statements

section Bodies

variable {ids : DrawnIDs} {db db' : Catalog} {o : CatalogOp}

/-- The effect of a version with its fields. -/
theorem effect_of_version {p : CreateSchemaVersionParams} {db1 : Catalog}
    {fields : Except Status (List SchemaField)} {rows : List SchemaField} {db2 : Catalog}
    (hv : db.createSchemaVersion ids.version p = .ok (v, db1))
    (hf : db1.createFieldsOn v.id fields = .ok (rows, db2))
    (hnew : o.newVersion ids = some ⟨p, ids.version, false⟩)
    (hnewf : o.newFields ids = rows.map (ids.version, ·)) :
    db2.versions = db.versions ++ (o.newVersion ids).toList ∧
      db2.fields = db.fields ++ o.newFields ids ∧ db2.schemas = db.schemas ∧
      db2.tenants = db.tenants ∧
      (∀ v ∈ o.newVersion ids, db.schemaVersion v.schemaID v.version = none ∧
        v.schemaID ∈ db.schemas.map CatalogSchema.id) ∧
      ∀ q ∈ o.newFields ids, q.1 ∈ db2.versions.map CatalogVersion.id ∧
        ((db2.fieldsOf q.1).map SchemaField.path).Nodup := by
  obtain ⟨rfl, rfl, hfree, hschema⟩ := Catalog.createSchemaVersion_eq_ok hv
  obtain ⟨rfl, hbulk⟩ := Catalog.createFieldsOn_eq_ok hf
  obtain ⟨-, rfl, hplaced⟩ := Catalog.bulkCreateSchemaFields_eq_ok hbulk
  refine ⟨by simp [hnew], by simp [hnewf], rfl, rfl, ?_, ?_⟩
  · intro v hv
    obtain rfl : _ = v := Option.some.inj (hnew.symm.trans hv)
    exact ⟨hfree, hschema⟩
  · intro q hq
    rw [hnewf] at hq
    obtain ⟨f, hf, rfl⟩ := mem_map.mp hq
    obtain ⟨hnodup, hmem⟩ := hplaced (ne_nil_of_mem hf)
    refine ⟨hmem, ?_⟩
    rw [Catalog.fieldsOf_append, filter_map_pair]
    exact hnodup

/-- A read changes nothing. -/
theorem CatalogOp.body_read {q : CatalogQuery} {a : q.Result}
    (h : (CatalogOp.read q).body ids db = .ok (a, db')) : q.eval db = .ok a ∧ db' = db := by
  simp only [body, mapError_eq_ok] at h
  cases hq : q.eval db with
  | error e => simp [hq, Except.map] at h
  | ok r =>
    rw [hq] at h
    cases h
    exact ⟨rfl, rfl⟩

attribute [local simp] CatalogOp.markSchema CatalogOp.markVersion CatalogOp.markTenant
  CatalogOp.newSchema CatalogOp.newVersion CatalogOp.newFields CatalogOp.newTenant
  Catalog.insertAudit

/-- **The effect of every operation.** -/
theorem CatalogOp.effect {a : o.Out} (h : o.body ids db = .ok (a, db')) : o.Effect ids db db' := by
  cases o with
  | read q =>
    obtain ⟨-, rfl⟩ := body_read h
    constructor <;> simp
  | createSchema name =>
    obtain ⟨rfl, rfl⟩ := Catalog.createSchema_eq_ok (mapError_eq_ok.mp h)
    constructor <;> simp
  | createSchemaVersion p =>
    obtain ⟨rfl, rfl, hfree, hschema⟩ := Catalog.createSchemaVersion_eq_ok (mapError_eq_ok.mp h)
    constructor <;> simp
    exact ⟨hfree, by simpa using hschema⟩
  | bulkCreateSchemaFields versionID fields =>
    obtain ⟨-, rfl, hplaced⟩ := Catalog.bulkCreateSchemaFields_eq_ok (mapError_eq_ok.mp h)
    refine ⟨by simp, by simp, rfl, by simp, by simp, ?_, by simp⟩
    intro q hq
    obtain ⟨f, hf, rfl⟩ := mem_map.mp hq
    obtain ⟨hnodup, hmem⟩ := hplaced (ne_nil_of_mem hf)
    refine ⟨hmem, ?_⟩
    rw [Catalog.fieldsOf_append, filter_map_pair]
    exact hnodup
  | createSchemaTx name checksum fields actor =>
    simp only [body, bind_eq_ok, mapError_eq_ok] at h
    obtain ⟨⟨s, db1⟩, h1, ⟨v, db2⟩, h2, ⟨rows, db3⟩, h3, h⟩ := h
    cases h
    obtain ⟨rfl, rfl⟩ := Catalog.createSchema_eq_ok h1
    obtain ⟨rfl, -⟩ := Catalog.createFieldsOn_eq_ok h3
    obtain ⟨hv, hf, hs, ht, hnum, hplaced⟩ :=
      effect_of_version (o := .createSchemaTx name checksum (.ok rows) actor) h2 h3 rfl rfl
    refine ⟨?_, ?_, hf, ?_, ?_, hplaced, by simp⟩
    · simp [hs]
    · simpa using hv
    · simp [ht]
    · intro v hv
      obtain ⟨hfree, hmem⟩ := hnum v hv
      exact ⟨hfree, by simpa [hs] using hmem⟩
  | updateSchemaTx p fields actor =>
    simp only [body, bind_eq_ok, mapError_eq_ok] at h
    obtain ⟨⟨v, db2⟩, h2, ⟨rows, db3⟩, h3, h⟩ := h
    cases h
    obtain ⟨rfl, -⟩ := Catalog.createFieldsOn_eq_ok h3
    obtain ⟨hv, hf, hs, ht, hnum, hplaced⟩ :=
      effect_of_version (o := .updateSchemaTx p (.ok rows) actor) h2 h3 rfl rfl
    refine ⟨?_, ?_, hf, ?_, ?_, hplaced, by simp⟩
    · simp [hs]
    · simpa using hv
    · simp [ht]
    · intro v hv
      obtain ⟨hfree, hmem⟩ := hnum v hv
      exact ⟨hfree, by simpa [hs] using hmem⟩
  | deleteSchemaTx id actor =>
    cases h
    constructor <;> simp [Catalog.softDeleteSchema]
  | publishSchemaTx schemaID version actor =>
    simp only [body, bind_eq_ok, mapError_eq_ok] at h
    obtain ⟨⟨v, db1⟩, h1, h⟩ := h
    cases h
    obtain ⟨-, rfl⟩ := Catalog.publishSchemaVersion_eq_ok h1
    constructor <;> simp
  | createTenantTx name schemaID schemaVersion actor =>
    simp only [body, bind_eq_ok, mapError_eq_ok] at h
    obtain ⟨⟨tn, db1⟩, h1, h⟩ := h
    cases h
    obtain ⟨rfl, rfl, hschema⟩ := Catalog.createTenant_eq_ok h1
    constructor <;> simp
    simpa using hschema
  | updateTenantTx id stmts actor =>
    simp only [body, bind_eq_ok] at h
    obtain ⟨⟨tn, db1⟩, h1, h⟩ := h
    cases h
    obtain rfl := Catalog.tenantStmts_eq_ok h1
    constructor <;> simp
  | deleteTenantTx id actor =>
    cases h
    constructor <;> simp [Catalog.softDeleteTenant]

end Bodies

variable {ch : CatalogChoice} {o : CatalogOp} {db db' : Catalog}

/-- **Inversion of an operation**: it fails and leaves the tables, or it has its effect, and its
answer may be lost. -/
theorem execCatalog_eq_some {t : ℕ} {r : o.Resp} (h : execCatalog ch t o db = some (r, db')) :
    ch.ids.Fresh db ∧
      ((∃ e, r = .error e ∧ db' = db ∧ (ch.outcome ≠ .fail → o.body ch.ids db = .error e)) ∨
        ∃ a, o.body ch.ids db = .ok (a, db') ∧
          (r = .ok a ∨ ch.outcome = .lost ∧ r = .error (.store .failed))) := by
  rw [execCatalog] at h
  split at h
  · rename_i hfresh
    refine ⟨hfresh, ?_⟩
    split at h
    · rename_i hfail
      cases h
      exact .inl ⟨_, rfl, rfl, fun hne => absurd hfail hne⟩
    · rename_i hbody _
      cases h
      exact .inl ⟨_, rfl, rfl, fun _ => hbody⟩
    · rename_i a db'' _ hbody
      cases h
      exact .inr ⟨a, hbody, .inl rfl⟩
    · rename_i a db'' hlost hbody
      cases h
      exact .inr ⟨a, hbody, .inr ⟨hlost, rfl⟩⟩
  · cases h

/-- A success is that of the body. -/
theorem body_of_ok {t : ℕ} {a : o.Out} (h : execCatalog ch t o db = some (.ok a, db')) :
    o.body ch.ids db = .ok (a, db') := by
  obtain ⟨-, ⟨e, he, -⟩ | ⟨a', hbody, ha | ⟨-, ha⟩⟩⟩ := execCatalog_eq_some h
  · cases he
  · rwa [Except.ok.inj ha]
  · cases ha

/-! ### Rows stay -/

/-- The tables **extend** others: their rows are there, the versions say what they said and
stay published, tenants keep their schema, and what is deleted stays deleted. -/
structure Catalog.Extends (db db' : Catalog) : Prop where
  schemas : ∀ s ∈ db.schemas, ∃ s' ∈ db'.schemas, s'.id = s.id
  versions : ∀ v ∈ db.versions, ∃ v' ∈ db'.versions, v'.id = v.id ∧
    v'.toCreateSchemaVersionParams = v.toCreateSchemaVersionParams ∧
    (v.published = true → v'.published = true)
  tenants : ∀ tn ∈ db.tenants, ∃ tn' ∈ db'.tenants, tn'.id = tn.id ∧
    tn'.schemaID = tn.schemaID ∧ (tn.deleted = true → tn'.deleted = true)

theorem Catalog.Extends.refl (db : Catalog) : db.Extends db :=
  ⟨fun s hs => ⟨s, hs, rfl⟩, fun v hv => ⟨v, hv, rfl, rfl, fun h => h⟩,
    fun tn htn => ⟨tn, htn, rfl, rfl, fun h => h⟩⟩

/-- Extensions compose. -/
theorem Catalog.Extends.trans {db1 db2 db3 : Catalog} (h : db1.Extends db2)
    (h' : db2.Extends db3) : db1.Extends db3 := by
  refine ⟨fun s hs => ?_, fun v hv => ?_, fun tn htn => ?_⟩
  · obtain ⟨s', hs', hid⟩ := h.schemas s hs
    obtain ⟨s'', hs'', hid'⟩ := h'.schemas s' hs'
    exact ⟨s'', hs'', hid'.trans hid⟩
  · obtain ⟨v', hv', hid, hp, hpub⟩ := h.versions v hv
    obtain ⟨v'', hv'', hid', hp', hpub'⟩ := h'.versions v' hv'
    exact ⟨v'', hv'', hid'.trans hid, hp'.trans hp, fun h => hpub' (hpub h)⟩
  · obtain ⟨tn', htn', hid, hs, hd⟩ := h.tenants tn htn
    obtain ⟨tn'', htn'', hid', hs', hd'⟩ := h'.tenants tn' htn'
    exact ⟨tn'', htn'', hid'.trans hid, hs'.trans hs, fun h => hd' (hd h)⟩

section Effects

variable {ids : DrawnIDs} {o : CatalogOp} {db db' : Catalog}

/-- An operation extends the catalog. -/
theorem CatalogOp.Effect.extends (h : o.Effect ids db db') : db.Extends db' := by
  refine ⟨fun s hs => ⟨o.markSchema s, ?_, o.markSchema_id s⟩,
    fun v hv => ⟨o.markVersion v, ?_, o.markVersion_id v, o.markVersion_params v,
      o.published_markVersion⟩,
    fun tn htn => ⟨o.markTenant tn, ?_, o.markTenant_keeps tn⟩⟩
  · rw [h.schemas]
    exact mem_append_left _ (mem_map_of_mem hs)
  · rw [h.versions]
    exact mem_append_left _ (mem_map_of_mem hv)
  · rw [h.tenants]
    exact mem_append_left _ (mem_map_of_mem htn)

/-- So it does when it fails. -/
theorem execCatalog_extends {ch : CatalogChoice} {t : ℕ} {r : o.Resp}
    (h : execCatalog ch t o db = some (r, db')) : db.Extends db' := by
  obtain ⟨-, ⟨e, -, rfl, -⟩ | ⟨a, hbody, -⟩⟩ := execCatalog_eq_some h
  · exact .refl _
  · exact (CatalogOp.effect hbody).extends

/-! ### The constraints of the tables -/

/-- The **constraints of the tables**: identifiers are unique, and so are the numbers of the
versions of a schema and the paths of the fields of a version; schemas are identified by
UUIDs, and fields belong to versions and versions to schemas. -/
structure Catalog.WF (db : Catalog) : Prop where
  schemaIDs : (db.schemas.map CatalogSchema.id).Nodup
  uuids : ∀ s ∈ db.schemas, isUUID s.id = true
  versionIDs : (db.versions.map CatalogVersion.id).Nodup
  numbers : (db.versions.map fun v => (v.schemaID, v.version)).Nodup
  tenantIDs : (db.tenants.map Tenant.id).Nodup
  placed : ∀ p ∈ db.fields, p.1 ∈ db.versions.map CatalogVersion.id
  paths : ∀ versionID, ((db.fieldsOf versionID).map SchemaField.path).Nodup
  parents : ∀ v ∈ db.versions, v.schemaID ∈ db.schemas.map CatalogSchema.id

/-- The empty catalog is well formed. -/
theorem Catalog.WF.empty : Catalog.WF {} := by
  constructor <;> simp [Catalog.fieldsOf]

/-- The identifiers of the schemas grow. -/
theorem CatalogOp.Effect.schemaIDs (h : o.Effect ids db db') : db'.schemas.map CatalogSchema.id =
      db.schemas.map CatalogSchema.id ++ (o.newSchema ids).toList.map CatalogSchema.id := by
  simp [h.schemas]

/-- The identifiers of the versions grow. -/
theorem CatalogOp.Effect.versionIDs (h : o.Effect ids db db') : db'.versions.map CatalogVersion.id =
      db.versions.map CatalogVersion.id ++ (o.newVersion ids).toList.map CatalogVersion.id := by
  simp [h.versions]

/-- The fields of a version grow. -/
theorem CatalogOp.Effect.fieldsOf (h : o.Effect ids db db') (versionID : String) :
    db'.fieldsOf versionID = db.fieldsOf versionID ++
      ((o.newFields ids).filter fun p => p.1 = versionID).map Prod.snd := by
  rw [Catalog.fieldsOf, h.fields, filter_append, map_append, Catalog.fieldsOf]

/-- A new schema has a drawn identifier. -/
theorem CatalogOp.newSchema_id (h : o.newSchema ids = some s) : s.id = ids.schema := by
  cases o <;> simp only [newSchema, Option.some.injEq, reduceCtorEq] at h
  all_goals exact h ▸ rfl

/-- A new version has a drawn identifier. -/
theorem CatalogOp.newVersion_id (h : o.newVersion ids = some v) : v.id = ids.version := by
  cases o <;> simp only [newVersion, Option.some.injEq, reduceCtorEq] at h
  all_goals exact h ▸ rfl

/-- A new tenant has a drawn identifier. -/
theorem CatalogOp.newTenant_id {tn : Tenant} (h : o.newTenant ids = some tn) :
    tn.id = ids.tenant := by
  cases o <;> simp only [newTenant, Option.some.injEq, reduceCtorEq] at h
  exact h ▸ rfl

theorem nodup_append_toList {α : Type} {l : List α} {x : Option α} (hl : l.Nodup)
    (hx : ∀ a ∈ x, a ∉ l) : (l ++ x.toList).Nodup := by
  cases x with
  | none => simpa using hl
  | some a => exact nodup_append.mpr ⟨hl, by simp, by
      intro b hb c hc
      obtain rfl := mem_singleton.mp hc
      exact fun h => hx c rfl (h ▸ hb)⟩

/-- **Every operation keeps the constraints.** -/
theorem CatalogOp.Effect.wf (h : o.Effect ids db db') (hfresh : ids.Fresh db) (hwf : db.WF) :
    db'.WF := by
  obtain ⟨⟨hsu, hs⟩, ⟨-, hv⟩, -, ht⟩ := hfresh
  refine ⟨?_, ?_, ?_, ?_, ?_, ?_, ?_, ?_⟩
  · rw [h.schemaIDs, ← Option.toList_map]
    refine nodup_append_toList hwf.schemaIDs fun i hi => ?_
    obtain ⟨s, hnew, rfl⟩ := Option.map_eq_some_iff.mp hi
    rwa [newSchema_id hnew]
  · intro s hmem
    rw [h.schemas, mem_append, mem_map, Option.mem_toList] at hmem
    rcases hmem with ⟨s0, hs0, rfl⟩ | hnew
    · rw [markSchema_id]
      exact hwf.uuids s0 hs0
    · rwa [newSchema_id hnew]
  · rw [h.versionIDs, ← Option.toList_map]
    refine nodup_append_toList hwf.versionIDs fun i hi => ?_
    obtain ⟨v, hnew, rfl⟩ := Option.map_eq_some_iff.mp hi
    rwa [newVersion_id hnew]
  · rw [h.versions, map_append, map_map, ← Option.toList_map]
    refine nodup_append_toList (by simpa using hwf.numbers) fun i hi => ?_
    obtain ⟨v, hnew, rfl⟩ := Option.map_eq_some_iff.mp hi
    intro hmem
    obtain ⟨v0, hv0, heq⟩ := mem_map.mp hmem
    simp only [Function.comp_apply, markVersion_params, Prod.mk.injEq] at heq
    have hfree := (h.numbered v hnew).1
    rw [Catalog.schemaVersion, find?_eq_none] at hfree
    exact hfree v0 hv0 (by simp [heq])
  · rw [h.tenants, map_append, map_map, ← Option.toList_map]
    refine nodup_append_toList (by simpa using hwf.tenantIDs) fun i hi => ?_
    obtain ⟨tn, hnew, rfl⟩ := Option.map_eq_some_iff.mp hi
    rw [newTenant_id hnew]
    simpa using ht
  · intro p hp
    rw [h.fields, mem_append] at hp
    rcases hp with hp | hp
    · rw [h.versionIDs]
      exact mem_append_left _ (hwf.placed p hp)
    · exact (h.placed p hp).1
  · intro versionID
    by_cases hnew : ∃ p ∈ o.newFields ids, p.1 = versionID
    · obtain ⟨p, hp, rfl⟩ := hnew
      exact (h.placed p hp).2
    · rw [h.fieldsOf, filter_eq_nil_iff.mpr (by
        intro p hp
        simpa using fun hid => hnew ⟨p, hp, hid⟩)]
      simpa using hwf.paths versionID
  · intro v hmem
    rw [h.versions, mem_append, mem_map, Option.mem_toList] at hmem
    rcases hmem with ⟨v0, hv0, rfl⟩ | hnew
    · rw [markVersion_params, h.schemaIDs]
      exact mem_append_left _ (hwf.parents v0 hv0)
    · exact (h.numbered v hnew).2

end Effects

/-- A version is found by its number. -/
theorem Catalog.WF.schemaVersion (hwf : db.WF) (hv : v ∈ db.versions) :
    db.schemaVersion v.schemaID v.version = some v := by
  cases hfind : db.schemaVersion v.schemaID v.version with
  | none => exact absurd (find?_eq_none.mp hfind v hv) (by simp)
  | some v' =>
    have hv' := mem_of_find?_eq_some hfind
    have hkey := find?_some hfind
    simp only [Bool.and_eq_true, decide_eq_true_eq] at hkey
    exact congrArg some (inj_on_of_nodup_map hwf.numbers hv' hv (Prod.ext hkey.1 hkey.2))

/-- A schema is found by its identifier. -/
theorem Catalog.WF.schemaByID (hwf : db.WF) (hs : s ∈ db.schemas) :
    db.schemaByID s.id = if s.deleted then none else some s := by
  cases hfind : db.schemaByID s.id with
  | none =>
    have := find?_eq_none.mp hfind s hs
    simp_all
  | some s' =>
    have hs' := mem_of_find?_eq_some hfind
    have hkey := find?_some hfind
    simp only [Bool.and_eq_true, decide_eq_true_eq] at hkey
    obtain rfl := inj_on_of_nodup_map hwf.schemaIDs hs' hs hkey.1
    simp_all

/-! ### Runs -/

namespace SchemaAdmin

variable {aenv : AdminEnv} {callers : Callers} {allowed : AdminConfig → ℕ → CatalogChoice → Prop}
  {c c₁ c₂ : AdminConfig}

/-- **Rows stay along every run.** -/
theorem reach_extends (hr : Reach execCatalog allowed c₁ c₂) : c₁.shared.Extends c₂.shared :=
  hr.climbs (fun db => .refl db) (fun _ _ _ h h' => h.trans h')
    fun _ _ _ _ _ _ h => execCatalog_extends h

/-- **What every effect keeps holds along every run.** -/
theorem catalog_invariant (P : Catalog → Prop) (hr : Reach execCatalog allowed c₁ c₂)
    (h0 : P c₁.shared) (hstep : ∀ {c t} {ch : CatalogChoice} {o k db},
      Reach execCatalog allowed c₁ c → (c.pool t).prog = .op o k → P c.shared →
      ch.ids.Fresh c.shared → o.Effect ch.ids c.shared db → P db) : P c₂.shared := by
  refine hr.invariant (fun c => P c.shared) h0 ?_
  rintro c c' t ch hr ih - hs
  obtain ⟨o, k, r, hp, hexec, -⟩ := step_eq_some hs
  obtain ⟨hfresh, ⟨e, -, heq, -⟩ | ⟨a, hbody, -⟩⟩ := execCatalog_eq_some hexec
  · rw [heq]
    exact ih
  · exact hstep hr hp ih hfresh (CatalogOp.effect hbody)

/-- **The constraints of the tables hold in every reachable state.** -/
theorem reach_wf (hr : Reach execCatalog allowed (start aenv callers) c) : c.shared.WF :=
  catalog_invariant Catalog.WF hr .empty fun _ _ hwf hfresh heff => heff.wf hfresh hwf

end SchemaAdmin

end Decree
