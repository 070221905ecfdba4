import Decree.CatalogRuns

/-!
# What the Schema Service has Read when it Writes

The control flow of the calls, read back from their histories: when a call is about to change
the tables, what it has done before is one of few lists of events, and determines the operation.
`Writes` lists them all. The import of a schema is the one call with several of them: the row of
the schema, the row of its version (`Versioning`), the rows of the fields, and the publication.

## Main results

* `reach_writes`: where a caller is that changes the tables.
* `reach_event_ok`: what a success says of the tables.
-/

open Go Interleave

namespace Decree.SchemaAdmin

abbrev AdminEvent := Event CatalogOp.Resp Catalog

/-- The operations that may change the tables. -/
def IsWrite : CatalogOp → Prop
  | .read _ => False
  | _ => True

instance (o : CatalogOp) : Decidable (IsWrite o) := by
  cases o <;> simp only [IsWrite] <;> infer_instance

/-! ### Steps of a program -/

section Steps

variable {α β : Type} {o : CatalogOp} {onError : StoreErr → Status} {h : List AdminEvent}
  {bad : CatalogOp → Prop} {o' : CatalogOp}

/-- An operation that succeeds is the only event. -/
theorem runs_perform {a : o.Out} (hrun : Runs (perform o onError).run h (.ok a)) :
    ∃ s, h = [⟨o, .ok a, s⟩] := by
  obtain ⟨r, s, rfl, hr⟩ := runs_request.mp hrun
  obtain rfl := mapError_eq_ok.mp hr
  exact ⟨s, rfl⟩

/-- A check that passes performs nothing. -/
theorem runs_checked {x : Except Status α} {a : α} (hrun : Runs (checked x).run h (.ok a)) :
    h = [] ∧ x = .ok a :=
  (runs_ret.mp hrun).imp_right mapError_eq_ok.mp

theorem avoids_perform (ho : ¬ bad o) : Avoids bad (perform o onError).run := ⟨ho, fun _ => trivial⟩

theorem avoids_checked (x : Except Status α) : Avoids bad (checked x).run := trivial

variable {k : o'.Resp → Prog CatalogOp.Resp (Except CatalogErr β)}

/-- A program at its first operation, or past it. -/
theorem after_perform_bind {g : o.Out → CatalogProc β}
    (ha : After (perform o onError >>= g).run h (.op o' k)) :
    (h = [] ∧ o' = o) ∨ ∃ a s h', h = ⟨o, .ok a, s⟩ :: h' ∧ After (g a).run h' (.op o' k) := by
  rcases after_bind_op ha with ⟨k', hp⟩ | ⟨e1, e2, a, rfl, hrun1, hrest⟩
  · rcases after_op.mp hp with ⟨rfl, heq⟩ | ⟨r, s, h', rfl, hret⟩
    · exact .inl ⟨rfl, (Prog.op.inj heq).1⟩
    · cases (after_ret.mp hret).2
  · obtain ⟨s, rfl⟩ := runs_perform hrun1
    exact .inr ⟨a, s, e2, rfl, hrest⟩

/-- A program at an operation has passed its check. -/
theorem after_checked_bind {x : Except Status α} {g : α → CatalogProc β}
    (ha : After (checked x >>= g).run h (.op o' k)) :
    ∃ a, x = .ok a ∧ After (g a).run h (.op o' k) := by
  rcases after_bind_op ha with ⟨k', hp⟩ | ⟨e1, e2, a, rfl, hrun, hrest⟩
  · cases (after_ret.mp hp).2
  · obtain ⟨rfl, hx⟩ := runs_checked hrun
    exact ⟨a, hx, hrest⟩

/-- A value performs nothing. -/
theorem not_after_pure {a : β} : ¬ After (pure a : CatalogProc β).run h (.op o' k) := fun ha =>
  absurd (after_ret.mp ha).2 (by simp)

/-- A call that is about to change the tables is past what only reads. -/
theorem past_reads {x : CatalogProc α} {f : α → CatalogProc β} (hx : Avoids IsWrite x.run)
    (ho : IsWrite o') (ha : After (x >>= f).run h (.op o' k)) :
    ∃ h1 h2 a, h = h1 ++ h2 ∧ Runs x.run h1 (.ok a) ∧ After (f a).run h2 (.op o' k) :=
  hx.after_bind_late (q := .op o' k) ho ha

/-- A program at a write is past its reads. -/
theorem after_read_bind {q : CatalogQuery} {g : q.Result → CatalogProc β} (ho : IsWrite o')
    (ha : After (perform (.read q) onError >>= g).run h (.op o' k)) :
    ∃ a s h', h = ⟨.read q, .ok a, s⟩ :: h' ∧ After (g a).run h' (.op o' k) := by
  rcases after_perform_bind ha with ⟨-, rfl⟩ | hrest
  · exact absurd ho id
  · exact hrest

end Steps

/-! ### Lookups -/

/-- A schema is looked up by an identifier, or else by a name. -/
def Resolved (idOrName : String) (schema : CatalogSchema) (e : AdminEvent) : Prop :=
  (isUUID idOrName = true ∧ ∃ s, e = ⟨.read (.schemaByID idOrName), .ok schema, s⟩) ∨
    (isUUID idOrName = false ∧ ∃ s, e = ⟨.read (.schemaByName idOrName), .ok schema, s⟩)

/-- A tenant is looked up by an identifier, or else by a name. -/
def ResolvedTenant (idOrName : String) (tn : Tenant) (e : AdminEvent) : Prop :=
  (isUUID idOrName = true ∧ ∃ s, e = ⟨.read (.tenantByID idOrName), .ok tn, s⟩) ∨
    (isUUID idOrName = false ∧ ∃ s, e = ⟨.read (.tenantByName idOrName), .ok tn, s⟩)

section Lookups

variable {h : List AdminEvent} {idOrName schemaID : String} {tn : Tenant}

theorem avoids_resolveSchema (idOrName failedMsg : String) :
    Avoids IsWrite (resolveSchema idOrName failedMsg).run := by
  rw [resolveSchema]
  split <;> exact avoids_perform id

/-- A schema that was resolved was read. -/
theorem runs_resolveSchema {failedMsg : String} {schema : CatalogSchema}
    (hrun : Runs (resolveSchema idOrName failedMsg).run h (.ok schema)) :
    ∃ e, h = [e] ∧ Resolved idOrName schema e := by
  rw [resolveSchema] at hrun
  split at hrun
  · rename_i hu
    obtain ⟨s, rfl⟩ := runs_perform hrun
    exact ⟨_, rfl, .inl ⟨hu, s, rfl⟩⟩
  · rename_i hu
    obtain ⟨s, rfl⟩ := runs_perform hrun
    exact ⟨_, rfl, .inr ⟨by simpa using hu, s, rfl⟩⟩

theorem avoids_lookupTenant (idOrName : String) :
    Avoids IsWrite (catalogReads.lookupTenant idOrName).run := by
  rw [TenantReads.lookupTenant]
  split <;> exact avoids_perform id

/-- A tenant that was looked up was read. -/
theorem runs_lookupTenant (hrun : Runs (catalogReads.lookupTenant idOrName).run h (.ok tn)) :
    ∃ e, h = [e] ∧ ResolvedTenant idOrName tn e := by
  rw [TenantReads.lookupTenant] at hrun
  split at hrun
  · rename_i hu
    obtain ⟨s, rfl⟩ := runs_perform hrun
    exact ⟨_, rfl, .inl ⟨hu, s, rfl⟩⟩
  · rename_i hu
    obtain ⟨s, rfl⟩ := runs_perform hrun
    exact ⟨_, rfl, .inr ⟨by simpa using hu, s, rfl⟩⟩

theorem avoids_resolveTenant (caller : Caller) (idOrName : String) :
    Avoids IsWrite (catalogReads.resolveTenant caller idOrName).run :=
  (avoids_checked _).bind_run fun _ => (avoids_lookupTenant _).bind_run fun _ =>
    (avoids_checked _).bind_run fun _ => trivial

/-- A tenant that was resolved was read. -/
theorem runs_resolveTenant {caller : Caller}
    (hrun : Runs (catalogReads.resolveTenant caller idOrName).run h (.ok tn)) :
    ∃ e, h = [e] ∧ ResolvedTenant idOrName tn e := by
  obtain ⟨h1, h2, ⟨⟩, rfl, hcheck, hrun1⟩ := runs_bind_ok hrun
  obtain ⟨h3, h4, tn', rfl, hlook, hrun2⟩ := runs_bind_ok hrun1
  obtain ⟨h5, h6, ⟨⟩, rfl, hguard, hrun3⟩ := runs_bind_ok hrun2
  obtain ⟨rfl, -⟩ := runs_checked hcheck
  obtain ⟨rfl, -⟩ := runs_checked hguard
  obtain ⟨rfl, htn⟩ := runs_ret.mp hrun3
  cases htn
  obtain ⟨e, rfl, he⟩ := runs_lookupTenant hlook
  exact ⟨e, rfl, he⟩

theorem avoids_publishedVersion (schemaID : String) (version : ℤ) :
    Avoids IsWrite (catalogReads.publishedVersion schemaID version).run :=
  (avoids_perform id).bind_run fun _ => (avoids_checked _).bind_run fun _ => trivial

/-- The version that was looked up is published. -/
theorem runs_publishedVersion {version : ℤ} {sv : CatalogVersion}
    (hrun : Runs (catalogReads.publishedVersion schemaID version).run h (.ok sv)) :
    sv.published = true ∧ ∃ s, h = [⟨.read (.schemaVersion schemaID version), .ok sv, s⟩] := by
  obtain ⟨h1, h2, sv', rfl, hread, hrun1⟩ := runs_bind_ok hrun
  obtain ⟨h3, h4, ⟨⟩, rfl, hcheck, hrun2⟩ := runs_bind_ok hrun1
  obtain ⟨s, rfl⟩ := runs_perform hread
  obtain ⟨rfl, hpub⟩ := runs_checked hcheck
  obtain ⟨rfl, hsv⟩ := runs_ret.mp hrun2
  cases hsv
  exact ⟨demand_eq_ok.mp hpub, s, rfl⟩

theorem avoids_checkVersion (schemaID : String) (version : Option ℤ) :
    Avoids IsWrite (catalogReads.checkVersion schemaID version).run := by
  cases version with
  | none => exact trivial
  | some version => exact (avoids_publishedVersion _ _).bind_run fun _ => trivial

/-- A version that was asked for is published. -/
theorem runs_checkVersion {version : Option ℤ}
    (hrun : Runs (catalogReads.checkVersion schemaID version).run h (.ok ())) :
    ∀ v ∈ version, ∃ sv s, sv.published = true ∧
      h = [⟨.read (.schemaVersion schemaID v), .ok sv, s⟩] := by
  rintro v rfl
  obtain ⟨h1, h2, sv, rfl, hsv, hrun1⟩ := runs_bind_ok hrun
  obtain ⟨hpub, s, rfl⟩ := runs_publishedVersion hsv
  obtain ⟨rfl, -⟩ := runs_ret.mp hrun1
  exact ⟨sv, s, hpub, rfl⟩

theorem avoids_prepareCreate (env : Env) (caller : Caller) (req : CreateTenantRequest) :
    Avoids IsWrite (catalogReads.prepareCreate env caller req).run := by
  refine (avoids_checked _).bind_run fun _ => (avoids_publishedVersion _ _).bind_run fun _ => ?_
  exact (avoids_perform id).bind_run fun _ => trivial

/-- A `CreateTenant` that has come to its transaction has read a published version and its
fields. -/
theorem runs_prepareCreate {env : Env} {caller : Caller} {req : CreateTenantRequest}
    {defaults : List ConfigValue}
    (hrun : Runs (catalogReads.prepareCreate env caller req).run h (.ok defaults)) :
    ∃ sv fields s₁ s₂, sv.published = true ∧
      h = [⟨.read (.schemaVersion req.schemaId req.schemaVersion), .ok sv, s₁⟩,
        ⟨.read (.schemaFields sv.id), .ok fields, s₂⟩] := by
  obtain ⟨h1, h2, ⟨⟩, rfl, hcheck, hrun1⟩ := runs_bind_ok hrun
  obtain ⟨h3, h4, sv, rfl, hsv, hrun2⟩ := runs_bind_ok hrun1
  obtain ⟨h5, h6, fields, rfl, hfields, hdefaults⟩ := runs_bind_ok hrun2
  obtain ⟨rfl, -⟩ := runs_checked hcheck
  obtain ⟨hpub, s₁, rfl⟩ := runs_publishedVersion hsv
  obtain ⟨s₂, rfl⟩ := runs_perform hfields
  obtain ⟨rfl, -⟩ := runs_checked hdefaults
  exact ⟨sv, fields, s₁, s₂, hpub, rfl⟩

theorem avoids_prepareUpdate (caller : Caller) (req : UpdateTenantRequest) :
    Avoids IsWrite (catalogReads.prepareUpdate caller req).run := by
  refine (avoids_checked _).bind_run fun _ => (avoids_resolveTenant _ _).bind_run fun _ => ?_
  refine (avoids_checked _).bind_run fun _ => (avoids_checkVersion _ _).bind_run fun _ => ?_
  exact (avoids_checked _).bind_run fun _ => trivial

/-- An `UpdateTenant` that has come to its transaction has resolved its tenant and, where it is
asked for a version, has read it as published. -/
theorem runs_prepareUpdate {caller : Caller} {req : UpdateTenantRequest}
    (hrun : Runs (catalogReads.prepareUpdate caller req).run h (.ok tn)) :
    ∃ e h', h = e :: h' ∧ ResolvedTenant req.id tn e ∧
      ∀ v ∈ req.schemaVersion, ∃ sv s, sv.published = true ∧
        h' = [⟨.read (.schemaVersion tn.schemaID v), .ok sv, s⟩] := by
  obtain ⟨h1, h2, ⟨⟩, rfl, hclaims, hrun1⟩ := runs_bind_ok hrun
  obtain ⟨h3, h4, tn', rfl, htn, hrun2⟩ := runs_bind_ok hrun1
  obtain ⟨h5, h6, ⟨⟩, rfl, hguard, hrun3⟩ := runs_bind_ok hrun2
  obtain ⟨h7, h8, ⟨⟩, rfl, hversion, hrun4⟩ := runs_bind_ok hrun3
  obtain ⟨h9, h10, ⟨⟩, rfl, hname, hrun5⟩ := runs_bind_ok hrun4
  obtain ⟨rfl, -⟩ := runs_checked hclaims
  obtain ⟨rfl, -⟩ := runs_checked hguard
  obtain ⟨rfl, -⟩ := runs_checked hname
  obtain ⟨rfl, htn'⟩ := runs_ret.mp hrun5
  cases htn'
  obtain ⟨e, rfl, he⟩ := runs_resolveTenant htn
  exact ⟨e, h7, by simp, he, runs_checkVersion hversion⟩

theorem avoids_lookupVersion (schemaID : String) (version : Option ℤ) :
    Avoids IsWrite (lookupVersion schemaID version).run := by
  cases version <;> exact avoids_perform id

theorem avoids_fillPage (schemas : List CatalogSchema) : Avoids IsWrite (fillPage schemas).run := by
  rw [fillPage]
  split
  · exact trivial
  · exact (avoids_perform id).bind_run fun _ => (avoids_perform id).bind_run fun _ => trivial

theorem avoids_lookupSchema (name : String) : Avoids IsWrite (lookupSchema name).run :=
  ⟨id, fun _ => trivial⟩

/-- The schema of a name, or none. -/
theorem runs_lookupSchema {name : String} {x : Option CatalogSchema}
    (hrun : Runs (lookupSchema name).run h (.ok x)) :
    ∃ s, (x = none ∧ h = [⟨.read (.schemaByName name), .error (.store .notFound), s⟩]) ∨
      ∃ schema, x = some schema ∧ h = [⟨.read (.schemaByName name), .ok schema, s⟩] := by
  obtain ⟨r, s, rfl, hr⟩ := runs_request.mp hrun
  refine ⟨s, ?_⟩
  split at hr
  · cases hr
    exact .inr ⟨_, rfl, rfl⟩
  · cases hr
    exact .inl ⟨rfl, rfl⟩
  · cases hr

end Lookups

/-! ### Positions -/

section Positions

variable (aenv : AdminEnv)

/-- The import of a document is about to create its version: of a schema that it has created,
or of one that it has found, whose latest version has another checksum. -/
inductive Versioning (doc : SchemaYAML) : List AdminEvent → CreateSchemaVersionParams → Prop
  | first (s₁ s₂ : Catalog) (schema : CatalogSchema) :
      Versioning doc
        [⟨.read (.schemaByName doc.name), .error (.store .notFound), s₁⟩,
          ⟨.createSchema doc.name, .ok schema, s₂⟩]
        (versionParams aenv doc schema.id 1 none)
  | next (s₁ s₂ : Catalog) (existing : CatalogSchema) (latest : CatalogVersion)
      (hne : latest.checksum ≠ computeChecksum aenv (importedFields doc)) :
      Versioning doc
        [⟨.read (.schemaByName doc.name), .ok existing, s₁⟩,
          ⟨.read (.latestSchemaVersion existing.id), .ok latest, s₂⟩]
        (versionParams aenv doc existing.id (wrap32 (latest.version + 1)) (some latest.version))

def storedFields (doc : SchemaYAML) : List SchemaField :=
  (importedFields doc).map PbSchemaField.stored

/-- The steps of `importDocument` behind the row of the version. -/
inductive Filling (doc : SchemaYAML) :
    List AdminEvent → CreateSchemaVersionParams → CatalogVersion → Prop
  | mk {h : List AdminEvent} {p : CreateSchemaVersionParams} (hv : Versioning aenv doc h p)
      (row : CatalogVersion) (s : Catalog)
      (hcheck : checkNewFields aenv.env aenv.senv (yamlToProtoFields doc) = .ok ()) :
      Filling doc (h ++ [⟨.createSchemaVersion p, .ok row, s⟩]) p row

/-- **The positions of a call that is about to change the tables**, with what it has done. -/
inductive Writes (caller : Caller) : AdminRequest → List AdminEvent → CatalogOp → Prop
  | createSchema (req : CreateSchemaRequest) :
      Writes caller (.createSchema req) []
        (.createSchemaTx req.name (computeChecksum aenv req.fields) (newFields aenv req.fields)
          (getActor caller))
  | updateSchema (req : UpdateSchemaRequest) {schema : CatalogSchema} {e : AdminEvent}
      (hres : Resolved req.id schema e) (latest : CatalogVersion) (existing : List SchemaField)
      (s₁ s₂ : Catalog) :
      Writes caller (.updateSchema req)
        [e, ⟨.read (.latestSchemaVersion schema.id), .ok latest, s₁⟩,
          ⟨.read (.schemaFields latest.id), .ok existing, s₂⟩]
        (.updateSchemaTx
          { schemaID := schema.id
            version := wrap32 (latest.version + 1)
            parentVersion := some latest.version
            checksum := computeChecksum aenv (mergeFields existing req) }
          (newFields aenv (mergeFields existing req)) (getActor caller))
  | deleteSchema (id : String) {schema : CatalogSchema} {e : AdminEvent}
      (hres : Resolved id schema e) :
      Writes caller (.deleteSchema id) [e] (.deleteSchemaTx schema.id (getActor caller))
  | publishSchema (req : PublishSchemaRequest) {schema : CatalogSchema} {e : AdminEvent}
      (hres : Resolved req.id schema e) :
      Writes caller (.publishSchema req) [e]
        (.publishSchemaTx schema.id req.version (getActor caller))
  | importSchema (req : ImportSchemaRequest) {doc : SchemaYAML}
      (hdoc : acceptSchema aenv.env aenv.senv caller req = .ok doc) (s : Catalog) :
      Writes caller (.importSchema req)
        [⟨.read (.schemaByName doc.name), .error (.store .notFound), s⟩] (.createSchema doc.name)
  | importVersion (req : ImportSchemaRequest) {doc : SchemaYAML}
      (hdoc : acceptSchema aenv.env aenv.senv caller req = .ok doc) {h : List AdminEvent}
      {p : CreateSchemaVersionParams} (hv : Versioning aenv doc h p) :
      Writes caller (.importSchema req) h (.createSchemaVersion p)
  | importFields (req : ImportSchemaRequest) {doc : SchemaYAML}
      (hdoc : acceptSchema aenv.env aenv.senv caller req = .ok doc) {h : List AdminEvent}
      {p : CreateSchemaVersionParams} {row : CatalogVersion} (hf : Filling aenv doc h p row) :
      Writes caller (.importSchema req) h (.bulkCreateSchemaFields row.id (storedFields doc))
  | importPublish (req : ImportSchemaRequest) {doc : SchemaYAML}
      (hdoc : acceptSchema aenv.env aenv.senv caller req = .ok doc) {h : List AdminEvent}
      {p : CreateSchemaVersionParams} {row : CatalogVersion} (hf : Filling aenv doc h p row)
      (rows : List SchemaField) (s : Catalog) {schema : CatalogSchema} {e : AdminEvent}
      (hres : Resolved p.schemaID schema e) :
      Writes caller (.importSchema req)
        (h ++ [⟨.bulkCreateSchemaFields row.id (storedFields doc), .ok rows, s⟩, e])
        (.publishSchemaTx schema.id row.version (getActor caller))
  | createTenant (req : CreateTenantRequest) {sv : CatalogVersion} (hpub : sv.published = true)
      (fields : List SchemaField) (s₁ s₂ : Catalog) :
      Writes caller (.createTenant req)
        [⟨.read (.schemaVersion req.schemaId req.schemaVersion), .ok sv, s₁⟩,
          ⟨.read (.schemaFields sv.id), .ok fields, s₂⟩]
        (.createTenantTx req.name req.schemaId req.schemaVersion (getActor caller))
  | updateTenant (req : UpdateTenantRequest) {tn : Tenant} {e : AdminEvent}
      (hres : ResolvedTenant req.id tn e) {h : List AdminEvent}
      (hv : ∀ v ∈ req.schemaVersion, ∃ sv s, sv.published = true ∧
        h = [⟨.read (.schemaVersion tn.schemaID v), .ok sv, s⟩]) :
      Writes caller (.updateTenant req) (e :: h) (.updateTenantTx tn.id req.stmts (getActor caller))
  | deleteTenant (id : String) {tn : Tenant} {e : AdminEvent} (hres : ResolvedTenant id tn e) :
      Writes caller (.deleteTenant id) [e] (.deleteTenantTx tn.id (getActor caller))

end Positions

section Calls

variable {aenv : AdminEnv} {caller : Caller} {h : List AdminEvent} {o : CatalogOp}
  {doc : SchemaYAML} {schema : CatalogSchema} {version : ℤ} {parent : Option ℤ}
  {reply : SchemaReply}

variable {k : o.Resp → Prog CatalogOp.Resp (Except CatalogErr SchemaReply)}

/-- The write of `PublishSchema`. -/
theorem publishSchema_writes {req : PublishSchemaRequest} (ho : IsWrite o)
    (ha : After (publishSchema caller req).run h (.op o k)) :
    ∃ schema e, h = [e] ∧ Resolved req.id schema e ∧
      o = .publishSchemaTx schema.id req.version (getActor caller) := by
  obtain ⟨⟨⟩, hcheck, ha1⟩ := after_checked_bind ha
  obtain ⟨h3, h4, schema, rfl, hres, ha2⟩ := past_reads (avoids_resolveSchema _ _) ho ha1
  obtain ⟨e, rfl, he⟩ := runs_resolveSchema hres
  rcases after_perform_bind ha2 with ⟨rfl, rfl⟩ | ⟨a, s, h', rfl, ha3⟩
  · exact ⟨schema, e, rfl, he, rfl⟩
  · exact absurd ha3 not_after_pure

/-- The two writes of a new version. -/
theorem importVersion_writes
    (ha : After (importVersion aenv doc schema version parent).run h (.op o k)) :
    (h = [] ∧ o = .createSchemaVersion (versionParams aenv doc schema.id version parent)) ∨
      ∃ row s, h = [⟨.createSchemaVersion (versionParams aenv doc schema.id version parent),
          .ok row, s⟩] ∧
        checkNewFields aenv.env aenv.senv (yamlToProtoFields doc) = .ok () ∧
        o = .bulkCreateSchemaFields row.id (storedFields doc) := by
  rcases after_perform_bind ha with ⟨rfl, rfl⟩ | ⟨row, s, h', rfl, ha1⟩
  · exact .inl ⟨rfl, rfl⟩
  · refine .inr ⟨row, s, ?_⟩
    rcases after_bind_op ha1 with ⟨k', ha2⟩ | ⟨h1, h2, rows, rfl, -, ha2⟩
    · obtain ⟨⟨⟩, hcheck, ha3⟩ := after_checked_bind ha2
      rcases after_op.mp ha3 with ⟨rfl, heq⟩ | ⟨r, s, h', rfl, hret⟩
      · exact ⟨rfl, hcheck, (Prog.op.inj heq).1⟩
      · cases (after_ret.mp hret).2
    · exact absurd ha2 not_after_pure

/-- A new version that was returned has been written. -/
theorem runs_importVersion
    (hrun : Runs (importVersion aenv doc schema version parent).run h (.ok reply)) :
    ∃ row rows s1 s2, reply = ⟨schema, row, rows⟩ ∧
      checkNewFields aenv.env aenv.senv (yamlToProtoFields doc) = .ok () ∧
      h = [⟨.createSchemaVersion (versionParams aenv doc schema.id version parent), .ok row, s1⟩,
        ⟨.bulkCreateSchemaFields row.id (storedFields doc), .ok rows, s2⟩] := by
  obtain ⟨h1, h2, row, rfl, hrow, hrun1⟩ := runs_bind_ok hrun
  obtain ⟨h3, h4, rows, rfl, hfields, hrun2⟩ := runs_bind_ok hrun1
  obtain ⟨h5, h6, ⟨⟩, rfl, hcheck, hbulk⟩ := runs_bind_ok hfields
  obtain ⟨s1, rfl⟩ := runs_perform hrow
  obtain ⟨rfl, hok⟩ := runs_checked hcheck
  obtain ⟨s2, rfl⟩ := runs_perform hbulk
  obtain ⟨rfl, hreply⟩ := runs_ret.mp hrun2
  exact ⟨row, rows, s1, s2, (Except.ok.inj hreply).symm, hok, rfl⟩

/-- The three writes of a document. -/
theorem importDocument_writes (ho : IsWrite o)
    (ha : After (importDocument aenv doc).run h (.op o k)) :
    (∃ s, h = [⟨.read (.schemaByName doc.name), .error (.store .notFound), s⟩] ∧
      o = .createSchema doc.name) ∨
    (∃ p, Versioning aenv doc h p ∧ o = .createSchemaVersion p) ∨
    ∃ p row, Filling aenv doc h p row ∧ o = .bulkCreateSchemaFields row.id (storedFields doc) := by
  obtain ⟨h1, h2, x, rfl, hlook, ha1⟩ := past_reads (avoids_lookupSchema _) ho ha
  obtain ⟨s1, ⟨rfl, rfl⟩ | ⟨existing, rfl, rfl⟩⟩ := runs_lookupSchema hlook
  · rcases after_perform_bind ha1 with ⟨rfl, rfl⟩ | ⟨schema, s2, h', rfl, ha2⟩
    · exact .inl ⟨s1, rfl, rfl⟩
    · have hv : Versioning aenv doc _ _ := .first s1 s2 schema
      rcases importVersion_writes ha2 with ⟨rfl, rfl⟩ | ⟨row, s, rfl, hcheck, rfl⟩
      · exact .inr (.inl ⟨_, hv, rfl⟩)
      · exact .inr (.inr ⟨_, row, .mk hv row s hcheck, rfl⟩)
  · rcases after_perform_bind ha1 with ⟨rfl, rfl⟩ | ⟨latest, s2, h', rfl, ha3⟩
    · exact absurd ho id
    · split at ha3
      · rcases after_perform_bind ha3 with ⟨rfl, rfl⟩ | ⟨fields, s3, h', rfl, ha4⟩
        · exact absurd ho id
        · cases (after_ret.mp ha4).2
      · rename_i hne
        have hv : Versioning aenv doc _ _ := .next s1 s2 existing latest hne
        rcases importVersion_writes ha3 with ⟨rfl, rfl⟩ | ⟨row, s, rfl, hcheck, rfl⟩
        · exact .inr (.inl ⟨_, hv, rfl⟩)
        · exact .inr (.inr ⟨_, row, .mk hv row s hcheck, rfl⟩)

/-- A document that was imported has been written. -/
theorem runs_importDocument (hrun : Runs (importDocument aenv doc).run h (.ok reply)) :
    ∃ h' p rows s, Filling aenv doc h' p reply.version ∧ p.schemaID = reply.schema.id ∧ h' ++
      [⟨.bulkCreateSchemaFields reply.version.id (storedFields doc), .ok rows, s⟩] = h := by
  obtain ⟨h1, h2, x, rfl, hlook, hrun1⟩ := runs_bind_ok hrun
  obtain ⟨s1, ⟨rfl, rfl⟩ | ⟨existing, rfl, rfl⟩⟩ := runs_lookupSchema hlook
  · obtain ⟨h3, h4, schema, rfl, hcreate, hrun2⟩ := runs_bind_ok hrun1
    obtain ⟨s2, rfl⟩ := runs_perform hcreate
    obtain ⟨row, rows, s3, s4, rfl, hcheck, rfl⟩ := runs_importVersion hrun2
    exact ⟨_, _, rows, s4, .mk (.first s1 s2 schema) row s3 hcheck, rfl, by simp⟩
  · obtain ⟨h3, h4, latest, rfl, hlatest, hrun3⟩ := runs_bind_ok hrun1
    obtain ⟨s2, rfl⟩ := runs_perform hlatest
    split at hrun3
    · obtain ⟨h5, h6, fields, rfl, -, hrun4⟩ := runs_bind_ok hrun3
      cases (runs_ret.mp hrun4).2
    · rename_i hne
      obtain ⟨row, rows, s3, s4, rfl, hcheck, rfl⟩ := runs_importVersion hrun3
      exact ⟨_, _, rows, s4, .mk (.next s1 s2 existing latest hne) row s3 hcheck, rfl, by simp⟩

variable {k : o.Resp → Prog CatalogOp.Resp (Except CatalogErr AdminReply)} (ho : IsWrite o)

include ho

/-- The writes of `ImportSchema`. -/
theorem importSchema_writes {req : ImportSchemaRequest}
    (ha : After (importSchema aenv caller req).run h (.op o k)) :
    Writes aenv caller (.importSchema req) h o := by
  obtain ⟨doc, hdoc, ha1⟩ := after_checked_bind ha
  rcases after_bind_op ha1 with ⟨k', ha2⟩ | ⟨h3, h4, reply, rfl, himport, ha2⟩
  · rcases importDocument_writes ho ha2 with ⟨s, rfl, rfl⟩ | ⟨p, hv, rfl⟩ | ⟨p, row, hf, rfl⟩
    · exact .importSchema req hdoc s
    · exact .importVersion req hdoc hv
    · exact .importFields req hdoc hf
  · obtain ⟨h', p, rows, s, hf, hid, rfl⟩ := runs_importDocument himport
    rcases after_bind_op ha2 with ⟨k', ha3⟩ | ⟨h5, h6, reply', rfl, -, ha3⟩
    · rw [autoPublish] at ha3
      split at ha3
      · obtain ⟨schema, e, rfl, hres, rfl⟩ := publishSchema_writes ho ha3
        rw [← hid] at hres
        simpa using Writes.importPublish req hdoc hf rows s hres
      · exact absurd ha3 not_after_pure
    · exact absurd ha3 not_after_pure

/-- The write of `UpdateSchema`. -/
theorem updateSchema_writes {req : UpdateSchemaRequest}
    (ha : After (updateSchema aenv caller req).run h (.op o k)) :
    Writes aenv caller (.updateSchema req) h o := by
  obtain ⟨⟨⟩, hcheck, ha1⟩ := after_checked_bind ha
  obtain ⟨h3, h4, schema, rfl, hres, ha2⟩ := past_reads (avoids_resolveSchema _ _) ho ha1
  obtain ⟨latest, s1, h5, rfl, ha3⟩ := after_read_bind ho ha2
  obtain ⟨existing, s2, h6, rfl, ha4⟩ := after_read_bind ho ha3
  obtain ⟨e, rfl, he⟩ := runs_resolveSchema hres
  rcases after_perform_bind ha4 with ⟨rfl, rfl⟩ | ⟨a, s, h', rfl, ha5⟩
  · exact .updateSchema req he latest existing s1 s2
  · exact absurd ha5 not_after_pure

/-- The write of `CreateTenant`. -/
theorem createTenant_writes {req : CreateTenantRequest}
    (ha : After (createTenant aenv caller req).run h (.op o k)) :
    Writes aenv caller (.createTenant req) h o := by
  obtain ⟨h3, h4, defaults, rfl, hprep, ha1⟩ := past_reads (avoids_prepareCreate _ _ _) ho ha
  obtain ⟨sv, fields, s1, s2, hpub, rfl⟩ := runs_prepareCreate hprep
  rcases after_perform_bind ha1 with ⟨rfl, rfl⟩ | ⟨a, s, h', rfl, ha2⟩
  · exact .createTenant req hpub fields s1 s2
  · exact absurd ha2 not_after_pure

/-- The write of `UpdateTenant`. -/
theorem updateTenant_writes {req : UpdateTenantRequest}
    (ha : After (updateTenant caller req).run h (.op o k)) :
    Writes aenv caller (.updateTenant req) h o := by
  obtain ⟨h1, h2, tn, rfl, hprep, ha1⟩ := past_reads (avoids_prepareUpdate _ _) ho ha
  obtain ⟨e, h3, rfl, he, hversion⟩ := runs_prepareUpdate hprep
  rcases after_bind_op ha1 with ⟨k', ha2⟩ | ⟨g1, g2, a, rfl, -, ha2⟩
  · rcases after_op.mp ha2 with ⟨rfl, heq⟩ | ⟨r, s, h', rfl, hret⟩
    · obtain rfl := (Prog.op.inj heq).1
      have hw : Writes aenv caller (.updateTenant req) (e :: h3) _ :=
        .updateTenant req he hversion
      simpa using hw
    · cases (after_ret.mp hret).2
  · exact absurd ha2 not_after_pure

/-- **A call that is about to change the tables is in one of these positions.** -/
theorem writes_of_after {req : AdminRequest}
    (ha : After (req.proc aenv caller).run h (.op o k)) : Writes aenv caller req h o := by
  cases req with
  | createSchema req =>
    obtain ⟨⟨⟩, hcheck, ha1⟩ := after_checked_bind ha
    rcases after_perform_bind ha1 with ⟨rfl, rfl⟩ | ⟨a, s, h', rfl, ha2⟩
    · exact .createSchema req
    · exact absurd ha2 not_after_pure
  | getSchema req =>
    have hread : Avoids IsWrite (getSchema caller req).run :=
      (avoids_checked _).bind_run fun _ => (avoids_checked _).bind_run fun _ =>
        (avoids_resolveSchema _ _).bind_run fun _ => (avoids_lookupVersion _ _).bind_run fun _ =>
          (avoids_perform id).bind_run fun _ => trivial
    exact absurd ho (hread.after ha).2.1
  | listSchemas req =>
    have hread : Avoids IsWrite (listSchemas caller req).run :=
      (avoids_checked _).bind_run fun _ => (avoids_checked _).bind_run fun _ =>
        (avoids_perform id).bind_run fun _ => (avoids_fillPage _).bind_run fun _ => trivial
    exact absurd ho (hread.after ha).2.1
  | updateSchema req => exact updateSchema_writes ho ha
  | deleteSchema id =>
    obtain ⟨⟨⟩, hcheck, ha3⟩ := after_checked_bind ha
    obtain ⟨h3, h4, schema, rfl, hres, ha4⟩ := past_reads (avoids_resolveSchema _ _) ho ha3
    obtain ⟨e, rfl, he⟩ := runs_resolveSchema hres
    rcases after_perform_bind ha4 with ⟨rfl, rfl⟩ | ⟨a, s, h', rfl, ha5⟩
    · exact .deleteSchema id he
    · exact absurd ha5 not_after_pure
  | publishSchema req =>
    rcases after_bind_op ha with ⟨k', ha6⟩ | ⟨h1, h2, a, rfl, -, ha6⟩
    · obtain ⟨schema, e, rfl, he, rfl⟩ := publishSchema_writes ho ha6
      exact .publishSchema req he
    · exact absurd ha6 not_after_pure
  | importSchema req => exact importSchema_writes ho ha
  | createTenant req => exact createTenant_writes ho ha
  | updateTenant req => exact updateTenant_writes ho ha
  | deleteTenant id =>
    obtain ⟨⟨⟩, hcheck, ha7⟩ := after_checked_bind ha
    obtain ⟨h3, h4, tn, rfl, htn, ha8⟩ := past_reads (avoids_resolveTenant _ _) ho ha7
    obtain ⟨⟨⟩, hguard, ha9⟩ := after_checked_bind ha8
    obtain ⟨e, rfl, he⟩ := runs_resolveTenant htn
    rcases after_perform_bind ha9 with ⟨rfl, rfl⟩ | ⟨a, s, h', rfl, ha10⟩
    · exact .deleteTenant id he
    · exact absurd ha10 not_after_pure

end Calls

/-! ### Runs -/

section Runs

variable {aenv : AdminEnv} {callers : Callers} {allowed : AdminConfig → ℕ → CatalogChoice → Prop}
  {c : AdminConfig} {t : ℕ} {o : CatalogOp} {s : Catalog}

/-- No call has begun at the start. -/
theorem start_hist (t : ℕ) : ((start aenv callers).pool t).hist = [] := by
  simp only [start]
  split <;> rfl

section

variable (hr : Reach execCatalog allowed (start aenv callers) c)

include hr

/-- A call is at some point of its program. -/
theorem reach_proc {caller : Caller} {req : AdminRequest} (ht : callers[t]? = some (caller, req)) :
    After (req.proc aenv caller).run (c.pool t).hist (c.pool t).prog := by
  obtain ⟨evs, hhist, hafter⟩ := hr.after t
  rw [start_hist, List.nil_append] at hhist
  rw [hhist]
  simpa only [start, ht] using hafter

/-- **A caller that is about to change the tables** is in one of the positions of its
request. -/
theorem reach_writes {k : o.Resp → Prog CatalogOp.Resp (Except CatalogErr AdminReply)}
    (hp : (c.pool t).prog = .op o k) (ho : IsWrite o) :
    ∃ caller req, callers[t]? = some (caller, req) ∧ Writes aenv caller req (c.pool t).hist o := by
  cases ht : callers[t]? with
  | none =>
    obtain ⟨evs, -, hafter⟩ := hr.after t
    simp only [start, ht, after_ret] at hafter
    cases (hp.symm.trans hafter.2)
  | some x =>
    obtain ⟨caller, req⟩ := x
    refine ⟨caller, req, rfl, writes_of_after ho (k := k) ?_⟩
    rw [← hp]
    exact reach_proc hr ht

/-- **What an operation that has succeeded says of the tables**: they were in order, it had
its effect, and the rows have stayed since. -/
theorem reach_event_ok {a : o.Out} (he : ⟨o, .ok a, s⟩ ∈ (c.pool t).hist) :
    s.WF ∧ ∃ ids db', ids.Fresh s ∧ o.body ids s = .ok (a, db') ∧ db'.Extends c.shared := by
  obtain ⟨h1, ch, c1, c2, hev⟩ := hr.event_of_mem (start_hist t) he
  have hwf := reach_wf hev.reach
  rw [hev.pre] at hwf
  exact ⟨hwf, ch.ids, c2.shared, (execCatalog_eq_some hev.answer).1, body_of_ok hev.answer,
    reach_extends hev.rest⟩

/-- A read that succeeded was of a state of the run. -/
theorem reach_read_ok {q : CatalogQuery}
    {r : q.Result} (he : ⟨.read q, .ok r, s⟩ ∈ (c.pool t).hist) :
    s.WF ∧ q.eval s = .ok r ∧ s.Extends c.shared := by
  obtain ⟨hwf, ids, db', -, hbody, hext⟩ := reach_event_ok hr he
  obtain ⟨hq, rfl⟩ := CatalogOp.body_read hbody
  exact ⟨hwf, hq, hext⟩

end

/-! ### Rows that a caller has created -/

/-- The rows that events have created: `f` is the identifier of the row, and `key` the list of
identifiers of its table. A row is created by an operation that succeeds, under an identifier
that was not there and then is. -/
structure Creates (f : AdminEvent → Option String) (key : Catalog → List String) : Prop where
  grows : ∀ {db db' : Catalog}, db.Extends db' → ∀ x ∈ key db, x ∈ key db'
  ok : ∀ {o : CatalogOp} {r : o.Resp} {s : Catalog} {x : String}, f ⟨o, r, s⟩ = some x →
    ∃ a, r = .ok a
  new : ∀ {ids : DrawnIDs} {o : CatalogOp} {a : o.Out} {db db' : Catalog} {x : String},
    ids.Fresh db → o.body ids db = .ok (a, db') → f ⟨o, .ok a, db⟩ = some x →
    x ∉ key db ∧ x ∈ key db'

variable {f : AdminEvent → Option String} {key : Catalog → List String} {e : AdminEvent}
  {x : String}

/-- What a call has created is in the catalog. -/
theorem Creates.listed (hf : Creates f key) (hr : Reach execCatalog allowed (start aenv callers) c)
    (he : e ∈ (c.pool t).hist) (hx : f e = some x) : x ∈ key c.shared := by
  obtain ⟨o, r, s⟩ := e
  obtain ⟨a, rfl⟩ := hf.ok hx
  obtain ⟨-, ids, db', hfresh, hbody, hext⟩ := reach_event_ok hr he
  exact hf.grows hext x (hf.new hfresh hbody hx).2

/-- A row that was there at some moment was created before it. -/
theorem Creates.early (hf : Creates f key) {c1 : AdminConfig} (hr : Reach execCatalog allowed c1 c)
    (hmem : x ∈ key c1.shared) : ∀ e ∈ (c.pool t).hist, f e = some x → e ∈ (c1.pool t).hist := by
  refine hr.invariant (fun c => ∀ e ∈ (c.pool t).hist, f e = some x → e ∈ (c1.pool t).hist)
    (fun e he _ => he) ?_
  rintro c c' u ch hr ih - hs e he hx
  obtain ⟨o, k, r, -, hexec, hpool⟩ := step_eq_some hs
  rcases (mem_hist_step hpool).mp he with he | ⟨rfl, rfl⟩
  · exact ih e he hx
  · obtain ⟨a, rfl⟩ := hf.ok hx
    exact absurd (hf.grows (reach_extends hr) x hmem)
      (hf.new (execCatalog_eq_some hexec).1 (body_of_ok hexec) hx).1

/-- **A row is created by one caller.** -/
theorem Creates.owner (hf : Creates f key) (hr : Reach execCatalog allowed (start aenv callers) c)
    {u : ℕ} {e' : AdminEvent} (he : e ∈ (c.pool t).hist) (he' : e' ∈ (c.pool u).hist)
    (hx : f e = some x) (hx' : f e' = some x) : t = u := by
  suffices h : ∀ t u, ∀ e ∈ (c.pool t).hist, ∀ e' ∈ (c.pool u).hist, f e = some x →
      f e' = some x → t = u from h t u e he e' he' hx hx'
  refine hr.invariant (fun c => ∀ t u, ∀ e ∈ (c.pool t).hist, ∀ e' ∈ (c.pool u).hist,
    f e = some x → f e' = some x → t = u) ?_ ?_
  · intro t u e he
    rw [start_hist] at he
    exact absurd he List.not_mem_nil
  rintro c c' w ch hr ih - hs t u e he e' he' hx hx'
  obtain ⟨o, k, r, -, hexec, hpool⟩ := step_eq_some hs
  -- the row of the step was not there before
  have hnew : f ⟨o, r, c.shared⟩ = some x → x ∉ key c.shared := by
    intro h
    obtain ⟨a, rfl⟩ := hf.ok h
    exact (hf.new (execCatalog_eq_some hexec).1 (body_of_ok hexec) h).1
  rcases (mem_hist_step hpool).mp he with he | ⟨rfl, rfl⟩ <;>
    rcases (mem_hist_step hpool).mp he' with he' | ⟨rfl, rfl⟩
  · exact ih t u e he e' he' hx hx'
  · exact absurd (hf.listed hr he hx) (hnew hx')
  · exact absurd (hf.listed hr he' hx') (hnew hx)
  · rfl

end Runs

end Decree.SchemaAdmin
