import Decree.SchemaMerge

/-!
# What a Failed Import Leaves, and What Others See of an Import

`ImportSchema` writes the row of a schema, the row of a version and its fields one after the
other, outside of any transaction, and checks the paths of the fields in between. So an import
that fails may leave what it has written, and others may see a version that has no fields yet.

Neither happens in the runs whose steps leave an import intact (`Intact`). There whoever has
written returns a version (`intact_noWrite`): the row of the version cannot collide, because nobody
else makes versions of a schema that has none (`reach_unversioned`), and its fields cannot, because
nobody else fills it.

## Main results

* `intact_unchanged`: a failed import changes nothing.
* `import_atomic`: when an import is atomic.
-/

open Go Interleave List

namespace Decree.SchemaAdmin

variable {o : CatalogOp}

/-! ### How an import fails -/

section Errors

variable {aenv : AdminEnv} {caller : Caller} {h : List AdminEvent} {err : CatalogErr}
  {doc : SchemaYAML}

/-- A failed operation. -/
theorem runs_perform_error {onError : StoreErr → Status}
    (hrun : Runs (perform o onError).run h (.error err)) : ∃ e s, h = [⟨o, .error e, s⟩] := by
  obtain ⟨r, s, rfl, hr⟩ := runs_request.mp hrun
  cases r with
  | ok a => cases hr
  | error e => exact ⟨e, s, rfl⟩

/-- A failed check has done nothing. -/
theorem runs_checked_error {α : Type} {x : Except Status α}
    (hrun : Runs (checked x).run h (.error err)) : h = [] ∧ ∀ a, x ≠ .ok a := by
  obtain ⟨rfl, hx⟩ := runs_ret.mp hrun
  refine ⟨rfl, ?_⟩
  rintro a rfl
  cases hx

def NoWrite (h : List AdminEvent) : Prop :=
  ∀ e ∈ h, IsWrite e.op → ∃ err, e.resp = .error err

/-- The import of a version fails at its row, at the check of the paths, or at its fields. -/
theorem importVersion_error {schema : CatalogSchema} {version : ℤ} {parent : Option ℤ}
    (hrun : Runs (importVersion aenv doc schema version parent).run h (.error err)) :
    (∃ e s, h = [⟨.createSchemaVersion (versionParams aenv doc schema.id version parent),
      .error e, s⟩]) ∨
    ∃ row s, (h = [⟨.createSchemaVersion (versionParams aenv doc schema.id version parent),
        .ok row, s⟩] ∧ checkNewFields aenv.env aenv.senv (yamlToProtoFields doc) ≠ .ok ()) ∨
      (checkNewFields aenv.env aenv.senv (yamlToProtoFields doc) = .ok () ∧
        ∃ e s', h = [⟨.createSchemaVersion (versionParams aenv doc schema.id version parent),
          .ok row, s⟩, ⟨.bulkCreateSchemaFields row.id (storedFields doc), .error e, s'⟩]) := by
  rcases runs_bind_error hrun with hrow | ⟨h₁, h₂, row, rfl, hrow, hrun1⟩
  · exact .inl (runs_perform_error hrow)
  · obtain ⟨s, rfl⟩ := runs_perform hrow
    refine .inr ⟨row, s, ?_⟩
    rcases runs_bind_error hrun1 with hfields | ⟨h3, h4, rows, rfl, -, hrun2⟩
    · rcases runs_bind_error hfields with hcheck | ⟨h3, h4, ⟨⟩, rfl, hcheck, hbulk⟩
      · obtain ⟨rfl, hne⟩ := runs_checked_error hcheck
        exact .inl ⟨rfl, hne ()⟩
      · obtain ⟨rfl, hok⟩ := runs_checked hcheck
        obtain ⟨e, s', rfl⟩ := runs_perform_error hbulk
        exact .inr ⟨hok, e, s', rfl⟩
    · cases (runs_ret.mp hrun2).2

/-- A publication fails at its checks, at the lookup of the schema, or at its transaction. -/
theorem publishSchema_error {req : PublishSchemaRequest}
    (hrun : Runs (publishSchema caller req).run h (.error err)) :
    (h = [] ∧ checkSchemaAction caller req.id ≠ .ok ()) ∨
    (isUUID req.id = true → ∃ e s, h = [⟨.read (.schemaByID req.id), .error e, s⟩]) ∨
    ∃ schema e0 e s, Resolved req.id schema e0 ∧
      h = [e0, ⟨.publishSchemaTx schema.id req.version (getActor caller), .error e, s⟩] := by
  rcases runs_bind_error hrun with hcheck | ⟨h₁, h₂, ⟨⟩, rfl, hcheck, hrun1⟩
  · obtain ⟨rfl, hne⟩ := runs_checked_error hcheck
    exact .inl ⟨rfl, hne ()⟩
  · obtain ⟨rfl, -⟩ := runs_checked hcheck
    refine .inr ?_
    rcases runs_bind_error hrun1 with hres | ⟨h3, h4, schema, rfl, hres, hrun2⟩
    · refine .inl fun hu => ?_
      rw [resolveSchema, if_pos hu] at hres
      exact runs_perform_error hres
    · obtain ⟨e0, rfl, he0⟩ := runs_resolveSchema hres
      rcases runs_bind_error hrun2 with htx | ⟨h5, h6, a, rfl, -, hrun3⟩
      · obtain ⟨e, s, rfl⟩ := runs_perform_error htx
        exact .inr ⟨schema, e0, e, s, he0, rfl⟩
      · cases (runs_ret.mp hrun3).2

/-- **How the import of a document fails**: before a write succeeds, at the row of the version
of a schema that it has created, at the check of the paths, or at the fields. -/
inductive ImportFails (aenv : AdminEnv) (doc : SchemaYAML) : List AdminEvent → Prop
  | clean {h : List AdminEvent} (hno : NoWrite h) : ImportFails aenv doc h
  | version {schema : CatalogSchema} (s₁ s₂ s : Catalog) (e : CatalogErr) :
      ImportFails aenv doc
        [⟨.read (.schemaByName doc.name), .error (.store .notFound), s₁⟩,
          ⟨.createSchema doc.name, .ok schema, s₂⟩,
          ⟨.createSchemaVersion (versionParams aenv doc schema.id 1 none), .error e, s⟩]
  | check {h : List AdminEvent} {p : CreateSchemaVersionParams} (hv : Versioning aenv doc h p)
      (row : CatalogVersion) (s : Catalog)
      (hne : checkNewFields aenv.env aenv.senv (yamlToProtoFields doc) ≠ .ok ()) :
      ImportFails aenv doc (h ++ [⟨.createSchemaVersion p, .ok row, s⟩])
  | fields {h : List AdminEvent} {p : CreateSchemaVersionParams} {row : CatalogVersion}
      (hf : Filling aenv doc h p row) (e : CatalogErr) (s : Catalog) :
      ImportFails aenv doc (h ++ [⟨.bulkCreateSchemaFields row.id (storedFields doc), .error e, s⟩])

/-- What a failed import has done. -/
theorem importDocument_error (hrun : Runs (importDocument aenv doc).run h (.error err)) :
    ImportFails aenv doc h := by
  rcases runs_bind_error hrun with hlook | ⟨h₁, h₂, x, rfl, hlook, hrun1⟩
  · obtain ⟨r, s, rfl, -⟩ := runs_request.mp hlook
    exact .clean (by simp [NoWrite, IsWrite])
  obtain ⟨s1, ⟨rfl, rfl⟩ | ⟨existing, rfl, rfl⟩⟩ := runs_lookupSchema hlook
  · rcases runs_bind_error hrun1 with hcreate | ⟨h3, h4, schema, rfl, hcreate, hrun2⟩
    · obtain ⟨e, s2, rfl⟩ := runs_perform_error hcreate
      exact .clean (by simp [NoWrite, IsWrite])
    · obtain ⟨s2, rfl⟩ := runs_perform hcreate
      have hv : Versioning aenv doc _ _ := .first s1 s2 schema
      rcases importVersion_error hrun2 with ⟨e, s, rfl⟩ | ⟨row, s, ⟨rfl, hne⟩ | ⟨hok, e, s', rfl⟩⟩
      · exact .version s1 s2 s e
      · exact .check hv row s hne
      · exact .fields (.mk hv row s hok) e s'
  · rcases runs_bind_error hrun1 with hlatest | ⟨h3, h4, latest, rfl, hlatest, hrun2⟩
    · obtain ⟨e, s2, rfl⟩ := runs_perform_error hlatest
      exact .clean (by simp [NoWrite, IsWrite])
    obtain ⟨s2, rfl⟩ := runs_perform hlatest
    split at hrun2
    · refine .clean ?_
      rcases runs_bind_error hrun2 with hfields | ⟨h5, h6, fields, rfl, hfields, hrun3⟩
      · obtain ⟨e, s3, rfl⟩ := runs_perform_error hfields
        simp [NoWrite, IsWrite]
      · obtain ⟨s3, rfl⟩ := runs_perform hfields
        obtain ⟨rfl, -⟩ := runs_ret.mp hrun3
        simp [NoWrite, IsWrite]
    · rename_i hne
      have hv : Versioning aenv doc _ _ := .next s1 s2 existing latest hne
      rcases importVersion_error hrun2 with ⟨e, s, rfl⟩ | ⟨row, s, ⟨rfl, hne⟩ | ⟨hok, e, s', rfl⟩⟩
      · exact .clean (by simp [NoWrite, IsWrite])
      · exact .check hv row s hne
      · exact .fields (.mk hv row s hok) e s'

/-- **How an import fails**: with its document, or at the publication. -/
theorem importSchema_error {req : ImportSchemaRequest}
    (hrun : Runs (importSchema aenv caller req).run h (.error err)) :
    h = [] ∨ ∃ doc, acceptSchema aenv.env aenv.senv caller req = .ok doc ∧
      (ImportFails aenv doc h ∨ ∃ h0 p row rows s h', Filling aenv doc h0 p row ∧
        h = h0 ++ ⟨.bulkCreateSchemaFields row.id (storedFields doc), .ok rows, s⟩ :: h' ∧
        Runs (publishSchema caller ⟨p.schemaID, row.version⟩).run h' (.error err)) := by
  rcases runs_bind_error hrun with hdoc | ⟨h₁, h₂, doc, rfl, hdoc, hrun1⟩
  · exact .inl (runs_checked_error hdoc).1
  · obtain ⟨rfl, hacc⟩ := runs_checked hdoc
    refine .inr ⟨doc, hacc, ?_⟩
    rcases runs_bind_error hrun1 with himport | ⟨h3, h4, reply, rfl, himport, hrun2⟩
    · exact .inl (importDocument_error himport)
    · obtain ⟨h0, p, rows, s, hf, hid, rfl⟩ := runs_importDocument himport
      rcases runs_bind_error hrun2 with hpub | ⟨h5, h6, reply', rfl, -, hrun3⟩
      · rw [autoPublish] at hpub
        split at hpub
        · rw [← hid] at hpub
          exact .inr ⟨h0, p, reply.version, rows, s, h4, hf, by simp, hpub⟩
        · cases (runs_ret.mp hpub).2
      · cases (runs_ret.mp hrun3).2

end Errors

/-! ### A schema without versions -/

def createdSchema : AdminEvent → Option String
  | ⟨.createSchema _, .ok s, _⟩ => some s.id
  | _ => none

/-- A schema is made with a fresh identifier. -/
theorem creates_createdSchema :
    Creates createdSchema fun db => db.schemas.map CatalogSchema.id where
  grows := by
    intro db db' hext x hx
    obtain ⟨s, hs, rfl⟩ := mem_map.mp hx
    obtain ⟨s', hs', hid⟩ := hext.schemas s hs
    exact hid ▸ mem_map_of_mem hs'
  ok := by
    intro o r s x hx
    cases r with
    | ok a => exact ⟨a, rfl⟩
    | error err => cases o <;> simp [createdSchema] at hx
  new := by
    intro ids o a db db' x hfresh hbody hx
    cases o with
    | createSchema name =>
      obtain ⟨rfl, rfl⟩ := Catalog.createSchema_eq_ok (mapError_eq_ok.mp hbody)
      cases hx
      exact ⟨hfresh.1.2, by simp⟩
    | _ => simp [createdSchema] at hx

section Runs

variable {aenv : AdminEnv} {callers : Callers} {allowed : AdminConfig → ℕ → CatalogChoice → Prop}
  {c : AdminConfig} {t : ℕ}

section

variable (hr : Reach execCatalog allowed (start aenv callers) c)

include hr

/-- A version that was read is there. -/
theorem versioned_of_read {schemaID : String} {latest : CatalogVersion} {s : Catalog}
    (he : ⟨.read (.latestSchemaVersion schemaID), .ok latest, s⟩ ∈ (c.pool t).hist) :
    ∃ v ∈ c.shared.versions, v.schemaID = schemaID := by
  obtain ⟨-, heval, hext⟩ := reach_read_ok hr he
  have hmem := argmax_mem (found_eq_ok.mp heval)
  obtain ⟨hmem, hid⟩ := mem_filter.mp hmem
  obtain ⟨v, hv, -, hp, -⟩ := hext.versions latest hmem
  exact ⟨v, hv, by rw [hp]; simpa using hid⟩

/-- **A schema that an import has created has no version** while the import has not made one:
everyone else makes versions of schemas that have one. -/
theorem reach_unversioned :
    ∀ t name schema s, ⟨.createSchema name, .ok schema, s⟩ ∈ (c.pool t).hist →
      (∀ e ∈ (c.pool t).hist, ¬ IsVersion e.op) →
      ∀ v ∈ c.shared.versions, v.schemaID ≠ schema.id := by
  refine hr.invariant (fun c => ∀ t name schema s,
    ⟨.createSchema name, .ok schema, s⟩ ∈ (c.pool t).hist →
      (∀ e ∈ (c.pool t).hist, ¬ IsVersion e.op) →
      ∀ v ∈ c.shared.versions, v.schemaID ≠ schema.id) (by simp [start]) ?_
  rintro c c' u ch hr ih - hs t name schema s he hno v hv hid
  obtain ⟨o, k, r, hp, hexec, hpool⟩ := step_eq_some hs
  have hno0 : ∀ e ∈ (c.pool t).hist, ¬ IsVersion e.op := fun e he =>
    hno e ((mem_hist_step hpool).mpr (.inl he))
  rcases (mem_hist_step hpool).mp he with he | ⟨rfl, heq⟩
  · obtain ⟨hfresh, ⟨err, -, heq, -⟩ | ⟨a, hbody, -⟩⟩ := execCatalog_eq_some hexec
    · rw [heq] at hv
      exact ih t name schema s he hno0 v hv hid
    rw [(CatalogOp.effect hbody).versions, mem_append, mem_map, Option.mem_toList] at hv
    rcases hv with ⟨v0, hv0, rfl⟩ | hnew
    · rw [CatalogOp.markVersion_params] at hid
      exact ih t name schema s he hno0 v0 hv0 hid
    · obtain ⟨caller, req, -, hw⟩ := reach_writes hr hp (by cases o <;> trivial)
      generalize hh : (c.pool u).hist = h at hw
      cases hw with
      | @importVersion req doc hdoc h p hvers =>
        cases hnew
        cases hvers with
        | first s1 s2 schema' =>
          have hmem : (⟨.createSchema doc.name, .ok schema', s2⟩ : AdminEvent) ∈
              (c.pool u).hist := by simp [hh]
          obtain rfl := creates_createdSchema.owner hr he hmem rfl (congrArg some hid)
          exact hno _ ((mem_hist_step hpool).mpr (.inr ⟨rfl, rfl⟩)) trivial
        | next s1 s2 existing latest hne =>
          have hread : (⟨.read (.latestSchemaVersion existing.id), .ok latest, s2⟩ :
              AdminEvent) ∈ (c.pool u).hist := by simp [hh]
          obtain ⟨v, hv, hv'⟩ := versioned_of_read hr hread
          exact ih t name schema s he hno0 v hv (hv'.trans hid)
      | @updateSchema req sch e hres latest existing s1 s2 =>
        cases hnew
        have hread : (⟨.read (.latestSchemaVersion sch.id), .ok latest, s1⟩ :
            AdminEvent) ∈ (c.pool u).hist := by simp [hh]
        obtain ⟨v, hv, hv'⟩ := versioned_of_read hr hread
        exact ih t name schema s he hno0 v hv (hv'.trans hid)
      | createSchema req =>
        cases hnew
        have hschema : ch.ids.schema = schema.id := hid
        exact hfresh.1.2 (hschema ▸ creates_createdSchema.listed hr he rfl)
      | _ => cases hnew
  · obtain ⟨rfl, hresp, -⟩ := Event.mk.inj heq
    obtain rfl := eq_of_heq hresp
    obtain ⟨rfl, hdb⟩ := Catalog.createSchema_eq_ok (mapError_eq_ok.mp (body_of_ok hexec))
    rw [hdb] at hv
    have hparent := (reach_wf hr).parents v hv
    rw [hid] at hparent
    exact (execCatalog_eq_some hexec).1.1.2 hparent

/-- An import makes one version. -/
theorem version_once {e e' : AdminEvent}
    (he : e ∈ (c.pool t).hist) (he' : e' ∈ (c.pool t).hist) (hv : IsVersion e.op)
    (hv' : IsVersion e'.op) : e = e' := by
  -- nothing before the statement of a version is one
  have hbefore : ∀ h₁ e h₂, (c.pool t).hist = h₁ ++ e :: h₂ → IsVersion e.op →
      ∀ e' ∈ h₁, ¬ IsVersion e'.op := by
    intro h₁ e h₂ hh hv
    obtain ⟨ch, c₁, c₂, hev⟩ := hr.event (start_hist t) hh
    obtain ⟨k, hp⟩ := hev.next
    obtain ⟨o, r, s⟩ := e
    cases o with
    | createSchemaVersion p =>
      obtain ⟨caller, req, -, hw⟩ := reach_writes hev.reach hp trivial
      rw [hev.hist] at hw
      cases hw with
      | importVersion req hdoc hvers => exact fun e' he' => (hvers.plain e' he').2
    | _ => exact absurd hv id
  obtain ⟨h₁, h₂, hh⟩ := append_of_mem he
  rw [hh] at he'
  rcases mem_append.mp he' with he' | he'
  · exact absurd hv' (hbefore h₁ e h₂ hh hv e' he')
  · rcases mem_cons.mp he' with rfl | he'
    · rfl
    · obtain ⟨h3, h4, rfl⟩ := append_of_mem he'
      refine absurd hv (hbefore (h₁ ++ e :: h3) e' h4 (by simp [hh]) hv' e ?_)
      simp

end

end Runs

/-! ### Imports that are left intact -/

section Intact

variable (aenv : AdminEnv) (callers : Callers)

def Wrote (h : List AdminEvent) : Prop :=
  ∃ e ∈ h, IsWrite e.op ∧ e.resp.toBool = true

/-- The document of the import passes the check of the paths, which comes after the first
writes. -/
def passesLate (caller : Caller) (req : ImportSchemaRequest) : Bool :=
  match acceptSchema aenv.env aenv.senv caller req with
  | .error _ => true
  | .ok doc => (checkNewFields aenv.env aenv.senv (yamlToProtoFields doc)).toBool

/-- The schema that is looked up by its identifier is live. -/
def findsSchema (db : Catalog) : CatalogOp → Bool
  | .read (.schemaByID id) => (db.schemaByID id).isSome
  | _ => true

/-- The import has made the row of this version and has yet to fill it. -/
def Unfilled (h : List AdminEvent) (versionID : String) : Prop :=
  (∃ e ∈ h, IsVersion e.op ∧ created e = some versionID) ∧ ∀ e ∈ h, ¬ IsFill e.op

/-- The versions whose fields an operation reads. -/
def observed (db : Catalog) : CatalogOp → List String
  | .read (.schemaFields versionID) => [versionID]
  | .read (.schemaFieldsByVersionIDs versionIDs) => versionIDs
  | .publishSchemaTx schemaID version _ =>
    ((db.schemaVersion schemaID version).map CatalogVersion.id).toList
  | _ => []

/-- The step of an import that writes has an answer, and a document that passes; behind the
first write nothing fails, and the schema is found. -/
def ImportProceeds (c : AdminConfig) (ch : CatalogChoice) (h : List AdminEvent) (caller : Caller)
    (req : ImportSchemaRequest) (o : CatalogOp) : Prop :=
  (IsWrite o → ch.outcome ≠ .lost ∧ passesLate aenv caller req = true) ∧
    (Wrote h → ch.outcome = .ok ∧ findsSchema c.shared o = true)

/-- The step **leaves imports intact**: it is one with which an import proceeds, or one of
another call; and the versions whose fields it reads are filled. -/
def Intact (c : AdminConfig) (t : ℕ) (ch : CatalogChoice) : Prop :=
  match (c.pool t).prog with
  | .ret _ => True
  | .op o _ =>
    (match callers[t]? with
      | some (caller, .importSchema req) =>
        ImportProceeds aenv c ch (c.pool t).hist caller req o
      | _ => True) ∧
    ∀ versionID ∈ observed c.shared o, ∀ u ∈ List.range callers.length,
      ¬ Unfilled (c.pool u).hist versionID

instance : Decidable (IsFill o) :=
  decidable_of_iff ((match o with
    | .bulkCreateSchemaFields _ _ => true
    | _ => false) = true) (by cases o <;> simp [IsFill])

instance : Decidable (IsVersion o) :=
  decidable_of_iff ((match o with
    | .createSchemaVersion _ => true
    | _ => false) = true) (by cases o <;> simp [IsVersion])

instance (h : List AdminEvent) : Decidable (Wrote h) :=
  inferInstanceAs (Decidable (∃ e ∈ h, _))

instance (h : List AdminEvent) (versionID : String) : Decidable (Unfilled h versionID) :=
  inferInstanceAs (Decidable ((∃ e ∈ h, _) ∧ ∀ e ∈ h, _))

instance (c : AdminConfig) (ch : CatalogChoice) (h : List AdminEvent) (caller : Caller)
    (req : ImportSchemaRequest) : Decidable (ImportProceeds aenv c ch h caller req o) :=
  instDecidableAnd

instance (c : AdminConfig) (t : ℕ) (ch : CatalogChoice) :
    Decidable (Intact aenv callers c t ch) := by
  unfold Intact
  rcases (c.pool t).prog with _ | ⟨o, k⟩
  · exact instDecidableTrue
  · refine @instDecidableAnd _ _ ?_ inferInstance
    split <;> infer_instance

end Intact

section Success

variable {aenv : AdminEnv} {callers : Callers} {allowed : AdminConfig → ℕ → CatalogChoice → Prop}
  {c : AdminConfig} {t : ℕ} {p : CreateSchemaVersionParams} {doc : SchemaYAML}

/-- What succeeds is answered. -/
theorem ok_of_body {ch : CatalogChoice} {r : o.Resp} {a : o.Out} {db db' db'' : Catalog}
    (h : execCatalog ch t o db = some (r, db')) (hok : ch.outcome = .ok)
    (hbody : o.body ch.ids db = .ok (a, db'')) : r = .ok a := by
  obtain ⟨-, ⟨e, -, -, he⟩ | ⟨a', ha', rfl | ⟨hlost, -⟩⟩⟩ := execCatalog_eq_some h
  · cases ((he (by simp [hok])).symm.trans hbody)
  · rw [(Prod.mk.inj (Except.ok.inj (ha'.symm.trans hbody))).1]
  · exact absurd hlost (by simp [hok])

section

variable (hr : Reach execCatalog allowed (start aenv callers) c)

include hr

/-- **The row of the first version** of a schema that the import has created can be added. -/
theorem createSchemaVersion_ok {name : String} {schema : CatalogSchema} {s : Catalog}
    (he : ⟨.createSchema name, .ok schema, s⟩ ∈ (c.pool t).hist)
    (hno : ∀ e ∈ (c.pool t).hist, ¬ IsVersion e.op) (hp : p.schemaID = schema.id) (ids : DrawnIDs) :
    ∃ x, (CatalogOp.createSchemaVersion p).body ids c.shared = .ok x := by
  have hfree : c.shared.schemaVersion p.schemaID p.version = none := by
    rw [Catalog.schemaVersion, find?_eq_none]
    intro v hv
    simp [hp, reach_unversioned hr t name schema s he hno v hv]
  have hmem : p.schemaID ∈ c.shared.schemas.map CatalogSchema.id := by
    rw [hp]
    exact creates_createdSchema.listed hr he rfl
  rw [CatalogOp.body, Catalog.createSchemaVersion, if_neg (by
    rw [hfree]
    exact not_or.mpr ⟨by simp, not_not.mpr hmem⟩)]
  exact ⟨_, rfl⟩

/-- **The fields of a version** that the import has created can be added. -/
theorem bulkCreateSchemaFields_ok
    {row : CatalogVersion} (hf : Filling aenv doc (c.pool t).hist p row) (ids : DrawnIDs) :
    ∃ x, (CatalogOp.bulkCreateSchemaFields row.id (storedFields doc)).body ids c.shared =
      .ok x := by
  obtain ⟨⟨s, hmem⟩, -⟩ := hf.created
  rw [CatalogOp.body, Catalog.bulkCreateSchemaFields]
  split
  · exact ⟨_, rfl⟩
  · rw [if_pos ⟨by
      rw [(reach_placement hr).waiting t p row s hmem hf.noFill]
      simpa [storedFields, Function.comp_def] using nodup_importedFields doc,
      creates_created.listed hr hmem rfl⟩]
    exact ⟨_, rfl⟩

/-- **The version that the import has created** can be published. -/
theorem publishSchemaTx_ok {doc : SchemaYAML} {h : List AdminEvent} {p : CreateSchemaVersionParams}
    {row : CatalogVersion} (hf : Filling aenv doc h p row) (hsub : ∀ e ∈ h, e ∈ (c.pool t).hist)
    (actor : String) (ids : DrawnIDs) :
    ∃ x, (CatalogOp.publishSchemaTx p.schemaID row.version actor).body ids c.shared = .ok x := by
  obtain ⟨hrow, -, v, hv, hparams, -⟩ := hf.row hr hsub
  have hfind := (reach_wf hr).schemaVersion hv
  rw [hparams] at hfind
  rw [CatalogOp.body, hrow, Catalog.publishSchemaVersion, hfind]
  exact ⟨_, rfl⟩

end

theorem checkSchemaAction_ok {caller : Caller} {req : ImportSchemaRequest}
    (hdoc : acceptSchema aenv.env aenv.senv caller req = .ok doc) {id : String}
    (hid : isUUID id = true) : checkSchemaAction caller id = .ok () := by
  simp only [acceptSchema, bind_eq_ok] at hdoc
  obtain ⟨⟨⟩, hclaims, ⟨⟩, hguard, -⟩ := hdoc
  have hne : id ≠ "" := by
    rintro rfl
    exact absurd hid (by decide)
  simp [checkSchemaAction, admitGlobal, hclaims, hguard, requireSchemaID, demand, hne, bind,
    Except.bind]

end Success

/-! ### The import as a whole -/

section Atomic

variable {aenv : AdminEnv} {callers : Callers} {c : AdminConfig} {t : ℕ} {caller : Caller}
  {req : ImportSchemaRequest} {h₁ h₂ : List AdminEvent} {e : AdminEvent} {err : CatalogErr}
  {s : Catalog} {doc : SchemaYAML} {p : CreateSchemaVersionParams} {row : CatalogVersion}
  {allowed : AdminConfig → ℕ → CatalogChoice → Prop} {c₁ c₂ : AdminConfig} {ch : CatalogChoice}

theorem Filling.wrote {h : List AdminEvent} (hf : Filling aenv doc h p row) : Wrote h := by
  obtain ⟨⟨s, hmem⟩, -⟩ := hf.created
  exact ⟨_, hmem, trivial, rfl⟩

theorem mem_hist_of_step (hs : step execCatalog c₁ t ch = some c₂)
    (hr : Reach execCatalog allowed c₂ c) :
    ∃ o r, execCatalog ch t o c₁.shared = some (r, c₂.shared) ∧
      (∃ k, (c₁.pool t).prog = .op o k) ∧ ⟨o, r, c₁.shared⟩ ∈ (c.pool t).hist := by
  obtain ⟨o, k, r, hp, hexec, hpool⟩ := step_eq_some hs
  obtain ⟨evs, hhist, -⟩ := hr.after t
  refine ⟨o, r, hexec, ⟨k, hp⟩, ?_⟩
  rw [hhist]
  exact mem_append_left _ ((mem_hist_step hpool).mpr (.inr ⟨rfl, rfl⟩))

section

variable (hr : Reach execCatalog (Intact aenv callers) (start aenv callers) c)
  (ht : callers[t]? = some (caller, .importSchema req))

include hr ht

/-- The step of an event. -/
theorem intact_event (hh : (c.pool t).hist = h₁ ++ e :: h₂) :
    ∃ ch c₁ c₂, EventStep execCatalog (Intact aenv callers) (start aenv callers) c t h₁ e ch c₁ c₂ ∧
      ImportProceeds aenv c₁ ch h₁ caller req e.op := by
  obtain ⟨ch, c₁, c₂, hev⟩ := hr.event (start_hist t) hh
  refine ⟨ch, c₁, c₂, hev, ?_⟩
  obtain ⟨k, hp⟩ := hev.next
  have hadm := hev.admitted
  rw [Intact, hp] at hadm
  simpa only [ht, hev.hist] using hadm.1

/-- Behind its first write, an operation of an import that can succeed does. -/
theorem intact_succeeds {o : CatalogOp}
    (hh : (c.pool t).hist = h₁ ++ ⟨o, .error err, s⟩ :: h₂) (hw : Wrote h₁)
    (hbody : ∀ c₁ ch, Reach execCatalog (Intact aenv callers) (start aenv callers) c₁ →
      (c₁.pool t).hist = h₁ → findsSchema c₁.shared o = true →
      ∃ x, o.body ch c₁.shared = .ok x) : False := by
  obtain ⟨ch, c₁, c₂, hev, hproceeds⟩ := intact_event hr ht hh
  obtain ⟨hok, hfinds⟩ := hproceeds.2 hw
  obtain ⟨⟨a, db⟩, hx⟩ := hbody c₁ ch.ids hev.reach hev.hist hfinds
  rw [hev.pre] at hx
  cases (ok_of_body hev.answer hok hx)

/-- **An import that has written does not fail**, when it is left intact: where it has returned
an error, no write of it has succeeded. -/
theorem intact_noWrite (hret : c.returned t = some (.error err)) : NoWrite (c.pool t).hist := by
  have hrun := reach_proc hr ht
  rw [Config.returned_eq_some.mp hret] at hrun
  generalize hh : (c.pool t).hist = h at hrun
  rcases importSchema_error hrun with rfl | ⟨doc, hdoc, hfails | hpublish⟩
  · simp [NoWrite]
  · cases hfails with
    | clean hno => exact hno
    | @version schema s1 s2 s e =>
      have hsplit : (c.pool t).hist = [_, _] ++ _ :: [] := hh
      refine (intact_succeeds hr ht hsplit ?_ ?_).elim
      · exact ⟨⟨.createSchema doc.name, .ok schema, s2⟩, by simp, trivial, rfl⟩
      · rintro c₁ ids hr1 hh1 -
        have hcreated : (⟨.createSchema doc.name, .ok schema, s2⟩ : AdminEvent) ∈
            (c₁.pool t).hist := by simp [hh1]
        exact createSchemaVersion_ok hr1 hcreated (by simp [hh1, IsVersion]) rfl ids
    | @check h p hv row s hne =>
      obtain ⟨ch, c₁, c₂, -, hproceeds⟩ := intact_event hr ht hh
      have hlate := (hproceeds.1 trivial).2
      refine absurd ?_ hne
      rcases hcheck : checkNewFields aenv.env aenv.senv (yamlToProtoFields doc) with e | ⟨⟩
      · simp [passesLate, hdoc, hcheck, Except.toBool] at hlate
      · rfl
    | @fields h p row hf e s =>
      refine (intact_succeeds hr ht hh hf.wrote ?_).elim
      rintro c₁ ids hr1 hh1 -
      exact bulkCreateSchemaFields_ok hr1 (t := t) (hh1 ▸ hf) ids
  · obtain ⟨h0, p, row, rows, s, h', hf, rfl, hpub⟩ := hpublish
    have hsub : ∀ e ∈ h0, e ∈ (c.pool t).hist := fun e he => by
      rw [hh]
      exact mem_append_left _ he
    obtain ⟨-, huuid, -⟩ := hf.row hr hsub
    have hwrote : ∀ h'', Wrote (h0 ++ h'') := by
      obtain ⟨e, he, hw⟩ := hf.wrote
      exact fun h'' => ⟨e, mem_append_left _ he, hw⟩
    rcases publishSchema_error hpub with ⟨-, hcheck⟩ | hres | ⟨schema, e0, e, s', hres, rfl⟩
    · exact absurd (checkSchemaAction_ok hdoc huuid) hcheck
    · obtain ⟨e, s', rfl⟩ := hres huuid
      rw [append_cons] at hh
      refine (intact_succeeds hr ht hh (hwrote _) ?_).elim
      rintro c₁ ids - - hfinds
      obtain ⟨x, hx⟩ := Option.isSome_iff_exists.mp hfinds
      exact ⟨(x, c₁.shared), by simp [CatalogOp.body, CatalogQuery.eval, hx, found,
        Except.map, Except.mapError]⟩
    · have hid : schema.id = p.schemaID := by
        rcases hres with ⟨-, s0, rfl⟩ | ⟨hu, -⟩
        · obtain ⟨-, heval, -⟩ := reach_read_ok hr (t := t) (q := .schemaByID p.schemaID)
            (r := schema) (s := s0) (by simp [hh])
          have hkey := find?_some (found_eq_ok.mp heval)
          simp only [Bool.and_eq_true, decide_eq_true_eq] at hkey
          exact hkey.1
        · exact absurd huuid (by simp [hu])
      rw [append_cons, append_cons, append_assoc h0] at hh
      refine (intact_succeeds hr ht hh (hwrote _) ?_).elim
      rintro c₁ ids hr1 hh1 -
      rw [hid]
      refine publishSchemaTx_ok hr1 (t := t) hf (fun e he => ?_) _ ids
      rw [hh1]
      simp [he]

/-- **An import that has returned an error has changed nothing**: none of its steps has. -/
theorem intact_unchanged (hret : c.returned t = some (.error err))
    (hadm : Intact aenv callers c₁ t ch) (hs : step execCatalog c₁ t ch = some c₂)
    (hr2 : Reach execCatalog (Intact aenv callers) c₂ c) : c₂.shared = c₁.shared := by
  obtain ⟨o, r, hexec, ⟨k, hp⟩, hmem⟩ := mem_hist_of_step hs hr2
  have hno := intact_noWrite hr ht hret _ hmem
  rw [Intact, hp] at hadm
  simp only [ht] at hadm
  obtain ⟨-, ⟨e, -, heq, -⟩ | ⟨a, hbody, hr | ⟨hlost, -⟩⟩⟩ := execCatalog_eq_some hexec
  · exact heq
  · cases o with
    | read q => exact (CatalogOp.body_read hbody).2
    | _ =>
      obtain ⟨e, he⟩ := hno trivial
      cases (hr.symm.trans he)
  · cases o with
    | read q => exact (CatalogOp.body_read hbody).2
    | _ => exact absurd hlost (hadm.1.1 trivial).1

end

/-! ### What others see of an import -/

def shown : AdminEvent → List (String × List SchemaField)
  | ⟨.read (.schemaFields versionID), .ok fields, _⟩ => [(versionID, fields)]
  | ⟨.read (.schemaFieldsByVersionIDs versionIDs), .ok rows, _⟩ =>
    versionIDs.map fun id => (id, (rows.filter fun p => p.1 = id).map Prod.snd)
  | ⟨.publishSchemaTx _ _ _, .ok (v, fields), _⟩ => [(v.id, fields)]
  | _ => []

theorem filter_flatMap_pair (f : String → List SchemaField) {x : String} :
    ∀ {l : List String}, l.Nodup → x ∈ l →
      ((l.flatMap fun y => (f y).map (y, ·)).filter fun p => p.1 = x).map Prod.snd = f x
  | y :: l, hnodup, hmem => by
      obtain ⟨hy, hl⟩ := nodup_cons.mp hnodup
      rw [flatMap_cons, filter_append, map_append]
      by_cases hx : y = x
      · subst hx
        have hrest : (l.flatMap fun z => (f z).map (z, ·)).filter (fun p => p.1 = y) = [] := by
          rw [filter_eq_nil_iff]
          rintro ⟨z, b⟩ hp
          obtain ⟨z', hz', hp⟩ := mem_flatMap.mp hp
          obtain ⟨b', -, heq⟩ := mem_map.mp hp
          obtain ⟨rfl, -⟩ := Prod.mk.inj heq
          simpa using fun h : z' = y => hy (h ▸ hz')
        rw [hrest, filter_map_pair, map_nil, append_nil]
      · have hfirst : ((f y).map (y, ·)).filter (fun p => p.1 = x) = [] := by
          rw [filter_eq_nil_iff]
          rintro ⟨z, b⟩ hp
          obtain ⟨b', -, heq⟩ := mem_map.mp hp
          cases heq
          simpa using hx
        rw [hfirst, map_nil, nil_append,
          filter_flatMap_pair f hl ((mem_cons.mp hmem).resolve_left fun h => hx h.symm)]

/-- An event shows the fields that a version has at its moment. -/
theorem shown_eq (hr : Reach execCatalog allowed (start aenv callers) c) (he : e ∈ (c.pool t).hist)
    {versionID : String} {fields : List SchemaField} (hs : (versionID, fields) ∈ shown e) :
    versionID ∈ observed e.pre e.op ∧ fields = e.pre.schemaFields versionID := by
  obtain ⟨o, r, s⟩ := e
  cases r with
  | error err => cases o with
    | read q => cases q <;> exact absurd hs not_mem_nil
    | _ => exact absurd hs not_mem_nil
  | ok a =>
    cases o with
    | read q =>
      obtain ⟨-, heval, -⟩ := reach_read_ok hr he
      cases q with
      | schemaFields id =>
        obtain ⟨rfl, rfl⟩ := Prod.mk.inj (mem_singleton.mp hs)
        exact ⟨mem_singleton.mpr rfl, (Except.ok.inj heval).symm⟩
      | schemaFieldsByVersionIDs ids =>
        obtain ⟨id, hid, heq⟩ := mem_map.mp hs
        cases heq
        refine ⟨hid, ?_⟩
        rw [← Except.ok.inj heval]
        exact filter_flatMap_pair _ (nodup_dedup ids) (mem_dedup.mpr hid)
      | _ => exact absurd hs not_mem_nil
    | publishSchemaTx schemaID version actor =>
      obtain ⟨rfl, rfl⟩ := Prod.mk.inj (mem_singleton.mp hs)
      obtain ⟨-, ids, db', -, hbody, -⟩ := reach_event_ok hr he
      simp only [CatalogOp.body, bind_eq_ok, mapError_eq_ok] at hbody
      obtain ⟨⟨v, db1⟩, hpub, hrest⟩ := hbody
      cases hrest
      obtain ⟨⟨v0, hv0, rfl⟩, rfl⟩ := Catalog.publishSchemaVersion_eq_ok hpub
      exact ⟨by simp [observed, hv0], rfl⟩
    | _ => exact absurd hs not_mem_nil

/-- **A version that an import has filled** has the fields of its document. -/
theorem intact_filled (hr : Reach execCatalog (Intact aenv callers) (start aenv callers) c)
    (ht : callers[t]? = some (caller, .importSchema req))
    (hdoc : acceptSchema aenv.env aenv.senv caller req = .ok doc)
    (he : ⟨.createSchemaVersion p, .ok row, s⟩ ∈ (c.pool t).hist) (hfill : e ∈ (c.pool t).hist)
    (hop : IsFill e.op) : c.shared.schemaFields row.id = storedFields doc := by
  obtain ⟨h₁, h₂, hh⟩ := append_of_mem hfill
  obtain ⟨ch, c₁, c₂, hev⟩ := hr.event (start_hist t) hh
  obtain ⟨k, hp⟩ := hev.next
  obtain ⟨o, r, s'⟩ := e
  cases o with
  | bulkCreateSchemaFields versionID fields =>
    obtain ⟨caller', req', ht', hw⟩ := reach_writes hev.reach hp trivial
    obtain ⟨rfl, rfl⟩ := answer_inj (ht.symm.trans ht')
    rw [hev.hist] at hw
    obtain ⟨ireq, doc', p', row', hreq, hdoc', hf, rfl, rfl⟩ := hw.fill
    cases hreq
    obtain rfl := Except.ok.inj (hdoc.symm.trans hdoc')
    obtain ⟨⟨s1, hmem⟩, -⟩ := hf.created
    -- the version that is filled is the one the import has made
    have hmade : (⟨.createSchemaVersion p', .ok row', s1⟩ : AdminEvent) ∈ (c.pool t).hist :=
      hh ▸ mem_append_left _ hmem
    obtain ⟨hp', hresp, -⟩ := Event.mk.inj (version_once hr he hmade trivial trivial)
    cases hp'
    obtain rfl := Except.ok.inj (eq_of_heq hresp)
    cases r with
    | error err =>
      refine (intact_succeeds hr ht hh hf.wrote fun c₁ ids hr1 hh1 _ => ?_).elim
      exact bulkCreateSchemaFields_ok hr1 (hh1 ▸ hf) ids
    | ok rows =>
      obtain ⟨rfl, -⟩ := Catalog.bulkCreateSchemaFields_eq_ok
        (mapError_eq_ok.mp (body_of_ok hev.answer))
      rw [Catalog.schemaFields, (reach_placement hr).filled t _ hfill _ _ rfl]
      refine List.Pairwise.insertionSort_eq ?_
      rw [storedFields, importedFields, map_map, pairwise_map]
      exact pairwise_insertionSort _ _
  | _ => exact absurd hop id

/-- An import that has made a version has an accepted document. -/
theorem exists_doc (hr : Reach execCatalog allowed (start aenv callers) c)
    (ht : callers[t]? = some (caller, .importSchema req)) {r : Except CatalogErr CatalogVersion}
    (he : ⟨.createSchemaVersion p, r, s⟩ ∈ (c.pool t).hist) :
    ∃ doc, acceptSchema aenv.env aenv.senv caller req = .ok doc := by
  obtain ⟨h₁, ch, c₁, c₂, hev⟩ := hr.event_of_mem (start_hist t) he
  obtain ⟨k, hp⟩ := hev.next
  obtain ⟨caller', req', ht', hw⟩ := reach_writes hev.reach hp trivial
  obtain ⟨rfl, rfl⟩ := answer_inj (ht.symm.trans ht')
  generalize (c₁.pool t).hist = h at hw
  cases hw with
  | importVersion req hdoc hv => exact ⟨_, hdoc⟩

/-- **Imports are atomic where they are left intact**: the steps of an import that has returned
an error have changed nothing; and whoever sees the fields of a version that an import has made
sees all fields of its document. -/
theorem import_atomic (hr : Reach execCatalog (Intact aenv callers) (start aenv callers) c)
    (ht : callers[t]? = some (caller, .importSchema req)) :
    (∀ err, c.returned t = some (.error err) → ∀ (c₁ c₂ : AdminConfig) (ch : CatalogChoice),
      Intact aenv callers c₁ t ch → step execCatalog c₁ t ch = some c₂ →
      Reach execCatalog (Intact aenv callers) c₂ c → c₂.shared = c₁.shared) ∧
    ∀ p row s, ⟨.createSchemaVersion p, .ok row, s⟩ ∈ (c.pool t).hist →
      ∃ doc, acceptSchema aenv.env aenv.senv caller req = .ok doc ∧
        ∀ u, ∀ e ∈ (c.pool u).hist, row.id ∈ e.pre.versions.map CatalogVersion.id →
          ∀ fields, (row.id, fields) ∈ shown e → fields = storedFields doc := by
  refine ⟨fun err hret c₁ c₂ ch hadm hs hr2 => intact_unchanged hr ht hret hadm hs hr2, ?_⟩
  intro p row s he
  obtain ⟨doc, hdoc⟩ := exists_doc hr ht he
  refine ⟨doc, hdoc, fun u e heu hmade fields hshown => ?_⟩
  obtain ⟨hobs, rfl⟩ := shown_eq hr heu hshown
  obtain ⟨h₁, ch, c₁, c₂, hev⟩ := hr.event_of_mem (start_hist u) heu
  -- the import had made the version before
  have hafter : Reach execCatalog (Intact aenv callers) c₁ c :=
    ((Reach.refl c₁).tail hev.admitted hev.stepped).trans hev.rest
  rw [← hev.pre] at hmade hobs ⊢
  have he1 := creates_created.early hafter hmade _ he rfl
  -- so it had filled it
  obtain ⟨k, hp⟩ := hev.next
  have hadm := hev.admitted
  rw [Intact, hp] at hadm
  have hlt : t < callers.length := (List.getElem?_eq_some_iff.mp ht).1
  have hfilled := hadm.2 row.id hobs t (mem_range.mpr hlt)
  rw [Unfilled, not_and] at hfilled
  obtain ⟨e', he', hfill⟩ : ∃ e' ∈ (c₁.pool t).hist, IsFill e'.op := by
    simpa using hfilled ⟨_, he1, trivial, rfl⟩
  exact intact_filled hev.reach ht hdoc he1 he' hfill

end Atomic

namespace Sample

def overlapping : SchemaYAML where
  specVersion := "v1"
  name := "limits"
  fields := [("a", { type := "integer" }), ("a.b", { type := "string" })]
  nodup := by simp
  nodup_triggers := by decide

def imports : Callers :=
  [(Decree.Sample.superadmin, .importSchema ⟨"", true⟩),
    (Decree.Sample.superadmin, .getSchema ⟨"limits", none⟩),
    (Decree.Sample.superadmin, .importSchema ⟨"", true⟩)]

def ruled : AdminEnv :=
  admin fun _ => .ok ruledDocument

def importSteps : List (ℕ × CatalogChoice) :=
  [(0, draw 0), (0, draw 0), (0, draw 1), (0, draw 2), (0, draw 2)] ++
    List.replicate 3 (1, draw 2) ++ List.replicate 3 (2, draw 2)

end Sample

open SchemaAdmin.Sample

theorem import_atomic_limits : ∃ c : AdminConfig, Reach execCatalog (Intact ruled imports)
        (start ruled imports) c ∧
      (∃ err, c.returned 2 = some (.error err)) ∧
      (∀ c₁ c₂ ch, Intact ruled imports c₁ 2 ch → step execCatalog c₁ 2 ch = some c₂ →
        Reach execCatalog (Intact ruled imports) c₂ c → c₂.shared = c₁.shared) ∧
      ∃ doc, acceptSchema ruled.env ruled.senv Decree.Sample.superadmin ⟨"", true⟩ = .ok doc ∧
        ∃ e ∈ (c.pool 1).hist, ∃ versionID, (versionID, storedFields doc) ∈ shown e := by
  obtain ⟨c, hr, hret, e, he, hop, e', he', hmade, hshown⟩ : ∃ c : AdminConfig,
      Reach execCatalog (Intact ruled imports) (start ruled imports) c ∧
      (c.returned 2).any (fun r => !r.toBool) = true ∧
      ∃ e ∈ (c.pool 0).hist, IsVersion e.op ∧ ∃ e' ∈ (c.pool 1).hist,
          (created e).any (fun id => id ∈ e'.pre.versions.map CatalogVersion.id) = true ∧
          ∃ q ∈ shown e', created e = some q.1 :=
    exists_reach_of_run importSteps (by decide +kernel)
  obtain ⟨err, herr⟩ : ∃ err, c.returned 2 = some (.error err) := by
    rcases hc : c.returned 2 with _ | err | reply
    · simp [hc] at hret
    · exact ⟨err, rfl⟩
    · simp [hc, Except.toBool] at hret
  refine ⟨c, hr, ⟨err, herr⟩, (import_atomic hr (t := 2) rfl).1 err herr, ?_⟩
  obtain ⟨⟨versionID, fields⟩, hq, hcreated⟩ := hshown
  obtain ⟨o, r, s⟩ := e
  cases o with
  | createSchemaVersion p =>
    cases r with
    | error err => cases hcreated
    | ok row =>
      cases hcreated
      obtain ⟨doc, hdoc, hseen⟩ := (import_atomic hr (t := 0) rfl).2 p row s he
      have hmem : row.id ∈ e'.pre.versions.map CatalogVersion.id := by
        simpa [created] using hmade
      obtain rfl := hseen 1 e' he' hmem fields hq
      exact ⟨doc, hdoc, e', he', row.id, hq⟩
  | _ => exact absurd hop id

/-- **An import that is torn**: one whose paths overlap returns an error and leaves the rows of
its schema and of its version; and a reader sees a version without its fields. -/
theorem import_torn : (∃ c : AdminConfig, Reach execCatalog anyStep
        (start (admin fun _ => .ok overlapping) imports) c ∧
      (c.returned 0).any (fun r => !r.toBool) = true ∧
      c.shared.schemas.length = 1 ∧ c.shared.versions.length = 1) ∧
    ∃ c : AdminConfig, Reach execCatalog anyStep (start ruled imports) c ∧
      ∃ v ∈ c.shared.versions, ∃ e ∈ (c.pool 1).hist, (v.id, []) ∈ shown e := by
  refine ⟨exists_reach_of_run [(0, draw 0), (0, draw 0), (0, draw 1)]
      (by decide +kernel), exists_reach_of_run [(0, draw 0), (0, draw 0),
      (0, draw 1), (1, draw 2), (1, draw 2), (1, draw 2)]
      (by decide +kernel)⟩

end Decree.SchemaAdmin
