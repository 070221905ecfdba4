import Decree.CatalogTraces

/-!
# Whose Fields a Version Has

The fields of a version come from the caller that has created its row, and from nobody else:
in the same transaction, or, for an import, with one statement after it. Until then the version
has no fields (`Placement.waiting`), and from then on it has those (`Placement.filled`). That
rests on the identifiers: the row of a version is created once, so it has one owner
(`Creates.owner`).

## Main results

* `reach_versions`: what holds of every version and its fields.
-/

open Go Interleave List

namespace Decree.SchemaAdmin

/-! ### Events that create and fill -/

def created : AdminEvent → Option String
  | ⟨.createSchemaVersion _, .ok v, _⟩ => some v.id
  | ⟨.createSchemaTx _ _ _ _, .ok (_, v, _), _⟩ => some v.id
  | ⟨.updateSchemaTx _ _ _, .ok (v, _), _⟩ => some v.id
  | _ => none

def filled : AdminEvent → Option (String × List SchemaField)
  | ⟨.bulkCreateSchemaFields versionID _, .ok rows, _⟩ => some (versionID, rows)
  | ⟨.createSchemaTx _ _ _ _, .ok (_, v, rows), _⟩ => some (v.id, rows)
  | ⟨.updateSchemaTx _ _ _, .ok (v, rows), _⟩ => some (v.id, rows)
  | _ => none

/-- The statement that fills a version outside of a transaction. -/
def IsFill : CatalogOp → Prop
  | .bulkCreateSchemaFields _ _ => True
  | _ => False

/-- The statement that creates a version outside of a transaction. -/
def IsVersion : CatalogOp → Prop
  | .createSchemaVersion _ => True
  | _ => False

section Import

variable {aenv : AdminEnv} {doc : SchemaYAML} {h : List AdminEvent} {p : CreateSchemaVersionParams}
  {caller : Caller}

/-- No version has been made yet. -/
theorem Versioning.plain (hv : Versioning aenv doc h p) :
    ∀ e ∈ h, ¬ IsFill e.op ∧ ¬ IsVersion e.op := by
  cases hv <;> simp [IsFill, IsVersion]

theorem Versioning.checksum (hv : Versioning aenv doc h p) :
    p.checksum = computeChecksum aenv (importedFields doc) := by
  cases hv <;> rfl

/-- The version has been made. -/
theorem Filling.created {p : CreateSchemaVersionParams} {row : CatalogVersion}
    (hf : Filling aenv doc h p row) :
    (∃ s, ⟨.createSchemaVersion p, .ok row, s⟩ ∈ h) ∧
      p.checksum = computeChecksum aenv (importedFields doc) := by
  cases hf with
  | mk hv _ s _ => exact ⟨⟨s, by simp⟩, hv.checksum⟩

/-- And its fields not yet. -/
theorem Filling.noFill {row : CatalogVersion} (hf : Filling aenv doc h p row) :
    ∀ e ∈ h, ¬ IsFill e.op := by
  cases hf with
  | mk hv _ s _ =>
    intro e he
    rcases mem_append.mp he with he | he
    · exact (hv.plain e he).1
    · obtain rfl := mem_singleton.mp he
      exact id

/-- The paths are distinct. -/
theorem nodup_importedFields (doc : SchemaYAML) :
    ((importedFields doc).map PbSchemaField.path).Nodup := by
  simpa [importedFields, Function.comp_def] using nodup_yamlToProtoFields doc

/-- The statement that fills a version comes after the one that created it, in the same
import. -/
theorem Writes.fill {req : AdminRequest} {versionID : String} {fields : List SchemaField}
    (hw : Writes aenv caller req h (.bulkCreateSchemaFields versionID fields)) :
    ∃ ireq doc p row, req = .importSchema ireq ∧
      acceptSchema aenv.env aenv.senv caller ireq = .ok doc ∧ Filling aenv doc h p row ∧
      versionID = row.id ∧ fields = storedFields doc := by
  cases hw with
  | importFields ireq hdoc hf => exact ⟨ireq, _, _, _, rfl, hdoc, hf, rfl, rfl⟩

end Import

variable {ids : DrawnIDs} {o : CatalogOp}

/-- Fields are added to the version that a statement names, or to a new one. -/
theorem newFields_key {p : String × SchemaField} (hp : p ∈ o.newFields ids) :
    (∃ fields, o = .bulkCreateSchemaFields p.1 fields) ∨ p.1 = ids.version := by
  cases o with
  | bulkCreateSchemaFields versionID fields =>
    obtain ⟨f, -, rfl⟩ := mem_map.mp hp
    exact .inl ⟨fields, rfl⟩
  | createSchemaTx name checksum fields actor | updateSchemaTx params fields actor =>
    cases fields with
    | error s => exact absurd hp not_mem_nil
    | ok fields =>
      obtain ⟨f, -, rfl⟩ := mem_map.mp hp
      exact .inr rfl
  | _ => exact absurd hp not_mem_nil

variable {db db' : Catalog} {versionID : String}

/-- The fields of a version change only by the statement that fills it, or with its row. -/
theorem fieldsOf_effect {ids : DrawnIDs} {o : CatalogOp} {db db' : Catalog}
    (h : o.Effect ids db db') {versionID : String}
    (hfill : ∀ fields, o ≠ .bulkCreateSchemaFields versionID fields)
    (hid : versionID ≠ ids.version) : db'.fieldsOf versionID = db.fieldsOf versionID := by
  rw [h.fieldsOf, filter_eq_nil_iff.mpr, map_nil, append_nil]
  intro p hp
  simp only [decide_eq_true_eq]
  rintro rfl
  rcases newFields_key hp with ⟨fields, ho⟩ | hnew
  · exact hfill fields ho
  · exact hid hnew

/-- No version, no fields. -/
theorem fieldsOf_eq_nil (hwf : db.WF) (h : versionID ∉ db.versions.map CatalogVersion.id) :
    db.fieldsOf versionID = [] := by
  rw [Catalog.fieldsOf, map_eq_nil_iff, filter_eq_nil_iff]
  intro p hp
  simp only [decide_eq_true_eq]
  rintro rfl
  exact h (hwf.placed p hp)

/-- What makes a version. -/
theorem created_effect {a : o.Out} {s : Catalog} (h : o.body ids db = .ok (a, db'))
    (hc : created ⟨o, .ok a, s⟩ = some versionID) :
    versionID = ids.version ∧ versionID ∈ db'.versions.map CatalogVersion.id := by
  have hnew : ∃ v, o.newVersion ids = some v ∧ versionID = v.id := by
    cases o with
    | createSchemaVersion p =>
      obtain ⟨rfl, -⟩ := Catalog.createSchemaVersion_eq_ok (mapError_eq_ok.mp h)
      exact ⟨_, rfl, (Option.some.inj hc).symm⟩
    | createSchemaTx name checksum fields actor =>
      simp only [CatalogOp.body, bind_eq_ok, mapError_eq_ok] at h
      obtain ⟨⟨sc, db1⟩, h1, ⟨v, db2⟩, h2, ⟨rows, db3⟩, h3, h⟩ := h
      cases h
      obtain ⟨rfl, -⟩ := Catalog.createSchemaVersion_eq_ok h2
      exact ⟨_, rfl, (Option.some.inj hc).symm⟩
    | updateSchemaTx p fields actor =>
      simp only [CatalogOp.body, bind_eq_ok, mapError_eq_ok] at h
      obtain ⟨⟨v, db2⟩, h2, ⟨rows, db3⟩, h3, h⟩ := h
      cases h
      obtain ⟨rfl, -⟩ := Catalog.createSchemaVersion_eq_ok h2
      exact ⟨_, rfl, (Option.some.inj hc).symm⟩
    | _ => simp [created] at hc
  obtain ⟨v, hv, rfl⟩ := hnew
  refine ⟨CatalogOp.newVersion_id hv, ?_⟩
  rw [(CatalogOp.effect h).versionIDs, hv]
  simp

/-- What adds fields. -/
theorem filled_effect {a : o.Out} {s : Catalog} (h : o.body ids db = .ok (a, db'))
    {fields : List SchemaField} (hf : filled ⟨o, .ok a, s⟩ = some (versionID, fields)) :
    db'.fieldsOf versionID = db.fieldsOf versionID ++ fields ∧
      (o = .bulkCreateSchemaFields versionID fields ∨
        versionID = ids.version ∧ created ⟨o, .ok a, s⟩ = some versionID) := by
  have hnew : o.newFields ids = fields.map (versionID, ·) ∧
      (o = .bulkCreateSchemaFields versionID fields ∨
        versionID = ids.version ∧ created ⟨o, .ok a, s⟩ = some versionID) := by
    cases o with
    | bulkCreateSchemaFields id rows =>
      obtain ⟨hrows, -⟩ := Catalog.bulkCreateSchemaFields_eq_ok (mapError_eq_ok.mp h)
      cases hf
      rw [hrows]
      exact ⟨rfl, .inl rfl⟩
    | createSchemaTx name checksum newFields actor =>
      simp only [CatalogOp.body, bind_eq_ok, mapError_eq_ok] at h
      obtain ⟨⟨sc, db1⟩, h1, ⟨v, db2⟩, h2, ⟨rows, db3⟩, h3, h⟩ := h
      cases h
      obtain ⟨rfl, -⟩ := Catalog.createSchemaVersion_eq_ok h2
      obtain ⟨rfl, -⟩ := Catalog.createFieldsOn_eq_ok h3
      cases hf
      exact ⟨rfl, .inr ⟨rfl, rfl⟩⟩
    | updateSchemaTx p newFields actor =>
      simp only [CatalogOp.body, bind_eq_ok, mapError_eq_ok] at h
      obtain ⟨⟨v, db2⟩, h2, ⟨rows, db3⟩, h3, h⟩ := h
      cases h
      obtain ⟨rfl, -⟩ := Catalog.createSchemaVersion_eq_ok h2
      obtain ⟨rfl, -⟩ := Catalog.createFieldsOn_eq_ok h3
      cases hf
      exact ⟨rfl, .inr ⟨rfl, rfl⟩⟩
    | _ => simp [filled] at hf
  refine ⟨?_, hnew.2⟩
  rw [(CatalogOp.effect h).fieldsOf, hnew.1, filter_map_pair]

/-- A version is made with a fresh identifier. -/
theorem creates_created : Creates created fun db => db.versions.map CatalogVersion.id where
  grows := by
    intro db db' hext x hx
    obtain ⟨v, hv, rfl⟩ := mem_map.mp hx
    obtain ⟨v', hv', hid, -⟩ := hext.versions v hv
    exact hid ▸ mem_map_of_mem hv'
  ok := by
    intro o r s x hx
    cases r with
    | ok a => exact ⟨a, rfl⟩
    | error err => cases o <;> simp [created] at hx
  new := by
    intro ids o a db db' x hfresh hbody hx
    obtain ⟨rfl, hmem⟩ := created_effect hbody hx
    exact ⟨hfresh.2.1.2, hmem⟩

/-! ### The invariant -/

/-- **Whose fields a version has**: a version that an import has created has no fields while
that import has not filled it, and a version has the fields that a caller has filled it with. -/
structure Placement (c : AdminConfig) : Prop where
  waiting : ∀ t p row s, ⟨.createSchemaVersion p, .ok row, s⟩ ∈ (c.pool t).hist →
    (∀ e ∈ (c.pool t).hist, ¬ IsFill e.op) → c.shared.fieldsOf row.id = []
  filled : ∀ t, ∀ e ∈ (c.pool t).hist, ∀ versionID fields, filled e = some (versionID, fields) →
    c.shared.fieldsOf versionID = fields

section Runs

variable {aenv : AdminEnv} {callers : Callers} {allowed : AdminConfig → ℕ → CatalogChoice → Prop}
  {c : AdminConfig} {t : ℕ} {e : AdminEvent} {versionID : String} {o : CatalogOp}

section

variable (hr : Reach execCatalog allowed (start aenv callers) c)

include hr

theorem created_of_filled (he : e ∈ (c.pool t).hist) {fields : List SchemaField}
    (hf : filled e = some (versionID, fields)) :
    ∃ e' ∈ (c.pool t).hist, created e' = some versionID := by
  obtain ⟨h1, h2, hh⟩ := append_of_mem he
  obtain ⟨ch, c1, c2, hev⟩ := hr.event (start_hist t) hh
  obtain ⟨o, r, s⟩ := e
  obtain ⟨k, hp⟩ := hev.next
  cases r with
  | error err => cases o <;> simp [filled] at hf
  | ok a =>
    obtain ⟨-, rfl | ⟨-, hc⟩⟩ := filled_effect (body_of_ok hev.answer) (s := s) hf
    · obtain ⟨caller, req, -, hw⟩ := reach_writes hev.reach hp trivial
      obtain ⟨ireq, doc, p, row, -, -, hfill, rfl, -⟩ := hw.fill
      obtain ⟨⟨s', hmem⟩, -⟩ := hfill.created
      rw [hev.hist] at hmem
      exact ⟨_, by rw [hh]; exact mem_append_left _ hmem, rfl⟩
    · exact ⟨_, he, hc⟩

/-- The fields of a version that a caller has created change only when that caller fills
it. -/
theorem fieldsOf_step {c' : AdminConfig} {u : ℕ} {ch : CatalogChoice} {r : o.Resp}
    {k : o.Resp → Prog CatalogOp.Resp (Except CatalogErr AdminReply)}
    (hp : (c.pool u).prog = .op o k) (hexec : execCatalog ch u o c.shared = some (r, c'.shared))
    (he : e ∈ (c.pool t).hist) (hc : created e = some versionID)
    (hne : t = u → ∀ fields, o ≠ .bulkCreateSchemaFields versionID fields) :
    c'.shared.fieldsOf versionID = c.shared.fieldsOf versionID := by
  obtain ⟨hfresh, ⟨err, -, heq, -⟩ | ⟨a, hbody, -⟩⟩ := execCatalog_eq_some hexec
  · rw [heq]
  refine fieldsOf_effect (CatalogOp.effect hbody) ?_ ?_
  · rintro fields rfl
    obtain ⟨caller, req, -, hw⟩ := reach_writes hr hp trivial
    obtain ⟨ireq, doc, p, row, -, -, hfill, rfl, -⟩ := hw.fill
    obtain ⟨⟨s, hmem⟩, -⟩ := hfill.created
    exact hne (creates_created.owner hr he hmem hc rfl) fields rfl
  · rintro rfl
    exact hfresh.2.1.2 (creates_created.listed hr he hc)

/-- A caller that is about to fill a version has not filled one. -/
theorem not_filled_of_fill
    {fields : List SchemaField} {k : CatalogOp.Resp (.bulkCreateSchemaFields versionID fields) →
      Prog CatalogOp.Resp (Except CatalogErr AdminReply)}
    (hp : (c.pool t).prog = .op (.bulkCreateSchemaFields versionID fields) k) :
    ∀ e ∈ (c.pool t).hist, filled e = none := by
  intro e he
  obtain ⟨caller, req, hreq, hw⟩ := reach_writes hr hp trivial
  obtain ⟨ireq, doc, p, row, rfl, -, hfill, rfl, -⟩ := hw.fill
  obtain ⟨h1, ch1, c1, c2, hev⟩ := hr.event_of_mem (start_hist t) he
  obtain ⟨o, r, s⟩ := e
  obtain ⟨k', hp'⟩ := hev.next
  cases o with
  | bulkCreateSchemaFields id rows => exact absurd trivial (hfill.noFill _ he)
  | createSchemaTx name checksum newFields actor | updateSchemaTx params newFields actor =>
    obtain ⟨caller', req', hreq', hw'⟩ := reach_writes hev.reach hp' trivial
    obtain ⟨-, rfl⟩ := answer_inj (hreq.symm.trans hreq')
    generalize (c1.pool t).hist = h at hw'
    cases hw'
  | _ => cases r <;> rfl

/-- **The invariant holds in every reachable state.** -/
theorem reach_placement : Placement c := by
  refine hr.invariant Placement ⟨?_, ?_⟩ ?_
  · intro t p row s he
    rw [start_hist] at he
    exact absurd he not_mem_nil
  · intro t e he
    rw [start_hist] at he
    exact absurd he not_mem_nil
  rintro c c' u ch hr ih - hs
  obtain ⟨o, k, r, hp, hexec, hpool⟩ := step_eq_some hs
  have hfresh := (execCatalog_eq_some hexec).1
  refine ⟨?_, ?_⟩
  · intro t p row s he hno
    rcases (mem_hist_step hpool).mp he with he | ⟨rfl, heq⟩
    · rw [fieldsOf_step hr hp hexec he rfl, ih.waiting t p row s he fun e he =>
        hno e ((mem_hist_step hpool).mpr (.inl he))]
      rintro rfl fields rfl
      exact hno _ ((mem_hist_step hpool).mpr (.inr ⟨rfl, rfl⟩)) trivial
    · obtain ⟨rfl, hresp, -⟩ := Event.mk.inj heq
      obtain rfl := eq_of_heq hresp
      have hbody := body_of_ok hexec
      have hid : row.id = ch.ids.version := (created_effect (s := c.shared) hbody rfl).1
      rw [(CatalogOp.effect hbody).fieldsOf, hid, fieldsOf_eq_nil (reach_wf hr) hfresh.2.1.2]
      rfl
  · intro t e he versionID fields hf
    rcases (mem_hist_step hpool).mp he with he | ⟨rfl, rfl⟩
    · obtain ⟨e', he', hc'⟩ := created_of_filled hr he hf
      rw [fieldsOf_step hr hp hexec he' hc', ih.filled t e he _ _ hf]
      rintro rfl fields' rfl
      exact absurd (not_filled_of_fill hr hp e he) (by simp [hf])
    · cases r with
      | error err => cases o <;> simp [SchemaAdmin.filled] at hf
      | ok a =>
        obtain ⟨heq, hhow⟩ := filled_effect (body_of_ok hexec) hf
        have hnil : c.shared.fieldsOf versionID = [] := by
          rcases hhow with rfl | ⟨hid, -⟩
          · obtain ⟨caller, req, -, hw⟩ := reach_writes hr hp trivial
            obtain ⟨ireq, doc, p, row, -, -, hfill, rfl, -⟩ := hw.fill
            obtain ⟨⟨s, hmem⟩, -⟩ := hfill.created
            exact ih.waiting t p row s hmem hfill.noFill
          · rw [hid]
            exact fieldsOf_eq_nil (reach_wf hr) hfresh.2.1.2
        rw [heq, hnil, nil_append]

theorem Filling.row {doc : SchemaYAML}
    {h : List AdminEvent} {p : CreateSchemaVersionParams} {row : CatalogVersion}
    (hf : Filling aenv doc h p row) (hsub : ∀ e ∈ h, e ∈ (c.pool t).hist) :
    row.toCreateSchemaVersionParams = p ∧ isUUID p.schemaID = true ∧
      ∃ v ∈ c.shared.versions, v.toCreateSchemaVersionParams = p ∧ v.id = row.id := by
  obtain ⟨⟨s, hmem⟩, -⟩ := hf.created
  obtain ⟨hwf, ids, db', -, hbody, hext⟩ := reach_event_ok hr (hsub _ hmem)
  obtain ⟨rfl, rfl, -, hschema⟩ := Catalog.createSchemaVersion_eq_ok (mapError_eq_ok.mp hbody)
  obtain ⟨v, hv, hid, hparams, -⟩ := hext.versions ⟨p, ids.version, false⟩ (by simp)
  obtain ⟨sch, hsch, hschid⟩ := mem_map.mp hschema
  exact ⟨rfl, hschid ▸ hwf.uuids sch hsch, v, hv, hparams, hid⟩

end

/-- The rows of the fields of a message. -/
theorem newFields_eq_ok {fields : List PbSchemaField} {rows : List SchemaField}
    (h : newFields aenv fields = .ok rows) : rows = fields.map PbSchemaField.stored := by
  simp only [newFields, bind_eq_ok] at h
  obtain ⟨⟨⟩, -, ⟨⟩, -, h⟩ := h
  exact (Except.ok.inj h).symm

section

variable (hr : Reach execCatalog allowed (start aenv callers) c)

include hr

/-- **What holds of every version and its fields**: it holds of those that an import makes, before
and after it has filled them, and of those that are made with their fields in one transaction. -/
theorem reach_versions {P : CreateSchemaVersionParams → List SchemaField → Prop}
    (himport : ∀ {caller req doc h p}, acceptSchema aenv.env aenv.senv caller req = .ok doc →
      Versioning aenv doc h p → P p [] ∧ P p (storedFields doc))
    (htx : ∀ {p fields}, p.checksum = computeChecksum aenv fields → p.dependentRequired = [] →
      p.validations = [] → (fields.map PbSchemaField.path).Nodup →
      P p (fields.map PbSchemaField.stored)) :
    ∀ v ∈ c.shared.versions, P v.toCreateSchemaVersionParams (c.shared.fieldsOf v.id) := by
  refine hr.invariant (fun c => ∀ v ∈ c.shared.versions,
    P v.toCreateSchemaVersionParams (c.shared.fieldsOf v.id)) (by simp [start]) ?_
  rintro c c' t ch hr ih ha hs v hv
  have hwf := reach_wf hr
  obtain ⟨o, k, r, hp, hexec, -⟩ := step_eq_some hs
  obtain ⟨hfresh, ⟨e, -, heq, -⟩ | ⟨a, hbody, -⟩⟩ := execCatalog_eq_some hexec
  · rw [heq] at hv ⊢
    exact ih v hv
  have heff := CatalogOp.effect hbody
  rw [heff.versions, mem_append, mem_map, Option.mem_toList] at hv
  rcases hv with ⟨v0, hv0, rfl⟩ | hnew
  · rw [CatalogOp.markVersion_params, CatalogOp.markVersion_id]
    by_cases hfill : ∃ rows, o = .bulkCreateSchemaFields v0.id rows
    · -- the version is filled, by the import that has created it
      obtain ⟨rows, rfl⟩ := hfill
      obtain ⟨caller, req, -, hw⟩ := reach_writes hr hp trivial
      obtain ⟨ireq, doc, p, row, -, hdoc, hfilling, hid, rfl⟩ := hw.fill
      obtain ⟨-, -, v', hv', hparams, hid'⟩ := hfilling.row hr fun e he => he
      obtain rfl := inj_on_of_nodup_map hwf.versionIDs hv' hv0 (hid'.trans hid.symm)
      obtain ⟨⟨s, hmem⟩, -⟩ := hfilling.created
      have hstored : c'.shared.fieldsOf v'.id = storedFields doc := by
        rw [heff.fieldsOf, hid, (reach_placement hr).waiting t p row s hmem hfilling.noFill]
        exact filter_map_pair row.id (storedFields doc)
      rw [hparams, hstored]
      generalize (c.pool t).hist = h at hfilling
      cases hfilling with
      | mk hv _ _ _ => exact (himport hdoc hv).2
    · rw [fieldsOf_effect heff (fun rows ho => hfill ⟨rows, ho⟩)]
      · exact ih v0 hv0
      · exact fun hid => hfresh.2.1.2 (hid ▸ mem_map_of_mem hv0)
  · have hnone := fieldsOf_eq_nil hwf hfresh.2.1.2
    -- a version that comes with its fields has these, with different paths
    have hstored : ∀ fields : List PbSchemaField, o.newFields ch.ids =
        (fields.map PbSchemaField.stored).map (ch.ids.version, ·) →
        c'.shared.fieldsOf ch.ids.version = fields.map PbSchemaField.stored ∧
          (fields.map PbSchemaField.path).Nodup := by
      intro fields hfields
      have hrows : c'.shared.fieldsOf ch.ids.version = fields.map PbSchemaField.stored := by
        rw [heff.fieldsOf, hnone, hfields, filter_map_pair, nil_append]
      refine ⟨hrows, ?_⟩
      have hpaths := (reach_wf (hr.tail ha hs)).paths ch.ids.version
      rw [hrows] at hpaths
      simpa [Function.comp_def] using hpaths
    obtain ⟨caller, req, -, hw⟩ := reach_writes hr hp (by cases o <;> trivial)
    generalize (c.pool t).hist = h at hw
    cases hw with
    | importVersion req hdoc hv =>
      cases hnew
      rw [heff.fieldsOf, hnone]
      exact (himport hdoc hv).1
    | createSchema req =>
      cases hnew
      simp only [CatalogOp.body, bind_eq_ok, mapError_eq_ok] at hbody
      obtain ⟨⟨sc, db1⟩, -, ⟨v, db2⟩, -, ⟨rows, db3⟩, h3, -⟩ := hbody
      obtain ⟨hrows, -⟩ := Catalog.createFieldsOn_eq_ok h3
      obtain ⟨hf, hnodup⟩ := hstored req.fields (by
        rw [hrows, newFields_eq_ok hrows]
        rfl)
      exact hf ▸ htx rfl rfl rfl hnodup
    | updateSchema req hres latest existing s1 s2 =>
      cases hnew
      simp only [CatalogOp.body, bind_eq_ok, mapError_eq_ok] at hbody
      obtain ⟨⟨v, db2⟩, -, ⟨rows, db3⟩, h3, -⟩ := hbody
      obtain ⟨hrows, -⟩ := Catalog.createFieldsOn_eq_ok h3
      obtain ⟨hf, hnodup⟩ := hstored (mergeFields existing req) (by
        rw [hrows, newFields_eq_ok hrows]
        rfl)
      exact hf ▸ htx rfl rfl rfl hnodup
    | _ => cases hnew

/-! ### Provenance -/

/-- **A version has no fields, or those of a message** as they are stored. -/
theorem reach_provenance : ∀ v ∈ c.shared.versions, c.shared.fieldsOf v.id = [] ∨
    ∃ fields : List PbSchemaField, c.shared.fieldsOf v.id = fields.map PbSchemaField.stored :=
  reach_versions (P := fun _ rows => rows = [] ∨
    ∃ fields : List PbSchemaField, rows = fields.map PbSchemaField.stored) hr
    (fun _ _ => ⟨.inl rfl, .inr ⟨_, rfl⟩⟩) (fun _ _ _ _ => .inr ⟨_, rfl⟩)

/-- A stored field is read back as itself. -/
theorem reach_stored {f : SchemaField}
    (hf : f ∈ c.shared.fieldsOf versionID) : (fieldToProto f).stored = f := by
  obtain ⟨p, hp, rfl⟩ := mem_map.mp hf
  obtain ⟨hp, hid⟩ := mem_filter.mp hp
  obtain ⟨v, hv, hvid⟩ := mem_map.mp ((reach_wf hr).placed p hp)
  have hmem : p.2 ∈ c.shared.fieldsOf v.id :=
    mem_map_of_mem (mem_filter.mpr ⟨hp, by simpa using hvid.symm⟩)
  rcases reach_provenance hr v hv with hnil | ⟨fields, hstored⟩
  · rw [hnil] at hmem
    exact absurd hmem not_mem_nil
  · rw [hstored] at hmem
    obtain ⟨g, -, hg⟩ := mem_map.mp hmem
    rw [← hg]
    exact stored_fieldToProto_stored g

end

end Runs

end Decree.SchemaAdmin
