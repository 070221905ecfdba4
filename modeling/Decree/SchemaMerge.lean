import Decree.Bindings
import Decree.CatalogFields

/-!
# The Version that `UpdateSchema` Makes

`UpdateSchema` derives a version from the latest one: the fields of its parent, without those
that are removed, and the fields of the request over them. That is what the new version has
(`updateSchema_merge`). The rules of the parent are not among what is derived: the row of the
new version is made of fields alone, so it has no `dependentRequired` entries and no validation
rules, and the rules of a schema are lost with its first update.

## Main results

* `updateSchema_merge`: the version of an update.
* `schemaVersion_immutable`: versions do not change.
-/

open Go Interleave List

namespace Decree.SchemaAdmin

/-! ### The merge -/

section Merge

variable {m fs : List PbSchemaField} {f g : PbSchemaField}

theorem mem_setField : g ∈ setField m f ↔ (g ∈ m ∧ g.path ≠ f.path) ∨ g = f := by
  simp [setField]

/-- A map after assignments: the last one at a path is there, and what no assignment is at. -/
theorem mem_foldl_setField : g ∈ fs.foldl setField m ↔
      fs.reverse.find? (fun f => f.path = g.path) = some g ∨
        (g ∈ m ∧ g.path ∉ fs.map PbSchemaField.path) := by
  induction fs generalizing m with
  | nil => simp
  | cons f fs ih =>
    rw [foldl_cons, ih, mem_setField, reverse_cons, find?_append, map_cons, mem_cons]
    cases hfind : fs.reverse.find? (fun f => f.path = g.path) with
    | some g' =>
      have hmem : g.path ∈ fs.map PbSchemaField.path := by
        have hpath := find?_some hfind
        simp only [decide_eq_true_eq] at hpath
        exact hpath ▸ mem_map_of_mem (mem_reverse.mp (mem_of_find?_eq_some hfind))
      simp [hmem]
    | none =>
      have hnot : g.path ∉ fs.map PbSchemaField.path := by
        intro hmem
        obtain ⟨f', hf', hpath⟩ := mem_map.mp hmem
        exact absurd (find?_eq_none.mp hfind f' (mem_reverse.mpr hf')) (by simp [hpath])
      by_cases hpath : f.path = g.path
      · have hne : ¬ g.path ≠ f.path := fun h => h hpath.symm
        simp [hnot, hpath, eq_comm]
      · have hne : g ≠ f := fun h => hpath (h ▸ rfl)
        simp [hnot, hpath, hne, Ne.symm hpath]

theorem mem_foldl_remove {paths : List String} :
    g ∈ paths.foldl (fun m path => m.filter fun g => g.path ≠ path) m ↔ g ∈ m ∧ g.path ∉ paths := by
  induction paths generalizing m with
  | nil => simp
  | cons path paths ih =>
    rw [foldl_cons, ih]
    simp [and_assoc]

/-- With distinct paths, the last field at a path is the one that is there. -/
theorem find?_reverse_eq_some (hnodup : (fs.map PbSchemaField.path).Nodup) :
    fs.reverse.find? (fun f => f.path = g.path) = some g ↔ g ∈ fs := by
  constructor
  · intro h
    exact mem_reverse.mp (mem_of_find?_eq_some h)
  · intro h
    cases hfind : fs.reverse.find? (fun f => f.path = g.path) with
    | none =>
      exact absurd (find?_eq_none.mp hfind g (mem_reverse.mpr h)) (by simp)
    | some g' =>
      have hpath := find?_some hfind
      simp only [decide_eq_true_eq] at hpath
      have hg' := mem_reverse.mp (mem_of_find?_eq_some hfind)
      rw [inj_on_of_nodup_map hnodup hg' h hpath]

/-- **The merge**: the fields of the request, the last one where several have a path, and the
fields of the parent that are neither removed nor in the request. -/
theorem mem_mergeFields {existing : List SchemaField} {req : UpdateSchemaRequest}
    (hnodup : (existing.map SchemaField.path).Nodup) :
    g ∈ mergeFields existing req ↔ req.fields.reverse.find? (fun f => f.path = g.path) = some g ∨
        (g ∈ existing.map fieldToProto ∧ g.path ∉ req.removeFields ∧
          g.path ∉ req.fields.map PbSchemaField.path) := by
  have hnodup' : ((existing.map fieldToProto).map PbSchemaField.path).Nodup := by
    simpa [Function.comp_def] using hnodup
  rw [mergeFields, mem_foldl_setField, mem_foldl_remove, mem_foldl_setField,
    find?_reverse_eq_some hnodup']
  simp [and_assoc]

end Merge

/-! ### The new version -/

/-- A field of the version that an update makes of these fields: the last field of the request
at its path, as it is stored, or a field of the parent that the request leaves. -/
def Merged (parent : List SchemaField) (req : UpdateSchemaRequest) (f : SchemaField) : Prop :=
  (∃ g, req.fields.reverse.find? (fun g => g.path = f.path) = some g ∧ f = g.stored) ∨
    (f ∈ parent ∧ f.path ∉ req.removeFields ∧ f.path ∉ req.fields.map PbSchemaField.path)

def rulePaths (v : CatalogVersion) : List String :=
  v.dependentRequired.flatMap (fun e => e.triggerField :: e.dependentFields) ++
    (v.validations.map fun r => r.path).filter (· ≠ "")

/-- The version **carries the rules** of another, and declares the fields they mention. -/
def CarriesRules (v latest : CatalogVersion) (fields : List SchemaField) : Prop :=
  v.dependentRequired = latest.dependentRequired ∧ v.validations = latest.validations ∧
    ∀ path ∈ rulePaths latest, path ∈ fields.map SchemaField.path

section Runs

variable {aenv : AdminEnv} {callers : Callers} {allowed : AdminConfig → ℕ → CatalogChoice → Prop}
  {c : AdminConfig} {t : ℕ} {req : UpdateSchemaRequest}

theorem runs_updateSchema {caller : Caller} {reply : AdminReply} {h : List AdminEvent}
    (hrun : Runs (updateSchema aenv caller req).run h (.ok reply)) :
    ∃ schema e latest existing version rows s1 s2 s3, Resolved req.id schema e ∧
      reply = .schema ⟨schema, version, rows⟩ ∧
      h = [e, ⟨.read (.latestSchemaVersion schema.id), .ok latest, s1⟩,
        ⟨.read (.schemaFields latest.id), .ok existing, s2⟩,
        ⟨.updateSchemaTx
          { schemaID := schema.id
            version := wrap32 (latest.version + 1)
            parentVersion := some latest.version
            checksum := computeChecksum aenv (mergeFields existing req) }
          (newFields aenv (mergeFields existing req)) (getActor caller),
          .ok (version, rows), s3⟩] := by
  obtain ⟨h1, h2, ⟨⟩, rfl, hcheck, hrun1⟩ := runs_bind_ok hrun
  obtain ⟨h3, h4, schema, rfl, hres, hrun2⟩ := runs_bind_ok hrun1
  obtain ⟨h5, h6, latest, rfl, hlatest, hrun3⟩ := runs_bind_ok hrun2
  obtain ⟨h7, h8, existing, rfl, hfields, hrun4⟩ := runs_bind_ok hrun3
  obtain ⟨h9, h0, ⟨version, rows⟩, rfl, htx, hrun5⟩ := runs_bind_ok hrun4
  obtain ⟨rfl, -⟩ := runs_checked hcheck
  obtain ⟨e, rfl, he⟩ := runs_resolveSchema hres
  obtain ⟨s1, rfl⟩ := runs_perform hlatest
  obtain ⟨s2, rfl⟩ := runs_perform hfields
  obtain ⟨s3, rfl⟩ := runs_perform htx
  obtain ⟨rfl, hreply⟩ := runs_ret.mp hrun5
  exact ⟨schema, e, latest, existing, version, rows, s1, s2, s3, he,
    (Except.ok.inj hreply).symm, rfl⟩

theorem mem_stored_mergeFields {existing : List SchemaField}
    (hnodup : (existing.map SchemaField.path).Nodup)
    (hstored : ∀ f ∈ existing, (fieldToProto f).stored = f) (f : SchemaField) :
    f ∈ (mergeFields existing req).map PbSchemaField.stored ↔ Merged existing req f := by
  rw [mem_map]
  constructor
  · rintro ⟨g, hg, rfl⟩
    rcases (mem_mergeFields hnodup).mp hg with hlast | ⟨hmem, hkept, hover⟩
    · exact .inl ⟨g, hlast, rfl⟩
    · obtain ⟨f, hf, rfl⟩ := mem_map.mp hmem
      rw [hstored f hf]
      exact .inr ⟨hf, hkept, hover⟩
  · rintro (⟨g, hlast, rfl⟩ | ⟨hf, hkept, hover⟩)
    · exact ⟨g, (mem_mergeFields hnodup).mpr (.inl hlast), rfl⟩
    · exact ⟨fieldToProto f, (mem_mergeFields hnodup).mpr
        (.inr ⟨mem_map_of_mem hf, hkept, hover⟩), hstored f hf⟩

/-- **The version of a successful update**: it is derived from the latest version, its fields
are exactly the merge of the parent's and the request's, and it carries the rules of the
parent just when the parent has none. -/
theorem updateSchema_merge (hr : Reach execCatalog allowed (start aenv callers) c)
    {caller : Caller} {req : UpdateSchemaRequest}
    (ht : callers[t]? = some (caller, .updateSchema req)) {reply : AdminReply}
    (hret : c.returned t = some (.ok reply)) :
    ∃ v ∈ c.shared.versions, ∃ latest, ∃ s₁ s₂ : Catalog,
      (∃ rows schema, reply = .schema ⟨schema, { v with published := false }, rows⟩) ∧
      s₁.latestSchemaVersion v.schemaID = some latest ∧
      ⟨.read (.schemaFields latest.id), .ok (s₂.schemaFields latest.id), s₂⟩ ∈ (c.pool t).hist ∧
      v.parentVersion = some latest.version ∧
      (∀ f, f ∈ c.shared.fieldsOf v.id ↔ Merged (s₂.fieldsOf latest.id) req f) ∧
      (CarriesRules v latest (c.shared.fieldsOf v.id) ↔
        latest.dependentRequired = [] ∧ latest.validations = []) := by
  have hrun := reach_proc hr ht
  rw [Config.returned_eq_some.mp hret] at hrun
  obtain ⟨schema, e, latest, existing, version, rows, s₁, s₂, s3, -, rfl, hh⟩ :=
    runs_updateSchema hrun
  obtain ⟨-, hlatest, -⟩ := reach_read_ok hr (t := t)
    (q := .latestSchemaVersion schema.id) (r := latest) (s := s₁) (by simp [hh])
  have hread : (⟨.read (.schemaFields latest.id), .ok existing, s₂⟩ : AdminEvent) ∈
      (c.pool t).hist := by simp [hh]
  obtain ⟨hwf2, hfields, -⟩ := reach_read_ok hr hread
  cases hfields
  have htx : (⟨.updateSchemaTx
      { schemaID := schema.id
        version := wrap32 (latest.version + 1)
        parentVersion := some latest.version
        checksum := computeChecksum aenv (mergeFields (s₂.schemaFields latest.id) req) }
      (newFields aenv (mergeFields (s₂.schemaFields latest.id) req)) (getActor caller),
      .ok (version, rows), s3⟩ : AdminEvent) ∈ (c.pool t).hist := by simp [hh]
  obtain ⟨-, ids, db', -, hbody, hext⟩ := reach_event_ok hr htx
  have hfilled := (reach_placement hr).filled t _ htx version.id rows rfl
  simp only [CatalogOp.body, bind_eq_ok, mapError_eq_ok] at hbody
  obtain ⟨⟨v, db2⟩, h2, ⟨rows', db3⟩, h3, hdone⟩ := hbody
  obtain ⟨hout, rfl⟩ := Prod.mk.inj (Except.ok.inj hdone)
  cases hout
  obtain ⟨rfl, rfl, -⟩ := Catalog.createSchemaVersion_eq_ok h2
  obtain ⟨hnew, hbulk⟩ := Catalog.createFieldsOn_eq_ok h3
  obtain ⟨-, rfl, -⟩ := Catalog.bulkCreateSchemaFields_eq_ok hbulk
  obtain ⟨v', hv', hid, hparams, -⟩ := hext.versions
    ⟨{ schemaID := schema.id
       version := wrap32 (latest.version + 1)
       parentVersion := some latest.version
       checksum := computeChecksum aenv (mergeFields (s₂.schemaFields latest.id) req) },
      ids.version, false⟩ (by simp [Catalog.insertAudit])
  obtain ⟨p, id, published⟩ := v'
  obtain rfl : id = ids.version := hid
  obtain rfl := hparams
  -- the state in which the fields were read is one of the run
  obtain ⟨h1, ch, c1, c2, hev⟩ := hr.event_of_mem (start_hist t) hread
  have hperm := perm_insertionSort (fun f g : SchemaField => f.path ≤ g.path)
    (s₂.fieldsOf latest.id)
  have hstored : ∀ f ∈ s₂.schemaFields latest.id, (fieldToProto f).stored = f := by
    intro f hf
    have hs2 : c1.shared = s₂ := hev.pre
    have hf' := hperm.mem_iff.mp hf
    rw [← hs2] at hf'
    exact reach_stored hev.reach hf'
  refine ⟨_, hv', latest, s₁, s₂, ⟨_, schema, rfl⟩, found_eq_ok.mp hlatest, hread, rfl, ?_, ?_⟩
  · intro f
    have hnodup : ((s₂.schemaFields latest.id).map SchemaField.path).Nodup :=
      (hperm.map SchemaField.path).nodup_iff.mpr (hwf2.paths latest.id)
    rw [hfilled, newFields_eq_ok hnew]
    exact (mem_stored_mergeFields hnodup hstored f).trans
      (or_congr Iff.rfl (and_congr hperm.mem_iff Iff.rfl))
  · constructor
    · rintro ⟨hdep, hval, -⟩
      exact ⟨hdep.symm, hval.symm⟩
    · rintro ⟨hdep, hval⟩
      refine ⟨hdep.symm, hval.symm, ?_⟩
      simp [rulePaths, hdep, hval]

end Runs

namespace Sample

def ruledDocument : SchemaYAML where
  specVersion := "v1"
  name := "limits"
  fields := [("a", { type := "integer" }), ("b", { type := "string" })]
  dependentRequired := [("a", ["b"])]
  validations := [{ path := "a", rule := "self.a > 0", message := "a is positive" }]
  nodup := by simp
  nodup_triggers := by decide

def updates : Callers :=
  [(Decree.Sample.superadmin, .importSchema ⟨"", false⟩),
    (Decree.Sample.superadmin,
      .updateSchema ⟨"limits", [{ path := "c", type := .known .bool }], []⟩),
    (Decree.Sample.superadmin, .updateSchema ⟨"limits", [], ["b"]⟩)]

def updateSteps (n : ℕ) : List (ℕ × CatalogChoice) :=
  ([(0, draw 0), (0, draw 0), (0, draw 1), (0, draw 2)] ++
    List.replicate 4 (1, draw 2) ++ List.replicate 4 (2, draw 3)).take n

end Sample

open SchemaAdmin.Sample

theorem updateSchema_merge_without_rules : ∃ c : AdminConfig, Reach execCatalog anyStep
        (start (admin fun _ => .ok ruledDocument) updates) c ∧
      ∃ v ∈ c.shared.versions, ∃ (latest : CatalogVersion) (s₂ : Catalog),
        v.parentVersion = some latest.version ∧ ∀ f, f ∈ c.shared.fieldsOf v.id ↔
          Merged (s₂.fieldsOf latest.id) ⟨"limits", [], ["b"]⟩ f := by
  obtain ⟨c, hr, hret⟩ : ∃ c : AdminConfig, Reach execCatalog anyStep
      (start (admin fun _ => .ok ruledDocument) updates) c ∧
      (c.returned 2).any Except.toBool = true :=
    exists_reach_of_run (updateSteps 12) (by decide +kernel)
  rcases hc : c.returned 2 with _ | _ | reply
  · simp [hc] at hret
  · simp [hc, Except.toBool] at hret
  · obtain ⟨v, hv, latest, s1, s₂, -, -, -, hparent, hmerge, -⟩ :=
      updateSchema_merge hr (t := 2) rfl hc
    exact ⟨c, hr, v, hv, latest, s₂, hparent, hmerge⟩

/-- **An update that loses the rules**: the version it makes of a schema with rules has none. -/
theorem updateSchema_drops_rules : ∃ c : AdminConfig, Reach execCatalog anyStep
        (start (admin fun _ => .ok ruledDocument) updates) c ∧
      (c.returned 1).any Except.toBool = true ∧
      ∃ latest ∈ c.shared.versions, ∃ v ∈ c.shared.versions, v.parentVersion = some latest.version ∧
        latest.dependentRequired ≠ [] ∧ latest.validations ≠ [] ∧
        v.dependentRequired = [] ∧ v.validations = [] :=
  exists_reach_of_run (updateSteps 8) (by decide +kernel)

/-! ### Versions that are there -/

/-- **A schema version does not change**: along every run its row says what it said, it stays
published, and the fields that it has stay as they are. -/
theorem schemaVersion_immutable {aenv : AdminEnv} {callers : Callers}
    {allowed : AdminConfig → ℕ → CatalogChoice → Prop} {c c' : AdminConfig}
    (hr : Reach execCatalog allowed (start aenv callers) c) (hr' : Reach execCatalog allowed c c')
    {v : CatalogVersion} (hv : v ∈ c.shared.versions) :
    (∃ v' ∈ c'.shared.versions, v'.id = v.id ∧
      v'.toCreateSchemaVersionParams = v.toCreateSchemaVersionParams ∧
      (v.published = true → v'.published = true)) ∧
    (c.shared.fieldsOf v.id ≠ [] → c'.shared.fieldsOf v.id = c.shared.fieldsOf v.id) := by
  refine ⟨(reach_extends hr').versions v hv, fun hne => ?_⟩
  refine catalog_invariant (fun db => db.fieldsOf v.id = c.shared.fieldsOf v.id) hr' rfl ?_
  intro c1 u ch o k db hr1 hp ih hfresh heff
  refine (fieldsOf_effect heff ?_ ?_).trans ih
  · -- a statement fills the version that its import has just created, which has no fields
    rintro fields rfl
    obtain ⟨caller, req, -, hw⟩ := reach_writes (hr.trans hr1) hp trivial
    obtain ⟨ireq, doc, p, row, -, -, hfill, hid, -⟩ := hw.fill
    obtain ⟨⟨s, hmem⟩, -⟩ := hfill.created
    have hnil := (reach_placement (hr.trans hr1)).waiting u p row s hmem hfill.noFill
    exact hne (ih.symm.trans (hid ▸ hnil))
  · intro hid
    obtain ⟨v', hv', hid', -⟩ := (reach_extends hr1).versions v hv
    exact hfresh.2.1.2 (hid ▸ hid' ▸ mem_map_of_mem hv')

theorem schemaVersion_immutable_updated : ∃ c c' : AdminConfig,
    Reach execCatalog anyStep (start (admin fun _ => .ok ruledDocument) updates) c ∧
      Reach execCatalog anyStep c c' ∧ (c'.returned 1).any Except.toBool = true ∧
      ∃ v ∈ c.shared.versions, c'.shared.fieldsOf v.id = c.shared.fieldsOf v.id := by
  obtain ⟨c, c', hr, ⟨v, hv, hne⟩, hr', hret⟩ : ∃ c c' : AdminConfig,
      Reach execCatalog anyStep (start (admin fun _ => .ok ruledDocument) updates) c ∧
      (∃ v ∈ c.shared.versions, c.shared.fieldsOf v.id ≠ []) ∧ Reach execCatalog anyStep c c' ∧
      (c'.returned 1).any Except.toBool = true :=
    exists_reach_of_runs (updateSteps 4) ((updateSteps 8).drop 4) (by decide +kernel)
  exact ⟨c, c', hr, hr', hret, v, hv, (schemaVersion_immutable hr hr' hv).2 hne⟩

end Decree.SchemaAdmin
