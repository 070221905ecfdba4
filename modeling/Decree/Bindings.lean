import Decree.CatalogTraces

/-!
# Tenants and the Schemas They Are Bound To

A tenant is bound to a version of a schema by `CreateTenant` and `UpdateTenant`, which look the
version up before the transaction that uses it. Versions stay and stay published, so what was
found is still there. The row of the schema is another matter: neither call looks at it, and
`DeleteSchema` marks it and nothing else, so a tenant may be left with a schema that is deleted.

## Main results

* `version_published`: a tenant has a published version.
* `tenants_bound`: and a live schema.
-/

open Go Interleave List

namespace Decree.SchemaAdmin

/-- The tenant has a **published version**. -/
def HasVersion (db : Catalog) (tn : Tenant) : Prop :=
  ∃ v ∈ db.versions, v.schemaID = tn.schemaID ∧ v.version = tn.schemaVersion ∧ v.published = true

/-- The tenant has a **live schema**. -/
def HasSchema (db : Catalog) (tn : Tenant) : Prop :=
  ∃ s ∈ db.schemas, s.id = tn.schemaID ∧ s.deleted = false

instance (db : Catalog) (tn : Tenant) : Decidable (HasSchema db tn) :=
  inferInstanceAs (Decidable (∃ s ∈ db.schemas, _))

/-! ### Versions -/

section Versions

variable {db db' : Catalog} {tn : Tenant}

theorem HasVersion.extends (h : HasVersion db tn) (hext : db.Extends db') : HasVersion db' tn := by
  obtain ⟨v, hv, hs, hn, hpub⟩ := h
  obtain ⟨v', hv', -, hp, hpub'⟩ := hext.versions v hv
  exact ⟨v', hv', by rw [hp, hs], by rw [hp, hn], hpub' hpub⟩

/-- The version of a tenant after statements is the one it had, or the one of a statement. -/
theorem TenantStmt.version_marks (id : String) (stmts : List TenantStmt) (tn : Tenant) :
    (stmts.foldl (fun tn stmt => stmt.mark id tn) tn).schemaVersion = tn.schemaVersion ∨
      tn.id = id ∧ ∃ v, TenantStmt.updateSchemaVersion v ∈ stmts ∧
        (stmts.foldl (fun tn stmt => stmt.mark id tn) tn).schemaVersion = v := by
  induction stmts generalizing tn with
  | nil => exact .inl rfl
  | cons stmt stmts ih =>
    rcases ih (stmt.mark id tn) with h | ⟨hid, v, hv, h⟩
    · by_cases hlive : (tn.id = id && !tn.deleted) = true
      · have hid : tn.id = id := by
          rw [Bool.and_eq_true, decide_eq_true_eq] at hlive
          exact hlive.1
        cases stmt with
        | updateSchemaVersion v =>
          exact .inr ⟨hid, v, mem_cons_self, by
            rw [foldl_cons, h]
            simp [TenantStmt.mark, hlive]⟩
        | updateName name => exact .inl (by
            rw [foldl_cons, h]
            simp [TenantStmt.mark, hlive])
        | get => exact .inl (by
            rw [foldl_cons, h]
            simp [TenantStmt.mark])
      · exact .inl (by
          rw [foldl_cons, h]
          simp [TenantStmt.mark, hlive])
    · exact .inr ⟨(stmt.mark_keeps id tn).1.symm.trans hid, v, mem_cons_of_mem _ hv, h⟩

theorem version_of_stmts {req : UpdateTenantRequest} {v : ℤ}
    (h : TenantStmt.updateSchemaVersion v ∈ req.stmts) : req.schemaVersion = some v := by
  simp only [UpdateTenantRequest.stmts, mem_append, mem_map, reduceCtorEq, and_false,
    exists_false, false_or, Option.mem_toList,
    TenantStmt.updateSchemaVersion.injEq] at h
  rcases h with ⟨w, hw, rfl⟩ | h
  · exact hw
  · split at h <;> simp at h

end Versions

section Runs

variable {aenv : AdminEnv} {callers : Callers} {allowed : AdminConfig → ℕ → CatalogChoice → Prop}
  {c : AdminConfig} {tn : Tenant}

section

variable (hr : Reach execCatalog allowed (start aenv callers) c)

include hr

theorem hasVersion_of_read {t : ℕ}
    {schemaID : String} {version : ℤ} {sv : CatalogVersion} {s : Catalog}
    (he : ⟨.read (.schemaVersion schemaID version), .ok sv, s⟩ ∈ (c.pool t).hist)
    (hpub : sv.published = true) (hschema : tn.schemaID = schemaID)
    (hversion : tn.schemaVersion = version) : HasVersion c.shared tn := by
  obtain ⟨-, heval, hext⟩ := reach_read_ok hr he
  have hfind := found_eq_ok.mp heval
  have hkey := find?_some hfind
  simp only [Bool.and_eq_true, decide_eq_true_eq] at hkey
  refine HasVersion.extends ⟨sv, mem_of_find?_eq_some hfind, ?_, ?_, hpub⟩ hext
  · rw [hkey.1, hschema]
  · rw [hkey.2, hversion]

theorem schemaID_of_read {t : ℕ}
    {idOrName : String} {tn0 : Tenant} {e : AdminEvent} (hres : ResolvedTenant idOrName tn0 e)
    (he : e ∈ (c.pool t).hist) (htn : tn ∈ c.shared.tenants) (hid : tn.id = tn0.id) :
    tn.schemaID = tn0.schemaID := by
  obtain ⟨s, hmem, hext⟩ : ∃ s : Catalog, tn0 ∈ s.tenants ∧ s.Extends c.shared := by
    rcases hres with ⟨-, s, rfl⟩ | ⟨-, s, rfl⟩
    · obtain ⟨-, heval, hext⟩ := reach_read_ok hr he
      exact ⟨s, mem_of_find?_eq_some (found_eq_ok.mp heval), hext⟩
    · obtain ⟨-, heval, hext⟩ := reach_read_ok hr he
      exact ⟨s, mem_of_find?_eq_some (found_eq_ok.mp heval), hext⟩
  obtain ⟨tn', htn', hid', hschema, -⟩ := hext.tenants tn0 hmem
  rw [inj_on_of_nodup_map (reach_wf hr).tenantIDs htn htn' (hid.trans hid'.symm), hschema]

/-- **Every tenant has a published version**, whatever is deleted or created concurrently. -/
theorem version_published : ∀ tn ∈ c.shared.tenants, HasVersion c.shared tn := by
  refine catalog_invariant (fun db => ∀ tn ∈ db.tenants, HasVersion db tn) hr (by simp [start]) ?_
  rintro c t ch o k db hr hp ih - heff tn htn
  have hext := heff.extends
  rw [heff.tenants, mem_append, mem_map, Option.mem_toList] at htn
  rcases htn with ⟨tn0, htn0, rfl⟩ | hnew
  · cases o with
    | updateTenantTx id stmts actor =>
      obtain ⟨-, hschema, -⟩ := TenantStmt.marks_keep id stmts tn0
      rcases TenantStmt.version_marks id stmts tn0 with hsame | ⟨hid, v, hv, hversion⟩
      · obtain ⟨v, hv, hs, hn, hpub⟩ := (ih tn0 htn0).extends hext
        exact ⟨v, hv, hs.trans hschema.symm, hn.trans hsame.symm, hpub⟩
      · -- the version is the one that was looked up for the schema of the tenant
        obtain ⟨caller, req, -, hw⟩ := reach_writes hr hp trivial
        generalize hh : (c.pool t).hist = h at hw
        cases hw with
        | @updateTenant req tn1 e hres h hvers =>
          obtain ⟨sv, s, hpub, rfl⟩ := hvers v (version_of_stmts hv)
          have hread : (⟨.read (.schemaVersion tn1.schemaID v), .ok sv, s⟩ : AdminEvent) ∈
              (c.pool t).hist := by simp [hh]
          have hsame := schemaID_of_read hr hres (t := t) (by simp [hh]) htn0 hid
          exact (hasVersion_of_read hr hread hpub (hschema.trans hsame) hversion).extends hext
    | deleteTenantTx id actor =>
      obtain ⟨v, hv, hs, hn, hpub⟩ := (ih tn0 htn0).extends hext
      refine ⟨v, hv, ?_, ?_, hpub⟩ <;> simp only [CatalogOp.markTenant] <;> split <;> assumption
    | _ => exact (ih tn0 htn0).extends hext
  · cases o with
    | createTenantTx name schemaID version actor =>
      cases hnew
      obtain ⟨caller, req, -, hw⟩ := reach_writes hr hp trivial
      generalize hh : (c.pool t).hist = h at hw
      cases hw with
      | @createTenant req sv hpub fields s1 s2 =>
        have hread : (⟨.read (.schemaVersion req.schemaId req.schemaVersion), .ok sv, s1⟩ :
            AdminEvent) ∈ (c.pool t).hist := by simp [hh]
        exact (hasVersion_of_read hr hread hpub rfl rfl).extends hext
    | _ => cases hnew

end

/-! ### Schemas -/

/-- The step **keeps the schemas of tenants**: a schema is deleted only while no live tenant is
bound to it, and a tenant is created only while its schema is live. -/
def KeepsSchemas (c : AdminConfig) (t : ℕ) (_ : CatalogChoice) : Prop :=
  match (c.pool t).prog with
  | .op (.deleteSchemaTx id _) _ =>
    ∀ tn ∈ c.shared.tenants, tn.schemaID = id → tn.deleted = true
  | .op (.createTenantTx _ schemaID _ _) _ =>
    ∃ s ∈ c.shared.schemas, s.id = schemaID ∧ s.deleted = false
  | _ => True

instance (c : AdminConfig) (t : ℕ) (ch : CatalogChoice) : Decidable (KeepsSchemas c t ch) := by
  unfold KeepsSchemas
  split <;> infer_instance

/-- A schema that is not deleted by an operation stays live. -/
theorem live_markSchema {o : CatalogOp} {s : CatalogSchema} (hs : s.deleted = false)
    (ho : ∀ actor, o ≠ .deleteSchemaTx s.id actor) : (o.markSchema s).deleted = false := by
  cases o with
  | deleteSchemaTx id actor =>
    have hne : s.id ≠ id := fun h => ho actor (h ▸ rfl)
    simp [CatalogOp.markSchema, hne, hs]
  | _ => exact hs

/-- **Every tenant that is not deleted is bound to a live schema and to a published version of
it**, in the runs whose steps keep the schemas of tenants. -/
theorem tenants_bound (hr : Reach execCatalog KeepsSchemas (start aenv callers) c) :
    ∀ tn ∈ c.shared.tenants, tn.deleted = false →
      HasSchema c.shared tn ∧ HasVersion c.shared tn := by
  suffices hschema : ∀ tn ∈ c.shared.tenants, tn.deleted = false → HasSchema c.shared tn from
    fun tn htn hlive => ⟨hschema tn htn hlive, version_published hr tn htn⟩
  refine hr.invariant (fun c => ∀ tn ∈ c.shared.tenants, tn.deleted = false →
    HasSchema c.shared tn) (by simp [start]) ?_
  rintro c c' t ch hr ih hkeeps hs
  obtain ⟨o, k, r, hp, hexec, -⟩ := step_eq_some hs
  obtain ⟨-, ⟨e, -, heq, -⟩ | ⟨a, hbody, -⟩⟩ := execCatalog_eq_some hexec
  · rw [heq]
    exact ih
  have heff := CatalogOp.effect hbody
  rw [KeepsSchemas, hp] at hkeeps
  -- a live schema with a live tenant is not the one that the step deletes
  have hkept : ∀ s ∈ c.shared.schemas, s.deleted = false →
      (∀ actor, o ≠ .deleteSchemaTx s.id actor) →
      ∃ s' ∈ c'.shared.schemas, s'.id = s.id ∧ s'.deleted = false := by
    intro s hs hlive hne
    refine ⟨o.markSchema s, ?_, o.markSchema_id s, live_markSchema hlive hne⟩
    rw [heff.schemas]
    exact mem_append_left _ (mem_map_of_mem hs)
  intro tn htn hlive
  rw [heff.tenants, mem_append, mem_map, Option.mem_toList] at htn
  rcases htn with ⟨tn0, htn0, rfl⟩ | hnew
  · obtain ⟨-, hschema, hdel⟩ := o.markTenant_keeps tn0
    have hlive0 : tn0.deleted = false := by
      by_contra h
      exact absurd (hdel (by simpa using h)) (by simp [hlive])
    obtain ⟨s, hs, hid, hsl⟩ := ih tn0 htn0 hlive0
    obtain ⟨s', hs', hid', hsl'⟩ := hkept s hs hsl (by
      rintro actor rfl
      exact absurd (hkeeps tn0 htn0 hid.symm) (by simp [hlive0]))
    exact ⟨s', hs', by rw [hid', hid, hschema], hsl'⟩
  · cases o with
    | createTenantTx name schemaID version actor =>
      cases hnew
      obtain ⟨s, hs, hid, hsl⟩ := hkeeps
      obtain ⟨s', hs', hid', hsl'⟩ := hkept s hs hsl (by simp)
      exact ⟨s', hs', hid'.trans hid, hsl'⟩
    | _ => cases hnew

end Runs

/-! ### A tenant without its schema -/

namespace Sample

def draw (n : ℕ) : CatalogChoice where
  ids :=
    let id := "00000000-0000-4000-8000-00000000000" ++ formatInt n
    ⟨id, id, id⟩

/-- An environment with these documents, in which a hash is its text. -/
def admin (documents : String → Except String SchemaYAML) : AdminEnv where
  env := Decree.Sample.world Decree.Sample.noDocument
  senv :=
    { yamlSchema := documents
      isHTTPS := fun _ => false
      lintValidations := fun _ _ => .ok ()
      marshalConstraints := fun _ => ""
      sha256Hex := id
      maxFields := 0
      maxDocBytes := 0
      regexPatternMaxLength := 0 }
  maxRemoveFields := 0

def bindings : Callers :=
  [(Decree.Sample.superadmin, .createSchema ⟨"limits", []⟩),
    (Decree.Sample.superadmin, .publishSchema ⟨"limits", 1⟩),
    (Decree.Sample.superadmin, .createTenant ⟨"acme", "00000000-0000-4000-8000-000000000000", 1⟩),
    (Decree.Sample.superadmin, .deleteSchema "limits")]

end Sample

open SchemaAdmin.Sample

theorem tenants_bound_acme : ∃ c : AdminConfig, Reach execCatalog KeepsSchemas
        (start (admin .error) bindings) c ∧
      ∃ tn ∈ c.shared.tenants, tn.deleted = false ∧
        HasSchema c.shared tn ∧ HasVersion c.shared tn := by
  obtain ⟨c, hr, tn, htn, hlive⟩ : ∃ c : AdminConfig, Reach execCatalog KeepsSchemas
      (start (admin .error) bindings) c ∧
      ∃ tn ∈ c.shared.tenants, tn.deleted = false :=
    exists_reach_of_run [(0, draw 0), (1, draw 1), (1, draw 1),
      (2, draw 1), (2, draw 1), (2, draw 1)] (by decide +kernel)
  exact ⟨c, hr, tn, htn, hlive, tenants_bound hr tn htn hlive⟩

/-- **A tenant whose schema is deleted**: `DeleteSchema` leaves the tenants of the schema. -/
theorem tenants_unbound : ∃ c : AdminConfig, Reach execCatalog anyStep
        (start (admin .error) bindings) c ∧
      c.returned 3 = some (.ok .done) ∧
      ∃ tn ∈ c.shared.tenants, tn.deleted = false ∧ ¬ HasSchema c.shared tn :=
  exists_reach_of_run [(0, draw 0), (1, draw 1), (1, draw 1),
    (2, draw 1), (2, draw 1), (2, draw 1), (3, draw 2),
    (3, draw 2)] (by decide +kernel)

end Decree.SchemaAdmin
