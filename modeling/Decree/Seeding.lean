import Decree.Bindings
import Decree.RuleEnforcement

/-!
# The Initial Config and the Cross-Field Rules

A tenant starts with the defaults of its schema. `CreateTenant` checks every default against
its own field and none against the `dependentRequired` rules, and `ImportSchema` checks that
the rules name declared fields, not what those fields declare.

## Main results

* `seeded_rules_iff`: when the first config satisfies the rules.
-/

open Interleave List

namespace Decree

variable {env : Env} {init : Init} {allowed : System → ℕ → Choice → Prop} {t : ℕ} {tn : Tenant}
  {sv : SchemaVersion} {c c₁ c₂ : System}

/-! ### The commit that creates a tenant -/

/-- **The commit of a new tenant**: before it the tenant is unknown, and after it the tenant
is bound to a schema and has the defaults of that schema as its config. -/
structure TenantCommit (env : Env) (init : Init) (allowed : System → ℕ → Choice → Prop) (t : ℕ)
    (tn : Tenant) (sv : SchemaVersion) (c₁ c₂ : System) : Prop where
  reach : Reach exec allowed (init.system env) c₁
  stepped : ∃ ch, allowed c₁ t ch ∧ step exec c₁ t ch = some c₂
  unknown : tn.id ∉ c₁.shared.db.tenantIDs
  bound : c₂.shared.db.boundSchema tn.id = some sv
  seeded : sv.fields.filterMap (defaultRow env) = [] ∧ c₂.shared.db.log tn.id = [] ∨
    ∃ V, c₂.shared.db.log tn.id = [V] ∧ V.values = sv.fields.filterMap (defaultRow env)

/-- **A tenant that was returned was created.** -/
theorem exists_tenantCommit (hr : Reach exec allowed (init.system env) c)
    (hret : c.returned t = some (.ok (.tenant tn))) :
    ∃ sv c₁ c₂, TenantCommit env init allowed t tn sv c₁ c₂ ∧ Reach exec allowed c₂ c := by
  have hafter := returned_runs hr hret
  cases Call.late (q := .ret (.ok (.tenant tn))) trivial hafter with
  | repeated hq => cases hq
  | reading hread hshows => exact absurd (hshows _ rfl) id
  | locking hkey hwrite hl =>
    obtain ⟨T, audit, pre, post, -, -, -, -, hat⟩ := hl
    obtain ⟨_, _, _, _, _, hq, -⟩ := hat.returned
    cases hq
  | writing hw =>
    obtain ⟨w, audit, rest, pre, post, -, -, -, -, -, -, hat⟩ := hw
    obtain ⟨_, _, _, _, _, hq, -⟩ := hat.returned
    cases hq
  | @seeding caller req hcall hs =>
    obtain ⟨defaults, pre, post, hh, -, hdef, -, hat⟩ := hs
    obtain ⟨pre', att, tn', s, post', hq, -, hatt, -, rfl⟩ := hat.returned
    cases hq
    have hh' : (c.pool t).hist = (pre ++ (pre' ++ att)) ++ commitEvent s :: post' := by
      rw [hh]
      simp
    obtain ⟨ch, c₁, c₂, hstep⟩ := hr.event rfl hh'
    obtain ⟨tx, htx, hdb⟩ := exec_commit hstep.answer
    rw [← hstep.pre] at htx hdb
    have hrep := reach_txs hstep.reach t
    rw [htx, hstep.hist, ← append_assoc, replay_append] at hrep
    obtain ⟨⟨s', hten⟩, htenant, hversion⟩ := replay_createTenantTx hatt hrep.symm
    have hfresh := ((reach_consistent hstep.reach).newTenant _ _ _ htx htenant).2
    have hempty : c₁.shared.db.log tn.id = [] := by
      by_contra hne
      exact hfresh ((reach_consistent hstep.reach).tenanted _ hne)
    obtain ⟨sv, hbound, hrows⟩ := boundSchema_of_created hstep.reach htx htenant
      (hstep.hist ▸ mem_append_right _ (mem_append_right _ hten))
      (hdef.mono (hstep.hist ▸ sub_here))
    have hdefaults := rows_of_collectDefaultValues hrows
    refine ⟨sv, c₁, c₂, ⟨hstep.reach, ⟨ch, hstep.admitted, hstep.stepped⟩, hfresh,
      hdb ▸ hbound, ?_⟩, hstep.rest⟩
    rw [hdb, Tx.apply_log, hempty, nil_append, Tx.added, ← hdefaults]
    obtain ⟨hnil, hnone⟩ | ⟨V, hV, hseed⟩ := hversion
    · exact .inl ⟨hnil, by rw [hnone]⟩
    · exact .inr ⟨V, by simp [hV], hseed.values⟩

/-! ### The initial snapshot -/

/-- The tenant's config at its latest version. -/
def latestConfig (c : System) (tenantID : String) : List ConfigValue :=
  fullConfigAtVersion (c.shared.db.log tenantID) (c.shared.db.log tenantID).length

def DeclaresDefault (sv : SchemaVersion) (fieldPath : String) : Prop :=
  ∃ f ∈ sv.fields, f.path = fieldPath ∧ f.defaultValue ≠ none

theorem TenantCommit.mem_latestConfig (hc : TenantCommit env init allowed t tn sv c₁ c₂)
    {row : ConfigValue} :
    row ∈ latestConfig c₂ tn.id ↔ row ∈ sv.fields.filterMap (defaultRow env) := by
  obtain ⟨ch, ha, hs⟩ := hc.stepped
  have hdense := reach_dense (hc.reach.tail ha hs) tn.id
  rw [latestConfig, mem_fullConfigAtVersion]
  obtain ⟨hnil, hlog⟩ | ⟨V, hlog, hvalues⟩ := hc.seeded
  · rw [hlog, hnil]
    simp
  · rw [hlog] at hdense ⊢
    have hone : V.version = 1 := Dense.last_number (L := []) hdense
    have hrow : configValueAtVersion [V] V.version row.fieldPath = V.row row.fieldPath := by
      rw [← nil_append [V], configValueAtVersion_append hdense, configValueAtVersion_nil,
        Option.or_none]
    rw [length_singleton, Nat.cast_one, ← hone, hrow, ← hvalues, ConfigVersion.row_eq_some_iff_mem]

theorem TenantCommit.hasValue_iff (hc : TenantCommit env init allowed t tn sv c₁ c₂)
    {fieldPath : String} :
    HasValue (latestConfig c₂ tn.id) fieldPath ↔ DeclaresDefault sv fieldPath := by
  simp only [HasValue, hc.mem_latestConfig, mem_filterMap, defaultRow,
    Option.map_eq_some_iff, DeclaresDefault]
  constructor
  · rintro ⟨_, ⟨f, hf, d, hd, rfl⟩, rfl, -⟩
    exact ⟨f, hf, rfl, by simp [hd]⟩
  · rintro ⟨f, hf, rfl, hne⟩
    obtain ⟨d, hd⟩ := Option.ne_none_iff_exists'.mp hne
    exact ⟨_, ⟨f, hf, d, hd, rfl⟩, rfl, by simp⟩

namespace Sample

theorem nodup_seedTriggers : ([("a", ["b"])].map Prod.fst).Nodup := by
  decide

def seedDocument (a b : String) : SchemaYAML where
  specVersion := "v1"
  name := "limits"
  fields := [("a", { type := "integer", default := a }), ("b", { type := "string", default := b })]
  dependentRequired := [("a", ["b"])]
  nodup := by simp
  nodup_triggers := nodup_seedTriggers

def seedID : String :=
  "00000000-0000-4000-8000-000000000000"

def seedSchema (a b : String) : SchemaVersion where
  id := "00000000-0000-4000-8000-000000000001"
  schemaID := seedID
  version := 1
  published := true
  dependentRequired := [⟨"a", ["b"]⟩]
  validations := []
  fields :=
    [{ path := "a", fieldType := .integer, defaultValue := ptrString a },
      { path := "b", fieldType := .string, defaultValue := ptrString b }]
  nodup := by simp

def seedInit (a b : String) : Init where
  tenants := []
  schemas := ⟨[seedSchema a b], by simp⟩
  locks _ := []
  calls _ := .createTenant superadmin ⟨"acme", seedID, 1⟩

def seedImport (a b : String) : SchemaAdmin.AdminConfig :=
  SchemaAdmin.start (SchemaAdmin.Sample.admin fun _ => .ok (seedDocument a b))
    [(superadmin, .importSchema ⟨"", true⟩)]

def imports (sv : SchemaVersion) : Except CatalogErr SchemaAdmin.AdminReply → Bool
  | .ok (.schema s) => s.version.id = sv.id && s.version.schemaID = sv.schemaID &&
      s.version.version = sv.version && s.version.published = sv.published &&
      s.version.dependentRequired = sv.dependentRequired &&
      s.version.validations.map (·.toValidationRule) = sv.validations && s.fields = sv.fields
  | _ => false

def seedDraws : List (ℕ × CatalogChoice) :=
  [0, 0, 1, 2, 2, 2].map fun n => (0, SchemaAdmin.Sample.draw n)

def seedTenant : Tenant :=
  ⟨tenant, "acme", seedID, 1, false⟩

def seedSteps : List (ℕ × Choice) :=
  steps 0 3 ++ [(0, .uuid tenant)] ++ steps 0 4

end Sample

open Sample

/-- **When the initial config satisfies the rules**: a tenant that was created has, right
after the commit that creates it, a snapshot that satisfies the `dependentRequired` rules of
its schema exactly when every trigger that declares a default has dependents that do. -/
theorem seeded_rules_iff (hr : Reach exec anyStep (init.system env) c)
    (hret : c.returned t = some (.ok (.tenant tn))) :
    ∃ sv c₁ c₂, TenantCommit env init anyStep t tn sv c₁ c₂ ∧ Reach exec anyStep c₂ c ∧
      (DependentsHold sv.dependentRequired (latestConfig c₂ tn.id) ↔
        ∀ e ∈ sv.dependentRequired, DeclaresDefault sv e.triggerField →
          ∀ d ∈ e.dependentFields, DeclaresDefault sv d) := by
  obtain ⟨sv, c₁, c₂, hc, hr2⟩ := exists_tenantCommit hr hret
  refine ⟨sv, c₁, c₂, hc, hr2, ?_⟩
  simp only [DependentsHold, hc.hasValue_iff]

theorem seeded_rules_iff_both_defaults :
    ∃ c₁ c₂, TenantCommit (world noDocument) (seedInit "7" "x") anyStep 0
        seedTenant (seedSchema "7" "x") c₁ c₂ ∧
      DependentsHold (seedSchema "7" "x").dependentRequired (latestConfig c₂ seedTenant.id) := by
  obtain ⟨c, hr, hret, hsv⟩ : ∃ c, Reach exec anyStep
      ((seedInit "7" "x").system (world noDocument)) c ∧
      c.returned 0 = some (.ok (.tenant seedTenant)) ∧
      c.shared.db.boundSchema seedTenant.id = some (seedSchema "7" "x") :=
    exists_reach_of_run seedSteps (by decide +kernel)
  obtain ⟨sv, c₁, c₂, hc, hr2, hiff⟩ := seeded_rules_iff hr hret
  obtain rfl : sv = seedSchema "7" "x" :=
    Option.some.inj (((reach_le hr2).boundSchema hc.bound).symm.trans hsv)
  refine ⟨c₁, c₂, hc, hiff.mpr ?_⟩
  simp [seedSchema, DeclaresDefault, ptrString]

/-- **An imported schema whose defaults break its rules**: `a` has a default, and `b`, which
it requires, has none. -/
theorem seeded_rules_broken : (∃ c, Reach execCatalog anyStep (seedImport "7" "") c ∧
        (c.returned 0).any (imports (seedSchema "7" "")) = true) ∧
      ∃ c, Reach exec anyStep ((seedInit "7" "").system (world noDocument)) c ∧
        c.returned 0 = some (.ok (.tenant seedTenant)) ∧
        c.shared.db.boundSchema seedTenant.id = some (seedSchema "7" "") ∧
        ¬ DependentsHold (seedSchema "7" "").dependentRequired (latestConfig c seedTenant.id) :=
  ⟨exists_reach_of_run seedDraws (by decide +kernel),
    exists_reach_of_run seedSteps (by decide +kernel)⟩

end Decree
