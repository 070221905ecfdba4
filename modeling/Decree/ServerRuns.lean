import Decree.Runs
import Decree.ValidatorFactory

/-!
# Runs of the Server

What holds in every configuration that a run of the server reaches. Beside the operations of
the calls only `UpdateTenant` writes to the tables, and it changes the names and the schema
versions of tenants only (`State.Rebound`): logs still grow, the schemas stay, and a tenant
keeps its schema (`State.Follows`). What a call has done is a trace of its program as it was
written for the system (`reach_call`).

## Main results

* `execServer_cases`: what a step does to the store.
* `server_follows`: the states of a run are in order.
* `reach_call`: a call is a trace of the system.
-/

open Interleave List

namespace Decree

variable {env : Env} {init : ServerInit} {allowed : ServerSystem → ℕ → ServerChoice → Prop}
  {d d' : ServerSystem} {t : ℕ} {ch : ServerChoice} {s s' : State}

abbrev ServerEvent := Event (Both Op.Resp ServerOp.Resp) Server

abbrev ServerHist := List ServerEvent

/-! ### The update of a tenant -/

/-- Tenants keep their identifier and their schema, and are not deleted. -/
def KeepsTenants (f : Tenant → Tenant) : Prop :=
  ∀ tn, (f tn).id = tn.id ∧ (f tn).schemaID = tn.schemaID ∧ (f tn).deleted = tn.deleted

/-- The tables with **other names and schema versions** of tenants, and more audit entries. -/
structure Tables.Rebound (db db' : Tables) : Prop where
  tenants : ∃ f, KeepsTenants f ∧ db'.tenants = db.tenants.map f
  schemas : db'.schemas = db.schemas
  log : db'.log = db.log
  locks : db'.locks = db.locks

theorem Tables.Rebound.refl (db : Tables) : db.Rebound db :=
  ⟨⟨id, fun _ => ⟨rfl, rfl, rfl⟩, (map_id _).symm⟩, rfl, rfl, rfl⟩

/-- Rebindings compose. -/
theorem Tables.Rebound.trans {db1 db2 db3 : Tables} (h : db1.Rebound db2)
    (h' : db2.Rebound db3) : db1.Rebound db3 := by
  obtain ⟨f, hf, hten⟩ := h.tenants
  obtain ⟨g, hg, hten'⟩ := h'.tenants
  refine ⟨⟨g ∘ f, fun tn => ?_, ?_⟩, h'.schemas.trans h.schemas, h'.log.trans h.log,
    h'.locks.trans h.locks⟩
  · obtain ⟨hid, hschema, hdel⟩ := hf tn
    obtain ⟨hid', hschema', hdel'⟩ := hg (f tn)
    exact ⟨hid'.trans hid, hschema'.trans hschema, hdel'.trans hdel⟩
  · rw [hten', hten, map_map]

/-- A changed row of a tenant is a rebinding. -/
theorem Tables.rebound_mapTenant {f : Tenant → Tenant} (hf : KeepsTenants f) (db : Tables)
    (id : String) : db.Rebound (db.mapTenant id f) := by
  refine ⟨⟨fun tn => if tn.id = id && !tn.deleted then f tn else tn, fun tn => ?_, rfl⟩, rfl, rfl,
    rfl⟩
  by_cases h : (tn.id = id && !tn.deleted) = true
  · simp only [h, if_true]
    exact hf tn
  · simp only [h]
    exact ⟨rfl, rfl, rfl⟩

variable {id : String} {tn : Tenant} {stmts : List TenantStmt} {audit : AuditEntry} {σ σ' : Server}

variable {db db' : Tables} {r : Except TenantTxErr Tenant} {o : Op ⊕ ServerOp}

/-- A statement rebinds the tenant. -/
theorem TenantStmt.exec_ok {stmt : TenantStmt}
    (h : stmt.exec id db = .ok (tn, db')) : tn.id = id ∧ db.Rebound db' := by
  rw [TenantStmt.exec] at h
  split at h
  · cases h
  rename_i tn0 hrow
  have hid : tn0.id = id := by
    have hfound := find?_some hrow
    rw [Bool.and_eq_true, decide_eq_true_eq] at hfound
    exact hfound.1
  cases stmt with
  | updateName name =>
    simp only at h
    split at h
    · cases h
    · cases h
      refine ⟨hid, Tables.rebound_mapTenant (fun _ => ?_) db id⟩
      exact ⟨rfl, rfl, rfl⟩
  | updateSchemaVersion version =>
    cases h
    refine ⟨hid, Tables.rebound_mapTenant (fun _ => ?_) db id⟩
    exact ⟨rfl, rfl, rfl⟩
  | get =>
    cases h
    exact ⟨hid, .refl _⟩

/-- A transaction returns the row of its tenant, if it has a statement. -/
theorem execTenantStmts_ok {tn' : Tenant} (h : execTenantStmts id stmts tn db = .ok (tn', db')) :
    (stmts = [] ∧ tn' = tn ∨ tn'.id = id) ∧ db.Rebound db' := by
  induction stmts generalizing tn db with
  | nil =>
    cases h
    exact ⟨.inl ⟨rfl, rfl⟩, .refl _⟩
  | cons stmt stmts ih =>
    rw [execTenantStmts] at h
    split at h
    · cases h
    · rename_i tn1 db1 hstmt
      obtain ⟨hid, hre⟩ := TenantStmt.exec_ok hstmt
      obtain ⟨⟨-, rfl⟩ | hid', hre'⟩ := ih h
      · exact ⟨.inr hid, hre.trans hre'⟩
      · exact ⟨.inr hid', hre.trans hre'⟩

/-- Nothing but the tables has changed, and those as an update of a tenant changes them. -/
def State.Rebound (s s' : State) : Prop :=
  s.db.Rebound s'.db ∧ s' = { s with db := s'.db }

/-- `UpdateTenant` only rebinds. -/
theorem execUpdateTenant_rebound {ch : Choice}
    (h : execUpdateTenant ch t id stmts audit s = some (r, s')) : s.Rebound s' := by
  rw [execUpdateTenant] at h
  split at h
  · cases h
    exact ⟨.refl _, rfl⟩
  · split at h
    · cases h
    · split at h
      · cases h
        exact ⟨.refl _, rfl⟩
      · rename_i tn db hstmts
        cases h
        obtain ⟨hten, hschemas, hlog, hlocks⟩ := (execTenantStmts_ok hstmts).2
        exact ⟨⟨hten, hschemas, hlog, hlocks⟩, rfl⟩

/-- `UpdateTenant` returns its tenant. -/
theorem execUpdateTenant_id {ch : Choice} (hne : stmts ≠ [])
    (h : execUpdateTenant ch t id stmts audit s = some (.ok tn, s')) : tn.id = id := by
  rw [execUpdateTenant] at h
  split at h
  · cases h
  · split at h
    · cases h
    · split at h
      · cases h
      · rename_i tn' db hstmts
        split at h
        · cases h
        · obtain ⟨htn, -⟩ := answer_inj h
          cases htn
          exact (execTenantStmts_ok hstmts).1.resolve_left fun h => hne h.1

/-- A tenant is found where it was, as the update has changed it. -/
theorem Tables.Rebound.tenantByID (h : db.Rebound db') (id : String) :
    ∃ f, KeepsTenants f ∧ db'.tenantByID id = (db.tenantByID id).map f := by
  obtain ⟨f, hf, hten⟩ := h.tenants
  refine ⟨f, hf, ?_⟩
  rw [Tables.tenantByID, hten, find?_map, Tables.tenantByID]
  congr 2
  funext tn
  simp [(hf tn).1, (hf tn).2.2]

/-! ### Steps -/

/-- An operation of a call is answered as in the system, or it is a lookup of the factory. -/
theorem execCall_cases {o : Op} {r : o.Resp} (h : execCall ch t o s = some (r, s')) :
    exec ch.choice t o s = some (r, s') ∨ s' = s ∧ ∃ inTx T, o = .read inTx (.boundSchema T) := by
  rw [execCall.eq_def] at h
  split at h
  · split at h
    · split at h
      · cases h
        exact .inr ⟨rfl, _, _, rfl⟩
      · cases h
    · exact .inl h
  · exact .inl h

/-- An operation of a call leaves the caches. -/
theorem execServer_inl {o : Op} {r : o.Resp} (h : execServer ch t (.inl o) σ = some (r, σ')) :
    execCall ch t o σ.store = some (r, σ'.store) ∧ σ'.caches = σ.caches ∧
      σ'.programs = σ.programs := by
  obtain ⟨p, hp, hp'⟩ := Option.map_eq_some_iff.mp h
  cases hp'
  exact ⟨hp, rfl, rfl⟩

/-- `UpdateTenant` leaves the caches. -/
theorem execServer_updateTenant
    (h : execServer ch t (.inr (.updateTenant id stmts audit)) σ = some (r, σ')) :
    execUpdateTenant ch.choice t id stmts audit σ.store = some (r, σ'.store) ∧
      σ'.caches = σ.caches ∧ σ'.programs = σ.programs := by
  obtain ⟨p, hp, hp'⟩ := Option.map_eq_some_iff.mp h
  cases hp'
  exact ⟨hp, rfl, rfl⟩

/-- **What a step does to the store**: nothing, what an operation of a call does, or the update
of a tenant. -/
theorem execServer_cases {r : Both Op.Resp ServerOp.Resp o}
    (h : execServer ch t o σ = some (r, σ')) :
    σ'.store = σ.store ∨ (∃ (o' : Op) (r' : o'.Resp), o = .inl o' ∧
        exec ch.choice t o' σ.store = some (r', σ'.store)) ∨
      (∃ id stmts audit, o = .inr (.updateTenant id stmts audit)) ∧ σ.store.Rebound σ'.store := by
  obtain o | o := o
  · obtain ⟨hcall, -, -⟩ := execServer_inl h
    rcases execCall_cases hcall with hexec | ⟨hsame, -⟩
    · exact .inr (.inl ⟨o, r, rfl, hexec⟩)
    · exact .inl hsame
  · cases o with
    | updateTenant id stmts audit =>
      exact .inr (.inr ⟨⟨id, stmts, audit, rfl⟩,
        execUpdateTenant_rebound (execServer_updateTenant h).1⟩)
    | load k T =>
      rw [execServer, execServerOp] at h
      split at h <;> obtain ⟨-, rfl⟩ := answer_inj h <;> exact .inl rfl
    | loadOrStoreProgram key prog =>
      rw [execServer, execServerOp] at h
      split at h <;> obtain ⟨-, rfl⟩ := answer_inj h <;> exact .inl rfl
    | store | delete | loadProgram =>
      cases h
      exact .inl rfl

/-! ### The order of states -/

/-- The state **follows** another: logs have grown, the schemas are the same, and tenants are
still there, with their schema. -/
structure State.Follows (s s' : State) : Prop where
  log : ∀ T, s.db.log T <+: s'.db.log T
  schemas : s'.db.schemas = s.db.schemas
  tenants : ∀ id tn, s.db.tenantByID id = some tn →
    ∃ tn', s'.db.tenantByID id = some tn' ∧ tn'.schemaID = tn.schemaID

theorem State.Follows.refl (s : State) : s.Follows s :=
  ⟨fun _ => prefix_rfl, rfl, fun _ tn h => ⟨tn, h, rfl⟩⟩

/-- States follow one another. -/
theorem State.Follows.trans {s1 s2 s3 : State} (h : s1.Follows s2) (h' : s2.Follows s3) :
    s1.Follows s3 := by
  refine ⟨fun T => (h.log T).trans (h'.log T), h'.schemas.trans h.schemas, fun id tn htn => ?_⟩
  obtain ⟨tn', htn', hschema⟩ := h.tenants id tn htn
  obtain ⟨tn'', htn'', hschema'⟩ := h'.tenants id tn' htn'
  exact ⟨tn'', htn'', hschema'.trans hschema⟩

/-- A state that has grown follows. -/
theorem State.le.follows (h : s.le s') : s.Follows s' :=
  ⟨h.log, h.schemas, fun _ tn htn => ⟨tn, h.tenants.find?_eq_some htn, rfl⟩⟩

/-- A rebound state follows. -/
theorem State.Rebound.follows (h : s.Rebound s') : s.Follows s' := by
  obtain ⟨hdb, -⟩ := h
  refine ⟨fun T => by rw [hdb.log], hdb.schemas, fun id tn htn => ?_⟩
  obtain ⟨f, hf, hmap⟩ := hdb.tenantByID id
  exact ⟨f tn, by rw [hmap, htn]; rfl, (hf tn).2.1⟩

/-- **Every operation is followed.** -/
theorem execServer_follows {r : Both Op.Resp ServerOp.Resp o}
    (h : execServer ch t o σ = some (r, σ')) : σ.store.Follows σ'.store := by
  rcases execServer_cases h with hsame | ⟨o', r', -, hexec⟩ | ⟨-, hre⟩
  · rw [hsame]
    exact .refl _
  · exact (exec_le hexec).follows
  · exact hre.follows

/-- **The states of a run are in order.** -/
theorem server_follows {d0 : ServerSystem} (hr : Reach execServer allowed d0 d) :
    d0.shared.store.Follows d.shared.store := by
  refine hr.invariant (fun d => d0.shared.store.Follows d.shared.store) (.refl _) ?_
  intro d d' t ch _ ih _ hs
  obtain ⟨o, k, r, -, he, -⟩ := step_eq_some hs
  exact ih.trans (execServer_follows he)

/-! ### Events -/

section

variable (hr : Reach execServer allowed (init.system env) d)

include hr

/-- An event of a history was a step. -/
theorem server_event {e : ServerEvent} (he : e ∈ (d.pool t).hist) :
    ∃ ch d1 d2, Reach execServer allowed (init.system env) d1 ∧ d1.shared = e.pre ∧
      execServer ch t e.op e.pre = some (e.resp, d2.shared) ∧ Reach execServer allowed d2 d := by
  obtain ⟨h1, ch, d1, d2, hstep⟩ := hr.event_of_mem rfl he
  exact ⟨ch, d1, d2, hstep.reach, hstep.pre, hstep.answer, hstep.rest⟩

/-- The state follows that of every event. -/
theorem server_behind {e : ServerEvent}
    (he : e ∈ (d.pool t).hist) : e.pre.store.Follows d.shared.store := by
  obtain ⟨ch, d1, d2, -, -, hexec, hr2⟩ := server_event hr he
  exact (execServer_follows hexec).trans (server_follows hr2)

/-- The schemas are those of the start. -/
theorem server_schemas : d.shared.store.db.schemas = init.schemas := (server_follows hr).schemas

end

abbrev serverRead (q : Query) (r : Except StoreErr q.Result) (σ : Server) : ServerEvent :=
  ⟨.inl (.read false q), r, σ⟩

section

variable (hr : Reach execServer allowed (init.system env) d)

include hr

/-- **A read of the store** that succeeded returned what the tables said. -/
theorem server_read {q : Query} {a : q.Result}
    (hq : ∀ T, q ≠ .boundSchema T) (he : serverRead q (.ok a) σ ∈ (d.pool t).hist) :
    σ.store.db.eval q = .ok a := by
  obtain ⟨ch, d1, d2, -, -, hexec, -⟩ := server_event hr he
  rcases execCall_cases (execServer_inl hexec).1 with h | ⟨-, inTx, T, ho⟩
  · rcases exec_read h with hfail | hread
    · cases hfail
    · exact hread.symm
  · exact absurd (Op.read.inj ho).2 (hq T)

/-- A request is at some point of its program. -/
theorem server_after (t : ℕ) :
    After ((init.requests t).prog env) (d.pool t).hist (d.pool t).prog := by
  obtain ⟨evs, hh, ha⟩ := hr.after t
  have hnil : ((init.system env).pool t).hist = [] := rfl
  rw [hnil, nil_append] at hh
  rw [hh]
  exact ha

def callHist (d : ServerSystem) (t : ℕ) : Hist :=
  lefts Server.store (d.pool t).hist

/-- **What a call has done** is a trace of its program in the system. -/
theorem reach_call {call : Call} (hcall : init.requests t = .call call) :
    ∃ q, (d.pool t).prog = (q.left >>= fun r => .ret (.reply r)) ∧
      After (call.proc env).run (callHist d t) q := by
  have hafter := server_after hr t
  rw [hcall] at hafter
  obtain ⟨q', hq', hafter'⟩ := after_map hafter
  obtain ⟨q, rfl, hq⟩ := after_left Server.store hafter'
  exact ⟨q, hq', hq⟩

/-! ### Schemas -/

/-- A version that was read is still there. -/
theorem schemaVersion_now {sv : SchemaVersion}
    (he : serverRead (.schemaVersion tn.schemaID tn.schemaVersion) (.ok sv) σ ∈ (d.pool t).hist) :
    d.shared.store.db.schemaVersion tn.schemaID tn.schemaVersion = some sv := by
  rw [Tables.schemaVersion, (server_behind hr he).schemas]
  exact found_eq_ok.mp (server_read hr (by simp) he)

/-- Fields that were read are still those. -/
theorem fields_now {sv : SchemaVersion}
    {fields : List SchemaField} (hsv : sv ∈ d.shared.store.db.schemas.versions)
    (he : serverRead (.schemaFields sv.id) (.ok fields) σ ∈ (d.pool t).hist) :
    fields = sv.fields := by
  have hread : σ.store.db.schemaFields sv.id = fields := Except.ok.inj (server_read hr (by simp) he)
  rw [← hread]
  refine Tables.schemaFields_of_mem ?_
  rw [← (server_behind hr he).schemas]
  exact hsv

end

end Decree
