import Decree.CacheContents
import Decree.ServerCalls
import Decree.StaleLookups

/-!
# Cached Config of Tenants that Are Rebound

The cache of `GetConfig` holds the values of a version as they were shown when they were
fetched: redacted by the schema version that the tenant was bound to at that time. An
`UpdateTenant` that binds the tenant to another schema version leaves them as they are. So a hit
shows a value that a fetch would redact, and the other way round.

It does not in runs in which a tenant is only bound to versions that redact the rows of its log in
the same way, and in which the versions that are named exist.

## Main results

* `held_shows`: what the cache holds is what is shown.
* `cachedAnswers_fresh`: answers are those of a miss.
-/

open Interleave List

namespace Decree

variable {env : Env} {init : ServerInit} {d d' : ServerSystem} {t : ℕ} {ch : ServerChoice}
  {s s' : State} {T : String} {v : ℤ} {values : CachedValues} {tn tn₀ : Tenant} {id : String}
  {db db' : Tables} {stmts : List TenantStmt} {h₁ h₂ : Hist} {e : Event Op.Resp State}
  {allowed : ServerSystem → ℕ → ServerChoice → Prop} {sv : SchemaVersion} {named : ℕ → Option ℤ}

/-! ### A miss -/

/-- What a **miss** returns at a state: the fetch, run alone. -/
def missAt (s : State) (t : ℕ) (T : String) (v : ℤ) : Option (Except Status CachedValues) :=
  (runAlone exec .ok t (fetchAndCacheConfig T v).run s).map Prod.fst

/-- A program runs on where a part of it has succeeded. -/
theorem runAlone_bind_ok {α β : Type} {x : Proc Status α} {a : α}
    (h : runAlone exec .ok t x.run s = some (.ok a, s')) (f : α → Proc Status β) :
    runAlone exec .ok t (x >>= f).run s = runAlone exec .ok t (f a).run s' := by
  rw [ExceptT.run_bind, runAlone_bind, h]
  rfl

/-- A read alone. -/
theorem runAlone_fetch {q : Query} {a : q.Result} (h : s.db.eval q = .ok a)
    (onError : StoreErr → Status) :
    runAlone exec .ok t (fetch false q onError).run s = some (.ok a, s) := by
  have hread : exec .ok t (.read false q) s = some (.ok a, s) := by
    rw [← h]
    rfl
  rw [fetch, ask, ExceptT.run_mk, runAlone, hread]
  rfl

theorem runAlone_getSchemaFieldSets (h : s.db.boundSchema T = some sv) :
    runAlone exec .ok t (getSchemaFieldSets T).run s = some (.ok sv.fields, s) := by
  obtain ⟨tn, htn, hversion⟩ := Option.bind_eq_some_iff.mp h
  have hfields := Tables.schemaFields_of_mem (mem_of_find?_eq_some hversion)
  rw [getSchemaFieldSets,
    runAlone_bind_ok (runAlone_fetch (q := .tenantByID T) (found_eq_ok.mpr htn) _),
    runAlone_bind_ok (runAlone_fetch (q := .schemaVersion _ _) (found_eq_ok.mpr hversion) _)]
  exact runAlone_fetch (q := .schemaFields _) (congrArg Except.ok hfields) _

/-- A miss answers with what is shown. -/
theorem missAt_of_shows (h : s.Shows T v values) : missAt s t T v = some (.ok values) := by
  obtain ⟨-, sv, hsv, rfl⟩ := h
  rw [missAt, fetchAndCacheConfig, runAlone_bind_ok (runAlone_fetch rfl _), getSensitiveFieldSet,
    runAlone_bind_ok (runAlone_getSchemaFieldSets hsv)]
  rfl

/-! ### What an update changes -/

/-- The schema version that a statement binds its tenant to. -/
def TenantStmt.bindsTo : TenantStmt → Option ℤ
  | updateSchemaVersion version => some version
  | updateName _ | get => none

/-- The row of a tenant after an update. -/
theorem Tables.tenantByID_mapTenant {f : Tenant → Tenant} (hf : KeepsTenants f) (db : Tables)
    (id T : String) (h : db.tenantByID T = some tn) :
    (db.mapTenant id f).tenantByID T = some (if T = id then f tn else tn) := by
  have hfound := find?_some h
  rw [Bool.and_eq_true, decide_eq_true_eq] at hfound
  have hkeeps : ∀ tn : Tenant, (decide ((if tn.id = id && !tn.deleted then f tn else tn).id = T) &&
      !(if tn.id = id && !tn.deleted then f tn else tn).deleted) =
      (decide (tn.id = T) && !tn.deleted) := by
    intro tn
    by_cases hid : (tn.id = id && !tn.deleted) = true
    · rw [if_pos hid, (hf tn).1, (hf tn).2.2]
    · rw [if_neg hid]
  rw [Tables.tenantByID] at h
  rw [Tables.tenantByID, Tables.mapTenant, find?_map]
  simp only [Function.comp_def, hkeeps, h, Option.map_some, hfound.1, hfound.2, Bool.and_true,
    decide_eq_true_eq]

/-- A tenant after a statement: it has its schema, and its version or the one that the statement
binds it to. -/
theorem TenantStmt.exec_binding {stmt : TenantStmt} (h : stmt.exec id db = .ok (tn₀, db'))
    (hT : db.tenantByID T = some tn) :
    ∃ tn', db'.tenantByID T = some tn' ∧ tn'.schemaID = tn.schemaID ∧
      (tn'.schemaVersion = tn.schemaVersion ∨ T = id ∧ stmt.bindsTo = some tn'.schemaVersion) := by
  rw [TenantStmt.exec] at h
  split at h
  · cases h
  cases stmt with
  | updateName name =>
    simp only at h
    split at h
    · cases h
    · cases h
      refine ⟨_, db.tenantByID_mapTenant (fun _ => ?_) id T hT, ?_, .inl ?_⟩
      · exact ⟨rfl, rfl, rfl⟩
      all_goals split <;> rfl
  | updateSchemaVersion version =>
    cases h
    refine ⟨_, db.tenantByID_mapTenant (fun _ => ?_) id T hT, ?_, ?_⟩
    · exact ⟨rfl, rfl, rfl⟩
    · split <;> rfl
    · split
      · exact .inr ⟨‹_›, rfl⟩
      · exact .inl rfl
  | get =>
    cases h
    exact ⟨tn, hT, rfl, .inl rfl⟩

/-- The binding after the statements. -/
theorem execTenantStmts_binding {tn1 : Tenant}
    (h : execTenantStmts id stmts tn₀ db = .ok (tn1, db')) (hT : db.tenantByID T = some tn) :
    ∃ tn', db'.tenantByID T = some tn' ∧ tn'.schemaID = tn.schemaID ∧
      (tn'.schemaVersion = tn.schemaVersion ∨
        T = id ∧ tn'.schemaVersion ∈ stmts.filterMap TenantStmt.bindsTo) := by
  induction stmts generalizing tn₀ db tn with
  | nil =>
    cases h
    exact ⟨tn, hT, rfl, .inl rfl⟩
  | cons stmt stmts ih =>
    rw [execTenantStmts] at h
    split at h
    · cases h
    · rename_i tn2 db2 hstmt
      obtain ⟨tn', hT', hschema, hversion⟩ := TenantStmt.exec_binding hstmt hT
      obtain ⟨tn'', hT'', hschema', hversion'⟩ := ih h hT'
      refine ⟨tn'', hT'', hschema'.trans hschema, ?_⟩
      rcases hversion' with hsame | ⟨hid, hmem⟩
      · rcases hversion with hsame' | ⟨hid, hbinds⟩
        · exact .inl (hsame.trans hsame')
        · refine .inr ⟨hid, mem_filterMap.mpr ⟨stmt, mem_cons_self, ?_⟩⟩
          rw [hsame, hbinds]
      · refine .inr ⟨hid, ?_⟩
        obtain ⟨stmt', hstmt', hbinds⟩ := mem_filterMap.mp hmem
        exact mem_filterMap.mpr ⟨stmt', mem_cons_of_mem _ hstmt', hbinds⟩

/-- The binding after the transaction. -/
theorem execUpdateTenant_binding {ch : Choice} {audit : AuditEntry} {r : Except TenantTxErr Tenant}
    (h : execUpdateTenant ch t id stmts audit s = some (r, s')) (hT : s.db.tenantByID T = some tn) :
    ∃ tn', s'.db.tenantByID T = some tn' ∧ tn'.schemaID = tn.schemaID ∧
      (tn'.schemaVersion = tn.schemaVersion ∨
        T = id ∧ tn'.schemaVersion ∈ stmts.filterMap TenantStmt.bindsTo) := by
  rw [execUpdateTenant] at h
  split at h
  · cases h
    exact ⟨tn, hT, rfl, .inl rfl⟩
  · split at h
    · cases h
    · split at h
      · cases h
        exact ⟨tn, hT, rfl, .inl rfl⟩
      · rename_i tn1 db hstmts
        cases h
        obtain ⟨tn', hT', hrest⟩ := execTenantStmts_binding hstmts hT
        exact ⟨tn', hT', hrest⟩

/-! ### Runs that keep the redaction -/

/-- **The redaction is kept**: the schema version exists, and redacts the rows of the tenant's
log as the one does that the tenant is bound to. -/
def Tables.SameRedaction (db : Tables) (T : String) (version : ℤ) : Prop :=
  ∀ tn ∈ db.tenantByID T, ∃ sv' ∈ db.schemaVersion tn.schemaID version,
    ∀ sv ∈ db.boundSchema T, ∀ V ∈ db.log T, ∀ row ∈ V.values,
      isSensitive sv'.fields row.fieldPath = isSensitive sv.fields row.fieldPath

instance (version : ℤ) : Decidable (db.SameRedaction T version) :=
  inferInstanceAs (Decidable (∀ _ ∈ _, _))

def Request.namedVersion : Request → Option ℤ
  | call (.getConfig _ req) => req.version
  | _ => none

/-- The tenant and the version at which a call is about to look for rows. -/
def serverLookup (d : ServerSystem) (t : ℕ) : Option (String × ℤ) :=
  match (d.pool t).prog with
  | .op (.inl o) _ => o.lookup
  | _ => none

/-- The tenant that is about to be updated, and the versions that it is bound to. -/
def nextUpdate (d : ServerSystem) (t : ℕ) : Option (String × List ℤ) :=
  match (d.pool t).prog with
  | .op (.inr (.updateTenant id stmts _)) _ => some (id, stmts.filterMap TenantStmt.bindsTo)
  | _ => none

/-- The schema version of a tenant after a step: the same, or one that an update binds it to. -/
theorem boundSchema_step (hs : step execServer d t ch = some d')
    (hsv : d.shared.store.db.boundSchema T = some sv) :
    d'.shared.store.db.boundSchema T = some sv ∨ ∃ versions, nextUpdate d t = some (T, versions) ∧
      ∃ version ∈ versions, ∃ tn, d.shared.store.db.tenantByID T = some tn ∧
        d'.shared.store.db.boundSchema T = d.shared.store.db.schemaVersion tn.schemaID version := by
  obtain ⟨o, k, r, hp, he, -⟩ := step_eq_some hs
  rcases execServer_cases he with hsame | ⟨o', r', -, hexec⟩ | ⟨⟨id, stmts, audit, rfl⟩, hre⟩
  · exact .inl (by rw [hsame, hsv])
  · exact .inl ((exec_le hexec).boundSchema hsv)
  · obtain ⟨tn, htn, hversion⟩ := Option.bind_eq_some_iff.mp hsv
    obtain ⟨tn', htn', hschema, hbound⟩ :=
      execUpdateTenant_binding (execServer_updateTenant he).1 htn
    have hlookup : d'.shared.store.db.boundSchema T =
        d.shared.store.db.schemaVersion tn.schemaID tn'.schemaVersion := by
      rw [Tables.boundSchema, htn', Option.bind_some, Tables.schemaVersion, hre.1.schemas, hschema]
      rfl
    rcases hbound with hkept | ⟨rfl, hmem⟩
    · exact .inl (by rw [hlookup, hkept, hversion])
    · exact .inr ⟨_, by rw [nextUpdate, hp], _, hmem, tn, htn, hlookup⟩

/-- **What is named exists**: a version that a request names is not above the latest when it is
looked up, and the number of a version that is committed has not wrapped. -/
def NamesExisting (named : Option ℤ) (d : ServerSystem) (t : ℕ) : Prop :=
  (∀ p ∈ serverLookup d t, named = some p.2 →
    p.2 ≤ (latestConfigVersion (d.shared.store.db.log p.1)).getD 0) ∧
  ∀ p ∈ serverPending d t, 0 < p.2.version

/-- **The step keeps what is cached**: a version that a `GetConfig` names is not above the latest
when it is looked up, the number of a version that is committed has not wrapped, and a tenant is
bound to a schema version only that redacts its rows as before. -/
def KeepsCached (init : ServerInit) (d : ServerSystem) (t : ℕ) (_ : ServerChoice) : Prop :=
  (∀ p ∈ serverLookup d t, (init.requests t).namedVersion = some p.2 →
    p.2 ≤ (latestConfigVersion (d.shared.store.db.log p.1)).getD 0) ∧
  (∀ p ∈ serverPending d t, 0 < p.2.version) ∧
  ∀ p ∈ nextUpdate d t, ∀ version ∈ p.2, d.shared.store.db.SameRedaction p.1 version

instance : Decidable (KeepsCached init d t ch) :=
  inferInstanceAs (Decidable (_ ∧ _ ∧ _))

/-- A version that the log has it keeps. -/
theorem length_le_of_follows (hs : s.Follows s') (hv : v ≤ (s.db.log T).length) :
    v ≤ (s'.db.log T).length :=
  hv.trans (by exact_mod_cast (hs.log T).length_le)

/-- Rows are shown in the same way where they are redacted in the same way. -/
theorem cachedValues_congr {fields fields' : List SchemaField} {L : List ConfigVersion}
    (h : ∀ V ∈ L, ∀ row ∈ V.values,
      isSensitive fields' row.fieldPath = isSensitive fields row.fieldPath) :
    cachedValues fields' (fullConfigAtVersion L v) =
      cachedValues fields (fullConfigAtVersion L v) := by
  refine map_congr_left fun row hrow => ?_
  obtain ⟨V, hV, -, hfind⟩ := DeltaLog.exists_of_rowAt_eq_some (mem_fullConfigAtVersion.mp hrow)
  rw [displayValue, displayValue, h V hV row (mem_of_find?_eq_some hfind)]

theorem KeepsCached.existing (d : ServerSystem) (t : ℕ) (ch : ServerChoice)
    (h : KeepsCached init d t ch) : NamesExisting (init.requests t).namedVersion d t :=
  ⟨h.1, h.2.1⟩

section

variable (hnames : ∀ d t ch, allowed d t ch → NamesExisting (named t) d t)
  (hr : Reach execServer allowed (init.system env) d)

include hnames hr

/-- The log is short of an overflow. -/
theorem server_short (T : String) : (d.shared.store.db.log T).length < 2 ^ 31 := by
  refine hr.invariant (fun d => (d.shared.store.db.log T).length < 2 ^ 31)
    (show (0 : ℕ) < 2 ^ 31 by decide) ?_
  intro d d' u ch hr ih ha hs
  rcases server_commit hr hs T (server_dense hr T) with hsame | ⟨V, hpend, hlog, hlen, hnum⟩
  · rw [hsame]
    exact ih
  · have hpos : 0 < V.version := (hnames _ _ _ ha).2 _ hpend
    rw [hlog, length_append, length_singleton]
    simp only [wrap32] at hnum
    omega

/-- Snapshots are stable. -/
theorem snapshot_follows (hs : s.Follows d.shared.store) (hv : v ≤ (s.db.log T).length) :
    fullConfigAtVersion (d.shared.store.db.log T) v = fullConfigAtVersion (s.db.log T) v :=
  (server_dense hr T).fullConfigAtVersion_of_le (server_short hnames hr T) (hs.log T) hv

/-- **A read is not ahead of the log** when it looks for its rows. -/
theorem server_version_le
    (hh : callHist d t = h₁ ++ h₂) (hv : VersionRead T (named t) v h₁)
    (he : e ∈ h₂) (hlook : e.op.lookup = some (T, v)) : v ≤ (e.pre.db.log T).length := by
  rcases hv with hv | ⟨-, r, s, hmem, hread⟩
  · obtain ⟨ch, d1, s', k, hr1, ha, hpre, hp, -⟩ :=
      call_event_of_mem (t := t) hr (hh ▸ mem_append_right h₁ he)
    rw [← hpre, ← (server_dense hr1 T).latest_getD (server_short hnames hr1 T)]
    refine (hnames _ _ _ ha).1 (T, v) ?_ hv
    rw [serverLookup, hp]
    exact hlook
  · have hmem' : readEvent false (.latestConfigVersion T) r s ∈ callHist d t :=
      hh ▸ mem_append_left h₂ hmem
    have hlen : v = (s.db.log T).length := by
      obtain ⟨-, d1, -, -, hr1, -, rfl, -⟩ := call_event_of_mem hr hmem'
      rcases call_read hr (by simp) hmem' with rfl | rfl
      · cases hread
      · exact (server_dense hr1 T).latest_short (server_short hnames hr1 T) hread
    rw [hlen]
    exact_mod_cast ((call_follows hr hh hmem he).log T).length_le

end

/-- The fields that a call has read are those of the schema version that the tenant was bound to
when its row was read. -/
theorem schemaRead_bound (hr : Reach execServer allowed (init.system env) d)
    {fields : List SchemaField} {h : Hist} (hin : ∀ e ∈ h, e ∈ callHist d t)
    (hf : SchemaRead T fields h) :
    ∃ tn s sv, readEvent false (.tenantByID T) (.ok tn) s ∈ h ∧ s.db.boundSchema T = some sv ∧
      fields = sv.fields := by
  obtain ⟨tn, sv, s1, s2, s3, htn, hsv, hfields⟩ := hf
  have hschemas : s1.db.schemas = s2.db.schemas ∧ s1.db.schemas = s3.db.schemas := by
    rw [← (call_behind hr (hin _ htn)).schemas, ← (call_behind hr (hin _ hsv)).schemas,
      ← (call_behind hr (hin _ hfields)).schemas]
    exact ⟨rfl, rfl⟩
  have hrow : s1.db.tenantByID T = some tn :=
    found_eq_ok.mp (call_read_ok hr (q := .tenantByID T) (by simp) (hin _ htn))
  have hversion : s1.db.schemaVersion tn.schemaID tn.schemaVersion = some sv := by
    rw [Tables.schemaVersion, hschemas.1]
    exact found_eq_ok.mp (call_read_ok hr (q := .schemaVersion _ _) (by simp) (hin _ hsv))
  have hread : s3.db.schemaFields sv.id = fields :=
    Except.ok.inj (call_read_ok hr (q := .schemaFields sv.id) (by simp) (hin _ hfields))
  refine ⟨tn, s1, sv, htn, by rw [Tables.boundSchema, hrow, Option.bind_some, hversion], ?_⟩
  rw [← hread, Tables.schemaFields, ← hschemas.2]
  exact Tables.schemaFields_of_mem (mem_of_find?_eq_some hversion)

section

variable (hr : Reach execServer (KeepsCached init) (init.system env) d)

include hr

/-- **What is shown of a version is kept by a step.** -/
theorem shows_step (ha : KeepsCached init d t ch) (hs : step execServer d t ch = some d')
    (h : d.shared.store.Shows T v values) : d'.shared.store.Shows T v values := by
  obtain ⟨hv, sv, hsv, rfl⟩ := h
  obtain ⟨o, k, r, -, he, -⟩ := step_eq_some hs
  have hfollows := execServer_follows he
  have hsnap := snapshot_follows KeepsCached.existing (hr.tail ha hs) hfollows hv
  refine ⟨length_le_of_follows hfollows hv, ?_⟩
  rcases boundSchema_step hs hsv with hkept | ⟨versions, hnext, version, hmem, tn, htn, hbound⟩
  · exact ⟨sv, hkept, by rw [hsnap]⟩
  · -- the tenant is bound to a version that redacts its rows in the same way
    obtain ⟨sv', hsv', hsens⟩ := ha.2.2 _ hnext _ hmem tn htn
    exact ⟨sv', hbound.trans hsv', by rw [hsnap, cachedValues_congr (hsens sv hsv)]⟩

/-- **What is shown of a version is kept.** -/
theorem shows_mono (hr' : Reach execServer (KeepsCached init) d d')
    (h : d.shared.store.Shows T v values) : d'.shared.store.Shows T v values := by
  refine hr'.invariant (fun d' => d'.shared.store.Shows T v values) h ?_
  intro d1 d2 u ch hr1 ih ha hs
  exact shows_step (hr.trans hr1) ha hs ih

/-! ### The cache -/

/-- **What a `GetConfig` has fetched is what is shown** of its version. -/
theorem fetched_shows
    (hh : callHist d t = h₁ ++ h₂) (hv : VersionRead T (init.requests t).namedVersion v h₁)
    (hfirst : LooksFirst T v h₂) (hf : Fetched T v values h₂) :
    d.shared.store.Shows T v values := by
  obtain ⟨r, s0, h3, rfl⟩ := hfirst
  obtain ⟨rows, fields, s, hrows, hfields, rfl⟩ := hf
  have hin : ∀ e ∈ (⟨.cache (.get T v), r, s0⟩ : Event Op.Resp State) :: h3, e ∈ callHist d t :=
    fun e he => hh ▸ mem_append_right h₁ he
  obtain ⟨tn, s1, sv, htn, hsv, rfl⟩ := schemaRead_bound hr hin hfields
  have hlen0 : v ≤ (s0.db.log T).length :=
    server_version_le KeepsCached.existing hr hh hv mem_cons_self rfl
  -- the version exists wherever the call looks after its lookup in the cache
  have hlen : ∀ e ∈ h3, v ≤ (e.pre.db.log T).length := by
    intro e he
    refine length_le_of_follows (call_follows (t := t) (e := ⟨.cache (.get T v), r, s0⟩) hr
      (hh.trans (append_assoc h₁ [_] h3).symm) ?_ he) hlen0
    exact mem_append_right h₁ (mem_singleton_self _)
  have hlater : ∀ {q : Query} {a : Except StoreErr q.Result} {s' : State},
      readEvent false q a s' ∈ (⟨.cache (.get T v), r, s0⟩ : Event Op.Resp State) :: h3 →
      readEvent false q a s' ∈ h3 := by
    intro q a s' he
    rcases mem_cons.mp he with he | he
    · cases he
    · exact he
  -- the values are shown when the tenant's row is read, and from then on
  obtain ⟨-, d1, -, -, hr1, -, hpre, -, -, hrest⟩ := call_event_of_mem hr (hin _ htn)
  refine shows_mono hr1 hrest ?_
  rw [hpre]
  have hrows' : fullConfigAtVersion (s.db.log T) v = rows :=
    Except.ok.inj (call_read_ok hr (q := .fullConfigAtVersion T v) (by simp) (hin _ hrows))
  have hsnap {s : State} := snapshot_follows (s := s) (T := T) (v := v) KeepsCached.existing hr
  refine ⟨hlen _ (hlater htn), sv, hsv, ?_⟩
  rw [← hrows', ← hsnap (call_behind hr (hin _ hrows)) (hlen _ (hlater hrows)),
    hsnap (call_behind hr (hin _ htn)) (hlen _ (hlater htn))]

/-- Only `GetConfig` fills the cache. -/
theorem server_filling {o : Op} {k : o.Resp → Prog (Both Op.Resp ServerOp.Resp) Answer}
    (hp : (d.pool t).prog = .op (.inl o) k) (ho : o.Fills) :
    ∃ caller req k', init.requests t = .call (.getConfig caller req) ∧
      After (getConfig env caller req).run (callHist d t) (.op o k') := by
  have hread : ¬ o.IsRead := by
    cases o with
    | read inTx q => exact absurd ho id
    | _ => exact id
  obtain ⟨call, k', hcall, hafter⟩ := exists_call hr hp hread
  obtain ⟨caller, req, rfl⟩ := Call.filling hafter ho
  exact ⟨caller, req, k', hcall, hafter⟩

/-- **What the cache holds is what is shown.** -/
theorem held_shows (hheld : d.shared.store.Holds T v values) : d.shared.store.Shows T v values := by
  refine hr.invariant (fun d => ∀ T v values, d.shared.store.Holds T v values →
    d.shared.store.Shows T v values) ?_ ?_ T v values hheld
  · rintro T v values (h | h | ⟨h, -, -⟩) <;> exact absurd h not_mem_nil
  intro d d' u ch hr ih ha hs T v values hheld
  obtain ⟨o, k, r, hp, he, -⟩ := step_eq_some hs
  have hkept : d.shared.store.Holds T v values → d'.shared.store.Shows T v values :=
    fun h => shows_step hr ha hs (ih T v values h)
  rcases execServer_cases he with hsame | ⟨o', r', rfl, hexec⟩ | ⟨-, -, hre⟩
  · exact hkept (hsame ▸ hheld)
  · rcases exec_holds hexec hheld with hbefore | hcaches
    · exact hkept hbefore
    obtain ⟨caller, req, k', hreq, hafter⟩ := server_filling hr hp hcaches.fills
    obtain ⟨T', v', types, h₁, h₂, hh, -, hv, -, ⟨-, rows, fields, s, -, -, hq⟩ |
        ⟨-, hfirst, hstage⟩⟩ := getConfig_trace (q := .op o' k') hcaches.fills hafter
    · cases hq
    cases hstage with
    | shown hl hq => cases hq
    | filling hf hq ho =>
      cases hq
      obtain ⟨rfl, rfl, rfl⟩ := hcaches.unique ho
      exact shows_step hr ha hs (fetched_shows hr hh (by rw [hreq]; exact hv) hfirst hf)
    | failing hq =>
      cases hq
      rcases hcaches with h | ⟨h, -⟩ | h <;> cases h
  · refine hkept (hheld.of_subset ?_ ?_ ?_) <;> rw [hre]
    · exact .refl _
    · exact .refl _
    · exact fun f hf _ => hf

end

/-- A hit is held. -/
theorem holds_of_answer (hexec : execCall ch t e.op e.pre = some (e.resp, s'))
    (ha : cacheAnswer e = some (T, v, values)) : e.pre.Holds T v values := by
  rw [cacheAnswer.eq_def] at ha
  split at ha
  · rename_i T' v' r s
    obtain ⟨values', hhit, hans⟩ := Option.map_eq_some_iff.mp ha
    obtain ⟨rfl, hrest⟩ := Prod.mk.inj hans
    obtain ⟨rfl, rfl⟩ := Prod.mk.inj hrest
    cases r with
    | error err => cases hhit
    | ok found =>
      obtain rfl : found = some values' := hhit
      exact holds_of_get (t := t) hexec
  · rename_i T' v' r s
    split at ha
    · rename_i hneg
      obtain ⟨rfl, hrest⟩ := answer_inj ha
      cases hrest
      cases r with
      | error err => cases hneg
      | ok negative =>
        obtain rfl : negative = true := hneg
        exact holds_of_getNegative (t := t) hexec
    · cases ha
  · cases ha

/-- **The answers from the cache are those of a miss**: in every run in which the versions that
are named exist, and tenants are bound to schema versions only that redact their rows as before,
a `GetConfig` that was answered from the cache, by the values of a version or by the mark that it
is empty, has returned what the fetch would have returned at that moment. -/
theorem cachedAnswers_fresh (hr : Reach execServer (KeepsCached init) (init.system env) d)
    {caller : Caller} {req : GetConfigRequest}
    (hcall : init.requests t = .call (.getConfig caller req)) {reply : Reply}
    (hret : d.returned t = some (.reply (.ok reply))) {e : Event Op.Resp State}
    (he : e ∈ callHist d t) (ha : cacheAnswer e = some (T, v, values)) :
    missAt e.pre t T v = some (.ok values) ∧ ∃ types, TypesRead env T types (callHist d t) ∧
      reply = .config ⟨T, v, values.map (valueOfCached env types)⟩ := by
  constructor
  · obtain ⟨ch, d1, s', k, hr1, -, hpre, -, hexec, -⟩ := call_event_of_mem hr he
    have hheld := holds_of_answer hexec ha
    rw [← hpre] at hheld ⊢
    exact missAt_of_shows (held_shows hr1 hheld)
  · exact getConfig_answer (call_returned hr hcall hret) he ha

def PbConfig.shown (config : PbConfig) : List (String × Option TypedValue) :=
  config.values.map fun p => (p.fieldPath, p.value)

def configShown (d : ServerSystem) (t : ℕ) : Option (List (String × Option TypedValue)) :=
  match d.returned t with
  | some (.reply (.ok (.config config))) => some config.shown
  | _ => none

theorem configShown_eq_some {shown : List (String × Option TypedValue)}
    (h : configShown d t = some shown) :
    ∃ config, d.returned t = some (.reply (.ok (.config config))) ∧ config.shown = shown := by
  rw [configShown] at h
  split at h
  · rename_i config hret
    exact ⟨config, hret, Option.some.inj h⟩
  · cases h

/-- The values that a miss returns, where it succeeds. -/
def missedValues (s : State) (t : ℕ) (T : String) (v : ℤ) : Option CachedValues :=
  match missAt s t T v with
  | some (.ok values) => some values
  | _ => none

theorem missedValues_eq_some (h : missedValues s t T v = some values) :
    missAt s t T v = some (.ok values) := by
  rw [missedValues] at h
  split at h
  · rename_i hmiss
    rw [hmiss, Option.some.inj h]
  · cases h

/-- The cache has answered the call so, where a miss would have returned these values. -/
def Answered (d : ServerSystem) (t : ℕ) (answer : String × ℤ × CachedValues)
    (missed : CachedValues) : Prop :=
  ∃ e ∈ callHist d t, cacheAnswer e = some answer ∧
    missedValues e.pre t answer.1 answer.2.1 = some missed

instance (answer : String × ℤ × CachedValues) (missed : CachedValues) :
    Decidable (Answered d t answer missed) :=
  inferInstanceAs (Decidable (∃ e ∈ callHist d t, _))

namespace Sample

def rebindSchema (sensitive : Bool) : SchemaVersion where
  id := "sv2"
  schemaID := "s"
  version := 2
  published := true
  dependentRequired := []
  validations := []
  fields := [{ path := "b", fieldType := .string, sensitive := sensitive }]
  nodup := List.nodup_singleton _

def getAt (version : ℤ) : Call :=
  .getConfig superadmin { tenantId := tenant, version := some version }

/-- The instance in which `b` is written, its version is read before and after the tenant is
bound to the second version. -/
def rebinds (sensitive : Bool) : ServerInit where
  tenants := [⟨tenant, "acme", "s", 1, false⟩]
  schemas := ⟨[schema, rebindSchema sensitive], by simp [schema, rebindSchema]⟩
  locks _ := []
  requests t := [.call (set superadmin "b" "x"), .call (getAt 1), rebind,
    .call (getAt 1)].getD t (.getValidations "")

end Sample

open Sample

theorem cachedAnswers_fresh_rebound : ∃ d e config, Reach execServer (KeepsCached (rebinds false))
        ((rebinds false).system (world noDocument)) d ∧
      d.returned 2 = some (.updated (.ok rebound)) ∧
      d.returned 3 = some (.reply (.ok (.config config))) ∧ e ∈ callHist d 3 ∧
      cacheAnswer e = some (tenant, 1, [("b", "x")]) ∧
      missAt e.pre 3 tenant 1 = some (.ok [("b", "x")]) := by
  obtain ⟨d, hr, hupd, hshown, e, he, ha, -⟩ : ∃ d, Reach execServer (KeepsCached (rebinds false))
        ((rebinds false).system (world noDocument)) d ∧
      updatedBy d 2 = some rebound ∧
      configShown d 3 = some [("b", some (.stringValue "x"))] ∧
      Answered d 3 (tenant, 1, [("b", "x")]) [("b", "x")] :=
    exists_reach_of_run (serverSteps 0 16 ++ serverSteps 1 10 ++
      serverSteps 2 8 ++ serverSteps 3 2) (by decide +kernel)
  obtain ⟨config, hret, -⟩ := configShown_eq_some hshown
  exact ⟨d, e, config, hr, updatedBy_eq_some hupd, hret, he, ha,
    (cachedAnswers_fresh hr rfl hret he ha).1⟩

/-- An `UpdateTenant` that binds the tenant to a version in which a field is sensitive has
returned: a `GetConfig` that begins after it is answered from the cache, which shows the value
that a miss redacts. -/
theorem cachedAnswers_stale : ∃ d₁ d₂ e config, Reach execServer anyStep
        ((rebinds true).system (world noDocument)) d₁ ∧
      d₁.returned 2 = some (.updated (.ok rebound)) ∧ (d₁.pool 3).hist = [] ∧
      1 ∈ versionNumbers (d₁.shared.store.db.log tenant) ∧
      Reach execServer anyStep d₁ d₂ ∧ d₂.returned 3 = some (.reply (.ok (.config config))) ∧
      e ∈ callHist d₂ 3 ∧ cacheAnswer e = some (tenant, 1, [("b", "x")]) ∧
      missAt e.pre 3 tenant 1 = some (.ok [("b", "[REDACTED]")]) ∧
      config.shown = [("b", some (.stringValue "x"))] := by
  obtain ⟨d₁, d₂, hr, ⟨hupd, hstart, hnum⟩, hr', hshown, e, he, ha, hmiss⟩ :
      ∃ d₁ d₂, Reach execServer anyStep ((rebinds true).system (world noDocument)) d₁ ∧
      (updatedBy d₁ 2 = some rebound ∧ (d₁.pool 3).hist.length = 0 ∧
        1 ∈ versionNumbers (d₁.shared.store.db.log tenant)) ∧
      Reach execServer anyStep d₁ d₂ ∧ configShown d₂ 3 = some [("b", some (.stringValue "x"))] ∧
      Answered d₂ 3 (tenant, 1, [("b", "x")]) [("b", "[REDACTED]")] :=
    exists_reach_of_runs (serverSteps 0 16 ++ serverSteps 1 10 ++
      serverSteps 2 8) (serverSteps 3 2) (by decide +kernel)
  obtain ⟨config, hret, hshown⟩ := configShown_eq_some hshown
  exact ⟨d₁, d₂, e, config, hr, updatedBy_eq_some hupd, length_eq_zero_iff.mp hstart, hnum,
    hr', hret, he, ha, missedValues_eq_some hmiss, hshown⟩

end Decree
