import Mathlib.Data.List.AList
import Decree.CopySwap
import Decree.Traces

/-!
# The In-Memory Store

The config store over maps (`internal/config/store_memory.go`). Every method takes the store's
lock. `RunInTx` clones the state under the lock, runs its callback on the clone without the lock,
and merges the clone under the lock again, which replaces the state whatever has become of it. The
in-memory store of the schema service has the same `RunInTx`.

The store is an instance of `CopySwap`. Callbacks are arbitrary programs over its methods, and
so are the transactions of the config service (`Memory.versionTx`), which create the version
after the latest one they see; there is no uniqueness check to conflict with.

## Main results

* `memory_runs_serializable`: undisturbed runs are serializable.
* `memory_update_lost`: an update is lost.
-/

open Go Interleave CopySwap
open List

namespace Decree

variable {c : System} {acts : Actions}

namespace Memory

/-- The identifier of a version: the caller that drew it, and how many operations it had
performed. The source draws random UUIDs, which are taken to be distinct. -/
abbrev VersionID := ℕ × ℕ

/-- `domain.ConfigVersion`. -/
structure VersionRow where
  id : VersionID
  tenantID : String
  version : ℤ
  description : Option String
  createdBy : String
deriving DecidableEq

/-- **`MemoryStore`**. Maps are lists of their entries; the values are kept with the version
they belong to, in the order in which they were set. -/
structure Store where
  configVersions : List VersionRow
  configValues : List (VersionID × ConfigValue)
  tenants : List Tenant
  schemaVersions : List SchemaVersion
  schemaFields : List (String × List SchemaField)
  fieldLocks : List (String × List TenantFieldLock)
  auditLog : List AuditEntry
deriving DecidableEq

/-! ### Queries -/

/-- The maps `latest` and `latestVer` of `GetFullConfigAtVersion`. -/
structure Collected where
  latest : AList fun _ : String => ConfigValue
  latestVer : AList fun _ : String => ℤ
  keyed : ∀ e ∈ latest.entries, e.2.fieldPath = e.1

/-- The body of the loop. -/
def Collected.add (c : Collected) (version : ℤ) (row : ConfigValue) : Collected :=
  if (c.latestVer.lookup row.fieldPath).getD 0 < version then
    { latest := c.latest.insert row.fieldPath row
      latestVer := c.latestVer.insert row.fieldPath version
      keyed := by
        intro e he
        rw [AList.entries_insert] at he
        rcases List.mem_cons.mp he with rfl | he
        · rfl
        · exact c.keyed e ((List.kerase_sublist _ _).subset he) }
  else c

/-- The rows that were collected, in the order of their paths. -/
def Collected.rows (c : Collected) : List ConfigValue :=
  (c.latest.entries.map Sigma.snd).insertionSort fun a b => a.fieldPath ≤ b.fieldPath

namespace Store

variable (s : Store)

/-- `GetConfigValues`. -/
def configValuesOf (id : VersionID) : List ConfigValue :=
  (s.configValues.filter fun p => p.1 = id).map Prod.snd

/-- `GetLatestConfigVersion`: the greatest version number. -/
def latestConfigVersion (tenantID : String) : Option ℤ :=
  ((s.configVersions.filter fun cv => cv.tenantID = tenantID).map VersionRow.version).max?

/-- `GetConfigVersion`. -/
def configVersion (tenantID : String) (version : ℤ) : Option VersionRow :=
  s.configVersions.find? fun cv => cv.tenantID = tenantID && cv.version = version

/-- `GetConfigValueAtVersion`: the row of the greatest version up to the given one; numbers
below one are passed over. -/
def configValueAtVersion (tenantID fieldPath : String) (version : ℤ) : Option ConfigValue :=
  (s.configVersions.foldl
    (fun best cv =>
      if cv.tenantID = tenantID ∧ cv.version ≤ version then
        (s.configValuesOf cv.id).foldl
          (fun best row =>
            if row.fieldPath = fieldPath ∧ best.1 < cv.version then (cv.version, some row)
            else best)
          best
      else best)
    ((0 : ℤ), none)).2

/-- `GetFullConfigAtVersion`: the same for every path, in one loop with two maps. -/
def fullConfigAtVersion (tenantID : String) (version : ℤ) : List ConfigValue :=
  (s.configVersions.foldl
    (fun c cv =>
      if cv.tenantID = tenantID ∧ cv.version ≤ version then
        (s.configValuesOf cv.id).foldl (fun c row => c.add cv.version row) c
      else c)
    (⟨∅, ∅, nofun⟩ : Collected)).rows

/-- `GetConfigValuesSince`: the rows of the versions from `startVersion` on. -/
def configValuesSince (tenantID : String) (startVersion : ℤ) : List ConfigValueSince :=
  ((s.configVersions.filter fun cv => cv.tenantID = tenantID ∧ startVersion ≤ cv.version).flatMap
    fun cv => (s.configValuesOf cv.id).map fun row =>
      ⟨cv.version, row.fieldPath, row.value, cv.createdBy⟩).insertionSort ConfigValueSince.Le

/-- `GetTenantByID`. -/
def tenantByID (id : String) : Option Tenant :=
  s.tenants.find? fun tn => tn.id = id

/-- `GetSchemaVersion`. -/
def schemaVersion (schemaID : String) (version : ℤ) : Option SchemaVersion :=
  s.schemaVersions.find? fun sv => sv.schemaID = schemaID && sv.version = version

/-- `GetSchemaFields`. -/
def schemaFieldsOf (schemaVersionID : String) : List SchemaField :=
  (s.schemaFields.lookup schemaVersionID).getD []

def boundSchema (tenantID : String) : Option SchemaVersion :=
  (s.tenantByID tenantID).bind fun tn =>
    (s.schemaVersion tn.schemaID tn.schemaVersion).bind fun sv =>
      if h : ((s.schemaFieldsOf sv.id).map SchemaField.path).Nodup then
        some { sv with fields := s.schemaFieldsOf sv.id, nodup := h }
      else none

def eval : (q : Query) → Except StoreErr q.Result
  | .tenantByName name => found (s.tenants.find? fun tn => tn.name = name)
  | .tenantByID id => found (s.tenantByID id)
  | .schemaVersion schemaID version => found (s.schemaVersion schemaID version)
  | .schemaFields schemaVersionID => .ok (s.schemaFieldsOf schemaVersionID)
  | .boundSchema tenantID => found (s.boundSchema tenantID)
  | .fieldLocks tenantID => .ok ((s.fieldLocks.lookup tenantID).getD [])
  | .latestConfigVersion tenantID => found (s.latestConfigVersion tenantID)
  | .configVersion tenantID version => found ((s.configVersion tenantID version).map fun cv =>
    ⟨cv.version, cv.description, cv.createdBy⟩)
  | .configValueAtVersion tenantID fieldPath version =>
    found (s.configValueAtVersion tenantID fieldPath version)
  | .fullConfigAtVersion tenantID version => .ok (s.fullConfigAtVersion tenantID version)
  | .configValuesSince tenantID startVersion => .ok (s.configValuesSince tenantID startVersion)

end Store

/-! ### Methods -/

/-- The methods of the store, and the helpers that seed it. The bulk methods are loops over
the single ones. -/
inductive Method where
  | query (q : Query)
  | createConfigVersion (p : CreateConfigVersionParams)
  | setConfigValue (id : VersionID) (row : ConfigValue)
  | insertAuditWriteLog (entry : AuditEntry)
  | setTenant (tn : Tenant)
  | setSchemaVersion (sv : SchemaVersion)
  | setSchemaFields (schemaVersionID : String) (fields : List SchemaField)

abbrev Method.Resp : Method → Type
  | query q => Except StoreErr q.Result
  | createConfigVersion _ => VersionRow
  | _ => Unit

/-- **The semantics of a method**, with the identifier it may draw. -/
def apply (id : VersionID) : (o : Method) → Store → o.Resp × Store
  | .query q, s => (s.eval q, s)
  | .createConfigVersion p, s =>
    let v : VersionRow := ⟨id, p.tenantID, p.version, p.description, p.createdBy⟩
    (v, { s with configVersions := s.configVersions ++ [v] })
  | .setConfigValue id row, s => ((), { s with configValues := s.configValues ++ [(id, row)] })
  | .insertAuditWriteLog entry, s => ((), { s with auditLog := s.auditLog ++ [entry] })
  | .setTenant tn, s =>
    ((), { s with tenants := s.tenants.filter (fun tn' => tn'.id ≠ tn.id) ++ [tn] })
  | .setSchemaVersion sv, s =>
    ((), { s with
      schemaVersions := s.schemaVersions.filter (fun sv' =>
        ¬ (sv'.schemaID = sv.schemaID ∧ sv'.version = sv.version)) ++ [sv] })
  | .setSchemaFields schemaVersionID fields, s =>
    ((), { s with
      schemaFields := s.schemaFields.filter (fun p => p.1 ≠ schemaVersionID) ++
        [(schemaVersionID, fields)] })

theorem configVersions_subset_apply (id : VersionID) (o : Method) (s : Store) :
    s.configVersions ⊆ (apply id o s).2.configVersions := by
  cases o with
  | createConfigVersion p => exact subset_append_left _ _
  | query | setConfigValue | insertAuditWriteLog | setTenant | setSchemaVersion
  | setSchemaFields => exact .refl _

/-! ### The transaction of a config write -/

/-- A callback of `RunInTx`, or a part of one. -/
abbrev Callback (α : Type) := ExceptT TxErr (Prog Method.Resp) α

/-- Call a method and take its result through a function. -/
def call {α : Type} (o : Method) (f : o.Resp → Except TxErr α) : Callback α :=
  ExceptT.mk (.op o fun r => .ret (f r))

def txLatestVersion (tenantID : String) : Callback ℤ :=
  call (.query (.latestConfigVersion tenantID)) fun r => (versionOrZero r).mapError .status

def checkChecksumAtVersion (tenantID fieldPath expected : String) (version : ℤ) :
    Callback Unit :=
  if version = 0 then pure ()
  else
    call (.query (.configValueAtVersion tenantID fieldPath version))
      (compareChecksum fieldPath expected)

/-- **The transaction of a config write** on this store: the callback that the config service
gives to `RunInTx`, with what audits the version and enforces the cross-field rules. -/
def versionTx (w : VersionWrite) (rest : ℤ → Callback Unit) : Callback ℤ := do
  let latest ← txLatestVersion w.tenantID
  forEach (fun p => checkChecksumAtVersion w.tenantID p.1 p.2 latest) w.expected
  let cv ← call (.createConfigVersion ⟨w.tenantID, wrap32 (latest + 1), w.description, w.actor⟩)
    fun cv => .ok (cv : VersionRow)
  forEach (fun row => call (.setConfigValue cv.id row) fun _ => .ok ()) w.rows
  rest cv.version
  pure cv.version

variable {t : ℕ} {s s' : Store}

theorem configVersions_subset {n : ℕ} {evs : List (Event Method.Resp Store)}
    (h : Follows apply t n evs s s') : s.configVersions ⊆ s'.configVersions :=
  h.climbs (fun s s' => s.configVersions ⊆ s'.configVersions) (fun _ => .refl _)
    (fun _ _ _ => Subset.trans) configVersions_subset_apply

variable {w : VersionWrite} {rest : ℤ → Callback Unit} {v : ℤ}

/-- **A config write creates the version after the latest one**, in the state it is given. -/
theorem versionTx_creates (h : finish apply t (versionTx w rest).run 0 s = (.ok v, s')) :
    v = wrap32 ((s.latestConfigVersion w.tenantID).getD 0 + 1) ∧
      ∃ cv ∈ s'.configVersions, cv.tenantID = w.tenantID ∧ cv.version = v := by
  obtain ⟨evs, hruns, hfol⟩ : ∃ evs, _ ∧ Follows apply t 0 evs s _ :=
    exists_trace t (versionTx w rest).run 0 s
  rw [h] at hruns hfol
  obtain ⟨e1, e2, latest, rfl, hl, h2⟩ := runs_bind_ok hruns
  obtain ⟨checks, e3, _, rfl, -, h3⟩ := runs_bind_ok h2
  obtain ⟨e4, e5, cv, rfl, hcv, h5⟩ := runs_bind_ok h3
  obtain ⟨e6, e7, _, rfl, -, h7⟩ := runs_bind_ok h5
  obtain ⟨e8, e9, _, rfl, -, hret⟩ := runs_bind_ok h7
  obtain ⟨-, hv⟩ := runs_ret.mp hret
  cases hv
  obtain ⟨r, s1, rfl, hr⟩ := runs_request.mp hl
  obtain ⟨r2, s2, rfl, hr2⟩ := runs_request.mp hcv
  cases hr2
  rw [singleton_append, singleton_append] at hfol
  cases hfol with
  | cons hfol =>
    obtain ⟨n1, s3, -, hfol⟩ := follows_append hfol
    cases hfol with
    | cons hfol =>
      refine ⟨?_, _, configVersions_subset hfol ?_, rfl, rfl⟩
      · change wrap32 (latest + 1) = _
        have hlatest : versionOrZero (found (s.latestConfigVersion w.tenantID)) =
            .ok latest := mapError_eq_ok.mp hr
        cases hm : s.latestConfigVersion w.tenantID with
        | none =>
          rw [hm] at hlatest
          cases hlatest
          rfl
        | some m =>
          rw [hm] at hlatest
          cases hlatest
          rfl
      · exact mem_append_right _ (mem_singleton.mpr rfl)

/-! ### Runs -/

/-- The callers' actions on this store. -/
abbrev Actions := ℕ → CopySwap.Action Method.Resp TxErr ℤ

/-- A configuration of the store and its callers. -/
abbrev System := CopySwap.Config Method.Resp Store TxErr ℤ

/-- The version numbers can be counted up. -/
def CountsUp (s : Store) : Prop :=
  ∀ cv ∈ s.configVersions, wrap32 (cv.version + 1) = cv.version + 1

instance (s : Store) : Decidable (CountsUp s) :=
  inferInstanceAs (Decidable (∀ cv ∈ s.configVersions, _))

/-- **The step condition**: a merge meets the state its transaction cloned, and the version
numbers there have room. -/
def MergeStep (c : System) (t : ℕ) : Prop :=
  ∀ base ∈ c.swapping t, c.shared = base ∧ CountsUp base

instance (t : ℕ) : Decidable (MergeStep c t) :=
  inferInstanceAs (Decidable (∀ base ∈ c.swapping t, _))

theorem MergeStep.undisturbed (h : MergeStep c t) : Undisturbed c t :=
  fun base hb => (h base hb).1

/-- A number that is taken stays below the next one. -/
theorem lt_next_of_mem (hup : CountsUp s) {cv : VersionRow} (hmem : cv ∈ s.configVersions) :
    cv.version < wrap32 ((s.latestConfigVersion cv.tenantID).getD 0 + 1) := by
  have hcv : cv.version ∈
      (s.configVersions.filter fun cv' => cv'.tenantID = cv.tenantID).map VersionRow.version :=
    mem_map_of_mem (mem_filter.mpr ⟨hmem, by simp⟩)
  cases hm : s.latestConfigVersion cv.tenantID with
  | none =>
    rw [Store.latestConfigVersion, max?_eq_none_iff] at hm
    rw [hm] at hcv
    exact absurd hcv not_mem_nil
  | some m =>
    obtain ⟨hmax, hle⟩ := max?_eq_some_iff.mp hm
    obtain ⟨cv', hcv', rfl⟩ := mem_map.mp hmax
    have hnext := hup cv' (mem_of_mem_filter hcv')
    have hcv_le := hle _ hcv
    rw [Option.getD_some, hnext]
    omega

theorem configVersions_subset_serialRun (l : List ℕ) (s : Store) :
    s.configVersions ⊆ (serialRun apply acts l s).configVersions :=
  serialRun_climbs (fun s s' => s.configVersions ⊆ s'.configVersions) (fun _ => .refl _)
    (fun _ _ _ => Subset.trans) configVersions_subset_apply l s

/-- A transaction that commits alone has run its callback to its end. -/
theorem exists_finish {body : Prog Method.Resp (Except TxErr ℤ)} (hact : acts t = .tx body)
    (h : (alone apply acts t s).1 = .committed v) :
    ∃ s', finish apply t body 0 s = (.ok v, s') := by
  rw [alone, hact] at h
  simp only at h
  split at h
  · rename_i a s' hfin
    cases h
    exact ⟨s', hfin⟩
  · cases h

/-- A transaction that comes later in the serial order creates a greater version. -/
theorem version_lt_of_order {s0 : Store}
    (hr : Machine.Reach (step apply acts) MergeStep (start s0) c) {l1 l2 l3 : List ℕ} {u : ℕ}
    (hord : c.order = l1 ++ t :: (l2 ++ u :: l3)) {w' : VersionWrite} {rest' : ℤ → Callback Unit}
    (ht : acts t = .tx (versionTx w rest).run) (hu : acts u = .tx (versionTx w' rest').run)
    (hT : w.tenantID = w'.tenantID) {v' : ℤ} (hv : c.phase t = .committed v)
    (hv' : c.phase u = .committed v') : v < v' := by
  have hser : Serial apply acts s0 c := CopySwap.Reach.serial (fun _ _ => MergeStep.undisturbed) hr
  have hord' : c.order = (l1 ++ t :: l2) ++ u :: l3 := by rw [hord]; simp
  have hout := hser.outcome _ _ _ hord
  have hout' := hser.outcome _ _ _ hord'
  have hup : CountsUp (serialRun apply acts (l1 ++ t :: l2) s0) :=
    CopySwap.Reach.at_swap (fun _ _ => MergeStep.undisturbed)
      (fun _ _ h base hb => (h base hb).2) hr hord' hu
  obtain ⟨sₜ, hfin⟩ := exists_finish ht (hout.symm.trans hv)
  obtain ⟨sᵤ, hfin'⟩ := exists_finish hu (hout'.symm.trans hv')
  obtain ⟨-, cv, hmem, hcvT, rfl⟩ := versionTx_creates hfin
  obtain ⟨rfl, -⟩ := versionTx_creates hfin'
  have hstays : cv ∈ (serialRun apply acts (l1 ++ t :: l2) s0).configVersions := by
    rw [serialRun_append, serialRun, alone, ht]
    simp only [hfin]
    exact configVersions_subset_serialRun l2 _ hmem
  rw [← hT, ← hcvT]
  exact lt_next_of_mem hup hstays

end Memory

open Memory

namespace Sample

def memory : Memory.Store where
  configVersions := []
  configValues := []
  tenants := [⟨tenant, "acme", "s", 1, false⟩]
  schemaVersions := [schema]
  schemaFields := [(schema.id, schema.fields)]
  fieldLocks := []
  auditLog := []

def memorySet (fieldPath value : String) : CopySwap.Action Method.Resp TxErr ℤ :=
  .tx (Memory.versionTx
    (setFieldWrite (world noDocument) superadmin
      { tenantId := tenant, fieldPath := fieldPath, value := some (.stringValue value) } tenant)
    fun version => Memory.call
      (.insertAuditWriteLog (setFieldAudit tenant "root" schema.fields fieldPath
        (some (.stringValue value)) "" version)) fun _ => .ok ()).run

def memoryCalls : Memory.Actions
  | 0 => memorySet "b" "x"
  | 1 => memorySet "w" "y"
  | t => .direct (.setTenant ⟨formatInt t, "", "s", 1, false⟩)

end Sample

open Sample

/-- **Undisturbed runs of the in-memory store are serializable**: in every run whose merges
meet the state their transactions cloned, the store and the outcomes are those of a serial
execution of the actions that took effect, and no two transactions of one tenant create the
same version. -/
theorem memory_runs_serializable {acts : Actions} {s₀ : Store} {c : Memory.System}
    (hr : Machine.Reach (CopySwap.step apply acts) MergeStep (start s₀) c) :
    Serial apply acts s₀ c ∧
      ∀ (t u : ℕ) (w w' : VersionWrite) (rest rest' : ℤ → Callback Unit) (v : ℤ), t ≠ u →
        acts t = .tx (Memory.versionTx w rest).run →
        acts u = .tx (Memory.versionTx w' rest').run →
        w.tenantID = w'.tenantID → c.phase t = .committed v → c.phase u ≠ .committed v := by
  have hser : Serial apply acts s₀ c := CopySwap.Reach.serial (fun _ _ => MergeStep.undisturbed) hr
  refine ⟨hser, fun t u w w' rest rest' v htu ht hu hT hv hv' => ?_⟩
  have hmem : t ∈ c.order := (hser.mem_iff t).mpr (by rw [hv]; rfl)
  have hmem' : u ∈ c.order := (hser.mem_iff u).mpr (by rw [hv']; rfl)
  obtain ⟨l1, l2, hord⟩ := append_of_mem hmem
  rw [hord] at hmem'
  rcases mem_append.mp hmem' with hu' | hu'
  · obtain ⟨l3, l4, rfl⟩ := append_of_mem hu'
    rw [append_assoc, cons_append] at hord
    exact absurd (version_lt_of_order hr hord hu ht hT.symm hv' hv) (lt_irrefl v)
  · obtain ⟨l3, l4, rfl⟩ := append_of_mem ((mem_cons.mp hu').resolve_left htu.symm)
    exact absurd (version_lt_of_order hr hord ht hu hT hv hv') (lt_irrefl v)

/-- Two transactions one after the other, and a direct write in between. -/
theorem memory_runs_serializable_in_turn : ∃ c : Memory.System,
      Machine.Reach (CopySwap.step apply memoryCalls) MergeStep (start memory) c ∧
      c.order = [0, 2, 1] ∧ c.phase 0 = .committed 1 ∧ c.phase 1 = .committed 2 ∧
      Serial apply memoryCalls memory c := by
  obtain ⟨c, hr, hord, h0, h1⟩ : ∃ c : Memory.System,
      Machine.Reach (CopySwap.step apply memoryCalls) MergeStep (start memory) c ∧
      c.order = [0, 2, 1] ∧ c.phase 0 = .committed 1 ∧ c.phase 1 = .committed 2 :=
    Machine.exists_reach_of_run [0, 0, 0, 0, 0, 0, 2, 1, 1, 1, 1, 1, 1] (by decide +kernel)
  exact ⟨c, hr, hord, h0, h1, (memory_runs_serializable hr).1⟩

/-- **A lost update**: two transactions clone the empty store before either merges. Both return
version 1, and of the first one nothing is left. -/
theorem memory_update_lost : ∃ c : Memory.System,
      Machine.Reach (CopySwap.step apply memoryCalls) Machine.anyStep (start memory) c ∧
      c.phase 0 = .committed 1 ∧ c.phase 1 = .committed 1 ∧
      c.shared.configVersions.length = 1 ∧ c.shared.auditLog.length = 1 ∧
      ∀ p ∈ c.shared.configValues, p.2.fieldPath ≠ "b" :=
  Machine.exists_reach_of_run [0, 1, 0, 0, 0, 0, 0, 1, 1, 1, 1, 1] (by decide +kernel)

end Decree
