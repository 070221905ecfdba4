import Decree.AuditQuery
import Decree.MemoryStore

/-!
# The Two Config Stores

The config store in memory (`internal/config/store_memory.go`) beside the SQL definition: the
tables `config_versions` and `config_values` with their constraints, and the queries of
`db/queries/config.sql`, as `store_pg.go` runs them.

The memory store checks none of the constraints, passes over version numbers below one, takes a
limit of zero for no limit, and returns the values of a version in the order in which they were
set. It takes any text for a tenant and any text for a value, where PostgreSQL wants a `UUID`,
which it compares and returns in lower case, and refuses a text with a NUL. And it sorts by bytes,
where PostgreSQL sorts paths by the collation of the database, which is a parameter.

The identifiers of versions are the ones that the stores draw, and no tenant is pinned to the
connection, so that row level security hides nothing.

## Main results

* `Valid.exec`: a statement that meets the condition `Stmt.regular` does the same in both stores.
* `results_agree`: so do whole runs of such statements, inside and outside of `RunInTx`;
  `results_differ` is about runs that do not meet it.
-/

open List

namespace Decree.ConfigStores

open Memory (VersionID VersionRow Store Collected)

inductive Stmt where
  | createConfigVersion (p : CreateConfigVersionParams)
  | setConfigValue (id : VersionID) (row : ConfigValue)
  | bulkSetConfigValues (rows : List (VersionID × ConfigValue))
  | getConfigVersion (tenantID : String) (version : ℤ)
  | getLatestConfigVersion (tenantID : String)
  | listConfigVersions (tenantID : String) (limit offset : ℤ)
  | getConfigValues (id : VersionID)
  | getConfigValueAtVersion (tenantID fieldPath : String) (version : ℤ)
  | getFullConfigAtVersion (tenantID : String) (version : ℤ)
  | getConfigValuesSince (tenantID : String) (startVersion : ℤ)

/-- What a statement returns; a row that is not found is `none`. -/
inductive Answer where
  | done
  | version (row : Option VersionRow)
  | versions (rows : List VersionRow)
  | value (row : Option ConfigValue)
  | values (rows : List ConfigValue)
  | since (rows : List ConfigValueSince)
deriving DecidableEq

/-- `ErrVersionConflict`, and the other errors. -/
inductive Failure where
  | conflict
  | failed
deriving DecidableEq

/-- The order of the integers, found in one way wherever the module is used. -/
local instance valueOrder : Preorder ℤ :=
  Int.instLinearOrder.toPreorder

section Tables

variable (db : Store) (tenantID fieldPath : String) (version : ℤ)

def insertVersion (id : VersionID) (p : CreateConfigVersionParams) : Answer × Store :=
  let (v, db') := Memory.apply id (.createConfigVersion p) db
  (.version (some v), db')

def insertValues (rows : List (VersionID × ConfigValue)) : Answer × Store :=
  (.done, { db with configValues := db.configValues ++ rows })

/-- The versions of a tenant, the latest first. -/
def versionsOf : List VersionRow :=
  (db.configVersions.filter fun v => v.tenantID = tenantID).insertionSort
    fun a b => b.version ≤ a.version

def key (r : VersionID × ConfigValue) : VersionID × String :=
  (r.1, r.2.fieldPath)

/-- The values at a path up to a version, joined with their versions. -/
def joined : List (ℤ × ConfigValue) :=
  (db.configVersions.filter fun v => v.tenantID = tenantID ∧ v.version ≤ version).flatMap
    fun v => ((db.configValuesOf v.id).filter fun row => row.fieldPath = fieldPath).map
      (v.version, ·)

/-- The query `GetConfigValueAtVersion`: the value of the greatest version. -/
def valueAtVersion : Option ConfigValue :=
  ((joined db tenantID fieldPath version).argmax Prod.fst).map Prod.snd

/-- The rows of `GetConfigValuesSince`, in no particular order. -/
def rowsSince (startVersion : ℤ) : List ConfigValueSince :=
  (db.configVersions.filter fun v => v.tenantID = tenantID ∧ startVersion ≤ v.version).flatMap
    fun v => (db.configValuesOf v.id).map fun row =>
      ⟨v.version, row.fieldPath, row.value, v.createdBy⟩

end Tables

/-- **The in-memory store**. -/
def memory (id : VersionID) (db : Store) : Stmt → Except Failure (Answer × Store)
  | .createConfigVersion p => .ok (insertVersion db id p)
  | .setConfigValue id row => .ok (insertValues db [(id, row)])
  | .bulkSetConfigValues rows => .ok (insertValues db rows)
  | .getConfigVersion tenantID version => .ok (.version (db.configVersion tenantID version), db)
  | .getLatestConfigVersion tenantID =>
    .ok (.version ((db.configVersions.filter fun v => v.tenantID = tenantID).argmax
      VersionRow.version), db)
  | .listConfigVersions tenantID limit offset =>
    let rows := (versionsOf db tenantID).drop offset.toNat
    -- a negative offset panics
    if offset < 0 then .error .failed
    else .ok (.versions (if 0 < limit then rows.take limit.toNat else rows), db)
  | .getConfigValues id => .ok (.values (db.configValuesOf id), db)
  | .getConfigValueAtVersion tenantID fieldPath version =>
    .ok (.value (db.configValueAtVersion tenantID fieldPath version), db)
  | .getFullConfigAtVersion tenantID version =>
    .ok (.values (db.fullConfigAtVersion tenantID version), db)
  | .getConfigValuesSince tenantID startVersion =>
    .ok (.since (db.configValuesSince tenantID startVersion), db)

/-- The texts of a row can be stored. -/
def RowNulFree (row : ConfigValue) : Prop :=
  NulFree row.fieldPath ∧ (∀ s ∈ row.value, NulFree s) ∧ (∀ s ∈ row.checksum, NulFree s) ∧
    ∀ s ∈ row.description, NulFree s

instance (row : ConfigValue) : Decidable (RowNulFree row) :=
  instDecidableAnd

/-- The constraints of `config_values`: the primary key, and the reference to a version. -/
def sqlValues (db : Store) (rows : List (VersionID × ConfigValue)) :
    Except Failure (Answer × Store) :=
  if ((db.configValues ++ rows).map key).Nodup ∧
      ∀ r ∈ rows, r.1 ∈ db.configVersions.map VersionRow.id ∧ RowNulFree r.2 then
    .ok (insertValues db rows)
  else .error .failed

/-- A statement about a tenant, which is parsed first. -/
def forTenant (tenantID : String) (exec : String → Except Failure (Answer × Store)) :
    Except Failure (Answer × Store) :=
  match stringToUUID (textBytes tenantID) with
  | some uuid => exec uuid
  | none => .error .failed

local instance keyEquality : LawfulBEq (String × ℤ) :=
  inferInstance

section SQL

variable (collate : String → String → Bool) (id : VersionID) (db : Store)

/-- **The SQL definition**, with the collation of the database. -/
def sql : Stmt → Except Failure (Answer × Store)
  | .createConfigVersion p => forTenant p.tenantID fun uuid =>
    if ¬ (NulFree p.createdBy ∧ ∀ s ∈ p.description, NulFree s) then .error .failed
    else if (uuid, p.version) ∈ db.configVersions.map (fun v => (v.tenantID, v.version)) then
      .error .conflict
    else if uuid ∈ db.tenants.map Tenant.id then
      .ok (insertVersion db id { p with tenantID := uuid })
    else .error .failed
  | .setConfigValue id row => sqlValues db [(id, row)]
  | .bulkSetConfigValues rows => sqlValues db rows
  | .getConfigVersion tenantID version => forTenant tenantID fun uuid =>
    .ok (.version (db.configVersions.filter fun v =>
      v.tenantID = uuid && v.version = version).head?, db)
  | .getLatestConfigVersion tenantID => forTenant tenantID fun uuid =>
    .ok (.version ((versionsOf db uuid).take 1).head?, db)
  | .listConfigVersions tenantID limit offset => forTenant tenantID fun uuid =>
    if limit < 0 ∨ offset < 0 then .error .failed
    else .ok (.versions (((versionsOf db uuid).drop offset.toNat).take limit.toNat), db)
  | .getConfigValues id => .ok (.values ((db.configValuesOf id).insertionSort
    fun a b => collate a.fieldPath b.fieldPath), db)
  | .getConfigValueAtVersion tenantID fieldPath version => forTenant tenantID fun uuid =>
    if NulFree fieldPath then .ok (.value (valueAtVersion db uuid fieldPath version), db)
    else .error .failed
  | .getFullConfigAtVersion tenantID version => forTenant tenantID fun uuid =>
    -- `DISTINCT ON` keeps the first row of each path
    .ok (.values (((db.configValues.map fun p => p.2.fieldPath).dedup.insertionSort
      fun a b => collate a b).filterMap fun fieldPath =>
        valueAtVersion db uuid fieldPath version), db)
  | .getConfigValuesSince tenantID startVersion => forTenant tenantID fun uuid =>
    .ok (.since ((rowsSince db uuid startVersion).insertionSort fun a b =>
      a.version < b.version ∨ a.version = b.version ∧ collate a.fieldPath b.fieldPath), db)

end SQL

/-- The calls; the callback of `RunInTx` ends with success or with an error. -/
inductive Call where
  | stmt (o : Stmt)
  | runInTx
  | commit
  | rollback

/-- One of the stores. In `RunInTx` there is a clone or a transaction, which is aborted after an
error. -/
structure Side where
  shared : Store
  working : Option (Option Store) := none

/-- The store that the next statement sees. -/
def Side.current (s : Side) : Store :=
  (s.working.getD none).getD s.shared

def Side.call (exec : Store → Stmt → Except Failure (Answer × Store)) (s : Side) :
    Call → Option (Except Failure Answer × Side)
  | .stmt o =>
    match s.working with
    | some none =>
      match o with
      -- an empty batch is not sent
      | .bulkSetConfigValues [] => some (.ok .done, s)
      | _ => some (.error .failed, s)
    | some (some db) =>
      match exec db o with
      | .ok (a, db') => some (.ok a, { s with working := some (some db') })
      | .error e => some (.error e, { s with working := some none })
    | none =>
      match exec s.shared o with
      | .ok (a, db') => some (.ok a, ⟨db', none⟩)
      | .error e => some (.error e, s)
  | .runInTx =>
    if s.working = none then some (.ok .done, ⟨s.shared, some (some s.shared)⟩) else none
  | .commit =>
    match s.working with
    | some (some db) => some (.ok .done, ⟨db, none⟩)
    | some none => some (.error .failed, ⟨s.shared, none⟩)
    | none => none
  | .rollback => if s.working = none then none else some (.ok .done, ⟨s.shared, none⟩)

/-- Both stores, and what the calls have returned. -/
structure Stores where
  memory : Side
  sql : Side
  results : List (Except Failure Answer × Except Failure Answer) := []

/-- A call on both; an identifier that is drawn is the same. -/
def step (collate : String → String → Bool) (s : Stores) (c : Call) : Option Stores :=
  (s.memory.call (memory (0, s.results.length)) c).bind fun m =>
    (s.sql.call (sql collate (0, s.results.length)) c).map fun q =>
      ⟨m.2, q.2, s.results ++ [(m.1, q.1)]⟩

/-- Both stores, empty apart from the tenants. -/
def start (tenants : List Tenant) : Stores :=
  ⟨⟨⟨[], [], tenants, [], [], [], []⟩, none⟩, ⟨⟨[], [], tenants, [], [], [], []⟩, none⟩, []⟩

/-- Values of versions that exist, at new and distinct paths, with texts that can be stored. -/
abbrev Insertable (db : Store) (rows : List (VersionID × ConfigValue)) : Prop :=
  (∀ r ∈ rows, (r.1 ∈ db.configVersions.map VersionRow.id ∧ RowNulFree r.2) ∧
    key r ∉ db.configValues.map key) ∧ (rows.map key).Nodup

/-- The database sorts the paths that are stored by their bytes. -/
abbrev SortsByBytes (collate : String → String → Bool) (db : Store) : Prop :=
  ∀ p ∈ db.configValues, ∀ q ∈ db.configValues,
    collate p.2.fieldPath q.2.fieldPath = decide (p.2.fieldPath ≤ q.2.fieldPath)

/-- The condition on a statement. -/
def Stmt.regular (collate : String → String → Bool) (db : Store) : Stmt → Bool
  | .createConfigVersion p => IsUUIDText p.tenantID ∧
    (NulFree p.createdBy ∧ ∀ s ∈ p.description, NulFree s) ∧ 0 < p.version ∧
    p.tenantID ∈ db.tenants.map Tenant.id ∧
    (p.tenantID, p.version) ∉ db.configVersions.map fun v => (v.tenantID, v.version)
  | .setConfigValue id row => Insertable db [(id, row)]
  | .bulkSetConfigValues rows => Insertable db rows
  | .getConfigVersion tenantID _ | .getLatestConfigVersion tenantID => IsUUIDText tenantID
  | .listConfigVersions tenantID limit offset => IsUUIDText tenantID ∧ 0 < limit ∧ 0 ≤ offset
  | .getConfigValues id =>
    (db.configValuesOf id).Pairwise fun a b => collate a.fieldPath b.fieldPath
  | .getConfigValueAtVersion tenantID fieldPath _ => IsUUIDText tenantID ∧ NulFree fieldPath
  | .getFullConfigAtVersion tenantID _ | .getConfigValuesSince tenantID _ =>
    IsUUIDText tenantID ∧ SortsByBytes collate db

/-- **The step condition**: a tenant is given as a `UUID` in lower case, and no text has a NUL; a
version is of a tenant that exists and has a new, positive number; values are of versions that
exist, at new and distinct paths; a page has a limit; and where paths are sorted, the database
sorts those that are stored as bytes, or the values were set in its order. -/
abbrev Regular (collate : String → String → Bool) (s : Stores) (c : Call) : Prop :=
  (match c with
    | .stmt o => o.regular collate s.memory.current
    | _ => true) = true

/-! ### The queries -/

/-- The loop over positive versions keeps the value of the greatest. -/
theorem foldl_eq_argmax {l : List (ℤ × ConfigValue)} (h : ∀ p ∈ l, 0 < p.1) :
    l.foldl (fun best p => if best.1 < p.1 then (p.1, some p.2) else best) ((0 : ℤ), none) =
      ((l.argmax Prod.fst).map fun p => (p.1, some p.2)).getD (0, none) := by
  induction l using reverseRecOn with
  | nil => rfl
  | append_singleton l a ih =>
    rw [foldl_append, ih fun p hp => h p (mem_append_left _ hp), argmax_concat]
    have ha : 0 < a.1 := h a (by simp)
    cases l.argmax Prod.fst with
    | none => simp [ha]
    | some p => by_cases hp : p.1 < a.1 <;> simp [hp]

variable {db : Store}

/-- A row is the same in both stores. -/
theorem configValueAtVersion_eq (h : ∀ v ∈ db.configVersions, 0 < v.version)
    (tenantID fieldPath : String) (version : ℤ) :
    db.configValueAtVersion tenantID fieldPath version =
      valueAtVersion db tenantID fieldPath version := by
  have hpos : ∀ p ∈ joined db tenantID fieldPath version, 0 < p.1 := by
    intro p hp
    obtain ⟨v, hv, hp⟩ := mem_flatMap.mp hp
    obtain ⟨row, -, rfl⟩ := mem_map.mp hp
    exact h v (mem_filter.mp hv).1
  have hloop : db.configValueAtVersion tenantID fieldPath version =
      ((joined db tenantID fieldPath version).foldl
        (fun best p => if best.1 < p.1 then (p.1, some p.2) else best) (0, none)).2 := by
    simp [Memory.Store.configValueAtVersion, joined, foldl_flatMap, foldl_filter,
      foldl_map, ite_and]
  rw [hloop, foldl_eq_argmax hpos, valueAtVersion]
  cases (joined db tenantID fieldPath version).argmax Prod.fst <;> rfl

/-- The maps at one path, as `GetConfigValueAtVersion` has them in its variables. -/
def best (f : String) (c : Collected) : ℤ × Option ConfigValue :=
  ((c.latestVer.lookup f).getD 0, c.latest.lookup f)

/-- What the loop keeps of a path. -/
theorem best_add (f : String) (c : Collected) (version : ℤ) (row : ConfigValue) :
    best f (c.add version row) =
      if row.fieldPath = f ∧ (best f c).1 < version then (version, some row) else best f c := by
  by_cases hf : row.fieldPath = f
  · subst hf
    rw [Collected.add]
    split <;> simp_all [best]
  · rw [Collected.add]
    split <;> simp [best, hf, AList.lookup_insert_ne (Ne.symm hf)]

/-- The rows that were collected have distinct paths, in order. -/
theorem pairwise_rows (c : Collected) :
    c.rows.Pairwise fun a b => a.fieldPath < b.fieldPath := by
  have hle : c.rows.Pairwise fun a b => a.fieldPath ≤ b.fieldPath := pairwise_insertionSort _ _
  have hkeys : (c.latest.entries.map Sigma.snd).map ConfigValue.fieldPath = c.latest.keys := by
    rw [map_map]
    exact map_congr_left c.keyed
  have hne : (c.rows.map ConfigValue.fieldPath).Nodup :=
    ((perm_insertionSort _ _).map _).nodup_iff.mpr (hkeys ▸ c.latest.nodupKeys)
  exact (hle.and (pairwise_map.mp hne)).imp fun h => lt_of_le_of_ne h.1 h.2

/-- Rows in the order of their paths: a row is there if it is the one that is found. -/
theorem mem_iff_find? {l : List ConfigValue}
    (hl : l.Pairwise fun a b => a.fieldPath < b.fieldPath) {row : ConfigValue} :
    row ∈ l ↔ l.find? (fun r => r.fieldPath = row.fieldPath) = some row := by
  refine ⟨fun hrow => ?_, mem_of_find?_eq_some⟩
  have hnodup : (l.map ConfigValue.fieldPath).Nodup := pairwise_map.mpr (hl.imp ne_of_lt)
  cases hfind : l.find? fun r => r.fieldPath = row.fieldPath with
  | none => exact absurd (find?_eq_none.mp hfind row hrow) (by simp)
  | some r =>
    have hpath : r.fieldPath = row.fieldPath := by simpa using find?_some hfind
    rw [inj_on_of_nodup_map hnodup (mem_of_find?_eq_some hfind) hrow hpath]

theorem find?_rows (c : Collected) (f : String) :
    c.rows.find? (fun r => r.fieldPath = f) = c.latest.lookup f := by
  have hmem : ∀ row : ConfigValue, row ∈ c.rows ↔ c.latest.lookup row.fieldPath = some row := by
    intro row
    rw [Collected.rows, mem_insertionSort, mem_map]
    constructor
    · rintro ⟨⟨g, row⟩, he, rfl⟩
      rw [c.keyed _ he]
      exact AList.mem_lookup_iff.mpr he
    · exact fun h => ⟨_, AList.mem_lookup_iff.mp h, rfl⟩
  refine Option.ext fun row => ⟨fun h => ?_, fun h => ?_⟩
  · obtain rfl : row.fieldPath = f := by simpa using find?_some h
    exact (hmem row).mp (mem_of_find?_eq_some h)
  · obtain rfl : row.fieldPath = f := c.keyed _ (AList.mem_lookup_iff.mp h)
    exact (mem_iff_find? (pairwise_rows c)).mp ((hmem row).mpr h)

/-- A row of the snapshot. -/
theorem find?_fullConfigAtVersion (s : Store) (T f : String) (v : ℤ) :
    (s.fullConfigAtVersion T v).find? (fun r => r.fieldPath = f) =
      s.configValueAtVersion T f v := by
  rw [Memory.Store.fullConfigAtVersion, find?_rows, Memory.Store.configValueAtVersion]
  refine congrArg Prod.snd (foldl_hom (best f) fun c cv => ?_).symm
  split
  · exact foldl_hom (best f) fun c row => (best_add ..).symm
  · rfl

theorem insertionSort_congr {α : Type} {r q : α → α → Prop} [DecidableRel r] [DecidableRel q]
    {l : List α} (h : ∀ a ∈ l, ∀ b ∈ l, r a b ↔ q a b) :
    l.insertionSort r = l.insertionSort q := by
  induction l with
  | nil => rfl
  | cons a l ih =>
    have htail : ∀ m : List α, m ⊆ l → m.orderedInsert r a = m.orderedInsert q a := by
      intro m hm
      induction m with
      | nil => rfl
      | cons b m ihm =>
        have hb := h a mem_cons_self b (mem_cons_of_mem _ (hm mem_cons_self))
        simp only [orderedInsert_cons, hb, ihm fun x hx => hm (mem_cons_of_mem _ hx)]
    rw [insertionSort_cons, insertionSort_cons,
      ih fun b hb d hd => h b (mem_cons_of_mem _ hb) d (mem_cons_of_mem _ hd)]
    exact htail _ fun x hx => (mem_insertionSort _).mp hx

/-- The value of the query is one of the path, and is stored. -/
theorem valueAtVersion_path {T f : String} {v : ℤ} {row : ConfigValue}
    (h : valueAtVersion db T f v = some row) :
    row.fieldPath = f ∧ f ∈ db.configValues.map fun p => p.2.fieldPath := by
  obtain ⟨p, hp, rfl⟩ := Option.map_eq_some_iff.mp h
  obtain ⟨cv, -, hmem⟩ := mem_flatMap.mp (argmax_mem hp)
  obtain ⟨row, hfound, rfl⟩ := mem_map.mp hmem
  obtain ⟨hrow, hf⟩ := mem_filter.mp hfound
  obtain rfl : row.fieldPath = f := by simpa using hf
  obtain ⟨q, hq, rfl⟩ := mem_map.mp hrow
  exact ⟨rfl, mem_map_of_mem (mem_filter.mp hq).1⟩

/-- **The loop with two maps finds what the query does**, in the order of the paths. -/
theorem fullConfigAtVersion_eq (h : ∀ v ∈ db.configVersions, 0 < v.version) (T : String) (v : ℤ) :
    db.fullConfigAtVersion T v =
      ((db.configValues.map fun p => p.2.fieldPath).dedup.insertionSort (· ≤ ·)).filterMap
        fun f => valueAtVersion db T f v := by
  have hrows : (db.fullConfigAtVersion T v).Pairwise fun a b => a.fieldPath < b.fieldPath :=
    pairwise_rows _
  have hpaths : ((db.configValues.map fun p => p.2.fieldPath).dedup.insertionSort (· ≤ ·)).Pairwise
      (· < ·) := by
    have hle := pairwise_insertionSort (· ≤ ·) (db.configValues.map fun p => p.2.fieldPath).dedup
    have hne := (perm_insertionSort (· ≤ ·) _).nodup_iff.mpr
      (nodup_dedup (db.configValues.map fun p => p.2.fieldPath))
    exact (hle.and hne).imp fun h => lt_of_le_of_ne h.1 h.2
  have hquery : (((db.configValues.map fun p => p.2.fieldPath).dedup.insertionSort
      (· ≤ ·)).filterMap fun f => valueAtVersion db T f v).Pairwise
        fun a b => a.fieldPath < b.fieldPath := by
    refine pairwise_filterMap.mpr (hpaths.imp fun hlt a ha b hb => ?_)
    rw [(valueAtVersion_path ha).1, (valueAtVersion_path hb).1]
    exact hlt
  have hperm : (db.fullConfigAtVersion T v).Perm (((db.configValues.map fun p =>
      p.2.fieldPath).dedup.insertionSort (· ≤ ·)).filterMap fun f => valueAtVersion db T f v) := by
    have hnodup : ∀ {l : List ConfigValue}, (l.Pairwise fun a b => a.fieldPath < b.fieldPath) →
        l.Nodup := fun hl => hl.imp fun h heq => absurd (heq ▸ h) (lt_irrefl _)
    refine (perm_ext_iff_of_nodup (hnodup hrows) (hnodup hquery)).mpr fun row => ?_
    rw [mem_iff_find? hrows, find?_fullConfigAtVersion, configValueAtVersion_eq h, mem_filterMap]
    constructor
    · intro hrow
      exact ⟨_, (mem_insertionSort _).mpr (mem_dedup.mpr (valueAtVersion_path hrow).2), hrow⟩
    · rintro ⟨f, -, hrow⟩
      rwa [(valueAtVersion_path hrow).1]
  exact hperm.eq_of_pairwise (fun a b _ _ hab hba => absurd (hab.trans hba) (lt_irrefl _)) hrows
    hquery

/-- The first version in the order of the query is the one that the loop keeps. -/
theorem head?_insertionSort (l : List VersionRow) :
    (l.insertionSort fun a b => b.version ≤ a.version).head? = l.argmax VersionRow.version := by
  induction l with
  | nil => rfl
  | cons a l ih =>
    rw [insertionSort_cons, argmax_cons, ← ih]
    cases l.insertionSort fun a b => b.version ≤ a.version with
    | nil => rfl
    | cons b bs =>
      rw [orderedInsert_cons, head?_cons]
      by_cases hab : a.version < b.version
      · simp [hab, hab.not_ge]
      · simp [hab, not_lt.mp hab]

/-- Tables with a primary key and positive version numbers. -/
structure Valid (db : Store) : Prop where
  positive : ∀ v ∈ db.configVersions, 0 < v.version
  primary : (db.configValues.map key).Nodup

/-- An insert that fits succeeds. -/
theorem Valid.sqlValues (hdb : Valid db) {rows : List (VersionID × ConfigValue)}
    (h : Insertable db rows) :
    sqlValues db rows = .ok (insertValues db rows) ∧ Valid (insertValues db rows).2 := by
  have hnodup : ((db.configValues ++ rows).map key).Nodup := by
    rw [map_append, nodup_append']
    refine ⟨hdb.primary, h.2, fun k hk hk' => ?_⟩
    obtain ⟨r, hr, rfl⟩ := mem_map.mp hk'
    exact (h.1 r hr).2 hk
  rw [ConfigStores.sqlValues, if_pos ⟨hnodup, fun r hr => (h.1 r hr).1⟩]
  exact ⟨rfl, hdb.positive, hnodup⟩

theorem forTenant_eq {T : String} (h : IsUUIDText T)
    (exec : String → Except Failure (Answer × Store)) : forTenant T exec = exec T := by
  rw [forTenant, h]

/-- **A regular statement does the same in both stores.** -/
theorem Valid.exec {o : Stmt} {collate : String → String → Bool} (hdb : Valid db)
    (h : o.regular collate db = true) (id : VersionID) :
    ∃ a db', memory id db o = .ok (a, db') ∧ sql collate id db o = .ok (a, db') ∧ Valid db' := by
  cases o with
  | createConfigVersion p =>
    obtain ⟨huuid, hnul, hpos, htenant, hnew⟩ := of_decide_eq_true h
    refine ⟨_, _, rfl, ?_, ?_, hdb.primary⟩
    · rw [sql, forTenant_eq huuid, if_neg (not_not.mpr hnul), if_neg hnew, if_pos htenant]
      rfl
    · intro v hv
      rcases mem_append.mp hv with hv | hv
      · exact hdb.positive v hv
      · obtain rfl := mem_singleton.mp hv
        exact hpos
  | setConfigValue | bulkSetConfigValues =>
    obtain ⟨hsql, hvalid⟩ := hdb.sqlValues (of_decide_eq_true h)
    exact ⟨_, _, rfl, hsql, hvalid⟩
  | getConfigVersion tenantID version =>
    refine ⟨_, _, rfl, ?_, hdb⟩
    rw [sql, forTenant_eq (of_decide_eq_true h), head?_filter]
    rfl
  | getLatestConfigVersion tenantID =>
    refine ⟨_, _, rfl, ?_, hdb⟩
    rw [sql, forTenant_eq (of_decide_eq_true h), head?_take, if_neg one_ne_zero, versionsOf,
      head?_insertionSort]
  | listConfigVersions tenantID limit offset =>
    obtain ⟨huuid, hlimit, hoffset⟩ := of_decide_eq_true h
    refine ⟨_, _, ?_, by rw [sql, forTenant_eq huuid, if_neg (by omega)], hdb⟩
    simp only [memory, if_pos hlimit, if_neg hoffset.not_gt]
  | getConfigValues id =>
    have hsorted := List.Pairwise.insertionSort_eq (of_decide_eq_true h)
    exact ⟨_, _, rfl, by rw [sql, hsorted], hdb⟩
  | getConfigValueAtVersion tenantID fieldPath version =>
    obtain ⟨huuid, hnul⟩ := of_decide_eq_true h
    refine ⟨_, _, rfl, ?_, hdb⟩
    rw [sql, forTenant_eq huuid, if_pos hnul, configValueAtVersion_eq hdb.positive]
  | getFullConfigAtVersion tenantID version =>
    obtain ⟨huuid, hcollate⟩ := of_decide_eq_true h
    refine ⟨_, _, rfl, ?_, hdb⟩
    rw [sql, forTenant_eq huuid, fullConfigAtVersion_eq hdb.positive]
    rw [insertionSort_congr (q := (· ≤ ·))]
    intro f hf g hg
    obtain ⟨p, hp, rfl⟩ := mem_map.mp (mem_dedup.mp hf)
    obtain ⟨q, hq, rfl⟩ := mem_map.mp (mem_dedup.mp hg)
    rw [hcollate p hp q hq, decide_eq_true_eq]
  | getConfigValuesSince tenantID startVersion =>
    obtain ⟨huuid, hcollate⟩ := of_decide_eq_true h
    refine ⟨_, _, rfl, ?_, hdb⟩
    have hmem : ∀ a ∈ rowsSince db tenantID startVersion,
        ∃ p ∈ db.configValues, p.2.fieldPath = a.fieldPath := by
      intro a ha
      obtain ⟨cv, -, ha⟩ := mem_flatMap.mp ha
      obtain ⟨row, hrow, rfl⟩ := mem_map.mp ha
      obtain ⟨p, hp, rfl⟩ := mem_map.mp hrow
      exact ⟨p, (mem_filter.mp hp).1, rfl⟩
    rw [sql, forTenant_eq huuid, insertionSort_congr (q := ConfigValueSince.Le)]
    · rfl
    · intro a ha b hb
      obtain ⟨p, hp, hpa⟩ := hmem a ha
      obtain ⟨q, hq, hqb⟩ := hmem b hb
      rw [← hpa, ← hqb, hcollate p hp q hq, decide_eq_true_eq, ConfigValueSince.Le, hpa, hqb]

/-- What regular calls keep: the stores are equal, no transaction is aborted, and the results
were the same. -/
structure Agree (s : Stores) : Prop where
  equal : s.sql = s.memory
  shared : Valid s.memory.shared
  working : ∀ w, s.memory.working = some w → ∃ db, w = some db ∧ Valid db
  results : ∀ r ∈ s.results, r.1 = r.2

/-- A call keeps the stores in agreement. -/
theorem Agree.step {collate : String → String → Bool} {s s' : Stores} {c : Call} (h : Agree s)
    (hok : Regular collate s c) (hs : step collate s c = some s') : Agree s' := by
  obtain ⟨⟨shared, working⟩, q, results⟩ := s
  obtain ⟨hq, hshared, hworking, hresults⟩ := h
  cases hq
  have hadd : ∀ x, ∀ r ∈ results ++ [(x, x)], r.1 = r.2 := by
    intro x r hr
    rcases mem_append.mp hr with hr | hr
    · exact hresults r hr
    · rw [mem_singleton.mp hr]
  cases working with
  | none =>
    cases c with
    | stmt o =>
      obtain ⟨a, db', hm, hq, hv⟩ := hshared.exec hok (0, results.length)
      simp only [ConfigStores.step, Side.call, hm, hq] at hs
      cases hs
      exact ⟨rfl, hv, nofun, hadd _⟩
    | runInTx =>
      cases hs
      exact ⟨rfl, hshared, fun w hw => ⟨shared, (Option.some.inj hw).symm, hshared⟩, hadd _⟩
    | commit | rollback => cases hs
  | some w =>
    obtain ⟨db, rfl, hdb⟩ := hworking w rfl
    cases c with
    | stmt o =>
      obtain ⟨a, db', hm, hq, hv⟩ := hdb.exec hok (0, results.length)
      simp only [ConfigStores.step, Side.call, hm, hq] at hs
      cases hs
      exact ⟨rfl, hshared, fun w hw => ⟨db', (Option.some.inj hw).symm, hv⟩, hadd _⟩
    | runInTx => cases hs
    | commit =>
      cases hs
      exact ⟨rfl, hdb, nofun, hadd _⟩
    | rollback =>
      cases hs
      exact ⟨rfl, hshared, nofun, hadd _⟩

/-- **Both stores return the same results**, whatever the collation, along every run of regular
calls. -/
theorem results_agree {collate : String → String → Bool} {tenants : List Tenant} {s : Stores}
    (hr : Machine.Reach (step collate) (Regular collate) (start tenants) s) :
    ∀ r ∈ s.results, r.1 = r.2 := by
  have h : Agree s := hr.invariant Agree ⟨rfl, ⟨nofun, .nil⟩, nofun, nofun⟩
    fun s s' c _ hi hok hs => hi.step hok hs
  exact h.results

namespace Sample

def owner : Tenant :=
  ⟨Decree.Sample.tenant, "t", "s", 1, false⟩

/-- The collation `C`. -/
def byBytes (a b : String) : Bool :=
  a ≤ b

def first : Call :=
  .stmt (.createConfigVersion ⟨owner.id, 1, none, "x"⟩)

def rows (paths : List String) : List ConfigValue :=
  paths.map fun f => ⟨f, some "1", none, none⟩

def values (id : VersionID) (paths : List String) : Call :=
  .stmt (.bulkSetConfigValues ((rows paths).map (id, ·)))

end Sample

open ConfigStores.Sample

theorem results_agree_transaction :
    ∃ s, Machine.Reach (step byBytes) (Regular byBytes) (start [owner]) s ∧
      (s.results.map Prod.fst).getLast? = some (.ok (.values (rows ["a", "b"]))) ∧
      ∀ r ∈ s.results, r.1 = r.2 := by
  obtain ⟨s, hr, hlast⟩ : ∃ s, Machine.Reach (step byBytes) (Regular byBytes) (start [owner]) s ∧
      (s.results.map Prod.fst).getLast? = some (.ok (.values (rows ["a", "b"]))) :=
    Machine.exists_reach_of_run [.runInTx, first, values (0, 1) ["b", "a"], .commit,
      .stmt (.getFullConfigAtVersion owner.id 1)] (by decide +kernel)
  exact ⟨s, hr, hlast, results_agree hr⟩

/-- The memory store creates a version twice, and takes a batch with one path twice. -/
theorem results_differ : (∃ s, Machine.Reach (step byBytes) Machine.anyStep (start [owner]) s ∧
      s.results.getLast? = some (.ok (.version (some ⟨(0, 1), owner.id, 1, none, "x"⟩)),
        .error .conflict)) ∧
    ∃ s, Machine.Reach (step byBytes) Machine.anyStep (start [owner]) s ∧
      s.results.getLast? = some (.ok .done, .error .failed) :=
  ⟨Machine.exists_reach_of_run [first, first] (by decide +kernel),
    Machine.exists_reach_of_run [first, values (0, 0) ["a", "a"]] (by decide +kernel)⟩

end Decree.ConfigStores
