import Decree.Events

/-!
# What `DiffVersions` Lists

A field of a snapshot is absent, null, or has a string. `DiffVersions`
(`internal/config/service.go`, `diff.go`) reads the snapshots of its two versions into maps of
strings, in which a null is the empty string, and lists what differs between the maps. So it says
nothing about a null that has become the empty string, or the other way, and of a field that has
become null it says that it has become empty. `Compare` of the SDK (`sdk/tools/diff/diff.go`)
lists the same.

## Main results

* `diff_laws`: the laws of the listing.
* `diffVersions_tells_iff`: when it tells the difference.
-/

open Interleave List

namespace Decree

/-! ### Snapshots -/

/-- What a snapshot has of a field: it is absent, null, or has a string. -/
abbrev Snapshot := String → Option (Option String)

/-- The resolved snapshot of a log at a version. -/
def snapshotAt (L : List ConfigVersion) (version : ℤ) : Snapshot := fun f =>
  (configValueAtVersion L version f).map ConfigValue.value

def applyDiffs (diffs : List FieldDiff) (old : Snapshot) : Snapshot := fun f =>
  match diffs.find? fun d => d.fieldPath = f with
  | none => old f
  | some d => if d.changeType = .removed then none else some (some d.newValue)

/-- A listing **tells the difference** of two snapshots: it has an entry for exactly the fields
that differ, and leads from the one to the other. -/
structure Tells (diffs : List FieldDiff) (old updated : Snapshot) : Prop where
  listed : ∀ f, (∃ d ∈ diffs, d.fieldPath = f) ↔ old f ≠ updated f
  applied : applyDiffs diffs old = updated

/-! ### The listing -/

section Listing

variable {old updated : List (String × String)} {f : String} {d : FieldDiff}

/-- The map that `DiffVersions` makes of rows. -/
def configMapOf (rows : List ConfigValue) : List (String × String) :=
  rows.map fun row => (row.fieldPath, derefString row.value)

/-- An entry is at its path. -/
theorem diffEntry_path (h : diffEntry old updated f = some d) : d.fieldPath = f := by
  unfold diffEntry at h
  split at h
  · rw [← Option.some.inj h]
  · rw [← Option.some.inj h]
  · split at h
    · rw [← Option.some.inj h]
    · exact absurd h nofun
  · exact absurd h nofun

theorem diffEntry_of_mem (h : d ∈ diffConfigMaps old updated) :
    diffEntry old updated d.fieldPath = some d := by
  obtain ⟨f, -, hd⟩ := mem_filterMap.mp h
  rw [diffEntry_path hd, hd]

/-- What is listed. -/
theorem mem_diffConfigMaps_iff :
    d ∈ diffConfigMaps old updated ↔ diffEntry old updated d.fieldPath = some d := by
  refine ⟨diffEntry_of_mem, fun h => mem_filterMap.mpr ⟨d.fieldPath, ?_, h⟩⟩
  have hkey : ∀ {l : List (String × String)} {v : String}, l.lookup d.fieldPath = some v →
      d.fieldPath ∈ l.map Prod.fst := by
    intro l v hl
    obtain ⟨l1, l2, rfl, -⟩ := lookup_eq_some_iff.mp hl
    simp
  rw [mem_insertionSort, mem_dedup, map_append, mem_append]
  cases hold : old.lookup d.fieldPath with
  | some v => exact .inl (hkey hold)
  | none =>
    cases hupdated : updated.lookup d.fieldPath with
    | some v => exact .inr (hkey hupdated)
    | none => simp [diffEntry, hold, hupdated] at h

/-- The entry listed for a path. -/
theorem find_diffConfigMaps (old updated : List (String × String)) (f : String) :
    (diffConfigMaps old updated).find? (fun d => d.fieldPath = f) = diffEntry old updated f := by
  cases hfind : (diffConfigMaps old updated).find? fun d => d.fieldPath = f with
  | some d =>
    obtain rfl : d.fieldPath = f := by simpa using find?_some hfind
    exact (mem_diffConfigMaps_iff.mp (mem_of_find?_eq_some hfind)).symm
  | none =>
    cases hentry : diffEntry old updated f with
    | none => rfl
    | some d =>
      obtain rfl := diffEntry_path hentry
      simpa using find?_eq_none.mp hfind d (mem_diffConfigMaps_iff.mpr hentry)

/-- A path is listed when its values differ. -/
theorem exists_diff_iff :
    (∃ d ∈ diffConfigMaps old updated, d.fieldPath = f) ↔ old.lookup f ≠ updated.lookup f := by
  have hsome : (∃ d ∈ diffConfigMaps old updated, d.fieldPath = f) ↔
      (diffEntry old updated f).isSome = true := by
    rw [Option.isSome_iff_exists]
    constructor
    · rintro ⟨d, hd, rfl⟩
      exact ⟨d, mem_diffConfigMaps_iff.mp hd⟩
    · rintro ⟨d, hd⟩
      obtain rfl := diffEntry_path hd
      exact ⟨d, mem_diffConfigMaps_iff.mpr hd, rfl⟩
  rw [hsome, diffEntry]
  cases old.lookup f <;> cases updated.lookup f <;> simp

/-- What the listing changes. -/
theorem applyDiffs_diffConfigMaps (snap : Snapshot) :
    applyDiffs (diffConfigMaps old updated) snap f =
      if old.lookup f = updated.lookup f then snap f else (updated.lookup f).map some := by
  rw [applyDiffs, find_diffConfigMaps, diffEntry]
  cases old.lookup f with
  | none => cases updated.lookup f <;> simp
  | some oldVal =>
    cases updated.lookup f with
    | none => simp
    | some newVal => by_cases h : oldVal = newVal <;> simp [h]

end Listing

/-! ### The listing of the SDK -/

namespace ConfigDiff

inductive ChangeType where
  | added
  | removed
  | modified

structure FieldChange where
  path : String
  type : ChangeType
  oldValue : String := ""
  newValue : String := ""

/-- One turn of the loop of `Compare`. A value that is not in a map is empty. -/
def addChange (old updated : List (String × String)) (changes : List FieldChange) (p : String) :
    List FieldChange :=
  let oldVal := (old.lookup p).getD ""
  let inOld := (old.lookup p).isSome
  let newVal := (updated.lookup p).getD ""
  let inNew := (updated.lookup p).isSome
  if inOld && !inNew then changes ++ [{ path := p, type := .removed, oldValue := oldVal }]
  else if !inOld && inNew then changes ++ [{ path := p, type := .added, newValue := newVal }]
  else if oldVal ≠ newVal then changes ++ [⟨p, .modified, oldVal, newVal⟩]
  else changes

def compare (old updated : List (String × String)) : List FieldChange :=
  (((old ++ updated).map Prod.fst).dedup.insertionSort (· ≤ ·)).foldl (addChange old updated) []

/-- The kind of a change, in the words of the server. -/
def ChangeType.toServer : ChangeType → Decree.ChangeType
  | .added => .added
  | .removed => .removed
  | .modified => .modified

def FieldChange.toServer (c : FieldChange) : FieldDiff :=
  ⟨c.path, c.type.toServer, c.oldValue, c.newValue⟩

/-- A change of the client is one of the server. -/
theorem addChange_toServer (old updated : List (String × String)) (changes : List FieldChange)
    (p : String) : (addChange old updated changes p).map FieldChange.toServer =
      changes.map FieldChange.toServer ++ (diffEntry old updated p).toList := by
  unfold addChange diffEntry
  cases old.lookup p with
  | none => cases updated.lookup p <;> simp [FieldChange.toServer, ChangeType.toServer]
  | some a =>
    cases updated.lookup p with
    | none => simp [FieldChange.toServer, ChangeType.toServer]
    | some b => by_cases h : a = b <;> simp [h, FieldChange.toServer, ChangeType.toServer]

/-- The client lists what the server does. -/
theorem compare_toServer (old updated : List (String × String)) :
    (compare old updated).map FieldChange.toServer = diffConfigMaps old updated := by
  have hloop : ∀ paths changes, (foldl (addChange old updated) changes paths).map
      FieldChange.toServer = changes.map FieldChange.toServer ++
        paths.filterMap (diffEntry old updated) := by
    intro paths
    induction paths with
    | nil => simp
    | cons p paths ih =>
      intro changes
      rw [foldl_cons, ih, addChange_toServer, append_assoc, filterMap_cons]
      cases diffEntry old updated p <;> rfl
  rw [compare, hloop, diffConfigMaps]
  rfl

end ConfigDiff

/-! ### The laws of the listing -/

/-- An entry of the listing the other way. -/
def FieldDiff.swap (d : FieldDiff) : FieldDiff where
  fieldPath := d.fieldPath
  changeType :=
    match d.changeType with
    | .added => .removed
    | .removed => .added
    | .modified => .modified
  oldValue := d.newValue
  newValue := d.oldValue

/-- The listing the other way around. -/
theorem diffEntry_swap (old updated : List (String × String)) (f : String) :
    diffEntry updated old f = (diffEntry old updated f).map FieldDiff.swap := by
  unfold diffEntry
  cases old.lookup f with
  | none => cases updated.lookup f <;> rfl
  | some a =>
    cases updated.lookup f with
    | none => rfl
    | some b => by_cases h : a = b <;> simp [h, Ne.symm, FieldDiff.swap]

theorem paths_comm (old updated : List (String × String)) :
    ((updated ++ old).map Prod.fst).dedup.insertionSort (· ≤ ·) =
      ((old ++ updated).map Prod.fst).dedup.insertionSort (· ≤ ·) := by
  refine Perm.eq_of_pairwise' (pairwise_insertionSort _ _) (pairwise_insertionSort _ _) ?_
  have hperm : ((updated ++ old).map Prod.fst).Perm ((old ++ updated).map Prod.fst) :=
    perm_append_comm.map _
  exact (perm_insertionSort _ _).trans (hperm.dedup.trans (perm_insertionSort _ _).symm)

/-- **The laws of the listing**: it is sorted by path, leads from the old map to the new one, is
turned round with its arguments, and is that of the SDK. -/
theorem diff_laws (old updated : List (String × String)) :
    (diffConfigMaps old updated).Pairwise (·.fieldPath < ·.fieldPath) ∧
    (applyDiffs (diffConfigMaps old updated) fun f => (old.lookup f).map some) =
      (fun f => (updated.lookup f).map some) ∧
    diffConfigMaps updated old = (diffConfigMaps old updated).map FieldDiff.swap ∧
    (ConfigDiff.compare old updated).map ConfigDiff.FieldChange.toServer =
      diffConfigMaps old updated := by
  refine ⟨?_, ?_, ?_, ConfigDiff.compare_toServer old updated⟩
  · have hsorted := pairwise_insertionSort (· ≤ ·) ((old ++ updated).map Prod.fst).dedup
    have hnodup := (perm_insertionSort (· ≤ ·) _).nodup_iff.mpr
      (nodup_dedup ((old ++ updated).map Prod.fst))
    refine (hsorted.and hnodup).filterMap _ fun f g hlt d hd e he => ?_
    rw [diffEntry_path hd, diffEntry_path he]
    exact Std.lt_of_le_of_ne hlt.1 hlt.2
  · funext f
    rw [applyDiffs_diffConfigMaps]
    split_ifs with h
    · rw [h]
    · rfl
  · rw [diffConfigMaps, diffConfigMaps, paths_comm, map_filterMap]
    exact filterMap_congr fun f _ => diffEntry_swap old updated f

/-! ### Maps of strings -/

/-- The map of a snapshot has the empty string for a null. -/
theorem lookup_configMapOf (L : List ConfigVersion) (v : ℤ) (f : String) :
    (configMapOf (fullConfigAtVersion L v)).lookup f = (snapshotAt L v f).map derefString := by
  have hlookup : ∀ rows : List ConfigValue, (configMapOf rows).lookup f =
      (rows.find? fun r => r.fieldPath = f).map fun r => derefString r.value := by
    intro rows
    induction rows with
    | nil => rfl
    | cons row rows ih =>
      rw [configMapOf, map_cons, lookup_cons, find?_cons]
      by_cases hf : row.fieldPath = f
      · simp [hf]
      · have hne : (f == row.fieldPath) = false := beq_eq_false_iff_ne.mpr (Ne.symm hf)
        simpa [configMapOf, hne, hf] using ih
  rw [hlookup, find_fullConfigAtVersion, snapshotAt, Option.map_map]
  rfl

/-- The strings of two entries are the same when the entries are, or one is null and the other is
empty. -/
theorem map_derefString_eq_iff {a b : Option (Option String)} :
    a.map derefString = b.map derefString ↔
      a = b ∨ a = some none ∧ b = some (some "") ∨ a = some (some "") ∧ b = some none := by
  rcases a with _ | _ | a <;> rcases b with _ | _ | b <;> simp [derefString, eq_comm]

/-- **When the listing tells the difference**: no field has become null, and none has become
empty from null. -/
theorem tells_iff {L L' : List ConfigVersion} {v w : ℤ} :
    Tells (diffConfigMaps (configMapOf (fullConfigAtVersion L v))
        (configMapOf (fullConfigAtVersion L' w))) (snapshotAt L v) (snapshotAt L' w) ↔
      ∀ f, snapshotAt L v f ≠ snapshotAt L' w f → snapshotAt L' w f ≠ some none ∧
        ¬ (snapshotAt L v f = some none ∧ snapshotAt L' w f = some (some "")) := by
  have hlisted : ∀ f, (∃ d ∈ diffConfigMaps (configMapOf (fullConfigAtVersion L v))
      (configMapOf (fullConfigAtVersion L' w)), d.fieldPath = f) ↔
        (snapshotAt L v f).map derefString ≠ (snapshotAt L' w f).map derefString := by
    intro f
    rw [exists_diff_iff, lookup_configMapOf, lookup_configMapOf]
  have happlied : ∀ f, applyDiffs (diffConfigMaps (configMapOf (fullConfigAtVersion L v))
      (configMapOf (fullConfigAtVersion L' w))) (snapshotAt L v) f =
        if (snapshotAt L v f).map derefString = (snapshotAt L' w f).map derefString
        then snapshotAt L v f else ((snapshotAt L' w f).map derefString).map some := by
    intro f
    rw [applyDiffs_diffConfigMaps, lookup_configMapOf, lookup_configMapOf]
  constructor
  · intro h f hne
    have hdiff := (hlisted f).mp ((h.listed f).mpr hne)
    have happ := congrFun h.applied f
    rw [happlied, if_neg hdiff] at happ
    refine ⟨?_, ?_⟩
    · intro hnull
      simp [hnull] at happ
    · rintro ⟨hnull, hempty⟩
      exact hdiff (by simp [hnull, hempty, derefString])
  · intro h
    have hsame : ∀ f, (snapshotAt L v f).map derefString =
        (snapshotAt L' w f).map derefString → snapshotAt L v f = snapshotAt L' w f := by
      intro f hf
      by_contra hne
      obtain ⟨hnull, hempty⟩ := h f hne
      rcases map_derefString_eq_iff.mp hf with heq | hto | ⟨-, hto⟩
      · exact hne heq
      · exact hempty hto
      · exact hnull hto
    refine ⟨fun f => ?_, funext fun f => ?_⟩
    · rw [hlisted]
      exact not_congr ⟨hsame f, fun heq => by rw [heq]⟩
    · rw [happlied]
      split
      · rename_i heq
        exact hsame f heq
      · rename_i hdiff
        have hnull := (h f fun heq => hdiff (by rw [heq])).1
        rcases hnew : snapshotAt L' w f with _ | _ | value
        · rfl
        · exact absurd hnew hnull
        · rfl

/-! ### Runs -/

section Runs

variable {env : Env} {init : Init} {allowed : System → ℕ → Choice → Prop} {c : System} {t : ℕ}

/-- What `DiffVersions` has read. -/
theorem diffVersions_trace {caller : Caller} {req : DiffVersionsRequest} {reply : Reply}
    {h : Hist} (hrun : Runs (diffVersions env caller req).run h (.ok reply)) :
    ∃ T header header' rows rows' s1 s2 s3 s4, Resolved req.tenantId T h ∧
      [readEvent false (.configVersion T req.fromVersion) (.ok header) s1,
        readEvent false (.configVersion T req.toVersion) (.ok header') s2,
        readEvent false (.fullConfigAtVersion T req.fromVersion) (.ok rows) s3,
        readEvent false (.fullConfigAtVersion T req.toVersion) (.ok rows') s4] <+ h ∧
      reply = .diffs (diffConfigMaps (configMapOf rows) (configMapOf rows')) := by
  obtain ⟨e1, r1, _, rfl, -, h1⟩ := runs_bind_ok hrun
  obtain ⟨e2, r2, T, rfl, hres, h2⟩ := runs_bind_ok h1
  obtain ⟨e3, r3, header, rfl, hheader, h3⟩ := runs_bind_ok h2
  obtain ⟨e4, r4, header', rfl, hheader', h4⟩ := runs_bind_ok h3
  obtain ⟨e5, r5, old, rfl, hold, h5⟩ := runs_bind_ok h4
  obtain ⟨e6, r6, updated, rfl, hupdated, h6⟩ := runs_bind_ok h5
  obtain ⟨s1, rfl⟩ := runs_fetch.mp hheader
  obtain ⟨s2, rfl⟩ := runs_fetch.mp hheader'
  obtain ⟨_, _, rows, rfl, hrows, hret⟩ := runs_bind_ok hold
  obtain ⟨s3, rfl⟩ := runs_fetch.mp hrows
  obtain ⟨rfl, rfl⟩ := runs_pure_ok.mp hret
  obtain ⟨_, _, rows', rfl, hrows', hret'⟩ := runs_bind_ok hupdated
  obtain ⟨s4, rfl⟩ := runs_fetch.mp hrows'
  obtain ⟨rfl, rfl⟩ := runs_pure_ok.mp hret'
  obtain ⟨rfl, hreply⟩ := runs_pure_ok.mp h6
  refine ⟨T, header, header', rows, rows', s1, s2, s3, s4,
    (resolved_of_runs_withAccess hres).mono (sub_skip sub_here), ?_, hreply.symm⟩
  refine sub_skip2 ?_
  simp [readEvent]

/-- A header is that of a committed version. -/
theorem committed_of_header (hr : Reach exec allowed (init.system env) c) {T : String} {v : ℤ}
    {header : VersionHeader} {s : State}
    (he : readEvent false (.configVersion T v) (.ok header) s ∈ (c.pool t).hist) :
    v ∈ versionNumbers (s.db.log T) := by
  have hread := found_eq_ok.mp (read_ok hr he)
  obtain ⟨V, hV, -⟩ := Option.map_eq_some_iff.mp hread
  have hnum : V.version = v := by simpa using find?_some hV
  exact mem_map.mpr ⟨V, mem_of_find?_eq_some hV, hnum⟩

/-- **`DiffVersions` tells the difference** of the two snapshots it has read exactly when no field
has become null, and none has become empty from null. Both versions are committed. -/
theorem diffVersions_tells_iff (hr : Reach exec allowed (init.system env) c) {caller : Caller}
    {req : DiffVersionsRequest} (hcall : init.calls t = .diffVersions caller req)
    {diffs : List FieldDiff} (hret : c.returned t = some (.ok (.diffs diffs))) :
    ∃ T rows rows' s s', c.shared.db.tenantOf req.tenantId = some T ∧
      readEvent false (.fullConfigAtVersion T req.fromVersion) (.ok rows) s ∈ (c.pool t).hist ∧
      readEvent false (.fullConfigAtVersion T req.toVersion) (.ok rows') s' ∈ (c.pool t).hist ∧
      req.fromVersion ∈ versionNumbers (s.db.log T) ∧
      req.toVersion ∈ versionNumbers (s'.db.log T) ∧
      (Tells diffs (snapshotAt (s.db.log T) req.fromVersion)
          (snapshotAt (s'.db.log T) req.toVersion) ↔
        ∀ f, snapshotAt (s.db.log T) req.fromVersion f ≠ snapshotAt (s'.db.log T) req.toVersion f →
          snapshotAt (s'.db.log T) req.toVersion f ≠ some none ∧
            ¬ (snapshotAt (s.db.log T) req.fromVersion f = some none ∧
              snapshotAt (s'.db.log T) req.toVersion f = some (some ""))) := by
  have hafter := returned_runs hr hret
  rw [hcall] at hafter
  obtain ⟨T, header, header', rows, rows', s1, s2, s3, s4, hres, hsub, hreply⟩ :=
    diffVersions_trace hafter
  obtain rfl : diffs = _ := by simpa using hreply
  have hmem := hsub.subset
  simp only [cons_subset, nil_subset, and_true] at hmem
  obtain ⟨hheader, hheader', hrows, hrows'⟩ := hmem
  obtain rfl := Except.ok.inj (read_ok hr hrows)
  obtain rfl := Except.ok.inj (read_ok hr hrows')
  have hgrow : ∀ {v : ℤ} {s s' : State}, s.le s' → v ∈ versionNumbers (s.db.log T) →
      v ∈ versionNumbers (s'.db.log T) := fun hle hv =>
    ((hle.log T).sublist.map _).subset hv
  have hle := le_of_pair hr
    ((Sublist.cons_cons _ (.cons _ (.cons_cons _ (nil_sublist _)))).trans hsub)
  have hle' := le_of_pair hr
    ((Sublist.cons _ (.cons_cons _ (.cons _ (.cons_cons _ (nil_sublist _))))).trans hsub)
  exact ⟨T, _, _, s3, s4, tenantOf_now hr hres, hrows, hrows',
    hgrow hle (committed_of_header hr hheader), hgrow hle' (committed_of_header hr hheader'),
    tells_iff⟩

end Runs

/-! ### A null and the empty string -/

theorem snapshotAt_ne_null {L : List ConfigVersion}
    (hL : ∀ V ∈ L, ∀ row ∈ V.values, row.value ≠ none) (v : ℤ) (f : String) :
    snapshotAt L v f ≠ some none := by
  intro hnull
  obtain ⟨row, hrow, hvalue⟩ := Option.map_eq_some_iff.mp hnull
  obtain ⟨V, hV, -, hmem⟩ := DeltaLog.exists_of_rowAt_eq_some hrow
  exact hL V hV row (mem_of_find?_eq_some hmem) hvalue

namespace Sample

def writeB (value : Option String) : Call :=
  .setField superadmin { tenantId := tenant, fieldPath := "b", value := value.map .stringValue }

def compares (first second : Option String) : Init :=
  Sample.init [] [writeB first, writeB second,
    .diffVersions superadmin { tenantId := tenant, fromVersion := 1, toVersion := 2 }]

def listedBy (c : System) (t : ℕ) : Option (List FieldDiff) :=
  match c.returned t with
  | some (.ok (.diffs diffs)) => some diffs
  | _ => none

theorem listedBy_eq_some {c : System} {t : ℕ} {diffs : List FieldDiff} :
    listedBy c t = some diffs ↔ c.returned t = some (.ok (.diffs diffs)) := by
  rw [listedBy]
  split
  · rename_i h
    simp [h]
  · rename_i hne
    simpa using fun h => hne _ h

end Sample

open Sample

theorem diffVersions_tells_change :
    ∃ (c : System) (diffs : List FieldDiff) (s s' : State), Reach exec anyStep
        ((compares (some "x") (some "y")).system (world noDocument)) c ∧
      c.returned 2 = some (.ok (.diffs diffs)) ∧ s.le c.shared ∧ s'.le c.shared ∧
      Tells diffs (snapshotAt (s.db.log tenant) 1) (snapshotAt (s'.db.log tenant) 2) := by
  obtain ⟨c, hr, hlist, hT, hnulls⟩ : ∃ c, Reach exec anyStep
        ((compares (some "x") (some "y")).system (world noDocument)) c ∧
      (listedBy c 2).isSome = true ∧
      c.shared.db.tenantOf tenant = some tenant ∧
      ∀ V ∈ c.shared.db.log tenant, ∀ row ∈ V.values, row.value ≠ none :=
    exists_reach_of_run (steps 0 16 ++ steps 1 17 ++ steps 2 4) (by decide +kernel)
  obtain ⟨diffs, hdiffs⟩ := Option.isSome_iff_exists.mp hlist
  have hret := listedBy_eq_some.mp hdiffs
  obtain ⟨T, rows, rows', s, s', hT', he, he', -, -, htells⟩ := diffVersions_tells_iff hr rfl hret
  obtain rfl := Option.some.inj (hT.symm.trans hT')
  have hnull : ∀ {s : State}, s.le c.shared → ∀ v f,
      snapshotAt (s.db.log tenant) v f ≠ some none := fun hle v f =>
    snapshotAt_ne_null (fun V hV => hnulls V ((hle.log _).subset hV)) v f
  have hle : s.le c.shared := le_of_mem hr he
  have hle' : s'.le c.shared := le_of_mem hr he'
  exact ⟨c, diffs, s, s', hr, hret, hle, hle',
    htells.mpr fun f _ => ⟨hnull hle' 2 f, fun h => hnull hle 1 f h.1⟩⟩

/-- A field that goes from the empty string to null is not listed. -/
theorem diffVersions_misses_null : ∃ c, Reach exec anyStep
        ((compares (some "") none).system (world noDocument)) c ∧
      c.returned 2 = some (.ok (.diffs [])) ∧
      snapshotAt (c.shared.db.log tenant) 1 "b" = some (some "") ∧
      snapshotAt (c.shared.db.log tenant) 2 "b" = some none := by
  obtain ⟨c, hr, hlist, hold, hnew⟩ : ∃ c, Reach exec anyStep
        ((compares (some "") none).system (world noDocument)) c ∧
      listedBy c 2 = some [] ∧
      snapshotAt (c.shared.db.log tenant) 1 "b" = some (some "") ∧
      snapshotAt (c.shared.db.log tenant) 2 "b" = some none :=
    exists_reach_of_run (steps 0 16 ++ steps 1 17 ++ steps 2 4) (by decide +kernel)
  exact ⟨c, hr, listedBy_eq_some.mp hlist, hold, hnew⟩

end Decree
