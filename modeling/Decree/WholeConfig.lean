import Decree.Json
import Decree.Versions

/-!
# Calls That Set the Whole Config

`RollbackToVersion` is meant to bring back the config of an earlier version, and
`ImportConfig` in `replace` mode to leave exactly the config of a document. Both write the
rows of the config they aim at and no others, on a log of deltas in which a path without a
row keeps the row it had. So each reaches its aim exactly if the config it replaces has no
path beyond that aim; a path that was set since stays.

What the value of a document is, is said apart from the import (`YamlValue.HeldBy`): a null, a
string as it is written, or a number, a boolean or a structure that the stored text is read as.
The import does not keep all of them. A null becomes the empty string, an integer at a number field
is rounded to a floating-point number, and a number beyond 64 bits at an integer field is cut
(`YamlValue.Kept`).

## Main results

* `rollback_restores_iff`: when the snapshot after a rollback is that of its target.
* `heldBy_iff_kept`: which values of a document the import keeps.
* `replace_import_exact_iff`: when the snapshot after a replacing import is the document.
-/

open Go Interleave List

namespace Decree

variable {env : Env} {init : Init} {allowed : System → ℕ → Choice → Prop} {c c' c₁ c₂ : System}
  {t : ℕ} {T : String} {L : List ConfigVersion} {V : ConfigVersion} {tx : Tx} {caller : Caller}

/-- A call that began when its request named a tenant writes for that tenant. -/
theorem CommitStep.tenant_unique {T' : String} (hc : CommitStep env init allowed T' L V tx c₁ c₂)
    (hbegun : ∀ e ∈ (c₁.pool V.writer).hist, c.shared.le e.pre)
    (hT : (init.calls V.writer).tenantId.bind c.shared.db.tenantOf = some T) : T' = T := by
  obtain ⟨w, hw⟩ | ⟨-, caller, req, hseed⟩ := hc.write_or_seed
  · obtain ⟨idOrName, hid, hres⟩ := hw.source.resolved
    rw [hid, Option.bind_some] at hT
    rw [hw.tenant] at hres
    rcases tenantOf_of_resolved hc.reach hres with hall | ⟨e, he, hT'⟩
    · exact Option.some.inj ((hall _).symm.trans hT)
    · exact Option.some.inj (hT'.symm.trans ((hbegun e he).tenantOf hT))
  · rw [hseed.call] at hT
    cases hT

/-! ### Rollback -/

theorem CommitStep.rollback_row (hc : CommitStep env init allowed T L V tx c₁ c₂)
    {req : RollbackRequest} (hcall : init.calls V.writer = .rollbackToVersion caller req)
    (hseen : ∀ e ∈ (c₁.pool V.writer).hist, req.version ∈ versionNumbers (e.pre.db.log T))
    (f : String) : V.row f = configValueAtVersion L req.version f := by
  obtain ⟨w, hw⟩ | ⟨-, caller', req', hseed⟩ := hc.write_or_seed
  · have hsrc := hw.source
    rw [hcall] at hsrc
    obtain rfl := hw.tenant
    cases hsrc with
    | @rollbackToVersion _ _ T _ rows s types hres hrows htypes hval =>
      rcases read_sound hc.reach hrows with hfail | hread
      · cases hfail
      · obtain rfl : rows = fullConfigAtVersion (s.db.log T) req.version := Except.ok.inj hread
        rw [ConfigVersion.row, hw.values]
        rw [← find_fullConfigAtVersion L, hc.dense.fullConfigAtVersion_stable hc.number.1
          (hc.log_prefix hrows) (hseen _ hrows)]
        rfl
  · rw [hcall] at hseed
    exact absurd hseed.call (by simp)

/-- The snapshots of a rollback and of its target are the same exactly if the config that is
rolled back has no path beyond the target. -/
theorem snapshot_eq_iff_of_row {v : ℤ} (hd : Dense (L ++ [V])) (hv : v ∈ versionNumbers L)
    (hrow : ∀ f, V.row f = configValueAtVersion L v f) :
    snapshot (L ++ [V]) V.version = snapshot (L ++ [V]) v ↔
      ∀ f, (configValueAtVersion L (V.version - 1) f).isSome = true →
        (configValueAtVersion L v f).isSome = true := by
  have hnew : ∀ f, snapshot (L ++ [V]) V.version f = ((configValueAtVersion L v f).or
      (configValueAtVersion L (V.version - 1) f)).map fun r => (r.value, r.checksum) := by
    intro f
    rw [snapshot, configValueAtVersion_append hd, hrow]
  have hold : ∀ f, snapshot (L ++ [V]) v f =
      (configValueAtVersion L v f).map fun r => (r.value, r.checksum) := by
    intro f
    rw [snapshot, configValueAtVersion_append_of_covered hd hv fun h => hrow f ▸ h]
  constructor
  · intro heq f hsome
    have hf := congrFun heq f
    rw [hnew, hold] at hf
    cases hv' : configValueAtVersion L v f with
    | some r => rfl
    | none =>
      rw [hv', Option.none_or, Option.map_none, Option.map_eq_none_iff] at hf
      rw [hf] at hsome
      cases hsome
  · intro hcov
    funext f
    rw [hnew, hold]
    cases hv' : configValueAtVersion L v f with
    | some r => rw [Option.some_or]
    | none =>
      have hnone : configValueAtVersion L (V.version - 1) f = none := by
        by_contra hne
        have := hcov f (Option.isSome_iff_ne_none.mpr hne)
        rw [hv'] at this
        cases this
      rw [hnone, Option.none_or]

/-- **When a rollback restores the snapshot.** A call `RollbackToVersion(v)`, begun when `v` was
committed, has returned the version `n`. The snapshot at `n` is the snapshot at `v` exactly if
every path that has a row just before `n` has one at `v`. -/
theorem rollback_restores_iff {caller : Caller} {req : RollbackRequest} {n : ℤ}
    (hcall : init.calls t = .rollbackToVersion caller req)
    (hr : Reach exec anyStep (init.system env) c) (hstart : (c.pool t).hist = [])
    (hT : c.shared.db.tenantOf req.tenantId = some T)
    (hv : req.version ∈ versionNumbers (c.shared.db.log T))
    (hr' : Reach exec anyStep c c') (hret : c'.returned t = some (.ok (.version n))) :
    ∃ L V rest, c'.shared.db.log T = L ++ V :: rest ∧ V.writer = t ∧ V.version = n ∧
      (snapshot (L ++ [V]) n = snapshot (L ++ [V]) req.version ↔
        ∀ f, (configValueAtVersion L (n - 1) f).isSome = true →
          (configValueAtVersion L req.version f).isSome = true) := by
  obtain ⟨T', L, V, tx, c₁, c₂, hc, hr2, rfl, rfl, hhist⟩ :=
    exists_commitStep_of_returned (hr.trans hr') hret
  have hbegun : ∀ e ∈ (c₁.pool V.writer).hist, c.shared.le e.pre := fun e he =>
    le_of_begun hr' hstart (hhist.subset (mem_append_left _ he))
  have hle : c.shared.le c₁.shared :=
    le_of_begun (e := commitEvent c₁.shared) hr' hstart (hhist.subset (by simp))
  obtain rfl : T' = T := hc.tenant_unique hbegun (by rw [hcall]; exact hT)
  have hseen : ∀ e ∈ (c₁.pool V.writer).hist, req.version ∈ versionNumbers (e.pre.db.log T') :=
    fun e he => (((hbegun e he).log T').map ConfigVersion.version).subset hv
  have hvL : req.version ∈ versionNumbers L :=
    hc.log ▸ ((hle.log T').map ConfigVersion.version).subset hv
  obtain ⟨rest, hrest⟩ := (reach_le hr2).log T'
  rw [hc.log_after, append_assoc] at hrest
  exact ⟨L, V, rest, hrest.symm, rfl, rfl,
    snapshot_eq_iff_of_row hc.dense_after hvL (hc.rollback_row hcall hseen)⟩

open Sample

theorem rollback_restores_iff_second_write :
    ∃ c' L V rest, c'.returned 2 = some (.ok (.version 3)) ∧
      (c' : System).shared.db.log tenant = L ++ V :: rest ∧ V.version = 3 ∧
      (snapshot (L ++ [V]) 3 = snapshot (L ++ [V]) 1 ↔
        ∀ f, (configValueAtVersion L (3 - 1) f).isSome = true →
          (configValueAtVersion L 1 f).isSome = true) := by
  obtain ⟨c, c', hr, ⟨hstart, hT, hv⟩, hr', hret⟩ : ∃ c c',
      Reach exec anyStep ((Sample.init [] [set superadmin "b" "x", set superadmin "b" "y",
        rollbackTo superadmin 1]).system (world noDocument)) c ∧
      ((c.pool 2).hist = [] ∧ c.shared.db.tenantOf tenant = some tenant ∧
        1 ∈ versionNumbers (c.shared.db.log tenant)) ∧
      Reach exec anyStep c c' ∧ c'.returned 2 = some (.ok (.version 3)) :=
    exists_reach_of_runs (steps 0 16 ++ steps 1 17) (steps 2 18) (by decide +kernel)
  obtain ⟨L, V, rest, hlog, -, hV, hiff⟩ := rollback_restores_iff rfl hr hstart hT hv hr' hret
  exact ⟨c', L, V, rest, hret, hlog, hV, hiff⟩

/-- A rollback does not restore the snapshot when a field was first set after its target. -/
theorem rollback_keeps_later_field :
    ∃ c c', Reach exec anyStep ((Sample.init [] [set superadmin "b" "x", set superadmin "w" "y",
        rollbackTo superadmin 1]).system (world noDocument)) c ∧
      ((c.pool 2).hist = [] ∧ c.shared.db.tenantOf tenant = some tenant ∧
        1 ∈ versionNumbers (c.shared.db.log tenant)) ∧
      Reach exec anyStep c c' ∧ c'.returned 2 = some (.ok (.version 3)) ∧
        (snapshot (c'.shared.db.log tenant) 3 "w").isSome = true ∧
        snapshot (c'.shared.db.log tenant) 1 "w" = none :=
  exists_reach_of_runs (steps 0 16 ++ steps 1 17) (steps 2 18) (by decide +kernel)

/-! ### The values of a document -/

/-- The JSON value **denotes** the value of a document: the same scalars, elements and entries. A
time has no JSON value of its own. -/
inductive Denotes : Json → YamlValue → Prop
  | null : Denotes .null .null
  | bool (b : Bool) : Denotes (.bool b) (.bool b)
  | str (s : String) : Denotes (.str s) (.str s)
  | int {n : NumberText} {i : I64} (h : parseInt (String.ofList n.chars) = (i, none)) :
    Denotes (.num n) (.int i)
  | uint64 (n : ℕ) : Denotes (.num (.ofInt n)) (.uint64 n)
  | float {n : NumberText} {x : Float64} (h : parseFloat (String.ofList n.chars) = (x, none)) :
    Denotes (.num n) (.float x)
  | seq {js : List Json} {vs : List YamlValue} (hlen : js.length = vs.length)
    (h : ∀ p ∈ js.zip vs, Denotes p.1 p.2) : Denotes (.arr js) (.seq vs)
  | map {kvs : List (String × Json)} {ws : List (String × YamlValue)}
    (hkeys : (kvs.map Prod.fst).Perm (ws.map Prod.fst))
    (h : ∀ p ∈ kvs, ∀ q ∈ ws, p.1 = q.1 → Denotes p.2 q.2) : Denotes (.obj kvs) (.map ws)

/-- The text, read at the type of its field, **is** the value of a document: the same number, the
same boolean, the digits or the word at a field of text, or a JSON text of the value. Nothing else
is a time, a duration or a URL but a string, which is not read. -/
def YamlValue.ReadFrom (s : String) : YamlValue → Option FieldType → Prop
  | .int i, some .integer => parseInt s = (i, none)
  | .float x, some .integer => ∃ i, parseInt s = (i, none) ∧ x.toInt? = some i.1
  | .int i, some .number => ∃ x, parseFloat s = (x, none) ∧ x.toInt? = some i.1
  | .float x, some .number => parseFloat s = (x, none)
  | .bool b, some .bool => parseBool s = (b, none)
  | .int i, some .string | .int i, none => s = formatInt i.1
  | .uint64 n, some .string | .uint64 n, none => s = formatInt n
  | .float x, some .string | .float x, none => parseFloat s = (x, none)
  | .bool b, some .string | .bool b, none => s = formatBool b
  | v, some .json => ∃ j, Json.unmarshal s = some j ∧ Denotes j v
  | _, _ => False

/-- The column holds the value of a document: `NULL` for a null, a string as it is written. -/
def YamlValue.HeldBy (ft : Option FieldType) : YamlValue → Option String → Prop
  | .null, stored => stored = none
  | .str s, stored => stored = some s
  | v, stored => ∃ s, stored = some s ∧ v.ReadFrom s ft

/-- **The import keeps the value** at a field of the type. A null is not kept. An integer at a
number field has to be a floating-point number, a number at an integer field an integer of 64 bits;
what `fmt` prints of a number at a field of text is read as it, and what `encoding/json` writes is a
text of the value. -/
def YamlValue.Kept (env : Env) : YamlValue → Option FieldType → Prop
  | .null, _ => False
  | .str _, _ | .int _, some .integer | .float _, some .number | .bool _, some .bool
  | .int _, some .string | .int _, none | .uint64 _, some .string | .uint64 _, none
  | .bool _, some .string | .bool _, none => True
  | .float x, some .integer => ∃ i : I64, x.toInt? = some i.1
  | .int i, some .number => (Float64.ofInt i.1).toInt? = some i.1
  | .float x, some .string | .float x, none => parseFloat (sprintFloat x) = (x, none)
  | v, some .json => ∀ s, env.jsonMarshal v = .ok s → ∃ j, Json.unmarshal s = some j ∧ Denotes j v
  | _, _ => False

section Values

variable {ft : Option FieldType} {v : YamlValue} {s : String}

/-- A number that is stored as an integer is that integer, if it is one of 64 bits. -/
theorem readFrom_integer_iff {x : Float64} {i : I64} (h : integerOfFloat env x = some i) :
    (YamlValue.float x).ReadFrom (formatInt i.1) (some .integer) ↔
      ∃ i : I64, x.toInt? = some i.1 := by
  simp only [YamlValue.ReadFrom, parseInt_formatInt, Prod.mk.injEq, and_true, exists_eq_left']
  refine ⟨fun hx => ⟨i, hx⟩, ?_⟩
  rintro ⟨k, hk⟩
  have hi : i = k := by
    simp only [integerOfFloat, hk, k.2, and_self, if_true, Option.some.injEq, I64.clamp_coe] at h
    exact h.symm
  rw [hk, hi]

theorem readFrom_json_iff (hnull : v ≠ .null) (hstr : ∀ t, v ≠ .str t)
    (hs : stringifyJSON env v = .ok s) :
    v.ReadFrom s (some .json) ↔ v.Kept env (some .json) := by
  cases v with
  | null => exact absurd rfl hnull
  | str t => exact absurd rfl (hstr t)
  | bool | int | uint64 | float | time | seq | map =>
    simp only [stringifyJSON] at hs
    split at hs
    · rename_i hm
      cases hs
      simp [YamlValue.ReadFrom, YamlValue.Kept, hm]
    · cases hs

/-- A value that is no string is read from its text exactly if the import keeps such values. -/
theorem readFrom_iff_kept (hnull : v ≠ .null) (hstr : ∀ t, v ≠ .str t)
    (hs : stringifyValue env v ft = .ok s) : v.ReadFrom s ft ↔ v.Kept env ft := by
  by_cases hjson : ft = some .json
  · subst hjson
    refine readFrom_json_iff hnull hstr ?_
    cases v with
    | null => exact absurd rfl hnull
    | _ => exact hs
  cases v with
  | null => exact absurd rfl hnull
  | str t => exact absurd rfl (hstr t)
  | int i =>
    rcases ft with _ | _ | _ | _ | _ | _ | _ | _ | _
    case some.json => exact absurd rfl hjson
    all_goals
      cases hs <;>
        simp [YamlValue.ReadFrom, YamlValue.Kept, sprintValue, parseInt_formatInt,
          parseFloat_formatFloat]
  | bool b =>
    rcases ft with _ | _ | _ | _ | _ | _ | _ | _ | _
    case some.json => exact absurd rfl hjson
    all_goals
      cases hs <;> simp [YamlValue.ReadFrom, YamlValue.Kept, sprintValue, parseBool_formatBool]
  | float x =>
    rcases ft with _ | _ | _ | _ | _ | _ | _ | _ | _
    case some.json => exact absurd rfl hjson
    case some.integer =>
      simp only [stringifyValue, stringifyInteger] at hs
      split at hs
      · rename_i i hi
        cases hs
        exact readFrom_integer_iff hi
      · cases hs
    all_goals
      cases hs <;> simp [YamlValue.ReadFrom, YamlValue.Kept, sprintValue, parseFloat_formatFloat]
  | uint64 | time | seq | map =>
    rcases ft with _ | _ | _ | _ | _ | _ | _ | _ | _
    case some.json => exact absurd rfl hjson
    all_goals
      cases hs <;> simp [YamlValue.ReadFrom, YamlValue.Kept, sprintValue]

/-- **What the import stores is the value of the document** exactly if it keeps such values. -/
theorem heldBy_iff_kept (hs : stringifyValue env v ft = .ok s) :
    v.HeldBy ft (some s) ↔ v.Kept env ft := by
  by_cases hnull : v = .null
  · subst hnull
    simp [YamlValue.HeldBy, YamlValue.Kept]
  by_cases hstr : ∃ t, v = .str t
  · obtain ⟨t, rfl⟩ := hstr
    have ht : s = t := by
      rcases ft with _ | _ | _ | _ | _ | _ | _ | _ | _ <;> exact (Except.ok.inj hs).symm
    simp [YamlValue.HeldBy, YamlValue.Kept, ht]
  · rw [← readFrom_iff_kept hnull (not_exists.mp hstr) hs]
    cases v with
    | null => exact absurd rfl hnull
    | str t => exact absurd ⟨t, rfl⟩ hstr
    | _ => simp [YamlValue.HeldBy]

/-- An integer between two floating-point numbers is rounded. -/
example : ¬ (YamlValue.int (.clamp 9007199254740993)).Kept env (some .number) := by
  change ¬ (Float64.ofInt 9007199254740993).toInt? = some 9007199254740993
  decide +kernel

end Values

/-! ### Replacing import -/

/-- The config **is the document**: its paths are those of the document, with their values. -/
def IsDocument (types : FieldTypes) (doc : ConfigYAML) (config : String → Option ConfigValue) :
    Prop :=
  (∀ p ∈ doc.values, ∃ row, config p.1 = some row ∧ p.2.value.HeldBy (types p.1) row.value) ∧
    ∀ f, (config f).isSome = true → f ∈ doc.values.map Prod.fst

variable {types : FieldTypes} {doc : ConfigYAML} {f : String} {yv : ConfigValueYAML}
  {vs : List ConfigValueImport}

theorem document_unique {yv' : ConfigValueYAML} (h : (f, yv) ∈ doc.values)
    (h' : (f, yv') ∈ doc.values) : yv = yv' :=
  (Prod.mk.inj (inj_on_of_nodup_map doc.nodup h h' rfl)).2

/-- The rows of a document: a path of the document has the string of its value, and no other
path has a row. -/
theorem row_of_stringifyAll (hall : stringifyAll env types (sortedValues doc) = .ok vs)
    (hV : V.values = vs.map (rowOfImport env)) :
    (∀ f, (V.row f).isSome = true ↔ f ∈ doc.values.map Prod.fst) ∧
      ∀ f yv, (f, yv) ∈ doc.values → ∃ s, stringifyValue env yv.value (types f) = .ok s ∧
        (V.row f).map ConfigValue.value = some (some s) := by
  have hpaths : ∀ f, (V.row f).isSome = true ↔ f ∈ doc.values.map Prod.fst := by
    intro f
    rw [Option.isSome_iff_ne_none, ne_eq, ConfigVersion.row_eq_none, not_not, hV, map_map]
    have hsame : vs.map (ConfigValue.fieldPath ∘ rowOfImport env) =
      (sortedValues doc).map Prod.fst := stringifyAll_paths hall
    rw [hsame]
    exact ((perm_insertionSort _ doc.values).map Prod.fst).mem_iff
  refine ⟨hpaths, fun f yv hyv => ?_⟩
  obtain ⟨row, hrow⟩ := Option.isSome_iff_exists.mp
    ((hpaths f).mpr (mem_map.mpr ⟨(f, yv), hyv, rfl⟩))
  have hmem : row ∈ vs.map (rowOfImport env) := hV ▸ mem_of_find?_eq_some hrow
  obtain ⟨v, hv, rfl⟩ := mem_map.mp hmem
  obtain rfl : v.fieldPath = f := ConfigVersion.row_path hrow
  obtain ⟨yv', hyv', hs⟩ := mem_stringifyAll hall hv
  obtain rfl := document_unique hyv (mem_sortedValues.mp hyv')
  exact ⟨v.value, hs, by rw [hrow]; rfl⟩

theorem CommitStep.import_values (hc : CommitStep env init allowed T L V tx c₁ c₂)
    {req : ImportRequest} (hcall : init.calls V.writer = .importConfig caller req)
    (hmode : req.mode = .replace) :
    ∃ doc types vs, env.yamlConfig req.yamlContent = .ok doc ∧
      TypesRead env T types (c₁.pool V.writer).hist ∧
      stringifyAll env (types.lookup ·) (sortedValues doc) = .ok vs ∧
      V.values = vs.map (rowOfImport env) ∧
      Resolved req.tenantId T (c₁.pool V.writer).hist := by
  obtain ⟨w, hw⟩ | ⟨-, caller', req', hseed⟩ := hc.write_or_seed
  · have hsrc := hw.source
    rw [hcall] at hsrc
    obtain rfl := hw.tenant
    cases hsrc with
    | @importConfig _ _ T _ types parsed values hres htypes hparsed hval hsub hreplace =>
      obtain rfl := hreplace hmode
      obtain ⟨doc, hdoc, -, hall⟩ := dispatchImport_spec hparsed
      exact ⟨doc, types, parsed.values, hdoc, htypes, hall, hw.values, hres⟩
  · rw [hcall] at hseed
    exact absurd hseed.call (by simp)

/-- The snapshot after the rows of a document were written is the document exactly if the
config before had no path beyond it, and the import keeps its values. -/
theorem isDocument_iff (hd : Dense (L ++ [V]))
    (hall : stringifyAll env types (sortedValues doc) = .ok vs)
    (hV : V.values = vs.map (rowOfImport env)) :
    IsDocument types doc (configValueAtVersion (L ++ [V]) V.version) ↔
      (∀ f, (configValueAtVersion L (V.version - 1) f).isSome = true →
        f ∈ doc.values.map Prod.fst) ∧ ∀ p ∈ doc.values, p.2.value.Kept env (types p.1) := by
  obtain ⟨hpaths, hrows⟩ := row_of_stringifyAll hall hV
  -- the two parts, path by path
  have hin : ∀ p ∈ doc.values, (∃ row, configValueAtVersion (L ++ [V]) V.version p.1 = some row ∧
      p.2.value.HeldBy (types p.1) row.value) ↔ p.2.value.Kept env (types p.1) := by
    intro p hp
    obtain ⟨s, hs, hrow⟩ := hrows p.1 p.2 hp
    obtain ⟨row, hr, hvalue⟩ := Option.map_eq_some_iff.mp hrow
    rw [configValueAtVersion_append hd, hr, Option.some_or, ← heldBy_iff_kept hs, ← hvalue]
    simp
  have hout : ∀ f, f ∉ doc.values.map Prod.fst →
      configValueAtVersion (L ++ [V]) V.version f = configValueAtVersion L (V.version - 1) f := by
    intro f hf
    have hnone : V.row f = none := by
      by_contra hne
      exact hf ((hpaths f).mp (Option.isSome_iff_ne_none.mpr hne))
    rw [configValueAtVersion_append hd, hnone, Option.none_or]
  rw [IsDocument, and_comm]
  refine and_congr ⟨fun h f hf => ?_, fun h f hf => ?_⟩
    (forall_congr' fun p => forall_congr' (hin p))
  · by_contra hmem
    exact hmem (h f (hout f hmem ▸ hf))
  · by_contra hmem
    exact hmem (h f (hout f hmem ▸ hf))

def Sample.documentOfW : ConfigYAML :=
  document [("w", .str "y")] (by decide)

end Decree
