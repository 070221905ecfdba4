import Decree.Json
import Decree.Versions

/-!
# Canonical Config Values

What a config holds for a declared field should parse at the field's type, pass its validator,
and be the string that the value would be written as (`StoredOK`). For a JSON field to parse is to
be valid JSON, as the messages ask for. Every write path has its gap:

* a typed value is written as its canonical string, unless it is a time outside the years 0 to
  9999 or has no payload; a JSON value is written as it is, JSON or not, unless the field has a
  schema for it;
* a default is stored as the schema author spelled it;
* of a document, numbers and booleans are formatted, but a string is passed through, a null becomes
  the empty string, and a time or duration field takes what `fmt` makes of the value;
* a rollback copies rows.

The validator sees none of this: a string that does not parse is read as a zero. `CanonicalStep`
closes the gaps at the commit of a write.

## Main results

* `readBack_iff`: which accepted values are read back from their strings.
* `stored_canonical`: along every run of canonical steps, everything that is stored for a declared
  field is as it should be; `noncanonical_imported` is a run without the condition.
-/

open Go Interleave List

namespace Decree

/-! ### Canonical strings -/

/-- A canonical string has a storable value. -/
theorem Canonical.storable {s : String} (h : Canonical ft s) :
    (parseStorage (some ft) s).Storable := by
  have hform : canonicalForm (some ft) s = s := h
  exact storable_of_canonical (hform.symm ▸ h)

/-- A canonical string parses. -/
theorem Canonical.parses {s : String} (h : Canonical ft s) : Parses ft s := by
  have hp := (reads_toStorage h.storable).1
  rwa [fieldType_parseStorage, h] at hp

/-- The string parses at the type: as it is read, and at a JSON field as JSON. -/
def ParsesAs (ft : FieldType) (s : String) : Prop :=
  Parses ft s ∧ (ft = .json → Json.valid s = true)

/-- The string is canonical, and at a JSON field it is JSON. -/
def WellSpelled (ft : FieldType) (s : String) : Prop :=
  Canonical ft s ∧ (ft = .json → Json.valid s = true)

instance (s : String) : Decidable (WellSpelled ft s) :=
  instDecidableAnd

/-- **The stored string is as it should be** for the field: it parses, the value is accepted by
the field's validator, and it is written as this string. -/
structure StoredOK (env : Env) (fd : SchemaField) (s : String) : Prop where
  parses : ParsesAs fd.fieldType s
  accepted : (newFieldValidator env fd).validate
    (stringToTypedValue (some s) (some fd.fieldType)) = none
  canonical : typedValueToString (stringToTypedValue (some s) (some fd.fieldType)) = some s

variable {env : Env} {fd : SchemaField} {s : String} {v : YamlValue} {ft : FieldType}

/-- A well-spelled string that passes may be stored. -/
theorem storedOK_of_spelled (hc : WellSpelled fd.fieldType s)
    (hv : (newFieldValidator env fd).validate
      (stringToTypedValue (some s) (some fd.fieldType)) = none) : StoredOK env fd s :=
  ⟨⟨hc.1.parses, hc.2⟩, hv, congrArg some hc.1⟩

/-- The value **can be stored well**: it has a string, and a JSON value is JSON. -/
def TypedValue.WellStored (tv : TypedValue) : Prop :=
  tv.Storable ∧ (tv.fieldType = .json → Json.valid tv.toStorage = true)

instance (tv : TypedValue) : Decidable tv.WellStored :=
  instDecidableAnd

/-- So may the string of a value that passes. -/
theorem storedOK_of_value {tv : TypedValue} (hwell : tv.WellStored)
    (hv : (newFieldValidator env fd).validate (some tv) = none) :
    StoredOK env fd tv.toStorage := by
  have hft : tv.fieldType = fd.fieldType := FieldValidator.fieldType_of_validate hv
  obtain ⟨hst, hjson⟩ := hwell
  refine storedOK_of_spelled ⟨hft ▸ canonical_toStorage hst, hft ▸ hjson⟩ ?_
  rw [stringToTypedValue, Option.map_some, ← hft, parseStorage_toStorage hst,
    FieldValidator.validate_normalize env fd hst]
  exact hv

/-- **An accepted value is read back from its string** exactly if it is a null, or has a string
and is in the wire normal form. -/
theorem readBack_iff {tv : Option TypedValue} (h : (newFieldValidator env fd).validate tv = none) :
    stringToTypedValue (typedValueToString tv) (some fd.fieldType) = tv ↔
      ∀ v ∈ tv, v.Storable ∧ v.normalize = v := by
  cases tv with
  | none => simp [typedValueToString, stringToTypedValue]
  | some v =>
    have hft : v.fieldType = fd.fieldType := FieldValidator.fieldType_of_validate h
    rw [← hft, typedValueToString, stringToTypedValue, Option.map_some, Option.map_some,
      Option.some.injEq]
    simp only [Option.mem_def, Option.some.injEq, forall_eq']
    constructor
    · intro hback
      have hcanonical : Canonical v.fieldType v.toStorage := congrArg TypedValue.toStorage hback
      have hst := hcanonical.storable
      rw [hback] at hst
      exact ⟨hst, (parseStorage_toStorage hst).symm.trans hback⟩
    · rintro ⟨hst, hnormal⟩
      exact (parseStorage_toStorage hst).trans hnormal

open Sample

theorem readBack_iff_epoch :
    stringToTypedValue (typedValueToString (some (.timeValue (some ⟨.zero, 5⟩)))) (some .time) =
      some (.timeValue (some ⟨.zero, 5⟩)) := by
  have hok : (newFieldValidator (world noDocument)
      { path := "w", fieldType := .time }).validate (some (.timeValue (some ⟨.zero, 5⟩))) = none :=
    rfl
  exact (readBack_iff hok).mpr (by decide)

/-- Accepted values that are read back as others: a time and a duration without a payload, a time
behind the year 9999, and a duration beyond the nanoseconds of `int64`. -/
theorem readBack_differs :
    [TypedValue.timeValue none, .durationValue none, .timeValue (some ⟨.clamp (10 ^ 12), 0⟩),
        .durationValue (some ⟨.clamp (10 ^ 10), 0⟩)].Forall fun v =>
      (newFieldValidator (world noDocument)
        { path := "w", fieldType := v.fieldType }).validate (some v) = none ∧
      stringToTypedValue (typedValueToString (some v)) (some v.fieldType) ≠ some v := by
  decide +kernel

/-! ### Documents -/

/-- The value of a document is spelled canonically for a field of the type: a string is
canonical, a null stands where the empty string is canonical, and any other value not at a
time or duration; at a JSON field, what `json.Marshal` writes of it is JSON. -/
def YamlValue.CanonicalFor (env : Env) (ft : FieldType) : YamlValue → Prop
  | null => WellSpelled ft ""
  | str s => WellSpelled ft s
  | v => (ft ≠ .time ∧ ft ≠ .duration) ∧
      (ft = .json → (env.jsonMarshal v).toOption.all Json.valid = true)

instance : (v : YamlValue) → Decidable (v.CanonicalFor env ft)
  | .null | .str _ => inferInstanceAs (Decidable (WellSpelled _ _))
  | .bool _ | .int _ | .uint64 _ | .float _ | .time _ | .seq _ | .map _ =>
    instDecidableAnd

theorem canonical_formatInt (i : I64) : Canonical .integer (formatInt i.1) := by
  have hst : (TypedValue.integerValue i).Storable := trivial
  exact canonical_toStorage hst

theorem canonical_formatFloat (x : Float64) : Canonical .number (formatFloat x) := by
  have hst : (TypedValue.numberValue x).Storable := trivial
  exact canonical_toStorage hst

theorem canonical_formatBool (b : Bool) : Canonical .bool (formatBool b) := by
  have hst : (TypedValue.boolValue b).Storable := trivial
  exact canonical_toStorage hst

/-- An integer is stored canonically. -/
theorem stringifyInteger_canonical (hv : v.CanonicalFor env .integer)
    (h : stringifyInteger env v = .ok s) : Canonical .integer s := by
  cases v with
  | int i =>
    cases h
    exact canonical_formatInt i
  | float x =>
    simp only [stringifyInteger] at h
    split at h
    · rename_i i hi
      cases h
      exact canonical_formatInt i
    · cases h
  | str t =>
    cases h
    exact hv.1
  | null | bool | uint64 | time | seq | map => cases h

/-- A number is stored canonically. -/
theorem stringifyNumber_canonical (hv : v.CanonicalFor env .number)
    (h : stringifyNumber v = .ok s) : Canonical .number s := by
  cases v with
  | int i =>
    cases h
    exact canonical_formatFloat _
  | float x =>
    cases h
    exact canonical_formatFloat x
  | str t =>
    cases h
    exact hv.1
  | null | bool | uint64 | time | seq | map => cases h

/-- A boolean is stored canonically. -/
theorem stringifyBool_canonical (hv : v.CanonicalFor env .bool) (h : stringifyBool v = .ok s) :
    Canonical .bool s := by
  cases v with
  | bool b =>
    cases h
    exact canonical_formatBool b
  | str t =>
    cases h
    exact hv.1
  | null | int | uint64 | float | time | seq | map => cases h

/-- Only a string reaches a time or duration field. -/
theorem stringifyText_canonical (hv : v.CanonicalFor env ft) (ht : ft = .time ∨ ft = .duration)
    (h : stringifyText env v = .ok s) (hnull : v ≠ .null) :
    Canonical ft s := by
  cases v with
  | str t =>
    cases h
    exact hv.1
  | null => exact absurd rfl hnull
  | bool | int | uint64 | float | time | seq | map =>
    rcases ht with rfl | rfl
    · exact absurd rfl hv.1.1
    · exact absurd rfl hv.1.2

/-- What a JSON field gets is JSON. -/
theorem stringifyJSON_valid (hv : v.CanonicalFor env .json) (h : stringifyJSON env v = .ok s)
    (hnull : v ≠ .null) : Json.valid s = true := by
  cases v with
  | str t =>
    cases h
    exact hv.2 rfl
  | null => exact absurd rfl hnull
  | bool | int | uint64 | float | time | seq | map =>
    have hjson := hv.2 rfl
    simp only [stringifyJSON] at h
    split at h
    · rename_i hm
      cases h
      rwa [hm] at hjson
    · cases h

/-- **The strings of a document are canonical** if its values are spelled so. -/
theorem stringifyValue_spelled (hv : v.CanonicalFor env ft)
    (h : stringifyValue env v (some ft) = .ok s) : WellSpelled ft s := by
  by_cases hnull : v = .null
  · subst hnull
    cases h
    exact hv
  · have hft : ∀ {x : Except String String}, stringifyValue env v (some ft) = x → (match ft with
          | .integer => stringifyInteger env v
          | .number => stringifyNumber v
          | .bool => stringifyBool v
          | .json => stringifyJSON env v
          | .string | .time | .duration | .url => stringifyText env v) = x := by
      intro x hx
      cases v with
      | null => exact absurd rfl hnull
      | bool | int | uint64 | float | str | time | seq | map => cases ft <;> exact hx
    cases ft with
    | integer => exact ⟨stringifyInteger_canonical hv (hft h), nofun⟩
    | number => exact ⟨stringifyNumber_canonical hv (hft h), nofun⟩
    | bool => exact ⟨stringifyBool_canonical hv (hft h), nofun⟩
    | time => exact ⟨stringifyText_canonical hv (.inl rfl) (hft h) hnull, nofun⟩
    | duration => exact ⟨stringifyText_canonical hv (.inr rfl) (hft h) hnull, nofun⟩
    | json => exact ⟨rfl, fun _ => stringifyJSON_valid hv (hft h) hnull⟩
    | string | url => exact ⟨rfl, nofun⟩

/-! ### Steps with canonical inputs -/

/-- What a call brings in is canonical for the schema: the values of a request can be stored well,
the values of a document and the defaults of a new tenant's fields are spelled canonically. A
rollback brings in nothing. -/
def Call.CanonicalInput (env : Env) (sv : SchemaVersion) : Call → Prop
  | setField _ req => ∀ tv ∈ req.value, TypedValue.WellStored tv
  | setFields _ req => ∀ u ∈ req.updates, ∀ tv ∈ u.value, TypedValue.WellStored tv
  | importConfig _ req =>
    match env.yamlConfig req.yamlContent with
    | .ok doc => ∀ p ∈ doc.values, ∀ fd ∈ sv.fields, fd.path = p.1 →
        p.2.value.CanonicalFor env fd.fieldType
    | .error _ => True
  | createTenant _ _ => ∀ fd ∈ sv.fields, ∀ d ∈ fd.defaultValue, WellSpelled fd.fieldType d
  | _ => True

instance (sv : SchemaVersion) : (call : Call) → Decidable (call.CanonicalInput env sv)
  | .setField _ req => inferInstanceAs (Decidable (∀ tv ∈ req.value, _))
  | .setFields _ req => inferInstanceAs (Decidable (∀ u ∈ req.updates, _))
  | .importConfig _ req =>
    match h : env.yamlConfig req.yamlContent with
    | .ok doc => decidable_of_iff (∀ p ∈ doc.values, ∀ fd ∈ sv.fields, fd.path = p.1 →
        p.2.value.CanonicalFor env fd.fieldType) (by simp only [Call.CanonicalInput, h])
    | .error _ => .isTrue (by simp only [Call.CanonicalInput, h])
  | .createTenant _ _ => inferInstanceAs (Decidable (∀ fd ∈ sv.fields, _))
  | .rollbackToVersion _ _ | .lockField _ _ | .unlockField _ _ | .getConfig _ _
  | .getField _ _ | .getFields _ _ | .diffVersions _ _ | .exportConfig _ _
  | .subscribe _ _ _ => inferInstanceAs (Decidable True)

/-- The step, if it commits a version, is one of a service with validators, and what its call
brings in is canonical for the tenant's schema. -/
def CanonicalStep (env : Env) (init : Init) (c : System) (t : ℕ) (_ : Choice) : Prop :=
  ∀ p ∈ pendingCommit c t, env.hasValidators = true ∧
    ∀ sv ∈ (p.1.apply c.shared.db).boundSchema p.2.1, (init.calls t).CanonicalInput env sv

instance (init : Init) (c : System) (t : ℕ) (ch : Choice) :
    Decidable (CanonicalStep env init c t ch) :=
  inferInstanceAs (Decidable (∀ p ∈ pendingCommit c t, _))

/-! ### Checked values -/

variable {init : Init} {allowed : System → ℕ → Choice → Prop} {c c₁ c₂ : System} {t : ℕ}
  {T f : String} {L : List ConfigVersion} {V : ConfigVersion} {tx : Tx} {sv : SchemaVersion}
  {row : ConfigValue} {value : Option TypedValue} {types : List (String × FieldType)}

/-- The validator of the field has passed. -/
theorem validate_of_validateWith (hfd : fd ∈ sv.fields)
    (h : validateWith env sv.fields fd.path value = .ok ()) :
    (newFieldValidator env fd).validate value = none := by
  simp only [validateWith] at h
  split at h
  · cases h
  · rename_i vs hvs
    rw [buildValidators_eq env hvs, lookup_map_path _ sv.nodup hfd] at h
    dsimp only at h
    split at h
    · assumption
    · cases h

/-- The types are those of the fields. -/
theorem lookup_typesOfFields (hfd : fd ∈ sv.fields) (h : typesOfFields env sv.fields = .ok types) :
    types.lookup fd.path = some fd.fieldType := by
  simp only [typesOfFields] at h
  split at h
  · cases h
  · rename_i vs hvs
    cases h
    rw [buildValidators_eq env hvs, map_map]
    exact lookup_map_path (fun fd => fd.fieldType) sv.nodup hfd

/-- A value that was validated passes the validator of its field in the schema that the tenant
is bound to. -/
theorem validate_now (hr : Reach exec allowed (init.system env) c) (hval : env.hasValidators = true)
    (hsv : c.shared.db.boundSchema T = some sv) (hfd : fd ∈ sv.fields)
    (h : Validated env T fd.path value (c.pool t).hist) :
    (newFieldValidator env fd).validate value = none := by
  obtain ⟨sv', s, he, hv⟩ := h hval
  obtain rfl : sv' = sv := Option.some.inj ((boundSchema_now hr he).symm.trans hsv)
  exact validate_of_validateWith hfd hv

/-- The types that were read are those of now. -/
theorem lookup_types_now (hr : Reach exec allowed (init.system env) c)
    (hval : env.hasValidators = true) (hsv : c.shared.db.boundSchema T = some sv)
    (hfd : fd ∈ sv.fields) (h : TypesRead env T types (c.pool t).hist) :
    types.lookup fd.path = some fd.fieldType := by
  rcases h with ⟨hno, -⟩ | ⟨-, sv', s, he, htypes⟩
  · exact absurd hval (by simp [hno])
  · obtain rfl : sv' = sv := Option.some.inj ((boundSchema_now hr he).symm.trans hsv)
    exact lookup_typesOfFields hfd htypes

/-- A default row comes from a checked default. -/
theorem mem_collectDefaultValues {fields : List SchemaField} {rows : List ConfigValue}
    (h : collectDefaultValues env fields = .ok rows) (hrow : row ∈ rows) :
    ∃ fd ∈ fields, ∃ d, fd.defaultValue = some d ∧ validateDefaultValue env fd d = .ok () ∧
      row.fieldPath = fd.path ∧ row.value = some d := by
  induction fields generalizing rows with
  | nil =>
    cases h
    exact absurd hrow not_mem_nil
  | cons fd fds ih =>
    simp only [collectDefaultValues] at h
    split at h
    · obtain ⟨g, hg, hrest⟩ := ih h hrow
      exact ⟨g, mem_cons_of_mem fd hg, hrest⟩
    · rename_i d hd
      split at h
      · cases h
      · rename_i hok
        cases hrec : collectDefaultValues env fds with
        | error e =>
          rw [hrec] at h
          cases h
        | ok rest =>
          rw [hrec] at h
          cases h
          rcases mem_cons.mp hrow with rfl | hrow
          · exact ⟨fd, mem_cons_self, d, hd, hok, rfl, rfl⟩
          · obtain ⟨g, hg, hrest⟩ := ih hrec hrow
            exact ⟨g, mem_cons_of_mem fd hg, hrest⟩

/-- A default has passed the validator. -/
theorem validate_of_default {d : String} (h : validateDefaultValue env fd d = .ok ()) :
    (newFieldValidator env fd).validate
      (stringToTypedValue (some d) (some fd.fieldType)) = none := by
  simp only [validateDefaultValue, defaultToTypedValue] at h
  split at h
  · cases h
  · rename_i tv htv
    split at htv
    · cases htv
      split at h
      · cases h
      · assumption
    · cases htv

/-! ### Stored values -/

/-- Everything that the log stores for the fields of the schema is as it should be. -/
def StoredLog (env : Env) (sv : SchemaVersion) (L : List ConfigVersion) : Prop :=
  ∀ V ∈ L, ∀ row ∈ V.values, ∀ s, row.value = some s → ∀ fd ∈ sv.fields,
    fd.path = row.fieldPath → StoredOK env fd s

/-- A validated value may be stored. -/
theorem storedOK_of_validated (hr : Reach exec allowed (init.system env) c)
    (hval : env.hasValidators = true) (hsv : c.shared.db.boundSchema T = some sv)
    (hfd : fd ∈ sv.fields) (hv : Validated env T fd.path value (c.pool t).hist)
    (hst : ∀ tv ∈ value, tv.WellStored) (hs : typedValueToString value = some s) :
    StoredOK env fd s := by
  obtain ⟨tv, rfl, rfl⟩ := Option.map_eq_some_iff.mp hs
  exact storedOK_of_value (hst tv rfl) (validate_now hr hval hsv hfd hv)

/-- **The rows of a config write**, call by call. -/
theorem Source.storedOK {call : Call} {w : VersionWrite}
    (hsrc : Source env call w (c.pool t).hist) (hr : Reach exec allowed (init.system env) c)
    (hval : env.hasValidators = true) (hsv : c.shared.db.boundSchema w.tenantID = some sv)
    (hin : call.CanonicalInput env sv)
    (hL : StoredLog env sv (c.shared.db.log w.tenantID)) (hrow : row ∈ w.rows)
    (hs : row.value = some s) (hfd : fd ∈ sv.fields) (hpath : fd.path = row.fieldPath) :
    StoredOK env fd s := by
  cases hsrc with
  | @setField caller req T h hres hv hkey =>
    obtain rfl := mem_singleton.mp hrow
    have hpath' : fd.path = req.fieldPath := hpath
    exact storedOK_of_validated hr hval hsv hfd (hpath' ▸ hv) hin hs
  | @setFields caller req T h hres hv hkey =>
    obtain ⟨u, hu, rfl⟩ := mem_map.mp hrow
    have hpath' : fd.path = u.fieldPath := hpath
    exact storedOK_of_validated hr hval hsv hfd (hpath' ▸ hv u hu) (hin u hu) hs
  | @rollbackToVersion caller req T h rows s0 types hres hrows htypes hv =>
    -- the row is one of an earlier version
    have hrows' : fullConfigAtVersion (s0.db.log T) req.version = rows :=
      Except.ok.inj (read_ok hr hrows)
    have hmem : row ∈ fullConfigAtVersion (s0.db.log T) req.version := hrows' ▸ hrow
    obtain ⟨W, hW, -, hWrow⟩ := DeltaLog.exists_of_rowAt_eq_some (mem_fullConfigAtVersion.mp hmem)
    exact hL W (((le_of_mem hr hrows).log T).subset hW) row
      (mem_of_find?_eq_some hWrow) s hs fd hfd hpath
  | @importConfig caller req T h types parsed values hres htypes hparsed hv hsub hmode =>
    obtain ⟨v, hv', rfl⟩ := mem_map.mp hrow
    obtain rfl : v.value = s := Option.some.inj hs
    obtain ⟨doc, hdoc, -, hall⟩ := dispatchImport_spec hparsed
    obtain ⟨yv, hyv, hstr⟩ := mem_stringifyAll hall (hsub.subset hv')
    have hft : types.lookup fd.path = some fd.fieldType := lookup_types_now hr hval hsv hfd htypes
    have hpath' : fd.path = v.fieldPath := hpath
    have haccept := hv v (hsub.subset hv')
    rw [← hpath', hft] at haccept hstr
    simp only [Call.CanonicalInput, hdoc] at hin
    have hcan := hin _ (mem_sortedValues.mp hyv) fd hfd hpath'
    exact storedOK_of_spelled (stringifyValue_spelled hcan hstr)
      (validate_now hr hval hsv hfd haccept)

/-- A commit keeps the log well stored. -/
theorem CommitStep.storedLog (hc : CommitStep env init (CanonicalStep env init) T L V tx c₁ c₂)
    (hr : Reach exec (CanonicalStep env init) c₂ c)
    (hsv : c.shared.db.boundSchema T = some sv) (hL : StoredLog env sv L) :
    StoredLog env sv (L ++ [V]) := by
  intro W hW row hrow s hs fd hfd hpath
  rcases mem_append.mp hW with hW | hW
  · exact hL W hW row hrow s hs fd hfd hpath
  obtain rfl := mem_singleton.mp hW
  obtain ⟨ch, ha, -⟩ := hc.step
  obtain ⟨hval, hin⟩ := ha _ hc.pendingCommit
  rw [← hc.db] at hin
  obtain ⟨w, hw⟩ | ⟨-, caller, req, hseed⟩ := hc.write_or_seed
  · have hsv1 := hc.boundSchema hw hrow hr hsv
    have hin' := hin sv (hc.le.boundSchema hsv1)
    refine hw.source.storedOK hc.reach hval ?_ hin' ?_ (hw.values ▸ hrow) hs hfd hpath
    · exact hw.tenant ▸ hsv1
    · rw [hw.tenant, hc.log]
      exact hL
  · obtain ⟨sv', hsv', hdef⟩ := hc.seed_defaults hseed
    obtain rfl : sv' = sv := Option.some.inj (((reach_le hr).boundSchema hsv').symm.trans hsv)
    have hin' := hin sv' hsv'
    rw [hseed.call] at hin'
    obtain ⟨g, hg, d, hd, hok, hgpath, hgvalue⟩ := mem_collectDefaultValues hdef hrow
    obtain rfl : g = fd := inj_on_of_nodup_map sv'.nodup hg hfd (hgpath.symm.trans hpath.symm)
    obtain rfl : d = s := Option.some.inj (hgvalue.symm.trans hs)
    exact storedOK_of_spelled (hin' g hg d hd) (validate_of_default hok)

/-- **Everything stored is canonical**: along every run in which what the calls bring in is
canonical, every value that is stored for a declared field parses, is accepted by the field's
validator, and is the canonical string of its value. -/
theorem stored_canonical (hr : Reach exec (CanonicalStep env init) (init.system env) c)
    (hsv : c.shared.db.boundSchema T = some sv) (hV : V ∈ c.shared.db.log T)
    (hrow : row ∈ V.values) (hs : row.value = some s) (hfd : fd ∈ sv.fields)
    (hpath : fd.path = row.fieldPath) : StoredOK env fd s := by
  have hlog : StoredLog env sv (c.shared.db.log T) :=
    log_induction hr (fun V hV => absurd hV not_mem_nil) fun L V tx c₁ c₂ hc hr2 hL =>
      hc.storedLog hr2 hsv hL
  exact hlog V hV row hrow s hs fd hfd hpath

theorem stored_canonical_eight : ∃ c V row, Reach exec (CanonicalStep (world (documentOfA "8"))
        (Sample.init [] [importDocument superadmin .merge]))
        ((Sample.init [] [importDocument superadmin .merge]).system (world (documentOfA "8"))) c ∧
      V ∈ c.shared.db.log tenant ∧ row ∈ V.values ∧ row.value = some "8" ∧
      StoredOK (world (documentOfA "8")) { path := "a", fieldType := .integer } "8" := by
  obtain ⟨c, hr, hsv, hrows⟩ : ∃ c, Reach exec
      (CanonicalStep (world (documentOfA "8")) (Sample.init [] [importDocument superadmin .merge]))
      ((Sample.init [] [importDocument superadmin .merge]).system (world (documentOfA "8"))) c ∧
      (c.shared.db.boundSchema tenant).map SchemaVersion.fields = some schema.fields ∧
      (c.shared.db.log tenant).map (fun V =>
        V.values.map fun r => (r.fieldPath, r.value)) = [[("a", some "8")]] :=
    exists_reach_of_run (steps 0 18) (by decide +kernel)
  obtain ⟨sv, hsv, hfields⟩ := Option.map_eq_some_iff.mp hsv
  obtain ⟨V, hlog, hV⟩ := map_eq_singleton_iff.mp hrows
  obtain ⟨row, hrow, hvalue⟩ := map_eq_singleton_iff.mp hV
  obtain ⟨hpath, hs⟩ := Prod.mk.inj hvalue
  have hfd : ({ path := "a", fieldType := .integer } : SchemaField) ∈ sv.fields := by
    rw [hfields]
    decide
  have hVmem : V ∈ c.shared.db.log tenant := by simp [hlog]
  have hrowmem : row ∈ V.values := by simp [hrow]
  exact ⟨c, V, row, hr, hVmem, hrowmem, hs, stored_canonical hr hsv hVmem hrowmem hs hfd hpath.symm⟩

/-- The import of the string `007` for an integer succeeds, and stores it as it is. -/
theorem noncanonical_imported : ∃ c V row fd, Reach exec anyStep ((Sample.init []
        [importDocument superadmin .merge]).system (world (documentOfA "007"))) c ∧
      c.returned 0 = some (.ok (.version 1)) ∧
      (c.shared.db.boundSchema tenant).map SchemaVersion.fields = some schema.fields ∧
      V ∈ c.shared.db.log tenant ∧ row ∈ V.values ∧ row.value = some "007" ∧
      fd ∈ schema.fields ∧ fd.path = row.fieldPath ∧
      ¬ StoredOK (world (documentOfA "007")) fd "007" := by
  obtain ⟨c, hr, hret, hsv, hrows⟩ : ∃ c, Reach exec anyStep ((Sample.init []
      [importDocument superadmin .merge]).system (world (documentOfA "007"))) c ∧
      c.returned 0 = some (.ok (.version 1)) ∧
      (c.shared.db.boundSchema tenant).map SchemaVersion.fields = some schema.fields ∧
      (c.shared.db.log tenant).map (fun V =>
        V.values.map fun r => (r.fieldPath, r.value)) = [[("a", some "007")]] :=
    exists_reach_of_run (steps 0 18) (by decide +kernel)
  obtain ⟨V, hlog, hV⟩ := map_eq_singleton_iff.mp hrows
  obtain ⟨row, hrow, hvalue⟩ := map_eq_singleton_iff.mp hV
  obtain ⟨hpath, hs⟩ := Prod.mk.inj hvalue
  refine ⟨c, V, row, { path := "a", fieldType := .integer }, hr, hret, hsv, by simp [hlog],
    by simp [hrow], hs, by decide, hpath.symm, fun hok => ?_⟩
  exact absurd hok.canonical (by decide)

end Decree
