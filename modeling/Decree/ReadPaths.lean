import Decree.Rebinding

/-!
# The Four Read Paths

`GetConfig` from the cache, `GetConfig` on a miss, `GetConfig` with descriptions, and `GetField`
or `GetFields`. The first two go through strings, in which a null is empty, and hash the string
that they show; the third shows the same string with the checksum of the row; the last keep the
null and have the checksum of the row. So the paths agree on a row exactly if it is no null and,
where it is redacted, its checksum is that of the marker.

That is so as long as the fields of a tenant are read alike. An `UpdateTenant` may bind it to a
schema version in which a field has another type or is redacted otherwise; the cache then still
has what was shown before, and the types of the factory may be those of before.

## Main results

* `entry_of_readBy`: what each path shows.
* `readPaths_agree_iff`: when the paths agree.
-/

open Interleave List

namespace Decree

variable {env : Env} {init : ServerInit} {allowed : ServerSystem → ℕ → ServerChoice → Prop}
  {d d' : ServerSystem} {t : ℕ} {T f : String} {v : ℤ} {row : ConfigValue} {h₁ h₂ : Hist}
  {sv sv' : SchemaVersion} {s : State} {fields : List SchemaField}
  {types : List (String × FieldType)}

/-! ### Stored checksums -/

def ConfigValue.Summed (env : Env) (row : ConfigValue) : Prop :=
  row.checksum = checksumPtr env row.value

/-- A default is stored with its checksum. -/
theorem summed_of_defaults {rows : List ConfigValue}
    (h : collectDefaultValues env fields = .ok rows) (hrow : row ∈ rows) : row.Summed env := by
  rw [rows_of_collectDefaultValues h] at hrow
  obtain ⟨fd, -, hfd⟩ := mem_filterMap.mp hrow
  obtain ⟨default, -, rfl⟩ := Option.map_eq_some_iff.mp hfd
  rfl

/-- A row is committed with its checksum. -/
theorem Committing.summed (hr : Reach execServer allowed (init.system env) d) {call : Call}
    {tx : Tx} {V : ConfigVersion} (hc : Committing env t call (callHist d t) tx T V)
    (hL : ∀ W ∈ d.shared.store.db.log T, ∀ row ∈ W.values, row.Summed env)
    (hrow : row ∈ V.values) : row.Summed env := by
  generalize hh : callHist d t = h at hc
  cases hc with
  | write happ hprep hsrc hatt =>
    rw [hatt.values] at hrow
    cases hsrc with
    | setField =>
      obtain rfl := mem_singleton.mp hrow
      rfl
    | setFields =>
      obtain ⟨u, -, rfl⟩ := mem_map.mp hrow
      rfl
    | rollbackToVersion hres hrows =>
      -- a row that is brought back is one of the log
      have hmem := (hh.trans happ) ▸ mem_append_left _ hrows
      have hread := Except.ok.inj (call_read_ok hr (by simp) hmem)
      rw [← hread] at hrow
      obtain ⟨W, hW, -, hWrow⟩ := DeltaLog.exists_of_rowAt_eq_some (mem_fullConfigAtVersion.mp hrow)
      exact hL W (((call_behind hr hmem).log _).subset hW) row
        (ConfigVersion.row_eq_some_iff_mem.mp hWrow)
    | importConfig =>
      obtain ⟨u, -, rfl⟩ := mem_map.mp hrow
      rfl
  | seed _ _ hdef =>
    obtain ⟨_, _, _, _, -, -, hdefaults⟩ := hdef.read
    exact summed_of_defaults hdefaults hrow

/-- **The checksum of a committed row is that of its value.** -/
theorem checksum_of_committed (hr : Reach execServer allowed (init.system env) d)
    (hrow : configValueAtVersion (d.shared.store.db.log T) v f = some row) : row.Summed env := by
  have hall : ∀ W ∈ d.shared.store.db.log T, ∀ row ∈ W.values, row.Summed env := by
    refine hr.invariant (fun d => ∀ W ∈ d.shared.store.db.log T, ∀ row ∈ W.values, row.Summed env)
      (fun W hW => absurd hW not_mem_nil) ?_
    intro d d' u ch hr hL _ hs W hW row hrow
    rcases server_commit hr hs T (server_dense hr T) with hsame | ⟨V, hpend, hlog, -⟩
    · exact hL W (hsame ▸ hW) row hrow
    rcases mem_append.mp (hlog ▸ hW) with hW | hW
    · exact hL W hW row hrow
    · obtain rfl := mem_singleton.mp hW
      rw [serverPending] at hpend
      split at hpend
      · rename_i k hp
        obtain ⟨tx, htx, hV⟩ := Option.bind_eq_some_iff.mp hpend
        obtain ⟨call, hc⟩ := server_committing hr hp htx hV
        exact hc.summed hr hL hrow
      · cases hpend
  obtain ⟨W, hW, -, hWrow⟩ := DeltaLog.exists_of_rowAt_eq_some hrow
  obtain rfl := configValueAtVersion_path hrow
  exact hall W hW row (ConfigVersion.row_eq_some_iff_mem.mp hWrow)

/-! ### Runs in which fields are read alike -/

/-- How the fields of a schema version are read: their types, and whether they are redacted. -/
def SchemaVersion.reading (sv : SchemaVersion) : List (String × FieldType × Bool) :=
  sv.fields.map fun f => (f.path, f.fieldType, f.sensitive)

/-- What is read alike is redacted alike. -/
theorem isSensitive_of_reading (h : sv'.reading = sv.reading) (f : String) :
    isSensitive sv'.fields f = isSensitive sv.fields f := by
  have hany : ∀ sv : SchemaVersion,
      isSensitive sv.fields f = sv.reading.any fun p => p.1 = f && p.2.2 := by
    intro sv
    rw [SchemaVersion.reading, any_map]
    rfl
  rw [hany, hany, h]

/-- The type of a field as the service knows it. -/
def SchemaVersion.typeOf (env : Env) (sv : SchemaVersion) (f : String) : Option FieldType :=
  if env.hasValidators then (sv.reading.map fun p => (p.1, p.2.1)).lookup f else none

/-- The types of the validators are those of the fields. -/
theorem types_of_typesOfFields (h : typesOfFields env sv.fields = .ok types) :
    types = sv.reading.map fun p => (p.1, p.2.1) := by
  rw [typesOfFields] at h
  split at h
  · cases h
  · rename_i vs hvs
    cases h
    rw [buildValidators_eq _ hvs, SchemaVersion.reading, map_map, map_map]
    rfl

/-- **The fields are read alike**: the schema version exists, and is read as the one that the
tenant is bound to. -/
def Tables.SameReading (db : Tables) (T : String) (version : ℤ) : Prop :=
  ∀ tn ∈ db.tenantByID T, ∃ sv' ∈ db.schemaVersion tn.schemaID version,
    ∀ sv ∈ db.boundSchema T, sv'.reading = sv.reading

instance (db : Tables) (version : ℤ) : Decidable (db.SameReading T version) :=
  inferInstanceAs (Decidable (∀ _ ∈ _, _))

def Call.requestedVersion : Call → Option ℤ
  | getConfig _ req => req.version
  | getField _ req => req.version
  | getFields _ req => req.version
  | exportConfig _ req => req.version
  | rollbackToVersion _ req => some req.version
  | _ => none

def Request.requestedVersion : Request → Option ℤ
  | call c => c.requestedVersion
  | _ => none

/-- The tenant whose schema version a call is about to ask the factory for. -/
def nextTyped (d : ServerSystem) (t : ℕ) : Option String :=
  match (d.pool t).prog with
  | .op (.inl (.read _ (.boundSchema T))) _ => some T
  | _ => none

/-- **The step keeps what is shown**: what is named exists, a tenant is bound to a schema version
only that is read as before, and so is the one that the factory answers with. -/
def KeepsShown (init : ServerInit) (d : ServerSystem) (t : ℕ) (ch : ServerChoice) : Prop :=
  NamesExisting (init.requests t).requestedVersion d t ∧
  (∀ p ∈ nextUpdate d t, ∀ version ∈ p.2, d.shared.store.db.SameReading p.1 version) ∧
  ∀ T ∈ nextTyped d t, ∀ sv ∈ ch.cached, ∃ sv₀ ∈ d.shared.store.db.boundSchema T,
    sv.reading = sv₀.reading

instance (ch : ServerChoice) : Decidable (KeepsShown init d t ch) :=
  inferInstanceAs (Decidable ((_ ∧ _) ∧ _ ∧ _))

/-- What keeps what is shown keeps what is cached. -/
theorem KeepsShown.keepsCached (d : ServerSystem) (t : ℕ) (ch : ServerChoice)
    (h : KeepsShown init d t ch) : KeepsCached init d t ch := by
  refine ⟨fun p hp hnamed => h.1.1 p hp ?_, h.1.2, fun p hp version hversion tn htn => ?_⟩
  · cases hreq : init.requests t with
    | call c =>
      rw [hreq] at hnamed
      cases c with
      | getConfig caller req => exact hnamed
      | _ => cases hnamed
    | _ =>
      rw [hreq] at hnamed
      cases hnamed
  · obtain ⟨sv', hsv', hsame⟩ := h.2.1 p hp version hversion tn htn
    exact ⟨sv', hsv', fun sv hsv _ _ row _ => isSensitive_of_reading (hsame sv hsv) row.fieldPath⟩

/-- **The fields of a tenant are read as before**, from every configuration on. -/
theorem reading_kept (hr : Reach execServer (KeepsShown init) d d')
    (hsv : d.shared.store.db.boundSchema T = some sv) :
    ∃ sv', d'.shared.store.db.boundSchema T = some sv' ∧ sv'.reading = sv.reading := by
  refine hr.invariant (fun d' => ∃ sv', d'.shared.store.db.boundSchema T = some sv' ∧
    sv'.reading = sv.reading) ⟨sv, hsv, rfl⟩ ?_
  rintro d₁ d₂ u ch - ⟨sv₁, hsv₁, hsame₁⟩ ha hs
  rcases boundSchema_step hs hsv₁ with hkept | ⟨versions, hnext, version, hmem, tn, htn, hbound⟩
  · exact ⟨sv₁, hkept, hsame₁⟩
  · obtain ⟨sv₂, hsv₂, hsame⟩ := ha.2.1 _ hnext _ hmem tn htn
    exact ⟨sv₂, hbound.trans hsv₂, (hsame sv₁ hsv₁).trans hsame₁⟩

section Reads

variable (hr : Reach execServer (KeepsShown init) (init.system env) d)

include hr

/-- The fields that a call has read redact as those of now. -/
theorem isSensitive_of_schemaRead (hf : SchemaRead T fields (callHist d t)) :
    ∃ sv, d.shared.store.db.boundSchema T = some sv ∧
      ∀ f, isSensitive fields f = isSensitive sv.fields f := by
  obtain ⟨tn, s, sv₁, htn, hsv₁, rfl⟩ := schemaRead_bound hr (fun _ he => he) hf
  obtain ⟨-, d₁, -, -, -, -, hpre, -, -, hrest⟩ := call_event_of_mem hr htn
  obtain ⟨sv, hsv, hsame⟩ := reading_kept hrest ((congrArg (·.db.boundSchema T) hpre).trans hsv₁)
  exact ⟨sv, hsv, fun f => (isSensitive_of_reading hsame f).symm⟩

/-- The types that a call has read are those of now. -/
theorem typeOf_of_typesRead (ht : TypesRead env T types (callHist d t))
    (hsv : d.shared.store.db.boundSchema T = some sv) (f : String) :
    types.lookup f = sv.typeOf env f := by
  rcases ht with ⟨hval, rfl⟩ | ⟨hval, sv₁, s, he, htypes⟩
  · simp [SchemaVersion.typeOf, hval]
  obtain ⟨ch, d₁, s', k, -, ha, hpre, hp, hexec, hrest⟩ := call_event_of_mem hr he
  have hbound : ∃ sv₀, d₁.shared.store.db.boundSchema T = some sv₀ ∧
      sv₁.reading = sv₀.reading := by
    rw [execCall.eq_def] at hexec
    cases hch : ch.cached with
    | none =>
      simp only [hch] at hexec
      rcases exec_read hexec with hfail | hread
      · cases hfail
      · exact ⟨sv₁, hpre ▸ found_eq_ok.mp hread.symm, rfl⟩
    | some sv₂ =>
      simp only [hch] at hexec
      split at hexec
      · cases hexec
        exact ha.2.2 T (by rw [nextTyped, hp]; rfl) sv₁ hch
      · cases hexec
  obtain ⟨sv₀, hsv₀, hsame⟩ := hbound
  obtain ⟨sv₂, hsv₂, hsame'⟩ := reading_kept hrest hsv₀
  obtain rfl := Option.some.inj (hsv₂.symm.trans hsv)
  rw [types_of_typesOfFields htypes, SchemaVersion.typeOf, if_pos hval, hsame, hsame']

/-- Rows that were read are those of now. -/
theorem server_rows (hh : callHist d t = h₁ ++ h₂)
    (hv : VersionRead T (init.requests t).requestedVersion v h₁) {rows : List ConfigValue}
    (he : readEvent false (.fullConfigAtVersion T v) (.ok rows) s ∈ h₂) :
    v ≤ (d.shared.store.db.log T).length ∧
      rows = fullConfigAtVersion (d.shared.store.db.log T) v := by
  have hmem : readEvent false (.fullConfigAtVersion T v) (.ok rows) s ∈ callHist d t :=
    hh ▸ mem_append_right h₁ he
  have hlen : v ≤ (s.db.log T).length := server_version_le (fun _ _ _ h => h.1) hr hh hv he rfl
  have hfollows := call_behind hr hmem
  refine ⟨length_le_of_follows hfollows hlen, ?_⟩
  rw [snapshot_follows (fun _ _ _ h => h.1) hr hfollows hlen]
  exact (Except.ok.inj (call_read_ok hr (by simp) hmem)).symm

/-- A row that was read is that of now. -/
theorem server_row (hh : callHist d t = h₁ ++ h₂)
    (hv : VersionRead T (init.requests t).requestedVersion v h₁) {r : Except StoreErr ConfigValue}
    (he : readEvent false (.configValueAtVersion T f v) r s ∈ h₂) :
    v ≤ (d.shared.store.db.log T).length ∧
      (r = .error .failed ∨ r = found (configValueAtVersion (d.shared.store.db.log T) v f)) := by
  have hmem : readEvent false (.configValueAtVersion T f v) r s ∈ callHist d t :=
    hh ▸ mem_append_right h₁ he
  have hlen : v ≤ (s.db.log T).length := server_version_le (fun _ _ _ h => h.1) hr hh hv he rfl
  have hfollows := call_behind hr hmem
  refine ⟨length_le_of_follows hfollows hlen, ?_⟩
  rw [← find_fullConfigAtVersion, snapshot_follows (fun _ _ _ h => h.1) hr hfollows hlen,
    find_fullConfigAtVersion]
  exact call_read hr (by simp) hmem

/-- The rows that `GetFields` has found are those of the version now. -/
theorem rows_of_forall₂ (hh : callHist d t = h₁ ++ h₂)
    (hv : VersionRead T (init.requests t).requestedVersion v h₁) {paths : List String}
    {rows : List (Option ConfigValue)} (hrows : Forall₂ (RowRead T v h₂) paths rows) :
    rows.reduceOption = paths.filterMap (configValueAtVersion (d.shared.store.db.log T) v) := by
  have hnow : Forall₂ (fun path row => configValueAtVersion (d.shared.store.db.log T) v path = row)
      paths rows := by
    refine hrows.imp fun path row => ?_
    rintro ⟨r, s, he, hcases⟩
    have hread := (server_row hr hh hv he).2
    cases hc : configValueAtVersion (d.shared.store.db.log T) v path <;> rw [hc] at hread <;>
      rcases hcases with ⟨rfl, rfl⟩ | ⟨row', rfl, rfl⟩ <;> simp_all [found]
  rw [← forall₂_map_left_iff, forall₂_eq_eq_eq] at hnow
  rw [← hnow]
  exact filterMap_map

/-- What a `GetConfig` has found, in the cache or by its fetch, is what is shown. -/
theorem looked_shows (hh : callHist d t = h₁ ++ h₂)
    (hv : VersionRead T (init.requests t).namedVersion v h₁) (hfirst : LooksFirst T v h₂)
    {values : CachedValues} (hl : Looked T v h₂ values) : d.shared.store.Shows T v values := by
  have hr' := hr.imp KeepsShown.keepsCached
  have hin : ∀ e ∈ h₂, e ∈ callHist d t := fun e he => hh ▸ mem_append_right h₁ he
  have hexec : ∀ e ∈ h₂, ¬ e.op.IsRead → ∃ ch s', exec ch t e.op e.pre = some (e.resp, s') := by
    intro e he hread
    obtain ⟨ch, -, s', -, -, -, -, -, hexec, -⟩ := call_event_of_mem hr (hin e he)
    rcases execCall_cases hexec with h | ⟨-, inTx, T, ho⟩
    · exact ⟨ch.choice, s', h⟩
    · exact absurd (ho ▸ trivial) hread
  rcases hl.fetched_or_held hexec with hf | ⟨e, he, hheld⟩
  · exact fetched_shows hr' hh hv hfirst hf
  · obtain ⟨-, d₁, -, -, hr₁, -, hpre, -, -, hrest⟩ := call_event_of_mem hr' (hin e he)
    exact shows_mono hr₁ hrest (held_shows hr₁ (hpre ▸ hheld))

/-- **What a `GetConfig` returns** is the snapshot of the store at its version. -/
theorem getConfig_returned {caller : Caller} {req : GetConfigRequest} {reply : Reply}
    (hcall : init.requests t = .call (.getConfig caller req))
    (hret : d.returned t = some (.reply (.ok reply))) :
    ∃ T v sv types, Resolved req.tenantId T (callHist d t) ∧
      VersionRead T req.version v (callHist d t) ∧
      (∃ e ∈ callHist d t, e.op.lookup = some (T, v)) ∧ v ≤ (d.shared.store.db.log T).length ∧
      d.shared.store.db.boundSchema T = some sv ∧ (∀ f, types.lookup f = sv.typeOf env f) ∧
      reply = .config ⟨T, v, if req.includeDescriptions then
          (fullConfigAtVersion (d.shared.store.db.log T) v).map
            (valueWithDescription types sv.fields)
        else (cachedValues sv.fields (fullConfigAtVersion (d.shared.store.db.log T) v)).map
          (valueOfCached env types)⟩ := by
  obtain ⟨T, v, types, h₁, h₂, hh, hres, hv, htypes, hcases⟩ :=
    getConfig_trace (q := .ret (.ok reply)) trivial (call_returned hr hcall hret)
  have hsub1 : h₁ <+ callHist d t := hh ▸ sublist_append_left ..
  have hsub2 : h₂ <+ callHist d t := hh ▸ sublist_append_right ..
  rcases hcases with ⟨hd, rows, fields, s, he, hfields, hq⟩ | ⟨hd, hfirst, hstage⟩
  · obtain ⟨hlen, rfl⟩ := server_rows hr hh (by rw [hcall]; exact hv) he
    obtain ⟨sv, hsv, hsens⟩ := isSensitive_of_schemaRead hr (hfields.mono hsub2)
    refine ⟨T, v, sv, types, hres.mono hsub1, hv.mono hsub1, ⟨_, hsub2.subset he, rfl⟩, hlen, hsv,
      typeOf_of_typesRead hr (htypes.mono hsub1) hsv, ?_⟩
    have hshown : valueWithDescription types fields = valueWithDescription types sv.fields := by
      funext row
      simp only [valueWithDescription, displayValue, hsens]
    rw [hd, if_pos rfl, ← hshown]
    exact Except.ok.inj (Prog.ret.inj hq)
  · cases hstage with
    | filling hf hq ho => cases hq
    | failing hq => cases hq
    | shown hl hq =>
      obtain ⟨hlen, sv, hsv, rfl⟩ := looked_shows hr hh (by rw [hcall]; exact hv) hfirst hl
      obtain ⟨r, s, h₃, rfl⟩ := hfirst
      refine ⟨T, v, sv, types, hres.mono hsub1, hv.mono hsub1,
        ⟨_, hsub2.subset mem_cons_self, rfl⟩, hlen, hsv,
        typeOf_of_typesRead hr (htypes.mono hsub1) hsv, ?_⟩
      rw [hd, if_neg (by simp)]
      exact Except.ok.inj (Prog.ret.inj hq)

end Reads

/-! ### The paths -/

inductive ReadPath where
  | cached
  | missed
  | described
  | field
deriving DecidableEq

/-- The call has looked for rows of a version of a tenant. -/
def LooksUp (d : ServerSystem) (t : ℕ) (T : String) (v : ℤ) : Prop :=
  ∃ e ∈ callHist d t, e.op.lookup = some (T, v)

def isHit : Event Op.Resp State → Bool
  | ⟨.cache (.get _ _), r, _⟩ => (cacheHit r).isSome
  | _ => false

def FromCache (d : ServerSystem) (t : ℕ) : Prop :=
  ∃ e ∈ callHist d t, isHit e = true

instance : Decidable (LooksUp d t T v) :=
  inferInstanceAs (Decidable (∃ e ∈ callHist d t, _))

instance : Decidable (FromCache d t) :=
  inferInstanceAs (Decidable (∃ e ∈ callHist d t, _))

/-- The request reads a field by this path. -/
def Request.readsBy (f : String) : ReadPath → Request → Bool
  | .cached, call (.getConfig _ req) | .missed, call (.getConfig _ req) => !req.includeDescriptions
  | .described, call (.getConfig _ req) => req.includeDescriptions
  | .field, call (.getField _ req) => req.fieldPath = f
  | .field, call (.getFields _ req) => f ∈ req.fieldPaths
  | _, _ => false

/-- The call has read the row of a field at a version of a tenant **by this path**. -/
def ReadBy (init : ServerInit) (d : ServerSystem) (t : ℕ) (T : String) (v : ℤ) (f : String)
    (path : ReadPath) : Prop :=
  (init.requests t).readsBy f path = true ∧ LooksUp d t T v ∧
    (path = .cached → FromCache d t) ∧ (path = .missed → ¬ FromCache d t)

instance (path : ReadPath) : Decidable (ReadBy init d t T v f path) :=
  instDecidableAnd

/-- What a reply shows of a field. -/
def Reply.entry (f : String) : Reply → Option PbConfigValue
  | .config shown => shown.values.find? fun p => p.fieldPath = f
  | .field p => if p.fieldPath = f then some p else none
  | .fields ps => ps.find? fun p => p.fieldPath = f
  | _ => none

/-- **What a path shows of a row**: its value and its checksum. -/
def ReadPath.shows (env : Env) (fields : List SchemaField) (ft : Option FieldType)
    (row : ConfigValue) : ReadPath → Option TypedValue × String
  | cached | missed => (stringToTypedValue (some (displayValue fields row)) ft,
      computeChecksum env (displayValue fields row))
  | described => (stringToTypedValue (some (displayValue fields row)) ft,
      derefString row.checksum)
  | field => (stringToTypedValue (if isSensitive fields row.fieldPath then
      some (displayValue fields row) else row.value) ft, derefString row.checksum)

/-- The entry of a field among rows that are shown one by one. -/
theorem find_map_of_path (shown : ConfigValue → PbConfigValue)
    (hpath : ∀ row, (shown row).fieldPath = row.fieldPath) (L : List ConfigVersion)
    (hrow : configValueAtVersion L v f = some row) :
    (((fullConfigAtVersion L v).map shown).find? fun p => p.fieldPath = f) = some (shown row) := by
  rw [find?_map]
  simp only [Function.comp_def, hpath]
  rw [find_fullConfigAtVersion, hrow, Option.map_some]

section Entries

variable (hr : Reach execServer (KeepsShown init) (init.system env) d) {caller : Caller}
  {reply : Reply} (hret : d.returned t = some (.reply (.ok reply))) {e : Event Op.Resp State}
  (he : e ∈ callHist d t) (hlook : e.op.lookup = some (T, v))
  (hsv : d.shared.store.db.boundSchema T = some sv)
  (hrow : configValueAtVersion (d.shared.store.db.log T) v f = some row)

include hr hsv in
/-- What `GetField` shows of a row. -/
theorem valueOfRow_shows (hfields : SchemaRead T fields (callHist d t))
    (htypes : TypesRead env T types (callHist d t)) (described : Bool) (hpath : row.fieldPath = f) :
    ((valueOfRow types fields described row).value,
      (valueOfRow types fields described row).checksum) =
      ReadPath.field.shows env sv.fields (sv.typeOf env f) row := by
  obtain ⟨sv₁, hsv₁, hsens⟩ := isSensitive_of_schemaRead hr hfields
  obtain rfl := Option.some.inj (hsv₁.symm.trans hsv)
  simp [ReadPath.shows, valueOfRow, displayValue, hpath, hsens, typeOf_of_typesRead hr htypes hsv]

include hr hret he hlook hsv hrow

/-- What `GetConfig` shows. -/
theorem entry_of_getConfig {req : GetConfigRequest}
    (hcall : init.requests t = .call (.getConfig caller req)) :
    ∃ p, reply.entry f = some p ∧ (p.value, p.checksum) =
      (if req.includeDescriptions then ReadPath.described else .missed).shows env sv.fields
        (sv.typeOf env f) row := by
  have hrun := call_returned hr hcall hret
  obtain ⟨T', v', sv', types, -, -, ⟨e', he', hlook'⟩, -, hsv', htypes, rfl⟩ :=
    getConfig_returned hr hcall hret
  obtain ⟨rfl, rfl⟩ := Prod.mk.inj ((oneKeyed_getConfig _ _ _ hrun).eq he he' hlook hlook')
  obtain rfl := Option.some.inj (hsv'.symm.trans hsv)
  have hpath := configValueAtVersion_path hrow
  cases hd : req.includeDescriptions with
  | true =>
    refine ⟨_, find_map_of_path (valueWithDescription types sv'.fields) (fun _ => rfl) _ hrow, ?_⟩
    simp [ReadPath.shows, valueWithDescription, htypes, hpath]
  | false =>
    refine ⟨valueOfCached env types (row.fieldPath, displayValue sv'.fields row), ?_, ?_⟩
    · rw [cachedValues, map_map]
      exact find_map_of_path _ (fun _ => rfl) _ hrow
    · simp [ReadPath.shows, valueOfCached, htypes, hpath]

/-- What `GetField` shows. -/
theorem entry_of_getField {req : GetFieldRequest}
    (hcall : init.requests t = .call (.getField caller req)) (hf : req.fieldPath = f) :
    ∃ p, reply.entry f = some p ∧ (p.value, p.checksum) =
      ReadPath.field.shows env sv.fields (sv.typeOf env f) row := by
  have hrun := call_returned hr hcall hret
  obtain ⟨T', v', types, fields, row', s, h₁, h₂, hh, -, hv, he', hfields, htypes, rfl⟩ :=
    getField_trace hrun
  obtain ⟨rfl, rfl⟩ := Prod.mk.inj ((oneKeyed_getField _ _ _ hrun).eq he
    (hh ▸ mem_append_right h₁ he') hlook rfl)
  obtain ⟨-, hfail | hread⟩ := server_row hr hh (by rw [hcall]; exact hv) he'
  · cases hfail
  rw [hf, hrow] at hread
  cases hread
  have hpath := configValueAtVersion_path hrow
  exact ⟨_, if_pos hpath, valueOfRow_shows hr hsv hfields htypes _ hpath⟩

/-- What `GetFields` shows. -/
theorem entry_of_getFields {req : GetFieldsRequest}
    (hcall : init.requests t = .call (.getFields caller req)) (hf : f ∈ req.fieldPaths) :
    ∃ p, reply.entry f = some p ∧ (p.value, p.checksum) =
      ReadPath.field.shows env sv.fields (sv.typeOf env f) row := by
  have hrun := call_returned hr hcall hret
  obtain ⟨T', v', types, fields, rows, h₁, h₂, hh, -, hv, hrows, hfields, htypes, rfl⟩ :=
    getFields_trace hrun
  obtain ⟨row, -, r, s, hread, -⟩ := exists_of_forall₂ hrows hf
  obtain ⟨rfl, rfl⟩ := Prod.mk.inj ((oneKeyed_getFields _ _ _ hrun).eq he
    (hh ▸ mem_append_right h₁ hread) hlook rfl)
  rw [rows_of_forall₂ hr hh (by rw [hcall]; exact hv) hrows]
  obtain ⟨p, hp⟩ : ∃ p, (((req.fieldPaths.filterMap
      (configValueAtVersion (d.shared.store.db.log T) v)).map (valueOfRow types fields
        req.includeDescriptions)).find? fun p => p.fieldPath = f) = some p :=
    Option.isSome_iff_exists.mp (find?_isSome.mpr
      ⟨_, mem_map_of_mem (mem_filterMap.mpr ⟨f, hf, hrow⟩),
        decide_eq_true (configValueAtVersion_path hrow)⟩)
  obtain ⟨row', hrow', rfl⟩ := mem_map.mp (mem_of_find?_eq_some hp)
  have hdecide := find?_some hp
  have hpath : row'.fieldPath = f := of_decide_eq_true hdecide
  obtain ⟨g, -, hg⟩ := mem_filterMap.mp hrow'
  obtain rfl : g = f := (configValueAtVersion_path hg).symm.trans hpath
  obtain rfl := Option.some.inj (hg.symm.trans hrow)
  exact ⟨_, hp, valueOfRow_shows hr hsv hfields htypes _ hpath⟩

end Entries

/-- **What each path shows of a row.** -/
theorem entry_of_readBy (hr : Reach execServer (KeepsShown init) (init.system env) d)
    {path : ReadPath} {reply : Reply} (hret : d.returned t = some (.reply (.ok reply)))
    (hread : ReadBy init d t T v f path) (hsv : d.shared.store.db.boundSchema T = some sv)
    (hrow : configValueAtVersion (d.shared.store.db.log T) v f = some row) :
    ∃ p, reply.entry f = some p ∧
      (p.value, p.checksum) = path.shows env sv.fields (sv.typeOf env f) row := by
  obtain ⟨hreads, ⟨e, he, hlook⟩, -⟩ := hread
  generalize hcall : init.requests t = r at hreads
  rw [Request.readsBy.eq_def] at hreads
  split at hreads
  · have hentry := entry_of_getConfig hr hret he hlook hsv hrow hcall
    rwa [if_neg (by simpa using hreads)] at hentry
  · have hentry := entry_of_getConfig hr hret he hlook hsv hrow hcall
    rwa [if_neg (by simpa using hreads)] at hentry
  · have hentry := entry_of_getConfig hr hret he hlook hsv hrow hcall
    rwa [if_pos hreads] at hentry
  · exact entry_of_getField hr hret he hlook hsv hrow hcall (of_decide_eq_true hreads)
  · exact entry_of_getFields hr hret he hlook hsv hrow hcall (of_decide_eq_true hreads)
  · cases hreads

/-! ### When they agree -/

/-- The paths show a row alike exactly if it is no null and, where it is redacted, its checksum
is that of the marker. -/
theorem shows_agree_iff (fields : List SchemaField) (ft : Option FieldType)
    (hsum : row.Summed env) :
    ((∀ path path' : ReadPath, path.shows env fields ft row = path'.shows env fields ft row) ∧
      (row.value = none → ∀ path : ReadPath, (path.shows env fields ft row).1 = none)) ↔
    ∃ s, row.value = some s ∧ (isSensitive fields row.fieldPath = true →
      computeChecksum env "[REDACTED]" = computeChecksum env s) := by
  rw [ConfigValue.Summed] at hsum
  constructor
  · rintro ⟨hsame, hnull⟩
    cases hs : row.value with
    | none => cases (hnull hs .cached)
    | some s =>
      refine ⟨s, rfl, fun hsens => ?_⟩
      have hcheck := congrArg Prod.snd (hsame .cached .described)
      simpa [ReadPath.shows, displayValue, redactIfSensitive, hsens, hsum, hs, checksumPtr,
        derefString] using hcheck
  · rintro ⟨s, hs, hsens⟩
    have hcheck : derefString row.checksum = computeChecksum env s := by
      simp [hsum, hs, checksumPtr, derefString]
    refine ⟨?_, fun hnone => absurd (hnone.symm.trans hs) (by simp)⟩
    have hall : ∀ path : ReadPath, path.shows env fields ft row =
        (stringToTypedValue (some (displayValue fields row)) ft, computeChecksum env s) := by
      intro path
      cases hb : isSensitive fields row.fieldPath with
      | true =>
        cases path <;>
          simp [ReadPath.shows, displayValue, redactIfSensitive, hb, hcheck, hsens hb]
      | false =>
        have hdisplay : displayValue fields row = s := by
          simp [displayValue, redactIfSensitive, hb, hs, derefString]
        cases path <;> simp [ReadPath.shows, hdisplay, hb, hcheck, hs]
    intro path path'
    rw [hall, hall]

/-- **When the four read paths agree** on a row, in every run in which the fields of a tenant are
read alike: exactly if it is no null and, where the field is sensitive, the checksum of its value
is that of the marker. -/
theorem readPaths_agree_iff (hr : Reach execServer (KeepsShown init) (init.system env) d)
    (hsv : d.shared.store.db.boundSchema T = some sv)
    (hrow : configValueAtVersion (d.shared.store.db.log T) v f = some row) {t : ReadPath → ℕ}
    {reply : ReadPath → Reply}
    (hret : ∀ path, d.returned (t path) = some (.reply (.ok (reply path))))
    (hread : ∀ path, ReadBy init d (t path) T v f path) :
    ∃ p : ReadPath → PbConfigValue, (∀ path, (reply path).entry f = some (p path)) ∧
      (((∀ path path', (p path).value = (p path').value ∧ (p path).checksum = (p path').checksum) ∧
        (row.value = none → ∀ path, (p path).value = none)) ↔
      ∃ s, row.value = some s ∧ (isSensitive sv.fields f = true →
        computeChecksum env "[REDACTED]" = computeChecksum env s)) := by
  choose p hp hshows using fun path => entry_of_readBy hr (hret path) (hread path) hsv hrow
  refine ⟨p, hp, ?_⟩
  have hiff := shows_agree_iff sv.fields (sv.typeOf env f) (checksum_of_committed hr hrow)
  rw [configValueAtVersion_path hrow] at hiff
  rw [← hiff]
  simp only [← hshows, Prod.mk.injEq]

namespace Sample

/-- Another version of the schema, with the same fields. -/
def sameFields : SchemaVersion :=
  { schema with id := "sv2", version := 2 }

def readFourWays (value : Option TypedValue) : ServerInit where
  tenants := [⟨tenant, "acme", "s", 1, false⟩]
  schemas := ⟨[schema, sameFields], by simp [schema, sameFields]⟩
  locks _ := []
  requests t := [.call (.setField superadmin { tenantId := tenant, fieldPath := "b", value }),
    .call (getAt 1), rebind, .call (getAt 1), .call (.getConfig superadmin
      { tenantId := tenant, version := some 1, includeDescriptions := true }),
    .call (.getField superadmin { tenantId := tenant, fieldPath := "b", version := some 1 })].getD t
      (.getValidations "")

def callOf : ReadPath → ℕ
  | .missed => 1
  | .cached => 3
  | .described => 4
  | .field => 5

def fourReads : List (ℕ × ServerChoice) :=
  serverSteps 0 16 ++ serverSteps 1 10 ++ serverSteps 2 8 ++ serverSteps 3 2 ++ serverSteps 4 5 ++
    serverSteps 5 5

def replyOf (d : ServerSystem) (t : ℕ) : Option Reply :=
  match d.returned t with
  | some (.reply (.ok reply)) => some reply
  | _ => none

/-- The calls have read the field by their paths, after the tenant was bound to the other
version, and its row at version 1 is this. -/
def ReadFourWays (value : Option TypedValue) (stored : Option String) (d : ServerSystem) : Prop :=
  (∀ path ∈ [.cached, .missed, .described, .field],
      ReadBy (readFourWays value) d (callOf path) tenant 1 "b" path ∧
        (replyOf d (callOf path)).isSome = true) ∧
    (d.shared.store.db.boundSchema tenant).map SchemaVersion.id = some "sv2" ∧
    (configValueAtVersion (d.shared.store.db.log tenant) 1 "b").map ConfigValue.value = some stored

instance (value : Option TypedValue) (stored : Option String) :
    Decidable (ReadFourWays value stored d) :=
  instDecidableAnd

theorem ReadFourWays.read {value : Option TypedValue} {stored : Option String}
    (h : ReadFourWays value stored d) :
    (∀ path, ReadBy (readFourWays value) d (callOf path) tenant 1 "b" path) ∧
      ∃ reply : ReadPath → Reply, ∀ path, replyOf d (callOf path) = some (reply path) := by
  have hall := fun path => h.1 path (by cases path <;> simp)
  choose reply hreply using fun path => Option.isSome_iff_exists.mp (hall path).2
  exact ⟨fun path => (hall path).1, reply, hreply⟩

theorem returned_of_replyOf {reply : Reply} (h : replyOf d t = some reply) :
    d.returned t = some (.reply (.ok reply)) := by
  rw [replyOf] at h
  split at h
  · rename_i reply' hret
    rw [hret, Option.some.inj h]
  · cases h

end Sample

open Sample

theorem readPaths_agree_iff_written :
    ∃ (d : ServerSystem) (reply : ReadPath → Reply) (p : ReadPath → PbConfigValue),
      Reach execServer (KeepsShown (readFourWays (some (.stringValue "x"))))
        ((readFourWays (some (.stringValue "x"))).system (world noDocument)) d ∧
      (∀ path, d.returned (callOf path) = some (.reply (.ok (reply path)))) ∧
      (∀ path, (reply path).entry "b" = some (p path)) ∧
      ∀ path path', (p path).value = (p path').value ∧ (p path).checksum = (p path').checksum := by
  obtain ⟨d, hr, h⟩ : ∃ d, Reach execServer (KeepsShown (readFourWays (some (.stringValue "x"))))
      ((readFourWays (some (.stringValue "x"))).system (world noDocument)) d ∧
      ReadFourWays (some (.stringValue "x")) (some "x") d ∧
      ((d.shared.store.db.boundSchema tenant).all fun sv => !isSensitive sv.fields "b") = true :=
    exists_reach_of_run fourReads (by decide +kernel)
  obtain ⟨h, hplain⟩ := h
  obtain ⟨hread, reply, hreply⟩ := h.read
  have hret := fun path => returned_of_replyOf (hreply path)
  obtain ⟨sv, hsv, -⟩ := Option.map_eq_some_iff.mp h.2.1
  obtain ⟨row, hrow, hvalue⟩ := Option.map_eq_some_iff.mp h.2.2
  obtain ⟨p, hp, hiff⟩ := readPaths_agree_iff hr hsv hrow hret hread
  refine ⟨d, reply, p, hr, hret, hp, (hiff.mpr ⟨"x", hvalue, fun hsens => ?_⟩).1⟩
  rw [hsv, Option.all_some, hsens] at hplain
  cases hplain

/-- `GetConfig` shows the empty string for a null, which `GetField` keeps. -/
theorem readPaths_disagree : ∃ (d : ServerSystem) (reply : ReadPath → Reply),
      Reach execServer anyStep ((readFourWays none).system (world noDocument)) d ∧
      (∀ path, ReadBy (readFourWays none) d (callOf path) tenant 1 "b" path) ∧
      (∀ path, d.returned (callOf path) = some (.reply (.ok (reply path)))) ∧
      ((reply .cached).entry "b").map PbConfigValue.value = some (some (.stringValue "")) ∧
      ((reply .field).entry "b").map PbConfigValue.value = some none := by
  obtain ⟨d, hr, h, hcached, hfield⟩ : ∃ d, Reach execServer anyStep
      ((readFourWays none).system (world noDocument)) d ∧ ReadFourWays none none d ∧
      ((replyOf d (callOf .cached)).bind (Reply.entry "b")).map PbConfigValue.value =
        some (some (.stringValue "")) ∧
      ((replyOf d (callOf .field)).bind (Reply.entry "b")).map PbConfigValue.value = some none :=
    exists_reach_of_run fourReads (by decide +kernel)
  obtain ⟨hread, reply, hreply⟩ := h.read
  rw [hreply] at hcached hfield
  exact ⟨d, reply, hr, hread, fun path => returned_of_replyOf (hreply path), hcached, hfield⟩

end Decree
