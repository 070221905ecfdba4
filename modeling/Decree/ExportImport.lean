import Decree.Alone
import Decree.ImportModes

/-!
# Exports That Are Imported Again

`ExportConfig` writes the latest snapshot of a tenant as a document, and `ImportConfig` in the
mode `replace` makes a version of it. A value goes from its stored string to a YAML value at the
type of its field (`typedValue`) and back to a string (`stringifyValue`), which is the canonical
text of what the first one was read as; a null becomes the empty string.

## Main results

* `completes_exportConfig`, `completes_importConfig`: when the calls complete.
* `export_import_iff`: when the snapshot returns.
-/

open Go Interleave List

namespace Decree

variable {env : Env} {data : String} {parsed : ParsedImport}

/-! ### The values -/

section Values

variable {types : FieldTypes} {value : String} {values : List (String × ConfigValueYAML)}

/-- What an import makes of a stored string that was exported. -/
def reimported (env : Env) (ft : Option FieldType) (value : String) : Except String String :=
  stringifyValue env (typedValue env value ft) ft

/-- The string is **canonical** at its type: when it can be read at the type, then it is the
text that the import writes for what was read. A JSON null is written as the empty string, and
a JSON string as its content. -/
def Reprints (env : Env) (ft : Option FieldType) (value : String) : Prop :=
  match ft with
  | some .integer => (parseInt value).2 = none → formatInt (parseInt value).1.1 = value
  | some .number => (parseFloat value).2 = none → formatFloat (parseFloat value).1 = value
  | some .bool => (parseBool value).2 = none → formatBool (parseBool value).1 = value
  | some .json =>
    match env.jsonUnmarshal value with
    | none => True
    | some .null => value = ""
    | some (.str s) => s = value
    | some v => env.jsonMarshal v = .ok value
  | some .string | some .time | some .duration | some .url | none => True

/-- A value is stored as `json.Marshal` writes it. -/
theorem stringifyJSON_eq_ok {v : YamlValue} (hv : ∀ s, v ≠ .str s) :
    stringifyJSON env v = .ok value ↔ env.jsonMarshal v = .ok value := by
  rw [stringifyJSON.eq_def]
  split
  · rename_i s
    exact absurd rfl (hv s)
  · split
    · rename_i s hs
      rw [hs]
    · rename_i e he
      rw [he]
      simp

attribute [local simp] stringifyValue

/-- **Which strings come back as they were.** -/
theorem reimported_eq_iff {ft : Option FieldType} :
    reimported env ft value = .ok value ↔ Reprints env ft value := by
  rw [reimported, Reprints.eq_def]
  split
  · rw [typedValue]
    split
    · simp [stringifyInteger, *]
    · simp [stringifyInteger, *]
  · rw [typedValue]
    split
    · simp [stringifyNumber, *]
    · simp [stringifyNumber, *]
  · rw [typedValue]
    split
    · simp [stringifyBool, *]
    · simp [stringifyBool, *]
  · rw [typedValue]
    cases hread : env.jsonUnmarshal value with
    | none => simp [stringifyJSON]
    | some v =>
      cases v with
      | null => simp [eq_comm]
      | str s => simp [stringifyJSON]
      | _ =>
        simp only [Option.getD_some, stringifyValue]
        exact stringifyJSON_eq_ok (by simp)
  all_goals simp [typedValue, stringifyText]

/-- The conversion loop, and what it converts each value to. -/
theorem stringifyAll_eq_ok {vs : List ConfigValueImport} :
    stringifyAll env types values = .ok vs ↔ Forall₂ (fun p v =>
      v.fieldPath = p.1 ∧ stringifyValue env p.2.value (types p.1) = .ok v.value ∧
        v.description = ptrString p.2.description) values vs := by
  induction values generalizing vs with
  | nil =>
    rw [stringifyAll, Except.ok.injEq, forall₂_nil_left_iff, eq_comm]
  | cons p rest ih =>
    obtain ⟨path, yv⟩ := p
    rw [stringifyAll, forall₂_cons_left_iff]
    constructor
    · intro h
      split at h
      · cases h
      · rename_i s hs
        split at h
        · cases h
        · rename_i ws hws
          exact ⟨_, ws, ⟨rfl, hs, rfl⟩, ih.mp hws, (Except.ok.inj h).symm⟩
    · rintro ⟨⟨path', s, d⟩, ws, ⟨hpath, hs, hd⟩, hws, rfl⟩
      obtain rfl : path' = path := hpath
      obtain rfl : d = ptrString yv.description := hd
      rw [hs, ih.mpr hws]

/-- The values pass where no path is empty. -/
theorem validateValues_eq_ok (hext : ∀ p ∈ values, p.2.extensions = []) :
    validateValues env values = .ok () ↔ ∀ p ∈ values, p.1 ≠ "" := by
  induction values with
  | nil => simp [validateValues]
  | cons p rest ih =>
    obtain ⟨path, v⟩ := p
    rw [forall_mem_cons] at hext ⊢
    rw [validateValues, hext.1, ← ih hext.2]
    by_cases hpath : path = ""
    · simp [hpath]
    · rw [if_neg hpath, and_iff_right hpath]
      rfl

/-- The import of a text that the YAML library reads as this document. -/
theorem dispatchImport_eq_ok {doc : ConfigYAML} (hheader : env.yamlHeader data = .ok "v1")
    (hconfig : env.yamlConfig data = .ok doc) :
    dispatchImport env data types = .ok parsed ↔ validateConfigYAML env doc = .ok () ∧
      parsed.description = doc.description ∧
      stringifyAll env types (sortedValues doc) = .ok parsed.values := by
  have hparse : dispatchImport env data types = parseV1 env data types := by
    rw [dispatchImport, hheader]
    rfl
  simp only [hparse, parseV1, hconfig, yamlToConfigValues]
  cases validateConfigYAML env doc with
  | error e => simp
  | ok _ =>
    cases stringifyAll env types (sortedValues doc) with
    | error e => simp
    | ok vs =>
      obtain ⟨description, values⟩ := parsed
      simp [eq_comm]

end Values

/-! ### An import that runs alone -/

section Import

variable {t : ℕ} {s s' : State} {T : String} {caller : Caller} {sv : SchemaVersion} {tn : Tenant}
  {latest : ℤ} {values : List ConfigValueImport}

/-- An imported value passes the size limit and the validators of its field. -/
def Acceptable (env : Env) (sv : SchemaVersion) (types : List (String × FieldType))
    (v : ConfigValueImport) : Prop :=
  (env.maxFieldValueBytes = 0 ∨ v.value.utf8ByteSize ≤ env.maxFieldValueBytes) ∧
    (env.hasValidators = true → validateWith env sv.fields v.fieldPath
      (stringToTypedValue (some v.value) (types.lookup v.fieldPath)) = .ok ())

def changeOf (L : List ConfigVersion) (v : ConfigValueImport) : FieldChange :=
  ⟨v.fieldPath, currentValue L v.fieldPath, v.value⟩

theorem completes_checkImported (hadmin : caller.isSuperAdmin = true)
    (hsv : s.db.boundSchema T = some sv) {types : List (String × FieldType)}
    {v : ConfigValueImport} {u : Unit} :
    Completes t s (checkImported env caller T types v) u s' ↔
      Acceptable env sv types v ∧ s = s' := by
  have hguard : Completes t s (guardCheck env caller .write ⟨T, v.fieldPath, v.value⟩ none) () s :=
    (completes_guardCheck hadmin).mpr rfl
  rw [checkImported, completes_require_bind, hguard.bind_iff, completes_validateField hsv,
    Acceptable, and_assoc, and_comm (a := s = s')]

theorem completes_checkImportedAll (hadmin : caller.isSuperAdmin = true)
    (hsv : s.db.boundSchema T = some sv) {types : List (String × FieldType)} {u : Unit} :
    Completes t s (forEach (checkImported env caller T types) values) u s' ↔
      (∀ v ∈ values, Acceptable env sv types v) ∧ s = s' := by
  induction values with
  | nil => simp [forEach]
  | cons v values ih =>
    rw [forEach, completes_bind_of fun _ _ => completes_checkImported hadmin hsv]
    simp [ih, and_assoc]

theorem completes_getCurrentValue (hd : Dense (s.db.log T))
    (hlat : LatestRead (s.db.log T) latest) (f : String) :
    Completes t s (getCurrentValue T f latest) (currentValue (s.db.log T) f) s := by
  obtain ⟨hzero, hrow⟩ := latestRow_of_read hd hlat
  rw [getCurrentValue]
  split
  · rename_i h0
    rw [hzero.mp h0]
    exact completes_pure.mpr ⟨rfl, rfl⟩
  · rw [currentValue, ← hrow]
    exact completes_read.mpr ⟨rfl, rfl⟩

theorem completes_readChanges (hd : Dense (s.db.log T))
    (hlat : LatestRead (s.db.log T) latest) :
    Completes t s (collect (fun v : ConfigValueImport => readChange T latest v.fieldPath v.value)
      values) (values.map (changeOf (s.db.log T))) s := by
  have hret : ∀ {α : Type} (a : α), Completes t s (pure a : Proc Status α) a s :=
    fun a => completes_pure.mpr ⟨rfl, rfl⟩
  induction values with
  | nil => exact hret _
  | cons v values ih =>
    have hone : Completes t s (readChange T latest v.fieldPath v.value)
        (changeOf (s.db.log T) v) s :=
      (completes_getCurrentValue hd hlat _).bind_iff.mpr (hret _)
    exact hone.bind_iff.mpr (ih.bind_iff.mpr (hret _))

/-- The import of a document **can be carried out** on a log, and makes this version. -/
structure Importable (env : Env) (sv : SchemaVersion) (tn : Tenant) (L : List ConfigVersion)
    (data : String) (types : List (String × FieldType)) (parsed : ParsedImport)
    (V : ConfigVersion) : Prop where
  size : env.maxDocBytes = 0 ∨ data.utf8ByteSize ≤ env.maxDocBytes
  typed : serviceTypes env sv = .ok types
  document : dispatchImport env data (types.lookup ·) = .ok parsed
  values : ∀ v ∈ parsed.values, Acceptable env sv types v
  nonempty : parsed.values ≠ []
  attributes : checkAllWriteAttributes sv.fields (parsed.values.map (changeOf L)) = .ok ()
  free : V.version ∉ versionNumbers L
  rules : CrossFieldValid env sv tn (fullConfigAtVersion (L ++ [V]) V.version)

def importEntries (caller : Caller) (T : String) (sv : SchemaVersion) (L : List ConfigVersion)
    (values : List ConfigValueImport) (n : ℤ) : List AuditEntry :=
  (values.map (changeOf L)).map fun ch => importAudit T (getActor caller) sv.fields ch n

/-- A parsed document makes a version. -/
theorem exists_versionOf {types : FieldTypes} {req : ImportRequest}
    (hparsed : dispatchImport env data types = .ok parsed) :
    ∃ V, VersionOf t (importWrite env caller req T parsed.description parsed.values) latest V := by
  have hnodup : ((parsed.values.map (rowOfImport env)).map ConfigValue.fieldPath).Nodup := by
    rw [map_map]
    exact nodup_of_dispatchImport hparsed
  exact ⟨⟨_, _, _, _, t, hnodup⟩, rfl, rfl, rfl, rfl, rfl⟩

/-- **When an import that writes its whole document completes**, and what it leaves. -/
theorem completes_importConfig (req : ImportRequest) (hadmin : caller.isSuperAdmin = true)
    (hT : s.db.Names req.tenantId T) (hsv : s.db.boundSchema T = some sv)
    (htn : s.db.tenantByID T = some tn) (hd : Dense (s.db.log T)) (hstate : s.FreeFor t T)
    (hlat : LatestRead (s.db.log T) latest)
    (hmode : req.mode = .replace ∨ s.db.log T = []) {reply : Reply} :
    Completes t s (importConfig env caller req) reply s' ↔ ∃ types parsed V,
      Importable env sv tn (s.db.log T) req.yamlContent types parsed V ∧
      VersionOf t (importWrite env caller req T parsed.description parsed.values) latest V ∧
      .version V.version = reply ∧
      s.written (importWrite env caller req T parsed.description parsed.values)
        (importEntries caller T sv (s.db.log T) parsed.values) V
        ((parsed.values.map (changeOf (s.db.log T))).map (redactChange sv.fields)) = s' := by
  have htenant : (s.view false t).eval (.tenantByID T) = .ok tn := found_eq_ok.mpr htn
  have hfilter : ∀ values,
      Completes t s (filterByImportMode T latest values req.mode) values s := by
    intro values
    rcases hmode with hmode | hnil
    · rw [hmode]
      exact completes_pure.mpr ⟨rfl, rfl⟩
    · have h0 : latest = 0 := (latestRow_of_read hd hlat).1.mpr hnil
      cases req.mode with
      | replace => exact completes_pure.mpr ⟨rfl, rfl⟩
      | defaults | merge | unspecified =>
        rw [filterByImportMode, if_pos h0]
        exact completes_pure.mpr ⟨rfl, rfl⟩
  have hchecks : ∀ types values (f : Unit → Proc Status Reply),
      Completes t s (forEach (checkImported env caller T types) values >>= f) reply s' ↔
        (∀ v ∈ values, Acceptable env sv types v) ∧ Completes t s (f ()) reply s' := by
    intro types values f
    rw [completes_bind_of fun _ _ => completes_checkImportedAll hadmin hsv]
    constructor
    · rintro ⟨⟨⟩, h⟩
      exact h
    · exact fun h => ⟨(), h⟩
  have hcommit : ∀ (parsed : ParsedImport) (V : ConfigVersion) (onError : TxErr → Status),
      VersionOf t (importWrite env caller req T parsed.description parsed.values) latest V →
      (Completes t s (commitWrite (importWrite env caller req T parsed.description parsed.values)
        (auditThenEnforce env T (depRules env sv)
          (importEntries caller T sv (s.db.log T) parsed.values)) onError
        (some ((parsed.values.map (changeOf (s.db.log T))).map (redactChange sv.fields))))
        reply s' ↔ _) :=
    fun parsed V onError hV => completes_commitWrite (by simp [importEntries, importAudit,
      importWrite]) hstate rfl hlat hV hsv htn
  rw [importConfig, completes_check_bind, completes_require_bind,
    (completes_resolveTenantWithAccess (accessGuards_of_superadmin hadmin _ _) hT).bind_iff,
    completes_fetch_bind htenant, completes_bind_of fun _ _ => completes_fieldTypeMap hsv id,
    and_iff_right (mustHaveClaims_of_superadmin hadmin)]
  simp only [completes_ofExcept_bind, mapError_eq_ok, hchecks,
    (completes_resolveVersion hlat).bind_iff, (hfilter _).bind_iff, completes_require_bind,
    (completes_readChanges hd hlat).bind_iff, (completes_getSchemaFieldSets hsv).bind_iff,
    (completes_fetchDependentRequiredRules hsv).bind_iff]
  constructor
  · rintro ⟨hsize, types, htyped, parsed, hparsed, hvalues, hne, u, hattr, hwrite⟩
    obtain ⟨V, hV⟩ := exists_versionOf (t := t) (T := T) hparsed
    obtain ⟨hfree, hrules, hreply, hs'⟩ := (hcommit parsed V _ hV).mp hwrite
    exact ⟨types, parsed, V, ⟨hsize, htyped, hparsed, hvalues, hne, hattr, hfree, hrules⟩, hV,
      hreply, hs'⟩
  · rintro ⟨types, parsed, V, h, hV, hreply, hs'⟩
    exact ⟨h.size, types, h.typed, parsed, h.document, h.values, h.nonempty, (), h.attributes,
      (hcommit parsed V _ hV).mpr ⟨h.free, h.rules, hreply, hs'⟩⟩

end Import

/-! ### An export that runs alone -/

section Export

variable {t u : ℕ} {s s' : State} {T : String} {caller reader : Caller} {sv : SchemaVersion}
  {tn : Tenant} {latest : ℤ} {types : List (String × FieldType)} {L : List ConfigVersion}
  {rows : List ConfigValue} {row : ConfigValue} {values : List ConfigValueImport}
  {V : ConfigVersion} {w : VersionWrite}

def descriptionAt (L : List ConfigVersion) (version : ℤ) : String :=
  ((L.find? fun V => V.version = version).map fun V => derefString V.description).getD ""

def exportedDocument (env : Env) (sv : SchemaVersion) (types : List (String × FieldType))
    (L : List ConfigVersion) (version : ℤ) : ConfigYAML :=
  configToYAML env version (descriptionAt L version)
    (exportRows sv.fields (fullConfigAtVersion L version)) (types.lookup ·)

/-- The caller may read the config of the tenant. -/
def MayRead (caller : Caller) (T : String) : Prop :=
  mustHaveClaims caller = .ok () ∧ accessGuards caller .read { tenantID := T } = .ok ()

/-- The request asks for the latest version, in the one format that there is. -/
def ExportConfigRequest.AsksLatest (req : ExportConfigRequest) (latest : ℤ) : Prop :=
  (req.version = none ∨ req.version = some latest) ∧
    (req.specVersion.getD "" = "" ∨ req.specVersion.getD "" = "v1")

/-- **When an export of the latest version completes**: there are rows, and the document can be
written. -/
theorem completes_exportConfig {req : ExportConfigRequest} (hmay : MayRead caller T)
    (hT : s.db.Names req.tenantId T) (hsv : s.db.boundSchema T = some sv)
    (hd : Dense (s.db.log T)) (hlat : latestConfigVersion (s.db.log T) = some latest)
    (hreq : req.AsksLatest latest) {reply : Reply} :
    Completes t s (exportConfig env caller req) reply s' ↔
      fullConfigAtVersion (s.db.log T) latest ≠ [] ∧ s = s' ∧ ∃ types data,
        serviceTypes env sv = .ok types ∧
        env.yamlMarshal (exportedDocument env sv types (s.db.log T) latest) = .ok data ∧
        .exported data = reply := by
  have hread : versionOrZero (found (latestConfigVersion (s.db.log T))) = .ok latest := by
    rw [hlat]
    rfl
  have h0 : latest ≠ 0 := by
    intro h0
    rw [(latestRow_of_read hd hread).1.mp h0] at hlat
    cases hlat
  have hversion : Completes t s (resolveRequested T req.version) latest s := by
    rcases hreq.1 with hnone | hsome
    · rw [hnone, resolveRequested]
      exact completes_resolveVersion hread
    · rw [hsome, resolveRequested]
      exact completes_pure.mpr ⟨rfl, rfl⟩
  have hrows : (s.view false t).eval (.fullConfigAtVersion T latest) =
      .ok (fullConfigAtVersion (s.db.log T) latest) := rfl
  have hfields : Completes t s (getSensitiveFieldSet T) sv.fields s :=
    completes_getSchemaFieldSets hsv
  have hdesc : Completes t s (exportDescription T latest)
      (descriptionAt (s.db.log T) latest) s := by
    refine completes_read.mpr ⟨?_, rfl⟩
    have heval : (s.view false t).eval (.configVersion T latest) =
        found (((s.db.log T).find? fun V => V.version = latest).map ConfigVersion.header) := rfl
    rw [heval, descriptionAt]
    cases (s.db.log T).find? fun V => V.version = latest <;> rfl
  have hmarshal : ∀ types : List (String × FieldType), marshalConfigAt env latest
      (descriptionAt (s.db.log T) latest)
      (exportRows sv.fields (fullConfigAtVersion (s.db.log T) latest)) (types.lookup ·)
      (req.specVersion.getD "") =
      env.yamlMarshal (exportedDocument env sv types (s.db.log T) latest) :=
    fun types => if_pos hreq.2
  rw [exportConfig, completes_check_bind, (completes_resolveTenantWithAccess hmay.2 hT).bind_iff,
    hversion.bind_iff, completes_require_bind,
    completes_bind_of fun _ _ => completes_fieldTypeMap hsv id, and_iff_right hmay.1,
    and_iff_right h0]
  simp only [completes_fetch_bind hrows, completes_require_bind, hfields.bind_iff, hdesc.bind_iff,
    completes_ofExcept_bind, mapError_eq_ok, hmarshal, completes_pure]
  constructor
  · rintro ⟨types, htyped, hne, data, hdata, hreply, hs⟩
    exact ⟨hne, hs, types, data, htyped, hdata, hreply⟩
  · rintro ⟨hne, hs, types, data, htyped, hdata, hreply⟩
    exact ⟨types, htyped, hne, data, hdata, hreply, hs⟩

def exportedEntry (env : Env) (sv : SchemaVersion) (types : List (String × FieldType))
    (row : ConfigValue) : String × ConfigValueYAML :=
  (row.fieldPath, ⟨typedValue env (displayValue sv.fields row) (types.lookup row.fieldPath),
    derefString row.description, []⟩)

/-- The values of the exported document. -/
theorem exportedDocument_values (L : List ConfigVersion) (version : ℤ) :
    (exportedDocument env sv types L version).values =
      (fullConfigAtVersion L version).map (exportedEntry env sv types) := by
  have hassigned : (exportedDocument env sv types L version).values =
      assigned ((fullConfigAtVersion L version).map (exportedEntry env sv types)) :=
    congrArg assigned (map_map ..)
  rw [hassigned]
  refine assigned_of_nodup ?_
  rw [map_map]
  exact (map_fieldPath_fullConfigAtVersion L version).symm ▸ nodup_pathsAtVersion L version

/-- They are sorted already. -/
theorem sortedValues_exportedDocument (L : List ConfigVersion) (version : ℤ) :
    sortedValues (exportedDocument env sv types L version) =
      (fullConfigAtVersion L version).map (exportedEntry env sv types) := by
  have hsorted := sorted_pathsAtVersion L version
  rw [← map_fieldPath_fullConfigAtVersion] at hsorted
  rw [sortedValues, exportedDocument_values]
  exact List.Pairwise.insertionSort_eq (pairwise_map.mpr (pairwise_map.mp hsorted))

/-- The YAML library writes the document as these bytes, and reads it back from them. -/
def YamlRoundTrips (env : Env) (doc : ConfigYAML) (data : String) : Prop :=
  env.yamlMarshal doc = .ok data ∧ env.yamlHeader data = .ok doc.specVersion ∧
    env.yamlConfig data = .ok doc

/-- What an import makes of an exported row. -/
def Reimports (env : Env) (sv : SchemaVersion) (types : List (String × FieldType))
    (row : ConfigValue) (v : ConfigValueImport) : Prop :=
  v.fieldPath = row.fieldPath ∧
    reimported env (types.lookup row.fieldPath) (displayValue sv.fields row) = .ok v.value ∧
    v.description = ptrString (derefString row.description)

/-- What the import makes of the document. -/
theorem dispatchImport_exported {version : ℤ}
    (hyaml : YamlRoundTrips env (exportedDocument env sv types L version) data) :
    dispatchImport env data (types.lookup ·) = .ok parsed ↔ fullConfigAtVersion L version ≠ [] ∧
      (∀ row ∈ fullConfigAtVersion L version, row.fieldPath ≠ "") ∧
      parsed.description = descriptionAt L version ∧
      Forall₂ (Reimports env sv types) (fullConfigAtVersion L version) parsed.values := by
  have hvalid : validateConfigYAML env (exportedDocument env sv types L version) = .ok () ↔
      fullConfigAtVersion L version ≠ [] ∧
        ∀ row ∈ fullConfigAtVersion L version, row.fieldPath ≠ "" := by
    have hspec : (exportedDocument env sv types L version).specVersion = "v1" := rfl
    have hext : validateExtensions env "" (exportedDocument env sv types L version).extensions =
        .ok () := rfl
    have hvalues : validateValues env
        ((fullConfigAtVersion L version).map (exportedEntry env sv types)) = .ok () ↔
        ∀ row ∈ fullConfigAtVersion L version, row.fieldPath ≠ "" := by
      rw [validateValues_eq_ok (by simp [exportedEntry]), forall_mem_map]
      rfl
    rw [validateConfigYAML, hspec, if_neg (by simp), if_neg (by simp), hext,
      exportedDocument_values]
    by_cases hnil : fullConfigAtVersion L version = []
    · simp [hnil]
    · rw [← hvalues, and_iff_right hnil]
      simp [hnil]
  rw [dispatchImport_eq_ok hyaml.2.1 hyaml.2.2, hvalid, sortedValues_exportedDocument,
    stringifyAll_eq_ok, forall₂_map_left_iff, and_assoc]
  rfl

/-- The rules look at the paths and the values of the rows only. -/
theorem CrossFieldValid.congr {f : ConfigValue → ConfigValue}
    (hf : ∀ row ∈ rows, (f row).fieldPath = row.fieldPath ∧ (f row).value = row.value) :
    CrossFieldValid env sv tn (rows.map f) ↔ CrossFieldValid env sv tn rows := by
  have hpresent : ((rows.map f).filter fun r => r.value.isSome).map ConfigValue.fieldPath =
      (rows.filter fun r => r.value.isSome).map ConfigValue.fieldPath := by
    rw [filter_map, map_map,
      filter_congr (q := fun r => r.value.isSome) fun row hrow => by simp [(hf row hrow).2]]
    exact map_congr_left fun row hrow => (hf row (mem_of_mem_filter hrow)).1
  have hdep : ∀ rules, dependentRequiredCheck env rules (rows.map f) =
      dependentRequiredCheck env rules rows := by
    intro rules
    rw [dependentRequiredCheck, hpresent, dependentRequiredCheck]
  have hcel : ∀ art, celCheck env art (rows.map f) tn = celCheck env art rows tn := by
    intro art
    have hact : buildActivation env (rows.map f) art.fieldTypes tn =
        buildActivation env rows art.fieldTypes tn := by
      rw [buildActivation, foldl_map, buildActivation]
      congr 1
      refine foldl_ext _ _ _ fun m row hrow => ?_
      rw [(hf row hrow).1, (hf row hrow).2]
    rw [celCheck, hact, celCheck]
  simp only [CrossFieldValid, hdep, hcel]

/-- What an import stores of a row, next to its checksum. -/
def ConfigValue.content (row : ConfigValue) : String × Option String × Option String :=
  (row.fieldPath, row.value, row.description)

/-- The export of a tenant's latest version and the import of its bytes **round-trip**: both
complete, and the snapshot of the version that is made has the same fields with the same values
and descriptions. -/
def RoundTrips (env : Env) (s : State) (T : String) (latest : ℤ) (u t : ℕ)
    (reader caller : Caller) (ereq : ExportConfigRequest) (ireq : ImportRequest) : Prop :=
  ∃ data version s', Completes u s (exportConfig env reader ereq) (.exported data) s ∧
    Completes t s (importConfig env caller { ireq with yamlContent := data })
      (.version version) s' ∧
    (fullConfigAtVersion (s'.db.log T) version).map ConfigValue.content =
      (fullConfigAtVersion (s.db.log T) latest).map ConfigValue.content

def importOfRow (row : ConfigValue) : ConfigValueImport :=
  ⟨row.fieldPath, derefString row.value, row.description⟩

/-- A row that **survives** the round trip: it has a path, a value in its canonical form that
the import accepts, and no empty description. -/
structure Survives (env : Env) (sv : SchemaVersion) (types : List (String × FieldType))
    (row : ConfigValue) : Prop where
  path : row.fieldPath ≠ ""
  value : row.value ≠ none
  canonical : Reprints env (types.lookup row.fieldPath) (derefString row.value)
  description : row.description ≠ some ""
  accepted : Acceptable env sv types (importOfRow row)

/-- The latest snapshot **can be imported again** as it is. -/
def Reimportable (env : Env) (sv : SchemaVersion) (tn : Tenant) (L : List ConfigVersion)
    (latest : ℤ) : Prop :=
  fullConfigAtVersion L latest ≠ [] ∧ L.length < 2 ^ 31 ∧
    CrossFieldValid env sv tn (fullConfigAtVersion L latest) ∧
    ∃ types data, serviceTypes env sv = .ok types ∧
      env.yamlMarshal (exportedDocument env sv types L latest) = .ok data ∧
      (env.maxDocBytes = 0 ∨ data.utf8ByteSize ≤ env.maxDocBytes) ∧
      ∀ row ∈ fullConfigAtVersion L latest, Survives env sv types row

/-- A field without attributes is exported as it is, and may be written. -/
def Unrestricted (fields : List SchemaField) (path : String) : Prop :=
  ∀ f ∈ fields, f.path = path → f.sensitive = false ∧ f.readOnly = false ∧ f.writeOnce = false

/-- An unrestricted value is shown as it is. -/
theorem Unrestricted.displayValue (h : Unrestricted sv.fields row.fieldPath) :
    displayValue sv.fields row = derefString row.value := by
  have hno : isSensitive sv.fields row.fieldPath = false := by
    rw [isSensitive, any_eq_false]
    intro f hf
    simp only [Bool.and_eq_true, decide_eq_true_eq, not_and, Bool.not_eq_true]
    exact fun hpath => (h f hf hpath).1
  rw [Decree.displayValue, hno]
  rfl

/-- Unrestricted fields may be written. -/
theorem checkAllWriteAttributes_of_unrestricted {changes : List FieldChange}
    {fields : List SchemaField} (h : ∀ ch ∈ changes, Unrestricted fields ch.fieldPath) :
    checkAllWriteAttributes fields changes = .ok () := by
  induction changes with
  | nil => rfl
  | cons ch changes ih =>
    rw [forall_mem_cons] at h
    have hnone : (fields.find? fun f => f.path = ch.fieldPath && (f.readOnly || f.writeOnce)) =
        none := by
      refine find?_eq_none.mpr fun f hf hattr => ?_
      simp only [Bool.and_eq_true, decide_eq_true_eq, Bool.or_eq_true] at hattr
      obtain ⟨-, hro, hwo⟩ := h.1 f hf hattr.1
      simp [hro, hwo] at hattr
    rw [checkAllWriteAttributes, checkWriteAttributes, hnone]
    exact ih h.2

/-- A row and its import, when the round trip keeps what is stored. -/
theorem survives_iff (hpath : row.fieldPath ≠ "") (hplain : Unrestricted sv.fields row.fieldPath)
    (hok : Acceptable env sv types (importOfRow row)) :
    Survives env sv types row ↔ Reimports env sv types row (importOfRow row) ∧
      (rowOfImport env (importOfRow row)).content = row.content := by
  have hvalue : some (derefString row.value) = row.value ↔ row.value ≠ none := by
    cases row.value <;> simp [derefString]
  have hdesc : row.description = ptrString (derefString row.description) ↔
      row.description ≠ some "" := by
    cases row.description with
    | none => simp [derefString, ptrString]
    | some d =>
      rw [derefString, Option.getD_some, ptrString]
      by_cases hd : d = ""
      · simp [hd]
      · simp [hd]
  rw [Reimports, hplain.displayValue]
  constructor
  · intro h
    refine ⟨⟨rfl, reimported_eq_iff.mpr h.canonical, hdesc.mpr h.description⟩, ?_⟩
    rw [ConfigValue.content, ConfigValue.content]
    exact congrArg (row.fieldPath, ·, row.description) (hvalue.mpr h.value)
  · rintro ⟨⟨-, hre, hd⟩, hcontent⟩
    have hval : some (derefString row.value) = row.value := congrArg (fun c => c.2.1) hcontent
    exact ⟨hpath, hvalue.mp hval, reimported_eq_iff.mp hre, hdesc.mp hd, hok⟩

/-- The same content is the same values. -/
theorem sameValues_of_content
    (h : ∀ row ∈ rows, (rowOfImport env (importOfRow row)).content = row.content) :
    ∀ row ∈ rows, ((rowOfImport env ∘ importOfRow) row).fieldPath = row.fieldPath ∧
      ((rowOfImport env ∘ importOfRow) row).value = row.value :=
  fun row hrow => ⟨rfl, congrArg (fun c => c.2.1) (h row hrow)⟩

/-- The values are those of the rows. -/
theorem eq_importOfRow
    (h : (values.map (rowOfImport env)).map ConfigValue.content = rows.map ConfigValue.content) :
    values = rows.map importOfRow := by
  have hback := congrArg (map fun c : String × Option String × Option String =>
    (⟨c.1, derefString c.2.1, c.2.2⟩ : ConfigValueImport)) h
  rw [map_map, map_map, map_map] at hback
  exact (map_id values).symm.trans hback

/-- A number is free unless it wraps. -/
theorem free_iff (hd : Dense L) (hlat : LatestRead L latest) (hV : VersionOf t w latest V) :
    V.version ∉ versionNumbers L ↔ L.length < 2 ^ 31 := by
  rw [hV.version]
  refine ⟨fun hfree => (hd.next_free (prefix_refl L) hlat hfree).2.2, fun hlt hmem => ?_⟩
  obtain ⟨i, hi, hwrap⟩ := hd.mem_numbers.mp hmem
  have hlatest := hd.latest hlat
  simp only [wrap32] at hwrap
  omega

/-- A version that sets every path is the snapshot. -/
theorem VersionOf.snapshot (hV : VersionOf t w latest V) (hd : Dense L) (hlt : L.length < 2 ^ 31)
    (hlat : LatestRead L latest)
    (hpaths : w.rows.map ConfigValue.fieldPath = pathsAtVersion L latest) :
    fullConfigAtVersion (L ++ [V]) V.version = w.rows := by
  have hlatest := hd.latest hlat
  have hdense : Dense (L ++ [V]) := by
    refine hd.append hlt ?_
    rw [hV.version]
    congr 2
    omega
  rw [← hV.values] at hpaths ⊢
  refine fullConfigAtVersion_of_paths hdense ?_ hpaths
  rw [hV.version, wrap32]
  omega

/-- The paths are kept. -/
theorem paths_of_reimports (h : Forall₂ (Reimports env sv types) rows values) :
    (values.map (rowOfImport env)).map ConfigValue.fieldPath = rows.map ConfigValue.fieldPath := by
  induction h with
  | nil => rfl
  | cons hrow _ ih => rw [map_cons, map_cons, map_cons, ih, ← hrow.1]; rfl

/-- **An export that is imported again** makes the same snapshot, exactly when every value is
there in its canonical form, no description is empty, and the import accepts them. -/
theorem export_import_iff {init : Init} {c : System} {ereq : ExportConfigRequest}
    {ireq : ImportRequest} (hr : Reach exec anyStep (init.system env) c)
    (hlat : latestConfigVersion (c.shared.db.log T) = some latest)
    (hmay : MayRead reader T) (hadmin : caller.isSuperAdmin = true)
    (hT : c.shared.db.Names ereq.tenantId T) (hT' : c.shared.db.Names ireq.tenantId T)
    (hreq : ereq.AsksLatest latest) (hmode : ireq.mode = .replace)
    (hsv : c.shared.db.boundSchema T = some sv) (htn : c.shared.db.tenantByID T = some tn)
    (hplain : ∀ row ∈ fullConfigAtVersion (c.shared.db.log T) latest,
      Unrestricted sv.fields row.fieldPath)
    (hstate : c.shared.FreeFor t T)
    (hyaml : ∀ types, serviceTypes env sv = .ok types → ∃ data,
      YamlRoundTrips env (exportedDocument env sv types (c.shared.db.log T) latest) data) :
    RoundTrips env c.shared T latest u t reader caller ereq ireq ↔
      Reimportable env sv tn (c.shared.db.log T) latest := by
  have hd := reach_dense hr T
  have hread : versionOrZero (found (latestConfigVersion (c.shared.db.log T))) = .ok latest := by
    rw [hlat]
    rfl
  have hlog : ∀ w audit V changes, w.tenantID = T →
      (c.shared.written w audit V changes).db.log T = c.shared.db.log T ++ [V] := by
    rintro w audit V changes rfl
    exact State.log_written _ _ _ _ _
  constructor
  · rintro ⟨data, version, s', hexp, himp, hsame⟩
    obtain ⟨hne, -, types, data', htyped, hdata, hreply⟩ :=
      (completes_exportConfig hmay hT hsv hd hlat hreq).mp hexp
    obtain rfl := Reply.exported.inj hreply
    obtain ⟨data, hmarshal, hback⟩ := hyaml types htyped
    obtain rfl := Except.ok.inj (hdata.symm.trans hmarshal)
    obtain ⟨types', parsed, V, hi, hV, hreply', rfl⟩ :=
      (completes_importConfig { ireq with yamlContent := data' } hadmin hT' hsv htn hd hstate
        hread (.inl hmode)).mp himp
    obtain rfl := Except.ok.inj (htyped.symm.trans hi.typed)
    cases hreply'
    obtain ⟨-, hpath, -, hall⟩ := (dispatchImport_exported ⟨hmarshal, hback⟩).mp hi.document
    have hlt := (free_iff hd hread hV).mp hi.free
    have hsnap := hV.snapshot hd hlt hread
      ((paths_of_reimports hall).trans (map_fieldPath_fullConfigAtVersion _ _))
    rw [hlog _ _ _ _ rfl, hsnap] at hsame
    obtain hvalues : parsed.values = _ := eq_importOfRow hsame
    have hrules := hi.rules
    have haccept := hi.values
    rw [hsnap] at hrules
    simp only [importWrite, hvalues, map_map] at hsame hrules
    rw [hvalues, forall₂_map_right_iff, forall₂_same] at hall
    rw [hvalues, forall_mem_map] at haccept
    have hcontent := map_inj_left.mp hsame
    refine ⟨hne, hlt, (CrossFieldValid.congr (sameValues_of_content hcontent)).mp hrules, types,
      data', htyped, hmarshal, hi.size, fun row hrow => ?_⟩
    exact (survives_iff (hpath row hrow) (hplain row hrow) (haccept row hrow)).mpr
      ⟨hall row hrow, hcontent row hrow⟩
  · rintro ⟨hne, hlt, hrules, types, data, htyped, hdata, hsize, hrows⟩
    obtain ⟨data', hyaml⟩ := hyaml types htyped
    obtain rfl := Except.ok.inj (hdata.symm.trans hyaml.1)
    have hsurvive := fun row hrow => (survives_iff (hrows row hrow).path (hplain row hrow)
      (hrows row hrow).accepted).mp (hrows row hrow)
    have hall : Forall₂ (Reimports env sv types) (fullConfigAtVersion (c.shared.db.log T) latest)
        ((fullConfigAtVersion (c.shared.db.log T) latest).map importOfRow) :=
      forall₂_map_right_iff.mpr (forall₂_same.mpr fun row hrow => (hsurvive row hrow).1)
    have hdoc : dispatchImport env data (types.lookup ·) =
        .ok ⟨descriptionAt (c.shared.db.log T) latest,
          (fullConfigAtVersion (c.shared.db.log T) latest).map importOfRow⟩ :=
      (dispatchImport_exported hyaml).mpr ⟨hne, fun row hrow => (hrows row hrow).path, rfl, hall⟩
    obtain ⟨V, hV⟩ : ∃ V, VersionOf t (importWrite env caller { ireq with yamlContent := data } T
        (descriptionAt (c.shared.db.log T) latest)
        ((fullConfigAtVersion (c.shared.db.log T) latest).map importOfRow)) latest V :=
      exists_versionOf hdoc
    have hcontent := fun row hrow => (hsurvive row hrow).2
    have hsnap := hV.snapshot hd hlt hread
      ((paths_of_reimports hall).trans (map_fieldPath_fullConfigAtVersion _ _))
    refine ⟨data, V.version, _, (completes_exportConfig hmay hT hsv hd hlat hreq).mpr
      ⟨hne, rfl, types, data, htyped, hdata, rfl⟩,
      (completes_importConfig { ireq with yamlContent := data } hadmin hT' hsv htn hd hstate
        hread (.inl hmode)).mpr ⟨types, _, V, ⟨hsize, htyped, hdoc, ?_, ?_, ?_, ?_, ?_⟩, hV, rfl,
          rfl⟩, ?_⟩
    · exact forall_mem_map.mpr fun row hrow => (hrows row hrow).accepted
    · simpa using hne
    · refine checkAllWriteAttributes_of_unrestricted ?_
      simpa [changeOf, importOfRow] using hplain
    · exact (free_iff hd hread hV).mpr hlt
    · rw [hsnap, importWrite, map_map]
      exact (CrossFieldValid.congr (sameValues_of_content hcontent)).mpr hrules
    · rw [hlog _ _ _ _ rfl, hsnap, importWrite, map_map, map_map]
      exact map_congr_left hcontent

end Export

namespace Sample

def exportOfB (value : String) : ConfigYAML :=
  { document [("b", .str value)] (by simp) with version := 1 }

/-- A plain scalar, or the empty one in quotes. -/
def yamlScalar : YamlValue → String
  | .str s => if s = "" then "\"\"" else s
  | _ => "null"

/-- The text that yaml.v3 writes of a document with such values. -/
def yamlText (doc : ConfigYAML) : String :=
  "spec_version: " ++ doc.specVersion ++ "\nversion: " ++ formatInt doc.version ++ "\nvalues:\n" ++
    String.join (doc.values.map fun p =>
      "    " ++ p.1 ++ ":\n        value: " ++ yamlScalar p.2.value ++ "\n")

/-- An environment that writes these texts, and reads that of the document of `b`. -/
def exporting (value : String) : Env :=
  { world (exportOfB value) with
    yamlMarshal := fun doc => .ok (yamlText doc)
    yamlConfig := fun text =>
      if text = yamlText (exportOfB value) then .ok (exportOfB value)
      else .error "unsupported document" }

def fieldTypes : List (String × FieldType) :=
  [("a", .integer), ("b", .string), ("w", .string)]

def putB (value : Option String) : Call :=
  .setField superadmin
    { tenantId := tenant, fieldPath := "b", value := value.map TypedValue.stringValue }

def exportRequest : ExportConfigRequest :=
  { tenantId := tenant }

def importRequest (value : String) : ImportRequest :=
  { tenantId := tenant, yamlContent := yamlText (exportOfB value), mode := .replace }

theorem serviceTypes_schema (value : String) :
    serviceTypes (exporting value) schema = .ok fieldTypes :=
  rfl

theorem exportedDocument_schema {value : String} {L : List ConfigVersion} {row : ConfigValue}
    (hrows : fullConfigAtVersion L 1 = [row]) (hpath : row.fieldPath = "b")
    (hnone : row.description = none) (hdesc : descriptionAt L 1 = "") :
    exportedDocument (exporting value) schema fieldTypes L 1 =
      exportOfB (derefString row.value) := by
  have heq : ∀ d : ConfigYAML, d.specVersion = "v1" → d.version = 1 → d.description = "" →
      d.values = (exportOfB (derefString row.value)).values → d.extensions = [] →
      d = exportOfB (derefString row.value) := by
    rintro ⟨spec, version, description, values, extensions, hnodup⟩ rfl rfl rfl rfl rfl
    rfl
  refine heq _ rfl rfl hdesc ?_ rfl
  rw [exportedDocument_values, hrows, map_singleton, exportedEntry, hpath, hnone,
    displayValue, hpath]
  rfl

/-- The field `b` has this value in the first version, and nothing is going on. -/
def SetTo (value : Option String) (c : System) : Prop :=
  ((c.shared.db.log tenant).length = 1 ∧
      latestConfigVersion (c.shared.db.log tenant) = some 1 ∧
      (fullConfigAtVersion (c.shared.db.log tenant) 1).map ConfigValue.content =
        [("b", value, none)]) ∧
    descriptionAt (c.shared.db.log tenant) 1 = "" ∧ (c.shared.txs 2).isNone = true ∧
    c.shared.held = []

instance (value : Option String) (c : System) : Decidable (SetTo value c) :=
  instDecidableAnd

variable {value : Option String} {c : System}

theorem SetTo.row (h : SetTo value c) :
    ∃ row, fullConfigAtVersion (c.shared.db.log tenant) 1 = [row] ∧ row.fieldPath = "b" ∧
      row.value = value ∧ row.description = none := by
  obtain ⟨row, hrow, hcontent⟩ := map_eq_singleton_iff.mp h.1.2.2
  exact ⟨row, hrow, congrArg Prod.fst hcontent, congrArg (·.2.1) hcontent,
    congrArg (·.2.2) hcontent⟩

theorem SetTo.freeFor (h : SetTo value c) : c.shared.FreeFor 2 tenant := by
  refine ⟨Option.isNone_iff_eq_none.mp h.2.2.1, fun p hp => ?_⟩
  rw [h.2.2.2] at hp
  exact absurd hp not_mem_nil

theorem SetTo.yamlRoundTrips (h : SetTo value c) :
    YamlRoundTrips (exporting (derefString value)) (exportedDocument
      (exporting (derefString value)) schema fieldTypes (c.shared.db.log tenant) 1)
      (yamlText (exportOfB (derefString value))) := by
  obtain ⟨row, hrow, hpath, rfl, hdesc⟩ := h.row
  rw [exportedDocument_schema hrow hpath hdesc h.2.1]
  exact ⟨rfl, rfl, if_pos rfl⟩

theorem unrestricted_b : Unrestricted schema.fields "b" := by
  simp [Unrestricted, schema]

end Sample

open Sample in
theorem export_import_iff_string :
    ∃ c, Reach exec anyStep ((init [] [putB (some "x")]).system (exporting "x")) c ∧
      RoundTrips (exporting "x") c.shared tenant 1 1 2 superadmin superadmin exportRequest
        (importRequest "x") := by
  obtain ⟨c, hr, hset⟩ : ∃ c, Reach exec anyStep
      ((init [] [putB (some "x")]).system (exporting "x")) c ∧ SetTo (some "x") c :=
    exists_reach_of_run (steps 0 16) (by decide +kernel)
  obtain ⟨row, hrow, hpath, hvalue, hdesc⟩ := hset.row
  have hnames : c.shared.db.Names tenant tenant := ⟨by decide, if_pos (by decide +kernel)⟩
  have htn : c.shared.db.tenantByID tenant = some ⟨tenant, "acme", "s", 1, false⟩ :=
    (reach_le hr).tenants.find?_eq_some rfl
  refine ⟨c, hr, (export_import_iff hr hset.1.2.1 ⟨rfl, rfl⟩ rfl hnames hnames
    ⟨.inl rfl, .inl rfl⟩ rfl ((reach_le hr).boundSchema rfl) htn ?_ hset.freeFor ?_).mpr ?_⟩
  · rw [hrow, forall_mem_singleton, hpath]
    exact unrestricted_b
  · intro types htypes
    obtain rfl := Except.ok.inj ((serviceTypes_schema _).symm.trans htypes)
    exact ⟨_, hset.yamlRoundTrips⟩
  · refine ⟨by simp [hrow], by rw [hset.1.1]; decide, fun _ => ⟨rfl, .inl rfl⟩, fieldTypes, _,
      serviceTypes_schema _, rfl, .inl rfl, ?_⟩
    rw [hrow, forall_mem_singleton]
    refine ⟨by simp [hpath], by simp [hvalue], ?_, by simp [hdesc], .inl rfl, fun _ => ?_⟩
    · rw [hpath]
      exact trivial
    · rw [importOfRow, hpath, hvalue, hdesc]
      decide +kernel

open Sample in
/-- **A null comes back as the empty string.** -/
theorem export_import_null :
    ∃ c, Reach exec anyStep ((init [] [putB none]).system (exporting "")) c ∧
      latestConfigVersion (c.shared.db.log tenant) = some 1 ∧
      (∃ row, fullConfigAtVersion (c.shared.db.log tenant) 1 = [row] ∧ row.fieldPath = "b" ∧
        row.value = none) ∧
      c.shared.db.boundSchema tenant = some schema ∧ Unrestricted schema.fields "b" ∧
      c.shared.FreeFor 2 tenant ∧
      YamlRoundTrips (exporting "") (exportedDocument (exporting "") schema
        fieldTypes (c.shared.db.log tenant) 1) (yamlText (exportOfB "")) ∧
      ¬ RoundTrips (exporting "") c.shared tenant 1 1 2 superadmin superadmin
        exportRequest (importRequest "") := by
  obtain ⟨c, hr, hset, hexport, himport, hsnap⟩ : ∃ c, Reach exec anyStep
      ((init [] [putB none]).system (exporting "")) c ∧ SetTo none c ∧
      (alone 1 c.shared (exportConfig (exporting "") superadmin exportRequest)).map
        Prod.fst = some (.ok (.exported (yamlText (exportOfB "")))) ∧
      (alone 2 c.shared (importConfig (exporting "") superadmin (importRequest ""))).map
        Prod.fst = some (.ok (.version 2)) ∧
      (alone 2 c.shared (importConfig (exporting "") superadmin (importRequest ""))).map
        (fun p => (fullConfigAtVersion (p.2.db.log tenant) 2).map ConfigValue.content) =
        some [("b", some "", none)] :=
    exists_reach_of_run (steps 0 16) (by decide +kernel)
  obtain ⟨row, hrow, hpath, hvalue, hdesc⟩ := hset.row
  refine ⟨c, hr, hset.1.2.1, ⟨row, hrow, hpath, hvalue⟩, (reach_le hr).boundSchema rfl,
    unrestricted_b, hset.freeFor, hset.yamlRoundTrips, ?_⟩
  rintro ⟨data, version, s', hexp, himp, hsame⟩
  rw [hexp] at hexport
  obtain rfl : data = yamlText (exportOfB "") := by simpa using hexport
  have himp' : alone 2 c.shared (importConfig (exporting "") superadmin (importRequest "")) =
      some (.ok (.version version), s') := himp
  rw [himp'] at himport hsnap
  obtain rfl : version = 2 := by simpa using himport
  rw [hset.1.2.2] at hsame
  exact absurd (hsame.symm.trans (Option.some.inj hsnap)) (by decide)

end Decree
