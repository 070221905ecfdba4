import Decree.ImportAtomicity

/-!
# Exporting a Schema

`ExportSchema` (`internal/schema/service.go`, `yaml.go`, `parser.go`): a version of a schema as
a document, and what the parser of the import makes of that document. The document drops what is
present and empty, and its grammar is narrower than that of a message: it wants a field, and
paths of identifiers. The rules of a version come from a document, so they return as they are.

## Main results

* `reach_linted`: a stored version is linted.
* `exportSchema_parse_iff`: when a version returns.
-/

open Go Interleave List

namespace Decree

/-! ### Documents -/

def protoTypeToYAML : PbFieldType → String
  | .known .integer => "integer"
  | .known .number => "number"
  | .known .string => "string"
  | .known .bool => "bool"
  | .known .time => "time"
  | .known .duration => "duration"
  | .known .url => "url"
  | .known .json => "json"
  | .unspecified | .unknown _ _ => "string"

def ConstraintsYAML.isZero (c : ConstraintsYAML) : Bool :=
  c.minimum.isNone && c.maximum.isNone && c.exclusiveMinimum.isNone &&
    c.exclusiveMaximum.isNone && c.minLength.isNone && c.maxLength.isNone && c.pattern = "" &&
    c.enum = [] && c.jsonSchema = "" && c.allowedSchemes = []

def protoConstraintsToYAML (c : FieldConstraints) : Option ConstraintsYAML :=
  let yc : ConstraintsYAML :=
    { minimum := c.min
      maximum := c.max
      exclusiveMinimum := c.exclusiveMin
      exclusiveMaximum := c.exclusiveMax
      minLength := c.minLength
      maxLength := c.maxLength
      jsonSchema := c.jsonSchema.getD ""
      pattern := c.regex.getD ""
      enum := c.enumValues
      allowedSchemes := c.allowedSchemes }
  if yc.isZero then none else some yc

/-- The entry of a field in `schemaToYAML`. -/
def fieldToYAML (f : PbSchemaField) : SchemaFieldYAML where
  type := protoTypeToYAML f.type
  nullable := f.nullable
  deprecated := f.deprecated
  readOnly := f.readOnly
  writeOnce := f.writeOnce
  sensitive := f.sensitive
  description := f.docs.description.getD ""
  default := f.defaultValue.getD ""
  redirectTo := f.docs.redirectTo.getD ""
  title := f.docs.title.getD ""
  exampleValue := f.docs.exampleValue.getD ""
  format := f.docs.format.getD ""
  tags := f.docs.tags
  examples := f.docs.examples.map fun ex =>
    (ex.1, { value := ex.2.value, summary := ex.2.summary })
  externalDocs := f.docs.externalDocs.map fun d => { description := d.description, url := d.url }
  constraints := f.constraints.bind protoConstraintsToYAML

def protoDependentRequiredToYAML (entries : List DependentRequiredEntry) :
    List (String × List String) :=
  assigned (entries.map fun e => (e.triggerField, e.dependentFields.insertionSort (· ≤ ·)))

def protoValidationsToYAML (rules : List PbValidationRule) : List ValidationYAML :=
  rules.map fun v =>
    { path := v.path, rule := v.rule, message := v.message, severity := v.severity,
      reason := v.reason }

/-- The meta-schema that exported documents name. -/
def metaSchemaURL : String :=
  "https://schemas.opendecree.dev/schema/v0.1.0/decree-schema.json"

namespace SchemaAdmin

def schemaToYAML (s : SchemaReply) : SchemaYAML where
  specVersion := "v1"
  schema := metaSchemaURL
  id := "urn:decree:schema:" ++ s.schema.name ++ ":v" ++ formatInt s.version.version
  name := s.schema.name
  fields := assigned ((s.fields.map fieldToProto).map fun f => (f.path, fieldToYAML f))
  dependentRequired := protoDependentRequiredToYAML s.version.dependentRequired
  validations := protoValidationsToYAML s.version.validations
  nodup := nodup_assigned _
  nodup_triggers := nodup_assigned _

structure ExportSchemaRequest where
  id : String
  version : Option ℤ := none
  specVersion : Option String := none

section Export

variable (aenv : AdminEnv) (marshal : SchemaYAML → Except String String)

/-- **`MarshalSchemaAt`**: the only registered parser is the one for `v1`. -/
def marshalSchemaAt (s : SchemaReply) (version : String) : Except String String :=
  if version = "" ∨ version = "v1" then marshal (schemaToYAML s)
  else .error ("unsupported spec_version " ++ aenv.env.quote version ++ " (supported: [v1])")

/-- **`ExportSchema`**, with `yaml.Marshal` of a document. -/
def exportSchema (caller : Caller) (req : ExportSchemaRequest) : CatalogProc String := do
  checked (mustHaveClaims caller)
  match ← getSchema caller ⟨req.id, req.version⟩ with
  | .schema s =>
    checked ((marshalSchemaAt aenv marshal s (req.specVersion.getD "")).mapError invalidArgument)
  | _ => throw (.status (internal "unexpected nil schema response"))

end Export

end SchemaAdmin

/-! ### What an entry gives back -/

/-- A field as its entry of the document gives it back. -/
def restored (f : SchemaField) : SchemaField :=
  yamlToProtoField f.path (fieldToYAML (fieldToProto f))

/-- The constraints are not empty, and none of their texts is present and empty. -/
def FieldConstraints.Expressible (c : FieldConstraints) : Prop :=
  c ≠ {} ∧ c.regex ≠ some "" ∧ c.jsonSchema ≠ some ""

/-- None of the texts is present and empty. -/
def FieldDocs.Expressible (d : FieldDocs) : Prop :=
  d.description ≠ some "" ∧ d.redirectTo ≠ some "" ∧ d.title ≠ some "" ∧
    d.exampleValue ≠ some "" ∧ d.format ≠ some ""

/-- **A field that a document can express**: nothing of it is present and empty. -/
def SchemaField.Expressible (f : SchemaField) : Prop :=
  f.defaultValue ≠ some "" ∧ (∀ c ∈ f.constraints, c.Expressible) ∧ f.docs.Expressible

/-- A text returns unless it is present and empty. -/
theorem ptrString_getD {x : Option String} : ptrString (x.getD "") = x ↔ x ≠ some "" := by
  cases x with
  | none => simp [ptrString]
  | some s => by_cases hs : s = "" <;> simp [ptrString, hs]

theorem getD_eq_empty {x : Option String} : x.getD "" = "" ↔ x = none ∨ x = some "" := by
  cases x <;> simp

/-- The name of a type is read back. -/
theorem yamlTypeToProto_protoTypeToYAML (t : FieldType) :
    yamlTypeToProto (protoTypeToYAML (.known t)) = some t := by
  cases t <;> rfl

/-- Constraints come back exactly if a document can express them. -/
theorem constraints_restored_iff {c : FieldConstraints} :
    (protoConstraintsToYAML c).map yamlConstraintsToProto = some c ↔ c.Expressible := by
  obtain ⟨mn, mx, emn, emx, lo, hi, regex, enum, js, schemes⟩ := c
  simp only [protoConstraintsToYAML]
  split
  · -- all zero-valued: the constraints are dropped
    rename_i hzero
    simp only [ConstraintsYAML.isZero, Bool.and_eq_true, Option.isNone_iff_eq_none,
      decide_eq_true_eq] at hzero
    obtain ⟨⟨⟨⟨⟨⟨⟨⟨⟨rfl, rfl⟩, rfl⟩, rfl⟩, rfl⟩, rfl⟩, hregex⟩, rfl⟩, hjs⟩, rfl⟩ := hzero
    simp only [Option.map_none, reduceCtorEq, false_iff]
    rintro ⟨hne, hregex', hjs'⟩
    obtain rfl : regex = none := (getD_eq_empty.mp hregex).resolve_right hregex'
    obtain rfl : js = none := (getD_eq_empty.mp hjs).resolve_right hjs'
    exact hne rfl
  · rename_i hzero
    have hne : (⟨mn, mx, emn, emx, lo, hi, regex, enum, js, schemes⟩ : FieldConstraints) ≠ {} := by
      intro heq
      injection heq with h1 h2 h3 h4 h5 h6 h7 h8 h9 h10
      subst h1 h2 h3 h4 h5 h6 h7 h8 h9 h10
      exact hzero rfl
    simp [yamlConstraintsToProto, FieldConstraints.Expressible, ptrString_getD, hne]

/-- When the documentation of a field returns. -/
theorem docs_restored_iff {f : PbSchemaField} :
    yamlToProtoDocs (fieldToYAML f) = f.docs ↔ f.docs.Expressible := by
  obtain ⟨path, type, c, nullable, default, ro, wo, sens, dep, docs⟩ := f
  obtain ⟨description, redirectTo, title, exampleValue, examples, ext, tags, format⟩ := docs
  have hexamples : (examples.map fun ex : String × FieldExample =>
      (ex.1, (⟨ex.2.value, ex.2.summary⟩ : FieldExample))) = examples := by simp
  have hext : (ext.map fun d : ExternalDocs => (⟨d.description, d.url⟩ : ExternalDocs)) = ext := by
    simp
  simp only [yamlToProtoDocs, fieldToYAML, FieldDocs.Expressible, map_map, Option.map_map,
    Function.comp_def, FieldDocs.mk.injEq, ptrString_getD, hexamples, hext]
  tauto

/-- **A field comes back from its entry** exactly if a document can express it. -/
theorem restored_eq_iff {f : SchemaField} : restored f = f ↔ f.Expressible := by
  obtain ⟨path, type, c, nullable, default, ro, wo, sens, dep, docs⟩ := f
  have hc : (c.bind protoConstraintsToYAML).map yamlConstraintsToProto = c ↔
      ∀ c' ∈ c, c'.Expressible := by
    cases c with
    | none => simp
    | some c => simpa using constraints_restored_iff
  have hdocs : yamlToProtoDocs (fieldToYAML (fieldToProto
      ⟨path, type, c, nullable, default, ro, wo, sens, dep, docs⟩)) = docs ↔ docs.Expressible :=
    docs_restored_iff
  simp only [restored, yamlToProtoField, SchemaField.mk.injEq, SchemaField.Expressible, hdocs]
  simp only [fieldToYAML, fieldToProto, yamlTypeToProto_protoTypeToYAML, Option.getD_some,
    ptrString_getD, hc]
  tauto

/-! ### The document of a version -/

/-- A slug is a segment of a URN. -/
theorem mem_of_isValidSlug {name : String} (h : isValidSlug name = true) :
    isURNSegment name.toList = true ∧ ':' ∉ name.toList := by
  simp only [isValidSlug, Bool.and_eq_true, all_eq_true] at h
  obtain ⟨⟨⟨-, hall⟩, hhead⟩, -⟩ := h
  have hchar : ∀ c, (('a' ≤ c && c ≤ 'z') || ('0' ≤ c && c ≤ '9')) = true → isAlnum c = true := by
    intro c hc
    simp only [isAlnum, Bool.or_eq_true] at hc ⊢
    tauto
  refine ⟨?_, fun hmem => absurd (hall _ hmem) (by decide)⟩
  rw [isURNSegment, Bool.and_eq_true, all_eq_true]
  refine ⟨?_, fun c hc => ?_⟩
  · cases hh : name.toList.head? with
    | none => simp [hh] at hhead
    | some c => exact hchar c (by simpa [hh] using hhead)
  · rcases Bool.or_eq_true .. |>.mp (hall c hc) with hc | hc
    · simp [hchar c hc]
    · simp [of_decide_eq_true hc]

/-- An integer is written with digits and a sign. -/
theorem mem_formatIntChars {n : ℤ} {c : Char} (hc : c ∈ formatIntChars n) :
    c = '-' ∨ c.isDigit = true := by
  rw [formatIntChars] at hc
  split at hc
  · rcases mem_cons.mp hc with rfl | hc
    · exact .inl rfl
    · exact .inr (Nat.isDigit_of_mem_toDigits (by decide) (by decide) hc)
  · exact .inr (Nat.isDigit_of_mem_toDigits (by decide) (by decide) hc)

/-- The identifier of an exported schema is a URN. -/
theorem isSchemaURN_of_isValidSlug {name : String} (h : isValidSlug name = true) (version : ℤ) :
    isSchemaURN ("urn:decree:schema:" ++ name ++ ":v" ++ formatInt version) = true := by
  obtain ⟨hsegment, hcolon⟩ := mem_of_isValidSlug h
  have hdigit : ∀ c : Char, c.isDigit = true → isAlnum c = true ∧ c ≠ ':' := by
    intro c hc
    refine ⟨?_, by rintro rfl; exact absurd hc (by decide)⟩
    simp only [Char.isDigit, ge_iff_le, Bool.and_eq_true, decide_eq_true_eq] at hc
    simp only [isAlnum, Bool.or_eq_true, Bool.and_eq_true, decide_eq_true_eq]
    exact .inr hc
  have hsplit : ("urn:decree:schema:" ++ name ++ ":v" ++ formatInt version).toList.splitOn ':' =
      ["urn".toList, "decree".toList, "schema".toList, name.toList,
        'v' :: formatIntChars version] := by
    have hjoin : ("urn:decree:schema:" ++ name ++ ":v" ++ formatInt version).toList =
        [':'].intercalate ["urn".toList, "decree".toList, "schema".toList, name.toList,
          'v' :: formatIntChars version] := by
      simp [formatInt, intercalate]
    rw [hjoin]
    refine splitOn_intercalate ':' (fun l hl => ?_) (by simp)
    simp only [mem_cons, not_mem_nil, or_false] at hl
    rcases hl with rfl | rfl | rfl | rfl | rfl
    · decide
    · decide
    · decide
    · exact hcolon
    · intro hmem
      rcases mem_cons.mp hmem with hv | hmem
      · exact absurd hv (by decide)
      · rcases mem_formatIntChars hmem with hv | hv
        · exact absurd hv (by decide)
        · exact (hdigit _ hv).2 rfl
  have hversion : isURNSegment ('v' :: formatIntChars version) = true := by
    rw [isURNSegment, Bool.and_eq_true, all_eq_true]
    refine ⟨rfl, fun c hc => ?_⟩
    rcases mem_cons.mp hc with rfl | hc
    · rfl
    · rcases mem_formatIntChars hc with rfl | hc
      · rfl
      · simp [(hdigit c hc).1]
  rw [isSchemaURN, hsplit]
  simp [hsegment, hversion]

theorem option_forM_eq_ok {α ε : Type} {f : α → Except ε Unit} {x : Option α} :
    forM x f = .ok () ↔ ∀ a ∈ x, f a = .ok () := by
  cases x <;> simp [pure, Except.pure]

/-! ### What the rules give back -/

section Entries

variable {es : List DependentRequiredEntry}

/-- Sorted entries are exported as they are. -/
theorem protoDependentRequiredToYAML_eq
    (ht : (es.map DependentRequiredEntry.triggerField).Pairwise (· < ·))
    (hd : ∀ e ∈ es, e.dependentFields.Pairwise (· ≤ ·)) :
    protoDependentRequiredToYAML es = es.map fun e => (e.triggerField, e.dependentFields) := by
  have hsorted : (es.map fun e => (e.triggerField, e.dependentFields.insertionSort (· ≤ ·))) =
      es.map fun e => (e.triggerField, e.dependentFields) :=
    map_congr_left fun e he => by rw [(hd e he).insertionSort_eq]
  have hnodup : (es.map DependentRequiredEntry.triggerField).Nodup := ht.imp ne_of_lt
  refine (assigned_of_nodup ?_).trans hsorted
  simpa [Function.comp_def] using hnodup

/-- **Sorted entries survive the document.** -/
theorem yamlToProto_protoToYAML (ht : (es.map DependentRequiredEntry.triggerField).Pairwise (· < ·))
    (hd : ∀ e ∈ es, e.dependentFields.Pairwise (· ≤ ·)) :
    yamlToProtoDependentRequired (protoDependentRequiredToYAML es) = es := by
  rw [protoDependentRequiredToYAML_eq ht hd, yamlToProtoDependentRequired,
    List.Pairwise.insertionSort_eq, map_map]
  · refine (map_congr_left fun e he => ?_).trans (map_id _)
    simp [(hd e he).insertionSort_eq]
  · rw [pairwise_map] at ht ⊢
    exact ht.imp le_of_lt

/-- The triggers of a document are sorted. -/
theorem triggers_yamlToProtoDependentRequired (doc : SchemaYAML) :
    ((yamlToProtoDependentRequired doc.dependentRequired).map
      DependentRequiredEntry.triggerField).Pairwise (· < ·) := by
  have hsorted : (doc.dependentRequired.insertionSort fun p q => p.1 ≤ q.1).Pairwise
      fun p q => p.1 ≤ q.1 := pairwise_insertionSort _ _
  have hnodup : ((doc.dependentRequired.insertionSort fun p q => p.1 ≤ q.1).map Prod.fst).Nodup :=
    ((perm_insertionSort _ _).map _).nodup_iff.mpr doc.nodup_triggers
  rw [yamlToProtoDependentRequired, map_map, pairwise_map]
  exact (hsorted.and (pairwise_map.mp hnodup)).imp fun hlt => lt_of_le_of_ne hlt.1 hlt.2

/-- The entries of a document, sorted. -/
theorem mem_yamlToProtoDependentRequired {m : List (String × List String)}
    {e : DependentRequiredEntry} :
    e ∈ yamlToProtoDependentRequired m ↔ ∃ p ∈ m, ⟨p.1, p.2.insertionSort (· ≤ ·)⟩ = e := by
  simp only [yamlToProtoDependentRequired, mem_map, mem_insertionSort]

/-- The dependents of an entry are sorted. -/
theorem dependents_yamlToProtoDependentRequired (m : List (String × List String)) :
    ∀ e ∈ yamlToProtoDependentRequired m, e.dependentFields.Pairwise (· ≤ ·) := by
  intro e he
  obtain ⟨p, -, rfl⟩ := mem_yamlToProtoDependentRequired.mp he
  exact pairwise_insertionSort _ _

end Entries

namespace SchemaAdmin

/-- The fields and the rules of the version are **linted**, as the parser does it. -/
structure Linted (env : Env) (s : SchemaReply) : Prop where
  triggers : (s.version.dependentRequired.map DependentRequiredEntry.triggerField).Pairwise (· < ·)
  dependents : ∀ e ∈ s.version.dependentRequired, e.dependentFields.Pairwise (· ≤ ·)
  entries : ∀ e ∈ s.version.dependentRequired, checkDependentEntry env
    (s.fields.map SchemaField.path) e.triggerField e.dependentFields = .ok ()
  rules : ∀ v ∈ s.version.validations, v.rule ≠ "" ∧ v.message ≠ "" ∧
    (v.severity = "" ∨ v.severity = "error" ∨ v.severity = "warning")

/-- What the parser reads is **what the version says**: its fields with every attribute, the
entries of `dependentRequired`, and the rules. -/
structure Conveys (doc : SchemaYAML) (s : SchemaReply) : Prop where
  fields : importedFields doc = s.fields.map fieldToProto
  dependentRequired : yamlToProtoDependentRequired doc.dependentRequired =
    s.version.dependentRequired
  validations : yamlToProtoValidations doc.validations = s.version.validations

section Document

variable {env : Env} {senv : SchemaEnv} {s : SchemaReply}

/-- The fields of an exported document. -/
theorem fields_schemaToYAML (hpaths : (s.fields.map SchemaField.path).Nodup) :
    (schemaToYAML s).fields = s.fields.map fun f => (f.path, fieldToYAML (fieldToProto f)) := by
  refine (assigned_of_nodup ?_).trans (by simp [Function.comp_def])
  simpa [Function.comp_def] using hpaths

/-- The entry of a field passes its check if the path is one of documents. -/
theorem validateFieldYAML_fieldToYAML {f : SchemaField} :
    validateFieldYAML env f.path (fieldToYAML (fieldToProto f)) = .ok () ↔
      isFieldPath f.path = true := by
  have htype : (yamlTypeToProto (fieldToYAML (fieldToProto f)).type).isSome = true := by
    rw [fieldToYAML, fieldToProto, yamlTypeToProto_protoTypeToYAML]
    rfl
  have hconstraints : ∀ c ∈ (fieldToYAML (fieldToProto f)).constraints, c.extensions = [] := by
    intro c hc
    obtain ⟨c', -, hc'⟩ := Option.bind_eq_some_iff.mp hc
    simp only [protoConstraintsToYAML, Option.ite_none_left_eq_some] at hc'
    rw [← Option.some.inj hc'.2]
  simp only [validateFieldYAML, seq_eq_ok, ensure_eq_ok, htype, true_and]
  refine and_iff_left ⟨rfl, ?_, ?_, ?_⟩
  · refine option_forM_eq_ok.mpr fun c hc => ?_
    rw [hconstraints c hc]
    rfl
  · refine option_forM_eq_ok.mpr fun d hd => ?_
    obtain ⟨d', -, rfl⟩ := Option.map_eq_some_iff.mp hd
    rfl
  · refine forM_eq_ok.mpr fun ex hex => ?_
    obtain ⟨ex', -, rfl⟩ := mem_map.mp hex
    rfl

/-- **The documents of linted versions that the parser accepts**: the version has fields, and
their paths are in the grammar of documents. -/
theorem validateSchemaYAML_schemaToYAML (hhttps : senv.isHTTPS metaSchemaURL = true)
    (hname : isValidSlug s.schema.name = true) (hpaths : (s.fields.map SchemaField.path).Nodup)
    (hlint : s.fields ≠ [] → Linted env s) :
    validateSchemaYAML env senv (schemaToYAML s) = .ok () ↔
      s.fields ≠ [] ∧ ∀ f ∈ s.fields, isFieldPath f.path = true := by
  have hne : s.schema.name ≠ "" := by
    intro h
    rw [h] at hname
    exact absurd hname (by decide)
  have hfields := fields_schemaToYAML hpaths
  by_cases hnil : s.fields = []
  · simp [validateSchemaYAML, seq_eq_ok, hfields, hnil]
  have hl := hlint hnil
  have hdeps : validateDependentRequiredYAML env (schemaToYAML s) = .ok () := by
    refine forM_eq_ok.mpr fun p hp => ?_
    have hp : p ∈ protoDependentRequiredToYAML s.version.dependentRequired := hp
    rw [protoDependentRequiredToYAML_eq hl.triggers hl.dependents] at hp
    obtain ⟨e, he, rfl⟩ := mem_map.mp hp
    simpa [hfields, Function.comp_def] using hl.entries e he
  have hrules : forM (schemaToYAML s).validations.zipIdx
      (fun p => validateValidationYAML env p.2 p.1) = .ok () := by
    rw [forM_eq_ok]
    intro p hp
    obtain ⟨v, hv, hpv⟩ := mem_map.mp (fst_mem_of_mem_zipIdx hp)
    obtain ⟨hrule, hmessage, hseverity⟩ := hl.rules v hv
    rw [← hpv]
    simp only [validateValidationYAML, seq_eq_ok, ensure_eq_ok, Bool.or_eq_true,
      decide_eq_true_eq, or_assoc]
    exact ⟨hrule, hmessage, hseverity, rfl⟩
  have hpathsOk : (schemaToYAML s).fields.forM (fun p => validateFieldYAML env p.1 p.2) = .ok () ↔
      ∀ f ∈ s.fields, isFieldPath f.path = true := by
    rw [hfields]
    refine forM_eq_ok.trans ?_
    simp [validateFieldYAML_fieldToYAML]
  have hlen : (schemaToYAML s).fields.length ≠ 0 := by
    rw [hfields, length_map]
    exact length_eq_zero_iff.not.mpr hnil
  simp only [validateSchemaYAML, seq_eq_ok, ensure_eq_ok, hdeps, hpathsOk]
  have hurn := isSchemaURN_of_isValidSlug hname s.version.version
  refine ⟨fun h => ⟨hnil, h.2.2.2.2.2.2.2.2.2.2.2⟩, fun h => ?_⟩
  refine ⟨rfl, rfl, ?_, ?_, rfl, rfl, decide_eq_true hne, hname, decide_eq_true hlen, trivial,
    hrules, h.2⟩
  · simp [schemaToYAML, hhttps]
  · exact Bool.or_eq_true .. |>.mpr (.inr hurn)

/-- The message of a field tells the field. -/
theorem fieldToProto_injective : Function.Injective fieldToProto := by
  rintro ⟨⟩ ⟨⟩ h
  simpa [fieldToProto] using h

/-- **A linted version is conveyed** exactly if a document can express its fields. -/
theorem conveys_schemaToYAML (hpaths : (s.fields.map SchemaField.path).Nodup)
    (hsorted : s.fields.Pairwise fun f g => f.path ≤ g.path) (hlint : Linted env s) :
    Conveys (schemaToYAML s) s ↔ ∀ f ∈ s.fields, f.Expressible := by
  have himported : importedFields (schemaToYAML s) = (s.fields.map restored).map fieldToProto := by
    have hmap : ((schemaToYAML s).fields.map fun p => yamlToProtoField p.1 p.2) =
        s.fields.map restored := by
      rw [fields_schemaToYAML hpaths, map_map]
      rfl
    rw [importedFields, yamlToProtoFields, hmap, List.Pairwise.insertionSort_eq]
    exact pairwise_map.mpr hsorted
  have hfields : importedFields (schemaToYAML s) = s.fields.map fieldToProto ↔
      ∀ f ∈ s.fields, f.Expressible := by
    have hself : s.fields.map restored = s.fields ↔ ∀ f ∈ s.fields, restored f = f := by
      simpa using map_inj_left (f := restored) (g := id) (l := s.fields)
    rw [himported, fieldToProto_injective.list_map.eq_iff, hself]
    exact forall₂_congr fun f _ => restored_eq_iff
  refine ⟨fun h => hfields.mp h.fields, fun h => ⟨hfields.mpr h,
    yamlToProto_protoToYAML hlint.triggers hlint.dependents, ?_⟩⟩
  simp [schemaToYAML, yamlToProtoValidations, protoValidationsToYAML, Function.comp_def]

end Document

/-! ### Stored versions -/

/-- The rules of the version are **those of a document** that the parser accepts, and it has no
fields or those of the document. -/
structure RuledBy (aenv : AdminEnv) (db : Catalog) (v : CatalogVersion) (doc : SchemaYAML) :
    Prop where
  valid : validateSchemaYAML aenv.env aenv.senv doc = .ok ()
  dependentRequired : v.dependentRequired = yamlToProtoDependentRequired doc.dependentRequired
  validations : v.validations = yamlToProtoValidations doc.validations
  stored : db.fieldsOf v.id = [] ∨ db.fieldsOf v.id = storedFields doc

def Unruled (v : CatalogVersion) : Prop :=
  v.dependentRequired = [] ∧ v.validations = []

/-- A document that is accepted has passed the checks of the parser. -/
theorem validateSchemaYAML_of_accept {env : Env} {senv : SchemaEnv} {caller : Caller}
    {req : ImportSchemaRequest} {doc : SchemaYAML}
    (hdoc : acceptSchema env senv caller req = .ok doc) :
    validateSchemaYAML env senv doc = .ok () := by
  simp only [acceptSchema, bind_eq_ok] at hdoc
  obtain ⟨_, -, _, -, _, -, doc', hdoc', _, -, _, -, _, -, _, -, heq⟩ := hdoc
  cases heq
  have hdisp := mapError_eq_ok.mp hdoc'
  rw [dispatchSchema] at hdisp
  split at hdisp
  · cases hdisp
  · cases hdisp
  · split at hdisp
    · cases hdisp
    · rename_i doc hdoc
      cases hv : validateSchemaYAML env senv doc with
      | error e => simp [hv, Except.map] at hdisp
      | ok u =>
        rw [hv] at hdisp
        cases hdisp
        exact hv
  · cases hdisp

section Runs

variable {aenv : AdminEnv} {callers : Callers} {allowed : AdminConfig → ℕ → CatalogChoice → Prop}
  {c : AdminConfig} {doc : SchemaYAML} {v : CatalogVersion}

/-- **The rules of a version are those of a document.** -/
theorem reach_rules (hr : Reach execCatalog allowed (start aenv callers) c) :
    ∀ v ∈ c.shared.versions, Unruled v ∨ ∃ doc, RuledBy aenv c.shared v doc := by
  intro v hv
  rcases reach_versions (P := fun p rows => p.dependentRequired = [] ∧ p.validations = [] ∨
      ∃ doc, validateSchemaYAML aenv.env aenv.senv doc = .ok () ∧
        (p.dependentRequired = yamlToProtoDependentRequired doc.dependentRequired ∧
          p.validations = yamlToProtoValidations doc.validations) ∧
        (rows = [] ∨ rows = storedFields doc)) hr
    (fun hdoc hv => by
      have hvalid := validateSchemaYAML_of_accept hdoc
      cases hv <;>
        exact ⟨.inr ⟨_, hvalid, ⟨rfl, rfl⟩, .inl rfl⟩, .inr ⟨_, hvalid, ⟨rfl, rfl⟩, .inr rfl⟩⟩)
    (fun _ hdeps hrules _ => .inl ⟨hdeps, hrules⟩) v hv with hun | ⟨doc, hvalid, hrules, hstored⟩
  · exact .inl hun
  · exact .inr ⟨doc, hvalid, hrules.1, hrules.2, hstored⟩

/-- A schema keeps its name. -/
theorem markSchema_name (o : CatalogOp) (s : CatalogSchema) : (o.markSchema s).name = s.name := by
  cases o <;> simp only [CatalogOp.markSchema]
  split <;> rfl

/-- **The names of schemas are slugs.** -/
theorem reach_named (hr : Reach execCatalog allowed (start aenv callers) c) :
    ∀ s ∈ c.shared.schemas, isValidSlug s.name = true := by
  refine catalog_invariant (fun db => ∀ s ∈ db.schemas, isValidSlug s.name = true) hr
    (by simp [start]) ?_
  rintro c t ch o k db hr hp ih - heff s hmem
  rw [heff.schemas, mem_append, mem_map, Option.mem_toList] at hmem
  rcases hmem with ⟨s0, hs0, rfl⟩ | hnew
  · rw [markSchema_name]
    exact ih s0 hs0
  obtain ⟨caller, req, ht, hw⟩ := reach_writes hr hp (by cases o <;> trivial)
  have hafter := reach_proc hr ht
  rw [hp] at hafter
  generalize (c.pool t).hist = h at hw hafter
  cases hw with
  | importSchema req hdoc s =>
    cases hnew
    have hvalid := validateSchemaYAML_of_accept hdoc
    simp only [validateSchemaYAML, seq_eq_ok, ensure_eq_ok] at hvalid
    obtain ⟨-, -, -, -, -, -, -, hslug, -⟩ := hvalid
    exact hslug
  | createSchema req =>
    cases hnew
    obtain ⟨⟨⟩, hcheck, -⟩ := after_checked_bind hafter
    simp only [checkCreateSchema, seq_eq_ok, demand_eq_ok] at hcheck
    obtain ⟨-, -, hslug, -⟩ := hcheck
    exact hslug
  | _ => cases hnew

/-- The fields of a version, in the order of paths. -/
theorem perm_schemaFields (db : Catalog) (versionID : String) :
    (db.schemaFields versionID).Perm (db.fieldsOf versionID) :=
  perm_insertionSort _ _

/-- The paths of a document are stored. -/
theorem perm_paths_storedFields (doc : SchemaYAML) :
    ((storedFields doc).map SchemaField.path).Perm (doc.fields.map Prod.fst) := by
  have := (perm_yamlToProtoFields doc).map SchemaField.path
  simpa [storedFields, importedFields, Function.comp_def, yamlToProtoField] using this

/-- A version with the fields and the rules of a document is linted. -/
theorem RuledBy.linted {db : Catalog} (h : RuledBy aenv db v doc) (hne : db.fieldsOf v.id ≠ [])
    (schema : CatalogSchema) : Linted aenv.env ⟨schema, v, db.schemaFields v.id⟩ := by
  have hvalid := h.valid
  simp only [validateSchemaYAML, seq_eq_ok, ensure_eq_ok] at hvalid
  obtain ⟨-, -, -, -, -, -, -, -, -, hdeps, hrules, -⟩ := hvalid
  have hknown : ∀ x, x ∈ (db.schemaFields v.id).map SchemaField.path ↔
      x ∈ doc.fields.map Prod.fst := fun x => by
    rw [((perm_schemaFields db v.id).map _).mem_iff, h.stored.resolve_left hne,
      (perm_paths_storedFields doc).mem_iff]
  refine ⟨?_, ?_, fun e he => ?_, fun r hr => ?_⟩
  · rw [h.dependentRequired]
    exact triggers_yamlToProtoDependentRequired doc
  · rw [h.dependentRequired]
    exact dependents_yamlToProtoDependentRequired _
  · rw [h.dependentRequired] at he
    obtain ⟨p, hp, rfl⟩ := mem_yamlToProtoDependentRequired.mp he
    have hp := checkDependentEntry_eq_ok.mp (forM_eq_ok.mp hdeps p hp)
    refine checkDependentEntry_eq_ok.mpr ?_
    simpa [hknown, (perm_insertionSort _ p.2).nodup_iff] using hp
  · rw [h.validations] at hr
    obtain ⟨w, hw, rfl⟩ := mem_map.mp hr
    rw [← zipIdx_map_fst 0 doc.validations] at hw
    obtain ⟨p, hp, rfl⟩ := mem_map.mp hw
    have hrule := forM_eq_ok.mp hrules p hp
    simp only [validateValidationYAML, seq_eq_ok, ensure_eq_ok, decide_eq_true_eq,
      Bool.or_eq_true, or_assoc] at hrule
    exact ⟨hrule.1, hrule.2.1, hrule.2.2.1⟩

/-- **A stored version with fields is linted.** -/
theorem reach_linted (hr : Reach execCatalog allowed (start aenv callers) c)
    (hv : v ∈ c.shared.versions) (hne : c.shared.fieldsOf v.id ≠ []) (schema : CatalogSchema) :
    Linted aenv.env ⟨schema, v, c.shared.schemaFields v.id⟩ := by
  rcases reach_rules hr v hv with ⟨hdeps, hrules⟩ | ⟨doc, hdoc⟩
  · constructor <;> simp [hdeps, hrules]
  · exact hdoc.linted hne schema

end Runs

/-! ### An export that runs alone -/

/-- The store does what it is asked to. -/
structure Serves (ch : CatalogChoice) (db : Catalog) : Prop where
  ok : ch.outcome = .ok
  fresh : ch.ids.Fresh db

section Alone

variable {ch : CatalogChoice} {t : ℕ} {db : Catalog} {α β : Type}

/-- A check, run alone. -/
theorem runAlone_checked_bind {x : Except Status α} {f : α → CatalogProc β} :
    runAlone execCatalog ch t (checked x >>= f).run db =
      match x with
      | .ok a => runAlone execCatalog ch t (f a).run db
      | .error st => some (.error (.status st), db) := by
  cases x <;> rfl

/-- A read, run alone. -/
theorem runAlone_read_bind (hch : Serves ch db) {q : CatalogQuery} {onError : StoreErr → Status}
    {f : q.Result → CatalogProc β} :
    runAlone execCatalog ch t (perform (.read q) onError >>= f).run db =
      match q.eval db with
      | .ok a => runAlone execCatalog ch t (f a).run db
      | .error e => some (.error (.status (onError e)), db) := by
  have hexec : execCatalog ch t (.read q) db = some ((q.eval db).mapError .store, db) := by
    rw [execCatalog, if_pos hch.fresh, hch.ok, CatalogOp.body]
    cases q.eval db <;> rfl
  rw [ExceptT.run_bind, runAlone_bind, perform, ask, ExceptT.run_mk, runAlone, hexec]
  cases q.eval db <;> rfl

end Alone

/-- The request **asks for the version**: its schema by the identifier, or by a name that finds
it, and the version by its number, or as the latest; as a document of a registered parser. -/
structure ExportSchemaRequest.AsksFor (req : ExportSchemaRequest) (db : Catalog)
    (s : CatalogSchema) (v : CatalogVersion) : Prop where
  schema : s ∈ db.schemas
  version : v ∈ db.versions
  parent : v.schemaID = s.id
  names : req.id = s.id ∨ isUUID req.id = false ∧ db.schemaByName req.id = some s
  number : req.version = some v.version ∨ req.version = none ∧ db.latestSchemaVersion s.id = some v
  spec : req.specVersion.getD "" = "" ∨ req.specVersion.getD "" = "v1"

section Export

variable {aenv : AdminEnv} {marshal : SchemaYAML → Except String String} {caller : Caller}
  {req : ExportSchemaRequest} {ch : CatalogChoice} {t : ℕ} {db : Catalog} {s : CatalogSchema}
  {v : CatalogVersion} {data : String}

/-- `GetSchema`, run alone. -/
theorem runAlone_getSchema (hwf : db.WF) (hreq : req.AsksFor db s v) (hch : Serves ch db)
    (hcaller : mustHaveClaims caller = .ok ()) (hname : isValidSlug s.name = true) :
    runAlone execCatalog ch t (getSchema caller ⟨req.id, req.version⟩).run db =
      some (if s.deleted then .error (.status ⟨.notFound, "schema not found"⟩)
        else .ok (.schema ⟨s, v, db.schemaFields v.id⟩), db) := by
  have hid : requireSchemaID req.id = .ok () := by
    refine demand_eq_ok.mpr (decide_eq_true ?_)
    rintro hempty
    rcases hreq.names with hid | ⟨-, hfind⟩
    · exact absurd (hwf.uuids s hreq.schema) (by rw [← hid, hempty]; decide)
    · have hkey := find?_some hfind
      simp only [Bool.and_eq_true, decide_eq_true_eq] at hkey
      rw [hkey.1, hempty] at hname
      exact absurd hname (by decide)
  have hrest : runAlone execCatalog ch t (do
      let version ← lookupVersion s.id req.version
      let fields ← perform (.read (.schemaFields version.id)) fun _ =>
        internal "failed to get schema fields"
      pure (AdminReply.schema ⟨s, version, fields⟩)).run db =
        some (.ok (.schema ⟨s, v, db.schemaFields v.id⟩), db) := by
    rcases hreq.number with hnum | ⟨hnum, hlatest⟩
    · rw [hnum, lookupVersion, runAlone_read_bind hch, CatalogQuery.eval, ← hreq.parent,
        hwf.schemaVersion hreq.version]
      exact runAlone_read_bind hch
    · rw [hnum, lookupVersion, runAlone_read_bind hch, CatalogQuery.eval, hlatest]
      exact runAlone_read_bind hch
  rw [getSchema, runAlone_checked_bind, hcaller]
  dsimp only
  rw [runAlone_checked_bind, hid]
  dsimp only
  rw [resolveSchema]
  rcases hreq.names with hid | ⟨huuid, hfind⟩
  · rw [hid, if_pos (hwf.uuids s hreq.schema), runAlone_read_bind hch, CatalogQuery.eval,
      hwf.schemaByID hreq.schema]
    cases hdeleted : s.deleted with
    | true => rfl
    | false => exact hrest
  · have hlive := find?_some hfind
    simp only [Bool.and_eq_true, Bool.not_eq_true'] at hlive
    rw [if_neg (by simp [huuid]), runAlone_read_bind hch, CatalogQuery.eval, hfind, hlive.2]
    exact hrest

/-- **An export that runs alone** gives the document of the version, if its schema is live. -/
theorem runAlone_exportSchema (hwf : db.WF) (hreq : req.AsksFor db s v) (hch : Serves ch db)
    (hcaller : mustHaveClaims caller = .ok ()) (hname : isValidSlug s.name = true) :
    runAlone execCatalog ch t (exportSchema aenv marshal caller req).run db = some (.ok data, db) ↔
      s.deleted = false ∧ marshal (schemaToYAML ⟨s, v, db.schemaFields v.id⟩) = .ok data := by
  rw [exportSchema, runAlone_checked_bind, hcaller]
  dsimp only
  rw [ExceptT.run_bind, runAlone_bind, runAlone_getSchema hwf hreq hch hcaller hname]
  cases s.deleted with
  | true => simp [runAlone]
  | false =>
    simp only [Bool.false_eq_true, if_false, Option.bind_some, checked, ExceptT.run_mk, runAlone,
      marshalSchemaAt, if_pos hreq.spec, true_and, Option.some.injEq, Prod.mk.injEq, and_true,
      mapError_eq_ok]

/-- `yaml.v3` writes the document and reads it back. -/
def ReadsBack (aenv : AdminEnv) (marshal : SchemaYAML → Except String String)
    (doc : SchemaYAML) : Prop :=
  ∃ data, marshal doc = .ok data ∧ aenv.env.yamlHeader data = .ok doc.specVersion ∧
    aenv.senv.yamlSchema data = .ok doc

/-- The parser reads the text of an exported document as that document, if it is valid. -/
theorem dispatchSchema_exported {reply : SchemaReply}
    (hheader : aenv.env.yamlHeader data = .ok (schemaToYAML reply).specVersion)
    (hread : aenv.senv.yamlSchema data = .ok (schemaToYAML reply)) {doc : SchemaYAML} :
    dispatchSchema aenv.env aenv.senv data = .ok doc ↔
      validateSchemaYAML aenv.env aenv.senv (schemaToYAML reply) = .ok () ∧
        schemaToYAML reply = doc := by
  have hv1 : aenv.env.yamlHeader data = .ok "v1" := hheader
  simp only [dispatchSchema, hv1, hread]
  cases validateSchemaYAML aenv.env aenv.senv (schemaToYAML reply) <;> simp [Except.map]

/-- **The version can be exported**: its schema is live, it has fields, their paths are in the
grammar of documents, and a document can express them. -/
structure Exportable (db : Catalog) (s : CatalogSchema) (v : CatalogVersion) : Prop where
  live : s.deleted = false
  fields : db.fieldsOf v.id ≠ []
  paths : ∀ f ∈ db.fieldsOf v.id, isFieldPath f.path = true
  expressible : ∀ f ∈ db.fieldsOf v.id, f.Expressible

/-- **An exported version is parsed as what it is** exactly if it can be exported: for every
version in every reachable state, by an export that runs alone. -/
theorem exportSchema_parse_iff {callers : Callers}
    {allowed : AdminConfig → ℕ → CatalogChoice → Prop} {c : AdminConfig}
    (hr : Reach execCatalog allowed (start aenv callers) c) (hreq : req.AsksFor c.shared s v)
    (hch : Serves ch c.shared) (hcaller : mustHaveClaims caller = .ok ())
    (hhttps : aenv.senv.isHTTPS metaSchemaURL = true)
    (hyaml : ReadsBack aenv marshal (schemaToYAML ⟨s, v, c.shared.schemaFields v.id⟩)) :
    (∃ data doc, runAlone execCatalog ch t (exportSchema aenv marshal caller req).run c.shared =
          some (.ok data, c.shared) ∧
        dispatchSchema aenv.env aenv.senv data = .ok doc ∧
        Conveys doc ⟨s, v, c.shared.schemaFields v.id⟩) ↔
      Exportable c.shared s v := by
  have hwf := reach_wf hr
  have hname := reach_named hr s hreq.schema
  have hperm := perm_schemaFields c.shared v.id
  have hpaths : ((c.shared.schemaFields v.id).map SchemaField.path).Nodup :=
    (hperm.map _).nodup_iff.mpr (hwf.paths v.id)
  have hnil : c.shared.schemaFields v.id ≠ [] ↔ c.shared.fieldsOf v.id ≠ [] := by
    rw [ne_eq, ne_eq, ← length_eq_zero_iff, ← length_eq_zero_iff, hperm.length_eq]
  have hlint : c.shared.schemaFields v.id ≠ [] →
      Linted aenv.env ⟨s, v, c.shared.schemaFields v.id⟩ := fun hne =>
    reach_linted hr hreq.version (hnil.mp hne) s
  have hvalid := validateSchemaYAML_schemaToYAML (s := ⟨s, v, c.shared.schemaFields v.id⟩)
    hhttps hname hpaths hlint
  obtain ⟨data, hmarshal, hheader, hread⟩ := hyaml
  constructor
  · rintro ⟨data', doc, hrun, hparse, hconveys⟩
    obtain ⟨hlive, hdata⟩ := (runAlone_exportSchema hwf hreq hch hcaller hname).mp hrun
    obtain rfl := Except.ok.inj (hmarshal.symm.trans hdata)
    obtain ⟨hok, rfl⟩ := (dispatchSchema_exported hheader hread).mp hparse
    obtain ⟨hne, hgrammar⟩ := hvalid.mp hok
    have hexpr := (conveys_schemaToYAML hpaths (pairwise_insertionSort _ _) (hlint hne)).mp hconveys
    exact ⟨hlive, hnil.mp hne, fun f hf => hgrammar f (hperm.mem_iff.mpr hf),
      fun f hf => hexpr f (hperm.mem_iff.mpr hf)⟩
  · intro h
    have hne := hnil.mpr h.fields
    refine ⟨data, _, (runAlone_exportSchema hwf hreq hch hcaller hname).mpr ⟨h.live, hmarshal⟩,
      (dispatchSchema_exported hheader hread).mpr ⟨hvalid.mpr ⟨hne, fun f hf => ?_⟩, rfl⟩, ?_⟩
    · exact h.paths f (hperm.mem_iff.mp hf)
    · refine (conveys_schemaToYAML hpaths (pairwise_insertionSort _ _) (hlint hne)).mpr ?_
      exact fun f hf => h.expressible f (hperm.mem_iff.mp hf)

end Export

namespace Sample

def firstID : String :=
  "00000000-0000-4000-8000-000000000000"

def label (default : Option String) (c : Option FieldConstraints) : SchemaField where
  path := "a"
  fieldType := .string
  defaultValue := default
  constraints := c

def labelled (f : SchemaField) : SchemaReply where
  schema := ⟨firstID, "limits", false⟩
  version :=
    { schemaID := firstID
      version := 1
      checksum := "a:FIELD_TYPE_STR"
      id := firstID }
  fields := [f]

def exporting (f : SchemaField) : AdminEnv where
  env := Decree.Sample.world Decree.Sample.noDocument
  senv :=
    { (admin .error).senv with
      yamlSchema := fun _ => .ok (schemaToYAML (labelled f))
      isHTTPS := fun _ => true }
  maxRemoveFields := 0

def labels (f : SchemaField) : Callers :=
  [(Decree.Sample.superadmin, .createSchema ⟨"limits", [fieldToProto f]⟩)]

def exportLabels : ExportSchemaRequest where
  id := "limits"

/-- A field with a default, and one with a default and constraints that are empty. -/
def kept : SchemaField :=
  label (some "x") none

@[inherit_doc kept]
def emptied : SchemaField :=
  label (some "") (some {})

theorem exportable_kept {db : Catalog} (h : db.fieldsOf firstID = [kept]) :
    Exportable db (labelled kept).schema (labelled kept).version := by
  have hrows : ∀ f ∈ db.fieldsOf (labelled kept).version.id, f = kept := fun f hf =>
    mem_singleton.mp (h ▸ hf)
  refine ⟨rfl, h ▸ cons_ne_nil _ _, fun f hf => ?_, fun f hf => ?_⟩
  · rw [hrows f hf]
    decide
  · rw [hrows f hf]
    exact restored_eq_iff.mp (by decide)

end Sample

open SchemaAdmin.Sample

theorem exportSchema_parse_iff_label : ∃ c : AdminConfig, Reach execCatalog anyStep
        (start (exporting kept) (labels kept)) c ∧
      ∃ data doc, runAlone execCatalog (draw 1) 1 (exportSchema (exporting kept) (fun _ => .ok "")
            Decree.Sample.superadmin exportLabels).run c.shared =
          some (.ok data, c.shared) ∧
        dispatchSchema (exporting kept).env (exporting kept).senv data = .ok doc ∧
        Conveys doc (labelled kept) := by
  obtain ⟨c, hr, hschema, hversion, hfind, hlatest, hrows, hfields, hfresh⟩ :
      ∃ c : AdminConfig, Reach execCatalog anyStep (start (exporting kept) (labels kept)) c ∧
      (labelled kept).schema ∈ c.shared.schemas ∧
      (labelled kept).version ∈ c.shared.versions ∧
      c.shared.schemaByName "limits" = some (labelled kept).schema ∧
      c.shared.latestSchemaVersion firstID = some (labelled kept).version ∧
      c.shared.fieldsOf firstID = [kept] ∧
      c.shared.schemaFields firstID = [kept] ∧
      (draw 1).ids.Fresh c.shared :=
    exists_reach_of_run [(0, draw 0)] (by decide +kernel)
  have hasks : exportLabels.AsksFor c.shared (labelled kept).schema (labelled kept).version :=
    ⟨hschema, hversion, rfl, .inr ⟨by decide, hfind⟩, .inr ⟨rfl, hlatest⟩, .inl rfl⟩
  have hcaller : mustHaveClaims Decree.Sample.superadmin = .ok () := rfl
  have hreply : (⟨(labelled kept).schema, (labelled kept).version,
      c.shared.schemaFields firstID⟩ : SchemaReply) = labelled kept := by
    rw [hfields]
    rfl
  have hyaml : ReadsBack (exporting kept) (fun _ => .ok "") (schemaToYAML
      ⟨(labelled kept).schema, (labelled kept).version, c.shared.schemaFields firstID⟩) := by
    rw [hreply]
    exact ⟨"", rfl, rfl, rfl⟩
  obtain ⟨data, doc, hrun, hparse, hconveys⟩ := (exportSchema_parse_iff (t := 1) hr hasks
    ⟨rfl, hfresh⟩ hcaller rfl hyaml).mpr (exportable_kept hrows)
  exact ⟨c, hr, data, doc, hrun, hparse, hreply ▸ hconveys⟩

/-- **A default and constraints that an export loses**: the empty string and the empty
constraints of a field are there in the version, and not in what the parser reads. -/
theorem exportSchema_drops_empty : ∃ c : AdminConfig, Reach execCatalog anyStep
        (start (exporting emptied) (labels emptied)) c ∧
      c.returned 0 = some (.ok (.schema (labelled emptied))) ∧
      runAlone execCatalog (draw 1) 1 (exportSchema (exporting emptied) (fun _ => .ok "")
            Decree.Sample.superadmin exportLabels).run c.shared =
          some (.ok "", c.shared) ∧
      (dispatchSchema (exporting emptied).env
          (exporting emptied).senv "").toOption.map importedFields =
        some [fieldToProto (label none none)] :=
  exists_reach_of_run [(0, draw 0)] (by decide +kernel)

end SchemaAdmin

end Decree
