import Decree.Json
import Decree.SchemaExport

/-!
# Rules as JSON Columns

The rules of a schema version on their way to the columns `dependent_required` and `validations`
and back (`internal/schema/dependent_required.go`, `validations.go`, and the decoder of its own
in `internal/validation/factory.go`). A column is the text that `json.Marshal` writes. Which keys
an object has, which of them are left out when empty, and what a decoder makes of `null` and of
unknown keys is as the structs and their tags say.

## Main results

* `rules_read_back`: of the row that an import writes, both decoders return the rules of the
  document in their order, the entries of `dependentRequired` return from their column and from a
  document, and no set of present paths is judged otherwise than by the document.
-/

open Go List

namespace Decree

/-! ### The columns -/

section Columns

/-- `wireEntry`, encoded: dependents that are `nil` are `null`. -/
def dependentRequiredJSON (e : DependentRequiredEntry) : Json :=
  .obj [("trigger_field", .str e.triggerField),
    ("dependent_fields",
      if e.dependentFields.isEmpty then .null else .arr (e.dependentFields.map .str))]

/-- `wireEntry`, decoded. -/
def dependentRequiredOf : Json → Option DependentRequiredEntry :=
  Json.intoStruct
    [Json.textField "trigger_field" fun s e => { e with triggerField := s },
      ("dependent_fields", fun v e =>
        (v.intoSlice Json.intoString).map fun deps => { e with dependentFields := deps })]
    ⟨"", []⟩

def marshalDependentRequired : List DependentRequiredEntry → String :=
  Json.marshalSlice dependentRequiredJSON

def unmarshalDependentRequired : String → List DependentRequiredEntry :=
  Json.unmarshalSlice dependentRequiredOf

/-- `validationWireEntry`, encoded. -/
def validationJSON (e : PbValidationRule) : Json :=
  .obj (Json.omitEmpty "path" e.path ++ [("rule", .str e.rule), ("message", .str e.message)] ++
    Json.omitEmpty "severity" e.severity ++ Json.omitEmpty "reason" e.reason)

/-- `validationWireEntry`, decoded; the tags of `pb.ValidationRule` have the same keys. -/
def validationOf : Json → Option PbValidationRule :=
  Json.intoStruct
    [Json.textField "path" fun s e => { e with path := s },
      Json.textField "rule" fun s e => { e with rule := s },
      Json.textField "message" fun s e => { e with message := s },
      Json.textField "severity" fun s e => { e with severity := s },
      Json.textField "reason" fun s e => { e with reason := s }]
    ⟨⟨"", "", "", ""⟩, ""⟩

def marshalValidations : List PbValidationRule → String :=
  Json.marshalSlice validationJSON

def unmarshalValidations : String → List PbValidationRule :=
  Json.unmarshalSlice validationOf

/-- `decodeValidations` of the validator factory: pointers, which `null` leaves `nil`. -/
def decodeValidations : String → List (Option PbValidationRule) :=
  Json.unmarshalSlice (Json.intoPointer validationOf)

/-- An entry is read back. -/
theorem dependentRequiredOf_json (e : DependentRequiredEntry) :
    dependentRequiredOf (dependentRequiredJSON e) = some e := by
  have hdeps : ∀ deps : List String, (deps.map Json.str).mapM Json.intoString = some deps := by
    intro deps
    induction deps with
    | nil => rfl
    | cons d deps ih => simp [ih, Json.intoString]
  obtain ⟨trigger, _ | ⟨d, deps⟩⟩ := e
  · rfl
  · have hd := hdeps (d :: deps)
    simp only [map_cons] at hd
    simp [dependentRequiredOf, dependentRequiredJSON, Json.intoStruct, Json.textField,
      Json.intoSlice, hd]

/-- A rule is read back, with or without what `omitempty` leaves out. -/
theorem validationOf_json (e : PbValidationRule) :
    validationOf (validationJSON e) = some e := by
  obtain ⟨⟨path, rule, message, reason⟩, severity⟩ := e
  simp only [validationOf, validationJSON, Json.omitEmpty]
  split_ifs with hpath hseverity hreason <;> simp_all [Json.intoStruct, Json.textField]

end Columns

/-- **The verdict does not depend on the order of the entries and of their dependents.** -/
theorem checkDependentRequired_yamlToProto {env : Env} {m : List (String × List String)}
    {present : List String} :
    checkDependentRequired env (m.map fun p => ⟨p.1, p.2⟩) present = none ↔
      checkDependentRequired env (yamlToProtoDependentRequired m) present = none := by
  simp only [checkDependentRequired_eq_none, mem_map, mem_yamlToProtoDependentRequired,
    forall_exists_index, and_imp, forall_apply_eq_imp_iff₂, mem_insertionSort]

/-- **Rules are read back as the document has them.** Of the row that an import writes, whatever
the document: the entries of `dependentRequired` return from their column and from a document, the
rules of the document return from theirs by either decoder, in their order, and no set of present
paths is judged otherwise than by the entries as the document lists them. -/
theorem rules_read_back (aenv : AdminEnv) (doc : SchemaYAML) (schemaID : String) (version : ℤ)
    (parent : Option ℤ) :
    let row := SchemaAdmin.versionParams aenv doc schemaID version parent
    let entries := row.dependentRequired
    let stored := unmarshalDependentRequired (marshalDependentRequired entries)
    let exported := yamlToProtoDependentRequired (protoDependentRequiredToYAML entries)
    let rules := doc.validations.map fun v =>
      (⟨⟨v.path, v.rule, v.message, v.reason⟩, v.severity⟩ : PbValidationRule)
    stored = entries ∧
      unmarshalValidations (marshalValidations row.validations) = rules ∧
      decodeValidations (marshalValidations row.validations) = rules.map some ∧
      exported = entries ∧
      ∀ present : List String, ∀ es ∈ [entries, stored, exported],
        (checkDependentRequired aenv.env es present = none ↔ checkDependentRequired aenv.env
            (doc.dependentRequired.map fun p => ⟨p.1, p.2⟩) present = none) := by
  intro row entries stored exported rules
  have hrules : row.validations = rules := rfl
  have hstored : stored = entries :=
    (Json.unmarshalSlice_marshalSlice dependentRequiredOf_json entries).trans (map_id _)
  have hexported : exported = entries :=
    yamlToProto_protoToYAML (triggers_yamlToProtoDependentRequired doc)
      (dependents_yamlToProtoDependentRequired _)
  have hpointer : ∀ e, Json.intoPointer validationOf (validationJSON e) = some (some e) :=
    fun e => congrArg (Option.map some) (validationOf_json e)
  rw [hrules]
  refine ⟨hstored, ?_, Json.unmarshalSlice_marshalSlice hpointer _, hexported, ?_⟩
  · exact (Json.unmarshalSlice_marshalSlice validationOf_json _).trans (map_id _)
  · intro present es hes
    rw [hstored, hexported] at hes
    obtain rfl : es = entries := by simpa using hes
    exact checkDependentRequired_yamlToProto.symm

end Decree
