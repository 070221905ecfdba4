import Decree.Domain

/-!
# Cross-Field Rules

The rules of a schema that look at the whole config: `dependentRequired`, and the CEL
validations with the activation they are evaluated in (`internal/schema/cel`,
`internal/schema/dependent_required.go`). What a compiled CEL program computes is a
parameter (`CelProgram`); how the rules are run, what counts as a failure and what the
cost caps do is modelled.

## Main results

* `bool_true_of_celEvalLoop`: every rule was found true.
-/

open Go List

namespace Decree

/-- `CheckDependentRequired`: the first violation, against the set of paths with a value. -/
def checkDependentRequired (env : Env) (rules : List DependentRequiredEntry)
    (present : List String) : Option String :=
  rules.findSome? fun rule =>
    if rule.triggerField ∈ present then
      (rule.dependentFields.find? fun dep => dep ∉ present).map fun dep =>
        "dependentRequired: " ++ env.quote rule.triggerField ++
          " has a value but required dependent " ++ env.quote dep ++ " is null"
    else none

/-- There is no violation exactly when every trigger that is present has its dependents. -/
theorem checkDependentRequired_eq_none {env : Env} {rules : List DependentRequiredEntry}
    {present : List String} :
    checkDependentRequired env rules present = none ↔
      ∀ rule ∈ rules, rule.triggerField ∈ present → ∀ d ∈ rule.dependentFields, d ∈ present := by
  rw [checkDependentRequired, findSome?_eq_none_iff]
  refine forall₂_congr fun rule _ => ?_
  by_cases htrigger : rule.triggerField ∈ present
  · simp [htrigger]
  · simp [htrigger]

def celInsert (m : List (String × CelValue)) (k : String) (v : CelValue) :
    List (String × CelValue) :=
  (k, v) :: m.filter fun p => p.1 ≠ k

/-- `setNested`: store a leaf under a dotted path, creating the maps on the way. -/
def setNested : List (String × CelValue) → List String → CelValue → List (String × CelValue)
  | m, [], _ => m
  | m, [seg], leaf => celInsert m seg leaf
  | m, seg :: rest, leaf =>
    let next := match m.lookup seg with
      | some (.map kvs) => kvs
      | _ => []
    celInsert m seg (.map (setNested next rest leaf))

def pathSegments (path : String) : List String :=
  (path.toList.splitOn '.').map String.ofList

/-- `stringToCelNative`: a text that does not parse stays a string. -/
def stringToCelNative (env : Env) (s : Option String) (ft : Option FieldType) : CelValue :=
  match s with
  | none => .null
  | some s =>
    match ft with
    | some .integer => if (parseInt s).2 = none then .int (parseInt s).1 else .str s
    | some .number => if (parseFloat s).2 = none then .double (parseFloat s).1 else .str s
    | some .bool => if (parseBool s).2 = none then .bool (parseBool s).1 else .str s
    | some .time => match parseTime s with
        | some t => .timestamp t
        | none => .str s
    | some .duration => match parseDuration s with
        | some d => .duration d
        | none => .str s
    | some .json => (env.jsonNative s).getD (.str s)
    | some .string | some .url | none => .str s

/-- `BuildActivation`: every declared path starts as null and the rows overwrite them. -/
def buildActivation (env : Env) (rows : List ConfigValue) (types : List (String × FieldType))
    (tenant : Tenant) : CelActivation where
  self :=
    rows.foldl
      (fun m row => setNested m (pathSegments row.fieldPath)
        (stringToCelNative env row.value (types.lookup row.fieldPath)))
      (types.foldl (fun m p => setNested m (pathSegments p.1) .null) [])
  tenantID := tenant.id
  tenantName := tenant.name

structure FailedRule where
  index : ℕ
  message : String
  reason : String
deriving DecidableEq

def isCostLimit (message : String) : Bool :=
  decide ("operation cancelled".toList <:+: message.toList) ||
    decide ("cost limit".toList <:+: message.toList)

/-- The loop of `Eval` in its strict mode, from a rule index and the cost so far. An error
ends the evaluation; a rule that fails, does not evaluate, or is no boolean is collected. -/
def celEvalLoop (cap : ℕ) (act : CelActivation) :
    ℕ → ℕ → List (CelProgram × ValidationRule) → Except String (List FailedRule)
  | _, _, [] => .ok []
  | i, cost, (prog, rule) :: rest =>
    let collect (cost : ℕ) (failed : List FailedRule) : Except String (List FailedRule) :=
      (celEvalLoop cap act (i + 1) cost rest).map (failed ++ ·)
    let within (c : Option ℕ) (failed : List FailedRule) :
        Except String (List FailedRule) :=
      let total := cost + c.getD 0
      if c.isSome ∧ cap < total then
        .error ("cel: aggregate cost limit exceeded (cost " ++ formatInt total ++ " > cap " ++
          formatInt cap ++ ")")
      else collect total failed
    match prog act with
    | .error e =>
      if isCostLimit e then
        .error ("cel: cost limit exceeded for validations[" ++ formatInt i ++ "]: " ++ e)
      else collect cost [⟨i, "rule evaluation failed: " ++ e, "cel_runtime_error"⟩]
    | .other typeName c =>
      within c [⟨i, "rule did not evaluate to bool (got " ++ typeName ++ ")",
        "cel_non_bool_result"⟩]
    | .bool b c => within c (if b then [] else [⟨i, rule.message, rule.reason⟩])

def celEval (env : Env) (act : CelActivation) (rules : List (CelProgram × ValidationRule)) :
    Except String (List FailedRule) :=
  celEvalLoop env.celAggregateCostCap act 0 0 rules

/-- **An evaluation without failures found every rule true.** -/
theorem bool_true_of_celEvalLoop {cap i cost : ℕ} {act : CelActivation}
    {rules : List (CelProgram × ValidationRule)} (h : celEvalLoop cap act i cost rules = .ok []) :
    ∀ p ∈ rules, ∃ c, p.1 act = .bool true c := by
  induction rules generalizing i cost with
  | nil => simp
  | cons p rules ih =>
    obtain ⟨prog, rule⟩ := p
    rw [celEvalLoop] at h
    cases hres : prog act with
    | error e =>
      simp only [hres] at h
      split at h
      · cases h
      · cases hrest : celEvalLoop cap act (i + 1) cost rules <;> rw [hrest] at h <;> cases h
    | other typeName c =>
      simp only [hres] at h
      split at h
      · cases h
      · cases hrest : celEvalLoop cap act (i + 1) (cost + c.getD 0) rules <;>
          rw [hrest] at h <;> cases h
    | bool b c =>
      simp only [hres] at h
      split at h
      · cases h
      · cases hrest : celEvalLoop cap act (i + 1) (cost + c.getD 0) rules with
        | error e =>
          rw [hrest] at h
          cases h
        | ok failed =>
          rw [hrest] at h
          obtain ⟨hb, rfl⟩ := append_eq_nil_iff.mp (Except.ok.inj h)
          have hb' : b = true := by
            by_contra hne
            simp [hne] at hb
          intro q hq
          rcases mem_cons.mp hq with rfl | hq
          · exact ⟨c, hres.trans (by rw [hb'])⟩
          · exact ih hrest q hq

/-- `aggregatedFailureError`. -/
def aggregatedFailure (failed : List FailedRule) : String :=
  "\n".intercalate (failed.map fun f => "validations[" ++ formatInt f.index ++ "]: " ++ f.message)

/-- The program loop of `GetCelArtifacts`. -/
def compileRules (env : Env) (fields : List SchemaField) :
    List ValidationRule → Except String (List (CelProgram × ValidationRule))
  | [] => .ok []
  | rule :: rest =>
    match env.celCompile fields rule with
    | .error e => .error e
    | .ok prog => (compileRules env fields rest).map ((prog, rule) :: ·)

theorem mem_of_compileRules {env : Env} {fields : List SchemaField} {rules : List ValidationRule}
    {compiled : List (CelProgram × ValidationRule)}
    (h : compileRules env fields rules = .ok compiled) {rule : ValidationRule}
    (hrule : rule ∈ rules) :
    ∃ prog, env.celCompile fields rule = .ok prog ∧ (prog, rule) ∈ compiled := by
  induction rules generalizing compiled with
  | nil => exact absurd hrule not_mem_nil
  | cons r rules ih =>
    rw [compileRules] at h
    split at h
    · cases h
    · rename_i prog hprog
      cases hrest : compileRules env fields rules with
      | error e =>
        rw [hrest] at h
        cases h
      | ok rest =>
        rw [hrest] at h
        cases h
        rcases mem_cons.mp hrule with rfl | hrule
        · exact ⟨prog, hprog, mem_cons_self⟩
        · obtain ⟨prog', hprog', hmem⟩ := ih hrest hrule
          exact ⟨prog', hprog', mem_cons_of_mem _ hmem⟩

end Decree
