import Mathlib.Data.List.Basic

/-!
# Rules that a Constraint Expresses

The lint of validation rules (`internal/schema/cel/lint.go`) rejects a rule that a native
constraint or a `dependentRequired` entry expresses. It looks at the shape of the compiled
expression. A rule over two fields has the shape of a dependency, or none.

## Main results

* `patternSubstitutable_single`: a rule over two paths is not replaced.
-/

namespace Decree.RuleLint

open List

/-- A constant; of one that is not a string, the text that it is printed as. -/
inductive Literal where
  | string (s : String)
  | other (text : String)

/-- `ast.Expr`. A list, a map, a message and a comprehension have the parts that are visited. -/
inductive Expr where
  | ident (name : String)
  | literal (v : Literal)
  | select (operand : Expr) (fieldName : String) (testOnly : Bool)
  | call (target : Option Expr) (function : String) (args : List Expr)
  | other (parts : List Expr)

mutual

/-- `visit`, with the expressions that the callback has. -/
def visit : Expr → List Expr
  | .call target function args =>
    .call target function args :: (visitTarget target ++ visitAll args)
  | .select operand fieldName testOnly => .select operand fieldName testOnly :: visit operand
  | .other parts => .other parts :: visitAll parts
  | e => [e]

def visitTarget : Option Expr → List Expr
  | none => []
  | some e => visit e

def visitAll : List Expr → List Expr
  | [] => []
  | e :: es => visit e ++ visitAll es

end

/-- `selfChainOf`: the segments of a chain of selections and indexes from `self`. -/
def selfChainOf : Expr → Option (List String)
  | .select operand fieldName _ => (selfChainOf operand).map (· ++ [fieldName])
  | .call _ function [base, .literal (.string s)] =>
    if function = "_[_]" then (selfChainOf base).map (· ++ [s]) else none
  | .ident name => if name = "self" then some [] else none
  | _ => none

def singleSelfChain (e : Expr) : Option (List String) :=
  (selfChainOf e).filter (· ≠ [])

/-- `strings.Join` with a dot. -/
abbrev join (chain : List String) : String :=
  ".".intercalate chain

def comparisons : List String :=
  ["_<_", "_<=_", "_>_", "_>=_"]

section Suggest

-- how `%q` prints a string
variable (quote : String → String)

def constLiteral : Expr → Option String
  | .literal (.string s) => some (quote s)
  | .literal (.other text) => some text
  | _ => none

/-- A chain beside a literal, and whether the literal is on the left. -/
def equalityComponents (a b : Expr) : Option (List String × String × Bool) :=
  match singleSelfChain a, constLiteral quote b with
  | some chain, some lit => some (chain, lit, false)
  | _, _ =>
    match singleSelfChain b, constLiteral quote a with
    | some chain, some lit => some (chain, lit, true)
    | _, _ => none

def flipOp : String → String
  | "_<_" => "_>_"
  | "_<=_" => "_>=_"
  | "_>_" => "_<_"
  | "_>=_" => "_<=_"
  | fn => fn

def comparisonSuggestion (fn literal : String) (flipped : Bool) : String :=
  match if flipped then flipOp fn else fn with
  | "_>_" => "use exclusiveMinimum: " ++ literal ++ " on the field"
  | "_>=_" => "use minimum: " ++ literal ++ " on the field"
  | "_<_" => "use exclusiveMaximum: " ++ literal ++ " on the field"
  | "_<=_" => "use maximum: " ++ literal ++ " on the field"
  | _ => "use a native bound on the field"

/-- The path and the values so far go along the leaves. -/
def collectEqualityLeaves : Expr → String × List String → Option (String × List String)
  | .call _ function [a, b], found =>
    if function = "_||_" then
      (collectEqualityLeaves a found).bind fun found => collectEqualityLeaves b found
    else if function = "_==_" then
      (equalityComponents quote a b).bind fun (chain, lit, _) =>
        if found.1 ≠ "" ∧ found.1 ≠ join chain then none
        else some (join chain, found.2 ++ [lit])
    else none
  | _, _ => none

def suggestEnumChain (a b : Expr) : Option String :=
  ((collectEqualityLeaves quote a ("", [])).bind (collectEqualityLeaves quote b)).bind
    fun (path, values) =>
      if path = "" ∨ values.length < 2 then none
      else some ("use enum: [" ++ ", ".intercalate values ++ "] on field " ++ path)

/-- `has(self.<path>)` is a selection that only tests. -/
def hasSelf (e : Expr) : Option String :=
  match e with
  | .select _ _ true => (singleSelfChain e).map join
  | _ => none

def negatedHasSelf : Expr → Option String
  | .call _ "!_" [e] => hasSelf e
  | _ => none

def suggestDependentRequiredImplication (a b : Expr) : Option String :=
  (negatedHasSelf a).bind fun trigger => (hasSelf b).map fun dependent =>
    "use dependentRequired: \x7b " ++ trigger ++ ": [" ++ dependent ++ "] \x7d"

def boundComponents : Expr → Option (List String × String × Bool)
  | .call _ function [a, b] =>
    if function ∈ comparisons then equalityComponents quote a b else none
  | _ => none

def suggestBoundedRange (a b : Expr) : Option String :=
  (boundComponents quote a).bind fun (left, leftLit, _) =>
    (boundComponents quote b).bind fun (right, rightLit, _) =>
      if join left ≠ join right then none
      else some ("use minimum: " ++ leftLit ++ " and maximum: " ++ rightLit ++ " on field " ++
        join left)

def patternSubstitutable : Expr → Option String
  | .call _ function [a, b] =>
    if function ∈ comparisons then
      (equalityComponents quote a b).map fun (_, lit, flipped) =>
        comparisonSuggestion function lit flipped
    else if function = "_==_" then
      (equalityComponents quote a b).map fun (_, lit, _) => "use enum: [" ++ lit ++ "] on the field"
    else if function = "_||_" then
      (suggestEnumChain quote a b).or (suggestDependentRequiredImplication a b)
    else if function = "_&&_" then suggestBoundedRange quote a b
    else none
  | _ => none

end Suggest

/-! ### One path -/

/-- The operators that the lint looks into, but for the index. -/
def operators : List String :=
  comparisons ++ ["_==_", "_||_", "_&&_", "!_"]

/-- What the compiler makes: no operator is a member function, and no segment is empty. -/
def Expr.Compiled : Expr → Prop
  | .call target function args => (function ∈ "_[_]" :: operators → target = none) ∧
    (function = "_[_]" → .literal (.string "") ∉ args)
  | .select _ fieldName _ => fieldName ≠ ""
  | _ => True

/-- The expression is over a **single** path, which every chain in it begins. -/
def Single (path : String) (e : Expr) : Prop :=
  ∀ x ∈ visit e, ∀ chain, selfChainOf x = some chain → ∃ rest, join (chain ++ rest) = path

variable {quote : String → String} {a b e : Expr} {path function : String} {chain : List String}
  {target : Option Expr} {args : List Expr}

theorem visit_call : visit (.call none function [a, b]) =
    .call none function [a, b] :: (visit a ++ visit b) := by
  simp [visit, visitTarget, visitAll]

theorem target_eq_none (hc : ∀ x ∈ visit (.call target function args), x.Compiled)
    (h : function ∈ "_[_]" :: operators) : target = none := by
  have hcall : (Expr.call target function args).Compiled := hc _ (by simp [visit])
  exact hcall.1 h

theorem join_ne_empty (hne : chain ≠ []) (h : "" ∉ chain) : join chain ≠ "" := by
  intro hjoin
  have hlist := congrArg String.toList hjoin
  rw [join, String.toList_intercalate] at hlist
  match chain with
  | [] => exact hne rfl
  | [s] => simp_all
  | s :: s' :: rest => simp at hlist

/-- The chains within a chain. -/
theorem prefixes_of_chain (hc : ∀ x ∈ visit e, x.Compiled) (h : selfChainOf e = some chain) :
    (∀ x ∈ visit e, ∀ c, selfChainOf x = some c → c <+: chain) ∧ "" ∉ chain := by
  have hself := h
  fun_induction selfChainOf e generalizing chain with
  | case1 operand fieldName testOnly ih =>
    obtain ⟨segs, hsegs, rfl⟩ := Option.map_eq_some_iff.mp h
    have hname : (Expr.select operand fieldName testOnly).Compiled := hc _ (by simp [visit])
    obtain ⟨hin, hne⟩ := ih (fun x hx => hc x (by simp [visit, hx])) hsegs hsegs
    refine ⟨fun x hx c hx' => ?_, by simpa [hname.symm] using hne⟩
    rcases mem_cons.mp hx with rfl | hx
    · exact Option.some.inj (hx'.symm.trans hself) ▸ prefix_refl _
    · exact (hin x hx c hx').trans (prefix_append _ _)
  | case2 target base s ih =>
    obtain ⟨segs, hsegs, rfl⟩ := Option.map_eq_some_iff.mp h
    obtain rfl := target_eq_none hc (by decide)
    have hcall : (Expr.call none "_[_]" [base, .literal (.string s)]).Compiled :=
      hc _ (by simp [visit])
    have hname : "" ≠ s := by
      rintro rfl
      exact hcall.2 rfl (by simp)
    obtain ⟨hin, hne⟩ := ih (fun x hx => hc x (by simp [visit_call, hx])) hsegs hsegs
    refine ⟨fun x hx c hx' => ?_, by simpa [hname] using hne⟩
    rw [visit_call, mem_cons, mem_append] at hx
    rcases hx with rfl | hx | hx
    · exact Option.some.inj (hx'.symm.trans hself) ▸ prefix_refl _
    · exact (hin x hx c hx').trans (prefix_append _ _)
    · cases mem_singleton.mp hx
      cases hx'
  | case4 =>
    cases h
    simp [visit, selfChainOf]
  | _ => cases h

theorem Single.call (ha : Single path a) (hb : Single path b) (hop : function ∈ operators) :
    Single path (.call none function [a, b]) := by
  intro x hx chain hx'
  rw [visit_call, mem_cons, mem_append] at hx
  rcases hx with rfl | hx | hx
  · unfold selfChainOf at hx'
    split at hx' <;> simp_all [operators, comparisons]
  · exact ha x hx chain hx'
  · exact hb x hx chain hx'

theorem single_of_constLiteral {lit : String} (h : constLiteral quote e = some lit) :
    Single path e := by
  cases e with
  | literal v => simp [Single, visit, selfChainOf]
  | _ => cases h

/-- A comparison is about one path. -/
theorem single_of_components {p : List String × String × Bool} (hop : function ∈ operators)
    (hc : ∀ x ∈ visit (.call target function [a, b]), x.Compiled)
    (h : equalityComponents quote a b = some p) :
    Single (join p.1) (.call target function [a, b]) ∧ join p.1 ≠ "" := by
  obtain rfl := target_eq_none hc (mem_cons_of_mem _ hop)
  simp only [visit_call, mem_cons, mem_append] at hc
  have hchain : ∀ {e chain}, (∀ x ∈ visit e, x.Compiled) → singleSelfChain e = some chain →
      Single (join chain) e ∧ join chain ≠ "" := by
    intro e chain hc he
    obtain ⟨he, hne⟩ := Option.filter_eq_some_iff.mp he
    obtain ⟨hin, hsegs⟩ := prefixes_of_chain hc he
    refine ⟨fun x hx c hx' => ?_, join_ne_empty (of_decide_eq_true hne) hsegs⟩
    obtain ⟨rest, rfl⟩ := hin x hx c hx'
    exact ⟨rest, rfl⟩
  rw [equalityComponents] at h
  split at h
  · rename_i hself hlit
    cases h
    obtain ⟨hsingle, hne⟩ := hchain (fun x hx => hc x (.inr (.inl hx))) hself
    exact ⟨hsingle.call (single_of_constLiteral hlit) hop, hne⟩
  · split at h
    · rename_i hself hlit
      cases h
      obtain ⟨hsingle, hne⟩ := hchain (fun x hx => hc x (.inr (.inr hx))) hself
      exact ⟨(single_of_constLiteral hlit).call hsingle hop, hne⟩
    · cases h

/-- And so are the leaves of a disjunction. -/
theorem single_of_collect {found p : String × List String} (hc : ∀ x ∈ visit e, x.Compiled)
    (h : collectEqualityLeaves quote e found = some p) :
    Single p.1 e ∧ p.1 ≠ "" ∧ (found.1 = "" ∨ found.1 = p.1) := by
  fun_induction collectEqualityLeaves quote e found generalizing p with
  | case1 target a b found iha ihb =>
    obtain rfl := target_eq_none hc (by decide)
    obtain ⟨q, hq, hp⟩ := Option.bind_eq_some_iff.mp h
    obtain ⟨ha, hne, hfound⟩ := iha (fun x hx => hc x (by simp [visit_call, hx])) hq
    obtain ⟨hb, hne', hsame⟩ := ihb q (fun x hx => hc x (by simp [visit_call, hx])) hp
    rw [hsame.resolve_left hne] at ha hfound
    exact ⟨ha.call hb (by decide), hne', hfound⟩
  | case2 target a b found =>
    obtain ⟨q, hcomp, hp⟩ := Option.bind_eq_some_iff.mp h
    obtain ⟨hsingle, hne⟩ := single_of_components (by decide) hc hcomp
    dsimp only at hp
    split_ifs at hp with hpath
    cases hp
    exact ⟨hsingle, hne, by simpa [or_iff_not_imp_left] using hpath⟩
  | _ => cases h

/-- And so is a bound. -/
theorem single_of_bound {p : List String × String × Bool} (hc : ∀ x ∈ visit e, x.Compiled)
    (h : boundComponents quote e = some p) : Single (join p.1) e := by
  rw [boundComponents.eq_def] at h
  split at h
  · split_ifs at h with hfn
    exact (single_of_components (mem_append_left _ hfn) hc h).1
  · cases h

/-- **A rule over two paths is not replaced**, but for the one that a dependency expresses. -/
theorem patternSubstitutable_single {suggestion : String} (hc : ∀ x ∈ visit e, x.Compiled)
    (h : patternSubstitutable quote e = some suggestion) : (∃ path, Single path e) ∨
      ∃ a b, e = .call none "_||_" [.call none "!_" [a], b] ∧ (hasSelf a).isSome ∧
        (hasSelf b).isSome := by
  rw [patternSubstitutable.eq_def] at h
  split at h
  · rename_i target function a b
    have hparts : function ∈ operators → target = none ∧ (∀ x ∈ visit a, x.Compiled) ∧
        ∀ x ∈ visit b, x.Compiled := by
      intro hop
      obtain rfl := target_eq_none hc (mem_cons_of_mem _ hop)
      simp only [visit_call, mem_cons, mem_append] at hc
      exact ⟨rfl, fun x hx => hc x (.inr (.inl hx)), fun x hx => hc x (.inr (.inr hx))⟩
    split_ifs at h with hfn heq hor hand
    · obtain ⟨p, hp, -⟩ := Option.map_eq_some_iff.mp h
      exact .inl ⟨_, (single_of_components (mem_append_left _ hfn) hc hp).1⟩
    · subst heq
      obtain ⟨p, hp, -⟩ := Option.map_eq_some_iff.mp h
      exact .inl ⟨_, (single_of_components (by decide) hc hp).1⟩
    · subst hor
      obtain ⟨rfl, hca, hcb⟩ := hparts (by decide)
      rcases Option.or_eq_some_iff.mp h with henum | ⟨-, himp⟩
      · obtain ⟨p, hp, -⟩ := Option.bind_eq_some_iff.mp henum
        obtain ⟨q, hq, hp⟩ := Option.bind_eq_some_iff.mp hp
        obtain ⟨ha, hne, -⟩ := single_of_collect hca hq
        obtain ⟨hb, -, hsame⟩ := single_of_collect hcb hp
        rw [hsame.resolve_left hne] at ha
        exact .inl ⟨_, ha.call hb (by decide)⟩
      · obtain ⟨trigger, htrigger, hb⟩ := Option.bind_eq_some_iff.mp himp
        obtain ⟨dependent, hb, -⟩ := Option.map_eq_some_iff.mp hb
        rw [negatedHasSelf.eq_def] at htrigger
        split at htrigger
        · obtain rfl := target_eq_none hca (by decide)
          exact .inr ⟨_, b, rfl, Option.isSome_of_eq_some htrigger, Option.isSome_of_eq_some hb⟩
        · cases htrigger
    · subst hand
      obtain ⟨rfl, hca, hcb⟩ := hparts (by decide)
      obtain ⟨p, hp, hbound⟩ := Option.bind_eq_some_iff.mp h
      obtain ⟨q, hq, hsame⟩ := Option.bind_eq_some_iff.mp hbound
      dsimp only at hsame
      split_ifs at hsame with hne
      have ha := single_of_bound hca hp
      rw [not_not.mp hne] at ha
      exact .inl ⟨_, ha.call (single_of_bound hcb hq) (by decide)⟩
  · cases h

theorem patternSubstitutable_single_minimum : ∃ path, Single path
    (.call none "_>_" [.select (.ident "self") "a" false, .literal (.other "3")]) := by
  refine (patternSubstitutable_single (e := .call none "_>_" _) ?_
    (rfl : patternSubstitutable id _ = _)).resolve_right ?_
  · simp [visit, visitTarget, visitAll, Expr.Compiled]
  · rintro ⟨a, b, h, -⟩
    simp at h

end Decree.RuleLint
