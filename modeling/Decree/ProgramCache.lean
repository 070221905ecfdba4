import Decree.StaleLookups

/-!
# The Shared Program Cache

`GetCelArtifacts` takes the rules of a tenant from one lookup and the key under which it stores
their compiled programs from a later read of the tenant's row. Where the tenant is bound to
another schema version in between, the rules of one version are compiled under the key of the
other, and there they stay for all tenants on it. The programs are cached by tenant as well, by a
store that comes after both: where the tenant is bound to another version before it, and that
update drops what is cached, the store puts the programs of the version back that the tenant has
left.

## The step condition

`ProgramsCurrent` asks for two things. The rules that a call holds are those of the tenant's schema
when it reads the row (`RulesCurrent`), and the tenant is bound as the call has read it when it
stores the programs of the tenant (`BoundAsRead`).

## Main results

* `Request.binds`, `getCelArtifacts_trace`: only a `GetCelArtifacts` compiles programs or stores
  those of a tenant, and what it has read before that.
* `program_of_version`: every program of the shared cache is that of the rule it is keyed by.
* `programs_of_version`: so is what `GetCelArtifacts` returns for a tenant, of a version that the
  tenant was bound to at a moment not before any update that had returned when the call began.
-/

open Interleave List

namespace Decree

variable {env : Env} {init : ServerInit} {allowed : ServerSystem → ℕ → ServerChoice → Prop}
  {d d₁ d₂ : ServerSystem} {t : ℕ} {T : String} {key : ProgramKey} {prog : CelProgram}
  {evs : ServerHist} {e : ServerEvent} {rules : List ValidationRule} {pre post : ServerHist}
  {sv : SchemaVersion} {fields : List SchemaField} {programs : List CelProgram} {α : Type}
  {ch : ServerChoice}

/-! ### Traces -/

/-- The operation stores a program, in the shared cache or in that of a tenant. -/
def Binds : Op ⊕ ServerOp → Prop
  | .inr (.loadOrStoreProgram _ _) => True
  | .inr (.store .celPrograms _ _) => True
  | _ => False

/-- The rules of a tenant that an event brings: a hit of the cache, or what is stored there. -/
def rulesRead (T : String) : ServerEvent → Option (List ValidationRule)
  | ⟨.inr (.load .validations T'), r, _⟩ =>
    match (r : Option (List ValidationRule)) with
    | some rules => if T' = T then some rules else none
    | none => none
  | ⟨.inr (.store .validations T' rules), _, _⟩ => if T' = T then some rules else none
  | _ => none

/-- The rules of a tenant that a call holds. -/
def heldRules (T : String) (h : ServerHist) : Option (List ValidationRule) :=
  (h.filterMap (rulesRead T)).getLast?

/-- What a call reads now is what it holds. -/
theorem heldRules_concat {h : ServerHist} (he : rulesRead T e = some rules) :
    heldRules T (h ++ [e]) = some rules := by
  rw [heldRules, filterMap_append, filterMap_cons_some he, filterMap_nil, getLast?_concat]

/-- An event that reads no rules leaves those that a call holds. -/
theorem heldRules_skip {h : ServerHist} (he : rulesRead T e = none) :
    heldRules T (h ++ [e]) = heldRules T h := by
  rw [heldRules, filterMap_append, filterMap_cons_none he, filterMap_nil, append_nil, heldRules]

/-- After a `GetValidations` a call holds the rules that it has returned. -/
theorem heldRules_of_getValidations (env : Env) (h : Runs (getValidations T).run evs (.ok rules)) :
    heldRules T evs = some rules := by
  rcases throughCache_trace (builds_validations env T) (q := .ret (.ok rules)) trivial h with
    ⟨value, σ, rfl, hq⟩ | ⟨value, σ, tn, reads, post, rfl, -, ⟨-, _, hq⟩ | ⟨⟨σ', rfl⟩, hq⟩⟩
  · cases hq
    exact heldRules_concat (h := []) (if_pos rfl)
  · cases hq
  · cases hq
    rw [← cons_append]
    exact heldRules_concat (if_pos rfl)

/-- The event **gave** the program under a key: the cache had it, or it was stored. -/
def Gave (key : ProgramKey) (prog : CelProgram) (e : ServerEvent) : Prop :=
  (∃ σ, e = ⟨.inr (.loadProgram key), some prog, σ⟩) ∨
    ∃ prog' σ, e = ⟨.inr (.loadOrStoreProgram key prog'), prog, σ⟩

/-- The programs were given one by one, under the key of the version and the index of the rule. -/
def Gathered (sv : SchemaVersion) (rules : List ValidationRule) (programs : List CelProgram)
    (post : ServerHist) : Prop :=
  Forall₂ (fun p prog => ∃ e ∈ post, Gave ⟨sv.schemaID, sv.version, p.2⟩ prog e) rules.zipIdx
    programs

/-- **A call has bound rules to a version**: it held the rules, and has read the row of the tenant,
the version and its fields after that, and nothing else of the store since then. -/
inductive Bound (T : String) (rules : List ValidationRule) (sv : SchemaVersion)
    (fields : List SchemaField) (post : ServerHist) : ServerHist → Prop
  | mk {pre : ServerHist} {tn : Tenant} {σ₁ σ₂ σ₃ : Server} (held : heldRules T pre = some rules)
      (quiet : ∀ e ∈ post, ∃ o, e.op = .inr o) :
      Bound T rules sv fields post (pre ++ (boundReads T tn sv σ₁ σ₂ ++
        serverRead (.schemaFields sv.id) (.ok fields) σ₃ :: post))

theorem Bound.trace (h : Bound T rules sv fields post evs) :
    ∃ pre tn σ₁ σ₂ σ₃, heldRules T pre = some rules ∧ (∀ e ∈ post, ∃ o, e.op = .inr o) ∧
      evs = pre ++ (boundReads T tn sv σ₁ σ₂ ++
        serverRead (.schemaFields sv.id) (.ok fields) σ₃ :: post) := by
  cases h with
  | mk hheld hquiet => exact ⟨_, _, _, _, _, hheld, hquiet, rfl⟩

/-- **What a call does next** that has bound rules to a version: it stores a program that it has
compiled, or the programs that it was given, or it returns these. -/
inductive Binding (env : Env) (T : String) (rules : List ValidationRule) (sv : SchemaVersion)
    (fields : List SchemaField) (g : List SchemaField × List CelProgram → α) (post : ServerHist) :
    Prog (Both Op.Resp ServerOp.Resp) (Except FactoryErr α) → Prop
  | compile {i : ℕ} {rule : ValidationRule} {prog : CelProgram}
      {k : CelProgram → Prog (Both Op.Resp ServerOp.Resp) (Except FactoryErr α)}
      (hrule : rules[i]? = some rule) (hprog : env.celCompile fields rule = .ok prog) :
      Binding env T rules sv fields g post
        (.op (.inr (.loadOrStoreProgram ⟨sv.schemaID, sv.version, i⟩ prog)) k)
  | store {programs : List CelProgram}
      {k : Unit → Prog (Both Op.Resp ServerOp.Resp) (Except FactoryErr α)}
      (hgathered : Gathered sv rules programs post) :
      Binding env T rules sv fields g post (.op (.inr (.store .celPrograms T programs)) k)
  | done {programs : List CelProgram} (hgathered : Gathered sv rules programs post) :
      Binding env T rules sv fields g post (.ret (.ok (g (fields, programs))))

/-- A program that is returned was given. -/
theorem programFor_gave {rule : ValidationRule}
    (h : Runs (programFor env fields rule key).run evs (.ok prog)) :
    ∃ e ∈ evs, Gave key prog e := by
  obtain ⟨e1, e2, cached, rfl, h1, h2⟩ := runs_bind_ok h
  obtain ⟨r, σ, rfl, hr⟩ := runs_askServer.mp h1
  obtain rfl := Except.ok.inj hr
  cases r with
  | some actual =>
    obtain ⟨-, hprog⟩ := runs_ret.mp h2
    cases hprog
    exact ⟨_, mem_append_left _ mem_cons_self, .inl ⟨σ, rfl⟩⟩
  | none =>
    obtain ⟨e3, e4, prog', rfl, -, h4⟩ := runs_bind_ok h2
    obtain ⟨r, σ', rfl, hr⟩ := runs_askServer.mp h4
    obtain rfl := Except.ok.inj hr
    exact ⟨_, mem_append_right _ (mem_append_right _ mem_cons_self), .inr ⟨prog', σ', rfl⟩⟩

/-- A call that is about to store a program has compiled it. -/
theorem programFor_compiles {rule : ValidationRule} {key' : ProgramKey}
    {q : CelProgram → Prog (Both Op.Resp ServerOp.Resp) (Except FactoryErr CelProgram)}
    (h : After (programFor env fields rule key').run evs
      (.op (.inr (.loadOrStoreProgram key prog)) q)) :
    key = key' ∧ env.celCompile fields rule = .ok prog := by
  rw [programFor] at h
  rcases after_bind_op h with ⟨_, hload⟩ | ⟨e1, e2, cached, rfl, -, h2⟩
  · rcases after_op.mp hload with ⟨-, hq⟩ | ⟨r, σ, evs', -, hret⟩
    · cases (Prog.op.inj hq).1
    · cases (after_ret.mp hret).2
  · cases cached with
    | some actual => cases (after_ret.mp h2).2
    | none =>
      rcases after_bind_op h2 with ⟨_, hpure⟩ | ⟨e3, e4, prog', rfl, hcomp, h3⟩
      · cases (after_ret.mp hpure).2
      · obtain ⟨-, hcomp⟩ := runs_embed_ofExcept hcomp
        rcases after_op.mp h3 with ⟨-, hq⟩ | ⟨r, σ, evs', -, hret⟩
        · cases (Prog.op.inj hq).1
          exact ⟨rfl, mapError_eq_ok.mp hcomp⟩
        · cases (after_ret.mp hret).2

theorem gathered_of_runs (hsub : evs ⊆ post)
    (h : Runs (collect (fun p : ValidationRule × ℕ =>
      programFor env fields p.1 ⟨sv.schemaID, sv.version, p.2⟩) rules.zipIdx).run evs
      (.ok programs)) : Gathered sv rules programs post := by
  refine (forall₂_of_runs_collect h).imp fun p prog hp => ?_
  obtain ⟨es, hes, hrun⟩ := hp
  obtain ⟨e, he, hgave⟩ := programFor_gave hrun
  exact ⟨e, hsub (hes.subset he), hgave⟩

/-- **The trace of the binding** of rules that a call holds. -/
theorem bindPrograms_trace (hheld : heldRules T pre = some rules)
    {q : Prog (Both Op.Resp ServerOp.Resp) (Except FactoryErr _)} (hq : Late Binds q)
    (h : After (bindPrograms env T rules).run evs q) : ∃ sv fields post,
      Bound T rules sv fields post (pre ++ evs) ∧ Binding env T rules sv fields id post q := by
  have hbad : ∀ inTx q, ¬ Binds (.inl (.read inTx q)) := fun _ _ h => h
  rw [bindPrograms] at h
  obtain ⟨e1, e2, sv, rfl, h1, h2⟩ := (avoids_boundVersion hbad T).after_bind_late hq h
  obtain ⟨tn, σ₁, σ₂, rfl⟩ := runs_boundVersion h1
  obtain ⟨e3, post, fields, rfl, h3, h4⟩ := (avoids_storeRead hbad _).after_bind_late hq h2
  obtain ⟨σ₃, rfl⟩ := runs_storeRead h3
  -- what is left are the programs, one after the other, and the stores
  have hrest : Avoids (fun o => ∃ o', o = .inl o') (do
      let programs ← collect (fun p : ValidationRule × ℕ =>
        programFor env fields p.1 ⟨sv.schemaID, sv.version, p.2⟩) rules.zipIdx
      askServer (.store .celEnv T fields) .ok
      askServer (.store .celPrograms T programs) .ok
      pure (fields, programs) : ServerProc FactoryErr _).run :=
    .bind_run (.collect (fun _ => avoids_programFor (by simp) (by simp) ..) _) fun _ =>
      .bind_run (avoids_askServer (by simp)) fun _ =>
        .bind_run (avoids_askServer (by simp)) fun _ => trivial
  have hquiet : ∀ e ∈ post, ∃ o, e.op = .inr o := by
    intro e he
    cases ho : e.op with
    | inl o => exact absurd ⟨o, ho⟩ ((hrest.after h4).1 e he)
    | inr o => exact ⟨o, rfl⟩
  refine ⟨sv, fields, post, .mk hheld hquiet, ?_⟩
  cases q with
  | ret r =>
    obtain _ | ⟨fields', programs⟩ := r
    · cases hq
    obtain ⟨e5, e6, programs', rfl, h5, h6⟩ := runs_bind_ok h4
    obtain ⟨e7, e8, _, rfl, -, h8⟩ := runs_bind_ok h6
    obtain ⟨e9, e10, _, rfl, -, h10⟩ := runs_bind_ok h8
    obtain ⟨-, hret⟩ := runs_ret.mp h10
    cases hret
    exact .done (gathered_of_runs (subset_append_left _ _) h5)
  | op o k =>
    rcases after_bind_op h4 with ⟨_, hcoll⟩ | ⟨e5, e6, programs, rfl, h5, h6⟩
    · obtain ⟨⟨rule, i⟩, hmem, e5, e6, k', rfl, hprog⟩ := after_collect hcoll
      have hquiet : Avoids Stores (programFor env fields rule ⟨sv.schemaID, sv.version, i⟩).run :=
        avoids_programFor (fun _ _ h => h) (fun _ h => h) ..
      obtain o | o := o
      · cases hq
      cases o with
      | loadOrStoreProgram key prog =>
        obtain ⟨rfl, hcomp⟩ := programFor_compiles hprog
        exact .compile (mem_zipIdx_iff_getElem?.mp hmem) hcomp
      | store => exact absurd trivial (hquiet.after hprog).2.1
      | _ => cases hq
    · have hcelEnv : Avoids Binds (askServer (.store .celEnv T fields) .ok :
          ServerProc FactoryErr Unit).run := avoids_askServer fun h => h
      obtain ⟨e7, e8, _, rfl, -, h8⟩ := hcelEnv.after_bind_late hq h6
      rcases after_op.mp h8 with ⟨-, hop⟩ | ⟨r, σ, evs', -, hret⟩
      · cases (Prog.op.inj hop).1
        exact .store (gathered_of_runs (subset_append_left _ _) h5)
      · cases (after_ret.mp hret).2

/-- **The trace of `artifactsOf`** for rules that a call holds: there are none, the programs of the
tenant were cached, or they are bound. -/
theorem artifactsOf_trace (hheld : heldRules T pre = some rules)
    {q : Prog (Both Op.Resp ServerOp.Resp) (Except FactoryErr _)} (hq : Late Binds q)
    (h : After (artifactsOf env T rules).run evs q) : q = .ret (.ok none) ∨
      (∃ fields programs h1 σ, evs = h1 ++ [⟨.inr (.load .celPrograms T), some programs, σ⟩] ∧
        q = .ret (.ok (some (fields, programs)))) ∨
      ∃ sv fields post, Bound T rules sv fields post (pre ++ evs) ∧
        Binding env T rules sv fields some post q := by
  -- the programs are bound after lookups that tell nothing about the rules
  have hbind : ∀ (pre evs : ServerHist), heldRules T pre = some rules →
      After (do
        let artifacts ← bindPrograms env T rules
        pure (some artifacts) : ServerProc FactoryErr _).run evs q →
      ∃ sv fields post, Bound T rules sv fields post (pre ++ evs) ∧
        Binding env T rules sv fields some post q := by
    intro pre evs hheld h
    cases q with
    | ret r =>
      obtain _ | artifacts := r
      · cases hq
      obtain ⟨e1, e2, artifacts', rfl, h1, h2⟩ := runs_bind_ok h
      obtain ⟨rfl, hret⟩ := runs_ret.mp h2
      cases hret
      rw [append_nil]
      obtain ⟨sv, fields, post, hbound, hbinding⟩ := bindPrograms_trace hheld (by trivial) h1
      cases hbinding with
      | done hgathered => exact ⟨sv, fields, post, hbound, .done hgathered⟩
    | op o k =>
      rcases after_bind_op h with ⟨_, hprog⟩ | ⟨e1, e2, artifacts, rfl, -, hret⟩
      · obtain ⟨sv, fields, post, hbound, hbinding⟩ := bindPrograms_trace hheld hq hprog
        cases hbinding with
        | compile hrule hcomp => exact ⟨sv, fields, post, hbound, .compile hrule hcomp⟩
        | store hgathered => exact ⟨sv, fields, post, hbound, .store hgathered⟩
      · cases (after_ret.mp hret).2
  rw [artifactsOf] at h
  split at h
  · exact .inl (after_ret.mp h).2
  have hload : ∀ k, Avoids Binds (askServer (.load k T) .ok : ServerProc FactoryErr _).run :=
    fun k => avoids_askServer fun h => h
  obtain ⟨e1, e2, celEnv, rfl, h1, h2⟩ := (hload .celEnv).after_bind_late hq h
  obtain ⟨r, σ, rfl, -⟩ := runs_askServer.mp h1
  have hheld₁ := (heldRules_skip (h := pre) (e := ⟨.inr (.load .celEnv T), r, σ⟩) rfl).trans hheld
  cases celEnv with
  | none =>
    rw [← append_assoc]
    exact .inr (.inr (hbind _ _ hheld₁ h2))
  | some fields =>
    obtain ⟨e3, e4, cached, rfl, h3, h4⟩ := (hload .celPrograms).after_bind_late hq h2
    obtain ⟨r', σ', rfl, hr'⟩ := runs_askServer.mp h3
    obtain rfl := Except.ok.inj hr'
    cases r' with
    | none =>
      have hheld₂ := (heldRules_skip (e := ⟨.inr (.load .celPrograms T), none, σ'⟩)
        rfl).trans hheld₁
      exact .inr (.inr (by simpa using hbind _ _ hheld₂ h4))
    | some programs =>
      obtain ⟨rfl, rfl⟩ := after_ret.mp h4
      exact .inr (.inl ⟨fields, programs, [_], σ', rfl, rfl⟩)

/-- **The trace of `GetCelArtifacts`** that has returned or is about to store programs. -/
theorem getCelArtifacts_trace {q : Prog (Both Op.Resp ServerOp.Resp) (Except FactoryErr _)}
    (hq : Late Binds q) (h : After (getCelArtifacts env T).run evs q) : q = .ret (.ok none) ∨
      (∃ fields programs h1 σ, evs = h1 ++ [⟨.inr (.load .celPrograms T), some programs, σ⟩] ∧
        q = .ret (.ok (some (fields, programs)))) ∨
      ∃ rules sv fields post, Bound T rules sv fields post evs ∧
        Binding env T rules sv fields some post q := by
  have hquiet : Avoids Binds (getValidations T).run :=
    avoids_throughCache (builds_validations env T) (fun _ _ h => h) (fun h => h) fun _ h => h
  obtain ⟨e1, e2, rules, rfl, h1, h2⟩ := hquiet.after_bind_late hq h
  rcases artifactsOf_trace (heldRules_of_getValidations env h1) hq h2 with
    hnone | ⟨fields, programs, h3, σ, rfl, hret⟩ | ⟨sv, fields, post, hbound, hbinding⟩
  · exact .inl hnone
  · exact .inr (.inl ⟨fields, programs, e1 ++ h3, σ, by rw [append_assoc], hret⟩)
  · exact .inr (.inr ⟨rules, sv, fields, post, hbound, hbinding⟩)

/-- **Only a `GetCelArtifacts` stores programs**, which it has bound to a version. -/
theorem Request.binds {req : Request} {o : Op ⊕ ServerOp} (ho : Binds o)
    {q : Both Op.Resp ServerOp.Resp o → Prog (Both Op.Resp ServerOp.Resp) Answer}
    (h : After (req.prog env) evs (.op o q)) : ∃ T rules sv fields post k,
      Bound T rules sv fields post evs ∧ Binding env T rules sv fields some post (.op o k) := by
  have hleft : ∀ o, ¬ Binds (.inl o) := fun _ h => h
  have hbad : ∀ inTx q, ¬ Binds (.inl (.read inTx q)) := fun _ _ => hleft _
  rcases hl : req.looksUp with _ | ⟨k, T⟩
  · cases req with
    | getCelArtifacts T =>
      obtain ⟨k, h'⟩ := after_map_op h
      rcases getCelArtifacts_trace (q := .op o k) ho h' with
        hret | ⟨_, _, _, _, -, hret⟩ | ⟨rules, sv, fields, post, hbound, hbinding⟩
      · cases hret
      · cases hret
      · exact ⟨T, rules, sv, fields, post, k, hbound, hbinding⟩
    | call c =>
      obtain ⟨_, h'⟩ := after_map_op h
      exact absurd ho ((avoids_left hleft _).after h').2.1
    | updateTenant caller req =>
      obtain ⟨_, h'⟩ := after_map_op h
      exact absurd ho ((avoids_updateTenant hbad (fun _ _ _ h => h) (fun _ _ h => h) caller
        req).after h').2.1
    | getValidations | getValidators | getDependentRequired => cases hl
  · obtain ⟨build, hb, hprog⟩ := Request.prog_of_looksUp env hl
    rw [hprog] at h
    obtain ⟨_, h'⟩ := after_map_op h
    have hstore : ∀ value, ¬ Binds (.inr (.store k T value)) := by
      have hk := Request.served_of_looksUp hl
      cases k with
      | celPrograms => cases hk
      | validators | rules | validations | celEnv => exact fun _ h => h
    exact absurd ho ((avoids_throughCache hb hbad (fun h => h) hstore).after h').2.1

/-! ### The programs along a run -/

/-- The tenant whose row a call is about to read. -/
def nextRowRead (d : ServerSystem) (t : ℕ) : Option String :=
  match (d.pool t).prog with
  | .op (.inl (.read _ (.tenantByID T))) _ => some T
  | _ => none

/-- The tenant whose programs a call is about to store. -/
def nextPrograms (d : ServerSystem) (t : ℕ) : Option String :=
  match (d.pool t).prog with
  | .op (.inr (.store .celPrograms T _)) _ => some T
  | _ => none

/-- **The rules that a call holds are current** when it reads the row of their tenant: they are
those of the schema version that the row names. -/
def RulesCurrent (d : ServerSystem) (t : ℕ) : Prop :=
  ∀ T ∈ nextRowRead d t, ∀ rules ∈ heldRules T (d.pool t).hist,
    ∀ sv ∈ d.shared.store.db.boundSchema T, sv.validations = rules

/-- **The tenant is bound as the call has read it** when the call stores its programs. -/
def BoundAsRead (d : ServerSystem) (t : ℕ) : Prop :=
  ∀ T ∈ nextPrograms d t, (lastRow T (d.pool t).hist).map Tenant.binding =
    (d.shared.store.db.tenantByID T).map Tenant.binding

/-- **The step condition**. -/
def ProgramsCurrent (d : ServerSystem) (t : ℕ) (_ : ServerChoice) : Prop :=
  RulesCurrent d t ∧ BoundAsRead d t

instance : Decidable (ProgramsCurrent d t ch) :=
  inferInstanceAs (Decidable ((∀ _ ∈ _, _) ∧ ∀ _ ∈ _, _))

/-- **What a step does to the programs**: nothing, or it stores one. -/
theorem execServer_programs {o : Op ⊕ ServerOp} {r : Both Op.Resp ServerOp.Resp o} {σ σ' : Server}
    (h : execServer ch t o σ = some (r, σ')) (hprog : σ'.programs key = some prog) :
    σ.programs key = some prog ∨ o = .inr (.loadOrStoreProgram key prog) := by
  obtain o | o := o
  · exact .inl ((execServer_inl h).2.2 ▸ hprog)
  · cases o with
    | updateTenant id stmts audit => exact .inl ((execServer_updateTenant h).2.2 ▸ hprog)
    | load k T =>
      rw [execServer, execServerOp] at h
      split at h <;> obtain ⟨-, rfl⟩ := answer_inj h <;> exact .inl hprog
    | store | delete | loadProgram =>
      cases h
      exact .inl hprog
    | loadOrStoreProgram key' prog' =>
      rw [execServer, execServerOp] at h
      split at h <;> cases h
      · exact .inl hprog
      · by_cases hkey : key = key'
        · subst hkey
          simp only [Function.update_self, Option.some.injEq] at hprog
          exact .inr (by rw [hprog])
        · simp only [Function.update_of_ne hkey] at hprog
          exact .inl hprog

/-- A program that was given is in the cache after that. -/
theorem Gave.cached {σ' : Server} (h : Gave key prog e)
    (he : execServer ch t e.op e.pre = some (e.resp, σ')) : σ'.programs key = some prog := by
  rcases h with ⟨σ, rfl⟩ | ⟨prog', σ, rfl⟩
  · obtain ⟨hr, rfl⟩ := answer_inj he
    exact hr
  · rw [execServer, execServerOp] at he
    split at he
    · rename_i actual hactual
      obtain ⟨rfl, rfl⟩ := answer_inj he
      exact hactual
    · obtain ⟨rfl, rfl⟩ := answer_inj he
      exact Function.update_self ..

theorem Tables.schemaVersion_self {db : Tables} {schemaID : String} {version : ℤ}
    (h : db.schemaVersion schemaID version = some sv) :
    db.schemaVersion sv.schemaID sv.version = some sv := by
  have hfound := find?_some h
  simp only [Bool.and_eq_true, decide_eq_true_eq] at hfound
  rw [hfound.1, hfound.2, h]

/-- **The rules are bound to their own version**: there was a moment at which the tenant was bound
to it, and the call has read its row then. -/
theorem Bound.version {d₀ : ServerSystem}
    (hr₀ : Reach execServer ProgramsCurrent (init.system env) d₀)
    (hr : Reach execServer ProgramsCurrent d₀ d) (hstart : (d₀.pool t).hist = [])
    (h : Bound T rules sv fields post (d.pool t).hist) :
    (d.shared.store.db.schemaVersion sv.schemaID sv.version = some sv ∧ fields = sv.fields ∧
        sv.validations = rules) ∧
      ∃ d', Reach execServer ProgramsCurrent d₀ d' ∧ Reach execServer ProgramsCurrent d' d ∧
        d'.shared.store.db.boundSchema T = some sv := by
  obtain ⟨pre, tn, σ₁, σ₂, σ₃, hheld, -, hh⟩ := h.trace
  have hr' := hr₀.trans hr
  have hrow : serverRead (.tenantByID T) (.ok tn) σ₁ ∈ (d.pool t).hist := by
    rw [hh]
    exact mem_append_right _ mem_cons_self
  have hversion : serverRead (.schemaVersion tn.schemaID tn.schemaVersion) (.ok sv) σ₂ ∈
      (d.pool t).hist := by
    rw [hh]
    exact mem_append_right _ (mem_cons_of_mem _ mem_cons_self)
  have hfields : serverRead (.schemaFields sv.id) (.ok fields) σ₃ ∈ (d.pool t).hist := by
    rw [hh]
    exact mem_append_right _ (mem_append_right _ mem_cons_self)
  have hsv := schemaVersion_now hr' hversion
  -- the rules were those of the version when the row was read
  obtain ⟨ch, d', d'', hstep⟩ := hr.event hstart hh
  have hbound : d'.shared.store.db.boundSchema T = some sv := by
    have hfound : d'.shared.store.db.tenantByID T = some tn := by
      rw [hstep.pre]
      exact found_eq_ok.mp (server_read hr' (by simp) hrow)
    refine Tables.boundSchema_of_row hfound rfl ?_
    rw [Tables.schemaVersion, server_schemas (hr₀.trans hstep.reach), ← server_schemas hr']
    exact hsv
  have hnext : T ∈ nextRowRead d' t := by
    obtain ⟨q, hq⟩ := hstep.next
    rw [nextRowRead, hq]
    rfl
  refine ⟨⟨Tables.schemaVersion_self hsv, fields_now hr' (mem_of_find?_eq_some hsv) hfields, ?_⟩,
    d', hstep.reach, .trans (.tail (.refl d') hstep.admitted hstep.stepped) hstep.rest, hbound⟩
  exact hstep.admitted.1 T hnext rules (by rw [hstep.hist, hheld]; rfl) sv (by rw [hbound]; rfl)

/-- **Every program of the shared cache is that of the rule it is keyed by.** -/
theorem program_of_version (hr : Reach execServer ProgramsCurrent (init.system env) d)
    (h : d.shared.programs key = some prog) :
    ∃ sv rule, d.shared.store.db.schemaVersion key.schemaID key.version = some sv ∧
      sv.validations[key.ruleIndex]? = some rule ∧ env.celCompile sv.fields rule = .ok prog := by
  refine hr.invariant (fun d => ∀ prog, d.shared.programs key = some prog →
    ∃ sv rule, d.shared.store.db.schemaVersion key.schemaID key.version = some sv ∧
      sv.validations[key.ruleIndex]? = some rule ∧ env.celCompile sv.fields rule = .ok prog)
    nofun ?_ prog h
  intro d d' t ch hr ih ha hs prog hprog
  obtain ⟨o, q, r, hp, he, -⟩ := step_eq_some hs
  have hsame : d'.shared.store.db.schemaVersion key.schemaID key.version =
      d.shared.store.db.schemaVersion key.schemaID key.version := by
    rw [Tables.schemaVersion, (execServer_follows he).schemas]
    rfl
  rw [hsame]
  rcases execServer_programs he hprog with hbefore | rfl
  · exact ih prog hbefore
  · have hafter := server_after hr t
    rw [hp] at hafter
    obtain ⟨T, rules, sv, fields, post, k, hbound, hbinding⟩ := Request.binds (by trivial) hafter
    obtain ⟨⟨hsv, rfl, rfl⟩, -⟩ := hbound.version (.refl _) hr rfl
    cases hbinding with
    | compile hrule hcomp => exact ⟨sv, _, hsv, hrule, hcomp⟩

/-- The programs that a call was given are those of the rules of the version. -/
theorem Gathered.gives (hr : Reach execServer ProgramsCurrent (init.system env) d)
    (hbound : Bound T rules sv fields post (d.pool t).hist)
    (h : Gathered sv rules programs post) : sv.Gives env .celPrograms programs := by
  obtain ⟨⟨hsv, -, rfl⟩, -⟩ := hbound.version (.refl _) hr rfl
  have hsub : post ⊆ (d.pool t).hist := by
    obtain ⟨pre, tn, σ₁, σ₂, σ₃, -, -, hh⟩ := hbound.trace
    rw [hh]
    exact fun e he => mem_append_right _ (mem_append_right _ (mem_cons_of_mem _ he))
  have hone : ∀ i rule prog, (rule, i) ∈ sv.validations.zipIdx →
      (∃ e ∈ post, Gave ⟨sv.schemaID, sv.version, i⟩ prog e) →
      env.celCompile sv.fields rule = .ok prog := by
    rintro i rule prog hmem ⟨e, he, hgave⟩
    obtain ⟨ch, d', d'', hstep⟩ := hr.event_of_mem rfl (hsub he) |>.choose_spec
    have hr'' : Reach execServer ProgramsCurrent (init.system env) d'' :=
      hstep.reach.tail hstep.admitted hstep.stepped
    obtain ⟨sv', rule', hsv', hrule', hcomp⟩ :=
      program_of_version hr'' (hgave.cached hstep.answer)
    rw [Tables.schemaVersion, server_schemas hr'', ← server_schemas hr] at hsv'
    cases hsv.symm.trans hsv'
    cases (mem_zipIdx_iff_getElem?.mp hmem).symm.trans hrule'
    exact hcomp
  refine forall₂_iff_get.mpr ⟨by simpa using h.length_eq, fun i hi hi' => ?_⟩
  refine hone i _ _ ?_ (by simpa using (forall₂_iff_get.mp h).2 i (by simpa using hi) hi')
  exact mem_zipIdx_iff_getElem?.mpr (by simp)

/-- What a call stores for a tenant is what the tenant's schema says at that moment. -/
theorem programs_of_store {q : Unit → Prog (Both Op.Resp ServerOp.Resp) Answer}
    (hr : Reach execServer ProgramsCurrent (init.system env) d) (ha : ProgramsCurrent d t ch)
    (hp : (d.pool t).prog = .op (.inr (.store .celPrograms T programs)) q) :
    ∃ sv, d.shared.store.db.boundSchema T = some sv ∧ sv.Gives env .celPrograms programs := by
  have hafter := server_after hr t
  rw [hp] at hafter
  obtain ⟨T', rules, sv, fields, post, k, hbound, hbinding⟩ := Request.binds (by trivial) hafter
  cases hbinding with
  | store hgathered =>
    refine ⟨sv, ?_, hgathered.gives hr hbound⟩
    obtain ⟨⟨hsv, -, -⟩, -⟩ := hbound.version (.refl _) hr rfl
    obtain ⟨pre, tn, σ₁, σ₂, σ₃, -, hquiet, hh⟩ := hbound.trace
    have hlast : lastRow T (d.pool t).hist = some tn := by
      have hpost : post.filterMap (rowRead T) = [] := by
        refine filterMap_eq_nil_iff.mpr fun e he => ?_
        obtain ⟨o, ho⟩ := hquiet e he
        obtain ⟨_, r, σ⟩ := e
        cases ho
        rfl
      have hrows : (boundReads T tn sv σ₁ σ₂ ++ serverRead (.schemaFields sv.id) (.ok fields) σ₃ ::
          post).filterMap (rowRead T) = [tn] :=
        (filterMap_cons_some rowRead_self).trans (congrArg (tn :: ·) hpost)
      rw [hh, lastRow, filterMap_append, hrows, getLast?_concat]
    have hbind := ha.2 T (by rw [nextPrograms, hp]; rfl)
    rw [hlast, Option.map_some] at hbind
    obtain ⟨tn', hrow, hbind'⟩ := Option.map_eq_some_iff.mp hbind.symm
    refine Tables.boundSchema_of_row hrow hbind'.symm ?_
    exact schemaVersion_now hr (hh ▸ mem_append_right _ (mem_cons_of_mem _ mem_cons_self))

/-- **No tenant is evaluated against the rule of another version** where every step is current.
Every program of the shared cache is that of the rule it is keyed by, and the programs that a
`GetCelArtifacts` returns for a tenant are those of the rules of a version that the tenant was bound
to, at a moment that comes after every update of the tenant that had returned when the call
began. -/
theorem programs_of_version (hr₁ : Reach execServer ProgramsCurrent (init.system env) d₁)
    (hr₂ : Reach execServer ProgramsCurrent d₁ d₂) :
    (∀ key prog, d₂.shared.programs key = some prog →
      ∃ sv rule, d₂.shared.store.db.schemaVersion key.schemaID key.version = some sv ∧
        sv.validations[key.ruleIndex]? = some rule ∧ env.celCompile sv.fields rule = .ok prog) ∧
    ∀ t T fields programs, init.requests t = .getCelArtifacts T → (d₁.pool t).hist = [] →
      d₂.returned t = some (.artifacts (.ok (some (fields, programs)))) →
      ∃ d sv, Reach execServer ProgramsCurrent (init.system env) d ∧
        Reach execServer ProgramsCurrent d d₂ ∧
        d.shared.store.db.boundSchema T = some sv ∧
        Forall₂ (fun rule prog => env.celCompile sv.fields rule = .ok prog) sv.validations
          programs ∧
        ∀ u caller req tn, env.hasValidators = true → init.requests u = .updateTenant caller req →
          req.schemaVersion.isSome = true → d₁.returned u = some (.updated (.ok tn)) →
          tn.id = T → Updated d u T := by
  have hr := hr₁.trans hr₂
  refine ⟨fun key prog h => program_of_version hr h, fun t T fields programs hreq hstart hret => ?_⟩
  -- a call that has dropped the programs by a state has updated the tenant by then
  have hupdated : ∀ d, Reach execServer ProgramsCurrent (init.system env) d →
      (∀ u, Dropped d₁ u .celPrograms T → Dropped d u .celPrograms T) →
      ∀ u caller req tn, env.hasValidators = true → init.requests u = .updateTenant caller req →
        req.schemaVersion.isSome = true → d₁.returned u = some (.updated (.ok tn)) →
        tn.id = T → Updated d u T := by
    rintro d hd hdrop u caller req tn henv hu hver hret rfl
    exact (hdrop u (dropped_of_returned henv hr₁ hu hver hret .celPrograms)).updated hd hu
  have hafter := server_after hr t
  rw [hreq, Config.returned_eq_some.mp hret] at hafter
  obtain ⟨q, hq, h⟩ := after_map hafter
  obtain rfl : q = .ret (.ok (some (fields, programs))) := by
    cases q with
    | ret r =>
      cases hq
      rfl
    | op o k => cases hq
  rcases getCelArtifacts_trace (by trivial) h with hnone | ⟨fields', programs', h1, σ, hh, hq⟩ |
    ⟨rules, sv, fields', post, hbound, hbinding⟩
  · cases hnone
  · -- the programs of the tenant were cached
    cases hq
    obtain ⟨ch, e₁, e₂, hstep⟩ := hr₂.event hstart hh
    have hcached := cached_of_load hstep.answer
    rw [← hstep.pre] at hcached
    obtain ⟨d, hd, hd', hdrop, sv, hsv, hgives⟩ := cached_since
      (fun _ _ _ _ _ hr ha hp => programs_of_store hr ha hp) (hr₁.trans hstep.reach) hcached
    have hlast := Reach.trans (.tail (.refl e₁) hstep.admitted hstep.stepped) hstep.rest
    exact ⟨d, sv, hd, hd'.trans hlast, hsv, hgives,
      hupdated d hd fun u hu => hdrop u (hu.mono hstep.reach)⟩
  · -- they were bound to the version that the row named
    obtain ⟨-, d, hd, hd', hsv⟩ := hbound.version hr₁ hr₂ hstart
    cases hbinding with
    | done hgathered =>
      exact ⟨d, sv, hr₁.trans hd, hd', hsv, hgathered.gives hr hbound,
        hupdated d (hr₁.trans hd) fun u hu => hu.mono hd⟩

namespace Sample

def rule₁ : ValidationRule :=
  ⟨"", "true", "never fails", "always"⟩

def rule₂ : ValidationRule :=
  ⟨"", "false", "always fails", "never"⟩

def booleanWorld : Env :=
  { world noDocument with
    celCompile := fun _ rule => .ok fun _ => .bool (rule.rule = "true") none }

def ruled (requests : List Request) : ServerInit :=
  { serverInit requests with
    schemas := ⟨[{ schema with validations := [rule₁] },
      { schema₂ with validations := [rule₂] }], by decide⟩ }

def artifacts : ServerInit :=
  ruled [.getCelArtifacts tenant, rebind, .getCelArtifacts tenant]

def noFields : CelActivation :=
  ⟨[], tenant, "acme"⟩

end Sample

open Sample

/-- The programs that a `GetCelArtifacts` has returned. -/
def programsBy (d : ServerSystem) (t : ℕ) : Option (List SchemaField × List CelProgram) :=
  match d.returned t with
  | some (.artifacts (.ok artifacts)) => artifacts
  | _ => none

theorem programsBy_eq_some (h : programsBy d t = some (fields, programs)) :
    d.returned t = some (.artifacts (.ok (some (fields, programs)))) := by
  rw [programsBy] at h
  split at h
  · rename_i hret
    rw [hret, h]
  · cases h

/-- A tenant is bound to the second version between two calls, and the second call is answered with
its program. -/
theorem programs_of_version_both : ∃ d₁ d₂ d sv fields programs,
      Reach execServer ProgramsCurrent (artifacts.system booleanWorld) d₁ ∧
      Reach execServer ProgramsCurrent d₁ d₂ ∧
      d₂.returned 2 = some (.artifacts (.ok (some (fields, programs)))) ∧
      Reach execServer ProgramsCurrent d d₂ ∧ d.shared.store.db.boundSchema tenant = some sv ∧
      Forall₂ (fun rule prog => booleanWorld.celCompile sv.fields rule = .ok prog)
        sv.validations programs ∧ Updated d 1 tenant := by
  obtain ⟨d₁, d₂, hr₁, ⟨hupd, hstart⟩, hr₂, hret⟩ : ∃ d₁ d₂,
      Reach execServer ProgramsCurrent (artifacts.system booleanWorld) d₁ ∧
      (updatedBy d₁ 1 = some rebound ∧ (d₁.pool 2).hist.length = 0) ∧
      Reach execServer ProgramsCurrent d₁ d₂ ∧ (programsBy d₂ 2).isSome = true :=
    exists_reach_of_runs (serverSteps 0 12 ++ serverSteps 1 8) (serverSteps 2 12)
      (by decide +kernel)
  obtain ⟨⟨fields, programs⟩, hret⟩ := Option.isSome_iff_exists.mp hret
  have hret := programsBy_eq_some hret
  obtain ⟨d, sv, -, hd, hsv, hgives, hold⟩ := (programs_of_version hr₁ hr₂).2 2 tenant fields
    programs rfl (length_eq_zero_iff.mp hstart) hret
  exact ⟨d₁, d₂, d, sv, fields, programs, hr₁, hr₂, hret, hd, hsv, hgives,
    hold 1 _ _ _ rfl rfl rfl (updatedBy_eq_some hupd) rfl⟩

/-- A call takes the rules of the first version, and reads the tenant's row after the update:
the rule of the first version is compiled under the key of the second. -/
theorem programs_mixed : ∃ d prog sv rule prog', Reach execServer anyStep
        (artifacts.system booleanWorld) d ∧
      d.shared.programs ⟨"s", 2, 0⟩ = some prog ∧
      d.shared.store.db.schemaVersion "s" 2 = some sv ∧ sv.validations[0]? = some rule ∧
      booleanWorld.celCompile sv.fields rule = .ok prog' ∧ prog ≠ prog' := by
  obtain ⟨d, hr, hprog, hsv⟩ : ∃ d, Reach execServer anyStep (artifacts.system booleanWorld) d ∧
      (d.shared.programs ⟨"s", 2, 0⟩).map (fun prog => prog noFields) = some (.bool true none) ∧
      d.shared.store.db.schemaVersion "s" 2 = some { schema₂ with validations := [rule₂] } :=
    exists_reach_of_run (serverSteps 0 5 ++ serverSteps 1 8 ++ serverSteps 0 5) (by decide +kernel)
  obtain ⟨prog, hprog, heval⟩ := Option.map_eq_some_iff.mp hprog
  refine ⟨d, prog, _, rule₂, _, hr, hprog, hsv, rfl, rfl, ?_⟩
  rintro rfl
  cases heval

end Decree
