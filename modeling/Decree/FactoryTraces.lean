import Decree.ServerRuns

/-!
# Traces of the Factory

What the getters of the factory and `UpdateTenant` have done when they have returned, or are
about to perform an operation that matters.

## Main results

* `throughCache_trace`: the trace of a getter.
* `updateTenant_deleting`: an entry is dropped after the update.
-/

open Interleave List

namespace Decree

variable {env : Env} {T : String} {k : Slot} {evs : ServerHist}
  {build : ServerProc FactoryErr k.Value} {caller : Caller}

/-! ### Traces of the parts -/

section Parts

variable {ε ε' α : Type} {evs : ServerHist} {o : ServerOp} {onError : ε → ε'} {p : Proc ε α}

/-- An operation of the server answers. -/
theorem runs_askServer {f : o.Resp → Except ε α} {a : α} :
    Runs (askServer o f).run evs (.ok a) ↔ ∃ r σ, evs = [⟨.inr o, r, σ⟩] ∧ f r = .ok a :=
  runs_request

/-- A program of the store, in the server. -/
theorem runs_embed {a : α} (h : Runs (embed onError p).run evs (.ok a)) :
    Runs p.run.left evs (.ok a) := by
  obtain ⟨e1, e2, r, rfl, hp, hret⟩ := runs_bind.mp h
  obtain ⟨rfl, hr⟩ := runs_ret.mp hret
  rw [append_nil, ← mapError_eq_ok.mp hr]
  exact hp

/-- A read that succeeds is the only event. -/
theorem runs_storeRead {q : Query} {a : q.Result} (h : Runs (storeRead q).run evs (.ok a)) :
    ∃ σ, evs = [serverRead q (.ok a) σ] := by
  obtain ⟨r, σ, rfl, hr⟩ := runs_request.mp (runs_embed h)
  rw [mapError_eq_ok.mp hr]
  exact ⟨σ, rfl⟩

theorem runs_embed_ofExcept {x : Except ε α} {a : α}
    (h : Runs (embed onError (ofExcept x)).run evs (.ok a)) : evs = [] ∧ x = .ok a :=
  runs_ret.mp (runs_embed h)

variable {bad : Op ⊕ ServerOp → Prop}

theorem avoids_askServer {f : o.Resp → Except ε α} (h : ¬ bad (.inr o)) :
    Avoids bad (askServer o f).run :=
  ⟨h, fun _ => trivial⟩

variable (hbad : ∀ inTx q, ¬ bad (.inl (.read inTx q)))
include hbad

theorem avoids_embed (hp : Reading p) : Avoids bad (embed onError p).run := by
  have hread : Avoids (fun o => bad (.inl o)) p.run := by
    refine hp.mono fun o ho hread => ?_
    cases o with
    | read inTx q => exact hbad inTx q ho
    | _ => exact hread
  exact hread.left.bind fun _ => trivial

theorem avoids_storeRead (q : Query) : Avoids bad (storeRead q).run :=
  avoids_embed hbad (reading_fetch _ _ _)

theorem avoids_boundVersion (T : String) : Avoids bad (boundVersion T).run :=
  (avoids_storeRead hbad _).bind_run fun _ => avoids_storeRead hbad _

end Parts

/-- The reads of a bound schema version: the row of the tenant, and the version it names. -/
abbrev boundReads (T : String) (tn : Tenant) (sv : SchemaVersion) (σ₁ σ₂ : Server) : ServerHist :=
  [serverRead (.tenantByID T) (.ok tn) σ₁,
    serverRead (.schemaVersion tn.schemaID tn.schemaVersion) (.ok sv) σ₂]

/-- A bound version was read in two reads. -/
theorem runs_boundVersion {sv : SchemaVersion} (h : Runs (boundVersion T).run evs (.ok sv)) :
    ∃ tn σ1 σ2, evs = boundReads T tn sv σ1 σ2 := by
  obtain ⟨e1, e2, tn, rfl, h1, h2⟩ := runs_bind_ok h
  obtain ⟨σ1, rfl⟩ := runs_storeRead h1
  obtain ⟨σ2, rfl⟩ := runs_storeRead h2
  exact ⟨tn, σ1, σ2, rfl⟩

/-! ### What a getter builds -/

/-- **The value was built** from these reads, the first of which is that of the tenant's
row. -/
inductive Built (env : Env) (T : String) (tn : Tenant) : (k : Slot) → k.Value → ServerHist → Prop
  | validators {sv : SchemaVersion} {fields : List SchemaField}
      {vs : List (String × FieldValidator)} {σ₁ σ₂ σ₃ : Server}
      (hvs : buildValidators env fields = .ok vs) :
      Built env T tn .validators vs
        (boundReads T tn sv σ₁ σ₂ ++ [serverRead (.schemaFields sv.id) (.ok fields) σ₃])
  | rules {sv : SchemaVersion} {σ₁ σ₂ : Server} :
      Built env T tn .rules sv.dependentRequired (boundReads T tn sv σ₁ σ₂)
  | validations {sv : SchemaVersion} {σ₁ σ₂ : Server} :
      Built env T tn .validations sv.validations (boundReads T tn sv σ₁ σ₂)

def SchemaVersion.Gives (env : Env) (sv : SchemaVersion) : (k : Slot) → k.Value → Prop
  | .validators, vs => buildValidators env sv.fields = .ok vs
  | .rules, rules => rules = sv.dependentRequired
  | .validations, rules => rules = sv.validations
  | .celEnv, fields => fields = sv.fields
  | .celPrograms, programs =>
    List.Forall₂ (fun rule prog => env.celCompile sv.fields rule = .ok prog) sv.validations programs

/-- The cache and the tenant that a request looks up. -/
def Request.looksUp : Request → Option (Slot × String)
  | getValidators T => some (.validators, T)
  | getDependentRequired T => some (.rules, T)
  | getValidations T => some (.validations, T)
  | _ => none

/-- The program builds the value of a cache: it only reads the store, and what it returns was
built from what it has read. -/
structure Builds (env : Env) (k : Slot) (T : String) (build : ServerProc FactoryErr k.Value) :
    Prop where
  reads : ∀ bad : Op ⊕ ServerOp → Prop, (∀ inTx q, ¬ bad (.inl (.read inTx q))) →
    Avoids bad build.run
  built : ∀ evs value, Runs build.run evs (.ok value) → ∃ tn, Built env T tn k value evs

/-- The rules are built of the bound version. -/
theorem builds_validations (env : Env) (T : String) : Builds env .validations T (do
    let sv ← boundVersion T
    pure sv.validations) := by
  refine ⟨fun bad hbad => (avoids_boundVersion hbad T).bind_run fun _ => trivial, ?_⟩
  intro evs value h
  obtain ⟨e1, e2, sv, rfl, h1, h2⟩ := runs_bind_ok h
  obtain ⟨tn, σ1, σ2, rfl⟩ := runs_boundVersion h1
  obtain ⟨rfl, hv⟩ := runs_ret.mp h2
  cases hv
  exact ⟨tn, .validations⟩

/-- A lookup goes through a cache. -/
theorem Request.prog_of_looksUp (env : Env) {req : Request} (h : req.looksUp = some (k, T)) :
    ∃ build, Builds env k T build ∧
      req.prog env = ((throughCache k T build).run >>= fun r => .ret (.looked k r)) := by
  cases req with
  | getValidations T' =>
    obtain ⟨rfl, rfl⟩ := answer_inj h
    exact ⟨_, builds_validations env T', rfl⟩
  | getDependentRequired T' =>
    obtain ⟨rfl, rfl⟩ := answer_inj h
    refine ⟨_, ⟨?_, ?_⟩, rfl⟩
    · exact fun bad hbad => (avoids_boundVersion hbad T').bind_run fun _ => trivial
    · intro evs value h
      obtain ⟨e1, e2, sv, rfl, h1, h2⟩ := runs_bind_ok h
      obtain ⟨tn, σ1, σ2, rfl⟩ := runs_boundVersion h1
      obtain ⟨rfl, hv⟩ := runs_ret.mp h2
      obtain rfl := Except.ok.inj hv
      exact ⟨tn, .rules⟩
  | getValidators T' =>
    obtain ⟨rfl, rfl⟩ := answer_inj h
    refine ⟨_, ⟨?_, ?_⟩, rfl⟩
    · exact fun bad hbad => (avoids_boundVersion hbad T').bind_run fun _ =>
        (avoids_storeRead hbad _).bind_run fun _ => avoids_embed hbad trivial
    · intro evs value h
      obtain ⟨e1, e2, sv, rfl, h1, h2⟩ := runs_bind_ok h
      obtain ⟨e3, e4, fields, rfl, h3, h4⟩ := runs_bind_ok h2
      obtain ⟨tn, σ1, σ2, rfl⟩ := runs_boundVersion h1
      obtain ⟨σ3, rfl⟩ := runs_storeRead h3
      obtain ⟨rfl, hv⟩ := runs_embed_ofExcept h4
      exact ⟨tn, .validators (mapError_eq_ok.mp hv)⟩
  | call | updateTenant | getCelArtifacts => cases h

theorem avoids_throughCache (hb : Builds env k T build) {bad : Op ⊕ ServerOp → Prop}
    (hbad : ∀ inTx q, ¬ bad (.inl (.read inTx q))) (hload : ¬ bad (.inr (.load k T)))
    (hstore : ∀ value, ¬ bad (.inr (.store k T value))) :
    Avoids bad (throughCache k T build).run := by
  rw [throughCache]
  refine .bind_run (avoids_askServer hload) fun cached => ?_
  cases cached with
  | some value => exact trivial
  | none =>
    refine .bind_run (hb.reads bad hbad) fun value => ?_
    exact .bind_run (avoids_askServer (hstore value)) fun _ => trivial

/-- The operation stores in a cache. -/
def Stores : Op ⊕ ServerOp → Prop
  | .inr (.store _ _ _) => True
  | _ => False

/-- **The trace of a getter** that has returned, or is about to store: the cache had the value,
or the value was built. -/
theorem throughCache_trace (hb : Builds env k T build)
    {q : Prog (Both Op.Resp ServerOp.Resp) (Except FactoryErr k.Value)} (hq : Late Stores q)
    (h : After (throughCache k T build).run evs q) :
    (∃ value σ, evs = [⟨.inr (.load k T), some value, σ⟩] ∧ q = .ret (.ok value)) ∨
      ∃ value σ tn reads post, evs = ⟨.inr (.load k T), none, σ⟩ :: (reads ++ post) ∧
        Built env T tn k value reads ∧
        ((post = [] ∧ ∃ k', q = .op (.inr (.store k T value)) k') ∨
          (∃ σ', post = [⟨.inr (.store k T value), (), σ'⟩]) ∧ q = .ret (.ok value)) := by
  have hload : Avoids Stores (askServer (.load k T) .ok : ServerProc FactoryErr _).run :=
    avoids_askServer (by simp [Stores])
  obtain ⟨e1, e2, cached, rfl, h1, h2⟩ := hload.after_bind_late hq h
  obtain ⟨r, σ, rfl, hr⟩ := runs_askServer.mp h1
  obtain rfl := Except.ok.inj hr
  cases r with
  | some value =>
    obtain ⟨rfl, rfl⟩ := after_ret.mp h2
    exact .inl ⟨value, σ, rfl, rfl⟩
  | none =>
    obtain ⟨reads, e3, value, rfl, hreads, h3⟩ :=
      (hb.reads _ (by simp [Stores])).after_bind_late hq h2
    obtain ⟨tn, hbuilt⟩ := hb.built _ _ hreads
    refine .inr ⟨value, σ, tn, reads, e3, rfl, hbuilt, ?_⟩
    rcases after_op.mp h3 with ⟨rfl, rfl⟩ | ⟨r, σ', evs', rfl, hk⟩
    · exact .inl ⟨rfl, _, rfl⟩
    · obtain ⟨rfl, rfl⟩ := after_ret.mp hk
      exact .inr ⟨⟨σ', rfl⟩, rfl⟩

/-! ### The operations of the programs -/

section Footprints

variable {bad : Op ⊕ ServerOp → Prop} (hbad : ∀ inTx q, ¬ bad (.inl (.read inTx q)))

theorem avoids_invalidateFactory {changed : Bool} (hdelete : ∀ k, ¬ bad (.inr (.delete k T))) :
    Avoids bad (invalidateFactory env T changed).run := by
  rw [invalidateFactory]
  split
  · exact .forEach (fun k => avoids_askServer (hdelete k)) _
  · exact trivial

/-- `UpdateTenant` is prepared by reads. -/
theorem reading_prepareUpdate (caller : Caller) (req : UpdateTenantRequest) :
    Reading (storeReads.prepareUpdate caller req) := by
  refine .bind_run trivial fun _ => ?_
  refine .bind_run (reading_resolveTenant caller req.id) fun resolved => ?_
  refine .bind_run trivial fun _ => ?_
  refine .bind_run ?_ fun _ => .bind_run trivial fun _ => trivial
  cases req.schemaVersion with
  | none => exact trivial
  | some version =>
    exact .bind_run (.bind_run (reading_fetch _ _ _) fun _ => .bind_run trivial fun _ => trivial)
      fun _ => trivial

/-- `ProgramFor` looks in the shared cache and stores in it. -/
theorem avoids_programFor (hcompile : ∀ key prog, ¬ bad (.inr (.loadOrStoreProgram key prog)))
    (hload : ∀ key, ¬ bad (.inr (.loadProgram key)))
    (fields : List SchemaField) (rule : ValidationRule) (key : ProgramKey) :
    Avoids bad (programFor env fields rule key).run := by
  rw [programFor]
  refine .bind_run (avoids_askServer (hload key)) fun cached => ?_
  cases cached with
  | some prog => exact trivial
  | none => exact .bind_run trivial fun prog => avoids_askServer (hcompile key prog)

include hbad

/-- `UpdateTenant` reads the store, updates the tenant and drops entries. -/
theorem avoids_updateTenant
    (hupdate : ∀ id stmts audit, ¬ bad (.inr (.updateTenant id stmts audit)))
    (hdelete : ∀ k T, ¬ bad (.inr (.delete k T))) (caller : Caller) (req : UpdateTenantRequest) :
    Avoids bad (updateTenant env caller req).run := by
  rw [updateTenant]
  refine .bind_run (avoids_embed hbad (reading_prepareUpdate caller req)) fun resolved => ?_
  refine .bind_run (avoids_askServer (hupdate _ _ _)) fun tenant => ?_
  exact .bind_run (avoids_invalidateFactory fun k => hdelete k _) fun _ => trivial

section

variable (hcompile : ∀ key prog, ¬ bad (.inr (.loadOrStoreProgram key prog)))

include hcompile

theorem avoids_bindPrograms (hload : ∀ key, ¬ bad (.inr (.loadProgram key)))
    (hcelEnv : ∀ fields, ¬ bad (.inr (.store .celEnv T fields)))
    (hcelPrograms : ∀ programs, ¬ bad (.inr (.store .celPrograms T programs)))
    (rules : List ValidationRule) : Avoids bad (bindPrograms env T rules).run := by
  rw [bindPrograms]
  refine .bind_run (avoids_boundVersion hbad T) fun sv => ?_
  refine .bind_run (avoids_storeRead hbad _) fun fields => ?_
  refine .bind_run (.collect (fun p => ?_) _) fun programs => ?_
  · exact avoids_programFor hcompile hload ..
  refine .bind_run (avoids_askServer (hcelEnv fields)) fun _ => ?_
  refine .bind_run (avoids_askServer (hcelPrograms programs)) fun _ => ?_
  exact trivial

theorem avoids_artifactsOf (hload : ∀ k, ¬ bad (.inr (.load k T)))
    (hloadProgram : ∀ key, ¬ bad (.inr (.loadProgram key)))
    (hcelEnv : ∀ fields, ¬ bad (.inr (.store .celEnv T fields)))
    (hcelPrograms : ∀ programs, ¬ bad (.inr (.store .celPrograms T programs)))
    (rules : List ValidationRule) : Avoids bad (artifactsOf env T rules).run := by
  have hbind : Avoids bad (bindPrograms env T rules).run :=
    avoids_bindPrograms hbad hcompile hloadProgram hcelEnv hcelPrograms rules
  rw [artifactsOf]
  split
  · exact trivial
  refine .bind_run (avoids_askServer (hload _)) fun celEnv => ?_
  cases celEnv with
  | none => exact .bind_run hbind fun _ => trivial
  | some fields =>
    refine .bind_run (avoids_askServer (hload _)) fun cached => ?_
    cases cached with
    | none => exact .bind_run hbind fun _ => trivial
    | some programs => exact trivial

end

end Footprints

/-! ### `UpdateTenant` -/

/-- The operation drops an entry of a cache. -/
def Drops : Op ⊕ ServerOp → Prop
  | .inr (.delete _ _) => True
  | _ => False

/-- An `UpdateTenant` that drops an entry has updated the tenant. -/
theorem updateTenant_deleting {req : UpdateTenantRequest}
    {q : Unit → Prog (Both Op.Resp ServerOp.Resp) (Except TxErr Tenant)}
    (h : After (updateTenant env caller req).run evs (.op (.inr (.delete k T)) q)) :
    ∃ audit tn σ, (⟨.inr (.updateTenant T req.stmts audit), .ok tn, σ⟩ : ServerEvent) ∈ evs := by
  rw [updateTenant] at h
  have hprep : Avoids Drops (embed TxErr.status (storeReads.prepareUpdate caller req)).run :=
    avoids_embed (fun _ _ h => h) (reading_prepareUpdate caller req)
  obtain ⟨e1, e2, resolved, rfl, -, h2⟩ := hprep.after_bind_late (by trivial) h
  have hupd : Avoids Drops (askServer (.updateTenant resolved.id req.stmts
      (updateTenantAudit resolved.id (getActor caller)))
      (Except.mapError TenantTxErr.toTxErr)).run := avoids_askServer fun h => h
  obtain ⟨e3, e4, tn, rfl, h3, h4⟩ := hupd.after_bind_late (by trivial) h2
  obtain ⟨r, σ, rfl, hr⟩ := runs_askServer.mp h3
  obtain rfl := mapError_eq_ok.mp hr
  -- what is dropped is of the tenant that was updated
  obtain rfl : resolved.id = T := by
    rcases after_bind_op h4 with ⟨_, hinv⟩ | ⟨e5, e6, a, rfl, -, hrest⟩
    · have hown : Avoids (fun o => ∃ k T', o = .inr (.delete k T') ∧ T' ≠ resolved.id)
          (invalidateFactory env resolved.id req.schemaVersion.isSome).run := by
        refine avoids_invalidateFactory ?_
        rintro k' ⟨k'', T', heq, hne⟩
        cases heq
        exact hne rfl
      by_contra hne
      exact (hown.after hinv).2.1 ⟨k, T, rfl, fun h => hne h.symm⟩
    · cases (after_ret.mp hrest).2
  exact ⟨_, tn, σ, mem_append_right _ (mem_append_left _ mem_cons_self)⟩

/-- An `UpdateTenant` that has returned has updated a tenant, and has dropped its caches where
the schema version was to change. -/
theorem updateTenant_returned {req : UpdateTenantRequest} {tn : Tenant}
    (h : Runs (updateTenant env caller req).run evs (.ok tn)) :
    ∃ id audit σ, (⟨.inr (.updateTenant id req.stmts audit), .ok tn, σ⟩ : ServerEvent) ∈ evs ∧
      (env.hasValidators = true → req.schemaVersion.isSome = true →
        ∀ k, ∃ σ', (⟨.inr (.delete k id), (), σ'⟩ : ServerEvent) ∈ evs) := by
  rw [updateTenant] at h
  obtain ⟨e1, e2, resolved, rfl, -, h2⟩ := runs_bind_ok h
  obtain ⟨e3, e4, tn', rfl, h3, h4⟩ := runs_bind_ok h2
  obtain ⟨e5, e6, ⟨⟩, rfl, h5, h6⟩ := runs_bind_ok h4
  obtain ⟨rfl, htn⟩ := runs_ret.mp h6
  cases htn
  obtain ⟨r, σ, rfl, hr⟩ := runs_askServer.mp h3
  obtain rfl := mapError_eq_ok.mp hr
  refine ⟨resolved.id, _, σ,
    mem_append_right _ (mem_append_left _ mem_cons_self), fun henv hver k => ?_⟩
  have hall : invalidateFactory env resolved.id req.schemaVersion.isSome =
      forEach (fun k => askServer (.delete k resolved.id) .ok) Slot.all := by
    rw [invalidateFactory, henv, hver]
    rfl
  rw [hall] at h5
  have hk : k ∈ Slot.all := by cases k <;> decide
  obtain ⟨es, hsub, hdel⟩ := mem_of_runs_forEach h5 hk
  obtain ⟨_, σ', rfl, -⟩ := runs_askServer.mp hdel
  refine ⟨σ', mem_append_right _ (mem_append_right _ (mem_append_left _ ?_))⟩
  exact hsub.subset mem_cons_self

end Decree
