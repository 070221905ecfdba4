import Decree.System
import Decree.Transactions

/-!
# Traces of the Calls

What the history of a call says when the call has succeeded or is about to commit: which
reads it made, what they returned, and what its transaction holds. Nothing here refers to
other calls or to the state of the store; these are facts about the programs of
`Decree.ConfigService` and `Decree.SchemaService` alone, taken apart along their binds.

The facts are predicates on a history, and a longer history keeps them.

## Main results

* `resolved_of_runs`, `guarded_of_runs`, `validated_of_runs`, ...: what the checks have read.
-/

open Interleave
open scoped List

namespace Decree

/-- The history of a call. -/
abbrev Hist := List (Event Op.Resp State)

/-- A part of a trace is there where it begins, and after any other part. -/
theorem sub_here {e r : Hist} : e <+ e ++ r := List.sublist_append_left e r

/-- A part of the rest is a part of the whole. -/
theorem sub_skip {e x r : Hist} (h : e <+ r) : e <+ x ++ r := List.sublist_append_of_sublist_right h

/-- A part of the rest behind two parts. -/
theorem sub_skip2 {e x y r : Hist} (h : e <+ r) : e <+ x ++ (y ++ r) := sub_skip (sub_skip h)

/-! ### The basic programs -/

section Basics

variable {ε α β : Type} {evs : Hist} {x : Except ε α}

/-- A value performs nothing. -/
@[simp] theorem runs_pure_ok {a b : α} :
    Runs (pure a : Proc ε α).run evs (.ok b) ↔ evs = [] ∧ a = b := by
  rw [ExceptT.run_pure, Prog.pure_eq, runs_ret, Except.ok.injEq]

/-- An operation performs itself, and its response decides. -/
@[simp] theorem runs_ask {o : Op} {f : o.Resp → Except ε α} :
    Runs (ask o f).run evs x ↔ ∃ r s, evs = [⟨o, r, s⟩] ∧ f r = x :=
  runs_request

/-- An operation whose response is not looked at. -/
@[simp] theorem runs_tell {o : Op} {u : Unit} :
    Runs (tell o : Proc ε Unit).run evs (.ok u) ↔ ∃ r s, evs = [⟨o, r, s⟩] := by
  simp [tell]

/-- A check performs nothing. -/
@[simp] theorem runs_ofExcept {y : Except ε α} : Runs (ofExcept x).run evs y ↔ evs = [] ∧ x = y :=
  runs_ret

/-- A condition that is passed holds. -/
@[simp] theorem runs_require {p : Prop} [Decidable p] {e : ε} {u : Unit} :
    Runs (require p e).run evs (.ok u) ↔ evs = [] ∧ p := by
  by_cases hp : p <;> simp [require, hp]

/-- A read that succeeds has returned the value. -/
@[simp] theorem runs_fetch {inTx : Bool} {q : Query} {g : StoreErr → ε} {a : q.Result} :
    Runs (fetch inTx q g).run evs (.ok a) ↔
      ∃ s, evs = [⟨.read inTx q, (.ok a : Except StoreErr q.Result), s⟩] := by
  rw [fetch, runs_ask]
  constructor
  · rintro ⟨r, s, rfl, h⟩
    obtain rfl := mapError_eq_ok.mp h
    exact ⟨s, rfl⟩
  · rintro ⟨s, rfl⟩
    exact ⟨_, s, rfl, rfl⟩

end Basics

/-! ### Quiet programs -/

/-- The operations that open or end a transaction, touch the version it creates, publish it,
or put something into a cache. -/
def Op.MovesVersion : Op → Prop
  | begin | createConfigVersion _ | setConfigValues _ | commit | rollback | publish _ => True
  | cache (.set _ _ _) | cache (.setNegative _ _) | flight (.land _ _) => True
  | _ => False

/-- The program performs none of them. -/
abbrev Quiet {ε α : Type} (x : Proc ε α) : Prop :=
  Avoids Op.MovesVersion x.run

abbrev Op.IsCommit (o : Op) : Prop :=
  o = .commit

def Op.IsPublish : Op → Prop
  | publish _ => True
  | _ => False

/-- The operation puts something into a cache, or hands it to the calls that wait for it. -/
def Op.Fills : Op → Prop
  | cache (.set _ _ _) | cache (.setNegative _ _) | flight (.land _ _) => True
  | _ => False

/-- The operation publishes or fills a cache. -/
def Op.Shares : Op → Prop
  | publish _ | cache (.set _ _ _) | cache (.setNegative _ _) | flight (.land _ _) => True
  | _ => False

/-- The operation is a commit or a publish. -/
def Op.Settles : Op → Prop
  | commit | publish _ => True
  | _ => False

/-- The operation is a commit, a publish, or fills a cache. -/
def Op.Concludes : Op → Prop
  | commit | publish _ => True
  | cache (.set _ _ _) | cache (.setNegative _ _) | flight (.land _ _) => True
  | _ => False

variable {o : Op}

/-- A commit concludes. -/
theorem Op.IsCommit.concludes (h : o.IsCommit) : o.Concludes := by
  subst h
  trivial

/-- A publish is seen by others. -/
theorem Op.IsPublish.shares (h : o.IsPublish) : o.Shares := by
  cases o <;> trivial

/-- What settles a call concludes. -/
theorem Op.Settles.concludes (h : o.Settles) : o.Concludes := by
  cases o <;> trivial

/-- A filled cache is seen by others. -/
theorem Op.Fills.shares (h : o.Fills) : o.Shares := by
  cases o with
  | cache o => cases o <;> trivial
  | flight o => cases o <;> trivial
  | _ => trivial

/-- What others see concludes. -/
theorem Op.Shares.concludes (h : o.Shares) : o.Concludes := by
  cases o with
  | cache o => cases o <;> trivial
  | flight o => cases o <;> trivial
  | _ => trivial

/-- What concludes may move a version. -/
theorem Op.Concludes.movesVersion (h : o.Concludes) : o.MovesVersion := by
  cases o with
  | cache o => cases o <;> trivial
  | flight o => cases o <;> trivial
  | _ => trivial

/-- The operation reads something else than config rows, outside of a transaction. -/
def Op.Plain : Op → Prop
  | read false (.tenantByName _) | read false (.tenantByID _) | read false (.schemaVersion _ _)
  | read false (.schemaFields _) | read false (.boundSchema _) | read false (.fieldLocks _)
  | read false (.latestConfigVersion _) => True
  | _ => False

/-- The program performs plain reads only. -/
abbrev Plain {ε α : Type} (x : Proc ε α) : Prop :=
  Avoids (fun o => ¬ o.Plain) x.run

section Plain

variable {ε α β : Type}

/-- A plain program moves no version. -/
theorem Plain.quiet {x : Proc ε α} (hx : Plain x) : Quiet x := by
  refine hx.mono fun o ho hplain => ?_
  cases o with
  | read => exact ho
  | _ => exact hplain

/-- A check is plain. -/
theorem plain_ofExcept (x : Except ε α) : Plain (ofExcept x) := trivial

/-- A condition is plain. -/
theorem plain_require (p : Prop) [Decidable p] (e : ε) : Plain (require p e) := trivial

/-- A plain read is plain. -/
theorem plain_fetch {q : Query} (hq : (Op.read false q).Plain) (g : StoreErr → ε) :
    Plain (fetch false q g) :=
  ⟨fun h => h hq, fun _ => trivial⟩

variable (env : Env)

/-- A tenant is resolved by plain reads. -/
theorem plain_resolveTenantID (idOrName : String) : Plain (resolveTenantID idOrName) :=
  .ite_run trivial (.ite_run trivial (.bind_run (plain_fetch (by trivial) _) fun _ => trivial))

/-- The guard of a field makes plain reads. -/
theorem plain_guardCheck (caller : Caller) (action : Action) (r : Resource)
    (locks : Option (List TenantFieldLock)) : Plain (guardCheck env caller action r locks) := by
  refine .bind_run trivial fun _ => .ite_run ?_ trivial
  cases locks with
  | none => exact .bind_run (plain_fetch (by trivial) _) fun _ => trivial
  | some locks => exact trivial

/-- So does the resolution with a check of access. -/
theorem plain_resolveTenantWithAccess (caller : Caller) (idOrName : String)
    (action : Action) : Plain (resolveTenantWithAccess env caller idOrName action) :=
  .bind_run (plain_resolveTenantID _) fun _ =>
    .bind_run (plain_guardCheck _ _ _ _ _) fun _ => trivial

/-- The types are a plain read. -/
theorem plain_fieldTypeMap (wrap : Status → ε) (T : String) : Plain (fieldTypeMap env wrap T) :=
  .ite_run (.bind_run (plain_fetch (by trivial) _) fun _ => trivial) trivial

/-- The schema fields are plain reads. -/
theorem plain_getSchemaFieldSets (T : String) : Plain (getSchemaFieldSets T) :=
  .bind_run (plain_fetch (by trivial) _) fun _ => .bind_run (plain_fetch (by trivial) _) fun _ =>
    plain_fetch (by trivial) _

/-- The latest version is a plain read. -/
theorem plain_resolveVersion (T : String) : Plain (resolveVersion T) :=
  ⟨fun h => h trivial, fun _ => trivial⟩

end Plain

section Quiet

variable {ε α β : Type} {y : Proc ε α}

/-- A quiet program does not commit. -/
theorem Quiet.noCommit {x : Proc ε α} (h : Quiet x) : Avoids Op.IsCommit x.run :=
  h.mono fun _ ho => ho.concludes.movesVersion

/-- A value is quiet. -/
theorem quiet_pure (a : α) : Quiet (pure a : Proc ε α) := trivial

/-- A check is quiet. -/
theorem quiet_ofExcept (x : Except ε α) : Quiet (ofExcept x) := trivial

/-- An operation that moves no version is quiet. -/
theorem quiet_ask {o : Op} (h : ¬ o.MovesVersion) (f : o.Resp → Except ε α) : Quiet (ask o f) :=
  ⟨h, fun _ => trivial⟩

/-- So it is when its response is not looked at. -/
theorem quiet_tell {o : Op} (h : ¬ o.MovesVersion) : Quiet (tell o : Proc ε Unit) := quiet_ask h _

/-- A read is quiet. -/
theorem quiet_fetch (inTx : Bool) (q : Query) (g : StoreErr → ε) : Quiet (fetch inTx q g) :=
  quiet_ask (by nofun) _

/-- A condition is quiet. -/
theorem quiet_require (p : Prop) [Decidable p] (e : ε) : Quiet (require p e) := trivial

variable (env : Env)

/-- A tenant is resolved quietly. -/
theorem quiet_resolveTenantWithAccess (caller : Caller) (idOrName : String)
    (action : Action) : Quiet (resolveTenantWithAccess env caller idOrName action) :=
  (plain_resolveTenantWithAccess env caller idOrName action).quiet

/-- The types are read quietly. -/
theorem quiet_fieldTypeMap (wrap : Status → ε) (T : String) : Quiet (fieldTypeMap env wrap T) :=
  (plain_fieldTypeMap env wrap T).quiet

/-- The schema fields are read quietly. -/
theorem quiet_getSchemaFieldSets (T : String) : Quiet (getSchemaFieldSets T) :=
  (plain_getSchemaFieldSets T).quiet

/-- An audit entry moves no version. -/
theorem quiet_insertAudit (entries : List AuditEntry) : Quiet (insertAudit entries) :=
  quiet_ask (by nofun) _

def Op.IsRead : Op → Prop
  | read _ _ => True
  | _ => False

/-- The program only reads. -/
abbrev Reading (x : Proc ε α) : Prop :=
  Avoids (fun o => ¬ o.IsRead) x.run

/-- A program that only reads is quiet. -/
theorem Reading.quiet {x : Proc ε α} (hx : Reading x) : Quiet x := by
  refine hx.mono fun o ho hread => ?_
  cases o with
  | read => exact ho
  | _ => exact hread

/-- A read only reads. -/
theorem reading_fetch (inTx : Bool) (q : Query) (g : StoreErr → ε) : Reading (fetch inTx q g) :=
  ⟨fun h => h trivial, fun _ => trivial⟩

/-- The rules and their fields are read. -/
theorem reading_fetchCelArtifactsForTenant (T : String) :
    Reading (fetchCelArtifactsForTenant env T) := by
  refine .ite_run (.bind_run (reading_fetch _ _ _) fun sv => ?_) trivial
  refine .ite_run trivial (.bind_run (reading_fetch _ _ _) fun bound => ?_)
  refine .bind_run trivial fun rules => .bind_run ?_ fun types => trivial
  exact .ite_run (.bind_run (reading_fetch _ _ _) fun _ => trivial) trivial

/-- The cross-field rules are enforced by reads. -/
theorem reading_enforceDependentRequiredInTx (T : String) (version : ℤ)
    (depRules : List DependentRequiredEntry) :
    Reading (enforceDependentRequiredInTx env T version depRules) := by
  refine .bind_run (reading_fetchCelArtifactsForTenant _ _) fun cel => .ite_run trivial ?_
  refine .bind_run (reading_fetch _ _ _) fun rows => .bind_run trivial fun _ => ?_
  cases cel with
  | none => exact trivial
  | some art => exact .bind_run (reading_fetch _ _ _) fun tenant => trivial

end Quiet

/-! ### What a history says -/

/-- A read that was performed. -/
abbrev readEvent (inTx : Bool) (q : Query) (r : Except StoreErr q.Result) (s : State) :
    Event Op.Resp State :=
  ⟨.read inTx q, r, s⟩

/-- The tenant was given by its identifier, or looked up by its name. -/
def Resolved (idOrName T : String) (h : Hist) : Prop :=
  (isUUID idOrName = true ∧ T = idOrName) ∨
    (isUUID idOrName = false ∧
      ∃ tn s, readEvent false (.tenantByName idOrName) (.ok tn) s ∈ h ∧ Tenant.id tn = T)

/-- A write to the resource passed the guards, with the locks as they were read. -/
def Guarded (env : Env) (caller : Caller) (r : Resource) (h : Hist) : Prop :=
  accessGuards caller .write r = .ok () ∧
    (fieldLocksApply caller .write r = true →
      ∃ locks s, readEvent false (.fieldLocks r.tenantID) (.ok locks) s ∈ h ∧
        checkFieldLocks env r locks = .ok ())

/-- The value was validated, if the service has validators. -/
def Validated (env : Env) (T fieldPath : String) (value : Option TypedValue) (h : Hist) : Prop :=
  env.hasValidators = true →
    ∃ sv s, readEvent false (.boundSchema T) (.ok sv) s ∈ h ∧
      validateWith env (SchemaVersion.fields sv) fieldPath value = .ok ()

/-- These are the field types the call works with. -/
def TypesRead (env : Env) (T : String) (types : List (String × FieldType)) (h : Hist) : Prop :=
  (env.hasValidators = false ∧ types = []) ∨
    (env.hasValidators = true ∧
      ∃ sv s, readEvent false (.boundSchema T) (.ok sv) s ∈ h ∧
        typesOfFields env (SchemaVersion.fields sv) = .ok types)

/-- These are the `dependentRequired` rules the call works with. -/
def RulesRead (env : Env) (T : String) (rules : List DependentRequiredEntry) (h : Hist) : Prop :=
  (env.hasValidators = false ∧ rules = []) ∨
    (env.hasValidators = true ∧
      ∃ sv s, readEvent false (.boundSchema T) (.ok sv) s ∈ h ∧
        rules = SchemaVersion.dependentRequired sv)

/-- These are the CEL artifacts the transaction works with: none when the schema has no
rules. -/
def CelRead (env : Env) (T : String) (cel : Option CelArtifacts) (h : Hist) : Prop :=
  (env.hasValidators = false ∧ cel = none) ∨
    (env.hasValidators = true ∧ ∃ (sv : SchemaVersion) (s : State),
      readEvent false (.boundSchema T) (.ok sv) s ∈ h ∧
      ((sv.validations = [] ∧ cel = none) ∨
        ∃ (bound : SchemaVersion) (s' : State) (art : CelArtifacts),
          readEvent false (.boundSchema T) (.ok bound) s' ∈ h ∧
          compileRules env bound.fields sv.validations = .ok art.rules ∧
          TypesRead env T art.fieldTypes h ∧ cel = some art))

/-- The cross-field rules were enforced on the rows that the transaction read at the version,
unless there are none. -/
def Enforced (env : Env) (T : String) (v : ℤ) (rules : List DependentRequiredEntry)
    (h : Hist) : Prop :=
  ∃ cel, CelRead env T cel h ∧
    ((rules = [] ∧ cel = none) ∨
      ∃ (rows : List ConfigValue) (s : State),
        readEvent true (.fullConfigAtVersion T v) (.ok rows) s ∈ h ∧
        dependentRequiredCheck env rules rows = .ok () ∧
        ∀ art, cel = some art → ∃ (tn : Tenant) (s' : State),
          readEvent true (.tenantByID T) (.ok tn) s' ∈ h ∧ celCheck env art rows tn = .ok ())

/-- These are the schema fields the call works with. -/
def SchemaRead (T : String) (fields : List SchemaField) (h : Hist) : Prop :=
  ∃ (tn : Tenant) (sv : SchemaVersion) (s₁ s₂ s₃ : State),
    readEvent false (.tenantByID T) (.ok tn) s₁ ∈ h ∧
    readEvent false (.schemaVersion tn.schemaID tn.schemaVersion) (.ok sv) s₂ ∈ h ∧
    readEvent false (.schemaFields sv.id) (.ok fields) s₃ ∈ h

/-- This is the current value of the field as the call read it: the latest version, then the
value there. -/
def CurrentRead (T fieldPath current : String) (h : Hist) : Prop :=
  ∃ r s v, versionOrZero r = .ok v ∧
    ((v = 0 ∧ current = "" ∧ [readEvent false (.latestConfigVersion T) r s] <+ h) ∨
      (v ≠ 0 ∧ ∃ r' s', current = valueOrEmpty r' ∧
        [readEvent false (.latestConfigVersion T) r s,
          readEvent false (.configValueAtVersion T fieldPath v) r' s'] <+ h))

/-- The field has neither of the write attributes. -/
def Unattributed (fields : List SchemaField) (fieldPath : String) : Prop :=
  ∀ f ∈ fields, f.path = fieldPath → f.readOnly = false ∧ f.writeOnce = false

/-- The write attributes of the field were checked against its current value, if it has
any. -/
def Attributed (T fieldPath : String) (h : Hist) : Prop :=
  ∃ fields, SchemaRead T fields h ∧
    (Unattributed fields fieldPath ∨
      ∃ current, CurrentRead T fieldPath current h ∧
        checkWriteAttributes fields fieldPath current = .ok ())

section Mono

variable {env : Env} {caller : Caller} {T fieldPath current : String} {h h' : Hist}
  {rules : List DependentRequiredEntry}

section

variable (hsub : h <+ h')

include hsub

/-- A longer history has resolved the tenant too. -/
theorem Resolved.mono {idOrName : String} (hp : Resolved idOrName T h) :
    Resolved idOrName T h' := by
  rcases hp with hp | ⟨hu, tn, s, hm, hT⟩
  · exact .inl hp
  · exact .inr ⟨hu, tn, s, hsub.subset hm, hT⟩

/-- A guard that was passed stays passed. -/
theorem Guarded.mono {r : Resource} (hp : Guarded env caller r h) : Guarded env caller r h' := by
  refine ⟨hp.1, fun ha => ?_⟩
  obtain ⟨locks, s, hm, hc⟩ := hp.2 ha
  exact ⟨locks, s, hsub.subset hm, hc⟩

/-- A value that was validated stays so. -/
theorem Validated.mono {value : Option TypedValue}
    (hp : Validated env T fieldPath value h) : Validated env T fieldPath value h' := by
  intro hv
  obtain ⟨sv, s, hm, hc⟩ := hp hv
  exact ⟨sv, s, hsub.subset hm, hc⟩

/-- Types that were read stay so. -/
theorem TypesRead.mono {types : List (String × FieldType)}
    (hp : TypesRead env T types h) : TypesRead env T types h' := by
  rcases hp with hp | ⟨hv, sv, s, hm, hc⟩
  · exact .inl hp
  · exact .inr ⟨hv, sv, s, hsub.subset hm, hc⟩

/-- Rules that were read stay so. -/
theorem RulesRead.mono (hp : RulesRead env T rules h) : RulesRead env T rules h' := by
  rcases hp with hp | ⟨hv, sv, s, hm, hc⟩
  · exact .inl hp
  · exact .inr ⟨hv, sv, s, hsub.subset hm, hc⟩

/-- CEL rules that were read stay so. -/
theorem CelRead.mono {cel : Option CelArtifacts} (hp : CelRead env T cel h) :
    CelRead env T cel h' := by
  rcases hp with hp | ⟨hv, sv, s, hm, hc | ⟨bound, s', art, hb, hcomp, htypes, hart⟩⟩
  · exact .inl hp
  · exact .inr ⟨hv, sv, s, hsub.subset hm, .inl hc⟩
  · exact .inr ⟨hv, sv, s, hsub.subset hm,
      .inr ⟨bound, s', art, hsub.subset hb, hcomp, htypes.mono hsub, hart⟩⟩

/-- Rules that were enforced stay so. -/
theorem Enforced.mono {v : ℤ} (hp : Enforced env T v rules h) : Enforced env T v rules h' := by
  obtain ⟨cel, hcel, hnone | ⟨rows, s, hm, hdep, hart⟩⟩ := hp
  · exact ⟨cel, hcel.mono hsub, .inl hnone⟩
  · refine ⟨cel, hcel.mono hsub, .inr ⟨rows, s, hsub.subset hm, hdep, fun art ha => ?_⟩⟩
    obtain ⟨tn, s', hm', hc⟩ := hart art ha
    exact ⟨tn, s', hsub.subset hm', hc⟩

/-- Schema fields that were read stay so. -/
theorem SchemaRead.mono {fields : List SchemaField}
    (hp : SchemaRead T fields h) : SchemaRead T fields h' := by
  obtain ⟨tn, sv, s1, s2, s3, h1, h2, h3⟩ := hp
  exact ⟨tn, sv, s1, s2, s3, hsub.subset h1, hsub.subset h2, hsub.subset h3⟩

/-- A current value that was read stays so. -/
theorem CurrentRead.mono (hp : CurrentRead T fieldPath current h) :
    CurrentRead T fieldPath current h' := by
  obtain ⟨r, s, v, hv, ⟨h0, hc, hm⟩ | ⟨h0, r', s', hc, hm⟩⟩ := hp
  · exact ⟨r, s, v, hv, .inl ⟨h0, hc, hm.trans hsub⟩⟩
  · exact ⟨r, s, v, hv, .inr ⟨h0, r', s', hc, hm.trans hsub⟩⟩

/-- Attributes that were checked stay so. -/
theorem Attributed.mono (hp : Attributed T fieldPath h) : Attributed T fieldPath h' := by
  obtain ⟨fields, hf, hu | ⟨current, hc, hok⟩⟩ := hp
  · exact ⟨fields, hf.mono hsub, .inl hu⟩
  · exact ⟨fields, hf.mono hsub, .inr ⟨current, hc.mono hsub, hok⟩⟩

end

end Mono

/-! ### The helpers -/

section Helpers

variable {env : Env} {caller : Caller} {T fieldPath : String} {evs : Hist} {idOrName : String}
  {r : Resource} {u : Unit} {rules : List DependentRequiredEntry}

/-- A tenant that was returned was resolved. -/
theorem resolved_of_runs (h : Runs (resolveTenantID idOrName).run evs (.ok T)) :
    Resolved idOrName T evs := by
  rw [resolveTenantID] at h
  split at h
  · cases h
  · split at h
    · rename_i hu
      obtain ⟨-, rfl⟩ := runs_pure_ok.mp h
      exact .inl ⟨hu, rfl⟩
    · rename_i hu
      obtain ⟨e1, e2, tn, rfl, htn, hret⟩ := runs_bind_ok h
      obtain ⟨s, rfl⟩ := runs_fetch.mp htn
      obtain ⟨rfl, rfl⟩ := runs_pure_ok.mp hret
      exact .inr ⟨by simpa using hu, tn, s, by simp, rfl⟩

/-- A guard that returns was passed. -/
theorem guarded_of_runs (h : Runs (guardCheck env caller .write r none).run evs (.ok u)) :
    Guarded env caller r evs := by
  obtain ⟨e1, e2, _, rfl, hacc, hk⟩ := runs_bind_ok h
  refine ⟨(runs_ofExcept.mp hacc).2, fun ha => ?_⟩
  rw [if_pos ha] at hk
  obtain ⟨e3, e4, locks, rfl, hl, hc⟩ := runs_bind_ok hk
  obtain ⟨s, rfl⟩ := runs_fetch.mp hl
  exact ⟨locks, s, by simp, (runs_ofExcept.mp hc).2⟩

/-- With locks at hand, the guard asks the store for nothing. -/
theorem guardCheck_of_runs {locks : List TenantFieldLock}
    (h : Runs (guardCheck env caller .write r (some locks)).run evs (.ok u)) :
    accessGuards caller .write r = .ok () ∧
      (fieldLocksApply caller .write r = true → checkFieldLocks env r locks = .ok ()) := by
  obtain ⟨e1, e2, _, rfl, hacc, hk⟩ := runs_bind_ok h
  refine ⟨(runs_ofExcept.mp hacc).2, fun ha => ?_⟩
  rw [if_pos ha] at hk
  exact (runs_ofExcept.mp hk).2

/-- So was a tenant with a check of access. -/
theorem resolved_of_runs_withAccess {action : Action}
    (h : Runs (resolveTenantWithAccess env caller idOrName action).run evs (.ok T)) :
    Resolved idOrName T evs := by
  obtain ⟨e1, e2, T', rfl, hT, hk⟩ := runs_bind_ok h
  obtain ⟨e3, e4, _, rfl, -, hret⟩ := runs_bind_ok hk
  obtain ⟨-, rfl⟩ := runs_pure_ok.mp hret
  exact (resolved_of_runs hT).mono (List.sublist_append_left _ _)

/-- A validation that returns has read the fields. -/
theorem validated_of_runs {value : Option TypedValue}
    (h : Runs (validateField env T fieldPath value).run evs (.ok u)) :
    Validated env T fieldPath value evs := by
  intro hv
  rw [validateField, if_pos hv] at h
  obtain ⟨e1, e2, sv, rfl, hsv, hc⟩ := runs_bind_ok h
  obtain ⟨s, rfl⟩ := runs_fetch.mp hsv
  exact ⟨sv, s, by simp, (runs_ofExcept.mp hc).2⟩

/-- Types that are returned were read. -/
theorem typesRead_of_runs {ε : Type} {wrap : Status → ε} {types : List (String × FieldType)}
    (h : Runs (fieldTypeMap env wrap T).run evs (.ok types)) :
    TypesRead env T types evs := by
  rw [fieldTypeMap] at h
  split at h
  · rename_i hv
    obtain ⟨e1, e2, sv, rfl, hsv, hc⟩ := runs_bind_ok h
    obtain ⟨s, rfl⟩ := runs_fetch.mp hsv
    exact .inr ⟨hv, sv, s, by simp, mapError_eq_ok.mp (runs_ofExcept.mp hc).2⟩
  · rename_i hv
    exact .inl ⟨by simpa using hv, (runs_pure_ok.mp h).2.symm⟩

/-- Rules that are returned were read. -/
theorem rulesRead_of_runs (h : Runs (fetchDependentRequiredRules env T).run evs (.ok rules)) :
    RulesRead env T rules evs := by
  rw [fetchDependentRequiredRules] at h
  split at h
  · rename_i hv
    obtain ⟨e1, e2, sv, rfl, hsv, hret⟩ := runs_bind_ok h
    obtain ⟨s, rfl⟩ := runs_fetch.mp hsv
    exact .inr ⟨hv, sv, s, by simp, (runs_pure_ok.mp hret).2.symm⟩
  · rename_i hv
    exact .inl ⟨by simpa using hv, (runs_pure_ok.mp h).2.symm⟩

/-- So were the rules of CEL. -/
theorem celRead_of_runs {cel : Option CelArtifacts}
    (h : Runs (fetchCelArtifactsForTenant env T).run evs (.ok cel)) : CelRead env T cel evs := by
  rw [fetchCelArtifactsForTenant] at h
  split at h
  · rename_i hv
    obtain ⟨e1, e2, sv, rfl, hsv, h2⟩ := runs_bind_ok h
    obtain ⟨s, rfl⟩ := runs_fetch.mp hsv
    refine .inr ⟨hv, sv, s, by simp, ?_⟩
    split at h2
    · rename_i hnone
      exact .inl ⟨hnone, (runs_pure_ok.mp h2).2.symm⟩
    · obtain ⟨e3, e4, bound, rfl, hbound, h4⟩ := runs_bind_ok h2
      obtain ⟨e5, e6, rules, rfl, hrules, h6⟩ := runs_bind_ok h4
      obtain ⟨e7, e8, types, rfl, htypes, hret⟩ := runs_bind_ok h6
      obtain ⟨s', rfl⟩ := runs_fetch.mp hbound
      refine .inr ⟨bound, s', ⟨rules, types⟩, by simp, ?_, ?_, (runs_pure_ok.mp hret).2.symm⟩
      · exact mapError_eq_ok.mp (runs_ofExcept.mp hrules).2
      · exact (typesRead_of_runs htypes).mono (sub_skip2 (sub_skip sub_here))
  · rename_i hv
    exact .inl ⟨by simpa using hv, (runs_pure_ok.mp h).2.symm⟩

/-- An enforcement that returns has read the snapshot. -/
theorem enforced_of_runs {v : ℤ}
    (h : Runs (enforceDependentRequiredInTx env T v rules).run evs (.ok u)) :
    Enforced env T v rules evs := by
  obtain ⟨e1, e2, cel, rfl, hcel, h2⟩ := runs_bind_ok h
  refine ⟨cel, (celRead_of_runs hcel).mono sub_here, ?_⟩
  rw [enforceCrossFieldInTx] at h2
  split at h2
  · rename_i hnone
    exact .inl ⟨hnone.1, Option.isNone_iff_eq_none.mp hnone.2⟩
  · obtain ⟨e3, e4, rows, rfl, hrows, h4⟩ := runs_bind_ok h2
    obtain ⟨e5, e6, _, rfl, hdep, h6⟩ := runs_bind_ok h4
    obtain ⟨s, rfl⟩ := runs_fetch.mp hrows
    refine .inr ⟨rows, s, by simp, (runs_ofExcept.mp hdep).2, ?_⟩
    rintro art rfl
    obtain ⟨e7, e8, tn, rfl, htn, hc⟩ := runs_bind_ok h6
    obtain ⟨s', rfl⟩ := runs_fetch.mp htn
    exact ⟨tn, s', by simp, (runs_ofExcept.mp hc).2⟩

/-- Fields that are returned were read in one version. -/
theorem schemaRead_of_runs {fields : List SchemaField}
    (h : Runs (getSchemaFieldSets T).run evs (.ok fields)) : SchemaRead T fields evs := by
  obtain ⟨e1, e2, tn, rfl, htn, hk⟩ := runs_bind_ok h
  obtain ⟨e3, e4, sv, rfl, hsv, hf⟩ := runs_bind_ok hk
  obtain ⟨s1, rfl⟩ := runs_fetch.mp htn
  obtain ⟨s2, rfl⟩ := runs_fetch.mp hsv
  obtain ⟨s3, rfl⟩ := runs_fetch.mp hf
  exact ⟨tn, sv, s1, s2, s3, by simp, by simp, by simp⟩

/-- The latest version and then the current value, as two parts of a trace. -/
theorem currentRead_of_runs {latest : ℤ} {current : String} {evs1 evs2 h : Hist}
    (h1 : Runs (resolveVersion T).run evs1 (.ok latest))
    (h2 : Runs (getCurrentValue T fieldPath latest).run evs2 (.ok current))
    (hsub : evs1 ++ evs2 <+ h) : CurrentRead T fieldPath current h := by
  obtain ⟨r, s, rfl, hv⟩ := runs_ask.mp h1
  rw [getCurrentValue] at h2
  split at h2
  · rename_i h0
    obtain ⟨rfl, rfl⟩ := runs_pure_ok.mp h2
    exact ⟨r, s, latest, hv, .inl ⟨h0, rfl, hsub⟩⟩
  · rename_i h0
    obtain ⟨r', s', rfl, hc⟩ := runs_ask.mp h2
    cases hc
    exact ⟨r, s, latest, hv, .inr ⟨h0, r', s', rfl, hsub⟩⟩

end Helpers

end Decree
