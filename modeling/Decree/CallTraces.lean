import Decree.Attempts
import Decree.Failures
import Decree.ReadTraces

/-!
# What Each Call Has Done by Its Commit

For every call of the two services, what its history says once the call is at its commit or
has returned: the checks it has passed, the reads they rest on, and the transaction it is
in. This is the only module that goes through the programs of the calls.

## Main results

* `Call.cleared`: a call that has passed its checks.
* `Call.late`, `Call.committing`: a call at its commit, or past it.
* `Call.publishing`: a call at its publish.
-/

open Interleave List

namespace Decree

/-! ### Prepared writes -/

def Call.caller : Call → Caller
  | setField caller _ | setFields caller _ | rollbackToVersion caller _
  | importConfig caller _ | lockField caller _ | unlockField caller _
  | createTenant caller _ | getConfig caller _ | getField caller _ | getFields caller _
  | diffVersions caller _ | exportConfig caller _ | subscribe caller _ _ => caller

/-- The tenant that a call names; a call that creates one names none. -/
def Call.tenantId : Call → Option String
  | setField _ req => some req.tenantId
  | setFields _ req => some req.tenantId
  | rollbackToVersion _ req => some req.tenantId
  | importConfig _ req => some req.tenantId
  | lockField _ req => some req.tenantId
  | unlockField _ req => some req.tenantId
  | createTenant _ _ => none
  | getConfig _ req => some req.tenantId
  | getField _ req => some req.tenantId
  | getFields _ req => some req.tenantId
  | diffVersions _ req => some req.tenantId
  | exportConfig _ req => some req.tenantId
  | subscribe _ req _ => some req.tenantId

/-- The tenant and the idempotency key of a call that takes one. -/
def Call.idempotency : Call → Option (String × String)
  | setField _ req => some (req.tenantId, req.idempotencyKey)
  | setFields _ req => some (req.tenantId, req.idempotencyKey)
  | _ => none

/-- The error with which a config write reports that its version was taken. -/
def Call.conflict : Call → Option Status
  | setField _ _ | setFields _ _ =>
    some ⟨.aborted, "concurrent write conflict; retry with the latest checksum"⟩
  | rollbackToVersion _ _ => some ⟨.aborted, "concurrent write conflict; retry the rollback"⟩
  | importConfig _ _ => some ⟨.aborted, "concurrent write conflict; retry the import"⟩
  | _ => none

/-- Every row of the write has passed the guards and the write attributes. -/
structure Prepared (env : Env) (caller : Caller) (w : VersionWrite) (h : Hist) : Prop where
  guarded : ∀ r ∈ w.rows, Guarded env caller ⟨w.tenantID, r.fieldPath, derefString r.value⟩ h
  attributed : ∀ r ∈ w.rows, Attributed w.tenantID r.fieldPath h

/-- The call has no idempotency key to claim, or its claim was not refused. -/
def Admits (env : Env) (T key : String) (h : Hist) : Prop :=
  key = "" ∨ env.hasIdempotencyCache = false ∨
    ∃ (r : Except StoreErr Bool) (s : State),
      (⟨.claim (T ++ ":" ++ key), r, s⟩ : Event Op.Resp State) ∈ h ∧ r ≠ .ok false

/-- Where the rows of a write come from, call by call. -/
inductive Source (env : Env) : Call → VersionWrite → Hist → Prop
  | setField {caller : Caller} {req : SetFieldRequest} {T : String} {h : Hist}
      (hres : Resolved req.tenantId T h)
      (hval : Validated env T req.fieldPath req.value h)
      (hkey : Admits env T req.idempotencyKey h) :
      Source env (.setField caller req) (setFieldWrite env caller req T) h
  | setFields {caller : Caller} {req : SetFieldsRequest} {T : String} {h : Hist}
      (hres : Resolved req.tenantId T h)
      (hval : ∀ u ∈ req.updates, Validated env T u.fieldPath u.value h)
      (hkey : Admits env T req.idempotencyKey h) :
      Source env (.setFields caller req) (setFieldsWrite env caller req T) h
  | rollbackToVersion {caller : Caller} {req : RollbackRequest} {T : String} {h : Hist}
      {rows : List ConfigValue} {s : State} {types : List (String × FieldType)}
      (hres : Resolved req.tenantId T h)
      (hrows : readEvent false (.fullConfigAtVersion T req.version) (.ok rows) s ∈ h)
      (htypes : TypesRead env T types h)
      (hval : ∀ r ∈ rows, Validated env T r.fieldPath
        (stringToTypedValue r.value (types.lookup r.fieldPath)) h) :
      Source env (.rollbackToVersion caller req) (rollbackWrite caller req T rows) h
  | importConfig {caller : Caller} {req : ImportRequest} {T : String} {h : Hist}
      {types : List (String × FieldType)} {parsed : ParsedImport}
      {values : List ConfigValueImport}
      (hres : Resolved req.tenantId T h)
      (htypes : TypesRead env T types h)
      (hparsed : dispatchImport env req.yamlContent (types.lookup ·) = .ok parsed)
      (hval : ∀ v ∈ parsed.values, Validated env T v.fieldPath
        (stringToTypedValue (some v.value) (types.lookup v.fieldPath)) h)
      (hsub : values <+ parsed.values)
      (hmode : req.mode = .replace → values = parsed.values) :
      Source env (.importConfig caller req)
        (importWrite env caller req T parsed.description values) h

variable {env : Env} {call : Call} {w : VersionWrite} {v : ℤ}

variable {h h' : Hist} {k : Op.Resp .commit → Prog Op.Resp (Except Status Reply)}
  {req : CreateTenantRequest}

/-- A write is for the tenant that the call names. -/
theorem Source.resolved (hs : Source env call w h) :
    ∃ idOrName, call.tenantId = some idOrName ∧ Resolved idOrName w.tenantID h := by
  cases hs with
  | setField hres | setFields hres | rollbackToVersion hres | importConfig hres =>
    exact ⟨_, rfl, hres⟩

/-- A write comes after its key was admitted. -/
theorem Source.admits (hs : Source env call w h) {idOrName key : String}
    (hkey : call.idempotency = some (idOrName, key)) : Admits env w.tenantID key h := by
  cases hs with
  | setField hres hval hadm | setFields hres hval hadm =>
    cases hkey
    exact hadm
  | rollbackToVersion | importConfig => cases hkey

section Mono

variable {env : Env} {caller : Caller} {w : VersionWrite} {h h' : Hist}

theorem Prepared.mono (hsub : h <+ h') (hp : Prepared env caller w h) : Prepared env caller w h' :=
  ⟨fun r hr => (hp.guarded r hr).mono hsub, fun r hr => (hp.attributed r hr).mono hsub⟩

theorem Admits.mono {T key : String} (hsub : h <+ h') (hp : Admits env T key h) :
    Admits env T key h' := by
  rcases hp with hp | hp | ⟨r, s, hm, hr⟩
  · exact .inl hp
  · exact .inr (.inl hp)
  · exact .inr (.inr ⟨r, s, hsub.subset hm, hr⟩)

theorem Source.mono (hsub : h <+ h') (hp : Source env call w h) :
    Source env call w h' := by
  cases hp with
  | setField hres hval hkey => exact .setField (hres.mono hsub) (hval.mono hsub) (hkey.mono hsub)
  | setFields hres hval hkey =>
    exact .setFields (hres.mono hsub) (fun u hu => (hval u hu).mono hsub) (hkey.mono hsub)
  | rollbackToVersion hres hrows htypes hval =>
    exact .rollbackToVersion (hres.mono hsub) (hsub.subset hrows) (htypes.mono hsub)
      fun r hr => (hval r hr).mono hsub
  | importConfig hres htypes hparsed hval hvals hmode =>
    exact .importConfig (hres.mono hsub) (htypes.mono hsub) hparsed
      (fun v hv => (hval v hv).mono hsub) hvals hmode

end Mono

/-- What the transaction of a config write does once its rows are in place: it audits the
version and enforces the cross-field rules, in either order, with the `dependentRequired` rules
read before. -/
def Finishes (env : Env) (T : String) (audit : ℤ → List AuditEntry)
    (rest : ℤ → Proc TxErr Unit) (h : Hist) : Prop :=
  ∃ rules, RulesRead env T rules h ∧
    (rest = enforceThenAudit env T rules audit ∨ rest = auditThenEnforce env T rules audit)

section Finishing

variable {env : Env} {T : String} {audit : ℤ → List AuditEntry} {rest : ℤ → Proc TxErr Unit}
  {h h' evs : Hist}

section

variable (hp : Finishes env T audit rest h)

include hp

theorem Finishes.mono (hsub : h <+ h') : Finishes env T audit rest h' := by
  obtain ⟨rules, hrules, hrest⟩ := hp
  exact ⟨rules, hrules.mono hsub, hrest⟩

/-- The rest of a transaction moves no version. -/
theorem Finishes.quiet (v : ℤ) : Quiet (rest v) := by
  obtain ⟨rules, -, rfl | rfl⟩ := hp
  · exact .bind_run (reading_enforceDependentRequiredInTx ..).quiet fun _ => quiet_insertAudit _
  · exact .bind_run (quiet_insertAudit _) fun _ => (reading_enforceDependentRequiredInTx ..).quiet

/-- A transaction that has finished has enforced the cross-field rules. -/
theorem Finishes.enforced (hrun : Runs (rest v).run evs (.ok ())) :
    ∃ rules, RulesRead env T rules h ∧ Enforced env T v rules evs := by
  obtain ⟨rules, hrules, rfl | rfl⟩ := hp
  · obtain ⟨e1, e2, _, rfl, henf, -⟩ := runs_bind_ok hrun
    exact ⟨rules, hrules, (enforced_of_runs henf).mono sub_here⟩
  · obtain ⟨e1, e2, _, rfl, -, henf⟩ := runs_bind_ok hrun
    exact ⟨rules, hrules, (enforced_of_runs henf).mono (sub_skip (.refl _))⟩

/-- The rest of a transaction inserts the entries. -/
theorem Finishes.inserted (hrun : Runs (rest v).run evs (.ok ())) :
    insertedAudit evs = audit v := by
  obtain ⟨rules, hrules, rfl | rfl⟩ := hp
  · obtain ⟨e1, e2, _, rfl, henf, haud⟩ := runs_bind_ok hrun
    rw [insertedAudit_append, (reading_enforceDependentRequiredInTx ..).inserted henf,
      insertAudit_inserted haud, nil_append]
  · obtain ⟨e1, e2, _, rfl, haud, henf⟩ := runs_bind_ok hrun
    rw [insertedAudit_append, (reading_enforceDependentRequiredInTx ..).inserted henf,
      insertAudit_inserted haud, append_nil]

end

end Finishing

/-- How a call writes a new value to the audit log: only an import keeps the empty one. -/
def Call.recordedValue : Call → String → Option String
  | importConfig _ _, value => some value
  | _, value => ptrString value

/-- The audit entry of a row of a version: the new value and the one that was taken for the
current one, both redacted by the fields. -/
structure EntryOf (call : Call) (fields : List SchemaField) (T : String) (old : String) (v : ℤ)
    (r : ConfigValue) (e : AuditEntry) : Prop where
  tenant : e.tenantID = T
  path : e.fieldPath = some r.fieldPath
  oldValue : e.oldValue = ptrString (redactIfSensitive (isSensitive fields r.fieldPath) old)
  newValue : e.newValue = call.recordedValue
    (redactIfSensitive (isSensitive fields r.fieldPath) (derefString r.value))
  version : e.configVersion = some v

/-- What a config write audits: an entry for each of its rows, with the current value as it
was read, and a rollback a single one. -/
inductive Audits (call : Call) (w : VersionWrite) (h : Hist) (audit : ℤ → List AuditEntry) : Prop
  | fields {fields : List SchemaField} (hfields : SchemaRead w.tenantID fields h)
      (hentries : ∀ v, List.Forall₂ (fun r e => ∃ old, CurrentRead w.tenantID r.fieldPath old h ∧
        EntryOf call fields w.tenantID old v r e) w.rows (audit v))
  | rollback {caller : Caller} {req : RollbackRequest}
      (hcall : call = .rollbackToVersion caller req)
      (hentries : ∀ v, audit v = [rollbackAudit w.tenantID (getActor caller) req.version v])

theorem Audits.mono {audit : ℤ → List AuditEntry} (hsub : h <+ h') (hp : Audits call w h audit) :
    Audits call w h' audit := by
  cases hp with
  | fields hfields hentries =>
    refine .fields (hfields.mono hsub) fun v => (hentries v).imp ?_
    rintro r e ⟨old, hold, he⟩
    exact ⟨old, hold.mono hsub, he⟩
  | rollback hcall hentries => exact .rollback hcall hentries

/-- The call has prepared a config write and is at its commit, or past it. -/
def Writing (env : Env) (call : Call) (h : Hist)
    (q : Prog Op.Resp (Except Status Reply)) : Prop :=
  ∃ (w : VersionWrite) (audit : ℤ → List AuditEntry) (rest : ℤ → Proc TxErr Unit)
    (pre post : Hist), h = pre ++ post ∧ Finishes env w.tenantID audit rest pre ∧ NoCommit pre ∧
      Prepared env call.caller w pre ∧ Source env call w pre ∧ Audits call w pre audit ∧
      AtCommit (versionTx w rest) post q .version

/-- What a config write publishes: a change for each of its rows, redacted by the fields that
the call read. A rollback publishes nothing. -/
inductive Announces (call : Call) (w : VersionWrite) (h : Hist) :
    Option (List FieldChange) → Prop
  | changes {fields : List SchemaField} {chs : List FieldChange}
      (hfields : SchemaRead w.tenantID fields h)
      (hrows : List.Forall₂ (fun r ch => ∃ old, ch =
        redactChange fields ⟨r.fieldPath, old, derefString r.value⟩) w.rows chs) :
      Announces call w h (some chs)
  | nothing {caller : Caller} {req : RollbackRequest}
      (hcall : call = .rollbackToVersion caller req) : Announces call w h none

/-- How a config write reports the errors of its transaction: only the calls that take an
idempotency key pass a status on. -/
def Reports (call : Call) (onError : TxErr → Status) : Prop :=
  ∃ message failed, call.conflict = some ⟨.aborted, message⟩ ∧
    onError = txStatus message failed call.idempotency.isSome

/-- The call has prepared this config write and is in its last part. -/
def Ready (env : Env) (call : Call) (w : VersionWrite) (pre post : Hist)
    (q : Prog Op.Resp (Except Status Reply)) : Prop :=
  ∃ (audit : ℤ → List AuditEntry) (rest : ℤ → Proc TxErr Unit) (onError : TxErr → Status)
    (changes : Option (List FieldChange)), Finishes env w.tenantID audit rest pre ∧
      NoCommit pre ∧ Prepared env call.caller w pre ∧ Source env call w pre ∧
      Audits call w pre audit ∧ Announces call w pre changes ∧ Reports call onError ∧
      After (commitWrite w rest onError changes).run post q

/-- The call has prepared a config write and is in its last part. -/
def Preparing (env : Env) (call : Call) (h : Hist)
    (q : Prog Op.Resp (Except Status Reply)) : Prop :=
  ∃ w pre post, h = pre ++ post ∧ Ready env call w pre post q

variable {q : Prog Op.Resp (Except Status Reply)}

/-- A call that is late is at its write. -/
theorem Preparing.writing (hp : Preparing env call h q) (hq : Late Op.IsCommit q) :
    Writing env call h q := by
  obtain ⟨w, pre, post, hh, audit, rest, onError, changes, hfin, hpre, hprep, hsrc, haud, -, -,
    hafter⟩ := hp
  exact ⟨w, audit, rest, pre, post, hh, hfin, hpre, hprep, hsrc, haud,
    commitWrite_late hfin.quiet hq hafter⟩

/-- The call was answered as a repetition: its key was taken, and it committed nothing. -/
def Repeated (idOrName key : String) (h : Hist) : Prop :=
  ∃ T s pre, Resolved idOrName T pre ∧ NoCommit h ∧
    h = pre ++ [⟨.claim (T ++ ":" ++ key), (.ok false : Except StoreErr Bool), s⟩]

/-- How a call that has passed its checks has come to where it is: it was answered as a
repetition, is in the last part of its config write or had nothing to write, or it is a call of
another kind. -/
inductive Clears (env : Env) (call : Call) (h : Hist)
    (q : Prog Op.Resp (Except Status Reply)) : Prop
  | repeated {idOrName key : String} (hq : q = .ret (.ok .duplicate))
      (hkey : call.idempotency = some (idOrName, key)) (hne : key ≠ "")
      (hrep : Repeated idOrName key h)
  | preparing (hp : Preparing env call h q)
  | unchanged (hno : NoCommit h) (hq : q = .ret (.error noChanges))
  | other (hcall : call.conflict = none)

/-- The call is at its commit or its publish, or has returned what no check returns. -/
def Cleared {β : Type} (q : Prog Op.Resp (Except Status β)) : Prop :=
  Late Op.Concludes q ∨ ∃ e : Status, ¬ e.Usual ∧ q = .ret (.error e)

/-! ### SetField -/

section Calls

variable {env : Env} {caller : Caller} {T : String} {h : Hist}
  {q : Prog Op.Resp (Except Status Reply)} {α β : Type} {evs evs₁ evs₂ : Hist}
  {key idOrName : String} {fields : List SchemaField} {changes : List FieldChange} {latest : ℤ}
  {values kept : List ConfigValueImport} {write : String → Proc TxErr Unit}

/-- A call that has come late is past a quiet part. -/
theorem Quiet.late_bind {ε : Type} {x : Proc ε α} {f : α → Proc ε β} (hx : Quiet x)
    {q : Prog Op.Resp (Except ε β)} (hq : Late Op.Concludes q) (h : After (x >>= f).run evs q) :
    ∃ e1 e2 a, evs = e1 ++ e2 ∧ Runs x.run e1 (.ok a) ∧ NoCommit e1 ∧ After (f a).run e2 q := by
  have hsilent := hx.mono fun _ => Op.Concludes.movesVersion
  obtain ⟨e1, e2, a, rfl, hx', hf⟩ := hsilent.after_bind_late hq h
  exact ⟨e1, e2, a, rfl, hx', hx.noCommit_of_runs hx', hf⟩

/-- A call that has come through is past a check. -/
theorem Checking.cleared_bind {x : Proc Status α} {f : α → Proc Status β} (hx : Checking x)
    {q : Prog Op.Resp (Except Status β)} (hq : Cleared q) (h : After (x >>= f).run evs q) :
    ∃ e1 e2 a, evs = e1 ++ e2 ∧ Runs x.run e1 (.ok a) ∧ NoCommit e1 ∧ After (f a).run e2 q := by
  rcases hq with hq | ⟨e, he, rfl⟩
  · exact hx.quiet.late_bind hq h
  · obtain ⟨e1, e2, a, rfl, ha, hf⟩ := hx.usual.of_bind_error he h
    exact ⟨e1, e2, a, rfl, ha, hx.quiet.noCommit_of_runs ha, hf⟩

/-- A claim that answers yes admits the key. -/
theorem admits_of_runs (hr : Runs (claimKey env T key).run evs (.ok true)) :
    Admits env T key evs := by
  rw [claimKey] at hr
  split at hr
  · obtain ⟨r, s, rfl, hb⟩ := runs_ask.mp hr
    refine .inr (.inr ⟨r, s, by simp, ?_⟩)
    rintro rfl
    cases hb
  · rename_i hk
    simp only [not_and_or, not_not, Bool.not_eq_true] at hk
    rcases hk with hk | hk
    · exact .inl hk
    · exact .inr (.inl hk)

/-- A claim that answers no is one of a key in use. -/
theorem refused_of_runs (hr : Runs (claimKey env T key).run evs (.ok false)) :
    key ≠ "" ∧ ∃ s, evs = [⟨.claim (T ++ ":" ++ key), (.ok false : Except StoreErr Bool), s⟩] := by
  rw [claimKey] at hr
  split at hr
  · rename_i hkey
    obtain ⟨r, s, rfl, hb⟩ := runs_ask.mp hr
    cases r with
    | error e => cases hb
    | ok b =>
      obtain rfl : b = false := Except.ok.inj hb
      exact ⟨hkey.1, s, rfl⟩
  · cases (runs_pure_ok.mp hr).2

/-- A call with a key: its claim was refused, or it has been admitted. -/
theorem keyed_cleared {x : Proc Status Reply} (hq : Cleared q)
    (h0 : After (claimKey env T key >>= fun first =>
      if first then x else pure .duplicate).run h q) :
    (q = .ret (.ok .duplicate) ∧ key ≠ "" ∧
      ∃ s, h = [⟨.claim (T ++ ":" ++ key), (.ok false : Except StoreErr Bool), s⟩]) ∨
      ∃ e1 e2, h = e1 ++ e2 ∧ NoCommit e1 ∧ Admits env T key e1 ∧ After x.run e2 q := by
  obtain ⟨e1, e2, first, rfl, hkey, n1, h1⟩ := checking_claimKey.cleared_bind hq h0
  cases first with
  | false =>
    obtain ⟨hne, s, rfl⟩ := refused_of_runs hkey
    have hdup : After (.ret (.ok .duplicate)) e2 q := h1
    obtain ⟨rfl, rfl⟩ := after_ret.mp hdup
    exact .inl ⟨rfl, hne, s, rfl⟩
  | true => exact .inr ⟨e1, e2, rfl, n1, admits_of_runs hkey, h1⟩

variable {R : α → β → Prop} {l' : List β} {l : List α} {p : Hist}

/-- `SetField` behind the claim of its key. -/
theorem applySetField_cleared {req : SetFieldRequest} (hpath : req.fieldPath ≠ "")
    (hp : NoCommit p) (hres : Resolved req.tenantId T p)
    (hguard : Guarded env caller ⟨T, req.fieldPath, derefString (typedValueToString req.value)⟩ p)
    (hkey : Admits env T req.idempotencyKey p) (hq : Cleared q)
    (h0 : After (applySetField env caller req T).run h q) :
    Preparing env (.setField caller req) (p ++ h) q := by
  obtain ⟨e1, r1, _, rfl, hval, n1, h1⟩ := checking_validateField.cleared_bind hq h0
  obtain ⟨e2, r2, latest, rfl, hlat, n2, h2⟩ := checking_resolveVersion.cleared_bind hq h1
  obtain ⟨e3, r3, old, rfl, hold, n3, h3⟩ := checking_getCurrentValue.cleared_bind hq h2
  obtain ⟨e4, r4, fields, rfl, hfields, n4, h4⟩ := checking_getSchemaFieldSets.cleared_bind hq h3
  obtain ⟨e5, r5, _, rfl, hattr, n5, h5⟩ :=
    (checking_ofExcept fun _ => usual_checkWriteAttributes).cleared_bind hq h4
  obtain ⟨e6, r6, dep, rfl, hdep, n6, h6⟩ := checking_fetchDependentRequiredRules.cleared_bind hq h5
  let pre : Hist := p ++ (e1 ++ (e2 ++ (e3 ++ (e4 ++ (e5 ++ e6)))))
  have hfields' : SchemaRead T fields pre :=
    (schemaRead_of_runs hfields).mono (sub_skip2 (sub_skip2 sub_here))
  have hold' : CurrentRead T req.fieldPath old pre :=
    currentRead_of_runs hlat hold (sub_skip2 ((Sublist.refl e2).append sub_here))
  refine ⟨_, pre, r6, by simp [pre], _, _, _, _, ⟨dep, (rulesRead_of_runs hdep).mono
      (sub_skip2 (sub_skip2 (sub_skip2 (.refl _)))), .inl rfl⟩,
    by simp [pre, hp, n1, n2, n3, n4, n5, n6], ⟨?_, ?_⟩,
    .setField (hres.mono sub_here) ((validated_of_runs hval).mono (sub_skip sub_here))
      (hkey.mono sub_here),
    .fields hfields' fun v => .cons ⟨old, hold', rfl, ptrString_of_ne hpath, rfl, rfl, rfl⟩ .nil,
    .changes hfields' (.cons ⟨old, rfl⟩ .nil), ⟨_, _, rfl, rfl⟩, h6⟩
  · intro r hr
    obtain rfl := mem_singleton.mp hr
    exact hguard.mono sub_here
  · intro r hr
    obtain rfl := mem_singleton.mp hr
    exact ⟨fields, hfields', .inr ⟨old, hold', (runs_ofExcept.mp hattr).2⟩⟩

/-- A `SetField` that has come through its checks. -/
theorem setField_cleared {req : SetFieldRequest} (hq : Cleared q)
    (h0 : After (setField env caller req).run h q) : Clears env (.setField caller req) h q := by
  obtain ⟨e1, r1, _, rfl, -, n1, h1⟩ := checking_mustHaveClaims.cleared_bind hq h0
  obtain ⟨e2, r2, _, rfl, hpath, n2, h2⟩ :=
    (checking_require (usual_invalidArgument _)).cleared_bind hq h1
  obtain ⟨e3, r3, T, rfl, hres, n3, h3⟩ := checking_resolveTenantID.cleared_bind hq h2
  obtain ⟨e4, r4, _, rfl, hg, n4, h4⟩ := checking_guardCheck.cleared_bind hq h3
  have hres' := resolved_of_runs hres
  rcases keyed_cleared hq h4 with ⟨rfl, hne, s, rfl⟩ | ⟨e5, r5, rfl, n5, hkey, h5⟩
  · exact .repeated rfl rfl hne ⟨T, s, e1 ++ (e2 ++ (e3 ++ e4)),
      hres'.mono (sub_skip2 sub_here), by simp [n1, n2, n3, n4], by simp⟩
  · have hp := applySetField_cleared (p := e1 ++ (e2 ++ (e3 ++ (e4 ++ e5))))
      (runs_require.mp hpath).2 (by simp [n1, n2, n3, n4, n5])
      (hres'.mono (sub_skip2 sub_here))
      ((guarded_of_runs hg).mono (sub_skip2 (sub_skip sub_here)))
      (hkey.mono (sub_skip2 (sub_skip2 (.refl _)))) hq h5
    exact .preparing (by simpa using hp)

/-! ### SetFields -/

/-- Where all changes pass, each does. -/
theorem checkAllWriteAttributes_ok (hok : checkAllWriteAttributes fields changes = .ok ())
    {ch : FieldChange} (hch : ch ∈ changes) :
    checkWriteAttributes fields ch.fieldPath ch.oldValue = .ok () := by
  induction changes with
  | nil => exact absurd hch not_mem_nil
  | cons c changes ih =>
    rw [checkAllWriteAttributes] at hok
    split at hok
    · cases hok
    · rename_i hc
      rcases mem_cons.mp hch with rfl | hch
      · exact hc
      · exact ih hok hch

/-- A relation of two lists, carried to their zip. -/
theorem forall₂_zipWith {γ : Type} {S : α → γ → Prop} {f : α → β → γ} (h : Forall₂ R l l')
    (hS : ∀ a b, R a b → S a (f a b)) : Forall₂ S l (zipWith f l l') := by
  induction h with
  | nil => exact .nil
  | cons hab _ ih => exact .cons (hS _ _ hab) ih

/-- An element has one that it is related to. -/
theorem exists_of_forall₂ (h : Forall₂ R l l') {a : α} (ha : a ∈ l) : ∃ b ∈ l', R a b := by
  induction h with
  | nil => exact absurd ha not_mem_nil
  | @cons x y l l' hxy _ ih =>
    rcases mem_cons.mp ha with rfl | ha
    · exact ⟨y, mem_cons_self, hxy⟩
    · obtain ⟨b, hb, hab⟩ := ih ha
      exact ⟨b, mem_cons_of_mem _ hb, hab⟩

/-- The changes that a call collects: of each element, the current value that was read. -/
theorem changes_of_collect {γ : Type} {xs : List γ} {path new : γ → String}
    (hlat : Runs (resolveVersion T).run evs₁ (.ok latest))
    (hcol : Runs (collect (fun x => readChange T latest (path x) (new x)) xs).run evs₂
      (.ok changes)) (hsub : evs₁ ++ evs₂ <+ h) :
    Forall₂ (fun x ch => x ∈ xs ∧ ∃ old, CurrentRead T (path x) old h ∧
      ch = ⟨path x, old, new x⟩) xs changes := by
  refine (forall₂_and_left _ _).mpr ⟨fun x hx => hx, (forall₂_of_runs_collect hcol).imp ?_⟩
  rintro x ch ⟨es, hes, hrun⟩
  obtain ⟨e1, e2, old, rfl, hold, hret⟩ := runs_bind_ok hrun
  obtain ⟨rfl, rfl⟩ := runs_pure_ok.mp hret
  rw [append_nil] at hes
  refine ⟨old, ?_, rfl⟩
  exact currentRead_of_runs hlat hold (((Sublist.refl evs₁).append hes).trans hsub)

section Changes

variable {γ : Type} {xs : List γ} {path new : γ → String} {row : γ → ConfigValue}
  {changes : List FieldChange} {fields : List SchemaField}
  (hchs : List.Forall₂ (fun x ch => x ∈ xs ∧ ∃ old, CurrentRead T (path x) old h ∧
    ch = ⟨path x, old, new x⟩) xs changes)

include hchs

/-- The attributes of every changed field were checked. -/
theorem attributed_of_changes (hfields : SchemaRead T fields h)
    (hok : checkAllWriteAttributes fields changes = .ok ()) {x : γ} (hx : x ∈ xs) :
    Attributed T (path x) h := by
  obtain ⟨ch, hch, -, old, hold, rfl⟩ := exists_of_forall₂ hchs hx
  exact ⟨fields, hfields, .inr ⟨old, hold, checkAllWriteAttributes_ok hok hch⟩⟩

/-- What is announced are the rows, redacted. -/
theorem announced_of_changes (hpath : ∀ x, path x = (row x).fieldPath)
    (hnew : ∀ x, new x = derefString (row x).value) (fields : List SchemaField) :
    Forall₂ (fun r ch => ∃ old, ch =
      redactChange fields ⟨r.fieldPath, old, derefString r.value⟩) (xs.map row)
      (changes.map (redactChange fields)) := by
  refine forall₂_map_left_iff.mpr (forall₂_map_right_iff.mpr (hchs.imp ?_))
  rintro x ch ⟨-, old, -, rfl⟩
  exact ⟨old, by rw [hpath, hnew]⟩

/-- The entries are those of the rows. -/
theorem audited_of_changes {entry : γ → FieldChange → AuditEntry}
    (hpath : ∀ x, path x = (row x).fieldPath)
    (hentry : ∀ x ∈ xs, ∀ old, EntryOf call fields T old v (row x) (entry x ⟨path x, old, new x⟩)) :
    Forall₂ (fun r e => ∃ old, CurrentRead T r.fieldPath old h ∧
      EntryOf call fields T old v r e) (xs.map row) (zipWith entry xs changes) := by
  refine forall₂_map_left_iff.mpr (forall₂_zipWith hchs ?_)
  rintro x ch ⟨hx, old, hold, rfl⟩
  exact ⟨old, hpath x ▸ hold, hentry x hx old⟩

end Changes

/-- Locks that were read once serve for every field. -/
theorem guarded_of_locks {r : Resource} {locks : List TenantFieldLock} {s : State} {u : Unit}
    (hl : readEvent false (.fieldLocks r.tenantID) (.ok locks) s ∈ h)
    (hg : Runs (guardCheck env caller .write r (some locks)).run evs (.ok u)) :
    Guarded env caller r h := by
  obtain ⟨hacc, hlock⟩ := guardCheck_of_runs hg
  exact ⟨hacc, fun ha => ⟨locks, s, hl, hlock ha⟩⟩

/-- `SetFields` behind the claim of its key. -/
theorem applySetFields_cleared {req : SetFieldsRequest} (hp : NoCommit p)
    (hres : Resolved req.tenantId T p) (hkey : Admits env T req.idempotencyKey p)
    (hq : Cleared q) (h0 : After (applySetFields env caller req T).run h q) :
    Preparing env (.setFields caller req) (p ++ h) q := by
  obtain ⟨e1, r1, locks, rfl, hlocks, n1, h1⟩ :=
    (checking_fetch fun _ => usual_internal _).cleared_bind hq h0
  obtain ⟨e2, r2, _, rfl, hchk, n2, h2⟩ :=
    (checking_forEach checking_checkUpdate _).cleared_bind hq h1
  obtain ⟨e3, r3, latest, rfl, hlat, n3, h3⟩ := checking_resolveVersion.cleared_bind hq h2
  obtain ⟨e4, r4, changes, rfl, hcol, n4, h4⟩ :=
    (checking_collect (fun u => checking_readChange) _).cleared_bind hq h3
  obtain ⟨e5, r5, fields, rfl, hfields, n5, h5⟩ := checking_getSchemaFieldSets.cleared_bind hq h4
  obtain ⟨e6, r6, _, rfl, hattr, n6, h6⟩ := checking_checkAllWriteAttributes.cleared_bind hq h5
  obtain ⟨e7, r7, dep, rfl, hdep, n7, h7⟩ := checking_fetchDependentRequiredRules.cleared_bind hq h6
  obtain ⟨s, rfl⟩ := runs_fetch.mp hlocks
  let pre : Hist := p ++ ([readEvent false (.fieldLocks T) (.ok locks) s] ++
    (e2 ++ (e3 ++ (e4 ++ (e5 ++ (e6 ++ e7))))))
  have hfields' : SchemaRead T fields pre := (schemaRead_of_runs hfields).mono
    (sub_skip2 (sub_skip2 (sub_skip sub_here)))
  have hchs := changes_of_collect (h := pre) hlat hcol
    (sub_skip2 (sub_skip ((Sublist.refl e3).append sub_here)))
  refine ⟨_, pre, r7, by simp [pre], _, _, _, _, ⟨dep, (rulesRead_of_runs hdep).mono (sub_skip
      (sub_skip2 (sub_skip2 (sub_skip2 (.refl _))))), .inr rfl⟩,
    ?_, ⟨?_, ?_⟩, .setFields (hres.mono sub_here) ?_ (hkey.mono sub_here),
    .fields hfields' fun v => audited_of_changes hchs (fun _ => rfl) ?_,
    .changes hfields' (announced_of_changes hchs (fun _ => rfl) (fun _ => rfl) fields),
    ⟨_, _, rfl, rfl⟩, h7⟩
  · simp [pre, hp, n2, n3, n4, n5, n6, n7]
  · intro r hr
    obtain ⟨u, hu, rfl⟩ := mem_map.mp hr
    obtain ⟨es, -, hrun⟩ := mem_of_runs_forEach hchk hu
    obtain ⟨a1, b1, _, rfl, -, hrun⟩ := runs_bind_ok hrun
    obtain ⟨a2, b2, _, rfl, hg, -⟩ := runs_bind_ok hrun
    exact guarded_of_locks (mem_append_right _ (mem_cons_self ..)) hg
  · intro r hr
    obtain ⟨u, hu, rfl⟩ := mem_map.mp hr
    exact attributed_of_changes hchs hfields' (runs_ofExcept.mp hattr).2 hu
  · intro u hu
    obtain ⟨es, hsub, hrun⟩ := mem_of_runs_forEach hchk hu
    obtain ⟨a1, b1, _, rfl, -, hrun⟩ := runs_bind_ok hrun
    obtain ⟨a2, b2, _, rfl, -, hval⟩ := runs_bind_ok hrun
    refine (validated_of_runs hval).mono (sub_skip2 ?_)
    exact ((sub_skip2 (.refl b2)).trans hsub).trans sub_here
  · intro u hu old
    obtain ⟨es, -, hrun⟩ := mem_of_runs_forEach hchk hu
    obtain ⟨a1, b1, _, -, hpath, -⟩ := runs_bind_ok hrun
    exact ⟨rfl, ptrString_of_ne (runs_require.mp hpath).2, rfl, rfl, rfl⟩

/-- A `SetFields` that has come through its checks. -/
theorem setFields_cleared {req : SetFieldsRequest} (hq : Cleared q)
    (h0 : After (setFields env caller req).run h q) : Clears env (.setFields caller req) h q := by
  obtain ⟨e1, r1, _, rfl, -, n1, h1⟩ := checking_mustHaveClaims.cleared_bind hq h0
  obtain ⟨e2, r2, T, rfl, hres, n2, h2⟩ := checking_resolveTenantWithAccess.cleared_bind hq h1
  obtain ⟨e3, r3, _, rfl, -, n3, h3⟩ :=
    (checking_require (usual_invalidArgument _)).cleared_bind hq h2
  obtain ⟨e4, r4, _, rfl, -, n4, h4⟩ :=
    (checking_require (usual_invalidArgument _)).cleared_bind hq h3
  have hres' := resolved_of_runs_withAccess hres
  rcases keyed_cleared hq h4 with ⟨rfl, hne, s, rfl⟩ | ⟨e5, r5, rfl, n5, hkey, h5⟩
  · exact .repeated rfl rfl hne ⟨T, s, e1 ++ (e2 ++ (e3 ++ e4)), hres'.mono (sub_skip sub_here),
      by simp [n1, n2, n3, n4], by simp⟩
  · have hp := applySetFields_cleared (p := e1 ++ (e2 ++ (e3 ++ (e4 ++ e5))))
      (by simp [n1, n2, n3, n4, n5]) (hres'.mono (sub_skip sub_here))
      (hkey.mono (sub_skip2 (sub_skip2 (.refl _)))) hq h5
    exact .preparing (by simpa using hp)

/-! ### RollbackToVersion -/

/-- The attributes of a restored row were checked. -/
theorem attributed_of_restored {row : ConfigValue}
    (hlat : Runs (resolveVersion T).run evs₁ (.ok latest))
    (hrun : Runs (checkRestoredAttributes T fields latest row).run evs₂ (.ok ()))
    (hsub : evs₁ ++ evs₂ <+ h) (hfields : SchemaRead T fields h) :
    Attributed T row.fieldPath h := by
  rw [checkRestoredAttributes] at hrun
  split at hrun
  · obtain ⟨e1, e2, current, rfl, hcur, hchk⟩ := runs_bind_ok hrun
    obtain ⟨rfl, hok⟩ := runs_ofExcept.mp hchk
    rw [append_nil] at hsub
    exact ⟨fields, hfields, .inr ⟨current, currentRead_of_runs hlat hcur hsub, hok⟩⟩
  · rename_i hnone
    refine ⟨fields, hfields, .inl fun f hf hpath => ?_⟩
    by_contra hattr
    refine hnone (any_eq_true.mpr ⟨f, hf, ?_⟩)
    cases hr : f.readOnly <;> cases hw : f.writeOnce <;> simp_all

/-- A rollback that has come through its checks. -/
theorem rollbackToVersion_cleared {req : RollbackRequest} (hq : Cleared q)
    (h0 : After (rollbackToVersion env caller req).run h q) :
    Preparing env (.rollbackToVersion caller req) h q := by
  obtain ⟨e1, r1, _, rfl, -, n1, h1⟩ := checking_mustHaveClaims.cleared_bind hq h0
  obtain ⟨e2, r2, T, rfl, hres, n2, h2⟩ := checking_resolveTenantWithAccess.cleared_bind hq h1
  obtain ⟨e3, r3, rows, rfl, hrows, n3, h3⟩ :=
    (checking_fetch fun _ => usual_internal _).cleared_bind hq h2
  obtain ⟨e4, r4, _, rfl, -, n4, h4⟩ :=
    (checking_require (usual_of_code (by simp) (by simp))).cleared_bind hq h3
  obtain ⟨e5, r5, locks, rfl, hlocks, n5, h5⟩ :=
    (checking_fetch fun _ => usual_internal _).cleared_bind hq h4
  obtain ⟨e6, r6, types, rfl, htypes, n6, h6⟩ := checking_fieldTypeMap.cleared_bind hq h5
  obtain ⟨e7, r7, _, rfl, hchk, n7, h7⟩ :=
    (checking_forEach (fun _ => checking_bind checking_guardCheck fun _ =>
      checking_validateField) _).cleared_bind hq h6
  obtain ⟨e8, r8, fields, rfl, hfields, n8, h8⟩ := checking_getSchemaFieldSets.cleared_bind hq h7
  obtain ⟨e9, r9, latest, rfl, hlat, n9, h9⟩ := checking_resolveVersion.cleared_bind hq h8
  obtain ⟨e10, r10, _, rfl, hattr, n10, h10⟩ :=
    (checking_forEach checking_checkRestoredAttributes _).cleared_bind hq h9
  obtain ⟨e11, r11, dep, rfl, hdep, n11, h11⟩ :=
    checking_fetchDependentRequiredRules.cleared_bind hq h10
  obtain ⟨s, rfl⟩ := runs_fetch.mp hrows
  obtain ⟨s', rfl⟩ := runs_fetch.mp hlocks
  -- the parts of the trace before the transaction, in order
  let pre := e1 ++ (e2 ++ (readEvent false (.fullConfigAtVersion T req.version) (.ok rows) s ::
    (e4 ++ (readEvent false (.fieldLocks T) (.ok locks) s' :: (e6 ++ (e7 ++ (e8 ++
      (e9 ++ (e10 ++ e11)))))))))
  have hchecked : e7 ++ (e8 ++ (e9 ++ (e10 ++ e11))) <+ pre :=
    sub_skip2 (.cons _ (sub_skip (.cons _ (sub_skip (.refl _)))))
  refine ⟨_, pre, r11, by simp [pre], _, _, _, _, ⟨dep, (rulesRead_of_runs hdep).mono
      ((sub_skip2 (sub_skip2 (.refl _))).trans hchecked), .inl rfl⟩, ?_,
    ⟨?_, ?_⟩, .rollbackToVersion ?_ (s := s) ?_ ((typesRead_of_runs htypes).mono ?_) ?_,
    .rollback rfl fun _ => rfl, .nothing rfl, ⟨_, _, rfl, rfl⟩, h11⟩
  · simp [pre, n1, n2, n4, n6, n7, n8, n9, n10, n11]
  · intro r hr
    obtain ⟨es, -, hrun⟩ := mem_of_runs_forEach hchk hr
    obtain ⟨a1, b1, _, rfl, hg, -⟩ := runs_bind_ok hrun
    exact guarded_of_locks (s := s') (by simp [pre, rollbackWrite]) hg
  · intro r hr
    obtain ⟨es, hsub, hrun⟩ := mem_of_runs_forEach hattr hr
    refine attributed_of_restored hlat hrun ?_ ((schemaRead_of_runs hfields).mono ?_)
    · exact (sub_skip2 ((Sublist.refl e9).append (hsub.trans sub_here))).trans hchecked
    · exact (sub_skip sub_here).trans hchecked
  · exact (resolved_of_runs_withAccess hres).mono (sub_skip sub_here)
  · simp [pre]
  · exact sub_skip2 (.cons _ (sub_skip (.cons _ sub_here)))
  · intro r hr
    obtain ⟨es, hsub, hrun⟩ := mem_of_runs_forEach hchk hr
    obtain ⟨a1, b1, _, rfl, -, hval⟩ := runs_bind_ok hrun
    exact (validated_of_runs hval).mono
      (((sub_skip (.refl b1)).trans (hsub.trans sub_here)).trans hchecked)

/-! ### ImportConfig -/

/-- The changed values are some of the values. -/
theorem sublist_of_changedValues (hrun : Runs (changedValues T latest values).run evs (.ok kept)) :
    kept <+ values := by
  induction values generalizing kept evs with
  | nil => exact (runs_pure_ok.mp hrun).2 ▸ .refl _
  | cons v vs ih =>
    obtain ⟨e1, e2, current, rfl, -, hrest⟩ := runs_bind_ok hrun
    obtain ⟨e3, e4, rest, rfl, hvs, hret⟩ := runs_bind_ok hrest
    obtain ⟨-, rfl⟩ := runs_pure_ok.mp hret
    split
    · exact (ih hvs).cons_cons v
    · exact (ih hvs).cons v

/-- A mode selects some values, and `replace` all. -/
theorem sublist_of_filterByImportMode {mode : ImportMode}
    (hrun : Runs (filterByImportMode T latest values mode).run evs (.ok kept)) :
    kept <+ values ∧ (mode = .replace → kept = values) := by
  cases mode with
  | replace =>
    obtain ⟨-, rfl⟩ := runs_pure_ok.mp hrun
    exact ⟨.refl _, fun _ => rfl⟩
  | defaults =>
    refine ⟨?_, nofun⟩
    rw [filterByImportMode] at hrun
    split at hrun
    · exact (runs_pure_ok.mp hrun).2 ▸ .refl _
    · obtain ⟨r, s, -, hr⟩ := runs_ask.mp hrun
      cases r with
      | error e => exact Except.ok.inj hr ▸ .refl _
      | ok rows => exact Except.ok.inj hr ▸ filter_sublist
  | merge | unspecified =>
    refine ⟨?_, nofun⟩
    rw [filterByImportMode] at hrun
    split at hrun
    · exact (runs_pure_ok.mp hrun).2 ▸ .refl _
    · exact sublist_of_changedValues hrun

/-- What an import has read before it writes: its tenant, its document at the types of the
schema, the latest version, and after that the values that its mode selects. -/
structure Selected (env : Env) (req : ImportRequest) (T : String) (parsed : ParsedImport)
    (values : List ConfigValueImport) (h : Hist) : Prop where
  resolved : Resolved req.tenantId T h
  document : ∃ types, TypesRead env T types h ∧
    dispatchImport env req.yamlContent (types.lookup ·) = .ok parsed
  filtered : ∃ r s latest evs, readEvent false (.latestConfigVersion T) r s :: evs <+ h ∧
    versionOrZero r = .ok latest ∧
    Runs (filterByImportMode T latest parsed.values req.mode).run evs (.ok values)

theorem Selected.mono {req : ImportRequest} {parsed : ParsedImport} (hsub : h <+ h')
    (hs : Selected env req T parsed values h) : Selected env req T parsed values h' := by
  obtain ⟨types, htypes, hparsed⟩ := hs.document
  obtain ⟨r, s, latest, evs, hevs, hr, hrun⟩ := hs.filtered
  exact ⟨hs.resolved.mono hsub, ⟨types, htypes.mono hsub, hparsed⟩,
    r, s, latest, evs, hevs.trans hsub, hr, hrun⟩

/-- **What an import has read**, once it has passed its checks or has nothing to write. -/
theorem importConfig_cleared {req : ImportRequest} (hq : Cleared q)
    (h0 : After (importConfig env caller req).run h q) :
    ∃ T parsed values pre post, h = pre ++ post ∧ NoCommit pre ∧
      Selected env req T parsed values pre ∧
      ((values = [] ∧ post = [] ∧ q = .ret (.error noChanges)) ∨
        Ready env (.importConfig caller req)
          (importWrite env caller req T parsed.description values) pre post q) := by
  obtain ⟨e1, r1, _, rfl, -, n1, h1⟩ := checking_mustHaveClaims.cleared_bind hq h0
  obtain ⟨e2, r2, _, rfl, -, n2, h2⟩ :=
    (checking_require (usual_invalidArgument _)).cleared_bind hq h1
  obtain ⟨e3, r3, T, rfl, hres, n3, h3⟩ := checking_resolveTenantWithAccess.cleared_bind hq h2
  obtain ⟨e4, r4, _, rfl, -, n4, h4⟩ :=
    (checking_fetch fun _ => usual_of_code (by simp) (by simp)).cleared_bind hq h3
  obtain ⟨e5, r5, types, rfl, htypes, n5, h5⟩ := checking_fieldTypeMap.cleared_bind hq h4
  obtain ⟨e6, r6, parsed, rfl, hparsed, n6, h6⟩ := (checking_ofExcept fun _ =>
    usual_mapError fun _ => usual_invalidArgument _).cleared_bind hq h5
  obtain ⟨e7, r7, _, rfl, hchk, n7, h7⟩ :=
    (checking_forEach checking_checkImported _).cleared_bind hq h6
  obtain ⟨e8, r8, latest, rfl, hlat, n8, h8⟩ := checking_resolveVersion.cleared_bind hq h7
  obtain ⟨e9, r9, values, rfl, hvals, n9, h9⟩ := checking_filterByImportMode.cleared_bind hq h8
  obtain ⟨r, s, rfl, hr⟩ := runs_ask.mp hlat
  have hparsed' := mapError_eq_ok.mp (runs_ofExcept.mp hparsed).2
  -- the trace up to the selection, and the parts that the rest refers to
  let sel := e1 ++ (e2 ++ (e3 ++ (e4 ++ (e5 ++ (e6 ++ (e7 ++
    (readEvent false (.latestConfigVersion T) r s :: e9)))))))
  have nsel : NoCommit sel := by simp [sel, n1, n2, n3, n4, n5, n6, n7, n9]
  have hres' : Resolved req.tenantId T sel :=
    (resolved_of_runs_withAccess hres).mono (sub_skip2 sub_here)
  have htypes' : TypesRead env T types sel :=
    (typesRead_of_runs htypes).mono (sub_skip2 (sub_skip2 sub_here))
  have hchecked : e7 ++ (readEvent false (.latestConfigVersion T) r s :: e9) <+ sel :=
    sub_skip2 (sub_skip2 (sub_skip2 (.refl _)))
  have hsel : Selected env req T parsed values sel :=
    ⟨hres', ⟨types, htypes', hparsed'⟩, r, s, latest, e9, (sub_skip (.refl _)).trans hchecked, hr,
      hvals⟩
  by_cases hnil : values = []
  · rw [require, if_neg (not_not.mpr hnil)] at h9
    have hret : After (.ret (.error noChanges)) r9 q := h9
    obtain ⟨rfl, rfl⟩ := after_ret.mp hret
    exact ⟨T, parsed, values, sel, [], by simp [sel], nsel, hsel, .inl ⟨hnil, rfl, rfl⟩⟩
  rw [require, if_pos hnil] at h9
  obtain ⟨e11, r11, changes, rfl, hcol, n11, h11⟩ :=
    (checking_collect (fun v => checking_readChange) _).cleared_bind hq h9
  obtain ⟨e12, r12, fields, rfl, hfields, n12, h12⟩ :=
    checking_getSchemaFieldSets.cleared_bind hq h11
  obtain ⟨e13, r13, _, rfl, hattr, n13, h13⟩ := checking_checkAllWriteAttributes.cleared_bind hq h12
  obtain ⟨e14, r14, dep, rfl, hdep, n14, h14⟩ :=
    checking_fetchDependentRequiredRules.cleared_bind hq h13
  obtain ⟨hsub, hmode⟩ := sublist_of_filterByImportMode hvals
  let pre := sel ++ (e11 ++ (e12 ++ (e13 ++ e14)))
  have hsel' : sel <+ pre := sub_here
  have npre : NoCommit pre := by simp [pre, nsel, n11, n12, n13, n14]
  have hfields' : SchemaRead T fields pre :=
    (schemaRead_of_runs hfields).mono (sub_skip2 sub_here)
  have hchs := changes_of_collect (h := pre) hlat hcol
    (((sub_skip (sub_here (r := e9))).trans hchecked).append sub_here)
  -- the entries are made of the changes alone
  have hzip : ∀ v, changes.map (fun ch => importAudit T (getActor caller) fields ch v) =
      zipWith (fun _ ch => importAudit T (getActor caller) fields ch v) values changes := by
    intro v
    conv_lhs => rw [← map_snd_zip hchs.length_eq.ge, map_map]
    exact map_zip_eq_zipWith
  refine ⟨T, parsed, values, pre, r14, by simp [pre, sel], npre, hsel.mono hsel', .inr
    ⟨_, _, _, _, ⟨dep, (rulesRead_of_runs hdep).mono
      (sub_skip2 (sub_skip2 (.refl _))), .inr rfl⟩, npre, ⟨?_, ?_⟩,
    .importConfig (hres'.mono hsel') (htypes'.mono hsel') hparsed' ?_ hsub hmode,
    .fields hfields' fun v => hzip v ▸ audited_of_changes hchs (fun _ => rfl) ?_,
    .changes hfields' (announced_of_changes hchs (fun _ => rfl) (fun _ => rfl) fields),
    ⟨_, _, rfl, rfl⟩, h14⟩⟩
  · intro r hr
    obtain ⟨v, hv, rfl⟩ := mem_map.mp hr
    obtain ⟨es, hes, hrun⟩ := mem_of_runs_forEach hchk (hsub.subset hv)
    obtain ⟨a1, b1, _, rfl, -, hrun⟩ := runs_bind_ok hrun
    obtain ⟨a2, b2, _, rfl, hg, -⟩ := runs_bind_ok hrun
    exact (guarded_of_runs hg).mono
      ((((sub_skip sub_here).trans hes).trans sub_here).trans (hchecked.trans hsel'))
  · intro r hr
    obtain ⟨v, hv, rfl⟩ := mem_map.mp hr
    exact attributed_of_changes hchs hfields' (runs_ofExcept.mp hattr).2 hv
  · intro v hv
    obtain ⟨es, hes, hrun⟩ := mem_of_runs_forEach hchk hv
    obtain ⟨a1, b1, _, rfl, -, hrun⟩ := runs_bind_ok hrun
    obtain ⟨a2, b2, _, rfl, -, hval⟩ := runs_bind_ok hrun
    exact (validated_of_runs hval).mono
      ((((sub_skip2 (.refl b2)).trans hes).trans sub_here).trans (hchecked.trans hsel'))
  · intro x hx old
    exact ⟨rfl, ptrString_of_ne (dispatchImport_path_ne hparsed' (hsub.subset hx)), rfl, rfl, rfl⟩

/-! ### The schema service -/

/-- The tenant that the request names was looked up. -/
def Located (idOrName T : String) (h : Hist) : Prop :=
  ∃ tn s, Tenant.id tn = T ∧
    ((isUUID idOrName = true ∧ readEvent false (.tenantByID idOrName) (.ok tn) s ∈ h) ∨
      (isUUID idOrName = false ∧ readEvent false (.tenantByName idOrName) (.ok tn) s ∈ h))

theorem Located.mono (hsub : h <+ h') (hp : Located idOrName T h) : Located idOrName T h' := by
  obtain ⟨tn, s, hT, ⟨hu, hm⟩ | ⟨hu, hm⟩⟩ := hp
  · exact ⟨tn, s, hT, .inl ⟨hu, hsub.subset hm⟩⟩
  · exact ⟨tn, s, hT, .inr ⟨hu, hsub.subset hm⟩⟩

/-- The call is at the commit of a statement on the locks of a field, or past it. -/
def Locking (idOrName fieldPath : String) (write : String → Proc TxErr Unit) (h : Hist)
    (q : Prog Op.Resp (Except Status Reply)) : Prop :=
  ∃ (T : String) (audit : AuditEntry) (pre post : Hist), h = pre ++ post ∧ NoCommit pre ∧
    fieldPath ≠ "" ∧ Located idOrName T pre ∧
    AtCommit (write T >>= fun _ => insertAudit [audit]) post q fun _ => .done

/-- A tenant is resolved by reads. -/
theorem reading_resolveTenant (caller : Caller) (idOrName : String) :
    Reading (storeReads.resolveTenant caller idOrName) := by
  refine .bind_run trivial fun _ => .bind_run ?_ fun _ => .bind_run trivial fun _ => trivial
  exact .ite_run (reading_fetch _ _ _) (reading_fetch _ _ _)

theorem quiet_resolveTenant (idOrName : String) :
    Quiet (storeReads.resolveTenant caller idOrName) :=
  (reading_resolveTenant caller idOrName).quiet

/-- A tenant that was resolved is one that a read of the call found. -/
theorem located_of_runs {idOrName : String} {tn : Tenant} {evs : Hist}
    (hrun : Runs (storeReads.resolveTenant caller idOrName).run evs (.ok tn)) :
    Located idOrName tn.id evs := by
  obtain ⟨e1, e2, _, rfl, -, hrun⟩ := runs_bind_ok hrun
  obtain ⟨e3, e4, tn', rfl, hlook, hrun⟩ := runs_bind_ok hrun
  obtain ⟨e5, e6, _, rfl, -, hret⟩ := runs_bind_ok hrun
  obtain ⟨-, rfl⟩ := runs_pure_ok.mp hret
  rw [TenantReads.lookupTenant] at hlook
  split at hlook
  · rename_i hu
    obtain ⟨s, rfl⟩ := runs_fetch.mp hlook
    exact ⟨tn', s, rfl, .inl ⟨hu, by simp⟩⟩
  · rename_i hu
    obtain ⟨s, rfl⟩ := runs_fetch.mp hlook
    exact ⟨tn', s, rfl, .inr ⟨by simpa using hu, by simp⟩⟩

theorem quiet_changeLockTx (hwrite : ∀ T, Quiet (write T)) (audit : AuditEntry) :
    Quiet (write T >>= fun _ => insertAudit [audit]) :=
  .bind_run (hwrite _) fun _ => quiet_insertAudit _

/-- A change of a lock at its commit, or past it. -/
theorem changeLock_late {tenantId fieldPath action failedMsg : String}
    (hwrite : ∀ T, Quiet (write T)) (hq : Late Op.IsCommit q)
    (h0 : After (changeLock caller tenantId fieldPath action failedMsg write).run h q) :
    Locking tenantId fieldPath write h q := by
  have hc : Late Op.Concludes q := hq.mono fun _ => Op.IsCommit.concludes
  obtain ⟨e1, r1, _, rfl, -, n1, h1⟩ := (quiet_ofExcept _).late_bind hc h0
  obtain ⟨e2, r2, _, rfl, hpath, n2, h2⟩ := (quiet_require _ _).late_bind hc h1
  obtain ⟨e3, r3, tenant, rfl, hten, n3, h3⟩ := (quiet_resolveTenant _).late_bind hc h2
  obtain ⟨e4, r4, _, rfl, -, n4, h4⟩ := (quiet_ofExcept _).late_bind hc h3
  refine ⟨tenant.id, lockAudit tenant.id (getActor caller) action fieldPath,
    e1 ++ (e2 ++ (e3 ++ e4)), r4, by simp, by simp [n1, n2, n3, n4], (runs_require.mp hpath).2,
    (located_of_runs hten).mono (sub_skip2 sub_here), ?_⟩
  refine .bind (fun {evs q} => transact_late fun {evs q} =>
    runInTx_late (quiet_changeLockTx hwrite _).noCommit) (fun _ => (quiet_pure _).noCommit) ?_ hq h4
  exact fun _ _ _ hret => (runs_pure_ok.mp hret).2.symm

/-- **A `LockField` at its commit**: its transaction holds the lock. -/
theorem lockField_committing {req : LockFieldRequest} {t : ℕ} {tx : Tx}
    (h0 : After (lockField caller req).run h (.op .commit k)) (htx : replay t none h = some tx) :
    req.fieldPath ≠ "" ∧ ∃ T, Located req.tenantId T h ∧ tx.lockWrites = [⟨T, req.fieldPath,
      some (if req.lockedValues = [] then .absent else .values req.lockedValues)⟩] := by
  have hlate : Late Op.IsCommit (Prog.op .commit k) := rfl
  rw [lockField] at h0
  obtain ⟨T, audit, pre, post, rfl, -, hpath, hloc, hat⟩ :=
    changeLock_late (fun _ => quiet_ask (by nofun) _) hlate h0
  obtain ⟨pre', att, _, -, ⟨s, e, rfl, hrun⟩, rfl⟩ := hat.at_commit
  refine ⟨hpath, T, hloc.mono sub_here, ?_⟩
  obtain ⟨e1, e2, _, rfl, hlock, haudit⟩ := runs_bind_ok hrun
  obtain ⟨r1, s1, rfl, hr1⟩ := runs_ask.mp hlock
  obtain rfl : r1 = (.ok () : Except StoreErr Unit) := mapError_eq_ok.mp hr1
  obtain ⟨r2, s2, rfl, hr2⟩ := runs_ask.mp haudit
  obtain rfl : r2 = (.ok () : Except StoreErr Unit) := mapError_eq_ok.mp hr2
  rw [← append_assoc, replay_append] at htx
  cases htx
  rfl

/-- The defaults of a new tenant, as the call that creates it read them. -/
structure DefaultsRead (env : Env) (req : CreateTenantRequest) (defaults : List ConfigValue)
    (h : Hist) : Prop where
  read : ∃ (sv : SchemaVersion) (fields : List SchemaField) (s₁ s₂ : State),
    readEvent false (.schemaVersion req.schemaId req.schemaVersion) (.ok sv) s₁ ∈ h ∧
    readEvent false (.schemaFields sv.id) (.ok fields) s₂ ∈ h ∧
    collectDefaultValues env fields = .ok defaults

theorem DefaultsRead.mono {defaults : List ConfigValue} (hsub : h <+ h')
    (hd : DefaultsRead env req defaults h) : DefaultsRead env req defaults h' := by
  obtain ⟨sv, fields, s1, s2, hsv, hf, hc⟩ := hd.read
  exact ⟨sv, fields, s1, s2, hsub.subset hsv, hsub.subset hf, hc⟩

/-- The call is at the commit of a new tenant with its defaults, or past it. -/
def Seeding (env : Env) (caller : Caller) (req : CreateTenantRequest) (h : Hist)
    (q : Prog Op.Resp (Except Status Reply)) : Prop :=
  ∃ (defaults : List ConfigValue) (pre post : Hist), h = pre ++ post ∧
    accessGuards caller .global {} = .ok () ∧ DefaultsRead env req defaults pre ∧ NoCommit pre ∧
    AtCommit (createTenantTx caller req defaults) post q .tenant

/-- What comes before the transaction of `CreateTenant` only reads. -/
theorem reading_prepareCreate (env : Env) (caller : Caller) (req : CreateTenantRequest) :
    Reading (storeReads.prepareCreate env caller req) := by
  refine .bind_run trivial fun _ => .bind_run ?_ fun version => ?_
  · exact .bind_run (reading_fetch _ _ _) fun _ => .bind_run trivial fun _ => trivial
  · exact .bind_run (reading_fetch _ _ _) fun _ => trivial

/-- The defaults are those of the fields that the call read, and its caller may create
tenants. -/
theorem defaultsRead_of_runs {defaults : List ConfigValue} {evs : Hist}
    (hrun : Runs (storeReads.prepareCreate env caller req).run evs (.ok defaults)) :
    accessGuards caller .global {} = .ok () ∧ DefaultsRead env req defaults evs := by
  obtain ⟨e1, e2, _, rfl, hcheck, hrun⟩ := runs_bind_ok hrun
  obtain ⟨e3, e4, sv, rfl, hsv, hrun⟩ := runs_bind_ok hrun
  obtain ⟨e5, e6, fields, rfl, hfields, hdef⟩ := runs_bind_ok hrun
  obtain ⟨e7, e8, sv', rfl, hread, hsv⟩ := runs_bind_ok hsv
  obtain ⟨e9, e10, _, rfl, -, hret⟩ := runs_bind_ok hsv
  obtain ⟨rfl, rfl⟩ := runs_pure_ok.mp hret
  obtain ⟨s1, rfl⟩ := runs_fetch.mp hread
  obtain ⟨s2, rfl⟩ := runs_fetch.mp hfields
  constructor
  · have hadmit := (seq_eq_ok.mp (runs_ofExcept.mp hcheck).2).1
    exact (seq_eq_ok.mp hadmit).2
  · exact ⟨sv', fields, s1, s2, by simp, by simp, mapError_eq_ok.mp (runs_ofExcept.mp hdef).2⟩

/-- A `CreateTenant` at its commit, or past it. -/
theorem createTenant_late (hq : Late Op.IsCommit q)
    (h0 : After (createTenant env caller req).run h q) : Seeding env caller req h q := by
  have hc : Late Op.Concludes q := hq.mono fun _ => Op.IsCommit.concludes
  obtain ⟨e1, r1, defaults, rfl, hprep, n1, h1⟩ :=
    (reading_prepareCreate env caller req).quiet.late_bind hc h0
  obtain ⟨hguard, hread⟩ := defaultsRead_of_runs hprep
  refine ⟨defaults, e1, r1, rfl, hguard, hread, n1, ?_⟩
  refine .bind (fun {evs q} => transact_late fun {evs q} =>
    runInTx_late createTenantTx_noCommit) (fun _ => (quiet_pure _).noCommit) ?_ hq h1
  exact fun _ _ _ hret => (runs_pure_ok.mp hret).2.symm

end Calls

/-! ### All calls -/

/-- Where a call that is at its commit, or has succeeded, has arrived. -/
inductive Arrived (env : Env) (call : Call) (h : Hist)
    (q : Prog Op.Resp (Except Status Reply)) : Prop
  | repeated {idOrName key : String} (hq : q = .ret (.ok .duplicate))
      (hkey : call.idempotency = some (idOrName, key)) (hrep : Repeated idOrName key h)
  | writing (hw : Writing env call h q)
  | locking {idOrName fieldPath : String} {write : String → Proc TxErr Unit}
      (hkey : call.idempotency = none) (hwrite : ∀ T, Quiet (write T))
      (hl : Locking idOrName fieldPath write h q)
  | seeding {caller : Caller} {req : CreateTenantRequest}
      (hcall : call = .createTenant caller req) (hs : Seeding env caller req h q)
  | reading (hread : call.Reads) (hshows : ∀ reply, q = .ret (.ok reply) → reply.Shows)

variable {env : Env} {call : Call} {h : Hist} {caller : Caller} {ev : ConfigChangeEvent}

/-- **A call that has passed its checks has prepared what it writes.** -/
theorem Call.cleared (hq : Cleared q) (h0 : After (call.proc env).run h q) :
    Clears env call h q := by
  cases call with
  | setField caller req => exact setField_cleared hq h0
  | setFields caller req => exact setFields_cleared hq h0
  | rollbackToVersion caller req => exact .preparing (rollbackToVersion_cleared hq h0)
  | importConfig caller req =>
    obtain ⟨T, parsed, values, pre, post, rfl, hno, -, ⟨-, rfl, hend⟩ | hready⟩ :=
      importConfig_cleared hq h0
    · exact .unchanged (by simpa using hno) hend
    · exact .preparing ⟨_, pre, post, rfl, hready⟩
  | _ => exact .other rfl

/-- **A call that is at its commit, or has succeeded, has prepared what it writes**, unless it
only reads. -/
theorem Call.late (hq : Late Op.IsCommit q) (h0 : After (call.proc env).run h q) :
    Arrived env call h q := by
  cases Call.cleared (.inl (hq.mono fun _ => Op.IsCommit.concludes)) h0 with
  | repeated hdup hkey _ hrep => exact .repeated hdup hkey hrep
  | preparing hp => exact .writing (hp.writing hq)
  | unchanged _ hend =>
    subst hend
    exact absurd hq id
  | other hcall =>
    cases call with
    | lockField | unlockField =>
      simp only [Call.proc, Decree.lockField, Decree.unlockField] at h0
      exact .locking rfl (fun _ => quiet_ask (by nofun) _)
        (changeLock_late (fun _ => quiet_ask (by nofun) _) hq h0)
    | createTenant caller req => exact .seeding rfl (createTenant_late hq h0)
    | getConfig | getField | getFields | diffVersions | exportConfig | subscribe =>
      refine .reading trivial fun reply hq => ?_
      exact Call.returns (by trivial) h reply (hq ▸ h0)
    | _ => cases hcall

/-- A call that only reads is never at a commit or a publish. -/
theorem Call.not_settling {o : Op} {k : Op.Resp o → Prog Op.Resp (Except Status Reply)}
    (h0 : After (call.proc env).run h (.op o k)) (hread : call.Reads) (ho : o.Settles) :
    False :=
  ((Call.settlesNothing hread).after h0).2.1 ho

/-- An attempt does not commit by itself. -/
theorem Attempted.noCommit {α : Type} {body : Proc TxErr α} {att : Hist} {a : α}
    (hbody : Avoids Op.IsCommit body.run) (h : Attempted body att a) : NoCommit att := by
  obtain ⟨s, e, rfl, hrun⟩ := h
  have he : NoCommit e := (hbody.after hrun).1
  simp [he]

/-- **A call commits once**: before its commit it has committed nothing. -/
theorem Call.noCommit (h0 : After (call.proc env).run h (.op .commit k)) : NoCommit h := by
  have hlate : Late Op.IsCommit (Prog.op .commit k) := rfl
  cases Call.late hlate h0 with
  | repeated hq => cases hq
  | writing hw =>
    obtain ⟨w, audit, rest, pre, post, rfl, hrest, hpre, -, -, -, hat⟩ := hw
    obtain ⟨pre', att, v, hpre', hatt, rfl⟩ := hat.at_commit
    simp [hpre, hpre', hatt.noCommit (versionTx_noCommit hrest.quiet)]
  | locking hkey hwrite hl =>
    obtain ⟨T, audit, pre, post, rfl, hpre, -, -, hat⟩ := hl
    obtain ⟨pre', att, v, hpre', hatt, rfl⟩ := hat.at_commit
    simp [hpre, hpre', hatt.noCommit (quiet_changeLockTx hwrite audit).noCommit]
  | seeding hcall hs =>
    obtain ⟨defaults, pre, post, rfl, -, -, hpre, hat⟩ := hs
    obtain ⟨pre', att, v, hpre', hatt, rfl⟩ := hat.at_commit
    simp [hpre, hpre', hatt.noCommit createTenantTx_noCommit]
  | reading hread => exact (Call.not_settling h0 hread trivial).elim

/-- How a call comes to commit a version: it is a config write, with what it has prepared
and its last attempt, or it seeds a tenant that it creates. -/
inductive Committing (env : Env) (t : ℕ) (call : Call) (h : Hist) (tx : Tx) :
    String → ConfigVersion → Prop
  | write {w : VersionWrite} {rest : ℤ → Proc TxErr Unit} {pre att : Hist} {v : ℤ}
      {V : ConfigVersion} (hh : h = pre ++ att)
      (hprep : Prepared env call.caller w pre) (hsrc : Source env call w pre)
      (hatt : WriteAttempt t w att v V) {audit : ℤ → List AuditEntry}
      (hfin : Finishes env w.tenantID audit rest pre) (hend : Ends rest att v)
      (haud : Audits call w pre audit) (htx : tx.audit = audit v) :
      Committing env t call h tx w.tenantID V
  | seed {caller : Caller} {req : CreateTenantRequest} {tn : Tenant} {s : State}
      {V : ConfigVersion} (hcall : call = .createTenant caller req)
      (hguard : accessGuards caller .global {} = .ok ())
      (hdef : DefaultsRead env req V.values h)
      (hten : (⟨.createTenant req.name req.schemaId req.schemaVersion,
        (.ok tn : Except StoreErr Tenant), s⟩ : Event Op.Resp State) ∈ h)
      (htx : tx.tenant = some tn) (hV : SeedVersion t V.values V) :
      Committing env t call h tx tn.id V

/-- **The version a call is about to commit.** -/
theorem Call.committing {t : ℕ} {tx : Tx} {T : String} {V : ConfigVersion}
    (h0 : After (call.proc env).run h (.op .commit k)) (htx : replay t none h = some tx)
    (hV : tx.version = some (T, V)) : Committing env t call h tx T V := by
  have hlate : Late Op.IsCommit (Prog.op .commit k) := rfl
  cases Call.late hlate h0 with
  | repeated hq => cases hq
  | writing hw =>
    obtain ⟨w, audit, rest, pre, post, rfl, hrest, -, hprep, hsrc, haud, hat⟩ := hw
    obtain ⟨pre', att, v, -, hatt, rfl⟩ := hat.at_commit
    rw [← append_assoc, replay_append] at htx
    obtain ⟨V', hV', hatt', hend⟩ := replay_versionTx hrest.quiet hatt htx
    obtain ⟨rfl, rfl⟩ := answer_inj (hV.symm.trans hV')
    obtain ⟨tail, hrun, htail⟩ := replay_versionTx_audit hrest.quiet hatt htx
    exact .write (append_assoc ..).symm (hprep.mono sub_here) (hsrc.mono sub_here)
      hatt' (hrest.mono sub_here) hend (haud.mono sub_here) (htail.trans (hrest.inserted hrun))
  | locking hkey hwrite hl =>
    obtain ⟨T', audit, pre, post, rfl, -, -, -, hat⟩ := hl
    obtain ⟨pre', att, v, -, ⟨s, e, rfl, hrun⟩, rfl⟩ := hat.at_commit
    rw [← append_assoc, replay_append, replay_cons] at htx
    obtain ⟨tx0, htx0, hversion⟩ :=
      replay_quiet ((quiet_changeLockTx hwrite audit).after hrun).1 htx
    cases htx0
    rw [hversion] at hV
    cases hV
  | @seeding caller req hcall hs =>
    obtain ⟨defaults, pre, post, rfl, hguard, hdef, -, hat⟩ := hs
    obtain ⟨pre', att, tn, -, hatt, rfl⟩ := hat.at_commit
    rw [← append_assoc, replay_append] at htx
    obtain ⟨⟨s, hten⟩, htn, hversion⟩ := replay_createTenantTx hatt htx
    obtain ⟨-, hnone⟩ | ⟨V', hV', hseed⟩ := hversion
    · cases (hnone.symm.trans hV)
    obtain ⟨rfl, rfl⟩ := answer_inj (hV.symm.trans hV')
    obtain rfl := hseed.values
    exact .seed hcall hguard (hdef.mono sub_here) (s := s)
      (mem_append_right _ (mem_append_right _ hten)) htn hseed
  | reading hread => exact (Call.not_settling h0 hread trivial).elim

/-! ### Publishing -/

section Avoiding

variable {bad : Op → Prop} (hread : ∀ o, bad o → ¬ o.IsRead)

include hread

theorem avoids_changeLock {tenantId fieldPath action failedMsg : String}
    (htx : ∀ T, Avoids bad (runInTx do
      write T
      insertAudit [lockAudit T (getActor caller) action fieldPath]).run) :
    Avoids bad (changeLock caller tenantId fieldPath action failedMsg write).run := by
  refine .bind_run trivial fun _ => .bind_run trivial fun _ => ?_
  refine ((reading_resolveTenant _ _).mono hread).bind_run fun tenant => ?_
  refine .bind_run trivial fun _ => ?_
  exact (avoids_transact (htx _) _).bind_run fun _ => trivial

theorem avoids_createTenant
    (htx : ∀ defaults, Avoids bad (runInTx (createTenantTx caller req defaults)).run) :
    Avoids bad (createTenant env caller req).run := by
  refine ((reading_prepareCreate env caller req).mono hread).bind_run fun defaults => ?_
  exact (avoids_transact (htx _) _).bind_run fun _ => trivial

end Avoiding

/-- The call has committed a config write and is at its publish. -/
def Publishing (env : Env) (call : Call) (h : Hist) (ev : ConfigChangeEvent) : Prop :=
  ∃ (w : VersionWrite) (audit : ℤ → List AuditEntry) (rest : ℤ → Proc TxErr Unit)
    (chs : List FieldChange) (v : ℤ) (pre post : Hist), h = pre ++ post ∧
      Finishes env w.tenantID audit rest pre ∧ NoCommit pre ∧
      Source env call w pre ∧ Announces call w pre (some chs) ∧
      ev = ⟨w.tenantID, v, chs, w.actor⟩ ∧ Committed (versionTx w rest) post v

/-- A call at its publish has committed. -/
theorem Preparing.publishing {k : Op.Resp (.publish ev) → Prog Op.Resp (Except Status Reply)}
    (hp : Preparing env call h (.op (.publish ev) k)) : Publishing env call h ev := by
  obtain ⟨w, pre, post, hh, audit, rest, onError, changes, hfin, hpre, -, hsrc, -, hann, -,
    hafter⟩ := hp
  obtain ⟨v, chs, rfl, hev, hcommitted⟩ := commitWrite_publishing hfin.quiet hafter
  exact ⟨w, audit, rest, chs, v, pre, post, hh, hfin, hpre, hsrc, hann, hev, hcommitted⟩

/-- Only config writes publish, and only they and `GetConfig` share anything. -/
theorem Call.noShare (hcall : call.conflict = none)
    (hget : ∀ caller req, call ≠ .getConfig caller req) :
    Avoids Op.Shares (call.proc env).run := by
  have hread : ∀ o : Op, o.Shares → ¬ o.IsRead := by
    intro o ho hread
    cases o with
    | read => exact ho
    | _ => exact hread
  cases call with
  | lockField | unlockField =>
    simp only [Call.proc, Decree.lockField, Decree.unlockField]
    refine avoids_changeLock hread fun T => avoids_runInTx id id id ?_
    exact Quiet.noShare (.bind_run (quiet_ask id _) fun _ => quiet_insertAudit _)
  | createTenant =>
    refine avoids_createTenant hread fun _ => avoids_runInTx id id id ?_
    exact createTenantTx_open.mono fun _ => Op.Shares.concludes
  | getConfig caller req => exact absurd rfl (hget caller req)
  | getField | getFields | diffVersions | exportConfig | subscribe =>
    refine (Call.quiet ?_ ?_).noShare
    · exact trivial
    · simp
  | _ => cases hcall

/-- **A call publishes the config write that it has committed.** -/
theorem Call.publishing {k : Op.Resp (.publish ev) → Prog Op.Resp (Except Status Reply)}
    (h0 : After (call.proc env).run h (.op (.publish ev) k)) : Publishing env call h ev := by
  cases Call.cleared (q := .op (.publish ev) k) (.inl trivial) h0 with
  | repeated hdup => cases hdup
  | preparing hp => exact hp.publishing
  | unchanged _ hend => cases hend
  | other hcall =>
    by_cases hget : ∀ caller req, call ≠ .getConfig caller req
    · exact absurd trivial ((Call.noShare hcall hget).after h0).2.1
    · simp only [not_forall, not_not] at hget
      obtain ⟨caller, req, rfl⟩ := hget
      exact (Call.not_settling h0 trivial trivial).elim

end Decree
