import Decree.WriteOnce

/-!
# The Audit Trail of Config Versions

Every config write audits its version in the transaction that commits it. The old value in an
entry is the one that was read before the transaction, at the version that was the latest
then; the transaction does not look again, even when it is retried. A read that failed, a field
without a value and the empty string are all recorded as no value, but for a sensitive field,
where they are recorded as a redacted one. `AuditedStep` excludes these at the commit of a version.

## Main results

* `CommitStep.audit`: a version is audited by its transaction.
* `audit_trail_of_version`: the entries of a version.
-/

open Interleave List

namespace Decree

variable {env : Env} {init : Init} {allowed : System → ℕ → Choice → Prop} {c c' c₁ c₂ : System}
  {t : ℕ} {T f : String} {L : List ConfigVersion} {V : ConfigVersion} {tx : Tx} {caller : Caller}
  {e : AuditEntry} {call : Call} {w : VersionWrite} {v n : ℤ} {ch : Choice} {o : Option String}
  {old : String} {row : ConfigValue} {h : Hist}

/-! ### Entries of versions -/

def Tables.entriesOf (db : Tables) (T : String) (version : ℤ) : List AuditEntry :=
  db.audit.filter fun e => e.tenantID = T ∧ e.configVersion = some version

/-- The operation inserts an audit entry that names a config version. -/
def Op.AuditsVersion : Op → Prop
  | insertAudit entries => ∃ e ∈ entries, e.configVersion ≠ none
  | _ => False

theorem Op.AuditsVersion.not_read (o : Op) (h : o.AuditsVersion) : ¬ o.IsRead := by
  intro hread
  cases o with
  | read => exact h
  | _ => exact hread

/-- Entries without a version audit none. -/
theorem insertAudit_unversioned {entries : List AuditEntry}
    (h : ∀ e ∈ entries, e.configVersion = none) :
    Avoids Op.AuditsVersion (insertAudit entries).run :=
  ⟨fun ⟨e, he, hne⟩ => hne (h e he), fun _ => trivial⟩

/-- `CreateTenant` audits no version. -/
theorem createTenant_unversioned {req : CreateTenantRequest} :
    Avoids Op.AuditsVersion (createTenant env caller req).run := by
  refine avoids_createTenant Op.AuditsVersion.not_read fun defaults => ?_
  refine avoids_runInTx id id id (.bind_run ⟨id, fun _ => trivial⟩ fun tn => .bind_run ?_ ?_)
  · split
    · exact trivial
    · exact .bind_run ⟨id, fun _ => trivial⟩ fun _ => ⟨id, fun _ => trivial⟩
  · exact fun _ => (insertAudit_unversioned (by simp)).bind_run fun _ => trivial

/-- The audit entries of a transaction were inserted by its call. -/
theorem mem_insertedAudit_of_replay (hr : replay t none h = some tx) (he : e ∈ tx.audit) :
    e ∈ insertedAudit h := by
  induction h using reverseRecOn generalizing tx with
  | nil => cases hr
  | append_singleton h ev ih =>
    rw [replay_append] at hr
    rw [insertedAudit_append]
    by_cases hev : ev.op = .begin
    · obtain ⟨o, r, s⟩ := ev
      obtain rfl : o = .begin := hev
      cases r with
      | error err => exact mem_append_left _ (ih hr he)
      | ok u =>
        cases hr
        exact absurd he not_mem_nil
    · obtain ⟨tx0, htx0, haud⟩ := stage_audit hev hr
      rw [haud] at he
      rcases mem_append.mp he with he | he
      · exact mem_append_left _ (ih htx0 he)
      · exact mem_append_right _ (by simpa [insertedAudit] using he)

/-- What a program that audits no version has inserted names none. -/
theorem configVersion_of_avoids {ε α : Type} {x : Proc ε α} (hx : Avoids Op.AuditsVersion x.run)
    {q : Prog Op.Resp (Except ε α)} (ha : After x.run h q) (he : e ∈ insertedAudit h) :
    e.configVersion = none := by
  obtain ⟨ev, hev, he⟩ := mem_flatMap.mp he
  have hgood := (hx.after ha).1 ev hev
  obtain ⟨o, r, s⟩ := ev
  cases o with
  | insertAudit entries =>
    cases r with
    | error err => exact absurd he not_mem_nil
    | ok u =>
      by_contra hne
      exact hgood ⟨e, he, hne⟩
  | _ => exact absurd he not_mem_nil

/-- An entry is of the tenant and version of its write. -/
theorem Audits.entry {audit : ℤ → List AuditEntry} (ha : Audits call w h audit) (he : e ∈ audit v) :
    e.tenantID = w.tenantID ∧ e.configVersion = some v := by
  cases ha with
  | fields hfields hentries =>
    obtain ⟨r, -, old, -, hentry⟩ := exists_of_forall₂ (hentries v).flip he
    exact ⟨hentry.tenant, hentry.version⟩
  | rollback hcall hentries =>
    rw [hentries, mem_singleton] at he
    exact he ▸ ⟨rfl, rfl⟩

section

variable (hr : Reach exec allowed (init.system env) c)

include hr

/-- The number that a transaction was answered with is the one it asked for. -/
theorem WriteAttempt.version_eq {pre att : Hist}
    (hatt : WriteAttempt t w att v V) (hh : (c.pool t).hist = pre ++ att) : v = V.version := by
  obtain ⟨s, hcreate⟩ := hatt.returned
  obtain ⟨ch, s', hexec⟩ := exec_of_mem hr (hh ▸ mem_append_right pre hcreate)
  exact exec_createConfigVersion hexec

/-- And so is a staged one. -/
theorem Writing.entry {k : Op.Resp .commit → Prog Op.Resp (Except Status Reply)}
    (hw : Writing env (init.calls t) (c.pool t).hist (.op .commit k))
    (htx : c.shared.txs t = some tx) (he : e ∈ tx.audit) :
    ∃ V, tx.version = some (e.tenantID, V) ∧ e.configVersion = some V.version := by
  obtain ⟨w, audit, rest, pre, post, hh, hfin, -, -, -, haud, hat⟩ := hw
  obtain ⟨pre', att, v, -, hatt, rfl⟩ := hat.at_commit
  rw [← append_assoc] at hh
  have hrep := (reach_txs hr t).symm.trans htx
  rw [hh, replay_append] at hrep
  obtain ⟨V, hV, hatt', -⟩ := replay_versionTx hfin.quiet hatt hrep
  obtain ⟨tail, hrun, htail⟩ := replay_versionTx_audit hfin.quiet hatt hrep
  rw [htail, hfin.inserted hrun] at he
  obtain ⟨htenant, hversion⟩ := haud.entry he
  exact ⟨V, htenant ▸ hV, hversion.trans (congrArg some (hatt'.version_eq hr hh))⟩

/-- **The entries of a transaction that name a version** name the one that it commits. -/
theorem version_of_pending
    (hp : pendingTx c t = some tx) (he : e ∈ tx.audit) (hn : e.configVersion = some n) :
    ∃ V, tx.version = some (e.tenantID, V) ∧ V.version = n := by
  obtain ⟨⟨k, hk⟩, htx⟩ := pendingTx_eq_some.mp hp
  have hafter := reach_after hr t
  rw [hk] at hafter
  have hlate : Late Op.IsCommit (Prog.op .commit k) := rfl
  have hins := mem_insertedAudit_of_replay ((reach_txs hr t).symm.trans htx) he
  have hno : ∀ {x : Proc Status Reply}, Avoids Op.AuditsVersion x.run →
      ¬ After x.run (c.pool t).hist (.op .commit k) := by
    intro x hx ha
    rw [configVersion_of_avoids hx ha hins] at hn
    cases hn
  cases Call.cleared (q := .op .commit k) (.inl trivial) hafter with
  | repeated hdup => cases hdup
  | preparing hw =>
    obtain ⟨V, hV, hversion⟩ := (hw.writing hlate).entry hr htx he
    exact ⟨V, hV, Option.some.inj (hversion.symm.trans hn)⟩
  | unchanged _ hend => cases hend
  | other hcall =>
    exfalso
    generalize init.calls t = call at hafter hcall
    cases call with
    | lockField | unlockField =>
      simp only [Call.proc, lockField, unlockField] at hafter
      refine hno (avoids_changeLock Op.AuditsVersion.not_read fun T => ?_) hafter
      refine avoids_runInTx id id id (.bind_run ⟨id, fun _ => trivial⟩ fun _ => ?_)
      exact insertAudit_unversioned (by simp [lockAudit])
    | createTenant => exact hno createTenant_unversioned hafter
    | getConfig | getField | getFields | diffVersions | exportConfig | subscribe =>
      exact Call.not_settling hafter trivial trivial
    | _ => cases hcall

end

/-- A step adds no entries of a version whose number is taken. -/
theorem entriesOf_step (hr : Reach exec allowed (init.system env) c)
    (hs : step exec c t ch = some c') (hn : n ∈ versionNumbers (c.shared.db.log T)) :
    c'.shared.db.entriesOf T n = c.shared.db.entriesOf T n := by
  rcases db_of_step hs with hdb | ⟨tx, hp, hdb⟩
  · rw [hdb]
  · have hnil : tx.audit.filter (fun e => e.tenantID = T ∧ e.configVersion = some n) = [] := by
      refine filter_eq_nil_iff.mpr fun e he hsel => ?_
      obtain ⟨rfl, hversion⟩ := of_decide_eq_true hsel
      obtain ⟨V, hV, rfl⟩ := version_of_pending hr hp he hversion
      exact ((reach_consistent hr).pending _ _ _ _ (pendingTx_eq_some.mp hp).2 hV).2.1 hn
    rw [hdb, Tables.entriesOf, Tx.apply, filter_append, hnil, append_nil]
    rfl

/-- The entries of a version do not change. -/
theorem entriesOf_stable {c0 : System} (hr0 : Reach exec allowed (init.system env) c0)
    (hr : Reach exec allowed c0 c) (hn : n ∈ versionNumbers (c0.shared.db.log T)) :
    c.shared.db.entriesOf T n = c0.shared.db.entriesOf T n := by
  refine hr.invariant (fun c => c.shared.db.entriesOf T n = c0.shared.db.entriesOf T n) rfl ?_
  intro c c' u ch hr ih ha hs
  have hn' : n ∈ versionNumbers (c.shared.db.log T) :=
    (((reach_le hr).log T).map ConfigVersion.version).subset hn
  exact (entriesOf_step (hr0.trans hr) hs hn').trans ih

/-- A free version has none. -/
theorem entriesOf_free (hr : Reach exec allowed (init.system env) c)
    (hn : n ∉ versionNumbers (c.shared.db.log T)) : c.shared.db.entriesOf T n = [] := by
  refine hr.invariant (fun c => n ∉ versionNumbers (c.shared.db.log T) →
    c.shared.db.entriesOf T n = []) (fun _ => rfl) ?_ hn
  intro c c' u ch hr ih ha hs hn
  have hlog := (reach_le (.tail (.refl c) ha hs)).log T
  have hold := ih fun h => hn ((hlog.map ConfigVersion.version).subset h)
  rcases db_of_step hs with hdb | ⟨tx, hp, hdb⟩
  · rw [hdb, hold]
  · rw [hdb, Tables.entriesOf, Tx.apply, filter_append]
    refine append_eq_nil_iff.mpr ⟨hold, filter_eq_nil_iff.mpr fun e he hsel => ?_⟩
    obtain ⟨rfl, hversion⟩ := of_decide_eq_true hsel
    obtain ⟨V, hV, rfl⟩ := version_of_pending hr hp he hversion
    refine hn (mem_map_of_mem ?_)
    rw [hdb, Tx.apply_log]
    exact mem_append_right _ (Tx.mem_added.mpr hV)

/-- **The entries of a version** are those of the transaction that committed it. -/
theorem entriesOf_commit (hc : CommitStep env init allowed T L V tx c₁ c₂)
    (hr : Reach exec allowed c₂ c) : c.shared.db.entriesOf T V.version =
      tx.audit.filter fun e => e.tenantID = T ∧ e.configVersion = some V.version := by
  rw [entriesOf_stable hc.reached hr (by rw [hc.log_after]; simp), hc.db, Tables.entriesOf,
    Tx.apply, filter_append]
  have hnil := entriesOf_free hc.reach (T := T) (n := V.version) (by rw [hc.log]; exact hc.free)
  rw [Tables.entriesOf] at hnil
  rw [hnil, nil_append]

/-! ### Steps that audit what they change -/

/-- The call writes an audit entry for each field that it changes. -/
def Call.auditsFields : Call → Bool
  | setField _ _ | setFields _ _ | importConfig _ _ => true
  | _ => false

/-- The call records the empty string as a new value. -/
def Call.keepsEmpty : Call → Bool
  | importConfig _ _ => true
  | _ => false

/-- The value of a field in a snapshot. -/
def valueAtVersion (L : List ConfigVersion) (version : ℤ) (f : String) : Option String :=
  (configValueAtVersion L version f).bind ConfigValue.value

/-- What a call read as the current value of a field is the value in the log: no read of it
failed, and no version that the call has not seen has a row for it. -/
def ReadCurrent (T : String) (log : List ConfigVersion) (h : Hist) (f : String) : Prop :=
  ∀ e ∈ h, readFailed T f e = false ∧ ∀ L ∈ logAtRead T e, ∀ W ∈ log, W ∈ L ∨ W.row f = none

instance (log : List ConfigVersion) : Decidable (ReadCurrent T log h f) :=
  inferInstanceAs (Decidable (∀ e ∈ h, _))

/-- A change of a field that an audit entry can tell: neither value is missing if the field is
sensitive, and neither is the empty string if it is not. -/
def Recordable (call : Call) (sensitive : Bool) (old new : Option String) : Prop :=
  if sensitive then old ≠ none ∧ new ≠ none
  else old ≠ some "" ∧ (new ≠ some "" ∨ call.keepsEmpty = true)

instance (sensitive : Bool) (old new : Option String) :
    Decidable (Recordable call sensitive old new) :=
  inferInstanceAs (Decidable (if sensitive then _ else _))

/-- The step, if it commits a version, has room for it, and if its call audits fields, it was
decided on the current values and changes them recordably. -/
def AuditedStep (init : Init) (c : System) (t : ℕ) (_ : Choice) : Prop :=
  ∀ p ∈ pendingCommit c t, (c.shared.db.log p.2.1).length + 1 < 2 ^ 31 ∧
    ((init.calls t).auditsFields = true →
      ∀ sv ∈ c.shared.db.boundSchema p.2.1, ∀ row ∈ p.2.2.values,
      ReadCurrent p.2.1 (c.shared.db.log p.2.1) (c.pool t).hist row.fieldPath ∧
        Recordable (init.calls t) (isSensitive sv.fields row.fieldPath)
          (valueAtVersion (c.shared.db.log p.2.1) (c.shared.db.log p.2.1).length row.fieldPath)
          row.value)

instance : Decidable (AuditedStep init c t ch) :=
  inferInstanceAs (Decidable (∀ p ∈ pendingCommit c t, _))

/-! ### Entries and rows -/

/-- **The audit entry records the row**: its value, and the value before, both redacted if the
field is sensitive. -/
structure Records (fields : List SchemaField) (before : String → Option String)
    (row : ConfigValue) (e : AuditEntry) : Prop where
  path : e.fieldPath = some row.fieldPath
  newValue : e.newValue = row.value.map (redactIfSensitive (isSensitive fields row.fieldPath))
  oldValue : e.oldValue =
    (before row.fieldPath).map (redactIfSensitive (isSensitive fields row.fieldPath))

theorem ptrString_derefString (h : o ≠ some "") : ptrString (derefString o) = o := by
  cases o with
  | none => rfl
  | some s => exact ptrString_of_ne fun hs => h (congrArg some hs)

theorem Call.recordedValue_derefString (call : Call) (h : o ≠ some "" ∨ call.keepsEmpty = true)
    (hnone : call.keepsEmpty = true → o ≠ none) : call.recordedValue (derefString o) = o := by
  cases call with
  | importConfig =>
    obtain ⟨s, rfl⟩ := Option.ne_none_iff_exists'.mp (hnone rfl)
    rfl
  | _ => exact ptrString_derefString (h.resolve_right (by simp [keepsEmpty]))

/-- When an entry records its row. -/
theorem EntryOf.records {fields : List SchemaField} {before : String → Option String}
    (h : EntryOf call fields T old v row e) (hold : old = derefString (before row.fieldPath))
    (hrec : Recordable call (isSensitive fields row.fieldPath) (before row.fieldPath) row.value)
    (hnone : call.keepsEmpty = true → row.value ≠ none) : Records fields before row e := by
  obtain ⟨-, hpath, holdValue, hnewValue, -⟩ := h
  rw [hold] at holdValue
  cases hs : isSensitive fields row.fieldPath with
  | true =>
    rw [hs] at holdValue hnewValue hrec
    obtain ⟨⟨old', hold'⟩, new, hnew⟩ :=
      And.intro (Option.ne_none_iff_exists'.mp hrec.1) (Option.ne_none_iff_exists'.mp hrec.2)
    refine ⟨hpath, ?_, ?_⟩
    · rw [hs, hnewValue, hnew]
      cases call with
      | importConfig => rfl
      | _ => exact ptrString_of_ne (s := "[REDACTED]") (by decide)
    · rw [hs, holdValue, hold']
      exact ptrString_of_ne (s := "[REDACTED]") (by decide)
  | false =>
    rw [hs] at holdValue hnewValue hrec
    have hid : ∀ o : Option String, o.map (redactIfSensitive false) = o := fun o => Option.map_id'
    refine ⟨hpath, ?_, ?_⟩
    · rw [hs, hnewValue, hid]
      exact call.recordedValue_derefString hrec.2 hnone
    · rw [hs, holdValue, hid]
      exact ptrString_derefString hrec.1

/-! ### The values before -/

/-- The old value is that of the previous version. -/
theorem CommitStep.old_value (hc : CommitStep env init allowed T L V tx c₁ c₂)
    (hlen : L.length < 2 ^ 31 - 1) (hcur : ReadCurrent T L (c₁.pool V.writer).hist f)
    (hold : CurrentRead T f old (c₁.pool V.writer).hist) :
    old = derefString (valueAtVersion L L.length f) := by
  obtain ⟨r, s, hmem, ⟨v, s', hfailed⟩ | rfl⟩ := hc.current_read hlen hold
  · exact absurd (hcur _ hfailed).1 (by simp [readFailed])
  · obtain ⟨M, hM⟩ : s.db.log T <+: L := hc.log_prefix hmem
    have hd := hc.dense
    -- what was committed since has no row for the field
    have habsent : ∀ W ∈ M, W.row f = none := by
      intro W hW
      rcases (hcur _ hmem).2 (s.db.log T) (by simp [logAtRead]) W
        (hM ▸ mem_append_right _ hW) with hin | hnone
      · subst hM
        have hle := (hd.of_prefix (prefix_append _ M)).le_length_of_mem
          (by rw [length_append] at hlen; omega) (mem_map_of_mem hin)
        have hlt := hd.lt_of_mem_append (by omega) hW
        omega
      · exact hnone
    have hrow : configValueAtVersion (s.db.log T) (s.db.log T).length f =
        configValueAtVersion L L.length f := by
      subst hM
      have hle : ∀ W ∈ s.db.log T, W.version ≤ (s.db.log T).length := fun W hW =>
        (hd.of_prefix (prefix_append _ M)).le_length_of_mem
          (by rw [length_append] at hlen; omega) (mem_map_of_mem hW)
      calc configValueAtVersion (s.db.log T) (s.db.log T).length f
          = configValueAtVersion (s.db.log T) (s.db.log T ++ M).length f :=
            DeltaLog.rowAt_of_le hle (fun W hW => (hle W hW).trans (by simp)) f
        _ = configValueAtVersion (s.db.log T ++ M) (s.db.log T ++ M).length f :=
            (DeltaLog.rowAt_append_of_absent habsent _).symm
    rw [hrow, valueAtVersion]
    cases configValueAtVersion L L.length f <;> rfl

theorem Source.value_ne_none (hs : Source env call w h) (hkeep : call.keepsEmpty = true)
    (hrow : row ∈ w.rows) : row.value ≠ none := by
  cases hs with
  | importConfig =>
    obtain ⟨v, -, rfl⟩ := mem_map.mp hrow
    exact Option.some_ne_none _
  | setField | setFields | rollbackToVersion => cases hkeep

theorem length_lt_of_audited (hr : Reach exec (AuditedStep init) (init.system env) c) :
    (c.shared.db.log T).length < 2 ^ 31 := by
  refine log_induction (P := fun L => L.length < 2 ^ 31) hr (by simp) ?_
  intro L V tx c₁ c₂ hc _ _
  obtain ⟨ch, ha, -⟩ := hc.step
  have hlen := (ha _ hc.pendingCommit).1
  rw [hc.log] at hlen
  simpa using hlen

/-- **The transaction of a version audits what it changes.** -/
theorem CommitStep.audit (hc : CommitStep env init (AuditedStep init) T L V tx c₁ c₂)
    (hcall : (init.calls V.writer).auditsFields = true) :
    ∃ sv, c₁.shared.db.boundSchema T = some sv ∧
      Forall₂ (Records sv.fields (valueAtVersion L L.length)) V.values tx.audit ∧
      ∀ e ∈ tx.audit, e.tenantID = T ∧ e.configVersion = some V.version := by
  obtain ⟨ch, ha, -⟩ := hc.step
  obtain ⟨hlen, hstep⟩ := ha _ hc.pendingCommit
  replace hstep := hstep hcall
  rw [hc.log] at hlen hstep
  cases hc.committing with
  | seed hseed => exact absurd hcall (by simp [hseed, Call.auditsFields])
  | @write w rest pre att v V hh hprep hsrc hatt audit hfin hend haud htx =>
    have hnum := hatt.version_eq hc.reach hh
    have hentry : ∀ e ∈ tx.audit, e.tenantID = w.tenantID ∧ e.configVersion = some V.version := by
      intro e he
      rw [htx] at he
      exact hnum ▸ haud.entry he
    cases haud with
    | rollback hroll => exact absurd hcall (by simp [hroll, Call.auditsFields])
    | fields hfields hentries =>
      have hsub : pre <+ (c₁.pool V.writer).hist := hh ▸ sub_here
      obtain ⟨sv, hsv, rfl⟩ := schemaRead_now hc.reach (hfields.mono hsub)
      refine ⟨sv, hsv, ?_, hentry⟩
      rw [htx, hatt.values]
      refine ((forall₂_and_left _ _).mpr ⟨fun r hr => hr, hentries v⟩).imp ?_
      rintro row e ⟨hrow, old, hold, he⟩
      obtain ⟨hcur, hrec⟩ := hstep sv hsv row (hatt.values ▸ hrow)
      exact he.records (hc.old_value (by omega) hcur (hold.mono hsub)) hrec
        fun hkeep => hsrc.value_ne_none hkeep hrow

/-- **The audit trail of a version**, along every run whose commits were decided on the current
values: the entries of a version that `SetField`, `SetFields` or `ImportConfig` has committed
record its rows one by one, each with the value in the snapshot before. -/
theorem audit_trail_of_version (hr : Reach exec (AuditedStep init) (init.system env) c)
    (hV : V ∈ c.shared.db.log T) (hcall : (init.calls V.writer).auditsFields = true) :
    ∃ sv, c.shared.db.boundSchema T = some sv ∧
      List.Forall₂ (Records sv.fields (valueAtVersion (c.shared.db.log T) (V.version - 1)))
        V.values (c.shared.db.entriesOf T V.version) := by
  obtain ⟨L, rest, hlog⟩ := append_of_mem hV
  obtain ⟨tx, c₁, c₂, hc, hr2⟩ := exists_commitStep hr hlog
  obtain ⟨sv, hsv, hrecords, hentries⟩ := hc.audit hcall
  refine ⟨sv, (hc.le.trans (reach_le hr2)).boundSchema hsv, ?_⟩
  have hlen := length_lt_of_audited (T := T) hr
  have hd := reach_dense hr T
  rw [hlog] at hlen hd
  -- later versions have greater numbers, so the snapshot before is that of the log before
  have hnum : V.version - 1 = L.length := by
    rw [hc.number.2, wrap32_of_lt (by omega) (by simp at hlen; omega)]
    simp
  have hbefore : valueAtVersion (c.shared.db.log T) (V.version - 1) =
      valueAtVersion L L.length := by
    funext f
    rw [hlog, hnum]
    exact congrArg (·.bind ConfigValue.value)
      (DeltaLog.rowAt_append_of_lt (fun W hW => hd.lt_of_mem_append hlen hW) f)
  have hall : tx.audit.filter (fun e => e.tenantID = T ∧ e.configVersion = some V.version) =
      tx.audit := filter_eq_self.mpr fun e he => decide_eq_true (hentries e he)
  rw [hbefore, entriesOf_commit hc hr2, hall]
  exact hrecords

open Sample

/-- Of two writes of one field, the second records what the first has written. -/
theorem audit_trail_of_version_second : ∃ (c : System) (V : ConfigVersion) (sv : SchemaVersion),
      Reach exec (AuditedStep (Sample.init [] [set superadmin "b" "x", set superadmin "b" "y"]))
        ((Sample.init [] [set superadmin "b" "x",
          set superadmin "b" "y"]).system (world noDocument)) c ∧
      V ∈ c.shared.db.log tenant ∧ V.version = 2 ∧
      valueAtVersion (c.shared.db.log tenant) 1 "b" = some "x" ∧
      List.Forall₂ (Records sv.fields (valueAtVersion (c.shared.db.log tenant) 1))
        V.values (c.shared.db.entriesOf tenant 2) := by
  obtain ⟨c, hr, hlen, hlast, hbefore⟩ : ∃ c, Reach exec (AuditedStep (Sample.init []
          [set superadmin "b" "x", set superadmin "b" "y"]))
        ((Sample.init [] [set superadmin "b" "x",
          set superadmin "b" "y"]).system (world noDocument)) c ∧
      (c.shared.db.log tenant).length = 2 ∧
      (∀ V ∈ (c.shared.db.log tenant).getLast?, V.version = 2 ∧ V.writer = 1) ∧
      valueAtVersion (c.shared.db.log tenant) 1 "b" = some "x" :=
    exists_reach_of_run (steps 0 16 ++ steps 1 17) (by decide +kernel)
  obtain ⟨U, V, hlog⟩ := length_eq_two.mp hlen
  obtain ⟨hnum, hwriter⟩ := hlast V (by rw [hlog]; rfl)
  have hV : V ∈ c.shared.db.log tenant := by simp [hlog]
  obtain ⟨sv, -, hrecords⟩ := audit_trail_of_version hr hV (by rw [hwriter]; rfl)
  rw [hnum] at hrecords
  exact ⟨c, V, sv, hr, hV, hnum, hbefore, hrecords⟩

/-- **An old value that is stale**: the second `SetField` reads the current value before the
first commits, and commits after it. Its entry has no old value, and the field had one. -/
theorem audit_trail_stale : ∃ c V, Reach exec anyStep ((Sample.init [] [set superadmin "b" "x",
          set superadmin "b" "y"]).system (world noDocument)) c ∧
      V ∈ c.shared.db.log tenant ∧ V.version = 2 ∧
      V.values.map ConfigValue.fieldPath = ["b"] ∧
      (c.shared.db.entriesOf tenant 2).map AuditEntry.oldValue = [none] ∧
      valueAtVersion (c.shared.db.log tenant) 1 "b" = some "x" := by
  obtain ⟨c, hr, hlen, hlast, hentries, hbefore⟩ : ∃ c, Reach exec anyStep ((Sample.init []
          [set superadmin "b" "x", set superadmin "b" "y"]).system
          (world noDocument)) c ∧
      (c.shared.db.log tenant).length = 2 ∧
      (∀ V ∈ (c.shared.db.log tenant).getLast?, V.version = 2 ∧
        V.values.map ConfigValue.fieldPath = ["b"]) ∧
      (c.shared.db.entriesOf tenant 2).map AuditEntry.oldValue = [none] ∧
      valueAtVersion (c.shared.db.log tenant) 1 "b" = some "x" :=
    exists_reach_of_run (steps 1 7 ++ steps 0 16 ++ steps 1 9) (by decide +kernel)
  obtain ⟨U, V, hlog⟩ := length_eq_two.mp hlen
  obtain ⟨hnum, hpaths⟩ := hlast V (by rw [hlog]; rfl)
  exact ⟨c, V, hr, by simp [hlog], hnum, hpaths, hentries, hbefore⟩

end Decree
