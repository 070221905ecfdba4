import Decree.ExportImport

/-!
# Losing Against Other Writers

A config write takes the number after the latest one that its transaction reads. If another
write commits that number first, the transaction is rolled back and tried again, four times in all
(`retryOnVersionConflict`); then the call returns `Aborted`.

Every lost attempt was overtaken by a commit: between its read of the latest version and its
insert the log has grown. So a call that returns `Aborted` has met four commits of other calls,
as long as numbers are left. When the last 32-bit number is taken every attempt is lost without any
other writer.

## Main results

* `Call.conflicted`: what an aborted call has done.
* `version_conflicts_counted`: the commits that it met.
-/

open Go Interleave List

namespace Decree

/-! ### Lost attempts -/

/-- **The trace of a lost attempt**: the transaction reads the latest version, compares
checksums, finds the next number taken and is rolled back. -/
def Conflict (T : String) (att : Hist) : Prop :=
  ∃ s₀ r s₁ latest checks p s₂ s₃,
    att = ⟨.begin, (.ok () : Except StoreErr Unit), s₀⟩ ::
      readEvent true (.latestConfigVersion T) r s₁ :: (checks ++
        [⟨.createConfigVersion p, (.error .versionConflict : Except StoreErr ℤ), s₂⟩,
          ⟨.rollback, (), s₃⟩]) ∧
    versionOrZero r = .ok latest ∧ OnlyReads checks ∧ p.tenantID = T ∧
    p.version = wrap32 (latest + 1)

/-- The call has committed nothing and lost all its attempts. -/
def Lost (T : String) (h : Hist) : Prop :=
  NoCommit h ∧ ∃ (pre : Hist) (atts : List Hist), h = pre ++ atts.flatten ∧ atts.length = 4 ∧
    ∀ att ∈ atts, Conflict T att

/-- What came before does not matter. -/
theorem Lost.append {T : String} {pre h : Hist} (hpre : NoCommit pre) (hl : Lost T h) :
    Lost T (pre ++ h) := by
  obtain ⟨hn, pre', atts, rfl, hlen, hatts⟩ := hl
  exact ⟨noCommit_append.mpr ⟨hpre, hn⟩, pre ++ pre', atts, by simp, hlen, hatts⟩

/-! ### The transaction -/

/-- The error is neither a conflict nor this status. -/
def TxErr.Other (e : Status) (x : TxErr) : Prop :=
  x ≠ .conflict ∧ x ≠ .status e

/-- The status can only report a conflict: its code is `Aborted`, and it is not the message of
a checksum. -/
structure Status.ForConflict (e : Status) : Prop where
  code : e.code = .aborted
  message : ∀ m, e.message ≠ "checksum mismatch for " ++ m

section Transaction

variable {α β : Type} {env : Env} {T : String} {w : VersionWrite} {rest : ℤ → Proc TxErr Unit}
  {evs : Hist} {e : Status} {rules : List DependentRequiredEntry}
  {audit : ℤ → List AuditEntry}

/-- A failure of the store is no conflict. -/
theorem other_failed : TxErr.failed.Other e := ⟨by simp, by simp⟩

/-- Audit entries end in no conflict. -/
theorem other_insertAudit (entries : List AuditEntry) :
    FailsWith (TxErr.Other e) (insertAudit entries).run := by
  refine failsWith_ask fun r x h => ?_
  cases r with
  | error y => exact Except.error.inj h ▸ other_failed
  | ok u => cases h

section

variable (he : e.ForConflict)

include he

/-- Another status is no conflict. -/
theorem Status.ForConflict.status {s : Status} (hs : s.code ≠ .aborted) :
    (TxErr.status s).Other e := by
  refine ⟨by simp, fun h => hs ?_⟩
  rw [TxErr.status.inj h]
  exact he.code

/-- An internal error is no conflict. -/
theorem Status.ForConflict.internal (message : String) :
    (TxErr.status (Decree.internal message)).Other e :=
  he.status (by simp [Decree.internal])

/-- The latest version ends in no conflict. -/
theorem other_txLatestVersion : FailsWith (TxErr.Other e) (txLatestVersion T).run := by
  refine failsWith_ask fun r x h => ?_
  rcases r with (_ | _ | _ | _) | v
  case error.notFound | ok => cases h
  all_goals exact Except.error.inj h ▸ he.internal _

/-- A checksum that differs is no conflict. -/
theorem other_checkChecksumAtVersion {f c : String} {v : ℤ} :
    FailsWith (TxErr.Other e) (checkChecksumAtVersion T f c v).run := by
  rw [checkChecksumAtVersion]
  split
  · exact trivial
  refine failsWith_ask fun r x h => ?_
  rw [compareChecksum.eq_def] at h
  split at h
  · split at h
    · cases h
    · cases h
      refine ⟨by simp, fun hs => ?_⟩
      have hm := congrArg Status.message (TxErr.status.inj hs)
      rw [String.append_assoc, String.append_assoc, String.append_assoc, String.append_assoc] at hm
      exact he.message _ hm.symm
  · cases h
  · exact Except.error.inj h ▸ he.internal _

/-- The CEL rules end in no conflict. -/
theorem other_fetchCelArtifactsForTenant :
    FailsWith (TxErr.Other e) (fetchCelArtifactsForTenant env T).run := by
  rw [fetchCelArtifactsForTenant]
  split
  · refine (failsWith_fetch fun _ => he.internal _).bind_run fun sv => ?_
    split
    · exact trivial
    · refine (failsWith_fetch fun _ => he.internal _).bind_run fun bound => ?_
      refine (failsWith_ofExcept fun y h => ?_).bind_run fun rules => ?_
      · cases hc : compileRules env bound.fields sv.validations with
        | error m =>
          rw [hc] at h
          exact Except.error.inj h ▸ he.internal _
        | ok rules =>
          rw [hc] at h
          cases h
      · exact (failsWith_fieldTypeMap he.internal).bind_run fun _ => trivial
  · exact trivial

/-- Broken rules are no conflict. -/
theorem other_enforceDependentRequiredInTx {v : ℤ} :
    FailsWith (TxErr.Other e) (enforceDependentRequiredInTx env T v rules).run := by
  refine (other_fetchCelArtifactsForTenant he).bind_run fun cel => ?_
  rw [enforceCrossFieldInTx]
  split
  · exact trivial
  refine (failsWith_fetch fun _ => other_failed).bind_run fun rows => ?_
  refine (failsWith_ofExcept fun y h => ?_).bind_run fun _ => ?_
  · rw [dependentRequiredCheck] at h
    split at h
    · cases h
      exact ⟨by simp, by simp⟩
    · cases h
  · cases cel with
    | none => exact trivial
    | some art =>
      refine (failsWith_fetch fun _ => other_failed).bind_run fun tn => ?_
      refine failsWith_ofExcept fun y h => ?_
      rw [celCheck] at h
      split at h
      · exact Except.error.inj h ▸ other_failed
      · cases h
      · cases h
        exact ⟨by simp, by simp⟩

/-- The rest of a transaction ends in no conflict. -/
theorem Finishes.other {h : Hist} (hp : Finishes env T audit rest h) (v : ℤ) :
    FailsWith (TxErr.Other e) (rest v).run := by
  obtain ⟨rules, -, rfl | rfl⟩ := hp
  · exact (other_enforceDependentRequiredInTx he).bind_run fun _ => other_insertAudit _
  · exact (other_insertAudit _).bind_run fun _ => other_enforceDependentRequiredInTx he

end

section

variable (hrest : ∀ v, FailsWith (TxErr.Other e) (rest v).run) (he : e.ForConflict)

include hrest he

/-- **A version conflict is met by the insert** of the version. -/
theorem versionTx_conflict {x : TxErr} (hx : ¬ x.Other e)
    (h : Runs (versionTx w rest).run evs (.error x)) : x = .conflict ∧ ∃ r s1 latest checks p s2,
      evs = readEvent true (.latestConfigVersion w.tenantID) r s1 :: (checks ++
        [⟨.createConfigVersion p, (.error .versionConflict : Except StoreErr ℤ), s2⟩]) ∧
      versionOrZero r = .ok latest ∧ OnlyReads checks ∧ p.tenantID = w.tenantID ∧
      p.version = wrap32 (latest + 1) := by
  obtain ⟨e1, e2, latest, rfl, hl, h2⟩ := (other_txLatestVersion he).of_bind_error hx h
  obtain ⟨checks, e3, _, rfl, hc, h3⟩ := (FailsWith.forEach (fun p : String × String =>
    other_checkChecksumAtVersion he) w.expected).of_bind_error hx h2
  obtain ⟨r, s1, rfl, hr⟩ := runs_ask.mp hl
  have hreads := ((Avoids.forEach checkChecksumAtVersion_onlyReads w.expected).after hc).1
  rcases runs_bind_error h3 with hv | ⟨e4, e5, v, rfl, hv, h5⟩
  · obtain ⟨r2, s2, rfl, hr2⟩ := runs_ask.mp hv
    rcases r2 with (_ | _ | _ | _) | v
    case error.versionConflict =>
      cases hr2
      exact ⟨rfl, r, s1, latest, checks, _, s2, rfl, mapError_eq_ok.mp hr,
        fun e he => not_not.mp (hreads e he), rfl, rfl⟩
    case ok => cases hr2
    all_goals exact absurd (Except.error.inj hr2 ▸ other_failed) hx
  · -- past the insert there is no conflict
    have hset : FailsWith (TxErr.Other e) (setConfigValues w.rows).run := by
      refine failsWith_ask fun r y h => ?_
      cases r with
      | error z => exact Except.error.inj h ▸ other_failed
      | ok u => cases h
    have hend : FailsWith (TxErr.Other e) (pure v : Proc TxErr ℤ).run := trivial
    have htail := hset.bind_run fun _ => (hrest v).bind_run fun _ => hend
    exact absurd (htail.error h5) hx

/-- A transaction that is lost met a taken number. -/
theorem runInTx_lost {x : TxErr} (hx : ¬ x.Other e)
    (h : Runs (runInTx (versionTx w rest)).run evs (.error x)) :
    x = .conflict ∧ Conflict w.tenantID evs := by
  rcases runs_bind_error h with hb | ⟨e1, e2, _, rfl, hb, hk⟩
  · obtain ⟨r, s, rfl, hr⟩ := runs_ask.mp hb
    cases r with
    | error y => exact absurd (Except.error.inj hr ▸ other_failed) hx
    | ok u => cases hr
  · obtain ⟨r, s0, rfl, hr⟩ := runs_ask.mp hb
    obtain rfl : r = (.ok () : Except StoreErr Unit) := mapError_eq_ok.mp hr
    obtain ⟨e3, e4, y, rfl, hy, hf⟩ := runs_bind.mp hk
    cases y with
    | error y =>
      obtain ⟨u, s3, rfl, hyx⟩ := runs_request.mp hf
      cases hyx
      obtain ⟨rfl, r, s1, latest, checks, p, s2, rfl, hlat, hreads, hT, hnum⟩ :=
        versionTx_conflict hrest he hx hy
      exact ⟨rfl, s0, r, s1, latest, checks, p, s2, s3, by simp, hlat, hreads, hT, hnum⟩
    | ok a =>
      obtain ⟨r, s', rfl, hfail⟩ := runs_request.mp hf
      cases r with
      | error z => exact absurd (Except.error.inj hfail ▸ other_failed) hx
      | ok u => cases hfail

/-- All attempts met a taken number. -/
theorem retry_lost {x : TxErr} (hx : ¬ x.Other e) {n : ℕ}
    (h : Runs (retryOnVersionConflict (runInTx (versionTx w rest)) n).run evs (.error x)) :
    ∃ atts : List Hist, evs = atts.flatten ∧ atts.length = n + 1 ∧
      ∀ att ∈ atts, Conflict w.tenantID att := by
  induction n generalizing evs with
  | zero => exact ⟨[evs], by simp, rfl, by simpa using (runInTx_lost hrest he hx h).2⟩
  | succ n ih =>
    obtain ⟨e1, e2, r, rfl, hr, hf⟩ := runs_bind.mp h
    rcases r with y | a
    · by_cases hy : y = .conflict
      · subst hy
        have hother : ¬ (TxErr.conflict).Other e := fun h => h.1 rfl
        obtain ⟨atts, rfl, hlen, hatts⟩ := ih hf
        refine ⟨e1 :: atts, rfl, by simp [hlen], ?_⟩
        intro att hatt
        rcases mem_cons.mp hatt with rfl | hatt
        · exact (runInTx_lost hrest he hother hr).2
        · exact hatts att hatt
      · -- another error ends the attempts
        have hret : Runs (.ret (.error y) : Prog Op.Resp (Except TxErr ℤ)) e2 (.error x) := by
          cases y with
          | conflict => exact absurd rfl hy
          | status | crossField | failed => exact hf
        obtain ⟨-, hyx⟩ := runs_ret.mp hret
        cases hyx
        exact absurd (runInTx_lost hrest he hx hr).1 hy
    · cases (runs_ret.mp hf).2

end

/-- A conflict commits nothing. -/
theorem conflict_noCommit {att : Hist} (h : Conflict T att) : NoCommit att := by
  obtain ⟨s0, r, s1, latest, checks, p, s2, s3, rfl, -, hreads, -⟩ := h
  have hchecks : NoCommit checks := by
    intro ev hev
    obtain ⟨inTx, q, hop⟩ := hreads ev hev
    simp [hop, Op.IsCommit]
  simp [hchecks]

/-- **A config write that reports a version conflict** has lost its attempts. -/
theorem commitWrite_lost {message failed : String} {pass : Bool}
    {changes : Option (List FieldChange)} (he : Status.ForConflict ⟨.aborted, message⟩)
    (hrest : ∀ v, FailsWith (TxErr.Other ⟨.aborted, message⟩) (rest v).run)
    (h : Runs (commitWrite w rest (txStatus message failed pass) changes).run evs
      (.error ⟨.aborted, message⟩)) : Lost w.tenantID evs := by
  obtain ⟨e1, e2, y, rfl, hn, hy, hstatus⟩ := commitWrite_error h
  have hx : ¬ y.Other ⟨.aborted, message⟩ := by
    cases y with
    | conflict => exact fun h => h.1 rfl
    | status s =>
      cases pass with
      | true => exact fun h => h.2 (congrArg TxErr.status hstatus.symm)
      | false => cases hstatus
    | crossField m => cases hstatus
    | failed => cases hstatus
  obtain ⟨atts, rfl, hlen, hatts⟩ := retry_lost hrest he hx hy
  refine Lost.append hn ⟨?_, [], atts, rfl, hlen, hatts⟩
  intro ev hev
  obtain ⟨att, hatt, hmem⟩ := mem_flatten.mp hev
  exact conflict_noCommit (hatts att hatt) ev hmem

end Transaction

/-! ### The calls -/

section Calls

variable {env : Env} {e : Status} {message : String} {call : Call}

/-- A status is told by its message. -/
theorem forConflict_of_message (h : message.toList[1]? = some 'o') :
    Status.ForConflict ⟨.aborted, message⟩ := by
  refine ⟨rfl, fun m hm => ?_⟩
  have hm' : message = "checksum mismatch for " ++ m := hm
  rw [hm', String.toList_append] at h
  have hchar : some 'h' = some 'o' := h
  exact absurd hchar (by decide)

/-- The conflict of a call is told by its status. -/
theorem Call.forConflict (h : call.conflict = some e) : e.ForConflict := by
  cases call with
  | setField | setFields | rollbackToVersion | importConfig =>
    cases h
    exact forConflict_of_message rfl
  | _ => cases h

/-- **What a call that returns a version conflict has done**: it has committed nothing and lost
all its attempts, for the tenant that it names. -/
theorem Call.conflicted (h : call.conflict = some e) {evs : Hist}
    (hr : Runs (call.proc env).run evs (.error e)) :
    ∃ idOrName T, call.tenantId = some idOrName ∧ Resolved idOrName T evs ∧ Lost T evs := by
  have he := Call.forConflict h
  cases Call.cleared (q := .ret (.error e)) (.inr ⟨e, fun hu => hu.ne_aborted he.code, rfl⟩) hr with
  | repeated hdup => cases hdup
  | preparing hp =>
    obtain ⟨w, pre, post, rfl, audit, rest, onError, changes, hfin, hno, -, hsrc, -, -,
      ⟨message, failed, hconf, rfl⟩, hafter⟩ := hp
    obtain rfl := Option.some.inj (h.symm.trans hconf)
    obtain ⟨idOrName, hid, hres⟩ := hsrc.resolved
    have hlost := commitWrite_lost he (hfin.other he) hafter
    exact ⟨idOrName, w.tenantID, hid, hres.mono sub_here, hlost.append hno⟩
  | unchanged _ hend =>
    cases hend
    cases he.code
  | other hcall => cases (hcall.symm.trans h)

end Calls

/-! ### Counting the commits of others -/

section Counting

variable {env : Env} {init : Init} {allowed : System → ℕ → Choice → Prop} {c c₀ c' : System}
  {t : ℕ} {T : String} {pre : Hist}

/-- A conflict is with a number of the log. -/
theorem exec_createConfigVersion_conflict {ch : Choice} {p : CreateConfigVersionParams}
    {s s' : State} (h : exec ch t (.createConfigVersion p) s =
      some ((.error .versionConflict : Except StoreErr ℤ), s')) :
    p.version ∈ versionNumbers (s.db.log p.tenantID) := by
  rcases failing_eq_some h with ⟨hfail, -⟩ | h
  · cases hfail
  · simp only [execCreateConfigVersion] at h
    split at h
    · rename_i hmem
      exact hmem
    · split at h
      · cases h
      · split at h
        · cases (answer_inj h).1
        · cases (answer_inj h).1

section

variable (hr : Reach exec allowed (init.system env) c)

include hr

/-- **In a lost attempt the log grows**: some write committed between the read of the latest
version and the insert. -/
theorem Conflict.grows
    (hlen : (c.shared.db.log T).length < 2 ^ 31) {att post : Hist} (hatt : Conflict T att)
    (hh : (c.pool t).hist = pre ++ att ++ post) :
    ∃ e e', e ∈ att ∧ (∀ e'' ∈ post, [e', e''] <+ (c.pool t).hist) ∧
      e' ∈ (c.pool t).hist ∧ (e.pre.db.log T).length < (e'.pre.db.log T).length := by
  obtain ⟨s0, r, s1, latest, checks, p, s2, s3, rfl, hlat, hreads, rfl, hnum⟩ := hatt
  have hreadMem : readEvent true (.latestConfigVersion p.tenantID) r s1 ∈ (c.pool t).hist := by
    rw [hh]
    simp
  have hinsertMem : (⟨.createConfigVersion p, (.error .versionConflict : Except StoreErr ℤ), s2⟩ :
      Event Op.Resp State) ∈ (c.pool t).hist := by
    rw [hh]
    simp
  refine ⟨readEvent true (.latestConfigVersion p.tenantID) r s1,
    ⟨.createConfigVersion p, (.error .versionConflict : Except StoreErr ℤ), s2⟩, by simp, ?_,
    hinsertMem, ?_⟩
  · intro e'' he''
    rw [hh]
    refine .append (singleton_sublist.mpr ?_) (singleton_sublist.mpr he'')
    simp
  have hpair : [readEvent true (.latestConfigVersion p.tenantID) r s1,
      ⟨.createConfigVersion p, (.error .versionConflict : Except StoreErr ℤ), s2⟩] <+
        (c.pool t).hist := by
    rw [hh, append_assoc]
    refine sub_skip (.trans ?_ sub_here)
    exact .cons _ (.cons_cons _ (singleton_sublist.mpr (by simp)))
  have hbegin : (c.pool t).hist = pre ++ (⟨.begin, (.ok () : Except StoreErr Unit), s0⟩ :: []) ++
      readEvent true (.latestConfigVersion p.tenantID) r s1 :: (checks ++
        [⟨.createConfigVersion p, (.error .versionConflict : Except StoreErr ℤ), s2⟩,
          ⟨.rollback, (), s3⟩] ++ post) := by
    rw [hh]
    simp
  have hsound : r = .error .failed ∨ r = s1.db.eval (.latestConfigVersion p.tenantID) :=
    read_sound_fresh hr (by simp [OnlyReads]) hbegin
  obtain ⟨ch, s', hexec⟩ := exec_of_mem hr hinsertMem
  have htaken := exec_createConfigVersion_conflict hexec
  have hgrown : s1.db.log p.tenantID <+: s2.db.log p.tenantID := (le_of_pair hr hpair).log _
  have hlen2 := ((le_of_mem hr hinsertMem).log p.tenantID).length_le
  have hd : Dense (s2.db.log p.tenantID) :=
    Dense.of_prefix (reach_dense hr _) ((le_of_mem hr hinsertMem).log _)
  rcases hsound with rfl | rfl
  · cases hlat
  · have hlatest := (hd.of_prefix hgrown).latest hlat
    obtain ⟨i, hi, hwrap⟩ := hd.mem_numbers.mp (hnum ▸ htaken)
    have hle := hgrown.length_le
    simp only [wrap32] at hwrap
    change (s1.db.log p.tenantID).length < (s2.db.log p.tenantID).length
    change (s2.db.log p.tenantID).length ≤ _ at hlen2
    omega

/-- **The log grows with every lost attempt.** -/
theorem length_of_conflicts
    (hlen : (c.shared.db.log T).length < 2 ^ 31) {pre : Hist} {atts : List Hist}
    (hatts : ∀ att ∈ atts, Conflict T att) (hh : (c.pool t).hist = pre ++ atts.flatten) {n : ℕ}
    (hn : n ≤ (c.shared.db.log T).length)
    (hlate : ∀ e ∈ atts.flatten, n ≤ (e.pre.db.log T).length) :
    n + atts.length ≤ (c.shared.db.log T).length := by
  induction atts generalizing pre n with
  | nil => exact hn
  | cons att atts ih =>
    rw [flatten_cons, ← append_assoc] at hh
    obtain ⟨e, e', he, hpost, he', hlt⟩ := (hatts att mem_cons_self).grows hr hlen hh
    have hne : n ≤ (e.pre.db.log T).length :=
      hlate e (by rw [flatten_cons]; exact mem_append_left _ he)
    have hle : (e'.pre.db.log T).length ≤ (c.shared.db.log T).length :=
      ((le_of_mem hr he').log T).length_le
    have hrest := ih (fun att hatt => hatts att (mem_cons_of_mem _ hatt)) hh
      (show n + 1 ≤ (c.shared.db.log T).length by omega) ?_
    · rw [length_cons]
      omega
    · intro e'' he''
      have hafter := ((le_of_pair hr (hpost e'' he'')).log T).length_le
      omega

/-- A call that has not committed has written no version. -/
theorem writer_ne_of_noCommit
    (hn : NoCommit (c.pool t).hist) {V : ConfigVersion} (hV : V ∈ c.shared.db.log T) :
    V.writer ≠ t := by
  rintro rfl
  obtain ⟨L, rest, hlog⟩ := append_of_mem hV
  obtain ⟨tx, c1, c2, hc, hr2⟩ := exists_commitStep hr hlog
  obtain ⟨-, e, he, hpre⟩ := hc.hist hr2
  exact hn e (hpre.subset (by simp)) he

/-- The versions of a log have different writers. -/
theorem nodup_writers : ((c.shared.db.log T).map ConfigVersion.writer).Nodup := by
  have hnodup : (c.shared.db.log T).Nodup := (reach_dense hr T).nodup.of_map
  refine .map_on ?_ hnodup
  intro V hV W hW hwriter
  exact eq_of_writer_eq hr hV hW hwriter

end

end Counting

/-! ### The two outcomes -/

/-- The call is one of the four that create a version, and has no idempotency key. -/
def Call.WritesUnkeyed (call : Call) : Prop :=
  call.conflict.isSome ∧ ∀ idOrName key, call.idempotency = some (idOrName, key) → key = ""

/-- **The versions that a call was overtaken by**: the log of the tenant has grown since `c₀`,
by at least four versions, of different numbers and of different calls, none of them this
one. -/
def OvertakenBy (t : ℕ) (T : String) (c₀ c : System) : Prop :=
  ∃ Vs, c.shared.db.log T = c₀.shared.db.log T ++ Vs ∧ 4 ≤ Vs.length ∧
    (versionNumbers Vs).Nodup ∧ (Vs.map ConfigVersion.writer).Nodup ∧ ∀ V ∈ Vs, V.writer ≠ t

/-- A config write without a key that succeeds returns a version. -/
theorem Call.WritesUnkeyed.returns {env : Env} {call : Call} (hw : call.WritesUnkeyed) {evs : Hist}
    {reply : Reply} (h : Runs (call.proc env).run evs (.ok reply)) : ∃ n, reply = .version n := by
  cases Call.cleared (q := .ret (.ok reply)) (.inl trivial) h with
  | repeated _ hkey hne => exact absurd (hw.2 _ _ hkey) hne
  | preparing hp =>
    obtain ⟨w, audit, rest, pre, post, -, -, -, -, -, -, hat⟩ := hp.writing trivial
    obtain ⟨_, _, n, _, _, hreply, -⟩ := hat.returned
    exact ⟨n, hreply⟩
  | unchanged _ hend => cases hend
  | other hcall => exact absurd hw.1 (by simp [hcall])

section Counted

variable {env : Env} {init : Init} {c₀ c c' : System} {t : ℕ} {ch : Choice}

/-- **An aborted call met four commits, and a successful one made one.** Whatever the calls and
their interleaving and whichever operations fail, let a call begin after `c₀` and return with
the step to `c'`. If it returns a version conflict, it has committed nothing, and while its
tenant has fewer than `2 ^ 31` versions, at least four were committed since `c₀`, by four other
calls. If it has no idempotency key and returns success, it has committed exactly one version,
which has the number that it returns. -/
theorem version_conflicts_counted (h₀ : Reach exec anyStep (init.system env) c₀)
    (hstart : (c₀.pool t).hist = []) (hr : Reach exec anyStep c₀ c)
    (hs : step exec c t ch = some c') :
    (∀ e, (init.calls t).conflict = some e → c'.returned t = some (.error e) →
      (∀ T, ∀ V ∈ c'.shared.db.log T, V.writer ≠ t) ∧
      ∃ idOrName T, (init.calls t).tenantId = some idOrName ∧
        c'.shared.db.tenantOf idOrName = some T ∧
        ((c'.shared.db.log T).length < 2 ^ 31 → OvertakenBy t T c₀ c')) ∧
    (∀ reply, (init.calls t).WritesUnkeyed → c'.returned t = some (.ok reply) →
      ∃ n T V, reply = .version n ∧ V ∈ c'.shared.db.log T ∧ V.version = n ∧ V.writer = t ∧
        ∀ T', ∀ W ∈ c'.shared.db.log T', W.writer = t → T' = T ∧ W = V) := by
  have hr' : Reach exec anyStep c₀ c' := hr.tail trivial hs
  have hreach : Reach exec anyStep (init.system env) c' := h₀.trans hr'
  have hafter := reach_after hreach t
  constructor
  · intro e hconf hret
    rw [Config.returned_eq_some.mp hret] at hafter
    obtain ⟨idOrName, T, hid, hres, hnone, pre, atts, hh, hlen, hatts⟩ :=
      Call.conflicted hconf hafter
    have hother : ∀ T, ∀ V ∈ c'.shared.db.log T, V.writer ≠ t :=
      fun T V hV => writer_ne_of_noCommit hreach hnone hV
    refine ⟨hother, idOrName, T, hid, tenantOf_now hreach hres, fun hbound => ?_⟩
    obtain ⟨Vs, hVs⟩ := (reach_le hr').log T
    refine ⟨Vs, hVs.symm, ?_, ?_, ?_, ?_⟩
    · have hcount := length_of_conflicts hreach hbound hatts hh
        (n := (c₀.shared.db.log T).length) ((reach_le hr').log T).length_le ?_
      · rw [hlen, ← hVs, length_append] at hcount
        omega
      · intro e' he'
        have hmem : e' ∈ (c'.pool t).hist := hh ▸ mem_append_right _ he'
        rcases mem_or_le hr' hmem with hold | hle
        · exact absurd hold (by rw [hstart]; exact not_mem_nil)
        · exact (hle.log T).length_le
    · have hnodup := (reach_dense hreach T).nodup
      rw [← hVs, versionNumbers, map_append] at hnodup
      exact hnodup.of_append_right
    · have hnodup := nodup_writers (T := T) hreach
      rw [← hVs, map_append] at hnodup
      exact hnodup.of_append_right
    · intro V hV
      exact hother T V (hVs ▸ mem_append_right _ hV)
  · intro reply hwrites hret
    rw [Config.returned_eq_some.mp hret] at hafter
    obtain ⟨n, rfl⟩ := hwrites.returns hafter
    obtain ⟨T, L, V, tx, c1, c2, hc, hr2, rfl, hnum, -⟩ := exists_commitStep_of_returned hreach hret
    have hV : V ∈ c'.shared.db.log T := by
      refine ((reach_le hr2).log T).subset ?_
      rw [hc.log_after]
      simp
    refine ⟨n, T, V, rfl, hV, hnum, rfl, fun T' W hW hwriter => ?_⟩
    exact version_unique hreach hW hV hwriter

end Counted

namespace Sample

def racing : Init :=
  init [] (List.replicate 5 (set superadmin "b" "x"))

/-- The first call's four attempts, each overtaken by another call, up to its last step. -/
def race : List (ℕ × Choice) :=
  steps 0 9 ++ steps 1 16 ++ steps 0 4 ++ steps 2 17 ++ steps 0 4 ++ steps 3 17 ++
    steps 0 4 ++ steps 4 17 ++ steps 0 1

end Sample

open Sample in
/-- Of five calls, the first is overtaken by the four others; without them it commits one
version. -/
theorem version_conflicts_counted_race :
    (∃ c c', Reach exec anyStep (racing.system (world noDocument)) c ∧
      step exec c 0 .ok = some c' ∧ (racing.calls 0).conflict.isSome ∧
      c'.returned 0 = (racing.calls 0).conflict.map .error ∧
      OvertakenBy 0 tenant (racing.system (world noDocument)) c') ∧
    ∃ c c', Reach exec anyStep (racing.system (world noDocument)) c ∧
      step exec c 0 .ok = some c' ∧ (racing.calls 0).WritesUnkeyed ∧
      c'.returned 0 = some (.ok (.version 1)) ∧
      ∃ T, ∃ V ∈ c'.shared.db.log T, V.version = 1 ∧ V.writer = 0 := by
  constructor
  · obtain ⟨c, hr, hlast⟩ : ∃ c, Reach exec anyStep (racing.system (world noDocument)) c ∧
        ∃ c' ∈ step exec c 0 .ok, c'.returned 0 = (racing.calls 0).conflict.map .error ∧
          (c'.shared.db.log tenant).length = 4 ∧ c'.shared.db.tenantOf tenant = some tenant :=
      exists_reach_of_run race (by decide +kernel)
    obtain ⟨c', hs, hret, hlen, htenant⟩ := hlast
    obtain ⟨-, idOrName, T, hid, hT, hover⟩ :=
      (version_conflicts_counted (.refl _) rfl hr hs).1 _ rfl hret
    obtain rfl : tenant = idOrName := Option.some.inj hid
    obtain rfl : tenant = T := Option.some.inj (htenant.symm.trans hT)
    exact ⟨c, c', hr, hs, rfl, hret, hover (by omega)⟩
  · obtain ⟨c, hr, hlast⟩ : ∃ c, Reach exec anyStep (racing.system (world noDocument)) c ∧
        ∃ c' ∈ step exec c 0 .ok, c'.returned 0 = some (.ok (.version 1)) :=
      exists_reach_of_run (steps 0 15) (by decide +kernel)
    obtain ⟨c', hs, hret⟩ := hlast
    have hunkeyed : (racing.calls 0).WritesUnkeyed := by
      refine ⟨rfl, fun idOrName key h => ?_⟩
      exact (congrArg Prod.snd (Option.some.inj h)).symm
    obtain ⟨n, T, V, hn, hV, rfl, hwriter, -⟩ :=
      (version_conflicts_counted (.refl _) rfl hr hs).2 _ hunkeyed hret
    exact ⟨c, c', hr, hs, hunkeyed, hret, T, V, hV, (Reply.version.inj hn).symm, hwriter⟩

/-! ### When the numbers are used up -/

section Exhausted

variable {s : State} {T : String} {caller : Caller} {sv : SchemaVersion} {tn : Tenant}
  {latest : ℤ}

/-- A write of a taken number is lost. -/
theorem alone_commitWrite_conflict {w : VersionWrite} {rest : ℤ → Proc TxErr Unit}
    (hstate : s.FreeFor t w.tenantID) (hexp : w.expected = [])
    (hlat : LatestRead (s.db.log w.tenantID) latest)
    (htaken : wrap32 (latest + 1) ∈ versionNumbers (s.db.log w.tenantID))
    (onError : TxErr → Status) (changes : Option (List FieldChange)) :
    ∃ s', alone t s (commitWrite w rest onError changes) =
      some (.error (onError .conflict), s') ∧ s'.db = s.db := by
  let s0 : State := { s with cache := s.cache.invalidate w.tenantID }
  have hstate0 : s0.FreeFor t w.tenantID := ⟨hstate.txs, hstate.held⟩
  have htell : Completes t s (tell (.invalidate w.tenantID) : Proc Status Unit) () s0 :=
    alone_ask (r := ()) rfl
  have hattempt : alone t s0 (runInTx (versionTx w rest)) = some (.error .conflict, s0) :=
    alone_runInTx_error hstate0 (alone_versionTx_conflict hexp hlat htaken)
  refine ⟨s0, ?_, rfl⟩
  rw [commitWrite, htell.bind]
  exact alone_bind_error (alone_transact (alone_retry_error hattempt 3)) _

/-- So is an import, run alone. -/
theorem alone_importConfig_conflict (req : ImportRequest) (hadmin : caller.isSuperAdmin = true)
    (hT : s.db.Names req.tenantId T) (hsv : s.db.boundSchema T = some sv)
    (htn : s.db.tenantByID T = some tn) (hd : Dense (s.db.log T)) (hstate : s.FreeFor t T)
    (hlat : LatestRead (s.db.log T) latest)
    (hmode : req.mode = .replace) {types : List (String × FieldType)} {parsed : ParsedImport}
    (hsize : env.maxDocBytes = 0 ∨ req.yamlContent.utf8ByteSize ≤ env.maxDocBytes)
    (htyped : serviceTypes env sv = .ok types)
    (hparsed : dispatchImport env req.yamlContent (types.lookup ·) = .ok parsed)
    (hvalues : ∀ v ∈ parsed.values, Acceptable env sv types v) (hne : parsed.values ≠ [])
    (hattr : checkAllWriteAttributes sv.fields (parsed.values.map (changeOf (s.db.log T))) = .ok ())
    (htaken : wrap32 (latest + 1) ∈ versionNumbers (s.db.log T)) :
    ∃ s', alone t s (importConfig env caller req) =
      some (.error ⟨.aborted, "concurrent write conflict; retry the import"⟩, s') ∧
        s'.db = s.db := by
  have hclaims : Completes t s (ofExcept (mustHaveClaims caller)) () s :=
    completes_ofExcept.mpr ⟨mustHaveClaims_of_superadmin hadmin, rfl⟩
  have htenant : Completes t s (fetch false (.tenantByID T) fun _ =>
      (⟨.notFound, "tenant not found"⟩ : Status)) tn s :=
    completes_fetch.mpr ⟨found_eq_ok.mpr htn, rfl⟩
  have htypes : Completes t s (fieldTypeMap env id T) types s :=
    (completes_fieldTypeMap hsv id).mpr ⟨htyped, rfl⟩
  have hdoc : Completes t s (ofExcept ((dispatchImport env req.yamlContent
      (types.lookup ·)).mapError fun e =>
        (⟨.invalidArgument, "invalid config YAML: " ++ e⟩ : Status))) parsed s :=
    completes_ofExcept.mpr ⟨by rw [hparsed]; rfl, rfl⟩
  have hchecks : Completes t s (forEach (checkImported env caller T types) parsed.values) () s :=
    (completes_checkImportedAll hadmin hsv).mpr ⟨hvalues, rfl⟩
  have hfilter : Completes t s (filterByImportMode T latest parsed.values req.mode)
      parsed.values s := by
    rw [hmode]
    exact completes_pure.mpr ⟨rfl, rfl⟩
  have hattrs : Completes t s (ofExcept (checkAllWriteAttributes sv.fields
      (parsed.values.map (changeOf (s.db.log T))))) () s :=
    completes_ofExcept.mpr ⟨hattr, rfl⟩
  rw [importConfig, hclaims.bind, (completes_require hsize).bind,
    (completes_resolveTenantWithAccess (accessGuards_of_superadmin hadmin _ _) hT).bind,
    htenant.bind, htypes.bind, hdoc.bind, hchecks.bind, (completes_resolveVersion hlat).bind,
    hfilter.bind, (completes_require hne).bind, (completes_readChanges hd hlat).bind,
    (completes_getSchemaFieldSets hsv).bind, hattrs.bind,
    (completes_fetchDependentRequiredRules hsv).bind]
  exact alone_commitWrite_conflict hstate rfl hlat htaken _ _

end Exhausted

namespace Sample

abbrev worldOfB : Env :=
  exporting "x"

def importing : Init :=
  { init [] [] with calls := fun _ => .importConfig superadmin (importRequest "x") }

def importedB : ParsedImport :=
  ⟨"", [⟨"b", "x", none⟩]⟩

/-- The first `n` calls have committed their imports, and the others have not begun. -/
structure Filled (n : ℕ) (c : System) : Prop where
  reach : Reach exec anyStep (importing.system worldOfB) c
  length : (c.shared.db.log tenant).length = n
  txs : ∀ t, c.shared.txs t = none
  held : c.shared.held = []
  waiting : ∀ t, n ≤ t → c.pool t = (importing.system worldOfB).pool t

variable {n : ℕ} {c : System}

theorem Filled.freeFor (h : Filled n c) (t : ℕ) : c.shared.FreeFor t tenant := by
  refine ⟨h.txs t, fun p hp => ?_⟩
  rw [h.held] at hp
  exact absurd hp not_mem_nil

theorem names_tenant (db : Tables) : db.Names tenant tenant :=
  ⟨by decide, if_pos (by decide +kernel)⟩

theorem Filled.tenantByID (h : Filled n c) :
    c.shared.db.tenantByID tenant = some ⟨tenant, "acme", "s", 1, false⟩ :=
  (reach_le h.reach).tenants.find?_eq_some rfl

theorem Filled.boundSchema (h : Filled n c) : c.shared.db.boundSchema tenant = some schema :=
  (reach_le h.reach).boundSchema rfl

theorem dispatchImport_worldOfB :
    dispatchImport worldOfB (importRequest "x").yamlContent (fieldTypes.lookup ·) =
      .ok importedB := by
  rfl

theorem acceptable_importedB : ∀ v ∈ importedB.values, Acceptable worldOfB schema fieldTypes v := by
  intro v hv
  obtain rfl := mem_singleton.mp hv
  exact ⟨.inl rfl, fun _ => by decide +kernel⟩

theorem attributes_importedB (L : List ConfigVersion) :
    checkAllWriteAttributes schema.fields (importedB.values.map (changeOf L)) = .ok () := by
  refine checkAllWriteAttributes_of_unrestricted fun ch hch => ?_
  obtain rfl := mem_singleton.mp hch
  exact unrestricted_b

/-- Every log has a latest version, or none. -/
theorem exists_latest (L : List ConfigVersion) : ∃ latest, LatestRead L latest := by
  unfold LatestRead
  cases latestConfigVersion L with
  | none => exact ⟨0, rfl⟩
  | some n => exact ⟨n, rfl⟩

theorem filled_zero : Filled 0 (importing.system worldOfB) :=
  ⟨.refl _, rfl, fun _ => rfl, rfl, fun _ _ => rfl⟩

/-- As long as numbers are left, the next call commits its import. -/
theorem Filled.succ (h : Filled n c) (hn : n < 2 ^ 31) : ∃ c', Filled (n + 1) c' := by
  have hd := reach_dense h.reach tenant
  obtain ⟨latest, hlat⟩ := exists_latest (c.shared.db.log tenant)
  obtain ⟨V, hV⟩ : ∃ V, VersionOf n (importWrite worldOfB superadmin (importRequest "x") tenant
      importedB.description importedB.values) latest V := exists_versionOf dispatchImport_worldOfB
  have hfree : V.version ∉ versionNumbers (c.shared.db.log tenant) :=
    (free_iff hd hlat hV).mpr (h.length ▸ hn)
  have hrules : CrossFieldValid worldOfB schema ⟨tenant, "acme", "s", 1, false⟩
      (fullConfigAtVersion (c.shared.db.log tenant ++ [V]) V.version) :=
    fun _ => ⟨rfl, .inl rfl⟩
  have hdone := (completes_importConfig (importRequest "x") rfl (names_tenant _) h.boundSchema
    h.tenantByID hd (h.freeFor n) hlat (.inl rfl)).mpr ⟨fieldTypes, importedB, V,
      ⟨.inl rfl, serviceTypes_schema _, dispatchImport_worldOfB, acceptable_importedB, by simp
        [importedB], attributes_importedB _, hfree, hrules⟩, hV, rfl, rfl⟩
  have hprog : (c.pool n).prog = (importConfig worldOfB superadmin (importRequest "x")).run := by
    rw [h.waiting n (Nat.le_refl n)]
    rfl
  rw [Completes, alone, ← hprog] at hdone
  have hall : ∀ c : System, anyStep c n Choice.ok := fun _ => trivial
  obtain ⟨c', hr, hs, -, hpool⟩ := exists_reach_of_runAlone hall hdone
  refine ⟨c', h.reach.trans hr, ?_, ?_, ?_, ?_⟩
  · rw [hs, ← h.length]
    exact (congrArg List.length (State.log_written _ _ _ _ _)).trans (by simp; rfl)
  · rw [hs]
    exact h.txs
  · rw [hs]
    exact h.held
  · intro t ht
    exact (hpool t (by omega)).trans (h.waiting t (by omega))

/-- **A log of any length is reached.** -/
theorem exists_filled (n : ℕ) (hn : n ≤ 2 ^ 31) : ∃ c, Filled n c := by
  induction n with
  | zero => exact ⟨_, filled_zero⟩
  | succ n ih =>
    obtain ⟨c, h⟩ := ih (by omega)
    exact h.succ (by omega)

end Sample

open Sample

/-- **With no number left, a call alone is aborted**: after `2 ^ 31` versions of the tenant, the
call that nothing overtakes returns a version conflict. -/
theorem version_conflict_exhausted : ∃ c₀ c, Reach exec anyStep (importing.system worldOfB) c₀ ∧
      (c₀.pool (2 ^ 31)).hist = [] ∧ Reach exec anyStep c₀ c ∧
      c.returned (2 ^ 31) =
        some (.error ⟨.aborted, "concurrent write conflict; retry the import"⟩) ∧
      (∀ u, u ≠ 2 ^ 31 → c.pool u = c₀.pool u) ∧
      c.shared.db.log tenant = c₀.shared.db.log tenant := by
  obtain ⟨c₀, h⟩ := exists_filled (2 ^ 31) (Nat.le_refl _)
  have hd := reach_dense h.reach tenant
  obtain ⟨latest, hlat⟩ := exists_latest (c₀.shared.db.log tenant)
  have htaken : wrap32 (latest + 1) ∈ versionNumbers (c₀.shared.db.log tenant) := by
    by_contra hfree
    have hlt := (hd.next_free (prefix_refl _) hlat hfree).2.2
    rw [h.length] at hlt
    exact absurd hlt (Nat.lt_irrefl _)
  have hadmin : superadmin.isSuperAdmin = true := rfl
  obtain ⟨s', halone, hdb⟩ := alone_importConfig_conflict (t := 2 ^ 31) (importRequest "x")
    hadmin (names_tenant _) h.boundSchema h.tenantByID hd (h.freeFor _) hlat rfl (.inl rfl)
    (serviceTypes_schema _) dispatchImport_worldOfB acceptable_importedB
    (by simp [importedB]) (attributes_importedB _) htaken
  have hpool := h.waiting (2 ^ 31) (Nat.le_refl _)
  have hprog : (c₀.pool (2 ^ 31)).prog =
      (importConfig worldOfB superadmin (importRequest "x")).run := by
    rw [hpool]
    rfl
  rw [alone, ← hprog] at halone
  have hall : ∀ c : System, anyStep c (2 ^ 31) Choice.ok := fun _ => trivial
  obtain ⟨c, hr, hs, hret, hothers⟩ := exists_reach_of_runAlone hall halone
  refine ⟨c₀, c, h.reach, by rw [hpool]; rfl, hr, hret, hothers, ?_⟩
  rw [hs, hdb]

end Decree
