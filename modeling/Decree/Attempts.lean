import Decree.Traces

/-!
# Attempts of a Transaction

A call that is about to commit is in the last of its attempts: the ones before ended in a
version conflict and were rolled back. `Attempted` is the trace of that last attempt, up to
the commit, and `replay` computes from a history what the call's transaction holds.

## Main results

* `commitWrite_late`: a config write at its commit, or past it.
* `versionTx_trace`: the trace of an attempt.
* `replay_versionTx`: the version that it is about to commit.
-/

open Interleave List

namespace Decree

variable {α ε : Type} {e : Event Op.Resp State} {evs att : Hist} {body : Proc TxErr α} {β : Type}
  {onError : TxErr → Status} {w : VersionWrite} {rest : ℤ → Proc TxErr Unit} {v : ℤ} {t : ℕ}
  {tx' : Tx} {tx₀ : Option Tx} {caller : Caller} {req : CreateTenantRequest}
  {defaults : List ConfigValue}

/-! ### The last attempt -/

/-- The trace of an attempt up to its commit: the transaction was opened and the body has
returned. -/
def Attempted (body : Proc TxErr α) (evs : Hist) (a : α) : Prop :=
  ∃ s e, evs = ⟨.begin, (.ok () : Except StoreErr Unit), s⟩ :: e ∧ Runs body.run e (.ok a)

def NoCommit (evs : Hist) : Prop :=
  ∀ e ∈ evs, ¬ e.op.IsCommit

@[simp] theorem noCommit_nil : NoCommit [] := by
  simp [NoCommit]

@[simp] theorem noCommit_cons : NoCommit (e :: evs) ↔ ¬ e.op.IsCommit ∧ NoCommit evs := by
  simp [NoCommit]

@[simp] theorem noCommit_append {evs' : Hist} :
    NoCommit (evs ++ evs') ↔ NoCommit evs ∧ NoCommit evs' :=
  forall_mem_append

/-- A commit that succeeded. -/
abbrev commitEvent (s : State) : Event Op.Resp State :=
  ⟨.commit, (.ok () : Except StoreErr Unit), s⟩

/-- The trace of a call whose transaction is at its commit (the program is left with it) or
past it (the program has returned). -/
def AtCommit (body : Proc TxErr α) (evs : Hist) {β : Type}
    (q : Prog Op.Resp (Except ε β)) (ret : α → β) : Prop :=
  ∃ pre att a, NoCommit pre ∧ Attempted body att a ∧
    ((∃ k, q = .op .commit k ∧ evs = pre ++ att) ∨
      ∃ s post, q = .ret (.ok (ret a)) ∧ NoCommit post ∧
        evs = pre ++ (att ++ commitEvent s :: post))

variable {ret : α → β} {changes : Option (List FieldChange)} {tx : Option Tx}

/-- A call at a commit has made its attempt. -/
theorem AtCommit.at_commit {k : Op.Resp .commit → Prog Op.Resp (Except ε β)}
    (h : AtCommit body evs (.op .commit k) ret) :
    ∃ pre att a, NoCommit pre ∧ Attempted body att a ∧ evs = pre ++ att := by
  obtain ⟨pre, att, a, hpre, hatt, ⟨k', -, hevs⟩ | ⟨s, post, hq, -⟩⟩ := h
  · exact ⟨pre, att, a, hpre, hatt, hevs⟩
  · cases hq

/-- A call that has returned has committed once. -/
theorem AtCommit.returned {b : β}
    (h : AtCommit body evs (.ret (.ok b) : Prog Op.Resp (Except ε β)) ret) :
    ∃ pre att a s post, b = ret a ∧ NoCommit pre ∧ Attempted body att a ∧ NoCommit post ∧
      evs = pre ++ (att ++ commitEvent s :: post) := by
  obtain ⟨pre, att, a, hpre, hatt, ⟨k, hq, -⟩ | ⟨s, post, hq, hpost, hevs⟩⟩ := h
  · cases hq
  · exact ⟨pre, att, a, s, post, by simpa using hq, hpre, hatt, hpost, hevs⟩

variable {q : Prog Op.Resp (Except TxErr α)} {h : Hist} {x : Proc ε α}

/-- What came before commits nothing. -/
theorem AtCommit.append {pre : Hist} {q : Prog Op.Resp (Except ε β)} (hpre : NoCommit pre)
    (h : AtCommit body evs q ret) : AtCommit body (pre ++ evs) q ret := by
  obtain ⟨pre', att, a, hpre', hatt, h⟩ := h
  refine ⟨pre ++ pre', att, a, by simp [hpre, hpre'], hatt, ?_⟩
  rcases h with ⟨k, hq, rfl⟩ | ⟨s, post, hq, hpost, rfl⟩
  · exact .inl ⟨k, hq, by simp⟩
  · exact .inr ⟨s, post, hq, hpost, by simp⟩

section

variable (hbody : Avoids Op.IsCommit body.run)

include hbody

/-- `RunInTx` commits what its body did, and nothing if the body failed. -/
theorem runInTx_late (hq : Late Op.IsCommit q) (h : After (runInTx body).run evs q) :
    AtCommit body evs q id := by
  have hbegin : Avoids Op.IsCommit
      (ask .begin (Except.mapError fun _ => TxErr.failed) : Proc TxErr Unit).run :=
    ⟨by simp, fun _ => trivial⟩
  obtain ⟨e1, e2, _, rfl, hb, hk⟩ := hbegin.after_bind_late hq h
  obtain ⟨r, s0, rfl, hr⟩ := runs_ask.mp hb
  obtain rfl : r = (.ok () : Except StoreErr Unit) := mapError_eq_ok.mp hr
  rcases after_bind hk with ⟨o, k, hp, rfl⟩ | ⟨e3, e4, r, rfl, hr, hf⟩
  · -- the body performs no commit
    exact absurd hq (hbody.after hp).2.1
  · cases r with
    | error e =>
      rcases after_op.mp hf with ⟨rfl, rfl⟩ | ⟨u, s, evs', rfl, hret⟩
      · cases hq
      · obtain ⟨rfl, rfl⟩ := after_ret.mp hret
        cases hq
    | ok a =>
      rcases after_op.mp hf with ⟨rfl, rfl⟩ | ⟨r, s, evs', rfl, hret⟩
      · exact ⟨[], _, a, noCommit_nil, ⟨s0, e3, rfl, hr⟩, .inl ⟨_, rfl, by simp⟩⟩
      · obtain ⟨rfl, rfl⟩ := after_ret.mp hret
        cases r with
        | error e => cases hq
        | ok u =>
          exact ⟨[], _, a, noCommit_nil, ⟨s0, e3, rfl, hr⟩,
            .inr ⟨s, [], rfl, noCommit_nil, by simp⟩⟩

/-- A transaction that has failed has no commit, or one that has failed. -/
theorem runInTx_error {x : TxErr} (h : Runs (runInTx body).run evs (.error x)) :
    ∀ e ∈ evs, e.op.IsCommit → x = .failed ∧ ∀ s, e ≠ commitEvent s := by
  rcases runs_bind_error h with hb | ⟨e1, e2, _, rfl, hb, hk⟩
  · obtain ⟨r, s, rfl, hr⟩ := runs_ask.mp hb
    simp
  · obtain ⟨r, s, rfl, -⟩ := runs_ask.mp hb
    obtain ⟨e3, e4, y, rfl, hy, hf⟩ := runs_bind.mp hk
    have hbody' : ∀ e ∈ e3, ¬ e.op.IsCommit := (hbody.after hy).1
    cases y with
    | error e =>
      obtain ⟨u, s', rfl, -⟩ := runs_request.mp hf
      simp +contextual [hbody', or_imp]
    | ok a =>
      obtain ⟨r, s', rfl, hr⟩ := runs_request.mp hf
      cases r with
      | ok u => cases hr
      | error err =>
        cases hr
        simp +contextual [hbody', or_imp]

/-- Only a rolled-back attempt is retried. -/
theorem runInTx_conflict (h : Runs (runInTx body).run evs (.error .conflict)) : NoCommit evs :=
  fun e he hop => nomatch (runInTx_error hbody h e he hop).1

/-- Attempts that fail have not committed. -/
theorem retryOnVersionConflict_error {n : ℕ} {x : TxErr}
    (h : Runs (retryOnVersionConflict (runInTx body) n).run evs (.error x)) (s : State) :
    commitEvent s ∉ evs := by
  have hfailed : ∀ {evs x}, Runs (runInTx body).run evs (.error x) → commitEvent s ∉ evs :=
    fun h he => (runInTx_error hbody h _ he rfl).2 s rfl
  induction n generalizing evs with
  | zero => exact hfailed h
  | succ n ih =>
    obtain ⟨e1, e2, r, rfl, hr, hf⟩ := runs_bind.mp h
    rcases r with (_ | _ | _ | _) | a
    case error.conflict => simp [hfailed hr, ih hf]
    case ok => cases (runs_ret.mp hf).2
    all_goals
      obtain ⟨rfl, -⟩ := runs_ret.mp hf
      simp [hfailed hr]

/-- The retries before the last attempt committed nothing. -/
theorem retryOnVersionConflict_late {n : ℕ} (hq : Late Op.IsCommit q)
    (h : After (retryOnVersionConflict (runInTx body) n).run evs q) :
    AtCommit body evs q id := by
  induction n generalizing evs with
  | zero => exact runInTx_late hbody hq h
  | succ n ih =>
    rcases after_bind h with ⟨o, k, hp, rfl⟩ | ⟨e1, e2, r, rfl, hr, hf⟩
    · obtain ⟨pre, att, a, hpre, hatt, ⟨k', hk', rfl⟩ | ⟨s, post, hk', -⟩⟩ :=
        runInTx_late hbody (q := .op o k) hq hp
      · cases hk'
        exact ⟨pre, att, a, hpre, hatt, .inl ⟨_, rfl, rfl⟩⟩
      · cases hk'
    · rcases r with (_ | _ | _ | _) | a
      case error.conflict => exact (ih hf).append (runInTx_conflict hbody hr)
      case ok =>
        obtain ⟨rfl, rfl⟩ := after_ret.mp hf
        rw [append_nil]
        exact runInTx_late hbody trivial hr
      all_goals
        obtain ⟨rfl, rfl⟩ := after_ret.mp hf
        cases hq

end

/-- A mapped error changes nothing of it. -/
theorem transact_late {tx : Proc TxErr α}
    (htx : ∀ {evs q}, Late Op.IsCommit q → After tx.run evs q → AtCommit body evs q id)
    {q : Prog Op.Resp (Except Status α)} (hq : Late Op.IsCommit q)
    (h : After (transact tx onError).run evs q) : AtCommit body evs q id := by
  rcases after_bind h with ⟨o, k, hp, rfl⟩ | ⟨e1, e2, r, rfl, hr, hf⟩
  · obtain ⟨pre, att, a, hpre, hatt, ⟨k', hk', rfl⟩ | ⟨s, post, hk', -⟩⟩ := htx (q := .op o k) hq hp
    · cases hk'
      exact ⟨pre, att, a, hpre, hatt, .inl ⟨_, rfl, rfl⟩⟩
    · cases hk'
  · obtain ⟨rfl, rfl⟩ := after_ret.mp hf
    rw [append_nil]
    cases r with
    | error e => cases hq
    | ok a =>
      obtain ⟨pre, att, a, s, post, rfl, hpre, hatt, hpost, hevs⟩ :=
        (htx (q := .ret (.ok a)) trivial hr).returned
      exact ⟨pre, att, a, hpre, hatt, .inr ⟨s, post, rfl, hpost, hevs⟩⟩

/-- A quiet run commits nothing. -/
theorem Quiet.noCommit_of_runs {x : Proc ε β} (hx : Quiet x) {r : Except ε β}
    (h : Runs x.run evs r) : NoCommit evs :=
  (hx.noCommit.after h).1

/-- What a call does after its transaction does not touch the commit. -/
theorem AtCommit.bind {x : Proc Status α} {f : α → Proc Status β}
    (hx : ∀ {evs q}, Late Op.IsCommit q → After x.run evs q → AtCommit body evs q id)
    (hf : ∀ a, Avoids Op.IsCommit (f a).run)
    (hret : ∀ a b (evs : Hist), Runs (f a).run evs (.ok b) → b = ret a)
    {q : Prog Op.Resp (Except Status β)} (hq : Late Op.IsCommit q) (h : After (x >>= f).run evs q) :
    AtCommit body evs q ret := by
  rw [ExceptT.run_bind] at h
  rcases after_bind h with ⟨o, k, hp, rfl⟩ | ⟨e1, e2, r, rfl, hr, hk⟩
  · obtain ⟨pre, att, a, hpre, hatt, ⟨k', hk', rfl⟩ | ⟨s, post, hk', -⟩⟩ := hx (q := .op o k) hq hp
    · cases hk'
      exact ⟨pre, att, a, hpre, hatt, .inl ⟨_, rfl, rfl⟩⟩
    · cases hk'
  · cases r with
    | error e =>
      obtain ⟨rfl, rfl⟩ := after_ret.mp hk
      cases hq
    | ok a =>
      obtain ⟨pre, att, a, s, post, rfl, hpre, hatt, hpost, rfl⟩ :=
        (hx (q := .ret (.ok a)) trivial hr).returned
      cases q with
      | op o k => exact absurd hq ((hf a).after hk).2.1
      | ret r =>
        cases r with
        | error e => exact absurd hq id
        | ok b =>
          obtain rfl := hret a b e2 hk
          refine ⟨pre, att, a, hpre, hatt, .inr ⟨s, post ++ e2, rfl, ?_, by simp⟩⟩
          exact noCommit_append.mpr ⟨hpost, ((hf a).after hk).1⟩

/-! ### What a transaction does not do -/

section Avoiding

variable {bad : Op → Prop} {tx : Proc TxErr α}

/-- What the body avoids, its transaction does. -/
theorem avoids_runInTx (hbegin : ¬ bad .begin) (hcommit : ¬ bad .commit)
    (hrollback : ¬ bad .rollback) (hbody : Avoids bad body.run) :
    Avoids bad (runInTx body).run := by
  refine .bind_run ⟨hbegin, fun _ => trivial⟩ fun _ => hbody.bind ?_
  rintro (e | a)
  · exact ⟨hrollback, fun _ => trivial⟩
  · exact ⟨hcommit, fun _ => trivial⟩

/-- What a transaction avoids, its attempts do. -/
theorem avoids_retryOnVersionConflict (htx : Avoids bad tx.run) (n : ℕ) :
    Avoids bad (retryOnVersionConflict tx n).run := by
  induction n with
  | zero => exact htx
  | succ n ih =>
    refine htx.bind ?_
    rintro ((_ | _ | _ | _) | a)
    case error.conflict => exact ih
    all_goals exact trivial

/-- So does the call around them. -/
theorem avoids_transact (htx : Avoids bad tx.run) (onError : TxErr → Status) :
    Avoids bad (transact tx onError).run :=
  htx.bind fun _ => trivial

end Avoiding

/-! ### The transaction of a config write -/

/-- A quiet program shows others nothing. -/
theorem Quiet.noShare (hx : Quiet x) : Avoids Op.Shares x.run :=
  hx.mono fun _ ho => ho.concludes.movesVersion

/-- A quiet program publishes nothing. -/
theorem Quiet.noPublish (hx : Quiet x) : Avoids Op.IsPublish x.run :=
  hx.noShare.mono fun _ => Op.IsPublish.shares

section

variable (hrest : ∀ v, Quiet (rest v))

include hrest

/-- The body of a config write neither commits nor publishes, and fills no cache. -/
theorem versionTx_open : Avoids Op.Concludes (versionTx w rest).run := by
  have hquiet : ∀ {α : Type} {x : Proc TxErr α}, Quiet x → Avoids Op.Concludes x.run :=
    fun hx => hx.mono fun _ => Op.Concludes.movesVersion
  refine (hquiet (quiet_ask (by nofun) _)).bind_run fun latest => ?_
  refine (Avoids.forEach (fun p => ?_) _).bind_run fun _ => ?_
  · exact hquiet (.ite_run (quiet_pure _) (quiet_ask (by nofun) _))
  refine Avoids.bind_run ⟨id, fun _ => trivial⟩ fun version => ?_
  refine Avoids.bind_run ⟨id, fun _ => trivial⟩ fun _ => ?_
  exact (hquiet (hrest version)).bind_run fun _ => trivial

/-- The body of a version does not commit. -/
theorem versionTx_noCommit : Avoids Op.IsCommit (versionTx w rest).run :=
  (versionTx_open hrest).mono fun _ => Op.IsCommit.concludes

/-- **A config write at its commit, or past it.** -/
theorem commitWrite_late {q : Prog Op.Resp (Except Status Reply)}
    (hq : Late Op.IsCommit q) (h : After (commitWrite w rest onError changes).run evs q) :
    AtCommit (versionTx w rest) evs q .version := by
  have htell : ∀ o : Op, ¬ o.MovesVersion → Quiet (tell o : Proc Status Unit) :=
    fun o ho => quiet_tell ho
  obtain ⟨e1, e2, _, rfl, he1, hk⟩ :=
    (htell (.invalidate w.tenantID) (by nofun)).noCommit.after_bind_late hq h
  refine .append ((htell _ (by nofun)).noCommit_of_runs he1) ?_
  refine .bind (fun {evs q} => transact_late fun {evs q} =>
    retryOnVersionConflict_late (versionTx_noCommit hrest)) ?_ ?_ hq hk
  · intro version
    refine .bind_run ⟨by simp, fun _ => trivial⟩ fun _ => ?_
    cases changes with
    | none => exact trivial
    | some changes => exact .bind_run ⟨by simp, fun _ => trivial⟩ fun _ => trivial
  · intro version reply evs hrun
    obtain ⟨e3, e4, _, -, -, hrun⟩ := runs_bind_ok hrun
    cases changes with
    | none => exact (runs_pure_ok.mp hrun).2.symm
    | some changes =>
      obtain ⟨e5, e6, _, -, -, hret⟩ := runs_bind_ok hrun
      exact (runs_pure_ok.mp hret).2.symm

/-- The trace of a call past the commit of its transaction. -/
def Committed (body : Proc TxErr α) (evs : Hist) (a : α) : Prop :=
  ∃ pre att s post, NoCommit pre ∧ NoCommit post ∧ Attempted body att a ∧
    evs = pre ++ (att ++ commitEvent s :: post)

/-- **A config write at its publish**: it has committed, and publishes the number of its
version with its changes. -/
theorem commitWrite_publishing {ev : ConfigChangeEvent}
    {k : Op.Resp (.publish ev) → Prog Op.Resp (Except Status Reply)}
    (h : After (commitWrite w rest onError changes).run evs (.op (.publish ev) k)) :
    ∃ v chs, changes = some chs ∧ ev = ⟨w.tenantID, v, chs, w.actor⟩ ∧
      Committed (versionTx w rest) evs v := by
  have hq : Late Op.IsPublish (.op (.publish ev) k) := trivial
  have htell : ∀ T, Quiet (tell (.invalidate T) : Proc Status Unit) := fun T => quiet_tell id
  have hbody : Avoids Op.IsPublish (versionTx w rest).run :=
    (versionTx_open hrest).mono fun _ ho => ho.shares.concludes
  have htx := avoids_transact (avoids_retryOnVersionConflict (avoids_runInTx id id id hbody) 3)
    onError
  obtain ⟨e1, r1, _, rfl, he1, h1⟩ := (htell _).noPublish.after_bind_late hq h
  obtain ⟨e2, r2, v, rfl, he2, h2⟩ := htx.after_bind_late hq h1
  obtain ⟨e3, r3, _, rfl, he3, h3⟩ := (htell _).noPublish.after_bind_late hq h2
  obtain ⟨pre, att, v, s, post, rfl, hpre, hatt, hpost, rfl⟩ :=
    (transact_late (fun {evs q} => retryOnVersionConflict_late (versionTx_noCommit hrest))
      (q := .ret (.ok v)) trivial he2).returned
  cases changes with
  | none => cases (after_ret.mp h3).2
  | some chs =>
    rcases after_op.mp h3 with ⟨rfl, hev⟩ | ⟨_, _, _, -, hret⟩
    · obtain ⟨hev, -⟩ := Prog.op.inj hev
      refine ⟨v, chs, rfl, Op.publish.inj hev, e1 ++ pre, att, s, post ++ e3, ?_, ?_, hatt, ?_⟩
      · exact noCommit_append.mpr ⟨(htell _).noCommit_of_runs he1, hpre⟩
      · exact noCommit_append.mpr ⟨hpost, (htell _).noCommit_of_runs he3⟩
      · simp
    · cases (after_ret.mp hret).2

end

/-- **A config write that fails** has failed in its transaction. -/
theorem commitWrite_error {e : Status}
    (h : Runs (commitWrite w rest onError changes).run evs (.error e)) :
    ∃ e1 e2 x, evs = e1 ++ e2 ∧ NoCommit e1 ∧
      Runs (runInTxWithRetry (versionTx w rest)).run e2 (.error x) ∧ e = onError x := by
  have htell : ∀ o : Op, FailsWith (fun _ => False) (tell o : Proc Status Unit).run :=
    fun o _ => trivial
  obtain ⟨e1, e2, _, rfl, he1, hk⟩ := (htell _).of_bind_error id h
  obtain ⟨r, s, rfl⟩ := runs_tell.mp he1
  rcases runs_bind_error hk with ht | ⟨e3, e4, v, rfl, -, hend⟩
  · obtain ⟨e5, e6, y, rfl, hy, hf⟩ := runs_bind.mp ht
    obtain ⟨rfl, hyx⟩ := runs_ret.mp hf
    cases y with
    | ok v => cases hyx
    | error y =>
      cases hyx
      exact ⟨_, e5, y, by rw [append_nil], by simp, hy, rfl⟩
  · -- what follows the transaction does not fail
    cases changes with
    | none =>
      refine (((htell _).bind_run fun _ => ?_).error hend).elim
      exact trivial
    | some changes =>
      refine (((htell _).bind_run fun _ => (htell _).bind_run fun _ => ?_).error hend).elim
      exact trivial

/-- A write fills no cache. -/
theorem commitWrite_noFill (hrest : ∀ v, Quiet (rest v)) :
    Avoids Op.Fills (commitWrite w rest onError changes).run := by
  have hbody : Avoids Op.Fills (versionTx w rest).run :=
    (versionTx_open hrest).mono fun _ ho => ho.shares.concludes
  refine .bind_run ⟨id, fun _ => trivial⟩ fun _ => ?_
  refine (avoids_transact (avoids_retryOnVersionConflict (avoids_runInTx id id id hbody) 3)
    onError).bind_run fun version => .bind_run ⟨id, fun _ => trivial⟩ fun _ => ?_
  cases changes with
  | none => exact trivial
  | some changes => exact .bind_run ⟨id, fun _ => trivial⟩ fun _ => trivial

/-- A config write that has returned has published its changes. -/
theorem commitWrite_published {changes : List FieldChange} {reply : Reply}
    (h : Runs (commitWrite w rest onError (some changes)).run evs (.ok reply)) :
    ∃ v s, ⟨.publish ⟨w.tenantID, v, changes, w.actor⟩, (), s⟩ ∈ evs := by
  obtain ⟨e1, r1, _, rfl, -, h1⟩ := runs_bind_ok h
  obtain ⟨e2, r2, n, rfl, -, h2⟩ := runs_bind_ok h1
  obtain ⟨e3, r3, _, rfl, -, h3⟩ := runs_bind_ok h2
  obtain ⟨e4, r4, _, rfl, htell, -⟩ := runs_bind_ok h3
  obtain ⟨_, s, rfl⟩ := runs_tell.mp htell
  exact ⟨n, s, by simp⟩

def OnlyReads (evs : Hist) : Prop :=
  ∀ e ∈ evs, ∃ inTx q, e.op = .read inTx q

/-- The expected checksum of a field was compared with its row at the version, or there was
nothing to compare with. -/
def ChecksumRead (T : String) (latest : ℤ) (p : String × String) (h : Hist) : Prop :=
  latest = 0 ∨ ∃ r s, readEvent true (.configValueAtVersion T p.1 latest) r s ∈ h ∧
    compareChecksum p.1 p.2 r = .ok ()

/-- An expected checksum is only read. -/
theorem checkChecksumAtVersion_onlyReads {T : String} {latest : ℤ} (p : String × String) :
    Avoids (fun o => ¬ ∃ inTx q, o = Op.read inTx q)
      (checkChecksumAtVersion T p.1 p.2 latest).run := by
  rw [checkChecksumAtVersion]
  split
  · exact trivial
  · exact ⟨fun hn => hn ⟨_, _, rfl⟩, fun _ => trivial⟩

/-- **The trace of an attempt of a config write**: it reads the latest version, compares the
checksums there, creates the next version and fills it; what follows leaves the version
alone. -/
theorem versionTx_trace (hrest : ∀ v, Quiet (rest v))
    (h : Runs (versionTx w rest).run evs (.ok v)) :
    ∃ r s1 latest checks s2 s3 tail,
      evs = readEvent true (.latestConfigVersion w.tenantID) r s1 :: (checks ++
        ⟨.createConfigVersion ⟨w.tenantID, wrap32 (latest + 1), w.description, w.actor⟩,
          (.ok v : Except StoreErr ℤ), s2⟩ ::
        ⟨.setConfigValues w.rows, (.ok () : Except StoreErr Unit), s3⟩ :: tail) ∧
      versionOrZero r = .ok latest ∧ OnlyReads checks ∧
      (∀ p ∈ w.expected, ChecksumRead w.tenantID latest p checks) ∧
      (∀ e ∈ tail, ¬ e.op.MovesVersion) ∧ Runs (rest v).run tail (.ok ()) := by
  obtain ⟨e1, e2, latest, rfl, hl, h2⟩ := runs_bind_ok h
  obtain ⟨checks, e3, _, rfl, hc, h3⟩ := runs_bind_ok h2
  obtain ⟨e4, e5, v', rfl, hv, h5⟩ := runs_bind_ok h3
  obtain ⟨e6, e7, _, rfl, hs, h7⟩ := runs_bind_ok h5
  obtain ⟨tail, e8, _, rfl, ht, hret⟩ := runs_bind_ok h7
  obtain ⟨rfl, rfl⟩ := runs_pure_ok.mp hret
  obtain ⟨r, s1, rfl, hr⟩ := runs_ask.mp hl
  obtain ⟨r2, s2, rfl, hr2⟩ := runs_ask.mp hv
  obtain ⟨r3, s3, rfl, hr3⟩ := runs_ask.mp hs
  obtain rfl : r2 = (.ok v' : Except StoreErr ℤ) := mapError_eq_ok.mp hr2
  obtain rfl : r3 = (.ok () : Except StoreErr Unit) := mapError_eq_ok.mp hr3
  refine ⟨r, s1, latest, checks, s2, s3, tail, by simp, mapError_eq_ok.mp hr, ?_, ?_, ?_, ht⟩
  · have hreads := ((Avoids.forEach checkChecksumAtVersion_onlyReads w.expected).after hc).1
    exact fun e he => not_not.mp (hreads e he)
  · intro p hp
    obtain ⟨es, hsub, hrun⟩ := mem_of_runs_forEach hc hp
    rw [checkChecksumAtVersion] at hrun
    split at hrun
    · rename_i h0
      exact .inl h0
    · obtain ⟨r, s, rfl, hcmp⟩ := runs_ask.mp hrun
      exact .inr ⟨r, s, hsub.subset (by simp), hcmp⟩
  · exact ((hrest v').after ht).1

/-! ### What the transaction holds -/

/-- The transaction that a history leaves a call with. -/
def replay (t : ℕ) (tx : Option Tx) (h : Hist) : Option Tx :=
  h.foldl (fun tx e => e.op.stage t e.resp tx) tx

@[simp] theorem replay_cons (t : ℕ) (tx : Option Tx) (e : Event Op.Resp State) (h : Hist) :
    replay t tx (e :: h) = replay t (e.op.stage t e.resp tx) h := rfl

@[simp] theorem replay_append (t : ℕ) (tx : Option Tx) (h h' : Hist) :
    replay t tx (h ++ h') = replay t (replay t tx h) h' := by
  simp [replay]

/-- Reads stage nothing. -/
theorem replay_onlyReads (hh : OnlyReads h) : replay t tx h = tx := by
  induction h generalizing tx with
  | nil => rfl
  | cons e h ih =>
    obtain ⟨⟨inTx, q, ho⟩, hrest⟩ := forall_mem_cons.mp hh
    obtain ⟨o, r, s⟩ := e
    obtain rfl : o = .read inTx q := ho
    exact ih hrest

/-- A quiet part stages no version. -/
theorem replay_quiet (hh : ∀ e ∈ h, ¬ e.op.MovesVersion) (hr : replay t tx h = some tx') :
    ∃ tx₀, tx = some tx₀ ∧ tx'.version = tx₀.version := by
  induction h generalizing tx with
  | nil => exact ⟨tx', hr, rfl⟩
  | cons e h ih =>
    obtain ⟨he, hh⟩ := forall_mem_cons.mp hh
    obtain ⟨tx1, htx1, hv⟩ := ih hh hr
    obtain ⟨o, r, s⟩ := e
    cases stage_eq_some htx1 with
    | opened | created | filled => exact absurd trivial he
    | aside htx hversion htenant => exact ⟨_, htx, hv.trans hversion⟩
    | tenant htx => exact ⟨_, htx, hv⟩

def auditOf : Event Op.Resp State → List AuditEntry
  | ⟨.insertAudit entries, .ok _, _⟩ => entries
  | _ => []

def insertedAudit (h : Hist) : List AuditEntry :=
  h.flatMap auditOf

theorem insertedAudit_append (h h' : Hist) :
    insertedAudit (h ++ h') = insertedAudit h ++ insertedAudit h' :=
  flatMap_append

/-- Reads insert no entry. -/
theorem Reading.inserted {x : Proc ε β} (hx : Reading x) {r : Except ε β} (h : Runs x.run evs r) :
    insertedAudit evs = [] := by
  refine flatMap_eq_nil_iff.mpr fun e he => ?_
  have hread := not_not.mp ((hx.after h).1 e he)
  obtain ⟨o, r, s⟩ := e
  cases o with
  | read => rfl
  | _ => exact absurd hread id

/-- The entries are inserted as they are. -/
theorem insertAudit_inserted {entries : List AuditEntry}
    (h : Runs (insertAudit entries).run evs (.ok ())) : insertedAudit evs = entries := by
  obtain ⟨r, s, rfl, hr⟩ := runs_ask.mp h
  obtain rfl : r = (.ok () : Except StoreErr Unit) := mapError_eq_ok.mp hr
  exact append_nil entries

/-- An operation inside of a transaction adds the audit entries that it inserts. -/
theorem stage_audit (he : e.op ≠ .begin) (h : e.op.stage t e.resp tx = some tx') :
    ∃ tx₀, tx = some tx₀ ∧ tx'.audit = tx₀.audit ++ auditOf e := by
  obtain ⟨o, r, s⟩ := e
  cases stage_eq_some h with
  | opened => exact absurd rfl he
  | created htx | tenant htx => exact ⟨_, htx, (append_nil _).symm⟩
  | @filled rows u tx tx' htx hrows =>
    obtain ⟨T, W, V, -, -, -, -, -, -, rfl⟩ := Tx.addRows_eq_some hrows
    exact ⟨tx, htx, (append_nil _).symm⟩
  | aside htx =>
    subst htx
    refine ⟨_, rfl, ?_⟩
    cases o with
    | begin => exact absurd rfl he
    | setConfigValues rows =>
      cases r with
      | error err => exact Option.some.inj h ▸ (append_nil _).symm
      | ok u =>
        obtain ⟨T, W, V, -, -, -, -, -, -, rfl⟩ := Tx.addRows_eq_some h
        exact (append_nil _).symm
    | insertAudit entries =>
      cases r with
      | error err => exact Option.some.inj h ▸ (append_nil _).symm
      | ok u => exact Option.some.inj h ▸ rfl
    | deleteFieldLock T f =>
      rcases r with err | _ | _ <;> exact Option.some.inj h ▸ (append_nil _).symm
    | createConfigVersion | createFieldLock | createTenant | read | claim =>
      cases r <;> exact Option.some.inj h ▸ (append_nil _).symm
    | commit | rollback => cases h
    | invalidate | publish | cache | flight | stream =>
      exact Option.some.inj h ▸ (append_nil _).symm

/-- The transaction holds the audit entries that were inserted since it was opened. -/
theorem replay_audit (hh : ∀ e ∈ h, e.op ≠ .begin) (hr : replay t tx h = some tx') :
    ∃ tx₀, tx = some tx₀ ∧ tx'.audit = tx₀.audit ++ insertedAudit h := by
  induction h generalizing tx with
  | nil => exact ⟨tx', hr, (append_nil _).symm⟩
  | cons e h ih =>
    obtain ⟨he, hh⟩ := forall_mem_cons.mp hh
    obtain ⟨tx1, htx1, haud1⟩ := ih hh hr
    obtain ⟨tx₀, htx0, haud0⟩ := stage_audit he htx1
    refine ⟨tx₀, htx0, ?_⟩
    rw [haud1, haud0, append_assoc]
    rfl

/-- An attempt of a config write: what it read and in which order, and the version it is
about to commit. -/
structure WriteAttempt (t : ℕ) (w : VersionWrite) (att : Hist) (v : ℤ) (V : ConfigVersion) :
    Prop where
  trace : ∃ s₀ r s₁ latest checks tail,
    att = ⟨.begin, (.ok () : Except StoreErr Unit), s₀⟩ ::
      readEvent true (.latestConfigVersion w.tenantID) r s₁ :: (checks ++ tail) ∧
    versionOrZero r = .ok latest ∧ OnlyReads checks ∧
    (∀ p ∈ w.expected, ChecksumRead w.tenantID latest p checks) ∧
    V.version = wrap32 (latest + 1)
  returned : ∃ s, (⟨.createConfigVersion ⟨w.tenantID, V.version, w.description, w.actor⟩,
    (.ok v : Except StoreErr ℤ), s⟩ : Event Op.Resp State) ∈ att
  values : V.values = w.rows
  description : V.description = w.description
  createdBy : V.createdBy = w.actor
  writer : V.writer = t

/-- The end of an attempt, some time after its begin and its first read: the rest of the
transaction has run, and left the version alone. -/
def Ends (rest : ℤ → Proc TxErr Unit) (att : Hist) (v : ℤ) : Prop :=
  ∃ e₁ e₂ mid tail, att = e₁ :: e₂ :: (mid ++ tail) ∧ Runs (rest v).run tail (.ok ()) ∧
    ∀ e ∈ tail, ¬ e.op.MovesVersion

/-- **The version an attempt is about to commit.** -/
theorem replay_versionTx (hrest : ∀ v, Quiet (rest v)) (hatt : Attempted (versionTx w rest) att v)
    {tx : Tx} (htx : replay t tx₀ att = some tx) :
    ∃ V, tx.version = some (w.tenantID, V) ∧ WriteAttempt t w att v V ∧ Ends rest att v := by
  obtain ⟨s0, e, rfl, hrun⟩ := hatt
  obtain ⟨r, s1, latest, checks, s2, s3, tail, rfl, hr, hreads, hchk, htail, hrest'⟩ :=
    versionTx_trace hrest hrun
  have hend : replay t (some { version := some (w.tenantID,
      ⟨wrap32 (latest + 1), w.description, w.actor, [], t, by simp⟩) })
      (⟨.setConfigValues w.rows, (.ok () : Except StoreErr Unit), s3⟩ :: tail) = some tx := by
    rw [replay_cons, replay_cons, replay_append] at htx
    rw [replay_onlyReads hreads] at htx
    exact htx
  obtain ⟨tx1, htx1, hv1⟩ := replay_quiet htail hend
  simp only [Op.stage] at htx1
  obtain ⟨T, W, V, hW, hnum, hwr, hval, hdesc, hby, rfl⟩ := Tx.addRows_eq_some htx1
  cases hW
  refine ⟨V, hv1, ⟨⟨s0, r, s1, latest, checks, _, rfl, hr, hreads, hchk, hnum⟩, ⟨s2, ?_⟩, hval,
    hdesc, hby, hwr⟩, ?_⟩
  · rw [hnum]
    simp
  · exact ⟨_, _, checks ++ [_, _], tail, by simp; exact ⟨rfl, rfl, rfl, rfl⟩, hrest', htail⟩

/-- **The audit entries an attempt is about to commit** are those of its end. -/
theorem replay_versionTx_audit (hrest : ∀ v, Quiet (rest v))
    (hatt : Attempted (versionTx w rest) att v) {tx : Tx} (htx : replay t tx₀ att = some tx) :
    ∃ tail, Runs (rest v).run tail (.ok ()) ∧ tx.audit = insertedAudit tail := by
  obtain ⟨s0, e, rfl, hrun⟩ := hatt
  obtain ⟨r, s1, latest, checks, s2, s3, tail, rfl, -, hreads, -, htail, hrest'⟩ :=
    versionTx_trace hrest hrun
  refine ⟨tail, hrest', ?_⟩
  rw [replay_cons, replay_cons, replay_append] at htx
  rw [replay_onlyReads hreads] at htx
  have hopen : ∀ e ∈ tail, e.op ≠ .begin := fun e he ho => htail e he (by rw [ho]; trivial)
  obtain ⟨tx1, htx1, haud⟩ := replay_audit (by simpa using hopen) htx
  cases htx1
  exact haud

/-! ### The transaction of a new tenant -/

/-- The body of a new tenant concludes nothing. -/
theorem createTenantTx_open : Avoids Op.Concludes (createTenantTx caller req defaults).run := by
  refine .bind_run ⟨id, fun _ => trivial⟩ fun tn => ?_
  refine .bind_run ?_ fun _ => ?_
  · split
    · exact trivial
    · refine .bind_run ⟨id, fun _ => trivial⟩ fun _ => ?_
      exact ⟨id, fun _ => trivial⟩
  · exact .bind_run ⟨id, fun _ => trivial⟩ fun _ => trivial

/-- The body of a new tenant does not commit. -/
theorem createTenantTx_noCommit : Avoids Op.IsCommit (createTenantTx caller req defaults).run :=
  createTenantTx_open.mono fun _ => Op.IsCommit.concludes

/-- The version that seeds a new tenant: the defaults, under number one. -/
structure SeedVersion (t : ℕ) (defaults : List ConfigValue) (V : ConfigVersion) : Prop where
  version : V.version = 1
  values : V.values = defaults
  writer : V.writer = t

/-- **The version that seeds a new tenant**, if it has defaults. -/
theorem replay_createTenantTx {tn : Tenant}
    (hatt : Attempted (createTenantTx caller req defaults) att tn) {tx : Tx}
    (htx : replay t tx₀ att = some tx) :
    (∃ s, (⟨.createTenant req.name req.schemaId req.schemaVersion,
      (.ok tn : Except StoreErr Tenant), s⟩ : Event Op.Resp State) ∈ att) ∧
    tx.tenant = some tn ∧
    (defaults = [] ∧ tx.version = none ∨
      ∃ V, tx.version = some (tn.id, V) ∧ SeedVersion t defaults V) := by
  obtain ⟨s0, e, rfl, hrun⟩ := hatt
  obtain ⟨e1, e2, tn', rfl, hten, hrun2⟩ := runs_bind_ok hrun
  obtain ⟨e3, e4, _, rfl, hseed, hrun3⟩ := runs_bind_ok hrun2
  obtain ⟨e5, e6, _, rfl, haud, hret⟩ := runs_bind_ok hrun3
  obtain ⟨rfl, rfl⟩ := runs_pure_ok.mp hret
  obtain ⟨r, s1, rfl, hr⟩ := runs_ask.mp hten
  obtain rfl : r = (.ok tn' : Except StoreErr Tenant) := mapError_eq_ok.mp hr
  obtain ⟨r2, s2, rfl, hr2⟩ := runs_ask.mp haud
  obtain rfl : r2 = (.ok () : Except StoreErr Unit) := mapError_eq_ok.mp hr2
  refine ⟨⟨s1, by simp⟩, ?_⟩
  split at hseed
  · rename_i hnil
    obtain ⟨rfl, -⟩ := runs_pure_ok.mp hseed
    cases htx
    exact ⟨rfl, .inl ⟨hnil, rfl⟩⟩
  · obtain ⟨e7, e8, v, rfl, hver, hrows⟩ := runs_bind_ok hseed
    obtain ⟨r3, s3, rfl, hr3⟩ := runs_ask.mp hver
    obtain rfl : r3 = (.ok v : Except StoreErr ℤ) := mapError_eq_ok.mp hr3
    obtain ⟨r4, s4, rfl, hr4⟩ := runs_ask.mp hrows
    obtain rfl : r4 = (.ok () : Except StoreErr Unit) := mapError_eq_ok.mp hr4
    let tx1 : Tx := { tenant := some tn', version := some (tn'.id, ⟨1,
      some "Initial config from schema defaults", getActor caller, [], t, by simp⟩) }
    have hend : Op.stage t (.insertAudit _) (.ok ()) (tx1.addRows defaults) = some tx := htx
    cases hadd : tx1.addRows defaults with
    | none =>
      rw [hadd] at hend
      cases hend
    | some tx2 =>
      rw [hadd] at hend
      cases hend
      obtain ⟨T, W, V, hW, hnum, hwr, hval, -, -, rfl⟩ := Tx.addRows_eq_some hadd
      cases hW
      exact ⟨rfl, .inr ⟨V, rfl, hnum, hval, hwr⟩⟩

end Decree
