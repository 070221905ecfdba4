import Decree.FactoryTraces
import Decree.Versions

/-!
# Calls of the Server

What the calls of a server have seen, and what they commit. An update of a tenant leaves the
store consistent and touches neither logs nor transactions, so that what holds of the commits
of the system holds of the server: versions are numbered one after the other (`server_dense`).

## Main results

* `call_read`: what a call has read.
* `server_dense`: the log of every tenant is dense.
-/

open Interleave List

namespace Decree

variable {env : Env} {init : ServerInit} {allowed : ServerSystem → ℕ → ServerChoice → Prop}
  {d d' : ServerSystem} {t : ℕ} {ch : ServerChoice} {s s' : State} {T : String}
  {e : Event Op.Resp State} {h₁ h₂ : Hist} {q : Query} {V : ConfigVersion}

/-! ### Events of calls -/

section

variable (hr : Reach execServer allowed (init.system env) d)

include hr

/-- The step of an event. -/
theorem call_event (hh : callHist d t = h₁ ++ e :: h₂) :
    ∃ ch d1 s' k, Reach execServer allowed (init.system env) d1 ∧ allowed d1 t ch ∧
      d1.shared.store = e.pre ∧ callHist d1 t = h₁ ∧ (d1.pool t).prog = .op (.inl e.op) k ∧
      execCall ch t e.op e.pre = some (e.resp, s') ∧ Reach execServer allowed d1 d := by
  obtain ⟨g1, σ, g2, hevs, hσ, hg1⟩ := split_of_lefts hh
  obtain ⟨ch, d1, d2, hstep⟩ := hr.event rfl hevs
  obtain ⟨k, hk⟩ := hstep.next
  have hpre : d1.shared = σ := hstep.pre
  refine ⟨ch, d1, d2.shared.store, k, hstep.reach, hstep.admitted, by rw [hpre, hσ], ?_, hk, ?_, ?_⟩
  · rw [callHist, hstep.hist]
    exact hg1
  · rw [← hσ]
    exact (execServer_inl hstep.answer).1
  · exact .trans (.tail (.refl d1) hstep.admitted hstep.stepped) hstep.rest

/-- The step of an event, wherever it is. -/
theorem call_event_of_mem (he : e ∈ callHist d t) :
    ∃ ch d1 s' k, Reach execServer allowed (init.system env) d1 ∧ allowed d1 t ch ∧
      d1.shared.store = e.pre ∧ (d1.pool t).prog = .op (.inl e.op) k ∧
      execCall ch t e.op e.pre = some (e.resp, s') ∧ Reach execServer allowed d1 d := by
  obtain ⟨h₁, h₂, hh⟩ := append_of_mem he
  obtain ⟨ch, d1, s', k, hr1, ha, hpre, -, hp, hexec, hrest⟩ := call_event hr hh
  exact ⟨ch, d1, s', k, hr1, ha, hpre, hp, hexec, hrest⟩

/-- The state of an event is an earlier one. -/
theorem call_behind (he : e ∈ callHist d t) : e.pre.Follows d.shared.store := by
  obtain ⟨-, d1, -, -, -, -, hpre, -, -, hr1⟩ := call_event_of_mem hr he
  exact hpre ▸ server_follows hr1

/-- Events are in order. -/
theorem call_follows
    (hh : callHist d t = h₁ ++ h₂) {e' : Event Op.Resp State} (he : e ∈ h₁) (he' : e' ∈ h₂) :
    e.pre.Follows e'.pre := by
  obtain ⟨k1, k2, rfl⟩ := append_of_mem he'
  rw [← append_assoc] at hh
  obtain ⟨-, d1, -, -, hr1, -, hpre, hhist, -⟩ := call_event hr hh
  rw [← hpre]
  exact call_behind (t := t) hr1 (hhist ▸ mem_append_left k1 he)

/-- **What a call has read** is an error, or what the tables said, except where it has asked the
factory. -/
theorem call_read (hq : ∀ T, q ≠ .boundSchema T)
    {r : Except StoreErr q.Result} (he : readEvent false q r s ∈ callHist d t) :
    r = .error .failed ∨ r = s.db.eval q := by
  obtain ⟨ch, d1, s', k, -, -, -, -, hexec, -⟩ := call_event_of_mem hr he
  rcases execCall_cases hexec with h | ⟨-, inTx, T, ho⟩
  · exact exec_read h
  · exact absurd (Op.read.inj ho).2 (hq T)

/-- What a read returns. -/
theorem call_read_ok {q : Query} (hq : ∀ T, q ≠ .boundSchema T) {a : q.Result}
    (he : readEvent false q (.ok a) s ∈ callHist d t) : s.db.eval q = .ok a := by
  rcases call_read hr hq he with hfail | hread
  · cases hfail
  · exact hread.symm

end

/-! ### Consistency -/

theorem Tables.Rebound.tenantIDs {db db' : Tables} (h : db.Rebound db') :
    db'.tenantIDs = db.tenantIDs := by
  obtain ⟨f, hf, hten⟩ := h.tenants
  rw [Tables.tenantIDs, hten, map_map]
  exact map_congr_left fun tn _ => (hf tn).1

theorem State.Rebound.consistent (h : s.Rebound s') (hc : Consistent s) : Consistent s' := by
  obtain ⟨hdb, hs'⟩ := h
  exact hc.congr (by rw [hs']) (by rw [hs']) hdb.log hdb.tenantIDs

/-- The store is consistent. -/
theorem server_consistent (hr : Reach execServer allowed (init.system env) d) :
    Consistent d.shared.store := by
  refine hr.invariant (fun d => Consistent d.shared.store) ?_ ?_
  · exact init_consistent env ⟨init.tenants, init.schemas, init.locks,
      fun _ => .unlockField ⟨none, false⟩ ⟨"", ""⟩⟩
  · intro d d' u ch _ hc _ hs
    obtain ⟨o, k, r, -, he, -⟩ := step_eq_some hs
    rcases execServer_cases he with hsame | ⟨o', r', -, hexec⟩ | ⟨-, hre⟩
    · rw [hsame]
      exact hc
    · exact hc.exec hexec
    · exact hre.consistent hc

/-! ### Transactions -/

/-- The transaction of a caller after an operation of a call. -/
theorem execCall_txs {o : Op} {r : o.Resp} (h : execCall ch t o s = some (r, s')) :
    s'.txs = Function.update s.txs t (o.stage t r (s.txs t)) := by
  rcases execCall_cases h with hexec | ⟨rfl, inTx, T, rfl⟩
  · exact (exec_effect hexec).txs
  · exact (Function.update_eq_self t s'.txs).symm

theorem execServerOp_txs {o : ServerOp} {r : o.Resp} {σ σ' : Server}
    (h : execServer ch t (.inr o) σ = some (r, σ')) : σ'.store.txs = σ.store.txs := by
  rcases execServer_cases h with hsame | ⟨o', r', ho, -⟩ | ⟨-, -, hre⟩
  · rw [hsame]
  · cases ho
  · rw [hre]

/-- A transaction is what its caller has staged. -/
theorem server_txs (hr : Reach execServer allowed (init.system env) d) (t : ℕ) :
    d.shared.store.txs t = replay t none (callHist d t) := by
  refine hr.invariant (fun d => d.shared.store.txs t = replay t none (callHist d t)) rfl ?_
  intro d d' u ch _ ih _ hs
  obtain ⟨o, k, r, -, he, hpool⟩ := step_eq_some hs
  by_cases hu : t = u
  · subst hu
    rw [callHist, hpool, Function.update_self, lefts_append, replay_append]
    rw [callHist] at ih
    rw [← ih]
    obtain o | o := o
    · rw [execCall_txs (execServer_inl he).1, Function.update_self]
      rfl
    · rw [execServerOp_txs he]
      rfl
  · rw [callHist, hpool, Function.update_of_ne hu]
    rw [callHist] at ih
    rw [← ih]
    obtain o | o := o
    · rw [execCall_txs (execServer_inl he).1, Function.update_of_ne hu]
    · rw [execServerOp_txs he]

/-- A read in a transaction that has only read sees the committed tables. -/
theorem call_read_fresh (hr : Reach execServer allowed (init.system env) d)
    (hq : ∀ T, q ≠ .boundSchema T) {r : Except StoreErr q.Result} {s0 : State} {pre k post : Hist}
    (hk : OnlyReads k)
    (hh : callHist d t = pre ++ (⟨.begin, (.ok () : Except StoreErr Unit), s0⟩ :: k) ++
      readEvent true q r s :: post) : r = .error .failed ∨ r = s.db.eval q := by
  obtain ⟨ch, d1, s', -, hr1, -, hpre, hhist, -, hexec, -⟩ := call_event hr hh
  have htx : s.txs t = some {} := by
    have hrep := server_txs hr1 t
    rw [hhist, replay_append, replay_cons, replay_onlyReads hk, hpre] at hrep
    exact hrep
  rcases execCall_cases hexec with h | ⟨-, inTx, T, ho⟩
  · rcases exec_read h with hfail | heval
    · exact .inl hfail
    · rw [State.view_true htx, Tx.apply_empty] at heval
      exact .inr heval
  · exact absurd (Op.read.inj ho).2 (hq T)

/-! ### Commits -/

/-- The operation changes the store, and is one of the calls. -/
def CallWrites : Op ⊕ ServerOp → Prop
  | .inl o => ¬ o.IsRead
  | .inr _ => False

/-- **Only the calls write config**: the other requests read the store. -/
theorem Request.reads {req : Request} (hreq : ∀ call, req ≠ .call call) :
    Avoids CallWrites (req.prog env) := by
  have hbad : ∀ inTx q, ¬ CallWrites (.inl (.read inTx q)) := fun _ _ h => h trivial
  rcases hl : req.looksUp with _ | ⟨k, T⟩
  · cases req with
    | call c => exact absurd rfl (hreq c)
    | updateTenant caller req =>
      exact (avoids_updateTenant hbad (fun _ _ _ h => h) (fun _ _ h => h) caller req).bind
        fun _ => trivial
    | getCelArtifacts T =>
      refine .bind (.bind_run ?_ fun rules => ?_) fun _ => trivial
      · exact avoids_throughCache (builds_validations env T) hbad (fun h => h) fun _ h => h
      · exact avoids_artifactsOf hbad (fun _ _ h => h) (fun _ h => h) (fun _ h => h)
          (fun _ h => h) (fun _ h => h) rules
    | _ => cases hl
  · obtain ⟨build, hb, hprog⟩ := Request.prog_of_looksUp env hl
    rw [hprog]
    exact (avoids_throughCache hb hbad (fun h => h) fun _ h => h).bind fun _ => trivial

/-- The version that a call is about to commit, and its tenant. -/
def serverPending (d : ServerSystem) (t : ℕ) : Option (String × ConfigVersion) :=
  match (d.pool t).prog with
  | .op (.inl .commit) _ => (d.shared.store.txs t).bind Tx.version
  | _ => none

section

variable (hr : Reach execServer allowed (init.system env) d)

include hr

/-- Only a call is about to do something else than a read. -/
theorem exists_call {o : Op} {k : o.Resp → Prog (Both Op.Resp ServerOp.Resp) Answer}
    (hp : (d.pool t).prog = .op (.inl o) k) (ho : ¬ o.IsRead) :
    ∃ call k', init.requests t = .call call ∧
      After (call.proc env).run (callHist d t) (.op o k') := by
  have hcall : ∃ call, init.requests t = .call call := by
    by_contra hno
    have hafter := server_after hr t
    have hreads : Avoids CallWrites ((init.requests t).prog env) :=
      Request.reads fun call h => hno ⟨call, h⟩
    rw [hp] at hafter
    exact (hreads.after hafter).2.1 ho
  obtain ⟨call, hcall⟩ := hcall
  obtain ⟨q, hq, hafter⟩ := reach_call hr hcall
  obtain ⟨k1, hk1⟩ := op_of_map (hq.symm.trans hp)
  obtain ⟨k2, rfl⟩ := op_of_left hk1
  exact ⟨call, k2, hcall, hafter⟩

/-- A call that has returned is a run of it. -/
theorem call_returned {call : Call} (hcall : init.requests t = .call call)
    {r : Except Status Reply} (hret : d.returned t = some (.reply r)) :
    Runs (call.proc env).run (callHist d t) r := by
  obtain ⟨q, hq, hafter⟩ := reach_call hr hcall
  rw [Config.returned_eq_some.mp hret] at hq
  cases q with
  | ret r =>
    cases hq
    exact hafter
  | op o k => cases hq

/-- A call that commits a version. -/
theorem server_committing {tx : Tx} {k : Op.Resp .commit → Prog (Both Op.Resp ServerOp.Resp) Answer}
    (hp : (d.pool t).prog = .op (.inl .commit) k) (htx : d.shared.store.txs t = some tx)
    (hV : tx.version = some (T, V)) : ∃ call, Committing env t call (callHist d t) tx T V := by
  obtain ⟨call, k', -, hafter⟩ := exists_call hr hp id
  exact ⟨call, Call.committing hafter ((server_txs hr t).symm.trans htx) hV⟩

/-- The version that is committed on a dense log takes the next number. -/
theorem number_of_committing {call : Call}
    {tx : Tx} (hc : Committing env t call (callHist d t) tx T V)
    (htx : d.shared.store.txs t = some tx) (hV : tx.version = some (T, V))
    (hd : Dense (d.shared.store.db.log T)) :
    (d.shared.store.db.log T).length < 2 ^ 31 ∧
      V.version = wrap32 ((d.shared.store.db.log T).length + 1) := by
  have hcons := server_consistent hr
  have hfree := (hcons.pending _ _ _ _ htx hV).2.1
  cases hc with
  | @write w _ pre att v V hh hprep hsrc hatt =>
    obtain ⟨s0, r, s1, latest, checks, tail, rfl, hread, -, -, hnum⟩ := hatt.trace
    have hpre : s1.db.log w.tenantID <+: d.shared.store.db.log w.tenantID :=
      (call_behind (e := readEvent true (.latestConfigVersion w.tenantID) r s1) hr
        (by rw [hh]; simp)).log _
    have hsound : r = .error .failed ∨ r = s1.db.eval (.latestConfigVersion w.tenantID) :=
      call_read_fresh hr (by simp) (k := []) (by simp [OnlyReads])
        (hh.trans (append_assoc pre [_] (_ :: (checks ++ tail))).symm)
    rcases hsound with rfl | rfl
    · cases hread
    · obtain ⟨-, hlat, hlen⟩ := hd.next_free hpre hread (hnum ▸ hfree)
      exact ⟨hlen, by rw [hnum, hlat]⟩
  | @seed caller req tn s V hcall hguard hdef hten htenant hseed =>
    have hnil : d.shared.store.db.log tn.id = [] := by
      by_contra hne
      exact (hcons.newTenant _ _ _ htx htenant).2 (hcons.tenanted _ hne)
    rw [hnil, hseed.version]
    exact ⟨by simp, rfl⟩

/-- **What a step appends to a log**: nothing, or the version that its call is about to
commit. -/
theorem server_commit (hs : step execServer d t ch = some d') (T : String)
    (hd : Dense (d.shared.store.db.log T)) :
    d'.shared.store.db.log T = d.shared.store.db.log T ∨ ∃ V, serverPending d t = some (T, V) ∧
        d'.shared.store.db.log T = d.shared.store.db.log T ++ [V] ∧
        (d.shared.store.db.log T).length < 2 ^ 31 ∧
        V.version = wrap32 ((d.shared.store.db.log T).length + 1) := by
  obtain ⟨o, k, r, hp, he, -⟩ := step_eq_some hs
  rcases execServer_cases he with hsame | ⟨o', r', rfl, hexec⟩ | ⟨-, hre⟩
  · exact .inl (by rw [hsame])
  · rcases exec_log hexec T with hsame | ⟨tx, V, rfl, htx, hversion, hdb⟩
    · exact .inl hsame
    · obtain ⟨call, hc⟩ := server_committing hr hp htx hversion
      refine .inr ⟨V, ?_, ?_, number_of_committing hr hc htx hversion hd⟩
      · simp [serverPending, hp, htx, hversion]
      · rw [hdb, Tx.apply_log]
        simp [Tx.added, hversion]
  · exact .inl (by rw [hre.1.log])

/-- **The log of every tenant is dense**, in every configuration that is reached. -/
theorem server_dense (T : String) : Dense (d.shared.store.db.log T) := by
  refine hr.invariant (fun d => Dense (d.shared.store.db.log T)) dense_nil ?_
  intro d d' u ch hr hd _ hs
  rcases server_commit hr hs T hd with hsame | ⟨V, -, hlog, hlen, hnum⟩
  · exact hsame ▸ hd
  · rw [hlog]
    exact hd.append hlen hnum

end

end Decree
