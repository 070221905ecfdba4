import Decree.Logs
import Decree.Runs

/-!
# Version Numbers and Commits of Config Writes

A config write takes the number after the latest one it reads in its transaction, and
`UNIQUE(tenant_id, version)` lets it commit only if that number is still free. Because the
numbers of a log are dense, a free number is the number after the last: nothing was
committed between that read and the commit. So every commit of a config write happens on
the log that its transaction read, which is what `WriteCommit` says.

## Main results

* `reach_dense`: the log is dense.
* `CommitStep.write_or_seed`: what a commit is.
* `versions_dense_and_stable`, `commits_on_expected_checksum`, `returned_version_iff`: what
  versions promise.
-/

open Interleave List

namespace Decree

/-! ### The commit of a config write -/

variable {L : List ConfigVersion} {V : ConfigVersion} {env : Env} {init : Init}
  {allowed : System → ℕ → Choice → Prop} {c c' c₁ c₂ : System}
  {t : ℕ} {T : String} {tx : Tx}

theorem Tx.apply_empty (db : Tables) : ({} : Tx).apply db = db := by
  cases db
  simp [Tx.apply, Tx.added]

/-- A read in a transaction that has not written. -/
theorem read_sound_fresh (hr : Reach exec allowed (init.system env) c) {q : Query}
    {r : Except StoreErr q.Result} {s s0 : State} {pre k post : Hist} (hk : OnlyReads k)
    (hh : (c.pool t).hist = pre ++ (⟨.begin, (.ok () : Except StoreErr Unit), s0⟩ :: k) ++
      readEvent true q r s :: post) : r = .error .failed ∨ r = s.db.eval q := by
  obtain ⟨ch, c₁, c₂, hstep⟩ := hr.event rfl hh
  have htx : s.txs t = some {} := by
    have hrep := reach_txs hstep.reach t
    rw [hstep.hist, replay_append, replay_cons, replay_onlyReads hk, hstep.pre] at hrep
    exact hrep
  rcases exec_read hstep.answer with hfail | heval
  · exact .inl hfail
  · rw [State.view_true htx, Tx.apply_empty] at heval
    exact .inr heval

/-- **The commit of a config write** `w` as version `V` on the log `L` of its tenant: what the
call had prepared, and that the checksums it expected are those of the log. -/
structure WriteCommit (env : Env) (call : Call) (T : String) (L : List ConfigVersion)
    (V : ConfigVersion) (h : Hist) (w : VersionWrite) : Prop where
  tenant : w.tenantID = T
  prepared : Prepared env call.caller w h
  source : Source env call w h
  values : V.values = w.rows
  checked : ∀ p ∈ w.expected, L = [] ∨
    compareChecksum p.1 p.2 (found (configValueAtVersion L L.length p.1)) = .ok ()

structure SeedCommit (env : Env) (call : Call) (T : String) (V : ConfigVersion) (tx : Tx)
    (h : Hist) (caller : Caller) (req : CreateTenantRequest) : Prop where
  call : call = .createTenant caller req
  guarded : accessGuards caller .global {} = .ok ()
  defaults : DefaultsRead env req V.values h
  tenant : ∃ tn s, (⟨.createTenant req.name req.schemaId req.schemaVersion,
    (.ok tn : Except StoreErr Tenant), s⟩ : Event Op.Resp State) ∈ h ∧
    tx.tenant = some tn ∧ T = tn.id

section

variable (hc : CommitStep env init allowed T L V tx c₁ c₂)

include hc

/-- The log as a call saw it is a beginning of the log it commits on. -/
theorem CommitStep.log_prefix
    {e : Event Op.Resp State} (he : e ∈ (c₁.pool V.writer).hist) : e.pre.db.log T <+: L :=
  hc.log ▸ (le_of_mem hc.reach he).log T

/-- The number was free. -/
theorem CommitStep.free : V.version ∉ versionNumbers L :=
  hc.log ▸ ((reach_consistent hc.reach).pending _ _ _ _ hc.pending hc.version).2.1

variable {r : Except StoreErr ℤ} {pre post : Hist} {latest : ℤ}

/-- **The log does not change between the latest-version read of a transaction and its
commit.** -/
theorem CommitStep.log_at_read (hd : Dense L) {s0 s1 : State}
    (hh : (c₁.pool V.writer).hist = pre ++ ⟨.begin, (.ok () : Except StoreErr Unit), s0⟩ ::
      readEvent true (.latestConfigVersion T) r s1 :: post)
    (hr : versionOrZero r = .ok latest) (hV : V.version = wrap32 (latest + 1)) :
    s1.db.log T = L ∧ latest = L.length ∧ L.length < 2 ^ 31 := by
  have hpre : s1.db.log T <+: L :=
    hc.log_prefix (e := readEvent true (.latestConfigVersion T) r s1) (by rw [hh]; simp)
  have hread : r = .error .failed ∨ r = s1.db.eval (.latestConfigVersion T) :=
    read_sound_fresh hc.reach (k := []) (q := .latestConfigVersion T) (by simp [OnlyReads])
      (hh.trans (append_assoc pre [_] (_ :: post)).symm)
  rcases hread with rfl | rfl
  · cases hr
  · exact hd.next_free hpre hr (hV ▸ hc.free)

/-- The log is the same wherever the call looks after that read. -/
theorem CommitStep.log_after_read
    {e e' : Event Op.Resp State} (hpair : [e, e'] <+ (c₁.pool V.writer).hist)
    (hlog : e.pre.db.log T = L) : e'.pre.db.log T = L := by
  have hlow : L <+: e'.pre.db.log T := hlog ▸ (le_of_pair hc.reach hpair).log T
  have hup : e'.pre.db.log T <+: L :=
    hc.log_prefix (hpair.subset (mem_cons_of_mem _ mem_cons_self))
  exact hup.eq_of_length (le_antisymm hup.length_le hlow.length_le)

/-- The checksums that a transaction compared are those of the log it commits on. -/
theorem CommitStep.checksum {checks : Hist} {s0 s1 s' : State} {p : String × String}
    {r' : Except StoreErr ConfigValue}
    (hh : (c₁.pool V.writer).hist = pre ++ ⟨.begin, (.ok () : Except StoreErr Unit), s0⟩ ::
      readEvent true (.latestConfigVersion T) r s1 :: (checks ++ post))
    (hreads : OnlyReads checks) (hlog : s1.db.log T = L)
    (hr' : readEvent true (.configValueAtVersion T p.1 latest) r' s' ∈ checks)
    (hcmp : compareChecksum p.1 p.2 r' = .ok ()) :
    compareChecksum p.1 p.2 (found (configValueAtVersion L latest p.1)) = .ok () := by
  have hafter : [readEvent true (.latestConfigVersion T) r s1,
      readEvent true (.configValueAtVersion T p.1 latest) r' s'] <+ (c₁.pool V.writer).hist := by
    rw [hh]
    exact sub_skip (.cons _ (.cons_cons _ (singleton_sublist.mpr (by simp [hr']))))
  have hlog' : s'.db.log T = L := hc.log_after_read hafter hlog
  obtain ⟨k1, k2, rfl⟩ := append_of_mem hr'
  have hread : r' = .error .failed ∨ r' = s'.db.eval (.configValueAtVersion T p.1 latest) := by
    refine read_sound_fresh hc.reach (q := .configValueAtVersion T p.1 latest) (s := s')
      (k := readEvent true (.latestConfigVersion T) r s1 :: k1) ?_ (hh.trans (by simp; rfl))
    intro e he
    rcases mem_cons.mp he with rfl | he
    · exact ⟨_, _, rfl⟩
    · exact hreads e (mem_append_left _ he)
  rcases hread with rfl | rfl
  · cases hcmp
  · rw [← hlog']
    exact hcmp

/-- **Every commit**, on a dense log: it takes the next number, and is a config write on the
log its transaction read, or seeds a new tenant. -/
theorem CommitStep.cases_of_dense (hd : Dense L) :
    (L.length < 2 ^ 31 ∧ V.version = wrap32 (L.length + 1)) ∧
      ((∃ w, WriteCommit env (init.calls V.writer) T L V (c₁.pool V.writer).hist w) ∨
        (L = [] ∧ ∃ caller req,
          SeedCommit env (init.calls V.writer) T V tx (c₁.pool V.writer).hist caller req)) := by
  cases hc.committing with
  | @write w _ pre att v V hh hprep hsrc hatt =>
    obtain ⟨s0, r, s1, latest, checks, tail, rfl, hr, hreads, hchk, hnum⟩ := hatt.trace
    obtain ⟨hlog, hlat, hlen⟩ := hc.log_at_read hd hh hr hnum
    refine ⟨⟨hlen, by rw [hnum, hlat]⟩, .inl ⟨w, rfl, ?_, ?_, hatt.values, fun p hp => ?_⟩⟩
    · exact hh ▸ hprep.mono sub_here
    · exact hh ▸ hsrc.mono sub_here
    · rcases hchk p hp with h0 | ⟨r', s', hr', hcmp⟩
      · left
        rw [← length_eq_zero_iff]
        omega
      · exact .inr (hlat ▸ hc.checksum hh hreads hlog hr' hcmp)
  | @seed caller req tn s V hcall hguard hdef hten htx hseed =>
    have hnil : L = [] := by
      by_contra hne
      have hcons := reach_consistent hc.reach
      exact (hcons.newTenant _ _ _ hc.pending htx).2 (hcons.tenanted _ (hc.log ▸ hne))
    subst hnil
    refine ⟨⟨by simp, ?_⟩, .inr ⟨rfl, caller, req, hcall, hguard, hdef, tn, s, hten, htx, rfl⟩⟩
    rw [hseed.version]
    rfl

end

/-! ### Density -/

/-- **The log of every tenant is dense**, in every configuration that is reached. -/
theorem reach_dense (hr : Reach exec allowed (init.system env) c) (T : String) :
    Dense (c.shared.db.log T) := by
  refine hr.invariant (fun c => Dense (c.shared.db.log T)) dense_nil ?_
  intro c c' u ch hr hd ha hs
  rcases commitStep_of_step hr ha hs T with hsame | ⟨V, tx, -, hc⟩
  · exact hsame ▸ hd
  · obtain ⟨⟨hlen, hnum⟩, -⟩ := hc.cases_of_dense hd
    rw [hc.log_after]
    exact hd.append hlen hnum

section

variable (hc : CommitStep env init allowed T L V tx c₁ c₂)

include hc

/-- The log before is dense. -/
theorem CommitStep.dense : Dense L := hc.log ▸ reach_dense hc.reach T

/-- And so is the log after. -/
theorem CommitStep.dense_after : Dense (L ++ [V]) := hc.log_after ▸ reach_dense hc.reached T

/-- The number is the next one. -/
theorem CommitStep.number : L.length < 2 ^ 31 ∧ V.version = wrap32 (L.length + 1) :=
  (hc.cases_of_dense hc.dense).1

/-- **Every commit is a config write or seeds a tenant.** -/
theorem CommitStep.write_or_seed :
    (∃ w, WriteCommit env (init.calls V.writer) T L V (c₁.pool V.writer).hist w) ∨
      (L = [] ∧ ∃ caller req,
        SeedCommit env (init.calls V.writer) T V tx (c₁.pool V.writer).hist caller req) :=
  (hc.cases_of_dense hc.dense).2

end

variable {w : VersionWrite} {req : CreateTenantRequest} {f checksum : String} {row : ConfigValue}
  {s : State}

/-- The binding of a new tenant. -/
theorem boundSchema_of_created (hr : Reach exec allowed (init.system env) c) {tx : Tx}
    {tn : Tenant} {defaults : List ConfigValue}
    (hpending : c.shared.txs t = some tx) (htx : tx.tenant = some tn)
    (hten : (⟨.createTenant req.name req.schemaId req.schemaVersion,
      (.ok tn : Except StoreErr Tenant), s⟩ : Event Op.Resp State) ∈ (c.pool t).hist)
    (hdef : DefaultsRead env req defaults (c.pool t).hist) :
    ∃ sv, (tx.apply c.shared.db).boundSchema tn.id = some sv ∧
      collectDefaultValues env sv.fields = .ok defaults := by
  obtain ⟨sv, fields, s1, s2, hsv, hfields, hrows⟩ := hdef.read
  have hsv' : c.shared.db.schemaVersion req.schemaId req.schemaVersion = some sv := by
    rw [Tables.schemaVersion, (le_of_mem hr hsv).schemas]
    exact found_eq_ok.mp (read_ok hr hsv)
  obtain rfl : sv.fields = fields := by
    have hread : s2.db.schemaFields sv.id = fields := Except.ok.inj (read_ok hr hfields)
    rw [← hread]
    refine (Tables.schemaFields_of_mem ?_).symm
    rw [← (le_of_mem hr hfields).schemas]
    exact mem_of_find?_eq_some hsv'
  refine ⟨sv, ?_, hrows⟩
  -- the new tenant is the only one with its identifier
  have hfresh := ((reach_consistent hr).newTenant _ _ _ hpending htx).2
  have hfind : c.shared.db.tenantByID tn.id = none := by
    refine find?_eq_none.mpr fun tn' htn' hid => hfresh ?_
    rw [Bool.and_eq_true, decide_eq_true_eq] at hid
    exact mem_map.mpr ⟨tn', htn', hid.1⟩
  obtain ⟨ch, s', hexec⟩ := exec_of_mem hr hten
  obtain ⟨-, htn⟩ := exec_createTenant hexec
  have hbound : (tx.apply c.shared.db).tenantByID tn.id = some tn := by
    rw [Tables.tenantByID, Tx.apply, find?_append]
    rw [Tables.tenantByID] at hfind
    rw [hfind, htx, htn]
    simp
  rw [Tables.boundSchema, hbound, Option.bind_some, htn]
  exact hsv'

/-- A seeded version holds the defaults of the schema that the new tenant is bound to. -/
theorem CommitStep.seed_defaults (hc : CommitStep env init allowed T L V tx c₁ c₂) {caller : Caller}
    (hs : SeedCommit env (init.calls V.writer) T V tx (c₁.pool V.writer).hist caller req) :
    ∃ sv, c₂.shared.db.boundSchema T = some sv ∧
      collectDefaultValues env sv.fields = .ok V.values := by
  obtain ⟨tn, s, hten, htx, rfl⟩ := hs.tenant
  rw [hc.db]
  exact boundSchema_of_created hc.reach hc.pending htx hten hs.defaults

/-- The schema that a config write was checked against is the one its tenant is bound to at
the end. -/
theorem CommitStep.boundSchema (hc : CommitStep env init allowed T L V tx c₁ c₂)
    (hw : WriteCommit env (init.calls V.writer) T L V (c₁.pool V.writer).hist w)
    (hrow : row ∈ V.values) (hr : Reach exec allowed c₂ c) {sv : SchemaVersion}
    (hsv : c.shared.db.boundSchema T = some sv) :
    c₁.shared.db.boundSchema T = some sv := by
  obtain ⟨fields, hfields, -⟩ := hw.prepared.attributed row (hw.values ▸ hrow)
  rw [hw.tenant] at hfields
  obtain ⟨sv', hsv', -⟩ := schemaRead_now hc.reach hfields
  have hend := (hc.le.trans (reach_le hr)).boundSchema hsv'
  rw [hsv', ← hend, hsv]

/-- **The commit in the history of a config write** is the commit of a version with its
rows. -/
theorem commitStep_of_attempted (hr : Reach exec allowed (init.system env) c)
    {rest : ℤ → Proc TxErr Unit} (hrest : ∀ v, Quiet (rest v)) {pre att post : Hist} {v : ℤ}
    (hatt : Attempted (versionTx w rest) att v)
    (hh : (c.pool t).hist = (pre ++ att) ++ commitEvent s :: post) :
    ∃ L V tx c₁ c₂, CommitStep env init allowed w.tenantID L V tx c₁ c₂ ∧
      Reach exec allowed c₂ c ∧ V.writer = t ∧ V.version = v ∧ V.values = w.rows ∧
      V.createdBy = w.actor ∧ (c₁.pool t).hist = pre ++ att ∧ c₁.shared = s := by
  obtain ⟨ch, c₁, c₂, hstep⟩ := hr.event rfl hh
  obtain ⟨tx, htx, hdb⟩ := exec_commit hstep.answer
  rw [← hstep.pre] at htx hdb
  have hrep := reach_txs hstep.reach t
  rw [htx, hstep.hist, replay_append] at hrep
  obtain ⟨V, hV, hatt', -⟩ := replay_versionTx hrest hatt hrep.symm
  obtain rfl := hatt'.writer
  obtain ⟨s', hcreate⟩ := hatt'.returned
  refine ⟨_, V, tx, c₁, c₂, ⟨hstep.reach, ⟨ch, hstep.admitted, hstep.stepped⟩, rfl, htx, hV,
    hstep.next, hdb⟩, hstep.rest, rfl, ?_, hatt'.values, hatt'.createdBy, hstep.hist, hstep.pre⟩
  obtain ⟨ch', s'', hexec⟩ := exec_of_mem hstep.reach (t := V.writer) (by
    rw [hstep.hist]
    exact mem_append_right _ hcreate)
  exact (exec_createConfigVersion hexec).symm

/-- **A version that a call has returned is committed.** -/
theorem exists_commitStep_of_returned (hr : Reach exec allowed (init.system env) c) {n : ℤ}
    (hret : c.returned t = some (.ok (.version n))) :
    ∃ T L V tx c₁ c₂, CommitStep env init allowed T L V tx c₁ c₂ ∧ Reach exec allowed c₂ c ∧
      V.writer = t ∧ V.version = n ∧
      (c₁.pool t).hist ++ [commitEvent c₁.shared] <+: (c.pool t).hist := by
  have hafter := returned_runs hr hret
  cases Call.late (q := .ret (.ok (.version n))) trivial hafter with
  | repeated hq => cases hq
  | reading hread hshows => exact absurd (hshows _ rfl) id
  | locking hkey hwrite hl =>
    obtain ⟨T, audit, pre, post, -, -, -, -, hat⟩ := hl
    obtain ⟨_, _, _, _, _, hq, -⟩ := hat.returned
    cases hq
  | seeding hcall hs =>
    obtain ⟨defaults, pre, post, -, -, -, -, hat⟩ := hs
    obtain ⟨_, _, _, _, _, hq, -⟩ := hat.returned
    cases hq
  | writing hw =>
    obtain ⟨w, audit, rest, pre, post, hh, hrest, -, -, -, -, hat⟩ := hw
    obtain ⟨pre', att, v, s, post', hq, -, hatt, -, rfl⟩ := hat.returned
    cases hq
    have hh' : (c.pool t).hist = (pre ++ pre' ++ att) ++ commitEvent s :: post' := by
      rw [hh]
      simp
    obtain ⟨L, V, tx, c₁, c₂, hc, hr2, hwriter, hnum, -, -, hhist, rfl⟩ :=
      commitStep_of_attempted hr hrest.quiet hatt hh'
    refine ⟨w.tenantID, L, V, tx, c₁, c₂, hc, hr2, hwriter, hnum, post', ?_⟩
    rw [hhist, hh']
    simp

/-- **Versions are numbered `1..n` in the order in which they commit, and snapshots are
stable**: whatever the calls and their interleaving, and whichever operations fail. -/
theorem versions_dense_and_stable (hr : Reach exec anyStep (init.system env) c) (T : String)
    (hlen : (c.shared.db.log T).length < 2 ^ 31) :
    versionNumbers (c.shared.db.log T) =
      (List.range (c.shared.db.log T).length).map (fun i : ℕ => (i : ℤ) + 1) ∧
    ∀ c₀, Reach exec anyStep c₀ c → c₀.shared.db.log T <+: c.shared.db.log T ∧
      ∀ v ∈ versionNumbers (c₀.shared.db.log T),
        fullConfigAtVersion (c.shared.db.log T) v = fullConfigAtVersion (c₀.shared.db.log T) v := by
  refine ⟨(reach_dense hr T).numbers_of_lt hlen, fun c₀ hr0 => ?_⟩
  have hpre := (reach_le hr0).log T
  exact ⟨hpre, fun v hv => (reach_dense hr T).fullConfigAtVersion_stable hlen hpre hv⟩

open Sample

theorem versions_dense_and_stable_two_writes :
    ∃ c, Reach exec anyStep ((Sample.init [] [set superadmin "b" "x",
        set superadmin "b" "y"]).system (world noDocument)) c ∧
      versionNumbers (c.shared.db.log tenant) = [1, 2] := by
  obtain ⟨c, hr, hlen⟩ : ∃ c, Reach exec anyStep ((Sample.init []
      [set superadmin "b" "x", set superadmin "b" "y"]).system
        (world noDocument)) c ∧ (c.shared.db.log tenant).length = 2 :=
    exists_reach_of_run (steps 0 16 ++ steps 1 17) (by decide +kernel)
  have hnum := (versions_dense_and_stable hr tenant (by rw [hlen]; decide)).1
  rw [hlen] at hnum
  exact ⟨c, hr, hnum⟩

/-! ### What a config write returns -/

/-- The answer to the commit of a version is not lost. -/
def AnswersCommits (c : System) (t : ℕ) (ch : Choice) : Prop :=
  (pendingCommit c t).isSome = true → ch ≠ .lost

instance (ch : Choice) : Decidable (AnswersCommits c t ch) :=
  inferInstanceAs (Decidable (_ → _))

/-- The commit of a version in the history of its writer. -/
theorem exists_commitEvent (hr : Reach exec AnswersCommits (init.system env) c)
    (hV : V ∈ c.shared.db.log T) :
    ∃ h s post, (c.pool V.writer).hist = h ++ commitEvent s :: post := by
  obtain ⟨L, rest, hlog⟩ := append_of_mem hV
  obtain ⟨tx, c₁, c₂, hc, hr2⟩ := exists_commitStep hr hlog
  obtain ⟨ch, r, ha, he, post, hhist⟩ := hc.event hr2
  obtain rfl : r = (.ok () : Except StoreErr Unit) := by
    have hcommit : execCommit ch V.writer c₁.shared = some (r, c₂.shared) := he
    simp only [execCommit, hc.pending] at hcommit
    cases ch with
    | lost => exact absurd rfl (ha (by simp [hc.pendingCommit]))
    | fail =>
      have hlog := hc.log_after
      rw [← (answer_inj hcommit).2] at hlog
      exact absurd (hc.log.symm.trans hlog) (by simp)
    | _ => exact (answer_inj hcommit).1.symm
  exact ⟨_, _, post, by rw [← hhist, append_assoc]; rfl⟩

/-- **The answer of a config write tells what it has written**, in every run in which no answer to
a commit is lost: it returns the number of the version that it has committed, and where it returns
anything else it has committed none. -/
theorem returned_version_iff (hr : Reach exec AnswersCommits (init.system env) c)
    (hwrites : (init.calls t).conflict ≠ none) {r : Except Status Reply}
    (hret : c.returned t = some r) (n : ℤ) : r = .ok (.version n) ↔
      ∃ T, ∃ V ∈ c.shared.db.log T, V.writer = t ∧ V.version = n := by
  have hmp : ∀ {n}, r = .ok (.version n) →
      ∃ T, ∃ V ∈ c.shared.db.log T, V.writer = t ∧ V.version = n := by
    rintro n rfl
    obtain ⟨T, L, V, tx, c₁, c₂, hc, hr2, hwriter, hnum, -⟩ := exists_commitStep_of_returned hr hret
    exact ⟨T, V, ((reach_le hr2).log T).subset (by simp [hc.log_after]), hwriter, hnum⟩
  refine ⟨hmp, ?_⟩
  rintro ⟨T, V, hV, rfl, rfl⟩
  obtain ⟨h, s, post, hhist⟩ := exists_commitEvent hr hV
  have hruns := returned_runs hr hret
  rw [hhist] at hruns
  obtain ⟨k, hcommit, hrest⟩ := After.split hruns
  cases Call.cleared (q := .op .commit k) (.inl trivial) hcommit with
  | repeated hq => cases hq
  | unchanged _ hq => cases hq
  | other hcall => exact absurd hcall hwrites
  | preparing hp =>
    obtain ⟨w, pre, mid, -, audit, rest, onError, changes, hfin, -, -, -, -, -, -, hafter⟩ := hp
    have hrun : Runs (commitWrite w rest onError changes).run (mid ++ commitEvent s :: post) r :=
      hafter.trans (.op hrest)
    cases r with
    | error e =>
      obtain ⟨e1, e2, x, heq, hno, hfail, -⟩ := commitWrite_error hrun
      have hmem : commitEvent s ∈ e1 ++ e2 := heq ▸ by simp
      rcases mem_append.mp hmem with hmem | hmem
      · exact absurd rfl (hno _ hmem)
      · exact absurd hmem (retryOnVersionConflict_error (versionTx_noCommit hfin.quiet) hfail s)
    | ok reply =>
      obtain ⟨-, -, n, -, -, rfl, -⟩ :=
        (commitWrite_late hfin.quiet (q := .ret (.ok reply)) trivial hrun).returned
      obtain ⟨T', W, hW, hwriter, rfl⟩ := hmp rfl
      rw [(version_unique hr hV hW hwriter.symm).2]

/-- A write whose commit fails. -/
theorem returned_version_iff_failed : ∃ c, Reach exec AnswersCommits
        ((Sample.init [] [set superadmin "b" "x"]).system (world noDocument)) c ∧
      c.returned 0 = some (.error (internal "failed to set field")) ∧
      ∀ T, ∀ V ∈ c.shared.db.log T, V.writer ≠ 0 := by
  obtain ⟨c, hr, hret⟩ : ∃ c, Reach exec AnswersCommits
        ((Sample.init [] [set superadmin "b" "x"]).system (world noDocument)) c ∧
      c.returned 0 = some (.error (internal "failed to set field")) :=
    exists_reach_of_run (steps 0 13 ++ [(0, .fail)]) (by decide +kernel)
  refine ⟨c, hr, hret, fun T V hV hwriter => ?_⟩
  have hwrites : (set superadmin "b" "x").conflict ≠ none := by simp [Sample.set, Call.conflict]
  cases (returned_version_iff hr (t := 0) hwrites hret V.version).mpr ⟨T, V, hV, hwriter, rfl⟩

/-! ### Who writes -/

/-- Superadmins may write to every tenant, admins to theirs. -/
def Caller.MayWrite (c : Caller) (T : String) : Prop :=
  c.isSuperAdmin = true ∨
    ∃ claims, c.claims = some claims ∧ claims.role = .admin ∧ T ∈ claims.tenantIDs

/-- Who has passed the guards may write. -/
theorem mayWrite_of_accessGuards {caller : Caller} {r : Resource} (hT : r.tenantID ≠ "")
    (h : accessGuards caller .write r = .ok ()) : caller.MayWrite r.tenantID := by
  rw [accessGuards, tenantScopeGuard, if_neg (by simp [hT])] at h
  split at h
  · cases h
  rename_i hscope
  simp only [checkTenantAccess, rolePolicyGuard, requireAdminOrAbove, requireClaims] at hscope h
  cases hclaims : caller.claims with
  | none => exact .inl (by simpa [Caller.isSuperAdmin, hclaims] using h)
  | some claims =>
    simp only [Caller.MayWrite, Caller.isSuperAdmin, hclaims]
    cases hrole : claims.role <;> simp_all [Claims.hasTenantAccess]

/-- **Whoever has written to a tenant was allowed to**: no version of a tenant has a row from a
caller who is neither a superadmin nor an admin of the tenant. -/
theorem committed_authorized (hr : Reach exec allowed (init.system env) c)
    (hV : V ∈ c.shared.db.log T) (hT : T ≠ "") (hrow : row ∈ V.values) :
    (init.calls V.writer).caller.MayWrite T := by
  obtain ⟨L, rest, hlog⟩ := append_of_mem hV
  obtain ⟨tx, c₁, c₂, hc, -⟩ := exists_commitStep hr hlog
  rcases hc.write_or_seed with ⟨w, hw⟩ | ⟨-, caller, req, hs⟩
  · obtain rfl := hw.tenant
    exact mayWrite_of_accessGuards hT (hw.prepared.guarded row (hw.values ▸ hrow)).1
  · rw [hs.call]
    exact .inl (isSuperAdmin_of_global hs.guarded)

theorem committed_authorized_admin : ∃ c, Reach exec anyStep
        ((Sample.init [] [set admin "b" "x"]).system (world noDocument)) c ∧
      c.shared.db.log tenant ≠ [] ∧ admin.MayWrite tenant := by
  obtain ⟨c, hr, V, hV, hwriter, row, hrow, -⟩ : ∃ c, Reach exec anyStep
        ((Sample.init [] [set admin "b" "x"]).system (world noDocument)) c ∧
      ∃ V ∈ c.shared.db.log tenant, V.writer = 0 ∧ ∃ row ∈ V.values, row.fieldPath = "b" :=
    exists_reach_of_run (steps 0 17) (by decide +kernel)
  have hmay := committed_authorized hr hV (by decide) hrow
  rw [hwriter] at hmay
  exact ⟨c, hr, ne_nil_of_mem hV, hmay⟩

/-! ### Expected checksums -/

/-- The call expects the field to have the checksum. -/
def Call.Expects : Call → String → String → Prop
  | setField _ req, f, checksum => req.fieldPath = f ∧ req.expectedChecksum = some checksum
  | setFields _ req, f, checksum =>
    ∃ u ∈ req.updates, u.fieldPath = f ∧ u.expectedChecksum = some checksum
  | _, _, _ => False

/-- The checksum that a call expects is compared. -/
theorem Source.expected {call : Call} {h : Hist} (hs : Source env call w h)
    (he : call.Expects f checksum) : (f, checksum) ∈ w.expected := by
  cases hs with
  | setField hres hval hkey =>
    obtain ⟨rfl, hsum⟩ := he
    simp [setFieldWrite, hsum]
  | setFields hres hval hkey =>
    obtain ⟨u, hu, rfl, hsum⟩ := he
    exact mem_filterMap.mpr ⟨u, hu, by simp [hsum]⟩
  | rollbackToVersion | importConfig => exact absurd he id

/-- The row just below a version that was committed under an expected checksum. -/
theorem CommitStep.expected (hc : CommitStep env init allowed T L V tx c₁ c₂)
    (he : (init.calls V.writer).Expects f checksum)
    (hrow : configValueAtVersion L (V.version - 1) f = some row) :
    derefString row.checksum = checksum := by
  obtain ⟨W, hW, hle, -⟩ := DeltaLog.exists_of_rowAt_eq_some hrow
  obtain ⟨w, hw⟩ | ⟨rfl, -⟩ := hc.write_or_seed
  · obtain ⟨hlen, hnum⟩ := hc.number
    -- a row below the version means that its number has not wrapped
    have hpred : V.version - 1 = L.length := by
      obtain ⟨i, hi, hWi⟩ := hc.dense.mem_numbers.mp (mem_map_of_mem hW)
      simp only [wrap32] at hnum hWi
      omega
    rw [hpred] at hrow
    rcases hw.checked _ (hw.source.expected he) with rfl | hcmp
    · exact absurd hW not_mem_nil
    · rw [hrow] at hcmp
      by_contra hne
      simp [found, compareChecksum, hne] at hcmp
  · exact absurd hW not_mem_nil

/-- **No update is lost**: a write that expects a checksum commits only where the field has no
row or the row has that checksum. So of two writes with the same one, the later finds it
again. -/
theorem commits_on_expected_checksum (hr : Reach exec anyStep (init.system env) c)
    {rest : List ConfigVersion} {f checksum : String}
    (hlog : c.shared.db.log T = L ++ V :: rest)
    (he : (init.calls V.writer).Expects f checksum) :
    (∀ row, configValueAtVersion L (V.version - 1) f = some row →
      derefString row.checksum = checksum) ∧
    ∀ L₁ W L₂, L = L₁ ++ W :: L₂ → (init.calls W.writer).Expects f checksum →
      W.version < V.version → (configValueAtVersion L₁ (W.version - 1) f).isSome = true →
      ∃ row, configValueAtVersion L (V.version - 1) f = some row ∧
        derefString row.checksum = checksum := by
  obtain ⟨tx, c₁, c₂, hc, -⟩ := exists_commitStep hr hlog
  refine ⟨fun row => hc.expected he, fun L₁ W L₂ hL _ hlt hsome => ?_⟩
  -- the row that the first write found is still there
  obtain ⟨row, hrow⟩ : ∃ row, configValueAtVersion L (V.version - 1) f = some row := by
    obtain ⟨r, hr⟩ := Option.isSome_iff_exists.mp hsome
    obtain ⟨U, hU, hle, hUr⟩ := DeltaLog.exists_of_rowAt_eq_some hr
    rw [← Option.ne_none_iff_exists']
    intro hnone
    have hUL : U ∈ L := hL ▸ mem_append_left _ hU
    rw [DeltaLog.rowAt_eq_none.mp hnone U hUL (by omega)] at hUr
    cases hUr
  exact ⟨row, hrow, hc.expected he hrow⟩

theorem commits_on_expected_checksum_twice :
    ∃ c L V row, Reach exec anyStep ((Sample.init [] [set superadmin "b" "x",
        compareAndSet superadmin "b" "x" "y",
        set superadmin "b" "x",
        compareAndSet superadmin "b" "x" "z"]).system (world noDocument)) c ∧
      c.shared.db.log tenant = L ++ [V] ∧
      configValueAtVersion L (V.version - 1) "b" = some row ∧
      derefString row.checksum = computeChecksum (world noDocument) "x" := by
  obtain ⟨c, hr, hw, hn, hrow⟩ : ∃ c, Reach exec anyStep ((Sample.init [] [set superadmin "b" "x",
        compareAndSet superadmin "b" "x" "y",
        set superadmin "b" "x",
        compareAndSet superadmin "b" "x" "z"]).system (world noDocument)) c ∧
      (c.shared.db.log tenant).map ConfigVersion.writer = [0, 1, 2, 3] ∧
      (c.shared.db.log tenant).map ConfigVersion.version = [1, 2, 3, 4] ∧
      (configValueAtVersion ((c.shared.db.log tenant).take 1) 1 "b").isSome = true :=
    exists_reach_of_run (steps 0 16 ++ steps 1 18 ++ steps 2 17 ++ steps 3 18) (by decide +kernel)
  obtain ⟨V0, V1, V2, V3, hlog⟩ : ∃ V0 V1 V2 V3, c.shared.db.log tenant = [V0, V1, V2] ++ [V3] :=
    length_eq_four.mp (by simpa using congrArg length hw)
  simp only [hlog, cons_append, nil_append, map_cons, map_nil, cons.injEq, and_true] at hw hn
  obtain ⟨-, hw1, -, hw3⟩ := hw
  obtain ⟨-, hn1, -, hn3⟩ := hn
  obtain ⟨row, h⟩ := (commits_on_expected_checksum (f := "b") hr hlog
    (by rw [hw3]; exact ⟨rfl, rfl⟩)).2 [V0] V1 [V2] rfl (by rw [hw1]; exact ⟨rfl, rfl⟩)
    (by rw [hn1, hn3]; decide) (by rw [hn1]; rw [hlog] at hrow; exact hrow)
  exact ⟨c, [V0, V1, V2], V3, row, hr, hlog, h⟩

end Decree
