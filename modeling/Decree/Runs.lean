import Decree.CallTraces

/-!
# Runs of the System

What holds in every configuration that a run reaches: the store is consistent, a call's
transaction is what its history says, and the committed tables only grow. With it every
event of a history and every committed version is traced back to the step that made it.

## Main results

* `read_sound`: what a read returns.
* `exists_commitStep`: every version has a commit.
* `log_induction`: the rule for logs.
-/

open Interleave List

namespace Decree

variable {env : Env} {init : Init} {allowed : System → ℕ → Choice → Prop} {c c' : System}
  {t : ℕ} {c₀ : System} {e e' : Event Op.Resp State} {s s' : State} {idOrName T : String}
  {sv : SchemaVersion}

/-! ### Invariants -/

/-- The start is consistent. -/
theorem init_consistent (env : Env) (init : Init) : Consistent (init.system env).shared := by
  refine ⟨?_, ?_, ?_, ?_⟩
  · intro k u u' hu
    exact absurd hu not_mem_nil
  · intro u tx T V htx
    cases htx
  · intro u tx tn htx
    cases htx
  · intro T hT
    exact absurd rfl hT

section

variable (hr : Reach exec allowed (init.system env) c)

include hr

/-- Every reachable state is consistent. -/
theorem reach_consistent : Consistent c.shared := by
  refine hr.invariant (fun c => Consistent c.shared) (init_consistent env init) ?_
  intro c c' u ch _ hc _ hs
  obtain ⟨o, k, r, -, he, -⟩ := step_eq_some hs
  exact hc.exec he

/-- The open transaction is what the history staged. -/
theorem reach_txs (t : ℕ) : c.shared.txs t = replay t none (c.pool t).hist := by
  refine hr.invariant (fun c => c.shared.txs t = replay t none (c.pool t).hist) rfl ?_
  intro c c' u ch _ ih _ hs
  obtain ⟨o, k, r, -, he, hpool⟩ := step_eq_some hs
  rw [(exec_effect he).txs, hpool]
  by_cases hu : t = u
  · subst hu
    rw [Function.update_self, Function.update_self, replay_append, ← ih]
    rfl
  · rw [Function.update_of_ne hu, Function.update_of_ne hu, ih]

/-- A call is at some point of its program. -/
theorem reach_after (t : ℕ) :
    After ((init.calls t).proc env).run (c.pool t).hist (c.pool t).prog := by
  obtain ⟨evs, hh, ha⟩ := hr.after t
  have hnil : ((init.system env).pool t).hist = [] := rfl
  rw [hnil, nil_append] at hh
  rw [hh]
  exact ha

/-- A call that has returned has run its program. -/
theorem returned_runs {t : ℕ} {r : Except Status Reply} (hret : c.returned t = some r) :
    Runs ((init.calls t).proc env).run (c.pool t).hist r := by
  rw [Runs, ← Config.returned_eq_some.mp hret]
  exact reach_after hr t

end

/-- The state grows along a run. -/
theorem reach_le (hr : Reach exec allowed c₀ c) : c₀.shared.le c.shared :=
  hr.climbs State.le.refl (fun _ _ _ => State.le.trans) fun _ _ _ _ _ _ => exec_le

/-! ### Events -/

section

variable (hr : Reach exec allowed (init.system env) c)

include hr

/-- The event of a history was a step, in the state it records. -/
theorem exec_of_mem (he : e ∈ (c.pool t).hist) :
    ∃ ch s', exec ch t e.op e.pre = some (e.resp, s') := by
  obtain ⟨h1, ch, c₁, c₂, hstep⟩ := hr.event_of_mem rfl he
  exact ⟨ch, _, hstep.answer⟩

/-- The state grows from every event on. -/
theorem le_of_mem (he : e ∈ (c.pool t).hist) : e.pre.le c.shared := by
  obtain ⟨h1, ch, c₁, c₂, hstep⟩ := hr.event_of_mem rfl he
  exact (exec_le hstep.answer).trans (reach_le hstep.rest)

/-- The state grows between two events. -/
theorem le_of_pair (he : [e, e'] <+ (c.pool t).hist) : e.pre.le e'.pre := by
  obtain ⟨h1, h2, hh, he1, he2⟩ := append_sublist_iff.mp (show [e] ++ [e'] <+ _ from he)
  obtain ⟨h3, h4, rfl⟩ := append_of_mem (singleton_sublist.mp he2)
  rw [← append_assoc] at hh
  obtain ⟨ch, c₁, c₂, hstep⟩ := hr.event rfl hh
  rw [← hstep.pre]
  refine le_of_mem (t := t) hstep.reach ?_
  rw [hstep.hist]
  exact mem_append_left _ (singleton_sublist.mp he1)

/-- The state grows from a part to the next. -/
theorem le_of_append {h h' : Hist}
    (hh : (c.pool t).hist = h ++ h') (he : e ∈ h) (he' : e' ∈ h') : e.pre.le e'.pre := by
  refine le_of_pair (t := t) hr ?_
  rw [hh]
  exact (singleton_sublist.mpr he).append (singleton_sublist.mpr he')

/-- A read fails, or it is of the tables. -/
theorem read_sound {q : Query}
    {r : Except StoreErr q.Result} (he : readEvent false q r s ∈ (c.pool t).hist) :
    r = .error .failed ∨ r = s.db.eval q := by
  obtain ⟨ch, s', hexec⟩ := exec_of_mem hr he
  exact exec_read hexec

end

/-- A read that succeeds is of the tables. -/
theorem read_ok (hr : Reach exec allowed (init.system env) c) {q : Query} {a : q.Result}
    (he : readEvent false q (.ok a) s ∈ (c.pool t).hist) : s.db.eval q = .ok a := by
  rcases read_sound hr he with hfail | hread
  · cases hfail
  · exact hread.symm

/-- A call that had not begun has seen nothing older. -/
theorem le_of_begun (hr : Reach exec allowed c₀ c) (h0 : (c₀.pool t).hist = [])
    (he : e ∈ (c.pool t).hist) : c₀.shared.le e.pre := by
  obtain ⟨h1, ch, c₁, c₂, hstep⟩ := hr.event_of_mem h0 he
  exact hstep.pre ▸ reach_le hstep.reach

/-- What is in a history now was there before, or was performed since. -/
theorem mem_or_le (hr : Reach exec allowed c₀ c) (he : e ∈ (c.pool t).hist) :
    e ∈ (c₀.pool t).hist ∨ c₀.shared.le e.pre := by
  refine hr.invariant (fun c => ∀ e ∈ (c.pool t).hist, e ∈ (c₀.pool t).hist ∨
    c₀.shared.le e.pre) (fun e he => .inl he) ?_ e he
  intro c c' u ch hr ih ha hs e he
  obtain ⟨o, k, r, -, -, hpool⟩ := step_eq_some hs
  rw [hpool] at he
  by_cases hu : t = u
  · subst hu
    rw [Function.update_self] at he
    rcases mem_append.mp he with he | he
    · exact ih e he
    · rw [mem_singleton.mp he]
      exact .inr (reach_le hr)
  · rw [Function.update_of_ne hu] at he
    exact ih e he

/-- Two events are before one another. -/
theorem le_or_le (hr : Reach exec allowed (init.system env) c) {t' : ℕ} (he : e ∈ (c.pool t).hist)
    (he' : e' ∈ (c.pool t').hist) : e.pre.le e'.pre ∨ e'.pre.le e.pre := by
  obtain ⟨h1, ch, c₁, c₂, hstep⟩ := hr.event_of_mem rfl he
  have hr1 : Reach exec allowed c₁ c :=
    Reach.trans (.tail (.refl c₁) hstep.admitted hstep.stepped) hstep.rest
  rw [← hstep.pre]
  rcases mem_or_le hr1 he' with hmem | hle
  · exact .inr (le_of_mem hstep.reach hmem)
  · exact .inl hle

/-- Histories only grow. -/
theorem hist_extends (hr : Reach exec allowed c₀ c) (t : ℕ) :
    (c₀.pool t).hist <+: (c.pool t).hist := by
  obtain ⟨evs, hh, -⟩ := hr.after t
  exact hh ▸ prefix_append _ _

/-! ### Tenants -/

def Tables.tenantOf (db : Tables) (idOrName : String) : Option String :=
  if isUUID idOrName then some idOrName else (db.tenantByName idOrName).map Tenant.id

/-- A tenant keeps its name. -/
theorem State.le.tenantOf (h : s.le s') (hT : s.db.tenantOf idOrName = some T) :
    s'.db.tenantOf idOrName = some T := by
  by_cases hu : isUUID idOrName = true
  · rw [Tables.tenantOf, if_pos hu] at hT ⊢
    exact hT
  · rw [Tables.tenantOf, if_neg hu] at hT ⊢
    obtain ⟨tn, htn, hid⟩ := Option.map_eq_some_iff.mp hT
    exact Option.map_eq_some_iff.mpr ⟨tn, h.tenants.find?_eq_some htn, hid⟩

section

variable (hr : Reach exec allowed (init.system env) c)

include hr

/-- The tenant that a call works on was the one its request names when it looked. -/
theorem tenantOf_of_resolved (hres : Resolved idOrName T (c.pool t).hist) :
    (∀ db : Tables, db.tenantOf idOrName = some T) ∨
      ∃ e ∈ (c.pool t).hist, e.pre.db.tenantOf idOrName = some T := by
  rcases hres with ⟨hu, rfl⟩ | ⟨hu, tn, s, he, rfl⟩
  · exact .inl fun db => if_pos hu
  · refine .inr ⟨_, he, ?_⟩
    have hread : s.db.tenantByName idOrName = some tn := found_eq_ok.mp (read_ok hr he)
    rw [Tables.tenantOf, if_neg (by simp [hu]), hread]
    rfl

/-- A tenant that was resolved is there. -/
theorem tenantOf_now
    (hres : Resolved idOrName T (c.pool t).hist) : c.shared.db.tenantOf idOrName = some T := by
  rcases tenantOf_of_resolved hr hres with hall | ⟨e, he, hT⟩
  · exact hall _
  · exact (le_of_mem hr he).tenantOf hT

/-- A tenant that was located is there. -/
theorem located_now
    (hloc : Located idOrName T (c.pool t).hist) : c.shared.db.tenantOf idOrName = some T := by
  obtain ⟨tn, s, rfl, ⟨hu, hm⟩ | ⟨hu, hm⟩⟩ := hloc
  · have hread : s.db.tenantByID idOrName = some tn := found_eq_ok.mp (read_ok hr hm)
    have hid := find?_some hread
    rw [Bool.and_eq_true, decide_eq_true_eq] at hid
    rw [Tables.tenantOf, if_pos hu, hid.1]
  · exact tenantOf_now hr (.inr ⟨hu, tn, s, hm, rfl⟩)

end

/-! ### Schemas -/

/-- A tenant keeps its schema version. -/
theorem State.le.boundSchema (h : s.le s') (hsv : s.db.boundSchema T = some sv) :
    s'.db.boundSchema T = some sv := by
  obtain ⟨tn, htn, hver⟩ := Option.bind_eq_some_iff.mp hsv
  refine Option.bind_eq_some_iff.mpr ⟨tn, h.tenants.find?_eq_some htn, ?_⟩
  rw [Tables.schemaVersion, h.schemas]
  exact hver

/-- The schema that was read is still bound. -/
theorem boundSchema_now (hr : Reach exec allowed (init.system env) c)
    (he : readEvent false (.boundSchema T) (.ok sv) s ∈ (c.pool t).hist) :
    c.shared.db.boundSchema T = some sv :=
  (le_of_mem hr he).boundSchema (found_eq_ok.mp (read_ok hr he))

/-- The fields of a schema version, looked up by its identifier. -/
theorem Tables.schemaFields_of_mem {db : Tables} (h : sv ∈ db.schemas.versions) :
    db.schemaFields sv.id = sv.fields := by
  cases hfind : db.schemas.versions.find? fun sv' => sv'.id = sv.id with
  | none => exact absurd (find?_eq_none.mp hfind sv h) (by simp)
  | some sv' =>
    have hid : sv'.id = sv.id := by simpa using find?_some hfind
    have hsame := inj_on_of_nodup_map db.schemas.nodup (mem_of_find?_eq_some hfind) h hid
    rw [Tables.schemaFields, hfind, hsame]
    rfl

/-- The fields that were read are still those. -/
theorem schemaRead_now (hr : Reach exec allowed (init.system env) c) {fields : List SchemaField}
    (h : SchemaRead T fields (c.pool t).hist) :
    ∃ sv, c.shared.db.boundSchema T = some sv ∧ fields = sv.fields := by
  obtain ⟨tn, sv, s1, s2, s3, h1, h2, h3⟩ := h
  have htn : c.shared.db.tenantByID T = some tn :=
    (le_of_mem hr h1).tenants.find?_eq_some (found_eq_ok.mp (read_ok hr h1))
  have hsv : c.shared.db.schemaVersion tn.schemaID tn.schemaVersion = some sv := by
    rw [Tables.schemaVersion, (le_of_mem hr h2).schemas]
    exact found_eq_ok.mp (read_ok hr h2)
  refine ⟨sv, by rw [Tables.boundSchema, htn, Option.bind_some, hsv], ?_⟩
  have hfields : s3.db.schemaFields sv.id = fields := Except.ok.inj (read_ok hr h3)
  rw [← hfields]
  refine Tables.schemaFields_of_mem ?_
  rw [← (le_of_mem hr h3).schemas]
  exact mem_of_find?_eq_some hsv

/-- The field types that the config service knows of a tenant. -/
def Tables.fieldTypes (env : Env) (db : Tables) (T : String) : FieldTypes :=
  match env.hasValidators, db.boundSchema T with
  | true, some sv =>
    match typesOfFields env sv.fields with
    | .ok types => (types.lookup ·)
    | .error _ => fun _ => none
  | _, _ => fun _ => none

/-- The types that were read are still those. -/
theorem fieldTypes_now (hr : Reach exec allowed (init.system env) c)
    {types : List (String × FieldType)} (h : TypesRead env T types (c.pool t).hist) :
    c.shared.db.fieldTypes env T = (types.lookup ·) := by
  rcases h with ⟨hv, rfl⟩ | ⟨hv, sv, s, he, htypes⟩
  · simp [Tables.fieldTypes, hv]
  · simp [Tables.fieldTypes, hv, boundSchema_now hr he, htypes]

/-! ### Commits -/

/-- **The commit of a version** `V` of tenant `T`, whose log was `L` before: the configuration
`c₁` in which its writer is at the commit of the transaction `tx`, and `c₂` after it. -/
structure CommitStep (env : Env) (init : Init) (allowed : System → ℕ → Choice → Prop)
    (T : String) (L : List ConfigVersion) (V : ConfigVersion) (tx : Tx) (c₁ c₂ : System) :
    Prop where
  reach : Reach exec allowed (init.system env) c₁
  step : ∃ ch, allowed c₁ V.writer ch ∧ step exec c₁ V.writer ch = some c₂
  log : c₁.shared.db.log T = L
  pending : c₁.shared.txs V.writer = some tx
  version : tx.version = some (T, V)
  next : ∃ k, (c₁.pool V.writer).prog = .op .commit k
  db : c₂.shared.db = tx.apply c₁.shared.db

variable {T : String} {L rest : List ConfigVersion} {V : ConfigVersion} {tx : Tx}
  {c₁ c₂ : System} {T' : String} {W : ConfigVersion}

section

variable (hc : CommitStep env init allowed T L V tx c₁ c₂)

include hc

/-- A commit appends its version. -/
theorem CommitStep.log_after : c₂.shared.db.log T = L ++ [V] := by
  rw [hc.db, Tx.apply_log, hc.log]
  simp [Tx.added, hc.version]

/-- The state after a commit is reached. -/
theorem CommitStep.reached : Reach exec allowed (init.system env) c₂ := by
  obtain ⟨ch, ha, hs⟩ := hc.step
  exact hc.reach.tail ha hs

/-- The state grows with a commit. -/
theorem CommitStep.le : c₁.shared.le c₂.shared := by
  obtain ⟨ch, ha, hs⟩ := hc.step
  exact reach_le (.tail (.refl c₁) ha hs)

/-- The call that commits is at its commit. -/
theorem CommitStep.committing :
    Committing env V.writer (init.calls V.writer) (c₁.pool V.writer).hist tx T V := by
  obtain ⟨k, hk⟩ := hc.next
  have hafter := reach_after hc.reach V.writer
  rw [hk] at hafter
  exact Call.committing hafter ((reach_txs hc.reach V.writer).symm.trans hc.pending) hc.version

end

/-- The transaction that a call is about to commit. -/
def pendingTx (c : System) (t : ℕ) : Option Tx :=
  match (c.pool t).prog with
  | .op .commit _ => c.shared.txs t
  | _ => none

/-- A call at its commit with a transaction. -/
theorem pendingTx_eq_some : pendingTx c t = some tx ↔
    (∃ k, (c.pool t).prog = .op .commit k) ∧ c.shared.txs t = some tx := by
  rw [pendingTx]
  split
  · rename_i k hk
    simp [hk]
  · rename_i hne
    simp only [reduceCtorEq, false_iff, not_and]
    rintro ⟨k, hk⟩
    exact absurd hk (hne k)

/-- A step changes the tables by a commit. -/
theorem db_of_step {ch : Choice} (hs : step exec c₁ t ch = some c₂) :
    c₂.shared.db = c₁.shared.db ∨
      ∃ tx, pendingTx c₁ t = some tx ∧ c₂.shared.db = tx.apply c₁.shared.db := by
  obtain ⟨o, k, r, hp, he, -⟩ := step_eq_some hs
  rcases (exec_effect he).db with hdb | ⟨tx, rfl, htx, hdb⟩
  · exact .inl hdb
  · exact .inr ⟨tx, pendingTx_eq_some.mpr ⟨⟨k, hp⟩, htx⟩, hdb⟩

/-- The version that a call is about to commit, with its transaction and its tenant. -/
def pendingCommit (c : System) (t : ℕ) : Option (Tx × String × ConfigVersion) :=
  (pendingTx c t).bind fun tx => tx.version.map fun p => (tx, p)

/-- The version of a commit was pending. -/
theorem CommitStep.pendingCommit (hc : CommitStep env init allowed T L V tx c₁ c₂) :
    pendingCommit c₁ V.writer = some (tx, T, V) := by
  simp [Decree.pendingCommit, pendingTx_eq_some.mpr ⟨hc.next, hc.pending⟩, hc.version]

/-- A step commits a version, or keeps the log. -/
theorem commitStep_of_step (hr : Reach exec allowed (init.system env) c₁) {ch : Choice}
    (ha : allowed c₁ t ch) (hs : step exec c₁ t ch = some c₂) (T : String) :
    c₂.shared.db.log T = c₁.shared.db.log T ∨
      ∃ V tx, V.writer = t ∧ CommitStep env init allowed T (c₁.shared.db.log T) V tx c₁ c₂ := by
  obtain ⟨o, k, r, hp, he, -⟩ := step_eq_some hs
  rcases exec_log he T with hsame | ⟨tx, V, rfl, htx, hversion, hdb⟩
  · exact .inl hsame
  · obtain rfl := ((reach_consistent hr).pending t tx T V htx hversion).2.2.1
    exact .inr ⟨V, tx, rfl, hr, ⟨ch, ha, hs⟩, rfl, htx, hversion, ⟨k, hp⟩, hdb⟩

/-- **Every version in a log has a commit.** -/
theorem exists_commitStep (hr : Reach exec allowed (init.system env) c)
    (hlog : c.shared.db.log T = L ++ V :: rest) :
    ∃ tx c₁ c₂, CommitStep env init allowed T L V tx c₁ c₂ ∧ Reach exec allowed c₂ c := by
  induction hr generalizing rest with
  | refl =>
    have hnil : (init.system env).shared.db.log T = [] := rfl
    rw [hnil] at hlog
    simp at hlog
  | @tail c c' u ch hr ha hs ih =>
    rcases commitStep_of_step hr ha hs T with hsame | ⟨W, tx, hW, hc⟩
    · rw [hsame] at hlog
      obtain ⟨tx, c₁, c₂, hc, hr2⟩ := ih hlog
      exact ⟨tx, c₁, c₂, hc, hr2.tail ha hs⟩
    · rw [hc.log_after] at hlog
      rcases eq_nil_or_concat rest with rfl | ⟨rest, W', rfl⟩
      · obtain ⟨rfl, hlast⟩ := append_inj' hlog rfl
        obtain rfl := singleton_inj.mp hlast
        exact ⟨tx, c, c', hc, .refl c'⟩
      · rw [concat_eq_append, ← cons_append, ← append_assoc] at hlog
        obtain ⟨hlog, -⟩ := append_inj' hlog rfl
        obtain ⟨tx, c₁, c₂, hc, hr2⟩ := ih hlog
        exact ⟨tx, c₁, c₂, hc, hr2.tail ha hs⟩

/-- The event of the commit. -/
theorem CommitStep.event (hc : CommitStep env init allowed T L V tx c₁ c₂)
    (hr : Reach exec allowed c₂ c) : ∃ ch r, allowed c₁ V.writer ch ∧
      exec ch V.writer .commit c₁.shared = some (r, c₂.shared) ∧
      (c₁.pool V.writer).hist ++ [⟨.commit, r, c₁.shared⟩] <+: (c.pool V.writer).hist := by
  obtain ⟨k, hk⟩ := hc.next
  obtain ⟨ch, ha, hs⟩ := hc.step
  obtain ⟨o, k', r, hp, he, hpool⟩ := step_eq_some hs
  obtain ⟨rfl, -⟩ := Prog.op.inj (hk.symm.trans hp)
  refine ⟨ch, r, ha, he, ?_⟩
  have hhist : (c₂.pool V.writer).hist = (c₁.pool V.writer).hist ++ [⟨.commit, r, c₁.shared⟩] := by
    rw [hpool, Function.update_self]
  exact hhist ▸ hist_extends hr V.writer

/-- A writer commits once. -/
theorem CommitStep.hist (hc : CommitStep env init allowed T L V tx c₁ c₂)
    (hr : Reach exec allowed c₂ c) : NoCommit (c₁.pool V.writer).hist ∧
      ∃ e, e.op.IsCommit ∧ (c₁.pool V.writer).hist ++ [e] <+: (c.pool V.writer).hist := by
  obtain ⟨k, hk⟩ := hc.next
  obtain ⟨ch, r, -, -, hhist⟩ := hc.event hr
  exact ⟨Call.noCommit (hk ▸ reach_after hc.reach V.writer), _, rfl, hhist⟩

/-- The first commit of a history is one. -/
theorem eq_of_noCommit_prefix {h h1 h2 : Hist} {e1 e2 : Event Op.Resp State}
    (hp1 : h1 ++ [e1] <+: h) (hp2 : h2 ++ [e2] <+: h) (hn1 : NoCommit h1) (hn2 : NoCommit h2)
    (he1 : e1.op.IsCommit) (he2 : e2.op.IsCommit) : h1 = h2 := by
  rcases lt_trichotomy h1.length h2.length with hlt | heq | hgt
  · have hpre : h1 ++ [e1] <+: h2 := prefix_of_prefix_length_le hp1
      ((prefix_append h2 [e2]).trans hp2) (by simp; omega)
    exact absurd he1 (hn2 e1 (hpre.subset (by simp)))
  · exact (prefix_of_prefix_length_le ((prefix_append h1 [e1]).trans hp1)
      ((prefix_append h2 [e2]).trans hp2) heq.le).eq_of_length heq
  · have hpre : h2 ++ [e2] <+: h1 := prefix_of_prefix_length_le hp2
      ((prefix_append h1 [e1]).trans hp1) (by simp; omega)
    exact absurd he2 (hn1 e2 (hpre.subset (by simp)))

section

variable (hr : Reach exec allowed (init.system env) c)

include hr

/-- **A call commits one version at most.** -/
theorem version_unique (hV : V ∈ c.shared.db.log T)
    (hW : W ∈ c.shared.db.log T') (hwriter : V.writer = W.writer) : T = T' ∧ V = W := by
  obtain ⟨L, rest, hlog⟩ := append_of_mem hV
  obtain ⟨L', rest', hlog'⟩ := append_of_mem hW
  obtain ⟨tx, c₁, c₂, hc, hr2⟩ := exists_commitStep hr hlog
  obtain ⟨tx', c1', c2', hc', hr2'⟩ := exists_commitStep hr hlog'
  obtain ⟨hn, e, he, hp⟩ := hc.hist hr2
  obtain ⟨hn', e', he', hp'⟩ := hc'.hist hr2'
  rw [← hwriter] at hn' hp'
  have hhist := eq_of_noCommit_prefix hp hp' hn hn' he he'
  have htx := reach_txs hc.reach V.writer
  have htx' := reach_txs hc'.reach V.writer
  have hpend' := hc'.pending
  rw [← hwriter] at hpend'
  rw [hc.pending, hhist, ← htx', hpend', Option.some.injEq] at htx
  subst htx
  exact answer_inj (hc.version.symm.trans hc'.version)

/-- A writer has one version. -/
theorem eq_of_writer_eq (hV : V ∈ c.shared.db.log T)
    (hW : W ∈ c.shared.db.log T') (hwriter : V.writer = W.writer) : V = W :=
  (version_unique hr hV hW hwriter).2

/-- **The rule for logs**: what holds of the empty log and is kept by every commit of the run
holds of the log. -/
theorem log_induction {P : List ConfigVersion → Prop} (h₀ : P [])
    (hstep : ∀ L V tx c₁ c₂, CommitStep env init allowed T L V tx c₁ c₂ →
      Reach exec allowed c₂ c → P L → P (L ++ [V])) : P (c.shared.db.log T) := by
  suffices H : ∀ L, L <+: c.shared.db.log T → P L from H _ prefix_rfl
  intro L
  induction L using reverseRecOn with
  | nil => exact fun _ => h₀
  | append_singleton L V ih =>
    rintro ⟨rest, hrest⟩
    obtain ⟨tx, c₁, c₂, hc, hr2⟩ :=
      exists_commitStep hr (hrest.symm.trans (append_assoc L [V] rest))
    refine hstep L V tx c₁ c₂ hc hr2 (ih ?_)
    exact ⟨V :: rest, by rw [← hrest, append_assoc]; rfl⟩

end

end Decree
