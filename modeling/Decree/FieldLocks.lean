import Decree.Versions

/-!
# Field Locks

A write is checked against the field locks that its call reads before its transaction, so a lock
that commits after the read does not stop the write. And the check compares strings, while a reader
of the config sees values: of the many strings that are read as one value, a lock on it stops only
the canonical one.

`LocksStep` asks of a commit that every lock which is then on one of its fields was among the
locks that the call read. Along the runs whose steps are so, a lock without values keeps its
field as it is from its commit on.

## Main results

* `no_row_after_lock`: no row under a lock.
* `stored_value_unlocked_iff`: what a lock on values keeps out.
-/

open Interleave List

namespace Decree

/-! ### Steps that respect locks -/

def locksRead (T : String) : Event Op.Resp State → Option (List TenantFieldLock)
  | ⟨.read false (.fieldLocks T'), .ok locks, _⟩ => if T' = T then some locks else none
  | _ => none

/-- The step, if it commits a version, was checked against every lock that is on one of the
version's fields. -/
def LocksStep (c : System) (t : ℕ) (_ : Choice) : Prop :=
  ∀ p ∈ pendingCommit c t, ∀ e ∈ (c.pool t).hist, ∀ locks ∈ locksRead p.2.1 e,
    ∀ row ∈ p.2.2.values, ∀ lock ∈ c.shared.db.locks p.2.1,
      lock.fieldPath = row.fieldPath → lock ∈ locks

instance (c : System) (t : ℕ) : Decidable (LocksStep c t ch) :=
  inferInstanceAs (Decidable (∀ p ∈ pendingCommit c t, _))

/-- The step, if it commits a change of the lock on the field, locks the whole field: it is
not the commit of an unlock. -/
def KeepsLock (T f : String) (c : System) (t : ℕ) (_ : Choice) : Prop :=
  ∀ tx ∈ pendingTx c t, ∀ w ∈ tx.lockWrites, w.tenantID = T → w.fieldPath = f →
    w.lockedValues = some .absent

instance (T f : String) (c : System) (t : ℕ) : Decidable (KeepsLock T f c t ch) :=
  inferInstanceAs (Decidable (∀ tx ∈ pendingTx c t, _))

/-- The whole field is locked. -/
def Tables.Locked (db : Tables) (T f : String) : Prop :=
  ⟨f, .absent⟩ ∈ db.locks T

/-- **The commit of a lock** of the whole field `f` of tenant `T`: the configuration `c₁` in which
a `LockField` without values is at its commit, and `c₂` after it. -/
structure LockCommit (env : Env) (init : Init) (allowed : System → ℕ → Choice → Prop)
    (T f : String) (t : ℕ) (c₁ c₂ : System) : Prop where
  reach : Reach exec allowed (init.system env) c₁
  step : ∃ ch, ch ≠ .fail ∧ allowed c₁ t ch ∧ step exec c₁ t ch = some c₂
  call : ∃ caller req, init.calls t = .lockField caller req ∧ req.lockedValues = [] ∧
    req.fieldPath = f ∧ c₁.shared.db.tenantOf req.tenantId = some T
  pending : (pendingTx c₁ t).isSome = true

/-! ### Locks along a run -/

variable {env : Env} {init : Init} {allowed : System → ℕ → Choice → Prop} {c c' c₁ c₂ : System}
  {t : ℕ} {T f : String} {L : List ConfigVersion} {V : ConfigVersion} {tx : Tx} {db : Tables}
  {c₀ : System} {ch : Choice}

/-- A write to the locks keeps the lock, unless it is about the field. -/
theorem mem_locks_apply {locks : String → List TenantFieldLock} {w : FieldLockWrite}
    (hw : w.tenantID = T → w.fieldPath = f → w.lockedValues = some .absent)
    (h : ⟨f, .absent⟩ ∈ locks T) : ⟨f, .absent⟩ ∈ w.apply locks T := by
  rw [FieldLockWrite.apply]
  by_cases hT : w.tenantID = T
  · subst hT
    rw [Function.update_self, mem_append, mem_filter]
    by_cases hf : w.fieldPath = f
    · right
      simp [hw rfl hf, hf]
    · left
      exact ⟨h, by simpa using Ne.symm hf⟩
  · rwa [Function.update_of_ne (Ne.symm hT)]

theorem Tables.Locked.apply (h : db.Locked T f)
    (hw : ∀ w ∈ tx.lockWrites, w.tenantID = T → w.fieldPath = f → w.lockedValues = some .absent) :
    (tx.apply db).Locked T f := by
  rw [Tables.Locked, Tx.apply]
  refine foldlRecOn tx.lockWrites FieldLockWrite.apply (motive := fun locks =>
    (⟨f, .absent⟩ : TenantFieldLock) ∈ locks T) h ?_
  exact fun locks hl w hmem => mem_locks_apply (hw w hmem) hl

/-- **A lock stays** until a change of it commits. -/
theorem Tables.Locked.step (h : c.shared.db.Locked T f) (hk : KeepsLock T f c t ch)
    (hs : step exec c t ch = some c') : c'.shared.db.Locked T f := by
  rcases db_of_step hs with hdb | ⟨tx, hpend, hdb⟩
  · rw [hdb]
    exact h
  · rw [hdb]
    exact h.apply (hk tx hpend)

theorem LockCommit.locked (hl : LockCommit env init allowed T f t c₁ c₂) :
    f ≠ "" ∧ c₂.shared.db.Locked T f := by
  obtain ⟨tx, hpend⟩ := Option.isSome_iff_exists.mp hl.pending
  obtain ⟨⟨k, hk⟩, htx⟩ := pendingTx_eq_some.mp hpend
  obtain ⟨caller, req, hcall, hvals, rfl, hten⟩ := hl.call
  have hafter := reach_after hl.reach t
  rw [hk, hcall] at hafter
  obtain ⟨hpath, T', hloc, hwrites⟩ :=
    lockField_committing hafter ((reach_txs hl.reach t).symm.trans htx)
  obtain rfl : T' = T := Option.some.inj ((located_now hl.reach hloc).symm.trans hten)
  refine ⟨hpath, ?_⟩
  obtain ⟨ch, hfail, -, hs⟩ := hl.step
  obtain ⟨o, k', r, hp, he, -⟩ := step_eq_some hs
  obtain ⟨rfl, -⟩ := Prog.op.inj (hk.symm.trans hp)
  rw [exec_commit_applied he htx hfail, Tables.Locked, Tx.apply, hwrites, hvals]
  simp [FieldLockWrite.apply]

/-- The whole field being locked, only a superadmin commits a row for it. -/
theorem CommitStep.row_eq_none_of_locked (hc : CommitStep env init allowed T L V tx c₁ c₂)
    (hstep : LocksStep c₁ V.writer ch) (hlocked : c₁.shared.db.Locked T f) (hf : f ≠ "")
    (huser : (init.calls V.writer).caller.isSuperAdmin = false) :
    V.row f = none := by
  by_contra hne
  obtain ⟨row, hrow⟩ := Option.ne_none_iff_exists'.mp hne
  have hpath := ConfigVersion.row_path hrow
  have hrow' := mem_of_find?_eq_some hrow
  obtain ⟨w, hw⟩ | ⟨-, caller, req, hs⟩ := hc.write_or_seed
  · obtain ⟨locks, s, hread, hchk⟩ := (hw.prepared.guarded row (hw.values ▸ hrow')).2
      (by simp [fieldLocksApply, hpath, hf, huser])
    rw [hw.tenant] at hread
    -- the call has read the lock, and the lock allows nothing
    have hmem := hstep _ hc.pendingCommit _ hread locks (by simp [locksRead]) row hrow' _ hlocked
      hpath.symm
    obtain ⟨vs, hvs, -⟩ := (checkFieldLocks_ok_iff env).mp hchk _ hmem hpath.symm
    cases hvs
  · rw [hs.call, Call.caller, isSuperAdmin_of_global hs.guarded] at huser
    cases huser

/-- **No row under a lock**: from the commit of a `LockField` without values on, and until a
change of that lock commits, no version that commits has a row for the field written by a
caller below superadmin, along every run in which each commit was checked against the locks
that are then on its fields. -/
theorem no_row_after_lock (hl : LockCommit env init LocksStep T f t c₁ c₂)
    (hr : Reach exec (fun c u ch => LocksStep c u ch ∧ KeepsLock T f c u ch) c₂ c)
    {M : List ConfigVersion} (hlog : c.shared.db.log T = c₂.shared.db.log T ++ M) :
    ∀ V ∈ M, (init.calls V.writer).caller.isSuperAdmin = false → V.row f = none := by
  obtain ⟨hf, hlocked⟩ := hl.locked
  have hr2 : Reach exec LocksStep (init.system env) c₂ := by
    obtain ⟨ch, -, ha, hs⟩ := hl.step
    exact hl.reach.tail ha hs
  -- the invariant: the field is locked, and the versions since have no row for it
  have hinv : c.shared.db.Locked T f ∧ ∀ M, c.shared.db.log T = c₂.shared.db.log T ++ M →
      ∀ V ∈ M, (init.calls V.writer).caller.isSuperAdmin = false → V.row f = none := by
    refine hr.invariant (fun c => c.shared.db.Locked T f ∧
      ∀ M, c.shared.db.log T = c₂.shared.db.log T ++ M →
        ∀ V ∈ M, (init.calls V.writer).caller.isSuperAdmin = false → V.row f = none) ?_ ?_
    · refine ⟨hlocked, fun M hM V hV => ?_⟩
      rw [self_eq_append_right.mp hM] at hV
      exact absurd hV not_mem_nil
    · rintro c c' u ch hr ⟨hlocked, hrows⟩ ⟨hstep, hkeeps⟩ hs
      refine ⟨hlocked.step hkeeps hs, fun M hM V hV huser => ?_⟩
      have hr0 := hr2.trans (hr.imp fun _ _ _ h => h.1)
      obtain ⟨M0, hM0⟩ := (reach_le hr).log T
      rcases commitStep_of_step hr0 hstep hs T with hsame | ⟨W, tx, rfl, hc⟩
      · exact hrows M (hsame ▸ hM) V hV huser
      · rw [hc.log_after, ← hM0, append_assoc] at hM
        rw [← append_cancel_left hM, mem_append] at hV
        rcases hV with hV | hV
        · exact hrows M0 hM0.symm V hV huser
        · obtain rfl := mem_singleton.mp hV
          exact hc.row_eq_none_of_locked hstep hlocked hf huser
  exact hinv.2 M hlog

open Sample

def Sample.lockB : Call :=
  .lockField admin ⟨tenant, "b", []⟩

theorem no_row_after_lock_other_field : ∃ c₁ c₂ c V, LockCommit (world noDocument)
        (Sample.init [] [lockB, set admin "w" "x"]) LocksStep
        tenant "b" 0 c₁ c₂ ∧
      Reach exec (fun c u ch => LocksStep c u ch ∧ KeepsLock tenant "b" c u ch) c₂ c ∧
      c.shared.db.log tenant = c₂.shared.db.log tenant ++ [V] ∧
      V.row "b" = none := by
  obtain ⟨c₁, hr1, hpend, ha, hrun⟩ : ∃ c₁, Reach exec LocksStep ((Sample.init []
      [lockB, set admin "w" "x"]).system (world noDocument)) c₁ ∧
      (pendingTx c₁ 0).isSome = true ∧ LocksStep c₁ 0 .ok ∧
      ((step exec c₁ 0 .ok).any fun c₂ => (run exec (fun c u ch => LocksStep c u ch ∧
        KeepsLock tenant "b" c u ch) c₂ (steps 1 17)).any fun c => decide
          (c₂.shared.db.log tenant = [] ∧
            (c.shared.db.log tenant).map ConfigVersion.writer = [1])) = true :=
    exists_reach_of_run (steps 0 4) (by decide +kernel)
  obtain ⟨c₂, hs, hrun⟩ := (Option.any_eq_true _ _).mp hrun
  obtain ⟨c, hr, hnil, hwriter⟩ := exists_reach_of_run _ hrun
  obtain ⟨V, hlog, hV⟩ := map_eq_singleton_iff.mp hwriter
  have hl : LockCommit (world noDocument) (Sample.init [] [lockB, set admin "w" "x"]) LocksStep
      tenant "b" 0 c₁ c₂ :=
    ⟨hr1, ⟨.ok, by decide, ha, hs⟩, ⟨_, _, rfl, rfl, rfl, rfl⟩, hpend⟩
  refine ⟨c₁, c₂, c, V, hl, hr, by rw [hlog, hnil]; rfl, ?_⟩
  exact no_row_after_lock hl hr (by rw [hlog, hnil]; rfl) V (by simp) (by rw [hV]; rfl)

/-- A `SetField` that has read the locks is overtaken by a `LockField`, and commits a row for the
locked field. -/
theorem row_committed_after_lock : ∃ c₁ c₂ c V, LockCommit (world noDocument)
        (Sample.init [] [lockB, set admin "b" "x"]) anyStep
        tenant "b" 0 c₁ c₂ ∧
      Reach exec (KeepsLock tenant "b") c₂ c ∧
      c.shared.db.log tenant = c₂.shared.db.log tenant ++ [V] ∧
      ((Sample.init [] [lockB, set admin "b" "x"]).calls V.writer).caller.isSuperAdmin = false ∧
      (V.row "b").bind ConfigValue.value = some "x" := by
  obtain ⟨c₁, hr1, hpend, hrun⟩ : ∃ c₁, Reach exec anyStep ((Sample.init []
      [lockB, set admin "b" "x"]).system (world noDocument)) c₁ ∧ (pendingTx c₁ 0).isSome = true ∧
      ((step exec c₁ 0 .ok).any fun c₂ => (run exec (KeepsLock tenant "b") c₂
        (steps 1 16)).any fun c => decide (c₂.shared.db.log tenant = [] ∧
          (c.shared.db.log tenant).map (fun V => (V.writer,
            (V.row "b").bind ConfigValue.value)) = [(1, some "x")])) = true :=
    exists_reach_of_run (steps 1 1 ++ steps 0 4) (by decide +kernel)
  obtain ⟨c₂, hs, hrun⟩ := (Option.any_eq_true _ _).mp hrun
  obtain ⟨c, hr, hnil, hrow⟩ := exists_reach_of_run _ hrun
  obtain ⟨V, hlog, hV⟩ := map_eq_singleton_iff.mp hrow
  obtain ⟨hwriter, hvalue⟩ := Prod.mk.inj hV
  refine ⟨c₁, c₂, c, V, ⟨hr1, ⟨.ok, by decide, trivial, hs⟩, ⟨_, _, rfl, rfl, rfl, rfl⟩, hpend⟩,
    hr, by rw [hlog, hnil]; rfl, by rw [hwriter]; rfl, hvalue⟩

/-! ### Locked values -/

/-- The step is the call's own, or does not commit a change of the tenant's locks. -/
def Undisturbed (T : String) (t : ℕ) (c : System) (u : ℕ) (_ : Choice) : Prop :=
  u = t ∨ ∀ tx ∈ pendingTx c u, ∀ w ∈ tx.lockWrites, w.tenantID ≠ T

instance (u : ℕ) : Decidable (Undisturbed T t c u ch) :=
  inferInstanceAs (Decidable (_ ∨ _))

theorem locks_apply_of_ne (h : ∀ w ∈ tx.lockWrites, w.tenantID ≠ T) :
    (tx.apply db).locks T = db.locks T := by
  refine foldlRecOn tx.lockWrites FieldLockWrite.apply
    (motive := fun locks => locks T = db.locks T) rfl ?_
  intro locks hl w hw
  rw [FieldLockWrite.apply, Function.update_of_ne (h w hw).symm, hl]

/-- The tenant's locks are as they were until the call commits. -/
theorem locks_of_undisturbed (hr : Reach exec (Undisturbed T t) c₀ c)
    (hn : NoCommit (c.pool t).hist) : c.shared.db.locks T = c₀.shared.db.locks T := by
  induction hr with
  | refl => rfl
  | @tail c c' u ch hr ha hs ih =>
    have hstep : Reach exec (Undisturbed T t) c c' := .tail (.refl c) ha hs
    rw [← ih fun e he => hn e ((hist_extends hstep t).subset he)]
    obtain ⟨o, k, r, hp, he, hpool⟩ := step_eq_some hs
    rcases (exec_effect he).db with hdb | ⟨tx, rfl, htx, hdb⟩
    · rw [hdb]
    · rw [hdb]
      refine locks_apply_of_ne (ha.resolve_left ?_ tx (pendingTx_eq_some.mpr ⟨⟨k, hp⟩, htx⟩))
      rintro rfl
      exact hn ⟨.commit, r, c.shared⟩ (by simp [hpool]) rfl

/-- The locks that a call is checked against are those from before it began, if nothing else
changes them. -/
theorem locks_at_read (h0 : (c₀.pool t).hist = []) (hr : Reach exec (Undisturbed T t) c₀ c)
    {h : Hist} (hpre : h <+: (c.pool t).hist) (hn : NoCommit h) {e : Event Op.Resp State}
    (he : e ∈ h) : e.pre.db.locks T = c₀.shared.db.locks T := by
  obtain ⟨rest, hh⟩ := hpre
  obtain ⟨h1, h2, rfl⟩ := append_of_mem he
  rw [append_assoc, cons_append] at hh
  obtain ⟨ch, c₁, c₂, hstep⟩ := hr.event h0 hh.symm
  rw [← hstep.pre]
  refine locks_of_undisturbed hstep.reach ?_
  rw [hstep.hist]
  exact (noCommit_append.mp hn).1

/-- A row that a caller below superadmin commits holds none of the strings that were locked
when the call began. -/
theorem CommitStep.not_mem_locked (hc : CommitStep env init allowed T L V tx c₁ c₂)
    (h0 : (c₀.pool V.writer).hist = []) (hr : Reach exec (Undisturbed T V.writer) c₀ c)
    (hr2 : Reach exec allowed c₂ c) (huser : (init.calls V.writer).caller.isSuperAdmin = false)
    {row : ConfigValue} (hrow : row ∈ V.values) (hpath : row.fieldPath ≠ "")
    {lock : TenantFieldLock} (hlock : lock ∈ c₀.shared.db.locks T)
    (hfield : lock.fieldPath = row.fieldPath) {vs : List String}
    (hvs : lock.lockedValues = .values vs) : derefString row.value ∉ vs := by
  obtain ⟨w, hw⟩ | ⟨-, caller, req, hs⟩ := hc.write_or_seed
  · obtain ⟨locks, s, hread, hchk⟩ := (hw.prepared.guarded row (hw.values ▸ hrow)).2
      (by simp [fieldLocksApply, hpath, huser])
    rw [hw.tenant] at hread
    obtain ⟨k, hk⟩ := hc.next
    have hn := Call.noCommit (hk ▸ reach_after hc.reach V.writer)
    obtain ⟨ch, ha, hs⟩ := hc.step
    have hpre := hist_extends ((Reach.refl c₁).tail ha hs |>.trans hr2) V.writer
    have hlocks : locks = c₀.shared.db.locks T := by
      rw [← locks_at_read h0 hr hpre hn hread]
      exact (Except.ok.inj (read_ok hc.reach hread)).symm
    obtain ⟨ws, hws, -, hnot⟩ := (checkFieldLocks_ok_iff env).mp hchk lock (hlocks ▸ hlock) hfield
    obtain rfl : vs = ws := LockedValues.values.inj (hvs.symm.trans hws)
    exact hnot
  · rw [hs.call, Call.caller, isSuperAdmin_of_global hs.guarded] at huser
    cases huser

/-- **What a lock on values keeps out**: the guard compares strings, so of a row that a caller
below superadmin writes, while no one else changes the locks, the value that is read back is
not locked exactly when its string is canonical or has a canonical form that is not locked.
The guard does not look at the empty path, which no lock can be put on. -/
theorem stored_value_unlocked_iff {c₀ : System} (hr₀ : Reach exec anyStep (init.system env) c₀)
    (h₀ : (c₀.pool t).hist = []) (hr : Reach exec (Undisturbed T t) c₀ c)
    (huser : (init.calls t).caller.isSuperAdmin = false) (hV : V ∈ c.shared.db.log T)
    (hwriter : V.writer = t) {row : ConfigValue} (hrow : row ∈ V.values) {s : String}
    (hs : row.value = some s) {lock : TenantFieldLock} (hlock : lock ∈ c₀.shared.db.locks T)
    (hfield : lock.fieldPath = row.fieldPath) {vs : List String}
    (hvs : lock.lockedValues = .values vs) :
    let ft := c.shared.db.fieldTypes env T row.fieldPath
    (∀ lv ∈ vs, canonicalForm ft lv = lv) → ((∀ lv ∈ vs, parseStorage ft s ≠ parseStorage ft lv) ↔
        (row.fieldPath ≠ "" ∧ canonicalForm ft s = s) ∨ canonicalForm ft s ∉ vs) := by
  intro ft hcan
  subst hwriter
  constructor
  · intro hne
    refine .inr fun hmem => hne _ hmem ?_
    exact (parseStorage_canonicalForm (hcan _ hmem)).symm
  · rintro hform lv hlv heq
    -- two strings that are read as one value have one canonical form
    have hlv' : canonicalForm ft s = lv := by
      rw [canonicalForm, heq]
      exact hcan lv hlv
    rcases hform with ⟨hpath, hself⟩ | hnot
    · obtain ⟨L, rest, hlog⟩ := append_of_mem hV
      have hreach := hr₀.trans (hr.imp fun _ _ _ _ => trivial)
      obtain ⟨tx, c₁, c₂, hc, hr2⟩ := exists_commitStep hreach hlog
      have hnot := hc.not_mem_locked h₀ hr hr2 huser hrow hpath hlock hfield hvs
      rw [hs, derefString, Option.getD_some, ← hself, hlv'] at hnot
      exact hnot hlv
    · exact hnot (hlv' ▸ hlv)

/-- A lock of the value seven of the integer field `a`. -/
def Sample.lockedSeven : TenantFieldLock :=
  ⟨"a", .values ["7"]⟩

theorem stored_value_unlocked_iff_eight : ∃ c V row, Reach exec anyStep ((Sample.init [lockedSeven]
        [importDocument admin .merge]).system (world (documentOfA "8"))) c ∧
      V ∈ c.shared.db.log tenant ∧ row ∈ V.values ∧ row.value = some "8" ∧
      ∀ lv ∈ ["7"], parseStorage (some .integer) "8" ≠ parseStorage (some .integer) lv := by
  obtain ⟨c, hr, hft, hrows⟩ : ∃ c, Reach exec (Undisturbed tenant 0)
      ((Sample.init [lockedSeven] [importDocument admin .merge]).system
        (world (documentOfA "8"))) c ∧
      c.shared.db.fieldTypes (world (documentOfA "8")) tenant "a" = some .integer ∧
      (c.shared.db.log tenant).map (fun V => (V.writer,
        V.values.map fun r => (r.fieldPath, r.value))) = [(0, [("a", some "8")])] :=
    exists_reach_of_run (steps 0 19) (by decide +kernel)
  obtain ⟨V, hlog, hV⟩ := map_eq_singleton_iff.mp hrows
  obtain ⟨hwriter, hvalues⟩ := Prod.mk.inj hV
  obtain ⟨row, hrow, hvalue⟩ := map_eq_singleton_iff.mp hvalues
  obtain ⟨hpath, hs⟩ := Prod.mk.inj hvalue
  have hVmem : V ∈ c.shared.db.log tenant := by simp [hlog]
  have hrowmem : row ∈ V.values := by simp [hrow]
  refine ⟨c, V, row, hr.imp fun _ _ _ _ => trivial, hVmem, hrowmem, hs, ?_⟩
  have hiff := stored_value_unlocked_iff (.refl _) rfl hr rfl hVmem hwriter hrowmem hs
    (mem_singleton_self lockedSeven) hpath.symm rfl
  rw [hpath, hft] at hiff
  exact (hiff (by decide)).mpr (.inl (by decide))

/-- The string `007` is not the locked string, and is read as the locked value. -/
theorem locked_value_imported :
    ∃ c V row, Reach exec (Undisturbed tenant 0) ((Sample.init [lockedSeven]
        [importDocument admin .merge]).system (world (documentOfA "007"))) c ∧
      (∃ n, c.returned 0 = some (.ok (.version n))) ∧
      admin.isSuperAdmin = false ∧
      V ∈ c.shared.db.log tenant ∧ V.writer = 0 ∧ row ∈ V.values ∧
      row.fieldPath = "a" ∧ row.value = some "007" ∧
      c.shared.db.fieldTypes (world (documentOfA "007")) tenant "a" = some .integer ∧
      canonicalForm (some .integer) "7" = "7" ∧
      parseStorage (some .integer) "007" = parseStorage (some .integer) "7" := by
  obtain ⟨c, hr, hret, hft, hrows⟩ : ∃ c, Reach exec (Undisturbed tenant 0)
      ((Sample.init [lockedSeven] [importDocument admin .merge]).system
        (world (documentOfA "007"))) c ∧
      c.returned 0 = some (.ok (.version 1)) ∧
      c.shared.db.fieldTypes (world (documentOfA "007")) tenant "a" = some .integer ∧
      (c.shared.db.log tenant).map (fun V => (V.writer,
        V.values.map fun r => (r.fieldPath, r.value))) = [(0, [("a", some "007")])] :=
    exists_reach_of_run (steps 0 19) (by decide +kernel)
  obtain ⟨V, hlog, hV⟩ := map_eq_singleton_iff.mp hrows
  obtain ⟨hwriter, hvalues⟩ := Prod.mk.inj hV
  obtain ⟨row, hrow, hvalue⟩ := map_eq_singleton_iff.mp hvalues
  obtain ⟨hpath, hs⟩ := Prod.mk.inj hvalue
  exact ⟨c, V, row, hr, ⟨1, hret⟩, rfl, by simp [hlog], hwriter, by simp [hrow], hpath, hs, hft,
    by decide, by decide⟩

end Decree
