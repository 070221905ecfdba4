import Decree.Versions

/-!
# Calls That Run Alone

What a call returns when nothing else moves and nothing fails, and the state in which it leaves
the store: `alone` evaluates its procedure, and `Completes` says that it does not end in an
error. The rules take a procedure apart along its binds.

## Main results

* `completes_bind`: a sequence completes when its parts do.
* `Reading.alone`: reads leave the state.
* `completes_commitWrite`: when a config write completes.
-/

open Go Interleave List

namespace Decree

variable {t : ℕ} {s s' : State} {ε α β : Type} {env : Env} {T : String} {x : Proc ε α} {a : α}
  {body : Proc TxErr α} {keys : List LockKey}

/-- What a procedure returns when it **runs alone** and nothing fails, and the state that it
leaves. -/
abbrev alone (t : ℕ) (s : State) (x : Proc ε α) : Option (Except ε α × State) :=
  runAlone exec .ok t x.run s

/-- The procedure, alone, **completes** with the value and leaves the second state. -/
def Completes (t : ℕ) (s : State) (x : Proc ε α) (a : α) (s' : State) : Prop :=
  alone t s x = some (.ok a, s')

section Sequences

variable {x : Proc ε α} {f : α → Proc ε β} {a : α} {b : β} {s₁ : State} {inTx : Bool} {q : Query}
  {g : StoreErr → ε}

/-- A procedure runs on where a part of it has completed. -/
theorem Completes.bind (h : Completes t s x a s₁) (f : α → Proc ε β) :
    alone t s (x >>= f) = alone t s₁ (f a) := by
  rw [Completes, alone] at h
  rw [alone, ExceptT.run_bind, runAlone_bind, h]
  rfl

/-- A failure ends the program. -/
theorem alone_bind_error {e : ε} (h : alone t s x = some (.error e, s')) (f : α → Proc ε β) :
    alone t s (x >>= f) = some (.error e, s') := by
  rw [alone] at h
  rw [alone, ExceptT.run_bind, runAlone_bind, h]
  rfl

/-- **A sequence completes when its parts do.** -/
theorem completes_bind :
    Completes t s (x >>= f) b s' ↔ ∃ a s₁, Completes t s x a s₁ ∧ Completes t s₁ (f a) b s' := by
  constructor
  · intro h
    rw [Completes, alone, ExceptT.run_bind, runAlone_bind] at h
    obtain ⟨⟨r, s₁⟩, hx, hf⟩ := Option.bind_eq_some_iff.mp h
    cases r with
    | error e => cases (Option.some.inj hf)
    | ok a => exact ⟨a, s₁, hx, hf⟩
  · rintro ⟨a, s₁, hx, hf⟩
    rw [Completes, hx.bind]
    exact hf

/-- Past its first part a program goes on. -/
theorem Completes.bind_iff (h : Completes t s x a s₁) :
    Completes t s (x >>= f) b s' ↔ Completes t s₁ (f a) b s' := by
  rw [Completes, h.bind, Completes]

/-- A part whose results are known, and that leaves the state as it is. -/
theorem completes_bind_of {P : α → Prop} (h : ∀ a s₁, Completes t s x a s₁ ↔ P a ∧ s = s₁) :
    Completes t s (x >>= f) b s' ↔ ∃ a, P a ∧ Completes t s (f a) b s' := by
  rw [completes_bind]
  constructor
  · rintro ⟨a, s₁, hx, hf⟩
    obtain ⟨ha, rfl⟩ := (h a s₁).mp hx
    exact ⟨a, ha, hf⟩
  · rintro ⟨a, ha, hf⟩
    exact ⟨a, s, (h a s).mpr ⟨ha, rfl⟩, hf⟩

/-- An operation that is executed answers. -/
theorem alone_ask {o : Op} {f : o.Resp → Except ε α} {r : o.Resp}
    (h : exec .ok t o s = some (r, s')) : alone t s (ask o f) = some (f r, s') := by
  rw [alone, ask, ExceptT.run_mk, runAlone, h]
  rfl

/-- A value completes at once. -/
@[simp] theorem completes_pure {c : α} :
    Completes t s (pure a : Proc ε α) c s' ↔ a = c ∧ s = s' := by
  rw [Completes, alone, ExceptT.run_pure, Prog.pure_eq, runAlone]
  simp

/-- A check completes where it passes. -/
@[simp] theorem completes_ofExcept {r : Except ε α} :
    Completes t s (ofExcept r) a s' ↔ r = .ok a ∧ s = s' := by
  rw [Completes, alone, ofExcept, ExceptT.run_mk, runAlone]
  simp

/-- A program past a check. -/
theorem completes_ofExcept_bind {r : Except ε α} :
    Completes t s (ofExcept r >>= f) b s' ↔ ∃ a, r = .ok a ∧ Completes t s (f a) b s' := by
  rw [completes_bind]
  simp

/-- A program past a check without a value. -/
theorem completes_check_bind {r : Except ε Unit} {f : Unit → Proc ε β} :
    Completes t s (ofExcept r >>= f) b s' ↔ r = .ok () ∧ Completes t s (f ()) b s' := by
  rw [completes_ofExcept_bind]
  exact ⟨fun ⟨⟨⟩, hr, h⟩ => ⟨hr, h⟩, fun ⟨hr, h⟩ => ⟨(), hr, h⟩⟩

/-- A program past a condition. -/
theorem completes_require_bind {p : Prop} [Decidable p] {e : ε} {f : Unit → Proc ε β} :
    Completes t s (require p e >>= f) b s' ↔ p ∧ Completes t s (f ()) b s' := by
  rw [require, completes_check_bind]
  by_cases hp : p <;> simp [hp]

/-- A condition that holds completes. -/
theorem completes_require {p : Prop} [Decidable p] {e : ε} (hp : p) :
    Completes t s (require p e) () s := by
  rw [require, if_pos hp, completes_ofExcept]
  exact ⟨rfl, rfl⟩

/-- A read completes with the value of the tables. -/
theorem completes_read {f : Op.Resp (.read inTx q) → Except ε α} :
    Completes t s (ask (.read inTx q) f) a s' ↔ f ((s.view inTx t).eval q) = .ok a ∧ s = s' := by
  have h : alone t s (ask (.read inTx q) f) = some (f ((s.view inTx t).eval q), s) := alone_ask rfl
  rw [Completes, h]
  simp

/-- So does a read with mapped errors. -/
theorem completes_fetch {a : q.Result} :
    Completes t s (fetch inTx q g) a s' ↔ (s.view inTx t).eval q = .ok a ∧ s = s' := by
  rw [fetch, completes_read, mapError_eq_ok]

/-- A program past a read. -/
theorem completes_fetch_bind {a : q.Result} {f : q.Result → Proc ε β}
    (h : (s.view inTx t).eval q = .ok a) :
    Completes t s (fetch inTx q g >>= f) b s' ↔ Completes t s (f a) b s' :=
  (completes_fetch.mpr ⟨h, rfl⟩).bind_iff

end Sequences

/-! ### Procedures that only read -/

/-- **A procedure that only reads returns**, in the state in which it began. -/
theorem Reading.alone (hx : Reading x) (t : ℕ) (s : State) : ∃ r, alone t s x = some (r, s) := by
  have hp : Avoids (fun o => ¬ o.IsRead) x.run := hx
  rw [Decree.alone]
  generalize x.run = p at hp ⊢
  clear hx
  induction p with
  | ret r => exact ⟨r, rfl⟩
  | op o k ih =>
    obtain ⟨hread, hk⟩ := avoids_op.mp hp
    cases o with
    | read inTx q =>
      obtain ⟨r, hr⟩ := ih _ (hk ((s.view inTx t).eval q))
      exact ⟨r, hr⟩
    | _ => exact absurd id hread

/-- A plain program only reads. -/
theorem Plain.reading (hx : Plain x) : Reading x := by
  refine hx.mono fun o ho hplain => ho ?_
  cases o with
  | read => exact trivial
  | _ => exact absurd hplain id

/-- The state has no transaction of the call open, so its reads see the committed tables. -/
theorem view_of_none (h : s.txs t = none) (inTx : Bool) : s.view inTx t = s.db := by
  cases inTx <;> simp [State.view, h]

/-! ### The reads of a superadmin's call -/

section Reads

variable {caller : Caller} {sv : SchemaVersion} {action : Action}

/-- The text **names** the tenant in a request. -/
def Tables.Names (db : Tables) (idOrName T : String) : Prop :=
  idOrName ≠ "" ∧ db.tenantOf idOrName = some T

/-- A superadmin has claims. -/
theorem mustHaveClaims_of_superadmin (h : caller.isSuperAdmin = true) :
    mustHaveClaims caller = .ok () := by
  rw [Caller.isSuperAdmin] at h
  rw [mustHaveClaims]
  cases hclaims : caller.claims with
  | none => simp_all
  | some claims => simp

/-- A superadmin has access. -/
theorem accessGuards_of_superadmin (h : caller.isSuperAdmin = true) (action : Action)
    (r : Resource) : accessGuards caller action r = .ok () := by
  have hreq : ∀ (ok : Claims → Bool) denied, (∀ claims, claims.role = .superadmin → ok claims) →
      requireClaims caller ok denied = .ok () := by
    intro ok denied hok
    rw [Caller.isSuperAdmin] at h
    rw [requireClaims]
    cases hclaims : caller.claims with
    | none => simp_all
    | some claims =>
      simp only [hclaims, decide_eq_true_eq] at h
      simp [hok claims h]
  have htenant : tenantScopeGuard caller action r = .ok () := by
    rw [tenantScopeGuard]
    split
    · rfl
    · exact hreq _ _ fun claims hrole => by simp [Claims.hasTenantAccess, hrole]
  rw [accessGuards, htenant]
  cases action with
  | read => rfl
  | write => exact hreq _ _ fun claims hrole => by simp [hrole]
  | admin | global => exact hreq _ _ fun claims hrole => by simp [hrole]

/-- A superadmin passes the guards, whatever is locked. -/
theorem completes_guardCheck (h : caller.isSuperAdmin = true) {r : Resource}
    {locks : Option (List TenantFieldLock)} {u : Unit} :
    Completes t s (guardCheck env caller action r locks) u s' ↔ s = s' := by
  rw [guardCheck.eq_def, accessGuards_of_superadmin h, completes_check_bind,
    if_neg (by simp [fieldLocksApply, h]), completes_pure]
  simp

/-- A tenant that exists is resolved. -/
theorem completes_resolveTenantWithAccess
    (hok : accessGuards caller action { tenantID := T } = .ok ()) {idOrName : String}
    (hT : s.db.Names idOrName T) :
    Completes t s (resolveTenantWithAccess env caller idOrName action) T s := by
  obtain ⟨hne, hT⟩ := hT
  have hres : Completes t s (resolveTenantID idOrName) T s := by
    rw [Tables.tenantOf] at hT
    rw [resolveTenantID, if_neg hne]
    split at hT
    · rename_i hu
      rw [if_pos hu]
      exact completes_pure.mpr ⟨Option.some.inj hT, rfl⟩
    · rename_i hu
      obtain ⟨tn, htn, rfl⟩ := Option.map_eq_some_iff.mp hT
      have hread : (s.view false t).eval (.tenantByName idOrName) = .ok tn := found_eq_ok.mpr htn
      rw [if_neg hu, completes_fetch_bind hread]
      exact completes_pure.mpr ⟨rfl, rfl⟩
  have hguard : Completes t s (guardCheck env caller action { tenantID := T } none) () s := by
    rw [guardCheck.eq_def, hok, completes_check_bind, if_neg (by simp [fieldLocksApply]),
      completes_pure]
    simp
  exact hres.bind_iff.mpr (hguard.bind_iff.mpr (completes_pure.mpr ⟨rfl, rfl⟩))

theorem completes_resolveVersion {latest : ℤ} (h : LatestRead (s.db.log T) latest) :
    Completes t s (resolveVersion T) latest s :=
  completes_read.mpr ⟨h, rfl⟩

theorem completes_getSchemaFieldSets (hsv : s.db.boundSchema T = some sv) :
    Completes t s (getSchemaFieldSets T) sv.fields s := by
  obtain ⟨tn, htn, hversion⟩ := Option.bind_eq_some_iff.mp hsv
  have htenant : (s.view false t).eval (.tenantByID T) = .ok tn := found_eq_ok.mpr htn
  have hschema : (s.view false t).eval (.schemaVersion tn.schemaID tn.schemaVersion) = .ok sv :=
    found_eq_ok.mpr hversion
  have hfields : (s.view false t).eval (.schemaFields sv.id) = .ok sv.fields :=
    congrArg Except.ok (Tables.schemaFields_of_mem (mem_of_find?_eq_some hversion))
  rw [getSchemaFieldSets, completes_fetch_bind htenant, completes_fetch_bind hschema]
  exact completes_fetch.mpr ⟨hfields, rfl⟩

/-- A validation completes where the value is valid. -/
theorem completes_validateField (hsv : s.db.boundSchema T = some sv) {f : String}
    {value : Option TypedValue} {u : Unit} :
    Completes t s (validateField env T f value) u s' ↔
      s = s' ∧ (env.hasValidators = true → validateWith env sv.fields f value = .ok ()) := by
  have hread : (s.view false t).eval (.boundSchema T) = .ok sv := found_eq_ok.mpr hsv
  rw [validateField]
  split
  · rename_i hv
    rw [completes_fetch_bind hread, completes_ofExcept, and_comm]
    simp [hv]
  · rename_i hv
    rw [completes_pure]
    simp [hv]

end Reads

/-! ### The transaction of a config write -/

/-- A lock that a config write of the tenant takes. -/
def LockKey.OfConfig (T : String) : LockKey → Prop
  | .versionSlot U _ | .auditChain U => U = T
  | _ => False

/-- The config of the tenant is **free** for the call: it is in no transaction, and no other
call is in the middle of a config write of the tenant. -/
structure State.FreeFor (s : State) (t : ℕ) (T : String) : Prop where
  txs : s.txs t = none
  held : ∀ p ∈ s.held, p.2 ≠ t ∧ ¬ p.1.OfConfig T

/-- The state in which a call has begun a transaction with this content, and holds the locks. -/
def State.within (s : State) (t : ℕ) (tx : Tx) (keys : List LockKey) : State :=
  { s with txs := Function.update s.txs t (some tx), held := keys.map (·, t) ++ s.held }

/-- The open transaction of the call. -/
theorem State.within_txs (s : State) (t : ℕ) (tx : Tx) (keys : List LockKey) :
    (s.within t tx keys).txs t = some tx :=
  Function.update_self ..

/-- No other call holds the locks of the tenant. -/
theorem State.FreeFor.rival_within (hfree : s.FreeFor t T) (tx : Tx) (keys : List LockKey)
    {k : LockKey} (hk : k.OfConfig T) : (s.within t tx keys).rival t k = false := by
  refine any_eq_false.mpr fun p hp => ?_
  rw [Bool.and_eq_true, decide_eq_true_eq, decide_eq_true_eq]
  rintro ⟨rfl, hne⟩
  rcases mem_append.mp hp with hp | hp
  · obtain ⟨k, -, rfl⟩ := mem_map.mp hp
    exact hne rfl
  · exact (hfree.held p hp).2 hk

/-- A statement is staged in the transaction. -/
theorem State.staged_within (s : State) (t : ℕ) (tx tx' : Tx) (keys keys' : List LockKey) {o : Op}
    {r : o.Resp} (h : o.stage t r (some tx) = some tx') :
    (s.within t tx keys).staged t o r keys' = s.within t tx' (keys' ++ keys) := by
  simp only [State.staged, State.within, Function.update_self, Function.update_idem, h,
    map_append, append_assoc]

/-- The end of a transaction leaves its effect. -/
theorem State.FreeFor.closed_within (hfree : s.FreeFor t T) (tx : Tx) (keys : List LockKey)
    (db : Tables) : (s.within t tx keys).closed t db = { s with db := db } := by
  have htxs : Function.update s.txs t none = s.txs := by
    rw [← hfree.txs, Function.update_eq_self]
  have hheld : (keys.map (·, t) ++ s.held).filter (fun p => p.2 ≠ t) = s.held := by
    have hmine : (keys.map (·, t)).filter (fun p => p.2 ≠ t) = [] := by simp
    have hothers : s.held.filter (fun p => p.2 ≠ t) = s.held :=
      filter_eq_self.mpr fun p hp => decide_eq_true (hfree.held p hp).1
    rw [filter_append, hmine, hothers, nil_append]
  simp only [State.closed, State.within, Function.update_idem, htxs, hheld]

theorem completes_begin (t : ℕ) (s : State) (g : StoreErr → ε) :
    Completes t s (ask .begin (Except.mapError g)) () (s.within t {} []) := by
  have hexec : exec .ok t .begin s = some (.ok (), s.within t {} []) := rfl
  exact alone_ask hexec

/-- **`RunInTx` alone** commits what its body leaves. -/
theorem alone_runInTx (hfree : s.FreeFor t T) {tx : Tx}
    (h : alone t (s.within t {} []) body = some (.ok a, s.within t tx keys)) :
    alone t s (runInTx body) = some (.ok a, { s with db := tx.apply s.db }) := by
  rw [alone] at h
  rw [runInTx, (completes_begin t s _).bind, alone, ExceptT.run_mk, runAlone_bind, h,
    Option.bind_some]
  simp only [runAlone, exec, execCommit, State.within_txs, Option.bind_some, hfree.closed_within]
  rfl

/-- A transaction that fails leaves nothing. -/
theorem alone_runInTx_error (hfree : s.FreeFor t T) {e : TxErr} {tx : Tx}
    (h : alone t (s.within t {} []) body = some (.error e, s.within t tx keys)) :
    alone t s (runInTx body) = some (.error e, s) := by
  rw [alone] at h
  rw [runInTx, (completes_begin t s _).bind, alone, ExceptT.run_mk, runAlone_bind, h,
    Option.bind_some]
  simp only [runAlone, exec, Option.bind_some, hfree.closed_within]
  rfl

/-- A transaction that succeeds is not repeated. -/
theorem completes_retry {tx : Proc TxErr α} (h : Completes t s tx a s') (n : ℕ) :
    Completes t s (retryOnVersionConflict tx n) a s' := by
  cases n with
  | zero => exact h
  | succ n =>
    rw [Completes, alone] at h
    rw [retryOnVersionConflict, Completes, alone, ExceptT.run_mk, runAlone_bind, h]
    rfl

/-- An error that is no conflict ends the attempts. -/
theorem alone_retry_error {tx : Proc TxErr α} {e : TxErr}
    (h : alone t s tx = some (.error e, s)) (n : ℕ) :
    alone t s (retryOnVersionConflict tx n) = some (.error e, s) := by
  induction n with
  | zero => exact h
  | succ n ih =>
    rw [alone] at h
    rw [retryOnVersionConflict, alone, ExceptT.run_mk, runAlone_bind, h, Option.bind_some]
    cases e with
    | conflict => exact ih
    | _ => rfl

/-- The error of a transaction is mapped. -/
theorem alone_transact {tx : Proc TxErr α} {r : Except TxErr α} {onError : TxErr → Status}
    (h : alone t s tx = some (r, s')) :
    alone t s (transact tx onError) = some (r.mapError onError, s') := by
  rw [alone] at h
  rw [transact, alone, ExceptT.run_mk, runAlone_bind, h]
  rfl

section Write

variable {w : VersionWrite} {rest : ℤ → Proc TxErr Unit} {latest : ℤ} {V : ConfigVersion}
  {p : CreateConfigVersionParams}

structure VersionOf (t : ℕ) (w : VersionWrite) (latest : ℤ) (V : ConfigVersion) : Prop where
  version : V.version = wrap32 (latest + 1)
  description : V.description = w.description
  createdBy : V.createdBy = w.actor
  values : V.values = w.rows
  writer : V.writer = t

/-- The latest version, read in the transaction. -/
theorem alone_txLatestVersion (hlat : LatestRead (s.db.log T) latest) (keys : List LockKey) :
    alone t (s.within t {} keys) (txLatestVersion T) = some (.ok latest, s.within t {} keys) := by
  refine completes_read.mpr ⟨?_, rfl⟩
  rw [State.view_true (s.within_txs t {} keys), Tx.apply_empty]
  have heval : (s.within t {} keys).db.eval (.latestConfigVersion T) =
      found (latestConfigVersion (s.db.log T)) := rfl
  rw [heval, hlat]
  rfl

/-- A number that is taken is a conflict. -/
theorem alone_createConfigVersion_conflict
    (htaken : p.version ∈ versionNumbers (s.db.log p.tenantID)) :
    alone t s (createConfigVersion p) = some (.error .conflict, s) := by
  have hexec : exec .ok t (.createConfigVersion p) s = some (.error .versionConflict, s) := by
    rw [exec, failing, if_neg (by simp), execCreateConfigVersion, if_pos htaken]
  exact alone_ask hexec

/-- A free number is taken. -/
theorem alone_createConfigVersion (hstate : s.FreeFor t p.tenantID)
    (hT : p.tenantID ∈ s.db.tenantIDs) (hfree : p.version ∉ versionNumbers (s.db.log p.tenantID)) :
    alone t (s.within t {} []) (createConfigVersion p) = some (.ok p.version,
      s.within t { version := some (p.tenantID,
        ⟨p.version, p.description, p.createdBy, [], t, by simp⟩) }
        [.versionSlot p.tenantID p.version]) := by
  have hnot : p.version ∉ ((s.within t {} []).db.log p.tenantID).map ConfigVersion.version := hfree
  have hids : p.tenantID ∈ ((s.within t {} []).view true t).tenantIDs := by
    rw [State.view_true (s.within_txs t {} []), Tx.apply_empty]
    exact hT
  have hopen : (((s.within t {} []).txs t).bind Tx.version).isNone = true ∧
      ((s.within t {} []).txs t).isSome = true := by
    rw [State.within_txs]
    exact ⟨rfl, rfl⟩
  have hrival : (s.within t {} []).rival t (.versionSlot p.tenantID p.version) = false :=
    hstate.rival_within {} [] rfl
  have hstage : Op.stage t (.createConfigVersion p) (.ok p.version) (some {}) =
      some { version := some (p.tenantID,
        ⟨p.version, p.description, p.createdBy, [], t, by simp⟩) } := rfl
  have hexec : exec .ok t (.createConfigVersion p) (s.within t {} []) = some (.ok p.version,
      s.within t { version := some (p.tenantID,
        ⟨p.version, p.description, p.createdBy, [], t, by simp⟩) }
        [.versionSlot p.tenantID p.version]) := by
    rw [exec, failing, if_neg (by simp), execCreateConfigVersion, if_neg hnot,
      if_neg (by simp [hrival]), if_pos ⟨hids, hopen⟩,
      State.staged_within _ _ _ _ _ _ hstage]
    rfl
  exact alone_ask hexec

/-- The rows of the version are set. -/
theorem alone_setConfigValues {n : ℤ} {description : Option String} {actor : String}
    {keys : List LockKey} (hn : V.version = n) (hdesc : V.description = description)
    (hby : V.createdBy = actor) (hwriter : V.writer = t) :
    alone t (s.within t { version := some (T, ⟨n, description, actor, [], t, by simp⟩) } keys)
      (setConfigValues V.values) =
      some (.ok (), s.within t { version := some (T, V) } keys) := by
  have hadd : ({ version := some (T, ⟨n, description, actor, [], t, by simp⟩) } : Tx).addRows
      V.values = some { version := some (T, V) } := by
    obtain ⟨n, d, b, vs, u, hn⟩ := V
    subst hn hdesc hby hwriter
    rw [Tx.addRows]
    exact dif_pos (by simpa using hn)
  have hstage : Op.stage t (.setConfigValues V.values) (.ok ())
      (some { version := some (T, ⟨n, description, actor, [], t, by simp⟩) }) =
      some { version := some (T, V) } := hadd
  have hexec : exec .ok t (.setConfigValues V.values)
      (s.within t { version := some (T, ⟨n, description, actor, [], t, by simp⟩) } keys) =
      some (.ok (), s.within t { version := some (T, V) } keys) := by
    rw [exec, failing, if_neg (by simp), execSetConfigValues, State.within_txs, Option.bind_some,
      hadd, if_pos (by simp), State.staged_within _ _ _ _ _ _ hstage]
    rfl
  exact alone_ask hexec

/-- A version whose number is taken is a conflict. -/
theorem alone_versionTx_conflict (hexp : w.expected = [])
    (hlat : LatestRead (s.db.log w.tenantID) latest)
    (htaken : wrap32 (latest + 1) ∈ versionNumbers (s.db.log w.tenantID)) :
    alone t (s.within t {} []) (versionTx w rest) = some (.error .conflict, s.within t {} []) := by
  rw [versionTx, Completes.bind (alone_txLatestVersion hlat []), hexp, forEach,
    (completes_pure.mpr ⟨rfl, rfl⟩).bind]
  exact alone_bind_error (alone_createConfigVersion_conflict htaken) _

/-- **The transaction up to its last part**: the version is there, with its rows. -/
theorem alone_versionTx (hstate : s.FreeFor t w.tenantID) (hexp : w.expected = [])
    (hT : w.tenantID ∈ s.db.tenantIDs) (hlat : LatestRead (s.db.log w.tenantID) latest)
    (hfree : wrap32 (latest + 1) ∉ versionNumbers (s.db.log w.tenantID))
    (hV : VersionOf t w latest V) :
    alone t (s.within t {} []) (versionTx w rest) =
      alone t (s.within t { version := some (w.tenantID, V) }
        [.versionSlot w.tenantID V.version]) (rest V.version >>= fun _ => pure V.version) := by
  rw [← hV.version] at hfree
  rw [versionTx, Completes.bind (alone_txLatestVersion hlat []), hexp, forEach,
    (completes_pure.mpr ⟨rfl, rfl⟩).bind, ← hV.version,
    Completes.bind (alone_createConfigVersion hstate hT hfree), ← hV.values,
    Completes.bind (alone_setConfigValues rfl hV.description hV.createdBy hV.writer)]

/-- The cross-field rules of the schema **accept** the rows. -/
def CrossFieldValid (env : Env) (sv : SchemaVersion) (tn : Tenant) (rows : List ConfigValue) :
    Prop :=
  env.hasValidators = true →
    dependentRequiredCheck env sv.dependentRequired rows = .ok () ∧
    (sv.validations = [] ∨ ∃ rules types, compileRules env sv.fields sv.validations = .ok rules ∧
      typesOfFields env sv.fields = .ok types ∧ celCheck env ⟨rules, types⟩ rows tn = .ok ())

/-- The `dependentRequired` rules that a config call works with. -/
def depRules (env : Env) (sv : SchemaVersion) : List DependentRequiredEntry :=
  if env.hasValidators then sv.dependentRequired else []

variable {tx : Tx} {keys : List LockKey} {sv : SchemaVersion} {tn : Tenant}

section

variable (hsv : s.db.boundSchema T = some sv)

include hsv

theorem completes_fetchDependentRequiredRules :
    Completes t s (fetchDependentRequiredRules env T) (depRules env sv) s := by
  have hread : (s.view false t).eval (.boundSchema T) = .ok sv := found_eq_ok.mpr hsv
  rw [fetchDependentRequiredRules, depRules]
  split
  · exact (completes_fetch_bind hread).mpr (completes_pure.mpr ⟨rfl, rfl⟩)
  · exact completes_pure.mpr ⟨rfl, rfl⟩

def serviceTypes (env : Env) (sv : SchemaVersion) : Except Status (List (String × FieldType)) :=
  if env.hasValidators then typesOfFields env sv.fields else .ok []

theorem completes_fieldTypeMap (wrap : Status → ε) {types : List (String × FieldType)} :
    Completes t s (fieldTypeMap env wrap T) types s' ↔
      serviceTypes env sv = .ok types ∧ s = s' := by
  have hread : (s.view false t).eval (.boundSchema T) = .ok sv := found_eq_ok.mpr hsv
  rw [fieldTypeMap, serviceTypes]
  split
  · rw [completes_fetch_bind hread, completes_ofExcept, mapError_eq_ok]
  · rw [completes_pure, Except.ok.injEq]

/-- The CEL rules are compiled, if there are any. -/
theorem completes_fetchCelArtifactsForTenant {cel : Option CelArtifacts} :
    Completes t s (fetchCelArtifactsForTenant env T) cel s' ↔
      (if env.hasValidators = true ∧ sv.validations ≠ [] then
        ∃ rules types, compileRules env sv.fields sv.validations = .ok rules ∧
          typesOfFields env sv.fields = .ok types ∧ cel = some ⟨rules, types⟩
      else cel = none) ∧ s = s' := by
  have hread : (s.view false t).eval (.boundSchema T) = .ok sv := found_eq_ok.mpr hsv
  rw [fetchCelArtifactsForTenant]
  by_cases hv : env.hasValidators = true
  · rw [if_pos hv, completes_fetch_bind hread]
    by_cases hnone : sv.validations = []
    · rw [if_pos hnone, if_neg (by simp [hnone]), completes_pure, eq_comm (a := none)]
    · rw [if_neg hnone, if_pos ⟨hv, hnone⟩, completes_fetch_bind hread, completes_ofExcept_bind]
      simp only [mapError_eq_ok, completes_bind_of fun _ _ => completes_fieldTypeMap hsv _,
        serviceTypes, if_pos hv, completes_pure]
      constructor
      · rintro ⟨rules, hrules, types, htypes, rfl, hs⟩
        exact ⟨⟨rules, types, hrules, htypes, rfl⟩, hs⟩
      · rintro ⟨⟨rules, types, hrules, htypes, rfl⟩, hs⟩
        exact ⟨rules, hrules, types, htypes, rfl, hs⟩
  · rw [if_neg hv, if_neg (by simp [hv]), completes_pure, eq_comm (a := none)]

/-- **The cross-field rules in a transaction** look at the snapshot of its version. -/
theorem completes_enforceDependentRequiredInTx
    (hview : s.view true t = tx.apply s.db) (htn : (tx.apply s.db).tenantByID T = some tn)
    {n : ℤ} {u : Unit} :
    Completes t s (enforceDependentRequiredInTx env T n (depRules env sv)) u s' ↔ s = s' ∧
      CrossFieldValid env sv tn (fullConfigAtVersion ((tx.apply s.db).log T) n) := by
  have hrows : (s.view true t).eval (.fullConfigAtVersion T n) =
      .ok (fullConfigAtVersion ((tx.apply s.db).log T) n) := by
    rw [hview]
    rfl
  have htenant : (s.view true t).eval (.tenantByID T) = .ok tn := by
    rw [hview]
    exact found_eq_ok.mpr htn
  -- what is enforced with the artifacts that were found
  have hcross : ∀ cel : Option CelArtifacts,
      Completes t s (enforceCrossFieldInTx env T n (depRules env sv) cel) u s' ↔ s = s' ∧
        dependentRequiredCheck env (depRules env sv)
          (fullConfigAtVersion ((tx.apply s.db).log T) n) = .ok () ∧
        ∀ art ∈ cel, celCheck env art (fullConfigAtVersion ((tx.apply s.db).log T) n) tn =
          .ok () := by
    intro cel
    rw [enforceCrossFieldInTx]
    split
    · rename_i hnone
      obtain ⟨hdep, hcel⟩ := hnone
      rw [hdep, Option.isNone_iff_eq_none.mp hcel]
      simp [dependentRequiredCheck, checkDependentRequired]
    · rw [completes_fetch_bind hrows, completes_check_bind]
      cases cel with
      | none =>
        rw [completes_pure]
        simp [and_comm]
      | some art =>
        rw [completes_fetch_bind htenant, completes_ofExcept]
        simp only [Option.mem_some_iff, forall_eq']
        tauto
  rw [enforceDependentRequiredInTx, CrossFieldValid,
    completes_bind_of fun _ _ => completes_fetchCelArtifactsForTenant hsv]
  simp only [hcross]
  rw [depRules]
  by_cases hv : env.hasValidators = true
  · by_cases hnone : sv.validations = []
    · simp [hv, hnone]
    · simp only [hv, hnone, ne_eq, not_false_eq_true, and_self, if_true, true_implies, false_or]
      constructor
      · rintro ⟨cel, ⟨rules, types, hrules, htypes, rfl⟩, hs, hdep, hcheck⟩
        exact ⟨hs, hdep, rules, types, hrules, htypes, hcheck _ rfl⟩
      · rintro ⟨hs, hdep, rules, types, hrules, htypes, hcheck⟩
        exact ⟨_, ⟨rules, types, hrules, htypes, rfl⟩, hs, hdep, by simpa using hcheck⟩
  · simp [hv, dependentRequiredCheck, checkDependentRequired]

end

/-- The entries are inserted. -/
theorem alone_insertAudit (hstate : s.FreeFor t T) (hnone : tx.audit = [])
    {entries : List AuditEntry} (hentries : ∀ e ∈ entries, e.tenantID = T) :
    ∃ keys', alone t (s.within t tx keys) (insertAudit entries) =
      some (.ok (), s.within t { tx with audit := entries } keys') := by
  have hexec : exec .ok t (.insertAudit entries) (s.within t tx keys) = some (.ok (),
      s.within t { tx with audit := entries }
        ((entries.head?.map fun e => LockKey.auditChain e.tenantID).toList ++ keys)) := by
    have hstage : Op.stage t (.insertAudit entries) (.ok ()) (some tx) =
        some { tx with audit := entries } := by
      rw [Op.stage, hnone, nil_append]
    rw [exec, failing, if_neg (by simp), execInsertAudit]
    simp only [State.staged_within _ _ _ _ _ _ hstage]
    refine if_neg ?_
    rw [Bool.not_eq_true, any_eq_false]
    intro k hk
    obtain ⟨e, he, rfl⟩ := Option.map_eq_some_iff.mp (Option.mem_toList.mp hk)
    have hT : e.tenantID = T := hentries e (mem_of_mem_head? he)
    simp [hstate.rival_within tx keys (show (LockKey.auditChain e.tenantID).OfConfig T from hT)]
  exact ⟨_, alone_ask hexec⟩

variable {audit : ℤ → List AuditEntry}

/-- The transaction of the version. -/
abbrev versionOnly (w : VersionWrite) (audit : ℤ → List AuditEntry) (V : ConfigVersion) : Tx :=
  { version := some (w.tenantID, V), audit := audit V.version }

/-- The body of the transaction of a config write. -/
abbrev writeBody (env : Env) (w : VersionWrite) (sv : SchemaVersion)
    (audit : ℤ → List AuditEntry) : Proc TxErr ℤ :=
  versionTx w (auditThenEnforce env w.tenantID (depRules env sv) audit)

/-- **An attempt of a config write** under a free number: the cross-field rules decide. -/
theorem alone_attempt (env : Env) {audit : ℤ → List AuditEntry}
    (haudit : ∀ n, ∀ e ∈ audit n, e.tenantID = w.tenantID) (hstate : s.FreeFor t w.tenantID)
    (hexp : w.expected = []) (hlat : LatestRead (s.db.log w.tenantID) latest)
    (hV : VersionOf t w latest V) (hsv : s.db.boundSchema w.tenantID = some sv)
    (htn : s.db.tenantByID w.tenantID = some tn)
    (hfree : V.version ∉ versionNumbers (s.db.log w.tenantID)) :
    (CrossFieldValid env sv tn (fullConfigAtVersion (s.db.log w.tenantID ++ [V]) V.version) ∧
      Completes t s (runInTx (writeBody env w sv audit)) V.version
        { s with db := (versionOnly w audit V).apply s.db }) ∨
    (¬ CrossFieldValid env sv tn (fullConfigAtVersion (s.db.log w.tenantID ++ [V]) V.version) ∧
      ∃ e, alone t s (runInTx (writeBody env w sv audit)) = some (.error e, s)) := by
  have hT : w.tenantID ∈ s.db.tenantIDs := by
    have hid := find?_some htn
    rw [Bool.and_eq_true, decide_eq_true_eq] at hid
    exact mem_map.mpr ⟨tn, mem_of_find?_eq_some htn, hid.1⟩
  have hbody : alone t (s.within t {} []) (writeBody env w sv audit) =
      alone t (s.within t { version := some (w.tenantID, V) }
        [.versionSlot w.tenantID V.version]) (auditThenEnforce env w.tenantID (depRules env sv)
          audit V.version >>= fun _ => pure V.version) :=
    alone_versionTx hstate hexp hT hlat (hV.version ▸ hfree) hV
  obtain ⟨keys, hins⟩ : ∃ keys, Completes t (s.within t { version := some (w.tenantID, V) }
      [.versionSlot w.tenantID V.version]) (insertAudit (audit V.version)) ()
      (s.within t (versionOnly w audit V) keys) :=
    alone_insertAudit hstate rfl (haudit _)
  have htenant : ((versionOnly w audit V).apply s.db).tenantByID w.tenantID = some tn := by
    rw [Tables.tenantByID, Tx.apply, Option.toList_none, append_nil]
    exact htn
  have hvalid : Completes t (s.within t (versionOnly w audit V) keys)
      (enforceDependentRequiredInTx env w.tenantID V.version (depRules env sv)) ()
      (s.within t (versionOnly w audit V) keys) ↔ CrossFieldValid env sv tn
        (fullConfigAtVersion (s.db.log w.tenantID ++ [V]) V.version) := by
    have hview : (s.within t (versionOnly w audit V) keys).view true t =
        (versionOnly w audit V).apply s.db :=
      State.view_true (s.within_txs t _ keys)
    have hbound : (s.within t (versionOnly w audit V) keys).db.boundSchema w.tenantID = some sv :=
      hsv
    rw [completes_enforceDependentRequiredInTx hbound hview htenant, and_iff_right rfl]
    simp [Tx.added, State.within]
  obtain ⟨r, hr⟩ := (reading_enforceDependentRequiredInTx env w.tenantID V.version
    (depRules env sv)).alone t (s.within t (versionOnly w audit V) keys)
  by_cases hok : CrossFieldValid env sv tn
      (fullConfigAtVersion (s.db.log w.tenantID ++ [V]) V.version)
  · have hrest : Completes t (s.within t { version := some (w.tenantID, V) }
        [.versionSlot w.tenantID V.version]) (auditThenEnforce env w.tenantID (depRules env sv)
          audit V.version >>= fun _ => pure V.version) V.version
        (s.within t (versionOnly w audit V) keys) :=
      completes_bind.mpr ⟨(), _, hins.bind_iff.mpr (hvalid.mpr hok), completes_pure.mpr ⟨rfl, rfl⟩⟩
    exact .inl ⟨hok, alone_runInTx hstate (hbody.trans hrest)⟩
  · refine .inr ⟨hok, ?_⟩
    cases r with
    | ok u => exact absurd (hvalid.mp hr) hok
    | error e =>
      have hrest : alone t (s.within t { version := some (w.tenantID, V) }
          [.versionSlot w.tenantID V.version]) (auditThenEnforce env w.tenantID
            (depRules env sv) audit V.version) =
          some (.error e, s.within t (versionOnly w audit V) keys) := by
        rw [auditThenEnforce, hins.bind]
        exact hr
      exact ⟨e, alone_runInTx_error hstate (hbody.trans (alone_bind_error hrest _))⟩

def State.written (s : State) (w : VersionWrite) (audit : ℤ → List AuditEntry)
    (V : ConfigVersion) (changes : List FieldChange) : State :=
  { s with
    db := (versionOnly w audit V).apply s.db
    cache := (s.cache.invalidate w.tenantID).invalidate w.tenantID
    published := s.published ++ [⟨w.tenantID, V.version, changes, w.actor⟩] }

/-- A write appends its version to the log. -/
theorem State.log_written (s : State) (w : VersionWrite) (audit : ℤ → List AuditEntry)
    (V : ConfigVersion) (changes : List FieldChange) :
    (s.written w audit V changes).db.log w.tenantID = s.db.log w.tenantID ++ [V] := by
  simp [State.written, Tx.added]

/-- **When a config write, alone, completes**: its number is free and the cross-field rules
accept the snapshot of its version, which is all that it adds. -/
theorem completes_commitWrite (haudit : ∀ n, ∀ e ∈ audit n, e.tenantID = w.tenantID)
    (hstate : s.FreeFor t w.tenantID) (hexp : w.expected = [])
    (hlat : LatestRead (s.db.log w.tenantID) latest)
    (hV : VersionOf t w latest V) (hsv : s.db.boundSchema w.tenantID = some sv)
    (htn : s.db.tenantByID w.tenantID = some tn) {onError : TxErr → Status}
    {changes : List FieldChange} {reply : Reply} :
    Completes t s (commitWrite w (auditThenEnforce env w.tenantID (depRules env sv) audit) onError
        (some changes)) reply s' ↔
      V.version ∉ versionNumbers (s.db.log w.tenantID) ∧
      CrossFieldValid env sv tn (fullConfigAtVersion (s.db.log w.tenantID ++ [V]) V.version) ∧
      .version V.version = reply ∧ s.written w audit V changes = s' := by
  let s0 : State := { s with cache := s.cache.invalidate w.tenantID }
  have hstate0 : s0.FreeFor t w.tenantID := ⟨hstate.txs, hstate.held⟩
  have htell : Completes t s (tell (.invalidate w.tenantID) : Proc Status Unit) () s0 :=
    alone_ask (r := ()) rfl
  -- a call whose attempts all fail does not complete
  have hfails : ∀ e, alone t s0 (runInTx (writeBody env w sv audit)) = some (.error e, s0) →
      ¬ Completes t s0 (transact (runInTxWithRetry (writeBody env w sv audit)) onError >>=
        fun version => do
          tell (.invalidate w.tenantID)
          tell (.publish ⟨w.tenantID, version, changes, w.actor⟩)
          pure (.version version)) reply s' := by
    intro e he h
    rw [Completes, runInTxWithRetry,
      alone_bind_error (alone_transact (alone_retry_error he 3))] at h
    cases h
  rw [commitWrite, htell.bind_iff]
  by_cases htaken : V.version ∈ versionNumbers (s.db.log w.tenantID)
  · have hconflict : alone t s0 (runInTx (writeBody env w sv audit)) =
        some (.error .conflict, s0) :=
      alone_runInTx_error hstate0 (alone_versionTx_conflict hexp hlat (hV.version ▸ htaken))
    exact iff_of_false (hfails _ hconflict) fun h => h.1 htaken
  obtain ⟨hvalid, hdone⟩ | ⟨hinvalid, e, he⟩ :=
    alone_attempt (s := s0) env haudit hstate0 hexp hlat hV hsv htn htaken
  · have htx : Completes t s0 (transact (runInTxWithRetry (writeBody env w sv audit)) onError)
        V.version { s0 with db := (versionOnly w audit V).apply s.db } :=
      alone_transact (completes_retry hdone 3)
    have hagain : Completes t { s0 with db := (versionOnly w audit V).apply s.db }
        (tell (.invalidate w.tenantID) : Proc Status Unit) () { s with
          db := (versionOnly w audit V).apply s.db
          cache := (s.cache.invalidate w.tenantID).invalidate w.tenantID } :=
      alone_ask (r := ()) rfl
    have hpublish : Completes t { s with
          db := (versionOnly w audit V).apply s.db
          cache := (s.cache.invalidate w.tenantID).invalidate w.tenantID }
        (tell (.publish ⟨w.tenantID, V.version, changes, w.actor⟩) : Proc Status Unit) ()
        (s.written w audit V changes) :=
      alone_ask (r := ()) rfl
    rw [htx.bind_iff, hagain.bind_iff, hpublish.bind_iff, completes_pure, and_iff_right htaken]
    exact (and_iff_right hvalid).symm
  · exact iff_of_false (hfails e he) fun h => hinvalid h.2.1

end Write

end Decree
