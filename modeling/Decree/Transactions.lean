import Decree.Store

/-!
# Invariants of the Store

What an operation can do to the state is said once, in `Effect`: nothing, stage a write in
the caller's transaction under locks no rival holds, or end that transaction. From it come
the two facts about the store that everything else rests on: its states stay consistent
(`Consistent`), and its committed tables only grow (`State.le`).

## Main results

* `exec_effect`: the effects of the operations.
* `Consistent.exec`: consistency is kept.
* `exec_le`: states grow.
-/

open Interleave List

namespace Decree

abbrev versionNumbers (L : List ConfigVersion) : List ℤ :=
  L.map ConfigVersion.version

/-! ### The effect of an operation -/

/-- What a staged write was admitted for: a new version has a free number and a tenant, and
a new tenant a free identifier. -/
def Admitted (s : State) (t : ℕ) (keys : List LockKey) : (o : Op) → o.Resp → Prop
  | .createConfigVersion p, _ =>
    p.version ∉ versionNumbers (s.db.log p.tenantID) ∧
      p.tenantID ∈ (s.view true t).tenantIDs ∧
      LockKey.versionSlot p.tenantID p.version ∈ keys
  | .createTenant _ _ _, .ok tn =>
    tn.id ∉ s.db.tenantIDs ∧ (s.txs t).bind Tx.tenant = none ∧ LockKey.tenantID tn.id ∈ keys
  | _, _ => True

/-- The operations that touch what is kept next to the store: the published events, the
config cache and the shared fetches. -/
def Op.Aside : Op → Prop
  | invalidate _ | publish _ | cache _ | flight _ => True
  | _ => False

/-- What is kept next to the store is the same. -/
structure State.SameAside (s s' : State) : Prop where
  published : s'.published = s.published
  cache : s'.cache = s.cache
  flights : s'.flights = s.flights

/-- **The effects of an operation** on the tables, the transactions and the locks. -/
inductive Effect (t : ℕ) (s : State) : (o : Op) → o.Resp → State → Prop
  /-- Nothing changes of them, but an idempotency key may be claimed. -/
  | idle {o : Op} {r : o.Resp} {s' : State} (hdb : s'.db = s.db) (htxs : s'.txs = s.txs)
      (hheld : s'.held = s.held) (hclaims : s.claims ⊆ s'.claims)
      (hstage : o.stage t r (s.txs t) = s.txs t) (haside : ¬ o.Aside → s.SameAside s') :
      Effect t s o r s'
  /-- The caller's transaction stages a write. -/
  | staged {o : Op} {r : o.Resp} (keys : List LockKey)
      (hfree : ∀ k ∈ keys, s.rival t k = false) (hadm : Admitted s t keys o r) :
      Effect t s o r (s.staged t o r keys)
  /-- The caller's transaction ends without effect. -/
  | aborted {o : Op} {r : o.Resp} (ho : o = .commit ∨ o = .rollback) :
      Effect t s o r (s.closed t s.db)
  /-- The caller's transaction is committed. -/
  | committed {r : Op.Resp .commit} (tx : Tx) (htx : s.txs t = some tx) :
      Effect t s .commit r (s.closed t (tx.apply s.db))

variable {ch : Choice} {t : ℕ} {s s' : State} {tx : Tx} {u : ℕ} {o : Op}
  {p : CreateConfigVersionParams} {rows : List ConfigValue} {T f name schemaID key : String}
  {schemaVersion : ℤ}

/-- A transaction reads what it has staged. -/
theorem State.view_true (h : s.txs t = some tx) : s.view true t = tx.apply s.db := by
  simp only [State.view, h]

@[simp] theorem State.staged_txs_self (s : State) (o : Op) (r : o.Resp)
    (keys : List LockKey) : (s.staged t o r keys).txs t = o.stage t r (s.txs t) :=
  Function.update_self ..

/-- Other transactions are not touched. -/
theorem State.staged_txs_ne (s : State) (o : Op) (r : o.Resp) (keys : List LockKey) (hu : u ≠ t) :
    (s.staged t o r keys).txs u = s.txs u :=
  Function.update_of_ne hu ..

@[simp] theorem State.closed_txs_self (s : State) (db : Tables) : (s.closed t db).txs t = none :=
  Function.update_self ..

/-- Other transactions stay open. -/
theorem State.closed_txs_ne (s : State) (db : Tables) (hu : u ≠ t) :
    (s.closed t db).txs u = s.txs u :=
  Function.update_of_ne hu ..

variable {r : o.Resp} {tx' : Tx} {keys : List LockKey}

/-- A statement that fails changes nothing. -/
theorem effect_error (h : o.stage t r (s.txs t) = s.txs t) : Effect t s o r s :=
  .idle rfl rfl rfl (.refl _) h fun _ => ⟨rfl, rfl, rfl⟩

/-- The effect of a new version. -/
theorem execCreateConfigVersion_effect {r : Except StoreErr ℤ}
    (h : execCreateConfigVersion t p s = some (r, s')) :
    Effect t s (.createConfigVersion p) r s' := by
  simp only [execCreateConfigVersion] at h
  split at h
  · cases h
    exact effect_error rfl
  · rename_i hnew
    split at h
    · cases h
    · rename_i hfree
      split at h
      · rename_i hin
        cases h
        exact .staged _ (by simpa using hfree) ⟨hnew, hin.1, mem_singleton_self _⟩
      · cases h
        exact effect_error rfl

/-- The effect of new rows. -/
theorem execSetConfigValues_effect {r : Except StoreErr Unit}
    (h : execSetConfigValues t rows s = some (r, s')) :
    Effect t s (.setConfigValues rows) r s' := by
  simp only [execSetConfigValues] at h
  split at h
  · cases h
    exact .staged [] (by simp) trivial
  · cases h
    exact effect_error rfl

/-- The effect of new audit entries. -/
theorem execInsertAudit_effect {entries : List AuditEntry} {r : Except StoreErr Unit}
    (h : execInsertAudit t entries s = some (r, s')) :
    Effect t s (.insertAudit entries) r s' := by
  simp only [execInsertAudit] at h
  split at h
  · cases h
  · rename_i hfree
    cases h
    refine .staged _ (fun k hk => ?_) trivial
    simp only [any_eq_true, not_exists, not_and, Bool.not_eq_true] at hfree
    exact hfree k hk

/-- The effect of a new lock. -/
theorem execCreateFieldLock_effect {lv : LockedValues} {r : Except StoreErr Unit}
    (h : execCreateFieldLock t T f lv s = some (r, s')) :
    Effect t s (.createFieldLock T f lv) r s' := by
  simp only [execCreateFieldLock] at h
  split at h
  · cases h
  · rename_i hfree
    split at h
    · cases h
      exact .staged _ (by simpa using hfree) trivial
    · cases h
      exact effect_error rfl

/-- The effect of a lock that goes. -/
theorem execDeleteFieldLock_effect {r : Except StoreErr Bool}
    (h : execDeleteFieldLock t T f s = some (r, s')) : Effect t s (.deleteFieldLock T f) r s' := by
  simp only [execDeleteFieldLock] at h
  split at h
  · split at h
    · cases h
    · rename_i hfree
      cases h
      exact .staged _ (by simpa using hfree) trivial
  · cases h
    exact effect_error rfl

/-- The effect of a new tenant. -/
theorem execCreateTenant_effect {id : String} {r : Except StoreErr Tenant}
    (h : execCreateTenant t name schemaID schemaVersion id s = some (r, s')) :
    Effect t s (.createTenant name schemaID schemaVersion) r s' := by
  simp only [execCreateTenant] at h
  split at h
  · cases h
  · split at h
    · cases h
      exact effect_error rfl
    · rename_i hnew
      split at h
      · cases h
      · rename_i hfree
        simp only [not_or, Bool.not_eq_true] at hfree hnew
        split at h
        · cases h
          exact effect_error rfl
        · rename_i hone
          cases h
          refine .staged _ (by simpa using hfree) ⟨hnew.2, ?_, by simp⟩
          simpa using hone

/-- The effect of a commit. -/
theorem execCommit_effect {r : Except StoreErr Unit}
    (h : execCommit ch t s = some (r, s')) : Effect t s .commit r s' := by
  simp only [execCommit] at h
  split at h
  · rename_i htx
    cases h
    exact effect_error htx.symm
  · rename_i tx htx
    split at h <;> cases h
    · exact .aborted (.inl rfl)
    · exact .committed tx htx
    · exact .committed tx htx

/-- The effect of a claim. -/
theorem execClaim_effect :
    Effect t s (.claim key) (execClaim ch key s).1 (execClaim ch key s).2 := by
  obtain ⟨claims, hclaims, hs⟩ : ∃ claims, s.claims ⊆ claims ∧
      (execClaim ch key s).2 = { s with claims := claims } := by
    simp only [execClaim]
    split
    · exact ⟨_, Subset.refl _, rfl⟩
    · exact ⟨_, subset_cons_self _ _, rfl⟩
    · exact ⟨_, subset_cons_self _ _, rfl⟩
    · split
      · exact ⟨_, Subset.refl _, rfl⟩
      · exact ⟨_, subset_cons_self _ _, rfl⟩
  rw [hs]
  exact .idle rfl rfl rfl hclaims rfl fun _ => ⟨rfl, rfl, rfl⟩

/-- The store fails, or it answers. -/
theorem failing_eq_some {α : Type} {answer : Option (Except StoreErr α × State)}
    {r : Except StoreErr α} (h : failing ch s answer = some (r, s')) :
    (r = .error .failed ∧ s' = s) ∨ answer = some (r, s') := by
  by_cases hch : ch = .fail
  · rw [failing, if_pos hch] at h
    cases h
    exact .inl ⟨rfl, rfl⟩
  · rw [failing, if_neg hch] at h
    exact .inr h

/-- The effect of a new tenant that may fail. -/
theorem execCreateTenant_choice_effect {r : Except StoreErr Tenant}
    (h : exec ch t (.createTenant name schemaID schemaVersion) s = some (r, s')) :
    Effect t s (.createTenant name schemaID schemaVersion) r s' := by
  cases ch with
  | uuid id => exact execCreateTenant_effect h
  | ok | fail | lost | expired =>
    cases h
    exact effect_error rfl

/-- **Every operation has one of the effects.** -/
theorem exec_effect (h : exec ch t o s = some (r, s')) : Effect t s o r s' := by
  cases o with
  | read inTx q =>
    rcases failing_eq_some h with ⟨rfl, rfl⟩ | h
    · exact effect_error rfl
    · cases h
      exact effect_error rfl
  | begin =>
    rcases failing_eq_some h with ⟨rfl, rfl⟩ | h
    · exact effect_error rfl
    · cases h
      exact .staged [] (by simp) trivial
  | createConfigVersion p =>
    rcases failing_eq_some h with ⟨rfl, rfl⟩ | h
    · exact effect_error rfl
    · exact execCreateConfigVersion_effect h
  | setConfigValues rows =>
    rcases failing_eq_some h with ⟨rfl, rfl⟩ | h
    · exact effect_error rfl
    · exact execSetConfigValues_effect h
  | insertAudit entries =>
    rcases failing_eq_some h with ⟨rfl, rfl⟩ | h
    · exact effect_error rfl
    · exact execInsertAudit_effect h
  | createFieldLock T f lv =>
    rcases failing_eq_some h with ⟨rfl, rfl⟩ | h
    · exact effect_error rfl
    · exact execCreateFieldLock_effect h
  | deleteFieldLock T f =>
    rcases failing_eq_some h with ⟨rfl, rfl⟩ | h
    · exact effect_error rfl
    · exact execDeleteFieldLock_effect h
  | createTenant name schemaID schemaVersion => exact execCreateTenant_choice_effect h
  | commit => exact execCommit_effect h
  | rollback =>
    cases h
    exact .aborted (.inr rfl)
  | claim key =>
    obtain ⟨rfl, rfl⟩ := answer_inj h
    exact execClaim_effect
  | invalidate | publish =>
    cases h
    split
    · exact effect_error rfl
    · exact .idle rfl rfl rfl (.refl _) rfl fun ho => absurd trivial ho
  | cache o =>
    cases h
    exact .idle rfl rfl rfl (.refl _) rfl fun ho => absurd trivial ho
  | flight o =>
    obtain ⟨p, -, hp⟩ := Option.map_eq_some_iff.mp h
    cases hp
    exact .idle rfl rfl rfl (.refl _) rfl fun ho => absurd trivial ho
  | stream o =>
    obtain ⟨p, -, hp⟩ := Option.map_eq_some_iff.mp h
    cases hp
    exact effect_error rfl

/-- An operation changes the caller's transaction as `Op.stage` says, and no other. -/
theorem Effect.txs (h : Effect t s o r s') :
    s'.txs = Function.update s.txs t (o.stage t r (s.txs t)) := by
  cases h with
  | idle hdb htxs hheld hclaims hstage => rw [htxs, hstage, Function.update_eq_self]
  | staged keys hfree hadm => rfl
  | aborted ho => rcases ho with rfl | rfl <;> rfl
  | committed tx htx => rfl

/-- Only a commit changes the tables. -/
theorem Effect.db (h : Effect t s o r s') :
    s'.db = s.db ∨ ∃ tx, o = .commit ∧ s.txs t = some tx ∧ s'.db = tx.apply s.db := by
  cases h with
  | idle hdb htxs hheld hclaims hstage => exact .inl hdb
  | staged keys hfree hadm => exact .inl rfl
  | aborted ho => exact .inl rfl
  | committed tx htx => exact .inr ⟨tx, rfl, htx, rfl⟩

/-- Claims are kept. -/
theorem Effect.claims (h : Effect t s o r s') : s.claims ⊆ s'.claims := by
  cases h with
  | idle hdb htxs hheld hclaims hstage => exact hclaims
  | staged keys hfree hadm => exact .refl _
  | aborted ho => exact .refl _
  | committed tx htx => exact .refl _

/-- Other operations leave alone what is kept next to the store. -/
theorem Effect.aside (h : Effect t s o r s') (ho : ¬ o.Aside) : s.SameAside s' := by
  cases h with
  | idle hdb htxs hheld hclaims hstage haside => exact haside ho
  | staged keys hfree hadm => exact ⟨rfl, rfl, rfl⟩
  | aborted ho => exact ⟨rfl, rfl, rfl⟩
  | committed tx htx => exact ⟨rfl, rfl, rfl⟩

/-- **What is published changes by a publish only.** -/
theorem exec_published (h : exec ch t o s = some (r, s')) : s'.published = s.published ∨
      ∃ ev, o = .publish ev ∧ ch ≠ .fail ∧ s'.published = s.published ++ [ev] := by
  cases o with
  | publish ev =>
    cases h
    split
    · exact .inl rfl
    · rename_i hch
      exact .inr ⟨ev, rfl, hch, rfl⟩
  | invalidate T =>
    cases h
    split <;> exact .inl rfl
  | cache o =>
    cases h
    exact .inl rfl
  | flight o =>
    obtain ⟨p, -, hp⟩ := Option.map_eq_some_iff.mp h
    cases hp
    exact .inl rfl
  | _ => exact .inl ((exec_effect h).aside id).published

/-! ### Consistency -/

/-- **A consistent state**: locks have one holder; a version that is being written holds
the slot of its number, which no committed version has, and its tenant exists; a tenant
that is being created is new; and only tenants have config. -/
structure Consistent (s : State) : Prop where
  exclusive : ∀ k t u, (k, t) ∈ s.held → (k, u) ∈ s.held → t = u
  pending : ∀ t tx T V, s.txs t = some tx → tx.version = some (T, V) →
    (LockKey.versionSlot T V.version, t) ∈ s.held ∧
      V.version ∉ versionNumbers (s.db.log T) ∧ V.writer = t ∧ T ∈ (tx.apply s.db).tenantIDs
  newTenant : ∀ t tx tn, s.txs t = some tx → tx.tenant = some tn →
    (LockKey.tenantID tn.id, t) ∈ s.held ∧ tn.id ∉ s.db.tenantIDs
  tenanted : ∀ T, s.db.log T ≠ [] → T ∈ s.db.tenantIDs

@[simp] theorem Tx.apply_log (tx : Tx) (db : Tables) (T : String) :
    (tx.apply db).log T = db.log T ++ tx.added T := rfl

/-- A commit adds the tenant. -/
theorem Tx.tenantIDs_apply (tx : Tx) (db : Tables) :
    (tx.apply db).tenantIDs = db.tenantIDs ++ tx.tenant.toList.map Tenant.id := by
  simp [Tables.tenantIDs, Tx.apply]

/-- The version that a commit adds. -/
theorem Tx.mem_added {V : ConfigVersion} : V ∈ tx.added T ↔ tx.version = some (T, V) := by
  rcases hv : tx.version with _ | ⟨T', V'⟩
  · simp [Tx.added, hv]
  · by_cases hT : T' = T
    · simp [Tx.added, hv, hT, eq_comm]
    · simp [Tx.added, hv, hT]

/-- Rows are added to the open version. -/
theorem Tx.addRows_eq_some (h : tx.addRows rows = some tx') :
    ∃ T V V', tx.version = some (T, V) ∧ V'.version = V.version ∧ V'.writer = V.writer ∧
      V'.values = V.values ++ rows ∧ V'.description = V.description ∧
      V'.createdBy = V.createdBy ∧ tx' = { tx with version := some (T, V') } := by
  rcases hv : tx.version with _ | ⟨T, V⟩
  · simp [Tx.addRows, hv] at h
  · simp only [Tx.addRows, hv] at h
    split at h
    · rename_i hnd
      exact ⟨T, V, { V with values := V.values ++ rows, nodup := hnd }, rfl, rfl, rfl, rfl,
        rfl, rfl, (Option.some.inj h).symm⟩
    · cases h

inductive Staged (t : ℕ) (before : Option Tx) : (o : Op) → o.Resp → Tx → Prop
  /-- A new transaction. -/
  | opened {u : Unit} : Staged t before .begin (.ok u) {}
  /-- Neither its version nor its tenant changes. -/
  | aside {o : Op} {r : o.Resp} {tx tx' : Tx} (htx : before = some tx)
      (hversion : tx'.version = tx.version) (htenant : tx'.tenant = tx.tenant) :
      Staged t before o r tx'
  /-- It creates a version. -/
  | created {p : CreateConfigVersionParams} {v : ℤ} {tx : Tx} (htx : before = some tx) :
      Staged t before (.createConfigVersion p) (.ok v) { tx with
        version := some (p.tenantID, ⟨p.version, p.description, p.createdBy, [], t, by simp⟩) }
  /-- It adds rows to its version. -/
  | filled {rows : List ConfigValue} {u : Unit} {tx tx' : Tx} (htx : before = some tx)
      (hrows : tx.addRows rows = some tx') : Staged t before (.setConfigValues rows) (.ok u) tx'
  /-- It creates a tenant. -/
  | tenant {name schemaID : String} {v : ℤ} {tn : Tenant} {tx : Tx} (htx : before = some tx) :
      Staged t before (.createTenant name schemaID v) (.ok tn) { tx with tenant := some tn }

/-- What a statement stages. -/
theorem stage_eq_some {before : Option Tx} (h : o.stage t r before = some tx') :
    Staged t before o r tx' := by
  cases before with
  | none =>
    -- only `begin` opens a transaction
    cases o with
    | begin =>
      cases r with
      | error e => simp [Op.stage] at h
      | ok u => exact Option.some.inj h ▸ .opened
    | read | createConfigVersion | setConfigValues | insertAudit | createFieldLock
    | createTenant | claim =>
      cases r <;> simp [Op.stage] at h
    | deleteFieldLock => rcases r with _ | _ | _ <;> simp [Op.stage] at h
    | commit | rollback | invalidate | publish | cache | flight | stream =>
      simp [Op.stage] at h
  | some tx =>
    cases o with
    | begin =>
      cases r with
      | error e => exact .aside rfl (by rw [Option.some.inj h]) (by rw [Option.some.inj h])
      | ok u => exact Option.some.inj h ▸ .opened
    | createConfigVersion p =>
      cases r with
      | error e => exact .aside rfl (by rw [Option.some.inj h]) (by rw [Option.some.inj h])
      | ok v => exact Option.some.inj h ▸ .created rfl
    | setConfigValues rows =>
      cases r with
      | error e => exact .aside rfl (by rw [Option.some.inj h]) (by rw [Option.some.inj h])
      | ok u => exact .filled rfl h
    | createTenant name schemaID v =>
      cases r with
      | error e => exact .aside rfl (by rw [Option.some.inj h]) (by rw [Option.some.inj h])
      | ok tn => exact Option.some.inj h ▸ .tenant rfl
    | insertAudit | createFieldLock | read | claim =>
      cases r <;> obtain rfl := Option.some.inj h <;> exact .aside rfl rfl rfl
    | deleteFieldLock =>
      rcases r with _ | _ | _ <;> obtain rfl := Option.some.inj h <;> exact .aside rfl rfl rfl
    | invalidate | publish | cache | flight | stream =>
      cases h
      exact .aside rfl rfl rfl
    | commit | rollback => simp [Op.stage] at h

/-- Where the version of a staged transaction comes from: it was there, with the same
number, or it is new and was admitted. -/
theorem Admitted.version {r : o.Resp} {V : ConfigVersion} (hadm : Admitted s t keys o r)
    (h : o.stage t r (s.txs t) = some tx') (hV : tx'.version = some (T, V)) :
    (∃ tx V', s.txs t = some tx ∧ tx.version = some (T, V') ∧ V'.version = V.version ∧
        V'.writer = V.writer ∧ (tx.tenant = none ∨ tx'.tenant = tx.tenant)) ∨
      (V.version ∉ versionNumbers (s.db.log T) ∧ V.writer = t ∧
        LockKey.versionSlot T V.version ∈ keys ∧ T ∈ (tx'.apply s.db).tenantIDs) := by
  cases stage_eq_some h with
  | opened => simp at hV
  | aside htx hversion htenant =>
    exact .inl ⟨_, V, htx, hversion ▸ hV, rfl, rfl, .inr htenant⟩
  | @created p v tx htx =>
    cases hV
    obtain ⟨hnew, hten, hkey⟩ := hadm
    refine .inr ⟨hnew, rfl, hkey, ?_⟩
    rw [State.view_true htx] at hten
    exact hten
  | @filled rows u tx tx' htx hrows =>
    obtain ⟨T', W, W', hW, hnum, hwr, -, -, -, rfl⟩ := Tx.addRows_eq_some hrows
    cases hV
    exact .inl ⟨tx, W, htx, hW, hnum.symm, hwr.symm, .inr rfl⟩
  | @tenant name schemaID v tn tx htx =>
    obtain ⟨-, hone, -⟩ := hadm
    rw [htx] at hone
    exact .inl ⟨tx, V, htx, hV, rfl, rfl, .inl hone⟩

/-- A staged tenant is new. -/
theorem Admitted.tenant {r : o.Resp} {tn : Tenant} (hadm : Admitted s t keys o r)
    (h : o.stage t r (s.txs t) = some tx') (htn : tx'.tenant = some tn) :
    (∃ tx, s.txs t = some tx ∧ tx.tenant = some tn) ∨
      (tn.id ∉ s.db.tenantIDs ∧ LockKey.tenantID tn.id ∈ keys) := by
  cases stage_eq_some h with
  | opened => simp at htn
  | aside htx hversion htenant => exact .inl ⟨_, htx, htenant ▸ htn⟩
  | created htx => exact .inl ⟨_, htx, htn⟩
  | @filled rows u tx tx' htx hrows =>
    obtain ⟨T', W, W', hW, hnum, hwr, -, -, -, rfl⟩ := Tx.addRows_eq_some hrows
    exact .inl ⟨tx, htx, htn⟩
  | tenant htx =>
    cases htn
    exact .inr ⟨hadm.1, hadm.2.2⟩

/-- A free lock is held by nobody else. -/
theorem rival_eq_false {k : LockKey} (h : s.rival t k = false) (hu : (k, u) ∈ s.held) : u = t := by
  by_contra hne
  have : s.rival t k = true := any_eq_true.mpr ⟨(k, u), hu, by simp [hne]⟩
  rw [h] at this
  cases this

/-- A statement keeps consistency. -/
theorem Consistent.staged (hc : Consistent s) (hfree : ∀ k ∈ keys, s.rival t k = false)
    (hadm : Admitted s t keys o r) : Consistent (s.staged t o r keys) := by
  have hheld : ∀ k u, (k, u) ∈ (s.staged t o r keys).held ↔
      (k ∈ keys ∧ u = t) ∨ (k, u) ∈ s.held := by
    intro k u
    simp only [State.staged, mem_append, mem_map, Prod.mk.injEq]
    constructor
    · rintro (⟨k', hk', rfl, rfl⟩ | h)
      · exact .inl ⟨hk', rfl⟩
      · exact .inr h
    · rintro (⟨hk, rfl⟩ | h)
      · exact .inl ⟨k, hk, rfl, rfl⟩
      · exact .inr h
  refine ⟨?_, ?_, ?_, hc.tenanted⟩
  · intro k u u' hu hu'
    rcases (hheld k u).mp hu with ⟨hk, hut⟩ | hold <;>
      rcases (hheld k u').mp hu' with ⟨hk', hut'⟩ | hold'
    · rw [hut, hut']
    · rw [hut, rival_eq_false (hfree k hk) hold']
    · rw [hut', rival_eq_false (hfree k hk') hold]
    · exact hc.exclusive k u u' hold hold'
  · intro u tx' T V htx' hV
    by_cases hu : u = t
    · subst hu
      rw [State.staged_txs_self] at htx'
      rcases hadm.version htx' hV with ⟨tx, V', htx, hV', hnum, hwr, hten⟩ | ⟨hnew, hwr, hk, hT⟩
      · obtain ⟨h1, h2, h3, h4⟩ := hc.pending u tx T V' htx hV'
        refine ⟨(hheld _ _).mpr (.inr (hnum ▸ h1)), hnum ▸ h2, hwr ▸ h3, ?_⟩
        rw [Tx.tenantIDs_apply] at h4 ⊢
        rcases hten with hten | hten
        · rw [hten, Option.toList_none, map_nil, append_nil] at h4
          exact mem_append_left _ h4
        · rw [hten]
          exact h4
      · exact ⟨(hheld _ _).mpr (.inl ⟨hk, rfl⟩), hnew, hwr, hT⟩
    · rw [State.staged_txs_ne s o r keys hu] at htx'
      obtain ⟨h1, h2, h3, h4⟩ := hc.pending u tx' T V htx' hV
      exact ⟨(hheld _ _).mpr (.inr h1), h2, h3, h4⟩
  · intro u tx' tn htx' htn
    by_cases hu : u = t
    · subst hu
      rw [State.staged_txs_self] at htx'
      rcases hadm.tenant htx' htn with ⟨tx, htx, htn⟩ | ⟨hnew, hk⟩
      · obtain ⟨h1, h2⟩ := hc.newTenant u tx tn htx htn
        exact ⟨(hheld _ _).mpr (.inr h1), h2⟩
      · exact ⟨(hheld _ _).mpr (.inl ⟨hk, rfl⟩), hnew⟩
    · rw [State.staged_txs_ne s o r keys hu] at htx'
      obtain ⟨h1, h2⟩ := hc.newTenant u tx' tn htx' htn
      exact ⟨(hheld _ _).mpr (.inr h1), h2⟩

/-- Ending a transaction keeps the state consistent, when the tables it leaves do not run
into what the other transactions are writing. -/
theorem Consistent.closed (hc : Consistent s) {db : Tables}
    (hlog : ∀ T V, V ∈ db.log T → V ∈ s.db.log T ∨ (LockKey.versionSlot T V.version, t) ∈ s.held)
    (hten : ∀ id ∈ db.tenantIDs, id ∈ s.db.tenantIDs ∨ (LockKey.tenantID id, t) ∈ s.held)
    (hsub : ∀ id ∈ s.db.tenantIDs, id ∈ db.tenantIDs)
    (htenanted : ∀ T, db.log T ≠ [] → T ∈ db.tenantIDs) : Consistent (s.closed t db) := by
  have hheld : ∀ k u, (k, u) ∈ (s.closed t db).held ↔ (k, u) ∈ s.held ∧ u ≠ t := by
    intro k u
    simp [State.closed]
  have hold : ∀ u tx, (s.closed t db).txs u = some tx → u ≠ t ∧ s.txs u = some tx := by
    intro u tx h
    by_cases hu : u = t
    · subst hu
      simp at h
    · rw [State.closed_txs_ne s db hu] at h
      exact ⟨hu, h⟩
  refine ⟨?_, ?_, ?_, htenanted⟩
  · intro k u u' hu hu'
    exact hc.exclusive k u u' ((hheld k u).mp hu).1 ((hheld k u').mp hu').1
  · intro u tx T V htx hV
    obtain ⟨hu, htx⟩ := hold u tx htx
    obtain ⟨h1, h2, h3, h4⟩ := hc.pending u tx T V htx hV
    refine ⟨(hheld _ _).mpr ⟨h1, hu⟩, ?_, h3, ?_⟩
    · intro hmem
      obtain ⟨W, hW, hnum⟩ := mem_map.mp hmem
      rcases hlog T W hW with hW | hW
      · exact h2 (mem_map.mpr ⟨W, hW, hnum⟩)
      · exact hu (hc.exclusive _ u t h1 (hnum ▸ hW))
    · rw [Tx.tenantIDs_apply] at h4 ⊢
      rcases mem_append.mp h4 with h4 | h4
      · exact mem_append_left _ (hsub T h4)
      · exact mem_append_right _ h4
  · intro u tx tn htx htn
    obtain ⟨hu, htx⟩ := hold u tx htx
    obtain ⟨h1, h2⟩ := hc.newTenant u tx tn htx htn
    refine ⟨(hheld _ _).mpr ⟨h1, hu⟩, fun hmem => ?_⟩
    rcases hten tn.id hmem with hmem | hmem
    · exact h2 hmem
    · exact hu (hc.exclusive _ u t h1 hmem)

/-- Consistency is about the transactions, the locks, the logs and the identifiers of tenants. -/
theorem Consistent.congr (hc : Consistent s) (htxs : s'.txs = s.txs) (hheld : s'.held = s.held)
    (hlog : s'.db.log = s.db.log) (hids : s'.db.tenantIDs = s.db.tenantIDs) : Consistent s' := by
  refine ⟨?_, ?_, ?_, ?_⟩
  · rw [hheld]
    exact hc.exclusive
  · intro u tx T V htx hversion
    rw [htxs] at htx
    obtain ⟨hslot, hfree, hwriter, htenant⟩ := hc.pending u tx T V htx hversion
    rw [hheld, hlog]
    refine ⟨hslot, hfree, hwriter, ?_⟩
    rwa [Tx.tenantIDs_apply, hids, ← Tx.tenantIDs_apply]
  · intro u tx tn htx htn
    rw [htxs] at htx
    rw [hheld, hids]
    exact hc.newTenant u tx tn htx htn
  · intro T hT
    rw [hlog] at hT
    rw [hids]
    exact hc.tenanted T hT

/-- **Consistency is kept by every operation.** -/
theorem Consistent.exec (hc : Consistent s) (h : exec ch t o s = some (r, s')) : Consistent s' := by
  cases exec_effect h with
  | idle hdb htxs hheld hclaims hstage =>
    exact hc.congr htxs hheld (by rw [hdb]) (by rw [hdb])
  | staged keys hfree hadm => exact hc.staged hfree hadm
  | aborted ho =>
    exact hc.closed (fun T V hV => .inl hV) (fun id hid => .inl hid) (fun id hid => hid) hc.tenanted
  | committed tx htx =>
    refine hc.closed ?_ ?_ ?_ ?_
    · intro T V hV
      rcases mem_append.mp hV with hV | hV
      · exact .inl hV
      · exact .inr (hc.pending t tx T V htx (Tx.mem_added.mp hV)).1
    · intro id hid
      rw [Tx.tenantIDs_apply] at hid
      rcases mem_append.mp hid with hid | hid
      · exact .inl hid
      · obtain ⟨tn, htn, rfl⟩ := mem_map.mp hid
        exact .inr (hc.newTenant t tx tn htx (Option.mem_toList.mp htn)).1
    · intro id hid
      rw [Tx.tenantIDs_apply]
      exact mem_append_left _ hid
    · intro T hT
      by_cases hlog : s.db.log T = []
      · obtain ⟨V, hV⟩ := exists_mem_of_ne_nil _ hT
        simp only [Tx.apply, hlog, nil_append] at hV
        exact (hc.pending t tx T V htx (Tx.mem_added.mp hV)).2.2.2
      · rw [Tx.tenantIDs_apply]
        exact mem_append_left _ (hc.tenanted T hlog)

/-! ### Growth -/

/-- The committed tables only grow: logs and tenants are appended to, schemas stay. So does
what is published. -/
structure State.le (s s' : State) : Prop where
  log : ∀ T, s.db.log T <+: s'.db.log T
  tenants : s.db.tenants <+: s'.db.tenants
  schemas : s'.db.schemas = s.db.schemas
  published : s.published <+: s'.published

theorem State.le.refl (s : State) : s.le s :=
  ⟨fun _ => prefix_rfl, prefix_rfl, rfl, prefix_rfl⟩

/-- States grow along a run. -/
theorem State.le.trans {s1 s2 s3 : State} (h : s1.le s2) (h' : s2.le s3) : s1.le s3 :=
  ⟨fun T => (h.log T).trans (h'.log T), h.tenants.trans h'.tenants,
    h'.schemas.trans h.schemas, h.published.trans h'.published⟩

/-- **Every operation climbs.** -/
theorem exec_le (h : exec ch t o s = some (r, s')) : s.le s' := by
  have hpub : s.published <+: s'.published := by
    rcases exec_published h with hsame | ⟨ev, -, -, hnew⟩
    · rw [hsame]
    · exact hnew ▸ prefix_append _ _
  rcases (exec_effect h).db with hdb | ⟨tx, -, -, hdb⟩
  · exact ⟨fun T => by rw [hdb], by rw [hdb], by rw [hdb], hpub⟩
  · refine ⟨fun T => ?_, ?_, ?_, hpub⟩
    · rw [hdb]
      exact prefix_append _ _
    · rw [hdb]
      exact prefix_append _ _
    · rw [hdb]
      rfl

/-- What an operation appends to a log: nothing, or the version that it commits. -/
theorem exec_log (h : exec ch t o s = some (r, s')) (T : String) :
    s'.db.log T = s.db.log T ∨ ∃ tx V, o = .commit ∧ s.txs t = some tx ∧
      tx.version = some (T, V) ∧ s'.db = tx.apply s.db := by
  rcases (exec_effect h).db with hdb | ⟨tx, rfl, htx, hdb⟩
  · exact .inl (by rw [hdb])
  · by_cases hadd : tx.added T = []
    · refine .inl ?_
      rw [hdb, Tx.apply_log, hadd, append_nil]
    · obtain ⟨V, hV⟩ := exists_mem_of_ne_nil _ hadd
      exact .inr ⟨tx, V, rfl, htx, Tx.mem_added.mp hV, hdb⟩

/-- What a read returns: an error, or what the tables say. -/
theorem exec_read {inTx : Bool} {q : Query} {r : Op.Resp (.read inTx q)}
    (h : exec ch t (.read inTx q) s = some (r, s')) :
    r = .error .failed ∨ r = (s.view inTx t).eval q := by
  rcases failing_eq_some h with ⟨rfl, -⟩ | h
  · exact .inl rfl
  · exact .inr (answer_inj h).1.symm

/-- The number that was asked for is returned. -/
theorem exec_createConfigVersion {v : ℤ}
    (h : exec ch t (.createConfigVersion p) s = some ((.ok v : Except StoreErr ℤ), s')) :
    v = p.version := by
  rcases failing_eq_some h with ⟨hfail, -⟩ | h
  · cases hfail
  · simp only [execCreateConfigVersion] at h
    split at h
    · cases (answer_inj h).1
    · split at h
      · cases h
      · split at h
        · exact (Except.ok.inj (answer_inj h).1).symm
        · cases (answer_inj h).1

/-- The tenant that was asked for is returned. -/
theorem exec_createTenant {tn : Tenant}
    (h : exec ch t (.createTenant name schemaID schemaVersion) s =
      some ((.ok tn : Except StoreErr Tenant), s')) :
    isUUID tn.id = true ∧ tn = ⟨tn.id, name, schemaID, schemaVersion, false⟩ := by
  cases ch with
  | uuid id =>
    have hexec : execCreateTenant t name schemaID schemaVersion id s =
        some ((.ok tn : Except StoreErr Tenant), s') := h
    simp only [execCreateTenant] at hexec
    split at hexec
    · cases hexec
    · rename_i hid
      split at hexec
      · cases (answer_inj hexec).1
      · split at hexec
        · cases hexec
        · split at hexec
          · cases (answer_inj hexec).1
          · obtain rfl := Except.ok.inj (answer_inj hexec).1
            exact ⟨by simpa using hid, rfl⟩
  | ok | fail | lost | expired =>
    have hexec : (some ((.error .failed : Except StoreErr Tenant), s)) =
        some ((.ok tn : Except StoreErr Tenant), s') := h
    cases (answer_inj hexec).1

/-- A claim of a cache that is reachable and keeps its keys: the key was taken, or is now. -/
theorem exec_claim {r : Except StoreErr Bool} (h : exec ch t (.claim key) s = some (r, s'))
    (hch : ch ≠ .fail ∧ ch ≠ .lost ∧ ch ≠ .expired) :
    (key ∈ s.claims ∧ r = .ok false) ∨ (key ∉ s.claims ∧ key ∈ s'.claims ∧ r = .ok true) := by
  have hclaim : execClaim ch key s = (r, s') := Option.some.inj h
  cases ch with
  | fail => exact absurd rfl hch.1
  | lost => exact absurd rfl hch.2.1
  | expired => exact absurd rfl hch.2.2
  | ok | uuid =>
    simp only [execClaim] at hclaim
    split at hclaim
    · rename_i hmem
      exact .inl ⟨hmem, (Prod.mk.inj hclaim).1.symm⟩
    · rename_i hmem
      cases hclaim
      exact .inr ⟨hmem, mem_cons_self, rfl⟩

/-- A commit that succeeds is applied. -/
theorem exec_commit (h : exec ch t .commit s = some ((.ok () : Except StoreErr Unit), s')) :
    ∃ tx, s.txs t = some tx ∧ s'.db = tx.apply s.db := by
  have hcommit : execCommit ch t s = some ((.ok () : Except StoreErr Unit), s') := h
  simp only [execCommit] at hcommit
  split at hcommit
  · cases (answer_inj hcommit).1
  · rename_i tx htx
    refine ⟨tx, htx, ?_⟩
    split at hcommit
    · cases (answer_inj hcommit).1
    · cases (answer_inj hcommit).1
    · rw [← (answer_inj hcommit).2]
      rfl

/-- A commit that does not fail applies the transaction, whatever its answer. -/
theorem exec_commit_applied {r : Except StoreErr Unit} (h : exec ch t .commit s = some (r, s'))
    (htx : s.txs t = some tx) (hch : ch ≠ .fail) : s'.db = tx.apply s.db := by
  have hcommit : execCommit ch t s = some (r, s') := h
  cases ch with
  | fail => exact absurd rfl hch
  | ok | lost | uuid | expired =>
    simp only [execCommit, htx] at hcommit
    rw [← (answer_inj hcommit).2]
    rfl

end Decree
