import Decree.Alone
import Decree.CacheContents

/-!
# Shared Fetches and Cancelled Callers

Concurrent `GetConfig` calls that miss the cache share one fetch. It runs under the context of
the call that leads it: when that call is cancelled its reads fail, and the error is handed to
every call that has joined. It cannot happen when no call is cancelled while it leads a fetch.

The calls here read a store that does not change and that fails a read only for a call that has
been cancelled. The caches may fail, and their entries may expire, at any time. The proof follows
each call through its **phases**: before the fetch, leading one, having joined one, and past it.

## Main results

* `Sharing.preserved`: the invariant.
* `getConfig_independent`: callers are independent.
-/

open Go Interleave List

namespace Decree

variable {ε α β : Type} {env : Env} {db : Tables} {s s' : State} {t : ℕ} {ch : Choice}
  {p : Prog Op.Resp α} {x : Proc ε α} {key : String × ℤ} {T : String} {o : Op} {fs : List Flight}
  {c : System}

/-! ### What the store answers -/

/-- The answers of the store when nothing is cached and no fetch is under way. -/
def storeAnswer (db : Tables) : (o : Op) → o.Resp
  | .read _ q => db.eval q
  | .begin | .setConfigValues _ | .insertAudit _ | .createFieldLock _ _ _ | .commit
  | .createConfigVersion _ | .deleteFieldLock _ _ | .createTenant _ _ _ | .claim _ =>
    .error .failed
  | .rollback | .invalidate _ | .publish _ => ()
  | .cache (.get _ _) => .ok none
  | .cache (.getNegative _ _) => .ok false
  | .cache (.set _ _ _) | .cache (.setNegative _ _) => ()
  | .flight (.join _) => none
  | .flight (.land _ _) => ()
  | .flight (.await _ _) => .error (internal "failed to get config")
  | .stream (.subscribe _) | .stream (.send _) => .error .failed
  | .stream (.receive _ _) => none

/-- What a procedure returns on these answers. -/
def storeResult (db : Tables) (x : Proc ε α) : Except ε α :=
  x.run.eval (storeAnswer db)

/-- What a fetch of a version returns. -/
def fetchResult (db : Tables) (key : String × ℤ) : Except Status CachedValues :=
  storeResult db (fetchAndCacheConfig key.1 key.2)

/-- **The answer agrees with the store**: a read is answered from the tables, and what the
caches and a flight give is what a fetch returns. -/
def Agrees (db : Tables) : (o : Op) → o.Resp → Prop
  | .read _ q, r => r = db.eval q
  | .cache (.get T v), r => ∀ values, r = .ok (some values) → fetchResult db (T, v) = .ok values
  | .cache (.getNegative T v), r => r = .ok true → fetchResult db (T, v) = .ok []
  | .flight (.await _ key), r => r = fetchResult db key
  | _, _ => True

/-- The result of two parts, from the store. -/
theorem storeResult_bind (x : Proc ε α) (f : α → Proc ε β) :
    storeResult db (x >>= f) = storeResult db x >>= fun a => storeResult db (f a) := by
  rw [storeResult, ExceptT.run_bind, Prog.eval_bind]
  change _ = Except.bind (x.run.eval _) _
  cases x.run.eval (storeAnswer db) <;> rfl

/-! ### Results that are settled -/

/-- **The result is settled**: answers that agree with the store lead to the store's. -/
def Settled (db : Tables) (x : Proc ε α) : Prop :=
  Yields (Agrees db) x.run (storeResult db x)

/-- A program that reads yields the store's values. -/
theorem Reading.yields (hp : Avoids (fun o => ¬ o.IsRead) p) :
    Yields (Agrees db) p (p.eval (storeAnswer db)) := by
  induction p with
  | ret a => rfl
  | op o k ih =>
    obtain ⟨hread, hk⟩ := avoids_op.mp hp
    cases o with
    | read inTx q =>
      rintro r rfl
      exact ih _ (hk _)
    | _ => exact absurd id hread

/-- A program that reads is settled by the store. -/
theorem Reading.settled (hx : Reading x) : Settled db x := Reading.yields hx

variable {f : α → Proc ε β} {ph : FetchPhase}

/-- Two settled parts are settled. -/
theorem Settled.bind (hx : Settled db x) (hf : ∀ a, Settled db (f a)) : Settled db (x >>= f) := by
  rw [Settled, ExceptT.run_bind, storeResult_bind]
  refine Yields.bind hx ?_
  cases storeResult db x with
  | error e => rfl
  | ok a => exact hf a

/-- A lookup gives what the store has. -/
theorem storeResult_cachedConfig (T : String) (v : ℤ) :
    storeResult db (cachedConfig T v) = fetchResult db (T, v) := by
  have hlead : storeResult db (leadFetch T v) = fetchResult db (T, v) := by
    rw [storeResult, leadFetch]
    exact Prog.eval_bind _ _ _
  exact hlead

theorem settled_tell (o : Op) : Settled db (tell o : Proc ε Unit) := fun _ _ => rfl

/-- A fetch is settled by the store. -/
theorem settled_fetchAndCacheConfig (T : String) (v : ℤ) : Settled db (fetchAndCacheConfig T v) :=
  (reading_fetch _ _ _).settled.bind fun _ =>
    (plain_getSchemaFieldSets T).reading.settled.bind fun _ =>
      (settled_tell _).bind fun _ => Reading.settled trivial

/-- A shared fetch yields what the store has. -/
theorem yields_sharedFetch (T : String) (v : ℤ) :
    Yields (Agrees db) (sharedFetch T v).run (fetchResult db (T, v)) := by
  intro leader _
  cases leader with
  | some u => exact fun _ hr => hr
  | none =>
    change Yields _ (leadFetch T v).run _
    exact Yields.bind (settled_fetchAndCacheConfig T v) fun _ _ => rfl

/-- A lookup past the negative entries does. -/
theorem yields_lookNegative (T : String) (v : ℤ) :
    Yields (Agrees db) (lookNegative T v).run (fetchResult db (T, v)) := by
  intro r hr
  rcases r with e | _ | _
  · exact yields_sharedFetch T v
  · exact yields_sharedFetch T v
  · exact (hr rfl).symm

/-- A lookup is settled by the store. -/
theorem settled_cachedConfig (T : String) (v : ℤ) : Settled db (cachedConfig T v) := by
  rw [Settled, storeResult_cachedConfig]
  intro r hr
  rcases r with e | _ | values
  · exact yields_lookNegative T v
  · exact yields_lookNegative T v
  · exact (hr values rfl).symm

/-- **`GetConfig` is settled by the store.** -/
theorem settled_getConfig (caller : Caller) (req : GetConfigRequest) :
    Settled db (getConfig env caller req) := by
  refine (Reading.settled (x := ofExcept _) trivial).bind fun _ =>
    (plain_resolveTenantWithAccess env caller _ _).reading.settled.bind fun T =>
      (plain_resolveRequested _).reading.settled.bind fun v =>
        (plain_fieldTypeMap env id T).reading.settled.bind fun types => ?_
  split
  · exact (reading_fetch _ _ _).settled.bind fun _ =>
      (plain_getSchemaFieldSets T).reading.settled.bind fun _ => Reading.settled trivial
  · exact (settled_cachedConfig T v).bind fun _ => Reading.settled trivial

/-! ### Phases -/

/-- **Where a call stands**: before the fetch of its version, leading one, having joined one, or
past it. -/
inductive FetchPhase where
  | before
  | leading (key : String × ℤ)
  | joined (leader : ℕ) (key : String × ℤ)
  | after

/-- The call may return: it neither leads a fetch nor waits for one. -/
def FetchPhase.Idle : FetchPhase → Prop
  | before | after => True
  | leading _ | joined _ _ => False

/-- The operation looks something up, or caches what a fetch returns. -/
def Op.Looks (db : Tables) : Op → Prop
  | read _ _ => True
  | cache (.get _ _) | cache (.getNegative _ _) => True
  | cache (.set T v values) => fetchResult db (T, v) = .ok values
  | cache (.setNegative T v) => fetchResult db (T, v) = .ok []
  | _ => False

/-- **What a call does next fits its phase.** Before the fetch it looks things up and joins; a
leader looks things up, is answered as the store would, and lands what a fetch returns; a call
that has joined waits for its leader. -/
inductive Follows (db : Tables) : FetchPhase → Prog Op.Resp α → Prop
  | ret {ph : FetchPhase} {a : α} (hph : ph.Idle) : Follows db ph (.ret a)
  | look {ph : FetchPhase} {o : Op} {k : o.Resp → Prog Op.Resp α} (ho : o.Looks db)
      (h : ∀ r, ((∃ key, ph = .leading key) → Agrees db o r) → Follows db ph (k r)) :
      Follows db ph (.op o k)
  | join {key : String × ℤ} {k : Option ℕ → Prog Op.Resp α}
      (hjoin : ∀ u, Follows db (.joined u key) (k (some u)))
      (hlead : Follows db (.leading key) (k none)) :
      Follows db .before (.op (.flight (.join key)) k)
  | await {u : ℕ} {key : String × ℤ} {k : Except Status CachedValues → Prog Op.Resp α}
      (h : ∀ r, Follows db .after (k r)) :
      Follows db (.joined u key) (.op (.flight (.await u key)) k)
  | land {key : String × ℤ} {result : Except Status CachedValues} {k : Unit → Prog Op.Resp α}
      (hres : result = fetchResult db key) (h : Follows db .after (k ())) :
      Follows db (.leading key) (.op (.flight (.land key result)) k)

/-- Reads keep the phase. -/
theorem Follows.reading {f : α → Prog Op.Resp β} (hp : Avoids (fun o => ¬ o.IsRead) p)
    (hf : ∀ a, Follows db ph (f a)) : Follows db ph (p >>= f) := by
  induction p with
  | ret a => exact hf a
  | op o k ih =>
    obtain ⟨hread, hk⟩ := avoids_op.mp hp
    cases o with
    | read inTx q => exact .look trivial fun r _ => ih r (hk r)
    | _ => exact absurd id hread

/-- Reads of a leader, which are answered as the store would. -/
theorem Follows.leading_reading {f : α → Prog Op.Resp β} (hp : Avoids (fun o => ¬ o.IsRead) p)
    (hf : Follows db (.leading key) (f (p.eval (storeAnswer db)))) :
    Follows db (.leading key) (p >>= f) := by
  induction p with
  | ret a => exact hf
  | op o k ih =>
    obtain ⟨hread, hk⟩ := avoids_op.mp hp
    cases o with
    | read inTx q =>
      refine .look trivial fun r hr => ?_
      obtain rfl : r = db.eval q := hr ⟨key, rfl⟩
      exact ih _ (hk _) hf
    | _ => exact absurd id hread

/-- Reads before the flight. -/
theorem Follows.bind_reading (hx : Reading x) (hf : ∀ a, Follows db .before (f a).run) :
    Follows db .before (x >>= f).run := by
  rw [ExceptT.run_bind]
  refine .reading hx ?_
  rintro (e | a)
  · exact .ret trivial
  · exact hf a

/-- Reads of a leader. -/
theorem Follows.leading_bind_reading {γ : Type} {g : Except ε β → Prog Op.Resp γ} (hx : Reading x)
    (hok : ∀ a, storeResult db x = .ok a → Follows db (.leading key) ((f a).run >>= g))
    (herror : ∀ e, storeResult db x = .error e → Follows db (.leading key) (g (.error e))) :
    Follows db (.leading key) ((x >>= f).run >>= g) := by
  rw [ExceptT.run_bind, Prog.bind_assoc]
  refine .leading_reading hx ?_
  change Follows db _ ((match storeResult db x with
    | .ok a => (f a).run
    | .error e => pure (.error e)) >>= g)
  cases h : storeResult db x with
  | ok a => exact hok a h
  | error e => exact herror e h

variable {g : Except Status CachedValues → Prog Op.Resp α} {u : ℕ} {r : o.Resp} {v : ℤ}

/-- The fetch of a leader caches and hands on what a fetch returns. -/
theorem follows_fetchAndCacheConfig
    (hg : Follows db (.leading (T, v)) (g (fetchResult db (T, v)))) :
    Follows db (.leading (T, v)) ((fetchAndCacheConfig T v).run >>= g) := by
  refine .leading_bind_reading (reading_fetch _ _ _) (fun rows hrows => ?_) fun e he => ?_
  · refine .leading_bind_reading (plain_getSchemaFieldSets T).reading
      (fun fields hfields => ?_) fun e he => ?_
    · have hres : fetchResult db (T, v) = .ok (cachedValues fields rows) := by
        rw [fetchResult, fetchAndCacheConfig, storeResult_bind, hrows]
        change storeResult db (getSensitiveFieldSet T >>= _) = _
        rw [storeResult_bind, hfields]
        rfl
      rw [hres] at hg
      refine .look ?_ fun _ _ => hg
      by_cases hnil : cachedValues fields rows = []
      · rw [if_pos hnil]
        exact hres.trans (by rw [hnil])
      · rw [if_neg hnil]
        exact hres
    · rw [fetchResult, fetchAndCacheConfig, storeResult_bind, hrows] at hg
      change Follows db _ (g (storeResult db (getSensitiveFieldSet T >>= _))) at hg
      rw [storeResult_bind, he] at hg
      exact hg
  · rw [fetchResult, fetchAndCacheConfig, storeResult_bind, he] at hg
    exact hg

/-- A lookup goes through the phases. -/
theorem follows_cachedConfig
    (hbefore : ∀ r, Follows db .before (g r)) (hafter : ∀ r, Follows db .after (g r)) :
    Follows db .before ((cachedConfig T v).run >>= g) := by
  have hshared : Follows db .before ((sharedFetch T v).run >>= g) := by
    refine .join (fun u => .await hafter) ?_
    change Follows db _ ((leadFetch T v).run >>= g)
    rw [leadFetch, ExceptT.run_mk, Prog.bind_assoc]
    exact follows_fetchAndCacheConfig (.land rfl (hafter _))
  have hnegative : Follows db .before ((lookNegative T v).run >>= g) := by
    refine .look trivial fun r _ => ?_
    rcases r with e | _ | _
    · exact hshared
    · exact hshared
    · exact hbefore _
  refine .look trivial fun r _ => ?_
  rcases r with e | _ | values
  · exact hnegative
  · exact hnegative
  · exact hbefore _

/-- `GetConfig` goes through the phases. -/
theorem follows_getConfig (caller : Caller) (req : GetConfigRequest) :
    Follows db .before (getConfig env caller req).run := by
  refine .bind_reading (x := ofExcept _) trivial fun _ =>
    .bind_reading (plain_resolveTenantWithAccess env caller _ _).reading fun T =>
      .bind_reading (plain_resolveRequested _).reading fun v =>
        .bind_reading (plain_fieldTypeMap env id T).reading fun types => ?_
  split
  · exact .bind_reading (reading_fetch _ _ _) fun _ =>
      .bind_reading (plain_getSchemaFieldSets T).reading fun _ => .ret trivial
  · rw [ExceptT.run_bind]
    refine follows_cachedConfig ?_ ?_
    · rintro (e | values)
      · exact .ret trivial
      · exact .ret trivial
    · rintro (e | values)
      · exact .ret trivial
      · exact .ret trivial

/-! ### The invariant -/

/-- **The phase fits the flights**: a leader has one flight, which is under way; a call that has
joined has a flight to wait for; past the fetch all flights of the call have landed. -/
def FetchPhase.Fits (t : ℕ) (fs : List Flight) : FetchPhase → Prop
  | before => ∀ f ∈ fs, f.leader ≠ t
  | leading key =>
    (∃ f ∈ fs, f.leader = t ∧ f.result = none) ∧ ∀ f ∈ fs, f.leader = t → f.key = key
  | joined u key => (∃ f ∈ fs, f.leader = u ∧ f.key = key) ∧ ∀ f ∈ fs, f.leader ≠ t
  | after => ∀ f ∈ fs, f.leader = t → f.result.isSome

/-- **The state agrees with the store**: no transaction is open, and what is cached and what has
landed is what a fetch returns. -/
structure Coherent (db : Tables) (s : State) : Prop where
  db_eq : s.db = db
  txs : ∀ t, s.txs t = none
  held : ∀ T v values, s.Holds T v values → fetchResult db (T, v) = .ok values
  landed : ∀ f ∈ s.flights, ∀ r, f.result = some r → r = fetchResult db f.key

/-- The state agrees with the store, and every call is in a phase. -/
structure Sharing (db : Tables) (c : System) : Prop where
  coherent : Coherent db c.shared
  phases : ∀ t, ∃ ph : FetchPhase, Follows db ph (c.pool t).prog ∧ ph.Fits t c.shared.flights

/-- An answer agrees with the store, unless a read fails. -/
theorem Coherent.agrees (hco : Coherent db s) (ho : o.Looks db ∨ ∃ f, o = .flight f)
    (hfail : ch = .fail → ∃ co, o = .cache co) (he : exec ch t o s = some (r, s')) :
    Agrees db o r := by
  cases o with
  | read inTx q =>
    have hch : ch ≠ .fail := by
      intro h
      obtain ⟨co, hco⟩ := hfail h
      cases hco
    rw [exec, failing, if_neg hch, view_of_none (hco.txs t), hco.db_eq] at he
    exact (congrArg Prod.fst (Option.some.inj he)).symm
  | cache co =>
    cases co with
    | get T v =>
      rintro values rfl
      exact hco.held T v values (holds_of_get he)
    | getNegative T v =>
      rintro rfl
      exact hco.held T v [] (holds_of_getNegative he)
    | _ => exact trivial
  | flight fo =>
    cases fo with
    | await u key =>
      obtain ⟨p, hp, hp'⟩ := Option.map_eq_some_iff.mp he
      obtain ⟨r', hr', rfl⟩ := Option.map_eq_some_iff.mp hp
      cases hp'
      obtain ⟨f, hf, hres⟩ := Option.bind_eq_some_iff.mp hr'
      have hkey := find?_some hf
      rw [decide_eq_true_eq] at hkey
      rw [← hkey.2]
      exact hco.landed f (mem_of_find?_eq_some hf) _ hres
    | _ => exact trivial
  | _ =>
    rcases ho with ho | ⟨f, hf⟩
    · exact absurd ho id
    · cases hf

/-- A look keeps the caches coherent. -/
theorem Coherent.look (hco : Coherent db s) (ho : o.Looks db)
    (he : exec ch t o s = some (r, s')) : Coherent db s' ∧ s'.flights = s.flights := by
  cases o with
  | read inTx q =>
    have hs : s' = s := by
      rw [exec, failing] at he
      split at he <;> exact (congrArg Prod.snd (Option.some.inj he)).symm
    rw [hs]
    exact ⟨hco, rfl⟩
  | cache co =>
    have hheld : ∀ T v values, s'.Holds T v values →
        s.Holds T v values ∨ Caches T v values (.cache co) := fun _ _ _ => exec_holds he
    cases he
    refine ⟨⟨hco.db_eq, hco.txs, fun T v values h => ?_, hco.landed⟩, rfl⟩
    rcases hheld T v values h with hold | hset | ⟨hset, rfl⟩ | hland
    · exact hco.held T v values hold
    · cases hset
      exact ho
    · cases hset
      exact ho
    · cases hland
  | _ => exact absurd ho id

/-- Flights that land what the store has. -/
theorem Coherent.withFlights (hco : Coherent db s)
    (h : ∀ f ∈ fs, ∀ r, f.result = some r → r = fetchResult db f.key) :
    Coherent db { s with flights := fs } := by
  refine ⟨hco.db_eq, hco.txs, fun T v values hheld => ?_, h⟩
  cases hheld with
  | entry hmem => exact hco.held T v values (.entry hmem)
  | negative hmem => exact hco.held T v [] (.negative hmem)
  | landed hf hkey hres => exact hkey ▸ (h _ hf _ hres).symm

/-- The phase of a call fits on when its own flights stay and none goes. -/
theorem FetchPhase.Fits.mono {fs' : List Flight} (h : ph.Fits u fs)
    (hown : ∀ f ∈ fs', f.leader = u → f ∈ fs)
    (hkept : ∀ f ∈ fs, ∃ f' ∈ fs', f'.leader = f.leader ∧ f'.key = f.key ∧
      (f.leader = u → f' = f)) : ph.Fits u fs' := by
  cases ph with
  | before => exact fun f hf hu => h f (hown f hf hu) hu
  | leading key =>
    obtain ⟨⟨f, hf, hlead, hres⟩, hkeys⟩ := h
    obtain ⟨f', hf', -, -, heq⟩ := hkept f hf
    obtain rfl := heq hlead
    exact ⟨⟨f', hf', hlead, hres⟩, fun f hf hu => hkeys f (hown f hf hu) hu⟩
  | joined v key =>
    obtain ⟨⟨f, hf, hlead, hkey⟩, hnone⟩ := h
    obtain ⟨f', hf', hlead', hkey', -⟩ := hkept f hf
    exact ⟨⟨f', hf', hlead'.trans hlead, hkey'.trans hkey⟩,
      fun f hf hu => hnone f (hown f hf hu) hu⟩
  | after => exact fun f hf hu => h f (hown f hf hu) hu

/-- The flight of another call. -/
theorem FetchPhase.Fits.cons (h : ph.Fits u fs) {f : Flight} (hf : f.leader ≠ u) :
    ph.Fits u (f :: fs) := by
  refine h.mono ?_ fun f' hf' => ⟨f', mem_cons_of_mem _ hf', rfl, rfl, fun _ => rfl⟩
  intro f' hf' hu
  rcases mem_cons.mp hf' with rfl | hf'
  · exact absurd hu hf
  · exact hf'

/-- The flights after a call has landed its own. -/
def landFlight (t : ℕ) (key : String × ℤ) (result : Except Status CachedValues) (f : Flight) :
    Flight :=
  if f.leader = t ∧ f.key = key then { f with result := some result } else f

/-- The landing of another call. -/
theorem FetchPhase.Fits.map_land (h : ph.Fits u fs) (hu : u ≠ t) (key : String × ℤ)
    (result : Except Status CachedValues) : ph.Fits u (fs.map (landFlight t key result)) := by
  have hother : ∀ f : Flight, f.leader = u → landFlight t key result f = f := by
    intro f hf
    exact if_neg fun hown => hu (hf.symm.trans hown.1)
  refine h.mono ?_ ?_
  · intro f' hf' hlead
    obtain ⟨f, hf, rfl⟩ := mem_map.mp hf'
    have hsame : (landFlight t key result f).leader = f.leader := by
      rw [landFlight]
      split <;> rfl
    rw [hother f (hsame.symm.trans hlead)]
    exact hf
  · intro f hf
    refine ⟨_, mem_map_of_mem hf, ?_, ?_, hother f⟩
    · rw [landFlight]
      split <;> rfl
    · rw [landFlight]
      split <;> rfl

/-! ### Steps -/

/-- The call's next operation is one of the cache. -/
def nextIsCache (c : System) (t : ℕ) : Bool :=
  match (c.pool t).prog with
  | .op (.cache _) _ => true
  | _ => false

/-- The call **leads** a fetch that is under way. -/
def Leads (s : State) (t : ℕ) : Prop :=
  ∃ f ∈ s.flights, f.leader = t ∧ f.result.isNone

instance : Decidable (Leads s t) :=
  inferInstanceAs (Decidable (∃ f ∈ s.flights, _))

/-- **Reads fail for cancelled calls only**; operations of the cache may fail for any. -/
def Cancelling (cancelled : ℕ → Bool) (c : System) (t : ℕ) (ch : Choice) : Prop :=
  ch = .fail → nextIsCache c t = true ∨ cancelled t = true

instance (cancelled : ℕ → Bool) : Decidable (Cancelling cancelled c t ch) :=
  inferInstanceAs (Decidable (_ → _))

/-- **No read fails for a leader**: a call is not cancelled while it leads a fetch. -/
def LeadersKept (cancelled : ℕ → Bool) (c : System) (t : ℕ) (ch : Choice) : Prop :=
  Cancelling cancelled c t ch ∧ (ch = .fail → nextIsCache c t = true ∨ ¬ Leads c.shared t)

instance (cancelled : ℕ → Bool) : Decidable (LeadersKept cancelled c t ch) :=
  instDecidableAnd

/-- The next operation is one of the cache. -/
theorem exists_cache_of_nextIsCache {k : o.Resp → Prog Op.Resp (Except Status Reply)}
    (hp : (c.pool t).prog = .op o k) (h : nextIsCache c t = true) : ∃ co, o = .cache co := by
  rw [nextIsCache, hp] at h
  cases o with
  | cache co => exact ⟨co, rfl⟩
  | _ => cases h

/-- **A step preserves the invariant** when no read of a leader fails. -/
theorem Sharing.preserved {cancelled : ℕ → Bool} {c' : System} (hc : Sharing db c)
    (ha : LeadersKept cancelled c t ch) (hs : step exec c t ch = some c') : Sharing db c' := by
  obtain ⟨o, k, r, hp, he, hpool⟩ := step_eq_some hs
  obtain ⟨ph, hfol, hfits⟩ := hc.phases t
  rw [hp] at hfol
  -- It is enough to give the phase of the call and to see that those of the others fit on.
  have hassemble : Coherent db c'.shared →
      (∃ ph, Follows db ph (k r) ∧ ph.Fits t c'.shared.flights) →
      (∀ (u : ℕ) (ph : FetchPhase), u ≠ t → ph.Fits u c.shared.flights →
        ph.Fits u c'.shared.flights) → Sharing db c' := by
    intro hco hown hothers
    refine ⟨hco, fun u => ?_⟩
    rw [hpool]
    by_cases hu : u = t
    · subst hu
      rw [Function.update_self]
      exact hown
    · rw [Function.update_of_ne hu]
      obtain ⟨ph, hfol, hfits⟩ := hc.phases u
      exact ⟨ph, hfol, hothers u ph hu hfits⟩
  cases hfol with
  | look ho hk =>
    obtain ⟨hco, hflights⟩ := hc.coherent.look ho he
    refine hassemble hco ⟨ph, hk r ?_, hflights ▸ hfits⟩ fun u ph _ h => hflights ▸ h
    rintro ⟨key, rfl⟩
    refine hc.coherent.agrees (.inl ho) (fun hch => ?_) he
    rcases ha.2 hch with hcache | hnot
    · exact exists_cache_of_nextIsCache hp hcache
    · obtain ⟨f, hf, hlead, hres⟩ := hfits.1
      exact absurd ⟨f, hf, hlead, by rw [hres]; rfl⟩ hnot
  | @join key k hjoin hlead =>
    obtain ⟨p, hexec, heq⟩ := Option.map_eq_some_iff.mp he
    obtain ⟨rfl, hshared⟩ := Prod.mk.inj heq
    rw [← hshared] at hassemble
    rw [FlightOp.exec] at hexec
    split at hexec
    · rename_i f hfind
      cases hexec
      have hkey := find?_some hfind
      rw [decide_eq_true_eq] at hkey
      exact hassemble (hc.coherent.withFlights hc.coherent.landed) ⟨.joined f.leader key,
        hjoin f.leader, ⟨f, mem_of_find?_eq_some hfind, rfl, hkey.1⟩, hfits⟩ fun _ _ _ h => h
    · cases hexec
      refine hassemble (hc.coherent.withFlights ?_) ⟨.leading key, hlead,
        ⟨_, mem_cons_self .., rfl, rfl⟩, ?_⟩ fun u ph hu h => h.cons (Ne.symm hu)
      · intro f hf r hres
        rcases mem_cons.mp hf with rfl | hf
        · cases hres
        · exact hc.coherent.landed f hf r hres
      · intro f hf hown
        rcases mem_cons.mp hf with rfl | hf
        · rfl
        · exact absurd hown (hfits f hf)
  | await hk =>
    obtain ⟨p, hexec, heq⟩ := Option.map_eq_some_iff.mp he
    obtain ⟨rfl, hshared⟩ := Prod.mk.inj heq
    obtain ⟨res, -, rfl⟩ := Option.map_eq_some_iff.mp hexec
    rw [← hshared] at hassemble
    exact hassemble (hc.coherent.withFlights hc.coherent.landed)
      ⟨.after, hk _, fun f hf hown => absurd hown (hfits.2 f hf)⟩ fun _ _ _ h => h
  | @land key result k hres hk =>
    obtain ⟨-, hshared⟩ := answer_inj he
    rw [← hshared] at hassemble
    refine hassemble (hc.coherent.withFlights ?_) ⟨.after, hk, ?_⟩
      fun u ph hu h => h.map_land hu key result
    · intro f' hf' r hr
      obtain ⟨f, hf, rfl⟩ := mem_map.mp hf'
      split at hr
      · rename_i hown
        rw [if_pos hown, ← Option.some.inj hr, hres, hown.2]
      · rename_i hown
        rw [if_neg hown]
        exact hc.coherent.landed f hf r hr
    · intro f' hf' hown
      obtain ⟨f, hf, rfl⟩ := mem_map.mp hf'
      split at hown
      · rename_i hmine
        rw [if_pos hmine]
        rfl
      · rename_i hmine
        exact absurd ⟨hown, hfits.2 f hf hown⟩ hmine

/-! ### Runs -/

/-- Any number of `GetConfig` calls on a store, with something in the cache. -/
def readers (env : Env) (db : Tables) (cache : ConfigCache)
    (calls : ℕ → Caller × GetConfigRequest) : System where
  shared :=
    { db := db
      txs := fun _ => none
      held := []
      claims := []
      published := []
      cache := cache }
  pool t := ⟨(getConfig env (calls t).1 (calls t).2).run, []⟩

/-- What is cached is what a fetch returns. -/
def ConfigCache.Coherent (cache : ConfigCache) (db : Tables) : Prop :=
  (∀ e ∈ cache.entries, fetchResult db e.1 = .ok e.2) ∧
    ∀ key ∈ cache.negatives, fetchResult db key = .ok []

section Runs

variable {cache : ConfigCache} {calls : ℕ → Caller × GetConfigRequest} {cancelled : ℕ → Bool}
  {c : System}

/-- The start is as it should be. -/
theorem sharing_readers (hcache : cache.Coherent db) : Sharing db (readers env db cache calls) := by
  refine ⟨⟨rfl, fun _ => rfl, fun T v values h => ?_, by simp [readers]⟩,
    fun t => ⟨.before, follows_getConfig _ _, by simp [FetchPhase.Fits, readers]⟩⟩
  cases h with
  | entry hmem => exact hcache.1 _ hmem
  | negative hmem => exact hcache.2 _ hmem
  | landed hf => cases hf

/-- Every reachable state is as it should be. -/
theorem reach_sharing (hcache : cache.Coherent db)
    (hr : Reach exec (LeadersKept cancelled) (readers env db cache calls) c) : Sharing db c :=
  hr.invariant (Sharing db) (sharing_readers hcache) fun _ _ _ _ _ ih ha hs => ih.preserved ha hs

/-- **The result of a call that is not cancelled is settled** along every run. -/
theorem reach_yields (hcache : cache.Coherent db)
    (hr : Reach exec (LeadersKept cancelled) (readers env db cache calls) c)
    (ht : cancelled t = false) :
    Yields (Agrees db) (c.pool t).prog
      (storeResult db (getConfig env (calls t).1 (calls t).2)) := by
  refine hr.invariant (fun c => Yields (Agrees db) (c.pool t).prog
    (storeResult db (getConfig env (calls t).1 (calls t).2))) (settled_getConfig _ _) ?_
  intro c c' u ch hr ih ha hs
  obtain ⟨o, k, r, hp, he, hpool⟩ := step_eq_some hs
  by_cases hu : t = u
  · subst hu
    rw [hp] at ih
    rw [hpool, Function.update_self]
    have hc := reach_sharing hcache hr
    refine ih r (hc.coherent.agrees ?_ ?_ he)
    · obtain ⟨ph, hfol, -⟩ := hc.phases t
      rw [hp] at hfol
      cases hfol with
      | look ho _ => exact .inl ho
      | _ => exact .inr ⟨_, rfl⟩
    · intro hch
      rcases ha.1 hch with hcache | hcan
      · exact exists_cache_of_nextIsCache hp hcache
      · exact absurd hcan (by simp [ht])
  · rw [hpool, Function.update_of_ne hu]
    exact ih

/-- What a call that succeeds alone returns is what the store answers. -/
theorem storeResult_of_alone (hcache : cache.Coherent db) {r : Except Status Reply} {s' : State}
    (h : alone t (readers env db cache calls).shared
      (getConfig env (calls t).1 (calls t).2) = some (r, s')) :
    storeResult db (getConfig env (calls t).1 (calls t).2) = r := by
  have hall : ∀ c : System, LeadersKept (fun _ => false) c t Choice.ok :=
    fun c => ⟨by nofun, by nofun⟩
  obtain ⟨c, hr, -, hret, -⟩ := exists_reach_of_runAlone (c := readers env db cache calls) hall h
  have hy := reach_yields hcache hr (t := t) rfl
  rw [Config.returned_eq_some.mp hret] at hy
  exact hy.symm

/-- The call waits for the fetch that another one leads. -/
def WaitsFor (c : System) (t u : ℕ) : Prop :=
  ∃ key k, (c.pool t).prog = .op (.flight (.await u key)) k

/-- A look is always answered. -/
theorem exec_look (ho : o.Looks db) (t : ℕ) (s : State) :
    ∃ p, exec .ok t o s = some p := by
  cases o with
  | read | cache => exact ⟨_, rfl⟩
  | _ => exact absurd ho id

/-- A call whose operation is answered has a step. -/
theorem step_of_exec {k : o.Resp → Prog Op.Resp (Except Status Reply)}
    (hp : (c.pool t).prog = .op o k) {p : o.Resp × State} (he : exec .ok t o c.shared = some p) :
    (step exec c t .ok).isSome := by
  have hpool : c.pool t = ⟨.op o k, (c.pool t).hist⟩ := by rw [← hp]
  rw [step, hpool]
  simp only [he]
  rfl

/-- A leader has a step. -/
theorem Sharing.leader_steps (hc : Sharing db c) {f : Flight} (hf : f ∈ c.shared.flights)
    (hres : f.result = none) : (step exec c f.leader .ok).isSome := by
  obtain ⟨ph, hfol, hfits⟩ := hc.phases f.leader
  cases ph with
  | before => exact absurd rfl (hfits f hf)
  | joined u key => exact absurd rfl (hfits.2 f hf)
  | after => exact absurd (hfits f hf rfl) (by simp [hres])
  | leading key =>
    generalize hp : (c.pool f.leader).prog = p at hfol
    cases hfol with
    | ret hph => exact absurd hph id
    | look ho _ =>
      obtain ⟨p, he⟩ := exec_look ho f.leader c.shared
      exact step_of_exec hp he
    | land => exact step_of_exec hp rfl

/-- **A call has returned, can go on, or waits for a call that can.** -/
theorem Sharing.progress (hc : Sharing db c) (t : ℕ) :
    (∃ r, c.returned t = some r) ∨ ∃ u, (u = t ∨ WaitsFor c t u) ∧ (step exec c u .ok).isSome := by
  obtain ⟨ph, hfol, hfits⟩ := hc.phases t
  generalize hp : (c.pool t).prog = p at hfol
  cases hfol with
  | ret => exact .inl ⟨_, Config.returned_eq_some.mpr hp⟩
  | look ho _ =>
    obtain ⟨p, he⟩ := exec_look ho t c.shared
    exact .inr ⟨t, .inl rfl, step_of_exec hp he⟩
  | @join key k hjoin hlead =>
    refine .inr ⟨t, .inl rfl, ?_⟩
    cases hfind : c.shared.flights.find? fun f => f.key = key ∧ f.result.isNone with
    | none => exact step_of_exec hp (by rw [exec, FlightOp.exec, hfind]; rfl)
    | some f => exact step_of_exec hp (by rw [exec, FlightOp.exec, hfind]; rfl)
  | @await u key k hk =>
    obtain ⟨⟨f, hf, hlead, hkey⟩, -⟩ := hfits
    obtain ⟨g, hfind⟩ : ∃ g, c.shared.flights.find?
        (fun f => f.leader = u ∧ f.key = key) = some g := by
      refine Option.isSome_iff_exists.mp (find?_isSome.mpr ⟨f, hf, ?_⟩)
      exact decide_eq_true ⟨hlead, hkey⟩
    have hg := find?_some hfind
    rw [decide_eq_true_eq] at hg
    cases hres : g.result with
    | none =>
      refine .inr ⟨u, .inr ⟨key, k, hp⟩, ?_⟩
      rw [← hg.1]
      exact hc.leader_steps (mem_of_find?_eq_some hfind) hres
    | some r =>
      exact .inr ⟨t, .inl rfl, step_of_exec hp (by
        rw [exec, FlightOp.exec, hfind, Option.bind_some, hres]; rfl)⟩
  | land => exact .inr ⟨t, .inl rfl, step_of_exec hp rfl⟩

/-- **Callers are independent when no leader is cancelled.** Any number of `GetConfig` calls
read a store that does not change, and a read fails only for a call that is cancelled, at any
time. In every run in which no call is cancelled while it leads a fetch, a call that is not
cancelled and would succeed alone has returned what it would alone, or it can go on, or it
waits for a call that can. -/
theorem getConfig_independent (hcache : cache.Coherent db)
    (hr : Reach exec (LeadersKept cancelled) (readers env db cache calls) c)
    (ht : cancelled t = false) {reply : Reply} {s' : State}
    (halone : alone t (readers env db cache calls).shared
      (getConfig env (calls t).1 (calls t).2) = some (.ok reply, s')) :
    c.returned t = some (.ok reply) ∨ c.returned t = none ∧
      ∃ u, (u = t ∨ WaitsFor c t u) ∧ (step exec c u .ok).isSome := by
  have hres := storeResult_of_alone hcache halone
  cases hret : c.returned t with
  | some r =>
    have hy := reach_yields hcache hr ht
    rw [Config.returned_eq_some.mp hret, hres] at hy
    exact .inl (congrArg some hy)
  | none =>
    rcases (reach_sharing hcache hr).progress t with ⟨r, hr⟩ | hgo
    · exact absurd hr (by simp [hret])
    · exact .inr ⟨rfl, hgo⟩

end Runs

namespace Sample

def storeOfA : Tables :=
  { ((init [] []).system (world noDocument)).shared.db with
    log := fun _ => [⟨1, none, "root", [⟨"a", some "1", none, none⟩], 0, by simp⟩] }

def readLatest : ℕ → Caller × GetConfigRequest :=
  fun _ => (superadmin, { tenantId := tenant })

def reading : System :=
  readers (world noDocument) storeOfA {} readLatest

theorem alone_readLatest {t : ℕ} (h : ((alone t reading.shared (getConfig (world noDocument)
    (readLatest t).1 (readLatest t).2)).any fun p => p.1.toBool) = true) :
    ∃ reply s', alone t reading.shared (getConfig (world noDocument) (readLatest t).1
      (readLatest t).2) = some (.ok reply, s') := by
  generalize alone t reading.shared _ = result at h ⊢
  rcases result with _ | ⟨e | reply, s'⟩
  · cases h
  · cases h
  · exact ⟨reply, s', rfl⟩

end Sample

open Sample in
/-- The first call is cancelled before it fetches anything; the third joins the fetch of the
second and returns what it would alone. -/
theorem getConfig_independent_joined : ∃ c reply s', Reach exec (LeadersKept (· = 0)) reading c ∧
      alone 2 reading.shared (getConfig (world noDocument) (readLatest 2).1 (readLatest 2).2) =
        some (.ok reply, s') ∧
      c.returned 0 = some (.error ⟨.internal, "validator lookup failed"⟩) ∧
      c.returned 2 = some (.ok reply) := by
  obtain ⟨c, hr, h0, h2⟩ : ∃ c, Reach exec (LeadersKept (· = 0)) reading c ∧
      c.returned 0 = some (.error ⟨.internal, "validator lookup failed"⟩) ∧
      (c.returned 2).isSome = true :=
    exists_reach_of_run (steps 0 1 ++ [(0, .fail)] ++ steps 1 5 ++ steps 2 5 ++ steps 1 6 ++
      steps 2 1) (by decide +kernel)
  obtain ⟨reply, s', halone⟩ := alone_readLatest (t := 2) (by decide +kernel)
  refine ⟨c, reply, s', hr, halone, h0, ?_⟩
  have hcold : ConfigCache.Coherent {} storeOfA := ⟨by simp, by simp⟩
  rcases getConfig_independent hcold hr rfl halone with hret | ⟨hnone, -⟩
  · exact hret
  · rw [hnone] at h2
    cases h2

open Sample in
/-- **A cancelled leader fails the calls that have joined it**: the second call would succeed
alone and is not cancelled. -/
theorem getConfig_cancelled_leader : ∃ c reply s', Reach exec (Cancelling (· = 0)) reading c ∧
      alone 1 reading.shared (getConfig (world noDocument) (readLatest 1).1 (readLatest 1).2) =
        some (.ok reply, s') ∧
      c.returned 1 = some (.error ⟨.internal, "failed to get config"⟩) := by
  obtain ⟨c, hr, h1⟩ : ∃ c, Reach exec (Cancelling (· = 0)) reading c ∧
      c.returned 1 = some (.error ⟨.internal, "failed to get config"⟩) :=
    exists_reach_of_run (steps 0 5 ++ steps 1 5 ++ [(0, .fail)] ++ steps 0 1 ++ steps 1 1)
      (by decide +kernel)
  obtain ⟨reply, s', halone⟩ := alone_readLatest (t := 1) (by decide +kernel)
  exact ⟨c, reply, s', hr, halone, h1⟩

end Decree
