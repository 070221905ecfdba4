import Decree.Events

/-!
# What a Config Read Has Looked Up

Trace facts about `GetConfig` and the other reads of config: which version they are at, where
the values that they return are from, and what a call that fills the cache, or lands a shared
fetch, has fetched.

## Main results

* `getConfig_trace`, `getField_trace`, `getFields_trace`, `exportConfig_trace`: what the reads have
  read.
* `Call.filling`: only `GetConfig` fills the cache.
-/

open Interleave List

namespace Decree

variable {env : Env} {T : String} {v : ℤ} {h : Hist} {requested : Option ℤ} {h' : Hist}
  {values values' : CachedValues} {α : Type} {caller : Caller} {e : Event Op.Resp State}
  {T' fieldPath : String} {reply : Reply} {row : Option ConfigValue} {o : Op} {call : Call}

/-- The version that a read is at: the one that the request names, or the latest. -/
def VersionRead (T : String) (requested : Option ℤ) (v : ℤ) (h : Hist) : Prop :=
  requested = some v ∨ (requested = none ∧ ∃ r s,
    readEvent false (.latestConfigVersion T) r s ∈ h ∧ versionOrZero r = .ok v)

theorem VersionRead.mono (hsub : h <+ h') (hv : VersionRead T requested v h) :
    VersionRead T requested v h' := by
  rcases hv with hv | ⟨hnone, r, s, he, hr⟩
  · exact .inl hv
  · exact .inr ⟨hnone, r, s, hsub.subset he, hr⟩

/-- A version that is named is the one. -/
theorem VersionRead.eq_of_some (hv : VersionRead T requested v h) {w : ℤ}
    (hw : requested = some w) : v = w := by
  rcases hv with hv | ⟨hnone, -⟩
  · exact Option.some.inj (hv.symm.trans hw)
  · cases (hnone.symm.trans hw)

/-- The version that is returned was named or read. -/
theorem versionRead_of_runs (hrun : Runs (resolveRequested T requested).run h (.ok v)) :
    VersionRead T requested v h := by
  cases requested with
  | some w => exact .inl (congrArg some (runs_pure_ok.mp hrun).2)
  | none =>
    obtain ⟨r, s, rfl, hr⟩ := runs_ask.mp hrun
    exact .inr ⟨rfl, r, s, mem_singleton_self _, hr⟩

/-! ### The fetch -/

/-- The rows of the version and the fields of the schema were read, and these are the values
that are shown of them. -/
def Fetched (T : String) (v : ℤ) (values : CachedValues) (h : Hist) : Prop :=
  ∃ rows fields s, readEvent false (.fullConfigAtVersion T v) (.ok rows) s ∈ h ∧
    SchemaRead T fields h ∧ values = cachedValues fields rows

theorem Fetched.mono (hsub : h <+ h') (hf : Fetched T v values h) : Fetched T v values h' := by
  obtain ⟨rows, fields, s, he, hfields, hv⟩ := hf
  exact ⟨rows, fields, s, hsub.subset he, hfields.mono hsub, hv⟩

/-- The operation caches the values of the version, or hands them to the calls that wait. -/
def Caches (T : String) (v : ℤ) (values : CachedValues) (o : Op) : Prop :=
  o = .cache (.set T v values) ∨ (o = .cache (.setNegative T v) ∧ values = []) ∨
    o = .flight (.land (T, v) (.ok values))

/-- A quiet program fills no cache. -/
theorem Quiet.noFill {ε : Type} {x : Proc ε α} (hx : Quiet x) : Avoids Op.Fills x.run :=
  hx.noShare.mono fun _ => Op.Fills.shares

variable {q : Prog Op.Resp (Except Status CachedValues)}

/-- A fetch that fills the cache has read the rows. -/
theorem fetchAndCacheConfig_trace (hq : Late Op.Fills q)
    (ha : After (fetchAndCacheConfig T v).run h q) :
    ∃ values, Fetched T v values h ∧ (q = .ret (.ok values) ∨
      ∃ o k, q = .op o k ∧ Caches T v values o) := by
  obtain ⟨e1, r1, rows, rfl, hrows, h1⟩ := (quiet_fetch _ _ _).noFill.after_bind_late hq ha
  obtain ⟨e2, r2, fields, rfl, hfields, h2⟩ :=
    (quiet_getSchemaFieldSets _).noFill.after_bind_late hq h1
  obtain ⟨s, rfl⟩ := runs_fetch.mp hrows
  have hfetched : Fetched T v (cachedValues fields rows)
      ([readEvent false (.fullConfigAtVersion T v) (.ok rows) s] ++ (e2 ++ r2)) :=
    ⟨rows, fields, s, by simp, (schemaRead_of_runs hfields).mono (sub_skip sub_here), rfl⟩
  refine ⟨_, hfetched, ?_⟩
  rcases after_op.mp h2 with ⟨-, rfl⟩ | ⟨_, _, _, -, hret⟩
  · refine .inr ⟨_, _, rfl, ?_⟩
    split
    · exact .inr (.inl ⟨rfl, ‹_›⟩)
    · exact .inl rfl
  · exact .inl (after_ret.mp hret).2

/-- A leader lands what it has fetched, or an error. -/
theorem leadFetch_trace (hq : Late Op.Fills q) (ha : After (leadFetch T v).run h q) :
    (∃ values, Fetched T v values h ∧ (q = .ret (.ok values) ∨
      ∃ o k, q = .op o k ∧ Caches T v values o)) ∨
    ∃ err k, q = .op (.flight (.land (T, v) (.error err))) k := by
  rcases after_bind (show After ((fetchAndCacheConfig T v).run >>= fun r =>
      .op (.flight (.land (T, v) r)) fun _ => .ret r) h q from ha) with
    ⟨o, k, hf, rfl⟩ | ⟨e1, e2, r, rfl, hf, hland⟩
  · obtain ⟨values, hfetched, hret | ⟨o', k', hop, hc⟩⟩ :=
      fetchAndCacheConfig_trace (q := .op o k) hq hf
    · cases hret
    · cases hop
      exact .inl ⟨values, hfetched, .inr ⟨_, _, rfl, hc⟩⟩
  · cases r with
    | error err =>
      rcases after_op.mp hland with ⟨-, rfl⟩ | ⟨_, _, _, -, hret⟩
      · exact .inr ⟨err, _, rfl⟩
      · obtain ⟨-, rfl⟩ := after_ret.mp hret
        exact absurd hq id
    | ok values =>
      obtain ⟨values', hfetched, hret | ⟨o', k', hop, -⟩⟩ :=
        fetchAndCacheConfig_trace (q := .ret (.ok values)) trivial hf
      · obtain rfl : values = values' := Except.ok.inj (Prog.ret.inj hret)
        refine .inl ⟨values, hfetched.mono (sublist_append_left ..), ?_⟩
        rcases after_op.mp hland with ⟨-, rfl⟩ | ⟨_, _, _, -, hret⟩
        · exact .inr ⟨_, _, rfl, .inr (.inr rfl)⟩
        · exact .inl (after_ret.mp hret).2
      · cases hop

/-! ### GetConfig -/

/-- **Where the values of a `GetConfig` are from**: the cache, the marks of empty versions, the
flight that it joined, or its own fetch. -/
inductive Looked (T : String) (v : ℤ) (h : Hist) : CachedValues → Prop
  | hit {values : CachedValues} {s : State}
      (he : (⟨.cache (.get T v), (.ok (some values) : Except StoreErr (Option CachedValues)), s⟩ :
        Event Op.Resp State) ∈ h) : Looked T v h values
  | negative {s : State}
      (he : (⟨.cache (.getNegative T v), (.ok true : Except StoreErr Bool), s⟩ :
        Event Op.Resp State) ∈ h) : Looked T v h []
  | shared {leader : ℕ} {values : CachedValues} {s : State}
      (he : (⟨.flight (.await leader (T, v)), (.ok values : Except Status CachedValues), s⟩ :
        Event Op.Resp State) ∈ h) : Looked T v h values
  | fetched {values : CachedValues} (hf : Fetched T v values h) : Looked T v h values

theorem Looked.mono (hsub : h <+ h') (hl : Looked T v h values) : Looked T v h' values := by
  cases hl with
  | hit he => exact .hit (hsub.subset he)
  | negative he => exact .negative (hsub.subset he)
  | shared he => exact .shared (hsub.subset he)
  | fetched hf => exact .fetched (hf.mono hsub)

/-- Where a lookup of `GetConfig` is: it has its values, is about to cache those it has
fetched, or hands on the error of its fetch. -/
inductive LookupStage (T : String) (v : ℤ) (h : Hist)
    {α : Type} (shown : CachedValues → α) (q : Prog Op.Resp (Except Status α)) : Prop
  | shown {values : CachedValues} (hl : Looked T v h values) (hq : q = .ret (.ok (shown values)))
  | filling {values : CachedValues} {o : Op} {k : o.Resp → Prog Op.Resp (Except Status α)}
      (hf : Fetched T v values h) (hq : q = .op o k) (ho : Caches T v values o)
  | failing {err : Status} {k : Unit → Prog Op.Resp (Except Status α)}
      (hq : q = .op (.flight (.land (T, v) (.error err))) k)

variable {k : Op.Resp o → Prog Op.Resp (Except Status Reply)} {shown : CachedValues → α}
  {req : GetConfigRequest} {v' : ℤ}

theorem LookupStage.mono {q : Prog Op.Resp (Except Status α)}
    (hsub : h <+ h') (hs : LookupStage T v h shown q) : LookupStage T v h' shown q := by
  cases hs with
  | shown hl hq => exact .shown (hl.mono hsub) hq
  | filling hf hq ho => exact .filling (hf.mono hsub) hq ho
  | failing hq => exact .failing hq

/-- A follower takes what the leader landed. -/
theorem sharedFetch_trace (hq : Late Op.Fills q) (ha : After (sharedFetch T v).run h q) :
    LookupStage T v h id q := by
  rcases after_op.mp ha with ⟨-, rfl⟩ | ⟨leader, s, h', rfl, hk⟩
  · exact absurd hq id
  refine LookupStage.mono (sublist_cons_self _ h') ?_
  cases leader with
  | some leader =>
    rcases after_op.mp hk with ⟨-, rfl⟩ | ⟨r, s', h'', rfl, hret⟩
    · exact absurd hq id
    · cases r with
      | error err =>
        obtain ⟨-, rfl⟩ := after_ret.mp hret
        exact absurd hq id
      | ok values =>
        obtain ⟨-, rfl⟩ := after_ret.mp hret
        exact .shown (.shared (mem_cons_self ..)) rfl
  | none =>
    rcases leadFetch_trace hq hk with ⟨values, hf, rfl | ⟨o, k, rfl, ho⟩⟩ | ⟨err, k, rfl⟩
    · exact .shown (.fetched hf) rfl
    · exact .filling hf rfl ho
    · exact .failing rfl

/-- A lookup past the negative entries. -/
theorem lookNegative_trace (hq : Late Op.Fills q) (ha : After (lookNegative T v).run h q) :
    LookupStage T v h id q := by
  rcases after_op.mp ha with ⟨-, rfl⟩ | ⟨r, s, h', rfl, hk⟩
  · exact absurd hq id
  have hk' : After (if negativeHit r then pure [] else sharedFetch T v : Proc Status
      CachedValues).run h' q := hk
  cases r with
  | error e => exact (sharedFetch_trace hq hk').mono (sublist_cons_self ..)
  | ok negative =>
    cases negative with
    | false => exact (sharedFetch_trace hq hk').mono (sublist_cons_self ..)
    | true =>
      obtain ⟨-, rfl⟩ := after_ret.mp hk'
      exact .shown (.negative (mem_cons_self ..)) rfl

/-- The history begins with a lookup of the version in the cache. -/
def LooksFirst (T : String) (v : ℤ) (h : Hist) : Prop :=
  ∃ r s h', h = (⟨.cache (.get T v), r, s⟩ : Event Op.Resp State) :: h'

/-- A lookup begins with the cache. -/
theorem cachedConfig_trace (hq : Late Op.Fills q) (ha : After (cachedConfig T v).run h q) :
    LooksFirst T v h ∧ LookupStage T v h id q := by
  rcases after_op.mp ha with ⟨-, rfl⟩ | ⟨r, s, h', rfl, hk⟩
  · exact absurd hq id
  refine ⟨⟨r, s, h', rfl⟩, ?_⟩
  rcases r with e | _ | values
  · exact (lookNegative_trace hq hk).mono (sublist_cons_self ..)
  · exact (lookNegative_trace hq hk).mono (sublist_cons_self ..)
  · obtain ⟨-, rfl⟩ := after_ret.mp hk
    exact .shown (.hit (mem_cons_self ..)) rfl

/-- A lookup, with what is shown of it. -/
theorem shownConfig_trace {q : Prog Op.Resp (Except Status α)} (hq : Late Op.Fills q)
    (ha : After (cachedConfig T v >>= fun values => pure (shown values)).run h q) :
    LooksFirst T v h ∧ LookupStage T v h shown q := by
  rw [ExceptT.run_bind] at ha
  rcases after_bind ha with ⟨o, k, hx, rfl⟩ | ⟨e1, e2, r, rfl, hx, hf⟩
  · obtain ⟨hget, hstage⟩ := cachedConfig_trace (q := .op o k) hq hx
    refine ⟨hget, ?_⟩
    cases hstage with
    | shown hl hq => cases hq
    | filling hf hq ho =>
      cases hq
      exact .filling hf rfl ho
    | failing hq =>
      cases hq
      exact .failing rfl
  · cases r with
    | error e =>
      obtain ⟨-, rfl⟩ := after_ret.mp hf
      exact absurd hq id
    | ok values =>
      obtain ⟨rfl, rfl⟩ := after_ret.mp hf
      rw [append_nil]
      obtain ⟨hget, hstage⟩ := cachedConfig_trace (q := .ret (.ok values)) trivial hx
      refine ⟨hget, ?_⟩
      cases hstage with
      | shown hl hq =>
        cases hq
        exact .shown hl rfl
      | filling hf hq ho => cases hq
      | failing hq => cases hq

/-- **The trace of a `GetConfig`** that has returned, or is about to fill the cache. -/
theorem getConfig_trace {q : Prog Op.Resp (Except Status Reply)}
    (hq : Late Op.Fills q) (ha : After (getConfig env caller req).run h q) :
    ∃ T v types h1 h2, h = h1 ++ h2 ∧ Resolved req.tenantId T h1 ∧
      VersionRead T req.version v h1 ∧ TypesRead env T types h1 ∧
      ((req.includeDescriptions = true ∧ ∃ rows fields s,
        readEvent false (.fullConfigAtVersion T v) (.ok rows) s ∈ h2 ∧ SchemaRead T fields h2 ∧
        q = .ret (.ok (.config ⟨T, v, rows.map (valueWithDescription types fields)⟩))) ∨
      (req.includeDescriptions = false ∧ LooksFirst T v h2 ∧ LookupStage T v h2 (fun values =>
          Reply.config ⟨T, v, values.map (valueOfCached env types)⟩) q)) := by
  obtain ⟨e1, r1, _, rfl, -, h1⟩ := (quiet_ofExcept _).noFill.after_bind_late hq ha
  obtain ⟨e2, r2, T, rfl, hres, h2⟩ :=
    (quiet_resolveTenantWithAccess _ _ _ _).noFill.after_bind_late hq h1
  obtain ⟨e3, r3, v, rfl, hv, h3⟩ := (quiet_resolveRequested _ _).noFill.after_bind_late hq h2
  obtain ⟨e4, r4, types, rfl, htypes, h4⟩ := (quiet_fieldTypeMap _ _ _).noFill.after_bind_late hq h3
  refine ⟨T, v, types, e1 ++ (e2 ++ (e3 ++ e4)), r4, by simp,
    (resolved_of_runs_withAccess hres).mono (sub_skip sub_here),
    (versionRead_of_runs hv).mono (sub_skip2 sub_here),
    (typesRead_of_runs htypes).mono (sub_skip2 (sub_skip (.refl _))), ?_⟩
  cases hd : req.includeDescriptions with
  | true =>
    rw [if_pos hd] at h4
    obtain ⟨e5, r5, rows, rfl, hrows, h5⟩ := (quiet_fetch _ _ _).noFill.after_bind_late hq h4
    obtain ⟨e6, r6, fields, rfl, hfields, h6⟩ :=
      (quiet_getSchemaFieldSets _).noFill.after_bind_late hq h5
    obtain ⟨s, rfl⟩ := runs_fetch.mp hrows
    exact .inl ⟨rfl, rows, fields, s, by simp,
      (schemaRead_of_runs hfields).mono (sub_skip sub_here), (after_ret.mp h6).2⟩
  | false =>
    rw [if_neg (by simp [hd])] at h4
    exact .inr ⟨rfl, shownConfig_trace hq h4⟩

/-! ### Answers of the cache -/

/-- What the cache has answered: the values of a version, or that it is marked as empty. -/
def cacheAnswer : Event Op.Resp State → Option (String × ℤ × CachedValues)
  | ⟨.cache (.get T v), r, _⟩ => (cacheHit r).map fun values => (T, v, values)
  | ⟨.cache (.getNegative T v), r, _⟩ => if negativeHit r then some (T, v, []) else none
  | _ => none

def Op.AsksCache : Op → Prop
  | cache (.get _ _) | cache (.getNegative _ _) => True
  | _ => False

/-- An answer of the cache is one to a question. -/
theorem asksCache_of_answer {a : String × ℤ × CachedValues} (ha : cacheAnswer e = some a) :
    e.op.AsksCache := by
  rw [cacheAnswer.eq_def] at ha
  split at ha
  · exact trivial
  · exact trivial
  · cases ha

/-- A plain program does not ask the cache. -/
theorem Plain.avoids_asksCache {ε : Type} {x : Proc ε α} (hx : Plain x) :
    Avoids Op.AsksCache x.run := by
  refine hx.mono fun o ho hplain => ?_
  cases o with
  | cache o => exact hplain
  | _ => exact ho

/-- A fetch does not ask the cache. -/
theorem sharedFetch_asksCache : Avoids Op.AsksCache (sharedFetch T v).run := by
  have hfetch : Avoids Op.AsksCache (fetchAndCacheConfig T v).run := by
    refine .bind_run ⟨fun h => h, fun _ => trivial⟩ fun rows => ?_
    refine (plain_getSchemaFieldSets T).avoids_asksCache.bind_run fun fields => ?_
    refine .bind_run ⟨?_, fun _ => trivial⟩ fun _ => trivial
    split <;> exact fun h => h
  refine .bind_run ⟨fun h => h, fun _ => trivial⟩ fun leader => ?_
  cases leader with
  | some leader => exact ⟨fun h => h, fun _ => trivial⟩
  | none => exact hfetch.bind fun r => ⟨fun h => h, fun _ => trivial⟩

/-- What the cache answers is returned. -/
theorem lookNegative_answer (hrun : Runs (lookNegative T v).run h (.ok values))
    (he : e ∈ h) (ha : cacheAnswer e = some (T', v', values')) :
    T' = T ∧ v' = v ∧ values' = values := by
  obtain ⟨r, s, h', rfl, hk⟩ := runs_op.mp hrun
  have hk' : Runs (if negativeHit r then pure [] else sharedFetch T v : Proc Status
      CachedValues).run h' (.ok values) := hk
  cases hneg : negativeHit r with
  | true =>
    rw [hneg, if_pos rfl] at hk'
    obtain ⟨rfl, rfl⟩ := runs_pure_ok.mp hk'
    obtain rfl := mem_singleton.mp he
    rw [cacheAnswer, hneg, if_pos rfl] at ha
    obtain ⟨rfl, hrest⟩ := answer_inj ha
    cases hrest
    exact ⟨rfl, rfl, rfl⟩
  | false =>
    rw [hneg, if_neg (by simp)] at hk'
    rcases mem_cons.mp he with rfl | he
    · rw [cacheAnswer, hneg, if_neg (by simp)] at ha
      cases ha
    · exact absurd (asksCache_of_answer ha) ((sharedFetch_asksCache.after hk').1 e he)

/-- An answer of the cache is what is returned. -/
theorem cachedConfig_answer (hrun : Runs (cachedConfig T v).run h (.ok values))
    (he : e ∈ h) (ha : cacheAnswer e = some (T', v', values')) :
    T' = T ∧ v' = v ∧ values' = values := by
  obtain ⟨r, s, h', rfl, hk⟩ := runs_op.mp hrun
  have hmiss : cacheHit r = none → Runs (lookNegative T v).run h' (.ok values) →
      T' = T ∧ v' = v ∧ values' = values := by
    intro hhit hk
    rcases mem_cons.mp he with rfl | he
    · rw [cacheAnswer, hhit] at ha
      cases ha
    · exact lookNegative_answer hk he ha
  rcases r with e | _ | found
  · exact hmiss rfl hk
  · exact hmiss rfl hk
  · obtain ⟨rfl, rfl⟩ := runs_pure_ok.mp hk
    obtain rfl := mem_singleton.mp he
    obtain ⟨rfl, hrest⟩ := answer_inj ha
    cases hrest
    exact ⟨rfl, rfl, rfl⟩

/-- The version is resolved by plain reads. -/
theorem plain_resolveRequested (requested : Option ℤ) : Plain (resolveRequested T requested) := by
  cases requested with
  | none => exact plain_resolveVersion T
  | some v => exact trivial

/-- **What the cache has answered is what a `GetConfig` returns.** -/
theorem getConfig_answer (hrun : Runs (getConfig env caller req).run h (.ok reply)) (he : e ∈ h)
    (ha : cacheAnswer e = some (T, v, values)) :
    ∃ types, TypesRead env T types h ∧
      reply = .config ⟨T, v, values.map (valueOfCached env types)⟩ := by
  have hasks := asksCache_of_answer ha
  have hskip : ∀ {ε α : Type} {x : Proc ε α} {h1 h2 : Hist} {a : Except ε α}, Plain x →
      Runs x.run h1 a → e ∈ h1 ++ h2 → e ∈ h2 := by
    intro ε α x h1 h2 a hx hrun he
    rcases mem_append.mp he with he | he
    · exact absurd hasks ((hx.avoids_asksCache.after hrun).1 e he)
    · exact he
  obtain ⟨e1, r1, _, rfl, he1, h1⟩ := runs_bind_ok hrun
  obtain ⟨e2, r2, T', rfl, he2, h2⟩ := runs_bind_ok h1
  obtain ⟨e3, r3, v', rfl, he3, h3⟩ := runs_bind_ok h2
  obtain ⟨e4, r4, types, rfl, he4, h4⟩ := runs_bind_ok h3
  have hmem : e ∈ r4 := hskip (plain_fieldTypeMap env _ _) he4 <|
    hskip (plain_resolveRequested _) he3 <|
    hskip (plain_resolveTenantWithAccess env caller _ _) he2 <| hskip (plain_ofExcept _) he1 he
  split at h4
  · obtain ⟨e5, r5, rows, rfl, hrows, h5⟩ := runs_bind_ok h4
    obtain ⟨e6, r6, fields, rfl, hfields, h6⟩ := runs_bind_ok h5
    obtain ⟨s, rfl⟩ := runs_fetch.mp hrows
    obtain ⟨rfl, -⟩ := runs_pure_ok.mp h6
    rcases mem_cons.mp hmem with rfl | hmem
    · exact absurd hasks id
    · exact absurd (hskip (plain_getSchemaFieldSets T') hfields hmem) not_mem_nil
  · obtain ⟨e5, r5, values', rfl, hvalues, h5⟩ := runs_bind_ok h4
    obtain ⟨rfl, rfl⟩ := runs_pure_ok.mp h5
    rw [append_nil] at hmem
    obtain ⟨rfl, rfl, rfl⟩ := cachedConfig_answer hvalues hmem ha
    exact ⟨types, (typesRead_of_runs he4).mono (sub_skip2 (sub_skip sub_here)), rfl⟩

/-! ### The other reads -/

/-- **What `GetField` has read.** -/
theorem getField_trace {req : GetFieldRequest}
    (hrun : Runs (getField env caller req).run h (.ok reply)) :
    ∃ T v types fields row s h1 h2, h = h1 ++ h2 ∧ Resolved req.tenantId T h1 ∧
      VersionRead T req.version v h1 ∧
      readEvent false (.configValueAtVersion T req.fieldPath v) (.ok row) s ∈ h2 ∧
      SchemaRead T fields h ∧ TypesRead env T types h ∧
      reply = .field (valueOfRow types fields req.includeDescription row) := by
  obtain ⟨e1, r1, _, rfl, -, h1⟩ := runs_bind_ok hrun
  obtain ⟨e2, r2, T, rfl, hres, h2⟩ := runs_bind_ok h1
  obtain ⟨e3, r3, v, rfl, hv, h3⟩ := runs_bind_ok h2
  obtain ⟨e4, r4, row, rfl, hrow, h4⟩ := runs_bind_ok h3
  obtain ⟨e5, r5, fields, rfl, hfields, h5⟩ := runs_bind_ok h4
  obtain ⟨e6, r6, types, rfl, htypes, h6⟩ := runs_bind_ok h5
  obtain ⟨s, rfl⟩ := runs_fetch.mp hrow
  refine ⟨T, v, types, fields, row, s, e1 ++ (e2 ++ e3),
    [readEvent false (.configValueAtVersion T req.fieldPath v) (.ok row) s] ++ (e5 ++ (e6 ++ r6)),
    by simp,
    (resolved_of_runs_withAccess hres).mono (sub_skip sub_here),
    (versionRead_of_runs hv).mono (sub_skip2 (.refl _)), mem_cons_self .., ?_, ?_,
    (runs_pure_ok.mp h6).2.symm⟩
  · exact (schemaRead_of_runs hfields).mono (sub_skip2 (sub_skip2 sub_here))
  · exact (typesRead_of_runs htypes).mono
      (sub_skip2 (sub_skip2 (sub_skip sub_here)))

/-- A row that `GetFields` has read. -/
def RowRead (T : String) (v : ℤ) (h : Hist) (fieldPath : String) (row : Option ConfigValue) :
    Prop :=
  ∃ r s, readEvent false (.configValueAtVersion T fieldPath v) r s ∈ h ∧
    (r = .error .notFound ∧ row = none ∨ ∃ found, r = .ok found ∧ row = some found)

theorem RowRead.mono (hsub : h <+ h') (hr : RowRead T v h fieldPath row) :
    RowRead T v h' fieldPath row := by
  obtain ⟨r, s, he, hrow⟩ := hr
  exact ⟨r, s, hsub.subset he, hrow⟩

/-- A row that is returned was read. -/
theorem rowRead_of_runs (hrun : Runs (getOptionalRow T v fieldPath).run h (.ok row)) :
    RowRead T v h fieldPath row := by
  obtain ⟨r, s, rfl, hr⟩ := runs_ask.mp hrun
  refine ⟨r, s, mem_singleton_self _, ?_⟩
  cases r with
  | ok found => exact .inr ⟨found, rfl, (Except.ok.inj hr).symm⟩
  | error e =>
    cases e with
    | notFound => exact .inl ⟨rfl, (Except.ok.inj hr).symm⟩
    | _ => cases hr

/-- **What `GetFields` has read.** -/
theorem getFields_trace {req : GetFieldsRequest}
    (hrun : Runs (getFields env caller req).run h (.ok reply)) :
    ∃ T v types fields rows h1 h2, h = h1 ++ h2 ∧ Resolved req.tenantId T h1 ∧
      VersionRead T req.version v h1 ∧ Forall₂ (RowRead T v h2) req.fieldPaths rows ∧
      SchemaRead T fields h ∧ TypesRead env T types h ∧
      reply = .fields (rows.reduceOption.map
        (valueOfRow types fields req.includeDescriptions)) := by
  obtain ⟨e0, r0, _, rfl, -, h0⟩ := runs_bind_ok hrun
  obtain ⟨e1, r1, _, rfl, -, h1⟩ := runs_bind_ok h0
  obtain ⟨e2, r2, T, rfl, hres, h2⟩ := runs_bind_ok h1
  obtain ⟨e3, r3, v, rfl, hv, h3⟩ := runs_bind_ok h2
  obtain ⟨e4, r4, types, rfl, htypes, h4⟩ := runs_bind_ok h3
  obtain ⟨e5, r5, fields, rfl, hfields, h5⟩ := runs_bind_ok h4
  obtain ⟨e6, r6, rows, rfl, hrows, h6⟩ := runs_bind_ok h5
  refine ⟨T, v, types, fields, rows, e0 ++ (e1 ++ (e2 ++ (e3 ++ (e4 ++ e5)))), e6 ++ r6,
    by simp, ?_, ?_, ?_, ?_, ?_, (runs_pure_ok.mp h6).2.symm⟩
  · exact (resolved_of_runs_withAccess hres).mono (sub_skip2 sub_here)
  · exact (versionRead_of_runs hv).mono (sub_skip2 (sub_skip sub_here))
  · refine (forall₂_of_runs_collect hrows).imp ?_
    rintro fieldPath row ⟨es, hsub, hrow⟩
    exact (rowRead_of_runs hrow).mono (hsub.trans sub_here)
  · exact (schemaRead_of_runs hfields).mono
      (sub_skip2 (sub_skip2 (sub_skip sub_here)))
  · exact (typesRead_of_runs htypes).mono (sub_skip2 (sub_skip2 sub_here))

/-- **What `ExportConfig` has read.** -/
theorem exportConfig_trace {req : ExportConfigRequest}
    (hrun : Runs (exportConfig env caller req).run h (.ok reply)) :
    ∃ T v rows s h1 h2, h = h1 ++ h2 ∧ Resolved req.tenantId T h1 ∧ VersionRead T req.version v h1 ∧
      readEvent false (.fullConfigAtVersion T v) (.ok rows) s ∈ h2 ∧ rows ≠ [] := by
  obtain ⟨e1, r1, _, rfl, -, h1⟩ := runs_bind_ok hrun
  obtain ⟨e2, r2, T, rfl, hres, h2⟩ := runs_bind_ok h1
  obtain ⟨e3, r3, v, rfl, hv, h3⟩ := runs_bind_ok h2
  obtain ⟨e4, r4, _, rfl, -, h4⟩ := runs_bind_ok h3
  obtain ⟨e5, r5, types, rfl, -, h5⟩ := runs_bind_ok h4
  obtain ⟨e6, r6, rows, rfl, hrows, h6⟩ := runs_bind_ok h5
  obtain ⟨e7, r7, _, rfl, hne, -⟩ := runs_bind_ok h6
  obtain ⟨s, rfl⟩ := runs_fetch.mp hrows
  refine ⟨T, v, rows, s, e1 ++ (e2 ++ e3), e4 ++ (e5 ++
      ([readEvent false (.fullConfigAtVersion T v) (.ok rows) s] ++ (e7 ++ r7))), by simp,
    (resolved_of_runs_withAccess hres).mono (sub_skip sub_here),
    (versionRead_of_runs hv).mono (sub_skip2 (.refl _)), by simp, ?_⟩
  exact (runs_require.mp hne).2

/-- A rollback has read the rows of its target. -/
theorem rollbackToVersion_trace {req : RollbackRequest}
    (hrun : Runs (rollbackToVersion env caller req).run h (.ok reply)) :
    ∃ T rows s, Resolved req.tenantId T h ∧
      readEvent false (.fullConfigAtVersion T req.version) (.ok rows) s ∈ h ∧ rows ≠ [] := by
  obtain ⟨e1, r1, _, rfl, -, h1⟩ := runs_bind_ok hrun
  obtain ⟨e2, r2, T, rfl, hres, h2⟩ := runs_bind_ok h1
  obtain ⟨e3, r3, rows, rfl, hrows, h3⟩ := runs_bind_ok h2
  obtain ⟨e4, r4, _, rfl, hne, -⟩ := runs_bind_ok h3
  obtain ⟨s, rfl⟩ := runs_fetch.mp hrows
  exact ⟨T, rows, s, (resolved_of_runs_withAccess hres).mono (sub_skip sub_here), by simp,
    (runs_require.mp hne).2⟩

/-! ### The version that a call looks at -/

/-- The tenant and the version at which an operation looks for rows. -/
def Op.lookup : Op → Option (String × ℤ)
  | cache (.get T v) => some (T, v)
  | read false (.fullConfigAtVersion T v) => some (T, v)
  | read false (.configValueAtVersion T _ v) => some (T, v)
  | _ => none

/-- All rows that were looked for are of one version of one tenant. -/
def OneKey (h : Hist) : Prop :=
  ∃ key, ∀ e ∈ h, ∀ p ∈ e.op.lookup, p = key

/-- Two lookups of a call are at one key. -/
theorem OneKey.eq (hk : OneKey h) {e' : Event Op.Resp State} (he : e ∈ h) (he' : e' ∈ h)
    {p p' : String × ℤ} (hp : e.op.lookup = some p) (hp' : e'.op.lookup = some p') : p = p' := by
  obtain ⟨key, hkey⟩ := hk
  rw [hkey e he p hp, hkey e' he' p' hp']

/-- A plain operation is no lookup. -/
theorem Op.Plain.lookup (ho : o.Plain) : o.lookup = none := by
  cases o with
  | read inTx q =>
    cases inTx with
    | true => exact absurd ho id
    | false => cases q <;> first | rfl | exact absurd ho id
  | _ => exact absurd ho id

section OneKey

variable {ε α β : Type} {key : String × ℤ} {x : Proc ε α}

/-- The program looks for rows of one version of one tenant only. -/
abbrev LooksAt (key : String × ℤ) (x : Proc ε α) : Prop :=
  Avoids (fun o => ∃ p ∈ o.lookup, p ≠ key) x.run

/-- A plain program looks nowhere. -/
theorem Plain.looksAt (hx : Plain x) (key : String × ℤ) : LooksAt key x := by
  refine hx.mono fun o ho hplain => ?_
  obtain ⟨p, hp, -⟩ := ho
  rw [hplain.lookup] at hp
  cases hp

/-- An operation looks at its own key. -/
theorem looksAt_ask (ho : ∀ p ∈ o.lookup, p = key) (f : o.Resp → Except ε α) :
    LooksAt key (ask o f) :=
  ⟨fun ⟨p, hp, hne⟩ => hne (ho p hp), fun _ => trivial⟩

/-- When the program succeeds, the rows that it has looked for are of one version. -/
def OneKeyed (x : Proc ε α) : Prop :=
  ∀ (h : Hist) (a : α), Runs x.run h (.ok a) → OneKey h

/-- A program that looks at one key. -/
theorem LooksAt.oneKeyed (key : String × ℤ) (hx : LooksAt key x) : OneKeyed x := by
  refine fun h a hrun => ⟨key, fun e he p hp => ?_⟩
  by_contra hne
  exact (hx.after hrun).1 e he ⟨p, hp, hne⟩

/-- A plain part looks nowhere. -/
theorem Plain.oneKeyed_bind {f : α → Proc ε β} (hx : Plain x) (hf : ∀ a, OneKeyed (f a)) :
    OneKeyed (x >>= f) := by
  intro h b hrun
  obtain ⟨e1, e2, a, rfl, hx', hf'⟩ := runs_bind_ok hrun
  obtain ⟨key, hkey⟩ := hf a e2 b hf'
  refine ⟨key, fun e he p hp => ?_⟩
  rcases mem_append.mp he with he | he
  · by_contra hne
    exact ((hx.looksAt key).after hx').1 e he ⟨p, hp, hne⟩
  · exact hkey e he p hp

end OneKey

/-- A lookup is at its own key. -/
theorem looksAt_cachedConfig (v : ℤ) : LooksAt (T, v) (cachedConfig T v) := by
  have hask : ∀ {ε α : Type} (o : Op) (f : o.Resp → Except ε α), o.lookup = none →
      LooksAt (T, v) (ask o f) := fun o f ho => looksAt_ask (by simp [ho]) f
  have hfetch : LooksAt (T, v) (fetchAndCacheConfig T v) := by
    refine .bind_run (looksAt_ask (by simp [Op.lookup]) _) fun rows => ?_
    refine ((plain_getSchemaFieldSets T).looksAt _).bind_run fun fields => ?_
    refine .bind_run (hask _ _ ?_) fun _ => trivial
    split <;> rfl
  refine .bind_run (looksAt_ask (by simp [Op.lookup]) _) fun cached => ?_
  cases cached with
  | some values => exact trivial
  | none =>
    refine .bind_run (hask _ _ rfl) fun negative => ?_
    split
    · exact trivial
    · refine .bind_run (hask _ _ rfl) fun leader => ?_
      cases leader with
      | some leader => exact hask _ _ rfl
      | none => exact .bind hfetch fun r => ⟨by simp [Op.lookup], fun _ => trivial⟩

/-- **A `GetConfig` looks at one version.** -/
theorem oneKeyed_getConfig (req : GetConfigRequest) : OneKeyed (getConfig env caller req) := by
  refine (plain_ofExcept _).oneKeyed_bind fun _ => ?_
  refine (plain_resolveTenantWithAccess env caller _ _).oneKeyed_bind fun T => ?_
  refine (plain_resolveRequested _).oneKeyed_bind fun v => ?_
  refine (plain_fieldTypeMap env _ _).oneKeyed_bind fun types => LooksAt.oneKeyed (T, v) ?_
  refine Avoids.ite_run ?_ ?_
  · refine Avoids.bind_run (looksAt_ask (by simp [Op.lookup]) _) fun rows => ?_
    exact ((plain_getSchemaFieldSets T).looksAt _).bind_run fun fields => trivial
  · exact (looksAt_cachedConfig v).bind_run fun _ => trivial

/-- `GetField` looks at one key. -/
theorem oneKeyed_getField (req : GetFieldRequest) : OneKeyed (getField env caller req) := by
  refine (plain_ofExcept _).oneKeyed_bind fun _ => ?_
  refine (plain_resolveTenantWithAccess env caller _ _).oneKeyed_bind fun T => ?_
  refine (plain_resolveRequested _).oneKeyed_bind fun v => LooksAt.oneKeyed (T, v) ?_
  refine Avoids.bind_run (looksAt_ask (by simp [Op.lookup]) _) fun row => ?_
  refine ((plain_getSchemaFieldSets T).looksAt _).bind_run fun fields => ?_
  exact ((plain_fieldTypeMap env _ T).looksAt _).bind_run fun types => trivial

/-- `GetFields` looks at one key. -/
theorem oneKeyed_getFields (req : GetFieldsRequest) : OneKeyed (getFields env caller req) := by
  refine (plain_ofExcept _).oneKeyed_bind fun _ => (plain_require _ _).oneKeyed_bind fun _ => ?_
  refine (plain_resolveTenantWithAccess env caller _ _).oneKeyed_bind fun T => ?_
  refine (plain_resolveRequested _).oneKeyed_bind fun v => LooksAt.oneKeyed (T, v) ?_
  refine ((plain_fieldTypeMap env _ T).looksAt _).bind_run fun types => ?_
  refine ((plain_getSchemaFieldSets T).looksAt _).bind_run fun fields => ?_
  refine Avoids.bind_run (Avoids.collect (fun f => ?_) _) fun rows => trivial
  exact looksAt_ask (by simp [Op.lookup]) _

/-! ### Which calls fill the cache -/

/-- A write does not fill the cache. -/
theorem Preparing.not_filling (hp : Preparing env call h (.op o k)) : ¬ o.Fills := by
  obtain ⟨w, pre, post, -, audit, rest, onError, changes, hfin, -, -, -, -, -, -, hafter⟩ := hp
  exact ((commitWrite_noFill hfin.quiet).after hafter).2.1

/-- **Only a `GetConfig` fills the cache.** -/
theorem Call.filling (h0 : After (call.proc env).run h (.op o k)) (ho : o.Fills) :
    ∃ caller req, call = .getConfig caller req := by
  by_contra hget
  cases Call.cleared (q := .op o k) (.inl ho.shares.concludes) h0 with
  | repeated hdup => cases hdup
  | preparing hp => exact hp.not_filling ho
  | unchanged _ hend => cases hend
  | other hcall =>
    have hshare : Avoids Op.Shares (call.proc env).run :=
      Call.noShare hcall fun caller req h => hget ⟨caller, req, h⟩
    exact (hshare.after h0).2.1 ho.shares

end Decree
