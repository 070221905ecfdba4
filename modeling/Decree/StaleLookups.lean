import Decree.FactoryTraces

/-!
# Stale Lookups of the Factory

A getter of the factory that misses reads the row of the tenant, then what its schema says, and
stores that in the cache. When `UpdateTenant` commits and drops the caches in between, the getter
puts back what it had read before, and every later lookup is answered with the schema that the
tenant has left. It is not in runs in which a tenant is still bound as the getter has read it when
it stores (`Rereads`).

## Main results

* `cached_since`: what is cached is from after every update.
* `lookups_current`: lookups are current.
-/

open Interleave List

namespace Decree

variable {env : Env} {init : ServerInit} {allowed : ServerSystem → ℕ → ServerChoice → Prop}
  {d d' d₁ d₂ : ServerSystem} {t u : ℕ} {T : String} {k : Slot}
  {q : Unit → Prog (Both Op.Resp ServerOp.Resp) Answer} {ch : ServerChoice} {σ σ' : Server}
  {tn : Tenant} {reads : ServerHist}

/-! ### Who stores -/

/-- The getters that are looked at: the programs and their environment are not. -/
def Slot.served : Slot → Bool
  | validators | rules | validations => true
  | celEnv | celPrograms => false

/-- The operation stores in a cache of the getters. -/
def ServedStore : Op ⊕ ServerOp → Prop
  | .inr (.store k _ _) => k.served = true
  | _ => False

theorem Request.served_of_looksUp {req : Request} (h : req.looksUp = some (k, T)) :
    k.served = true := by
  cases req with
  | getValidators | getDependentRequired | getValidations =>
    cases h
    rfl
  | call | updateTenant | getCelArtifacts => cases h

variable {value : k.Value}

/-- **What a request stores** in a cache was built from what it has read just before. -/
theorem Request.stored {req : Request} (hk : k.served = true) {evs : ServerHist}
    (h : After (req.prog env) evs (.op (.inr (.store k T value)) q)) :
    ∃ pre tn reads, evs = pre ++ reads ∧ Built env T tn k value reads := by
  have hleft : ∀ o, ¬ ServedStore (.inl o) := fun _ h => h
  -- a getter that is about to store has built the value
  have hgetter : ∀ (k' : Slot) (T' : String) (build : ServerProc FactoryErr k'.Value)
      (kont : Unit → Prog (Both Op.Resp ServerOp.Resp) (Except FactoryErr k'.Value)),
      Builds env k' T' build →
      After (throughCache k' T' build).run evs (.op (.inr (.store k T value)) kont) →
      ∃ pre tn reads, evs = pre ++ reads ∧ Built env T tn k value reads := by
    intro k' T' build kont hb h'
    rcases throughCache_trace hb (q := .op (.inr (.store k T value)) kont) trivial h' with
      ⟨_, _, -, hq⟩ | ⟨value', σ, tn, reads, post, rfl, hbuilt, ⟨rfl, _, hq⟩ | ⟨-, hq⟩⟩
    · cases hq
    · cases (Prog.op.inj hq).1
      exact ⟨[_], tn, reads, by simp; rfl, hbuilt⟩
    · cases hq
  rcases hl : req.looksUp with _ | ⟨k', T'⟩
  · cases req with
    | call c =>
      obtain ⟨_, h'⟩ := after_map_op h
      exact absurd hk ((avoids_left hleft _).after h').2.1
    | updateTenant caller req =>
      obtain ⟨_, h'⟩ := after_map_op h
      exact absurd hk ((avoids_updateTenant (fun _ _ => hleft _) (fun _ _ _ h => h)
        (fun _ _ h => h) caller req).after h').2.1
    | getCelArtifacts T' =>
      obtain ⟨kont, h'⟩ := after_map_op h
      rcases after_bind_op h' with ⟨_, hval⟩ | ⟨e1, e2, rules, rfl, -, hrest⟩
      · exact hgetter _ _ _ _ (builds_validations env T') hval
      · have hquiet : Avoids ServedStore (artifactsOf env T' rules).run :=
          avoids_artifactsOf (fun _ _ => hleft _) (fun _ _ h => h) (fun _ h => h) (fun _ h => h)
            (fun _ h => Bool.false_ne_true h) (fun _ h => Bool.false_ne_true h) rules
        exact absurd hk (hquiet.after hrest).2.1
    | _ => cases hl
  · obtain ⟨build, hb, hprog⟩ := Request.prog_of_looksUp env hl
    rw [hprog] at h
    obtain ⟨kont, h'⟩ := after_map_op h
    exact hgetter _ _ _ _ hb h'

/-! ### The caches along a run -/

@[simp] theorem Server.setCache_self (σ : Server) (k : Slot) (T : String)
    (value : Option k.Value) : (σ.setCache k T value).caches k T = value := by
  simp [Server.setCache]

theorem Server.setCache_of_ne (σ : Server) {k' : Slot} {T' : String} (value : Option k.Value)
    (hne : ¬ (k' = k ∧ T' = T)) :
    (σ.setCache k T value).caches k' T' = σ.caches k' T' := by
  by_cases hk : k' = k
  · subst hk
    have hT : T' ≠ T := fun h => hne ⟨rfl, h⟩
    simp [Server.setCache, hT]
  · simp [Server.setCache, hk]

theorem Server.setCache_cases (σ : Server) (k k' : Slot) (T T' : String) (value : Option k.Value) :
    (σ.setCache k T value).caches k' T' = σ.caches k' T' ∨
      (k' = k ∧ T' = T ∧ HEq ((σ.setCache k T value).caches k' T') value) := by
  by_cases h : k' = k ∧ T' = T
  · obtain ⟨rfl, rfl⟩ := h
    exact .inr ⟨rfl, rfl, by simp⟩
  · exact .inl (σ.setCache_of_ne value h)

/-- **What a step does to an entry**: it leaves it, drops it, or stores a value. -/
theorem execServer_caches {o : Op ⊕ ServerOp} {r : Both Op.Resp ServerOp.Resp o}
    (h : execServer ch t o σ = some (r, σ')) (k : Slot) (T : String) :
    σ'.caches k T = σ.caches k T ∨ σ'.caches k T = none ∨
      ∃ value, o = .inr (.store k T value) ∧ σ'.caches k T = some value := by
  obtain o | o := o
  · exact .inl (by rw [(execServer_inl h).2.1])
  · cases o with
    | updateTenant id stmts audit => exact .inl (by rw [(execServer_updateTenant h).2.1])
    | load k' T' =>
      rw [execServer, execServerOp] at h
      split at h <;> cases h
      · rcases σ.setCache_cases k' k T' T none with hsame | ⟨rfl, rfl, hnew⟩
        · exact .inl hsame
        · exact .inr (.inl (eq_of_heq hnew))
      · exact .inl rfl
    | store k' T' value =>
      cases h
      rcases σ.setCache_cases k' k T' T (some value) with hsame | ⟨rfl, rfl, hnew⟩
      · exact .inl hsame
      · exact .inr (.inr ⟨value, rfl, eq_of_heq hnew⟩)
    | delete k' T' =>
      cases h
      rcases σ.setCache_cases k' k T' T none with hsame | ⟨rfl, rfl, hnew⟩
      · exact .inl hsame
      · exact .inr (.inl (eq_of_heq hnew))
    | loadProgram key =>
      cases h
      exact .inl rfl
    | loadOrStoreProgram key prog =>
      rw [execServer, execServerOp] at h
      split at h <;> obtain ⟨-, rfl⟩ := answer_inj h <;> exact .inl rfl

/-- A hit is cached. -/
theorem cached_of_load
    (h : execServer ch t (.inr (.load k T)) σ = some ((some value : Option k.Value), σ')) :
    σ.caches k T = some value := by
  rw [execServer, execServerOp] at h
  split at h <;> obtain ⟨hr, -⟩ := answer_inj h
  · cases hr
  · exact hr

/-! ### Getters that store what is current -/

/-- The schema version that a row names. -/
def Tenant.binding (tn : Tenant) : String × ℤ :=
  (tn.schemaID, tn.schemaVersion)

def rowRead (T : String) : ServerEvent → Option Tenant
  | ⟨.inl (.read _ (.tenantByID T')), r, _⟩ =>
    match (r : Except StoreErr Tenant) with
    | .ok tn => if T' = T then some tn else none
    | .error _ => none
  | _ => none

def lastRow (T : String) (h : ServerHist) : Option Tenant :=
  (h.filterMap (rowRead T)).getLast?

/-- The tenant for which a getter is about to store. -/
def nextStore (d : ServerSystem) (t : ℕ) : Option String :=
  match (d.pool t).prog with
  | .op (.inr (.store k T _)) _ => if k.served then some T else none
  | _ => none

/-- **A getter stores what is current**: the tenant is bound as the getter has read it. -/
def Rereads (d : ServerSystem) (t : ℕ) (_ : ServerChoice) : Prop :=
  ∀ T ∈ nextStore d t, (lastRow T (d.pool t).hist).map Tenant.binding =
    (d.shared.store.db.tenantByID T).map Tenant.binding

instance : Decidable (Rereads d t ch) :=
  inferInstanceAs (Decidable (∀ _ ∈ _, _))

theorem rowRead_self : rowRead T (serverRead (.tenantByID T) (.ok tn) σ) = some tn :=
  if_pos rfl

/-- The row that a value is built from. -/
theorem Built.lastRow {pre : ServerHist} (h : Built env T tn k value reads) :
    lastRow T (pre ++ reads) = some tn := by
  have hrows : reads.filterMap (rowRead T) = [tn] := by
    cases h with
    | validators | rules | validations =>
      refine (filterMap_cons_some rowRead_self).trans ?_
      rfl
  rw [Decree.lastRow, filterMap_append, hrows, getLast?_concat]

/-- It is read first. -/
theorem Built.row (h : Built env T tn k value reads) :
    ∃ σ rest, reads = serverRead (.tenantByID T) (.ok tn) σ :: rest := by
  cases h with
  | validators | rules | validations => exact ⟨_, _, rfl⟩

/-- **What was built is what the schema version says** that the row names. -/
theorem Built.gives (hr : Reach execServer allowed (init.system env) d)
    (h : Built env T tn k value reads) (hsub : reads ⊆ (d.pool t).hist) :
    ∃ sv, d.shared.store.db.schemaVersion tn.schemaID tn.schemaVersion = some sv ∧
      sv.Gives env k value := by
  cases h with
  | validators hvs =>
    have hsv := schemaVersion_now hr (hsub (mem_cons_of_mem _ mem_cons_self))
    refine ⟨_, hsv, ?_⟩
    obtain rfl := fields_now hr (mem_of_find?_eq_some hsv) (hsub (mem_append_right _ mem_cons_self))
    exact hvs
  | rules =>
    exact ⟨_, schemaVersion_now hr (hsub (mem_cons_of_mem _ mem_cons_self)), rfl⟩
  | validations =>
    exact ⟨_, schemaVersion_now hr (hsub (mem_cons_of_mem _ mem_cons_self)), rfl⟩

/-- The schema version that a row names is the one that a tenant is bound to whose row is
bound so. -/
theorem Tables.boundSchema_of_row {db : Tables} {tn' : Tenant} {sv : SchemaVersion}
    (hrow : db.tenantByID T = some tn') (hbind : tn.binding = tn'.binding)
    (hsv : db.schemaVersion tn.schemaID tn.schemaVersion = some sv) :
    db.boundSchema T = some sv := by
  obtain ⟨hschema, hversion⟩ := Prod.mk.inj hbind
  rw [Tables.boundSchema, hrow, Option.bind_some, ← hschema, ← hversion, hsv]

/-! ### Lookups after an update -/

/-- The call has dropped the entry of a tenant. -/
def Dropped (d : ServerSystem) (u : ℕ) (k : Slot) (T : String) : Prop :=
  ∃ σ, (⟨.inr (.delete k T), (), σ⟩ : ServerEvent) ∈ (d.pool u).hist

def Updated (d : ServerSystem) (u : ℕ) (T : String) : Prop :=
  ∃ stmts audit tn σ,
    (⟨.inr (.updateTenant T stmts audit), .ok tn, σ⟩ : ServerEvent) ∈ (d.pool u).hist

/-- A dropped entry stays dropped. -/
theorem Dropped.mono (h : Dropped d u k T) (hr : Reach execServer allowed d d') :
    Dropped d' u k T := by
  obtain ⟨σ, he⟩ := h
  obtain ⟨evs, hh, -⟩ := hr.after u
  exact ⟨σ, hh ▸ mem_append_left _ he⟩

/-- Where an `UpdateTenant` has dropped an entry, it has updated the tenant. -/
theorem Dropped.updated (hr : Reach execServer allowed (init.system env) d) {caller : Caller}
    {req : UpdateTenantRequest} (hu : init.requests u = .updateTenant caller req)
    (h : Dropped d u k T) : Updated d u T := by
  obtain ⟨σ, he⟩ := h
  obtain ⟨h1, h2, hh⟩ := append_of_mem he
  have hafter := server_after hr u
  rw [hu, hh] at hafter
  obtain ⟨k', hk', -⟩ := hafter.split
  obtain ⟨_, h'⟩ := after_map_op hk'
  obtain ⟨audit, tn, σ', hmem⟩ := updateTenant_deleting h'
  exact ⟨_, audit, tn, σ', hh ▸ mem_append_left _ hmem⟩

/-- An `UpdateTenant` with a schema version that has returned has dropped every entry of the
tenant. -/
theorem dropped_of_returned (henv : env.hasValidators = true)
    (hr : Reach execServer allowed (init.system env) d) {caller : Caller}
    {req : UpdateTenantRequest} (hu : init.requests u = .updateTenant caller req)
    (hver : req.schemaVersion.isSome = true)
    (hret : d.returned u = some (.updated (.ok tn))) (k : Slot) : Dropped d u k tn.id := by
  have hafter := server_after hr u
  rw [hu, Config.returned_eq_some.mp hret] at hafter
  obtain ⟨q', hq', h'⟩ := after_map hafter
  obtain rfl : q' = .ret (.ok tn) := by
    cases q' with
    | ret r =>
      cases hq'
      rfl
    | op o k => cases hq'
  obtain ⟨id, audit, σ, hupd, hdel⟩ := updateTenant_returned h'
  obtain ⟨ch, e1, e2, -, -, hexec, -⟩ := server_event hr hupd
  have hne : req.stmts ≠ [] := by
    obtain ⟨v, hv⟩ := Option.isSome_iff_exists.mp hver
    simp [UpdateTenantRequest.stmts, hv]
  obtain rfl := execUpdateTenant_id hne (execServer_updateTenant hexec).1
  exact hdel henv hver k

/-- What a getter stores is what the tenant's schema says at that moment. -/
theorem current_of_store (hr : Reach execServer Rereads (init.system env) d) (ha : Rereads d t ch)
    (hk : k.served = true) (hp : (d.pool t).prog = .op (.inr (.store k T value)) q) :
    ∃ sv, d.shared.store.db.boundSchema T = some sv ∧ sv.Gives env k value := by
  have hafter := server_after hr t
  rw [hp] at hafter
  obtain ⟨pre, tn, reads, hh, hbuilt⟩ := Request.stored hk hafter
  obtain ⟨sv, hsv, hgives⟩ := hbuilt.gives hr (hh ▸ subset_append_right pre reads)
  have hnext : T ∈ nextStore d t := by
    rw [nextStore, hp]
    simp [hk]
  have hbind := ha T hnext
  rw [hh, hbuilt.lastRow, Option.map_some] at hbind
  obtain ⟨tn', hrow, hbind'⟩ := Option.map_eq_some_iff.mp hbind.symm
  exact ⟨sv, Tables.boundSchema_of_row hrow hbind'.symm hsv, hgives⟩

/-- **What is cached is from after every invalidation**, where what is stored is what the tenant's
schema says at that moment: it is what a schema version says that the tenant was bound to when
every call that has dropped the entry since had already done so. -/
theorem cached_since (hstore : ∀ d t ch value q, Reach execServer allowed (init.system env) d →
      allowed d t ch → (d.pool t).prog = .op (.inr (.store k T value)) q →
      ∃ sv, d.shared.store.db.boundSchema T = some sv ∧ sv.Gives env k value)
    (hr : Reach execServer allowed (init.system env) d)
    (hval : d.shared.caches k T = some value) :
    ∃ d', Reach execServer allowed (init.system env) d' ∧ Reach execServer allowed d' d ∧
      (∀ u, Dropped d u k T → Dropped d' u k T) ∧
      ∃ sv, d'.shared.store.db.boundSchema T = some sv ∧ sv.Gives env k value := by
  refine hr.invariant (fun d => ∀ value, d.shared.caches k T = some value →
    ∃ d', Reach execServer allowed (init.system env) d' ∧ Reach execServer allowed d' d ∧
      (∀ u, Dropped d u k T → Dropped d' u k T) ∧
      ∃ sv, d'.shared.store.db.boundSchema T = some sv ∧ sv.Gives env k value) nofun ?_ value hval
  intro d d' t ch hr ih ha hs value hval
  have hr' : Reach execServer allowed d d' := .tail (.refl d) ha hs
  obtain ⟨o, q, r, hp, he, hpool⟩ := step_eq_some hs
  -- an entry is not there just after it was dropped
  have hbefore : ∀ u, Dropped d' u k T → Dropped d u k T := by
    rintro u ⟨σ, hmem⟩
    by_cases hu : u = t
    · subst hu
      rw [hpool, Function.update_self] at hmem
      rcases mem_append.mp hmem with hmem | hmem
      · exact ⟨σ, hmem⟩
      · cases mem_singleton.mp hmem
        obtain ⟨-, hσ⟩ := answer_inj he
        rw [← hσ, Server.setCache_self] at hval
        cases hval
    · rw [hpool, Function.update_of_ne hu] at hmem
      exact ⟨σ, hmem⟩
  rcases execServer_caches he k T with hsame | hnone | ⟨value', rfl, hnew⟩
  · obtain ⟨d0, hr0, hd0, hdrop, hsv⟩ := ih value (hsame ▸ hval)
    exact ⟨d0, hr0, hd0.trans hr', fun u hu => hdrop u (hbefore u hu), hsv⟩
  · cases (hval.symm.trans hnone)
  · obtain rfl := Option.some.inj (hval.symm.trans hnew)
    exact ⟨d, hr, hr', hbefore, hstore d t ch _ q hr ha hp⟩

/-- **Lookups after an `UpdateTenant` are current**: in every run in which a tenant is bound as
a getter has read it when the getter stores, a lookup that begins after an `UpdateTenant` with a
schema version has returned is answered with a schema that the tenant was bound to at a moment
not before that update. -/
theorem lookups_current (henv : env.hasValidators = true)
    (hr : Reach execServer Rereads (init.system env) d₁) {caller : Caller}
    {req : UpdateTenantRequest} (hu : init.requests u = .updateTenant caller req)
    (hver : req.schemaVersion.isSome = true) {tn : Tenant}
    (hret : d₁.returned u = some (.updated (.ok tn)))
    (hg : (init.requests t).looksUp = some (k, tn.id)) (hstart : (d₁.pool t).hist = [])
    (hr' : Reach execServer Rereads d₁ d₂) {value : k.Value}
    (hval : d₂.returned t = some (.looked k (.ok value))) :
    ∃ d, Reach execServer Rereads (init.system env) d ∧ Reach execServer Rereads d d₂ ∧
      Updated d u tn.id ∧
      ∃ sv, d.shared.store.db.boundSchema tn.id = some sv ∧ sv.Gives env k value := by
  have hdrop : Dropped d₁ u k tn.id := dropped_of_returned henv hr hu hver hret k
  have hk := Request.served_of_looksUp hg
  obtain ⟨build, hb, hprog⟩ := Request.prog_of_looksUp env hg
  have hr2 := hr.trans hr'
  have hafter := server_after hr2 t
  rw [hprog, Config.returned_eq_some.mp hval] at hafter
  obtain ⟨q', hq', h'⟩ := after_map hafter
  obtain rfl : q' = .ret (.ok value) := by
    cases q' with
    | ret r =>
      obtain ⟨-, hr⟩ := Answer.looked.inj (Prog.ret.inj hq')
      obtain rfl := eq_of_heq hr
      rfl
    | op o k => cases hq'
  rcases throughCache_trace hb (q := .ret (.ok value)) trivial h' with
    ⟨value', σ, hh, hq⟩ | ⟨value', σ, tn', reads, post, hh, hbuilt, ⟨-, _, hq⟩ | ⟨-, hq⟩⟩
  · -- the cache had it
    cases hq
    obtain ⟨ch, e1, e2, hstep⟩ := hr'.event hstart (hh.trans (nil_append _).symm)
    have hcached := cached_of_load hstep.answer
    rw [← hstep.pre] at hcached
    obtain ⟨d, hd, hd', hdrop', hsv⟩ := cached_since
      (fun _ _ _ _ _ hr ha hp => current_of_store hr ha hk hp) (hr.trans hstep.reach) hcached
    have hlast := Reach.trans (.tail (.refl e1) hstep.admitted hstep.stepped) hstep.rest
    exact ⟨d, hd, hd'.trans hlast, (hdrop' u (hdrop.mono hstep.reach)).updated hd hu, hsv⟩
  · cases hq
  · -- it was built from the row as it was read after the update
    cases hq
    have hsub : reads ⊆ (d₂.pool t).hist := by
      rw [hh]
      exact fun e he => mem_cons_of_mem _ (mem_append_left _ he)
    obtain ⟨sv, hsv, hgives⟩ := hbuilt.gives hr2 hsub
    obtain ⟨σ', rest, hrow⟩ := hbuilt.row
    have hmem : serverRead (.tenantByID tn.id) (.ok tn') σ' ∈ reads := hrow ▸ mem_cons_self
    have hfound : σ'.store.db.tenantByID tn.id = some tn' :=
      found_eq_ok.mp (server_read hr2 (by simp) (hsub hmem))
    obtain ⟨g1, g2, hg'⟩ := append_of_mem (hsub hmem)
    obtain ⟨ch, e1, e2, hstep⟩ := hr'.event hstart hg'
    have hreach := hr.trans hstep.reach
    have hpre : e1.shared = σ' := hstep.pre
    refine ⟨e1, hreach, Reach.trans (.tail (.refl e1) hstep.admitted hstep.stepped) hstep.rest,
      (hdrop.mono hstep.reach).updated hreach hu, sv,
      Tables.boundSchema_of_row (hpre ▸ hfound) rfl ?_, hgives⟩
    rw [Tables.schemaVersion, server_schemas hreach, ← server_schemas hr2]
    exact hsv

/-- The `dependentRequired` entries that a request has returned. -/
def rulesBy (d : ServerSystem) (t : ℕ) : Option (List DependentRequiredEntry) :=
  match d.returned t with
  | some (.looked .rules (.ok rules)) => some rules
  | _ => none

theorem rulesBy_eq_some {rules : List DependentRequiredEntry} (h : rulesBy d t = some rules) :
    d.returned t = some (.looked .rules (.ok rules)) := by
  rw [rulesBy] at h
  split at h
  · rename_i hret
    rw [hret, Option.some.inj h]
  · cases h

/-- The tenant that an `UpdateTenant` has returned. -/
def updatedBy (d : ServerSystem) (t : ℕ) : Option Tenant :=
  match d.returned t with
  | some (.updated (.ok tn)) => some tn
  | _ => none

theorem updatedBy_eq_some (h : updatedBy d t = some tn) :
    d.returned t = some (.updated (.ok tn)) := by
  rw [updatedBy] at h
  split at h
  · rename_i hret
    rw [hret, Option.some.inj h]
  · cases h

namespace Sample

def schema₂ : SchemaVersion :=
  { schema with id := "sv2", version := 2, dependentRequired := [⟨"a", ["b"]⟩] }

def serverInit (requests : List Request) : ServerInit where
  tenants := [⟨tenant, "acme", "s", 1, false⟩]
  schemas := ⟨[schema, schema₂], by decide⟩
  locks _ := []
  requests t := requests.getD t (.getValidations "")

def rebound : Tenant :=
  ⟨tenant, "acme", "s", 2, false⟩

def rebind : Request :=
  .updateTenant superadmin { id := tenant, schemaVersion := some 2 }

def serverSteps (t n : ℕ) : List (ℕ × ServerChoice) :=
  List.replicate n (t, ⟨.ok, none⟩)

def lookups : ServerInit :=
  serverInit [.getDependentRequired tenant, rebind, .getDependentRequired tenant]

end Sample

open Sample

theorem lookups_current_second : ∃ d₁ d₂ d, Reach execServer Rereads
        (lookups.system (world noDocument)) d₁ ∧
      Reach execServer Rereads d₁ d₂ ∧ rulesBy d₂ 2 = some [⟨"a", ["b"]⟩] ∧
      Reach execServer Rereads d d₂ ∧ Updated d 1 tenant ∧
      ∃ sv, d.shared.store.db.boundSchema tenant = some sv ∧
        sv.dependentRequired = [⟨"a", ["b"]⟩] := by
  obtain ⟨d₁, d₂, hr, ⟨hupd, hstart⟩, hr', hrules⟩ : ∃ d₁ d₂, Reach execServer Rereads
        (lookups.system (world noDocument)) d₁ ∧
      (updatedBy d₁ 1 = some rebound ∧ (d₁.pool 2).hist.length = 0) ∧
      Reach execServer Rereads d₁ d₂ ∧ rulesBy d₂ 2 = some [⟨"a", ["b"]⟩] :=
    exists_reach_of_runs (serverSteps 0 4 ++ serverSteps 1 8) (serverSteps 2 4) (by decide +kernel)
  obtain ⟨d, -, hd, hdrop, sv, hsv, hgives⟩ := lookups_current (k := .rules) rfl hr rfl rfl
    (updatedBy_eq_some hupd) rfl (length_eq_zero_iff.mp hstart) hr' (rulesBy_eq_some hrules)
  exact ⟨d₁, d₂, d, hr, hr', hrules, hd, hdrop, sv, hsv, hgives.symm⟩

/-- A getter that has read the tenant's row before the update stores after it: from then on the
entries of the version that the tenant has left are returned. -/
theorem lookups_stale : ∃ d₁ d₂ sv, Reach execServer anyStep
        (lookups.system (world noDocument)) d₁ ∧
      d₁.returned 1 = some (.updated (.ok rebound)) ∧ (d₁.pool 2).hist = [] ∧
      d₁.shared.store.db.boundSchema tenant = some sv ∧ Reach execServer anyStep d₁ d₂ ∧
      d₂.returned 2 = some (.looked .rules (.ok [])) ∧
      d₂.shared.store.db.boundSchema tenant = some sv ∧ sv.dependentRequired ≠ [] := by
  obtain ⟨d₁, d₂, hr, ⟨hupd, hstart, hsv⟩, hr', hrules, hsv'⟩ : ∃ d₁ d₂, Reach execServer anyStep
        (lookups.system (world noDocument)) d₁ ∧
      (updatedBy d₁ 1 = some rebound ∧ (d₁.pool 2).hist.length = 0 ∧
        d₁.shared.store.db.boundSchema tenant = some schema₂) ∧
      Reach execServer anyStep d₁ d₂ ∧ rulesBy d₂ 2 = some [] ∧
      d₂.shared.store.db.boundSchema tenant = some schema₂ :=
    exists_reach_of_runs (serverSteps 0 3 ++ serverSteps 1 8)
      (serverSteps 0 1 ++ serverSteps 2 1) (by decide +kernel)
  exact ⟨d₁, d₂, schema₂, hr, updatedBy_eq_some hupd, length_eq_zero_iff.mp hstart,
    hsv, hr', rulesBy_eq_some hrules, hsv', by simp [schema₂]⟩

end Decree
