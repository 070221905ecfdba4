import Decree.ReadPaths

/-!
# Reads at a Version

A read names the version it wants, or takes the latest. Nothing checks that a version which is
named exists, and what `GetConfig` fetches at it is cached. So a read ahead of the versions
succeeds, and what it caches can be shown again when the version has come. In runs in which every
version that is named exists when it is looked up, and no number overflows, what is read is the
snapshot of the store. Such a run is one of the server in which no tenant is updated.

## Main results

* `exists_server`: the run of the server.
* `versionedReads_stable`: versioned reads are stable.
* `getConfig_fresh`: reads of the latest version are fresh.
-/

open Interleave List

namespace Decree

variable {env : Env} {init : Init} {allowed : System → ℕ → Choice → Prop} {c c' : System}
  {d : ServerSystem} {t : ℕ} {T f : String} {v : ℤ} {e : Event Op.Resp State} {h₁ h₂ : Hist}
  {s : State} {caller : Caller} {req : GetConfigRequest} {reply : Reply}

/-! ### Timely reads -/

def Call.isGetConfig : Call → Bool
  | getConfig _ _ => true
  | _ => false

/-- The tenant and the version at which a call is about to look for rows. -/
def nextLookup (c : System) (t : ℕ) : Option (String × ℤ) :=
  match (c.pool t).prog with
  | .op o _ => o.lookup
  | .ret _ => none

/-- **The step is timely**: a version that is named is not above the latest when it is looked
up, for `GetConfig` also not below the first; and the number of a version that is committed has
not wrapped. -/
def Timely (init : Init) (c : System) (t : ℕ) (_ : Choice) : Prop :=
  (∀ p ∈ nextLookup c t, (init.calls t).requestedVersion = some p.2 →
    p.2 ≤ (latestConfigVersion (c.shared.db.log p.1)).getD 0 ∧
      ((init.calls t).isGetConfig = true → 1 ≤ p.2)) ∧
    ∀ p ∈ pendingCommit c t, 0 < p.2.2.version

instance (ch : Choice) : Decidable (Timely init c t ch) :=
  instDecidableAnd

/-- The calls as requests to the server. -/
def Init.server (init : Init) : ServerInit :=
  ⟨init.tenants, init.schemas, init.locks, fun t => .call (init.calls t)⟩

/-- A timely step of the calls keeps what the server shows. -/
theorem Timely.keepsShown {ch : Choice} (hc : Embedded Server.store Answer.reply c d)
    (ha : Timely init c t ch) : KeepsShown init.server d t ⟨ch, none⟩ := by
  have hlook : serverLookup d t = nextLookup c t := by
    rw [serverLookup, nextLookup, hc.prog]
    cases (c.pool t).prog <;> rfl
  have hpend : serverPending d t = (pendingCommit c t).map Prod.snd := by
    rw [serverPending, pendingCommit, pendingTx, hc.prog, ← hc.shared]
    rcases (c.pool t).prog with _ | ⟨o, k⟩
    · rfl
    · cases o with
      | commit => simp [Prog.left, bind, Prog.bind, Option.map_bind, Function.comp_def]
      | _ => rfl
  have hnext : nextUpdate d t = none := by
    rw [nextUpdate, hc.prog]
    cases (c.pool t).prog <;> rfl
  rw [KeepsShown, NamesExisting, hlook, hpend, hnext, hc.shared]
  refine ⟨⟨fun p hp hv => (ha.1 p hp hv).1, fun p hp => ?_⟩, by simp, by simp⟩
  obtain ⟨q, hq, rfl⟩ := Option.map_eq_some_iff.mp hp
  exact ha.2 q hq

/-- **A run of the calls is one of the server.** -/
theorem exists_server (hr : Reach exec (Timely init) (init.system env) c) :
    ∃ d, Reach execServer (KeepsShown init.server) (init.server.system env) d ∧
      Embedded Server.store Answer.reply c d := by
  refine hr.embed (fun ch => ⟨ch, none⟩) ?_ Timely.keepsShown ⟨rfl, fun _ => rfl, fun _ => rfl⟩
  intro ch t o r s s₁ he
  have hcall : execCall ⟨ch, none⟩ t o s.store = some (r, s₁) := by
    cases o with
    | read inTx q => cases q <;> exact he
    | _ => exact he
  exact ⟨{ s with store := s₁ }, by rw [execServer, hcall]; rfl, rfl⟩

/-! ### Versioned reads -/

/-- The tenant and the version that a read of config names. -/
def Call.readsAt : Call → Option (String × ℤ)
  | getConfig _ req => req.version.map (req.tenantId, ·)
  | getField _ req => req.version.map (req.tenantId, ·)
  | exportConfig _ req => req.version.map (req.tenantId, ·)
  | rollbackToVersion _ req => some (req.tenantId, req.version)
  | _ => none

section

variable (hr : Reach execServer (KeepsShown init.server) (init.server.system env) d)

include hr

/-- A version that shows a row is committed. -/
theorem committed_of_row (hlen : v ≤ (d.shared.store.db.log T).length) {row : ConfigValue}
    (hrow : configValueAtVersion (d.shared.store.db.log T) v f = some row) :
    v ∈ versionNumbers (d.shared.store.db.log T) := by
  have hdense := server_dense hr T
  have hshort := server_short (fun _ _ _ h => h.1) hr T
  obtain ⟨V, hV, hle, -⟩ := DeltaLog.exists_of_rowAt_eq_some hrow
  exact hdense.mem_of_le hshort ((hdense.pos_of_mem hshort (mem_map_of_mem hV)).trans hle) hlen

/-- A version at which rows were read is committed. -/
theorem committed_of_rows {rows : List ConfigValue} (hh : callHist d t = h₁ ++ h₂)
    (hv : VersionRead T (init.calls t).requestedVersion v h₁)
    (he : readEvent false (.fullConfigAtVersion T v) (.ok rows) s ∈ h₂) (hne : rows ≠ []) :
    v ∈ versionNumbers (d.shared.store.db.log T) := by
  obtain ⟨hlen, rfl⟩ := server_rows hr hh hv he
  obtain ⟨row, hrow⟩ := exists_mem_of_ne_nil _ hne
  exact committed_of_row hr hlen (mem_fullConfigAtVersion.mp hrow)

end

section

variable (hr : Reach exec (Timely init) (init.system env) c)

include hr

/-- A `GetConfig` that names a version names a positive one. -/
theorem one_le_of_lookup
    (hget : (init.calls t).isGetConfig = true) (hv : (init.calls t).requestedVersion = some v)
    (he : e ∈ (c.pool t).hist) (hlook : e.op.lookup = some (T, v)) : 1 ≤ v := by
  obtain ⟨_, ch, c₁, _, hstep⟩ := hr.event_of_mem rfl he
  obtain ⟨k, hk⟩ := hstep.next
  refine (hstep.admitted.1 (T, v) ?_ hv).2 hget
  rw [nextLookup, hk]
  exact hlook

/-- **A read that has succeeded at a version is at a committed one.** -/
theorem committed_of_returned (hret : c.returned t = some (.ok reply)) {idOrName : String}
    (hread : (init.calls t).readsAt = some (idOrName, v))
    (hT : c.shared.db.tenantOf idOrName = some T) : v ∈ versionNumbers (c.shared.db.log T) := by
  obtain ⟨d, hd, hc⟩ := exists_server hr
  have hafter := returned_runs hr hret
  have hhist : callHist d t = (c.pool t).hist := hc.hist t
  rw [← hc.shared]
  cases hcall : init.calls t with
  | getConfig caller req =>
    rw [hcall] at hread
    obtain ⟨w, hw, hpair⟩ := Option.map_eq_some_iff.mp hread
    cases hpair
    obtain ⟨T', v', sv, types, hres, hv, ⟨e, he, hlook⟩, hlen, -⟩ :=
      getConfig_returned hd (congrArg Request.call hcall) (hc.returned hret)
    rw [hhist] at hres he
    obtain rfl := Option.some.inj ((tenantOf_now hr hres).symm.trans hT)
    obtain rfl := hv.eq_of_some hw
    exact (server_dense hd T').mem_of_le (server_short (fun _ _ _ h => h.1) hd T')
      (one_le_of_lookup hr (hcall ▸ rfl) (hcall ▸ hw) he hlook) hlen
  | getField caller req =>
    rw [hcall] at hafter hread
    obtain ⟨w, hw, hpair⟩ := Option.map_eq_some_iff.mp hread
    cases hpair
    obtain ⟨T', v', types, fields, row, s, h₁, h₂, hh, hres, hv, he, -⟩ := getField_trace hafter
    obtain rfl := Option.some.inj ((tenantOf_now hr (hres.mono
      (hh ▸ sublist_append_left ..))).symm.trans hT)
    obtain rfl := hv.eq_of_some hw
    obtain ⟨hlen, hfail | hrow⟩ := server_row hd (hhist.trans hh)
      (show VersionRead _ (init.calls t).requestedVersion _ _ from hcall ▸ hv) he
    · cases hfail
    · exact committed_of_row hd hlen (found_eq_ok.mp hrow.symm)
  | exportConfig caller req =>
    rw [hcall] at hafter hread
    obtain ⟨w, hw, hpair⟩ := Option.map_eq_some_iff.mp hread
    cases hpair
    obtain ⟨T', v', rows, s, h₁, h₂, hh, hres, hv, he, hne⟩ := exportConfig_trace hafter
    obtain rfl := Option.some.inj ((tenantOf_now hr (hres.mono
      (hh ▸ sublist_append_left ..))).symm.trans hT)
    obtain rfl := hv.eq_of_some hw
    exact committed_of_rows hd (hhist.trans hh) (hcall ▸ hv) he hne
  | rollbackToVersion caller req =>
    rw [hcall] at hafter hread
    cases hread
    obtain ⟨T', rows, s, hres, he, hne⟩ := rollbackToVersion_trace hafter
    obtain rfl := Option.some.inj ((tenantOf_now hr hres).symm.trans hT)
    exact committed_of_rows hd (nil_append _).symm (.inl (hcall ▸ rfl)) (hhist ▸ he) hne
  | _ =>
    rw [hcall] at hread
    cases hread

/-- **What a `GetConfig` shows** at a version depends on the store only, not on what was
cached. -/
theorem shown_of_getConfig (hcall : init.calls t = .getConfig caller req)
    (hv : req.version = some v) (hT : c.shared.db.tenantOf req.tenantId = some T)
    {config : PbConfig} (hret : c.returned t = some (.ok (.config config))) :
    ∃ sv, c.shared.db.boundSchema T = some sv ∧
      config.shown = (fullConfigAtVersion (c.shared.db.log T) v).map fun row => (row.fieldPath,
        stringToTypedValue (some (displayValue sv.fields row)) (sv.typeOf env row.fieldPath)) := by
  obtain ⟨d, hd, hc⟩ := exists_server hr
  obtain ⟨T', v', sv, types, hres, hread, -, -, hsv, htypes, hreply⟩ :=
    getConfig_returned hd (congrArg Request.call hcall) (hc.returned hret)
  rw [show callHist d t = (c.pool t).hist from hc.hist t] at hres
  obtain rfl := Option.some.inj ((tenantOf_now hr hres).symm.trans hT)
  obtain rfl := hread.eq_of_some hv
  cases hreply
  rw [← hc.shared]
  refine ⟨sv, hsv, ?_⟩
  rw [PbConfig.shown]
  split
  · simp [valueWithDescription, htypes]
  · simp [cachedValues, valueOfCached, htypes]

end

def shownBy (c : System) (t : ℕ) : Option (List (String × Option TypedValue)) :=
  match c.returned t with
  | some (.ok (.config config)) => some config.shown
  | _ => none

theorem shownBy_eq_some {values : List (String × Option TypedValue)} : shownBy c t = some values ↔
      ∃ config, c.returned t = some (.ok (.config config)) ∧ config.shown = values := by
  rw [shownBy]
  split
  · rename_i config hret
    simp [hret]
  · rename_i hne
    simp only [reduceCtorEq, false_iff, not_exists, not_and]
    intro config hret
    exact absurd hret (hne config)

/-- **Versioned reads are stable**: in every run in which the versions that are named exist when
they are looked up, a read that has succeeded at a version is at a committed one, and any two
`GetConfig` at the same version of a tenant show the same fields and values, whatever was
written between them. -/
theorem versionedReads_stable (hr : Reach exec (Timely init) (init.system env) c) :
    (∀ t idOrName v T reply, c.returned t = some (.ok reply) →
      (init.calls t).readsAt = some (idOrName, v) → c.shared.db.tenantOf idOrName = some T →
      v ∈ versionNumbers (c.shared.db.log T)) ∧
    ∀ t t' caller caller' req req' v T config config',
      init.calls t = .getConfig caller req → init.calls t' = .getConfig caller' req' →
      req.version = some v → req'.version = some v →
      c.shared.db.tenantOf req.tenantId = some T → c.shared.db.tenantOf req'.tenantId = some T →
      c.returned t = some (.ok (.config config)) → c.returned t' = some (.ok (.config config')) →
      config.shown = config'.shown := by
  refine ⟨fun t idOrName v T reply hret hread hT => committed_of_returned hr hret hread hT, ?_⟩
  intro t t' caller caller' req req' v T config config' hcall hcall' hv hv' hT hT' hret hret'
  obtain ⟨sv, hsv, hshown⟩ := shown_of_getConfig hr hcall hv hT hret
  obtain ⟨sv', hsv', hshown'⟩ := shown_of_getConfig hr hcall' hv' hT' hret'
  obtain rfl := Option.some.inj (hsv.symm.trans hsv')
  rw [hshown, hshown']

namespace Sample

def rereads (version : ℤ) : Init :=
  Sample.init [] [set superadmin "b" "x", getAt version, set superadmin "b" "y", getAt version]

end Sample

open Sample

theorem versionedReads_stable_first : ∃ c config config', Reach exec (Timely (rereads 1))
        ((rereads 1).system (world noDocument)) c ∧
      c.returned 1 = some (.ok (.config config)) ∧ c.returned 3 = some (.ok (.config config')) ∧
      versionNumbers (c.shared.db.log tenant) = [1, 2] ∧
      1 ∈ versionNumbers (c.shared.db.log tenant) ∧ config.shown = config'.shown := by
  obtain ⟨c, hr, h₁, h3, hnum, hT⟩ : ∃ c, Reach exec (Timely (rereads 1))
        ((rereads 1).system (world noDocument)) c ∧
      shownBy c 1 = some [("b", some (.stringValue "x"))] ∧
      shownBy c 3 = some [("b", some (.stringValue "x"))] ∧
      versionNumbers (c.shared.db.log tenant) = [1, 2] ∧
      c.shared.db.tenantOf tenant = some tenant :=
    exists_reach_of_run (steps 0 16 ++ steps 1 10 ++ steps 2 17 ++ steps 3 10) (by decide +kernel)
  obtain ⟨config, hret, -⟩ := shownBy_eq_some.mp h₁
  obtain ⟨config', hret', -⟩ := shownBy_eq_some.mp h3
  obtain ⟨hcommitted, hsame⟩ := versionedReads_stable hr
  exact ⟨c, config, config', hr, hret, hret', hnum, hcommitted 1 _ 1 _ _ hret rfl hT,
    hsame 1 3 _ _ _ _ 1 _ _ _ rfl rfl rfl rfl hT hT hret hret'⟩

/-- A `GetConfig` at a version that does not exist yet succeeds, and one at the same version
shows something else once the version has been committed. -/
theorem versionedReads_unstable : ∃ c₁ c₂ config config', Reach exec anyStep
        ((rereads 2).system (world noDocument)) c₁ ∧
      c₁.returned 1 = some (.ok (.config config)) ∧
      2 ∉ versionNumbers (c₁.shared.db.log tenant) ∧ Reach exec anyStep c₁ c₂ ∧
      c₂.returned 1 = some (.ok (.config config)) ∧
      c₂.returned 3 = some (.ok (.config config')) ∧ config.shown ≠ config'.shown := by
  obtain ⟨c₁, c₂, hr, ⟨h₁, hnum⟩, hr2, h1', h3⟩ : ∃ c₁ c₂, Reach exec anyStep
        ((rereads 2).system (world noDocument)) c₁ ∧
      (shownBy c₁ 1 = some [("b", some (.stringValue "x"))] ∧
        2 ∉ versionNumbers (c₁.shared.db.log tenant)) ∧ Reach exec anyStep c₁ c₂ ∧
      shownBy c₂ 1 = some [("b", some (.stringValue "x"))] ∧
      shownBy c₂ 3 = some [("b", some (.stringValue "y"))] :=
    exists_reach_of_runs (steps 0 16 ++ steps 1 10) (steps 2 17 ++ steps 3 10) (by decide +kernel)
  obtain ⟨config, hret, hshown⟩ := shownBy_eq_some.mp h₁
  obtain ⟨config', hret', hshown'⟩ := shownBy_eq_some.mp h3
  refine ⟨c₁, c₂, config, config', hr, hret, hnum, hr2, hr2.returned hret, hret', ?_⟩
  rw [hshown, hshown']
  simp

/-! ### Reads of the latest version -/

/-- **Reads of the latest version are fresh**, where reads are answered by the database that takes
the writes, or a replica that does not lag (`Tables.eval`): a `GetConfig` that names no version
returns one that is not below any version that was committed before it began, and is committed
when it returns. -/
theorem getConfig_fresh (hr : Reach exec allowed (init.system env) c)
    (hnew : (c.pool t).hist = []) (hr' : Reach exec allowed c c')
    (hcall : init.calls t = .getConfig caller req) (hlatest : req.version = none)
    {config : PbConfig} (hret : c'.returned t = some (.ok (.config config))) :
    (∀ V ∈ c.shared.db.log config.tenantId, V.version ≤ config.version) ∧
      config.version ≤ (c'.shared.db.log config.tenantId).length := by
  have hreach := hr.trans hr'
  have hafter := returned_runs hreach hret
  rw [hcall] at hafter
  obtain ⟨T, v, types, h₁, h₂, hh, -, hv, -, hcases⟩ :=
    getConfig_trace (q := .ret (.ok (.config config))) trivial hafter
  obtain ⟨rfl, rfl⟩ : config.tenantId = T ∧ config.version = v := by
    obtain ⟨-, _, _, _, -, -, hq⟩ | ⟨-, -, ⟨-, hq⟩ | ⟨-, hq, -⟩ | hq⟩ := hcases
    all_goals cases hq <;> exact ⟨rfl, rfl⟩
  obtain hv | ⟨-, r, s, he, hread⟩ := hv
  · cases hlatest.symm.trans hv
  have hmem : readEvent false (.latestConfigVersion config.tenantId) r s ∈ (c'.pool t).hist :=
    hh ▸ mem_append_left h₂ he
  -- the log that is read lies between the two
  have hbefore : _ <+: s.db.log config.tenantId := (le_of_begun hr' hnew hmem).log _
  have hafter : s.db.log config.tenantId <+: _ := (le_of_mem hreach hmem).log _
  have hdense := Dense.of_prefix (reach_dense hreach _) hafter
  rcases read_sound hreach hmem with rfl | rfl
  · cases hread
  have hlast := hdense.latest hread
  refine ⟨fun V hV => ?_, ?_⟩
  · obtain ⟨i, hi, hnum⟩ := hdense.mem_numbers.mp (mem_map_of_mem (hbefore.subset hV))
    have hbound := hdense.bound
    rw [← hnum, hlast, wrap32]
    omega
  · have hle := hafter.length_le
    omega

theorem getConfig_fresh_written : ∃ c c' config, Reach exec anyStep ((Sample.init []
        [set superadmin "b" "x", .getConfig superadmin { tenantId := tenant }]).system
          (world noDocument)) c ∧ 1 ∈ versionNumbers (c.shared.db.log tenant) ∧
      Reach exec anyStep c c' ∧ c'.returned 1 = some (.ok (.config config)) ∧
      config.tenantId = tenant ∧ 1 ≤ config.version := by
  obtain ⟨c, c', hr, ⟨hnew, hnum⟩, hr', hret⟩ : ∃ c c', Reach exec anyStep ((Sample.init []
        [set superadmin "b" "x", .getConfig superadmin { tenantId := tenant }]).system
          (world noDocument)) c ∧
      ((c.pool 1).hist.length = 0 ∧ 1 ∈ versionNumbers (c.shared.db.log tenant)) ∧
      Reach exec anyStep c c' ∧ c'.returned 1 = some (.ok (.config
        ⟨tenant, 1, [⟨"b", some (.stringValue "x"), "151", none⟩]⟩)) :=
    exists_reach_of_runs (steps 0 16) (steps 1 11) (by decide +kernel)
  obtain ⟨V, hV, hone⟩ := mem_map.mp hnum
  exact ⟨c, c', _, hr, hnum, hr', hret, rfl, hone ▸
    (getConfig_fresh hr (length_eq_zero_iff.mp hnew) hr' rfl rfl hret).1 V hV⟩

end Decree
