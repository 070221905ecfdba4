import Decree.Versions

/-!
# Cross-Field Rules over Runs

`dependentRequired` and the CEL validations are checked inside the transaction of a config write,
on the snapshot at the version it has created. The transaction is not serializable. The rules hold
in the end because the number that is committed was the next one: had another version been
committed since the transaction read the latest one, the number would not be free
(`CommitStep.log_at_read`). So the snapshot that was checked is the one that is committed.

## Main results

* `committed_rules_hold`: every version satisfies the rules.
-/

open Interleave List

namespace Decree

/-! ### Rules on a snapshot -/

def HasValue (rows : List ConfigValue) (fieldPath : String) : Prop :=
  ∃ r ∈ rows, r.fieldPath = fieldPath ∧ r.value ≠ none

instance (rows : List ConfigValue) (fieldPath : String) : Decidable (HasValue rows fieldPath) :=
  inferInstanceAs (Decidable (∃ r ∈ rows, _))

/-- Every `dependentRequired` entry holds: a trigger with a value has dependents with
values. -/
def DependentsHold (rules : List DependentRequiredEntry) (rows : List ConfigValue) : Prop :=
  ∀ rule ∈ rules, HasValue rows rule.triggerField → ∀ d ∈ rule.dependentFields, HasValue rows d

instance (rules : List DependentRequiredEntry) (rows : List ConfigValue) :
    Decidable (DependentsHold rules rows) :=
  inferInstanceAs (Decidable (∀ rule ∈ rules, _))

/-- Every CEL rule of the schema compiles, and evaluates to true on the activation of the
snapshot. -/
def ValidationsHold (env : Env) (sv : SchemaVersion) (tn : Tenant) (rows : List ConfigValue) :
    Prop :=
  ∀ rule ∈ sv.validations, ∃ types prog cost, typesOfFields env sv.fields = .ok types ∧
    env.celCompile sv.fields rule = .ok prog ∧
    prog (buildActivation env rows types tn) = .bool true cost

/-- **The cross-field rules of a schema hold on a snapshot** of the tenant. -/
structure RulesHold (env : Env) (sv : SchemaVersion) (tn : Tenant) (rows : List ConfigValue) :
    Prop where
  dependents : DependentsHold sv.dependentRequired rows
  validations : ValidationsHold env sv tn rows

variable {rows : List ConfigValue}

/-- The set of fields with a value, as the check collects it. -/
theorem mem_present {fieldPath : String} :
    fieldPath ∈ (rows.filter fun r => r.value.isSome).map ConfigValue.fieldPath ↔
      HasValue rows fieldPath := by
  simp only [mem_map, mem_filter, HasValue, Option.isSome_iff_ne_none]
  constructor
  · rintro ⟨r, ⟨hr, hv⟩, hp⟩
    exact ⟨r, hr, hp, hv⟩
  · rintro ⟨r, hr, hp, hv⟩
    exact ⟨r, ⟨hr, hv⟩, hp⟩

theorem dependentRequiredCheck_eq_ok {env : Env} {rules : List DependentRequiredEntry} :
    dependentRequiredCheck env rules rows = .ok () ↔ DependentsHold rules rows := by
  have hcheck : checkDependentRequired env rules
      ((rows.filter fun r => r.value.isSome).map ConfigValue.fieldPath) = none ↔ _ :=
    checkDependentRequired_eq_none
  simp only [mem_present] at hcheck
  rw [DependentsHold, ← hcheck, dependentRequiredCheck]
  split
  · rename_i hsome
    simp [hsome]
  · rename_i hnone
    simp [hnone]

theorem validationsHold_of_celCheck {env : Env} {sv : SchemaVersion} {tn : Tenant}
    {art : CelArtifacts} (hrules : compileRules env sv.fields sv.validations = .ok art.rules)
    (htypes : typesOfFields env sv.fields = .ok art.fieldTypes)
    (h : celCheck env art rows tn = .ok ()) : ValidationsHold env sv tn rows := by
  intro rule hrule
  obtain ⟨prog, hprog, hmem⟩ := mem_of_compileRules hrules hrule
  rw [celCheck] at h
  split at h
  · cases h
  · rename_i heval
    obtain ⟨cost, hcost⟩ := bool_true_of_celEvalLoop heval _ hmem
    exact ⟨art.fieldTypes, prog, cost, htypes, hprog, hcost⟩
  · cases h

/-! ### The snapshot that a transaction checks -/

variable {L : List ConfigVersion} {V : ConfigVersion} {env : Env} {init : Init}
  {allowed : System → ℕ → Choice → Prop} {c c₁ c₂ : System} {T : String} {tx : Tx}

/-- **What a transaction reads once its version is in place**: the committed tables, with the
version at the end of its log. -/
theorem CommitStep.read_staged (hc : CommitStep env init allowed T L V tx c₁ c₂)
    {pre tail : Hist} (hh : (c₁.pool V.writer).hist = pre ++ tail)
    (hquiet : ∀ e ∈ tail, ¬ e.op.MovesVersion) {q : Query} {a : q.Result} {s : State}
    (he : readEvent true q (.ok a) s ∈ tail) :
    ∃ tx' : Tx, tx'.version = some (T, V) ∧ (tx'.apply s.db).eval q = .ok a := by
  obtain ⟨t1, t2, rfl⟩ := append_of_mem he
  rw [← append_assoc] at hh
  obtain ⟨ch, c3, c4, hstep⟩ := hc.reach.event rfl hh
  have hend := reach_txs hc.reach V.writer
  rw [hc.pending, hh, replay_append] at hend
  obtain ⟨tx', htx', hversion⟩ :=
    replay_quiet (fun e he => hquiet e (mem_append_right _ he)) hend.symm
  refine ⟨tx', hversion.symm.trans hc.version, ?_⟩
  have htxs : s.txs V.writer = some tx' := by
    have hrep := reach_txs hstep.reach V.writer
    rw [hstep.hist, hstep.pre] at hrep
    exact hrep.trans htx'
  rcases exec_read hstep.answer with hfail | heval
  · cases hfail
  · rw [State.view_true htxs] at heval
    exact heval.symm

theorem celRead_now {t : ℕ} (hr : Reach exec allowed (init.system env) c)
    (hv : env.hasValidators = true) {cel : Option CelArtifacts} {sv : SchemaVersion}
    (hsv : c.shared.db.boundSchema T = some sv) (h : CelRead env T cel (c.pool t).hist) :
    (cel = none ∧ sv.validations = []) ∨
      ∃ art, cel = some art ∧ compileRules env sv.fields sv.validations = .ok art.rules ∧
        typesOfFields env sv.fields = .ok art.fieldTypes := by
  have hsame : ∀ {sv' s}, readEvent false (.boundSchema T) (.ok sv') s ∈ (c.pool t).hist →
      sv' = sv := fun he => Option.some.inj ((boundSchema_now hr he).symm.trans hsv)
  rcases h with ⟨hno, -⟩ |
    ⟨-, sv', s, he, ⟨hnone, hcel⟩ | ⟨bound, s', art, hb, hrules, htypes, hcel⟩⟩
  · exact absurd hv (by simp [hno])
  · exact .inl ⟨hcel, hsame he ▸ hnone⟩
  · obtain rfl := hsame he
    obtain rfl := hsame hb
    rcases htypes with ⟨hno, -⟩ | ⟨-, sv'', s'', he'', htypes⟩
    · exact absurd hv (by simp [hno])
    · exact .inr ⟨art, hcel, hrules, hsame he'' ▸ htypes⟩

theorem Tx.tenantByID_apply {db : Tables} {tn : Tenant} (h : db.tenantByID T = some tn) :
    (tx.apply db).tenantByID T = some tn := by
  rw [Tables.tenantByID, Tx.apply, find?_append]
  rw [Tables.tenantByID] at h
  rw [h, Option.some_or]

/-- **The rules hold on the snapshot that a config write commits.** -/
theorem CommitStep.rulesHold (hc : CommitStep env init allowed T L V tx c₁ c₂)
    (hv : env.hasValidators = true)
    (hcall : ∀ caller req, init.calls V.writer ≠ .createTenant caller req) :
    ∃ sv tn, c₁.shared.db.boundSchema T = some sv ∧ c₁.shared.db.tenantByID T = some tn ∧
      RulesHold env sv tn (fullConfigAtVersion (L ++ [V]) V.version) := by
  cases hc.committing with
  | seed h => exact absurd h (hcall _ _)
  | @write w rest pre att v V hh hprep hsrc hatt audit hfin hend =>
    obtain ⟨s0, r, s1, latest, checks, tail0, hatt0, hr, -, -, hnum⟩ := hatt.trace
    obtain ⟨hlog, -, -⟩ := hc.log_at_read hc.dense (hatt0 ▸ hh) hr hnum
    obtain ⟨e1, e2, mid, tail, hatt1, hrun, hquiet⟩ := hend
    have hlog2 : e2.pre.db.log w.tenantID = L := by
      rw [hatt1] at hatt0
      rw [(cons.inj (cons.inj hatt0).2).1]
      exact hlog
    subst hatt1
    obtain ⟨rules, hrules, cel, hcel, henf⟩ := hfin.enforced hrun
    rcases hrules with ⟨hno, -⟩ | ⟨-, sv, s2, he, rfl⟩
    · exact absurd hv (by simp [hno])
    have hin : readEvent false (.boundSchema w.tenantID) (.ok sv) s2 ∈
        (c₁.pool V.writer).hist := hh ▸ mem_append_left _ he
    have hsv := boundSchema_now hc.reach hin
    have hbound : s2.db.boundSchema w.tenantID = some sv := found_eq_ok.mp (read_ok hc.reach hin)
    obtain ⟨tn, htn, -⟩ := Option.bind_eq_some_iff.mp hbound
    have hhist : (c₁.pool V.writer).hist = (pre ++ e1 :: e2 :: mid) ++ tail := by
      rw [hh]
      simp
    obtain rfl : v = V.version := by
      obtain ⟨s, hcreate⟩ := hatt.returned
      obtain ⟨ch, s', hexec⟩ := exec_of_mem hc.reach (hh ▸ mem_append_right _ hcreate)
      exact exec_createConfigVersion hexec
    refine ⟨sv, tn, hsv, (le_of_mem hc.reach hin).tenants.find?_eq_some htn, ?_⟩
    have hcel' := celRead_now hc.reach hv hsv (hhist ▸ hcel.mono (sub_skip (.refl _)))
    rcases henf with ⟨hdep, rfl⟩ | ⟨rows, s, hrows, hdep, hart⟩
    · rcases hcel' with ⟨-, hval⟩ | ⟨art, hart, -⟩
      · exact ⟨by simp [DependentsHold, hdep], by simp [ValidationsHold, hval]⟩
      · cases hart
    · obtain ⟨tx', hver, heval⟩ := hc.read_staged hhist hquiet hrows
      obtain rfl : rows = fullConfigAtVersion (L ++ [V]) V.version := by
        have hpair : [e2, _] <+ (c₁.pool V.writer).hist :=
          hhist ▸ (singleton_sublist.mpr (by simp)).append (singleton_sublist.mpr hrows)
        have hread := Except.ok.inj heval
        rw [← hread, Tx.apply_log, hc.log_after_read hpair hlog2, Tx.added, hver]
        simp
      refine ⟨dependentRequiredCheck_eq_ok.mp hdep, ?_⟩
      rcases hcel' with ⟨-, hval⟩ | ⟨art, rfl, hcomp, htypes⟩
      · simp [ValidationsHold, hval]
      · obtain ⟨tn', s', htn', hcheck⟩ := hart art rfl
        obtain ⟨tx'', -, heval'⟩ := hc.read_staged hhist hquiet htn'
        obtain rfl : tn = tn' := by
          have hpair : [readEvent false (.boundSchema w.tenantID) (.ok sv) s2, _] <+
              (c₁.pool V.writer).hist :=
            hhist ▸ (singleton_sublist.mpr (by simp [he])).append (singleton_sublist.mpr htn')
          have hlater := (le_of_pair hc.reach hpair).tenants.find?_eq_some htn
          exact Option.some.inj ((Tx.tenantByID_apply hlater).symm.trans (found_eq_ok.mp heval'))
        exact validationsHold_of_celCheck hcomp htypes hcheck

namespace Sample

def ruledWorld : Env :=
  { world noDocument with
    celCompile := fun _ _ => .ok fun act =>
      match act.self.lookup "b" with
      | some (.str _) => .bool true (some 0)
      | _ => .bool false (some 0) }

def ruledSchema : SchemaVersion :=
  { schema with
    dependentRequired := [⟨"a", ["b"]⟩]
    validations := [⟨"", "has(self.b)", "b is required", "required"⟩] }

def ruledInit (calls : List Call) : Init :=
  { Sample.init [] calls with schemas := ⟨[ruledSchema], by decide⟩ }

def setBoth : Call :=
  .setFields superadmin
    { tenantId := tenant
      updates := [{ fieldPath := "a", value := some (.integerValue (.clamp 7)) },
        { fieldPath := "b", value := some (.stringValue "x") }] }

end Sample

open Sample

/-- **Every version that a config call commits satisfies the cross-field rules**: for every
interleaving of the calls, on the snapshot at the version when it commits, and on the one at it
from then on as long as the version numbers last. -/
theorem committed_rules_hold (hv : env.hasValidators = true)
    (hr : Reach exec anyStep (init.system env) c) {rest : List ConfigVersion}
    (hlog : c.shared.db.log T = L ++ V :: rest)
    (hcall : ∀ caller req, init.calls V.writer ≠ .createTenant caller req) :
    ∃ sv tn, c.shared.db.boundSchema T = some sv ∧ c.shared.db.tenantByID T = some tn ∧
      RulesHold env sv tn (fullConfigAtVersion (L ++ [V]) V.version) ∧
      ((c.shared.db.log T).length < 2 ^ 31 →
        RulesHold env sv tn (fullConfigAtVersion (c.shared.db.log T) V.version)) := by
  obtain ⟨tx, c₁, c₂, hc, hr2⟩ := exists_commitStep hr hlog
  obtain ⟨sv, tn, hsv, htn, hrules⟩ := hc.rulesHold hv hcall
  have hle := hc.le.trans (reach_le hr2)
  refine ⟨sv, tn, hle.boundSchema hsv, hle.tenants.find?_eq_some htn, hrules, fun hlen => ?_⟩
  have hpre : L ++ [V] <+: c.shared.db.log T := ⟨rest, by rw [hlog, append_assoc]; rfl⟩
  rw [(reach_dense hr T).fullConfigAtVersion_stable hlen hpre (by simp)]
  exact hrules

theorem committed_rules_hold_setFields : ∃ c V tn, Reach exec anyStep
        ((ruledInit [setBoth]).system ruledWorld) c ∧
      c.shared.db.log tenant = [V] ∧
      c.shared.db.boundSchema tenant = some ruledSchema ∧
      HasValue (fullConfigAtVersion [V] V.version) "a" ∧
      RulesHold ruledWorld ruledSchema tn (fullConfigAtVersion [V] V.version) := by
  obtain ⟨c, hr, hlen, hw, hsv, hn, ha⟩ : ∃ c, Reach exec anyStep
      ((ruledInit [setBoth]).system ruledWorld) c ∧
      (c.shared.db.log tenant).length = 1 ∧
      (c.shared.db.log tenant).map ConfigVersion.writer = [0] ∧
      c.shared.db.boundSchema tenant = some ruledSchema ∧
      (c.shared.db.log tenant).map ConfigVersion.version = [1] ∧
      HasValue (fullConfigAtVersion (c.shared.db.log tenant) 1) "a" :=
    exists_reach_of_run (steps 0 22) (by decide +kernel)
  obtain ⟨V, hV⟩ := length_eq_one_iff.mp hlen
  have hwriter : V.writer = 0 := by simpa [hV] using hw
  have hnum : V.version = 1 := by simpa [hV] using hn
  obtain ⟨sv, tn, hsv', htn, hrules, -⟩ := committed_rules_hold (L := []) rfl hr hV
    (fun caller req => by rw [hwriter]; nofun)
  obtain rfl : ruledSchema = sv := Option.some.inj (hsv.symm.trans hsv')
  exact ⟨c, V, tn, hr, hV, hsv, by rwa [hV, ← hnum] at ha, hrules⟩

end Decree
