import Decree.Versions

/-!
# What an Import Leaves Behind

`ImportConfig` selects the values that it writes by its mode, from reads that it makes before
its transaction (`filterByImportMode`). A merge selects the values that differ from the current
ones, where a field without a row and a null count as the empty string. `defaults` selects the
values of the fields without a row, in the snapshot as it was read, or all of them when that read
failed.

An import of defaults is to leave every field that has a row as it is. Two things can go wrong
between its reads and its commit: the read of the snapshot fails, and then everything is written,
or another version is committed that has a row where the snapshot had none. `DefaultsStep` rules
both out, step by step.

## Main results

* `defaults_keep_existing`: along every run of such steps, a version that an import of defaults
  commits has no row for a field that had one before; `defaults_overwrite` shows a run without the
  condition.
-/

open Go Interleave List

namespace Decree

variable {env : Env} {caller : Caller} {req : ImportRequest} {T : String} {h : Hist}

/-! ### The latest snapshot -/

section Current

variable {L : List ConfigVersion} {latest : ℤ}

/-- The current value of a field as the services read it: a missing row and a null are
empty. -/
def currentValue (L : List ConfigVersion) (f : String) : String :=
  valueOrEmpty (found (latestRow L f))

/-- The latest version of a log that was read: there is none, or the latest snapshot is the
one at that version. -/
theorem latestRow_of_read (hd : Dense L)
    (hl : versionOrZero (found (latestConfigVersion L)) = .ok latest) :
    (latest = 0 ↔ L = []) ∧ ∀ f, configValueAtVersion L latest f = latestRow L f := by
  have hlat := hd.latest hl
  refine ⟨?_, fun f => ?_⟩
  · rw [← length_eq_zero_iff]
    omega
  · cases hm : latestConfigVersion L with
    | none =>
      obtain rfl : L = [] := by simpa [latestConfigVersion] using hm
      rfl
    | some m =>
      rw [hm] at hl
      rw [latestRow, hm, Option.bind_some, Except.ok.inj hl]

end Current

/-- The paths of what an import has parsed are distinct, as those of the document. -/
theorem nodup_of_dispatchImport {data : String} {types : FieldTypes} {parsed : ParsedImport}
    (hparsed : dispatchImport env data types = .ok parsed) :
    (parsed.values.map ConfigValueImport.fieldPath).Nodup := by
  obtain ⟨doc, -, -, hall⟩ := dispatchImport_spec hparsed
  rw [stringifyAll_paths hall]
  exact ((perm_insertionSort _ doc.values).map Prod.fst).nodup_iff.mpr doc.nodup

/-! ### Imports of defaults -/

section Defaults

variable {init : Init} {c c₁ c₂ : System} {L M : List ConfigVersion} {V : ConfigVersion} {tx : Tx}
  {allowed : System → ℕ → Choice → Prop}

def Call.importsDefaults : Call → Bool
  | importConfig _ req => req.mode = .defaults
  | _ => false

/-- The call is about to read a snapshot outside of a transaction. -/
def readsSnapshot (c : System) (t : ℕ) : Bool :=
  match (c.pool t).prog with
  | .op (.read false (.fullConfigAtVersion _ _)) _ => true
  | _ => false

/-- The tenant of a read of the latest version outside of a transaction, with the number of its
versions at that moment. -/
def versionsRead : Event Op.Resp State → Option (String × ℕ)
  | ⟨.read false (.latestConfigVersion T), _, s⟩ => some (T, (s.db.log T).length)
  | _ => none

/-- A step in which an import of defaults is **safe**: its read of the snapshot does not fail,
and it commits before another version follows those it has seen. -/
def DefaultsStep (init : Init) (c : System) (t : ℕ) (ch : Choice) : Prop :=
  (init.calls t).importsDefaults = true →
    (readsSnapshot c t = true → ch ≠ .fail) ∧
    ((pendingTx c t).isSome = true → ∀ p ∈ (c.pool t).hist.filterMap versionsRead,
      (c.shared.db.log p.1).length = p.2)

instance (init : Init) (c : System) (t : ℕ) (ch : Choice) : Decidable (DefaultsStep init c t ch) :=
  inferInstanceAs (Decidable (_ → _ ∧ _))

/-- **The version that an import commits** holds the values that it has selected. -/
theorem CommitStep.selected (hc : CommitStep env init allowed T L V tx c₁ c₂)
    (hcall : init.calls V.writer = .importConfig caller req) :
    ∃ parsed values, Selected env req T parsed values (c₁.pool V.writer).hist ∧
      V.values = values.map (rowOfImport env) := by
  obtain ⟨k, hk⟩ := hc.next
  have hafter := reach_after hc.reach V.writer
  rw [hcall, hk] at hafter
  obtain ⟨T', parsed, values, pre, post, hh, -, hsel, ⟨-, -, hq⟩ | ⟨audit, rest, onError, changes,
    hfin, -, -, -, -, -, -, hwrite⟩⟩ :=
      importConfig_cleared (q := .op .commit k) (.inl trivial) hafter
  · cases hq
  obtain ⟨pre', att, v, -, hatt, rfl⟩ :=
    (commitWrite_late hfin.quiet (q := .op .commit k) rfl hwrite).at_commit
  have htx := reach_txs hc.reach V.writer
  rw [hc.pending, hh, ← append_assoc, replay_append] at htx
  obtain ⟨V', hV', hatt', -⟩ := replay_versionTx hfin.quiet hatt htx.symm
  obtain ⟨rfl, rfl⟩ := answer_inj (hc.version.symm.trans hV')
  exact ⟨parsed, values, hh ▸ hsel.mono sub_here, hatt'.values⟩

/-- A read of the latest version that a safe import has made saw the log it commits on. -/
theorem CommitStep.log_of_defaultsStep (hc : CommitStep env init (DefaultsStep init) T L V tx c₁ c₂)
    (hcall : (init.calls V.writer).importsDefaults = true) {r : Except StoreErr ℤ} {s : State}
    (he : readEvent false (.latestConfigVersion T) r s ∈ (c₁.pool V.writer).hist) :
    s.db.log T = L := by
  obtain ⟨ch, ha, -⟩ := hc.step
  have hpending : (pendingTx c₁ V.writer).isSome = true := by
    rw [pendingTx_eq_some.mpr ⟨hc.next, hc.pending⟩]
    rfl
  have hlen := (ha hcall).2 hpending (T, (s.db.log T).length) (mem_filterMap.mpr ⟨_, he, rfl⟩)
  rw [hc.log] at hlen
  exact (hc.log_prefix he).eq_of_length hlen.symm

/-- A snapshot that a safe import reads is the one in the tables. -/
theorem read_of_defaultsStep {t : ℕ} (hr : Reach exec (DefaultsStep init) (init.system env) c)
    (hcall : (init.calls t).importsDefaults = true) {v : ℤ}
    {r : Except StoreErr (List ConfigValue)} {s : State}
    (he : readEvent false (.fullConfigAtVersion T v) r s ∈ (c.pool t).hist) :
    r = .ok (fullConfigAtVersion (s.db.log T) v) := by
  obtain ⟨h1, ch, c₁, c₂, hstep⟩ := hr.event_of_mem rfl he
  obtain ⟨k, hk⟩ := hstep.next
  have hch : ch ≠ .fail := by
    refine (hstep.admitted hcall).1 ?_
    rw [readsSnapshot, hk]
  have hans := hstep.answer
  rw [exec, failing, if_neg hch] at hans
  exact (answer_inj hans).1.symm

/-- **An import of defaults overwrites nothing**, in every run whose steps are safe for the
imports of defaults: the version that it commits has no row for a field that has one in the
latest snapshot before it. -/
theorem defaults_keep_existing (hr : Reach exec (DefaultsStep init) (init.system env) c)
    (hlog : c.shared.db.log T = L ++ V :: M)
    (hcall : init.calls V.writer = .importConfig caller req) (hmode : req.mode = .defaults)
    {row : ConfigValue} (hrow : row ∈ V.values) : latestRow L row.fieldPath = none := by
  obtain ⟨tx, c₁, c₂, hc, -⟩ := exists_commitStep hr hlog
  have hdefaults : (init.calls V.writer).importsDefaults = true := by
    simp [hcall, Call.importsDefaults, hmode]
  obtain ⟨parsed, values, hsel, hvalues⟩ := hc.selected hcall
  rw [hvalues] at hrow
  obtain ⟨v, hv, rfl⟩ := mem_map.mp hrow
  obtain ⟨r, s, latest, evs, hsub, hlat, hrun⟩ := hsel.filtered
  have hs : s.db.log T = L := hc.log_of_defaultsStep hdefaults (hsub.subset mem_cons_self)
  -- the read of the latest version succeeded
  have hread : r = s.db.eval (.latestConfigVersion T) := by
    rcases read_sound hc.reach (hsub.subset mem_cons_self) with rfl | hread
    · cases hlat
    · exact hread
  rw [hread, Tables.eval, hs] at hlat
  obtain ⟨hzero, hlatest⟩ := latestRow_of_read hc.dense hlat
  rw [hmode, filterByImportMode] at hrun
  split at hrun
  · rename_i h0
    rw [hzero.mp h0]
    rfl
  · obtain ⟨r', s', rfl, hr'⟩ := runs_ask.mp hrun
    have hs' : s'.db.log T = L := hc.log_after_read (hsub.trans (.refl _)) hs
    have hmem : readEvent false (.fullConfigAtVersion T latest) r' s' ∈
        (c₁.pool V.writer).hist := hsub.subset (by simp)
    obtain rfl := read_of_defaultsStep hc.reach hdefaults hmem
    rw [hs'] at hr'
    cases hr'
    have habsent : v.fieldPath ∉ (fullConfigAtVersion L latest).map ConfigValue.fieldPath := by
      simpa using (mem_filter.mp hv).2
    show latestRow L v.fieldPath = none
    rw [← hlatest]
    by_contra hne
    obtain ⟨old, hold⟩ := Option.ne_none_iff_exists'.mp hne
    have hpath := configValueAtVersion_path hold
    refine habsent (mem_map.mpr ⟨old, mem_fullConfigAtVersion.mpr ?_, hpath⟩)
    rw [hpath]
    exact hold

end Defaults

namespace Sample

def documentOfBW : ConfigYAML :=
  document [("b", .str "z"), ("w", .str "q")] (by decide)

def defaulting : Init :=
  init [] [set superadmin "b" "y", importDocument superadmin .defaults]

/-- The last version of the tenant passes the test, which is given the versions before it. -/
def lastVersion (test : List ConfigVersion → ConfigVersion → Bool) (c : System) : Bool :=
  (c.shared.db.log tenant).getLast?.any (test (c.shared.db.log tenant).dropLast)

theorem exists_of_lastVersion {test : List ConfigVersion → ConfigVersion → Bool} {c : System}
    (h : lastVersion test c = true) :
    ∃ L V, c.shared.db.log tenant = L ++ [V] ∧ test L V = true := by
  obtain ⟨V, hlast, hV⟩ := (Option.any_eq_true _ _).mp h
  exact ⟨_, V, (dropLast_append_getLast? V hlast).symm, hV⟩

/-- The version of the import has a row for a field that has one already. -/
def overwrites (L : List ConfigVersion) (V : ConfigVersion) : Bool :=
  V.writer = 1 && V.values.any fun row => (latestRow L row.fieldPath).isSome

end Sample

open Sample in
/-- An import of defaults for two fields, of which one has a value. -/
theorem defaults_keep_existing_field :
    ∃ c L V row, Reach exec (DefaultsStep defaulting) (defaulting.system (world documentOfBW)) c ∧
      c.shared.db.log tenant = L ++ [V] ∧ V.writer = 1 ∧ (latestRow L "b").isSome = true ∧
      row ∈ V.values ∧ latestRow L row.fieldPath = none := by
  obtain ⟨c, hr, hlast⟩ : ∃ c, Reach exec (DefaultsStep defaulting)
      (defaulting.system (world documentOfBW)) c ∧ lastVersion (fun L V => V.writer = 1 &&
        ((latestRow L "b").isSome && V.values.any fun row => row.fieldPath = "w")) c = true :=
    exists_reach_of_run (steps 0 16 ++ steps 1 21) (by decide +kernel)
  obtain ⟨L, V, hlog, htest⟩ := exists_of_lastVersion hlast
  simp only [Bool.and_eq_true, decide_eq_true_eq, any_eq_true] at htest
  obtain ⟨hwriter, hb, row, hrow, -⟩ := htest
  exact ⟨c, L, V, row, hr, hlog, hwriter, hb, hrow,
    defaults_keep_existing hr hlog (by rw [hwriter]; rfl) rfl hrow⟩

open Sample in
/-- An import of defaults overwrites a value when its read of the snapshot fails, and when the
value is written after that read. -/
theorem defaults_overwrite :
    (∃ c L V, Reach exec anyStep (defaulting.system (world documentOfBW)) c ∧
      c.shared.db.log tenant = L ++ [V] ∧ c.returned 0 = some (.ok (.version 1)) ∧
      overwrites L V = true) ∧
    ∃ c L V, Reach exec (fun _ _ ch => ch = .ok) (defaulting.system (world documentOfBW)) c ∧
      c.shared.db.log tenant = L ++ [V] ∧ overwrites L V = true := by
  constructor
  · obtain ⟨c, hr, hret, hlast⟩ : ∃ c, Reach exec anyStep
        (defaulting.system (world documentOfBW)) c ∧ c.returned 0 = some (.ok (.version 1)) ∧
          lastVersion overwrites c = true :=
      exists_reach_of_run (steps 0 16 ++ steps 1 5 ++ [(1, .fail)] ++ steps 1 16)
        (by decide +kernel)
    obtain ⟨L, V, hlog, hV⟩ := exists_of_lastVersion hlast
    exact ⟨c, L, V, hr, hlog, hret, hV⟩
  · obtain ⟨c, hr, hlast⟩ : ∃ c, Reach exec (fun _ _ ch => ch = .ok)
        (defaulting.system (world documentOfBW)) c ∧ lastVersion overwrites c = true :=
      exists_reach_of_run (steps 1 8 ++ steps 0 16 ++ steps 1 11) (by decide +kernel)
    obtain ⟨L, V, hlog, hV⟩ := exists_of_lastVersion hlast
    exact ⟨c, L, V, hr, hlog, hV⟩

end Decree
