import Decree.Versions

/-!
# Write-Once Fields

A write-once field may be written while it has no value. A call decides this on the current
value it reads before its transaction, where a failed read, a missing row, a null and the empty
string are all one. Its transaction does not look again. So a value can be overwritten after a
failed read, after the empty string, or by a call whose read was overtaken.

`WriteOnceStep` excludes these three at the commit of a write. The invariant is `WriteOnceLog`: of
the versions in a log, only the last one that has a row for the field gives it a value.

## Main results

* `write_once_keeps_value`: a write-once field keeps its value.
-/

open Interleave List

namespace Decree

/-! ### Steps that respect write-once fields -/

/-- The read of the current value of a field failed. -/
def readFailed (T f : String) : Event Op.Resp State → Bool
  | ⟨.read false (.configValueAtVersion T' f' _), .error .failed, _⟩ => T' = T && f' = f
  | _ => false

/-- The log that a call saw when it read the latest version. -/
def logAtRead (T : String) : Event Op.Resp State → Option (List ConfigVersion)
  | ⟨.read false (.latestConfigVersion T'), _, s⟩ => if T' = T then some (s.db.log T) else none
  | _ => none

/-- A row whose write was decided on the value that the field has in the log: it does not hold
the empty string, the read of the current value did not fail, and no version that the call
has not seen has a row for the field. -/
def DecidedOn (T : String) (log : List ConfigVersion) (h : Hist) (row : ConfigValue) : Prop :=
  row.value ≠ some "" ∧ ∀ e ∈ h, readFailed T row.fieldPath e = false ∧
    ∀ L ∈ logAtRead T e, ∀ W ∈ log, W ∈ L ∨ W.row row.fieldPath = none

instance (T : String) (log : List ConfigVersion) (h : Hist) (row : ConfigValue) :
    Decidable (DecidedOn T log h row) :=
  instDecidableAnd

/-- The step, if it commits a version, has room for it, and every row of the version for a
write-once field was decided on the log. -/
def WriteOnceStep (c : System) (t : ℕ) (_ : Choice) : Prop :=
  ∀ p ∈ pendingCommit c t, (c.shared.db.log p.2.1).length + 1 < 2 ^ 31 ∧
    ∀ sv ∈ (p.1.apply c.shared.db).boundSchema p.2.1, ∀ fd ∈ sv.fields, fd.writeOnce = true →
      ∀ row ∈ p.2.2.values, row.fieldPath = fd.path →
        DecidedOn p.2.1 (c.shared.db.log p.2.1) (c.pool t).hist row

instance (c : System) (t : ℕ) (ch : Choice) : Decidable (WriteOnceStep c t ch) :=
  inferInstanceAs (Decidable (∀ p ∈ pendingCommit c t, _))

/-! ### Logs of a write-once field -/

/-- The versions of the log respect the write-once field: none holds the empty string, and
none has a row after one that gives a value. -/
structure WriteOnceLog (f : String) (L : List ConfigVersion) : Prop where
  bound : L.length < 2 ^ 31
  nonempty : ∀ V ∈ L, ∀ row, V.row f = some row → row.value ≠ some ""
  once : L.Pairwise fun V W => ∀ row, V.row f = some row → row.value ≠ none → W.row f = none

variable {f : String} {L L₁ : List ConfigVersion} {V : ConfigVersion} {row : ConfigValue}

theorem writeOnceLog_nil : WriteOnceLog f [] := ⟨by simp, by simp, .nil⟩

theorem WriteOnceLog.of_prefix (h : WriteOnceLog f L) (hpre : L₁ <+: L) : WriteOnceLog f L₁ :=
  ⟨hpre.length_le.trans_lt h.bound, fun V hV => h.nonempty V (hpre.subset hV),
    h.once.sublist hpre.sublist⟩

/-- A version is appended if its row, should it have one, is not empty and comes first. -/
theorem WriteOnceLog.append (h : WriteOnceLog f L) (hlen : L.length + 1 < 2 ^ 31)
    (hV : ∀ row, V.row f = some row → row.value ≠ some "" ∧
      ∀ W ∈ L, ∀ r, W.row f = some r → r.value = none) : WriteOnceLog f (L ++ [V]) := by
  refine ⟨by simpa using hlen, fun W hW row hrow => ?_, ?_⟩
  · rcases mem_append.mp hW with hW | hW
    · exact h.nonempty W hW row hrow
    · obtain rfl := mem_singleton.mp hW
      exact (hV row hrow).1
  · refine pairwise_append.mpr ⟨h.once, pairwise_singleton _ _, ?_⟩
    intro W hW U hU r hr hne
    obtain rfl := mem_singleton.mp hU
    by_contra hsome
    obtain ⟨row, hrow⟩ := Option.ne_none_iff_exists'.mp hsome
    exact hne ((hV row hrow).2 W hW r hr)

/-- **The value of a write-once field** is the one that some version gives it, from there
on. -/
theorem WriteOnceLog.value (h : WriteOnceLog f L) (hd : Dense L) {rest : List ConfigVersion}
    (hL : L = L₁ ++ V :: rest) (hrow : V.row f = some row) (hne : row.value ≠ none) {v : ℤ}
    (hv : V.version ≤ v) : configValueAtVersion L v f = some row := by
  subst hL
  have hbelow := hd.of_prefix (prefix_append L₁ (V :: rest))
  have hlt := hd.lt_of_mem_append h.bound (V := V) (by simp)
  refine (DeltaLog.rowAt_eq_some hd.numbered).mpr ⟨V, by simp, hv, hrow, fun W hW _ hsome => ?_⟩
  rcases mem_append.mp hW with hW | hW
  · have hbound := h.bound
    rw [length_append] at hbound
    have hle := hbelow.le_length_of_mem (by omega) (mem_map_of_mem hW)
    omega
  · rcases mem_cons.mp hW with rfl | hW
    · exact le_refl _
    · have hafter := (pairwise_cons.mp (pairwise_append.mp h.once).2.1).1 W hW
      rw [hafter row hrow hne] at hsome
      cases hsome

/-! ### Commits -/

variable {env : Env} {init : Init} {allowed : System → ℕ → Choice → Prop} {c c₁ c₂ : System}
  {T current : String} {tx : Tx} {fd : SchemaField} {sv : SchemaVersion}

/-- The current value that a call read is the one in the log at that moment, unless the read
failed. -/
theorem CommitStep.current_read (hc : CommitStep env init allowed T L V tx c₁ c₂)
    (hlen : L.length < 2 ^ 31 - 1) (h : CurrentRead T f current (c₁.pool V.writer).hist) :
    ∃ r s, readEvent false (.latestConfigVersion T) r s ∈ (c₁.pool V.writer).hist ∧
      ((∃ v s', readEvent false (.configValueAtVersion T f v) (.error .failed) s' ∈
          (c₁.pool V.writer).hist) ∨
        current = valueOrEmpty
          (found (configValueAtVersion (s.db.log T) (s.db.log T).length f))) := by
  obtain ⟨r, s, v, hv, h⟩ := h
  have hmem : readEvent false (.latestConfigVersion T) r s ∈ (c₁.pool V.writer).hist := by
    rcases h with ⟨-, -, hsub⟩ | ⟨-, r', s', -, hsub⟩
    · exact singleton_sublist.mp hsub
    · exact hsub.subset mem_cons_self
  refine ⟨r, s, hmem, ?_⟩
  have hpre : s.db.log T <+: L := hc.log_prefix hmem
  have hle := hpre.length_le
  have hd := hc.dense
  obtain rfl : v = (s.db.log T).length := by
    rcases read_sound hc.reach hmem with rfl | rfl
    · cases hv
    · rw [(hd.of_prefix hpre).latest hv]
      omega
  rcases h with ⟨h0, rfl, -⟩ | ⟨-, r', s', rfl, hsub⟩
  · right
    have hnil : s.db.log T = [] := by simpa using h0
    rw [hnil]
    rfl
  · have hmem' : readEvent false (.configValueAtVersion T f (s.db.log T).length) r' s' ∈
        (c₁.pool V.writer).hist := hsub.subset (by simp)
    rcases read_sound hc.reach hmem' with rfl | rfl
    · exact .inl ⟨_, s', hmem'⟩
    · right
      obtain ⟨M, hM⟩ := (le_of_pair hc.reach hsub).log T
      have hpre' : s'.db.log T <+: L := hc.log_prefix hmem'
      have hle' := hpre'.length_le
      -- what was committed between the two reads has greater numbers
      have hstable : configValueAtVersion (s'.db.log T) (s.db.log T).length f =
          configValueAtVersion (s.db.log T) (s.db.log T).length f := by
        have hd' := hd.of_prefix hpre'
        rw [← hM] at hd' hle' ⊢
        exact DeltaLog.rowAt_append_of_lt (fun W hW => hd'.lt_of_mem_append (by omega) hW) f
      rw [Tables.eval, hstable]

theorem current_eq_empty {fields : List SchemaField} (hfd : fd ∈ fields) (hwo : fd.writeOnce = true)
    (hok : checkWriteAttributes fields fd.path current = .ok ()) : current = "" := by
  rw [checkWriteAttributes] at hok
  split at hok
  · rename_i hfind
    exact absurd (find?_eq_none.mp hfind fd hfd) (by simp [hwo])
  · rename_i g hg
    have hattr : g.path = fd.path ∧ (g.readOnly = true ∨ g.writeOnce = true) := by
      simpa using find?_some hg
    split at hok
    · cases hok
    · rename_i hro
      split at hok
      · cases hok
      · rename_i hcur
        simp only [not_and, not_not] at hcur
        exact hcur (hattr.2.resolve_left hro)

/-- What a call that commits a row for a write-once field has seen of the log gives the field
no value. -/
theorem CommitStep.no_value (hc : CommitStep env init WriteOnceStep T L V tx c₁ c₂)
    (hL : WriteOnceLog fd.path L) (hlen : L.length < 2 ^ 31 - 1)
    (hsv : c₁.shared.db.boundSchema T = some sv) (hfd : fd ∈ sv.fields) (hwo : fd.writeOnce = true)
    (hdec : DecidedOn T L (c₁.pool V.writer).hist row) (hpath : row.fieldPath = fd.path)
    (hattr : Attributed T fd.path (c₁.pool V.writer).hist) {W : ConfigVersion} (hW : W ∈ L)
    {r : ConfigValue} (hr : W.row fd.path = some r) : r.value = none := by
  obtain ⟨fields, hfields, hattr⟩ := hattr
  obtain ⟨sv', hsv', rfl⟩ := schemaRead_now hc.reach hfields
  obtain rfl : sv' = sv := Option.some.inj (hsv'.symm.trans hsv)
  rcases hattr with hnone | ⟨current, hcur, hok⟩
  · exact absurd (hnone fd hfd rfl).2 (by simp [hwo])
  obtain rfl := current_eq_empty hfd hwo hok
  obtain ⟨r0, s, hmem, ⟨v, s', hfailed⟩ | hcurrent⟩ := hc.current_read hlen hcur
  · have hgood := (hdec.2 _ hfailed).1
    simp [readFailed, hpath] at hgood
  · -- the version was there when the current value was read
    have hseen : W ∈ s.db.log T := by
      rcases (hdec.2 _ hmem).2 (s.db.log T) (by simp [logAtRead]) W hW with hin | hnone
      · exact hin
      · rw [hpath, hr] at hnone
        cases hnone
    by_contra hne
    have hpre : s.db.log T <+: L := hc.log_prefix hmem
    obtain ⟨A, B, hAB⟩ := append_of_mem hseen
    have hd := hc.dense.of_prefix hpre
    have hwol := hL.of_prefix hpre
    have hle := hd.le_length_of_mem hwol.bound (mem_map_of_mem hseen)
    rw [hwol.value hd hAB hr hne hle] at hcurrent
    refine hwol.nonempty W hseen r hr ?_
    obtain ⟨x, hx⟩ := Option.ne_none_iff_exists'.mp hne
    rw [hx]
    simpa [found, valueOrEmpty, derefString, hx] using hcurrent.symm

/-- A commit respects the write-once fields of the tenant's schema. -/
theorem CommitStep.writeOnceLog (hc : CommitStep env init WriteOnceStep T L V tx c₁ c₂)
    (hr : Reach exec WriteOnceStep c₂ c) (hsv : c.shared.db.boundSchema T = some sv)
    (hfd : fd ∈ sv.fields) (hwo : fd.writeOnce = true) (hL : WriteOnceLog fd.path L) :
    WriteOnceLog fd.path (L ++ [V]) := by
  obtain ⟨ch, ha, -⟩ := hc.step
  obtain ⟨hlen, hrows⟩ := ha _ hc.pendingCommit
  rw [← hc.db] at hrows
  rw [hc.log] at hlen hrows
  refine hL.append hlen fun row hrow => ?_
  have hpath := ConfigVersion.row_path hrow
  have hrow' := mem_of_find?_eq_some hrow
  obtain ⟨w, hw⟩ | ⟨rfl, caller, req, hs⟩ := hc.write_or_seed
  · have hattr := hw.prepared.attributed row (hw.values ▸ hrow')
    rw [hw.tenant, hpath] at hattr
    have hsv1 := hc.boundSchema hw hrow' hr hsv
    have hdec := hrows sv (hc.le.boundSchema hsv1) fd hfd hwo row hrow' hpath
    exact ⟨hdec.1, fun W hW r hr' => hc.no_value hL (by omega) hsv1 hfd hwo hdec hpath hattr hW hr'⟩
  · obtain ⟨sv', hsv2, -⟩ := hc.seed_defaults hs
    obtain rfl : sv' = sv := Option.some.inj (((reach_le hr).boundSchema hsv2).symm.trans hsv)
    exact ⟨(hrows sv' hsv2 fd hfd hwo row hrow' hpath).1, by simp⟩

/-- **A write-once field keeps its value**, along every run whose commits were decided on the
log: once a version gives the field a value, every later snapshot has that value. -/
theorem write_once_keeps_value (hr : Reach exec WriteOnceStep (init.system env) c)
    {sv : SchemaVersion} {fd : SchemaField} (hsv : c.shared.db.boundSchema T = some sv)
    (hfd : fd ∈ sv.fields) (hwo : fd.writeOnce = true) {rest : List ConfigVersion} {x : String}
    (hlog : c.shared.db.log T = L ++ V :: rest) (hrow : V.row fd.path = some row)
    (hx : row.value = some x) :
    ∀ W ∈ rest, ((configValueAtVersion (c.shared.db.log T) W.version fd.path).bind
      ConfigValue.value) = some x := by
  have hwol : WriteOnceLog fd.path (c.shared.db.log T) :=
    log_induction hr writeOnceLog_nil fun L V tx c₁ c₂ hc hr2 hL =>
      hc.writeOnceLog hr2 hsv hfd hwo hL
  have hd := reach_dense hr T
  intro W hW
  have hle : V.version ≤ W.version := by
    have hpre : L ++ [V] <+: c.shared.db.log T := ⟨rest, by simp [hlog]⟩
    have hV := hd.of_prefix hpre
    have hbound := hwol.bound
    rw [hlog] at hbound
    have hlt := (append_cons L V rest ▸ hlog ▸ hd).lt_of_mem_append
      (append_cons L V rest ▸ hbound) hW
    rw [hV.last_number, wrap32_of_lt]
    · simpa using hlt.le
    · omega
    · rw [length_append, length_cons] at hbound
      omega
  rw [hwol.value hd hlog hrow (by simp [hx]) hle]
  exact hx

open Sample

theorem write_once_keeps_value_other_write :
    ∃ c V W, Reach exec WriteOnceStep ((Sample.init [] [set superadmin "w" "x",
        set superadmin "b" "y"]).system (world noDocument)) c ∧
      c.shared.db.log tenant = [V, W] ∧
      (configValueAtVersion [V, W] W.version "w").bind ConfigValue.value = some "x" := by
  obtain ⟨c, hr, hsv, hlen, hrow⟩ : ∃ c, Reach exec WriteOnceStep ((Sample.init []
      [set superadmin "w" "x", set superadmin "b" "y"]).system (world noDocument)) c ∧
      (c.shared.db.boundSchema tenant).map SchemaVersion.fields = some schema.fields ∧
      (c.shared.db.log tenant).length = 2 ∧
      ((c.shared.db.log tenant).head?.bind (·.row "w")).bind ConfigValue.value = some "x" :=
    exists_reach_of_run (steps 0 16 ++ steps 1 17) (by decide +kernel)
  obtain ⟨sv, hsv, hfields⟩ := Option.map_eq_some_iff.mp hsv
  obtain ⟨V, W, hlog⟩ := length_eq_two.mp hlen
  rw [hlog] at hrow
  obtain ⟨row, hrow, hx⟩ := Option.bind_eq_some_iff.mp hrow
  refine ⟨c, V, W, hr, hlog, ?_⟩
  rw [← hlog]
  have hfd : ({ path := "w", fieldType := .string, writeOnce := true } : SchemaField) ∈
      sv.fields := by
    rw [hfields]
    decide
  have hlog' : c.shared.db.log tenant = [] ++ V :: [W] := hlog
  exact write_once_keeps_value hr hsv hfd rfl hlog' hrow hx W (by simp)

/-- The second `SetField` reads the latest version and then fails to read the value there. It
takes the field for empty and overwrites it. -/
theorem write_once_overwritten :
    ∃ c V W, Reach exec anyStep ((Sample.init [] [set superadmin "w" "x",
        set superadmin "w" "z"]).system (world noDocument)) c ∧
      (c.shared.db.boundSchema tenant).map SchemaVersion.fields = some schema.fields ∧
      c.shared.db.log tenant = [V, W] ∧
      (V.row "w").bind ConfigValue.value = some "x" ∧
      (configValueAtVersion [V, W] W.version "w").bind ConfigValue.value = some "z" := by
  obtain ⟨c, hr, hsv, hlen, hrow, hval⟩ : ∃ c, Reach exec anyStep ((Sample.init []
      [set superadmin "w" "x", set superadmin "w" "z"]).system (world noDocument)) c ∧
      (c.shared.db.boundSchema tenant).map SchemaVersion.fields = some schema.fields ∧
      (c.shared.db.log tenant).length = 2 ∧
      ((c.shared.db.log tenant).head?.bind (·.row "w")).bind ConfigValue.value = some "x" ∧
      ∀ W ∈ (c.shared.db.log tenant).getLast?,
        (configValueAtVersion (c.shared.db.log tenant) W.version "w").bind
          ConfigValue.value = some "z" :=
    exists_reach_of_run (steps 0 16 ++ steps 1 2 ++ [(1, .fail)] ++ steps 1 14) (by decide +kernel)
  obtain ⟨V, W, hlog⟩ := length_eq_two.mp hlen
  rw [hlog] at hrow hval
  exact ⟨c, V, W, hr, hsv, hlog, hrow, hval W rfl⟩

end Decree
