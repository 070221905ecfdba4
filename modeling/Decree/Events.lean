import Decree.Versions

/-!
# Published Events

Every event that was published is the announcement of a committed version: it carries the
number of the version, and a change for each of its rows, redacted by the schema that the
tenant is bound to.

## Main results

* `announces_of_published`: an event announces a committed version.
* `Call.published`: a write that has returned has published.
-/

open Interleave List

namespace Decree

variable {env : Env} {init : Init} {allowed : System → ℕ → Choice → Prop} {c : System} {t : ℕ}
  {ev : ConfigChangeEvent} {fields : List SchemaField} {V : ConfigVersion} {call : Call}
  {reply : Reply}

abbrev publishEvent (ev : ConfigChangeEvent) (s : State) : Event Op.Resp State :=
  ⟨.publish ev, (), s⟩

section

variable (hr : Reach exec allowed (init.system env) c)

include hr

/-- **An event that was published was published by a call.** -/
theorem exists_publish (hev : ev ∈ c.shared.published) :
    ∃ t s, publishEvent ev s ∈ (c.pool t).hist := by
  refine hr.invariant (fun c => ∀ ev ∈ c.shared.published, ∃ t s,
    publishEvent ev s ∈ (c.pool t).hist) (by simp [Init.system]) ?_ ev hev
  intro c c' u ch hr ih ha hs ev hev
  obtain ⟨o, k, r, hp, he, hpool⟩ := step_eq_some hs
  have hold : ev ∈ c.shared.published → ∃ t s, publishEvent ev s ∈ (c'.pool t).hist := by
    intro hev
    obtain ⟨t, s, hmem⟩ := ih ev hev
    exact ⟨t, s, (hist_extends (.tail (.refl c) ha hs) t).subset hmem⟩
  rcases exec_published he with hsame | ⟨ev', rfl, -, hnew⟩
  · exact hold (hsame ▸ hev)
  · rw [hnew] at hev
    rcases mem_append.mp hev with hev | hev
    · exact hold hev
    · obtain rfl := mem_singleton.mp hev
      refine ⟨u, c.shared, ?_⟩
      rw [hpool, Function.update_self]
      exact mem_append_right _ (mem_singleton_self _)

/-- The event announces the version: its number, its author, and a change for each of its
rows, redacted by these fields. -/
structure AnnouncesVersion (fields : List SchemaField) (V : ConfigVersion)
    (ev : ConfigChangeEvent) : Prop where
  version : ev.version = V.version
  changedBy : ev.changedBy = V.createdBy
  changes : List.Forall₂ (fun r ch => ∃ old, ch =
    redactChange fields ⟨r.fieldPath, old, derefString r.value⟩) V.values ev.changes

/-- **The publish in the history of a call** announces the version that the call has
committed. -/
theorem announces_of_publish {s : State} (hmem : publishEvent ev s ∈ (c.pool t).hist) :
    ∃ sv V, c.shared.db.boundSchema ev.tenantID = some sv ∧ V ∈ s.db.log ev.tenantID ∧
      V.writer = t ∧ AnnouncesVersion sv.fields V ev := by
  obtain ⟨h1, h2, hh⟩ := append_of_mem hmem
  obtain ⟨ch, c1, c2, hstep⟩ := hr.event rfl hh
  obtain ⟨k, hk⟩ := hstep.next
  have hafter := reach_after hstep.reach t
  rw [hk, hstep.hist] at hafter
  obtain ⟨w, audit, rest, chs, v, pre, post, rfl, hfin, -, -, hann, rfl, pre', att, s', post', -, -,
    hatt, rfl⟩ := Call.publishing hafter
  have hh1 : (c1.pool t).hist = (pre ++ pre' ++ att) ++ commitEvent s' :: post' := by
    rw [hstep.hist]
    simp
  obtain ⟨L, V, tx, c3, c4, hc, hr4, hwriter, rfl, hvalues, hactor, -, -⟩ :=
    commitStep_of_attempted hstep.reach hfin.quiet hatt hh1
  cases hann with
  | changes hfields hrows =>
    obtain ⟨sv, hsv, rfl⟩ := schemaRead_now hr (hfields.mono (by
      rw [hh, append_assoc]
      exact sub_here))
    refine ⟨sv, V, hsv, ?_, hwriter, rfl, hactor.symm, hvalues ▸ hrows⟩
    have hlog := (reach_le hr4).log w.tenantID
    rw [hc.log_after, hstep.pre] at hlog
    exact hlog.subset (by simp)

/-- **A published event announces a committed version.** -/
theorem announces_of_published (hev : ev ∈ c.shared.published) :
    ∃ sv V, c.shared.db.boundSchema ev.tenantID = some sv ∧
      V ∈ c.shared.db.log ev.tenantID ∧ AnnouncesVersion sv.fields V ev := by
  obtain ⟨t, s, hmem⟩ := exists_publish hr hev
  obtain ⟨sv, V, hsv, hV, -, hann⟩ := announces_of_publish hr hmem
  exact ⟨sv, V, hsv, ((le_of_mem hr hmem).log _).subset hV, hann⟩

end

theorem AnnouncesVersion.paths (h : AnnouncesVersion fields V ev) :
    ev.changes.map FieldChange.fieldPath = V.values.map ConfigValue.fieldPath := by
  refine forall₂_eq_eq_eq ▸ forall₂_map_left_iff.mpr (forall₂_map_right_iff.mpr ?_)
  refine h.changes.flip.imp ?_
  rintro ch r ⟨old, rfl⟩
  rfl

theorem AnnouncesVersion.exists_row (h : AnnouncesVersion fields V ev) {ch : FieldChange}
    (hch : ch ∈ ev.changes) :
    ∃ r ∈ V.values, ∃ old, ch = redactChange fields ⟨r.fieldPath, old, derefString r.value⟩ := by
  obtain ⟨n, hn, rfl⟩ := mem_iff_getElem.mp hch
  have hlen : n < V.values.length := h.changes.length_eq.symm ▸ hn
  exact ⟨V.values[n], getElem_mem hlen, h.changes.get hlen hn⟩

/-! ### Writes that have returned -/

theorem Preparing.published {h : Hist} (hp : Preparing env call h (.ret (.ok reply))) :
    (∃ caller req, call = .rollbackToVersion caller req) ∨ ∃ ev s, publishEvent ev s ∈ h := by
  obtain ⟨w, pre, post, rfl, audit, rest, onError, changes, -, -, -, -, -, hann, -, hafter⟩ := hp
  cases hann with
  | nothing hcall => exact .inl ⟨_, _, hcall⟩
  | changes hfields hrows =>
    obtain ⟨v, s, hmem⟩ := commitWrite_published hafter
    exact .inr ⟨_, s, mem_append_right _ hmem⟩

/-- **A config write that has returned has published its version**, unless it is a
rollback. -/
theorem Call.published {w : VersionWrite} {h h' : Hist} (hsrc : Source env call w h')
    (h0 : After (call.proc env).run h (.ret (.ok reply))) (hcommit : ¬ NoCommit h) :
    (∃ caller req, call = .rollbackToVersion caller req) ∨ ∃ ev s, publishEvent ev s ∈ h := by
  cases Call.cleared (q := .ret (.ok reply)) (.inl trivial) h0 with
  | repeated _ _ _ hrep =>
    obtain ⟨T, s, pre, -, hno, -⟩ := hrep
    exact absurd hno hcommit
  | preparing hp => exact hp.published
  | unchanged hno => exact absurd hno hcommit
  | other hcall => cases hsrc <;> cases hcall

theorem CommitStep.announced {T : String} {L : List ConfigVersion} {tx : Tx} {c1 c2 : System}
    (hc : CommitStep env init allowed T L V tx c1 c2) (hr : Reach exec allowed c2 c) (hL : L ≠ [])
    (hret : c.returned V.writer = some (.ok reply))
    (hcall : ∀ caller req, init.calls V.writer ≠ .rollbackToVersion caller req) :
    ∃ ev s, publishEvent ev s ∈ (c.pool V.writer).hist ∧ ev.tenantID = T ∧
      V ∈ s.db.log T ∧ ∃ fields, AnnouncesVersion fields V ev := by
  have hreach := hc.reached.trans hr
  have hafter := returned_runs hreach hret
  obtain ⟨-, e, he, hpre⟩ := hc.hist hr
  have hcommit : ¬ NoCommit (c.pool V.writer).hist := fun hno =>
    hno e (hpre.subset (by simp)) he
  rcases hc.write_or_seed with ⟨w, hw⟩ | ⟨hnil, -⟩
  · rcases Call.published hw.source hafter hcommit with ⟨caller, req, hroll⟩ | ⟨ev, s, hmem⟩
    · exact absurd hroll (hcall caller req)
    · obtain ⟨sv, V', -, hV', hwriter, hann⟩ := announces_of_publish hreach hmem
      have hV : V ∈ c.shared.db.log T := by
        refine ((reach_le hr).log T).subset ?_
        rw [hc.log_after]
        simp
      obtain ⟨rfl, rfl⟩ := version_unique hreach hV
        (((le_of_mem hreach hmem).log _).subset hV') hwriter.symm
      exact ⟨ev, s, hmem, rfl, hV', sv.fields, hann⟩
  · exact absurd hnil hL

end Decree
