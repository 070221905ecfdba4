import Decree.Delivery

/-!
# The Order of a Stream

The replay of a stream and its live part are three observations of a log that moves: the
latest version, the rows, and the events. The watermark separates them when no version of the
tenant is committed between the first two, and the live part is in order when the versions of
the tenant are published in order. Under these two conditions a stream sends each row at most
once, and in the order of the versions.

## Main results

* `sent_in_order`: a stream sends in order.
-/

open Interleave List

namespace Decree

variable {env : Env} {init : Init} {allowed : System → ℕ → Choice → Prop} {c : System} {i t : ℕ}
  {watermark : ℤ} {L : List ConfigVersion} {V : ConfigVersion} {ev : ConfigChangeEvent}

/-! ### The condition -/

/-- The tenant whose rows a stream is about to read for its replay. -/
def replayRead (c : System) (i : ℕ) : Option String :=
  match (c.pool i).prog with
  | .op (.read _ (.configValuesSince T _)) _ => some T
  | _ => none

/-- The event that a call is about to publish. -/
def pendingPublish (c : System) (t : ℕ) : Option ConfigChangeEvent :=
  match (c.pool t).prog with
  | .op (.publish ev) _ => some ev
  | _ => none

/-- **The step leaves the stream its hand-over**: it commits no version of the tenant whose rows
the stream is about to read, and it publishes no version of a tenant after a later one. -/
def HandsOver (i : ℕ) (c : System) (t : ℕ) (_ : Choice) : Prop :=
  (∀ T ∈ replayRead c i, ∀ p ∈ pendingCommit c t, p.2.1 ≠ T) ∧
    ∀ ev ∈ pendingPublish c t, ∀ ev' ∈ eventsOf ev.tenantID c.shared.published,
      ev'.version < ev.version

instance (ch : Choice) : Decidable (HandsOver i c t ch) :=
  instDecidableAnd

/-! ### The replay -/

/-- **The log does not move** between the two reads of the replay. -/
theorem log_of_replayRead (hr : Reach exec (HandsOver i) (init.system env) c) {T : String}
    {s : State} {h : Hist} (hh : (c.pool i).hist =
      h ++ [readEvent false (.latestConfigVersion T) (.ok watermark) s])
    (hnext : replayRead c i = some T) : c.shared.db.log T = s.db.log T := by
  refine hr.invariant (fun c => ∀ h s, (c.pool i).hist =
      h ++ [readEvent false (.latestConfigVersion T) (.ok watermark) s] →
    replayRead c i = some T → c.shared.db.log T = s.db.log T) ?_ ?_ h s hh hnext
  · intro h s hh
    exact absurd hh (by simp [Init.system])
  intro c c' t ch hr ih ha hs h s hh hnext
  obtain ⟨o, k, r, hp, he, hpool⟩ := step_eq_some hs
  by_cases hti : i = t
  · -- the stream's own step is the read itself
    subst hti
    rw [hpool, Function.update_self] at hh
    obtain ⟨-, hlast⟩ := append_inj' hh rfl
    obtain ⟨rfl, -, rfl⟩ := Event.mk.inj (singleton_inj.mp hlast)
    rcases (exec_effect he).db with hdb | ⟨tx, ho, -⟩
    · rw [hdb]
    · cases ho
  · rw [hpool, Function.update_of_ne hti] at hh
    have hnext' : replayRead c i = some T := by
      rw [← hnext, replayRead, replayRead, hpool, Function.update_of_ne hti]
    rcases commitStep_of_step hr ha hs T with hsame | ⟨V, tx, rfl, hc⟩
    · rw [hsame]
      exact ih h s hh hnext'
    · exact absurd rfl (ha.1 T hnext' _ hc.pendingCommit)

/-- **The order of messages**: about different rows, and not of an earlier version. -/
def ConfigChange.Before (m m' : ConfigChange) : Prop :=
  m.version ≤ m'.version ∧ m.row ≠ m'.row

/-- No row comes twice. -/
theorem Dense.rows_pairwise (hd : Dense L) : (L.flatMap ConfigVersion.since).Pairwise fun a b =>
      (a.version, a.fieldPath) ≠ (b.version, b.fieldPath) := by
  refine pairwise_flatMap.mpr ⟨fun V hV => ?_, ?_⟩
  · refine pairwise_map.mpr ((pairwise_map.mp V.nodup).imp ?_)
    intro r r' hne heq
    exact hne (Prod.mk.inj heq).2
  · refine (pairwise_map.mp hd.nodup).imp ?_
    rintro V V' hne a ha b hb heq
    obtain ⟨r, -, rfl⟩ := mem_map.mp ha
    obtain ⟨r', -, rfl⟩ := mem_map.mp hb
    exact hne (Prod.mk.inj heq).1

/-- Replayed messages are in order. -/
theorem Dense.replayMessages_pairwise (hd : Dense L) (types : List (String × FieldType))
    (T : String) (filterPaths : List String) (startVersion : ℤ) :
    (replayMessages types T filterPaths (configValuesSince L startVersion)).Pairwise
      ConfigChange.Before := by
  have hne : (configValuesSince L startVersion).Pairwise fun a b =>
      (a.version, a.fieldPath) ≠ (b.version, b.fieldPath) := by
    refine (hd.rows_pairwise.sublist (filter_sublist.flatMap _)).perm
      (perm_insertionSort ..).symm ?_
    intro a b hab
    exact hab.symm
  have hle := pairwise_insertionSort ConfigValueSince.Le
    ((L.filter fun V => startVersion ≤ V.version).flatMap ConfigVersion.since)
  refine pairwise_map.mpr (((hle.and hne).sublist filter_sublist).imp ?_)
  rintro a b ⟨hab | ⟨hab, -⟩, hrow⟩
  · exact ⟨hab.le, hrow⟩
  · exact ⟨hab.le, hrow⟩

/-! ### The live part -/

/-- **The versions of a tenant are published in order.** -/
theorem published_pairwise (hr : Reach exec (HandsOver i) (init.system env) c) (T : String) :
    (eventsOf T c.shared.published).Pairwise fun ev ev' => ev.version < ev'.version := by
  refine hr.invariant (fun c => (eventsOf T c.shared.published).Pairwise
    fun ev ev' => ev.version < ev'.version) (by simp [Init.system, eventsOf]) ?_
  intro c c' t ch hr ih ha hs
  obtain ⟨o, k, r, hp, he, hpool⟩ := step_eq_some hs
  rcases exec_published he with hsame | ⟨ev, rfl, -, hnew⟩
  · rwa [hsame]
  · rw [hnew, eventsOf, filter_append]
    refine pairwise_append.mpr ⟨ih, ?_, ?_⟩
    · exact (pairwise_singleton _ ev).sublist filter_sublist
    · intro ev' hev' ev'' hev''
      obtain ⟨hmem, hT⟩ := mem_filter.mp hev''
      obtain rfl := mem_singleton.mp hmem
      obtain rfl : ev''.tenantID = T := by simpa using hT
      have hpend : pendingPublish c t = some ev'' := by rw [pendingPublish, hp]
      exact ha.2 ev'' hpend ev' hev'

theorem version_of_mem_liveMessages {types : List (String × FieldType)} {filterPaths : List String}
    {m : ConfigChange} (hm : m ∈ liveMessages types filterPaths watermark ev) :
    m.version = ev.version ∧ watermark < m.version := by
  rw [liveMessages] at hm
  split at hm
  · cases hm
  · obtain ⟨ch, -, rfl⟩ := mem_map.mp hm
    exact ⟨rfl, not_le.mp ‹_›⟩

/-- And so are those of an event. -/
theorem AnnouncesVersion.liveMessages_pairwise {fields : List SchemaField}
    (hann : AnnouncesVersion fields V ev) (types : List (String × FieldType))
    (filterPaths : List String) (watermark : ℤ) :
    (liveMessages types filterPaths watermark ev).Pairwise ConfigChange.Before := by
  rw [liveMessages]
  split
  · exact .nil
  · have hnd : ev.changes.Pairwise fun ch ch' => ch.fieldPath ≠ ch'.fieldPath :=
      pairwise_map.mp (hann.paths ▸ V.nodup)
    refine pairwise_map.mpr ((hnd.sublist filter_sublist).imp ?_)
    intro ch ch' hne
    exact ⟨le_refl _, fun heq => hne (Prod.mk.inj heq).2⟩

/-! ### The stream -/

section Stream

variable {req : SubscribeRequest} {T : String} {types : List (String × FieldType)}
  {position : ℕ} {watermark : ℤ} {due : List ConfigChange}

/-- The replay is in order. -/
theorem Delivered.due_in_order (hr : Reach exec (HandsOver i) (init.system env) c)
    (hd : Delivered env req c i T types position watermark due) :
    due.Pairwise ConfigChange.Before ∧ ∀ m ∈ due, m.version ≤ watermark := by
  cases hd.replays with
  | none hstart => exact ⟨.nil, by simp⟩
  | @some startVersion _ rows s0 s1 s2 h0 h1 hstart hsub hreads =>
    have hmem1 : readEvent false (.latestConfigVersion T) (.ok watermark) s1 ∈
        (c.pool i).hist := by simp [hreads]
    have hmem2 : readEvent false (.configValuesSince T startVersion) (.ok rows) s2 ∈
        (c.pool i).hist := by simp [hreads]
    have hlatest := found_eq_ok.mp (read_ok hr hmem1)
    have hrows := Except.ok.inj (read_ok hr hmem2)
    rw [append_cons] at hreads
    obtain ⟨ch, c1, c2, hstep⟩ := hr.event rfl hreads
    obtain ⟨k, hk⟩ := hstep.next
    have hlog := log_of_replayRead hstep.reach hstep.hist (by rw [replayRead, hk])
    rw [hstep.pre] at hlog
    subst hrows
    rw [hlog]
    have hdense : Dense (s1.db.log T) := by
      rw [← hlog, ← hstep.pre]
      exact reach_dense hstep.reach T
    refine ⟨hdense.replayMessages_pairwise .., fun m hm => ?_⟩
    obtain ⟨row, hrow, rfl⟩ := mem_map.mp hm
    obtain ⟨V, hV, -, r, -, rfl⟩ := mem_configValuesSince.mp (mem_filter.mp hrow).1
    exact (max?_eq_some_iff.mp hlatest).2 _ (mem_map_of_mem hV)

/-- And so is what is live. -/
theorem Delivered.live_in_order (hr : Reach exec (HandsOver i) (init.system env) c)
    (hd : Delivered env req c i T types position watermark due) :
    (liveSent (c.pool i).hist).Pairwise ConfigChange.Before ∧
      ∀ m ∈ liveSent (c.pool i).hist, watermark < m.version := by
  have hev : (Decree.received (c.pool i).hist).Pairwise fun ev ev' => ev.version < ev'.version :=
    (published_pairwise hr T).sublist (hd.received.sublist.trans (drop_sublist ..))
  refine ⟨List.Pairwise.sublist hd.live.sublist (pairwise_flatMap.mpr ⟨?_, hev.imp ?_⟩), ?_⟩
  · intro ev hmem
    have hpub := mem_of_mem_drop (hd.received.subset hmem)
    obtain ⟨sv, V, -, -, hann⟩ := announces_of_published hr (mem_filter.mp hpub).1
    exact hann.liveMessages_pairwise ..
  · intro ev ev' hlt m hm m' hm'
    have hv := (version_of_mem_liveMessages hm).1
    have hv' := (version_of_mem_liveMessages hm').1
    refine ⟨by omega, fun heq => ?_⟩
    have := (Prod.mk.inj heq).1
    omega
  · intro m hm
    obtain ⟨ev, -, hm⟩ := mem_flatMap.mp (hd.live.subset hm)
    exact (version_of_mem_liveMessages hm).2

end Stream

/-- **The order of a stream.** In a run that leaves the stream its hand-over, the stream sends
each row at most once, and the versions of its messages do not decrease. -/
theorem sent_in_order {caller : Caller} {req : SubscribeRequest} {patience : ℕ}
    (hcall : init.calls i = .subscribe caller req patience)
    (hr : Reach exec (HandsOver i) (init.system env) c) :
    ((sent (c.pool i).hist).map ConfigChange.row).Nodup ∧
      ((sent (c.pool i).hist).map ConfigChange.version).Pairwise (· ≤ ·) := by
  suffices hin : (sent (c.pool i).hist).Pairwise ConfigChange.Before from
    ⟨pairwise_map.mpr (hin.imp And.right), pairwise_map.mpr (hin.imp And.left)⟩
  rw [← replaySent_append_liveSent]
  rcases exists_delivered hr hcall with ⟨hnil, hnil'⟩ | ⟨T, types, position, watermark, due, hd⟩
  · rw [hnil, hnil']
    exact .nil
  · obtain ⟨hdue, hle⟩ := hd.due_in_order hr
    obtain ⟨hlive, hlt⟩ := hd.live_in_order hr
    refine pairwise_append.mpr ⟨hdue.sublist hd.replay.sublist, hlive, ?_⟩
    intro m hm m' hm'
    have hm1 := hle m (hd.replay.subset hm)
    have hm2 := hlt m' hm'
    refine ⟨by omega, fun heq => ?_⟩
    have := (Prod.mk.inj heq).1
    omega

open Sample

/-- Three writes of one field, and a stream from the first version on. -/
def Sample.watched : Init :=
  Sample.init [] [setB none, setB (some (.stringValue "x")),
    setB (some (.stringValue "y")), watch (some 1) 3]

/-- A stream that replays a version and receives two. -/
theorem sent_three_in_order : ∃ c, Reach exec (HandsOver 3) (watched.system (world noDocument)) c ∧
      (sent (c.pool 3).hist).map ConfigChange.row = [(1, "b"), (2, "b"), (3, "b")] ∧
      ((sent (c.pool 3).hist).map ConfigChange.row).Nodup ∧
      ((sent (c.pool 3).hist).map ConfigChange.version).Pairwise (· ≤ ·) := by
  obtain ⟨c, hr, hsent⟩ : ∃ c, Reach exec (HandsOver 3) (watched.system (world noDocument)) c ∧
      (sent (c.pool 3).hist).map ConfigChange.row = [(1, "b"), (2, "b"), (3, "b")] :=
    exists_reach_of_run (steps 0 16 ++ steps 3 5 ++ steps 1 17 ++
      steps 2 17 ++ steps 3 4) (by decide +kernel)
  exact ⟨c, hr, hsent, sent_in_order rfl hr⟩

/-- A version that is committed between the two reads of the replay is sent twice, and of two
versions that are published in the wrong order, the second is sent first. -/
theorem sent_out_of_order : (∃ c, Reach exec (fun _ _ _ => True)
        (watched.system (world noDocument)) c ∧
      ¬ ((sent (c.pool 3).hist).map ConfigChange.row).Nodup) ∧
    ∃ c, Reach exec (fun _ _ _ => True) (watched.system (world noDocument)) c ∧
      ¬ ((sent (c.pool 3).hist).map ConfigChange.version).Pairwise (· ≤ ·) :=
  ⟨exists_reach_of_run (steps 0 16 ++ steps 3 3 ++ steps 1 17 ++ steps 3 5) (by decide +kernel),
    exists_reach_of_run (steps 0 16 ++ steps 3 5 ++ steps 1 16 ++
      steps 2 17 ++ steps 1 1 ++ steps 3 4) (by decide +kernel)⟩

end Decree
