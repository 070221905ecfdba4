import Decree.StreamOrder

/-!
# The Completeness of a Stream

A stream from a version on sends every row that is committed from that version on, provided
that the tenant has a version when the stream looks for its watermark, that what the later
writes publish is accepted, and that no rollback commits after the replay was read: a rollback
publishes nothing.

## Main results

* `row_sent_of_waits`: a stream that waits has sent the rows.
* `rows_sent`: every row is sent.
-/

open Interleave List

namespace Decree

variable {env : Env} {init : Init} {allowed : System → ℕ → Choice → Prop} {c : System} {i t : ℕ}
  {T : String} {e : Event Op.Resp State} {watermark startVersion : ℤ} {L : List ConfigVersion}
  {V : ConfigVersion} {ev : ConfigChangeEvent}

/-! ### The condition -/

/-- The tenant whose latest version a stream is about to read. -/
def latestRead (c : System) (i : ℕ) : Option String :=
  match (c.pool i).prog with
  | .op (.read _ (.latestConfigVersion T)) _ => some T
  | _ => none

/-- The operation reads the rows of a replay. -/
def Op.isReplayRead : Op → Bool
  | .read _ (.configValuesSince _ _) => true
  | _ => false

def Call.isRollback : Call → Bool
  | .rollbackToVersion _ _ => true
  | _ => false

/-- **The step keeps the stream of the tenant complete**: the stream's own operations do not
fail, and it looks for its watermark when there is a version; what is published of the tenant
is accepted; and no rollback commits a version of the tenant after the replay was read. -/
def Announced (init : Init) (T : String) (i : ℕ) (c : System) (t : ℕ) (ch : Choice) : Prop :=
  (t = i → ch ≠ .fail ∧ (latestRead c i = some T → c.shared.db.log T ≠ [])) ∧
    (∀ ev ∈ pendingPublish c t, ev.tenantID = T → ch ≠ .fail) ∧
    ((init.calls t).isRollback = true → (∃ e ∈ (c.pool i).hist, e.op.isReplayRead = true) →
      ∀ p ∈ pendingCommit c t, p.2.1 ≠ T)

instance (ch : Choice) : Decidable (Announced init T i c t ch) :=
  instDecidableAnd

/-! ### Faults -/

theorem exec_read_ne_fail {ch : Choice} (hch : ch ≠ .fail) {q : Query} {s s' : State}
    {r : Op.Resp (.read false q)} (h : exec ch t (.read false q) s = some (r, s')) :
    r = s.db.eval q := by
  have h' : failing ch s (some (s.db.eval q, s)) = some (r, s') := h
  rw [failing, if_neg hch] at h'
  exact (answer_inj h').1.symm

/-- **A stream whose operations do not fail has no fault.** -/
theorem not_fault (hr : Reach exec (Announced init T i) (init.system env) c)
    (he : e ∈ (c.pool i).hist) : ¬ Fault T e := by
  intro hfault
  obtain ⟨h1, ch, c1, c2, hstep⟩ := hr.event_of_mem rfl he
  obtain ⟨hch, hlog⟩ := hstep.admitted.1 rfl
  obtain ⟨k, hk⟩ := hstep.next
  have hexec := hstep.answer
  cases hfault with
  | latest err s =>
    have hread := exec_read_ne_fail hch hexec
    have hne := hlog (by rw [latestRead, hk])
    rw [hstep.pre] at hne
    obtain ⟨latest, hlatest⟩ := Option.ne_none_iff_exists'.mp
      (fun hnone => hne (by simpa [latestConfigVersion] using hnone) :
        latestConfigVersion (s.db.log T) ≠ none)
    have hok : s.db.eval (.latestConfigVersion T) = .ok latest := found_eq_ok.mpr hlatest
    rw [hok] at hread
    cases hread
  | rows startVersion err s => cases (exec_read_ne_fail hch hexec)
  | send m err s =>
    have hsend : (execStream ch (.send m) s.published).map (·, s) = some (.error err, c2.shared) :=
      hexec
    rw [execStream, if_neg hch] at hsend
    cases hsend
  | closed position s =>
    obtain ⟨-, ⟨hfail, -⟩ | ⟨-, -, hsome⟩⟩ := exec_receive hexec
    · exact hch hfail
    · cases hsome

theorem exec_of_prompt {o : Op} (ho : o.prompt = true) (t : ℕ) (s : State) :
    exec .ok t o s ≠ none := by
  cases o with
  | read inTx q => simp [exec, failing]
  | stream o =>
    cases o with
    | subscribe | send => simp [exec, execStream]
    | receive => cases ho
  | _ => cases ho

/-! ### A stream that waits -/

/-- A stream that waits has received, and sent, all that was published since it subscribed. -/
theorem drained (hr : Reach exec allowed (init.system env) c) {types : List (String × FieldType)}
    {filterPaths : List String} {patience position : ℕ} {h1 h2 : Hist}
    (hh : (c.pool i).hist = h1 ++ h2)
    (hloop : LoopTrace types T filterPaths watermark patience position h2 (c.pool i).prog)
    (hfault : ∀ e ∈ (c.pool i).hist, ¬ Fault T e)
    (hpat : (eventsOf T c.shared.published).length < patience) (hwait : step exec c i .ok = none) :
    sent h2 = ((eventsOf T c.shared.published).drop position).flatMap
      (liveMessages types filterPaths watermark) := by
  have hpre := received_isPrefix hr hh hloop
  rcases step_eq_none hwait with ⟨r, hp⟩ | ⟨o, k, hp, hexec⟩
  · rcases hloop.ends r hp with ⟨e, he, hf⟩ | hlen
    · exact absurd hf (hfault e (hh ▸ mem_append_right _ he))
    · have := hpre.length_le
      rw [length_drop] at this
      omega
  · rcases hloop.waits o k hp with hprompt | ⟨rfl, hsent⟩
    · exact absurd hexec (exec_of_prompt hprompt i _)
    · have hnone : (eventsOf T c.shared.published)[position + (received h2).length]? = none := by
        simpa [exec, execStream] using hexec
      rw [hsent, hpre.eq_of_length_le]
      rw [length_drop]
      have := List.getElem?_eq_none_iff.mp hnone
      omega

theorem row_mem_replay (types : List (String × FieldType)) (hV : V ∈ L)
    (hle : startVersion ≤ V.version) {r : ConfigValue} (hrow : r ∈ V.values) :
    (V.version, r.fieldPath) ∈
      (replayMessages types T [] (configValuesSince L startVersion)).map ConfigChange.row := by
  refine mem_map.mpr ⟨_, mem_map_of_mem (mem_filter.mpr
    ⟨mem_configValuesSince.mpr ⟨V, hV, hle, r, hrow, rfl⟩, rfl⟩), rfl⟩

theorem row_mem_live (types : List (String × FieldType)) {fields : List SchemaField}
    (hann : AnnouncesVersion fields V ev) (hlt : watermark < V.version) {r : ConfigValue}
    (hrow : r ∈ V.values) :
    (V.version, r.fieldPath) ∈ (liveMessages types [] watermark ev).map ConfigChange.row := by
  have hpath : r.fieldPath ∈ ev.changes.map FieldChange.fieldPath := by
    rw [hann.paths]
    exact mem_map_of_mem hrow
  obtain ⟨ch, hch, hpath⟩ := mem_map.mp hpath
  rw [liveMessages, if_neg (by rw [hann.version]; omega)]
  refine mem_map.mpr ⟨_, mem_map_of_mem (mem_filter.mpr ⟨hch, rfl⟩), ?_⟩
  rw [ConfigChange.row, ← hpath, ← hann.version]
  rfl

/-- An event that was accepted after a stream had subscribed is in its part of the channel. -/
theorem mem_drop_of_published (hr : Reach exec (Announced init T i) (init.system env) c)
    {s s0 : State} (hmem : publishEvent ev s ∈ (c.pool t).hist) (htenant : ev.tenantID = T)
    (hle : s0.le s) :
    ev ∈ (eventsOf T c.shared.published).drop (eventsOf T s0.published).length := by
  obtain ⟨h1, ch, c1, c2, hstep⟩ := hr.event_of_mem rfl hmem
  obtain ⟨k, hk⟩ := hstep.next
  have hch : ch ≠ .fail := by
    have hpend : pendingPublish c1 t = some ev := by rw [pendingPublish, hk]
    exact hstep.admitted.2.1 ev hpend htenant
  have hpub : c2.shared.published = s.published ++ [ev] := by
    have hexec : some ((), if ch = .fail then s else { s with published := s.published ++ [ev] }) =
      some ((), c2.shared) := hstep.answer
    rw [if_neg hch] at hexec
    rw [← (answer_inj hexec).2]
  have hpre := eventsOf_mono T (reach_le hstep.rest).published
  obtain ⟨rest, hrest⟩ := eventsOf_mono T hle.published
  obtain ⟨rest', hrest'⟩ := hpre
  have hnew : eventsOf T c2.shared.published = eventsOf T s0.published ++ (rest ++ [ev]) := by
    rw [hpub, eventsOf, filter_append, ← append_assoc, hrest]
    simp [eventsOf, htenant]
  rw [← hrest', hnew, append_assoc, drop_left]
  simp

/-- A version is committed by a commit alone: nothing else is performed with it. -/
theorem CommitStep.mem_before {tx : Tx} {c1 c2 : System}
    (hc : CommitStep env init allowed T L V tx c1 c2) (he : e ∈ (c2.pool t).hist)
    (hop : ¬ e.op.IsCommit) : e ∈ (c1.pool t).hist := by
  obtain ⟨k, hk⟩ := hc.next
  obtain ⟨ch, -, hs⟩ := hc.step
  obtain ⟨o, k', r, hp, -, hpool⟩ := step_eq_some hs
  obtain ⟨rfl, -⟩ := Prog.op.inj (hk.symm.trans hp)
  rw [hpool] at he
  by_cases hu : t = V.writer
  · rw [hu, Function.update_self] at he
    rcases mem_append.mp he with he | he
    · rwa [hu]
    · rw [mem_singleton.mp he] at hop
      exact absurd rfl hop
  · rwa [Function.update_of_ne hu] at he

/-- A call that was refused: it returned an error, and had done nothing but open. -/
def Refused (c : System) (i : ℕ) : Prop :=
  (∃ err, c.returned i = some (.error err)) ∧ ∀ e ∈ (c.pool i).hist, e.op.opens = true

section Waits

variable {caller : Caller} {req : SubscribeRequest} {patience : ℕ} {version : ℤ}
  {V : ConfigVersion} {r : ConfigValue}

section

variable (hr : Reach exec (Announced init T i) (init.system env) c)

include hr

/-- **A row that is committed after the replay was read** is in the stream's part of the
channel, once its writer has returned. -/
theorem exists_event_of_row
    {position : ℕ} {watermark startVersion : ℤ} {rows : List ConfigValueSince}
    {s0 s1 s2 : State} {h0 h1 : Hist} (hsub : subscribeEvent T position s0 ∈ h0)
    (hreads : (c.pool i).hist = h0 ++ readEvent false (.latestConfigVersion T) (.ok watermark) s1 ::
        readEvent false (.configValuesSince T startVersion) (.ok rows) s2 :: h1)
    (hV : V ∈ c.shared.db.log T) (hlate : V ∉ s2.db.log T) (hpos : 0 < V.version)
    (hret : ∃ reply, c.returned V.writer = some (.ok reply)) :
    watermark < V.version ∧ ∃ ev ∈ (eventsOf T c.shared.published).drop position, ∃ fields,
      AnnouncesVersion fields V ev := by
  have hmem1 : readEvent false (.latestConfigVersion T) (.ok watermark) s1 ∈
      (c.pool i).hist := by simp [hreads]
  have hmem2 : readEvent false (.configValuesSince T startVersion) (.ok rows) s2 ∈
      (c.pool i).hist := by simp [hreads]
  have hmem0 : subscribeEvent T position s0 ∈ (c.pool i).hist := by simp [hreads, hsub]
  have hle0 : s0.le s2 := le_of_append hr hreads hsub (mem_cons_of_mem _ (mem_cons_self ..))
  have hle1 : s1.le s2 := by
    rw [append_cons] at hreads
    exact le_of_append hr hreads (mem_append_right _ (mem_singleton_self _)) (mem_cons_self ..)
  have hlatest : latestConfigVersion (s1.db.log T) = some watermark :=
    found_eq_ok.mp (read_ok hr hmem1)
  -- the commit came after the replay was read, so it is not that of a rollback
  obtain ⟨L, rest, hlog⟩ := append_of_mem hV
  obtain ⟨tx, c1, c2, hc, hr2⟩ := exists_commitStep hr hlog
  have hreplayed : readEvent false (.configValuesSince T startVersion) (.ok rows) s2 ∈
      (c1.pool i).hist := by
    rcases mem_or_le hr2 hmem2 with hmem | hle
    · exact hc.mem_before hmem (by simp [Op.IsCommit])
    · refine absurd ((hle.log T).subset ?_) hlate
      rw [hc.log_after]
      simp
  have hL : s2.db.log T <+: L := hc.log ▸ (le_of_mem hc.reach hreplayed).log T
  have hroll : ∀ caller req, init.calls V.writer ≠ .rollbackToVersion caller req := by
    intro caller req hcall
    obtain ⟨ch, ha, -⟩ := hc.step
    exact ha.2.2 (by rw [hcall]; rfl) ⟨_, hreplayed, rfl⟩ _ hc.pendingCommit rfl
  have hmem : watermark ∈ versionNumbers L := by
    refine map_subset _ ((hle1.log T).trans hL).subset ?_
    exact max?_mem hlatest
  have hne : L ≠ [] := by
    rintro rfl
    cases hmem
  obtain ⟨reply, hret⟩ := hret
  obtain ⟨ev, s, hpub, htenant, hVs, fields, hann⟩ := hc.announced hr2 hne hret hroll
  have hle : s0.le s := by
    rcases le_or_le hr hmem0 hpub with hle | hle
    · exact hle
    · exact absurd (((hle.trans hle0).log T).subset hVs) hlate
  refine ⟨?_, ev, ?_, fields, hann⟩
  · refine Dense.lt_of_pos ?_ hpos hmem
    rw [← hc.log_after]
    exact reach_dense hc.reached T
  · rw [position_of_subscribe hr hmem0]
    exact mem_drop_of_published hr hpub htenant hle

/-- **A stream that waits has sent the rows** whose writers have returned. -/
theorem row_sent_of_waits
    (hcall : init.calls i = .subscribe caller req patience) (hfilter : req.fieldPaths = [])
    (hstart : req.startVersion = some (version + 1)) (hversion : 0 ≤ version)
    (hT : c.shared.db.tenantOf req.tenantId = some T)
    (hpat : (eventsOf T c.shared.published).length < patience)
    (hwait : step exec c i .ok = none) (hV : V ∈ c.shared.db.log T)
    (hle : version + 1 ≤ V.version)
    (hret : ∃ reply, c.returned V.writer = some (.ok reply)) (hrow : r ∈ V.values) :
    Refused c i ∨ (V.version, r.fieldPath) ∈ (sent (c.pool i).hist).map ConfigChange.row := by
  have hafter := reach_after hr i
  rw [hcall] at hafter
  -- a stream that is not in its live loop would have had a fault, or not wait
  have hstuck : ∀ T', c.shared.db.tenantOf req.tenantId = some T' →
      (∀ r, (c.pool i).prog = .ret r → ∃ e ∈ (c.pool i).hist, Fault T' e) →
      (∀ o k, (c.pool i).prog = .op o k → o.prompt = true) → False := by
    intro T' hT' hend hprompt
    obtain rfl : T = T' := Option.some.inj (hT.symm.trans hT')
    rcases step_eq_none hwait with ⟨r, hp⟩ | ⟨o, k, hp, hexec⟩
    · obtain ⟨e, he, hfault⟩ := hend r hp
      exact not_fault hr he hfault
    · exact exec_of_prompt (hprompt o k hp) i _ hexec
  cases subscribe_trace hafter with
  | opening ht =>
    rcases step_eq_none hwait with ⟨r, hp⟩ | ⟨o, k, hp, hexec⟩
    · refine .inl ⟨?_, ht.ops⟩
      cases r with
      | error err => exact ⟨err, Config.returned_eq_some.mpr hp⟩
      | ok a => exact absurd hp (ht.refused a)
    · exact absurd hexec (exec_of_prompt (Op.prompt_of_opens (ht.next o k hp)) i _)
  | reading hopen hun hend hprompt =>
    exact (hstuck _ (tenantOf_now hr hopen.resolved) hend hprompt).elim
  | replaying hopen hrep hrec hsent hend hprompt =>
    exact (hstuck _ (tenantOf_now hr hopen.resolved) hend hprompt).elim
  | @live T' types position watermark due h1 h2 hh hopen hrep hrec hsent hloop =>
    have hopen' : Opened env req T' types position (c.pool i).hist := hh ▸ hopen.append
    obtain rfl : T = T' := Option.some.inj (hT.symm.trans (tenantOf_now hr hopen'.resolved))
    have hlive := drained hr hh hloop (fun e he => not_fault hr he) hpat hwait
    refine .inr ?_
    rw [hh, sent_append, map_append, hsent, hlive, hfilter]
    have hrep' : Replays req T types position (c.pool i).hist watermark due := hh ▸ hrep.append
    cases hrep' with
    | none hnone => cases (hnone.symm.trans hstart)
    | @some startVersion _ rows s0 s1 s2 h3 h4 hstart' hsub hreads =>
      obtain rfl : version + 1 = startVersion := Option.some.inj (hstart.symm.trans hstart')
      have hread : readEvent false (.configValuesSince T (version + 1)) (.ok rows) s2 ∈
          (c.pool i).hist := by simp [hreads]
      have hrows : configValuesSince (s2.db.log T) (version + 1) = rows :=
        Except.ok.inj (read_ok hr hread)
      by_cases hmem : V ∈ s2.db.log T
      · refine mem_append_left _ ?_
        rw [hfilter, ← hrows]
        exact row_mem_replay types hmem hle hrow
      · obtain ⟨hlt, ev, hev, fields, hann⟩ :=
          exists_event_of_row hr hsub hreads hV hmem (by omega) hret
        refine mem_append_right _ (mem_map.mpr ?_)
        obtain ⟨m, hm, hrow'⟩ := mem_map.mp (row_mem_live types hann hlt hrow)
        exact ⟨m, mem_flatMap.mpr ⟨ev, hev, hm⟩, hrow'⟩

/-- A stream that goes on alone keeps the condition, and publishes nothing. -/
theorem announced_of_onlyStep
    (hcall : init.calls i = .subscribe caller req patience) (hne : c.shared.db.log T ≠ [])
    {c' : System} (halone : Reach exec (onlyStep i .ok) c c') :
    Reach exec (Announced init T i) (init.system env) c' ∧
      c'.shared.published = c.shared.published := by
  induction halone with
  | refl => exact ⟨hr, rfl⟩
  | @tail c1 c2 u ch halone ha hs ih =>
    obtain ⟨hr1, hpub⟩ := ih
    obtain ⟨rfl, rfl⟩ := ha
    have hne' : c1.shared.db.log T ≠ [] := fun hnil =>
      hne (prefix_nil.mp (hnil ▸ (reach_le halone).log T))
    refine ⟨.tail hr1 ⟨fun _ => ⟨by simp, fun _ => hne'⟩, fun _ _ _ => by simp, ?_⟩ hs, ?_⟩
    · rw [hcall]
      exact fun hroll => absurd hroll (by simp [Call.isRollback])
    · obtain ⟨o, k, r, hp, he, -⟩ := step_eq_some hs
      rcases exec_published he with hsame | ⟨ev, rfl, -⟩
      · rw [hsame, hpub]
      · have hafter := reach_after hr1 u
        rw [hcall, hp] at hafter
        exact (Call.not_settling hafter trivial trivial).elim

end

end Waits

/-- **The completeness of a stream.** In a run that keeps the stream complete, and in which the
writers of the versions from the start version on have returned, a stream without a filter that
goes on alone sends all the rows of these versions, unless the call was refused. -/
theorem rows_sent {caller : Caller} {req : SubscribeRequest} {patience : ℕ} {version : ℤ}
    (hcall : init.calls i = .subscribe caller req patience) (hfilter : req.fieldPaths = [])
    (hstart : req.startVersion = some (version + 1)) (hversion : 0 ≤ version)
    (hr : Reach exec (Announced init T i) (init.system env) c)
    (hT : c.shared.db.tenantOf req.tenantId = some T)
    (hpat : (eventsOf T c.shared.published).length < patience)
    (hret : ∀ V ∈ c.shared.db.log T, version + 1 ≤ V.version →
      ∃ reply, c.returned V.writer = some (.ok reply)) :
    ∃ c', Reach exec (onlyStep i .ok) c c' ∧ (Refused c' i ∨
      ∀ V ∈ c.shared.db.log T, version + 1 ≤ V.version → ∀ r ∈ V.values,
        (V.version, r.fieldPath) ∈ (sent (c'.pool i).hist).map ConfigChange.row) := by
  by_cases hne : c.shared.db.log T = []
  · exact ⟨c, .refl c, .inr (by simp [hne])⟩
  · obtain ⟨c', halone, hwait⟩ := exists_waits c i Choice.ok
    obtain ⟨hr', hpub⟩ := announced_of_onlyStep hr hcall hne halone
    refine ⟨c', halone, or_iff_not_imp_left.mpr fun hopen V hV hle r hrow => ?_⟩
    refine (row_sent_of_waits hr' hcall hfilter hstart hversion
      ((reach_le halone).tenantOf hT) (hpub ▸ hpat) hwait (((reach_le halone).log T).subset hV) hle
      ?_ hrow).resolve_left hopen
    exact (hret V hV hle).imp fun _ => halone.returned

open Sample

/-- Two writes of one field, and a stream from the second version on. -/
def Sample.followed : Init :=
  Sample.init [] [setB (some (.stringValue "x")), setB (some (.stringValue "y")), watch (some 2) 3]

/-- A stream that was opened after the first write sends the second. -/
theorem rows_sent_second : ∃ c c', Reach exec (Announced followed tenant 2)
        (followed.system (world noDocument)) c ∧
      Reach exec (onlyStep 2 .ok) c c' ∧
      (2, "b") ∈ (sent (c'.pool 2).hist).map ConfigChange.row := by
  obtain ⟨c, hr, hT, hpub, hret, hlog, hopen⟩ : ∃ c, Reach exec
      (Announced followed tenant 2) (followed.system (world noDocument)) c ∧
      c.shared.db.tenantOf tenant = some tenant ∧
      (eventsOf tenant c.shared.published).length < 3 ∧
      (c.returned 0 = some (.ok (.version 1)) ∧ c.returned 1 = some (.ok (.version 2))) ∧
      (c.shared.db.log tenant).map (fun V => (V.version, V.writer,
        V.values.map ConfigValue.fieldPath)) = [(1, 0, ["b"]), (2, 1, ["b"])] ∧
      ((c.pool 2).hist.any fun e => !e.op.opens) = true :=
    exists_reach_of_run (steps 0 16 ++ steps 2 4 ++ steps 1 17) (by decide +kernel)
  obtain ⟨V, L, hlog, hV, hL⟩ := map_eq_cons_iff.mp hlog
  obtain ⟨W, rfl, hW⟩ := map_eq_singleton_iff.mp hL
  obtain ⟨c', halone, href | hsent⟩ := rows_sent (i := 2) (T := tenant) (c := c) rfl rfl
    (show some (2 : ℤ) = some (1 + 1) from rfl) (by decide) hr hT hpub (by
      intro U hU hle
      rcases mem_cons.mp (hlog ▸ hU) with rfl | hU
      · simp only [Prod.mk.injEq] at hV
        omega
      · obtain rfl := mem_singleton.mp hU
        simp only [Prod.mk.injEq] at hW
        exact ⟨_, hW.2.1 ▸ hret.2⟩)
  · obtain ⟨e, he, hop⟩ := any_eq_true.mp hopen
    exact absurd (href.2 e ((hist_extends halone 2).subset he)) (by simpa using hop)
  · simp only [Prod.mk.injEq] at hW
    obtain ⟨r, hvalues, hpath⟩ := map_eq_singleton_iff.mp hW.2.2
    refine ⟨c, c', hr, halone, ?_⟩
    rw [← hpath, ← hW.1]
    exact hsent W (by simp [hlog]) (by omega) r (by simp [hvalues])

/-- The writer of a row from the version on has returned, and the stream, which was not
refused, does not send the row however long it goes on. -/
def Misses (T : String) (i : ℕ) (startVersion : ℤ) (c : System) : Prop :=
  ∃ V ∈ c.shared.db.log T, startVersion ≤ V.version ∧
    (∃ reply, c.returned V.writer = some (.ok reply)) ∧
    ∃ r ∈ V.values, ∀ c', Reach exec (onlyStep i .ok) c c' →
      ¬ Refused c' i ∧ (V.version, r.fieldPath) ∉ (sent (c'.pool i).hist).map ConfigChange.row

/-- The same of a stream that waits, or has returned. -/
def missesNow (T : String) (i : ℕ) (startVersion : ℤ) (c : System) : Bool :=
  (step exec c i .ok).isNone && ((c.pool i).hist.any fun e => !e.op.opens) &&
    (c.shared.db.log T).any fun V => decide (startVersion ≤ V.version) &&
      (c.returned V.writer).any Except.toBool && V.values.any fun r =>
        decide ((V.version, r.fieldPath) ∉ (sent (c.pool i).hist).map ConfigChange.row)

theorem misses_of_now (h : missesNow T i startVersion c = true) : Misses T i startVersion c := by
  simp only [missesNow, Bool.and_eq_true, Option.isNone_iff_eq_none, any_eq_true,
    decide_eq_true_eq] at h
  obtain ⟨⟨hwait, e, he, hop⟩, V, hV, ⟨hle, hret⟩, r, hrow, hnot⟩ := h
  refine ⟨V, hV, hle, ?_, r, hrow, fun c' halone => ?_⟩
  · obtain ⟨x, hx, hok⟩ := (Option.any_eq_true _ _).mp hret
    cases x with
    | error err => cases hok
    | ok reply => exact ⟨reply, hx⟩
  · obtain rfl := halone.eq_of_waits hwait
    exact ⟨fun href => absurd (href.2 e he) (by simpa using hop), hnot⟩

theorem exists_misses {c0 : System} (sched : List (ℕ × Choice))
    (h : (run exec anyStep c0 sched).any (missesNow T i startVersion) = true) :
    ∃ c, Reach exec anyStep c0 c ∧ Misses T i startVersion c := by
  obtain ⟨c, hr, hnow⟩ := exists_reach_of_run (P := fun c => missesNow T i startVersion c = true)
    sched (by simpa using h)
  exact ⟨c, hr, misses_of_now hnow⟩

/-- A stream of a tenant without a version fails and sends nothing of the first write; a
rollback publishes nothing; and what the publisher rejects is not sent. -/
theorem rows_missed : (∃ c, Reach exec anyStep ((Sample.init [] [setB (some (.stringValue "x")),
        watch (some 1) 3]).system (world noDocument)) c ∧
      Misses tenant 1 1 c) ∧
    (∃ c, Reach exec anyStep ((Sample.init [] [setB (some (.stringValue "x")),
        setB (some (.stringValue "y")), rollbackTo superadmin 1,
        watch (some 3) 3]).system (world noDocument)) c ∧
      Misses tenant 3 3 c) ∧
    ∃ c, Reach exec anyStep (followed.system (world noDocument)) c ∧ Misses tenant 2 2 c :=
  ⟨exists_misses (steps 1 3 ++ steps 0 16) (by decide +kernel),
    exists_misses (steps 0 16 ++ steps 1 17 ++ steps 3 4 ++ steps 2 18) (by decide +kernel),
    exists_misses (steps 0 16 ++ steps 2 4 ++ steps 1 16 ++ [(1, .fail)]) (by decide +kernel)⟩

end Decree
