import Decree.Streams

/-!
# Delivery

What a stream has sent, in a run: the replay of the rows it read, and after it the events of
its tenant that were published since it subscribed.

## Main results

* `received_isPrefix`: a stream receives without a gap.
* `sent_committed`: a stream sends committed rows only.
* `liveSent_eq_replaySent_iff`: when live and replayed values agree.
-/

open Interleave List

namespace Decree

variable {env : Env} {init : Init} {allowed : System → ℕ → Choice → Prop} {c : System} {i t : ℕ}
  {h₁ h₂ : Hist} {T : String} {position patience : ℕ} {s : State} {L : List ConfigVersion}

/-! ### The two parts of a stream -/

/-- The messages that a stream sent before it first waited: its **replay**. -/
def replaySent (h : Hist) : List ConfigChange :=
  sent (h.takeWhile fun e => !e.op.isReceive)

/-- The messages that a stream sent from there on: the **live** ones. -/
def liveSent (h : Hist) : List ConfigChange :=
  sent (h.dropWhile fun e => !e.op.isReceive)

/-- Replayed first, then live. -/
theorem replaySent_append_liveSent (h : Hist) : replaySent h ++ liveSent h = sent h := by
  rw [replaySent, liveSent, ← sent_append, takeWhile_append_dropWhile]

theorem replaySent_of_unreceived {h : Hist} (hrec : ∀ e ∈ h, e.op.isReceive = false) :
    replaySent h = sent h ∧ liveSent h = [] := by
  have hall : ∀ e ∈ h, (!e.op.isReceive) = true := fun e he => by simp [hrec e he]
  rw [replaySent, liveSent, takeWhile_eq_self_iff.mpr hall, dropWhile_eq_nil_iff.mpr hall]
  exact ⟨rfl, rfl⟩

theorem replaySent_append (hrec : ∀ e ∈ h₁, e.op.isReceive = false)
    (hwait : ∀ e ∈ h₂.head?, e.op.isReceive = true) :
    replaySent (h₁ ++ h₂) = sent h₁ ∧ liveSent (h₁ ++ h₂) = sent h₂ := by
  have hall : ∀ e ∈ h₁, (!e.op.isReceive) = true := fun e he => by simp [hrec e he]
  rw [replaySent, liveSent, takeWhile_append_of_pos hall, dropWhile_append_of_pos hall]
  cases h₂ with
  | nil => simp
  | cons e h₂ =>
    have he : (!e.op.isReceive) = false := by simp [hwait e rfl]
    simp [he]

/-! ### The channel -/

/-- Events are only added. -/
theorem eventsOf_mono (T : String) {published published' : List ConfigChangeEvent}
    (h : published <+: published') : eventsOf T published <+: eventsOf T published' :=
  h.filter _

/-- A receive closes, or returns the event at its position. -/
theorem exec_receive {ch : Choice} {s' : State} {r : Option ConfigChangeEvent}
    (h : exec ch t (.stream (.receive T position)) s = some (r, s')) :
    s' = s ∧ ((ch = .fail ∧ r = none) ∨
      (ch ≠ .fail ∧ r = (eventsOf T s.published)[position]? ∧ r.isSome = true)) := by
  obtain ⟨r', hr, he⟩ := Option.map_eq_some_iff.mp (show
    (execStream ch (.receive T position) s.published).map (·, s) = some (r, s') from h)
  cases he
  refine ⟨rfl, ?_⟩
  rw [execStream] at hr
  split at hr
  · exact .inl ⟨‹_›, (Option.some.inj hr).symm⟩
  · obtain ⟨ev, hget, rfl⟩ := Option.map_eq_some_iff.mp hr
    exact .inr ⟨‹_›, hget.symm, rfl⟩

section

variable (hr : Reach exec allowed (init.system env) c)

include hr

/-- The event received is the one at its position. -/
theorem getElem?_of_receive {ev : ConfigChangeEvent}
    (he : (⟨.stream (.receive T position), some ev, s⟩ : Event Op.Resp State) ∈
      (c.pool i).hist) : (eventsOf T c.shared.published)[position]? = some ev := by
  obtain ⟨ch, s', hexec⟩ := exec_of_mem hr he
  obtain ⟨-, ⟨-, hnone⟩ | ⟨-, hget, -⟩⟩ := exec_receive hexec
  · cases hnone
  · obtain ⟨hlt, hev⟩ := List.getElem?_eq_some_iff.mp hget.symm
    rw [prefix_iff_getElem?.mp (eventsOf_mono T (le_of_mem hr he).published) position hlt, hev]

/-- A stream begins at the end. -/
theorem position_of_subscribe (he : subscribeEvent T position s ∈ (c.pool i).hist) :
    position = (eventsOf T s.published).length := by
  obtain ⟨ch, s', hexec⟩ := exec_of_mem hr he
  obtain ⟨r, hr, hres⟩ := Option.map_eq_some_iff.mp (show
    (execStream ch (.subscribe T) s.published).map (·, s) = some (.ok position, s') from hexec)
  cases hres
  rw [execStream] at hr
  split at hr
  · cases hr
  · exact (Except.ok.inj (Option.some.inj hr)).symm

/-- **What a stream has received** is what was published since it subscribed, without a gap,
up to where it is. -/
theorem received_isPrefix
    {types : List (String × FieldType)} {filterPaths : List String} {watermark : ℤ}
    {q : Prog Op.Resp (Except Status Reply)} (hh : (c.pool i).hist = h₁ ++ h₂)
    (hloop : LoopTrace types T filterPaths watermark patience position h₂ q) :
    received h₂ <+: (eventsOf T c.shared.published).drop position := by
  refine prefix_iff_getElem?.mpr fun n hn => ?_
  obtain ⟨s, hmem⟩ := hloop.received n _ (getElem?_eq_getElem hn)
  rw [getElem?_drop]
  exact getElem?_of_receive hr (hh ▸ mem_append_right _ hmem)

end

/-! ### What a stream has sent -/

/-- **The delivery of a stream** that is open: the tenant and the types it works with, its
watermark, and the two parts of what it has sent. -/
structure Delivered (env : Env) (req : SubscribeRequest) (c : System) (i : ℕ) (T : String)
    (types : List (String × FieldType)) (position : ℕ) (watermark : ℤ)
    (due : List ConfigChange) : Prop where
  tenant : c.shared.db.tenantOf req.tenantId = some T
  typed : c.shared.db.fieldTypes env T = (types.lookup ·)
  replays : Replays req T types position (c.pool i).hist watermark due
  subscribed : ∃ s, subscribeEvent T position s ∈ (c.pool i).hist
  replay : replaySent (c.pool i).hist <+: due
  received : received (c.pool i).hist <+: (eventsOf T c.shared.published).drop position
  live : liveSent (c.pool i).hist <+:
    (Decree.received (c.pool i).hist).flatMap (liveMessages types req.fieldPaths watermark)

/-- **A stream that has sent anything is open**, and has sent what it owes. -/
theorem exists_delivered (hr : Reach exec allowed (init.system env) c) {caller : Caller}
    {req : SubscribeRequest} (hcall : init.calls i = .subscribe caller req patience) :
    (replaySent (c.pool i).hist = [] ∧ liveSent (c.pool i).hist = []) ∨
      ∃ T types position watermark due, Delivered env req c i T types position watermark due := by
  have hafter := reach_after hr i
  rw [hcall] at hafter
  cases subscribe_trace hafter with
  | opening ht =>
    have hun := Unstreamed.of_opens ht.ops
    obtain ⟨hrep, hlive⟩ := replaySent_of_unreceived hun.received
    exact .inl ⟨hrep.trans hun.sent, hlive⟩
  | reading hopen hun hret hq =>
    obtain ⟨hrep, hlive⟩ := replaySent_of_unreceived hun.received
    exact .inl ⟨hrep.trans hun.sent, hlive⟩
  | replaying hopen hrep hrec hsent hret hq =>
    obtain ⟨hreplay, hlive⟩ := replaySent_of_unreceived hrec
    refine .inr ⟨_, _, _, _, _, tenantOf_now hr hopen.resolved, fieldTypes_now hr hopen.types,
      hrep, hopen.subscribed, hreplay ▸ hsent, ?_, ?_⟩
    · rw [received_eq_nil hrec]
      exact nil_prefix
    · rw [hlive]
      exact nil_prefix
  | @live T types position watermark due h₁ h₂ hh hopen hrep hrec hsent hloop =>
    obtain ⟨hreplay, hlive⟩ := replaySent_append hrec hloop.begins
    have hopen' : Opened env req T types position (c.pool i).hist := hh ▸ hopen.append
    have hreceived : received (c.pool i).hist = received h₂ := by
      rw [hh, received_append, received_eq_nil hrec, nil_append]
    refine .inr ⟨_, _, _, _, _, tenantOf_now hr hopen'.resolved, fieldTypes_now hr hopen'.types,
      hh ▸ hrep.append, hopen'.subscribed, ?_, ?_, ?_⟩
    · rw [hh, hreplay, hsent]
    · rw [hreceived]
      exact received_isPrefix hr hh hloop
    · rw [hreceived, hh, hlive]
      exact hloop.sent

/-! ### Rows and messages -/

/-- The rows since a version. -/
theorem mem_configValuesSince {startVersion : ℤ} {row : ConfigValueSince} :
    row ∈ configValuesSince L startVersion ↔ ∃ V ∈ L, startVersion ≤ V.version ∧ ∃ r ∈ V.values,
        row = ⟨V.version, r.fieldPath, r.value, V.createdBy⟩ := by
  simp [configValuesSince, ConfigVersion.since, and_assoc, eq_comm]

/-- The row that a message is about, within its tenant. -/
def ConfigChange.row (m : ConfigChange) : ℤ × String :=
  (m.version, m.fieldPath)

/-- A row is told by its version and path. -/
theorem Dense.row_unique (hd : Dense L) {V V' : ConfigVersion} (hV : V ∈ L) (hV' : V' ∈ L)
    {r r' : ConfigValue} (hr : r ∈ V.values) (hr' : r' ∈ V'.values)
    (hversion : V.version = V'.version) (hpath : r.fieldPath = r'.fieldPath) : V = V' ∧ r = r' := by
  obtain rfl := hd.numbered V hV V' hV' hversion
  exact ⟨rfl, inj_on_of_nodup_map V.nodup hr hr' hpath⟩

section Messages

variable {req : SubscribeRequest} {T : String} {types : List (String × FieldType)}
  {position : ℕ} {watermark : ℤ} {due : List ConfigChange} {m : ConfigChange}

/-- **A replayed message is a committed row.** -/
theorem Delivered.exists_of_replay (hr : Reach exec allowed (init.system env) c)
    (hd : Delivered env req c i T types position watermark due) (hm : m ∈ due) :
    ∃ V ∈ c.shared.db.log T, ∃ r ∈ V.values, m = replayMessage types T
      ⟨V.version, r.fieldPath, r.value, V.createdBy⟩ := by
  cases hd.replays with
  | none hstart => cases hm
  | @some startVersion _ rows s0 s1 s2 h0 h₁ hstart hsub hreads =>
    obtain ⟨row, hrow, rfl⟩ := mem_map.mp hm
    have hmem : readEvent false (.configValuesSince T startVersion) (.ok rows) s2 ∈
        (c.pool i).hist := by simp [hreads]
    have hrows := Except.ok.inj (read_ok hr hmem)
    obtain ⟨V, hV, -, r, hr', rfl⟩ := mem_configValuesSince.mp (hrows ▸ (mem_filter.mp hrow).1)
    exact ⟨V, ((le_of_mem hr hmem).log T).subset hV, r, hr', rfl⟩

/-- The messages of an event. -/
theorem mem_liveMessages {fields : List SchemaField} {V : ConfigVersion}
    {ev : ConfigChangeEvent} {filterPaths : List String} (hann : AnnouncesVersion fields V ev)
    (hm : m ∈ liveMessages types filterPaths watermark ev) :
    m.tenantId = ev.tenantID ∧ ∃ r ∈ V.values, m.row = (V.version, r.fieldPath) ∧
      m.newValue = some (parseStorage (types.lookup r.fieldPath)
        (redactIfSensitive (isSensitive fields r.fieldPath) (derefString r.value))) := by
  rw [liveMessages] at hm
  split at hm
  · cases hm
  · obtain ⟨ch, hch, rfl⟩ := mem_map.mp hm
    obtain ⟨r, hr, old, rfl⟩ := hann.exists_row (mem_filter.mp hch).1
    refine ⟨rfl, r, hr, ?_, rfl⟩
    rw [ConfigChange.row, ← hann.version]
    rfl

/-- **A live message is a committed row**, as the event shows it. -/
theorem Delivered.exists_of_live (hr : Reach exec allowed (init.system env) c)
    (hd : Delivered env req c i T types position watermark due)
    (hm : m ∈ liveSent (c.pool i).hist) :
    m.tenantId = T ∧ ∃ sv, c.shared.db.boundSchema T = some sv ∧
      ∃ V ∈ c.shared.db.log T, ∃ r ∈ V.values, m.row = (V.version, r.fieldPath) ∧
        m.newValue = some (parseStorage (types.lookup r.fieldPath)
          (redactIfSensitive (isSensitive sv.fields r.fieldPath) (derefString r.value))) := by
  obtain ⟨ev, hev, hm⟩ := mem_flatMap.mp (hd.live.subset hm)
  have hpub := mem_filter.mp (mem_of_mem_drop (hd.received.subset hev))
  obtain rfl : ev.tenantID = T := by simpa using hpub.2
  obtain ⟨sv, V, hsv, hV, hann⟩ := announces_of_published hr hpub.1
  obtain ⟨htenant, r, hr', hrow, hvalue⟩ := mem_liveMessages hann hm
  exact ⟨htenant, sv, hsv, V, hV, r, hr', hrow, hvalue⟩

end Messages

/-! ### The live and the replayed value -/

/-- The value that the redaction marker is read as: the marker itself where strings are kept,
and the zero of the other types. -/
def redactedValue : Option FieldType → TypedValue
  | some .integer => .integerValue .zero
  | some .number => .numberValue (.finite (.zero false))
  | some .bool => .boolValue false
  | some .time => .timeValue (some (.ofTime .zero))
  | some .duration => .durationValue (some (.ofDuration .zero))
  | some .url => .urlValue "[REDACTED]"
  | some .json => .jsonValue "[REDACTED]"
  | some .string | none => .stringValue "[REDACTED]"

theorem parseStorage_redacted (ft : Option FieldType) :
    parseStorage ft "[REDACTED]" = redactedValue ft := by
  rcases ft with _ | ft
  · rfl
  · cases ft <;> decide +kernel

/-- When the value shown is the one stored. -/
theorem shown_eq_stored_iff (sensitive : Bool) (ft : Option FieldType) (value : Option String) :
    some (parseStorage ft (redactIfSensitive sensitive (derefString value))) =
        stringToTypedValue value ft ↔
      ∃ s, value = some s ∧ (sensitive = true → parseStorage ft s = redactedValue ft) := by
  cases value with
  | none => simp [stringToTypedValue]
  | some s =>
    cases sensitive with
    | false => simp [stringToTypedValue, redactIfSensitive, derefString]
    | true => simp [stringToTypedValue, redactIfSensitive, parseStorage_redacted, eq_comm]

open Sample

def Sample.watch (startVersion : Option ℤ) (patience : ℕ) : Call :=
  .subscribe superadmin { tenantId := tenant, startVersion := startVersion } patience

/-- A `SetField` of the tenant's field `b`, which may be null. -/
def Sample.setB (value : Option TypedValue) : Call :=
  .setField superadmin { tenantId := tenant, fieldPath := "b", value := value }

def Sample.messageOfB (oldValue newValue : Option TypedValue) : ConfigChange :=
  ⟨tenant, 1, "b", oldValue, newValue, "root"⟩

/-- **A stream sends committed rows only**: whatever it sends, replayed or live, is a row of a
version of the tenant that its request names, with the author of that version, and a row that
its filter lets through. -/
theorem sent_committed (hr : Reach exec allowed (init.system env) c) {caller : Caller}
    {req : SubscribeRequest} {patience : ℕ} (hcall : init.calls i = .subscribe caller req patience)
    {m : ConfigChange} (hm : m ∈ sent (c.pool i).hist) :
    c.shared.db.tenantOf req.tenantId = some m.tenantId ∧
      passesFilter req.fieldPaths m.fieldPath = true ∧
      ∃ V ∈ c.shared.db.log m.tenantId, m.version = V.version ∧ m.changedBy = V.createdBy ∧
        m.fieldPath ∈ V.values.map ConfigValue.fieldPath := by
  rw [← replaySent_append_liveSent, mem_append] at hm
  rcases exists_delivered hr hcall with ⟨hrep, hlive⟩ | ⟨T, types, position, watermark, due, hd⟩
  · simp [hrep, hlive] at hm
  rcases hm with hm | hm
  · have hdue := hd.replay.subset hm
    obtain ⟨V, hV, r, hrow, rfl⟩ := hd.exists_of_replay hr hdue
    refine ⟨hd.tenant, ?_, V, hV, rfl, rfl, mem_map_of_mem hrow⟩
    cases hd.replays with
    | none => cases hdue
    | some =>
      obtain ⟨row, hrow, heq⟩ := mem_map.mp hdue
      exact congrArg ConfigChange.fieldPath heq ▸ (mem_filter.mp hrow).2
  · obtain ⟨ev, hev, hm⟩ := mem_flatMap.mp (hd.live.subset hm)
    have hpub := mem_filter.mp (mem_of_mem_drop (hd.received.subset hev))
    obtain rfl : ev.tenantID = T := by simpa using hpub.2
    obtain ⟨sv, V, -, hV, hann⟩ := announces_of_published hr hpub.1
    rw [liveMessages] at hm
    split at hm
    · cases hm
    · obtain ⟨ch, hch, rfl⟩ := mem_map.mp hm
      obtain ⟨hch, hpass⟩ := mem_filter.mp hch
      exact ⟨hd.tenant, hpass, V, hV, hann.version, hann.changedBy,
        hann.paths ▸ mem_map_of_mem hch⟩

theorem sent_committed_live : ∃ c m, Reach exec (fun _ _ _ => True)
        ((Sample.init [] [setB none, watch none 1]).system (world noDocument)) c ∧
      m ∈ sent (c.pool 1).hist ∧ ∃ V ∈ c.shared.db.log m.tenantId, m.version = V.version := by
  obtain ⟨c, hr, hsent⟩ : ∃ c, Reach exec (fun _ _ _ => True)
        ((Sample.init [] [setB none, watch none 1]).system (world noDocument)) c ∧
      messageOfB none (some (.stringValue "")) ∈ sent (c.pool 1).hist :=
    exists_reach_of_run (steps 1 2 ++ steps 0 16 ++ steps 1 2) (by decide +kernel)
  obtain ⟨-, -, V, hV, hversion, -⟩ := sent_committed hr (i := 1) rfl hsent
  exact ⟨c, _, hr, hsent, V, hV, hversion⟩

end Decree
