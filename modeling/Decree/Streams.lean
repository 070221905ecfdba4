import Decree.Events

/-!
# Streams

What a stream has sent, from its history alone: the messages of its replay, and after them
those of the events it has received, up to the point where it is.

## Main results

* `liveLoop_trace`, `replayConfig_trace`, `subscribe_trace`: what a stream has sent.
-/

open Interleave List

namespace Decree

/-! ### Messages and events of a history -/

/-- The message that an event of a history sent. -/
def sentBy : Event Op.Resp State → Option ConfigChange
  | ⟨.stream (.send message), .ok _, _⟩ => some message
  | _ => none

/-- **The messages sent**, in order. -/
def sent (h : Hist) : List ConfigChange :=
  h.filterMap sentBy

/-- The pub/sub event that an event of a history received. -/
def receivedBy : Event Op.Resp State → Option ConfigChangeEvent
  | ⟨.stream (.receive _ _), some ev, _⟩ => some ev
  | _ => none

/-- **The events received**, in order. -/
def received (h : Hist) : List ConfigChangeEvent :=
  h.filterMap receivedBy

def Op.isReceive : Op → Bool
  | .stream (.receive _ _) => true
  | _ => false

/-- The operation belongs to the opening of a stream: a read, but of the latest version, or the
subscription. -/
def Op.opens : Op → Bool
  | .read _ (.latestConfigVersion _) => false
  | .read _ _ | .stream (.subscribe _) => true
  | _ => false

/-- The operation of a stream is answered at once. -/
def Op.prompt : Op → Bool
  | .read _ _ | .stream (.subscribe _) | .stream (.send _) => true
  | _ => false

/-- An answer that ends the stream of a tenant: an error of one of the reads of its replay or
of a message, or its channel being closed. -/
inductive Fault (T : String) : Event Op.Resp State → Prop
  | latest (err : StoreErr) (s : State) :
      Fault T (readEvent false (.latestConfigVersion T) (.error err) s)
  | rows (startVersion : ℤ) (err : StoreErr) (s : State) :
      Fault T (readEvent false (.configValuesSince T startVersion) (.error err) s)
  | send (m : ConfigChange) (err : StoreErr) (s : State) :
      Fault T ⟨.stream (.send m), (.error err : Except StoreErr Unit), s⟩
  | closed (position : ℕ) (s : State) :
      Fault T ⟨.stream (.receive T position), (none : Option ConfigChangeEvent), s⟩

variable {h : Hist} {startVersion : ℤ} {o : Op}

/-- What opens a stream is prompt. -/
theorem Op.prompt_of_opens (h : o.opens = true) : o.prompt = true := by
  cases o with
  | read inTx q => rfl
  | stream o => cases o <;> first | rfl | cases h
  | _ => cases h

/-- What is prompt does not wait for an event. -/
theorem Op.isReceive_of_prompt (h : o.prompt = true) : o.isReceive = false := by
  cases o with
  | stream o => cases o <;> first | rfl | cases h
  | _ => rfl

/-- What opens a stream sends nothing. -/
theorem sentBy_of_opens {e : Event Op.Resp State} (h : e.op.opens = true) : sentBy e = none := by
  rcases e with ⟨o, r, s⟩
  cases o with
  | stream o => cases o <;> first | rfl | cases h
  | _ => rfl

@[simp] theorem sent_append (h h' : Hist) : sent (h ++ h') = sent h ++ sent h' :=
  filterMap_append

@[simp] theorem sent_receive (T : String) (p : ℕ) (r : Option ConfigChangeEvent) (s : State)
    (h : Hist) : sent (⟨.stream (.receive T p), r, s⟩ :: h) = sent h := rfl

@[simp] theorem received_append (h h' : Hist) : received (h ++ h') = received h ++ received h' :=
  filterMap_append

@[simp] theorem received_receive (T : String) (p : ℕ) (ev : ConfigChangeEvent) (s : State)
    (h : Hist) : received (⟨.stream (.receive T p), some ev, s⟩ :: h) = ev :: received h := rfl

@[simp] theorem received_closed (T : String) (p : ℕ) (s : State) (h : Hist) :
    received (⟨.stream (.receive T p), none, s⟩ :: h) = received h := rfl

/-- Nothing was sent or awaited. -/
structure Unstreamed (h : Hist) : Prop where
  sent : sent h = []
  received : ∀ e ∈ h, e.op.isReceive = false

/-- A stream that opens has sent nothing. -/
theorem Unstreamed.of_opens (hops : ∀ e ∈ h, e.op.opens = true) : Unstreamed h :=
  ⟨filterMap_eq_nil_iff.mpr fun e he => sentBy_of_opens (hops e he),
    fun e he => Op.isReceive_of_prompt (Op.prompt_of_opens (hops e he))⟩

/-- Without a receive nothing is received. -/
theorem received_eq_nil (hn : ∀ e ∈ h, e.op.isReceive = false) : received h = [] := by
  refine filterMap_eq_nil_iff.mpr fun e he => ?_
  have hop := hn e he
  rcases e with ⟨o, r, s⟩
  cases o with
  | stream o => cases o <;> first | rfl | cases hop
  | _ => rfl

/-! ### Sending -/

attribute [local simp] Op.isReceive Op.opens

/-- The trace of a run of messages: those sent are the first of them, and all of them once it
has returned. -/
theorem sendAll_trace (T : String) {messages : List ConfigChange}
    {q : Prog Op.Resp (Except Status Unit)} (ha : After (forEach send messages).run h q) :
    (∀ e ∈ h, e.op.isReceive = false) ∧ sent h <+: messages ∧
      (∀ u, q = .ret (.ok u) → sent h = messages) ∧
      (∀ err, q = .ret (.error err) → ∃ e ∈ h, Fault T e) ∧
      ∀ o k, q = .op o k → o.prompt = true := by
  induction messages generalizing h with
  | nil =>
    obtain ⟨rfl, rfl⟩ := after_ret.mp ha
    exact ⟨by simp, prefix_rfl, fun _ _ => rfl, fun _ hq => absurd hq (by simp),
      fun _ _ hq => absurd hq (by simp)⟩
  | cons m messages ih =>
    rcases after_op.mp ha with ⟨rfl, rfl⟩ | ⟨r, s, evs, rfl, hk⟩
    · refine ⟨by simp, nil_prefix, fun _ hq => absurd hq (by simp),
        fun _ hq => absurd hq (by simp), ?_⟩
      intro o k hq
      cases hq
      rfl
    · cases r with
      | error e =>
        obtain ⟨rfl, rfl⟩ := after_ret.mp hk
        exact ⟨by simp, nil_prefix, fun _ hq => absurd hq (by simp),
          fun _ _ => ⟨_, mem_cons_self .., .send ..⟩, fun _ _ hq => absurd hq (by simp)⟩
      | ok u =>
        obtain ⟨hrec, hpre, hall, herr, hop⟩ := ih hk
        refine ⟨forall_mem_cons.mpr ⟨rfl, hrec⟩, ?_, ?_, ?_, hop⟩
        · exact cons_prefix_cons.mpr ⟨rfl, hpre⟩
        · intro u hq
          exact congrArg (m :: ·) (hall u hq)
        · intro err hq
          obtain ⟨e, he, hfault⟩ := herr err hq
          exact ⟨e, mem_cons_of_mem _ he, hfault⟩

/-! ### The live loop -/

/-- **The trace of the live loop** of a stream that is at a position of its channel. -/
structure LoopTrace (types : List (String × FieldType)) (T : String) (filterPaths : List String)
    (watermark : ℤ) (patience position : ℕ) (h : Hist)
    (q : Prog Op.Resp (Except Status Reply)) : Prop where
  /-- What was sent is what was received, up to the message it is at. -/
  sent : sent h <+: (received h).flatMap (liveMessages types filterPaths watermark)
  /-- It received from its position on, without a gap. -/
  received : ∀ i ev, (received h)[i]? = some ev →
    ∃ s, (⟨.stream (.receive T (position + i)), some ev, s⟩ : Event Op.Resp State) ∈ h
  /-- When it waits, it has sent all that it received. -/
  waits : ∀ o k, q = .op o k → o.prompt = true ∨
    (o = .stream (.receive T (position + (Decree.received h).length)) ∧
      Decree.sent h = (Decree.received h).flatMap (liveMessages types filterPaths watermark))
  /-- It ends when the client goes away. -/
  ends : ∀ r, q = .ret r → (∃ e ∈ h, Fault T e) ∨ (Decree.received h).length = patience
  /-- It begins by waiting. -/
  begins : ∀ e ∈ h.head?, e.op.isReceive = true

section Loop

variable {types : List (String × FieldType)} {T : String} {filterPaths : List String}
  {watermark : ℤ} {patience position : ℕ} {q : Prog Op.Resp (Except Status Reply)}
  {ev : ConfigChangeEvent}

/-- The loop while it sends the messages of an event. -/
theorem LoopTrace.sending {s : State} {e : Hist} (hrec : ∀ e' ∈ e, e'.op.isReceive = false)
    (hsent : Decree.sent e <+: liveMessages types filterPaths watermark ev)
    (hret : ∀ r, q = .ret r → ∃ e' ∈ e, Fault T e') (hq : ∀ o k, q = .op o k → o.prompt = true) :
    LoopTrace types T filterPaths watermark patience position
      (⟨.stream (.receive T position), some ev, s⟩ :: e) q := by
  have hnil := received_eq_nil hrec
  refine ⟨by simpa [hnil] using hsent, ?_, fun o k ho => .inl (hq o k ho), fun r hr => ?_,
    by simp⟩
  · intro i ev' hi
    rw [received_receive, hnil] at hi
    obtain ⟨rfl, rfl⟩ : i = 0 ∧ ev' = ev := by
      cases i with
      | zero => exact ⟨rfl, (Option.some.inj hi).symm⟩
      | succ i => cases hi
    exact ⟨s, mem_cons_self ..⟩
  · obtain ⟨e', he', hfault⟩ := hret r hr
    exact .inl ⟨e', mem_cons_of_mem _ he', hfault⟩

/-- The loop past an event. -/
theorem LoopTrace.next {s : State} {e e' : Hist} (hrec : ∀ e' ∈ e, e'.op.isReceive = false)
    (hsent : Decree.sent e = liveMessages types filterPaths watermark ev)
    (h : LoopTrace types T filterPaths watermark patience (position + 1) e' q) :
    LoopTrace types T filterPaths watermark (patience + 1) position
      (⟨.stream (.receive T position), some ev, s⟩ :: (e ++ e')) q := by
  have hnil := received_eq_nil hrec
  have hlen : (Decree.received (⟨.stream (.receive T position), some ev, s⟩ :: (e ++ e'))).length =
      (Decree.received e').length + 1 := by simp [hnil]
  refine ⟨?_, ?_, ?_, ?_, by simp⟩
  · simpa [hnil, hsent] using h.sent
  · intro i ev' hi
    rw [received_receive, received_append, hnil, nil_append] at hi
    cases i with
    | zero =>
      cases hi
      exact ⟨s, mem_cons_self ..⟩
    | succ i =>
      obtain ⟨s', hmem⟩ := h.received i ev' hi
      rw [Nat.add_assoc, Nat.add_comm 1 i] at hmem
      exact ⟨s', mem_cons_of_mem _ (mem_append_right _ hmem)⟩
  · intro o k ho
    rcases h.waits o k ho with hprompt | ⟨rfl, hall⟩
    · exact .inl hprompt
    · refine .inr ⟨?_, by simp [hnil, hsent, hall]⟩
      rw [hlen, Nat.add_right_comm, Nat.add_assoc]
  · intro r hr
    rcases h.ends r hr with ⟨e'', he'', hfault⟩ | hpat
    · exact .inl ⟨e'', mem_cons_of_mem _ (mem_append_right _ he''), hfault⟩
    · exact .inr (by rw [hlen, hpat])

/-- **What the live loop has sent.** -/
theorem liveLoop_trace
    (ha : After (liveLoop types T filterPaths watermark patience position).run h q) :
    LoopTrace types T filterPaths watermark patience position h q := by
  induction patience generalizing position h with
  | zero =>
    obtain ⟨rfl, rfl⟩ := after_ret.mp ha
    exact ⟨prefix_rfl, by simp [received], fun _ _ hq => absurd hq (by simp),
      fun _ _ => .inr rfl, by simp⟩
  | succ patience ih =>
    rcases after_op.mp ha with ⟨rfl, rfl⟩ | ⟨event, s, evs, rfl, hk⟩
    · refine ⟨prefix_rfl, by simp [received], ?_, fun _ hq => absurd hq (by simp),
        by simp⟩
      intro o k hq
      cases hq
      exact .inr ⟨rfl, rfl⟩
    cases event with
    | none =>
      obtain ⟨rfl, rfl⟩ := after_ret.mp hk
      refine ⟨prefix_rfl, fun i ev hi => ?_, fun _ _ hq => absurd hq (by simp),
        fun _ _ => .inl ⟨_, mem_cons_self .., .closed ..⟩, by simp⟩
      rw [received_closed] at hi
      cases hi
    | some ev =>
      -- the messages of this event, then the loop from the next position on
      have hk' : After (forEach send (liveMessages types filterPaths watermark ev) >>= fun _ =>
          liveLoop types T filterPaths watermark patience (position + 1)).run evs q := hk
      rw [ExceptT.run_bind] at hk'
      rcases after_bind hk' with ⟨o, k, hsend, rfl⟩ | ⟨e1, e2, r, rfl, hsend, hrest⟩
      · obtain ⟨hrec, hpre, -, -, hop⟩ := sendAll_trace T hsend
        refine .sending hrec hpre (fun _ hq => absurd hq (by simp)) fun o' k' hq => ?_
        cases hq
        exact hop _ _ rfl
      · obtain ⟨hrec, hpre, hall, herr, -⟩ := sendAll_trace T hsend
        cases r with
        | error e =>
          obtain ⟨rfl, rfl⟩ := after_ret.mp hrest
          rw [append_nil]
          exact .sending hrec hpre (fun _ _ => herr e rfl) fun o k hq => absurd hq (by simp)
        | ok u => exact .next hrec (hall u rfl) (ih hrest)

end Loop

/-! ### The stream -/

/-- The program is part of the opening of a stream. -/
abbrev Opens {ε α : Type} (x : Proc ε α) : Prop :=
  Avoids (fun o => o.opens = false) x.run

section Opens

variable {ε α β : Type}

/-- The tenant is resolved before the stream. -/
theorem opens_resolveTenantWithAccess (env : Env) (caller : Caller) (idOrName : String)
    (action : Action) : Opens (resolveTenantWithAccess env caller idOrName action) := by
  refine .bind_run ?_ fun T => .bind_run ?_ fun _ => trivial
  · rw [resolveTenantID]
    split
    · exact trivial
    · split
      · exact trivial
      · exact .bind_run (x := fetch _ _ _) ⟨by simp, fun _ => trivial⟩
          fun _ => trivial
  · refine .bind_run (x := ofExcept _) trivial fun _ => ?_
    split
    · exact .bind_run (x := fetch _ _ _) ⟨by simp, fun _ => trivial⟩
        fun _ => trivial
    · exact trivial

/-- The types are read before the stream. -/
theorem opens_fieldTypeMap (env : Env) (wrap : Status → ε) (T : String) :
    Opens (fieldTypeMap env wrap T) := by
  rw [fieldTypeMap]
  split
  · exact .bind_run (x := fetch _ _ _) ⟨by simp, fun _ => trivial⟩ fun _ => trivial
  · exact trivial

/-- Where a stream is that is in its opening. -/
structure OpeningTrace (h : Hist) (q : Prog Op.Resp (Except ε α)) : Prop where
  ops : ∀ e ∈ h, e.op.opens = true
  next : ∀ o k, q = .op o k → o.opens = true
  refused : ∀ a, q ≠ .ret (.ok a)

/-- What opens a stream, part by part. -/
theorem OpeningTrace.append {h' : Hist} {q : Prog Op.Resp (Except ε α)}
    (hops : ∀ e ∈ h, e.op.opens = true) (ht : OpeningTrace h' q) : OpeningTrace (h ++ h') q :=
  ⟨forall_mem_append.mpr ⟨hops, ht.ops⟩, ht.next, ht.refused⟩

/-- A stream is in a part of its opening, or past it. -/
theorem Opens.after_bind {x : Proc ε α} {f : α → Proc ε β} (hx : Opens x)
    {q : Prog Op.Resp (Except ε β)} (ha : After (x >>= f).run h q) :
    OpeningTrace h q ∨ ∃ e1 e2 a, h = e1 ++ e2 ∧ (∀ e ∈ e1, e.op.opens = true) ∧
      Runs x.run e1 (.ok a) ∧ After (f a).run e2 q := by
  rw [ExceptT.run_bind] at ha
  rcases Interleave.after_bind ha with ⟨o, k, hx', rfl⟩ | ⟨e1, e2, r, rfl, hx', hf⟩
  · obtain ⟨hops, hnext, -⟩ := hx.after hx'
    refine .inl ⟨fun e he => by simpa using hops e he, fun o' k' hq => ?_, by simp⟩
    cases hq
    simpa using hnext
  · have hops : ∀ e ∈ e1, e.op.opens = true := fun e he => by simpa using (hx.after hx').1 e he
    cases r with
    | error e =>
      obtain ⟨rfl, rfl⟩ := after_ret.mp hf
      exact .inl ⟨by rwa [append_nil], fun _ _ hq => absurd hq (by simp), by simp⟩
    | ok a => exact .inr ⟨e1, e2, a, rfl, hops, hx', hf⟩

end Opens

abbrev subscribeEvent (T : String) (position : ℕ) (s : State) : Event Op.Resp State :=
  ⟨.stream (.subscribe T), (.ok position : Except StoreErr ℕ), s⟩

/-- The stream has subscribed to the tenant and works with these types. -/
structure Opened (env : Env) (req : SubscribeRequest) (T : String)
    (types : List (String × FieldType)) (position : ℕ) (h : Hist) : Prop where
  resolved : Resolved req.tenantId T h
  subscribed : ∃ s, subscribeEvent T position s ∈ h
  types : TypesRead env T types h

variable {env : Env} {req : SubscribeRequest} {T : String} {types : List (String × FieldType)}
  {position : ℕ}

/-- A stream that was opened stays so. -/
theorem Opened.append {h' : Hist} (ho : Opened env req T types position h) :
    Opened env req T types position (h ++ h') where
  resolved := ho.resolved.mono (sublist_append_left ..)
  subscribed := ho.subscribed.imp fun _ hmem => mem_append_left _ hmem
  types := ho.types.mono (sublist_append_left ..)

/-- The watermark of the stream and the messages of its replay: it read the latest version
after it had subscribed, and then the rows. -/
inductive Replays (req : SubscribeRequest) (T : String) (types : List (String × FieldType))
    (position : ℕ) (h : Hist) : ℤ → List ConfigChange → Prop
  | none (hstart : req.startVersion = none) : Replays req T types position h 0 []
  | some {startVersion watermark : ℤ} {rows : List ConfigValueSince} {s₀ s₁ s₂ : State}
      {h₀ h₁ : Hist} (hstart : req.startVersion = some startVersion)
      (hsub : subscribeEvent T position s₀ ∈ h₀)
      (hreads : h = h₀ ++ readEvent false (.latestConfigVersion T) (.ok watermark) s₁ ::
        readEvent false (.configValuesSince T startVersion) (.ok rows) s₂ :: h₁) :
      Replays req T types position h watermark (replayMessages types T req.fieldPaths rows)

/-- What was replayed stays so. -/
theorem Replays.append {h' : Hist} {watermark : ℤ} {due : List ConfigChange}
    (hrep : Replays req T types position h watermark due) :
    Replays req T types position (h ++ h') watermark due := by
  cases hrep with
  | none hstart => exact .none hstart
  | some hstart hsub hreads =>
    rw [hreads, append_assoc]
    exact .some hstart hsub rfl

/-- **Where a stream is**: in its opening, in the reads of its replay, in the messages of its
replay, or in its live loop. -/
inductive StreamTrace (env : Env) (req : SubscribeRequest) (patience : ℕ) (h : Hist)
    (q : Prog Op.Resp (Except Status Reply)) : Prop
  | opening (ht : OpeningTrace h q)
  | reading {T : String} {types : List (String × FieldType)} {position : ℕ}
      (hopen : Opened env req T types position h) (hun : Unstreamed h)
      (hret : ∀ r, q = .ret r → ∃ e ∈ h, Fault T e)
      (hq : ∀ o k, q = .op o k → o.prompt = true)
  | replaying {T : String} {types : List (String × FieldType)} {position : ℕ} {watermark : ℤ}
      {due : List ConfigChange} (hopen : Opened env req T types position h)
      (hrep : Replays req T types position h watermark due)
      (hrec : ∀ e ∈ h, e.op.isReceive = false) (hsent : sent h <+: due)
      (hret : ∀ r, q = .ret r → ∃ e ∈ h, Fault T e)
      (hq : ∀ o k, q = .op o k → o.prompt = true)
  | live {T : String} {types : List (String × FieldType)} {position : ℕ} {watermark : ℤ}
      {due : List ConfigChange} {h₁ h₂ : Hist} (hh : h = h₁ ++ h₂)
      (hopen : Opened env req T types position h₁)
      (hrep : Replays req T types position h₁ watermark due)
      (hrec : ∀ e ∈ h₁, e.op.isReceive = false) (hsent : sent h₁ = due)
      (hloop : LoopTrace types T req.fieldPaths watermark patience position h₂ q)

/-- **What the replay has sent.** -/
theorem replayConfig_trace {filterPaths : List String} {q : Prog Op.Resp (Except Status ℤ)}
    (ha : After (replayConfig types T filterPaths startVersion).run h q) :
    (∀ o k, q = .op o k → o.prompt = true) ∧ (∀ err, q = .ret (.error err) → ∃ e ∈ h, Fault T e) ∧
      (∀ e ∈ h, e.op.isReceive = false) ∧
      ((sent h = [] ∧ ∀ w, q ≠ .ret (.ok w)) ∨ ∃ watermark rows s1 s2 h',
          h = readEvent false (.latestConfigVersion T) (.ok watermark) s1 ::
            readEvent false (.configValuesSince T startVersion) (.ok rows) s2 :: h' ∧
          sent h <+: replayMessages types T filterPaths rows ∧
          ∀ w, q = .ret (.ok w) → w = watermark ∧
            sent h = replayMessages types T filterPaths rows) := by
  rcases after_op.mp ha with ⟨rfl, rfl⟩ | ⟨r, s1, evs, rfl, hk⟩
  · refine ⟨fun o k hq => ?_, by simp, by simp, .inl ⟨rfl, by simp⟩⟩
    cases hq
    rfl
  cases r with
  | error e =>
    obtain ⟨rfl, rfl⟩ := after_ret.mp hk
    exact ⟨by simp, fun _ _ => ⟨_, mem_cons_self .., .latest ..⟩, by simp,
      .inl ⟨rfl, by simp⟩⟩
  | ok watermark =>
    rcases after_op.mp hk with ⟨rfl, rfl⟩ | ⟨r, s2, evs, rfl, hk'⟩
    · refine ⟨fun o k hq => ?_, by simp, by simp, .inl ⟨rfl, by simp⟩⟩
      cases hq
      rfl
    cases r with
    | error e =>
      obtain ⟨rfl, rfl⟩ := after_ret.mp hk'
      exact ⟨by simp, fun _ _ => ⟨_, mem_cons_of_mem _ (mem_cons_self ..), .rows ..⟩,
        by simp, .inl ⟨rfl, by simp⟩⟩
    | ok rows =>
      have hk'' : After ((forEach send (replayMessages types T filterPaths rows)) >>= fun _ =>
          (pure watermark : Proc Status ℤ)).run evs q := hk'
      rw [ExceptT.run_bind] at hk''
      rcases after_bind hk'' with ⟨o, k, hsend, rfl⟩ | ⟨e3, e4, r, rfl, hsend, hret⟩
      · obtain ⟨hrec, hpre, -, -, hop⟩ := sendAll_trace T hsend
        refine ⟨fun o' k' hq => ?_, by simp, by simpa using hrec,
          .inr ⟨watermark, rows, s1, s2, evs, rfl, hpre, by simp⟩⟩
        cases hq
        exact hop _ _ rfl
      · obtain ⟨hrec, hpre, hall, herr, -⟩ := sendAll_trace T hsend
        obtain ⟨rfl, rfl⟩ : e4 = [] ∧ q = .ret (r.map fun _ => watermark) := by
          cases r <;> exact after_ret.mp hret
        rw [append_nil]
        refine ⟨by simp, fun err hq => ?_, by simpa using hrec,
          .inr ⟨watermark, rows, s1, s2, e3, rfl, hpre, fun w hw => ?_⟩⟩
        · cases r with
          | ok u => cases hq
          | error e =>
            obtain ⟨e', he', hfault⟩ := herr e rfl
            exact ⟨e', mem_cons_of_mem _ (mem_cons_of_mem _ he'), hfault⟩
        · cases r with
          | error e => cases hw
          | ok u => exact ⟨(Except.ok.inj (Prog.ret.inj hw)).symm, hall u rfl⟩

/-- A stream in its replay. -/
theorem StreamTrace.of_replay {patience : ℕ} {s0 : State} {h0 : Hist}
    {q0 : Prog Op.Resp (Except Status ℤ)} {q : Prog Op.Resp (Except Status Reply)}
    (hopen : Opened env req T types position h0) (hsub : subscribeEvent T position s0 ∈ h0)
    (hun : Unstreamed h0) (hstart : req.startVersion = some startVersion)
    (ha : After (replayConfig types T req.fieldPaths startVersion).run h q0)
    (hret : ∀ r, q = .ret r → ∃ err, q0 = .ret (.error err))
    (hop : ∀ o k, q = .op o k → ∃ k', q0 = .op o k') :
    StreamTrace env req patience (h0 ++ h) q := by
  obtain ⟨hprompt, herr, hrec, htrace⟩ := replayConfig_trace ha
  have hrec' := forall_mem_append.mpr ⟨hun.received, hrec⟩
  have hsent : sent (h0 ++ h) = sent h := by rw [sent_append, hun.sent, nil_append]
  have hfault : ∀ r, q = .ret r → ∃ e ∈ h0 ++ h, Fault T e := by
    intro r hq
    obtain ⟨err, hq0⟩ := hret r hq
    obtain ⟨e, he, hfault⟩ := herr err hq0
    exact ⟨e, mem_append_right _ he, hfault⟩
  have hnext : ∀ o k, q = .op o k → o.prompt = true := by
    intro o k hq
    obtain ⟨k', hq0⟩ := hop o k hq
    exact hprompt o k' hq0
  rcases htrace with ⟨hnil, -⟩ | ⟨watermark, rows, s1, s2, h', hreads, hpre, -⟩
  · exact .reading hopen.append ⟨hsent.trans hnil, hrec'⟩ hfault hnext
  · exact .replaying hopen.append (.some hstart hsub (by rw [hreads])) hrec' (hsent ▸ hpre)
      hfault hnext

/-- **What a stream has sent, wherever it is.** -/
theorem subscribe_trace {caller : Caller} {patience : ℕ} {q : Prog Op.Resp (Except Status Reply)}
    (ha : After (subscribe env caller req patience).run h q) :
    StreamTrace env req patience h q := by
  rcases Opens.after_bind (x := ofExcept _) trivial ha with ht | ⟨e1, r1, _, rfl, u1, -, h1⟩
  · exact .opening ht
  rcases Opens.after_bind (x := require _ _) trivial h1 with ht | ⟨e2, r2, _, rfl, u2, -, h2⟩
  · exact .opening (ht.append u1)
  rcases (opens_resolveTenantWithAccess _ _ _ _).after_bind h2 with
    ht | ⟨e3, r3, T, rfl, u3, hres, h3⟩
  · exact .opening ((ht.append u2).append u1)
  rcases Opens.after_bind (x := ask _ _) ⟨by simp, fun _ => trivial⟩ h3 with
    ht | ⟨e4, r4, position, rfl, u4, hsub, h4⟩
  · exact .opening (((ht.append u3).append u2).append u1)
  rcases (opens_fieldTypeMap _ _ _).after_bind h4 with
    ht | ⟨e5, r5, types, rfl, u5, htypes, h5⟩
  · exact .opening ((((ht.append u4).append u3).append u2).append u1)
  obtain ⟨s0, rfl⟩ : ∃ s0, e4 = [subscribeEvent T position s0] := by
    obtain ⟨r, s0, rfl, hr⟩ := runs_ask.mp hsub
    cases r with
    | error e => cases hr
    | ok p => exact ⟨s0, by rw [Except.ok.inj hr]⟩
  have hopen : Opened env req T types position
      (e1 ++ e2 ++ e3 ++ [subscribeEvent T position s0] ++ e5) := by
    refine ⟨(resolved_of_runs_withAccess hres).mono ?_, ⟨s0, by simp⟩,
      (typesRead_of_runs htypes).mono (sublist_append_right ..)⟩
    simp only [append_assoc]
    exact (sublist_append_left ..).trans ((sublist_append_right ..).trans (sublist_append_right ..))
  have hsub' : subscribeEvent T position s0 ∈
      e1 ++ e2 ++ e3 ++ [subscribeEvent T position s0] ++ e5 := by simp
  have u : Unstreamed (e1 ++ e2 ++ e3 ++ [subscribeEvent T position s0] ++ e5) :=
    .of_opens (by simp only [forall_mem_append]; exact ⟨⟨⟨⟨u1, u2⟩, u3⟩, u4⟩, u5⟩)
  simp only [← append_assoc]
  generalize e1 ++ e2 ++ e3 ++ [subscribeEvent T position s0] ++ e5 = h0 at *
  cases hstart : req.startVersion with
  | none =>
    rw [hstart] at h5
    exact .live rfl hopen (.none hstart) u.received u.sent (liveLoop_trace h5)
  | some startVersion =>
    rw [hstart, ExceptT.run_bind] at h5
    rcases after_bind h5 with ⟨o, k, hrep, rfl⟩ | ⟨e6, r6, r, rfl, hrep, hloop⟩
    · refine .of_replay hopen hsub' u hstart hrep (by simp) fun o' k' hq => ?_
      cases hq
      exact ⟨k, rfl⟩
    · cases r with
      | error e =>
        obtain ⟨rfl, rfl⟩ := after_ret.mp hloop
        rw [append_nil]
        exact .of_replay hopen hsub' u hstart hrep (fun _ _ => ⟨e, rfl⟩) (by simp)
      | ok w =>
        obtain ⟨-, -, hrec, ⟨-, hne⟩ | ⟨watermark, rows, s1, s2, h', hreads, -, hall⟩⟩ :=
          replayConfig_trace hrep
        · exact absurd rfl (hne w)
        obtain ⟨rfl, hsent⟩ := hall w rfl
        refine .live (append_assoc ..).symm hopen.append
          (.some hstart hsub' (by rw [hreads])) (forall_mem_append.mpr
            ⟨u.received, hrec⟩) ?_ (liveLoop_trace hloop)
        rw [sent_append, u.sent, nil_append, hsent]

end Decree
