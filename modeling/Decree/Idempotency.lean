import Decree.Versions

/-!
# Idempotency Keys

`SetField` and `SetFields` claim their idempotency key before they validate and write. A claim
is never given back: when the write fails after it, a repetition of the request finds the key
taken and is answered with success, although nothing was committed. The same happens to a
repetition that arrives before the first request commits. `ClaimStep` asks of a claim that finds
its key taken that a request under the key has committed.

## Main results

* `claimed_unique`: a key is claimed by one call.
* `committed_once_of_success`: success means one commit.
-/

open Interleave List

namespace Decree

/-! ### Claims -/

def pendingClaim (c : System) (t : ℕ) : Option String :=
  match (c.pool t).prog with
  | .op (.claim key) _ => some key
  | _ => none

/-- The call is a request for the tenant under the idempotency key. -/
def Init.Under (init : Init) (db : Tables) (T key : String) (t : ℕ) : Prop :=
  ∃ p ∈ (init.calls t).idempotency, p.2 = key ∧ db.tenantOf p.1 = some T

instance (init : Init) (db : Tables) (T key : String) (t : ℕ) :
    Decidable (init.Under db T key t) :=
  inferInstanceAs (Decidable (∃ p ∈ (init.calls t).idempotency, _))

/-- The step, if it is a claim: the cache can be reached and has kept its keys, and if the key
is taken then a request under it has committed. -/
def ClaimStep (init : Init) (c : System) (t : ℕ) (ch : Choice) : Prop :=
  ∀ k ∈ pendingClaim c t, (ch ≠ .fail ∧ ch ≠ .lost ∧ ch ≠ .expired) ∧
    (k ∈ c.shared.claims → ∀ p ∈ (init.calls t).idempotency, ∀ T ∈ c.shared.db.tenantOf p.1,
      ∃ V ∈ c.shared.db.log T, init.Under c.shared.db T p.2 V.writer)

instance (init : Init) (c : System) (t : ℕ) (ch : Choice) : Decidable (ClaimStep init c t ch) :=
  inferInstanceAs (Decidable (∀ k ∈ pendingClaim c t, _))

/-- The rows that a `SetField` or a `SetFields` asks for. -/
def Call.updateRows (env : Env) : Call → List ConfigValue
  | setField _ req => [rowOfValue env req.fieldPath req.value req.valueDescription]
  | setFields _ req =>
    req.updates.map fun u => rowOfValue env u.fieldPath u.value u.valueDescription
  | _ => []

variable {env : Env} {init : Init} {c c' : System} {t u : ℕ} {T key k : String}
  {V W : ConfigVersion}

theorem State.le.under {s s' : State} (h : s.le s') (hu : init.Under s.db T key t) :
    init.Under s'.db T key t := by
  obtain ⟨p, hp, hkey, hT⟩ := hu
  exact ⟨p, hp, hkey, h.tenantOf hT⟩

/-- The call's claim of the key succeeded. -/
def Claimed (k : String) (h : Hist) : Prop :=
  ∃ s, (⟨.claim k, (.ok true : Except StoreErr Bool), s⟩ : Event Op.Resp State) ∈ h

/-- What a claim says of the keys that were taken. -/
theorem claim_answer (hr : Reach exec (ClaimStep init) (init.system env) c)
    {r : Except StoreErr Bool} {s : State}
    (he : (⟨.claim k, r, s⟩ : Event Op.Resp State) ∈ (c.pool t).hist) :
    r = .ok false ∨ r = .ok true := by
  obtain ⟨h1, ch, c₁, c₂, hstep⟩ := hr.event_of_mem rfl he
  obtain ⟨k', hk'⟩ := hstep.next
  obtain ⟨hch, -⟩ := hstep.admitted k (by simp [pendingClaim, hk'])
  rcases exec_claim hstep.answer hch with ⟨-, hr⟩ | ⟨-, -, hr⟩
  · exact .inl hr
  · exact .inr hr

/-- **A key is claimed by one call.** -/
theorem claimed_unique (hr : Reach exec (ClaimStep init) (init.system env) c) (k : String) :
    (∀ t, Claimed k (c.pool t).hist → k ∈ c.shared.claims) ∧
      ∀ t u, Claimed k (c.pool t).hist → Claimed k (c.pool u).hist → t = u := by
  refine hr.invariant (fun c => (∀ t, Claimed k (c.pool t).hist → k ∈ c.shared.claims) ∧
    ∀ t u, Claimed k (c.pool t).hist → Claimed k (c.pool u).hist → t = u) ?_ ?_
  · constructor
    · rintro t ⟨s, hs⟩
      exact absurd hs not_mem_nil
    · rintro t u ⟨s, hs⟩
      exact absurd hs not_mem_nil
  · rintro c c' t ch hr ⟨htaken, hunique⟩ ha hs
    obtain ⟨o, kont, r, hp, he, hpool⟩ := step_eq_some hs
    -- a history has the claim already, or the step is the claim and the key was free
    have hcases : ∀ u, Claimed k (c'.pool u).hist → Claimed k (c.pool u).hist ∨
        (u = t ∧ k ∉ c.shared.claims ∧ k ∈ c'.shared.claims) := by
      rintro u ⟨s, hmem⟩
      by_cases hu : u = t
      · subst hu
        rw [hpool, Function.update_self, mem_append, mem_singleton] at hmem
        rcases hmem with hmem | heq
        · exact .inl ⟨s, hmem⟩
        · obtain ⟨rfl, hr, -⟩ := Event.mk.inj heq
          obtain rfl := eq_of_heq hr
          obtain ⟨hch, -⟩ := ha k (by simp [pendingClaim, hp])
          rcases exec_claim he hch with ⟨-, hr⟩ | ⟨hfree, hnow, -⟩
          · cases hr
          · exact .inr ⟨rfl, hfree, hnow⟩
      · rw [hpool, Function.update_of_ne hu] at hmem
        exact .inl ⟨s, hmem⟩
    refine ⟨fun u hu => ?_, fun u v hu hv => ?_⟩
    · rcases hcases u hu with hold | ⟨-, -, hnow⟩
      · exact (exec_effect he).claims (htaken u hold)
      · exact hnow
    · rcases hcases u hu with hu | ⟨rfl, hfree, -⟩
      · rcases hcases v hv with hv | ⟨-, hfree, -⟩
        · exact hunique u v hu hv
        · exact absurd (htaken u hu) hfree
      · rcases hcases v hv with hv | ⟨rfl, -, -⟩
        · exact absurd (htaken v hv) hfree
        · rfl

/-! ### Requests under a key -/

variable {allowed : System → ℕ → Choice → Prop} {L : List ConfigVersion} {tx : Tx}
  {c₁ c₂ : System} {call : Call} {idOrName : String} {p : String × String}

theorem Call.tenantId_of_idempotency (h : call.idempotency = some (idOrName, key)) :
    call.tenantId = some idOrName := by
  cases call with
  | setField | setFields =>
    cases h
    rfl
  | _ => cases h

theorem Call.idempotency_of_reads (h : call.Reads) : call.idempotency = none := by
  cases call <;> first | rfl | exact absurd h id

theorem Source.updateRows {w : VersionWrite} {h : Hist} (hs : Source env call w h)
    (hp : call.idempotency = some p) : w.rows = call.updateRows env := by
  cases hs with
  | setField | setFields => rfl
  | rollbackToVersion | importConfig => cases hp

theorem CommitStep.request (hc : CommitStep env init allowed T L V tx c₁ c₂)
    (hp : (init.calls V.writer).idempotency = some p) :
    ∃ w, WriteCommit env (init.calls V.writer) T L V (c₁.pool V.writer).hist w := by
  rcases hc.write_or_seed with hw | ⟨-, caller, req, hs⟩
  · exact hw
  · rw [hs.call] at hp
    cases hp

section

variable (hr : Reach exec (ClaimStep init) (init.system env) c)

include hr

/-- A version that was committed under a key has the rows that were asked for, and its writer
has claimed the key. -/
theorem claimed_of_committed
    (hcache : env.hasIdempotencyCache = true) (hkey : key ≠ "") (hV : V ∈ c.shared.db.log T)
    (hu : init.Under c.shared.db T key V.writer) :
    V.values = (init.calls V.writer).updateRows env ∧
      Claimed (T ++ ":" ++ key) (c.pool V.writer).hist := by
  obtain ⟨⟨idOrName, key'⟩, hp, rfl, -⟩ := hu
  obtain ⟨L, rest, hlog⟩ := append_of_mem hV
  obtain ⟨tx, c₁, c₂, hc, hr2⟩ := exists_commitStep hr hlog
  obtain ⟨w, hw⟩ := hc.request hp
  refine ⟨hw.values.trans (hw.source.updateRows hp), ?_⟩
  rcases hw.source.admits hp with hempty | hnone | ⟨r, s, he, hne⟩
  · exact absurd hempty hkey
  · exact absurd hnone (by simp [hcache])
  · obtain ⟨-, e, -, hpre⟩ := hc.hist hr2
    rw [hw.tenant] at he
    have he' := hpre.subset (mem_append_left _ he)
    obtain rfl := (claim_answer hr he').resolve_left hne
    exact ⟨s, he'⟩

/-- A request that was answered as a repetition has a committed one before it. -/
theorem exists_of_repeated (hp : (init.calls t).idempotency = some (idOrName, key))
    (hT : c.shared.db.tenantOf idOrName = some T) (hrep : Repeated idOrName key (c.pool t).hist) :
    ∃ V ∈ c.shared.db.log T, init.Under c.shared.db T key V.writer := by
  obtain ⟨T', s, pre, hres, -, hh⟩ := hrep
  obtain ⟨ch, c₁, c₂, hstep⟩ := hr.event rfl hh
  obtain ⟨k', hk'⟩ := hstep.next
  obtain ⟨hch, htaken⟩ := hstep.admitted _ (by simp only [pendingClaim, hk']; rfl)
  have hle := (exec_le hstep.answer).trans (reach_le hstep.rest)
  rw [← hstep.pre] at hle
  have hT1 := tenantOf_now hstep.reach (hstep.hist ▸ hres)
  obtain rfl : T' = T := Option.some.inj ((hle.tenantOf hT1).symm.trans hT)
  rcases exec_claim hstep.answer hch with ⟨hmem, -⟩ | ⟨-, -, hfirst⟩
  · rw [← hstep.pre] at hmem
    obtain ⟨V, hV, hu⟩ := htaken hmem _ hp T' hT1
    exact ⟨V, (hle.log T').subset hV, hle.under hu⟩
  · cases hfirst

/-- A request that was answered with its version has committed it. -/
theorem exists_of_returned (hp : (init.calls t).idempotency = some (idOrName, key))
    (hT : c.shared.db.tenantOf idOrName = some T) {n : ℤ}
    (hret : c.returned t = some (.ok (.version n))) :
    ∃ V ∈ c.shared.db.log T, init.Under c.shared.db T key V.writer := by
  obtain ⟨T', L, V, tx, c₁, c₂, hc, hr2, rfl, -, -⟩ := exists_commitStep_of_returned hr hret
  obtain ⟨w, hw⟩ := hc.request hp
  obtain ⟨ref, href, hres⟩ := hw.source.resolved
  obtain rfl : ref = idOrName := Option.some.inj (href.symm.trans (Call.tenantId_of_idempotency hp))
  have hle := hc.le.trans (reach_le hr2)
  rw [hw.tenant] at hres
  obtain rfl : T' = T := Option.some.inj ((hle.tenantOf (tenantOf_now hc.reach hres)).symm.trans hT)
  refine ⟨V, ?_, _, hp, rfl, hT⟩
  exact ((reach_le hr2).log T').subset (hc.log_after ▸ mem_append_right _ (by simp))

end

/-- **Success means one commit**: along every run in which a key is found taken only when a
request under it has committed, if a request is answered with success then exactly one version
was committed under its key, with the rows its request asks for. -/
theorem committed_once_of_success (hr : Reach exec (ClaimStep init) (init.system env) c)
    (hcache : env.hasIdempotencyCache = true) (hkey : key ≠ "")
    (hu : init.Under c.shared.db T key t) {reply : Reply}
    (hret : c.returned t = some (.ok reply)) :
    ∃ V ∈ c.shared.db.log T, init.Under c.shared.db T key V.writer ∧
      V.values = (init.calls V.writer).updateRows env ∧
      ∀ W ∈ c.shared.db.log T, init.Under c.shared.db T key W.writer → W = V := by
  obtain ⟨⟨idOrName, key'⟩, hp, rfl, hT⟩ := id hu
  have hexists : ∃ V ∈ c.shared.db.log T, init.Under c.shared.db T key' V.writer := by
    have hafter := returned_runs hr hret
    cases Call.late (q := .ret (.ok reply)) trivial hafter with
    | repeated hq hidem hrep =>
      obtain ⟨rfl, rfl⟩ := answer_inj (hp.symm.trans hidem)
      exact exists_of_repeated hr hp hT hrep
    | writing hw =>
      obtain ⟨w, audit, rest, pre, post, -, -, -, -, -, -, hat⟩ := hw
      obtain ⟨pre', att, v, s, post', rfl, -⟩ := hat.returned
      exact exists_of_returned hr hp hT hret
    | locking hidem => cases (hp.symm.trans hidem)
    | seeding hcall => exact absurd hp (by simp [hcall, Call.idempotency])
    | reading hread => cases (hp.symm.trans (Call.idempotency_of_reads hread))
  obtain ⟨V, hV, hVu⟩ := hexists
  obtain ⟨hrows, hclaim⟩ := claimed_of_committed hr hcache hkey hV hVu
  refine ⟨V, hV, hVu, hrows, fun W hW hWu => ?_⟩
  obtain ⟨-, hclaim'⟩ := claimed_of_committed hr hcache hkey hW hWu
  exact eq_of_writer_eq hr hW hV ((claimed_unique hr _).2 _ _ hclaim' hclaim)

open Sample

/-- A `SetField` of the tenant under the key `k`. -/
def Sample.setOnce (fieldPath value : String) : Call :=
  .setField superadmin
    { tenantId := tenant, fieldPath := fieldPath, value := some (.stringValue value),
      idempotencyKey := "k" }

theorem committed_once_of_success_twice :
    ∃ c V, Reach exec (ClaimStep (Sample.init [] [setOnce "b" "x", setOnce "b" "x"]))
        ((Sample.init [] [setOnce "b" "x", setOnce "b" "x"]).system (world noDocument)) c ∧
      c.returned 1 = some (.ok .duplicate) ∧ V ∈ c.shared.db.log tenant ∧
      ∀ W ∈ c.shared.db.log tenant, (Sample.init []
        [setOnce "b" "x", setOnce "b" "x"]).Under c.shared.db tenant "k" W.writer → W = V := by
  obtain ⟨c, hr, hret⟩ : ∃ c, Reach exec
      (ClaimStep (Sample.init [] [setOnce "b" "x", setOnce "b" "x"]))
      ((Sample.init [] [setOnce "b" "x", setOnce "b" "x"]).system
        (world noDocument)) c ∧ c.returned 1 = some (.ok .duplicate) :=
    exists_reach_of_run (steps 0 17 ++ steps 1 1) (by decide +kernel)
  obtain ⟨V, hV, -, -, huniq⟩ := committed_once_of_success (T := tenant) hr rfl
    (by decide) ⟨(tenant, "k"), rfl, rfl, rfl⟩ hret
  exact ⟨c, V, hr, hret, hV, huniq⟩

/-- The first request claims its key and is rejected: the field holds integers. The same request
again is answered with success. -/
theorem success_without_commit : ∃ c, Reach exec anyStep ((Sample.init []
        [setOnce "a" "x", setOnce "a" "x"]).system (world noDocument)) c ∧
      (∃ e, c.returned 0 = some (.error e)) ∧ c.returned 1 = some (.ok .duplicate) ∧
      c.shared.db.log tenant = [] := by
  obtain ⟨c, hr, hfirst, hret, hlog⟩ : ∃ c, Reach exec anyStep ((Sample.init []
      [setOnce "a" "x", setOnce "a" "x"]).system (world noDocument)) c ∧
      ((c.returned 0).any fun r => !r.toBool) = true ∧
      c.returned 1 = some (.ok .duplicate) ∧ c.shared.db.log tenant = [] :=
    exists_reach_of_run (steps 0 2 ++ steps 1 1) (by decide +kernel)
  refine ⟨c, hr, ?_, hret, hlog⟩
  obtain ⟨r, hr, hfail⟩ := (Option.any_eq_true _ _).mp hfirst
  cases r with
  | error e => exact ⟨e, hr⟩
  | ok a => cases hfail

end Decree
