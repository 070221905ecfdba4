import Decree.Traces

/-!
# Traces of the Reads

The calls that only read leave the transactions alone and publish nothing (`Call.quiet`), and
what they return is no answer of a write (`Call.returns`).

## Main results

* `Call.settlesNothing`: reads neither commit nor publish.
-/

open Interleave
open scoped List

namespace Decree

/-! ### What a program returns -/

section Returns

variable {ε α β : Type}

/-- All results of the program have the property. -/
def Returns (P : α → Prop) (x : Proc ε α) : Prop :=
  ∀ (evs : Hist) (a : α), Runs x.run evs (.ok a) → P a

variable {P : α → Prop}

/-- A value returns itself. -/
theorem returns_pure {a : α} (h : P a) : Returns P (pure a : Proc ε α) := by
  intro evs b hrun
  obtain ⟨-, rfl⟩ := runs_pure_ok.mp hrun
  exact h

/-- The last part decides what is returned. -/
theorem returns_bind {x : Proc ε β} {f : β → Proc ε α} (h : ∀ b, Returns P (f b)) :
    Returns P (x >>= f) := by
  intro evs a hrun
  obtain ⟨e1, e2, b, -, -, hf⟩ := runs_bind_ok hrun
  exact h b e2 a hf

end Returns

/-! ### The calls that read -/

def Call.Reads : Call → Prop
  | getConfig _ _ | getField _ _ | getFields _ _ | diffVersions _ _ | exportConfig _ _
  | subscribe _ _ _ => True
  | _ => False

/-- The answer of a call that reads. -/
def Reply.Shows : Reply → Prop
  | config _ | field _ | fields _ | diffs _ | exported _ | closed => True
  | _ => False

section Quiet

variable (env : Env) (caller : Caller) (T : String)

theorem quiet_resolveRequested (requested : Option ℤ) : Quiet (resolveRequested T requested) := by
  cases requested with
  | none => exact (plain_resolveVersion T).quiet
  | some v => exact quiet_pure v

/-- The program neither commits nor publishes. -/
abbrev SettlesNothing {ε α : Type} (x : Proc ε α) : Prop :=
  Avoids Op.Settles x.run

/-- A quiet program settles nothing. -/
theorem Quiet.settlesNothing {ε α : Type} {x : Proc ε α} (hx : Quiet x) : SettlesNothing x :=
  hx.mono fun _ ho => ho.concludes.movesVersion

variable (v : ℤ) (types : List (String × FieldType))

/-- A fetch settles nothing. -/
theorem settlesNothing_fetchAndCacheConfig : SettlesNothing (fetchAndCacheConfig T v) :=
  (quiet_fetch _ _ _).settlesNothing.bind_run fun _ =>
    (quiet_getSchemaFieldSets _).settlesNothing.bind_run fun _ =>
    Avoids.bind_run ⟨id, fun _ => trivial⟩ fun _ => trivial

/-- A shared fetch settles nothing. -/
theorem settlesNothing_sharedFetch : SettlesNothing (sharedFetch T v) := by
  refine .bind_run ⟨id, fun _ => trivial⟩ fun leader => ?_
  cases leader with
  | some leader => exact ⟨id, fun _ => trivial⟩
  | none =>
    exact .bind (settlesNothing_fetchAndCacheConfig T v) fun r => ⟨id, fun _ => trivial⟩

theorem settlesNothing_lookNegative : SettlesNothing (lookNegative T v) := by
  refine .bind_run ⟨id, fun _ => trivial⟩ fun negative => ?_
  split
  · exact trivial
  · exact settlesNothing_sharedFetch T v

/-- A lookup settles nothing. -/
theorem settlesNothing_cachedConfig : SettlesNothing (cachedConfig T v) := by
  refine .bind_run ⟨id, fun _ => trivial⟩ fun cached => ?_
  cases cached with
  | some values => exact trivial
  | none => exact settlesNothing_lookNegative T v

/-- `GetConfig` settles nothing. -/
theorem settlesNothing_getConfig (req : GetConfigRequest) :
    SettlesNothing (getConfig env caller req) := by
  refine (quiet_ofExcept _).settlesNothing.bind_run fun _ => ?_
  refine (quiet_resolveTenantWithAccess _ _ _ _).settlesNothing.bind_run fun T => ?_
  refine (quiet_resolveRequested _ _).settlesNothing.bind_run fun v => ?_
  refine (quiet_fieldTypeMap _ _ _).settlesNothing.bind_run fun types => ?_
  split
  · refine (quiet_fetch _ _ _).settlesNothing.bind_run fun rows => ?_
    exact (quiet_getSchemaFieldSets _).settlesNothing.bind_run fun fields => trivial
  · exact (settlesNothing_cachedConfig _ _).bind_run fun values => trivial

theorem quiet_getField (req : GetFieldRequest) : Quiet (getField env caller req) :=
  .bind_run (quiet_ofExcept _) fun _ =>
    .bind_run (quiet_resolveTenantWithAccess _ _ _ _) fun _ =>
    .bind_run (quiet_resolveRequested _ _) fun _ => .bind_run (quiet_fetch _ _ _) fun _ =>
    .bind_run (quiet_getSchemaFieldSets _) fun _ =>
    .bind_run (quiet_fieldTypeMap _ _ _) fun _ => quiet_pure _

theorem quiet_getFields (req : GetFieldsRequest) : Quiet (getFields env caller req) :=
  .bind_run (quiet_ofExcept _) fun _ => .bind_run (quiet_require _ _) fun _ =>
    .bind_run (quiet_resolveTenantWithAccess _ _ _ _) fun _ =>
    .bind_run (quiet_resolveRequested _ _) fun _ =>
    .bind_run (quiet_fieldTypeMap _ _ _) fun _ =>
    .bind_run (quiet_getSchemaFieldSets _) fun _ =>
    .bind_run (.collect (fun _ => quiet_ask id _) _) fun _ => quiet_pure _

theorem quiet_configMapAtVersion : Quiet (configMapAtVersion T v) :=
  .bind_run (quiet_fetch _ _ _) fun _ => quiet_pure _

theorem quiet_diffVersions (req : DiffVersionsRequest) : Quiet (diffVersions env caller req) :=
  .bind_run (quiet_ofExcept _) fun _ =>
    .bind_run (quiet_resolveTenantWithAccess _ _ _ _) fun _ =>
    .bind_run (quiet_fetch _ _ _) fun _ => .bind_run (quiet_fetch _ _ _) fun _ =>
    .bind_run (quiet_configMapAtVersion _ _) fun _ =>
    .bind_run (quiet_configMapAtVersion _ _) fun _ => quiet_pure _

theorem quiet_exportConfig (req : ExportConfigRequest) : Quiet (exportConfig env caller req) :=
  .bind_run (quiet_ofExcept _) fun _ =>
    .bind_run (quiet_resolveTenantWithAccess _ _ _ _) fun _ =>
    .bind_run (quiet_resolveRequested _ _) fun _ => .bind_run (quiet_require _ _) fun _ =>
    .bind_run (quiet_fieldTypeMap _ _ _) fun _ => .bind_run (quiet_fetch _ _ _) fun _ =>
    .bind_run (quiet_require _ _) fun _ => .bind_run (quiet_getSchemaFieldSets _) fun _ =>
    .bind_run (quiet_ask id _) fun _ => .bind_run (quiet_ofExcept _) fun _ => quiet_pure _

theorem quiet_sendAll (messages : List ConfigChange) : Quiet (forEach send messages) :=
  Avoids.forEach (fun _ => quiet_ask id _) _

theorem quiet_replayRequested (filterPaths : List String)
    (startVersion : Option ℤ) : Quiet (replayRequested types T filterPaths startVersion) := by
  cases startVersion with
  | none => exact quiet_pure _
  | some startVersion =>
    exact .bind_run (quiet_fetch _ _ _) fun _ => .bind_run (quiet_fetch _ _ _) fun _ =>
      .bind_run (quiet_sendAll _) fun _ => quiet_pure _

theorem quiet_liveLoop (filterPaths : List String) (watermark : ℤ) (patience position : ℕ) :
    Quiet (liveLoop types T filterPaths watermark patience position) := by
  induction patience generalizing position with
  | zero => exact quiet_pure _
  | succ patience ih =>
    refine .bind_run (quiet_ask id _) fun event => ?_
    cases event with
    | none => exact quiet_pure _
    | some ev => exact .bind_run (quiet_sendAll _) fun _ => ih (position + 1)

theorem quiet_subscribe (req : SubscribeRequest) (patience : ℕ) :
    Quiet (subscribe env caller req patience) :=
  .bind_run (quiet_ofExcept _) fun _ => .bind_run (quiet_require _ _) fun _ =>
    .bind_run (quiet_resolveTenantWithAccess _ _ _ _) fun _ =>
    .bind_run (quiet_ask id _) fun _ => .bind_run (quiet_fieldTypeMap _ _ _) fun _ =>
    .bind_run (quiet_replayRequested _ _ _ _) fun _ => quiet_liveLoop _ _ _ _ _ _

end Quiet

/-- The live loop returns no reply of its own. -/
theorem returns_liveLoop (types : List (String × FieldType)) (T : String)
    (filterPaths : List String) (watermark : ℤ) (patience position : ℕ) :
    Returns Reply.Shows (liveLoop types T filterPaths watermark patience position) := by
  induction patience generalizing position with
  | zero => exact returns_pure trivial
  | succ patience ih =>
    refine returns_bind fun event => ?_
    cases event with
    | none => exact returns_pure trivial
    | some ev => exact returns_bind fun _ => ih (position + 1)

variable {env : Env} {call : Call}

/-- A call that reads is quiet, but for what `GetConfig` caches. -/
theorem Call.quiet (h : call.Reads) (hcall : ∀ caller req, call ≠ .getConfig caller req) :
    Quiet (call.proc env) := by
  cases call with
  | getConfig caller req => exact absurd rfl (hcall caller req)
  | getField => exact quiet_getField _ _ _
  | getFields => exact quiet_getFields _ _ _
  | diffVersions => exact quiet_diffVersions _ _ _
  | exportConfig => exact quiet_exportConfig _ _ _
  | subscribe => exact quiet_subscribe _ _ _ _
  | _ => exact absurd h id

/-- **A call that reads neither commits nor publishes.** -/
theorem Call.settlesNothing (h : call.Reads) : SettlesNothing (call.proc env) := by
  cases call with
  | getConfig => exact settlesNothing_getConfig _ _ _
  | _ => exact (Call.quiet h (by nofun)).settlesNothing

/-- What a call that reads returns is no answer of a write. -/
theorem Call.returns (h : call.Reads) : Returns Reply.Shows (call.proc env) := by
  cases call with
  | getConfig =>
    refine returns_bind fun _ => returns_bind fun _ => returns_bind fun _ => ?_
    refine returns_bind fun _ => ?_
    split
    · exact returns_bind fun _ => returns_bind fun _ => returns_pure trivial
    · exact returns_bind fun _ => returns_pure trivial
  | getField | getFields | diffVersions | exportConfig =>
    repeat refine returns_bind fun _ => ?_
    exact returns_pure trivial
  | subscribe =>
    iterate 6 refine returns_bind fun _ => ?_
    exact returns_liveLoop _ _ _ _ _ _
  | _ => exact absurd h id

end Decree
