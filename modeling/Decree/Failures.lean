import Decree.Traces

/-!
# The Errors of the Checks

What the parts of a config write can fail with before its transaction. Two answers are kept for
the write itself: `noChanges` says that there is nothing to write, and the code `Aborted` that
the write lost against another one. No check returns either of them, so a call that returns one
has passed all its checks.

## Main results

* `checking_bind`, `checking_forEach`: checks in a row.
* `checking_guardCheck`, `checking_validateField`, ...: the parts of the calls only check.
-/

open Go Interleave

namespace Decree

/-- The answer of an import that has nothing to write. -/
def noChanges : Status :=
  ⟨.alreadyExists, "no changes to apply"⟩

/-- **A usual error** is not one that a write itself returns. -/
structure Status.Usual (e : Status) : Prop where
  ne_noChanges : e ≠ noChanges
  ne_aborted : e.code ≠ .aborted

/-- A status with another code is usual. -/
theorem usual_of_code {e : Status} (h : e.code ≠ .alreadyExists) (h' : e.code ≠ .aborted) :
    e.Usual :=
  ⟨fun he => h (he ▸ rfl), h'⟩

/-- A rejected argument is a usual failure. -/
theorem usual_invalidArgument (message : String) : Status.Usual ⟨.invalidArgument, message⟩ :=
  usual_of_code (by simp) (by simp)

/-- An internal error is a usual failure. -/
theorem usual_internal (message : String) : (internal message).Usual :=
  usual_of_code nofun nofun

section Errors

variable {env : Env} {caller : Caller} {T : String} {α β : Type} {e : Status} {action : Action}
  {r : Resource} {idOrName fieldPath : String} {fields : List SchemaField}
  {value : Option TypedValue} {latest : ℤ} {types : List (String × FieldType)}

section Parts

variable {ε : Type} {P : ε → Prop}

/-- An operation fails as its response says. -/
theorem failsWith_ask {o : Op} {f : o.Resp → Except ε α} (hf : ∀ r x, f r = .error x → P x) :
    FailsWith P (ask o f).run := by
  intro r
  change FailsWith P (.ret (f r))
  cases h : f r with
  | error x => exact hf r x h
  | ok a => exact trivial

/-- A check fails with its own error. -/
theorem failsWith_ofExcept {x : Except ε α} (hx : ∀ y, x = .error y → P y) :
    FailsWith P (ofExcept x : Proc ε α).run := by
  cases x with
  | error y => exact hx y rfl
  | ok a => exact trivial

/-- A read fails with a mapped error of the store. -/
theorem failsWith_fetch {inTx : Bool} {q : Query} {g : StoreErr → ε} (hg : ∀ y, P (g y)) :
    FailsWith P (fetch inTx q g).run := by
  rintro (y | a)
  · exact hg y
  · exact trivial

/-- The types cannot be read: an internal error. -/
theorem failsWith_fieldTypeMap {f : Status → ε} (hf : ∀ message, P (f (internal message))) :
    FailsWith P (fieldTypeMap env f T).run := by
  rw [fieldTypeMap]
  split
  · refine (failsWith_fetch fun _ => hf _).bind_run fun sv => ?_
    refine failsWith_ofExcept fun y h => ?_
    rw [typesOfFields] at h
    split at h
    · exact Except.error.inj h ▸ hf _
    · cases h
  · exact trivial

end Parts

/-- **A check**: it is quiet, and its errors are usual. -/
structure Checking (x : Proc Status α) : Prop where
  quiet : Quiet x
  usual : FailsWith Status.Usual x.run

/-- A value checks nothing. -/
theorem checking_pure (a : α) : Checking (pure a) := ⟨trivial, trivial⟩

/-- A check with usual errors. -/
theorem checking_ofExcept {x : Except Status α} (hx : ∀ e, x = .error e → e.Usual) :
    Checking (ofExcept x) :=
  ⟨trivial, failsWith_ofExcept hx⟩

variable {locks : List TenantFieldLock} {changes : List FieldChange} {p : Prop}

/-- A condition with a usual error. -/
theorem checking_require [Decidable p] (he : e.Usual) : Checking (require p e) := by
  refine checking_ofExcept fun e' h => ?_
  split at h
  · cases h
  · exact Except.error.inj h ▸ he

/-- An operation that moves no version. -/
theorem checking_ask {o : Op} (ho : ¬ o.MovesVersion) {f : o.Resp → Except Status α}
    (hf : ∀ r x, f r = .error x → x.Usual) : Checking (ask o f) :=
  ⟨quiet_ask ho f, failsWith_ask hf⟩

/-- A read whose errors are usual. -/
theorem checking_fetch {inTx : Bool} {q : Query} {g : StoreErr → Status}
    (hg : ∀ e, (g e).Usual) : Checking (fetch inTx q g) :=
  ⟨quiet_fetch _ _ _, failsWith_fetch hg⟩

/-- One check after another. -/
theorem checking_bind {x : Proc Status α} {f : α → Proc Status β} (hx : Checking x)
    (hf : ∀ a, Checking (f a)) : Checking (x >>= f) :=
  ⟨hx.quiet.bind_run fun a => (hf a).quiet, hx.usual.bind_run fun a => (hf a).usual⟩

/-- A check on either side. -/
theorem checking_ite [Decidable p] {x y : Proc Status α} (hx : Checking x)
    (hy : Checking y) : Checking (if p then x else y) := by
  split
  · exact hx
  · exact hy

/-- A check of every element. -/
theorem checking_forEach {f : β → Proc Status Unit} (hf : ∀ b, Checking (f b)) (bs : List β) :
    Checking (forEach f bs) :=
  ⟨.forEach (fun b => (hf b).quiet) bs, .forEach (fun b => (hf b).usual) bs⟩

/-- A check that collects values. -/
theorem checking_collect {f : β → Proc Status α} (hf : ∀ b, Checking (f b)) (bs : List β) :
    Checking (collect f bs) :=
  ⟨.collect (fun b => (hf b).quiet) bs, .collect (fun b => (hf b).usual) bs⟩

/-- Errors that are mapped to usual ones are usual. -/
theorem usual_mapError {x : Except String α} {g : String → Status} (hg : ∀ e, (g e).Usual)
    (h : x.mapError g = .error e) : e.Usual := by
  cases x with
  | error e' => exact Except.error.inj h ▸ hg e'
  | ok a => cases h

/-! ### Access -/

/-- Missing claims are a usual failure. -/
theorem usual_requireClaims {ok : Claims → Bool} {denied : String}
    (h : requireClaims caller ok denied = .error e) : e.Usual := by
  rw [requireClaims] at h
  repeat' split at h
  all_goals cases h
  all_goals exact usual_of_code (by simp [unauthenticated]) (by simp [unauthenticated])

/-- `MustHaveClaims` only checks. -/
theorem checking_mustHaveClaims : Checking (ofExcept (mustHaveClaims caller)) := by
  refine checking_ofExcept fun e h => ?_
  rw [mustHaveClaims] at h
  split at h
  · cases h
    exact usual_of_code nofun nofun
  · cases h

/-- A denied access is a usual failure. -/
theorem usual_accessGuards (h : accessGuards caller action r = .error e) : e.Usual := by
  rw [accessGuards] at h
  split at h
  · rename_i e' htenant
    cases h
    rw [tenantScopeGuard] at htenant
    split at htenant
    · cases htenant
    · exact usual_requireClaims htenant
  · cases action with
    | read => cases h
    | write | admin | global => exact usual_requireClaims h

/-- A locked field is a usual failure. -/
theorem usual_checkFieldLocks (h : checkFieldLocks env r locks = .error e) : e.Usual := by
  induction locks with
  | nil => cases h
  | cons lock rest ih =>
    rw [checkFieldLocks] at h
    repeat' split at h
    · exact ih h
    all_goals first
      | exact ih h
      | cases h
        exact usual_of_code (by simp) (by simp)

/-- The guard of a field only checks. -/
theorem checking_guardCheck {locks : Option (List TenantFieldLock)} :
    Checking (guardCheck env caller action r locks) := by
  have hlocks : ∀ locks, Checking (ofExcept (checkFieldLocks env r locks)) :=
    fun _ => checking_ofExcept fun _ => usual_checkFieldLocks
  refine checking_bind (checking_ofExcept fun _ => usual_accessGuards) fun _ =>
    checking_ite ?_ (checking_pure _)
  cases locks with
  | some locks => exact hlocks locks
  | none => exact checking_bind (checking_fetch fun _ => usual_internal _) hlocks

/-- A tenant is resolved by checks. -/
theorem checking_resolveTenantID : Checking (resolveTenantID idOrName) := by
  refine checking_ite (checking_ofExcept ?_) (checking_ite (checking_pure _)
    (checking_bind (checking_fetch fun e => ?_) fun _ => checking_pure _))
  · rintro e ⟨⟩
    exact usual_of_code (by simp) (by simp)
  · cases e <;> exact ⟨by simp [lookupError, internal, noChanges],
      by simp [lookupError, internal]⟩

/-- So it is with the check of the access. -/
theorem checking_resolveTenantWithAccess :
    Checking (resolveTenantWithAccess env caller idOrName action) :=
  checking_bind checking_resolveTenantID fun _ =>
    checking_bind checking_guardCheck fun _ => checking_pure _

/-- The claim of a key ends in usual errors. -/
theorem checking_claimKey {key : String} : Checking (claimKey env T key) := by
  refine checking_ite (checking_ask (by nofun) ?_) (checking_pure _)
  rintro (e | first) x ⟨⟩

/-! ### Values -/

/-- A value that the validator rejects is a usual failure. -/
theorem usual_validateWith (h : validateWith env fields fieldPath value = .error e) : e.Usual := by
  rw [validateWith] at h
  repeat' split at h
  all_goals cases h
  all_goals exact usual_of_code nofun nofun

/-- The validation of a value only checks. -/
theorem checking_validateField : Checking (validateField env T fieldPath value) :=
  checking_ite (checking_bind (checking_fetch fun _ => usual_internal _) fun _ =>
    checking_ofExcept fun _ => usual_validateWith) (checking_pure _)

/-- The read of the types only checks. -/
theorem checking_fieldTypeMap : Checking (fieldTypeMap env id T) :=
  ⟨quiet_fieldTypeMap env id T, failsWith_fieldTypeMap usual_internal⟩

/-- The read of a current value only checks. -/
theorem checking_getCurrentValue {version : ℤ} : Checking (getCurrentValue T fieldPath version) :=
  checking_ite (checking_pure _) (checking_ask (by nofun) (by nofun))

/-- So does the read of a change. -/
theorem checking_readChange {newValue : String} :
    Checking (readChange T latest fieldPath newValue) :=
  checking_bind checking_getCurrentValue fun _ => checking_pure _

/-- The read of the latest version only checks. -/
theorem checking_resolveVersion : Checking (resolveVersion T) := by
  refine checking_ask (by nofun) ?_
  rintro (e | v) x h
  · cases e <;> cases h <;> exact usual_internal _
  · cases h

/-- The read of the schema fields only checks. -/
theorem checking_getSchemaFieldSets : Checking (getSchemaFieldSets T) :=
  checking_bind (checking_fetch fun _ => usual_of_code (by simp) (by simp)) fun _ =>
    checking_bind (checking_fetch fun _ => usual_internal _) fun _ =>
      checking_fetch fun _ => usual_internal _

/-- A field that may not be written is a usual failure. -/
theorem usual_checkWriteAttributes {current : String}
    (h : checkWriteAttributes fields fieldPath current = .error e) : e.Usual := by
  rw [checkWriteAttributes] at h
  repeat' split at h
  all_goals cases h
  all_goals exact usual_of_code (by simp) (by simp)

/-- So it is among several fields. -/
theorem usual_checkAllWriteAttributes
    (h : checkAllWriteAttributes fields changes = .error e) : e.Usual := by
  induction changes with
  | nil => cases h
  | cons ch changes ih =>
    rw [checkAllWriteAttributes] at h
    split at h
    · rename_i e' hch
      exact Except.error.inj h ▸ usual_checkWriteAttributes hch
    · exact ih h

/-- The check of all attributes only checks. -/
theorem checking_checkAllWriteAttributes :
    Checking (ofExcept (checkAllWriteAttributes fields changes)) :=
  checking_ofExcept fun _ => usual_checkAllWriteAttributes

/-- The read of the rules only checks. -/
theorem checking_fetchDependentRequiredRules : Checking (fetchDependentRequiredRules env T) :=
  checking_ite (checking_bind (checking_fetch fun _ => usual_internal _) fun _ =>
    checking_pure _) (checking_pure _)

/-! ### The loops of the calls -/

/-- The checks of one update of `SetFields`. -/
theorem checking_checkUpdate (u : FieldUpdate) : Checking (checkUpdate env caller T locks u) :=
  checking_bind (checking_require (usual_of_code (by simp) (by simp))) fun _ =>
    checking_bind checking_guardCheck fun _ => checking_validateField

/-- The checks of one row of a rollback. -/
theorem checking_checkRestoredAttributes (row : ConfigValue) :
    Checking (checkRestoredAttributes T fields latest row) :=
  checking_ite (checking_bind checking_getCurrentValue fun _ =>
    checking_ofExcept fun _ => usual_checkWriteAttributes) (checking_pure _)

/-- The checks of one value of an import. -/
theorem checking_checkImported (v : ConfigValueImport) :
    Checking (checkImported env caller T types v) :=
  checking_bind (checking_require (usual_of_code (by simp) (by simp))) fun _ =>
    checking_bind checking_guardCheck fun _ => checking_validateField

/-- The comparison with current values only checks. -/
theorem checking_changedValues (values : List ConfigValueImport) :
    Checking (changedValues T latest values) := by
  induction values with
  | nil => exact checking_pure _
  | cons v vs ih =>
    exact checking_bind checking_getCurrentValue fun _ => checking_bind ih fun _ =>
      checking_pure _

/-- The selection by mode only checks. -/
theorem checking_filterByImportMode {values : List ConfigValueImport} {mode : ImportMode} :
    Checking (filterByImportMode T latest values mode) := by
  cases mode with
  | replace => exact checking_pure _
  | defaults =>
    refine checking_ite (checking_pure _) (checking_ask (by nofun) ?_)
    rintro (e | rows) x ⟨⟩
  | merge | unspecified => exact checking_ite (checking_pure _) (checking_changedValues values)

end Errors

end Decree
