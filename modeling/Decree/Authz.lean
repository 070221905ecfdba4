import Decree.Domain

/-!
# Authorization

The checks on a caller (`internal/auth/access.go`) and the guards that compose them
(`internal/authz`): tenant scope, minimum role, and field locks. Where the field locks
come from (the store, or a list fetched earlier in the request) is the caller's
business; `checkFieldLocks` is what is done with them.

## Main results

* `checkFieldLocks_ok_iff`: when a write passes the locks.
-/

open Go

namespace Decree

inductive Action where
  | read
  | write
  | admin
  | global
deriving DecidableEq, Repr

structure Resource where
  tenantID : String := ""
  fieldPath : String := ""
  value : String := ""
deriving DecidableEq

def unauthenticated : Status :=
  ⟨.unauthenticated, "authentication required"⟩

def mustHaveClaims (c : Caller) : Except Status Unit :=
  if c.claims.isNone ∧ c.withoutAuth = false then .error unauthenticated else .ok ()

/-- `IsSuperAdmin`, true of internal callers. -/
def Caller.isSuperAdmin (c : Caller) : Bool :=
  match c.claims with
  | none => c.withoutAuth
  | some claims => claims.role = .superadmin

def Claims.hasTenantAccess (claims : Claims) (tenantID : String) : Bool :=
  claims.role = .superadmin || tenantID ∈ claims.tenantIDs

/-- The shape of the access checks: callers without claims pass when they are internal. -/
def requireClaims (c : Caller) (ok : Claims → Bool) (denied : String) : Except Status Unit :=
  match c.claims with
  | none => if c.withoutAuth then .ok () else .error unauthenticated
  | some claims => if ok claims then .ok () else .error ⟨.permissionDenied, denied⟩

def checkTenantAccess (c : Caller) (tenantID : String) : Except Status Unit :=
  requireClaims c (·.hasTenantAccess tenantID) ("no access to tenant " ++ tenantID)

def requireSuperAdmin (c : Caller) : Except Status Unit :=
  requireClaims c (·.role = .superadmin) "superadmin required"

def requireAdminOrAbove (c : Caller) : Except Status Unit :=
  requireClaims c (·.role ≠ .user) "admin or superadmin required"

/-- `TenantScopeGuard.Check`. -/
def tenantScopeGuard (c : Caller) (action : Action) (r : Resource) : Except Status Unit :=
  if action = .global ∨ r.tenantID = "" then .ok () else checkTenantAccess c r.tenantID

/-- `RolePolicyGuard.Check`. -/
def rolePolicyGuard (c : Caller) (action : Action) : Except Status Unit :=
  match action with
  | .admin | .global => requireSuperAdmin c
  | .write => requireAdminOrAbove c
  | .read => .ok ()

/-- The guards without a store: the chain of the schema service, and the first two guards
of the config service's chain. -/
def accessGuards (c : Caller) (action : Action) (r : Resource) : Except Status Unit :=
  match tenantScopeGuard c action r with
  | .error e => .error e
  | .ok () => rolePolicyGuard c action

theorem isSuperAdmin_of_global {c : Caller} {r : Resource}
    (h : accessGuards c .global r = .ok ()) : c.isSuperAdmin = true := by
  have hrole : requireSuperAdmin c = .ok () := by
    simpa [accessGuards, tenantScopeGuard, rolePolicyGuard] using h
  rw [requireSuperAdmin, requireClaims] at hrole
  rw [Caller.isSuperAdmin]
  cases hclaims : c.claims with
  | none => simpa [hclaims] using hrole
  | some claims => simpa [hclaims] using hrole

/-- Whether `FieldLockGuard.Check` looks at the locks at all. -/
def fieldLocksApply (c : Caller) (action : Action) (r : Resource) : Bool :=
  action = .write && r.fieldPath ≠ "" && !c.isSuperAdmin

variable (env : Env)

/-- The loop of `FieldLockGuard.Check` over the locks of the tenant. -/
def checkFieldLocks (r : Resource) : List TenantFieldLock → Except Status Unit
  | [] => .ok ()
  | lock :: rest =>
    if lock.fieldPath ≠ r.fieldPath then checkFieldLocks r rest
    else
      match lock.lockedValues with
      | .absent | .unparseable | .values [] =>
        .error ⟨.failedPrecondition, "field " ++ r.fieldPath ++ " is locked"⟩
      | .values (v :: vs) =>
        if r.value ∈ v :: vs then
          .error ⟨.failedPrecondition, "value " ++ env.quote r.value ++ " for field " ++
            r.fieldPath ++ " is locked"⟩
        else checkFieldLocks r rest

/-- The lock lets the value be written to its field: it is scoped to values, and this is
none of them. -/
def TenantFieldLock.Allows (lock : TenantFieldLock) (value : String) : Prop :=
  ∃ vs, lock.lockedValues = .values vs ∧ vs ≠ [] ∧ value ∉ vs

/-- **A write passes the locks** exactly when every lock on its field allows the value. -/
theorem checkFieldLocks_ok_iff {r : Resource} {locks : List TenantFieldLock} :
    checkFieldLocks env r locks = .ok () ↔
      ∀ lock ∈ locks, lock.fieldPath = r.fieldPath → lock.Allows r.value := by
  induction locks with
  | nil => simp [checkFieldLocks]
  | cons lock rest ih =>
    rw [List.forall_mem_cons, ← ih]
    by_cases hp : lock.fieldPath = r.fieldPath
    · rw [checkFieldLocks, if_neg (not_not.mpr hp)]
      cases hv : lock.lockedValues with
      | absent => simp [TenantFieldLock.Allows, hv, hp]
      | unparseable => simp [TenantFieldLock.Allows, hv, hp]
      | values vs =>
        cases vs with
        | nil => simp [TenantFieldLock.Allows, hv, hp]
        | cons v vs =>
          by_cases hm : r.value ∈ v :: vs
          · simp only [if_pos hm, reduceCtorEq, false_iff, not_and]
            rintro h
            obtain ⟨ws, hws, -, hn⟩ := h hp
            rw [hv, LockedValues.values.injEq] at hws
            exact absurd hm (hws ▸ hn)
          · simp only [if_neg hm, iff_and_self]
            exact fun _ _ => ⟨v :: vs, hv, by simp, hm⟩
    · rw [checkFieldLocks, if_pos hp]
      simp [hp]

end Decree
