import Decree.Domain

/-!
# The Config Cache

What the config service keeps next to the store for `GetConfig`: the values of a tenant at a
version, as strings that are redacted already, the marks of versions without values
(`internal/cache/memory.go`), and the flights in which concurrent misses of one version share
a fetch (`singleflight.Group`).

Entries expire and are evicted; that is the choice `expired` of a lookup, so nothing here
says how long an entry stays.

## Main definitions

* `ConfigCache`, `CacheOp`: the cache and its operations.
* `FlightOp.exec`: what the operations on flights do.
-/

namespace Decree

/-- The cached values of a version, by path. -/
abbrev CachedValues := List (String × String)

/-- **`MemoryCache`**: the values and the marks, by tenant and version. -/
structure ConfigCache where
  entries : List ((String × ℤ) × CachedValues) := []
  negatives : List (String × ℤ) := []

namespace ConfigCache

def get (c : ConfigCache) (tenantID : String) (version : ℤ) : Option CachedValues :=
  c.entries.lookup (tenantID, version)

def set (c : ConfigCache) (tenantID : String) (version : ℤ) (values : CachedValues) :
    ConfigCache :=
  { c with entries := ((tenantID, version), values) ::
      c.entries.filter fun e => e.1 ≠ (tenantID, version) }

def getNegative (c : ConfigCache) (tenantID : String) (version : ℤ) : Bool :=
  (tenantID, version) ∈ c.negatives

def setNegative (c : ConfigCache) (tenantID : String) (version : ℤ) : ConfigCache :=
  { c with negatives := (tenantID, version) :: c.negatives }

def invalidate (c : ConfigCache) (tenantID : String) : ConfigCache where
  entries := c.entries.filter fun e => e.1.1 ≠ tenantID
  negatives := c.negatives.filter fun k => k.1 ≠ tenantID

/-- The cache without the entry and the mark of a version. -/
def evict (c : ConfigCache) (tenantID : String) (version : ℤ) : ConfigCache where
  entries := c.entries.filter fun e => e.1 ≠ (tenantID, version)
  negatives := c.negatives.filter fun k => k ≠ (tenantID, version)

end ConfigCache

/-- The operations of a read on the cache. -/
inductive CacheOp where
  | get (tenantID : String) (version : ℤ)
  | getNegative (tenantID : String) (version : ℤ)
  | set (tenantID : String) (version : ℤ) (values : CachedValues)
  | setNegative (tenantID : String) (version : ℤ)

/-! ### Shared fetches -/

/-- A fetch that a call leads for a version, and its result once it has landed. -/
structure Flight where
  key : String × ℤ
  leader : ℕ
  result : Option (Except Status CachedValues) := none

/-- The operations of `singleflight.Group.Do`: join the flight of a key, or lead one if none
is under way; land it with its result; wait for the result of the flight joined. -/
inductive FlightOp where
  | join (key : String × ℤ)
  | land (key : String × ℤ) (result : Except Status CachedValues)
  | await (leader : ℕ) (key : String × ℤ)

/-- What they return: whether there is a leader, and the leader's result. -/
abbrev FlightOp.Resp : FlightOp → Type
  | join _ => Option ℕ
  | land _ _ => Unit
  | await _ _ => Except Status CachedValues

/-- The flights after an operation, and its answer. A call waits for the result of the flight
it has joined. -/
def FlightOp.exec (t : ℕ) : (o : FlightOp) → List Flight → Option (o.Resp × List Flight)
  | join key, fs =>
    match fs.find? fun f => f.key = key ∧ f.result.isNone with
    | some f => some (some f.leader, fs)
    | none => some (none, ⟨key, t, none⟩ :: fs)
  | land key result, fs =>
    some ((), fs.map fun f =>
      if f.leader = t ∧ f.key = key then { f with result := some result } else f)
  | await leader key, fs =>
    ((fs.find? fun f => f.leader = leader ∧ f.key = key).bind Flight.result).map (·, fs)

end Decree
