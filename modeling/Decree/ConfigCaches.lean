import Decree.Cache
import Decree.RedisIndex

/-!
# The Two Config Caches

`RedisCache` and `MemoryCache` (`internal/cache`) side by side, called one call after the other
without expiry and below capacity. Redis merges the fields of a `Set` into the hash that is there
and skips an empty `Set`; the memory cache replaces the map. On `Invalidate` Redis deletes the
keys of the index, and the memory cache every key that starts with the tenant and a colon.

Keys are pairs of a tenant and a version: a version has no colon, so two pairs have two keys in
either cache, and the key of a tenant `u` starts with `t:` only if `u` is `t` or starts with `t:`.

## Main results

* `exists_commands`: the calls are runs of the commands of `RedisIndex`.
* `caches_agree`: both caches return the latest `Set`.
-/

open List

namespace Decree.ConfigCaches

open RedisIndex (Undisturbed)

/-- A map of values, as a function of the field. -/
def asMap (values : CachedValues) : String → Option String :=
  fun f => values.lookup f

/-- **`RedisCache`**: the hashes, empty where there is no key, the negative marks and the index. -/
structure Redis where
  hashes : String → ℤ → CachedValues := fun _ _ => []
  marks : String → ℤ → Bool := fun _ _ => false
  index : String → RedisIndex.Key → Bool := fun _ _ => false

namespace Redis

/-- `Get`: a hash without fields is a miss. -/
def get (c : Redis) (t : String) (v : ℤ) : Option (String → Option String) :=
  if c.hashes t v = [] then none else some (asMap (c.hashes t v))

/-- `Set`: `HSET` keeps the fields that it does not set. -/
def set (c : Redis) (t : String) (v : ℤ) (values : CachedValues) : Redis :=
  if values = [] then c
  else { c with
    hashes := fun u w => if u = t ∧ w = v then values ++ c.hashes u w else c.hashes u w
    index := fun u k => (u = t ∧ k = .version v) || c.index u k }

def setNegative (c : Redis) (t : String) (v : ℤ) : Redis :=
  { c with
    marks := fun u w => (u = t ∧ w = v) || c.marks u w
    index := fun u k => (u = t ∧ k = .negative v) || c.index u k }

/-- `Invalidate`: the keys of the index and the index itself. -/
def invalidate (c : Redis) (t : String) : Redis where
  hashes u w := if u = t ∧ c.index u (.version w) then [] else c.hashes u w
  marks u w := !(u = t ∧ c.index u (.negative w)) && c.marks u w
  index u k := u ≠ t && c.index u k

end Redis

/-- Maps and marks by tenant and version, as `MemoryCache` has them. -/
structure Maps where
  entries : String → ℤ → Option CachedValues := fun _ _ => none
  negEntries : String → ℤ → Bool := fun _ _ => false

namespace Maps

def set (c : Maps) (t : String) (v : ℤ) (values : CachedValues) : Maps :=
  { c with entries := fun u w => if u = t ∧ w = v then some values else c.entries u w }

def setNegative (c : Maps) (t : String) (v : ℤ) : Maps :=
  { c with negEntries := fun u w => (u = t ∧ w = v) || c.negEntries u w }

/-- Without the tenants that pass the test. -/
def delete (c : Maps) (p : String → Bool) : Maps where
  entries u w := if p u then none else c.entries u w
  negEntries u w := !p u && c.negEntries u w

def get (c : Maps) (t : String) (v : ℤ) : Option (String → Option String) :=
  (c.entries t v).map asMap

/-- **`Invalidate` of `MemoryCache`**: the keys that start with `t:`. -/
def invalidate (c : Maps) (t : String) : Maps :=
  c.delete fun u => u = t ∨ (t ++ ":").toList <+: u.toList

end Maps

/-- Both caches, and the latest `Set` and `SetNegative` since the last `Invalidate`. -/
structure Caches where
  redis : Redis := {}
  memory : Maps := {}
  latest : Maps := {}

/-- The calls that change a cache. -/
inductive Call where
  | set (t : String) (v : ℤ) (values : CachedValues)
  | setNegative (t : String) (v : ℤ)
  | invalidate (t : String)

/-- **The effect of a call** on both. -/
def step (s : Caches) : Call → Option Caches
  | .set t v values =>
    some ⟨s.redis.set t v values, s.memory.set t v values, s.latest.set t v values⟩
  | .setNegative t v =>
    some ⟨s.redis.setNegative t v, s.memory.setNegative t v, s.latest.setNegative t v⟩
  | .invalidate t => some ⟨s.redis.invalidate t, s.memory.invalidate t, s.latest.delete (· = t)⟩

/-- **The step condition**: a tenant has no colon, and a `Set` is not empty and sets every field
of the latest one. -/
def Growing (s : Caches) : Call → Prop
  | .set t v values => ':' ∉ t.toList ∧ values ≠ [] ∧
      ∀ p ∈ (s.latest.entries t v).getD [], p.1 ∈ values.map Prod.fst
  | .setNegative t _ => ':' ∉ t.toList
  | .invalidate _ => True

instance (s : Caches) (c : Call) : Decidable (Growing s c) :=
  match c with
  | .set t v values => inferInstanceAs (Decidable (':' ∉ t.toList ∧ values ≠ [] ∧
      ∀ p ∈ (s.latest.entries t v).getD [], p.1 ∈ values.map Prod.fst))
  | .setNegative t _ => inferInstanceAs (Decidable (':' ∉ t.toList))
  | .invalidate _ => .isTrue trivial

/-! ### The commands of the calls -/

/-- The keys of a tenant and its index, between two calls. -/
structure Shows (c : Redis) (t : String) (s : RedisIndex.Redis) : Prop where
  version_mem : ∀ v, .version v ∈ s.keys ↔ c.hashes t v ≠ []
  negative_mem : ∀ v, .negative v ∈ s.keys ↔ c.marks t v = true
  index_mem : ∀ k, k ∈ s.index ↔ c.index t k = true
  indexing : s.indexing = []
  deleting : s.deleting = []

/-- The commands that a call sends for the keys of a tenant; `index` are the members of the index
before it. -/
def commands (t : String) (index : List RedisIndex.Key) : Call → List RedisIndex.Command
  | .set u v values => if u = t ∧ values ≠ [] then [.set v] else []
  | .setNegative u v => if u = t then [.setNegative v, .indexNegative v] else []
  | .invalidate u =>
    if u = t then if index = [] then [.smembers] else [.smembers, .del index] else []

/-- A call is the run of its commands, which nothing disturbs. -/
theorem Shows.step {c c' : Caches} {call : Call} {t : String} {s : RedisIndex.Redis}
    (h : Shows c.redis t s) (hs : step c call = some c') :
    ∃ s', Machine.run RedisIndex.step Undisturbed s (commands t s.index call) = some s' ∧
      Shows c'.redis t s' := by
  obtain ⟨hversion, hnegative, hindex, hidle, hnone⟩ := h
  cases call with
  | set u v values =>
    cases hs
    by_cases hset : u = t ∧ values ≠ []
    · refine ⟨{ s with keys := s.keys.insert (.version v), index := s.index.insert (.version v) },
        ?_, ?_, ?_, ?_, hidle, hnone⟩
      · simp [commands, hset, Machine.run, RedisIndex.step, Undisturbed]
      all_goals grind [Redis.set, append_eq_nil_iff]
    · refine ⟨s, by rw [commands, if_neg hset, Machine.run], ?_, ?_, ?_, hidle, hnone⟩
      all_goals grind [Redis.set]
  | setNegative u v =>
    cases hs
    by_cases hu : u = t
    · refine ⟨{ s with keys := s.keys.insert (.negative v), index := s.index.insert (.negative v) },
        ?_, ?_, ?_, ?_, hidle, hnone⟩
      · simp [commands, hu, Machine.run, RedisIndex.step, Undisturbed]
      all_goals grind [Redis.setNegative]
    · refine ⟨s, by rw [commands, if_neg hu, Machine.run], ?_, ?_, ?_, hidle, hnone⟩
      all_goals grind [Redis.setNegative]
  | invalidate u =>
    cases hs
    by_cases hu : u = t
    · refine ⟨{ s with keys := s.keys.filter (· ∉ s.index), index := [] }, ?_, ?_, ?_, ?_, hidle,
        hnone⟩
      · by_cases hempty : s.index = []
        · cases s
          simp_all [commands, Machine.run, RedisIndex.step, Undisturbed]
        · simp [commands, hu, hempty, Machine.run, RedisIndex.step, Undisturbed]
      all_goals grind [Redis.invalidate]
    · refine ⟨s, by rw [commands, if_neg hu, Machine.run], ?_, ?_, ?_, hidle, hnone⟩
      all_goals grind [Redis.invalidate]

/-- **Between two calls Redis is as after their commands**, one tenant at a time. -/
theorem exists_commands {allowed : Caches → Call → Prop} {c : Caches}
    (hr : Machine.Reach step allowed {} c) (t : String) :
    ∃ s, Machine.Reach RedisIndex.step Undisturbed {} s ∧ Shows c.redis t s := by
  refine hr.invariant (fun c => ∃ s, Machine.Reach RedisIndex.step Undisturbed {} s ∧
    Shows c.redis t s) ⟨{}, .refl, by constructor <;> simp⟩ ?_
  rintro c c' call - ⟨s, hs, hshows⟩ - hstep
  obtain ⟨s', hrun, hshows'⟩ := hshows.step hstep
  exact ⟨s', hs.trans (Machine.run_reach hrun), hshows'⟩

/-- Between two calls every key is in the index. -/
theorem mem_index {allowed : Caches → Call → Prop} {c : Caches}
    (hr : Machine.Reach step allowed {} c) (t : String) (v : ℤ) :
    (c.redis.hashes t v ≠ [] → c.redis.index t (.version v) = true) ∧
      (c.redis.marks t v = true → c.redis.index t (.negative v) = true) := by
  obtain ⟨s, hs, hshows⟩ := exists_commands hr t
  have hall : ∀ k ∈ s.keys, c.redis.index t k = true := fun k hk =>
    (hshows.index_mem k).mp ((RedisIndex.indexed_of_reach hs k hk).resolve_right
      (by simp [hshows.indexing]))
  exact ⟨fun h => hall _ ((hshows.version_mem v).mpr h),
    fun h => hall _ ((hshows.negative_mem v).mpr h)⟩

/-! ### The two caches -/

/-- A hash stands for a map, or there is neither. -/
def Holds (hash : CachedValues) : Option CachedValues → Prop
  | none => hash = []
  | some values => hash ≠ [] ∧ asMap hash = asMap values

/-- What the calls keep: both caches hold the latest maps, and what is held is of tenants without
a colon. -/
structure Agree (s : Caches) : Prop where
  memory : s.memory = s.latest
  holds : ∀ t v, Holds (s.redis.hashes t v) (s.latest.entries t v)
  marks : s.redis.marks = s.latest.negEntries
  tenants : ∀ t v, s.latest.entries t v ≠ none ∨ s.latest.negEntries t v = true → ':' ∉ t.toList

theorem lookup_eq_none {values : CachedValues} {f : String} (h : f ∉ values.map Prod.fst) :
    values.lookup f = none := by
  rw [lookup_eq_none_iff]
  intro p hp
  have hne : f ≠ p.1 := fun he => h (he ▸ mem_map_of_mem hp)
  simpa using hne

/-- What `HSET` makes of a hash whose fields are all set is the new map. -/
theorem Holds.set {hash values : CachedValues} {old : Option CachedValues} (h : Holds hash old)
    (hne : values ≠ []) (hall : ∀ p ∈ old.getD [], p.1 ∈ values.map Prod.fst) :
    Holds (values ++ hash) (some values) := by
  refine ⟨by simp [hne], funext fun f => ?_⟩
  rw [asMap, asMap, lookup_append]
  by_cases hf : f ∈ values.map Prod.fst
  · cases hv : values.lookup f with
    | some x => rfl
    | none =>
      obtain ⟨p, hp, rfl⟩ := mem_map.mp hf
      have hbeq := lookup_eq_none_iff.mp hv p hp
      simp at hbeq
  · -- the field was not there before
    have hold : hash.lookup f = none := by
      cases old with
      | none => rw [show hash = [] from h, lookup_nil]
      | some o =>
        have hlookup : hash.lookup f = o.lookup f := congrFun h.2 f
        rw [hlookup]
        refine lookup_eq_none fun hm => hf ?_
        obtain ⟨p, hp, rfl⟩ := mem_map.mp hm
        exact hall p hp
    rw [hold, Option.or_none]

/-- Where no tenant has a colon, `Invalidate` deletes the keys of one. -/
theorem Maps.invalidate_eq {c : Maps} (t : String)
    (h : ∀ u v, c.entries u v ≠ none ∨ c.negEntries u v = true → ':' ∉ u.toList) :
    c.invalidate t = c.delete (· = t) := by
  have hcolon : ∀ u : String, (t ++ ":").toList <+: u.toList → ':' ∈ u.toList :=
    fun u hp => hp.subset (by simp)
  rw [invalidate, delete, delete, mk.injEq]
  constructor
  all_goals grind

/-- A call keeps the agreement; that `Invalidate` finds every key is the work of the index. -/
theorem Agree.step {s s' : Caches} {c : Call} (hr : Machine.Reach step Growing {} s) (h : Agree s)
    (hok : Growing s c) (hs : step s c = some s') : Agree s' := by
  obtain ⟨hmem, hholds, hmarks, htenants⟩ := h
  cases c with
  | set t v values =>
    obtain ⟨hcolon, hne, hall⟩ := hok
    cases hs
    rw [Redis.set, if_neg hne]
    refine ⟨by rw [hmem], fun u w => ?_, hmarks, ?_⟩
    · by_cases hkey : u = t ∧ w = v
      · obtain ⟨rfl, rfl⟩ := hkey
        simpa [Maps.set] using (hholds u w).set hne hall
      · simpa [Maps.set, hkey] using hholds u w
    · grind [Maps.set]
  | setNegative t v =>
    cases hs
    refine ⟨by rw [hmem], hholds, ?_, ?_⟩
    all_goals grind [Redis.setNegative, Maps.setNegative, Growing]
  | invalidate t =>
    cases hs
    have hindex := mem_index hr
    refine ⟨?_, fun u w => ?_, ?_, ?_⟩
    · rw [hmem, Maps.invalidate_eq t htenants]
    · have hold := hholds u w
      by_cases hu : u = t
      · cases he : s.latest.entries u w with
        | none => grind [Redis.invalidate, Maps.delete, Holds]
        | some values => grind [Redis.invalidate, Maps.delete, Holds]
      · simpa [Redis.invalidate, Maps.delete, hu] using hold
    all_goals grind [Redis.invalidate, Maps.delete]

/-- **Both caches return the latest `Set`** of a tenant and version since its `Invalidate`, and
the marks set since then. -/
theorem caches_agree {s : Caches} (hr : Machine.Reach step Growing {} s) (t : String) (v : ℤ) :
    s.redis.get t v = s.latest.get t v ∧ s.memory.get t v = s.latest.get t v ∧
      s.redis.marks t v = s.latest.negEntries t v ∧
      s.memory.negEntries t v = s.latest.negEntries t v := by
  have h : Agree s := hr.invariant Agree ⟨rfl, fun _ _ => rfl, rfl, by simp⟩
    fun s s' c hr hi hok hs => hi.step hr hok hs
  refine ⟨?_, by rw [h.memory], by rw [h.marks], by rw [h.memory]⟩
  have hholds := h.holds t v
  rw [Redis.get, Maps.get]
  cases he : s.latest.entries t v with
  | none =>
    rw [he] at hholds
    exact if_pos hholds
  | some values =>
    rw [he] at hholds
    rw [if_neg hholds.1, hholds.2, Option.map_some]

theorem caches_agree_grown :
    ∃ s, Machine.Reach step Growing {} s ∧ (s.redis.get "t" 1).bind (· "b") = some "2" ∧
      s.redis.get "t" 1 = s.memory.get "t" 1 := by
  obtain ⟨s, hr, hb⟩ : ∃ s, Machine.Reach step Growing {} s ∧
      (s.redis.get "t" 1).bind (· "b") = some "2" :=
    Machine.exists_reach_of_run [.set "t" 1 [("a", "0")], .setNegative "t" 2, .invalidate "u",
      .set "t" 1 [("b", "2"), ("a", "1")]] (by decide)
  have h := caches_agree hr "t" 1
  exact ⟨s, hr, hb, h.1.trans h.2.1.symm⟩

/-- A field that the latest `Set` leaves out stays in Redis, an empty `Set` is not seen there, and
the memory cache loses the values of another tenant. -/
theorem caches_differ : ∃ s, Machine.Reach step Machine.anyStep {} s ∧
      ((s.redis.get "t" 1).bind (· "b") = some "2" ∧ (s.memory.get "t" 1).bind (· "b") = none) ∧
      ((s.redis.get "t" 2).isNone ∧ (s.memory.get "t" 2).isSome) ∧
      (s.redis.get "u:x" 1).isSome ∧ (s.memory.get "u:x" 1).isNone :=
  Machine.exists_reach_of_run [.set "t" 1 [("a", "1"), ("b", "2")], .set "t" 1 [("a", "3")],
    .set "t" 2 [], .set "u:x" 1 [("a", "1")], .invalidate "u"] (by decide)

end Decree.ConfigCaches
