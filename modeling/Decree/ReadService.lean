import Decree.Program
import Decree.Yaml

/-!
# The Reads of the Config Service

The calls that return config (`internal/config/service.go`). Reads that the source fans out are
made one after the other; they are at one version. The usage recorder is left out.

Each path shows a value in its own way. `GetConfig` goes through strings, in which a null is
empty, and hashes the string it shows; with descriptions it shows the same string with the
checksum of the row. `GetField` and `GetFields` keep the null. `DiffVersions` and the replay of
a stream show the row as it is.

How many events a stream waits for until its client goes away is part of the call, so a stream is a
program like the others.

## Main definitions

* `getConfig`, `getField`, `getFields`, `exportConfig`, `subscribe`: the calls.
-/

open Go Interleave

namespace Decree

variable (env : Env)

/-- `resolveVersion` with the version that a request names: it is taken as it is. -/
def resolveRequested (tenantID : String) (requested : Option ℤ) : Proc Status ℤ :=
  match requested with
  | some version => pure version
  | none => resolveVersion tenantID

/-- `getSensitiveFieldSet`: the fields, from which the set is read off. -/
def getSensitiveFieldSet (tenantID : String) : Proc Status (List SchemaField) :=
  getSchemaFieldSets tenantID

/-! ### GetConfig -/

/-- The string of a row that `GetConfig` caches and shows. -/
def displayValue (fields : List SchemaField) (row : ConfigValue) : String :=
  redactIfSensitive (isSensitive fields row.fieldPath) (derefString row.value)

/-- The map that a fetch caches. -/
def cachedValues (fields : List SchemaField) (rows : List ConfigValue) : CachedValues :=
  rows.map fun row => (row.fieldPath, displayValue fields row)

def fetchAndCacheConfig (tenantID : String) (version : ℤ) : Proc Status CachedValues := do
  let rows ← fetch false (.fullConfigAtVersion tenantID version) fun _ =>
    internal "failed to get config"
  let fields ← getSensitiveFieldSet tenantID
  let values := cachedValues fields rows
  tell (.cache (if values = [] then .setNegative tenantID version
    else .set tenantID version values))
  pure values

/-- The fetch of a call that leads: its result, or its error, is handed to those that joined. -/
def leadFetch (tenantID : String) (version : ℤ) : Proc Status CachedValues :=
  ExceptT.mk ((fetchAndCacheConfig tenantID version).run >>= fun r =>
    .op (.flight (.land (tenantID, version) r)) fun _ => .ret r)

/-- `sfGroup.Do` around the fetch. -/
def sharedFetch (tenantID : String) (version : ℤ) : Proc Status CachedValues := do
  let leader ← ask (.flight (.join (tenantID, version))) .ok
  match (leader : Option ℕ) with
  | some leader => ask (.flight (.await leader (tenantID, version))) id
  | none => leadFetch tenantID version

/-- The value that `GetConfig` returns for a cached string. -/
def valueOfCached (types : List (String × FieldType)) (p : String × String) : PbConfigValue where
  fieldPath := p.1
  value := stringToTypedValue (some p.2) (types.lookup p.1)
  checksum := computeChecksum env p.2

/-- The value that `GetConfig` returns for a row when descriptions are included. -/
def valueWithDescription (types : List (String × FieldType)) (fields : List SchemaField)
    (row : ConfigValue) : PbConfigValue where
  fieldPath := row.fieldPath
  value := stringToTypedValue (some (displayValue fields row)) (types.lookup row.fieldPath)
  checksum := derefString row.checksum
  description := row.description

/-- A hit of the positive cache; an error counts as a miss. -/
def cacheHit : Except StoreErr (Option CachedValues) → Option CachedValues
  | .ok values => values
  | .error _ => none

/-- A mark of the negative cache; an error counts as none. -/
def negativeHit : Except StoreErr Bool → Bool
  | .ok negative => negative
  | .error _ => false

/-- The values of `GetConfig` when the positive cache has none: none if the version is marked
as empty, or fetched. -/
def lookNegative (tenantID : String) (version : ℤ) : Proc Status CachedValues := do
  let negative ← ask (.cache (.getNegative tenantID version)) fun r => .ok (negativeHit r)
  if negative then pure [] else sharedFetch tenantID version

/-- The values of `GetConfig` without descriptions: from the cache, or looked for further. -/
def cachedConfig (tenantID : String) (version : ℤ) : Proc Status CachedValues := do
  let cached ← ask (.cache (.get tenantID version)) fun r => .ok (cacheHit r)
  match cached with
  | some values => pure values
  | none => lookNegative tenantID version

def getConfig (caller : Caller) (req : GetConfigRequest) : Proc Status Reply := do
  ofExcept (mustHaveClaims caller)
  let tenantID ← resolveTenantWithAccess env caller req.tenantId .read
  let version ← resolveRequested tenantID req.version
  let types ← fieldTypeMap env id tenantID
  if req.includeDescriptions then do
    let rows : List ConfigValue ← fetch false (.fullConfigAtVersion tenantID version) fun _ =>
      internal "failed to get config"
    let fields ← getSensitiveFieldSet tenantID
    pure (.config ⟨tenantID, version, rows.map (valueWithDescription types fields)⟩)
  else do
    let values ← cachedConfig tenantID version
    pure (.config ⟨tenantID, version, values.map (valueOfCached env types)⟩)

/-! ### GetField and GetFields -/

/-- The value that `GetField` and `GetFields` return for a row. -/
def valueOfRow (types : List (String × FieldType)) (fields : List SchemaField)
    (includeDescription : Bool) (row : ConfigValue) : PbConfigValue where
  fieldPath := row.fieldPath
  value := stringToTypedValue
    (if isSensitive fields row.fieldPath then some (displayValue fields row) else row.value)
    (types.lookup row.fieldPath)
  checksum := derefString row.checksum
  description := if includeDescription then row.description else none

def getField (caller : Caller) (req : GetFieldRequest) : Proc Status Reply := do
  ofExcept (mustHaveClaims caller)
  let tenantID ← resolveTenantWithAccess env caller req.tenantId .read
  let version ← resolveRequested tenantID req.version
  let row : ConfigValue ← fetch false (.configValueAtVersion tenantID req.fieldPath version)
    (lookupError "field not found" "failed to get field")
  let fields ← getSensitiveFieldSet tenantID
  let types ← fieldTypeMap env id tenantID
  pure (.field (valueOfRow types fields req.includeDescription row))

/-- The row of one path of `GetFields`; a missing field is skipped. -/
def getOptionalRow (tenantID : String) (version : ℤ) (fieldPath : String) :
    Proc Status (Option ConfigValue) :=
  ask (.read false (.configValueAtVersion tenantID fieldPath version)) fun r =>
    match (r : Except StoreErr ConfigValue) with
    | .ok row => .ok (some row)
    | .error .notFound => .ok none
    | .error _ => .error (internal "failed to get field")

def getFields (caller : Caller) (req : GetFieldsRequest) : Proc Status Reply := do
  ofExcept (mustHaveClaims caller)
  require (env.maxListLen = 0 ∨ req.fieldPaths.length ≤ env.maxListLen)
    ⟨.invalidArgument, "request has " ++ formatInt req.fieldPaths.length ++
      " field_paths, exceeds limit of " ++ formatInt env.maxListLen⟩
  let tenantID ← resolveTenantWithAccess env caller req.tenantId .read
  let version ← resolveRequested tenantID req.version
  let types ← fieldTypeMap env id tenantID
  let fields ← getSensitiveFieldSet tenantID
  let rows ← collect (getOptionalRow tenantID version) req.fieldPaths
  pure (.fields (rows.reduceOption.map (valueOfRow types fields req.includeDescriptions)))

/-! ### DiffVersions -/

/-- The entry of a path in `diffConfigMaps`. -/
def diffEntry (old updated : List (String × String)) (path : String) : Option FieldDiff :=
  match old.lookup path, updated.lookup path with
  | some oldVal, none => some ⟨path, .removed, oldVal, ""⟩
  | none, some newVal => some ⟨path, .added, "", newVal⟩
  | some oldVal, some newVal =>
    if oldVal ≠ newVal then some ⟨path, .modified, oldVal, newVal⟩ else none
  | none, none => none

def diffConfigMaps (old updated : List (String × String)) : List FieldDiff :=
  ((old ++ updated).map Prod.fst).dedup.insertionSort (· ≤ ·) |>.filterMap (diffEntry old updated)

def configMapAtVersion (tenantID : String) (version : ℤ) :
    Proc Status (List (String × String)) := do
  let rows : List ConfigValue ← fetch false (.fullConfigAtVersion tenantID version) fun _ =>
    internal "failed to get config at version"
  pure (rows.map fun row => (row.fieldPath, derefString row.value))

def diffVersions (caller : Caller) (req : DiffVersionsRequest) : Proc Status Reply := do
  ofExcept (mustHaveClaims caller)
  let tenantID ← resolveTenantWithAccess env caller req.tenantId .read
  let _ ← fetch false (.configVersion tenantID req.fromVersion)
    (lookupError "from version not found" "failed to get from version")
  let _ ← fetch false (.configVersion tenantID req.toVersion)
    (lookupError "to version not found" "failed to get to version")
  let fromMap ← configMapAtVersion tenantID req.fromVersion
  let toMap ← configMapAtVersion tenantID req.toVersion
  pure (.diffs (diffConfigMaps fromMap toMap))

/-! ### ExportConfig -/

def exportRows (fields : List SchemaField) (rows : List ConfigValue) : List ConfigRow :=
  rows.map fun row => ⟨row.fieldPath, displayValue fields row, row.description⟩

/-- The description of the exported version, empty when it cannot be read. -/
def exportDescription (tenantID : String) (version : ℤ) : Proc Status String :=
  ask (.read false (.configVersion tenantID version)) fun r =>
    match (r : Except StoreErr VersionHeader) with
    | .ok header => .ok (derefString header.description)
    | .error _ => .ok ""

def exportConfig (caller : Caller) (req : ExportConfigRequest) : Proc Status Reply := do
  ofExcept (mustHaveClaims caller)
  let tenantID ← resolveTenantWithAccess env caller req.tenantId .read
  let version ← resolveRequested tenantID req.version
  require (version ≠ 0) ⟨.notFound, "no config versions exist for this tenant"⟩
  let types ← fieldTypeMap env id tenantID
  let rows : List ConfigValue ← fetch false (.fullConfigAtVersion tenantID version) fun _ =>
    internal "failed to get config values"
  require (rows ≠ []) ⟨.notFound, "no config values at this version"⟩
  let fields ← getSensitiveFieldSet tenantID
  let description ← exportDescription tenantID version
  let data ← ofExcept ((marshalConfigAt env version description (exportRows fields rows)
    (types.lookup ·) (req.specVersion.getD "")).mapError fun e => (⟨.invalidArgument, e⟩ : Status))
  pure (.exported data)

/-! ### Subscribe -/

/-- Whether the stream is asked for a field: no filter asks for all. -/
def passesFilter (filterPaths : List String) (fieldPath : String) : Bool :=
  filterPaths = [] || fieldPath ∈ filterPaths

def replayMessage (types : List (String × FieldType)) (tenantID : String)
    (row : ConfigValueSince) : ConfigChange where
  tenantId := tenantID
  version := row.version
  fieldPath := row.fieldPath
  newValue := stringToTypedValue row.value (types.lookup row.fieldPath)
  changedBy := row.createdBy

def liveMessage (types : List (String × FieldType)) (ev : ConfigChangeEvent) (ch : FieldChange) :
    ConfigChange where
  tenantId := ev.tenantID
  version := ev.version
  fieldPath := ch.fieldPath
  oldValue := stringToTypedValue (ptrString ch.oldValue) (types.lookup ch.fieldPath)
  newValue := stringToTypedValue (some ch.newValue) (types.lookup ch.fieldPath)
  changedBy := ev.changedBy

/-- `stream.Send`; its error ends the stream. -/
def send (message : ConfigChange) : Proc Status Unit :=
  ask (.stream (.send message)) (Except.mapError fun _ => ⟨.unavailable, "stream closed"⟩)

def replayMessages (types : List (String × FieldType)) (tenantID : String)
    (filterPaths : List String) (rows : List ConfigValueSince) : List ConfigChange :=
  (rows.filter fun row => passesFilter filterPaths row.fieldPath).map (replayMessage types tenantID)

/-- The messages of a live event: none when the replay has covered its version. -/
def liveMessages (types : List (String × FieldType)) (filterPaths : List String) (watermark : ℤ)
    (ev : ConfigChangeEvent) : List ConfigChange :=
  if ev.version ≤ watermark then []
  else (ev.changes.filter fun ch => passesFilter filterPaths ch.fieldPath).map
    (liveMessage types ev)

/-- The replay of `Subscribe` from a version on, which returns the watermark. -/
def replayConfig (types : List (String × FieldType)) (tenantID : String)
    (filterPaths : List String) (startVersion : ℤ) : Proc Status ℤ := do
  let watermark : ℤ ← fetch false (.latestConfigVersion tenantID) fun _ =>
    internal "failed to determine latest version for replay"
  let rows ← fetch false (.configValuesSince tenantID startVersion) fun _ =>
    internal "failed to replay events"
  forEach send (replayMessages types tenantID filterPaths rows)
  pure watermark

/-- The replay of `Subscribe`: none unless the request names a start version. -/
def replayRequested (types : List (String × FieldType)) (tenantID : String)
    (filterPaths : List String) (startVersion : Option ℤ) : Proc Status ℤ :=
  match startVersion with
  | none => pure 0
  | some startVersion => replayConfig types tenantID filterPaths startVersion

/-- The loop of `Subscribe` from a position of the channel on, until the client goes away or
the channel is closed. -/
def liveLoop (types : List (String × FieldType)) (tenantID : String) (filterPaths : List String)
    (watermark : ℤ) : ℕ → ℕ → Proc Status Reply
  | 0, _ => pure .closed
  | patience + 1, position => do
      let event ← ask (.stream (.receive tenantID position)) .ok
      match (event : Option ConfigChangeEvent) with
      | none => pure .closed
      | some ev => do
          forEach send (liveMessages types filterPaths watermark ev)
          liveLoop types tenantID filterPaths watermark patience (position + 1)

/-- **`Subscribe`**. The client goes away after `patience` events. -/
def subscribe (caller : Caller) (req : SubscribeRequest) (patience : ℕ) : Proc Status Reply := do
  ofExcept (mustHaveClaims caller)
  require (env.maxListLen = 0 ∨ req.fieldPaths.length ≤ env.maxListLen)
    ⟨.invalidArgument, "request has " ++ formatInt req.fieldPaths.length ++
      " field_paths, exceeds limit of " ++ formatInt env.maxListLen⟩
  let tenantID ← resolveTenantWithAccess env caller req.tenantId .read
  let position ← ask (.stream (.subscribe tenantID)) (Except.mapError fun _ =>
    internal "failed to subscribe")
  let types ← fieldTypeMap env id tenantID
  let watermark ← replayRequested types tenantID req.fieldPaths req.startVersion
  liveLoop types tenantID req.fieldPaths watermark patience position

end Decree
