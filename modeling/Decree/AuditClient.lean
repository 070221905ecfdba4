import Decree.AuditChain
import Decree.ConfigService
import Decree.Json
import Decree.SchemaService

/-!
# Audit Entries at the Admin Client

The admin client computes the hash of an audit entry a second time (`sdk/adminclient/audit.go`),
from what it receives: the entry has been converted to its wire form
(`internal/audit/service.go`) and to the client's own (`sdk/grpctransport/convert.go`). The client
does not tell an absent text from an empty one, and it has the metadata as a map of strings, which
is dropped when a value is a number and turns a null into an empty string.

`ServerAudit` lists the entries that the services write. Their metadata is what
`encoding/json` makes of a flat map; the package is a parameter with the laws that are used.

## Main results

* `clientText_eq_iff`: when the texts are the same.
* `clientHash_eq_iff`: when the hashes are the same.
-/

namespace Decree

open Go HashChain List

/-! ### Metadata -/

/-- A value of the metadata that the services write. -/
inductive MetaValue where
  | null
  | number (n : Int32)
  | string (s : String)
deriving DecidableEq

/-- The value as an element of a `map[string]string`, into which a null is read as empty. -/
def MetaValue.text : MetaValue → String
  | string s => s
  | _ => ""

/-- A number is not read into a `map[string]string`. -/
def MetaValue.isText : MetaValue → Bool
  | number _ => false
  | _ => true

/-- A flat JSON object, in the order of its keys. -/
structure MetaObject where
  entries : List (String × MetaValue)
  sorted : (entries.map Prod.fst).Pairwise (· < ·)

/-- A `map[string]string`, in the order of its keys. -/
structure StringMap where
  entries : List (String × String)
  sorted : (entries.map Prod.fst).Pairwise (· < ·)

/-- The nil map. -/
def StringMap.empty : StringMap :=
  ⟨[], .nil⟩

def StringMap.object (m : StringMap) : MetaObject where
  entries := m.entries.map fun p => (p.1, .string p.2)
  sorted := by simpa [Function.comp_def] using m.sorted

/-- The object as a `map[string]string`, if it can be read into one. -/
def MetaObject.strings (o : MetaObject) : Option StringMap :=
  if o.entries.all fun p => p.2.isText then
    some ⟨o.entries.map fun p => (p.1, p.2.text), by simpa [Function.comp_def] using o.sorted⟩
  else none

def MetaObject.AllStrings (o : MetaObject) : Prop :=
  ∀ p ∈ o.entries, p.2 = .string p.2.text

variable {o : MetaObject}

theorem MetaObject.ext {o' : MetaObject} (h : o.entries = o'.entries) : o = o' := by
  cases o
  cases o'
  congr

/-- The object is its map of strings again if and only if all values are strings. -/
theorem MetaObject.object_eq_iff {m : StringMap} (h : o.strings = some m) :
    m.object = o ↔ o.AllStrings := by
  have hentries : m.object.entries = o.entries.map fun p => (p.1, .string p.2.text) := by
    rw [strings] at h
    split at h
    · rw [← Option.some.inj h]
      exact map_map
    · cases h
  constructor
  · rintro rfl p hp
    conv_lhs at hentries => rw [← map_id m.object.entries]
    exact congrArg Prod.snd (map_inj_left.mp hentries p hp)
  · intro hall
    refine MetaObject.ext (hentries.trans ?_)
    conv_rhs => rw [← map_id o.entries]
    exact map_inj_left.mpr fun p hp => Prod.ext rfl (hall p hp).symm

/-- An object of strings is one for the client. -/
theorem MetaObject.strings_isSome (h : o.AllStrings) : o.strings.isSome = true := by
  have hall : (o.entries.all fun p => p.2.isText) = true := by
    rw [all_eq_true]
    intro p hp
    rw [h p hp]
    rfl
  rw [strings, if_pos hall]
  rfl

/-- **`encoding/json`** on such objects, next to the database: an object is written and read
back, the round trip through `interface{}` keeps what was written, and a `JSONB` column gives
back a text of the same value; a null column stays one. -/
structure AuditJSON extends AuditDB where
  marshal : MetaObject → List UInt8
  parse : List UInt8 → Option MetaObject
  parse_marshal : ∀ o, parse (marshal o) = some o
  parse_nil : parse [] = none
  remarshal_marshal : ∀ o, remarshal (marshal o) = some (marshal o)
  parse_jsonb : ∀ {b b' : List UInt8}, jsonb b = some b' → parse b' = parse b
  jsonb_nil : jsonb [] = some []

/-! ### The wire and the client -/

structure PbAuditEntry where
  id : String
  tenantId : String
  actor : String
  action : String
  objectKind : String
  entryHash : String
  previousHash : String
  createdAt : Go.Time
  chainEpoch : ℕ
  fieldPath : Option String
  oldValue : Option String
  newValue : Option String
  configVersion : Option ℤ
  metadata : StringMap

/-- `adminclient.AuditEntry`. -/
structure ClientEntry where
  id : String
  tenantID : String
  actor : String
  action : String
  objectKind : String
  fieldPath : String
  oldValue : String
  newValue : String
  configVersion : Option ℤ
  createdAt : ℤ
  entryHash : String
  previousHash : String
  chainEpoch : ℕ
  metadata : StringMap

/-- The seconds and nanoseconds of an instant, which a timestamp of the wire holds. -/
def timeOfNanos (t : ℤ) : Go.Time :=
  ⟨t / 10 ^ 9, (t % 10 ^ 9).toNat, by omega⟩

/-- The instant of a time. -/
def nanosOfTime (t : Go.Time) : ℤ :=
  t.sec * 10 ^ 9 + t.nsec

@[simp] theorem nanosOfTime_timeOfNanos (t : ℤ) : nanosOfTime (timeOfNanos t) = t := by
  simp only [nanosOfTime, timeOfNanos]
  omega

variable (J : AuditJSON)

/-- The metadata of the wire form: none if it is not read into a map of strings. -/
def metadataToProto (b : List UInt8) : StringMap :=
  if 0 < b.length then ((J.parse b).bind MetaObject.strings).getD .empty else .empty

def auditEntryToProto (e : AuditWriteLog) : PbAuditEntry where
  id := e.id
  tenantId := e.tenantID
  actor := e.actor
  action := e.action
  objectKind := e.objectKind
  entryHash := e.entryHash
  previousHash := e.previousHash
  createdAt := timeOfNanos e.createdAt
  chainEpoch := (e.chainEpoch % 2 ^ 64).toNat
  fieldPath := e.fieldPath
  oldValue := e.oldValue
  newValue := e.newValue
  configVersion := e.configVersion
  metadata := metadataToProto J e.metadata

/-- **`auditEntryFromProto`**: an absent text is an empty one. -/
def auditEntryFromProto (e : PbAuditEntry) : ClientEntry where
  id := e.id
  tenantID := e.tenantId
  actor := e.actor
  action := e.action
  objectKind := e.objectKind
  fieldPath := derefString e.fieldPath
  oldValue := derefString e.oldValue
  newValue := derefString e.newValue
  configVersion := e.configVersion
  createdAt := nanosOfTime e.createdAt
  entryHash := e.entryHash
  previousHash := e.previousHash
  chainEpoch := e.chainEpoch
  metadata := if 0 < e.metadata.entries.length then e.metadata else .empty

/-- The client's `writeNullableStr`. -/
def writeClientStr (s : String) : String :=
  if s = "" then "\x00" else "\x01" ++ s ++ "\x00"

/-- The last part of the text that the client hashes. -/
def clientMetadataText (m : StringMap) : String :=
  if m.entries.length = 0 then "\x00" else "\x01" ++ hexEncode (J.marshal m.object)

def clientStructuralText (previousHash : String) (e : ClientEntry) : String :=
  previousHash ++ "\x00" ++ e.id ++ "\x00" ++ e.tenantID ++ "\x00" ++ e.actor ++ "\x00" ++
    e.action ++ "\x00" ++ e.objectKind ++ "\x00" ++ formatInt (unixNano e.createdAt)

/-- The **text that the client hashes** for an entry. -/
def clientText (previousHash : String) (e : ClientEntry) : String :=
  if e.chainEpoch = 0 then clientStructuralText previousHash e
  else
    clientStructuralText previousHash e ++ "\x00" ++ writeClientStr e.fieldPath ++
      writeClientStr e.oldValue ++ writeClientStr e.newValue ++
      writeNullableI32 e.configVersion ++ clientMetadataText J e.metadata

def computeClientHash (previousHash : String) (e : ClientEntry) : String :=
  hexEncode (J.sha256 (clientText J previousHash e).toUTF8).toList

/-- The entry that the client receives for a stored one. -/
def clientEntry (e : AuditWriteLog) : ClientEntry :=
  auditEntryFromProto (auditEntryToProto J e)

variable {J} {b : List UInt8} {e : AuditWriteLog} {prevHash : String} {stamp : Stamp}

/-! ### When the texts agree -/

/-- An optional text is hashed alike unless it is present and empty. -/
theorem writeClientStr_append_eq {s : Option String} {r r' : String} :
    writeClientStr (derefString s) ++ r = writeNullableStr s ++ r' ↔ s ≠ some "" ∧ r = r' := by
  cases s with
  | none =>
    rw [derefString, Option.getD_none, writeClientStr, if_pos rfl, writeNullableStr,
      String.append_right_inj]
    simp
  | some s =>
    rw [derefString, Option.getD_some, writeClientStr, writeNullableStr]
    by_cases hs : s = ""
    · rw [if_pos hs, hs]
      constructor
      · intro h
        have hl := congrArg String.toList h
        simp at hl
      · rintro ⟨h, -⟩
        exact absurd rfl h
    · rw [if_neg hs, String.append_right_inj]
      simp [hs]

/-- The metadata that the client gets. -/
theorem clientEntry_metadata (e : AuditWriteLog) :
    (clientEntry J e).metadata = metadataToProto J e.metadata := by
  change (if 0 < (metadataToProto J e.metadata).entries.length then metadataToProto J e.metadata
    else StringMap.empty) = metadataToProto J e.metadata
  rcases metadataToProto J e.metadata with ⟨entries, sorted⟩
  cases entries with
  | nil => rfl
  | cons p entries => rfl

/-- The part of the hashed text with the metadata is the same. -/
def MetadataAgrees (J : AuditJSON) (b : List UInt8) : Prop :=
  clientMetadataText J (metadataToProto J b) = metadataText (normalizeJSON J.toHasher b)

theorem metadataAgrees_nil : MetadataAgrees J [] := rfl

/-- Two objects have two texts. -/
theorem marshal_injective : Function.Injective J.marshal := by
  intro o o' h
  have hparse := congrArg J.parse h
  rw [J.parse_marshal, J.parse_marshal] at hparse
  exact Option.some.inj hparse

/-- No object has the empty text. -/
theorem marshal_ne_nil (o : MetaObject) : J.marshal o ≠ [] := by
  intro h
  have hparse := J.parse_marshal o
  rw [h, J.parse_nil] at hparse
  cases hparse

/-- Metadata that is present is hashed alike if and only if it is an object of strings. -/
theorem metadataAgrees_iff (hb : J.jsonb (J.marshal o) = some b) :
    MetadataAgrees J b ↔ o.entries ≠ [] ∧ o.AllStrings := by
  have hparse : J.parse b = some o := (J.parse_jsonb hb).trans (J.parse_marshal o)
  have hlen : 0 < b.length := by
    rw [length_pos_iff]
    rintro rfl
    rw [J.parse_nil] at hparse
    cases hparse
  have hserver : metadataText (normalizeJSON J.toHasher b) = "\x01" ++ hexEncode (J.marshal o) := by
    have hne : (J.marshal o).length ≠ 0 := fun h =>
      marshal_ne_nil o (eq_nil_of_length_eq_zero h)
    rw [J.normalize_jsonb hb, normalizeJSON, if_neg hne, J.remarshal_marshal, Option.getD_some,
      metadataText, if_neg hne]
  rw [MetadataAgrees, hserver, metadataToProto, if_pos hlen, hparse, Option.bind_some,
    clientMetadataText]
  cases hm : o.strings with
  | none =>
    refine ⟨fun h => ?_, fun h => ?_⟩
    · have hl := congrArg String.toList h
      simp [StringMap.empty] at hl
    · have hsome := MetaObject.strings_isSome h.2
      rw [hm] at hsome
      cases hsome
  | some m =>
    have hkeys : m.entries.length = o.entries.length := by
      rw [MetaObject.strings] at hm
      split at hm
      · rw [← Option.some.inj hm, length_map]
      · cases hm
    rw [Option.getD_some, hkeys]
    by_cases hnil : o.entries = []
    · rw [hnil, length_nil, if_pos rfl]
      refine ⟨fun h => ?_, fun h => absurd rfl h.1⟩
      have hl := congrArg String.toList h
      simp at hl
    · rw [if_neg fun h => hnil (eq_nil_of_length_eq_zero h), String.append_right_inj,
        hexEncode_injective.eq_iff, marshal_injective.eq_iff, MetaObject.object_eq_iff hm]
      exact (and_iff_right hnil).symm

/-- **The texts that are hashed are the same** if and only if no optional text is present and
empty, and the metadata agrees. -/
theorem clientText_eq_iff (hepoch : e.chainEpoch = 1) (p : String) :
    clientText J p (clientEntry J e) = hashText J.toHasher (e.chainInput p) ↔
      e.fieldPath ≠ some "" ∧ e.oldValue ≠ some "" ∧ e.newValue ≠ some "" ∧
        MetadataAgrees J e.metadata := by
  have hclient : (clientEntry J e).chainEpoch ≠ 0 := by
    change (e.chainEpoch % 2 ^ 64).toNat ≠ 0
    rw [hepoch]
    decide
  have hserver : (e.chainInput p).epoch ≠ 0 := by
    change e.chainEpoch ≠ 0
    rw [hepoch]
    decide
  have hstruct : clientStructuralText p (clientEntry J e) = structuralText (e.chainInput p) := by
    simp only [clientStructuralText, structuralText, clientEntry, auditEntryFromProto,
      auditEntryToProto, AuditWriteLog.chainInput, nanosOfTime_timeOfNanos]
  rw [clientText, if_neg hclient, hashText, if_neg hserver, hstruct, clientEntry_metadata]
  simp only [String.append_assoc, String.append_right_inj]
  change writeClientStr (derefString e.fieldPath) ++ (writeClientStr (derefString e.oldValue) ++
      (writeClientStr (derefString e.newValue) ++ (writeNullableI32 e.configVersion ++
        clientMetadataText J (metadataToProto J e.metadata)))) =
    writeNullableStr e.fieldPath ++ (writeNullableStr e.oldValue ++
      (writeNullableStr e.newValue ++ (writeNullableI32 e.configVersion ++
        metadataText (normalizeJSON J.toHasher e.metadata)))) ↔ _
  rw [writeClientStr_append_eq, writeClientStr_append_eq, writeClientStr_append_eq,
    String.append_right_inj]
  rfl

/-! ### What the services write -/

/-- An **entry that the services write**, with what it is made of. Schemas have no tenant, and
their entries are in the global chain. -/
inductive ServerAudit where
  | setField (tenantID actor : String) (fields : List SchemaField) (fieldPath : String)
      (value : Option TypedValue) (oldValue : String) (version : ℤ)
  | importValue (tenantID actor : String) (fields : List SchemaField) (ch : FieldChange)
      (version : ℤ)
  | rollback (tenantID actor : String) (target version : ℤ)
  | lockField (tenantID actor fieldPath : String)
  | unlockField (tenantID actor fieldPath : String)
  | createSchema (actor name schemaID : String)
  | updateSchema (actor schemaID : String) (version : Int32)
  | deleteSchema (actor schemaID : String)
  | publishSchema (actor schemaID : String) (version : Int32)
  | createTenant (tenantID actor name schemaID : String) (schemaVersion : Int32)
  | updateTenant (tenantID actor : String) (name : Option String) (schemaVersion : Option Int32)
  | deleteTenant (tenantID actor : String)

/-- An entry of the config service or of a lock, which has no metadata. -/
def AuditEntry.params (e : AuditEntry) : AuditParams where
  tenantID := e.tenantID
  actor := e.actor
  action := e.action
  objectKind := e.objectKind
  fieldPath := e.fieldPath
  oldValue := e.oldValue
  newValue := e.newValue
  configVersion := e.configVersion

/-- The metadata of an entry, if it has any. -/
def ServerAudit.metadata : ServerAudit → Option MetaObject
  | createSchema _ name _ => some ⟨[("name", .string name)], by simp⟩
  | updateSchema _ schemaID version | publishSchema _ schemaID version =>
    some ⟨[("schema_id", .string schemaID), ("version", .number version)], by
      simp only [List.map_cons, List.map_nil]
      decide⟩
  | createTenant _ _ name schemaID schemaVersion =>
    some ⟨[("name", .string name), ("schema_id", .string schemaID),
      ("schema_version", .number schemaVersion)], by
        simp only [List.map_cons, List.map_nil]
        decide⟩
  | updateTenant _ _ name schemaVersion =>
    some ⟨[("name", name.elim .null .string),
      ("schema_version", schemaVersion.elim .null .number)], by
        simp only [List.map_cons, List.map_nil]
        decide⟩
  | _ => none

/-- The entry without its metadata. -/
def ServerAudit.entry : ServerAudit → AuditEntry
  | setField tenantID actor fields fieldPath value oldValue version =>
    setFieldAudit tenantID actor fields fieldPath value oldValue version
  | importValue tenantID actor fields ch version => importAudit tenantID actor fields ch version
  | rollback tenantID actor target version => rollbackAudit tenantID actor target version
  | lockField tenantID actor fieldPath => lockAudit tenantID actor "lock_field" fieldPath
  | unlockField tenantID actor fieldPath => lockAudit tenantID actor "unlock_field" fieldPath
  | createSchema actor _ schemaID =>
    ⟨"", actor, "create_schema", "schema", none, none, ptrString schemaID, none⟩
  | updateSchema actor schemaID _ =>
    ⟨"", actor, "update_schema", "schema", none, none, ptrString schemaID, none⟩
  | deleteSchema actor schemaID =>
    ⟨"", actor, "delete_schema", "schema", none, ptrString schemaID, none, none⟩
  | publishSchema actor schemaID _ =>
    ⟨"", actor, "publish_schema", "schema", none, none, ptrString schemaID, none⟩
  | createTenant tenantID actor _ _ _ =>
    ⟨tenantID, actor, "create_tenant", "tenant", none, none, ptrString tenantID, none⟩
  | updateTenant tenantID actor _ _ =>
    ⟨tenantID, actor, "update_tenant", "tenant", none, none, ptrString tenantID, none⟩
  | deleteTenant tenantID actor =>
    ⟨tenantID, actor, "delete_tenant", "tenant", none, ptrString tenantID, none, none⟩

/-- The parameters with which the entry is inserted. -/
def ServerAudit.params (J : AuditJSON) (w : ServerAudit) : AuditParams :=
  { w.entry.params with metadata := (w.metadata.map J.marshal).getD [] }

/-- The row that is inserted, by the config store or by the schema store. -/
def ServerAudit.row (J : AuditJSON) (w : ServerAudit) (prevHash : String) (stamp : Stamp) :
    Option AuditWriteLog :=
  match w with
  | setField .. | importValue .. | rollback .. =>
    insertConfigAudit J.toAuditDB w.entry.tenantID prevHash (w.params J) stamp
  | _ => insertSchemaAudit J.toAuditDB w.entry.tenantID prevHash (w.params J) stamp

/-- **The client recomputes the hash** of the entry: it is no import of an empty value that is
not sensitive, and has no number or null in its metadata. -/
def ServerAudit.Portable : ServerAudit → Prop
  | importValue _ _ fields ch _ => isSensitive fields ch.fieldPath = true ∨ ch.newValue ≠ ""
  | updateSchema .. | publishSchema .. | createTenant .. | updateTenant .. => False
  | _ => True

/-- The row of an entry of the server. -/
theorem ServerAudit.row_eq (w : ServerAudit) (prevHash : String) (stamp : Stamp) :
    w.row J prevHash stamp = auditRow J.toAuditDB w.entry.tenantID prevHash w.entry.objectKind
      w.entry.configVersion (w.params J) stamp := by
  cases w <;> rfl

variable {w : ServerAudit}

/-- What the row of an entry holds. -/
theorem ServerAudit.row_spec (h : w.row J prevHash stamp = some e) :
    e.chainEpoch = 1 ∧ e.fieldPath = w.entry.fieldPath ∧ e.oldValue = w.entry.oldValue ∧
      e.newValue = w.entry.newValue ∧
      J.jsonb ((w.metadata.map J.marshal).getD []) = some e.metadata := by
  rw [row_eq] at h
  obtain ⟨metadata, hmeta, rfl⟩ := Option.map_eq_some_iff.mp h
  exact ⟨rfl, rfl, rfl, rfl, hmeta⟩

theorem ptrString_ne_some_empty (s : String) : ptrString s ≠ some "" := by
  rw [ptrString]
  split
  · simp
  · simpa

/-- When the client reads the same metadata. -/
theorem ServerAudit.metadataAgrees_iff (h : J.jsonb ((w.metadata.map J.marshal).getD []) = some b) :
    MetadataAgrees J b ↔ ∀ o ∈ w.metadata, o.entries ≠ [] ∧ o.AllStrings := by
  cases hw : w.metadata with
  | none =>
    rw [hw, Option.map_none, Option.getD_none, J.jsonb_nil] at h
    rw [← Option.some.inj h]
    simp [metadataAgrees_nil]
  | some o =>
    rw [hw, Option.map_some, Option.getD_some] at h
    rw [Decree.metadataAgrees_iff h]
    simp

/-- A value that is no string is lost. -/
theorem ServerAudit.not_agrees (hw : w.metadata = some o) {p : String × MetaValue}
    (hp : p ∈ o.entries) (hs : ∀ s, p.2 ≠ .string s) :
    ¬ ∀ o ∈ w.metadata, o.entries ≠ [] ∧ o.AllStrings :=
  fun h => hs _ ((h o hw).2 p hp)

/-- When nothing of an entry is lost. -/
theorem ServerAudit.portable_iff (w : ServerAudit) :
    (w.entry.fieldPath ≠ some "" ∧ w.entry.oldValue ≠ some "" ∧ w.entry.newValue ≠ some "" ∧
      ∀ o ∈ w.metadata, o.entries ≠ [] ∧ o.AllStrings) ↔ w.Portable := by
  cases w with
  | importValue tenantID actor fields ch version =>
    have hvalue : some (redactIfSensitive (isSensitive fields ch.fieldPath) ch.newValue) ≠
        some "" ↔ isSensitive fields ch.fieldPath = true ∨ ch.newValue ≠ "" := by
      cases isSensitive fields ch.fieldPath <;> simp [redactIfSensitive]
    simp only [entry, importAudit, metadata, ptrString_ne_some_empty, hvalue, Portable,
      Option.not_mem_none, ne_eq, not_false_eq_true, true_and, false_imp_iff, implies_true,
      and_true]
  | rollback tenantID actor target version =>
    simp [entry, rollbackAudit, metadata, Portable]
  | updateSchema actor schemaID version | publishSchema actor schemaID version =>
    refine iff_of_false (fun h =>
      not_agrees rfl (p := ("version", .number version)) ?_ ?_ h.2.2.2) id
    · simp
    · simp
  | createTenant tenantID actor name schemaID version =>
    refine iff_of_false (fun h =>
      not_agrees rfl (p := ("schema_version", .number version)) ?_ ?_ h.2.2.2) id
    · simp
    · simp
  | updateTenant tenantID actor name version =>
    refine iff_of_false (fun h =>
      not_agrees rfl (p := ("schema_version", version.elim .null .number)) ?_ ?_ h.2.2.2) id
    · simp
    · cases version <;> simp
  | createSchema actor name schemaID =>
    simp [entry, metadata, Portable, ptrString_ne_some_empty, MetaObject.AllStrings, MetaValue.text]
  | _ =>
    simp [entry, setFieldAudit, lockAudit, metadata, Portable, ptrString_ne_some_empty]

/-- The client hashes the text that the server hashed, if and only if the entry is portable. -/
theorem ServerAudit.clientText_eq_iff (he : w.row J prevHash stamp = some e) (p : String) :
    clientText J p (clientEntry J e) = hashText J.toHasher (e.chainInput p) ↔ w.Portable := by
  obtain ⟨hepoch, hpath, hold, hnew, hmeta⟩ := row_spec he
  rw [← w.portable_iff, ← hpath, ← hold, ← hnew, ← metadataAgrees_iff hmeta,
    Decree.clientText_eq_iff hepoch p]

/-- One text has one hash. -/
theorem computeClientHash_of_text {p : String}
    (h : clientText J p (clientEntry J e) = hashText J.toHasher (e.chainInput p)) :
    computeClientHash J p (clientEntry J e) = computeEntryHash J.toHasher (e.chainInput p) :=
  congrArg (fun text : String => hexEncode (J.sha256 text.toUTF8).toList) h

/-- **The client's hash is the server's** for an entry that the services write, if and only if
the entry is portable, where SHA-256 does not collide on the two texts. -/
theorem clientHash_eq_iff {w : ServerAudit} {prevHash : String} {stamp : Stamp}
    {e : AuditWriteLog} (he : w.row J prevHash stamp = some e) (p : String)
    (hsha : Set.InjOn J.sha256 {(clientText J p (clientEntry J e)).toUTF8,
      (hashText J.toHasher (e.chainInput p)).toUTF8}) :
    computeClientHash J p (auditEntryFromProto (auditEntryToProto J e)) =
      computeEntryHash J.toHasher (e.chainInput p) ↔ w.Portable := by
  rw [← w.clientText_eq_iff he p]
  constructor
  · intro h
    have hbytes := hsha (.inl rfl) (.inr rfl) (Vector.toList_inj.mp (hexEncode_injective h))
    exact String.toByteArray_inj.mp hbytes
  · exact computeClientHash_of_text

/-! ### Two entries -/

namespace Sample

def metaJSON : MetaValue → Json
  | .null => .null
  | .number n => .num (.ofInt n.toInt)
  | .string s => .str s

def metaValueOf : Json → Option MetaValue
  | .null => some .null
  | .num m => some (.number (.ofInt (parseInt (String.ofList m.chars)).1.1))
  | .str s => some (.string s)
  | _ => none

/-- The object of a text with the keys in their order. -/
def metaOf : Json → Option MetaObject
  | .obj kvs =>
    (kvs.mapM fun p => (metaValueOf p.2).map (p.1, ·)).bind fun entries =>
      if h : (entries.map Prod.fst).Pairwise (· < ·) then some ⟨entries, h⟩ else none
  | _ => none

/-- **The JSON text of a flat object.** -/
def metaText (o : MetaObject) : String :=
  Json.marshal (.obj (o.entries.map fun p => (p.1, metaJSON p.2)))

def parseMeta (b : List UInt8) : Option MetaObject :=
  ((String.fromUTF8? ⟨b.toArray⟩).bind Json.unmarshal).bind metaOf

theorem fromUTF8?_bytes (s : String) :
    String.fromUTF8? ⟨s.toUTF8.data.toList.toArray⟩ = some s := by
  rw [Array.toArray_toList]
  exact dif_pos s.isValidUTF8

/-- A value returns from its JSON. -/
theorem metaValueOf_json (v : MetaValue) : metaValueOf (metaJSON v) = some v := by
  cases v with
  | null => rfl
  | string s => rfl
  | number n =>
    have hlt := n.toInt_lt
    have hle := n.le_toInt
    have hread := parseInt_formatInt ⟨n.toInt, by omega⟩
    rw [metaJSON, metaValueOf]
    change some (MetaValue.number (.ofInt (parseInt (formatInt n.toInt)).1.1)) = _
    simp [hread]

/-- **A flat object returns from its text.** -/
theorem parseMeta_metaText (o : MetaObject) :
    parseMeta (metaText o).toUTF8.data.toList = some o := by
  have hentries : (o.entries.map fun p => (p.1, metaJSON p.2)).mapM (fun p =>
      (metaValueOf p.2).map (p.1, ·)) = some o.entries := by
    induction o.entries with
    | nil => rfl
    | cons p entries ih => simp [ih, metaValueOf_json]
  rw [parseMeta, fromUTF8?_bytes, metaText, Option.bind_some, Json.unmarshal_marshal,
    Option.bind_some, metaOf, hentries, Option.bind_some, dif_pos o.sorted]

def auditJSON (sha256 : ByteArray → Digest) : AuditJSON where
  sha256 := sha256
  remarshal := some
  jsonb := some
  normalize_jsonb := by rintro b _ ⟨⟩; rfl
  marshal o := (metaText o).toUTF8.data.toList
  parse := parseMeta
  parse_marshal := parseMeta_metaText
  parse_nil := by
    have hempty : String.fromUTF8? ⟨#[]⟩ = some "" := fromUTF8?_bytes ""
    rw [parseMeta, hempty]
    decide +kernel
  remarshal_marshal _ := rfl
  parse_jsonb := by rintro b _ ⟨⟩; rfl
  jsonb_nil := rfl

/-- The text does not depend on the hash. -/
theorem texts_eq {sha256 sha256' : ByteArray → Digest} {e' : AuditWriteLog}
    (h : w.row (auditJSON sha256) "" stamp = some e)
    (h' : w.row (auditJSON sha256') "" stamp = some e') :
    clientText (auditJSON sha256) "" (clientEntry (auditJSON sha256) e) =
        clientText (auditJSON sha256') "" (clientEntry (auditJSON sha256') e') ∧
      hashText (auditJSON sha256).toHasher (e.chainInput "") =
        hashText (auditJSON sha256').toHasher (e'.chainInput "") := by
  rw [ServerAudit.row_eq] at h h'
  obtain ⟨metadata, ⟨⟩, rfl⟩ := Option.map_eq_some_iff.mp h
  obtain ⟨metadata', ⟨⟩, rfl⟩ := Option.map_eq_some_iff.mp h'
  exact ⟨rfl, rfl⟩

end Sample

open Sample

theorem clientHash_eq_iff_createSchema : ∃ (J : AuditJSON) (e : AuditWriteLog),
      (ServerAudit.createSchema "root" "billing" "s").row J "" (Sample.stamp "1" 1000) = some e ∧
      computeClientHash J "" (auditEntryFromProto (auditEntryToProto J e)) =
        computeEntryHash J.toHasher (e.chainInput "") := by
  let w := ServerAudit.createSchema "root" "billing" "s"
  let J := auditJSON hasher.sha256
  obtain ⟨e, he⟩ : ∃ e, w.row J "" (Sample.stamp "1" 1000) = some e := ⟨_, rfl⟩
  refine ⟨J, e, he, (clientHash_eq_iff he "" ?_).mpr trivial⟩
  rw [(w.clientText_eq_iff he "").mpr trivial, Set.pair_eq_singleton]
  exact Set.injOn_singleton _ _

/-- The hash of an update of a schema is not: its metadata has the version as a number, so the
client has none. -/
theorem clientHash_differs : ∃ (J : AuditJSON) (e : AuditWriteLog),
      (ServerAudit.updateSchema "root" "s" 2).row J "" (Sample.stamp "1" 1000) = some e ∧
      computeClientHash J "" (auditEntryFromProto (auditEntryToProto J e)) ≠
        computeEntryHash J.toHasher (e.chainInput "") := by
  let w := ServerAudit.updateSchema "root" "s" 2
  let J0 := auditJSON hasher.sha256
  obtain ⟨e0, he0⟩ : ∃ e, w.row J0 "" (Sample.stamp "1" 1000) = some e := ⟨_, rfl⟩
  have htexts : clientText J0 "" (clientEntry J0 e0) ≠
      hashText J0.toHasher (e0.chainInput "") := (w.clientText_eq_iff he0 "").mp
  -- a hash that tells the two texts apart
  let text := clientText J0 "" (clientEntry J0 e0)
  let J := auditJSON fun b => if b = text.toUTF8 then Vector.replicate 32 0
    else Vector.replicate 32 1
  obtain ⟨e, he⟩ : ∃ e, w.row J "" (Sample.stamp "1" 1000) = some e := ⟨_, rfl⟩
  obtain ⟨hclient, hserver⟩ := texts_eq he he0
  refine ⟨J, e, he, fun h => ?_⟩
  have hsha : J.sha256 (clientText J "" (clientEntry J e)).toUTF8 =
      J.sha256 (hashText J.toHasher (e.chainInput "")).toUTF8 :=
    Vector.toList_inj.mp (hexEncode_injective h)
  have hne : (hashText J0.toHasher (e0.chainInput "")).toUTF8 ≠ text.toUTF8 := fun hb =>
    htexts (String.toByteArray_inj.mp hb).symm
  rw [hclient, hserver] at hsha
  change (if text.toUTF8 = text.toUTF8 then Vector.replicate 32 0 else Vector.replicate 32 1) =
    if _ = text.toUTF8 then _ else _ at hsha
  rw [if_pos rfl, if_neg hne] at hsha
  exact absurd hsha (by decide)

end Decree
