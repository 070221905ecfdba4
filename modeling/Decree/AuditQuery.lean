import Decree.AuditClient
import Decree.KeysetPages
import Decree.Pagination

/-!
# Querying the Audit Log

`QueryWriteLog` of the audit service (`internal/audit/service.go`) over its store
(`internal/audit/store_pg.go`, `db/queries/audit.sql`). The first page is read by a query that
orders by time only, and rows of one time come in the order in which the database finds them,
`scan`. The pages after it are read from a cursor, by a query that orders by time and
identifier. Both are read from the pool, for which row level security hides the entries that
belong to no tenant (`db/migrations/00001_baseline.sql`): whatever a request asks for, the global
chain is not in the answer.

## Main results

* `keysetRows_eq`: a cursor continues after its row.
* `queryWriteLog_of_rows`: the answer to a request.
-/

namespace Decree

open Go List

/-! ### Identifiers -/

/-- A hexadecimal digit, in lower case. -/
def hexLower (b : UInt8) : Option Char :=
  if 48 ≤ b ∧ b ≤ 57 ∨ 97 ≤ b ∧ b ≤ 102 then some (Char.ofNat b.toNat)
  else if 65 ≤ b ∧ b ≤ 70 then some (Char.ofNat (b.toNat + 32))
  else none

/-- The digits of a `UUID`, with or without dashes. -/
def uuidDigits (bs : List UInt8) : Option (List UInt8) :=
  if bs.length = 36 then
    some (bs.take 8 ++ (bs.drop 9).take 4 ++ (bs.drop 14).take 4 ++ (bs.drop 19).take 4 ++
      bs.drop 24)
  else if bs.length = 32 then some bs
  else none

/-- `pgconv.StringToUUID`. A `UUID` is its text in lower case, as `UUIDToString` gives it. -/
def stringToUUID (bs : List UInt8) : Option String := do
  let digits ← uuidDigits bs
  let cs ← digits.mapM hexLower
  some (String.ofList (cs.take 8 ++ '-' :: (cs.drop 8).take 4 ++ '-' :: (cs.drop 12).take 4 ++
    '-' :: (cs.drop 16).take 4 ++ '-' :: cs.drop 20))

def textBytes (s : String) : List UInt8 :=
  s.toUTF8.data.toList

def IsUUIDText (s : String) : Prop :=
  stringToUUID (textBytes s) = some s

instance (s : String) : Decidable (IsUUIDText s) :=
  inferInstanceAs (Decidable (_ = _))

theorem IsUUIDText.bytes_ne_nil {s : String} (h : IsUUIDText s) : textBytes s ≠ [] := by
  intro hnil
  rw [IsUUIDText, hnil] at h
  cases h

/-! ### The store -/

/-- The filters of `QueryWriteLogParams`; an empty text filters nothing. -/
structure AuditFilter where
  tenantID : String := ""
  actor : String := ""
  fieldPath : String := ""
  startTime : Option ℤ := none
  endTime : Option ℤ := none

/-- The policy `tenant_rls` of `audit_write_log` on a read of the pool, which runs as
`decree_app` and sets neither `app.superadmin_mode` nor `app.tenant_id`: entries without a tenant
are not visible. -/
def visibleToPool (e : AuditWriteLog) : Bool :=
  e.tenantID ≠ ""

/-- The `WHERE` of the queries. A `timestamptz` keeps microseconds. -/
def AuditFilter.matches (f : AuditFilter) (e : AuditWriteLog) : Bool :=
  (f.tenantID = "" || e.tenantID = f.tenantID) && (f.actor = "" || e.actor = f.actor) &&
    (f.fieldPath = "" || e.fieldPath = some f.fieldPath) &&
    f.startTime.all (fun t => truncateMicro t ≤ e.createdAt) &&
    f.endTime.all (fun t => e.createdAt ≤ truncateMicro t)

/-- The rows that a query of the pool selects. -/
def AuditFilter.selects (f : AuditFilter) (e : AuditWriteLog) : Bool :=
  visibleToPool e && f.matches e

/-- The audit log as the database has it: its rows, and the order in which a query finds
them; and how names of tenants are resolved and quoted. -/
structure AuditServer where
  rows : List AuditWriteLog
  scan : List AuditWriteLog → List AuditWriteLog
  perm : ∀ l, (scan l).Perm l
  resolveTenant : Option (String → Option String) := none
  quote : String → String := id

/-- `QueryAuditWriteLog`, the query, without its limit. -/
def offsetRows (S : AuditServer) (f : AuditFilter) (offset : ℕ) : List AuditWriteLog :=
  ((S.scan (S.rows.filter f.selects)).insertionSort fun e e' => e'.createdAt ≤ e.createdAt).drop
    offset

/-- `QueryAuditWriteLogKeyset`, the query, without its limit. -/
def keysetRows (S : AuditServer) (f : AuditFilter) (time : ℤ) (id : String) :
    List AuditWriteLog :=
  (S.rows.filter fun e => f.selects e && (e.createdAt < time || e.createdAt = time && e.id < id))
    |>.insertionSort fun e e' => e'.key ≤ e.key

/-- The rows from a position on, if the identifier of its cursor is one. -/
def rowsFrom (S : AuditServer) (f : AuditFilter) : PagePosition → Option (List AuditWriteLog)
  | .first => some (offsetRows S f 0)
  | .offset n => some (offsetRows S f n.toNat)
  | .cursor c => (stringToUUID c.id).map (keysetRows S f (truncateMicro c.time))

/-- The `UUID` that is filtered by; no tenant is a null. -/
def tenantUUID (tenantID : String) : Option String :=
  if tenantID = "" then some "" else stringToUUID (textBytes tenantID)

def queryAuditWriteLog (S : AuditServer) (f : AuditFilter) (limit : ℤ) (pos : PagePosition) :
    Option (List AuditWriteLog) := do
  let id ← tenantUUID f.tenantID
  let rows ← rowsFrom S { f with tenantID := id } pos
  some (rows.take limit.toNat)

/-! ### The service -/

structure QueryWriteLogRequest where
  tenantId : Option String := none
  actor : Option String := none
  fieldPath : Option String := none
  startTime : Option ℤ := none
  endTime : Option ℤ := none
  pageSize : ℤ := 0
  pageToken : String := ""

structure QueryWriteLogResponse where
  entries : List PbAuditEntry
  nextPageToken : String

/-- `resolveTenantID` of the audit service. -/
def resolveAuditTenant (S : AuditServer) (idOrName : String) : Except Status String :=
  if idOrName = "" then .error ⟨.invalidArgument, "tenant id or name required"⟩
  else if isUUID idOrName then .ok idOrName
  else
    match S.resolveTenant with
    | none => .error ⟨.invalidArgument, "invalid tenant id"⟩
    | some resolve =>
      match resolve idOrName with
      | some id => .ok id
      | none => .error ⟨.notFound, "tenant " ++ S.quote idOrName ++ " not found"⟩

/-- The tenant that a request is about, if the caller may ask for it: a caller who is no
superadmin has to name one. -/
def queriedTenant (S : AuditServer) (caller : Caller) (tenantId : Option String) :
    Except Status String :=
  match tenantId with
  | some idOrName => do
      let resolved ← resolveAuditTenant S idOrName
      tenantScopeGuard caller .read { tenantID := resolved }
      pure resolved
  | none =>
    if (caller.claims.all fun claims => claims.role = .superadmin) = true then .ok ""
    else .error ⟨.permissionDenied, "tenant_id required for non-superadmin callers"⟩

def nextAuditToken (pos : PagePosition) (pageSize : ℤ) (entries : List AuditWriteLog) : String :=
  match pos with
  | .offset n => nextPageToken pageSize entries.length n
  | _ =>
    if pageSize < entries.length then
      ((entries.drop (pageSize.toNat - 1)).head?.map fun last =>
        encodeCursorToken ⟨last.createdAt, textBytes last.id⟩).getD ""
    else ""

def queryWriteLog (S : AuditServer) (J : AuditJSON) (caller : Caller)
    (req : QueryWriteLogRequest) : Except Status QueryWriteLogResponse := do
  mustHaveClaims caller
  let pageSize := clampPageSize req.pageSize 50 500
  let pos ← (decodeTokenKind req.pageToken).mapError fun e => (⟨.invalidArgument, e⟩ : Status)
  let tenantID ← queriedTenant S caller req.tenantId
  let filter : AuditFilter :=
    ⟨tenantID, derefString req.actor, derefString req.fieldPath, req.startTime, req.endTime⟩
  match queryAuditWriteLog S filter (pageSize + 1) pos with
  | none => .error ⟨.internal, "failed to query audit log"⟩
  | some entries =>
    .ok ⟨(entries.take pageSize.toNat).map (auditEntryToProto J),
      nextAuditToken pos pageSize entries⟩

/-! ### The rows after a cursor -/

/-- The rows by time and identifier, the newest first. -/
def newestFirst (rows : List AuditWriteLog) : List AuditWriteLog :=
  rows.insertionSort fun e e' => e'.key ≤ e.key

/-- What the columns of the log are: identifiers are unique and `UUID`s, times have microseconds
and are in the range of `UnixNano`. -/
structure LogColumns (rows : List AuditWriteLog) : Prop where
  ids : (rows.map AuditWriteLog.id).Nodup
  uuids : ∀ e ∈ rows, IsUUIDText e.id
  micros : ∀ e ∈ rows, truncateMicro e.createdAt = e.createdAt
  range : ∀ e ∈ rows, -2 ^ 63 ≤ e.createdAt ∧ e.createdAt < 2 ^ 63

section Rows

variable {S : AuditServer} {f : AuditFilter} {l l' A B : List AuditWriteLog} {r : AuditWriteLog}

theorem nodup_keys (hids : (l.map AuditWriteLog.id).Nodup) : (l.map AuditWriteLog.key).Nodup := by
  have hmap : (l.map AuditWriteLog.key).map (fun k => (ofLex k).2) = l.map AuditWriteLog.id :=
    map_map
  exact .of_map (fun k => (ofLex k).2) (hmap ▸ hids)

theorem key_lt_iff {e e' : AuditWriteLog} :
    e.key < e'.key ↔ e.createdAt < e'.createdAt ∨ e.createdAt = e'.createdAt ∧ e.id < e'.id :=
  Prod.Lex.toLex_lt_toLex

theorem keysetRows_eq_below (r : AuditWriteLog) : keysetRows S f r.createdAt r.id =
      KeysetPages.below AuditWriteLog.key (S.rows.filter f.selects) r.key := by
  have hrows : (S.rows.filter fun e => f.selects e &&
      (e.createdAt < r.createdAt || e.createdAt = r.createdAt && e.id < r.id)) =
        (S.rows.filter f.selects).filter fun e => e.key < r.key := by
    rw [filter_filter]
    refine filter_congr fun e _ => ?_
    rw [Bool.and_comm]
    congr 1
    rw [Bool.eq_iff_iff]
    simp [key_lt_iff]
  rw [keysetRows, hrows]
  rfl

/-- **A cursor continues** after its row. -/
theorem keysetRows_eq (hids : (S.rows.map AuditWriteLog.id).Nodup)
    (h : newestFirst (S.rows.filter f.selects) = A ++ r :: B) :
    keysetRows S f r.createdAt r.id = B := by
  have hids' : ((S.rows.filter f.selects).map AuditWriteLog.id).Nodup :=
    hids.sublist (filter_sublist.map _)
  rw [keysetRows_eq_below]
  exact KeysetPages.below_eq (nodup_keys hids') h

theorem rowsFrom_cursor (hS : LogColumns S.rows) (hr : r ∈ S.rows) :
    rowsFrom S f (.cursor ⟨unixNano r.createdAt, textBytes r.id⟩) =
      some (keysetRows S f r.createdAt r.id) := by
  have hid : stringToUUID (textBytes r.id) = some r.id := hS.uuids r hr
  rw [rowsFrom, hid, Option.map_some, unixNano_eq_self (hS.range r hr), hS.micros r hr]

end Rows

/-! ### The answer to a request -/

def rowToken (e : AuditWriteLog) : String :=
  encodeCursorToken ⟨e.createdAt, textBytes e.id⟩

/-- **The request is allowed and asks** for the rows that the filter selects. -/
structure Asks (S : AuditServer) (caller : Caller) (req : QueryWriteLogRequest) (f : AuditFilter) :
    Prop where
  claims : mustHaveClaims caller = .ok ()
  tenant : ∃ T, queriedTenant S caller req.tenantId = .ok T ∧ tenantUUID T = some f.tenantID
  filter : f = ⟨f.tenantID, derefString req.actor, derefString req.fieldPath, req.startTime,
    req.endTime⟩

/-- The token behind a page, of which one row more was asked for. -/
theorem nextToken_eq {α β : Type} {token : α → String} (out : α → β) {size : ℤ} (hsize : 0 < size)
    (l : List α) :
    (if size < (l.take (size + 1).toNat).length then
        (((l.take (size + 1).toNat).drop (size.toNat - 1)).head?.map token).getD ""
      else "") = (KeysetPages.pageOf out token size.toNat l).2 := by
  obtain ⟨n, rfl⟩ := Int.eq_ofNat_of_zero_le hsize.le
  have hpos : 0 < n := by omega
  have hnat : ((n : ℤ) + 1).toNat = n + 1 := by omega
  rw [Int.toNat_natCast, ← KeysetPages.pageOf_take hpos, KeysetPages.pageOf, head?_drop, hnat]
  simp only [Nat.cast_lt]

/-- **The answer to a request**, from the rows at its position. -/
theorem queryWriteLog_of_rows {S : AuditServer} {J : AuditJSON} {caller : Caller}
    {req : QueryWriteLogRequest} {f : AuditFilter} {pos : PagePosition}
    {rows : List AuditWriteLog} (h : Asks S caller req f)
    (hpos : decodeTokenKind req.pageToken = .ok pos) (hkind : ∀ n, pos ≠ .offset n)
    (hrows : rowsFrom S f pos = some rows) :
    queryWriteLog S J caller req =
      let page := KeysetPages.pageOf (auditEntryToProto J) rowToken
        (clampPageSize req.pageSize 50 500).toNat rows
      .ok ⟨page.1, page.2⟩ := by
  obtain ⟨T, hT, huuid⟩ := h.tenant
  have hsize : 0 < clampPageSize req.pageSize 50 500 :=
    clampPageSize_pos req.pageSize (by decide) (by decide)
  have hquery : queryAuditWriteLog S
      ⟨T, derefString req.actor, derefString req.fieldPath, req.startTime, req.endTime⟩
      (clampPageSize req.pageSize 50 500 + 1) pos =
        some (rows.take (clampPageSize req.pageSize 50 500 + 1).toNat) := by
    simp only [queryAuditWriteLog, huuid, Option.bind_eq_bind, Option.bind_some]
    rw [← h.filter, hrows, Option.bind_some]
  have htoken : nextAuditToken pos (clampPageSize req.pageSize 50 500)
      (rows.take (clampPageSize req.pageSize 50 500 + 1).toNat) =
        (KeysetPages.pageOf (auditEntryToProto J) rowToken
          (clampPageSize req.pageSize 50 500).toNat rows).2 := by
    rw [← nextToken_eq _ hsize, nextAuditToken]
    · rfl
    · exact hkind
  have htake : (rows.take (clampPageSize req.pageSize 50 500 + 1).toNat).take
      (clampPageSize req.pageSize 50 500).toNat =
        rows.take (clampPageSize req.pageSize 50 500).toNat := by
    rw [take_take, Nat.min_eq_left (by omega)]
  rw [queryWriteLog, h.claims]
  simp only [hpos, Except.mapError, hT, bind, Except.bind, hquery, htoken, htake]
  rfl

end Decree
