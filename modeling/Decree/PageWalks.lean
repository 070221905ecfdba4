import Decree.AuditQuery
import Decree.System

/-!
# Walking the Pages of the Audit Log and of the Tenants

A caller lists the audit log with `QueryWriteLog`, or the tenants with `ListTenants`, from the
empty page token on. The first page is read by a query that orders by `created_at` only and leaves
the order of ties to the database. The other pages are read from the cursor of the last row, in the
order of `created_at` and `id`. So a tie that goes beyond the first page may be cut at a place that
is none of the second order: rows of it are then skipped, or listed twice. Entries of the audit log
without a tenant are never listed, because the database hides them from the queries.

## Main results

* `pageWalks_complete_iff`: when the walks are complete.
-/

open Go KeysetPages List

namespace Decree

/-! ### The audit log -/

section AuditLog

variable {S : AuditServer} {J : AuditJSON} {caller : Caller} {req : QueryWriteLogRequest}
  {f : AuditFilter}

def logPage (S : AuditServer) (J : AuditJSON) (caller : Caller) (req : QueryWriteLogRequest)
    (token : String) : Except Status (List PbAuditEntry × String) :=
  (queryWriteLog S J caller { req with pageToken := token }).map fun resp =>
    (resp.entries, resp.nextPageToken)

/-- A page of the log. -/
theorem logPage_of_rows (h : Asks S caller req f) {token : String} {pos : PagePosition}
    {rows : List AuditWriteLog} (hpos : decodeTokenKind token = .ok pos)
    (hkind : ∀ n, pos ≠ .offset n) (hrows : rowsFrom S f pos = some rows) :
    logPage S J caller req token =
      .ok (pageOf (auditEntryToProto J) rowToken (listPageSize req.pageSize) rows) := by
  have hasks : Asks S caller { req with pageToken := token } f := ⟨h.claims, h.tenant, h.filter⟩
  rw [logPage, queryWriteLog_of_rows hasks hpos hkind hrows]
  rfl

/-- The log is served by keys. -/
theorem served_logPage (hS : LogColumns S.rows) (h : Asks S caller req f) :
    Served AuditWriteLog.key (logPage S J caller req) (auditEntryToProto J) rowToken
      (listPageSize req.pageSize) (S.rows.filter f.selects) (offsetRows S f 0) where
  pos := (listPageSize_spec req.pageSize).2
  keys := nodup_keys (hS.ids.sublist (filter_sublist.map _))
  perm := (perm_insertionSort _ _).trans (S.perm _)
  token_ne := fun r _ => encodeCursorToken_ne_empty _
  serve_first := logPage_of_rows h rfl nofun rfl
  serve_token := by
    intro r hr
    have hmem : r ∈ S.rows := filter_sublist.subset hr
    have hdec : decodeTokenKind (rowToken r) =
        .ok (.cursor ⟨unixNano r.createdAt, textBytes r.id⟩) :=
      decodeTokenKind_encodeCursorToken (hS.uuids r hmem).bytes_ne_nil
    rw [← keysetRows_eq_below]
    exact logPage_of_rows h hdec nofun (rowsFrom_cursor hS hmem)

/-- Entries are told apart in a reply. -/
theorem injOn_auditEntryToProto (hS : LogColumns S.rows) :
    Set.InjOn (auditEntryToProto J) {e | e ∈ S.rows.filter f.selects} := by
  intro e he e' he' heq
  have hid : e.id = e'.id := congrArg PbAuditEntry.id heq
  exact inj_on_of_nodup_map hS.ids (filter_sublist.subset he) (filter_sublist.subset he') hid

/-- When a walk over the log is complete. -/
theorem visits_selected_iff (hS : LogColumns S.rows) (h : Asks S caller req f) :
    Visits (logPage S J caller req) ((S.rows.filter f.selects).map (auditEntryToProto J)) ↔
      TiesFit AuditWriteLog.createdAt AuditWriteLog.id (listPageSize req.pageSize)
        (offsetRows S f 0) :=
  (served_logPage hS h).visits_iff_ties (injOn_auditEntryToProto hS) (pairwise_insertionSort _ _)

/-- The walk lists the entries that match the filter if they are all visible, and the first page
cuts no tie wrong. -/
theorem visits_logPage_iff (hS : LogColumns S.rows) (h : Asks S caller req f) :
    Visits (logPage S J caller req) ((S.rows.filter f.matches).map (auditEntryToProto J)) ↔
      (∀ e ∈ S.rows, f.matches e = true → e.tenantID ≠ "") ∧
        TiesFit AuditWriteLog.createdAt AuditWriteLog.id (listPageSize req.pageSize)
          (offsetRows S f 0) := by
  have hsame (hall : ∀ e ∈ S.rows, f.matches e = true → e.tenantID ≠ "") :
      S.rows.filter f.matches = S.rows.filter f.selects := by
    refine filter_congr fun e he => ?_
    rw [Bool.eq_iff_iff, AuditFilter.selects, Bool.and_eq_true, visibleToPool, decide_eq_true_iff]
    exact (and_iff_right_of_imp (hall e he)).symm
  constructor
  · intro hvisits
    have hall : ∀ e ∈ S.rows, f.matches e = true → e.tenantID ≠ "" := by
      intro e he hmatch
      obtain ⟨l, hl, hp⟩ := hvisits
      obtain ⟨e', he', heq⟩ := (served_logPage hS h).mem_of_follows hl
        (hp.mem_iff.mpr (mem_map_of_mem (mem_filter.mpr ⟨he, hmatch⟩)))
      obtain ⟨hmem, hselects⟩ := mem_filter.mp he'
      have hid : e'.id = e.id := congrArg PbAuditEntry.id heq
      obtain rfl := inj_on_of_nodup_map hS.ids hmem he hid
      rw [AuditFilter.selects, Bool.and_eq_true] at hselects
      simpa [visibleToPool] using hselects.1
    rw [hsame hall] at hvisits
    exact ⟨hall, (visits_selected_iff hS h).mp hvisits⟩
  · rintro ⟨hall, hties⟩
    rw [hsame hall]
    exact (visits_selected_iff hS h).mpr hties

end AuditLog

/-! ### The tenants -/

section Tenants

/-- The tenants of the database: when they were created, and the order in which a query finds
them. -/
structure TenantTable where
  tenants : List Tenant
  createdAt : String → ℤ
  scan : List Tenant → List Tenant
  perm : ∀ l, (scan l).Perm l

structure ListTenantsRequest where
  schemaId : Option String := none
  pageSize : ℤ := 0
  pageToken : String := ""

/-- `AllowedTenantIDs`: no list lets everything pass, and an empty one is none. -/
def Caller.allowedTenantIDs (c : Caller) : Option (List String) :=
  match c.claims with
  | none => none
  | some claims =>
    if claims.role = .superadmin ∨ claims.tenantIDs = [] then none else some claims.tenantIDs

def uuidOf (s : String) : Option String :=
  stringToUUID (textBytes s)

/-- The `WHERE` of the lists of tenants: no schema and no list of identifiers filter nothing. -/
def selectsTenant (schemaID : Option String) (allowed : Option (List String)) (tn : Tenant) :
    Bool :=
  !tn.deleted && schemaID.all (tn.schemaID = ·) && allowed.all (tn.id ∈ ·)

namespace TenantTable

variable (B : TenantTable)

/-- The order of the pages after a cursor. -/
def tenantKey (tn : Tenant) : ℤ ×ₗ String :=
  toLex (B.createdAt tn.id, tn.id)

/-- The order of the first page. -/
def newest (tenants : List Tenant) : List Tenant :=
  (B.scan tenants).insertionSort fun tn tn' => B.createdAt tn'.id ≤ B.createdAt tn.id

/-- The tenants from a position on, if the identifier of its cursor is one. -/
def tenantsFrom (tenants : List Tenant) : PagePosition → Option (List Tenant)
  | .first => some (B.newest tenants)
  | .offset n => some ((B.newest tenants).drop n.toNat)
  | .cursor c => (stringToUUID c.id).map fun id =>
    (tenants.filter fun tn => B.tenantKey tn < toLex (truncateMicro c.time, id)).insertionSort
      fun tn tn' => B.tenantKey tn' ≤ B.tenantKey tn

/-- `PGStore.ListTenants` and `PGStore.ListTenantsBySchema`. -/
def listTenants (schemaID : Option String) (allowed : Option (List String)) (limit : ℤ)
    (pos : PagePosition) : Option (List Tenant) := do
  let schema ← schemaID.mapM uuidOf
  let ids ← allowed.mapM fun ids => ids.mapM uuidOf
  let tenants ← B.tenantsFrom (B.tenants.filter (selectsTenant schema ids)) pos
  some (tenants.take limit.toNat)

def nextTenantToken (pos : PagePosition) (pageSize : ℤ) (tenants : List Tenant) : String :=
  match pos with
  | .offset n => nextPageToken pageSize tenants.length n
  | _ =>
    if pageSize < tenants.length then
      ((tenants.drop (pageSize.toNat - 1)).head?.map fun last =>
        encodeCursorToken ⟨B.createdAt last.id, textBytes last.id⟩).getD ""
    else ""

end TenantTable

/-- The schema that tenants are listed by: none where the request names none. -/
def listedSchema (schemaId : Option String) : Except Status (Option String) :=
  match schemaId.filter (· ≠ "") with
  | none => .ok none
  | some id =>
    if isUUID id then .ok (some id) else .error ⟨.invalidArgument, "invalid schema id"⟩

def listTenants (B : TenantTable) (caller : Caller) (req : ListTenantsRequest) :
    Except Status (List Tenant × String) := do
  mustHaveClaims caller
  let pageSize := clampPageSize req.pageSize 50 500
  let pos ← (decodeTokenKind req.pageToken).mapError fun e => (⟨.invalidArgument, e⟩ : Status)
  let schemaID ← listedSchema req.schemaId
  match B.listTenants schemaID caller.allowedTenantIDs (pageSize + 1) pos with
  | none => .error ⟨.internal, "failed to list tenants"⟩
  | some tenants =>
    .ok (tenants.take pageSize.toNat, B.nextTenantToken pos pageSize tenants)

/-- What the columns of the tenants are: identifiers are unique and `UUID`s, times have
microseconds and are in the range of `UnixNano`. -/
structure TenantColumns (B : TenantTable) : Prop where
  ids : (B.tenants.map Tenant.id).Nodup
  uuids : ∀ tn ∈ B.tenants, IsUUIDText tn.id
  micros : ∀ tn ∈ B.tenants, truncateMicro (B.createdAt tn.id) = B.createdAt tn.id
  range : ∀ tn ∈ B.tenants, -2 ^ 63 ≤ B.createdAt tn.id ∧ B.createdAt tn.id < 2 ^ 63

def tenantPage (B : TenantTable) (caller : Caller) (req : ListTenantsRequest) (token : String) :
    Except Status (List Tenant × String) :=
  listTenants B caller { req with pageToken := token }

variable {B : TenantTable} {caller : Caller} {req : ListTenantsRequest} {select : Tenant → Bool}
  {tenants : List Tenant}

/-- **The request is allowed and asks** for the tenants that the predicate selects. -/
structure AsksTenants (caller : Caller) (req : ListTenantsRequest) (select : Tenant → Bool) :
    Prop where
  claims : mustHaveClaims caller = .ok ()
  filter : ∃ schemaID schema ids, listedSchema req.schemaId = .ok schemaID ∧
    schemaID.mapM uuidOf = some schema ∧
    (caller.allowedTenantIDs.mapM fun ids => ids.mapM uuidOf) = some ids ∧
    select = selectsTenant schema ids

def tenantToken (B : TenantTable) (tn : Tenant) : String :=
  encodeCursorToken ⟨B.createdAt tn.id, textBytes tn.id⟩

/-- A page of tenants. -/
theorem tenantPage_of_rows (h : AsksTenants caller req select) {token : String} {pos : PagePosition}
    (hpos : decodeTokenKind token = .ok pos) (hkind : ∀ n, pos ≠ .offset n)
    (hrows : B.tenantsFrom (B.tenants.filter select) pos = some tenants) :
    tenantPage B caller req token =
      .ok (pageOf id (tenantToken B) (listPageSize req.pageSize) tenants) := by
  obtain ⟨schemaID, schema, ids, hlisted, hschema, hids, rfl⟩ := h.filter
  have hsize : 0 < clampPageSize req.pageSize 50 500 :=
    clampPageSize_pos req.pageSize (by decide) (by decide)
  have hlist : B.listTenants schemaID caller.allowedTenantIDs
      (clampPageSize req.pageSize 50 500 + 1) pos =
        some (tenants.take (clampPageSize req.pageSize 50 500 + 1).toNat) := by
    simp only [TenantTable.listTenants, hschema, hids, hrows, Option.bind_eq_bind, Option.bind_some]
  have htoken : B.nextTenantToken pos (clampPageSize req.pageSize 50 500)
      (tenants.take (clampPageSize req.pageSize 50 500 + 1).toNat) =
        (pageOf id (tenantToken B) (listPageSize req.pageSize) tenants).2 := by
    rw [listPageSize, ← nextToken_eq _ hsize, TenantTable.nextTenantToken]
    · rfl
    · exact hkind
  have htake : (tenants.take (clampPageSize req.pageSize 50 500 + 1).toNat).take
      (clampPageSize req.pageSize 50 500).toNat =
        tenants.take (clampPageSize req.pageSize 50 500).toNat := by
    rw [take_take, Nat.min_eq_left (by omega)]
  simp only [tenantPage, listTenants, h.claims, hpos, hlisted, hlist, htake, htoken,
    Except.mapError, bind, Except.bind]
  rw [pageOf, map_id]
  rfl

theorem nodup_tenantKeys (hids : (tenants.map Tenant.id).Nodup) :
    (tenants.map B.tenantKey).Nodup := by
  have hmap : (tenants.map B.tenantKey).map (fun k => (ofLex k).2) = tenants.map Tenant.id :=
    map_map
  exact .of_map (fun k => (ofLex k).2) (hmap ▸ hids)

/-- Tenants are served by keys. -/
theorem served_tenantPage (hcols : TenantColumns B) (h : AsksTenants caller req select) :
    Served B.tenantKey (tenantPage B caller req) id (tenantToken B) (listPageSize req.pageSize)
      (B.tenants.filter select)
      (B.newest (B.tenants.filter select)) where
  pos := (listPageSize_spec req.pageSize).2
  keys := nodup_tenantKeys (hcols.ids.sublist (filter_sublist.map _))
  perm := (perm_insertionSort _ _).trans (B.perm _)
  token_ne := fun r _ => encodeCursorToken_ne_empty _
  serve_first := tenantPage_of_rows h rfl nofun rfl
  serve_token := by
    intro tn hr
    have hmem : tn ∈ B.tenants := filter_sublist.subset hr
    have hdec : decodeTokenKind (tenantToken B tn) =
        .ok (.cursor ⟨unixNano (B.createdAt tn.id), textBytes tn.id⟩) :=
      decodeTokenKind_encodeCursorToken (hcols.uuids tn hmem).bytes_ne_nil
    refine tenantPage_of_rows h hdec nofun ?_
    have hid : stringToUUID (textBytes tn.id) = some tn.id := hcols.uuids tn hmem
    rw [TenantTable.tenantsFrom, hid, Option.map_some, unixNano_eq_self (hcols.range tn hmem),
      hcols.micros tn hmem]
    rfl

/-- When a walk over tenants is complete. -/
theorem visits_tenantPage_iff (hcols : TenantColumns B) (h : AsksTenants caller req select) :
    Visits (tenantPage B caller req) (B.tenants.filter select) ↔
      TiesFit (fun tn => B.createdAt tn.id) Tenant.id (listPageSize req.pageSize)
        (B.newest (B.tenants.filter select)) := by
  have hiff := (served_tenantPage hcols h).visits_iff_ties (Set.injOn_id _)
    (pairwise_insertionSort _ _)
  rwa [map_id] at hiff

end Tenants

/-! ### Both walks -/

/-- **The walks are complete if and only if the first page cuts no tie wrong**, and no entry that
matches is without a tenant. From the empty token on, the pages of a static audit log, or of a
static table of tenants, list every row that the request asks for exactly once, under this
condition and no other: if there are more rows than the first page has, then of the rows with the
`created_at` of its last row exactly those are on it whose `id` is not below that of the last
row. -/
theorem pageWalks_complete_iff (caller : Caller) :
    (∀ (S : AuditServer) (J : AuditJSON) (req : QueryWriteLogRequest)
        (f : AuditFilter), LogColumns S.rows → Asks S caller req f →
      (Visits (logPage S J caller req) ((S.rows.filter f.matches).map (auditEntryToProto J)) ↔
        (∀ e ∈ S.rows, f.matches e = true → e.tenantID ≠ "") ∧
          TiesFit AuditWriteLog.createdAt AuditWriteLog.id (listPageSize req.pageSize)
            (offsetRows S f 0))) ∧
    (∀ (B : TenantTable) (req : ListTenantsRequest) (select : Tenant → Bool),
        TenantColumns B → AsksTenants caller req select →
      (Visits (tenantPage B caller req) (B.tenants.filter select) ↔
        TiesFit (fun tn => B.createdAt tn.id) Tenant.id (listPageSize req.pageSize)
          (B.newest (B.tenants.filter select)))) :=
  ⟨fun _ _ _ _ hS h => visits_logPage_iff hS h, fun _ _ _ hcols h =>
    visits_tenantPage_iff hcols h⟩

namespace Sample

def tiedEntry (digit : String) : AuditWriteLog :=
  ⟨(stamp digit 1000).id, chainTenant, "root", "set_field", "", some "a", none, some "7", some 1,
    [], "", "", 1, 1000⟩

def tiedLog (rows : List AuditWriteLog) : AuditServer where
  rows := rows
  scan := id
  perm := List.Perm.refl

def tiedTenant (digit : String) : Tenant :=
  ⟨(stamp digit 1000).id, "acme-" ++ digit, "s", 1, false⟩

def tiedTenants (tenants : List Tenant) : TenantTable where
  tenants := tenants
  createdAt _ := 1000
  scan := id
  perm := List.Perm.refl

noncomputable def tiedJSON : AuditJSON :=
  auditJSON hasher.sha256

theorem tiedLog_columns {rows : List AuditWriteLog}
    (h : rows.Perm [tiedEntry "1", tiedEntry "2"]) : LogColumns rows where
  ids := (h.map _).nodup_iff.mpr (by decide)
  uuids e he := by
    have hall : ∀ e ∈ [tiedEntry "1", tiedEntry "2"], IsUUIDText e.id := by decide +kernel
    exact hall e (h.mem_iff.mp he)
  micros e he := by
    have hall : ∀ e ∈ [tiedEntry "1", tiedEntry "2"],
        truncateMicro e.createdAt = e.createdAt := by decide
    exact hall e (h.mem_iff.mp he)
  range e he := by
    have hall : ∀ e ∈ [tiedEntry "1", tiedEntry "2"],
        -2 ^ 63 ≤ e.createdAt ∧ e.createdAt < 2 ^ 63 := by decide
    exact hall e (h.mem_iff.mp he)

theorem tiedTenants_columns {tenants : List Tenant}
    (h : tenants.Perm [tiedTenant "1", tiedTenant "2"]) : TenantColumns (tiedTenants tenants) where
  ids := (h.map _).nodup_iff.mpr (by decide)
  uuids tn htn := by
    have hall : ∀ tn ∈ [tiedTenant "1", tiedTenant "2"], IsUUIDText tn.id := by decide +kernel
    exact hall tn (h.mem_iff.mp htn)
  micros _ _ := by
    change truncateMicro 1000 = 1000
    decide
  range _ _ := by
    change (-2 ^ 63 : ℤ) ≤ 1000 ∧ (1000 : ℤ) < 2 ^ 63
    decide

theorem asks_all (rows : List AuditWriteLog) :
    Asks (tiedLog rows) superadmin { pageSize := 1 } {} :=
  ⟨rfl, ⟨"", rfl, rfl⟩, rfl⟩

theorem asksTenants_all : AsksTenants superadmin { pageSize := 1 } (selectsTenant none none) :=
  ⟨rfl, none, none, none, rfl, rfl, rfl, rfl⟩

end Sample

open Sample

/-- Where the higher identifier comes first, the walks are complete. -/
theorem pageWalks_complete_descending : Visits (logPage (tiedLog [tiedEntry "2", tiedEntry "1"])
      tiedJSON superadmin { pageSize := 1 })
      ([tiedEntry "2", tiedEntry "1"].map (auditEntryToProto tiedJSON)) ∧
    Visits (tenantPage (tiedTenants [tiedTenant "2", tiedTenant "1"])
      superadmin { pageSize := 1 }) [tiedTenant "2", tiedTenant "1"] := by
  have hwalks := pageWalks_complete_iff superadmin
  refine ⟨(hwalks.1 _ tiedJSON _ _ (tiedLog_columns (.swap _ _ _))
    (asks_all _)).mpr ?_, (hwalks.2 _ _ _
      (tiedTenants_columns (.swap _ _ _)) asksTenants_all).mpr ?_⟩
  · have hfirst : offsetRows (tiedLog [tiedEntry "2", tiedEntry "1"]) {} 0 =
        [tiedEntry "2", tiedEntry "1"] := by decide +kernel
    rw [hfirst]
    refine ⟨by decide, ?_⟩
    rintro - r ⟨⟩
    decide +kernel
  · have hfirst : (tiedTenants [tiedTenant "2", tiedTenant "1"]).newest
        ((tiedTenants [tiedTenant "2", tiedTenant "1"]).tenants.filter
          (selectsTenant none none)) = [tiedTenant "2", tiedTenant "1"] := by
      decide +kernel
    rw [hfirst]
    rintro - r ⟨⟩
    decide +kernel

/-- **A tie may be skipped**: where the lower identifier comes first, the walk over two entries
of one time, or over two tenants of one time, ends after the first. -/
theorem pageWalks_skip_tie : (Follows (logPage (tiedLog [tiedEntry "1", tiedEntry "2"])
        tiedJSON superadmin { pageSize := 1 }) ""
        [auditEntryToProto tiedJSON (tiedEntry "1")] ∧
      ¬ Visits (logPage (tiedLog [tiedEntry "1", tiedEntry "2"])
        tiedJSON superadmin { pageSize := 1 })
        ([tiedEntry "1", tiedEntry "2"].map (auditEntryToProto tiedJSON))) ∧
    (Follows (tenantPage (tiedTenants [tiedTenant "1", tiedTenant "2"])
        superadmin { pageSize := 1 }) "" [tiedTenant "1"] ∧
      ¬ Visits (tenantPage (tiedTenants [tiedTenant "1", tiedTenant "2"])
        superadmin { pageSize := 1 }) [tiedTenant "1", tiedTenant "2"]) := by
  constructor
  · have hwalk := (served_logPage (J := tiedJSON)
      (tiedLog_columns (.refl _)) (asks_all _)).follows_long
      (r := tiedEntry "1") (by decide +kernel) (by decide +kernel)
    exact ⟨hwalk, hwalk.not_visits fun hp => absurd hp.length_eq (by decide)⟩
  · have hwalk := (served_tenantPage (B := tiedTenants [tiedTenant "1", tiedTenant "2"])
      (tiedTenants_columns (.refl _)) asksTenants_all).follows_long
      (r := tiedTenant "1") (by decide +kernel) (by decide +kernel)
    exact ⟨hwalk, hwalk.not_visits fun hp => absurd hp.length_eq (by decide)⟩

end Decree
