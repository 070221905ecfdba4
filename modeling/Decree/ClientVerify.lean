import Decree.AuditQuery

/-!
# Verifying a Chain from the Admin Client

`VerifyChain` of the admin client (`sdk/adminclient/audit.go`) fetches the pages of the write log,
newest first, walks them backwards with a running hash, and checks that the oldest entry has none
before it. With a tenant the pages are the chain of that tenant. Without one they are the chains of
all tenants, mixed by time, and nothing of the global one, which the database hides from the query.

The loop over the pages has fuel; a request that fails ends it. Retries are left out.

## Main results

* `fetchPages_eq`: the pages are the selected rows.
* `clientVerifyChain_right_iff`: when the verification is right.
-/

namespace Decree

open Go HashChain List

/-! ### The client -/

/-- `adminclient.VerifyChainBreak`. -/
structure ClientBreak where
  entryID : String
  position : ℕ
  got : String
  want : String
  reason : String := ""
deriving DecidableEq

/-- `adminclient.VerifyChainResult`. -/
structure ClientResult where
  tenantID : String
  total : ℕ
  breaks : List ClientBreak
  ok : Bool
deriving DecidableEq

variable (S : AuditServer) (J : AuditJSON) (caller : Caller)

/-- The loop over the pages, from a token on. -/
def fetchPages (tenantId : Option String) :
    ℕ → String → Option (Except Status (List (List ClientEntry)))
  | 0, _ => none
  | fuel + 1, token =>
    match queryWriteLog S J caller
        { tenantId := tenantId, pageSize := 100, pageToken := token } with
    | .error e => some (.error e)
    | .ok resp =>
      let page := resp.entries.map auditEntryFromProto
      let pages := if 0 < page.length then [page] else []
      if resp.nextPageToken = "" then some (.ok pages)
      else (fetchPages tenantId fuel resp.nextPageToken).map (Except.map (pages ++ ·))

def oldestFirst (pages : List (List ClientEntry)) : List ClientEntry :=
  pages.reverse.flatMap List.reverse

/-- The walk with the running hash, from a position on. -/
def clientWalk : ℕ → String → List ClientEntry → List ClientBreak
  | _, _, [] => []
  | pos, prev, e :: entries =>
    let want := computeClientHash J prev e
    (if e.entryHash ≠ want then [⟨e.id, pos, e.entryHash, want, ""⟩] else []) ++
      clientWalk (pos + 1) e.entryHash entries

/-- The break of a chain whose beginning is missing. -/
def genesisBreak (oldest : ClientEntry) : List ClientBreak :=
  if oldest.previousHash ≠ "" then
    [⟨oldest.id, 0, oldest.previousHash, "",
      "chain is truncated: oldest entry has non-empty previous_hash"⟩]
  else []

def verifyPages (tenantID : String) (pages : List (List ClientEntry)) : ClientResult :=
  let breaks := clientWalk J 0 "" (oldestFirst pages)
  let truncated := ((oldestFirst pages).head?.map genesisBreak).getD []
  ⟨tenantID, pages.flatten.length, breaks ++ truncated, breaks.length = 0 && truncated.length = 0⟩

/-- The filter of the requests. -/
def tenantFilter (tenantID : String) : Option String :=
  if tenantID ≠ "" then some tenantID else none

/-- **`VerifyChain`** of the admin client. -/
def clientVerifyChain (tenantID : String) (fuel : ℕ) : Option (Except Status ClientResult) :=
  (fetchPages S J caller (tenantFilter tenantID) fuel "").map (Except.map (verifyPages J tenantID))

variable {S J caller} {tenantID : String}

/-! ### The pages -/

/-- **The caller may ask** for the entries of the tenant, which is named by its identifier, or
for all entries. -/
structure Permitted (caller : Caller) (tenantID : String) : Prop where
  claims : mustHaveClaims caller = .ok ()
  queried : ∀ S, queriedTenant S caller (tenantFilter tenantID) = .ok tenantID
  uuid : tenantID = "" ∨ IsUUIDText tenantID

/-- The filter of the tenant's requests. -/
def ofTenant (tenantID : String) : AuditFilter :=
  { tenantID := tenantID }

/-- What the filter of a tenant selects. -/
theorem ofTenant_selects (tenantID : String) (e : AuditWriteLog) :
    (ofTenant tenantID).selects e ↔
      e.tenantID ≠ "" ∧ (tenantID = "" ∨ e.tenantID = tenantID) := by
  simp only [AuditFilter.selects, AuditFilter.matches, visibleToPool, Bool.and_eq_true,
    Bool.or_eq_true, decide_eq_true_iff]
  simp [ofTenant]

/-- The requests of the client ask for the rows of the tenant. -/
theorem Permitted.asks (hp : Permitted caller tenantID) (token : String) :
    Asks S caller { tenantId := tenantFilter tenantID, pageSize := 100, pageToken := token }
      (ofTenant tenantID) where
  claims := hp.claims
  tenant := by
    refine ⟨tenantID, hp.queried S, ?_⟩
    rcases hp.uuid with rfl | huuid
    · rfl
    · rw [tenantUUID]
      split
      · rename_i h
        exact congrArg some h.symm
      · exact huuid
  filter := rfl

theorem flatten_page (page : List ClientEntry) :
    (if 0 < page.length then [page] else []).flatten = page := by
  cases page with
  | nil => rfl
  | cons e page => simp

/-- **The pages are the rows that the request selects**, in order: what is left of them at a
position is what the loop still fetches. -/
theorem fetchPages_eq (hS : LogColumns S.rows) (hp : Permitted caller tenantID)
    {A B : List AuditWriteLog}
    (hR : newestFirst (S.rows.filter (ofTenant tenantID).selects) = A ++ B) (token : String)
    {pos : PagePosition} (hpos : decodeTokenKind token = .ok pos) (hkind : ∀ n, pos ≠ .offset n)
    (hrows : rowsFrom S (ofTenant tenantID) pos = some B) {fuel : ℕ} (hfuel : B.length < fuel) :
    ∃ pages, fetchPages S J caller (tenantFilter tenantID) fuel token = some (.ok pages) ∧
      pages.flatten = B.map (clientEntry J) := by
  induction fuel generalizing A B token pos with
  | zero => exact absurd hfuel (Nat.not_lt_zero _)
  | succ fuel ih =>
    rw [fetchPages, queryWriteLog_of_rows (hp.asks token) hpos hkind hrows]
    simp only [show (clampPageSize 100 50 500).toNat = 100 from rfl]
    by_cases hlen : B.length ≤ 100
    · rw [KeysetPages.pageOf_short hlen]
      refine ⟨_, if_pos rfl, ?_⟩
      rw [flatten_page, map_map]
      rfl
    · -- the page is full: the hundredth row is where the next one continues
      obtain ⟨B1, B2, hcut, hB1, hB2⟩ := KeysetPages.exists_cut (by decide)
        (Nat.lt_of_not_le hlen) (getElem?_eq_getElem (i := 99) (by omega))
      generalize B[99] = r at hcut
      subst hcut
      have hr : r ∈ S.rows := by
        have hmem : r ∈ newestFirst (S.rows.filter (ofTenant tenantID).selects) := by simp [hR]
        exact filter_sublist.subset ((perm_insertionSort _ _).mem_iff.mp hmem)
      have hid := (hS.uuids r hr).bytes_ne_nil
      have hR' : newestFirst (S.rows.filter (ofTenant tenantID).selects) =
          (A ++ B1) ++ r :: B2 := by
        rw [hR, append_assoc]
      have hdec : decodeTokenKind (rowToken r) =
          .ok (.cursor ⟨unixNano r.createdAt, textBytes r.id⟩) :=
        decodeTokenKind_encodeCursorToken hid
      have hrows' : rowsFrom S (ofTenant tenantID)
          (.cursor ⟨unixNano r.createdAt, textBytes r.id⟩) = some B2 := by
        rw [rowsFrom_cursor hS hr, keysetRows_eq hS.ids hR']
      have hrest : B2.length < fuel := by
        rw [length_append, length_cons] at hfuel
        omega
      obtain ⟨pages, hpages, hflat⟩ := ih (A := A ++ B1 ++ [r]) (by rw [hR']; simp) _ hdec nofun
        hrows' hrest
      have htoken : rowToken r ≠ "" := encodeCursorToken_ne_empty _
      rw [KeysetPages.pageOf_long hB1 hB2, if_neg htoken]
      refine ⟨_, by rw [hpages]; rfl, ?_⟩
      have hpage : ((B1 ++ [r]).map (auditEntryToProto J)).map auditEntryFromProto =
          (B1 ++ [r]).map (clientEntry J) := map_map
      rw [flatten_append, flatten_page, hflat, hpage, ← map_append, append_assoc, singleton_append]

/-! ### Chains -/

/-- The rows of a tenant, or those without one: **the chain** of the tenant, or the global
one. -/
def chainOf (rows : List AuditWriteLog) (tenantID : String) : List AuditWriteLog :=
  rows.filter fun e => e.tenantID = tenantID

/-- **A log of chains**: every chain is linked, has hashes that verify, and increasing times. -/
structure Chained (J : AuditJSON) (rows : List AuditWriteLog) : Prop where
  continues : ∀ T, Continues J.toAuditDB "" (chainOf rows T)
  increasing : ∀ T, (chainOf rows T).Pairwise fun e e' => e.createdAt < e'.createdAt

/-- The client's hash of an entry is the server's. -/
def HashesAgree (J : AuditJSON) (rows : List AuditWriteLog) : Prop :=
  ∀ e ∈ rows, ∀ p, computeClientHash J p (clientEntry J e) =
    computeEntryHash J.toHasher (e.chainInput p)

/-- **The verification is right**: however the database orders rows of one time, the client
fetches exactly the chain, the oldest entry first, and reports it as OK. -/
def VerifiesRight (J : AuditJSON) (caller : Caller) (rows : List AuditWriteLog)
    (tenantID : String) : Prop :=
  ∀ S : AuditServer, S.rows = rows → ∃ n, ∀ fuel ≥ n, ∃ pages,
    fetchPages S J caller (tenantFilter tenantID) fuel "" = some (.ok pages) ∧
      oldestFirst pages = (chainOf rows tenantID).map (clientEntry J) ∧
      clientVerifyChain S J caller tenantID fuel =
        some (.ok ⟨tenantID, (chainOf rows tenantID).length, [], true⟩)

section Chains

variable {rows l : List AuditWriteLog} {tenantID : String}

/-- The pages, oldest entry first. -/
theorem oldestFirst_eq (pages : List (List ClientEntry)) :
    oldestFirst pages = pages.flatten.reverse := by
  rw [oldestFirst, reverse_flatten, flatMap_def, map_reverse]

/-- A chain is found newest first, whatever the order of the scan. -/
theorem insertionSort_of_increasing (hinc : l.Pairwise fun e e' => e.createdAt < e'.createdAt)
    {l' : List AuditWriteLog} (hp : l'.Perm l) :
    l'.insertionSort (fun e e' => e'.createdAt ≤ e.createdAt) = l.reverse := by
  have hp' := (perm_insertionSort (fun e e' : AuditWriteLog => e'.createdAt ≤ e.createdAt)
    l').trans hp
  have hnodup : (l.map AuditWriteLog.createdAt).Nodup :=
    pairwise_map.mpr (hinc.imp fun h => h.ne)
  refine (hp'.trans (reverse_perm l).symm).eq_of_pairwise ?_
    (pairwise_insertionSort _ _) (pairwise_reverse.mpr (hinc.imp le_of_lt))
  intro e e' he he' h h'
  exact inj_on_of_nodup_map hnodup (hp'.mem_iff.mp he) (mem_reverse.mp he') (le_antisymm h' h)

/-- The order of the server is the log reversed. -/
theorem newestFirst_of_increasing (hids : (l.map AuditWriteLog.id).Nodup)
    (hinc : l.Pairwise fun e e' => e.createdAt < e'.createdAt) : newestFirst l = l.reverse := by
  refine (KeysetPages.eq_descending (nodup_keys hids) (reverse_perm l)
    (pairwise_reverse.mpr ?_)).symm
  exact hinc.imp fun h => (key_lt_iff.mpr (.inl h)).le

/-- No break along a chain that checks. -/
theorem clientWalk_eq_nil {prev : String} {pos : ℕ} (hagree : HashesAgree J l)
    (hchecks : Checks AuditWriteLog.entryHash (entryDigest J.toHasher) prev l) :
    clientWalk J pos prev (l.map (clientEntry J)) = [] := by
  induction l generalizing prev pos with
  | nil => rfl
  | cons e l ih =>
    obtain ⟨he, hrest⟩ := forall_mem_cons.mp hchecks
    have hhash : (clientEntry J e).entryHash = computeClientHash J prev (clientEntry J e) :=
      he.trans (hagree e mem_cons_self prev).symm
    rw [map_cons, clientWalk, if_neg (not_not.mpr hhash), nil_append]
    exact ih (fun e' he' => hagree e' (mem_cons_of_mem _ he')) hrest

/-- No break at the first entry. -/
theorem genesisBreak_eq_nil (hlinked : Linked AuditWriteLog.entryHash AuditWriteLog.previousHash
    "" l) : (((l.map (clientEntry J)).head?).map genesisBreak).getD [] = [] := by
  cases l with
  | nil => rfl
  | cons e l =>
    have hprev : e.previousHash = "" := (forall_mem_cons.mp hlinked).1
    change (if e.previousHash ≠ "" then _ else []) = []
    rw [if_neg (not_not.mpr hprev)]

/-- The report on a chain. -/
theorem verifyPages_of_chain {pages : List (List ClientEntry)} (hagree : HashesAgree J l)
    (hcont : Continues J.toAuditDB "" l) (hpages : oldestFirst pages = l.map (clientEntry J)) :
    verifyPages J tenantID pages = ⟨tenantID, l.length, [], true⟩ := by
  have htotal : pages.flatten.length = l.length := by
    rw [← length_reverse, ← oldestFirst_eq, hpages, length_map]
  rw [verifyPages, hpages, clientWalk_eq_nil hagree hcont.checks, genesisBreak_eq_nil hcont.linked,
    htotal]
  rfl

/-- The entries of a request whose rows have increasing times, whatever the order of the
scan. -/
theorem fetchPages_of_increasing (hcols : LogColumns S.rows) (hp : Permitted caller tenantID)
    (hl : S.rows.filter (ofTenant tenantID).selects = l)
    (hinc : l.Pairwise fun e e' => e.createdAt < e'.createdAt) {fuel : ℕ}
    (hfuel : l.length < fuel) :
    ∃ pages, fetchPages S J caller (tenantFilter tenantID) fuel "" = some (.ok pages) ∧
      oldestFirst pages = l.map (clientEntry J) := by
  have hids : (l.map AuditWriteLog.id).Nodup := hcols.ids.sublist ((hl ▸ filter_sublist).map _)
  have hR : newestFirst (S.rows.filter (ofTenant tenantID).selects) = [] ++ l.reverse := by
    rw [hl, newestFirst_of_increasing hids hinc, nil_append]
  have hrows : rowsFrom S (ofTenant tenantID) .first = some l.reverse := by
    rw [rowsFrom, offsetRows, hl, drop_zero, insertionSort_of_increasing hinc (S.perm _)]
  obtain ⟨pages, hpages, hflat⟩ := fetchPages_eq (J := J) hcols hp hR "" rfl (by simp) hrows
    (by rw [length_reverse]; exact hfuel)
  refine ⟨pages, hpages, ?_⟩
  rw [oldestFirst_eq, hflat, ← map_reverse, reverse_reverse]

/-- The report is right on a chain that is selected whole. -/
theorem verifiesRight_of_selects (hcols : LogColumns rows)
    (hchained : Chained J rows) (hagree : HashesAgree J rows) (hp : Permitted caller tenantID)
    (hselects : rows.filter (ofTenant tenantID).selects = chainOf rows tenantID) :
    VerifiesRight J caller rows tenantID := by
  rintro S rfl
  refine ⟨(chainOf S.rows tenantID).length + 1, fun fuel hfuel => ?_⟩
  obtain ⟨pages, hpages, hold⟩ := fetchPages_of_increasing (J := J) hcols hp hselects
    (hchained.increasing tenantID) hfuel
  refine ⟨pages, hpages, hold, ?_⟩
  rw [clientVerifyChain, hpages, Option.map_some, Except.map,
    verifyPages_of_chain (fun e he => hagree e (filter_sublist.subset he))
      (hchained.continues tenantID) hold]
  rfl

/-- Without a tenant the rows of all tenants are fetched, if the scan is by identifier. -/
theorem exists_fetch_visible (hcols : LogColumns rows) (hp : Permitted caller "") :
    ∃ S : AuditServer, S.rows = rows ∧ ∀ fuel, rows.length < fuel → ∃ pages,
      fetchPages S J caller (tenantFilter "") fuel "" = some (.ok pages) ∧
        pages.flatten = (newestFirst (rows.filter visibleToPool)).map (clientEntry J) := by
  let S : AuditServer :=
    { rows := rows, scan := newestFirst, perm := fun l => perm_insertionSort _ _ }
  refine ⟨S, rfl, fun fuel hfuel => ?_⟩
  have hselects : S.rows.filter (ofTenant "").selects = rows.filter visibleToPool := by
    refine filter_congr fun e _ => ?_
    rw [Bool.eq_iff_iff, ofTenant_selects]
    simp [visibleToPool]
  have hids : ((rows.filter visibleToPool).map AuditWriteLog.id).Nodup :=
    hcols.ids.sublist (filter_sublist.map _)
  have hsorted : (newestFirst (rows.filter visibleToPool)).Pairwise
      fun e e' => e'.createdAt ≤ e.createdAt := by
    refine (KeysetPages.pairwise_descending (nodup_keys hids)).imp fun h => ?_
    rcases key_lt_iff.mp h with h | h
    · exact h.le
    · exact h.1.le
  have hrows : rowsFrom S (ofTenant "") .first =
      some (newestFirst (rows.filter visibleToPool)) := by
    rw [rowsFrom, offsetRows, hselects, drop_zero]
    exact congrArg some (List.Pairwise.insertionSort_eq hsorted)
  have hR : newestFirst (S.rows.filter (ofTenant "").selects) =
      [] ++ newestFirst (rows.filter visibleToPool) := by
    rw [hselects, nil_append]
  have hlen : (newestFirst (rows.filter visibleToPool)).length ≤ rows.length :=
    (perm_insertionSort _ _).length_eq.trans_le (length_filter_le _ _)
  exact fetchPages_eq hcols hp hR "" rfl (by simp) hrows (hlen.trans_lt hfuel)

/-- **The verification of the admin client is right** for a tenant, and for the global chain only
if the log is empty: of the entries without a tenant it fetches none, and of the others all. -/
theorem clientVerifyChain_right_iff (hcols : LogColumns rows) (hchained : Chained J rows)
    (hagree : HashesAgree J rows) (hp : Permitted caller tenantID) :
    VerifiesRight J caller rows tenantID ↔ tenantID ≠ "" ∨ rows = [] := by
  constructor
  · intro h
    rw [or_iff_not_imp_left, not_not]
    rintro rfl
    obtain ⟨S, hS, hall⟩ := exists_fetch_visible (J := J) hcols hp
    obtain ⟨n, hn⟩ := h S hS
    obtain ⟨pages, hpages, hold, -⟩ := hn (n + rows.length + 1) (by omega)
    obtain ⟨pages', hpages', hflat⟩ := hall (n + rows.length + 1) (by omega)
    obtain rfl : pages = pages' := Except.ok.inj (Option.some.inj (hpages.symm.trans hpages'))
    have hmem (x : ClientEntry) : x ∈ (rows.filter visibleToPool).map (clientEntry J) ↔
        x ∈ (chainOf rows "").map (clientEntry J) := by
      rw [← hold, oldestFirst_eq, mem_reverse, hflat]
      exact ((perm_insertionSort _ _).map _).mem_iff.symm
    refine eq_nil_iff_forall_not_mem.mpr fun e he => ?_
    by_cases hT : e.tenantID = ""
    · -- an entry of the global chain is not fetched
      obtain ⟨e', he', heq⟩ := mem_map.mp
        ((hmem (clientEntry J e)).mpr (mem_map_of_mem (mem_filter.mpr ⟨he, by simp [hT]⟩)))
      have htenant : e'.tenantID = e.tenantID := congrArg ClientEntry.tenantID heq
      have hvisible : e'.tenantID ≠ "" := by simpa [visibleToPool] using (mem_filter.mp he').2
      exact hvisible (htenant.trans hT)
    · -- an entry of a tenant is fetched, and is not of the global chain
      obtain ⟨e', he', heq⟩ := mem_map.mp ((hmem (clientEntry J e)).mp
        (mem_map_of_mem (mem_filter.mpr ⟨he, by simp [visibleToPool, hT]⟩)))
      have htenant : e'.tenantID = e.tenantID := congrArg ClientEntry.tenantID heq
      have hglobal : e'.tenantID = "" := by simpa using (mem_filter.mp he').2
      exact hT (htenant.symm.trans hglobal)
  · intro h
    refine verifiesRight_of_selects hcols hchained hagree hp ?_
    rcases h with hne | rfl
    · refine filter_congr fun e _ => ?_
      rw [Bool.eq_iff_iff, ofTenant_selects, decide_eq_true_iff, or_iff_right hne]
      exact and_iff_right_of_imp fun h => h ▸ hne
    · rfl

end Chains

/-! ### A log of two chains -/

namespace Sample

def auditor : Caller :=
  ⟨some ⟨.superadmin, [], "root"⟩, false⟩

def deleteSchema : ServerAudit :=
  .deleteSchema "root" "s"

def deleteTenant : ServerAudit :=
  .deleteTenant chainTenant "root"

/-- A log of the two deletions, each the first of its chain. -/
structure IsDeletions (J : AuditJSON) (e e' : AuditWriteLog) : Prop where
  schema : deleteSchema.row J "" (stamp "1" 1000) = some e
  tenant : deleteTenant.row J "" (stamp "2" 2000) = some e'

variable {J : AuditJSON} {e e' : AuditWriteLog}

section

variable (h : IsDeletions J e e')

include h

theorem IsDeletions.columns : (e.id = (stamp "1" 1000).id ∧ e.tenantID = "" ∧ e.createdAt = 1000) ∧
      e'.id = (stamp "2" 2000).id ∧ e'.tenantID = chainTenant ∧ e'.createdAt = 2000 := by
  have hschema := (ServerAudit.row_eq ..).symm.trans h.schema
  have htenant := (ServerAudit.row_eq ..).symm.trans h.tenant
  obtain ⟨_, -, rfl⟩ := Option.map_eq_some_iff.mp hschema
  obtain ⟨_, -, rfl⟩ := Option.map_eq_some_iff.mp htenant
  exact ⟨⟨rfl, rfl, rfl⟩, rfl, rfl, rfl⟩

theorem IsDeletions.logColumns : LogColumns [e, e'] := by
  obtain ⟨⟨hid, -, htime⟩, hid', -, htime'⟩ := h.columns
  constructor
  · simp only [map_cons, map_nil, hid, hid']
    decide
  · simp only [forall_mem_cons, hid, hid']
    decide +kernel
  · simp only [forall_mem_cons, htime, htime']
    decide
  · simp only [forall_mem_cons, htime, htime']
    decide

theorem IsDeletions.increasing : [e, e'].Pairwise fun e e' => e.createdAt < e'.createdAt := by
  obtain ⟨⟨-, -, htime⟩, -, -, htime'⟩ := h.columns
  simp [htime, htime']

theorem IsDeletions.chained : Chained J [e, e'] := by
  have he := continues_cons ((ServerAudit.row_eq ..).symm.trans h.schema) rfl continues_nil
  have he' := continues_cons ((ServerAudit.row_eq ..).symm.trans h.tenant) rfl continues_nil
  obtain ⟨⟨-, hT, -⟩, -, hT', -⟩ := h.columns
  refine ⟨fun T => ?_, fun T => h.increasing.sublist filter_sublist⟩
  -- the chain of a tenant is one of the entries, or has none
  rw [chainOf]
  rcases eq_or_ne "" T with rfl | hne
  · rw [filter_cons_of_pos (by simp [hT]), filter_cons_of_neg (by simp [hT', chainTenant])]
    exact he
  · rw [filter_cons_of_neg (by simpa [hT] using hne)]
    rcases eq_or_ne chainTenant T with rfl | hne'
    · rw [filter_cons_of_pos (by simp [hT'])]
      exact he'
    · rw [filter_cons_of_neg (by simpa [hT'] using hne')]
      exact continues_nil

theorem IsDeletions.hashesAgree : HashesAgree J [e, e'] := by
  rw [HashesAgree, forall_mem_cons, forall_mem_singleton]
  constructor
  · intro p
    exact computeClientHash_of_text ((deleteSchema.clientText_eq_iff h.schema p).mpr trivial)
  · intro p
    exact computeClientHash_of_text ((deleteTenant.clientText_eq_iff h.tenant p).mpr trivial)

end

theorem exists_isDeletions (J : AuditJSON) : ∃ e e', IsDeletions J e e' := by
  have hrow : ∀ (w : ServerAudit) stamp, w.metadata = none → ∃ e, w.row J "" stamp = some e := by
    intro w stamp hw
    rw [ServerAudit.row_eq, auditRow, ServerAudit.params, hw]
    exact ⟨_, by rw [Option.map_none, Option.getD_none, J.jsonb_nil]; rfl⟩
  obtain ⟨e, he⟩ := hrow deleteSchema (stamp "1" 1000) rfl
  obtain ⟨e', he'⟩ := hrow deleteTenant (stamp "2" 2000) rfl
  exact ⟨e, e', he, he'⟩

end Sample

open Sample

theorem clientVerifyChain_right_iff_tenant :
    ∃ (J : AuditJSON) (e e' : AuditWriteLog), IsDeletions J e e' ∧
      VerifiesRight J auditor [e, e'] chainTenant := by
  let J := auditJSON hasher.sha256
  obtain ⟨e, e', h⟩ := exists_isDeletions J
  have hp : Permitted auditor chainTenant := ⟨rfl, fun S => rfl, .inr (by decide +kernel)⟩
  exact ⟨J, e, e', h, (clientVerifyChain_right_iff h.logColumns h.chained h.hashesAgree hp).mpr
    (.inl (by decide))⟩

/-- **Without a tenant the global chain is missed**: of a log of two chains that both verify, the
entry of the tenant is verified, and not the one of the global chain. -/
theorem clientVerifyChain_misses_global : ∃ (J : AuditJSON) (e e' : AuditWriteLog),
    IsDeletions J e e' ∧ LogColumns [e, e'] ∧ Chained J [e, e'] ∧ HashesAgree J [e, e'] ∧
      chainOf [e, e'] "" = [e] ∧
      ∀ S : AuditServer, S.rows = [e, e'] → ∀ fuel ≥ 2, ∃ pages,
        fetchPages S J auditor (tenantFilter "") fuel "" = some (.ok pages) ∧
          oldestFirst pages = [clientEntry J e'] ∧ clientEntry J e' ≠ clientEntry J e ∧
          clientVerifyChain S J auditor "" fuel = some (.ok ⟨"", 1, [], true⟩) := by
  let J := auditJSON hasher.sha256
  obtain ⟨e, e', h⟩ := exists_isDeletions J
  obtain ⟨⟨-, hT, -⟩, -, hT', -⟩ := h.columns
  have hchain : chainOf [e, e'] "" = [e] := by
    rw [chainOf, filter_cons_of_pos (by simp [hT]),
      filter_cons_of_neg (by simp [hT', chainTenant]), filter_nil]
  have htenant : chainOf [e, e'] chainTenant = [e'] := by
    rw [chainOf, filter_cons_of_neg (by simp [hT, chainTenant]), filter_cons_of_pos (by simp [hT']),
      filter_nil]
  refine ⟨J, e, e', h, h.logColumns, h.chained, h.hashesAgree, hchain, fun S hS fuel hfuel => ?_⟩
  have hp : Permitted auditor "" := ⟨rfl, fun S => rfl, .inl rfl⟩
  have hselects : S.rows.filter (ofTenant "").selects = [e'] := by
    have hhidden : ¬ (ofTenant "").selects e := fun hs =>
      ((ofTenant_selects "" e).mp hs).1 hT
    have hshown : (ofTenant "").selects e' :=
      (ofTenant_selects "" e').mpr ⟨by rw [hT']; decide, .inl rfl⟩
    rw [hS, filter_cons_of_neg hhidden, filter_cons_of_pos hshown, filter_nil]
  obtain ⟨pages, hpages, hold⟩ := fetchPages_of_increasing (J := J) (hS ▸ h.logColumns) hp
    hselects (pairwise_singleton _ _) hfuel
  refine ⟨pages, hpages, hold, fun heq => ?_, ?_⟩
  · have hsame : e'.tenantID = e.tenantID := congrArg ClientEntry.tenantID heq
    rw [hT, hT'] at hsame
    exact absurd hsame (by decide)
  · have hcont := h.chained.continues chainTenant
    rw [htenant] at hcont
    rw [clientVerifyChain, hpages, Option.map_some, Except.map, verifyPages_of_chain
      (fun x hx => h.hashesAgree x (mem_cons_of_mem _ hx)) hcont hold]
    rfl

end Decree
