import Mathlib.Data.List.Sort
import Mathlib.Data.Prod.Lex
import Mathlib.Data.String.Basic
import Decree.ChainHash
import Decree.Machine

/-!
# Appending to a Tenant's Audit Chain

The statements that append to the audit chain of one tenant (`internal/config/store_pg.go`,
`internal/schema/store_pg.go`) and those that read it back in order
(`internal/audit/store_pg.go`), as a machine. A transaction takes the advisory lock of the
chain, reads the hash of the last entry, inserts its rows, and commits or rolls back.

"The last entry" is the one with the greatest `(created_at, id)`. Timestamps may be equal and
identifiers are random, so it need not be the entry appended last, and the chain forks. It stays
whole as long as every append ends in the entry that comes last in that order.

## Main results

* `audit_chain_verifies`: the chain of a tenant verifies.
* `audit_chain_forks`: two entries of one microsecond.
* `sortByChain_recovers`: the order is recovered.
-/

namespace Decree

open HashChain

variable {s : AuditState} {op : AuditAppend}
open AuditWriteLog (entryHash previousHash)

/-! ### The rows -/

/-- The database as the chain uses it: a `JSONB` column gives back a text of the same JSON
value, or rejects what is not JSON. -/
structure AuditDB extends Hasher where
  jsonb : List UInt8 → Option (List UInt8)
  normalize_jsonb : ∀ {b b' : List UInt8}, jsonb b = some b' →
    normalizeJSON toHasher b' = normalizeJSON toHasher b

/-- `InsertAuditWriteLogParams`. -/
structure AuditParams where
  tenantID : String
  actor : String
  action : String
  objectKind : String
  fieldPath : Option String := none
  oldValue : Option String := none
  newValue : Option String := none
  configVersion : Option ℤ := none
  metadata : List UInt8 := []

/-- What an insert draws for a row: a random identifier and the time. -/
structure Stamp where
  id : String
  now : ℤ

/-- `Truncate(time.Microsecond)`. -/
def truncateMicro (t : ℤ) : ℤ :=
  t - t % 1000

/-- The row of an entry after the one with this hash: its hash is computed from the
parameters, and the columns are what a reader gets back. -/
def auditRow (D : AuditDB) (tenantID prevHash kind : String) (configVersion : Option ℤ)
    (arg : AuditParams) (stamp : Stamp) : Option AuditWriteLog :=
  (D.jsonb arg.metadata).map fun metadata =>
    { id := stamp.id
      tenantID := tenantID
      actor := arg.actor
      action := arg.action
      objectKind := kind
      fieldPath := arg.fieldPath
      oldValue := arg.oldValue
      newValue := arg.newValue
      configVersion := configVersion
      metadata := metadata
      previousHash := prevHash
      entryHash := computeEntryHash D.toHasher
        { previousHash := prevHash
          id := stamp.id
          tenantID := arg.tenantID
          actor := arg.actor
          action := arg.action
          objectKind := kind
          createdAt := truncateMicro stamp.now
          epoch := 1
          fieldPath := arg.fieldPath
          oldValue := arg.oldValue
          newValue := arg.newValue
          configVersion := configVersion
          metadata := arg.metadata }
      chainEpoch := 1
      createdAt := truncateMicro stamp.now }

/-- `InsertAuditWriteLog` of the config and the audit store. -/
def insertConfigAudit (D : AuditDB) (tenantID prevHash : String) (arg : AuditParams)
    (stamp : Stamp) : Option AuditWriteLog :=
  auditRow D tenantID prevHash (if arg.objectKind = "" then "field" else arg.objectKind)
    arg.configVersion arg stamp

/-- `InsertAuditWriteLog` of the schema store, whose entries have no config version. -/
def insertSchemaAudit (D : AuditDB) (tenantID prevHash : String) (arg : AuditParams)
    (stamp : Stamp) : Option AuditWriteLog :=
  auditRow D tenantID prevHash arg.objectKind none arg stamp

/-- `BulkInsertAuditWriteLog`: the tail is read once, and each row continues from the one
before it. -/
def bulkInsertAudit (D : AuditDB) (tenantID : String) :
    String → List (AuditParams × Stamp) → Option (List AuditWriteLog)
  | _, [] => some []
  | prevHash, (arg, stamp) :: args => do
    let row ← insertConfigAudit D tenantID prevHash arg stamp
    let rows ← bulkInsertAudit D tenantID row.entryHash args
    pure (row :: rows)

/-! ### The order of the rows -/

/-- The key of `ORDER BY created_at, id`. -/
def AuditWriteLog.key (e : AuditWriteLog) : ℤ ×ₗ String :=
  toLex (e.createdAt, e.id)

/-- `GetAuditWriteLogOrdered`, the query. -/
def orderedRows (rows : List AuditWriteLog) : List AuditWriteLog :=
  rows.insertionSort fun e e' => e.key ≤ e'.key

/-- `GetLastAuditHashForTenant`; a tenant without entries has the empty hash. -/
def getLastAuditHash (rows : List AuditWriteLog) : String :=
  ((orderedRows rows).getLast?.map entryHash).getD ""

/-- **`sortByChain`**: the entries along their `previous_hash` links, or as they are if the
links do not lead through all of them. -/
def sortByChain (entries : List AuditWriteLog) : List AuditWriteLog :=
  sortByLinks entryHash previousHash "" entries

/-- `PGStore.GetAuditWriteLogOrdered`: the rows in the order that `VerifyChain` checks. -/
def getAuditWriteLogOrdered (rows : List AuditWriteLog) : List AuditWriteLog :=
  sortByChain (orderedRows rows)

/-- **What `sortByChain` does with any entries**: it returns them all, in the order of the chain
where they are those of one, and the loop ends, whatever the links. -/
theorem sortByChain_recovers (entries : List AuditWriteLog) : (sortByChain entries).Perm entries ∧
      (∀ chain : List AuditWriteLog, entries.Perm chain →
        (chain.map entryHash).Nodup → (∀ e ∈ chain, e.entryHash ≠ "") →
        Linked entryHash previousHash "" chain →
          sortByChain entries = chain) ∧
      ∀ root ∈ entries, ∀ steps, entries.length ≤ steps →
        follow entryHash previousHash entries steps [] root =
          follow entryHash previousHash entries entries.length []
            root := by
  refine ⟨perm_sortByLinks "" entries, fun chain hp hnodup hne hlinked => ?_,
    fun root hroot steps hsteps => follow_of_length_le hroot hsteps⟩
  refine sortByLinks_eq hp hlinked (List.nodup_cons.mpr ⟨fun hmem => ?_, hnodup⟩)
  obtain ⟨e, he, heq⟩ := List.mem_map.mp hmem
  exact hne e he heq

/-! ### The transactions -/

/-- An append to the chain, with what is drawn for its rows. -/
inductive AuditAppend where
  | insert (arg : AuditParams) (stamp : Stamp)
  | bulk (args : List (AuditParams × Stamp))
  | schema (arg : AuditParams) (stamp : Stamp)

/-- The parameters of an append. -/
def AuditAppend.entries : AuditAppend → List (AuditParams × Stamp)
  | .insert arg stamp | .schema arg stamp => [(arg, stamp)]
  | .bulk args => args

/-- The rows that an append inserts after the entry with this hash. -/
def AuditAppend.rows (D : AuditDB) (tenantID prevHash : String) :
    AuditAppend → Option (List AuditWriteLog)
  | .insert arg stamp => (insertConfigAudit D tenantID prevHash arg stamp).map ([·])
  | .bulk args => bulkInsertAudit D tenantID prevHash args
  | .schema arg stamp => (insertSchemaAudit D tenantID prevHash arg stamp).map ([·])

/-- The transaction that holds the advisory lock of the chain: the hash it has read and not
yet used, and its uncommitted rows. -/
structure ChainTx where
  tx : ℕ
  tail : Option String
  pending : List AuditWriteLog

/-- The chain of the tenant: the committed rows in the order in which they were appended, the
transaction that holds the lock, and the last time that was drawn. -/
structure AuditState where
  rows : List AuditWriteLog
  holder : Option ChainTx
  clock : ℤ

/-- The steps of the transactions. -/
inductive AuditLabel where
  | lock (tx : ℕ)
  | readTail (tx : ℕ)
  | append (tx : ℕ) (op : AuditAppend)
  | commit (tx : ℕ)
  | rollback (tx : ℕ)

namespace AuditState

def empty (clock : ℤ) : AuditState :=
  ⟨[], none, clock⟩

/-- The rows that the holder of the lock sees. -/
def visible (s : AuditState) : List AuditWriteLog :=
  s.rows ++ (s.holder.map ChainTx.pending).getD []

/-- The order of the integers, found in one way wherever the module is used. -/
local instance clockOrder : Preorder ℤ :=
  Int.instLinearOrder.toPreorder

/-- The draws of an append: it is of this tenant, the times do not decrease, and the
identifiers are new. -/
def Draws (tenantID : String) (s : AuditState) (op : AuditAppend) : Prop :=
  (∀ x ∈ op.entries, x.1.tenantID = tenantID) ∧
    (s.clock :: op.entries.map fun x => truncateMicro x.2.now).SortedLE ∧
    (s.visible.map AuditWriteLog.id ++ op.entries.map fun x => x.2.id).Nodup

instance (tenantID : String) : Decidable (s.Draws tenantID op) :=
  inferInstanceAs (Decidable (_ ∧ _ ∧ _))

/-- The transaction, if it holds the lock. -/
def heldBy (s : AuditState) (tx : ℕ) : Option ChainTx :=
  s.holder.filter (·.tx = tx)

/-- One **step of the transactions**. A lock that another transaction holds is waited for. -/
def step (D : AuditDB) (tenantID : String) (s : AuditState) : AuditLabel → Option AuditState
  | .lock tx =>
    match s.holder with
    | none => some { s with holder := some ⟨tx, none, []⟩ }
    | some _ => (s.heldBy tx).map fun _ => s
  | .readTail tx =>
    (s.heldBy tx).map fun x =>
      { s with holder := some { x with tail := some (getLastAuditHash (s.rows ++ x.pending)) } }
  | .append tx op =>
    (s.heldBy tx).bind fun x =>
      x.tail.bind fun prevHash =>
        if s.Draws tenantID op then
          (op.rows D tenantID prevHash).map fun new =>
            { s with
              holder := some { x with tail := none, pending := x.pending ++ new }
              clock := (op.entries.map fun y => truncateMicro y.2.now).getLastD s.clock }
        else none
  | .commit tx =>
    (s.heldBy tx).map fun x => { s with rows := s.rows ++ x.pending, holder := none }
  | .rollback tx =>
    (s.heldBy tx).map fun _ => { s with holder := none }

/-- A condition on the appends: the **last row is the greatest** of those that are then
visible, in the order of `(created_at, id)`, and its rows bring no hash a second time. -/
def EndsGreatest (D : AuditDB) (tenantID : String) (s : AuditState) : AuditLabel → Prop
  | .append tx op =>
    ∀ x ∈ s.heldBy tx, ∀ prevHash ∈ x.tail, ∀ new ∈ op.rows D tenantID prevHash,
      (∀ e ∈ new.getLast?, ∀ r ∈ s.rows ++ x.pending ++ new, r.key ≤ e.key) ∧
        ((s.rows ++ x.pending ++ new).map entryHash).Nodup
  | _ => True

instance (D : AuditDB) (tenantID : String) (i : AuditLabel) :
    Decidable (s.EndsGreatest D tenantID i) := by
  cases i <;> unfold EndsGreatest <;> infer_instance

end AuditState

/-! ### The rows of one append -/

section Rows

variable {D : AuditDB} {tenantID prevHash kind : String} {configVersion : Option ℤ}
  {arg : AuditParams} {stamp : Stamp} {row : AuditWriteLog} {l rows : List AuditWriteLog}

/-- A row is linked and hashed. -/
theorem auditRow_spec (h : auditRow D tenantID prevHash kind configVersion arg stamp = some row)
    (hT : arg.tenantID = tenantID) :
    row.previousHash = prevHash ∧ row.entryHash = entryDigest D.toHasher prevHash row ∧
      row.id = stamp.id := by
  obtain ⟨metadata, hmeta, rfl⟩ := Option.map_eq_some_iff.mp h
  refine ⟨rfl, ?_, rfl⟩
  simp only [entryDigest, computeEntryHash, hashText, structuralText, AuditWriteLog.chainInput,
    D.normalize_jsonb hmeta, hT]

/-- Rows that continue a chain from a hash: each is linked to the one before it, and stores
the hash that a verification computes. -/
structure Continues (D : AuditDB) (prevHash : String) (rows : List AuditWriteLog) : Prop where
  linked : Linked entryHash previousHash prevHash rows
  checks : Checks entryHash (entryDigest D.toHasher) prevHash rows

theorem Continues.append {l' : List AuditWriteLog} (h : Continues D prevHash l)
    (h' : Continues D (head entryHash prevHash l) l') :
    Continues D prevHash (l ++ l') :=
  ⟨linked_append.mpr ⟨h.linked, h'.linked⟩, checks_append.mpr ⟨h.checks, h'.checks⟩⟩

theorem continues_cons (h : auditRow D tenantID prevHash kind configVersion arg stamp = some row)
    (hT : arg.tenantID = tenantID) (hl : Continues D row.entryHash l) :
    Continues D prevHash (row :: l) := by
  obtain ⟨hprev, hhash, -⟩ := auditRow_spec h hT
  exact ⟨List.forall_mem_cons.mpr ⟨hprev, hl.linked⟩, List.forall_mem_cons.mpr ⟨hhash, hl.checks⟩⟩

theorem continues_nil : Continues D prevHash [] :=
  ⟨by simp [Linked, inputs], by simp [Checks, inputs]⟩

/-- And so are rows in bulk. -/
theorem bulkInsertAudit_spec {args : List (AuditParams × Stamp)}
    (h : bulkInsertAudit D tenantID prevHash args = some rows)
    (hT : ∀ x ∈ args, x.1.tenantID = tenantID) :
    Continues D prevHash rows ∧ rows.map AuditWriteLog.id = args.map fun x => x.2.id := by
  induction args generalizing prevHash rows with
  | nil =>
    cases h
    exact ⟨continues_nil, rfl⟩
  | cons x args ih =>
    obtain ⟨hx, hargs⟩ := List.forall_mem_cons.mp hT
    obtain ⟨row, hrow, h⟩ := Option.bind_eq_some_iff.mp h
    obtain ⟨rest, hrest, h⟩ := Option.bind_eq_some_iff.mp h
    cases h
    obtain ⟨hcont, hids⟩ := ih hrest hargs
    exact ⟨continues_cons hrow hx hcont, by
      rw [List.map_cons, List.map_cons, (auditRow_spec hrow hx).2.2, hids]⟩

/-- And so are those of any append. -/
theorem AuditAppend.rows_spec (h : op.rows D tenantID prevHash = some rows)
    (hT : ∀ x ∈ op.entries, x.1.tenantID = tenantID) :
    Continues D prevHash rows ∧ rows.map AuditWriteLog.id = op.entries.map fun x => x.2.id := by
  cases op with
  | bulk args => exact bulkInsertAudit_spec h hT
  | insert arg stamp =>
    obtain ⟨row, hrow, rfl⟩ := Option.map_eq_some_iff.mp h
    have hx := hT _ List.mem_cons_self
    exact ⟨continues_cons hrow hx continues_nil, by simp [entries, (auditRow_spec hrow hx).2.2]⟩
  | schema arg stamp =>
    obtain ⟨row, hrow, rfl⟩ := Option.map_eq_some_iff.mp h
    have hx := hT _ List.mem_cons_self
    exact ⟨continues_cons hrow hx continues_nil, by simp [entries, (auditRow_spec hrow hx).2.2]⟩

end Rows

/-! ### The chain stays whole -/

/-- A **whole chain**: linked in the order of its rows, with hashes that verify and do not
repeat, and with its last row as the greatest. -/
structure Whole (D : AuditDB) (rows : List AuditWriteLog) : Prop where
  continues : Continues D "" rows
  hashes : (rows.map entryHash).Nodup
  ids : (rows.map AuditWriteLog.id).Nodup
  greatest : ∀ e ∈ rows.getLast?, ∀ r ∈ rows, r.key ≤ e.key

namespace Whole

variable {D : AuditDB} {tenantID : String} {rows new : List AuditWriteLog}

theorem nil : Whole D [] := ⟨continues_nil, by simp, by simp, by simp⟩

instance : Std.Total fun e e' : AuditWriteLog => e.key ≤ e'.key :=
  ⟨fun e e' => le_total e.key e'.key⟩

instance : IsTrans AuditWriteLog fun e e' => e.key ≤ e'.key :=
  ⟨fun _ _ _ h h' => h.trans h'⟩

/-- The tail that a transaction reads is the hash of the row appended last. -/
theorem getLastAuditHash_eq (h : Whole D rows) :
    getLastAuditHash rows = head entryHash "" rows := by
  obtain rfl | ⟨rows, e, rfl⟩ := rows.eq_nil_or_concat'
  · rfl
  have hperm : (orderedRows (rows ++ [e])).Perm (rows ++ [e]) := List.perm_insertionSort _ _
  obtain ⟨l, e', hl⟩ : ∃ l e', orderedRows (rows ++ [e]) = l ++ [e'] := by
    obtain hnil | h := (orderedRows (rows ++ [e])).eq_nil_or_concat'
    · exact absurd hperm.length_eq (by simp [hnil])
    · exact h
  have hsorted : (orderedRows (rows ++ [e])).Pairwise fun e e' => e.key ≤ e'.key :=
    List.pairwise_insertionSort _ _
  have hmem' : e' ∈ rows ++ [e] := hperm.mem_iff.mp (by simp [hl])
  have hle : e.key ≤ e'.key := by
    have hmem : e ∈ l ++ [e'] := hl ▸ hperm.mem_iff.mpr (by simp)
    rw [hl, List.pairwise_append] at hsorted
    obtain hmem | hmem := List.mem_append.mp hmem
    · exact hsorted.2.2 e hmem e' (by simp)
    · rw [List.mem_singleton.mp hmem]
  have hkey : e'.key = e.key := le_antisymm (h.greatest e (by simp) e' hmem') hle
  -- equal keys have equal identifiers, and those are unique
  obtain rfl : e' = e :=
    List.inj_on_of_nodup_map h.ids hmem' (by simp) (congrArg (fun k => (ofLex k).2) hkey)
  rw [getLastAuditHash, hl, head, List.getLast?_concat, List.getLast?_concat]

/-- **An append keeps the chain whole** if it ends in the greatest row. -/
theorem append (h : Whole D rows) (hnew : op.rows D tenantID (head entryHash "" rows) = some new)
    (hT : ∀ x ∈ op.entries, x.1.tenantID = tenantID)
    (hids : (rows.map AuditWriteLog.id ++ op.entries.map fun x => x.2.id).Nodup)
    (hgreatest : ∀ e ∈ new.getLast?, ∀ r ∈ rows ++ new, r.key ≤ e.key)
    (hhashes : ((rows ++ new).map entryHash).Nodup) : Whole D (rows ++ new) := by
  obtain ⟨hcont, hmap⟩ := AuditAppend.rows_spec hnew hT
  refine ⟨h.continues.append hcont, hhashes, ?_, ?_⟩
  · rw [List.map_append, hmap]
    exact hids
  · obtain rfl | ⟨new, e, rfl⟩ := new.eq_nil_or_concat'
    · rw [List.append_nil]
      exact h.greatest
    · simp only [← List.append_assoc, List.getLast?_concat] at hgreatest ⊢
      exact hgreatest

/-- The links lead through a whole chain. -/
theorem getAuditWriteLogOrdered_eq (h : Whole D rows) : getAuditWriteLogOrdered rows = rows := by
  refine sortByLinks_eq (List.perm_insertionSort _ _) h.continues.linked
    (List.nodup_cons.mpr ⟨fun hmem => ?_, h.hashes⟩)
  obtain ⟨e, he, hempty⟩ := List.mem_map.mp hmem
  obtain ⟨pre, post, rfl⟩ := List.append_of_mem he
  have hin : (head entryHash "" pre, e) ∈
      inputs entryHash "" (pre ++ e :: post) := by
    simp [inputs_append, inputs]
  have hhash : e.entryHash = entryDigest D.toHasher _ e := h.continues.checks _ hin
  exact computeEntryHash_ne_empty _ _ (hhash.symm.trans hempty)

end Whole

namespace AuditState

/-- What holds throughout a run: the committed chain is whole, and so is the one that the
holder of the lock sees, whose last hash is the one it has read. -/
structure Inv (D : AuditDB) (s : AuditState) : Prop where
  rows : Whole D s.rows
  pending : ∀ x ∈ s.holder, Whole D (s.rows ++ x.pending)
  tail : ∀ x ∈ s.holder, ∀ prevHash ∈ x.tail,
    prevHash = head entryHash "" (s.rows ++ x.pending)

theorem mem_heldBy {tx : ℕ} {x : ChainTx} (h : s.heldBy tx = some x) :
    s.holder = some x :=
  (Option.filter_eq_some_iff.mp h).1

/-- **The step lemma**: what a step that ends in the greatest row preserves. -/
theorem Inv.step {D : AuditDB} {tenantID : String} {s' : AuditState} {i : AuditLabel} (h : Inv D s)
    (ha : s.EndsGreatest D tenantID i) (hs : AuditState.step D tenantID s i = some s') :
    Inv D s' := by
  cases i with
  | lock tx =>
    simp only [AuditState.step] at hs
    split at hs
    · cases hs
      refine ⟨h.rows, ?_, ?_⟩
      · rintro _ ⟨⟩
        rw [List.append_nil]
        exact h.rows
      · rintro _ ⟨⟩ _ ⟨⟩
    · obtain ⟨_, -, rfl⟩ := Option.map_eq_some_iff.mp hs
      exact h
  | readTail tx =>
    obtain ⟨x, hx, rfl⟩ := Option.map_eq_some_iff.mp hs
    have hwhole := h.pending x (mem_heldBy hx)
    refine ⟨h.rows, ?_, ?_⟩
    · rintro _ ⟨⟩
      exact hwhole
    · rintro _ ⟨⟩ _ ⟨⟩
      exact hwhole.getLastAuditHash_eq
  | append tx op =>
    obtain ⟨x, hx, hs⟩ := Option.bind_eq_some_iff.mp hs
    obtain ⟨prevHash, hprev, hs⟩ := Option.bind_eq_some_iff.mp hs
    split at hs
    · rename_i hdraws
      obtain ⟨new, hnew, rfl⟩ := Option.map_eq_some_iff.mp hs
      have hheld := mem_heldBy hx
      have hvis : s.visible = s.rows ++ x.pending := by simp [visible, hheld]
      obtain ⟨hgreatest, hhashes⟩ := ha x hx prevHash hprev new hnew
      obtain rfl := h.tail x hheld prevHash hprev
      refine ⟨h.rows, ?_, ?_⟩
      · rintro _ ⟨⟩
        rw [← List.append_assoc]
        exact (h.pending x hheld).append hnew hdraws.1 (hvis ▸ hdraws.2.2) hgreatest hhashes
      · rintro _ ⟨⟩ _ ⟨⟩
    · cases hs
  | commit tx =>
    obtain ⟨x, hx, rfl⟩ := Option.map_eq_some_iff.mp hs
    exact ⟨h.pending x (mem_heldBy hx), nofun, nofun⟩
  | rollback tx =>
    obtain ⟨x, hx, rfl⟩ := Option.map_eq_some_iff.mp hs
    exact ⟨h.rows, nofun, nofun⟩

end AuditState

/-- **The chain of a tenant verifies**: in every run whose appends end in the greatest row,
each row is linked to the one appended just before it, the chain is read back in the order
of the appends, and `VerifyChain` reports OK. -/
theorem audit_chain_verifies {D : AuditDB} {tenantID : String} {clock : ℤ} {s : AuditState}
    (hr : Machine.Reach (AuditState.step D tenantID) (AuditState.EndsGreatest D tenantID)
      (.empty clock) s) :
    Linked entryHash previousHash "" s.rows ∧
      getAuditWriteLogOrdered s.rows = s.rows ∧
      ReportsOK D.toHasher tenantID (getAuditWriteLogOrdered s.rows) := by
  have hwhole := (hr.invariant (AuditState.Inv D) ⟨.nil, nofun, nofun⟩
    fun _ _ _ _ h ha hs => h.step ha hs).rows
  refine ⟨hwhole.continues.linked, hwhole.getAuditWriteLogOrdered_eq, ?_⟩
  rw [hwhole.getAuditWriteLogOrdered_eq]
  exact verifyChain_ok_iff.mpr hwhole.continues.checks

namespace Sample

def auditDB : AuditDB :=
  { hasher with
    jsonb := some
    normalize_jsonb := by rintro b _ ⟨⟩; rfl }

def chainTenant : String :=
  "00000000-0000-0000-0000-000000000001"

def auditParams : AuditParams :=
  ⟨chainTenant, "root", "set_field", "", some "a", none, some "7", some 1, []⟩

def stamp (digit : String) (now : ℤ) : Stamp :=
  ⟨"00000000-0000-4000-8000-00000000000" ++ digit, now⟩

def auditTx (tx : ℕ) (op : AuditAppend) : List AuditLabel :=
  [.lock tx, .readTail tx, .append tx op, .commit tx]

end Sample

open Sample

/-- The rows of a batch are stamped with one time, and the second has the least identifier. -/
theorem audit_chain_verifies_batch : ∃ s, Machine.Reach (AuditState.step auditDB chainTenant)
        (AuditState.EndsGreatest auditDB chainTenant) (.empty 0) s ∧
      s.rows.length = 4 ∧ orderedRows s.rows ≠ s.rows ∧
      ReportsOK hasher chainTenant (getAuditWriteLogOrdered s.rows) := by
  obtain ⟨s, hr, hlen, hne⟩ : ∃ s, Machine.Reach (AuditState.step auditDB chainTenant)
      (AuditState.EndsGreatest auditDB chainTenant) (.empty 0) s ∧
      s.rows.length = 4 ∧ orderedRows s.rows ≠ s.rows :=
    Machine.exists_reach_of_run (auditTx 0 (.bulk [(auditParams, stamp "2" 1000),
          (auditParams, stamp "1" 1000),
          (auditParams, stamp "3" 1000)]) ++
        auditTx 1 (.insert auditParams (stamp "0" 2000)))
      (by decide +kernel)
  exact ⟨s, hr, hlen, hne, (audit_chain_verifies hr).2.2⟩

/-- **The chain forks**: of two entries of one microsecond the first has the greater
identifier, and the third continues from it. -/
theorem audit_chain_forks : ∃ s, Machine.Reach (AuditState.step auditDB chainTenant) Machine.anyStep
        (.empty 0) s ∧
      ¬ Linked entryHash previousHash "" s.rows ∧
      ¬ ReportsOK hasher chainTenant (getAuditWriteLogOrdered s.rows) := by
  obtain ⟨s, hr, hlink, hok⟩ : ∃ s, Machine.Reach (AuditState.step auditDB chainTenant)
      Machine.anyStep (.empty 0) s ∧
      (∃ p ∈ inputs entryHash "" s.rows, p.2.previousHash ≠ p.1) ∧
      ¬ ReportsOK hasher chainTenant (getAuditWriteLogOrdered s.rows) :=
    Machine.exists_reach_of_run (auditTx 0 (.insert auditParams (stamp "2" 1000)) ++
        auditTx 1 (.insert auditParams (stamp "1" 1000)) ++
        auditTx 2 (.insert auditParams (stamp "3" 2000)))
      (by decide +kernel)
  obtain ⟨p, hp, hne⟩ := hlink
  exact ⟨s, hr, fun h => hne (h p hp), hok⟩

end Decree
