import Mathlib.Data.Set.Function
import Decree.HashChain
import Decree.Strconv

/-!
# The Hash Chain of the Audit Log

The hash of an audit entry (`internal/audit/chain.go`) and the verification of a tenant's
chain (`internal/audit/verify.go`). SHA-256 and the round trip through `encoding/json` are
parameters, a `Hasher`; the bytes that are hashed are written out. Text fields are joined by NUL
bytes and optional ones carry a marker, so the bytes determine the fields as long as no field
contains a NUL.

## Main results

* `hashText_inj`: the text determines the entry.
* `verified_chains_agree`: chains with one last hash agree.
-/

namespace Decree

open Go HashChain

/-! ### Hashing an entry -/

abbrev Digest := Vector UInt8 32

open List

/-- What the chain is computed with: SHA-256, and the round trip of bytes through
`json.Unmarshal` and `json.Marshal`, which has no result on what is not JSON. -/
structure Hasher where
  sha256 : ByteArray → Digest
  remarshal : List UInt8 → Option (List UInt8)

/-- The two hexadecimal digits of a byte. -/
def hexByte (b : UInt8) : List Char :=
  [Nat.digitChar (b.toNat / 16), Nat.digitChar (b.toNat % 16)]

def hexEncode (bs : List UInt8) : String :=
  String.ofList (bs.flatMap hexByte)

/-- `audit.ChainInput`. An instant is its number of nanoseconds since the Unix epoch. -/
structure ChainInput where
  previousHash : String
  id : String
  tenantID : String
  actor : String
  action : String
  objectKind : String
  createdAt : ℤ
  epoch : ℤ
  fieldPath : Option String
  oldValue : Option String
  newValue : Option String
  configVersion : Option ℤ
  metadata : List UInt8

/-- `Time.UnixNano`, an `int64`. -/
def unixNano (t : ℤ) : ℤ :=
  (t + 2 ^ 63) % 2 ^ 64 - 2 ^ 63

def writeNullableStr : Option String → String
  | none => "\x00"
  | some s => "\x01" ++ s ++ "\x00"

def writeNullableI32 : Option ℤ → String
  | none => "\x00"
  | some v => "\x01" ++ formatInt v ++ "\x00"

/-- `normalizeJSON`: bytes that are empty or not JSON stay as they are. -/
def normalizeJSON (H : Hasher) (b : List UInt8) : List UInt8 :=
  if b.length = 0 then b else (H.remarshal b).getD b

/-- The last part of the hashed text: a marker, and the normalized metadata. -/
def metadataText (m : List UInt8) : String :=
  if m.length = 0 then "\x00" else "\x01" ++ hexEncode m

/-- The structural fields of an entry, as both epochs hash them. -/
def structuralText (x : ChainInput) : String :=
  x.previousHash ++ "\x00" ++ x.id ++ "\x00" ++ x.tenantID ++ "\x00" ++ x.actor ++ "\x00" ++
    x.action ++ "\x00" ++ x.objectKind ++ "\x00" ++ formatInt (unixNano x.createdAt)

/-- The **text that is hashed** for an entry. Epoch 0 has the structural fields only. -/
def hashText (H : Hasher) (x : ChainInput) : String :=
  if x.epoch = 0 then structuralText x
  else
    structuralText x ++ "\x00" ++ writeNullableStr x.fieldPath ++ writeNullableStr x.oldValue ++
      writeNullableStr x.newValue ++ writeNullableI32 x.configVersion ++
      metadataText (normalizeJSON H x.metadata)

def computeEntryHash (H : Hasher) (x : ChainInput) : String :=
  hexEncode (H.sha256 (hashText H x).toUTF8).toList

/-! ### Verifying a chain -/

structure AuditWriteLog where
  id : String
  tenantID : String
  actor : String
  action : String
  objectKind : String
  fieldPath : Option String
  oldValue : Option String
  newValue : Option String
  configVersion : Option ℤ
  metadata : List UInt8
  previousHash : String
  entryHash : String
  chainEpoch : ℤ
  createdAt : ℤ
deriving DecidableEq

/-- What is hashed for a stored entry after the entry with this hash. -/
def AuditWriteLog.chainInput (e : AuditWriteLog) (prev : String) : ChainInput where
  previousHash := prev
  id := e.id
  tenantID := e.tenantID
  actor := e.actor
  action := e.action
  objectKind := e.objectKind
  createdAt := e.createdAt
  epoch := e.chainEpoch
  fieldPath := e.fieldPath
  oldValue := e.oldValue
  newValue := e.newValue
  configVersion := e.configVersion
  metadata := e.metadata

structure ChainBreak where
  entryID : String
  position : ℕ
  got : String
  want : String
deriving DecidableEq

structure VerifyResult where
  tenantID : String
  total : ℕ
  breaks : List ChainBreak
  ok : Bool
deriving DecidableEq

/-- The loop of `VerifyChain` from a position, with the hash stored before it. -/
def verifyLoop (H : Hasher) : ℕ → String → List AuditWriteLog → List ChainBreak
  | _, _, [] => []
  | i, prev, e :: entries =>
    let want := computeEntryHash H (e.chainInput prev)
    (if e.entryHash ≠ want then [⟨e.id, i, e.entryHash, want⟩] else []) ++
      verifyLoop H (i + 1) e.entryHash entries

/-- **`VerifyChain`**, on what the store returns for the tenant. -/
def verifyChain (H : Hasher) (tenantID : String) (fetched : Except String (List AuditWriteLog)) :
    Except String VerifyResult :=
  match fetched with
  | .error err => .error ("fetch audit chain: " ++ err)
  | .ok entries =>
    let breaks := verifyLoop H 0 "" entries
    .ok ⟨tenantID, entries.length, breaks, breaks.length = 0⟩

/-- A verification **reports OK**. -/
def ReportsOK (H : Hasher) (tenantID : String) (entries : List AuditWriteLog) : Prop :=
  (verifyChain H tenantID (.ok entries)).map VerifyResult.ok = .ok true

instance (H : Hasher) (tenantID : String) (entries : List AuditWriteLog) :
    Decidable (ReportsOK H tenantID entries) :=
  inferInstanceAs (Decidable (_ = _))

/-- The digest that the verification compares with. -/
def entryDigest (H : Hasher) (prev : String) (e : AuditWriteLog) : String :=
  computeEntryHash H (e.chainInput prev)

variable {H : Hasher} {prev : String} {entries : List AuditWriteLog}

/-- The loop finds no break when the chain checks. -/
theorem verifyLoop_eq_nil {i : ℕ} : verifyLoop H i prev entries = [] ↔
      Checks AuditWriteLog.entryHash (entryDigest H) prev entries := by
  induction entries generalizing i prev with
  | nil => simp [verifyLoop, Checks, inputs]
  | cons e entries ih =>
    simp only [verifyLoop, append_eq_nil_iff, ih, Checks, inputs, forall_mem_cons, entryDigest]
    simp

/-- And so does the verification. -/
theorem verifyChain_ok_iff {tenantID : String} :
    ReportsOK H tenantID entries ↔ Checks AuditWriteLog.entryHash (entryDigest H) "" entries := by
  simp [ReportsOK, verifyChain, Except.map, verifyLoop_eq_nil]

/-! ### The encoding is injective -/

def NulFree (s : String) : Prop :=
  '\x00' ∉ s.toList

instance (s : String) : Decidable (NulFree s) :=
  inferInstanceAs (Decidable (_ ∉ _))

/-- A text up to its NUL is determined. -/
theorem nul_inj {a b r r' : String} (ha : NulFree a) (hb : NulFree b)
    (h : a ++ ("\x00" ++ r) = b ++ ("\x00" ++ r')) : a = b ∧ r = r' := by
  have hl := congrArg String.toList h
  simp only [String.toList_append] at hl
  obtain ⟨h1, h2⟩ := append_sep_inj ha hb hl
  exact ⟨String.toList_inj.mp h1, String.toList_inj.mp h2⟩

theorem nulFree_formatInt (i : ℤ) : NulFree (formatInt i) := by
  have hdig : '\x00' ∉ Nat.toDigits 10 i.natAbs := fun hm =>
    absurd (isDigit_toDigits _ hm) (by decide)
  simp only [NulFree, formatInt, String.toList_ofList, formatIntChars]
  split_ifs
  · simp [hdig]
  · exact hdig

/-- An optional integer is written as the optional text of it. -/
theorem writeNullableI32_eq (v : Option ℤ) :
    writeNullableI32 v = writeNullableStr (v.map formatInt) := by
  cases v <;> rfl

/-- And so is one that may be absent. -/
theorem writeNullableStr_inj {a b : Option String} {r r' : String} (ha : ∀ s ∈ a, NulFree s)
    (hb : ∀ s ∈ b, NulFree s) (h : writeNullableStr a ++ r = writeNullableStr b ++ r') :
    a = b ∧ r = r' := by
  -- a text with its marker is as free of NULs as the text
  have hmark : ∀ {s : String}, NulFree s → NulFree ("\x01" ++ s) := fun hs => by
    simpa [NulFree] using hs
  match a, b with
  | none, none => exact ⟨rfl, (nul_inj (a := "") (b := "") (by decide) (by decide) h).2⟩
  | some s, some t =>
    have hassoc : ("\x01" ++ s) ++ ("\x00" ++ r) = ("\x01" ++ t) ++ ("\x00" ++ r') := by
      simpa only [writeNullableStr, String.append_assoc] using h
    obtain ⟨hst, hr⟩ := nul_inj (hmark (ha s rfl)) (hmark (hb t rfl)) hassoc
    exact ⟨by simpa [← String.toList_inj] using hst, hr⟩
  | none, some t =>
    have hl := congrArg String.toList h
    simp [writeNullableStr] at hl
  | some s, none =>
    have hl := congrArg String.toList h
    simp [writeNullableStr] at hl

theorem digitChar_inj {m n : ℕ} (hm : m < 16) (hn : n < 16)
    (h : Nat.digitChar m = Nat.digitChar n) : m = n := by
  have : ∀ x y : Fin 16, Nat.digitChar x = Nat.digitChar y → x = y := by decide
  exact congrArg Fin.val (this ⟨m, hm⟩ ⟨n, hn⟩ h)

theorem hexByte_inj {b b' : UInt8} (h : hexByte b = hexByte b') : b = b' := by
  have hlt := b.toNat_lt
  have hlt' := b'.toNat_lt
  simp only [hexByte, cons.injEq, and_true] at h
  have hhi := digitChar_inj (by omega) (by omega) h.1
  have hlo := digitChar_inj (by omega) (by omega) h.2
  exact UInt8.toNat_inj.mp (by omega)

theorem flatMap_hexByte_inj {bs bs' : List UInt8}
    (h : bs.flatMap hexByte = bs'.flatMap hexByte) : bs = bs' := by
  induction bs generalizing bs' with
  | nil =>
    cases bs' with
    | nil => rfl
    | cons b' bs' => simp [hexByte] at h
  | cons b bs ih =>
    cases bs' with
    | nil => simp [hexByte] at h
    | cons b' bs' =>
      obtain ⟨hb, hbs⟩ := append_inj (by simpa using h) (by simp [hexByte])
      rw [hexByte_inj hb, ih hbs]

/-- Hex is read in one way. -/
theorem hexEncode_injective : Function.Injective hexEncode :=
  fun _ _ h => flatMap_hexByte_inj (String.ofList_injective h)

theorem nulFree_hexEncode (bs : List UInt8) : NulFree (hexEncode bs) := by
  have hdig : ∀ n : ℕ, n < 16 → Nat.digitChar n ≠ '\x00' := by
    have : ∀ x : Fin 16, Nat.digitChar x ≠ '\x00' := by decide
    exact fun n hn => this ⟨n, hn⟩
  simp only [NulFree, hexEncode, String.toList_ofList, mem_flatMap, not_exists, not_and]
  intro b _ hb
  have hlt := b.toNat_lt
  simp only [hexByte, mem_cons, not_mem_nil, or_false] at hb
  rcases hb with hb | hb
  · exact hdig _ (by omega) hb.symm
  · exact hdig _ (by omega) hb.symm

/-- The text of the metadata determines it. -/
theorem metadataText_injective : Function.Injective metadataText := by
  intro m m' h
  have hl := congrArg String.toList h
  simp only [metadataText] at hl
  split_ifs at hl with hm hm' hm'
  · rw [length_eq_zero_iff.mp hm, length_eq_zero_iff.mp hm']
  · simp at hl
  · simp at hl
  · simp only [String.toList_append] at hl
    exact hexEncode_injective (String.toList_inj.mp (append_cancel_left hl))

/-! ### What the last hash commits to -/

def AuditWriteLog.texts (e : AuditWriteLog) : List String :=
  [e.id, e.tenantID, e.actor, e.action, e.objectKind] ++ e.fieldPath.toList ++
    e.oldValue.toList ++ e.newValue.toList

/-- Two entries have **the same content**: all that an entry of epoch 1 is hashed with. -/
structure SameContent (H : Hasher) (e e' : AuditWriteLog) : Prop where
  id : e.id = e'.id
  tenantID : e.tenantID = e'.tenantID
  actor : e.actor = e'.actor
  action : e.action = e'.action
  objectKind : e.objectKind = e'.objectKind
  createdAt : unixNano e.createdAt = unixNano e'.createdAt
  fieldPath : e.fieldPath = e'.fieldPath
  oldValue : e.oldValue = e'.oldValue
  newValue : e.newValue = e'.newValue
  configVersion : e.configVersion = e'.configVersion
  metadata : normalizeJSON H e.metadata = normalizeJSON H e'.metadata

/-- **The hashed text determines the entry** and the hash before it. -/
theorem hashText_inj {e e' : AuditWriteLog} {prev' : String} (hprev : NulFree prev)
    (hprev' : NulFree prev') (ht : ∀ s ∈ e.texts, NulFree s) (ht' : ∀ s ∈ e'.texts, NulFree s)
    (he : e.chainEpoch = 1) (he' : e'.chainEpoch = 1)
    (h : hashText H (e.chainInput prev) = hashText H (e'.chainInput prev')) :
    prev = prev' ∧ SameContent H e e' := by
  simp only [hashText, AuditWriteLog.chainInput, he, he', one_ne_zero, if_false,
    structuralText, String.append_assoc, writeNullableI32_eq] at h
  simp only [AuditWriteLog.texts, forall_mem_append, forall_mem_cons, Option.mem_toList] at ht ht'
  obtain ⟨⟨⟨⟨hid, hten, hact, hac, hk, -⟩, hfp⟩, hold⟩, hnew⟩ := ht
  obtain ⟨⟨⟨⟨hid', hten', hact', hac', hk', -⟩, hfp'⟩, hold'⟩, hnew'⟩ := ht'
  have hver : ∀ {v : Option ℤ}, ∀ s ∈ v.map formatInt, NulFree s := fun s hs => by
    obtain ⟨i, -, rfl⟩ := Option.mem_map.mp hs
    exact nulFree_formatInt i
  obtain ⟨hp, h⟩ := nul_inj hprev hprev' h
  obtain ⟨h1, h⟩ := nul_inj hid hid' h
  obtain ⟨h2, h⟩ := nul_inj hten hten' h
  obtain ⟨h3, h⟩ := nul_inj hact hact' h
  obtain ⟨h4, h⟩ := nul_inj hac hac' h
  obtain ⟨h5, h⟩ := nul_inj hk hk' h
  obtain ⟨h6, h⟩ := nul_inj (nulFree_formatInt _) (nulFree_formatInt _) h
  obtain ⟨h7, h⟩ := writeNullableStr_inj hfp hfp' h
  obtain ⟨h8, h⟩ := writeNullableStr_inj hold hold' h
  obtain ⟨h9, h⟩ := writeNullableStr_inj hnew hnew' h
  obtain ⟨h10, h⟩ := writeNullableStr_inj hver hver h
  exact ⟨hp, h1, h2, h3, h4, h5, formatInt_injective h6, h7, h8, h9,
    Option.map_injective formatInt_injective h10, metadataText_injective h⟩

/-- The byte strings that `VerifyChain` hashes. -/
def hashedBytes (H : Hasher) (entries : List AuditWriteLog) : List ByteArray :=
  (inputs AuditWriteLog.entryHash "" entries).map fun p =>
    (hashText H (p.2.chainInput p.1)).toUTF8

/-- A hash is never empty. -/
theorem computeEntryHash_ne_empty (H : Hasher) (x : ChainInput) : computeEntryHash H x ≠ "" := by
  intro h
  have hnil := hexEncode_injective (h.trans (show "" = hexEncode [] from rfl))
  have hlen := congrArg length hnil
  simp at hlen

/-- In a chain that verifies, what stands before an entry is free of NULs. -/
theorem nulFree_of_mem_inputs (hc : Checks AuditWriteLog.entryHash (entryDigest H) prev entries)
    (hprev : NulFree prev) {p : String × AuditWriteLog}
    (hp : p ∈ inputs AuditWriteLog.entryHash prev entries) : NulFree p.1 := by
  induction entries generalizing prev with
  | nil => simp [inputs] at hp
  | cons e entries ih =>
    obtain ⟨he, hrest⟩ := forall_mem_cons.mp hc
    obtain rfl | hp := mem_cons.mp hp
    · exact hprev
    · refine ih hrest ?_ hp
      rw [show e.entryHash = entryDigest H prev e from he]
      exact nulFree_hexEncode _

/-- **Chains that verify and end in one hash agree**, position by position, if SHA-256 does
not collide on the bytes that their verification hashes. An entry that is edited, deleted,
inserted or moved under an unchanged last hash is therefore reported. -/
theorem verified_chains_agree {H : Hasher} (tenantID tenantID' : String)
    {entries entries' : List AuditWriteLog}
    (hinj : Set.InjOn H.sha256 {b | b ∈ hashedBytes H entries ∨ b ∈ hashedBytes H entries'})
    (htext : ∀ e ∈ entries ++ entries', ∀ s ∈ e.texts, NulFree s)
    (hepoch : ∀ e ∈ entries ++ entries', e.chainEpoch = 1)
    (hok : ReportsOK H tenantID entries) (hok' : ReportsOK H tenantID' entries')
    (hlast : entries.getLast?.map AuditWriteLog.entryHash =
      entries'.getLast?.map AuditWriteLog.entryHash) :
    List.Forall₂ (SameContent H) entries entries' := by
  have hc := verifyChain_ok_iff.mp hok
  have hc' := verifyChain_ok_iff.mp hok'
  simp only [forall_mem_append] at htext hepoch
  refine forall₂_of_head_eq hc hc' ?_ (fun p _ => computeEntryHash_ne_empty H _)
    (fun p _ => computeEntryHash_ne_empty H _) (congrArg (·.getD "") hlast)
  intro p hp q hq hdigest
  have hsha := Vector.toList_inj.mp (hexEncode_injective hdigest)
  have hbytes := hinj (.inl (mem_map_of_mem hp)) (.inr (mem_map_of_mem hq)) hsha
  have hmem := mem_of_mem_inputs _ hp
  have hmem' := mem_of_mem_inputs _ hq
  exact hashText_inj (nulFree_of_mem_inputs hc (by decide) hp)
    (nulFree_of_mem_inputs hc' (by decide) hq) (htext.1 _ hmem) (htext.2 _ hmem')
    (hepoch.1 _ hmem) (hepoch.2 _ hmem') (String.toByteArray_inj.mp hbytes)

namespace Sample

/-- A small stand-in for SHA-256, and a JSON round trip that only drops blanks. -/
def hasher : Hasher where
  sha256 b := Vector.ofFn fun i =>
    UInt8.ofNat (b.data.toList.foldl (fun h c => 31 * h + c.toNat) 7 / 256 ^ i.1)
  remarshal b := some (b.filter (· ≠ 32))

def auditLog (metadata : String) : List AuditWriteLog :=
  let first : AuditWriteLog :=
    ⟨"1", "t", "root", "set_field", "field", some "a", none, some "7", some 1, [], "", "", 1, 1000⟩
  let first := { first with entryHash := computeEntryHash hasher (first.chainInput "") }
  let second : AuditWriteLog :=
    ⟨"2", "t", "root", "rollback", "field", none, none, none, some 2, metadata.toUTF8.data.toList,
      first.entryHash, "", 1, 1000⟩
  [first, { second with
    entryHash := computeEntryHash hasher (second.chainInput first.entryHash) }]

end Sample

open Sample

theorem verified_chains_agree_metadata : auditLog "[1,2]" ≠ auditLog "[1, 2]" ∧
      List.Forall₂ (SameContent hasher) (auditLog "[1,2]") (auditLog "[1, 2]") := by
  refine ⟨by decide +kernel, verified_chains_agree "t" "t" ?_
    (by decide +kernel) (by decide +kernel) (by decide +kernel) (by decide +kernel)
    (by decide +kernel)⟩
  have heq : hashedBytes hasher (auditLog "[1, 2]") =
      hashedBytes hasher (auditLog "[1,2]") := by decide +kernel
  have hnodup : ((hashedBytes hasher (auditLog "[1,2]")).map
      hasher.sha256).Nodup := by decide +kernel
  simp only [heq, or_self]
  exact fun b hb b' hb' h => inj_on_of_nodup_map hnodup hb hb' h

end Decree
