import Decree.Base64
import Decree.ChainHash

/-!
# Page Tokens

The tokens with which the list calls are continued (`internal/pagination/pagination.go`). A
token is Base64 of a text with a version: `v1` has an offset, `v2` a cursor, which is the time
and the identifier of the last row of a page. The decoded text need not be UTF-8, so it is a
list of bytes here; numbers in it are ASCII.

## Main results

* `page_tokens`: the round trips of the tokens.
-/

namespace Decree

open Go List

/-! ### Texts in bytes -/

def asciiBytes (s : String) : List UInt8 :=
  s.toList.map fun c => UInt8.ofNat c.toNat

def byteText (bs : List UInt8) : String :=
  String.ofList (bs.map fun b => Char.ofNat b.toNat)

/-- The bytes after a mark at the beginning. -/
def afterMark (mark bs : List UInt8) : Option (List UInt8) :=
  if mark.isPrefixOf bs then some (bs.drop mark.length) else none

@[simp] theorem afterMark_append (mark bs : List UInt8) :
    afterMark mark (mark ++ bs) = some bs := by
  have hmark := isPrefixOf_iff_prefix.mpr (prefix_append mark bs)
  rw [afterMark, if_pos hmark, drop_left]

/-! ### Tokens -/

structure PageCursor where
  time : ℤ
  id : List UInt8
deriving DecidableEq

/-- What a token says: `TokenKind` with what goes with it. -/
inductive PagePosition where
  | first
  | offset (n : ℤ)
  | cursor (c : PageCursor)
deriving DecidableEq

def invalidPageToken : String :=
  "invalid page token"

/-- The number of a `v1` token, an `int32` that is not negative. -/
def decodeOffsetPayload (payload : List UInt8) : Except String PagePosition :=
  match parseInt (byteText payload) with
  | (n, none) => if n.1 < 0 ∨ 2 ^ 31 ≤ n.1 then .error invalidPageToken else .ok (.offset n.1)
  | (_, some _) => .error invalidPageToken

/-- `decodeCursorPayload`, behind the version. -/
def decodeCursorPayload (payload : List UInt8) : Except String PagePosition :=
  match payload.dropWhile (· ≠ 58) with
  | [] | [_] => .error invalidPageToken
  | _ :: id =>
    match parseInt (byteText (payload.takeWhile (· ≠ 58))) with
    | (ns, none) => .ok (.cursor ⟨ns.1, id⟩)
    | (_, some _) => .error invalidPageToken

def decodeTokenKind (token : String) : Except String PagePosition :=
  if token = "" then .ok .first
  else
    match Base64.decode token with
    | none => .error invalidPageToken
    | some raw =>
      match afterMark (asciiBytes "v1:") raw with
      | some payload => decodeOffsetPayload payload
      | none =>
        match afterMark (asciiBytes "v2:") raw with
        | some payload => decodeCursorPayload payload
        | none => .error invalidPageToken

/-- **`DecodePageToken`**, which splits the text at its first colon. -/
def decodePageToken (token : String) : Except String ℤ :=
  if token = "" then .ok 0
  else
    match Base64.decode token with
    | none => .error invalidPageToken
    | some raw =>
      match raw.dropWhile (· ≠ 58) with
      | [] => .error invalidPageToken
      | _ :: payload =>
        if raw.takeWhile (· ≠ 58) ≠ asciiBytes "v1" then .error invalidPageToken
        else
          match decodeOffsetPayload payload with
          | .ok (.offset n) => .ok n
          | _ => .error invalidPageToken

def encodeCursorToken (c : PageCursor) : String :=
  Base64.encode (asciiBytes "v2:" ++ (asciiBytes (formatInt (unixNano c.time)) ++ 58 :: c.id))

def encodePageToken (offset : ℤ) : String :=
  Base64.encode (asciiBytes "v1:" ++ asciiBytes (formatInt offset))

/-- `NextPageToken`, where one row more than the page was asked for. -/
def nextPageToken (pageSize resultCount currentOffset : ℤ) : String :=
  if resultCount ≤ pageSize then "" else encodePageToken (currentOffset + pageSize)

def clampPageSize (requested defaultSize maxSize : ℤ) : ℤ :=
  if requested ≤ 0 then defaultSize else if maxSize < requested then maxSize else requested

/-- A page is not empty. -/
theorem clampPageSize_pos (requested : ℤ) {defaultSize maxSize : ℤ} (hd : 0 < defaultSize)
    (hm : 0 < maxSize) : 0 < clampPageSize requested defaultSize maxSize := by
  rw [clampPageSize]
  split_ifs <;> omega

def listPageSize (requested : ℤ) : ℕ :=
  (clampPageSize requested 50 500).toNat

/-- The size of a page is clamped. -/
theorem listPageSize_spec (requested : ℤ) :
    (listPageSize requested : ℤ) = clampPageSize requested 50 500 ∧
      0 < listPageSize requested := by
  have h : 0 < clampPageSize requested 50 500 := clampPageSize_pos requested (by decide) (by decide)
  rw [listPageSize]
  omega

/-! ### Reading a cursor back -/

/-- Nanoseconds fit in 64 bits. -/
theorem unixNano_bounds (t : ℤ) : -2 ^ 63 ≤ unixNano t ∧ unixNano t < 2 ^ 63 := by
  rw [unixNano]
  omega

/-- An instant in the range of `UnixNano` is its own. -/
theorem unixNano_eq_self {t : ℤ} (h : -2 ^ 63 ≤ t ∧ t < 2 ^ 63) : unixNano t = t := by
  rw [unixNano]
  omega

/-- A number has digits and a sign, which come before the colon in ASCII. -/
theorem toNat_lt_of_mem_formatInt {i : ℤ} {c : Char} (h : c ∈ (formatInt i).toList) :
    c.toNat < 58 := by
  have hdigit : ∀ {n : ℕ}, c ∈ Nat.toDigits 10 n → c.toNat < 58 := by
    intro n hc
    have hd := isDigit_toDigits c hc
    simp only [Char.isDigit, Bool.and_eq_true, decide_eq_true_eq] at hd
    have hle : c.toNat ≤ '9'.toNat := hd.2
    exact Nat.lt_succ_of_le hle
  rw [formatInt, String.toList_ofList, formatIntChars] at h
  split at h
  · rcases mem_cons.mp h with rfl | h
    · decide
    · exact hdigit h
  · exact hdigit h

/-- A text returns from its bytes. -/
theorem byteText_asciiBytes {s : String} (h : ∀ c ∈ s.toList, c.toNat < 256) :
    byteText (asciiBytes s) = s := by
  rw [← String.toList_inj, byteText, String.toList_ofList, asciiBytes, map_map]
  conv_rhs => rw [← map_id s.toList]
  refine map_inj_left.mpr fun c hc => ?_
  have hb : (UInt8.ofNat c.toNat).toNat = c.toNat := by
    rw [UInt8.toNat_ofNat']
    exact Nat.mod_eq_of_lt (h c hc)
  rw [Function.comp_apply, hb, Char.ofNat_toNat, id]

/-- The time of a cursor ends at the colon. -/
theorem span_cursor (i : ℤ) (id : List UInt8) :
    (asciiBytes (formatInt i) ++ 58 :: id).takeWhile (· ≠ 58) = asciiBytes (formatInt i) ∧
      (asciiBytes (formatInt i) ++ 58 :: id).dropWhile (· ≠ 58) = 58 :: id := by
  have hne : ∀ b ∈ asciiBytes (formatInt i), decide (b ≠ 58) = true := by
    intro b hb
    obtain ⟨c, hc, rfl⟩ := mem_map.mp hb
    have hlt := toNat_lt_of_mem_formatInt hc
    rw [decide_eq_true_eq]
    intro heq
    have hnat := congrArg UInt8.toNat heq
    rw [UInt8.toNat_ofNat', Nat.mod_eq_of_lt (by omega)] at hnat
    exact absurd hnat (by change c.toNat ≠ 58; omega)
  constructor
  · rw [takeWhile_append_of_pos hne]
    simp
  · rw [dropWhile_append_of_pos hne]
    simp

theorem encode_ne_empty (b : UInt8) (bs : List UInt8) : Base64.encode (b :: bs) ≠ "" := by
  intro h
  have hdec := congrArg Base64.decode h
  rw [Base64.decode_encode, show Base64.decode "" = some [] from rfl] at hdec
  cases (Option.some.inj hdec)

theorem encodeCursorToken_ne_empty (c : PageCursor) : encodeCursorToken c ≠ "" :=
  encode_ne_empty _ _

theorem encodePageToken_ne_empty (n : ℤ) : encodePageToken n ≠ "" :=
  encode_ne_empty _ _

/-- **A cursor is read back**, at the instant of its `UnixNano`. -/
theorem decodeTokenKind_encodeCursorToken {c : PageCursor} (hid : c.id ≠ []) :
    decodeTokenKind (encodeCursorToken c) = .ok (.cursor ⟨unixNano c.time, c.id⟩) := by
  have hv1 : ∀ bs, afterMark (asciiBytes "v1:") (asciiBytes "v2:" ++ bs) = none := fun bs => rfl
  obtain ⟨htake, hdrop⟩ := span_cursor (unixNano c.time) c.id
  have hparse : parseInt (byteText (asciiBytes (formatInt (unixNano c.time)))) =
      (⟨unixNano c.time, unixNano_bounds c.time⟩, none) := by
    rw [byteText_asciiBytes fun c hc => (toNat_lt_of_mem_formatInt hc).trans (by decide)]
    exact parseInt_formatInt ⟨unixNano c.time, unixNano_bounds c.time⟩
  rw [decodeTokenKind, if_neg (encodeCursorToken_ne_empty c), encodeCursorToken,
    Base64.decode_encode]
  simp only [hv1, afterMark_append]
  rw [decodeCursorPayload, hdrop, htake, hparse]
  cases hc : c.id with
  | nil => exact absurd hc hid
  | cons b id => rfl

/-! ### The two decoders -/

/-- The kind of an offset is read back. -/
theorem decodeTokenKind_encodePageToken {n : ℤ} (h0 : 0 ≤ n) (hn : n < 2 ^ 31) :
    decodeTokenKind (encodePageToken n) = .ok (.offset n) := by
  have hparse : parseInt (byteText (asciiBytes (formatInt n))) = (⟨n, by omega⟩, none) := by
    rw [byteText_asciiBytes fun c hc => (toNat_lt_of_mem_formatInt hc).trans (by decide)]
    exact parseInt_formatInt ⟨n, by omega⟩
  rw [decodeTokenKind, if_neg (encodePageToken_ne_empty n), encodePageToken, Base64.decode_encode]
  simp only [afterMark_append, decodeOffsetPayload, hparse]
  rw [if_neg (by omega)]

/-- A token of the first kind has its mark. -/
theorem eq_append_of_split {raw payload : List UInt8} {b : UInt8}
    (hdrop : raw.dropWhile (· ≠ 58) = b :: payload)
    (htake : raw.takeWhile (· ≠ 58) = asciiBytes "v1") : raw = asciiBytes "v1:" ++ payload := by
  have hb : b = 58 := by
    have hhead := head?_dropWhile_not (· ≠ (58 : UInt8)) raw
    rw [hdrop] at hhead
    simpa using hhead
  rw [← takeWhile_append_dropWhile (p := (· ≠ (58 : UInt8))) (l := raw), hdrop, htake, hb]
  rfl

/-- An offset, or an error. -/
theorem decodeOffsetPayload_cases (payload : List UInt8) :
    (∃ n, decodeOffsetPayload payload = .ok (.offset n)) ∨
      decodeOffsetPayload payload = .error invalidPageToken := by
  unfold decodeOffsetPayload
  split
  · split_ifs <;> simp
  · exact .inr rfl

/-- A cursor, or an error. -/
theorem decodeCursorPayload_cases (payload : List UInt8) :
    (∃ c, decodeCursorPayload payload = .ok (.cursor c)) ∨
      decodeCursorPayload payload = .error invalidPageToken := by
  unfold decodeCursorPayload
  split
  · exact .inr rfl
  · exact .inr rfl
  · split <;> simp

/-- Each decoder finds the mark of an offset where the other does. -/
theorem decodePageToken_eq (token : String) : decodePageToken token =
    match decodeTokenKind token with
    | .ok .first => .ok 0
    | .ok (.offset n) => .ok n
    | _ => .error invalidPageToken := by
  unfold decodePageToken decodeTokenKind
  split_ifs with hempty
  · rfl
  cases Base64.decode token with
  | none => rfl
  | some raw =>
    by_cases hmark : (asciiBytes "v1:").isPrefixOf raw
    · obtain ⟨payload, rfl⟩ := isPrefixOf_iff_prefix.mp hmark
      change (match decodeOffsetPayload payload with
        | .ok (.offset n) => Except.ok n
        | _ => .error invalidPageToken) = _
      simp only [afterMark_append]
      obtain ⟨n, h⟩ | h := decodeOffsetPayload_cases payload <;> rw [h]
    · have hv1 : afterMark (asciiBytes "v1:") raw = none := if_neg hmark
      simp only [hv1]
      trans .error invalidPageToken
      · cases hdrop : raw.dropWhile (· ≠ 58) with
        | nil => rfl
        | cons b payload =>
          refine if_pos fun htake => hmark ?_
          rw [eq_append_of_split hdrop htake]
          exact isPrefixOf_iff_prefix.mpr (prefix_append _ _)
      · cases afterMark (asciiBytes "v2:") raw with
        | none => rfl
        | some payload =>
          obtain ⟨c, h⟩ | h := decodeCursorPayload_cases payload <;> simp only [h]

/-- An offset is read back. -/
theorem decodePageToken_encodePageToken {n : ℤ} (h0 : 0 ≤ n) (hn : n < 2 ^ 31) :
    decodePageToken (encodePageToken n) = .ok n := by
  rw [decodePageToken_eq, decodeTokenKind_encodePageToken h0 hn]

/-- **The tokens of pages.** Both decoders read an offset back, a cursor is read back by the one
and refused by the other, and on any text the decoder of offsets accepts what the other takes for
the first page or for an offset. -/
theorem page_tokens :
    (∀ n : ℤ, 0 ≤ n → n < 2 ^ 31 → decodeTokenKind (encodePageToken n) = .ok (.offset n) ∧
      decodePageToken (encodePageToken n) = .ok n) ∧
    (∀ c : PageCursor, c.id ≠ [] → -2 ^ 63 ≤ c.time ∧ c.time < 2 ^ 63 →
      decodeTokenKind (encodeCursorToken c) = .ok (.cursor c) ∧
        decodePageToken (encodeCursorToken c) = .error invalidPageToken) ∧
    ∀ token n, decodePageToken token = .ok n ↔
      decodeTokenKind token = .ok .first ∧ n = 0 ∨ decodeTokenKind token = .ok (.offset n) := by
  refine ⟨fun n h0 hn => ?_, fun c hid htime => ?_, fun token n => ?_⟩
  · exact ⟨decodeTokenKind_encodePageToken h0 hn, decodePageToken_encodePageToken h0 hn⟩
  · have hkind := decodeTokenKind_encodeCursorToken hid
    rw [unixNano_eq_self htime] at hkind
    exact ⟨hkind, by rw [decodePageToken_eq, hkind]⟩
  · rw [decodePageToken_eq]
    split <;> simp_all [eq_comm]

theorem page_tokens_fifty : decodePageToken (encodePageToken 50) = .ok 50 :=
  (page_tokens.1 50 (by decide) (by decide)).2

end Decree
