import Mathlib.Data.List.Basic

/-!
# Go's `base64.StdEncoding`

The standard alphabet with padding, as Go's `encoding/base64` reads and writes it. The decoder
skips line breaks and does not look at the bits that the padding stands for.

## Main results

* `decode_encode`: what is encoded is read back.
-/

namespace Go.Base64

def digit (n : ℕ) : Char :=
  if n < 26 then Char.ofNat (65 + n)
  else if n < 52 then Char.ofNat (71 + n)
  else if n < 62 then Char.ofNat (n - 4)
  else if n = 62 then '+'
  else '/'

def value (c : Char) : Option ℕ :=
  if 'A' ≤ c ∧ c ≤ 'Z' then some (c.toNat - 65)
  else if 'a' ≤ c ∧ c ≤ 'z' then some (c.toNat - 71)
  else if '0' ≤ c ∧ c ≤ '9' then some (c.toNat + 4)
  else if c = '+' then some 62
  else if c = '/' then some 63
  else none

def encodeChars : List UInt8 → List Char
  | [] => []
  | [a] => [digit (a.toNat / 4), digit (a.toNat % 4 * 16), '=', '=']
  | [a, b] =>
    [digit (a.toNat / 4), digit (a.toNat % 4 * 16 + b.toNat / 16), digit (b.toNat % 16 * 4), '=']
  | a :: b :: c :: rest =>
    digit (a.toNat / 4) :: digit (a.toNat % 4 * 16 + b.toNat / 16) ::
      digit (b.toNat % 16 * 4 + c.toNat / 64) :: digit (c.toNat % 64) :: encodeChars rest

/-- **`EncodeToString`**. -/
def encode (bs : List UInt8) : String :=
  String.ofList (encodeChars bs)

/-- The bytes of two, three or four digits. -/
def bytes₁ (x y : ℕ) : List UInt8 :=
  [UInt8.ofNat (x * 4 + y / 16)]

@[inherit_doc bytes₁]
def bytes₂ (x y z : ℕ) : List UInt8 :=
  [UInt8.ofNat (x * 4 + y / 16), UInt8.ofNat (y % 16 * 16 + z / 4)]

@[inherit_doc bytes₁]
def bytes₃ (x y z w : ℕ) : List UInt8 :=
  [UInt8.ofNat (x * 4 + y / 16), UInt8.ofNat (y % 16 * 16 + z / 4), UInt8.ofNat (z % 4 * 64 + w)]

/-- The bytes of characters without line breaks. Padding is at the end only. -/
def decodeChars : List Char → Option (List UInt8)
  | [] => some []
  | a :: b :: c :: d :: rest => do
      let x ← value a
      let y ← value b
      if rest = [] ∧ d = '=' then
        if c = '=' then some (bytes₁ x y)
        else do
          let z ← value c
          some (bytes₂ x y z)
      else do
        let z ← value c
        let w ← value d
        let bs ← decodeChars rest
        some (bytes₃ x y z w ++ bs)
  | _ => none

/-- **`DecodeString`**. -/
def decode (s : String) : Option (List UInt8) :=
  decodeChars (s.toList.filter fun c => c ≠ '\r' ∧ c ≠ '\n')

/-- A digit is read back, and is neither padding nor a line break. -/
theorem digit_spec {n : ℕ} (h : n < 64) :
    value (digit n) = some n ∧ digit n ≠ '=' ∧ digit n ≠ '\r' ∧ digit n ≠ '\n' := by
  have hall : ∀ x : Fin 64, value (digit x) = some x.1 ∧ digit x ≠ '=' ∧ digit x ≠ '\r' ∧
      digit x ≠ '\n' := by decide
  exact hall ⟨n, h⟩

theorem bytes₃_eq (a b c : UInt8) :
    bytes₃ (a.toNat / 4) (a.toNat % 4 * 16 + b.toNat / 16) (b.toNat % 16 * 4 + c.toNat / 64)
      (c.toNat % 64) = [a, b, c] := by
  have ha := a.toNat_lt
  have hb := b.toNat_lt
  have hc := c.toNat_lt
  have h1 : a.toNat / 4 * 4 + (a.toNat % 4 * 16 + b.toNat / 16) / 16 = a.toNat := by omega
  have h2 : (a.toNat % 4 * 16 + b.toNat / 16) % 16 * 16 +
      (b.toNat % 16 * 4 + c.toNat / 64) / 4 = b.toNat := by omega
  have h3 : (b.toNat % 16 * 4 + c.toNat / 64) % 4 * 64 + c.toNat % 64 = c.toNat := by omega
  rw [bytes₃, h1, h2, h3, UInt8.ofNat_toNat, UInt8.ofNat_toNat, UInt8.ofNat_toNat]

theorem bytes₂_eq (a b : UInt8) :
    bytes₂ (a.toNat / 4) (a.toNat % 4 * 16 + b.toNat / 16) (b.toNat % 16 * 4) = [a, b] := by
  have h := bytes₃_eq a b 0
  simp only [bytes₃, UInt8.toNat_zero, Nat.zero_div, Nat.add_zero, List.cons.injEq] at h
  rw [bytes₂, h.1, h.2.1]

theorem bytes₁_eq (a : UInt8) : bytes₁ (a.toNat / 4) (a.toNat % 4 * 16) = [a] := by
  have h := bytes₂_eq a 0
  simp only [bytes₂, UInt8.toNat_zero, Nat.zero_div, Nat.add_zero, List.cons.injEq] at h
  rw [bytes₁, h.1]

theorem decodeChars_encodeChars (bs : List UInt8) : decodeChars (encodeChars bs) = some bs := by
  induction bs using encodeChars.induct with
  | case1 => rfl
  | case2 a =>
    have ha := a.toNat_lt
    rw [encodeChars, decodeChars, (digit_spec (by omega)).1, (digit_spec (by omega)).1]
    simp [bytes₁_eq]
  | case3 a b =>
    have ha := a.toNat_lt
    have hb := b.toNat_lt
    have hz := digit_spec (show b.toNat % 16 * 4 < 64 by omega)
    rw [encodeChars, decodeChars, (digit_spec (by omega)).1, (digit_spec (by omega)).1]
    simp [hz.1, hz.2.1, bytes₂_eq]
  | case4 a b c rest ih =>
    have ha := a.toNat_lt
    have hb := b.toNat_lt
    have hc := c.toNat_lt
    have hw := digit_spec (show c.toNat % 64 < 64 by omega)
    rw [encodeChars, decodeChars, (digit_spec (by omega)).1, (digit_spec (by omega)).1,
      (digit_spec (by omega)).1, hw.1, ih]
    simp [hw.2.1, bytes₃_eq]

theorem filter_encodeChars (bs : List UInt8) :
    (encodeChars bs).filter (fun c => c ≠ '\r' ∧ c ≠ '\n') = encodeChars bs := by
  have hdigit : ∀ {n : ℕ}, n < 64 → digit n ≠ '\r' ∧ digit n ≠ '\n' := fun h => (digit_spec h).2.2
  rw [List.filter_eq_self]
  induction bs using encodeChars.induct with
  | case1 => simp [encodeChars]
  | case2 a =>
    have ha := a.toNat_lt
    simp [encodeChars, hdigit (show a.toNat / 4 < 64 by omega),
      hdigit (show a.toNat % 4 * 16 < 64 by omega)]
  | case3 a b =>
    have ha := a.toNat_lt
    have hb := b.toNat_lt
    simp [encodeChars, hdigit (show a.toNat / 4 < 64 by omega),
      hdigit (show a.toNat % 4 * 16 + b.toNat / 16 < 64 by omega),
      hdigit (show b.toNat % 16 * 4 < 64 by omega)]
  | case4 a b c rest ih =>
    have ha := a.toNat_lt
    have hb := b.toNat_lt
    have hc := c.toNat_lt
    intro x hx
    rw [encodeChars] at hx
    simp only [List.mem_cons] at hx
    rcases hx with rfl | rfl | rfl | rfl | hx
    · simp [hdigit (show a.toNat / 4 < 64 by omega)]
    · simp [hdigit (show a.toNat % 4 * 16 + b.toNat / 16 < 64 by omega)]
    · simp [hdigit (show b.toNat % 16 * 4 + c.toNat / 64 < 64 by omega)]
    · simp [hdigit (show c.toNat % 64 < 64 by omega)]
    · exact ih x hx

/-- **What is encoded is read back.** -/
@[simp] theorem decode_encode (bs : List UInt8) : decode (encode bs) = some bs := by
  rw [decode, encode, String.toList_ofList, filter_encodeChars, decodeChars_encodeChars]

end Go.Base64
