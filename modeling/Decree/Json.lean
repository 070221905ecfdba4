import Mathlib.Tactic.IntervalCases
import Decree.Strconv

/-!
# Go's `encoding/json`

Values of JSON, the text that `json.Marshal` writes of them, and the reader behind
`json.Unmarshal` and `json.Valid`, as executable functions on character lists.

## The text

`Json.encode` writes no spaces. A string is quoted with the escapes of `encoding/json`: the two
characters that have to be escaped, the five control characters with a letter of their own, and
`\u` with four digits for the others, for `<`, `>` and `&`, and for the two line separators. A
number is kept as its literal.

## The reader

`Json.value` reads one value and returns what is behind it; `Json.unmarshal` wants nothing but
spaces behind the value. Its recursion has fuel. Each call reads a character or hands over to one
that does, so twice the length of the text is enough. The limit on the depth of nesting, ten
thousand in Go, is left out.

A struct is decoded entry by entry: a key belongs to the field with this tag, or else to the first
with this tag in another case; a key of no field is passed over, a later entry for the same field
wins, and `null` leaves a field as it is.

## Main results

* `Json.value_encode`: a value is read back from its text, whatever follows it that cannot be the
  rest of a number.
* `Json.unmarshal_marshal`: `json.Unmarshal` reads back what `json.Marshal` has written.
-/

open List

namespace Go

/-! ### Numbers -/

def isNumberChar (c : Char) : Bool :=
  c.isDigit || c ∈ ['-', '+', '.', 'e', 'E']

/-- What is behind some digits, of which there has to be one. -/
def digitsThen : List Char → Option (List Char)
  | [] => none
  | c :: cs => if c.isDigit then some (cs.dropWhile Char.isDigit) else none

/-- What is behind the digits of an integer: no zero before another digit. -/
def integerThen : List Char → Option (List Char)
  | [] => none
  | c :: cs => if c = '0' then some cs else digitsThen (c :: cs)

def fractionThen : List Char → Option (List Char)
  | [] => some []
  | c :: cs => if c = '.' then digitsThen cs else some (c :: cs)

def exponentThen : List Char → Option (List Char)
  | [] => some []
  | c :: cs =>
    if c = 'e' ∨ c = 'E' then
      match cs with
      | s :: ds => digitsThen (if s = '+' ∨ s = '-' then ds else s :: ds)
      | [] => none
    else some (c :: cs)

/-- What is behind a minus. -/
def unsigned : List Char → List Char
  | [] => []
  | c :: cs => if c = '-' then cs else c :: cs

/-- **The literals of numbers.** -/
def isNumber (cs : List Char) : Bool :=
  (integerThen (unsigned cs) >>= fractionThen >>= exponentThen) = some [] && cs.all isNumberChar

structure NumberText where
  chars : List Char
  valid : isNumber chars = true
deriving DecidableEq

/-- A number has the characters of numbers. -/
theorem NumberText.isNumberChar (n : NumberText) {c : Char} (hc : c ∈ n.chars) :
    isNumberChar c = true := by
  have hvalid := n.valid
  simp only [isNumber, Bool.and_eq_true, all_eq_true] at hvalid
  exact hvalid.2 c hc

/-- A number has a first character. -/
theorem NumberText.head (n : NumberText) :
    ∃ c cs, n.chars = c :: cs ∧ Go.isNumberChar c = true := by
  cases hn : n.chars with
  | nil =>
    have hvalid := n.valid
    rw [hn] at hvalid
    exact absurd hvalid (by decide)
  | cons c cs => exact ⟨c, cs, rfl, n.isNumberChar (by simp [hn])⟩

/-- Digits of a number that is not zero do not begin with a zero. -/
theorem head?_toDigits {n : ℕ} (h : 0 < n) : (Nat.toDigits 10 n).head? ≠ some '0' := by
  induction n using Nat.strong_induction_on with
  | _ n ih =>
    by_cases hlt : n < 10
    · rw [Nat.toDigits_of_lt_base hlt]
      interval_cases n <;> decide
    · rw [Nat.toDigits_of_base_le (by decide) (by omega),
        head?_append_of_ne_nil _ Nat.toDigits_ne_nil]
      exact ih _ (by omega) (by omega)

/-- The digits of a number are an integer. -/
theorem integerThen_toDigits (n : ℕ) : integerThen (Nat.toDigits 10 n) = some [] := by
  obtain rfl | hpos := Nat.eq_zero_or_pos n
  · rfl
  · have hdigit := fun c => Nat.isDigit_of_mem_toDigits (n := n) (c := c) (by decide) le_rfl
    have hhead := head?_toDigits hpos
    cases hn : Nat.toDigits 10 n with
    | nil => exact absurd hn Nat.toDigits_ne_nil
    | cons c cs =>
      rw [hn] at hdigit hhead
      have hzero : c ≠ '0' := by simpa using hhead
      rw [integerThen, if_neg hzero, digitsThen, if_pos (hdigit c mem_cons_self),
        dropWhile_eq_nil_iff.mpr fun d hd => hdigit d (mem_cons_of_mem _ hd)]

/-- The text of an integer is the literal of a number. -/
theorem isNumber_formatIntChars (i : ℤ) : isNumber (formatIntChars i) = true := by
  have hread : (integerThen (Nat.toDigits 10 i.natAbs) >>= fractionThen >>= exponentThen) =
      some [] := by
    rw [integerThen_toDigits]
    rfl
  have hall : (Nat.toDigits 10 i.natAbs).all isNumberChar = true := by
    rw [all_eq_true]
    intro c hc
    simp [Go.isNumberChar, Nat.isDigit_of_mem_toDigits (by decide) le_rfl hc]
  rw [formatIntChars]
  split
  · have hminus : isNumberChar '-' = true := by decide
    rw [isNumber, unsigned, if_pos rfl, hread, all_cons, hminus, hall]
    rfl
  · have hsign : unsigned (Nat.toDigits 10 i.natAbs) = Nat.toDigits 10 i.natAbs := by
      cases hn : Nat.toDigits 10 i.natAbs with
      | nil => rfl
      | cons c cs =>
        have hc : c.isDigit = true :=
          Nat.isDigit_of_mem_toDigits (by decide) le_rfl (hn ▸ mem_cons_self)
        exact if_neg (digit_ne hc).1
    rw [isNumber, hsign, hread, hall]
    rfl

def NumberText.ofInt (i : ℤ) : NumberText :=
  ⟨formatIntChars i, isNumber_formatIntChars i⟩

/-! ### Strings -/

def hexChar (d : ℕ) : Char :=
  Char.ofNat (if d < 10 then 48 + d else 87 + d)

/-- The four digits behind `\u`. -/
def hexText (n : ℕ) : List Char :=
  [hexChar (n / 4096 % 16), hexChar (n / 256 % 16), hexChar (n / 16 % 16), hexChar (n % 16)]

/-- `getu4`. -/
def hexValue : List Char → Option (ℕ × List Char)
  | a :: b :: c :: d :: cs => do
    let a ← digitValue? true a
    let b ← digitValue? true b
    let c ← digitValue? true c
    let d ← digitValue? true d
    some (((a * 16 + b) * 16 + c) * 16 + d, cs)
  | _ => none

/-- The escapes with a letter of their own. -/
def escapes : List (Char × Char) :=
  [('"', '"'), ('\\', '\\'), ('\x08', 'b'), ('\x0c', 'f'), ('\n', 'n'), ('\r', 'r'), ('\t', 't')]

/-- The other characters that are written with `\u`. -/
def isHexEscaped (c : Char) : Bool :=
  c.toNat < 32 || c ∈ ['<', '>', '&', '\u2028', '\u2029']

def escapeChar (c : Char) : List Char :=
  match escapes.lookup c with
  | some e => ['\\', e]
  | none => if isHexEscaped c then '\\' :: 'u' :: hexText c.toNat else [c]

/-- **A string as it is quoted.** -/
def quoteChars (s : String) : List Char :=
  '"' :: (s.toList.flatMap escapeChar ++ ['"'])

/-- The code of a low surrogate. -/
def lowSurrogate : List Char → Option (ℕ × List Char)
  | backslash :: u :: cs =>
    if backslash = '\\' ∧ u = 'u' then
      (hexValue cs).filter fun p => 0xDC00 ≤ p.1 ∧ p.1 < 0xE000
    else none
  | _ => none

/-- The character of `\u`: a surrogate without its other half is a replacement character. -/
def unicodeEscape (cs : List Char) : Option (Char × List Char) := do
  let (n, cs) ← hexValue cs
  if 0xD800 ≤ n ∧ n < 0xE000 then
    match (lowSurrogate cs).filter fun _ => n < 0xDC00 with
    | some (m, cs) => some (Char.ofNat (0x10000 + (n - 0xD800) * 0x400 + (m - 0xDC00)), cs)
    | none => some ('\ufffd', cs)
  else some (Char.ofNat n, cs)

/-- What an escape stands for, behind its backslash. -/
def unescape : List Char → Option (Char × List Char)
  | [] => none
  | e :: cs =>
    if e = 'u' then unicodeEscape cs
    else if e = '/' then some ('/', cs)
    else (escapes.find? fun p => p.2 = e).map fun p => (p.1, cs)

def stringBody : ℕ → List Char → Option (List Char × List Char)
  | 0, _ => none
  | _ + 1, [] => none
  | n + 1, c :: cs =>
    if c = '"' then some ([], cs)
    else do
      let (d, cs) ← if c = '\\' then unescape cs else if c.toNat < 32 then none else some (c, cs)
      let (s, cs) ← stringBody n cs
      some (d :: s, cs)

section Strings

variable {c : Char} {cs rest : List Char} {n : ℕ}

/-- Four hexadecimal digits are read back. -/
theorem hexValue_hexText (hn : n < 65536) (rest : List Char) :
    hexValue (hexText n ++ rest) = some (n, rest) := by
  have hdigit : ∀ d < 16, digitValue? true (hexChar d) = some d := by decide
  have hd (m : ℕ) : digitValue? true (hexChar (m % 16)) = some (m % 16) :=
    hdigit _ (Nat.mod_lt _ (by decide))
  simp only [hexText, cons_append, nil_append, hexValue, hd, Option.bind_eq_bind, Option.bind_some]
  congr 2
  omega

/-- An escaped character is read back. -/
theorem unicodeEscape_hexText (hn : c.toNat < 0xD800) (rest : List Char) :
    unicodeEscape (hexText c.toNat ++ rest) = some (c, rest) := by
  have hlow : ¬ (0xD800 ≤ c.toNat ∧ c.toNat < 0xE000) := by omega
  simp only [unicodeEscape, hexValue_hexText (n := c.toNat) (by omega), Option.bind_eq_bind,
    Option.bind_some, if_neg hlow, Char.ofNat_toNat]

/-- A short escape is read back. -/
theorem lookup_escapes {e : Char} (h : escapes.lookup c = some e) (rest : List Char) :
    unescape (e :: rest) = some (c, rest) := by
  obtain ⟨l, l', hsplit, -⟩ := lookup_eq_some_iff.mp h
  have hmem : (c, e) ∈ escapes := by simp [hsplit]
  simp only [escapes, mem_cons, not_mem_nil, or_false, Prod.mk.injEq] at hmem
  rcases hmem with ⟨rfl, rfl⟩ | ⟨rfl, rfl⟩ | ⟨rfl, rfl⟩ | ⟨rfl, rfl⟩ | ⟨rfl, rfl⟩ | ⟨rfl, rfl⟩ |
    ⟨rfl, rfl⟩ <;> rfl

/-- An escaped character is no surrogate. -/
theorem toNat_of_isHexEscaped (h : isHexEscaped c = true) : c.toNat < 0xD800 := by
  rcases (Bool.or_eq_true _ _).mp h with h | h
  · have hlt : c.toNat < 32 := by simpa using h
    omega
  · have hmem : c ∈ ['<', '>', '&', '\u2028', '\u2029'] := by simpa using h
    simp only [mem_cons, not_mem_nil, or_false] at hmem
    rcases hmem with rfl | rfl | rfl | rfl | rfl <;> decide

/-- **A character is read back from its escape.** -/
theorem stringBody_escapeChar (n : ℕ) (c : Char) (rest : List Char) :
    stringBody (n + 1) (escapeChar c ++ rest) =
      (stringBody n rest).map fun p => (c :: p.1, p.2) := by
  have hback (e : Char) (cs : List Char) (h : unescape (e :: cs) = some (c, rest)) :
      stringBody (n + 1) ('\\' :: e :: cs) =
        (stringBody n rest).map fun p => (c :: p.1, p.2) := by
    rw [stringBody, if_neg (by decide), if_pos rfl, h]
    simp only [Option.bind_eq_bind, Option.bind_some]
    cases stringBody n rest <;> rfl
  rw [escapeChar]
  cases hesc : escapes.lookup c with
  | some e => exact hback e rest (lookup_escapes hesc rest)
  | none =>
    by_cases hhex : isHexEscaped c = true
    · rw [if_pos hhex]
      refine hback 'u' _ ?_
      rw [unescape, if_pos rfl]
      exact unicodeEscape_hexText (toNat_of_isHexEscaped hhex) rest
    · -- a character that stands for itself
      have hquote : c ≠ '"' := by
        rintro rfl
        exact absurd hesc (by decide)
      have hslash : c ≠ '\\' := by
        rintro rfl
        exact absurd hesc (by decide)
      have hctrl : ¬ c.toNat < 32 := fun h => hhex (by simp [isHexEscaped, h])
      rw [if_neg hhex, singleton_append, stringBody, if_neg hquote, if_neg hslash, if_neg hctrl]
      simp only [Option.bind_eq_bind, Option.bind_some]
      cases stringBody n rest <;> rfl

/-- A quoted string is read back. -/
theorem stringBody_quoted (hn : cs.length < n) (rest : List Char) :
    stringBody n (cs.flatMap escapeChar ++ '"' :: rest) = some (cs, rest) := by
  induction cs generalizing n with
  | nil =>
    obtain ⟨m, rfl⟩ := Nat.exists_eq_add_of_lt hn
    rfl
  | cons c cs ih =>
    obtain ⟨m, rfl⟩ : ∃ m, n = m + 1 := ⟨n - 1, by omega⟩
    rw [flatMap_cons, append_assoc, stringBody_escapeChar, ih (by simpa using hn)]
    rfl

end Strings

/-! ### Values -/

/-- **The values of JSON.** -/
inductive Json where
  | null
  | bool (b : Bool)
  | num (n : NumberText)
  | str (s : String)
  | arr (vs : List Json)
  | obj (kvs : List (String × Json))

namespace Json

mutual

/-- **The text of a value**, as `json.Marshal` writes it. -/
def encode : Json → List Char
  | null => ['n', 'u', 'l', 'l']
  | bool true => ['t', 'r', 'u', 'e']
  | bool false => ['f', 'a', 'l', 's', 'e']
  | num n => n.chars
  | str s => quoteChars s
  | arr [] => ['[', ']']
  | arr (v :: vs) => '[' :: (encode v ++ encodeElems vs)
  | obj [] => ['\x7b', '\x7d']
  | obj (kv :: kvs) => '\x7b' :: (encodeMember kv ++ encodeMembers kvs)

/-- The elements after the first, and the bracket. -/
def encodeElems : List Json → List Char
  | [] => [']']
  | v :: vs => ',' :: (encode v ++ encodeElems vs)

def encodeMember : String × Json → List Char
  | (k, v) => quoteChars k ++ ':' :: encode v

/-- The members after the first, and the brace. -/
def encodeMembers : List (String × Json) → List Char
  | [] => ['\x7d']
  | kv :: kvs => ',' :: (encodeMember kv ++ encodeMembers kvs)

end

def isSpace (c : Char) : Bool :=
  c ∈ [' ', '\t', '\r', '\n']

def skipSpace (cs : List Char) : List Char :=
  cs.dropWhile isSpace

/-- What is behind a word. -/
def word (w cs : List Char) : Option (List Char) :=
  if cs.take w.length = w then some (cs.drop w.length) else none

def number (cs : List Char) : Option (Json × List Char) :=
  if h : isNumber (cs.takeWhile isNumberChar) = true then
    some (num ⟨cs.takeWhile isNumberChar, h⟩, cs.dropWhile isNumberChar)
  else none

mutual

/-- **Reading a value**: the value, and what is behind it. -/
def value : ℕ → List Char → Option (Json × List Char)
  | 0, _ => none
  | n + 1, cs =>
    match skipSpace cs with
    | [] => none
    | c :: cs =>
      if c = '"' then (stringBody cs.length cs).map fun p => (str (.ofList p.1), p.2)
      else if c = '[' then
        if (skipSpace cs).head? = some ']' then some (arr [], (skipSpace cs).tail)
        else (elems n cs).map fun p => (arr p.1, p.2)
      else if c = '\x7b' then
        if (skipSpace cs).head? = some '\x7d' then some (obj [], (skipSpace cs).tail)
        else (members n cs).map fun p => (obj p.1, p.2)
      else if c = 't' then (word ['r', 'u', 'e'] cs).map fun cs => (bool true, cs)
      else if c = 'f' then (word ['a', 'l', 's', 'e'] cs).map fun cs => (bool false, cs)
      else if c = 'n' then (word ['u', 'l', 'l'] cs).map fun cs => (null, cs)
      else number (c :: cs)

/-- The elements of an array, up to its bracket. -/
def elems : ℕ → List Char → Option (List Json × List Char)
  | 0, _ => none
  | n + 1, cs => do
    let (v, cs) ← value n cs
    match skipSpace cs with
    | [] => none
    | c :: cs =>
      if c = ']' then some ([v], cs)
      else if c = ',' then (elems n cs).map fun p => (v :: p.1, p.2)
      else none

/-- The members of an object, up to its brace. -/
def members : ℕ → List Char → Option (List (String × Json) × List Char)
  | 0, _ => none
  | n + 1, cs => do
    let (k, cs) ← match skipSpace cs with
      | [] => none
      | c :: cs => if c = '"' then stringBody cs.length cs else none
    match skipSpace cs with
    | [] => none
    | c :: cs =>
      if c = ':' then do
        let (v, cs) ← value n cs
        match skipSpace cs with
        | [] => none
        | c :: cs =>
          if c = '\x7d' then some ([(.ofList k, v)], cs)
          else if c = ',' then (members n cs).map fun p => ((.ofList k, v) :: p.1, p.2)
          else none
      else none

end

def marshal (v : Json) : String :=
  .ofList v.encode

/-- **`json.Unmarshal`** into an untyped value. -/
def unmarshal (s : String) : Option Json :=
  match value (2 * s.toList.length + 2) s.toList with
  | some (v, cs) => if skipSpace cs = [] then some v else none
  | none => none

def valid (s : String) : Bool :=
  (unmarshal s).isSome

/-! ### Reading back -/

section ReadBack

variable {n : ℕ} {v : Json} {rest : List Char}

/-- What cannot be the rest of a number. -/
def Stops (cs : List Char) : Prop :=
  ∀ c ∈ cs.head?, isNumberChar c = false

/-- A value starts with no space and no bracket that closes. -/
theorem encode_head (v : Json) :
    ∃ c cs, v.encode = c :: cs ∧ isSpace c = false ∧ c ≠ ']' := by
  have hnumber (c : Char) (h : isNumberChar c = true) : isSpace c = false ∧ c ≠ ']' := by
    constructor
    · rw [Bool.eq_false_iff]
      intro hspace
      have hmem : c ∈ [' ', '\t', '\r', '\n'] := by simpa [isSpace] using hspace
      simp only [mem_cons, not_mem_nil, or_false] at hmem
      rcases hmem with rfl | rfl | rfl | rfl <;> exact absurd h (by decide)
    · rintro rfl
      exact absurd h (by decide)
  cases v with
  | null => exact ⟨_, _, by rw [encode], by decide⟩
  | bool b => cases b <;> exact ⟨_, _, by rw [encode], by decide⟩
  | num m =>
    obtain ⟨c, cs, hc, hnum⟩ := m.head
    exact ⟨c, cs, by rw [encode, hc], hnumber c hnum⟩
  | str s => exact ⟨_, _, by rw [encode, quoteChars], by decide⟩
  | arr vs => cases vs <;> exact ⟨_, _, by rw [encode], by decide⟩
  | obj kvs => cases kvs <;> exact ⟨_, _, by rw [encode], by decide⟩

theorem skipSpace_cons {c : Char} (h : isSpace c = false) (cs : List Char) :
    skipSpace (c :: cs) = c :: cs :=
  dropWhile_cons_of_neg (by simp [h])

/-- A text does not start with a space. -/
theorem skipSpace_encode (v : Json) (rest : List Char) :
    skipSpace (v.encode ++ rest) = v.encode ++ rest := by
  obtain ⟨c, cs, hc, hspace, -⟩ := encode_head v
  rw [hc, cons_append, skipSpace_cons hspace]

/-- A number ends where its text does. -/
theorem span_number (m : NumberText) (hrest : Stops rest) :
    (m.chars ++ rest).takeWhile isNumberChar = m.chars ∧
      (m.chars ++ rest).dropWhile isNumberChar = rest := by
  have hall : ∀ c ∈ m.chars, isNumberChar c = true := fun c hc => m.isNumberChar hc
  have htake : rest.takeWhile isNumberChar = [] ∧ rest.dropWhile isNumberChar = rest := by
    cases rest with
    | nil => exact ⟨rfl, rfl⟩
    | cons c cs =>
      have hc : isNumberChar c = false := hrest c rfl
      exact ⟨takeWhile_cons_of_neg (by simp [hc]), dropWhile_cons_of_neg (by simp [hc])⟩
  rw [takeWhile_append_of_pos hall, dropWhile_append_of_pos hall, htake.1, htake.2, append_nil]
  exact ⟨rfl, rfl⟩

/-- A number is read back. -/
theorem number_chars (m : NumberText) (hrest : Stops rest) :
    number (m.chars ++ rest) = some (num m, rest) := by
  obtain ⟨htake, hdrop⟩ := span_number m hrest
  simp only [number, htake, hdrop, m.valid, dite_true]

/-- A string with its quotes is read back. -/
theorem stringBody_quoteChars (s : String) (rest : List Char) :
    ∃ cs, quoteChars s ++ rest = '"' :: cs ∧ stringBody cs.length cs = some (s.toList, rest) := by
  refine ⟨s.toList.flatMap escapeChar ++ '"' :: rest, by simp [quoteChars], ?_⟩
  refine stringBody_quoted ?_ rest
  have hlen : s.toList.length ≤ (s.toList.flatMap escapeChar).length := by
    rw [length_flatMap]
    refine (by simp : s.toList.length = (s.toList.map fun _ => 1).sum).trans_le ?_
    refine sum_le_sum fun c _ => ?_
    rw [escapeChar]
    split
    · simp
    · split <;> simp
  simp only [length_append, length_cons]
  omega

theorem stops_cons {c : Char} (h : isNumberChar c = false) (cs : List Char) : Stops (c :: cs) := by
  rintro d ⟨⟩
  exact h

/-- Elements end a number. -/
theorem stops_elems (vs : List Json) (rest : List Char) : Stops (encodeElems vs ++ rest) := by
  cases vs with
  | nil => exact stops_cons (by decide) _
  | cons v vs => exact stops_cons (by decide) _

/-- Members end a number. -/
theorem stops_members (kvs : List (String × Json)) (rest : List Char) :
    Stops (encodeMembers kvs ++ rest) := by
  cases kvs with
  | nil => exact stops_cons (by decide) _
  | cons kv kvs => exact stops_cons (by decide) _

/-- The reader reads back every text up to a length. -/
structure ReadsBack (n : ℕ) : Prop where
  value : ∀ (v : Json) rest, v.encode.length ≤ n → Stops rest →
    Json.value n (v.encode ++ rest) = some (v, rest)
  elems : ∀ (v : Json) vs rest, (v.encode ++ encodeElems vs).length ≤ n →
    Json.elems n (v.encode ++ (encodeElems vs ++ rest)) = some (v :: vs, rest)
  members : ∀ kv kvs rest, (encodeMember kv ++ encodeMembers kvs).length ≤ n →
    Json.members n (encodeMember kv ++ (encodeMembers kvs ++ rest)) = some (kv :: kvs, rest)

/-- A word is read back. -/
theorem value_word (c : Char) (w rest : List Char) (v : Json) (hspace : isSpace c = false)
    (h : (c = 't' ∧ w = ['r', 'u', 'e'] ∧ v = bool true) ∨
      (c = 'f' ∧ w = ['a', 'l', 's', 'e'] ∧ v = bool false) ∨
      (c = 'n' ∧ w = ['u', 'l', 'l'] ∧ v = null)) :
    value (n + 1) (c :: (w ++ rest)) = some (v, rest) := by
  rw [value, skipSpace_cons hspace]
  rcases h with ⟨rfl, rfl, rfl⟩ | ⟨rfl, rfl, rfl⟩ | ⟨rfl, rfl, rfl⟩ <;> rfl

/-- The step for values. -/
theorem ReadsBack.value_succ (h : ReadsBack n) (hlen : v.encode.length ≤ n + 1)
    (hrest : Stops rest) : Json.value (n + 1) (v.encode ++ rest) = some (v, rest) := by
  cases v with
  | null => exact value_word 'n' _ rest _ (by decide) (by simp)
  | bool b =>
    cases b with
    | true => exact value_word 't' _ rest _ (by decide) (by simp)
    | false => exact value_word 'f' _ rest _ (by decide) (by simp)
  | num m =>
    obtain ⟨c, cs, hc, hnum⟩ := m.head
    have hchars := number_chars m hrest
    rw [Json.value, skipSpace_encode]
    rw [encode, hc, cons_append] at *
    have hne (d : Char) (hd : isNumberChar d = false) : c ≠ d := by
      rintro rfl
      rw [hd] at hnum
      cases hnum
    simp only [hne _ (by decide : isNumberChar '"' = false), hne _ (by decide : isNumberChar '[' =
      false), hne _ (by decide : isNumberChar '\x7b' = false), hne _ (by decide : isNumberChar 't' =
      false), hne _ (by decide : isNumberChar 'f' = false), hne _ (by decide : isNumberChar 'n' =
      false), if_false]
    exact hchars
  | str s =>
    obtain ⟨cs, hcs, hbody⟩ := stringBody_quoteChars s rest
    rw [encode, hcs, Json.value, skipSpace_cons (by decide)]
    simp [hbody]
  | arr vs =>
    cases vs with
    | nil =>
      rw [encode, Json.value]
      rfl
    | cons v vs =>
      obtain ⟨c, cs, hc, hspace, hclose⟩ := encode_head v
      have hread := h.elems v vs rest (by
        rw [encode, length_cons] at hlen
        omega)
      rw [encode, cons_append, append_assoc, Json.value, skipSpace_cons (by decide)]
      have hhead : (skipSpace (v.encode ++ (encodeElems vs ++ rest))).head? ≠ some ']' := by
        rw [skipSpace_encode, hc]
        simpa using hclose
      simp [hhead, hread]
  | obj kvs =>
    cases kvs with
    | nil =>
      rw [encode, Json.value]
      rfl
    | cons kv kvs =>
      have hread := h.members kv kvs rest (by
        rw [encode, length_cons] at hlen
        omega)
      rw [encode, cons_append, append_assoc, Json.value, skipSpace_cons (by decide)]
      have hhead : (skipSpace (encodeMember kv ++ (encodeMembers kvs ++ rest))).head? ≠
          some '\x7d' := by
        rw [encodeMember, quoteChars, cons_append, cons_append, skipSpace_cons (by decide)]
        simp
      simp [hhead, hread]

/-- **Every value is read back**, at any depth. -/
theorem readsBack (n : ℕ) : ReadsBack n := by
  induction n with
  | zero =>
    refine ⟨fun v rest hlen => ?_, fun v vs rest hlen => ?_, fun kv kvs rest hlen => ?_⟩
    · obtain ⟨c, cs, hc, -⟩ := encode_head v
      simp [hc] at hlen
    · obtain ⟨c, cs, hc, -⟩ := encode_head v
      simp [hc] at hlen
    · obtain ⟨k, v⟩ := kv
      simp [encodeMember, quoteChars] at hlen
  | succ n ih =>
    refine ⟨fun v rest => ih.value_succ, fun v vs rest hlen => ?_, fun kv kvs rest hlen => ?_⟩
    · have hpos : 0 < (encodeElems vs).length := by cases vs <;> simp [encodeElems]
      rw [elems, ih.value v _ (by rw [length_append] at hlen; omega) (stops_elems vs rest)]
      simp only [Option.bind_eq_bind, Option.bind_some]
      cases vs with
      | nil => rfl
      | cons v' vs =>
        have hread := ih.elems v' vs rest (by
          simp only [encodeElems, length_append, length_cons] at hlen ⊢
          omega)
        rw [encodeElems, cons_append, append_assoc, skipSpace_cons (by decide)]
        simp [hread]
    · obtain ⟨k, v⟩ := kv
      obtain ⟨cs, hcs, hbody⟩ := stringBody_quoteChars k
        (':' :: (v.encode ++ (encodeMembers kvs ++ rest)))
      have htext : encodeMember (k, v) ++ (encodeMembers kvs ++ rest) = '"' :: cs := by
        rw [← hcs, encodeMember, append_assoc, cons_append]
      have hpos : 0 < (encodeMembers kvs).length := by cases kvs <;> simp [encodeMembers]
      have hvalue := ih.value v (encodeMembers kvs ++ rest) (by
        rw [length_append, encodeMember, length_append, length_cons] at hlen
        omega) (stops_members kvs rest)
      rw [htext, members, skipSpace_cons (by decide)]
      simp only [if_true, hbody, Option.bind_eq_bind, Option.bind_some]
      rw [skipSpace_cons (by decide)]
      simp only [if_true, hvalue, Option.bind_some]
      cases kvs with
      | nil =>
        rw [encodeMembers, singleton_append, skipSpace_cons (by decide)]
        simp
      | cons kv' kvs =>
        have hread := ih.members kv' kvs rest (by
          simp only [encodeMembers, length_append, length_cons] at hlen ⊢
          omega)
        rw [encodeMembers, cons_append, append_assoc, skipSpace_cons (by decide)]
        simp [hread]

/-- **A value is read back from its text.** -/
theorem value_encode (hlen : v.encode.length ≤ n) (hrest : Stops rest) :
    value n (v.encode ++ rest) = some (v, rest) :=
  (readsBack n).value v rest hlen hrest

/-- **What was written is read back.** -/
theorem unmarshal_marshal (v : Json) : unmarshal (marshal v) = some v := by
  have hread : value (2 * v.encode.length + 2) (v.encode ++ []) = some (v, []) :=
    value_encode (by omega) (by simp [Stops])
  rw [append_nil] at hread
  simp [unmarshal, marshal, hread, skipSpace]

example : marshal (.obj [("a<b", .arr [.str "x\n\"y", .null])]) =
    "\x7b\"a\\u003cb\":[\"x\\n\\\"y\",null]\x7d" := by
  decide +kernel

example : (["[1, -2.5e+3 ]", "\"\\ud83d\\ude00\"", "[1,]", "01", "\x7bnot json",
      "\"a\n\""].map valid) =
    [true, true, false, false, false, false] := by
  decide +kernel

end ReadBack

/-! ### Decoding into Go values -/

section Decode

variable {α γ : Type}

/-- `foldRune`, as far as a tag of ASCII letters can tell. -/
def foldChar (c : Char) : Char :=
  if c = '\u017f' then 'S' else if c = '\u212a' then 'K' else c.toUpper

def foldName (key : String) : List Char :=
  key.toList.map foldChar

/-- A field of text with `omitempty`. -/
def omitEmpty (tag s : String) : List (String × Json) :=
  if s = "" then [] else [(tag, .str s)]

/-- Decoding into a new string. -/
def intoString : Json → Option String
  | .str s => some s
  | .null => some ""
  | _ => none

/-- Decoding into a slice that is `nil`. -/
def intoSlice (elem : Json → Option α) : Json → Option (List α)
  | .arr vs => vs.mapM elem
  | .null => some []
  | _ => none

/-- Decoding into a pointer that is `nil`. -/
def intoPointer (elem : Json → Option α) : Json → Option (Option α)
  | .null => some none
  | v => (elem v).map some

/-- A field of text under its tag: `null` leaves it as it is. -/
def textField (tag : String) (set : String → α → α) : String × (Json → α → Option α) :=
  (tag, fun
    | .str s, a => some (set s a)
    | .null, a => some a
    | _, _ => none)

/-- Decoding into a struct: the entries in turn, each into the field whose tag is its key. -/
def intoStruct (fields : List (String × (Json → α → Option α))) (zero : α) : Json → Option α
  | .obj kvs => kvs.foldlM (fun a kv =>
      match (fields.find? fun f => f.1 = kv.1) <|>
          fields.find? fun f => foldName f.1 = foldName kv.1 with
      | some f => f.2 kv.2 a
      | none => some a) zero
  | .null => some zero
  | _ => none

/-- A slice of structs as a column, which is never `null`. -/
def marshalSlice (enc : α → Json) (l : List α) : String :=
  if l.isEmpty then "[]" else marshal (.arr (l.map enc))

/-- The slice of a column, `nil` if it cannot be decoded. -/
def unmarshalSlice (dec : Json → Option γ) (raw : String) : List γ :=
  if raw = "" then [] else ((unmarshal raw).bind (intoSlice dec)).getD []

/-- **A slice is read back**, if its elements are. -/
theorem unmarshalSlice_marshalSlice {enc : α → Json} {dec : Json → Option γ} {f : α → γ}
    (h : ∀ a, dec (enc a) = some (f a)) (l : List α) :
    unmarshalSlice dec (marshalSlice enc l) = l.map f := by
  have hslice : (l.map enc).mapM dec = some (l.map f) := by
    induction l with
    | nil => rfl
    | cons a l ih =>
      rw [map_cons, mapM_cons, h, ih]
      rfl
  have hvalue : unmarshal (marshalSlice enc l) = some (.arr (l.map enc)) := by
    cases l with
    | nil => exact unmarshal_marshal (.arr [])
    | cons a l => exact unmarshal_marshal _
  rw [unmarshalSlice, if_neg, hvalue]
  · simp [intoSlice, hslice]
  · intro hempty
    rw [hempty] at hvalue
    cases hvalue

end Decode

end Json

end Go
