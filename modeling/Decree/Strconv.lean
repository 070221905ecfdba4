import Mathlib.Data.List.DropRight
import Mathlib.Tactic.Ring
import Decree.Float64

/-!
# Go's `strconv`

`ParseInt` and `FormatInt` in base ten, `ParseBool` and `FormatBool`, `ParseFloat`,
`FormatFloat(x, 'f', -1, 64)` and what `fmt` prints of a number, as executable functions on
character lists. The parsers return a
value next to their error, as the Go functions do: a syntax error comes with the zero value, a
range error with the value nearest to what was written. Callers that drop the error go on with that
value.

## Main results

* `parseInt_formatInt`, `parseBool_formatBool`, `parseFloat_formatFloat`: the round trips.
* `sprintFloat_injective`: numbers are told by their text.
-/

open List

namespace Go

abbrev I64 := { i : ℤ // -2 ^ 63 ≤ i ∧ i < 2 ^ 63 }

namespace I64

/-- The nearest `int64`. -/
def clamp (i : ℤ) : I64 :=
  ⟨max (-2 ^ 63) (min i (2 ^ 63 - 1)), by omega⟩

def zero : I64 :=
  ⟨0, by norm_num⟩

@[simp] theorem clamp_coe (i : I64) : clamp i.1 = i := by
  obtain ⟨i, h⟩ := i
  simp only [clamp, Subtype.mk.injEq]
  omega

end I64

/-- The errors of `strconv`: text that is not of the form, and a number that does not
fit. -/
inductive NumError where
  | syntaxError
  | rangeError
deriving DecidableEq, Repr

/-! ### Integers -/

/-- The part before a separator that it does not contain is determined. -/
theorem append_sep_inj {α : Type} {sep : α} {a b r r' : List α} (ha : sep ∉ a) (hb : sep ∉ b)
    (h : a ++ sep :: r = b ++ sep :: r') : a = b ∧ r = r' := by
  induction a generalizing b with
  | nil =>
    cases b with
    | nil => exact ⟨rfl, (cons.inj h).2⟩
    | cons y b => exact absurd (cons.inj h).1 (fun e => hb (e ▸ mem_cons_self))
  | cons x a ih =>
    cases b with
    | nil => exact absurd (cons.inj h).1.symm (fun e => ha (e ▸ mem_cons_self))
    | cons y b =>
      obtain ⟨rfl, htl⟩ := cons.inj h
      obtain ⟨rfl, rfl⟩ := ih (fun hm => ha (mem_cons_of_mem _ hm))
        (fun hm => hb (mem_cons_of_mem _ hm)) htl
      exact ⟨rfl, rfl⟩

/-- The digit loop of `ParseUint` in base ten, with the value read so far. It stops at
the first character that is no digit and at the first digit that overflows, whichever
comes first. -/
def parseUintLoop : List Char → ℕ → Except NumError ℕ
  | [], n => .ok n
  | c :: cs, n =>
    if c.isDigit then
      let n' := 10 * n + (c.toNat - '0'.toNat)
      if n' < 2 ^ 64 then parseUintLoop cs n' else .error .rangeError
    else
      .error .syntaxError

/-- `ParseUint(s, 10, 64)`. -/
def parseUint (cs : List Char) : Except NumError ℕ :=
  if cs = [] then .error .syntaxError else parseUintLoop cs 0

/-- An optional sign: whether it is a minus, and what follows. -/
def readSign : List Char → Bool × List Char
  | [] => (false, [])
  | c :: cs =>
    if c = '-' then (true, cs) else if c = '+' then (false, cs) else (false, c :: cs)

/-- **`ParseInt(s, 10, 64)`**: the value and the error. -/
def parseInt (s : String) : I64 × Option NumError :=
  let (neg, cs) := readSign s.toList
  match parseUint cs with
  | .error .syntaxError => (I64.zero, some .syntaxError)
  | .error .rangeError =>
    (I64.clamp (if neg then -2 ^ 64 else 2 ^ 64), some .rangeError)
  | .ok n =>
    let i : ℤ := if neg then -n else n
    (I64.clamp i, if (I64.clamp i).1 = i then none else some .rangeError)

def formatIntChars (i : ℤ) : List Char :=
  if i < 0 then '-' :: Nat.toDigits 10 i.natAbs else Nat.toDigits 10 i.natAbs

/-- **`FormatInt(i, 10)`**. -/
def formatInt (i : ℤ) : String :=
  String.ofList (formatIntChars i)

/-! ### Booleans -/

def parseBool (s : String) : Bool × Option NumError :=
  if s ∈ ["1", "t", "T", "true", "TRUE", "True"] then (true, none)
  else if s ∈ ["0", "f", "F", "false", "FALSE", "False"] then (false, none)
  else (false, some .syntaxError)

def formatBool (b : Bool) : String :=
  if b then "true" else "false"

/-! ### Floating-point numbers -/

/-- `special`: the spellings of the infinities and of not-a-number, in any case. -/
def specialFloat (cs : List Char) : Option Float64 :=
  let (neg, rest) := readSign cs
  let word := rest.map Char.toLower
  if word = "inf".toList ∨ word = "infinity".toList then some (.inf neg)
  else if cs.map Char.toLower = "nan".toList then some .nan
  else none

/-- The mantissa as it is read: the value of its digits with the point left out, how
many of them follow the point, and what has been seen. -/
structure Mantissa where
  value : ℕ
  fracDigits : ℕ
  sawDot : Bool
  sawDigits : Bool
  underscores : Bool

/-- The value of a digit: decimal, or hexadecimal after a base mark. -/
def digitValue? (hex : Bool) (c : Char) : Option ℕ :=
  if c.isDigit then some (c.toNat - '0'.toNat)
  else if hex ∧ 'a' ≤ c.toLower ∧ c.toLower ≤ 'f' then
    some (c.toLower.toNat - 'a'.toNat + 10)
  else none

/-- The mantissa loop of `readFloat`. It returns what it read and the rest. -/
def mantissaLoop (hex : Bool) : List Char → Mantissa → Mantissa × List Char
  | [], m => (m, [])
  | c :: cs, m =>
    if c = '_' then
      mantissaLoop hex cs { m with underscores := true }
    else if c = '.' then
      if m.sawDot then (m, c :: cs) else mantissaLoop hex cs { m with sawDot := true }
    else
      match digitValue? hex c with
      | some d =>
        mantissaLoop hex cs
          { m with
            value := (if hex then 16 else 10) * m.value + d
            fracDigits := if m.sawDot then m.fracDigits + 1 else m.fracDigits
            sawDigits := true }
      | none => (m, c :: cs)

/-- The exponent loop of `readFloat`: digits and underscores, where the value stops
growing once it has five digits. -/
def exponentLoop : List Char → ℕ → Bool → ℕ × Bool × List Char
  | [], e, us => (e, us, [])
  | c :: cs, e, us =>
    if c = '_' then exponentLoop cs e true
    else if c.isDigit then
      exponentLoop cs (if e < 10000 then 10 * e + (c.toNat - '0'.toNat) else e) us
    else (e, us, c :: cs)

/-- The optional exponent: `none` when its mark is there and no digit follows, or when
it is missing and required. -/
def readExponent (hex : Bool) : List Char → Option (ℤ × Bool × List Char)
  | [] => if hex then none else some (0, false, [])
  | c :: cs =>
    if c.toLower = (if hex then 'p' else 'e') then
      let (neg, cs') := readSign cs
      match cs' with
      | [] => none
      | d :: _ =>
        if d.isDigit then
          let (e, us, rest) := exponentLoop cs' 0 false
          some (if neg then -(e : ℤ) else e, us, rest)
        else none
    else if hex then none
    else some (0, false, c :: cs)

/-- The loop of `underscoreOK` with the class of the last character seen: a digit (`'0'`),
an underscore, or another character. -/
def underscoreLoop (hex : Bool) : List Char → Char → Bool
  | [], saw => saw ≠ '_'
  | c :: cs, saw =>
    if (digitValue? hex c).isSome then underscoreLoop hex cs '0'
    else if c = '_' then
      if saw = '0' then underscoreLoop hex cs '_' else false
    else if saw = '_' then false
    else underscoreLoop hex cs '!'

/-- `underscoreOK`: underscores stand only between digits, or between a base mark and a
digit. -/
def underscoreOK (cs : List Char) : Bool :=
  let (_, cs) := readSign cs
  match cs with
  | z :: b :: rest =>
    if z = '0' ∧ (b.toLower = 'b' ∨ b.toLower = 'o' ∨ b.toLower = 'x') then
      underscoreLoop (b.toLower = 'x') rest '0'
    else underscoreLoop false cs '^'
  | _ => underscoreLoop false cs '^'

/-- The base mark of `readFloat`: `0x` with something after it. -/
def readBase : List Char → Bool × List Char
  | z :: x :: d :: rest =>
    if z = '0' ∧ x.toLower = 'x' then (true, d :: rest) else (false, z :: x :: d :: rest)
  | cs => (false, cs)

/-- `readFloat`, with the whole text required: the sign and the exact magnitude. -/
def readFloat (cs : List Char) : Option (Bool × ℚ) :=
  let (neg, body) := readSign cs
  let (hex, digits) := readBase body
  let (m, rest) := mantissaLoop hex digits ⟨0, 0, false, false, false⟩
  if m.sawDigits then
    match readExponent hex rest with
    | some (e, us, []) =>
      if (m.underscores || us) && !underscoreOK cs then none
      else
        some (neg,
          if hex then (m.value : ℚ) * 2 ^ (e - 4 * m.fracDigits)
          else (m.value : ℚ) * 10 ^ (e - m.fracDigits))
    | _ => none
  else none

/-- **`ParseFloat(s, 64)`**: the value and the error. -/
def parseFloat (s : String) : Float64 × Option NumError :=
  match specialFloat s.toList with
  | some x => (x, none)
  | none =>
    match readFloat s.toList with
    | none => (.finite (.zero false), some .syntaxError)
    | some (neg, q) =>
      let x := Float64.round neg q
      (x, if x = .inf neg then some .rangeError else none)

/-- The decimal `d * 10 ^ k` reads back as `x`. -/
def readsBack (x : Finite64) (d : ℕ) (k : ℤ) : Bool :=
  Float64.round x.neg ((d : ℚ) * 10 ^ k) = .finite x

/-- The decimals of `n` digits around `x` that read back as `x`: the nearer one if both
do, and of two equally near ones the even one. -/
def decimalOfLength (x : Finite64) (n : ℕ) : Option (ℕ × ℤ) :=
  let k := Int.log 10 x.abs + 1 - n
  let lo := ⌊x.abs / 10 ^ k⌋₊
  let frac := x.abs / 10 ^ k - lo
  if readsBack x lo k && readsBack x (lo + 1) k then
    if frac < 1 / 2 ∨ frac = 1 / 2 ∧ lo % 2 = 0 then some (lo, k) else some (lo + 1, k)
  else if readsBack x lo k then some (lo, k)
  else if readsBack x (lo + 1) k then some (lo + 1, k)
  else none

/-- The exact decimal expansion of a finite value. -/
def exactDecimal (x : Finite64) : ℕ × ℤ :=
  if 0 ≤ x.exp then (x.mant * 2 ^ x.exp.toNat, 0)
  else (x.mant * 5 ^ (-x.exp).toNat, x.exp)

/-- **The shortest decimal that reads back.** Seventeen digits always suffice; the exact
expansion makes the definition total without that fact. -/
def shortestDecimal (x : Finite64) : ℕ × ℤ :=
  if x.mant = 0 then (0, 0)
  else ((List.range 17).findSome? fun i => decimalOfLength x (i + 1)).getD (exactDecimal x)

def trimZeros (cs : List Char) : List Char :=
  cs.rdropWhile (· = '0')

/-- Exactly `w` digits of a number below `10 ^ w`. -/
def padDigits (w n : ℕ) : List Char :=
  List.replicate (w - (Nat.toDigits 10 n).length) '0' ++ Nat.toDigits 10 n

/-- The text `%f` gives `d * 10 ^ k`: no exponent and no zeros after the last digit of
the fraction. -/
def formatDecimal (d : ℕ) (k : ℤ) : List Char :=
  if 0 ≤ k then Nat.toDigits 10 (d * 10 ^ k.toNat)
  else
    let w := (-k).toNat
    let frac := if d % 10 ^ w = 0 then [] else trimZeros (padDigits w (d % 10 ^ w))
    Nat.toDigits 10 (d / 10 ^ w) ++ if frac = [] then [] else '.' :: frac

/-- **`FormatFloat(x, 'f', -1, 64)`**. -/
def formatFloat : Float64 → String
  | .nan => "NaN"
  | .inf neg => if neg then "-Inf" else "+Inf"
  | .finite x =>
    let text := formatDecimal (shortestDecimal x).1 (shortestDecimal x).2
    String.ofList (if x.neg then '-' :: text else text)

/-- The text `%e` gives `d * 10 ^ k`: one digit before the point, and two of the exponent at
least. -/
def formatExponent (d : ℕ) (k : ℤ) : List Char :=
  let w := (Nat.toDigits 10 d).length - 1
  let e := k + w
  formatDecimal d (-w) ++ 'e' :: (if e < 0 then '-' else '+') :: padDigits 2 e.natAbs

/-- **`fmt`'s `%v`** of a number, which is `FormatFloat(x, 'g', -1, 64)`: with an exponent if that
is below -4, or 21 and more. -/
def sprintFloat : Float64 → String
  | .finite x =>
    let d := (shortestDecimal x).1
    let k := (shortestDecimal x).2
    let e := k + ((Nat.toDigits 10 d).length - 1 : ℕ)
    let text := if e < -4 ∨ 21 ≤ e then formatExponent d k else formatDecimal d k
    String.ofList (if x.neg then '-' :: text else text)
  | x => formatFloat x

/-! ### Digits -/

/-- A digit is no sign, point or letter. -/
theorem digit_ne {c : Char} (h : c.isDigit = true) :
    c ≠ '-' ∧ c ≠ '+' ∧ c ≠ '.' ∧ c ≠ '_' ∧ c.toLower ≠ 'x' ∧ c.toLower ≠ 'i' ∧
      c.toLower ≠ 'n' := by
  have hlow : c.toLower = c := by
    have hb := Char.isDigit_iff_toNat.mp h
    refine dif_neg fun hc => ?_
    have h65 : 65 ≤ c.toNat := hc.1
    have h57 : c.toNat ≤ 57 := hb.2
    omega
  rw [hlow]
  refine ⟨?_, ?_, ?_, ?_, ?_, ?_, ?_⟩ <;>
    · rintro rfl
      revert h
      decide

variable {n : ℕ}

/-- The digits of a number are digits. -/
theorem isDigit_toDigits : ∀ c ∈ Nat.toDigits 10 n, c.isDigit = true :=
  fun _ hc => Nat.isDigit_of_mem_toDigits (by norm_num) (by norm_num) hc

variable {w : ℕ} {ds : List Char} {x : Finite64}

/-- So are padded digits. -/
theorem isDigit_padDigits : ∀ c ∈ padDigits w n, c.isDigit = true := by
  intro c hc
  rcases mem_append.mp hc with hc | hc
  · rw [eq_of_mem_replicate hc]
    decide
  · exact isDigit_toDigits c hc

/-- Padded digits have their width. -/
theorem length_padDigits (hw : 0 < w) (hn : n < 10 ^ w) : (padDigits w n).length = w := by
  have hle : (Nat.toDigits 10 n).length ≤ w := (Nat.length_toDigits_le_iff (by norm_num) hw).mpr hn
  simp only [padDigits, length_append, length_replicate]
  omega

/-- Padded digits are read as the number. -/
theorem ofDigitChars_padDigits : Nat.ofDigitChars 10 (padDigits w n) 0 = n := by
  rw [padDigits, Nat.ofDigitChars_append, Nat.ofDigitChars_replicate_zero, Nat.mul_zero,
    Nat.ofDigitChars_ten_toDigits]

/-- Digits only add. -/
theorem le_ofDigitChars (cs : List Char) (n : ℕ) : n ≤ Nat.ofDigitChars 10 cs n := by
  rw [Nat.ofDigitChars_eq_ofDigitChars_zero]
  have : 1 * n ≤ 10 ^ cs.length * n := Nat.mul_le_mul_right n (Nat.one_le_pow _ _ (by norm_num))
  omega

variable {cs : List Char}

/-- A number is below its power of ten. -/
theorem ofDigitChars_lt (h : ∀ c ∈ cs, c.isDigit = true) :
    Nat.ofDigitChars 10 cs 0 < 10 ^ cs.length := by
  induction cs with
  | nil => simp
  | cons c cs ih =>
    have hc := Char.isDigit_iff_toNat.mp (h c mem_cons_self)
    have hlt := ih fun d hd => h d (mem_cons_of_mem c hd)
    have hd : c.toNat - '0'.toNat ≤ 9 := by
      have h9 : c.toNat ≤ 57 := hc.2
      have h0 : '0'.toNat = 48 := rfl
      omega
    rw [Nat.ofDigitChars_cons, Nat.ofDigitChars_eq_ofDigitChars_zero, length_cons,
      Nat.mul_zero, Nat.zero_add]
    calc 10 ^ cs.length * (c.toNat - '0'.toNat) + Nat.ofDigitChars 10 cs 0
        < 10 ^ cs.length * 9 + 10 ^ cs.length :=
          Nat.add_lt_add_of_le_of_lt (Nat.mul_le_mul_left _ hd) hlt
      _ = 10 ^ (cs.length + 1) := by ring

/-- Digits have no sign. -/
theorem readSign_digits (h : ∀ c ∈ cs, c.isDigit = true) (rest : List Char) (hne : cs ≠ []) :
    readSign (cs ++ rest) = (false, cs ++ rest) := by
  cases cs with
  | nil => exact absurd rfl hne
  | cons c cs =>
    obtain ⟨hm, hp, -⟩ := digit_ne (h c mem_cons_self)
    simp only [cons_append, readSign, hm, hp, if_false]

/-! ### Reading back -/

/-- The loop reads digits as their number. -/
theorem parseUintLoop_digits (h : ∀ c ∈ cs, c.isDigit = true)
    (hlt : Nat.ofDigitChars 10 cs n < 2 ^ 64) :
    parseUintLoop cs n = .ok (Nat.ofDigitChars 10 cs n) := by
  induction cs generalizing n with
  | nil => rfl
  | cons c cs ih =>
    rw [Nat.ofDigitChars_cons] at hlt ⊢
    have hn : 10 * n + (c.toNat - '0'.toNat) < 2 ^ 64 := lt_of_le_of_lt (le_ofDigitChars cs _) hlt
    simp only [parseUintLoop, h c mem_cons_self, if_true, if_pos hn]
    exact ih (fun d hd => h d (mem_cons_of_mem c hd)) hlt

/-- The digits of a number are parsed as it. -/
theorem parseUint_toDigits (h : n < 2 ^ 64) : parseUint (Nat.toDigits 10 n) = .ok n := by
  have hv : Nat.ofDigitChars 10 (Nat.toDigits 10 n) 0 = n := Nat.ofDigitChars_ten_toDigits
  rw [parseUint, if_neg Nat.toDigits_ne_nil,
    parseUintLoop_digits isDigit_toDigits (by rw [hv]; exact h), hv]

/-- The sign of an integer is read back. -/
theorem readSign_formatIntChars (i : ℤ) :
    readSign (formatIntChars i) = (decide (i < 0), Nat.toDigits 10 i.natAbs) := by
  by_cases h : i < 0
  · rw [formatIntChars, if_pos h]
    simp only [readSign, h, if_true, decide_true]
  · have := readSign_digits (isDigit_toDigits (n := i.natAbs)) [] Nat.toDigits_ne_nil
    rw [append_nil] at this
    rw [formatIntChars, if_neg h, this]
    simp only [h, decide_false]

/-- **Every integer is read back.** -/
theorem parseInt_formatInt (i : I64) : parseInt (formatInt i.1) = (i, none) := by
  have hlt : i.1.natAbs < 2 ^ 64 := by
    have := i.2
    omega
  have hval : (if decide (i.1 < 0) = true then -(i.1.natAbs : ℤ) else (i.1.natAbs : ℤ)) = i.1 := by
    by_cases h : i.1 < 0
    · rw [if_pos (by simpa using h)]
      omega
    · rw [if_neg (by simpa using h)]
      omega
  simp only [parseInt, formatInt, String.toList_ofList, readSign_formatIntChars,
    parseUint_toDigits hlt, hval, I64.clamp_coe, if_true]

/-- Different integers have different texts, also those that are no `int64`. -/
theorem formatInt_injective : Function.Injective formatInt := by
  intro i j h
  have hread := congrArg readSign (String.ofList_injective h)
  simp only [readSign_formatIntChars, Prod.mk.injEq, decide_eq_decide] at hread
  have habs : i.natAbs = j.natAbs := by
    have := congrArg (Nat.ofDigitChars 10 · 0) hread.2
    simpa only [Nat.ofDigitChars_ten_toDigits] using this
  obtain ⟨hsign, -⟩ := hread
  omega

/-- **Every boolean is read back.** -/
theorem parseBool_formatBool (b : Bool) : parseBool (formatBool b) = (b, none) := by
  cases b <;> decide

/-! ### Reading back a floating-point number -/

/-- The mantissa after a run of digits. -/
def Mantissa.push (m : Mantissa) (ds : List Char) : Mantissa :=
  { m with
    value := Nat.ofDigitChars 10 ds m.value
    fracDigits := if m.sawDot then m.fracDigits + ds.length else m.fracDigits
    sawDigits := m.sawDigits || decide (ds ≠ []) }

/-- The loop pushes digits. -/
theorem mantissaLoop_digits (h : ∀ c ∈ ds, c.isDigit = true) (rest : List Char) (m : Mantissa) :
    mantissaLoop false (ds ++ rest) m = mantissaLoop false rest (m.push ds) := by
  induction ds generalizing m with
  | nil =>
    simp [Mantissa.push]
  | cons c ds ih =>
    have hc : c.isDigit = true := h c mem_cons_self
    obtain ⟨-, -, hdot, hus, -⟩ := digit_ne hc
    rw [cons_append, mantissaLoop, if_neg hus, if_neg hdot]
    simp only [digitValue?, hc, if_true]
    rw [ih fun d hd => h d (mem_cons_of_mem c hd)]
    congr 1
    simp only [Mantissa.push, Nat.ofDigitChars_cons, Bool.false_eq_true, if_false,
      length_cons, ne_eq, reduceCtorEq, not_false_eq_true, decide_true, Bool.or_true,
      Bool.true_or, Mantissa.mk.injEq, true_and, and_true]
    split <;> omega

/-- Without a mark the base is ten. -/
theorem readBase_of_no_mark (h : ∀ c ∈ cs, c.toLower ≠ 'x') : readBase cs = (false, cs) := by
  match cs with
  | [] => rfl
  | [_] => rfl
  | [_, _] => rfl
  | z :: x :: d :: rest =>
    have hx : x.toLower ≠ 'x' := h x (by simp)
    simp [readBase, hx]

/-- The text of a sign in front of a number. -/
def signed (neg : Bool) (cs : List Char) : List Char :=
  if neg then '-' :: cs else cs

variable (neg : Bool)

/-- The sign of a number is read back. -/
theorem readSign_signed (h : ∀ c ∈ ds, c.isDigit = true) (hne : ds ≠ []) (rest : List Char) :
    readSign (signed neg (ds ++ rest)) = (neg, ds ++ rest) := by
  cases neg with
  | false => exact readSign_digits h rest hne
  | true => rfl

/-- A number is read from its sign and a mantissa that takes up the rest of the text. -/
theorem readFloat_of_mantissa {body : List Char} {neg : Bool} {m : Mantissa}
    (hsign : readSign cs = (neg, body)) (hbase : ∀ c ∈ body, c.toLower ≠ 'x')
    (hm : mantissaLoop false body ⟨0, 0, false, false, false⟩ = (m, [])) (hd : m.sawDigits = true)
    (hu : m.underscores = false) :
    readFloat cs = some (neg, (m.value : ℚ) * 10 ^ (-(m.fracDigits : ℤ))) := by
  simp [readFloat, hsign, readBase_of_no_mark hbase, hm, hd, hu, readExponent]

/-- A number without a point is read. -/
theorem readFloat_integer {ip : List Char} (hip : ∀ c ∈ ip, c.isDigit = true) (hne : ip ≠ []) :
    readFloat (signed neg ip) = some (neg, (Nat.ofDigitChars 10 ip 0 : ℚ)) := by
  have hsign := readSign_signed neg hip hne []
  have hm := mantissaLoop_digits hip [] ⟨0, 0, false, false, false⟩
  rw [append_nil] at hsign hm
  rw [readFloat_of_mantissa hsign (fun c hc => (digit_ne (hip c hc)).2.2.2.2.1) hm
    (by simpa [Mantissa.push] using hne) rfl]
  simp [Mantissa.push]

/-- A number with a point is read. -/
theorem readFloat_fraction {ip frac : List Char}
    (hip : ∀ c ∈ ip, c.isDigit = true) (hne : ip ≠ []) (hfr : ∀ c ∈ frac, c.isDigit = true) :
    readFloat (signed neg (ip ++ '.' :: frac)) =
      some (neg, (Nat.ofDigitChars 10 (ip ++ frac) 0 : ℚ) * 10 ^ (-(frac.length : ℤ))) := by
  have hx : ∀ c ∈ ip ++ '.' :: frac, c.toLower ≠ 'x' := by
    intro c hc
    rcases mem_append.mp hc with hc | hc
    · exact (digit_ne (hip c hc)).2.2.2.2.1
    · rcases mem_cons.mp hc with rfl | hc
      · decide
      · exact (digit_ne (hfr c hc)).2.2.2.2.1
  have hm := mantissaLoop_digits hip ('.' :: frac) ⟨0, 0, false, false, false⟩
  have hf := mantissaLoop_digits hfr []
    { (Mantissa.mk 0 0 false false false).push ip with sawDot := true }
  rw [append_nil] at hf
  rw [mantissaLoop, if_neg (by decide), if_pos rfl] at hm
  simp only [Mantissa.push, Bool.false_eq_true, if_false] at hm hf
  rw [hf] at hm
  rw [readFloat_of_mantissa (readSign_signed neg hip hne _) hx hm (by simpa using .inl hne) rfl]
  simp [Nat.ofDigitChars_append]

/-- What is trimmed are zeros. -/
theorem trimZeros_append (cs : List Char) : ∃ j, cs = trimZeros cs ++ replicate j '0' := by
  induction cs using reverseRecOn with
  | nil => exact ⟨0, rfl⟩
  | append_singleton cs c ih =>
    by_cases hc : c = '0'
    · obtain ⟨j, hj⟩ := ih
      refine ⟨j + 1, ?_⟩
      rw [trimZeros, rdropWhile_concat_pos _ _ _ (by simpa using hc)]
      rw [replicate_succ', ← append_assoc, hc]
      exact congrArg (· ++ ['0']) hj
    · refine ⟨0, ?_⟩
      rw [trimZeros, rdropWhile_concat_neg _ _ _ (by simpa using hc)]
      simp

/-- What is left are digits. -/
theorem isDigit_trimZeros_padDigits : ∀ c ∈ trimZeros (padDigits w n), c.isDigit = true :=
  fun c hc => isDigit_padDigits c (( rdropWhile_prefix _ _).subset hc)

/-- The fraction digits that `formatDecimal` prints, with the zeros it drops. -/
theorem fraction_value (hw : 0 < w) (d : ℕ) :
    ∃ j, (trimZeros (padDigits w (d % 10 ^ w))).length + j = w ∧ Nat.ofDigitChars 10
        (Nat.toDigits 10 (d / 10 ^ w) ++ trimZeros (padDigits w (d % 10 ^ w))) 0 * 10 ^ j
        = d := by
  obtain ⟨j, hj⟩ := trimZeros_append (padDigits w (d % 10 ^ w))
  set frac := trimZeros (padDigits w (d % 10 ^ w)) with hfrac
  have hlen : (padDigits w (d % 10 ^ w)).length = w :=
    length_padDigits hw (Nat.mod_lt _ (by positivity))
  have hval : Nat.ofDigitChars 10 (padDigits w (d % 10 ^ w)) 0 = d % 10 ^ w :=
    ofDigitChars_padDigits
  have hlen' : frac.length + j = w := by
    rw [← hlen, hj]
    simp
  refine ⟨j, hlen', ?_⟩
  rw [hj, Nat.ofDigitChars_append, Nat.ofDigitChars_replicate_zero] at hval
  rw [Nat.ofDigitChars_append, Nat.ofDigitChars_ten_toDigits, Nat.ofDigitChars_eq_ofDigitChars_zero]
  calc (10 ^ frac.length * (d / 10 ^ w) + Nat.ofDigitChars 10 frac 0) * 10 ^ j
      = 10 ^ (frac.length + j) * (d / 10 ^ w) + 10 ^ j * Nat.ofDigitChars 10 frac 0 := by ring
    _ = 10 ^ w * (d / 10 ^ w) + d % 10 ^ w := by rw [hlen', hval]
    _ = d := Nat.div_add_mod d (10 ^ w)

/-- **The text of a decimal is read as that decimal.** -/
theorem readFloat_formatDecimal (d : ℕ) (k : ℤ) :
    readFloat (signed neg (formatDecimal d k)) = some (neg, (d : ℚ) * 10 ^ k) := by
  by_cases hk : 0 ≤ k
  · rw [formatDecimal, if_pos hk, readFloat_integer neg isDigit_toDigits Nat.toDigits_ne_nil,
      Nat.ofDigitChars_ten_toDigits]
    lift k to ℕ using hk
    simp
  · obtain ⟨w, rfl⟩ : ∃ w : ℕ, k = -(w : ℤ) := ⟨(-k).toNat, by omega⟩
    have hw : 0 < w := by omega
    have h10 : (10 : ℚ) ^ w ≠ 0 := by positivity
    have hsplit := Nat.div_add_mod d (10 ^ w)
    rw [formatDecimal, if_neg hk]
    simp only [neg_neg, Int.toNat_natCast]
    by_cases hz : d % 10 ^ w = 0
    · rw [if_pos hz, if_pos rfl, append_nil,
        readFloat_integer neg isDigit_toDigits Nat.toDigits_ne_nil,
        Nat.ofDigitChars_ten_toDigits]
      have hd : (d : ℚ) = (d / 10 ^ w : ℕ) * 10 ^ w := by
        rw [hz, Nat.add_zero, Nat.mul_comm] at hsplit
        exact_mod_cast hsplit.symm
      rw [hd, zpow_neg, zpow_natCast, mul_assoc, mul_inv_cancel₀ h10, mul_one]
    · obtain ⟨j, hlen, hval⟩ := fraction_value hw d
      have hdig := isDigit_trimZeros_padDigits (w := w) (n := d % 10 ^ w)
      rw [if_neg hz]
      set frac := trimZeros (padDigits w (d % 10 ^ w)) with hfrac
      have hne : frac ≠ [] := by
        intro h
        rw [h, append_nil, Nat.ofDigitChars_ten_toDigits] at hval
        rw [h, length_nil, Nat.zero_add] at hlen
        rw [hlen, Nat.mul_comm] at hval
        omega
      rw [if_neg hne, readFloat_fraction neg isDigit_toDigits Nat.toDigits_ne_nil hdig]
      have hd : (d : ℚ) =
          (Nat.ofDigitChars 10 (Nat.toDigits 10 (d / 10 ^ w) ++ frac) 0 : ℚ) * 10 ^ j := by
        exact_mod_cast hval.symm
      have hj : (10 : ℚ) ^ j * 10 ^ (-(w : ℤ)) = 10 ^ (-(frac.length : ℤ)) := by
        rw [← zpow_natCast, ← zpow_add₀ (by norm_num)]
        congr 1
        omega
      rw [hd, mul_assoc, hj]

/-- A decimal that is chosen reads back. -/
theorem readsBack_of_decimalOfLength {p : ℕ × ℤ} (h : decimalOfLength x n = some p) :
    readsBack x p.1 p.2 = true := by
  simp only [decimalOfLength, Bool.and_eq_true] at h
  split at h
  · rename_i hb
    split at h
    · cases h
      exact hb.1
    · cases h
      exact hb.2
  · split at h
    · rename_i hb
      cases h
      exact hb
    · split at h
      · rename_i hb
        cases h
        exact hb
      · cases h

/-- An exact decimal reads back. -/
theorem readsBack_of_eq_abs {d : ℕ} {k : ℤ} (h : (d : ℚ) * 10 ^ k = x.abs) :
    readsBack x d k = true := by
  simp only [readsBack, h, Float64.round_abs, decide_true]

/-- The exact decimal reads back. -/
theorem readsBack_exactDecimal (x : Finite64) :
    readsBack x (exactDecimal x).1 (exactDecimal x).2 = true := by
  refine readsBack_of_eq_abs ?_
  by_cases he : 0 ≤ x.exp
  · rw [exactDecimal, if_pos he, Finite64.abs]
    obtain ⟨e, hxe⟩ := Int.eq_ofNat_of_zero_le he
    simp [hxe]
  · obtain ⟨e, hxe⟩ : ∃ e : ℕ, x.exp = -(e : ℤ) := ⟨(-x.exp).toNat, by omega⟩
    rw [exactDecimal, if_neg he, Finite64.abs, hxe]
    have h10 : (10 : ℚ) ^ e = 5 ^ e * 2 ^ e := by rw [← mul_pow]; norm_num
    simp only [neg_neg, Int.toNat_natCast, Nat.cast_mul, Nat.cast_pow, Nat.cast_ofNat, zpow_neg,
      zpow_natCast, h10]
    field_simp

/-- **The shortest decimal reads back.** -/
theorem readsBack_shortestDecimal (x : Finite64) :
    readsBack x (shortestDecimal x).1 (shortestDecimal x).2 = true := by
  by_cases hm : x.mant = 0
  · rw [shortestDecimal, if_pos hm]
    exact readsBack_of_eq_abs (by simp [Finite64.abs, hm])
  · rw [shortestDecimal, if_neg hm]
    cases hf : (range 17).findSome? fun i => decimalOfLength x (i + 1) with
    | none => exact readsBack_exactDecimal x
    | some p =>
      obtain ⟨i, -, hi⟩ := exists_of_findSome?_eq_some hf
      exact readsBack_of_decimalOfLength hi

/-- Texts that begin with a digit, or a sign and a digit, are no special value. -/
theorem specialFloat_signed (h : ∀ c ∈ ds, c.isDigit = true)
    (hne : ds ≠ []) (rest : List Char) : specialFloat (signed neg (ds ++ rest)) = none := by
  cases ds with
  | nil => exact absurd rfl hne
  | cons c cs =>
    obtain ⟨-, -, -, -, -, hi, hn⟩ := digit_ne (h c mem_cons_self)
    rw [specialFloat, readSign_signed neg h hne rest]
    cases neg <;> simp [signed, hi, hn]

/-- A decimal starts with digits. -/
theorem formatDecimal_eq_append (d : ℕ) (k : ℤ) :
    ∃ n rest, formatDecimal d k = Nat.toDigits 10 n ++ rest := by
  by_cases hk : 0 ≤ k
  · exact ⟨_, [], by rw [formatDecimal, if_pos hk, append_nil]⟩
  · exact ⟨_, _, by rw [formatDecimal, if_neg hk]⟩

/-- **Every number is read back.** -/
theorem parseFloat_formatFloat (x : Float64) : parseFloat (formatFloat x) = (x, none) := by
  cases x with
  | nan => decide
  | inf neg => cases neg <;> decide
  | finite x =>
    have hback := readsBack_shortestDecimal x
    set d := (shortestDecimal x).1
    set k := (shortestDecimal x).2
    have htext : formatFloat (.finite x) = String.ofList (signed x.neg (formatDecimal d k)) := rfl
    have hspecial : specialFloat (signed x.neg (formatDecimal d k)) = none := by
      obtain ⟨n, rest, h⟩ := formatDecimal_eq_append d k
      rw [h]
      exact specialFloat_signed x.neg isDigit_toDigits Nat.toDigits_ne_nil rest
    have hround : Float64.round x.neg ((d : ℚ) * 10 ^ k) = .finite x := by
      simpa [readsBack] using hback
    simp only [parseFloat, htext, String.toList_ofList, hspecial, readFloat_formatDecimal,
      hround, reduceCtorEq, if_false]

/-! ### What is printed of a number -/

/-- A decimal has no exponent. -/
theorem e_not_mem_formatDecimal (d : ℕ) (k : ℤ) : 'e' ∉ formatDecimal d k := by
  have hdigit {cs : List Char} (h : ∀ c ∈ cs, c.isDigit = true) : 'e' ∉ cs := fun hmem =>
    absurd (h _ hmem) (by decide)
  rw [formatDecimal]
  split
  · exact hdigit isDigit_toDigits
  · rw [mem_append, not_or]
    refine ⟨hdigit isDigit_toDigits, ?_⟩
    split_ifs with h1 h2
    · exact not_mem_nil
    · exact absurd rfl h2
    · exact not_mem_nil
    · rw [mem_cons, not_or]
      exact ⟨by decide, hdigit isDigit_trimZeros_padDigits⟩

/-- Nor has it with a sign. -/
theorem e_not_mem_signed {cs : List Char} (h : 'e' ∉ cs) : 'e' ∉ signed neg cs := by
  cases neg with
  | false => exact h
  | true => simpa [signed] using h

/-- The text with an exponent determines the sign and the decimal. -/
theorem formatExponent_inj {neg neg' : Bool} {d d' : ℕ} {k k' : ℤ}
    (h : signed neg (formatExponent d k) = signed neg' (formatExponent d' k')) :
    neg = neg' ∧ (d : ℚ) * 10 ^ k = (d' : ℚ) * 10 ^ k' := by
  have hsplit (neg : Bool) (a b : List Char) : signed neg (a ++ b) = signed neg a ++ b := by
    cases neg <;> rfl
  rw [formatExponent, formatExponent, hsplit, hsplit] at h
  generalize (Nat.toDigits 10 d).length - 1 = w at h
  generalize (Nat.toDigits 10 d').length - 1 = w' at h
  obtain ⟨hmant, hexp⟩ := append_sep_inj (e_not_mem_signed _ (e_not_mem_formatDecimal _ _))
    (e_not_mem_signed _ (e_not_mem_formatDecimal _ _)) h
  have hread := congrArg readFloat hmant
  rw [readFloat_formatDecimal, readFloat_formatDecimal, Option.some.injEq, Prod.mk.injEq] at hread
  obtain ⟨hneg, hval⟩ := hread
  obtain ⟨hsign, hdigits⟩ := cons.inj hexp
  have habs : (k + w).natAbs = (k' + w').natAbs := by
    rw [← ofDigitChars_padDigits (w := 2) (n := (k + w).natAbs), hdigits, ofDigitChars_padDigits]
  have he : k + w = k' + w' := by
    split_ifs at hsign <;> first | omega | exact absurd hsign (by decide)
  refine ⟨hneg, ?_⟩
  calc (d : ℚ) * 10 ^ k
      = d * 10 ^ (-w : ℤ) * 10 ^ (k + w) := by
        rw [mul_assoc, ← zpow_add₀ (by norm_num), neg_add_cancel_comm_assoc]
    _ = d' * 10 ^ (-w' : ℤ) * 10 ^ (k' + w') := by rw [hval, he]
    _ = d' * 10 ^ k' := by rw [mul_assoc, ← zpow_add₀ (by norm_num), neg_add_cancel_comm_assoc]

/-- The two forms differ. -/
theorem formatDecimal_ne_formatExponent {neg neg' : Bool} {d d' : ℕ} {k k' : ℤ} :
    signed neg (formatDecimal d k) ≠ signed neg' (formatExponent d' k') := by
  intro h
  refine e_not_mem_signed neg (e_not_mem_formatDecimal d k) (h ▸ ?_)
  cases neg' <;> simp [signed, formatExponent]

/-- What is printed is no special value unless the number is. -/
theorem specialFloat_sprintFloat (x : Float64) : specialFloat (sprintFloat x).toList =
    match x with
    | .finite _ => none
    | x => some x := by
  cases x with
  | nan => decide
  | inf neg => cases neg <;> decide
  | finite x =>
    have hdigits (d : ℕ) (k : ℤ) (rest : List Char) :
        specialFloat (signed x.neg (formatDecimal d k ++ rest)) = none := by
      obtain ⟨n, rest', h⟩ := formatDecimal_eq_append d k
      rw [h, append_assoc]
      exact specialFloat_signed x.neg isDigit_toDigits Nat.toDigits_ne_nil _
    rw [sprintFloat, String.toList_ofList]
    change specialFloat (signed x.neg _) = none
    split
    · exact hdigits _ _ _
    · simpa using hdigits _ _ []

/-- **The number can be told from what is printed.** -/
theorem sprintFloat_injective : Function.Injective sprintFloat := by
  intro x y h
  have hspecial := congrArg (fun s => specialFloat s.toList) h
  simp only [specialFloat_sprintFloat] at hspecial
  cases x with
  | nan => cases y <;> simp_all
  | inf neg => cases y <;> simp_all
  | finite x =>
    cases y with
    | nan => simp at hspecial
    | inf neg => simp at hspecial
    | finite y =>
      have hround (z : Finite64) : Float64.round z.neg
          (((shortestDecimal z).1 : ℚ) * 10 ^ (shortestDecimal z).2) = .finite z := by
        simpa [readsBack] using readsBack_shortestDecimal z
      have hsame : x.neg = y.neg ∧ ((shortestDecimal x).1 : ℚ) * 10 ^ (shortestDecimal x).2 =
          ((shortestDecimal y).1 : ℚ) * 10 ^ (shortestDecimal y).2 := by
        have htext := String.ofList_injective h
        change signed x.neg _ = signed y.neg _ at htext
        split_ifs at htext with hx hy hy
        · exact formatExponent_inj htext
        · exact absurd htext.symm formatDecimal_ne_formatExponent
        · exact absurd htext formatDecimal_ne_formatExponent
        · have hread := congrArg readFloat htext
          rwa [readFloat_formatDecimal, readFloat_formatDecimal, Option.some.injEq,
            Prod.mk.injEq] at hread
      rw [← hround x, hsame.1, hsame.2, hround y]

example : [Float64.ofInt 10, .ofInt (10 ^ 21), .round true (3 / 10000000)].map sprintFloat =
    ["10", "1e+21", "-3e-07"] := by
  decide +kernel

end Go
