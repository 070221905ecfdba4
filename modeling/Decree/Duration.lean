import Decree.Strconv

/-!
# Go's `time.Duration`

A duration is an `int64` number of nanoseconds. `durationString` is `Duration.String`
and `parseDuration` is `time.ParseDuration`, including the binary64 arithmetic that the
parser does for fractions of a unit. `ProtoDuration` is the wire form
(`google.protobuf.Duration`) with its two conversions.

## Main results

* `parseDuration_durationString`: a duration is read back.
-/

open List

namespace Go

/-! ### The string form -/

/-- Hours, minutes and seconds, without the leading units that are zero. -/
def clockChars (u : ℕ) : List Char :=
  let minutes := u / (60 * 10 ^ 9)
  let hours := minutes / 60
  (if hours = 0 then [] else Nat.toDigits 10 hours ++ "h".toList) ++
    (if minutes = 0 then [] else Nat.toDigits 10 (minutes % 60) ++ "m".toList) ++
    formatDecimal (u % (60 * 10 ^ 9)) (-9) ++ "s".toList

/-- The text of a magnitude of `u` nanoseconds: below a second one unit that fits, and
from a second on the clock. -/
def durationChars (u : ℕ) : List Char :=
  if u = 0 then "0s".toList
  else if u < 10 ^ 3 then Nat.toDigits 10 u ++ "ns".toList
  else if u < 10 ^ 6 then formatDecimal u (-3) ++ "µs".toList
  else if u < 10 ^ 9 then formatDecimal u (-6) ++ "ms".toList
  else clockChars u

/-- **`Duration.String`**. -/
def durationString (d : I64) : String :=
  String.ofList (signed (decide (d.1 < 0)) (durationChars d.1.natAbs))

/-! ### The parser -/

/-- `leadingInt`: the leading digits as a number, unless it exceeds `2 ^ 63`. -/
def leadingInt : List Char → ℕ → Option (ℕ × List Char)
  | [], x => some (x, [])
  | c :: cs, x =>
    if c.isDigit then
      let x' := 10 * x + (c.toNat - '0'.toNat)
      if x' ≤ 2 ^ 63 then leadingInt cs x' else none
    else some (x, c :: cs)

/-- `leadingFraction`: the leading digits as a number with how many of them it holds.
Digits past the range are consumed and dropped. -/
def leadingFraction : List Char → ℕ → ℕ → Bool → ℕ × ℕ × List Char
  | [], x, n, _ => (x, n, [])
  | c :: cs, x, n, overflow =>
    if c.isDigit then
      let y := 10 * x + (c.toNat - '0'.toNat)
      if overflow = false ∧ x ≤ (2 ^ 63 - 1) / 10 ∧ y ≤ 2 ^ 63 then
        leadingFraction cs y (n + 1) false
      else leadingFraction cs x n true
    else (x, n, c :: cs)

/-- `unitMap`: the units in nanoseconds, with both spellings of micro. -/
def unitMap : List (List Char × ℕ) :=
  [("ns".toList, 1), ("us".toList, 10 ^ 3), ("µs".toList, 10 ^ 3), ("μs".toList, 10 ^ 3),
    ("ms".toList, 10 ^ 6), ("s".toList, 10 ^ 9), ("m".toList, 60 * 10 ^ 9),
    ("h".toList, 3600 * 10 ^ 9)]

/-- The nanoseconds of a fraction `f / 10 ^ n` of a unit, as the parser computes them:
`uint64(float64(f) * (float64(unit) / scale))`. -/
def fractionNanos (f n unit : ℕ) : ℕ :=
  (Float64.mul (.ofNat f) (.div (.ofNat unit) (.ofNat (10 ^ n)))).truncNat

def endsUnit (c : Char) : Bool :=
  c = '.' || c.isDigit

/-- The optional point and fraction of a component: the fraction, how many digits it
holds, what follows, and whether any digit was read. -/
def readFraction : List Char → ℕ × ℕ × List Char × Bool
  | [] => (0, 0, [], false)
  | c :: cs =>
    if c = '.' then
      let (f, n, rest) := leadingFraction cs 0 0 false
      (f, n, rest, decide (rest.length ≠ cs.length))
    else (0, 0, c :: cs, false)

/-- One component of a duration, a number and its unit: its nanoseconds and what
follows. -/
def readComponent (cs : List Char) : Option (ℕ × List Char) :=
  match leadingInt cs 0 with
  | none => none
  | some (v, cs₁) =>
    let (f, n, cs₂, post) := readFraction cs₁
    if cs₁.length ≠ cs.length ∨ post = true then
      match unitMap.lookup (cs₂.takeWhile fun c => !endsUnit c) with
      | none => none
      | some unit =>
        let v' := v * unit + if f = 0 then 0 else fractionNanos f n unit
        if v ≤ 2 ^ 63 / unit ∧ v' ≤ 2 ^ 63 then
          some (v', cs₂.dropWhile fun c => !endsUnit c)
        else none
    else none

/-- The loop of `ParseDuration` over the components, with the sum so far. Each turn
consumes text, so `fuel` of the text's length is never used up. -/
def parseDurationLoop : ℕ → List Char → ℕ → Option ℕ
  | _, [], d => some d
  | 0, _ :: _, _ => none
  | fuel + 1, cs, d =>
    match readComponent cs with
    | none => none
    | some (v, rest) =>
      if d + v ≤ 2 ^ 63 then parseDurationLoop fuel rest (d + v) else none

/-- **`time.ParseDuration`**: `none` is an error, with which the Go function returns
zero. -/
def parseDuration (s : String) : Option I64 :=
  let (neg, cs) := readSign s.toList
  if cs = ['0'] then some .zero
  else if cs = [] then none
  else
    match parseDurationLoop cs.length cs 0 with
    | none => none
    | some d =>
      if neg then some (.clamp (-d)) else if d < 2 ^ 63 then some (.clamp d) else none

/-! ### The wire form -/

/-- `google.protobuf.Duration`. -/
structure ProtoDuration where
  seconds : I64
  nanos : ℤ
deriving DecidableEq

/-- `AsDuration`: saturating at the ends of the range; a number of seconds that is out of
range saturates whatever the nanoseconds are. -/
def ProtoDuration.asDuration (x : ProtoDuration) : I64 :=
  let d := x.seconds.1 * 10 ^ 9
  if -2 ^ 63 ≤ d ∧ d < 2 ^ 63 then .clamp (d + x.nanos) else .clamp d

/-- `durationpb.New`: seconds and nanoseconds of the same sign. -/
def ProtoDuration.ofDuration (d : I64) : ProtoDuration :=
  ⟨.clamp (d.1.tdiv (10 ^ 9)), d.1.tmod (10 ^ 9)⟩

/-- A duration returns from its message. -/
theorem asDuration_ofDuration (d : I64) : (ProtoDuration.ofDuration d).asDuration = d := by
  obtain ⟨d, hd⟩ := d
  have hdiv := Int.mul_tdiv_add_tmod d (10 ^ 9)
  have hlt := Int.tmod_lt_of_pos d (b := 10 ^ 9) (by norm_num)
  have hgt := Int.lt_tmod_of_pos d (b := 10 ^ 9) (by norm_num)
  have hsame : 0 ≤ d ∧ 0 ≤ d.tmod (10 ^ 9) ∨ d < 0 ∧ d.tmod (10 ^ 9) ≤ 0 := by
    rcases le_or_gt 0 d with h | h
    · exact .inl ⟨h, Int.tmod_nonneg _ h⟩
    · have := Int.tmod_nonneg (a := -d) (10 ^ 9) (by omega)
      rw [Int.neg_tmod] at this
      exact .inr ⟨h, by omega⟩
  have hq : -2 ^ 63 ≤ d.tdiv (10 ^ 9) ∧ d.tdiv (10 ^ 9) < 2 ^ 63 := by omega
  have hs : (I64.clamp (d.tdiv (10 ^ 9))).1 = d.tdiv (10 ^ 9) := by
    simp only [I64.clamp]
    omega
  have hp : -2 ^ 63 ≤ d.tdiv (10 ^ 9) * 10 ^ 9 ∧ d.tdiv (10 ^ 9) * 10 ^ 9 < 2 ^ 63 := by omega
  have hsum : d.tdiv (10 ^ 9) * 10 ^ 9 + d.tmod (10 ^ 9) = d := by omega
  simp only [ProtoDuration.ofDuration, ProtoDuration.asDuration, hs, if_pos hp, hsum]
  exact I64.clamp_coe ⟨d, hd⟩

/-! ### Reading back -/

variable {ds rest : List Char} {x : ℕ}

/-- Digits are read up to their end. -/
theorem leadingInt_digits (h : ∀ c ∈ ds, c.isDigit = true)
    (hrest : ∀ c ∈ rest.head?, c.isDigit = false) (hle : Nat.ofDigitChars 10 ds x ≤ 2 ^ 63) :
    leadingInt (ds ++ rest) x = some (Nat.ofDigitChars 10 ds x, rest) := by
  induction ds generalizing x with
  | nil =>
    cases rest with
    | nil => rfl
    | cons c rest =>
      have hc : c.isDigit = false := hrest c rfl
      simp [leadingInt, hc]
  | cons c ds ih =>
    rw [Nat.ofDigitChars_cons] at hle ⊢
    have hx : 10 * x + (c.toNat - '0'.toNat) ≤ 2 ^ 63 := (le_ofDigitChars ds _).trans hle
    rw [cons_append, leadingInt, if_pos (h c mem_cons_self)]
    simp only [if_pos hx]
    exact ih (fun d hd => h d (mem_cons_of_mem c hd)) hle

/-- So are the digits of a fraction. -/
theorem leadingFraction_digits (h : ∀ c ∈ ds, c.isDigit = true)
    (hrest : ∀ c ∈ rest.head?, c.isDigit = false) {n : ℕ}
    (hlt : Nat.ofDigitChars 10 ds x < 2 ^ 63) :
    leadingFraction (ds ++ rest) x n false = (Nat.ofDigitChars 10 ds x, n + ds.length, rest) := by
  induction ds generalizing x n with
  | nil =>
    cases rest with
    | nil => rfl
    | cons c rest =>
      have hc : c.isDigit = false := hrest c rfl
      simp [leadingFraction, hc]
  | cons c ds ih =>
    rw [Nat.ofDigitChars_cons] at hlt ⊢
    have hy : 10 * x + (c.toNat - '0'.toNat) < 2 ^ 63 := lt_of_le_of_lt (le_ofDigitChars ds _) hlt
    have hok : x ≤ (2 ^ 63 - 1) / 10 ∧ 10 * x + (c.toNat - '0'.toNat) ≤ 2 ^ 63 :=
      ⟨by omega, by omega⟩
    rw [cons_append, leadingFraction, if_pos (h c mem_cons_self)]
    simp only [true_and, if_pos hok]
    rw [ih (fun d hd => h d (mem_cons_of_mem c hd)) hlt, length_cons]
    congr 2
    omega

variable {unit : ℕ}

/-- Fractions of decimal units have no rounding error. -/
theorem fractionNanos_eq {f n : ℕ} (hf : f < 10 ^ n) (hn : 10 ^ n ∣ unit) (hunit : unit ≤ 10 ^ 9)
    (hpos : 0 < unit) : fractionNanos f n unit = f * (unit / 10 ^ n) := by
  have h53 : (10 : ℕ) ^ 9 < 2 ^ 53 := by norm_num
  have h10 : 10 ^ n ≤ unit := Nat.le_of_dvd hpos hn
  have hq : unit / 10 ^ n ≤ unit := Nat.div_le_self _ _
  have hprod : f * (unit / 10 ^ n) ≤ unit := by
    calc f * (unit / 10 ^ n) ≤ 10 ^ n * (unit / 10 ^ n) := Nat.mul_le_mul_right _ hf.le
      _ = unit := Nat.mul_div_cancel' hn
  rw [fractionNanos, Float64.div_ofNat (by omega) (by omega) (by positivity) hn,
    Float64.truncNat_mul_ofNat (by omega) (by omega) (by omega)]

/-- A unit: text that the map knows, none of whose characters ends a unit. -/
structure IsUnit (u : List Char) (unit : ℕ) : Prop where
  lookup : unitMap.lookup u = some unit
  ne_nil : u ≠ []
  chars : ∀ c ∈ u, endsUnit c = false

/-- Where a component may end: at the end of the text or before a digit. -/
def EndsComponent (rest : List Char) : Prop :=
  ∀ c ∈ rest.head?, c.isDigit = true

variable {u : List Char} {v d : ℕ}

/-- A unit starts with neither point nor digit. -/
theorem IsUnit.head (hu : IsUnit u unit) (rest : List Char) :
    ∃ c cs, u ++ rest = c :: cs ∧ c ≠ '.' ∧ c.isDigit = false := by
  obtain ⟨-, hne, hch⟩ := hu
  cases u with
  | nil => exact absurd rfl hne
  | cons c cs =>
    have hc := hch c mem_cons_self
    simp only [endsUnit, Bool.or_eq_false_iff, decide_eq_false_iff_not] at hc
    exact ⟨c, cs ++ rest, rfl, hc.1, hc.2⟩

section

variable (hu : IsUnit u unit) (hrest : EndsComponent rest)

include hu hrest

/-- A unit is read up to its end. -/
theorem IsUnit.takeWhile : (u ++ rest).takeWhile (fun c => !endsUnit c) = u ∧
      (u ++ rest).dropWhile (fun c => !endsUnit c) = rest := by
  have hall : ∀ c ∈ u, (!endsUnit c) = true := fun c hc => by rw [hu.chars c hc]; rfl
  rw [takeWhile_append_of_pos hall, dropWhile_append_of_pos hall]
  cases rest with
  | nil => simp
  | cons c rest =>
    have hc : c.isDigit = true := hrest c rfl
    simp [endsUnit, hc]

/-- A component is read from its parts. -/
theorem readComponent_of {body : List Char} {v f n : ℕ} {seen : Bool}
    (hbody : ∀ d ∈ body.head?, d.isDigit = false)
    (hfrac : readFraction body = (f, n, u ++ rest, seen)) (hpos : 0 < unit)
    (hle : v * unit + (if f = 0 then 0 else fractionNanos f n unit) ≤ 2 ^ 63) :
    readComponent (Nat.toDigits 10 v ++ body) =
      some (v * unit + if f = 0 then 0 else fractionNanos f n unit, rest) := by
  have hv : v * unit ≤ 2 ^ 63 := by omega
  have hint := leadingInt_digits (isDigit_toDigits (n := v)) hbody (x := 0) (by
    rw [Nat.ofDigitChars_ten_toDigits]
    exact le_trans (Nat.le_mul_of_pos_right v hpos) hv)
  rw [Nat.ofDigitChars_ten_toDigits] at hint
  have hlen : body.length ≠ (Nat.toDigits 10 v ++ body).length := by
    have : 0 < (Nat.toDigits 10 v).length := Nat.length_toDigits_pos
    rw [length_append]
    omega
  obtain ⟨htake, hdrop⟩ := hu.takeWhile hrest
  have hdiv : v ≤ 2 ^ 63 / unit := (Nat.le_div_iff_mul_le hpos).mpr hv
  simp only [readComponent, hint, hfrac, if_pos (Or.inl hlen), htake, hdrop, hu.lookup,
    if_pos (And.intro hdiv hle)]

/-- A component without a fraction. -/
theorem readComponent_integer (hpos : 0 < unit) (hle : v * unit ≤ 2 ^ 63) :
    readComponent (Nat.toDigits 10 v ++ (u ++ rest)) = some (v * unit, rest) := by
  obtain ⟨c, cs, hhead, hdot, hdig⟩ := hu.head rest
  have hfrac : readFraction (u ++ rest) = (0, 0, u ++ rest, false) := by
    rw [hhead, readFraction, if_neg hdot]
  exact readComponent_of hu hrest (by simpa [hhead] using hdig) hfrac hpos hle

/-- A component with a fraction. -/
theorem readComponent_fraction {frac : List Char} (hfr : ∀ c ∈ frac, c.isDigit = true)
    (hdvd : 10 ^ frac.length ∣ unit)
    (hunit : unit ≤ 10 ^ 9) (hpos : 0 < unit)
    (hle : v * unit + Nat.ofDigitChars 10 frac 0 * (unit / 10 ^ frac.length) ≤ 2 ^ 63) :
    readComponent (Nat.toDigits 10 v ++ ('.' :: (frac ++ (u ++ rest)))) =
      some (v * unit + Nat.ofDigitChars 10 frac 0 * (unit / 10 ^ frac.length), rest) := by
  obtain ⟨c, cs, hhead, hdot, hdig⟩ := hu.head rest
  have hunitHead : ∀ d ∈ (u ++ rest).head?, d.isDigit = false := by simpa [hhead] using hdig
  have hf : Nat.ofDigitChars 10 frac 0 < 10 ^ frac.length := ofDigitChars_lt hfr
  have h10 : 10 ^ frac.length ≤ unit := Nat.le_of_dvd hpos hdvd
  have hfrac : readFraction ('.' :: (frac ++ (u ++ rest))) =
      (Nat.ofDigitChars 10 frac 0, frac.length, u ++ rest, decide (frac.length ≠ 0)) := by
    simp only [readFraction, if_true, leadingFraction_digits hfr hunitHead (x := 0) (n := 0)
      (by omega), Nat.zero_add, length_append]
    congr 3
    simp
  have hadd : (if Nat.ofDigitChars 10 frac 0 = 0 then 0
      else fractionNanos (Nat.ofDigitChars 10 frac 0) frac.length unit) =
      Nat.ofDigitChars 10 frac 0 * (unit / 10 ^ frac.length) := by
    split
    · rename_i h0
      rw [h0, Nat.zero_mul]
    · exact fractionNanos_eq hf hdvd hunit hpos
  rw [← hadd] at hle ⊢
  exact readComponent_of hu hrest (by simp) hfrac hpos hle

end

/-- **A decimal number of decimal units** is read as its nanoseconds. -/
theorem readComponent_formatDecimal {w : ℕ} (hu : IsUnit u (10 ^ w)) (hw : 0 < w)
    (hw9 : w ≤ 9) (hrest : EndsComponent rest) (hle : x ≤ 2 ^ 63) :
    readComponent (formatDecimal x (-w) ++ (u ++ rest)) = some (x, rest) := by
  have hsplit := Nat.div_add_mod x (10 ^ w)
  have hneg : ¬ 0 ≤ -(w : ℤ) := by omega
  rw [formatDecimal, if_neg hneg]
  simp only [neg_neg, Int.toNat_natCast]
  by_cases hz : x % 10 ^ w = 0
  · have hx : x / 10 ^ w * 10 ^ w = x := by rw [Nat.mul_comm]; omega
    rw [if_pos hz, if_pos rfl, append_nil,
      readComponent_integer hu hrest (by positivity) (by rw [hx]; exact hle), hx]
  · obtain ⟨j, hlen, hval⟩ := fraction_value hw x
    have hdig := isDigit_trimZeros_padDigits (w := w) (n := x % 10 ^ w)
    rw [if_neg hz]
    set frac := trimZeros (padDigits w (x % 10 ^ w)) with hfrac
    have hpow : (10 : ℕ) ^ w = 10 ^ frac.length * 10 ^ j := by rw [← pow_add, hlen]
    have hne : frac ≠ [] := by
      intro h
      rw [h, append_nil, Nat.ofDigitChars_ten_toDigits] at hval
      rw [h, length_nil, Nat.zero_add] at hlen
      rw [hlen, Nat.mul_comm] at hval
      omega
    have hq : 10 ^ w / 10 ^ frac.length = 10 ^ j := by
      rw [hpow]
      exact Nat.mul_div_cancel_left _ (by positivity)
    have hsum : x / 10 ^ w * 10 ^ w + Nat.ofDigitChars 10 frac 0 * (10 ^ w / 10 ^ frac.length)
        = x := by
      rw [Nat.ofDigitChars_append, Nat.ofDigitChars_ten_toDigits,
        Nat.ofDigitChars_eq_ofDigitChars_zero, Nat.add_mul] at hval
      calc x / 10 ^ w * 10 ^ w + Nat.ofDigitChars 10 frac 0 * (10 ^ w / 10 ^ frac.length)
          = x / 10 ^ w * (10 ^ frac.length * 10 ^ j) + Nat.ofDigitChars 10 frac 0 * 10 ^ j := by
            rw [hq, ← hpow]
        _ = 10 ^ frac.length * (x / 10 ^ w) * 10 ^ j + Nat.ofDigitChars 10 frac 0 * 10 ^ j := by
            ring
        _ = x := hval
    rw [if_neg hne, append_assoc, cons_append, readComponent_fraction hu hrest hdig ⟨10 ^ j, hpow⟩
        (Nat.pow_le_pow_right (by norm_num) hw9) (by positivity) (by rw [hsum]; exact hle), hsum]

variable {fuel : ℕ} {cs : List Char}

/-- The loop reads one component. -/
theorem parseDurationLoop_step (hne : cs ≠ []) (hread : readComponent cs = some (v, rest))
    (hle : d + v ≤ 2 ^ 63) :
    parseDurationLoop (fuel + 1) cs d = parseDurationLoop fuel rest (d + v) := by
  cases cs with
  | nil => exact absurd rfl hne
  | cons c cs => simp only [parseDurationLoop, hread, if_pos hle]

@[simp] theorem parseDurationLoop_nil (fuel d : ℕ) : parseDurationLoop fuel [] d = some d := by
  cases fuel <;> rfl

/-- A unit of the table. -/
theorem isUnit_of_all (hlookup : unitMap.lookup u = some unit) (hne : u ≠ [])
    (hall : (u.all fun c => !endsUnit c) = true) : IsUnit u unit :=
  ⟨hlookup, hne, fun c hc => by simpa using all_eq_true.mp hall c hc⟩

theorem isUnit_ns : IsUnit "ns".toList 1 := isUnit_of_all (by decide) (by decide) (by decide)

theorem isUnit_us : IsUnit "µs".toList (10 ^ 3) := isUnit_of_all (by decide) (by decide) (by decide)

theorem isUnit_ms : IsUnit "ms".toList (10 ^ 6) := isUnit_of_all (by decide) (by decide) (by decide)

theorem isUnit_s : IsUnit "s".toList (10 ^ 9) := isUnit_of_all (by decide) (by decide) (by decide)

theorem isUnit_m : IsUnit "m".toList (60 * 10 ^ 9) :=
  isUnit_of_all (by decide) (by decide) (by decide)

theorem isUnit_h : IsUnit "h".toList (3600 * 10 ^ 9) :=
  isUnit_of_all (by decide) (by decide) (by decide)

theorem endsComponent_nil : EndsComponent [] := by
  simp [EndsComponent]

/-- A component ends before digits. -/
theorem endsComponent_digits (h : ∀ c ∈ ds, c.isDigit = true) (hne : ds ≠ []) (rest : List Char) :
    EndsComponent (ds ++ rest) := by
  cases ds with
  | nil => exact absurd rfl hne
  | cons c ds => simpa [EndsComponent] using h c mem_cons_self

/-- It ends before a decimal. -/
theorem endsComponent_formatDecimal (d : ℕ) (k : ℤ) (rest : List Char) :
    EndsComponent (formatDecimal d k ++ rest) := by
  obtain ⟨n, tail, h⟩ := formatDecimal_eq_append d k
  rw [h, append_assoc]
  exact endsComponent_digits isDigit_toDigits Nat.toDigits_ne_nil _

/-- The loop reads the last component. -/
theorem parseDurationLoop_last (hne : cs ≠ []) (hread : readComponent cs = some (v, []))
    (hle : d + v ≤ 2 ^ 63) : parseDurationLoop (fuel + 1) cs d = some (d + v) := by
  rw [parseDurationLoop_step hne hread hle, parseDurationLoop_nil]

/-- Seconds with a fraction are read back. -/
theorem readComponent_seconds (hle : x ≤ 2 ^ 63) :
    readComponent (formatDecimal x (-9) ++ "s".toList) = some (x, []) := by
  have := readComponent_formatDecimal isUnit_s (by norm_num) (by norm_num) endsComponent_nil hle
  rwa [append_nil] at this

/-- The loop reads back a clock text: up to three components, one for each turn. -/
theorem parseDurationLoop_clockChars {u : ℕ} (hle : u ≤ 2 ^ 63)
    (hfuel : (clockChars u).length ≤ fuel) : parseDurationLoop fuel (clockChars u) 0 = some u := by
  have hdig : ∀ n, 0 < (Nat.toDigits 10 n).length := fun n => Nat.length_toDigits_pos
  have hls : "s".toList.length = 1 := rfl
  have hlm : "m".toList.length = 1 := rfl
  have hlh : "h".toList.length = 1 := rfl
  simp only [clockChars] at hfuel ⊢
  set s := u % (60 * 10 ^ 9) with hs
  set m := u / (60 * 10 ^ 9) with hm
  have hu : u = 60 * 10 ^ 9 * m + s := (Nat.div_add_mod u _).symm
  have hsec := readComponent_seconds (x := s) (by omega)
  have hsecne : formatDecimal s (-9) ++ "s".toList ≠ [] := by simp
  have hmin : ∀ v, v * (60 * 10 ^ 9) ≤ 2 ^ 63 → readComponent (Nat.toDigits 10 v ++ ("m".toList ++
        (formatDecimal s (-9) ++ "s".toList))) =
        some (v * (60 * 10 ^ 9), formatDecimal s (-9) ++ "s".toList) :=
    fun v hv => readComponent_integer isUnit_m (endsComponent_formatDecimal s (-9) _)
      (by norm_num) hv
  by_cases hm0 : m = 0
  · simp only [hm0, Nat.zero_div, if_true, nil_append, length_append, hls] at hfuel ⊢
    obtain ⟨f, rfl⟩ : ∃ f, fuel = f + 1 := ⟨fuel - 1, by omega⟩
    rw [parseDurationLoop_last hsecne hsec (by omega), Option.some.injEq]
    omega
  · rw [if_neg hm0] at hfuel ⊢
    by_cases hh0 : m / 60 = 0
    · have hmm : m % 60 = m := by omega
      have := hdig m
      simp only [hh0, if_true, nil_append, hmm, append_assoc, length_append, hls, hlm] at hfuel ⊢
      obtain ⟨f, rfl⟩ : ∃ f, fuel = f + 2 := ⟨fuel - 2, by omega⟩
      rw [parseDurationLoop_step (by simp) (hmin m (by omega)) (by omega),
        parseDurationLoop_last hsecne hsec (by omega), Option.some.injEq]
      omega
    · have hhour := readComponent_integer isUnit_h (v := m / 60)
        (endsComponent_digits (isDigit_toDigits (n := m % 60)) Nat.toDigits_ne_nil
          ("m".toList ++ (formatDecimal s (-9) ++ "s".toList))) (by norm_num) (by omega)
      have := hdig (m / 60)
      have := hdig (m % 60)
      simp only [hh0, if_false, append_assoc, length_append, hls, hlm, hlh] at hfuel ⊢
      obtain ⟨f, rfl⟩ : ∃ f, fuel = f + 3 := ⟨fuel - 3, by omega⟩
      rw [parseDurationLoop_step (by simp) hhour (by omega),
        parseDurationLoop_step (by simp) (hmin (m % 60) (by omega)) (by omega),
        parseDurationLoop_last hsecne hsec (by omega), Option.some.injEq]
      omega

/-- A single component is read back. -/
theorem parseDurationLoop_single {u : ℕ} (hne : cs ≠ []) (hread : readComponent cs = some (u, []))
    (hle : u ≤ 2 ^ 63) (hfuel : cs.length ≤ fuel) : parseDurationLoop fuel cs 0 = some u := by
  have hpos : 0 < cs.length := length_pos_iff.mpr hne
  obtain ⟨f, rfl⟩ : ∃ f, fuel = f + 1 := ⟨fuel - 1, by omega⟩
  rw [parseDurationLoop_last hne hread (by omega), Nat.zero_add]

/-- **The loop reads back the text of a positive magnitude.** -/
theorem parseDurationLoop_durationChars {u : ℕ} (hpos : u ≠ 0) (hle : u ≤ 2 ^ 63)
    (hfuel : (durationChars u).length ≤ fuel) :
    parseDurationLoop fuel (durationChars u) 0 = some u := by
  simp only [durationChars, if_neg hpos] at hfuel ⊢
  split at hfuel
  · rename_i h3
    have hread := readComponent_integer isUnit_ns endsComponent_nil (v := u) (by norm_num)
      (by omega)
    rw [append_nil, Nat.mul_one] at hread
    rw [if_pos h3]
    exact parseDurationLoop_single (by simp) hread hle hfuel
  rename_i h3
  rw [if_neg h3]
  split at hfuel
  · rename_i h6
    have hread := readComponent_formatDecimal isUnit_us (by norm_num) (by norm_num)
      endsComponent_nil hle
    rw [append_nil] at hread
    rw [if_pos h6]
    exact parseDurationLoop_single (by simp) hread hle hfuel
  rename_i h6
  rw [if_neg h6]
  split at hfuel
  · rename_i h9
    have hread := readComponent_formatDecimal isUnit_ms (by norm_num) (by norm_num)
      endsComponent_nil hle
    rw [append_nil] at hread
    rw [if_pos h9]
    exact parseDurationLoop_single (by simp) hread hle hfuel
  rename_i h9
  rw [if_neg h9]
  exact parseDurationLoop_clockChars hle hfuel

/-- A duration starts with digits. -/
theorem durationChars_eq_append (u : ℕ) :
    ∃ n rest, rest ≠ [] ∧ durationChars u = Nat.toDigits 10 n ++ rest := by
  have hdec : ∀ (k : ℤ) (x : ℕ) (t : List Char), t ≠ [] →
      ∃ n rest, rest ≠ [] ∧ formatDecimal x k ++ t = Nat.toDigits 10 n ++ rest := by
    intro k x t ht
    obtain ⟨n, rest, h⟩ := formatDecimal_eq_append x k
    exact ⟨n, rest ++ t, by simp [ht], by rw [h, append_assoc]⟩
  simp only [durationChars]
  split
  · exact ⟨0, "s".toList, by decide, by decide⟩
  split
  · exact ⟨u, "ns".toList, by decide, rfl⟩
  split
  · exact hdec _ _ _ (by decide)
  split
  · exact hdec _ _ _ (by decide)
  simp only [clockChars]
  by_cases hh : u / (60 * 10 ^ 9) / 60 = 0
  · by_cases hm : u / (60 * 10 ^ 9) = 0
    · simp only [hm, Nat.zero_div, if_true, nil_append]
      exact hdec _ _ _ (by decide)
    · simp only [hh, hm, if_true, if_false, nil_append, append_assoc]
      exact ⟨_, _, by simp, rfl⟩
  · simp only [hh, if_false, append_assoc]
    exact ⟨_, _, by simp, rfl⟩

/-- **Every duration is read back from its string.** -/
theorem parseDuration_durationString (d : I64) : parseDuration (durationString d) = some d := by
  obtain ⟨n, rest, hrest, htext⟩ := durationChars_eq_append d.1.natAbs
  have hsign := readSign_signed (decide (d.1 < 0)) (isDigit_toDigits (n := n))
    Nat.toDigits_ne_nil rest
  rw [← htext] at hsign
  have hnil : durationChars d.1.natAbs ≠ [] := by
    rw [htext]
    simp [hrest]
  have hone : durationChars d.1.natAbs ≠ ['0'] := by
    intro h
    have hlen := congrArg length (htext.symm.trans h)
    have hpos : 0 < (Nat.toDigits 10 n).length := Nat.length_toDigits_pos
    have hpos' : 0 < rest.length := length_pos_iff.mpr hrest
    simp only [length_append, length_singleton] at hlen
    omega
  simp only [parseDuration, durationString, String.toList_ofList, hsign, if_neg hone, if_neg hnil]
  by_cases h0 : d.1 = 0
  · obtain rfl : d = I64.zero := Subtype.ext h0
    decide
  · have hd := d.2
    rw [parseDurationLoop_durationChars (by omega) (by omega) le_rfl]
    by_cases hneg : d.1 < 0
    · have hval : -(d.1.natAbs : ℤ) = d.1 := by omega
      simp only [hneg, decide_true, if_true, hval, I64.clamp_coe]
    · have hlt : d.1.natAbs < 2 ^ 63 := by omega
      have hval : (d.1.natAbs : ℤ) = d.1 := by omega
      simp only [hneg, decide_false, Bool.false_eq_true, if_false, if_pos hlt, hval, I64.clamp_coe]

end Go
