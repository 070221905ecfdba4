import Decree.Strconv

/-!
# Go's `time.Time` in RFC 3339

Instants in UTC with nanoseconds, the proleptic Gregorian calendar, and `Time.Format` and
`time.Parse` of Go on the layout `RFC3339Nano`, `formatTime` and `parseTime`. The parser is the
permissive general one of the package (an hour of one digit, a comma before the fraction, any
number of fraction digits, offsets up to `24:60`), since the strict fast path accepts a subset with
the same result. `ProtoTimestamp` is the wire form (`google.protobuf.Timestamp`).

## Main results

* `parseTime_formatTime`: an instant is read back.
* `civilOfDays_valid`: every day has a date.
-/

open List

namespace Go

/-- An instant: seconds since the Unix epoch and nanoseconds within the second. -/
structure Time where
  sec : ℤ
  nsec : ℕ
  nsec_lt : nsec < 10 ^ 9
deriving DecidableEq

namespace Time

/-- The zero `time.Time`: the first instant of year one. -/
def zero : Time :=
  ⟨-62135596800, 0, by norm_num⟩

end Time

/-! ### The calendar -/

/-- A date of the proleptic Gregorian calendar. -/
structure Civil where
  year : ℤ
  month : ℤ
  day : ℤ
deriving DecidableEq

def isLeap (year : ℤ) : Prop :=
  year % 4 = 0 ∧ (year % 100 ≠ 0 ∨ year % 400 = 0)

instance (year : ℤ) : Decidable (isLeap year) :=
  instDecidableAnd

def daysIn (month year : ℤ) : ℤ :=
  if month = 2 then if isLeap year then 29 else 28
  else if month = 4 ∨ month = 6 ∨ month = 9 ∨ month = 11 then 30
  else 31

/-- The place of a day in the 400-year cycle of years that begin in March: centuries,
four-year groups, years, and the day of the year. The leap day is the last day of such
a year, so each quotient but the last of its kind is exact. -/
structure CyclePlace where
  century : ℤ
  group : ℤ
  year : ℤ
  day : ℤ

/-- Find the place of day `r` of a 400-year cycle. -/
def cyclePlace (r : ℤ) : CyclePlace :=
  let c := min (r / 36524) 3
  let r₁ := r - 36524 * c
  let q := r₁ / 1461
  let r₂ := r₁ - 1461 * q
  let a := min (r₂ / 365) 3
  ⟨c, q, a, r₂ - 365 * a⟩

/-- The date with year `y` and month `mp` of the count that begins in March. -/
def civilOfMarch (y mp day : ℤ) : Civil :=
  if mp < 10 then ⟨y, mp + 3, day⟩ else ⟨y + 1, mp - 9, day⟩

/-- The year of a date in the count that begins in March. -/
def Civil.marchYear (c : Civil) : ℤ :=
  if c.month ≤ 2 then c.year - 1 else c.year

/-- The month of a date in the count that begins in March. -/
def Civil.marchMonth (c : Civil) : ℤ :=
  if c.month ≤ 2 then c.month + 9 else c.month - 3

/-- The date of a day counted from the Unix epoch. -/
def civilOfDays (z : ℤ) : Civil :=
  let d := z + 719468
  let p := cyclePlace (d % 146097)
  let mp := (5 * p.day + 2) / 153
  civilOfMarch (400 * (d / 146097) + 100 * p.century + 4 * p.group + p.year) mp
    (p.day - (153 * mp + 2) / 5 + 1)

/-- The day of a date, counted from the Unix epoch. -/
def daysOfCivil (c : Civil) : ℤ :=
  let yoe := c.marchYear % 400
  c.marchYear / 400 * 146097 +
    (yoe * 365 + yoe / 4 - yoe / 100 + ((153 * c.marchMonth + 2) / 5 + c.day - 1)) - 719468

/-- A date from its March year is read back. -/
theorem civilOfMarch_inv (y day : ℤ) {mp : ℤ} (h : 0 ≤ mp ∧ mp ≤ 11) :
    (civilOfMarch y mp day).marchYear = y ∧ (civilOfMarch y mp day).marchMonth = mp ∧
      (civilOfMarch y mp day).day = day := by
  by_cases hmp : mp < 10
  · have h2 : ¬ mp + 3 ≤ 2 := by omega
    simp only [civilOfMarch, if_pos hmp, Civil.marchYear, Civil.marchMonth, if_neg h2,
      true_and, and_true]
    omega
  · have h2 : mp - 9 ≤ 2 := by omega
    simp only [civilOfMarch, if_neg hmp, Civil.marchYear, Civil.marchMonth, if_pos h2, and_true]
    omega

/-- What a place of the cycle satisfies: it adds up to the day, its parts are in range,
and the leap day occurs in the last year of a group, which is not the last group of a
century unless the century is the last one. -/
theorem cyclePlace_spec {r : ℤ} (h0 : 0 ≤ r) (hr : r < 146097) :
    let p := cyclePlace r
    r = 36524 * p.century + 1461 * p.group + 365 * p.year + p.day ∧
      (0 ≤ p.century ∧ p.century ≤ 3) ∧ (0 ≤ p.group ∧ p.group ≤ 24) ∧
      (0 ≤ p.year ∧ p.year ≤ 3) ∧ (0 ≤ p.day ∧ p.day ≤ 365) ∧
      (p.day = 365 → p.year = 3 ∧ (p.group = 24 → p.century = 3)) := by
  simp only [cyclePlace]
  have hc : min (r / 36524) 3 = r / 36524 ∧ r / 36524 ≤ 3 ∨
      min (r / 36524) 3 = 3 ∧ r / 36524 = 4 := by omega
  set c := min (r / 36524) 3
  set r1 := r - 36524 * c with hr1
  have hr1b : 0 ≤ r1 ∧ r1 ≤ 36524 ∧ (r1 = 36524 → c = 3) := by omega
  set q := r1 / 1461 with hq
  set r2 := r1 - 1461 * q with hr2
  have hr2b : 0 ≤ r2 ∧ r2 ≤ 1460 := by omega
  have ha : min (r2 / 365) 3 = r2 / 365 ∧ r2 / 365 ≤ 3 ∨
      min (r2 / 365) 3 = 3 ∧ r2 / 365 = 4 := by omega
  set a := min (r2 / 365) 3
  refine ⟨by omega, by omega, by omega, by omega, by omega, ?_⟩
  intro hday
  exact ⟨by omega, by omega⟩

theorem marchMonth_bounds {day : ℤ} (h : 0 ≤ day ∧ day ≤ 365) :
    0 ≤ (5 * day + 2) / 153 ∧ (5 * day + 2) / 153 ≤ 11 := by
  omega

variable (t : Time) (z : ℤ)

/-- **The calendar is inverted.** -/
theorem daysOfCivil_civilOfDays : daysOfCivil (civilOfDays z) = z := by
  have hmod := Int.emod_nonneg (z + 719468) (show (146097 : ℤ) ≠ 0 by norm_num)
  have hlt := Int.emod_lt_of_pos (z + 719468) (show (0 : ℤ) < 146097 by norm_num)
  have hdiv := Int.mul_ediv_add_emod (z + 719468) 146097
  obtain ⟨hsum, hc, hq, ha, hd, -⟩ := cyclePlace_spec hmod hlt
  simp only [civilOfDays]
  generalize cyclePlace ((z + 719468) % 146097) = p at *
  generalize (z + 719468) / 146097 = era at *
  obtain ⟨hyear, hmonth, hday⟩ := civilOfMarch_inv
    (400 * era + 100 * p.century + 4 * p.group + p.year)
    (p.day - (153 * ((5 * p.day + 2) / 153) + 2) / 5 + 1) (marchMonth_bounds hd)
  simp only [daysOfCivil, hyear, hmonth, hday]
  have hy : (400 * era + 100 * p.century + 4 * p.group + p.year) / 400 = era ∧
      (400 * era + 100 * p.century + 4 * p.group + p.year) % 400 =
        100 * p.century + 4 * p.group + p.year := by omega
  have hyoe : (100 * p.century + 4 * p.group + p.year) / 4 = 25 * p.century + p.group ∧
      (100 * p.century + 4 * p.group + p.year) / 100 = p.century := by omega
  rw [hy.1, hy.2, hyoe.1, hyoe.2]
  omega

/-- The last day of February is the 29th only in the leap years of the cycle. -/
theorem february_le (era : ℤ) {p : CyclePlace} (hq : 0 ≤ p.group ∧ p.group ≤ 24)
    (hd : 0 ≤ p.day ∧ p.day ≤ 365)
    (hleap : p.day = 365 → p.year = 3 ∧ (p.group = 24 → p.century = 3)) :
    p.day - 337 + 1 ≤ daysIn 2 (400 * era + 100 * p.century + 4 * p.group + p.year + 1) := by
  rw [daysIn, if_pos rfl]
  split
  · omega
  · rename_i h
    have : p.day ≠ 365 := by
      intro h365
      obtain ⟨hy3, hg⟩ := hleap h365
      refine h ⟨by omega, ?_⟩
      by_cases hg24 : p.group = 24
      · have := hg hg24
        omega
      · omega
    omega

/-- **Every day has a valid date.** -/
theorem civilOfDays_valid : (1 ≤ (civilOfDays z).month ∧ (civilOfDays z).month ≤ 12) ∧
      1 ≤ (civilOfDays z).day ∧
      (civilOfDays z).day ≤ daysIn (civilOfDays z).month (civilOfDays z).year := by
  have hmod := Int.emod_nonneg (z + 719468) (show (146097 : ℤ) ≠ 0 by norm_num)
  have hlt := Int.emod_lt_of_pos (z + 719468) (show (0 : ℤ) < 146097 by norm_num)
  obtain ⟨-, -, hq, -, hd, hleap⟩ := cyclePlace_spec hmod hlt
  have hmp := marchMonth_bounds hd
  simp only [civilOfDays]
  generalize cyclePlace ((z + 719468) % 146097) = p at *
  have hfeb := february_le ((z + 719468) / 146097) hq hd hleap
  generalize (z + 719468) / 146097 = era at *
  obtain ⟨mp, hmpdef⟩ : ∃ mp, mp = (5 * p.day + 2) / 153 := ⟨_, rfl⟩
  rw [← hmpdef] at hmp ⊢
  by_cases h10 : mp < 10
  · simp only [civilOfMarch, if_pos h10]
    refine ⟨by omega, by omega, ?_⟩
    simp only [daysIn]
    split <;> omega
  · simp only [civilOfMarch, if_neg h10]
    refine ⟨by omega, by omega, ?_⟩
    by_cases h11 : mp = 11
    · subst h11
      exact hfeb
    · obtain rfl : mp = 10 := by omega
      simp [daysIn]
      omega

/-! ### The text form -/

/-- `appendInt`: a sign for a negative number and at least `w` digits. -/
def appendInt (x : ℤ) (w : ℕ) : List Char :=
  signed (decide (x < 0)) (padDigits w x.natAbs)

/-- The fraction of a second, without zeros at its end and without the point when it is
zero. -/
def appendNano (n : ℕ) : List Char :=
  if n = 0 then [] else '.' :: trimZeros (padDigits 9 n)

def Time.date (t : Time) : Civil :=
  civilOfDays (t.sec / 86400)

def Time.secondOfDay (t : Time) : ℤ :=
  t.sec % 86400

/-- **`t.Format(time.RFC3339Nano)`** in UTC. -/
def formatTime (t : Time) : String :=
  String.ofList
    (appendInt t.date.year 4 ++ '-' :: (appendInt t.date.month 2 ++ '-' ::
      (appendInt t.date.day 2 ++ 'T' :: (appendInt (t.secondOfDay / 3600) 2 ++ ':' ::
        (appendInt (t.secondOfDay % 3600 / 60) 2 ++ ':' ::
          (appendInt (t.secondOfDay % 60) 2 ++ (appendNano t.nsec ++ ['Z'])))))))

/-! ### The parser -/

/-- Exactly `w` digits. -/
def takeDigits (w : ℕ) (cs : List Char) : Option (ℕ × List Char) :=
  if (cs.take w).length = w ∧ (cs.take w).all Char.isDigit then
    some (Nat.ofDigitChars 10 (cs.take w) 0, cs.drop w)
  else none

/-- `getnum`: two digits, or one when that is allowed. -/
def getnum (fixed : Bool) (cs : List Char) : Option (ℕ × List Char) :=
  match takeDigits 2 cs with
  | some r => some r
  | none => if fixed then none else takeDigits 1 cs

/-- One given character of the layout. -/
def skipChar (c : Char) : List Char → Option (List Char)
  | [] => none
  | d :: cs => if d = c then some cs else none

/-- The optional fraction of a second: a point or a comma and digits, of which the first
nine count. -/
def readNanos : List Char → ℕ × List Char
  | [] => (0, [])
  | c :: cs =>
    let ds := cs.takeWhile Char.isDigit
    if (c = '.' ∨ c = ',') ∧ ds ≠ [] then
      (Nat.ofDigitChars 10 (ds.take 9) 0 * 10 ^ (9 - (ds.take 9).length), cs.dropWhile Char.isDigit)
    else (0, c :: cs)

/-- The zone: `Z`, or a signed offset of hours and minutes, in seconds. -/
def readZone : List Char → Option (ℤ × List Char)
  | [] => none
  | c :: cs =>
    if c = 'Z' then some (0, cs)
    else do
      let (hr, cs) ← getnum true cs
      let cs ← skipChar ':' cs
      let (mm, cs) ← getnum true cs
      if hr ≤ 24 ∧ mm ≤ 60 then
        if c = '+' then some ((hr * 60 + mm) * 60, cs)
        else if c = '-' then some (-((hr * 60 + mm) * 60), cs)
        else none
      else none

/-- A date whose month and day are in range. -/
def readDate (cs : List Char) : Option (Civil × List Char) := do
  let (year, cs) ← takeDigits 4 cs
  let cs ← skipChar '-' cs
  let (month, cs) ← getnum true cs
  let cs ← skipChar '-' cs
  let (day, cs) ← getnum true cs
  if (1 ≤ month ∧ month ≤ 12) ∧ 1 ≤ day ∧ (day : ℤ) ≤ daysIn month year then
    some (⟨year, month, day⟩, cs)
  else none

structure Clock where
  hour : ℕ
  min : ℕ
  sec : ℕ
  nsec : ℕ

def readClock (cs : List Char) : Option (Clock × List Char) := do
  let (hour, cs) ← getnum false cs
  let cs ← skipChar ':' cs
  let (min, cs) ← getnum true cs
  let cs ← skipChar ':' cs
  let (sec, cs) ← getnum true cs
  let (nsec, cs) := readNanos cs
  if hour < 24 ∧ min < 60 ∧ sec < 60 then some (⟨hour, min, sec, nsec⟩, cs) else none

/-- The second of a date, a time of day and an offset. -/
def instantOf (d : Civil) (c : Clock) (offset : ℤ) : ℤ :=
  daysOfCivil d * 86400 + c.hour * 3600 + c.min * 60 + c.sec - offset

/-- **`time.Parse(time.RFC3339Nano, s)`**: `none` is an error, with which the Go function
returns the zero time. -/
def parseTime (s : String) : Option Time := do
  let (date, cs) ← readDate s.toList
  let cs ← skipChar 'T' cs
  let (clock, cs) ← readClock cs
  let (offset, cs) ← readZone cs
  if h : cs = [] ∧ clock.nsec < 10 ^ 9 then
    some ⟨instantOf date clock offset, clock.nsec, h.2⟩
  else none

/-! ### The wire form -/

/-- `google.protobuf.Timestamp`. -/
structure ProtoTimestamp where
  seconds : I64
  nanos : ℤ
deriving DecidableEq

/-- `AsTime`: nanoseconds outside a second are carried into the seconds. -/
def ProtoTimestamp.asTime (x : ProtoTimestamp) : Time :=
  ⟨x.seconds.1 + x.nanos / 10 ^ 9, (x.nanos % 10 ^ 9).toNat, by omega⟩

/-- `timestamppb.New`. -/
def ProtoTimestamp.ofTime (t : Time) : ProtoTimestamp :=
  ⟨.clamp t.sec, t.nsec⟩

/-! ### Reading back -/

/-- A padded number is read back. -/
theorem takeDigits_padDigits {w n : ℕ} (hw : 0 < w) (hn : n < 10 ^ w) (rest : List Char) :
    takeDigits w (padDigits w n ++ rest) = some (n, rest) := by
  have hlen := length_padDigits hw hn
  have htake : (padDigits w n ++ rest).take w = padDigits w n := take_left' hlen
  have hdrop : (padDigits w n ++ rest).drop w = rest := drop_left' hlen
  have hall : (padDigits w n).all Char.isDigit = true := all_eq_true.mpr isDigit_padDigits
  rw [takeDigits, htake, hdrop, if_pos ⟨hlen, hall⟩, ofDigitChars_padDigits]

theorem getnum_padDigits (fixed : Bool) {n : ℕ} (hn : n < 100) (rest : List Char) :
    getnum fixed (padDigits 2 n ++ rest) = some (n, rest) := by
  rw [getnum, takeDigits_padDigits (by norm_num) hn]

theorem appendInt_natCast (n w : ℕ) : appendInt n w = padDigits w n := by
  have h : ¬ (n : ℤ) < 0 := by omega
  simp [appendInt, signed, h]

/-- And so are the nanoseconds. -/
theorem readNanos_appendNano {n : ℕ} (hn : n < 10 ^ 9) :
    readNanos (appendNano n ++ ['Z']) = (n, ['Z']) := by
  by_cases h0 : n = 0
  · subst h0
    decide
  · obtain ⟨j, hlen, hval⟩ := fraction_value (w := 9) (by norm_num) n
    have hdig := isDigit_trimZeros_padDigits (w := 9) (n := n)
    rw [Nat.mod_eq_of_lt hn, Nat.div_eq_of_lt hn, Nat.toDigits_zero,
      Nat.ofDigitChars_append] at hval
    rw [Nat.mod_eq_of_lt hn] at hlen
    rw [appendNano, if_neg h0]
    set frac := trimZeros (padDigits 9 n)
    have hne : frac ≠ [] := by
      intro h
      rw [h] at hval
      simp [Nat.ofDigitChars_cons] at hval
      omega
    have hzero : Nat.ofDigitChars 10 ['0'] 0 = 0 := by decide
    rw [hzero] at hval
    have htake : (frac ++ ['Z']).takeWhile Char.isDigit = frac := by
      rw [takeWhile_append_of_pos hdig]
      simp
    have hdrop : (frac ++ ['Z']).dropWhile Char.isDigit = ['Z'] := by
      rw [dropWhile_append_of_pos hdig]
      simp
    have hpow : 9 - frac.length = j := by omega
    simp only [cons_append, readNanos, htake, hdrop, true_or, true_and, ne_eq, hne,
      not_false_eq_true, if_true, take_of_length_le (show frac.length ≤ 9 by omega), hpow,
      hval]

/-- And so is the date. -/
theorem readDate_append {d : Civil} (hy : 0 ≤ d.year ∧ d.year ≤ 9999)
    (hm : 1 ≤ d.month ∧ d.month ≤ 12) (hd : 1 ≤ d.day ∧ d.day ≤ daysIn d.month d.year)
    (rest : List Char) :
    readDate (appendInt d.year 4 ++ '-' :: (appendInt d.month 2 ++ '-' ::
      (appendInt d.day 2 ++ rest))) = some (d, rest) := by
  obtain ⟨year, month, day⟩ := d
  have h31 : daysIn month year ≤ 31 := by
    simp only [daysIn]
    split_ifs <;> norm_num
  simp only at hy hm hd
  lift year to ℕ using hy.1
  lift month to ℕ using by omega
  lift day to ℕ using by omega
  have hcond : (1 ≤ month ∧ month ≤ 12) ∧ 1 ≤ day ∧ (day : ℤ) ≤ daysIn month year :=
    ⟨by omega, by omega, hd.2⟩
  simp only [readDate, appendInt_natCast,
    takeDigits_padDigits (show 0 < 4 by norm_num) (show year < 10 ^ 4 by omega),
    getnum_padDigits true (show month < 100 by omega),
    getnum_padDigits true (show day < 100 by omega), skipChar, if_true, Option.bind_eq_bind,
    Option.bind_some, if_pos hcond]

/-- And so is the clock. -/
theorem readClock_append {c : Clock} (hh : c.hour < 24) (hm : c.min < 60) (hs : c.sec < 60)
    (hn : c.nsec < 10 ^ 9) :
    readClock (appendInt c.hour 2 ++ ':' :: (appendInt c.min 2 ++ ':' ::
      (appendInt c.sec 2 ++ (appendNano c.nsec ++ ['Z'])))) = some (c, ['Z']) := by
  simp only [readClock, appendInt_natCast, getnum_padDigits false (show c.hour < 100 by omega),
    getnum_padDigits true (show c.min < 100 by omega),
    getnum_padDigits true (show c.sec < 100 by omega), readNanos_appendNano hn, skipChar,
    if_true, Option.bind_eq_bind, Option.bind_some, if_pos (And.intro hh (And.intro hm hs))]

def Time.clock (t : Time) : Clock :=
  ⟨(t.secondOfDay / 3600).toNat, (t.secondOfDay % 3600 / 60).toNat,
    (t.secondOfDay % 60).toNat, t.nsec⟩

theorem Time.clock_spec : (t.clock.hour < 24 ∧ t.clock.min < 60 ∧ t.clock.sec < 60) ∧
      (t.clock.hour : ℤ) = t.secondOfDay / 3600 ∧ (t.clock.min : ℤ) = t.secondOfDay % 3600 / 60 ∧
      (t.clock.sec : ℤ) = t.secondOfDay % 60 := by
  simp only [Time.clock, Time.secondOfDay]
  omega

/-- Date and clock give the instant. -/
theorem instantOf_date_clock : instantOf t.date t.clock 0 = t.sec := by
  obtain ⟨-, hh, hm, hs⟩ := t.clock_spec
  simp only [instantOf, Time.date, daysOfCivil_civilOfDays, hh, hm, hs, Time.secondOfDay]
  omega

/-- **An instant in the years 0 to 9999 is read back from its text.** -/
theorem parseTime_formatTime (hy : 0 ≤ t.date.year ∧ t.date.year ≤ 9999) :
    parseTime (formatTime t) = some t := by
  obtain ⟨hmonth, hday⟩ := civilOfDays_valid (t.sec / 86400)
  obtain ⟨⟨hh, hm, hs⟩, hhour, hmin, hsec⟩ := t.clock_spec
  have hdate := readDate_append (d := t.date) hy hmonth hday
  have hclock := readClock_append hh hm hs t.nsec_lt
  have hnsec : t.clock.nsec = t.nsec := rfl
  simp only [parseTime, formatTime, String.toList_ofList, hdate, ← hhour, ← hmin, ← hsec,
    ← hnsec, skipChar, if_true, hclock, readZone, Option.bind_eq_bind, Option.bind_some,
    instantOf_date_clock]
  exact dif_pos ⟨trivial, t.nsec_lt⟩

/-- A year out of range is not read. -/
theorem readDate_append_eq_none {year : ℤ} (hy : ¬ (0 ≤ year ∧ year ≤ 9999))
    (rest : List Char) : readDate (appendInt year 4 ++ '-' :: rest) = none := by
  by_cases hneg : year < 0
  · have htake : takeDigits 4 ('-' :: (padDigits 4 year.natAbs ++ '-' :: rest)) = none := by
      simp [takeDigits]
    simp only [readDate, appendInt, signed, hneg, decide_true, if_true, cons_append, htake,
      Option.bind_eq_bind, Option.bind_none]
  · lift year to ℕ using by omega
    -- the fifth character is a digit
    have hlen : 4 < (padDigits 4 year).length := by
      by_contra hle
      have hlt := ofDigitChars_lt (isDigit_padDigits (w := 4) (n := year))
      rw [ofDigitChars_padDigits] at hlt
      have := Nat.pow_le_pow_right (show 0 < 10 by norm_num) (not_lt.mp hle)
      omega
    obtain ⟨c, cs, hdrop⟩ : ∃ c cs, (padDigits 4 year).drop 4 = c :: cs :=
      exists_cons_of_length_pos (by rw [length_drop]; omega)
    have hne : c ≠ '-' := by
      rintro rfl
      have hdash : '-' ∈ padDigits 4 year := mem_of_mem_drop (hdrop ▸ mem_cons_self)
      exact absurd (isDigit_padDigits _ hdash) (by decide)
    have hskip : skipChar '-' ((padDigits 4 year ++ '-' :: rest).drop 4) = none := by
      rw [drop_append_of_le_length hlen.le, hdrop]
      simp [skipChar, hne]
    rw [appendInt_natCast, readDate, takeDigits]
    split
    · simp only [Option.bind_eq_bind, Option.bind_some, hskip, Option.bind_none]
    · rfl

/-- **No other instant is read back.** -/
theorem parseTime_formatTime_eq_none
    (hy : ¬ (0 ≤ t.date.year ∧ t.date.year ≤ 9999)) : parseTime (formatTime t) = none := by
  simp only [parseTime, formatTime, String.toList_ofList, readDate_append_eq_none hy,
    Option.bind_eq_bind, Option.bind_none]

/-- A time survives its wire form when its seconds fit. -/
theorem asTime_ofTime (h : -2 ^ 63 ≤ t.sec ∧ t.sec < 2 ^ 63) :
    (ProtoTimestamp.ofTime t).asTime = t := by
  obtain ⟨sec, nsec, hn⟩ := t
  have hc : (I64.clamp sec).1 = sec := congrArg Subtype.val (I64.clamp_coe ⟨sec, h⟩)
  simp only [ProtoTimestamp.asTime, ProtoTimestamp.ofTime, hc, Time.mk.injEq]
  omega

/-- The wire form of a time is its own wire form. -/
theorem ofTime_asTime :
    ProtoTimestamp.ofTime (ProtoTimestamp.ofTime t).asTime = ProtoTimestamp.ofTime t := by
  obtain ⟨sec, nsec, hn⟩ := t
  have hdiv : (nsec : ℤ) / 10 ^ 9 = 0 := by omega
  have hmod : ((nsec : ℤ) % 10 ^ 9).toNat = nsec := by omega
  simp only [ProtoTimestamp.asTime, ProtoTimestamp.ofTime, hdiv, hmod, add_zero, I64.clamp_coe]

/-- The seconds of an instant in the years 0 to 9999 fit in 64 bits by far. -/
theorem Time.sec_bounds (hy : 0 ≤ t.date.year ∧ t.date.year ≤ 9999) :
    -2 ^ 63 ≤ t.sec ∧ t.sec < 2 ^ 63 := by
  obtain ⟨hm, hd, hdle⟩ := civilOfDays_valid (t.sec / 86400)
  have hinv := daysOfCivil_civilOfDays (t.sec / 86400)
  have h31 : daysIn (civilOfDays (t.sec / 86400)).month (civilOfDays (t.sec / 86400)).year
      ≤ 31 := by
    simp only [daysIn]
    split_ifs <;> norm_num
  simp only [Time.date] at hy
  generalize civilOfDays (t.sec / 86400) = c at *
  have hmy : c.marchYear ≤ c.year ∧ c.year - 1 ≤ c.marchYear := by
    simp only [Civil.marchYear]
    split <;> omega
  have hmm : 0 ≤ c.marchMonth ∧ c.marchMonth ≤ 11 := by
    simp only [Civil.marchMonth]
    split <;> omega
  simp only [daysOfCivil] at hinv
  omega

end Go
