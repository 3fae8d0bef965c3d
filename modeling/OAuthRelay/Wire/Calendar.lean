import Mathlib.Data.List.Basic
import Mathlib.Data.Nat.Notation
import Mathlib.Tactic.Ring

/-!
# The calendar and its texts

Instants are milliseconds since the beginning of 1970, in universal time. A moment is an
instant in the fields of the Gregorian calendar (`Moment.of`); every instant is that of its
moment, and every moment that of its instant (`Moment.instant_of`, `Moment.of_instant`). Years
and months differ in length, so both are found by walking through periods of any lengths
(`place`); how long the years up to one are is also known at once (`daysBefore_years`), which
bounds the years that occur.

A moment is written with a fixed number of digits for each field, as RFC 3339 has it
(`Moment.text`), and such a text is read back as the moment (`parse_text`).
-/

set_option autoImplicit false

namespace OAuthRelay.Wire.Calendar

/-! ## Periods -/

/-- How long the periods before the period `n` are together. -/
def daysBefore (length : ℕ → ℕ) : ℕ → ℕ
  | 0 => 0
  | n + 1 => daysBefore length n + length n

/-- The period that a day lies in, from the period `n` on, and the days of it that are over. -/
def place (length : ℕ → ℕ) : (fuel n day : ℕ) → ℕ × ℕ
  | 0, n, day => (n, day)
  | fuel + 1, n, day =>
      if day < length n then (n, day) else place length fuel (n + 1) (day - length n)

theorem daysBefore_mono (length : ℕ → ℕ) {m n : ℕ} (le : m ≤ n) :
    daysBefore length m ≤ daysBefore length n := by
  induction le with
  | refl => exact Nat.le_refl _
  | step _ ih => exact Nat.le_trans ih (Nat.le_add_right _ _)

/-- **Every day lies in a period.** -/
theorem place_spec {length : ℕ → ℕ} (positive : ∀ n, 0 < length n) {fuel n day : ℕ}
    (enough : day ≤ fuel) :
    daysBefore length (place length fuel n day).1 + (place length fuel n day).2 =
        daysBefore length n + day ∧
      (place length fuel n day).2 < length (place length fuel n day).1 := by
  induction fuel generalizing n day with
  | zero =>
      have zero : day = 0 := Nat.le_zero.mp enough
      subst zero
      exact ⟨rfl, positive n⟩
  | succ fuel ih =>
      simp only [place]
      split
      · rename_i inside
        exact ⟨rfl, inside⟩
      · rename_i outside
        have shorter : day - length n ≤ fuel := by
          have := positive n
          omega
        obtain ⟨sum, inside⟩ := ih (n := n + 1) shorter
        refine ⟨?_, inside⟩
        rw [sum, daysBefore]
        omega

/-- **A day lies in one period only.** -/
theorem place_unique {length : ℕ → ℕ} {n n' day day' : ℕ} (inside : day < length n)
    (inside' : day' < length n')
    (same : daysBefore length n + day = daysBefore length n' + day') : n = n' ∧ day = day' := by
  have order {m m' d : ℕ} (before : d < length m) (less : m < m') :
      daysBefore length m + d < daysBefore length m' := by
    have whole := daysBefore_mono length (Nat.succ_le_of_lt less)
    rw [daysBefore] at whole
    omega
  rcases Nat.lt_trichotomy n n' with less | rfl | more
  · have := order inside less
    omega
  · exact ⟨rfl, by omega⟩
  · have := order inside' more
    omega

/-! ## Years and months -/

def isLeap (year : ℕ) : Bool :=
  decide (year % 4 = 0) && (decide (year % 100 ≠ 0) || decide (year % 400 = 0))

/-- The days of the year that comes `n` years after 1970. -/
def yearDays (n : ℕ) : ℕ := if isLeap (1970 + n) then 366 else 365

/-- The days of the month that comes `n` months after January. -/
def monthDays (year n : ℕ) : ℕ :=
  if n = 1 then if isLeap year then 29 else 28
  else if n ∈ [3, 5, 8, 10] then 30 else 31

theorem yearDays_pos (n : ℕ) : 0 < yearDays n := by
  unfold yearDays
  split <;> decide

theorem monthDays_pos (year n : ℕ) : 0 < monthDays year n := by
  unfold monthDays
  split
  · split <;> decide
  · split <;> decide

theorem monthDays_le (year n : ℕ) : monthDays year n ≤ 31 := by
  unfold monthDays
  split
  · split <;> decide
  · split <;> decide

/-- A year has twelve months. -/
theorem daysBefore_months (n : ℕ) : daysBefore (monthDays (1970 + n)) 12 = yearDays n := by
  simp only [daysBefore, monthDays, yearDays]
  cases isLeap (1970 + n) <;> rfl

/-- **The days of the years, counted at once:** every fourth year is a leap year, except for
those that end a century that cannot be divided by four. -/
theorem daysBefore_years (n : ℕ) :
    daysBefore yearDays n + 477 + (1969 + n) / 100 =
      365 * n + (1969 + n) / 4 + (1969 + n) / 400 := by
  induction n with
  | zero => rfl
  | succ n ih =>
      have leap : isLeap (1970 + n) = true ↔
          (1970 + n) % 4 = 0 ∧ ((1970 + n) % 100 ≠ 0 ∨ (1970 + n) % 400 = 0) := by
        simp [isLeap]
      rw [daysBefore, yearDays]
      split
      · rename_i is
        have := leap.mp is
        omega
      · rename_i is
        have common := mt leap.mpr is
        by_cases fourth : (1970 + n) % 4 = 0
        · have century : (1970 + n) % 100 = 0 := by
            by_contra other
            exact common ⟨fourth, .inl other⟩
          have odd : (1970 + n) % 400 ≠ 0 := fun even => common ⟨fourth, .inr even⟩
          clear common leap is
          omega
        · clear common leap is
          omega

/-! ## Moments -/

/-- An instant in the fields of the calendar. -/
@[ext]
structure Moment where
  year : ℕ
  month : ℕ
  day : ℕ
  hour : ℕ
  minute : ℕ
  second : ℕ
  millisecond : ℕ
  deriving DecidableEq

namespace Moment

/-- The fields are those of a moment of 1970 or later. -/
structure Valid (m : Moment) : Prop where
  year : 1970 ≤ m.year
  month : 1 ≤ m.month ∧ m.month ≤ 12
  day : 1 ≤ m.day ∧ m.day ≤ monthDays m.year (m.month - 1)
  hour : m.hour < 24
  minute : m.minute < 60
  second : m.second < 60
  millisecond : m.millisecond < 1000

instance (m : Moment) : Decidable m.Valid :=
  decidable_of_iff
    (1970 ≤ m.year ∧ (1 ≤ m.month ∧ m.month ≤ 12) ∧
      (1 ≤ m.day ∧ m.day ≤ monthDays m.year (m.month - 1)) ∧ m.hour < 24 ∧ m.minute < 60 ∧
      m.second < 60 ∧ m.millisecond < 1000)
    ⟨fun h => ⟨h.1, h.2.1, h.2.2.1, h.2.2.2.1, h.2.2.2.2.1, h.2.2.2.2.2.1, h.2.2.2.2.2.2⟩,
      fun h => ⟨h.year, h.month, h.day, h.hour, h.minute, h.second, h.millisecond⟩⟩

/-- The days before the day of a moment. -/
def days (m : Moment) : ℕ :=
  daysBefore yearDays (m.year - 1970) + daysBefore (monthDays m.year) (m.month - 1) + (m.day - 1)

/-- The milliseconds before a moment. -/
def instant (m : Moment) : ℕ :=
  (((m.days * 24 + m.hour) * 60 + m.minute) * 60 + m.second) * 1000 + m.millisecond

/-- The moment of an instant. -/
def of (instant : ℕ) : Moment :=
  let day := instant / 86400000
  let (year, day) := place yearDays day 0 day
  let (month, day) := place (monthDays (1970 + year)) day 0 day
  ⟨1970 + year, month + 1, day + 1, instant / 3600000 % 24, instant / 60000 % 60,
    instant / 1000 % 60, instant % 1000⟩

/-- The fields of a day put together again. -/
theorem instant_split {instant day : ℕ} (days : day = instant / 86400000) :
    (((day * 24 + instant / 3600000 % 24) * 60 + instant / 60000 % 60) * 60 +
      instant / 1000 % 60) * 1000 + instant % 1000 = instant := by
  omega

/-- **Every instant is that of its moment.** -/
theorem of_spec (instant : ℕ) : (of instant).Valid ∧ (of instant).instant = instant := by
  obtain ⟨years, inYear⟩ := place_spec yearDays_pos (n := 0) (Nat.le_refl (instant / 86400000))
  simp only [of, Moment.instant, Moment.days]
  generalize place yearDays (instant / 86400000) 0 (instant / 86400000) = found at *
  obtain ⟨year, rest⟩ := found
  obtain ⟨months, inMonth⟩ := place_spec (monthDays_pos (1970 + year)) (n := 0) (Nat.le_refl rest)
  dsimp only at *
  generalize place (monthDays (1970 + year)) rest 0 rest = found at *
  obtain ⟨month, day⟩ := found
  dsimp only [daysBefore] at *
  have twelve : month < 12 := by
    by_contra late
    have long := daysBefore_mono (monthDays (1970 + year)) (Nat.not_lt.mp late)
    rw [daysBefore_months] at long
    omega
  have month_eq : month + 1 - 1 = month := rfl
  have year_eq : 1970 + year - 1970 = year := by omega
  constructor
  · exact
      { year := Nat.le_add_right _ _
        month := ⟨Nat.le_add_left _ _, twelve⟩
        day := ⟨Nat.le_add_left _ _, inMonth⟩
        hour := Nat.mod_lt _ (by decide)
        minute := Nat.mod_lt _ (by decide)
        second := Nat.mod_lt _ (by decide)
        millisecond := Nat.mod_lt _ (by decide) }
  · rw [month_eq, year_eq]
    exact instant_split (by omega)

/-- The days of the year before a moment, and the months before it, are in the year. -/
theorem Valid.days_lt {m : Moment} (valid : m.Valid) :
    daysBefore (monthDays m.year) (m.month - 1) + (m.day - 1) < yearDays (m.year - 1970) := by
  have whole := daysBefore_mono (monthDays m.year) (show m.month - 1 + 1 ≤ 12 by
    have := valid.month
    omega)
  have twelve := daysBefore_months (m.year - 1970)
  rw [show 1970 + (m.year - 1970) = m.year by have := valid.year; omega] at twelve
  rw [twelve, daysBefore] at whole
  have := valid.day
  omega

/-- The fields of the day, and the days, out of the instant. -/
theorem Valid.fields {m : Moment} (valid : m.Valid) :
    m.instant / 86400000 = m.days ∧ m.instant / 3600000 % 24 = m.hour ∧
      m.instant / 60000 % 60 = m.minute ∧ m.instant / 1000 % 60 = m.second ∧
      m.instant % 1000 = m.millisecond := by
  obtain ⟨_, _, _, hour, minute, second, millisecond⟩ := valid
  unfold instant
  refine ⟨?_, ?_, ?_, ?_, ?_⟩ <;> omega

/-- **Different moments have different instants.** -/
theorem eq_of_instant {m m' : Moment} (valid : m.Valid) (valid' : m'.Valid)
    (same : m.instant = m'.instant) : m = m' := by
  obtain ⟨days, hour, minute, second, millisecond⟩ := valid.fields
  obtain ⟨days', hour', minute', second', millisecond'⟩ := valid'.fields
  rw [same] at days hour minute second millisecond
  have days : m.days = m'.days := days.symm.trans days'
  simp only [Moment.days, Nat.add_assoc] at days
  obtain ⟨years, rest⟩ := place_unique valid.days_lt valid'.days_lt days
  have year : m.year = m'.year := by
    have := valid.year
    have := valid'.year
    omega
  rw [year] at rest
  have inMonth : m.day - 1 < monthDays m'.year (m.month - 1) := by
    have := valid.day
    rw [← year]
    omega
  have inMonth' : m'.day - 1 < monthDays m'.year (m'.month - 1) := by
    have := valid'.day
    omega
  obtain ⟨months, days⟩ := place_unique inMonth inMonth' rest
  have := valid.month
  have := valid'.month
  have := valid.day
  have := valid'.day
  have month : m.month = m'.month := by omega
  have day : m.day = m'.day := by omega
  exact Moment.ext year month day (hour.symm.trans hour') (minute.symm.trans minute')
    (second.symm.trans second') (millisecond.symm.trans millisecond')

theorem of_valid (instant : ℕ) : (of instant).Valid := (of_spec instant).1

theorem instant_of (instant : ℕ) : (of instant).instant = instant := (of_spec instant).2

/-- **Every moment is that of its instant.** -/
theorem of_instant {m : Moment} (valid : m.Valid) : of m.instant = m :=
  eq_of_instant (of_valid _) valid (instant_of _)

/-- A moment before the end of the year 9999 is of a year with four digits. -/
theorem year_le_of_early {m : Moment} (early : m.instant < 253402300800000) :
    m.year ≤ 9999 := by
  by_contra late
  have long := daysBefore_mono yearDays (show 8030 ≤ m.year - 1970 by omega)
  have whole := daysBefore_years 8030
  have start : daysBefore yearDays 8030 ≤ m.days := by
    unfold days
    omega
  unfold instant at early
  omega

end Moment

/-! ## Digits -/

/-- The last digits of a number, as many as there is room for. -/
def digits : (width n : ℕ) → List Char
  | 0, _ => []
  | width + 1, n => Nat.digitChar (n / 10 ^ width % 10) :: digits width n

/-- Reads a number with so many digits, after those read before. -/
def takeNumber : (width value : ℕ) → List Char → Option (ℕ × List Char)
  | 0, value, text => some (value, text)
  | _ + 1, _, [] => none
  | width + 1, value, c :: rest =>
      if c.isDigit then takeNumber width (10 * value + (c.toNat - '0'.toNat)) rest else none

theorem digitChar_read {d : ℕ} (small : d < 10) :
    (Nat.digitChar d).isDigit = true ∧ (Nat.digitChar d).toNat - '0'.toNat = d := by
  have all : ∀ d < 10, (Nat.digitChar d).isDigit = true ∧
      (Nat.digitChar d).toNat - '0'.toNat = d := by
    decide
  exact all d small

/-- **Digits are read as the number that they were written for.** -/
theorem takeNumber_digits (width value n : ℕ) (rest : List Char) :
    takeNumber width value (digits width n ++ rest) =
      some (value * 10 ^ width + n % 10 ^ width, rest) := by
  induction width generalizing value with
  | zero => simp [takeNumber, digits, Nat.mod_one]
  | succ width ih =>
      obtain ⟨isDigit, read⟩ := digitChar_read (Nat.mod_lt (n / 10 ^ width) (by decide : 10 > 0))
      rw [digits, List.cons_append, takeNumber, if_pos isDigit, read, ih]
      have split : n % 10 ^ (width + 1) = 10 ^ width * (n / 10 ^ width % 10) + n % 10 ^ width := by
        rw [Nat.pow_succ, Nat.mod_mul, Nat.add_comm]
      rw [split]
      congr 2
      ring

/-! ## Texts -/

/-- Reads a number with so many digits and the character behind it. -/
def takeField (width : ℕ) (closing : Char) (text : List Char) : Option (ℕ × List Char) :=
  match takeNumber width 0 text with
  | some (n, c :: rest) => if c = closing then some (n, rest) else none
  | _ => none

theorem takeField_digits {width n : ℕ} (small : n < 10 ^ width) (closing : Char)
    (rest : List Char) :
    takeField width closing (digits width n ++ closing :: rest) = some (n, rest) := by
  rw [takeField, takeNumber_digits, Nat.zero_mul, Nat.zero_add, Nat.mod_eq_of_lt small]
  exact if_pos rfl

namespace Moment

/-- The characters of a moment. -/
def chars (m : Moment) : List Char :=
  digits 4 m.year ++ '-' :: (digits 2 m.month ++ '-' :: (digits 2 m.day ++ 'T' ::
    (digits 2 m.hour ++ ':' :: (digits 2 m.minute ++ ':' :: (digits 2 m.second ++ '.' ::
      (digits 3 m.millisecond ++ ['Z']))))))

/-- `%Y-%m-%dT%H:%M:%S%.3fZ`. -/
def text (m : Moment) : String := String.ofList m.chars

end Moment

/-- Reads a moment that is written so. -/
def parse (text : String) : Option Moment := do
  let (year, rest) ← takeField 4 '-' text.toList
  let (month, rest) ← takeField 2 '-' rest
  let (day, rest) ← takeField 2 'T' rest
  let (hour, rest) ← takeField 2 ':' rest
  let (minute, rest) ← takeField 2 ':' rest
  let (second, rest) ← takeField 2 '.' rest
  let (millisecond, rest) ← takeField 3 'Z' rest
  let m : Moment := ⟨year, month, day, hour, minute, second, millisecond⟩
  if rest = [] ∧ m.Valid then some m else none

/-- **A moment is read as it is written.** -/
theorem parse_text {m : Moment} (valid : m.Valid) (small : m.year ≤ 9999) :
    parse m.text = some m := by
  have month : m.month < 10 ^ 2 := Nat.lt_of_le_of_lt valid.month.2 (by decide)
  have day : m.day < 10 ^ 2 :=
    Nat.lt_of_le_of_lt (Nat.le_trans valid.day.2 (monthDays_le _ _)) (by decide)
  have hour : m.hour < 10 ^ 2 := Nat.lt_trans valid.hour (by decide)
  have minute : m.minute < 10 ^ 2 := Nat.lt_trans valid.minute (by decide)
  have second : m.second < 10 ^ 2 := Nat.lt_trans valid.second (by decide)
  have millisecond : m.millisecond < 10 ^ 3 := valid.millisecond
  have year : m.year < 10 ^ 4 := Nat.lt_of_le_of_lt small (by decide)
  rw [parse, Moment.text, String.toList_ofList, Moment.chars]
  simp only [Option.bind_eq_bind, takeField_digits year, takeField_digits month,
    takeField_digits day, takeField_digits hour, takeField_digits minute,
    takeField_digits second, takeField_digits millisecond, Option.bind_some]
  exact if_pos ⟨trivial, valid⟩

example : (Moment.of 1709210096789).text = "2024-02-29T12:34:56.789Z" := by decide +kernel

end OAuthRelay.Wire.Calendar
