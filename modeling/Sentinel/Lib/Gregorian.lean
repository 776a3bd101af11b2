import Mathlib

/-!
# The Gregorian calendar, years 1 to 9999

Civil moments as year, month, day, hour and minute with the remaining ticks of the minute, and
the count of ticks since the start of year 1.

* `dayNumber_lt` — the day number is strictly monotone in (year, month, day).
* `Moment.ticks_lt_of_slot_lt` / `Moment.lt_iff_slot_lt` — comparing ticks is comparing the
  fields lexicographically; for a moment on a full minute the rest of the minute does not matter.
* `Moment.instLinearOrder` — moments are linearly ordered by their ticks.
-/

set_option autoImplicit false

namespace Gregorian

def IsLeapYear (year : ℤ) : Prop := year % 4 = 0 ∧ (year % 100 ≠ 0 ∨ year % 400 = 0)

instance : DecidablePred IsLeapYear := fun _ => inferInstanceAs (Decidable (_ ∧ _))

def daysInMonth (year month : ℤ) : ℤ :=
  if month = 2 then (if IsLeapYear year then 29 else 28)
  else if month = 4 ∨ month = 6 ∨ month = 9 ∨ month = 11 then 30
  else 31

/-- Days from the start of year 1 to the start of `year`. -/
def daysBeforeYear (year : ℤ) : ℤ :=
  (year - 1) * 365 + (year - 1) / 4 - (year - 1) / 100 + (year - 1) / 400

/-- Days from the start of the year to the start of `month`. -/
def daysBeforeMonth (year month : ℤ) : ℤ :=
  let leap : ℤ := if IsLeapYear year then 1 else 0
  if month ≤ 1 then 0 else if month = 2 then 31 else if month = 3 then 59 + leap
  else if month = 4 then 90 + leap else if month = 5 then 120 + leap
  else if month = 6 then 151 + leap else if month = 7 then 181 + leap
  else if month = 8 then 212 + leap else if month = 9 then 243 + leap
  else if month = 10 then 273 + leap else if month = 11 then 304 + leap
  else if month = 12 then 334 + leap else 365 + leap

/-- Days from 1 January of year 1 to the given date. -/
def dayNumber (year month day : ℤ) : ℤ :=
  daysBeforeYear year + daysBeforeMonth year month + (day - 1)

/-- The date exists in the calendar. -/
structure ValidDate (year month day : ℤ) : Prop where
  year_pos : 1 ≤ year
  year_le : year ≤ 9999
  month_pos : 1 ≤ month
  month_le : month ≤ 12
  day_pos : 1 ≤ day
  day_le : day ≤ daysInMonth year month

instance (year month day : ℤ) : Decidable (ValidDate year month day) :=
  decidable_of_iff (1 ≤ year ∧ year ≤ 9999 ∧ 1 ≤ month ∧ month ≤ 12 ∧ 1 ≤ day ∧
      day ≤ daysInMonth year month)
    ⟨fun ⟨a, b, c, d, e, f⟩ => ⟨a, b, c, d, e, f⟩, fun ⟨a, b, c, d, e, f⟩ => ⟨a, b, c, d, e, f⟩⟩

/-! ## Day numbers -/

theorem daysInMonth_ge (year month : ℤ) : 28 ≤ daysInMonth year month := by
  unfold daysInMonth
  split_ifs <;> omega

theorem daysInMonth_le (year month : ℤ) : daysInMonth year month ≤ 31 := by
  unfold daysInMonth
  split_ifs <;> omega

theorem daysBeforeYear_succ (year : ℤ) :
    daysBeforeYear (year + 1) = daysBeforeYear year + (if IsLeapYear year then 366 else 365) := by
  unfold daysBeforeYear IsLeapYear
  split_ifs <;> omega

theorem daysBeforeYear_mono (year : ℤ) (n : ℕ) :
    daysBeforeYear year ≤ daysBeforeYear (year + n) := by
  induction n with
  | zero => simp
  | succ n ih =>
    have h := daysBeforeYear_succ (year + n)
    rw [show year + ((n + 1 : ℕ) : ℤ) = year + n + 1 by push_cast; ring, h]
    split_ifs <;> omega

theorem daysBeforeMonth_succ (year : ℤ) {month : ℤ} (h1 : 1 ≤ month) (h12 : month ≤ 12) :
    daysBeforeMonth year (month + 1) = daysBeforeMonth year month + daysInMonth year month := by
  unfold daysBeforeMonth daysInMonth
  interval_cases month <;> simp <;> split_ifs <;> rfl

theorem daysBeforeMonth_mono (year : ℤ) {month month' : ℤ} (h1 : 1 ≤ month) (hle : month ≤ month')
    (h13 : month' ≤ 13) : daysBeforeMonth year month ≤ daysBeforeMonth year month' := by
  obtain ⟨n, rfl⟩ := Int.le.dest hle
  induction n with
  | zero => simp
  | succ n ih =>
    have h := daysBeforeMonth_succ year (show 1 ≤ month + n by omega) (by omega)
    have hd := daysInMonth_ge year (month + n)
    have := ih (by omega) (by omega)
    rw [show month + ((n + 1 : ℕ) : ℤ) = month + n + 1 by push_cast; ring]
    omega

theorem daysBeforeMonth_thirteen (year : ℤ) :
    daysBeforeYear year + daysBeforeMonth year 13 = daysBeforeYear (year + 1) := by
  rw [daysBeforeYear_succ]
  unfold daysBeforeMonth
  simp only [Int.reduceLE, Int.reduceEq, ite_false]
  split_ifs <;> omega

/-- The day number is strictly monotone in the date. -/
theorem dayNumber_lt {y m d y' m' d' : ℤ} (h : ValidDate y m d) (h' : ValidDate y' m' d')
    (hlt : y < y' ∨ y = y' ∧ (m < m' ∨ m = m' ∧ d < d')) :
    dayNumber y m d < dayNumber y' m' d' := by
  obtain ⟨-, -, hm1, hm12, hd1, hd⟩ := h
  obtain ⟨-, -, hm1', hm12', hd1', -⟩ := h'
  have hsucc := daysBeforeMonth_succ y hm1 hm12
  unfold dayNumber
  rcases hlt with hy | ⟨rfl, hm | ⟨rfl, hd'⟩⟩
  · -- a later year starts after the last day of the earlier one
    have hend := daysBeforeMonth_mono y (show 1 ≤ m + 1 by omega)
      (show m + 1 ≤ 13 by omega) le_rfl
    have hyear := daysBeforeMonth_thirteen y
    have hfrom := daysBeforeMonth_mono y' le_rfl hm1' (show m' ≤ 13 by omega)
    have hzero : daysBeforeMonth y' 1 = 0 := by simp [daysBeforeMonth]
    obtain ⟨n, rfl⟩ := Int.le.dest (show y + 1 ≤ y' from hy)
    have hmono := daysBeforeYear_mono (y + 1) n
    omega
  · have := daysBeforeMonth_mono y (show 1 ≤ m + 1 by omega) (show m + 1 ≤ m' from hm)
      (show m' ≤ 13 by omega)
    omega
  · omega

/-! ## Moments -/

/-- Ticks are units of 100 ns. -/
def ticksPerMinute : ℤ := 600000000

/-- A civil moment: date, hour, minute, and the ticks passed since the full minute. -/
@[ext]
structure Moment where
  year : ℤ
  month : ℤ
  day : ℤ
  hour : ℤ
  minute : ℤ
  fraction : ℤ
  date_valid : ValidDate year month day
  hour_valid : 0 ≤ hour ∧ hour ≤ 23
  minute_valid : 0 ≤ minute ∧ minute ≤ 59
  fraction_valid : 0 ≤ fraction ∧ fraction < ticksPerMinute

/-- The fields down to the minute, ordered lexicographically. -/
abbrev Slot := ℤ ×ₗ ℤ ×ₗ ℤ ×ₗ ℤ ×ₗ ℤ

def slot (year month day hour minute : ℤ) : Slot :=
  toLex (year, toLex (month, toLex (day, toLex (hour, minute))))

theorem slot_lt_slot {y m d h n y' m' d' h' n' : ℤ} :
    slot y m d h n < slot y' m' d' h' n' ↔
      y < y' ∨ y = y' ∧ (m < m' ∨ m = m' ∧ (d < d' ∨ d = d' ∧ (h < h' ∨ h = h' ∧ n < n'))) := by
  simp only [slot, Prod.Lex.toLex_lt_toLex]

theorem slot_le_slot {y m d h n y' m' d' h' n' : ℤ} :
    slot y m d h n ≤ slot y' m' d' h' n' ↔
      y < y' ∨ y = y' ∧ (m < m' ∨ m = m' ∧ (d < d' ∨ d = d' ∧ (h < h' ∨ h = h' ∧ n ≤ n'))) := by
  simp only [slot, Prod.Lex.toLex_le_toLex]

namespace Moment

def dayNumber (t : Moment) : ℤ := Gregorian.dayNumber t.year t.month t.day

/-- Sunday is 0; 1 January of year 1 was a Monday. -/
def dayOfWeek (t : Moment) : ℤ := (t.dayNumber + 1) % 7

/-- Ticks since the start of year 1. -/
def ticks (t : Moment) : ℤ :=
  ((t.dayNumber * 24 + t.hour) * 60 + t.minute) * ticksPerMinute + t.fraction

def slot (t : Moment) : Slot := Gregorian.slot t.year t.month t.day t.hour t.minute

theorem dayOfWeek_bounds (t : Moment) : 0 ≤ t.dayOfWeek ∧ t.dayOfWeek ≤ 6 := by
  unfold dayOfWeek
  omega

/-- The weekday depends on the date only. -/
theorem dayOfWeek_congr {t u : Moment} (hy : t.year = u.year) (hm : t.month = u.month)
    (hd : t.day = u.day) : t.dayOfWeek = u.dayOfWeek := by
  simp only [dayOfWeek, dayNumber, hy, hm, hd]

theorem ticks_lt_of_slot_lt {t u : Moment} (h : t.slot < u.slot) : t.ticks < u.ticks := by
  have ht := t.hour_valid
  have hu := u.hour_valid
  have ht' := t.minute_valid
  have hu' := u.minute_valid
  have hf := t.fraction_valid
  have hf' := u.fraction_valid
  unfold slot at h
  rw [slot_lt_slot] at h
  unfold ticks ticksPerMinute at *
  by_cases hdate : t.year = u.year ∧ t.month = u.month ∧ t.day = u.day
  · obtain ⟨hy, hm, hd⟩ := hdate
    have : t.dayNumber = u.dayNumber := by simp only [dayNumber, hy, hm, hd]
    omega
  · have : t.dayNumber < u.dayNumber := dayNumber_lt t.date_valid u.date_valid (by omega)
    omega

theorem slot_eq_iff {t u : Moment} : t.slot = u.slot ↔ t.year = u.year ∧ t.month = u.month ∧
    t.day = u.day ∧ t.hour = u.hour ∧ t.minute = u.minute := by
  simp only [slot, Gregorian.slot, EmbeddingLike.apply_eq_iff_eq, Prod.mk.injEq]

theorem ticks_of_slot_eq {t u : Moment} (h : t.slot = u.slot) :
    t.ticks - t.fraction = u.ticks - u.fraction := by
  obtain ⟨hy, hm, hd, hh, hn⟩ := slot_eq_iff.1 h
  simp only [ticks, dayNumber, hy, hm, hd, hh, hn]
  ring

theorem ticks_injective : Function.Injective ticks := by
  intro t u h
  rcases lt_trichotomy t.slot u.slot with hlt | heq | hgt
  · exact absurd h (ticks_lt_of_slot_lt hlt).ne
  · have hf : t.fraction = u.fraction := by have := ticks_of_slot_eq heq; omega
    obtain ⟨hy, hm, hd, hh, hn⟩ := slot_eq_iff.1 heq
    exact Moment.ext hy hm hd hh hn hf
  · exact absurd h (ticks_lt_of_slot_lt hgt).ne'

/-- Moments are compared by their ticks. -/
instance instLinearOrder : LinearOrder Moment := LinearOrder.lift' ticks ticks_injective

theorem lt_def {t u : Moment} : t < u ↔ t.ticks < u.ticks := Iff.rfl

theorem le_def {t u : Moment} : t ≤ u ↔ t.ticks ≤ u.ticks := Iff.rfl

/-- On a full minute. -/
def MinuteAligned (t : Moment) : Prop := t.fraction = 0

instance : DecidablePred MinuteAligned := fun t => inferInstanceAs (Decidable (t.fraction = 0))

/-- A full minute is after `b` iff its slot is after the slot of `b`. -/
theorem lt_iff_slot_lt {b t : Moment} (ht : t.MinuteAligned) : b < t ↔ b.slot < t.slot := by
  constructor
  · intro h
    rw [lt_def] at h
    rcases lt_trichotomy b.slot t.slot with hlt | heq | hgt
    · exact hlt
    · have := ticks_of_slot_eq heq
      have := b.fraction_valid
      unfold MinuteAligned at ht
      omega
    · have := ticks_lt_of_slot_lt hgt
      omega
  · exact fun h => ticks_lt_of_slot_lt h

theorem le_of_slot_le {t u : Moment} (ht : t.MinuteAligned) (h : t.slot ≤ u.slot) : t ≤ u := by
  rcases h.lt_or_eq with hlt | heq
  · exact (ticks_lt_of_slot_lt hlt).le
  · have := ticks_of_slot_eq heq
    have := u.fraction_valid
    unfold MinuteAligned at ht
    rw [le_def]
    omega

end Moment

end Gregorian
