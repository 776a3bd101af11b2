import Sentinel.DotNet.Base
import Sentinel.Lib.Gregorian

/-!
# `DateTime` and time zones

A `DateTime` is a civil moment with its kind; comparisons look at the moment only.  A time zone
is its offset from UTC as an arbitrary function of the UTC instant, so any sequence of clock
changes is a zone.
-/

set_option autoImplicit false

namespace Sentinel

open Gregorian

inductive DateTimeKind where
  | unspecified
  | utc
  | localTime
  deriving DecidableEq, Repr

structure DateTime where
  moment : Moment
  kind : DateTimeKind

namespace DateTime

/-- The constructor `DateTime(year, month, day, hour, minute, 0, 0, kind)`. -/
def new (year month day hour minute : ℤ) (kind : DateTimeKind) : Except Exn DateTime :=
  if h : ValidDate year month day ∧ (0 ≤ hour ∧ hour ≤ 23) ∧ (0 ≤ minute ∧ minute ≤ 59) then
    .ok ⟨⟨year, month, day, hour, minute, 0, h.1, h.2.1, h.2.2, by decide⟩, kind⟩
  else .error .argumentOutOfRangeException

/-- `DateTime.MinValue`, which is also `default(DateTime)`. -/
def minValue : DateTime :=
  ⟨⟨1, 1, 1, 0, 0, 0, by decide, by decide, by decide, by decide⟩, .unspecified⟩

/-- `DateTime.MaxValue`: the last tick of the year 9999. -/
def maxValue : DateTime :=
  ⟨⟨9999, 12, 31, 23, 59, 599999999, by decide, by decide, by decide, by decide⟩, .unspecified⟩

/-- A full minute in UTC, `DateTime.MinValue` if it does not exist. -/
def utcTime (year month day hour minute : ℤ) : DateTime :=
  (new year month day hour minute .utc).toOption.getD minValue

/-- Midnight UTC of a date. -/
def utcDate (year month day : ℤ) : DateTime := utcTime year month day 0 0

theorem new_spec {year month day hour minute : ℤ} {kind : DateTimeKind} {t : DateTime}
    (h : new year month day hour minute kind = .ok t) :
    t.kind = kind ∧ t.moment.MinuteAligned ∧ t.moment.slot = slot year month day hour minute ∧
      t.moment.year = year ∧ t.moment.month = month ∧ t.moment.day = day ∧
      t.moment.hour = hour ∧ t.moment.minute = minute := by
  unfold new at h
  split at h
  · cases h
    exact ⟨rfl, rfl, rfl, rfl, rfl, rfl, rfl, rfl⟩
  · cases h

theorem new_ok {year month day hour minute : ℤ} (kind : DateTimeKind)
    (hdate : ValidDate year month day) (hhour : 0 ≤ hour ∧ hour ≤ 23)
    (hminute : 0 ≤ minute ∧ minute ≤ 59) : ∃ t, new year month day hour minute kind = .ok t := by
  unfold new
  rw [dif_pos ⟨hdate, hhour, hminute⟩]
  exact ⟨_, rfl⟩

theorem new_error {year month day hour minute : ℤ} (kind : DateTimeKind)
    (h : ¬ ValidDate year month day) :
    new year month day hour minute kind = .error .argumentOutOfRangeException := by
  unfold new
  rw [dif_neg fun hv => h hv.1]

theorem le_maxValue (t : Moment) : t ≤ maxValue.moment := by
  have hd := t.date_valid
  have hh := t.hour_valid
  have hm := t.minute_valid
  have hf := t.fraction_valid
  have hday := hd.day_le.trans (daysInMonth_le t.year t.month)
  have hy := hd.year_le
  have hmo := hd.month_le
  rw [Moment.le_def]
  have hle : t.slot ≤ maxValue.moment.slot := by
    unfold Moment.slot
    rw [slot_le_slot]
    simp only [maxValue]
    omega
  rcases hle.lt_or_eq with hlt | heq
  · exact (Moment.ticks_lt_of_slot_lt hlt).le
  · have := Moment.ticks_of_slot_eq heq
    have : maxValue.moment.fraction = 599999999 := rfl
    unfold ticksPerMinute at hf
    omega

/-- Every full minute lies strictly before `DateTime.MaxValue`. -/
theorem lt_maxValue {t : Moment} (ht : t.MinuteAligned) : t < maxValue.moment := by
  apply lt_of_le_of_ne (le_maxValue t)
  intro heq
  unfold Moment.MinuteAligned at ht
  rw [heq] at ht
  exact absurd ht (by decide)

end DateTime

/-- The readings of `DateTime.UtcNow`, in order. -/
structure Clock where
  reading : ℕ → DateTime
  utc : ∀ n, (reading n).kind = .utc

/-- A clock that stands still. -/
def stoppedClock (now : Moment) : Clock := ⟨fun _ => ⟨now, .utc⟩, fun _ => rfl⟩

/-- `Calendar.GetDaysInMonth`. -/
def getDaysInMonth (year month : ℤ) : Except Exn ℤ :=
  if 1 ≤ year ∧ year ≤ 9999 ∧ 1 ≤ month ∧ month ≤ 12 then .ok (daysInMonth year month)
  else .error .argumentOutOfRangeException

theorem getDaysInMonth_ok {year month n : ℤ} (h : getDaysInMonth year month = .ok n) :
    (1 ≤ year ∧ year ≤ 9999 ∧ 1 ≤ month ∧ month ≤ 12) ∧ n = daysInMonth year month := by
  unfold getDaysInMonth at h
  split at h
  · rename_i hr
    cases h
    exact ⟨hr, rfl⟩
  · cases h

/-! ## Time zones -/

/-- The offset of local time from UTC in ticks, at every UTC instant. -/
structure TimeZoneInfo where
  utcOffset : ℤ → ℤ

/-- The time zone the process runs in, as `ConvertTime` consults it for a `DateTime` that is not
UTC: the offset in ticks at every local time. -/
structure MachineZone where
  offsetOfLocal : ℤ → ℤ

def maxTicks : ℤ := 3155378975999999999

/-- Ticks outside the range of `DateTime` are moved to its nearest end. -/
def clampTicks (ticks : ℤ) : ℤ := max 0 (min ticks maxTicks)

/-- The UTC instant a `DateTime` stands for. -/
def DateTime.utcTicks (machine : MachineZone) (t : DateTime) : ℤ :=
  match t.kind with
  | .utc => t.moment.ticks
  | _ => t.moment.ticks - machine.offsetOfLocal t.moment.ticks

/-- `ConvertUtcToTimeZone`. -/
def TimeZoneInfo.fromUtc (zone : TimeZoneInfo) (ticks : ℤ) : ℤ :=
  clampTicks (ticks + zone.utcOffset (clampTicks ticks))

/-- The ticks of `TimeZoneInfo.ConvertTime(t, zone)`. -/
def TimeZoneInfo.convertTime (machine : MachineZone) (zone : TimeZoneInfo) (t : DateTime) : ℤ :=
  zone.fromUtc (t.utcTicks machine)

/-! ## Clock changes -/

namespace TimeZoneInfo

variable (zone : TimeZoneInfo)

/-- How far the clock of the zone is set back from the instant `a` to the instant `b`. -/
def setBack (a b : ℤ) : ℤ := zone.utcOffset (clampTicks a) - zone.utcOffset (clampTicks b)

/-- The local time of the instant is not after the first one of the calendar. -/
def BeforeCalendar (a : ℤ) : Prop := a + zone.utcOffset (clampTicks a) ≤ 0

/-- The local time of the instant is not before the last one of the calendar. -/
def AfterCalendar (a : ℤ) : Prop := maxTicks ≤ a + zone.utcOffset (clampTicks a)

/-- From `a` to `b` the clock is set back by less than the time that passes. -/
structure GoesOn (a b : ℤ) : Prop where
  setBack : zone.setBack a b < b - a
  start : ¬ zone.AfterCalendar a
  stop : ¬ zone.BeforeCalendar b

/-- From `a` to `b` the clock is set back by more than the time that passes. -/
structure Reverses (a b : ℤ) : Prop where
  setBack : b - a < zone.setBack a b
  start : ¬ zone.BeforeCalendar a
  stop : ¬ zone.AfterCalendar b

/-- From `a` to `b` the clock is set back by just the time that passes, or shows the same end of the
calendar. -/
def Repeats (a b : ℤ) : Prop :=
  zone.setBack a b = b - a ∨ (zone.BeforeCalendar a ∧ zone.BeforeCalendar b) ∨
    (zone.AfterCalendar a ∧ zone.AfterCalendar b)

variable {zone} {a b : ℤ}

theorem fromUtc_lt_iff : zone.fromUtc a < zone.fromUtc b ↔ zone.GoesOn a b := by
  have hgoes : zone.GoesOn a b ↔ zone.setBack a b < b - a ∧ ¬ zone.AfterCalendar a ∧
      ¬ zone.BeforeCalendar b := ⟨fun h => ⟨h.1, h.2, h.3⟩, fun h => ⟨h.1, h.2.1, h.2.2⟩⟩
  rw [hgoes, fromUtc, fromUtc, setBack, AfterCalendar, BeforeCalendar]
  generalize zone.utcOffset (clampTicks a) = offset
  generalize zone.utcOffset (clampTicks b) = offset'
  unfold clampTicks maxTicks
  omega

theorem reverses_iff : zone.Reverses a b ↔ zone.GoesOn b a := by
  constructor
  · rintro ⟨hback, hstart, hstop⟩
    refine ⟨?_, hstop, hstart⟩
    unfold setBack at hback ⊢
    omega
  · rintro ⟨hback, hstart, hstop⟩
    refine ⟨?_, hstop, hstart⟩
    unfold setBack at hback ⊢
    omega

theorem fromUtc_eq_iff : zone.fromUtc a = zone.fromUtc b ↔ zone.Repeats a b := by
  rw [fromUtc, fromUtc, Repeats, setBack, AfterCalendar, AfterCalendar, BeforeCalendar,
    BeforeCalendar]
  generalize zone.utcOffset (clampTicks a) = offset
  generalize zone.utcOffset (clampTicks b) = offset'
  unfold clampTicks maxTicks
  omega

end TimeZoneInfo

end Sentinel
