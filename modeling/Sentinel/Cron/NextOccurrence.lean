import Sentinel.Cron.CrontabSchedule

/-!
# `GetNextOccurrence` is exact

`Occurs` is what the five fields say about a moment, independently of the search.  The search
follows the grid of the month, day, hour and minute fields; the invariant of its `goto` loop is
that no occurrence lies between the base time and the point the search has reached.

* `retryDayMonth_exact` — one call returns an exact result or skips a day without occurrences.
* `getNextOccurrence_exact` — a result is the least occurrence strictly between the base time and
  the end time, or the end time if there is none.
-/

set_option autoImplicit false

namespace Sentinel.CrontabSchedule

open Gregorian Successor

variable (s : CrontabSchedule)

/-- On a full minute whose minute, hour, day, month and weekday are all selected. -/
structure Occurs (t : Moment) : Prop where
  aligned : t.MinuteAligned
  minute : t.minute ∈ s.minutes.values
  hour : t.hour ∈ s.hours.values
  day : t.day ∈ s.days.values
  month : t.month ∈ s.months.values
  dayOfWeek : t.dayOfWeek ∈ s.daysOfWeek.values

def occurrences : Set Moment := {t | s.Occurs t}

/-- The occurrences strictly between two times. -/
def occurrencesBetween (baseTime endTime : DateTime) : Set Moment :=
  {t | t ∈ s.occurrences ∧ baseTime.moment < t ∧ t < endTime.moment}

variable {s} {baseTime endTime : DateTime}

theorem Occurs.slot_mem {t : Moment} (h : s.Occurs t) : t.slot ∈ s.grid :=
  s.slot_mem_grid.2 ⟨h.month, h.day, h.hour, h.minute⟩

theorem occurs_of_slot {t : Moment} (ha : t.MinuteAligned) (hg : t.slot ∈ s.grid)
    (hw : t.dayOfWeek ∈ s.daysOfWeek.values) : s.Occurs t := by
  obtain ⟨hm, hd, hh, hn⟩ := s.slot_mem_grid.1 hg
  exact ⟨ha, hn, hh, hd, hm, hw⟩

/-! ## Slots and months -/

/-- An existing date from a missing date on lies in a later month. -/
theorem month_lt_of_missing {x : Cursor} {t : Moment} (hx : x.DateMissing) (hle : x.slot ≤ t.slot) :
    x.year < t.year ∨ x.year = t.year ∧ x.month < t.month := by
  have hday := t.date_valid.day_le
  obtain ⟨-, hmiss⟩ := hx
  unfold Cursor.slot Moment.slot at hle
  rw [slot_le_slot] at hle
  by_contra hnot
  obtain ⟨hy, hm⟩ : x.year = t.year ∧ x.month = t.month := by omega
  rw [hy, hm] at hmiss
  omega

theorem endOfMonth_lt {x : Cursor} {t : Moment}
    (h : x.year < t.year ∨ x.year = t.year ∧ x.month < t.month) : x.endOfMonth < t.slot := by
  unfold Cursor.endOfMonth Moment.slot
  rw [slot_lt_slot]
  omega

/-- A moment from the cursor on but not on its date comes after 23:59 of that date. -/
theorem lt_of_other_date {x : Cursor} {b t : Moment} (hb : b.slot = slot x.year x.month x.day 23 59)
    (hle : x.slot ≤ t.slot) (ha : t.MinuteAligned)
    (hne : ¬ (x.year = t.year ∧ x.month = t.month ∧ x.day = t.day)) : b < t := by
  rw [Moment.lt_iff_slot_lt ha, hb]
  unfold Cursor.slot Moment.slot at hle
  unfold Moment.slot
  rw [slot_le_slot] at hle
  rw [slot_lt_slot]
  omega

/-- A cursor found above a point at or after the base time denotes a later moment. -/
theorem lt_of_denotes {p : Slot} {x : Cursor} {t : Moment} (hbase : baseTime.moment.slot ≤ p)
    (hnext : NextIn s.grid p (some x.slot)) (ht : x.Denotes t) : baseTime.moment < t := by
  rw [Moment.lt_iff_slot_lt ht.aligned, ht.slot_eq]
  exact hbase.trans_lt hnext.1.2

theorem le_of_denotes {x : Cursor} {t u : Moment} (ht : x.Denotes t) (hle : x.slot ≤ u.slot) :
    t ≤ u :=
  Moment.le_of_slot_le ht.aligned (ht.slot_eq ▸ hle)

/-! ## Exactness -/

variable (s baseTime endTime)

/-- What a result has to be. -/
structure Exact (r : DateTime) : Prop where
  least : (s.occurrencesBetween baseTime endTime).Nonempty →
    IsLeast (s.occurrencesBetween baseTime endTime) r.moment
  none : s.occurrencesBetween baseTime endTime = ∅ → r = endTime

variable {s baseTime endTime}

theorem exact_endTime (h : ∀ t ∈ s.occurrences, baseTime.moment < t → endTime.moment ≤ t) :
    s.Exact baseTime endTime endTime := by
  refine ⟨?_, fun _ => rfl⟩
  rintro ⟨t, ht, hlo, hhi⟩
  exact absurd hhi (not_lt.2 (h t ht hlo))

theorem exact_found {r : DateTime} (hr : r.moment ∈ s.occurrencesBetween baseTime endTime)
    (h : ∀ t ∈ s.occurrences, baseTime.moment < t → r.moment ≤ t) :
    s.Exact baseTime endTime r := by
  refine ⟨fun _ => ⟨hr, fun t ht => h t ht.1 ht.2.1⟩, fun hempty => ?_⟩
  rw [hempty] at hr
  cases hr

/-- Moving the base time over a stretch without occurrences changes nothing. -/
theorem Exact.of_later {b r : DateTime} (hb : baseTime.moment < b.moment)
    (hskip : ∀ t ∈ s.occurrences, baseTime.moment < t → b.moment < t)
    (h : s.Exact b endTime r) : s.Exact baseTime endTime r := by
  have heq : s.occurrencesBetween baseTime endTime = s.occurrencesBetween b endTime := by
    ext t
    constructor
    · rintro ⟨ht, hlo, hhi⟩
      exact ⟨ht, hskip t ht hlo, hhi⟩
    · rintro ⟨ht, hlo, hhi⟩
      exact ⟨ht, hb.trans hlo, hhi⟩
  exact ⟨by rw [heq]; exact h.least, by rw [heq]; exact h.none⟩

/-- What one call establishes, by how it leaves its loop. -/
def CallExact (s : CrontabSchedule) (baseTime endTime : DateTime) : Except Exn Outcome → Prop
  | .error _ => True
  | .ok (.returned r) => s.Exact baseTime endTime r
  | .ok (.recurse b) => ∀ t ∈ s.occurrences, baseTime.moment < t → b.moment < t

/-- One call returns an exact result or skips a day without occurrences. -/
theorem retryDayMonth_exact (endTime : DateTime) {c : Cursor}
    (hc : s.startCursor baseTime = .ok c) :
    s.CallExact baseTime endTime (s.retryDayMonth baseTime endTime c) := by
  refine s.retryDayMonth_rule baseTime endTime
    (P := fun p => ∀ t ∈ s.occurrences, baseTime.moment < t → p < t.slot) ?_ hc
    (fun t ht hlt => (Moment.lt_iff_slot_lt ht.aligned).1 hlt)
  intro p x r hp hbase hnext hex
  -- no occurrence lies between the base time and the cursor
  have hle : ∀ t ∈ s.occurrences, baseTime.moment < t → x.slot ≤ t.slot :=
    fun t ht hlt => hnext.2 ⟨ht.slot_mem, hp t ht hlt⟩
  cases hex with
  | yearTooLarge e hy => trivial
  | stopMissing hmiss hend =>
    apply exact_endTime
    intro t ht hlt
    have hmonth := month_lt_of_missing hmiss (hle t ht hlt)
    refine (Moment.ticks_lt_of_slot_lt ?_).le
    unfold Cursor.PastEnd at hend
    unfold Moment.slot
    rw [slot_lt_slot]
    omega
  | retry hmiss hend =>
    exact fun t ht hlt => endOfMonth_lt (month_lt_of_missing hmiss (hle t ht hlt))
  | stopEnd t₀ hden hend =>
    exact exact_endTime fun t ht hlt => hend.trans (le_of_denotes hden (hle t ht hlt))
  | found t₀ hkind hden hend hw =>
    refine exact_found ⟨?_, lt_of_denotes hbase hnext hden, hend⟩
      fun t ht hlt => le_of_denotes hden (hle t ht hlt)
    exact occurs_of_slot hden.aligned (hden.slot_eq ▸ hnext.1.1) hw
  | skipDay t₀ b hden hend hw hbkind hbaligned hbslot =>
    intro t ht hlt
    apply lt_of_other_date hbslot (hle t ht hlt) ht.aligned
    rintro ⟨hy, hm, hd⟩
    -- an occurrence on the same date would be on the same weekday
    apply hw
    rw [Moment.dayOfWeek_congr (hden.year_eq.trans hy) (hden.month_eq.trans hm)
      (hden.day_eq.trans hd)]
    exact ht.dayOfWeek

theorem exact_of_getNextOccurrence {r : DateTime}
    (h : s.getNextOccurrence endTime baseTime = .ok r) : s.Exact baseTime endTime r := by
  fun_induction getNextOccurrence s endTime baseTime with
  | case1 => cases h
  | case2 => cases h
  | case3 baseTime c hc t hr =>
    cases h
    have := retryDayMonth_exact endTime hc
    rwa [hr] at this
  | case4 baseTime c hc b hr ih =>
    have hskip := retryDayMonth_exact endTime hc
    rw [hr] at hskip
    exact (ih h).of_later (s.retryDayMonth_recurse baseTime endTime hc hr) hskip

/-- **A result is exact**: the least occurrence strictly between the two times, or the end time
if there is none. -/
theorem getNextOccurrence_exact (s : CrontabSchedule) (baseTime endTime : DateTime) {r : DateTime}
    (h : s.getNextOccurrence endTime baseTime = .ok r) :
    ((∃ t, s.Occurs t ∧ baseTime.moment < t ∧ t < endTime.moment) →
      (s.Occurs r.moment ∧ baseTime.moment < r.moment ∧ r.moment < endTime.moment) ∧
      ∀ t, s.Occurs t → baseTime.moment < t → t < endTime.moment → r.moment ≤ t) ∧
    ((¬ ∃ t, s.Occurs t ∧ baseTime.moment < t ∧ t < endTime.moment) → r = endTime) := by
  obtain ⟨hleast, hnone⟩ := exact_of_getNextOccurrence h
  refine ⟨fun hex => ?_, fun hnot => hnone (Set.not_nonempty_iff_eq_empty.1 hnot)⟩
  obtain ⟨hmem, hlow⟩ := hleast hex
  exact ⟨hmem, fun t ht hlo hhi => hlow ⟨ht, hlo, hhi⟩⟩

/-- From New Year 2022, the next 29 February at noon is the one of 2024. -/
theorem getNextOccurrence_exact_leapDay : ∃ s r,
    parse .ascii (some "0 12 29 2 *") = .ok s ∧
    s.getNextOccurrence .maxValue (.utcDate 2022 1 1) = .ok r ∧
    r.moment.slot = slot 2024 2 29 12 0 ∧
    ((∃ t, s.Occurs t ∧ (DateTime.utcDate 2022 1 1).moment < t ∧
        t < DateTime.maxValue.moment) →
      (s.Occurs r.moment ∧ (DateTime.utcDate 2022 1 1).moment < r.moment ∧
        r.moment < DateTime.maxValue.moment) ∧
      ∀ t, s.Occurs t → (DateTime.utcDate 2022 1 1).moment < t →
        t < DateTime.maxValue.moment → r.moment ≤ t) := by
  have hrun : okAnd (parse .ascii (some "0 12 29 2 *")) (fun s =>
      okAnd (s.getNextOccurrence .maxValue (.utcDate 2022 1 1)) fun r =>
        decide (r.moment.slot = slot 2024 2 29 12 0)) = true := by decide +kernel
  obtain ⟨s, hs, hrun⟩ := exists_of_okAnd hrun
  obtain ⟨r, hr, hslot⟩ := exists_of_okAnd hrun
  exact ⟨s, r, hs, hr, of_decide_eq_true hslot, (getNextOccurrence_exact s _ _ hr).1⟩

/-! ## The kind of a result -/

/-- Times computed by one call have the kind of its base time. -/
def CallKind (baseTime endTime : DateTime) : Except Exn Outcome → Prop
  | .error _ => True
  | .ok (.returned r) => r = endTime ∨ r.kind = baseTime.kind
  | .ok (.recurse b) => b.kind = baseTime.kind

theorem retryDayMonth_kind (endTime : DateTime) {c : Cursor} (hc : s.startCursor baseTime = .ok c) :
    CallKind baseTime endTime (s.retryDayMonth baseTime endTime c) := by
  refine s.retryDayMonth_rule baseTime endTime (P := fun _ => True) ?_ hc trivial
  intro p x r _ _ _ hex
  cases hex with
  | yearTooLarge => trivial
  | stopMissing => exact Or.inl rfl
  | retry => trivial
  | stopEnd => exact Or.inl rfl
  | found t hkind => exact Or.inr hkind
  | skipDay t b _ _ _ hbkind => exact hbkind

/-- A result other than the end time has the kind of the base time. -/
theorem kind_of_getNextOccurrence {r : DateTime}
    (h : s.getNextOccurrence endTime baseTime = .ok r) : r = endTime ∨ r.kind = baseTime.kind := by
  fun_induction getNextOccurrence s endTime baseTime with
  | case1 => cases h
  | case2 => cases h
  | case3 baseTime c hc t hr =>
    cases h
    have := retryDayMonth_kind endTime hc
    rwa [hr] at this
  | case4 baseTime c hc b hr ih =>
    have hb := retryDayMonth_kind endTime hc
    rw [hr] at hb
    have hb : b.kind = baseTime.kind := hb
    rw [← hb]
    exact ih h

end Sentinel.CrontabSchedule
