import Sentinel.Cron.StoppingPoint

/-!
# `GetNextOccurrences`

The enumeration asks for the next occurrence after the last one until it gets the end time.

* `stops_of_year_le` — a schedule that admits an existing date stops the search for every end
  time up to the year 9500: the date exists again in the leap year 9504.
* `getNextOccurrences_listing` — an enumeration that ends normally lists the occurrences between
  its two times.
* `getNextOccurrences_exact` — such an enumeration does end normally, and splits at every time
  between the two.
-/

set_option autoImplicit false

namespace Sentinel.CrontabSchedule

open Gregorian Successor

/-- What an enumeration has yielded when it ends, and how it ends. -/
structure Enumeration where
  yielded : List DateTime
  ended : Except Exn Unit

def Enumeration.moments (e : Enumeration) : List Moment := e.yielded.map DateTime.moment

variable {s : CrontabSchedule} {baseTime endTime : DateTime}

/-- A result before the end time is the next occurrence. -/
theorem isLeast_of_lt_endTime {r : DateTime} (h : s.getNextOccurrence endTime baseTime = .ok r)
    (hlt : r.moment < endTime.moment) :
    IsLeast (s.occurrencesBetween baseTime endTime) r.moment := by
  have hexact := exact_of_getNextOccurrence h
  apply hexact.least
  by_contra hempty
  have heq := hexact.none (Set.not_nonempty_iff_eq_empty.1 hempty)
  rw [heq] at hlt
  exact lt_irrefl _ hlt

/-- `GetNextOccurrences(baseTime, endTime)`, enumerated to its end. -/
def getNextOccurrences (s : CrontabSchedule) (baseTime endTime : DateTime) : Enumeration :=
  match _h : s.getNextOccurrence endTime baseTime with
  | .error e => ⟨[], .error e⟩
  | .ok occurrence =>
    if _hlt : occurrence.moment < endTime.moment then
      let rest := getNextOccurrences s occurrence endTime
      ⟨occurrence :: rest.yielded, rest.ended⟩
    else ⟨[], .ok ()⟩
termination_by (maxTicks - baseTime.moment.ticks).toNat
decreasing_by
  have hlt := Moment.lt_def.1 (isLeast_of_lt_endTime _h _hlt).1.2.1
  have hle := Moment.le_def.1 (DateTime.le_maxValue occurrence.moment)
  have hmax : DateTime.maxValue.moment.ticks = maxTicks := by decide
  omega

/-! ## The search stops -/

/-- A date that exists in some year exists in every leap year. -/
theorem day_le_of_leapYear {y year month day : ℤ} (hleap : IsLeapYear y)
    (hday : day ≤ daysInMonth year month) : day ≤ daysInMonth y month := by
  unfold daysInMonth at *
  rw [if_pos hleap]
  split_ifs at * <;> omega

theorem year_le_of_lt {t u : Moment} (h : t < u) : t.year ≤ u.year := by
  by_contra hlt
  have hslot : u.slot < t.slot := by
    unfold Moment.slot
    rw [slot_lt_slot]
    omega
  exact absurd (Moment.ticks_lt_of_slot_lt hslot) (not_lt.2 (Moment.lt_def.1 h).le)

/-- The schedule admits a date that exists in some year. -/
def AdmitsDate (s : CrontabSchedule) : Prop :=
  ∃ year, ∃ month ∈ s.months.values, ∃ day ∈ s.days.values, ValidDate year month day

theorem stops_of_year_le (hdate : s.AdmitsDate) (hbase : baseTime.moment.year ≤ 9500)
    (hend : endTime.moment.year ≤ 9500) : s.Stops endTime baseTime.moment.slot := by
  obtain ⟨year, month, hmonth, day, hday, hvalid⟩ := hdate
  have hleap : day ≤ daysInMonth 9504 month := day_le_of_leapYear (by decide) hvalid.day_le
  have hvalid' : ValidDate 9504 month day := ⟨by omega, by omega, hvalid.month_pos,
    hvalid.month_le, hvalid.day_pos, hleap⟩
  obtain ⟨t, ht⟩ := DateTime.new_ok .utc hvalid' (s.hours.range s.hours.getFirst_isLeast.1)
    (s.minutes.range s.minutes.getFirst_isLeast.1)
  obtain ⟨-, ha, hslot, hy, hm, hd, hh, hn⟩ := DateTime.new_spec ht
  have hgrid : t.moment.slot ∈ s.grid := by
    rw [hslot, slot_mem_grid]
    exact ⟨hmonth, hday, s.hours.getFirst_isLeast.1, s.minutes.getFirst_isLeast.1⟩
  have hlater : ∀ {b : Moment}, b.year ≤ 9500 → b.slot < t.moment.slot := by
    intro b hb
    rw [hslot]
    unfold Moment.slot
    rw [slot_lt_slot]
    omega
  refine .endReached t.moment ha hgrid (hlater hbase) ?_
    (Moment.ticks_lt_of_slot_lt (hlater hend)).le
  -- the first selected hour and minute come first on their date
  intro u hu _ huy hum hud
  obtain ⟨-, -, huh, hun⟩ := s.slot_mem_grid.1 hu
  have hhour := s.hours.getFirst_isLeast.2 huh
  have hminute := s.minutes.getFirst_isLeast.2 hun
  unfold Moment.slot
  rw [slot_le_slot]
  omega

/-! ## What is enumerated -/

/-- An enumeration that ends normally lists the occurrences between its two times. -/
theorem getNextOccurrences_listing (h : (s.getNextOccurrences baseTime endTime).ended = .ok ()) :
    Listing (s.occurrencesBetween baseTime endTime)
      (s.getNextOccurrences baseTime endTime).moments := by
  fun_induction getNextOccurrences s baseTime endTime with
  | case1 => cases h
  | case2 baseTime r hr hlt rest ih =>
    have hleast := isLeast_of_lt_endTime hr hlt
    apply Listing.cons hleast
    have hrest : {t | t ∈ s.occurrencesBetween baseTime endTime ∧ r.moment < t} =
        s.occurrencesBetween r endTime := by
      ext t
      constructor
      · rintro ⟨⟨ht, -, hhi⟩, hlo⟩
        exact ⟨ht, hlo, hhi⟩
      · rintro ⟨ht, hlo, hhi⟩
        exact ⟨⟨ht, hleast.1.2.1.trans hlo, hhi⟩, hlo⟩
    rw [hrest]
    exact ih h
  | case3 baseTime r hr hge =>
    apply Listing.nil
    by_contra hne
    exact hge ((exact_of_getNextOccurrence hr).least (Set.nonempty_iff_ne_empty.2 hne)).1.2.2

/-- Everything yielded has the kind of the base time. -/
theorem kind_of_getNextOccurrences :
    ∀ t ∈ (s.getNextOccurrences baseTime endTime).yielded, t.kind = baseTime.kind := by
  fun_induction getNextOccurrences s baseTime endTime with
  | case1 => simp
  | case2 baseTime r hr hlt rest ih =>
    have hkind : r.kind = baseTime.kind := by
      rcases kind_of_getNextOccurrence hr with rfl | hkind
      · exact absurd hlt (lt_irrefl _)
      · exact hkind
    intro t ht
    rcases List.mem_cons.1 ht with rfl | ht
    · exact hkind
    · exact (ih t ht).trans hkind
  | case3 => simp

theorem ended_of_year_le (hdate : s.AdmitsDate) (hbase : baseTime.moment.year ≤ 9500)
    (hend : endTime.moment.year ≤ 9500) :
    (s.getNextOccurrences baseTime endTime).ended = .ok () := by
  fun_induction getNextOccurrences s baseTime endTime with
  | case1 baseTime e he =>
    obtain ⟨r, hr⟩ := ok_iff_stops.2 (stops_of_year_le hdate hbase hend)
    rw [hr] at he
    cases he
  | case2 baseTime r hr hlt rest ih => exact ih ((year_le_of_lt hlt).trans hend)
  | case3 => rfl

/-- **The enumeration is total and exact**: it ends normally and yields, in strictly increasing
order, exactly the occurrences strictly between the two times; at a time between them it splits
into the enumerations before and after. -/
theorem getNextOccurrences_exact (s : CrontabSchedule) (baseTime endTime : DateTime)
    (hdate : s.AdmitsDate) (hbase : baseTime.moment.year ≤ 9500)
    (hend : endTime.moment.year ≤ 9500) :
    ((s.getNextOccurrences baseTime endTime).ended = .ok () ∧
      (s.getNextOccurrences baseTime endTime).moments.Pairwise (· < ·) ∧
      (∀ t, t ∈ (s.getNextOccurrences baseTime endTime).moments ↔
        s.Occurs t ∧ baseTime.moment < t ∧ t < endTime.moment) ∧
      ∀ t ∈ (s.getNextOccurrences baseTime endTime).yielded, t.kind = baseTime.kind) ∧
    ∀ mid : DateTime, baseTime.moment < mid.moment → mid.moment < endTime.moment →
      (s.Occurs mid.moment → (s.getNextOccurrences baseTime endTime).moments =
        (s.getNextOccurrences baseTime mid).moments ++
          mid.moment :: (s.getNextOccurrences mid endTime).moments) ∧
      (¬ s.Occurs mid.moment → (s.getNextOccurrences baseTime endTime).moments =
        (s.getNextOccurrences baseTime mid).moments ++
          (s.getNextOccurrences mid endTime).moments) := by
  have hended := ended_of_year_le hdate hbase hend
  have hlist := getNextOccurrences_listing hended
  refine ⟨⟨hended, hlist.increasing, hlist.mem_iff, kind_of_getNextOccurrences⟩, ?_⟩
  intro mid hlo hhi
  have hmid : mid.moment.year ≤ 9500 := (year_le_of_lt hhi).trans hend
  have hbelow := getNextOccurrences_listing (ended_of_year_le hdate hbase hmid)
  have habove := getNextOccurrences_listing (ended_of_year_le hdate hmid hend)
  have hbelow' : Listing {t | t ∈ s.occurrencesBetween baseTime endTime ∧ t < mid.moment}
      (s.getNextOccurrences baseTime mid).moments := by
    convert hbelow using 1
    ext t
    constructor
    · rintro ⟨⟨ht, htlo, -⟩, hthi⟩
      exact ⟨ht, htlo, hthi⟩
    · rintro ⟨ht, htlo, hthi⟩
      exact ⟨⟨ht, htlo, hthi.trans hhi⟩, hthi⟩
  have habove' : Listing {t | t ∈ s.occurrencesBetween baseTime endTime ∧ mid.moment < t}
      (s.getNextOccurrences mid endTime).moments := by
    convert habove using 1
    ext t
    constructor
    · rintro ⟨⟨ht, -, hthi⟩, htlo⟩
      exact ⟨ht, htlo, hthi⟩
    · rintro ⟨ht, htlo, hthi⟩
      exact ⟨⟨ht, hlo.trans htlo, hthi⟩, htlo⟩
  obtain ⟨hwith, hwithout⟩ := hbelow'.append habove'
  refine ⟨fun hocc => hlist.unique (hwith ⟨hocc, hlo, hhi⟩), fun hnot => ?_⟩
  exact hlist.unique (hwithout fun hmem => hnot hmem.1)

/-- Noon of 29 February between 2022 and 2030: eight years hold two occurrences, and the
enumeration splits at the first of them. -/
theorem getNextOccurrences_exact_leapDays : ∃ s,
    parse .ascii (some "0 12 29 2 *") = .ok s ∧
    (s.getNextOccurrences (.utcDate 2022 1 1) (.utcDate 2030 1 1)).ended = .ok () ∧
    (s.getNextOccurrences (.utcDate 2022 1 1) (.utcDate 2030 1 1)).moments.map Moment.slot =
      [slot 2024 2 29 12 0, slot 2028 2 29 12 0] ∧
    (s.getNextOccurrences (.utcDate 2022 1 1) (.utcDate 2030 1 1)).moments =
      (s.getNextOccurrences (.utcDate 2022 1 1) (.utcTime 2024 2 29 12 0)).moments ++
        (DateTime.utcTime 2024 2 29 12 0).moment ::
          (s.getNextOccurrences (.utcTime 2024 2 29 12 0) (.utcDate 2030 1 1)).moments := by
  have hrun : okAnd (parse .ascii (some "0 12 29 2 *")) (fun s =>
      decide ((s.getNextOccurrences (.utcDate 2022 1 1) (.utcDate 2030 1 1)).moments.map
          Moment.slot = [slot 2024 2 29 12 0, slot 2028 2 29 12 0]) &&
        okAnd (s.months.contains 2) id && okAnd (s.days.contains 29) id &&
        decide ((s.getNextOccurrences (.utcDate 2022 1 1) (.utcDate 2030 1 1)).moments.head? =
          some (DateTime.utcTime 2024 2 29 12 0).moment)) = true := by decide +kernel
  obtain ⟨s, hs, hrun⟩ := exists_of_okAnd hrun
  simp only [Bool.and_eq_true, decide_eq_true_eq] at hrun
  obtain ⟨⟨⟨hslots, hmonth⟩, hday⟩, hhead⟩ := hrun
  obtain ⟨_, hmonth, rfl⟩ := exists_of_okAnd hmonth
  obtain ⟨_, hday, rfl⟩ := exists_of_okAnd hday
  obtain ⟨⟨hended, -, hmem, -⟩, hsplit⟩ := getNextOccurrences_exact s (.utcDate 2022 1 1)
    (.utcDate 2030 1 1) ⟨2024, 2, hmonth, 29, hday, by decide⟩ (by decide) (by decide)
  obtain ⟨hocc, hlo, hhi⟩ := (hmem _).1 (List.mem_of_mem_head? hhead)
  exact ⟨s, hs, hended, hslots, (hsplit (.utcTime 2024 2 29 12 0) hlo hhi).1 hocc⟩

end Sentinel.CrontabSchedule
