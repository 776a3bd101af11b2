import Sentinel.Cron.NextOccurrence

/-!
# When `GetNextOccurrence` returns

The search stops in three places: at an occurrence, at a day whose first selected time has
reached the end time, and at a missing date (30 February) that lies at or beyond the end time in
year, month and day each.  Without any of them it runs into the year 10000, where the calendar
throws.  `Stops` says that one of the three lies ahead of a point of the grid.

* `stops_retry`, `stops_skipDay` — neither a jump back to `RetryDayMonth` nor the recursion gains
  or loses a stopping point.
* `getNextOccurrence_ok_iff` — a call returns iff a stopping point lies ahead of the base time.
* `getNextOccurrenceFrom_ok_iff`, `getNextOccurrenceFrom_spec` — without an end time it returns
  iff an occurrence lies ahead, and returns the next one.
-/

set_option autoImplicit false

namespace Sentinel.CrontabSchedule

open Gregorian Successor

/-- A place ahead of `p` where the search for a time before `endTime` stops. -/
inductive Stops (s : CrontabSchedule) (endTime : DateTime) (p : Slot) : Prop
  | occurrence (t : Moment) : s.Occurs t → p < t.slot → Stops s endTime p
  | endReached (t : Moment) : t.MinuteAligned → t.slot ∈ s.grid → p < t.slot →
      (∀ u : Moment, u.slot ∈ s.grid → p < u.slot →
        u.year = t.year → u.month = t.month → u.day = t.day → t.slot ≤ u.slot) →
      endTime.moment ≤ t → Stops s endTime p
  | missingDate (x : Cursor) : x.DateMissing → x.slot ∈ s.grid → p < x.slot →
      (∀ z : Cursor, z.DateMissing → z.slot ∈ s.grid → p < z.slot →
        z.year = x.year → z.month = x.month → x.slot ≤ z.slot) →
      x.PastEnd endTime → Stops s endTime p

variable {s : CrontabSchedule} {baseTime endTime : DateTime}

/-! ## Dates -/

/-- Beyond the last slot of a month is a later month. -/
theorem endOfMonth_lt_slot {x : Cursor} {y m d h n : ℤ} (hd : d ≤ 31) (hh : h ≤ 23)
    (hn : n ≤ 59) : x.endOfMonth < slot y m d h n ↔ x.year < y ∨ x.year = y ∧ x.month < m := by
  unfold Cursor.endOfMonth
  rw [slot_lt_slot]
  omega

theorem endOfMonth_lt_cursor {x z : Cursor} (hz : z.slot ∈ s.grid) :
    x.endOfMonth < z.slot ↔ x.year < z.year ∨ x.year = z.year ∧ x.month < z.month := by
  obtain ⟨-, hd, hh, hn⟩ := range_of_mem_grid hz
  exact endOfMonth_lt_slot hd.2 hh.2 hn.2

/-- A missing date from an existing one on lies after the whole of the existing one. -/
theorem lt_of_missing_date {x z : Cursor} {t b : Moment} (ht : x.Denotes t)
    (hb : b.slot = slot x.year x.month x.day 23 59) (hz : z.DateMissing) (hle : x.slot ≤ z.slot) :
    b.slot < z.slot := by
  have hday := t.date_valid.day_le
  rw [ht.year_eq, ht.month_eq, ht.day_eq] at hday
  obtain ⟨-, hmiss⟩ := hz
  unfold Cursor.slot at hle ⊢
  rw [slot_le_slot] at hle
  rw [hb, slot_lt_slot]
  by_cases hsame : x.year = z.year ∧ x.month = z.month
  · rw [hsame.1, hsame.2] at hday
    omega
  · omega

/-- Beyond 23:59 of a date is another date, and so is everything else on that other date. -/
theorem lt_of_same_date {x : Cursor} {b t u : Moment}
    (hb : b.slot = slot x.year x.month x.day 23 59) (ht : b.slot < t.slot)
    (hy : u.year = t.year) (hm : u.month = t.month) (hd : u.day = t.day) : b.slot < u.slot := by
  have hh := t.hour_valid
  have hn := t.minute_valid
  unfold Moment.slot at ht ⊢
  rw [← Moment.slot, hb, slot_lt_slot] at ht
  rw [← Moment.slot, hb, slot_lt_slot]
  omega

/-! ## What the search passes by -/

variable {p : Slot} {x : Cursor}

theorem le_endOfMonth_of_next (hnext : NextIn s.grid p (some x.slot)) : p < x.endOfMonth :=
  hnext.1.2.trans_le (s.slot_le_endOfMonth hnext.1.1)

/-- A jump back to `RetryDayMonth` neither gains nor loses a stopping point. -/
theorem stops_retry (hnext : NextIn s.grid p (some x.slot)) (hmiss : x.DateMissing)
    (hend : ¬ x.PastEnd endTime) : s.Stops endTime x.endOfMonth ↔ s.Stops endTime p := by
  have hpx := le_endOfMonth_of_next hnext
  have hlater : ∀ t : Moment, t.slot ∈ s.grid → p < t.slot → x.endOfMonth < t.slot :=
    fun t hg hp => endOfMonth_lt (month_lt_of_missing hmiss (hnext.2 ⟨hg, hp⟩))
  constructor
  · rintro (⟨t, ht, hp⟩ | ⟨t, ha, hg, hp, hfirst, hle⟩ | ⟨z, hz, hg, hp, hfirst, hpast⟩)
    · exact .occurrence t ht (hpx.trans hp)
    · refine .endReached t ha hg (hpx.trans hp) (fun u hug hup hy hm hd => ?_) hle
      exact hfirst u hug (hlater u hug hup) hy hm hd
    · refine .missingDate z hz hg (hpx.trans hp) (fun w hw hwg hwp hy hm => ?_) hpast
      refine hfirst w hw hwg ?_ hy hm
      rw [endOfMonth_lt_cursor hg] at hp
      rwa [endOfMonth_lt_cursor hwg, hy, hm]
  · rintro (⟨t, ht, hp⟩ | ⟨t, ha, hg, hp, hfirst, hle⟩ | ⟨z, hz, hg, hp, hfirst, hpast⟩)
    · exact .occurrence t ht (hlater t ht.slot_mem hp)
    · refine .endReached t ha hg (hlater t hg hp) (fun u hug hup hy hm hd => ?_) hle
      exact hfirst u hug (hpx.trans hup) hy hm hd
    · have hxz : x.slot ≤ z.slot := hnext.2 ⟨hg, hp⟩
      refine .missingDate z hz hg ?_ (fun w hw hwg hwp hy hm => ?_) hpast
      · -- in the month of `x`, the first missing date is `x`, which is not past the end
        rw [endOfMonth_lt_cursor hg]
        unfold Cursor.slot at hxz
        rw [slot_le_slot] at hxz
        by_contra hsame
        have hzx := hfirst x hmiss hnext.1.1 hnext.1.2 (by omega) (by omega)
        unfold Cursor.slot at hzx
        rw [slot_le_slot] at hzx
        unfold Cursor.PastEnd at hend hpast
        omega
      · exact hfirst w hw hwg (hpx.trans hwp) hy hm

/-- The recursion over a day that is not selected neither gains nor loses a stopping point. -/
theorem stops_skipDay {t₀ b : Moment} (hnext : NextIn s.grid p (some x.slot)) (hden : x.Denotes t₀)
    (hend : t₀ < endTime.moment) (hw : t₀.dayOfWeek ∉ s.daysOfWeek.values)
    (hb : b.slot = slot x.year x.month x.day 23 59) :
    s.Stops endTime b.slot ↔ s.Stops endTime p := by
  have hxb : x.slot ≤ b.slot := by
    obtain ⟨-, -, hh, hn⟩ := range_of_mem_grid hnext.1.1
    rw [hb, Cursor.slot, slot_le_slot]
    omega
  have hpb : p < b.slot := hnext.1.2.trans_le hxb
  constructor
  · rintro (⟨t, ht, hp⟩ | ⟨t, ha, hg, hp, hfirst, hle⟩ | ⟨z, hz, hg, hp, hfirst, hpast⟩)
    · exact .occurrence t ht (hpb.trans hp)
    · refine .endReached t ha hg (hpb.trans hp) (fun u hug hup hy hm hd => ?_) hle
      exact hfirst u hug (lt_of_same_date hb hp hy hm hd) hy hm hd
    · refine .missingDate z hz hg (hpb.trans hp) (fun w hw hwg hwp hy hm => ?_) hpast
      exact hfirst w hw hwg (lt_of_missing_date hden hb hw (hnext.2 ⟨hwg, hwp⟩)) hy hm
  · rintro (⟨t, ht, hp⟩ | ⟨t, ha, hg, hp, hfirst, hle⟩ | ⟨z, hz, hg, hp, hfirst, hpast⟩)
    · refine .occurrence t ht ?_
      rw [← Moment.lt_iff_slot_lt ht.aligned]
      apply lt_of_other_date hb (hnext.2 ⟨ht.slot_mem, hp⟩) ht.aligned
      rintro ⟨hy, hm, hd⟩
      apply hw
      rw [Moment.dayOfWeek_congr (hden.year_eq.trans hy) (hden.month_eq.trans hm)
        (hden.day_eq.trans hd)]
      exact ht.dayOfWeek
    · refine .endReached t ha hg ?_ (fun u hug hup hy hm hd => ?_) hle
      · rw [← Moment.lt_iff_slot_lt ha]
        apply lt_of_other_date hb (hnext.2 ⟨hg, hp⟩) ha
        rintro ⟨hy, hm, hd⟩
        -- on the date of `t₀` the first selected time is `t₀`, which is before the end
        have hfst := hfirst t₀ (hden.slot_eq ▸ hnext.1.1) (hden.slot_eq ▸ hnext.1.2)
          (hden.year_eq.trans hy) (hden.month_eq.trans hm) (hden.day_eq.trans hd)
        exact absurd (hle.trans (Moment.le_of_slot_le ha hfst)) (not_le.2 hend)
      · exact hfirst u hug (hpb.trans hup) hy hm hd
    · refine .missingDate z hz hg (lt_of_missing_date hden hb hz (hnext.2 ⟨hg, hp⟩))
        (fun w hw hwg hwp hy hm => hfirst w hw hwg (hpb.trans hwp) hy hm) hpast

/-- Beyond the year 9999 no stopping point is left. -/
theorem not_stops_of_late (hnext : NextIn s.grid p (some x.slot)) (hy : 9999 < x.year) :
    ¬ s.Stops endTime p := by
  have hyear : ∀ {y m d h n : ℤ}, slot y m d h n ∈ s.grid → p < slot y m d h n → 9999 < y := by
    intro y m d h n hg hp
    have hle : x.slot ≤ slot y m d h n := hnext.2 ⟨hg, hp⟩
    unfold Cursor.slot at hle
    rw [slot_le_slot] at hle
    omega
  rintro (⟨t, ht, hp⟩ | ⟨t, -, hg, hp, -, -⟩ | ⟨z, hz, hg, hp, -, -⟩)
  · exact absurd t.date_valid.year_le (not_le.2 (hyear ht.slot_mem hp))
  · exact absurd t.date_valid.year_le (not_le.2 (hyear hg hp))
  · exact absurd hz.1 (not_le.2 (hyear hg hp))

/-! ## The calls -/

/-- How the way a call leaves its loop shows whether a stopping point lies ahead. -/
def CallStops (s : CrontabSchedule) (endTime : DateTime) (p : Slot) : Except Exn Outcome → Prop
  | .error _ => ¬ s.Stops endTime p
  | .ok (.returned _) => s.Stops endTime p
  | .ok (.recurse b) => s.Stops endTime b.moment.slot ↔ s.Stops endTime p

theorem retryDayMonth_stops (endTime : DateTime) {c : Cursor}
    (hc : s.startCursor baseTime = .ok c) :
    s.CallStops endTime baseTime.moment.slot (s.retryDayMonth baseTime endTime c) := by
  refine s.retryDayMonth_rule baseTime endTime
    (P := fun p => s.Stops endTime p ↔ s.Stops endTime baseTime.moment.slot) ?_ hc Iff.rfl
  intro p x r hp hbase hnext hex
  cases hex with
  | yearTooLarge e hy => exact fun hstop => not_stops_of_late hnext hy (hp.2 hstop)
  | stopMissing hmiss hend =>
    exact hp.1 (.missingDate x hmiss hnext.1.1 hnext.1.2
      (fun z _ hg hlt _ _ => hnext.2 ⟨hg, hlt⟩) hend)
  | retry hmiss hend => exact (stops_retry hnext hmiss hend).trans hp
  | stopEnd t hden hend =>
    refine hp.1 (.endReached t hden.aligned (hden.slot_eq ▸ hnext.1.1) (hden.slot_eq ▸ hnext.1.2)
      (fun u hg hlt _ _ _ => ?_) hend)
    rw [hden.slot_eq]
    exact hnext.2 ⟨hg, hlt⟩
  | found t hkind hden hend hw =>
    exact hp.1 (.occurrence t.moment (occurs_of_slot hden.aligned (hden.slot_eq ▸ hnext.1.1) hw)
      (hden.slot_eq ▸ hnext.1.2))
  | skipDay t b hden hend hw hbkind hbaligned hbslot =>
    exact (stops_skipDay hnext hden hend hw hbslot).trans hp

/-- **A call returns** iff a stopping point lies ahead of the base time. -/
theorem ok_iff_stops : (∃ r, s.getNextOccurrence endTime baseTime = .ok r) ↔
    s.Stops endTime baseTime.moment.slot := by
  fun_induction getNextOccurrence s endTime baseTime with
  | case1 baseTime e hc =>
    obtain ⟨c, hc', -⟩ := s.searchFrom_start baseTime
    cases hc.symm.trans hc'
  | case2 baseTime c hc e hr =>
    have := retryDayMonth_stops endTime hc
    rw [hr] at this
    exact iff_of_false (by rintro ⟨r, ⟨⟩⟩) this
  | case3 baseTime c hc t hr =>
    have := retryDayMonth_stops endTime hc
    rw [hr] at this
    exact iff_of_true ⟨t, rfl⟩ this
  | case4 baseTime c hc b hr ih =>
    have := retryDayMonth_stops endTime hc
    rw [hr] at this
    exact ih.trans this

/-- **A call returns, and returns the end time when there is no occurrence before it**, iff a
stopping point lies ahead of the base time. -/
theorem getNextOccurrence_ok_iff (s : CrontabSchedule) (baseTime endTime : DateTime) :
    (∃ r, s.getNextOccurrence endTime baseTime = .ok r ∧
      ((¬ ∃ t, s.Occurs t ∧ baseTime.moment < t ∧ t < endTime.moment) → r = endTime)) ↔
    s.Stops endTime baseTime.moment.slot := by
  rw [← ok_iff_stops]
  constructor
  · rintro ⟨r, hr, -⟩
    exact ⟨r, hr⟩
  · rintro ⟨r, hr⟩
    exact ⟨r, hr, fun hnot =>
      (exact_of_getNextOccurrence hr).none (Set.not_nonempty_iff_eq_empty.1 hnot)⟩

/-- A schedule whose dates never exist has no stopping point unless one of its missing dates can
lie beyond the end time in month and day. -/
theorem not_stops_of_no_date
    (hnone : ∀ m ∈ s.months.values, ∀ d ∈ s.days.values, ∀ y, daysInMonth y m < d)
    (hend : ∀ m ∈ s.months.values, ∀ d ∈ s.days.values,
      ¬ (endTime.moment.month ≤ m ∧ endTime.moment.day ≤ d)) : ¬ s.Stops endTime p := by
  have hmissing : ∀ t : Moment, t.slot ∉ s.grid := by
    intro t hg
    obtain ⟨hm, hd, -, -⟩ := s.slot_mem_grid.1 hg
    exact absurd t.date_valid.day_le (not_le.2 (hnone _ hm _ hd _))
  rintro (⟨t, ht, -⟩ | ⟨t, -, hg, -⟩ | ⟨z, -, hg, -, -, hpast⟩)
  · exact hmissing t ht.slot_mem
  · exact hmissing t hg
  · obtain ⟨hm, hd, -, -⟩ := s.slot_mem_grid.1 hg
    exact hend _ hm _ hd hpast.2

/-- A field can be checked value by value over its range. -/
theorem forall_mem_values {of : CrontabFieldImpl} (f : ParsedField of) {P : ℤ → Prop}
    (h : ∀ n < (of.maxValue + 1).toNat, okAnd (f.contains n) id = true → P n) :
    ∀ v ∈ f.values, P v := by
  intro v hv
  obtain ⟨hlo, hhi⟩ := f.range hv
  have hnonneg := of.minValue_nonneg
  have hcast : (v.toNat : ℤ) = v := by omega
  have hP := h v.toNat (by omega)
  rw [hcast, show f.contains v = .ok true from hv] at hP
  exact hP rfl

/-- The crontab of 30 February is accepted; the date never exists. -/
theorem parse_february30 : ∃ s, parse .ascii (some "0 0 30 2 *") = .ok s ∧
    (∀ m ∈ s.months.values, m = 2) ∧ ∀ d ∈ s.days.values, d = 30 := by
  have hparse : okAnd (parse .ascii (some "0 0 30 2 *")) (fun s =>
      decide ((∀ m : ℕ, m < 13 → okAnd (s.months.contains m) id = true → (m : ℤ) = 2) ∧
        ∀ d : ℕ, d < 32 → okAnd (s.days.contains d) id = true → (d : ℤ) = 30)) = true := by
    decide +kernel
  obtain ⟨s, hs, hfields⟩ := exists_of_okAnd hparse
  have hfields := of_decide_eq_true hfields
  exact ⟨s, hs, forall_mem_values _ hfields.1, forall_mem_values _ hfields.2⟩

theorem no_february30 {m d : ℤ} (hm : m = 2) (hd : d = 30) (y : ℤ) : daysInMonth y m < d := by
  rw [hm, hd]
  unfold daysInMonth
  split_ifs <;> omega

/-- 30 February never exists: asked for an occurrence in the year 2022, the call throws. -/
theorem getNextOccurrence_throws_february30 : ∃ s,
    parse .ascii (some "0 0 30 2 *") = .ok s ∧
    (¬ ∃ t, s.Occurs t ∧ (DateTime.utcDate 2022 1 1).moment < t ∧
      t < (DateTime.utcDate 2022 12 31).moment) ∧
    ¬ ∃ r, s.getNextOccurrence (.utcDate 2022 12 31)
      (.utcDate 2022 1 1) = .ok r := by
  obtain ⟨s, hs, hmonth, hday⟩ := parse_february30
  have hnone : ∀ m ∈ s.months.values, ∀ d ∈ s.days.values, ∀ y, daysInMonth y m < d :=
    fun m hm d hd => no_february30 (hmonth m hm) (hday d hd)
  refine ⟨s, hs, ?_, ?_⟩
  · rintro ⟨t, ht, -⟩
    exact absurd t.date_valid.day_le (not_le.2 (hnone _ ht.month _ ht.day _))
  · rw [ok_iff_stops]
    apply not_stops_of_no_date hnone
    intro m hm d hd hpast
    rw [hmonth m hm] at hpast
    exact absurd hpast.1 (by decide)

/-! ## Without an end time -/

/-- The occurrences after a time, first of all the next one. -/
theorem stops_maxValue : s.Stops .maxValue baseTime.moment.slot ↔
    ∃ t, s.Occurs t ∧ baseTime.moment < t := by
  constructor
  · rintro (⟨t, ht, hp⟩ | ⟨t, ha, -, -, -, hle⟩ | ⟨z, hz, hg, -, -, hpast⟩)
    · exact ⟨t, ht, (Moment.lt_iff_slot_lt ht.aligned).2 hp⟩
    · exact absurd (DateTime.lt_maxValue ha) (not_lt.2 hle)
    · -- beyond the end in every field is only the 31st of December, which exists
      obtain ⟨hm, hd, -, -⟩ := range_of_mem_grid hg
      obtain ⟨-, hmonth, -⟩ := hpast
      have h12 : DateTime.maxValue.moment.month = 12 := rfl
      have hmiss := hz.2
      rw [show z.month = 12 by omega] at hmiss
      have h31 : daysInMonth z.year 12 = 31 := rfl
      omega
  · rintro ⟨t, ht, hlt⟩
    exact .occurrence t ht ((Moment.lt_iff_slot_lt ht.aligned).1 hlt)

/-- Without an end time a call returns iff an occurrence lies ahead. -/
theorem getNextOccurrenceFrom_ok_iff : (∃ r, s.getNextOccurrenceFrom baseTime = .ok r) ↔
    ∃ t, s.Occurs t ∧ baseTime.moment < t :=
  ok_iff_stops.trans stops_maxValue

/-- What it returns is the next occurrence, of the kind of the base time. -/
theorem getNextOccurrenceFrom_spec {r : DateTime} (h : s.getNextOccurrenceFrom baseTime = .ok r) :
    NextIn s.occurrences baseTime.moment (some r.moment) ∧ r.kind = baseTime.kind := by
  obtain ⟨t, ht, hlt⟩ := getNextOccurrenceFrom_ok_iff.1 ⟨r, h⟩
  obtain ⟨hmem, hleast⟩ := (exact_of_getNextOccurrence h).least
    ⟨t, ht, hlt, DateTime.lt_maxValue ht.aligned⟩
  refine ⟨⟨⟨hmem.1, hmem.2.1⟩, ?_⟩, ?_⟩
  · rintro u ⟨hu, hlo⟩
    exact hleast ⟨hu, hlo, DateTime.lt_maxValue hu.aligned⟩
  · rcases kind_of_getNextOccurrence h with rfl | hkind
    · exact absurd hmem.2.2 (lt_irrefl _)
    · exact hkind

end Sentinel.CrontabSchedule
