import Sentinel.Cron.CrontabField
import Sentinel.DotNet.DateTime

/-!
# `CrontabSchedule`: parsing and the search for the next occurrence

`getNextOccurrence` is the source's function in the same order of blocks: `startCursor` is the
minute, hour and day block, `dayBlock` and `monthBlock` are the code from the label
`RetryDayMonth` to the end of the month block, `examine` is the rest.  `retryDayMonth` is the
`goto` loop and `getNextOccurrence` the recursion around it.

* `dayBlock_start`, `dayBlock_retry`, `monthBlock_next` — every cursor that reaches `examine` is the
  successor, in the grid of the four value sets, of the point the search starts or restarts from.
* `examine_examined` — what the loop does with such a cursor; `retryDayMonth_rule` is the rule of
  the `goto` loop that follows from it.
* `retryDayMonth_recurse` — the recursive call gets a later base time, so the search ends.
-/

set_option autoImplicit false

namespace Sentinel

open Gregorian Successor

/-! ## The schedule -/

/-- A field built from a non-empty expression of a known kind. -/
structure ParsedField (of : CrontabFieldImpl) extends CrontabField where
  impl_eq : impl = of
  populated : toCrontabField.Populated

namespace ParsedField

def parse (comparer : CompareInfo) (of : CrontabFieldImpl) (expression : Text)
    (hne : expression ≠ []) : Except Exn (ParsedField of) :=
  match h : CrontabField.create comparer of (some expression) with
  | .error e => .error e
  | .ok f =>
    .ok ⟨f, (CrontabField.create_populated hne h).1, (CrontabField.create_populated hne h).2⟩

variable {of : CrontabFieldImpl} (f : ParsedField of)

theorem range {v : ℤ} (hv : v ∈ f.values) : of.minValue ≤ v ∧ v ≤ of.maxValue := by
  have := CrontabField.range_of_mem f.populated.length hv
  rwa [f.impl_eq] at this

theorem getFirst_isLeast : IsLeast f.values f.getFirst := CrontabField.getFirst_spec f.populated

theorem next_spec (start : ℤ) :
    ∃ v, f.next start = .ok v ∧ FromOn f.values start (CrontabField.ofNil v) :=
  CrontabField.next_spec f.populated start

end ParsedField

structure CrontabSchedule where
  minutes : ParsedField .minute
  hours : ParsedField .hour
  days : ParsedField .day
  months : ParsedField .month
  daysOfWeek : ParsedField .dayOfWeek

/-- The occurrence marker "no value" of the source. -/
def nil : ℤ := -1

/-- The locals `year`, `month`, `day`, `hour` and `minute` of `GetNextOccurrence`. -/
structure Cursor where
  year : ℤ
  month : ℤ
  day : ℤ
  hour : ℤ
  minute : ℤ

def Cursor.slot (c : Cursor) : Slot := Gregorian.slot c.year c.month c.day c.hour c.minute

/-- The month does not have this day. -/
def Cursor.DateMissing (x : Cursor) : Prop :=
  x.year ≤ 9999 ∧ daysInMonth x.year x.month < x.day

/-- The test of the early `return endTime`, field by field. -/
def Cursor.PastEnd (x : Cursor) (endTime : DateTime) : Prop :=
  endTime.moment.year ≤ x.year ∧ endTime.moment.month ≤ x.month ∧ endTime.moment.day ≤ x.day

/-- The cursor denotes the moment `t`. -/
structure Cursor.Denotes (x : Cursor) (t : Moment) : Prop where
  aligned : t.MinuteAligned
  slot_eq : t.slot = x.slot
  year_eq : t.year = x.year
  month_eq : t.month = x.month
  day_eq : t.day = x.day

/-- The last slot of the cursor's month. -/
def Cursor.endOfMonth (x : Cursor) : Slot := Gregorian.slot x.year x.month 31 23 59

/-- How one call of `GetNextOccurrence` leaves its loop. -/
inductive Outcome where
  | returned (t : DateTime)
  | recurse (baseTime : DateTime)

namespace CrontabSchedule

def notFiveFields (expression : String) : Exn :=
  .formatException ("'" ++ expression ++ "' is not a valid crontab expression. It must contain " ++
    "at least 5 components of a schedule " ++
    "(in the sequence of minutes, hours, days, months, days of week).") none

/-- `Parse` and the constructor. -/
def parse (comparer : CompareInfo) (expression : Option String) : Except Exn CrontabSchedule :=
  match expression with
  | none => .error (.argumentNullException "expression")
  | some expression =>
    match h : splitRemoveEmpty ' ' expression.toList with
    | [minutes, hours, days, months, daysOfWeek] => do
      have hne : ∀ field ∈ [minutes, hours, days, months, daysOfWeek], field ≠ [] :=
        fun field hf => ne_nil_of_mem_splitRemoveEmpty (h ▸ hf)
      let minutes ← ParsedField.parse comparer .minute minutes (hne _ (by simp))
      let hours ← ParsedField.parse comparer .hour hours (hne _ (by simp))
      let days ← ParsedField.parse comparer .day days (hne _ (by simp))
      let months ← ParsedField.parse comparer .month months (hne _ (by simp))
      let daysOfWeek ← ParsedField.parse comparer .dayOfWeek daysOfWeek (hne _ (by simp))
      pure ⟨minutes, hours, days, months, daysOfWeek⟩
    | _ => .error (notFiveFields expression)

variable (s : CrontabSchedule) (baseTime endTime : DateTime)

/-- The minute and hour blocks. -/
def hourBlock : Except Exn Cursor := do
  let base := baseTime.moment
  let minute ← s.minutes.next (base.minute + 1)
  let hour := if minute = nil then base.hour + 1 else base.hour
  let minute := if minute = nil then s.minutes.getFirst else minute
  let hour ← s.hours.next hour
  if hour = nil then
    pure ⟨base.year, base.month, base.day + 1, s.hours.getFirst, s.minutes.getFirst⟩
  else if hour > base.hour then pure ⟨base.year, base.month, base.day, hour, s.minutes.getFirst⟩
  else pure ⟨base.year, base.month, base.day, hour, minute⟩

/-- Everything before the label `RetryDayMonth`. -/
def startCursor : Except Exn Cursor := do
  let c ← s.hourBlock baseTime
  let day ← s.days.next c.day
  pure { c with day := day }

/-- From the label to the month block. -/
def dayBlock (c : Cursor) : Cursor :=
  if c.day = nil then
    ⟨c.year, c.month + 1, s.days.getFirst, s.hours.getFirst, s.minutes.getFirst⟩
  else if c.day > baseTime.moment.day then
    ⟨c.year, c.month, c.day, s.hours.getFirst, s.minutes.getFirst⟩
  else c

def monthBlock (c : Cursor) : Except Exn Cursor := do
  let month ← s.months.next c.month
  if month = nil then
    pure ⟨c.year + 1, s.months.getFirst, s.days.getFirst, s.hours.getFirst, s.minutes.getFirst⟩
  else if month > baseTime.moment.month then
    pure ⟨c.year, month, s.days.getFirst, s.hours.getFirst, s.minutes.getFirst⟩
  else pure { c with month := month }

/-- The border test: the date part has changed to a day the month does not have. -/
def beyondMonth (c : Cursor) : Except Exn Bool :=
  let base := baseTime.moment
  let dateChanged := c.day ≠ base.day ∨ c.month ≠ base.month ∨ c.year ≠ base.year
  if c.day > 28 ∧ dateChanged then
    match getDaysInMonth c.year c.month with
    | .error e => .error e
    | .ok n => .ok (c.day > n)
  else .ok false

/-- From the border test to the end; `none` is `goto RetryDayMonth`. -/
def examine (c : Cursor) : Except Exn (Option Outcome) :=
  match beyondMonth baseTime c with
  | .error e => .error e
  | .ok true =>
    if c.year ≥ endTime.moment.year ∧ c.month ≥ endTime.moment.month ∧
        c.day ≥ endTime.moment.day then .ok (some (.returned endTime))
    else .ok none
  | .ok false =>
    match DateTime.new c.year c.month c.day c.hour c.minute baseTime.kind with
    | .error e => .error e
    | .ok nextTime =>
      if nextTime.moment ≥ endTime.moment then .ok (some (.returned endTime))
      else
        match s.daysOfWeek.contains nextTime.moment.dayOfWeek with
        | .error e => .error e
        | .ok true => .ok (some (.returned nextTime))
        | .ok false =>
          match DateTime.new c.year c.month c.day 23 59 baseTime.kind with
          | .error e => .error e
          | .ok baseTime => .ok (some (.recurse baseTime))

/-! ## The grid of the four value sets -/

/-- Hour and minute, both selected. -/
def timeGrid : Set (ℤ ×ₗ ℤ) := lexSet s.hours.values s.minutes.values

def dayGrid : Set (ℤ ×ₗ ℤ ×ₗ ℤ) := lexSet s.days.values s.timeGrid

def monthGrid : Set (ℤ ×ₗ ℤ ×ₗ ℤ ×ₗ ℤ) := lexSet s.months.values s.dayGrid

/-- The slots whose month, day, hour and minute are selected, whether or not the date exists. -/
def grid : Set Slot := lexSet Set.univ s.monthGrid

def firstTime : ℤ ×ₗ ℤ := toLex (s.hours.getFirst, s.minutes.getFirst)

def firstDay : ℤ ×ₗ ℤ ×ₗ ℤ := toLex (s.days.getFirst, s.firstTime)

def firstMonth : ℤ ×ₗ ℤ ×ₗ ℤ ×ₗ ℤ := toLex (s.months.getFirst, s.firstDay)

theorem slot_mem_grid {y m d h n : ℤ} : slot y m d h n ∈ s.grid ↔
    m ∈ s.months.values ∧ d ∈ s.days.values ∧ h ∈ s.hours.values ∧ n ∈ s.minutes.values := by
  simp only [slot, grid, monthGrid, dayGrid, timeGrid, toLex_mem_lexSet, Set.mem_univ, true_and]

theorem firstTime_isLeast : IsLeast s.timeGrid s.firstTime :=
  isLeast_lexSet s.hours.getFirst_isLeast s.minutes.getFirst_isLeast

theorem firstDay_isLeast : IsLeast s.dayGrid s.firstDay :=
  isLeast_lexSet s.days.getFirst_isLeast s.firstTime_isLeast

theorem firstMonth_isLeast : IsLeast s.monthGrid s.firstMonth :=
  isLeast_lexSet s.months.getFirst_isLeast s.firstDay_isLeast

/-! ## The blocks follow the grid -/

theorem ofNil_eq_none {v : ℤ} : CrontabField.ofNil v = none ↔ v = nil := by
  unfold CrontabField.ofNil nil
  split <;> simp_all

theorem ofNil_of_ne {v : ℤ} (h : v ≠ nil) : CrontabField.ofNil v = some v := by
  unfold CrontabField.ofNil
  exact if_neg h

/-- The minute and hour blocks find the next selected time of the day; without one they leave
the first time and the next day. -/
theorem hourBlock_spec : ∃ c r, s.hourBlock baseTime = .ok c ∧
    NextIn s.timeGrid (toLex (baseTime.moment.hour, baseTime.moment.minute)) r ∧
    toLex (c.hour, c.minute) = r.getD s.firstTime ∧ c.year = baseTime.moment.year ∧
    c.month = baseTime.moment.month ∧
    c.day = if r = none then baseTime.moment.day + 1 else baseTime.moment.day := by
  obtain ⟨n, hn, hnFrom⟩ := s.minutes.next_spec (baseTime.moment.minute + 1)
  obtain ⟨h, hh, hhFrom⟩ := s.hours.next_spec
    (if n = nil then baseTime.moment.hour + 1 else baseTime.moment.hour)
  have hlex := NextIn.lex (d := baseTime.moment.hour) (q := CrontabField.ofNil h)
    s.minutes.getFirst_isLeast hnFrom.nextIn (by simpa only [ofNil_eq_none] using hhFrom)
  unfold hourBlock
  simp only [hn, hh, bind, Except.bind]
  by_cases hnone : h = nil
  · rw [if_pos hnone]
    rw [ofNil_eq_none.2 hnone] at hlex
    exact ⟨_, none, rfl, hlex, rfl, rfl, rfl, rfl⟩
  · rw [if_neg hnone]
    rw [ofNil_of_ne hnone, Option.map_some] at hlex
    by_cases hlater : baseTime.moment.hour < h
    · rw [if_pos hlater] at hlex ⊢
      exact ⟨_, some _, rfl, hlex, rfl, rfl, rfl, rfl⟩
    · rw [if_neg hlater] at hlex ⊢
      refine ⟨_, some _, rfl, hlex, ?_, rfl, rfl, rfl⟩
      by_cases hcarry : n = nil
      · simp [hcarry, CrontabField.ofNil, nil]
      · simp [hcarry, ofNil_of_ne hcarry]

/-- What the cursor says about the part from the day down: the successor `r` of a point `lo`
within the month, or the first day with the month moved on. -/
structure AtMonth (lo : ℤ ×ₗ ℤ ×ₗ ℤ) (year month : ℤ) (c : Cursor) : Prop where
  year_eq : c.year = year
  next : ∃ r, NextIn s.dayGrid lo r ∧
    toLex (c.day, toLex (c.hour, c.minute)) = r.getD s.firstDay ∧
    c.month = (if r = none then month + 1 else month) ∧
    (r = none ∨ month = baseTime.moment.month)

/-- From the base time on, the day block finds the next selected day and time of the month. -/
theorem dayBlock_start : ∃ c, s.startCursor baseTime = .ok c ∧
    s.AtMonth baseTime (toLex (baseTime.moment.day,
      toLex (baseTime.moment.hour, baseTime.moment.minute)))
      baseTime.moment.year baseTime.moment.month (s.dayBlock baseTime c) := by
  obtain ⟨c, r, hc, hr, htime, hyear, hmonth, hday⟩ := s.hourBlock_spec baseTime
  obtain ⟨d, hd, hdFrom⟩ := s.days.next_spec c.day
  rw [hday] at hdFrom
  have hlex := NextIn.lex s.firstTime_isLeast hr hdFrom
  refine ⟨{ c with day := d }, by simp [startCursor, hc, hd, bind, Except.bind, pure, Except.pure],
    ?_⟩
  unfold dayBlock
  simp only
  by_cases hnone : d = nil
  · rw [if_pos hnone]
    rw [ofNil_eq_none.2 hnone] at hlex
    exact ⟨hyear, none, hlex, rfl, by simp [hmonth], Or.inl rfl⟩
  · rw [if_neg hnone]
    rw [ofNil_of_ne hnone, Option.map_some] at hlex
    by_cases hlater : baseTime.moment.day < d
    · rw [if_pos hlater] at hlex ⊢
      exact ⟨hyear, some _, hlex, rfl, by simp [hmonth], Or.inr rfl⟩
    · rw [if_neg hlater] at hlex ⊢
      refine ⟨hyear, some _, hlex, ?_, by simp [hmonth], Or.inr rfl⟩
      simp only [Option.getD_some, htime]

/-- The last time of a month: no selected day and time of a month is later. -/
def monthEnd : ℤ ×ₗ ℤ ×ₗ ℤ := toLex (31, toLex (23, 59))

theorem nextIn_monthEnd : NextIn s.dayGrid monthEnd none := by
  simp only [NextIn, dayGrid, timeGrid, forall_mem_lexSet]
  intro d hd h hh n hn
  have h1 := (s.days.range hd).2
  have h2 := (s.hours.range hh).2
  have h3 := (s.minutes.range hn).2
  simp only [CrontabFieldImpl.day, CrontabFieldImpl.hour, CrontabFieldImpl.minute] at h1 h2 h3
  rw [monthEnd, Prod.Lex.toLex_le_toLex, Prod.Lex.toLex_le_toLex]
  simp only
  omega

/-- After `goto RetryDayMonth` the day block moves on to the next month. -/
theorem dayBlock_retry (c : Cursor) :
    s.AtMonth baseTime monthEnd c.year c.month (s.dayBlock baseTime { c with day := nil }) := by
  unfold dayBlock
  rw [if_pos rfl]
  exact ⟨rfl, none, s.nextIn_monthEnd, rfl, rfl, Or.inl rfl⟩

/-- **The month block completes the cursor** to the successor in the grid. -/
theorem monthBlock_next {lo : ℤ ×ₗ ℤ ×ₗ ℤ} {year month : ℤ} {c : Cursor}
    (hc : s.AtMonth baseTime lo year month c) :
    ∃ x, s.monthBlock baseTime c = .ok x ∧
      NextIn s.grid (toLex (year, toLex (month, lo))) (some x.slot) := by
  obtain ⟨hyear, r, hr, hlow, hmonth, hbase⟩ := hc
  obtain ⟨m, hm, hmFrom⟩ := s.months.next_spec c.month
  rw [hmonth] at hmFrom
  have hlex := NextIn.lex s.firstDay_isLeast hr hmFrom
  -- the year has no bound: it moves on when no month is left
  have hfull : ∀ {q : Option _}, NextIn s.monthGrid (toLex (month, lo)) q →
      NextIn s.grid (toLex (year, toLex (month, lo)))
        (some (q.elim (toLex (year + 1, s.firstMonth)) fun z => toLex (year, z))) := by
    intro q hq
    have hy : FromOn Set.univ (if q = none then year + 1 else year)
        (some (if q = none then year + 1 else year)) := ⟨⟨trivial, le_rfl⟩, fun x hx => hx.2⟩
    have hn := NextIn.lex s.firstMonth_isLeast hq hy
    unfold grid
    cases q with
    | none => simpa using hn
    | some z => simpa using hn
  unfold monthBlock
  simp only [hm, bind, Except.bind]
  by_cases hnone : m = nil
  · rw [if_pos hnone]
    rw [ofNil_eq_none.2 hnone] at hlex
    refine ⟨_, rfl, ?_⟩
    have := hfull hlex
    rw [← hyear] at this ⊢
    exact this
  · rw [if_neg hnone]
    rw [ofNil_of_ne hnone, Option.map_some] at hlex
    have := hfull hlex
    rw [← hyear] at this ⊢
    by_cases hlater : baseTime.moment.month < m
    · rw [if_pos hlater]
      refine ⟨_, rfl, ?_⟩
      rcases hbase with rfl | hbase
      · rw [Option.getD_none, ite_self] at this
        exact this
      · rw [hbase, if_pos hlater] at this
        rw [hbase]
        exact this
    · rw [if_neg hlater]
      refine ⟨_, rfl, ?_⟩
      have hsame : (if month < m then s.firstDay else r.getD s.firstDay) =
          toLex (c.day, toLex (c.hour, c.minute)) := by
        rw [hlow]
        rcases hbase with rfl | hbase
        · simp
        · rw [hbase, if_neg hlater]
      rw [hsame] at this
      exact this

/-! ## What `examine` answers -/

variable {s baseTime endTime}

/-- What `examine` does with a cursor of the grid. -/
inductive Examined (s : CrontabSchedule) (baseTime endTime : DateTime) (x : Cursor) :
    Except Exn (Option Outcome) → Prop
  | yearTooLarge (e : Exn) : 9999 < x.year → Examined s baseTime endTime x (.error e)
  | stopMissing : x.DateMissing → x.PastEnd endTime →
      Examined s baseTime endTime x (.ok (some (.returned endTime)))
  | retry : x.DateMissing → ¬ x.PastEnd endTime →
      Examined s baseTime endTime x (.ok none)
  | stopEnd (t : Moment) : x.Denotes t → endTime.moment ≤ t →
      Examined s baseTime endTime x (.ok (some (.returned endTime)))
  | found (t : DateTime) : t.kind = baseTime.kind → x.Denotes t.moment →
      t.moment < endTime.moment → t.moment.dayOfWeek ∈ s.daysOfWeek.values →
      Examined s baseTime endTime x (.ok (some (.returned t)))
  | skipDay (t : Moment) (b : DateTime) : x.Denotes t → t < endTime.moment →
      t.dayOfWeek ∉ s.daysOfWeek.values → b.kind = baseTime.kind → b.moment.MinuteAligned →
      b.moment.slot = slot x.year x.month x.day 23 59 →
      Examined s baseTime endTime x (.ok (some (.recurse b)))

/-- The fields of a cursor in the grid lie in the ranges of their kinds. -/
theorem range_of_mem_grid {x : Cursor} (hx : x.slot ∈ s.grid) :
    (1 ≤ x.month ∧ x.month ≤ 12) ∧ (1 ≤ x.day ∧ x.day ≤ 31) ∧ (0 ≤ x.hour ∧ x.hour ≤ 23) ∧
      (0 ≤ x.minute ∧ x.minute ≤ 59) := by
  obtain ⟨hm, hd, hh, hn⟩ := s.slot_mem_grid.1 hx
  exact ⟨s.months.range hm, s.days.range hd, s.hours.range hh, s.minutes.range hn⟩

/-- The border test on a cursor of the grid: it fails to answer only beyond the year 9999, and
answers whether the date is missing. -/
theorem beyondMonth_spec (baseTime : DateTime) {x : Cursor} (hx : x.slot ∈ s.grid)
    (hyear : 1 ≤ x.year) :
    (9999 < x.year ∧ ∃ e, beyondMonth baseTime x = .error e) ∨
    (x.DateMissing ∧ beyondMonth baseTime x = .ok true) ∨
    ((9999 < x.year ∨ ValidDate x.year x.month x.day) ∧ beyondMonth baseTime x = .ok false) := by
  obtain ⟨hm, hd, -, -⟩ := range_of_mem_grid hx
  have hge := daysInMonth_ge x.year x.month
  unfold beyondMonth Cursor.DateMissing
  simp only
  split
  · unfold getDaysInMonth
    by_cases hy : x.year ≤ 9999
    · rw [if_pos ⟨hyear, hy, hm⟩]
      simp only [Except.ok.injEq, decide_eq_true_eq, decide_eq_false_iff_not]
      by_cases hmiss : daysInMonth x.year x.month < x.day
      · exact Or.inr (Or.inl ⟨⟨hy, hmiss⟩, hmiss⟩)
      · exact Or.inr (Or.inr ⟨Or.inr ⟨hyear, hy, hm.1, hm.2, hd.1, by omega⟩, by omega⟩)
    · rw [if_neg (by omega)]
      exact Or.inl ⟨by omega, _, rfl⟩
  · rename_i hsafe
    refine Or.inr (Or.inr ⟨?_, rfl⟩)
    by_cases hy : x.year ≤ 9999
    · right
      by_cases h28 : x.day > 28
      · -- an unchanged date is the date of the base time
        have hsame : x.day = baseTime.moment.day ∧ x.month = baseTime.moment.month ∧
            x.year = baseTime.moment.year := by
          by_contra hne
          exact hsafe ⟨h28, by omega⟩
        rw [hsame.1, hsame.2.1, hsame.2.2]
        exact baseTime.moment.date_valid
      · exact ⟨hyear, hy, hm.1, hm.2, hd.1, by omega⟩
    · exact Or.inl (by omega)

theorem examine_examined (baseTime endTime : DateTime) {x : Cursor} (hx : x.slot ∈ s.grid)
    (hyear : 1 ≤ x.year) :
    Examined s baseTime endTime x (s.examine baseTime endTime x) := by
  obtain ⟨hm, hd, hh, hn⟩ := range_of_mem_grid hx
  unfold examine
  rcases beyondMonth_spec baseTime hx hyear with
    ⟨hy, e, he⟩ | ⟨hmiss, he⟩ | ⟨hvalid, he⟩
  · rw [he]
    exact .yearTooLarge e hy
  · rw [he]
    simp only
    split
    · rename_i hend
      exact .stopMissing hmiss hend
    · rename_i hend
      exact .retry hmiss hend
  · rw [he]
    simp only
    rcases hvalid with hy | hvalid
    · rw [DateTime.new_error _ fun hv => by have := hv.year_le; omega]
      exact .yearTooLarge _ hy
    · obtain ⟨t, ht⟩ := DateTime.new_ok baseTime.kind hvalid hh hn
      obtain ⟨b, hb⟩ := DateTime.new_ok baseTime.kind hvalid
        (show (0 : ℤ) ≤ 23 ∧ (23 : ℤ) ≤ 23 by decide) (show (0 : ℤ) ≤ 59 ∧ (59 : ℤ) ≤ 59 by decide)
      obtain ⟨hkind, haligned, hslot, hy, hmo, hda, -, -⟩ := DateTime.new_spec ht
      obtain ⟨hbkind, hbaligned, hbslot, -⟩ := DateTime.new_spec hb
      have hden : x.Denotes t.moment := ⟨haligned, hslot, hy, hmo, hda⟩
      obtain ⟨w, hw, hwiff⟩ := CrontabField.contains_spec s.daysOfWeek.populated
        (v := t.moment.dayOfWeek) (by rw [s.daysOfWeek.impl_eq]; exact t.moment.dayOfWeek_bounds.1)
        (by rw [s.daysOfWeek.impl_eq]; exact t.moment.dayOfWeek_bounds.2)
      simp only [ht, hb, hw]
      split
      · rename_i hend
        exact .stopEnd _ hden hend
      · rename_i hend
        cases w with
        | true => exact .found t hkind hden (not_le.1 hend) (hwiff.1 rfl)
        | false =>
          exact .skipDay _ b hden (not_le.1 hend) (fun h => absurd (hwiff.2 h) (by simp)) hbkind
            hbaligned hbslot

/-! ## The `goto` loop -/

variable (s baseTime endTime)

/-- Bounds the rounds of the loop: months left until the year 10000. -/
def monthsLeft (c : Cursor) : ℕ :=
  (10000 - c.year).toNat * 64 + min 31 (13 - c.month).toNat * 2 + (if c.day = nil then 0 else 1)

theorem monthBlock_progress {c x : Cursor} (h : s.monthBlock baseTime c = .ok x) :
    (x.year = c.year ∧ c.month ≤ x.month) ∨ x.year = c.year + 1 := by
  obtain ⟨m, hm, hmFrom⟩ := s.months.next_spec c.month
  unfold monthBlock at h
  simp only [hm, bind, Except.bind] at h
  split at h
  · cases h
    exact Or.inr rfl
  · rename_i hne
    rw [ofNil_of_ne hne] at hmFrom
    split at h <;> cases h <;> exact Or.inl ⟨rfl, hmFrom.1.2⟩

theorem examine_retry {x : Cursor} (h : s.examine baseTime endTime x = .ok none) :
    1 ≤ x.year ∧ x.year ≤ 9999 ∧ 1 ≤ x.month ∧ x.month ≤ 12 := by
  unfold examine at h
  split at h
  · cases h
  · rename_i hb
    unfold beyondMonth at hb
    simp only at hb
    split at hb
    · split at hb
      · cases hb
      · rename_i hn
        exact (getDaysInMonth_ok hn).1
    · cases hb
  · split at h
    · cases h
    · split at h
      · cases h
      · split at h
        · cases h
        · cases h
        · split at h <;> cases h

theorem monthsLeft_retry {c x : Cursor} (hm : s.monthBlock baseTime (s.dayBlock baseTime c) = .ok x)
    (he : s.examine baseTime endTime x = .ok none) :
    monthsLeft { x with day := nil } < monthsLeft c := by
  obtain ⟨hy1, hy, hm1, hm12⟩ := s.examine_retry baseTime endTime he
  have hprog := s.monthBlock_progress baseTime hm
  have hday : (s.dayBlock baseTime c).year = c.year ∧
      (s.dayBlock baseTime c).month = if c.day = nil then c.month + 1 else c.month := by
    unfold dayBlock
    split <;> simp
    split <;> simp
  rw [hday.1, hday.2] at hprog
  unfold monthsLeft
  simp only
  split at hprog <;> simp_all <;> omega

/-- The loop from the label `RetryDayMonth` on. -/
def retryDayMonth (c : Cursor) : Except Exn Outcome :=
  match _hm : s.monthBlock baseTime (s.dayBlock baseTime c) with
  | .error e => .error e
  | .ok x =>
    match _he : s.examine baseTime endTime x with
    | .error e => .error e
    | .ok (some outcome) => .ok outcome
    | .ok none => retryDayMonth { x with day := nil }
termination_by monthsLeft c
decreasing_by exact s.monthsLeft_retry baseTime endTime _hm _he

/-- The cursor `c` stands for a search in the grid above the point `p`. -/
def SearchFrom (p : Slot) (c : Cursor) : Prop :=
  ∃ year month lo, p = toLex (year, toLex (month, lo)) ∧
    s.AtMonth baseTime lo year month (s.dayBlock baseTime c)

theorem searchFrom_start :
    ∃ c, s.startCursor baseTime = .ok c ∧ s.SearchFrom baseTime baseTime.moment.slot c := by
  obtain ⟨c, hc, hat⟩ := s.dayBlock_start baseTime
  exact ⟨c, hc, _, _, _, rfl, hat⟩

omit s endTime in
theorem year_pos_of_lt {x : Cursor} (h : baseTime.moment.slot < x.slot) : 1 ≤ x.year := by
  have hy := baseTime.moment.date_valid.year_pos
  unfold Moment.slot Cursor.slot at h
  rw [slot_lt_slot] at h
  omega

omit baseTime endTime in
theorem slot_le_endOfMonth {x : Cursor} (hx : x.slot ∈ s.grid) : x.slot ≤ x.endOfMonth := by
  obtain ⟨-, hd, hh, hn⟩ := range_of_mem_grid hx
  rw [Cursor.slot, Cursor.endOfMonth, slot_le_slot]
  omega

/-- What the result of a round of the loop has to satisfy: `Q` when it leaves the loop, `P` of the
end of the month when it jumps back. -/
def RoundOk (P : Slot → Prop) (Q : Except Exn Outcome → Prop) (x : Cursor) :
    Except Exn (Option Outcome) → Prop
  | .error e => Q (.error e)
  | .ok (some outcome) => Q (.ok outcome)
  | .ok none => P x.endOfMonth

/-- The rule below for a search that is under way above the point `p`. -/
theorem retryDayMonth_rule_from {P : Slot → Prop} {Q : Except Exn Outcome → Prop}
    (hround : ∀ p x r, P p → baseTime.moment.slot ≤ p → NextIn s.grid p (some x.slot) →
      Examined s baseTime endTime x r → RoundOk P Q x r)
    {p : Slot} {c : Cursor} (hfrom : s.SearchFrom baseTime p c) (hbase : baseTime.moment.slot ≤ p)
    (hp : P p) : Q (s.retryDayMonth baseTime endTime c) := by
  fun_induction retryDayMonth s baseTime endTime c generalizing p with
  | case1 c e hm =>
    obtain ⟨y, m, lo, rfl, hat⟩ := hfrom
    obtain ⟨x, hx, -⟩ := s.monthBlock_next baseTime hat
    rw [hm] at hx
    cases hx
  | case2 c x hm e he =>
    obtain ⟨y, m, lo, rfl, hat⟩ := hfrom
    obtain ⟨x', hx, hnext⟩ := s.monthBlock_next baseTime hat
    cases hm.symm.trans hx
    have hex := examine_examined baseTime endTime hnext.1.1
      (year_pos_of_lt baseTime (hbase.trans_lt hnext.1.2))
    rw [he] at hex
    exact hround _ x _ hp hbase hnext hex
  | case3 c x hm outcome he =>
    obtain ⟨y, m, lo, rfl, hat⟩ := hfrom
    obtain ⟨x', hx, hnext⟩ := s.monthBlock_next baseTime hat
    cases hm.symm.trans hx
    have hex := examine_examined baseTime endTime hnext.1.1
      (year_pos_of_lt baseTime (hbase.trans_lt hnext.1.2))
    rw [he] at hex
    exact hround _ x _ hp hbase hnext hex
  | case4 c x hm he ih =>
    obtain ⟨y, m, lo, rfl, hat⟩ := hfrom
    obtain ⟨x', hx, hnext⟩ := s.monthBlock_next baseTime hat
    cases hm.symm.trans hx
    have hlt := hbase.trans_lt hnext.1.2
    have hex := examine_examined baseTime endTime hnext.1.1
      (year_pos_of_lt baseTime hlt)
    rw [he] at hex
    have hfrom' : s.SearchFrom baseTime x.endOfMonth { x with day := nil } :=
      ⟨x.year, x.month, _, rfl, s.dayBlock_retry baseTime x⟩
    exact ih hfrom' (hlt.le.trans (s.slot_le_endOfMonth hnext.1.1))
      (hround _ x _ hp hbase hnext hex)

/-- **Rule of the `goto` loop.**  `P` holds of the point the search starts above; every round
examines the successor of that point in the grid, and every jump back carries `P` to the end of
the month left behind. -/
theorem retryDayMonth_rule {P : Slot → Prop} {Q : Except Exn Outcome → Prop}
    (hround : ∀ p x r, P p → baseTime.moment.slot ≤ p → NextIn s.grid p (some x.slot) →
      Examined s baseTime endTime x r → RoundOk P Q x r)
    {c : Cursor} (hc : s.startCursor baseTime = .ok c) (hp : P baseTime.moment.slot) :
    Q (s.retryDayMonth baseTime endTime c) := by
  obtain ⟨c', hc', hfrom⟩ := s.searchFrom_start baseTime
  cases hc.symm.trans hc'
  exact s.retryDayMonth_rule_from baseTime endTime hround hfrom le_rfl hp

/-! ## The recursion -/

/-- The base time of the recursive call is later. -/
theorem retryDayMonth_recurse {c : Cursor} {b : DateTime}
    (hc : s.startCursor baseTime = .ok c)
    (h : s.retryDayMonth baseTime endTime c = .ok (.recurse b)) : baseTime.moment < b.moment := by
  refine s.retryDayMonth_rule baseTime endTime (P := fun _ => True)
    (Q := fun r => ∀ b, r = .ok (.recurse b) → baseTime.moment < b.moment) ?_ hc trivial b h
  intro p x r _ hp hnext hex
  cases hex with
  | skipDay t b _ _ _ _ hbaligned hbslot =>
    rintro _ ⟨rfl⟩
    obtain ⟨-, -, hh, hn⟩ := range_of_mem_grid hnext.1.1
    rw [Moment.lt_iff_slot_lt hbaligned, hbslot]
    refine (hp.trans_lt hnext.1.2).trans_le ?_
    rw [Cursor.slot, slot_le_slot]
    omega
  | retry => trivial
  | _ => rintro _ ⟨⟩

/-- `GetNextOccurrence(baseTime, endTime)`. -/
def getNextOccurrence (baseTime : DateTime) : Except Exn DateTime :=
  match _hc : s.startCursor baseTime with
  | .error e => .error e
  | .ok c =>
    match _hr : s.retryDayMonth baseTime endTime c with
    | .error e => .error e
    | .ok (.returned t) => .ok t
    | .ok (.recurse later) => getNextOccurrence later
termination_by (maxTicks - baseTime.moment.ticks).toNat
decreasing_by
  have hlt := Moment.lt_def.1 (s.retryDayMonth_recurse baseTime endTime _hc _hr)
  have hle := Moment.le_def.1 (DateTime.le_maxValue later.moment)
  have hmax : DateTime.maxValue.moment.ticks = maxTicks := by decide
  omega

/-- `GetNextOccurrence(baseTime)`. -/
def getNextOccurrenceFrom (baseTime : DateTime) : Except Exn DateTime :=
  s.getNextOccurrence DateTime.maxValue baseTime

end CrontabSchedule

end Sentinel
