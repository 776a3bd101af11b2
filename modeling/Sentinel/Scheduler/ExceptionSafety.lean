import Sentinel.Scheduler.SyncSteps

/-!
# What a call of the repository leaves behind when it throws

`Add`, `UpdateSchedulerRepository` and `UpdateTask` write before the log call computes the next
occurrence, `Increment` before it computes the next run time.  A crontab that the parser refuses
throws before anything is written.

* `add_error`, `updateSchedulerRepository_error`, `updateTask_found`, `incrementAt_eq` — the state
  a call leaves behind.
* `exceptionSafe_iff` — when a call that throws leaves the list and the tasks as they were.
-/

set_option autoImplicit false

namespace Sentinel.SchedulerRepository

open Throwing

variable {T : Type} [IScheduledTaskItem T]

/-! ## Calls -/

inductive Call (T : Type) where
  | add (item : T)
  | updateSchedulerRepository (item : T)
  | updateTask (item : T)
  | increment (task : Ref)

def Call.run (comparer : CompareInfo) (clock : Clock) :
    Call T → EStateM Exn (SchedulerRepository T) Unit
  | .add item => SchedulerRepository.add comparer clock item
  | .updateSchedulerRepository item =>
    SchedulerRepository.updateSchedulerRepository comparer clock item
  | .updateTask item => SchedulerRepository.updateTask clock item
  | .increment task => incrementAt task

/-- The same list, and every task object as it was. -/
structure Unchanged (s s' : SchedulerRepository T) : Prop where
  scheduledTasks : s'.scheduledTasks = s.scheduledTasks
  tasks : ∀ r t, s.heap.read r = some t → s'.heap.read r = some t

/-- If the call throws, it leaves the repository unchanged. -/
def ExceptionSafe (comparer : CompareInfo) (clock : Clock) (call : Call T)
    (s : SchedulerRepository T) : Prop :=
  ∀ e s', call.run comparer clock s = .error e s' → Unchanged s s'

/-- The schedule has no occurrence after the time. -/
def Exhausted (schedule : CrontabSchedule) (time : DateTime) : Prop :=
  ¬ ∃ t, schedule.Occurs t ∧ time.moment < t

/-- The item's crontab is accepted, and has no occurrence after the time. -/
def ExhaustedItem (comparer : CompareInfo) (item : T) (time : DateTime) : Prop :=
  ∃ schedule, CrontabSchedule.parse comparer (IScheduledTaskItem.schedule item) = .ok schedule ∧
    Exhausted schedule time

/-- The call writes and then fails to find the next occurrence, or has no schedule text to show. -/
def FailsAfterWrite (comparer : CompareInfo) (clock : Clock) (s : SchedulerRepository T) :
    Call T → Prop
  | .add item => ExhaustedItem comparer item (clock.reading s.clockReads)
  | .updateSchedulerRepository item =>
    (∃ r t, s.firstOrDefault (fun e => e.uid == IScheduledTaskItem.uid item) = some (r, t)) ∧
      ExhaustedItem comparer item (clock.reading (s.clockReads + 1))
  | .updateTask item =>
    ∃ r t, s.firstOrDefault (fun e => e.uid == IScheduledTaskItem.uid item) = some (r, t) ∧
      t.task ≠ item ∧ (IScheduledTaskItem.schedule item = none ∨
        Exhausted t.schedule (clock.reading s.clockReads))
  | .increment r =>
    ∃ t, s.heap.read r = some t ∧ t.lastRunTime ≠ t.nextRunTime ∧
      Exhausted t.schedule t.nextRunTime

/-! ## The state at the throw -/

variable {comparer : CompareInfo} {clock : Clock} {s s' : SchedulerRepository T} {item : T}
  {e : Exn}

theorem exhausted_of_error {schedule : CrontabSchedule} {time : DateTime}
    (h : schedule.getNextOccurrenceFrom time = .error e) : Exhausted schedule time := by
  intro hnext
  obtain ⟨r, hr⟩ := CrontabSchedule.getNextOccurrenceFrom_ok_iff.2 hnext
  cases h.symm.trans hr

theorem error_of_exhausted {schedule : CrontabSchedule} {time : DateTime}
    (h : Exhausted schedule time) : ∃ e, schedule.getNextOccurrenceFrom time = .error e := by
  cases hnext : schedule.getNextOccurrenceFrom time with
  | error e => exact ⟨e, rfl⟩
  | ok r => exact absurd (CrontabSchedule.getNextOccurrenceFrom_ok_iff.1 ⟨r, hnext⟩) h

/-- The constructor accepts what the parser accepts. -/
theorem new_ok_iff {time : DateTime} {t : ScheduledTask T} :
    ScheduledTask.new comparer item time = .ok t ↔
      ∃ schedule, CrontabSchedule.parse comparer (IScheduledTaskItem.schedule item) =
        .ok schedule ∧ t = ⟨IScheduledTaskItem.uid item, schedule, item, .minValue, time⟩ := by
  unfold ScheduledTask.new
  cases CrontabSchedule.parse comparer (IScheduledTaskItem.schedule item) with
  | error e => simp
  | ok schedule => simp [eq_comm]

omit [IScheduledTaskItem T] in
theorem mem_of_firstOrDefault {p : ScheduledTask T → Bool} {r : Ref} {t : ScheduledTask T}
    (hfind : s.firstOrDefault p = some (r, t)) :
    r ∈ s.scheduledTasks ∧ s.heap.read r = some t := by
  rcases firstOrDefault_spec (s := s) (p := p) with ⟨r', t', hfind', hr, hread, -⟩ | ⟨hnone, -⟩
  · cases hfind.symm.trans hfind'
    exact ⟨hr, hread⟩
  · cases hfind.symm.trans hnone

theorem new_of_parse {schedule : CrontabSchedule}
    (h : CrontabSchedule.parse comparer (IScheduledTaskItem.schedule item) = .ok schedule)
    (time : DateTime) :
    ∃ t, ScheduledTask.new comparer item time = .ok t ∧ t.schedule = schedule :=
  ⟨_, new_ok_iff.2 ⟨schedule, h, rfl⟩, rfl⟩

omit [IScheduledTaskItem T] in
theorem unchanged_tick : Unchanged s s.tick := ⟨rfl, fun _ _ h => h⟩

omit [IScheduledTaskItem T] in
theorem unchanged_ticks : Unchanged s s.tick.tick := ⟨rfl, fun _ _ h => h⟩

/-! ### `Add` -/

theorem add_error (h : add comparer clock item s = .error e s') :
    s' = s.tick ∨ ExhaustedItem comparer item (clock.reading s.clockReads) := by
  unfold add at h
  rw [bind_ok (utcNow_apply clock s)] at h
  cases hnew : ScheduledTask.new comparer item (clock.reading s.clockReads) with
  | error e' =>
    rw [hnew] at h
    cases h
    exact Or.inl rfl
  | ok t =>
    obtain ⟨schedule, hparse, rfl⟩ := new_ok_iff.1 hnew
    rw [hnew, bind_ok (ofExcept_ok _ _), bind_ok (modify_apply _ _)] at h
    cases hnext : schedule.getNextOccurrenceFrom (clock.reading s.clockReads) with
    | error e' => exact Or.inr ⟨schedule, hparse, exhausted_of_error hnext⟩
    | ok r =>
      simp only [hnext] at h
      cases h

/-- The log call fails when the task is already in the list. -/
theorem add_fails (h : ExhaustedItem comparer item (clock.reading s.clockReads)) :
    ∃ e t, add comparer clock item s = .error e (s.tick.append t) := by
  obtain ⟨schedule, hparse, hnone⟩ := h
  obtain ⟨e, hnext⟩ := error_of_exhausted hnone
  obtain ⟨t, hnew, hschedule⟩ := new_of_parse hparse (clock.reading s.clockReads)
  rw [← hschedule] at hnext
  refine ⟨e, t, ?_⟩
  unfold add
  rw [bind_ok (utcNow_apply clock s), hnew, bind_ok (ofExcept_ok _ _), bind_ok (modify_apply _ _)]
  simp only [hnext]
  rfl

omit [IScheduledTaskItem T] in
theorem not_unchanged_append (t : ScheduledTask T) : ¬ Unchanged s (s.tick.append t) := by
  intro h
  have hlen := congrArg List.length h.scheduledTasks
  simp [append, tick] at hlen

/-! ### `UpdateSchedulerRepository` -/

theorem updateSchedulerRepository_error
    (h : updateSchedulerRepository comparer clock item s = .error e s') :
    s' = s.tick.tick ∨
      ((∃ r t, s.firstOrDefault (fun e => e.uid == IScheduledTaskItem.uid item) = some (r, t)) ∧
        ExhaustedItem comparer item (clock.reading (s.clockReads + 1))) := by
  unfold updateSchedulerRepository at h
  rw [bind_ok (utcNow_apply clock s), bind_ok (utcNow_apply clock s.tick)] at h
  cases hnew : ScheduledTask.new comparer item (clock.reading s.tick.clockReads) with
  | error e' =>
    rw [hnew] at h
    cases h
    exact Or.inl rfl
  | ok t' =>
    obtain ⟨schedule, hparse, rfl⟩ := new_ok_iff.1 hnew
    rw [hnew, bind_ok (ofExcept_ok _ _), bind_ok (get_apply _)] at h
    right
    rcases firstOrDefault_spec (s := s.tick.tick)
      (p := fun e => e.uid == IScheduledTaskItem.uid item) with
      ⟨r, t, hfind, hr, -, -⟩ | ⟨hnone, -⟩
    · refine ⟨⟨r, t, hfind⟩, schedule, hparse, ?_⟩
      obtain ⟨i, hi, -⟩ := idxOf?_of_mem hr
      simp only [hfind, hi] at h
      rw [bind_ok (modify_apply _ _)] at h
      cases hnext : schedule.getNextOccurrenceFrom (clock.reading s.tick.clockReads) with
      | error e' => exact exhausted_of_error hnext
      | ok next =>
        simp only [hnext] at h
        cases h
    · simp only [hnone] at h
      cases h

/-- The log call fails when the new task is already in the list. -/
theorem updateSchedulerRepository_fails {r : Ref} {t : ScheduledTask T}
    (hfind : s.firstOrDefault (fun e => e.uid == IScheduledTaskItem.uid item) = some (r, t))
    (h : ExhaustedItem comparer item (clock.reading (s.clockReads + 1))) :
    ∃ e i t', s.scheduledTasks[i]? = some r ∧
      updateSchedulerRepository comparer clock item s = .error e (s.tick.tick.replaceAt i t') := by
  obtain ⟨schedule, hparse, hnone⟩ := h
  obtain ⟨e, hnext⟩ := error_of_exhausted hnone
  obtain ⟨t', hnew, hschedule⟩ := new_of_parse hparse (clock.reading s.tick.clockReads)
  obtain ⟨i, hi, hget⟩ := idxOf?_of_mem (mem_of_firstOrDefault hfind).1
  have hfind' : s.tick.tick.firstOrDefault (fun e => e.uid == IScheduledTaskItem.uid item) =
      some (r, t) := hfind
  have hi' : s.tick.tick.scheduledTasks.idxOf? r = some i := hi
  have hnext' : t'.schedule.getNextOccurrenceFrom (clock.reading s.tick.clockReads) = .error e := by
    rw [hschedule]
    exact hnext
  refine ⟨e, i, t', hget, ?_⟩
  unfold updateSchedulerRepository
  rw [bind_ok (utcNow_apply clock s), bind_ok (utcNow_apply clock s.tick), hnew,
    bind_ok (ofExcept_ok _ _), bind_ok (get_apply _)]
  simp only [hfind', hi']
  rw [bind_ok (modify_apply _ _)]
  simp only [hnext']
  rfl

omit [IScheduledTaskItem T] in
/-- The new task is another object than the one it replaces. -/
theorem not_unchanged_replaceAt {r : Ref} {i : ℕ} {t t' : ScheduledTask T}
    (hread : s.heap.read r = some t) (hget : s.scheduledTasks[i]? = some r) :
    ¬ Unchanged s (s.tick.tick.replaceAt i t') := by
  intro h
  have hlt : i < s.scheduledTasks.length := (List.getElem?_eq_some_iff.1 hget).1
  have hnew : (s.tick.tick.replaceAt i t').scheduledTasks[i]? = some s.heap.next :=
    List.getElem?_set_self hlt
  rw [h.scheduledTasks, hget] at hnew
  have hold := Heap.lt_next_of_read hread
  rw [Option.some.inj hnew] at hold
  exact absurd hold (lt_irrefl _)

/-! ### `UpdateTask` -/

omit [IScheduledTaskItem T] in
/-- Writing to an object of the repository keeps it iff nothing new is written. -/
theorem unchanged_write_iff {r : Ref} {t t' : ScheduledTask T} {reads : ℕ}
    (hread : s.heap.read r = some t) :
    Unchanged s ⟨s.heap.write r t', s.scheduledTasks, reads⟩ ↔ t' = t := by
  constructor
  · intro h
    have hafter := h.tasks r t hread
    rw [Heap.read_write, if_pos rfl, hread] at hafter
    exact Option.some.inj hafter
  · rintro rfl
    refine ⟨rfl, fun r' w hw => ?_⟩
    rw [Heap.read_write, hw]
    by_cases hrr : r = r'
    · subst hrr
      rw [if_pos rfl, Option.map_some, ← hread, hw]
    · rw [if_neg hrr]

theorem updateTask_missing
    (hfind : s.firstOrDefault (fun e => e.uid == IScheduledTaskItem.uid item) = none) :
    updateTask clock item s = .ok () s.tick := by
  have hfind' : s.tick.firstOrDefault (fun e => e.uid == IScheduledTaskItem.uid item) = none :=
    hfind
  unfold updateTask
  rw [bind_ok (utcNow_apply clock s), bind_ok (get_apply _)]
  simp only [hfind']
  rfl

/-- The item is written before the schedule text is read and the next occurrence is computed. -/
theorem updateTask_found {r : Ref} {t : ScheduledTask T}
    (hfind : s.firstOrDefault (fun e => e.uid == IScheduledTaskItem.uid item) = some (r, t)) :
    updateTask clock item s =
      let s' : SchedulerRepository T :=
        ⟨s.heap.write r { t with task := item }, s.scheduledTasks, s.clockReads + 1⟩
      if (IScheduledTaskItem.schedule item).isNone then .error .nullReferenceException s'
      else match t.schedule.getNextOccurrenceFrom (clock.reading s.clockReads) with
        | .ok _ => .ok () s'
        | .error e => .error e s' := by
  obtain ⟨hr, hread⟩ := mem_of_firstOrDefault hfind
  obtain ⟨i, hi, hget⟩ := idxOf?_of_mem hr
  have hfind' : s.tick.firstOrDefault (fun e => e.uid == IScheduledTaskItem.uid item) =
      some (r, t) := hfind
  have hi' : s.tick.scheduledTasks.idxOf? r = some i := hi
  have hset : s.tick.setTaskAt i item =
      ⟨s.heap.write r { t with task := item }, s.scheduledTasks, s.clockReads + 1⟩ := by
    unfold setTaskAt tick
    simp only [hget, hread]
  unfold updateTask
  rw [bind_ok (utcNow_apply clock s), bind_ok (get_apply _)]
  simp only [hfind', hi']
  rw [bind_ok (modify_apply _ _), hset]
  cases htext : (IScheduledTaskItem.schedule item).isNone with
  | true => rfl
  | false =>
    cases t.schedule.getNextOccurrenceFrom (clock.reading s.clockReads) with
    | ok next => rfl
    | error e => rfl

/-- The log call fails when the task already carries the item. -/
theorem updateTask_throws_iff {r : Ref} {t : ScheduledTask T}
    (hfind : s.firstOrDefault (fun e => e.uid == IScheduledTaskItem.uid item) = some (r, t)) :
    (∃ e s', updateTask clock item s = .error e s') ↔
      (IScheduledTaskItem.schedule item = none ∨
        Exhausted t.schedule (clock.reading s.clockReads)) := by
  rw [updateTask_found hfind]
  cases htext : IScheduledTaskItem.schedule item with
  | none => simp
  | some text =>
    cases hnext : t.schedule.getNextOccurrenceFrom (clock.reading s.clockReads) with
    | ok next =>
      have hsome : ¬ Exhausted t.schedule (clock.reading s.clockReads) := by
        intro hnone
        obtain ⟨e, he⟩ := error_of_exhausted hnone
        cases hnext.symm.trans he
      simp [hsome]
    | error e => simp [exhausted_of_error hnext]

theorem updateTask_error {r : Ref} {t : ScheduledTask T}
    (hfind : s.firstOrDefault (fun e => e.uid == IScheduledTaskItem.uid item) = some (r, t))
    (h : updateTask clock item s = .error e s') :
    s' = ⟨s.heap.write r { t with task := item }, s.scheduledTasks, s.clockReads + 1⟩ := by
  rw [updateTask_found hfind] at h
  cases htext : (IScheduledTaskItem.schedule item).isNone with
  | true =>
    rw [htext] at h
    cases h
    rfl
  | false =>
    rw [htext] at h
    cases hnext : t.schedule.getNextOccurrenceFrom (clock.reading s.clockReads) with
    | ok next =>
      rw [hnext] at h
      cases h
    | error e' =>
      rw [hnext] at h
      cases h
      rfl

/-! ### `Increment` -/

omit [IScheduledTaskItem T] in
theorem incrementAt_eq {r : Ref} {t : ScheduledTask T} (hread : s.heap.read r = some t) :
    incrementAt r s =
      match t.schedule.getNextOccurrenceFrom t.nextRunTime with
      | .ok next => .ok () { s with
          heap := s.heap.write r { t with lastRunTime := t.nextRunTime, nextRunTime := next } }
      | .error e => .error e { s with
          heap := s.heap.write r { t with lastRunTime := t.nextRunTime } } := by
  unfold incrementAt
  simp only [hread, ScheduledTask.increment_spec]
  cases t.schedule.getNextOccurrenceFrom t.nextRunTime with
  | ok next => rfl
  | error e => rfl

/-! ## Exception safety -/

theorem add_safe_iff : ExceptionSafe comparer clock (.add item) s ↔
    ¬ ExhaustedItem comparer item (clock.reading s.clockReads) := by
  constructor
  · intro hsafe hitem
    obtain ⟨e, t, hthrow⟩ := add_fails hitem
    exact not_unchanged_append t (hsafe e _ hthrow)
  · intro hitem e s' hthrow
    rcases add_error hthrow with rfl | hbad
    · exact unchanged_tick
    · exact absurd hbad hitem

theorem updateSchedulerRepository_safe_iff :
    ExceptionSafe comparer clock (.updateSchedulerRepository item) s ↔
      ¬ ((∃ r t, s.firstOrDefault (fun e => e.uid == IScheduledTaskItem.uid item) = some (r, t)) ∧
        ExhaustedItem comparer item (clock.reading (s.clockReads + 1))) := by
  constructor
  · rintro hsafe ⟨⟨r, t, hfind⟩, hitem⟩
    obtain ⟨e, i, t', hget, hthrow⟩ := updateSchedulerRepository_fails hfind hitem
    exact not_unchanged_replaceAt (mem_of_firstOrDefault hfind).2 hget (hsafe e _ hthrow)
  · intro hitem e s' hthrow
    rcases updateSchedulerRepository_error hthrow with rfl | hbad
    · exact unchanged_ticks
    · exact absurd hbad hitem

theorem updateTask_safe_iff : ExceptionSafe comparer clock (.updateTask item) s ↔
    ¬ ∃ r t, s.firstOrDefault (fun e => e.uid == IScheduledTaskItem.uid item) = some (r, t) ∧
      t.task ≠ item ∧ (IScheduledTaskItem.schedule item = none ∨
        Exhausted t.schedule (clock.reading s.clockReads)) := by
  constructor
  · rintro hsafe ⟨r, t, hfind, hne, hthrows⟩
    obtain ⟨e, s', hthrow⟩ := (updateTask_throws_iff hfind).2 hthrows
    have hunchanged := hsafe e s' hthrow
    rw [updateTask_error hfind hthrow] at hunchanged
    have htask := (unchanged_write_iff (mem_of_firstOrDefault hfind).2).1 hunchanged
    exact hne (congrArg ScheduledTask.task htask).symm
  · intro hbad e s' hthrow
    cases hfind : s.firstOrDefault (fun e => e.uid == IScheduledTaskItem.uid item) with
    | none => cases (updateTask_missing hfind).symm.trans hthrow
    | some found =>
      obtain ⟨r, t⟩ := found
      have hthrows := (updateTask_throws_iff hfind).1 ⟨e, s', hthrow⟩
      have htask : t.task = item := by
        by_contra hne
        exact hbad ⟨r, t, hfind, hne, hthrows⟩
      rw [updateTask_error hfind hthrow]
      exact (unchanged_write_iff (mem_of_firstOrDefault hfind).2).2 (by rw [← htask])

theorem increment_safe_iff {r : Ref} : ExceptionSafe comparer clock (.increment r) s ↔
    ¬ ∃ t, s.heap.read r = some t ∧ t.lastRunTime ≠ t.nextRunTime ∧
      Exhausted t.schedule t.nextRunTime := by
  constructor
  · rintro hsafe ⟨t, hread, hne, hnone⟩
    obtain ⟨e, hnext⟩ := error_of_exhausted hnone
    have hthrow := incrementAt_eq hread
    rw [hnext] at hthrow
    have hlast := (unchanged_write_iff hread).1 (hsafe e _ hthrow)
    exact hne (congrArg ScheduledTask.lastRunTime hlast).symm
  · intro hbad e s' hthrow
    cases hread : s.heap.read r with
    | none =>
      have hreturns : incrementAt r s = .ok () s := by
        unfold incrementAt
        simp only [hread]
      cases hreturns.symm.trans hthrow
    | some t =>
      have hresult := incrementAt_eq hread
      cases hnext : t.schedule.getNextOccurrenceFrom t.nextRunTime with
      | ok next =>
        rw [hnext] at hresult
        cases hresult.symm.trans hthrow
      | error e' =>
        rw [hnext] at hresult
        cases hresult.symm.trans hthrow
        have hlast : t.lastRunTime = t.nextRunTime := by
          by_contra hne
          exact hbad ⟨t, hread, hne, exhausted_of_error hnext⟩
        have hsame := congrArg (fun time => { t with lastRunTime := time }) hlast.symm
        exact (unchanged_write_iff hread).2 hsame

/-- **A call that throws leaves the list and the tasks as they were** iff it is not one that writes
first and then finds no next occurrence, or no schedule text to show. -/
theorem exceptionSafe_iff (comparer : CompareInfo) (clock : Clock) (s : SchedulerRepository T)
    (call : Call T) :
    ExceptionSafe comparer clock call s ↔ ¬ FailsAfterWrite comparer clock s call := by
  cases call with
  | add item => exact add_safe_iff
  | updateSchedulerRepository item => exact updateSchedulerRepository_safe_iff
  | updateTask item => exact updateTask_safe_iff
  | increment r => exact increment_safe_iff

/-- A check on 30 February, which never exists. -/
def february30 : HealthCheckResourceV1 := ⟨"uid", "name", "namespace", some "0 0 30 2 *"⟩

/-- Added to an empty list, the check is there although the call throws. -/
theorem not_exceptionSafe_february30 :
    (∃ e t, add .ascii (stoppedClock (DateTime.utcDate 2022 1 1).moment) february30 .empty =
      .error e (SchedulerRepository.empty.tick.append t)) ∧
    ¬ ExceptionSafe .ascii (stoppedClock (DateTime.utcDate 2022 1 1).moment) (.add february30)
      .empty := by
  obtain ⟨schedule, hparse, hmonth, hday⟩ := CrontabSchedule.parse_february30
  have hnone : ∀ time, Exhausted schedule time := by
    rintro time ⟨t, ht, -⟩
    have hmissing := CrontabSchedule.no_february30 (hmonth _ ht.month) (hday _ ht.day) t.year
    exact absurd t.date_valid.day_le (not_le.2 hmissing)
  have hitem : ExhaustedItem .ascii february30
      ((stoppedClock (DateTime.utcDate 2022 1 1).moment).reading 0) := ⟨schedule, hparse, hnone _⟩
  exact ⟨add_fails hitem, fun hsafe => add_safe_iff.1 hsafe hitem⟩

end Sentinel.SchedulerRepository
