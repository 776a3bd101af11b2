import Sentinel.Cron.StoppingPoint
import Sentinel.Lib.Throwing

/-!
# `ScheduledTask`

A task keeps the item it was made from, the parsed schedule and two run times.  `ShouldRun`
compares local wall-clock times, the task stores UTC instants.

* `increment_spec` — what `Increment` leaves behind, whether it returns or throws.
* `Reachable.next_utc` — the next run time of a task built with a UTC time stays UTC.
* `shouldRun_exact_iff` — which clock changes let `ShouldRun` decide as the stored instants do.
* `never_runs_of_merged` — two consecutive run times with one wall-clock reading stop a task for
  good.
-/

set_option autoImplicit false

namespace Sentinel

open Gregorian Throwing

/-- The members of `IScheduledTaskItem` the scheduler reads. -/
class IScheduledTaskItem (T : Type) where
  uid : T → String
  key : T → String
  schedule : T → Option String

/-- The members of a health check resource that make it a scheduled item. -/
structure HealthCheckResourceV1 where
  uid : String
  name : String
  nameSpace : String
  schedule : Option String

instance : IScheduledTaskItem HealthCheckResourceV1 where
  uid := HealthCheckResourceV1.uid
  key item := item.name ++ "." ++ item.nameSpace
  schedule := HealthCheckResourceV1.schedule

structure ScheduledTask (T : Type) where
  uid : String
  schedule : CrontabSchedule
  task : T
  lastRunTime : DateTime
  nextRunTime : DateTime

namespace ScheduledTask

variable {T : Type}

/-- The constructor, with the reference time given. -/
def new [IScheduledTaskItem T] (comparer : CompareInfo) (task : T) (referenceTime : DateTime) :
    Except Exn (ScheduledTask T) :=
  match CrontabSchedule.parse comparer (IScheduledTaskItem.schedule task) with
  | .error e => .error e
  | .ok parsed => .ok ⟨IScheduledTaskItem.uid task, parsed, task, .minValue, referenceTime⟩

/-- `Increment`: the last run time is set before the next one is computed. -/
def increment : EStateM Exn (ScheduledTask T) Unit := do
  modify fun t => { t with lastRunTime := t.nextRunTime }
  let t ← get
  let next ← ofExcept (t.schedule.getNextOccurrenceFrom t.nextRunTime)
  modify fun t => { t with nextRunTime := next }

def shouldRun (machine : MachineZone) (currentTime : DateTime) (timeZone : TimeZoneInfo)
    (t : ScheduledTask T) : Bool :=
  let localNextRunTime := timeZone.convertTime machine t.nextRunTime
  let localCurrentTime := timeZone.convertTime machine currentTime
  let localLastRunTime := timeZone.convertTime machine t.lastRunTime
  localNextRunTime < localCurrentTime && localLastRunTime != localNextRunTime

/-! ## Increment -/

theorem increment_spec (t : ScheduledTask T) : increment t =
    match t.schedule.getNextOccurrenceFrom t.nextRunTime with
    | .ok next => .ok () { t with lastRunTime := t.nextRunTime, nextRunTime := next }
    | .error e => .error e { t with lastRunTime := t.nextRunTime } := by
  simp only [increment, bind_apply, modify_apply, get_apply]
  cases t.schedule.getNextOccurrenceFrom t.nextRunTime with
  | ok next => rfl
  | error e => rfl

/-- `Increment` changes the two run times only. -/
theorem increment_keeps (t : ScheduledTask T) :
    (finalState (increment t)).uid = t.uid ∧ (finalState (increment t)).schedule = t.schedule ∧
      (finalState (increment t)).task = t.task := by
  rw [increment_spec]
  split <;> exact ⟨rfl, rfl, rfl⟩

theorem new_spec [IScheduledTaskItem T] {comparer : CompareInfo} {task : T}
    {referenceTime : DateTime} {t : ScheduledTask T} (h : new comparer task referenceTime = .ok t) :
    t.uid = IScheduledTaskItem.uid task ∧ t.task = task ∧ t.lastRunTime = .minValue ∧
      t.nextRunTime = referenceTime ∧
      CrontabSchedule.parse comparer (IScheduledTaskItem.schedule task) = .ok t.schedule := by
  unfold new at h
  split at h
  · cases h
  · rename_i parsed hparse
    cases h
    exact ⟨rfl, rfl, rfl, rfl, hparse⟩

/-! ## Reachable tasks -/

/-- Built with a UTC reference time and incremented any number of times; an `Increment` that
throws leaves a task behind as well. -/
inductive Reachable [IScheduledTaskItem T] (comparer : CompareInfo) : ScheduledTask T → Prop
  | new {task : T} {referenceTime : DateTime} {t : ScheduledTask T} :
      referenceTime.kind = .utc → ScheduledTask.new comparer task referenceTime = .ok t →
      Reachable comparer t
  | increment {t : ScheduledTask T} : Reachable comparer t →
      Reachable comparer (finalState (increment t))

theorem Reachable.next_utc [IScheduledTaskItem T] {comparer : CompareInfo} {t : ScheduledTask T}
    (h : Reachable comparer t) : t.nextRunTime.kind = .utc := by
  induction h with
  | new hkind hnew =>
    rw [(new_spec hnew).2.2.2.1]
    exact hkind
  | @increment t _ ih =>
    rw [increment_spec]
    split
    · rename_i next hnext
      exact (CrontabSchedule.getNextOccurrenceFrom_spec hnext).2.trans ih
    · exact ih

/-! ## The decision on wall-clock times -/

section ShouldRun

variable {machine : MachineZone} {zone : TimeZoneInfo} {now : DateTime} {t : ScheduledTask T}

theorem shouldRun_iff : t.shouldRun machine now zone = true ↔
    zone.fromUtc (t.nextRunTime.utcTicks machine) < zone.fromUtc (now.utcTicks machine) ∧
      zone.fromUtc (t.lastRunTime.utcTicks machine) ≠
        zone.fromUtc (t.nextRunTime.utcTicks machine) := by
  unfold shouldRun TimeZoneInfo.convertTime
  rw [Bool.and_eq_true, decide_eq_true_iff, bne_iff_ne]

/-- **Two run times with one wall-clock reading stop the task for good.** -/
theorem never_runs_of_merged (hmerged : zone.fromUtc (t.lastRunTime.utcTicks machine) =
    zone.fromUtc (t.nextRunTime.utcTicks machine)) (later : DateTime) :
    t.shouldRun machine later zone = false := by
  rw [← Bool.not_eq_true, shouldRun_iff]
  exact fun h => h.2 hmerged

end ShouldRun

/-! ## A clock set back by an hour -/

/-- A zone eleven hours ahead of UTC until an instant and ten hours ahead from then on. -/
def backwardChange (instant : Moment) : TimeZoneInfo :=
  ⟨fun ticks => (if ticks < instant.ticks then 11 else 10) * 60 * ticksPerMinute⟩

/-- A check at half past every hour, first due at 15:30 UTC on the night the clock goes back at
16:00 UTC. -/
def nightCheck : HealthCheckResourceV1 := ⟨"uid", "name", "namespace", some "30 * * * *"⟩

def nightStart : DateTime := .utcTime 2022 4 2 15 30

def clockChange : DateTime := .utcTime 2022 4 2 16 0

def nextMorning : DateTime := .utcDate 2022 4 3

/-! ## When wall-clock times decide as instants do -/

section Exact

variable {T : Type} {now : DateTime} {t : ScheduledTask T}

/-- No clock change keeps a task that is due from running: the clock is not set back past the next
run time, and not by the time between the two run times. -/
structure LetsRun (zone : TimeZoneInfo) (last next now : ℤ) : Prop where
  goesOn : zone.GoesOn next now
  apart : ¬ zone.Repeats last next

/-- No clock change lets a task run that is not due: the clock is not set back past the present
before the next run time, or just by the time between the two run times. -/
def KeepsWaiting (zone : TimeZoneInfo) (last next now : ℤ) : Prop :=
  ¬ zone.Reverses now next ∨ zone.Repeats last next

/-- **`ShouldRun` decides as the stored instants do** iff the task has just run, or the task is due
and no clock change keeps it from running, or it is not due and no clock change lets it run. -/
theorem shouldRun_exact_iff [IScheduledTaskItem T] {comparer : CompareInfo}
    (ht : Reachable comparer t) (hnow : now.kind = .utc) (machine : MachineZone)
    (zone : TimeZoneInfo) :
    (t.shouldRun machine now zone = true ↔
      t.nextRunTime.moment < now.moment ∧
        t.lastRunTime.utcTicks machine ≠ t.nextRunTime.moment.ticks) ↔
    t.lastRunTime.utcTicks machine = t.nextRunTime.moment.ticks ∨
    (t.nextRunTime.moment < now.moment ∧
      LetsRun zone (t.lastRunTime.utcTicks machine) t.nextRunTime.moment.ticks now.moment.ticks) ∨
    (now.moment ≤ t.nextRunTime.moment ∧
      KeepsWaiting zone (t.lastRunTime.utcTicks machine) t.nextRunTime.moment.ticks
        now.moment.ticks) := by
  have hnext : t.nextRunTime.utcTicks machine = t.nextRunTime.moment.ticks := by
    simp [DateTime.utcTicks, ht.next_utc]
  have hcurrent : now.utcTicks machine = now.moment.ticks := by
    simp [DateTime.utcTicks, hnow]
  rw [shouldRun_iff, hnext, hcurrent, TimeZoneInfo.fromUtc_lt_iff, ne_eq,
    TimeZoneInfo.fromUtc_eq_iff]
  by_cases hran : t.lastRunTime.utcTicks machine = t.nextRunTime.moment.ticks
  · -- equal instants have equal readings: neither side asks for a run
    have hrepeats : zone.Repeats t.nextRunTime.moment.ticks t.nextRunTime.moment.ticks :=
      TimeZoneInfo.fromUtc_eq_iff.1 rfl
    simp [hran, hrepeats]
  · rcases lt_or_ge t.nextRunTime.moment now.moment with hdue | hwaits
    · have hruns : LetsRun zone (t.lastRunTime.utcTicks machine) t.nextRunTime.moment.ticks
          now.moment.ticks ↔ zone.GoesOn t.nextRunTime.moment.ticks now.moment.ticks ∧
            ¬ zone.Repeats (t.lastRunTime.utcTicks machine) t.nextRunTime.moment.ticks :=
        ⟨fun h => ⟨h.1, h.2⟩, fun h => ⟨h.1, h.2⟩⟩
      simp only [hdue, hran, hdue.not_ge, hruns, ne_eq, not_false_eq_true, and_self, iff_true,
        true_and, false_and, false_or, or_false]
    · simp only [hwaits, hran, hwaits.not_gt, KeepsWaiting, TimeZoneInfo.reverses_iff, true_and,
        false_and, false_or, iff_false, not_and, not_not]
      exact imp_iff_not_or

/-- The check has run once on the day before; the offset has not changed since. -/
theorem shouldRun_exact_iff_dayBefore : ∃ t : ScheduledTask HealthCheckResourceV1,
    Reachable .ascii t ∧ t.lastRunTime.moment ≠ t.nextRunTime.moment ∧
      t.shouldRun ⟨fun _ => 0⟩ nightStart (backwardChange clockChange.moment) = true := by
  have hrun : okAnd (new .ascii nightCheck (.utcDate 2022 4 1)) (fun t =>
      decide ((finalState (increment t)).lastRunTime.moment ≠
          (finalState (increment t)).nextRunTime.moment ∧
        (finalState (increment t)).nextRunTime.moment < nightStart.moment ∧
        (finalState (increment t)).lastRunTime.utcTicks ⟨fun _ => 0⟩ ≠
          (finalState (increment t)).nextRunTime.moment.ticks ∧
        (backwardChange clockChange.moment).fromUtc
            ((finalState (increment t)).lastRunTime.utcTicks ⟨fun _ => 0⟩) ≠
          (backwardChange clockChange.moment).fromUtc
            (finalState (increment t)).nextRunTime.moment.ticks ∧
        (backwardChange clockChange.moment).fromUtc
            (finalState (increment t)).nextRunTime.moment.ticks <
          (backwardChange clockChange.moment).fromUtc nightStart.moment.ticks)) = true := by
    decide +kernel
  obtain ⟨t, ht, hrun⟩ := exists_of_okAnd hrun
  obtain ⟨hmoments, hdue, hnew, hapart, horder⟩ := of_decide_eq_true hrun
  have hlets : LetsRun (backwardChange clockChange.moment)
      ((finalState (increment t)).lastRunTime.utcTicks ⟨fun _ => 0⟩)
      (finalState (increment t)).nextRunTime.moment.ticks nightStart.moment.ticks :=
    ⟨TimeZoneInfo.fromUtc_lt_iff.1 horder, mt TimeZoneInfo.fromUtc_eq_iff.2 hapart⟩
  have hexact := (shouldRun_exact_iff (Reachable.new rfl ht).increment rfl ⟨fun _ => 0⟩
    (backwardChange clockChange.moment)).2 (Or.inr (Or.inl ⟨hdue, hlets⟩))
  exact ⟨_, (Reachable.new rfl ht).increment, hmoments, hexact.2 ⟨hdue, hnew⟩⟩

end Exact

/-- After its first run the check is due again at 16:30 UTC, which the clock shows as 2:30 like
the run before: it is due the next morning and never runs again. -/
theorem shouldRun_stuck_after_clockChange : ∃ t : ScheduledTask HealthCheckResourceV1,
    Reachable .ascii t ∧
    (t.nextRunTime.moment < nextMorning.moment ∧
      t.lastRunTime.utcTicks ⟨fun _ => 0⟩ ≠ t.nextRunTime.moment.ticks) ∧
    ∀ later, t.shouldRun ⟨fun _ => 0⟩ later (backwardChange clockChange.moment) = false := by
  have hrun : okAnd (new .ascii nightCheck nightStart) (fun t =>
      decide ((finalState (increment t)).nextRunTime.moment < nextMorning.moment ∧
        (finalState (increment t)).lastRunTime.utcTicks ⟨fun _ => 0⟩ ≠
          (finalState (increment t)).nextRunTime.moment.ticks ∧
        (backwardChange clockChange.moment).fromUtc
            ((finalState (increment t)).lastRunTime.utcTicks ⟨fun _ => 0⟩) =
          (backwardChange clockChange.moment).fromUtc
            ((finalState (increment t)).nextRunTime.utcTicks ⟨fun _ => 0⟩))) = true := by
    decide +kernel
  obtain ⟨t, ht, hrun⟩ := exists_of_okAnd hrun
  obtain ⟨hdue, hnew, hmerged⟩ := of_decide_eq_true hrun
  exact ⟨_, (Reachable.new rfl ht).increment, ⟨hdue, hnew⟩, never_runs_of_merged hmerged⟩

end ScheduledTask

end Sentinel
