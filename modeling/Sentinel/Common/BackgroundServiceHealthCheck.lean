import Sentinel.Common.BackgroundServiceWithHealthCheck
import Sentinel.DotNet.DateTime

/-!
# `BackgroundServiceHealthCheck` with the time of the last report

A probe that has not heard of the service for over an hour reports it as degraded itself, and so
overwrites what the next probe reads.

* `checkHealthAsync_status` — a probe answers what `answer` says of the state before it.
* `answer_probed` — a probe leaves the answers of later probes as they are.
* `status_of_probe` — after any sequence of calls the answer is that of the last report, or
  degraded if there was none within the hour.
-/

set_option autoImplicit false

namespace Sentinel

open Gregorian

def ticksPerHour : ℤ := 60 * ticksPerMinute

/-- A reading of `DateTime.UtcNow` in ticks: no system clock shows the first hour of the year 1. -/
structure SystemTime where
  ticks : ℤ
  lower : ticksPerHour ≤ ticks
  upper : ticks ≤ maxTicks

/-- `DateTime.AddHours` on ticks. -/
def addHours (ticks hours : ℤ) : Except Exn ℤ :=
  let result := ticks + hours * ticksPerHour
  if 0 ≤ result ∧ result ≤ maxTicks then .ok result else .error .argumentOutOfRangeException

theorem SystemTime.addHours_neg_one (now : SystemTime) :
    addHours now.ticks (-1) = .ok (now.ticks - ticksPerHour) := by
  have hlower := now.lower
  have hupper := now.upper
  have hhour : (0 : ℤ) ≤ ticksPerHour := by decide
  unfold addHours
  simp only
  rw [if_pos (by omega)]
  exact congrArg Except.ok (by ring)

/-- The entries of `data` are the last ones. -/
structure HealthCheckResult where
  status : HealthStatus
  description : Option String
  lastProcess : ℤ
  timeAgo : ℤ
  count : String

namespace BackgroundServiceHealthCheck

def reportDegraded (message : String) (check : BackgroundServiceHealthCheck) :
    BackgroundServiceHealthCheck :=
  ⟨.degraded, some message, toInt32 (check.count + 1)⟩

/-- With `LastProcessUtc`, in ticks; 0 is `DateTime.MinValue`. -/
structure Timed extends BackgroundServiceHealthCheck where
  lastProcessUtc : ℤ

namespace Timed

def new : Timed := ⟨.new, 0⟩

def reportHealthy (message : String) (now : SystemTime) (check : Timed) : Timed :=
  ⟨check.toBackgroundServiceHealthCheck.reportHealthy message, now.ticks⟩

def reportUnhealthy (message : String) (now : SystemTime) (check : Timed) : Timed :=
  ⟨check.toBackgroundServiceHealthCheck.reportUnhealthy message, now.ticks⟩

def reportDegraded (message : String) (now : SystemTime) (check : Timed) : Timed :=
  ⟨check.toBackgroundServiceHealthCheck.reportDegraded message, now.ticks⟩

/-- `LastProcessUtc == DateTime.MinValue || DateTime.UtcNow.AddHours(-1) > LastProcessUtc`. -/
def notHeard (now : SystemTime) (check : Timed) : Except Exn Bool :=
  if check.lastProcessUtc = 0 then .ok true
  else
    match addHours now.ticks (-1) with
    | .error e => .error e
    | .ok limit => .ok (limit > check.lastProcessUtc)

/-- The three readings of the clock are the one of the condition, the one of `ReportDegraded` and
the one of `timeAgo`. -/
def checkHealthAsync (first second third : SystemTime) (check : Timed) :
    Except Exn (HealthCheckResult × Timed) :=
  match check.notHeard first with
  | .error e => .error e
  | .ok stale =>
    let check := if stale then
        check.reportDegraded "Just started or havent heard over an hour" second
      else check
    .ok (⟨check.status, check.message, check.lastProcessUtc,
      third.ticks - check.lastProcessUtc, toString check.count⟩, check)

/-! ## Sequences of calls -/

inductive Event where
  | reportHealthy (message : String) (now : SystemTime)
  | reportUnhealthy (message : String) (now : SystemTime)
  | reportDegraded (message : String) (now : SystemTime)
  | checkHealth (first second third : SystemTime)

def step (check : Timed) : Event → Except Exn Timed
  | .reportHealthy message now => .ok (check.reportHealthy message now)
  | .reportUnhealthy message now => .ok (check.reportUnhealthy message now)
  | .reportDegraded message now => .ok (check.reportDegraded message now)
  | .checkHealth first second third =>
    match check.checkHealthAsync first second third with
    | .error e => .error e
    | .ok (_, check) => .ok check

def after (events : List Event) : Except Exn Timed := events.foldlM step new

def Event.readings : Event → List SystemTime
  | .reportHealthy _ now => [now]
  | .reportUnhealthy _ now => [now]
  | .reportDegraded _ now => [now]
  | .checkHealth first second third => [first, second, third]

/-- The clock never goes back. -/
def InOrder (events : List Event) : Prop :=
  (events.flatMap Event.readings).Pairwise fun earlier later => earlier.ticks ≤ later.ticks

def Event.report : Event → Option (HealthStatus × SystemTime)
  | .reportHealthy _ now => some (.healthy, now)
  | .reportUnhealthy _ now => some (.unhealthy, now)
  | .reportDegraded _ now => some (.degraded, now)
  | .checkHealth _ _ _ => none

/-- What the service has reported, and when. -/
def reports (events : List Event) : List (HealthStatus × SystemTime) :=
  events.filterMap Event.report

/-- The last status reported, degraded if there is none or it is older than an hour. -/
def lastStatus (reports : List (HealthStatus × SystemTime)) (now : SystemTime) : HealthStatus :=
  match reports.getLast? with
  | none => .degraded
  | some (status, time) => if ticksPerHour < now.ticks - time.ticks then .degraded else status

/-! ## Probes -/

/-- The last report is over an hour old, or there is none. -/
def Stale (check : Timed) (now : SystemTime) : Prop :=
  check.lastProcessUtc = 0 ∨ ticksPerHour < now.ticks - check.lastProcessUtc

instance (check : Timed) (now : SystemTime) : Decidable (check.Stale now) :=
  inferInstanceAs (Decidable (_ ∨ _))

/-- The status that a probe at this time returns. -/
def answer (check : Timed) (now : SystemTime) : HealthStatus :=
  if check.Stale now then .degraded else check.status

/-- What a probe leaves behind. -/
def probed (first second : SystemTime) (check : Timed) : Timed :=
  if check.Stale first then
    check.reportDegraded "Just started or havent heard over an hour" second
  else check

variable {check : Timed} {now first second third : SystemTime} {before events : List Event}

theorem notHeard_eq (now : SystemTime) (check : Timed) :
    check.notHeard now = .ok (decide (check.Stale now)) := by
  unfold notHeard Stale
  by_cases hnew : check.lastProcessUtc = 0
  · simp [hnew]
  · rw [if_neg hnew, now.addHours_neg_one]
    simp only [hnew, false_or, Except.ok.injEq, decide_eq_decide]
    omega

/-- **A probe returns**, and answers what the state before it says. -/
theorem checkHealthAsync_status (first second third : SystemTime) (check : Timed) :
    ∃ result, check.checkHealthAsync first second third = .ok (result, check.probed first second) ∧
      result.status = check.answer first := by
  unfold checkHealthAsync answer probed
  rw [notHeard_eq]
  by_cases hstale : check.Stale first
  · simp only [hstale, decide_true, if_true]
    exact ⟨_, rfl, rfl⟩
  · simp only [hstale, decide_false, if_false]
    exact ⟨_, rfl, rfl⟩

/-- **A probe does not change what later probes answer**: it makes a stale service degraded, and
that was the answer already. -/
theorem answer_probed (hle : first.ticks ≤ now.ticks) :
    (check.probed first second).answer now = check.answer now := by
  unfold probed
  by_cases hstale : check.Stale first
  · have hlater : check.Stale now := by
      unfold Stale at *
      omega
    rw [if_pos hstale]
    unfold answer
    rw [if_pos hlater]
    exact ite_self _
  · rw [if_neg hstale]

/-- A report decides what later probes answer. -/
theorem answer_reported (status : BackgroundServiceHealthCheck) (time now : SystemTime) :
    answer ⟨status, time.ticks⟩ now =
      if ticksPerHour < now.ticks - time.ticks then .degraded else status.status := by
  have hnew : time.ticks ≠ 0 := by
    have hlower := time.lower
    have hhour : (0 : ℤ) < ticksPerHour := by decide
    omega
  unfold answer Stale
  simp only [hnew, false_or]

/-! ## Whole sequences -/

theorem reports_snoc (events : List Event) (e : Event) :
    reports (events ++ [e]) = reports events ++ e.report.toList := by
  unfold reports
  rw [List.filterMap_append]
  cases e <;> rfl

theorem lastStatus_snoc (rs : List (HealthStatus × SystemTime)) (status : HealthStatus)
    (time now : SystemTime) : lastStatus (rs ++ [(status, time)]) now =
      if ticksPerHour < now.ticks - time.ticks then .degraded else status := by
  unfold lastStatus
  rw [List.getLast?_append, List.getLast?_singleton]
  rfl

/-- The state after a sequence of calls answers what the last report says. -/
theorem answer_after (hprobes : ∀ e ∈ events, ∀ time ∈ e.readings, time.ticks ≤ now.ticks) :
    ∃ check, after events = .ok check ∧ check.answer now = lastStatus (reports events) now := by
  induction events using List.reverseRecOn with
  | nil => exact ⟨new, rfl, rfl⟩
  | append_singleton events e ih =>
    rw [List.forall_mem_append, List.forall_mem_singleton] at hprobes
    obtain ⟨check, hafter, hanswer⟩ := ih hprobes.1
    have hstep : after (events ++ [e]) = step check e := by
      unfold after at *
      rw [List.foldlM_append, hafter]
      show List.foldlM step check [e] = step check e
      simp only [List.foldlM_cons, List.foldlM_nil, bind_pure]
    rw [hstep, reports_snoc]
    cases e with
    | reportHealthy message time =>
      exact ⟨_, rfl, (answer_reported _ _ _).trans (lastStatus_snoc _ _ _ _).symm⟩
    | reportUnhealthy message time =>
      exact ⟨_, rfl, (answer_reported _ _ _).trans (lastStatus_snoc _ _ _ _).symm⟩
    | reportDegraded message time =>
      exact ⟨_, rfl, (answer_reported _ _ _).trans (lastStatus_snoc _ _ _ _).symm⟩
    | checkHealth first second third =>
      obtain ⟨result, hprobe, -⟩ := check.checkHealthAsync_status first second third
      refine ⟨check.probed first second, ?_, ?_⟩
      · simp only [step, hprobe]
      · rw [answer_probed (hprobes.2 first List.mem_cons_self), hanswer]
        exact congrArg (lastStatus · now) (List.append_nil _).symm

/-- **A probe returns the status of the last report, or degraded if there was none in the hour
before**, however many probes have been made, and when. -/
theorem status_of_probe (h : InOrder (before ++ [.checkHealth first second third])) :
    ∃ check result check', after before = .ok check ∧
      check.checkHealthAsync first second third = .ok (result, check') ∧
      result.status = lastStatus (reports before) first := by
  have hprobes : ∀ e ∈ before, ∀ time ∈ e.readings, time.ticks ≤ first.ticks := by
    intro e he time htime
    unfold InOrder at h
    rw [List.flatMap_append, List.pairwise_append] at h
    exact h.2.2 time (List.mem_flatMap.2 ⟨e, he, htime⟩) first (by simp [Event.readings])
  obtain ⟨check, hafter, hanswer⟩ := answer_after hprobes
  obtain ⟨result, hprobe, hstatus⟩ := check.checkHealthAsync_status first second third
  exact ⟨check, result, _, hafter, hprobe, hstatus.trans hanswer⟩

/-! ## An example -/

/-- Midnight on 1 January 2022. -/
def midnight2022 : ℤ := 637765920000000000

theorem minuteOf2022_bounds (minutes : Fin 1440) :
    ticksPerHour ≤ midnight2022 + minutes * ticksPerMinute ∧
      midnight2022 + minutes * ticksPerMinute ≤ maxTicks := by
  have hlt := minutes.isLt
  unfold ticksPerHour ticksPerMinute midnight2022 maxTicks
  omega

/-- That many minutes after the start of the year 2022. -/
def minuteOf2022 (minutes : Fin 1440) : SystemTime :=
  ⟨_, (minuteOf2022_bounds minutes).1, (minuteOf2022_bounds minutes).2⟩

/-- A service that is silent for two hours, probed twice in this time, and then reports again. -/
def silentForTwoHours : List Event :=
  [.reportUnhealthy "no messages" (minuteOf2022 0),
    .checkHealth (minuteOf2022 61) (minuteOf2022 61) (minuteOf2022 62),
    .checkHealth (minuteOf2022 70) (minuteOf2022 70) (minuteOf2022 70),
    .reportHealthy "" (minuteOf2022 120)]

theorem status_of_probe_silent : ∃ check result check',
    after silentForTwoHours = .ok check ∧
    check.checkHealthAsync (minuteOf2022 180) (minuteOf2022 180) (minuteOf2022 180) =
      .ok (result, check') ∧ result.status = .healthy := by
  have horder : InOrder (silentForTwoHours ++
      [.checkHealth (minuteOf2022 180) (minuteOf2022 180) (minuteOf2022 180)]) := by
    unfold InOrder
    decide +kernel
  obtain ⟨check, result, check', hafter, hprobe, hstatus⟩ := status_of_probe horder
  exact ⟨check, result, check', hafter, hprobe, hstatus.trans (by decide +kernel)⟩

end Timed

end BackgroundServiceHealthCheck

end Sentinel
