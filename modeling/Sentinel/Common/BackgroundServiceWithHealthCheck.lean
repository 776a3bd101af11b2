import Mathlib.Data.Nat.Notation
import Mathlib.Data.Int.Notation
import Sentinel.DotNet.Base

/-!
# `BackgroundServiceWithHealthCheck`

The health reports of a background service and the callback of its timer, which exists only when
a timeout is set.  The time of the last report is left out.
-/

set_option autoImplicit false

namespace Sentinel

inductive HealthStatus where
  | unhealthy
  | degraded
  | healthy
  deriving DecidableEq, Repr

structure BackgroundServiceHealthCheck where
  status : HealthStatus
  message : Option String
  /-- A 32-bit counter, which wraps. -/
  count : ℤ

namespace BackgroundServiceHealthCheck

def new : BackgroundServiceHealthCheck := ⟨.unhealthy, none, 0⟩

def reportHealthy (message : String) (check : BackgroundServiceHealthCheck) :
    BackgroundServiceHealthCheck :=
  ⟨.healthy, some message, toInt32 (check.count + 1)⟩

def reportUnhealthy (message : String) (check : BackgroundServiceHealthCheck) :
    BackgroundServiceHealthCheck :=
  ⟨.unhealthy, some message, toInt32 (check.count + 1)⟩

end BackgroundServiceHealthCheck

/-- `timeout` is a number of minutes. -/
structure BackgroundServiceWithHealthCheck where
  bgHealthCheck : BackgroundServiceHealthCheck
  timeout : Option ℕ
  isTriggered : Bool

namespace BackgroundServiceWithHealthCheck

def twoDigits (n : ℕ) : String := if n < 10 then "0" ++ toString n else toString n

/-- `ToString(@"dd\.hh\:mm\:ss")` of a number of minutes. -/
def timeoutText (minutes : ℕ) : String :=
  twoDigits (minutes / 1440) ++ "." ++ twoDigits (minutes / 60 % 24) ++ ":" ++
    twoDigits (minutes % 60) ++ ":00"

/-- A positive number of minutes sets the timeout. -/
def setTimeout (minutes : ℤ) (s : BackgroundServiceWithHealthCheck) :
    BackgroundServiceWithHealthCheck :=
  if 0 < minutes then { s with timeout := some minutes.toNat } else s

def reportHealthy (message : String) (s : BackgroundServiceWithHealthCheck) :
    BackgroundServiceWithHealthCheck :=
  { s with bgHealthCheck := s.bgHealthCheck.reportHealthy message }

def reportUnhealthy (message : String) (s : BackgroundServiceWithHealthCheck) :
    BackgroundServiceWithHealthCheck :=
  { s with bgHealthCheck := s.bgHealthCheck.reportUnhealthy message }

def new (appName : String) (heathCheckTimeoutTotalMinutes : ℤ) :
    BackgroundServiceWithHealthCheck :=
  setTimeout heathCheckTimeoutTotalMinutes
    (reportHealthy (appName ++ " initialized") ⟨.new, none, true⟩)

def healthCheckFailIfQueueNotUsed (s : BackgroundServiceWithHealthCheck) :
    BackgroundServiceWithHealthCheck :=
  let reported := match s.isTriggered, s.timeout with
    | false, some timeout => s.reportUnhealthy
      (timeoutText timeout ++ "  have passed without receiving any message from the queue")
    | _, _ => s
  { reported with isTriggered := false }

/-- The timer calls back, if there is one. -/
def tick (s : BackgroundServiceWithHealthCheck) : Option BackgroundServiceWithHealthCheck :=
  s.timeout.map fun _ => s.healthCheckFailIfQueueNotUsed

/-- One more report, of an unhealthy service. -/
def ReportsUnhealthy (s s' : BackgroundServiceWithHealthCheck) : Prop :=
  s'.bgHealthCheck.count = toInt32 (s.bgHealthCheck.count + 1) ∧ s'.bgHealthCheck.status = .unhealthy

variable {s s' : BackgroundServiceWithHealthCheck}

/-- **A tick clears the flag, and reports iff it was clear.** -/
theorem tick_spec (h : s.tick = some s') :
    s'.isTriggered = false ∧ (ReportsUnhealthy s s' ↔ s.isTriggered = false) := by
  unfold tick at h
  obtain ⟨minutes, htimeout, rfl⟩ := Option.map_eq_some_iff.1 h
  refine ⟨rfl, ?_⟩
  unfold healthCheckFailIfQueueNotUsed
  rw [htimeout]
  cases s.isTriggered with
  | true => exact iff_of_false (fun hreport => toInt32_add_one_ne _ hreport.1.symm) (by simp)
  | false => exact iff_of_true ⟨rfl, rfl⟩ rfl

/-- With a timeout set the timer calls back, again and again. -/
theorem exists_tick (h : s.timeout.isSome = true) :
    ∃ s', s.tick = some s' ∧ s'.timeout.isSome = true := by
  obtain ⟨minutes, htimeout⟩ := Option.isSome_iff_exists.1 h
  refine ⟨_, by rw [tick, htimeout]; rfl, ?_⟩
  unfold healthCheckFailIfQueueNotUsed
  rw [htimeout]
  cases s.isTriggered with
  | true => exact h
  | false => exact h

@[simp] theorem isTriggered_reportHealthy (message : String) :
    (s.reportHealthy message).isTriggered = s.isTriggered := rfl

@[simp] theorem isTriggered_setTimeout (minutes : ℤ) :
    (s.setTimeout minutes).isTriggered = s.isTriggered := by
  unfold setTimeout
  split
  · rfl
  · rfl

@[simp] theorem isTriggered_new (appName : String) (minutes : ℤ) :
    (new appName minutes).isTriggered = true := by
  unfold new
  rw [isTriggered_setTimeout]
  rfl

end BackgroundServiceWithHealthCheck

end Sentinel
