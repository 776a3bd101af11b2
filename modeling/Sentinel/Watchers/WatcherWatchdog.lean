import Sentinel.Common.BackgroundServiceWithHealthCheck
import Sentinel.Lib.Watchdog
import Sentinel.Watchers.WatcherBackgroundService

/-!
# The watchdog of `WatcherBackgroundService`

The subscription of `Execute` and the timer of the base class work on one health check, in any
interleaving of delivered events and ticks.

* `followsWatchdog_iff` — a run follows the law of a watchdog iff no event is delivered between
  two ticks: the subscription never sets the flag that the timer clears.
-/

set_option autoImplicit false

namespace Sentinel

open Runs Watchdog

variable {R : Type}

/-- The parts of the service the subscription and the timer work on, and the calls of `Watch`. -/
structure WatcherHealth (R : Type) where
  service : BackgroundServiceWithHealthCheck
  watch : List (WatchEventType × R)

def WatchEventType.toText : WatchEventType → String
  | .added => "Added"
  | .modified => "Modified"
  | .deleted => "Deleted"
  | .error => "Error"
  | .bookmark => "Bookmark"

namespace WatcherHealth

/-- An event delivered to the subscription, or a callback of the timer. -/
inductive Action (R : Type) where
  | event (type : WatchEventType) (resource : R)
  | tick

def Action.isTick : Action R → Bool
  | .tick => true
  | .event _ _ => false

def Action.isEvent : Action R → Bool
  | .tick => false
  | .event _ _ => true

variable (appName : String) (resourceName : R → String)

/-- The constructor: the attribute of the class may replace the timeout of the base class. -/
def new (timeoutTotalMinutes : Option ℤ) : WatcherHealth R :=
  let service := BackgroundServiceWithHealthCheck.new appName 5
  ⟨match timeoutTotalMinutes with
    | some minutes => service.setTimeout minutes
    | none => service, []⟩

/-- The subscription of `Execute`. -/
def onNext (type : WatchEventType) (resource : R) (s : WatcherHealth R) : WatcherHealth R :=
  { s with
    service := s.service.reportHealthy
      (appName ++ " watcher event: " ++ type.toText ++ " :  " ++ resourceName resource)
    watch := s.watch ++ [(type, resource)] }

def step (s : WatcherHealth R) : Action R → Option (WatcherHealth R)
  | .event type resource => some (onNext appName resourceName type resource s)
  | .tick => s.service.tick.map fun service => { s with service }

/-- The watchdog law, and what follows from it for a watcher that is used in every window. -/
structure FollowsWatchdog (actions : List (Action R)) (s : WatcherHealth R) : Prop where
  law : Obeys Action.isTick Action.isEvent (step appName resourceName)
    (fun s s' => s.service.ReportsUnhealthy s'.service) actions s
  windows : UsedInEveryWindow Action.isTick Action.isEvent actions →
    ∀ before t rest s₁ s₂, actions = before ++ t :: rest → t.isTick = true →
      run (step appName resourceName) before s = some s₁ →
      step appName resourceName s₁ t = some s₂ → ¬ s₁.service.ReportsUnhealthy s₂.service

variable {appName resourceName} {s s' : WatcherHealth R} {a : Action R}

theorem isTriggered_new (minutes : Option ℤ) :
    (new appName minutes : WatcherHealth R).service.isTriggered = true := by
  unfold new
  cases minutes with
  | none => exact BackgroundServiceWithHealthCheck.isTriggered_new appName 5
  | some minutes => simp

/-- A tick clears the flag; an event leaves it as it is. -/
theorem isTriggered_step (h : step appName resourceName s a = some s') :
    s'.service.isTriggered = if a.isTick = true then false else s.service.isTriggered := by
  cases a with
  | event type resource =>
    cases h
    rfl
  | tick =>
    obtain ⟨service, htick, rfl⟩ := Option.map_eq_some_iff.1 h
    exact (BackgroundServiceWithHealthCheck.tick_spec htick).1

theorem reports_tick (ha : a.isTick = true) (h : step appName resourceName s a = some s') :
    s.service.ReportsUnhealthy s'.service ↔ s.service.isTriggered = false := by
  cases a with
  | event type resource => cases ha
  | tick =>
    obtain ⟨service, htick, rfl⟩ := Option.map_eq_some_iff.1 h
    exact (BackgroundServiceWithHealthCheck.tick_spec htick).2

/-- A tick reports iff there was one before. -/
theorem reports_iff (minutes : Option ℤ) {before : List (Action R)} {t : Action R}
    (ht : t.isTick = true)
    (hrun : run (step appName resourceName) before (new appName minutes) = some s)
    (hlast : step appName resourceName s t = some s') :
    s.service.ReportsUnhealthy s'.service ↔ Quiet Action.isTick (fun _ => false) before := by
  rw [reports_tick ht hlast]
  refine flag_false_iff (fun s => s.service.isTriggered) (isTriggered_new minutes)
    (fun s₁ a s₂ hstep => ?_) hrun
  rw [isTriggered_step hstep, Bool.false_or]

/-- **A run follows the watchdog law iff no event is delivered between two ticks.** -/
theorem followsWatchdog_iff (appName : String) (resourceName : R → String) (minutes : Option ℤ)
    (actions : List (Action R))
    (h : run (step appName resourceName) actions (new appName minutes) = some s) :
    FollowsWatchdog appName resourceName actions (new appName minutes) ↔
      NoUseBetweenTicks Action.isTick Action.isEvent actions := by
  have hdisjoint : ∀ a : Action R, a.isEvent = true → a.isTick = false := by
    intro a ha
    cases a with
    | event type resource => rfl
    | tick => cases ha
  have hlaw : Obeys Action.isTick Action.isEvent (step appName resourceName)
      (fun s s' => s.service.ReportsUnhealthy s'.service) actions (new appName minutes) ↔
        NoUseBetweenTicks Action.isTick Action.isEvent actions :=
    obeys_iff_of_ignored hdisjoint
      (fun _ _ _ _ ht hrun hlast => reports_iff minutes ht hrun hlast) h
  rw [← hlaw]
  refine ⟨FollowsWatchdog.law, fun hobeys => ⟨hobeys, fun hused => ?_⟩⟩
  intro before t rest s₁ s₂ heq ht hrun hlast
  exact hobeys.never_reports hused heq ht hrun hlast

/-- An event before the first tick and none after it: the second tick reports. -/
theorem followsWatchdog_iff_oneEvent :
    FollowsWatchdog "NamespaceWatcher" id [.event .added "default", .tick, .tick]
      (new "NamespaceWatcher" (some 60)) := by
  refine (followsWatchdog_iff "NamespaceWatcher" id (some 60) _ rfl).2 ?_
  intro before t₁ mid t₂ rest heq ht₁ _
  cases before with
  | nil =>
    obtain ⟨rfl, -⟩ := List.cons_eq_cons.1 heq
    cases ht₁
  | cons b before =>
    -- of the two ticks, the first is `t₁`, and `mid` is empty
    have hlength := congrArg List.length heq
    simp only [List.length_cons, List.length_nil, List.length_append] at hlength
    have hmid : mid = [] := List.length_eq_zero_iff.1 (by omega)
    simp [hmid]

/-- An event between two ticks: the second one reports all the same. -/
theorem not_followsWatchdog :
    ¬ FollowsWatchdog "NamespaceWatcher" id [.tick, .event .added "default", .tick]
      (new "NamespaceWatcher" (some 60)) := by
  intro h
  have hquiet := (h.law [.tick, .event .added "default"] .tick [] _ _ rfl rfl rfl rfl).1
    ⟨rfl, rfl⟩
  have hnot : ¬ Quiet Action.isTick Action.isEvent
      ([.tick] ++ Action.event .added "default" :: []) := not_quiet_of_use rfl rfl (by simp)
  exact hnot hquiet

end WatcherHealth

end Sentinel
