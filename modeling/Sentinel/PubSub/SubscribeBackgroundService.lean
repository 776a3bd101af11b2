import Sentinel.Common.BackgroundServiceWithHealthCheck
import Sentinel.DotNet.DateTime
import Sentinel.Lib.Throwing
import Sentinel.Lib.Watchdog

/-!
# `SubscribeBackgroundService<T>`

The bus delivers messages to `HandlerPrivate`, and the timer calls back, in any interleaving.

* `handled_eq` — `Handler` is given the messages whose JSON text has 200 characters or more: the
  others throw on the way, when the log text is cut.
* `obeys_watchdog` — a tick reports iff no message came since the previous tick.
* `correct_iff` — a run is correct iff every message that comes in it has so long a JSON text.
-/

set_option autoImplicit false

namespace Sentinel

open Runs Throwing Watchdog

/-- A string as its UTF-16 code units. -/
abbrev Utf16 := List UInt16

/-- `Substring(startIndex, length)`. -/
def substring (text : Utf16) (startIndex length : ℕ) : Except Exn Utf16 :=
  if text.length < startIndex + length then .error .argumentOutOfRangeException
  else .ok ((text.drop startIndex).take length)

/-- The health check, the timeout and the flag are declared as in
`BackgroundServiceWithHealthCheck`, and so is the callback of the timer; `handled` are the calls
of `Handler`. -/
structure SubscribeBackgroundService (T : Type) where
  service : BackgroundServiceWithHealthCheck
  lastRun : DateTime
  handled : List T

namespace SubscribeBackgroundService

variable {T : Type} (toJSON : T → Utf16) (dateText : DateTime → String)

/-- The constructor: only the attribute of the class sets a timeout. -/
def new (name : String) (timeoutTotalMinutes : Option ℤ) (utcNow : DateTime) :
    SubscribeBackgroundService T :=
  let service := (⟨.new, none, true⟩ : BackgroundServiceWithHealthCheck).reportHealthy
    (name ++ " initialized")
  ⟨match timeoutTotalMinutes with
    | some minutes => service.setTimeout minutes
    | none => service, utcNow, []⟩

def handler (scheduledItem : T) : EStateM Exn (SubscribeBackgroundService T) Unit :=
  modify fun s => { s with handled := s.handled ++ [scheduledItem] }

def handlerPrivate (healthcheckTask : Option T) (utcNow : DateTime) :
    EStateM Exn (SubscribeBackgroundService T) Unit :=
  match healthcheckTask with
  | none => pure ()
  | some healthcheckTask => do
    modify fun s => { s with service := { s.service with isTriggered := true } }
    modify fun s => { s with lastRun := utcNow }
    let message := "Queue is Receiving messages at " ++ dateText utcNow
    modify fun s => { s with service := s.service.reportHealthy message }
    -- the text of the log call
    let _ ← ofExcept (substring (toJSON healthcheckTask) 0 200)
    handler healthcheckTask

/-- A message at a time, or a callback of the timer. -/
inductive Action (T : Type) where
  | deliver (healthcheckTask : Option T) (utcNow : DateTime)
  | tick

def Action.isTick : Action T → Bool
  | .tick => true
  | .deliver _ _ => false

def Action.message : Action T → Option T
  | .tick => none
  | .deliver healthcheckTask _ => healthcheckTask

def Action.isMessage (a : Action T) : Bool := a.message.isSome

/-- A call of `HandlerPrivate` that throws leaves what it has done. -/
def step (s : SubscribeBackgroundService T) : Action T → Option (SubscribeBackgroundService T)
  | .deliver healthcheckTask utcNow =>
    some (finalState (handlerPrivate toJSON dateText healthcheckTask utcNow s))
  | .tick => s.service.tick.map fun service => { s with service }

/-- The messages that come in a run, without the null ones. -/
def messages (actions : List (Action T)) : List T := actions.filterMap Action.message

/-- `Handler` is given every message once and in order, and ticks follow the watchdog law. -/
structure Correct (actions : List (Action T)) (s s' : SubscribeBackgroundService T) : Prop where
  handled : s'.handled = messages actions
  law : Obeys Action.isTick Action.isMessage (step toJSON dateText)
    (fun s s' => s.service.ReportsUnhealthy s'.service) actions s

variable {toJSON dateText} {s s' : SubscribeBackgroundService T} {a : Action T}
  {name : String} {minutes : Option ℤ} {utcNow : DateTime}

/-- **What `HandlerPrivate` leaves for a message.** -/
theorem handlerPrivate_spec (task : T) (utcNow : DateTime) (s : SubscribeBackgroundService T) :
    (finalState (handlerPrivate toJSON dateText (some task) utcNow s)).service.isTriggered = true ∧
      (finalState (handlerPrivate toJSON dateText (some task) utcNow s)).service.timeout =
        s.service.timeout ∧
      (finalState (handlerPrivate toJSON dateText (some task) utcNow s)).handled =
        if 200 ≤ (toJSON task).length then s.handled ++ [task] else s.handled := by
  simp only [handlerPrivate, bind_apply, modify_apply]
  by_cases hlength : 200 ≤ (toJSON task).length
  · rw [if_pos hlength]
    unfold substring
    rw [if_neg (by omega)]
    exact ⟨rfl, rfl, rfl⟩
  · rw [if_neg hlength]
    unfold substring
    rw [if_pos (by omega)]
    exact ⟨rfl, rfl, rfl⟩

theorem isTriggered_step (h : step toJSON dateText s a = some s') :
    s'.service.isTriggered =
      if a.isTick = true then false else a.isMessage || s.service.isTriggered := by
  cases a with
  | tick =>
    obtain ⟨service, htick, rfl⟩ := Option.map_eq_some_iff.1 h
    exact (BackgroundServiceWithHealthCheck.tick_spec htick).1
  | deliver message utcNow =>
    cases h
    cases message with
    | none => rfl
    | some task => exact (handlerPrivate_spec task utcNow s).1

theorem handled_step (h : step toJSON dateText s a = some s') :
    s'.handled = s.handled ++
      a.message.toList.filter fun task => 200 ≤ (toJSON task).length := by
  cases a with
  | tick =>
    obtain ⟨service, -, rfl⟩ := Option.map_eq_some_iff.1 h
    exact (List.append_nil _).symm
  | deliver message utcNow =>
    cases h
    cases message with
    | none => exact (List.append_nil _).symm
    | some task =>
      rw [(handlerPrivate_spec task utcNow s).2.2]
      by_cases hlength : 200 ≤ (toJSON task).length
      · simp [Action.message, hlength]
      · simp [Action.message, hlength]

/-- **`Handler` is given the messages with a long JSON text**, once and in order. -/
theorem handled_eq {actions : List (Action T)}
    (h : run (step toJSON dateText) actions (new name minutes utcNow) = some s) :
    s.handled = (messages actions).filter fun task => 200 ≤ (toJSON task).length := by
  refine run_induction (motive := fun actions s => s.handled =
    (messages actions).filter fun task => 200 ≤ (toJSON task).length) rfl ?_ h
  intro actions s₁ a s₂ _ ih hstep
  have hlast : messages (actions ++ [a]) = messages actions ++ a.message.toList := by
    unfold messages
    rw [List.filterMap_append]
    cases hm : a.message with
    | none => simp [hm]
    | some task => simp [hm]
  rw [handled_step hstep, ih, hlast, List.filter_append]

theorem isTriggered_new :
    (new name minutes utcNow : SubscribeBackgroundService T).service.isTriggered = true := by
  unfold new
  cases minutes with
  | none => rfl
  | some minutes => simp

/-- **Ticks follow the watchdog law in every run.** -/
theorem obeys_watchdog (actions : List (Action T)) :
    Obeys Action.isTick Action.isMessage (step toJSON dateText)
      (fun s s' => s.service.ReportsUnhealthy s'.service) actions (new name minutes utcNow) := by
  intro before t rest s₁ s₂ _ ht hrun hlast
  have hflag : s₁.service.isTriggered = false ↔ Quiet Action.isTick Action.isMessage before :=
    flag_false_iff (fun s => s.service.isTriggered) isTriggered_new
      (fun _ _ _ hstep => isTriggered_step hstep) hrun
  rw [← hflag]
  cases t with
  | deliver message utcNow => cases ht
  | tick =>
    obtain ⟨service, htick, rfl⟩ := Option.map_eq_some_iff.1 hlast
    exact (BackgroundServiceWithHealthCheck.tick_spec htick).2

/-- **A run is correct iff the JSON text of every message has 200 characters or more.** -/
theorem correct_iff (toJSON : T → Utf16) (dateText : DateTime → String) (name : String)
    (minutes : Option ℤ) (utcNow : DateTime) (actions : List (Action T))
    (h : run (step toJSON dateText) actions (new name minutes utcNow) = some s) :
    Correct toJSON dateText actions (new name minutes utcNow) s ↔
      ∀ task ∈ messages actions, 200 ≤ (toJSON task).length := by
  constructor
  · intro hcorrect
    have hall := hcorrect.handled
    rw [handled_eq h, List.filter_eq_self] at hall
    simpa using hall
  · intro hlong
    refine ⟨?_, obeys_watchdog actions⟩
    rw [handled_eq h, List.filter_eq_self]
    simpa using hlong

/-- With a timeout set, any order of messages and ticks is a run. -/
theorem exists_run (toJSON : T → Utf16) (dateText : DateTime → String)
    (actions : List (Action T)) (hs : s.service.timeout.isSome = true) :
    ∃ s', run (step toJSON dateText) actions s = some s' := by
  induction actions generalizing s with
  | nil => exact ⟨s, rfl⟩
  | cons a actions ih =>
    obtain ⟨s₁, hstep, hs₁⟩ : ∃ s₁, step toJSON dateText s a = some s₁ ∧
        s₁.service.timeout.isSome = true := by
      cases a with
      | tick =>
        obtain ⟨service, htick⟩ := BackgroundServiceWithHealthCheck.exists_tick hs
        exact ⟨_, by rw [step, htick.1]; rfl, htick.2⟩
      | deliver message utcNow =>
        refine ⟨_, rfl, ?_⟩
        cases message with
        | none => exact hs
        | some task => rw [(handlerPrivate_spec task utcNow s).2.1, hs]
    obtain ⟨s', hrun⟩ := ih hs₁
    exact ⟨s', by rw [run, hstep]; exact hrun⟩

/-! ## Texts as messages -/

/-- A text of so many letters, as JSON. -/
def letters (n : ℕ) : Utf16 := 34 :: (List.replicate n 97 ++ [34])

/-- A text of 198 letters is handled, between two ticks and with a null message behind it. -/
theorem correct_iff_longText : ∃ s,
    run (step letters fun _ => "") [.tick, .deliver (some 198) .minValue,
      .deliver none .minValue, .tick] (new "texts" (some 5) .minValue) = some s ∧
    Correct letters (fun _ => "") [.tick, .deliver (some 198) .minValue,
      .deliver none .minValue, .tick] (new "texts" (some 5) .minValue) s := by
  obtain ⟨s, hrun⟩ := exists_run letters (fun _ => "") [.tick, .deliver (some 198) .minValue,
    .deliver none .minValue, .tick] (s := new "texts" (some 5) .minValue) rfl
  refine ⟨s, hrun, (correct_iff letters (fun _ => "") "texts" (some 5) .minValue _ hrun).2 ?_⟩
  simp [messages, Action.message, letters]

/-- A text of three letters never reaches `Handler`. -/
theorem not_correct_shortText : ∃ s,
    run (step letters fun _ => "") [.deliver (some 3) .minValue]
      (new "texts" (some 5) .minValue) = some s ∧
    ¬ Correct letters (fun _ => "") [.deliver (some 3) .minValue]
      (new "texts" (some 5) .minValue) s := by
  obtain ⟨s, hrun⟩ := exists_run letters (fun _ => "") [.deliver (some 3) .minValue]
    (s := new "texts" (some 5) .minValue) rfl
  refine ⟨s, hrun, fun hcorrect => ?_⟩
  have hhandled : s.handled = [] := by
    rw [handled_eq hrun]
    simp [messages, Action.message, letters]
  rw [hcorrect.handled] at hhandled
  cases hhandled

end SubscribeBackgroundService

end Sentinel
