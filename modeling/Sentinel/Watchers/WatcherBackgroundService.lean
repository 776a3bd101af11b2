import Sentinel.Watchers.ResourceWatcher
import Sentinel.Lib.Runs

/-!
# `WatcherBackgroundService`

`Execute` starts the watcher and then subscribes to its events; the watch loop delivers events on
its own, in between as well.

* `watchCalls_iff` — `Watch` is called for every added, modified and deleted event once and in order
  iff none of them arrives before the subscription; it is never called for another event.
-/

set_option autoImplicit false

namespace Sentinel

open Throwing Runs

variable {R : Type}

/-! ## The model -/

/-- How far `Execute` is; `subscribed observer` when it has returned. -/
inductive Progress where
  | notStarted
  | started
  | subscribed (observer : ℕ)
  deriving DecidableEq

def Progress.isSubscribed : Progress → Bool
  | .subscribed _ => true
  | _ => false

structure WatcherBackgroundService (R : Type) where
  watcher : ResourceWatcher R
  progress : Progress

namespace WatcherBackgroundService

def new : WatcherBackgroundService R := ⟨.new, .notStarted⟩

/-- The next statement of `Execute`, or a step of the watcher. -/
inductive Action (R : Type) where
  | execute
  | watcher (a : ResourceWatcher.Action R)

def step (s : WatcherBackgroundService R) : Action R → Option (WatcherBackgroundService R)
  | .execute =>
    match s.progress with
    | .notStarted => (s.watcher.step .start).map fun watcher => ⟨watcher, .started⟩
    | .started => (s.watcher.step .subscribe).map fun watcher =>
      ⟨watcher, .subscribed s.watcher.watchEvents.observers.length⟩
    | .subscribed _ => none
  | .watcher a => (s.watcher.step a).map fun watcher => { s with watcher }

/-- The calls of `Watch`: what the observer has received. -/
def watchCalls (s : WatcherBackgroundService R) : List (WatchEventType × R) :=
  match s.progress with
  | .subscribed observer => (s.watcher.watchEvents.observers[observer]?).getD []
  | _ => []

/-- The event a step delivers to `OnWatcherEvent`. -/
def Action.event : Action R → Option (WatchEventType × R)
  | .watcher (.event _ type resource) => some (type, resource)
  | _ => none

/-- The events delivered to `OnWatcherEvent`, in order. -/
def delivered (actions : List (Action R)) : List (WatchEventType × R) :=
  actions.filterMap Action.event

/-- Added, modified and deleted events are relevant. -/
def isRelevant (e : WatchEventType × R) : Bool := ResourceWatcher.isRelevant e.1

/-- A relevant event only arrives when the subscription is there. -/
def InTime (s : WatcherBackgroundService R) (a : Action R) (_ : WatcherBackgroundService R) :
    Prop :=
  ∀ e, a.event = some e → isRelevant e = true → s.progress.isSubscribed = true

/-! ## What reaches the subject -/

theorem watchEvents_watched (s : ResourceWatcher R) : s.watched.watchEvents = s.watchEvents := by
  unfold ResourceWatcher.watched
  split
  · rfl
  · rfl

theorem watchEvents_disposing (s : ResourceWatcher R) :
    (finalState (ResourceWatcher.disposing true s)).watchEvents = s.watchEvents := by
  rw [ResourceWatcher.finalState_disposing]
  split
  · split
    · rfl
    · rfl
  · rfl

/-- Only events, subscriptions and `Dispose` concern the subject. -/
theorem watchEvents_after (s : ResourceWatcher R) {a : ResourceWatcher.Action R}
    (hevent : (Action.watcher a).event = none) (hsubscribe : a ≠ .subscribe)
    (hdispose : a ≠ .dispose) : (s.after a).watchEvents = s.watchEvents := by
  cases a with
  | start => exact watchEvents_watched s
  | stop => exact watchEvents_disposing s
  | dispose => exact absurd rfl hdispose
  | subscribe => exact absurd rfl hsubscribe
  | watching i value => rfl
  | event i type resource => cases hevent
  | exception i e jitter =>
    simp only [ResourceWatcher.after]
    split
    · rfl
    · split
      · rfl
      · rw [ResourceWatcher.scheduled_eq]
        rfl
  | close i =>
    simp only [ResourceWatcher.after]
    split
    · rfl
    · rfl
  | reconnectTimer => exact watchEvents_watched { s with reconnect := none }
  | resetTimer => rfl

/-! ## One step -/

/-- The subject is usable, and the subscription, if there is one, is in its list. -/
structure Ready (s : WatcherBackgroundService R) : Prop where
  usable : s.watcher.watchEvents.disposed = false
  observer : ∀ k, s.progress = .subscribed k → k < s.watcher.watchEvents.observers.length

theorem ready_new : Ready (new : WatcherBackgroundService R) :=
  ⟨rfl, fun _ hprogress => by cases hprogress⟩

variable {s s' : WatcherBackgroundService R} {a : Action R}

theorem watchEvents_subscribe {r : ResourceWatcher R} (h : r.watchEvents.disposed = false) :
    (r.after .subscribe).watchEvents =
      { r.watchEvents with observers := r.watchEvents.observers ++ [[]] } := by
  simp only [ResourceWatcher.after, Subject.subscribe, h, Bool.false_eq_true, if_false]

theorem deliver_eq {α : Type} {subject : Subject α} (h : subject.disposed = false) (x : α) :
    subject.deliver x = { subject with observers := subject.observers.map (· ++ [x]) } := by
  simp only [Subject.deliver, Subject.onNext, h, Bool.false_eq_true, if_false]

/-- A new observer does not disturb the others. -/
theorem Ready.newObserver (h : Ready s) {r : ResourceWatcher R}
    (hevents : r.watchEvents =
      { s.watcher.watchEvents with observers := s.watcher.watchEvents.observers ++ [[]] }) :
    Ready { s with watcher := r } ∧ watchCalls { s with watcher := r } = watchCalls s := by
  refine ⟨⟨by rw [hevents]; exact h.usable, fun k hk => ?_⟩, ?_⟩
  · simp only [hevents, List.length_append]
    exact Nat.lt_add_right _ (h.observer k hk)
  · unfold watchCalls
    cases hk : s.progress with
    | notStarted => rfl
    | started => rfl
    | subscribed k => simp only [hevents, List.getElem?_append_left (h.observer k hk)]

theorem Ready.sameEvents (h : Ready s) {r : ResourceWatcher R}
    (hevents : r.watchEvents = s.watcher.watchEvents) :
    Ready { s with watcher := r } ∧ watchCalls { s with watcher := r } = watchCalls s :=
  ⟨⟨hevents ▸ h.usable, hevents ▸ h.observer⟩, by simp only [watchCalls, hevents]⟩

/-- A step that is not an event makes no call of `Watch`. -/
theorem Ready.quiet (h : Ready s) (hstep : s.step a = some s') (hevent : a.event = none)
    (hdispose : a ≠ .watcher .dispose) : Ready s' ∧ watchCalls s' = watchCalls s := by
  cases a with
  | execute =>
    simp only [step] at hstep
    split at hstep
    · rename_i hprogress
      obtain ⟨r, hr, rfl⟩ := Option.map_eq_some_iff.1 hstep
      have hevents : r.watchEvents = s.watcher.watchEvents := by
        rw [(ResourceWatcher.step_some hr).2]
        exact watchEvents_watched s.watcher
      refine ⟨⟨hevents ▸ h.usable, fun k hk => ?_⟩, by simp only [watchCalls, hprogress]⟩
      cases hk
    · rename_i hprogress
      obtain ⟨r, hr, rfl⟩ := Option.map_eq_some_iff.1 hstep
      have hevents := watchEvents_subscribe h.usable
      rw [← (ResourceWatcher.step_some hr).2] at hevents
      refine ⟨⟨by rw [hevents]; exact h.usable, fun k hk => ?_⟩, ?_⟩
      · cases hk
        simp [hevents]
      · simp [watchCalls, hprogress, hevents]
    · cases hstep
  | watcher a =>
    obtain ⟨r, hr, rfl⟩ := Option.map_eq_some_iff.1 hstep
    have hafter := (ResourceWatcher.step_some hr).2
    by_cases hsubscribe : a = .subscribe
    · subst hsubscribe
      exact h.newObserver (hafter ▸ watchEvents_subscribe h.usable)
    · exact h.sameEvents (hafter ▸ watchEvents_after s.watcher hevent hsubscribe
        fun heq => hdispose (congrArg _ heq))

/-- An event is passed on if it is relevant and the subscription is there. -/
theorem Ready.event (h : Ready s) (hstep : s.step a = some s') {e : WatchEventType × R}
    (hevent : a.event = some e) : Ready s' ∧ watchCalls s' = watchCalls s ++
      if isRelevant e && s.progress.isSubscribed then [e] else [] := by
  cases a with
  | execute => cases hevent
  | watcher a =>
    obtain ⟨r, hr, rfl⟩ := Option.map_eq_some_iff.1 hstep
    have hafter := (ResourceWatcher.step_some hr).2
    cases a with
    | event i type resource =>
      cases hevent
      rw [ResourceWatcher.after, ResourceWatcher.onWatcherEvent_eq, deliver_eq h.usable] at hafter
      unfold isRelevant
      cases htype : ResourceWatcher.isRelevant type with
      | false =>
        rw [htype] at hafter
        have hsame := h.sameEvents (congrArg ResourceWatcher.watchEvents hafter)
        exact ⟨hsame.1, by simpa using hsame.2⟩
      | true =>
        rw [htype] at hafter
        have hevents := congrArg ResourceWatcher.watchEvents hafter
        simp only [if_true] at hevents
        refine ⟨⟨by rw [hevents]; exact h.usable, fun k hk => ?_⟩, ?_⟩
        · simp only [hevents, List.length_map]
          exact h.observer k hk
        · unfold watchCalls
          cases hk : s.progress with
          | notStarted => rfl
          | started => rfl
          | subscribed k =>
            have hlt := h.observer k hk
            simp [hevents, Progress.isSubscribed, List.getElem?_eq_getElem hlt]
    | _ => cases hevent

/-! ## Every run -/

theorem watchCalls_of_not_subscribed (h : s.progress.isSubscribed = false) : watchCalls s = [] := by
  unfold watchCalls
  cases hprogress : s.progress with
  | notStarted => rfl
  | started => rfl
  | subscribed k =>
    rw [hprogress] at h
    cases h

theorem delivered_snoc (actions : List (Action R)) (a : Action R) :
    delivered (actions ++ [a]) = delivered actions ++ a.event.toList := by
  rw [delivered, List.filterMap_append]
  cases h : a.event with
  | none => simp [delivered, h]
  | some e => simp [delivered, h]

/-- The relevant events are those that came too early, and then the calls of `Watch`. -/
def Delivered (actions : List (Action R)) (s : WatcherBackgroundService R) : Prop :=
  ∃ early, (delivered actions).filter isRelevant = early ++ watchCalls s ∧
    (early = [] ↔ EveryStep step InTime actions new)

theorem Delivered.step {actions : List (Action R)} (h : Delivered actions s) (hready : Ready s)
    (hrun : run WatcherBackgroundService.step actions new = some s)
    (hstep : s.step a = some s') (hdispose : a ≠ .watcher .dispose) :
    Ready s' ∧ Delivered (actions ++ [a]) s' := by
  obtain ⟨early, hdelivered, hearly⟩ := h
  have hsnoc : EveryStep WatcherBackgroundService.step InTime (actions ++ [a]) new ↔
      early = [] ∧ InTime s a s' := by
    rw [everyStep_snoc_of_run hrun hstep, hearly]
  unfold Delivered
  rw [hsnoc, delivered_snoc, List.filter_append, hdelivered]
  cases hevent : a.event with
  | none =>
    obtain ⟨hready', hcalls⟩ := hready.quiet hstep hevent hdispose
    refine ⟨hready', early, by rw [hcalls]; simp, ⟨fun h => ⟨h, fun e he => ?_⟩, And.left⟩⟩
    rw [hevent] at he
    cases he
  | some e =>
    obtain ⟨hready', hcalls⟩ := hready.event hstep hevent
    have hinTime : InTime s a s' ↔ (isRelevant e = true → s.progress.isSubscribed = true) := by
      refine ⟨fun h => h e hevent, fun h e' he' => ?_⟩
      obtain rfl := Option.some.inj (hevent.symm.trans he')
      exact h
    refine ⟨hready', ?_⟩
    rw [hcalls, hinTime]
    cases hrelevant : isRelevant e with
    | false => exact ⟨early, by simp [hrelevant], by simp⟩
    | true =>
      cases hsubscribed : s.progress.isSubscribed with
      | true => exact ⟨early, by simp [hrelevant], by simp⟩
      | false =>
        -- the event is lost
        refine ⟨early ++ [e], ?_, by simp⟩
        rw [watchCalls_of_not_subscribed hsubscribed]
        simp [hrelevant]

theorem delivered_of_run {actions : List (Action R)} (h : run step actions new = some s)
    (hdispose : .watcher .dispose ∉ actions) : Delivered actions s := by
  refine (run_induction (motive := fun actions s => .watcher .dispose ∉ actions →
    Ready s ∧ Delivered actions s) ?_ ?_ h hdispose).2
  · exact fun _ => ⟨ready_new, [], rfl, fun _ => everyStep_nil, fun _ => rfl⟩
  · intro as s₁ a s₂ hrun ih hstep hdispose
    simp only [List.mem_append, List.mem_singleton, not_or] at hdispose
    obtain ⟨hready, hdelivered⟩ := ih hdispose.1
    exact hdelivered.step hready hrun hstep (Ne.symm hdispose.2)

/-- **When no event is lost**: in every run without `Dispose`, `Watch` is called for the relevant
events, each once and in the order of delivery, iff none of them arrived before the subscription;
it is never called for another event. -/
theorem watchCalls_iff {actions : List (Action R)} (h : run step actions new = some s)
    (hdispose : .watcher .dispose ∉ actions) :
    (watchCalls s = (delivered actions).filter isRelevant ↔ EveryStep step InTime actions new) ∧
    ∀ e ∈ watchCalls s, isRelevant e = true := by
  obtain ⟨early, hdelivered, hearly⟩ := delivered_of_run h hdispose
  constructor
  · rw [hdelivered, ← hearly]
    exact List.self_eq_append_left
  · intro e he
    have hmem : e ∈ (delivered actions).filter isRelevant := by
      rw [hdelivered]
      exact List.mem_append_right _ he
    exact (List.mem_filter.1 hmem).2

/-- Subscribed before the first event. -/
def inTime : List (Action String) :=
  [.execute, .execute, .watcher (.event 0 .added "web"), .watcher (.event 0 .bookmark "")]

theorem watchCalls_iff_inTime : EveryStep step InTime inTime new := by
  obtain ⟨hiff, -⟩ := watchCalls_iff (show run step inTime new = some _ from rfl) (by simp [inTime])
  exact hiff.1 rfl

/-- The first added event arrives between `Start` and `Subscribe`, and is lost. -/
theorem watchCalls_lost : ¬ ∀ (actions : List (Action String))
    (s : WatcherBackgroundService String), run step actions new = some s →
    .watcher .stop ∉ actions → .watcher .dispose ∉ actions →
    watchCalls s = (delivered actions).filter isRelevant := by
  intro h
  have := h [.execute, .watcher (.event 0 .added "web"), .execute] _ rfl (by simp) (by simp)
  cases this

end WatcherBackgroundService

end Sentinel
