import Sentinel.DotNet.Base
import Sentinel.Lib.Heap
import Sentinel.Lib.Throwing

/-!
# `ResourceWatcher`: the source

The watchers and the cancellation sources ever created are objects with identity; a watcher
remembers the source whose token it was given.  The client library runs the watch loops: when a
loop starts or ends, and which callback comes next from which watcher, is up to it.  Opening a
watch succeeds at once, and every call, callback and timer is one step.  Log calls and metrics are
left out.

* `watchResource_eq`, `finalState_onException`, `finalState_onClose` — the handlers as functions on
  states.
* `step_eq` — what one step does, for every kind of step.
-/

set_option autoImplicit false

namespace Sentinel

open Throwing

/-! ## The model -/

inductive WatchEventType where
  | added
  | modified
  | deleted
  | error
  | bookmark
  deriving DecidableEq, Repr

structure CancellationTokenSource where
  isCancellationRequested : Bool
  disposed : Bool

/-- A watcher of the client library, with the source whose token it was given. -/
structure Watcher where
  token : Ref
  watching : Bool
  disposed : Bool

/-- What `OnException` asks of an exception. -/
structure WatchException where
  isTaskCanceled : Bool
  innerIsIOException : Bool

/-- An Rx subject: every observer has received the elements that came while it was subscribed. -/
structure Subject (α : Type) where
  observers : List (List α)
  disposed : Bool

namespace Subject

variable {α : Type}

def new : Subject α := ⟨[], false⟩

def onNext (x : α) (subject : Subject α) : Except Exn (Subject α) :=
  if subject.disposed then .error .objectDisposedException
  else .ok { subject with observers := subject.observers.map (· ++ [x]) }

/-- The subject after `OnNext`, whether it throws or not. -/
def deliver (x : α) (subject : Subject α) : Subject α :=
  match subject.onNext x with
  | .ok subject => subject
  | .error _ => subject

def subscribe (subject : Subject α) : Except Exn (Subject α) :=
  if subject.disposed then .error .objectDisposedException
  else .ok { subject with observers := subject.observers ++ [[]] }

def dispose (subject : Subject α) : Subject α := { subject with disposed := true }

end Subject

/-- `reconnect` is the pending timer of the reconnect subscription, in milliseconds: a new one
replaces it.  `reconnectAttempts` is a 32-bit integer. -/
structure ResourceWatcher (R : Type) where
  watchers : Heap Watcher
  cancellations : Heap CancellationTokenSource
  watchEvents : Subject (WatchEventType × R)
  reconnectHandlerDisposed : Bool
  reconnectSubscriptionDisposed : Bool
  reconnect : Option ℕ
  resetReconnectCounter : Bool
  reconnectAttempts : ℤ
  cancellation : Option Ref
  watcher : Option Ref

namespace ResourceWatcher

variable {R : Type}

def new : ResourceWatcher R where
  watchers := .empty
  cancellations := .empty
  watchEvents := .new
  reconnectHandlerDisposed := false
  reconnectSubscriptionDisposed := false
  reconnect := none
  resetReconnectCounter := false
  reconnectAttempts := 0
  cancellation := none
  watcher := none

/-- `_cancellation?.IsCancellationRequested`. -/
def isCancellationRequested (s : ResourceWatcher R) : Option Bool :=
  s.cancellation.bind fun c => (s.cancellations.read c).map (·.isCancellationRequested)

def cancellationDisposed (s : ResourceWatcher R) : Bool :=
  match s.cancellation with
  | some c => (s.cancellations.read c).any (·.disposed)
  | none => false

def updateCancellation (f : CancellationTokenSource → CancellationTokenSource)
    (s : ResourceWatcher R) : ResourceWatcher R :=
  { s with cancellations := match s.cancellation with
    | some c => s.cancellations.update c f
    | none => s.cancellations }

/-- `_cancellation?.Cancel()`. -/
def cancel : EStateM Exn (ResourceWatcher R) Unit := do
  let s ← get
  if s.cancellationDisposed then throw .objectDisposedException
  else modify (updateCancellation fun c => { c with isCancellationRequested := true })

/-- `_watcher?.Dispose()`. -/
def disposeWatcher (s : ResourceWatcher R) : ResourceWatcher R :=
  { s with watchers := match s.watcher with
    | some i => s.watchers.update i fun w => { w with disposed := true }
    | none => s.watchers }

/-- A new cancellation source and a new watcher with its token. -/
def openWatcher (s : ResourceWatcher R) : ResourceWatcher R :=
  { s with
    cancellations := s.cancellations.alloc ⟨false, false⟩
    cancellation := some s.cancellations.next
    watchers := s.watchers.alloc ⟨s.cancellations.next, false, false⟩
    watcher := some s.watchers.next }

def watchResource : EStateM Exn (ResourceWatcher R) Unit := do
  let s ← get
  match s.watcher with
  | some i =>
    if (s.watchers.read i).any (·.watching) then pure ()
    else do
      modify disposeWatcher
      modify openWatcher
  | none => modify openWatcher

def onWatcherEvent (type : WatchEventType) (resource : R) :
    EStateM Exn (ResourceWatcher R) Unit := do
  match type with
  | .added | .modified | .deleted =>
    let s ← get
    let watchEvents ← ofExcept (s.watchEvents.onNext (type, resource))
    set { s with watchEvents }
  | .error | .bookmark => pure ()

def restartWatcher : EStateM Exn (ResourceWatcher R) Unit := do
  cancel
  modify disposeWatcher
  modify fun s => { s with watcher := none }
  watchResource

/-- In whole milliseconds; `jitter` is the random part.  The power of a count that has wrapped
around is a fraction of a second. -/
def exponentialBackoff (retryCount : ℤ) (jitter : ℕ) : ℕ :=
  if 0 ≤ retryCount then min (2 ^ retryCount.toNat) 32 * 1000 + jitter
  else 1000 / 2 ^ (-retryCount).toNat + jitter

/-- `_reconnectHandler.OnNext(backoff)`. -/
def scheduleReconnect (backoff : ℕ) : EStateM Exn (ResourceWatcher R) Unit := do
  let s ← get
  if s.reconnectHandlerDisposed then throw .objectDisposedException
  else if s.reconnectSubscriptionDisposed then pure ()
  else set { s with reconnect := some backoff }

def onException (e : WatchException) (jitter : ℕ) : EStateM Exn (ResourceWatcher R) Unit := do
  cancel
  modify disposeWatcher
  modify fun s => { s with watcher := none }
  if e.isTaskCanceled && e.innerIsIOException then watchResource
  else do
    modify fun s => { s with reconnectAttempts := toInt32 (s.reconnectAttempts + 1) }
    let s ← get
    let backoff := exponentialBackoff s.reconnectAttempts jitter
    modify fun s => { s with resetReconnectCounter := true }
    scheduleReconnect backoff

def onClose : EStateM Exn (ResourceWatcher R) Unit := do
  let s ← get
  if s.isCancellationRequested = some false then restartWatcher else pure ()

def disposing (fromStop : Bool) : EStateM Exn (ResourceWatcher R) Unit := do
  if !fromStop then
    modify fun s => { s with
      watchEvents := s.watchEvents.dispose, reconnectHandlerDisposed := true }
  modify fun s => { s with
    reconnectHandlerDisposed := true, reconnectSubscriptionDisposed := true, reconnect := none }
  let s ← get
  if s.isCancellationRequested = some false then cancel
  modify (updateCancellation fun c => { c with disposed := true })
  modify disposeWatcher

/-! ## Steps -/

/-- Calls, callbacks of a watcher that exists, timers, and the loop of a watcher setting its
`Watching` flag. -/
inductive Action (R : Type) where
  | start
  | stop
  | dispose
  | subscribe
  | watching (i : Ref) (value : Bool)
  | event (i : Ref) (type : WatchEventType) (resource : R)
  | exception (i : Ref) (e : WatchException) (jitter : ℕ)
  | close (i : Ref)
  | reconnectTimer
  | resetTimer

/-- The watcher a callback comes from. -/
def Action.sender : Action R → Option Ref
  | .event i .. | .exception i .. | .close i => some i
  | _ => none

/-- The code a step runs. -/
def handler : Action R → EStateM Exn (ResourceWatcher R) Unit
  | .start => watchResource
  | .stop => disposing true
  | .dispose => disposing false
  | .subscribe => do
    let s ← get
    let watchEvents ← ofExcept s.watchEvents.subscribe
    set { s with watchEvents }
  | .watching i value => modify fun s =>
    { s with watchers := s.watchers.update i fun w => { w with watching := value } }
  | .event _ type resource => onWatcherEvent type resource
  | .exception _ e jitter => onException e jitter
  | .close _ => onClose
  | .reconnectTimer => do
    modify fun s => { s with reconnect := none }
    watchResource
  | .resetTimer => modify fun s => { s with resetReconnectCounter := false, reconnectAttempts := 0 }

/-- Callbacks come from watchers that exist, timers fire when they are pending. -/
def enabled (s : ResourceWatcher R) : Action R → Bool
  | .reconnectTimer => s.reconnect.isSome
  | .resetTimer => s.resetReconnectCounter
  | .watching i _ => i < s.watchers.next
  | a => match a.sender with
    | some i => i < s.watchers.next
    | none => true

/-- An exception goes to the caller; what was done before it stays. -/
def step (s : ResourceWatcher R) (a : Action R) : Option (ResourceWatcher R) :=
  if s.enabled a then some (finalState (handler a s)) else none

/-! ## The handlers as functions on states -/

def isWatching (s : ResourceWatcher R) : Bool :=
  match s.watcher with
  | some i => (s.watchers.read i).any (·.watching)
  | none => false

/-- After `WatchResource`. -/
def watched (s : ResourceWatcher R) : ResourceWatcher R :=
  if s.isWatching then s else s.disposeWatcher.openWatcher

def cancelled (s : ResourceWatcher R) : ResourceWatcher R :=
  s.updateCancellation fun c => { c with isCancellationRequested := true }

/-- The current watcher is cancelled, disposed and forgotten. -/
def dropped (s : ResourceWatcher R) : ResourceWatcher R :=
  { s.cancelled.disposeWatcher with watcher := none }

theorem watchResource_eq (s : ResourceWatcher R) : watchResource s = .ok () s.watched := by
  unfold watchResource watched isWatching
  rw [bind_ok (get_apply s)]
  cases hw : s.watcher with
  | none => simp [disposeWatcher, openWatcher, modify_apply, hw]
  | some i =>
    simp only
    split
    · rfl
    · rfl

theorem cancel_eq (s : ResourceWatcher R) : cancel s =
    if s.cancellationDisposed then .error .objectDisposedException s else .ok () s.cancelled := by
  unfold cancel
  rw [bind_ok (get_apply s)]
  split
  · rfl
  · rfl

/-- After an error that does not reopen the watch at once. -/
def scheduled (jitter : ℕ) (s : ResourceWatcher R) : ResourceWatcher R :=
  finalState (scheduleReconnect (exponentialBackoff (toInt32 (s.reconnectAttempts + 1)) jitter)
    { s with
      reconnectAttempts := toInt32 (s.reconnectAttempts + 1)
      resetReconnectCounter := true })

theorem finalState_onException (e : WatchException) (jitter : ℕ) (s : ResourceWatcher R) :
    finalState (onException e jitter s) =
      if s.cancellationDisposed then s
      else if e.isTaskCanceled && e.innerIsIOException then s.dropped.openWatcher
      else s.dropped.scheduled jitter := by
  unfold onException
  rw [bind_apply, cancel_eq]
  cases s.cancellationDisposed with
  | true => rfl
  | false =>
    simp only [bind_apply, modify_apply, Bool.false_eq_true, if_false]
    split
    · exact congrArg finalState (watchResource_eq s.dropped)
    · rfl

theorem finalState_onClose (s : ResourceWatcher R) : finalState (onClose s) =
    if s.isCancellationRequested = some false ∧ s.cancellationDisposed = false
    then s.dropped.openWatcher else s := by
  unfold onClose
  rw [bind_ok (get_apply s)]
  by_cases hopen : s.isCancellationRequested = some false
  · rw [if_pos hopen, restartWatcher, bind_apply, cancel_eq]
    cases s.cancellationDisposed with
    | true => simp
    | false =>
      simp only [hopen, and_self, if_true]
      exact congrArg finalState (watchResource_eq s.dropped)
  · rw [if_neg hopen, if_neg fun h => hopen h.1]
    rfl

/-- The flags `Disposing` sets first. -/
def shutDown (fromStop : Bool) (s : ResourceWatcher R) : ResourceWatcher R :=
  { s with
    watchEvents := if fromStop then s.watchEvents else s.watchEvents.dispose
    reconnectHandlerDisposed := true
    reconnectSubscriptionDisposed := true
    reconnect := none }

/-- The cancellation source and the watcher are disposed. -/
def released (s : ResourceWatcher R) : ResourceWatcher R :=
  (s.updateCancellation fun c => { c with disposed := true }).disposeWatcher

theorem finalState_disposing (fromStop : Bool) (s : ResourceWatcher R) :
    finalState (disposing fromStop s) =
      if s.isCancellationRequested = some false then
        if s.cancellationDisposed then s.shutDown fromStop
        else (s.shutDown fromStop).cancelled.released
      else (s.shutDown fromStop).released := by
  have hflags : disposing fromStop s = (do
      let s ← get
      if s.isCancellationRequested = some false then cancel
      modify (updateCancellation fun c => { c with disposed := true })
      modify disposeWatcher : EStateM Exn (ResourceWatcher R) Unit) (s.shutDown fromStop) := by
    cases fromStop with
    | true => rfl
    | false => rfl
  rw [hflags, bind_ok (get_apply _)]
  have hreq : (s.shutDown fromStop).isCancellationRequested = s.isCancellationRequested := rfl
  have hdisposed : (s.shutDown fromStop).cancellationDisposed = s.cancellationDisposed := rfl
  simp only [hreq]
  by_cases hopen : s.isCancellationRequested = some false
  · rw [if_pos hopen, if_pos hopen, bind_apply, cancel_eq, hdisposed]
    cases s.cancellationDisposed with
    | true => rfl
    | false => rfl
  · rw [if_neg hopen, if_neg hopen]
    rfl

/-- The state after a step. -/
def after (s : ResourceWatcher R) : Action R → ResourceWatcher R
  | .start => s.watched
  | .stop => finalState (disposing true s)
  | .dispose => finalState (disposing false s)
  | .subscribe => match s.watchEvents.subscribe with
    | .ok watchEvents => { s with watchEvents }
    | .error _ => s
  | .watching i value =>
    { s with watchers := s.watchers.update i fun w => { w with watching := value } }
  | .event _ type resource => finalState (onWatcherEvent type resource s)
  | .exception _ e jitter =>
    if s.cancellationDisposed then s
    else if e.isTaskCanceled && e.innerIsIOException then s.dropped.openWatcher
    else s.dropped.scheduled jitter
  | .close _ =>
    if s.isCancellationRequested = some false ∧ s.cancellationDisposed = false
    then s.dropped.openWatcher else s
  | .reconnectTimer => watched { s with reconnect := none }
  | .resetTimer => { s with resetReconnectCounter := false, reconnectAttempts := 0 }

theorem step_eq (s : ResourceWatcher R) (a : Action R) :
    s.step a = if s.enabled a then some (s.after a) else none := by
  have hfinal : finalState (handler a s) = s.after a := by
    cases a with
    | start => exact congrArg finalState (watchResource_eq s)
    | stop => rfl
    | dispose => rfl
    | subscribe =>
      simp only [handler, after, bind_apply, get_apply]
      cases s.watchEvents.subscribe with
      | ok watchEvents => rfl
      | error e => rfl
    | watching i value => rfl
    | event i type resource => rfl
    | exception i e jitter => exact finalState_onException e jitter s
    | close i => exact finalState_onClose s
    | reconnectTimer => exact congrArg finalState (watchResource_eq { s with reconnect := none })
    | resetTimer => rfl
  rw [step, hfinal]

theorem step_some {s s' : ResourceWatcher R} {a : Action R} (h : s.step a = some s') :
    s.enabled a = true ∧ s' = s.after a := by
  rw [step_eq] at h
  split at h
  · rename_i henabled
    cases h
    exact ⟨henabled, rfl⟩
  · cases h

/-- What `OnWatcherEvent` hands on. -/
def isRelevant : WatchEventType → Bool
  | .added | .modified | .deleted => true
  | .error | .bookmark => false

theorem onWatcherEvent_eq (type : WatchEventType) (resource : R) (s : ResourceWatcher R) :
    finalState (onWatcherEvent type resource s) =
      { s with watchEvents := if isRelevant type then s.watchEvents.deliver (type, resource)
        else s.watchEvents } := by
  have hnext : finalState ((do
      let s ← get
      let watchEvents ← ofExcept (s.watchEvents.onNext (type, resource))
      set { s with watchEvents } : EStateM Exn (ResourceWatcher R) Unit) s) =
        { s with watchEvents := s.watchEvents.deliver (type, resource) } := by
    rw [bind_ok (get_apply s)]
    simp only [bind_apply, Subject.deliver]
    cases s.watchEvents.onNext (type, resource) with
    | ok watchEvents => rfl
    | error e => rfl
  cases type with
  | added => exact hnext
  | modified => exact hnext
  | deleted => exact hnext
  | error => rfl
  | bookmark => rfl

theorem scheduled_eq (jitter : ℕ) (s : ResourceWatcher R) : s.scheduled jitter =
    { s with
      reconnectAttempts := toInt32 (s.reconnectAttempts + 1)
      resetReconnectCounter := true
      reconnect := if s.reconnectHandlerDisposed || s.reconnectSubscriptionDisposed then s.reconnect
        else some (exponentialBackoff (toInt32 (s.reconnectAttempts + 1)) jitter) } := by
  unfold scheduled scheduleReconnect
  rw [bind_ok (get_apply _)]
  cases hh : s.reconnectHandlerDisposed with
  | true => rfl
  | false =>
    cases hs : s.reconnectSubscriptionDisposed with
    | true => rfl
    | false => rfl

end ResourceWatcher

end Sentinel
