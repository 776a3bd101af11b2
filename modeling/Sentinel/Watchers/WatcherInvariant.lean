import Sentinel.Watchers.ResourceWatcher
import Sentinel.Lib.Runs

/-!
# At most one open watcher

* `WellFormed.step` — whatever happens, only the current watcher may be open.
* `Running.step` — between `Start` and `Stop`, the current watcher is open and not cancelled, or
  there is none and a reconnect timer is pending.
* `Stopped.step` — after `Stop` nothing opens a watcher until the next `Start`.
* `one_watcher` — the three together, over every run.
-/

set_option autoImplicit false

namespace Sentinel.ResourceWatcher

open Throwing Runs

variable {R : Type} {s s' : ResourceWatcher R} {a : Action R}

/-! ## Well-formed states -/

structure WellFormed (s : ResourceWatcher R) : Prop where
  open_current : ∀ i w, s.watchers.read i = some w → w.disposed = false → s.watcher = some i
  watcher_lt : ∀ i, s.watcher = some i → i < s.watchers.next
  cancellation_lt : ∀ c, s.cancellation = some c → c < s.cancellations.next
  unstarted : s.cancellation = none → s.watchers.next = 0

def AllDisposed (s : ResourceWatcher R) : Prop :=
  ∀ i w, s.watchers.read i = some w → w.disposed = true

theorem wellFormed_new : WellFormed (new : ResourceWatcher R) where
  open_current i w h := by simp [new, Heap.read, Heap.empty] at h
  watcher_lt i h := by cases h
  cancellation_lt c h := by cases h
  unstarted _ := rfl

/-- Only these parts of the state matter. -/
theorem WellFormed.congr (h : WellFormed s) (hwatchers : s'.watchers = s.watchers)
    (hwatcher : s'.watcher = s.watcher) (hcancellation : s'.cancellation = s.cancellation)
    (hnext : s'.cancellations.next = s.cancellations.next) : WellFormed s' where
  open_current := by rw [hwatchers, hwatcher]; exact h.open_current
  watcher_lt := by rw [hwatchers, hwatcher]; exact h.watcher_lt
  cancellation_lt := by rw [hcancellation, hnext]; exact h.cancellation_lt
  unstarted := by rw [hwatchers, hcancellation]; exact h.unstarted

theorem next_updateCancellation (f : CancellationTokenSource → CancellationTokenSource) :
    (s.updateCancellation f).cancellations.next = s.cancellations.next := by
  unfold updateCancellation
  cases s.cancellation with
  | none => rfl
  | some c => exact Heap.next_update

theorem WellFormed.updateCancellation (h : WellFormed s)
    (f : CancellationTokenSource → CancellationTokenSource) :
    WellFormed (s.updateCancellation f) :=
  h.congr rfl rfl rfl (next_updateCancellation f)

/-- Changing watchers without opening one. -/
theorem WellFormed.updateWatcher (h : WellFormed s) (i : Ref) {f : Watcher → Watcher}
    (hf : ∀ w, (f w).disposed = false → w.disposed = false) :
    WellFormed { s with watchers := s.watchers.update i f } where
  open_current j w hread hopen := by
    simp only [Heap.read_update] at hread
    split at hread
    · obtain ⟨v, hv, rfl⟩ := Option.map_eq_some_iff.1 hread
      exact h.open_current j v hv (hf v hopen)
    · exact h.open_current j w hread hopen
  watcher_lt j hj := by rw [Heap.next_update]; exact h.watcher_lt j hj
  cancellation_lt := h.cancellation_lt
  unstarted hnone := by rw [Heap.next_update]; exact h.unstarted hnone

theorem WellFormed.disposeWatcher (h : WellFormed s) : WellFormed s.disposeWatcher := by
  unfold ResourceWatcher.disposeWatcher
  cases hw : s.watcher with
  | none => exact h.congr rfl hw.symm rfl rfl
  | some i =>
    have := h.updateWatcher i (f := fun w => { w with disposed := true }) fun w hw => by cases hw
    exact this.congr rfl hw.symm rfl rfl

theorem WellFormed.allDisposed (h : WellFormed s) : AllDisposed s.disposeWatcher := by
  intro i w hread
  by_contra hopen
  have hopen := Bool.eq_false_of_not_eq_true hopen
  have hcurrent : s.watcher = some i := h.disposeWatcher.open_current i w hread hopen
  simp only [ResourceWatcher.disposeWatcher, hcurrent, Heap.read_update, if_true] at hread
  obtain ⟨v, -, rfl⟩ := Option.map_eq_some_iff.1 hread
  cases hopen

theorem AllDisposed.openWatcher (hall : AllDisposed s) : WellFormed s.openWatcher where
  open_current i w hread hopen := by
    by_cases hi : i < s.watchers.next
    · have hread : s.watchers.read i = some w := (Heap.read_alloc_of_lt hi).symm.trans hread
      rw [hall i w hread] at hopen
      cases hopen
    · have hlt : i < s.watchers.next + 1 := by
        have := Heap.lt_next_of_read hread
        simpa [ResourceWatcher.openWatcher] using this
      exact congrArg some (le_antisymm (Nat.not_lt.1 hi) (Nat.lt_succ_iff.1 hlt))
  watcher_lt i hi := by
    cases hi
    simp [ResourceWatcher.openWatcher]
  cancellation_lt c hc := by
    cases hc
    simp [ResourceWatcher.openWatcher]
  unstarted hnone := by cases hnone

theorem WellFormed.watched (h : WellFormed s) : WellFormed s.watched := by
  unfold ResourceWatcher.watched
  split
  · exact h
  · exact h.allDisposed.openWatcher

theorem WellFormed.dropped (h : WellFormed s) : AllDisposed s.dropped ∧ WellFormed s.dropped := by
  have hall : AllDisposed s.dropped := (h.updateCancellation _).allDisposed
  refine ⟨hall, ?_⟩
  have hc : WellFormed s.cancelled.disposeWatcher := (h.updateCancellation _).disposeWatcher
  refine ⟨fun i w hread hopen => ?_, fun i hi => ?_, hc.cancellation_lt, hc.unstarted⟩
  · rw [hall i w hread] at hopen
    cases hopen
  · cases hi

theorem WellFormed.disposing (h : WellFormed s) (fromStop : Bool) :
    WellFormed (finalState (disposing fromStop s)) := by
  have hdown : WellFormed (s.shutDown fromStop) := h.congr rfl rfl rfl rfl
  rw [finalState_disposing]
  split
  · split
    · exact hdown
    · exact ((hdown.updateCancellation _).updateCancellation _).disposeWatcher
  · exact (hdown.updateCancellation _).disposeWatcher

theorem WellFormed.after (h : WellFormed s) (a : Action R) : WellFormed (s.after a) := by
  cases a with
  | start => exact h.watched
  | stop => exact h.disposing true
  | dispose => exact h.disposing false
  | subscribe =>
    simp only [ResourceWatcher.after]
    split
    · exact h.congr rfl rfl rfl rfl
    · exact h
  | watching i value => exact h.updateWatcher i fun w hw => hw
  | event i type resource =>
    rw [ResourceWatcher.after, onWatcherEvent_eq]
    exact h.congr rfl rfl rfl rfl
  | exception i e jitter =>
    simp only [ResourceWatcher.after]
    split
    · exact h
    · split
      · exact h.dropped.1.openWatcher
      · rw [scheduled_eq]
        exact h.dropped.2.congr rfl rfl rfl rfl
  | close i =>
    simp only [ResourceWatcher.after]
    split
    · exact h.dropped.1.openWatcher
    · exact h
  | reconnectTimer =>
    have hfired : WellFormed { s with reconnect := none } := h.congr rfl rfl rfl rfl
    exact hfired.watched
  | resetTimer => exact h.congr rfl rfl rfl rfl

theorem WellFormed.step (h : WellFormed s) (hstep : s.step a = some s') : WellFormed s' :=
  (step_some hstep).2 ▸ h.after a

/-! ## While it runs -/

/-- The current watcher is open, and the source of its token is the current one and not
cancelled. -/
def Connected (s : ResourceWatcher R) : Prop :=
  ∃ i w, s.watcher = some i ∧ s.watchers.read i = some w ∧ w.disposed = false ∧
    s.cancellation = some w.token ∧ s.isCancellationRequested = some false

/-- There is no current watcher, the last source is cancelled, and a reconnect is scheduled. -/
def Waiting (s : ResourceWatcher R) : Prop :=
  s.watcher = none ∧ s.isCancellationRequested = some true ∧ s.reconnect.isSome = true

/-- `Stop` and `Dispose` have not been called. -/
structure NotDisposed (s : ResourceWatcher R) : Prop where
  handler : s.reconnectHandlerDisposed = false
  subscription : s.reconnectSubscriptionDisposed = false
  usable : s.cancellationDisposed = false

structure Running (s : ResourceWatcher R) : Prop extends WellFormed s, NotDisposed s where
  connected : Connected s ∨ Waiting s

/-- Nothing has happened yet, apart from subscriptions. -/
structure Unstarted (s : ResourceWatcher R) : Prop extends WellFormed s, NotDisposed s where
  no_cancellation : s.cancellation = none
  no_watcher : s.watcher = none
  no_reconnect : s.reconnect = none
  no_reset : s.resetReconnectCounter = false

/-- A fresh watcher comes with a fresh source. -/
theorem running_openWatcher (hall : AllDisposed s) (hhandler : s.reconnectHandlerDisposed = false)
    (hsubscription : s.reconnectSubscriptionDisposed = false) : Running s.openWatcher where
  toWellFormed := hall.openWatcher
  handler := hhandler
  subscription := hsubscription
  usable := by simp [openWatcher, cancellationDisposed]
  connected := Or.inl ⟨_, _, rfl, Heap.read_alloc_next, rfl, rfl, by
    simp [isCancellationRequested, openWatcher]⟩

theorem cancellationDisposed_cancelled :
    s.cancelled.cancellationDisposed = s.cancellationDisposed := by
  unfold cancellationDisposed cancelled updateCancellation
  cases s.cancellation with
  | none => rfl
  | some c =>
    simp only [Heap.read_update, if_true]
    cases s.cancellations.read c with
    | none => rfl
    | some source => rfl

theorem isCancellationRequested_cancelled {b : Bool} (h : s.isCancellationRequested = some b) :
    s.cancelled.isCancellationRequested = some true := by
  obtain ⟨c, hc, hread⟩ := Option.bind_eq_some_iff.1 h
  obtain ⟨source, hsource, -⟩ := Option.map_eq_some_iff.1 hread
  simp [isCancellationRequested, cancelled, updateCancellation, hc, Heap.read_update, hsource]

theorem NotDisposed.dropped (h : NotDisposed s) : NotDisposed s.dropped :=
  ⟨h.handler, h.subscription, cancellationDisposed_cancelled.trans h.usable⟩

theorem Running.requested (h : Running s) : ∃ b, s.isCancellationRequested = some b := by
  rcases h.connected with ⟨_, _, -, -, -, -, hb⟩ | ⟨-, hb, -⟩
  · exact ⟨_, hb⟩
  · exact ⟨_, hb⟩

theorem Running.watched (h : Running s) : Running s.watched := by
  unfold ResourceWatcher.watched
  split
  · exact h
  · exact running_openWatcher h.allDisposed h.handler h.subscription

/-- Between `Start` and `Stop`, whatever happens. -/
theorem Running.after (h : Running s) (hstop : a ≠ .stop) (hdispose : a ≠ .dispose) :
    Running (s.after a) := by
  have hwell := h.toWellFormed.after a
  cases a with
  | start => exact h.watched
  | stop => exact absurd rfl hstop
  | dispose => exact absurd rfl hdispose
  | subscribe =>
    simp only [ResourceWatcher.after]
    split
    · exact ⟨h.toWellFormed.congr rfl rfl rfl rfl, ⟨h.handler, h.subscription, h.usable⟩,
        h.connected⟩
    · exact h
  | watching i value =>
    refine ⟨hwell, ⟨h.handler, h.subscription, h.usable⟩, h.connected.imp ?_ id⟩
    rintro ⟨j, w, hj, hread, hopen, hcancellation, hrequested⟩
    by_cases hij : i = j
    · subst hij
      exact ⟨i, { w with watching := value }, hj, by
        simp [ResourceWatcher.after, Heap.read_update, hread], hopen, hcancellation, hrequested⟩
    · exact ⟨j, w, hj, by simp [ResourceWatcher.after, Heap.read_update, hij, hread], hopen,
        hcancellation, hrequested⟩
  | event i type resource =>
    rw [ResourceWatcher.after, onWatcherEvent_eq]
    exact ⟨h.toWellFormed.congr rfl rfl rfl rfl, ⟨h.handler, h.subscription, h.usable⟩,
      h.connected⟩
  | exception i e jitter =>
    simp only [ResourceWatcher.after] at hwell ⊢
    rw [h.usable] at hwell ⊢
    simp only [Bool.false_eq_true, if_false] at hwell ⊢
    have hdropped := h.toNotDisposed.dropped
    split
    · exact running_openWatcher h.dropped.1 h.handler h.subscription
    · rename_i hother
      rw [if_neg hother] at hwell
      obtain ⟨b, hb⟩ := h.requested
      rw [scheduled_eq] at hwell ⊢
      have hrequested : s.dropped.isCancellationRequested = some true :=
        isCancellationRequested_cancelled hb
      refine ⟨hwell, ⟨h.handler, h.subscription, hdropped.usable⟩,
        Or.inr ⟨rfl, hrequested, ?_⟩⟩
      simp [hdropped.handler, hdropped.subscription]
  | close i =>
    simp only [ResourceWatcher.after]
    split
    · exact running_openWatcher h.dropped.1 h.handler h.subscription
    · exact h
  | reconnectTimer =>
    simp only [ResourceWatcher.after, ResourceWatcher.watched]
    split
    · rename_i hwatching
      refine ⟨h.toWellFormed.congr rfl rfl rfl rfl, ⟨h.handler, h.subscription, h.usable⟩, ?_⟩
      rcases h.connected with hconnected | ⟨hnone, -, -⟩
      · exact Or.inl hconnected
      · simp [isWatching, hnone] at hwatching
    · have hfired : WellFormed { s with reconnect := none } :=
        h.toWellFormed.congr rfl rfl rfl rfl
      exact running_openWatcher hfired.allDisposed h.handler h.subscription
  | resetTimer =>
    exact ⟨h.toWellFormed.congr rfl rfl rfl rfl, ⟨h.handler, h.subscription, h.usable⟩,
      h.connected⟩

/-- Before the first `Start` there are no watchers, and so no callbacks. -/
theorem Unstarted.step (h : Unstarted s) (hstep : s.step a = some s') (hstart : a ≠ .start)
    (hstop : a ≠ .stop) (hdispose : a ≠ .dispose) : Unstarted s' := by
  obtain ⟨henabled, rfl⟩ := step_some hstep
  have hnone : s.watchers.next = 0 := h.unstarted h.no_cancellation
  cases a with
  | start => exact absurd rfl hstart
  | stop => exact absurd rfl hstop
  | dispose => exact absurd rfl hdispose
  | subscribe =>
    simp only [ResourceWatcher.after]
    split
    · exact ⟨h.toWellFormed.congr rfl rfl rfl rfl, ⟨h.handler, h.subscription, h.usable⟩,
        h.no_cancellation, h.no_watcher, h.no_reconnect, h.no_reset⟩
    · exact h
  | watching i value => simp [enabled, hnone] at henabled
  | event i type resource => simp [enabled, Action.sender, hnone] at henabled
  | exception i e jitter => simp [enabled, Action.sender, hnone] at henabled
  | close i => simp [enabled, Action.sender, hnone] at henabled
  | reconnectTimer => simp [enabled, h.no_reconnect] at henabled
  | resetTimer => simp [enabled, h.no_reset] at henabled

theorem Unstarted.start (h : Unstarted s) : Running (s.after .start) := by
  have hnot : s.isWatching = false := by simp [isWatching, h.no_watcher]
  simp only [ResourceWatcher.after, ResourceWatcher.watched, hnot, Bool.false_eq_true, if_false]
  exact running_openWatcher h.allDisposed h.handler h.subscription

theorem unstarted_new : Unstarted (new : ResourceWatcher R) :=
  ⟨wellFormed_new, ⟨rfl, rfl, rfl⟩, rfl, rfl, rfl, rfl⟩

/-! ## After `Stop` -/

structure Stopped (s : ResourceWatcher R) : Prop where
  no_reconnect : s.reconnect = none
  released : s.cancellationDisposed = true ∨ s.watchers.next = 0

theorem next_disposeWatcher : s.disposeWatcher.watchers.next = s.watchers.next := by
  unfold disposeWatcher
  cases s.watcher with
  | none => rfl
  | some i => exact Heap.next_update

theorem stopped_released (h : WellFormed s) (hreconnect : s.reconnect = none) :
    Stopped s.released := by
  refine ⟨hreconnect, ?_⟩
  cases hc : s.cancellation with
  | none => exact Or.inr (next_disposeWatcher.trans (h.unstarted hc))
  | some c =>
    obtain ⟨source, hread⟩ : ∃ source, s.cancellations.read c = some source :=
      ⟨_, List.getElem?_eq_getElem (h.cancellation_lt c hc)⟩
    apply Or.inl
    simp [ResourceWatcher.released, disposeWatcher, cancellationDisposed, updateCancellation, hc,
      Heap.read_update, hread]

theorem next_disposing (fromStop : Bool) :
    (finalState (disposing fromStop s)).watchers.next = s.watchers.next := by
  rw [finalState_disposing]
  split
  · split
    · rfl
    · exact next_disposeWatcher
  · exact next_disposeWatcher

theorem stopped_disposing (h : WellFormed s) (fromStop : Bool) :
    Stopped (finalState (disposing fromStop s)) := by
  have hdown : WellFormed (s.shutDown fromStop) := h.congr rfl rfl rfl rfl
  rw [finalState_disposing]
  split
  · split
    · rename_i hdisposed
      exact ⟨rfl, Or.inl hdisposed⟩
    · exact stopped_released (hdown.updateCancellation _) rfl
  · exact stopped_released hdown rfl

/-- Once stopped, only `Start` can open a watcher. -/
theorem Stopped.step (h : Stopped s) (hwell : WellFormed s) (hstep : s.step a = some s')
    (hstart : a ≠ .start) : Stopped s' ∧ s'.watchers.next = s.watchers.next := by
  obtain ⟨henabled, rfl⟩ := step_some hstep
  -- a callback needs a watcher, and finds its source disposed
  have hcallback : ∀ {i : Ref}, i < s.watchers.next → s.cancellationDisposed = true :=
    fun hlt => h.released.resolve_right (Nat.ne_zero_of_lt hlt)
  cases a with
  | start => exact absurd rfl hstart
  | stop => exact ⟨stopped_disposing hwell true, next_disposing true⟩
  | dispose => exact ⟨stopped_disposing hwell false, next_disposing false⟩
  | subscribe =>
    simp only [ResourceWatcher.after]
    split
    · exact ⟨⟨h.no_reconnect, h.released⟩, rfl⟩
    · exact ⟨h, rfl⟩
  | watching i value =>
    refine ⟨⟨h.no_reconnect, ?_⟩, Heap.next_update⟩
    rw [ResourceWatcher.after, Heap.next_update]
    exact h.released
  | event i type resource =>
    rw [ResourceWatcher.after, onWatcherEvent_eq]
    exact ⟨⟨h.no_reconnect, h.released⟩, rfl⟩
  | exception i e jitter =>
    have hlt : i < s.watchers.next := by simpa [enabled, Action.sender] using henabled
    have hdisposed := hcallback hlt
    simp only [ResourceWatcher.after, hdisposed, if_true]
    exact ⟨h, trivial⟩
  | close i =>
    have hlt : i < s.watchers.next := by simpa [enabled, Action.sender] using henabled
    have hdisposed := hcallback hlt
    simp only [ResourceWatcher.after, hdisposed, Bool.true_eq_false, and_false, if_false]
    exact ⟨h, trivial⟩
  | reconnectTimer => simp [enabled, h.no_reconnect] at henabled
  | resetTimer => exact ⟨⟨h.no_reconnect, h.released⟩, rfl⟩

/-! ## Every run -/

theorem wellFormed_of_run {actions : List (Action R)} (h : run step actions new = some s) :
    WellFormed s :=
  run_invariant WellFormed (fun _ => True) (fun _ _ _ h _ hstep => h.step hstep) wellFormed_new
    (fun _ _ => trivial) h

/-- Before `Stop` and `Dispose`, the watcher is unstarted or running. -/
theorem running_of_run {actions : List (Action R)} (h : run step actions new = some s)
    (hstop : .stop ∉ actions) (hdispose : .dispose ∉ actions) :
    (.start ∈ actions → Running s) ∧ (.start ∉ actions → Unstarted s) := by
  refine run_induction (motive := fun actions s => .stop ∉ actions → .dispose ∉ actions →
    (.start ∈ actions → Running s) ∧ (.start ∉ actions → Unstarted s)) ?_ ?_ h hstop hdispose
  · exact fun _ _ => ⟨fun hmem => absurd hmem List.not_mem_nil, fun _ => unstarted_new⟩
  · intro as s₁ a s₂ _ ih hstep hstop hdispose
    simp only [List.mem_append, List.mem_singleton, not_or] at hstop hdispose ⊢
    obtain ⟨hrunning, hunstarted⟩ := ih hstop.1 hdispose.1
    have hne : a ≠ .stop ∧ a ≠ .dispose := ⟨Ne.symm hstop.2, Ne.symm hdispose.2⟩
    refine ⟨fun hmem => ?_, fun hmem => ?_⟩
    · by_cases hstarted : .start ∈ as
      · exact (step_some hstep).2 ▸ (hrunning hstarted).after hne.1 hne.2
      · obtain rfl := hmem.resolve_left hstarted
        exact (step_some hstep).2 ▸ (hunstarted hstarted).start
    · exact (hunstarted hmem.1).step hstep (Ne.symm hmem.2) hne.1 hne.2

theorem next_of_stopped {actions : List (Action R)} (hwell : WellFormed s) (hstopped : Stopped s)
    (hstart : .start ∉ actions) (h : run step actions s = some s') :
    s'.watchers.next = s.watchers.next := by
  have hinv : WellFormed s' ∧ Stopped s' ∧ s'.watchers.next = s.watchers.next := by
    refine run_invariant (fun u => WellFormed u ∧ Stopped u ∧ u.watchers.next = s.watchers.next)
      (fun a => a ≠ Action.start) ?_ ⟨hwell, hstopped, rfl⟩ (fun a ha heq => hstart (heq ▸ ha)) h
    rintro s₁ a s₂ ⟨hwell, hstopped, hnext⟩ hne hstep
    obtain ⟨hstopped', hnext'⟩ := hstopped.step hwell hstep hne
    exact ⟨hwell.step hstep, hstopped', hnext'.trans hnext⟩
  exact hinv.2.2

/-- **One watcher**: in every run, only the current watcher may be open; between the first `Start`
and `Stop`, it is open and not cancelled, or a reconnect timer is pending; after `Stop` or
`Dispose`, no step before the next `Start` creates a watcher. -/
theorem one_watcher {actions : List (Action R)} (h : run step actions new = some s) :
    (∀ i w, s.watchers.read i = some w → w.disposed = false → s.watcher = some i) ∧
    (.start ∈ actions → .stop ∉ actions → .dispose ∉ actions →
      (∃ i w c, s.watcher = some i ∧ s.watchers.read i = some w ∧ w.disposed = false ∧
        s.cancellations.read w.token = some c ∧ c.isCancellationRequested = false) ∨
      s.reconnect.isSome = true) ∧
    ∀ before a rest s₁, actions = before ++ a :: rest → a = .stop ∨ a = .dispose →
      .start ∉ rest → run step (before ++ [a]) new = some s₁ →
      s.watchers.next = s₁.watchers.next := by
  refine ⟨(wellFormed_of_run h).open_current, fun hstart hstop hdispose => ?_, ?_⟩
  · rcases ((running_of_run h hstop hdispose).1 hstart).connected with
      ⟨i, w, hi, hread, hopen, hcancellation, hrequested⟩ | ⟨-, -, hreconnect⟩
    · simp only [isCancellationRequested, hcancellation, Option.bind_some] at hrequested
      obtain ⟨c, hc, hrequested⟩ := Option.map_eq_some_iff.1 hrequested
      exact Or.inl ⟨i, w, c, hi, hread, hopen, hc, hrequested⟩
    · exact Or.inr hreconnect
  · intro before a rest s₁ heq ha hstart hrun₁
    have hwell := wellFormed_of_run hrun₁
    have hstopped : Stopped s₁ := by
      obtain ⟨s₀, hrun₀, hlast⟩ := run_append_eq_some hrun₁
      rw [run_singleton] at hlast
      rw [(step_some hlast).2]
      rcases ha with rfl | rfl
      · exact stopped_disposing (wellFormed_of_run hrun₀) true
      · exact stopped_disposing (wellFormed_of_run hrun₀) false
    rw [heq, show before ++ a :: rest = (before ++ [a]) ++ rest by simp] at h
    obtain ⟨s₁', hrun₁', hrest⟩ := run_append_eq_some h
    obtain rfl := Option.some.inj (hrun₁.symm.trans hrun₁')
    exact next_of_stopped hwell hstopped hstart hrest

/-- An error, the reconnect, `Stop`, and the end of the last watcher after it. -/
def lifeCycle : List (Action Unit) :=
  [.start, .exception 0 ⟨false, false⟩ 0, .reconnectTimer, .stop, .close 1]

theorem one_watcher_lifeCycle : ∃ s s₁ : ResourceWatcher Unit,
    run step (lifeCycle.take 2) new = some s₁ ∧ s₁.reconnect.isSome = true ∧
      run step lifeCycle new = some s ∧ s.watchers.next = 2 ∧
      ∀ i w, s.watchers.read i = some w → w.disposed = false → s.watcher = some i := by
  obtain ⟨-, hwaiting, -⟩ := one_watcher (show run step (lifeCycle.take 2) new = some _ from rfl)
  obtain ⟨hopen, -, hstopped⟩ := one_watcher (show run step lifeCycle new = some _ from rfl)
  refine ⟨_, _, rfl, ?_, rfl, ?_, hopen⟩
  · rcases hwaiting (by simp [lifeCycle]) (by simp [lifeCycle]) (by simp [lifeCycle]) with
      ⟨_, _, _, hnone, -⟩ | hreconnect
    · cases hnone
    · exact hreconnect
  · exact hstopped (lifeCycle.take 3) .stop [.close 1] _ rfl (Or.inl rfl) (by simp) rfl

end Sentinel.ResourceWatcher
