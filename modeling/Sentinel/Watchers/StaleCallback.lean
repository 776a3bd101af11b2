import Sentinel.Watchers.WatcherInvariant

/-!
# Callbacks of replaced watchers

`OnException` and `OnClose` act on the current watcher, whichever watcher they come from.

* `spares_iff` — in every run without `Stop`, callbacks of other watchers spare the current one at
  every step iff no error or close of another watcher arrives while there is a current one.
* `next_le_cost` — in such a run every new watcher is accounted for by a `Start` or by one close or
  error.
* `reconnect_storm` — one reopening error is enough for any number of watchers.
-/

set_option autoImplicit false

namespace Sentinel.ResourceWatcher

open Throwing Runs

variable {R : Type} {s s' : ResourceWatcher R} {a : Action R}

/-- The watcher whose loop reports an error or its end. -/
def Action.failing : Action R → Option Ref
  | .exception i .. | .close i => some i
  | _ => none

/-- The current watcher stays current, is not disposed, and its source is not cancelled. -/
def Spares (s s' : ResourceWatcher R) : Prop :=
  ∀ j w, s.watcher = some j → s.watchers.read j = some w →
    s'.watcher = some j ∧ (∃ w', s'.watchers.read j = some w' ∧ w'.disposed = w.disposed) ∧
      ∀ c, s.cancellations.read w.token = some c → ∃ c', s'.cancellations.read w.token = some c' ∧
        c'.isCancellationRequested = c.isCancellationRequested

/-- A callback of a watcher that is not the current one spares the current one. -/
def IgnoresStale (s : ResourceWatcher R) (a : Action R) (s' : ResourceWatcher R) : Prop :=
  ∀ i, a.sender = some i → s.watcher ≠ some i → Spares s s'

/-- No error or close of another watcher arrives while there is a current one. -/
def NoneStale (s : ResourceWatcher R) (a : Action R) (_ : ResourceWatcher R) : Prop :=
  ∀ i, a.failing = some i → s.watcher ≠ some i → s.watcher = none

theorem Spares.refl (s : ResourceWatcher R) : Spares s s :=
  fun _ w hj hread => ⟨hj, ⟨w, hread, rfl⟩, fun c hc => ⟨c, hc, rfl⟩⟩

/-! ## One step -/

/-- While there is a current watcher, every error and close replaces or drops it. -/
theorem Running.watcher_of_failing (h : Running s) {i j : Ref} (hfailing : a.failing = some i)
    (hj : s.watcher = some j) : (s.after a).watcher ≠ some j := by
  have hlt : j < s.watchers.next := h.watcher_lt j hj
  have hnew : s.dropped.openWatcher.watcher ≠ some j := by
    intro heq
    have hnext : s.dropped.watchers.next = s.watchers.next := next_disposeWatcher
    have : s.dropped.watchers.next = j := Option.some.inj heq
    exact absurd (hnext.symm.trans this) (Nat.ne_of_gt hlt)
  have hrequested : s.isCancellationRequested = some false := by
    rcases h.connected with ⟨_, _, -, -, -, -, hb⟩ | ⟨hnone, -, -⟩
    · exact hb
    · rw [hj] at hnone
      cases hnone
  cases a with
  | exception k e jitter =>
    simp only [ResourceWatcher.after, h.usable, Bool.false_eq_true, if_false]
    split
    · exact hnew
    · rw [scheduled_eq]
      simp [ResourceWatcher.dropped]
  | close k =>
    simp only [ResourceWatcher.after, hrequested, h.usable, and_self, if_true]
    exact hnew
  | _ => cases hfailing

theorem Running.ignoresStale_iff (h : Running s) (hstep : s.step a = some s') :
    IgnoresStale s a s' ↔ NoneStale s a s' := by
  obtain ⟨-, rfl⟩ := step_some hstep
  constructor
  · intro hignores i hfailing hne
    have hsender : a.sender = some i := by
      cases a with
      | exception => exact hfailing
      | close => exact hfailing
      | _ => cases hfailing
    cases hj : s.watcher with
    | none => rfl
    | some j =>
      obtain ⟨w, hread⟩ : ∃ w, s.watchers.read j = some w :=
        ⟨_, List.getElem?_eq_getElem (h.watcher_lt j hj)⟩
      exact absurd (hignores i hsender hne j w hj hread).1 (h.watcher_of_failing hfailing hj)
  · intro hnone i hsender hne j w hj hread
    cases a with
    | event k type resource =>
      rw [ResourceWatcher.after, onWatcherEvent_eq]
      exact Spares.refl s j w hj hread
    | exception k e jitter =>
      rw [hnone i hsender hne] at hj
      cases hj
    | close k =>
      rw [hnone i hsender hne] at hj
      cases hj
    | _ => cases hsender

/-! ## Counting watchers -/

/-- What may open a watcher: `Start`, the end or an error of the current watcher, and an error
that reopens the watch while there is no current watcher. -/
def charge (s : ResourceWatcher R) : Action R → ℕ
  | .start => 1
  | .close i => if s.watcher = some i then 1 else 0
  | .exception i e _ =>
    if s.watcher = some i ∨ s.watcher = none ∧ e.isTaskCanceled ∧ e.innerIsIOException then 1
    else 0
  | _ => 0

/-- A pending timer may open one watcher. -/
def pending (s : ResourceWatcher R) : ℕ := if s.reconnect.isSome then 1 else 0

def created (s : ResourceWatcher R) : ℕ := s.watchers.next + s.pending

theorem pending_le (s : ResourceWatcher R) : s.pending ≤ 1 := by
  unfold pending
  split
  · exact Nat.le_refl _
  · exact Nat.zero_le _

theorem next_openWatcher : s.openWatcher.watchers.next = s.watchers.next + 1 := Heap.next_alloc

theorem next_dropped : s.dropped.watchers.next = s.watchers.next := next_disposeWatcher

theorem next_watched (s : ResourceWatcher R) :
    s.watched.watchers.next ≤ s.watchers.next + 1 ∧ s.watched.pending = s.pending := by
  unfold watched
  split
  · exact ⟨Nat.le_succ _, rfl⟩
  · exact ⟨by rw [next_openWatcher, next_disposeWatcher], rfl⟩

theorem created_start (s : ResourceWatcher R) :
    created (s.after .start) ≤ created s + charge s .start := by
  obtain ⟨hnext, hpending⟩ := next_watched s
  simp only [after, created, charge, hpending]
  omega

theorem Running.created_le (h : Running s) (hstep : s.step a = some s') (hnone : NoneStale s a s')
    (hstop : a ≠ .stop) (hdispose : a ≠ .dispose) : created s' ≤ created s + charge s a := by
  obtain ⟨henabled, rfl⟩ := step_some hstep
  have hopened : created s.dropped.openWatcher = created s + 1 := by
    rw [created, next_openWatcher, next_dropped]
    exact Nat.add_right_comm _ _ _
  cases a with
  | start => exact created_start s
  | stop => exact absurd rfl hstop
  | dispose => exact absurd rfl hdispose
  | subscribe =>
    simp only [ResourceWatcher.after]
    cases s.watchEvents.subscribe with
    | ok watchEvents => exact Nat.le_refl _
    | error e => exact Nat.le_refl _
  | watching i value =>
    simp only [ResourceWatcher.after, created, charge, Heap.next_update]
    exact Nat.le_refl _
  | event i type resource =>
    rw [ResourceWatcher.after, onWatcherEvent_eq]
    exact Nat.le_refl _
  | exception i e jitter =>
    -- the error comes from the current watcher, or finds none
    have hsender : s.watcher = some i ∨ s.watcher = none := by
      by_cases hi : s.watcher = some i
      · exact Or.inl hi
      · exact Or.inr (hnone i rfl hi)
    simp only [ResourceWatcher.after, h.usable, Bool.false_eq_true, if_false, charge]
    split
    · rename_i hreopen
      rw [Bool.and_eq_true] at hreopen
      rw [if_pos (hsender.imp_right fun hnone => ⟨hnone, hreopen⟩), hopened]
    · have hnext : (s.dropped.scheduled jitter).watchers.next = s.watchers.next := by
        rw [scheduled_eq]
        exact next_dropped
      have hle := pending_le (s.dropped.scheduled jitter)
      unfold created
      rw [hnext]
      rcases hsender with hi | hi
      · rw [if_pos (Or.inl hi)]
        omega
      · -- the timer is pending already, and is replaced
        have hpending : s.pending = 1 := by
          rcases h.connected with ⟨_, _, hsome, -⟩ | ⟨-, -, hpending⟩
          · rw [hi] at hsome
            cases hsome
          · exact if_pos hpending
        omega
  | close i =>
    simp only [ResourceWatcher.after, charge]
    split
    · rename_i hopen
      have hi : s.watcher = some i := by
        rcases h.connected with ⟨j, _, hj, -⟩ | ⟨-, hrequested, -⟩
        · by_contra hi
          rw [hnone i rfl hi] at hj
          cases hj
        · rw [hopen.1] at hrequested
          cases hrequested
      rw [if_pos hi, hopened]
    · exact Nat.le_add_right _ _
  | reconnectTimer =>
    obtain ⟨hnext, hpending⟩ := next_watched { s with reconnect := none }
    have hfired : s.pending = 1 := if_pos henabled
    simp only [ResourceWatcher.after, created, hpending, hfired]
    exact hnext
  | resetTimer => exact Nat.le_refl _

theorem Unstarted.created_le (h : Unstarted s) (hstep : s.step a = some s') (hstop : a ≠ .stop)
    (hdispose : a ≠ .dispose) : created s' ≤ created s + charge s a := by
  by_cases hstart : a = .start
  · subst hstart
    rw [(step_some hstep).2]
    exact created_start s
  · have h' := h.step hstep hstart hstop hdispose
    have hnext : s'.watchers.next = 0 := h'.unstarted h'.no_cancellation
    have hpending : s'.pending = 0 := by simp [pending, h'.no_reconnect]
    rw [created, hnext, hpending]
    exact Nat.zero_le _

/-! ## Every run -/

theorem up_step (h : Unstarted s ∨ Running s) (hne : a ≠ .stop ∧ a ≠ .dispose)
    (hstep : s.step a = some s') : Unstarted s' ∨ Running s' := by
  rcases h with h | h
  · by_cases hstart : a = .start
    · subst hstart
      exact Or.inr ((step_some hstep).2 ▸ h.start)
    · exact Or.inl (h.step hstep hstart hne.1 hne.2)
  · exact Or.inr ((step_some hstep).2 ▸ h.after hne.1 hne.2)

theorem up_ignoresStale_iff (h : Unstarted s ∨ Running s) (hstep : s.step a = some s') :
    IgnoresStale s a s' ↔ NoneStale s a s' := by
  rcases h with h | h
  · refine ⟨fun _ _ _ _ => h.no_watcher, fun _ _ _ _ j w hj => ?_⟩
    rw [h.no_watcher] at hj
    cases hj
  · exact h.ignoresStale_iff hstep

/-- Without an error or close of another watcher, every new watcher is accounted for. -/
theorem next_le_cost {actions : List (Action R)} (hstop : .stop ∉ actions)
    (hdispose : .dispose ∉ actions) (hnone : EveryStep step NoneStale actions new)
    (h : run step actions new = some s) : s.watchers.next ≤ cost step charge actions new := by
  have hok : ∀ a ∈ actions, a ≠ .stop ∧ a ≠ .dispose :=
    fun a ha => ⟨fun heq => hstop (heq ▸ ha), fun heq => hdispose (heq ▸ ha)⟩
  have hpotential :
      created s ≤ created (new : ResourceWatcher R) + cost step charge actions new := by
    refine run_potential (fun s => Unstarted s ∨ Running s) (fun a => a ≠ .stop ∧ a ≠ .dispose)
      created (fun _ _ _ h hne hstep => up_step h hne hstep) ?_ (Or.inl unstarted_new) hok hnone h
    rintro s₁ a s₂ (h | h) hne hstep hstale
    · exact h.created_le hstep hne.1 hne.2
    · exact h.created_le hstep hstale hne.1 hne.2
  calc s.watchers.next ≤ created s := Nat.le_add_right _ _
    _ ≤ created (new : ResourceWatcher R) + cost step charge actions new := hpotential
    _ = cost step charge actions new := Nat.zero_add _

/-- **When stale callbacks are ignored**: in a run without `Stop` and `Dispose`, every callback of
a watcher that is not the current one spares the current one iff errors and closes of other
watchers only arrive while there is no current one; and then there are at most as many watchers as
`Start` calls, closes and errors of the current watcher, and reopening errors in between. -/
theorem spares_iff {actions : List (Action R)} (hstop : .stop ∉ actions)
    (hdispose : .dispose ∉ actions) :
    (EveryStep step IgnoresStale actions new ↔ EveryStep step NoneStale actions new) ∧
    (EveryStep step NoneStale actions new → ∀ s, run step actions new = some s →
      s.watchers.next ≤ cost step charge actions new) := by
  have hok : ∀ a ∈ actions, a ≠ .stop ∧ a ≠ .dispose :=
    fun a ha => ⟨fun heq => hstop (heq ▸ ha), fun heq => hdispose (heq ▸ ha)⟩
  refine ⟨?_, fun hnone s h => next_le_cost hstop hdispose hnone h⟩
  exact everyStep_congr (fun s => Unstarted s ∨ Running s) (fun a => a ≠ .stop ∧ a ≠ .dispose)
    (fun _ _ _ h hne hstep => up_step h hne hstep)
    (fun _ _ _ h _ hstep => up_ignoresStale_iff h hstep) (Or.inl unstarted_new) hok

/-- An error that drops the watcher, the late end of its loop, and the reconnect. -/
def backoff : List (Action Unit) :=
  [.start, .exception 0 ⟨false, false⟩ 0, .close 0, .reconnectTimer]

theorem spares_iff_backoff : EveryStep step IgnoresStale backoff new ∧
    ∀ s, run step backoff new = some s → s.watchers.next ≤ 2 := by
  have hnone : EveryStep step NoneStale backoff new := by
    refine everyStep_cons.2 fun _ h => ⟨fun i hi => absurd hi.symm (Option.some_ne_none i), ?_⟩
    cases h
    refine everyStep_cons.2 fun _ h => ⟨fun i hi hne => ?_, ?_⟩
    · cases hi
      exact absurd rfl hne
    cases h
    refine everyStep_cons.2 fun _ h => ⟨fun _ _ _ => rfl, ?_⟩
    cases h
    exact everyStep_cons.2 fun _ _ =>
      ⟨fun i hi => absurd hi.symm (Option.some_ne_none i), everyStep_nil⟩
  have hstop : Action.stop ∉ backoff := by simp [backoff]
  have hdispose : Action.dispose ∉ backoff := by simp [backoff]
  obtain ⟨hiff, hcount⟩ := spares_iff hstop hdispose
  exact ⟨hiff.2 hnone, hcount hnone⟩

/-! ## The reconnect storm -/

/-- A watcher reports its end once, and no error after it. -/
def Contract : List (Action R) → Prop
  | [] => True
  | .close i :: rest => (∀ a ∈ rest, a.failing ≠ some i) ∧ Contract rest
  | _ :: rest => Contract rest

/-- One reopening error of the first watcher; then the first `n` watchers report their end, each
after it was disposed. -/
def storm (n : ℕ) : List (Action R) :=
  .start :: .exception 0 ⟨true, true⟩ 0 :: (List.range n).map .close

theorem contract_closes {l : List Ref} (h : l.Nodup) :
    Contract (l.map .close : List (Action R)) := by
  induction l with
  | nil => trivial
  | cons i l ih =>
    rw [List.nodup_cons] at h
    refine ⟨fun a ha => ?_, ih h.2⟩
    obtain ⟨j, hj, rfl⟩ := List.mem_map.1 ha
    intro heq
    cases heq
    exact h.1 hj

/-- **The reconnect storm**: every end of a replaced watcher replaces the current one, whose end is
the next to come. -/
theorem reconnect_storm (n : ℕ) : Contract (storm n : List (Action R)) ∧
    ∃ s : ResourceWatcher R, run step (storm n) new = some s ∧ s.watchers.next = n + 2 := by
  refine ⟨contract_closes List.nodup_range, ?_⟩
  suffices ∃ s : ResourceWatcher R, run step (storm n) new = some s ∧ s.watchers.next = n + 2 ∧
      s.isCancellationRequested = some false ∧ s.cancellationDisposed = false by
    obtain ⟨s, hrun, hnext, -⟩ := this
    exact ⟨s, hrun, hnext⟩
  induction n with
  | zero => exact ⟨_, rfl, rfl, rfl, rfl⟩
  | succ n ih =>
    obtain ⟨s, hrun, hnext, hrequested, hdisposed⟩ := ih
    have hstorm : (storm (n + 1) : List (Action R)) = storm n ++ [.close n] := by
      simp [storm, List.range_succ]
    have henabled : s.enabled (.close n) = true := by simp [enabled, Action.sender, hnext]
    refine ⟨s.dropped.openWatcher, ?_, ?_, ?_, ?_⟩
    · rw [hstorm, run_append, hrun, Option.bind_some, run_singleton, step_eq, henabled]
      simp [after, hrequested, hdisposed]
    · rw [next_openWatcher, next_dropped, hnext]
    · simp [isCancellationRequested, openWatcher]
    · simp [cancellationDisposed, openWatcher]

/-- The first watcher reports an error and then its end; the end disposes its successor. -/
theorem not_ignoresStale : ¬ ∀ actions : List (Action Unit), .stop ∉ actions →
    .dispose ∉ actions → Contract actions → EveryStep step IgnoresStale actions new := by
  intro h
  have hstorm := h (storm 1) (by simp [storm]) (by simp [storm]) (contract_closes List.nodup_range)
  obtain ⟨hcurrent, -⟩ := hstorm (storm 0) (.close 0) [] _ _ rfl rfl rfl 0 rfl (by decide) 1 _ rfl
    rfl
  cases hcurrent

end Sentinel.ResourceWatcher
