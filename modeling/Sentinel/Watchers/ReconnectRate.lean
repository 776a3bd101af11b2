import Sentinel.Lib.Backoff
import Sentinel.Watchers.WatcherInvariant

/-!
# How often the watcher reconnects

The watcher with a clock: `OnException` starts the reconnect timer and the one that resets the
attempts.  What the client library and the timers do is in any order, and a timer may be late.

* `step_refines` — the timers are those of a retry policy with growing delays, until the counter of
  the attempts wraps around.
* `reconnect_rate` — so with no more errors than the counter can hold the reconnect timer fires at
  most once every 18 seconds in the long run, and a reconnect that is pending is due within 33
  seconds.
-/

set_option autoImplicit false

namespace Sentinel

open Throwing Runs

variable {R : Type}

/-- The time, and when the two timers are due, in milliseconds. -/
structure TimedWatcher (R : Type) where
  watcher : ResourceWatcher R
  now : ℕ
  reconnectAt : ℕ
  resetAt : ℕ

namespace TimedWatcher

open ResourceWatcher (exponentialBackoff)

inductive Action (R : Type) where
  | wait (milliseconds : ℕ)
  | act (a : ResourceWatcher.Action R)

def Action.isReconnect : Action R → Bool
  | .act .reconnectTimer => true
  | _ => false

def Action.isException : Action R → Bool
  | .act (.exception ..) => true
  | _ => false

/-- `_rnd.Next(0, 1000)`. -/
def Action.JitterOk : Action R → Prop
  | .act (.exception _ _ jitter) => jitter < 1000
  | _ => True

def start : TimedWatcher R := ⟨.new, 0, 0, 0⟩

/-- `OnException` gets to the timers. -/
def startsTimers (s : ResourceWatcher R) : ResourceWatcher.Action R → Bool
  | .exception _ e _ => !s.cancellationDisposed && !(e.isTaskCanceled && e.innerIsIOException)
  | _ => false

def setWatcher (t : TimedWatcher R) (a : ResourceWatcher.Action R) (s : ResourceWatcher R) :
    TimedWatcher R :=
  if startsTimers t.watcher a then
    { t with watcher := s, reconnectAt := t.now + s.reconnect.getD 0, resetAt := t.now + 60000 }
  else { t with watcher := s }

/-- No timer fires before it is due. -/
def due (t : TimedWatcher R) : ResourceWatcher.Action R → Bool
  | .reconnectTimer => t.reconnectAt ≤ t.now
  | .resetTimer => t.resetAt ≤ t.now
  | _ => true

def step (t : TimedWatcher R) : Action R → Option (TimedWatcher R)
  | .wait milliseconds => some { t with now := t.now + milliseconds }
  | .act a => if t.due a then (t.watcher.step a).map (t.setWatcher a) else none

end TimedWatcher

/-! ## One step -/

namespace ResourceWatcher

variable {s : ResourceWatcher R}

/-- The parts that belong to the reconnect timer. -/
def timers (s : ResourceWatcher R) : Option ℕ × ℤ × Bool × Bool :=
  (s.reconnect, s.reconnectAttempts, s.reconnectHandlerDisposed, s.reconnectSubscriptionDisposed)

theorem timers_watched : s.watched.timers = s.timers := by
  unfold watched
  split
  · rfl
  · rfl

theorem timers_disposing (fromStop : Bool) :
    (finalState (disposing fromStop s)).timers = (none, s.reconnectAttempts, true, true) := by
  rw [finalState_disposing]
  split
  · split
    · rfl
    · rfl
  · rfl

/-- The timers after an error: a subject that is disposed, or has lost its subscription, starts no
reconnect. -/
theorem timers_scheduled (jitter : ℕ) : (s.dropped.scheduled jitter).timers =
    (if s.reconnectHandlerDisposed || s.reconnectSubscriptionDisposed then s.reconnect
      else some (exponentialBackoff (toInt32 (s.reconnectAttempts + 1)) jitter),
      toInt32 (s.reconnectAttempts + 1), s.reconnectHandlerDisposed,
      s.reconnectSubscriptionDisposed) := by
  have hhandler : s.dropped.reconnectHandlerDisposed = s.reconnectHandlerDisposed := rfl
  have hsubscription :
      s.dropped.reconnectSubscriptionDisposed = s.reconnectSubscriptionDisposed := rfl
  unfold scheduled scheduleReconnect
  rw [bind_ok (get_apply _)]
  simp only [hhandler, hsubscription]
  split
  · rename_i hdisposed
    simp only [hdisposed, Bool.true_or, if_true]
    rfl
  · rename_i hopen
    rw [Bool.not_eq_true] at hopen
    split
    · rename_i hdisposed
      simp only [hdisposed, Bool.or_true, if_true]
      rfl
    · rename_i hsubscribed
      rw [Bool.not_eq_true] at hsubscribed
      simp only [hopen, hsubscribed, Bool.or_false, Bool.false_eq_true, if_false]
      rfl

end ResourceWatcher

namespace TimedWatcher

open ResourceWatcher

variable {t t' : TimedWatcher R} {a : Action R} {as : List (Action R)}

/-- The action starts the timers. -/
theorem after_of_startsTimers {s : ResourceWatcher R} {a : ResourceWatcher.Action R}
    (h : startsTimers s a = true) :
    ∃ i e jitter, a = .exception i e jitter ∧ s.after a = s.dropped.scheduled jitter := by
  cases a with
  | exception i e jitter =>
    refine ⟨i, e, jitter, rfl, ?_⟩
    simp only [startsTimers, Bool.and_eq_true, Bool.not_eq_true'] at h
    simp only [ResourceWatcher.after, h.1, h.2, Bool.false_eq_true, if_false]
  | _ => cases h

/-- What an action that does not start the timers does to them: one of them has fired, the watcher
has been stopped, or they are as they were. -/
theorem timers_after (s : ResourceWatcher R) {a : ResourceWatcher.Action R}
    (h : startsTimers s a = false) :
    (a = .reconnectTimer ∧ (s.after a).timers = timers { s with reconnect := none }) ∨
    (a = .resetTimer ∧ (s.after a).timers = timers { s with reconnectAttempts := 0 }) ∨
    (Action.isReconnect (.act a) = false ∧
      ((s.after a).timers = (none, s.reconnectAttempts, true, true) ∨
        (s.after a).timers = s.timers)) := by
  cases a with
  | reconnectTimer => exact Or.inl ⟨rfl, timers_watched⟩
  | resetTimer => exact Or.inr (Or.inl ⟨rfl, rfl⟩)
  | stop => exact Or.inr (Or.inr ⟨rfl, Or.inl (timers_disposing true)⟩)
  | dispose => exact Or.inr (Or.inr ⟨rfl, Or.inl (timers_disposing false)⟩)
  | start => exact Or.inr (Or.inr ⟨rfl, Or.inr timers_watched⟩)
  | subscribe =>
    refine Or.inr (Or.inr ⟨rfl, Or.inr ?_⟩)
    simp only [ResourceWatcher.after]
    split
    · rfl
    · rfl
  | watching i value => exact Or.inr (Or.inr ⟨rfl, Or.inr rfl⟩)
  | event i type resource =>
    refine Or.inr (Or.inr ⟨rfl, Or.inr ?_⟩)
    rw [ResourceWatcher.after, onWatcherEvent_eq]
    rfl
  | close i =>
    refine Or.inr (Or.inr ⟨rfl, Or.inr ?_⟩)
    simp only [ResourceWatcher.after]
    split
    · rfl
    · rfl
  | exception i e jitter =>
    refine Or.inr (Or.inr ⟨rfl, Or.inr ?_⟩)
    simp only [startsTimers, Bool.and_eq_false_iff, Bool.not_eq_false'] at h
    simp only [ResourceWatcher.after]
    split
    · rfl
    · rename_i hopen
      rw [if_pos (h.resolve_left hopen)]
      rfl

/-- What a step does to the timers. -/
theorem step_inv (h : step t a = some t') :
    (∃ milliseconds, a = .wait milliseconds ∧ t' = { t with now := t.now + milliseconds }) ∨
    (∃ i e jitter, a = .act (.exception i e jitter) ∧ t' =
      let s := t.watcher.dropped.scheduled jitter
      ⟨s, t.now, t.now + s.reconnect.getD 0, t.now + 60000⟩) ∨
    ∃ s, t' = { t with watcher := s } ∧
      ((a.isReconnect = true ∧ t.watcher.reconnect.isSome = true ∧ t.reconnectAt ≤ t.now ∧
        s.timers = timers { t.watcher with reconnect := none }) ∨
      (a = .act .resetTimer ∧ t.resetAt ≤ t.now ∧
        s.timers = timers { t.watcher with reconnectAttempts := 0 }) ∨
      (a.isReconnect = false ∧
        (s.timers = (none, t.watcher.reconnectAttempts, true, true) ∨
          s.timers = t.watcher.timers))) := by
  cases a with
  | wait milliseconds =>
    cases h
    exact Or.inl ⟨milliseconds, rfl, rfl⟩
  | act a =>
    simp only [step, Option.ite_none_right_eq_some, Option.map_eq_some_iff] at h
    obtain ⟨hdue, s, hs, rfl⟩ := h
    obtain ⟨henabled, rfl⟩ := step_some hs
    unfold setWatcher
    cases hstarts : startsTimers t.watcher a with
    | true =>
      obtain ⟨i, e, jitter, rfl, hafter⟩ := after_of_startsTimers hstarts
      refine Or.inr (Or.inl ⟨i, e, jitter, rfl, ?_⟩)
      rw [if_pos rfl, hafter]
    | false =>
      refine Or.inr (Or.inr ⟨_, if_neg Bool.false_ne_true, ?_⟩)
      rcases timers_after t.watcher hstarts with ⟨rfl, htimers⟩ | ⟨rfl, htimers⟩ | ⟨hother, htimers⟩
      · exact Or.inl ⟨rfl, henabled, of_decide_eq_true hdue, htimers⟩
      · exact Or.inr (Or.inl ⟨rfl, of_decide_eq_true hdue, htimers⟩)
      · exact Or.inr (Or.inr ⟨hother, htimers⟩)

/-- A watcher that has been stopped has no reconnect pending; a reconnect is due in 33 seconds. -/
structure Inv (t : TimedWatcher R) : Prop where
  stopped : (t.watcher.reconnectHandlerDisposed || t.watcher.reconnectSubscriptionDisposed) = true →
    t.watcher.reconnect = none
  soon : t.watcher.reconnect.isSome = true → t.reconnectAt < t.now + 33000

theorem inv_start : Inv (start : TimedWatcher R) := ⟨fun _ => rfl, nofun⟩

/-- Less of the timers is pending, or the watcher has been stopped. -/
theorem Inv.of_timers (h : Inv t) {s : ResourceWatcher R}
    (hreconnect : s.reconnect = none ∨ s.reconnect = t.watcher.reconnect ∧
      s.reconnectHandlerDisposed = t.watcher.reconnectHandlerDisposed ∧
      s.reconnectSubscriptionDisposed = t.watcher.reconnectSubscriptionDisposed) :
    Inv { t with watcher := s } := by
  rcases hreconnect with hnone | ⟨hsame, hhandler, hsubscription⟩
  · exact ⟨fun _ => hnone, fun hsome => by simp [hnone] at hsome⟩
  · refine ⟨fun hdisposed => ?_, fun hsome => h.soon (hsame ▸ hsome)⟩
    simp only [hhandler, hsubscription] at hdisposed
    exact hsame.trans (h.stopped hdisposed)

theorem exponentialBackoff_lt {n : ℤ} {jitter : ℕ} (hjitter : jitter < 1000) :
    exponentialBackoff n jitter < 33000 := by
  have hle : min (2 ^ n.toNat) 32 ≤ 32 := Nat.min_le_right _ _
  have hfraction : 1000 / 2 ^ (-n).toNat ≤ 1000 := Nat.div_le_self _ _
  unfold exponentialBackoff
  split
  · omega
  · omega

theorem exponentialBackoff_of_nonneg {n : ℤ} (h : 0 ≤ n) (jitter : ℕ) :
    exponentialBackoff n jitter = min (2 ^ n.toNat) 32 * 1000 + jitter := if_pos h

/-- Errors so far are all that the attempts count. -/
def Counts (errors : ℕ) (t : TimedWatcher R) : Prop :=
  0 ≤ t.watcher.reconnectAttempts ∧ t.watcher.reconnectAttempts ≤ errors

/-- The next error is counted exactly. -/
theorem Counts.next {errors : ℕ} (h : Counts errors t) (hroom : (errors + 1 : ℕ) ≤ intMaxValue) :
    toInt32 (t.watcher.reconnectAttempts + 1) = t.watcher.reconnectAttempts + 1 := by
  rw [Nat.cast_add, Nat.cast_one] at hroom
  exact toInt32_of_range (le_trans (by decide) (Int.le_add_one h.1))
    (le_trans (Int.add_le_add_right h.2 1) hroom)

theorem Counts.step {errors : ℕ} (h : Counts errors t)
    (hroom : (errors + (if a.isException then 1 else 0) : ℕ) ≤ intMaxValue)
    (hstep : TimedWatcher.step t a = some t') :
    Counts (errors + if a.isException then 1 else 0) t' := by
  obtain ⟨hlower, hupper⟩ := h
  have hkept : ∀ s : ResourceWatcher R, 0 ≤ s.reconnectAttempts →
      s.reconnectAttempts ≤ t.watcher.reconnectAttempts →
      Counts (errors + if a.isException then 1 else 0) { t with watcher := s } := by
    intro s hs hle
    refine ⟨hs, (hle.trans hupper).trans ?_⟩
    exact Int.ofNat_le.2 (Nat.le_add_right _ _)
  rcases step_inv hstep with ⟨milliseconds, rfl, rfl⟩ | ⟨i, e, jitter, rfl, rfl⟩ |
    ⟨s, rfl, ⟨-, -, -, htimers⟩ | ⟨-, -, htimers⟩ | ⟨-, htimers | htimers⟩⟩
  · exact ⟨hlower, hupper⟩
  · have htimers := timers_scheduled (s := t.watcher) jitter
    simp only [timers, Prod.mk.injEq] at htimers
    obtain ⟨-, hattempts, -⟩ := htimers
    rw [Counts.next ⟨hlower, hupper⟩ hroom] at hattempts
    simp only [Action.isException, if_true]
    refine ⟨?_, ?_⟩
    · simp only [hattempts]
      exact Int.le_add_one hlower
    · simp only [hattempts, Nat.cast_add, Nat.cast_one]
      exact Int.add_le_add_right hupper 1
  all_goals simp only [timers, Prod.mk.injEq] at htimers
  · exact hkept s (htimers.2.1 ▸ hlower) htimers.2.1.le
  · exact hkept s htimers.2.1.ge (htimers.2.1.trans_le hlower)
  · exact hkept s (htimers.2.1 ▸ hlower) htimers.2.1.le
  · exact hkept s (htimers.2.1 ▸ hlower) htimers.2.1.le

theorem Inv.step (h : Inv t) (hjitter : a.JitterOk) (hstep : TimedWatcher.step t a = some t') :
    Inv t' := by
  rcases step_inv hstep with ⟨milliseconds, rfl, rfl⟩ | ⟨i, e, jitter, rfl, rfl⟩ |
    ⟨s, rfl, ⟨-, -, -, htimers⟩ | ⟨-, -, htimers⟩ | ⟨-, htimers | htimers⟩⟩
  · exact ⟨h.stopped, fun hsome => (h.soon hsome).trans_le (by simp only; omega)⟩
  · have htimers := timers_scheduled (s := t.watcher) jitter
    simp only [timers, Prod.mk.injEq] at htimers
    obtain ⟨hreconnect, -, hhandler, hsubscription⟩ := htimers
    split at hreconnect
    · rename_i hdisposed
      have hnone := hreconnect.trans (h.stopped hdisposed)
      exact ⟨fun _ => hnone, fun hsome => by simp [hnone] at hsome⟩
    · rename_i hopen
      refine ⟨fun hdisposed => absurd ?_ hopen, fun _ => ?_⟩
      · simpa only [hhandler, hsubscription] using hdisposed
      · simp only [hreconnect, Option.getD_some]
        exact Nat.add_lt_add_left (exponentialBackoff_lt hjitter) _
  all_goals simp only [timers, Prod.mk.injEq] at htimers
  · exact h.of_timers (Or.inl htimers.1)
  · exact h.of_timers (Or.inr ⟨htimers.1, htimers.2.2⟩)
  · exact h.of_timers (Or.inl htimers.1)
  · exact h.of_timers (Or.inr ⟨htimers.1, htimers.2.2⟩)

/-! ## The timers are those of a retry policy -/

def policy : Backoff.Policy where
  delay n := exponentialBackoff n 0
  quiet := 60000

/-- The timers, with the number of reconnects so far. -/
def backoff (reconnects : ℕ) (t : TimedWatcher R) : Backoff.State where
  now := t.now
  failures := t.watcher.reconnectAttempts.toNat
  retryAt := t.watcher.reconnect.map fun _ => t.reconnectAt
  forgetAt := t.resetAt
  retries := reconnects

/-- **The timers follow the retry policy**: a step is one of the policy, or does not touch them, as
long as the errors do not make the attempts wrap around. -/
theorem step_refines (h : Inv t) {errors : ℕ} (hcounts : Counts errors t)
    (hroom : (errors + (if a.isException then 1 else 0) : ℕ) ≤ intMaxValue)
    (hstep : TimedWatcher.step t a = some t') (reconnects : ℕ) :
    t'.backoff (reconnects + if a.isReconnect then 1 else 0) = t.backoff reconnects ∨
      ∃ b, Backoff.step policy (t.backoff reconnects) b =
        some (t'.backoff (reconnects + if a.isReconnect then 1 else 0)) := by
  rcases step_inv hstep with ⟨milliseconds, rfl, rfl⟩ | ⟨i, e, jitter, rfl, rfl⟩ |
    ⟨s, rfl, ⟨hreconnect, hpending, hdue, htimers⟩ | ⟨rfl, hdue, htimers⟩ |
      ⟨hother, htimers | htimers⟩⟩
  · exact Or.inr ⟨.wait milliseconds, rfl⟩
  · have htimers := timers_scheduled (s := t.watcher) jitter
    simp only [timers, Prod.mk.injEq] at htimers
    obtain ⟨hreconnect, hattempts, -⟩ := htimers
    have hlower := hcounts.1
    have hnat : (t.watcher.reconnectAttempts + 1).toNat =
        t.watcher.reconnectAttempts.toNat + 1 := Int.toNat_add hlower (by decide)
    rw [hcounts.next hroom] at hreconnect hattempts
    let s := t.watcher.dropped.scheduled jitter
    have hdelay : (s.reconnect.map fun _ => t.now + s.reconnect.getD 0).all
        (t.now + policy.delay (t.watcher.reconnectAttempts.toNat + 1) ≤ ·) = true := by
      split at hreconnect
      · rename_i hdisposed
        simp [s, hreconnect, h.stopped hdisposed]
      · rw [exponentialBackoff_of_nonneg (Int.le_add_one hlower), hnat] at hreconnect
        simp [s, hreconnect, policy, exponentialBackoff]
    refine Or.inr ⟨.fail (s.reconnect.map fun _ => t.now + s.reconnect.getD 0), ?_⟩
    unfold Backoff.step backoff
    simp only [hdelay, if_true, hattempts, hnat]
    rfl
  all_goals simp only [timers, Prod.mk.injEq] at htimers
  · obtain ⟨hnone, hattempts, -⟩ := htimers
    refine Or.inr ⟨.retry, ?_⟩
    obtain ⟨backoff, hbackoff⟩ := Option.isSome_iff_exists.1 hpending
    simp [Backoff.step, TimedWatcher.backoff, hreconnect, hnone, hattempts, hbackoff, hdue]
  · obtain ⟨hsame, hattempts, -⟩ := htimers
    refine Or.inr ⟨.forget, ?_⟩
    simp [Backoff.step, backoff, Action.isReconnect, hsame, hattempts, hdue]
  · obtain ⟨hnone, hattempts, -⟩ := htimers
    refine Or.inr ⟨.cancel, ?_⟩
    simp [Backoff.step, backoff, hother, hnone, hattempts]
  · obtain ⟨hsame, hattempts, -⟩ := htimers
    left
    simp [backoff, hother, hsame, hattempts]

/-- What the early retries are ahead of one every 18 seconds is made up for by a quiet minute. -/
theorem quiet_policy (n : ℕ) : Backoff.allowance policy 18000 n + 18000 ≤ policy.quiet := by
  have hsmall : ∀ n < 5, Backoff.allowance policy 18000 n ≤ 42000 := by decide
  have hle : Backoff.allowance policy 18000 n ≤ 42000 := by
    induction n with
    | zero => exact hsmall 0 (by decide)
    | succ n ih =>
      by_cases hn : n + 1 < 5
      · exact hsmall _ hn
      · -- from the fifth failure on the delay is 32 seconds
        have hpow : 2 ^ 5 ≤ 2 ^ (n + 1) := Nat.pow_le_pow_right (by decide) (by omega)
        have hdelay : policy.delay (n + 1) = 32000 := by
          show min (2 ^ (n + 1)) 32 * 1000 + 0 = 32000
          omega
        rw [Backoff.allowance_succ, hdelay]
        exact ih
  have hquiet : policy.quiet = 60000 := rfl
  omega

theorem paid_run (h : Inv t) {errors : ℕ} (hcounts : Counts errors t)
    (hroom : (errors + as.countP Action.isException : ℕ) ≤ intMaxValue)
    (hok : ∀ a ∈ as, a.JitterOk) (hrun : run step as t = some t') :
    Counts (errors + as.countP Action.isException) t' ∧ Inv t' ∧
      Backoff.Paid policy 18000 t.now (18000 * (t.backoff 0).committed)
        (t'.backoff (as.countP Action.isReconnect)) := by
  refine run_induction (motive := fun as t' => (∀ a ∈ as, a.JitterOk) →
    (errors + as.countP Action.isException : ℕ) ≤ intMaxValue →
    Counts (errors + as.countP Action.isException) t' ∧ Inv t' ∧
    Backoff.Paid policy 18000 t.now (18000 * (t.backoff 0).committed)
      (t'.backoff (as.countP Action.isReconnect)))
    (fun _ _ => ⟨hcounts, h, Backoff.paid_start (t.backoff 0)⟩) ?_ hrun hok hroom
  intro as t₁ a t₂ _ ih hstep hok hroom
  rw [List.forall_mem_append, List.forall_mem_singleton] at hok
  rw [List.countP_append, List.countP_singleton, ← Nat.add_assoc] at hroom ⊢
  obtain ⟨hcounts, hinv, hpaid⟩ :=
    ih hok.1 (le_trans (Int.ofNat_le.2 (Nat.le_add_right _ _)) hroom)
  refine ⟨hcounts.step hroom hstep, hinv.step hok.2 hstep, ?_⟩
  rw [List.countP_append, List.countP_singleton]
  rcases step_refines hinv hcounts hroom hstep (as.countP Action.isReconnect) with
    hsame | ⟨b, hb⟩
  · rw [hsame]
    exact hpaid
  · exact hpaid.step quiet_policy hb

/-- **How often the watcher reconnects.**  With no more errors in the run than a 32-bit counter can
hold, in any part of the run the reconnect timer fires at most once every 18 seconds, up to the 60
seconds of the reset timer and the reconnect that was pending; at any time a reconnect that is
pending is due within 33 seconds. -/
theorem reconnect_rate {before : List (Action R)}
    (hbefore : run step before (start : TimedWatcher R) = some t)
    (hrun : run step as t = some t') (hjitter : ∀ a ∈ before ++ as, a.JitterOk)
    (herrors : (before ++ as).countP Action.isException ≤ intMaxValue) :
    18000 * as.countP Action.isReconnect ≤
        t'.now - t.now + 60000 + (if t.watcher.reconnect.isSome then 18000 else 0) ∧
      (t'.watcher.reconnect.isSome = true → t'.reconnectAt < t'.now + 33000) := by
  rw [List.countP_append] at herrors
  have hstart : Counts 0 (start : TimedWatcher R) := ⟨le_rfl, le_rfl⟩
  obtain ⟨hcounts, hinv, -⟩ := paid_run inv_start hstart
    (by rw [Nat.zero_add]; exact le_trans (Int.ofNat_le.2 (Nat.le_add_right _ _)) herrors)
    (fun a ha => hjitter a (List.mem_append_left _ ha)) hbefore
  rw [Nat.zero_add] at hcounts
  obtain ⟨-, hend, hpaid⟩ := paid_run hinv hcounts herrors
    (fun a ha => hjitter a (List.mem_append_right _ ha)) hrun
  have hcommitted : (t.backoff 0).committed = if t.watcher.reconnect.isSome then 1 else 0 := by
    simp [Backoff.State.committed, backoff]
  have hretries := hpaid.retries_le quiet_policy
  rw [hcommitted] at hretries
  refine ⟨?_, hend.soon⟩
  simp only [backoff, policy] at hretries
  cases hpending : t.watcher.reconnect.isSome with
  | true =>
    rw [hpending] at hretries
    simp only [if_true] at hretries ⊢
    omega
  | false =>
    rw [hpending] at hretries
    simp only [Bool.false_eq_true, if_false] at hretries ⊢
    omega

/-- Two errors in a row, each followed by its reconnect. -/
def twoErrors : List (Action Unit) :=
  [.act (.exception 0 ⟨false, false⟩ 500), .wait 2500, .act .reconnectTimer,
    .act (.exception 1 ⟨false, false⟩ 0), .wait 4000, .act .reconnectTimer,
    .act (.exception 2 ⟨false, false⟩ 999)]

theorem reconnect_rate_twoErrors : ∃ t t' : TimedWatcher Unit,
    run step [.act .start] start = some t ∧ run step twoErrors t = some t' ∧
    18000 * twoErrors.countP Action.isReconnect ≤
      t'.now - t.now + 60000 + (if t.watcher.reconnect.isSome then 18000 else 0) ∧
    (t'.watcher.reconnect.isSome = true → t'.reconnectAt < t'.now + 33000) := by
  obtain ⟨t', ht'⟩ := Option.isSome_iff_exists.1
    (show (run step ([.act .start] ++ twoErrors) (start : TimedWatcher Unit)).isSome = true by
      decide)
  obtain ⟨t, ht, hrun⟩ := run_append_eq_some ht'
  have hjitter : ∀ a ∈ [.act .start] ++ twoErrors, a.JitterOk := by
    simp [twoErrors, Action.JitterOk]
  exact ⟨t, t', ht, hrun, reconnect_rate ht hrun hjitter (by decide)⟩

end TimedWatcher

end Sentinel
