import Mathlib

/-!
# Retries with growing delays

A failure starts two timers: one tries again after a delay that depends on the number of failures
in a row, the other forgets the failures after a quiet time.  The next failure replaces both.

* `allowance` — how far `n` retries in a row may be ahead of one retry every `interval`.
* `Paid.step` — what the retries are ahead is within the allowance of the failures so far, if the
  quiet time makes up for every allowance.
* `Paid.retries_le` — so there is no more than one retry every `interval` in the long run.
-/

set_option autoImplicit false

namespace Backoff

/-- The least delay after the `n`th failure in a row, and the quiet time. -/
structure Policy where
  delay : ℕ → ℕ
  quiet : ℕ

structure State where
  now : ℕ
  failures : ℕ
  retryAt : Option ℕ
  forgetAt : ℕ
  retries : ℕ

inductive Action where
  | wait (time : ℕ)
  | fail (retryAt : Option ℕ)
  | cancel
  | retry
  | forget

variable (policy : Policy)

/-- Timers may be late, but not early; a failure need not schedule a retry. -/
def step (s : State) : Action → Option State
  | .wait time => some { s with now := s.now + time }
  | .fail retryAt =>
    if retryAt.all (s.now + policy.delay (s.failures + 1) ≤ ·) then
      some { s with failures := s.failures + 1, retryAt, forgetAt := s.now + policy.quiet }
    else none
  | .cancel => some { s with retryAt := none }
  | .retry =>
    if s.retryAt.any (· ≤ s.now) then some { s with retryAt := none, retries := s.retries + 1 }
    else none
  | .forget => if s.forgetAt ≤ s.now then some { s with failures := 0 } else none

/-- What `n` retries in a row, as early as they can be, are ahead of one every `interval`. -/
def allowance (interval n : ℕ) : ℕ := ∑ i ∈ Finset.range n, (interval - policy.delay (i + 1))

/-- The retries, the one that is pending included. -/
def State.committed (s : State) : ℕ := s.retries + if s.retryAt.isSome then 1 else 0

variable {policy} {interval since credit : ℕ} {s s' : State} {a : Action}

theorem allowance_succ (interval n : ℕ) : allowance policy interval (n + 1) =
    allowance policy interval n + (interval - policy.delay (n + 1)) := by
  unfold allowance
  exact Finset.sum_range_succ _ n

theorem committed_of_some {t : ℕ} (h : s.retryAt = some t) : s.committed = s.retries + 1 := by
  simp [State.committed, h]

theorem committed_of_none (h : s.retryAt = none) : s.committed = s.retries := by
  simp [State.committed, h]

theorem retries_le_committed : s.retries ≤ s.committed := Nat.le_add_right _ _

theorem committed_le : s.committed ≤ s.retries + 1 := by
  unfold State.committed
  split
  · exact le_rfl
  · omega

/-- The last failure, at time `failed`, is number `n + 1` in a row; the retries before it are ahead
by the allowance of `n` retries. -/
structure Failed (policy : Policy) (interval since credit failed n : ℕ) (s : State) : Prop where
  failures : s.failures = n + 1
  forgetAt : s.forgetAt = failed + policy.quiet
  past : failed ≤ s.now
  committed : interval * s.committed + since ≤
    failed + allowance policy interval n + interval + credit
  retries : interval * s.retries + since ≤ s.now + allowance policy interval (n + 1) + credit
  delay : ∀ t ∈ s.retryAt, failed + policy.delay (n + 1) ≤ t

/-- From the time `since` on there is at most one retry every `interval`, up to `credit` and the
allowance for the failures in a row. -/
def Paid (policy : Policy) (interval since credit : ℕ) (s : State) : Prop :=
  interval * s.committed + since ≤ s.now + credit ∨
    ∃ failed n, Failed policy interval since credit failed n s

theorem Paid.ahead (h : Paid policy interval since credit s) :
    interval * s.retries + since ≤ s.now + allowance policy interval s.failures + credit := by
  rcases h with h | ⟨failed, n, h⟩
  · have hle := Nat.mul_le_mul_left interval (retries_le_committed (s := s))
    omega
  · rw [h.failures]
    exact h.retries

theorem Paid.fail (h : Paid policy interval since credit s) {retryAt : Option ℕ}
    (hdelay : ∀ t ∈ retryAt, s.now + policy.delay (s.failures + 1) ≤ t) :
    Paid policy interval since credit
      { s with failures := s.failures + 1, retryAt, forgetAt := s.now + policy.quiet } := by
  have hahead := h.ahead
  refine Or.inr ⟨s.now, s.failures, rfl, rfl, le_rfl, ?_, ?_, hdelay⟩
  · have hle := Nat.mul_le_mul_left interval (committed_le (s := { s with
      failures := s.failures + 1, retryAt, forgetAt := s.now + policy.quiet }))
    simp only [Nat.mul_add, Nat.mul_one] at hle ⊢
    omega
  · rw [allowance_succ]
    simp only
    omega

theorem Paid.cancel (h : Paid policy interval since credit s) :
    Paid policy interval since credit { s with retryAt := none } := by
  have heq : ({ s with retryAt := none } : State).committed = s.retries := committed_of_none rfl
  have hle : interval * ({ s with retryAt := none } : State).committed ≤ interval * s.committed :=
    Nat.mul_le_mul_left interval (heq.trans_le retries_le_committed)
  rcases h with h | ⟨failed, n, h⟩
  · exact Or.inl ((Nat.add_le_add_right hle since).trans h)
  · exact Or.inr ⟨failed, n, h.failures, h.forgetAt, h.past,
      (Nat.add_le_add_right hle since).trans h.committed, h.retries, nofun⟩

theorem Paid.retry (h : Paid policy interval since credit s) {t : ℕ} (ht : s.retryAt = some t)
    (hdue : t ≤ s.now) : Paid policy interval since credit
      { s with retryAt := none, retries := s.retries + 1 } := by
  have heq : ({ s with retryAt := none, retries := s.retries + 1 } : State).committed =
      s.committed := by
    rw [committed_of_none rfl, committed_of_some ht]
  rcases h with h | ⟨failed, n, h⟩
  · exact Or.inl (heq.symm ▸ h)
  · have hdelay := h.delay t ht
    have hcommitted := h.committed
    refine Or.inr ⟨failed, n, h.failures, h.forgetAt, h.past, heq.symm ▸ hcommitted, ?_, nofun⟩
    -- the retry has waited for its delay, and what it is ahead by goes into the allowance
    rw [committed_of_some ht] at hcommitted
    rw [allowance_succ]
    simp only
    omega

theorem Paid.forget (hquiet : ∀ n, allowance policy interval n + interval ≤ policy.quiet)
    (h : Paid policy interval since credit s) (hdue : s.forgetAt ≤ s.now) :
    Paid policy interval since credit { s with failures := 0 } := by
  rcases h with h | ⟨failed, n, h⟩
  · exact Or.inl h
  · have hcommitted := h.committed
    have hforget := h.forgetAt
    have hn := hquiet n
    left
    show interval * s.committed + since ≤ s.now + credit
    omega

theorem Paid.step (hquiet : ∀ n, allowance policy interval n + interval ≤ policy.quiet)
    (h : Paid policy interval since credit s) (hstep : step policy s a = some s') :
    Paid policy interval since credit s' := by
  cases a with
  | wait time =>
    cases hstep
    rcases h with h | ⟨failed, n, h⟩
    · exact Or.inl (h.trans (by simp only; omega))
    · exact Or.inr ⟨failed, n, h.failures, h.forgetAt, Nat.le_add_right_of_le h.past, h.committed,
        h.retries.trans (by simp only; omega), h.delay⟩
  | fail retryAt =>
    simp only [Backoff.step, Option.ite_none_right_eq_some, Option.some.injEq] at hstep
    obtain ⟨hdelay, rfl⟩ := hstep
    refine h.fail fun t ht => ?_
    rw [Option.mem_def.1 ht] at hdelay
    exact of_decide_eq_true hdelay
  | cancel =>
    cases hstep
    exact h.cancel
  | retry =>
    simp only [Backoff.step, Option.ite_none_right_eq_some, Option.some.injEq,
      Option.any_eq_true] at hstep
    obtain ⟨⟨t, ht, hdue⟩, rfl⟩ := hstep
    exact h.retry ht (of_decide_eq_true hdue)
  | forget =>
    simp only [Backoff.step, Option.ite_none_right_eq_some, Option.some.injEq] at hstep
    obtain ⟨hdue, rfl⟩ := hstep
    exact h.forget hquiet hdue

theorem paid_start (s : State) : Paid policy interval s.now (interval * s.committed) s :=
  Or.inl (by omega)

/-- **No more than one retry every `interval`** in the long run. -/
theorem Paid.retries_le (hquiet : ∀ n, allowance policy interval n + interval ≤ policy.quiet)
    (h : Paid policy interval since credit s) :
    interval * s.retries + since ≤ s.now + credit + policy.quiet := by
  have hle := Nat.mul_le_mul_left interval (retries_le_committed (s := s))
  rcases h with h | ⟨failed, n, h⟩
  · omega
  · have hcommitted := h.committed
    have hpast := h.past
    have hn := hquiet n
    omega

end Backoff
