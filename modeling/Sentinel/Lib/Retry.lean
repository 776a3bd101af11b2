import Sentinel.Lib.Commands

/-!
# Commands that fail before they take effect

Every command of a program can be hit by faults, at most a given number of them; then it is
executed.  A policy runs its delegate again when it throws.

* `Implements` — a computation that does to the state what a program does when no command fails,
  whatever faults are placed.
* `implements_waitAndRetry` — as many retries as faults make a delegate of one command implement
  it.
* `Implements.bind`, `Implements.forM` — the rules of sequencing and of a loop.
* `perform_clean`, `perform_fault` — a command without a policy.
* `await_waitAndRetry_task` — around an asynchronous delegate a synchronous policy does nothing.
-/

set_option autoImplicit false

namespace Retry

open Commands

variable {C : Type} {R : C → Type} {S F ε α β : Type} {limit : ℕ}

/-! ## Faults -/

/-- The faults that hit the next command before it takes effect, the command after it and so on. -/
structure Placement (F : Type) (limit : ℕ) where
  faults : ℕ → List F
  atMost : ∀ n, (faults n).length ≤ limit

namespace Placement

def none : Placement F limit := ⟨fun _ => [], fun _ => Nat.zero_le limit⟩

/-- A fault has hit the next command. -/
def hit (placement : Placement F limit) : Placement F limit where
  faults := Function.update placement.faults 0 (placement.faults 0).tail
  atMost := by
    intro n
    by_cases hn : n = 0
    · subst hn
      rw [Function.update_self, List.length_tail]
      exact (Nat.sub_le _ 1).trans (placement.atMost 0)
    · rw [Function.update_of_ne hn]
      exact placement.atMost n

/-- The next command has taken effect. -/
def next (placement : Placement F limit) : Placement F limit :=
  ⟨fun n => placement.faults (n + 1), fun n => placement.atMost (n + 1)⟩

theorem hit_faults (placement : Placement F limit) :
    placement.hit.faults 0 = (placement.faults 0).tail := by
  simp only [hit, Function.update_self]

end Placement

/-- A server, and the faults to come. -/
structure Faulty (S F : Type) (limit : ℕ) where
  state : S
  placement : Placement F limit

section Performing

variable (exec : S → (c : C) → R c × S)

def send (c : C) : EStateM (F ⊕ ε) (Faulty S F limit) (R c) := fun w =>
  match w.placement.faults 0 with
  | [] => .ok (exec w.state c).1 ⟨(exec w.state c).2, w.placement.next⟩
  | fault :: _ => .error (.inl fault) ⟨w.state, w.placement.hit⟩

/-- A program, sent to a server with faults. -/
def perform : Prog C R ε α → EStateM (F ⊕ ε) (Faulty S F limit) α
  | .ret a => pure a
  | .throw e => throw (.inr e)
  | .call c next => send exec c >>= fun r => perform (next r)

end Performing

theorem perform_bind {exec : S → (c : C) → R c × S} (p : Prog C R ε α) (f : α → Prog C R ε β) :
    (perform exec (p >>= f) : EStateM (F ⊕ ε) (Faulty S F limit) β) =
      perform exec p >>= fun a => perform exec (f a) := by
  induction p with
  | ret a => rfl
  | throw e => rfl
  | call c next ih =>
    change send exec c >>= (fun r => perform exec (next r >>= f)) = _
    rw [perform, bind_assoc]
    exact congrArg _ (funext ih)

theorem perform_map {exec : S → (c : C) → R c × S} (g : α → β) (p : Prog C R ε α) :
    (perform exec (g <$> p) : EStateM (F ⊕ ε) (Faulty S F limit) β) = g <$> perform exec p := by
  rw [← bind_pure_comp, ← bind_pure_comp, perform_bind]
  rfl

/-- A policy of `n` retries: the delegate is run again when it throws an exception it handles. -/
def waitAndRetry {ε σ α : Type} (handled : ε → Bool) : ℕ → EStateM ε σ α → EStateM ε σ α
  | 0, delegate => delegate
  | n + 1, delegate => fun s =>
    match delegate s with
    | .ok a s' => .ok a s'
    | .error e s' => if handled e then waitAndRetry handled n delegate s' else .error e s'

section Tasks

variable {ε σ α : Type}

/-- An asynchronous delegate returns a task; what it throws is in the task. -/
def task (delegate : EStateM ε σ α) : EStateM ε σ (Except ε α) := fun s =>
  match delegate s with
  | .ok a s' => .ok (.ok a) s'
  | .error e s' => .ok (.error e) s'

def await : Except ε α → EStateM ε σ α
  | .ok a => pure a
  | .error e => throw e

/-- **A synchronous policy around an asynchronous delegate** does nothing. -/
theorem await_waitAndRetry_task (handled : ε → Bool) (n : ℕ) (delegate : EStateM ε σ α) :
    waitAndRetry handled n (task delegate) >>= await = delegate := by
  funext s
  change EStateM.bind _ _ s = _
  cases h : delegate s <;> cases n <;> simp [EStateM.bind, waitAndRetry, task, h] <;> rfl

end Tasks

/-! ## What a computation implements -/

/-- The result and the state of the server. -/
def outcome : EStateM.Result (F ⊕ ε) (Faulty S F limit) α → Except (F ⊕ ε) α × S
  | .ok a w => (.ok a, w.state)
  | .error e w => (.error e, w.state)

/-- A result of a server without faults. -/
def lift : Except ε α × S → Except (F ⊕ ε) α × S
  | (.ok a, s) => (.ok a, s)
  | (.error e, s) => (.error (.inr e), s)

variable {exec : S → (c : C) → R c × S}

/-- In the given worlds, the faults make no difference. -/
def ImplementsOn (exec : S → (c : C) → R c × S) (Good : Faulty S F limit → Prop)
    (m : EStateM (F ⊕ ε) (Faulty S F limit) α) (p : Prog C R ε α) : Prop :=
  ∀ w, Good w → outcome (m w) = lift (run exec p w.state)

abbrev Implements (exec : S → (c : C) → R c × S) (m : EStateM (F ⊕ ε) (Faulty S F limit) α)
    (p : Prog C R ε α) : Prop :=
  ImplementsOn exec (fun _ => True) m p

theorem eq_ok_of_outcome {r : EStateM.Result (F ⊕ ε) (Faulty S F limit) α} {a : α} {s : S}
    (h : outcome r = (.ok a, s)) : ∃ w, r = .ok a w ∧ w.state = s := by
  cases r with
  | ok b w =>
    cases h
    exact ⟨w, rfl, rfl⟩
  | error e w => cases h

theorem eq_error_of_outcome {r : EStateM.Result (F ⊕ ε) (Faulty S F limit) α} {e : F ⊕ ε} {s : S}
    (h : outcome r = (.error e, s)) : ∃ w, r = .error e w ∧ w.state = s := by
  cases r with
  | ok b w => cases h
  | error e' w =>
    cases h
    exact ⟨w, rfl, rfl⟩

/-- **Sequencing.** -/
theorem ImplementsOn.bind {Good : Faulty S F limit → Prop}
    {m : EStateM (F ⊕ ε) (Faulty S F limit) α} {p : Prog C R ε α}
    {f : α → EStateM (F ⊕ ε) (Faulty S F limit) β} {q : α → Prog C R ε β}
    (hm : ImplementsOn exec Good m p) (hf : ∀ a, Implements exec (f a) (q a)) :
    ImplementsOn exec Good (m >>= f) (p >>= q) := by
  intro w hw
  have hfirst := hm w hw
  change outcome (EStateM.bind m f w) = _
  cases hrun : run exec p w.state with
  | mk result s =>
    rw [hrun] at hfirst
    cases result with
    | ok a =>
      obtain ⟨w', hw', rfl⟩ := eq_ok_of_outcome hfirst
      rw [run_bind_ok hrun, EStateM.bind, hw']
      exact hf a w' trivial
    | error e =>
      obtain ⟨w', hw', rfl⟩ := eq_error_of_outcome hfirst
      rw [run_bind_error hrun, EStateM.bind, hw']
      rfl

theorem implements_pure (a : α) :
    Implements exec (pure a : EStateM (F ⊕ ε) (Faulty S F limit) α) (pure a) :=
  fun _ _ => rfl

theorem ImplementsOn.map {Good : Faulty S F limit → Prop}
    {m : EStateM (F ⊕ ε) (Faulty S F limit) α} {p : Prog C R ε α} (g : α → β)
    (h : ImplementsOn exec Good m p) : ImplementsOn exec Good (g <$> m) (g <$> p) := by
  rw [← bind_pure_comp, ← bind_pure_comp]
  exact h.bind fun a => implements_pure (g a)

/-- **A loop.** -/
theorem Implements.forM {xs : List β} {f : β → EStateM (F ⊕ ε) (Faulty S F limit) Unit}
    {q : β → Prog C R ε Unit} (h : ∀ x ∈ xs, Implements exec (f x) (q x)) :
    Implements exec (xs.forM f) (xs.forM q) := by
  induction xs with
  | nil => exact implements_pure ()
  | cons x xs ih =>
    obtain ⟨hx, hxs⟩ := List.forall_mem_cons.1 h
    exact ImplementsOn.bind hx fun _ => ih hxs

/-! ## One command -/

/-- A program that issues at most one command. -/
def Single : Prog C R ε α → Prop
  | .call _ next => ∀ r, (next r).Finished
  | _ => True

theorem finished_map {p : Prog C R ε α} (g : α → β) (h : p.Finished) : (g <$> p).Finished := by
  cases p with
  | ret a => trivial
  | throw e => trivial
  | call c next => exact h.elim

theorem perform_finished {p : Prog C R ε α} (h : p.Finished) (w : Faulty S F limit) :
    outcome (perform exec p w) = lift (run exec p w.state) := by
  cases p with
  | ret a => rfl
  | throw e => rfl
  | call c next => exact h.elim

theorem perform_call_clean {c : C} {next : R c → Prog C R ε α} {w : Faulty S F limit}
    (hw : w.placement.faults 0 = []) :
    perform exec (.call c next) w =
      perform exec (next (exec w.state c).1) ⟨(exec w.state c).2, w.placement.next⟩ := by
  change EStateM.bind (send exec c) _ w = _
  rw [EStateM.bind, send, hw]

/-- **A command that is not hit** implements itself, without a policy. -/
theorem perform_clean {p : Prog C R ε α} (hp : Single p) :
    ImplementsOn exec (fun w : Faulty S F limit => w.placement.faults 0 = []) (perform exec p)
      p := by
  intro w hw
  cases p with
  | ret a => rfl
  | throw e => rfl
  | call c next =>
    rw [perform_call_clean hw, perform_finished (hp _)]
    rfl

/-- Without a policy, a fault is the result. -/
theorem perform_fault {p : Prog C R ε α} {w : Faulty S F limit} {fault : F} {others : List F}
    (hp : ¬ p.Finished) (hw : w.placement.faults 0 = fault :: others) :
    perform exec p w = .error (.inl fault) ⟨w.state, w.placement.hit⟩ := by
  cases p with
  | ret a => exact absurd trivial hp
  | throw e => exact absurd trivial hp
  | call c next =>
    change EStateM.bind (send exec c) _ w = _
    rw [EStateM.bind, send, hw]

section Policy

variable {handled : F ⊕ ε → Bool} {n : ℕ} {m : EStateM (F ⊕ ε) (Faulty S F limit) α}
  {w w' : Faulty S F limit}

theorem waitAndRetry_ok {a : α} (h : m w = .ok a w') : waitAndRetry handled n m w = .ok a w' := by
  cases n with
  | zero => exact h
  | succ n => simp only [waitAndRetry, h]

theorem waitAndRetry_unhandled {e : F ⊕ ε} (h : m w = .error e w') (he : handled e = false) :
    waitAndRetry handled n m w = .error e w' := by
  cases n with
  | zero => exact h
  | succ n => simp only [waitAndRetry, h, he, Bool.false_eq_true, if_false]

theorem waitAndRetry_handled {e : F ⊕ ε} (h : m w = .error e w') (he : handled e = true) :
    waitAndRetry handled (n + 1) m w = waitAndRetry handled n m w' := by
  simp only [waitAndRetry, h, he, if_true]

/-- The policy leaves what is no fault alone. -/
theorem waitAndRetry_of_outcome (hother : ∀ e, handled (.inr e) = false) {r : Except ε α × S}
    (h : outcome (m w) = lift r) : outcome (waitAndRetry handled n m w) = lift r := by
  obtain ⟨result, s⟩ := r
  cases result with
  | ok a =>
    obtain ⟨w', hw', rfl⟩ := eq_ok_of_outcome h
    rw [waitAndRetry_ok hw']
    rfl
  | error e =>
    obtain ⟨w', hw', rfl⟩ := eq_error_of_outcome h
    rw [waitAndRetry_unhandled hw' (hother e)]
    rfl

/-- **Faults are masked**: enough retries make a delegate of one command implement it. -/
theorem implements_waitAndRetry (hfault : ∀ f, handled (.inl f) = true)
    (hother : ∀ e, handled (.inr e) = false) {p : Prog C R ε α} (hp : Single p) :
    Implements exec (waitAndRetry handled limit (perform exec p) :
      EStateM (F ⊕ ε) (Faulty S F limit) α) p := by
  intro w _
  -- by induction on the retries left, which are at least the faults left
  suffices ∀ n (w : Faulty S F limit), (w.placement.faults 0).length ≤ n →
      outcome (waitAndRetry handled n (perform exec p) w) = lift (run exec p w.state) from
    this limit w (w.placement.atMost 0)
  intro n
  induction n with
  | zero =>
    intro w hlength
    exact perform_clean hp w (List.length_eq_zero_iff.1 (Nat.le_zero.1 hlength))
  | succ n ih =>
    intro w hlength
    cases hw : w.placement.faults 0 with
    | nil => exact waitAndRetry_of_outcome hother (perform_clean hp w hw)
    | cons fault others =>
      by_cases hfinished : p.Finished
      · exact waitAndRetry_of_outcome hother (perform_finished hfinished w)
      · rw [waitAndRetry_handled (perform_fault hfinished hw) (hfault fault)]
        refine ih ⟨w.state, w.placement.hit⟩ ?_
        rw [Placement.hit_faults, hw]
        rw [hw] at hlength
        exact Nat.le_of_succ_le_succ hlength

end Policy

end Retry
