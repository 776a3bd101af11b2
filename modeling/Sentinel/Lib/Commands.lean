import Sentinel.Lib.Runs

/-!
# Programs over the commands of a server

A program issues commands one at a time and goes on with the answer; a command is atomic on the
server's state.  Programs run alone, or in a pool in which their commands interleave.

* `Safe` — started in a state, the program does with every command what `Guar` allows, whatever
  changes `Rely` allows happen before each of its commands, and returns in `Q` or throws in `E`.
* `Safe.call_bind`, `Safe.bind`, `Safe.forM` — the rules of one command, of sequencing, and of
  a loop.
* `Safe.run`, `Safe.states` — what `Safe` says of a program that runs alone.
* `alone` — a program that runs alone, as a computation that may throw.
* `pool_safe` — programs whose commands all respect what the others rely on are safe together, in
  every interleaving.
-/

set_option autoImplicit false

namespace Commands

/-- A program over the commands `C`, answered in `R`, that returns an `α` or throws an `ε`. -/
inductive Prog (C : Type) (R : C → Type) (ε α : Type) : Type where
  | ret (a : α)
  | throw (e : ε)
  | call (c : C) (next : R c → Prog C R ε α)

variable {C : Type} {R : C → Type} {S ε α β : Type}

namespace Prog

def bind : Prog C R ε α → (α → Prog C R ε β) → Prog C R ε β
  | .ret a, f => f a
  | .throw e, _ => .throw e
  | .call c next, f => .call c fun r => bind (next r) f

instance : Monad (Prog C R ε) where
  pure := .ret
  bind := Prog.bind

theorem bind_ret (p : Prog C R ε α) : p.bind .ret = p := by
  induction p with
  | ret a => rfl
  | throw e => rfl
  | call c next ih => exact congrArg _ (funext ih)

theorem bind_assoc {γ : Type} (p : Prog C R ε α) (f : α → Prog C R ε β) (g : β → Prog C R ε γ) :
    (p.bind f).bind g = p.bind fun a => (f a).bind g := by
  induction p with
  | ret a => rfl
  | throw e => rfl
  | call c next ih => exact congrArg _ (funext ih)

instance : LawfulMonad (Prog C R ε) :=
  LawfulMonad.mk' _ bind_ret (fun _ _ => rfl) bind_assoc

/-- No command is left. -/
def Finished : Prog C R ε α → Prop
  | .call _ _ => False
  | _ => True

end Prog

/-! ## Running alone -/

section Alone

variable (exec : S → (c : C) → R c × S)

/-- The result of a program that runs alone, and the state it leaves. -/
def run : Prog C R ε α → S → Except ε α × S
  | .ret a, s => (.ok a, s)
  | .throw e, s => (.error e, s)
  | .call c next, s => run (next (exec s c).1) (exec s c).2

/-- The states after each of its commands. -/
def states : Prog C R ε α → S → List S
  | .ret _, _ => []
  | .throw _, _ => []
  | .call c next, s => (exec s c).2 :: states (next (exec s c).1) (exec s c).2

variable {exec}

theorem run_bind_ok {p : Prog C R ε α} {f : α → Prog C R ε β} {s s' : S} {a : α}
    (h : run exec p s = (.ok a, s')) : run exec (p >>= f) s = run exec (f a) s' := by
  induction p generalizing s with
  | ret b =>
    cases h
    rfl
  | throw e => cases h
  | call c next ih => exact ih _ h

theorem run_bind_error {p : Prog C R ε α} {f : α → Prog C R ε β} {s s' : S} {e : ε}
    (h : run exec p s = (.error e, s')) : run exec (p >>= f) s = (.error e, s') := by
  induction p generalizing s with
  | ret b => cases h
  | throw e' =>
    cases h
    rfl
  | call c next ih => exact ih _ h

/-- A program that runs alone, as a computation on the state of the server. -/
def alone (exec : S → (c : C) → R c × S) (p : Prog C R ε α) : EStateM ε S α := fun s =>
  match run exec p s with
  | (.ok a, s') => .ok a s'
  | (.error e, s') => .error e s'

theorem alone_ok {p : Prog C R ε α} {s s' : S} {a : α} (h : run exec p s = (.ok a, s')) :
    alone exec p s = .ok a s' := by
  rw [alone, h]

end Alone

/-! ## Rely and guarantee -/

section Safe

variable (exec : S → (c : C) → R c × S) (Rely Guar : S → S → Prop)

def Safe (Q : α → S → Prop) (E : ε → S → Prop) : Prog C R ε α → S → Prop
  | .ret a, s => ∀ s', Rely s s' → Q a s'
  | .throw e, s => ∀ s', Rely s s' → E e s'
  | .call c next, s => ∀ s', Rely s s' →
      Guar s' (exec s' c).2 ∧ Safe Q E (next (exec s' c).1) (exec s' c).2

variable {exec Rely Guar} {Q : α → S → Prop} {E : ε → S → Prop} {s s' : S}

/-- Safety is stable under what the program relies on. -/
theorem Safe.of_rely (htrans : ∀ a b c, Rely a b → Rely b c → Rely a c) {p : Prog C R ε α}
    (h : Safe exec Rely Guar Q E p s) (hs : Rely s s') : Safe exec Rely Guar Q E p s' := by
  cases p with
  | ret a => exact fun s'' h' => h s'' (htrans _ _ _ hs h')
  | throw e => exact fun s'' h' => h s'' (htrans _ _ _ hs h')
  | call c next => exact fun s'' h' => h s'' (htrans _ _ _ hs h')

theorem Safe.mono {Q' : α → S → Prop} {E' : ε → S → Prop} {p : Prog C R ε α}
    (h : Safe exec Rely Guar Q E p s) (hQ : ∀ a s, Q a s → Q' a s)
    (hE : ∀ e s, E e s → E' e s) : Safe exec Rely Guar Q' E' p s := by
  induction p generalizing s with
  | ret a => exact fun s' hs => hQ a s' (h s' hs)
  | throw e => exact fun s' hs => hE e s' (h s' hs)
  | call c next ih =>
    intro s' hs
    obtain ⟨hguar, hnext⟩ := h s' hs
    exact ⟨hguar, ih _ hnext⟩

/-- **One command** and what comes after it. -/
theorem Safe.call_bind {c : C} {f : R c → Prog C R ε α}
    (h : ∀ s', Rely s s' → Guar s' (exec s' c).2 ∧
      Safe exec Rely Guar Q E (f (exec s' c).1) (exec s' c).2) :
    Safe exec Rely Guar Q E (.call c .ret >>= f) s :=
  h

/-- **Sequencing.** -/
theorem Safe.bind (hrefl : ∀ s, Rely s s) {P : β → S → Prop} {p : Prog C R ε β}
    {f : β → Prog C R ε α} (hp : Safe exec Rely Guar P E p s)
    (hf : ∀ b s', P b s' → Safe exec Rely Guar Q E (f b) s') :
    Safe exec Rely Guar Q E (p >>= f) s := by
  induction p generalizing s with
  | ret b => exact hf b s (hp s (hrefl s))
  | throw e => exact hp
  | call c next ih =>
    intro s' hs
    obtain ⟨hguar, hnext⟩ := hp s' hs
    exact ⟨hguar, ih _ hnext⟩

/-- **A loop**; `Inv done` holds when the elements `done` have been dealt with, and no change the
program relies on can break it. -/
theorem Safe.forM (hrefl : ∀ s, Rely s s) {xs : List β} {f : β → Prog C R ε Unit}
    (Inv : List β → S → Prop) (hstable : ∀ done s s', Inv done s → Rely s s' → Inv done s')
    (hround : ∀ done x rest, xs = done ++ x :: rest → ∀ s, Inv done s →
      Safe exec Rely Guar (fun _ => Inv (done ++ [x])) E (f x) s) (hs : Inv [] s) :
    Safe exec Rely Guar (fun _ => Inv xs) E (xs.forM f) s := by
  suffices ∀ rest done, xs = done ++ rest → ∀ s, Inv done s →
      Safe exec Rely Guar (fun _ => Inv xs) E (rest.forM f) s from this xs [] rfl s hs
  intro rest
  induction rest with
  | nil =>
    intro done hxs s hs s' hrely
    rw [List.append_nil] at hxs
    rw [hxs]
    exact hstable done s s' hs hrely
  | cons x rest ih =>
    intro done hxs s hs
    exact (hround done x rest hxs s hs).bind hrefl
      fun _ s' hs' => ih (done ++ [x]) (by rw [hxs]; simp) s' hs'

/-! ## A program that runs alone -/

theorem Safe.run (hrefl : ∀ s, Rely s s) {p : Prog C R ε α} (h : Safe exec Rely Guar Q E p s) :
    (∃ a, (run exec p s).1 = .ok a ∧ Q a (run exec p s).2) ∨
      ∃ e, (run exec p s).1 = .error e ∧ E e (run exec p s).2 := by
  induction p generalizing s with
  | ret a => exact Or.inl ⟨a, rfl, h s (hrefl s)⟩
  | throw e => exact Or.inr ⟨e, rfl, h s (hrefl s)⟩
  | call c next ih => exact ih _ (h s (hrefl s)).2

theorem Safe.states {P : S → Prop} (hrefl : ∀ s, Rely s s) {p : Prog C R ε α}
    (h : Safe exec Rely (fun _ s' => P s') Q E p s) : ∀ s' ∈ states exec p s, P s' := by
  induction p generalizing s with
  | ret a => simp [Commands.states]
  | throw e => simp [Commands.states]
  | call c next ih =>
    obtain ⟨hguar, hnext⟩ := h s (hrefl s)
    exact List.forall_mem_cons.2 ⟨hguar, ih _ hnext⟩

end Safe

/-! ## A pool of programs -/

section Pool

variable (exec : S → (c : C) → R c × S)

/-- The next command of the program with the given index is executed. -/
def poolStep (pool : S × List (Prog C R ε α)) (i : ℕ) : Option (S × List (Prog C R ε α)) :=
  match pool.2[i]? with
  | some (.call c next) => some ((exec pool.1 c).2, pool.2.set i (next (exec pool.1 c).1))
  | _ => none

variable {exec}

theorem poolStep_cases {s s' : S} {ps ps' : List (Prog C R ε α)} {i : ℕ}
    (h : poolStep exec (s, ps) i = some (s', ps')) :
    ∃ c next, ps[i]? = some (.call c next) ∧ s' = (exec s c).2 ∧
      ps' = ps.set i (next (exec s c).1) := by
  unfold poolStep at h
  split at h
  · rename_i c next hi
    cases h
    exact ⟨c, next, hi, rfl, rfl⟩
  · cases h

/-- A program of the pool after a step is the one that took the step, or an unchanged one. -/
theorem program_cases {ps : List β} {i j : ℕ} {p q : β} (h : (ps.set i q)[j]? = some p) :
    i = j ∧ q = p ∨ i ≠ j ∧ ps[j]? = some p := by
  rw [List.getElem?_set] at h
  split at h
  · rename_i hij
    split at h
    · exact Or.inl ⟨hij, Option.some.inj h⟩
    · cases h
  · rename_i hij
    exact Or.inr ⟨hij, h⟩

/-- No program is lost. -/
theorem pool_length {schedule : List ℕ} {pool pool' : S × List (Prog C R ε α)}
    (h : Runs.run (poolStep exec) schedule pool = some pool') :
    pool'.2.length = pool.2.length := by
  refine Runs.run_invariant (fun pool' => pool'.2.length = pool.2.length) (fun _ => True)
    ?_ rfl (fun _ _ => trivial) h
  rintro ⟨s, ps⟩ i ⟨s', ps'⟩ hlength - hstep
  obtain ⟨c, next, -, -, rfl⟩ := poolStep_cases hstep
  rw [← hlength]
  exact List.length_set

variable {Rely Guar : S → S → Prop} {Q : ℕ → α → S → Prop} {E : ℕ → ε → S → Prop}

/-- What holds of a pool started in `s₀`: the state has changed as everybody relies on, and every
program is safe from here on. -/
def PoolSafe (exec : S → (c : C) → R c × S) (Rely Guar : S → S → Prop) (Q : ℕ → α → S → Prop)
    (E : ℕ → ε → S → Prop) (s₀ : S) (pool : S × List (Prog C R ε α)) : Prop :=
  Rely s₀ pool.1 ∧
    ∀ i p, pool.2[i]? = some p → Safe exec Rely Guar (Q i) (E i) p pool.1

theorem PoolSafe.step (htrans : ∀ a b c, Rely a b → Rely b c → Rely a c)
    (hrefl : ∀ s, Rely s s) (hguar : ∀ s s', Guar s s' → Rely s s') {s₀ : S}
    {pool pool' : S × List (Prog C R ε α)} {i : ℕ} (h : PoolSafe exec Rely Guar Q E s₀ pool)
    (hstep : poolStep exec pool i = some pool') : PoolSafe exec Rely Guar Q E s₀ pool' := by
  obtain ⟨s, ps⟩ := pool
  obtain ⟨s', ps'⟩ := pool'
  obtain ⟨c, next, hi, rfl, rfl⟩ := poolStep_cases hstep
  obtain ⟨hrely, hsafe⟩ := h
  obtain ⟨hg, hnext⟩ := hsafe i _ hi s (hrefl s)
  have hr := hguar _ _ hg
  refine ⟨htrans _ _ _ hrely hr, fun j p hj => ?_⟩
  rcases program_cases hj with ⟨rfl, rfl⟩ | ⟨-, hj⟩
  · exact hnext
  · exact (hsafe j p hj).of_rely htrans hr

/-- **Programs that respect what the others rely on are safe together.** -/
theorem pool_safe (htrans : ∀ a b c, Rely a b → Rely b c → Rely a c) (hrefl : ∀ s, Rely s s)
    (hguar : ∀ s s', Guar s s' → Rely s s') {s₀ : S} {ps : List (Prog C R ε α)}
    (hsafe : ∀ i p, ps[i]? = some p → Safe exec Rely Guar (Q i) (E i) p s₀)
    {schedule : List ℕ} {pool : S × List (Prog C R ε α)}
    (hrun : Runs.run (poolStep exec) schedule (s₀, ps) = some pool) :
    PoolSafe exec Rely Guar Q E s₀ pool :=
  Runs.run_invariant (PoolSafe exec Rely Guar Q E s₀) (fun _ => True)
    (fun _ _ _ h _ hstep => h.step htrans hrefl hguar hstep) ⟨hrefl s₀, hsafe⟩
    (fun _ _ => trivial) hrun

end Pool

end Commands
