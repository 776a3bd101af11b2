import Mathlib

/-!
# Computations that may throw and keep what they have done

An exception leaves the state as it was at the throw: no statement is rolled back.

* `Triple` — partial results included: started in `P`, the computation returns in `Q` or throws
  in `E`.
* `Ends.bind`, `Ends.ofExcept_bind`, `Triple.bind`, `Triple.forM` — the rules of sequencing, of a
  pure call that may throw, and of a loop; the invariant of a loop speaks of the elements done so
  far.
* `Triple.mapM` — the rule of a loop that makes a list and throws at the first bad element.
* `returns_bind_iff` — when a sequence without a state returns.
* `mapM_eq_ok_iff` — without a state, a loop that makes a list is its rounds.
* `onPart` — a computation on a part of the state.
* `Respects` — a relation between the state before and after, whether the computation returns
  or throws.
-/

set_option autoImplicit false

namespace Throwing

variable {ε σ α β : Type}

/-- The state a computation leaves behind, whether it returns or throws. -/
def finalState : EStateM.Result ε σ α → σ
  | .ok _ s => s
  | .error _ s => s

@[simp] theorem finalState_ok (a : α) (s : σ) :
    finalState (.ok a s : EStateM.Result ε σ α) = s := rfl

@[simp] theorem finalState_error (e : ε) (s : σ) :
    finalState (.error e s : EStateM.Result ε σ α) = s := rfl

/-! ## Postconditions -/

/-- What holds of a result: `Q` of a value returned, `E` of an exception. -/
def Ends (Q : α → σ → Prop) (E : ε → σ → Prop) : EStateM.Result ε σ α → Prop
  | .ok a s => Q a s
  | .error e s => E e s

def Triple (P : σ → Prop) (m : EStateM ε σ α) (Q : α → σ → Prop) (E : ε → σ → Prop) : Prop :=
  ∀ s, P s → Ends Q E (m s)

theorem Ends.mono {Q Q' : α → σ → Prop} {E E' : ε → σ → Prop} {r : EStateM.Result ε σ α}
    (h : Ends Q E r) (hQ : ∀ a s, Q a s → Q' a s) (hE : ∀ e s, E e s → E' e s) : Ends Q' E' r := by
  cases r with
  | ok a s => exact hQ a s h
  | error e s => exact hE e s h

/-- A result that is no exception. -/
theorem Ends.returns {Q : α → σ → Prop} {r : EStateM.Result ε σ α}
    (h : Ends Q (fun _ _ => False) r) : ∃ a s, r = .ok a s ∧ Q a s := by
  cases r with
  | ok a s => exact ⟨a, s, rfl, h⟩
  | error e s => exact h.elim

theorem bind_apply (m : EStateM ε σ α) (f : α → EStateM ε σ β) (s : σ) :
    (m >>= f) s = match m s with
      | .ok a s' => f a s'
      | .error e s' => .error e s' := rfl

theorem bind_ok {m : EStateM ε σ α} {f : α → EStateM ε σ β} {s s' : σ} {a : α}
    (h : m s = .ok a s') : (m >>= f) s = f a s' := by
  rw [bind_apply, h]

theorem pure_apply (a : α) (s : σ) : (pure a : EStateM ε σ α) s = .ok a s := rfl

theorem get_apply (s : σ) : (get : EStateM ε σ σ) s = .ok s s := rfl

theorem modify_apply (f : σ → σ) (s : σ) : (modify f : EStateM ε σ PUnit) s = .ok ⟨⟩ (f s) := rfl

@[simp] theorem ofExcept_ok (a : α) (s : σ) :
    (ofExcept (.ok a) : EStateM ε σ α) s = .ok a s := rfl

theorem Ends.bind {m : EStateM ε σ α} {f : α → EStateM ε σ β} {s : σ} {R : α → σ → Prop}
    {Q : β → σ → Prop} {E : ε → σ → Prop} (hm : Ends R E (m s))
    (hf : ∀ a s', R a s' → Ends Q E (f a s')) : Ends Q E ((m >>= f) s) := by
  rw [bind_apply]
  cases hr : m s with
  | ok a s' =>
    rw [hr] at hm
    exact hf a s' hm
  | error e s' =>
    rw [hr] at hm
    exact hm

/-- A pure call that may throw, and what comes after it. -/
theorem Ends.ofExcept_bind {x : Except ε α} {f : α → EStateM ε σ β} {s : σ}
    {Q : β → σ → Prop} {E : ε → σ → Prop} (hok : ∀ a, x = .ok a → Ends Q E (f a s))
    (herror : ∀ e, x = .error e → E e s) : Ends Q E ((ofExcept x >>= f) s) := by
  cases x with
  | ok a => exact hok a rfl
  | error e => exact herror e rfl

theorem Triple.bind {P : σ → Prop} {m : EStateM ε σ α} {f : α → EStateM ε σ β}
    {R : α → σ → Prop} {Q : β → σ → Prop} {E : ε → σ → Prop} (hm : Triple P m R E)
    (hf : ∀ a, Triple (R a) (f a) Q E) : Triple P (m >>= f) Q E :=
  fun s hs => (hm s hs).bind hf

/-- **The rule of a loop.**  `Inv done` holds when the elements `done` have been dealt with; a
round that throws ends the loop. -/
theorem Triple.forM (Inv : List α → σ → Prop) {E : ε → σ → Prop} {f : α → EStateM ε σ Unit}
    {xs : List α}
    (hround : ∀ done x rest, xs = done ++ x :: rest →
      Triple (Inv done) (f x) (fun _ => Inv (done ++ [x])) E) :
    Triple (Inv []) (xs.forM f) (fun _ => Inv xs) E := by
  suffices ∀ rest done, xs = done ++ rest →
      Triple (Inv done) (rest.forM f) (fun _ => Inv xs) E from this xs [] rfl
  intro rest
  induction rest with
  | nil =>
    rintro done hxs s hs
    rw [hxs, List.append_nil]
    exact hs
  | cons x rest ih =>
    intro done hxs
    exact (hround done x rest hxs).bind fun _ => ih (done ++ [x]) (by rw [hxs]; simp)

theorem map_forM {f : β → EStateM ε σ Unit} (g : α → β) (xs : List α) :
    (xs.map g).forM f = xs.forM fun x => f (g x) :=
  List.forM_map

/-- **The rule of a loop that makes a list.**  A round returns `g` of its element if the element is
`ok`, throws otherwise, and keeps `P`. -/
theorem Triple.mapM {P : σ → Prop} {E : ε → Prop} {ok : α → Prop} {f : α → EStateM ε σ β}
    {g : α → β} {xs : List α}
    (hround : ∀ x, Triple P (f x) (fun y s => (y = g x ∧ ok x) ∧ P s)
      (fun e s => (E e ∧ ¬ ok x) ∧ P s)) :
    Triple P (xs.mapM f) (fun ys s => (ys = xs.map g ∧ ∀ x ∈ xs, ok x) ∧ P s)
      (fun e s => (E e ∧ ∃ x ∈ xs, ¬ ok x) ∧ P s) := by
  induction xs with
  | nil => exact fun s hs => ⟨⟨rfl, by simp⟩, hs⟩
  | cons x xs ih =>
    intro s hs
    rw [List.mapM_cons]
    refine Ends.bind (R := fun y s => (y = g x ∧ ok x) ∧ P s) ?_ ?_
    · exact (hround x s hs).mono (fun _ _ h => h) fun e s h =>
        ⟨⟨h.1.1, x, List.mem_cons_self, h.1.2⟩, h.2⟩
    · rintro _ s₁ ⟨⟨rfl, hok⟩, hs₁⟩
      refine Ends.bind (R := fun ys s => (ys = xs.map g ∧ ∀ x ∈ xs, ok x) ∧ P s) ?_ ?_
      · refine (ih s₁ hs₁).mono (fun _ _ h => h) ?_
        rintro e s₂ ⟨⟨he, y, hy, hnot⟩, hs₂⟩
        exact ⟨⟨he, y, List.mem_cons_of_mem x hy, hnot⟩, hs₂⟩
      · rintro _ s₂ ⟨⟨rfl, hall⟩, hs₂⟩
        exact ⟨⟨rfl, List.forall_mem_cons.2 ⟨hok, hall⟩⟩, hs₂⟩

/-- A sequence without a state returns iff both parts do. -/
theorem bind_eq_ok_iff {x : Except ε α} {f : α → Except ε β} {b : β} :
    x >>= f = .ok b ↔ ∃ a, x = .ok a ∧ f a = .ok b := by
  cases x with
  | error e =>
    constructor
    · intro h
      cases h
    · rintro ⟨a, h, -⟩
      cases h
  | ok a =>
    constructor
    · exact fun h => ⟨a, rfl, h⟩
    · rintro ⟨a', h, h'⟩
      cases h
      exact h'

theorem returns_pure (a : α) : (∃ b, (pure a : Except ε α) = .ok b) ↔ True :=
  iff_true_intro ⟨a, rfl⟩

/-- Whether the second part returns must not depend on what the first one returns. -/
theorem returns_bind_iff {x : Except ε α} {f : α → Except ε β} {P : Prop}
    (h : ∀ a, (∃ b, f a = .ok b) ↔ P) : (∃ b, x >>= f = .ok b) ↔ (∃ a, x = .ok a) ∧ P := by
  simp only [bind_eq_ok_iff]
  constructor
  · rintro ⟨b, a, ha, hb⟩
    exact ⟨⟨a, ha⟩, (h a).1 ⟨b, hb⟩⟩
  · rintro ⟨⟨a, ha⟩, hP⟩
    obtain ⟨b, hb⟩ := (h a).2 hP
    exact ⟨b, a, ha, hb⟩

/-! ## Lists made element by element -/

/-- A loop that makes a list returns iff every round returns its element. -/
theorem mapM_eq_ok_iff {f : α → Except ε β} {xs : List α} {ys : List β} :
    xs.mapM f = .ok ys ↔ List.Forall₂ (fun x y => f x = .ok y) xs ys := by
  induction xs generalizing ys with
  | nil =>
    rw [List.mapM_nil, List.forall₂_nil_left_iff]
    exact ⟨fun h => (Except.ok.inj h).symm, fun h => congrArg Except.ok h.symm⟩
  | cons x xs ih =>
    rw [List.mapM_cons, List.forall₂_cons_left_iff]
    cases hx : f x with
    | error e =>
      constructor
      · intro h
        cases h
      · rintro ⟨y, ys', hy, -⟩
        cases hy
    | ok y =>
      cases hxs : xs.mapM f with
      | error e =>
        constructor
        · intro h
          cases h
        · rintro ⟨y', ys', -, hall, -⟩
          cases hxs.symm.trans (ih.2 hall)
      | ok ys' =>
        constructor
        · intro h
          cases h
          exact ⟨y, ys', rfl, ih.1 hxs, rfl⟩
        · rintro ⟨y', ys'', hy, hall, rfl⟩
          cases hy
          cases hxs.symm.trans (ih.2 hall)
          rfl

theorem exists_mapM_eq_ok_iff {f : α → Except ε β} {xs : List α} :
    (∃ ys, xs.mapM f = .ok ys) ↔ ∀ x ∈ xs, ∃ y, f x = .ok y := by
  simp only [mapM_eq_ok_iff]
  induction xs with
  | nil => simp
  | cons x xs ih =>
    rw [List.forall_mem_cons, ← ih]
    constructor
    · rintro ⟨ys, h⟩
      cases h with
      | cons hx hxs => exact ⟨⟨_, hx⟩, _, hxs⟩
    · rintro ⟨⟨y, hy⟩, ys, hys⟩
      exact ⟨y :: ys, .cons hy hys⟩

/-- Every element of the list made was returned by some round. -/
theorem exists_of_mem_mapM {f : α → Except ε β} {xs : List α} {ys : List β} {y : β}
    (h : xs.mapM f = .ok ys) (hy : y ∈ ys) : ∃ x ∈ xs, f x = .ok y := by
  rw [mapM_eq_ok_iff] at h
  induction h with
  | nil => cases hy
  | cons hx _ ih =>
    rcases List.mem_cons.1 hy with rfl | hy
    · exact ⟨_, List.mem_cons_self, hx⟩
    · obtain ⟨x, hmem, hfx⟩ := ih hy
      exact ⟨x, List.mem_cons_of_mem _ hmem, hfx⟩

/-- Every round has its element in the list made. -/
theorem exists_mem_of_mapM {f : α → Except ε β} {xs : List α} {ys : List β} {x : α}
    (h : xs.mapM f = .ok ys) (hx : x ∈ xs) : ∃ y ∈ ys, f x = .ok y := by
  rw [mapM_eq_ok_iff] at h
  induction h with
  | nil => cases hx
  | cons hfirst _ ih =>
    rcases List.mem_cons.1 hx with rfl | hx
    · exact ⟨_, List.mem_cons_self, hfirst⟩
    · obtain ⟨y, hmem, hfx⟩ := ih hx
      exact ⟨y, List.mem_cons_of_mem _ hmem, hfx⟩

/-- The first element that passes a test is made by the round of the first element that passes the
corresponding one. -/
theorem find?_mapM {f : α → Except ε β} {xs : List α} {ys : List β} {p : α → Bool} {q : β → Bool}
    (h : xs.mapM f = .ok ys) (hpq : ∀ x y, f x = .ok y → p x = q y) :
    (xs.find? p = none ∧ ys.find? q = none) ∨
      ∃ x y, xs.find? p = some x ∧ ys.find? q = some y ∧ f x = .ok y := by
  rw [mapM_eq_ok_iff] at h
  induction h with
  | nil => exact .inl ⟨rfl, rfl⟩
  | @cons x y xs ys hxy _ ih =>
    rw [List.find?_cons, List.find?_cons, ← hpq x y hxy]
    cases p x with
    | true => exact .inr ⟨x, y, rfl, rfl, hxy⟩
    | false => exact ih

/-! ## A part of a larger state -/

section OnPart

variable {τ : Type}

/-- Runs `m` on a part of the state. -/
def onPart (get : σ → τ) (put : σ → τ → σ) (m : EStateM ε τ α) : EStateM ε σ α := fun s =>
  match m (get s) with
  | .ok a t => .ok a (put s t)
  | .error e t => .error e (put s t)

variable {get : σ → τ} {put : σ → τ → σ} {m : EStateM ε τ α} {s : σ} {t : τ}

theorem onPart_ok {a : α} (h : m (get s) = .ok a t) : onPart get put m s = .ok a (put s t) := by
  rw [onPart, h]

theorem onPart_error {e : ε} (h : m (get s) = .error e t) :
    onPart get put m s = .error e (put s t) := by
  rw [onPart, h]

end OnPart

/-! ## Relations between the state before and after -/

/-- Whether it returns or throws, `m` takes every state to one that `R` relates to it. -/
def Respects (R : σ → σ → Prop) (m : EStateM ε σ α) : Prop := ∀ s, R s (finalState (m s))

section Respects

variable {R : σ → σ → Prop}

theorem Respects.pure (hrefl : ∀ s, R s s) (a : α) :
    Respects R (Pure.pure a : EStateM ε σ α) :=
  fun s => hrefl s

theorem Respects.throw (hrefl : ∀ s, R s s) (e : ε) :
    Respects R (MonadExcept.throw e : EStateM ε σ α) :=
  fun s => hrefl s

theorem Respects.ofExcept (hrefl : ∀ s, R s s) (x : Except ε α) :
    Respects R (ofExcept x : EStateM ε σ α) := by
  intro s
  cases x with
  | ok a => exact hrefl s
  | error e => exact hrefl s

theorem Respects.get (hrefl : ∀ s, R s s) : Respects R (MonadState.get : EStateM ε σ σ) :=
  fun s => hrefl s

theorem Respects.modify {f : σ → σ} (hf : ∀ s, R s (f s)) :
    Respects R (modify f : EStateM ε σ PUnit) :=
  fun s => hf s

theorem Respects.bind (htrans : ∀ a b c, R a b → R b c → R a c) {m : EStateM ε σ α}
    {f : α → EStateM ε σ β} (hm : Respects R m) (hf : ∀ a, Respects R (f a)) :
    Respects R (m >>= f) := by
  intro s
  have h := hm s
  rw [bind_apply]
  cases hr : m s with
  | ok a s' =>
    rw [hr] at h
    exact htrans _ _ _ h (hf a s')
  | error e s' =>
    rw [hr] at h
    exact h

theorem Respects.forM (hrefl : ∀ s, R s s) (htrans : ∀ a b c, R a b → R b c → R a c)
    {f : α → EStateM ε σ Unit} (hf : ∀ a, Respects R (f a)) (xs : List α) :
    Respects R (xs.forM f) := by
  induction xs with
  | nil => exact Respects.pure hrefl ()
  | cons x xs ih => exact (hf x).bind htrans fun _ => ih

theorem Respects.forM_of_mem (hrefl : ∀ s, R s s) (htrans : ∀ a b c, R a b → R b c → R a c)
    {f : α → EStateM ε σ Unit} {xs : List α} (hf : ∀ x ∈ xs, Respects R (f x)) :
    Respects R (xs.forM f) := by
  induction xs with
  | nil => exact Respects.pure hrefl ()
  | cons x xs ih =>
    rw [List.forall_mem_cons] at hf
    exact hf.1.bind htrans fun _ => ih hf.2

theorem Respects.mapM (hrefl : ∀ s, R s s) (htrans : ∀ a b c, R a b → R b c → R a c)
    {f : α → EStateM ε σ β} (hf : ∀ a, Respects R (f a)) (xs : List α) :
    Respects R (xs.mapM f) := by
  induction xs with
  | nil =>
    rw [List.mapM_nil]
    exact Respects.pure hrefl []
  | cons x xs ih =>
    rw [List.mapM_cons]
    exact (hf x).bind htrans fun _ => ih.bind htrans fun _ => Respects.pure hrefl _

/-- A computation on a part of the state changes that part at most. -/
theorem Respects.onPart {τ : Type} {get : σ → τ} {put : σ → τ → σ} (hput : ∀ s t, R s (put s t))
    (m : EStateM ε τ α) : Respects R (onPart get put m) := by
  intro s
  unfold Throwing.onPart
  cases m (get s) with
  | ok a t => exact hput s t
  | error e t => exact hput s t

theorem Respects.ofExcept_bind (hrefl : ∀ s, R s s) {x : Except ε α} {f : α → EStateM ε σ β}
    (hf : ∀ a, x = .ok a → Respects R (f a)) :
    Respects R ((MonadExcept.ofExcept x : EStateM ε σ α) >>= f) := by
  cases x with
  | ok a => exact hf a rfl
  | error e => exact fun s => hrefl s

/-- What `m` leaves alone holds after it. -/
theorem Respects.keeps {τ : Type} {f : σ → τ} {c : τ} {m : EStateM ε σ α}
    (h : Respects (fun s s' => f s' = f s) m) :
    Triple (fun s => f s = c) m (fun _ s => f s = c) (fun _ s => f s = c) := by
  intro s hs
  have hfinal : f (finalState (m s)) = c := (h s).trans hs
  cases hr : m s with
  | ok a s' =>
    rw [hr] at hfinal
    exact hfinal
  | error e s' =>
    rw [hr] at hfinal
    exact hfinal

end Respects

end Throwing
