import Sentinel.Lib.Commands

/-!
# Programs that take effect at one command

A program that only reads until its last command takes effect at that command.  Interleaved with
any other clients of the server, such programs act as if each of them ran in one step.

* `Atomic` — no command but the last one changes the state in the eyes of `abs`, and the last one
  does what the specification says, whatever changes `Rely` allows happen before each command.
* `Atomic.call`, `Atomic.bind_result` — the rules of one command and of what follows the last one.
* `Within` — what the other programs promise.
* `pool_serialized` — the state a pool leaves is that of a serial execution, in which every atomic
  program that has ended takes one step and every command of the other clients is a step.
* `pool_lockFree` — when atomic programs that would all succeed alone compete, the first one that
  ends succeeds.
-/

set_option autoImplicit false

namespace Commands

variable {C : Type} {R : C → Type} {S A ε α β : Type}

/-! ## Results -/

namespace Prog

/-- What a program that has ended returns or throws. -/
def result : Prog C R ε α → Option (Except ε α)
  | .ret a => some (.ok a)
  | .throw e => some (.error e)
  | .call _ _ => none

/-- A computation that issues no command. -/
def ofExcept : Except ε α → Prog C R ε α
  | .ok a => .ret a
  | .error e => .throw e

@[simp] theorem result_ofExcept (r : Except ε α) :
    (ofExcept r : Prog C R ε α).result = some r := by
  cases r with
  | ok a => rfl
  | error e => rfl

theorem result_bind {p : Prog C R ε β} {f : β → Prog C R ε α} {g : β → Except ε α}
    (hf : ∀ b, (f b).result = some (g b)) :
    (p >>= f).result = p.result.map fun r => r >>= g := by
  cases p with
  | ret b => exact hf b
  | throw e => rfl
  | call c next => rfl

theorem result_map (f : β → α) (p : Prog C R ε β) :
    (f <$> p).result = p.result.map fun r => r.map f := by
  cases p with
  | ret b => rfl
  | throw e => rfl
  | call c next => rfl

end Prog

/-- The result of the program with the given index, once it has ended. -/
def resultAt (ps : List (Prog C R ε α)) (i : ℕ) : Option (Except ε α) := ps[i]?.bind Prog.result

theorem resultAt_set_ne {ps : List (Prog C R ε α)} {i j : ℕ} {p : Prog C R ε α} (h : i ≠ j) :
    resultAt (ps.set i p) j = resultAt ps j := by
  simp [resultAt, List.getElem?_set_ne h]

theorem resultAt_set_self {ps : List (Prog C R ε α)} {i : ℕ} {p q : Prog C R ε α}
    (h : ps[i]? = some q) : resultAt (ps.set i p) i = p.result := by
  have hlt : i < ps.length := (List.getElem?_eq_some_iff.1 h).1
  simp [resultAt, List.getElem?_set_self hlt]

/-! ## Atomic programs -/

section Atomic

variable (exec : S → (c : C) → R c × S) (abs : S → A) (Rely : S → S → Prop)

def Atomic (spec : A → Except ε α → A → Prop) : Prog C R ε α → S → Prop
  | .call c next, s => ∀ s', Rely s s' →
      (∀ result, (next (exec s' c).1).result = some result →
        spec (abs s') result (abs (exec s' c).2)) ∧
      ((next (exec s' c).1).result = none →
        abs (exec s' c).2 = abs s' ∧ Atomic spec (next (exec s' c).1) (exec s' c).2)
  | _, _ => True

/-- Whatever the answers are, every command of the program changes the state as `Rely` allows. -/
def Within : Prog C R ε α → Prop
  | .call c next => (∀ s, Rely s (exec s c).2) ∧ ∀ r, Within (next r)
  | _ => True

variable {exec abs Rely} {spec : A → Except ε α → A → Prop} {s s' : S}

theorem Atomic.of_rely (htrans : ∀ a b c, Rely a b → Rely b c → Rely a c) {p : Prog C R ε α}
    (h : Atomic exec abs Rely spec p s) (hs : Rely s s') : Atomic exec abs Rely spec p s' := by
  cases p with
  | ret a => trivial
  | throw e => trivial
  | call c next => exact fun s'' h' => h s'' (htrans _ _ _ hs h')

theorem Atomic.mono {spec' : A → Except ε α → A → Prop} {p : Prog C R ε α}
    (h : Atomic exec abs Rely spec p s)
    (hspec : ∀ a₁ result a₂, spec a₁ result a₂ → spec' a₁ result a₂) :
    Atomic exec abs Rely spec' p s := by
  induction p generalizing s with
  | ret a => trivial
  | throw e => trivial
  | call c next ih =>
    intro s' hs
    obtain ⟨hlast, hmore⟩ := h s' hs
    refine ⟨fun result hr => hspec _ _ _ (hlast result hr), fun hr => ?_⟩
    obtain ⟨hsame, hnext⟩ := hmore hr
    exact ⟨hsame, ih _ hnext⟩

/-- Less may be relied on. -/
theorem Atomic.of_imp {Rely' : S → S → Prop} {p : Prog C R ε α}
    (h : Atomic exec abs Rely spec p s) (hrely : ∀ s s', Rely' s s' → Rely s s') :
    Atomic exec abs Rely' spec p s := by
  induction p generalizing s with
  | ret a => trivial
  | throw e => trivial
  | call c next ih =>
    intro s' hs
    obtain ⟨hlast, hmore⟩ := h s' (hrely s s' hs)
    refine ⟨hlast, fun hr => ?_⟩
    obtain ⟨hsame, hnext⟩ := hmore hr
    exact ⟨hsame, ih _ hnext⟩

theorem Atomic.of_result {p : Prog C R ε α} {result : Except ε α} (h : p.result = some result) :
    Atomic exec abs Rely spec p s := by
  cases p with
  | ret a => trivial
  | throw e => trivial
  | call c next => cases h

/-- **One command**: the last one, or one that changes nothing. -/
theorem Atomic.call {c : C} {next : R c → Prog C R ε α}
    (h : ∀ s', Rely s s' →
      (∃ result, (next (exec s' c).1).result = some result ∧
        spec (abs s') result (abs (exec s' c).2)) ∨
      (abs (exec s' c).2 = abs s' ∧ (next (exec s' c).1).result = none ∧
        Atomic exec abs Rely spec (next (exec s' c).1) (exec s' c).2)) :
    Atomic exec abs Rely spec (.call c next) s := by
  intro s' hs
  rcases h s' hs with ⟨result, hresult, hspec⟩ | ⟨hsame, hnone, hnext⟩
  · refine ⟨fun result' hr => ?_, fun hr => ?_⟩
    · rw [hresult, Option.some.injEq] at hr
      rwa [← hr]
    · rw [hresult] at hr
      cases hr
  · refine ⟨fun result hr => ?_, fun _ => ⟨hsame, hnext⟩⟩
    rw [hnone] at hr
    cases hr

/-- **What follows the last command** only changes the result. -/
theorem Atomic.bind_result {spec' : A → Except ε β → A → Prop} {p : Prog C R ε β}
    {f : β → Prog C R ε α} {g : β → Except ε α} (hf : ∀ b, (f b).result = some (g b))
    (hp : Atomic exec abs Rely spec' p s)
    (hspec : ∀ a₁ result a₂, spec' a₁ result a₂ → spec a₁ (result >>= g) a₂) :
    Atomic exec abs Rely spec (p >>= f) s := by
  induction p generalizing s with
  | ret b => exact Atomic.of_result (hf b)
  | throw e => trivial
  | call c next ih =>
    intro s' hs
    obtain ⟨hlast, hmore⟩ := hp s' hs
    have hresult : ((next (exec s' c).1).bind f).result =
        (next (exec s' c).1).result.map fun r => r >>= g := Prog.result_bind hf
    simp only [hresult, Option.map_eq_some_iff, Option.map_eq_none_iff]
    refine ⟨?_, fun hr => ?_⟩
    · rintro result ⟨result', hr, rfl⟩
      exact hspec _ _ _ (hlast result' hr)
    · obtain ⟨hsame, hnext⟩ := hmore hr
      exact ⟨hsame, ih _ hnext⟩

theorem Within.mono {Rely' : S → S → Prop} {p : Prog C R ε α} (h : Within exec Rely p)
    (hrely : ∀ s s', Rely s s' → Rely' s s') : Within exec Rely' p := by
  induction p with
  | ret a => trivial
  | throw e => trivial
  | call c next ih => exact ⟨fun s => hrely _ _ (h.1 s), fun r => ih r (h.2 r)⟩

theorem Within.of_result {p : Prog C R ε α} {result : Except ε α} (h : p.result = some result) :
    Within exec Rely p := by
  cases p with
  | ret a => trivial
  | throw e => trivial
  | call c next => cases h

end Atomic

/-! ## A program that runs alone -/

section Alone

variable {exec : S → (c : C) → R c × S} {s : S}

theorem run_of_result {p : Prog C R ε α} {result : Except ε α} (h : p.result = some result) :
    run exec p s = (result, s) := by
  cases p with
  | ret a =>
    cases h
    rfl
  | throw e =>
    cases h
    rfl
  | call c next => cases h

theorem result_of_run_ok {p : Prog C R ε α} {a : α} (hok : (run exec p s).1 = .ok a)
    {result : Except ε α} (hresult : p.result = some result) : result = .ok a := by
  rwa [run_of_result hresult] at hok

theorem run_bind_result {p : Prog C R ε β} {f : β → Prog C R ε α} {g : β → Except ε α}
    (hf : ∀ b, (f b).result = some (g b)) :
    run exec (p >>= f) s = ((run exec p s).1 >>= g, (run exec p s).2) := by
  induction p generalizing s with
  | ret b => exact run_of_result (hf b)
  | throw e => rfl
  | call c next ih => exact ih _

/-- A program of one command does what it would do alone. -/
theorem atomic_one {Rely : S → S → Prop} {c : C} {next : R c → Prog C R ε α}
    (hnext : ∀ r, ∃ result, (next r).result = some result) :
    Atomic exec id Rely (fun s result s' => run exec (.call c next) s = (result, s'))
      (.call c next) s := by
  refine Atomic.call fun s' _ => Or.inl ?_
  obtain ⟨result, hresult⟩ := hnext (exec s' c).1
  exact ⟨result, hresult, run_of_result hresult⟩

end Alone

/-! ## Serial executions -/

/-- The steps of the given indices, one after the other. -/
inductive Serial (step : ℕ → A → A → Prop) : A → List ℕ → A → Prop
  | nil {a : A} : Serial step a [] a
  | snoc {a a₁ a₂ : A} {order : List ℕ} {i : ℕ} :
      Serial step a order a₁ → step i a₁ a₂ → Serial step a (order ++ [i]) a₂

theorem Serial.mono {step step' : ℕ → A → A → Prop} {a a' : A} {order : List ℕ}
    (h : Serial step a order a') (hstep : ∀ i a₁ a₂, step i a₁ a₂ → step' i a₁ a₂) :
    Serial step' a order a' := by
  induction h with
  | nil => exact .nil
  | snoc _ hlast ih => exact .snoc ih (hstep _ _ _ hlast)

/-- The step of program `i` in a serial execution: what its specification says of its result if it
is atomic, and else one command. -/
def SerialStep (exec : S → (c : C) → R c × S) (abs : S → A) (atomic : ℕ → Bool)
    (spec : ℕ → A → Except ε α → A → Prop) (ps : List (Prog C R ε α)) (i : ℕ) (a₁ a₂ : A) : Prop :=
  if atomic i then ∃ result, resultAt ps i = some result ∧ spec i a₁ result a₂
  else ∃ s c, a₁ = abs s ∧ a₂ = abs (exec s c).2

theorem SerialStep.mono {exec : S → (c : C) → R c × S} {abs : S → A} {atomic : ℕ → Bool}
    {spec spec' : ℕ → A → Except ε α → A → Prop} {ps ps' : List (Prog C R ε α)} {i : ℕ} {a₁ a₂ : A}
    (h : SerialStep exec abs atomic spec ps i a₁ a₂)
    (hresult : ∀ result, resultAt ps i = some result → resultAt ps' i = some result)
    (hspec : ∀ result, spec i a₁ result a₂ → spec' i a₁ result a₂) :
    SerialStep exec abs atomic spec' ps' i a₁ a₂ := by
  unfold SerialStep at h ⊢
  cases hatomic : atomic i with
  | true =>
    simp only [hatomic, if_true] at h ⊢
    obtain ⟨result, hended, hi⟩ := h
    exact ⟨result, hresult result hended, hspec result hi⟩
  | false => simpa [hatomic] using h

/-- The serial execution with the given order is one of a pool that has run from `ps` to `ps'`: the
atomic programs that have ended in the run take one step each, at one of their own commands, and
the others take all of their steps. -/
structure Serialized (exec : S → (c : C) → R c × S) (abs : S → A) (atomic : ℕ → Bool)
    (spec : ℕ → A → Except ε α → A → Prop) (schedule : List ℕ) (s : S)
    (ps : List (Prog C R ε α)) (s' : S) (ps' : List (Prog C R ε α)) (order : List ℕ) : Prop where
  sublist : order.Sublist schedule
  others : order.filter (fun i => !atomic i) = schedule.filter fun i => !atomic i
  once : ∀ i, atomic i = true → order.count i =
    if resultAt ps i = none ∧ (resultAt ps' i).isSome then 1 else 0
  serial : Serial (SerialStep exec abs atomic spec ps') (abs s) order (abs s')

theorem Serialized.mono {exec : S → (c : C) → R c × S} {abs : S → A} {atomic : ℕ → Bool}
    {spec spec' : ℕ → A → Except ε α → A → Prop} {schedule order : List ℕ} {s s' : S}
    {ps ps' : List (Prog C R ε α)} (h : Serialized exec abs atomic spec schedule s ps s' ps' order)
    (hspec : ∀ i a₁ result a₂, spec i a₁ result a₂ → spec' i a₁ result a₂) :
    Serialized exec abs atomic spec' schedule s ps s' ps' order :=
  ⟨h.sublist, h.others, h.once, h.serial.mono fun i a₁ a₂ hstep =>
    hstep.mono (fun _ hresult => hresult) fun result => hspec i a₁ result a₂⟩

section Pool

variable {exec : S → (c : C) → R c × S} {abs : S → A} {Rely : ℕ → S → S → Prop}
  {atomic : ℕ → Bool} {spec : ℕ → A → Except ε α → A → Prop}

/-- A step of the pool goes on a serial execution: an atomic program that does not end with the
step leaves the state as it is. -/
theorem Serialized.step {schedule order : List ℕ} {s s₁ s₂ : S} {ps ps₁ ps₂ : List (Prog C R ε α)}
    {i : ℕ} (h : Serialized exec abs atomic spec schedule s ps s₁ ps₁ order)
    (hbefore : resultAt ps₁ i = none → resultAt ps i = none)
    (hatomic : ∀ p, atomic i = true → ps₁[i]? = some p → Atomic exec abs (Rely i) (spec i) p s₁)
    (hrefl : ∀ s, Rely i s s) (hstep : poolStep exec (s₁, ps₁) i = some (s₂, ps₂)) :
    ∃ order', Serialized exec abs atomic spec (schedule ++ [i]) s ps s₂ ps₂ order' := by
  obtain ⟨c, next, hi, rfl, rfl⟩ := poolStep_cases hstep
  have hrunning : resultAt ps₁ i = none := by simp [resultAt, hi, Prog.result]
  have hself : resultAt (ps₁.set i (next (exec s₁ c).1)) i = (next (exec s₁ c).1).result :=
    resultAt_set_self hi
  have hother : ∀ j, i ≠ j →
      resultAt (ps₁.set i (next (exec s₁ c).1)) j = resultAt ps₁ j :=
    fun j hj => resultAt_set_ne hj
  -- the steps taken so far are those of programs that the step leaves alone
  have hserial : Serial (SerialStep exec abs atomic spec (ps₁.set i (next (exec s₁ c).1)))
      (abs s) order (abs s₁) := by
    refine h.serial.mono fun j t₁ t₂ hj => hj.mono (fun result hresult => ?_) fun _ hspec => hspec
    rw [hother j ?_, hresult]
    rintro rfl
    rw [hrunning] at hresult
    cases hresult
  cases hatomici : atomic i with
  | false =>
    refine ⟨order ++ [i], h.sublist.append_right [i], ?_, ?_, ?_⟩
    · rw [List.filter_append, List.filter_append, h.others]
    · intro j hj
      have hij : i ≠ j := by
        rintro rfl
        rw [hatomici] at hj
        cases hj
      rw [List.count_append, h.once j hj, hother j hij]
      simp [hij]
    · refine hserial.snoc ?_
      unfold SerialStep
      rw [hatomici, if_neg Bool.false_ne_true]
      exact ⟨s₁, c, rfl, rfl⟩
  | true =>
    obtain ⟨hlast, hmore⟩ := hatomic _ hatomici hi s₁ (hrefl s₁)
    have hothers : (order ++ [i]).filter (fun j => !atomic j) =
        (schedule ++ [i]).filter fun j => !atomic j := by
      rw [List.filter_append, List.filter_append, h.others]
    have hzero : order.count i = 0 := by
      rw [h.once i hatomici, hrunning]
      simp
    cases hresult : (next (exec s₁ c).1).result with
    | none =>
      obtain ⟨hsame, -⟩ := hmore hresult
      refine ⟨order, h.sublist.trans (List.sublist_append_left _ _), ?_, ?_, ?_⟩
      · simp [List.filter_append, h.others, hatomici]
      · intro j hj
        by_cases hij : i = j
        · subst hij
          rw [hzero, hself, hresult]
          simp
        · rw [h.once j hj, hother j hij]
      · rw [hsame]
        exact hserial
    | some result =>
      refine ⟨order ++ [i], h.sublist.append_right [i], hothers, ?_, ?_⟩
      · intro j hj
        by_cases hij : i = j
        · subst hij
          rw [List.count_append, hzero, hself, hresult, hbefore hrunning]
          simp
        · rw [List.count_append, h.once j hj, hother j hij]
          simp [hij]
      · refine hserial.snoc ?_
        unfold SerialStep
        rw [hatomici, if_pos rfl]
        exact ⟨result, by rw [hself, hresult], hlast result hresult⟩

/-- What holds of a pool in which the programs marked as atomic are atomic, and in which the others
do what each of them relies on. -/
structure PoolAtomic (exec : S → (c : C) → R c × S) (abs : S → A) (Rely : ℕ → S → S → Prop)
    (atomic : ℕ → Bool) (spec : ℕ → A → Except ε α → A → Prop) (s : S) (ps : List (Prog C R ε α))
    (schedule : List ℕ) (pool : S × List (Prog C R ε α)) : Prop where
  programs : ∀ i p, atomic i = true → pool.2[i]? = some p → Atomic exec abs (Rely i) (spec i) p pool.1
  within : ∀ i j p, atomic i = true → i ≠ j → pool.2[j]? = some p → Within exec (Rely i) p
  running : ∀ i, resultAt pool.2 i = none → resultAt ps i = none
  serialized : ∃ order, Serialized exec abs atomic spec schedule s ps pool.1 pool.2 order

theorem PoolAtomic.step (htrans : ∀ i a b c, Rely i a b → Rely i b c → Rely i a c)
    (hrefl : ∀ i s, Rely i s s) {s : S} {ps : List (Prog C R ε α)} {schedule : List ℕ} {i : ℕ}
    {pool pool' : S × List (Prog C R ε α)}
    (h : PoolAtomic exec abs Rely atomic spec s ps schedule pool)
    (hstep : poolStep exec pool i = some pool') :
    PoolAtomic exec abs Rely atomic spec s ps (schedule ++ [i]) pool' := by
  obtain ⟨s₁, ps₁⟩ := pool
  obtain ⟨s₂, ps₂⟩ := pool'
  obtain ⟨order, hserialized⟩ := h.serialized
  have hgoes := hserialized.step (h.running i) (fun p => h.programs i p) (hrefl i) hstep
  obtain ⟨c, next, hi, rfl, rfl⟩ := poolStep_cases hstep
  refine ⟨fun j p hj hp => ?_, fun j k p hj hjk hp => ?_, fun j hj => ?_, hgoes⟩
  · rcases program_cases hp with ⟨rfl, rfl⟩ | ⟨hij, hp⟩
    · obtain ⟨-, hmore⟩ := h.programs i _ hj hi s₁ (hrefl i s₁)
      cases hresult : (next (exec s₁ c).1).result with
      | none =>
        obtain ⟨-, hnext⟩ := hmore hresult
        exact hnext
      | some result => exact Atomic.of_result hresult
    · have hcommand := h.within j i _ hj (Ne.symm hij) hi
      exact (h.programs j p hj hp).of_rely (htrans j) (hcommand.1 s₁)
  · rcases program_cases hp with ⟨rfl, rfl⟩ | ⟨-, hp⟩
    · exact (h.within j i _ hj hjk hi).2 _
    · exact h.within j k p hj hjk hp
  · by_cases hij : i = j
    · subst hij
      exact h.running i (by simp [resultAt, hi, Prog.result])
    · rw [resultAt_set_ne hij] at hj
      exact h.running j hj

/-- **A pool with atomic programs is serialized**, whatever the other programs are as long as they
do what the atomic ones rely on. -/
theorem pool_serialized (htrans : ∀ i a b c, Rely i a b → Rely i b c → Rely i a c)
    (hrefl : ∀ i s, Rely i s s) {s : S} {ps : List (Prog C R ε α)}
    {pool : S × List (Prog C R ε α)} {schedule : List ℕ}
    (hatomic : ∀ i p, atomic i = true → ps[i]? = some p → Atomic exec abs (Rely i) (spec i) p s)
    (hwithin : ∀ i j p, atomic i = true → i ≠ j → ps[j]? = some p → Within exec (Rely i) p)
    (hrun : Runs.run (poolStep exec) schedule (s, ps) = some pool) :
    ∃ order, Serialized exec abs atomic spec schedule s ps pool.1 pool.2 order := by
  suffices PoolAtomic exec abs Rely atomic spec s ps schedule pool from this.serialized
  refine Runs.run_induction (motive := PoolAtomic exec abs Rely atomic spec s ps) ?_ ?_ hrun
  · refine ⟨hatomic, hwithin, fun i h => h, [], List.Sublist.refl _, rfl, fun i _ => ?_, .nil⟩
    cases resultAt ps i with
    | none => simp
    | some result => simp
  · exact fun schedule pool₁ i pool₂ _ h hstep => h.step htrans hrefl hstep

/-! ## Competing programs -/

variable {spec : ℕ → S → Except ε α → S → Prop}

/-- What holds of atomic programs that would all succeed alone, until one of them has succeeded: no
command has changed the state. -/
def Competing (exec : S → (c : C) → R c × S) (Rely : ℕ → S → S → Prop)
    (spec : ℕ → S → Except ε α → S → Prop) (s : S) (pool : S × List (Prog C R ε α)) : Prop :=
  (∃ j a, resultAt pool.2 j = some (.ok a)) ∨
    (pool.1 = s ∧ ∀ (i : ℕ) (p : Prog C R ε α), pool.2[i]? = some p →
      Atomic exec id (Rely i) (spec i) p s ∧ ∃ a, (run exec p s).1 = .ok a)

theorem Competing.step (hrefl : ∀ i s, Rely i s s) {s : S} {pool pool' : S × List (Prog C R ε α)}
    {i : ℕ} (h : Competing exec Rely spec s pool) (hstep : poolStep exec pool i = some pool') :
    Competing exec Rely spec s pool' := by
  obtain ⟨s₁, ps₁⟩ := pool
  obtain ⟨s₂, ps₂⟩ := pool'
  obtain ⟨c, next, hi, rfl, rfl⟩ := poolStep_cases hstep
  rcases h with ⟨j, a, hj⟩ | ⟨heq, hall⟩
  · refine Or.inl ⟨j, a, ?_⟩
    by_cases hij : i = j
    · subst hij
      simp [resultAt, hi, Prog.result] at hj
    · rwa [resultAt_set_ne hij]
  · simp only at heq
    subst heq
    obtain ⟨hcall, a, hok⟩ := hall i _ hi
    obtain ⟨-, hmore⟩ := hcall s₁ (hrefl i s₁)
    have hnext : (run exec (next (exec s₁ c).1) (exec s₁ c).2).1 = .ok a := hok
    cases hresult : (next (exec s₁ c).1).result with
    | some result =>
      -- it ends as it would alone
      refine Or.inl ⟨i, a, ?_⟩
      rw [resultAt_set_self hi, hresult, result_of_run_ok hnext hresult]
    | none =>
      obtain ⟨hsame, hatomic⟩ := hmore hresult
      simp only [id_eq] at hsame
      rw [hsame] at hatomic
      refine Or.inr ⟨hsame, fun j p hp => ?_⟩
      rcases program_cases hp with ⟨rfl, rfl⟩ | ⟨-, hp⟩
      · rw [hsame] at hnext
        exact ⟨hatomic, a, hnext⟩
      · exact hall j p hp

/-- **The first to end succeeds**: atomic programs that would succeed if they ran alone can only fail
because another one has succeeded. -/
theorem pool_lockFree (hrefl : ∀ i s, Rely i s s) {s : S} {ps : List (Prog C R ε α)}
    {pool : S × List (Prog C R ε α)} {schedule : List ℕ}
    (hatomic : ∀ (i : ℕ) (p : Prog C R ε α), ps[i]? = some p → Atomic exec id (Rely i) (spec i) p s)
    (halone : ∀ (i : ℕ) (p : Prog C R ε α), ps[i]? = some p → ∃ a, (run exec p s).1 = .ok a)
    (hrun : Runs.run (poolStep exec) schedule (s, ps) = some pool) {i : ℕ}
    {result : Except ε α} (hended : resultAt pool.2 i = some result) :
    ∃ j a, resultAt pool.2 j = some (.ok a) := by
  have hinv : Competing exec Rely spec s pool :=
    Runs.run_invariant (Competing exec Rely spec s) (fun _ => True)
      (fun _ _ _ h _ hstep => h.step hrefl hstep)
      (Or.inr ⟨rfl, fun i p hp => ⟨hatomic i p hp, halone i p hp⟩⟩) (fun _ _ => trivial) hrun
  rcases hinv with hreturned | ⟨-, hall⟩
  · exact hreturned
  · obtain ⟨p, hp, hresult⟩ := Option.bind_eq_some_iff.1 hended
    obtain ⟨-, a, hok⟩ := hall i p hp
    exact ⟨i, a, by rw [hended, result_of_run_ok hok hresult]⟩

end Pool

end Commands
