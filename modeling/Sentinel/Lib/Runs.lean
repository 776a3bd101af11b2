import Mathlib

/-!
# Runs of a transition system

A partial step function and its runs over lists of actions.

* `run_induction` — what holds of the history and the state is shown one step at a time.
* `run_invariant` — the same for a property of the state.
* `everyStep_snoc_of_run`, `everyStep_append` — a property of every step of a run that goes on.
* `everyStep_congr`, `everyStep_congr_of_step` — two properties that agree at every step from an
  invariant state agree over every run.
* `run_potential` — what every step adds to a potential is paid for by its cost.
* `run_simulates` — a system whose steps are steps of another one, or stutter, has runs of it.
-/

set_option autoImplicit false

namespace Runs

variable {σ α : Type} (step : σ → α → Option σ)

def run : List α → σ → Option σ
  | [], s => some s
  | a :: as, s => (step s a).bind (run as)

/-- `P` holds at every step of the run. -/
def EveryStep (P : σ → α → σ → Prop) (as : List α) (s : σ) : Prop :=
  ∀ before a rest s₁ s₂, as = before ++ a :: rest → run step before s = some s₁ →
    step s₁ a = some s₂ → P s₁ a s₂

variable {step} {s s' : σ} {a : α} {as bs : List α}

theorem run_append : run step (as ++ bs) s = (run step as s).bind (run step bs) := by
  induction as generalizing s with
  | nil => rfl
  | cons a as ih =>
    simp only [List.cons_append, run]
    cases step s a with
    | none => rfl
    | some s' => exact ih

@[simp] theorem run_singleton : run step [a] s = step s a := by
  unfold run
  cases step s a with
  | none => rfl
  | some s' => rfl

theorem run_append_eq_some (h : run step (as ++ bs) s = some s') :
    ∃ s₁, run step as s = some s₁ ∧ run step bs s₁ = some s' :=
  Option.bind_eq_some_iff.1 (run_append.symm.trans h)

/-- **Induction over a run**, with the actions so far. -/
theorem run_induction {motive : List α → σ → Prop} (hstart : motive [] s)
    (hstep : ∀ as s₁ a s₂, run step as s = some s₁ → motive as s₁ → step s₁ a = some s₂ →
      motive (as ++ [a]) s₂) (h : run step as s = some s') : motive as s' := by
  induction as using List.reverseRecOn generalizing s' with
  | nil =>
    cases h
    exact hstart
  | append_singleton as a ih =>
    obtain ⟨s₁, hrun, hlast⟩ := run_append_eq_some h
    rw [run_singleton] at hlast
    exact hstep as s₁ a s' hrun (ih hrun) hlast

/-- **The rule of an invariant**, for runs of actions that satisfy `ok`. -/
theorem run_invariant (Inv : σ → Prop) (ok : α → Prop)
    (hstep : ∀ s₁ a s₂, Inv s₁ → ok a → step s₁ a = some s₂ → Inv s₂) (hstart : Inv s)
    (hok : ∀ a ∈ as, ok a) (h : run step as s = some s') : Inv s' := by
  refine run_induction (motive := fun as s' => (∀ a ∈ as, ok a) → Inv s') (fun _ => hstart) ?_ h hok
  intro as s₁ a s₂ _ ih hlast hok
  exact hstep s₁ a s₂ (ih fun b hb => hok b (List.mem_append_left _ hb)) (hok a (by simp)) hlast

theorem everyStep_nil {P : σ → α → σ → Prop} : EveryStep step P [] s :=
  fun before a rest _ _ heq => by simp at heq

theorem everyStep_cons {P : σ → α → σ → Prop} :
    EveryStep step P (a :: as) s ↔
      ∀ s₁, step s a = some s₁ → P s a s₁ ∧ EveryStep step P as s₁ := by
  constructor
  · intro h s₁ hstep
    refine ⟨h [] a as s s₁ rfl rfl hstep, fun before b rest s₂ s₃ heq hrun => ?_⟩
    refine h (a :: before) b rest s₂ s₃ (by rw [heq]; rfl) ?_
    rw [run, hstep]
    exact hrun
  · intro h before b rest s₁ s₂ heq hrun hlast
    cases before with
    | nil =>
      cases heq
      cases hrun
      exact (h s₂ hlast).1
    | cons c before =>
      cases heq
      obtain ⟨s₃, hstep, hrest⟩ := Option.bind_eq_some_iff.1 hrun
      exact (h s₃ hstep).2 before b rest s₁ s₂ rfl hrest hlast

theorem everyStep_snoc {P : σ → α → σ → Prop} :
    EveryStep step P (as ++ [a]) s ↔ EveryStep step P as s ∧
      ∀ s₁ s₂, run step as s = some s₁ → step s₁ a = some s₂ → P s₁ a s₂ := by
  constructor
  · intro h
    refine ⟨fun before b rest s₁ s₂ heq => h before b (rest ++ [a]) s₁ s₂ (by rw [heq]; simp),
      fun s₁ s₂ => h as a [] s₁ s₂ rfl⟩
  · rintro ⟨h, hlast⟩ before b rest s₁ s₂ heq
    rcases List.eq_nil_or_concat rest with rfl | ⟨rest, c, rfl⟩
    · obtain ⟨rfl, hab⟩ := List.append_inj' heq rfl
      cases hab
      exact hlast s₁ s₂
    · rw [List.concat_eq_append, ← List.cons_append, ← List.append_assoc] at heq
      obtain ⟨rfl, -⟩ := List.append_inj' heq rfl
      exact h before b rest s₁ s₂ rfl

theorem everyStep_snoc_of_run {P : σ → α → σ → Prop} {s₁ s₂ : σ}
    (hrun : run step as s = some s₁) (hlast : step s₁ a = some s₂) :
    EveryStep step P (as ++ [a]) s ↔ EveryStep step P as s ∧ P s₁ a s₂ := by
  rw [everyStep_snoc]
  refine and_congr_right fun _ => ⟨fun h => h s₁ s₂ hrun hlast, fun h t₁ t₂ ht₁ ht₂ => ?_⟩
  cases hrun.symm.trans ht₁
  cases hlast.symm.trans ht₂
  exact h

theorem everyStep_append {P : σ → α → σ → Prop} {s₁ : σ} (hrun : run step as s = some s₁)
    (has : EveryStep step P as s) (hbs : EveryStep step P bs s₁) :
    EveryStep step P (as ++ bs) s := by
  induction as generalizing s with
  | nil =>
    cases hrun
    exact hbs
  | cons a as ih =>
    rw [List.cons_append, everyStep_cons]
    intro t hstep
    obtain ⟨hP, hrest⟩ := everyStep_cons.1 has t hstep
    refine ⟨hP, ih ?_ hrest⟩
    rw [run, hstep] at hrun
    exact hrun

/-- Two properties that agree at every step from an invariant state, which the steps that satisfy
the first of them keep, agree over every run. -/
theorem everyStep_congr_of_step (Inv : σ → Prop) (ok : α → Prop) {P Q : σ → α → σ → Prop}
    (hstep : ∀ s₁ a s₂, Inv s₁ → ok a → step s₁ a = some s₂ → P s₁ a s₂ → Inv s₂)
    (hPQ : ∀ s₁ a s₂, Inv s₁ → ok a → step s₁ a = some s₂ → (P s₁ a s₂ ↔ Q s₁ a s₂))
    (hstart : Inv s) (hok : ∀ a ∈ as, ok a) : EveryStep step P as s ↔ EveryStep step Q as s := by
  induction as generalizing s with
  | nil => exact iff_of_true everyStep_nil everyStep_nil
  | cons a as ih =>
    obtain ⟨ha, has⟩ := List.forall_mem_cons.1 hok
    rw [everyStep_cons, everyStep_cons]
    refine forall₂_congr fun s₁ h₁ => ?_
    rw [← hPQ s a s₁ hstart ha h₁]
    exact and_congr_right fun hP => ih (hstep s a s₁ hstart ha h₁ hP) has

theorem everyStep_congr (Inv : σ → Prop) (ok : α → Prop) {P Q : σ → α → σ → Prop}
    (hstep : ∀ s₁ a s₂, Inv s₁ → ok a → step s₁ a = some s₂ → Inv s₂)
    (hPQ : ∀ s₁ a s₂, Inv s₁ → ok a → step s₁ a = some s₂ → (P s₁ a s₂ ↔ Q s₁ a s₂))
    (hstart : Inv s) (hok : ∀ a ∈ as, ok a) : EveryStep step P as s ↔ EveryStep step Q as s :=
  everyStep_congr_of_step Inv ok (fun s₁ a s₂ hs ha h _ => hstep s₁ a s₂ hs ha h) hPQ hstart hok

/-! ## Costs -/

section Cost

variable (step) in
/-- The costs of the steps of the run, added up. -/
def cost (c : σ → α → ℕ) : List α → σ → ℕ
  | [], _ => 0
  | a :: as, s => c s a + (match step s a with
    | some s' => cost c as s'
    | none => 0)

variable {c : σ → α → ℕ}

theorem cost_snoc (h : run step as s = some s') :
    cost step c (as ++ [a]) s = cost step c as s + c s' a := by
  induction as generalizing s with
  | nil =>
    cases h
    simp only [List.nil_append, cost, Nat.zero_add]
    cases step s' a with
    | none => rfl
    | some _ => rfl
  | cons b as ih =>
    obtain ⟨s₁, hstep, hrest⟩ := Option.bind_eq_some_iff.1 h
    simp only [List.cons_append, cost, hstep, ih hrest, Nat.add_assoc]

/-- **The rule of a potential**, for runs of which every step satisfies `P`. -/
theorem run_potential (Inv : σ → Prop) (ok : α → Prop) (Φ : σ → ℕ) {P : σ → α → σ → Prop}
    (hstep : ∀ s₁ a s₂, Inv s₁ → ok a → step s₁ a = some s₂ → Inv s₂)
    (hcost : ∀ s₁ a s₂, Inv s₁ → ok a → step s₁ a = some s₂ → P s₁ a s₂ → Φ s₂ ≤ Φ s₁ + c s₁ a)
    (hstart : Inv s) (hok : ∀ a ∈ as, ok a) (hP : EveryStep step P as s)
    (h : run step as s = some s') : Φ s' ≤ Φ s + cost step c as s := by
  refine run_induction (motive := fun as s' => (∀ a ∈ as, ok a) → EveryStep step P as s →
    Φ s' ≤ Φ s + cost step c as s) (fun _ _ => Nat.le_add_right _ _) ?_ h hok hP
  intro as s₁ a s₂ hrun ih hlast hok hP
  rw [List.forall_mem_append, List.forall_mem_singleton] at hok
  obtain ⟨hP, hPlast⟩ := everyStep_snoc.1 hP
  have hinv : Inv s₁ := run_invariant Inv ok hstep hstart hok.1 hrun
  calc Φ s₂ ≤ Φ s₁ + c s₁ a := hcost s₁ a s₂ hinv hok.2 hlast (hPlast s₁ s₂ hrun hlast)
    _ ≤ Φ s + cost step c as s + c s₁ a := Nat.add_le_add_right (ih hok.1 hP) _
    _ = Φ s + cost step c (as ++ [a]) s := by rw [cost_snoc hrun, Nat.add_assoc]

end Cost

/-! ## Simulation -/

section Simulation

variable {τ β : Type} {step' : τ → β → Option τ} {abs : σ → τ}

/-- **The rule of a simulation**: if every step is one of another system, seen through `abs`, or
leaves what is seen alone, then a run is one of the other system; each action of this run is for a
step of the first. -/
theorem run_simulates (Inv : σ → Prop) (ok : α → Prop) {For : σ → α → β → Prop}
    (hinv : ∀ s₁ a s₂, Inv s₁ → ok a → step s₁ a = some s₂ → Inv s₂)
    (hstep : ∀ s₁ a s₂, Inv s₁ → ok a → step s₁ a = some s₂ →
      abs s₂ = abs s₁ ∨ ∃ b, For s₁ a b ∧ step' (abs s₁) b = some (abs s₂))
    (hstart : Inv s) (hok : ∀ a ∈ as, ok a) (h : run step as s = some s') :
    ∃ bs, run step' bs (abs s) = some (abs s') ∧
      ∀ b ∈ bs, ∃ before a rest s₁, as = before ++ a :: rest ∧
        run step before s = some s₁ ∧ For s₁ a b := by
  refine run_induction (motive := fun as s' => (∀ a ∈ as, ok a) →
    ∃ bs, run step' bs (abs s) = some (abs s') ∧
      ∀ b ∈ bs, ∃ before a rest s₁, as = before ++ a :: rest ∧
        run step before s = some s₁ ∧ For s₁ a b) (fun _ => ⟨[], rfl, by simp⟩) ?_ h hok
  intro as s₁ a s₂ hrun ih hlast hok
  rw [List.forall_mem_append, List.forall_mem_singleton] at hok
  obtain ⟨bs, hbs, hfor⟩ := ih hok.1
  have hfor' : ∀ b ∈ bs, ∃ before a' rest s₁, as ++ [a] = before ++ a' :: rest ∧
      run step before s = some s₁ ∧ For s₁ a' b := by
    intro b hb
    obtain ⟨before, a', rest, s₁, rfl, hbefore, hb⟩ := hfor b hb
    exact ⟨before, a', rest ++ [a], s₁, by simp, hbefore, hb⟩
  have hs₁ : Inv s₁ := run_invariant Inv ok hinv hstart hok.1 hrun
  rcases hstep s₁ a s₂ hs₁ hok.2 hlast with hsame | ⟨b, hb, hmatch⟩
  · exact ⟨bs, hsame ▸ hbs, hfor'⟩
  · refine ⟨bs ++ [b], ?_, ?_⟩
    · rw [run_append, hbs, Option.bind_some, run_singleton]
      exact hmatch
    · rw [List.forall_mem_append, List.forall_mem_singleton]
      exact ⟨hfor', as, a, [], s₁, rfl, hrun, hb⟩

end Simulation

end Runs
