import Sentinel.Lib.Runs

/-!
# Watchdogs

Some actions of a run are ticks of a timer, and some are uses of what the timer watches.  At a
tick a watchdog should report iff nothing has been used since the previous tick.

* `Quiet` — the histories after which a tick should report.
* `flag_false_iff` — a flag that every tick clears and every use sets is clear exactly after
  those.
* `Obeys.never_reports` — with a use between any two ticks, no tick reports.
* `obeys_iff_of_ignored` — a flag that ticks clear and nothing sets again obeys the law exactly in
  the runs without a use between two ticks.
-/

set_option autoImplicit false

namespace Watchdog

open Runs

variable {σ α : Type} (isTick isUse : α → Bool)

/-- Since the last tick, which there is, nothing has been used. -/
def Quiet (history : List α) : Prop :=
  ∃ before tick after, history = before ++ tick :: after ∧ isTick tick = true ∧
    ∀ a ∈ after, isTick a = false ∧ isUse a = false

/-- Every tick of the run reports iff its history is quiet. -/
def Obeys (step : σ → α → Option σ) (reports : σ → σ → Prop) (actions : List α) (s : σ) : Prop :=
  ∀ before tick rest s₁ s₂, actions = before ++ tick :: rest → isTick tick = true →
    run step before s = some s₁ → step s₁ tick = some s₂ →
    (reports s₁ s₂ ↔ Quiet isTick isUse before)

/-- Between any two ticks there is a use, or another tick. -/
def UsedInEveryWindow (actions : List α) : Prop :=
  ∀ before t₁ mid t₂ rest, actions = before ++ t₁ :: (mid ++ t₂ :: rest) → isTick t₁ = true →
    isTick t₂ = true → ∃ a ∈ mid, isTick a = true ∨ isUse a = true

/-- There is no use between two ticks. -/
def NoUseBetweenTicks (actions : List α) : Prop :=
  ∀ before t₁ mid t₂ rest, actions = before ++ t₁ :: (mid ++ t₂ :: rest) → isTick t₁ = true →
    isTick t₂ = true → ∀ a ∈ mid, isUse a = false

variable {isTick isUse} {step : σ → α → Option σ} {reports : σ → σ → Prop}
  {actions history : List α} {a : α} {s s' : σ}

/-! ## Quiet histories -/

theorem not_quiet_nil : ¬ Quiet isTick isUse [] := by
  rintro ⟨before, tick, after, heq, -⟩
  simp at heq

theorem quiet_snoc : Quiet isTick isUse (history ++ [a]) ↔
    isTick a = true ∨ (isTick a = false ∧ isUse a = false ∧ Quiet isTick isUse history) := by
  constructor
  · rintro ⟨before, tick, after, heq, htick, hafter⟩
    rcases List.eq_nil_or_concat after with rfl | ⟨after, b, rfl⟩
    · obtain ⟨-, hlast⟩ := List.append_inj' heq rfl
      cases hlast
      exact Or.inl htick
    · rw [List.concat_eq_append, ← List.cons_append, ← List.append_assoc] at heq
      obtain ⟨rfl, hlast⟩ := List.append_inj' heq rfl
      cases hlast
      obtain ⟨hnot, hunused⟩ := hafter a (by simp)
      exact Or.inr ⟨hnot, hunused, before, tick, after, rfl, htick,
        fun b hb => hafter b (by simp [hb])⟩
  · rintro (htick | ⟨hnot, hunused, before, tick, after, rfl, htick, hafter⟩)
    · exact ⟨history, a, [], rfl, htick, by simp⟩
    · refine ⟨before, tick, after ++ [a], by simp, htick, fun b hb => ?_⟩
      rcases List.mem_append.1 hb with hb | hb
      · exact hafter b hb
      · rw [List.mem_singleton.1 hb]
        exact ⟨hnot, hunused⟩

/-- A use is remembered until the next tick. -/
theorem not_quiet_of_use {after : List α} (huse : isUse a = true) (hnot : isTick a = false)
    (hafter : ∀ b ∈ after, isTick b = false) : ¬ Quiet isTick isUse (history ++ a :: after) := by
  induction after using List.reverseRecOn with
  | nil =>
    rw [quiet_snoc]
    simp [huse, hnot]
  | append_singleton after b ih =>
    rw [← List.cons_append, ← List.append_assoc, quiet_snoc]
    rintro (htick | ⟨-, -, hquiet⟩)
    · rw [hafter b (by simp)] at htick
      cases htick
    · exact ih (fun c hc => hafter c (by simp [hc])) hquiet

/-- If nothing counts as a use, the histories with a tick are quiet. -/
theorem quiet_unused_iff : Quiet isTick (fun _ => false) history ↔
    ∃ t ∈ history, isTick t = true := by
  induction history using List.reverseRecOn with
  | nil => exact iff_of_false not_quiet_nil (by simp)
  | append_singleton history a ih =>
    rw [quiet_snoc, ih]
    cases ha : isTick a with
    | true => simp [ha]
    | false => simp [ha]

/-! ## Flags -/

/-- **A flag that every tick clears and every use sets**, set at the start, is clear exactly after
quiet histories. -/
theorem flag_false_iff (flag : σ → Bool) (hstart : flag s = true)
    (hstep : ∀ s₁ a s₂, step s₁ a = some s₂ →
      flag s₂ = if isTick a = true then false else isUse a || flag s₁)
    (h : run step actions s = some s') : flag s' = false ↔ Quiet isTick isUse actions := by
  refine run_induction (motive := fun history s' => flag s' = false ↔
    Quiet isTick isUse history) ?_ ?_ h
  · rw [hstart]
    exact iff_of_false (by simp) not_quiet_nil
  · intro history s₁ a s₂ _ ih hlast
    rw [hstep s₁ a s₂ hlast, quiet_snoc, ← ih]
    cases isTick a with
    | true => simp
    | false => simp

/-! ## The law -/

/-- **With a use between any two ticks, no tick reports.** -/
theorem Obeys.never_reports (h : Obeys isTick isUse step reports actions s)
    (hused : UsedInEveryWindow isTick isUse actions) {before rest : List α} {tick : α} {s₁ s₂ : σ}
    (heq : actions = before ++ tick :: rest) (htick : isTick tick = true)
    (hrun : run step before s = some s₁) (hlast : step s₁ tick = some s₂) :
    ¬ reports s₁ s₂ := by
  rw [h before tick rest s₁ s₂ heq htick hrun hlast]
  rintro ⟨before', t₁, mid, rfl, ht₁, hmid⟩
  obtain ⟨a, ha, hcase⟩ := hused before' t₁ mid tick rest (by rw [heq]; simp) ht₁ htick
  obtain ⟨hnot, hunused⟩ := hmid a ha
  rcases hcase with ht | hu
  · cases hnot.symm.trans ht
  · cases hunused.symm.trans hu

theorem exists_first_tick {l : List α} (h : ∃ a ∈ l, isTick a = true) :
    ∃ before tick rest, l = before ++ tick :: rest ∧ isTick tick = true ∧
      ∀ a ∈ before, isTick a = false := by
  induction l with
  | nil => simp at h
  | cons b l ih =>
    cases hb : isTick b with
    | true => exact ⟨[], b, l, rfl, hb, by simp⟩
    | false =>
      obtain ⟨a, ha, hta⟩ := h
      have ha : a ∈ l := (List.mem_cons.1 ha).resolve_left fun heq => by
        rw [heq, hb] at hta
        cases hta
      obtain ⟨before, tick, rest, rfl, htick, hbefore⟩ := ih ⟨a, ha, hta⟩
      exact ⟨b :: before, tick, rest, rfl, htick, List.forall_mem_cons.2 ⟨hb, hbefore⟩⟩

/-- **A watchdog that reports at every tick but the first** obeys the law exactly in the runs
without a use between two ticks. -/
theorem obeys_iff_of_ignored (hdisjoint : ∀ a, isUse a = true → isTick a = false)
    (hreports : ∀ before tick s₁ s₂, isTick tick = true → run step before s = some s₁ →
      step s₁ tick = some s₂ → (reports s₁ s₂ ↔ Quiet isTick (fun _ => false) before))
    (h : run step actions s = some s') :
    Obeys isTick isUse step reports actions s ↔ NoUseBetweenTicks isTick isUse actions := by
  constructor
  · intro hobeys before t₁ mid t₂ rest heq ht₁ ht₂ a ha
    by_contra huse
    have huse : isUse a = true := by simpa using huse
    obtain ⟨m₁, m₂, rfl⟩ := List.append_of_mem ha
    -- the first tick after the use
    obtain ⟨m, tick, rest', hfirst, htick, hm⟩ :=
      exists_first_tick (l := m₂ ++ t₂ :: rest) ⟨t₂, by simp, ht₂⟩
    have heq' : actions = (before ++ t₁ :: m₁ ++ a :: m) ++ tick :: rest' := by
      rw [heq]
      simp [← hfirst]
    rw [heq'] at h
    obtain ⟨s₁, hrun, hrest⟩ := run_append_eq_some h
    obtain ⟨s₂, hlast, -⟩ := Option.bind_eq_some_iff.1 hrest
    have hreported : reports s₁ s₂ :=
      (hreports _ tick s₁ s₂ htick hrun hlast).2 (quiet_unused_iff.2 ⟨t₁, by simp, ht₁⟩)
    exact not_quiet_of_use huse (hdisjoint a huse) hm
      ((hobeys _ tick rest' s₁ s₂ heq' htick hrun hlast).1 hreported)
  · intro hnone before tick rest s₁ s₂ heq htick hrun hlast
    rw [hreports before tick s₁ s₂ htick hrun hlast]
    constructor
    · rintro ⟨b, t₁, after, rfl, ht₁, hafter⟩
      exact ⟨b, t₁, after, rfl, ht₁, fun a ha => ⟨(hafter a ha).1,
        hnone b t₁ after tick rest (by rw [heq]; simp) ht₁ htick a ha⟩⟩
    · rintro ⟨b, t₁, after, rfl, ht₁, hafter⟩
      exact ⟨b, t₁, after, rfl, ht₁, fun a ha => ⟨(hafter a ha).1, rfl⟩⟩

end Watchdog
