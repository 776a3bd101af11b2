import Sentinel.Scheduler.BusScheduler

/-!
# A late task catches up

A tick publishes a task once, however many of its run times have passed.

* `step_inv` — what a step does, with the state of the job.
* `KeepsUp.step` — a tick that comes to its end has published a task that was late when it began.
* `catches_up` — after any number of such ticks the task has been published as many times, or for
  everything that was due.
-/

set_option autoImplicit false

namespace Sentinel.BusScheduler

open Gregorian Successor Throwing Runs

variable {T : Type} [IScheduledTaskItem T] {comparer : CompareInfo} {clock : Clock}
  {machine : MachineZone} {w w' : World T} {a : Action T} {r : Ref}

/-! ## One step -/

/-- The task should run. -/
def due (machine : MachineZone) (w : World T) (referenceTime : DateTime) (timeZone : TimeZoneInfo)
    (r : Ref) : Bool :=
  match w.heap.read r with
  | some t => t.shouldRun machine referenceTime timeZone
  | none => false

theorem step_inv (h : step comparer clock machine w a = some w') :
    (∃ i items s, a = .sync i items ∧ w.repository i = some s ∧
      w' = w.setRepository i (finalState (SchedulerRepository.sync comparer clock items s))) ∨
    (a = .construct ∧ w.tick = .idle ∧
      w' = { w with tick := .constructed w.repositories.flatten }) ∨
    (∃ referenceTime timeZone tasks, a = .execute referenceTime timeZone ∧
      w.tick = .constructed tasks ∧
      w' = { w with tick := .running (tasks.filter (due machine w referenceTime timeZone)) }) ∨
    (a = .next ∧ w.tick = .running [] ∧ w' = { w with tick := .idle }) ∨
    ∃ r rest t, a = .next ∧ w.tick = .running (r :: rest) ∧ w.heap.read r = some t ∧
      ((∃ t', t.increment = .ok () t' ∧ w' = { w with
          heap := w.heap.write r t'
          tick := .running rest
          published := w.published ++ [⟨r, t'.task, t'.lastRunTime⟩] }) ∨
        ∃ e t', t.increment = .error e t' ∧
          w' = { w with heap := w.heap.write r t', tick := .idle }) := by
  cases a with
  | sync i items =>
    simp only [step] at h
    split at h
    · cases h
    · rename_i s hs
      cases h
      exact Or.inl ⟨i, items, s, rfl, hs, rfl⟩
  | construct =>
    simp only [step] at h
    split at h
    · rename_i htick
      cases h
      exact Or.inr (Or.inl ⟨rfl, htick, rfl⟩)
    · cases h
  | execute referenceTime timeZone =>
    simp only [step] at h
    split at h
    · rename_i tasks htick
      cases h
      exact Or.inr (Or.inr (Or.inl ⟨referenceTime, timeZone, tasks, rfl, htick, rfl⟩))
    · cases h
  | next =>
    simp only [step] at h
    split at h
    · rename_i htick
      cases h
      exact Or.inr (Or.inr (Or.inr (Or.inl ⟨rfl, htick, rfl⟩)))
    · rename_i r rest htick
      split at h
      · cases h
      · rename_i t ht
        refine Or.inr (Or.inr (Or.inr (Or.inr ⟨r, rest, t, rfl, htick, ht, ?_⟩)))
        split at h
        · rename_i t' hinc
          cases h
          exact Or.inl ⟨t', hinc, rfl⟩
        · rename_i e t' hinc
          cases h
          exact Or.inr ⟨e, t', hinc, rfl⟩
    · cases h

/-- What a step does to one object: nothing but a change of its item, or an `Increment`, and only
one that returns is followed by a publication. -/
theorem step_object {t : ScheduledTask T} (h : step comparer clock machine w a = some w')
    (ht : w.heap.read r = some t) : ∃ t', w'.heap.read r = some t' ∧
      ((SchedulerRepository.SameRun t t' ∧ w'.runTimes r = w.runTimes r) ∨
        (t.increment = .ok () t' ∧ w'.runTimes r = w.runTimes r ++ [t.nextRunTime]) ∨
        ∃ e, t.increment = .error e t' ∧ w'.runTimes r = w.runTimes r) := by
  have hsame := SchedulerRepository.SameRun.refl t
  rcases step_inv h with ⟨i, items, s, rfl, hs, rfl⟩ | ⟨rfl, -, rfl⟩ |
    ⟨now, zone, tasks, rfl, -, rfl⟩ | ⟨rfl, -, rfl⟩ | ⟨r', rest, u, rfl, -, hu, hcase⟩
  · obtain ⟨-, hheap, -⟩ := World.repository_eq hs
    obtain ⟨t', ht', hkept⟩ :=
      (SchedulerRepository.sync_carries comparer clock items s).kept r t (hheap ▸ ht)
    exact ⟨t', ht', Or.inl ⟨hkept, rfl⟩⟩
  · exact ⟨t, ht, Or.inl ⟨hsame, rfl⟩⟩
  · exact ⟨t, ht, Or.inl ⟨hsame, rfl⟩⟩
  · exact ⟨t, ht, Or.inl ⟨hsame, rfl⟩⟩
  · by_cases hr : r' = r
    · subst hr
      obtain rfl : t = u := Option.some.inj (ht.symm.trans hu)
      rcases hcase with ⟨t', hinc, rfl⟩ | ⟨e, t', hinc, rfl⟩
      · refine ⟨t', by simp [Heap.read_write, ht], Or.inr (Or.inl ⟨hinc, ?_⟩)⟩
        have hlast : t'.lastRunTime = t.nextRunTime := by
          rw [ScheduledTask.increment_spec] at hinc
          split at hinc
          · cases hinc
            rfl
          · cases hinc
        simp [World.runTimes, hlast]
      · exact ⟨t', by simp [Heap.read_write, ht], Or.inr (Or.inr ⟨e, hinc, rfl⟩)⟩
    · rcases hcase with ⟨t', hinc, rfl⟩ | ⟨e, t', hinc, rfl⟩
      · refine ⟨t, by simp [Heap.read_write, hr, ht], Or.inl ⟨hsame, ?_⟩⟩
        simp [World.runTimes, hr]
      · exact ⟨t, by simp [Heap.read_write, hr, ht], Or.inl ⟨hsame, rfl⟩⟩

/-! ## Watched runs -/

/-- A world, whether its tick counts, and how many ticks that count have come to their end. -/
structure Watched (T : Type) where
  world : World T
  counts : Bool
  completed : ℕ

/-- A tick counts if its constructor ran while we watched and its reference time is late enough. -/
def countsAfter (bound : ℤ) (counts : Bool) : Action T → Bool
  | .construct => true
  | .execute referenceTime _ => counts && decide (bound < referenceTime.moment.ticks)
  | _ => counts

/-- The publishing loop has come to its end. -/
def endsTick (tick : Tick) : Action T → Bool
  | .next =>
    match tick with
    | .running [] => true
    | _ => false
  | _ => false

variable (comparer clock machine) in
def watchedStep (bound : ℤ) (x : Watched T) (a : Action T) : Option (Watched T) :=
  match step comparer clock machine x.world a with
  | none => none
  | some w => some ⟨w, countsAfter bound x.counts a,
      if x.counts && endsTick x.world.tick a then x.completed + 1 else x.completed⟩

/-! ## The object of the task -/

/-- Up to the current time the zone is never set back by more than `setBack` ticks. -/
def Action.SetBackBy (machine : MachineZone) (setBack : ℕ) : Action T → Prop
  | .execute referenceTime timeZone => referenceTime.kind = .utc ∧
      ∀ a b, DateTime.minValue.utcTicks machine ≤ a → a + setBack < b →
        b ≤ referenceTime.moment.ticks → timeZone.fromUtc a < timeZone.fromUtc b
  | _ => True

/-- The times for which a task is to be published: its reference time, and its occurrences. -/
def RunTime (s : CrontabSchedule) (r₀ o : Moment) : Prop := o = r₀ ∨ s.Occurs o ∧ r₀ < o

/-- The run times are so far apart that no change of the clock lets two of them read alike. -/
structure Apart (machine : MachineZone) (setBack : ℕ) (s : CrontabSchedule) (r₀ : Moment) :
    Prop where
  first : DateTime.minValue.utcTicks machine + setBack < r₀.ticks
  next : ∀ b o, RunTime s r₀ b → RunTime s r₀ o → b < o → b.ticks + setBack < o.ticks

/-- The last run time is well before the next one. -/
structure Spaced (machine : MachineZone) (setBack : ℕ) (t : ScheduledTask T) : Prop where
  kind : t.nextRunTime.kind = .utc
  start : DateTime.minValue.utcTicks machine ≤ t.lastRunTime.utcTicks machine
  apart : t.lastRunTime.utcTicks machine + setBack < t.nextRunTime.moment.ticks

variable {setBack : ℕ} {instant r₀ : Moment} {s : CrontabSchedule} {t t' : ScheduledTask T}

omit [IScheduledTaskItem T] in
/-- A task that is due should run. -/
theorem Spaced.shouldRun (h : Spaced machine setBack t) {referenceTime : DateTime}
    {timeZone : TimeZoneInfo}
    (hzone : (Action.execute referenceTime timeZone : Action T).SetBackBy machine setBack)
    (hnext : t.nextRunTime.moment < instant)
    (hlate : instant.ticks + setBack < referenceTime.moment.ticks) :
    t.shouldRun machine referenceTime timeZone = true := by
  obtain ⟨hkind, hforward⟩ := hzone
  have hstart := h.start
  have hapart := h.apart
  have hnext := Moment.lt_def.1 hnext
  have hticks : t.nextRunTime.utcTicks machine = t.nextRunTime.moment.ticks := by
    simp [DateTime.utcTicks, h.kind]
  have hnow : referenceTime.utcTicks machine = referenceTime.moment.ticks := by
    simp [DateTime.utcTicks, hkind]
  rw [ScheduledTask.shouldRun_iff, hticks, hnow]
  constructor
  · apply hforward <;> omega
  · apply ne_of_lt
    apply hforward <;> omega

omit [IScheduledTaskItem T] in
theorem Spaced.of_increment (h : Spaced machine setBack t)
    (hapart : ∀ o, t.schedule.Occurs o → t.nextRunTime.moment < o →
      t.nextRunTime.moment.ticks + setBack < o.ticks)
    (hinc : t.increment = .ok () t') : Spaced machine setBack t' := by
  rw [ScheduledTask.increment_spec] at hinc
  split at hinc
  · rename_i next hnext
    cases hinc
    obtain ⟨⟨⟨hoccurs, hlt⟩, -⟩, hkind⟩ := CrontabSchedule.getNextOccurrenceFrom_spec hnext
    have hticks : t.nextRunTime.utcTicks machine = t.nextRunTime.moment.ticks := by
      simp [DateTime.utcTicks, h.kind]
    have hstart := h.start
    have hlast := h.apart
    refine ⟨hkind.trans h.kind, ?_, ?_⟩
    · show _ ≤ t.nextRunTime.utcTicks machine
      omega
    · show t.nextRunTime.utcTicks machine + _ < _
      rw [hticks]
      exact hapart _ hoccurs hlt
  · cases hinc

/-! ## Keeping up -/

/-- The current tick has the task still before it, or has published it. -/
def InTick (r : Ref) (x : Watched T) : Prop :=
  match x.world.tick with
  | .idle => True
  | .constructed tasks => r ∈ tasks
  | .running tasks => r ∈ tasks ∨ x.completed < (x.world.runTimes r).length

/-- The task has been published as often as ticks that count have come to their end. -/
structure KeepsUp (r : Ref) (x : Watched T) : Prop where
  completed : x.completed ≤ (x.world.runTimes r).length
  inTick : x.counts = true → InTick r x

variable {x x' : Watched T} {i : ℕ} {uid : String} {text : Option String}

theorem watchedStep_inv {bound : ℤ}
    (h : watchedStep comparer clock machine bound x a = some x') :
    step comparer clock machine x.world a = some x'.world ∧
      x'.counts = countsAfter bound x.counts a ∧
      x'.completed = if x.counts && endsTick x.world.tick a then x.completed + 1
        else x.completed := by
  unfold watchedStep at h
  split at h
  · cases h
  · rename_i w hstep
    cases h
    exact ⟨hstep, rfl, rfl⟩

omit [IScheduledTaskItem T] in
theorem length_runTimes {m : Message T} (h : w'.published = w.published ++ [m]) :
    (w'.runTimes r).length = (w.runTimes r).length + if m.task = r then 1 else 0 := by
  by_cases hr : m.task = r
  · simp [World.runTimes, h, hr]
  · simp [World.runTimes, h, hr]

omit [IScheduledTaskItem T] in
/-- A tick that is late enough runs a task of its list. -/
theorem Spaced.mem_due (h : Spaced machine setBack t) (hread : w.heap.read r = some t)
    (hnext : t.nextRunTime.moment < instant) {referenceTime : DateTime} {timeZone : TimeZoneInfo}
    (hzone : (Action.execute referenceTime timeZone : Action T).SetBackBy machine setBack)
    (hlate : instant.ticks + setBack < referenceTime.moment.ticks) {tasks : List Ref}
    (hmem : r ∈ tasks) : r ∈ tasks.filter (due machine w referenceTime timeZone) := by
  refine List.mem_filter.2 ⟨hmem, ?_⟩
  unfold due
  simp only [hread]
  exact h.shouldRun hzone hnext hlate

omit [IScheduledTaskItem T] in
/-- A publication takes the first task off the list of the tick, and counts for it. -/
theorem KeepsUp.published {counts : Bool} {n : ℕ} (h : KeepsUp r ⟨w, counts, n⟩) {m : Message T}
    {rest : List Ref} (hrunning : w.tick = .running (m.task :: rest))
    (hrest : w'.tick = .running rest) (hpublished : w'.published = w.published ++ [m]) :
    KeepsUp r ⟨w', counts, n⟩ := by
  obtain ⟨hle, htick⟩ := h
  have hgrows := length_runTimes (r := r) hpublished
  simp only at hle
  refine ⟨?_, fun hcounts => ?_⟩
  · show n ≤ (w'.runTimes r).length
    omega
  · have hin := htick hcounts
    unfold InTick at hin ⊢
    simp only [hrunning, List.mem_cons] at hin
    simp only [hrest]
    show r ∈ rest ∨ n < (w'.runTimes r).length
    by_cases hr : m.task = r
    · rw [if_pos hr] at hgrows
      omega
    · rw [if_neg hr] at hgrows
      rcases hin with (rfl | hmem) | hlt
      · exact absurd rfl hr
      · exact Or.inl hmem
      · omega

/-- **A tick that comes to its end has published every task that was due when it began.** -/
theorem KeepsUp.step (h : KeepsUp r x) (hholds : Holds i uid text r x.world)
    (hread : x.world.heap.read r = some t) (hspaced : Spaced machine setBack t)
    (hnext : t.nextRunTime.moment < instant) (hzone : a.SetBackBy machine setBack)
    (hstep : watchedStep comparer clock machine (instant.ticks + setBack) x a = some x') :
    KeepsUp r x' := by
  obtain ⟨hstep, hcounts, hcompleted⟩ := watchedStep_inv hstep
  obtain ⟨w, counts, n⟩ := x
  obtain ⟨w', counts', n'⟩ := x'
  obtain ⟨hle, htick⟩ := h
  simp only at hle htick hholds hread hstep hcounts hcompleted
  rcases step_inv hstep with ⟨j, items, s, rfl, hs, rfl⟩ | ⟨rfl, -, rfl⟩ |
    ⟨referenceTime, timeZone, tasks, rfl, hconstructed, rfl⟩ | ⟨rfl, hrunning, rfl⟩ |
    ⟨r', rest, u, rfl, hrunning, hu, hcase⟩
  · simp only [endsTick, Bool.and_false, Bool.false_eq_true, if_false] at hcompleted
    subst hcounts hcompleted
    exact ⟨hle, htick⟩
  · simp only [endsTick, Bool.and_false, Bool.false_eq_true, if_false] at hcompleted
    subst hcompleted
    refine ⟨hle, fun _ => ?_⟩
    obtain ⟨rs, -, hrs, hmem, -⟩ := hholds
    exact List.mem_flatten.2 ⟨rs, List.mem_of_getElem? hrs, hmem⟩
  · simp only [endsTick, Bool.and_false, Bool.false_eq_true, if_false] at hcompleted
    subst hcompleted hcounts
    refine ⟨hle, fun hlate => Or.inl ?_⟩
    obtain ⟨hcounts, hlate⟩ := Bool.and_eq_true_iff.1 hlate
    have hmem : r ∈ tasks := by
      have hin := htick hcounts
      unfold InTick at hin
      simpa only [hconstructed] using hin
    exact hspaced.mem_due hread hnext hzone (of_decide_eq_true hlate) hmem
  · simp only [hrunning, endsTick, Bool.and_true] at hcompleted
    subst hcounts
    refine ⟨?_, fun _ => trivial⟩
    show n' ≤ (w.runTimes r).length
    cases hcounts : counts' with
    | false =>
      simp only [hcounts, Bool.false_eq_true, if_false] at hcompleted
      omega
    | true =>
      have hin := htick hcounts
      unfold InTick at hin
      simp only [hrunning, List.not_mem_nil, false_or] at hin
      simp only [hcounts, if_true] at hcompleted
      omega
  · simp only [hrunning, endsTick, Bool.and_false, Bool.false_eq_true, if_false] at hcompleted
    subst hcompleted hcounts
    rcases hcase with ⟨t', hinc, hw'⟩ | ⟨e, t', hinc, rfl⟩
    · exact KeepsUp.published ⟨hle, htick⟩ hrunning (congrArg World.tick hw')
        (congrArg World.published hw')
    · exact ⟨hle, fun _ => trivial⟩

/-! ## Catching up -/

/-- The next run time is not before the instant any more. -/
def Reached (instant : Moment) (r : Ref) (w : World T) : Prop :=
  ∃ t, w.heap.read r = some t ∧ instant ≤ t.nextRunTime.moment

theorem Reached.step (h : Reached instant r w)
    (hstep : BusScheduler.step comparer clock machine w a = some w') : Reached instant r w' := by
  obtain ⟨t, ht, hreached⟩ := h
  obtain ⟨t', ht', ⟨hsame, -⟩ | ⟨hinc, -⟩ | ⟨e, hinc, -⟩⟩ := step_object hstep ht
  · exact ⟨t', ht', hsame.nextRunTime ▸ hreached⟩
  · rw [ScheduledTask.increment_spec] at hinc
    split at hinc
    · rename_i next hnext
      cases hinc
      obtain ⟨⟨⟨-, hlt⟩, -⟩, -⟩ := CrontabSchedule.getNextOccurrenceFrom_spec hnext
      exact ⟨_, ht', hreached.trans (le_of_lt hlt)⟩
    · cases hinc
  · rw [ScheduledTask.increment_spec] at hinc
    split at hinc
    · cases hinc
    · cases hinc
      exact ⟨_, ht', hreached⟩

omit [IScheduledTaskItem T] in
/-- The next run time of a tracked object is one of its run times. -/
theorem Tracked.runTime {r₀ : DateTime} (h : Tracked r s r₀ w) (ht : w.heap.read r = some t) :
    t.schedule = s ∧ RunTime s r₀.moment t.nextRunTime.moment := by
  obtain ⟨u, hu, hschedule, hcase⟩ := h
  obtain rfl : t = u := Option.some.inj (ht.symm.trans hu)
  refine ⟨hschedule, ?_⟩
  rcases hcase with ⟨-, hfirst⟩ | ⟨os, -, hseg, ⟨hin, -⟩⟩
  · exact Or.inl (by rw [hfirst])
  · exact Or.inr ⟨hin.1, hseg.lo_le_lastOr.trans_lt hin.2⟩

/-- As long as the instant has not been reached, the object is well spaced and keeps up. -/
theorem keepsUp_step {r₀ : DateTime} (htracked : Tracked r s r₀ x.world)
    (hholds : Holds i uid text r x.world) (hapart : Apart machine setBack s r₀.moment)
    (hlater : ∃ o, s.Occurs o ∧ instant ≤ o) (hread : x.world.heap.read r = some t)
    (hspaced : Spaced machine setBack t) (hkeeps : KeepsUp r x)
    (hnext : t.nextRunTime.moment < instant) (hzone : a.SetBackBy machine setBack)
    (hstep : watchedStep comparer clock machine (instant.ticks + setBack) x a = some x') :
    ∃ t', x'.world.heap.read r = some t' ∧ Spaced machine setBack t' ∧ KeepsUp r x' := by
  have hkeeps' := hkeeps.step hholds hread hspaced hnext hzone hstep
  obtain ⟨hschedule, hruntime⟩ := htracked.runTime hread
  obtain ⟨t', ht', ⟨hsame, -⟩ | ⟨hinc, -⟩ | ⟨e, hinc, -⟩⟩ :=
    step_object (watchedStep_inv hstep).1 hread
  · refine ⟨t', ht', ⟨?_, ?_, ?_⟩, hkeeps'⟩
    · rw [hsame.nextRunTime]
      exact hspaced.kind
    · rw [hsame.lastRunTime]
      exact hspaced.start
    · rw [hsame.lastRunTime, hsame.nextRunTime]
      exact hspaced.apart
  · refine ⟨t', ht', hspaced.of_increment (fun o ho hlt => ?_) hinc, hkeeps'⟩
    rw [hschedule] at ho
    have hr₀ : r₀.moment < o := by
      rcases hruntime with heq | ⟨-, hlt'⟩
      · exact heq ▸ hlt
      · exact hlt'.trans hlt
    exact hapart.next _ o hruntime (Or.inr ⟨ho, hr₀⟩) hlt
  · -- `Increment` cannot throw: an occurrence lies ahead
    obtain ⟨o, ho, hle⟩ := hlater
    obtain ⟨next, hok⟩ := CrontabSchedule.getNextOccurrenceFrom_ok_iff.2
      ⟨o, hschedule ▸ ho, hnext.trans_le hle⟩
    rw [ScheduledTask.increment_spec, hok] at hinc
    cases hinc

omit [IScheduledTaskItem T] in
/-- What has been published for an object that has reached the instant. -/
theorem Tracked.published {r₀ : DateTime} (h : Tracked r s r₀ w) (hreached : Reached instant r w)
    {o : Moment} (ho : RunTime s r₀.moment o) (hlt : o < instant) :
    o ∈ (w.runTimes r).map DateTime.moment := by
  obtain ⟨t, ht, -, hcase⟩ := h
  obtain ⟨u, hu, hle⟩ := hreached
  obtain rfl : t = u := Option.some.inj (ht.symm.trans hu)
  rcases hcase with ⟨-, hfirst⟩ | ⟨os, hos, hseg, ⟨-, hleast⟩⟩
  · rw [hfirst] at hle
    rcases ho with rfl | ⟨-, hgt⟩
    · exact absurd hlt (not_lt.2 hle)
    · exact absurd (hgt.trans hlt) (not_lt.2 hle)
  · rw [hos, List.map_cons]
    rcases ho with rfl | ⟨ho, hgt⟩
    · exact List.mem_cons_self
    · refine List.mem_cons_of_mem _ (hseg.mem_of_le_lastOr ho hgt (not_lt.1 fun hlast => ?_))
      exact absurd (hlt.trans_le hle) (not_lt.2 (hleast ⟨ho, hlast⟩))

/-- What holds while the task is watched. -/
structure Watches (comparer : CompareInfo) (machine : MachineZone) (keyOf : ℕ → String → String)
    (i : ℕ) (uid : String) (text : Option String) (r : Ref) (s : CrontabSchedule) (r₀ : DateTime)
    (setBack : ℕ) (instant : Moment) (x : Watched T) : Prop where
  consistent : Consistent comparer keyOf x.world
  holds : Holds i uid text r x.world
  tracked : Tracked r s r₀ x.world
  caught : Reached instant r x.world ∨
    ∃ t, x.world.heap.read r = some t ∧ Spaced machine setBack t ∧ KeepsUp r x

theorem Watches.step {keyOf : ℕ → String → String} {r₀ : DateTime}
    (h : Watches comparer machine keyOf i uid text r s r₀ setBack instant x)
    (hapart : Apart machine setBack s r₀.moment) (hlater : ∃ o, s.Occurs o ∧ instant ≤ o)
    (hok : a.Ok keyOf) (hkeeps : a.Keeps i uid text) (hzone : a.SetBackBy machine setBack)
    (hstep : watchedStep comparer clock machine (instant.ticks + setBack) x a = some x') :
    Watches comparer machine keyOf i uid text r s r₀ setBack instant x' := by
  obtain ⟨hworld, -⟩ := watchedStep_inv hstep
  refine ⟨h.consistent.step hok hworld, h.holds.step h.consistent hok hkeeps hworld,
    h.tracked.step hworld, ?_⟩
  rcases h.caught with hreached | ⟨t, ht, hspaced, hup⟩
  · exact Or.inl (hreached.step hworld)
  · rcases le_or_gt instant t.nextRunTime.moment with hle | hlt
    · exact Or.inl (Reached.step ⟨t, ht, hle⟩ hworld)
    · exact Or.inr (keepsUp_step h.tracked h.holds hapart hlater ht hspaced hup hlt hzone hstep)

theorem spaced_of_new {items : Option (List T)}
    (hsync : step comparer clock machine w (.sync i items) = some w')
    (hnone : w.heap.read r = none) (hnew : w'.heap.read r = some t)
    (hfirst : DateTime.minValue.utcTicks machine + setBack < t.nextRunTime.moment.ticks) :
    Spaced machine setBack t := by
  rcases step_inv hsync with ⟨j, items', s, -, hs, rfl⟩ | ⟨hsync, -⟩ | ⟨_, _, _, hsync, -⟩ |
    ⟨hsync, -⟩ | ⟨_, _, _, hsync, -⟩
  · obtain ⟨-, hheap, -⟩ := World.repository_eq hs
    obtain ⟨hlast, k, -, -, hnext⟩ :=
      (SchedulerRepository.sync_carries comparer clock items' s).fresh r t (hheap ▸ hnone) hnew
    refine ⟨hnext ▸ clock.utc k, ?_, ?_⟩
    · rw [hlast]
    · rw [hlast]
      exact hfirst
  all_goals cases hsync

/-- **A late task catches up with one run time a tick**: after any number of ticks later than an
instant that came to their end, it has been published as many times, or for everything that was due
before the instant, whatever the `Sync` calls that keep its schedule. -/
theorem catches_up {n : ℕ} {items : Option (List T)} {before after : List (Action T)}
    {w₀ w₁ : World T} {keyOf : ℕ → String → String} {x : Watched T}
    (hbefore : run (step comparer clock machine) before (.start n) = some w₀)
    (hsync : step comparer clock machine w₀ (.sync i items) = some w₁)
    (hnone : w₀.heap.read r = none) (hnew : w₁.heap.read r = some t)
    (hok : ∀ a ∈ before ++ .sync i items :: after, a.Ok keyOf)
    (hkeeps : ∀ a ∈ after, a.Keeps i uid text) (hholds : Holds i uid text r w₁)
    (hzone : ∀ a ∈ after, a.SetBackBy machine setBack)
    (hapart : Apart machine setBack t.schedule t.nextRunTime.moment)
    (hlater : ∃ o, t.schedule.Occurs o ∧ instant ≤ o)
    (hafter : run (watchedStep comparer clock machine (instant.ticks + setBack)) after
      ⟨w₁, false, 0⟩ = some x) :
    x.completed ≤ (x.world.runTimes r).length ∨
      ∀ o, RunTime t.schedule t.nextRunTime.moment o → o < instant →
        o ∈ (x.world.runTimes r).map DateTime.moment := by
  rw [List.forall_mem_append, List.forall_mem_cons] at hok
  have hsound : Sound w₀ :=
    Sound.run (fun m hm => by cases hm) hbefore
  have hstart : Watches comparer machine keyOf i uid text r t.schedule t.nextRunTime setBack
      instant ⟨w₁, false, 0⟩ :=
    ⟨((consistent_start n).run hok.1 hbefore).step hok.2.1 hsync, hholds,
      (tracked_of_new hsound hsync hnone hnew).2,
      Or.inr ⟨t, hnew, spaced_of_new hsync hnone hnew hapart.first, Nat.zero_le _, by simp⟩⟩
  have hend : Watches comparer machine keyOf i uid text r t.schedule t.nextRunTime setBack
      instant x := by
    refine run_invariant _ (fun a => a.Ok keyOf ∧ a.Keeps i uid text ∧ a.SetBackBy machine setBack)
      ?_ hstart (fun a ha => ⟨hok.2.2 a ha, hkeeps a ha, hzone a ha⟩) hafter
    rintro x₁ a x₂ h ⟨hok, hkeeps, hzone⟩ hstep
    exact h.step hapart hlater hok hkeeps hzone hstep
  rcases hend.caught with hreached | ⟨-, -, -, hup⟩
  · exact Or.inr fun o ho hlt => hend.tracked.published hreached ho hlt
  · exact Or.inl hup.completed

/-! ## An example -/

open SchedulerRepository (hourlyCheck newYear)

omit [IScheduledTaskItem T] in
/-- A zone with one offset is never set back. -/
theorem setBackBy_fixed {referenceTime : DateTime} {offset : ℤ} (hkind : referenceTime.kind = .utc)
    (hstart : 0 ≤ DateTime.minValue.utcTicks machine + offset)
    (hend : referenceTime.moment.ticks + offset ≤ maxTicks) :
    (Action.execute referenceTime ⟨fun _ => offset⟩ : Action T).SetBackBy machine 0 := by
  refine ⟨hkind, fun a b ha hab hb => ?_⟩
  show clampTicks (a + offset) < clampTicks (b + offset)
  rw [Nat.cast_zero, add_zero] at hab
  unfold clampTicks
  omega

/-- Where no clock is set back all run times are far enough apart. -/
theorem apart_zero (hfirst : DateTime.minValue.utcTicks machine < r₀.ticks) :
    Apart machine 0 s r₀ := by
  refine ⟨by simpa using hfirst, fun b o _ _ hlt => ?_⟩
  rw [Nat.cast_zero, add_zero]
  exact Moment.lt_def.1 hlt

def quarterToThree : DateTime := .utcTime 2022 1 1 2 45

/-- Two of the three ticks are late, and the check has been published three times. -/
theorem catches_up_threeTicks : ∃ (w₁ : World HealthCheckResourceV1) (x : Watched _) (t : _),
    run (watchedStep .ascii newYear ⟨fun _ => 0⟩ (quarterToThree.moment.ticks + (0 : ℕ)))
      threeTicks ⟨w₁, false, 0⟩ = some x ∧ w₁.heap.read 0 = some t ∧ x.completed = 2 ∧
    (x.completed ≤ (x.world.runTimes 0).length ∨
      ∀ o, RunTime t.schedule t.nextRunTime.moment o → o < quarterToThree.moment →
        o ∈ (x.world.runTimes 0).map DateTime.moment) := by
  obtain ⟨w₁, hsync, h⟩ := (Option.any_eq_true ..).1
    (show (step .ascii newYear ⟨fun _ => 0⟩ (.start 1) (.sync 0 (some [hourlyCheck]))).any
      (fun w₁ => w₁.repositories == [[0]] &&
        (w₁.heap.read 0).any (fun t => t.uid == "a" && t.task.schedule == some "30 * * * *" &&
          decide (DateTime.minValue.utcTicks ⟨fun _ => 0⟩ < t.nextRunTime.moment.ticks) &&
          okAnd (t.schedule.getNextOccurrenceFrom quarterToThree) fun _ => true) &&
        (run (watchedStep .ascii newYear ⟨fun _ => 0⟩ (quarterToThree.moment.ticks + (0 : ℕ)))
          threeTicks ⟨w₁, false, 0⟩).any fun x => x.completed == 2) = true by decide +kernel)
  simp only [Bool.and_eq_true, Option.any_eq_true, beq_iff_eq, decide_eq_true_eq] at h
  obtain ⟨⟨hlist, t, ht, ⟨⟨huid, htext⟩, hfirst⟩, hnext⟩, x, hx, hcompleted⟩ := h
  have hholds : Holds 0 "a" (some "30 * * * *") 0 w₁ :=
    ⟨[0], t, by rw [hlist]; rfl, by simp, ht, huid, htext⟩
  have hitems : SchedulerRepository.ItemsOk SchedulerRepository.checkKey [hourlyCheck] :=
    ⟨by decide, by decide, by decide⟩
  have hok : ∀ a ∈ [] ++ .sync 0 (some [hourlyCheck]) :: threeTicks,
      a.Ok fun _ => SchedulerRepository.checkKey := by
    simp [threeTicks, oneTask, Action.Ok, hitems]
  have hkeeps : ∀ a ∈ threeTicks, a.Keeps 0 "a" (some "30 * * * *") := by
    simp [threeTicks, oneTask, Action.Keeps, hourlyCheck, IScheduledTaskItem.uid,
      IScheduledTaskItem.schedule]
  have hearly : (Action.execute (.utcTime 2022 1 1 0 1) ⟨fun _ => 396000000000⟩ :
      Action HealthCheckResourceV1).SetBackBy ⟨fun _ => 0⟩ 0 :=
    setBackBy_fixed (by decide +kernel) (by decide +kernel) (by decide +kernel)
  have hlate : (Action.execute (.utcTime 2022 1 1 3 0) ⟨fun _ => 396000000000⟩ :
      Action HealthCheckResourceV1).SetBackBy ⟨fun _ => 0⟩ 0 :=
    setBackBy_fixed (by decide +kernel) (by decide +kernel) (by decide +kernel)
  have hzone : ∀ a ∈ threeTicks, a.SetBackBy ⟨fun _ => 0⟩ 0 := by
    simpa [threeTicks, oneTask, Action.SetBackBy] using And.intro hearly hlate
  have hlater : ∃ o, t.schedule.Occurs o ∧ quarterToThree.moment ≤ o := by
    obtain ⟨next, hnext, -⟩ := exists_of_okAnd hnext
    obtain ⟨o, ho, hlt⟩ := CrontabSchedule.getNextOccurrenceFrom_ok_iff.1 ⟨next, hnext⟩
    exact ⟨o, ho, le_of_lt hlt⟩
  have hbefore : run (step .ascii newYear ⟨fun _ => 0⟩) ([] : List (Action HealthCheckResourceV1))
      (.start 1) = some (.start 1) := rfl
  exact ⟨w₁, x, t, hx, ht, hcompleted, catches_up hbefore hsync rfl ht hok hkeeps hholds hzone
    (apart_zero hfirst) hlater hx⟩

end Sentinel.BusScheduler
