import Sentinel.Scheduler.BusScheduler

/-!
# The instants a task is published for

* `sync_parsed` — every task object has the schedule of the item it carries, also after it has
  left the list.
* `created_of_read` — every object of a run was created by one of its `Sync` calls, which read the
  clock for it.
* `published_instants` — an object is published for the time it was created at, and after that for
  matching minutes of its item's crontab only.
-/

set_option autoImplicit false

namespace Sentinel

open Throwing

/-! ## Objects and the items they carry -/

section Parsed

variable {T : Type} [IScheduledTaskItem T]

/-- Every task object has the schedule of the item it carries. -/
def Parsed (comparer : CompareInfo) (h : Heap (ScheduledTask T)) : Prop :=
  ∀ r t, h.read r = some t →
    CrontabSchedule.parse comparer (IScheduledTaskItem.schedule t.task) = .ok t.schedule

variable {comparer : CompareInfo} {h : Heap (ScheduledTask T)} {t : ScheduledTask T} {r : Ref}

theorem Parsed.alloc (hp : Parsed comparer h)
    (ht : CrontabSchedule.parse comparer (IScheduledTaskItem.schedule t.task) = .ok t.schedule) :
    Parsed comparer (h.alloc t) := by
  intro r' u hu
  have hlt := Heap.lt_next_of_read hu
  rw [Heap.next_alloc] at hlt
  rcases Nat.lt_succ_iff_lt_or_eq.1 hlt with hold | rfl
  · rw [Heap.read_alloc_of_lt hold] at hu
    exact hp r' u hu
  · rw [Heap.read_alloc_next] at hu
    cases hu
    exact ht

theorem Parsed.write (hp : Parsed comparer h)
    (ht : CrontabSchedule.parse comparer (IScheduledTaskItem.schedule t.task) = .ok t.schedule) :
    Parsed comparer (h.write r t) := by
  intro r' u hu
  rw [Heap.read_write] at hu
  split at hu
  · rename_i hr
    subst hr
    obtain ⟨v, -, rfl⟩ := Option.map_eq_some_iff.1 hu
    exact ht
  · exact hp r' u hu

end Parsed

namespace SchedulerRepository

variable {T : Type} [IScheduledTaskItem T] {comparer : CompareInfo} {clock : Clock}
  {keyOf : String → String} {items : List T} {s₀ s s' : SchedulerRepository T}

theorem add_parsed (item : T) :
    Respects (fun s s' : SchedulerRepository T =>
      Parsed comparer s.heap → Parsed comparer s'.heap) (add comparer clock item) := by
  intro s hs
  have hadd := add_spec comparer clock item s
  cases hr : add comparer clock item s with
  | ok u s' =>
    rw [hr] at hadd
    obtain ⟨t, hfresh, rfl⟩ := hadd
    exact hs.alloc (hfresh.task.symm ▸ hfresh.schedule)
  | error e s' =>
    rw [hr] at hadd
    obtain ⟨-, rfl | ⟨t, hfresh, rfl⟩⟩ := hadd
    · exact hs
    · exact hs.alloc (hfresh.task.symm ▸ hfresh.schedule)

theorem UpdatedAt.parsed {item : T} {t : ScheduledTask T} {r : Ref} {i : ℕ}
    (hs : Parsed comparer s.heap) (ht : s.heap.read r = some t)
    (hi : s.scheduledTasks[i]? = some r) (hu : UpdatedAt comparer clock i item t s s') :
    Parsed comparer s'.heap := by
  rcases hu with ⟨-, t', hfresh, rfl⟩ | ⟨hsame, rfl⟩
  · exact hs.alloc (hfresh.task.symm ▸ hfresh.schedule)
  · have hset : s.tick.setTaskAt i item =
        { s.tick with heap := s.heap.write r { t with task := item } } := by
      unfold setTaskAt
      simp only [tick, hi, ht]
    rw [hset]
    refine Parsed.write (t := { t with task := item }) hs ?_
    rw [← hs r t ht, ← hsame]

/-- The updates give a task an item with its own schedule text, or make a new task of it. -/
theorem update_loop_parsed (hs₀ : Consistent comparer keyOf s₀) (hitems : ItemsOk keyOf items)
    (hs : Progress comparer clock items s₀ (s₀.itemsToAdd items) [] true s)
    (hparsed : Parsed comparer s.heap) :
    Ends (fun _ s' => Parsed comparer s'.heap) (fun _ s' => Parsed comparer s'.heap)
      ((s₀.itemsToUpdate items).forM (update comparer clock) s) := by
  refine Ends.mono (Triple.forM (E := fun _ s => Parsed comparer s.heap)
    (fun done s => Progress comparer clock items s₀ (s₀.itemsToAdd items) done true s ∧
      Parsed comparer s.heap) ?_ s ⟨hs, hparsed⟩) (fun _ _ h => h.2) fun _ _ h => h
  · rintro done p rest hupdate s ⟨hs, hparsed⟩
    have hd := hs.distinct_of_items hs₀.toDistinct hitems (List.Sublist.refl _)
    obtain ⟨r, hr₀, t, ht₀, huid, hr, ht, hknown⟩ := hs.before_update hs₀ hitems hupdate
    obtain ⟨i, hidx, hi⟩ := idxOf?_of_mem hr
    refine (update_spec hd hr ht huid hidx hknown (hparsed r t ht)).mono ?_ ?_
    · intro _ s' hu
      exact ⟨hs.renew hs₀.toDistinct hr₀ ht₀ huid ht (hu.renews hd hr ht huid hi),
        hu.parsed hparsed ht hi⟩
    · rintro _ s' ⟨-, rfl | hu⟩
      · exact hparsed
      · exact hu.parsed hparsed ht hi

/-- **`Sync` keeps every object in step with its item**, in the list or not. -/
theorem sync_parsed (clock : Clock) (hs₀ : Consistent comparer keyOf s₀)
    (hitems : ItemsOk keyOf items) (hparsed : Parsed comparer s₀.heap) :
    Parsed comparer (finalState (sync comparer clock (some items) s₀)).heap := by
  have hadd := add_loop comparer clock s₀ (s₀.itemsToAdd items)
  have hheap := Respects.forM (f := add comparer clock) (fun _ h => h)
    (fun _ _ _ hab hbc h => hbc (hab h)) add_parsed (s₀.itemsToAdd items) s₀ hparsed
  simp only [sync, bind_apply, get_apply, remove_loop]
  cases hr : (s₀.itemsToAdd items).forM (add comparer clock) s₀ with
  | error e s =>
    rw [hr] at hheap
    exact hheap
  | ok u s =>
    rw [hr] at hadd hheap
    have hd := (Appended.progress hadd hs₀.toDistinct items).distinct_of_items hs₀.toDistinct hitems
      (List.Sublist.refl _)
    have hupdate := update_loop_parsed hs₀ hitems (Appended.sweep hadd hs₀.toDistinct hd) hheap
    simp only
    cases hr' : (s₀.itemsToUpdate items).forM (update comparer clock)
        { s with scheduledTasks := s.scheduledTasks.diff (s₀.itemsToRemove items) } with
    | ok _ s' =>
      rw [hr'] at hupdate
      exact hupdate
    | error _ s' =>
      rw [hr'] at hupdate
      exact hupdate

end SchedulerRepository

namespace BusScheduler

open Gregorian Successor Runs

variable {T : Type} [IScheduledTaskItem T] {comparer : CompareInfo} {clock : Clock}
  {machine : MachineZone} {keyOf : ℕ → String → String} {w w' : World T} {a : Action T} {r : Ref}

/-! ## Schedules stay -/

def SameSchedule (t t' : ScheduledTask T) : Prop := t'.schedule = t.schedule

omit [IScheduledTaskItem T] in
theorem SameSchedule.refl (t : ScheduledTask T) : SameSchedule t t := rfl

/-- No step changes the schedule of an object. -/
theorem step_evolves (hstep : step comparer clock machine w a = some w') :
    w.heap.Evolves SameSchedule w'.heap := by
  rcases step_cases hstep with ⟨i, items, s, rfl, hs, rfl⟩ | ⟨-, hheap, -⟩ | ⟨r, t, ht, -, hheap, -⟩
  · obtain ⟨-, hheap, -⟩ := World.repository_eq hs
    intro r t ht
    obtain ⟨t', ht', hsame⟩ :=
      (SchedulerRepository.sync_carries comparer clock items s).kept r t (hheap ▸ ht)
    exact ⟨t', ht', hsame.schedule⟩
  · rw [hheap]
    exact Heap.Evolves.refl SameSchedule.refl _
  · rw [hheap]
    exact Heap.Evolves.write SameSchedule.refl ht t.increment_keeps.2.1

/-- Only a `Sync` creates objects, each at a time it has read. -/
theorem step_creates {t : ScheduledTask T} (hstep : step comparer clock machine w a = some w')
    (hnone : w.heap.read r = none) (hnew : w'.heap.read r = some t) :
    ∃ i items, a = .sync i items ∧
      ∃ k, w.clockReads ≤ k ∧ k < w'.clockReads ∧ t.nextRunTime = clock.reading k := by
  rcases step_cases hstep with ⟨i, items, s, rfl, hs, rfl⟩ | ⟨-, hheap, -⟩ |
    ⟨r', t', ht', -, hheap, -⟩
  · obtain ⟨-, hheap, hreads⟩ := World.repository_eq hs
    obtain ⟨-, k, hk, hk', hnext⟩ :=
      (SchedulerRepository.sync_carries comparer clock items s).fresh r t (hheap ▸ hnone) hnew
    exact ⟨i, items, rfl, k, hreads ▸ hk, hk', hnext⟩
  · rw [hheap, hnone] at hnew
    cases hnew
  · rw [hheap, Heap.read_write, hnone] at hnew
    split at hnew <;> cases hnew

/-! ## Messages and the items they carry -/

/-- Every object, and every message with the object it belongs to, has the schedule of its item. -/
structure Faithful (comparer : CompareInfo) (w : World T) : Prop where
  parsed : Parsed comparer w.heap
  published : ∀ m ∈ w.published, ∃ t, w.heap.read m.task = some t ∧
    CrontabSchedule.parse comparer (IScheduledTaskItem.schedule m.item) = .ok t.schedule

/-- Messages stay in step with their objects. -/
theorem Faithful.of_step (h : Faithful comparer w) (hparsed : Parsed comparer w'.heap)
    (hstep : BusScheduler.step comparer clock machine w a = some w')
    (hpub : ∀ m ∈ w'.published, m ∈ w.published ∨ ∃ t, w'.heap.read m.task = some t ∧
      CrontabSchedule.parse comparer (IScheduledTaskItem.schedule m.item) = .ok t.schedule) :
    Faithful comparer w' := by
  refine ⟨hparsed, fun m hm => ?_⟩
  rcases hpub m hm with hold | hnew
  · obtain ⟨t, ht, hitem⟩ := h.published m hold
    obtain ⟨t', ht', hschedule⟩ := step_evolves hstep m.task t ht
    refine ⟨t', ht', ?_⟩
    rw [hschedule]
    exact hitem
  · exact hnew

theorem Faithful.step (h : Faithful comparer w) (hw : Consistent comparer keyOf w)
    (ha : a.Ok keyOf) (hstep : BusScheduler.step comparer clock machine w a = some w') :
    Faithful comparer w' := by
  rcases step_cases hstep with ⟨i, items, s, rfl, hs, rfl⟩ | ⟨-, hheap, hpub⟩ |
    ⟨r, t, ht, -, hheap, hpub⟩
  · obtain ⟨-, hheap, -⟩ := World.repository_eq hs
    have hparsed : Parsed comparer s.heap := hheap ▸ h.parsed
    refine h.of_step ?_ hstep fun m hm => Or.inl hm
    cases items with
    | none => exact hparsed
    | some items => exact SchedulerRepository.sync_parsed clock (hw.each i s hs) ha hparsed
  · exact h.of_step (hheap ▸ h.parsed) hstep fun m hm => Or.inl (hpub ▸ hm)
  · obtain ⟨-, hschedule, htask⟩ := t.increment_keeps
    have hitem : CrontabSchedule.parse comparer
        (IScheduledTaskItem.schedule (finalState t.increment).task) =
          .ok (finalState t.increment).schedule := by
      rw [hschedule, htask]
      exact h.parsed r t ht
    refine h.of_step (hheap ▸ h.parsed.write hitem) hstep fun m hm => ?_
    rcases hpub with ⟨t', hinc, hpub⟩ | ⟨e, t', hinc, hpub⟩
    · rw [hinc] at hitem
      rw [hpub, List.mem_append, List.mem_singleton] at hm
      rcases hm with hm | rfl
      · exact Or.inl hm
      · refine Or.inr ⟨t', ?_, hitem⟩
        rw [hheap, hinc, Heap.read_write, if_pos rfl, ht]
        rfl
    · exact Or.inl (hpub ▸ hm)

theorem Faithful.run {as : List (Action T)} (h : Faithful comparer w)
    (hw : Consistent comparer keyOf w) (hok : ∀ a ∈ as, a.Ok keyOf)
    (hrun : Runs.run (BusScheduler.step comparer clock machine) as w = some w') :
    Faithful comparer w' := by
  have hboth : Consistent comparer keyOf w' ∧ Faithful comparer w' := by
    refine run_invariant (fun w => Consistent comparer keyOf w ∧ Faithful comparer w)
      (Action.Ok keyOf) ?_ ⟨hw, h⟩ hok hrun
    rintro w₁ a w₂ ⟨hw, h⟩ hok hstep
    exact ⟨hw.step hok hstep, h.step hw hok hstep⟩
  exact hboth.2

/-! ## Where the objects come from -/

/-- The object was created, with this schedule, by a `Sync` of the run that read this time. -/
def CreatedAt (comparer : CompareInfo) (clock : Clock) (machine : MachineZone) (n : ℕ)
    (as : List (Action T)) (r : Ref) (schedule : CrontabSchedule) (r₀ : DateTime) : Prop :=
  ∃ before i items after w₀ w₁ t, as = before ++ .sync i items :: after ∧
    run (step comparer clock machine) before (.start n) = some w₀ ∧
    step comparer clock machine w₀ (.sync i items) = some w₁ ∧
    w₀.heap.read r = none ∧ w₁.heap.read r = some t ∧ t.schedule = schedule ∧
    t.nextRunTime = r₀ ∧ ∃ k, w₀.clockReads ≤ k ∧ k < w₁.clockReads ∧ r₀ = clock.reading k

/-- **Every object of a run was created by one of its `Sync` calls**, with the schedule it has. -/
theorem created_of_read {n : ℕ} {as : List (Action T)} {t : ScheduledTask T}
    (hrun : run (step comparer clock machine) as (.start n) = some w)
    (hread : w.heap.read r = some t) :
    ∃ r₀, CreatedAt comparer clock machine n as r t.schedule r₀ := by
  refine run_induction (motive := fun as w => ∀ t, w.heap.read r = some t →
    ∃ r₀, CreatedAt comparer clock machine n as r t.schedule r₀) ?_ ?_ hrun t hread
  · rintro t ⟨⟩
  · intro as w₀ a w₁ hbefore ih hstep t hread
    cases hnone : w₀.heap.read r with
    | some t₀ =>
      -- an old object, with the schedule it had
      obtain ⟨t', ht', hschedule⟩ := step_evolves hstep r t₀ hnone
      obtain rfl : t = t' := Option.some.inj (hread.symm.trans ht')
      obtain ⟨r₀, before, i, items, after, v₀, v₁, u, rfl, hcreated⟩ := ih t₀ hnone
      rw [← hschedule] at hcreated
      exact ⟨r₀, before, i, items, after ++ [a], v₀, v₁, u, by simp, hcreated⟩
    | none =>
      obtain ⟨i, items, rfl, k, hk, hk', hnext⟩ := step_creates hstep hnone hread
      exact ⟨t.nextRunTime, as, i, items, [], w₀, w₁, t, rfl, hbefore, hstep, hnone, hread, rfl,
        rfl, k, hk, hk', hnext⟩

/-- The run times of an object, from where it was created. -/
theorem CreatedAt.runTimes {n : ℕ} {as : List (Action T)} {schedule : CrontabSchedule}
    {r₀ : DateTime} (h : CreatedAt comparer clock machine n as r schedule r₀)
    (hrun : run (step comparer clock machine) as (.start n) = some w) :
    w.runTimes r = [] ∨ ∃ os, w.runTimes r = r₀ :: os ∧
      ∀ o ∈ os, schedule.Occurs o.moment ∧ r₀.moment < o.moment := by
  obtain ⟨before, i, items, after, w₀, w₁, t, rfl, hbefore, hsync, hnone, hnew, rfl, rfl, -⟩ := h
  have hstart : Sound (World.start n : World T) := fun m hm => by cases hm
  have htracked := (tracked_of_new (hstart.run hbefore) hsync hnone hnew).2
  obtain ⟨v, hv, hafter⟩ := run_append_eq_some hrun
  cases hv.symm.trans hbefore
  rw [run, hsync] at hafter
  obtain ⟨_, -, -, ⟨hempty, -⟩ | ⟨os, hos, hseg, -⟩⟩ := htracked.run hafter
  · exact Or.inl hempty
  · exact Or.inr ⟨os, hos, fun o ho => hseg.member _ (List.mem_map_of_mem ho)⟩

/-- **A task is published for the time its object was created at, first of all, and from then on
for matching minutes of its schedule after that time only**; the schedule is the one of the
published item. -/
theorem published_instants {n : ℕ} {as : List (Action T)} {m : Message T}
    (hrun : run (step comparer clock machine) as (.start n) = some w) (hm : m ∈ w.published) :
    ∃ schedule r₀ os, CreatedAt comparer clock machine n as m.task schedule r₀ ∧
      w.runTimes m.task = r₀ :: os ∧ m.runTime ∈ r₀ :: os ∧
      (∀ o ∈ os, schedule.Occurs o.moment ∧ r₀.moment < o.moment) ∧
      ∀ keyOf, (∀ a ∈ as, a.Ok keyOf) →
        CrontabSchedule.parse comparer (IScheduledTaskItem.schedule m.item) = .ok schedule := by
  have hsound : Sound (World.start n : World T) := fun m hm => by cases hm
  obtain ⟨t, ht⟩ := hsound.run hrun m hm
  obtain ⟨r₀, hcreated⟩ := created_of_read hrun ht
  have hmem : m.runTime ∈ w.runTimes m.task :=
    List.mem_map_of_mem (List.mem_filter.2 ⟨hm, decide_eq_true rfl⟩)
  rcases hcreated.runTimes hrun with hnil | ⟨os, hos, hall⟩
  · rw [hnil] at hmem
    cases hmem
  · refine ⟨t.schedule, r₀, os, hcreated, hos, hos ▸ hmem, hall, fun keyOf hok => ?_⟩
    have hstart : Faithful comparer (World.start n : World T) :=
      ⟨fun r t ht => (by cases ht), fun m hm => (by cases hm)⟩
    obtain ⟨t', ht', hitem⟩ := (hstart.run (consistent_start n) hok hrun).published m hm
    obtain rfl : t = t' := Option.some.inj (ht.symm.trans ht')
    exact hitem

open SchedulerRepository (hourlyCheck newYear)

/-- The hourly check is published for the time it was created at and for matching minutes. -/
theorem published_instants_threeTicks : ∃ (w : World HealthCheckResourceV1)
    (m : Message HealthCheckResourceV1) (schedule : _) (r₀ : _) (os : _),
    run (step .ascii newYear ⟨fun _ => 0⟩) (.sync 0 (some [hourlyCheck]) :: threeTicks)
      (.start 1) = some w ∧
    CrontabSchedule.parse .ascii m.item.schedule = .ok schedule ∧
    w.runTimes m.task = r₀ :: os ∧ m.runTime ∈ r₀ :: os ∧
    ∀ o ∈ os, schedule.Occurs o.moment ∧ r₀.moment < o.moment := by
  obtain ⟨w, hw, hlength⟩ := (Option.any_eq_true ..).1
    (show (run (step .ascii newYear ⟨fun _ => 0⟩) (.sync 0 (some [hourlyCheck]) :: threeTicks)
      (.start 1)).any (fun w => decide (0 < w.published.length)) = true by decide +kernel)
  obtain ⟨m, hm⟩ := List.exists_mem_of_length_pos (of_decide_eq_true hlength)
  have hitems : SchedulerRepository.ItemsOk SchedulerRepository.checkKey [hourlyCheck] :=
    ⟨by decide, by decide, by decide⟩
  have hok : ∀ a ∈ .sync 0 (some [hourlyCheck]) :: threeTicks,
      a.Ok fun _ => SchedulerRepository.checkKey := by
    simp [threeTicks, oneTask, Action.Ok, hitems]
  obtain ⟨schedule, r₀, os, -, hruns, hmem, hall, hparse⟩ := published_instants hw hm
  exact ⟨w, m, schedule, r₀, os, hw, hparse _ hok, hruns, hmem, hall⟩

/-! ## A monthly check -/

/-- Midnight on the first day of every month. -/
def monthlyCheck : HealthCheckResourceV1 := ⟨"uid", "name", "namespace", some "0 0 1 * *"⟩

def midJanuary : DateTime := .utcTime 2022 1 15 10 20

/-- The check is created, and a tick follows a minute later. -/
def firstMinute : List (Action HealthCheckResourceV1) :=
  [.sync 0 (some [monthlyCheck]), .construct, .execute (.utcTime 2022 1 15 10 21) ⟨fun _ => 0⟩,
    .next]

/-- The monthly check is published for the minute in which it was created. -/
theorem published_midJanuary : ∃ (w : World HealthCheckResourceV1)
    (m : Message HealthCheckResourceV1) (schedule : _),
    run (step .ascii (stoppedClock midJanuary.moment) ⟨fun _ => 0⟩) firstMinute (.start 1) =
      some w ∧ m ∈ w.published ∧ m.item.schedule = some "0 0 1 * *" ∧
      CrontabSchedule.parse .ascii (some "0 0 1 * *") = .ok schedule ∧
      m.runTime.moment.day = 15 ∧ ¬ schedule.Occurs m.runTime.moment := by
  obtain ⟨w, hw, hpub⟩ := (Option.any_eq_true ..).1
    (show (run (step .ascii (stoppedClock midJanuary.moment) ⟨fun _ => 0⟩) firstMinute
        (.start 1)).any (fun w => w.published.any fun m =>
          decide (m.item.schedule = some "0 0 1 * *" ∧ m.runTime.moment.day = 15)) = true by
      decide +kernel)
  obtain ⟨m, hm, hmessage⟩ := List.any_eq_true.1 hpub
  obtain ⟨hitem, hday⟩ := of_decide_eq_true hmessage
  obtain ⟨schedule, hparse, hnone⟩ := exists_of_okAnd
    (show okAnd (CrontabSchedule.parse .ascii (some "0 0 1 * *"))
      (fun s => decide (s.days.contains 15 = .ok false)) = true by decide +kernel)
  refine ⟨w, m, schedule, hw, hm, hitem, hparse, hday, fun hoccurs => ?_⟩
  have hcontains : schedule.days.contains m.runTime.moment.day = .ok true := hoccurs.day
  rw [hday] at hcontains
  cases hcontains.symm.trans (of_decide_eq_true hnone)

end BusScheduler

end Sentinel
