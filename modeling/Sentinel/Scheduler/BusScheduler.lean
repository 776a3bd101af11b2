import Sentinel.Scheduler.SyncFrame
import Sentinel.Lib.Runs

/-!
# `BusScheduler`

The registered repositories, one run of the job at a time, and the messages published so far.
A run takes a snapshot of all tasks, decides which of them should run, then increments and
publishes these one after the other; `Sync` calls may come in between at any point.

* `step_cases` — a step either publishes one task or leaves schedules and next run times alone.
* `Tracked.step`, `Tracked.run` — the run times published for a task object are an initial segment
  of its reference time and the occurrences after it, over one step and over a run.
* `published_in_order` — no occurrence is published twice and none is skipped.
-/

set_option autoImplicit false

namespace Sentinel.BusScheduler

open Gregorian Successor Throwing Runs

variable {T : Type}

/-! ## The model -/

/-- A published item, with the task object it belongs to and the run time set just before. -/
structure Message (T : Type) where
  task : Ref
  item : T
  runTime : DateTime

/-- Where the job is. -/
inductive Tick where
  | idle
  | constructed (scheduledTasks : List Ref)
  | running (tasksThatShouldRun : List Ref)

/-- All task objects, the lists of the registered repositories, the job and its messages. -/
structure World (T : Type) where
  heap : Heap (ScheduledTask T)
  repositories : List (List Ref)
  clockReads : ℕ
  tick : Tick
  published : List (Message T)

namespace World

def start (n : ℕ) : World T := ⟨.empty, List.replicate n [], 0, .idle, []⟩

def repository (w : World T) (i : ℕ) : Option (SchedulerRepository T) :=
  match w.repositories[i]? with
  | some scheduledTasks => some ⟨w.heap, scheduledTasks, w.clockReads⟩
  | none => none

theorem repository_eq {w : World T} {i : ℕ} {s : SchedulerRepository T}
    (h : w.repository i = some s) : w.repositories[i]? = some s.scheduledTasks ∧
      s.heap = w.heap ∧ s.clockReads = w.clockReads := by
  unfold repository at h
  split at h
  · rename_i scheduledTasks hi
    cases h
    exact ⟨hi, rfl, rfl⟩
  · cases h

def setRepository (w : World T) (i : ℕ) (s : SchedulerRepository T) : World T :=
  { w with
    heap := s.heap
    repositories := w.repositories.set i s.scheduledTasks
    clockReads := s.clockReads }

/-- The run times for which a task object has been published, in order. -/
def runTimes (w : World T) (r : Ref) : List DateTime :=
  (w.published.filter fun m => m.task = r).map Message.runTime

end World

/-- What can happen next: a `Sync` of one repository, the constructor of the job, the decision
which tasks should run, or the next round of the publishing loop. -/
inductive Action (T : Type) where
  | sync (i : ℕ) (items : Option (List T))
  | construct
  | execute (referenceTime : DateTime) (timeZone : TimeZoneInfo)
  | next

variable [IScheduledTaskItem T] (comparer : CompareInfo) (clock : Clock) (machine : MachineZone)

def step (w : World T) : Action T → Option (World T)
  | .sync i items =>
    match w.repository i with
    | none => none
    | some s =>
      some (w.setRepository i (finalState (SchedulerRepository.sync comparer clock items s)))
  | .construct =>
    match w.tick with
    | .idle => some { w with tick := .constructed w.repositories.flatten }
    | _ => none
  | .execute referenceTime timeZone =>
    match w.tick with
    | .constructed scheduledTasks =>
      some { w with tick := .running (scheduledTasks.filter fun r =>
        match w.heap.read r with
        | some t => t.shouldRun machine referenceTime timeZone
        | none => false) }
    | _ => none
  | .next =>
    match w.tick with
    | .running [] => some { w with tick := .idle }
    | .running (r :: rest) =>
      match w.heap.read r with
      | none => none
      | some t =>
        match ScheduledTask.increment t with
        | .ok _ t => some { w with
            heap := w.heap.write r t
            tick := .running rest
            published := w.published ++ [⟨r, t.task, t.lastRunTime⟩] }
        -- the exception ends the job
        | .error _ t => some { w with heap := w.heap.write r t, tick := .idle }
    | _ => none

/-! ## What a step can do -/

/-- Same schedule, same next run time. -/
def SameNext (t t' : ScheduledTask T) : Prop :=
  t'.schedule = t.schedule ∧ t'.nextRunTime = t.nextRunTime

omit [IScheduledTaskItem T] in
theorem SameNext.refl (t : ScheduledTask T) : SameNext t t := ⟨rfl, rfl⟩

variable {comparer clock machine} {w w' : World T} {a : Action T}

/-- A step syncs one repository, or keeps the lists and the objects, or increments one task and
publishes it if this returns. -/
theorem step_cases (h : step comparer clock machine w a = some w') :
    (∃ i items s, a = .sync i items ∧ w.repository i = some s ∧
      w' = w.setRepository i (finalState (SchedulerRepository.sync comparer clock items s))) ∨
    (w'.repositories = w.repositories ∧ w'.heap = w.heap ∧ w'.published = w.published) ∨
    ∃ r t, w.heap.read r = some t ∧ w'.repositories = w.repositories ∧
      w'.heap = w.heap.write r (finalState t.increment) ∧
      ((∃ t', t.increment = .ok () t' ∧
        w'.published = w.published ++ [⟨r, t'.task, t'.lastRunTime⟩]) ∨
      ∃ e t', t.increment = .error e t' ∧ w'.published = w.published) := by
  cases a with
  | sync i items =>
    simp only [step] at h
    split at h
    · cases h
    · rename_i s hs
      cases h
      exact Or.inl ⟨i, items, s, rfl, hs, rfl⟩
  | construct =>
    simp only [step] at h
    split at h
    · cases h
      exact Or.inr (Or.inl ⟨rfl, rfl, rfl⟩)
    · cases h
  | execute referenceTime timeZone =>
    simp only [step] at h
    split at h
    · cases h
      exact Or.inr (Or.inl ⟨rfl, rfl, rfl⟩)
    · cases h
  | next =>
    simp only [step] at h
    split at h
    · cases h
      exact Or.inr (Or.inl ⟨rfl, rfl, rfl⟩)
    · rename_i r rest htick
      split at h
      · cases h
      · rename_i t ht
        refine Or.inr (Or.inr ⟨r, t, ht, ?_⟩)
        split at h
        · rename_i t' hinc
          cases h
          exact ⟨rfl, by rw [hinc]; rfl, Or.inl ⟨t', hinc, rfl⟩⟩
        · rename_i e t' hinc
          cases h
          exact ⟨rfl, by rw [hinc]; rfl, Or.inr ⟨e, t', hinc, rfl⟩⟩
    · cases h

/-- Run times are set where a task is published, and nowhere else. -/
theorem step_runTimes (h : step comparer clock machine w a = some w') :
    (w.heap.Evolves SameNext w'.heap ∧ w'.published = w.published) ∨
    ∃ r t t', w.heap.read r = some t ∧ t.increment = .ok () t' ∧
      w'.heap = w.heap.write r t' ∧
      w'.published = w.published ++ [⟨r, t'.task, t'.lastRunTime⟩] := by
  rcases step_cases h with ⟨i, items, s, -, hs, rfl⟩ | ⟨-, hheap, hpub⟩ |
    ⟨r, t, ht, -, hheap, ⟨t', hinc, hpub⟩ | ⟨e, t', hinc, hpub⟩⟩
  · refine Or.inl ⟨fun r t ht => ?_, rfl⟩
    have hheap := (World.repository_eq hs).2.1
    obtain ⟨t', ht', hsame⟩ :=
      (SchedulerRepository.sync_carries comparer clock items s).kept r t (hheap ▸ ht)
    exact ⟨t', ht', hsame.schedule, hsame.nextRunTime⟩
  · exact Or.inl ⟨hheap ▸ Heap.Evolves.refl SameNext.refl _, hpub⟩
  · exact Or.inr ⟨r, t, t', ht, hinc, by rw [hheap, hinc]; rfl, hpub⟩
  · refine Or.inl ⟨hheap ▸ Heap.Evolves.write SameNext.refl ht ?_, hpub⟩
    rw [ScheduledTask.increment_spec]
    rw [ScheduledTask.increment_spec] at hinc
    split at hinc
    · cases hinc
    · exact ⟨rfl, rfl⟩

/-! ## One task object -/

/-- The object `r` has schedule `s`; it was published for the first occurrences from `r₀` on, and
the next one is due. -/
def Tracked (r : Ref) (s : CrontabSchedule) (r₀ : DateTime) (w : World T) : Prop :=
  ∃ t, w.heap.read r = some t ∧ t.schedule = s ∧
    ((w.runTimes r = [] ∧ t.nextRunTime = r₀) ∨
    ∃ os, w.runTimes r = r₀ :: os ∧
      InitialSegment s.occurrences r₀.moment (os.map DateTime.moment) ∧
      NextIn s.occurrences (lastOr r₀.moment (os.map DateTime.moment)) (some t.nextRunTime.moment))

variable {r : Ref} {s : CrontabSchedule} {r₀ : DateTime}

omit [IScheduledTaskItem T] in
theorem Tracked.of_same (h : Tracked r s r₀ w) (hheap : w.heap.Evolves SameNext w'.heap)
    (hruns : w'.runTimes r = w.runTimes r) : Tracked r s r₀ w' := by
  obtain ⟨t, ht, hs, hcase⟩ := h
  obtain ⟨t', ht', hschedule, hnext⟩ := hheap r t ht
  exact ⟨t', ht', hschedule.trans hs, by rw [hruns, hnext]; exact hcase⟩

/-- **A step publishes the tracked object for the occurrence that is due, or not at all.** -/
theorem Tracked.step (h : Tracked r s r₀ w)
    (hstep : BusScheduler.step comparer clock machine w a = some w') : Tracked r s r₀ w' := by
  rcases step_runTimes hstep with ⟨hheap, hpub⟩ | ⟨r', t, t', ht, hinc, hheap, hpub⟩
  · exact h.of_same hheap (by rw [World.runTimes, World.runTimes, hpub])
  · by_cases hr : r' = r
    · subst hr
      obtain ⟨u, hu, hs, hcase⟩ := h
      obtain rfl : t = u := Option.some.inj (ht.symm.trans hu)
      have hruns : w'.runTimes r' = w.runTimes r' ++ [t'.lastRunTime] := by
        simp [World.runTimes, hpub]
      have hread : w'.heap.read r' = some t' := by
        rw [hheap, Heap.read_write, if_pos rfl, ht]
        rfl
      rw [ScheduledTask.increment_spec] at hinc
      split at hinc
      · rename_i next hnext
        cases hinc
        obtain ⟨hin, -⟩ := CrontabSchedule.getNextOccurrenceFrom_spec hnext
        rw [hs] at hin
        refine ⟨_, hread, hs, Or.inr ?_⟩
        simp only at hruns
        rcases hcase with ⟨hnone, hfirst⟩ | ⟨os, hos, hseg, hdue⟩
        · -- the first run, at the reference time
          rw [hfirst] at hin
          exact ⟨[], by rw [hruns, hnone, hfirst]; rfl, InitialSegment.nil _ _, hin⟩
        · refine ⟨os ++ [t.nextRunTime], by rw [hruns, hos]; rfl, ?_, ?_⟩
          · rw [List.map_append]
            exact hseg.snoc hdue
          · rw [List.map_append, List.map_singleton, lastOr_snoc]
            exact hin
      · cases hinc
    · obtain ⟨u, hu, hs, hcase⟩ := h
      have hruns : w'.runTimes r = w.runTimes r := by
        simp [World.runTimes, hpub, hr]
      refine ⟨u, ?_, hs, by rw [hruns]; exact hcase⟩
      rw [hheap, Heap.read_write, if_neg hr]
      exact hu

theorem Tracked.run {as : List (Action T)} (h : Tracked r s r₀ w)
    (hrun : Runs.run (BusScheduler.step comparer clock machine) as w = some w') :
    Tracked r s r₀ w' :=
  run_invariant (Tracked r s r₀) (fun _ => True) (fun _ _ _ h _ hstep => h.step hstep) h
    (fun _ _ => trivial) hrun

/-! ## Consistent worlds -/

/-- Every list is consistent, and no task object is in two of them. -/
structure Consistent (comparer : CompareInfo) (keyOf : ℕ → String → String) (w : World T) :
    Prop where
  each : ∀ i s, w.repository i = some s → SchedulerRepository.Consistent comparer (keyOf i) s
  disjoint : ∀ (i j : ℕ) (rs rs' : List Ref), i ≠ j → w.repositories[i]? = some rs →
    w.repositories[j]? = some rs' → ∀ r ∈ rs, r ∉ rs'

/-- The item lists of a repository have distinct Uids and Keys, and a Uid keeps its Key. -/
def Action.Ok (keyOf : ℕ → String → String) : Action T → Prop
  | .sync i (some items) => SchedulerRepository.ItemsOk (keyOf i) items
  | _ => True

variable {keyOf : ℕ → String → String}

omit [IScheduledTaskItem T] in
theorem World.repository_of {i : ℕ} {rs : List Ref} (h : w.repositories[i]? = some rs) :
    w.repository i = some ⟨w.heap, rs, w.clockReads⟩ := by
  rw [World.repository, h]

theorem consistent_start (n : ℕ) : Consistent comparer keyOf (World.start n : World T) := by
  have hrs : ∀ (i : ℕ) (rs : List Ref),
      (World.start n : World T).repositories[i]? = some rs → rs = [] := by
    intro i rs h
    exact List.eq_of_mem_replicate (List.mem_of_getElem? h)
  refine ⟨fun i s hs => ?_, fun i j rs rs' _ hi _ r hr => ?_⟩
  · obtain ⟨hlist, hheap, -⟩ := World.repository_eq hs
    have hlist := hrs i _ hlist
    exact ⟨⟨by rw [hlist]; simp [Heap.AllocatedIn], by simp [SchedulerRepository.tasks, hlist]⟩,
      by simp [SchedulerRepository.tasks, hlist]⟩
  · rw [hrs i rs hi] at hr
    cases hr

theorem Consistent.of_core (h : Consistent comparer keyOf w)
    (hlists : w'.repositories = w.repositories)
    (hcore : ∀ r, (w'.heap.read r).map SchedulerRepository.core =
      (w.heap.read r).map SchedulerRepository.core) : Consistent comparer keyOf w' := by
  refine ⟨fun i s hs => ?_, fun i j rs rs' hne hi hj =>
    h.disjoint i j rs rs' hne (hlists ▸ hi) (hlists ▸ hj)⟩
  obtain ⟨hlist, hheap, -⟩ := World.repository_eq hs
  rw [hlists] at hlist
  exact (h.each i _ (World.repository_of hlist)).of_core rfl fun r _ => hheap ▸ hcore r

/-- Writing back the result of one repository keeps the others as they are. -/
theorem Consistent.setRepository (h : Consistent comparer keyOf w) {i : ℕ}
    {s s' : SchedulerRepository T} (hs : w.repository i = some s)
    (hcarry : SchedulerRepository.Carries clock s s')
    (hcons : SchedulerRepository.Consistent comparer (keyOf i) s') :
    Consistent comparer keyOf (w.setRepository i s') := by
  obtain ⟨hlist, hheap, -⟩ := World.repository_eq hs
  have hlt : i < w.repositories.length := (List.getElem?_eq_some_iff.1 hlist).1
  have hself : (w.setRepository i s').repositories[i]? = some s'.scheduledTasks :=
    List.getElem?_set_self hlt
  have hother : ∀ j, i ≠ j → (w.setRepository i s').repositories[j]? = w.repositories[j]? :=
    fun j hne => List.getElem?_set_ne hne
  -- the objects of another list are allocated, outside the list of `s`, and so unchanged
  have hout : ∀ j, i ≠ j → ∀ rs, w.repositories[j]? = some rs → ∀ r ∈ rs,
      r ∉ s'.scheduledTasks ∧ s'.heap.read r = w.heap.read r := by
    intro j hne rs hj r hr
    obtain ⟨t, ht⟩ := (h.each j _ (World.repository_of hj)).allocated r hr
    have hnot : r ∉ s.scheduledTasks := h.disjoint j i _ _ (Ne.symm hne) hj hlist r hr
    have ht' : s.heap.read r = some t := by rw [hheap]; exact ht
    refine ⟨fun hmem => ?_, ?_⟩
    · rcases hcarry.refs r hmem with hmem | hnone
      · exact hnot hmem
      · rw [hnone] at ht'
        cases ht'
    · exact (hcarry.outside r hnot t ht').trans ht.symm
  refine ⟨fun j u hu => ?_, fun j k rs rs' hne hj hk r hr => ?_⟩
  · obtain ⟨hulist, huheap, hureads⟩ := World.repository_eq hu
    by_cases hij : i = j
    · subst hij
      have heq : u.scheduledTasks = s'.scheduledTasks := Option.some.inj (hulist.symm.trans hself)
      exact hcons.of_core heq fun r _ => by rw [huheap]; rfl
    · rw [hother j hij] at hulist
      refine (h.each j _ (World.repository_of hulist)).of_core rfl fun r hr => ?_
      rw [huheap]
      exact congrArg _ (hout j hij _ hulist r hr).2
  · by_cases hij : i = j
    · subst hij
      obtain rfl : rs = s'.scheduledTasks := Option.some.inj (hj.symm.trans hself)
      rw [hother k hne] at hk
      exact fun hr' => (hout k hne _ hk r hr').1 hr
    · rw [hother j hij] at hj
      by_cases hik : i = k
      · subst hik
        obtain rfl : rs' = s'.scheduledTasks := Option.some.inj (hk.symm.trans hself)
        exact (hout j hij _ hj r hr).1
      · rw [hother k hik] at hk
        exact h.disjoint j k rs rs' hne hj hk r hr

theorem Consistent.step (h : Consistent comparer keyOf w) (ha : a.Ok keyOf)
    (hstep : BusScheduler.step comparer clock machine w a = some w') :
    Consistent comparer keyOf w' := by
  rcases step_cases hstep with ⟨i, items, s, rfl, hs, rfl⟩ | ⟨hlists, hheap, -⟩ |
    ⟨r, t, ht, hlists, hheap, -⟩
  · refine h.setRepository hs (SchedulerRepository.sync_carries comparer clock items s) ?_
    cases items with
    | none => exact h.each i s hs
    | some items => exact SchedulerRepository.consistent_sync (h.each i s hs) ha
  · exact h.of_core hlists fun r => by rw [hheap]
  · refine h.of_core hlists fun r' => ?_
    rw [hheap, Heap.read_write]
    split
    · rename_i hr
      subst hr
      rw [ht]
      simp [SchedulerRepository.core_increment]
    · rfl

/-! ## A task stays with its object -/

/-- The list of repository `i` has the object `r`, with this Uid and schedule text. -/
def Holds (i : ℕ) (uid : String) (text : Option String) (r : Ref) (w : World T) : Prop :=
  ∃ rs t, w.repositories[i]? = some rs ∧ r ∈ rs ∧ w.heap.read r = some t ∧ t.uid = uid ∧
    IScheduledTaskItem.schedule t.task = text

/-- The item lists of repository `i` have an item with this Uid and schedule text. -/
def Action.Keeps (i : ℕ) (uid : String) (text : Option String) : Action T → Prop
  | .sync j (some items) => i = j → ∃ p ∈ items, IScheduledTaskItem.uid p = uid ∧
      IScheduledTaskItem.schedule p = text
  | _ => True

variable {i : ℕ} {uid : String} {text : Option String}

theorem Holds.step (h : Holds i uid text r w) (hw : Consistent comparer keyOf w) (ha : a.Ok keyOf)
    (hkeeps : a.Keeps i uid text)
    (hstep : BusScheduler.step comparer clock machine w a = some w') : Holds i uid text r w' := by
  obtain ⟨rs, t, hrs, hr, ht, huid, htext⟩ := h
  rcases step_cases hstep with ⟨j, items, s, rfl, hs, rfl⟩ | ⟨hlists, hheap, -⟩ |
    ⟨r', t', ht', hlists, hheap, -⟩
  · obtain ⟨hlist, hheap, -⟩ := World.repository_eq hs
    have ht : s.heap.read r = some t := hheap ▸ ht
    have hlt : j < w.repositories.length := (List.getElem?_eq_some_iff.1 hlist).1
    by_cases hij : i = j
    · subst hij
      obtain rfl : rs = s.scheduledTasks := Option.some.inj (hrs.symm.trans hlist)
      cases items with
      | none => exact ⟨_, t, List.getElem?_set_self hlt, hr, ht, huid, htext⟩
      | some items =>
        obtain ⟨p, hp, hpuid, hptext⟩ := hkeeps rfl
        obtain ⟨hr', t', ht', huid', htext'⟩ := SchedulerRepository.sync_keeps_task
          (hw.each i s hs) ha hr ht hp (hpuid.trans huid.symm)
          (hptext.trans htext.symm) rfl
        exact ⟨_, t', List.getElem?_set_self hlt, hr', ht', huid'.trans huid, htext'.trans htext⟩
    · have hnot : r ∉ s.scheduledTasks := hw.disjoint i j _ _ hij hrs hlist r hr
      have hread := (SchedulerRepository.sync_carries comparer clock items s).outside r hnot t
        ht
      exact ⟨rs, t, (List.getElem?_set_ne (Ne.symm hij)).trans hrs, hr, hread, huid, htext⟩
  · exact ⟨rs, t, hlists ▸ hrs, hr, hheap ▸ ht, huid, htext⟩
  · by_cases hrr : r' = r
    · subst hrr
      obtain rfl : t = t' := Option.some.inj (ht.symm.trans ht')
      obtain ⟨huid', -, htask'⟩ := t.increment_keeps
      refine ⟨rs, _, hlists ▸ hrs, hr, ?_, huid'.trans huid, by rw [htask']; exact htext⟩
      rw [hheap, Heap.read_write, if_pos rfl, ht]
      rfl
    · refine ⟨rs, t, hlists ▸ hrs, hr, ?_, huid, htext⟩
      rw [hheap, Heap.read_write, if_neg hrr]
      exact ht

theorem Holds.run {as : List (Action T)} (h : Holds i uid text r w)
    (hw : Consistent comparer keyOf w) (hok : ∀ a ∈ as, a.Ok keyOf)
    (hkeeps : ∀ a ∈ as, a.Keeps i uid text)
    (hrun : Runs.run (BusScheduler.step comparer clock machine) as w = some w') :
    Holds i uid text r w' := by
  have hboth : Consistent comparer keyOf w' ∧ Holds i uid text r w' := by
    refine run_invariant (fun w => Consistent comparer keyOf w ∧ Holds i uid text r w)
      (fun a => a.Ok keyOf ∧ a.Keeps i uid text) ?_ ⟨hw, h⟩
      (fun a ha => ⟨hok a ha, hkeeps a ha⟩) hrun
    rintro w₁ a w₂ ⟨hw, h⟩ ⟨hok, hkeeps⟩ hstep
    exact ⟨hw.step hok hstep, h.step hw hok hkeeps hstep⟩
  exact hboth.2

/-- The list has no other task with this Uid. -/
theorem Consistent.unique {text' : Option String} {r' : Ref} (h : Consistent comparer keyOf w)
    (hr : Holds i uid text r w) (hr' : Holds i uid text' r' w) : r' = r := by
  obtain ⟨rs, t, hrs, hmem, ht, huid, -⟩ := hr
  obtain ⟨rs', t', hrs', hmem', ht', huid', -⟩ := hr'
  obtain rfl : rs = rs' := Option.some.inj (hrs.symm.trans hrs')
  exact (h.each i _ (World.repository_of hrs)).ref_eq hmem' hmem ht' ht (huid'.trans huid.symm)

/-! ## Messages and new objects -/

/-- Every message belongs to an object that exists. -/
def Sound (w : World T) : Prop := ∀ m ∈ w.published, ∃ t, w.heap.read m.task = some t

theorem Sound.step (h : Sound w) (hstep : BusScheduler.step comparer clock machine w a = some w') :
    Sound w' := by
  intro m hm
  rcases step_runTimes hstep with ⟨hheap, hpub⟩ | ⟨r, t, t', ht, -, hheap, hpub⟩
  · obtain ⟨t, ht⟩ := h m (hpub ▸ hm)
    obtain ⟨t', ht', -⟩ := hheap m.task t ht
    exact ⟨t', ht'⟩
  · have hkept : w.heap.Evolves (fun _ _ => True) (w.heap.write r t') :=
      Heap.Evolves.write (fun _ => trivial) ht trivial
    have hold : ∃ u, w.heap.read m.task = some u := by
      rw [hpub, List.mem_append, List.mem_singleton] at hm
      rcases hm with hm | rfl
      · exact h m hm
      · exact ⟨t, ht⟩
    obtain ⟨u, hu⟩ := hold
    obtain ⟨u', hu', -⟩ := hkept m.task u hu
    exact ⟨u', hheap ▸ hu'⟩

theorem Sound.run {as : List (Action T)} (h : Sound w)
    (hrun : Runs.run (BusScheduler.step comparer clock machine) as w = some w') : Sound w' :=
  run_invariant Sound (fun _ => True) (fun _ _ _ h _ hstep => h.step hstep) h
    (fun _ _ => trivial) hrun

theorem Consistent.run {as : List (Action T)} (h : Consistent comparer keyOf w)
    (hok : ∀ a ∈ as, a.Ok keyOf)
    (hrun : Runs.run (BusScheduler.step comparer clock machine) as w = some w') :
    Consistent comparer keyOf w' :=
  run_invariant (Consistent comparer keyOf) (Action.Ok keyOf)
    (fun _ _ _ h hok hstep => h.step hok hstep) h hok hrun

/-- A task created by a `Sync` is due at the time it was created at, and not published yet. -/
theorem tracked_of_new {items : Option (List T)} {t : ScheduledTask T} (hw : Sound w)
    (hsync : step comparer clock machine w (.sync i items) = some w')
    (hnone : w.heap.read r = none) (hnew : w'.heap.read r = some t) :
    (∃ k, w.clockReads ≤ k ∧ k < w'.clockReads ∧ t.nextRunTime = clock.reading k) ∧
      Tracked r t.schedule t.nextRunTime w' := by
  simp only [step] at hsync
  split at hsync
  · cases hsync
  · rename_i s hs
    cases hsync
    obtain ⟨-, hheap, hreads⟩ := World.repository_eq hs
    obtain ⟨-, k, hk, hk', hnext⟩ :=
      (SchedulerRepository.sync_carries comparer clock items s).fresh r t (hheap ▸ hnone) hnew
    refine ⟨⟨k, hreads ▸ hk, hk', hnext⟩, t, hnew, rfl, Or.inl ⟨?_, rfl⟩⟩
    have hfilter : w.published.filter (fun m => m.task = r) = [] := by
      apply List.filter_eq_nil_iff.2
      intro m hm heq
      obtain ⟨u, hu⟩ := hw m hm
      rw [of_decide_eq_true heq, hnone] at hu
      cases hu
    simp [World.runTimes, World.setRepository, hfilter]

/-- **A task is published for its reference time and then for the occurrences of its schedule, in
order, with none left out and none repeated**, whatever the ticks and the `Sync` calls; as long as
the item lists keep its schedule text, the list keeps the task. -/
theorem published_in_order {n : ℕ} {items : Option (List T)} {before after : List (Action T)}
    {w₀ w₁ : World T} {t : ScheduledTask T}
    (hbefore : run (step comparer clock machine) before (.start n) = some w₀)
    (hsync : step comparer clock machine w₀ (.sync i items) = some w₁)
    (hnone : w₀.heap.read r = none) (hnew : w₁.heap.read r = some t)
    (hafter : run (step comparer clock machine) after w₁ = some w) :
    (∃ k, w₀.clockReads ≤ k ∧ k < w₁.clockReads ∧ t.nextRunTime = clock.reading k) ∧
    (w.runTimes r = [] ∨ ∃ os, w.runTimes r = t.nextRunTime :: os ∧
      InitialSegment t.schedule.occurrences t.nextRunTime.moment (os.map DateTime.moment)) ∧
    ∀ keyOf, (∀ a ∈ before ++ .sync i items :: after, a.Ok keyOf) →
      (∀ a ∈ after, a.Keeps i uid text) → Holds i uid text r w₁ →
      Holds i uid text r w ∧ ∀ r' text', Holds i uid text' r' w → r' = r := by
  have hstart : Sound (World.start n : World T) := fun m hm => by cases hm
  have hsound : Sound w₀ := hstart.run hbefore
  obtain ⟨hcreated, htracked⟩ := tracked_of_new hsound hsync hnone hnew
  refine ⟨hcreated, ?_, fun keyOf hok hkeeps hholds => ?_⟩
  · obtain ⟨_, -, -, ⟨hempty, -⟩ | ⟨os, hos, hseg, -⟩⟩ := htracked.run hafter
    · exact Or.inl hempty
    · exact Or.inr ⟨os, hos, hseg⟩
  · rw [List.forall_mem_append, List.forall_mem_cons] at hok
    have hw₁ := ((consistent_start n).run hok.1 hbefore).step hok.2.1 hsync
    have hholds' := hholds.run hw₁ hok.2.2 hkeeps hafter
    exact ⟨hholds', fun r' text' hr' => (hw₁.run hok.2.2 hafter).unique hholds' hr'⟩

/-! ## An example -/

open SchedulerRepository (hourlyCheck newYear)

/-- A job that publishes one task. -/
def oneTask (referenceTime : DateTime) : List (Action HealthCheckResourceV1) :=
  [.construct, .execute referenceTime ⟨fun _ => 396000000000⟩, .next, .next]

/-- A tick after a minute and two late ones at the same time, with `Sync` calls in between. -/
def threeTicks : List (Action HealthCheckResourceV1) :=
  let first : DateTime := .utcTime 2022 1 1 0 1
  let late : DateTime := .utcTime 2022 1 1 3 0
  oneTask first ++ .sync 0 (some [hourlyCheck]) :: oneTask late ++ .sync 0 none :: oneTask late

theorem published_in_order_threeTicks : ∃ (w₁ w : World HealthCheckResourceV1) (t : _) (os : _),
    run (step .ascii newYear ⟨fun _ => 0⟩) threeTicks w₁ = some w ∧ w₁.heap.read 0 = some t ∧
      w.runTimes 0 = t.nextRunTime :: os ∧ os.length = 2 ∧
      InitialSegment t.schedule.occurrences t.nextRunTime.moment (os.map DateTime.moment) ∧
      Holds 0 "a" (some "30 * * * *") 0 w := by
  obtain ⟨w₁, hsync, h⟩ := (Option.any_eq_true ..).1
    -- first a `Sync` of an hourly check, then the ticks
    (show (step .ascii newYear ⟨fun _ => 0⟩ (.start 1) (.sync 0 (some [hourlyCheck]))).any
      (fun w₁ => w₁.repositories == [[0]] &&
        (w₁.heap.read 0).any (fun t => t.uid == "a" && t.task.schedule == some "30 * * * *") &&
        (run (step .ascii newYear ⟨fun _ => 0⟩) threeTicks w₁).any
          fun w => (w.runTimes 0).length == 3) = true by decide +kernel)
  rw [Bool.and_eq_true, Bool.and_eq_true, Option.any_eq_true, Option.any_eq_true] at h
  obtain ⟨⟨hlist, t, ht, hid⟩, w, hw, hlength⟩ := h
  rw [Bool.and_eq_true, beq_iff_eq, beq_iff_eq] at hid
  rw [beq_iff_eq] at hlist hlength
  have hholds : Holds 0 "a" (some "30 * * * *") 0 w₁ :=
    ⟨[0], t, by rw [hlist]; rfl, by simp, ht, hid.1, hid.2⟩
  have hitems : SchedulerRepository.ItemsOk SchedulerRepository.checkKey [hourlyCheck] :=
    ⟨by decide, by decide, by decide⟩
  have hok : ∀ a ∈ [] ++ .sync 0 (some [hourlyCheck]) :: threeTicks,
      a.Ok fun _ => SchedulerRepository.checkKey := by
    simp [threeTicks, oneTask, Action.Ok, hitems]
  have hkeeps : ∀ a ∈ threeTicks, a.Keeps 0 "a" (some "30 * * * *") := by
    simp [threeTicks, oneTask, Action.Keeps, hourlyCheck, IScheduledTaskItem.uid,
      IScheduledTaskItem.schedule]
  have hbefore : run (step .ascii newYear ⟨fun _ => 0⟩) ([] : List (Action HealthCheckResourceV1))
      (.start 1) = some (.start 1) := rfl
  obtain ⟨-, hruns, hstays⟩ := published_in_order hbefore hsync rfl ht hw
  have hholds' := (hstays _ hok hkeeps hholds).1
  rcases hruns with hnil | ⟨os, hos, hseg⟩
  · rw [hnil] at hlength
    cases hlength
  · rw [hos] at hlength
    exact ⟨w₁, w, t, os, hw, ht, hos, Nat.succ.inj hlength, hseg, hholds'⟩

end Sentinel.BusScheduler
