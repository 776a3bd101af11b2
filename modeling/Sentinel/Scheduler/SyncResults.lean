import Sentinel.Scheduler.SyncProgress

/-!
# What `Sync` guarantees

* `Reachable.consistent` — every repository reached by `Sync` and `Increment` calls, returning or
  throwing, holds distinct tasks that fit their items.
* `sync_exact` — after a `Sync` of good items the list holds exactly their tasks; unchanged
  schedules keep their run times.
* `sync_stops_at_first_failure` — with a bad item in the list, what comes before it in processing
  order is done and what comes after it is not.
-/

set_option autoImplicit false

namespace Sentinel.SchedulerRepository

open Throwing

variable {T : Type}

/-! ## Increment -/

/-- The parts of a task that `Increment` leaves alone. -/
def core (t : ScheduledTask T) : String × CrontabSchedule × T := (t.uid, t.schedule, t.task)

theorem core_increment (t : ScheduledTask T) : core (finalState t.increment) = core t := by
  obtain ⟨huid, hschedule, htask⟩ := t.increment_keeps
  simp only [core, huid, hschedule, htask]

theorem incrementAt_keeps (r : Ref) (s : SchedulerRepository T) :
    (finalState (incrementAt r s)).scheduledTasks = s.scheduledTasks ∧
    (finalState (incrementAt r s)).clockReads = s.clockReads ∧
    ∀ r', ((finalState (incrementAt r s)).heap.read r').map core = (s.heap.read r').map core := by
  unfold incrementAt
  cases hr : s.heap.read r with
  | none => exact ⟨rfl, rfl, fun _ => rfl⟩
  | some t =>
    have hwrite : ∀ t', core t' = core t → ∀ r',
        ((s.heap.write r t').read r').map core = (s.heap.read r').map core := by
      intro t' ht' r'
      rw [Heap.read_write]
      split
      · rename_i hrr
        rw [← hrr, hr]
        simp [ht']
      · rfl
    have hcore := core_increment t
    cases hinc : t.increment with
    | ok u t' =>
      rw [hinc] at hcore
      simp only [hinc]
      exact ⟨rfl, rfl, hwrite t' hcore⟩
    | error e t' =>
      rw [hinc] at hcore
      simp only [hinc]
      exact ⟨rfl, rfl, hwrite t' hcore⟩

variable [IScheduledTaskItem T] {comparer : CompareInfo} {clock : Clock} {keyOf : String → String}
  {items prev : List T} {s s' : SchedulerRepository T}

theorem Consistent.of_core (h : Consistent comparer keyOf s)
    (hlist : s'.scheduledTasks = s.scheduledTasks)
    (hcore : ∀ r ∈ s.scheduledTasks, (s'.heap.read r).map core = (s.heap.read r).map core) :
    Consistent comparer keyOf s' := by
  have hread : ∀ {r t'}, r ∈ s.scheduledTasks → s'.heap.read r = some t' →
      ∃ t, s.heap.read r = some t ∧ core t = core t' := by
    intro r t' hr ht'
    have := hcore r hr
    rw [ht', Option.map_some] at this
    obtain ⟨t, ht, heq⟩ := Option.map_eq_some_iff.1 this.symm
    exact ⟨t, ht, heq⟩
  refine ⟨⟨?_, ?_⟩, ?_⟩
  · intro r hr
    have hr : r ∈ s.scheduledTasks := hlist ▸ hr
    obtain ⟨t, ht⟩ := h.allocated r hr
    have := hcore r hr
    rw [ht, Option.map_some] at this
    obtain ⟨t', ht', -⟩ := Option.map_eq_some_iff.1 this
    exact ⟨t', ht'⟩
  · have huids : s'.tasks.map ScheduledTask.uid = s.tasks.map ScheduledTask.uid := by
      unfold tasks
      rw [hlist]
      apply Heap.readAll_map_congr
      intro r hr
      have := congrArg (Option.map Prod.fst) (hcore r hr)
      rw [Option.map_map, Option.map_map] at this
      exact this
    rw [huids]
    exact h.uids
  · intro t' ht'
    obtain ⟨r, hr, hread'⟩ := mem_tasks.1 ht'
    have hr : r ∈ s.scheduledTasks := hlist ▸ hr
    obtain ⟨t, ht, heq⟩ := hread hr hread'
    simp only [core, Prod.mk.injEq] at heq
    obtain ⟨huid, hschedule, htask⟩ := heq
    have hown := h.owned t (mem_tasks.2 ⟨r, hr, ht⟩)
    exact ⟨by rw [← huid, ← htask]; exact hown.uid, by rw [← huid, ← htask]; exact hown.key,
      by rw [← hschedule, ← htask]; exact hown.schedule⟩

/-! ## Reachable repositories -/

variable (comparer clock keyOf)

/-- Reached from the empty repository by `Sync` calls, whether they return or throw, and
`Increment` calls on any task object. -/
inductive Reachable : SchedulerRepository T → Prop
  | start : Reachable .empty
  | sync {s : SchedulerRepository T} {items : List T} : Reachable s → ItemsOk keyOf items →
      Reachable (finalState (SchedulerRepository.sync comparer clock (some items) s))
  | syncNull {s : SchedulerRepository T} : Reachable s →
      Reachable (finalState (SchedulerRepository.sync comparer clock none s))
  | increment {s : SchedulerRepository T} (r : Ref) : Reachable s →
      Reachable (finalState (incrementAt r s))

variable {comparer clock keyOf}

theorem consistent_empty : Consistent comparer keyOf (.empty : SchedulerRepository T) :=
  ⟨⟨by simp [empty, Heap.AllocatedIn], by simp [empty, tasks]⟩, by simp [empty, tasks]⟩

/-- Wherever a `Sync` stops, the repository is consistent. -/
theorem Stopped.consistent (h : Stopped comparer clock items s s')
    (hs : Consistent comparer keyOf s) (hitems : ItemsOk keyOf items) :
    Consistent comparer keyOf s' := by
  have hprogress : ∀ {added updated swept}, Progress comparer clock items s added updated swept s' →
      added.Sublist (s.itemsToAdd items) → updated ⊆ items → Consistent comparer keyOf s' := by
    intro added updated swept hp hadded hupdated
    refine hp.consistent hs (hp.distinct_of_items hs.toDistinct hitems hadded) ?_ ?_
    · exact fun p hp => hitems.keyOf p (mem_itemsToAdd.1 (hadded.subset hp)).1
    · exact fun p hp => hitems.keyOf p (hupdated hp)
  have hmem : ∀ {p}, p ∈ s.itemsToUpdate items → p ∈ items := fun h => (mem_itemsToUpdate.1 h).1
  rcases h with ⟨done, p, rest, heq, -, hp | hp⟩ | ⟨done, p, rest, heq, -, hp | hp⟩
  · exact hprogress hp (heq ▸ List.sublist_append_left _ _) (List.nil_subset _)
  · exact hprogress hp (by rw [heq]; simp) (List.nil_subset _)
  · exact hprogress hp (List.Sublist.refl _) fun q hq => hmem (by rw [heq]; simp [hq])
  · refine hprogress hp (List.Sublist.refl _) fun q hq => hmem ?_
    rw [heq]
    simp only [List.mem_append, List.mem_cons] at hq ⊢
    tauto

theorem Progress.consistent_end
    (h : Progress comparer clock items s (s.itemsToAdd items) (s.itemsToUpdate items) true s')
    (hs : Consistent comparer keyOf s) (hitems : ItemsOk keyOf items) :
    Consistent comparer keyOf s' :=
  h.consistent hs (h.distinct_of_items hs.toDistinct hitems (List.Sublist.refl _))
    (fun p hp => hitems.keyOf p (mem_itemsToAdd.1 hp).1)
    fun p hp => hitems.keyOf p (mem_itemsToUpdate.1 hp).1

theorem consistent_sync (hs : Consistent comparer keyOf s) (hitems : ItemsOk keyOf items) :
    Consistent comparer keyOf
      (finalState (SchedulerRepository.sync comparer clock (some items) s)) := by
  have hend := sync_spec clock hs hitems
  cases hr : SchedulerRepository.sync comparer clock (some items) s with
  | ok u s' =>
    rw [hr] at hend
    exact Progress.consistent_end hend hs hitems
  | error e s' =>
    rw [hr] at hend
    exact Stopped.consistent hend hs hitems

/-- **Every reachable repository is consistent.** -/
theorem Reachable.consistent (h : Reachable comparer clock keyOf s) :
    Consistent comparer keyOf s := by
  induction h with
  | start => exact consistent_empty
  | sync _ hitems ih => exact consistent_sync ih hitems
  | syncNull _ ih => exact ih
  | increment r _ ih =>
    obtain ⟨hlist, -, hcore⟩ := incrementAt_keeps r _
    exact ih.of_core hlist fun r _ => hcore r

/-! ## Runs of good item lists -/

variable (comparer clock keyOf)

/-- The repository after a sequence of `Sync` calls with good item lists and of `Increment` calls,
with the items of the last `Sync`. -/
inductive Run : List T → SchedulerRepository T → Prop
  | start : Run [] .empty
  | sync {prev items : List T} {s : SchedulerRepository T} : Run prev s → ItemsOk keyOf items →
      (∀ p ∈ items, Good comparer clock p) →
      Run items (finalState (SchedulerRepository.sync comparer clock (some items) s))
  | syncNull {prev : List T} {s : SchedulerRepository T} : Run prev s →
      Run prev (finalState (SchedulerRepository.sync comparer clock none s))
  | increment {prev : List T} {s : SchedulerRepository T} (r : Ref) : Run prev s →
      Run prev (finalState (incrementAt r s))

variable {comparer clock keyOf}

theorem Run.reachable (h : Run comparer clock keyOf prev s) : Reachable comparer clock keyOf s := by
  induction h with
  | start => exact .start
  | sync _ hitems _ ih => exact .sync ih hitems
  | syncNull _ ih => exact .syncNull ih
  | increment r _ ih => exact .increment r ih

/-- A `Sync` of good items returns. -/
theorem sync_good (hs : Consistent comparer keyOf s) (hitems : ItemsOk keyOf items)
    (hgood : ∀ p ∈ items, Good comparer clock p) :
    ∃ s', SchedulerRepository.sync comparer clock (some items) s = .ok () s' ∧
      Progress comparer clock items s (s.itemsToAdd items) (s.itemsToUpdate items) true s' := by
  have hend := sync_spec clock hs hitems
  cases hr : SchedulerRepository.sync comparer clock (some items) s with
  | ok u s' =>
    rw [hr] at hend
    exact ⟨s', rfl, hend⟩
  | error e s' =>
    rw [hr] at hend
    rcases hend with ⟨done, p, rest, heq, hbad, -⟩ | ⟨done, p, rest, heq, hbad, -⟩
    · have hp : p ∈ s.itemsToAdd items := by rw [heq]; simp
      exact absurd (hgood p (mem_itemsToAdd.1 hp).1) hbad
    · have hp : p ∈ s.itemsToUpdate items := by rw [heq]; simp
      exact absurd (hgood p (mem_itemsToUpdate.1 hp).1) hbad

/-- After a complete `Sync` the tasks have the Uids of the items. -/
theorem Progress.uids_perm
    (h : Progress comparer clock items s (s.itemsToAdd items) (s.itemsToUpdate items) true s')
    (hs : s.Distinct) (hitems : ItemsOk keyOf items) :
    (s'.tasks.map ScheduledTask.uid).Perm (items.map IScheduledTaskItem.uid) := by
  have hd := h.distinct_of_items hs hitems (List.Sublist.refl _)
  refine (List.perm_ext_iff_of_nodup hd.uids hitems.uids).2 fun u => ?_
  constructor
  · intro hu
    obtain ⟨t, ht, rfl⟩ := List.mem_map.1 hu
    rcases h.mem hd ht with ⟨p, hp, hf⟩ | ⟨t₀, -, hwant, hh⟩
    · exact List.mem_map.2 ⟨p, (mem_itemsToAdd.1 hp).1, hf.uid.symm⟩
    · obtain ⟨p, hp, huid⟩ := wanted_iff.1 (hwant rfl)
      exact List.mem_map.2 ⟨p, hp, huid.trans hh.uid.symm⟩
  · intro hu
    obtain ⟨p, hp, rfl⟩ := List.mem_map.1 hu
    cases hk : s.known p with
    | false =>
      obtain ⟨t, ht, hf⟩ := h.fresh p (mem_itemsToAdd.2 ⟨hp, hk⟩)
      exact List.mem_map.2 ⟨t, ht, hf.uid⟩
    | true =>
      obtain ⟨t₀, ht₀, huid⟩ := known_iff.1 hk
      obtain ⟨r, hr, hread⟩ := mem_tasks.1 ht₀
      obtain ⟨r', hr', t, ht, hh, -⟩ := h.known r hr t₀ hread
        fun _ => wanted_iff.2 ⟨p, hp, huid.symm⟩
      exact List.mem_map.2 ⟨t, mem_tasks.2 ⟨r', hr', ht⟩, hh.uid.trans huid⟩

/-- A known item whose update has been done has renewed the task with its Uid. -/
theorem Progress.renewed_of_mem {added updated : List T} {swept : Bool}
    (h : Progress comparer clock items s added updated swept s') (hitems : ItemsOk keyOf items)
    (hupdated : updated ⊆ s.itemsToUpdate items) {p : T} (hp : p ∈ updated) :
    ∃ t₀ ∈ s.tasks, t₀.uid = IScheduledTaskItem.uid p ∧ ∃ t ∈ s'.tasks,
      Renewed comparer clock s.clockReads s'.clockReads p t₀ t := by
  obtain ⟨hpi, hk⟩ := mem_itemsToUpdate.1 (hupdated hp)
  obtain ⟨t₀, ht₀, huid⟩ := known_iff.1 hk
  obtain ⟨r, hr, hread⟩ := mem_tasks.1 ht₀
  obtain ⟨r', hr', t, ht, hh, -⟩ := h.known r hr t₀ hread
    fun _ => wanted_iff.2 ⟨p, hpi, huid.symm⟩
  refine ⟨t₀, ht₀, huid, t, mem_tasks.2 ⟨r', hr', ht⟩, ?_⟩
  rcases hh with ⟨q, hq, hquid, hren⟩ | ⟨hnone, -⟩
  · rwa [hitems.eq_of_uid hpi (mem_itemsToUpdate.1 (hupdated hq)).1 (huid.symm.trans hquid.symm)]
  · exact absurd huid.symm (hnone p hp)

/-- The list of a run holds the tasks of the last item list. -/
structure Mirrors (keyOf : String → String) (prev : List T) (s : SchedulerRepository T) : Prop where
  items : ItemsOk keyOf prev
  uids : (s.tasks.map ScheduledTask.uid).Perm (prev.map IScheduledTaskItem.uid)
  tasks : ∀ t ∈ s.tasks, t.task ∈ prev

theorem Mirrors.of_core (h : Mirrors keyOf prev s) (hlist : s'.scheduledTasks = s.scheduledTasks)
    (hcore : ∀ r, (s'.heap.read r).map core = (s.heap.read r).map core) :
    Mirrors keyOf prev s' := by
  have hmap : ∀ {β : Type} (f : ScheduledTask T → β) (g : String × CrontabSchedule × T → β),
      (∀ t, f t = g (core t)) → s'.tasks.map f = s.tasks.map f := by
    intro β f g hfg
    unfold SchedulerRepository.tasks
    rw [hlist]
    apply Heap.readAll_map_congr
    intro r _
    have := congrArg (Option.map g) (hcore r)
    rw [Option.map_map, Option.map_map] at this
    rwa [show f = g ∘ core from funext hfg]
  refine ⟨h.items, ?_, fun t' ht' => ?_⟩
  · rw [hmap ScheduledTask.uid Prod.fst fun _ => rfl]
    exact h.uids
  · have : t'.task ∈ s'.tasks.map ScheduledTask.task := List.mem_map_of_mem ht'
    rw [hmap ScheduledTask.task (fun c => c.2.2) fun _ => rfl] at this
    obtain ⟨t, ht, heq⟩ := List.mem_map.1 this
    rw [← heq]
    exact h.tasks t ht

theorem Progress.mirrors
    (h : Progress comparer clock items s (s.itemsToAdd items) (s.itemsToUpdate items) true s')
    (hs : s.Distinct) (hitems : ItemsOk keyOf items) : Mirrors keyOf items s' := by
  refine ⟨hitems, h.uids_perm hs hitems, fun t ht => ?_⟩
  have hd := h.distinct_of_items hs hitems (List.Sublist.refl _)
  rcases h.mem hd ht with ⟨p, hp, hf⟩ | ⟨t₀, ht₀, hwant, hh⟩
  · rw [hf.task]
    exact (mem_itemsToAdd.1 hp).1
  · obtain ⟨p, hp, huid⟩ := wanted_iff.1 (hwant rfl)
    have hpu : p ∈ s.itemsToUpdate items :=
      mem_itemsToUpdate.2 ⟨hp, known_iff.2 ⟨t₀, ht₀, huid.symm⟩⟩
    rcases hh with ⟨q, hq, -, ⟨-, hf⟩ | ⟨-, rfl⟩⟩ | ⟨hnone, -⟩
    · rw [hf.task]
      exact (mem_itemsToUpdate.1 hq).1
    · exact (mem_itemsToUpdate.1 hq).1
    · exact absurd huid (hnone p hpu)

theorem Run.mirrors (h : Run comparer clock keyOf prev s) : Mirrors keyOf prev s := by
  induction h with
  | start => exact ⟨⟨by simp, by simp, by simp⟩, by simp [empty, tasks], by simp [empty, tasks]⟩
  | sync hrun hitems hgood _ =>
    obtain ⟨s', hs', hp⟩ := sync_good hrun.reachable.consistent hitems hgood
    rw [hs']
    exact hp.mirrors hrun.reachable.consistent.toDistinct hitems
  | syncNull _ ih => exact ih
  | increment r _ ih =>
    obtain ⟨hlist, -, hcore⟩ := incrementAt_keeps r _
    exact ih.of_core hlist hcore

/-- **After every `Sync` of a run** the list holds exactly one task per item, with the item and its
schedule; a task whose schedule text is the same as at the previous `Sync` keeps its run times,
every other task is due at the time of the call and has not run. -/
theorem sync_exact (hrun : Run comparer clock keyOf prev s) (hitems : ItemsOk keyOf items)
    (hgood : ∀ p ∈ items, Good comparer clock p) :
    ∃ s', SchedulerRepository.sync comparer clock (some items) s = .ok () s' ∧
      (s'.tasks.map ScheduledTask.uid).Perm (items.map IScheduledTaskItem.uid) ∧
      ∀ p ∈ items, ∃ t ∈ s'.tasks, t.uid = IScheduledTaskItem.uid p ∧ t.task = p ∧
        CrontabSchedule.parse comparer (IScheduledTaskItem.schedule p) = .ok t.schedule ∧
        (∀ q ∈ prev, IScheduledTaskItem.uid q = IScheduledTaskItem.uid p →
          IScheduledTaskItem.schedule q = IScheduledTaskItem.schedule p →
          ∃ t₀ ∈ s.tasks, t₀.uid = IScheduledTaskItem.uid p ∧
            t.lastRunTime = t₀.lastRunTime ∧ t.nextRunTime = t₀.nextRunTime) ∧
        ((¬ ∃ q ∈ prev, IScheduledTaskItem.uid q = IScheduledTaskItem.uid p ∧
            IScheduledTaskItem.schedule q = IScheduledTaskItem.schedule p) →
          t.lastRunTime = .minValue ∧
            ∃ n, s.clockReads ≤ n ∧ n < s'.clockReads ∧ t.nextRunTime = clock.reading n) := by
  have hcons := hrun.reachable.consistent
  have hmirror := hrun.mirrors
  obtain ⟨s', hs', hp⟩ := sync_good hcons hitems hgood
  refine ⟨s', hs', hp.uids_perm hcons.toDistinct hitems, fun p hpi => ?_⟩
  cases hk : s.known p with
  | false =>
    obtain ⟨t, ht, hf⟩ := hp.fresh p (mem_itemsToAdd.2 ⟨hpi, hk⟩)
    refine ⟨t, ht, hf.uid, hf.task, hf.schedule, fun q hq huid _ => ?_,
      fun _ => ⟨hf.lastRunTime, hf.nextRunTime⟩⟩
    -- an item of the previous list is known
    have hq' := hmirror.uids.symm.subset (List.mem_map_of_mem hq)
    obtain ⟨t₀, ht₀, heq⟩ := List.mem_map.1 hq'
    rw [known_iff.2 ⟨t₀, ht₀, heq.trans huid⟩] at hk
    cases hk
  | true =>
    obtain ⟨t₀, ht₀, huid, t, ht, hren⟩ :=
      hp.renewed_of_mem hitems (List.Subset.refl _) (mem_itemsToUpdate.2 ⟨hpi, hk⟩)
    have hown := hcons.owned t₀ ht₀
    obtain ⟨huid', htask, hparse⟩ := hren.fits huid hown.schedule
    refine ⟨t, ht, huid', htask, hparse, fun q hq hquid hqs => ?_, fun hnew => ?_⟩
    · -- the item of the previous list is the one the task holds
      obtain rfl : q = t₀.task := hmirror.items.eq_of_uid hq (hmirror.tasks t₀ ht₀)
        (hquid.trans (huid.symm.trans hown.uid))
      rcases hren with ⟨hne, -⟩ | ⟨-, rfl⟩
      · exact absurd hqs.symm hne
      · exact ⟨t₀, ht₀, huid, rfl, rfl⟩
    · rcases hren with ⟨-, hf⟩ | ⟨heq, -⟩
      · exact ⟨hf.lastRunTime, hf.nextRunTime⟩
      · exact absurd ⟨t₀.task, hmirror.tasks t₀ ht₀, hown.uid.symm.trans huid, heq.symm⟩ hnew

/-! ## A concrete run -/

theorem good_of_check {now : Gregorian.Moment} {item : T}
    (hcheck : okAnd (CrontabSchedule.parse comparer (IScheduledTaskItem.schedule item)) (fun s =>
      okAnd (s.getNextOccurrenceFrom ⟨now, .utc⟩) fun _ => true) = true) :
    Good comparer (stoppedClock now) item := by
  obtain ⟨schedule, hparse, hnext⟩ := exists_of_okAnd hcheck
  obtain ⟨r, hr, -⟩ := exists_of_okAnd hnext
  exact ⟨schedule, hparse, fun _ => CrontabSchedule.getNextOccurrenceFrom_ok_iff.1 ⟨r, hr⟩⟩

def hourlyCheck : HealthCheckResourceV1 := ⟨"a", "hourly", "default", some "30 * * * *"⟩

def dailyCheck : HealthCheckResourceV1 := ⟨"b", "daily", "default", some "0 8 * * 1-5"⟩

def checkKey (uid : String) : String := if uid = "a" then "hourly.default" else "daily.default"

def newYear : Clock := stoppedClock (DateTime.utcDate 2022 1 1).moment

theorem good_hourlyCheck : Good .ascii newYear hourlyCheck := good_of_check (by decide +kernel)

/-- The hourly check has run once when a daily one is added: it keeps its run times. -/
theorem sync_exact_two_checks : ∃ (s s' : SchedulerRepository HealthCheckResourceV1),
    SchedulerRepository.sync .ascii newYear (some [hourlyCheck, dailyCheck]) s = .ok () s' ∧
      (s'.tasks.map ScheduledTask.uid).Perm ["a", "b"] ∧
      ∃ t ∈ s'.tasks, t.task = hourlyCheck ∧ ∃ t₀ ∈ s.tasks, t₀.uid = "a" ∧
        t.lastRunTime = t₀.lastRunTime ∧ t.nextRunTime = t₀.nextRunTime := by
  have hgood : Good .ascii newYear dailyCheck := good_of_check (by decide +kernel)
  have hrun : Run .ascii newYear checkKey [hourlyCheck] _ :=
    .increment 0 (.sync .start ⟨by decide, by decide, by decide⟩ (by simpa using good_hourlyCheck))
  obtain ⟨s', hs', hperm, htasks⟩ := sync_exact hrun
    (show ItemsOk checkKey [hourlyCheck, dailyCheck] from ⟨by decide, by decide, by decide⟩)
    (by simpa using ⟨good_hourlyCheck, hgood⟩)
  obtain ⟨t, ht, -, htask, -, hkeep, -⟩ := htasks hourlyCheck (by simp)
  exact ⟨_, s', hs', hperm, t, ht, htask, hkeep hourlyCheck (by simp) rfl rfl⟩

/-! ## With bad items in the list -/

/-- `p` is where a list splits if nothing before it is `x` and `x` is not reached before `p`. -/
theorem split_eq {α : Type} {done rest before after : List α} {x p : α}
    (h : done ++ x :: rest = before ++ p :: after) (hx : x ∉ before) (hp : p ∉ done) :
    done = before ∧ x = p ∧ rest = after := by
  rcases List.append_eq_append_iff.1 h with ⟨m, rfl, h'⟩ | ⟨m, rfl, h'⟩
  · cases m with
    | nil =>
      rw [List.nil_append, List.cons.injEq] at h'
      exact ⟨(List.append_nil _).symm, h'.1, h'.2⟩
    | cons y m =>
      rw [List.cons_append, List.cons.injEq] at h'
      exact absurd (by simp [h'.1]) hx
  · cases m with
    | nil =>
      rw [List.nil_append, List.cons.injEq] at h'
      exact ⟨List.append_nil _, h'.1.symm, h'.2.symm⟩
    | cons y m =>
      rw [List.cons_append, List.cons.injEq] at h'
      exact absurd (by simp [h'.1]) hp

/-- The order in which `Sync` deals with the items. -/
def syncOrder (items : List T) (s : SchedulerRepository T) : List T :=
  s.itemsToAdd items ++ s.itemsToUpdate items

/-- The list shows what the items of `done` ask for. -/
def Done (comparer : CompareInfo) (p : T) (s : SchedulerRepository T) : Prop :=
  ∃ t ∈ s.tasks, t.uid = IScheduledTaskItem.uid p ∧ t.task = p ∧
    CrontabSchedule.parse comparer (IScheduledTaskItem.schedule p) = .ok t.schedule

theorem Progress.done {added updated : List T} {swept : Bool}
    (h : Progress comparer clock items s added updated swept s')
    (hs : Consistent comparer keyOf s) (hitems : ItemsOk keyOf items)
    (hupdated : updated ⊆ s.itemsToUpdate items) {p : T} (hp : p ∈ added ++ updated) :
    Done comparer p s' := by
  rcases List.mem_append.1 hp with hp | hp
  · obtain ⟨t, ht, hf⟩ := h.fresh p hp
    exact ⟨t, ht, hf.uid, hf.task, hf.schedule⟩
  · obtain ⟨t₀, ht₀, huid, t, ht, hren⟩ := h.renewed_of_mem hitems hupdated hp
    exact ⟨t, ht, hren.fits huid (hs.owned t₀ ht₀).schedule⟩

/-- Tasks that neither an added nor an updated item concerns are as before. -/
theorem Progress.untouched {added updated : List T} {swept : Bool}
    (h : Progress comparer clock items s added updated swept s') (hd : s'.Distinct)
    {q : T} (hq : q ∈ items)
    (hadded : ∀ p ∈ added, IScheduledTaskItem.uid p ≠ IScheduledTaskItem.uid q)
    (hupdated : ∀ p ∈ updated, IScheduledTaskItem.uid p ≠ IScheduledTaskItem.uid q)
    {t : ScheduledTask T} (huid : t.uid = IScheduledTaskItem.uid q) :
    t ∈ s'.tasks ↔ t ∈ s.tasks := by
  constructor
  · intro ht
    rcases h.mem hd ht with ⟨p, hp, hf⟩ | ⟨t₀, ht₀, -, hh⟩
    · exact absurd (hf.uid.symm.trans huid) (hadded p hp)
    · rcases hh with ⟨p, hp, hpuid, hren⟩ | ⟨-, rfl⟩
      · have hhandled : Handled comparer clock s.clockReads s'.clockReads updated t₀ t :=
          Or.inl ⟨p, hp, hpuid, hren⟩
        exact absurd (hpuid.trans (hhandled.uid.symm.trans huid)) (hupdated p hp)
      · exact ht₀
  · intro ht
    obtain ⟨r, hr, hread⟩ := mem_tasks.1 ht
    obtain ⟨r', hr', t', ht', hh, -⟩ := h.known r hr t hread
      fun _ => wanted_iff.2 ⟨q, hq, huid.symm⟩
    rcases hh with ⟨p, hp, hpuid, -⟩ | ⟨-, rfl⟩
    · exact absurd (hpuid.trans huid) (hupdated p hp)
    · exact mem_tasks.2 ⟨r', hr', ht'⟩

/-- How far a call has come that may have been stopped: up to `p`, which was tried last if the
call threw. -/
theorem sync_progress (clock : Clock) (hs : Consistent comparer keyOf s)
    (hitems : ItemsOk keyOf items) :
    (∃ s', SchedulerRepository.sync comparer clock (some items) s = .ok () s' ∧
      Progress comparer clock items s (s.itemsToAdd items) (s.itemsToUpdate items) true s') ∨
    ∃ e s' done p rest added updated swept,
      SchedulerRepository.sync comparer clock (some items) s = .error e s' ∧
      s.syncOrder items = done ++ p :: rest ∧ ¬ Good comparer clock p ∧
      Progress comparer clock items s added updated swept s' ∧
      added.Sublist (s.itemsToAdd items) ∧ updated ⊆ s.itemsToUpdate items ∧
      (added ++ updated = done ∨ added ++ updated = done ++ [p]) ∧
      (swept = true ∨ p ∈ s.itemsToAdd items) := by
  have hend := sync_spec clock hs hitems
  cases hr : SchedulerRepository.sync comparer clock (some items) s with
  | ok u s' =>
    rw [hr] at hend
    exact Or.inl ⟨s', rfl, hend⟩
  | error e s' =>
    rw [hr] at hend
    apply Or.inr
    rcases hend with ⟨done, p, rest, heq, hbad, hp⟩ | ⟨done, p, rest, heq, hbad, hp⟩
    · have horder : s.syncOrder items = done ++ p :: (rest ++ s.itemsToUpdate items) := by
        rw [syncOrder, heq, List.append_assoc, List.cons_append]
      have hmem : p ∈ s.itemsToAdd items := by rw [heq]; simp
      rcases hp with hp | hp
      · exact ⟨e, s', done, p, _, done, [], false, rfl, horder, hbad, hp,
          heq ▸ List.sublist_append_left _ _, List.nil_subset _, Or.inl (List.append_nil _),
          Or.inr hmem⟩
      · exact ⟨e, s', done, p, _, done ++ [p], [], false, rfl, horder, hbad, hp,
          by rw [heq]; simp, List.nil_subset _, Or.inr (List.append_nil _), Or.inr hmem⟩
    · have horder : s.syncOrder items = (s.itemsToAdd items ++ done) ++ p :: rest := by
        rw [syncOrder, heq, List.append_assoc]
      rcases hp with hp | hp
      · exact ⟨e, s', _, p, _, _, done, true, rfl, horder, hbad, hp, List.Sublist.refl _,
          heq ▸ List.subset_append_left _ _, Or.inl rfl, Or.inl rfl⟩
      · exact ⟨e, s', _, p, _, _, done ++ [p], true, rfl, horder, hbad, hp, List.Sublist.refl _,
          by rw [heq]; simp, Or.inr (List.append_assoc _ _ _).symm, Or.inl rfl⟩

/-- The items dealt with are distinct. -/
theorem syncOrder_uids (hitems : ItemsOk keyOf items) {before after : List T} {p q : T}
    (horder : s.syncOrder items = before ++ p :: after) (hq : q ∈ after) :
    ∀ x ∈ before ++ [p], IScheduledTaskItem.uid x ≠ IScheduledTaskItem.uid q := by
  have hnodup : ((s.syncOrder items).map IScheduledTaskItem.uid).Nodup := by
    rw [syncOrder, List.map_append, List.nodup_append]
    refine ⟨hitems.uids.sublist (List.filter_sublist.map _),
      hitems.uids.sublist (List.filter_sublist.map _), ?_⟩
    intro u hu v hv heq
    obtain ⟨x, hx, rfl⟩ := List.mem_map.1 hu
    obtain ⟨y, hy, rfl⟩ := List.mem_map.1 hv
    obtain ⟨hxi, hxk⟩ := mem_itemsToAdd.1 hx
    obtain ⟨hyi, hyk⟩ := mem_itemsToUpdate.1 hy
    rw [hitems.eq_of_uid hxi hyi heq, hyk] at hxk
    cases hxk
  rw [horder, show before ++ p :: after = (before ++ [p]) ++ after by simp, List.map_append,
    List.nodup_append] at hnodup
  exact fun x hx => hnodup.2.2 _ (List.mem_map_of_mem hx) _ (List.mem_map_of_mem hq)

theorem mem_of_syncOrder {p : T} (h : p ∈ s.syncOrder items) : p ∈ items :=
  (List.mem_append.1 h).elim (fun h => (mem_itemsToAdd.1 h).1) fun h => (mem_itemsToUpdate.1 h).1

theorem mem_syncOrder {p : T} (h : p ∈ items) : p ∈ s.syncOrder items := by
  unfold syncOrder
  rw [List.mem_append, mem_itemsToAdd, mem_itemsToUpdate]
  cases s.known p <;> simp [h]

/-- A good item with only good ones before it is done, wherever the call stops. -/
theorem done_of_good_before (hs : Consistent comparer keyOf s) (hitems : ItemsOk keyOf items)
    (hend : finalState (SchedulerRepository.sync comparer clock (some items) s) = s')
    {before after : List T} {p : T} (horder : s.syncOrder items = before ++ p :: after)
    (hbefore : ∀ q ∈ before, Good comparer clock q) (hgood : Good comparer clock p) :
    Done comparer p s' := by
  rcases sync_progress clock hs hitems with ⟨s'', hrun, hp⟩ |
    ⟨e, s'', done, x, rest, added, updated, swept, hrun, hstop, hbad, hp, hadded, hupdated, hdone,
      hswept⟩
  · rw [hrun] at hend
    cases hend
    exact hp.done hs hitems (List.Subset.refl _)
      (mem_syncOrder (mem_of_syncOrder (s := s) (by rw [horder]; simp)))
  · rw [hrun] at hend
    cases hend
    by_contra hnot
    obtain ⟨-, rfl, -⟩ := split_eq (hstop.symm.trans horder) (fun hx => hbad (hbefore x hx)) (by
      intro hpd
      refine hnot (hp.done hs hitems hupdated ?_)
      rcases hdone with h | h <;> rw [h] <;> simp [hpd])
    exact hbad hgood

/-- A call that returns has done every item, and the list has no other tasks. -/
theorem done_of_returned (hs : Consistent comparer keyOf s) (hitems : ItemsOk keyOf items)
    (hrun : SchedulerRepository.sync comparer clock (some items) s = .ok () s') :
    (∀ p ∈ items, Done comparer p s') ∧ ∀ t ∈ s'.tasks, t.task ∈ items := by
  have hend := sync_spec clock hs hitems
  rw [hrun] at hend
  exact ⟨fun p hp => Progress.done hend hs hitems (List.Subset.refl _) (mem_syncOrder hp),
    (Progress.mirrors hend hs.toDistinct hitems).tasks⟩

/-- **`Sync` stops at the first item that fails.**  In processing order (new items, then known
ones), every good item with only good ones before it is done; if no new item fails, the tasks no
item asks for are gone; if no item fails, the call returns; an item whose schedule text is rejected
makes it throw, with the items behind it left as they were. -/
theorem sync_stops_at_first_failure (hs : Reachable comparer clock keyOf s)
    (hitems : ItemsOk keyOf items)
    (hend : finalState (SchedulerRepository.sync comparer clock (some items) s) = s') :
    (∀ before p after, s.syncOrder items = before ++ p :: after →
      (∀ q ∈ before, Good comparer clock q) → Good comparer clock p → Done comparer p s') ∧
    ((∀ q ∈ s.itemsToAdd items, Good comparer clock q) →
      ∀ t ∈ s'.tasks, ∃ q ∈ items, IScheduledTaskItem.uid q = t.uid) ∧
    ((∀ q ∈ items, Good comparer clock q) →
      SchedulerRepository.sync comparer clock (some items) s = .ok () s') ∧
    (∀ before p after, s.syncOrder items = before ++ p :: after →
      (∀ q ∈ before, Good comparer clock q) →
      (∀ schedule, CrontabSchedule.parse comparer (IScheduledTaskItem.schedule p) ≠ .ok schedule) →
      (∃ e, SchedulerRepository.sync comparer clock (some items) s = .error e s') ∧
      ∀ q ∈ after, ∀ t, t.uid = IScheduledTaskItem.uid q → (t ∈ s'.tasks ↔ t ∈ s.tasks)) := by
  have hcons := hs.consistent
  have hfirst : ∀ before p after, s.syncOrder items = before ++ p :: after →
      (∀ q ∈ before, Good comparer clock q) → Good comparer clock p → Done comparer p s' :=
    fun _ _ _ horder hbefore hgood => done_of_good_before hcons hitems hend horder hbefore hgood
  rcases sync_progress clock hcons hitems with ⟨s'', hrun, hp⟩ |
    ⟨e, s'', done, x, rest, added, updated, swept, hrun, horder, hbad, hp, hadded, hupdated, hdone,
      hswept⟩
  · -- the call has come to the end
    rw [hrun] at hend
    obtain rfl : s'' = s' := hend
    have hall : ∀ p ∈ items, Done comparer p s'' := fun p hpi =>
      hp.done hcons hitems (List.Subset.refl _) (mem_syncOrder hpi)
    refine ⟨hfirst, fun _ t ht => ?_, fun _ => hrun, fun before p after ho _ hrej => ?_⟩
    · have hu := (hp.uids_perm hcons.toDistinct hitems).subset (List.mem_map_of_mem ht)
      obtain ⟨q, hq, heq⟩ := List.mem_map.1 hu
      exact ⟨q, hq, heq⟩
    · obtain ⟨t, -, -, -, hparse⟩ := hall p (mem_of_syncOrder (s := s) (by rw [ho]; simp))
      exact absurd hparse (hrej _)
  · -- the call has stopped at `x`
    rw [hrun] at hend
    obtain rfl : s'' = s' := hend
    have hd := hp.distinct_of_items hcons.toDistinct hitems hadded
    have hdone_of : ∀ p ∈ done, Done comparer p s'' := by
      intro p hpd
      apply hp.done hcons hitems hupdated
      rcases hdone with h | h <;> rw [h] <;> simp [hpd]
    refine ⟨hfirst, fun hnew t ht => ?_, fun hgood => ?_, fun before p after ho hbefore hrej => ?_⟩
    · rcases hswept with rfl | hx
      · rcases hp.mem hd ht with ⟨q, hq, hf⟩ | ⟨t₀, -, hwant, hh⟩
        · exact ⟨q, (mem_itemsToAdd.1 (hadded.subset hq)).1, hf.uid.symm⟩
        · obtain ⟨q, hq, huid⟩ := wanted_iff.1 (hwant rfl)
          exact ⟨q, hq, huid.trans hh.uid.symm⟩
      · exact absurd (hnew x hx) hbad
    · exact absurd (hgood x (mem_of_syncOrder (s := s) (by rw [horder]; simp))) hbad
    · refine ⟨⟨e, hrun⟩, fun q hq t huid => ?_⟩
      obtain ⟨hdb, rfl, -⟩ := split_eq (horder.symm.trans ho) (fun hx => hbad (hbefore x hx))
        fun hpd => (hdone_of p hpd).elim fun t ht => hrej _ ht.2.2.2
      have hother := syncOrder_uids hitems ho hq
      have hsub : ∀ y ∈ added ++ updated, y ∈ before ++ [x] := by
        intro y hy
        rcases hdone with h | h
        · rw [h, hdb] at hy
          exact List.mem_append_left _ hy
        · rwa [h, hdb] at hy
      exact hp.untouched hd (mem_of_syncOrder (s := s) (by rw [ho]; simp [hq]))
        (fun y hy => hother y (hsub y (List.mem_append_left _ hy)))
        (fun y hy => hother y (hsub y (List.mem_append_right _ hy))) huid

def typoCheck : HealthCheckResourceV1 := ⟨"b", "daily", "default", some "0 8 * * 1-5 *"⟩

/-- With the typo first in the list, the good item behind it never gets a task. -/
theorem sync_not_isolated :
    Good .ascii newYear hourlyCheck ∧
    ItemsOk checkKey [typoCheck, hourlyCheck] ∧
    ¬ ∃ t ∈ (finalState (SchedulerRepository.sync .ascii newYear
      (some [typoCheck, hourlyCheck]) .empty)).tasks, t.task = hourlyCheck := by
  refine ⟨good_hourlyCheck, ⟨by decide, by decide, by decide⟩, ?_⟩
  have hnone : (finalState (SchedulerRepository.sync .ascii newYear
      (some [typoCheck, hourlyCheck]) .empty)).tasks.isEmpty = true := by decide +kernel
  rw [List.isEmpty_iff.1 hnone]
  rintro ⟨t, ht, -⟩
  cases ht

/-- The same two items in the other order: the good one is done. -/
theorem sync_stops_at_first_failure_typo :
    Done .ascii hourlyCheck (finalState (SchedulerRepository.sync .ascii newYear
      (some [hourlyCheck, typoCheck]) .empty)) :=
  (sync_stops_at_first_failure (.start : Reachable .ascii newYear checkKey _)
    (show ItemsOk checkKey [hourlyCheck, typoCheck] from ⟨by decide, by decide, by decide⟩)
    rfl).1 [] hourlyCheck [typoCheck] rfl (by simp) good_hourlyCheck

end Sentinel.SchedulerRepository
