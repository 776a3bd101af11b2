import Sentinel.Scheduler.SyncResults

/-!
# What `Sync` leaves alone

Whatever the item list, and whether it returns or throws, `Sync` changes no run time, no schedule
and no Uid of an existing task object, and touches no object outside its own list.

* `sync_carries` — this, together with where the new objects come from.
* `sync_keeps_task` — a `Sync` whose item list keeps a task's schedule text keeps the task object
  in the list.
-/

set_option autoImplicit false

namespace Sentinel.SchedulerRepository

open Throwing

variable {T : Type}

/-- The same task object, up to its item. -/
structure SameRun (t t' : ScheduledTask T) : Prop where
  uid : t'.uid = t.uid
  schedule : t'.schedule = t.schedule
  lastRunTime : t'.lastRunTime = t.lastRunTime
  nextRunTime : t'.nextRunTime = t.nextRunTime

theorem SameRun.refl (t : ScheduledTask T) : SameRun t t := ⟨rfl, rfl, rfl, rfl⟩

theorem SameRun.trans (a b c : ScheduledTask T) (hab : SameRun a b) (hbc : SameRun b c) :
    SameRun a c :=
  ⟨hbc.uid.trans hab.uid, hbc.schedule.trans hab.schedule, hbc.lastRunTime.trans hab.lastRunTime,
    hbc.nextRunTime.trans hab.nextRunTime⟩

/-- Old objects keep their run times, new ones are due at a clock reading in between; objects
outside the list are untouched and do not enter it. -/
structure Carries (clock : Clock) (s s' : SchedulerRepository T) : Prop where
  reads : s.clockReads ≤ s'.clockReads
  kept : s.heap.Evolves SameRun s'.heap
  fresh : ∀ r t, s.heap.read r = none → s'.heap.read r = some t →
    t.lastRunTime = .minValue ∧
      ∃ n, s.clockReads ≤ n ∧ n < s'.clockReads ∧ t.nextRunTime = clock.reading n
  outside : ∀ r ∉ s.scheduledTasks, ∀ t, s.heap.read r = some t → s'.heap.read r = some t
  refs : ∀ r ∈ s'.scheduledTasks, r ∈ s.scheduledTasks ∨ s.heap.read r = none

variable {clock : Clock} {s s' : SchedulerRepository T}

theorem Carries.refl (s : SchedulerRepository T) : Carries clock s s :=
  ⟨le_rfl, Heap.Evolves.refl SameRun.refl s.heap,
    fun _ _ hnone ht => absurd (hnone.symm.trans ht) (by simp), fun _ _ _ ht => ht,
    fun _ hr => Or.inl hr⟩

theorem Carries.trans (a b c : SchedulerRepository T) (hab : Carries clock a b)
    (hbc : Carries clock b c) : Carries clock a c := by
  refine ⟨hab.reads.trans hbc.reads, hab.kept.trans SameRun.trans hbc.kept, ?_, ?_, ?_⟩
  · intro r t hnone ht
    cases hb : b.heap.read r with
    | none =>
      obtain ⟨hlast, n, hn, hn', hnext⟩ := hbc.fresh r t hb ht
      exact ⟨hlast, n, hab.reads.trans hn, hn', hnext⟩
    | some t' =>
      obtain ⟨hlast, n, hn, hn', hnext⟩ := hab.fresh r t' hnone hb
      obtain ⟨t'', ht'', hsame⟩ := hbc.kept r t' hb
      cases ht.symm.trans ht''
      exact ⟨hsame.lastRunTime.trans hlast, n, hn, hn'.trans_le hbc.reads,
        hsame.nextRunTime.trans hnext⟩
  · intro r hr t ht
    have hb := hab.outside r hr t ht
    refine hbc.outside r (fun hrb => ?_) t hb
    rcases hab.refs r hrb with h | h
    · exact hr h
    · rw [h] at ht
      cases ht
  · intro r hr
    rcases hbc.refs r hr with h | h
    · exact hab.refs r h
    · cases ha : a.heap.read r with
      | none => exact Or.inr rfl
      | some t =>
        obtain ⟨t', ht', -⟩ := hab.kept r t ha
        rw [h] at ht'
        cases ht'

/-! ## The primitives -/

theorem Carries.tick (s : SchedulerRepository T) : Carries clock s s.tick :=
  ⟨Nat.le_succ _, Heap.Evolves.refl SameRun.refl s.heap,
    fun _ _ hnone ht => absurd (hnone.symm.trans ht) (by simp), fun _ _ _ ht => ht,
    fun _ hr => Or.inl hr⟩

/-- Putting a fresh object somewhere into the list. -/
theorem Carries.alloc {t : ScheduledTask T} {rs : List Ref} {k : ℕ}
    (hlast : t.lastRunTime = .minValue)
    (hnext : ∃ n, s.clockReads ≤ n ∧ n < s.clockReads + k ∧ t.nextRunTime = clock.reading n)
    (hrs : ∀ r ∈ rs, r ∈ s.scheduledTasks ∨ r = s.heap.next) :
    Carries clock s
      { heap := s.heap.alloc t, scheduledTasks := rs, clockReads := s.clockReads + k } := by
  refine ⟨Nat.le_add_right _ _, Heap.Evolves.alloc SameRun.refl s.heap t, ?_, ?_, ?_⟩
  · intro r t' hnone ht'
    have hr : r = s.heap.next := by
      have hlt := Heap.lt_next_of_read ht'
      rw [Heap.next_alloc] at hlt
      by_contra hne
      have hlt' : r < s.heap.next := lt_of_le_of_ne (Nat.lt_succ_iff.1 hlt) hne
      rw [Heap.read_alloc_of_lt hlt', hnone] at ht'
      cases ht'
    rw [hr, Heap.read_alloc_next] at ht'
    cases ht'
    exact ⟨hlast, hnext⟩
  · intro r _ t' ht'
    exact (Heap.read_alloc_of_lt (Heap.lt_next_of_read ht')).trans ht'
  · intro r hr
    refine (hrs r hr).imp id fun h => ?_
    rw [h]
    exact List.getElem?_eq_none (le_refl _)

theorem Carries.setTaskAt (s : SchedulerRepository T) (i : ℕ) (item : T) :
    Carries clock s (s.setTaskAt i item) := by
  unfold SchedulerRepository.setTaskAt
  cases hi : s.scheduledTasks[i]? with
  | none => exact Carries.refl s
  | some r =>
    simp only
    cases hr : s.heap.read r with
    | none => exact Carries.refl s
    | some t =>
      refine ⟨le_rfl, Heap.Evolves.write SameRun.refl hr ⟨rfl, rfl, rfl, rfl⟩, ?_, ?_,
        fun _ hr => Or.inl hr⟩
      · intro r' t' hnone ht'
        simp only [Heap.read_write, hnone] at ht'
        split at ht' <;> cases ht'
      · intro r' hr' t' ht'
        have hne : r ≠ r' := by
          rintro rfl
          exact hr' (List.mem_of_getElem? hi)
        simp only [Heap.read_write, if_neg hne]
        exact ht'

variable [IScheduledTaskItem T] {comparer : CompareInfo}

theorem add_carries (item : T) : Respects (Carries clock) (add comparer clock item) := by
  intro s
  have hadd := add_spec comparer clock item s
  have happend : ∀ t, Fresh comparer clock s.clockReads (s.clockReads + 1) item t →
      Carries clock s (s.tick.append t) := fun t hf =>
    Carries.alloc hf.lastRunTime hf.nextRunTime fun r hr => by
      rcases List.mem_append.1 hr with hr | hr
      · exact Or.inl hr
      · exact Or.inr (List.mem_singleton.1 hr)
  cases hr : add comparer clock item s with
  | ok u s' =>
    rw [hr] at hadd
    obtain ⟨t, hf, rfl⟩ := hadd
    exact happend t hf
  | error e s' =>
    rw [hr] at hadd
    obtain ⟨-, rfl | ⟨t, hf, rfl⟩⟩ := hadd
    · exact Carries.tick s
    · exact happend t hf

omit [IScheduledTaskItem T] in
theorem utcNow_carries : Respects (Carries clock)
    (utcNow clock : EStateM Exn (SchedulerRepository T) DateTime) :=
  Carries.tick

theorem updateTask_carries (item : T) : Respects (Carries clock) (updateTask clock item) := by
  unfold updateTask
  refine utcNow_carries.bind Carries.trans fun referenceTime => ?_
  refine (Respects.get Carries.refl).bind Carries.trans fun s => ?_
  split
  · exact Respects.pure Carries.refl ()
  · split
    · exact Respects.pure Carries.refl ()
    · refine (Respects.modify fun s => Carries.setTaskAt s _ item).bind Carries.trans fun _ => ?_
      split
      · exact (Respects.throw Carries.refl _).bind Carries.trans fun _ =>
          (Respects.ofExcept Carries.refl _).bind Carries.trans fun _ =>
            Respects.pure Carries.refl ()
      · exact (Respects.ofExcept Carries.refl _).bind Carries.trans fun _ =>
          Respects.pure Carries.refl ()

theorem updateSchedulerRepository_carries (item : T) :
    Respects (Carries clock) (updateSchedulerRepository comparer clock item) := by
  intro s
  have hrun : finalState (updateSchedulerRepository comparer clock item s) = s.tick.tick ∨
      ∃ i t, Fresh comparer clock s.clockReads (s.clockReads + 2) item t ∧
        finalState (updateSchedulerRepository comparer clock item s) =
          s.tick.tick.replaceAt i t := by
    unfold updateSchedulerRepository
    rw [bind_ok (utcNow_apply clock s), bind_ok (utcNow_apply clock s.tick)]
    cases hnew : ScheduledTask.new comparer item (clock.reading s.tick.clockReads) with
    | error e => exact Or.inl rfl
    | ok t =>
      have hf := (fresh_of_new hnew).mono (Nat.le_succ s.clockReads) le_rfl
      rw [bind_ok (ofExcept_ok t _), bind_ok (get_apply _)]
      simp only
      generalize SchedulerRepository.firstOrDefault _ _ = found
      cases found with
      | none => exact Or.inl rfl
      | some found =>
        simp only
        cases s.tick.tick.scheduledTasks.idxOf? found.1 with
        | none =>
          apply Or.inl
          simp only [bind_apply]
          cases t.schedule.getNextOccurrenceFrom (clock.reading s.tick.clockReads) with
          | ok next => rfl
          | error e => rfl
        | some i =>
          refine Or.inr ⟨i, t, hf, ?_⟩
          simp only [bind_apply, modify_apply]
          cases t.schedule.getNextOccurrenceFrom (clock.reading s.tick.clockReads) with
          | ok next => rfl
          | error e => rfl
  rcases hrun with hrun | ⟨i, t, hf, hrun⟩
  · rw [hrun]
    exact Carries.trans _ _ _ (Carries.tick s) (Carries.tick s.tick)
  · rw [hrun]
    refine Carries.alloc hf.lastRunTime hf.nextRunTime fun r hr => ?_
    exact List.mem_or_eq_of_mem_set hr

theorem update_carries (item : T) : Respects (Carries clock) (update comparer clock item) := by
  unfold update
  refine (Respects.get Carries.refl).bind Carries.trans fun s => ?_
  split
  · exact updateSchedulerRepository_carries item
  · exact updateTask_carries item

omit [IScheduledTaskItem T] in
theorem remove_carries (r : Ref) : Respects (Carries clock)
    (modify fun s => s.remove r : EStateM Exn (SchedulerRepository T) Unit) :=
  Respects.modify fun s => ⟨le_rfl, Heap.Evolves.refl SameRun.refl s.heap,
    fun _ _ hnone ht => absurd (hnone.symm.trans ht) (by simp), fun _ _ _ ht => ht,
    fun _ hr => Or.inl (List.erase_subset hr)⟩

/-- **Every `Sync` carries the run times over**, whatever the item list. -/
theorem sync_carries (comparer : CompareInfo) (clock : Clock) (items : Option (List T)) :
    Respects (Carries clock) (SchedulerRepository.sync comparer clock items) := by
  unfold SchedulerRepository.sync
  cases items with
  | none => exact Respects.pure Carries.refl ()
  | some items =>
    refine (Respects.get Carries.refl).bind Carries.trans fun s => ?_
    refine (Respects.forM Carries.refl Carries.trans add_carries _).bind Carries.trans fun _ => ?_
    refine (Respects.forM Carries.refl Carries.trans remove_carries _).bind Carries.trans
      fun _ => ?_
    exact Respects.forM Carries.refl Carries.trans update_carries _

/-! ## Tasks that stay -/

/-- **A `Sync` whose item list keeps a task's schedule text keeps the task object in the list**,
whether it returns or throws. -/
theorem sync_keeps_task {keyOf : String → String} {items : List T}
    (hs : Consistent comparer keyOf s) (hitems : ItemsOk keyOf items) {r : Ref}
    {t : ScheduledTask T} (hr : r ∈ s.scheduledTasks) (ht : s.heap.read r = some t) {p : T}
    (hp : p ∈ items) (huid : IScheduledTaskItem.uid p = t.uid)
    (htext : IScheduledTaskItem.schedule p = IScheduledTaskItem.schedule t.task)
    (hend : finalState (SchedulerRepository.sync comparer clock (some items) s) = s') :
    r ∈ s'.scheduledTasks ∧ ∃ t', s'.heap.read r = some t' ∧ t'.uid = t.uid ∧
      IScheduledTaskItem.schedule t'.task = IScheduledTaskItem.schedule t.task := by
  have hstay : ∀ {added updated : List T} {swept : Bool},
      Progress comparer clock items s added updated swept s' → updated ⊆ items →
      r ∈ s'.scheduledTasks ∧ ∃ t', s'.heap.read r = some t' ∧ t'.uid = t.uid ∧
        IScheduledTaskItem.schedule t'.task = IScheduledTaskItem.schedule t.task := by
    intro added updated swept hpr hupdated
    obtain ⟨r', hr', t', ht', hh, hid⟩ := hpr.known r hr t ht
      fun _ => wanted_iff.2 ⟨p, hp, huid⟩
    have hsame : ∀ q ∈ updated, IScheduledTaskItem.uid q = t.uid →
        IScheduledTaskItem.schedule q = IScheduledTaskItem.schedule t.task := by
      intro q hq hquid
      rw [hitems.eq_of_uid (hupdated hq) hp (hquid.trans huid.symm)]
      exact htext
    obtain rfl := hid hsame
    refine ⟨hr', t', ht', hh.uid, ?_⟩
    rcases hh with ⟨q, hq, hquid, ⟨hne, -⟩ | ⟨-, rfl⟩⟩ | ⟨-, rfl⟩
    · exact absurd (hsame q hq hquid) hne
    · exact hsame q hq hquid
    · rfl
  have hup : s.itemsToUpdate items ⊆ items := fun q hq => (mem_itemsToUpdate.1 hq).1
  rcases sync_progress clock hs hitems with ⟨s'', hrun, hpr⟩ |
    ⟨e, s'', _, _, _, _, updated, _, hrun, -, -, hpr, -, hupdated, -⟩
  · rw [hrun] at hend
    cases hend
    exact hstay hpr hup
  · rw [hrun] at hend
    cases hend
    exact hstay hpr (List.Subset.trans hupdated hup)

end Sentinel.SchedulerRepository
