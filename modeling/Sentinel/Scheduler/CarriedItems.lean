import Sentinel.Scheduler.CatchUp

/-!
# Where the published items come from

* `sync_items` — a `Sync` gives the task objects items of its list only, whether it returns or
  throws.
* `Carried.step` — so what is published was in the item list of a `Sync`.
-/

set_option autoImplicit false

namespace Sentinel

open Throwing

namespace SchedulerRepository

variable {T : Type} {P : T → Prop} {s : SchedulerRepository T}

/-- Every task object, in the list or not, carries an item that satisfies `P`. -/
def AllItems (P : T → Prop) (s : SchedulerRepository T) : Prop := s.heap.Forall fun t => P t.task

/-- The items stay as `P` says. -/
def KeepsItems (P : T → Prop) (s s' : SchedulerRepository T) : Prop := AllItems P s → AllItems P s'

theorem KeepsItems.refl (s : SchedulerRepository T) : KeepsItems P s s := id

theorem KeepsItems.trans (a b c : SchedulerRepository T) (hab : KeepsItems P a b)
    (hbc : KeepsItems P b c) : KeepsItems P a c := fun h => hbc (hab h)

theorem keepsItems_setTaskAt (i : ℕ) {item : T} (hitem : P item) :
    KeepsItems P s (s.setTaskAt i item) := by
  intro hs
  unfold setTaskAt
  cases s.scheduledTasks[i]? with
  | none => exact hs
  | some r =>
    simp only
    cases s.heap.read r with
    | none => exact hs
    | some t => exact Heap.Forall.write (v := { t with task := item }) hs hitem

theorem keepsItems_alloc {s' : SchedulerRepository T} {t : ScheduledTask T} (ht : P t.task)
    (hheap : s'.heap = s.heap.alloc t) : KeepsItems P s s' := by
  intro hs
  unfold AllItems
  rw [hheap]
  exact Heap.Forall.alloc hs ht

variable [IScheduledTaskItem T] {comparer : CompareInfo} {clock : Clock}

omit [IScheduledTaskItem T] in
theorem utcNow_items : Respects (KeepsItems P)
    (utcNow clock : EStateM Exn (SchedulerRepository T) DateTime) :=
  fun _ hs => hs

theorem add_items {item : T} (hitem : P item) :
    Respects (KeepsItems P) (add comparer clock item) := by
  unfold add
  refine utcNow_items.bind KeepsItems.trans fun referenceTime => ?_
  refine Respects.ofExcept_bind KeepsItems.refl fun t hnew => ?_
  obtain ⟨-, rfl, -⟩ := ScheduledTask.new_spec hnew
  refine (Respects.modify fun s => keepsItems_alloc hitem rfl).bind KeepsItems.trans fun _ => ?_
  exact (Respects.ofExcept KeepsItems.refl _).bind KeepsItems.trans fun _ =>
    Respects.pure KeepsItems.refl ()

theorem updateTask_items {item : T} (hitem : P item) :
    Respects (KeepsItems P) (updateTask clock item) := by
  unfold updateTask
  refine utcNow_items.bind KeepsItems.trans fun referenceTime => ?_
  refine (Respects.get KeepsItems.refl).bind KeepsItems.trans fun s => ?_
  split
  · exact Respects.pure KeepsItems.refl ()
  · split
    · exact Respects.pure KeepsItems.refl ()
    · refine (Respects.modify fun s => keepsItems_setTaskAt _ hitem).bind KeepsItems.trans
        fun _ => ?_
      split
      · exact (Respects.throw KeepsItems.refl _).bind KeepsItems.trans fun _ =>
          (Respects.ofExcept KeepsItems.refl _).bind KeepsItems.trans fun _ =>
            Respects.pure KeepsItems.refl ()
      · exact (Respects.ofExcept KeepsItems.refl _).bind KeepsItems.trans fun _ =>
          Respects.pure KeepsItems.refl ()

theorem updateSchedulerRepository_items {item : T} (hitem : P item) :
    Respects (KeepsItems P) (updateSchedulerRepository comparer clock item) := by
  unfold updateSchedulerRepository
  refine utcNow_items.bind KeepsItems.trans fun _ => ?_
  refine utcNow_items.bind KeepsItems.trans fun referenceTime => ?_
  refine Respects.ofExcept_bind KeepsItems.refl fun t hnew => ?_
  obtain ⟨-, rfl, -⟩ := ScheduledTask.new_spec hnew
  refine (Respects.get KeepsItems.refl).bind KeepsItems.trans fun s => ?_
  split
  · exact Respects.pure KeepsItems.refl ()
  · split
    · exact (Respects.ofExcept KeepsItems.refl _).bind KeepsItems.trans fun _ =>
        Respects.pure KeepsItems.refl ()
    · refine (Respects.modify fun s => keepsItems_alloc hitem rfl).bind KeepsItems.trans
        fun _ => ?_
      exact (Respects.ofExcept KeepsItems.refl _).bind KeepsItems.trans fun _ =>
        Respects.pure KeepsItems.refl ()

theorem update_items {item : T} (hitem : P item) :
    Respects (KeepsItems P) (update comparer clock item) := by
  unfold update
  refine (Respects.get KeepsItems.refl).bind KeepsItems.trans fun s => ?_
  split
  · exact updateSchedulerRepository_items hitem
  · exact updateTask_items hitem

omit [IScheduledTaskItem T] in
theorem remove_items (r : Ref) : Respects (KeepsItems P)
    (modify fun s => s.remove r : EStateM Exn (SchedulerRepository T) Unit) :=
  Respects.modify fun _ hs => hs

/-- **A `Sync` brings in items of its list only.** -/
theorem sync_items (comparer : CompareInfo) (clock : Clock) {items : Option (List T)}
    (hitems : ∀ p ∈ items.getD [], P p) : Respects (KeepsItems P) (sync comparer clock items) := by
  unfold sync
  cases items with
  | none => exact Respects.pure KeepsItems.refl ()
  | some items =>
    refine (Respects.get KeepsItems.refl).bind KeepsItems.trans fun s => ?_
    have hadd : ∀ p ∈ s.itemsToAdd items, P p := fun p hp => hitems p (List.mem_filter.1 hp).1
    have hupdate : ∀ p ∈ s.itemsToUpdate items, P p :=
      fun p hp => hitems p (List.mem_filter.1 hp).1
    refine (Respects.forM_of_mem KeepsItems.refl KeepsItems.trans fun p hp =>
      add_items (hadd p hp)).bind KeepsItems.trans fun _ => ?_
    refine (Respects.forM KeepsItems.refl KeepsItems.trans remove_items _).bind KeepsItems.trans
      fun _ => ?_
    exact Respects.forM_of_mem KeepsItems.refl KeepsItems.trans fun p hp =>
      update_items (hupdate p hp)

end SchedulerRepository

namespace BusScheduler

open Runs

variable {T : Type} [IScheduledTaskItem T] {comparer : CompareInfo} {clock : Clock}
  {machine : MachineZone} {P : T → Prop} {w w' : World T} {a : Action T}

/-- The task objects carry items that satisfy `P`, and such items have been published. -/
structure Carried (P : T → Prop) (w : World T) : Prop where
  carried : w.heap.Forall fun t => P t.task
  published : ∀ m ∈ w.published, P m.item

/-- The item list of a `Sync` has items that satisfy `P`. -/
def Action.Brings (P : T → Prop) : Action T → Prop
  | .sync _ items => ∀ p ∈ items.getD [], P p
  | _ => True

/-- **Only what was in an item list is published.** -/
theorem Carried.step (h : Carried P w) (ha : a.Brings P)
    (hstep : BusScheduler.step comparer clock machine w a = some w') : Carried P w' := by
  rcases step_inv hstep with ⟨i, items, s, rfl, hs, rfl⟩ | ⟨rfl, -, rfl⟩ |
    ⟨now, zone, tasks, rfl, -, rfl⟩ | ⟨rfl, -, rfl⟩ | ⟨r, rest, t, rfl, -, ht, hcase⟩
  · obtain ⟨-, hheap, -⟩ := World.repository_eq hs
    refine ⟨SchedulerRepository.sync_items comparer clock ha s ?_, h.published⟩
    unfold SchedulerRepository.AllItems
    rw [hheap]
    exact h.carried
  · exact ⟨h.carried, h.published⟩
  · exact ⟨h.carried, h.published⟩
  · exact ⟨h.carried, h.published⟩
  · have htask : ∀ t', finalState t.increment = t' → P t'.task := by
      rintro _ rfl
      rw [t.increment_keeps.2.2]
      exact h.carried r t ht
    rcases hcase with ⟨t', hinc, rfl⟩ | ⟨e, t', hinc, rfl⟩
    · have hitem := htask t' (by rw [hinc]; rfl)
      refine ⟨h.carried.write hitem, fun m hm => ?_⟩
      rcases List.mem_append.1 hm with hm | hm
      · exact h.published m hm
      · rw [List.mem_singleton.1 hm]
        exact hitem
    · exact ⟨h.carried.write (htask t' (by rw [hinc]; rfl)), h.published⟩

end BusScheduler

end Sentinel
