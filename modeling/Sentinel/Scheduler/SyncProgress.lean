import Sentinel.Scheduler.SyncSteps

/-!
# How far `Sync` has come

`Sync` adds the new items, removes the tasks no item asks for and updates the known items, in
this order, and stops where a step throws.

* `Progress` — the list after some of the items have been added and updated: nothing is lost,
  nothing is there twice.
* `sync_spec` — a `Sync` that returns has come to the end; one that throws has stopped at a bad
  item, with everything before it done.
* `Progress.consistent` — wherever it ends, every task fits its item.
-/

set_option autoImplicit false

namespace Sentinel.SchedulerRepository

open Throwing

variable {T : Type} [IScheduledTaskItem T] (comparer : CompareInfo) (clock : Clock)

/-! ## Item lists and repositories -/

/-- Distinct Uids, distinct Keys, and the Key each Uid goes with. -/
structure ItemsOk (keyOf : String → String) (items : List T) : Prop where
  uids : (items.map IScheduledTaskItem.uid).Nodup
  keys : (items.map IScheduledTaskItem.key).Nodup
  keyOf : ∀ p ∈ items, IScheduledTaskItem.key p = keyOf (IScheduledTaskItem.uid p)

/-- Distinct tasks, each of which fits its item. -/
structure Consistent (keyOf : String → String) (s : SchedulerRepository T) : Prop extends
    Distinct s where
  owned : ∀ t ∈ s.tasks, Owned comparer keyOf t

theorem ItemsOk.eq_of_uid {keyOf : String → String} {items : List T} (h : ItemsOk keyOf items)
    {p q : T} (hp : p ∈ items) (hq : q ∈ items)
    (heq : IScheduledTaskItem.uid p = IScheduledTaskItem.uid q) : p = q :=
  List.inj_on_of_nodup_map h.uids hp hq heq

theorem ItemsOk.eq_of_key {keyOf : String → String} {items : List T} (h : ItemsOk keyOf items)
    {p q : T} (hp : p ∈ items) (hq : q ∈ items)
    (heq : IScheduledTaskItem.key p = IScheduledTaskItem.key q) : p = q :=
  List.inj_on_of_nodup_map h.keys hp hq heq

omit [IScheduledTaskItem T] in
theorem Distinct.eq_of_uid {s : SchedulerRepository T} (h : s.Distinct) {t t' : ScheduledTask T}
    (ht : t ∈ s.tasks) (ht' : t' ∈ s.tasks) (heq : t.uid = t'.uid) : t = t' :=
  List.inj_on_of_nodup_map h.uids ht ht' heq

/-! ## Progress -/

/-- What the updates of the items `done` make of a task. -/
def Handled (lo hi : ℕ) (done : List T) (t t' : ScheduledTask T) : Prop :=
  (∃ p ∈ done, IScheduledTaskItem.uid p = t.uid ∧ Renewed comparer clock lo hi p t t') ∨
  ((∀ p ∈ done, IScheduledTaskItem.uid p ≠ t.uid) ∧ t' = t)

/-- From `s₀`, the items `added` have been added and the items `updated` updated; `swept` tells
whether the tasks no item asks for have been removed. -/
structure Progress (items : List T) (s₀ : SchedulerRepository T) (added updated : List T)
    (swept : Bool) (s : SchedulerRepository T) : Prop where
  reads : s₀.clockReads ≤ s.clockReads
  allocated : s.heap.AllocatedIn s.scheduledTasks
  uids : s.tasks.map ScheduledTask.uid =
    (s₀.tasks.filter fun t => !swept || wanted items t).map ScheduledTask.uid ++
      added.map IScheduledTaskItem.uid
  fresh : ∀ p ∈ added, ∃ t ∈ s.tasks, Fresh comparer clock s₀.clockReads s.clockReads p t
  known : ∀ r ∈ s₀.scheduledTasks, ∀ t, s₀.heap.read r = some t →
    (swept = true → wanted items t = true) → ∃ r' ∈ s.scheduledTasks, ∃ t',
      s.heap.read r' = some t' ∧ Handled comparer clock s₀.clockReads s.clockReads updated t t' ∧
      ((∀ p ∈ updated, IScheduledTaskItem.uid p = t.uid →
        IScheduledTaskItem.schedule p = IScheduledTaskItem.schedule t.task) → r' = r)

variable {comparer clock} {items : List T} {s₀ s : SchedulerRepository T} {keyOf : String → String}

theorem Handled.uid {lo hi : ℕ} {done : List T} {t t' : ScheduledTask T}
    (h : Handled comparer clock lo hi done t t') : t'.uid = t.uid := by
  rcases h with ⟨p, -, huid, ⟨-, hf⟩ | ⟨-, rfl⟩⟩ | ⟨-, rfl⟩
  · exact hf.uid.trans huid
  · rfl
  · rfl

theorem Handled.mono {lo hi hi' : ℕ} {done : List T} {t t' : ScheduledTask T}
    (h : Handled comparer clock lo hi done t t') (hhi : hi ≤ hi') :
    Handled comparer clock lo hi' done t t' :=
  h.imp (Exists.imp fun _ hp => ⟨hp.1, hp.2.1, hp.2.2.mono le_rfl hhi⟩) id

/-- An item that does not concern the task may be added to those dealt with. -/
theorem Handled.snoc {lo hi : ℕ} {done : List T} {t t' : ScheduledTask T} {p : T}
    (h : Handled comparer clock lo hi done t t') (hp : IScheduledTaskItem.uid p ≠ t.uid) :
    Handled comparer clock lo hi (done ++ [p]) t t' := by
  rcases h with ⟨q, hq, huid, hr⟩ | ⟨hnone, rfl⟩
  · exact Or.inl ⟨q, List.mem_append_left _ hq, huid, hr⟩
  · refine Or.inr ⟨fun q hq => ?_, rfl⟩
    rcases List.mem_append.1 hq with hq | hq
    · exact hnone q hq
    · rw [List.mem_singleton.1 hq]
      exact hp

theorem Handled.owned {lo hi : ℕ} {done : List T} {t t' : ScheduledTask T}
    (h : Handled comparer clock lo hi done t t') (ht : Owned comparer keyOf t)
    (hdone : ∀ p ∈ done, IScheduledTaskItem.key p = keyOf (IScheduledTaskItem.uid p)) :
    Owned comparer keyOf t' := by
  rcases h with ⟨p, hp, huid, hr⟩ | ⟨-, rfl⟩
  · obtain ⟨huid', htask, hparse⟩ := hr.fits huid.symm ht.schedule
    refine ⟨huid'.trans (by rw [htask]), ?_, by rw [htask]; exact hparse⟩
    rw [htask, huid', hdone p hp]
  · exact ht

/-- The tasks of a list in progress: new ones and what has become of old ones. -/
theorem Progress.mem {added updated : List T} {swept : Bool}
    (h : Progress comparer clock items s₀ added updated swept s) (hd : s.Distinct)
    {t' : ScheduledTask T} (ht' : t' ∈ s.tasks) :
    (∃ p ∈ added, Fresh comparer clock s₀.clockReads s.clockReads p t') ∨
    ∃ t ∈ s₀.tasks, (swept = true → wanted items t = true) ∧
      Handled comparer clock s₀.clockReads s.clockReads updated t t' := by
  have huid : t'.uid ∈ s.tasks.map ScheduledTask.uid := List.mem_map_of_mem ht'
  rw [h.uids, List.mem_append, List.mem_map, List.mem_map] at huid
  rcases huid with ⟨t, ht, heq⟩ | ⟨p, hp, heq⟩
  · obtain ⟨ht, hwant⟩ := List.mem_filter.1 ht
    have hwant : swept = true → wanted items t = true := by
      rintro rfl
      simpa using hwant
    obtain ⟨r, hr, hread⟩ := mem_tasks.1 ht
    obtain ⟨r'', hr'', t'', hread'', hh, -⟩ := h.known r hr t hread hwant
    have := hd.eq_of_uid ht' (mem_tasks.2 ⟨r'', hr'', hread''⟩) (heq.symm.trans hh.uid.symm)
    exact Or.inr ⟨t, ht, hwant, this ▸ hh⟩
  · obtain ⟨t'', ht'', hf⟩ := h.fresh p hp
    have := hd.eq_of_uid ht' ht'' (heq.symm.trans hf.uid.symm)
    exact Or.inl ⟨p, hp, this ▸ hf⟩

theorem Fresh.owned {lo hi : ℕ} {p : T} {t : ScheduledTask T}
    (h : Fresh comparer clock lo hi p t)
    (hp : IScheduledTaskItem.key p = keyOf (IScheduledTaskItem.uid p)) : Owned comparer keyOf t :=
  ⟨by rw [h.uid, h.task], by rw [h.task, h.uid, hp], by rw [h.task]; exact h.schedule⟩

/-- The Uids of a list in progress are distinct. -/
theorem Progress.distinct {added updated : List T} {swept : Bool}
    (h : Progress comparer clock items s₀ added updated swept s) (hs₀ : s₀.Distinct)
    (hadded : (added.map IScheduledTaskItem.uid).Nodup)
    (hnew : ∀ p ∈ added, s₀.known p = false) : s.Distinct := by
  refine ⟨h.allocated, ?_⟩
  rw [h.uids, List.nodup_append]
  refine ⟨hs₀.uids.sublist (List.filter_sublist.map _), hadded, ?_⟩
  intro u hu u' hu' heq
  obtain ⟨t, ht, rfl⟩ := List.mem_map.1 hu
  obtain ⟨p, hp, rfl⟩ := List.mem_map.1 hu'
  have hk : s₀.known p = true := known_iff.2 ⟨t, (List.mem_filter.1 ht).1, heq⟩
  rw [hnew p hp] at hk
  cases hk

/-- **Wherever `Sync` ends, every task fits its item.** -/
theorem Progress.consistent {added updated : List T} {swept : Bool}
    (h : Progress comparer clock items s₀ added updated swept s)
    (hs₀ : Consistent comparer keyOf s₀) (hd : s.Distinct)
    (hadded : ∀ p ∈ added, IScheduledTaskItem.key p = keyOf (IScheduledTaskItem.uid p))
    (hupdated : ∀ p ∈ updated, IScheduledTaskItem.key p = keyOf (IScheduledTaskItem.uid p)) :
    Consistent comparer keyOf s := by
  refine ⟨hd, fun t' ht' => ?_⟩
  rcases h.mem hd ht' with ⟨p, hp, hf⟩ | ⟨t, ht, -, hh⟩
  · exact hf.owned (hadded p hp)
  · exact hh.owned (hs₀.owned t ht) hupdated

/-! ## The first loop -/

variable (comparer clock)

/-- The items `done` have been appended to the list of `s₀`, whose objects are untouched. -/
structure Appended (s₀ : SchedulerRepository T) (done : List T) (s : SchedulerRepository T) :
    Prop where
  reads : s₀.clockReads ≤ s.clockReads
  heap : s₀.heap.Evolves Eq s.heap
  refs : ∃ rs, s.scheduledTasks = s₀.scheduledTasks ++ rs ∧
    List.Forall₂ (fun r p => s₀.heap.next ≤ r ∧ ∃ t, s.heap.read r = some t ∧
      Fresh comparer clock s₀.clockReads s.clockReads p t) rs done

variable {comparer clock}

theorem Appended.start (s : SchedulerRepository T) : Appended comparer clock s [] s :=
  ⟨le_rfl, Heap.Evolves.refl (fun _ => rfl) s.heap, [], (List.append_nil _).symm, .nil⟩

theorem Appended.tick {done : List T} (h : Appended comparer clock s₀ done s) :
    Appended comparer clock s₀ done s.tick := by
  obtain ⟨rs, hrs, hall⟩ := h.refs
  refine ⟨h.reads.trans (Nat.le_succ _), h.heap, rs, hrs, hall.imp ?_⟩
  rintro r p ⟨hr, t, ht, hf⟩
  exact ⟨hr, t, ht, hf.mono le_rfl (Nat.le_succ _)⟩

theorem Appended.snoc {done : List T} {p : T} {t : ScheduledTask T}
    (h : Appended comparer clock s₀ done s)
    (hf : Fresh comparer clock s.clockReads (s.clockReads + 1) p t) :
    Appended comparer clock s₀ (done ++ [p]) (s.tick.append t) := by
  obtain ⟨rs, hrs, hall⟩ := h.tick.refs
  refine ⟨h.tick.reads, Heap.Evolves.trans (R := Eq) (fun _ _ _ => Eq.trans) h.heap
    (Heap.Evolves.alloc (fun _ => rfl) s.heap t), rs ++ [s.heap.next], ?_, ?_⟩
  · simp only [append, SchedulerRepository.tick, ← List.append_assoc]
    rw [← hrs]
    rfl
  · refine List.rel_append (hall.imp ?_) (.cons ?_ .nil)
    · rintro r q ⟨hr, t', ht', hf'⟩
      exact ⟨hr, t', (Heap.read_alloc_of_lt (Heap.lt_next_of_read ht')).trans ht', hf'⟩
    · exact ⟨h.heap.next_le, t, Heap.read_alloc_next, hf.mono h.reads le_rfl⟩

theorem add_loop (comparer : CompareInfo) (clock : Clock) (s₀ : SchedulerRepository T)
    (items : List T) :
    Ends (fun _ s => Appended comparer clock s₀ items s)
      (fun _ s => ∃ done p rest, items = done ++ p :: rest ∧ ¬ Good comparer clock p ∧
        (Appended comparer clock s₀ done s ∨ Appended comparer clock s₀ (done ++ [p]) s))
      (items.forM (add comparer clock) s₀) := by
  refine Triple.forM (Appended comparer clock s₀) ?_ s₀ (Appended.start s₀)
  intro done p rest hitems s hs
  refine (add_spec comparer clock p s).mono ?_ ?_
  · rintro _ s' ⟨t, hf, rfl⟩
    exact hs.snoc hf
  · rintro _ s' ⟨hbad, hs'⟩
    refine ⟨done, p, rest, hitems, hbad, ?_⟩
    rcases hs' with rfl | ⟨t, hf, rfl⟩
    · exact Or.inl hs.tick
    · exact Or.inr (hs.snoc hf)

theorem Appended.readAll {done : List T} {rs : List Ref}
    (hall : List.Forall₂ (fun r p => s₀.heap.next ≤ r ∧ ∃ t, s.heap.read r = some t ∧
      Fresh comparer clock s₀.clockReads s.clockReads p t) rs done) :
    s.heap.AllocatedIn rs ∧
      (s.heap.readAll rs).map ScheduledTask.uid = done.map IScheduledTaskItem.uid ∧
      ∀ p ∈ done, ∃ r ∈ rs, ∃ t, s.heap.read r = some t ∧
        Fresh comparer clock s₀.clockReads s.clockReads p t := by
  induction hall with
  | nil => exact ⟨by simp [Heap.AllocatedIn], rfl, by simp⟩
  | @cons r p rs done hrp _ ih =>
    obtain ⟨-, t, ht, hf⟩ := hrp
    obtain ⟨halloc, huids, hfresh⟩ := ih
    refine ⟨?_, ?_, ?_⟩
    · intro r' hr'
      rcases List.mem_cons.1 hr' with rfl | hr'
      · exact ⟨t, ht⟩
      · exact halloc r' hr'
    · rw [Heap.readAll_cons ht, List.map_cons, List.map_cons, huids, hf.uid]
    · intro q hq
      rcases List.mem_cons.1 hq with rfl | hq
      · exact ⟨r, List.mem_cons_self, t, ht, hf⟩
      · obtain ⟨r', hr', ht'⟩ := hfresh q hq
        exact ⟨r', List.mem_cons_of_mem _ hr', ht'⟩

theorem Appended.tasks {done : List T} (h : Appended comparer clock s₀ done s)
    (hs₀ : s₀.heap.AllocatedIn s₀.scheduledTasks) :
    s.heap.readAll s₀.scheduledTasks = s₀.tasks := by
  apply Heap.readAll_congr
  intro r hr
  obtain ⟨t, ht⟩ := hs₀ r hr
  obtain ⟨t', ht', rfl⟩ := h.heap r t ht
  rw [ht, ht']

theorem Appended.progress {done : List T} (h : Appended comparer clock s₀ done s)
    (hs₀ : s₀.Distinct) (items : List T) :
    Progress comparer clock items s₀ done [] false s := by
  obtain ⟨rs, hrs, hall⟩ := h.refs
  obtain ⟨halloc, huids, hfresh⟩ := Appended.readAll hall
  refine ⟨h.reads, ?_, ?_, ?_, ?_⟩
  · rw [hrs]
    intro r hr
    rcases List.mem_append.1 hr with hr | hr
    · obtain ⟨t, ht⟩ := hs₀.allocated r hr
      obtain ⟨t', ht', -⟩ := h.heap r t ht
      exact ⟨t', ht'⟩
    · exact halloc r hr
  · rw [SchedulerRepository.tasks, hrs, Heap.readAll_append, List.map_append, huids,
      h.tasks hs₀.allocated]
    simp
  · intro p hp
    obtain ⟨r, hr, t, ht, hf⟩ := hfresh p hp
    exact ⟨t, mem_tasks.2 ⟨r, by rw [hrs]; exact List.mem_append_right _ hr, ht⟩, hf⟩
  · intro r hr t ht _
    obtain ⟨t', ht', rfl⟩ := h.heap r t ht
    exact ⟨r, by rw [hrs]; exact List.mem_append_left _ hr, t, ht', Or.inr ⟨by simp, rfl⟩,
      fun _ => rfl⟩

/-! ## The removals -/

omit [IScheduledTaskItem T] in
theorem remove_loop (rs : List Ref) (s : SchedulerRepository T) :
    (rs.forM fun r => modify fun s => s.remove r : EStateM Exn (SchedulerRepository T) Unit) s =
      .ok () { s with scheduledTasks := s.scheduledTasks.diff rs } := by
  induction rs generalizing s with
  | nil => rfl
  | cons r rs ih =>
    rw [List.diff_cons]
    exact ih (s.remove r)

/-- The removals drop the tasks no item asks for, and no other. -/
theorem Appended.sweep (h : Appended comparer clock s₀ (s₀.itemsToAdd items) s)
    (hs₀ : s₀.Distinct) (hd : s.Distinct) :
    Progress comparer clock items s₀ (s₀.itemsToAdd items) [] true
      { s with scheduledTasks := s.scheduledTasks.diff (s₀.itemsToRemove items) } := by
  have hp := h.progress hs₀ items
  obtain ⟨rs, hrs, hall⟩ := h.refs
  have hdrop : ∀ r ∈ s.scheduledTasks, ∀ w, s.heap.read r = some w →
      (r ∈ s₀.itemsToRemove items ↔ wanted items w = false) := by
    intro r hr w hw
    rw [itemsToRemove, List.mem_filter]
    rw [hrs] at hr
    rcases List.mem_append.1 hr with hr | hr
    · -- an old object, unchanged so far
      obtain ⟨t, ht⟩ := hs₀.allocated r hr
      obtain ⟨t', ht', rfl⟩ := h.heap r t ht
      cases ht'.symm.trans hw
      simp [hr, ht]
    · -- a new object: its item asks for it
      obtain ⟨p, hp, hlt, t, ht, hf⟩ : ∃ p ∈ s₀.itemsToAdd items, s₀.heap.next ≤ r ∧
          ∃ t, s.heap.read r = some t ∧
            Fresh comparer clock s₀.clockReads s.clockReads p t := by
        obtain ⟨i, hi⟩ := List.mem_iff_getElem?.1 hr
        obtain ⟨hilt, rfl⟩ := List.getElem?_eq_some_iff.1 hi
        have hlen : i < (s₀.itemsToAdd items).length := hall.length_eq ▸ hilt
        exact ⟨_, List.getElem_mem hlen, List.forall₂_iff_get.1 hall |>.2 i hilt hlen⟩
      cases ht.symm.trans hw
      have hnot : r ∉ s₀.scheduledTasks := by
        intro hmem
        obtain ⟨v, hv⟩ := hs₀.allocated r hmem
        exact absurd (Heap.lt_next_of_read hv) (not_lt.2 hlt)
      have hwant : wanted items w = true :=
        wanted_iff.2 ⟨p, (List.mem_filter.1 hp).1, hf.uid.symm⟩
      simp [hnot, hwant]
  have hkeep : ∀ r ∈ s.scheduledTasks, ∀ w, s.heap.read r = some w →
      decide (r ∉ s₀.itemsToRemove items) = wanted items w := by
    intro r hr w hw
    cases hwant : wanted items w <;> simp [hdrop r hr w hw, hwant]
  have hdiff : s.scheduledTasks.diff (s₀.itemsToRemove items) =
      s.scheduledTasks.filter fun r => decide (r ∉ s₀.itemsToRemove items) :=
    hd.nodup.sdiff_eq_filter
  have htasks : ({ s with scheduledTasks := s.scheduledTasks.diff (s₀.itemsToRemove items) } :
      SchedulerRepository T).tasks = s.tasks.filter (wanted items) := by
    unfold SchedulerRepository.tasks
    simp only
    rw [hdiff]
    exact Heap.readAll_filter hd.allocated hkeep
  have hmem : ∀ {r w}, r ∈ s.scheduledTasks → s.heap.read r = some w → wanted items w = true →
      r ∈ s.scheduledTasks.diff (s₀.itemsToRemove items) := by
    intro r w hr hw hwant
    rw [hdiff, List.mem_filter]
    exact ⟨hr, (hkeep r hr w hw).trans hwant⟩
  refine ⟨h.reads, ?_, ?_, ?_, ?_⟩
  · intro r hr
    rw [hdiff] at hr
    exact hd.allocated r (List.mem_filter.1 hr).1
  · rw [htasks]
    have hfilter : ∀ ts : List (ScheduledTask T), (ts.filter (wanted items)).map
        ScheduledTask.uid = (ts.map ScheduledTask.uid).filter
          fun u => items.any fun p => IScheduledTaskItem.uid p == u := by
      intro ts
      rw [List.filter_map]
      rfl
    have huids : s.tasks.map ScheduledTask.uid = s₀.tasks.map ScheduledTask.uid ++
        (s₀.itemsToAdd items).map IScheduledTaskItem.uid := by simpa using hp.uids
    simp only [Bool.not_true, Bool.false_or]
    rw [hfilter, hfilter, huids, List.filter_append, List.append_cancel_left_eq,
      List.filter_eq_self.2]
    intro u hu
    obtain ⟨p, hp, rfl⟩ := List.mem_map.1 hu
    exact List.any_eq_true.2 ⟨p, (List.mem_filter.1 hp).1, by simp⟩
  · intro p hpa
    obtain ⟨t, ht, hf⟩ := hp.fresh p hpa
    refine ⟨t, ?_, hf⟩
    rw [htasks, List.mem_filter]
    exact ⟨ht, wanted_iff.2 ⟨p, (List.mem_filter.1 hpa).1, hf.uid.symm⟩⟩
  · intro r hr t ht hwant
    obtain ⟨t', ht', rfl⟩ := h.heap r t ht
    refine ⟨r, hmem ?_ ht' (hwant rfl), t, ht', Or.inr ⟨by simp, rfl⟩, fun _ => rfl⟩
    rw [hrs]
    exact List.mem_append_left _ hr

/-! ## The last loop -/

theorem mem_itemsToAdd {p : T} : p ∈ s₀.itemsToAdd items ↔ p ∈ items ∧ s₀.known p = false := by
  simp [itemsToAdd]

theorem mem_itemsToUpdate {p : T} : p ∈ s₀.itemsToUpdate items ↔ p ∈ items ∧ s₀.known p = true := by
  simp [itemsToUpdate]

/-- The list is distinct at every point of the three loops. -/
theorem Progress.distinct_of_items {added updated : List T} {swept : Bool}
    (h : Progress comparer clock items s₀ added updated swept s) (hs₀ : s₀.Distinct)
    (hitems : ItemsOk keyOf items) (hadded : added.Sublist (s₀.itemsToAdd items)) : s.Distinct := by
  refine h.distinct hs₀ ?_ fun p hp => (mem_itemsToAdd.1 (hadded.subset hp)).2
  exact hitems.uids.sublist ((hadded.trans List.filter_sublist).map _)

/-- Before its update, a known item's task is the one of `s₀`, and looking it up by its Key finds
its schedule text. -/
theorem Progress.before_update {done rest : List T} {p : T}
    (h : Progress comparer clock items s₀ (s₀.itemsToAdd items) done true s)
    (hs₀ : Consistent comparer keyOf s₀) (hitems : ItemsOk keyOf items)
    (hupdate : s₀.itemsToUpdate items = done ++ p :: rest) :
    ∃ r ∈ s₀.scheduledTasks, ∃ t, s₀.heap.read r = some t ∧ t.uid = IScheduledTaskItem.uid p ∧
      r ∈ s.scheduledTasks ∧ s.heap.read r = some t ∧
      s.knownSchedule p = IScheduledTaskItem.schedule t.task := by
  have hmem : ∀ q ∈ done ++ p :: rest, q ∈ items ∧ s₀.known q = true :=
    fun q hq => mem_itemsToUpdate.1 (hupdate ▸ hq)
  obtain ⟨hp, hknown⟩ := hmem p (by simp)
  have hd := h.distinct_of_items hs₀.toDistinct hitems (List.Sublist.refl _)
  have hcons := h.consistent hs₀ hd
    (fun q hq => hitems.keyOf q (mem_itemsToAdd.1 hq).1)
    (fun q hq => hitems.keyOf q (hmem q (List.mem_append_left _ hq)).1)
  obtain ⟨t, ht, huid⟩ := known_iff.1 hknown
  obtain ⟨r, hr, hread⟩ := mem_tasks.1 ht
  -- no item dealt with so far has the Uid of `p`
  have hother : ∀ q ∈ done, IScheduledTaskItem.uid q ≠ t.uid := by
    intro q hq heq
    have hnodup : ((done ++ p :: rest).map IScheduledTaskItem.uid).Nodup := by
      rw [← hupdate]
      exact hitems.uids.sublist (List.filter_sublist.map _)
    rw [List.map_append, List.nodup_append] at hnodup
    exact hnodup.2.2 _ (List.mem_map_of_mem hq) _
      (List.mem_map_of_mem (List.mem_cons_self (a := p))) (heq.trans huid)
  obtain ⟨r', hr', t', hread', hh, hid⟩ := h.known r hr t hread
    fun _ => wanted_iff.2 ⟨p, hp, huid.symm⟩
  obtain rfl := hid fun q hq heq => absurd heq (hother q hq)
  obtain rfl : t' = t := by
    rcases hh with ⟨q, hq, heq, -⟩ | ⟨-, rfl⟩
    · exact absurd heq (hother q hq)
    · rfl
  refine ⟨r', hr, t', hread, huid, hr', hread', ?_⟩
  have hfind : s.firstOrDefault (fun x =>
      IScheduledTaskItem.key x.task == IScheduledTaskItem.key p) = some (r', t') := by
    apply firstOrDefault_unique hr' hread'
    · have hown := hs₀.owned t' ht
      simp [hown.key, huid, hitems.keyOf p hp]
    · -- a task with the Key of `p` comes from an item with that Key, which is `p`
      intro r'' hr'' t'' hread'' hkey
      apply hd.ref_eq hr'' hr' hread'' hread'
      have ht'' : t'' ∈ s.tasks := mem_tasks.2 ⟨r'', hr'', hread''⟩
      obtain ⟨q, hq, hquid⟩ : ∃ q ∈ items, IScheduledTaskItem.uid q = t''.uid := by
        rcases h.mem hd ht'' with ⟨q, hq, hf⟩ | ⟨u, -, hwant, hh⟩
        · exact ⟨q, (mem_itemsToAdd.1 hq).1, hf.uid.symm⟩
        · obtain ⟨q, hq, hquid⟩ := wanted_iff.1 (hwant rfl)
          exact ⟨q, hq, hquid.trans hh.uid.symm⟩
      have hqp : q = p := by
        apply hitems.eq_of_key hq hp
        rw [hitems.keyOf q hq, hquid, ← (hcons.owned t'' ht'').key]
        simpa using hkey
      rw [← hquid, hqp, huid]
  rw [knownSchedule, hfind]

/-- Renewing one more task. -/
theorem Progress.renew {done : List T} {p : T} {r : Ref} {t : ScheduledTask T}
    {s' : SchedulerRepository T}
    (h : Progress comparer clock items s₀ (s₀.itemsToAdd items) done true s)
    (hs₀ : s₀.Distinct) (hr₀ : r ∈ s₀.scheduledTasks) (ht₀ : s₀.heap.read r = some t)
    (huid : t.uid = IScheduledTaskItem.uid p) (ht : s.heap.read r = some t)
    (hrenew : Renews comparer clock p r t s s') :
    Progress comparer clock items s₀ (s₀.itemsToAdd items) (done ++ [p]) true s' := by
  have hother : ∀ {r' t'}, s.heap.read r' = some t' → t'.uid ≠ IScheduledTaskItem.uid p →
      r' ≠ r := by
    rintro r' t' ht' hne rfl
    cases ht.symm.trans ht'
    exact hne huid
  refine ⟨h.reads.trans hrenew.reads, hrenew.allocated, hrenew.uids.trans h.uids, ?_, ?_⟩
  · intro q hq
    obtain ⟨t', ht', hf⟩ := h.fresh q hq
    obtain ⟨r', hr', hread'⟩ := mem_tasks.1 ht'
    have hne : t'.uid ≠ IScheduledTaskItem.uid p := by
      intro heq
      have hk : s₀.known q = true :=
        known_iff.2 ⟨t, mem_tasks.2 ⟨r, hr₀, ht₀⟩, huid.trans (heq.symm.trans hf.uid)⟩
      rw [(mem_itemsToAdd.1 hq).2] at hk
      cases hk
    obtain ⟨hr'', hread''⟩ := hrenew.others r' hr' (hother hread' hne)
    exact ⟨t', mem_tasks.2 ⟨r', hr'', hread''.trans hread'⟩, hf.mono le_rfl hrenew.reads⟩
  · intro r' hr' t' hread' hwant
    by_cases hp : t'.uid = IScheduledTaskItem.uid p
    · -- the task of `p` itself
      obtain rfl : r' = r := hs₀.ref_eq hr' hr₀ hread' ht₀ (hp.trans huid.symm)
      cases hread'.symm.trans ht₀
      obtain ⟨r'', hr'', t'', hread'', hren, hid⟩ := hrenew.renewed
      refine ⟨r'', hr'', t'', hread'', Or.inl ⟨p, by simp, hp.symm, hren.mono h.reads le_rfl⟩, ?_⟩
      exact fun hall => hid (hall p (by simp) hp.symm)
    · obtain ⟨r'', hr'', t'', hread'', hh, hid⟩ := h.known r' hr' t' hread' hwant
      obtain ⟨hr₃, hread₃⟩ := hrenew.others r'' hr''
        (hother hread'' fun heq => hp (hh.uid.symm.trans heq))
      refine ⟨r'', hr₃, t'', hread₃.trans hread'', ?_, fun hall => hid fun q hq =>
        hall q (List.mem_append_left _ hq)⟩
      exact (hh.mono hrenew.reads).snoc (Ne.symm hp)

theorem Progress.tick {added updated : List T} {swept : Bool}
    (h : Progress comparer clock items s₀ added updated swept s) :
    Progress comparer clock items s₀ added updated swept s.tick := by
  refine ⟨h.reads.trans (Nat.le_succ _), h.allocated, h.uids, fun p hp => ?_, ?_⟩
  · obtain ⟨t, ht, hf⟩ := h.fresh p hp
    exact ⟨t, ht, hf.mono le_rfl (Nat.le_succ _)⟩
  · intro r hr t ht hwant
    obtain ⟨r', hr', t', ht', hh, hid⟩ := h.known r hr t ht hwant
    exact ⟨r', hr', t', ht', hh.mono (Nat.le_succ _), hid⟩

theorem update_loop (hs₀ : Consistent comparer keyOf s₀) (hitems : ItemsOk keyOf items)
    (hs : Progress comparer clock items s₀ (s₀.itemsToAdd items) [] true s) :
    Ends (fun _ s' => Progress comparer clock items s₀ (s₀.itemsToAdd items)
        (s₀.itemsToUpdate items) true s')
      (fun _ s' => ∃ done p rest, s₀.itemsToUpdate items = done ++ p :: rest ∧
        ¬ Good comparer clock p ∧
        (Progress comparer clock items s₀ (s₀.itemsToAdd items) done true s' ∨
          Progress comparer clock items s₀ (s₀.itemsToAdd items) (done ++ [p]) true s'))
      ((s₀.itemsToUpdate items).forM (update comparer clock) s) := by
  refine Triple.forM (fun done s =>
    Progress comparer clock items s₀ (s₀.itemsToAdd items) done true s) ?_ s hs
  intro done p rest hupdate s hs
  have hd := hs.distinct_of_items hs₀.toDistinct hitems (List.Sublist.refl _)
  obtain ⟨r, hr₀, t, ht₀, huid, hr, ht, hknown⟩ := hs.before_update hs₀ hitems hupdate
  obtain ⟨i, hidx, hi⟩ := idxOf?_of_mem hr
  have hparse := (hs₀.owned t (mem_tasks.2 ⟨r, hr₀, ht₀⟩)).schedule
  refine (update_spec hd hr ht huid hidx hknown hparse).mono ?_ ?_
  · intro _ s' hu
    exact hs.renew hs₀.toDistinct hr₀ ht₀ huid ht (hu.renews hd hr ht huid hi)
  · rintro _ s' ⟨hbad, rfl | hu⟩
    · exact ⟨done, p, rest, hupdate, hbad, Or.inl hs.tick.tick⟩
    · exact ⟨done, p, rest, hupdate, hbad, Or.inr (hs.renew hs₀.toDistinct hr₀ ht₀ huid
        ht (hu.renews hd hr ht huid hi))⟩

/-! ## The whole call -/

/-- `Sync` has stopped at a bad item, with everything before it done. -/
def Stopped (comparer : CompareInfo) (clock : Clock) (items : List T)
    (s₀ s : SchedulerRepository T) :
    Prop :=
  (∃ done p rest, s₀.itemsToAdd items = done ++ p :: rest ∧ ¬ Good comparer clock p ∧
    (Progress comparer clock items s₀ done [] false s ∨
      Progress comparer clock items s₀ (done ++ [p]) [] false s)) ∨
  (∃ done p rest, s₀.itemsToUpdate items = done ++ p :: rest ∧ ¬ Good comparer clock p ∧
    (Progress comparer clock items s₀ (s₀.itemsToAdd items) done true s ∨
      Progress comparer clock items s₀ (s₀.itemsToAdd items) (done ++ [p]) true s))

/-- **`Sync` comes to the end, or stops at a bad item.** -/
theorem sync_spec (clock : Clock) (hs₀ : Consistent comparer keyOf s₀)
    (hitems : ItemsOk keyOf items) :
    Ends (fun _ s => Progress comparer clock items s₀ (s₀.itemsToAdd items)
        (s₀.itemsToUpdate items) true s)
      (fun _ s => Stopped comparer clock items s₀ s)
      (sync comparer clock (some items) s₀) := by
  have hadd := add_loop comparer clock s₀ (s₀.itemsToAdd items)
  simp only [sync, bind_apply, get_apply, remove_loop]
  cases hr : (s₀.itemsToAdd items).forM (add comparer clock) s₀ with
  | error e s =>
    rw [hr] at hadd
    obtain ⟨done, p, rest, heq, hbad, hs⟩ := hadd
    exact Or.inl ⟨done, p, rest, heq, hbad, hs.imp
      (fun hs => hs.progress hs₀.toDistinct items) fun hs => hs.progress hs₀.toDistinct items⟩
  | ok u s =>
    rw [hr] at hadd
    have hd := (Appended.progress hadd hs₀.toDistinct items).distinct_of_items hs₀.toDistinct hitems
      (List.Sublist.refl _)
    exact (update_loop hs₀ hitems (Appended.sweep hadd hs₀.toDistinct hd)).mono
      (fun _ _ hs => hs) fun _ _ hs => Or.inr hs

end Sentinel.SchedulerRepository
