import Sentinel.Scheduler.SchedulerRepository

/-!
# The steps of `Sync`

What one `Add`, one removal and one update of a known item do to the repository, whether they
return or throw.

* `add_spec` — a new item ends up in the list, or fails before or after it got there.
* `update_spec` — a known item renews its task and no other, or fails before or after that.
* `Good` — a schedule text that is accepted and has a next occurrence; only other items fail.
-/

set_option autoImplicit false

namespace Sentinel.SchedulerRepository

open Throwing

variable {T : Type} {s : SchedulerRepository T}

/-! ## Looking tasks up -/

theorem mem_tasks {t : ScheduledTask T} :
    t ∈ s.tasks ↔ ∃ r ∈ s.scheduledTasks, s.heap.read r = some t :=
  Heap.mem_readAll

/-- `FirstOrDefault` finds a task that passes the test, if there is one. -/
theorem firstOrDefault_spec {p : ScheduledTask T → Bool} :
    (∃ r t, s.firstOrDefault p = some (r, t) ∧ r ∈ s.scheduledTasks ∧ s.heap.read r = some t ∧
      p t = true) ∨ (s.firstOrDefault p = none ∧ ∀ t ∈ s.tasks, p t = false) := by
  cases hf : s.firstOrDefault p with
  | some found =>
    obtain ⟨r', hr', hfound⟩ := List.exists_of_findSome?_eq_some hf
    split at hfound
    · rename_i t ht
      split at hfound
      · rename_i hp
        cases hfound
        exact Or.inl ⟨r', t, rfl, hr', ht, hp⟩
      · cases hfound
    · cases hfound
  | none =>
    refine Or.inr ⟨rfl, fun t ht => ?_⟩
    obtain ⟨r, hr, hread⟩ := mem_tasks.1 ht
    have := List.findSome?_eq_none_iff.1 hf r hr
    rw [hread] at this
    simpa using this

/-- The list holds allocated objects with distinct Uids. -/
structure Distinct (s : SchedulerRepository T) : Prop where
  allocated : s.heap.AllocatedIn s.scheduledTasks
  uids : (s.tasks.map ScheduledTask.uid).Nodup

theorem Distinct.nodup (h : s.Distinct) : s.scheduledTasks.Nodup :=
  Heap.nodup_of_keys h.allocated h.uids

theorem Distinct.ref_eq (h : s.Distinct) {r r' : Ref} {t t' : ScheduledTask T}
    (hr : r ∈ s.scheduledTasks) (hr' : r' ∈ s.scheduledTasks) (ht : s.heap.read r = some t)
    (ht' : s.heap.read r' = some t') (huid : t.uid = t'.uid) : r = r' :=
  Heap.eq_of_key_eq h.uids hr hr' ht ht' huid

/-- Looking up the one task that passes the test finds it. -/
theorem firstOrDefault_unique {p : ScheduledTask T → Bool} {r : Ref} {t : ScheduledTask T}
    (hr : r ∈ s.scheduledTasks) (ht : s.heap.read r = some t) (hp : p t = true)
    (hunique : ∀ r' ∈ s.scheduledTasks, ∀ t', s.heap.read r' = some t' → p t' = true → r' = r) :
    s.firstOrDefault p = some (r, t) := by
  rcases firstOrDefault_spec (s := s) (p := p) with ⟨r', t', hf, hr', ht', hp'⟩ | ⟨-, hnone⟩
  · obtain rfl := hunique r' hr' t' ht' hp'
    rw [ht] at ht'
    cases ht'
    exact hf
  · have := hnone t (mem_tasks.2 ⟨r, hr, ht⟩)
    rw [hp] at this
    cases this

theorem Distinct.firstOrDefault_uid (h : s.Distinct) {r : Ref} {t : ScheduledTask T} {uid : String}
    (hr : r ∈ s.scheduledTasks) (ht : s.heap.read r = some t) (huid : t.uid = uid) :
    s.firstOrDefault (fun e => e.uid == uid) = some (r, t) :=
  firstOrDefault_unique hr ht (by simp [huid]) fun r' hr' t' ht' hp =>
    h.ref_eq hr' hr ht' ht (by rw [huid]; simpa using hp)

theorem idxOf?_of_mem {r : Ref} {rs : List Ref} (hr : r ∈ rs) :
    ∃ i, rs.idxOf? r = some i ∧ rs[i]? = some r := by
  cases hi : rs.idxOf? r with
  | none => exact absurd hr (List.idxOf?_eq_none_iff.1 hi)
  | some i =>
    refine ⟨i, rfl, ?_⟩
    rw [List.idxOf?, List.findIdx?_eq_some_iff_getElem] at hi
    obtain ⟨hlt, heq, -⟩ := hi
    rw [List.getElem?_eq_getElem hlt]
    simpa using heq

/-! ## Items and tasks -/

section Items

variable [IScheduledTaskItem T] (comparer : CompareInfo) (clock : Clock)

/-- The schedule text is accepted and has a next occurrence, whatever the clock shows. -/
def Good (item : T) : Prop :=
  ∃ schedule, CrontabSchedule.parse comparer (IScheduledTaskItem.schedule item) = .ok schedule ∧
    ∀ n, ∃ t, schedule.Occurs t ∧ (clock.reading n).moment < t

/-- Just built from the item, at one of the clock readings from `lo` to below `hi`. -/
structure Fresh (lo hi : ℕ) (item : T) (t : ScheduledTask T) : Prop where
  uid : t.uid = IScheduledTaskItem.uid item
  task : t.task = item
  schedule : CrontabSchedule.parse comparer (IScheduledTaskItem.schedule item) = .ok t.schedule
  lastRunTime : t.lastRunTime = .minValue
  nextRunTime : ∃ n, lo ≤ n ∧ n < hi ∧ t.nextRunTime = clock.reading n

/-- What an update makes of a known task: a new one if the schedule text has changed, else the
same with the new item. -/
def Renewed (lo hi : ℕ) (item : T) (t t' : ScheduledTask T) : Prop :=
  (IScheduledTaskItem.schedule item ≠ IScheduledTaskItem.schedule t.task ∧
    Fresh comparer clock lo hi item t') ∨
  (IScheduledTaskItem.schedule item = IScheduledTaskItem.schedule t.task ∧
    t' = { t with task := item })

/-- A task fits its item, and the item's key is the one its Uid goes with. -/
structure Owned (keyOf : String → String) (t : ScheduledTask T) : Prop where
  uid : t.uid = IScheduledTaskItem.uid t.task
  key : IScheduledTaskItem.key t.task = keyOf t.uid
  schedule : CrontabSchedule.parse comparer (IScheduledTaskItem.schedule t.task) = .ok t.schedule

variable {comparer clock}

theorem Fresh.mono {lo hi lo' hi' : ℕ} {item : T} {t : ScheduledTask T}
    (h : Fresh comparer clock lo hi item t) (hlo : lo' ≤ lo) (hhi : hi ≤ hi') :
    Fresh comparer clock lo' hi' item t := by
  obtain ⟨n, hn, hn', hnext⟩ := h.nextRunTime
  exact ⟨h.uid, h.task, h.schedule, h.lastRunTime, n, hlo.trans hn, hn'.trans_le hhi, hnext⟩

theorem Renewed.mono {lo hi lo' hi' : ℕ} {item : T} {t t' : ScheduledTask T}
    (h : Renewed comparer clock lo hi item t t') (hlo : lo' ≤ lo) (hhi : hi ≤ hi') :
    Renewed comparer clock lo' hi' item t t' :=
  h.imp_left (And.imp_right fun hf => hf.mono hlo hhi)

/-- A renewed task is the task of the item, with the item's schedule. -/
theorem Renewed.fits {lo hi : ℕ} {item : T} {t t' : ScheduledTask T}
    (h : Renewed comparer clock lo hi item t t') (huid : t.uid = IScheduledTaskItem.uid item)
    (hparse : CrontabSchedule.parse comparer (IScheduledTaskItem.schedule t.task) =
      .ok t.schedule) :
    t'.uid = IScheduledTaskItem.uid item ∧ t'.task = item ∧
      CrontabSchedule.parse comparer (IScheduledTaskItem.schedule item) = .ok t'.schedule := by
  rcases h with ⟨-, hf⟩ | ⟨heq, rfl⟩
  · exact ⟨hf.uid, hf.task, hf.schedule⟩
  · rw [heq]
    exact ⟨huid, rfl, hparse⟩

theorem known_iff {p : T} : s.known p = true ↔ ∃ e ∈ s.tasks, e.uid = IScheduledTaskItem.uid p := by
  simp [known]

theorem wanted_iff {items : List T} {e : ScheduledTask T} :
    wanted items e = true ↔ ∃ p ∈ items, IScheduledTaskItem.uid p = e.uid := by
  simp [wanted]

theorem Good.next_ok {item : T} (h : Good comparer clock item) {schedule : CrontabSchedule}
    (hparse : CrontabSchedule.parse comparer (IScheduledTaskItem.schedule item) = .ok schedule)
    (n : ℕ) : ∃ r, schedule.getNextOccurrenceFrom (clock.reading n) = .ok r := by
  obtain ⟨schedule', hparse', hnext⟩ := h
  cases hparse.symm.trans hparse'
  exact CrontabSchedule.getNextOccurrenceFrom_ok_iff.2 (hnext n)

/-! ## The steps -/

/-- The clock has been read once more. -/
def tick (s : SchedulerRepository T) : SchedulerRepository T :=
  { s with clockReads := s.clockReads + 1 }

omit [IScheduledTaskItem T] in
theorem utcNow_apply (clock : Clock) (s : SchedulerRepository T) :
    utcNow clock s = .ok (clock.reading s.clockReads) s.tick := rfl

/-- The constructor builds a fresh task. -/
theorem fresh_of_new {item : T} {n : ℕ} {t : ScheduledTask T}
    (h : ScheduledTask.new comparer item (clock.reading n) = .ok t) :
    Fresh comparer clock n (n + 1) item t := by
  obtain ⟨huid, htask, hlast, hnext, hparse⟩ := ScheduledTask.new_spec h
  exact ⟨huid, htask, hparse, hlast, n, le_rfl, Nat.lt_succ_self n, hnext⟩

/-- The constructor only fails for a bad item. -/
theorem not_good_of_new {item : T} {n : ℕ} {e : Exn}
    (h : ScheduledTask.new comparer item (clock.reading n) = .error e) :
    ¬ Good comparer clock item := by
  rintro ⟨schedule, hparse, -⟩
  unfold ScheduledTask.new at h
  rw [hparse] at h
  cases h

/-- **`Add`** appends a fresh task; it throws for a bad item only, before or after that. -/
theorem add_spec (comparer : CompareInfo) (clock : Clock) (item : T) (s : SchedulerRepository T) :
    Ends (fun _ s' => ∃ t, Fresh comparer clock s.clockReads (s.clockReads + 1) item t ∧
        s' = s.tick.append t)
      (fun _ s' => ¬ Good comparer clock item ∧ (s' = s.tick ∨
        ∃ t, Fresh comparer clock s.clockReads (s.clockReads + 1) item t ∧ s' = s.tick.append t))
      (add comparer clock item s) := by
  unfold add
  rw [bind_ok (utcNow_apply clock s)]
  apply Ends.ofExcept_bind
  · intro t hnew
    have hfresh := fresh_of_new hnew
    rw [bind_ok (modify_apply _ _)]
    apply Ends.ofExcept_bind
    · exact fun _ _ => ⟨t, hfresh, rfl⟩
    · intro e hnext
      refine ⟨fun hgood => ?_, Or.inr ⟨t, hfresh, rfl⟩⟩
      obtain ⟨r, hr⟩ := hgood.next_ok hfresh.schedule s.clockReads
      cases hnext.symm.trans hr
  · exact fun e hnew => ⟨not_good_of_new hnew, Or.inl rfl⟩

/-- What an update does with the task `t` at index `i`. -/
def UpdatedAt (comparer : CompareInfo) (clock : Clock) (i : ℕ) (item : T) (t : ScheduledTask T)
    (s s' : SchedulerRepository T) : Prop :=
  (IScheduledTaskItem.schedule item ≠ IScheduledTaskItem.schedule t.task ∧
    ∃ t', Fresh comparer clock s.clockReads (s.clockReads + 2) item t' ∧
      s' = s.tick.tick.replaceAt i t') ∨
  (IScheduledTaskItem.schedule item = IScheduledTaskItem.schedule t.task ∧
    s' = s.tick.setTaskAt i item)

theorem updateSchedulerRepository_spec (h : s.Distinct) {item : T} {r : Ref} {t : ScheduledTask T}
    {i : ℕ} (hr : r ∈ s.scheduledTasks) (ht : s.heap.read r = some t)
    (huid : t.uid = IScheduledTaskItem.uid item) (hi : s.scheduledTasks.idxOf? r = some i) :
    Ends (fun _ s' => ∃ t', Fresh comparer clock s.clockReads (s.clockReads + 2) item t' ∧
        s' = s.tick.tick.replaceAt i t')
      (fun _ s' => ¬ Good comparer clock item ∧ (s' = s.tick.tick ∨
        ∃ t', Fresh comparer clock s.clockReads (s.clockReads + 2) item t' ∧
          s' = s.tick.tick.replaceAt i t'))
      (updateSchedulerRepository comparer clock item s) := by
  have hfind : s.tick.tick.firstOrDefault (fun e => e.uid == IScheduledTaskItem.uid item) =
      some (r, t) := h.firstOrDefault_uid hr ht huid
  have hi' : s.tick.tick.scheduledTasks.idxOf? r = some i := hi
  unfold updateSchedulerRepository
  rw [bind_ok (utcNow_apply clock s), bind_ok (utcNow_apply clock s.tick)]
  apply Ends.ofExcept_bind
  · intro t' hnew
    have hfresh := fresh_of_new hnew
    have hfresh' := hfresh.mono (Nat.le_succ s.clockReads) le_rfl
    rw [bind_ok (get_apply _)]
    simp only [hfind, hi']
    rw [bind_ok (modify_apply _ _)]
    apply Ends.ofExcept_bind
    · exact fun _ _ => ⟨t', hfresh', rfl⟩
    · intro e hnext
      refine ⟨fun hgood => ?_, Or.inr ⟨t', hfresh', rfl⟩⟩
      obtain ⟨next, hok⟩ := hgood.next_ok hfresh.schedule (s.clockReads + 1)
      cases hnext.symm.trans hok
  · exact fun e hnew => ⟨not_good_of_new hnew, Or.inl rfl⟩

/-- **`UpdateTask`** gives the known task the new item; the log call behind it throws for a bad
item only. -/
theorem updateTask_spec (h : s.Distinct) {item : T} {r : Ref} {t : ScheduledTask T} {i : ℕ}
    (hr : r ∈ s.scheduledTasks) (ht : s.heap.read r = some t)
    (huid : t.uid = IScheduledTaskItem.uid item) (hi : s.scheduledTasks.idxOf? r = some i)
    (hparse : CrontabSchedule.parse comparer (IScheduledTaskItem.schedule item) = .ok t.schedule) :
    Ends (fun _ s' => s' = s.tick.setTaskAt i item)
      (fun _ s' => ¬ Good comparer clock item ∧ s' = s.tick.setTaskAt i item)
      (updateTask clock item s) := by
  have hfind : s.tick.firstOrDefault (fun e => e.uid == IScheduledTaskItem.uid item) =
      some (r, t) := h.firstOrDefault_uid hr ht huid
  have htext : (IScheduledTaskItem.schedule item).isNone = false := by
    cases hs : IScheduledTaskItem.schedule item with
    | none =>
      rw [hs] at hparse
      cases hparse
    | some text => rfl
  have hi' : s.tick.scheduledTasks.idxOf? r = some i := hi
  unfold updateTask
  rw [bind_ok (utcNow_apply clock s), bind_ok (get_apply _)]
  simp only [hfind, hi', htext, Bool.false_eq_true, if_false]
  rw [bind_ok (modify_apply _ _)]
  apply Ends.ofExcept_bind
  · exact fun _ _ => rfl
  · intro e hnext
    refine ⟨fun hgood => ?_, rfl⟩
    obtain ⟨next, hok⟩ := hgood.next_ok hparse s.clockReads
    cases hnext.symm.trans hok

/-- **An update of a known item** does its work or fails for a bad item, before or after it. -/
theorem update_spec (h : s.Distinct) {item : T} {r : Ref} {t : ScheduledTask T} {i : ℕ}
    (hr : r ∈ s.scheduledTasks) (ht : s.heap.read r = some t)
    (huid : t.uid = IScheduledTaskItem.uid item) (hi : s.scheduledTasks.idxOf? r = some i)
    (hknown : s.knownSchedule item = IScheduledTaskItem.schedule t.task)
    (hparse : CrontabSchedule.parse comparer (IScheduledTaskItem.schedule t.task) =
      .ok t.schedule) :
    Ends (fun _ s' => UpdatedAt comparer clock i item t s s')
      (fun _ s' => ¬ Good comparer clock item ∧
        (s' = s.tick.tick ∨ UpdatedAt comparer clock i item t s s'))
      (update comparer clock item s) := by
  unfold update
  rw [bind_ok (get_apply s), hknown]
  by_cases hsame : IScheduledTaskItem.schedule item = IScheduledTaskItem.schedule t.task
  · rw [if_neg (not_not.2 hsame)]
    refine (updateTask_spec h hr ht huid hi (hsame ▸ hparse)).mono ?_ ?_
    · exact fun _ s' hs' => Or.inr ⟨hsame, hs'⟩
    · exact fun _ s' h' => ⟨h'.1, Or.inr (Or.inr ⟨hsame, h'.2⟩)⟩
  · rw [if_pos hsame]
    refine (updateSchedulerRepository_spec h hr ht huid hi).mono ?_ ?_
    · exact fun _ s' hs' => Or.inl ⟨hsame, hs'⟩
    · exact fun _ s' h' => ⟨h'.1, h'.2.imp_right fun hs' => Or.inl ⟨hsame, hs'⟩⟩

/-! ## What the steps do to the list -/

/-- The task `t` behind `r` has been renewed for the item, and nothing else has changed. -/
structure Renews (comparer : CompareInfo) (clock : Clock) (item : T) (r : Ref)
    (t : ScheduledTask T) (s s' : SchedulerRepository T) : Prop where
  reads : s.clockReads ≤ s'.clockReads
  allocated : s'.heap.AllocatedIn s'.scheduledTasks
  uids : s'.tasks.map ScheduledTask.uid = s.tasks.map ScheduledTask.uid
  others : ∀ r' ∈ s.scheduledTasks, r' ≠ r →
    r' ∈ s'.scheduledTasks ∧ s'.heap.read r' = s.heap.read r'
  renewed : ∃ r' ∈ s'.scheduledTasks, ∃ t', s'.heap.read r' = some t' ∧
    Renewed comparer clock s.clockReads s'.clockReads item t t' ∧
    (IScheduledTaskItem.schedule item = IScheduledTaskItem.schedule t.task → r' = r)

omit [IScheduledTaskItem T] in
/-- Changing the tasks with one Uid to tasks with the same Uid keeps the list of Uids. -/
theorem map_uid_congr {ts : List (ScheduledTask T)} {uid : String}
    {f : ScheduledTask T → ScheduledTask T} (hf : ∀ t ∈ ts, t.uid = uid → (f t).uid = uid) :
    (ts.map fun t => if t.uid = uid then f t else t).map ScheduledTask.uid =
      ts.map ScheduledTask.uid := by
  rw [List.map_map]
  apply List.map_congr_left
  intro t ht
  simp only [Function.comp_apply]
  split
  · rename_i huid
    rw [hf t ht huid, huid]
  · rfl

theorem UpdatedAt.renews (h : s.Distinct) {s' : SchedulerRepository T} {item : T} {r : Ref}
    {t : ScheduledTask T} {i : ℕ} (hr : r ∈ s.scheduledTasks) (ht : s.heap.read r = some t)
    (huid : t.uid = IScheduledTaskItem.uid item) (hi : s.scheduledTasks[i]? = some r)
    (hu : UpdatedAt comparer clock i item t s s') : Renews comparer clock item r t s s' := by
  have hp : ∀ r' ∈ s.scheduledTasks, ∀ w, s.heap.read r' = some w →
      (w.uid = IScheduledTaskItem.uid item ↔ r' = r) := by
    intro r' hr' w hw
    constructor
    · exact fun hwuid => h.ref_eq hr' hr hw ht (hwuid.trans huid.symm)
    · rintro rfl
      rw [ht] at hw
      cases hw
      exact huid
  have hlt : i < s.scheduledTasks.length := (List.getElem?_eq_some_iff.1 hi).1
  rcases hu with ⟨hne, t', hfresh, rfl⟩ | ⟨hsame, rfl⟩
  · -- a new object takes the place of the old one
    refine ⟨Nat.le_add_right s.clockReads 2, ?_, ?_, ?_, ?_⟩
    · intro r' hr'
      rcases List.mem_or_eq_of_mem_set hr' with hr' | rfl
      · obtain ⟨w, hw⟩ := h.allocated r' hr'
        exact ⟨w, (Heap.read_alloc_of_lt (Heap.lt_next_of_read hw)).trans hw⟩
      · exact ⟨t', Heap.read_alloc_next⟩
    · have htasks : (s.tick.tick.replaceAt i t').tasks =
          s.tasks.map fun w => if w.uid = IScheduledTaskItem.uid item then t' else w :=
        Heap.readAll_replace h.allocated h.nodup hi hp
      rw [htasks]
      exact map_uid_congr fun _ _ _ => hfresh.uid
    · intro r' hr' hne'
      obtain ⟨w, hw⟩ := h.allocated r' hr'
      refine ⟨?_, Heap.read_alloc_of_lt (Heap.lt_next_of_read hw)⟩
      obtain ⟨j, hj⟩ := List.mem_iff_getElem?.1 hr'
      apply List.mem_of_getElem? (i := j)
      rw [← hj]
      apply List.getElem?_set_ne
      rintro rfl
      exact hne' (Option.some.inj (hj.symm.trans hi))
    · exact ⟨s.heap.next, List.mem_set hlt _, t', Heap.read_alloc_next, Or.inl ⟨hne, hfresh⟩,
        fun hsame => absurd hsame hne⟩
  · -- the object stays and gets the new item
    have hset : s.tick.setTaskAt i item =
        { s.tick with heap := s.heap.write r { t with task := item } } := by
      unfold setTaskAt
      simp only [tick, hi, ht]
    rw [hset]
    refine ⟨Nat.le_succ _, ?_, ?_, ?_, ?_⟩
    · intro r' hr'
      obtain ⟨w, hw⟩ := h.allocated r' hr'
      simp only [Heap.read_write]
      split
      · exact ⟨_, by rw [hw]; rfl⟩
      · exact ⟨w, hw⟩
    · have htasks : ({ s.tick with heap := s.heap.write r { t with task := item } } :
            SchedulerRepository T).tasks =
          s.tasks.map fun w => if w.uid = IScheduledTaskItem.uid item then { w with task := item }
            else w :=
        Heap.readAll_write (fun w : ScheduledTask T => { w with task := item }) h.allocated ht hp
      rw [htasks]
      exact map_uid_congr fun _ _ hwuid => hwuid
    · intro r' hr' hne'
      exact ⟨hr', by simp only [Heap.read_write, if_neg (Ne.symm hne')]⟩
    · refine ⟨r, hr, { t with task := item }, ?_, Or.inr ⟨hsame, rfl⟩, fun _ => rfl⟩
      simp only [Heap.read_write, if_true, ht, Option.map_some]

end Items

end Sentinel.SchedulerRepository
