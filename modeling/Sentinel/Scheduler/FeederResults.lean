import Sentinel.Scheduler.SchedulerRepositoryFeeder

/-!
# When the feeder mirrors the hash

* `repositorySync_mirrors` — `SchedulerRepository.Sync` of the values of the hash mirrors them.
* `feeder_mirrors_iff` — the feeder's `Sync` does so exactly for the repositories that are
  `Feedable`: no task goes, none changes its Uid or its Key, and a value that changes changes its
  schedule text.
-/

set_option autoImplicit false

namespace Sentinel.SchedulerRedisRepositoryFeeder

open Commands Throwing SchedulerRepository RedisDictionary

variable {T : Type} [IScheduledTaskItem T] {server : RedisServer} {dic : RedisDictionary T}
  {comparer : CompareInfo} {clock : Clock} {content : Entries} {items : List T}
  {s : SchedulerRepository T} {ts ts' : List (ScheduledTask T)} {p : T}

/-- Exactly one task for every item, which shows it. -/
structure Mirrors (comparer : CompareInfo) (items : List T) (ts : List (ScheduledTask T)) :
    Prop where
  tasks : (ts.map ScheduledTask.task).Perm items
  uid : ∀ t ∈ ts, t.uid = IScheduledTaskItem.uid t.task
  schedule : ∀ t ∈ ts,
    CrontabSchedule.parse comparer (IScheduledTaskItem.schedule t.task) = .ok t.schedule

/-- The tasks have, one each, the Uids of the items whose Key some task has; and a task with the
Key of an item shows another schedule text, or the item. -/
structure Feedable (comparer : CompareInfo) (items : List T) (s : SchedulerRepository T) :
    Prop where
  uids : (s.tasks.map ScheduledTask.uid).Perm
    ((items.filter fun p => s.hasKey (IScheduledTaskItem.key p)).map IScheduledTaskItem.uid)
  schedules : ∀ p ∈ items, ∀ t ∈ s.tasks,
    IScheduledTaskItem.key t.task = IScheduledTaskItem.key p →
    IScheduledTaskItem.schedule p ≠ IScheduledTaskItem.schedule t.task ∨ Fits comparer p t

theorem Mirrors.uids (h : Mirrors comparer items ts) :
    (ts.map ScheduledTask.uid).Perm (items.map IScheduledTaskItem.uid) := by
  have hmap : ts.map ScheduledTask.uid =
      (ts.map ScheduledTask.task).map IScheduledTaskItem.uid := by
    rw [List.map_map]
    exact List.map_congr_left h.uid
  rw [hmap]
  exact h.tasks.map _

/-- Tasks that show items and have all their Uids mirror them. -/
theorem mirrors_of_fits (huids : (items.map IScheduledTaskItem.uid).Nodup)
    (hperm : (ts.map ScheduledTask.uid).Perm (items.map IScheduledTaskItem.uid))
    (hfits : ∀ t ∈ ts, ∃ p ∈ items, Fits comparer p t) : Mirrors comparer items ts := by
  have huid : ∀ t ∈ ts, t.uid = IScheduledTaskItem.uid t.task := by
    intro t ht
    obtain ⟨p, -, hf⟩ := hfits t ht
    rw [hf.uid, hf.task]
  have hnodup : (ts.map ScheduledTask.task).Nodup := by
    apply List.Nodup.of_map IScheduledTaskItem.uid
    rw [List.map_map, show ts.map (IScheduledTaskItem.uid ∘ ScheduledTask.task) =
      ts.map ScheduledTask.uid from List.map_congr_left fun t ht => (huid t ht).symm]
    exact hperm.nodup_iff.2 huids
  refine ⟨(List.perm_ext_iff_of_nodup hnodup huids.of_map).2 fun x => ?_, huid, ?_⟩
  · constructor
    · intro hx
      obtain ⟨t, ht, rfl⟩ := List.mem_map.1 hx
      obtain ⟨p, hp, hf⟩ := hfits t ht
      exact hf.task ▸ hp
    · intro hx
      obtain ⟨t, ht, htx⟩ := List.mem_map.1 (hperm.symm.subset (List.mem_map_of_mem hx))
      obtain ⟨p, hp, hf⟩ := hfits t ht
      have : p = x := List.inj_on_of_nodup_map huids hp hx (hf.uid.symm.trans htx)
      exact List.mem_map.2 ⟨t, ht, hf.task.trans this⟩
  · intro t ht
    obtain ⟨p, -, hf⟩ := hfits t ht
    rw [hf.task]
    exact hf.schedule

/-! ## The sibling -/

/-- **`SchedulerRepository.Sync` mirrors the items.** -/
theorem repositorySync_mirrors {keyOf : String → String} (hs : Consistent comparer keyOf s)
    (hitems : ItemsOk keyOf items) (hgood : ∀ p ∈ items, Good comparer clock p) :
    ∃ s', SchedulerRepository.sync comparer clock (some items) s = .ok () s' ∧
      Mirrors comparer items s'.tasks := by
  obtain ⟨s', hrun, hp⟩ := sync_good hs hitems hgood
  have hcons := hp.consistent_end hs hitems
  have hmirrors := hp.mirrors hs.toDistinct hitems
  refine ⟨s', hrun, mirrors_of_fits hitems.uids hmirrors.uids fun t ht => ?_⟩
  exact ⟨t.task, hmirrors.tasks t ht, (hcons.owned t ht).uid, rfl, (hcons.owned t ht).schedule⟩

/-! ## The tasks before the third loop -/

section AfterAdds

theorem map_uid_of_fits {added : List T} {new : List (ScheduledTask T)}
    (h : List.Forall₂ (Fits comparer) added new) :
    new.map ScheduledTask.uid = added.map IScheduledTaskItem.uid := by
  induction h with
  | nil => rfl
  | cons hfits _ ih => rw [List.map_cons, List.map_cons, hfits.uid, ih]

/-- The first loop makes the Uids those of the items iff they were those of the items it did not
add. -/
theorem Added.uids_iff (h : Added comparer items s ts) :
    (ts.map ScheduledTask.uid).Perm (items.map IScheduledTaskItem.uid) ↔
      (s.tasks.map ScheduledTask.uid).Perm
        ((items.filter fun p => s.hasKey (IScheduledTaskItem.key p)).map
          IScheduledTaskItem.uid) := by
  obtain ⟨added, new, hadded, hnew, rfl⟩ := h
  have hitems : (items.map IScheduledTaskItem.uid).Perm
      ((items.filter fun p => s.hasKey (IScheduledTaskItem.key p)).map IScheduledTaskItem.uid ++
        added.map IScheduledTaskItem.uid) := by
    rw [← List.map_append]
    exact ((List.filter_append_perm _ items).symm.trans (hadded.symm.append_left _)).map _
  rw [List.map_append, map_uid_of_fits hnew]
  calc (s.tasks.map ScheduledTask.uid ++ added.map IScheduledTaskItem.uid).Perm
        (items.map IScheduledTaskItem.uid)
      ↔ (s.tasks.map ScheduledTask.uid ++ added.map IScheduledTaskItem.uid).Perm
          ((items.filter fun p => s.hasKey (IScheduledTaskItem.key p)).map
            IScheduledTaskItem.uid ++ added.map IScheduledTaskItem.uid) :=
        ⟨fun h => h.trans hitems, fun h => h.trans hitems.symm⟩
    _ ↔ _ := List.perm_append_right_iff _

/-- With the Uids of the items, the tasks have their Keys as well. -/
theorem Added.keys_perm (h : Added comparer items s ts)
    (hkeys : (items.map IScheduledTaskItem.key).Nodup)
    (huids : (ts.map ScheduledTask.uid).Perm (items.map IScheduledTaskItem.uid)) :
    (ts.map fun t => IScheduledTaskItem.key t.task).Perm (items.map IScheduledTaskItem.key) := by
  obtain ⟨added, new, hadded, hnew, rfl⟩ := h
  have hlength := huids.length_eq
  rw [List.length_map, List.length_map] at hlength
  refine (List.Subperm.perm_of_length_le (hkeys.subperm ?_) (by simp [← hlength])).symm
  intro k hk
  obtain ⟨p, hp, rfl⟩ := List.mem_map.1 hk
  cases hknown : s.hasKey (IScheduledTaskItem.key p) with
  | true =>
    obtain ⟨t, ht, hkey⟩ := hasKey_iff.1 hknown
    exact List.mem_map.2 ⟨t, List.mem_append_left _ ht, hkey⟩
  | false =>
    have hp' : p ∈ added := hadded.symm.subset (List.mem_filter.2 ⟨hp, by simp [hknown]⟩)
    obtain ⟨t, ht, hf⟩ := (mem_of_forall₂ hnew).1 p hp'
    exact List.mem_map.2 ⟨t, List.mem_append_right _ ht, by rw [hf.task]⟩

theorem Added.mem (h : Added comparer items s ts) {t : ScheduledTask T} (ht : t ∈ ts) :
    t ∈ s.tasks ∨ ∃ p ∈ items, Fits comparer p t := by
  obtain ⟨added, new, hadded, hnew, rfl⟩ := h
  rcases List.mem_append.1 ht with ht | ht
  · exact Or.inl ht
  · obtain ⟨p, hp, hf⟩ := (mem_of_forall₂ hnew).2 t ht
    exact Or.inr ⟨p, (List.mem_filter.1 (hadded.subset hp)).1, hf⟩

end AfterAdds

/-! ## The third loop -/

section ThirdLoop

theorem Visited.uids (h : Visited comparer p ts ts') :
    ts'.map ScheduledTask.uid = ts.map ScheduledTask.uid := by
  rcases h with ⟨-, rfl⟩ | ⟨-, h⟩
  · rfl
  · exact h.uids

/-- A round changes at most the task with the Uid of its value. -/
theorem mem_of_replaced (h : Replaced comparer p ts ts')
    (huids : (ts.map ScheduledTask.uid).Nodup) {t : ScheduledTask T} (ht : t ∈ ts') :
    (t ∈ ts ∧ t.uid ≠ IScheduledTaskItem.uid p) ∨ Fits comparer p t := by
  have huids' : (ts'.map ScheduledTask.uid).Nodup := h.uids ▸ huids
  rcases h with ⟨i, t₀, t', hi, huid, hfits, rfl⟩ | ⟨hnone, rfl⟩
  · have hlt : i < ts.length := (List.getElem?_eq_some_iff.1 hi).1
    by_cases heq : t.uid = IScheduledTaskItem.uid p
    · have : t = t' := List.inj_on_of_nodup_map huids' ht (List.mem_set hlt t')
        (heq.trans hfits.uid.symm)
      exact Or.inr (this ▸ hfits)
    · rcases List.mem_or_eq_of_mem_set ht with hmem | rfl
      · exact Or.inl ⟨hmem, heq⟩
      · exact absurd hfits.uid heq
  · exact Or.inl ⟨ht, hnone t ht⟩

/-- A round leaves the tasks with other Uids. -/
theorem Visited.stays (h : Visited comparer p ts ts') {t : ScheduledTask T} (ht : t ∈ ts)
    (huid : t.uid ≠ IScheduledTaskItem.uid p) : t ∈ ts' := by
  rcases h with ⟨-, rfl⟩ | ⟨-, ⟨i, t₀, t', hi, huid₀, -, rfl⟩ | ⟨-, rfl⟩⟩
  · exact ht
  · obtain ⟨j, hj⟩ := List.mem_iff_getElem?.1 ht
    apply List.mem_of_getElem? (i := j)
    rw [← hj]
    apply List.getElem?_set_ne
    rintro rfl
    cases hi.symm.trans hj
    exact huid huid₀
  · exact ht

/-- The invariant of the third loop: a task shows an item, or its item is still to come and the
task is the one before the loop. -/
structure Feeding (comparer : CompareInfo) (items : List T) (ts₁ : List (ScheduledTask T))
    (done : List T) (ts : List (ScheduledTask T)) : Prop where
  uids : ts.map ScheduledTask.uid = ts₁.map ScheduledTask.uid
  tasks : ∀ t ∈ ts, (∃ p ∈ items, Fits comparer p t) ∨
    (t ∈ ts₁ ∧ ∀ p ∈ done, IScheduledTaskItem.uid p ≠ t.uid)

theorem Feeding.round {ts₁ : List (ScheduledTask T)} {done : List T}
    (h : Feeding comparer items ts₁ done ts) (hvisited : Visited comparer p ts ts')
    (hp : p ∈ items) (hgood : Good comparer clock p)
    (hkeys : (items.map IScheduledTaskItem.key).Nodup)
    (huids : (ts₁.map ScheduledTask.uid).Nodup)
    (hschedules : ∀ p ∈ items, ∀ t ∈ ts₁,
      IScheduledTaskItem.key t.task = IScheduledTaskItem.key p →
      IScheduledTaskItem.schedule p ≠ IScheduledTaskItem.schedule t.task ∨ Fits comparer p t) :
    Feeding comparer items ts₁ (done ++ [p]) ts' := by
  have hlater : ∀ t : ScheduledTask T, t.uid ≠ IScheduledTaskItem.uid p →
      (∃ q ∈ items, Fits comparer q t) ∨
        (t ∈ ts₁ ∧ ∀ q ∈ done, IScheduledTaskItem.uid q ≠ t.uid) →
      (∃ q ∈ items, Fits comparer q t) ∨
        (t ∈ ts₁ ∧ ∀ q ∈ done ++ [p], IScheduledTaskItem.uid q ≠ t.uid) := by
    intro t hne
    refine Or.imp_right fun hold => ⟨hold.1, fun q hq => ?_⟩
    rcases List.mem_append.1 hq with hq | hq
    · exact hold.2 q hq
    · rw [List.mem_singleton.1 hq]
      exact hne.symm
  refine ⟨hvisited.uids.trans h.uids, fun t ht => ?_⟩
  rcases hvisited with ⟨hsame, rfl⟩ | ⟨-, hreplaced⟩
  · -- the first task with the Key of `p` shows the schedule text of `p`: it shows `p`
    obtain ⟨q, hq, hkey, htext⟩ : ∃ q ∈ ts', IScheduledTaskItem.key q.task =
        IScheduledTaskItem.key p ∧ IScheduledTaskItem.schedule p =
          IScheduledTaskItem.schedule q.task := by
      unfold scheduleIn at hsame
      cases hfind : ts'.find? fun x => IScheduledTaskItem.key x.task ==
          IScheduledTaskItem.key p with
      | none =>
        rw [hfind, Option.bind_none] at hsame
        obtain ⟨schedule, hparse, -⟩ := hgood
        rw [hsame] at hparse
        cases hparse
      | some q =>
        rw [hfind, Option.bind_some] at hsame
        exact ⟨q, List.mem_of_find?_eq_some hfind, by simpa using List.find?_some hfind, hsame⟩
    have hfits : Fits comparer p q := by
      rcases h.tasks q hq with ⟨x, hx, hf⟩ | ⟨hq₁, -⟩
      · have : x = p := List.inj_on_of_nodup_map hkeys hx hp (by rw [← hkey, hf.task])
        exact this ▸ hf
      · exact (hschedules p hp q hq₁ hkey).resolve_left (not_not.2 htext)
    by_cases heq : t.uid = IScheduledTaskItem.uid p
    · have hnodup : (ts'.map ScheduledTask.uid).Nodup := h.uids ▸ huids
      have : t = q := List.inj_on_of_nodup_map hnodup ht hq (heq.trans hfits.uid.symm)
      exact Or.inl ⟨p, hp, this ▸ hfits⟩
    · exact hlater t heq (h.tasks t ht)
  · rcases mem_of_replaced hreplaced (h.uids ▸ huids) ht with ⟨hmem, heq⟩ | hfits
    · exact hlater t heq (h.tasks t hmem)
    · exact Or.inl ⟨p, hp, hfits⟩

end ThirdLoop

/-! ## The condition -/

/-- A call that has returned, by an invariant of its third loop. -/
theorem follow_returned {h₀ : server.Hash} {σ' : SchedulerRepository T × server.Hash}
    (hs : s.heap.AllocatedIn s.scheduledTasks) (hst : Stores content h₀)
    (hkeyed : dic.Keyed content) (hgood : ∀ p ∈ dic.valuesOf content, Good comparer clock p)
    (hrun : sync dic comparer clock (s, h₀) = .ok () σ') :
    ∃ ts hash', Added comparer (dic.valuesOf content) s ts ∧
      (∃ n, hash' = server.reorder^[n] h₀) ∧ Stores content hash' ∧
      ∀ Inv : List T → List (ScheduledTask T) → Prop,
        (∀ done p rest ts ts', dic.valuesOf (server.read hash') = done ++ p :: rest →
          Inv done ts → Visited comparer p ts ts' → Inv (done ++ [p]) ts') →
        Inv [] ts → Inv (dic.valuesOf (server.read hash')) σ'.1.tasks := by
  obtain ⟨ts, hadded, hthrow, hloop⟩ := sync_spec clock (Ready.start hs hst) hkeyed hgood
  have hkeys : ∀ t ∈ ts, IScheduledTaskItem.key t.task ∈ content.keys := by
    by_contra hlost
    push Not at hlost
    obtain ⟨σ'', hthrown⟩ := hthrow hlost
    cases hrun.symm.trans hthrown
  obtain ⟨hash', hn, hst', hfollow⟩ := hloop hkeys
  refine ⟨ts, hash', hadded, hn, hst', fun Inv hround hstart => ?_⟩
  obtain ⟨σ'', hrun', hinv⟩ := hfollow Inv hround hstart
  cases hrun.symm.trans hrun'
  exact hinv

/-- What the property asks of one server already gives the Uids. -/
theorem uids_of_mirrors {h₀ : server.Hash} {σ' : SchedulerRepository T × server.Hash}
    (hs : s.heap.AllocatedIn s.scheduledTasks) (hst : Stores content h₀)
    (hkeyed : dic.Keyed content) (hgood : ∀ p ∈ dic.valuesOf content, Good comparer clock p)
    (hrun : sync dic comparer clock (s, h₀) = .ok () σ')
    (hmirrors : Mirrors comparer (dic.valuesOf content) σ'.1.tasks) :
    (s.tasks.map ScheduledTask.uid).Perm
      (((dic.valuesOf content).filter fun p => s.hasKey (IScheduledTaskItem.key p)).map
        IScheduledTaskItem.uid) := by
  obtain ⟨ts, hash', hadded, -, -, hfollow⟩ := follow_returned hs hst hkeyed hgood hrun
  have hsame : σ'.1.tasks.map ScheduledTask.uid = ts.map ScheduledTask.uid :=
    hfollow (fun _ ts' => ts'.map ScheduledTask.uid = ts.map ScheduledTask.uid)
      (fun _ _ _ _ _ _ hinv hvisited => hvisited.uids.trans hinv) rfl
  exact hadded.uids_iff.1 (hsame ▸ hmirrors.uids)

/-- If the hash lists a value first, a task with its Key and its schedule text must show it. -/
theorem fits_of_first {h₀ : server.Hash} {σ' : SchedulerRepository T × server.Hash}
    (hs : s.heap.AllocatedIn s.scheduledTasks) (hst : Stores content h₀)
    (hkeyed : dic.Keyed content) (hgood : ∀ p ∈ dic.valuesOf content, Good comparer clock p)
    (huids : ((dic.valuesOf content).map IScheduledTaskItem.uid).Nodup)
    (hfirst : ∀ n, ∃ rest, dic.valuesOf (server.read (server.reorder^[n] h₀)) = p :: rest)
    (hrun : sync dic comparer clock (s, h₀) = .ok () σ')
    (hmirrors : Mirrors comparer (dic.valuesOf content) σ'.1.tasks)
    {t : ScheduledTask T} (ht : t ∈ s.tasks)
    (hkey : IScheduledTaskItem.key t.task = IScheduledTaskItem.key p)
    (htext : IScheduledTaskItem.schedule p = IScheduledTaskItem.schedule t.task) :
    Fits comparer p t := by
  have hperm₁ := uids_of_mirrors hs hst hkeyed hgood hrun hmirrors
  obtain ⟨ts, hash', hadded, ⟨n, rfl⟩, hst', hfollow⟩ := follow_returned hs hst hkeyed hgood hrun
  obtain ⟨rest, horder⟩ := hfirst n
  have hvalues := hst'.values_perm dic
  have hp : p ∈ dic.valuesOf content := hvalues.subset (by rw [horder]; simp)
  have hperm := hadded.uids_iff.2 hperm₁
  have hkeys : (ts.map fun t => IScheduledTaskItem.key t.task).Nodup :=
    (hadded.keys_perm hkeyed.keys_nodup hperm).nodup_iff.2 hkeyed.keys_nodup
  have ht' : t ∈ ts := by
    obtain ⟨added, new, -, -, rfl⟩ := hadded
    exact List.mem_append_left _ ht
  have hfound : scheduleIn ts (IScheduledTaskItem.key p) = IScheduledTaskItem.schedule p := by
    unfold scheduleIn
    cases hfind : ts.find? fun x => IScheduledTaskItem.key x.task ==
        IScheduledTaskItem.key p with
    | none => exact absurd (by simp [hkey]) (List.find?_eq_none.1 hfind t ht')
    | some q =>
      have hq : q = t := List.inj_on_of_nodup_map hkeys (List.mem_of_find?_eq_some hfind) ht'
        ((by simpa using List.find?_some hfind : IScheduledTaskItem.key q.task = _).trans
          hkey.symm)
      rw [Option.bind_some, hq, htext]
  obtain ⟨u, hu, huid⟩ := List.mem_map.1 (hperm.symm.subset (List.mem_map_of_mem hp))
  -- the task with the Uid of `p` stays as it is: no round changes it
  have hstays : u ∈ σ'.1.tasks ∧ (dic.valuesOf (server.read (server.reorder^[n] h₀)) = [] →
      σ'.1.tasks = ts) := by
    apply hfollow (fun done ts' => u ∈ ts' ∧ (done = [] → ts' = ts)) ?_ ⟨hu, fun _ => rfl⟩
    rintro done q rest' ts₁ ts₂ hdone ⟨hmem, hbegin⟩ hvisited
    refine ⟨?_, fun hnil => absurd hnil (by simp)⟩
    rw [horder] at hdone
    cases done with
    | nil =>
      obtain ⟨rfl, -⟩ := List.cons_eq_cons.1 hdone
      obtain rfl := hbegin rfl
      rcases hvisited with ⟨-, rfl⟩ | ⟨hne, -⟩
      · exact hmem
      · exact absurd hfound.symm hne
    | cons x done =>
      obtain ⟨rfl, hrest⟩ := List.cons_eq_cons.1 hdone
      have hnodup := (hvalues.map IScheduledTaskItem.uid).nodup_iff.2 huids
      rw [horder, List.map_cons, List.nodup_cons, hrest] at hnodup
      refine hvisited.stays hmem fun heq => hnodup.1 ?_
      rw [← huid, heq]
      exact List.mem_map_of_mem (by simp)
  have hshown : u.task ∈ dic.valuesOf content :=
    hmirrors.tasks.subset (List.mem_map_of_mem hstays.1)
  have htask : u.task = p := List.inj_on_of_nodup_map huids hshown hp
    ((hmirrors.uid u hstays.1).symm.trans huid)
  have hut : u = t := List.inj_on_of_nodup_map hkeys hu ht' (by rw [htask, hkey])
  rw [← hut]
  exact ⟨huid, htask, htask ▸ hmirrors.schedule u hstays.1⟩

/-- **The feeder mirrors the hash iff the repository is `Feedable`.** -/
theorem feeder_mirrors_iff (dic : RedisDictionary T) (comparer : CompareInfo) (clock : Clock)
    (content : Entries) (hkeyed : dic.Keyed content)
    (huids : ((dic.valuesOf content).map IScheduledTaskItem.uid).Nodup)
    (hgood : ∀ p ∈ dic.valuesOf content, Good comparer clock p)
    (s : SchedulerRepository T) (hs : s.heap.AllocatedIn s.scheduledTasks) :
    (∀ (server : RedisServer) (h : server.Hash), Stores content h →
      ∃ σ', sync dic comparer clock (s, h) = .ok () σ' ∧
        Mirrors comparer (dic.valuesOf content) σ'.1.tasks) ↔
    Feedable comparer (dic.valuesOf content) s := by
  constructor
  · intro hall
    have hown : @Stores RedisServer.lastWritten content content := fun _ => rfl
    obtain ⟨σ', hrun, hmirrors⟩ := hall _ _ hown
    refine ⟨uids_of_mirrors hs hown hkeyed hgood hrun hmirrors, fun p hp t ht hkey => ?_⟩
    refine or_iff_not_imp_left.2 fun htext => ?_
    -- a hash with the content in which the entry of `p` was written last
    obtain ⟨text, htext', hread⟩ := hkeyed.lookup hp
    have hfront : @Stores RedisServer.lastWritten content
        (content.insert (IScheduledTaskItem.key p) text) := by
      intro k
      show (content.insert (IScheduledTaskItem.key p) text).lookup k = content.lookup k
      by_cases hk : k = IScheduledTaskItem.key p
      · rw [hk, AList.lookup_insert, htext']
      · exact AList.lookup_insert_ne hk
    obtain ⟨σ'', hrun', hmirrors'⟩ := hall _ _ hfront
    refine fits_of_first hs hfront hkeyed hgood huids (fun n => ?_) hrun' hmirrors' ht hkey
      (not_not.1 htext)
    have hstay : RedisServer.lastWritten.reorder^[n]
        (content.insert (IScheduledTaskItem.key p) text) =
          content.insert (IScheduledTaskItem.key p) text :=
      congrFun (Function.iterate_id n) _
    rw [hstay]
    exact ⟨_, valuesOf_insert (IScheduledTaskItem.key p) content hread⟩
  · intro hfeedable server h hst
    obtain ⟨ts, hadded, -, hloop⟩ := sync_spec clock (Ready.start hs hst) hkeyed hgood
    have hperm := hadded.uids_iff.2 hfeedable.uids
    have hkeys := hadded.keys_perm hkeyed.keys_nodup hperm
    have hschedules : ∀ p ∈ dic.valuesOf content, ∀ t ∈ ts,
        IScheduledTaskItem.key t.task = IScheduledTaskItem.key p →
        IScheduledTaskItem.schedule p ≠ IScheduledTaskItem.schedule t.task ∨
          Fits comparer p t := by
      intro p hp t ht hkey
      rcases hadded.mem ht with ht | ⟨q, hq, hf⟩
      · exact hfeedable.schedules p hp t ht hkey
      · have : q = p := List.inj_on_of_nodup_map hkeyed.keys_nodup hq hp (by rw [← hkey, hf.task])
        exact Or.inr (this ▸ hf)
    obtain ⟨hash', -, hst', hfollow⟩ := hloop fun t ht => by
      rw [hkeyed.keys]
      exact hkeys.subset (List.mem_map_of_mem ht)
    have hvalues := hst'.values_perm dic
    obtain ⟨σ', hrun, hend⟩ := hfollow (Feeding comparer (dic.valuesOf content) ts)
      (fun done p rest ts₁ ts₂ horder hinv hvisited => by
        have hp : p ∈ dic.valuesOf content := hvalues.subset (by rw [horder]; simp)
        exact hinv.round hvisited hp (hgood p hp) hkeyed.keys_nodup
          (hperm.nodup_iff.2 huids) hschedules)
      ⟨rfl, fun t ht => Or.inr ⟨ht, by simp⟩⟩
    refine ⟨σ', hrun, mirrors_of_fits huids (hend.uids ▸ hperm) fun t ht => ?_⟩
    rcases hend.tasks t ht with hfits | ⟨ht₁, hnone⟩
    · exact hfits
    · obtain ⟨p, hp, huid⟩ := List.mem_map.1 (hperm.subset (List.mem_map_of_mem ht₁))
      exact absurd huid (hnone p (hvalues.symm.subset hp))

/-! ## Concrete runs -/

def hourlyText : String := "\x7b\"Uid\":\"a\",\"Key\":\"hourly.default\"\x7d"

def dailyText : String := "\x7b\"Uid\":\"b\",\"Key\":\"daily.default\"\x7d"

/-- The hash of the two checks, as the texts of their identities. -/
def healthChecks : RedisDictionary HealthCheckResourceV1 where
  serialize := fun item => if item.uid == "a" then hourlyText else dailyText
  deserialize := fun text =>
    if text == hourlyText then .ok hourlyCheck
    else if text == dailyText then .ok dailyCheck
    else .error (.exception "Unexpected character encountered while parsing value")
  keyValue := fun item => some (IScheduledTaskItem.key item)
  default := hourlyCheck

def twoChecks : Entries := (AList.singleton "daily.default" dailyText).insert "hourly.default"
  hourlyText

theorem twoChecks_entries : twoChecks.entries =
    [⟨"hourly.default", hourlyText⟩, ⟨"daily.default", dailyText⟩] := by decide +kernel

theorem read_hourlyText : healthChecks.deserialize hourlyText = .ok hourlyCheck := by
  unfold healthChecks
  simp only [beq_self_eq_true, if_true]

theorem read_dailyText : healthChecks.deserialize dailyText = .ok dailyCheck := by
  have hne : ¬ (dailyText == hourlyText) = true := by decide +kernel
  unfold healthChecks
  simp only [if_neg hne, beq_self_eq_true, if_true]

theorem valuesOf_twoChecks : healthChecks.valuesOf twoChecks = [hourlyCheck, dailyCheck] := by
  unfold valuesOf
  rw [twoChecks_entries, List.map_cons, List.map_singleton, decode_eq read_hourlyText,
    decode_eq read_dailyText]

theorem keyed_twoChecks : healthChecks.Keyed twoChecks := by
  have hkeys : IScheduledTaskItem.key hourlyCheck = "hourly.default" ∧
      IScheduledTaskItem.key dailyCheck = "daily.default" := by decide +kernel
  intro e he
  rw [twoChecks_entries] at he
  rcases List.mem_cons.1 he with rfl | he
  · rw [decode_eq read_hourlyText]
    exact ⟨read_hourlyText, hkeys.1⟩
  · rw [List.mem_singleton.1 he, decode_eq read_dailyText]
    exact ⟨read_dailyText, hkeys.2⟩

/-- The repository with the hourly check alone. -/
theorem exists_hourly : ∃ (s : SchedulerRepository HealthCheckResourceV1) (t : _),
    s.heap.AllocatedIn s.scheduledTasks ∧ s.tasks = [t] ∧ Fits .ascii hourlyCheck t := by
  obtain ⟨s, t, -, hs, hfits, htasks⟩ := add_good (s := .empty) newYear
    (by simp [SchedulerRepository.empty, Heap.AllocatedIn]) good_hourlyCheck
  exact ⟨s, t, hs, htasks, hfits⟩

/-- The repository has the hourly check, the hash the daily one as well: both are there in the
end. -/
theorem feeder_mirrors_iff_newCheck : ∃ s : SchedulerRepository HealthCheckResourceV1,
    s.tasks.map ScheduledTask.task = [hourlyCheck] ∧
    ∀ (server : RedisServer) (h : server.Hash), Stores twoChecks h →
      ∃ σ', sync healthChecks .ascii newYear (s, h) = .ok () σ' ∧
        Mirrors .ascii (healthChecks.valuesOf twoChecks) σ'.1.tasks := by
  have hgood : Good .ascii newYear dailyCheck := good_of_check (by decide +kernel)
  obtain ⟨s, t, hs, htasks, hfits⟩ := exists_hourly
  refine ⟨s, by rw [htasks, List.map_singleton, hfits.task], (feeder_mirrors_iff healthChecks .ascii
    newYear twoChecks keyed_twoChecks ?_ ?_ s hs).2 ⟨?_, ?_⟩⟩
  · rw [valuesOf_twoChecks]
    decide
  · rw [valuesOf_twoChecks]
    simpa using ⟨good_hourlyCheck, hgood⟩
  · have hknown : ∀ p : HealthCheckResourceV1, s.hasKey (IScheduledTaskItem.key p) =
        (IScheduledTaskItem.key hourlyCheck == IScheduledTaskItem.key p) := by
      intro p
      rw [hasKey, htasks, List.any_cons, List.any_nil, Bool.or_false, hfits.task]
    have hother : (IScheduledTaskItem.key hourlyCheck == IScheduledTaskItem.key dailyCheck) =
        false := by decide +kernel
    rw [valuesOf_twoChecks, htasks]
    simp [hknown, hother, hfits.uid]
  · intro p hp t' ht' hkey
    rw [htasks, List.mem_singleton] at ht'
    rw [ht', hfits.task] at hkey
    have : hourlyCheck = p := List.inj_on_of_nodup_map keyed_twoChecks.keys_nodup
      (by rw [valuesOf_twoChecks]; simp) hp hkey
    rw [ht', ← this]
    exact Or.inr hfits

def noChecks : RedisServer.lastWritten.Hash := (∅ : Entries)

/-- The check of the only task has been deleted from the hash: the task is removed, and the call
throws. -/
theorem feeder_throws_on_removal : ∃ s : SchedulerRepository HealthCheckResourceV1,
    s.heap.AllocatedIn s.scheduledTasks ∧ s.tasks.map ScheduledTask.task = [hourlyCheck] ∧
    (∃ σ', sync healthChecks .ascii newYear (s, noChecks) =
      .error .invalidOperationException σ') ∧
    ¬ ∃ σ', sync healthChecks .ascii newYear (s, noChecks) = .ok () σ' ∧
      Mirrors .ascii (healthChecks.valuesOf ∅) σ'.1.tasks := by
  obtain ⟨s, t, hs, htasks, hfits⟩ := exists_hourly
  have hkeyed : healthChecks.Keyed ∅ := by simp [Keyed]
  have hgood : ∀ p ∈ healthChecks.valuesOf ∅, Good .ascii newYear p := by simp [valuesOf]
  obtain ⟨ts, hadded, hthrow, -⟩ :=
    sync_spec newYear (Ready.start hs (show Stores ∅ noChecks from fun _ => rfl)) hkeyed hgood
  obtain ⟨added, new, -, -, rfl⟩ := hadded
  obtain ⟨σ', hthrown⟩ := hthrow ⟨t, by simp [htasks], by simp⟩
  refine ⟨s, hs, by rw [htasks, List.map_singleton, hfits.task], ⟨σ', hthrown⟩, ?_⟩
  rintro ⟨σ'', hrun, -⟩
  cases hthrown.symm.trans hrun

end Sentinel.SchedulerRedisRepositoryFeeder
