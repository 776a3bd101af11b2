import Sentinel.Redis.RedisMap
import Sentinel.Scheduler.SyncResults

/-!
# `SchedulerRedisRepositoryFeeder<T>`

The feeder brings the repository in line with a Redis hash in three loops: it adds what is in the
hash only, removes what is in the repository only, and updates schedules that differ.
-/

set_option autoImplicit false

namespace Sentinel

open Commands Throwing

namespace SchedulerRepository

variable {T : Type} [IScheduledTaskItem T]

/-- `ScheduledTasks.Any(repo => repo.Task.Key == key)`. -/
def hasKey (s : SchedulerRepository T) (key : String) : Bool :=
  s.tasks.any fun repo => IScheduledTaskItem.key repo.task == key

/-- `ScheduledTasks.FirstOrDefault(x => x.Task.Key == key)?.Task.Schedule`. -/
def scheduleOfKey (s : SchedulerRepository T) (key : String) : Option String :=
  match s.firstOrDefault fun x => IScheduledTaskItem.key x.task == key with
  | some (_, x) => IScheduledTaskItem.schedule x.task
  | none => none

end SchedulerRepository

namespace SchedulerRedisRepositoryFeeder

open SchedulerRepository

variable {T : Type} [IScheduledTaskItem T] {server : RedisServer}

/-- A computation on the repository and the hash. -/
abbrev Feeder (server : RedisServer) (T : Type) :=
  EStateM Exn (SchedulerRepository T × server.Hash)

def onRedis {α : Type} (program : Redis α) : Feeder server T α :=
  onPart Prod.snd (fun s hash => (s.1, hash)) (alone server.exec program)

def onRepository {α : Type} (m : EStateM Exn (SchedulerRepository T) α) : Feeder server T α :=
  onPart Prod.fst (fun s repository => (repository, s.2)) m

variable (redisDictionary : RedisDictionary T) (comparer : CompareInfo) (clock : Clock)

/-- A round of the first loop: the query looks at the tasks of the moment. -/
def addItem (itemKey : String) : Feeder server T Unit := do
  let tasks ← onRepository get
  if tasks.hasKey itemKey then pure ()
  else do
    let itm ← onRedis (redisDictionary.getItem (some itemKey))
    onRepository (add comparer clock itm)

/-- The second loop, from a task on.  It enumerates the list it removes from, so the next
`MoveNext` after a removal throws, at the end of the list as well. -/
def removeItems : List Ref → Feeder server T Unit
  | [] => pure ()
  | repo :: rest => do
    let keys ← onRedis RedisDictionary.keys
    let tasks ← onRepository get
    match tasks.heap.read repo with
    | none => removeItems rest
    | some item =>
      if keys.any fun redisKey => redisKey == IScheduledTaskItem.key item.task then
        removeItems rest
      else do
        onRepository (modify fun tasks => tasks.remove repo)
        throw .invalidOperationException

/-- A round of the third loop. -/
def updateItem (hashKey : String) : Feeder server T Unit := do
  let pair ← onRedis (redisDictionary.enumerateKey hashKey)
  let tasks ← onRepository get
  if IScheduledTaskItem.schedule pair.2 ≠ tasks.scheduleOfKey pair.1 then
    onRepository (updateSchedulerRepository comparer clock pair.2)
  else pure ()

def sync : Feeder server T Unit := do
  let itemsInRedis ← onRedis RedisDictionary.keys
  itemsInRedis.forM (addItem redisDictionary comparer clock)
  let tasks ← onRepository get
  removeItems tasks.scheduledTasks
  let hashKeys ← onRedis RedisDictionary.keys
  hashKeys.forM (updateItem redisDictionary comparer clock)

end SchedulerRedisRepositoryFeeder

/-! ## The repository by its tasks -/

namespace SchedulerRepository

variable {T : Type} {s : SchedulerRepository T}

theorem firstOrDefault_eq_find (p : ScheduledTask T → Bool) :
    (s.firstOrDefault p).map Prod.snd = s.tasks.find? p := by
  unfold firstOrDefault tasks Heap.readAll
  induction s.scheduledTasks with
  | nil => rfl
  | cons r rs ih =>
    rw [List.findSome?_cons, List.filterMap_cons]
    cases s.heap.read r with
    | none => exact ih
    | some t =>
      rw [List.find?_cons]
      cases hp : p t with
      | true => simp [hp]
      | false => simpa [hp] using ih

variable [IScheduledTaskItem T] {comparer : CompareInfo} {clock : Clock} {item : T}

theorem scheduleOfKey_eq (key : String) : s.scheduleOfKey key =
    (s.tasks.find? fun x => IScheduledTaskItem.key x.task == key).bind fun x =>
      IScheduledTaskItem.schedule x.task := by
  unfold scheduleOfKey
  rw [← firstOrDefault_eq_find]
  cases s.firstOrDefault fun x => IScheduledTaskItem.key x.task == key with
  | none => rfl
  | some found => rfl

/-- The task shows the item. -/
structure Fits (comparer : CompareInfo) (item : T) (t : ScheduledTask T) : Prop where
  uid : t.uid = IScheduledTaskItem.uid item
  task : t.task = item
  schedule : CrontabSchedule.parse comparer (IScheduledTaskItem.schedule item) = .ok t.schedule

theorem Fresh.fits {lo hi : ℕ} {t : ScheduledTask T} (h : Fresh comparer clock lo hi item t) :
    Fits comparer item t :=
  ⟨h.uid, h.task, h.schedule⟩

/-- A task with the item's Uid has been replaced by one that shows the item, if there is any. -/
def Replaced (comparer : CompareInfo) (item : T) (ts ts' : List (ScheduledTask T)) : Prop :=
  (∃ i t t', ts[i]? = some t ∧ t.uid = IScheduledTaskItem.uid item ∧ Fits comparer item t' ∧
    ts' = ts.set i t') ∨
  (∀ t ∈ ts, t.uid ≠ IScheduledTaskItem.uid item) ∧ ts' = ts

theorem add_good (clock : Clock) (hs : s.heap.AllocatedIn s.scheduledTasks)
    (hgood : Good comparer clock item) :
    ∃ s' t, add comparer clock item s = .ok () s' ∧ s'.heap.AllocatedIn s'.scheduledTasks ∧
      Fits comparer item t ∧ s'.tasks = s.tasks ++ [t] := by
  have hend := add_spec comparer clock item s
  cases hr : add comparer clock item s with
  | error e s' =>
    rw [hr] at hend
    exact absurd hgood hend.1
  | ok u s' =>
    rw [hr] at hend
    obtain ⟨t, hfresh, rfl⟩ := hend
    refine ⟨_, t, rfl, ?_, hfresh.fits, ?_⟩
    · intro r hr
      rcases List.mem_append.1 hr with hr | hr
      · obtain ⟨w, hw⟩ := hs r hr
        exact ⟨w, (Heap.read_alloc_of_lt (Heap.lt_next_of_read hw)).trans hw⟩
      · rw [List.mem_singleton.1 hr]
        exact ⟨t, Heap.read_alloc_next⟩
    · show (s.heap.alloc t).readAll (s.scheduledTasks ++ [s.heap.next]) = _
      rw [Heap.readAll_append, Heap.readAll_alloc hs, Heap.readAll_cons Heap.read_alloc_next,
        Heap.readAll_nil]
      rfl

theorem updateSchedulerRepository_good (clock : Clock) (hs : s.heap.AllocatedIn s.scheduledTasks)
    (hgood : Good comparer clock item) :
    ∃ s', updateSchedulerRepository comparer clock item s = .ok () s' ∧
      s'.heap.AllocatedIn s'.scheduledTasks ∧ Replaced comparer item s.tasks s'.tasks := by
  unfold updateSchedulerRepository
  rw [bind_ok (utcNow_apply clock s), bind_ok (utcNow_apply clock s.tick)]
  cases hnew : ScheduledTask.new comparer item (clock.reading s.tick.clockReads) with
  | error e => exact absurd hgood (not_good_of_new hnew)
  | ok t' =>
    have hfits := (fresh_of_new hnew).fits
    obtain ⟨next, hnext⟩ := hgood.next_ok hfits.schedule s.tick.clockReads
    rw [bind_ok (ofExcept_ok t' _), bind_ok (get_apply _)]
    rcases firstOrDefault_spec (s := s.tick.tick)
      (p := fun e => e.uid == IScheduledTaskItem.uid item) with
      ⟨r, t, hfind, hr, hread, huid⟩ | ⟨hfind, hnone⟩
    · obtain ⟨i, hidx, hi⟩ := idxOf?_of_mem hr
      simp only [hfind, hidx]
      rw [bind_ok (modify_apply _ _), hnext, bind_ok (ofExcept_ok next _)]
      refine ⟨_, rfl, ?_, Or.inl ⟨i, t, t', ?_, by simpa using huid, hfits, ?_⟩⟩
      · intro r' hr'
        rcases List.mem_or_eq_of_mem_set hr' with hr' | rfl
        · obtain ⟨w, hw⟩ := hs r' hr'
          exact ⟨w, (Heap.read_alloc_of_lt (Heap.lt_next_of_read hw)).trans hw⟩
        · exact ⟨t', Heap.read_alloc_next⟩
      · show (s.heap.readAll s.scheduledTasks)[i]? = some t
        rw [Heap.getElem?_readAll hs, show s.scheduledTasks[i]? = some r from hi]
        exact hread
      · exact Heap.readAll_set_alloc hs i
    · simp only [hfind]
      exact ⟨_, rfl, hs, Or.inr ⟨fun t ht => by simpa using hnone t ht, rfl⟩⟩

/-- Whichever task is replaced, the Uids stay. -/
theorem Replaced.uids {ts ts' : List (ScheduledTask T)} (h : Replaced comparer item ts ts') :
    ts'.map ScheduledTask.uid = ts.map ScheduledTask.uid := by
  rcases h with ⟨i, t, t', hi, huid, hfits, rfl⟩ | ⟨-, rfl⟩
  · obtain ⟨hlt, rfl⟩ := List.getElem?_eq_some_iff.1 hi
    have hlt' : i < (ts.map ScheduledTask.uid).length := by simpa using hlt
    have hsame : t'.uid = (ts.map ScheduledTask.uid)[i] := by
      rw [List.getElem_map, hfits.uid, huid]
    rw [List.map_set, hsame, List.set_getElem_self]
  · rfl

end SchedulerRepository

/-! ## The hash by its content -/

namespace RedisDictionary

variable {T : Type} [IScheduledTaskItem T] {dic : RedisDictionary T} {server : RedisServer}
  {content : Entries} {h : server.Hash}

/-- The values of a content, in its order. -/
def valuesOf (dic : RedisDictionary T) (content : Entries) : List T :=
  content.entries.map fun e => dic.decode e.2

/-- Every text is accepted, and its field is the Key of its value. -/
def Keyed (dic : RedisDictionary T) (content : Entries) : Prop :=
  ∀ e ∈ content.entries, dic.deserialize e.2 = .ok (dic.decode e.2) ∧
    IScheduledTaskItem.key (dic.decode e.2) = e.1

/-- The hash has the content, in whatever order. -/
def Stores (content : Entries) (h : server.Hash) : Prop :=
  ∀ k, server.lookup h k = content.lookup k

theorem Stores.reorder (hst : Stores content h) : Stores content (server.reorder h) := by
  intro k
  rw [RedisServer.lookup_reorder_eq, hst]

theorem Stores.perm (hst : Stores content h) :
    (server.read h).entries.Perm content.entries := by
  apply List.lookup_ext (server.read h).nodupKeys content.nodupKeys
  intro k text
  have := hst k
  rw [RedisServer.lookup, AList.lookup, AList.lookup] at this
  rw [this]

theorem Stores.keyed (hst : Stores content h) (hkeyed : dic.Keyed content) :
    dic.Keyed (server.read h) :=
  fun e he => hkeyed e (hst.perm.subset he)

omit [IScheduledTaskItem T] in
theorem Stores.values_perm (dic : RedisDictionary T) (hst : Stores content h) :
    (dic.valuesOf (server.read h)).Perm (dic.valuesOf content) :=
  hst.perm.map _

theorem Keyed.keys (hkeyed : dic.Keyed content) :
    content.keys = (dic.valuesOf content).map IScheduledTaskItem.key := by
  unfold AList.keys List.keys valuesOf
  rw [List.map_map]
  exact List.map_congr_left fun e he => (hkeyed e he).2.symm

theorem Keyed.keys_nodup (hkeyed : dic.Keyed content) :
    ((dic.valuesOf content).map IScheduledTaskItem.key).Nodup :=
  hkeyed.keys ▸ content.keys_nodup

/-- A value of the content is found under its Key. -/
theorem Keyed.lookup (hkeyed : dic.Keyed content) {p : T} (hp : p ∈ dic.valuesOf content) :
    ∃ text, content.lookup (IScheduledTaskItem.key p) = some text ∧
      dic.deserialize text = .ok p := by
  obtain ⟨⟨k, text⟩, he, rfl⟩ := List.mem_map.1 hp
  obtain ⟨hread, hkey⟩ := hkeyed _ he
  refine ⟨text, ?_, hread⟩
  rw [← Option.mem_def, hkey]
  exact AList.mem_lookup_iff.2 he

omit [IScheduledTaskItem T] in
theorem decode_eq {text : String} {p : T} (hread : dic.deserialize text = .ok p) :
    dic.decode text = p := by
  unfold RedisDictionary.decode
  rw [hread]
  rfl

omit [IScheduledTaskItem T] in
/-- An entry that has just been written comes first. -/
theorem valuesOf_insert {text : String} {p : T} (key : String) (content : Entries)
    (hread : dic.deserialize text = .ok p) : dic.valuesOf (content.insert key text) =
      p :: (content.entries.kerase key).map fun e => dic.decode e.2 := by
  unfold valuesOf
  rw [AList.entries_insert, List.map_cons, decode_eq hread]

theorem run_getItem_stored (hst : Stores content h) (hkeyed : dic.Keyed content) {p : T}
    (hp : p ∈ dic.valuesOf content) :
    run server.exec (dic.getItem (some (IScheduledTaskItem.key p))) h =
      (.ok p, server.reorder h) := by
  obtain ⟨text, htext, hread⟩ := hkeyed.lookup hp
  show run server.exec (Database.hashGet (IScheduledTaskItem.key p) >>= _) h = _
  rw [run_hashGet_bind, hst, htext]
  show run server.exec (ofExcept (dic.deserialize text)) _ = _
  rw [hread]
  rfl

theorem run_enumerateKey_stored (hst : Stores content h) (hkeyed : dic.Keyed content) {p : T}
    (hp : p ∈ dic.valuesOf content) :
    run server.exec (dic.enumerateKey (IScheduledTaskItem.key p)) h =
      (.ok (IScheduledTaskItem.key p, p), server.reorder h) := by
  obtain ⟨text, htext, hread⟩ := hkeyed.lookup hp
  show run server.exec (Database.hashGet (IScheduledTaskItem.key p) >>= _) h = _
  rw [run_hashGet_bind, hst, htext]
  show run server.exec (ofExcept (dic.deserialize text) >>= _) _ = _
  rw [hread]
  rfl

end RedisDictionary

/-! ## The rounds -/

namespace SchedulerRedisRepositoryFeeder

open SchedulerRepository RedisDictionary

variable {T : Type} [IScheduledTaskItem T] {server : RedisServer} {dic : RedisDictionary T}
  {comparer : CompareInfo} {clock : Clock} {content : Entries}
  {h₀ : server.Hash} {σ : SchedulerRepository T × server.Hash} {p : T}

/-- Every reference of the task list has a task, and the hash, which has been read only, has the
content. -/
structure Ready (content : Entries) (h₀ : server.Hash)
    (σ : SchedulerRepository T × server.Hash) : Prop where
  allocated : σ.1.heap.AllocatedIn σ.1.scheduledTasks
  stores : Stores content σ.2
  rereads : ∃ n, σ.2 = server.reorder^[n] h₀

omit [IScheduledTaskItem T] in
theorem Ready.start {s : SchedulerRepository T} (hs : s.heap.AllocatedIn s.scheduledTasks)
    (hst : Stores content h₀) : Ready content h₀ (s, h₀) :=
  ⟨hs, hst, 0, rfl⟩

omit [IScheduledTaskItem T] in
/-- After one more command that reads. -/
theorem Ready.read {s : SchedulerRepository T} (h : Ready content h₀ σ)
    (hs : s.heap.AllocatedIn s.scheduledTasks) : Ready content h₀ (s, server.reorder σ.2) := by
  obtain ⟨n, hn⟩ := h.rereads
  exact ⟨hs, h.stores.reorder, n + 1, by rw [Function.iterate_succ_apply', ← hn]⟩

omit [IScheduledTaskItem T] in
theorem Ready.reorder (h : Ready content h₀ σ) : Ready content h₀ (σ.1, server.reorder σ.2) :=
  h.read h.allocated

omit [IScheduledTaskItem T] in
theorem onRepository_get : onRepository get σ = .ok σ.1 σ := rfl

omit [IScheduledTaskItem T] in
theorem onRedis_keys :
    onRedis RedisDictionary.keys σ = .ok (server.read σ.2).keys (σ.1, server.reorder σ.2) := rfl

/-- **A round of the first loop** appends a task that shows the value, unless its Key is there. -/
theorem addItem_good (h : Ready content h₀ σ) (hkeyed : dic.Keyed content)
    (hp : p ∈ dic.valuesOf content) (hgood : Good comparer clock p) :
    ∃ σ', addItem dic comparer clock (IScheduledTaskItem.key p) σ = .ok () σ' ∧
      Ready content h₀ σ' ∧
      ((σ.1.hasKey (IScheduledTaskItem.key p) = true ∧ σ'.1.tasks = σ.1.tasks) ∨
        (σ.1.hasKey (IScheduledTaskItem.key p) = false ∧
          ∃ t, Fits comparer p t ∧ σ'.1.tasks = σ.1.tasks ++ [t])) := by
  unfold addItem
  rw [bind_ok onRepository_get]
  cases hk : σ.1.hasKey (IScheduledTaskItem.key p) with
  | true => exact ⟨σ, rfl, h, Or.inl ⟨rfl, rfl⟩⟩
  | false =>
    obtain ⟨s', t, hadd, hs', hfits, htasks⟩ := add_good clock h.allocated hgood
    have hget : onRedis (dic.getItem (some (IScheduledTaskItem.key p))) σ =
        .ok p (σ.1, server.reorder σ.2) :=
      onPart_ok (alone_ok (run_getItem_stored h.stores hkeyed hp))
    rw [if_neg (by simp), bind_ok hget]
    exact ⟨(s', server.reorder σ.2), onPart_ok hadd, h.read hs',
      Or.inr ⟨rfl, t, hfits, htasks⟩⟩

/-- The schedule text of the first task with the Key. -/
def scheduleIn (ts : List (ScheduledTask T)) (key : String) : Option String :=
  (ts.find? fun x => IScheduledTaskItem.key x.task == key).bind fun x =>
    IScheduledTaskItem.schedule x.task

/-- What a round of the third loop does to the tasks. -/
def Visited (comparer : CompareInfo) (p : T) (ts ts' : List (ScheduledTask T)) : Prop :=
  (IScheduledTaskItem.schedule p = scheduleIn ts (IScheduledTaskItem.key p) ∧ ts' = ts) ∨
  (IScheduledTaskItem.schedule p ≠ scheduleIn ts (IScheduledTaskItem.key p) ∧
    Replaced comparer p ts ts')

/-- **A round of the third loop.** -/
theorem updateItem_good (h : Ready content h₀ σ) (hkeyed : dic.Keyed content)
    (hp : p ∈ dic.valuesOf content) (hgood : Good comparer clock p) :
    ∃ σ', updateItem dic comparer clock (IScheduledTaskItem.key p) σ = .ok () σ' ∧
      Ready content h₀ σ' ∧ Visited comparer p σ.1.tasks σ'.1.tasks := by
  have henum : onRedis (dic.enumerateKey (IScheduledTaskItem.key p)) σ =
      .ok (IScheduledTaskItem.key p, p) (σ.1, server.reorder σ.2) :=
    onPart_ok (alone_ok (run_enumerateKey_stored h.stores hkeyed hp))
  have htext : σ.1.scheduleOfKey (IScheduledTaskItem.key p) =
      scheduleIn σ.1.tasks (IScheduledTaskItem.key p) := scheduleOfKey_eq _
  unfold updateItem
  rw [bind_ok henum, bind_ok onRepository_get]
  by_cases hsame : IScheduledTaskItem.schedule p =
      scheduleIn σ.1.tasks (IScheduledTaskItem.key p)
  · rw [if_neg (by rw [htext]; exact not_not.2 hsame)]
    exact ⟨_, rfl, h.reorder, Or.inl ⟨hsame, rfl⟩⟩
  · rw [if_pos (by rw [htext]; exact hsame)]
    obtain ⟨s', hupdate, hs', hreplaced⟩ :=
      updateSchedulerRepository_good clock h.allocated hgood
    exact ⟨(s', server.reorder σ.2), onPart_ok hupdate, h.read hs',
      Or.inr ⟨hsame, hreplaced⟩⟩

/-- **The second loop** leaves the repository alone if every Key of a task is in the hash, and
throws otherwise. -/
theorem removeItems_spec (h : Ready content h₀ σ) {rs : List Ref}
    (hrs : σ.1.heap.AllocatedIn rs) :
    ((∀ t ∈ σ.1.heap.readAll rs, IScheduledTaskItem.key t.task ∈ content.keys) →
      ∃ hash', removeItems rs σ = .ok () (σ.1, hash') ∧ Ready content h₀ (σ.1, hash')) ∧
    ((∃ t ∈ σ.1.heap.readAll rs, IScheduledTaskItem.key t.task ∉ content.keys) →
      ∃ σ', removeItems rs σ = .error .invalidOperationException σ') := by
  induction rs generalizing σ with
  | nil => exact ⟨fun _ => ⟨σ.2, rfl, h⟩, by simp⟩
  | cons r rs ih =>
    obtain ⟨t, ht⟩ := hrs r List.mem_cons_self
    have htail : σ.1.heap.AllocatedIn rs := fun x hx => hrs x (List.mem_cons_of_mem _ hx)
    obtain ⟨hkeep, hthrow⟩ := ih (σ := (σ.1, server.reorder σ.2)) h.reorder htail
    have hany : ((server.read σ.2).keys.any fun redisKey =>
        redisKey == IScheduledTaskItem.key t.task) = true ↔
          IScheduledTaskItem.key t.task ∈ content.keys := by
      rw [List.any_eq_true]
      simp only [beq_iff_eq, exists_eq_right]
      rw [RedisServer.mem_keys, h.stores, AList.lookup_isSome, AList.mem_keys]
    rw [Heap.readAll_cons ht]
    unfold removeItems
    rw [bind_ok onRedis_keys, bind_ok onRepository_get]
    simp only [ht]
    by_cases hmem : IScheduledTaskItem.key t.task ∈ content.keys
    · rw [if_pos (hany.2 hmem)]
      refine ⟨fun hall => hkeep fun t' ht' => hall t' (List.mem_cons_of_mem _ ht'), ?_⟩
      rintro ⟨t', ht', hnot⟩
      rcases List.mem_cons.1 ht' with rfl | ht'
      · exact absurd hmem hnot
      · exact hthrow ⟨t', ht', hnot⟩
    · rw [if_neg (mt hany.1 hmem)]
      exact ⟨fun hall => absurd (hall t List.mem_cons_self) hmem, fun _ => ⟨_, rfl⟩⟩

/-! ## The loops -/

section Loops

theorem hasKey_iff {s : SchedulerRepository T} {key : String} :
    s.hasKey key = true ↔ ∃ t ∈ s.tasks, IScheduledTaskItem.key t.task = key := by
  simp [hasKey]

/-- The tasks after the first loop: one more for every value whose Key no task has. -/
def Added (comparer : CompareInfo) (items : List T) (s : SchedulerRepository T)
    (ts : List (ScheduledTask T)) : Prop :=
  ∃ added new, added.Perm (items.filter fun p => !s.hasKey (IScheduledTaskItem.key p)) ∧
    List.Forall₂ (Fits comparer) added new ∧ ts = s.tasks ++ new

theorem mem_of_forall₂ {added : List T} {new : List (ScheduledTask T)}
    (h : List.Forall₂ (Fits comparer) added new) :
    (∀ p ∈ added, ∃ t ∈ new, Fits comparer p t) ∧ ∀ t ∈ new, ∃ p ∈ added, Fits comparer p t := by
  induction h with
  | nil => exact ⟨by simp, by simp⟩
  | @cons p t added new hfits _ ih =>
    refine ⟨fun q hq => ?_, fun t' ht' => ?_⟩
    · rcases List.mem_cons.1 hq with rfl | hq
      · exact ⟨t, List.mem_cons_self, hfits⟩
      · obtain ⟨t', ht', hf⟩ := ih.1 q hq
        exact ⟨t', List.mem_cons_of_mem _ ht', hf⟩
    · rcases List.mem_cons.1 ht' with rfl | ht'
      · exact ⟨p, List.mem_cons_self, hfits⟩
      · obtain ⟨q, hq, hf⟩ := ih.2 t' ht'
        exact ⟨q, List.mem_cons_of_mem _ hq, hf⟩

theorem addLoop (clock : Clock) (h : Ready content h₀ σ) (hkeyed : dic.Keyed content)
    (hgood : ∀ p ∈ dic.valuesOf content, Good comparer clock p) :
    ∃ σ', (server.read σ.2).keys.forM (addItem dic comparer clock) (σ.1, server.reorder σ.2) =
        .ok () σ' ∧
      Ready content h₀ σ' ∧ Added comparer (dic.valuesOf content) σ.1 σ'.1.tasks := by
  have hkeyed' := h.stores.keyed hkeyed
  have hperm := h.stores.values_perm dic
  have hnodup := hkeyed'.keys_nodup
  have hloop : Ends (fun _ σ' => Ready content h₀ σ' ∧ ∃ new, List.Forall₂ (Fits comparer)
      ((dic.valuesOf (server.read σ.2)).filter fun p =>
        !σ.1.hasKey (IScheduledTaskItem.key p)) new ∧ σ'.1.tasks = σ.1.tasks ++ new)
      (fun _ _ => False)
      ((dic.valuesOf (server.read σ.2)).forM (fun p =>
        addItem dic comparer clock (IScheduledTaskItem.key p)) (σ.1, server.reorder σ.2)) := by
    refine Triple.forM (fun done σ' => Ready content h₀ σ' ∧ ∃ new,
      List.Forall₂ (Fits comparer) (done.filter fun p => !σ.1.hasKey (IScheduledTaskItem.key p))
        new ∧ σ'.1.tasks = σ.1.tasks ++ new) ?_ _
      ⟨h.reorder, [], .nil, (List.append_nil _).symm⟩
    rintro done p rest hitems σ' ⟨hready, new, hnew, htasks⟩
    have hp : p ∈ dic.valuesOf content := hperm.subset (by rw [hitems]; simp)
    -- the tasks appended so far have the Keys of other values
    have hsame : σ'.1.hasKey (IScheduledTaskItem.key p) =
        σ.1.hasKey (IScheduledTaskItem.key p) := by
      rw [Bool.eq_iff_iff, hasKey_iff, hasKey_iff, htasks]
      constructor
      · rintro ⟨t, ht, hkey⟩
        rcases List.mem_append.1 ht with ht | ht
        · exact ⟨t, ht, hkey⟩
        · obtain ⟨q, hq, hfits⟩ := (mem_of_forall₂ hnew).2 t ht
          rw [hitems, List.map_append, List.nodup_append] at hnodup
          exact absurd (by rw [← hkey, hfits.task]) (hnodup.2.2 _
            (List.mem_map_of_mem (List.mem_filter.1 hq).1) _
            (List.mem_map_of_mem (List.mem_cons_self (a := p))))
      · rintro ⟨t, ht, hkey⟩
        exact ⟨t, List.mem_append_left _ ht, hkey⟩
    obtain ⟨σ'', hrun, hready', hcase⟩ := addItem_good hready hkeyed hp (hgood p hp)
    rw [hrun, hsame] at *
    rcases hcase with ⟨hk, heq⟩ | ⟨hk, t, hfits, heq⟩
    · refine ⟨hready', new, ?_, heq.trans htasks⟩
      rw [List.filter_append, List.filter_cons_of_neg (by simp [hk]), List.filter_nil,
        List.append_nil]
      exact hnew
    · refine ⟨hready', new ++ [t], ?_, by rw [heq, htasks, List.append_assoc]⟩
      rw [List.filter_append, List.filter_cons_of_pos (by simp [hk]), List.filter_nil]
      exact List.rel_append hnew (.cons hfits .nil)
  obtain ⟨_, σ', hrun, hready, new, hnew, htasks⟩ := hloop.returns
  refine ⟨σ', ?_, hready, _, new, hperm.filter _, hnew, htasks⟩
  rw [hkeyed'.keys, map_forM]
  exact hrun

/-- **The rule of the third loop.** -/
theorem updateLoop (clock : Clock) (h : Ready content h₀ σ) (hkeyed : dic.Keyed content)
    (hgood : ∀ p ∈ dic.valuesOf content, Good comparer clock p)
    (Inv : List T → List (ScheduledTask T) → Prop)
    (hround : ∀ done p rest ts ts', dic.valuesOf (server.read σ.2) = done ++ p :: rest →
      Inv done ts → Visited comparer p ts ts' → Inv (done ++ [p]) ts')
    (hstart : Inv [] σ.1.tasks) :
    ∃ σ', (server.read σ.2).keys.forM (updateItem dic comparer clock) (σ.1, server.reorder σ.2) =
        .ok () σ' ∧
      Ready content h₀ σ' ∧ Inv (dic.valuesOf (server.read σ.2)) σ'.1.tasks := by
  have hend : Ends (fun _ σ' => Ready content h₀ σ' ∧
      Inv (dic.valuesOf (server.read σ.2)) σ'.1.tasks) (fun _ _ => False)
      ((dic.valuesOf (server.read σ.2)).forM (fun p =>
        updateItem dic comparer clock (IScheduledTaskItem.key p)) (σ.1, server.reorder σ.2)) := by
    refine Triple.forM (fun done σ' => Ready content h₀ σ' ∧ Inv done σ'.1.tasks) ?_ _
      ⟨h.reorder, hstart⟩
    rintro done p rest hitems σ' ⟨hready, hinv⟩
    have hp : p ∈ dic.valuesOf content :=
      (h.stores.values_perm dic).subset (by rw [hitems]; simp)
    obtain ⟨σ'', hrun, hready', hvisited⟩ := updateItem_good hready hkeyed hp (hgood p hp)
    rw [hrun]
    exact ⟨hready', hround done p rest _ _ hitems hinv hvisited⟩
  obtain ⟨_, σ', hrun, hdone⟩ := hend.returns
  refine ⟨σ', ?_, hdone⟩
  rw [(h.stores.keyed hkeyed).keys, map_forM]
  exact hrun

/-- **The three loops together**: the first adds, the second throws if the Key of a task is not in
the hash, and the third may be followed with an invariant. -/
theorem sync_spec (clock : Clock) (h : Ready content h₀ σ) (hkeyed : dic.Keyed content)
    (hgood : ∀ p ∈ dic.valuesOf content, Good comparer clock p) :
    ∃ ts, Added comparer (dic.valuesOf content) σ.1 ts ∧
      ((∃ t ∈ ts, IScheduledTaskItem.key t.task ∉ content.keys) →
        ∃ σ', sync dic comparer clock σ = .error .invalidOperationException σ') ∧
      ((∀ t ∈ ts, IScheduledTaskItem.key t.task ∈ content.keys) →
        ∃ hash', (∃ n, hash' = server.reorder^[n] h₀) ∧ Stores content hash' ∧
          ∀ Inv : List T → List (ScheduledTask T) → Prop,
            (∀ done p rest ts ts', dic.valuesOf (server.read hash') = done ++ p :: rest →
              Inv done ts → Visited comparer p ts ts' → Inv (done ++ [p]) ts') →
            Inv [] ts →
            ∃ σ', sync dic comparer clock σ = .ok () σ' ∧
              Inv (dic.valuesOf (server.read hash')) σ'.1.tasks) := by
  obtain ⟨σ₁, hadd, hready₁, hadded⟩ := addLoop clock h hkeyed hgood
  obtain ⟨hkeep, hthrow⟩ := removeItems_spec hready₁ hready₁.allocated
  refine ⟨σ₁.1.tasks, hadded, fun hlost => ?_, fun hall => ?_⟩
  · obtain ⟨σ', hrun⟩ := hthrow hlost
    refine ⟨σ', ?_⟩
    unfold sync
    rw [bind_ok onRedis_keys, bind_ok hadd, bind_ok onRepository_get, bind_apply, hrun]
  · obtain ⟨hash₂, hrun, hready₂⟩ := hkeep hall
    refine ⟨hash₂, hready₂.rereads, hready₂.stores, fun Inv hround hstart => ?_⟩
    obtain ⟨σ', hupdate, -, hinv⟩ :=
      updateLoop clock hready₂ hkeyed hgood Inv hround hstart
    refine ⟨σ', ?_, hinv⟩
    unfold sync
    rw [bind_ok onRedis_keys, bind_ok hadd, bind_ok onRepository_get, bind_ok hrun,
      bind_ok onRedis_keys]
    exact hupdate

end Loops

end SchedulerRedisRepositoryFeeder

end Sentinel
