import Sentinel.Workers.HealthCheckSyncSchedulerJob

/-!
# What `HealthCheckSyncSchedulerJob` leaves in its stores

* `execute_spec` — the two loops change none of the three stores; then each of them is written, up
  to the first call that throws.
* `execute_outcome` — the keys in the three stores after a call, whether it returns or throws.
-/

set_option autoImplicit false

namespace Sentinel

open Commands Throwing

/-! ## The resources -/

/-- The `Key` of the item made of the resource. -/
def HealthCheckResource.key (check : HealthCheckResource) : String :=
  check.name ++ "." ++ check.nameSpace

/-- No service is named. -/
def noService (spec : Option HealthCheckResourceSpec) : Bool :=
  isNullOrWhiteSpace (spec.bind HealthCheckResourceSpec.service)

/-- What the API server guarantees of the resources it lists: Uids are unique and go with one name,
names are unique in their namespace, and the name of a namespace has no dot. -/
structure Listed (keyOf : String → String) (checks : List HealthCheckResource) : Prop where
  uids : (checks.map HealthCheckResource.uid).Nodup
  names : (checks.map fun check => (check.name, check.nameSpace)).Nodup
  nameSpaces : ∀ check ∈ checks, '.' ∉ check.nameSpace.toList
  keyOf : ∀ check ∈ checks, check.key = keyOf check.uid

/-- A name and a namespace can be read off the key. -/
theorem key_injective {name name' nameSpace nameSpace' : String} (h : '.' ∉ nameSpace.toList)
    (h' : '.' ∉ nameSpace'.toList)
    (heq : name ++ "." ++ nameSpace = name' ++ "." ++ nameSpace') :
    name = name' ∧ nameSpace = nameSpace' := by
  have hlist : nameSpace.toList.reverse ++ '.' :: name.toList.reverse =
      nameSpace'.toList.reverse ++ '.' :: name'.toList.reverse := by
    simpa [String.toList_append] using congrArg (fun s => s.toList.reverse) heq
  obtain ⟨hns, -, hname⟩ :=
    SchedulerRepository.split_eq hlist (by simpa using h') (by simpa using h)
  exact ⟨String.toList_injective (List.reverse_injective hname),
    String.toList_injective (List.reverse_injective hns)⟩

namespace HealthCheckSyncSchedulerJob

variable {server : RedisServer} {json : HealthCheckJson} {comparer : CompareInfo} {clock : Clock}
  {syncTime : DateTime} {checks : List HealthCheckResource} {keyOf : String → String}
  {σ σ' : HealthCheckSyncSchedulerJob server}

/-! ## The loops -/

/-- The three stores that are to be kept together. -/
def stores (σ : HealthCheckSyncSchedulerJob server) :
    K8MemoryRepository × SchedulerRepository HealthCheckDto × server.Hash :=
  (σ.k8MemoryRepository, σ.healthCheckSchedulerRepository, σ.healthChecks)

/-- The resource after the first loop. -/
def phased (check : HealthCheckResource) : HealthCheckResource :=
  if AZAuthService.isNullOrEmpty (check.status.bind HealthCheckResourceStatus.phase) then
    { check with status := some ⟨some "AddedtoRedis", some ""⟩ }
  else check

/-- The item after the second loop. -/
def related (servicesDic : Option ServicesDic) (syncTime : DateTime) (p : HealthCheckDto) :
    HealthCheckDto :=
  { p with
    latestSyncDateUTC := syncTime
    relatedService :=
      (findServiceRelatedtoHealthCheckResourceV1 p servicesDic).toOption.bind id }

/-- The item the job makes of a resource. -/
def synced (servicesDic : Option ServicesDic) (syncTime : DateTime)
    (check : HealthCheckResource) : HealthCheckDto :=
  related servicesDic syncTime (.ofResource (phased check))

/-- The first loop changes the status only. -/
theorem phased_eq (check : HealthCheckResource) :
    ∃ status, phased check = { check with status } := by
  unfold phased
  split
  · exact ⟨_, rfl⟩
  · exact ⟨_, rfl⟩

@[simp] theorem phased_spec (check : HealthCheckResource) : (phased check).spec = check.spec := by
  obtain ⟨status, h⟩ := phased_eq check
  rw [h]

theorem find_eq (p : HealthCheckDto) (servicesDic : Option ServicesDic) :
    (noService p.spec = true ∧ findServiceRelatedtoHealthCheckResourceV1 p servicesDic =
      .error (.argumentNullException "Service")) ∨
    (noService p.spec = false ∧
      ∃ service, findServiceRelatedtoHealthCheckResourceV1 p servicesDic = .ok service) := by
  unfold noService findServiceRelatedtoHealthCheckResourceV1
  cases p.spec.bind HealthCheckResourceSpec.service with
  | none => exact Or.inl ⟨rfl, rfl⟩
  | some serviceName =>
    cases hblank : isNullOrWhiteSpace (some serviceName) with
    | true => exact Or.inl ⟨rfl, if_pos hblank⟩
    | false => exact Or.inr ⟨rfl, _, if_neg (by rw [hblank]; exact Bool.false_ne_true)⟩

theorem addPhase_spec (check : HealthCheckResource) (τ : _) :
    Triple (fun s : HealthCheckSyncSchedulerJob server => s.stores = τ) (addPhase check)
      (fun y s => (y = phased check ∧ True) ∧ s.stores = τ)
      (fun _ s => (False ∧ ¬ True) ∧ s.stores = τ) := by
  intro s hs
  unfold addPhase phased
  split
  · exact ⟨⟨rfl, trivial⟩, hs⟩
  · exact ⟨⟨rfl, trivial⟩, hs⟩

theorem relate_spec (p : HealthCheckDto) :
    Triple (fun s : HealthCheckSyncSchedulerJob server => s.stores = σ.stores)
      (relate json syncTime p)
      (fun y s => (y = related σ.k8MemoryRepository.servicesDic syncTime p ∧
        noService p.spec = false) ∧ s.stores = σ.stores)
      (fun e s => (e = .argumentNullException "Service" ∧ ¬ noService p.spec = false) ∧
        s.stores = σ.stores) := by
  intro s hs
  have hdic : s.k8MemoryRepository.servicesDic = σ.k8MemoryRepository.servicesDic :=
    congrArg (fun τ => τ.1.servicesDic) hs
  unfold relate related
  simp only
  rw [bind_ok (get_apply s), hdic]
  rcases find_eq { p with latestSyncDateUTC := syncTime } σ.k8MemoryRepository.servicesDic with
    ⟨hblank, hfind⟩ | ⟨hservice, service, hfind⟩
  · rw [hfind]
    exact ⟨⟨rfl, by simpa using hblank⟩, hs⟩
  · have hfind' : findServiceRelatedtoHealthCheckResourceV1 p σ.k8MemoryRepository.servicesDic =
        .ok service := hfind
    rw [hfind, hfind', bind_ok (ofExcept_ok service s)]
    cases service with
    | none => exact ⟨⟨rfl, hservice⟩, hs⟩
    | some service => exact ⟨⟨rfl, hservice⟩, hs⟩

/-- The last two writes. -/
theorem writes_spec (json : HealthCheckJson) (comparer : CompareInfo) (clock : Clock)
    (items : List HealthCheckDto) (s : HealthCheckSyncSchedulerJob server) :
    Ends
      (fun _ s' => s'.k8MemoryRepository = s.k8MemoryRepository ∧
        SchedulerRepository.sync comparer clock (some items) s.healthCheckSchedulerRepository =
          .ok () s'.healthCheckSchedulerRepository ∧
        ∀ key, (server.lookup s'.healthChecks key).isSome = true ↔
          RedisDictionary.HasKey json.dictionary.keyValue items key)
      (fun e s' => s'.k8MemoryRepository = s.k8MemoryRepository ∧
        SchedulerRepository.sync comparer clock (some items) s.healthCheckSchedulerRepository =
          .error e s'.healthCheckSchedulerRepository ∧ s'.healthChecks = s.healthChecks)
      ((do
        onScheduler (SchedulerRepository.sync comparer clock (some items))
        onHealthChecks (json.dictionary.sync items true) : Job server Unit) s) := by
  cases hsync : SchedulerRepository.sync comparer clock (some items)
      s.healthCheckSchedulerRepository with
  | error e repository =>
    have hthrows : onScheduler (SchedulerRepository.sync comparer clock (some items)) s =
        .error e { s with healthCheckSchedulerRepository := repository } := onPart_error hsync
    rw [bind_apply, hthrows]
    exact ⟨rfl, rfl, rfl⟩
  | ok u repository =>
    have hnonnull : ∀ item ∈ items, json.dictionary.keyValue item ≠ none :=
      fun _ _ => Option.some_ne_none _
    obtain ⟨hash, hrun, hkeys⟩ := RedisDictionary.sync_override_keys s.healthChecks hnonnull
    have hreturns : onScheduler (SchedulerRepository.sync comparer clock (some items)) s =
        .ok () { s with healthCheckSchedulerRepository := repository } := onPart_ok hsync
    have hhash : onHealthChecks (json.dictionary.sync items true)
        { s with healthCheckSchedulerRepository := repository } = .ok ()
          { s with healthCheckSchedulerRepository := repository, healthChecks := hash } :=
      onPart_ok (alone_ok hrun)
    rw [bind_ok hreturns, hhash]
    exact ⟨rfl, rfl, hkeys⟩

/-- **What `Execute` does**: the stores are written one after the other, up to the first call that
throws. -/
theorem execute_spec (json : HealthCheckJson) (comparer : CompareInfo) (clock : Clock)
    (checks : List HealthCheckResource) (syncTime : DateTime)
    (σ : HealthCheckSyncSchedulerJob server) {items : List HealthCheckDto}
    (hitems : items = checks.map (synced σ.k8MemoryRepository.servicesDic syncTime)) :
    Ends
      (fun _ s => (∀ check ∈ checks, noService check.spec = false) ∧
        s.k8MemoryRepository.healthChecks = some items ∧
        SchedulerRepository.sync comparer clock (some items) σ.healthCheckSchedulerRepository =
          .ok () s.healthCheckSchedulerRepository ∧
        ∀ key, (server.lookup s.healthChecks key).isSome = true ↔
          RedisDictionary.HasKey json.dictionary.keyValue items key)
      (fun e s =>
        ((∃ check ∈ checks, noService check.spec = true) ∧ e = .argumentNullException "Service" ∧
          s.stores = σ.stores) ∨
        (∀ check ∈ checks, noService check.spec = false) ∧
          s.k8MemoryRepository.healthChecks = some items ∧
          SchedulerRepository.sync comparer clock (some items) σ.healthCheckSchedulerRepository =
            .error e s.healthCheckSchedulerRepository ∧
          s.healthChecks = σ.healthChecks)
      (execute json comparer clock checks syncTime σ) := by
  unfold execute
  refine Ends.bind ((Triple.mapM (addPhase_spec · σ.stores) σ rfl).mono (fun _ _ h => h)
    (fun e s h => h.1.1.elim)) ?_
  rintro _ s₁ ⟨⟨rfl, -⟩, hs₁⟩
  refine Ends.bind ((Triple.mapM relate_spec s₁ hs₁).mono (fun _ _ h => h) ?_) ?_
  · rintro e s ⟨⟨rfl, p, hp, hblank⟩, hs⟩
    rw [List.map_map] at hp
    obtain ⟨check, hcheck, rfl⟩ := List.mem_map.1 hp
    refine Or.inl ⟨⟨check, hcheck, ?_⟩, rfl, hs⟩
    simpa [HealthCheckDto.ofResource] using hblank
  · rintro _ s₂ ⟨⟨rfl, hservice⟩, hs₂⟩
    have hmap : ((checks.map phased).map HealthCheckDto.ofResource).map
        (related σ.k8MemoryRepository.servicesDic syncTime) = items := by
      rw [hitems, List.map_map, List.map_map]
      rfl
    rw [hmap]
    have hservice : ∀ check ∈ checks, noService check.spec = false := by
      simpa [HealthCheckDto.ofResource] using hservice
    obtain ⟨-, hscheduler, hhash⟩ : s₂.k8MemoryRepository = σ.k8MemoryRepository ∧
        s₂.healthCheckSchedulerRepository = σ.healthCheckSchedulerRepository ∧
        s₂.healthChecks = σ.healthChecks := by
      simpa only [stores, Prod.mk.injEq] using hs₂
    refine (writes_spec json comparer clock items _).mono ?_ ?_
    · rintro _ s ⟨hmemory, hsync, hkeys⟩
      exact ⟨hservice, congrArg _ hmemory, hscheduler ▸ hsync, hkeys⟩
    · rintro e s ⟨hmemory, hsync, hsame⟩
      exact Or.inr ⟨hservice, congrArg _ hmemory, hscheduler ▸ hsync, hsame.trans hhash⟩

/-! ## The items -/

/-- What the scheduler reads of an item is what the resource says. -/
theorem synced_item (servicesDic : Option ServicesDic) (syncTime : DateTime)
    (check : HealthCheckResource) :
    (synced servicesDic syncTime check).toHealthCheckResourceV1 =
      (HealthCheckDto.ofResource check).toHealthCheckResourceV1 := by
  obtain ⟨status, h⟩ := phased_eq check
  unfold synced
  rw [h]
  rfl

theorem synced_key (servicesDic : Option ServicesDic) (syncTime : DateTime)
    (check : HealthCheckResource) :
    IScheduledTaskItem.key (synced servicesDic syncTime check) = check.key :=
  congrArg IScheduledTaskItem.key (synced_item servicesDic syncTime check)

theorem synced_uid (servicesDic : Option ServicesDic) (syncTime : DateTime)
    (check : HealthCheckResource) :
    IScheduledTaskItem.uid (synced servicesDic syncTime check) = check.uid :=
  congrArg IScheduledTaskItem.uid (synced_item servicesDic syncTime check)

theorem synced_schedule (servicesDic : Option ServicesDic) (syncTime : DateTime)
    (check : HealthCheckResource) :
    IScheduledTaskItem.schedule (synced servicesDic syncTime check) =
      check.spec.bind HealthCheckResourceSpec.crontab :=
  congrArg HealthCheckResourceV1.schedule (synced_item servicesDic syncTime check)

theorem good_synced {servicesDic : Option ServicesDic} {check : HealthCheckResource} :
    SchedulerRepository.Good comparer clock (synced servicesDic syncTime check) ↔
      SchedulerRepository.Good comparer clock (HealthCheckDto.ofResource check) := by
  unfold SchedulerRepository.Good
  rw [synced_schedule]
  rfl

theorem itemsOk_of_listed (hchecks : Listed keyOf checks) (servicesDic : Option ServicesDic)
    (syncTime : DateTime) :
    SchedulerRepository.ItemsOk keyOf (checks.map (synced servicesDic syncTime)) := by
  have hkey : ∀ a ∈ checks, ∀ b ∈ checks, a.key = b.key → a = b := by
    intro a ha b hb heq
    obtain ⟨hname, hns⟩ :=
      key_injective (hchecks.nameSpaces a ha) (hchecks.nameSpaces b hb) heq
    exact List.inj_on_of_nodup_map hchecks.names ha hb (Prod.ext hname hns)
  refine ⟨?_, ?_, ?_⟩
  · rw [List.map_map]
    simpa only [Function.comp_def, synced_uid] using hchecks.uids
  · rw [List.map_map]
    simp only [Function.comp_def, synced_key]
    exact (List.Nodup.of_map _ hchecks.uids).map_on hkey
  · intro p hp
    obtain ⟨check, hcheck, rfl⟩ := List.mem_map.1 hp
    rw [synced_key, synced_uid]
    exact hchecks.keyOf check hcheck

/-! ## The keys -/

/-- The keys of the resources. -/
def keysOf (checks : List HealthCheckResource) : Set String := {key | ∃ c ∈ checks, c.key = key}

/-- The keys in `K8MemoryRepository.HealthChecks`. -/
def memoryKeys (σ : HealthCheckSyncSchedulerJob server) : Set String :=
  {key | ∃ p ∈ σ.k8MemoryRepository.healthChecks.getD [], IScheduledTaskItem.key p = key}

/-- The keys of the scheduled tasks. -/
def schedulerKeys (σ : HealthCheckSyncSchedulerJob server) : Set String :=
  {key | ∃ t ∈ σ.healthCheckSchedulerRepository.tasks, IScheduledTaskItem.key t.task = key}

/-- The keys of the Redis dictionary. -/
def redisKeys (σ : HealthCheckSyncSchedulerJob server) : Set String :=
  {key | (server.lookup σ.healthChecks key).isSome = true}

/-- The resource on its own can be synchronised. -/
structure Valid (comparer : CompareInfo) (clock : Clock) (check : HealthCheckResource) : Prop where
  service : noService check.spec = false
  schedule : SchedulerRepository.Good comparer clock (HealthCheckDto.ofResource check)

/-- The three stores are kept together, and the valid resources are in all of them. -/
structure KeptTogether (comparer : CompareInfo) (clock : Clock)
    (checks : List HealthCheckResource) (σ σ' : HealthCheckSyncSchedulerJob server) : Prop where
  equal : memoryKeys σ = schedulerKeys σ ∧ schedulerKeys σ = redisKeys σ →
    memoryKeys σ' = schedulerKeys σ' ∧ schedulerKeys σ' = redisKeys σ'
  present : ∀ check ∈ checks, Valid comparer clock check →
    check.key ∈ memoryKeys σ' ∧ check.key ∈ schedulerKeys σ' ∧ check.key ∈ redisKeys σ'

theorem exists_synced_iff (servicesDic : Option ServicesDic) (syncTime : DateTime) (key : String) :
    (∃ p ∈ checks.map (synced servicesDic syncTime), IScheduledTaskItem.key p = key) ↔
      key ∈ keysOf checks := by
  simp [synced_key, keysOf]

theorem memoryKeys_eq {servicesDic : Option ServicesDic}
    (h : σ.k8MemoryRepository.healthChecks = some (checks.map (synced servicesDic syncTime))) :
    memoryKeys σ = keysOf checks := by
  ext key
  show (∃ p ∈ σ.k8MemoryRepository.healthChecks.getD [], _) ↔ _
  rw [h]
  exact exists_synced_iff servicesDic syncTime key

theorem schedulerKeys_eq {servicesDic : Option ServicesDic} {s : SchedulerRepository HealthCheckDto}
    (hs : SchedulerRepository.Consistent comparer keyOf s) (hchecks : Listed keyOf checks)
    (hrun : SchedulerRepository.sync comparer clock
      (some (checks.map (synced servicesDic syncTime))) s =
        .ok () σ.healthCheckSchedulerRepository) :
    schedulerKeys σ = keysOf checks := by
  obtain ⟨hdone, honly⟩ := SchedulerRepository.done_of_returned hs
    (itemsOk_of_listed hchecks servicesDic syncTime) hrun
  ext key
  refine Iff.trans ?_ (exists_synced_iff servicesDic syncTime key)
  constructor
  · rintro ⟨t, ht, rfl⟩
    exact ⟨t.task, honly t ht, rfl⟩
  · rintro ⟨p, hp, rfl⟩
    obtain ⟨t, ht, -, rfl, -⟩ := hdone p hp
    exact ⟨t, ht, rfl⟩

theorem redisKeys_eq {servicesDic : Option ServicesDic}
    (h : ∀ key, (server.lookup σ.healthChecks key).isSome = true ↔ RedisDictionary.HasKey
      json.dictionary.keyValue (checks.map (synced servicesDic syncTime)) key) :
    redisKeys σ = keysOf checks := by
  ext key
  refine (h key).trans (Iff.trans ?_ (exists_synced_iff servicesDic syncTime key))
  exact exists_congr fun p => and_congr_right fun _ => Option.some_inj

/-! ## The outcome -/

/-- What a call does to the three stores. -/
structure Outcome (comparer : CompareInfo) (clock : Clock) (syncTime : DateTime)
    (checks : List HealthCheckResource) (σ : HealthCheckSyncSchedulerJob server)
    (result : EStateM.Result Exn (HealthCheckSyncSchedulerJob server) Unit) : Prop where
  valid : (∀ check ∈ checks, Valid comparer clock check) → ∃ σ', result = .ok () σ'
  returned : ∀ σ', result = .ok () σ' → memoryKeys σ' = keysOf checks ∧
    schedulerKeys σ' = keysOf checks ∧ redisKeys σ' = keysOf checks
  blank : (∃ check ∈ checks, noService check.spec = true) →
    ∃ σ', result = .error (.argumentNullException "Service") σ' ∧ stores σ' = stores σ
  memory : (∀ check ∈ checks, noService check.spec = false) →
    memoryKeys (finalState result) = keysOf checks
  thrown : (∀ check ∈ checks, noService check.spec = false) →
    ∀ e σ', result = .error e σ' →
      SchedulerRepository.sync comparer clock
        (some (checks.map (synced σ.k8MemoryRepository.servicesDic syncTime)))
        σ.healthCheckSchedulerRepository = .error e σ'.healthCheckSchedulerRepository ∧
      σ'.healthChecks = σ.healthChecks
  scheduled : (∀ check ∈ checks, noService check.spec = false) → ∀ before p after,
    σ.healthCheckSchedulerRepository.syncOrder
      (checks.map (synced σ.k8MemoryRepository.servicesDic syncTime)) = before ++ p :: after →
    (∀ q ∈ before, SchedulerRepository.Good comparer clock q) →
    SchedulerRepository.Good comparer clock p →
    IScheduledTaskItem.key p ∈ schedulerKeys (finalState result)
  rejected : (∃ check ∈ checks, ∀ schedule, CrontabSchedule.parse comparer
      (check.spec.bind HealthCheckResourceSpec.crontab) ≠ .ok schedule) →
    ∃ e σ', result = .error e σ'

/-- **The three stores after a call.**  If it returns, they have exactly the keys of the resources,
and it does so if all resources are valid on their own.  A resource without a service makes it throw
and leaves the stores as they were; otherwise the memory has the keys of the resources, and if the
scheduler's `Sync` throws, in the middle of its list, Redis is as it was. -/
theorem execute_outcome (json : HealthCheckJson) (syncTime : DateTime)
    (hchecks : Listed keyOf checks) (hreach : SchedulerRepository.Reachable comparer clock keyOf
      σ.healthCheckSchedulerRepository) :
    Outcome comparer clock syncTime checks σ
      (execute json comparer clock checks syncTime σ) := by
  have hcons := hreach.consistent
  have hitems := itemsOk_of_listed hchecks σ.k8MemoryRepository.servicesDic syncTime
  have hspec := execute_spec json comparer clock checks syncTime σ rfl
  have hclash : ∀ check ∈ checks, noService check.spec = true →
      ¬ ∀ check ∈ checks, noService check.spec = false := by
    intro check hcheck hblank hall
    rw [hall check hcheck] at hblank
    cases hblank
  cases hresult : execute json comparer clock checks syncTime σ with
  | ok u σ' =>
    rw [hresult] at hspec
    obtain ⟨hservice, hmemory, hsync, hredis⟩ := hspec
    obtain ⟨hdone, -⟩ := SchedulerRepository.done_of_returned hcons hitems hsync
    have hscheduler : schedulerKeys σ' = keysOf checks := schedulerKeys_eq hcons hchecks hsync
    refine ⟨fun _ => ⟨σ', rfl⟩, ?_, ?_, fun _ => memoryKeys_eq hmemory, ?_, ?_, ?_⟩
    · rintro _ ⟨⟩
      exact ⟨memoryKeys_eq hmemory, hscheduler, redisKeys_eq hredis⟩
    · rintro ⟨check, hcheck, hblank⟩
      exact (hclash check hcheck hblank hservice).elim
    · rintro - e _ ⟨⟩
    · intro _ before p after horder _ _
      obtain ⟨t, ht, -, rfl, -⟩ := hdone p
        (SchedulerRepository.mem_of_syncOrder (by rw [horder]; simp))
      exact ⟨t, ht, rfl⟩
    · rintro ⟨check, hcheck, hrejected⟩
      obtain ⟨t, -, -, -, hparse⟩ := hdone _ (List.mem_map_of_mem hcheck)
      rw [synced_schedule] at hparse
      exact absurd hparse (hrejected _)
  | error e σ' =>
    rw [hresult] at hspec
    rcases hspec with ⟨⟨check, hcheck, hblank⟩, rfl, hstores⟩ | ⟨hservice, hmemory, hsync, hhash⟩
    · refine ⟨fun hvalid => ?_, ?_, fun _ => ⟨σ', rfl, hstores⟩, fun hservice => ?_,
        fun hservice => ?_, fun hservice => ?_, fun _ => ⟨_, σ', rfl⟩⟩
      · exact (hclash check hcheck hblank fun check hcheck => (hvalid check hcheck).service).elim
      · rintro _ ⟨⟩
      · exact (hclash check hcheck hblank hservice).elim
      · exact (hclash check hcheck hblank hservice).elim
      · exact (hclash check hcheck hblank hservice).elim
    · refine ⟨fun hvalid => ?_, ?_, ?_, fun _ => memoryKeys_eq hmemory, ?_, ?_,
        fun _ => ⟨e, σ', rfl⟩⟩
      · -- the scheduler's `Sync` returns on good items
        obtain ⟨s', hs', -⟩ := SchedulerRepository.sync_good hcons hitems fun p hp => by
          obtain ⟨check, hcheck, rfl⟩ := List.mem_map.1 hp
          exact good_synced.2 (hvalid check hcheck).schedule
        cases hs'.symm.trans hsync
      · rintro _ ⟨⟩
      · rintro ⟨check, hcheck, hblank⟩
        exact (hclash check hcheck hblank hservice).elim
      · rintro - _ _ ⟨⟩
        exact ⟨hsync, hhash⟩
      · intro _ before p after horder hbefore hgood
        obtain ⟨t, ht, -, rfl, -⟩ := SchedulerRepository.done_of_good_before hcons hitems
          (congrArg finalState hsync) horder hbefore hgood
        exact ⟨t, ht, rfl⟩

/-- After a call the next one starts from a reachable scheduler again. -/
theorem execute_reachable (json : HealthCheckJson) (syncTime : DateTime)
    (hchecks : Listed keyOf checks) (hreach : SchedulerRepository.Reachable comparer clock keyOf
      σ.healthCheckSchedulerRepository) :
    SchedulerRepository.Reachable comparer clock keyOf (finalState
      (execute json comparer clock checks syncTime σ)).healthCheckSchedulerRepository := by
  have hitems := itemsOk_of_listed hchecks σ.k8MemoryRepository.servicesDic syncTime
  have hspec := execute_spec json comparer clock checks syncTime σ rfl
  have hsync := hreach.sync hitems
  cases hresult : execute json comparer clock checks syncTime σ with
  | ok u σ' =>
    rw [hresult] at hspec
    obtain ⟨-, -, hreturns, -⟩ := hspec
    rwa [hreturns] at hsync
  | error e σ' =>
    rw [hresult] at hspec
    rcases hspec with ⟨-, -, hstores⟩ | ⟨-, -, hthrows, -⟩
    · have hscheduler : σ'.healthCheckSchedulerRepository = σ.healthCheckSchedulerRepository :=
        congrArg (fun τ => τ.2.1) hstores
      exact hscheduler ▸ hreach
    · rwa [hthrows] at hsync

/-! ## Two resources -/

def emptyJson : HealthCheckJson where
  serialize _ := "{}"
  deserialize _ := .error (.exception "Unexpected end when reading JSON")
  default := ⟨⟨"", "", "", none⟩, none, none, .minValue, none⟩

/-- The first call of the worker, with one service in memory. -/
def firstCall : HealthCheckSyncSchedulerJob .lastWritten where
  k8MemoryRepository :=
    ⟨some ((∅ : ServicesDic).insert "kubernetes.default" ⟨"kubernetes", "default"⟩), none⟩
  healthCheckSchedulerRepository := .empty
  healthChecks := (∅ : Entries)
  serviceNotFound := (∅ : Entries)
  statusUpdates := []

def hourlyResource : HealthCheckResource :=
  ⟨"a", "hourly", "default", some ⟨some "kubernetes", some "30 * * * *"⟩, none⟩

/-- A resource with a typo in its schedule. -/
def typoResource : HealthCheckResource :=
  ⟨"b", "daily", "default", some ⟨some "kubernetes.default", some "0 8 * * 1-5 *"⟩, none⟩

theorem valid_hourlyResource : Valid .ascii SchedulerRepository.newYear hourlyResource :=
  ⟨by decide, SchedulerRepository.good_of_check (by decide +kernel)⟩

def dailyResource : HealthCheckResource :=
  ⟨"b", "daily", "default", some ⟨some "kubernetes.default", some "0 8 * * 1-5"⟩, none⟩

theorem valid_dailyResource : Valid .ascii SchedulerRepository.newYear dailyResource :=
  ⟨by decide, SchedulerRepository.good_of_check (by decide +kernel)⟩

/-- Two valid resources are in all three stores. -/
theorem execute_outcome_twoResources : ∃ σ', execute emptyJson .ascii SchedulerRepository.newYear
      [dailyResource, hourlyResource] .minValue firstCall = .ok () σ' ∧
    memoryKeys σ' = keysOf [dailyResource, hourlyResource] ∧
    schedulerKeys σ' = keysOf [dailyResource, hourlyResource] ∧
    redisKeys σ' = keysOf [dailyResource, hourlyResource] := by
  have hlisted : Listed SchedulerRepository.checkKey [dailyResource, hourlyResource] :=
    ⟨by decide, by decide, by decide, by decide⟩
  have hreach : SchedulerRepository.Reachable .ascii SchedulerRepository.newYear
      SchedulerRepository.checkKey firstCall.healthCheckSchedulerRepository := .start
  have houtcome := execute_outcome emptyJson .minValue hlisted hreach
  obtain ⟨σ', hσ'⟩ := houtcome.valid
    (by simpa using ⟨valid_dailyResource, valid_hourlyResource⟩)
  exact ⟨σ', hσ', houtcome.returned σ' hσ'⟩

/-- With the typo first in the list, the hourly resource behind it is never scheduled, although the
memory has both. -/
theorem not_keptTogether_typo :
    Listed SchedulerRepository.checkKey [typoResource, hourlyResource] ∧
    ¬ KeptTogether .ascii SchedulerRepository.newYear [typoResource, hourlyResource] firstCall
      (finalState (execute emptyJson .ascii SchedulerRepository.newYear
        [typoResource, hourlyResource] .minValue firstCall)) := by
  refine ⟨⟨by decide, by decide, by decide, by decide⟩, fun htogether => ?_⟩
  have hnone : (finalState (execute emptyJson .ascii SchedulerRepository.newYear
      [typoResource, hourlyResource] .minValue
        firstCall)).healthCheckSchedulerRepository.tasks.isEmpty = true := by
    decide +kernel
  obtain ⟨-, ⟨t, ht, -⟩, -⟩ := htogether.present hourlyResource (by simp) valid_hourlyResource
  rw [List.isEmpty_iff.1 hnone] at ht
  cases ht

end HealthCheckSyncSchedulerJob

end Sentinel
