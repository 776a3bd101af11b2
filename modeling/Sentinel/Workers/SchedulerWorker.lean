import Sentinel.Scheduler.CarriedItems
import Sentinel.Scheduler.PublishedInstants
import Sentinel.Workers.HealthCheckSyncResults
import Sentinel.Workers.ServiceResolution

/-!
# The worker that schedules the health checks

The service sync and the health check sync read the cluster, and `BusScheduler` publishes what is
due; all of them work on the same stores, and each may throw.  A call of one of the two jobs is a
single atomic step, whose requests to the API server and to Redis succeed; the steps of
`BusScheduler` come between them.

* `worker_refines` — a run of the worker is a run of `BusScheduler`, with a `Sync` for every call of
  the health check sync that gets that far.
* `taskCreated_of_read` — every task object was created by a call of the health check sync, for the
  time it read.
* `published_resource` — what is published was made of a resource of the cluster, for one of its
  run times, with a service of the cluster.
-/

set_option autoImplicit false

namespace Sentinel

open Commands Throwing
open Gregorian (Moment)

/-! ## `ServiceSyncSchedulerJob` -/

/-- The JSON form of the services, and what stands for a missing one. -/
structure ServiceJson where
  serialize : ServiceV1 → String
  deserialize : String → Except Exn ServiceV1
  default : ServiceV1

/-- The dictionary of the services: `NameandNamespace` is the property with the `Key` attribute. -/
def ServiceJson.dictionary (json : ServiceJson) : RedisDictionary ServiceV1 where
  serialize := json.serialize
  deserialize := json.deserialize
  keyValue service := some service.nameandNamespace
  default := json.default

/-- `Execute`, with the services that `GetAllServicesWithDetails` returns, on the repository and the
hash `Services`. -/
def ServiceSyncSchedulerJob.execute {server : RedisServer} (json : ServiceJson)
    (services : List ServiceV1) : EStateM Exn (K8MemoryRepository × server.Hash) Unit := do
  let s ← get
  let repository ← ofExcept (s.1.setServices (some services))
  modify fun s => (repository, s.2)
  onPart Prod.snd (fun s hash => (s.1, hash))
    (alone server.exec (json.dictionary.sync services true))

/-! ## The worker -/

/-- The stores of the two jobs, the state of `BusScheduler`, and what it has published. -/
structure SchedulerWorker (server : RedisServer) where
  job : HealthCheckSyncSchedulerJob server
  services : server.Hash
  tick : BusScheduler.Tick
  published : List (BusScheduler.Message HealthCheckDto)

namespace SchedulerWorker

open BusScheduler (Message Tick World RunTime)
open HealthCheckSyncSchedulerJob (synced)

variable {server : RedisServer}

/-- A run of one of the two jobs, or a step of `BusScheduler`. -/
inductive Action where
  | serviceSync (services : List ServiceV1)
  | healthCheckSync (checks : List HealthCheckResource) (syncTime : DateTime)
  | construct
  | execute (referenceTime : DateTime) (timeZone : TimeZoneInfo)
  | next

/-- What `BusScheduler` sees of the worker: one repository. -/
def world (w : SchedulerWorker server) : World HealthCheckDto where
  heap := w.job.healthCheckSchedulerRepository.heap
  repositories := [w.job.healthCheckSchedulerRepository.scheduledTasks]
  clockReads := w.job.healthCheckSchedulerRepository.clockReads
  tick := w.tick
  published := w.published

/-- What a step of the job itself changes: the task objects, the job and its messages. -/
def setWorld (w : SchedulerWorker server) (v : World HealthCheckDto) : SchedulerWorker server :=
  { w with
    job := { w.job with
      healthCheckSchedulerRepository :=
        { w.job.healthCheckSchedulerRepository with heap := v.heap } }
    tick := v.tick
    published := v.published }

/-- The service sync has run. -/
def setServices (w : SchedulerWorker server) (s : K8MemoryRepository × server.Hash) :
    SchedulerWorker server :=
  { w with job := { w.job with k8MemoryRepository := s.1 }, services := s.2 }

/-- The dictionary of the services in memory. -/
abbrev servicesDic (w : SchedulerWorker server) : Option ServicesDic :=
  w.job.k8MemoryRepository.servicesDic

variable (json : HealthCheckJson) (serviceJson : ServiceJson) (comparer : CompareInfo)
  (clock : Clock) (machine : MachineZone)

def busStep (w : SchedulerWorker server) (a : BusScheduler.Action HealthCheckDto) :
    Option (SchedulerWorker server) :=
  (BusScheduler.step comparer clock machine w.world a).map w.setWorld

/-- The exception of a job ends the job, not the worker. -/
def step (w : SchedulerWorker server) : Action → Option (SchedulerWorker server)
  | .serviceSync services =>
    some (w.setServices (finalState (ServiceSyncSchedulerJob.execute serviceJson services
      (w.job.k8MemoryRepository, w.services))))
  | .healthCheckSync checks syncTime =>
    some { w with
      job := finalState (HealthCheckSyncSchedulerJob.execute json comparer clock checks syncTime
        w.job) }
  | .construct => busStep comparer clock machine w .construct
  | .execute referenceTime timeZone =>
    busStep comparer clock machine w (.execute referenceTime timeZone)
  | .next => busStep comparer clock machine w .next

/-- The worker when it starts, with what Redis holds. -/
def start (healthChecks serviceNotFound services : server.Hash) : SchedulerWorker server where
  job :=
    { k8MemoryRepository := ⟨some ∅, none⟩
      healthCheckSchedulerRepository := .empty
      healthChecks := healthChecks
      serviceNotFound := serviceNotFound
      statusUpdates := [] }
  services := services
  tick := .idle
  published := []

/-! ## The refinement -/

variable {json serviceJson comparer clock machine}
variable {w w' : SchedulerWorker server} {a : Action} {as : List Action}

/-- The step of `BusScheduler` that an action of the worker stands for. -/
def For (w : SchedulerWorker server) : Action → BusScheduler.Action HealthCheckDto → Prop
  | .serviceSync _, _ => False
  | .healthCheckSync checks syncTime, b =>
    b = .sync 0 (some (checks.map (synced w.servicesDic syncTime)))
  | .construct, b => b = .construct
  | .execute referenceTime timeZone, b => b = .execute referenceTime timeZone
  | .next, b => b = .next

/-- A property of the steps of `BusScheduler` that the worker takes: it holds of the `Sync` of a
call, and of the steps of the job itself. -/
theorem For.elim {motive : BusScheduler.Action HealthCheckDto → Prop}
    {b : BusScheduler.Action HealthCheckDto} (h : For w a b)
    (hsync : ∀ checks syncTime, a = .healthCheckSync checks syncTime →
      motive (.sync 0 (some (checks.map (synced w.servicesDic syncTime)))))
    (hconstruct : motive .construct)
    (hexecute : ∀ referenceTime timeZone, motive (.execute referenceTime timeZone))
    (hnext : motive .next) : motive b := by
  cases a with
  | serviceSync services => exact False.elim h
  | healthCheckSync checks syncTime =>
    obtain rfl : b = _ := h
    exact hsync checks syncTime rfl
  | construct =>
    obtain rfl : b = _ := h
    exact hconstruct
  | execute referenceTime timeZone =>
    obtain rfl : b = _ := h
    exact hexecute referenceTime timeZone
  | next =>
    obtain rfl : b = _ := h
    exact hnext

theorem world_setWorld {v : World HealthCheckDto}
    (hrepositories : v.repositories = w.world.repositories)
    (hreads : v.clockReads = w.world.clockReads) : (w.setWorld v).world = v := by
  obtain ⟨heap, repositories, clockReads, tick, published⟩ := v
  simp only at hrepositories hreads
  subst hrepositories hreads
  rfl

theorem busStep_world {b : BusScheduler.Action HealthCheckDto} (hb : ∀ i items, b ≠ .sync i items)
    (h : busStep comparer clock machine w b = some w') :
    BusScheduler.step comparer clock machine w.world b = some w'.world := by
  obtain ⟨v, hv, rfl⟩ := Option.map_eq_some_iff.1 h
  obtain ⟨hrepositories, hreads⟩ :
      v.repositories = w.world.repositories ∧ v.clockReads = w.world.clockReads := by
    rcases BusScheduler.step_inv hv with ⟨i, items, _, rfl, -⟩ | ⟨-, -, rfl⟩ |
      ⟨_, _, _, -, -, rfl⟩ | ⟨-, -, rfl⟩ | ⟨_, _, _, -, -, -, ⟨_, -, rfl⟩ | ⟨_, _, -, rfl⟩⟩
    · exact absurd rfl (hb i items)
    all_goals exact ⟨rfl, rfl⟩
  rw [hv, world_setWorld hrepositories hreads]

/-- A call of the health check sync is a `Sync` of the scheduler, or does not get that far. -/
theorem healthCheckSync_world {checks : List HealthCheckResource} {syncTime : DateTime}
    (h : step json serviceJson comparer clock machine w (.healthCheckSync checks syncTime) =
      some w') :
    w'.world = w.world ∨
      BusScheduler.step comparer clock machine w.world
        (.sync 0 (some (checks.map (synced w.servicesDic syncTime)))) = some w'.world := by
  cases h
  have hspec := HealthCheckSyncSchedulerJob.execute_spec json comparer clock checks syncTime w.job
    rfl
  have hsync : ∀ repository : SchedulerRepository HealthCheckDto,
      finalState (SchedulerRepository.sync comparer clock
        (some (checks.map (synced w.servicesDic syncTime)))
        w.job.healthCheckSchedulerRepository) = repository →
      BusScheduler.step comparer clock machine w.world
        (.sync 0 (some (checks.map (synced w.servicesDic syncTime)))) =
          some ⟨repository.heap, [repository.scheduledTasks], repository.clockReads, w.tick,
            w.published⟩ := by
    rintro _ rfl
    rfl
  cases hresult : HealthCheckSyncSchedulerJob.execute json comparer clock checks syncTime
      w.job with
  | ok u σ =>
    rw [hresult] at hspec
    obtain ⟨-, -, hreturns, -⟩ := hspec
    exact Or.inr (hsync _ (by rw [hreturns]; rfl))
  | error e σ =>
    rw [hresult] at hspec
    rcases hspec with ⟨-, -, hstores⟩ | ⟨-, -, hthrows, -⟩
    · have hscheduler : σ.healthCheckSchedulerRepository =
          w.job.healthCheckSchedulerRepository := congrArg (fun τ => τ.2.1) hstores
      refine Or.inl ?_
      unfold world
      simp only [finalState, hscheduler]
    · exact Or.inr (hsync _ (by rw [hthrows]; rfl))

theorem step_refines
    (h : step json serviceJson comparer clock machine w a = some w') :
    w'.world = w.world ∨
      ∃ b, For w a b ∧ BusScheduler.step comparer clock machine w.world b = some w'.world := by
  cases a with
  | serviceSync services =>
    cases h
    exact Or.inl rfl
  | healthCheckSync checks syncTime =>
    exact (healthCheckSync_world h).imp_right fun hstep => ⟨_, rfl, hstep⟩
  | construct => exact Or.inr ⟨_, rfl, busStep_world (fun _ _ => nofun) h⟩
  | execute referenceTime timeZone =>
    exact Or.inr ⟨_, rfl, busStep_world (fun _ _ => nofun) h⟩
  | next => exact Or.inr ⟨_, rfl, busStep_world (fun _ _ => nofun) h⟩

/-- **The worker refines `BusScheduler`**: its runs, failures of the two jobs included, are runs of
`BusScheduler` whose item lists are made of the resources listed, with the services that were in
memory at that moment. -/
theorem worker_refines
    (hrun : Runs.run (step json serviceJson comparer clock machine) as w = some w') :
    ∃ bs, Runs.run (BusScheduler.step comparer clock machine) bs w.world = some w'.world ∧
      ∀ b ∈ bs, ∃ before a rest w₁, as = before ++ a :: rest ∧
        Runs.run (step json serviceJson comparer clock machine) before w = some w₁ ∧ For w₁ a b :=
  Runs.run_simulates (fun _ => True) (fun _ => True) (fun _ _ _ _ _ _ => trivial)
    (fun _ _ _ _ _ hstep => step_refines hstep) trivial (fun _ _ => trivial) hrun

/-! ## The services in memory -/

/-- Every entry of the dictionary is a service of one of the lists, under its own key. -/
def ServicesFrom (as : List Action) (w : SchedulerWorker server) : Prop :=
  ∀ dic key service, w.servicesDic = some dic → dic.lookup key = some service →
    service.nameandNamespace = key ∧ ∃ services, .serviceSync services ∈ as ∧ service ∈ services

/-- The dictionary of the services is the same. -/
def SameServices (σ σ' : HealthCheckSyncSchedulerJob server) : Prop :=
  σ'.k8MemoryRepository.servicesDic = σ.k8MemoryRepository.servicesDic

theorem SameServices.refl (σ : HealthCheckSyncSchedulerJob server) : SameServices σ σ := rfl

theorem SameServices.trans (a b c : HealthCheckSyncSchedulerJob server) (hab : SameServices a b)
    (hbc : SameServices b c) : SameServices a c :=
  Eq.trans hbc hab

theorem addPhase_services (check : HealthCheckResource) :
    Respects SameServices
      (HealthCheckSyncSchedulerJob.addPhase check : HealthCheckSyncSchedulerJob.Job server _) := by
  unfold HealthCheckSyncSchedulerJob.addPhase
  split
  · exact Respects.bind SameServices.trans (Respects.modify fun _ => rfl) fun _ =>
      Respects.pure SameServices.refl _
  · exact Respects.pure SameServices.refl _

theorem relate_services (syncTime : DateTime) (p : HealthCheckDto) :
    Respects SameServices (HealthCheckSyncSchedulerJob.relate json syncTime p :
      HealthCheckSyncSchedulerJob.Job server _) := by
  unfold HealthCheckSyncSchedulerJob.relate
  refine Respects.bind SameServices.trans (Respects.get SameServices.refl) fun _ => ?_
  refine Respects.bind SameServices.trans (Respects.ofExcept SameServices.refl _) fun _ => ?_
  split
  · refine Respects.bind SameServices.trans ?_ fun _ => Respects.pure SameServices.refl _
    apply Respects.onPart
    exact fun _ _ => rfl
  · exact Respects.pure SameServices.refl _

/-- The health check sync leaves the dictionary of the services alone. -/
theorem execute_services (checks : List HealthCheckResource) (syncTime : DateTime) :
    Respects SameServices (HealthCheckSyncSchedulerJob.execute json comparer clock checks syncTime :
      HealthCheckSyncSchedulerJob.Job server Unit) := by
  unfold HealthCheckSyncSchedulerJob.execute
  refine Respects.bind SameServices.trans
    (Respects.mapM SameServices.refl SameServices.trans addPhase_services _) fun _ => ?_
  refine Respects.bind SameServices.trans
    (Respects.mapM SameServices.refl SameServices.trans (relate_services syncTime) _) fun _ => ?_
  refine Respects.bind SameServices.trans (Respects.modify fun _ => rfl) fun _ => ?_
  refine Respects.bind SameServices.trans ?_ fun _ => ?_
  · apply Respects.onPart
    exact fun _ _ => rfl
  · apply Respects.onPart
    exact fun _ _ => rfl

/-- The service sync puts a dictionary of its list into memory, or leaves the one there is. -/
theorem serviceSync_servicesDic (serviceJson : ServiceJson) (services : List ServiceV1)
    (s : K8MemoryRepository × server.Hash) :
    (finalState (ServiceSyncSchedulerJob.execute serviceJson services s)).1.servicesDic =
        s.1.servicesDic ∨
      ∃ dic, toDictionary services = .ok dic ∧
        (finalState (ServiceSyncSchedulerJob.execute serviceJson services s)).1.servicesDic =
          some dic := by
  unfold ServiceSyncSchedulerJob.execute
  rw [bind_ok (get_apply s)]
  cases hmade : toDictionary services with
  | error e =>
    have hset : s.1.setServices (some services) = .error e := by
      unfold K8MemoryRepository.setServices
      simp only [hmade]
    rw [hset]
    exact Or.inl rfl
  | ok dic =>
    have hset : s.1.setServices (some services) = .ok { s.1 with servicesDic := some dic } := by
      unfold K8MemoryRepository.setServices
      simp only [hmade]
    rw [hset]
    refine Or.inr ⟨dic, rfl, ?_⟩
    let stored : K8MemoryRepository × server.Hash := ({ s.1 with servicesDic := some dic }, s.2)
    show (finalState (onPart Prod.snd (fun s hash => (s.1, hash))
      (alone server.exec (serviceJson.dictionary.sync services true)) stored)).1.servicesDic = _
    unfold onPart
    cases alone server.exec (serviceJson.dictionary.sync services true) stored.2 with
    | ok u hash => rfl
    | error e hash => rfl

theorem busStep_servicesDic {b : BusScheduler.Action HealthCheckDto}
    (h : busStep comparer clock machine w b = some w') : w'.servicesDic = w.servicesDic := by
  obtain ⟨v, -, rfl⟩ := Option.map_eq_some_iff.1 h
  rfl

theorem ServicesFrom.mono (h : ServicesFrom as w) (hdic : w'.servicesDic = w.servicesDic) :
    ServicesFrom (as ++ [a]) w' := by
  intro dic key service hdic' hlookup
  obtain ⟨hkey, services, hservices, hservice⟩ := h dic key service (hdic ▸ hdic') hlookup
  exact ⟨hkey, services, List.mem_append_left _ hservices, hservice⟩

theorem ServicesFrom.step (h : ServicesFrom as w)
    (hstep : SchedulerWorker.step json serviceJson comparer clock machine w a = some w') :
    ServicesFrom (as ++ [a]) w' := by
  cases a with
  | serviceSync services =>
    cases hstep
    rcases serviceSync_servicesDic serviceJson services
      (w.job.k8MemoryRepository, w.services) with hsame | ⟨dic, hmade, hdic⟩
    · exact h.mono hsame
    · intro dic' key service hdic' hlookup
      obtain rfl : dic = dic' := Option.some.inj (hdic.symm.trans hdic')
      obtain ⟨hservice, hkey⟩ := (holds_of_toDictionary hmade key service).1 hlookup
      exact ⟨hkey, services, by simp, hservice⟩
  | healthCheckSync checks syncTime =>
    cases hstep
    exact h.mono (execute_services checks syncTime w.job)
  | construct => exact h.mono (busStep_servicesDic hstep)
  | execute referenceTime timeZone => exact h.mono (busStep_servicesDic hstep)
  | next => exact h.mono (busStep_servicesDic hstep)

theorem servicesFrom_run {healthChecks serviceNotFound services : server.Hash}
    (hrun : Runs.run (step json serviceJson comparer clock machine) as
      (start healthChecks serviceNotFound services) = some w) : ServicesFrom as w := by
  refine Runs.run_induction (motive := ServicesFrom) ?_ (fun _ _ _ _ _ h hstep => h.step hstep) hrun
  rintro dic key service hdic hlookup
  cases hdic
  rw [AList.lookup_empty] at hlookup
  cases hlookup

/-- A service that is found is in the dictionary, under the key that the item names. -/
theorem find_some {p : HealthCheckDto} {servicesDic : Option ServicesDic} {service : ServiceV1}
    (h : findServiceRelatedtoHealthCheckResourceV1 p servicesDic = .ok (some service)) :
    ∃ dic name, servicesDic = some dic ∧
      p.spec.bind HealthCheckResourceSpec.service = some name ∧
      dic.lookup (serviceKey name p.nameSpace) = some service := by
  unfold findServiceRelatedtoHealthCheckResourceV1 at h
  split at h
  · cases h
  · rename_i name hname
    split at h
    · cases h
    · simp only [Except.ok.injEq] at h
      split at h
      · obtain ⟨dic, hdic, hlookup⟩ := Option.bind_eq_some_iff.1 h
        exact ⟨dic, name, hdic, hname, hlookup⟩
      · cases h

theorem relatedService_synced {servicesDic : Option ServicesDic} {syncTime : DateTime}
    {check : HealthCheckResource} {service : ServiceV1}
    (h : (synced servicesDic syncTime check).relatedService = some service) :
    ∃ dic name, servicesDic = some dic ∧
      check.spec.bind HealthCheckResourceSpec.service = some name ∧
      dic.lookup (serviceKey name check.nameSpace) = some service := by
  obtain ⟨status, hphased⟩ := HealthCheckSyncSchedulerJob.phased_eq check
  unfold synced HealthCheckSyncSchedulerJob.related at h
  rw [hphased] at h
  simp only at h
  cases hfind : findServiceRelatedtoHealthCheckResourceV1
      (HealthCheckDto.ofResource { check with status := status }) servicesDic with
  | error e =>
    rw [hfind] at h
    cases h
  | ok found =>
    rw [hfind] at h
    obtain rfl : found = some service := h
    exact find_some hfind

/-! ## What is published -/

section Published

open BusScheduler (Carried Sound Faithful)

variable {keyOf : String → String} {healthChecks serviceNotFound services : server.Hash}

/-- The item was made by a call of the health check sync, of a resource it had listed. -/
def Made (json : HealthCheckJson) (serviceJson : ServiceJson) (comparer : CompareInfo)
    (clock : Clock) (machine : MachineZone) (as : List Action) (w₀ : SchedulerWorker server)
    (check : HealthCheckResource) (p : HealthCheckDto) : Prop :=
  ∃ before checks syncTime rest w₁, as = before ++ .healthCheckSync checks syncTime :: rest ∧
    Runs.run (step json serviceJson comparer clock machine) before w₀ = some w₁ ∧
    check ∈ checks ∧ p = synced w₁.servicesDic syncTime check

/-- The service of an item has been listed, and the resource names it. -/
theorem Made.service {check : HealthCheckResource} {p : HealthCheckDto} {service : ServiceV1}
    (h : Made json serviceJson comparer clock machine as
      (start healthChecks serviceNotFound services) check p)
    (hservice : p.relatedService = some service) :
    (∃ listed, .serviceSync listed ∈ as ∧ service ∈ listed) ∧
      ∃ name, check.spec.bind HealthCheckResourceSpec.service = some name ∧
        service.nameandNamespace = serviceKey name check.nameSpace := by
  obtain ⟨before, checks, syncTime, rest, w₁, rfl, hbefore, -, rfl⟩ := h
  obtain ⟨dic, name, hdic, hname, hlookup⟩ := relatedService_synced hservice
  obtain ⟨hkey, listed, hlisted, hmem⟩ := servicesFrom_run hbefore dic _ service hdic hlookup
  exact ⟨⟨listed, List.mem_append_left _ hlisted, hmem⟩, name, hname, hkey⟩

theorem made_of_published
    (hrun : Runs.run (step json serviceJson comparer clock machine) as
      (start healthChecks serviceNotFound services) = some w) {m : Message HealthCheckDto}
    (hm : m ∈ w.published) :
    ∃ check, Made json serviceJson comparer clock machine as
      (start healthChecks serviceNotFound services) check m.item := by
  let P (p : HealthCheckDto) : Prop := ∃ check, Made json serviceJson comparer clock machine as
    (start healthChecks serviceNotFound services) check p
  obtain ⟨bs, hbs, hfor⟩ := worker_refines hrun
  have hbrings : ∀ b ∈ bs, b.Brings P := by
    intro b hb
    obtain ⟨before, a, rest, w₁, has, hbefore, hmatch⟩ := hfor b hb
    refine hmatch.elim ?_ trivial (fun _ _ => trivial) trivial
    rintro checks syncTime rfl p hp
    obtain ⟨check, hcheck, rfl⟩ := List.mem_map.1 hp
    exact ⟨check, before, checks, syncTime, rest, w₁, has, hbefore, hcheck, rfl⟩
  have hstart : Carried P (start healthChecks serviceNotFound services).world :=
    ⟨fun r t ht => (by cases ht), fun m hm => (by cases hm)⟩
  have hend : Carried P w.world :=
    Runs.run_invariant (Carried P) (BusScheduler.Action.Brings P)
      (fun _ _ _ h hb hstep => h.step hb hstep) hstart hbrings hbs
  exact hend.published m hm

/-- The task object was created, with this schedule, by a call of the health check sync, for the
time that the call read then. -/
def TaskCreated (json : HealthCheckJson) (serviceJson : ServiceJson) (comparer : CompareInfo)
    (clock : Clock) (machine : MachineZone) (as : List Action) (w₀ : SchedulerWorker server)
    (r : Ref) (schedule : CrontabSchedule) (r₀ : DateTime) : Prop :=
  ∃ before checks syncTime rest w₁ w₂ t k, as = before ++ .healthCheckSync checks syncTime :: rest ∧
    Runs.run (step json serviceJson comparer clock machine) before w₀ = some w₁ ∧
    step json serviceJson comparer clock machine w₁ (.healthCheckSync checks syncTime) = some w₂ ∧
    w₁.world.heap.read r = none ∧ w₂.world.heap.read r = some t ∧ t.schedule = schedule ∧
    t.nextRunTime = r₀ ∧ w₁.world.clockReads ≤ k ∧ k < w₂.world.clockReads ∧ r₀ = clock.reading k

/-- Only the health check sync creates task objects, each for a time it has read. -/
theorem step_creates {r : Ref} {t : ScheduledTask HealthCheckDto}
    (hstep : step json serviceJson comparer clock machine w a = some w')
    (hnone : w.world.heap.read r = none) (hnew : w'.world.heap.read r = some t) :
    ∃ checks syncTime k, a = .healthCheckSync checks syncTime ∧ w.world.clockReads ≤ k ∧
      k < w'.world.clockReads ∧ t.nextRunTime = clock.reading k := by
  rcases step_refines hstep with hsame | ⟨b, hfor, hbus⟩
  · rw [hsame, hnone] at hnew
    cases hnew
  · obtain ⟨i, items, rfl, k, hk, hk', hnext⟩ := BusScheduler.step_creates hbus hnone hnew
    cases a with
    | serviceSync services => exact False.elim hfor
    | healthCheckSync checks syncTime => exact ⟨checks, syncTime, k, rfl, hk, hk', hnext⟩
    | construct => cases hfor
    | execute referenceTime timeZone => cases hfor
    | next => cases hfor

/-- **Every task object was created by a call of the health check sync.** -/
theorem taskCreated_of_read
    (hrun : Runs.run (step json serviceJson comparer clock machine) as
      (start healthChecks serviceNotFound services) = some w) {r : Ref}
    {t : ScheduledTask HealthCheckDto} (hread : w.world.heap.read r = some t) :
    ∃ r₀, TaskCreated json serviceJson comparer clock machine as
      (start healthChecks serviceNotFound services) r t.schedule r₀ := by
  refine Runs.run_induction (motive := fun as w => ∀ t, w.world.heap.read r = some t →
    ∃ r₀, TaskCreated json serviceJson comparer clock machine as
      (start healthChecks serviceNotFound services) r t.schedule r₀) ?_ ?_ hrun t hread
  · rintro t ⟨⟩
  · intro as w a w' hbefore ih hstep t hread
    cases hnone : w.world.heap.read r with
    | some t₀ =>
      -- an old object keeps its schedule
      have hkept : t.schedule = t₀.schedule := by
        rcases step_refines hstep with hsame | ⟨b, -, hbus⟩
        · rw [hsame, hnone] at hread
          rw [Option.some.inj hread]
        · obtain ⟨t', ht', hschedule⟩ := BusScheduler.step_evolves hbus r t₀ hnone
          rw [← Option.some.inj (hread.symm.trans ht')] at hschedule
          exact hschedule
      obtain ⟨r₀, before, checks, syncTime, rest, hcreated⟩ := ih t₀ hnone
      obtain ⟨w₁, w₂, u, k, rfl, hcreated⟩ := hcreated
      rw [hkept]
      exact ⟨r₀, before, checks, syncTime, rest ++ [a], w₁, w₂, u, k, by simp, hcreated⟩
    | none =>
      obtain ⟨checks, syncTime, k, rfl, hk, hk', hnext⟩ := step_creates hstep hnone hread
      exact ⟨t.nextRunTime, as, checks, syncTime, [], w, w', t, k, rfl, hbefore, hstep, hnone,
        hread, rfl, rfl, hk, hk', hnext⟩

/-- What the creation is in the run of `BusScheduler` that the worker refines. -/
theorem TaskCreated.createdAt {r : Ref} {schedule : CrontabSchedule} {r₀ : DateTime}
    (h : TaskCreated json serviceJson comparer clock machine as
      (start healthChecks serviceNotFound services) r schedule r₀)
    (hrun : Runs.run (step json serviceJson comparer clock machine) as
      (start healthChecks serviceNotFound services) = some w) :
    ∃ bs, Runs.run (BusScheduler.step comparer clock machine) bs (World.start 1) =
        some w.world ∧ BusScheduler.CreatedAt comparer clock machine 1 bs r schedule r₀ := by
  obtain ⟨before, checks, syncTime, rest, w₁, w₂, t, k, rfl, hbefore, hstep, hnone, hnew, hschedule,
    hnext, hk, hk', hreading⟩ := h
  obtain ⟨w', hw', hafter⟩ := Runs.run_append_eq_some hrun
  cases hw'.symm.trans hbefore
  rw [Runs.run, hstep] at hafter
  obtain ⟨bs₁, hbs₁, -⟩ := worker_refines hbefore
  obtain ⟨bs₂, hbs₂, -⟩ := worker_refines hafter
  rcases step_refines hstep with hsame | ⟨b, hfor, hbus⟩
  · rw [hsame, hnone] at hnew
    cases hnew
  · obtain rfl : b = _ := hfor
    refine ⟨bs₁ ++ .sync 0 (some (checks.map (synced w₁.servicesDic syncTime))) :: bs₂, ?_,
      bs₁, 0, _, bs₂, w₁.world, w₂.world, t, rfl, hbs₁, hbus, hnone, hnew, hschedule, hnext, k, hk,
      hk', hreading⟩
    rw [Runs.run_append, show Runs.run (BusScheduler.step comparer clock machine) bs₁
      (World.start 1) = some w₁.world from hbs₁]
    rw [Option.bind_some, Runs.run, hbus]
    exact hbs₂

/-- The run times of what is published: the time its task was created at, and times after that at
which the crontab of its item occurs. -/
theorem runTime_of_published
    (hrun : Runs.run (step json serviceJson comparer clock machine) as
      (start healthChecks serviceNotFound services) = some w)
    (hlisted : ∀ checks syncTime, .healthCheckSync checks syncTime ∈ as → Listed keyOf checks)
    {m : Message HealthCheckDto} (hm : m ∈ w.published) :
    ∃ schedule r₀, CrontabSchedule.parse comparer (IScheduledTaskItem.schedule m.item) =
        .ok schedule ∧
      TaskCreated json serviceJson comparer clock machine as
        (start healthChecks serviceNotFound services) m.task schedule r₀ ∧
      RunTime schedule r₀.moment m.runTime.moment := by
  obtain ⟨bs, hbs, hfor⟩ := worker_refines hrun
  have hworld : (start healthChecks serviceNotFound services).world = World.start 1 := rfl
  rw [hworld] at hbs
  have hok : ∀ b ∈ bs, b.Ok fun _ => keyOf := by
    intro b hb
    obtain ⟨before, a, rest, w₁, rfl, -, hmatch⟩ := hfor b hb
    refine hmatch.elim ?_ trivial (fun _ _ => trivial) trivial
    rintro checks syncTime rfl
    exact HealthCheckSyncSchedulerJob.itemsOk_of_listed (hlisted checks syncTime (by simp)) _ _
  have hsound : Sound (World.start 1 : World HealthCheckDto) := fun m hm => by cases hm
  have hfaithful : Faithful comparer (World.start 1 : World HealthCheckDto) :=
    ⟨fun r t ht => (by cases ht), fun m hm => (by cases hm)⟩
  obtain ⟨t, ht⟩ := hsound.run hbs m hm
  obtain ⟨t', ht', hparse⟩ :=
    (hfaithful.run (BusScheduler.consistent_start 1) hok hbs).published m hm
  obtain rfl : t = t' := Option.some.inj (ht.symm.trans ht')
  obtain ⟨r₀, hcreated⟩ := taskCreated_of_read hrun ht
  refine ⟨t.schedule, r₀, hparse, hcreated, ?_⟩
  have hmem : m.runTime ∈ w.world.runTimes m.task :=
    List.mem_map_of_mem (List.mem_filter.2 ⟨hm, decide_eq_true rfl⟩)
  obtain ⟨bs', hbs', hcreatedAt⟩ := hcreated.createdAt hrun
  rcases hcreatedAt.runTimes hbs' with hnil | ⟨os, hos, hall⟩
  · rw [hnil] at hmem
    cases hmem
  · rw [hos] at hmem
    rcases List.mem_cons.1 hmem with heq | hmem
    · exact Or.inl (by rw [heq])
    · exact Or.inr (hall _ hmem)

/-- **What the worker publishes**, whatever its jobs throw: an item that a call of the health check
sync has made of a resource it had listed, for the time at which a call has created the task of the
message, or a later time at which the crontab of the resource occurs; and if the item has a service,
then a service sync has listed it, and the resource names it. -/
theorem published_resource
    (hrun : Runs.run (step json serviceJson comparer clock machine) as
      (start healthChecks serviceNotFound services) = some w)
    (hlisted : ∀ checks syncTime, .healthCheckSync checks syncTime ∈ as → Listed keyOf checks)
    {m : Message HealthCheckDto} (hm : m ∈ w.published) :
    ∃ check, Made json serviceJson comparer clock machine as
        (start healthChecks serviceNotFound services) check m.item ∧
      (∃ schedule r₀, CrontabSchedule.parse comparer
          (check.spec.bind HealthCheckResourceSpec.crontab) = .ok schedule ∧
        TaskCreated json serviceJson comparer clock machine as
          (start healthChecks serviceNotFound services) m.task schedule r₀ ∧
        RunTime schedule r₀.moment m.runTime.moment) ∧
      ∀ service, m.item.relatedService = some service →
        (∃ listed, .serviceSync listed ∈ as ∧ service ∈ listed) ∧
        ∃ name, check.spec.bind HealthCheckResourceSpec.service = some name ∧
          service.nameandNamespace = serviceKey name check.nameSpace := by
  obtain ⟨check, hmade⟩ := made_of_published hrun hm
  obtain ⟨schedule, r₀, hparse, hcreated, hruntime⟩ := runTime_of_published hrun hlisted hm
  refine ⟨check, hmade, ⟨schedule, r₀, ?_, hcreated, hruntime⟩, fun service hservice => ?_⟩
  · obtain ⟨_, _, _, _, _, -, -, -, hitem⟩ := hmade
    rw [hitem, HealthCheckSyncSchedulerJob.synced_schedule] at hparse
    exact hparse
  · exact hmade.service hservice

/-! ## An example -/

open HealthCheckSyncSchedulerJob (hourlyResource emptyJson)
open SchedulerRepository (newYear checkKey)

def emptyServiceJson : ServiceJson where
  serialize _ := "{}"
  deserialize _ := .error (.exception "Unexpected end when reading JSON")
  default := ⟨"", ""⟩

/-- A worker with nothing in Redis. -/
def freshWorker : SchedulerWorker .lastWritten := start (∅ : Entries) (∅ : Entries) (∅ : Entries)

/-- One service and one check of it, which is published a minute later. -/
def firstMinute : List Action :=
  [.serviceSync [⟨"kubernetes", "default"⟩], .healthCheckSync [hourlyResource] .minValue, .construct,
    .execute (.utcTime 2022 1 1 0 1) ⟨fun _ => 0⟩, .next, .next]

theorem published_resource_firstMinute : ∃ (w : SchedulerWorker .lastWritten)
    (m : Message HealthCheckDto) (service : ServiceV1),
    Runs.run (step emptyJson emptyServiceJson .ascii newYear ⟨fun _ => 0⟩) firstMinute
      freshWorker = some w ∧
    m ∈ w.published ∧ m.item.relatedService = some service ∧
    ∃ check, Made emptyJson emptyServiceJson .ascii newYear ⟨fun _ => 0⟩ firstMinute freshWorker
        check m.item ∧
      (∃ schedule r₀, CrontabSchedule.parse .ascii
          (check.spec.bind HealthCheckResourceSpec.crontab) = .ok schedule ∧
        TaskCreated emptyJson emptyServiceJson .ascii newYear ⟨fun _ => 0⟩ firstMinute freshWorker
          m.task schedule r₀ ∧
        RunTime schedule r₀.moment m.runTime.moment) ∧
      ∀ service, m.item.relatedService = some service →
        (∃ listed, .serviceSync listed ∈ firstMinute ∧ service ∈ listed) ∧
        ∃ name, check.spec.bind HealthCheckResourceSpec.service = some name ∧
          service.nameandNamespace = serviceKey name check.nameSpace := by
  obtain ⟨w, hw, hpublished⟩ := (Option.any_eq_true ..).1
    (show (Runs.run (step emptyJson emptyServiceJson .ascii newYear ⟨fun _ => 0⟩) firstMinute
      freshWorker).any (fun w => w.published.any fun m => m.item.relatedService.isSome) = true by
        decide +kernel)
  obtain ⟨m, hm, hsome⟩ := List.any_eq_true.1 hpublished
  obtain ⟨service, hservice⟩ := Option.isSome_iff_exists.1 hsome
  have hlisted : ∀ checks syncTime, .healthCheckSync checks syncTime ∈ firstMinute →
      Listed checkKey checks := by
    intro checks syncTime hmem
    have hchecks : checks = [hourlyResource] := by
      simp only [firstMinute, List.mem_cons, Action.healthCheckSync.injEq, reduceCtorEq, false_or,
        or_false, List.not_mem_nil] at hmem
      exact hmem.1
    rw [hchecks]
    exact ⟨by decide, by decide, by decide, by decide⟩
  exact ⟨w, m, service, hw, hm, hservice, published_resource hw hlisted hm⟩

end Published

end SchedulerWorker

end Sentinel
