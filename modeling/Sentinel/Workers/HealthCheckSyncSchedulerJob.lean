import Sentinel.Auth.AZAuthService
import Sentinel.Redis.RedisSync
import Sentinel.Scheduler.SyncResults

/-!
# `HealthCheckSyncSchedulerJob`

The job reads the health check resources of the cluster and writes them to three stores, one after
the other.  Requests to the API server and to Redis are taken to succeed.
-/

set_option autoImplicit false

namespace Sentinel

open Commands Throwing
open AZAuthService (isNullOrEmpty)

/-! ## The resources -/

structure HealthCheckResourceSpec where
  service : Option String
  crontab : Option String

structure HealthCheckResourceStatus where
  phase : Option String
  checkedUrl : Option String

/-- The custom resource, with what is read of its metadata. -/
structure HealthCheckResource where
  uid : String
  name : String
  nameSpace : String
  spec : Option HealthCheckResourceSpec
  status : Option HealthCheckResourceStatus

structure ServiceV1 where
  name : String
  nameSpace : String

/-- A `HealthCheckResourceV1` with the members that only its synchronisation reads and writes. -/
structure HealthCheckDto extends HealthCheckResourceV1 where
  spec : Option HealthCheckResourceSpec
  status : Option HealthCheckResourceStatus
  latestSyncDateUTC : DateTime
  relatedService : Option ServiceV1

instance : IScheduledTaskItem HealthCheckDto where
  uid p := IScheduledTaskItem.uid p.toHealthCheckResourceV1
  key p := IScheduledTaskItem.key p.toHealthCheckResourceV1
  schedule p := IScheduledTaskItem.schedule p.toHealthCheckResourceV1

/-- The mapping of a resource; a missing part of the resource gives null. -/
def HealthCheckDto.ofResource (source : HealthCheckResource) : HealthCheckDto where
  uid := source.uid
  name := source.name
  nameSpace := source.nameSpace
  schedule := source.spec.bind HealthCheckResourceSpec.crontab
  spec := source.spec
  status := source.status
  latestSyncDateUTC := .minValue
  relatedService := none

/-- The JSON form of the items, and what stands for a missing one. -/
structure HealthCheckJson where
  serialize : HealthCheckDto → String
  deserialize : String → Except Exn HealthCheckDto
  default : HealthCheckDto

/-- The dictionary of the items: `Key` is the property with the `Key` attribute. -/
def HealthCheckJson.dictionary (json : HealthCheckJson) : RedisDictionary HealthCheckDto where
  serialize := json.serialize
  deserialize := json.deserialize
  keyValue p := some (IScheduledTaskItem.key p)
  default := json.default

/-! ## The related service -/

abbrev ServicesDic := AList (fun _ : String => ServiceV1)

/-- The key of the service a text names, in the namespace of the check unless the text names one. -/
def serviceKey (service nameSpace : String) : String :=
  match split '.' service.toList with
  | serviceName :: namespaceName :: _ =>
    String.ofList serviceName ++ "." ++ String.ofList namespaceName
  | [serviceName] => String.ofList serviceName ++ "." ++ nameSpace
  | [] => ""

def findServiceRelatedtoHealthCheckResourceV1 (healthCheckResource : HealthCheckDto)
    (serviceDic : Option ServicesDic) : Except Exn (Option ServiceV1) :=
  match healthCheckResource.spec.bind HealthCheckResourceSpec.service with
  | none => .error (.argumentNullException "Service")
  | some serviceName =>
    if isNullOrWhiteSpace (some serviceName) then .error (.argumentNullException "Service")
    else
      let key := serviceKey serviceName healthCheckResource.nameSpace
      .ok (if key ≠ "" then serviceDic.bind fun dic => dic.lookup key else none)

/-! ## The job -/

/-- The members of the repository the job reads and writes. -/
structure K8MemoryRepository where
  servicesDic : Option ServicesDic
  healthChecks : Option (List HealthCheckDto)

/-- The stores of the job, the hash `HealthChecks` and the hash of the checks without a service, and
the status updates the job has sent. -/
structure HealthCheckSyncSchedulerJob (server : RedisServer) where
  k8MemoryRepository : K8MemoryRepository
  healthCheckSchedulerRepository : SchedulerRepository HealthCheckDto
  healthChecks : server.Hash
  serviceNotFound : server.Hash
  statusUpdates : List HealthCheckResource

namespace HealthCheckSyncSchedulerJob

variable {server : RedisServer}

abbrev Job (server : RedisServer) := EStateM Exn (HealthCheckSyncSchedulerJob server)

def onScheduler {α : Type} (m : EStateM Exn (SchedulerRepository HealthCheckDto) α) :
    Job server α :=
  onPart healthCheckSchedulerRepository
    (fun s repository => { s with healthCheckSchedulerRepository := repository }) m

def onHealthChecks {α : Type} (program : Redis α) : Job server α :=
  onPart healthChecks (fun s hash => { s with healthChecks := hash }) (alone server.exec program)

def onServiceNotFound {α : Type} (program : Redis α) : Job server α :=
  onPart serviceNotFound (fun s hash => { s with serviceNotFound := hash })
    (alone server.exec program)

def updateStartusAsync (healthCheck : HealthCheckResource) (phase checkedUrl : String) :
    Job server HealthCheckResource := do
  let healthCheck := { healthCheck with status := some ⟨some phase, some checkedUrl⟩ }
  modify fun s => { s with statusUpdates := s.statusUpdates ++ [healthCheck] }
  pure healthCheck

/-- A round of the first loop. -/
def addPhase (check : HealthCheckResource) : Job server HealthCheckResource :=
  if isNullOrEmpty (check.status.bind HealthCheckResourceStatus.phase) then
    updateStartusAsync check "AddedtoRedis" ""
  else pure check

/-- `K8MemoryRepository.HealthChecks = dtoitems`. -/
def setHealthChecks (dtoitems : List HealthCheckDto) : Job server Unit :=
  modify fun s =>
    { s with k8MemoryRepository := { s.k8MemoryRepository with healthChecks := some dtoitems } }

variable (json : HealthCheckJson) (comparer : CompareInfo) (clock : Clock)

/-- A round of the second loop. -/
def relate (syncTime : DateTime) (p : HealthCheckDto) : Job server HealthCheckDto := do
  let p := { p with latestSyncDateUTC := syncTime }
  let s ← get
  let service ← ofExcept
    (findServiceRelatedtoHealthCheckResourceV1 p s.k8MemoryRepository.servicesDic)
  let p := { p with relatedService := service }
  if service.isNone then onServiceNotFound (json.dictionary.addValue p)
  pure p

/-- `Execute`, with the resources the API server returns and the time it reads. -/
def execute (checks : List HealthCheckResource) (syncTime : DateTime) : Job server Unit := do
  let checks ← checks.mapM addPhase
  let dtoitems := checks.map HealthCheckDto.ofResource
  let dtoitems ← dtoitems.mapM (relate json syncTime)
  setHealthChecks dtoitems
  onScheduler (SchedulerRepository.sync comparer clock (some dtoitems))
  onHealthChecks (json.dictionary.sync dtoitems true)

end HealthCheckSyncSchedulerJob

end Sentinel
