import Sentinel.HttpClients.IsAliveAndWellHealthCheckDownloader
import Sentinel.K8s.StatusUpdates
import Sentinel.DotNet.JToken
import Sentinel.Lib.Logged
import Sentinel.Mongo.InterleavedRepo
import Sentinel.PubSub.SubscribeBackgroundService
import Sentinel.Scheduler.ScheduledTask

/-!
# The pipeline of the health checks

`HealthCheckSubscriber` checks the services of the items it is sent; it publishes every result and
saves it to two collections.  `HealthCheckStatusUpdateSubscriber` is sent what was published and
writes the status of the check.  The handlers run at the same time, in any number, on one bus, one
database and one API server.  A publication is not waited for: it ends on its own, and may fail.

The bus and the database are parameters, `Bus` and `MongoServer`, which may fail in any way; the
requests to the API server reach it and are answered.
-/

set_option autoImplicit false

namespace Sentinel

open Commands

namespace HealthCheckPipeline

/-! ## The messages and the documents -/

/-- The members of the specification that `DownloadAsync` reads. -/
structure HealthCheckResourceSpecV1 where
  cert : Option String
  clientId : Option String
  isaliveandwellUrl : Option String

/-- A `HealthCheckResourceV1` with the members that the subscribers read. -/
structure CheckedResource extends HealthCheckResourceV1 where
  spec : Option HealthCheckResourceSpecV1
  relatedService : Option K8sServiceClient.ServiceV1

/-- An `IScheduledTaskItem`, by its class. -/
inductive ScheduledTaskItem where
  | healthCheckResourceV1 (healthcheck : CheckedResource)
  | unknown (key : String)

structure IsAliveAndWellResultListWithHealthCheck where
  isAliveAndWellResult : IsAliveAndWellResult
  healthCheck : CheckedResource

structure IsAliveAndWellResultTimeSerieMetadata where
  nameSpace : Option String
  serviceName : Option String
  checkedUrl : Option String

abbrev ObjectId := BitVec 96

/-- A `BsonDateTime` is the number of milliseconds since the beginning of 1970. -/
abbrev BsonDateTime := ℤ

structure IsAliveAndWellResultTimeSerie where
  id : ObjectId
  metadata : IsAliveAndWellResultTimeSerieMetadata
  status : String
  isSuccessStatusCode : Bool
  resultDetailId : Option String
  checkedAt : BsonDateTime

def unixEpochTicks : ℤ := 621355968000000000

def bsonDateTime (ticks : ℤ) : BsonDateTime := (ticks - unixEpochTicks).tdiv 10000

/-- What a handler reads of its surroundings while it handles one item: the new id, the clock, the
time zone, the headers, which may fail to be built, and the downloads. -/
structure Surroundings where
  newObjectId : ObjectId
  utcNow : DateTime
  machine : MachineZone
  headers : CheckedResource → Except Exn Unit
  downloader : IsAliveAndWellHealthCheckDownloader

def fromIsAliveAndWellResult (surroundings : Surroundings) (healthcheck : CheckedResource)
    (result : IsAliveAndWellResult) : IsAliveAndWellResultTimeSerie where
  id := surroundings.newObjectId
  metadata :=
    ⟨healthcheck.relatedService.map (·.nameSpace), healthcheck.relatedService.map (·.name),
      result.checkedUrl⟩
  status := result.status
  isSuccessStatusCode := result.isSuccessStatusCode
  resultDetailId := none
  checkedAt :=
    if result.checkedAt.moment.ticks = DateTime.minValue.moment.ticks then
      bsonDateTime surroundings.utcNow.moment.ticks
    else bsonDateTime (clampTicks (result.checkedAt.utcTicks surroundings.machine))

/-! ## The system -/

/-- A bus, as it is documented: what a handler receives has been published, and arrives as it was
sent.  A message may be lost, be received many times, and overtake others. -/
structure Bus (M : Type) where
  State : Type
  /-- The messages that `PublishAsync` has been given so far, whatever has become of them. -/
  published : State → Multiset M
  publish : State → M → Except Exn Unit × State
  receive : State → Option M × State
  published_publish : ∀ s message, published (publish s message).2 = message ::ₘ published s
  published_receive : ∀ s, published (receive s).2 = published s
  receive_published : ∀ s message, (receive s).1 = some message → message ∈ published s

/-- What the handlers share, and the libraries: the JSON texts of the messages, `JObject.Parse`
without its exceptions, and the texts of the API server. -/
structure System where
  seriesRepo : MongoBaseRepo IsAliveAndWellResultTimeSerie ObjectId
  resultRepo : MongoBaseRepo IsAliveAndWellResult String
  itemText : ScheduledTaskItem → Utf16
  updateText : IsAliveAndWellResultListWithHealthCheck → Utf16
  parse : String → Option JToken
  render : JToken → String
  texts : K8sHealthCheckResourceClient.Texts
  bus : Bus IsAliveAndWellResultListWithHealthCheck
  seriesServer : MongoServer seriesRepo.cls
  resultServer : MongoServer resultRepo.cls
  server : K8sHealthCheckResourceClient.HealthCheckServer

/-- The bus, the two collections and the objects of the API server. -/
structure State (system : System) where
  bus : system.bus.State
  timeSeries : system.seriesServer.Store
  results : system.resultServer.Store
  checks : system.server.Store

abbrev Request := KubernetesClient.ApiRequest
  (Option K8sHealthCheckResourceClient.HealthCheckResourceSpec)
  K8sHealthCheckResourceClient.HealthCheckResourceStatus

abbrev Reply := KubernetesClient.ApiReply
  (Option K8sHealthCheckResourceClient.HealthCheckResourceSpec)
  K8sHealthCheckResourceClient.HealthCheckResourceStatus

inductive PipelineCommand where
  | publish (check : IsAliveAndWellResultListWithHealthCheck)
  | receive
  | series (command : MongoCommand IsAliveAndWellResultTimeSerie ObjectId)
  | results (command : MongoCommand IsAliveAndWellResult String)
  | kubernetes (request : Request)

def PipelineReply : PipelineCommand → Type
  | .publish _ => Except Exn Unit
  | .receive => Option IsAliveAndWellResultListWithHealthCheck
  | .series command => MongoReply command
  | .results command => MongoReply command
  | .kubernetes _ => Reply

inductive PipelineExn where
  | exn (e : Exn)
  | mongo (e : MongoExn)
  | client (e : KubernetesClient.ClientExn)

abbrev Pipeline (α : Type) := Prog PipelineCommand PipelineReply PipelineExn α

variable (system : System)

def exec (s : State system) :
    (command : PipelineCommand) → PipelineReply command × State system
  | .publish check =>
    let reply := system.bus.publish s.bus check
    (reply.1, { s with bus := reply.2 })
  | .receive =>
    let reply := system.bus.receive s.bus
    (reply.1, { s with bus := reply.2 })
  | .series command =>
    let reply := system.seriesServer.exec s.timeSeries command
    (reply.1, { s with timeSeries := reply.2 })
  | .results command =>
    let reply := system.resultServer.exec s.results command
    (reply.1, { s with results := reply.2 })
  | .kubernetes request =>
    let reply := system.server.exec s.checks request
    (reply.1, { s with checks := reply.2 })

def onSeries {α : Type} (program : Mongo IsAliveAndWellResultTimeSerie ObjectId α) : Pipeline α :=
  program.lift .series (fun _ reply => reply) .mongo

def onResults {α : Type} (program : Mongo IsAliveAndWellResult String α) : Pipeline α :=
  program.lift .results (fun _ reply => reply) .mongo

def onKubernetes {α : Type} (program : K8sHealthCheckResourceClient.HealthCheckApi α) : Pipeline α :=
  program.lift .kubernetes (fun _ reply => reply) .client

/-! ## The handlers -/

/-- `HandlerPrivate`; the reports of the service itself are left out. -/
def handlerPrivate {T : Type} (text : T → Utf16) (handler : T → Pipeline Unit) :
    Option T → Pipeline Unit
  | none => pure ()
  | some healthcheckTask =>
    match substring (text healthcheckTask) 0 200 with
    | .error e => .throw (.exn e)
    | .ok _ => handler healthcheckTask

namespace HealthCheckSubscriber

variable (surroundings : Surroundings)

/-- `DownloadAsync`: the headers come first. -/
def downloadAsync (service : K8sServiceClient.ServiceV1) (healthcheck : CheckedResource) :
    Except Exn (Option IsAliveAndWellResult) := do
  surroundings.headers healthcheck
  surroundings.downloader.downloadAsync service
    (healthcheck.spec.bind HealthCheckResourceSpecV1.isaliveandwellUrl)

def saveToMongo (healthcheck : CheckedResource) (result : IsAliveAndWellResult) :
    Pipeline Unit := do
  onSeries system.seriesRepo.items
  let timeSerie := fromIsAliveAndWellResult surroundings healthcheck result
  onSeries (system.seriesRepo.addAsync timeSerie)
  onResults (system.resultRepo.addAsync result)

/-- Only what `PublishAsync` throws at once ends the handler; a failure of its task is logged. -/
def queueHealthCheckK8sUpdate (healthcheck : CheckedResource) (result : IsAliveAndWellResult) :
    Pipeline Unit :=
  .call (.publish ⟨result, healthcheck⟩) fun reply => .ofExcept (reply.mapError .exn)

def handler : ScheduledTaskItem → Pipeline Unit
  | .unknown _ => pure ()
  | .healthCheckResourceV1 healthcheck =>
    match healthcheck.relatedService with
    | none => pure ()
    | some relatedService =>
      match downloadAsync surroundings relatedService healthcheck with
      | .error e => .throw (.exn e)
      | .ok none => pure ()
      | .ok (some result) => do
        queueHealthCheckK8sUpdate healthcheck result
        saveToMongo system surroundings healthcheck result

end HealthCheckSubscriber

namespace HealthCheckStatusUpdateSubscriber

/-- The status of the content, if it is a JSON object that has one, and else that of the result. -/
def status (result : IsAliveAndWellResult) : String :=
  ((result.result.bind system.parse).bind (·.textAt system.render [.field "status"])).getD
    result.status

def handler (utcNow : DateTime) (healthcheck : IsAliveAndWellResultListWithHealthCheck) :
    Pipeline Unit := do
  let _ ← onKubernetes (K8sHealthCheckResourceClient.updateStartusByName system.texts
    healthcheck.healthCheck.name healthcheck.healthCheck.nameSpace
    (status system healthcheck.isAliveAndWellResult) healthcheck.isAliveAndWellResult.checkedUrl
    (some utcNow))
  pure ()

end HealthCheckStatusUpdateSubscriber

/-! ## The parties -/

/-- A handler that is sent an item, or a handler that the bus calls with a status update. -/
inductive Party where
  | healthChecker (surroundings : Surroundings) (item : Option ScheduledTaskItem)
  | statusUpdater (utcNow : DateTime)

def Party.program : Party → Pipeline Unit
  | .healthChecker surroundings item =>
    handlerPrivate system.itemText (HealthCheckSubscriber.handler system surroundings) item
  | .statusUpdater utcNow => .call .receive
      (handlerPrivate system.updateText (HealthCheckStatusUpdateSubscriber.handler system utcNow))

/-- A run of the parties, in any order of their commands. -/
def Run (parties : List Party) (schedule : List ℕ) (s : State system)
    (pool : State system × List (Pipeline Unit)) : Prop :=
  Runs.run (poolStep (exec system)) schedule (s, parties.map (Party.program system)) = some pool

end HealthCheckPipeline

end Sentinel
