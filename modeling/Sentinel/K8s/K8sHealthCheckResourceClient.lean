import Sentinel.DotNet.DateTime
import Sentinel.K8s.InterleavedCalls

/-!
# `K8sHealthCheckResourceClient`

A status update by name reads the resource, sets three members of its status, and writes the status.
The API server keeps the custom resource definition of the chart: texts are read back as the JSON
reader gives them, and the validation drops what is not in the schema.
-/

set_option autoImplicit false

namespace Sentinel

open Commands KubernetesClient

namespace K8sHealthCheckResourceClient

/-! ## The resource -/

structure HealthCheckResourceSpec where
  service : Option String
  crontab : Option String
  isaliveUrl : Option String
  isaliveandwellUrl : Option String
  clientId : Option String
  cert : Option String
  deriving DecidableEq

/-- The members of the class, and `message` of its base class; the other members of the base class
are neither set nor in the schema. -/
structure HealthCheckResourceStatus where
  phase : Option String
  lastFailureTime : Option String
  lastCheckTime : Option String
  replicas : Option String
  labelSelector : Option String
  checkedUrl : Option String
  message : Option String
  deriving DecidableEq

structure HealthCheckResourceBody where
  spec : Option HealthCheckResourceSpec
  status : Option HealthCheckResourceStatus

abbrev HealthCheckResource := Resource HealthCheckResourceBody

inductive HealthCheckResourceStatusPhase where
  | pending
  | addedtoRedis
  | healthy
  | unHealthy
  | unknown
  deriving DecidableEq

def HealthCheckResourceStatusPhase.toString : HealthCheckResourceStatusPhase → String
  | .pending => "Pending"
  | .addedtoRedis => "AddedtoRedis"
  | .healthy => "Healthy"
  | .unHealthy => "UnHealthy"
  | .unknown => "Unknown"

/-- The type, with its attributes. -/
def healthCheckResource : ResourceType where
  name := "HealthCheckResource"
  entity := some ⟨"sentinel.mercan.io", "v1", some "HealthCheck", some "healthchecks"⟩
  scope := some .namespaced

def crd : CustomEntityDefinition where
  kind := "HealthCheck"
  listKind := "HealthCheckList"
  group := "sentinel.mercan.io"
  version := "v1"
  singular := "healthcheck"
  plural := "healthchecks"
  scope := .namespaced

theorem createResourceDefinition_healthCheckResource :
    createResourceDefinition healthCheckResource = .ok crd := by
  have hkind : isNullOrWhiteSpace (some "HealthCheck") = false := by decide +kernel
  have hplural : isNullOrWhiteSpace (some "healthchecks") = false := by decide +kernel
  have hlower : "HealthCheck".map Char.toLower = "healthcheck" := by decide +kernel
  unfold createResourceDefinition healthCheckResource
  simp only [hkind, hplural]
  simp [crd, hlower]

/-! ## The JSON form and the schema -/

/-- What the texts of the base library and of the server are: a text that looks like a date is read
as a date and becomes a text again, and a time is written by its format. -/
structure Texts where
  readText : String → String
  timeText : DateTime → String
  isDateTime : String → Bool

variable (texts : Texts)

def readSpec (spec : HealthCheckResourceSpec) : HealthCheckResourceSpec where
  service := spec.service.map texts.readText
  crontab := spec.crontab.map texts.readText
  isaliveUrl := spec.isaliveUrl.map texts.readText
  isaliveandwellUrl := spec.isaliveandwellUrl.map texts.readText
  clientId := spec.clientId.map texts.readText
  cert := spec.cert.map texts.readText

def readStatus (status : HealthCheckResourceStatus) : HealthCheckResourceStatus where
  phase := status.phase.map texts.readText
  lastFailureTime := status.lastFailureTime.map texts.readText
  lastCheckTime := status.lastCheckTime.map texts.readText
  replicas := status.replicas.map texts.readText
  labelSelector := status.labelSelector.map texts.readText
  checkedUrl := status.checkedUrl.map texts.readText
  message := status.message.map texts.readText

abbrev HealthCheckContent := Content (Option HealthCheckResourceSpec) HealthCheckResourceStatus

def codec : Serialization HealthCheckResourceBody (Option HealthCheckResourceSpec)
    HealthCheckResourceStatus where
  type := healthCheckResource
  serialize body := ⟨body.spec, body.status⟩
  deserialize content :=
    .ok (some ⟨content.main.map (readSpec texts), content.status.map (readStatus texts)⟩)

/-- The properties of the status that are in the schema; the phase has a default. -/
def pruneStatus (status : HealthCheckResourceStatus) : HealthCheckResourceStatus :=
  { status with
    phase := some (status.phase.getD "Pending")
    replicas := none }

def specValid : Option HealthCheckResourceSpec → Bool
  | none => true
  | some spec => spec.service.isSome && spec.crontab.isSome

def timeValid : Option String → Bool
  | none => true
  | some text => texts.isDateTime text

def statusValid : Option HealthCheckResourceStatus → Bool
  | none => true
  | some status => timeValid texts status.lastCheckTime && timeValid texts status.lastFailureTime

/-- The version `v1` of the definition. -/
def served : ServedResource (Option HealthCheckResourceSpec) HealthCheckResourceStatus where
  scope := .namespaced
  statusSubresource := true
  admitted content :=
    if specValid content.main && statusValid texts content.status then
      some ⟨content.main, content.status.map pruneStatus⟩
    else none

abbrev HealthCheckServer := ApiServer (Option HealthCheckResourceSpec) HealthCheckResourceStatus

/-- The server knows the definition. -/
def Serves (server : HealthCheckServer) : Prop :=
  server.served crd.group crd.version crd.plural = some (served texts)

/-! ## The methods -/

abbrev HealthCheckApi := KubernetesApi (Option HealthCheckResourceSpec) HealthCheckResourceStatus

def getHealthCheckResourceAsync (name nameSpace : String) :
    HealthCheckApi (Option HealthCheckResource) :=
  getAsync (codec texts) name (some nameSpace)

/-- A new status has no member set. -/
def newStatus : HealthCheckResourceStatus := ⟨none, none, none, none, none, none, none⟩

/-- The changes of the status before it is written. -/
def setStatus (status : String) (checkedUrl : Option String) (lastCheckTime : Option DateTime)
    (old : Option HealthCheckResourceStatus) : HealthCheckResourceStatus :=
  let old := old.getD newStatus
  { old with
    phase := some status
    checkedUrl := checkedUrl
    lastCheckTime := match lastCheckTime with
      | none => old.lastCheckTime
      | some time => some (texts.timeText time) }

/-- The overload that is given the resource. -/
def updateStartus (healthCheck : HealthCheckResource) (status : String)
    (checkedUrl : Option String) (lastCheckTime : Option DateTime) : HealthCheckApi HealthCheckResource :=
  let body := { healthCheck.body with
    status := some (setStatus texts status checkedUrl lastCheckTime healthCheck.body.status) }
  updateStatusAsync (codec texts) { healthCheck with body }

/-- The overload that is given the resource and a member of the enumeration. -/
def updateStartusPhase (healthCheck : HealthCheckResource)
    (phase : HealthCheckResourceStatusPhase) (checkedUrl : Option String)
    (lastCheckTime : Option DateTime) : HealthCheckApi HealthCheckResource :=
  updateStartus texts healthCheck phase.toString checkedUrl lastCheckTime

/-- What `UpdateStartusAsync` does with the resource of the given name. -/
def updateFound (name phase : String) (checkedUrl : Option String)
    (lastCheckTime : Option DateTime) : Option HealthCheckResource → HealthCheckApi HealthCheckResource
  | none => .throw (.exn (.exception ("HealthCheckResource " ++ name ++ " not found")))
  | some healthCheck => updateStartus texts healthCheck phase checkedUrl lastCheckTime

/-- The overload that is given a name. -/
def updateStartusByName (name nameSpace phase : String) (checkedUrl : Option String)
    (lastCheckTime : Option DateTime) : HealthCheckApi HealthCheckResource := do
  let healthCheck ← getHealthCheckResourceAsync texts name nameSpace
  updateFound texts name phase checkedUrl lastCheckTime healthCheck

/-- The overload that is given a name and a member of the enumeration. -/
def updateStartusPhaseByName (name nameSpace : String) (phase : HealthCheckResourceStatusPhase)
    (checkedUrl : Option String) (lastCheckTime : Option DateTime) :
    HealthCheckApi HealthCheckResource :=
  updateStartusByName texts name nameSpace phase.toString checkedUrl lastCheckTime

end K8sHealthCheckResourceClient

end Sentinel
