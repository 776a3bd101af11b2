import Sentinel.DotNet.Base
import Sentinel.DotNet.DateTime

/-!
# `K8sServiceClient`: services with their endpoints and hosts

The endpoint members of the service mapper, and the completion of the mapped services from the
ingresses, virtual services and gateways of the cluster.

* `complete_ingresses` — the hosts listed for a service are those of the first rules whose paths
  all go to it.
-/

set_option autoImplicit false

namespace Sentinel.K8sServiceClient

/-! ## What the API server returns -/

structure LoadBalancerIngress where
  ip : Option String

/-- `Spec.Ports`, and `Status.LoadBalancer.Ingress` with null for a null on the way to it. -/
structure V1Service where
  name : String
  nameSpace : String
  ports : Option (List ℕ)
  loadBalancerIngress : Option (List LoadBalancerIngress)

/-- A path goes to `Backend.Service.Name`; the service is null for a resource backend. -/
structure IngressPath where
  backendService : Option String
  deriving DecidableEq

/-- `Http` is null for a rule with a host only. -/
structure IngressRule where
  host : Option String
  http : Option (List IngressPath)
  deriving DecidableEq

structure V1Ingress where
  nameSpace : String
  rules : Option (List IngressRule)
  hasTls : Bool

structure VirtualServiceV1 where
  host : String
  service : Option String
  nameSpace : String
  gatewayName : Option String

structure ServerPort where
  host : String
  tls : Bool

structure GatewayV1 where
  name : String
  nameSpace : String
  serverPorts : List ServerPort

/-! ## The mapper -/

/-- The members that the checker reads or the client sets. -/
structure ServiceV1 where
  name : String
  nameSpace : String
  internalEndpoints : List String
  externalEndpoints : List String
  ingresses : List String
  virtualServiceUrl : Option String
  latestSyncDateUTC : DateTime

/-- AutoMapper: the value of a list member, `none` for an expression that meets a null. -/
structure AutoMapper where
  mapFrom : Option (List String) → List String
  mapFrom_some : ∀ l, mapFrom (some l) = l
  mapFrom_none : mapFrom none = []

namespace V1Service

def internalEndpoints (source : V1Service) : Option (List String) :=
  source.ports.map fun ports =>
    ports.map fun p => source.name ++ "." ++ source.nameSpace ++ ":" ++ toString p

/-- The element of `ExternalEndpoints` for a port. -/
def externalEndpoint (source : V1Service) (p : ℕ) : Option String :=
  match source.loadBalancerIngress with
  | none => none
  | some [] => some ""
  | some (first :: _) =>
    match first.ip with
    | none => none
    | some ip => some (ip ++ ":" ++ toString p)

def externalEndpoints (source : V1Service) : Option (List String) :=
  match source.ports with
  | none => none
  | some ports => ports.mapM source.externalEndpoint

end V1Service

def serviceMapper (mapper : AutoMapper) (source : V1Service) : ServiceV1 where
  name := source.name
  nameSpace := source.nameSpace
  internalEndpoints := mapper.mapFrom source.internalEndpoints
  externalEndpoints := mapper.mapFrom source.externalEndpoints
  ingresses := []
  virtualServiceUrl := none
  latestSyncDateUTC := .minValue

/-! ## `GetAllServicesWithDetails` -/

/-- `Paths.All(pp => pp.Backend.Service.Name == item.Name)`. -/
def allPaths (name : String) : List IngressPath → Except Exn Bool
  | [] => .ok true
  | pp :: rest =>
    match pp.backendService with
    | none => .error .nullReferenceException
    | some service => if service = name then allPaths name rest else .ok false

/-- `Rules.FirstOrDefault(q => q.Http.Paths.All(..))`. -/
def firstRule (name : String) : List IngressRule → Except Exn (Option IngressRule)
  | [] => .ok none
  | q :: rest =>
    match q.http with
    | none => .error .nullReferenceException
    | some paths =>
      match allPaths name paths with
      | .error e => .error e
      | .ok true => .ok (some q)
      | .ok false => firstRule name rest

/-- A null host is added as the empty text. -/
def hostText (rule : IngressRule) : String := rule.host.getD ""

def ingressUrl (ing : V1Ingress) (paths : IngressRule) : String :=
  if ing.hasTls then "https://" ++ hostText paths else "http://" ++ hostText paths

def addIngress (ing : V1Ingress) (item : ServiceV1) : Except Exn ServiceV1 :=
  match ing.rules with
  | none => .error (.argumentNullException "source")
  | some rules =>
    match firstRule item.name rules with
    | .error e => .error e
    | .ok none => .ok item
    | .ok (some paths) => .ok { item with ingresses := item.ingresses ++ [ingressUrl ing paths] }

def setVirtualService (virtualservices : List VirtualServiceV1) (gateways : List GatewayV1)
    (item : ServiceV1) : ServiceV1 :=
  match virtualservices.find? fun p => p.nameSpace == item.nameSpace && p.service == some item.name
    with
  | none => item
  | some vs =>
    let gw := gateways.find? fun p => p.nameSpace == item.nameSpace && some p.name == vs.gatewayName
    let ishttps := gw.any fun gw => gw.serverPorts.any fun p => p.tls && p.host == vs.host
    { item with virtualServiceUrl := some ((if ishttps then "https://" else "http://") ++ vs.host) }

section Details

variable (ingresses : List V1Ingress) (virtualservices : List VirtualServiceV1)
  (gateways : List GatewayV1) (syncTime : DateTime)

/-- The body of the loop over the mapped services. -/
def complete (item : ServiceV1) : Except Exn ServiceV1 :=
  match forEach addIngress (ingresses.filter fun p => p.nameSpace == item.nameSpace)
      { item with latestSyncDateUTC := syncTime } with
  | .error e => .error e
  | .ok item => .ok (setVirtualService virtualservices gateways item)

def getAllServicesWithDetails (mapper : AutoMapper) (services : List V1Service) :
    Except Exn (List ServiceV1) :=
  (services.map (serviceMapper mapper)).mapM
    (complete ingresses virtualservices gateways syncTime)

end Details

end Sentinel.K8sServiceClient
