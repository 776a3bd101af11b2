import Sentinel.DotNet.JToken
import Sentinel.K8s.K8sServiceClient
import Sentinel.Lib.Throwing

/-!
# Virtual services and gateways, read from JSON

`ConvertFromJTokenToVirtualServiceV1` and `ConvertFromJTokenToGatewayV1` keep of each object the
first host, gateway and destination, and of each server its first host.

* `convertVirtualService_ok`, `convertGateway_ok` — what is kept of an object.
* `convertVirtualService_returns`, `convertGateway_returns` — the fields without which a
  projection throws.
-/

set_option autoImplicit false

namespace Sentinel.K8sServiceClient

open Throwing (bind_eq_ok_iff returns_bind_iff returns_pure)

/-! ## The projections -/

section Projections

variable (render : JToken → String)

/-- `SelectToken(path).ToString()`. -/
def requiredText (path : List PathStep) (token : JToken) : Except Exn String :=
  match token.textAt render path with
  | none => .error .nullReferenceException
  | some text => .ok text

def metadataName : List PathStep := [.field "metadata", .field "name"]

def metadataNamespace : List PathStep := [.field "metadata", .field "namespace"]

def specHosts : List PathStep := [.field "spec", .field "hosts"]

def specGateways : List PathStep := [.field "spec", .field "gateways"]

def specHttp : List PathStep := [.field "spec", .field "http"]

def destinationHost : List PathStep := [.field "destination", .field "host"]

/-- `spec.http[0].route[0].destination.host`. -/
def firstDestination : List PathStep :=
  specHttp ++ .index 0 :: ([.field "route"] ++ .index 0 :: destinationHost)

def convertFromJTokenToVirtualServiceV1 (jitem : JToken) : Except Exn VirtualServiceV1 := do
  let host ← requiredText render (specHosts ++ [.index 0]) jitem
  let gatewayName := jitem.textAt render (specGateways ++ [.index 0])
  let service := jitem.textAt render firstDestination
  let _ ← requiredText render metadataName jitem
  let nameSpace ← requiredText render metadataNamespace jitem
  pure ⟨host, service, nameSpace, gatewayName⟩

/-- `$.spec.servers[?(@.port.protocol == 'protocol')]`. -/
def servers (protocol : String) (jitem : JToken) : List JToken :=
  (jitem.elementsAt [.field "spec", .field "servers"]).filter
    (JToken.isText [.field "port", .field "protocol"] protocol)

/-- The body of both loops over the servers. -/
def serverPort (tls : Bool) (item : JToken) : Except Exn ServerPort := do
  let host ← requiredText render [.field "hosts", .index 0] item
  let _ ← requiredText render [.field "port", .field "number"] item
  pure ⟨host, tls⟩

def convertFromJTokenToGatewayV1 (jitem : JToken) : Except Exn GatewayV1 := do
  let _ ← requiredText render [.field "spec", .field "selector", .field "istio"] jitem
  let http ← (servers "HTTP" jitem).mapM (serverPort render false)
  let https ← (servers "HTTPS" jitem).mapM (serverPort render true)
  let name ← requiredText render metadataName jitem
  let nameSpace ← requiredText render metadataNamespace jitem
  pure ⟨name, nameSpace, http ++ https⟩

/-- The objects of a list; a null list has none, and null elements are left out. -/
def objects (jitemlist : Option (List (Option JToken))) : List JToken :=
  (jitemlist.getD []).reduceOption

def convertFromJTokenToVirtualServiceV1List (jitemlist : Option (List (Option JToken))) :
    Except Exn (List VirtualServiceV1) :=
  (objects jitemlist).mapM (convertFromJTokenToVirtualServiceV1 render)

def convertFromJTokenToGatewayV1List (jitemlist : Option (List (Option JToken))) :
    Except Exn (List GatewayV1) :=
  (objects jitemlist).mapM (convertFromJTokenToGatewayV1 render)

/-- `GetAllServicesWithDetails`, from the custom objects as the API server returns them. -/
def getAllServicesWithDetailsFromJson (ingresses : List V1Ingress)
    (virtualservices gateways : Option (List (Option JToken))) (syncTime : DateTime)
    (mapper : AutoMapper) (services : List V1Service) : Except Exn (List ServiceV1) := do
  let virtualservices ← convertFromJTokenToVirtualServiceV1List render virtualservices
  let gateways ← convertFromJTokenToGatewayV1List render gateways
  getAllServicesWithDetails ingresses virtualservices gateways syncTime mapper services

end Projections

/-! ## What they keep -/

variable {render : JToken → String} {jitem : JToken} {path : List PathStep} {text : String}

theorem requiredText_ok (h : requiredText render path jitem = .ok text) :
    jitem.textAt render path = some text := by
  unfold requiredText at h
  split at h
  · cases h
  · rename_i htext
    cases h
    exact htext

/-- The token has a token at the path. -/
def Has (path : List PathStep) (token : JToken) : Prop :=
  ∃ selected, token.selectToken path = some selected

theorem exists_requiredText_iff :
    (∃ text, requiredText render path jitem = .ok text) ↔ Has path jitem := by
  unfold requiredText JToken.textAt Has
  cases jitem.selectToken path with
  | none => simp
  | some selected => simp

/-- What the projection keeps of a virtual service. -/
structure KeepsVirtualService (render : JToken → String) (jitem : JToken) (vs : VirtualServiceV1) :
    Prop where
  host : jitem.textAt render (specHosts ++ [.index 0]) = some vs.host
  nameSpace : jitem.textAt render metadataNamespace = some vs.nameSpace
  service : jitem.textAt render firstDestination = vs.service
  gatewayName : jitem.textAt render (specGateways ++ [.index 0]) = vs.gatewayName

theorem convertVirtualService_ok {vs : VirtualServiceV1}
    (h : convertFromJTokenToVirtualServiceV1 render jitem = .ok vs) :
    KeepsVirtualService render jitem vs := by
  unfold convertFromJTokenToVirtualServiceV1 at h
  obtain ⟨host, hhost, h⟩ := bind_eq_ok_iff.1 h
  obtain ⟨name, -, h⟩ := bind_eq_ok_iff.1 h
  obtain ⟨nameSpace, hnameSpace, h⟩ := bind_eq_ok_iff.1 h
  cases h
  exact ⟨requiredText_ok hhost, requiredText_ok hnameSpace, rfl, rfl⟩

/-- The fields without which the projection of a virtual service throws. -/
structure CompleteVirtualService (jitem : JToken) : Prop where
  host : Has (specHosts ++ [.index 0]) jitem
  name : Has metadataName jitem
  nameSpace : Has metadataNamespace jitem

theorem convertVirtualService_returns :
    (∃ vs, convertFromJTokenToVirtualServiceV1 render jitem = .ok vs) ↔
      CompleteVirtualService jitem := by
  unfold convertFromJTokenToVirtualServiceV1
  rw [returns_bind_iff fun host => returns_bind_iff fun name => returns_bind_iff fun nameSpace =>
    returns_pure _]
  simp only [exists_requiredText_iff, and_true]
  exact ⟨fun ⟨hhost, hname, hnameSpace⟩ => ⟨hhost, hname, hnameSpace⟩,
    fun h => ⟨h.host, h.name, h.nameSpace⟩⟩

theorem serverPort_ok {tls : Bool} {p : ServerPort} (h : serverPort render tls jitem = .ok p) :
    jitem.textAt render [.field "hosts", .index 0] = some p.host ∧ p.tls = tls := by
  unfold serverPort at h
  obtain ⟨host, hhost, h⟩ := bind_eq_ok_iff.1 h
  obtain ⟨port, -, h⟩ := bind_eq_ok_iff.1 h
  cases h
  exact ⟨requiredText_ok hhost, rfl⟩

/-- What the projection keeps of a gateway. -/
structure KeepsGateway (render : JToken → String) (jitem : JToken) (gw : GatewayV1) : Prop where
  name : jitem.textAt render metadataName = some gw.name
  nameSpace : jitem.textAt render metadataNamespace = some gw.nameSpace
  tls : ∀ host, (∃ p ∈ gw.serverPorts, p.tls = true ∧ p.host = host) ↔
    ∃ server ∈ servers "HTTPS" jitem,
      server.textAt render [.field "hosts", .index 0] = some host

theorem convertGateway_ok {gw : GatewayV1}
    (h : convertFromJTokenToGatewayV1 render jitem = .ok gw) : KeepsGateway render jitem gw := by
  unfold convertFromJTokenToGatewayV1 at h
  obtain ⟨istio, -, h⟩ := bind_eq_ok_iff.1 h
  obtain ⟨http, hhttp, h⟩ := bind_eq_ok_iff.1 h
  obtain ⟨https, hhttps, h⟩ := bind_eq_ok_iff.1 h
  obtain ⟨name, hname, h⟩ := bind_eq_ok_iff.1 h
  obtain ⟨nameSpace, hnameSpace, h⟩ := bind_eq_ok_iff.1 h
  cases h
  refine ⟨requiredText_ok hname, requiredText_ok hnameSpace, fun host => ?_⟩
  constructor
  · rintro ⟨p, hp, htls, rfl⟩
    rcases List.mem_append.1 hp with hp | hp
    · obtain ⟨server, -, hserver⟩ := Throwing.exists_of_mem_mapM hhttp hp
      rw [(serverPort_ok hserver).2] at htls
      cases htls
    · obtain ⟨server, hmem, hserver⟩ := Throwing.exists_of_mem_mapM hhttps hp
      exact ⟨server, hmem, (serverPort_ok hserver).1⟩
  · rintro ⟨server, hmem, hhost⟩
    obtain ⟨p, hp, hserver⟩ := Throwing.exists_mem_of_mapM hhttps hmem
    obtain ⟨hhost', htls⟩ := serverPort_ok hserver
    exact ⟨p, List.mem_append_right _ hp, htls, Option.some.inj (hhost'.symm.trans hhost)⟩

structure CompleteServer (server : JToken) : Prop where
  host : Has [.field "hosts", .index 0] server
  port : Has [.field "port", .field "number"] server

/-- The fields without which the projection of a gateway throws. -/
structure CompleteGateway (jitem : JToken) : Prop where
  istio : Has [.field "spec", .field "selector", .field "istio"] jitem
  http : ∀ server ∈ servers "HTTP" jitem, CompleteServer server
  https : ∀ server ∈ servers "HTTPS" jitem, CompleteServer server
  name : Has metadataName jitem
  nameSpace : Has metadataNamespace jitem

theorem serverPort_returns {tls : Bool} :
    (∃ p, serverPort render tls jitem = .ok p) ↔ CompleteServer jitem := by
  unfold serverPort
  rw [returns_bind_iff fun host => returns_bind_iff fun port => returns_pure _]
  simp only [exists_requiredText_iff, and_true]
  exact ⟨fun ⟨hhost, hport⟩ => ⟨hhost, hport⟩, fun h => ⟨h.host, h.port⟩⟩

theorem serverPorts_return {tls : Bool} {items : List JToken} :
    (∃ ports, items.mapM (serverPort render tls) = .ok ports) ↔
      ∀ server ∈ items, CompleteServer server := by
  simp only [Throwing.exists_mapM_eq_ok_iff, serverPort_returns]

theorem convertGateway_returns :
    (∃ gw, convertFromJTokenToGatewayV1 render jitem = .ok gw) ↔ CompleteGateway jitem := by
  unfold convertFromJTokenToGatewayV1
  rw [returns_bind_iff fun istio => returns_bind_iff fun http => returns_bind_iff fun https =>
    returns_bind_iff fun name => returns_bind_iff fun nameSpace => returns_pure _]
  simp only [exists_requiredText_iff, serverPorts_return, and_true]
  exact ⟨fun ⟨histio, hhttp, hhttps, hname, hnameSpace⟩ =>
      ⟨histio, hhttp, hhttps, hname, hnameSpace⟩,
    fun h => ⟨h.istio, h.http, h.https, h.name, h.nameSpace⟩⟩

end Sentinel.K8sServiceClient
