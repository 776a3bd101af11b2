import Sentinel.HttpClients.EndpointStrings
import Sentinel.K8s.IstioObjects

/-!
# Which virtual services give a service its URL

A service should have the URL that all routes, destinations, gateways and hosts of the JSON objects
give it; the client sees the first ones.

* `RoutesIn.of_goesFirst`, `HasHost.of_first`, `Secure.of_first` — what is first is one of all.
* `firstVirtual_url` — the URL in terms of the JSON objects.
* `virtual_attribution_iff` — when every service gets the URL it should have.
-/

set_option autoImplicit false

namespace Sentinel.K8sServiceClient

open IsAliveAndWellHealthCheckDownloader (firstVirtual virtualUrl completed)

/-! ## What the objects say -/

section Meaning

variable (render : JToken → String)

/-- The destinations of all HTTP routes. -/
def destinations (vs : JToken) : List JToken :=
  (vs.elementsAt specHttp).flatMap fun http =>
    (http.elementsAt [.field "route"]).filterMap (JToken.selectToken destinationHost)

/-- A virtual service of the namespace with an HTTP route to the service. -/
structure RoutesIn (nameSpace name : String) (vs : JToken) : Prop where
  nameSpace : vs.textAt render metadataNamespace = some nameSpace
  destination : ∃ host ∈ destinations vs, host.text render = name

def HasHost (vs : JToken) (host : String) : Prop :=
  ∃ token ∈ vs.elementsAt specHosts, token.text render = host

/-- The gateway has the name in the namespace. -/
def IsGateway (nameSpace name : String) (gw : JToken) : Prop :=
  gw.textAt render metadataNamespace = some nameSpace ∧ gw.textAt render metadataName = some name

/-- A gateway is named by its name in the namespace of the virtual service, or by both. -/
def NamesGateway (vs gw : JToken) : Prop :=
  ∃ token ∈ vs.elementsAt specGateways, ∃ nameSpace name, IsGateway render nameSpace name gw ∧
    (vs.textAt render metadataNamespace = some nameSpace ∧ token.text render = name ∨
      token.text render = nameSpace ++ "/" ++ name)

/-- An HTTPS server of the gateway lists the host. -/
def ListsSecure (gw : JToken) (host : String) : Prop :=
  ∃ server ∈ servers "HTTPS" gw, ∃ token ∈ server.elementsAt [.field "hosts"],
    token.text render = host

def Secure (gateways : List JToken) (vs : JToken) (host : String) : Prop :=
  ∃ gw ∈ gateways, NamesGateway render vs gw ∧ ListsSecure render gw host

/-- The URL that the service should have: that of some virtual service with a route to it. -/
structure VirtualAttributed (virtualservices gateways : List JToken) (item : ServiceV1) : Prop where
  url_iff : item.virtualServiceUrl ≠ none ↔
    ∃ vs ∈ virtualservices, RoutesIn render item.nameSpace item.name vs
  url : ∀ url, item.virtualServiceUrl = some url →
    ∃ vs ∈ virtualservices, RoutesIn render item.nameSpace item.name vs ∧
      ∃ host, HasHost render vs host ∧
        (Secure render gateways vs host ∧ url = "https://" ++ host ∨
          ¬ Secure render gateways vs host ∧ url = "http://" ++ host)

/-! ## What the client sees of it -/

/-- The first destination of the first HTTP route is the service. -/
def goesFirst (nameSpace name : String) (vs : JToken) : Bool :=
  vs.textAt render metadataNamespace == some nameSpace &&
    vs.textAt render firstDestination == some name

/-- The gateway has the name that the virtual service gives first, in the namespace. -/
def isFirstGateway (nameSpace : String) (vs gw : JToken) : Bool :=
  gw.textAt render metadataNamespace == some nameSpace &&
    (vs.textAt render (specGateways ++ [.index 0])).any fun name =>
      gw.textAt render metadataName == some name

/-- An HTTPS server of the first such gateway lists the host first. -/
def SecureFirst (gateways : List JToken) (nameSpace : String) (vs : JToken) (host : String) :
    Prop :=
  ∃ gw, gateways.find? (isFirstGateway render nameSpace vs) = some gw ∧
    ∃ server ∈ servers "HTTPS" gw, server.textAt render [.field "hosts", .index 0] = some host

/-- Some virtual service goes to the service first if any routes to it; and if the first one that
does is not seen to be secure, then some virtual service with its host is not. -/
structure VirtualAttributable (virtualservices gateways : List JToken) (service : V1Service) :
    Prop where
  covered : ∀ vs ∈ virtualservices, RoutesIn render service.nameSpace service.name vs →
    ∃ vs' ∈ virtualservices, goesFirst render service.nameSpace service.name vs' = true
  secure : ∀ vs host,
    virtualservices.find? (goesFirst render service.nameSpace service.name) = some vs →
    vs.textAt render (specHosts ++ [.index 0]) = some host →
    SecureFirst render gateways service.nameSpace vs host ∨
      ∃ vs' ∈ virtualservices, RoutesIn render service.nameSpace service.name vs' ∧
        HasHost render vs' host ∧ ¬ Secure render gateways vs' host

end Meaning

variable {render : JToken → String} {vs gw : JToken} {nameSpace name host : String}

/-! ## The first one is one of all -/

/-- The first element, in terms of its text. -/
theorem mem_elementsAt_of_first {path : List PathStep}
    (h : vs.textAt render (path ++ [.index 0]) = some host) :
    ∃ token ∈ vs.elementsAt path, token.text render = host := by
  obtain ⟨selected, hselected, htext⟩ := JToken.textAt_eq_some_iff.1 h
  obtain ⟨token, hmem, htoken⟩ := JToken.selectToken_index hselected
  cases htoken
  exact ⟨selected, hmem, htext⟩

theorem HasHost.of_first (h : vs.textAt render (specHosts ++ [.index 0]) = some host) :
    HasHost render vs host :=
  mem_elementsAt_of_first h

theorem goesFirst_iff : goesFirst render nameSpace name vs = true ↔
    vs.textAt render metadataNamespace = some nameSpace ∧
      vs.textAt render firstDestination = some name := by
  rw [goesFirst, Bool.and_eq_true, beq_iff_eq, beq_iff_eq]

theorem RoutesIn.of_goesFirst (h : goesFirst render nameSpace name vs = true) :
    RoutesIn render nameSpace name vs := by
  obtain ⟨hspace, hfirst⟩ := goesFirst_iff.1 h
  obtain ⟨selected, hselected, htext⟩ := JToken.textAt_eq_some_iff.1 hfirst
  obtain ⟨http, hhttp, hrest⟩ := JToken.selectToken_index hselected
  obtain ⟨route, hroute, hdestination⟩ := JToken.selectToken_index hrest
  exact ⟨hspace, selected, List.mem_flatMap.2 ⟨http, hhttp,
    List.mem_filterMap.2 ⟨route, hroute, hdestination⟩⟩, htext⟩

theorem isFirstGateway_iff : isFirstGateway render nameSpace vs gw = true ↔
    ∃ name, vs.textAt render (specGateways ++ [.index 0]) = some name ∧
      IsGateway render nameSpace name gw := by
  rw [isFirstGateway, Bool.and_eq_true, beq_iff_eq, Option.any_eq_true]
  simp only [beq_iff_eq, IsGateway]
  constructor
  · rintro ⟨hspace, name, hname, hgw⟩
    exact ⟨name, hname, hspace, hgw⟩
  · rintro ⟨name, hname, hspace, hgw⟩
    exact ⟨hspace, name, hname, hgw⟩

theorem Secure.of_first {gateways : List JToken}
    (hspace : vs.textAt render metadataNamespace = some nameSpace)
    (h : SecureFirst render gateways nameSpace vs host) : Secure render gateways vs host := by
  obtain ⟨gw, hfind, server, hserver, hhost⟩ := h
  obtain ⟨name, hname, hgw⟩ := isFirstGateway_iff.1 (List.find?_some hfind)
  obtain ⟨token, htoken, htext⟩ := mem_elementsAt_of_first hname
  refine ⟨gw, List.mem_of_find?_eq_some hfind,
    ⟨token, htoken, nameSpace, name, hgw, .inl ⟨hspace, htext⟩⟩, server, hserver, ?_⟩
  exact mem_elementsAt_of_first hhost

/-! ## The URL of a service -/

section Calls

variable {virtualservices gateways : List JToken} {virtuals : List VirtualServiceV1}
  {gws : List GatewayV1} {service : V1Service} {item : ServiceV1} {v : VirtualServiceV1}

/-- The gateway that the client takes is secure iff `SecureFirst` holds. -/
theorem any_tls_iff (hgws : gateways.mapM (convertFromJTokenToGatewayV1 render) = .ok gws)
    (hv : KeepsVirtualService render vs v) :
    ((gws.find? fun p => p.nameSpace == service.nameSpace && some p.name == v.gatewayName).any
        fun gw => gw.serverPorts.any fun p => p.tls && p.host == v.host) = true ↔
      SecureFirst render gateways service.nameSpace vs v.host := by
  have hagree : ∀ x y, convertFromJTokenToGatewayV1 render x = .ok y →
      isFirstGateway render service.nameSpace vs x =
        (y.nameSpace == service.nameSpace && some y.name == v.gatewayName) := by
    intro x y hxy
    obtain ⟨hname, hspace, -⟩ := convertGateway_ok hxy
    rw [isFirstGateway, hname, hspace, hv.gatewayName, Bool.eq_iff_iff]
    cases v.gatewayName with
    | none => simp
    | some name => simp
  unfold SecureFirst
  rcases Throwing.find?_mapM hgws hagree with ⟨hnone, hnone'⟩ | ⟨gw, gw', hsome, hsome', hgw⟩
  · rw [hnone, hnone']
    simp
  · rw [hsome, hsome', Option.any_some, List.any_eq_true]
    simp only [Bool.and_eq_true, beq_iff_eq, (convertGateway_ok hgw).tls, Option.some.injEq,
      exists_eq_left']

open Classical in
/-- The URL that the client sets, by the first virtual service that goes to the service. -/
theorem firstVirtual_url (service : V1Service)
    (hvirtuals : virtualservices.mapM (convertFromJTokenToVirtualServiceV1 render) = .ok virtuals)
    (hgws : gateways.mapM (convertFromJTokenToGatewayV1 render) = .ok gws) :
    virtualservices.find? (goesFirst render service.nameSpace service.name) = none ∧
        (firstVirtual virtuals service).map (virtualUrl gws service) = none ∨
      ∃ vs host, virtualservices.find? (goesFirst render service.nameSpace service.name) = some vs ∧
        vs.textAt render (specHosts ++ [.index 0]) = some host ∧
        (firstVirtual virtuals service).map (virtualUrl gws service) =
          some (if SecureFirst render gateways service.nameSpace vs host then "https://" ++ host
            else "http://" ++ host) := by
  have hagree : ∀ x y, convertFromJTokenToVirtualServiceV1 render x = .ok y →
      goesFirst render service.nameSpace service.name x =
        (y.nameSpace == service.nameSpace && y.service == some service.name) := by
    intro x y hxy
    obtain ⟨-, hspace, hservice, -⟩ := convertVirtualService_ok hxy
    rw [goesFirst, hspace, hservice]
    rfl
  unfold firstVirtual
  rcases Throwing.find?_mapM hvirtuals hagree with ⟨hnone, hnone'⟩ | ⟨vs, v, hsome, hsome', hv⟩
  · rw [hnone']
    exact .inl ⟨hnone, rfl⟩
  · have hkeeps := convertVirtualService_ok hv
    refine .inr ⟨vs, v.host, hsome, hkeeps.host, ?_⟩
    rw [hsome', Option.map_some, virtualUrl]
    simp only [any_tls_iff hgws hkeeps]

/-- No virtual service goes to the service first: there is no URL. -/
theorem attributed_iff_of_none (hname : item.name = service.name)
    (hspace : item.nameSpace = service.nameSpace)
    (hfind : virtualservices.find? (goesFirst render service.nameSpace service.name) = none)
    (hurl : item.virtualServiceUrl = none) :
    VirtualAttributed render virtualservices gateways item ↔
      VirtualAttributable render virtualservices gateways service := by
  constructor
  · intro h
    refine ⟨fun vs hvs hroutes => ?_, fun vs host hvs => ?_⟩
    · rw [← hname, ← hspace] at hroutes
      exact absurd hurl (h.url_iff.2 ⟨vs, hvs, hroutes⟩)
    · cases hfind.symm.trans hvs
  · intro h
    refine ⟨⟨fun hne => absurd hurl hne, ?_⟩, fun url hsome => ?_⟩
    · rintro ⟨vs, hvs, hroutes⟩
      rw [hname, hspace] at hroutes
      obtain ⟨vs', hvs', hfirst⟩ := h.covered vs hvs hroutes
      exact absurd hfirst (List.find?_eq_none.1 hfind vs' hvs')
    · cases hurl.symm.trans hsome

open Classical in
/-- The first virtual service that goes to the service first gives the URL. -/
theorem attributed_iff_of_first (hname : item.name = service.name)
    (hspace : item.nameSpace = service.nameSpace)
    (hfind : virtualservices.find? (goesFirst render service.nameSpace service.name) = some vs)
    (hhost : vs.textAt render (specHosts ++ [.index 0]) = some host)
    (hurl : item.virtualServiceUrl =
      some (if SecureFirst render gateways service.nameSpace vs host then "https://" ++ host
        else "http://" ++ host)) :
    VirtualAttributed render virtualservices gateways item ↔
      VirtualAttributable render virtualservices gateways service := by
  have hvs := List.mem_of_find?_eq_some hfind
  have hfirst := List.find?_some hfind
  have hroutes := RoutesIn.of_goesFirst hfirst
  constructor
  · intro h
    refine ⟨fun _ _ _ => ⟨vs, hvs, hfirst⟩, fun vs' host' hfind' hhost' => ?_⟩
    cases hfind.symm.trans hfind'
    cases hhost.symm.trans hhost'
    by_cases hsecure : SecureFirst render gateways service.nameSpace vs host
    · exact .inl hsecure
    · rw [if_neg hsecure] at hurl
      obtain ⟨vs', hvs', hroutes', host', hhost', ⟨-, heq⟩ | ⟨hnot, heq⟩⟩ := h.url _ hurl
      · exact absurd heq (http_ne_https _ _)
      · rw [String.append_right_inj] at heq
        rw [hname, hspace] at hroutes'
        exact .inr ⟨vs', hvs', hroutes', heq ▸ hhost', heq ▸ hnot⟩
  · intro h
    refine ⟨⟨fun _ => ⟨vs, hvs, ?_⟩, fun _ => ?_⟩, fun url hsomeUrl => ?_⟩
    · rw [hname, hspace]
      exact hroutes
    · rw [hurl]
      exact Option.some_ne_none _
    · obtain rfl := Option.some.inj (hurl.symm.trans hsomeUrl)
      rw [hname, hspace]
      by_cases hsecure : SecureFirst render gateways service.nameSpace vs host
      · rw [if_pos hsecure]
        exact ⟨vs, hvs, hroutes, host, .of_first hhost,
          .inl ⟨.of_first hroutes.nameSpace hsecure, rfl⟩⟩
      · rw [if_neg hsecure]
        obtain ⟨vs', hvs', hroutes', hhost', hnot⟩ :=
          (h.secure vs host hfind hhost).resolve_left hsecure
        exact ⟨vs', hvs', hroutes', host, hhost', .inr ⟨hnot, rfl⟩⟩

/-- The attribution of one service, whose URL is known. -/
theorem attributed_iff_attributable
    (hvirtuals : virtualservices.mapM (convertFromJTokenToVirtualServiceV1 render) = .ok virtuals)
    (hgws : gateways.mapM (convertFromJTokenToGatewayV1 render) = .ok gws)
    (hname : item.name = service.name) (hspace : item.nameSpace = service.nameSpace)
    (hurl : item.virtualServiceUrl = (firstVirtual virtuals service).map (virtualUrl gws service)) :
    VirtualAttributed render virtualservices gateways item ↔
      VirtualAttributable render virtualservices gateways service := by
  rcases firstVirtual_url service hvirtuals hgws with
    ⟨hfind, hnone⟩ | ⟨vs, host, hfind, hhost, hsome⟩
  · exact attributed_iff_of_none hname hspace hfind (hurl.trans hnone)
  · exact attributed_iff_of_first hname hspace hfind hhost (hurl.trans hsome)

end Calls

/-- The projections return iff no object lacks a field that they require. -/
theorem projections_return (render : JToken → String)
    (virtualservices gateways : Option (List (Option JToken))) :
    (∃ virtuals, convertFromJTokenToVirtualServiceV1List render virtualservices = .ok virtuals) ∧
        (∃ gws, convertFromJTokenToGatewayV1List render gateways = .ok gws) ↔
      (∀ vs ∈ objects virtualservices, CompleteVirtualService vs) ∧
        ∀ gw ∈ objects gateways, CompleteGateway gw := by
  simp only [convertFromJTokenToVirtualServiceV1List, convertFromJTokenToGatewayV1List,
    Throwing.exists_mapM_eq_ok_iff, convertVirtualService_returns, convertGateway_returns]

/-- **Attribution of virtual services**: the projections return iff no object lacks a field that
they require, and the call returns iff moreover the ingresses of the services can be read; then
every service has the URL it should have iff every service can be attributed to a virtual service by
what comes first. -/
theorem virtual_attribution_iff (render : JToken → String) (ingresses : List V1Ingress)
    (virtualservices gateways : Option (List (Option JToken))) (syncTime : DateTime)
    (mapper : AutoMapper) (services : List V1Service) :
    ((∃ virtuals, convertFromJTokenToVirtualServiceV1List render virtualservices = .ok virtuals) ∧
        (∃ gws, convertFromJTokenToGatewayV1List render gateways = .ok gws) ↔
      (∀ vs ∈ objects virtualservices, CompleteVirtualService vs) ∧
        ∀ gw ∈ objects gateways, CompleteGateway gw) ∧
    ((∃ items, getAllServicesWithDetailsFromJson render ingresses virtualservices gateways syncTime
        mapper services = .ok items) ↔
      ((∀ vs ∈ objects virtualservices, CompleteVirtualService vs) ∧
        ∀ gw ∈ objects gateways, CompleteGateway gw) ∧
      ∀ service ∈ services, ReadableFor ingresses service) ∧
    ∀ items, getAllServicesWithDetailsFromJson render ingresses virtualservices gateways syncTime
        mapper services = .ok items →
      ((∀ item ∈ items,
          VirtualAttributed render (objects virtualservices) (objects gateways) item) ↔
        ∀ service ∈ services,
          VirtualAttributable render (objects virtualservices) (objects gateways) service) := by
  refine ⟨projections_return render virtualservices gateways, ?_, fun items h => ?_⟩
  · rw [← projections_return render virtualservices gateways]
    unfold getAllServicesWithDetailsFromJson
    simp only [Throwing.bind_eq_ok_iff]
    constructor
    · rintro ⟨items, virtuals, hvirtuals, gws, hgws, hitems⟩
      exact ⟨⟨⟨virtuals, hvirtuals⟩, gws, hgws⟩,
        (getAllServicesWithDetails_returns _ _ _ _ _ _).1 ⟨items, hitems⟩⟩
    · rintro ⟨⟨⟨virtuals, hvirtuals⟩, gws, hgws⟩, hread⟩
      obtain ⟨items, hitems⟩ := (getAllServicesWithDetails_returns ingresses virtuals gws syncTime
        mapper services).2 hread
      exact ⟨items, virtuals, hvirtuals, gws, hgws, hitems⟩
  · obtain ⟨virtuals, hvirtuals, h⟩ := Throwing.bind_eq_ok_iff.1 h
    obtain ⟨gws, hgws, h⟩ := Throwing.bind_eq_ok_iff.1 h
    have hone : ∀ service item, complete ingresses virtuals gws syncTime
        (serviceMapper mapper service) = .ok item →
        (VirtualAttributed render (objects virtualservices) (objects gateways) item ↔
          VirtualAttributable render (objects virtualservices) (objects gateways) service) := by
      intro service item hcomplete
      obtain ⟨hname, hspace, -⟩ := complete_ingresses hcomplete
      exact attributed_iff_attributable hvirtuals hgws hname hspace
        (completed hcomplete).virtualService
    constructor
    · intro hall service hservice
      obtain ⟨item, hitem, hcomplete⟩ := Throwing.exists_mem_of_mapM h
        (List.mem_map.2 ⟨service, hservice, rfl⟩)
      exact (hone service item hcomplete).1 (hall item hitem)
    · intro hall item hitem
      obtain ⟨service, hservice, hcomplete⟩ := completed_of_mem h hitem
      exact (hone service item hcomplete).2 (hall service hservice)

/-! ## A virtual service and a gateway -/

/-- An object of the namespace shop. -/
def shopObject (name : String) (spec : List (String × JToken)) : JToken :=
  .object [("metadata", .object [("name", .string name), ("namespace", .string "shop")]),
    ("spec", .object spec)]

def routeTo (service : String) : JToken :=
  .object [("destination", .object [("host", .string service)])]

/-- The host shop.example.com through the gateway public, with one HTTP route. -/
def shopVirtualService (services : List String) : JToken :=
  shopObject "shop" [("hosts", .array [.string "shop.example.com"]),
    ("gateways", .array [.string "public"]),
    ("http", .array [.object [("route", .array (services.map routeTo))]])]

/-- One HTTPS server for the hosts. -/
def publicGateway (hosts : List String) : JToken :=
  shopObject "public" [("selector", .object [("istio", .string "ingressgateway")]),
    ("servers", .array [.object [("port", .object [("number", .number "443"),
      ("protocol", .string "HTTPS")]), ("hosts", .array (hosts.map .string))]])]

/-- The call for the service web. -/
def webWith (vs gw : JToken) : Except Exn (List ServiceV1) :=
  getAllServicesWithDetailsFromJson (fun _ => "443") [] (some [some vs]) (some [some gw]) .minValue
    emptyForNull [web]

def webUrl (url : Option String) : ServiceV1 :=
  ⟨"web", "shop", ["web.shop:80"], [], [], url, .minValue⟩

theorem virtual_attribution_iff_web :
    webWith (shopVirtualService ["web"]) (publicGateway ["shop.example.com"]) =
        .ok [webUrl (some "https://shop.example.com")] ∧
      VirtualAttributed (fun _ => "443") [shopVirtualService ["web"]]
        [publicGateway ["shop.example.com"]] (webUrl (some "https://shop.example.com")) := by
  have hcall : webWith (shopVirtualService ["web"]) (publicGateway ["shop.example.com"]) =
      .ok [webUrl (some "https://shop.example.com")] := rfl
  refine ⟨hcall, ((virtual_attribution_iff _ _ _ _ _ _ _).2.2 _ hcall).2 (fun service hservice => ?_)
    _ (List.mem_singleton_self _)⟩
  obtain rfl := List.mem_singleton.1 hservice
  refine ⟨fun _ _ _ => ⟨_, List.mem_singleton_self _, rfl⟩, fun vs host hfind hhost => ?_⟩
  cases hfind
  cases hhost
  exact .inl ⟨_, rfl, _, List.mem_singleton_self _, rfl⟩

/-- A second destination, and a second host of a server, are not seen. -/
theorem not_attributed_second :
    (webWith (shopVirtualService ["web-canary", "web"]) (publicGateway ["shop.example.com"]) =
        .ok [webUrl none] ∧
      ¬ VirtualAttributed (fun _ => "443") [shopVirtualService ["web-canary", "web"]]
        [publicGateway ["shop.example.com"]] (webUrl none)) ∧
    webWith (shopVirtualService ["web"]) (publicGateway ["www.example.com", "shop.example.com"]) =
        .ok [webUrl (some "http://shop.example.com")] ∧
      ¬ VirtualAttributed (fun _ => "443") [shopVirtualService ["web"]]
        [publicGateway ["www.example.com", "shop.example.com"]]
        (webUrl (some "http://shop.example.com")) := by
  refine ⟨⟨rfl, fun h => ?_⟩, rfl, fun h => ?_⟩
  · refine h.url_iff.2 ⟨_, List.mem_singleton_self _, rfl, .string "web", ?_, rfl⟩ rfl
    exact List.mem_cons_of_mem _ (List.mem_singleton_self _)
  · obtain ⟨vs, hvs, -, host, ⟨token, htoken, htext⟩, hurl⟩ := h.url _ rfl
    obtain rfl := List.mem_singleton.1 hvs
    obtain rfl := List.mem_singleton.1 htoken
    cases htext
    rcases hurl with ⟨-, heq⟩ | ⟨hnot, -⟩
    · revert heq
      decide
    · refine hnot ⟨_, List.mem_singleton_self _,
        ⟨_, List.mem_singleton_self _, "shop", "public", ⟨rfl, rfl⟩, .inl ⟨rfl, rfl⟩⟩,
        _, List.mem_singleton_self _, .string "shop.example.com", ?_, rfl⟩
      exact List.mem_cons_of_mem _ (List.mem_singleton_self _)

end Sentinel.K8sServiceClient
