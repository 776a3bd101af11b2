import Sentinel.HttpClients.IsAliveAndWellHealthCheckDownloader
import Sentinel.K8s.IngressAttribution

/-!
# The endpoints of a service as the checker reads them

The mapper and the client write the endpoints as texts, `ExtractUriFromService` makes URIs of them.

* `scheme_of_http` — an accepted text that starts with http:// or https:// has that scheme.
* `not_http_of_address` — a text that starts with an IP address is refused, or not taken for http or
  https.
* `readsEndpoints_iff` — when the checker reads what was written.
-/

set_option autoImplicit false

namespace Sentinel.IsAliveAndWellHealthCheckDownloader

open K8sServiceClient

/-! ## Services and their endpoints -/

/-- What an IP address is written with, of version 4 or 6, besides the digits. -/
def addressChars : List Char :=
  ['a', 'b', 'c', 'd', 'e', 'f', 'A', 'B', 'C', 'D', 'E', 'F', '.', ':']

def IsAddress (ip : String) : Prop := ∀ c ∈ ip.toList, c.isDigit = true ∨ c ∈ addressChars

/-- What the API server checks of a service. -/
structure ValidService (source : V1Service) : Prop where
  name : IsDnsLabel source.name
  nameSpace : IsDnsLabel source.nameSpace
  ports : ∀ ports, source.ports = some ports → ∀ p ∈ ports, 1 ≤ p ∧ p ≤ 65535
  addresses : ∀ ings, source.loadBalancerIngress = some ings → ∀ ing ∈ ings, ∀ ip,
    ing.ip = some ip → IsAddress ip

/-- The texts that stand for the endpoints of a service. -/
inductive MappedEndpoint (item : ServiceV1) : String → Prop
  | virtualService {url : String} : item.virtualServiceUrl = some url → MappedEndpoint item url
  | ingress {url : String} : url ∈ item.ingresses → MappedEndpoint item url
  | external {endpoint : String} : endpoint ∈ item.externalEndpoints →
      MappedEndpoint item endpoint
  | internal {endpoint : String} : endpoint ∈ item.internalEndpoints →
      MappedEndpoint item ("http://" ++ endpoint)

variable (downloader : IsAliveAndWellHealthCheckDownloader)

/-- The call returns, and every URI is an http or https one of an endpoint. -/
def ReadsEndpoints (item : ServiceV1) : Prop :=
  ∃ uris, downloader.extractUriFromService item = .ok uris ∧ ∀ uri ∈ uris,
    (downloader.uris.scheme uri = "http" ∨ downloader.uris.scheme uri = "https") ∧
      ∃ text, MappedEndpoint item text ∧ downloader.uris.new text = .ok uri

def Accepts (text : String) : Prop := ∃ uri, downloader.uris.new text = .ok uri

section Condition

variable (ingresses : List V1Ingress) (virtualservices : List VirtualServiceV1)
  (gateways : List GatewayV1) (source : V1Service)

/-- The virtual service that the client takes. -/
def firstVirtual : Option VirtualServiceV1 :=
  virtualservices.find? fun p => p.nameSpace == source.nameSpace && p.service == some source.name

/-- Its URL: https if its gateway has a TLS port for the host. -/
def virtualUrl (vs : VirtualServiceV1) : String :=
  let gw := gateways.find? fun p =>
    p.nameSpace == source.nameSpace && some p.name == vs.gatewayName
  if gw.any fun gw => gw.serverPorts.any fun p => p.tls && p.host == vs.host then
    "https://" ++ vs.host
  else "http://" ++ vs.host

/-- The client lists the host of the rule for the service. -/
def ListedRule (ing : V1Ingress) (rule : IngressRule) : Prop :=
  ing ∈ ingresses ∧ ing.nameSpace = source.nameSpace ∧ Chosen source.name ing rule

/-- The service has no port, or no load balancer with an address or without ingress points. -/
def NoExternal : Prop :=
  source.ports = none ∨ source.ports = some [] ∨ source.loadBalancerIngress = none ∨
    ∃ rest, source.loadBalancerIngress = some (⟨none⟩ :: rest)

/-- On the cluster, or with a virtual service or listed hosts that can stand in a URI, or with
nothing but internal endpoints. -/
inductive Readable : Prop
  | onCluster : downloader.configuration "RunOnCluster" = some "true" → Readable
  | virtualService (vs : VirtualServiceV1) : firstVirtual virtualservices source = some vs →
      downloader.Accepts (virtualUrl gateways source vs) → Readable
  | ingresses : firstVirtual virtualservices source = none →
      (∃ ing rule, ListedRule ingresses source ing rule) →
      (∀ ing rule, ListedRule ingresses source ing rule →
        downloader.Accepts (ingressUrl ing rule)) → Readable
  | internal : firstVirtual virtualservices source = none →
      (¬ ∃ ing rule, ListedRule ingresses source ing rule) → NoExternal source → Readable

end Condition

/-! ## Schemes -/

variable {downloader} {uri : downloader.uris.Uri} {item : ServiceV1} {source : V1Service}

theorem colon_not_mem_of_isScheme {scheme : String} (h : IsScheme scheme) :
    ':' ∉ scheme.toList := by
  obtain ⟨c, rest, hscheme, hletter, hrest⟩ := h
  rw [hscheme, List.mem_cons, not_or]
  refine ⟨?_, fun hmem => ?_⟩
  · rintro rfl
    exact absurd hletter (by decide)
  · exact absurd (hrest _ hmem) (by decide)

/-- What stands before a colon is determined if it holds no colon. -/
theorem eq_of_append_colon {a b restA restB : List Char} (ha : ':' ∉ a) (hb : ':' ∉ b)
    (h : a ++ ':' :: restA = b ++ ':' :: restB) : a = b := by
  induction a generalizing b with
  | nil =>
    cases b with
    | nil => rfl
    | cons c b =>
      obtain rfl : ':' = c := (List.cons.inj h).1
      exact absurd List.mem_cons_self hb
  | cons c a ih =>
    cases b with
    | nil =>
      obtain rfl : c = ':' := (List.cons.inj h).1
      exact absurd List.mem_cons_self ha
    | cons d b =>
      obtain ⟨rfl, htail⟩ := List.cons.inj h
      rw [ih (mt (List.mem_cons_of_mem c) ha) (mt (List.mem_cons_of_mem c) hb) htail]

/-- **An accepted text has the scheme that it starts with.** -/
theorem scheme_of_new_append {scheme rest : String} (hcolon : ':' ∉ scheme.toList)
    (h : downloader.uris.new (scheme ++ ":" ++ rest) = .ok uri) :
    (downloader.uris.scheme uri).toList = scheme.toList.map Char.toLower := by
  obtain ⟨written, rest', htext, hwritten, huri⟩ := downloader.uris.scheme_of_new _ _ h
  have hchars := congrArg String.toList htext
  simp only [String.toList_append, List.append_assoc] at hchars
  rw [huri, eq_of_append_colon hcolon (colon_not_mem_of_isScheme hwritten) hchars]

theorem scheme_of_http {rest : String} (h : downloader.uris.new ("http://" ++ rest) = .ok uri) :
    downloader.uris.scheme uri = "http" := by
  have htext : "http://" ++ rest = "http" ++ ":" ++ ("//" ++ rest) := by
    rw [← String.append_assoc]
    rfl
  rw [htext] at h
  exact String.toList_inj.1 (scheme_of_new_append (by decide) h)

theorem scheme_of_https {rest : String} (h : downloader.uris.new ("https://" ++ rest) = .ok uri) :
    downloader.uris.scheme uri = "https" := by
  have htext : "https://" ++ rest = "https" ++ ":" ++ ("//" ++ rest) := by
    rw [← String.append_assoc]
    rfl
  rw [htext] at h
  exact String.toList_inj.1 (scheme_of_new_append (by decide) h)

theorem toLower_of_isDigit {c : Char} (h : c.isDigit = true) : c.toLower = c := by
  apply Char.toLower_eq_of_not_isUpper
  intro hupper
  simp only [Char.isUpper, Char.isDigit, Bool.and_eq_true, decide_eq_true_eq] at h hupper
  exact absurd (UInt32.le_trans hupper.1 h.2) (by decide)

theorem toLower_ne_t {c : Char} (h : c.isDigit = true ∨ c ∈ addressChars) :
    c.toLower ≠ 't' := by
  rcases h with hdigit | hmem
  · rw [toLower_of_isDigit hdigit]
    rintro rfl
    exact absurd hdigit (by decide)
  · have hall : ∀ d ∈ addressChars, d.toLower ≠ 't' := by simp [addressChars]
    exact hall c hmem

/-- An address that is taken for a scheme is not http or https. -/
theorem not_http_of_address {text : String} (htext : IsAddress text)
    (h : downloader.uris.new text = .ok uri) :
    ¬ (downloader.uris.scheme uri = "http" ∨ downloader.uris.scheme uri = "https") := by
  obtain ⟨written, rest, rfl, -, huri⟩ := downloader.uris.scheme_of_new _ _ h
  intro hscheme
  have ht : 't' ∈ (downloader.uris.scheme uri).toList := by
    rcases hscheme with hscheme | hscheme
    · rw [hscheme]
      decide
    · rw [hscheme]
      decide
  rw [huri] at ht
  obtain ⟨c, hc, hlower⟩ := List.mem_map.1 ht
  refine toLower_ne_t (htext c ?_) hlower
  rw [String.toList_append, String.toList_append]
  exact List.mem_append_left _ (List.mem_append_left _ hc)

/-! ## What the mapper writes -/

theorem isAddress_append_port {ip : String} (h : IsAddress ip) (p : ℕ) :
    IsAddress (ip ++ ":" ++ toString p) := by
  intro c hc
  simp only [String.toList_append, List.mem_append] at hc
  rcases hc with (hc | hc) | hc
  · exact h c hc
  · rw [List.mem_singleton.1 hc]
    decide
  · rw [Nat.toString_eq_ofList_toDigits, String.toList_ofList] at hc
    exact .inl (Nat.isDigit_of_mem_toDigits (by decide) (by decide) hc)

theorem externalEndpoints_of_forall {g : ℕ → String} {ports : List ℕ}
    (hports : source.ports = some ports) (h : ∀ p, source.externalEndpoint p = some (g p)) :
    source.externalEndpoints = some (ports.map g) := by
  unfold V1Service.externalEndpoints
  rw [hports, funext h]
  exact List.mapM_pure

/-- **The endpoints of a load balancer are bare addresses**, or empty texts. -/
theorem externalEndpoints_of_not (hsource : ValidService source) (h : ¬ NoExternal source) :
    ∃ first rest, source.externalEndpoints = some (first :: rest) ∧ IsAddress first := by
  unfold NoExternal at h
  simp only [not_or] at h
  obtain ⟨hnone, hnil, hbalancer, haddress⟩ := h
  obtain ⟨ports, hports⟩ := Option.ne_none_iff_exists'.1 hnone
  rw [hports, Option.some.injEq] at hnil
  obtain ⟨p, ports, rfl⟩ := List.exists_cons_of_ne_nil hnil
  obtain ⟨ings, hings⟩ := Option.ne_none_iff_exists'.1 hbalancer
  cases ings with
  | nil =>
    refine ⟨_, _, externalEndpoints_of_forall (g := fun _ => "") hports fun p => ?_, ?_⟩
    · unfold V1Service.externalEndpoint
      rw [hings]
    · exact fun c hc => absurd hc List.not_mem_nil
  | cons first rest =>
    cases hip : first.ip with
    | none =>
      obtain rfl : first = ⟨none⟩ := congrArg LoadBalancerIngress.mk hip
      exact absurd ⟨rest, hings⟩ haddress
    | some ip =>
      refine ⟨_, _, externalEndpoints_of_forall (g := fun p => ip ++ ":" ++ toString p) hports
        fun p => ?_, ?_⟩
      · unfold V1Service.externalEndpoint
        rw [hings]
        simp only [hip]
      · exact isAddress_append_port (hsource.addresses _ hings first List.mem_cons_self ip hip) p

theorem mapFrom_externalEndpoints (mapper : AutoMapper) (h : NoExternal source) :
    mapper.mapFrom source.externalEndpoints = [] := by
  have hcases : source.externalEndpoints = none ∨ source.externalEndpoints = some [] := by
    unfold V1Service.externalEndpoints
    cases hports : source.ports with
    | none => exact .inl rfl
    | some ports =>
      cases ports with
      | nil => exact .inr rfl
      | cons p ports =>
        have hnone : source.externalEndpoint p = none := by
          unfold V1Service.externalEndpoint
          rcases h with h | h | h | ⟨rest, h⟩
          · cases hports.symm.trans h
          · cases hports.symm.trans h
          · rw [h]
          · rw [h]
        left
        simp only
        rw [List.mapM_cons, hnone]
        rfl
  rcases hcases with hnone | hnil
  · rw [hnone, mapper.mapFrom_none]
  · rw [hnil, mapper.mapFrom_some]

/-! ## What the client adds -/

variable {ingresses : List V1Ingress} {virtualservices : List VirtualServiceV1}
  {gateways : List GatewayV1} {syncTime : DateTime} {mapper : AutoMapper} {item' : ServiceV1}

theorem addIngress_keeps {ing : V1Ingress} (h : addIngress ing item = .ok item') :
    ∃ urls, item' = { item with ingresses := urls } := by
  unfold addIngress at h
  split at h
  · cases h
  · split at h
    · cases h
    · cases h
      exact ⟨_, rfl⟩
    · cases h
      exact ⟨_, rfl⟩

theorem complete_eq (h : complete ingresses virtualservices gateways syncTime item = .ok item') :
    ∃ urls, item' = setVirtualService virtualservices gateways
      { item with latestSyncDateUTC := syncTime, ingresses := urls } := by
  unfold complete at h
  split at h
  · cases h
  · rename_i item₁ hloop
    cases h
    have hkeeps : ∃ urls,
        item₁ = { item with latestSyncDateUTC := syncTime, ingresses := urls } := by
      refine forEach_keeps (P := fun st => ∃ urls,
        st = { item with latestSyncDateUTC := syncTime, ingresses := urls }) ?_ ⟨_, rfl⟩ hloop
      rintro ing - _ st' ⟨urls, rfl⟩ hadd
      exact addIngress_keeps hadd
    obtain ⟨urls, rfl⟩ := hkeeps
    exact ⟨urls, rfl⟩

/-- The endpoints of a service returned, in terms of the objects of the cluster. -/
structure Completed (ingresses : List V1Ingress) (virtualservices : List VirtualServiceV1)
    (gateways : List GatewayV1) (mapper : AutoMapper) (source : V1Service) (item : ServiceV1) :
    Prop where
  internal : item.internalEndpoints = mapper.mapFrom source.internalEndpoints
  external : item.externalEndpoints = mapper.mapFrom source.externalEndpoints
  virtualService : item.virtualServiceUrl =
    (firstVirtual virtualservices source).map (virtualUrl gateways source)
  ingress : ∀ url, url ∈ item.ingresses ↔
    ∃ ing rule, ListedRule ingresses source ing rule ∧ url = ingressUrl ing rule

theorem Completed.virtualServiceUrl_none
    (h : Completed ingresses virtualservices gateways mapper source item)
    (hvs : firstVirtual virtualservices source = none) : item.virtualServiceUrl = none := by
  rw [h.virtualService, hvs]
  rfl

theorem setVirtualService_url (hname : item.name = source.name)
    (hspace : item.nameSpace = source.nameSpace) (hurl : item.virtualServiceUrl = none) :
    (setVirtualService virtualservices gateways item).virtualServiceUrl =
      (firstVirtual virtualservices source).map (virtualUrl gateways source) := by
  unfold setVirtualService firstVirtual virtualUrl
  rw [hname, hspace]
  cases virtualservices.find? fun p =>
      p.nameSpace == source.nameSpace && p.service == some source.name with
  | none => exact hurl
  | some vs =>
    simp only [Option.map_some, Option.some.injEq]
    split <;> rfl

theorem setVirtualService_endpoints :
    (setVirtualService virtualservices gateways item).internalEndpoints = item.internalEndpoints ∧
      (setVirtualService virtualservices gateways item).externalEndpoints =
        item.externalEndpoints := by
  unfold setVirtualService
  split <;> exact ⟨rfl, rfl⟩

theorem completed (h : complete ingresses virtualservices gateways syncTime
    (serviceMapper mapper source) = .ok item) :
    Completed ingresses virtualservices gateways mapper source item := by
  obtain ⟨-, -, hurls⟩ := complete_ingresses h
  obtain ⟨urls, rfl⟩ := complete_eq h
  refine ⟨setVirtualService_endpoints.1, setVirtualService_endpoints.2,
    setVirtualService_url rfl rfl rfl, fun url => ?_⟩
  rw [hurls]
  constructor
  · rintro (hnone | ⟨ing, hing, hspace, rule, hchosen, rfl⟩)
    · cases hnone
    · exact ⟨ing, rule, ⟨hing, hspace, hchosen⟩, rfl⟩
  · rintro ⟨ing, rule, ⟨hing, hspace, hchosen⟩, rfl⟩
    exact .inr ⟨ing, hing, hspace, rule, hchosen, rfl⟩

/-! ## What the checker reads -/

/-- The text is accepted as an http or https URI. -/
def ReadsText (downloader : IsAliveAndWellHealthCheckDownloader) (text : String) : Prop :=
  ∃ uri, downloader.uris.new text = .ok uri ∧
    (downloader.uris.scheme uri = "http" ∨ downloader.uris.scheme uri = "https")

/-- Where the URIs come from texts of endpoints, each text has to be read. -/
theorem readsEndpoints_iff_texts {texts : List String}
    (heq : downloader.extractUriFromService item = downloader.newUris texts)
    (hmapped : ∀ text ∈ texts, MappedEndpoint item text) :
    downloader.ReadsEndpoints item ↔ ∀ text ∈ texts, ReadsText downloader text := by
  unfold ReadsEndpoints
  rw [heq]
  constructor
  · rintro ⟨uris, huris, hall⟩ text htext
    obtain ⟨uri, huri, hnew⟩ := Throwing.exists_mem_of_mapM huris htext
    exact ⟨uri, hnew, (hall uri huri).1⟩
  · intro hall
    obtain ⟨uris, huris⟩ := Throwing.exists_mapM_eq_ok_iff.2 fun text htext =>
      (hall text htext).imp fun _ h => h.1
    refine ⟨uris, huris, fun uri huri => ?_⟩
    obtain ⟨text, htext, hnew⟩ := Throwing.exists_of_mem_mapM huris huri
    obtain ⟨uri', hnew', hscheme⟩ := hall text htext
    cases hnew.symm.trans hnew'
    exact ⟨hscheme, text, hmapped text htext, hnew⟩

/-- Of texts that start with http:// or https:// it only matters that they are accepted. -/
theorem readsText_iff_accepts {text : String}
    (htext : ∃ rest, text = "http://" ++ rest ∨ text = "https://" ++ rest) :
    ReadsText downloader text ↔ downloader.Accepts text := by
  constructor
  · rintro ⟨uri, hnew, -⟩
    exact ⟨uri, hnew⟩
  · rintro ⟨uri, hnew⟩
    refine ⟨uri, hnew, ?_⟩
    obtain ⟨rest, rfl | rfl⟩ := htext
    · exact .inl (scheme_of_http hnew)
    · exact .inr (scheme_of_https hnew)

theorem ingressUrl_scheme (ing : V1Ingress) (rule : IngressRule) :
    ∃ rest, ingressUrl ing rule = "http://" ++ rest ∨ ingressUrl ing rule = "https://" ++ rest := by
  unfold ingressUrl
  split
  · exact ⟨_, .inr rfl⟩
  · exact ⟨_, .inl rfl⟩

theorem virtualUrl_scheme (gateways : List GatewayV1) (source : V1Service)
    (vs : VirtualServiceV1) : ∃ rest, virtualUrl gateways source vs = "http://" ++ rest ∨
      virtualUrl gateways source vs = "https://" ++ rest := by
  unfold virtualUrl
  simp only
  split
  · exact ⟨_, .inr rfl⟩
  · exact ⟨_, .inl rfl⟩

/-- The internal endpoints can always be read. -/
theorem readsText_internal (hsource : ValidService source) {endpoint : String}
    (hmem : endpoint ∈ mapper.mapFrom source.internalEndpoints) :
    ReadsText downloader ("http://" ++ endpoint) := by
  unfold V1Service.internalEndpoints at hmem
  cases hports : source.ports with
  | none =>
    rw [hports, Option.map_none, mapper.mapFrom_none] at hmem
    cases hmem
  | some ports =>
    rw [hports, Option.map_some, mapper.mapFrom_some] at hmem
    obtain ⟨p, hp, rfl⟩ := List.mem_map.1 hmem
    obtain ⟨hmin, hmax⟩ := hsource.ports ports hports p hp
    obtain ⟨uri, hnew⟩ :=
      downloader.uris.new_http _ _ p hsource.name hsource.nameSpace hmin hmax
    exact ⟨uri, hnew, .inl (scheme_of_http hnew)⟩

section Completed

variable (hsource : ValidService source)
  (h : Completed ingresses virtualservices gateways mapper source item)

include hsource h

theorem readsEndpoints_internal (heq : downloader.extractUriFromService item =
    downloader.newUris (item.internalEndpoints.map ("http://" ++ ·))) :
    downloader.ReadsEndpoints item := by
  apply (readsEndpoints_iff_texts heq ?_).2
  · intro text htext
    obtain ⟨endpoint, hendpoint, rfl⟩ := List.mem_map.1 htext
    rw [h.internal] at hendpoint
    exact readsText_internal hsource hendpoint
  · intro text htext
    obtain ⟨endpoint, hendpoint, rfl⟩ := List.mem_map.1 htext
    exact .internal hendpoint

omit hsource in
theorem readsEndpoints_virtual {vs : VirtualServiceV1}
    (hcluster : downloader.configuration "RunOnCluster" ≠ some "true")
    (hvs : firstVirtual virtualservices source = some vs) :
    downloader.ReadsEndpoints item ↔ downloader.Accepts (virtualUrl gateways source vs) := by
  have hurl : item.virtualServiceUrl = some (virtualUrl gateways source vs) := by
    rw [h.virtualService, hvs]
    rfl
  have hblank : isNullOrWhiteSpace item.virtualServiceUrl = false := by
    obtain ⟨rest, hrest | hrest⟩ := virtualUrl_scheme gateways source vs
    · rw [hurl, hrest, isNullOrWhiteSpace, String.toList_append]
      rfl
    · rw [hurl, hrest, isNullOrWhiteSpace, String.toList_append]
      rfl
  have heq : downloader.extractUriFromService item =
      downloader.newUris [virtualUrl gateways source vs] := by
    unfold extractUriFromService
    rw [if_neg hcluster, hblank, hurl]
    rfl
  rw [readsEndpoints_iff_texts heq, List.forall_mem_singleton,
    readsText_iff_accepts (virtualUrl_scheme gateways source vs)]
  exact List.forall_mem_singleton.2 (.virtualService hurl)

omit hsource in
theorem readsEndpoints_ingresses
    (hcluster : downloader.configuration "RunOnCluster" ≠ some "true")
    (hvs : firstVirtual virtualservices source = none)
    (hlisted : ∃ ing rule, ListedRule ingresses source ing rule) :
    downloader.ReadsEndpoints item ↔ ∀ ing rule, ListedRule ingresses source ing rule →
      downloader.Accepts (ingressUrl ing rule) := by
  have hurl := h.virtualServiceUrl_none hvs
  have hlength : 0 < item.ingresses.length := by
    obtain ⟨ing, rule, hrule⟩ := hlisted
    exact List.length_pos_of_mem ((h.ingress _).2 ⟨ing, rule, hrule, rfl⟩)
  have heq : downloader.extractUriFromService item = downloader.newUris item.ingresses := by
    unfold extractUriFromService
    rw [if_neg hcluster, hurl, if_pos hlength]
    rfl
  rw [readsEndpoints_iff_texts heq fun text htext => .ingress htext]
  constructor
  · intro hall ing rule hrule
    have hmem := (h.ingress (ingressUrl ing rule)).2 ⟨ing, rule, hrule, rfl⟩
    exact (readsText_iff_accepts (ingressUrl_scheme ing rule)).1 (hall _ hmem)
  · intro hall text htext
    obtain ⟨ing, rule, hrule, rfl⟩ := (h.ingress _).1 htext
    exact (readsText_iff_accepts (ingressUrl_scheme ing rule)).2 (hall ing rule hrule)

/-- Without virtual service and listed hosts, the addresses of the load balancer are read. -/
theorem readsEndpoints_external
    (hcluster : downloader.configuration "RunOnCluster" ≠ some "true")
    (hvs : firstVirtual virtualservices source = none)
    (hlisted : ¬ ∃ ing rule, ListedRule ingresses source ing rule) :
    downloader.ReadsEndpoints item ↔ NoExternal source := by
  have hurl := h.virtualServiceUrl_none hvs
  have hnone : item.ingresses = [] := by
    apply List.eq_nil_iff_forall_not_mem.2
    intro url hmem
    obtain ⟨ing, rule, hrule, -⟩ := (h.ingress url).1 hmem
    exact hlisted ⟨ing, rule, hrule⟩
  have heq : downloader.extractUriFromService item =
      if 0 < item.externalEndpoints.length then downloader.newUris item.externalEndpoints
      else downloader.newUris (item.internalEndpoints.map ("http://" ++ ·)) := by
    unfold extractUriFromService
    rw [if_neg hcluster, hurl, hnone]
    rfl
  constructor
  · intro hreads
    by_contra hexternal
    obtain ⟨first, rest, hendpoints, haddress⟩ := externalEndpoints_of_not hsource hexternal
    have hitem : item.externalEndpoints = first :: rest := by
      rw [h.external, hendpoints, mapper.mapFrom_some]
    rw [if_pos (by rw [hitem]; exact Nat.succ_pos _)] at heq
    have hall := (readsEndpoints_iff_texts heq fun text htext => .external htext).1 hreads
    obtain ⟨uri, hnew, hscheme⟩ := hall first (hitem ▸ List.mem_cons_self)
    exact not_http_of_address haddress hnew hscheme
  · intro hexternal
    have hitem : item.externalEndpoints = [] := by
      rw [h.external, mapFrom_externalEndpoints mapper hexternal]
    rw [if_neg (by rw [hitem]; exact Nat.lt_irrefl 0)] at heq
    exact readsEndpoints_internal hsource h heq

theorem Completed.reads_iff : downloader.ReadsEndpoints item ↔
    Readable downloader ingresses virtualservices gateways source := by
  by_cases hcluster : downloader.configuration "RunOnCluster" = some "true"
  · refine iff_of_true (readsEndpoints_internal hsource h ?_) (.onCluster hcluster)
    unfold extractUriFromService
    rw [if_pos hcluster]
  cases hvs : firstVirtual virtualservices source with
  | some vs =>
    rw [readsEndpoints_virtual h hcluster hvs]
    refine ⟨.virtualService vs hvs, fun hreadable => ?_⟩
    cases hreadable with
    | onCluster hon => exact absurd hon hcluster
    | virtualService vs' hvs' haccepts =>
      cases hvs.symm.trans hvs'
      exact haccepts
    | ingresses hnone _ _ => cases hvs.symm.trans hnone
    | internal hnone _ _ => cases hvs.symm.trans hnone
  | none =>
    by_cases hlisted : ∃ ing rule, ListedRule ingresses source ing rule
    · rw [readsEndpoints_ingresses h hcluster hvs hlisted]
      refine ⟨.ingresses hvs hlisted, fun hreadable => ?_⟩
      cases hreadable with
      | onCluster hon => exact absurd hon hcluster
      | virtualService vs hsome _ => cases hvs.symm.trans hsome
      | ingresses _ _ haccepts => exact haccepts
      | internal _ hnot _ => exact absurd hlisted hnot
    · rw [readsEndpoints_external hsource h hcluster hvs hlisted]
      refine ⟨.internal hvs hlisted, fun hreadable => ?_⟩
      cases hreadable with
      | onCluster hon => exact absurd hon hcluster
      | virtualService vs hsome _ => cases hvs.symm.trans hsome
      | ingresses _ hsome _ => exact absurd hsome hlisted
      | internal _ _ hexternal => exact hexternal

end Completed

variable (downloader) in
/-- **The checker reads the endpoints of a service** iff it runs on the cluster, or the hosts of the
virtual service or of the ingresses can stand in a URI, or the service has only internal
endpoints. -/
theorem readsEndpoints_iff {services : List V1Service} {items : List ServiceV1}
    (h : getAllServicesWithDetails ingresses virtualservices gateways syncTime mapper services =
      .ok items) :
    List.Forall₂ (fun source item => ValidService source → (downloader.ReadsEndpoints item ↔
      Readable downloader ingresses virtualservices gateways source)) services items := by
  unfold getAllServicesWithDetails at h
  rw [Throwing.mapM_eq_ok_iff, List.forall₂_map_left_iff] at h
  exact h.imp fun source item hcomplete hsource => (completed hcomplete).reads_iff hsource

/-! ## A service behind a load balancer -/

theorem isDnsLabel_web : IsDnsLabel "web" := ⟨by simp, by simp, by simp, by decide⟩

theorem isDnsLabel_shop : IsDnsLabel "shop" := ⟨by simp, by simp, by simp, by decide⟩

theorem port80_valid (ports : List ℕ) (hports : some [80] = some ports) :
    ∀ p ∈ ports, 1 ≤ p ∧ p ≤ 65535 := by
  cases hports
  exact List.forall_mem_singleton.2 ⟨by decide, by decide⟩

theorem web_valid : ValidService web := by
  refine ⟨isDnsLabel_web, isDnsLabel_shop, port80_valid, ?_⟩
  intro ings hings
  cases hings

/-- The internal endpoint is read. -/
theorem readsEndpoints_web : ∃ item,
    getAllServicesWithDetails [] [] [] .minValue emptyForNull [web] = .ok [item] ∧
      (answering 200).ReadsEndpoints item := by
  have hget : getAllServicesWithDetails [] [] [] .minValue emptyForNull [web] = .ok
      [⟨"web", "shop", ["web.shop:80"], [], [], none, .minValue⟩] := rfl
  have hall := readsEndpoints_iff (answering 200) hget
  refine ⟨_, hget, ((List.forall₂_cons.1 hall).1 web_valid).2 (.internal rfl ?_ ?_)⟩
  · rintro ⟨ing, rule, hmem, -⟩
    cases hmem
  · exact .inr (.inr (.inl rfl))

/-- The service web with the address 20.1.2.3. -/
def balancedWeb : V1Service := ⟨"web", "shop", some [80], some [⟨some "20.1.2.3"⟩]⟩

theorem balancedWeb_valid : ValidService balancedWeb := by
  refine ⟨isDnsLabel_web, isDnsLabel_shop, port80_valid, ?_⟩
  intro ings hings ing hing ip hip
  cases hings
  rw [List.mem_singleton.1 hing] at hip
  cases hip
  unfold IsAddress
  simp [addressChars]

/-- The endpoint 20.1.2.3:80 has no scheme, and the call throws. -/
theorem not_readsEndpoints_balancedWeb : ∃ item e, ValidService balancedWeb ∧
    getAllServicesWithDetails [] [] [] .minValue emptyForNull [balancedWeb] = .ok [item] ∧
      item.externalEndpoints = ["20.1.2.3:80"] ∧
      (answering 200).extractUriFromService item = .error e ∧
      ¬ (answering 200).ReadsEndpoints item := by
  refine ⟨_, _, balancedWeb_valid, rfl, rfl, rfl, ?_⟩
  rintro ⟨uris, huris, -⟩
  cases huris

end Sentinel.IsAliveAndWellHealthCheckDownloader
