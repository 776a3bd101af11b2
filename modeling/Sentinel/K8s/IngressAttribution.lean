import Sentinel.K8s.K8sServiceClient
import Sentinel.Lib.Throwing

/-!
# Which hosts are listed for a service

* `firstRule_some`, `firstRule_none` — the rule chosen from an ingress is the first one whose paths
  all go to the service.
* `complete_returns` — which rules can be read.
* `complete_ingresses` — the hosts listed are those of the chosen rules.
* `attribution_iff` — when the call returns, and when these are the hosts of the rules that route to
  the service.
-/

set_option autoImplicit false

namespace Sentinel.K8sServiceClient

/-! ## Rules and services -/

/-- Some path goes to the service. -/
def RoutesTo (name : String) (rule : IngressRule) : Prop :=
  ∃ paths, rule.http = some paths ∧ ∃ pp ∈ paths, pp.backendService = some name

/-- No path goes elsewhere; a rule without paths counts. -/
def GoesOnlyTo (name : String) (rule : IngressRule) : Prop :=
  ∃ paths, rule.http = some paths ∧ ∀ pp ∈ paths, pp.backendService = some name

/-- The first rule of the ingress of which no path goes elsewhere. -/
def Chosen (name : String) (ing : V1Ingress) (rule : IngressRule) : Prop :=
  ∃ before after, ing.rules = some (before ++ rule :: after) ∧ GoesOnlyTo name rule ∧
    ∀ r ∈ before, ¬ GoesOnlyTo name r

/-- Some ingress of the namespace has a rule for the host that routes to the service. -/
def RoutesHost (ingresses : List V1Ingress) (item : ServiceV1) (host : String) : Prop :=
  ∃ ing ∈ ingresses, ing.nameSpace = item.nameSpace ∧ ∃ rules, ing.rules = some rules ∧
    ∃ rule ∈ rules, hostText rule = host ∧ RoutesTo item.name rule

/-- Some ingress of the namespace has the host in its chosen rule. -/
def ChosenHost (ingresses : List V1Ingress) (item : ServiceV1) (host : String) : Prop :=
  ∃ ing ∈ ingresses, ing.nameSpace = item.nameSpace ∧
    ∃ rule, Chosen item.name ing rule ∧ hostText rule = host

/-- The service has a URL for the host. -/
def Lists (item : ServiceV1) (host : String) : Prop :=
  "http://" ++ host ∈ item.ingresses ∨ "https://" ++ host ∈ item.ingresses

/-- Every host that routes to the service is the one of a chosen rule, and every chosen rule without
paths has such a host. -/
structure Attributable (ingresses : List V1Ingress) (item : ServiceV1) : Prop where
  covered : ∀ ing ∈ ingresses, ing.nameSpace = item.nameSpace → ∀ rules, ing.rules = some rules →
    ∀ rule ∈ rules, RoutesTo item.name rule → ChosenHost ingresses item (hostText rule)
  genuine : ∀ ing ∈ ingresses, ing.nameSpace = item.nameSpace → ∀ rule, Chosen item.name ing rule →
    rule.http = some [] → RoutesHost ingresses item (hostText rule)

/-! ## What can be read -/

/-- `Q` holds of every element that is reached: all elements before it have `P`. -/
def UpTo {α : Type} (P Q : α → Prop) (l : List α) : Prop :=
  ∀ before a after, l = before ++ a :: after → (∀ b ∈ before, P b) → Q a

theorem upTo_nil {α : Type} (P Q : α → Prop) : UpTo P Q [] := by
  intro before a after heq
  cases before with
  | nil => cases heq
  | cons b before => cases heq

theorem upTo_cons {α : Type} {P Q : α → Prop} {a : α} {l : List α} :
    UpTo P Q (a :: l) ↔ Q a ∧ (P a → UpTo P Q l) := by
  constructor
  · intro h
    refine ⟨h [] a l rfl fun b hb => absurd hb List.not_mem_nil,
      fun ha before x after heq hall => ?_⟩
    exact h (a :: before) x after (heq ▸ rfl) (List.forall_mem_cons.2 ⟨ha, hall⟩)
  · rintro ⟨ha, hrest⟩ before x after heq hall
    cases before with
    | nil =>
      obtain rfl : a = x := (List.cons.inj heq).1
      exact ha
    | cons b before =>
      obtain ⟨rfl, hl⟩ := List.cons.inj heq
      obtain ⟨hb, hall⟩ := List.forall_mem_cons.1 hall
      exact hrest hb before x after hl hall

/-- The rule has paths, and no resource backend among them up to the first that goes to another
service. -/
def ReadableRule (name : String) (rule : IngressRule) : Prop :=
  ∃ paths, rule.http = some paths ∧
    UpTo (fun pp => pp.backendService = some name) (fun pp => pp.backendService ≠ none) paths

/-- The ingress has rules, and all of them up to the chosen one can be read. -/
def ReadableIngress (name : String) (ing : V1Ingress) : Prop :=
  ∃ rules, ing.rules = some rules ∧
    UpTo (fun rule => ¬ GoesOnlyTo name rule) (ReadableRule name) rules

/-- All ingresses of the namespace of the service can be read. -/
def ReadableFor (ingresses : List V1Ingress) (service : V1Service) : Prop :=
  ∀ ing ∈ ingresses, ing.nameSpace = service.nameSpace → ReadableIngress service.name ing

/-! ## The loops -/

variable {name : String} {paths : List IngressPath} {rules : List IngressRule}
  {rule : IngressRule} {ing : V1Ingress} {item item' : ServiceV1} {ingresses : List V1Ingress}

theorem allPaths_spec {b : Bool} (h : allPaths name paths = .ok b) :
    b = true ↔ ∀ pp ∈ paths, pp.backendService = some name := by
  induction paths with
  | nil =>
    cases h
    simp
  | cons pp rest ih =>
    unfold allPaths at h
    split at h
    · cases h
    · rename_i service hservice
      rw [List.forall_mem_cons, hservice]
      split at h
      · rename_i hname
        rw [hname, ih h]
        simp
      · rename_i hname
        cases h
        simp [hname]

theorem allPaths_returns : (∃ b, allPaths name paths = .ok b) ↔
    UpTo (fun pp => pp.backendService = some name) (fun pp => pp.backendService ≠ none) paths := by
  induction paths with
  | nil => exact ⟨fun _ => upTo_nil _ _, fun _ => ⟨true, rfl⟩⟩
  | cons pp rest ih =>
    rw [upTo_cons, ← ih, allPaths]
    cases hservice : pp.backendService with
    | none => simp
    | some service =>
      by_cases hname : service = name
      · simp [hname]
      · simp [hname]

theorem firstRule_some (h : firstRule name rules = .ok (some rule)) :
    ∃ before after, rules = before ++ rule :: after ∧ GoesOnlyTo name rule ∧
      ∀ r ∈ before, ¬ GoesOnlyTo name r := by
  induction rules with
  | nil => cases h
  | cons q rest ih =>
    unfold firstRule at h
    split at h
    · cases h
    · rename_i paths hhttp
      split at h
      · cases h
      · rename_i hall
        cases h
        exact ⟨[], rest, rfl, ⟨paths, hhttp, (allPaths_spec hall).1 rfl⟩, by simp⟩
      · rename_i hall
        have hnot : ¬ GoesOnlyTo name q := by
          rintro ⟨paths', hhttp', honly⟩
          cases hhttp.symm.trans hhttp'
          exact Bool.false_ne_true ((allPaths_spec hall).2 honly)
        obtain ⟨before, after, rfl, honly, hbefore⟩ := ih h
        exact ⟨q :: before, after, rfl, honly, List.forall_mem_cons.2 ⟨hnot, hbefore⟩⟩

theorem firstRule_none (h : firstRule name rules = .ok none) :
    ∀ r ∈ rules, ¬ GoesOnlyTo name r := by
  induction rules with
  | nil => exact fun r hr => absurd hr List.not_mem_nil
  | cons q rest ih =>
    unfold firstRule at h
    split at h
    · cases h
    · rename_i paths hhttp
      split at h
      · cases h
      · cases h
      · rename_i hall
        refine List.forall_mem_cons.2 ⟨?_, ih h⟩
        rintro ⟨paths', hhttp', honly⟩
        cases hhttp.symm.trans hhttp'
        exact Bool.false_ne_true ((allPaths_spec hall).2 honly)

theorem firstRule_returns : (∃ found, firstRule name rules = .ok found) ↔
    UpTo (fun rule => ¬ GoesOnlyTo name rule) (ReadableRule name) rules := by
  induction rules with
  | nil => exact ⟨fun _ => upTo_nil _ _, fun _ => ⟨none, rfl⟩⟩
  | cons q rest ih =>
    rw [upTo_cons, ← ih, ReadableRule, firstRule]
    cases hhttp : q.http with
    | none => simp
    | some paths =>
      simp only [Option.some.injEq, exists_eq_left', ← allPaths_returns]
      cases hall : allPaths name paths with
      | error e => simp
      | ok b =>
        have honly : b = true ↔ GoesOnlyTo name q := by
          rw [allPaths_spec hall, GoesOnlyTo, hhttp]
          simp
        cases b with
        | true => simp [honly.1 rfl]
        | false =>
          have hnot : ¬ GoesOnlyTo name q := fun h => Bool.false_ne_true (honly.2 h)
          simp [hnot]

/-- Only one rule is chosen. -/
theorem Chosen.unique {rule' : IngressRule} (h : Chosen name ing rule)
    (h' : Chosen name ing rule') : rule = rule' := by
  obtain ⟨before, after, hrules, honly, hbefore⟩ := h
  obtain ⟨before', after', hrules', honly', hbefore'⟩ := h'
  rw [hrules, Option.some.injEq] at hrules'
  clear hrules
  induction before generalizing before' with
  | nil =>
    cases before' with
    | nil => exact (List.cons.inj hrules').1
    | cons r before' =>
      obtain rfl : rule = r := (List.cons.inj hrules').1
      exact absurd honly (hbefore' rule List.mem_cons_self)
  | cons r before ih =>
    cases before' with
    | nil =>
      obtain rfl : r = rule' := (List.cons.inj hrules').1
      exact absurd honly' (hbefore r List.mem_cons_self)
    | cons r' before' =>
      exact ih (fun x hx => hbefore x (List.mem_cons_of_mem r hx)) before'
        (List.cons.inj hrules').2 fun x hx => hbefore' x (List.mem_cons_of_mem r' hx)

theorem addIngress_returns :
    (∃ item', addIngress ing item = .ok item') ↔ ReadableIngress item.name ing := by
  unfold addIngress ReadableIngress
  cases ing.rules with
  | none => simp
  | some rules =>
    simp only [Option.some.injEq, exists_eq_left', ← firstRule_returns]
    cases firstRule item.name rules with
    | error e => simp
    | ok found =>
      cases found with
      | none => simp
      | some rule => simp

/-- **An ingress adds the URL of its chosen rule**, and nothing else. -/
theorem addIngress_spec (h : addIngress ing item = .ok item') :
    item'.name = item.name ∧ item'.nameSpace = item.nameSpace ∧
      ∀ url, url ∈ item'.ingresses ↔
        url ∈ item.ingresses ∨ ∃ rule, Chosen item.name ing rule ∧ url = ingressUrl ing rule := by
  unfold addIngress at h
  split at h
  · cases h
  · rename_i rules hrules
    split at h
    · cases h
    · rename_i hnone
      cases h
      refine ⟨rfl, rfl, fun url => ?_⟩
      have hno : ¬ ∃ rule, Chosen item.name ing rule ∧ url = ingressUrl ing rule := by
        rintro ⟨rule, ⟨before, after, hrules', honly, -⟩, -⟩
        cases hrules.symm.trans hrules'
        exact firstRule_none hnone rule (by simp) honly
      simp [hno]
    · rename_i rule hsome
      cases h
      refine ⟨rfl, rfl, fun url => ?_⟩
      obtain ⟨before, after, heq, honly, hbefore⟩ := firstRule_some hsome
      have hchosen : Chosen item.name ing rule := ⟨before, after, heq ▸ hrules, honly, hbefore⟩
      simp only [List.mem_append, List.mem_singleton]
      refine or_congr_right ⟨fun hurl => ⟨rule, hchosen, hurl⟩, ?_⟩
      rintro ⟨rule', hchosen', rfl⟩
      rw [hchosen.unique hchosen']

theorem forEach_addIngress {ings : List V1Ingress}
    (h : forEach addIngress ings item = .ok item') :
    item'.name = item.name ∧ item'.nameSpace = item.nameSpace ∧
      ∀ url, url ∈ item'.ingresses ↔ url ∈ item.ingresses ∨
        ∃ ing ∈ ings, ∃ rule, Chosen item.name ing rule ∧ url = ingressUrl ing rule := by
  induction ings generalizing item with
  | nil =>
    cases h
    simp
  | cons ing ings ih =>
    rw [forEach] at h
    split at h
    · cases h
    · rename_i item₁ hfirst
      obtain ⟨hname, hspace, hurls⟩ := addIngress_spec hfirst
      obtain ⟨hname', hspace', hurls'⟩ := ih h
      refine ⟨hname'.trans hname, hspace'.trans hspace, fun url => ?_⟩
      rw [hurls', hurls, hname, List.exists_mem_cons_iff, or_assoc]

theorem forEach_addIngress_returns {ings : List V1Ingress} :
    (∃ item', forEach addIngress ings item = .ok item') ↔
      ∀ ing ∈ ings, ReadableIngress item.name ing := by
  induction ings generalizing item with
  | nil => exact ⟨fun _ ing hing => absurd hing List.not_mem_nil, fun _ => ⟨item, rfl⟩⟩
  | cons ing ings ih =>
    rw [List.forall_mem_cons, ← addIngress_returns]
    unfold forEach
    cases hadd : addIngress ing item with
    | error e => simp
    | ok item₁ =>
      obtain ⟨hname, -⟩ := addIngress_spec hadd
      simp only [ih, hname, Except.ok.injEq, exists_eq', true_and]

/-! ## The completed services -/

section Details

variable {virtualservices : List VirtualServiceV1} {gateways : List GatewayV1}
  {syncTime : DateTime} {mapper : AutoMapper} {services : List V1Service} {items : List ServiceV1}

theorem setVirtualService_keeps (virtualservices : List VirtualServiceV1)
    (gateways : List GatewayV1) (item : ServiceV1) :
    (setVirtualService virtualservices gateways item).name = item.name ∧
      (setVirtualService virtualservices gateways item).nameSpace = item.nameSpace ∧
      (setVirtualService virtualservices gateways item).ingresses = item.ingresses := by
  unfold setVirtualService
  split <;> exact ⟨rfl, rfl, rfl⟩

/-- A service is completed iff the ingresses of its namespace can be read. -/
theorem complete_returns : (∃ item', complete ingresses virtualservices gateways syncTime item =
      .ok item') ↔
    ∀ ing ∈ ingresses, ing.nameSpace = item.nameSpace → ReadableIngress item.name ing := by
  have hloop : (∃ item', forEach addIngress
        (ingresses.filter fun p => p.nameSpace == item.nameSpace)
        { item with latestSyncDateUTC := syncTime } = .ok item') ↔
      ∀ ing ∈ ingresses.filter (fun p => p.nameSpace == item.nameSpace),
        ReadableIngress item.name ing := forEach_addIngress_returns
  simp only [List.mem_filter, beq_iff_eq, and_imp] at hloop
  rw [← hloop]
  unfold complete
  cases forEach addIngress (ingresses.filter fun p => p.nameSpace == item.nameSpace)
      { item with latestSyncDateUTC := syncTime } with
  | error e => simp
  | ok item₁ => simp

/-- **The URLs listed for a service are those of the chosen rules** in its namespace. -/
theorem complete_ingresses
    (h : complete ingresses virtualservices gateways syncTime item = .ok item') :
    item'.name = item.name ∧ item'.nameSpace = item.nameSpace ∧
      ∀ url, url ∈ item'.ingresses ↔ url ∈ item.ingresses ∨
        ∃ ing ∈ ingresses, ing.nameSpace = item.nameSpace ∧
          ∃ rule, Chosen item.name ing rule ∧ url = ingressUrl ing rule := by
  unfold complete at h
  split at h
  · cases h
  · rename_i item₁ hloop
    cases h
    obtain ⟨hname, hspace, hurls⟩ := forEach_addIngress hloop
    obtain ⟨hname', hspace', hingresses⟩ := setVirtualService_keeps virtualservices gateways item₁
    refine ⟨hname'.trans hname, hspace'.trans hspace, fun url => ?_⟩
    rw [hingresses, hurls]
    simp only [List.mem_filter, beq_iff_eq, and_assoc]

/-- Each service returned is a mapped one, completed. -/
theorem completed_of_mem (h : getAllServicesWithDetails ingresses virtualservices gateways syncTime
    mapper services = .ok items) (hitem : item' ∈ items) :
    ∃ source ∈ services,
      complete ingresses virtualservices gateways syncTime (serviceMapper mapper source) =
        .ok item' := by
  obtain ⟨item, hmem, hcomplete⟩ := Throwing.exists_of_mem_mapM h hitem
  obtain ⟨source, hsource, rfl⟩ := List.mem_map.1 hmem
  exact ⟨source, hsource, hcomplete⟩

/-- The call returns iff for every service the ingresses of its namespace can be read. -/
theorem getAllServicesWithDetails_returns (ingresses : List V1Ingress)
    (virtualservices : List VirtualServiceV1) (gateways : List GatewayV1) (syncTime : DateTime)
    (mapper : AutoMapper) (services : List V1Service) :
    (∃ items, getAllServicesWithDetails ingresses virtualservices gateways syncTime mapper services =
        .ok items) ↔ ∀ service ∈ services, ReadableFor ingresses service := by
  unfold getAllServicesWithDetails ReadableFor
  rw [Throwing.exists_mapM_eq_ok_iff]
  simp only [List.forall_mem_map, complete_returns]
  exact Iff.rfl

theorem http_ne_https (a b : String) : "http://" ++ a ≠ "https://" ++ b := by
  intro heq
  have hlists := congrArg String.toList heq
  simp at hlists

theorem ingressUrl_eq_iff {host : String} :
    "http://" ++ host = ingressUrl ing rule ∨ "https://" ++ host = ingressUrl ing rule ↔
      hostText rule = host := by
  unfold ingressUrl
  cases ing.hasTls with
  | true => simp [http_ne_https, eq_comm]
  | false => simp [(http_ne_https _ _).symm, eq_comm]

/-- The hosts listed are those of the chosen rules. -/
theorem lists_iff (h : getAllServicesWithDetails ingresses virtualservices gateways syncTime
    mapper services = .ok items) (hitem : item' ∈ items) (host : String) :
    Lists item' host ↔ ChosenHost ingresses item' host := by
  obtain ⟨source, -, hcomplete⟩ := completed_of_mem h hitem
  obtain ⟨hname, hspace, hurls⟩ := complete_ingresses hcomplete
  have hmem : ∀ url, url ∈ item'.ingresses ↔ ∃ ing ∈ ingresses, ing.nameSpace = item'.nameSpace ∧
      ∃ rule, Chosen item'.name ing rule ∧ url = ingressUrl ing rule := by
    intro url
    rw [hurls, hname, hspace]
    exact or_iff_right List.not_mem_nil
  constructor
  · intro hlists
    have hone : ∃ ing ∈ ingresses, ing.nameSpace = item'.nameSpace ∧
        ∃ rule, Chosen item'.name ing rule ∧
          ("http://" ++ host = ingressUrl ing rule ∨ "https://" ++ host = ingressUrl ing rule) := by
      rcases hlists with hurl | hurl
      · obtain ⟨ing, hing, hns, rule, hchosen, heq⟩ := (hmem _).1 hurl
        exact ⟨ing, hing, hns, rule, hchosen, Or.inl heq⟩
      · obtain ⟨ing, hing, hns, rule, hchosen, heq⟩ := (hmem _).1 hurl
        exact ⟨ing, hing, hns, rule, hchosen, Or.inr heq⟩
    obtain ⟨ing, hing, hns, rule, hchosen, heq⟩ := hone
    exact ⟨ing, hing, hns, rule, hchosen, ingressUrl_eq_iff.1 heq⟩
  · rintro ⟨ing, hing, hns, rule, hchosen, hhost⟩
    exact (ingressUrl_eq_iff.2 hhost).imp
      (fun heq => (hmem _).2 ⟨ing, hing, hns, rule, hchosen, heq⟩)
      fun heq => (hmem _).2 ⟨ing, hing, hns, rule, hchosen, heq⟩

/-! ## Attribution -/

/-- A chosen rule with paths routes to the service. -/
theorem Chosen.routesTo (h : Chosen name ing rule) (hpaths : rule.http ≠ some []) :
    RoutesTo name rule := by
  obtain ⟨-, -, -, ⟨paths, hhttp, honly⟩, -⟩ := h
  cases paths with
  | nil => exact absurd hhttp hpaths
  | cons pp rest => exact ⟨_, hhttp, pp, List.mem_cons_self, honly pp List.mem_cons_self⟩

/-- **Attribution of ingresses**: the call returns iff for every service the ingresses of its
namespace can be read.  Then the hosts listed for a service are those that route to it iff each of
the latter is the host of the first rule of some ingress of the namespace whose paths all go to the
service, and each such first rule that has no paths shares its host with a rule that routes to the
service. -/
theorem attribution_iff (ingresses : List V1Ingress) (virtualservices : List VirtualServiceV1)
    (gateways : List GatewayV1) (syncTime : DateTime) (mapper : AutoMapper)
    (services : List V1Service) :
    ((∃ items, getAllServicesWithDetails ingresses virtualservices gateways syncTime mapper
        services = .ok items) ↔ ∀ service ∈ services, ReadableFor ingresses service) ∧
    ∀ items, getAllServicesWithDetails ingresses virtualservices gateways syncTime mapper
        services = .ok items → ∀ item ∈ items,
      ((∀ host, Lists item host ↔ RoutesHost ingresses item host) ↔
        Attributable ingresses item) := by
  refine ⟨getAllServicesWithDetails_returns _ _ _ _ _ _, fun items h item hitem => ?_⟩
  simp only [lists_iff h hitem]
  constructor
  · intro hall
    refine ⟨fun ing hing hns rules hrules rule hrule hroutes => ?_,
      fun ing hing hns rule hchosen _ => ?_⟩
    · exact (hall _).2 ⟨ing, hing, hns, rules, hrules, rule, hrule, rfl, hroutes⟩
    · exact (hall _).1 ⟨ing, hing, hns, rule, hchosen, rfl⟩
  · rintro ⟨hcovered, hgenuine⟩ host
    constructor
    · rintro ⟨ing, hing, hns, rule, hchosen, rfl⟩
      by_cases hpaths : rule.http = some []
      · exact hgenuine ing hing hns rule hchosen hpaths
      · obtain ⟨before, after, hrules, -⟩ := id hchosen
        exact ⟨ing, hing, hns, _, hrules, rule, by simp, rfl, hchosen.routesTo hpaths⟩
    · rintro ⟨ing, hing, hns, rules, hrules, rule, hrule, rfl, hroutes⟩
      exact hcovered ing hing hns rules hrules rule hrule hroutes

end Details

/-! ## An ingress with two backends -/

/-- The mapper of a host that maps a null to an empty list. -/
def emptyForNull : AutoMapper := ⟨fun l => l.getD [], fun _ => rfl, rfl⟩

def web : V1Service := ⟨"web", "shop", some [80], none⟩

def toService (name : String) : IngressPath := ⟨some name⟩

/-- The host shop.example.com with the backends web and api. -/
def sharedIngress : V1Ingress :=
  ⟨"shop", some [⟨some "shop.example.com", some [toService "web", toService "api"]⟩], true⟩

/-- The host shop.example.com with the backend web only. -/
def webIngress : V1Ingress :=
  ⟨"shop", some [⟨some "shop.example.com", some [toService "web"]⟩], true⟩

/-- The host routes to web but is missing: not all of its paths go there. -/
theorem not_listed_shared : ∃ item,
    getAllServicesWithDetails [sharedIngress] [] [] .minValue emptyForNull [web] = .ok [item] ∧
      RoutesHost [sharedIngress] item "shop.example.com" ∧ ¬ Lists item "shop.example.com" := by
  refine ⟨_, rfl, ?_, ?_⟩
  · exact ⟨sharedIngress, List.mem_singleton_self _, rfl, _, rfl, _, List.mem_singleton_self _, rfl,
      _, rfl, toService "web", List.mem_cons_self, rfl⟩
  · rintro (hurl | hurl)
    · cases hurl
    · cases hurl

def webListed : ServiceV1 :=
  ⟨"web", "shop", ["web.shop:80"], [], ["https://shop.example.com"], none, .minValue⟩

/-- The host of web alone is listed, and no other. -/
theorem attribution_iff_web :
    getAllServicesWithDetails [webIngress] [] [] .minValue emptyForNull [web] = .ok [webListed] ∧
      ∀ host, Lists webListed host ↔ RoutesHost [webIngress] webListed host := by
  have hget : getAllServicesWithDetails [webIngress] [] [] .minValue emptyForNull [web] =
      .ok [webListed] := rfl
  refine ⟨hget, ((attribution_iff [webIngress] [] [] .minValue emptyForNull [web]).2 _ hget _
    (List.mem_singleton_self _)).2 ⟨?_, ?_⟩⟩
  · rintro ing hing hns rules hrules rule hrule -
    obtain rfl := List.mem_singleton.1 hing
    cases hrules
    obtain rfl := List.mem_singleton.1 hrule
    have honly : GoesOnlyTo "web" ⟨some "shop.example.com", some [toService "web"]⟩ :=
      ⟨_, rfl, fun pp hpp => by rw [List.mem_singleton.1 hpp]; rfl⟩
    exact ⟨webIngress, hing, rfl, _, ⟨[], [], rfl, honly, by simp⟩, rfl⟩
  · rintro ing hing hns rule ⟨before, after, hrules, -⟩ hnone
    obtain rfl := List.mem_singleton.1 hing
    have hrule : rule ∈ before ++ rule :: after := by simp
    rw [← Option.some.inj hrules, List.mem_singleton] at hrule
    rw [hrule] at hnone
    cases hnone

end Sentinel.K8sServiceClient
