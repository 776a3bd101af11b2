import Sentinel.HttpClients.EndpointStrings
import Sentinel.Lib.CanonicalText
import Sentinel.Workers.HealthCheckSyncSchedulerJob

/-!
# The service a health check names

The repository keeps the services under their name and namespace; a health check names one of them
by a text that may hold the namespace.

* `nameandNamespace_inj` — two services share a key only if they have the same name and namespace.
* `toDictionary_holds` — services with distinct keys can be stored, each under its key.
* `resolution_exact` — the service found is the one the text names, and no other.
-/

set_option autoImplicit false

namespace Sentinel

open CanonicalText (append_cons_inj)

/-! ## `K8MemoryRepository.Services` -/

/-- `NameandNamespace`. -/
def ServiceV1.nameandNamespace (service : ServiceV1) : String :=
  service.name ++ "." ++ service.nameSpace

/-- A round of `ToDictionary`: a key that is there already is refused. -/
def addToDictionary (p : ServiceV1) (dic : ServicesDic) : Except Exn ServicesDic :=
  if p.nameandNamespace ∈ dic then .error .argumentException
  else .ok (dic.insert p.nameandNamespace p)

/-- `ToDictionary(p => p.NameandNamespace)`. -/
def toDictionary (items : List ServiceV1) : Except Exn ServicesDic :=
  forEach addToDictionary items ∅

/-- The setter of `Services`; null leaves the dictionary as it is. -/
def K8MemoryRepository.setServices (repository : K8MemoryRepository)
    (value : Option (List ServiceV1)) : Except Exn K8MemoryRepository :=
  match value with
  | none => .ok repository
  | some value =>
    match toDictionary value with
    | .error e => .error e
    | .ok dic => .ok { repository with servicesDic := some dic }

/-! ## Keys -/

/-- What matters of a DNS label here: it has a character, and neither dots nor white space. -/
structure IsLabel (text : String) : Prop where
  ne_nil : text.toList ≠ []
  noDot : '.' ∉ text.toList
  noSpace : ∀ c ∈ text.toList, AZAuthService.isWhiteSpace c = false

theorem not_isWhiteSpace {c : Char} (h : c.isLower = true ∨ c.isDigit = true ∨ c = '-') :
    AZAuthService.isWhiteSpace c = false := by
  have hrange : c.toNat = 45 ∨ (48 ≤ c.toNat ∧ c.toNat ≤ 57) ∨ 97 ≤ c.toNat ∧ c.toNat ≤ 122 := by
    rcases h with hlower | hdigit | rfl
    · simp only [Char.isLower, Bool.and_eq_true, decide_eq_true_eq] at hlower
      exact .inr (.inr hlower)
    · simp only [Char.isDigit, Bool.and_eq_true, decide_eq_true_eq] at hdigit
      exact .inr (.inl hdigit)
    · exact .inl rfl
  unfold AZAuthService.isWhiteSpace
  simp only [Bool.or_eq_false_iff, Bool.and_eq_false_iff, decide_eq_false_iff_not,
    beq_eq_false_iff_ne]
  omega

theorem IsDnsLabel.isLabel {text : String} (h : IsDnsLabel text) : IsLabel text := by
  refine ⟨?_, fun hmem => ?_, fun c hc => not_isWhiteSpace (h.chars c hc)⟩
  · intro hnil
    have hlength := h.length.1
    rw [← String.length_toList, hnil] at hlength
    exact absurd hlength (by decide)
  · exact absurd (h.chars '.' hmem) (by decide)

theorem toList_dotted (name rest : String) :
    (name ++ "." ++ rest).toList = name.toList ++ '.' :: rest.toList := by
  rw [String.toList_append, String.toList_append, List.append_assoc]
  rfl

/-- The part before the first dot and the part after it. -/
theorem dotted_inj {name name' rest rest' : String} (hname : '.' ∉ name.toList)
    (hname' : '.' ∉ name'.toList) (h : name ++ "." ++ rest = name' ++ "." ++ rest') :
    name = name' ∧ rest = rest' := by
  have hlists := congrArg String.toList h
  rw [toList_dotted, toList_dotted] at hlists
  obtain ⟨hbefore, hafter⟩ := append_cons_inj hname hname' hlists
  exact ⟨String.toList_inj.1 hbefore, String.toList_inj.1 hafter⟩

/-- **Keys are told apart by name and namespace** as long as namespaces have no dots; names may
have some. -/
theorem nameandNamespace_inj {name name' nameSpace nameSpace' : String}
    (hspace : '.' ∉ nameSpace.toList) (hspace' : '.' ∉ nameSpace'.toList)
    (h : name ++ "." ++ nameSpace = name' ++ "." ++ nameSpace') :
    name = name' ∧ nameSpace = nameSpace' := by
  have hlists := congrArg (fun text => text.toList.reverse) h
  simp only [toList_dotted, List.reverse_append, List.reverse_cons, List.append_assoc,
    List.singleton_append] at hlists
  -- read backwards, the namespace ends at the first dot
  obtain ⟨hafter, hbefore⟩ := append_cons_inj (fun hmem => hspace (List.mem_reverse.1 hmem))
    (fun hmem => hspace' (List.mem_reverse.1 hmem)) hlists
  exact ⟨String.toList_inj.1 (List.reverse_inj.1 hbefore),
    String.toList_inj.1 (List.reverse_inj.1 hafter)⟩

/-! ## The dictionary -/

/-- The dictionary holds the services of the list, each under its key. -/
def Holds (services : List ServiceV1) (dic : ServicesDic) : Prop :=
  ∀ key service, dic.lookup key = some service ↔
    service ∈ services ∧ service.nameandNamespace = key

theorem holds_nil : Holds [] ∅ := by
  intro key service
  rw [AList.lookup_empty]
  simp

/-- A service with a new key is added. -/
theorem Holds.add {services : List ServiceV1} {dic : ServicesDic} (h : Holds services dic)
    {p : ServiceV1} (hnew : ∀ service ∈ services, service.nameandNamespace ≠ p.nameandNamespace) :
    ∃ dic', addToDictionary p dic = .ok dic' ∧ Holds (services ++ [p]) dic' := by
  have hfresh : p.nameandNamespace ∉ dic := by
    intro hmem
    obtain ⟨service, hservice⟩ := Option.isSome_iff_exists.1 (AList.lookup_isSome.2 hmem)
    obtain ⟨hin, hkey⟩ := (h _ _).1 hservice
    exact hnew service hin hkey
  refine ⟨_, if_neg hfresh, fun key service => ?_⟩
  rw [List.mem_append, List.mem_singleton]
  by_cases hkey : key = p.nameandNamespace
  · subst hkey
    rw [AList.lookup_insert, Option.some.injEq]
    constructor
    · rintro rfl
      exact ⟨.inr rfl, rfl⟩
    · rintro ⟨hin | rfl, heq⟩
      · exact absurd heq (hnew service hin)
      · rfl
  · rw [AList.lookup_insert_ne hkey, h]
    constructor
    · rintro ⟨hin, heq⟩
      exact ⟨.inl hin, heq⟩
    · rintro ⟨hin | rfl, heq⟩
      · exact ⟨hin, heq⟩
      · exact absurd heq.symm hkey

theorem forEach_addToDictionary {before services : List ServiceV1} {dic : ServicesDic}
    (h : Holds before dic)
    (hkeys : ((before ++ services).map ServiceV1.nameandNamespace).Nodup) :
    ∃ dic', forEach addToDictionary services dic = .ok dic' ∧ Holds (before ++ services) dic' := by
  induction services generalizing before dic with
  | nil =>
    rw [List.append_nil]
    exact ⟨dic, rfl, h⟩
  | cons p services ih =>
    have hnew : ∀ service ∈ before, service.nameandNamespace ≠ p.nameandNamespace := by
      intro service hin heq
      rw [List.map_append, List.map_cons] at hkeys
      exact (List.nodup_append.1 hkeys).2.2 _ (List.mem_map_of_mem hin) _ List.mem_cons_self heq
    obtain ⟨dic₁, hadd, hdic₁⟩ := h.add hnew
    rw [← List.singleton_append, ← List.append_assoc] at hkeys ⊢
    obtain ⟨dic', hrest, hdic'⟩ := ih hdic₁ hkeys
    refine ⟨dic', ?_, hdic'⟩
    rw [List.singleton_append, forEach, hadd]
    exact hrest

/-- **Services with distinct keys can be stored**, and each is found under its key. -/
theorem toDictionary_holds {services : List ServiceV1}
    (hkeys : (services.map ServiceV1.nameandNamespace).Nodup) :
    ∃ dic, toDictionary services = .ok dic ∧ Holds services dic :=
  forEach_addToDictionary holds_nil hkeys

theorem holds_of_forEach {before services : List ServiceV1} {dic dic' : ServicesDic}
    (h : Holds before dic) (hrun : forEach addToDictionary services dic = .ok dic') :
    Holds (before ++ services) dic' := by
  induction services generalizing before dic with
  | nil =>
    cases hrun
    rwa [List.append_nil]
  | cons p services ih =>
    have hnew : ∀ service ∈ before, service.nameandNamespace ≠ p.nameandNamespace := by
      intro service hin heq
      have hmem : p.nameandNamespace ∈ dic := by
        rw [← AList.lookup_isSome, (h _ _).2 ⟨hin, heq⟩]
        rfl
      unfold forEach addToDictionary at hrun
      rw [if_pos hmem] at hrun
      cases hrun
    obtain ⟨dic₁, hadd, hdic₁⟩ := h.add hnew
    rw [forEach, hadd] at hrun
    rw [← List.singleton_append, ← List.append_assoc]
    exact ih hdic₁ hrun

/-- A dictionary that has been made holds the services it was made of. -/
theorem holds_of_toDictionary {services : List ServiceV1} {dic : ServicesDic}
    (h : toDictionary services = .ok dic) : Holds services dic :=
  holds_of_forEach holds_nil h

/-- Distinct names and namespaces give distinct keys. -/
theorem nodup_nameandNamespace {services : List ServiceV1}
    (hspaces : ∀ service ∈ services, '.' ∉ service.nameSpace.toList)
    (hdistinct : (services.map fun service => (service.name, service.nameSpace)).Nodup) :
    (services.map ServiceV1.nameandNamespace).Nodup := by
  rw [List.Nodup, List.pairwise_map] at hdistinct ⊢
  refine hdistinct.imp_of_mem fun {service service'} hin hin' hne heq => hne ?_
  obtain ⟨hname, hspace⟩ := nameandNamespace_inj (hspaces service hin) (hspaces service' hin') heq
  exact Prod.ext hname hspace

/-! ## The key of a health check -/

theorem IsLabel.split_eq {text : String} (h : IsLabel text) :
    split '.' text.toList = [text.toList] :=
  List.splitOn_eq_singleton h.noDot

theorem split_dotted {name : String} (hname : '.' ∉ name.toList) (rest : String) :
    split '.' (name ++ "." ++ rest).toList = name.toList :: split '.' rest.toList := by
  rw [toList_dotted]
  unfold split
  rw [List.splitOn_append_cons_self, List.splitOn_eq_singleton hname, List.singleton_append]

/-- A text that starts with a label is not blank. -/
theorem IsLabel.not_blank {text : String} (h : IsLabel text) (rest : String) :
    isNullOrWhiteSpace (some (text ++ rest)) = false := by
  obtain ⟨c, chars, hchars⟩ := List.exists_cons_of_ne_nil h.ne_nil
  have hc := h.noSpace c (hchars ▸ List.mem_cons_self)
  rw [isNullOrWhiteSpace, String.toList_append, hchars, List.cons_append, List.all_cons, hc]
  rfl

/-- A name alone is taken in the namespace of the check. -/
theorem serviceKey_label {a : String} (ha : IsLabel a) (nameSpace : String) :
    serviceKey a nameSpace = a ++ "." ++ nameSpace := by
  unfold serviceKey
  rw [ha.split_eq]
  simp only [String.ofList_toList]

/-- What may follow the namespace: nothing, or a dot and any text. -/
def IsSuffix (suffix : String) : Prop := suffix = "" ∨ ∃ rest, suffix = "." ++ rest

theorem split_suffix {b suffix : String} (hb : IsLabel b) (hsuffix : IsSuffix suffix) :
    ∃ rest, split '.' (b ++ suffix).toList = b.toList :: rest := by
  obtain rfl | ⟨rest, rfl⟩ := hsuffix
  · rw [String.append_empty, hb.split_eq]
    exact ⟨[], rfl⟩
  · rw [← String.append_assoc, split_dotted hb.noDot]
    exact ⟨_, rfl⟩

/-- A name and a namespace are taken as they are, whatever follows. -/
theorem serviceKey_dotted {a b suffix : String} (ha : IsLabel a) (hb : IsLabel b)
    (hsuffix : IsSuffix suffix) (nameSpace : String) :
    serviceKey (a ++ "." ++ b ++ suffix) nameSpace = a ++ "." ++ b := by
  obtain ⟨rest, hrest⟩ := split_suffix hb hsuffix
  unfold serviceKey
  rw [String.append_assoc, split_dotted ha.noDot, hrest]
  simp only [String.ofList_toList]

/-! ## Resolution -/

/-- The result is the service of that name and namespace, null if there is none. -/
def Resolves (services : List ServiceV1) (name nameSpace : String) (found : Option ServiceV1) :
    Prop :=
  ∀ service, found = some service ↔
    service ∈ services ∧ service.name = name ∧ service.nameSpace = nameSpace

/-- A text whose key is that of a label and a namespace finds that service. -/
theorem resolves_of_key {services : List ServiceV1} {dic : ServicesDic}
    (hlabels : ∀ service ∈ services, IsLabel service.name)
    (hdic : Holds services dic) {check : HealthCheckDto} {text a nameSpace : String}
    (hservice : check.spec.bind HealthCheckResourceSpec.service = some text)
    (hblank : isNullOrWhiteSpace (some text) = false) (ha : IsLabel a)
    (hkey : serviceKey text check.nameSpace = a ++ "." ++ nameSpace) :
    ∃ found, findServiceRelatedtoHealthCheckResourceV1 check (some dic) = .ok found ∧
      Resolves services a nameSpace found := by
  have hne : a ++ "." ++ nameSpace ≠ "" := by
    intro hempty
    have hlist := congrArg String.toList hempty
    rw [toList_dotted] at hlist
    exact List.append_ne_nil_of_right_ne_nil _ (List.cons_ne_nil _ _) hlist
  refine ⟨dic.lookup (a ++ "." ++ nameSpace), ?_, fun service => ?_⟩
  · unfold findServiceRelatedtoHealthCheckResourceV1
    simp only [hservice, hblank, Bool.false_eq_true, if_false, hkey]
    rw [if_pos hne, Option.bind_some, hkey]
  · rw [hdic]
    refine and_congr_right fun hin => ?_
    constructor
    · intro heq
      exact dotted_inj (hlabels service hin).noDot ha.noDot heq
    · rintro ⟨rfl, rfl⟩
      rfl

/-- **Service resolution is exact**: keys are told apart by name and namespace; once the services
are stored, a health check that names `a` finds the service `a` of its own namespace, one that names
`a.b`, with or without more after it, the service `a` of the namespace `b`, and neither finds
another. -/
theorem resolution_exact {services : List ServiceV1} (repository : K8MemoryRepository)
    (hlabels : ∀ service ∈ services, IsLabel service.name ∧ IsLabel service.nameSpace)
    (hdistinct : (services.map fun service => (service.name, service.nameSpace)).Nodup) :
    (∀ p q : ServiceV1, '.' ∉ p.nameSpace.toList → '.' ∉ q.nameSpace.toList →
      p.nameandNamespace = q.nameandNamespace → p.name = q.name ∧ p.nameSpace = q.nameSpace) ∧
    ∃ stored, repository.setServices (some services) = .ok stored ∧
      ∀ (check : HealthCheckDto) (a b : String), IsLabel a → IsLabel b →
        (check.spec.bind HealthCheckResourceSpec.service = some a →
          ∃ found,
            findServiceRelatedtoHealthCheckResourceV1 check stored.servicesDic = .ok found ∧
              Resolves services a check.nameSpace found) ∧
        ∀ suffix, IsSuffix suffix →
          check.spec.bind HealthCheckResourceSpec.service = some (a ++ "." ++ b ++ suffix) →
          ∃ found,
            findServiceRelatedtoHealthCheckResourceV1 check stored.servicesDic = .ok found ∧
              Resolves services a b found := by
  refine ⟨fun p q hp hq => nameandNamespace_inj hp hq, ?_⟩
  obtain ⟨dic, hstore, hdic⟩ := toDictionary_holds
    (nodup_nameandNamespace (fun service hin => (hlabels service hin).2.noDot) hdistinct)
  have hset : repository.setServices (some services) =
      .ok { repository with servicesDic := some dic } := by
    unfold K8MemoryRepository.setServices
    simp only [hstore]
  have hnames : ∀ service ∈ services, IsLabel service.name :=
    fun service hin => (hlabels service hin).1
  refine ⟨_, hset, fun check a b ha hb => ⟨fun hservice => ?_, fun suffix hsuffix hservice => ?_⟩⟩
  · refine resolves_of_key hnames hdic hservice ?_ ha (serviceKey_label ha check.nameSpace)
    have hblank := ha.not_blank ""
    rwa [String.append_empty] at hblank
  · refine resolves_of_key hnames hdic hservice ?_ ha (serviceKey_dotted ha hb hsuffix _)
    rw [String.append_assoc, String.append_assoc]
    exact ha.not_blank _

/-! ## One name in two namespaces -/

open IsAliveAndWellHealthCheckDownloader (isDnsLabel_web isDnsLabel_shop)

theorem isDnsLabel_blog : IsDnsLabel "blog" := ⟨by simp, by simp, by simp, by decide⟩

/-- A check in the namespace blog. -/
def checkOf (service : String) : HealthCheckDto :=
  .ofResource ⟨"1", "check", "blog", some ⟨some service, none⟩, none⟩

/-- The short name is taken in the namespace of the check, the long one in its own. -/
theorem resolution_exact_web : ∃ stored,
    (K8MemoryRepository.mk none none).setServices (some [⟨"web", "shop"⟩, ⟨"web", "blog"⟩]) =
        .ok stored ∧
      findServiceRelatedtoHealthCheckResourceV1 (checkOf "web") stored.servicesDic =
        .ok (some ⟨"web", "blog"⟩) ∧
      findServiceRelatedtoHealthCheckResourceV1 (checkOf "web.shop.svc.cluster.local")
        stored.servicesDic = .ok (some ⟨"web", "shop"⟩) := by
  obtain ⟨-, stored, hstored, hall⟩ := @resolution_exact [⟨"web", "shop"⟩, ⟨"web", "blog"⟩]
    ⟨none, none⟩
    (by simp [isDnsLabel_web.isLabel, isDnsLabel_shop.isLabel, isDnsLabel_blog.isLabel]) (by simp)
  obtain ⟨found, hshort, hresolves⟩ :=
    (hall (checkOf "web") "web" "blog" isDnsLabel_web.isLabel isDnsLabel_blog.isLabel).1 rfl
  obtain ⟨found', hlong, hresolves'⟩ :=
    (hall (checkOf "web.shop.svc.cluster.local") "web" "shop" isDnsLabel_web.isLabel
      isDnsLabel_shop.isLabel).2 ".svc.cluster.local" (.inr ⟨"svc.cluster.local", rfl⟩) rfl
  refine ⟨stored, hstored, ?_, ?_⟩
  · rw [hshort, (hresolves ⟨"web", "blog"⟩).2 (by simp [checkOf, HealthCheckDto.ofResource])]
  · rw [hlong, (hresolves' ⟨"web", "shop"⟩).2 (by simp)]

end Sentinel
