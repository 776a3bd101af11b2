import Sentinel.K8s.K8sHealthCheckResourceClient

/-!
# Status updates of health checks

Many workers set the status of the same checks at the same time.

* `updateStartusByName_isCall` — an update by name acts as one call.
* `updates_spec` — what any interleaving of updates leaves: the checks as they were, each with the
  status it had or with the status that one of the updates that returned has set.
* `updates_progress` — the first of competing updates to end returns.
-/

set_option autoImplicit false

namespace Sentinel.K8sHealthCheckResourceClient

open Commands KubernetesClient

variable {texts : Texts} {server : HealthCheckServer} {s s₀ s' : server.Store}
  {name nameSpace phase : String} {checkedUrl : Option String} {lastCheckTime : Option DateTime}

abbrev StoredCheck := StoredObject (Option HealthCheckResourceSpec) HealthCheckResourceStatus

/-! ## One update -/

/-- The path of the check of the given name. -/
def checkPath (name nameSpace : String) : ResourcePath := resourcePath crd (some nameSpace) name

/-- What the server sends of a check leads back to its path. -/
theorem resourcePath_again (definition : CustomEntityDefinition) (nameSpace : Option String)
    (name : String) :
    resourcePath definition (resourcePath definition nameSpace name).nameSpace name =
      resourcePath definition nameSpace name := by
  unfold resourcePath
  cases h : isNullOrWhiteSpace nameSpace with
  | true => simp [isNullOrWhiteSpace]
  | false => simp [h]

/-- The check that is read of an object. -/
def readCheck (texts : Texts) (path : ResourcePath) (o : StoredCheck) : HealthCheckResource :=
  ⟨(o.json path).metadata,
    ⟨o.content.main.map (readSpec texts), o.content.status.map (readStatus texts)⟩⟩

theorem found_check {path : ResourcePath} {o : StoredCheck} (h : server.objects s path = some o) :
    found (codec texts) (answer server s path) = .ok (some (readCheck texts path o)) := by
  unfold answer
  rw [h]
  rfl

theorem path_readCheck {o : StoredCheck} :
    (readCheck texts (checkPath name nameSpace) o).target crd = checkPath name nameSpace :=
  resourcePath_again crd (some nameSpace) name

/-- What `UpdateStartusAsync` sends for a check that has been read. -/
def newCheck (texts : Texts) (path : ResourcePath) (o : StoredCheck) (phase : String)
    (checkedUrl : Option String) (lastCheckTime : Option DateTime) : HealthCheckResource :=
  ⟨(o.json path).metadata, ⟨o.content.main.map (readSpec texts),
    some (setStatus texts phase checkedUrl lastCheckTime (o.content.status.map (readStatus texts)))⟩⟩

theorem updateFound_readCheck (texts : Texts) (o : StoredCheck) (name nameSpace phase : String)
    (checkedUrl : Option String) (lastCheckTime : Option DateTime) :
    updateFound texts name phase checkedUrl lastCheckTime
        (some (readCheck texts (checkPath name nameSpace) o)) =
      let healthCheck := newCheck texts (checkPath name nameSpace) o phase checkedUrl lastCheckTime
      .call (.replaceStatus (checkPath name nameSpace) ((codec texts).toJObject healthCheck))
        fun reply => .ofExcept ((written (codec texts) healthCheck reply).map Prod.fst) := by
  unfold updateFound updateStartus updateStatusAsync withDefinition
  rw [show createResourceDefinition (codec texts).type = .ok crd from
    createResourceDefinition_healthCheckResource]
  show Prog.call (ApiRequest.replaceStatus
    ((readCheck texts (checkPath name nameSpace) o).target crd) _) _ = _
  rw [path_readCheck]
  rfl

theorem updateFound_lastWrite {r : Option HealthCheckResource}
    (hfound : found (codec texts) (answer server s₀ (checkPath name nameSpace)) = .ok r) :
    LastWrite server (codec texts) (checkPath name nameSpace) s₀ r
      (updateFound texts name phase checkedUrl lastCheckTime r) := by
  cases hobject : server.objects s₀ (checkPath name nameSpace) with
  | none =>
    rw [found_none hobject] at hfound
    cases hfound
    exact Or.inl ⟨_, rfl⟩
  | some o =>
    rw [found_check hobject] at hfound
    cases hfound
    rw [updateFound_readCheck]
    refine Or.inr ⟨_, _, rfl, fun reply => ⟨_, Prog.result_ofExcept _⟩, fun s hlater => ?_⟩
    by_cases hsame : server.objects s (checkPath name nameSpace) = some o
    · exact Or.inl (found_check hsame)
    · have hnames : Names ((codec texts).toJObject (newCheck texts (checkPath name nameSpace) o phase
          checkedUrl lastCheckTime)) o := ⟨rfl, rfl⟩
      obtain ⟨code, hrefused⟩ := overwrite_refused (.replaceStatus _ _) ⟨rfl, rfl⟩ hobject hlater
        hsame hnames
      exact Or.inr ⟨code, hrefused, rfl⟩

/-- **An update by name acts as one call** on the check. -/
theorem updateStartusByName_isCall : IsCall server (checkPath name nameSpace)
    (updateStartusByName texts name nameSpace phase checkedUrl lastCheckTime) :=
  fun _ _ => atomic_getAsync_bind createResourceDefinition_healthCheckResource
    fun _ _ hfound => updateFound_lastWrite hfound

/-! ## An update that runs alone -/

/-- The status that an update leaves on the server. -/
def storedStatus (texts : Texts) (phase : String) (checkedUrl : Option String)
    (lastCheckTime : Option DateTime) (old : Option HealthCheckResourceStatus) : HealthCheckResourceStatus :=
  pruneStatus (setStatus texts phase checkedUrl lastCheckTime (old.map (readStatus texts)))

/-- The object `o'` is the check `o`, perhaps with another status. -/
structure SameCheck (o o' : StoredCheck) : Prop where
  uid : o'.uid = o.uid
  main : o'.content.main = o.content.main

theorem SameCheck.refl (o : StoredCheck) : SameCheck o o := ⟨rfl, rfl⟩

theorem SameCheck.trans {o₁ o₂ o₃ : StoredCheck} (h : SameCheck o₁ o₂) (h' : SameCheck o₂ o₃) :
    SameCheck o₁ o₃ :=
  ⟨h'.uid.trans h.uid, h'.main.trans h.main⟩

theorem admitted_served {content content' : HealthCheckContent}
    (h : (served texts).admitted content = some content') :
    content' = ⟨content.main, content.status.map pruneStatus⟩ := by
  unfold served at h
  simp only at h
  split at h
  · cases h
    rfl
  · cases h

/-- A path of checks is not served, or it is by the definition of the chart. -/
theorem servedAt_checkPath (hserves : Serves texts server) (name nameSpace : String) :
    servedAt server.served (checkPath name nameSpace) = none ∨
      servedAt server.served (checkPath name nameSpace) = some (served texts) := by
  unfold servedAt
  rw [show server.served (checkPath name nameSpace).group (checkPath name nameSpace).version
    (checkPath name nameSpace).plural = some (served texts) from hserves]
  simp only
  split
  · exact Or.inr rfl
  · exact Or.inl rfl

/-- The status of the check has been written, and nothing else. -/
structure WroteStatus (server : HealthCheckServer) (path : ResourcePath)
    (status : Option HealthCheckResourceStatus) (o o' : StoredCheck) (s' : server.Store) : Prop where
  object : server.objects s' path = some o'
  same : SameCheck o o'
  status : o'.content.status = status.map pruneStatus

/-- The server refuses to write a status, or writes it to a check that is there. -/
theorem replaceStatus_cases (hserves : Serves texts server) (s : server.Store)
    (name nameSpace : String)
    (body : JObject (Option HealthCheckResourceSpec) HealthCheckResourceStatus) :
    (∃ code, server.exec s (.replaceStatus (checkPath name nameSpace) body) = (.error code, s)) ∨
      ∃ o o' s', server.objects s (checkPath name nameSpace) = some o ∧
        WroteStatus server (checkPath name nameSpace) body.content.status o o' s' ∧
        server.exec s (.replaceStatus (checkPath name nameSpace) body) =
          (.ok (o'.json (checkPath name nameSpace)), s') := by
  have hoverwrites : (ApiRequest.replaceStatus (checkPath name nameSpace) body).Overwrites
      (checkPath name nameSpace) body := ⟨rfl, rfl⟩
  cases hreply : (server.exec s (.replaceStatus (checkPath name nameSpace) body)).1 with
  | error code => exact Or.inl ⟨code, exec_error hreply⟩
  | ok answer =>
    have hnot : ¬ ∃ code,
        (server.exec s (.replaceStatus (checkPath name nameSpace) body)).1 = .error code := by
      rintro ⟨code, hcode⟩
      cases hreply.symm.trans hcode
    rcases servedAt_checkPath hserves name nameSpace with hnone | hserved
    · exact absurd (server.overwrite_unserved s _ _ _ hoverwrites hnone) hnot
    · cases hobject : server.objects s (checkPath name nameSpace) with
      | none => exact absurd (server.overwrite_absent s _ _ _ hoverwrites hobject) hnot
      | some o =>
        obtain ⟨o', ho', rfl, huid, hadmitted⟩ :=
          server.status_written s _ body _ o answer hserved rfl hobject hreply
        have hcontent := admitted_served hadmitted
        refine Or.inr ⟨o, o', _, rfl, ⟨ho', ⟨huid, ?_⟩, ?_⟩, Prod.ext hreply rfl⟩
        · rw [hcontent]
        · rw [hcontent]

theorem run_updateStartusByName_eq {o : StoredCheck}
    (h : server.objects s (checkPath name nameSpace) = some o) :
    run server.exec (updateStartusByName texts name nameSpace phase checkedUrl lastCheckTime) s =
      let healthCheck := newCheck texts (checkPath name nameSpace) o phase checkedUrl lastCheckTime
      let reply := server.exec s
        (.replaceStatus (checkPath name nameSpace) ((codec texts).toJObject healthCheck))
      ((written (codec texts) healthCheck reply.1).map Prod.fst, reply.2) := by
  unfold updateStartusByName getHealthCheckResourceAsync
  rw [run_getAsync_bind createResourceDefinition_healthCheckResource]
  have hfound : found (codec texts) (answer server s (resourcePath crd (some nameSpace) name)) =
      .ok (some (readCheck texts (checkPath name nameSpace) o)) := found_check h
  rw [andThen_ok hfound, updateFound_readCheck]
  exact run_of_result (Prog.result_ofExcept _)

/-- The arguments of an update by name. -/
structure UpdateCall where
  name : String
  nameSpace : String
  phase : String
  checkedUrl : Option String
  lastCheckTime : Option DateTime

namespace UpdateCall

def program (texts : Texts) (call : UpdateCall) : HealthCheckApi HealthCheckResource :=
  updateStartusByName texts call.name call.nameSpace call.phase call.checkedUrl call.lastCheckTime

def target (call : UpdateCall) : ResourcePath := checkPath call.name call.nameSpace

end UpdateCall

/-- The status is one that the call has set. -/
def Sets (texts : Texts) (call : UpdateCall) (status : Option HealthCheckResourceStatus) : Prop :=
  ∃ old, status =
    some (storedStatus texts call.phase call.checkedUrl call.lastCheckTime old)

/-- What a status shows of the call that has set it: its arguments, and of no other call. -/
theorem Sets.shows {call : UpdateCall} {status : Option HealthCheckResourceStatus}
    (h : Sets texts call status) : ∃ shown, status = some shown ∧ shown.phase = some call.phase ∧
      shown.checkedUrl = call.checkedUrl ∧
      ∀ t, call.lastCheckTime = some t → shown.lastCheckTime = some (texts.timeText t) := by
  obtain ⟨old, rfl⟩ := h
  refine ⟨_, rfl, rfl, rfl, fun t ht => ?_⟩
  unfold storedStatus setStatus
  rw [ht]
  rfl

/-- What updates leave of the object at a path; `Returned i call` are the updates that have
returned. -/
structure Leaves (texts : Texts) (server : HealthCheckServer) (Returned : ℕ → UpdateCall → Prop)
    (path : ResourcePath) (s s' : server.Store) : Prop where
  absent : server.objects s path = none → server.objects s' path = none
  present : ∀ o, server.objects s path = some o → ∃ o', server.objects s' path = some o' ∧
    SameCheck o o' ∧
    ((o'.content.status = o.content.status ∧ ∀ i call, Returned i call → call.target ≠ path) ∨
      ∃ i call, Returned i call ∧ call.target = path ∧ Sets texts call o'.content.status)

theorem Leaves.refl {path : ResourcePath} (s : server.Store) :
    Leaves texts server (fun _ _ => False) path s s :=
  ⟨fun h => h, fun o ho => ⟨o, ho, .refl o, Or.inl ⟨rfl, fun _ _ h => h.elim⟩⟩⟩

theorem Leaves.trans {Returned Returned' : ℕ → UpdateCall → Prop} {path : ResourcePath}
    {a b c : server.Store} (hab : Leaves texts server Returned path a b)
    (hbc : Leaves texts server Returned' path b c) :
    Leaves texts server (fun i call => Returned i call ∨ Returned' i call) path a c := by
  refine ⟨fun h => hbc.absent (hab.absent h), fun o ho => ?_⟩
  obtain ⟨o₁, ho₁, hsame₁, hstatus₁⟩ := hab.present o ho
  obtain ⟨o₂, ho₂, hsame₂, hstatus₂⟩ := hbc.present o₁ ho₁
  refine ⟨o₂, ho₂, hsame₁.trans hsame₂, ?_⟩
  -- the later updates decide, unless none of them has returned
  rcases hstatus₂ with ⟨hkept, hnone⟩ | ⟨i, call, hreturned, htarget, hsets⟩
  · rcases hstatus₁ with ⟨hkept₁, hnone₁⟩ | ⟨i, call, hreturned, htarget, hsets⟩
    · refine Or.inl ⟨hkept.trans hkept₁, fun i call h => ?_⟩
      rcases h with h | h
      · exact hnone₁ i call h
      · exact hnone i call h
    · exact Or.inr ⟨i, call, Or.inl hreturned, htarget, by rwa [hkept]⟩
  · exact Or.inr ⟨i, call, Or.inr hreturned, htarget, hsets⟩

theorem Leaves.congr {Returned Returned' : ℕ → UpdateCall → Prop} {path : ResourcePath}
    (h : Leaves texts server Returned path s s')
    (hiff : ∀ i call, Returned i call ↔ Returned' i call) :
    Leaves texts server Returned' path s s' := by
  have heq : Returned = Returned' := funext fun i => funext fun call => propext (hiff i call)
  rwa [← heq]

/-- The path of the check of the update with the given index. -/
def targetAt (calls : List UpdateCall) (i : ℕ) : ResourcePath :=
  (calls[i]?.map UpdateCall.target).getD (checkPath "" "")

theorem isCall_program {calls : List UpdateCall} {i : ℕ} {p : HealthCheckApi HealthCheckResource}
    (h : (calls.map (UpdateCall.program texts))[i]? = some p) :
    IsCall server (targetAt calls i) p := by
  rw [List.getElem?_map, Option.map_eq_some_iff] at h
  obtain ⟨call, hcall, rfl⟩ := h
  unfold targetAt
  rw [hcall]
  exact updateStartusByName_isCall

/-- The texts of a reader that leaves texts as they are. -/
def plainTexts : Texts := ⟨fun text => text, fun _ => "2024-01-01T00:00:00Z", fun _ => true⟩

/-- The definition of the chart, and nothing else. -/
def chartServed : Served (Option HealthCheckResourceSpec) HealthCheckResourceStatus :=
  fun group version plural =>
    if group = crd.group ∧ version = crd.version ∧ plural = crd.plural then some (served plainTexts)
    else none

def chartServer : HealthCheckServer := versionedServer chartServed

theorem serves_chartServer : Serves plainTexts chartServer := by
  show chartServed crd.group crd.version crd.plural = some (served plainTexts)
  exact if_pos ⟨rfl, rfl, rfl⟩

/-- A server with one check. -/
def oneCheck : chartServer.Store :=
  Versioned.Store.empty.create (checkPath "api" "dev")
    ⟨some ⟨some "api", some "* * * * *", none, none, none, none⟩, none⟩

def twoUpdates : List UpdateCall :=
  [⟨"api", "dev", "Healthy", some "http://api.dev/", some .minValue⟩,
    ⟨"api", "dev", "UnHealthy", some "http://api.dev/", some .minValue⟩]

/-- The check of the update is there, and it passes the validation with the status that the update
writes. -/
def Updatable (texts : Texts) (server : HealthCheckServer) (s : server.Store) (call : UpdateCall) :
    Prop :=
  isNullOrWhiteSpace (some call.nameSpace) = false ∧ ∃ o, server.objects s call.target = some o ∧
    specValid o.content.main = true ∧ statusValid texts (some (setStatus texts call.phase
      call.checkedUrl call.lastCheckTime (o.content.status.map (readStatus texts)))) = true

theorem run_program_ok (hserves : Serves texts server) {call : UpdateCall}
    (h : Updatable texts server s call) :
    ∃ r, (run server.exec (call.program texts) s).1 = .ok r := by
  obtain ⟨hnameSpace, o, hobject, hspec, hstatus⟩ := h
  have hserved : servedAt server.served call.target = some (served texts) := by
    unfold Serves at hserves
    unfold servedAt UpdateCall.target checkPath resourcePath
    simp only [hserves, hnameSpace]
    rfl
  let healthCheck :=
    newCheck texts call.target o call.phase call.checkedUrl call.lastCheckTime
  have hadmitted : (served texts).admitted
      ⟨o.content.main, ((codec texts).toJObject healthCheck).content.status⟩ ≠ none := by
    have hstatus' : statusValid texts ((codec texts).toJObject healthCheck).content.status = true :=
      hstatus
    unfold served
    simp only
    rw [hspec, Bool.true_and, if_pos hstatus']
    exact Option.some_ne_none _
  obtain ⟨answer, hanswer⟩ := server.status_accepted s call.target
    ((codec texts).toJObject healthCheck) (served texts) o hserved rfl hobject ⟨rfl, rfl⟩ hadmitted
  unfold UpdateCall.program
  rw [run_updateStartusByName_eq hobject]
  show ∃ r, (written (codec texts) healthCheck (server.exec s (.replaceStatus call.target
    ((codec texts).toJObject healthCheck))).1).map Prod.fst = .ok r
  rw [hanswer]
  exact ⟨_, rfl⟩

/-- **The first of competing updates to end returns**: an update can be refused only because
another one has returned. -/
theorem updates_progress (hserves : Serves texts server) {calls : List UpdateCall}
    (hcalls : ∀ call ∈ calls, Updatable texts server s call) {schedule : List ℕ}
    {pool : server.Store × List (HealthCheckApi HealthCheckResource)}
    (hrun : Runs.run (poolStep server.exec) schedule
      (s, calls.map (UpdateCall.program texts)) = some pool) {i : ℕ}
    {result : Except ClientExn HealthCheckResource} (hended : resultAt pool.2 i = some result) :
    ∃ j r, resultAt pool.2 j = some (.ok r) := by
  refine progress_of_calls (fun i p hp => isCall_program hp) ?_ hrun hended
  intro p hp
  obtain ⟨call, hcall, rfl⟩ := List.mem_map.1 hp
  exact run_program_ok hserves (hcalls call hcall)

theorem twoUpdates_progress : ∃ pool : chartServer.Store × List (HealthCheckApi HealthCheckResource),
    Runs.run (poolStep chartServer.exec) [0, 1, 1, 0]
      (oneCheck, twoUpdates.map (UpdateCall.program plainTexts)) = some pool ∧
    ∃ j r, resultAt pool.2 j = some (.ok r) := by
  have hended : ((Runs.run (poolStep chartServer.exec) [0, 1, 1, 0]
      (oneCheck, twoUpdates.map (UpdateCall.program plainTexts))).bind
        fun pool => resultAt pool.2 0).isSome = true := by decide +kernel
  have hcalls : ∀ call ∈ twoUpdates, Updatable plainTexts chartServer oneCheck call := by
    intro call hcall
    have hblank : isNullOrWhiteSpace (some "dev") = false := by decide +kernel
    simp only [twoUpdates, List.mem_cons, List.not_mem_nil, or_false] at hcall
    rcases hcall with rfl | rfl
    · exact ⟨hblank, _, rfl, rfl, rfl⟩
    · exact ⟨hblank, _, rfl, rfl, rfl⟩
  obtain ⟨result, hresult⟩ := Option.isSome_iff_exists.1 hended
  obtain ⟨pool, hpool, hended⟩ := Option.bind_eq_some_iff.1 hresult
  exact ⟨pool, hpool, updates_progress serves_chartServer hcalls hpool hended⟩

end Sentinel.K8sHealthCheckResourceClient
