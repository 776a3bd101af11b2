import Sentinel.Workers.HealthCheckPipeline

/-!
# Accounting for the checks

Every handler of the pipeline keeps a log of what it has done: what it published, received, saved
and wrote.  The logs of all handlers together account for what the bus has been given, and for what
is in the database and on the API server, in whatever order the handlers ran.

* `logs_addAsync`, `logs_updateStartusByName` — the laws of the methods that the handlers call.
* `logs_party` — the law of a handler: the log is a beginning of what a check leads to, and all of it
  once the handler has returned.
-/

set_option autoImplicit false

namespace Sentinel.HealthCheckPipeline

open Commands

/-! ## Additions to a collection -/

section Additions

open MongoBaseRepo

variable {T Id : Type} {repo : MongoBaseRepo T Id} {server : MongoServer repo.cls}

/-- The documents have been added, and nothing else has changed. -/
def Added (server : MongoServer repo.cls) (s : server.Store) (added : List T) (s' : server.Store) :
    Prop :=
  server.documents s' = server.documents s + ↑added

theorem added_reads (s : server.Store) {command : MongoCommand T Id} (h : command.Reads) :
    Added server s [] (server.exec s command).2 := by
  unfold Added
  rw [server.reads s command h, Multiset.coe_nil, add_zero]

theorem added_insertion {s s' : server.Store} {item : T}
    (h : server.documents s' = item ::ₘ server.documents s) : Added server s [item] s' := by
  unfold Added
  rw [h, Multiset.coe_singleton, add_comm, Multiset.singleton_add]

theorem logs_create (timeSeries : Bool) : Logs server.exec (Added server)
    (fun _ log => log = []) (.call (.createCollection timeSeries) .ofExcept : Mongo T Id Unit) [] := by
  refine Logs.command rfl fun s => ⟨[], added_reads s trivial, ?_⟩
  cases (server.exec s (.createCollection timeSeries)).1 with
  | ok u => rfl
  | error e => rfl

/-- Asking for the collection adds nothing. -/
theorem logs_items : Logs server.exec (Added server) (fun _ log => log = []) repo.items [] := by
  refine Logs.command rfl fun s => ⟨[], added_reads s trivial, ?_⟩
  cases (server.exec s .listCollections).1 with
  | error e => rfl
  | ok check =>
    show Logs _ _ _ (if (!check) = true then _ else _) _
    split
    · split
      · unfold createTimeSeriesCollection
        split
        · rfl
        · exact logs_create true
      · exact logs_create false
    · rfl

/-- The item has been added if the method has returned, and perhaps if it has failed. -/
def AddLaw {ε α : Type} (item : T) : Option (Except ε α) → List T → Prop
  | none, log => log = []
  | some (.ok _), log => log = [item]
  | some (.error _), log => log = [] ∨ log = [item]

/-- **The law of `AddAsync`.** -/
theorem logs_addAsync (item : T) :
    Logs server.exec (Added server) (AddLaw item) (repo.addAsync item) [] := by
  refine logs_items.bind (fun _ h => h) (fun _ _ h => Or.inl h) fun _ log hlog => ?_
  subst hlog
  refine Logs.command rfl fun s => ?_
  have hinserts := server.inserts s item
  cases hreply : (server.exec s (.insertOne item)).1 with
  | ok u =>
    rw [hreply] at hinserts
    exact ⟨[item], added_insertion hinserts, rfl⟩
  | error e =>
    rw [hreply] at hinserts
    -- the answer may have been lost
    rcases hinserts with hsame | ⟨u, hinserted⟩
    · refine ⟨[], ?_, Or.inl rfl⟩
      unfold Added
      rw [hsame, Multiset.coe_nil, add_zero]
    · exact ⟨[item], added_insertion hinserted, Or.inr rfl⟩

end Additions

/-! ## Writes of a status -/

section Writes

open KubernetesClient K8sHealthCheckResourceClient

/-- A status that has been sent to a path. -/
abbrev Write := ResourcePath × HealthCheckResourceStatus

variable {texts : Texts} {server : HealthCheckServer} {s s' : server.Store}
  {writes writes' : List Write}

/-- The checks are still there and what they were, each with the status it had if none has been
written, or else with one of those that have been written. -/
def Wrote (server : HealthCheckServer) (s : server.Store) (writes : List Write)
    (s' : server.Store) : Prop :=
  ∀ path, (server.objects s path = none → server.objects s' path = none) ∧
    ∀ o, server.objects s path = some o → ∃ o', server.objects s' path = some o' ∧ SameCheck o o' ∧
      ((o'.content.status = o.content.status ∧ ∀ w ∈ writes, w.1 ≠ path) ∨
        ∃ w ∈ writes, w.1 = path ∧ o'.content.status = some (pruneStatus w.2))

theorem Wrote.nil (s : server.Store) : Wrote server s [] s :=
  fun _ => ⟨fun h => h, fun o ho => ⟨o, ho, .refl o, Or.inl ⟨rfl, by simp⟩⟩⟩

theorem Wrote.append {s₁ s₂ s₃ : server.Store} (h : Wrote server s₁ writes s₂)
    (h' : Wrote server s₂ writes' s₃) : Wrote server s₁ (writes ++ writes') s₃ := by
  refine fun path => ⟨fun hnone => (h' path).1 ((h path).1 hnone), fun o ho => ?_⟩
  obtain ⟨o₁, ho₁, hsame, hstatus⟩ := (h path).2 o ho
  obtain ⟨o₂, ho₂, hsame', hstatus'⟩ := (h' path).2 o₁ ho₁
  refine ⟨o₂, ho₂, hsame.trans hsame', ?_⟩
  rcases hstatus' with ⟨hkept, hnone'⟩ | ⟨w, hw, hpath, hwritten⟩
  · rcases hstatus with ⟨hkept₁, hnone⟩ | ⟨w, hw, hpath, hwritten⟩
    · refine Or.inl ⟨hkept.trans hkept₁, fun w hw => ?_⟩
      rcases List.mem_append.1 hw with hw | hw
      · exact hnone w hw
      · exact hnone' w hw
    · exact Or.inr ⟨w, List.mem_append_left _ hw, hpath, hkept.trans hwritten⟩
  · exact Or.inr ⟨w, List.mem_append_right _ hw, hpath, hwritten⟩

theorem Wrote.perm (h : Wrote server s writes s') (hperm : writes.Perm writes') :
    Wrote server s writes' s' := by
  refine fun path => ⟨(h path).1, fun o ho => ?_⟩
  obtain ⟨o', ho', hsame, hstatus⟩ := (h path).2 o ho
  simp only [hperm.mem_iff] at hstatus
  exact ⟨o', ho', hsame, hstatus⟩

/-- One status has been written, and the objects of other paths are as they were. -/
theorem wrote_one {path : ResourcePath} {o o' : StoredCheck} {status : HealthCheckResourceStatus}
    (ho : server.objects s path = some o)
    (h : WroteStatus server path (some status) o o' s')
    (hother : ∀ path', path' ≠ path → server.objects s' path' = server.objects s path') :
    Wrote server s [(path, status)] s' := by
  intro path'
  by_cases hpath : path' = path
  · subst hpath
    refine ⟨fun hnone => absurd (ho.symm.trans hnone) (Option.some_ne_none o), fun o₁ ho₁ => ?_⟩
    cases ho.symm.trans ho₁
    exact ⟨o', h.object, h.same, Or.inr ⟨_, List.mem_singleton_self _, rfl, h.status⟩⟩
  · rw [hother path' hpath]
    refine ⟨fun h => h, fun o₁ ho₁ => ⟨o₁, ho₁, .refl o₁, Or.inl ⟨rfl, ?_⟩⟩⟩
    rintro w hw rfl
    rw [List.mem_singleton] at hw
    exact hpath (by rw [hw])

/-- The status has been written iff the method has returned. -/
def UpdateLaw {ε α : Type} (texts : Texts) (call : UpdateCall) :
    Option (Except ε α) → List Write → Prop
  | some (.ok _), log => ∃ old : Option HealthCheckResourceStatus, log = [(call.target,
      setStatus texts call.phase call.checkedUrl call.lastCheckTime (old.map (readStatus texts)))]
  | _, log => log = []

/-- With the resource in hand, the method writes the status unless the server refuses it. -/
theorem logs_updateFound (hserves : Serves texts server) (call : UpdateCall) (o : StoredCheck) :
    Logs server.exec (Wrote server) (UpdateLaw texts call)
      (updateFound texts call.name call.phase call.checkedUrl call.lastCheckTime
        (some (readCheck texts (checkPath call.name call.nameSpace) o))) [] := by
  rw [updateFound_readCheck]
  let path := checkPath call.name call.nameSpace
  let check := newCheck texts path o call.phase call.checkedUrl call.lastCheckTime
  let body := (codec texts).toJObject check
  refine Logs.command rfl fun s => ?_
  show ∃ es, Wrote server s es (server.exec s (.replaceStatus path body)).2 ∧ Logs _ _ _
    (Prog.ofExcept ((written (codec texts) check
      (server.exec s (.replaceStatus path body)).1).map Prod.fst)) _
  have hother := fun path' => server.elsewhere s (.replaceStatus path body) path'
  rcases replaceStatus_cases hserves s call.name call.nameSpace body with
    ⟨code, hrefused⟩ | ⟨o₁, o', s', ho₁, hwrote, hexec⟩
  · rw [hrefused]
    exact ⟨[], .nil s, rfl⟩
  · rw [hexec] at hother ⊢
    exact ⟨[_], wrote_one ho₁ hwrote hother, _, rfl⟩

/-- **The law of `UpdateStartusAsync`.** -/
theorem logs_updateStartusByName (hserves : Serves texts server) (call : UpdateCall) :
    Logs server.exec (Wrote server) (UpdateLaw texts call) (call.program texts) [] := by
  unfold UpdateCall.program updateStartusByName getHealthCheckResourceAsync
  rw [getAsync_bind createResourceDefinition_healthCheckResource]
  refine Logs.command rfl fun s => ⟨[], ?_⟩
  rw [exec_get]
  refine ⟨.nil s, ?_⟩
  show Logs _ _ _ (Prog.ofExcept (found (codec texts) (answer server s call.target)) >>= _) _
  cases hobject : server.objects s call.target with
  | none =>
    rw [found_none hobject]
    rfl
  | some o =>
    rw [found_check hobject]
    exact logs_updateFound hserves call o

end Writes

/-! ## The log of a handler -/

/-- What a handler has done with a message, a document, or a status. -/
inductive Event where
  | published (check : IsAliveAndWellResultListWithHealthCheck)
  | received (check : IsAliveAndWellResultListWithHealthCheck)
  | series (timeSerie : IsAliveAndWellResultTimeSerie)
  | saved (result : IsAliveAndWellResult)
  | wrote (write : Write)

namespace Event

def message : Event → Option IsAliveAndWellResultListWithHealthCheck
  | .published check => some check
  | _ => none

def timeSerie : Event → Option IsAliveAndWellResultTimeSerie
  | .series timeSerie => some timeSerie
  | _ => none

def result : Event → Option IsAliveAndWellResult
  | .saved result => some result
  | _ => none

def write : Event → Option Write
  | .wrote write => some write
  | _ => none

end Event

variable {system : System} {s s' : State system} {log : List Event}

/-- The values of the events that have one, in any order. -/
def collect {α : Type} (pick : Event → Option α) (log : List Event) : Multiset α :=
  log.filterMap pick

theorem add_collect_nil {α : Type} (m : Multiset α) (pick : Event → Option α) :
    m = m + collect pick [] :=
  (add_zero m).symm

theorem collect_append {α : Type} (pick : Event → Option α) (log log' : List Event) :
    collect pick (log ++ log') = collect pick log + collect pick log' := by
  unfold collect
  rw [List.filterMap_append, Multiset.coe_add]

theorem collect_perm {α : Type} (pick : Event → Option α) {log log' : List Event}
    (h : log.Perm log') : collect pick log = collect pick log' :=
  Multiset.coe_eq_coe.2 (h.filterMap pick)

/-- The events account for what the bus has been given, and for what is in the database and on the API
server; what was received has been published. -/
structure Accounted (s : State system) (log : List Event) (s' : State system) : Prop where
  published : system.bus.published s'.bus = system.bus.published s.bus + collect Event.message log
  received : ∀ check, .received check ∈ log → check ∈ system.bus.published s'.bus
  timeSeries : system.seriesServer.documents s'.timeSeries =
    system.seriesServer.documents s.timeSeries + collect Event.timeSerie log
  results : system.resultServer.documents s'.results =
    system.resultServer.documents s.results + collect Event.result log
  checks : Wrote system.server s.checks (log.filterMap Event.write) s'.checks

theorem Accounted.nil (s : State system) : Accounted s [] s :=
  ⟨add_collect_nil _ _, by simp, add_collect_nil _ _, add_collect_nil _ _, Wrote.nil s.checks⟩

theorem Accounted.append {s₁ s₂ s₃ : State system} {log log' : List Event}
    (h : Accounted s₁ log s₂) (h' : Accounted s₂ log' s₃) : Accounted s₁ (log ++ log') s₃ := by
  refine ⟨?_, fun check hcheck => ?_, ?_, ?_, ?_⟩
  · rw [collect_append, h'.published, h.published, add_assoc]
  · rcases List.mem_append.1 hcheck with hcheck | hcheck
    · rw [h'.published]
      exact Multiset.mem_add.2 (Or.inl (h.received check hcheck))
    · exact h'.received check hcheck
  · rw [collect_append, h'.timeSeries, h.timeSeries, add_assoc]
  · rw [collect_append, h'.results, h.results, add_assoc]
  · rw [List.filterMap_append]
    exact h.checks.append h'.checks

theorem accounting : Accounting (@Accounted system) where
  nil := Accounted.nil
  append _ _ _ _ _ h h' := h.append h'
  perm s s' log log' h hperm := by
    refine ⟨?_, fun check hcheck => h.received check (hperm.mem_iff.2 hcheck), ?_, ?_,
      h.checks.perm (hperm.filterMap _)⟩
    · simpa only [collect_perm _ hperm] using h.published
    · simpa only [collect_perm _ hperm] using h.timeSeries
    · simpa only [collect_perm _ hperm] using h.results

/-! ## The commands -/

variable {check : IsAliveAndWellResultListWithHealthCheck}

theorem accounted_publish (s : State system) :
    Accounted s [.published check] (exec system s (.publish check)).2 := by
  refine ⟨?_, by simp, add_collect_nil _ Event.timeSerie, add_collect_nil _ Event.result,
    Wrote.nil s.checks⟩
  exact (system.bus.published_publish s.bus check).trans (Multiset.add_comm {check} _)

theorem accounted_receive (s : State system) :
    Accounted s ((system.bus.receive s.bus).1.toList.map .received)
      (exec system s .receive).2 := by
  have hpublished := system.bus.published_receive s.bus
  cases hreceive : (system.bus.receive s.bus).1 with
  | none =>
    exact ⟨hpublished.trans (add_collect_nil _ _), by simp, add_collect_nil _ _,
      add_collect_nil _ _, Wrote.nil s.checks⟩
  | some first =>
    refine ⟨hpublished.trans (add_collect_nil _ Event.message), fun check hcheck => ?_,
      add_collect_nil _ Event.timeSerie, add_collect_nil _ Event.result, Wrote.nil s.checks⟩
    cases List.mem_singleton.1 hcheck
    show first ∈ system.bus.published (system.bus.receive s.bus).2
    rw [hpublished]
    exact system.bus.receive_published s.bus first hreceive

/-- Events without such a value. -/
theorem filterMap_none {α β : Type} {pick : Event → Option α} {event : β → Event}
    (h : ∀ b, pick (event b) = none) (l : List β) : (l.map event).filterMap pick = [] := by
  rw [List.filterMap_map, List.filterMap_eq_nil_iff]
  exact fun b _ => h b

theorem filterMap_some {β : Type} (pick : Event → Option β) {event : β → Event}
    (h : ∀ b, pick (event b) = some b) (l : List β) : (l.map event).filterMap pick = l := by
  rw [List.filterMap_map, show pick ∘ event = some from funext h, List.filterMap_some]

theorem collect_none {α β : Type} {pick : Event → Option α} {event : β → Event}
    (h : ∀ b, pick (event b) = none) (l : List β) : collect pick (l.map event) = 0 :=
  congrArg Multiset.ofList (filterMap_none h l)

theorem collect_some {β : Type} (pick : Event → Option β) {event : β → Event}
    (h : ∀ b, pick (event b) = some b) (l : List β) : collect pick (l.map event) = ↑l :=
  congrArg Multiset.ofList (filterMap_some pick h l)

/-- What a command that leaves the bus alone does is accounted for by events without messages. -/
theorem accounted_stores {β : Type} {event : β → Event} {added : List β}
    (hmessage : ∀ b, Event.message (event b) = none) (hreceived : ∀ b check, event b ≠ .received check)
    (hbus : s'.bus = s.bus)
    (htimeSeries : system.seriesServer.documents s'.timeSeries =
      system.seriesServer.documents s.timeSeries + collect Event.timeSerie (added.map event))
    (hresults : system.resultServer.documents s'.results =
      system.resultServer.documents s.results + collect Event.result (added.map event))
    (hchecks : Wrote system.server s.checks ((added.map event).filterMap Event.write) s'.checks) :
    Accounted s (added.map event) s' := by
  refine ⟨?_, fun check hcheck => ?_, htimeSeries, hresults, hchecks⟩
  · rw [collect_none hmessage added, hbus, add_zero]
  · obtain ⟨b, -, hb⟩ := List.mem_map.1 hcheck
    exact absurd hb (hreceived b check)

theorem accounted_series (s : State system)
    (command : MongoCommand IsAliveAndWellResultTimeSerie ObjectId)
    (added : List IsAliveAndWellResultTimeSerie)
    (h : Added system.seriesServer s.timeSeries added
      (system.seriesServer.exec s.timeSeries command).2) :
    Accounted s (added.map .series) (exec system s (.series command)).2 := by
  refine accounted_stores (fun _ => rfl) (fun _ _ => nofun) rfl ?_ ?_ ?_
  · rw [collect_some Event.timeSerie fun _ => rfl]
    exact h
  · rw [collect_none (fun _ => rfl), add_zero]
    rfl
  · rw [filterMap_none fun _ => rfl]
    exact .nil s.checks

theorem accounted_results (s : State system) (command : MongoCommand IsAliveAndWellResult String)
    (added : List IsAliveAndWellResult)
    (h : Added system.resultServer s.results added
      (system.resultServer.exec s.results command).2) :
    Accounted s (added.map .saved) (exec system s (.results command)).2 := by
  refine accounted_stores (fun _ => rfl) (fun _ _ => nofun) rfl ?_ ?_ ?_
  · rw [collect_none (fun _ => rfl), add_zero]
    rfl
  · rw [collect_some Event.result fun _ => rfl]
    exact h
  · rw [filterMap_none fun _ => rfl]
    exact .nil s.checks

theorem accounted_kubernetes (s : State system) (request : Request) (writes : List Write)
    (h : Wrote system.server s.checks writes (system.server.exec s.checks request).2) :
    Accounted s (writes.map .wrote) (exec system s (.kubernetes request)).2 := by
  refine accounted_stores (fun _ => rfl) (fun _ _ => nofun) rfl ?_ ?_ ?_
  · rw [collect_none (fun _ => rfl), add_zero]
    rfl
  · rw [collect_none (fun _ => rfl), add_zero]
    rfl
  · rw [filterMap_some Event.write fun _ => rfl]
    exact h

/-! ## The laws of the handlers -/

section Laws

variable {α : Type} {law : Option (Except PipelineExn α) → List Event → Prop}

theorem logs_onSeries {program : Mongo IsAliveAndWellResultTimeSerie ObjectId α}
    (h : Logs system.seriesServer.exec (Added system.seriesServer)
      (fun r l => law (r.map (Except.mapError .mongo)) (log ++ l.map .series)) program []) :
    Logs (exec system) Accounted law (onSeries program) log := by
  rw [← List.append_nil log]
  exact Logs.lift State.timeSeries Event.series (fun _ _ => rfl) accounted_series h

theorem logs_onResults {program : Mongo IsAliveAndWellResult String α}
    (h : Logs system.resultServer.exec (Added system.resultServer)
      (fun r l => law (r.map (Except.mapError .mongo)) (log ++ l.map .saved)) program []) :
    Logs (exec system) Accounted law (onResults program) log := by
  rw [← List.append_nil log]
  exact Logs.lift State.results Event.saved (fun _ _ => rfl) accounted_results h

theorem logs_onKubernetes {program : K8sHealthCheckResourceClient.HealthCheckApi α}
    (h : Logs system.server.exec (Wrote system.server)
      (fun r l => law (r.map (Except.mapError .client)) (log ++ l.map .wrote)) program []) :
    Logs (exec system) Accounted law (onKubernetes program) log := by
  rw [← List.append_nil log]
  exact Logs.lift State.checks Event.wrote (fun _ _ => rfl) accounted_kubernetes h

/-- The log goes on with the event if the program has returned, and perhaps if it has failed. -/
def After {ε : Type} (log : List Event) (event : Event) : Option (Except ε α) → List Event → Prop
  | none, log' => log' = log
  | some (.ok _), log' => log' = log ++ [event]
  | some (.error _), log' => log' = log ∨ log' = log ++ [event]

theorem after_of_addLaw {β : Type} {item : β} {event : β → Event} {exn : MongoExn → PipelineExn}
    {r : Option (Except MongoExn α)} {l : List β} (h : AddLaw item r l) :
    After log (event item) (r.map (Except.mapError exn)) (log ++ l.map event) := by
  rcases r with _ | e | a
  · obtain rfl : l = [] := h
    exact List.append_nil log
  · rcases h with rfl | rfl
    · exact Or.inl (List.append_nil log)
    · exact Or.inr rfl
  · obtain rfl : l = [item] := h
    rfl

theorem logs_addSeries (timeSerie : IsAliveAndWellResultTimeSerie) :
    Logs (exec system) Accounted (After log (.series timeSerie))
      (onSeries (system.seriesRepo.addAsync timeSerie)) log :=
  logs_onSeries ((logs_addAsync timeSerie).mono fun _ _ h => after_of_addLaw h)

theorem logs_addResult (result : IsAliveAndWellResult) :
    Logs (exec system) Accounted (After log (.saved result))
      (onResults (system.resultRepo.addAsync result)) log :=
  logs_onResults ((logs_addAsync result).mono fun _ _ h => after_of_addLaw h)

theorem logs_seriesItems : Logs (exec system) Accounted (fun _ log' => log' = log)
    (onSeries system.seriesRepo.items) log := by
  refine logs_onSeries (logs_items.mono fun _ l h => ?_)
  subst h
  exact List.append_nil log

end Laws

/-- The check that an item leads to, if the handler comes to check it. -/
def checked (system : System) (surroundings : Surroundings) :
    Option ScheduledTaskItem → Option IsAliveAndWellResultListWithHealthCheck
  | some (.healthCheckResourceV1 healthcheck) =>
    if (system.itemText (.healthCheckResourceV1 healthcheck)).length < 200 then none
    else
      match healthcheck.relatedService with
      | none => none
      | some relatedService =>
        match HealthCheckSubscriber.downloadAsync surroundings relatedService healthcheck with
        | .ok (some result) => some ⟨result, healthcheck⟩
        | _ => none
  | _ => none

/-- What is done for a check: it is published, and then it is saved twice. -/
def checkEvents (surroundings : Surroundings) (check : IsAliveAndWellResultListWithHealthCheck) :
    List Event :=
  [.published check,
    .series (fromIsAliveAndWellResult surroundings check.healthCheck check.isAliveAndWellResult),
    .saved check.isAliveAndWellResult]

/-- The log is a beginning of the events, and all of them once the handler has returned. -/
def Begins {ε α : Type} (events : List Event) : Option (Except ε α) → List Event → Prop
  | some (.ok _), log => log = events
  | _, log => log <+: events

theorem Begins.isPrefix {ε α : Type} {events log : List Event} {result : Option (Except ε α)}
    (h : Begins events result log) : log <+: events := by
  rcases result with _ | e | a
  · exact h
  · exact h
  · exact h ▸ List.prefix_refl log

/-- The last thing that is done for a check. -/
theorem begins_of_after {ε α : Type} {events log log' : List Event} {event : Event}
    {result : Option (Except ε α)} (hevents : events = log ++ [event])
    (h : After log event result log') : Begins events result log' := by
  subst hevents
  rcases result with _ | e | a
  · exact h ▸ List.prefix_append _ _
  · rcases h with rfl | rfl
    · exact List.prefix_append _ _
    · exact List.prefix_refl _
  · exact h

/-- The update of the status that is made for a check. -/
def updateCall (system : System) (utcNow : DateTime)
    (check : IsAliveAndWellResultListWithHealthCheck) : K8sHealthCheckResourceClient.UpdateCall where
  name := check.healthCheck.name
  nameSpace := check.healthCheck.nameSpace
  phase := HealthCheckStatusUpdateSubscriber.status system check.isAliveAndWellResult
  checkedUrl := check.isAliveAndWellResult.checkedUrl
  lastCheckTime := some utcNow

/-- The status that is sent for a check that had the status `old`. -/
def sentStatus (system : System) (utcNow : DateTime)
    (check : IsAliveAndWellResultListWithHealthCheck)
    (old : Option K8sHealthCheckResourceClient.HealthCheckResourceStatus) : Write :=
  let call := updateCall system utcNow check
  (call.target, K8sHealthCheckResourceClient.setStatus system.texts call.phase call.checkedUrl
    call.lastCheckTime (old.map (K8sHealthCheckResourceClient.readStatus system.texts)))

/-- The log of a handler of a status update: it receives a check and writes its status. -/
def Updates {ε α : Type} (system : System) (utcNow : DateTime) :
    Option (Except ε α) → List Event → Prop
  | none, log => log = [] ∨ ∃ check, log = [.received check]
  | some (.ok _), log => log = [] ∨ ∃ check old,
      log = [.received check, .wrote (sentStatus system utcNow check old)]
  | some (.error _), log => ∃ check, log = [.received check]

theorem Updates.cases {ε α : Type} {utcNow : DateTime} {result : Option (Except ε α)}
    {log : List Event} (h : Updates system utcNow result log) :
    log = [] ∨ ∃ check, log = [.received check] ∨
      ∃ old, log = [.received check, .wrote (sentStatus system utcNow check old)] := by
  rcases result with _ | e | a
  · exact h.imp_right fun ⟨check, hlog⟩ => ⟨check, Or.inl hlog⟩
  · obtain ⟨check, hlog⟩ := h
    exact Or.inr ⟨check, Or.inl hlog⟩
  · exact h.imp_right fun ⟨check, old, hlog⟩ => ⟨check, Or.inr ⟨old, hlog⟩⟩

/-- What the log of a party can be, with its result once it has ended. -/
def Party.Law (system : System) : Party → Option (Except PipelineExn Unit) → List Event → Prop
  | .healthChecker surroundings item =>
    Begins (((checked system surroundings item).map (checkEvents surroundings)).getD [])
  | .statusUpdater utcNow => Updates system utcNow

theorem logs_saveToMongo (surroundings : Surroundings)
    (check : IsAliveAndWellResultListWithHealthCheck) :
    Logs (exec system) Accounted (Begins (checkEvents surroundings check))
      (HealthCheckSubscriber.saveToMongo system surroundings check.healthCheck
        check.isAliveAndWellResult) [.published check] := by
  let serie := fromIsAliveAndWellResult surroundings check.healthCheck check.isAliveAndWellResult
  have hfirst : [.published check] <+: checkEvents surroundings check := List.prefix_append _ _
  have hsecond : [.published check, .series serie] <+: checkEvents surroundings check :=
    List.prefix_append _ _
  unfold HealthCheckSubscriber.saveToMongo
  refine logs_seriesItems.bind ?_ ?_ fun _ l h => ?_
  · rintro _ rfl
    exact hfirst
  · rintro _ _ rfl
    exact hfirst
  subst h
  refine (logs_addSeries serie).bind ?_ ?_ fun _ l h => ?_
  · rintro _ rfl
    exact hfirst
  · rintro _ _ (rfl | rfl)
    · exact hfirst
    · exact hsecond
  obtain rfl : l = _ := h
  exact (logs_addResult _).mono fun _ _ h => begins_of_after rfl h

theorem logs_handler (surroundings : Surroundings) (item : ScheduledTaskItem)
    (hlength : 200 ≤ (system.itemText item).length) :
    Logs (exec system) Accounted
      (Begins (((checked system surroundings (some item)).map (checkEvents surroundings)).getD []))
      (HealthCheckSubscriber.handler system surroundings item) [] := by
  cases item with
  | unknown key => rfl
  | healthCheckResourceV1 healthcheck =>
    unfold checked HealthCheckSubscriber.handler
    simp only [if_neg (Nat.not_lt.2 hlength)]
    cases healthcheck.relatedService with
    | none => rfl
    | some relatedService =>
      simp only
      cases HealthCheckSubscriber.downloadAsync surroundings relatedService healthcheck with
      | error e => exact List.prefix_refl _
      | ok result =>
        cases result with
        | none => rfl
        | some result =>
          refine Logs.command List.nil_prefix fun s => ⟨_, accounted_publish s, ?_⟩
          show Logs _ _ _ (Prog.ofExcept ((system.bus.publish s.bus _).1.mapError _) >>= _) _
          cases (system.bus.publish s.bus ⟨result, healthcheck⟩).1 with
          | error e => exact List.prefix_append _ _
          | ok u => exact logs_saveToMongo surroundings ⟨result, healthcheck⟩

theorem logs_updateHandler
    (hserves : K8sHealthCheckResourceClient.Serves system.texts system.server) (utcNow : DateTime)
    (check : IsAliveAndWellResultListWithHealthCheck) :
    Logs (exec system) Accounted (Updates system utcNow)
      (HealthCheckStatusUpdateSubscriber.handler system utcNow check)
      [.received check] := by
  have hcall : Logs (exec system) Accounted
      (fun (r : Option (Except PipelineExn K8sHealthCheckResourceClient.HealthCheckResource)) l =>
        Updates system utcNow r l ∧ l ≠ [])
      (onKubernetes ((updateCall system utcNow check).program system.texts))
      [.received check] := by
    refine logs_onKubernetes ((logs_updateStartusByName hserves _).mono fun r l h => ?_)
    rcases r with _ | e | a
    · obtain rfl : l = [] := h
      exact ⟨Or.inr ⟨check, rfl⟩, List.cons_ne_nil _ _⟩
    · obtain rfl : l = [] := h
      exact ⟨⟨check, rfl⟩, List.cons_ne_nil _ _⟩
    · obtain ⟨old, rfl⟩ := h
      exact ⟨Or.inr ⟨check, old, rfl⟩, List.cons_ne_nil _ _⟩
  exact hcall.bind (fun _ h => h.1) (fun _ _ h => h.1) fun _ _ h => h.1

/-- **Every party keeps to its law**, whatever the others do. -/
theorem logs_party (hserves : K8sHealthCheckResourceClient.Serves system.texts system.server)
    (party : Party) :
    Logs (exec system) Accounted (party.Law system) (party.program system) [] := by
  cases party with
  | healthChecker surroundings item =>
    cases item with
    | none => rfl
    | some item =>
      unfold Party.Law Party.program handlerPrivate substring
      by_cases hlength : (system.itemText item).length < 0 + 200
      · simp only [if_pos hlength]
        have hnone : checked system surroundings (some item) = none := by
          cases item with
          | unknown key => rfl
          | healthCheckResourceV1 healthcheck => exact if_pos (by omega)
        rw [hnone]
        exact List.prefix_refl _
      · simp only [if_neg hlength]
        exact logs_handler surroundings item (by omega)
  | statusUpdater utcNow =>
    refine Logs.command (Or.inl rfl) fun s => ⟨_, accounted_receive s, ?_⟩
    show Logs _ _ _ (handlerPrivate _ _ (system.bus.receive s.bus).1) _
    cases (system.bus.receive s.bus).1 with
    | none => exact Or.inl rfl
    | some check =>
      unfold handlerPrivate substring
      by_cases hlength : (system.updateText check).length < 0 + 200
      · simp only [if_pos hlength]
        exact ⟨check, rfl⟩
      · simp only [if_neg hlength]
        exact logs_updateHandler hserves utcNow check

end Sentinel.HealthCheckPipeline
