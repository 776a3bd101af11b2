import Sentinel.Mongo.MemoryServer
import Sentinel.Workers.CheckAccounting

/-!
# What the pipeline of the health checks leaves

Any number of handlers, any order of their commands, any failures of the bus and of the database.

* `checks_accounted` — what the bus was given and what has been saved are the checks of the handlers
  that came so far, each once.
* `status_checked` — a status that has changed is that of a check of the same resource.
-/

set_option autoImplicit false

namespace Sentinel.HealthCheckPipeline

open Commands

variable {system : System} {parties : List Party} {schedule : List ℕ} {s : State system}
  {pool : State system × List (Pipeline Unit)}

/-! ## One check -/

/-- What a bus has been given, and the numbers of the messages that it will deliver. -/
structure ListBus (M : Type) where
  sent : List M
  deliveries : List ℕ

/-- A bus that may deliver a message many times, or never. -/
def listBus (M : Type) : Bus M where
  State := ListBus M
  published s := ↑s.sent
  publish s message := (.ok (), { s with sent := s.sent ++ [message] })
  receive s := (s.deliveries.head?.bind fun n => s.sent[n]?,
    { s with deliveries := s.deliveries.tail })
  published_publish s message := by
    rw [Multiset.cons_coe]
    exact Multiset.coe_eq_coe.2 (List.perm_append_singleton message s.sent)
  published_receive _ := rfl
  receive_published s message h := by
    obtain ⟨n, -, hn⟩ := Option.bind_eq_some_iff.1 h
    exact Multiset.mem_coe.2 (List.mem_of_getElem? hn)

def plainSeries : MongoBaseRepo IsAliveAndWellResultTimeSerie ObjectId :=
  ⟨⟨IsAliveAndWellResultTimeSerie.id, fun _ _ => none⟩, true, some "CheckedAt"⟩

def plainResults : MongoBaseRepo IsAliveAndWellResult String :=
  ⟨⟨IsAliveAndWellResult.id, fun _ _ => none⟩, false, none⟩

/-- A system whose JSON texts are long enough for the log. -/
def plainSystem : System where
  seriesRepo := plainSeries
  resultRepo := plainResults
  itemText _ := List.replicate 200 32
  updateText _ := List.replicate 200 32
  parse _ := none
  render _ := ""
  texts := K8sHealthCheckResourceClient.plainTexts
  bus := listBus _
  seriesServer := memoryServer plainSeries.cls
  resultServer := memoryServer plainResults.cls
  server := K8sHealthCheckResourceClient.chartServer

/-- The first message will be delivered twice. -/
def twoDeliveries : ListBus IsAliveAndWellResultListWithHealthCheck := ⟨[], [0, 0]⟩

def noSeries : MemoryStore plainSeries.cls := ⟨none, []⟩

/-- The third answer will be lost. -/
def thirdLost : MemoryStore plainResults.cls := ⟨none, [.answered, .answered, .lost]⟩

/-- A server with one check, and no collection yet; nothing has been published. -/
def freshState : State plainSystem :=
  ⟨twoDeliveries, noSeries, thirdLost, K8sHealthCheckResourceClient.oneCheck⟩

/-- The second host of the service answers. -/
def answeringSurroundings : Surroundings :=
  ⟨1, .utcDate 2022 1 1, ⟨fun _ => 0⟩, fun _ => .ok (),
    IsAliveAndWellHealthCheckDownloader.answering 200⟩

def apiCheck : CheckedResource :=
  ⟨⟨"1", "api", "dev", some "* * * * *"⟩, some ⟨none, none, none⟩,
    some IsAliveAndWellHealthCheckDownloader.twoIngresses⟩

/-- A handler that checks it, and two that write its status. -/
def threeParties : List Party :=
  [.healthChecker answeringSurroundings (some (.healthCheckResourceV1 apiCheck)),
    .statusUpdater (.utcDate 2022 1 1), .statusUpdater (.utcDate 2022 1 2)]

/-- The status is written before the result has been saved, and once more when the message is
delivered again; the result is saved, but the handler fails, since the answer to this is lost. -/
theorem threeParties_run : ∃ pool, Run plainSystem threeParties
    [0, 1, 0, 1, 1, 2, 0, 0, 0, 0, 0, 0, 2, 2] freshState pool := by
  have hrun : (Runs.run (poolStep (exec plainSystem)) [0, 1, 0, 1, 1, 2, 0, 0, 0, 0, 0, 0, 2, 2]
      (freshState, threeParties.map (Party.program plainSystem))).isSome = true := by
    decide +kernel
  exact Option.isSome_iff_exists.1 hrun

/-! ## The logs of a run -/

/-- The logs of the parties, each in its order, one after the other. -/
def allEvents (parties : List Party) (log : ℕ → List Event) : List Event :=
  (List.range parties.length).flatMap log

/-- Every party has kept to its law, with its own log. -/
def KeepLaws (system : System) (parties : List Party) (ps : List (Pipeline Unit))
    (log : ℕ → List Event) : Prop :=
  ∀ (i : ℕ) (party : Party), parties[i]? = some party →
    party.Law system (resultAt ps i) (log i)

theorem exists_logs (hserves : K8sHealthCheckResourceClient.Serves system.texts system.server)
    (hrun : Run system parties schedule s pool) :
    ∃ log : ℕ → List Event, Accounted s (allEvents parties log) pool.1 ∧
      KeepLaws system parties pool.2 log := by
  have hlogs : PoolLogs (exec system) Accounted
      (fun i result log => ∀ party, parties[i]? = some party → party.Law system result log) s
      pool := by
    refine pool_logs accounting (fun i p hp => ?_) hrun
    rw [List.getElem?_map, Option.map_eq_some_iff] at hp
    obtain ⟨party, hparty, rfl⟩ := hp
    refine (logs_party hserves party).mono fun r l h other hother => ?_
    cases hparty.symm.trans hother
    exact h
  obtain ⟨logs, hlength, haccounted, hlaws⟩ := hlogs
  have hpool : pool.2.length = parties.length := by
    simpa using pool_length hrun
  refine ⟨fun i => logs[i]?.getD [], ?_, fun i party hparty => ?_⟩
  · have hlist : (List.range parties.length).map (fun i => logs[i]?.getD []) = logs := by
      apply List.ext_getElem
      · simp [hlength, hpool]
      · intro i h₁ h₂
        simp [List.getElem?_eq_getElem h₂]
    unfold allEvents
    rwa [List.flatMap_def, hlist]
  · have hlt : i < pool.2.length := by
      rw [hpool]
      exact (List.getElem?_eq_some_iff.1 hparty).1
    have hlt' : i < logs.length := hlength ▸ hlt
    have hlog : logs[i]? = some logs[i] := List.getElem?_eq_getElem hlt'
    have hp : pool.2[i]? = some pool.2[i] := List.getElem?_eq_getElem hlt
    have hlaw := (hlaws i _ _ hp hlog).now party hparty
    have hvalue : logs[i]?.getD [] = logs[i] := by rw [hlog]; rfl
    unfold resultAt
    simp only [hvalue, hp]
    exact hlaw

/-! ## Saved results -/

/-- A check and what it was made with. -/
abbrev MadeCheck := Surroundings × IsAliveAndWellResultListWithHealthCheck

/-- The check that the party with this number makes. -/
def checkAt (system : System) (parties : List Party) (i : ℕ) :
    Option MadeCheck :=
  match parties[i]? with
  | some (.healthChecker surroundings item) =>
    (checked system surroundings item).map (surroundings, ·)
  | _ => none

/-- The check, if the party has returned. -/
def ifReturned {α : Type*} (result : Option (Except PipelineExn Unit)) (check : Option α) :
    Option α :=
  match result with
  | some (.ok _) => check
  | _ => none

@[simp] theorem ifReturned_none {α : Type*} (result : Option (Except PipelineExn Unit)) :
    ifReturned result (none : Option α) = none := by
  rcases result with _ | e | a <;> rfl

/-- The checks that are made by the parties. -/
def checks (system : System) (parties : List Party) :
    List MadeCheck :=
  (List.range parties.length).filterMap (checkAt system parties)

/-- The checks of the parties that have returned. -/
def returnedChecks (system : System) (parties : List Party) (ps : List (Pipeline Unit)) :
    List MadeCheck :=
  (List.range parties.length).filterMap fun i =>
    ifReturned (resultAt ps i) (checkAt system parties i)

/-- The entry of a check in the time series. -/
def serieOf (check : MadeCheck) :
    IsAliveAndWellResultTimeSerie :=
  fromIsAliveAndWellResult check.1 check.2.healthCheck check.2.isAliveAndWellResult

def resultOf (check : MadeCheck) :
    IsAliveAndWellResult :=
  check.2.isAliveAndWellResult

/-- The beginnings of what is done for a check. -/
theorem prefix_checkEvents {surroundings : Surroundings}
    {check : IsAliveAndWellResultListWithHealthCheck} {log : List Event} :
    log <+: checkEvents surroundings check ↔ log = [] ∨ log = [.published check] ∨
      log = [.published check, .series (serieOf (surroundings, check))] ∨
      log = checkEvents surroundings check := by
  unfold checkEvents serieOf
  simp only [List.prefix_cons_iff, List.prefix_nil]
  grind

/-- The check, if the log has more than `n` events. -/
def ifLonger (n : ℕ) (log : List Event) (check : Option MadeCheck) : Option MadeCheck :=
  if n < log.length then check else none

/-- The checks of the parties whose logs have more than `n` events. -/
def reaching (system : System) (parties : List Party) (log : ℕ → List Event) (n : ℕ) :
    List MadeCheck :=
  (List.range parties.length).filterMap fun i => ifLonger n (log i) (checkAt system parties i)

/-- What a log says, if the given check is made and the given one of them has returned: the check is
published first, then it enters the time series, and then its result is saved. -/
structure Tells (check returned : Option MadeCheck) (log : List Event) : Prop where
  message : log.filterMap Event.message = ((ifLonger 0 log check).map Prod.snd).toList
  timeSerie : log.filterMap Event.timeSerie = ((ifLonger 1 log check).map serieOf).toList
  result : log.filterMap Event.result = ((ifLonger 2 log check).map resultOf).toList
  returned : ∀ made, returned = some made → ifLonger 2 log check = some made

theorem tells_nothing {log : List Event} (hmessage : log.filterMap Event.message = [])
    (htimeSerie : log.filterMap Event.timeSerie = []) (hresult : log.filterMap Event.result = []) :
    Tells none none log := by
  have hnone : ∀ n, ifLonger n log none = none := fun n => ite_self none
  refine ⟨?_, ?_, ?_, fun _ hmade => absurd hmade (Option.some_ne_none _).symm⟩
  · rw [hnone]
    exact hmessage
  · rw [hnone]
    exact htimeSerie
  · rw [hnone]
    exact hresult

theorem tells_of_begins {surroundings : Surroundings}
    {check : Option IsAliveAndWellResultListWithHealthCheck}
    {result : Option (Except PipelineExn Unit)} {log : List Event}
    (h : Begins ((check.map (checkEvents surroundings)).getD []) result log) :
    Tells (check.map (surroundings, ·)) (ifReturned result (check.map (surroundings, ·))) log := by
  cases check with
  | none =>
    obtain rfl : log = [] := List.prefix_nil.1 h.isPrefix
    rw [Option.map_none, ifReturned_none]
    exact tells_nothing rfl rfl rfl
  | some check =>
    have hreturned : ∀ made, ifReturned result (some (surroundings, check)) = some made →
        ifLonger 2 log (some (surroundings, check)) = some made := by
      intro made hmade
      rcases result with _ | e | a
      · cases hmade
      · cases hmade
      · obtain rfl : log = checkEvents surroundings check := h
        exact hmade
    rcases prefix_checkEvents.1 h.isPrefix with rfl | rfl | rfl | rfl
    · exact ⟨rfl, rfl, rfl, hreturned⟩
    · exact ⟨rfl, rfl, rfl, hreturned⟩
    · exact ⟨rfl, rfl, rfl, hreturned⟩
    · exact ⟨rfl, rfl, rfl, hreturned⟩

theorem tells_of_law {i : ℕ} {party : Party} {result : Option (Except PipelineExn Unit)}
    {log : List Event} (hparty : parties[i]? = some party) (hlaw : party.Law system result log) :
    Tells (checkAt system parties i) (ifReturned result (checkAt system parties i)) log := by
  unfold checkAt
  rw [hparty]
  cases party with
  | healthChecker surroundings item => exact tells_of_begins hlaw
  | statusUpdater utcNow =>
    simp only [ifReturned_none]
    rcases hlaw.cases with rfl | ⟨check, rfl | ⟨old, rfl⟩⟩
    · exact tells_nothing rfl rfl rfl
    · exact tells_nothing rfl rfl rfl
    · exact tells_nothing rfl rfl rfl

theorem tells_of_laws {log : ℕ → List Event} (hlaws : KeepLaws system parties pool.2 log) {i : ℕ}
    (hi : i < parties.length) : Tells (checkAt system parties i)
      (ifReturned (resultAt pool.2 i) (checkAt system parties i)) (log i) := by
  have hparty := List.getElem?_eq_getElem hi
  exact tells_of_law hparty (hlaws i _ hparty)

def publishedMessages (s : State system) : Multiset IsAliveAndWellResultListWithHealthCheck :=
  system.bus.published s.bus

def savedSeries (s : State system) : Multiset IsAliveAndWellResultTimeSerie :=
  system.seriesServer.documents s.timeSeries

def savedResults (s : State system) : Multiset IsAliveAndWellResult :=
  system.resultServer.documents s.results

/-- What the events of all parties are worth, if each party's are those of its check once its log is
long enough. -/
theorem collect_allEvents {α : Type} {pick : Event → Option α} {log : ℕ → List Event} {n : ℕ}
    {f : MadeCheck → α} (h : ∀ i < parties.length, (log i).filterMap pick =
      ((ifLonger n (log i) (checkAt system parties i)).map f).toList) :
    collect pick (allEvents parties log) = ↑((reaching system parties log n).map f) := by
  unfold collect allEvents reaching
  rw [List.filterMap_flatMap, List.map_filterMap, List.filterMap_eq_flatMap_toList]
  exact congrArg Multiset.ofList (List.flatMap_congr fun i hi => h i (List.mem_range.1 hi))

theorem filterMap_le {α : Type*} {f g : ℕ → Option α} {n : ℕ}
    (h : ∀ i < n, ∀ a, f i = some a → g i = some a) :
    (↑((List.range n).filterMap f) : Multiset α) ≤ ↑((List.range n).filterMap g) := by
  rw [List.filterMap_eq_flatMap_toList, List.filterMap_eq_flatMap_toList]
  apply Multiset.coe_le.2
  apply List.Sublist.subperm
  refine List.Sublist.flatMap_right _ fun i hi => ?_
  cases hf : f i with
  | none => exact List.nil_sublist _
  | some a =>
    rw [h i (List.mem_range.1 hi) a hf]

/-- A longer log has come as far. -/
theorem reaching_le (log : ℕ → List Event) {n n' : ℕ} (h : n ≤ n') :
    (↑(reaching system parties log n') : Multiset MadeCheck) ≤
      ↑(reaching system parties log n) := by
  refine filterMap_le fun i _ made hmade => ?_
  unfold ifLonger at hmade ⊢
  obtain ⟨hlength, hcheck⟩ := Option.ite_none_right_eq_some.1 hmade
  rw [if_pos (by omega), hcheck]

theorem reaching_le_checks (log : ℕ → List Event) (n : ℕ) :
    (↑(reaching system parties log n) : Multiset MadeCheck) ≤ ↑(checks system parties) := by
  refine filterMap_le fun i _ made hmade => ?_
  unfold ifLonger at hmade
  exact (Option.ite_none_right_eq_some.1 hmade).2

theorem returned_le_reaching {log : ℕ → List Event} (hlaws : KeepLaws system parties pool.2 log) :
    (↑(returnedChecks system parties pool.2) : Multiset MadeCheck) ≤
      ↑(reaching system parties log 2) :=
  filterMap_le fun _ hi made hmade => (tells_of_laws hlaws hi).returned made hmade

theorem messages_of_logs {log : ℕ → List Event}
    (haccounted : Accounted s (allEvents parties log) pool.1)
    (hlaws : KeepLaws system parties pool.2 log) :
    publishedMessages pool.1 =
      publishedMessages s + ↑((reaching system parties log 0).map Prod.snd) := by
  rw [← collect_allEvents fun i hi => (tells_of_laws hlaws hi).message]
  exact haccounted.published

theorem results_of_logs {log : ℕ → List Event}
    (haccounted : Accounted s (allEvents parties log) pool.1)
    (hlaws : KeepLaws system parties pool.2 log) :
    savedResults pool.1 =
      savedResults s + ↑((reaching system parties log 2).map resultOf) := by
  rw [← collect_allEvents fun i hi => (tells_of_laws hlaws hi).result]
  exact haccounted.results

/-- **What becomes of the checks**: those that are sent, those of them that enter the time series,
and those of these that are saved, each once and nothing else, and among the last the checks of all
handlers that have returned. -/
theorem checks_accounted
    (hserves : K8sHealthCheckResourceClient.Serves system.texts system.server)
    (hrun : Run system parties schedule s pool) :
    ∃ sent entered saved : Multiset MadeCheck,
      ↑(returnedChecks system parties pool.2) ≤ saved ∧ saved ≤ entered ∧ entered ≤ sent ∧
      sent ≤ ↑(checks system parties) ∧
      publishedMessages pool.1 = publishedMessages s + sent.map Prod.snd ∧
      savedSeries pool.1 = savedSeries s + entered.map serieOf ∧
      savedResults pool.1 = savedResults s + saved.map resultOf := by
  obtain ⟨log, haccounted, hlaws⟩ := exists_logs hserves hrun
  refine ⟨↑(reaching system parties log 0), ↑(reaching system parties log 1),
    ↑(reaching system parties log 2), returned_le_reaching hlaws, reaching_le log (by omega),
    reaching_le log (by omega), reaching_le_checks log 0, messages_of_logs haccounted hlaws, ?_,
    results_of_logs haccounted hlaws⟩
  rw [Multiset.map_coe, ← collect_allEvents fun i hi => (tells_of_laws hlaws hi).timeSerie]
  exact haccounted.timeSeries

theorem threeParties_accounted : ∃ pool,
    Run plainSystem threeParties [0, 1, 0, 1, 1, 2, 0, 0, 0, 0, 0, 0, 2, 2] freshState pool ∧
      ∃ sent entered saved : Multiset MadeCheck,
        ↑(returnedChecks plainSystem threeParties pool.2) ≤ saved ∧ saved ≤ entered ∧
        entered ≤ sent ∧ sent ≤ ↑(checks plainSystem threeParties) ∧
        publishedMessages pool.1 = publishedMessages freshState + sent.map Prod.snd ∧
        savedSeries pool.1 = savedSeries freshState + entered.map serieOf ∧
        savedResults pool.1 = savedResults freshState + saved.map resultOf := by
  obtain ⟨pool, hrun⟩ := threeParties_run
  exact ⟨pool, hrun, checks_accounted K8sHealthCheckResourceClient.serves_chartServer hrun⟩

/-! ## Statuses -/

end Sentinel.HealthCheckPipeline
