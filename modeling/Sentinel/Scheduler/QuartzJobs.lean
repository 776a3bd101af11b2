import Sentinel.Auth.AZAuthService

/-!
# `AddQuartzJobs`

The jobs with a `QuartzJobAttribute` are registered with Quartz, each with a trigger.  Name, group,
cron expression and the enabled flag come from the attribute, and a configuration section can set
each of them anew.

* `addQuartzJobs_eq_ok_iff` — what is registered, and when the call returns.
* `schedule_returns`, `schedule_keeps` — what the scheduler keeps under a key of one entry.
* `registers_iff` — every job is registered under its name and group iff no configured group
  differs from the name.
-/

set_option autoImplicit false

namespace Sentinel.QuartzJobs

open AZAuthService (isNullOrEmpty isWhiteSpace)

/-! ## Job types and their configuration -/

structure QuartzJobAttribute where
  configurationSection : Option String := none
  name : Option String := none
  group : Option String := none
  description : Option String := none
  cronExpression : Option String := none
  priority : ℤ := 1
  storeDurably : Bool := true
  requestRecovery : Bool := false
  enabled : Bool := true
  delaySecond : ℤ := 10

/-- A class that implements `IJob` and carries the attribute. -/
structure JobType where
  name : String
  assemblyName : String
  jobAttr : QuartzJobAttribute
  assemblyName_ne : assemblyName ≠ ""

/-- The value of a key in a section. -/
abbrev Configuration := String → String → Option String

/-- The value that `bool.TryParse` gives out. -/
def tryParseBool : Option String → Bool
  | none => false
  | some value =>
    let blank := fun c => isWhiteSpace c || c == '\x00'
    let trimmed := ((value.toList.dropWhile blank).reverse.dropWhile blank).reverse
    trimmed.map Char.toLower == ['t', 'r', 'u', 'e']

/-! ## What Quartz is given -/

/-- `JobKey` and `TriggerKey`. -/
@[ext] structure Key where
  name : String
  group : String
  deriving DecidableEq

structure JobDetail where
  jobType : JobType
  key : Key
  description : Option String
  durable : Bool
  requestsRecovery : Bool

/-- A cron trigger; it starts `startDelay` seconds from now. -/
structure Trigger where
  key : Key
  jobKey : Key
  priority : ℤ
  cronExpression : Option String
  startDelay : ℤ

/-- What the builders of Quartz refuse. -/
structure Builders where
  jobError : JobDetail → Option Exn
  triggerError : Trigger → Option Exn

structure QuartzOptions where
  jobDetails : List JobDetail
  triggers : List Trigger

/-! ## Registration -/

/-- The local variables of a round, with the two members of the attribute that it assigns. -/
structure Resolved where
  jobName : String
  group : String
  enabled : Bool
  cronExpression : Option String

def resolve (configuration : Configuration) (jobType : JobType) : Resolved :=
  let jobAttr := jobType.jobAttr
  let jobName := if isNullOrEmpty jobAttr.name then jobType.name else jobAttr.name.getD ""
  let group := if isNullOrEmpty jobAttr.group then jobType.assemblyName else jobAttr.group.getD ""
  let group := if isNullOrEmpty (some group) then "Default" else group
  match jobAttr.configurationSection with
  | none => ⟨jobName, group, jobAttr.enabled, jobAttr.cronExpression⟩
  | some configurationSectionSelector =>
    let configurationSection := configuration configurationSectionSelector
    let jobName := (configurationSection "name").getD jobName
    -- `group = jobName = configurationSection["group"]`
    let jobName := (configurationSection "group").getD jobName
    let group := (configurationSection "group").getD group
    ⟨jobName, group, tryParseBool (configurationSection "enabled"),
      (configurationSection "schedule").or jobAttr.cronExpression⟩

def jobDetail (configuration : Configuration) (jobType : JobType) : JobDetail where
  jobType := jobType
  key := ⟨(resolve configuration jobType).jobName, (resolve configuration jobType).group⟩
  description := jobType.jobAttr.description
  durable := jobType.jobAttr.storeDurably
  requestsRecovery := jobType.jobAttr.requestRecovery

def trigger (configuration : Configuration) (jobType : JobType) : Trigger where
  key := ⟨(resolve configuration jobType).jobName ++ "Trigger",
    (resolve configuration jobType).group⟩
  jobKey := ⟨(resolve configuration jobType).jobName, (resolve configuration jobType).group⟩
  priority := jobType.jobAttr.priority
  cronExpression := (resolve configuration jobType).cronExpression
  startDelay := jobType.jobAttr.delaySecond

/-- One round of the loop over the job types. -/
def addQuartzJob (builders : Builders) (configuration : Configuration) (jobType : JobType)
    (quartz : QuartzOptions) : Except Exn QuartzOptions :=
  if (resolve configuration jobType).enabled then
    match builders.jobError (jobDetail configuration jobType) with
    | some e => .error e
    | none =>
      match builders.triggerError (trigger configuration jobType) with
      | some e => .error e
      | none =>
        .ok ⟨quartz.jobDetails ++ [jobDetail configuration jobType],
          quartz.triggers ++ [trigger configuration jobType]⟩
  else .ok quartz

/-- `AddQuartzJobs`, for the job types found in the assemblies. -/
def addQuartzJobs (builders : Builders) (configuration : Configuration)
    (listJobType : List JobType) : Except Exn QuartzOptions :=
  forEach (addQuartzJob builders configuration) listJobType ⟨[], []⟩

/-! ## The scheduler -/

/-- `QuartzOptions.Scheduling`. -/
structure Scheduling where
  ignoreDuplicates : Bool
  overWriteExistingData : Bool

/-- `QuartzServiceModule.RegisterServices`: set after the configuration section was read. -/
def registerServices : Scheduling := ⟨true, true⟩

/-- The scheduler takes an entry over, as the options say what happens to one of the same key. -/
def Scheduling.add {β : Type} (scheduling : Scheduling) (key : β → Key) (entry : β)
    (store : Key → Option β) : Except Exn (Key → Option β) :=
  if (store (key entry)).isSome && !scheduling.overWriteExistingData then
    if scheduling.ignoreDuplicates then .ok store
    else .error (.exception "ObjectAlreadyExistsException")
  else .ok (Function.update store (key entry) (some entry))

structure Scheduler where
  jobs : Key → Option JobDetail
  triggers : Key → Option Trigger

/-- The jobs and triggers of the options, when the scheduler starts. -/
def schedule (scheduling : Scheduling) (quartz : QuartzOptions) : Except Exn Scheduler :=
  match forEach (scheduling.add JobDetail.key) quartz.jobDetails fun _ => none with
  | .error e => .error e
  | .ok jobs =>
    match forEach (scheduling.add Trigger.key) quartz.triggers fun _ => none with
    | .error e => .error e
    | .ok triggers => .ok ⟨jobs, triggers⟩

/-! ## What is registered -/

/-- The job types that are not switched off. -/
def enabledJobs (configuration : Configuration) (listJobType : List JobType) : List JobType :=
  listJobType.filter fun jobType => (resolve configuration jobType).enabled

/-- Quartz accepts the job and its trigger. -/
def Accepted (builders : Builders) (configuration : Configuration) (jobType : JobType) : Prop :=
  builders.jobError (jobDetail configuration jobType) = none ∧
    builders.triggerError (trigger configuration jobType) = none

section Registration

variable {builders : Builders} {configuration : Configuration} {listJobType : List JobType}
  {quartz quartz' : QuartzOptions}

theorem addQuartzJob_disabled {jobType : JobType}
    (h : (resolve configuration jobType).enabled = false) :
    addQuartzJob builders configuration jobType quartz = .ok quartz := by
  rw [addQuartzJob, h]
  rfl

theorem addQuartzJob_eq_ok_iff {jobType : JobType}
    (h : (resolve configuration jobType).enabled = true) :
    addQuartzJob builders configuration jobType quartz = .ok quartz' ↔
      Accepted builders configuration jobType ∧
        quartz' = ⟨quartz.jobDetails ++ [jobDetail configuration jobType],
          quartz.triggers ++ [trigger configuration jobType]⟩ := by
  rw [addQuartzJob, if_pos h, Accepted]
  cases hjob : builders.jobError (jobDetail configuration jobType) with
  | some e => simp
  | none =>
    cases htrigger : builders.triggerError (trigger configuration jobType) with
    | some e => simp
    | none => simp [eq_comm]

theorem forEach_addQuartzJob :
    forEach (addQuartzJob builders configuration) listJobType quartz = .ok quartz' ↔
      (∀ jobType ∈ enabledJobs configuration listJobType,
        Accepted builders configuration jobType) ∧
      quartz' =
        ⟨quartz.jobDetails ++
            (enabledJobs configuration listJobType).map (jobDetail configuration),
          quartz.triggers ++ (enabledJobs configuration listJobType).map (trigger configuration)⟩ := by
  induction listJobType generalizing quartz with
  | nil => simp [forEach, enabledJobs, eq_comm]
  | cons jobType listJobType ih =>
    cases henabled : (resolve configuration jobType).enabled with
    | false =>
      have hsame : enabledJobs configuration (jobType :: listJobType) =
          enabledJobs configuration listJobType := List.filter_cons_of_neg (by simp [henabled])
      rw [forEach, addQuartzJob_disabled henabled, hsame]
      exact ih
    | true =>
      have hmore : enabledJobs configuration (jobType :: listJobType) =
          jobType :: enabledJobs configuration listJobType :=
        List.filter_cons_of_pos henabled
      rw [hmore, List.forall_mem_cons, List.map_cons, List.map_cons, forEach]
      cases hround : addQuartzJob builders configuration jobType quartz with
      | error e =>
        have hnot : ¬ Accepted builders configuration jobType := fun haccepted => by
          cases hround.symm.trans ((addQuartzJob_eq_ok_iff henabled).2 ⟨haccepted, rfl⟩)
        simp [hnot]
      | ok next =>
        obtain ⟨haccepted, rfl⟩ := (addQuartzJob_eq_ok_iff henabled).1 hround
        rw [ih]
        simp [haccepted]

/-- **What is registered**: every job that is not switched off, if Quartz accepts all of them. -/
theorem addQuartzJobs_eq_ok_iff :
    addQuartzJobs builders configuration listJobType = .ok quartz ↔
      (∀ jobType ∈ enabledJobs configuration listJobType,
        Accepted builders configuration jobType) ∧
      quartz = ⟨(enabledJobs configuration listJobType).map (jobDetail configuration),
        (enabledJobs configuration listJobType).map (trigger configuration)⟩ :=
  forEach_addQuartzJob

end Registration

/-! ## What the scheduler keeps -/

section Keeping

variable {β : Type} {key : β → Key}

theorem add_registerServices (entry : β) (store : Key → Option β) :
    registerServices.add key entry store =
      .ok (Function.update store (key entry) (some entry)) := by
  rw [Scheduling.add, registerServices, Bool.not_true, Bool.and_false]
  rfl

/-- An entry stays if no later one has its key. -/
theorem forEach_add (key : β → Key) (entries : List β) (store : Key → Option β) :
    ∃ store', forEach (registerServices.add key) entries store = .ok store' ∧
      (∀ k, (∀ entry ∈ entries, key entry ≠ k) → store' k = store k) ∧
      ∀ before entry after, entries = before ++ entry :: after →
        (∀ other ∈ after, key other ≠ key entry) → store' (key entry) = some entry := by
  induction entries generalizing store with
  | nil =>
    refine ⟨store, rfl, fun _ _ => rfl, fun before entry after h => ?_⟩
    cases before <;> cases h
  | cons first entries ih =>
    obtain ⟨store', hstore', hframe, hkeep⟩ :=
      ih (Function.update store (key first) (some first))
    refine ⟨store', ?_, fun k hk => ?_, fun before entry after h hother => ?_⟩
    · rw [forEach, add_registerServices]
      exact hstore'
    · obtain ⟨hfirst, hentries⟩ := List.forall_mem_cons.1 hk
      rw [hframe k hentries, Function.update_of_ne hfirst.symm]
    · cases before with
      | nil =>
        obtain ⟨rfl, rfl⟩ := List.cons.inj h
        rw [hframe _ hother, Function.update_self]
      | cons _ before => exact hkeep before entry after (List.cons.inj h).2 hother

theorem schedule_returns (quartz : QuartzOptions) :
    ∃ scheduler, schedule registerServices quartz = .ok scheduler ∧
      (∀ before detail after, quartz.jobDetails = before ++ detail :: after →
        (∀ other ∈ after, other.key ≠ detail.key) → scheduler.jobs detail.key = some detail) ∧
      ∀ before trigger after, quartz.triggers = before ++ trigger :: after →
        (∀ other ∈ after, other.key ≠ trigger.key) →
          scheduler.triggers trigger.key = some trigger := by
  obtain ⟨jobs, hjobs, -, hkeepJobs⟩ :=
    forEach_add JobDetail.key quartz.jobDetails fun _ => none
  obtain ⟨triggers, htriggers, -, hkeepTriggers⟩ :=
    forEach_add Trigger.key quartz.triggers fun _ => none
  refine ⟨⟨jobs, triggers⟩, ?_, hkeepJobs, hkeepTriggers⟩
  rw [schedule, hjobs, htriggers]

end Keeping

/-! ## Names and groups -/

/-- What the configuration section of a job type sets. -/
def configured (configuration : Configuration) (jobType : JobType) (key : String) : Option String :=
  jobType.jobAttr.configurationSection.bind fun selector => configuration selector key

/-- The configured name, else the attribute's, else that of the type; the group likewise, with
the name of the assembly. -/
def identity (configuration : Configuration) (jobType : JobType) : Key where
  name := ((configured configuration jobType "name").or
    (jobType.jobAttr.name.filter (· ≠ ""))).getD jobType.name
  group := ((configured configuration jobType "group").or
    (jobType.jobAttr.group.filter (· ≠ ""))).getD jobType.assemblyName

/-- `string.IsNullOrEmpty(value) ? other : value`. -/
theorem ite_isNullOrEmpty (value : Option String) (other : String) :
    (if isNullOrEmpty value then other else value.getD "") =
      (value.filter (· ≠ "")).getD other := by
  cases value with
  | none => rfl
  | some value =>
    by_cases h : value = ""
    · subst h
      rfl
    · have hfilter : (some value).filter (· ≠ "") = some value :=
        Option.filter_some_pos (decide_eq_true h)
      rw [hfilter, isNullOrEmpty, beq_false_of_ne h]
      rfl

theorem filter_getD_ne {value : Option String} {other : String} (h : other ≠ "") :
    (value.filter (· ≠ "")).getD other ≠ "" := by
  cases hvalue : value.filter (· ≠ "") with
  | none => exact h
  | some value => simpa using (Option.filter_eq_some_iff.1 hvalue).2

section Identities

variable {configuration : Configuration} {jobType : JobType}

theorem resolve_group :
    (resolve configuration jobType).group = (identity configuration jobType).group := by
  have hgroup : (jobType.jobAttr.group.filter (· ≠ "")).getD jobType.assemblyName ≠ "" :=
    filter_getD_ne jobType.assemblyName_ne
  have hnot : isNullOrEmpty
      (some ((jobType.jobAttr.group.filter (· ≠ "")).getD jobType.assemblyName)) = false :=
    beq_false_of_ne hgroup
  unfold resolve identity configured
  simp only [ite_isNullOrEmpty, hnot, Bool.false_eq_true, if_false]
  cases jobType.jobAttr.configurationSection with
  | none => rfl
  | some selector => cases h : configuration selector "group" <;> simp [h]

/-- The configured group is taken for the name, too. -/
theorem resolve_jobName :
    (resolve configuration jobType).jobName =
      (configured configuration jobType "group").getD (identity configuration jobType).name := by
  unfold resolve identity configured
  simp only [ite_isNullOrEmpty]
  cases jobType.jobAttr.configurationSection with
  | none => rfl
  | some selector => cases h : configuration selector "name" <;> simp [h]

/-- The configured group, if there is one, is the name. -/
def GroupIsName (configuration : Configuration) (jobType : JobType) : Prop :=
  ∀ group, configured configuration jobType "group" = some group →
    (identity configuration jobType).name = group

theorem key_eq_identity_iff :
    (jobDetail configuration jobType).key = identity configuration jobType ↔
      GroupIsName configuration jobType := by
  have hkey : (jobDetail configuration jobType).key =
      ⟨(configured configuration jobType "group").getD (identity configuration jobType).name,
        (identity configuration jobType).group⟩ := by
    rw [← resolve_jobName, ← resolve_group]
    rfl
  rw [hkey, GroupIsName]
  cases hgroup : configured configuration jobType "group" with
  | none => simp
  | some group =>
    constructor
    · intro h group' hgroup'
      cases hgroup'
      exact (congrArg Key.name h).symm
    · intro h
      rw [Option.getD_some, ← h group rfl]

theorem trigger_jobKey :
    (trigger configuration jobType).jobKey = (jobDetail configuration jobType).key := rfl

theorem trigger_key :
    (trigger configuration jobType).key =
      ⟨(jobDetail configuration jobType).key.name ++ "Trigger",
        (jobDetail configuration jobType).key.group⟩ := rfl

theorem trigger_key_ne {other : JobType}
    (h : (jobDetail configuration jobType).key ≠ (jobDetail configuration other).key) :
    (trigger configuration jobType).key ≠ (trigger configuration other).key := by
  intro heq
  rw [trigger_key, trigger_key, Key.mk.injEq, String.append_left_inj] at heq
  exact h (Key.ext heq.1 heq.2)

end Identities

/-! ## Identities of all jobs -/

/-- Each job with its trigger, in the order of registration. -/
def QuartzOptions.entries (quartz : QuartzOptions) : List (JobDetail × Trigger) :=
  quartz.jobDetails.zip quartz.triggers

/-- One call registers its jobs: `identity` tells them apart. -/
structure RegistersJobs (configuration : Configuration) (listJobType : List JobType)
    (quartz : QuartzOptions) : Prop where
  jobDetails : quartz.jobDetails = quartz.entries.map Prod.fst
  triggers : quartz.triggers = quartz.entries.map Prod.snd
  registered : List.Forall₂ (fun jobType entry =>
      entry.1.jobType = jobType ∧ entry.1.key = identity configuration jobType)
    (enabledJobs configuration listJobType) quartz.entries
  targets : ∀ entry ∈ quartz.entries, entry.2.jobKey = entry.1.key
  distinct : ∀ entry ∈ quartz.entries, ∀ other ∈ quartz.entries,
    identity configuration entry.1.jobType ≠ identity configuration other.1.jobType →
      entry.1.key ≠ other.1.key ∧ entry.2.key ≠ other.2.key
  kept : ∃ scheduler, schedule registerServices quartz = .ok scheduler ∧
    ∀ before entry after, quartz.entries = before ++ entry :: after →
      (∀ other ∈ before ++ after,
        identity configuration other.1.jobType ≠ identity configuration entry.1.jobType) →
      scheduler.jobs entry.1.key = some entry.1 ∧ scheduler.triggers entry.2.key = some entry.2

section Calls

variable {configuration : Configuration} {jobs : List JobType}

theorem entries_registered :
    (QuartzOptions.mk (jobs.map (jobDetail configuration))
      (jobs.map (trigger configuration))).entries =
      jobs.map fun jobType => (jobDetail configuration jobType, trigger configuration jobType) :=
  List.zip_map'

theorem keys_ne {jobType other : JobType} (hjob : GroupIsName configuration jobType)
    (hother : GroupIsName configuration other)
    (h : identity configuration jobType ≠ identity configuration other) :
    (jobDetail configuration jobType).key ≠ (jobDetail configuration other).key ∧
      (trigger configuration jobType).key ≠ (trigger configuration other).key := by
  have hkeys : (jobDetail configuration jobType).key ≠ (jobDetail configuration other).key := by
    rwa [key_eq_identity_iff.2 hjob, key_eq_identity_iff.2 hother]
  exact ⟨hkeys, trigger_key_ne hkeys⟩

/-- An entry of the list, split off with its neighbours, comes from a job split off likewise. -/
theorem schedule_keeps (h : ∀ jobType ∈ jobs, GroupIsName configuration jobType) :
    ∃ scheduler, schedule registerServices
        ⟨jobs.map (jobDetail configuration), jobs.map (trigger configuration)⟩ = .ok scheduler ∧
      ∀ before jobType after, jobs = before ++ jobType :: after →
        (∀ other ∈ after, identity configuration other ≠ identity configuration jobType) →
        scheduler.jobs (jobDetail configuration jobType).key =
            some (jobDetail configuration jobType) ∧
          scheduler.triggers (trigger configuration jobType).key =
            some (trigger configuration jobType) := by
  obtain ⟨scheduler, hscheduler, hjobs, htriggers⟩ := schedule_returns
    ⟨jobs.map (jobDetail configuration), jobs.map (trigger configuration)⟩
  refine ⟨scheduler, hscheduler, fun before jobType after hsplit hother => ?_⟩
  have hne : ∀ other ∈ after,
      (jobDetail configuration other).key ≠ (jobDetail configuration jobType).key ∧
        (trigger configuration other).key ≠ (trigger configuration jobType).key :=
    fun other hmem => keys_ne (h other (by simp [hsplit, hmem])) (h jobType (by simp [hsplit]))
      (hother other hmem)
  constructor
  · refine hjobs (before.map (jobDetail configuration)) _ (after.map (jobDetail configuration))
      (by simp [hsplit]) fun _ hmapped => ?_
    obtain ⟨other, hmem, rfl⟩ := List.mem_map.1 hmapped
    exact (hne other hmem).1
  · refine htriggers (before.map (trigger configuration)) _ (after.map (trigger configuration))
      (by simp [hsplit]) fun _ hmapped => ?_
    obtain ⟨other, hmem, rfl⟩ := List.mem_map.1 hmapped
    exact (hne other hmem).2

theorem groupIsName_of_registers {listJobType : List JobType}
    (h : RegistersJobs configuration listJobType
      ⟨(enabledJobs configuration listJobType).map (jobDetail configuration),
        (enabledJobs configuration listJobType).map (trigger configuration)⟩) :
    ∀ jobType ∈ enabledJobs configuration listJobType, GroupIsName configuration jobType := by
  have hregistered := h.registered
  rw [entries_registered, List.forall₂_map_right_iff, List.forall₂_same] at hregistered
  exact fun jobType hmem => key_eq_identity_iff.1 (hregistered jobType hmem).2

end Calls

/-- **Job identities**: the call returns iff Quartz accepts every job that is not switched off, and
it has registered each under its name and group iff no configured group differs from the name. -/
theorem registers_iff (builders : Builders) (configuration : Configuration)
    (listJobType : List JobType) :
    ((∃ quartz, addQuartzJobs builders configuration listJobType = .ok quartz) ↔
      ∀ jobType ∈ enabledJobs configuration listJobType,
        Accepted builders configuration jobType) ∧
    ∀ quartz, addQuartzJobs builders configuration listJobType = .ok quartz →
      (RegistersJobs configuration listJobType quartz ↔
        ∀ jobType ∈ enabledJobs configuration listJobType, GroupIsName configuration jobType) := by
  refine ⟨?_, fun quartz hcall => ?_⟩
  · simp only [addQuartzJobs_eq_ok_iff, exists_and_left, exists_eq, and_true]
  obtain ⟨-, rfl⟩ := addQuartzJobs_eq_ok_iff.1 hcall
  constructor
  · exact groupIsName_of_registers
  · intro h
    obtain ⟨scheduler, hscheduler, hkept⟩ := schedule_keeps h
    refine ⟨?_, ?_, ?_, ?_, ?_, scheduler, hscheduler, ?_⟩
    · simp [entries_registered]
    · simp [entries_registered]
    · rw [entries_registered, List.forall₂_map_right_iff, List.forall₂_same]
      exact fun jobType hmem => ⟨rfl, key_eq_identity_iff.2 (h jobType hmem)⟩
    · intro entry hentry
      rw [entries_registered] at hentry
      obtain ⟨jobType, -, rfl⟩ := List.mem_map.1 hentry
      exact trigger_jobKey
    · intro entry hentry other hother hne
      rw [entries_registered] at hentry hother
      obtain ⟨jobType, hjob, rfl⟩ := List.mem_map.1 hentry
      obtain ⟨jobType', hjob', rfl⟩ := List.mem_map.1 hother
      exact keys_ne (h jobType hjob) (h jobType' hjob') hne
    · intro before entry after hsplit hother
      rw [entries_registered] at hsplit
      obtain ⟨jobs, rest, hjobs, -, hrest⟩ := List.map_eq_append_iff.1 hsplit
      obtain ⟨jobType, jobs', rfl, rfl, rfl⟩ := List.map_eq_cons_iff.1 hrest
      refine hkept jobs jobType jobs' hjobs fun other hmem => ?_
      exact hother (jobDetail configuration other, trigger configuration other)
        (List.mem_append_right _ (List.mem_map.2 ⟨other, hmem, rfl⟩))

/-! ## Two jobs of the worker -/

def serviceSync : JobType where
  name := "ServiceSyncSchedulerJob"
  assemblyName := "Sentinel.Worker.Core"
  jobAttr := { configurationSection := some "Schedules:ServicesSynccheduler", delaySecond := 1 }
  assemblyName_ne := by decide

def deploymentSync : JobType where
  name := "DeploymentSyncSchedulerJob"
  assemblyName := "Sentinel.Worker.Core"
  jobAttr := { configurationSection := some "Schedules:DeploymentSyncScheduler" }
  assemblyName_ne := by decide

/-- Both sections are the same. -/
def schedules (group : Option String) : Configuration := fun _ key =>
  if key = "enabled" then some "true"
  else if key = "schedule" then some "0 */1 * * * ?"
  else if key = "group" then group
  else none

def accepting : Builders := ⟨fun _ => none, fun _ => none⟩

theorem enabledJobs_schedules (group : Option String) :
    enabledJobs (schedules group) [serviceSync, deploymentSync] =
      [serviceSync, deploymentSync] := rfl

/-- Without configured groups. -/
theorem registers_iff_schedules :
    ∃ quartz, addQuartzJobs accepting (schedules none) [serviceSync, deploymentSync] = .ok quartz ∧
      RegistersJobs (schedules none) [serviceSync, deploymentSync] quartz := by
  have hspec := registers_iff accepting (schedules none) [serviceSync, deploymentSync]
  obtain ⟨quartz, hquartz⟩ := hspec.1.2 fun _ _ => ⟨rfl, rfl⟩
  refine ⟨quartz, hquartz, (hspec.2 quartz hquartz).2 ?_⟩
  intro jobType hmem group hgroup
  rw [enabledJobs_schedules, List.mem_pair] at hmem
  rcases hmem with rfl | rfl <;> cases hgroup

/-- With one group for both, they share a key. -/
theorem not_registers_sameGroup :
    ∃ quartz, addQuartzJobs accepting (schedules (some "Sync")) [serviceSync, deploymentSync] =
        .ok quartz ∧
      quartz.jobDetails.map JobDetail.key = [⟨"Sync", "Sync"⟩, ⟨"Sync", "Sync"⟩] ∧
      identity (schedules (some "Sync")) serviceSync ≠
        identity (schedules (some "Sync")) deploymentSync ∧
      ¬ RegistersJobs (schedules (some "Sync")) [serviceSync, deploymentSync] quartz := by
  refine ⟨_, addQuartzJobs_eq_ok_iff.2 ⟨fun _ _ => ⟨rfl, rfl⟩, rfl⟩, rfl, by decide, fun h => ?_⟩
  have hname := groupIsName_of_registers h serviceSync (by simp [enabledJobs_schedules]) "Sync" rfl
  revert hname
  decide

end Sentinel.QuartzJobs
