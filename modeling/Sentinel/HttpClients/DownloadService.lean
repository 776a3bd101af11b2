import Sentinel.Auth.AZAuthService
import Sentinel.Lib.Runs

/-!
# `DownloadService`

Calls of `DownloadAsync` on one instance.  They share the default headers of the client and the
token cache, and their steps interleave: authenticating, setting the header and sending.  A token
is marked with the call and the settings it was downloaded for, which the code does not know.

* `authenticate_cases` — a token is the one of the cache, or downloaded for the settings.
* `run_genuine` — in every run the endpoint sent each token for the settings of its mark.
-/

set_option autoImplicit false

namespace Sentinel

/-! ## The model -/

/-- What a token was downloaded for. -/
structure Origin where
  call : ℕ
  setting : AZAuthServiceSettings
  deriving DecidableEq

structure Bearer where
  token : String
  origin : Option Origin
  deriving DecidableEq

/-- The token endpoint, the clock and the default settings. -/
structure DownloadService where
  endpoint : AZAuthService.Endpoint
  clock : Clock
  settingsOptions : AZAuthServiceSettings

namespace DownloadService

/-- The overloads of `DownloadAsync`. -/
inductive Call where
  | withSettings (azAuthSettings : Option AZAuthServiceSettings)
  | withCert (certThumbprint : String)

/-- What a call does next. -/
inductive Phase where
  | authenticating (azAuthSettings : Option AZAuthServiceSettings)
  | setting (bearer : Bearer)
  | sending (retry : Bool)
  | reauthenticating (retry : Bool)
  | resetting (retry : Bool) (bearer : Bearer)
  | finished

structure Request where
  call : ℕ
  authorization : Option Bearer
  deriving DecidableEq

/-- `authorization` is in the default headers; `cachedOrigin` marks the token in the cache. -/
structure State where
  azAuthService : AZAuthService
  cachedOrigin : Option Origin
  authorization : Option Bearer
  phase : ℕ → Phase
  sent : List Request

/-- The next step of a call.  A request is answered with a status code, or fails. -/
inductive Action where
  | authenticate (call : ℕ)
  | setHeader (call : ℕ)
  | send (call : ℕ) (statusCode : Option ℕ)

def Call.first : Call → Phase
  | .withSettings azAuthSettings => .authenticating azAuthSettings
  | .withCert _ => .sending true

def start (calls : ℕ → Call) : State :=
  ⟨.start, none, none, fun call => (calls call).first, []⟩

variable (service : DownloadService)

/-- `AuthenticateAsync`; an exception ends the call. -/
def authenticate (s : State) (call : ℕ) (authsettings : Option AZAuthServiceSettings)
    (next : Bearer → Phase) : State :=
  match AZAuthService.authenticateAsync service.endpoint service.clock authsettings
      s.azAuthService with
  | .ok bearerToken azAuthService =>
    -- the token is the one of the cache iff nothing was sent to the endpoint
    let origin :=
      if azAuthService.requests = s.azAuthService.requests then s.cachedOrigin
      else authsettings.map (⟨call, ·⟩)
    { s with
      azAuthService := azAuthService
      cachedOrigin := origin
      phase := Function.update s.phase call (next ⟨bearerToken, origin⟩) }
  | .error _ azAuthService =>
    { s with
      azAuthService := azAuthService
      phase := Function.update s.phase call .finished }

def setHeader (s : State) (call : ℕ) (bearer : Bearer) (next : Phase) : State :=
  { s with
    authorization := some bearer
    phase := Function.update s.phase call next }

/-- The retry after a 401 is the last one, but the header is set after its answer too. -/
def send (s : State) (call : ℕ) (retry : Bool) (statusCode : Option ℕ) : State :=
  { s with
    phase := Function.update s.phase call
      (if statusCode = some 401 then .reauthenticating retry else .finished)
    sent := s.sent ++ [⟨call, s.authorization⟩] }

def step (s : State) : Action → Option State
  | .authenticate call =>
    match s.phase call with
    | .authenticating azAuthSettings =>
      some (service.authenticate s call azAuthSettings .setting)
    | .reauthenticating retry =>
      some (service.authenticate s call (some service.settingsOptions) (.resetting retry))
    | _ => none
  | .setHeader call =>
    match s.phase call with
    | .setting bearer => some (setHeader s call bearer (.sending true))
    | .resetting true bearer => some (setHeader s call bearer (.sending false))
    | .resetting false bearer => some (setHeader s call bearer .finished)
    | _ => none
  | .send call statusCode =>
    match s.phase call with
    | .sending retry => some (send s call retry statusCode)
    | _ => none

/-! ## One step -/

/-- The settings get past the first checks of `AuthenticateAsync`. -/
def HasSecret (authsettings : Option AZAuthServiceSettings) : Prop :=
  ∃ setting, authsettings = some setting ∧ AZAuthService.isNullOrEmpty setting.secret = false

/-- The token in the cache is used when the next call authenticates. -/
def UsesCached (s : State) (cached : CacheToken) : Prop :=
  s.azAuthService.memoryCache = some cached ∧
    AZAuthService.Fresh service.clock s.azAuthService cached

variable {service} {calls : ℕ → Call} {s s' : State} {call : ℕ}

/-- What a step can be. -/
inductive Stepped (service : DownloadService) (s : State) : Action → State → Prop
  | authenticate {call : ℕ} {azAuthSettings : Option AZAuthServiceSettings} :
      s.phase call = .authenticating azAuthSettings →
      Stepped service s (.authenticate call) (service.authenticate s call azAuthSettings .setting)
  | reauthenticate {call : ℕ} {retry : Bool} : s.phase call = .reauthenticating retry →
      Stepped service s (.authenticate call)
        (service.authenticate s call (some service.settingsOptions) (.resetting retry))
  | set {call : ℕ} {bearer : Bearer} : s.phase call = .setting bearer →
      Stepped service s (.setHeader call) (setHeader s call bearer (.sending true))
  | reset {call : ℕ} {bearer : Bearer} : s.phase call = .resetting true bearer →
      Stepped service s (.setHeader call) (setHeader s call bearer (.sending false))
  | resetLast {call : ℕ} {bearer : Bearer} : s.phase call = .resetting false bearer →
      Stepped service s (.setHeader call) (setHeader s call bearer .finished)
  | send {call : ℕ} {retry : Bool} {statusCode : Option ℕ} : s.phase call = .sending retry →
      Stepped service s (.send call statusCode) (send s call retry statusCode)

theorem stepped {a : Action} (h : service.step s a = some s') : Stepped service s a s' := by
  cases a with
  | authenticate call =>
    simp only [step] at h
    split at h
    · rename_i hphase
      cases h
      exact .authenticate hphase
    · rename_i hphase
      cases h
      exact .reauthenticate hphase
    · cases h
  | setHeader call =>
    simp only [step] at h
    split at h
    · rename_i hphase
      cases h
      exact .set hphase
    · rename_i hphase
      cases h
      exact .reset hphase
    · rename_i hphase
      cases h
      exact .resetLast hphase
    · cases h
  | send call statusCode =>
    simp only [step] at h
    split at h
    · rename_i hphase
      cases h
      exact .send hphase
    · cases h

/-- The token was sent by the endpoint in answer to a request with the settings of its mark. -/
def Genuine (service : DownloadService) (bearer : Bearer) : Prop :=
  ∃ origin, bearer.origin = some origin ∧ ∃ n answer,
    service.endpoint n (AZAuthService.tokenRequest origin.setting) = .ok (some answer) ∧
      answer.accessToken = some bearer.token

/-- **How authenticating ends**: with an exception, with the token of the cache, or with a token
downloaded for the settings. -/
theorem authenticate_cases (service : DownloadService) (s : State) (call : ℕ)
    (authsettings : Option AZAuthServiceSettings) (next : Bearer → Phase) :
    (∃ az, az.memoryCache = s.azAuthService.memoryCache ∧
      service.authenticate s call authsettings next =
        { s with azAuthService := az, phase := Function.update s.phase call .finished }) ∨
    (∃ az cached, service.UsesCached s cached ∧ az.memoryCache = s.azAuthService.memoryCache ∧
      service.authenticate s call authsettings next =
        { s with
          azAuthService := az
          phase := Function.update s.phase call (next ⟨cached.token, s.cachedOrigin⟩) }) ∨
    ∃ az ctoken setting, authsettings = some setting ∧
      (¬ ∃ cached, service.UsesCached s cached) ∧ az.memoryCache = some ctoken ∧
      Genuine service ⟨ctoken.token, some ⟨call, setting⟩⟩ ∧
      service.authenticate s call authsettings next =
        { s with
          azAuthService := az
          cachedOrigin := some ⟨call, setting⟩
          phase := Function.update s.phase call
            (next ⟨ctoken.token, some ⟨call, setting⟩⟩) } := by
  have hspec := AZAuthService.authenticateAsync_spec service.endpoint service.clock authsettings
    s.azAuthService
  have hrequests := AZAuthService.authenticateAsync_requests service.endpoint service.clock
    authsettings s.azAuthService
  unfold authenticate
  cases hr : AZAuthService.authenticateAsync service.endpoint service.clock authsettings
      s.azAuthService with
  | error e az =>
    rw [hr] at hspec
    exact .inl ⟨az, hspec, rfl⟩
  | ok token az =>
    rw [hr] at hspec hrequests
    obtain ⟨setting, ctoken, rfl, -, rfl,
      ⟨cached, hcache, hfresh, heq, hsame⟩ | ⟨hstale, hcache, n, answer, hn, htoken⟩⟩ := hspec
    · cases heq
      have hcount : az.requests = s.azAuthService.requests := hrequests.2 ⟨_, hcache, hfresh⟩
      simp only [if_pos hcount]
      exact .inr (.inl ⟨az, _, ⟨hcache, hfresh⟩, hsame, rfl⟩)
    · have hnone : ¬ ∃ cached, service.UsesCached s cached :=
        fun ⟨cached, hcached, hfresh⟩ => hstale cached hcached hfresh
      have hcount : az.requests ≠ s.azAuthService.requests := fun hcount =>
        hnone (hrequests.1 hcount)
      simp only [if_neg hcount]
      exact .inr (.inr ⟨az, ctoken, setting, rfl, hnone, hcache,
        ⟨_, rfl, n, answer, hn, htoken⟩, rfl⟩)

/-- Settings without a secret end the call before the cache is read. -/
theorem authenticate_of_no_secret {authsettings : Option AZAuthServiceSettings}
    (h : ¬ HasSecret authsettings) (service : DownloadService) (s : State) (call : ℕ)
    (next : Bearer → Phase) : service.authenticate s call authsettings next =
      { s with phase := Function.update s.phase call .finished } := by
  have hthrows : ∃ e, AZAuthService.authenticateAsync service.endpoint service.clock authsettings
      s.azAuthService = .error e s.azAuthService := by
    cases authsettings with
    | none => exact ⟨_, rfl⟩
    | some setting =>
      have hempty : AZAuthService.isNullOrEmpty setting.secret = true :=
        (Bool.eq_false_or_eq_true _).resolve_right fun hsecret => h ⟨setting, rfl, hsecret⟩
      simp only [AZAuthService.authenticateAsync, hempty, if_true]
      exact ⟨_, rfl⟩
  obtain ⟨e, hthrows⟩ := hthrows
  unfold authenticate
  rw [hthrows]

/-! ## The tokens are what their marks say -/

/-- The call is about to set the header. -/
def Phase.Holds (phase : Phase) (bearer : Bearer) : Prop :=
  phase = .setting bearer ∨ ∃ retry, phase = .resetting retry bearer

section Holds

variable {bearer held : Bearer} {retry : Bool}

@[simp] theorem holds_setting : (Phase.setting bearer).Holds held ↔ bearer = held := by
  simp [Phase.Holds]

@[simp] theorem holds_resetting : (Phase.resetting retry bearer).Holds held ↔ bearer = held := by
  simp [Phase.Holds]

@[simp] theorem not_holds_sending : ¬ (Phase.sending retry).Holds held := by
  simp [Phase.Holds]

@[simp] theorem not_holds_reauthenticating : ¬ (Phase.reauthenticating retry).Holds held := by
  simp [Phase.Holds]

@[simp] theorem not_holds_finished : ¬ Phase.finished.Holds held := by
  simp [Phase.Holds]

end Holds

/-- What holds of a phase after a step holds of the new one of the call, or held before. -/
theorem of_update {P : Phase → Prop} {p : ℕ → Phase} {next : Phase} {other : ℕ}
    (h : P (Function.update p call next other)) :
    (other = call ∧ P next) ∨ (other ≠ call ∧ P (p other)) := by
  by_cases hother : other = call
  · subst hother
    rw [Function.update_self] at h
    exact .inl ⟨rfl, h⟩
  · rw [Function.update_of_ne hother] at h
    exact .inr ⟨hother, h⟩

structure AllGenuine (service : DownloadService) (s : State) : Prop where
  cached : ∀ cached, s.azAuthService.memoryCache = some cached →
    Genuine service ⟨cached.token, s.cachedOrigin⟩
  held : ∀ call bearer, (s.phase call).Holds bearer → Genuine service bearer
  header : ∀ bearer, s.authorization = some bearer → Genuine service bearer
  sent : ∀ request ∈ s.sent, ∀ bearer, request.authorization = some bearer →
    Genuine service bearer

/-- A step to another phase, with another cache. -/
theorem AllGenuine.update (h : AllGenuine service s) {az : AZAuthService}
    {origin : Option Origin} {next : Phase}
    (hcached : ∀ cached, az.memoryCache = some cached → Genuine service ⟨cached.token, origin⟩)
    (hheld : ∀ bearer, next.Holds bearer → Genuine service bearer) :
    AllGenuine service { s with
      azAuthService := az
      cachedOrigin := origin
      phase := Function.update s.phase call next } := by
  refine ⟨hcached, fun other bearer hother => ?_, h.header, h.sent⟩
  rcases of_update (P := (Phase.Holds · bearer)) hother with ⟨-, hnew⟩ | ⟨-, hother⟩
  · exact hheld bearer hnew
  · exact h.held other bearer hother

theorem AllGenuine.authenticate (h : AllGenuine service s)
    {authsettings : Option AZAuthServiceSettings} {next : Bearer → Phase}
    (hnext : ∀ bearer held, (next bearer).Holds held → bearer = held) :
    AllGenuine service (service.authenticate s call authsettings next) := by
  rcases authenticate_cases service s call authsettings next with
    ⟨az, hcache, heq⟩ | ⟨az, cached, hcached, hcache, heq⟩ |
      ⟨az, ctoken, setting, -, -, hcache, hgenuine, heq⟩
  · rw [heq]
    refine h.update (fun cached hcached => h.cached cached (hcache ▸ hcached)) fun held hheld => ?_
    exact absurd hheld not_holds_finished
  · rw [heq]
    refine h.update (fun cached hcached => h.cached cached (hcache ▸ hcached)) fun held hheld => ?_
    rw [← hnext _ _ hheld]
    exact h.cached cached hcached.1
  · rw [heq]
    refine h.update (fun cached hcached => ?_) fun held hheld => ?_
    · obtain rfl : ctoken = cached := Option.some.inj (hcache.symm.trans hcached)
      exact hgenuine
    · rw [← hnext _ _ hheld]
      exact hgenuine

theorem AllGenuine.setHeader (h : AllGenuine service s) {bearer : Bearer}
    (hbearer : Genuine service bearer) {next : Phase} (hnext : ∀ held, ¬ next.Holds held) :
    AllGenuine service (setHeader s call bearer next) := by
  refine ⟨h.cached, fun other held hheld => ?_, fun held hheld => ?_, h.sent⟩
  · rcases of_update (P := (Phase.Holds · held)) hheld with ⟨-, hnone⟩ | ⟨-, hheld⟩
    · exact absurd hnone (hnext held)
    · exact h.held other held hheld
  · cases hheld
    exact hbearer

theorem AllGenuine.send (h : AllGenuine service s) (retry : Bool) (statusCode : Option ℕ) :
    AllGenuine service (send s call retry statusCode) := by
  have hphase : AllGenuine service { s with
      phase := Function.update s.phase call
        (if statusCode = some 401 then .reauthenticating retry else .finished) } := by
    split
    · exact h.update h.cached fun held hheld => absurd hheld not_holds_reauthenticating
    · exact h.update h.cached fun held hheld => absurd hheld not_holds_finished
  exact ⟨hphase.cached, hphase.held, hphase.header,
    List.forall_mem_append.2 ⟨h.sent, List.forall_mem_singleton.2 h.header⟩⟩

theorem AllGenuine.step (h : AllGenuine service s) {a : Action}
    (hstep : service.step s a = some s') : AllGenuine service s' := by
  cases stepped hstep with
  | authenticate _ => exact h.authenticate fun _ _ => holds_setting.1
  | reauthenticate _ => exact h.authenticate fun _ _ => holds_resetting.1
  | set hphase => exact h.setHeader (h.held _ _ (.inl hphase)) fun _ => not_holds_sending
  | reset hphase => exact h.setHeader (h.held _ _ (.inr ⟨_, hphase⟩)) fun _ => not_holds_sending
  | resetLast hphase =>
    exact h.setHeader (h.held _ _ (.inr ⟨_, hphase⟩)) fun _ => not_holds_finished
  | send _ => exact h.send _ _

theorem start_phase (calls : ℕ → Call) (call : ℕ) :
    (start calls).phase call = (calls call).first := rfl

theorem start_not_holds (calls : ℕ → Call) (call : ℕ) (bearer : Bearer) :
    ¬ ((start calls).phase call).Holds bearer := by
  rw [start_phase]
  cases calls call with
  | withSettings azAuthSettings => simp [Call.first, Phase.Holds]
  | withCert certThumbprint => simp [Call.first, Phase.Holds]

theorem start_genuine (service : DownloadService) (calls : ℕ → Call) :
    AllGenuine service (start calls) := by
  refine ⟨fun cached hcached => ?_, fun call bearer hheld => ?_, fun bearer hbearer => ?_, ?_⟩
  · cases hcached
  · exact absurd hheld (start_not_holds calls call bearer)
  · cases hbearer
  · exact List.forall_mem_nil _

/-- **In every run, the endpoint sent each token for the settings of its mark.** -/
theorem run_genuine {actions : List Action}
    (h : Runs.run service.step actions (start calls) = some s) : AllGenuine service s :=
  Runs.run_invariant (AllGenuine service) (fun _ => True) (fun _ _ _ hs _ hstep => hs.step hstep)
    (start_genuine service calls) (fun _ _ => trivial) h

end DownloadService

end Sentinel
