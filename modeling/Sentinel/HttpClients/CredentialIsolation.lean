import Sentinel.HttpClients.DownloadService

/-!
# Credential isolation of `DownloadService`

The token of a request is the one last put into the default headers, by whichever call.

* `step_inv` — what a proper step preserves.
* `isolated_of_proper` — in a run of proper steps every request carries a token of its own call.
* `leaks_of_improper` — after an improper step a request can carry another one.
-/

set_option autoImplicit false

namespace Sentinel.DownloadService

variable (service : DownloadService)

/-! ## Isolation -/

/-- The call has set the header and not sent its request yet. -/
def Phase.Awaits (phase : Phase) (c : Call) : Prop :=
  phase = .sending false ∨
    phase = .sending true ∧ ∃ azAuthSettings, c = .withSettings azAuthSettings

section Isolation

variable (calls : ℕ → Call) (s : State)

/-- For a call with settings the token was downloaded for these, for another by the call itself. -/
def ObtainedFor (call : ℕ) (bearer : Bearer) : Prop :=
  match calls call with
  | .withSettings azAuthSettings =>
    ∃ origin, bearer.origin = some origin ∧ azAuthSettings = some origin.setting
  | .withCert _ => ∃ origin, bearer.origin = some origin ∧ origin.call = call

/-- The request carries no token but one obtained for its call. -/
def Isolated (request : Request) : Prop :=
  ∀ bearer, request.authorization = some bearer → ObtainedFor calls request.call bearer

/-- The token the cache gives, if any, was obtained for the call. -/
def MayUseCached (call : ℕ) : Prop :=
  ∀ cached, service.UsesCached s cached → ObtainedFor calls call ⟨cached.token, s.cachedOrigin⟩

/-- A call that will send the token it asks for, with settings that have a secret, finds no other's
in the cache, and after a 401, with none to use there, its settings are the default ones.  The
header is set only to what every call that awaits its request may send, and a certificate call
sends first while it is unset. -/
def Proper : Action → Prop
  | .authenticate call =>
    (∀ azAuthSettings, s.phase call = .authenticating azAuthSettings → HasSecret azAuthSettings →
      service.MayUseCached calls s call) ∧
    (s.phase call = .reauthenticating true → HasSecret (some service.settingsOptions) →
      service.MayUseCached calls s call ∧
      ((¬ ∃ cached, service.UsesCached s cached) →
        ∀ own, calls call = .withSettings own → own = some service.settingsOptions))
  | .setHeader call => ∀ bearer, (s.phase call).Holds bearer →
      ∀ other, other ≠ call → (s.phase other).Awaits (calls other) →
        ObtainedFor calls other bearer
  | .send call _ => s.phase call = .sending true →
      (∃ certThumbprint, calls call = .withCert certThumbprint) → s.authorization = none

end Isolation

variable {service} {calls : ℕ → Call} {s s' : State} {call : ℕ}

/-! ## Proper steps -/

/-- The call is about to set the header for a request of its own. -/
def Phase.WillSend (phase : Phase) (bearer : Bearer) : Prop :=
  phase = .setting bearer ∨ phase = .resetting true bearer

/-- The tokens that calls are about to send were obtained for them. -/
structure Inv (calls : ℕ → Call) (s : State) : Prop where
  authenticating : ∀ call azAuthSettings, s.phase call = .authenticating azAuthSettings →
    calls call = .withSettings azAuthSettings
  held : ∀ call bearer, (s.phase call).WillSend bearer → ObtainedFor calls call bearer
  awaiting : ∀ call, (s.phase call).Awaits (calls call) →
    ∃ bearer, s.authorization = some bearer ∧ ObtainedFor calls call bearer
  sent : ∀ request ∈ s.sent, Isolated calls request

/-- A downloaded token was obtained for the call if its settings were asked for. -/
theorem obtainedFor_downloaded {token : String} {setting : AZAuthServiceSettings}
    (h : ∀ own, calls call = .withSettings own → own = some setting) :
    ObtainedFor calls call ⟨token, some ⟨call, setting⟩⟩ := by
  unfold ObtainedFor
  cases hcall : calls call with
  | withSettings own => exact ⟨_, rfl, h own hcall⟩
  | withCert certThumbprint => exact ⟨_, rfl, rfl⟩

/-- A step to a phase in which the call neither sends nor is new. -/
theorem Inv.update (h : Inv calls s) {az : AZAuthService} {origin : Option Origin} {next : Phase}
    (hnext : ∀ azAuthSettings, next ≠ .authenticating azAuthSettings)
    (hawaits : ¬ next.Awaits (calls call))
    (hheld : ∀ bearer, next.WillSend bearer → ObtainedFor calls call bearer) :
    Inv calls { s with
      azAuthService := az
      cachedOrigin := origin
      phase := Function.update s.phase call next } := by
  refine ⟨fun other azAuthSettings hphase => ?_, fun other bearer hsend => ?_,
    fun other hother => ?_, h.sent⟩
  · rcases of_update (P := (· = .authenticating azAuthSettings)) hphase with
      ⟨-, hnew⟩ | ⟨-, hphase⟩
    · exact absurd hnew (hnext azAuthSettings)
    · exact h.authenticating other azAuthSettings hphase
  · rcases of_update (P := (Phase.WillSend · bearer)) hsend with ⟨rfl, hnew⟩ | ⟨-, hsend⟩
    · exact hheld bearer hnew
    · exact h.held other bearer hsend
  · rcases of_update (P := (Phase.Awaits · (calls other))) hother with ⟨rfl, hnew⟩ | ⟨-, hother⟩
    · exact absurd hnew hawaits
    · exact h.awaiting other hother

theorem Inv.authenticate (h : Inv calls s) {authsettings : Option AZAuthServiceSettings}
    {next : Bearer → Phase} (hnext : ∀ bearer azAuthSettings,
      next bearer ≠ .authenticating azAuthSettings)
    (hawaits : ∀ bearer, ¬ (next bearer).Awaits (calls call))
    (hown : ∀ bearer held, (next bearer).WillSend held → bearer = held ∧
      (HasSecret authsettings → service.MayUseCached calls s call ∧
        ((¬ ∃ cached, service.UsesCached s cached) →
          ∀ own, calls call = .withSettings own → own = authsettings))) :
    Inv calls (service.authenticate s call authsettings next) := by
  by_cases hsecret : HasSecret authsettings
  swap
  · rw [authenticate_of_no_secret hsecret]
    exact h.update (by simp) (by simp [Phase.Awaits]) (by simp [Phase.WillSend])
  rcases authenticate_cases service s call authsettings next with
    ⟨az, -, heq⟩ | ⟨az, cached, hcached, -, heq⟩ |
      ⟨az, ctoken, setting, rfl, hnone, -, -, heq⟩
  · rw [heq]
    exact h.update (by simp) (by simp [Phase.Awaits]) (by simp [Phase.WillSend])
  · rw [heq]
    refine h.update (hnext _) (hawaits _) fun held hsend => ?_
    obtain ⟨rfl, hgets⟩ := hown _ _ hsend
    exact (hgets hsecret).1 cached hcached
  · rw [heq]
    refine h.update (hnext _) (hawaits _) fun held hsend => ?_
    obtain ⟨rfl, hgets⟩ := hown _ _ hsend
    exact obtainedFor_downloaded ((hgets hsecret).2 hnone)

theorem Inv.setHeader (h : Inv calls s) {bearer : Bearer} {next : Phase}
    (hnext : ∀ azAuthSettings, next ≠ .authenticating azAuthSettings)
    (hsends : ∀ held, ¬ next.WillSend held)
    (hown : next.Awaits (calls call) → ObtainedFor calls call bearer)
    (hothers : ∀ other, other ≠ call → (s.phase other).Awaits (calls other) →
      ObtainedFor calls other bearer) :
    Inv calls (setHeader s call bearer next) := by
  refine ⟨fun other azAuthSettings hphase => ?_, fun other held hsend => ?_,
    fun other hother => ⟨bearer, rfl, ?_⟩, h.sent⟩
  · rcases of_update (P := (· = .authenticating azAuthSettings)) hphase with
      ⟨-, hnew⟩ | ⟨-, hphase⟩
    · exact absurd hnew (hnext azAuthSettings)
    · exact h.authenticating other azAuthSettings hphase
  · rcases of_update (P := (Phase.WillSend · held)) hsend with ⟨-, hnew⟩ | ⟨-, hsend⟩
    · exact absurd hnew (hsends held)
    · exact h.held other held hsend
  · rcases of_update (P := (Phase.Awaits · (calls other))) hother with ⟨rfl, hnew⟩ | ⟨hne, hother⟩
    · exact hown hnew
    · exact hothers other hne hother

/-- The request that is sent is isolated: either the call awaits it, or the header is unset. -/
theorem Inv.isolated_send (h : Inv calls s) {retry : Bool} (hphase : s.phase call = .sending retry)
    (hproper : s.phase call = .sending true →
      (∃ certThumbprint, calls call = .withCert certThumbprint) → s.authorization = none) :
    Isolated calls ⟨call, s.authorization⟩ := by
  intro bearer hbearer
  by_cases hawaits : (s.phase call).Awaits (calls call)
  · obtain ⟨own, hheader, hown⟩ := h.awaiting call hawaits
    obtain rfl : own = bearer := Option.some.inj (hheader.symm.trans hbearer)
    exact hown
  · rw [Phase.Awaits, hphase] at hawaits
    cases retry with
    | false => exact absurd (.inl rfl) hawaits
    | true =>
      cases hcall : calls call with
      | withSettings azAuthSettings => exact absurd (.inr ⟨rfl, azAuthSettings, hcall⟩) hawaits
      | withCert certThumbprint =>
        cases (hproper hphase ⟨certThumbprint, hcall⟩).symm.trans hbearer

theorem Inv.send (h : Inv calls s) {retry : Bool} {statusCode : Option ℕ}
    (hisolated : Isolated calls ⟨call, s.authorization⟩) :
    Inv calls (send s call retry statusCode) := by
  have hphase : Inv calls { s with
      phase := Function.update s.phase call
        (if statusCode = some 401 then .reauthenticating retry else .finished) } := by
    split
    · exact h.update (by simp) (by simp [Phase.Awaits]) (by simp [Phase.WillSend])
    · exact h.update (by simp) (by simp [Phase.Awaits]) (by simp [Phase.WillSend])
  exact ⟨hphase.authenticating, hphase.held, hphase.awaiting,
    List.forall_mem_append.2 ⟨h.sent, List.forall_mem_singleton.2 hisolated⟩⟩

/-- **A proper step preserves the invariant.** -/
theorem step_inv (h : Inv calls s) {a : Action} (hproper : service.Proper calls s a)
    (hstep : service.step s a = some s') : Inv calls s' := by
  cases stepped hstep with
  | @authenticate call azAuthSettings hphase =>
    refine h.authenticate (by simp) (by simp [Phase.Awaits]) fun bearer held hsend => ?_
    have heq : bearer = held := by simpa [Phase.WillSend] using hsend
    refine ⟨heq, fun hsecret => ⟨hproper.1 _ hphase hsecret, fun _ own hown => ?_⟩⟩
    exact Call.withSettings.inj (hown.symm.trans (h.authenticating call azAuthSettings hphase))
  | reauthenticate hphase =>
    refine h.authenticate (by simp) (by simp [Phase.Awaits]) fun bearer held hsend => ?_
    obtain ⟨rfl, heq⟩ : _ = true ∧ bearer = held := by simpa [Phase.WillSend] using hsend
    exact ⟨heq, hproper.2 hphase⟩
  | set hphase =>
    exact h.setHeader (by simp) (by simp [Phase.WillSend]) (fun _ => h.held _ _ (.inl hphase))
      (hproper _ (.inl hphase))
  | reset hphase =>
    exact h.setHeader (by simp) (by simp [Phase.WillSend]) (fun _ => h.held _ _ (.inr hphase))
      (hproper _ (.inr ⟨true, hphase⟩))
  | resetLast hphase =>
    exact h.setHeader (by simp) (by simp [Phase.WillSend]) (by simp [Phase.Awaits])
      (hproper _ (.inr ⟨false, hphase⟩))
  | send hphase => exact h.send (h.isolated_send hphase hproper)

theorem start_inv (calls : ℕ → Call) : Inv calls (start calls) := by
  refine ⟨fun call azAuthSettings hauth => ?_, fun call bearer hsend => ?_, fun call hawaits => ?_,
    List.forall_mem_nil _⟩
  · rw [start_phase] at hauth
    cases hcall : calls call with
    | withSettings own =>
      rw [hcall] at hauth
      cases hauth
      rfl
    | withCert certThumbprint =>
      rw [hcall] at hauth
      cases hauth
  · rw [start_phase] at hsend
    cases hcall : calls call with
    | withSettings own => simp [hcall, Call.first, Phase.WillSend] at hsend
    | withCert certThumbprint => simp [hcall, Call.first, Phase.WillSend] at hsend
  · rw [start_phase] at hawaits
    cases hcall : calls call with
    | withSettings own => simp [hcall, Call.first, Phase.Awaits] at hawaits
    | withCert certThumbprint => simp [hcall, Call.first, Phase.Awaits] at hawaits

/-- **Credential isolation under proper steps**: in every run whose steps are all proper, every
request sent so far carries no token but one obtained for its call. -/
theorem isolated_of_proper {actions : List Action}
    (hproper : Runs.EveryStep service.step (fun s a _ => service.Proper calls s a) actions
      (start calls))
    (h : Runs.run service.step actions (start calls) = some s) :
    ∀ request ∈ s.sent, Isolated calls request := by
  refine (Runs.run_induction (motive := fun actions s =>
    Runs.EveryStep service.step (fun s a _ => service.Proper calls s a) actions (start calls) →
      Inv calls s) (fun _ => start_inv calls) ?_ h hproper).sent
  intro actions s₁ a s₂ hrun ih hlast hproper
  obtain ⟨hearlier, hnow⟩ := (Runs.everyStep_snoc_of_run hrun hlast).1 hproper
  exact step_inv (ih hearlier) hnow hlast

/-! ## Improper steps -/

/-- A certificate call that has not sent its first request. -/
def Unsent (calls : ℕ → Call) (s : State) (call : ℕ) : Prop :=
  s.phase call = .sending true ∧ ∃ certThumbprint, calls call = .withCert certThumbprint

/-- Certificate calls do not authenticate before their first request. -/
structure CertsSendFirst (calls : ℕ → Call) (s : State) : Prop where
  phase : ∀ call certThumbprint, calls call = .withCert certThumbprint →
    (∀ azAuthSettings, s.phase call ≠ .authenticating azAuthSettings) ∧
      ∀ bearer, s.phase call ≠ .setting bearer
  cached : ∀ origin, s.cachedOrigin = some origin → ¬ Unsent calls s origin.call
  held : ∀ call bearer origin, (s.phase call).Holds bearer → bearer.origin = some origin →
    ¬ Unsent calls s origin.call
  header : ∀ bearer origin, s.authorization = some bearer → bearer.origin = some origin →
    ¬ Unsent calls s origin.call

/-- A step of a call to another phase, in which only the call itself may mark a token. -/
theorem CertsSendFirst.update (h : CertsSendFirst calls s) {az : AZAuthService}
    {origin : Option Origin} {header : Option Bearer} {next : Phase} {sent : List Request}
    (hphase : ∀ certThumbprint, calls call = .withCert certThumbprint →
      next ≠ .sending true ∧ (∀ azAuthSettings, next ≠ .authenticating azAuthSettings) ∧
        ∀ bearer, next ≠ .setting bearer)
    (hcached : ∀ o, origin = some o → o.call = call ∨ ¬ Unsent calls s o.call)
    (hheld : ∀ bearer o, next.Holds bearer → bearer.origin = some o →
      o.call = call ∨ ¬ Unsent calls s o.call)
    (hheader : ∀ bearer o, header = some bearer → bearer.origin = some o →
      o.call = call ∨ ¬ Unsent calls s o.call) :
    CertsSendFirst calls ⟨az, origin, header, Function.update s.phase call next, sent⟩ := by
  have hunsent : ∀ other, other = call ∨ ¬ Unsent calls s other →
      ¬ Unsent calls ⟨az, origin, header, Function.update s.phase call next, sent⟩ other := by
    rintro other hother ⟨hsending, certThumbprint, hcert⟩
    rcases of_update (P := (· = .sending true)) hsending with ⟨rfl, hnew⟩ | ⟨hne, hold⟩
    · exact (hphase certThumbprint hcert).1 hnew
    · exact hother.elim hne fun hnot => hnot ⟨hold, certThumbprint, hcert⟩
  refine ⟨fun other certThumbprint hcert => ⟨fun azAuthSettings hauth => ?_, fun bearer hset => ?_⟩,
    fun o ho => hunsent _ (hcached o ho), fun other bearer o hother ho => ?_,
    fun bearer o hbearer ho => hunsent _ (hheader bearer o hbearer ho)⟩
  · rcases of_update (P := (· = .authenticating azAuthSettings)) hauth with ⟨rfl, hnew⟩ | ⟨-, hold⟩
    · exact (hphase certThumbprint hcert).2.1 azAuthSettings hnew
    · exact (h.phase other certThumbprint hcert).1 azAuthSettings hold
  · rcases of_update (P := (· = .setting bearer)) hset with ⟨rfl, hnew⟩ | ⟨-, hold⟩
    · exact (hphase certThumbprint hcert).2.2 bearer hnew
    · exact (h.phase other certThumbprint hcert).2 bearer hold
  · rcases of_update (P := (Phase.Holds · bearer)) hother with ⟨-, hnew⟩ | ⟨-, hold⟩
    · exact hunsent _ (hheld bearer o hnew ho)
    · exact hunsent _ (.inr (h.held other bearer o hold ho))

theorem CertsSendFirst.authenticate (h : CertsSendFirst calls s)
    {authsettings : Option AZAuthServiceSettings} {next : Bearer → Phase}
    (hphase : ∀ bearer certThumbprint, calls call = .withCert certThumbprint →
      next bearer ≠ .sending true ∧
        (∀ azAuthSettings, next bearer ≠ .authenticating azAuthSettings) ∧
        ∀ held, next bearer ≠ .setting held)
    (hnext : ∀ bearer held, (next bearer).Holds held → bearer = held) :
    CertsSendFirst calls (service.authenticate s call authsettings next) := by
  have hheader : ∀ bearer o, s.authorization = some bearer → bearer.origin = some o →
      o.call = call ∨ ¬ Unsent calls s o.call :=
    fun bearer o hbearer ho => .inr (h.header bearer o hbearer ho)
  rcases authenticate_cases service s call authsettings next with
    ⟨az, -, heq⟩ | ⟨az, cached, -, -, heq⟩ | ⟨az, ctoken, setting, -, -, -, -, heq⟩
  · rw [heq]
    exact h.update (by simp) (fun o ho => .inr (h.cached o ho)) (by simp) hheader
  · rw [heq]
    refine h.update (hphase _) (fun o ho => .inr (h.cached o ho)) (fun held o hheld ho => ?_)
      hheader
    rw [← hnext _ _ hheld] at ho
    exact .inr (h.cached o ho)
  · rw [heq]
    refine h.update (hphase _) (fun o ho => ?_) (fun held o hheld ho => ?_) hheader
    · cases ho
      exact .inl rfl
    · rw [← hnext _ _ hheld] at ho
      cases ho
      exact .inl rfl

theorem CertsSendFirst.setHeader (h : CertsSendFirst calls s) {bearer : Bearer} {next : Phase}
    (hphase : (s.phase call).Holds bearer)
    (hnext : ∀ certThumbprint, calls call = .withCert certThumbprint →
      next ≠ .sending true ∧ (∀ azAuthSettings, next ≠ .authenticating azAuthSettings) ∧
        ∀ held, next ≠ .setting held)
    (hheld : ∀ held, ¬ next.Holds held) :
    CertsSendFirst calls (DownloadService.setHeader s call bearer next) := by
  refine h.update hnext (fun o ho => .inr (h.cached o ho))
    (fun held o hnew _ => absurd hnew (hheld held)) fun held o hbearer ho => ?_
  cases hbearer
  exact .inr (h.held call bearer o hphase ho)

theorem CertsSendFirst.step (h : CertsSendFirst calls s) {a : Action}
    (hstep : service.step s a = some s') : CertsSendFirst calls s' := by
  cases stepped hstep with
  | @authenticate call azAuthSettings hphase =>
    refine h.authenticate (fun bearer certThumbprint hcert => ?_) fun _ _ => holds_setting.1
    exact absurd hphase ((h.phase call certThumbprint hcert).1 azAuthSettings)
  | reauthenticate _ => exact h.authenticate (by simp) fun _ _ => holds_resetting.1
  | @set call bearer hphase =>
    refine h.setHeader (.inl hphase) (fun certThumbprint hcert => ?_) fun _ => not_holds_sending
    exact absurd hphase ((h.phase call certThumbprint hcert).2 bearer)
  | reset hphase => exact h.setHeader (.inr ⟨_, hphase⟩) (by simp) fun _ => not_holds_sending
  | resetLast hphase => exact h.setHeader (.inr ⟨_, hphase⟩) (by simp) fun _ => not_holds_finished
  | @send call retry statusCode hphase =>
    have hheader : ∀ bearer o, s.authorization = some bearer → bearer.origin = some o →
        o.call = call ∨ ¬ Unsent calls s o.call :=
      fun bearer o hbearer ho => .inr (h.header bearer o hbearer ho)
    unfold send
    split
    · exact h.update (by simp) (fun o ho => .inr (h.cached o ho)) (by simp) hheader
    · exact h.update (by simp) (fun o ho => .inr (h.cached o ho)) (by simp) hheader

theorem start_certsSendFirst (calls : ℕ → Call) : CertsSendFirst calls (start calls) := by
  refine ⟨fun call certThumbprint hcert => ?_, fun origin horigin => ?_,
    fun call bearer origin hheld _ => ?_, fun bearer origin hbearer _ => ?_⟩
  · rw [start_phase, hcert]
    exact ⟨fun azAuthSettings hauth => (by cases hauth), fun bearer hset => (by cases hset)⟩
  · cases horigin
  · exact absurd hheld (start_not_holds calls call bearer)
  · cases hbearer

theorem run_certsSendFirst {actions : List Action}
    (h : Runs.run service.step actions (start calls) = some s) : CertsSendFirst calls s :=
  Runs.run_invariant (CertsSendFirst calls) (fun _ => True)
    (fun _ _ _ hs _ hstep => hs.step hstep) (start_certsSendFirst calls) (fun _ _ => trivial) h

/-- A run from here on sends a request that is not isolated. -/
def Leaks (service : DownloadService) (calls : ℕ → Call) (s : State) : Prop :=
  ∃ actions s', Runs.run service.step actions s = some s' ∧
    ∃ request ∈ s'.sent, ¬ Isolated calls request

theorem leaks_of_sending {retry : Bool} {bearer : Bearer} (hphase : s.phase call = .sending retry)
    (hheader : s.authorization = some bearer) (hnot : ¬ ObtainedFor calls call bearer) :
    Leaks service calls s := by
  refine ⟨[.send call none], send s call retry none, ?_, ⟨call, s.authorization⟩, by simp [send],
    fun hisolated => hnot (hisolated bearer hheader)⟩
  rw [Runs.run_singleton]
  simp only [step, hphase]

theorem leaks_of_willSend {bearer : Bearer} (hphase : (s.phase call).WillSend bearer)
    (hnot : ¬ ObtainedFor calls call bearer) : Leaks service calls s := by
  have hset : ∃ retry, service.step s (.setHeader call) =
      some (setHeader s call bearer (.sending retry)) := by
    rcases hphase with hphase | hphase
    · exact ⟨true, by simp only [step, hphase]⟩
    · exact ⟨false, by simp only [step, hphase]⟩
  obtain ⟨retry, hset⟩ := hset
  have hsent : Leaks service calls (setHeader s call bearer (.sending retry)) :=
    leaks_of_sending (Function.update_self _ _ _) rfl hnot
  obtain ⟨actions, s', hrun, hleak⟩ := hsent
  refine ⟨.setHeader call :: actions, s', ?_, hleak⟩
  rw [Runs.run, hset]
  exact hrun

/-- The token that the call gets is the one of the cache, or one for the settings asked for. -/
theorem leaks_of_authenticate {authsettings : Option AZAuthServiceSettings}
    {next : Bearer → Phase} (hnext : ∀ bearer, (next bearer).WillSend bearer)
    (hreturns : (service.authenticate s call authsettings next).phase call ≠ .finished)
    (himproper : ¬ service.MayUseCached calls s call ∨
      (¬ ∃ cached, service.UsesCached s cached) ∧
        ∃ own, calls call = .withSettings own ∧ own ≠ authsettings) :
    Leaks service calls (service.authenticate s call authsettings next) := by
  rcases authenticate_cases service s call authsettings next with
    ⟨az, -, heq⟩ | ⟨az, cached, hcached, -, heq⟩ | ⟨az, ctoken, setting, rfl, hnone, -, -, heq⟩
  · rw [heq] at hreturns
    exact absurd (Function.update_self _ _ _) hreturns
  · rw [heq]
    rcases himproper with hnot | ⟨hnone, -⟩
    · have hsends := hnext ⟨cached.token, s.cachedOrigin⟩
      rw [← Function.update_self call (next _) s.phase] at hsends
      refine leaks_of_willSend hsends fun hown => hnot fun other hother => ?_
      obtain rfl : cached = other := Option.some.inj (hcached.1.symm.trans hother.1)
      exact hown
    · exact absurd ⟨cached, hcached⟩ hnone
  · rw [heq]
    rcases himproper with hnot | ⟨-, own, hown, hne⟩
    · exact absurd (fun cached hcached => absurd ⟨cached, hcached⟩ hnone) hnot
    · have hsends := hnext ⟨ctoken.token, some ⟨call, setting⟩⟩
      rw [← Function.update_self call (next _) s.phase] at hsends
      refine leaks_of_willSend hsends ?_
      rw [ObtainedFor, hown]
      rintro ⟨origin, horigin, hsetting⟩
      cases horigin
      exact hne hsetting

theorem leaks_of_setHeader {bearer : Bearer} {next : Phase} {other : ℕ} (hne : other ≠ call)
    (hawaits : (s.phase other).Awaits (calls other)) (hnot : ¬ ObtainedFor calls other bearer) :
    Leaks service calls (setHeader s call bearer next) := by
  obtain ⟨retry, hsending⟩ : ∃ retry, s.phase other = .sending retry := by
    rcases hawaits with hsending | ⟨hsending, -⟩
    · exact ⟨false, hsending⟩
    · exact ⟨true, hsending⟩
  exact leaks_of_sending ((Function.update_of_ne hne _ _).trans hsending) rfl hnot

/-- **After an improper step a request can be sent that is not isolated**, unless authenticating
threw. -/
theorem leaks_of_improper {actions : List Action} {a : Action}
    (h : Runs.run service.step actions (start calls) = some s) (hstep : service.step s a = some s')
    (himproper : ¬ service.Proper calls s a)
    (hreturns : ∀ call, a = .authenticate call → s'.phase call ≠ .finished) :
    Leaks service calls s' := by
  have hset : ∀ call, a = .setHeader call → ∃ bearer, (s.phase call).Holds bearer ∧
      ∃ other, other ≠ call ∧ (s.phase other).Awaits (calls other) ∧
        ¬ ObtainedFor calls other bearer := by
    rintro call rfl
    simpa only [Proper, not_forall, exists_prop] using himproper
  cases stepped hstep with
  | authenticate hphase =>
    refine leaks_of_authenticate (fun bearer => .inl rfl) (hreturns _ rfl) (.inl fun hown => ?_)
    refine himproper ⟨fun _ _ _ => hown, fun hre => ?_⟩
    cases hphase.symm.trans hre
  | @reauthenticate call retry hphase =>
    cases retry with
    | false =>
      refine absurd ⟨fun azAuthSettings hauth => ?_, fun hre => ?_⟩ himproper
      · cases hphase.symm.trans hauth
      · cases hphase.symm.trans hre
    | true =>
      refine leaks_of_authenticate (fun bearer => .inr rfl) (hreturns _ rfl) ?_
      by_contra hown
      obtain ⟨hcached, hdefault⟩ := not_or.1 hown
      refine himproper ⟨fun azAuthSettings hauth => ?_,
        fun _ _ => ⟨not_not.1 hcached, fun hnone own hcall => ?_⟩⟩
      · cases hphase.symm.trans hauth
      · by_contra hne
        exact hdefault ⟨hnone, own, hcall, hne⟩
  | set hphase =>
    obtain ⟨bearer, hheld, other, hne, hawaits, hnot⟩ := hset _ rfl
    rw [hphase, holds_setting] at hheld
    exact leaks_of_setHeader hne hawaits (hheld ▸ hnot)
  | reset hphase =>
    obtain ⟨bearer, hheld, other, hne, hawaits, hnot⟩ := hset _ rfl
    rw [hphase, holds_resetting] at hheld
    exact leaks_of_setHeader hne hawaits (hheld ▸ hnot)
  | resetLast hphase =>
    obtain ⟨bearer, hheld, other, hne, hawaits, hnot⟩ := hset _ rfl
    rw [hphase, holds_resetting] at hheld
    exact leaks_of_setHeader hne hawaits (hheld ▸ hnot)
  | @send call retry statusCode hphase =>
    obtain ⟨hsending, ⟨certThumbprint, hcert⟩, hheader⟩ : s.phase call = .sending true ∧
        (∃ certThumbprint, calls call = .withCert certThumbprint) ∧ s.authorization ≠ none := by
      simpa only [Proper, Classical.not_imp] using himproper
    obtain ⟨bearer, hbearer⟩ := Option.ne_none_iff_exists'.1 hheader
    refine ⟨[], _, rfl, ⟨call, s.authorization⟩, by simp [send], fun hisolated => ?_⟩
    have hown := hisolated bearer hbearer
    rw [ObtainedFor, hcert] at hown
    obtain ⟨origin, horigin, rfl⟩ := hown
    exact (run_certsSendFirst h).header bearer origin hbearer horigin
      ⟨hsending, certThumbprint, hcert⟩

/-! ## Two calls -/

/-- A download with the settings of orders, and one with a certificate. -/
def twoCalls (call : ℕ) : Call :=
  if call = 0 then .withSettings (some AZAuthService.orders) else .withCert "40A1"

/-- The default settings are those of billing. -/
def billingByDefault : DownloadService :=
  ⟨AZAuthService.twoClients, AZAuthService.newYear2022, AZAuthService.billing⟩

def ordersToken : Bearer := ⟨"token of orders", some ⟨0, AZAuthService.orders⟩⟩

theorem twoCalls_of_ne {call : ℕ} (h : call ≠ 0) : twoCalls call = .withCert "40A1" := if_neg h

/-- The certificate call sends first. -/
def certFirst : List Action :=
  [.send 1 (some 200), .authenticate 0, .setHeader 0, .send 0 (some 200)]

theorem certFirst_proper : Runs.EveryStep billingByDefault.step
    (fun s a _ => billingByDefault.Proper twoCalls s a) certFirst (start twoCalls) := by
  unfold certFirst
  rw [Runs.everyStep_cons]
  intro s₁ h₁
  cases h₁
  refine ⟨fun _ _ => rfl, ?_⟩
  rw [Runs.everyStep_cons]
  intro s₂ h₂
  cases h₂
  refine ⟨⟨fun _ _ _ cached hcached => ?_, fun hphase => ?_⟩, ?_⟩
  · cases hcached.1
  · cases hphase
  rw [Runs.everyStep_cons]
  intro s₃ h₃
  cases h₃
  refine ⟨fun bearer hheld other hne hawaits => ?_, ?_⟩
  · have hphase : Function.update (Function.update (start twoCalls).phase 1 .finished) 0
        (.setting ordersToken) other = .sending false := by
      refine hawaits.resolve_right ?_
      rintro ⟨-, azAuthSettings, hcall⟩
      cases (twoCalls_of_ne hne).symm.trans hcall
    rw [Function.update_of_ne hne] at hphase
    rcases of_update (P := (· = .sending false)) hphase with ⟨-, hnew⟩ | ⟨-, hfirst⟩
    · cases hnew
    · rw [start_phase, twoCalls_of_ne hne] at hfirst
      cases hfirst
  rw [Runs.everyStep_cons]
  intro s₄ h₄
  cases h₄
  refine ⟨fun hphase hcert => ?_, Runs.everyStep_nil⟩
  obtain ⟨certThumbprint, hcert⟩ := hcert
  cases hcert

theorem isolated_of_proper_certFirst : ∃ s, Runs.run billingByDefault.step certFirst
      (start twoCalls) = some s ∧ s.sent = [⟨1, none⟩, ⟨0, some ordersToken⟩] ∧
      ∀ request ∈ s.sent, Isolated twoCalls request :=
  ⟨_, rfl, rfl, isolated_of_proper certFirst_proper rfl⟩

/-- Tokens without an expiry expire at once. -/
def expiringTokens : AZAuthService.Endpoint := fun n request =>
  (AZAuthService.twoClients n request).map fun answer =>
    answer.map fun token => { token with expiresOn := none }

/-- The certificate call sends the token of the other one, and the retry after a 401 sends a token
for the default settings. -/
theorem not_isolated_twoCalls :
    (∃ s, Runs.run billingByDefault.step
        [.authenticate 0, .setHeader 0, .send 1 (some 200)] (start twoCalls) = some s ∧
      s.sent = [⟨1, some ordersToken⟩] ∧ ¬ ∀ request ∈ s.sent, Isolated twoCalls request) ∧
    ∃ s, Runs.run { billingByDefault with endpoint := expiringTokens }.step
        [.authenticate 0, .setHeader 0, .send 0 (some 401), .authenticate 0, .setHeader 0,
          .send 0 (some 200)] (start twoCalls) = some s ∧
      s.sent = [⟨0, some ordersToken⟩,
        ⟨0, some ⟨"token of billing", some ⟨0, AZAuthService.billing⟩⟩⟩] ∧
      ¬ ∀ request ∈ s.sent, Isolated twoCalls request := by
  constructor
  · refine ⟨_, rfl, rfl, fun hisolated => ?_⟩
    obtain ⟨origin, horigin, hcall⟩ :=
      hisolated _ (List.mem_singleton_self _) ordersToken rfl
    cases horigin
    exact absurd hcall (by decide)
  · refine ⟨_, rfl, rfl, fun hisolated => ?_⟩
    obtain ⟨origin, horigin, hsettings⟩ :=
      hisolated _ (List.mem_cons_of_mem _ (List.mem_singleton_self _)) _ rfl
    cases horigin
    exact absurd hsettings (by decide)

end Sentinel.DownloadService
