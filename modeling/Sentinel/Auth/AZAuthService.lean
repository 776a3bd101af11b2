import Sentinel.DotNet.DateTime
import Sentinel.Lib.Throwing

/-!
# `AZAuthService`

One service instance with its memory cache, which has a single entry for all settings.  The token
endpoint is an arbitrary function of the request and of how many requests went before, and the
clock is arbitrary; times are UTC ticks.

* `authenticateAsync_spec` — a token that is returned comes from the cache entry or from a download
  made with the given settings.
* `authenticateAsync_requests` — a token that is returned comes from the cache iff no request is
  sent.
* `isolated_iff` — in every sequence of calls, every caller gets a token of its own tenant and
  client iff no call finds a token in the cache that has more than a minute left and was issued
  for another one.
-/

set_option autoImplicit false

namespace Sentinel

open Throwing

/-! ## The model -/

structure AZAuthServiceSettings where
  clientId : Option String
  tenantId : Option String
  secret : Option String
  deriving DecidableEq

/-- What is read of the answer. -/
structure AZToken where
  accessToken : Option String
  expiresOn : Option String

/-- `expiresOn` is in UTC ticks. -/
structure CacheToken where
  token : String
  expiresOn : ℤ

/-- The cache entry `"token"`, and how often the clock was read and the endpoint asked. -/
structure AZAuthService where
  memoryCache : Option CacheToken
  clockReads : ℕ
  requests : ℕ

structure TokenRequest where
  baseUri : String
  relativeUri : String
  form : List (String × String)
  deriving DecidableEq

namespace AZAuthService

def start : AZAuthService := ⟨none, 0, 0⟩

def isNullOrEmpty : Option String → Bool
  | none => true
  | some str => str == ""

/-- `char.IsWhiteSpace`. -/
def isWhiteSpace (c : Char) : Bool :=
  let n := c.toNat
  (0x09 ≤ n && n ≤ 0x0d) || n == 0x20 || n == 0x85 || n == 0xa0 || n == 0x1680 ||
    (0x2000 ≤ n && n ≤ 0x200a) || n == 0x2028 || n == 0x2029 || n == 0x202f || n == 0x205f ||
    n == 0x3000

end AZAuthService

def isNullOrWhiteSpace : Option String → Bool
  | none => true
  | some str => str.toList.all AZAuthService.isWhiteSpace

namespace AZAuthService

def ticksPerSecond : ℤ := 10000000

/-- 1 January 1970. -/
def unixEpochTicks : ℤ := 621355968000000000

/-- The request for a token.  A null reference is the empty text in it. -/
def tokenRequest (setting : AZAuthServiceSettings) : TokenRequest where
  baseUri := "https://login.microsoftonline.com/"
  relativeUri := setting.tenantId.getD "" ++ "/oauth2/token?resource=" ++ setting.clientId.getD ""
  form := [("grant_type", "client_credentials"), ("client_id", setting.clientId.getD ""),
    ("client_secret", setting.secret.getD ""), ("resource", setting.clientId.getD "")]

/-- Sending the request and reading the answer; null if the answer is empty. -/
abbrev Endpoint := ℕ → TokenRequest → Except Exn (Option AZToken)

variable (endpoint : Endpoint) (clock : Clock)

/-- `DateTime.UtcNow`; `DateTime.Now` is the same instant. -/
def utcNow : EStateM Exn AZAuthService ℤ :=
  fun s => .ok (clock.reading s.clockReads).moment.ticks { s with clockReads := s.clockReads + 1 }

def sendAsync (request : TokenRequest) : EStateM Exn AZAuthService (Option AZToken) := fun s =>
  match endpoint s.requests request with
  | .ok result => .ok result { s with requests := s.requests + 1 }
  | .error e => .error e { s with requests := s.requests + 1 }

def convertDatetime (unixdate : String) : EStateM Exn AZAuthService ℤ :=
  match intParse unixdate.toList with
  | .ok unixdatenumber => pure (unixEpochTicks + unixdatenumber * ticksPerSecond)
  | .error _ => utcNow clock

def cacheToken (token : CacheToken) : EStateM Exn AZAuthService Unit :=
  modify fun s => { s with memoryCache := some token }

/-- The expiry of the answer, now if there is none. -/
def expiryOr (now : ℤ) : Option String → EStateM Exn AZAuthService ℤ
  | some expires_on => convertDatetime clock expires_on
  | none => pure now

/-- A blank token is not cached. -/
def keepToken (date : ℤ) : Option String → EStateM Exn AZAuthService (Option CacheToken)
  | some token =>
    if token.toList.all isWhiteSpace then pure none
    else do
      let ctoken : CacheToken := ⟨token, date⟩
      cacheToken ctoken
      pure (some ctoken)
  | none => pure none

def downloadToken (setting : AZAuthServiceSettings) :
    EStateM Exn AZAuthService (Option CacheToken) := do
  let s ← sendAsync endpoint (tokenRequest setting)
  let now ← utcNow clock
  let date ← expiryOr clock now (s.bind AZToken.expiresOn)
  keepToken date (s.bind AZToken.accessToken)

/-- `DateTime.AddMinutes(1)`. -/
def addMinute (ticks : ℤ) : Except Exn ℤ :=
  if ticks + Gregorian.ticksPerMinute ≤ maxTicks then .ok (ticks + Gregorian.ticksPerMinute)
  else .error .argumentOutOfRangeException

/-- The entry of the cache, or a download if there is none or it expires within a minute. -/
def cachedOrDownloaded (setting : AZAuthServiceSettings) :
    EStateM Exn AZAuthService (Option CacheToken) := do
  let s ← get
  match s.memoryCache with
  | none => downloadToken endpoint clock setting
  | some token => do
    let now ← utcNow clock
    let soon ← ofExcept (addMinute now)
    if soon > token.expiresOn then downloadToken endpoint clock setting else pure (some token)

def authenticateAsync (authsettings : Option AZAuthServiceSettings) :
    EStateM Exn AZAuthService String :=
  match authsettings with
  | none => throw (.argumentNullException "settingsOptions")
  | some setting =>
    if isNullOrEmpty setting.secret then throw (.argumentNullException "setting.Secret")
    else do
      let token ← cachedOrDownloaded endpoint clock setting
      match token with
      | none => throw (.exception "token is null")
      | some token => pure token.token

/-! ## One call -/

/-- Tenant and client. -/
def identity (setting : AZAuthServiceSettings) : String × String :=
  (setting.tenantId.getD "", setting.clientId.getD "")

/-- Asked with some settings, the endpoint returns tokens for their tenant and client. -/
def IssuesFor (endpoint : Endpoint) (issuedFor : String → String × String) : Prop :=
  ∀ n setting answer token, endpoint n (tokenRequest setting) = .ok (some answer) →
    answer.accessToken = some token → issuedFor token = identity setting

/-- The clock shows at most a minute before the expiry, and the entry is used. -/
def Fresh (clock : Clock) (s : AZAuthService) (cached : CacheToken) : Prop :=
  ∃ soon, addMinute (clock.reading s.clockReads).moment.ticks = .ok soon ∧ soon ≤ cached.expiresOn

variable {endpoint clock} {issuedFor : String → String × String}

theorem utcNow_apply (clock : Clock) (s : AZAuthService) : utcNow clock s =
    .ok (clock.reading s.clockReads).moment.ticks { s with clockReads := s.clockReads + 1 } := rfl

theorem utcNow_keeps : Respects (fun s s' => s'.memoryCache = s.memoryCache) (utcNow clock) :=
  fun _ => rfl

theorem expiryOr_keeps (now : ℤ) (expires_on : Option String) :
    Respects (fun s s' => s'.memoryCache = s.memoryCache) (expiryOr clock now expires_on) := by
  unfold expiryOr convertDatetime
  split
  · split
    · exact fun _ => rfl
    · exact utcNow_keeps
  · exact fun _ => rfl

/-- What a download returns is in the cache and was sent for the settings; the cache is left alone
if nothing is returned. -/
def Downloaded (endpoint : Endpoint) (setting : AZAuthServiceSettings) (before : Option CacheToken)
    (token : Option CacheToken) (s' : AZAuthService) : Prop :=
  match token with
  | some token => s'.memoryCache = some token ∧ ∃ n answer,
      endpoint n (tokenRequest setting) = .ok (some answer) ∧ answer.accessToken = some token.token
  | none => s'.memoryCache = before

theorem keepToken_spec {setting : AZAuthServiceSettings} {before : Option CacheToken}
    {answer : Option AZToken} (date : ℤ)
    (hanswer : ∃ n, endpoint n (tokenRequest setting) = .ok answer) :
    Triple (fun s => s.memoryCache = before) (keepToken date (answer.bind AZToken.accessToken))
      (Downloaded endpoint setting before) (fun _ s => s.memoryCache = before) := by
  intro s hs
  cases htoken : answer.bind AZToken.accessToken with
  | none => exact hs
  | some token =>
    unfold keepToken
    simp only
    split
    · exact hs
    · obtain ⟨n, hn⟩ := hanswer
      obtain ⟨answer, rfl, htoken⟩ := Option.bind_eq_some_iff.1 htoken
      exact ⟨rfl, n, answer, hn, htoken⟩

theorem downloadToken_spec (setting : AZAuthServiceSettings) (before : Option CacheToken) :
    Triple (fun s => s.memoryCache = before) (downloadToken endpoint clock setting)
      (Downloaded endpoint setting before) (fun _ s => s.memoryCache = before) := by
  unfold downloadToken
  have hsend : Triple (fun s => s.memoryCache = before)
      (sendAsync endpoint (tokenRequest setting))
      (fun answer s => s.memoryCache = before ∧
        ∃ n, endpoint n (tokenRequest setting) = .ok answer)
      (fun _ s => s.memoryCache = before) := by
    intro s hs
    unfold sendAsync
    split
    · rename_i answer hanswer
      exact ⟨hs, s.requests, hanswer⟩
    · exact hs
  refine hsend.bind fun answer s hs => ?_
  refine (utcNow_keeps.keeps.bind fun now => ?_) s hs.1
  exact (expiryOr_keeps now _).keeps.bind fun date => keepToken_spec date hs.2

/-- Either the entry found in the cache, or the result of a download. -/
def Obtained (endpoint : Endpoint) (clock : Clock) (setting : AZAuthServiceSettings)
    (s : AZAuthService) (token : Option CacheToken) (s' : AZAuthService) : Prop :=
  (∃ cached, s.memoryCache = some cached ∧ Fresh clock s cached ∧ token = some cached ∧
    s'.memoryCache = s.memoryCache) ∨
  (∀ cached, s.memoryCache = some cached → ¬ Fresh clock s cached) ∧
    Downloaded endpoint setting s.memoryCache token s'

/-- **The choice between the cache and a download**: the entry is used if it is fresh, and the
download starts with the cache as it was found and no request sent. -/
theorem cachedOrDownloaded_ends {Q : Option CacheToken → AZAuthService → Prop}
    {E : Exn → AZAuthService → Prop} (setting : AZAuthServiceSettings) (s : AZAuthService)
    (hcached : ∀ cached, s.memoryCache = some cached → Fresh clock s cached →
      Q (some cached) { s with clockReads := s.clockReads + 1 })
    (hdownload : (∀ cached, s.memoryCache = some cached → ¬ Fresh clock s cached) →
      ∀ s₁, s₁.memoryCache = s.memoryCache → s₁.requests = s.requests →
        Ends Q E (downloadToken endpoint clock setting s₁))
    (hthrows : ∀ e s₁, s₁.memoryCache = s.memoryCache → E e s₁) :
    Ends Q E (cachedOrDownloaded endpoint clock setting s) := by
  unfold cachedOrDownloaded
  rw [bind_ok (get_apply s)]
  cases hcache : s.memoryCache with
  | none => exact hdownload (fun cached hsome => by simp [hcache] at hsome) s rfl rfl
  | some cached =>
    simp only
    rw [bind_ok (utcNow_apply clock s)]
    apply Ends.ofExcept_bind
    · intro soon hsoon
      split
      · rename_i hlate
        refine hdownload (fun cached' hcached' hfresh => ?_) _ rfl rfl
        obtain rfl : cached = cached' := Option.some.inj (hcache.symm.trans hcached')
        obtain ⟨soon', hsoon', hle⟩ := hfresh
        cases hsoon.symm.trans hsoon'
        exact absurd hlate (not_lt.2 hle)
      · rename_i hearly
        exact hcached cached hcache ⟨soon, hsoon, not_lt.1 hearly⟩
    · exact fun e _ => hthrows e _ rfl

theorem cachedOrDownloaded_spec (endpoint : Endpoint) (clock : Clock)
    (setting : AZAuthServiceSettings) (s : AZAuthService) :
    Ends (Obtained endpoint clock setting s) (fun _ s' => s'.memoryCache = s.memoryCache)
      (cachedOrDownloaded endpoint clock setting s) := by
  apply cachedOrDownloaded_ends
  · exact fun cached hcache hfresh => Or.inl ⟨cached, hcache, hfresh, rfl, rfl⟩
  · intro hstale s₁ hs₁ _
    exact (downloadToken_spec setting s.memoryCache s₁ hs₁).mono
      (fun token s' h => Or.inr ⟨hstale, h⟩) fun _ _ h => h
  · exact fun _ _ h => h

/-- **What one call does**: settings without a secret are refused, a token that is returned is the
one in the cache or one sent for the settings. -/
theorem authenticateAsync_spec (endpoint : Endpoint) (clock : Clock)
    (authsettings : Option AZAuthServiceSettings) (s : AZAuthService) :
    Ends (fun token s' => ∃ setting ctoken, authsettings = some setting ∧
        isNullOrEmpty setting.secret = false ∧ token = ctoken.token ∧
        Obtained endpoint clock setting s (some ctoken) s')
      (fun _ s' => s'.memoryCache = s.memoryCache)
      (authenticateAsync endpoint clock authsettings s) := by
  unfold authenticateAsync
  cases authsettings with
  | none => exact rfl
  | some setting =>
    simp only
    split
    · exact rfl
    · rename_i hsecret
      have hsecret := Bool.eq_false_of_not_eq_true hsecret
      apply (cachedOrDownloaded_spec endpoint clock setting s).bind
      intro token s' h
      cases token with
      | some ctoken => exact ⟨setting, ctoken, rfl, hsecret, rfl, h⟩
      | none =>
        rcases h with ⟨_, -, -, hnone, -⟩ | ⟨-, hsame⟩
        · cases hnone
        · exact hsame

/-- An entry with more than a minute left is returned to whoever asks. -/
theorem authenticateAsync_of_fresh (endpoint : Endpoint) {setting : AZAuthServiceSettings}
    {s : AZAuthService} {cached : CacheToken} (hsecret : isNullOrEmpty setting.secret = false)
    (hcache : s.memoryCache = some cached) (hfresh : Fresh clock s cached) :
    ∃ s', authenticateAsync endpoint clock (some setting) s = .ok cached.token s' := by
  obtain ⟨soon, hsoon, hle⟩ := hfresh
  refine ⟨{ s with clockReads := s.clockReads + 1 }, ?_⟩
  simp only [authenticateAsync, hsecret, cachedOrDownloaded, bind_apply, get_apply, hcache, utcNow,
    hsoon, ofExcept_ok, gt_iff_lt, not_lt.2 hle, if_false, pure_apply, Bool.false_eq_true]

/-! ## The requests of one call -/

theorem utcNow_requests : Respects (fun s s' => s'.requests = s.requests) (utcNow clock) :=
  fun _ => rfl

theorem expiryOr_requests (now : ℤ) (expires_on : Option String) :
    Respects (fun s s' => s'.requests = s.requests) (expiryOr clock now expires_on) := by
  unfold expiryOr convertDatetime
  split
  · split
    · exact fun _ => rfl
    · exact utcNow_requests
  · exact fun _ => rfl

theorem keepToken_requests (date : ℤ) (token : Option String) :
    Respects (fun s s' => s'.requests = s.requests) (keepToken date token) := by
  unfold keepToken
  split
  · split
    · exact fun _ => rfl
    · exact fun _ => rfl
  · exact fun _ => rfl

/-- A download sends one request. -/
theorem downloadToken_requests (setting : AZAuthServiceSettings) (n : ℕ) :
    Triple (fun s => s.requests = n) (downloadToken endpoint clock setting)
      (fun _ s => s.requests = n + 1) (fun _ s => s.requests = n + 1) := by
  have hsend : Triple (fun s => s.requests = n) (sendAsync endpoint (tokenRequest setting))
      (fun _ s => s.requests = n + 1) (fun _ s => s.requests = n + 1) := by
    rintro s rfl
    unfold sendAsync
    split
    · exact rfl
    · exact rfl
  unfold downloadToken
  refine hsend.bind fun answer => utcNow_requests.keeps.bind fun now => ?_
  exact (expiryOr_requests now _).keeps.bind fun date => (keepToken_requests date _).keeps

theorem cachedOrDownloaded_requests (endpoint : Endpoint) (clock : Clock)
    (setting : AZAuthServiceSettings) (s : AZAuthService) :
    Ends (fun _ s' => s'.requests = s.requests ↔
        ∃ cached, s.memoryCache = some cached ∧ Fresh clock s cached)
      (fun _ _ => True) (cachedOrDownloaded endpoint clock setting s) := by
  apply cachedOrDownloaded_ends
  · exact fun cached hcache hfresh => iff_of_true rfl ⟨cached, hcache, hfresh⟩
  · intro hstale s₁ _ hs₁
    refine (downloadToken_requests setting s.requests s₁ hs₁).mono (fun _ s' h => ?_)
      fun _ _ _ => trivial
    rw [h]
    exact iff_of_false (Nat.succ_ne_self _) fun ⟨cached, hcache, hfresh⟩ =>
      hstale cached hcache hfresh
  · exact fun _ _ _ => trivial

/-- **No request is sent for a token** iff the one in the cache is used. -/
theorem authenticateAsync_requests (endpoint : Endpoint) (clock : Clock)
    (authsettings : Option AZAuthServiceSettings) (s : AZAuthService) :
    Ends (fun _ s' => s'.requests = s.requests ↔
        ∃ cached, s.memoryCache = some cached ∧ Fresh clock s cached)
      (fun _ _ => True) (authenticateAsync endpoint clock authsettings s) := by
  unfold authenticateAsync
  cases authsettings with
  | none => exact trivial
  | some setting =>
    simp only
    split
    · exact trivial
    · refine (cachedOrDownloaded_requests endpoint clock setting s).bind fun token s' h => ?_
      cases token with
      | some ctoken => exact h
      | none => exact trivial

/-! ## Sequences of calls -/

variable (endpoint clock)

/-- A call with what went before it. -/
structure Call where
  earlier : List (Option AZAuthServiceSettings)
  before : AZAuthService
  authsettings : Option AZAuthServiceSettings

/-- The calls of a sequence, in order. -/
def history (earlier : List (Option AZAuthServiceSettings)) (s : AZAuthService) :
    List (Option AZAuthServiceSettings) → List Call
  | [] => []
  | authsettings :: rest => ⟨earlier, s, authsettings⟩ ::
      history (earlier ++ [authsettings])
        (finalState (authenticateAsync endpoint clock authsettings s)) rest

/-- The caller gets a token of its own tenant and client, if it gets one. -/
def Isolated (issuedFor : String → String × String) (call : Call) : Prop :=
  ∀ token s', authenticateAsync endpoint clock call.authsettings call.before = .ok token s' →
    ∃ setting, call.authsettings = some setting ∧ issuedFor token = identity setting

/-- The call finds a token in the cache that is used, and that was issued for an earlier call with
another tenant or client. -/
def Mixed (issuedFor : String → String × String) (call : Call) : Prop :=
  ∃ setting cached other, call.authsettings = some setting ∧
    isNullOrEmpty setting.secret = false ∧ call.before.memoryCache = some cached ∧
    Fresh clock call.before cached ∧ some other ∈ call.earlier ∧
    issuedFor cached.token = identity other ∧ identity other ≠ identity setting

/-- What is in the cache was issued for an earlier call. -/
def Known (issuedFor : String → String × String) (earlier : List (Option AZAuthServiceSettings))
    (s : AZAuthService) : Prop :=
  ∀ cached, s.memoryCache = some cached →
    ∃ setting, some setting ∈ earlier ∧ issuedFor cached.token = identity setting

variable {endpoint clock} {earlier : List (Option AZAuthServiceSettings)} {s : AZAuthService}

/-- One more call. -/
theorem Known.call (h : Known issuedFor earlier s) (hendpoint : IssuesFor endpoint issuedFor)
    (authsettings : Option AZAuthServiceSettings) :
    Known issuedFor (earlier ++ [authsettings])
      (finalState (authenticateAsync endpoint clock authsettings s)) := by
  have hsame : ∀ s' : AZAuthService, s'.memoryCache = s.memoryCache →
      Known issuedFor (earlier ++ [authsettings]) s' := by
    intro s' hs' cached hcached
    obtain ⟨setting, hmem, hissued⟩ := h cached (hs' ▸ hcached)
    exact ⟨setting, List.mem_append_left _ hmem, hissued⟩
  have hspec := authenticateAsync_spec endpoint clock authsettings s
  cases hr : authenticateAsync endpoint clock authsettings s with
  | error e s' =>
    rw [hr] at hspec
    exact hsame s' hspec
  | ok token s' =>
    rw [hr] at hspec
    obtain ⟨setting, ctoken, rfl, -, -,
      ⟨-, -, -, -, hcache⟩ | ⟨-, hcache, n, answer, hn, htoken⟩⟩ := hspec
    · exact hsame s' hcache
    · intro cached hcached
      obtain rfl : ctoken = cached := Option.some.inj (hcache.symm.trans hcached)
      exact ⟨setting, by simp, hendpoint n setting answer _ hn htoken⟩

/-- Every call of a sequence finds a known token, or none. -/
theorem known_of_mem_history (hendpoint : IssuesFor endpoint issuedFor)
    {calls : List (Option AZAuthServiceSettings)} (h : Known issuedFor earlier s) {call : Call}
    (hmem : call ∈ history endpoint clock earlier s calls) :
    Known issuedFor call.earlier call.before := by
  induction calls generalizing earlier s with
  | nil => cases hmem
  | cons authsettings rest ih =>
    rw [history, List.mem_cons] at hmem
    rcases hmem with rfl | hmem
    · exact h
    · exact ih (h.call hendpoint authsettings) hmem

theorem isolated_iff_not_mixed (hendpoint : IssuesFor endpoint issuedFor) {call : Call}
    (hknown : Known issuedFor call.earlier call.before) :
    Isolated endpoint clock issuedFor call ↔ ¬ Mixed clock issuedFor call := by
  have hspec := authenticateAsync_spec endpoint clock call.authsettings
    call.before
  constructor
  · rintro hisolated ⟨setting, cached, other, hsetting, hsecret, hcache, hfresh, -, hother, hne⟩
    obtain ⟨s', hr⟩ := authenticateAsync_of_fresh endpoint hsecret hcache hfresh
    rw [← hsetting] at hr
    obtain ⟨setting', hsetting', hissued⟩ := hisolated _ _ hr
    obtain rfl : setting = setting' := Option.some.inj (hsetting.symm.trans hsetting')
    exact hne (hother.symm.trans hissued)
  · intro hmixed token s' hr
    rw [hr] at hspec
    obtain ⟨setting, ctoken, hsetting, hsecret, rfl,
      ⟨cached, hcache, hfresh, heq, -⟩ | ⟨-, -, n, answer, hn, htoken⟩⟩ := hspec
    · cases heq
      refine ⟨setting, hsetting, ?_⟩
      by_contra hne
      obtain ⟨other, hother, hissued⟩ := hknown ctoken hcache
      exact hmixed ⟨setting, ctoken, other, hsetting, hsecret, hcache, hfresh, hother, hissued,
        fun heq => hne (hissued.trans heq)⟩
    · exact ⟨setting, hsetting, hendpoint n setting answer _ hn htoken⟩

theorem mem_history {calls : List (Option AZAuthServiceSettings)} {call : Call}
    (hmem : call ∈ history endpoint clock earlier s calls) :
    ∃ before after, calls = before ++ call.authsettings :: after ∧
      call.earlier = earlier ++ before := by
  induction calls generalizing earlier s with
  | nil => cases hmem
  | cons authsettings rest ih =>
    rw [history, List.mem_cons] at hmem
    rcases hmem with rfl | hmem
    · exact ⟨[], rest, rfl, (List.append_nil _).symm⟩
    · obtain ⟨before, after, hrest, hearlier⟩ := ih hmem
      exact ⟨authsettings :: before, after, by rw [hrest]; rfl, by rw [hearlier]; simp⟩

/-- No call is mixed as long as all settings have the same tenant and client. -/
theorem not_mixed_of_one_identity {calls : List (Option AZAuthServiceSettings)}
    {tenantAndClient : String × String}
    (h : ∀ setting, some setting ∈ calls → identity setting = tenantAndClient) {call : Call}
    (hmem : call ∈ history endpoint clock [] start calls) : ¬ Mixed clock issuedFor call := by
  rintro ⟨setting, cached, other, hsetting, -, -, -, hother, -, hne⟩
  obtain ⟨before, after, hcalls, hearlier⟩ := mem_history hmem
  rw [hearlier, List.nil_append] at hother
  have hsetting' : some setting ∈ calls := by rw [hcalls, ← hsetting]; simp
  have hother' : some other ∈ calls := by rw [hcalls]; simp [hother]
  exact hne ((h other hother').trans (h setting hsetting').symm)

/-! ## Two clients -/

def orders : AZAuthServiceSettings := ⟨some "orders", some "contoso", some "s3cret"⟩

def billing : AZAuthServiceSettings := ⟨some "billing", some "contoso", some "hunter2"⟩

/-- Issues one token to each of the two clients, valid until 2038. -/
def twoClients : Endpoint := fun _ request =>
  if request = tokenRequest orders then .ok (some ⟨some "token of orders", some "2147483647"⟩)
  else if request = tokenRequest billing then
    .ok (some ⟨some "token of billing", some "2147483647"⟩)
  else .ok none

def holderOf (token : String) : String × String :=
  if token = "token of orders" then identity orders else identity billing

def newYear2022 : Clock := stoppedClock (DateTime.utcDate 2022 1 1).moment

/-- The request determines the tenant and the client. -/
theorem identity_of_tokenRequest {setting setting' : AZAuthServiceSettings}
    (h : tokenRequest setting = tokenRequest setting') : identity setting = identity setting' := by
  simp only [tokenRequest, TokenRequest.mk.injEq, List.cons.injEq, Prod.mk.injEq] at h
  obtain ⟨-, huri, -, ⟨-, hclient⟩, -⟩ := h
  rw [hclient, String.append_left_inj, String.append_left_inj] at huri
  exact Prod.ext huri hclient

theorem twoClients_issuesFor : IssuesFor twoClients holderOf := by
  intro n setting answer token hanswer htoken
  unfold twoClients at hanswer
  split at hanswer
  · rename_i heq
    cases hanswer
    cases htoken
    exact (identity_of_tokenRequest heq).symm
  · split at hanswer
    · rename_i heq
      cases hanswer
      cases htoken
      exact (identity_of_tokenRequest heq).symm
    · cases hanswer

/-! ## Isolation -/

/-- **Credential isolation fails exactly at mixed calls**: in every sequence of calls on a new
service, the calls all get tokens of their own tenant and client iff none of them is mixed. -/
theorem isolated_iff (hendpoint : IssuesFor endpoint issuedFor)
    (calls : List (Option AZAuthServiceSettings)) :
    (∀ call ∈ history endpoint clock [] start calls, Isolated endpoint clock issuedFor call) ↔
      ∀ call ∈ history endpoint clock [] start calls, ¬ Mixed clock issuedFor call := by
  have hstart : Known issuedFor [] start := fun cached hcached => by cases hcached
  exact forall₂_congr fun call hmem =>
    isolated_iff_not_mixed hendpoint (known_of_mem_history hendpoint hstart hmem)

theorem isolated_iff_orders : Isolated twoClients newYear2022 holderOf ⟨[some orders],
    finalState (authenticateAsync twoClients newYear2022 (some orders) start), some orders⟩ := by
  have hone : ∀ setting, some setting ∈ [some orders, some orders] →
      identity setting = identity orders := by simp
  apply (isolated_iff twoClients_issuesFor [some orders, some orders]).2
  · intro call hmem
    exact not_mixed_of_one_identity hone hmem
  · simp [history]

/-- The second caller asks for the token of one client and gets that of the other. -/
theorem not_isolated_twoClients : ¬ ∀ (endpoint : Endpoint) (clock : Clock)
    (issuedFor : String → String × String), IssuesFor endpoint issuedFor →
    ∀ calls, ∀ call ∈ history endpoint clock [] start calls,
      Isolated endpoint clock issuedFor call := by
  intro h
  let s : AZAuthService := finalState (authenticateAsync twoClients newYear2022 (some orders) start)
  have hr : authenticateAsync twoClients newYear2022 (some billing) s =
      .ok "token of orders" { s with clockReads := s.clockReads + 1 } := by
    rfl
  obtain ⟨setting, hsetting, hholder⟩ := h twoClients newYear2022 holderOf twoClients_issuesFor
    [some orders, some billing] ⟨[some orders], s, some billing⟩ (by simp [history, s]) _ _ hr
  cases hsetting
  exact absurd hholder (by decide)

end AZAuthService

end Sentinel
