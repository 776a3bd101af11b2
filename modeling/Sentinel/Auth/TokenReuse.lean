import Sentinel.Auth.AZAuthService

/-!
# How long a downloaded token is used

The expiry of an answer is the decimal text of a number of seconds since 1970.  `convertDatetime`
reads it as a 32-bit number, and takes the time of the download where it does not fit.

* `intParse_toString` — which decimal texts `int.Parse` reads.
* `authenticateAsync_download` — what a call that downloads a token leaves in the cache.
* `served_iff_fresh` — when the next call is served from the cache.
* `reuse_iff` — when it is served exactly as long as the token has a minute left.
-/

set_option autoImplicit false

namespace Sentinel

open Throwing

/-! ## Decimal texts -/

theorem digitsValue_eq_ofDigitChars {digits : Text} (h : ∀ c ∈ digits, c.isDigit = true) :
    digitsValue digits = Nat.ofDigitChars 10 digits 0 := by
  unfold digitsValue
  suffices ∀ n : ℕ, digits.foldl
      (fun n c => n * 10 + ((c.toNat : ℤ) - ('0'.toNat : ℤ))) (n : ℤ) =
        (Nat.ofDigitChars 10 digits n : ℤ) from this 0
  induction digits with
  | nil =>
    intro n
    rw [Nat.ofDigitChars_nil]
    rfl
  | cons c digits ih =>
    obtain ⟨hc, hdigits⟩ := List.forall_mem_cons.1 h
    intro n
    have hzero : '0'.toNat ≤ c.toNat := by
      simp only [Char.isDigit, Bool.and_eq_true, decide_eq_true_eq] at hc
      exact hc.1
    rw [List.foldl_cons, Nat.ofDigitChars_cons, ← ih hdigits]
    congr 1
    rw [Nat.cast_add, Nat.cast_mul, Nat.cast_sub hzero]
    push_cast
    ring

theorem isDigit_of_mem_toDigits {n : ℕ} {c : Char} (h : c ∈ Nat.toDigits 10 n) :
    c.isDigit = true :=
  Nat.isDigit_of_mem_toDigits (by decide) (by decide) h

theorem digitsValue_toDigits (n : ℕ) : digitsValue (Nat.toDigits 10 n) = n := by
  rw [digitsValue_eq_ofDigitChars fun c hc => isDigit_of_mem_toDigits hc,
    Nat.ofDigitChars_toDigits (by decide) (by decide)]

/-- **The decimal text of a number** is read if the number fits in 32 bits. -/
theorem intParse_toString (n : ℕ) : intParse (toString n).toList =
    if (n : ℤ) ≤ intMaxValue then .ok (n : ℤ) else .error .overflowException := by
  have htext : (toString n).toList = Nat.toDigits 10 n := Nat.toList_repr
  have hdigits : ∀ d ∈ Nat.toDigits 10 n, d.isDigit = true := fun d hd => isDigit_of_mem_toDigits hd
  have hvalue := digitsValue_toDigits n
  rw [htext]
  cases hlist : Nat.toDigits 10 n with
  | nil => exact absurd hlist Nat.toDigits_ne_nil
  | cons c rest =>
    rw [hlist] at hdigits hvalue
    rw [intParse_numeral hdigits, hvalue]

namespace AZAuthService

/-! ## A download -/

/-- The instant a number of seconds after 1970. -/
def unixInstant (n : ℕ) : ℤ := unixEpochTicks + n * ticksPerSecond

/-- The expiry the cache holds for the text of an answer: the instant it names, or a time at which
the clock was read before. -/
def Expiry (clock : Clock) (n : ℕ) (s : AZAuthService) (expiresOn : ℤ) : Prop :=
  if (n : ℤ) ≤ intMaxValue then expiresOn = unixInstant n
  else ∃ k < s.clockReads, expiresOn = (clock.reading k).moment.ticks

variable {endpoint : Endpoint} {clock : Clock} {setting : AZAuthServiceSettings}
  {s s₁ : AZAuthService} {answer : AZToken} {n : ℕ}

theorem expiryOr_toString (clock : Clock) (n : ℕ) (now : ℤ) (s : AZAuthService) :
    ∃ date s', expiryOr clock now (some (toString n)) s = .ok date s' ∧
      s'.requests = s.requests ∧ Expiry clock n s' date := by
  unfold expiryOr convertDatetime Expiry
  simp only [intParse_toString]
  by_cases hfits : (n : ℤ) ≤ intMaxValue
  · simp only [if_pos hfits]
    exact ⟨_, s, rfl, rfl, rfl⟩
  · simp only [if_neg hfits]
    exact ⟨_, _, utcNow_apply clock s, rfl, s.clockReads, Nat.lt_succ_self _, rfl⟩

theorem keepToken_ends (date : ℤ) (token : Option String) (s : AZAuthService) :
    Ends (fun kept s' => ∀ ctoken, kept = some ctoken → s'.memoryCache = some ctoken ∧
        s'.clockReads = s.clockReads ∧ ctoken.expiresOn = date)
      (fun _ _ => True) (keepToken date token s) := by
  unfold keepToken
  split
  · split
    · intro ctoken hnone
      cases hnone
    · intro ctoken hsome
      cases hsome
      exact ⟨rfl, rfl, rfl⟩
  · intro ctoken hnone
    cases hnone

/-- **What a download leaves**: a token that is returned is in the cache, with the expiry of the
answer. -/
theorem downloadToken_ends
    (hanswer : endpoint s.requests (tokenRequest setting) = .ok (some answer))
    (hexpires : answer.expiresOn = some (toString n)) :
    Ends (fun token s' => ∀ ctoken, token = some ctoken → s'.memoryCache = some ctoken ∧
        Expiry clock n s' ctoken.expiresOn)
      (fun _ _ => True) (downloadToken endpoint clock setting s) := by
  unfold downloadToken
  have hsend : sendAsync endpoint (tokenRequest setting) s =
      .ok (some answer) { s with requests := s.requests + 1 } := by
    unfold sendAsync
    rw [hanswer]
  rw [bind_ok hsend, bind_ok (utcNow_apply clock _), Option.bind_some, hexpires]
  obtain ⟨date, s', hdate, -, hexpiry⟩ := expiryOr_toString clock n
    (clock.reading s.clockReads).moment.ticks
    { s with clockReads := s.clockReads + 1, requests := s.requests + 1 }
  rw [bind_ok hdate]
  refine (keepToken_ends date _ s').mono (fun token s₂ h ctoken htoken => ?_) fun _ _ h => h
  obtain ⟨hcache, hreads, heq⟩ := h ctoken htoken
  refine ⟨hcache, ?_⟩
  unfold Expiry at hexpiry ⊢
  rwa [hreads, heq]

/-- **A call that downloads a token** leaves it in the cache. -/
theorem authenticateAsync_download (clock : Clock)
    (hanswer : endpoint s.requests (tokenRequest setting) = .ok (some answer))
    (hexpires : answer.expiresOn = some (toString n)) :
    Ends (fun token s' => s'.requests ≠ s.requests → isNullOrEmpty setting.secret = false ∧
        ∃ ctoken, token = ctoken.token ∧ s'.memoryCache = some ctoken ∧
          Expiry clock n s' ctoken.expiresOn)
      (fun _ _ => True) (authenticateAsync endpoint clock (some setting) s) := by
  unfold authenticateAsync
  simp only
  split
  · trivial
  · rename_i hsecret
    have hcall : Ends (fun token s' => s'.requests ≠ s.requests → ∀ ctoken, token = some ctoken →
          s'.memoryCache = some ctoken ∧ Expiry clock n s' ctoken.expiresOn)
        (fun _ _ => True) (cachedOrDownloaded endpoint clock setting s) := by
      apply cachedOrDownloaded_ends
      · exact fun cached hcache hfresh hsent => absurd rfl hsent
      · intro hstale s₁ hcache hrequests
        rw [← hrequests] at hanswer
        exact (downloadToken_ends hanswer hexpires).mono (fun token s' h _ => h) fun _ _ h => h
      · exact fun _ _ _ => trivial
    refine hcall.bind fun token s' h => ?_
    cases token with
    | none => trivial
    | some ctoken =>
      exact fun hsent => ⟨Bool.eq_false_of_not_eq_true hsecret, ctoken, rfl, h hsent ctoken rfl⟩

/-! ## The next call -/

/-- The call answers with the token and sends no request. -/
def ServedFromCache (endpoint : Endpoint) (clock : Clock) (setting : AZAuthServiceSettings)
    (s : AZAuthService) (token : String) : Prop :=
  ∃ s', authenticateAsync endpoint clock (some setting) s = .ok token s' ∧
    s'.requests = s.requests

theorem served_iff_fresh {ctoken : CacheToken} (hsecret : isNullOrEmpty setting.secret = false)
    (hcache : s.memoryCache = some ctoken) :
    ServedFromCache endpoint clock setting s ctoken.token ↔ Fresh clock s ctoken := by
  have hrequests := authenticateAsync_requests endpoint clock (some setting) s
  constructor
  · rintro ⟨s', hr, hnone⟩
    rw [hr] at hrequests
    obtain ⟨cached, hcached, hfresh⟩ := hrequests.1 hnone
    cases hcache.symm.trans hcached
    exact hfresh
  · intro hfresh
    obtain ⟨s', hr⟩ := authenticateAsync_of_fresh endpoint hsecret hcache hfresh
    rw [hr] at hrequests
    exact ⟨s', hr, hrequests.2 ⟨ctoken, hcache, hfresh⟩⟩

/-- The time the next call reads. -/
def nextReading (clock : Clock) (s : AZAuthService) : ℤ := (clock.reading s.clockReads).moment.ticks

theorem fresh_iff {ctoken : CacheToken} (hmax : ctoken.expiresOn ≤ maxTicks) :
    Fresh clock s ctoken ↔ nextReading clock s + Gregorian.ticksPerMinute ≤ ctoken.expiresOn := by
  unfold Fresh addMinute nextReading
  constructor
  · rintro ⟨soon, hsoon, hle⟩
    split at hsoon
    · cases hsoon
      exact hle
    · cases hsoon
  · intro hle
    exact ⟨_, if_pos (hle.trans hmax), hle⟩

theorem unixInstant_le {n : ℕ} (hmax : n ≤ 253402300799) : unixInstant n ≤ maxTicks := by
  unfold unixInstant unixEpochTicks ticksPerSecond maxTicks
  omega

/-- A token that was given the time of its download is never used again. -/
theorem not_fresh_of_reading {ctoken : CacheToken} {k : ℕ}
    (hclock : Monotone fun k => (clock.reading k).moment.ticks) (hk : k < s.clockReads)
    (hexpires : ctoken.expiresOn = (clock.reading k).moment.ticks) : ¬ Fresh clock s ctoken := by
  rintro ⟨soon, hsoon, hle⟩
  unfold addMinute at hsoon
  split at hsoon
  · cases hsoon
    have hread : (clock.reading k).moment.ticks ≤ (clock.reading s.clockReads).moment.ticks :=
      hclock hk.le
    have hminute : 0 < Gregorian.ticksPerMinute := by decide
    omega
  · cases hsoon

/-- **The reuse window**: after a call that downloads a token, the next call is served from the
cache iff the token has a minute left, exactly when the expiry fits in 32 bits or is less than a
minute away. -/
theorem reuse_iff {token : String} (hmax : n ≤ 253402300799)
    (hclock : Monotone fun k => (clock.reading k).moment.ticks)
    (hanswer : endpoint s.requests (tokenRequest setting) = .ok (some answer))
    (hexpires : answer.expiresOn = some (toString n))
    (hcall : authenticateAsync endpoint clock (some setting) s = .ok token s₁)
    (hsent : s₁.requests ≠ s.requests) :
    (ServedFromCache endpoint clock setting s₁ token ↔
        nextReading clock s₁ + Gregorian.ticksPerMinute ≤ unixInstant n) ↔
      n ≤ 2147483647 ∨ unixInstant n < nextReading clock s₁ + Gregorian.ticksPerMinute := by
  have hdownload := authenticateAsync_download clock hanswer hexpires
  rw [hcall] at hdownload
  obtain ⟨hsecret, ctoken, rfl, hcache, hexpiry⟩ := hdownload hsent
  rw [served_iff_fresh hsecret hcache]
  unfold Expiry intMaxValue at hexpiry
  split at hexpiry
  · rename_i hfits
    have hle := unixInstant_le hmax
    rw [fresh_iff (hexpiry ▸ hle), hexpiry]
    exact iff_of_true Iff.rfl (.inl (by omega))
  · rename_i hlarge
    obtain ⟨k, hk, hreading⟩ := hexpiry
    rw [iff_false_left (not_fresh_of_reading hclock hk hreading), not_le]
    exact (or_iff_right (by omega)).symm

/-- The clock of New Year 2022 does not run back. -/
theorem newYear2022_monotone : Monotone fun k => (newYear2022.reading k).moment.ticks :=
  fun _ _ _ => le_rfl

/-- In 2022 the token that is valid until January 2038 is used again. -/
theorem reuse_iff_orders : ∃ s₁,
    authenticateAsync twoClients newYear2022 (some orders) start = .ok "token of orders" s₁ ∧
      ServedFromCache twoClients newYear2022 orders s₁ "token of orders" := by
  have hcall : ∃ s₁, authenticateAsync twoClients newYear2022 (some orders) start =
      .ok "token of orders" s₁ ∧ s₁.requests = 1 := ⟨_, rfl, rfl⟩
  obtain ⟨s₁, hcall, hsent⟩ := hcall
  have hexpires : some "2147483647" = some (toString 2147483647) := by decide +kernel
  have hnow : nextReading newYear2022 start + Gregorian.ticksPerMinute ≤ unixInstant 2147483647 :=
    by decide +kernel
  have hreuse := reuse_iff (by decide) newYear2022_monotone rfl hexpires hcall
    (hsent ▸ Nat.one_ne_zero)
  exact ⟨s₁, hcall, (hreuse.2 (.inl le_rfl)).2 hnow⟩

/-- Issues tokens that are valid until 19 January 2038, 03:14:08. -/
def untilTooLarge : Endpoint := fun _ _ => .ok (some ⟨some "token", some "2147483648"⟩)

/-- In 2022 such a token is downloaded again by the next call. -/
theorem not_reused_tooLarge : ∃ s₁,
    authenticateAsync untilTooLarge newYear2022 (some orders) start = .ok "token" s₁ ∧
      s₁.requests ≠ start.requests ∧ "2147483648" = toString 2147483648 ∧
      nextReading newYear2022 s₁ + Gregorian.ticksPerMinute ≤ unixInstant 2147483648 ∧
      ¬ ServedFromCache untilTooLarge newYear2022 orders s₁ "token" := by
  refine ⟨_, rfl, by decide, by decide +kernel, by decide +kernel, ?_⟩
  rintro ⟨s', hr, hnone⟩
  cases hr
  cases hnone

end AZAuthService

end Sentinel
