import Mathlib.Algebra.Order.Ring.Int
import KubeMapReduce.Lib.SingleFlight

/-!
# The token of the Keycloak admin client

The admin client keeps one access token for all its calls. A caller that finds it expired, or about
to expire, claims the refresh and asks the token endpoint without the lock, and the others wait.

The lifetime of a token is computed in 64-bit nanoseconds and clamped after the multiplication. It
is within the bounds exactly if the product, taken modulo 2^64, is positive, which holds up to
9223372036 seconds.

* `adminToken_refresh`: one refresh at a time, no lost wake-up, and a cached token is returned only
  with more than the skew left.
* `adminTokenTTL_iff`: which values of expires_in lead to a lifetime within the bounds.
-/

namespace KubeMapReduce

open Runs SingleFlight

variable {expiresIn : Int64} {token : String}

/-! ## 1. The lifetime -/

/-- time.Second, in nanoseconds as a 64-bit integer. -/
def durationSecond : Int64 := 1000000000

def adminTokenRefreshSkew : Int64 := 30 * durationSecond
def defaultTokenTTL : Int64 := 60 * durationSecond
def maxAdminTokenTTL : Int64 := 12 * 3600 * durationSecond

def validateAdminTokenTTL (expiresIn : Int64) : Except String Int64 :=
  if expiresIn < 0 then .error s!"invalid token expires_in value: {expiresIn.toInt}"
  else if expiresIn = 0 then .ok defaultTokenTTL
  else
    let ttl := expiresIn * durationSecond
    if maxAdminTokenTTL < ttl then .ok maxAdminTokenTTL else .ok ttl

/-- The lifetime in nanoseconds as the 64-bit product has it. -/
def wrappedNanos (expiresIn : Int64) : Int := (expiresIn.toInt * 1000000000).bmod (2 ^ 64)

theorem toInt_nanos (expiresIn : Int64) :
    (expiresIn * durationSecond).toInt = wrappedNanos expiresIn :=
  Int64.toInt_mul ..

/-- The lifetime of an answer that is not rejected. -/
theorem validateAdminTokenTTL_ok {ttl : Int64} (h : validateAdminTokenTTL expiresIn = .ok ttl) :
    (expiresIn = 0 ∧ ttl = defaultTokenTTL) ∨
    (0 < expiresIn.toInt ∧ ttl.toInt = min (wrappedNanos expiresIn) maxAdminTokenTTL.toInt) := by
  unfold validateAdminTokenTTL at h
  split at h
  · cases h
  next hneg =>
  split at h
  · next hzero => exact .inl ⟨hzero, (Except.ok.inj h).symm⟩
  next hzero =>
  refine .inr ⟨?_, ?_⟩
  · rw [Int64.lt_iff_toInt_lt] at hneg
    rw [← Int64.toInt_inj] at hzero
    exact lt_of_le_of_ne (not_lt.mp hneg) (Ne.symm hzero)
  · dsimp only at h
    split at h
    · next hmax =>
      rw [Int64.lt_iff_toInt_lt, toInt_nanos] at hmax
      rw [← Except.ok.inj h, min_eq_right (le_of_lt hmax)]
    · next hmax =>
      rw [Int64.lt_iff_toInt_lt, toInt_nanos] at hmax
      rw [← Except.ok.inj h, toInt_nanos, min_eq_left (not_lt.mp hmax)]

theorem validateAdminTokenTTL_pos (h : 0 < expiresIn.toInt) :
    ∃ ttl, validateAdminTokenTTL expiresIn = .ok ttl := by
  unfold validateAdminTokenTTL
  rw [if_neg (by rw [Int64.lt_iff_toInt_lt]; exact not_lt.mpr (le_of_lt h)),
    if_neg (by rw [← Int64.toInt_inj]; exact ne_of_gt h)]
  dsimp only
  split
  · exact ⟨_, rfl⟩
  · exact ⟨_, rfl⟩

/-- The lifetime is in order if the product is positive. -/
def WithinTTL (ttl : Int64) : Prop := 0 < ttl ∧ ttl ≤ maxAdminTokenTTL

theorem withinTTL_iff (ttl : Int64) :
    WithinTTL ttl ↔ 0 < ttl.toInt ∧ ttl.toInt ≤ maxAdminTokenTTL.toInt := by
  rw [WithinTTL, Int64.lt_iff_toInt_lt, Int64.le_iff_toInt_le]
  rfl

theorem validated_iff (expiresIn : Int64) :
    (∀ ttl, validateAdminTokenTTL expiresIn = .ok ttl → WithinTTL ttl) ↔
      expiresIn.toInt ≤ 0 ∨ 0 < wrappedNanos expiresIn := by
  constructor
  · intro h
    refine (le_or_gt expiresIn.toInt 0).imp_right fun hpos => ?_
    obtain ⟨ttl, httl⟩ := validateAdminTokenTTL_pos hpos
    have hin := ((withinTTL_iff ttl).mp (h ttl httl)).1
    rcases validateAdminTokenTTL_ok httl with ⟨rfl, _⟩ | ⟨_, heq⟩
    · cases hpos
    · exact lt_of_lt_of_le (heq ▸ hin) (min_le_left _ _)
  · intro h ttl httl
    rw [withinTTL_iff]
    rcases validateAdminTokenTTL_ok httl with ⟨_, rfl⟩ | ⟨hpos, heq⟩
    · decide
    · have hnanos := h.resolve_left (not_le.mpr hpos)
      rw [heq]
      exact ⟨lt_min hnanos (by decide), min_le_right _ _⟩

/-- Up to 292 years the product does not leave the 64 bits. -/
theorem wrappedNanos_pos (h : 0 < expiresIn.toInt) (hmax : expiresIn.toInt ≤ 9223372036) :
    0 < wrappedNanos expiresIn := by
  unfold wrappedNanos
  rw [Int.bmod_eq_of_le (by omega) (by omega)]
  omega

/-! ## 2. The refresh -/

structure KeycloakAdminClient where
  adminUser : String
  adminPass : String

/-- The fields cachedAdminToken and cachedAdminTokenTill. -/
structure CachedAdminToken where
  token : String
  till : Int

structure KeycloakTokenResponse where
  accessToken : String
  expiresIn : Int64

/-- What comes of the request: doRequest fails, or there is a response, with its body as
ensureStatus reads it and as the decoder does. -/
inductive TokenAnswer where
  | failed (err : String)
  | response (statusCode : Nat) (body : Except String String)
      (decoded : Except String KeycloakTokenResponse)

/-- The error of ensureStatus. -/
def statusError (statusCode : Nat) : Except String String → String
  | .error err =>
    s!"failed to get admin token: status {statusCode} (failed to read response body: {err})"
  | .ok body => s!"failed to get admin token: status {statusCode}: {body}"

/-- A refresh reads the answer up to its first error. -/
def readToken : TokenAnswer → Except String (String × Int64)
  | .failed err => .error err
  | .response statusCode body decoded =>
    if statusCode ≠ 200 then .error (statusError statusCode body)
    else
      match decoded with
      | .error err => .error err
      | .ok tokenResponse =>
        if tokenResponse.accessToken = "" then .error "no admin access token in response"
        else (validateAdminTokenTTL tokenResponse.expiresIn).map (tokenResponse.accessToken, ·)

/-- The last section of a refresh under the lock. Only a success writes the cached token. -/
def storeToken (cached : CachedAdminToken) (answer : TokenAnswer) (now : Int) :
    CachedAdminToken × Except String String :=
  match readToken answer with
  | .error err => (cached, .error err)
  | .ok (token, ttl) => (⟨token, now + ttl.toInt⟩, .ok token)

/-- What a call returns without a refresh. The credentials are looked at before the lock is
taken. -/
def KeycloakAdminClient.cachedResult (c : KeycloakAdminClient) (cached : CachedAdminToken)
    (now : Int) : Option (Except String String) :=
  if c.adminUser = "" ∨ c.adminPass = "" then
    some (.error "keycloak admin credentials are missing")
  else if cached.token ≠ "" ∧ now + adminTokenRefreshSkew.toInt < cached.till then
    some (.ok cached.token)
  else none

abbrev TokenCallers := Flight CachedAdminToken (Except String String)

/-- A client that has no token yet. -/
abbrev TokenCallers.new : TokenCallers := .initial ⟨"", 0⟩

/-- A step of the calls of getAdminAccessToken. -/
abbrev KeycloakAdminClient.GetAdminAccessToken (c : KeycloakAdminClient) :
    TokenCallers → Label Int TokenAnswer → TokenCallers → Prop :=
  Flies c.cachedResult storeToken

section Steps

variable {c : KeycloakAdminClient} {s s' : TokenCallers} {i : Nat} {now : Int}

theorem cachedResult_token {cached : CachedAdminToken}
    (h : c.cachedResult cached now = some (.ok token)) :
    token = cached.token ∧ now + adminTokenRefreshSkew.toInt < cached.till := by
  unfold KeycloakAdminClient.cachedResult at h
  split at h
  · cases h
  · split at h
    · next hin =>
      cases h
      exact ⟨rfl, hin.2⟩
    · cases h

/-- A token that a call returns without a refresh is the cached one, with more than the skew
left. -/
theorem cached_skew (h : c.GetAdminAccessToken s (.look i now) s')
    (hi : s'.callers i = .returned (.ok token)) :
    token = s.value.token ∧ now + adminTokenRefreshSkew.toInt < s.value.till := by
  obtain ⟨_, rfl⟩ := flies_look h
  exact cachedResult_token (look_returned hi)

end Steps

/-- In every state of every run of the callers, whatever the token endpoint answers: at most one
caller is between its claim and the release, and the claim is held exactly then. Nobody waits
while no refresh is in flight. Every answer ends a refresh, and every end releases the claim and
wakes all who wait. A token from the cache has more than the skew left. -/
theorem adminToken_refresh (c : KeycloakAdminClient) (as : List (Label Int TokenAnswer))
    (s : TokenCallers) (h : Run c.GetAdminAccessToken .new as s) :
    (∀ i j, s.callers i = .working → s.callers j = .working → i = j) ∧
    (s.claimed = true ↔ ∃ i, s.callers i = .working) ∧
    (∀ i, s.callers i = .waiting → s.claimed = true ∧ ∃ j, s.callers j = .working) ∧
    (∀ i answer now, s.callers i = .working →
      ∃ s', c.GetAdminAccessToken s (.finish i answer now) s' ∧ s'.callers i ≠ .working) ∧
    (∀ i a s', c.GetAdminAccessToken s a s' → s.callers i = .working →
      s'.callers i ≠ .working → s'.claimed = false ∧ (∃ result, s'.callers i = .returned result) ∧
        ∀ j, s.callers j = .waiting → s'.callers j = .woken) ∧
    ∀ i now s' token, c.GetAdminAccessToken s (.look i now) s' →
      s'.callers i = .returned (.ok token) →
        token = s.value.token ∧ now + adminTokenRefreshSkew.toInt < s.value.till := by
  have hsound := sound_run h
  refine ⟨hsound.one, hsound.claimed, fun i hi => ?_, fun i answer now hi => ?_,
    fun i a s' hs hi hi' => leaves hs hi hi', fun i now s' token hs hi => cached_skew hs hi⟩
  · have hclaimed := hsound.waits i hi
    exact ⟨hclaimed, hsound.claimed.mp hclaimed⟩
  · exact ⟨s.finish storeToken i answer now, by simp only [Steps, Flight.next, hi],
      (finish_free _ _ _ hsound hi i).1⟩

/-- Caller 0 claims the refresh, 1 and 2 wait, the request fails and 1 claims the next one. -/
theorem adminToken_refresh_three :
    ∃ (as : List (Label Int TokenAnswer)) (s : TokenCallers),
      Run (KeycloakAdminClient.mk "admin" "secret").GetAdminAccessToken .new as s ∧
      s.callers 1 = .working ∧ s.callers 2 = .waiting ∧
      (∀ i, s.callers i = .waiting → s.claimed = true ∧ ∃ j, s.callers j = .working) ∧
      ∀ i, s.callers i = .working → i = 1 := by
  obtain ⟨s, hs, h1, h2⟩ := (run_to (by decide) :
    ∃ s, Run (KeycloakAdminClient.mk "admin" "secret").GetAdminAccessToken .new
      [.look 0 0, .look 1 1, .look 2 2, .finish 0 (.response 503 (.ok "") (.error "EOF")) 3,
        .look 1 4, .look 2 5] s ∧ s.callers 1 = .working ∧ s.callers 2 = .waiting)
  obtain ⟨hone, _, hwaits, _⟩ := adminToken_refresh _ _ s hs
  exact ⟨_, s, hs, h1, h2, hwaits, fun i hi => hone i 1 hi h1⟩

/-! ## 3. The expiry that is cached -/

theorem readToken_ok {body : Except String String} {response : KeycloakTokenResponse} {ttl : Int64}
    (h : readToken (.response 200 body (.ok response)) = .ok (token, ttl)) :
    validateAdminTokenTTL response.expiresIn = .ok ttl := by
  dsimp only [readToken] at h
  rw [if_neg (not_not.mpr rfl)] at h
  split at h
  · cases h
  · cases hv : validateAdminTokenTTL response.expiresIn with
    | error err =>
      rw [hv] at h
      cases h
    | ok ttl' =>
      rw [hv] at h
      cases h
      rfl

theorem storeToken_ok {cached : CachedAdminToken} {answer : TokenAnswer} {now : Int}
    (h : (storeToken cached answer now).2 = .ok token) :
    ∃ ttl, readToken answer = .ok (token, ttl) ∧
      (storeToken cached answer now).1.till = now + ttl.toInt := by
  unfold storeToken at h ⊢
  cases hr : readToken answer with
  | error err =>
    rw [hr] at h
    cases h
  | ok r =>
    rw [hr] at h
    cases h
    exact ⟨r.2, rfl, rfl⟩

/-- For every value of expires_in, validateAdminTokenTTL rejects it or returns a positive lifetime
of at most the maximum, and a refresh that gets it caches an expiry after its own time and at most
the maximum later, exactly if the value is not positive or its nanoseconds are positive modulo
2^64. The values up to 9223372036 are such. -/
theorem adminTokenTTL_iff (expiresIn : Int64) :
    (((∀ ttl, validateAdminTokenTTL expiresIn = .ok ttl → 0 < ttl ∧ ttl ≤ maxAdminTokenTTL) ∧
      ∀ (c : KeycloakAdminClient) (s s' : TokenCallers) (i : Nat) (now : Int) (token : String)
        (body : Except String String),
        c.GetAdminAccessToken s (.finish i (.response 200 body (.ok ⟨token, expiresIn⟩)) now) s' →
        s'.callers i = .returned (.ok token) →
        now < s'.value.till ∧ s'.value.till ≤ now + maxAdminTokenTTL.toInt) ↔
      expiresIn.toInt ≤ 0 ∨ 0 < wrappedNanos expiresIn) ∧
    (expiresIn.toInt ≤ 9223372036 → expiresIn.toInt ≤ 0 ∨ 0 < wrappedNanos expiresIn) := by
  refine ⟨⟨fun h => (validated_iff expiresIn).mp h.1, fun h => ?_⟩, fun hmax => ?_⟩
  · have hin := (validated_iff expiresIn).mpr h
    refine ⟨hin, fun c s s' i now token body hs hi => ?_⟩
    obtain ⟨_, rfl⟩ := flies_finish hs
    unfold Flight.finish at hi ⊢
    dsimp only at hi ⊢
    rw [Function.update_self] at hi
    obtain ⟨ttl, httl, htill⟩ := storeToken_ok (Caller.returned.inj hi)
    have hvalid := readToken_ok httl
    obtain ⟨hpos, hle⟩ := (withinTTL_iff ttl).mp (hin ttl hvalid)
    rw [htill]
    exact ⟨lt_add_of_pos_right now hpos, add_le_add_right hle now⟩
  · exact (le_or_gt expiresIn.toInt 0).imp_right fun hpos => wrappedNanos_pos hpos hmax

/-- With an expires_in of 9223372037 seconds the product is negative, and the expiry that is
cached is 292 years before the time of the refresh. -/
theorem adminTokenTTL_wraps :
    validateAdminTokenTTL 9223372037 = .ok (-9223372036709551616) ∧
    ∃ s, Run (KeycloakAdminClient.mk "admin" "secret").GetAdminAccessToken .new
      [.look 0 0, .finish 0 (.response 200 (.ok "") (.ok ⟨"token", 9223372037⟩)) 1] s ∧
      s.callers 0 = .returned (.ok "token") ∧ s.value.till = 1 - 9223372036709551616 :=
  ⟨by decide, run_to (by decide)⟩

end KubeMapReduce
