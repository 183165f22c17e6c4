import Mathlib.Data.Rat.Cast.Order
import KubeMapReduce.Lib.TokenBucket

/-!
# The rate limit of a user

The middleware keeps a token bucket for every user it has seen, and a sweep deletes the buckets of
users that were idle for longer than the TTL. A user without a bucket gets a full one. The lookup of
a request and its Allow are one step, and times and tokens are exact rationals, in seconds.

* `middleware_swept`: the decisions do not depend on the sweeps, if the TTL is at least a second.
* `rateLimit_bounded`: so at most r + r * T requests of a user pass in T seconds.
-/

namespace KubeMapReduce

open TokenBucket

/-! ## 1. The middleware -/

abbrev TokenBucketLimiter := Limiter ℚ

def newTokenBucketLimiter (requestsPerSecond now : ℚ) : TokenBucketLimiter where
  tokens := requestsPerSecond
  capacity := requestsPerSecond
  refillRate := requestsPerSecond
  lastRefill := now

structure UserLimiterEntry where
  limiter : TokenBucketLimiter
  lastSeen : ℚ

/-- Ten minutes. -/
def defaultPerUserLimiterIdleTTL : ℚ := 600

/-- The map from the users to their entries. -/
abbrev Limiters := String → Option UserLimiterEntry

/-- The subject of a request is `none` if it has no valid claims. The time of a sweep is that of
its cutoff, which is taken before the lock. -/
inductive LimiterEvent where
  | request (subject : Option String) (now : ℚ)
  | sweep (now : ℚ)

def LimiterEvent.now : LimiterEvent → ℚ
  | .request _ now => now
  | .sweep now => now

def LimiterEvent.isRequest : LimiterEvent → Bool
  | .request _ _ => true
  | .sweep _ => false

/-- A request and whether it is let through. -/
structure Served where
  subject : Option String
  now : ℚ
  allowed : Bool

/-- The limiter of a user: a new one if there is no entry. -/
def Limiters.limiter (m : Limiters) (r : ℚ) (userID : String) (now : ℚ) : TokenBucketLimiter :=
  match m userID with
  | some entry => entry.limiter
  | none => newTokenBucketLimiter r now

def Limiters.handle (m : Limiters) (r : ℚ) (subject : Option String) (now : ℚ) :
    Bool × Limiters :=
  match subject with
  | none => (true, m)
  | some userID =>
    (((m.limiter r userID now).allow now).1,
      Function.update m userID (some ⟨((m.limiter r userID now).allow now).2, now⟩))

/-- The loop of a sweep. -/
def Limiters.sweep (m : Limiters) (idleTTL now : ℚ) : Limiters :=
  fun userID => (m userID).filter fun entry => !decide (entry.lastSeen < now - idleTTL)

/-- What becomes of the requests, in their order. -/
def middleware (r idleTTL : ℚ) : Limiters → List LimiterEvent → List Served
  | _, [] => []
  | m, .request subject now :: events =>
    ⟨subject, now, (m.handle r subject now).1⟩ ::
      middleware r idleTTL (m.handle r subject now).2 events
  | m, .sweep now :: events => middleware r idleTTL (m.sweep idleTTL now) events

def perUserRateLimitMiddlewareWithOptions (requestsPerSecond idleTTL : ℚ)
    (events : List LimiterEvent) : List Served :=
  middleware requestsPerSecond
    (if idleTTL ≤ 0 then defaultPerUserLimiterIdleTTL else idleTTL) (fun _ => none) events

def perUserRateLimitMiddleware (requestsPerSecond : ℚ) (events : List LimiterEvent) :
    List Served :=
  perUserRateLimitMiddlewareWithOptions requestsPerSecond defaultPerUserLimiterIdleTTL events

/-- A clock has been read at the time of an event or before. -/
def Timed (events : List LimiterEvent) : Prop :=
  events.Pairwise fun e e' => e'.isRequest = true → e.now ≤ e'.now

/-! ## 2. Sweeps -/

section Sweeps

variable {r idleTTL now : ℚ} {m m' : Limiters} {events : List LimiterEvent} {e : LimiterEvent}
  {userID : String}

/-- An entry of a limiter that nobody has used since, before the requests to come. -/
structure UserLimiterEntry.Sound (r : ℚ) (events : List LimiterEvent)
    (entry : UserLimiterEntry) : Prop where
  wellFormed : entry.limiter.WellFormed
  capacity : entry.limiter.capacity = r
  refillRate : entry.limiter.refillRate = r
  lastRefill : entry.limiter.lastRefill = entry.lastSeen
  lastSeen : ∀ e ∈ events, e.isRequest = true → entry.lastSeen ≤ e.now

/-- All requests to come find the entry idle for longer than the TTL. -/
def UserLimiterEntry.Idle (idleTTL : ℚ) (events : List LimiterEvent)
    (entry : UserLimiterEntry) : Prop :=
  ∀ e ∈ events, e.isRequest = true → entry.lastSeen + idleTTL < e.now

/-- `m'` has the entries of `m`, and some that are idle. -/
structure Forgets (r idleTTL : ℚ) (events : List LimiterEvent) (m m' : Limiters) : Prop where
  sound : ∀ userID, ∀ entry ∈ m' userID, entry.Sound r events
  same : ∀ userID, m userID = m' userID ∨
    m userID = none ∧ ∀ entry ∈ m' userID, entry.Idle idleTTL events

theorem UserLimiterEntry.Sound.tail {entry : UserLimiterEntry} (h : entry.Sound r (e :: events)) :
    entry.Sound r events :=
  { h with lastSeen := fun e he => h.lastSeen e (List.mem_cons_of_mem _ he) }

theorem Forgets.tail (h : Forgets r idleTTL (e :: events) m m') :
    Forgets r idleTTL events m m' where
  sound userID entry hentry := (h.sound userID entry hentry).tail
  same userID := (h.same userID).imp_right fun ⟨hnone, hidle⟩ =>
    ⟨hnone, fun entry hentry e he => hidle entry hentry e (List.mem_cons_of_mem _ he)⟩

/-- A sweep forgets entries that are idle for all requests to come. -/
theorem Forgets.sweep (h : Forgets r idleTTL events m m')
    (hnow : ∀ e ∈ events, e.isRequest = true → now ≤ e.now) :
    Forgets r idleTTL events (m.sweep idleTTL now) m' := by
  refine ⟨h.sound, fun userID => ?_⟩
  rcases h.same userID with heq | ⟨hnone, hidle⟩
  · unfold Limiters.sweep
    rw [heq]
    cases hm : m' userID with
    | none => exact .inl rfl
    | some entry =>
      by_cases hold : entry.lastSeen < now - idleTTL
      · refine .inr ⟨by simpa using lt_sub_iff_add_lt.mp hold, ?_⟩
        rintro _ ⟨⟩ e he hreq
        have ht := hnow e he hreq
        linarith
      · exact .inl (by simp [hold])
  · exact .inr ⟨by simp [Limiters.sweep, hnone], hidle⟩

theorem new_wellFormed (hr : 0 < r) : (newTokenBucketLimiter r now).WellFormed :=
  ⟨le_of_lt hr, le_of_lt hr, le_of_lt hr⟩

/-- An idle limiter is full again, as a new one is. -/
theorem allow_idle {entry : UserLimiterEntry} (hr : 0 < r) (hsound : entry.Sound r events)
    (hidle : entry.lastSeen + 1 ≤ now) :
    entry.limiter.allow now = (newTokenBucketLimiter r now).allow now := by
  refine allow_eq now _ _ hsound.capacity hsound.refillRate ?_
  have hfull : entry.limiter.refill now = r := by
    refine (refill_full hsound.wellFormed ?_).trans hsound.capacity
    rw [hsound.capacity, hsound.refillRate, hsound.lastRefill]
    exact le_mul_of_one_le_right (le_of_lt hr) (by linarith)
  have hnew : (newTokenBucketLimiter r now).refill now = r := by
    simp [Limiter.refill, newTokenBucketLimiter]
  rw [hfull, hnew]

/-- A request is decided the same way, and leaves the same limiter. -/
theorem Forgets.allow (h : Forgets r idleTTL (.request (some userID) now :: events) m m')
    (hr : 0 < r) (hTTL : 1 ≤ idleTTL) :
    (m.limiter r userID now).allow now = (m'.limiter r userID now).allow now := by
  unfold Limiters.limiter
  rcases h.same userID with heq | ⟨hnone, hidle⟩
  · rw [heq]
  · rw [hnone]
    cases hm : m' userID with
    | none => rfl
    | some entry =>
      have hpause := hidle entry hm _ List.mem_cons_self rfl
      refine (allow_idle hr (h.sound userID entry hm) ?_).symm
      dsimp only [LimiterEvent.now] at hpause
      linarith

theorem limiter_sound (h : ∀ entry ∈ m userID, entry.Sound r (.request (some userID) now :: events))
    (hr : 0 < r) :
    (m.limiter r userID now).WellFormed ∧ (m.limiter r userID now).capacity = r ∧
      (m.limiter r userID now).refillRate = r ∧ (m.limiter r userID now).lastRefill ≤ now := by
  unfold Limiters.limiter
  cases hm : m userID with
  | none => exact ⟨new_wellFormed hr, rfl, rfl, le_rfl⟩
  | some entry =>
    have hsound := h entry hm
    refine ⟨hsound.wellFormed, hsound.capacity, hsound.refillRate, ?_⟩
    exact hsound.lastRefill.trans_le (hsound.lastSeen _ List.mem_cons_self rfl)

theorem Forgets.request (h : Forgets r idleTTL (.request (some userID) now :: events) m m')
    (hr : 0 < r) (hTTL : 1 ≤ idleTTL)
    (hnow : ∀ e ∈ events, e.isRequest = true → now ≤ e.now) :
    Forgets r idleTTL events (m.handle r (some userID) now).2
      (m'.handle r (some userID) now).2 := by
  have hallow := h.allow hr hTTL
  obtain ⟨hwf, hcap, hrate, hlast⟩ := limiter_sound (h.sound userID) hr
  dsimp only [Limiters.handle]
  rw [hallow]
  refine ⟨fun other entry hentry => ?_, fun other => ?_⟩
  · rcases eq_or_ne other userID with rfl | hne
    · rw [Function.update_self] at hentry
      cases hentry
      exact ⟨WellFormed.allow hwf hlast, by rw [allow_capacity, hcap],
        by rw [allow_refillRate, hrate], allow_lastRefill _ _, hnow⟩
    · rw [Function.update_of_ne hne] at hentry
      exact h.tail.sound other entry hentry
  · rcases eq_or_ne other userID with rfl | hne
    · rw [Function.update_self, Function.update_self]
      exact .inl rfl
    · rw [Function.update_of_ne hne, Function.update_of_ne hne]
      exact h.tail.same other

/-- The sweeps change no decision. -/
theorem middleware_swept (hr : 0 < r) (hTTL : 1 ≤ idleTTL) (htimed : Timed events)
    (h : Forgets r idleTTL events m m') :
    middleware r idleTTL m events =
      middleware r idleTTL m' (events.filter LimiterEvent.isRequest) := by
  induction events generalizing m m' with
  | nil => rfl
  | cons e events ih =>
    obtain ⟨hnow, htail⟩ := List.pairwise_cons.mp htimed
    cases e with
    | sweep now =>
      rw [List.filter_cons_of_neg (by simp [LimiterEvent.isRequest]), middleware]
      exact ih htail (h.tail.sweep hnow)
    | request subject now =>
      rw [List.filter_cons_of_pos rfl, middleware, middleware]
      cases subject with
      | none => exact congrArg _ (ih htail h.tail)
      | some userID =>
        rw [ih htail (h.request hr hTTL hnow)]
        simp only [Limiters.handle, h.allow hr hTTL]

end Sweeps

/-! ## 3. The requests of a user -/

section User

variable {r idleTTL now a b : ℚ} {m : Limiters} {events : List LimiterEvent} {userID : String}

/-- The times of the requests of a user. -/
def requestTimes (userID : String) (events : List LimiterEvent) : List ℚ :=
  events.filterMap fun
    | .request subject now => if subject = some userID then some now else none
    | .sweep _ => none

/-- The requests of a user with their decisions. -/
def userLog (userID : String) (log : List Served) : List (ℚ × Bool) :=
  log.filterMap fun d => if d.subject = some userID then some (d.now, d.allowed) else none

/-- The number of requests of a user between two times that are let through. -/
def letThrough (userID : String) (a b : ℚ) (log : List Served) : Nat :=
  log.countP fun d =>
    decide (d.subject = some userID) && (d.allowed && (decide (a ≤ d.now) && decide (d.now ≤ b)))

theorem letThrough_eq (userID : String) (a b : ℚ) (log : List Served) :
    letThrough userID a b log = allowedIn a b (userLog userID log) := by
  induction log with
  | nil => rfl
  | cons d log ih =>
    unfold letThrough allowedIn userLog at ih ⊢
    rw [List.countP_cons, List.filterMap_cons, ih]
    by_cases hd : d.subject = some userID
    · simp [hd, List.countP_cons]
    · simp [hd]

theorem userLog_cons (userID : String) (d : Served) (log : List Served) :
    userLog userID (d :: log) = if d.subject = some userID
      then (d.now, d.allowed) :: userLog userID log else userLog userID log := by
  unfold userLog
  rw [List.filterMap_cons]
  split <;> split <;> simp_all

theorem requestTimes_cons (userID : String) (subject : Option String) (now : ℚ)
    (events : List LimiterEvent) :
    requestTimes userID (.request subject now :: events) = if subject = some userID
      then now :: requestTimes userID events else requestTimes userID events := by
  unfold requestTimes
  rw [List.filterMap_cons]
  split <;> split <;> simp_all

/-- The decisions on the requests of a user with this entry. -/
def decisionsFrom (r : ℚ) : Option UserLimiterEntry → List ℚ → List (ℚ × Bool)
  | some entry, times => entry.limiter.decisions times
  | none, [] => []
  | none, now :: times => (newTokenBucketLimiter r now).decisions (now :: times)

theorem handle_other {subject : Option String} (h : subject ≠ some userID) :
    (m.handle r subject now).2 userID = m userID := by
  cases subject with
  | none => rfl
  | some other => exact Function.update_of_ne (fun heq => h (congrArg some heq.symm)) ..

/-- Without sweeps the requests of a user are decided by one limiter. -/
theorem userLog_middleware (hreq : ∀ e ∈ events, e.isRequest = true) :
    userLog userID (middleware r idleTTL m events) =
      decisionsFrom r (m userID) (requestTimes userID events) := by
  induction events generalizing m with
  | nil => cases m userID <;> rfl
  | cons e events ih =>
    have hrest := fun m => ih (m := m) fun e he => hreq e (List.mem_cons_of_mem _ he)
    cases e with
    | sweep now => exact absurd (hreq _ List.mem_cons_self) (by simp [LimiterEvent.isRequest])
    | request subject now =>
      rw [middleware, userLog_cons, requestTimes_cons, hrest]
      dsimp only
      by_cases hs : subject = some userID
      · subst hs
        rw [if_pos rfl, if_pos rfl]
        dsimp only [Limiters.handle, Limiters.limiter]
        rw [Function.update_self]
        cases m userID <;> rfl
      · rw [if_neg hs, if_neg hs, handle_other hs]

theorem requestTimes_sorted (htimed : Timed events) :
    (requestTimes userID events).Pairwise (· ≤ ·) := by
  unfold requestTimes
  refine List.Pairwise.filterMap _ (fun e e' hle now hnow now' hnow' => ?_) htimed
  cases e with
  | sweep _ => cases hnow
  | request subject t =>
    cases e' with
    | sweep _ => cases hnow'
    | request subject' t' =>
      have ht : now = t := by
        simp only [Option.ite_none_right_eq_some, Option.some.injEq] at hnow
        exact hnow.2.symm
      have ht' : now' = t' := by
        simp only [Option.ite_none_right_eq_some, Option.some.injEq] at hnow'
        exact hnow'.2.symm
      rw [ht, ht']
      exact hle rfl

theorem decisionsFrom_le {times : List ℚ} (hr : 0 < r) (hab : a ≤ b)
    (hsorted : times.Pairwise (· ≤ ·)) :
    (allowedIn a b (decisionsFrom r none times) : ℚ) ≤ r + r * (b - a) := by
  cases times with
  | nil =>
    have hgain := mul_nonneg (le_of_lt hr) (sub_nonneg.mpr hab)
    simpa [decisionsFrom, allowedIn] using add_nonneg (le_of_lt hr) hgain
  | cons now times =>
    refine allowed_interval_le (new_wellFormed hr) hab ?_
    refine List.pairwise_cons.mpr ⟨fun t ht => ?_, hsorted⟩
    rcases List.mem_cons.mp ht with rfl | ht
    · exact le_rfl
    · exact (List.pairwise_cons.mp hsorted).1 t ht

end User

/-- For every rate and every schedule of requests and sweeps: the decisions are those of a
middleware that never sweeps, and in T seconds at most r + r * T requests of a user are let
through. -/
theorem rateLimit_bounded (r : ℚ) (hr : 0 < r) (events : List LimiterEvent)
    (htimed : Timed events) :
    perUserRateLimitMiddleware r events =
      perUserRateLimitMiddleware r (events.filter LimiterEvent.isRequest) ∧
    ∀ (userID : String) (a T : ℚ), 0 ≤ T →
      (letThrough userID a (a + T) (perUserRateLimitMiddleware r events) : ℚ) ≤ r + r * T := by
  have hTTL : (if defaultPerUserLimiterIdleTTL ≤ 0 then defaultPerUserLimiterIdleTTL
      else defaultPerUserLimiterIdleTTL) = 600 := ite_self _
  have hforgets : Forgets r 600 events (fun _ => none) fun _ => none :=
    ⟨by rintro _ _ ⟨⟩, fun _ => .inl rfl⟩
  have hswept : perUserRateLimitMiddleware r events =
      perUserRateLimitMiddleware r (events.filter LimiterEvent.isRequest) := by
    unfold perUserRateLimitMiddleware perUserRateLimitMiddlewareWithOptions
    rw [hTTL]
    exact middleware_swept hr (by norm_num) htimed hforgets
  refine ⟨hswept, fun userID a T hT => ?_⟩
  have hreq : ∀ e ∈ events.filter LimiterEvent.isRequest, e.isRequest = true :=
    fun e he => (List.mem_filter.mp he).2
  rw [hswept, letThrough_eq, perUserRateLimitMiddleware, perUserRateLimitMiddlewareWithOptions,
    userLog_middleware hreq]
  have hsorted : (requestTimes userID (events.filter LimiterEvent.isRequest)).Pairwise (· ≤ ·) :=
    requestTimes_sorted (htimed.filter LimiterEvent.isRequest)
  have hle := decisionsFrom_le (a := a) hr (le_add_of_nonneg_right hT) hsorted
  rwa [add_sub_cancel_left] at hle

/-- A user is idle for longer than the TTL and swept, between two requests. -/
def sweptSchedule : List LimiterEvent :=
  [.request (some "user") 0, .request (some "user") 0, .request none 0, .request (some "user") 0,
    .sweep 601, .request (some "user") 602]

/-- At two requests a second the third one at a time is refused, and the one after the sweep is
let through. -/
theorem rateLimit_bounded_swept :
    (perUserRateLimitMiddleware 2 sweptSchedule).map Served.allowed =
      [true, true, true, false, true] ∧
    perUserRateLimitMiddleware 2 sweptSchedule =
      perUserRateLimitMiddleware 2 (sweptSchedule.filter LimiterEvent.isRequest) ∧
    (letThrough "user" 0 (0 + 602) (perUserRateLimitMiddleware 2 sweptSchedule) : ℚ) ≤
      2 + 2 * 602 := by
  have htimed : Timed sweptSchedule := by
    norm_num [Timed, sweptSchedule, LimiterEvent.now, LimiterEvent.isRequest]
  obtain ⟨hswept, hbound⟩ := rateLimit_bounded 2 (by norm_num) sweptSchedule htimed
  exact ⟨by decide +kernel, hswept, hbound "user" 0 602 (by norm_num)⟩

end KubeMapReduce
