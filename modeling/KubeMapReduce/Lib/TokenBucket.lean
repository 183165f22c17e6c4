import Mathlib.Algebra.Order.Field.Basic
import Mathlib.Tactic.Linarith

/-!
# Token buckets

A bucket gains tokens at a constant rate up to its capacity, and every request that is allowed takes
one. Times and tokens are elements of an ordered field.

* `allowed_le`: what a bucket allows until a time, by its tokens.
* `allowed_interval_le`: what a bucket allows in any interval, by its capacity.
* `refill_full`: after a long pause a bucket is full, whatever it had.
-/

namespace TokenBucket

variable {K : Type} [Field K] [LinearOrder K]

structure Limiter (K : Type) where
  tokens : K
  capacity : K
  refillRate : K
  lastRefill : K
deriving DecidableEq

/-- The tokens at a time. -/
def Limiter.refill (l : Limiter K) (now : K) : K :=
  min (l.tokens + l.refillRate * (now - l.lastRefill)) l.capacity

def Limiter.allow (l : Limiter K) (now : K) : Bool × Limiter K :=
  if 1 ≤ l.refill now then (true, { l with tokens := l.refill now - 1, lastRefill := now })
  else (false, { l with tokens := l.refill now, lastRefill := now })

/-- The decisions on requests at these times. -/
def Limiter.decisions (l : Limiter K) : List K → List (K × Bool)
  | [] => []
  | now :: times => (now, (l.allow now).1) :: (l.allow now).2.decisions times

/-- The number of requests between two times that were allowed. -/
def allowedIn (a b : K) (log : List (K × Bool)) : Nat :=
  log.countP fun d => d.2 && (decide (a ≤ d.1) && decide (d.1 ≤ b))

/-- A bucket whose tokens lie between zero and its capacity. -/
structure Limiter.WellFormed (l : Limiter K) : Prop where
  tokens : 0 ≤ l.tokens
  capacity : 0 ≤ l.capacity
  refillRate : 0 ≤ l.refillRate

/-! ## 1. One request -/

section Allow

variable (l : Limiter K) (now : K)

@[simp] theorem allow_capacity : (l.allow now).2.capacity = l.capacity := by
  unfold Limiter.allow
  split <;> rfl

@[simp] theorem allow_refillRate : (l.allow now).2.refillRate = l.refillRate := by
  unfold Limiter.allow
  split <;> rfl

@[simp] theorem allow_lastRefill : (l.allow now).2.lastRefill = now := by
  unfold Limiter.allow
  split <;> rfl

/-- A request that is allowed takes a token of those there are. -/
theorem allow_tokens :
    (l.allow now).2.tokens + (if (l.allow now).1 then 1 else 0) = l.refill now := by
  unfold Limiter.allow
  split
  · simp
  · simp

theorem allow_eq (l l' : Limiter K) (hc : l.capacity = l'.capacity)
    (hr : l.refillRate = l'.refillRate) (h : l.refill now = l'.refill now) :
    l.allow now = l'.allow now := by
  unfold Limiter.allow
  rw [h, hc, hr]

end Allow

/-! ## 2. The requests of an interval -/

section Count

variable {l : Limiter K} {a b : K} {times : List K}

theorem allowedIn_cons (a b : K) (d : K × Bool) (log : List (K × Bool)) :
    (allowedIn a b (d :: log) : K) =
      allowedIn a b log + if d.2 = true ∧ a ≤ d.1 ∧ d.1 ≤ b then 1 else 0 := by
  unfold allowedIn
  rw [List.countP_cons]
  push_cast
  simp

/-- Nothing is counted that comes after the interval. -/
theorem allowedIn_after (hb : ∀ t ∈ times, b < t) : allowedIn a b (l.decisions times) = 0 := by
  induction times generalizing l with
  | nil => rfl
  | cons t times ih =>
    unfold allowedIn Limiter.decisions
    rw [List.countP_cons_of_neg, ← allowedIn, ih fun u hu => hb u (List.mem_cons_of_mem t hu)]
    have ht := hb t List.mem_cons_self
    simp [not_le.mpr ht]

theorem allowedIn_past {t : K} (hgt : b < t) (hsorted : (t :: times).Pairwise (· ≤ ·)) :
    allowedIn a b (l.decisions (t :: times)) = 0 := by
  refine allowedIn_after fun u hu => ?_
  rcases List.mem_cons.mp hu with rfl | hu
  · exact hgt
  · exact lt_of_lt_of_le hgt ((List.pairwise_cons.mp hsorted).1 u hu)

end Count

/-! ## 3. The bounds -/

variable [IsStrictOrderedRing K] {l : Limiter K} {now a b : K} {times : List K}

theorem refill_nonneg (hl : l.WellFormed) (hnow : l.lastRefill ≤ now) : 0 ≤ l.refill now :=
  le_min (add_nonneg hl.tokens (mul_nonneg hl.refillRate (sub_nonneg.mpr hnow))) hl.capacity

theorem WellFormed.allow (hl : l.WellFormed) (hnow : l.lastRefill ≤ now) :
    (l.allow now).2.WellFormed := by
  refine ⟨?_, (allow_capacity l now).symm ▸ hl.capacity,
    (allow_refillRate l now).symm ▸ hl.refillRate⟩
  have hpos := refill_nonneg hl hnow
  unfold Limiter.allow
  split
  · next h => exact sub_nonneg.mpr h
  · exact hpos

/-- After a pause in which the bucket could be filled from nothing it is full. -/
theorem refill_full (hl : l.WellFormed) (hnow : l.capacity ≤ l.refillRate * (now - l.lastRefill)) :
    l.refill now = l.capacity :=
  min_eq_right (le_add_of_nonneg_of_le hl.tokens hnow)

/-- The tokens pay for what is allowed: those there are, and those that come until `b`. -/
theorem allowed_le (hl : l.WellFormed) (hlast : l.lastRefill ≤ b)
    (hsorted : (l.lastRefill :: times).Pairwise (· ≤ ·)) :
    (allowedIn a b (l.decisions times) : K) ≤ l.tokens + l.refillRate * (b - l.lastRefill) := by
  induction times generalizing l with
  | nil =>
    have hgain := mul_nonneg hl.refillRate (sub_nonneg.mpr hlast)
    simpa [allowedIn, Limiter.decisions] using add_nonneg hl.tokens hgain
  | cons t times ih =>
    obtain ⟨hhead, htail⟩ := List.pairwise_cons.mp hsorted
    have ht := hhead t List.mem_cons_self
    rcases le_or_gt t b with hle | hgt
    · have hrest := ih (l := (l.allow t).2) (WellFormed.allow hl ht) (by simpa using hle)
        (by simpa using htail)
      have hpaid := allow_tokens l t
      have hrefill : l.refill t ≤ l.tokens + l.refillRate * (t - l.lastRefill) := min_le_left _ _
      have hone : (if (l.allow t).1 = true ∧ a ≤ t ∧ t ≤ b then (1 : K) else 0) ≤
          if (l.allow t).1 = true then 1 else 0 := by
        split
        · next h => rw [if_pos h.1]
        · split <;> simp
      rw [Limiter.decisions, allowedIn_cons]
      simp only [allow_refillRate, allow_lastRefill] at hrest
      linarith
    · have hgain := mul_nonneg hl.refillRate (sub_nonneg.mpr hlast)
      rw [allowedIn_past hgt htail, Nat.cast_zero]
      exact add_nonneg hl.tokens hgain

/-- In an interval a bucket allows at most its capacity and what it gains meanwhile. -/
theorem allowed_interval_le (hl : l.WellFormed) (hab : a ≤ b)
    (hsorted : (l.lastRefill :: times).Pairwise (· ≤ ·)) :
    (allowedIn a b (l.decisions times) : K) ≤ l.capacity + l.refillRate * (b - a) := by
  have hgain := mul_nonneg hl.refillRate (sub_nonneg.mpr hab)
  induction times generalizing l with
  | nil =>
    simpa [allowedIn, Limiter.decisions] using add_nonneg hl.capacity hgain
  | cons t times ih =>
    obtain ⟨hhead, htail⟩ := List.pairwise_cons.mp hsorted
    have ht := hhead t List.mem_cons_self
    have hwf := WellFormed.allow hl ht
    rcases lt_or_ge t a with hbefore | hfrom
    · have hrest := ih hwf (by simpa using htail) (by simpa using hgain)
      rw [Limiter.decisions, allowedIn_cons, if_neg fun h => not_le.mpr hbefore h.2.1]
      simpa using hrest
    · -- the first request of the interval: from here on the tokens pay, which are at most a full
      -- bucket
      rcases le_or_gt t b with hle | hgt
      · have hrest := allowed_le (a := a) hwf (by simpa using hle) (by simpa using htail)
        have hpaid := allow_tokens l t
        have hrefill : l.refill t ≤ l.capacity := min_le_right _ _
        have hless : l.refillRate * (b - t) ≤ l.refillRate * (b - a) :=
          mul_le_mul_of_nonneg_left (sub_le_sub_left hfrom b) hl.refillRate
        rw [Limiter.decisions, allowedIn_cons]
        simp only [allow_refillRate, allow_lastRefill, hfrom, hle, and_true] at hrest ⊢
        linarith
      · rw [allowedIn_past hgt htail, Nat.cast_zero]
        exact add_nonneg hl.capacity hgain

end TokenBucket
