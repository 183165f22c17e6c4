import Mathlib.Logic.Function.Basic
import KubeMapReduce.Lib.Run

/-!
# One refresh at a time

Callers share a value that has to be refreshed from time to time. A caller whose value is good
returns at once. Otherwise it claims the refresh, or waits on a condition variable while somebody
else has claimed it. The lock is not held during the refresh. At its end the claim is released and
all who wait are woken; each of them looks again.

* `sound_run`: the refresh is claimed exactly if one caller works on it, and nobody waits otherwise.
* `leaves`: how a caller that works on the refresh can end.
-/

namespace SingleFlight

open Runs

variable {V R T A : Type}

inductive Caller (R : Type) where
  | outside
  | waiting
  | woken
  | working
  | returned (result : R)
deriving DecidableEq

/-- The value `V` of the callers, and the claim of its refresh. -/
structure Flight (V R : Type) where
  value : V
  claimed : Bool
  callers : Nat → Caller R

def Flight.initial (value : V) : Flight V R := ⟨value, false, fun _ => .outside⟩

/-- A step of the caller `i` at a time: with the lock it looks at the value, or the answer to its
refresh has come. -/
inductive Label (T A : Type) where
  | look (i : Nat) (time : T)
  | finish (i : Nat) (answer : A) (time : T)

/-- A caller after a broadcast. -/
def Caller.wake : Caller R → Caller R
  | .waiting => .woken
  | c => c

section Steps

variable (hit : V → T → Option R) (refresh : V → A → T → V × R)

/-- The caller has the lock. -/
def Flight.look (s : Flight V R) (i : Nat) (time : T) : Flight V R :=
  match hit s.value time with
  | some result => { s with callers := Function.update s.callers i (.returned result) }
  | none =>
    if s.claimed then { s with callers := Function.update s.callers i .waiting }
    else { s with claimed := true, callers := Function.update s.callers i .working }

/-- The refresh is over: the caller has the lock again, releases the claim and wakes the others. -/
def Flight.finish (s : Flight V R) (i : Nat) (answer : A) (time : T) : Flight V R where
  value := (refresh s.value answer time).1
  claimed := false
  callers := Function.update (fun j => (s.callers j).wake) i
    (.returned (refresh s.value answer time).2)

def Flight.next (s : Flight V R) : Label T A → Option (Flight V R)
  | .look i time =>
    match s.callers i with
    | .outside | .woken => some (s.look hit i time)
    | _ => none
  | .finish i answer time =>
    match s.callers i with
    | .working => some (s.finish refresh i answer time)
    | _ => none

abbrev Flies : Flight V R → Label T A → Flight V R → Prop := Steps (Flight.next hit refresh)

end Steps

variable {hit : V → T → Option R} {refresh : V → A → T → V × R} {s s' : Flight V R} {i : Nat}
  {time : T}

/-! ## 1. What a step does -/

theorem flies_look (h : Flies hit refresh s (.look i time) s') :
    (s.callers i = .outside ∨ s.callers i = .woken) ∧ s' = s.look hit i time := by
  simp only [Steps, Flight.next] at h
  split at h
  · next hi => exact ⟨.inl hi, (Option.some.inj h).symm⟩
  · next hi => exact ⟨.inr hi, (Option.some.inj h).symm⟩
  · cases h

theorem flies_finish {answer : A} (h : Flies hit refresh s (.finish i answer time) s') :
    s.callers i = .working ∧ s' = s.finish refresh i answer time := by
  simp only [Steps, Flight.next] at h
  split at h
  · next hi => exact ⟨hi, (Option.some.inj h).symm⟩
  · cases h

theorem look_cases (hit : V → T → Option R) (s : Flight V R) (i : Nat) (time : T) :
    (∃ result, hit s.value time = some result ∧
      s.look hit i time = { s with callers := Function.update s.callers i (.returned result) }) ∨
    (s.claimed = true ∧
      s.look hit i time = { s with callers := Function.update s.callers i .waiting }) ∨
    (s.claimed = false ∧ s.look hit i time =
      { s with claimed := true, callers := Function.update s.callers i .working }) := by
  unfold Flight.look
  split
  · next result hr => exact .inl ⟨result, hr, rfl⟩
  · cases hc : s.claimed with
    | true => exact .inr (.inl ⟨rfl, rfl⟩)
    | false => exact .inr (.inr ⟨rfl, rfl⟩)

/-- A caller that looks and returns has found a good value. -/
theorem look_returned {result : R} (h : (s.look hit i time).callers i = .returned result) :
    hit s.value time = some result := by
  rcases look_cases hit s i time with ⟨r, hr, heq⟩ | ⟨_, heq⟩ | ⟨_, heq⟩ <;>
    rw [heq] at h <;> dsimp only at h <;> rw [Function.update_self] at h <;> cases h
  exact hr

theorem wake_working {c : Caller R} : c.wake = .working ↔ c = .working := by
  cases c <;> simp [Caller.wake]

theorem wake_ne_waiting (c : Caller R) : c.wake ≠ .waiting := by
  cases c <;> simp [Caller.wake]

/-! ## 2. The claim -/

/-- The refresh is claimed exactly if a caller works on it, which is the only one, and all who
wait do so for that one. -/
structure Sound (s : Flight V R) : Prop where
  claimed : s.claimed = true ↔ ∃ i, s.callers i = .working
  one : ∀ i j, s.callers i = .working → s.callers j = .working → i = j
  waits : ∀ i, s.callers i = .waiting → s.claimed = true

theorem sound_initial (value : V) : Sound (.initial value : Flight V R) where
  claimed := ⟨by rintro ⟨⟩, by rintro ⟨_, ⟨⟩⟩⟩
  one := by rintro i j ⟨⟩
  waits := by rintro i ⟨⟩

/-- A caller that does not work, and will not, becomes `c`. -/
theorem Sound.update (h : Sound s) {c : Caller R} (hi : s.callers i ≠ .working)
    (hc : c ≠ .working) (hw : c = .waiting → s.claimed = true) :
    Sound { s with callers := Function.update s.callers i c } := by
  have hiff : ∀ j, Function.update s.callers i c j = .working ↔ s.callers j = .working := by
    intro j
    rcases eq_or_ne j i with rfl | hne
    · rw [Function.update_self]
      exact iff_of_false hc hi
    · rw [Function.update_of_ne hne]
  refine ⟨?_, fun j k hj hk => h.one j k ((hiff j).mp hj) ((hiff k).mp hk), fun j hj => ?_⟩
  · rw [h.claimed]
    exact exists_congr fun j => (hiff j).symm
  · dsimp only at hj
    rcases eq_or_ne j i with rfl | hne
    · exact hw (by rwa [Function.update_self] at hj)
    · exact h.waits j (by rwa [Function.update_of_ne hne] at hj)

theorem Sound.claim (h : Sound s) (hfree : s.claimed = false) (i : Nat) :
    Sound { s with claimed := true, callers := Function.update s.callers i .working } := by
  have hnone : ∀ j, s.callers j ≠ .working := fun j hj => by
    have hc := h.claimed.mpr ⟨j, hj⟩
    rw [hfree] at hc
    cases hc
  have hself : ∀ j, Function.update s.callers i .working j = .working → j = i := by
    intro j hj
    by_contra hne
    rw [Function.update_of_ne hne] at hj
    exact hnone j hj
  exact ⟨⟨fun _ => ⟨i, Function.update_self ..⟩, fun _ => rfl⟩,
    fun j k hj hk => (hself j hj).trans (hself k hk).symm, fun _ _ => rfl⟩

/-- After a refresh nobody works and nobody waits. -/
theorem finish_free (refresh : V → A → T → V × R) (answer : A) (time : T) (h : Sound s)
    (hi : s.callers i = .working) (j : Nat) :
    (s.finish refresh i answer time).callers j ≠ .working ∧
      (s.finish refresh i answer time).callers j ≠ .waiting := by
  unfold Flight.finish
  rcases eq_or_ne j i with rfl | hne
  · dsimp only
    rw [Function.update_self]
    exact ⟨by rintro ⟨⟩, by rintro ⟨⟩⟩
  · dsimp only
    rw [Function.update_of_ne hne]
    exact ⟨fun hj => hne (h.one j i (wake_working.mp hj) hi), wake_ne_waiting _⟩

theorem sound_step {a : Label T A} (h : Sound s) (hs : Flies hit refresh s a s') : Sound s' := by
  cases a with
  | look i time =>
    obtain ⟨hi, rfl⟩ := flies_look hs
    have hne : s.callers i ≠ .working := by
      rcases hi with hi | hi <;> rw [hi] <;> rintro ⟨⟩
    rcases look_cases hit s i time with
      ⟨result, _, heq⟩ | ⟨hclaimed, heq⟩ | ⟨hfree, heq⟩
    · rw [heq]
      exact h.update hne (by rintro ⟨⟩) (by rintro ⟨⟩)
    · rw [heq]
      exact h.update hne (by rintro ⟨⟩) fun _ => hclaimed
    · rw [heq]
      exact h.claim hfree i
  | finish i answer time =>
    obtain ⟨hi, rfl⟩ := flies_finish hs
    have hfree := finish_free refresh answer time h hi
    exact ⟨⟨by rintro ⟨⟩, fun ⟨j, hj⟩ => absurd hj (hfree j).1⟩,
      fun j _ hj => absurd hj (hfree j).1, fun j hj => absurd hj (hfree j).2⟩

theorem sound_run {value : V} {as : List (Label T A)}
    (h : Run (Flies hit refresh) (.initial value) as s) : Sound s :=
  h.invariant (fun _ _ _ hi hs => sound_step hi hs) (sound_initial value)

/-! ## 3. The end of a refresh -/

/-- A caller leaves its work by the end of the refresh only. It releases the claim, it returns and
all who wait are woken. -/
theorem leaves {a : Label T A} (hs : Flies hit refresh s a s') (hi : s.callers i = .working)
    (hi' : s'.callers i ≠ .working) :
    s'.claimed = false ∧ (∃ result, s'.callers i = .returned result) ∧
      ∀ j, s.callers j = .waiting → s'.callers j = .woken := by
  cases a with
  | look k time =>
    obtain ⟨hk, rfl⟩ := flies_look hs
    have hne : i ≠ k := by
      rintro rfl
      rcases hk with hk | hk <;> rw [hi] at hk <;> cases hk
    refine absurd ?_ hi'
    rcases look_cases hit s k time with ⟨_, _, heq⟩ | ⟨_, heq⟩ | ⟨_, heq⟩ <;> rw [heq] <;>
      dsimp only <;> rw [Function.update_of_ne hne, hi]
  | finish k answer time =>
    obtain ⟨hk, rfl⟩ := flies_finish hs
    unfold Flight.finish at hi' ⊢
    dsimp only at hi' ⊢
    have hki : i = k := by
      by_contra hne
      rw [Function.update_of_ne hne] at hi'
      exact hi' (wake_working.mpr hi)
    subst hki
    refine ⟨rfl, ⟨_, Function.update_self ..⟩, fun j hj => ?_⟩
    have hne : j ≠ i := by
      rintro rfl
      rw [hi] at hj
      cases hj
    rw [Function.update_of_ne hne, hj]
    rfl

end SingleFlight
