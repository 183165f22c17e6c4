import Mathlib.Logic.Function.Basic
import KubeMapReduce.Lib.Program
import KubeMapReduce.Lib.Run

/-!
# Programs as clients of a service

Any number of programs, the clients, share one state. A service answers their queries; each
answer is one step, which may change the state. Between two queries of a client there may be
queries of the others and steps of the environment.

`ClientRule.run` is the rule for one client: what relates the shared state to the state of a
monitor, and is kept by the client's own queries and by everything that the others and the
environment do, holds when the client returns, together with what the monitor says about the result.
-/

namespace Clients

open Programs Runs

variable {σ Q E C α M : Type} {Ans : Q → Type}

/-- A service for the queries `Q` on the state `σ`. A value of `C` says what is not up to the
client when a query is answered; `none` is an answer that is not possible now. `env` are the
steps that no client makes. -/
structure Service (σ Q : Type) (Ans : Q → Type) (E C : Type) where
  serve : (q : Q) → C → σ → Option (Ans q × σ)
  env : σ → E → Option σ

structure System (σ Q : Type) (Ans : Q → Type) (α : Type) where
  state : σ
  clients : Nat → Prog Q Ans α

inductive Label (E C : Type) where
  | env (e : E)
  | client (i : Nat) (c : C)

namespace Service

variable (S : Service σ Q Ans E C)

def next (m : System σ Q Ans α) : Label E C → Option (System σ Q Ans α)
  | .env e => (S.env m.state e).map fun s => { m with state := s }
  | .client i c =>
    match m.clients i with
    | .finish _ _ => none
    | .query q k =>
      (S.serve q c m.state).map fun (a, s) => ⟨s, Function.update m.clients i (k a)⟩

abbrev Step : System σ Q Ans α → Label E C → System σ Q Ans α → Prop := Steps S.next

variable {S} {m m' : System σ Q Ans α}

theorem step_env {e : E} (h : S.Step m (.env e) m') :
    ∃ s, S.env m.state e = some s ∧ m' = { m with state := s } := by
  obtain ⟨s, hs, rfl⟩ := Option.map_eq_some_iff.mp h
  exact ⟨s, hs, rfl⟩

theorem step_client {i : Nat} {c : C} (h : S.Step m (.client i c) m') :
    ∃ q k a s, m.clients i = .query q k ∧ S.serve q c m.state = some (a, s) ∧
      m' = ⟨s, Function.update m.clients i (k a)⟩ := by
  simp only [Steps, next] at h
  split at h
  · cases h
  · next q k hi =>
    obtain ⟨⟨a, s⟩, hs, rfl⟩ := Option.map_eq_some_iff.mp h
    exact ⟨q, k, a, s, hi, hs, rfl⟩

/-- A client goes on to issue only queries with `P`. -/
theorem obeys_step {P : Q → Prop} {l : Label E C} (h : S.Step m l m') (i : Nat)
    (hp : (m.clients i).Obeys (only P) ()) : (m'.clients i).Obeys (only P) () := by
  cases l with
  | env e =>
    obtain ⟨s, _, rfl⟩ := step_env h
    exact hp
  | client k c =>
    obtain ⟨q, cont, a, s, hk, _, rfl⟩ := step_client h
    by_cases he : i = k
    · subst he
      rw [hk] at hp
      dsimp only
      rw [Function.update_self]
      exact hp.2 a
    · dsimp only
      rw [Function.update_of_ne he]
      exact hp

theorem obeys_run {P : Q → Prop} {ls : List (Label E C)} (h : Run S.Step m ls m') (i : Nat)
    (hp : (m.clients i).Obeys (only P) ()) : (m'.clients i).Obeys (only P) () :=
  h.invariant (I := fun n => (n.clients i).Obeys (only P) ()) (fun _ _ _ hn hs =>
    obeys_step hs i hn) hp

/-- A client that makes no step stays where it is. -/
theorem client_kept {ls : List (Label E C)} {i : Nat} (h : Run S.Step m ls m')
    (hi : ∀ c, .client i c ∉ ls) : m'.clients i = m.clients i := by
  induction h with
  | nil => rfl
  | @cons n n' _ l ls hs _ ih =>
    rw [ih fun c hc => hi c (List.mem_cons_of_mem _ hc)]
    cases l with
    | env e =>
      obtain ⟨_, _, rfl⟩ := step_env hs
      rfl
    | client k c =>
      obtain ⟨_, _, _, _, _, _, rfl⟩ := step_client hs
      refine Function.update_of_ne ?_ ..
      rintro rfl
      exact hi c List.mem_cons_self

end Service

/-- The rule for the client `i` under a monitor. `I` relates the shared state to the state of
the monitor; `others k` are the queries that client `k` can issue, and `ok` is a condition on
the steps. -/
structure ClientRule (S : Service σ Q Ans E C) (ok : System σ Q Ans α → Label E C → Prop) (i : Nat)
    (mon : Monitor Q Ans M) (others : Nat → Q → Prop) (I : σ → M → Prop) : Prop where
  env : ∀ {m : System σ Q Ans α} {e s t}, S.env m.state e = some s → ok m (.env e) →
    I m.state t → I s t
  other : ∀ {m : System σ Q Ans α} {k c q cont a s t}, k ≠ i → m.clients k = .query q cont →
    others k q → S.serve q c m.state = some (a, s) → ok m (.client k c) → I m.state t → I s t
  own : ∀ {m : System σ Q Ans α} {c q cont a s t}, m.clients i = .query q cont → mon.ok t q →
    S.serve q c m.state = some (a, s) → ok m (.client i c) → I m.state t → I s (mon.next t q a)

namespace ClientRule

variable {S : Service σ Q Ans E C} {ok : System σ Q Ans α → Label E C → Prop} {i : Nat}
  {mon : Monitor Q Ans M} {others : Nat → Q → Prop} {I : σ → M → Prop} {post : M → α → Prop}
  {m m' : System σ Q Ans α}

theorem step (T : ClientRule S ok i mon others I) {l : Label E C} (h : Under S.Step ok m l m')
    (hothers : ∀ k, k ≠ i → (m.clients k).Obeys (only (others k)) ()) {t : M} (hI : I m.state t)
    (hp : (m.clients i).Meets mon post t) :
    ∃ t', I m'.state t' ∧ (m'.clients i).Meets mon post t' := by
  obtain ⟨hs, hok⟩ := h
  cases l with
  | env e =>
    obtain ⟨s, he, rfl⟩ := Service.step_env hs
    exact ⟨t, T.env he hok hI, hp⟩
  | client k c =>
    obtain ⟨q, cont, a, s, hk, ha, rfl⟩ := Service.step_client hs
    by_cases he : i = k
    · subst he
      rw [hk] at hp
      cases hp with
      | query hq hcont =>
        refine ⟨mon.next t q a, T.own hk hq ha hok hI, ?_⟩
        dsimp only
        rw [Function.update_self]
        exact hcont a
    · have hq := hothers k (Ne.symm he)
      rw [hk] at hq
      refine ⟨t, T.other (Ne.symm he) hk hq.1 ha hok hI, ?_⟩
      dsimp only
      rw [Function.update_of_ne he]
      exact hp

/-- What the monitor says about the client holds after every run, in a shared state that `I`
relates to the state of the monitor. -/
theorem run (T : ClientRule S ok i mon others I) {ls : List (Label E C)}
    (h : Run (Under S.Step ok) m ls m')
    (hothers : ∀ k, k ≠ i → (m.clients k).Obeys (only (others k)) ()) {t : M} (hI : I m.state t)
    (hp : (m.clients i).Meets mon post t) :
    ∃ t', I m'.state t' ∧ (m'.clients i).Meets mon post t' := by
  induction h generalizing t with
  | nil => exact ⟨t, hI, hp⟩
  | cons hs _ ih =>
    obtain ⟨t', hI', hp'⟩ := T.step hs hothers hI hp
    exact ih (fun k hk => Service.obeys_step hs.1 k (hothers k hk)) hI' hp'

/-- The same for a client that has returned. -/
theorem run_finish (T : ClientRule S ok i mon others I) {ls : List (Label E C)}
    (h : Run (Under S.Step ok) m ls m')
    (hothers : ∀ k, k ≠ i → (m.clients k).Obeys (only (others k)) ()) {t : M} (hI : I m.state t)
    (hp : (m.clients i).Meets mon post t) {r : α} (hr : (m'.clients i).result? = some r) :
    ∃ t', I m'.state t' ∧ post t' r := by
  obtain ⟨t', hI', hp'⟩ := T.run h hothers hI hp
  refine ⟨t', hI', ?_⟩
  cases hi : m'.clients i with
  | query q k =>
    rw [hi] at hr
    cases hr
  | finish kept r' =>
    rw [hi] at hr hp'
    cases hr
    cases hp' with
    | finish hpost => exact hpost

end ClientRule

end Clients
