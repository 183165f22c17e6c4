import Mathlib.Order.Basic
import KubeMapReduce.Lib.Program
import KubeMapReduce.Lib.Run
import KubeMapReduce.Lib.Table

/-!
# Transactions with row locks at READ COMMITTED

Transactions are programs whose queries are SQL statements. Two ways to run them:

* `transact` runs a whole program in one piece on the committed state;
* `Step` runs any number of them statement by statement. Every statement sees
  the committed state with the session's own changes on top. A statement that
  locks rows requests them one after the other and waits for a row that another
  session holds; a SKIP LOCKED statement takes only free rows and never waits.
  Locks are held until the session ends, and a commit makes its changes visible
  in one piece.

`Ends` with its rules is a calculus of postconditions for the first.
`Rule` is the rule for safety: an invariant of the committed state and an invariant
of each session, which may depend on the state of a monitor that the programs obey,
kept by the session's own moves and by the commits of the others, hold in every state
of every run (`Rule.run`). `not_deadlocked` is the rule for
deadlock freedom: no cycle of waits when every session waits only for a row that
ranks above the rows it holds. `serial` and `serial_all` connect the two semantics:
transactions that run alone, one after the other, end in the states that `transact`
computes.
-/

namespace Transactions

open Programs Runs Tables

/-- What a statement sees besides the data: the time at which its transaction
began, the rows that other sessions hold, and the rows it locked itself before
it acts (a row that came to match only after the statement began is not among
them). -/
structure Env (R : Type) where
  now : Nat
  locked : R → Bool
  scan : R → Bool

/-- The meaning of the queries `Q` on a state `σ` with lockable rows `R`.

* `answer` and `effect`: the result of a statement, and the change it makes to the
  rows it matched.
* `waitRows`: the rows that a FOR UPDATE or UPDATE statement has to lock.
* `skipRows`: the rows that a SKIP LOCKED statement takes; all of them are free. -/
structure Semantics (σ Q : Type) (Ans : Q → Type) (R : Type) where
  answer : (q : Q) → Env R → σ → Ans q
  effect : Q → Env R → σ → σ → σ
  waitRows : Q → σ → List R
  skipRows : Q → Env R → σ → List R
  skip_free : ∀ q env db r, r ∈ skipRows q env db → env.locked r = false

variable {τ σ Q R α : Type} {Ans : Q → Type} {p : Prog Q Ans α} {S : Semantics σ Q Ans R}


/-! ## In one piece -/

/-- Run a program on `cur`; a program that does not commit ends in `start`. -/
def exec (S : Semantics σ Q Ans R) (env : Env R) (start : σ) : Prog Q Ans α → σ → α × σ
  | .finish commit r, cur => (r, if commit then cur else start)
  | .query q k, cur => exec S env start (k (S.answer q env cur)) (S.effect q env cur cur)

/-- The transaction in one piece, at time `now`. `locked` are the rows that a SKIP
LOCKED statement passes over. -/
def transact (S : Semantics σ Q Ans R) (now : Nat) (locked : R → Bool) (p : Prog Q Ans α)
    (db : σ) : α × σ :=
  exec S ⟨now, locked, fun _ => true⟩ db p db

/-- Whether the program, run in one piece from `cur` on, ends with a commit. -/
def commits (S : Semantics σ Q Ans R) (env : Env R) : Prog Q Ans α → σ → Bool
  | .finish commit _, _ => commit
  | .query q k, cur => commits S env (k (S.answer q env cur)) (S.effect q env cur cur)

/-- A program that does not commit changes nothing. -/
theorem exec_of_not_commits {env : Env R} {start : σ} {cur : σ} (h : commits S env p cur = false) :
    (exec S env start p cur).2 = start := by
  induction p generalizing cur with
  | finish commit r =>
    have hc : commit = false := h
    rw [hc]
    rfl
  | query q k ih => exact ih _ h

/-- The program `p`, begun in `start` and now at `cur`, ends in a result and a state
that satisfy `Φ`. -/
def Ends (S : Semantics σ Q Ans R) (env : Env R) (start : σ) (p : Prog Q Ans α) (cur : σ)
    (Φ : α → σ → Prop) : Prop :=
  Φ (exec S env start p cur).1 (exec S env start p cur).2

section Ends

variable {S : Semantics σ Q Ans R} {env : Env R} {start cur : σ} {Φ : α → σ → Prop}

theorem ends_query {q : Q} {k : Ans q → Prog Q Ans α}
    (h : Ends S env start (k (S.answer q env cur)) (S.effect q env cur cur) Φ) :
    Ends S env start (.query q k) cur Φ := h

theorem ends_ite {c : Prop} [Decidable c] {p' : Prog Q Ans α} (ht : c → Ends S env start p cur Φ)
    (hf : ¬ c → Ends S env start p' cur Φ) : Ends S env start (if c then p else p') cur Φ := by
  split
  · next h => exact ht h
  · next h => exact hf h

theorem ends_map {β : Type} {f : α → β} {Ψ : β → σ → Prop} :
    Ends S env start (p.map f) cur Ψ ↔ Ends S env start p cur fun r db => Ψ (f r) db := by
  induction p generalizing cur with
  | finish commit r => exact Iff.rfl
  | query q k ih => exact ih (S.answer q env cur)

end Ends

/-! ## Statement by statement -/

/-- One open transaction. `todo` are the rows that the current statement still has
to lock, `none` between statements; `pending` are the session's own uncommitted
changes. -/
structure Session (τ σ Q : Type) (Ans : Q → Type) (R α : Type) where
  sid : Nat
  call : τ
  now : Nat
  prog : Prog Q Ans α
  held : List R
  scan : List R
  todo : Option (List R)
  pending : σ → σ

variable {s : Session τ σ Q Ans R α}

/-- The committed state and the open sessions. -/
structure Machine (τ σ Q : Type) (Ans : Q → Type) (R α : Type) where
  db : σ
  sessions : Table (Session.sid : Session τ σ Q Ans R α → Nat)

variable {M M' : Machine τ σ Q Ans R α}

inductive Label (τ R : Type) where
  | begin (i : Nat) (c : τ) (now : Nat)
  | request (i : Nat) (rows : List R)
  | lock (i : Nat)
  | exec (i : Nat)
  | finish (i : Nat)
  | abort (i : Nat)

variable {a : Label τ R}

/-- A session that has just begun. -/
def Session.start (i : Nat) (c : τ) (now : Nat) (p : Prog Q Ans α) :
    Session τ σ Q Ans R α :=
  { sid := i, call := c, now := now, prog := p, held := [], scan := [], todo := none,
    pending := id }

/-- The state as the session's statements see it. -/
def Session.view (s : Session τ σ Q Ans R α) (db : σ) : σ := s.pending db

/-- Replace the session with the id of `s`. -/
def Machine.put (M : Machine τ σ Q Ans R α) (s : Session τ σ Q Ans R α) :
    Machine τ σ Q Ans R α :=
  { M with
    sessions := M.sessions.updateWhere (fun t => decide (t.sid = s.sid)) (fun _ => s)
      (fun _ h => (of_decide_eq_true h).symm) }

/-- No row is held by two sessions. -/
def Exclusive (M : Machine τ σ Q Ans R α) : Prop :=
  ∀ s ∈ M.sessions.rows, ∀ t ∈ M.sessions.rows, s.sid ≠ t.sid → ∀ r ∈ s.held, r ∉ t.held

/-- Within a statement: `scan` are the rows that it had to lock when it was issued, and
those that are not held yet are still to be locked. -/
def Requested (S : Semantics σ Q Ans R) (s : Session τ σ Q Ans R α) : Prop :=
  ∀ rest, s.todo = some rest → ∃ q k db, s.prog = .query q k ∧ s.scan = S.waitRows q db ∧
    (∀ r ∈ s.scan, r ∈ s.held ∨ r ∈ rest) ∧ ∀ r ∈ rest, r ∈ s.scan

/-- The invariant of the committed state, the invariant of every session, and what the
locks guarantee. -/
structure Holds (S : Semantics σ Q Ans R) (J : σ → Prop)
    (I : σ → Session τ σ Q Ans R α → Prop) (M : Machine τ σ Q Ans R α) : Prop where
  db : J M.db
  sess : ∀ s ∈ M.sessions.rows, I M.db s
  excl : Exclusive M
  req : ∀ s ∈ M.sessions.rows, Requested S s

/-- No session is open. -/
def Machine.idle (db : σ) : Machine τ σ Q Ans R α := ⟨db, Table.empty⟩

theorem holds_idle {J : σ → Prop} {I : σ → Session τ σ Q Ans R α → Prop} {db : σ} (h : J db) :
    Holds S J I (Machine.idle db : Machine τ σ Q Ans R α) :=
  ⟨h, fun _ hs => absurd hs List.not_mem_nil, fun _ hs => absurd hs List.not_mem_nil,
    fun _ hs => absurd hs List.not_mem_nil⟩

/-- Only the session `s` is open. -/
def Machine.alone (db : σ) (s : Session τ σ Q Ans R α) : Machine τ σ Q Ans R α :=
  ⟨db, ⟨[s], List.nodup_singleton _⟩⟩

namespace TransactionLemmas

variable {M : Machine τ σ Q Ans R α} {s s' t : Session τ σ Q Ans R α}

theorem put_alone {db : σ} (h : s'.sid = s.sid) :
    (Machine.alone db s).put s' = Machine.alone db s' := by
  simp [Machine.put, Machine.alone, Table.updateWhere, h]

theorem mem_put (hs : s'.sid = s.sid)
    (ht : t ∈ (M.put s').sessions.rows) :
    t = s' ∨ (t ∈ M.sessions.rows ∧ t.sid ≠ s.sid) := by
  obtain ⟨t₀, ht₀, he⟩ := List.mem_map.mp ht
  split at he
  · exact .inl he.symm
  · next hne =>
    subst he
    exact .inr ⟨ht₀, by simpa [hs] using hne⟩

theorem mem_erase {i : Nat} (ht : t ∈ (M.sessions.erase i).rows) :
    t ∈ M.sessions.rows ∧ t.sid ≠ i := by
  obtain ⟨h, hne⟩ := List.mem_filter.mp ht
  exact ⟨h, by simpa using hne⟩

theorem mem_insert (h : M.sessions.get? s.sid = none)
    (ht : t ∈ (M.sessions.insert s).rows) : t ∈ M.sessions.rows ∨ t = s := by
  rw [Table.rows_insert h] at ht
  rcases List.mem_append.mp ht with ht | ht
  · exact .inl ht
  · exact .inr (List.mem_singleton.mp ht)

end TransactionLemmas

section Machine

variable [DecidableEq R]

/-- Another session holds the row. -/
def Machine.heldByOther (M : Machine τ σ Q Ans R α) (i : Nat) (r : R) : Bool :=
  M.sessions.rows.any fun s => s.sid != i && decide (r ∈ s.held)

/-- The session issues a statement that locks `rows`, in this order. A free first
row is taken at once. -/
def Session.requested (s : Session τ σ Q Ans R α) (free : R → Bool) (targets rows : List R) :
    Session τ σ Q Ans R α :=
  match rows with
  | [] => { s with scan := targets, todo := some [] }
  | r :: rest =>
    if free r then { s with scan := targets, held := r :: s.held, todo := some rest }
    else { s with scan := targets, todo := some (r :: rest) }

/-- The environment of the session's current statement. -/
def Machine.env (M : Machine τ σ Q Ans R α) (s : Session τ σ Q Ans R α) : Env R :=
  ⟨s.now, M.heldByOther s.sid, fun r => decide (r ∈ s.scan)⟩

/-- The session after its statement `q` has acted. -/
def Session.acted (S : Semantics σ Q Ans R) (M : Machine τ σ Q Ans R α)
    (s : Session τ σ Q Ans R α) (q : Q) (k : Ans q → Prog Q Ans α) : Session τ σ Q Ans R α :=
  { s with
    prog := k (S.answer q (M.env s) (s.view M.db))
    held := S.skipRows q (M.env s) (s.view M.db) ++ s.held
    todo := none
    pending := fun d => S.effect q (M.env s) (s.view M.db) (s.pending d) }

/-- The moves of a session that leave the committed state alone. The order of
`rows` is the order in which the database happens to scan them. -/
inductive Local (S : Semantics σ Q Ans R) (M : Machine τ σ Q Ans R α) :
    Label τ R → Session τ σ Q Ans R α → Session τ σ Q Ans R α → Prop
  | request {s : Session τ σ Q Ans R α} {q : Q} {k : Ans q → Prog Q Ans α} {rows : List R} :
      s.todo = none → s.prog = .query q k →
      rows.Perm ((S.waitRows q (s.view M.db)).filter fun r => decide (r ∉ s.held)) →
      Local S M (.request s.sid rows) s
        (s.requested (fun r => !M.heldByOther s.sid r) (S.waitRows q (s.view M.db)) rows)
  | lock {s : Session τ σ Q Ans R α} {r : R} {rest : List R} :
      s.todo = some (r :: rest) → M.heldByOther s.sid r = false →
      Local S M (.lock s.sid) s { s with held := r :: s.held, todo := some rest }
  | exec {s : Session τ σ Q Ans R α} {q : Q} {k : Ans q → Prog Q Ans α} :
      s.todo = some [] → s.prog = .query q k →
      Local S M (.exec s.sid) s (s.acted S M q k)

/-- The steps of the machine. A session can end at any time without a commit. -/
inductive Step (S : Semantics σ Q Ans R) (code : τ → Prog Q Ans α) :
    Machine τ σ Q Ans R α → Label τ R → Machine τ σ Q Ans R α → Prop
  | begin {M : Machine τ σ Q Ans R α} {i : Nat} {c : τ} {now : Nat} :
      M.sessions.get? i = none →
      Step S code M (.begin i c now)
        { M with sessions := M.sessions.insert (Session.start i c now (code c)) }
  | move {M : Machine τ σ Q Ans R α} {a : Label τ R} {s s' : Session τ σ Q Ans R α} :
      s ∈ M.sessions.rows → Local S M a s s' → Step S code M a (M.put s')
  | finish {M : Machine τ σ Q Ans R α} {s : Session τ σ Q Ans R α} {commit : Bool} {r : α} :
      s ∈ M.sessions.rows → s.todo = none → s.prog = .finish commit r →
      Step S code M (.finish s.sid)
        { db := if commit then s.pending M.db else M.db, sessions := M.sessions.erase s.sid }
  | abort {M : Machine τ σ Q Ans R α} {s : Session τ σ Q Ans R α} :
      s ∈ M.sessions.rows →
      Step S code M (.abort s.sid) { M with sessions := M.sessions.erase s.sid }

namespace TransactionLemmas

variable {M : Machine τ σ Q Ans R α} {s s' t : Session τ σ Q Ans R α}
  {S : Semantics σ Q Ans R} {a : Label τ R}

theorem heldByOther_false {i : Nat} {r : R} (h : M.heldByOther i r = false)
    (ht : t ∈ M.sessions.rows) (hi : t.sid ≠ i) : r ∉ t.held := by
  intro hr
  have h' := List.any_eq_false.mp h t ht
  simp [hi, hr] at h'

omit [DecidableEq R] in
theorem requested_frame {free : R → Bool} {targets rows : List R} :
    (s.requested free targets rows).call = s.call ∧
      (s.requested free targets rows).pending = s.pending ∧
      ∀ r ∈ s.held, r ∈ (s.requested free targets rows).held := by
  unfold Session.requested
  split
  · exact ⟨rfl, rfl, fun _ hr => hr⟩
  · split
    · exact ⟨rfl, rfl, fun _ hr => List.mem_cons_of_mem _ hr⟩
    · exact ⟨rfl, rfl, fun _ hr => hr⟩

omit [DecidableEq R] in
theorem requested_statement {free : R → Bool} {targets rows : List R} :
    (s.requested free targets rows).prog = s.prog ∧
      (s.requested free targets rows).scan = targets := by
  unfold Session.requested
  split
  · exact ⟨rfl, rfl⟩
  · split <;> exact ⟨rfl, rfl⟩

theorem local_sid (h : Local S M a s s') : s'.sid = s.sid := by
  cases h with
  | request _ _ _ =>
    unfold Session.requested
    split
    · rfl
    · split <;> rfl
  | lock _ _ => rfl
  | exec _ _ => rfl

/-- A local move takes only rows that no other session holds. -/
theorem local_held (h : Local S M a s s') {r : R} (hr : r ∈ s'.held) :
    r ∈ s.held ∨ M.heldByOther s.sid r = false := by
  cases h with
  | @request _ q k rows _ _ _ =>
    unfold Session.requested at hr
    split at hr
    · exact .inl hr
    · split at hr
      · next hf =>
        rcases List.mem_cons.mp hr with rfl | hr
        · exact .inr (by simpa using hf)
        · exact .inl hr
      · exact .inl hr
  | lock _ hf =>
    rcases List.mem_cons.mp hr with rfl | hr
    · exact .inr hf
    · exact .inl hr
  | @exec _ q k _ _ =>
    rcases List.mem_append.mp hr with hr | hr
    · exact .inr (S.skip_free q _ _ r hr)
    · exact .inl hr

theorem local_requested (hs : Requested S s) (h : Local S M a s s') : Requested S s' := by
  cases h with
  | @request _ q k rows _ hp hperm =>
    have hrows : ∀ {r : R}, r ∈ rows ↔ r ∈ S.waitRows q (s.view M.db) ∧ r ∉ s.held := by
      intro r
      rw [hperm.mem_iff, List.mem_filter, decide_eq_true_eq]
    have hall : ∀ r ∈ S.waitRows q (s.view M.db), r ∈ s.held ∨ r ∈ rows := fun r hr =>
      (em (r ∈ s.held)).imp_right fun hn => hrows.mpr ⟨hr, hn⟩
    intro rest htodo
    unfold Session.requested at htodo ⊢
    split at htodo
    · cases htodo
      exact ⟨q, k, _, hp, rfl, hall, nofun⟩
    · next r tail =>
      split at htodo
      · next hfree =>
        cases htodo
        rw [if_pos hfree]
        refine ⟨q, k, _, hp, rfl, fun x hx => ?_, fun x hx => ?_⟩
        · rcases hall x hx with hx | hx
          · exact .inl (List.mem_cons_of_mem _ hx)
          · exact (List.mem_cons.mp hx).imp_left fun he : x = r => List.mem_cons.mpr (.inl he)
        · exact (hrows.mp (List.mem_cons_of_mem _ hx)).1
      · next hfree =>
        cases htodo
        rw [if_neg hfree]
        exact ⟨q, k, _, hp, rfl, hall, fun x hx => (hrows.mp hx).1⟩
  | @lock _ r rest htodo _ =>
    obtain ⟨q, k, db, hp, hscan, hall, hrest⟩ := hs _ htodo
    intro rest' htodo'
    cases htodo'
    refine ⟨q, k, db, hp, hscan, fun x hx => ?_, fun x hx => hrest x (List.mem_cons_of_mem _ hx)⟩
    rcases hall x hx with hx | hx
    · exact .inl (List.mem_cons_of_mem _ hx)
    · exact (List.mem_cons.mp hx).imp_left fun he : x = r => List.mem_cons.mpr (.inl he)
  | exec _ _ => nofun

end TransactionLemmas

open TransactionLemmas

/-! ## The rule for safety -/

section Rule

variable {S : Semantics σ Q Ans R} {code : τ → Prog Q Ans α} {J : σ → Prop}
  {I : σ → Session τ σ Q Ans R α → Prop} {ok : Machine τ σ Q Ans R α → Label τ R → Prop}

/-- One step keeps the invariants, if they hold of every new session, are kept by
the session's own moves, and are kept by every commit. -/
theorem step_holds (hbegin : ∀ db i c now, J db → I db (Session.start i c now (code c)))
    (hlocal : ∀ M a s s', Holds S J I M → s ∈ M.sessions.rows → ok M a → Local S M a s s' →
      I M.db s') (hcommit : ∀ M s r, Holds S J I M → s ∈ M.sessions.rows → s.todo = none →
      s.prog = .finish true r → J (s.pending M.db))
    (hstable : ∀ M s t r, Holds S J I M → s ∈ M.sessions.rows → t ∈ M.sessions.rows →
      s.sid ≠ t.sid → s.prog = .finish true r → I (s.pending M.db) t) (hM : Holds S J I M)
    (h : Under (Step S code) ok M a M') : Holds S J I M' := by
  obtain ⟨hs, hok⟩ := h
  cases hs with
  | @begin i c now hn =>
    have hn' : M.sessions.get? (Session.start i c now (code c) : Session τ σ Q Ans R α).sid =
        none := hn
    refine ⟨hM.db, fun t ht => ?_, fun t ht u hu hne r hr => ?_, fun t ht => ?_⟩
    · rcases mem_insert hn' ht with ht | rfl
      · exact hM.sess t ht
      · exact hbegin _ _ _ _ hM.db
    · rcases mem_insert hn' ht with ht | rfl
      · rcases mem_insert hn' hu with hu | rfl
        · exact hM.excl t ht u hu hne r hr
        · exact List.not_mem_nil
      · exact absurd hr List.not_mem_nil
    · rcases mem_insert hn' ht with ht | rfl
      · exact hM.req t ht
      · nofun
  | @move _ s s' hmem hl =>
    have hsid := local_sid hl
    refine ⟨hM.db, fun t ht => ?_, fun t ht u hu hne r hr => ?_, fun t ht => ?_⟩
    · rcases mem_put hsid ht with rfl | ⟨ht', _⟩
      · exact hlocal M _ s _ hM hmem hok hl
      · exact hM.sess t ht'
    · rcases mem_put hsid ht with hts | ⟨ht', hti⟩
      · rcases mem_put hsid hu with hus | ⟨hu', hui⟩
        · exact absurd (congrArg Session.sid (hts.trans hus.symm)) hne
        · subst hts
          rcases local_held hl hr with hr | hr
          · exact hM.excl s hmem u hu' (Ne.symm hui) r hr
          · exact heldByOther_false hr hu' hui
      · rcases mem_put hsid hu with hus | ⟨hu', hui⟩
        · subst hus
          intro hr'
          rcases local_held hl hr' with hr' | hr'
          · exact hM.excl t ht' s hmem hti r hr hr'
          · exact heldByOther_false hr' ht' hti hr
        · exact hM.excl t ht' u hu' hne r hr
    · rcases mem_put hsid ht with rfl | ⟨ht', _⟩
      · exact local_requested (hM.req s hmem) hl
      · exact hM.req t ht'
  | @finish s commit r hmem htodo hp =>
    refine ⟨?_, fun t ht => ?_, fun t ht u hu => ?_, fun t ht => hM.req t (mem_erase ht).1⟩
    · cases commit with
      | false => exact hM.db
      | true => exact hcommit M s r hM hmem htodo hp
    · obtain ⟨ht', hne⟩ := mem_erase ht
      cases commit with
      | false => exact hM.sess t ht'
      | true => exact hstable M s t r hM hmem ht' (Ne.symm hne) hp
    · exact hM.excl t (mem_erase ht).1 u (mem_erase hu).1
  | @abort s hmem =>
    refine ⟨hM.db, fun t ht => hM.sess t (mem_erase ht).1, fun t ht u hu => ?_,
      fun t ht => hM.req t (mem_erase ht).1⟩
    exact hM.excl t (mem_erase ht).1 u (mem_erase hu).1

/-- The session follows the monitor, in a state that satisfies `I`. -/
def Monitored {M : Type} (mon : Monitor Q Ans M) (I : M → σ → Session τ σ Q Ans R α → Prop)
    (db : σ) (s : Session τ σ Q Ans R α) : Prop :=
  ∃ m, s.prog.Obeys mon m ∧ I m db s

/-- The rule for programs that obey a monitor: the invariant of a session may depend on the
state of the monitor, and each statement may use that the monitor allows it. -/
structure Rule {N : Type} (S : Semantics σ Q Ans R) (code : τ → Prog Q Ans α)
    (ok : Machine τ σ Q Ans R α → Label τ R → Prop) (mon : Monitor Q Ans N) (start : τ → N)
    (J : σ → Prop) (I : N → σ → Session τ σ Q Ans R α → Prop) : Prop where
  obeys : ∀ c, (code c).Obeys mon (start c)
  begin : ∀ db i c now, J db → I (start c) db (Session.start i c now (code c))
  request : ∀ M s q k rows m, Holds S J (Monitored mon I) M → s ∈ M.sessions.rows →
    ok M (.request s.sid rows) → s.todo = none → s.prog = .query q k → mon.ok m q →
    rows.Perm ((S.waitRows q (s.view M.db)).filter fun r => decide (r ∉ s.held)) →
    I m M.db s → I m M.db
      (s.requested (fun r => !M.heldByOther s.sid r) (S.waitRows q (s.view M.db)) rows)
  lock : ∀ M s r rest m, Holds S J (Monitored mon I) M → s ∈ M.sessions.rows →
    s.todo = some (r :: rest) → I m M.db s →
    I m M.db { s with held := r :: s.held, todo := some rest }
  exec : ∀ M s q k m, Holds S J (Monitored mon I) M → s ∈ M.sessions.rows →
    ok M (.exec s.sid) → s.todo = some [] → s.prog = .query q k → mon.ok m q →
    (∃ db, s.scan = S.waitRows q db) → (∀ r ∈ s.scan, r ∈ s.held) → I m M.db s →
    I (mon.next m q (S.answer q (M.env s) (s.view M.db))) M.db (s.acted S M q k)
  commit : ∀ M s r m, Holds S J (Monitored mon I) M → s ∈ M.sessions.rows → s.todo = none →
    s.prog = .finish true r → I m M.db s → J (s.pending M.db)
  stable : ∀ M s t r m m', Holds S J (Monitored mon I) M → s ∈ M.sessions.rows →
    t ∈ M.sessions.rows → s.sid ≠ t.sid → s.prog = .finish true r → I m M.db s → I m' M.db t →
    I m' (s.pending M.db) t

/-- The invariants hold in every state of every run whose steps meet `ok`. -/
theorem Rule.run {N : Type} {mon : Monitor Q Ans N} {start : τ → N}
    {I : N → σ → Session τ σ Q Ans R α → Prop} (rule : Rule S code ok mon start J I)
    {as : List (Label τ R)} (h : Run (Under (Step S code) ok) M as M')
    (hM : Holds S J (Monitored mon I) M) : Holds S J (Monitored mon I) M' := by
  refine h.invariant (fun _ _ _ hM hs => step_holds ?_ ?_ ?_ ?_ hM hs) hM
  · exact fun db i c now hJ => ⟨start c, rule.obeys c, rule.begin db i c now hJ⟩
  · intro M a s s' hM hmem hok hl
    obtain ⟨m, hobeys, hI⟩ := hM.sess s hmem
    cases hl with
    | @request _ q k rows htodo hp hperm =>
      have hob := hobeys
      rw [hp] at hob
      refine ⟨m, ?_, rule.request M s q k rows m hM hmem hok htodo hp hob.1 hperm hI⟩
      unfold Session.requested
      split
      · exact hobeys
      · split <;> exact hobeys
    | @lock _ r rest htodo hfree =>
      exact ⟨m, hobeys, rule.lock M s r rest m hM hmem htodo hI⟩
    | @exec _ q k htodo hp =>
      rw [hp] at hobeys
      obtain ⟨_, _, db, hp', hscan, hall, _⟩ := hM.req s hmem _ htodo
      cases hp.symm.trans hp'
      have hheld : ∀ r ∈ s.scan, r ∈ s.held := fun r hr =>
        (hall r hr).resolve_right List.not_mem_nil
      exact ⟨_, hobeys.2 _,
        rule.exec M s q k m hM hmem hok htodo hp hobeys.1 ⟨db, hscan⟩ hheld hI⟩
  · intro M s r hM hmem htodo hp
    obtain ⟨m, _, hI⟩ := hM.sess s hmem
    exact rule.commit M s r m hM hmem htodo hp hI
  · intro M s t r hM hs ht hne hp
    obtain ⟨m, _, hI⟩ := hM.sess s hs
    obtain ⟨m', hobeys, hI'⟩ := hM.sess t ht
    exact ⟨m', hobeys, rule.stable M s t r m m' hM hs ht hne hp hI hI'⟩

end Rule

/-! ## Deadlock -/

/-- The session `i` waits for a row of class `cls` that the session `j` holds. -/
def WaitsFor (cls : R → Prop) (M : Machine τ σ Q Ans R α) (i j : Nat) : Prop :=
  ∃ s t r rest, M.sessions.get? i = some s ∧ M.sessions.get? j = some t ∧ i ≠ j ∧
    s.todo = some (r :: rest) ∧ cls r ∧ r ∈ t.held

/-- There is a cycle of sessions each of which waits for the next. -/
def Deadlocked (cls : R → Prop) (M : Machine τ σ Q Ans R α) : Prop :=
  ∃ i, Relation.TransGen (WaitsFor cls M) i i

/-- No deadlock when every session that waits for a row holds only rows of lower
rank. Along a chain of waits the ranks of the rows waited for increase. -/
theorem not_deadlocked {ρ : Type} [Preorder ρ] {cls : R → Prop} (rank : R → ρ)
    (h : ∀ s ∈ M.sessions.rows, ∀ r rest, s.todo = some (r :: rest) → cls r →
      M.heldByOther s.sid r = true → ∀ r' ∈ s.held, cls r' → rank r' < rank r) :
    ¬ Deadlocked cls M := by
  have hother : ∀ {i j : Nat} {t : Session τ σ Q Ans R α} {r : R},
      M.sessions.get? j = some t → i ≠ j → r ∈ t.held → M.heldByOther i r = true := by
    intro i j t r ht hne hr
    refine List.any_eq_true.mpr ⟨t, Table.mem_of_get? ht, ?_⟩
    have hj := Table.key_of_get? ht
    simp [hj, Ne.symm hne, hr]
  -- the row waited for at the start of a chain ranks below the one at its end
  have key : ∀ {i j : Nat}, Relation.TransGen (WaitsFor cls M) i j →
      ∀ {s t : Session τ σ Q Ans R α} {r r' : R} {rest rest' : List R},
      M.sessions.get? i = some s → s.todo = some (r :: rest) →
      M.sessions.get? j = some t → t.todo = some (r' :: rest') → cls r' →
      M.heldByOther j r' = true → rank r < rank r' := by
    intro i j hij
    induction hij with
    | single hw =>
      intro s t r r' rest rest' hs hr ht hr' hc' ho
      obtain ⟨s₀, t₀, r₀, rest₀, hs₀, ht₀, _, htodo, hc, hheld⟩ := hw
      cases hs.symm.trans hs₀
      cases ht.symm.trans ht₀
      cases hr.symm.trans htodo
      have hsid := Table.key_of_get? ht
      exact h t (Table.mem_of_get? ht) r' rest' hr' hc' (by rw [hsid]; exact ho) r hheld hc
    | tail _ hw ih =>
      intro s t r r' rest rest' hs hr ht hr' hc' ho
      obtain ⟨s₀, t₀, r₀, rest₀, hs₀, ht₀, hne, htodo, hc, hheld⟩ := hw
      cases ht.symm.trans ht₀
      have h1 := ih hs hr hs₀ htodo hc (hother ht hne hheld)
      have hsid := Table.key_of_get? ht
      have h2 := h t (Table.mem_of_get? ht) r' rest' hr' hc' (by rw [hsid]; exact ho) r₀ hheld hc
      exact lt_trans h1 h2
  rintro ⟨i, hi⟩
  obtain ⟨j, ⟨s, t, r, rest, hs, ht, hne, htodo, hc, hheld⟩, _⟩ :=
    Relation.TransGen.head'_iff.mp hi
  exact lt_irrefl _ (key hi hs htodo hs htodo hc (hother ht hne hheld))

/-! ## One session alone -/

/-- A statement that has locked every row it has to lock acts as it does in one
piece. -/
structure Lawful (S : Semantics σ Q Ans R) : Prop where
  answer_scan : ∀ q now locked scan db, (∀ r ∈ S.waitRows q db, scan r = true) →
    S.answer q ⟨now, locked, scan⟩ db = S.answer q ⟨now, locked, fun _ => true⟩ db
  effect_scan : ∀ q now locked scan db, (∀ r ∈ S.waitRows q db, scan r = true) →
    S.effect q ⟨now, locked, scan⟩ db = S.effect q ⟨now, locked, fun _ => true⟩ db

section Serial

variable {S : Semantics σ Q Ans R} {code : τ → Prog Q Ans α} {db : σ}

theorem heldByOther_alone (s : Session τ σ Q Ans R α) :
    (Machine.alone db s).heldByOther s.sid = fun _ => false := by
  funext r
  simp [Machine.heldByOther, Machine.alone]

/-- A local move of a session that is alone. -/
theorem run_alone {s' : Session τ σ Q Ans R α} (h : Local S (Machine.alone db s) a s s') :
    Run (Step S code) (Machine.alone db s) [a] (Machine.alone db s') := by
  have hstep : Step S code (Machine.alone db s) a ((Machine.alone db s).put s') :=
    .move (List.mem_singleton.mpr rfl) h
  rw [put_alone (local_sid h)] at hstep
  exact .single hstep

/-- A session that is alone gets all the locks it asks for. -/
theorem run_locks {rows : List R} (h : s.todo = some rows) :
    ∃ as, Run (Step S code) (Machine.alone db s) as
      (Machine.alone db { s with held := rows.reverse ++ s.held, todo := some [] }) := by
  induction rows generalizing s with
  | nil =>
    have hs : { s with held := [].reverse ++ s.held, todo := some [] } = s := by rw [← h]; rfl
    rw [hs]
    exact ⟨[], .nil _⟩
  | cons r rest ih =>
    have hl : Local S (Machine.alone db s) (.lock s.sid) s
        { s with held := r :: s.held, todo := some rest } :=
      .lock h (by rw [heldByOther_alone])
    obtain ⟨as, has⟩ := ih (s := { s with held := r :: s.held, todo := some rest }) rfl
    refine ⟨_, (run_alone hl).append (?_ : Run _ _ as _)⟩
    rw [List.reverse_cons, List.append_assoc]
    exact has

/-- A statement of a session that is alone: request, locks, and action. -/
theorem run_statement (hS : Lawful S) {q : Q} {k : Ans q → Prog Q Ans α} (htodo : s.todo = none)
    (hp : s.prog = .query q k) :
    ∃ as s', Run (Step S code) (Machine.alone db s) as (Machine.alone db s') ∧
      s'.sid = s.sid ∧ s'.now = s.now ∧ s'.todo = none ∧
      s'.prog = k (S.answer q ⟨s.now, fun _ => false, fun _ => true⟩ (s.pending db)) ∧
      s'.pending db =
        S.effect q ⟨s.now, fun _ => false, fun _ => true⟩ (s.pending db) (s.pending db) := by
  let targets := S.waitRows q (s.pending db)
  let rows := targets.filter fun r => decide (r ∉ s.held)
  have hreq : Local S (Machine.alone db s) (.request s.sid rows) s _ :=
    .request htodo hp (.refl _)
  obtain ⟨as, s₁, hrun, hsid, hnow, hscan, htodo₁, hp₁, hpend⟩ : ∃ as s₁,
      Run (Step S code) (Machine.alone db s) as (Machine.alone db s₁) ∧ s₁.sid = s.sid ∧
      s₁.now = s.now ∧ s₁.scan = targets ∧ s₁.todo = some [] ∧ s₁.prog = s.prog ∧
      s₁.pending = s.pending := by
    have hfirst : Run (Step S code) _ _ _ := run_alone hreq
    rw [heldByOther_alone] at hfirst
    unfold Session.requested at hfirst
    cases hrows : rows with
    | nil =>
      rw [hrows] at hfirst
      exact ⟨_, _, hfirst, rfl, rfl, rfl, rfl, rfl, rfl⟩
    | cons r rest =>
      rw [hrows] at hfirst
      obtain ⟨as, has⟩ : ∃ as, Run (Step S code) (Machine.alone db _) as (Machine.alone db _) :=
        run_locks (s := { s with scan := targets, held := r :: s.held, todo := some rest }) rfl
      exact ⟨_, _, hfirst.append has, rfl, rfl, rfl, rfl, rfl, rfl⟩
  have hex : Local S (Machine.alone db s₁) (.exec s₁.sid) s₁ (s₁.acted S (.alone db s₁) q k) :=
    .exec htodo₁ (hp₁.trans hp)
  have hall : ∀ r ∈ S.waitRows q (s.pending db), decide (r ∈ s₁.scan) = true := by
    intro r hr
    rw [hscan]
    exact decide_eq_true hr
  refine ⟨_, _, hrun.append (run_alone hex), hsid, hnow, rfl, ?_, ?_⟩
  · show k (S.answer q ⟨s₁.now, (Machine.alone db s₁).heldByOther s₁.sid, _⟩ (s₁.pending db)) = _
    rw [heldByOther_alone, hnow, hpend, hS.answer_scan q _ _ _ _ hall]
  · show S.effect q ⟨s₁.now, (Machine.alone db s₁).heldByOther s₁.sid, _⟩ (s₁.pending db)
      (s₁.pending db) = _
    rw [heldByOther_alone, hnow, hpend, hS.effect_scan q _ _ _ _ hall]

/-- A session that is alone runs to its end; the committed state changes only there. -/
theorem run_session (hS : Lawful S) (p : Prog Q Ans α) (htodo : s.todo = none) (hp : s.prog = p) :
    ∃ as M, Run (Step S code) (Machine.alone db s) as M ∧ M.db = db ∧
      Step S code M (.finish s.sid)
        (Machine.idle (exec S ⟨s.now, fun _ => false, fun _ => true⟩ db p (s.pending db)).2) := by
  induction p generalizing s with
  | finish commit r =>
    have hstep : Step S code (Machine.alone db s) _ _ :=
      .finish (List.mem_singleton.mpr rfl) htodo hp
    have herase : (Machine.alone db s).sessions.erase s.sid = Table.empty := by
      simp [Machine.alone, Table.erase, Table.empty]
    rw [herase] at hstep
    exact ⟨[], _, .nil _, rfl, hstep⟩
  | query q k ih =>
    obtain ⟨as, s', hrun, hsid, hnow, htodo', hp', hpend⟩ := run_statement hS htodo hp
    obtain ⟨bs, M, hbs, hdb, hfinish⟩ := ih _ htodo' hp'
    rw [hnow, hpend, hsid] at hfinish
    exact ⟨_, M, hrun.append hbs, hdb, hfinish⟩

/-- A transaction that runs alone can reach the state that `transact` computes. The
committed state does not change before the last step. -/
theorem serial (hS : Lawful S) (i : Nat) (c : τ) (now : Nat) :
    ∃ as M, Run (Step S code) (Machine.idle db) (.begin i c now :: as) M ∧ M.db = db ∧
      Step S code M (.finish i)
        (Machine.idle (transact S now (fun _ => false) (code c) db).2) := by
  obtain ⟨as, M, has, hdb, hfinish⟩ : ∃ as M,
      Run (Step S code) (Machine.alone db (Session.start i c now (code c))) as M ∧ M.db = db ∧
        Step S code M (.finish i) (Machine.idle _) :=
    run_session hS (code c) rfl rfl
  exact ⟨as, M, .cons (.begin rfl) has, hdb, hfinish⟩

/-- Transactions that run one after the other. -/
theorem serial_all (hS : Lawful S) (cs : List (τ × Nat)) : ∃ as, Run (Step S code)
    (Machine.idle db) as (Machine.idle (cs.foldl (fun db c =>
      (transact S c.2 (fun _ => false) (code c.1) db).2) db)) := by
  induction cs generalizing db with
  | nil => exact ⟨[], .nil _⟩
  | cons c cs ih =>
    obtain ⟨as, M, hrun, _, hend⟩ : ∃ as M,
        Run (Step S code) (Machine.idle db) (.begin 0 c.1 c.2 :: as) M ∧ M.db = db ∧
          Step S code M (.finish 0) (Machine.idle _) := serial hS 0 c.1 c.2
    obtain ⟨bs, hbs⟩ := ih
    exact ⟨_, (hrun.snoc hend).append hbs⟩

end Serial

/-! ## Executable steps -/

/-- The step with the given label, if it is enabled. -/
def next (S : Semantics σ Q Ans R) (code : τ → Prog Q Ans α) (M : Machine τ σ Q Ans R α) :
    Label τ R → Option (Machine τ σ Q Ans R α)
  | .begin i c now =>
    match M.sessions.get? i with
    | none => some { M with sessions := M.sessions.insert (Session.start i c now (code c)) }
    | some _ => none
  | .request i rows =>
    match M.sessions.get? i with
    | none => none
    | some s =>
      match s.prog, s.todo with
      | .query q _, none =>
        let targets := S.waitRows q (s.view M.db)
        if rows.Perm (targets.filter fun r => decide (r ∉ s.held)) then
          some (M.put (s.requested (fun r => !M.heldByOther s.sid r) targets rows))
        else none
      | _, _ => none
  | .lock i =>
    match M.sessions.get? i with
    | none => none
    | some s =>
      match s.todo with
      | some (r :: rest) =>
        if M.heldByOther s.sid r then none
        else some (M.put { s with held := r :: s.held, todo := some rest })
      | _ => none
  | .exec i =>
    match M.sessions.get? i with
    | none => none
    | some s =>
      match s.prog, s.todo with
      | .query q k, some [] => some (M.put (s.acted S M q k))
      | _, _ => none
  | .finish i =>
    match M.sessions.get? i with
    | none => none
    | some s =>
      match s.prog, s.todo with
      | .finish commit _, none =>
        some { db := if commit then s.pending M.db else M.db, sessions := M.sessions.erase s.sid }
      | _, _ => none
  | .abort i =>
    match M.sessions.get? i with
    | none => none
    | some s => some { M with sessions := M.sessions.erase s.sid }

theorem step_of_next {code : τ → Prog Q Ans α} (h : next S code M a = some M') :
    Step S code M a M' := by
  have hsid : ∀ {i : Nat} {s : Session τ σ Q Ans R α}, M.sessions.get? i = some s → s.sid = i :=
    fun hg => Table.key_of_get? hg
  cases a with
  | begin i c now =>
    simp only [next] at h
    split at h
    · next hg => cases h; exact .begin hg
    · cases h
  | request i rows =>
    simp only [next] at h
    split at h
    · cases h
    · next s hg =>
      split at h
      · next q k hp ht =>
        split at h
        · next hperm =>
          cases h
          rw [← hsid hg]
          exact .move (Table.mem_of_get? hg) (.request ht hp hperm)
        · cases h
      · cases h
  | lock i =>
    simp only [next] at h
    split at h
    · cases h
    · next s hg =>
      split at h
      · next r rest ht =>
        split at h
        · cases h
        · next hf =>
          cases h
          rw [← hsid hg]
          exact .move (Table.mem_of_get? hg) (.lock ht (by simpa using hf))
      · cases h
  | exec i =>
    simp only [next] at h
    split at h
    · cases h
    · next s hg =>
      split at h
      · next q k hp ht =>
        cases h
        rw [← hsid hg]
        exact .move (Table.mem_of_get? hg) (.exec ht hp)
      · cases h
  | finish i =>
    simp only [next] at h
    split at h
    · cases h
    · next s hg =>
      split at h
      · next commit r hp ht =>
        cases h
        rw [← hsid hg]
        exact .finish (Table.mem_of_get? hg) ht hp
      · cases h
  | abort i =>
    simp only [next] at h
    split at h
    · cases h
    · next s hg =>
      cases h
      rw [← hsid hg]
      exact .abort (Table.mem_of_get? hg)

end Machine

end Transactions
