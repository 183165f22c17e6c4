/-!
# Programs that issue queries

A program is a tree: it issues a query and goes on with the answer, or it
finishes with a result and says whether its work is to be kept. Programs are
data, so one text of a transaction can be run in one piece and can be run
statement by statement between the statements of others.

A monitor follows a program query by query. `Prog.Obeys mon m p` says that from
monitor state `m` on no query of `p`, on whatever answers, is one the monitor
forbids; `Prog.Fulfils mon done m p` says besides that `p` keeps its work only in a
monitor state that satisfies `done`, and `Prog.Meets mon post m p` that every result
of `p` fits the monitor state in which it is returned.
-/

namespace Programs

variable {c : Prop} {Q : Type} {Ans : Q → Type} {α β : Type}

/-- A program over the queries `Q`, where `q` is answered by a value of `Ans q`. -/
inductive Prog (Q : Type) (Ans : Q → Type) (α : Type) where
  | query (q : Q) (k : Ans q → Prog Q Ans α)
  | finish (commit : Bool) (r : α)

variable {p p' : Prog Q Ans α}

namespace Prog

/-- The result of a program that has finished. -/
def result? : Prog Q Ans α → Option α
  | .query _ _ => none
  | .finish _ r => some r

/-- The queries of the program and its result, when each query is answered by `answer`. -/
def play (answer : (q : Q) → Ans q) : Prog Q Ans α → List Q × α
  | .query q k => (q :: ((k (answer q)).play answer).1, ((k (answer q)).play answer).2)
  | .finish _ r => ([], r)

/-- Apply `f` to the result. -/
def map (f : α → β) : Prog Q Ans α → Prog Q Ans β
  | .query q k => .query q fun a => (k a).map f
  | .finish commit r => .finish commit (f r)

end Prog

/-- A monitor: `ok m q` allows the query `q` in state `m`, and `next m q a` is the
state after the answer `a`. -/
structure Monitor (Q : Type) (Ans : Q → Type) (M : Type) where
  next : M → (q : Q) → Ans q → M
  ok : M → Q → Prop

variable {M : Type}

/-- Every query that the program can issue from state `m` on is allowed. -/
def Prog.Obeys (mon : Monitor Q Ans M) : M → Prog Q Ans α → Prop
  | _, .finish _ _ => True
  | m, .query q k => mon.ok m q ∧ ∀ a, (k a).Obeys mon (mon.next m q a)

section Obeys

variable {mon : Monitor Q Ans M} {m : M}

theorem Prog.obeys_query {q : Q} {k : Ans q → Prog Q Ans α} (hok : mon.ok m q)
    (h : ∀ a, (k a).Obeys mon (mon.next m q a)) : (Prog.query q k).Obeys mon m := ⟨hok, h⟩

theorem Prog.obeys_ite [Decidable c] (ht : c → p.Obeys mon m) (hf : ¬ c → p'.Obeys mon m) :
    (if c then p else p').Obeys mon m := by
  split
  · next h => exact ht h
  · next h => exact hf h

end Obeys

theorem Prog.obeys_map (mon : Monitor Q Ans M) (f : α → β) (m : M) (p : Prog Q Ans α) :
    (p.map f).Obeys mon m ↔ p.Obeys mon m := by
  induction p generalizing m with
  | finish commit r => exact Iff.rfl
  | query q k ih =>
    show (mon.ok m q ∧ ∀ a, ((k a).map f).Obeys mon _) ↔ (mon.ok m q ∧ ∀ a, (k a).Obeys mon _)
    exact and_congr_right fun _ => forall_congr' fun a => ih a _

/-- Every query that the program can issue from state `m` on is allowed, and its work is
kept only in a state that satisfies `done`. -/
def Prog.Fulfils (mon : Monitor Q Ans M) (done : M → Prop) : M → Prog Q Ans α → Prop
  | m, .finish commit _ => commit = true → done m
  | m, .query q k => mon.ok m q ∧ ∀ a, (k a).Fulfils mon done (mon.next m q a)

section Fulfils

variable {mon : Monitor Q Ans M} {done : M → Prop} {m : M}

theorem Prog.fulfils_query {q : Q} {k : Ans q → Prog Q Ans α} (hok : mon.ok m q)
    (h : ∀ a, (k a).Fulfils mon done (mon.next m q a)) :
    (Prog.query q k).Fulfils mon done m := ⟨hok, h⟩

theorem Prog.fulfils_rollback {r : α} : (Prog.finish false r : Prog Q Ans α).Fulfils mon done m :=
  nofun

theorem Prog.fulfils_ite [Decidable c] (ht : c → p.Fulfils mon done m)
    (hf : ¬ c → p'.Fulfils mon done m) : (if c then p else p').Fulfils mon done m := by
  split
  · next h => exact ht h
  · next h => exact hf h

theorem Prog.Fulfils.map {f : α → β} (h : p.Fulfils mon done m) : (p.map f).Fulfils mon done m := by
  induction p generalizing m with
  | finish commit r => exact h
  | query q k ih => exact ⟨h.1, fun a => ih a (h.2 a)⟩

theorem Prog.Fulfils.obeys (h : p.Fulfils mon done m) : p.Obeys mon m := by
  induction p generalizing m with
  | finish commit r => trivial
  | query q k ih => exact ⟨h.1, fun a => ih a (h.2 a)⟩

end Fulfils

/-- Two monitors side by side. -/
def Monitor.prod {N : Type} (mon : Monitor Q Ans M) (mon' : Monitor Q Ans N) :
    Monitor Q Ans (M × N) where
  next x q a := (mon.next x.1 q a, mon'.next x.2 q a)
  ok x q := mon.ok x.1 q ∧ mon'.ok x.2 q

section Prod

variable {N : Type} {mon : Monitor Q Ans M} {mon' : Monitor Q Ans N} {x : M × N}

theorem Prog.Fulfils.fst {done : M × N → Prop} (h : p.Fulfils (mon.prod mon') done x) :
    p.Obeys mon x.1 := by
  induction p generalizing x with
  | finish commit r => trivial
  | query q k ih => exact ⟨h.1.1, fun a => ih a (h.2 a)⟩

theorem Prog.Fulfils.snd (done : N → Prop)
    (h : p.Fulfils (mon.prod mon') (fun x => done x.2) x) : p.Fulfils mon' done x.2 := by
  induction p generalizing x with
  | finish commit r => exact h
  | query q k ih => exact ⟨h.1.2, fun a => ih a (h.2 a)⟩

end Prod

/-- The monitor that allows the queries with `P`. -/
def only (P : Q → Prop) : Monitor Q Ans Unit := ⟨fun _ _ _ => (), fun _ q => P q⟩

theorem Prog.Obeys.only_mono {P P' : Q → Prop} (h : p.Obeys (only P) ()) (hp : ∀ q, P q → P' q) :
    p.Obeys (only P') () := by
  induction p with
  | finish commit r => trivial
  | query q k ih => exact ⟨hp q h.1, fun a => ih a (h.2 a)⟩

/-- Every query that the program can issue from state `m` on is allowed, and its result
satisfies `post` in the state in which it finishes. -/
inductive Prog.Meets (mon : Monitor Q Ans M) (post : M → α → Prop) : M → Prog Q Ans α → Prop
  | finish {m : M} {commit : Bool} {r : α} : post m r → Meets mon post m (.finish commit r)
  | query {m : M} {q : Q} {k : Ans q → Prog Q Ans α} :
      mon.ok m q → (∀ a, Meets mon post (mon.next m q a) (k a)) → Meets mon post m (.query q k)

section Meets

variable {mon : Monitor Q Ans M} {post : M → α → Prop} {m : M}

theorem Prog.meets_ite [Decidable c] (ht : c → p.Meets mon post m)
    (hf : ¬ c → p'.Meets mon post m) :
    (if c then p else p').Meets mon post m := by
  split
  · next h => exact ht h
  · next h => exact hf h

/-- A program that has finished issues no query. -/
theorem Prog.meets_of_result {r : α} (h : p.result? = some r) :
    p.Meets mon (fun _ _ => True) m := by
  cases p with
  | finish commit r' => exact .finish trivial
  | query q k => cases h

theorem Prog.Meets.map {f : β → α} {p : Prog Q Ans β}
    (h : p.Meets mon (fun m r => post m (f r)) m) : (p.map f).Meets mon post m := by
  induction h with
  | finish hr => exact .finish hr
  | query hok _ ih => exact .query hok ih

theorem Prog.Meets.obeys_only {P : Q → Prop} (h : p.Meets mon post m)
    (hok : ∀ m q, mon.ok m q → P q) : p.Obeys (only P) () := by
  induction h with
  | finish => trivial
  | query hq _ ih => exact ⟨hok _ _ hq, ih⟩

end Meets

end Programs
