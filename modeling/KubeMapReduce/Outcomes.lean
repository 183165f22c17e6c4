import KubeMapReduce.Attempts

/-!
# The outcome of an attempt

CompleteTask reads the task row and the lease of an attempt, not its status. So an attempt
that was failed behind the back of its task, by the statement that the reaper issues after
its commit or by the first statement of Recover, can still be completed
(`failed_becomes_success`).

* `final_apply`: what a change does to the status of one attempt.
* `outcomes_final`: an attempt ends at most once in a run in which that statement of the
  reaper finds no Running attempt and no task is completed in the middle of its replica's
  Recover.
-/

namespace KubeMapReduce

open Tables Runs

variable {a att : AttemptRow} {x : UUID} {w w' : World} {now : Time} {db db' : DB}

/-! ## 1. One attempt through a change -/

/-- The status stays, or the attempt ends. -/
def Final (old new : AttemptStatus) : Prop :=
  new = old ∨ old = .running ∧ (new = .success ∨ new = .failed)

theorem Final.trans {old mid new : AttemptStatus} (h : Final old mid) (h' : Final mid new) :
    Final old new := by
  rcases h with rfl | ⟨rfl, h⟩
  · exact h'
  · rcases h' with rfl | ⟨rfl, h'⟩
    · exact .inr ⟨rfl, h⟩
    · exact .inr ⟨rfl, h'⟩

/-- A change ends an attempt once if it completes Running attempts only and does not release
one that succeeded. -/
theorem final_apply (now : Time) {c : Change} (h : db.attempts.get? x = some a)
    (hcomplete : ∀ t lease skew rows, c = .complete t x lease skew rows → a.status = .running)
    (hrelease : ∀ t status, c = .release t x status → a.status ≠ .success) :
    ∃ a', (c.apply now db).attempts.get? x = some a' ∧ Final a.status a'.status := by
  obtain ⟨a', ha', hrow⟩ := c.attempt_apply now h
  obtain rfl := Table.key_of_get? h
  rcases hrow.status with hs | ⟨hs, t, lease, skew, rows, hc⟩ | ⟨hs, hr | ⟨t, status, hc⟩⟩
  · exact ⟨a', ha', .inl hs⟩
  · exact ⟨a', ha', .inr ⟨hcomplete t lease skew rows hc, .inl hs⟩⟩
  · exact ⟨a', ha', .inr ⟨hr, .inr hs⟩⟩
  · refine ⟨a', ha', ?_⟩
    rw [hs]
    cases hold : a.status with
    | running => exact .inr ⟨rfl, .inr rfl⟩
    | success => exact absurd hold (hrelease t status hc)
    | failed => exact .inl rfl

/-- The current attempt of an In-Progress task has not succeeded. -/
def Unfinished (db : DB) : Prop :=
  ∀ t x row a, Change.Current db t x row a → a.status ≠ .success

theorem Unfinished.apply (hu : Unfinished db) (hl : Linked db) {c : Change}
    (hg : c.Guard now db) : Unfinished (c.apply now db) := by
  intro t x row' a' hc hs
  rcases Change.inProgress_cases hg hc.task hc.status with ⟨hrow, hn⟩ | ⟨a, r, rfl, hcur⟩
  · obtain ⟨a, ha, hat⟩ := hl.owner t row' x hrow hc.current
    have hold := hu t x row' a ⟨hrow, hc.status, hc.current, ha⟩
    obtain ⟨a'', ha'', hrow'⟩ := c.attempt_apply now ha
    rcases hrow'.status with hsame | ⟨_, t', lease, skew, rows, rfl⟩ | ⟨hfailed, _⟩
    · cases ha''.symm.trans hc.attempt
      exact hold (hsame.symm.trans hs)
    · -- the attempt belongs to one task only, which the completion has written
      obtain ⟨_, _, _, hc', _⟩ := hg
      obtain ⟨b, hb, hbt⟩ := hl.owner t' _ _ hc'.task hc'.current
      rw [Table.key_of_get? ha, ha] at hb
      cases hb
      exact hn ((Table.key_of_get? hrow).trans (hat.symm.trans hbt))
    · cases ha''.symm.trans hc.attempt
      cases hs.symm.trans hfailed
  · obtain ⟨_, hrun, hnew, _⟩ := hg
    cases hc.current.symm.trans hcur
    cases (Table.get?_insert_self hnew).symm.trans hc.attempt
    cases hrun.symm.trans hs

/-! ## 2. Runs -/

/-- The statement that the reaper issues after its commit finds no Running attempt, and no
task is completed while its replica is in the middle of Recover. -/
def outcomesKept (w : World) : Label → Prop
  | .call (.completeTask _ t _ _ _ _) _ _ =>
    ∀ r ∈ w.db.replicaOf t, ¬ (w.phase r).midRecover
  | a => respawnsIdle w a

instance (w : World) (a : Label) : Decidable (outcomesKept w a) := by
  unfold outcomesKept
  split <;> infer_instance

theorem respawnsIdle_of_outcomesKept {a : Label} (h : outcomesKept w a) : respawnsIdle w a := by
  unfold outcomesKept at h
  split at h
  · trivial
  · exact h

/-- What the states of such a run satisfy. -/
structure Settling (w : World) : Prop where
  coherent : Coherent w.phase w.db
  tracked : AllTracked w
  unfinished : Unfinished w.db

theorem settling_initial (q : Option Nat) : Settling (World.initial q) :=
  ⟨coherent_initial q, allTracked_initial q, fun _ _ _ _ hc => nomatch hc.task⟩

theorem settling_step {a : Label} (hw : Settling w) (h : Step w a w') (hok : respawnsIdle w a) :
    Settling w' := by
  refine ⟨coherent_step hw.coherent h, (tracked_step hw.coherent hw.tracked h).mpr hok, ?_⟩
  obtain ⟨now, cs, _, hcs, hm⟩ := step_changes h
  refine (hcs.keeps (I := fun d => Coherent w.phase d ∧ Unfinished d) ?_
    ⟨hw.coherent, hw.unfinished⟩).2
  rintro d c hc hg ⟨hd, hu⟩
  exact ⟨hd.apply h hg (hm c hc), hu.apply hd.linked hg⟩

/-- The changes of a step other than a completion end an attempt at most once. -/
theorem final_changes {a : Label} (h : Step w a w') {cs : List Change} (hcs : Changes now db cs db')
    (hm : ∀ c ∈ cs, Makes a c)
    (hno : ∀ c ∈ cs, ∀ t x lease skew rows, c ≠ .complete t x lease skew rows)
    (hd : Coherent w.phase db) (hu : Unfinished db) (hx : db.attempts.get? x = some att) :
    ∃ att', db'.attempts.get? x = some att' ∧ Final att.status att'.status := by
  refine (hcs.keeps (I := fun d => Coherent w.phase d ∧ Unfinished d ∧
    ∃ att', d.attempts.get? x = some att' ∧ Final att.status att'.status) ?_
    ⟨hd, hu, att, hx, .inl rfl⟩).2.2
  rintro d c hc hg ⟨hd, hu, att₁, hx₁, hfin⟩
  obtain ⟨att₂, hx₂, hfin₂⟩ := final_apply now hx₁
    (fun t lease skew rows he => absurd he (hno c hc t x lease skew rows))
    (fun t status he => by
      subst he
      obtain ⟨row, b, hcur, _⟩ := hg
      cases hcur.attempt.symm.trans hx₁
      exact hu t x row _ hcur)
  exact ⟨hd.apply h hg (hm c hc), hu.apply hd.linked hg, att₂, hx₂, hfin.trans hfin₂⟩

theorem final_step {a : Label} (hw : Settling w) (h : Step w a w') (hok : outcomesKept w a)
    (hx : w.db.attempts.get? x = some att) :
    ∃ att', w'.db.attempts.get? x = some att' ∧ Final att.status att'.status := by
  by_cases ha : ∃ s t y lease us cks now locked,
      a = .call (.completeTask s t y lease us cks) now locked
  · obtain ⟨s, t, y, lease, us, cks, now, locked, rfl⟩ := ha
    obtain ⟨_, _, hdb, _⟩ := step_call h
    rw [hdb]
    obtain ⟨hsame, _⟩ | ⟨_, hlen, tail, hcs, htail⟩ :=
      completeTask_perform s t y lease us cks now locked w.db
    · rw [hsame]
      exact ⟨att, hx, .inl rfl⟩
    · have hmakes : Makes (.call (.completeTask s t y lease us cks) now locked)
          (.complete t y lease s.leaseClockSkewSeconds (outputRows t us cks)) :=
        ⟨s, us, cks, now, locked, rfl, rfl, rfl, hlen⟩
      cases hcs with
      | cons hstep hrest =>
        obtain ⟨hg, rfl⟩ := hstep
        obtain ⟨_, row, b, hc, _⟩ := id hg
        -- outside Recover the current attempt of an In-Progress task is Running
        obtain ⟨y', b', hc', _, hrun⟩ := hw.tracked t row hc.task hc.status hok
        obtain ⟨att₁, hx₁, hfin₁⟩ := final_apply now
          (c := .complete t y lease s.leaseClockSkewSeconds (outputRows t us cks)) hx
          (fun t' lease' skew' rows' he => by
            cases he
            cases hc.current.symm.trans hc'.current
            cases hx.symm.trans hc'.attempt
            exact hrun)
          nofun
        obtain ⟨att₂, hx₂, hfin₂⟩ := final_changes h hrest
          (fun c hc => Allows.makes ((htail c hc).allows fun _ => trivial))
          (fun c hc => (htail c hc).not_complete) (hw.coherent.apply h hg hmakes)
          (hw.unfinished.apply hw.coherent.linked hg) hx₁
        exact ⟨att₂, hx₂, hfin₁.trans hfin₂⟩
  · obtain ⟨now, cs, _, hcs, hm⟩ := step_changes h
    refine final_changes h hcs hm ?_ hw.coherent hw.unfinished hx
    rintro c hc t y lease skew rows rfl
    obtain ⟨s, us, cks, now', locked, rfl, _⟩ := hm _ hc
    exact ha ⟨s, t, y, lease, us, cks, now', locked, rfl⟩

/-- In a run whose steps meet the condition a row of TASK_ATTEMPTS changes its status at most
once, from Running to Success or to Failed: between any two states of the run, the later of
which has all rows of the earlier. -/
theorem outcomes_final {q : Option Nat} {as bs : List Label} {v w : World}
    (h : Run (Under Step outcomesKept) (World.initial q) as v)
    (h' : Run (Under Step outcomesKept) v bs w) {x : UUID} {att : AttemptRow}
    (hx : v.db.attempts.get? x = some att) :
    ∃ att', w.db.attempts.get? x = some att' ∧
      (att'.status = att.status ∨
        att.status = .running ∧ (att'.status = .success ∨ att'.status = .failed)) := by
  have hv := h.invariant (I := Settling) (fun _ _ _ hw hs =>
    settling_step hw hs.1 (respawnsIdle_of_outcomesKept hs.2)) (settling_initial q)
  refine (h'.invariant (I := fun w => Settling w ∧
    ∃ att', w.db.attempts.get? x = some att' ∧ Final att.status att'.status) ?_
    ⟨hv, att, hx, .inl rfl⟩).2
  rintro u a u' ⟨hu, att₁, hx₁, hfin₁⟩ ⟨hs, hok⟩
  obtain ⟨att₂, hx₂, hfin₂⟩ := final_step hu hs hok hx₁
  exact ⟨settling_step hu hs (respawnsIdle_of_outcomesKept hok), att₂, hx₂, hfin₁.trans hfin₂⟩

/-- The first of the two workers completes its task. -/
def firstCompleted : Label :=
  calling (.completeTask soloReplica 2 10 20 ["uri"] ["sum"]) (31 * second)

theorem outcomes_final_first :
    ∃ v w, Run (Under Step outcomesKept) (World.initial none) twoWorkers v ∧
      Run (Under Step outcomesKept) v [firstCompleted] w ∧
      ∃ att, v.db.attempts.get? 10 = some att ∧ att.status = .running ∧
        ∃ att', w.db.attempts.get? 10 = some att' ∧ att'.status = .success ∧
          (att'.status = att.status ∨
            att.status = .running ∧ (att'.status = .success ∨ att'.status = .failed)) := by
  obtain ⟨v, w, hv, hvw, hrunning, hdone⟩ := (run_then (by decide) :
    ∃ v w, Run (Under Step outcomesKept) (World.initial none) twoWorkers v ∧
      Under Step outcomesKept v firstCompleted w ∧
      (v.db.attempts.get? 10).map AttemptRow.status = some .running ∧
      (w.db.attempts.get? 10).map AttemptRow.status = some .success)
  obtain ⟨att, hatt, hs⟩ := Option.map_eq_some_iff.mp hrunning
  obtain ⟨att', hatt', hfin⟩ := outcomes_final hv (.single hvw) hatt
  rw [hatt'] at hdone
  exact ⟨v, w, hv, .single hvw, att, hatt, hs, att', hatt', Option.some.inj hdone, hfin⟩

/-- The reaper's last statement has failed the attempt of the second worker of `siblingRun`;
its lease is valid, and it completes its task. -/
theorem failed_becomes_success :
    ∃ v w, Run Step (World.initial none) siblingRun v ∧
      Step v (calling (.completeTask soloReplica 3 11 21 ["uri"] ["sum"]) (41 * second)) w ∧
      (v.db.attempts.get? 11).map AttemptRow.status = some .failed ∧
      (w.db.attempts.get? 11).map AttemptRow.status = some .success := by
  obtain ⟨v, w, hv, hvw, hstatus⟩ := (run_then (by decide) :
    ∃ v w, Run (Under Step fun _ _ => True) (World.initial none) siblingRun v ∧
      Under Step (fun _ _ => True) v
        (calling (.completeTask soloReplica 3 11 21 ["uri"] ["sum"]) (41 * second)) w ∧
      (v.db.attempts.get? 11).map AttemptRow.status = some .failed ∧
      (w.db.attempts.get? 11).map AttemptRow.status = some .success)
  exact ⟨v, w, hv.of_under, hvw.1, hstatus⟩

end KubeMapReduce
