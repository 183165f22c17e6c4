import KubeMapReduce.Agreement

/-!
# Which jobs fail

FailTask and the reaper fail a task only when its attempts are used up, and they record Failed for
its job. CancelJob fails the tasks of a job without counting, and it records Cancelled. That entry
is in the memory of one process. A process that starts later derives the state from the tasks, and
for a cancelled job that is Failed.

* `cleans_failed`: how a task gets to be Failed.
* `failed_exhausted`: in every run a Failed task has used up its attempts or its job was cancelled,
  and a job that was not cancelled is held as Failed only for a task of the first kind.
* `cancelled_held_failed`: a cancelled job that is held as Failed after a restart.
-/

namespace KubeMapReduce

open Tables Runs

variable {m m' : Cleaners} {j t : UUID}

/-! ## 1. How a task fails -/

/-- The move is a CancelJob transaction for the job that commits. -/
def Cancels (j : UUID) (m : Cleaners) : CleanMove → Prop
  | .serve _ (.cancelJob s j') now locked =>
    j' = j ∧ Committed (.cancelJob s j') now locked m.world.db
  | _ => False

/-- A task that is Failed after a move was so before, or has used up its attempts, or its job is
cancelled by the move. -/
theorem cleans_failed {a : CleanMove} (h : Cleans m a m') {row : TaskRow}
    (ht : m'.world.db.tasks.get? t = some row) (hs : row.status = .failed) :
    (∃ row₀, m.world.db.tasks.get? t = some row₀ ∧ row₀.status = .failed) ∨
      MaxTaskAttempts ≤ m'.world.db.attemptCount t ∨ Cancels row.jobID m a := by
  rcases cleans_world h with hw | ⟨r, c, now, locked, rfl, hstep⟩ | ⟨l, hl, hstep⟩
  · rw [hw] at ht
    exact .inl ⟨row, ht, hs⟩
  · obtain ⟨_, _, _, hcs, hm⟩ := step_changes hstep
    rcases failed_changes hcs ht hs with hold | hmax | hcancel
    · exact .inl hold
    · exact .inr (.inl hmax)
    · obtain ⟨s, _, _, ⟨⟩⟩ := hm _ hcancel
      by_cases hc : Committed (.cancelJob s row.jobID) now locked m.world.db
      · exact .inr (.inr ⟨rfl, hc⟩)
      · rw [(step_call hstep).2.2.1, perform_of_not_committed hc] at ht
        exact .inl ⟨row, ht, hs⟩
  · obtain ⟨_, _, _, hcs, hm⟩ := step_changes hstep
    rcases failed_changes hcs ht hs with hold | hmax | hcancel
    · exact .inl hold
    · exact .inr (.inl hmax)
    · obtain ⟨s, _, _, rfl⟩ := hm _ hcancel
      exact hl.elim

theorem cleans_changes {a : CleanMove} (h : Cleans m a m') :
    ∃ now cs, Changes now m.world.db cs m'.world.db := by
  rcases cleans_world h with hw | ⟨_, _, _, _, _, hstep⟩ | ⟨_, _, hstep⟩
  · rw [hw]
    exact ⟨0, [], .nil _⟩
  all_goals
    obtain ⟨now, cs, _, hcs, _⟩ := step_changes hstep
    exact ⟨now, cs, hcs⟩

/-! ## 2. What the processes hold -/

/-- No CancelJob transaction commits for the job, and it is not scheduled when it is closed. -/
def uncancelled (j : UUID) (m : Cleaners) (a : CleanMove) : Prop :=
  ¬ Cancels j m a ∧ (Schedules m j a → ¬ Closed m.world.db j)

instance (j : UUID) (m : Cleaners) (a : CleanMove) : Decidable (uncancelled j m a) := by
  unfold uncancelled
  induction a using CleanMove.casesOn with
  | serve _ c =>
    induction c using Call.casesOn <;> dsimp only [Cancels, Schedules] <;>
      exact @instDecidableAnd _ _ inferInstance instDecidableForall
  | _ =>
    dsimp only [Cancels, Schedules]
    exact @instDecidableAnd _ _ inferInstance instDecidableForall

/-- Failed tasks of the job have used up their attempts, and it is held as Failed only for them. -/
structure Earned (m : Cleaners) (j : UUID) : Prop extends Steady m j where
  tasks : m.world.db.HasFailed j → Exhausted m.world.db j
  held : m.Holds j (some .failed) → Exhausted m.world.db j

theorem earned_initial (b : Bool) (q : Option Nat) (j : UUID) :
    Earned (Cleaners.initial b q) j := by
  refine ⟨steady_initial b q j, ?_, fun he => absurd he not_holds_initial⟩
  rintro ⟨_, _, ht, _⟩
  cases ht

theorem earned_step {a : CleanMove} (hm : Earned m j) (h : Cleans m a m')
    (ho : uncancelled j m a) : Earned m' j := by
  obtain ⟨now, cs, hcs⟩ := cleans_changes h
  have hkept : Exhausted m.world.db j → Exhausted m'.world.db j := fun he => he.changes hcs
  refine ⟨steady_step hm.toSteady h ho.2, ?_, fun he => ?_⟩
  · rintro ⟨t, row, ht, rfl, hs⟩
    rcases cleans_failed h ht hs with ⟨row₀, ht₀, hs₀⟩ | hmax | hcancels
    · refine hkept (hm.tasks ⟨t, row₀, ht₀, ?_, hs₀⟩)
      have hjob := changes_jobOf hcs (t := t) (j := row₀.jobID) (by rw [DB.jobOf, ht₀]; rfl)
      rw [DB.jobOf, ht] at hjob
      exact (Option.some.inj hjob).symm
    · exact ⟨t, row, ht, rfl, hs, hmax⟩
    · exact absurd hcancels ho.1
  · cases cleans_effect h j with
    | passes _ holds => exact hkept (hm.held (holds _ he))
    | closes closes db holds =>
      rcases holds _ he with he | ⟨⟨⟩⟩
      · exact hkept (hm.held he)
      · obtain ⟨thread, hth, hact⟩ := closes.records
        rcases post_grounds hth hact with ⟨⟨⟩, _⟩ | ⟨_, _, t, x, hch, hmem, hj⟩ | ⟨⟨⟩, _⟩ |
          ⟨ts, rfl, _⟩
        · rw [db]
          exact exhausted_of_release hch hmem hj
        · cases (cleans_serve h).1
    | starts _ _ holds => exact hkept (hm.held ((holds _ he).resolve_right (by rintro ⟨⟩)))
    | counts _ _ _ holds => exact hkept (hm.held (holds _ he))
    | derives none state world holds =>
      rcases holds _ he with he | hts
      · exact hkept (hm.held he)
      · rcases state with ⟨_, hf⟩ | ⟨⟨f, hk, hcounting⟩, hts'⟩
        · exact hkept (hm.tasks hf)
        · have hdone := hm.counted ⟨f, List.mem_of_getElem? hk, hcounting⟩
          rw [pendingCount_eq_zero.mpr hdone, if_neg (Nat.lt_irrefl 0)] at hts'
          rw [hts'] at hts
          cases hts
    | finalizes _ _ holds => exact hkept (hm.held (holds _ he))

/-! ## 3. Every run -/

/-- A CancelJob transaction of the run has committed for the job. -/
def CancelCommitted (b : Bool) (q : Option Nat) (as : List CleanMove) (j : UUID) : Prop :=
  ∃ bs a cs v, as = bs ++ a :: cs ∧ Run Cleans (Cleaners.initial b q) bs v ∧ Cancels j v a

/-- What every change keeps is kept by a run. -/
theorem kept_cleans {as : List CleanMove} (h : Run Cleans m as m') {P : DB → Prop}
    (hP : ∀ {now : Time} {d : DB} {c : Change}, P d → c.Guard now d → P (c.apply now d))
    (h0 : P m.world.db) : P m'.world.db := by
  refine h.invariant (I := fun v => P v.world.db) (fun v a v' hv hs => ?_) h0
  obtain ⟨_, _, hcs⟩ := cleans_changes hs
  refine hcs.keeps ?_ hv
  rintro d c _ hg hd
  exact hP hd hg

/-- In every run, restarts and reconcilers included, a Failed task has used up its attempts or
belongs to a job for which a CancelJob has committed. A job for which none has committed, and which
is not scheduled again when it is closed, is held as Failed only if one of its tasks has used up its
attempts: in a map, by an operation that is about to put it there, or by a finalizer. -/
theorem failed_exhausted {b : Bool} {q : Option Nat} {as : List CleanMove}
    (h : Run Cleans (Cleaners.initial b q) as m) :
    (∀ t row, m.world.db.tasks.get? t = some row → row.status = .failed →
      MaxTaskAttempts ≤ m.world.db.attemptCount t ∨ CancelCommitted b q as row.jobID) ∧
    ∀ j, Run (Under Cleans (uncancelled j)) (Cleaners.initial b q) as m →
      m.Holds j (some .failed) → Exhausted m.world.db j := by
  refine ⟨fun t row ht hs => ?_, fun j hj he => ?_⟩
  · obtain ⟨bs, a, cs, v, v', rfl, hbs, hstep, hcs, hv, row', hrow', hs'⟩ := h.exists_switch
      (P := fun v => ∃ row, v.world.db.tasks.get? t = some row ∧ row.status = .failed) nofun
      ⟨row, ht, hs⟩
    rcases cleans_failed hstep hrow' hs' with hold | hmax | hcancels
    · exact absurd hold hv
    · exact .inl (kept_cleans hcs (P := fun d => MaxTaskAttempts ≤ d.attemptCount t)
        (fun hd hg => Nat.le_trans hd (attemptCount_apply hg)) hmax)
    · have hjob : v'.world.db.jobOf t = some row'.jobID := by rw [DB.jobOf, hrow', Option.map_some]
      have hjob := kept_cleans hcs (P := fun d => d.jobOf t = some row'.jobID)
        (fun {_ _ c} hd _ => c.jobOf_apply hd) hjob
      rw [DB.jobOf, ht] at hjob
      exact .inr ⟨bs, a, cs, v, rfl, hbs, Option.some.inj hjob ▸ hcancels⟩
  · have hearned := hj.invariant (I := fun m => Earned m j)
      (fun _ _ _ hm hs => earned_step hm hs.1 hs.2) (earned_initial b q j)
    exact hearned.held he

/-- The replica starts, and the job is scheduled. -/
def scheduledMoves : List CleanMove :=
  startProcess 0 0 ++ [callTo 0 (.scheduleJob (replicaOfTwo 0) smallJob) 1]

/-- An attempt of task 2 that fails. -/
def failingAttempt (a lease : UUID) (now : Time) : List CleanMove :=
  [callTo 0 (.getNextTask (replicaOfTwo 0) 1 "worker" a lease) now,
    callTo 0 (.failTask (replicaOfTwo 0) 2 a lease "crash") now]

/-- The third attempt fails too, and the job goes into the map. -/
def failedMoves : List CleanMove :=
  scheduledMoves ++ failingAttempt 10 20 2 ++ failingAttempt 11 21 3 ++ failingAttempt 12 22 4 ++
    [.post 9 (.deleteHeartbeat 12) 5, .post 9 (.enqueueCleanup 1 .failed) 5]

theorem failed_exhausted_third :
    ∃ m, Run Cleans (Cleaners.initial true none) failedMoves m ∧
      (m.world.db.tasks.get? 2).map TaskRow.status = some .failed ∧
      m.pending.get? (0, 1) = some ⟨0, 1, some .failed⟩ ∧ Exhausted m.world.db 1 := by
  obtain ⟨m, hm, hs, hheld, hpending⟩ := (run_toUnder (by decide) :
    ∃ m, Run (Under Cleans (uncancelled 1)) (Cleaners.initial true none) failedMoves m ∧
      ((m.world.db.tasks.get? 2).map TaskRow.status = some .failed ∧
        m.Holds 1 (some .failed) ∧ m.pending.get? (0, 1) = some ⟨0, 1, some .failed⟩))
  exact ⟨m, hm.of_under, hs, hpending, (failed_exhausted hm.of_under).2 1 hm hheld⟩

/-- The job is cancelled before any of its tasks is tried, and the manager restarts. The new process
counts the tasks that CancelJob has failed. -/
def restartedMoves : List CleanMove :=
  scheduledMoves ++ [callTo 0 (.cancelJob (replicaOfTwo 0) 1) 2, .restart 0] ++ startProcess 0 3 ++
    [.finalizer 0 .count, .finalizer 0 .enqueue]

/-- The job is pending as Failed, and there has been no attempt at all. -/
theorem cancelled_held_failed :
    ∃ m, Run Cleans (Cleaners.initial true none) restartedMoves m ∧
      m.world.db.jobStatus 1 = some .cleaning ∧
      m.pending.get? (0, 1) = some ⟨0, 1, some .failed⟩ ∧ m.world.db.attempts.rows = [] ∧
      ¬ Exhausted m.world.db 1 := by
  obtain ⟨m, hm, hst, hpending, hrows⟩ := (run_to (by decide) :
    ∃ m, Run Cleans (Cleaners.initial true none) restartedMoves m ∧
      (m.world.db.jobStatus 1 = some .cleaning ∧
        m.pending.get? (0, 1) = some ⟨0, 1, some .failed⟩ ∧ m.world.db.attempts.rows = []))
  refine ⟨m, hm, hst, hpending, hrows, ?_⟩
  rintro ⟨t, row, _, _, _, hmax⟩
  rw [DB.attemptCount, hrows] at hmax
  cases hmax

end KubeMapReduce
