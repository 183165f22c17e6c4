import Mathlib.Data.Prod.Lex
import KubeMapReduce.Evidence

/-!
# Deadlocks

The transactions do not take their locks in one order. GetNextTask, CompleteTask and
the reaper write JOBS while they hold TASKS rows, CancelJob locks the JOBS row first,
and no statement orders the TASKS rows that it locks. `cycle_reached` is a run of two
transactions that wait for each other.

`no_deadlock`: there is no cycle of waits in a run in which

* a transaction that holds a TASKS row or the advisory lock asks for a JOBS row only
  when no other transaction holds it;
* the TASKS rows that a statement asks for are in ascending order and above the TASKS
  rows that its transaction holds.

The rest of the order JOBS, TASKS, advisory lock follows from the order of the
statements: the monitor allows no other wait.
-/

namespace KubeMapReduce

open Tables Transactions Programs Runs

variable {held rest : List Resource} {r : Resource}

/-! ## 1. The locks of a statement -/

/-- JOBS rows, TASKS rows and the advisory lock. -/
def Resource.ranked : Resource → Bool
  | .attempt _ => false
  | _ => true

/-- The order in which locks ought to be taken. -/
def Resource.rank : Resource → Nat ×ₗ Nat
  | .job _ => toLex (0, 0)
  | .task t => toLex (1, t)
  | .scheduling => toLex (2, 0)
  | .attempt _ => toLex (3, 0)

namespace DeadlockLemmas

variable {q : Query} {db : DB} {env : Env Resource} {m : Progress} {j t : UUID}

theorem job_lt_task (j t : UUID) : (Resource.job j).rank < (Resource.task t).rank :=
  Prod.Lex.toLex_lt_toLex.mpr (.inl Nat.zero_lt_one)

theorem job_lt_scheduling (j : UUID) : (Resource.job j).rank < Resource.scheduling.rank :=
  Prod.Lex.toLex_lt_toLex.mpr (.inl Nat.zero_lt_two)

theorem task_lt_scheduling (t : UUID) : (Resource.task t).rank < Resource.scheduling.rank :=
  Prod.Lex.toLex_lt_toLex.mpr (.inl Nat.one_lt_two)

theorem task_lt_task {t' : UUID} (h : t < t') : (Resource.task t).rank < (Resource.task t').rank :=
  Prod.Lex.toLex_lt_toLex.mpr (.inr ⟨rfl, h⟩)

theorem mem_waitRows : r ∈ q.waitRows db ↔
    match r with
    | .job j => ∃ row ∈ db.jobs.rows, q.jobWhere db row = true ∧ row.jobID = j
    | .task t => ∃ row ∈ db.tasks.rows, q.taskWhere db row = true ∧ row.taskID = t
    | .attempt a => ∃ row ∈ db.attempts.rows, q.attemptWhere db row = true ∧ row.attemptID = a
    | .scheduling => q = .acquireSchedulingLock := by
  unfold Query.waitRows
  simp only [List.mem_append, List.mem_map, List.mem_filter, and_assoc]
  cases r with
  | scheduling =>
    split
    · simp
    · next hne => simp [show q ≠ .acquireSchedulingLock from hne]
  | _ => split <;> simp

theorem jobWhere_unique {row row' : JobRow} (h : q.jobWhere db row = true)
    (h' : q.jobWhere db row' = true) : row'.jobID = row.jobID := by
  cases q with
  | lockJobByTask t =>
    exact Option.some.inj ((of_decide_eq_true h').symm.trans (of_decide_eq_true h))
  | getJobStatusForUpdate id => exact (of_decide_eq_true h').trans (of_decide_eq_true h).symm
  | updateJobStatus id st => exact (of_decide_eq_true h').trans (of_decide_eq_true h).symm
  | _ => cases h

/-- A statement that asks for a JOBS row asks for nothing else. -/
theorem waitRows_job (h : .job j ∈ q.waitRows db) : ∀ r ∈ q.waitRows db, r = .job j := by
  obtain ⟨row, -, hw, rfl⟩ := mem_waitRows.mp h
  intro r hr
  cases r with
  | job j' =>
    obtain ⟨row', -, hw', rfl⟩ := mem_waitRows.mp hr
    exact congrArg Resource.job (jobWhere_unique hw hw')
  | task t =>
    obtain ⟨_, _, hf, _⟩ := mem_waitRows.mp hr
    cases q <;> first | cases hw | cases hf
  | attempt a =>
    obtain ⟨_, _, hf, _⟩ := mem_waitRows.mp hr
    cases q <;> first | cases hw | cases hf
  | scheduling =>
    have hq := mem_waitRows.mp hr
    subst hq
    cases hw

theorem waitRows_nodup : (q.waitRows db).Nodup := by
  have hkeys : ∀ {ρ : Type} {key : ρ → UUID} (t : Table key) (p : ρ → Bool)
      (f : UUID → Resource), Function.Injective f → ((t.rows.filter p).map (f ∘ key)).Nodup := by
    intro ρ key t p f hf
    rw [← List.map_map]
    exact (t.nodup.sublist (List.filter_sublist.map key)).map hf
  have hj := hkeys db.jobs (q.jobWhere db) Resource.job fun _ _ h => Resource.job.inj h
  have ht := hkeys db.tasks (q.taskWhere db) Resource.task fun _ _ h => Resource.task.inj h
  have ha := hkeys db.attempts (q.attemptWhere db) Resource.attempt fun _ _ h =>
    Resource.attempt.inj h
  unfold Query.waitRows
  simp only [List.nodup_append, List.mem_append, List.mem_map]
  refine ⟨⟨⟨hj, ht, ?_⟩, ha, ?_⟩, ?_, ?_⟩
  · rintro _ ⟨_, _, rfl⟩ _ ⟨_, _, rfl⟩
    nofun
  · rintro _ (⟨_, _, rfl⟩ | ⟨_, _, rfl⟩) _ ⟨_, _, rfl⟩ <;> nofun
  · split
    · exact List.nodup_singleton _
    · exact .nil
  · intro r hr r' hr'
    split at hr'
    · rw [List.mem_singleton.mp hr']
      rcases hr with (⟨_, _, rfl⟩ | ⟨_, _, rfl⟩) | ⟨_, _, rfl⟩ <;> nofun
    · cases hr'

theorem waitRows_takesLocks (h : r ∈ q.waitRows db) (hr : r.ranked = true) :
    q.takesLocks = true := by
  cases r with
  | job _ =>
    obtain ⟨_, _, hw, _⟩ := mem_waitRows.mp h
    cases q <;> first | rfl | cases hw
  | task _ =>
    obtain ⟨_, _, hw, _⟩ := mem_waitRows.mp h
    cases q <;> first | rfl | cases hw
  | attempt _ => cases hr
  | scheduling => rw [mem_waitRows.mp h]; rfl

theorem skipRows_takesLocks (h : r ∈ skipRows q env db) : q.takesLocks = true := by
  cases q <;> first | rfl | cases h

/-- When the monitor allows a statement that asks for a JOBS row. -/
theorem allows_job (hok : m.allows q) (h : .job j ∈ q.waitRows db) :
    m.fresh = true ∨ m.task ≠ none ∨ m.job = some j := by
  obtain ⟨row, -, hw, rfl⟩ := mem_waitRows.mp h
  cases q with
  | lockJobByTask t => exact .inl hok.2.1
  | getJobStatusForUpdate id => exact .inl hok.2.1
  | updateJobStatus id st =>
    rcases hok with hraw | hchecked
    · exact .inr (.inl hraw.2.1)
    · rw [of_decide_eq_true hw]
      exact .inr (.inr hchecked.2.1)
  | _ => cases hw

/-- When the monitor allows a statement that asks for a TASKS row. -/
theorem allows_task (hok : m.allows q) (h : .task t ∈ q.waitRows db) :
    m.task = some t ∨ m.quota.locks = false := by
  obtain ⟨row, -, hw, rfl⟩ := mem_waitRows.mp h
  cases q with
  | updateTaskInProgress a id =>
    have hid : row.taskID = id := of_decide_eq_true (Bool.and_eq_true_iff.mp hw).1
    rw [hid]
    exact .inl hok
  | _ => first | exact .inr hok | cases hw

end DeadlockLemmas

open DeadlockLemmas

/-! ## 2. The invariant of a session -/

/-- The locks in `rows` are in ascending order and above those in `held`. -/
def Ascending (held rows : List Resource) : Prop :=
  (∀ r ∈ rows, ∀ r' ∈ held, r.ranked = true → r'.ranked = true → r'.rank < r.rank) ∧
    rows.Pairwise fun r' r => r.ranked = true → r'.ranked = true → r'.rank < r.rank

theorem ascending_nil (held : List Resource) : Ascending held [] := ⟨nofun, .nil⟩

theorem Ascending.take (h : Ascending held (r :: rest)) : Ascending (r :: held) rest := by
  obtain ⟨habove, hpair⟩ := h
  obtain ⟨hhead, htail⟩ := List.pairwise_cons.mp hpair
  refine ⟨fun x hx y hy => ?_, htail⟩
  rcases List.mem_cons.mp hy with rfl | hy
  · exact hhead x hx
  · exact habove x (List.mem_cons_of_mem _ hx) y hy

/-- What the monitor knows of the locks of a session, and the order of its waits. -/
structure Locks (m : Progress) (s : DBSession) : Prop where
  fresh : m.fresh = true → ∀ r ∈ s.held, r.ranked = true → s.todo ≠ none ∧ r ∈ s.scan
  job : ∀ j, m.job = some j → .job j ∈ s.held
  task : ∀ t, m.task = some t → .task t ∈ s.held
  unlocked : m.quota.locks = false → .scheduling ∈ s.held → s.todo ≠ none ∧ .scheduling ∈ s.scan
  ascending : ∀ rest, s.todo = some rest → Ascending s.held rest

def Resource.isJob : Resource → Bool
  | .job _ => true
  | _ => false

/-- A TASKS row or the advisory lock. -/
def Resource.late : Resource → Bool
  | .task _ | .scheduling => true
  | _ => false

def Resource.task? : Resource → Option UUID
  | .task t => some t
  | _ => none

def taskIDs (rows : List Resource) : List UUID := rows.filterMap Resource.task?

theorem mem_taskIDs {rows : List Resource} {t : UUID} : t ∈ taskIDs rows ↔ .task t ∈ rows := by
  unfold taskIDs
  rw [List.mem_filterMap]
  constructor
  · rintro ⟨r, hr, ht⟩
    cases r <;> cases ht
    exact hr
  · exact fun h => ⟨_, h, rfl⟩

/-- The condition on the requests of a session: a JOBS row that is asked for late is
free, and TASKS rows are asked for in ascending order. -/
def LockOrder (M : DBMachine) : Transactions.Label Call Resource → Prop
  | .request i rows => ∀ s ∈ M.sessions.rows, s.sid = i →
      ((∃ r ∈ s.held, r.late = true) →
        ∀ r ∈ rows, r.isJob = true → M.heldByOther i r = false) ∧
      (taskIDs rows).Pairwise (· < ·) ∧ ∀ t ∈ taskIDs rows, ∀ t' ∈ taskIDs s.held, t' < t
  | _ => True

instance (M : DBMachine) (a : Transactions.Label Call Resource) : Decidable (LockOrder M a) := by
  unfold LockOrder
  split <;> infer_instance

section Request

variable {M : DBMachine} {s : DBSession} {m : Progress} {q : Query} {rows : List Resource}

theorem eq_singleton (hnodup : rows.Nodup) (hr : r ∈ rows) (hall : ∀ x ∈ rows, x = r) :
    rows = [r] := by
  match rows, hr with
  | [x], _ => rw [hall x List.mem_cons_self]
  | x :: y :: rest, _ =>
    have hx := hall x List.mem_cons_self
    have hy := hall y (List.mem_cons_of_mem _ List.mem_cons_self)
    exact absurd (hx.trans hy.symm ▸ List.mem_cons_self) (List.nodup_cons.mp hnodup).1

/-- The rows that a session asks for are above the rows that it holds, or it asks for one
row that is free. -/
theorem Locks.request_rows (h : Locks m s) (hs : s ∈ M.sessions.rows)
    (hord : LockOrder M (.request s.sid rows)) (htodo : s.todo = none) (hok : m.allows q)
    (hperm : rows.Perm ((q.waitRows (s.view M.db)).filter fun r => decide (r ∉ s.held))) :
    Ascending s.held rows ∨ ∃ r, rows = [r] ∧ M.heldByOther s.sid r = false := by
  have hmem : ∀ {r}, r ∈ rows ↔ r ∈ q.waitRows (s.view M.db) ∧ r ∉ s.held := by
    intro r
    rw [hperm.mem_iff, List.mem_filter, decide_eq_true_eq]
  have hnodup : rows.Nodup := hperm.nodup_iff.mpr (waitRows_nodup.filter _)
  obtain ⟨hfree, hpair, habove⟩ := hord s hs rfl
  by_cases hjob : ∃ j, .job j ∈ rows
  · -- one JOBS row
    obtain ⟨j, hj⟩ := hjob
    obtain ⟨hwait, hnot⟩ := hmem.mp hj
    have hrows := eq_singleton hnodup hj fun x hx => waitRows_job hwait x (hmem.mp hx).1
    rcases allows_job hok hwait with hfresh | htask | hjob
    · refine .inl ⟨fun r _ r' hr' _ hranked => ?_, by rw [hrows]; exact List.pairwise_singleton _ _⟩
      exact absurd htodo (h.fresh hfresh r' hr' hranked).1
    · obtain ⟨t, ht⟩ := Option.ne_none_iff_exists'.mp htask
      exact .inr ⟨_, hrows, hfree ⟨_, h.task t ht, rfl⟩ _ hj rfl⟩
    · exact absurd (h.job j hjob) hnot
  by_cases hsched : .scheduling ∈ rows
  · -- the advisory lock
    obtain ⟨hwait, hnot⟩ := hmem.mp hsched
    have hq := mem_waitRows.mp hwait
    subst hq
    have hrows := eq_singleton hnodup hsched fun x hx => by
      have hx' := (hmem.mp hx).1
      cases x with
      | scheduling => rfl
      | _ => obtain ⟨_, _, hf, _⟩ := mem_waitRows.mp hx'; cases hf
    rw [hrows]
    refine .inl ⟨fun r hr r' hr' _ hranked => ?_, List.pairwise_singleton _ _⟩
    rw [List.mem_singleton.mp hr]
    cases r' with
    | job j => exact job_lt_scheduling j
    | task t => exact task_lt_scheduling t
    | attempt _ => cases hranked
    | scheduling => exact absurd hr' hnot
  · -- TASKS rows
    have htasks : ∀ r ∈ rows, r.ranked = true → ∃ t, r = .task t := by
      intro r hr hranked
      cases r with
      | job j => exact absurd ⟨j, hr⟩ hjob
      | task t => exact ⟨t, rfl⟩
      | attempt _ => cases hranked
      | scheduling => exact absurd hr hsched
    refine .inl ⟨fun r hr r' hr' hranked hranked' => ?_, ?_⟩
    · obtain ⟨t, rfl⟩ := htasks r hr hranked
      cases r' with
      | job j => exact job_lt_task j t
      | task t' => exact task_lt_task (habove t (mem_taskIDs.mpr hr) t' (mem_taskIDs.mpr hr'))
      | attempt _ => cases hranked'
      | scheduling =>
        -- under the advisory lock only the task that is held is written
        obtain ⟨hwait, hnot⟩ := hmem.mp hr
        rcases allows_task hok hwait with ht | hlocks
        · exact absurd (h.task t ht) hnot
        · exact absurd htodo (h.unlocked hlocks hr').1
    · refine (List.pairwise_filterMap.mp hpair).imp_of_mem
        fun {r' r} hr' hr hlt hranked hranked' => ?_
      obtain ⟨t, rfl⟩ := htasks r hr hranked
      obtain ⟨t', rfl⟩ := htasks r' hr' hranked'
      exact task_lt_task (hlt t' rfl t rfl)

end Request

/-! ## 3. One move -/

section Moves

variable {M : DBMachine} {s : DBSession} {m : Progress} {q : Query} {k : q.Ans → Tx Reply}

/-- Rows of the current statement are added to the locks of the session. -/
theorem Locks.grow (h : Locks m s) {scan : List Resource} (hold : ∀ r ∈ s.held, r ∈ held)
    (hnew : ∀ r ∈ held, r ∈ s.held ∨ r ∈ scan) (hasc : Ascending held rest)
    (hscan : s.todo ≠ none → s.scan = scan) :
    Locks m { s with held := held, scan := scan, todo := some rest } where
  fresh hf r hr hranked := by
    refine ⟨nofun, (hnew r hr).elim (fun hr' => ?_) id⟩
    obtain ⟨htodo, hmem⟩ := h.fresh hf r hr' hranked
    exact hscan htodo ▸ hmem
  job j hj := hold _ (h.job j hj)
  task t ht := hold _ (h.task t ht)
  unlocked hu hr := by
    refine ⟨nofun, (hnew _ hr).elim (fun hr' => ?_) id⟩
    obtain ⟨htodo, hmem⟩ := h.unlocked hu hr'
    exact hscan htodo ▸ hmem
  ascending rest' hrest := by
    cases hrest
    exact hasc

theorem Locks.requested {rows : List Resource} (h : Locks m s) (hs : s ∈ M.sessions.rows)
    (hord : LockOrder M (.request s.sid rows)) (htodo : s.todo = none) (hok : m.allows q)
    (hperm : rows.Perm ((q.waitRows (s.view M.db)).filter fun r => decide (r ∉ s.held))) :
    Locks m (s.requested (fun r => !M.heldByOther s.sid r) (q.waitRows (s.view M.db)) rows) := by
  have hasc := h.request_rows hs hord htodo hok hperm
  have hwait : ∀ r ∈ rows, r ∈ q.waitRows (s.view M.db) := fun r hr =>
    (List.mem_filter.mp (hperm.mem_iff.mp hr)).1
  have hscan : s.todo ≠ none → s.scan = q.waitRows (s.view M.db) := fun hne => absurd htodo hne
  unfold Session.requested
  split
  · exact h.grow (fun _ hr => hr) (fun _ hr => .inl hr) (ascending_nil _) hscan
  · next r rest =>
    split
    · refine h.grow (fun _ hr => List.mem_cons_of_mem _ hr) (fun x hx => ?_) ?_ hscan
      · rcases List.mem_cons.mp hx with rfl | hx
        · exact .inr (hwait _ List.mem_cons_self)
        · exact .inl hx
      · rcases hasc with hasc | ⟨_, hrows, _⟩
        · exact hasc.take
        · rw [(List.cons.inj hrows).2]
          exact ascending_nil _
    · next hfree =>
      refine h.grow (fun _ hr => hr) (fun _ hr => .inl hr) ?_ hscan
      rcases hasc with hasc | ⟨r', hrows, hfree'⟩
      · exact hasc
      · simp [(List.cons.inj hrows).1, hfree'] at hfree

theorem Locks.lock {r : Resource} {rest : List Resource} (h : Locks m s)
    (htodo : s.todo = some (r :: rest)) (hr : r ∈ s.scan) :
    Locks m { s with held := r :: s.held, todo := some rest } := by
  refine h.grow (fun _ hx => List.mem_cons_of_mem _ hx) (fun x hx => ?_)
    (h.ascending _ htodo).take fun _ => rfl
  rcases List.mem_cons.mp hx with rfl | hx
  · exact .inr hr
  · exact .inl hx

/-- A TASKS row that the monitor has learned of was locked or taken by the statement. -/
theorem learn_task {env : Env Resource} {db : DB} {t : UUID}
    (h : (m.learn q (answer q env db)).task = some t) :
    m.task = some t ∨ env.scan (.task t) = true ∨ .task t ∈ skipRows q env db := by
  cases q with
  | selectTaskForUpdate id =>
    cases hans : answer (.selectTaskForUpdate id) env db with
    | none =>
      rw [hans] at h
      exact .inl h
    | some a =>
      obtain ⟨_, _, hscan, _⟩ := QueryLemmas.selectTaskForUpdate_some hans
      rw [hans] at h
      cases h
      exact .inr (.inl hscan)
  | selectIdleTask j r ty =>
    cases hm : firstTask (idleTasks j r ty env db) with
    | none => exact .inl (by simpa [Progress.learn, answer, hm] using h)
    | some row =>
      have ht : row.taskID = t := by simpa [Progress.learn, answer, hm] using h
      exact .inr (.inr (by simp [skipRows, hm, ht]))
  | selectStaleTasks r =>
    cases hm : staleTasks r env db with
    | nil => exact .inl (by simpa [Progress.learn, answer, hm] using h)
    | cons rec recs =>
      have ht : rec.taskID = t := by simpa [Progress.learn, answer, hm] using h
      exact .inr (.inr (by simp [skipRows, hm, ht]))
  | completeEmptyReduceTasks j =>
    cases hm : (Query.completeEmptyReduceTasks j).matchedTasks env.scan db with
    | nil => exact .inl (by simpa [Progress.learn, answer, hm] using h)
    | cons row rows =>
      have ht : row.taskID = t := by simpa [Progress.learn, answer, hm] using h
      obtain ⟨_, _, hscan⟩ := QueryLemmas.mem_matchedTasks.mp (hm ▸ List.mem_cons_self)
      exact .inr (.inl (ht ▸ hscan))
  | _ =>
    exact .inl ((Progress.learn_task_other (by simp) (by simp) (by simp) (by simp)).symm.trans h)

theorem Locks.acted (h : Locks m s) (hok : m.allows q) {db : DB} (hscan : s.scan = q.waitRows db)
    (hheld : ∀ r ∈ s.scan, r ∈ s.held) :
    Locks (m.next q (answer q (M.env s) (s.view M.db))) (s.acted sem M q k) := by
  have hmem : ∀ {r}, (M.env s).scan r = true → r ∈ (s.acted sem M q k).held := fun hr =>
    List.mem_append_right _ (hheld _ (of_decide_eq_true hr))
  refine ⟨fun hf r hr hranked => ?_, fun j hj => ?_, fun t ht => ?_, fun hu hr => ?_, nofun⟩
  · obtain ⟨hlocks, hfresh⟩ := Bool.and_eq_true_iff.mp hf
    have hnot : q.takesLocks ≠ true := by simpa using hlocks
    rcases List.mem_append.mp hr with hr | hr
    · exact absurd (skipRows_takesLocks hr) hnot
    · have hwait := (h.fresh hfresh r hr hranked).2
      rw [hscan] at hwait
      exact absurd (waitRows_takesLocks hwait hranked) hnot
  · rcases Progress.learn_job hj with ⟨hj, _⟩ | ⟨hr, _⟩
    · exact List.mem_append_right _ (h.job j hj)
    · exact hmem hr
  · rcases learn_task ht with ht | ht | ht
    · exact List.mem_append_right _ (h.task t ht)
    · exact hmem ht
    · exact List.mem_append_left _ ht
  · obtain ⟨hu', hq⟩ := Progress.learn_unlocked hok hu
    rcases List.mem_append.mp hr with hr | hr
    · cases q <;> first | cases hr | simp [sem, skipRows] at hr
    · have hwait := (h.unlocked hu' hr).2
      rw [hscan] at hwait
      exact absurd (mem_waitRows.mp hwait) hq

end Moves

/-! ## 4. Every run -/

theorem lock_rule :
    Rule sem code LockOrder protocol Progress.start (fun _ => True) (fun m _ => Locks m) where
  obeys := code_obeys
  begin _ _ _ _ _ := ⟨nofun, nofun, nofun, nofun, nofun⟩
  request _ _ _ _ _ _ _ hs hord htodo _ hok hperm h := h.requested hs hord htodo hok hperm
  lock M s r rest m hM hs htodo h := by
    obtain ⟨_, _, _, _, _, _, hrest⟩ := hM.req s hs _ htodo
    exact h.lock htodo (hrest r List.mem_cons_self)
  exec _ _ _ _ _ _ _ _ _ _ hok hscan hheld h := by
    obtain ⟨db, hdb⟩ := hscan
    exact h.acted hok hdb hheld
  commit _ _ _ _ _ _ _ _ _ := trivial
  stable _ _ _ _ _ _ _ _ _ _ _ _ h := h

/-- There is no cycle of waits in a run whose requests keep the lock order. -/
theorem no_deadlock {db : DB} {as : List (Transactions.Label Call Resource)} {M : DBMachine}
    (hrun : Run (Under SessionStep LockOrder) (Machine.idle db) as M) :
    ¬ Deadlocked (fun r : Resource => r.ranked = true) M := by
  have hM := lock_rule.run hrun (holds_idle trivial)
  refine not_deadlocked Resource.rank fun s hs r rest htodo hr _ r' hr' hranked => ?_
  obtain ⟨m, _, h⟩ := hM.sess s hs
  exact (h.ascending _ htodo).1 r List.mem_cons_self r' hr' hr hranked

/-! ## 5. GetNextTask and CancelJob -/

/-- The session `i` waits for the row. -/
def waiting (M : DBMachine) (i : Nat) (r : Resource) : Bool :=
  (M.sessions.get? i).any fun s => decide (s.todo.bind List.head? = some r)

/-- The session `i` holds the row. -/
def holding (M : DBMachine) (i : Nat) (r : Resource) : Bool :=
  (M.sessions.get? i).any fun s => decide (r ∈ s.held)

theorem waitsFor_of {M : DBMachine} {i j : Nat} (hne : i ≠ j) (hr : r.ranked = true)
    (hi : waiting M i r = true) (hj : holding M j r = true) :
    WaitsFor (fun r : Resource => r.ranked = true) M i j := by
  obtain ⟨s, hs, htodo⟩ := (Option.any_eq_true ..).mp hi
  obtain ⟨t, ht, hheld⟩ := (Option.any_eq_true ..).mp hj
  obtain ⟨rows, hrows, hhead⟩ := Option.bind_eq_some_iff.mp (of_decide_eq_true htodo)
  obtain ⟨rest, rfl⟩ := List.head?_eq_some_iff.mp hhead
  exact ⟨s, t, r, rest, hs, ht, hne, hrows, hr, of_decide_eq_true hheld⟩

/-- CancelJob locks the job, writes its status, and asks for its tasks. -/
def cancelling : List (Transactions.Label Call Resource) :=
  .begin 2 (.cancelJob soloReplica 1) 3 :: statement 2 [.job 1] ++ statement 2 [] ++
    [.request 2 [.task 2, .task 3, .task 4]]

/-- GetNextTask waits for the job that CancelJob holds, and CancelJob for the task that
GetNextTask holds. -/
theorem cycle_reached : ∃ as M, Run SessionStep (Machine.idle (DB.initial none)) as M ∧
    Deadlocked (fun r : Resource => r.ranked = true) M := by
  obtain ⟨bs, M', hstart, _, hend⟩ :=
    serial_call (DB.initial none) 0 (.scheduleJob soloReplica smallJob) 1
  have hcycle : (runAll (Transactions.next sem code) (Machine.idle (smallDB none))
      (assigning ++ cancelling ++ [.request 1 [.job 1]])).any (fun M =>
        waiting M 1 (.job 1) && holding M 2 (.job 1) &&
          (waiting M 2 (.task 2) && holding M 1 (.task 2))) = true := by decide
  obtain ⟨M, hM, hwaits⟩ := (Option.any_eq_true ..).mp hcycle
  simp only [Bool.and_eq_true] at hwaits
  obtain ⟨⟨h₁, h₂⟩, h₃, h₄⟩ := hwaits
  have hrun : Run SessionStep (Machine.idle (smallDB none)) _ M :=
    (run_of_runAll hM).mono fun _ _ _ hs => step_of_next hs
  refine ⟨_, M, (hstart.snoc hend).append hrun, 1, ?_⟩
  exact (Relation.TransGen.single (waitsFor_of (by decide) rfl h₁ h₂)).tail
    (waitsFor_of (by decide) rfl h₃ h₄)

/-- CancelJob waits until GetNextTask, which got the job's row at once, is over. -/
theorem no_deadlock_waiting : ∃ as M,
    Run (Under SessionStep LockOrder) (Machine.idle (smallDB none)) as M ∧
      WaitsFor (fun r : Resource => r.ranked = true) M 2 1 ∧
      ¬ Deadlocked (fun r : Resource => r.ranked = true) M := by
  have hwait : (runAllUnder (Transactions.next sem code) LockOrder (Machine.idle (smallDB none))
      (assigning ++ statement 1 [.job 1] ++
        [.begin 2 (.cancelJob soloReplica 1) 3, .request 2 [.job 1]])).any (fun M =>
          waiting M 2 (.job 1) && holding M 1 (.job 1)) = true := by decide
  obtain ⟨M, hM, hwaits⟩ := (Option.any_eq_true ..).mp hwait
  obtain ⟨h₁, h₂⟩ := Bool.and_eq_true_iff.mp hwaits
  have hrun : Run (Under SessionStep LockOrder) (Machine.idle (smallDB none)) _ M :=
    (run_of_runAllUnder hM).mono fun _ _ _ hs => ⟨step_of_next hs.1, hs.2⟩
  exact ⟨_, M, hrun, waitsFor_of (by decide) rfl h₁ h₂, no_deadlock hrun⟩

end KubeMapReduce
