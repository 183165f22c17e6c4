import KubeMapReduce.Completion

/-!
# No finished job is left behind

Every transaction that completes tasks takes the job to Cleaning when it finds no pending
task left. `finished_cleaned`: however the statements are interleaved, a job whose tasks are
all Completed is neither Pending nor Running. The invariant of a session (`Sound`) is kept
by every statement that the ledger allows (`Sound.acted`), and a commit keeps it for all.
-/

namespace KubeMapReduce

open Tables Transactions TransactionLemmas Programs Runs LifecycleLemmas

variable {row : TaskRow} {c : Query.TaskSet} {st : TaskStatus} {t x : UUID}

/-! ## 1. One statement -/

section Exec

variable {j : UUID} {w : Deeds} {m m' : Evidence} {M : WorkMachine} {s : WorkSession} {q : Query}
  {k : q.Ans → Tx Reply} {db : DB} {held held' : List Resource}

theorem Sound.clean_tasks (h : Sound j w m db s) (hc : m.clean = true) (x : UUID) :
    (s.view db).tasks.get? x = db.tasks.get? x :=
  h.acts.untouched ((h.entitled.clean hc).1 x)

theorem Sound.clean_mapOutputs (h : Sound j w m db s) (hc : m.clean = true) (p : Nat) :
    (s.view db).mapOutputs j p = db.mapOutputs j p := by
  have hout : (s.view db).outputs = db.outputs := by
    rw [Session.view, h.acts.outputs, (h.entitled.clean hc).2, List.append_nil]
  unfold DB.mapOutputs
  rw [hout]
  simp only [h.clean_tasks hc]

/-- The WHERE clause of the sweep matches a task without inputs. -/
theorem Sound.starving_where (h : Sound j w m db s) (hc : m.clean = true)
    (hst : db.Starving j row) :
    (Query.completeEmptyReduceTasks j).taskWhere (s.view db) row = true := by
  obtain ⟨⟨hj, hty, hempty⟩, hidle⟩ := hst
  simp [Query.taskWhere, hj, hty, hidle, h.clean_mapOutputs hc, hempty]

theorem Known.more (h : Known j m db held) (hheld : ∀ r ∈ held, r ∈ held') :
    Known j m db held' where
  current x hx := (h.current x hx).imp_left (hheld _)
  jobLock x j' hx := (h.jobLock x j' hx).imp_left (hheld _)
  picked := h.picked
  mapsDone := h.mapsDone

/-- What the answer of a statement tells is so. -/
theorem Known.acted (h : Sound j w m M.db s) (hok : m.allows q) (hheld : ∀ r ∈ s.scan, r ∈ s.held) :
    Known j (m.next q (answer q (M.env s) (s.view M.db))) M.db (s.acted sem M q k).held := by
  have hmore : Known j m M.db (s.acted sem M q k).held :=
    h.known.more fun r hr => List.mem_append_right _ hr
  have hscanned : ∀ r, (M.env s).scan r = true → r ∈ (s.acted sem M q k).held := fun r hr =>
    List.mem_append_right _ (hheld r (of_decide_eq_true hr))
  cases q with
  | lockJobByTask t =>
    cases hans : answer (.lockJobByTask t) (M.env s) (s.view M.db) with
    | none => exact hmore
    | some a =>
      -- the JOBS row that is locked through a task is the one of the task's job
      obtain ⟨hof, _, hscan⟩ := QueryLemmas.lockJobByTask_some hans
      refine ⟨hmore.current, fun t' j' he => ?_, hmore.picked, hmore.mapsDone⟩
      cases he
      exact ⟨hscanned _ hscan, (h.acts.jobOf t).symm.trans hof⟩
  | selectTaskForUpdate t =>
    cases hans : answer (.selectTaskForUpdate t) (M.env s) (s.view M.db) with
    | none => exact hmore
    | some a =>
      obtain ⟨row, hget, hscan, rfl⟩ := QueryLemmas.selectTaskForUpdate_some hans
      rw [h.clean_tasks hok] at hget
      cases hst : row.status with
      | inProgress =>
        refine ⟨fun x hx => ?_, hmore.jobLock, hmore.picked, hmore.mapsDone⟩
        rcases List.mem_cons.mp hx with rfl | hx
        · refine ⟨hscanned _ hscan, fun row' hrow' => ?_⟩
          cases hget.symm.trans hrow'
          exact hst
        · exact hmore.current x hx
      | _ => exact hmore
  | selectStaleTasks r =>
    refine ⟨fun x hx => ?_, hmore.jobLock, hmore.picked, hmore.mapsDone⟩
    rcases List.mem_append.mp hx with hx | hx
    · obtain ⟨rec, hrec, rfl⟩ := List.mem_map.mp hx
      obtain ⟨row, _, _, hget, _, _, _, _, hst, _⟩ := QueryLemmas.staleTasks_mem hrec
      refine ⟨List.mem_append_left _ (List.mem_map.mpr ⟨rec, hrec, rfl⟩), fun row' hrow' => ?_⟩
      rw [h.clean_tasks hok] at hget
      cases hget.symm.trans hrow'
      exact hst
    · exact hmore.current x hx
  | selectIdleTask j' r ty =>
    cases hans : answer (.selectIdleTask j' r ty) (M.env s) (s.view M.db) with
    | none => exact hmore
    | some row =>
      refine ⟨hmore.current, hmore.jobLock, fun t j₁ ty₁ he row' hget => ?_, hmore.mapsDone⟩
      cases he
      obtain ⟨hrow, hp⟩ := List.mem_filter.mp (QueryLemmas.firstTask_mem hans)
      simp only [Bool.and_eq_true, decide_eq_true_eq] at hp
      obtain ⟨row₀, hrow₀, hafter⟩ := h.acts.found (Table.mem_rows_iff.mp hrow)
      cases hget.symm.trans hrow₀
      have hjob := congrArg TaskRow.jobID hafter
      have htype := congrArg TaskRow.taskType hafter
      rw [TaskRow.after_jobID] at hjob
      rw [TaskRow.after_taskType] at htype
      exact ⟨hjob.symm.trans hp.1.1.1.1, htype.symm.trans hp.1.1.2⟩
  | countPendingTasksByType j' ty =>
    cases ty with
    | reduce => exact hmore
    | map =>
      refine ⟨hmore.current, hmore.jobLock, hmore.picked, fun hm => ?_⟩
      by_cases hn : answer (.countPendingTasksByType j' .map) (M.env s) (s.view M.db) = 0
      · rw [show (m.next (.countPendingTasksByType j' .map) _).mapsDone = _ from if_pos hn] at hm
        cases hm
        intro x row hget
        rw [← h.clean_tasks hok] at hget
        exact countPendingMapTasks_eq_zero.mp hn x row hget
      · rw [show (m.next (.countPendingTasksByType j' .map) _).mapsDone = _ from if_neg hn] at hm
        exact hmore.mapsDone hm
  | _ => exact ⟨hmore.current, hmore.jobLock, hmore.picked, hmore.mapsDone⟩

theorem Licensed.more (h : Licensed j m db held row st) (hheld : ∀ r ∈ held, r ∈ held')
    (hmaps : m'.mapsDone = m.mapsDone) (hswept : m'.swept = m.swept) :
    Licensed j m' db held' row st := by
  cases st with
  | idle => exact h
  | inProgress => exact ⟨h.1, fun hty => hswept.trans (h.2 hty)⟩
  | completed =>
    exact h.imp (And.imp_right (hheld _)) fun h => ⟨h.1, hmaps.trans h.2.1, hswept.trans h.2.2⟩
  | failed => exact h

/-- A statement that writes nothing the invariant is about. -/
theorem Entitled.more (h : Entitled j w m db held) (hheld : ∀ r ∈ held, r ∈ held')
    (hclean : m'.clean = true → m.clean = true)
    (hmaps : m.clean = true ∨ m'.mapsDone = m.mapsDone) (hswept : m'.swept = m.swept)
    (hcur : ∀ x ∈ m.current, x ∈ m'.current) (hassigned : m'.assigned = m.assigned) :
    Entitled j w m' db held' where
  clean hc := h.clean (hclean hc)
  locks x c hc := hheld _ (h.locks x c hc)
  licensed x c row hc hget hj := by
    rcases hmaps with hc' | hmaps
    · cases ((h.clean hc').1 x).symm.trans hc
    · exact (h.licensed x c row hc hget hj).more hheld hmaps hswept
  swept hm := h.swept (hswept.symm.trans hm)
  outputs o ho := hcur _ (h.outputs o ho)
  assigned hm := h.assigned (hassigned.symm.trans hm)
  running hr := hassigned.trans (h.running hr)
  pending := h.pending

/-- A task that the statement hits: its WHERE clause matches the row as the session sees it. -/
theorem Sound.hit (h : Sound j w m M.db s) (hx : x ∈ hits q (M.env s) (s.view M.db))
    (hget : M.db.tasks.get? x = some row) :
    q.taskWhere (s.view M.db) (row.after (w.sets x)) = true := by
  obtain ⟨row', hrow', hw, _⟩ := mem_hits.mp hx
  obtain ⟨row₀, hrow₀, rfl⟩ := h.acts.found hrow'
  cases hget.symm.trans hrow₀
  exact hw

theorem Sound.hit_eq (h : Sound j w m M.db s) (hx : x ∈ hits q (M.env s) (s.view M.db))
    (hget : M.db.tasks.get? x = some row)
    (hq : ∀ view row, q.taskWhere view row = true → row.taskID = t) : x = t := by
  have hid := hq _ _ (h.hit hx hget)
  rw [TaskRow.after_taskID] at hid
  exact (Table.key_of_get? hget).symm.trans hid

/-- A task without inputs that the session has completed is Completed for it. -/
theorem Sound.swept_status (h : Sound j w m db s) (hm : m.swept = some j)
    (hget : db.tasks.get? x = some row) (hst : db.Starving j row) :
    (row.after (w.sets x)).status = .completed := by
  obtain ⟨c, hc, hst⟩ := h.entitled.swept hm x row hget hst
  rw [hc]
  exact hst

/-- The session is entitled to what it has written with the statement. -/
abbrev EntitledAfter (j : UUID) (w : Deeds) (m : Evidence) (M : WorkMachine) (s : WorkSession)
    (q : Query) (k : q.Ans → Tx Reply) : Prop :=
  Entitled j (w.next j q (M.env s) (s.view M.db)) (m.next q (answer q (M.env s) (s.view M.db)))
    M.db (s.acted sem M q k).held

/-- A statement that sets tasks: every row that it hits is licensed, and a task without
inputs that a sweep has completed is hit by no other statement. -/
theorem Entitled.set (h : Sound j w m M.db s) (hheld : ∀ r ∈ s.scan, r ∈ s.held)
    (hq : q.taskSet = some c) (hnew : m.assigned = none)
    (hm' : m' = m.next q (answer q (M.env s) (s.view M.db))) (hclean : m'.clean = false)
    (hcur : m'.current = m.current)
    (hmarks : m.clean = true ∨ (m'.mapsDone = m.mapsDone ∧ m'.swept = m.swept))
    (hlic : ∀ x ∈ hits q (M.env s) (s.view M.db), ∀ row, M.db.tasks.get? x = some row →
      row.jobID = j → Licensed j m' M.db (s.acted sem M q k).held row c.status)
    (hswept : m'.swept = some j → ∀ x row, M.db.tasks.get? x = some row → M.db.Starving j row →
      (x ∈ hits q (M.env s) (s.view M.db) ∧ c.status = .completed) ∨
        (x ∉ hits q (M.env s) (s.view M.db) ∧ m.swept = some j)) (hassigned : m'.assigned = some j →
      (w.next j q (M.env s) (s.view M.db)).Sets j M.db .inProgress) :
    EntitledAfter j w m M s q k := by
  subst hm'
  have hmore : ∀ r ∈ s.held, r ∈ (s.acted sem M q k).held := fun r hr =>
    List.mem_append_right _ hr
  have hstatus : (w.next j q (M.env s) (s.view M.db)).status = w.status := by
    cases q <;> first | rfl | cases hq
  have hout : (w.next j q (M.env s) (s.view M.db)).outputs = w.outputs := by
    cases q <;> first | rfl | cases hq
  refine ⟨?_, ?_, ?_, ?_, ?_, hassigned, ?_, ?_⟩
  · intro hc
    cases hclean.symm.trans hc
  · intro x c' hc'
    rw [Deeds.next_sets hq] at hc'
    split at hc'
    · next hx =>
      obtain ⟨_, _, _, hscan⟩ := mem_hits.mp hx
      exact hmore _ (hheld _ (of_decide_eq_true hscan))
    · exact hmore _ (h.entitled.locks x c' hc')
  · intro x c' row hc' hget hj
    rw [Deeds.next_sets hq] at hc'
    split at hc'
    · next hx =>
      cases hc'
      rw [Query.TaskSet.over_status]
      exact hlic x hx row hget hj
    · rcases hmarks with hc | ⟨hmaps, hswept⟩
      · cases ((h.entitled.clean hc).1 x).symm.trans hc'
      · exact (h.entitled.licensed x c' row hc' hget hj).more hmore hmaps hswept
  · intro hm x row hget hst
    rw [Deeds.next_sets hq]
    rcases hswept hm x row hget hst with ⟨hx, hc⟩ | ⟨hx, hm⟩
    · rw [if_pos hx]
      exact ⟨_, rfl, (c.over_status _).trans hc⟩
    · rw [if_neg hx]
      exact h.entitled.swept hm x row hget hst
  · intro o ho
    rw [hout] at ho
    rw [hcur]
    exact h.entitled.outputs o ho
  · intro hr
    rw [hstatus] at hr
    cases hnew.symm.trans (h.entitled.running hr)
  · rw [hstatus]
    exact h.entitled.pending

/-- CompleteTask reports a task that it holds In-Progress, and holds its JOBS row. -/
theorem Entitled.report {k : Unit → Tx Reply} (h : Sound j w m M.db s)
    (hok : m.allows (.completeTask t)) (hheld : ∀ r ∈ s.scan, r ∈ s.held) :
    EntitledAfter j w m M s (.completeTask t) k := by
  obtain ⟨hclean, hnew, hcur, j', hlock⟩ := hok
  refine .set h hheld rfl hnew rfl rfl rfl (.inl hclean) (fun x hx row hget hj => ?_)
    (fun hm x row _ _ => ?_) fun hm => ?_
  · have hxt := h.hit_eq hx hget fun _ _ hw => of_decide_eq_true hw
    subst hxt
    obtain ⟨hjob, hof⟩ := h.known.jobLock x j' hlock
    rw [DB.jobOf, hget] at hof
    cases (congrArg some hj).symm.trans hof
    exact .inl ⟨(h.known.current x hcur).2 row hget, List.mem_append_right _ hjob⟩
  · by_cases hx : x ∈ hits (.completeTask t) (M.env s) (s.view M.db)
    · exact .inl ⟨hx, rfl⟩
    · exact .inr ⟨hx, hm⟩
  · cases hnew.symm.trans hm

/-- The sweep completes exactly the Idle Reduce tasks without inputs. -/
theorem Entitled.sweep {j' : UUID} {k : List UUID → Tx Reply} (h : Sound j w m M.db s)
    (hp : s.prog = .query (.completeEmptyReduceTasks j') k) (htodo : s.todo ≠ none)
    (hok : m.allows (.completeEmptyReduceTasks j')) (hheld : ∀ r ∈ s.scan, r ∈ s.held) :
    EntitledAfter j w m M s (.completeEmptyReduceTasks j') k := by
  obtain ⟨hclean, hnew, hmaps⟩ := hok
  refine .set h hheld rfl hnew rfl rfl rfl (.inl hclean) (fun x hx row hget hj => ?_)
    (fun hm x row hget hst => ?_) fun hm => ?_
  · have hw := h.hit hx hget
    rw [(h.entitled.clean hclean).1 x] at hw
    change Query.taskWhere (s.view M.db) (.completeEmptyReduceTasks j') row = true at hw
    simp only [Query.taskWhere, Bool.and_eq_true, decide_eq_true_eq, List.isEmpty_iff] at hw
    obtain ⟨⟨⟨hj', hty⟩, hidle⟩, hempty⟩ := hw
    have hjj : j' = j := hj'.symm.trans hj
    subst hjj
    rw [hj, h.clean_mapOutputs hclean] at hempty
    exact .inr ⟨⟨⟨hj, hty, hempty⟩, hidle⟩, hmaps, rfl⟩
  · cases hm
    refine .inl ⟨mem_hits.mpr ⟨row, (h.clean_tasks hclean x).trans hget,
      h.starving_where hclean hst, ?_⟩, rfl⟩
    exact decide_eq_true (h.scanned.sweep htodo k hp x row hget hst)
  · cases hnew.symm.trans hm

/-- GetNextTask assigns an Idle task, and a Reduce task only after the sweep. -/
theorem Entitled.assign {a : UUID} {k : Nat → Tx Reply} (h : Sound j w m M.db s)
    (hok : m.allows (.updateTaskInProgress a t)) (hheld : ∀ r ∈ s.scan, r ∈ s.held) :
    EntitledAfter j w m M s (.updateTaskInProgress a t) k := by
  obtain ⟨hnew, j', ty, hpicked, hswept⟩ := hok
  have hidle : ∀ {x : UUID} {row : TaskRow}, M.db.tasks.get? x = some row →
      x ∈ hits (.updateTaskInProgress a t) (M.env s) (s.view M.db) →
      x = t ∧ (row.after (w.sets x)).status = .idle := by
    intro x row hget hx
    refine ⟨h.hit_eq hx hget fun _ _ hw => ?_, ?_⟩
    · exact of_decide_eq_true (Bool.and_eq_true_iff.mp hw).1
    · exact of_decide_eq_true (Bool.and_eq_true_iff.mp (h.hit hx hget)).2
  refine .set h hheld rfl hnew rfl rfl rfl (.inr ⟨rfl, rfl⟩) (fun x hx row hget hj => ?_)
    (fun hm x row hget hst => ?_) fun hm => ?_
  · obtain ⟨rfl, hst⟩ := hidle hget hx
    obtain ⟨hjob, hty⟩ := h.known.picked x j' ty hpicked row hget
    refine ⟨?_, fun hred => ?_⟩
    · cases hc : w.sets x with
      | none =>
        rw [hc] at hst
        exact .inl hst
      | some c =>
        have hlic := h.entitled.licensed x c row hc hget hj
        rw [hc] at hst
        rw [show c.status = .idle from hst] at hlic
        exact .inr hlic
    · show m.swept = some j
      rw [← hj, hjob]
      exact hswept (hty.symm.trans hred)
  · refine .inr ⟨fun hx => ?_, hm⟩
    cases (h.swept_status hm hget hst).symm.trans (hidle hget hx).2
  · -- an assigned task is one that the statement has hit
    by_cases hn : answer (.updateTaskInProgress a t) (M.env s) (s.view M.db) = 0
    · rw [show (m.next (.updateTaskInProgress a t) _).assigned = _ from if_pos hn, hnew] at hm
      cases hm
    · rw [show (m.next (.updateTaskInProgress a t) _).assigned = _ from if_neg hn, hpicked] at hm
      cases hm
      obtain ⟨row', hrow'⟩ := List.exists_mem_of_length_pos (Nat.pos_of_ne_zero hn)
      have hx : row'.taskID ∈ hits (.updateTaskInProgress a t) (M.env s) (s.view M.db) :=
        List.mem_map_of_mem hrow'
      obtain ⟨_, hget', _⟩ := mem_hits.mp hx
      obtain ⟨row, hget, _⟩ := h.acts.found hget'
      refine ⟨row'.taskID, _, row, (Deeds.next_sets rfl _).trans (if_pos hx),
        Query.TaskSet.over_status _ _, hget, ?_⟩
      rw [(hidle hget hx).1] at hget
      exact (h.known.picked t _ ty hpicked row hget).1

/-- FailTask and the reaper take back a task that they hold In-Progress. -/
theorem Entitled.release {k : Unit → Tx Reply} (h : Sound j w m M.db s)
    (hok : m.allows (.updateTaskStatus st t)) (hheld : ∀ r ∈ s.scan, r ∈ s.held) :
    EntitledAfter j w m M s (.updateTaskStatus st t) k := by
  obtain ⟨hnew, hcur, hst⟩ := hok
  have hprog : ∀ {x : UUID} {row : TaskRow}, M.db.tasks.get? x = some row →
      x ∈ hits (.updateTaskStatus st t) (M.env s) (s.view M.db) → row.status = .inProgress := by
    intro x row hget hx
    have hxt := h.hit_eq hx hget fun _ _ hw => of_decide_eq_true hw
    subst hxt
    exact (h.known.current x hcur).2 row hget
  refine .set h hheld rfl hnew rfl rfl rfl (.inr ⟨rfl, rfl⟩) (fun x hx row hget hj => ?_)
    (fun hm x row hget hstarve => ?_) fun hm => ?_
  · rcases hst with rfl | rfl
    · exact hprog hget hx
    · intro hdone
      cases (hprog hget hx).symm.trans hdone
  · refine .inr ⟨fun hx => ?_, hm⟩
    cases (hprog hget hx).symm.trans hstarve.2
  · cases hnew.symm.trans hm

/-- CancelJob fails tasks that are not Completed. -/
theorem Entitled.cancel {j' : UUID} {k : Unit → Tx Reply} (h : Sound j w m M.db s)
    (hok : m.allows (.bulkFailNonCompletedTasksByJob j')) (hheld : ∀ r ∈ s.scan, r ∈ s.held) :
    EntitledAfter j w m M s (.bulkFailNonCompletedTasksByJob j') k := by
  have hnew : m.assigned = none := hok
  have hopen : ∀ {x : UUID} {row : TaskRow}, M.db.tasks.get? x = some row →
      x ∈ hits (.bulkFailNonCompletedTasksByJob j') (M.env s) (s.view M.db) →
      (row.after (w.sets x)).status ≠ .completed := fun hget hx =>
    of_decide_eq_true (Bool.and_eq_true_iff.mp (h.hit hx hget)).2
  refine .set h hheld rfl hnew rfl rfl rfl (.inr ⟨rfl, rfl⟩) (fun x hx row hget hj hdone => ?_)
    (fun hm x row hget hst => ?_) fun hm => ?_
  · have hnot := hopen hget hx
    rw [h.completed hget hj hdone] at hnot
    exact hnot hdone
  · exact .inr ⟨fun hx => hopen hget hx (h.swept_status hm hget hst), hm⟩
  · cases hnew.symm.trans hm

/-- Recover takes back tasks that are In-Progress. -/
theorem Entitled.reset {r : Nat} {k : Unit → Tx Reply} (h : Sound j w m M.db s)
    (hok : m.allows (.resetTasksForReplica r)) (hheld : ∀ r ∈ s.scan, r ∈ s.held) :
    EntitledAfter j w m M s (.resetTasksForReplica r) k := by
  obtain ⟨hclean, hnew⟩ := hok
  have hsets := (h.entitled.clean hclean).1
  refine .set h hheld rfl hnew rfl rfl rfl (.inr ⟨rfl, rfl⟩) (fun x hx row hget hj => ?_)
    (fun hm x row hget hst => ?_) fun hm => ?_
  · have hw := h.hit hx hget
    rw [hsets x] at hw
    show row.status = .inProgress
    exact of_decide_eq_true (Bool.and_eq_true_iff.mp hw).1
  · obtain ⟨c, hc, _⟩ := h.entitled.swept hm x row hget hst
    cases (hsets x).symm.trans hc
  · cases hnew.symm.trans hm

/-- A status that is written is Cleaning, or it comes with a task that is In-Progress, or it
is a terminal one. -/
theorem Entitled.writes {j' : UUID} {st : JobStatus} {k : Unit → Tx Reply}
    (h : Sound j w m M.db s) (hok : m.allows (.updateJobStatus j' st))
    (hold : Entitled j w { m with clean := false } M.db
      (s.acted sem M (.updateJobStatus j' st) k).held) :
    EntitledAfter j w m M s (.updateJobStatus j' st) k := by
  have hstatus : ∀ st', (w.next j (.updateJobStatus j' st) (M.env s) (s.view M.db)).status =
      some st' → w.status = some st' ∨ (st = st' ∧ j' = j) := by
    intro st' hst'
    by_cases hids : j ∈ matchedIDs (.updateJobStatus j' st) (M.env s) (s.view M.db)
    · rw [show (w.next j (.updateJobStatus j' st) _ _).status = _ from if_pos hids] at hst'
      cases hst'
      obtain ⟨row, hget, hw, _⟩ := mem_matchedIDs hids
      exact .inr ⟨rfl, (of_decide_eq_true hw).symm.trans (Table.key_of_get? hget)⟩
    · rw [show (w.next j (.updateJobStatus j' st) _ _).status = _ from if_neg hids] at hst'
      exact .inl hst'
  refine ⟨nofun, hold.locks, hold.licensed, hold.swept, hold.outputs, hold.assigned,
    fun hr => ?_, fun hpend => ?_⟩
  · rcases hstatus _ hr with hr | ⟨rfl, rfl⟩
    · exact h.entitled.running hr
    · rcases hok with hst | hst | hst
      · cases hst
      · exact hst.2
      · exact absurd rfl hst.2.2
  · rcases hstatus _ hpend with hpend | ⟨rfl, rfl⟩
    · exact h.entitled.pending hpend
    · rcases hok with hst | hst | hst
      · cases hst
      · cases hst.1
      · exact absurd rfl hst.2.1

/-- One statement: what it writes it is entitled to. -/
theorem Entitled.acted (h : Sound j w m M.db s) (hp : s.prog = .query q k) (htodo : s.todo ≠ none)
    (hok : m.allows q) (hheld : ∀ r ∈ s.scan, r ∈ s.held) : EntitledAfter j w m M s q k := by
  have hread : Entitled j w m M.db (s.acted sem M q k).held :=
    h.entitled.more (fun r hr => List.mem_append_right _ hr) id (.inr rfl) rfl (fun _ => id) rfl
  have hdirty : Entitled j w { m with clean := false } M.db (s.acted sem M q k).held :=
    hread.more (fun _ => id) nofun (.inr rfl) rfl (fun _ => id) rfl
  cases q with
  | lockJobByTask t =>
    unfold EntitledAfter
    cases answer (.lockJobByTask t) (M.env s) (s.view M.db) with
    | none => exact hread
    | some a => exact hread.more (fun _ => id) id (.inr rfl) rfl (fun _ => id) rfl
  | selectTaskForUpdate t =>
    unfold EntitledAfter
    rcases answer (.selectTaskForUpdate t) (M.env s) (s.view M.db) with _ | ⟨st, a⟩
    · exact hread
    · cases st with
      | inProgress =>
        exact hread.more (fun _ => id) id (.inr rfl) rfl (fun _ => List.mem_cons_of_mem _) rfl
      | _ => exact hread
  | selectStaleTasks r =>
    exact hread.more (fun _ => id) id (.inr rfl) rfl (fun _ => List.mem_append_right _) rfl
  | selectIdleTask j' r ty =>
    unfold EntitledAfter
    cases answer (.selectIdleTask j' r ty) (M.env s) (s.view M.db) with
    | none => exact hread
    | some row => exact hread.more (fun _ => id) id (.inr rfl) rfl (fun _ => id) rfl
  | countPendingTasksByType j' ty =>
    cases ty with
    | reduce => exact hread
    | map => exact hread.more (fun _ => id) id (.inl hok) rfl (fun _ => id) rfl
  | countAllPendingTasks j' =>
    exact hread.more (fun _ => id) id (.inr rfl) rfl (fun _ => id) rfl
  | completeTask t => exact .report h hok hheld
  | completeEmptyReduceTasks j' => exact .sweep h hp htodo hok hheld
  | updateTaskInProgress a t => exact .assign h hok hheld
  | updateTaskStatus st t => exact .release h hok hheld
  | bulkFailNonCompletedTasksByJob j' => exact .cancel h hok hheld
  | resetTasksForReplica r => exact .reset h hok hheld
  | insertOutputBulk rows =>
    refine ⟨nofun, hdirty.locks, hdirty.licensed, hdirty.swept, fun o ho => ?_, hdirty.assigned,
      hdirty.running, hdirty.pending⟩
    exact (List.mem_append.mp ho).elim (h.entitled.outputs o) (hok o)
  | updateJobStatus j' st => exact .writes h hok hdirty
  | insertJob | insertAPIJob | insertTask => exact hok.elim
  | _ => exact hread

/-- A statement that completes no task: the session had completed tasks before it, and if
none is left now, none was. -/
theorem Sound.counted_kept (h : Sound j w m M.db s) (hok : m.allows q)
    (hq : ∀ c, q.taskSet = some c → c.status ≠ .completed)
    (hw : (w.next j q (M.env s) (s.view M.db)).Sets j M.db .completed)
    (hd : ((s.acted sem M q k).pending M.db).AllDone j) :
    w.Sets j M.db .completed ∧ (s.pending M.db).AllDone j := by
  have hacts : (w.next j q (M.env s) (s.view M.db)).Agree j (s.acted sem M q k).pending :=
    h.acts.next hok
  have hsame : ∀ x row, M.db.tasks.get? x = some row → row.jobID = j →
      (w.next j q (M.env s) (s.view M.db)).sets x = w.sets x := by
    intro x row hget hj
    rcases w.next_cases j (M.env s) (s.view M.db) x with hsame | ⟨c, hset, _, hx⟩
    · exact hsame
    · have hdone := hacts.allDone_iff.mp hd x row hget hj
      rw [hx] at hdone
      exact absurd ((c.over_status _).symm.trans hdone) (hq c hset)
  refine ⟨?_, h.acts.allDone_iff.mpr fun x row hget hj => ?_⟩
  · obtain ⟨x, c, row, hc, hst, hget, hj⟩ := hw
    rw [hsame x row hget hj] at hc
    exact ⟨x, c, row, hc, hst, hget, hj⟩
  · rw [← hsame x row hget hj]
    exact hacts.allDone_iff.mp hd x row hget hj

/-- The statements after which the count is due or settled. -/
def settles : Query → Bool
  | .completeEmptyReduceTasks _ | .completeTask _ | .countAllPendingTasks _
  | .updateJobStatus _ _ => true
  | _ => false

theorem next_uncounted (hq : settles q = false) (ans : q.Ans) :
    (m.next q ans).uncounted = m.uncounted := by
  unfold Evidence.next
  split <;> first | rfl | cases hq

theorem set_not_completed (hok : m.allows q) (hq : settles q = false) (hc : q.taskSet = some c) :
    c.status ≠ .completed := by
  cases q with
  | updateTaskStatus st t =>
    cases hc
    rcases hok.2.2 with rfl | rfl <;> nofun
  | updateTaskInProgress a t => cases hc; nofun
  | bulkFailNonCompletedTasksByJob j => cases hc; nofun
  | resetTasksForReplica r => cases hc; nofun
  | completeTask t => cases hq
  | completeEmptyReduceTasks j => cases hq
  | _ => cases hc

/-- One statement: a session that has counted finds a task left or has written Cleaning. -/
theorem Sound.counted_acted (h : Sound j w m M.db s) (hdb : Attended j M.db)
    (hp : s.prog = .query q k) (htodo : s.todo ≠ none) (hok : m.allows q)
    (hm : (m.next q (answer q (M.env s) (s.view M.db))).uncounted ≠ some j)
    (hw : (w.next j q (M.env s) (s.view M.db)).Sets j M.db .completed)
    (hd : ((s.acted sem M q k).pending M.db).AllDone j) :
    (w.next j q (M.env s) (s.view M.db)).status = some .cleaning := by
  by_cases hs : settles q = true
  · cases q with
    | completeTask t =>
      obtain ⟨hclean, _, _, j', hlock⟩ := hok
      obtain ⟨x, c, row, hc, _, hget, hj⟩ := hw
      rcases w.next_cases j (M.env s) (s.view M.db) x with hsame | ⟨_, _, hx, _⟩
      · cases ((h.entitled.clean hclean).1 x).symm.trans (hsame.symm.trans hc)
      · have hxt := h.hit_eq hx hget fun _ _ hw => of_decide_eq_true hw
        subst hxt
        obtain ⟨_, hof⟩ := h.known.jobLock x j' hlock
        rw [DB.jobOf, hget] at hof
        refine absurd ?_ hm
        show m.jobLock.map Prod.snd = some j
        rw [hlock, ← hj]
        exact hof.symm
    | completeEmptyReduceTasks j' =>
      obtain ⟨x, c, row, hc, _, hget, hj⟩ := hw
      rcases w.next_cases j (M.env s) (s.view M.db) x with hsame | ⟨_, _, hx, _⟩
      · cases ((h.entitled.clean hok.1).1 x).symm.trans (hsame.symm.trans hc)
      · have hwhere := h.hit hx hget
        simp only [Query.taskWhere, Bool.and_eq_true, decide_eq_true_eq,
          TaskRow.after_jobID] at hwhere
        have hjj : j' = j := hwhere.1.1.1.symm.trans hj
        subst hjj
        refine absurd (if_neg ?_) hm
        exact Nat.ne_of_gt (List.length_pos_of_mem hx)
    | countAllPendingTasks j' =>
      obtain ⟨hw, hd⟩ := h.counted_kept hok (by rintro _ ⟨⟩) hw hd
      by_cases huc : m.uncounted = some j
      · refine absurd ?_ hm
        show m.uncounted.filter _ = some j
        rw [huc, Option.filter_some]
        refine if_pos (decide_eq_true ?_)
        by_cases hjj : j = j'
        · subst hjj
          exact .inl (countAllPendingTasks_eq_zero.mpr hd)
        · exact .inr hjj
      · exact h.counted huc hw hd
    | updateJobStatus j' st =>
      obtain ⟨hw, hd⟩ := h.counted_kept hok (by rintro _ ⟨⟩) hw hd
      have hother : ¬ (st = .cleaning ∧ j = j') → m.uncounted ≠ some j := by
        intro hne huc
        refine hm ?_
        show m.uncounted.filter _ = some j
        rw [huc, Option.filter_some]
        exact if_pos (decide_eq_true (not_and_or.mp hne))
      by_cases hjj : j = j'
      · subst hjj
        rcases hok with rfl | ⟨_, hassigned⟩ | ⟨hclean, _⟩
        · obtain ⟨cur, hcur⟩ := hdb.found
          have hview : (s.view M.db).jobStatus j = some (w.status.getD cur) := by
            rw [Session.view, h.acts.status, hcur]
            rfl
          obtain ⟨row, hrow, _⟩ := Option.map_eq_some_iff.mp hview
          have hid := Table.key_of_get? hrow
          refine if_pos (List.mem_map.mpr ⟨row, List.mem_filter.mpr ⟨Table.mem_of_get? hrow, ?_⟩,
            hid⟩)
          rw [hid]
          exact Bool.and_eq_true_iff.mpr
            ⟨decide_eq_true hid, decide_eq_true (h.scanned.status htodo _ k hp)⟩
        · exact absurd hd (h.acts.not_allDone (h.entitled.assigned hassigned) (by decide))
        · obtain ⟨x, c, _, hc, _⟩ := hw
          cases ((h.entitled.clean hclean).1 x).symm.trans hc
      · have hstatus := h.counted (hother fun hc => hjj hc.2) hw hd
        refine (if_neg fun hids => hjj ?_).trans hstatus
        obtain ⟨row, hget, hwhere, _⟩ := mem_matchedIDs hids
        exact (Table.key_of_get? hget).symm.trans (of_decide_eq_true hwhere)
    | _ => cases hs
  · have hs : settles q = false := by simpa using hs
    obtain ⟨hw, hd⟩ := h.counted_kept hok (fun c hc => set_not_completed hok hs hc) hw hd
    rw [next_uncounted hs] at hm
    have hstatus : (w.next j q (M.env s) (s.view M.db)).status = w.status := by
      cases q <;> first | rfl | cases hs
    rw [hstatus]
    exact h.counted hm hw hd

theorem Sound.acted (h : Sound j w m M.db s) (hdb : Attended j M.db) (hp : s.prog = .query q k)
    (htodo : s.todo ≠ none) (hok : m.allows q) (hheld : ∀ r ∈ s.scan, r ∈ s.held) :
    Sound j (w.next j q (M.env s) (s.view M.db))
      (m.next q (answer q (M.env s) (s.view M.db))) M.db (s.acted sem M q k) where
  acts := h.acts.next hok
  accounts := by
    have hacc := h.accounts
    rw [hp] at hacc
    exact hacc.2 _
  known := .acted h hok hheld
  entitled := .acted h hp htodo hok hheld
  scanned := ⟨fun hn => absurd rfl hn, fun hn => absurd rfl hn⟩
  counted := h.counted_acted hdb hp htodo hok

/-- A session that gets more locks. -/
theorem Sound.more {t : WorkSession} (h : Sound j w m db s) (hprog : t.prog = s.prog)
    (hpend : t.pending = s.pending) (hheld : ∀ r ∈ s.held, r ∈ t.held) (hscan : Scanned j db t) :
    Sound j w m db t where
  acts := hpend ▸ h.acts
  accounts := hprog ▸ h.accounts
  known := h.known.more hheld
  entitled := h.entitled.more hheld id (.inr rfl) rfl (fun _ => id) rfl
  scanned := hscan
  counted := hpend ▸ h.counted

/-- A statement that is issued requests the rows that it has to change. -/
theorem Sound.scan_request (h : Sound j w m db s) (hdb : Attended j db) (hp : s.prog = .query q k)
    (hok : m.allows q) {t : WorkSession} (hprog : t.prog = s.prog)
    (hscan : t.scan = q.waitRows (s.view db)) : Scanned j db t where
  sweep _ k' hp' x row hget hst := by
    rw [hprog, hp] at hp'
    cases hp'
    rw [hscan]
    have hid := Table.key_of_get? hget
    rw [← h.clean_tasks hok.1] at hget
    rw [← hid]
    exact Query.mem_waitRows_task (Table.mem_of_get? hget) (h.starving_where hok.1 hst)
  status _ st k' hp' := by
    rw [hprog, hp] at hp'
    cases hp'
    rw [hscan]
    obtain ⟨cur, hcur⟩ := hdb.found
    have hview : (s.view db).jobStatus j = some (w.status.getD cur) := by
      rw [Session.view, h.acts.status, hcur]
      rfl
    obtain ⟨row, hrow, _⟩ := Option.map_eq_some_iff.mp hview
    have hid := Table.key_of_get? hrow
    rw [← hid]
    exact Query.mem_waitRows_job (Table.mem_of_get? hrow) (decide_eq_true rfl)

end Exec

/-! ## 2. Every run -/

theorem stranded_rule (j : UUID) :
    Rule sem work (fun _ _ => True) ledger (fun _ => .start) (Attended j)
      (fun m db s => ∃ w, Sound j w m db s) where
  obeys c := (work_fulfils c).obeys
  begin _ _ c _ _ := by
    refine ⟨⟨fun _ => none, [], none⟩, ⟨fun _ _ => ?_, fun _ => ?_, fun _ => ?_⟩, work_fulfils c,
      ⟨nofun, nofun, nofun, nofun⟩, ⟨fun _ => ⟨fun _ => rfl, rfl⟩, nofun, nofun, nofun, nofun,
        nofun,
        nofun, nofun⟩, ⟨fun h => absurd rfl h, fun h => absurd rfl h⟩, ?_⟩
    · exact (Option.map_id' ..).symm
    · exact (List.append_nil _).symm
    · exact (Option.map_id' ..).symm
    · rintro _ ⟨_, _, _, hc, _⟩
      cases hc
  request _ _ _ _ _ _ hM _ _ _ hp hok _ h := by
    obtain ⟨w, h⟩ := h
    obtain ⟨hprog, hscan⟩ := requested_statement
    exact ⟨w, h.more hprog requested_frame.2.1 requested_frame.2.2
      (h.scan_request hM.db hp hok hprog hscan)⟩
  lock _ _ _ _ _ _ _ htodo h := by
    obtain ⟨w, h⟩ := h
    have hopen : _ ≠ none := fun hn => by cases htodo.symm.trans hn
    exact ⟨w, h.more rfl rfl (fun _ hr => List.mem_cons_of_mem _ hr)
      ⟨fun _ => h.scanned.sweep hopen, fun _ => h.scanned.status hopen⟩⟩
  exec _ _ _ _ _ hM _ _ htodo hp hok _ hheld h := by
    obtain ⟨w, h⟩ := h
    have hopen : _ ≠ none := fun hn => by cases htodo.symm.trans hn
    exact ⟨_, h.acted hM.db hp hopen hok hheld⟩
  commit _ _ _ m hM _ _ hp h := by
    obtain ⟨w, h⟩ := h
    have hacc := h.accounts
    rw [hp] at hacc
    refine h.attended hM.db ?_
    rw [hacc rfl]
    nofun
  stable _ _ _ _ _ _ hM hs ht hne _ h h' := by
    obtain ⟨w, h⟩ := h
    obtain ⟨w', h'⟩ := h'
    exact ⟨w', .stable hM.db h h' (hM.excl _ hs _ ht hne)⟩

/-- A job as ScheduleJob leaves it: all its tasks are Idle, and it has a Map task and a
Reduce task. -/
structure Scheduled (j : UUID) (db : DB) : Prop where
  found : ∃ st, db.jobStatus j = some st
  idle : ∀ t row, db.tasks.get? t = some row → row.jobID = j → row.status = .idle
  tasks : ∀ ty, ∃ t row, db.tasks.get? t = some row ∧ row.jobID = j ∧ row.taskType = ty

/-- ScheduleJob leaves its job so. -/
theorem scheduled_of_scheduleJob {s : Scheduler} {req : ScheduleJobRequest} {now : Time}
    {locked : Resource → Bool} {db : DB} {j : UUID} (hj : s.uuidParse req.jobID = some j)
    (hok : (perform (.scheduleJob s req) now locked db).1.result.isOk = true)
    (hnew : ∀ t row, db.tasks.get? t = some row → row.jobID ≠ j) :
    Scheduled j (perform (.scheduleJob s req) now locked db).2 := by
  obtain ⟨cs, hcs, hsub⟩ := perform_scheduleJob hj hok
  have hins := hsub.inserts
  refine ⟨?_, fun t row ht hj => inserts_idle hcs hins hnew ht hj, fun ty => ?_⟩
  · obtain ⟨row, hrow, _⟩ := hsub.tasks_of .map
    obtain ⟨_, job, hjob⟩ := inserts_added hcs hins hrow
    have hrj : row.jobID = j := hins _ hrow
    rw [hrj] at hjob
    exact ⟨job.status, congrArg (Option.map _) hjob⟩
  · obtain ⟨row, hrow, hty⟩ := hsub.tasks_of ty
    exact ⟨row.taskID, row, (inserts_added hcs hins hrow).1, hins _ hrow, hty⟩

theorem Scheduled.attended {j : UUID} {db : DB} (h : Scheduled j db) : Attended j db where
  found := h.found
  done hd := by
    obtain ⟨t, row, hget, hj, _⟩ := h.tasks .map
    cases (h.idle t row hget hj).symm.trans (hd t row hget hj)
  fed t row _ _ hget hj _ hprog := by cases (h.idle t row hget hj).symm.trans hprog

/-- However the statements of the transactions are interleaved: in every committed state in
which all tasks of a scheduled job are Completed, the job is neither Pending nor Running. -/
theorem finished_cleaned {j : UUID} {db : DB} (h : Scheduled j db)
    {as : List (Transactions.Label Work Resource)} {M : WorkMachine}
    (hrun : Run WorkStep (Machine.idle db) as M) (hdone : M.db.AllDone j) :
    ∃ st, M.db.jobStatus j = some st ∧ st ≠ .pending ∧ st ≠ .running := by
  have hM := ((stranded_rule j).run (hrun.mono fun _ _ _ hs => ⟨hs, trivial⟩)
    (holds_idle h.attended)).db
  obtain ⟨st, hst⟩ := hM.found
  obtain ⟨hpending, hrunning⟩ := hM.done hdone
  rw [hst] at hpending hrunning
  exact ⟨st, hst, fun he => hpending (congrArg some he), fun he => hrunning (congrArg some he)⟩

/-- Both Map tasks of the small job are reported without outputs, and the next GetNextTask
completes the Reduce task. -/
def smallWork : List (Work × Time) :=
  [(⟨.getNextTask soloReplica 1 "w1" 10 11, rfl⟩, 2),
    (⟨.getNextTask soloReplica 1 "w2" 20 21, rfl⟩, 2),
    (⟨.completeTask soloReplica 2 10 11 [] [], rfl⟩, 3),
    (⟨.completeTask soloReplica 3 20 21 [] [], rfl⟩, 3),
    (⟨.getNextTask soloReplica 1 "w1" 30 31, rfl⟩, 4)]

/-- The small job ends in Cleaning. -/
theorem finished_cleaned_small : ∃ as M, Run WorkStep (Machine.idle (smallDB none)) as M ∧
    M.db.AllDone 1 ∧ ∃ st, M.db.jobStatus 1 = some st ∧ st ≠ .pending ∧ st ≠ .running := by
  have hsched : Scheduled 1 (smallDB none) :=
    scheduled_of_scheduleJob (s := soloReplica) (by decide) (by decide) nofun
  obtain ⟨as, hrun⟩ : ∃ as, Run WorkStep (Machine.idle (smallDB none)) as (Machine.idle _) :=
    serial_all lawful smallWork
  have hcount : answer (.countAllPendingTasks 1) (atomically 0 fun _ => false)
      (smallWork.foldl (fun db c => (transact sem c.2 (fun _ => false) (work c.1) db).2)
        (smallDB none)) = 0 := by decide
  have hdone := countAllPendingTasks_eq_zero.mp hcount
  exact ⟨as, _, hrun, hdone, finished_cleaned hsched hrun hdone⟩

end KubeMapReduce
