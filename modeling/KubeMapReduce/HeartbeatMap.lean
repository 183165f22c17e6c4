import KubeMapReduce.Heartbeats
import KubeMapReduce.Terminal

/-!
# What stays in the heartbeat map

GetNextTask and RenewLease put an attempt into the heartbeat map of their process; CompleteTask,
FailTask and CancelJob take the attempts out that they end. The reaper, Recover and another process
end attempts without taking them out, and an assignment is stored before its commit. So an entry
outlives its attempt, and it is there until the process ends.

* `ended_post`: the three operations delete every attempt that they end.
* `heartbeats_running`: the entries are Running attempts as long as those three, on the process
  itself, end the attempts of its map, and every assignment is committed.
* `heartbeats_reaped`: one pass of the reaper leaves an entry behind.
-/

namespace KubeMapReduce

open Tables Runs

variable {rest : List PostAction} {locked : Resource → Bool} {now : Time} {db' : DB}
  {cs : List Change} {es : List Event} {i : Nat} {action : PostAction} {s : Scheduler}
  {j lease t : UUID} {heartbeats : UUID → Option Time}

/-! ## 1. An assignment that is not committed -/

/-- A move, or a GetNextTask whose transaction ends without a commit after tryAssignTask has stored
the heartbeat. -/
inductive BeatMove where
  | move (a : Move)
  | lost (s : Scheduler) (jobID : UUID) (workerID : String) (attemptID leaseID : UUID) (now : Time)
      (locked : Resource → Bool)

def beat (m : Managers) : BeatMove → Option Managers
  | .move a => move m a
  | .lost s j worker a lease now locked =>
    if (next m.world (.call (.getNextTask s j worker a lease) now locked)).isSome = true ∧
        (perform (.getNextTask s j worker a lease) now locked m.world.db).1.result.isOk = true then
      some { m with
        heartbeats := Function.update m.heartbeats s.replicaIndex
          (Function.update (m.heartbeats s.replicaIndex) a (some now)) }
    else none

abbrev Beats : Managers → BeatMove → Managers → Prop := Steps beat

theorem beats_lost {m m' : Managers} {a : UUID} {worker : String}
    (h : Beats m (.lost s j worker a lease now locked) m') :
    m' = { m with
      heartbeats := Function.update m.heartbeats s.replicaIndex
        (Function.update (m.heartbeats s.replicaIndex) a (some now)) } := by
  simp only [Steps, beat] at h
  split at h
  · exact (Option.some.inj h).symm
  · cases h

/-! ## 2. Attempts that a call ends -/

section Ended

variable {now : Time} {locked : Resource → Bool} {db : DB} {x : UUID} {att : AttemptRow}

/-- The attempt is Running. -/
def DB.RunsAttempt (db : DB) (x : UUID) : Prop :=
  ∃ att, db.attempts.get? x = some att ∧ att.status = .running

instance (db : DB) (x : UUID) : Decidable (db.RunsAttempt x) :=
  decidable_of_iff ((db.attempts.get? x).any fun att => decide (att.status = .running)) (by
    rw [Option.any_eq_true]
    simp [DB.RunsAttempt])

theorem not_runs_changes (hcs : Changes now db cs db') (h : db.attempts.get? x = some att)
    (hrun : att.status = .running) (hend : ¬ db'.RunsAttempt x) :
    ∃ c ∈ cs, ∃ bs d b, Changes now db bs d ∧ d.attempts.get? x = some b ∧
      b.taskID = att.taskID ∧ c.Stops d b :=
  stops_changes hcs h hrun fun a' ha' hrun' => hend ⟨a', ha', hrun'⟩

theorem not_stops_logs {c : Change} (h : c ∈ logs s es) (d : DB) (b : AttemptRow) :
    ¬ c.Stops d b := by
  obtain ⟨e, rfl⟩ := mem_logs h
  exact id

/-- The changes that follow when the job is closed. -/
theorem not_stops_closing {status : JobStatus} {c : Change} (h : c ∈ .setJob j status :: logs s es)
    (d : DB) (b : AttemptRow) : ¬ c.Stops d b := by
  rcases List.mem_cons.mp h with rfl | h
  · exact id
  · exact not_stops_logs h d b

/-- The operations that take an attempt out of the map. -/
def Call.deletes : Call → Bool
  | .completeTask .. | .failTask .. | .cancelJob .. => true
  | _ => false

/-- The first change ends the attempt if the others do not. -/
theorem not_runs_first {c₀ : Change} {a : UUID} (hcs : Changes now db (c₀ :: cs) db')
    (hrun : db.RunsAttempt x) (hend : ¬ db'.RunsAttempt x)
    (hfirst : ∀ d b, c₀.Stops d b → b.attemptID = a) (hrest : ∀ c ∈ cs, ∀ d b, ¬ c.Stops d b) :
    x = a := by
  obtain ⟨att, hatt, hrun⟩ := hrun
  obtain ⟨c, hc, _, d, b, _, hb, _, hstops⟩ := not_runs_changes hcs hatt hrun hend
  rcases List.mem_cons.mp hc with rfl | hc
  · exact (Table.key_of_get? hb).symm.trans (hfirst d b hstops)
  · exact absurd hstops (hrest c hc d b)

/-- An accepted report ends its own attempt only, and takes it out of the map. -/
theorem Reported.deletes {a : UUID} {c : Change} {e : Event} {status : JobStatus} {closes : Prop}
    {out : Outcome Unit} (h : Reported s now db t a j c e status closes out db')
    (hrun : db.RunsAttempt x) (hend : ¬ db'.RunsAttempt x)
    (hfirst : ∀ d b, c.Stops d b → b.attemptID = a) :
    ∃ thread ∈ out.post, .deleteHeartbeat x ∈ thread := by
  rcases h.course with ⟨hcs, hpost⟩ | ⟨_, hcs, hpost⟩
  · obtain rfl := not_runs_first hcs hrun hend hfirst fun _ => not_stops_logs
    exact ⟨_, hpost ▸ List.mem_cons_self, List.mem_cons_self⟩
  · obtain rfl := not_runs_first hcs hrun hend hfirst fun _ => not_stops_closing
    exact ⟨_, hpost ▸ List.mem_cons_self, List.mem_cons_self⟩

/-- CancelJob ends attempts of its job only. -/
theorem cancelled_job (hl : Linked db) (hatt : db.attempts.get? x = some att)
    (hrun : att.status = .running)
    (hend : ¬ (perform (.cancelJob s j) now locked db).2.RunsAttempt x) :
    db.jobOf att.taskID = some j := by
  obtain ⟨out, hout, ⟨hdb, _⟩ | ⟨_, old, cs, _, _, hcs, hset⟩⟩ := performed
    (c := .cancelJob s j) rfl cancelJob_changes
  · exact absurd (hdb ▸ ⟨att, hatt, hrun⟩) hend
  · obtain ⟨c, hc, bs, d, b, hbs, _, htask, hstops⟩ := not_runs_changes hcs hatt hrun hend
    have hcancel : c = .cancel j := by
      rcases List.mem_append.mp hc with hc | hc
      · rcases hset with ⟨_, rfl⟩ | ⟨_, rfl⟩
        · cases hc
        · rw [List.mem_singleton.mp hc] at hstops
          exact hstops.elim
      · rcases List.mem_cons.mp hc with hc | hc
        · exact hc
        · exact absurd hstops (not_stops_logs hc d b)
    subst hcancel
    obtain ⟨row, hcur⟩ := hl.current x att hatt hrun
    have hj : db.jobOf att.taskID = some row.jobID := by rw [DB.jobOf, hcur.task]; rfl
    have hstops : d.jobOf b.taskID = some j := hstops
    rw [htask, changes_jobOf hbs hj] at hstops
    rw [hj, hstops]

/-- They do so for every attempt that they end. -/
theorem ended_post {c : Call} (hc : c.deletes = true) (hl : Linked db)
    (hrun : db.RunsAttempt x) (hend : ¬ (perform c now locked db).2.RunsAttempt x) :
    ∃ thread ∈ (perform c now locked db).1.post, .deleteHeartbeat x ∈ thread := by
  cases c with
  | completeTask s t a lease us cks =>
    obtain ⟨out, hout, h | ⟨_, j, h⟩⟩ := performed
      (c := .completeTask s t a lease us cks) rfl completeTask_changes
    · exact absurd (h.1 ▸ hrun) hend
    · rw [hout, Outcome.map]
      exact h.deletes hrun hend fun _ _ => id
  | failTask s t a lease reason =>
    obtain ⟨out, hout, h | ⟨j, status, h⟩⟩ := performed
      (c := .failTask s t a lease reason) rfl failTask_changes
    · exact absurd (h.1 ▸ hrun) hend
    · rw [hout, Outcome.map]
      exact h.deletes hrun hend fun _ _ => id
  | cancelJob s j =>
    obtain ⟨out, hout, ⟨hdb, _⟩ | ⟨_, _, _, _, hpost, _⟩⟩ := performed
      (c := .cancelJob s j) rfl cancelJob_changes
    · exact absurd (hdb ▸ hrun) hend
    · obtain ⟨att, hatt, hrun⟩ := hrun
      have hj := cancelled_job hl hatt hrun hend
      rw [hout, Outcome.map, hpost]
      refine ⟨_, List.mem_singleton_self _, List.mem_append_left _ (List.mem_map_of_mem ?_)⟩
      refine List.mem_map.mpr ⟨att, List.mem_filter.mpr ⟨Table.mem_of_get? hatt, ?_⟩,
        Table.key_of_get? hatt⟩
      rw [decide_eq_true hj, decide_eq_true hrun]
      rfl
  | _ => cases hc

/-! ## 3. Attempts that a call stores -/

theorem runs_changes (hcs : Changes now db cs db') (hrun : db.RunsAttempt x)
    (hno : ∀ c ∈ cs, ∀ d b, ¬ c.Stops d b) : db'.RunsAttempt x := by
  by_contra hend
  obtain ⟨att, hatt, hrun⟩ := hrun
  obtain ⟨c, hc, _, d, b, _, _, _, hstops⟩ := not_runs_changes hcs hatt hrun hend
  exact hno c hc d b hstops

theorem getNextTask_runs {worker : String}
    (hok : (perform (.getNextTask s j worker x lease) now locked db).1.result.isOk = true) :
    (perform (.getNextTask s j worker x lease) now locked db).2.RunsAttempt x := by
  obtain ⟨_, _, _, _, h⟩ := getNextTask_handed hok
  exact runs_changes h.tail ⟨_, Table.get?_insert_self h.picked.fresh, rfl⟩
    fun _ => not_stops_closing

theorem renewLease_runs {sampled : Bool} (hrun : db.RunsAttempt x) :
    (perform (.renewLease s t x lease sampled) now locked db).2.RunsAttempt x := by
  obtain ⟨out, hout, h | ⟨_, _, row, att, _, _, _, hcs⟩⟩ := performed
    (c := .renewLease s t x lease sampled) rfl renewLease_changes
  · exact h.1 ▸ hrun
  · refine runs_changes hcs hrun fun c hc d b => ?_
    rcases List.mem_cons.mp hc with rfl | hc
    · exact id
    · exact not_stops_logs hc d b

end Ended

/-! ## 4. The entries of a process -/

/-- The move is a call that takes an attempt out of the map of replica `r`. -/
def Move.deletes (r : Nat) : Move → Bool
  | .serve r' c _ _ => decide (r' = r) && c.deletes
  | _ => false

/-- The attempt is in the map of replica `r`, or a renewal is about to put it there. -/
def Managers.Knows (m : Managers) (r : Nat) (x : UUID) : Prop :=
  m.heartbeats r x ≠ none ∨ m.Unstored r x

instance (m : Managers) (r : Nat) (x : UUID) : Decidable (m.Knows r x) :=
  inferInstanceAs (Decidable (m.heartbeats r x ≠ none ∨ m.Unstored r x))

/-- The attempts of the map that a move ends are ended by CompleteTask, FailTask or CancelJob of the
process, with no renewal about to store them again. -/
def endsCleared (r : Nat) (m : Managers) (a : Move) : Prop :=
  ∀ m' ∈ move m a, ∀ row ∈ m.world.db.attempts.rows, m.world.db.RunsAttempt row.attemptID →
    m.Knows r row.attemptID → ¬ m'.world.db.RunsAttempt row.attemptID →
      a.deletes r = true ∧ ¬ m.Unstored r row.attemptID

/-- A RenewLease of the process renews an attempt that is Running. -/
def renewsRunning (r : Nat) (m : Managers) : Move → Prop
  | .serve r' (.renewLease s t x lease sampled) now locked => r' = r →
    (perform (.renewLease s t x lease sampled) now locked m.world.db).1.result.isOk = true →
      m.world.db.RunsAttempt x
  | _ => True

/-- What a step has to meet so that no entry of replica `r` outlives its attempt. -/
def clearedBy (r : Nat) (m : Managers) : BeatMove → Prop
  | .move a => endsCleared r m a ∧ renewsRunning r m a
  | .lost s _ _ _ _ _ _ => s.replicaIndex ≠ r

instance (r : Nat) (m : Managers) (a : Move) : Decidable (endsCleared r m a) := by
  unfold endsCleared
  infer_instance

instance (r : Nat) (m : Managers) (a : Move) : Decidable (renewsRunning r m a) := by
  induction a using Move.casesOn with
  | serve _ c =>
    induction c using Call.casesOn with
    | renewLease =>
      dsimp only [renewsRunning]
      exact @instDecidableForall _ _ _ instDecidableForall
    | _ => exact instDecidableTrue
  | _ => exact instDecidableTrue

instance (r : Nat) (m : Managers) (a : BeatMove) : Decidable (clearedBy r m a) := by
  unfold clearedBy
  split <;> infer_instance

/-- Every entry of the map of replica `r` is a Running attempt or is about to be deleted, and only
Running attempts are about to be stored. -/
structure Matched (r : Nat) (m : Managers) : Prop where
  coherent : Coherent m.world.phase m.world.db
  entries : ∀ x, m.heartbeats r x ≠ none →
    m.world.db.RunsAttempt x ∨ m.Owes r (.deleteHeartbeat x)
  stores : ∀ x, m.Unstored r x → m.world.db.RunsAttempt x

theorem matched_initial (q : Option Nat) (r : Nat) : Matched r (Managers.initial q) where
  coherent := coherent_initial q
  entries x h := absurd rfl h
  stores x h := by
    obtain ⟨i, hi, _⟩ := h
    exact absurd hi (Nat.not_lt_zero i)

section Steps

variable {m m' : Managers} {r : Nat} {x : UUID}

/-- A Running attempt of the map is Running after the move, or the move deletes it. -/
theorem endsCleared.runs {a : Move} (h : endsCleared r m a) (hs : Moves m a m')
    (hrun : m.world.db.RunsAttempt x) (hknown : m.Knows r x) :
    m'.world.db.RunsAttempt x ∨
      ¬ m'.world.db.RunsAttempt x ∧ a.deletes r = true ∧ ¬ m.Unstored r x := by
  by_cases hend : m'.world.db.RunsAttempt x
  · exact .inl hend
  · obtain ⟨att, hatt, _⟩ := id hrun
    obtain ⟨hmem, rfl⟩ := Table.get?_eq_some.mp hatt
    exact .inr ⟨hend, h m' hs att hmem hrun hknown hend⟩

/-- A store that is still to come is of a Running attempt after the move as well. -/
theorem endsCleared.stores {a : Move} (h : endsCleared r m a) (hb : Matched r m)
    (hs : Moves m a m') (hun : m.Unstored r x) : m'.world.db.RunsAttempt x := by
  rcases h.runs hs (hb.stores x hun) (.inr hun) with hrun | ⟨_, _, hno⟩
  · exact hrun
  · exact absurd hun hno

theorem matched_serve {r' : Nat} {c : Call} (hb : Matched r m)
    (hs : Moves m (.serve r' c now locked) m') (hends : endsCleared r m (.serve r' c now locked))
    (hrenews : renewsRunning r m (.serve r' c now locked)) : Matched r m' := by
  obtain ⟨_, hw, _, howner⟩ := moves_serve hs
  obtain ⟨_, _, hdb, _, _, hthreads⟩ := step_call hw
  refine ⟨coherent_step hb.coherent hw, fun x hx => ?_, fun x hun => ?_⟩
  · rcases entry_serve hs r x with he | ⟨_, ⟨s, j, worker, lease, rfl⟩, hok, _⟩
    · rw [he] at hx
      rcases hb.entries x hx with hrun | howes
      · rcases hends.runs hs hrun (.inl hx) with hrun' | ⟨hend, hdel, _⟩
        · exact .inl hrun'
        · obtain ⟨hr, hc⟩ := Bool.and_eq_true_iff.mp hdel
          rw [hdb] at hend
          exact .inr ((Managers.owes_spawn hthreads howner).mpr
            (.inr ⟨(of_decide_eq_true hr).symm, ended_post hc hb.coherent.linked hrun hend⟩))
      · exact .inr ((Managers.owes_spawn hthreads howner).mpr (.inl howes))
    · rw [hdb]
      exact .inl (getNextTask_runs hok)
  · rcases (Managers.owes_spawn hthreads howner).mp hun with hold | ⟨rfl, thread, ht, ha⟩
    · exact hends.stores hb hs hold
    · obtain ⟨⟨s, t, lease, sampled, rfl⟩, hok⟩ := (post_facts ht ha).1
      rw [hdb]
      exact renewLease_runs (hrenews rfl hok)

theorem matched_reap (hb : Matched r m) (hs : Moves m (.reap s now locked) m')
    (hends : endsCleared r m (.reap s now locked)) : Matched r m' := by
  obtain ⟨hw, hbeats, howner⟩ := moves_reap hs
  obtain ⟨_, _, _, _, _, hthreads⟩ := step_call hw
  refine ⟨coherent_step hb.coherent hw, fun x hx => ?_, fun x hun => ?_⟩
  · rw [hbeats] at hx
    rcases hb.entries x hx with hrun | howes
    · rcases hends.runs hs hrun (.inl hx) with hrun' | ⟨_, hdel, _⟩
      · exact .inl hrun'
      · cases hdel
    · exact .inr ((Managers.owes_spawn hthreads howner).mpr (.inl howes))
  · rcases (Managers.owes_spawn hthreads howner).mp hun with hold | ⟨_, thread, ht, ha⟩
    · exact hends.stores hb hs hold
    · obtain ⟨⟨_, _, _, _, hc⟩, _⟩ := (post_facts ht ha).1
      cases hc

theorem matched_post (hb : Matched r m) (hs : Moves m (.post i action now) m')
    (hends : endsCleared r m (.post i action now)) : Matched r m' := by
  obtain ⟨_, _, hw, _, howner⟩ := moves_post hs
  obtain ⟨rest, hi, _, _, _, _, hthreads⟩ := step_post hw
  refine ⟨coherent_step hb.coherent hw, fun x hx => ?_, fun x hun => ?_⟩
  · rcases entry_post hs r x with ⟨hown, hact, _⟩ | he | ⟨hno, he⟩
    · exact .inl (hends.stores hb hs ((Managers.owes_post hi hthreads howner).mpr
        (.inl ⟨hown, hact⟩)))
    · exact absurd he hx
    · rw [he] at hx
      rcases hb.entries x hx with hrun | howes
      · rcases hends.runs hs hrun (.inl hx) with hrun' | ⟨_, hdel, _⟩
        · exact .inl hrun'
        · cases hdel
      · refine .inr (((Managers.owes_post hi hthreads howner).mp howes).resolve_left ?_)
        exact fun hact => hno ⟨hact.1, .inr hact.2⟩
  · exact hends.stores hb hs ((Managers.owes_post hi hthreads howner).mpr (.inr hun))

theorem matched_restart {r' : Nat} (hb : Matched r m) (hs : Moves m (.restart r') m') :
    Matched r m' := by
  obtain ⟨hw, hbeats, _⟩ := moves_restart hs
  have hworld := step_restart hw
  refine ⟨coherent_step hb.coherent hw, fun x hx => ?_, fun x hun => ?_⟩
  · rcases eq_or_ne r r' with rfl | hne
    · rw [hbeats, Function.update_self] at hx
      exact absurd rfl hx
    · rw [hbeats, Function.update_of_ne hne] at hx
      exact (hb.entries x hx).imp (fun hrun => by rwa [hworld]) fun howes =>
        (Managers.owes_restart hs).mpr ⟨hne, howes⟩
  · rw [hworld]
    exact hb.stores x ((Managers.owes_restart hs).mp hun).2

theorem matched_step {a : BeatMove} (hb : Matched r m) (hs : Beats m a m')
    (hok : clearedBy r m a) : Matched r m' := by
  cases a with
  | lost s j worker a lease now locked =>
    obtain rfl := beats_lost hs
    refine ⟨hb.coherent, fun x hx => ?_, hb.stores⟩
    dsimp only at hx
    rw [Function.update_of_ne (Ne.symm hok)] at hx
    exact hb.entries x hx
  | move a =>
    obtain ⟨hends, hrenews⟩ := hok
    cases a with
    | serve r' c now locked => exact matched_serve hb hs hends hrenews
    | reap s now locked => exact matched_reap hb hs hends
    | post i action now => exact matched_post hb hs hends
    | restart r' => exact matched_restart hb hs

theorem matched_run {q : Option Nat} {as : List BeatMove}
    (h : Run (Under Beats (clearedBy r)) (Managers.initial q) as m) : Matched r m :=
  h.invariant (I := Matched r) (fun _ _ _ hb hs => matched_step hb hs.1 hs.2) (matched_initial q r)

end Steps

/-- No operation of the process is in progress. -/
def Managers.Idle (m : Managers) (r : Nat) : Prop :=
  ∀ i < m.world.threads.length, m.owner i = some r → m.world.threads.getD i [] = []

instance (m : Managers) (r : Nat) : Decidable (m.Idle r) := by
  unfold Managers.Idle
  infer_instance

/-- If no operation of the process of replica `r` is in progress, every entry of its map is a
Running attempt, provided that in the run its attempts were ended by its own CompleteTask, FailTask
and CancelJob, renewed while Running, and assigned with a commit. -/
theorem heartbeats_running {q : Option Nat} {as : List BeatMove} {m : Managers} {r : Nat}
    (h : Run (Under Beats (clearedBy r)) (Managers.initial q) as m) (hidle : m.Idle r) (x : UUID)
    (hx : m.heartbeats r x ≠ none) :
    ∃ att, m.world.db.attempts.get? x = some att ∧ att.status = .running := by
  rcases (matched_run h).entries x hx with hrun | ⟨i, hi, hown, hmem⟩
  · exact hrun
  · rw [hidle i hi hown] at hmem
    cases hmem

/-- The worker pool of the job is started and a worker gets its first task. -/
def assignedMoves : List BeatMove :=
  heldMoves.map .move ++
    [.move (.post 3 (.ensureWorkerPool 1 2 soloReplica.managerAddr) (3 * second))]

/-- The attempt that is assigned is the only entry. -/
theorem heartbeats_running_assigned :
    ∃ m, Run (Under Beats (clearedBy 0)) (Managers.initial none) assignedMoves m ∧
      m.heartbeats 0 10 ≠ none ∧
      ∃ att, m.world.db.attempts.get? 10 = some att ∧ att.status = .running := by
  obtain ⟨m, hm, hidle, hx⟩ := (run_toUnder (by decide +kernel) :
    ∃ m, Run (Under Beats (clearedBy 0)) (Managers.initial none) assignedMoves m ∧
      m.Idle 0 ∧ m.heartbeats 0 10 ≠ none)
  exact ⟨m, hm, hx, heartbeats_running hm hidle 10 hx⟩

/-- The worker is not heard of again and the reaper, after its lease, releases the task. -/
def reapedMoves : List BeatMove :=
  assignedMoves ++ ([reaping (60 * second), .post 6 (.orchestratorCancel 1) (60 * second),
    .post 6 (.failRunningAttemptsByJob 1) (60 * second),
    .post 6 (.ensureWorkerPool 1 defaultReaperPoolSize soloReplica.managerAddr)
      (60 * second)] : List Move).map .move

/-- The pass of the reaper is over and nothing is in progress: the attempt is Failed and its entry
is still there. So is the entry of an assignment whose commit was lost, for an attempt that is in no
row. -/
theorem heartbeats_reaped :
    (∃ m, Run Beats (Managers.initial none) reapedMoves m ∧ m.Idle 0 ∧
      m.heartbeats 0 10 ≠ none ∧
      (m.world.db.attempts.get? 10).map AttemptRow.status = some .failed) ∧
    ∃ m, Run Beats (Managers.initial none) (assignedMoves ++
        [.lost soloReplica 1 "b" 11 21 (4 * second) fun _ => false]) m ∧ m.Idle 0 ∧
      m.heartbeats 0 11 ≠ none ∧ m.world.db.attempts.get? 11 = none :=
  ⟨run_to (by decide +kernel), run_to (by decide +kernel)⟩

end KubeMapReduce
