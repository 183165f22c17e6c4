import KubeMapReduce.Closing

/-!
# The cleanup reconcilers

A manager keeps the jobs that wait for their end in a map in its memory, `pendingCleanup`. A
ticker takes entries from the map, and a finalizer for each of them deletes the staging objects,
writes the terminal status and deletes the workers; when one of these fails, the entry goes back
into the map. The map is lost with the process. A process that starts lists all Cleaning jobs,
of every replica, and derives their terminal states from the tasks. `Cleaners` is the cluster
together with these maps and finalizers.

* `Cleaners.Holds`: the entries that the live processes hold for a job.
* `cleans_effect`: what a move does to the status of a job and to these entries.
-/

namespace KubeMapReduce

open Tables Transactions Runs

variable {locked : Resource → Bool} {now : Time} {k r : Nat} {j : UUID}

/-! ## 1. The processes -/

/-- An entry of pendingCleanup. The empty string, for a state that is still to be derived, is
`none`. -/
structure CleanupEntry where
  replica : Nat
  jobID : UUID
  terminalState : Option TerminalState
deriving DecidableEq

def CleanupEntry.key (e : CleanupEntry) : Nat × UUID := (e.replica, e.jobID)

/-- What a finalizer, or the recovery of one job at the start, does next. -/
inductive Stage where
  | countFailed (recovering : Bool)
  | countPending (recovering : Bool)
  | deleteStaging (terminalState : TerminalState)
  | updateStatus (terminalState : TerminalState)
  | cancelWorkers (terminalState : TerminalState)
  | enqueue (entry : Option TerminalState)
  | done
deriving DecidableEq

variable {stage : Stage}

structure Finalizer where
  replica : Nat
  jobID : UUID
  stage : Stage
deriving DecidableEq

structure Cleaners where
  world : World
  /-- The replica whose process runs a thread, `none` when the process has ended. -/
  owner : Nat → Option Nat
  pending : Table CleanupEntry.key
  /-- The map cleanupRetries of a process. -/
  retries : Nat → UUID → Nat
  /-- StartCleanupReconciler was called in the process. -/
  reconciling : Nat → Bool
  finalizers : List Finalizer
  /-- A staging cleaner is configured. -/
  hasStaging : Bool

def maxCleanupRetries : Nat := 10
def cleanupReconcileBatchSize : Nat := 64

/-- The terminal state that a string of the queue names. -/
def JobStatus.terminalState : JobStatus → Option TerminalState
  | .completed => some .completed
  | .failed => some .failed
  | .cancelled => some .cancelled
  | _ => none

@[simp] theorem terminalState_status (ts : TerminalState) : ts.status.terminalState = some ts := by
  cases ts <;> rfl

namespace Cleaners

def initial (hasStaging : Bool) (maxConcurrentPods : Option Nat) : Cleaners where
  world := World.initial maxConcurrentPods
  owner := fun _ => none
  pending := .empty
  retries := fun _ _ => 0
  reconciling := fun _ => false
  finalizers := []
  hasStaging := hasStaging

/-- The owners after new threads have begun. -/
def spawn (m : Cleaners) (r : Option Nat) : Nat → Option Nat :=
  fun i => if m.world.threads.length ≤ i then r else m.owner i

def enqueueCleanup (m : Cleaners) (r : Nat) (j : UUID) (entry : Option TerminalState) : Cleaners :=
  { m with
    pending := (m.pending.erase (r, j)).insert ⟨r, j, entry⟩
    retries := Function.update m.retries r
      (Function.update (m.retries r) j (m.retries r j + 1)) }

/-- The finalizer `k` goes on. -/
def goto (m : Cleaners) (k : Nat) (f : Finalizer) (stage : Stage) : Cleaners :=
  { m with finalizers := m.finalizers.set k { f with stage := stage } }

/-- What popPendingCleanup can take from the map of the process: `jobs` is the choice that the
order of the map makes. -/
def popPendingCleanup (m : Cleaners) (r : Nat) (jobs : List UUID) : Option (List CleanupEntry) :=
  let queued := m.pending.rows.filter fun e => decide (e.replica = r)
  let popped := queued.filter fun e => decide (e.jobID ∈ jobs)
  if popped.length = min cleanupReconcileBatchSize queued.length then some popped else none

end Cleaners

/-- The first step of a finalizer: the empty string is resolved before finalizeJob is called. -/
def Stage.first : Option TerminalState → Stage
  | none => .countFailed false
  | some ts => .deleteStaging ts

/-- The step after determineCleaningTerminalState. -/
def Stage.derived (recovering : Bool) (ts : TerminalState) : Stage :=
  if recovering then .enqueue (some ts) else .deleteStaging ts

/-- The process of the replica can make the call. A finalization has a move of its own. -/
def Call.servedBy (r : Nat) : Call → Bool
  | .createJob s _ | .scheduleJob s _ | .getNextTask s _ _ _ _ | .renewLease s _ _ _ _
  | .completeTask s _ _ _ _ _ | .failTask s _ _ _ _ | .cancelJob s _ | .failStaleTasks s _ _
  | .recoverFailAttempts s | .recoverResetTasks s | .recoverWorkerPools s =>
    decide (s.replicaIndex = r)
  | .finalizeJob _ _ | .failRunningAttemptsByJob _ => false

/-- One step of a finalizer, with the outcome of the service that it calls. -/
inductive FinalizerStep where
  | count
  | countFails
  | deleteStaging (ok : Bool)
  | skipStaging
  | updateStatus (now : Time) (locked : Resource → Bool)
  | updateFails
  | cancelWorkers (ok : Bool)
  | enqueue

inductive CleanMove where
  | serve (r : Nat) (c : Call) (now : Time) (locked : Resource → Bool)
  | post (thread : Nat) (action : PostAction) (now : Time)
  | restart (r : Nat)
  | start (r : Nat) (ok : Bool)
  | tick (r : Nat) (jobs : List UUID)
  | finalizer (k : Nat) (step : FinalizerStep)

variable {a : CleanMove}

/-- The effect of an action on the map of its process. -/
def Cleaners.afterPost (m : Cleaners) (r : Nat) : PostAction → Cleaners
  | .enqueueCleanup j status => m.enqueueCleanup r j status.terminalState
  | _ => m

/-- The finalizers that the recovery at the start of the process begins. -/
def recoveries (db : DB) (r : Nat) : List Finalizer :=
  (db.jobs.rows.filter fun row => decide (row.status = .cleaning)).map fun row =>
    ⟨r, row.jobID, .countFailed true⟩

/-- The finalizer ends with its process. -/
def Finalizer.stop (r : Nat) (f : Finalizer) : Finalizer :=
  if f.replica = r then { f with stage := .done } else f

def Cleaners.finalizerNext (m : Cleaners) (k : Nat) (f : Finalizer) :
    Stage → FinalizerStep → Option Cleaners
  | .countFailed recovering, .count =>
    some (m.goto k f (if failedCount m.world.db f.jobID > 0 then .derived recovering .failed
      else .countPending recovering))
  | .countPending recovering, .count =>
    some (m.goto k f (.derived recovering
      (if pendingCount m.world.db f.jobID > 0 then .failed else .completed)))
  | .countFailed _, .countFails => some (m.goto k f (.enqueue none))
  | .countPending _, .countFails => some (m.goto k f (.enqueue none))
  | .deleteStaging ts, .deleteStaging ok =>
    if m.hasStaging = true ∧ m.retries f.replica f.jobID < maxCleanupRetries then
      some (m.goto k f (if ok then .updateStatus ts else .enqueue (some ts)))
    else none
  | .deleteStaging ts, .skipStaging =>
    if m.hasStaging = true ∧ m.retries f.replica f.jobID < maxCleanupRetries then none
    else some (m.goto k f (.updateStatus ts))
  | .updateStatus ts, .updateStatus now locked =>
    (next m.world (.call (.finalizeJob f.jobID ts) now locked)).map fun w =>
      { m.goto k f
          (if (perform (.finalizeJob f.jobID ts) now locked m.world.db).1.result.isOk then
            .cancelWorkers ts else .enqueue (some ts)) with
        world := w
        -- what the transaction leaves to do is done by the finalizer itself
        owner := m.spawn none }
  | .updateStatus ts, .updateFails => some (m.goto k f (.enqueue (some ts)))
  | .cancelWorkers ts, .cancelWorkers ok =>
    if ok then
      some { m.goto k f .done with
        retries := Function.update m.retries f.replica
          (Function.update (m.retries f.replica) f.jobID 0) }
    else some (m.goto k f (.enqueue (some ts)))
  | .enqueue entry, .enqueue => some ((m.goto k f .done).enqueueCleanup f.replica f.jobID entry)
  | _, _ => none

def clean (m : Cleaners) : CleanMove → Option Cleaners
  | .serve r c now locked =>
    if c.servedBy r then
      (next m.world (.call c now locked)).map fun w =>
        { m with world := w, owner := m.spawn (some r) }
    else none
  | .post i action now =>
    (m.owner i).bind fun r => (next m.world (.post i action now)).map fun w =>
      { m with world := w }.afterPost r action
  | .restart r =>
    (next m.world (.restart r)).map fun w =>
      { m with
        world := w
        owner := fun i => if m.owner i = some r then none else m.owner i
        pending := m.pending.deleteWhere fun e => decide (e.replica = r)
        retries := Function.update m.retries r fun _ => 0
        reconciling := Function.update m.reconciling r false
        finalizers := m.finalizers.map (Finalizer.stop r) }
  | .start r ok =>
    if m.world.phase r = .serving ∧ m.reconciling r = false then
      some { m with
        reconciling := Function.update m.reconciling r true
        finalizers := m.finalizers ++ if ok then recoveries m.world.db r else [] }
    else none
  | .tick r jobs =>
    -- the ticker waits for the recovery and for the finalizers of the tick before
    if m.reconciling r = true ∧ ∀ f ∈ m.finalizers, f.replica = r → f.stage = .done then
      (m.popPendingCleanup r jobs).map fun popped =>
        { m with
          pending := m.pending.deleteWhere fun e => decide (e ∈ popped)
          finalizers := m.finalizers ++
            popped.map fun e => ⟨r, e.jobID, .first e.terminalState⟩ }
    else none
  | .finalizer k step => m.finalizers[k]?.bind fun f => m.finalizerNext k f f.stage step

abbrev Cleans : Cleaners → CleanMove → Cleaners → Prop := Steps clean

/-! ## 2. What a move does -/

variable {m m' : Cleaners}

theorem cleans_serve {c : Call} (h : Cleans m (.serve r c now locked) m') :
    c.servedBy r = true ∧ Step m.world (.call c now locked) m'.world ∧
      m' = { m with world := m'.world, owner := m.spawn (some r) } := by
  simp only [Steps, clean] at h
  split at h
  · next hr =>
    obtain ⟨w, hw, rfl⟩ := Option.map_eq_some_iff.mp h
    exact ⟨hr, hw, rfl⟩
  · cases h

theorem cleans_post {i : Nat} {action : PostAction} (h : Cleans m (.post i action now) m') :
    ∃ r w, m.owner i = some r ∧ Step m.world (.post i action now) w ∧
      m' = { m with world := w }.afterPost r action := by
  obtain ⟨r, hr, h⟩ := Option.bind_eq_some_iff.mp h
  obtain ⟨w, hw, rfl⟩ := Option.map_eq_some_iff.mp h
  exact ⟨r, w, hr, hw, rfl⟩

theorem cleans_restart (h : Cleans m (.restart r) m') :
    Step m.world (.restart r) m'.world ∧
      m' = { m with
        world := m'.world
        owner := fun i => if m.owner i = some r then none else m.owner i
        pending := m.pending.deleteWhere fun e => decide (e.replica = r)
        retries := Function.update m.retries r fun _ => 0
        reconciling := Function.update m.reconciling r false
        finalizers := m.finalizers.map (Finalizer.stop r) } := by
  cases h
  exact ⟨rfl, rfl⟩

theorem cleans_start {ok : Bool} (h : Cleans m (.start r ok) m') :
    m.reconciling r = false ∧
      m' = { m with
        reconciling := Function.update m.reconciling r true
        finalizers := m.finalizers ++ if ok then recoveries m.world.db r else [] } := by
  simp only [Steps, clean] at h
  split at h
  · next hc =>
    cases h
    exact ⟨hc.2, rfl⟩
  · cases h

theorem cleans_tick {jobs : List UUID} (h : Cleans m (.tick r jobs) m') :
    ∃ popped : List CleanupEntry, (∀ e ∈ popped, e ∈ m.pending.rows ∧ e.replica = r) ∧
      m' = { m with
        pending := m.pending.deleteWhere fun e => decide (e ∈ popped)
        finalizers := m.finalizers ++
          popped.map fun e => ⟨r, e.jobID, .first e.terminalState⟩ } := by
  simp only [Steps, clean] at h
  split at h
  · obtain ⟨popped, hpop, rfl⟩ := Option.map_eq_some_iff.mp h
    refine ⟨popped, fun e he => ?_, rfl⟩
    simp only [Cleaners.popPendingCleanup] at hpop
    split at hpop
    · cases hpop
      obtain ⟨he, hr⟩ := List.mem_filter.mp (List.mem_filter.mp he).1
      exact ⟨he, of_decide_eq_true hr⟩
    · cases hpop
  · cases h

theorem cleans_finalizer {step : FinalizerStep} (h : Cleans m (.finalizer k step) m') :
    ∃ f, m.finalizers[k]? = some f ∧ m.finalizerNext k f f.stage step = some m' :=
  Option.bind_eq_some_iff.mp h

/-- The steps that a finalizer has at its stage, and where they lead. -/
inductive Finalizes (m : Cleaners) (k : Nat) (f : Finalizer) :
    Stage → FinalizerStep → Cleaners → Prop
  | countFailed (b : Bool) : Finalizes m k f (.countFailed b) .count
      (m.goto k f (if failedCount m.world.db f.jobID > 0 then .derived b .failed
        else .countPending b))
  | countPending (b : Bool) : Finalizes m k f (.countPending b) .count
      (m.goto k f (.derived b (if pendingCount m.world.db f.jobID > 0 then .failed
        else .completed)))
  | countFailedFails (b : Bool) :
      Finalizes m k f (.countFailed b) .countFails (m.goto k f (.enqueue none))
  | countPendingFails (b : Bool) :
      Finalizes m k f (.countPending b) .countFails (m.goto k f (.enqueue none))
  | deleteStaging (ts : TerminalState) (ok : Bool)
      (h : m.hasStaging = true ∧ m.retries f.replica f.jobID < maxCleanupRetries) :
      Finalizes m k f (.deleteStaging ts) (.deleteStaging ok)
        (m.goto k f (if ok then .updateStatus ts else .enqueue (some ts)))
  | skipStaging (ts : TerminalState)
      (h : ¬ (m.hasStaging = true ∧ m.retries f.replica f.jobID < maxCleanupRetries)) :
      Finalizes m k f (.deleteStaging ts) .skipStaging (m.goto k f (.updateStatus ts))
  | updateStatus (ts : TerminalState) (now : Time) (locked : Resource → Bool) (w : World)
      (h : Step m.world (.call (.finalizeJob f.jobID ts) now locked) w) :
      Finalizes m k f (.updateStatus ts) (.updateStatus now locked)
        { m.goto k f
            (if (perform (.finalizeJob f.jobID ts) now locked m.world.db).1.result.isOk then
              .cancelWorkers ts else .enqueue (some ts)) with
          world := w, owner := m.spawn none }
  | updateFails (ts : TerminalState) :
      Finalizes m k f (.updateStatus ts) .updateFails (m.goto k f (.enqueue (some ts)))
  | cancelWorkers (ts : TerminalState) : Finalizes m k f (.cancelWorkers ts) (.cancelWorkers true)
      { m.goto k f .done with
        retries := Function.update m.retries f.replica
          (Function.update (m.retries f.replica) f.jobID 0) }
  | cancelFails (ts : TerminalState) :
      Finalizes m k f (.cancelWorkers ts) (.cancelWorkers false) (m.goto k f (.enqueue (some ts)))
  | enqueue (entry : Option TerminalState) : Finalizes m k f (.enqueue entry) .enqueue
      ((m.goto k f .done).enqueueCleanup f.replica f.jobID entry)

theorem finalizerNext_cases {f : Finalizer} {step : FinalizerStep}
    (h : m.finalizerNext k f stage step = some m') : Finalizes m k f stage step m' := by
  cases stage with
  | countFailed b =>
    cases step <;> cases h
    · exact .countFailed b
    · exact .countFailedFails b
  | countPending b =>
    cases step <;> cases h
    · exact .countPending b
    · exact .countPendingFails b
  | deleteStaging ts =>
    cases step with
    | deleteStaging ok =>
      simp only [Cleaners.finalizerNext] at h
      split at h <;> cases h
      exact .deleteStaging ts ok ‹_›
    | skipStaging =>
      simp only [Cleaners.finalizerNext] at h
      split at h <;> cases h
      exact .skipStaging ts ‹_›
    | _ => cases h
  | updateStatus ts =>
    cases step with
    | updateStatus now locked =>
      obtain ⟨w, hw, rfl⟩ := Option.map_eq_some_iff.mp h
      exact .updateStatus ts now locked w hw
    | updateFails =>
      cases h
      exact .updateFails ts
    | _ => cases h
  | cancelWorkers ts =>
    cases step with
    | cancelWorkers ok =>
      cases ok <;> cases h
      · exact .cancelFails ts
      · exact .cancelWorkers ts
    | _ => cases h
  | enqueue entry =>
    cases step <;> cases h
    exact .enqueue entry
  | done => cases step <;> cases h

/-! ## 3. What the live processes hold -/

/-- The entry that the action puts into the map. -/
def PostAction.entry : PostAction → Option (UUID × Option TerminalState)
  | .enqueueCleanup j status => some (j, status.terminalState)
  | _ => none

/-- The entry that the finalizer was started with, or has derived. -/
def Stage.entry : Stage → Option (Option TerminalState)
  | .countFailed _ | .countPending _ => some none
  | .deleteStaging ts | .updateStatus ts | .cancelWorkers ts => some (some ts)
  | .enqueue entry => some entry
  | .done => none

@[simp] theorem entry_first (e : Option TerminalState) : (Stage.first e).entry = some e := by
  cases e <;> rfl

@[simp] theorem entry_derived (recovering : Bool) (ts : TerminalState) :
    (Stage.derived recovering ts).entry = some (some ts) := by
  cases recovering <;> rfl

namespace Cleaners

/-- A live process holds this entry for the job: it is in the map, an operation is about to put
it there, or a finalizer has it. -/
def Holds (m : Cleaners) (j : UUID) (e : Option TerminalState) : Prop :=
  (∃ x ∈ m.pending.rows, x.jobID = j ∧ x.terminalState = e) ∨
  (∃ i < m.world.threads.length, m.owner i ≠ none ∧
    ∃ act ∈ m.world.threads.getD i [], act.entry = some (j, e)) ∨
  ∃ f ∈ m.finalizers, f.jobID = j ∧ f.stage.entry = some e

instance (m : Cleaners) (j : UUID) (e : Option TerminalState) : Decidable (m.Holds j e) := by
  unfold Holds
  infer_instance

variable {j : UUID} {e : Option TerminalState} {r k : Nat} {f : Finalizer}

theorem holds_of_finalizer (hk : m.finalizers[k]? = some f) (he : f.stage.entry = some e) :
    m.Holds f.jobID e :=
  .inr (.inr ⟨f, List.mem_of_getElem? hk, rfl, he⟩)

theorem holds_enqueue {j' : UUID} {e' : Option TerminalState}
    (h : (m.enqueueCleanup r j' e').Holds j e) : m.Holds j e ∨ j = j' ∧ e = e' := by
  rcases h with ⟨x, hx, hj, he⟩ | h
  · rcases Table.mem_of_mem_insert hx with hx | rfl
    · exact .inl (.inl ⟨x, (Table.mem_erase.mp hx).1, hj, he⟩)
    · exact .inr ⟨hj.symm, he.symm⟩
  · exact .inl (.inr h)

theorem holds_goto (h : (m.goto k f stage).Holds j e) :
    m.Holds j e ∨ j = f.jobID ∧ stage.entry = some e := by
  rcases h with h | h | ⟨x, hx, hj, he⟩
  · exact .inl (.inl h)
  · exact .inl (.inr (.inl h))
  · rcases List.mem_or_eq_of_mem_set hx with hx | rfl
    · exact .inl (.inr (.inr ⟨x, hx, hj, he⟩))
    · exact .inr ⟨hj.symm, he⟩

/-- A step of a finalizer that keeps or drops its entry. -/
theorem holds_goto_same (hk : m.finalizers[k]? = some f)
    (hs : ∀ e, stage.entry = some e → f.stage.entry = some e) (h : (m.goto k f stage).Holds j e) :
    m.Holds j e := by
  rcases holds_goto h with h | ⟨rfl, he⟩
  · exact h
  · exact holds_of_finalizer hk (hs e he)

/-- After a call its threads hold what they are about to put into the map. -/
theorem holds_spawn {w : World} {post : List (List PostAction)} {o : Option Nat}
    (hw : w.threads = m.world.threads ++ post)
    (h : { m with world := w, owner := m.spawn o }.Holds j e) :
    m.Holds j e ∨ o ≠ none ∧ ∃ thread ∈ post, ∃ act ∈ thread, act.entry = some (j, e) := by
  rcases h with h | ⟨i, hi, ho, act, ha, he⟩ | h
  · exact .inl (.inl h)
  · dsimp only at hi ho ha
    rw [hw, List.length_append] at hi
    rw [hw, List.getD_eq_getElem?_getD] at ha
    by_cases hlt : m.world.threads.length ≤ i
    · rw [spawn, if_pos hlt] at ho
      rw [List.getElem?_append_right hlt, List.getElem?_eq_getElem (by omega),
        Option.getD_some] at ha
      exact .inr ⟨ho, _, List.getElem_mem _, act, ha, he⟩
    · rw [spawn, if_neg hlt] at ho
      rw [List.getElem?_append_left (Nat.not_le.mp hlt), ← List.getD_eq_getElem?_getD] at ha
      exact .inl (.inr (.inl ⟨i, Nat.not_le.mp hlt, ho, act, ha, he⟩))
  · exact .inl (.inr (.inr h))

/-- An action puts its entry into the map, where it was about to be put. -/
theorem holds_afterPost {w : World} {i : Nat} {action : PostAction} {rest : List PostAction}
    (hi : m.world.threads[i]? = some (action :: rest)) (ho : m.owner i = some r)
    (hw : w.threads = m.world.threads.set i rest)
    (h : ({ m with world := w }.afterPost r action).Holds j e) : m.Holds j e := by
  have hact : ∀ act ∈ action :: rest, act.entry = some (j, e) → m.Holds j e := by
    intro act ha he
    refine .inr (.inl ⟨i, (List.getElem?_eq_some_iff.mp hi).1, by simp [ho], act, ?_, he⟩)
    rw [List.getD_eq_getElem?_getD, hi]
    exact ha
  have hset : { m with world := w }.Holds j e → m.Holds j e := by
    rintro (h | ⟨i', hi', ho', act, ha, he⟩ | h)
    · exact .inl h
    · dsimp only at hi' ho' ha
      rw [hw, List.length_set] at hi'
      rw [hw, List.getD_eq_getElem?_getD, List.getElem?_set] at ha
      by_cases hii : i = i'
      · rw [if_pos hii, if_pos (hii ▸ hi'), Option.getD_some] at ha
        exact hact act (List.mem_cons_of_mem _ ha) he
      · rw [if_neg hii, ← List.getD_eq_getElem?_getD] at ha
        exact .inr (.inl ⟨i', hi', ho', act, ha, he⟩)
    · exact .inr (.inr h)
  cases action with
  | enqueueCleanup j' status =>
    rcases holds_enqueue h with h | ⟨rfl, rfl⟩
    · exact hset h
    · exact hact _ List.mem_cons_self rfl
  | _ => exact hset h

theorem holds_restart {m' : Cleaners} (hm : Cleans m (.restart r) m') (h : m'.Holds j e) :
    m.Holds j e := by
  obtain ⟨hs, hm'⟩ := cleans_restart hm
  have hw : m'.world.threads = m.world.threads := by rw [step_restart hs]
  rw [hm'] at h
  rcases h with ⟨x, hx, hj, he⟩ | ⟨i, hi, ho, act, ha, he⟩ | ⟨f, hf, hj, he⟩
  · exact .inl ⟨x, List.mem_of_mem_filter hx, hj, he⟩
  · refine .inr (.inl ⟨i, hw ▸ hi, fun hn => ho ?_, act, ?_, he⟩)
    · dsimp only
      rw [hn, ite_self]
    · rw [← hw]
      exact ha
  · obtain ⟨f', hf', rfl⟩ := List.mem_map.mp hf
    unfold Finalizer.stop at hj he
    split at he
    · cases he
    · next hr =>
      rw [if_neg hr] at hj
      exact .inr (.inr ⟨f', hf', hj, he⟩)

theorem holds_start {b : Nat → Bool} {ok : Bool}
    (h : Holds { m with
        reconciling := b
        finalizers := m.finalizers ++ if ok then recoveries m.world.db r else [] } j e) :
    m.Holds j e ∨ e = none ∧ m.world.db.jobStatus j = some .cleaning := by
  rcases h with h | h | ⟨f, hf, hj, he⟩
  · exact .inl (.inl h)
  · exact .inl (.inr (.inl h))
  · rcases List.mem_append.mp hf with hf | hf
    · exact .inl (.inr (.inr ⟨f, hf, hj, he⟩))
    · split at hf
      · obtain ⟨row, hrow, rfl⟩ := List.mem_map.mp hf
        obtain ⟨hrow, hcl⟩ := List.mem_filter.mp hrow
        subst hj
        refine .inr ⟨(Option.some.inj he).symm, ?_⟩
        rw [DB.jobStatus, Table.mem_rows_iff.mp hrow, Option.map_some, of_decide_eq_true hcl]
      · cases hf

theorem holds_tick {popped : List CleanupEntry} (hp : ∀ x ∈ popped, x ∈ m.pending.rows)
    (h : Holds { m with
        pending := m.pending.deleteWhere fun e => decide (e ∈ popped)
        finalizers := m.finalizers ++
          popped.map fun e => ⟨r, e.jobID, .first e.terminalState⟩ } j e) : m.Holds j e := by
  rcases h with ⟨x, hx, hj, he⟩ | h | ⟨f, hf, hj, he⟩
  · exact .inl ⟨x, List.mem_of_mem_filter hx, hj, he⟩
  · exact .inr (.inl h)
  · rcases List.mem_append.mp hf with hf | hf
    · exact .inr (.inr ⟨f, hf, hj, he⟩)
    · obtain ⟨x, hx, rfl⟩ := List.mem_map.mp hf
      rw [entry_first] at he
      exact .inl ⟨x, hp x hx, hj, Option.some.inj he⟩

end Cleaners

/-- What a step of a finalizer does: it keeps or drops the entry, answers a query of
determineCleaningTerminalState, or runs the transaction of finalizeJob. -/
theorem finalizer_cases {f : Finalizer} {step : FinalizerStep} (hk : m.finalizers[k]? = some f)
    (h : m.finalizerNext k f f.stage step = some m') :
    (m'.world = m.world ∧ (∀ j e, m'.Holds j e → m.Holds j e) ∧
      ∀ g ∈ m'.finalizers, ∀ b, g.stage = .countPending b → g ∈ m.finalizers) ∨
    (∃ stage, step = .count ∧ m' = m.goto k f stage ∧
      ((∃ b, f.stage = .countFailed b ∧ m.world.db.HasFailed f.jobID ∧
          stage = .derived b .failed) ∨
        (∃ b, f.stage = .countFailed b ∧ ¬ m.world.db.HasFailed f.jobID ∧
          stage = .countPending b) ∨
        ∃ b, f.stage = .countPending b ∧ stage = .derived b
          (if pendingCount m.world.db f.jobID > 0 then .failed else .completed))) ∨
    ∃ ts now locked, f.stage = .updateStatus ts ∧ step = .updateStatus now locked ∧
      Step m.world (.call (.finalizeJob f.jobID ts) now locked) m'.world ∧
      m' = { m.goto k f
          (if (perform (.finalizeJob f.jobID ts) now locked m.world.db).1.result.isOk then
            .cancelWorkers ts else .enqueue (some ts)) with
        world := m'.world, owner := m.spawn none } := by
  generalize hstage : f.stage = stage at h ⊢
  have hgoto : ∀ {stage' : Stage} {ret : Nat → UUID → Nat},
      (∀ e, stage'.entry = some e → stage.entry = some e) → (∀ b, stage' ≠ .countPending b) →
      m' = { m.goto k f stage' with retries := ret } →
      m'.world = m.world ∧ (∀ j e, m'.Holds j e → m.Holds j e) ∧
        ∀ g ∈ m'.finalizers, ∀ b, g.stage = .countPending b → g ∈ m.finalizers := by
    rintro stage' ret hs hb rfl
    subst hstage
    refine ⟨rfl, fun j e he => Cleaners.holds_goto_same hk hs he, fun g hg b hgb => ?_⟩
    rcases List.mem_or_eq_of_mem_set hg with hg | rfl
    · exact hg
    · exact absurd hgb (hb b)
  cases finalizerNext_cases h with
  | countFailed b =>
    refine .inr (.inl ⟨_, rfl, rfl, ?_⟩)
    by_cases hf : m.world.db.HasFailed f.jobID
    · exact .inl ⟨b, rfl, hf, if_pos (Nat.pos_of_ne_zero fun hz => failedCount_eq_zero.mp hz hf)⟩
    · refine .inr (.inl ⟨b, rfl, hf, if_neg ?_⟩)
      rw [failedCount_eq_zero.mpr hf]
      exact Nat.lt_irrefl 0
  | countPending b => exact .inr (.inl ⟨_, rfl, rfl, .inr (.inr ⟨b, rfl, rfl⟩)⟩)
  | deleteStaging ts ok _ =>
    refine .inl (hgoto ?_ ?_ rfl) <;> cases ok <;> simp [Stage.entry]
  | updateStatus ts now locked w hw => exact .inr (.inr ⟨ts, now, locked, rfl, rfl, hw, rfl⟩)
  | enqueue entry =>
    refine .inl ⟨rfl, fun j e he => ?_, fun g hg b hgb => ?_⟩
    · rcases Cleaners.holds_enqueue he with he | ⟨rfl, rfl⟩
      · exact Cleaners.holds_goto_same hk (by simp [Stage.entry]) he
      · exact Cleaners.holds_of_finalizer hk (by rw [hstage]; rfl)
    · rcases List.mem_or_eq_of_mem_set hg with hg | rfl
      · exact hg
      · cases hgb
  | _ => exact .inl (hgoto (by simp [Stage.entry]) (by simp) rfl)

/-! ## 4. What a move does to a job -/

/-- A finalizer of the job has counted no Failed task and is about to count the others. -/
def Cleaners.Counting (m : Cleaners) (j : UUID) : Prop :=
  ∃ f ∈ m.finalizers, f.jobID = j ∧ ∃ b, f.stage = .countPending b

theorem Cleaners.Counting.holds (h : m.Counting j) : m.Holds j none := by
  obtain ⟨f, hf, hj, b, hb⟩ := h
  exact .inr (.inr ⟨f, hf, hj, by rw [hb]; rfl⟩)

theorem counting_of (h : ∀ g ∈ m'.finalizers, ∀ b, g.stage = .countPending b → g ∈ m.finalizers)
    (hc : m'.Counting j) : m.Counting j := by
  obtain ⟨f, hf, hj, b, hb⟩ := hc
  exact ⟨f, h f hf b hb, hj, b, hb⟩

/-- What a move does to one job: its status and the entries that are held for it. -/
inductive Effect (m m' : Cleaners) (j : UUID) : CleanMove → Prop
  /-- No new entry; the status stays, the job is new, or it goes to Running while its tasks do
  not say yet how it ends. -/
  | passes {a : CleanMove}
      (status : m'.world.db.jobStatus j = m.world.db.jobStatus j ∨
        m.world.db.jobStatus j = none ∧ m'.world.db.jobStatus j = some .pending ∨
        m'.world.db.jobStatus j = some .running ∧ ¬ Decided m.world.db j)
      (holds : ∀ e, m'.Holds j e → m.Holds j e) (counting : m'.Counting j → m.Counting j) :
      Effect m m' j a
  /-- An operation moves the job to Cleaning. -/
  | closes {r : Nat} {c : Call} {now : Time} {locked : Resource → Bool} {ts : TerminalState}
      (closes : ClosesAs c now locked m.world.db j ts)
      (db : m'.world.db = (perform c now locked m.world.db).2)
      (holds : ∀ e, m'.Holds j e → m.Holds j e ∨ e = some ts)
      (counting : m'.Counting j → m.Counting j) : Effect m m' j (.serve r c now locked)
  /-- A process that starts finds the job Cleaning. -/
  | starts {r : Nat} (cleaning : m.world.db.jobStatus j = some .cleaning)
      (world : m'.world = m.world) (holds : ∀ e, m'.Holds j e → m.Holds j e ∨ e = none)
      (counting : m'.Counting j → m.Counting j) : Effect m m' j (.start r true)
  /-- A finalizer of the job has counted no Failed task. -/
  | counts {k : Nat} (none : m.Holds j none) (sound : ¬ m.world.db.HasFailed j)
      (world : m'.world = m.world) (holds : ∀ e, m'.Holds j e → m.Holds j e) :
      Effect m m' j (.finalizer k .count)
  /-- A finalizer of the job has derived its state. -/
  | derives {k : Nat} {ts : TerminalState} (none : m.Holds j none)
      (state : ts = .failed ∧ m.world.db.HasFailed j ∨
        (∃ f ∈ m.finalizers[k]?, f.jobID = j ∧ ∃ b, f.stage = .countPending b) ∧
        ts = if pendingCount m.world.db j > 0 then .failed else .completed)
      (world : m'.world = m.world) (holds : ∀ e, m'.Holds j e → m.Holds j e ∨ e = some ts)
      (counting : m'.Counting j → m.Counting j) : Effect m m' j (.finalizer k .count)
  /-- A finalizer runs the transaction of finalizeJob. -/
  | finalizes {k : Nat} {ts : TerminalState} {now : Time} {locked : Resource → Bool}
      (held : m.Holds j (some ts))
      (step : Step m.world (.call (.finalizeJob j ts) now locked) m'.world)
      (holds : ∀ e, m'.Holds j e → m.Holds j e) (counting : m'.Counting j → m.Counting j) :
      Effect m m' j (.finalizer k (.updateStatus now locked))

/-- A step that is not a call leaves the statuses of the jobs as they are. -/
theorem status_other {w w' : World} {a : Label} (h : Step w a w')
    (ha : ∀ c now locked, a ≠ .call c now locked) (j : UUID) :
    w'.db.jobStatus j = w.db.jobStatus j ∨
      w.db.jobStatus j = none ∧ w'.db.jobStatus j = some .pending := by
  obtain ⟨now, cs, _, hcs, hm⟩ := step_changes h
  refine jobStatus_kept hcs fun status hst => ?_
  rcases hm _ hst with ⟨_, s, worker, att, lease, now', locked, rfl⟩ | ⟨_, hcl⟩ |
    ⟨ts, now', locked, rfl, _⟩
  · exact ha _ _ _ rfl
  · cases a with
    | call c now' locked => exact ha _ _ _ rfl
    | _ => exact hcl
  · exact ha _ _ _ rfl

theorem serve_effect {c : Call} (h : Cleans m (.serve r c now locked) m') (j : UUID) :
    Effect m m' j (.serve r c now locked) := by
  obtain ⟨hr, hs, hm'⟩ := cleans_serve h
  obtain ⟨_, _, hdb, _, _, hthreads⟩ := step_call hs
  have hfin : ∀ ts, c ≠ .finalizeJob j ts := by
    rintro ts rfl
    cases hr
  have hcount : m'.Counting j → m.Counting j := by
    refine counting_of fun g hg _ _ => ?_
    rw [hm'] at hg
    exact hg
  have hholds : ∀ e, m'.Holds j e → m.Holds j e ∨
      ∃ status, Records c now locked m.world.db j status ∧ status.terminalState = e := by
    intro e he
    rw [hm'] at he
    rcases Cleaners.holds_spawn hthreads he with he | ⟨_, thread, ht, act, ha, hact⟩
    · exact .inl he
    · cases act with
      | enqueueCleanup j' status =>
        cases hact
        exact .inr ⟨status, ⟨thread, ht, ha⟩, rfl⟩
      | _ => cases hact
  rcases call_effect c now locked m.world.db j hfin with hp | ⟨ts, hts⟩
  · refine .passes (hdb ▸ hp.status) (fun e he => (hholds e he).resolve_right ?_) hcount
    rintro ⟨status, hrec, _⟩
    exact hp.silent status hrec
  · refine .closes hts hdb (fun e he => (hholds e he).imp_right ?_) hcount
    rintro ⟨status, hrec, rfl⟩
    rw [hts.only status hrec, terminalState_status]

theorem finalizer_effect {step : FinalizerStep} (h : Cleans m (.finalizer k step) m') (j : UUID) :
    Effect m m' j (.finalizer k step) := by
  obtain ⟨f, hk, hnext⟩ := cleans_finalizer h
  rcases finalizer_cases hk hnext with ⟨hw, hholds, hcount⟩ | ⟨stage, rfl, rfl, hstage⟩ |
    ⟨ts, now, locked, hts, rfl, hs, hm'⟩
  · exact .passes (.inl (by rw [hw])) (hholds j) (counting_of hcount)
  · have hcount : f.jobID ≠ j ∨ (∀ b, stage ≠ .countPending b) →
        (m.goto k f stage).Counting j → m.Counting j := by
      rintro hne ⟨g, hg, hj, b, hb⟩
      rcases List.mem_or_eq_of_mem_set hg with hg | rfl
      · exact ⟨g, hg, hj, b, hb⟩
      · exact (hne.elim (absurd hj) fun h => absurd hb (h b))
    by_cases hj : f.jobID = j
    · subst hj
      have hnone : f.stage.entry = some none → m.Holds f.jobID none :=
        Cleaners.holds_of_finalizer hk
      have hholds : ∀ ts, stage.entry = some (some ts) → ∀ e, (m.goto k f stage).Holds f.jobID e →
          m.Holds f.jobID e ∨ e = some ts := by
        intro ts hts e he
        refine (Cleaners.holds_goto he).imp_right fun he' => ?_
        exact Option.some.inj (he'.2.symm.trans hts)
      rcases hstage with ⟨b, hb, hf, rfl⟩ | ⟨b, hb, hf, rfl⟩ | ⟨b, hb, rfl⟩
      · refine .derives (hnone (by rw [hb]; rfl)) (.inl ⟨rfl, hf⟩) rfl
          (hholds _ (entry_derived _ _)) (hcount (.inr fun b' => ?_))
        cases b <;> simp [Stage.derived]
      · refine .counts (hnone (by rw [hb]; rfl)) hf rfl fun e => Cleaners.holds_goto_same hk ?_
        rw [hb]
        exact fun _ => id
      · refine .derives (hnone (by rw [hb]; rfl))
          (.inr ⟨⟨f, hk, rfl, b, hb⟩, rfl⟩) rfl
          (hholds _ (entry_derived _ _)) (hcount (.inr fun b' => ?_))
        cases b <;> simp [Stage.derived]
    · -- the counts for another job do not matter
      exact .passes (.inl rfl) (fun e he => (Cleaners.holds_goto he).resolve_right
        fun h => hj h.1.symm) (hcount (.inl hj))
  · obtain ⟨_, _, hdb, _, _, hthreads⟩ := step_call hs
    have hholds : ∀ e, m'.Holds j e → m.Holds j e := by
      intro e he
      rw [hm'] at he
      rcases Cleaners.holds_spawn (m := m.goto k f _) hthreads he with he | ⟨hn, _⟩
      · refine Cleaners.holds_goto_same hk ?_ he
        rw [hts]
        split <;> exact fun _ => id
      · exact absurd rfl hn
    have hcount : m'.Counting j → m.Counting j := by
      refine counting_of fun g hg b hb => ?_
      rw [hm'] at hg
      rcases List.mem_or_eq_of_mem_set hg with hg | rfl
      · exact hg
      · dsimp only at hb
        split at hb <;> cases hb
    by_cases hj : f.jobID = j
    · subst hj
      exact .finalizes (Cleaners.holds_of_finalizer hk (by rw [hts]; rfl)) hs hholds hcount
    · exact .passes (hdb ▸ (finalizeJob_passes ts hj).status) hholds hcount

theorem cleans_effect (h : Cleans m a m') (j : UUID) : Effect m m' j a := by
  cases a with
  | serve r c now locked => exact serve_effect h j
  | post i action now =>
    obtain ⟨r, w, howner, hs, rfl⟩ := cleans_post h
    obtain ⟨rest, hi, _, _, _, _, hthreads⟩ := step_post hs
    have hw : ({ m with world := w }.afterPost r action).world = w := by cases action <;> rfl
    have hfs : ({ m with world := w }.afterPost r action).finalizers = m.finalizers := by
      cases action <;> rfl
    refine .passes ?_ (fun e he => Cleaners.holds_afterPost hi howner hthreads he)
      (counting_of fun g hg _ _ => hfs ▸ hg)
    rw [hw]
    exact (status_other hs (by simp) j).imp_right .inl
  | restart r =>
    obtain ⟨hs, hm'⟩ := cleans_restart h
    refine .passes ((status_other hs (by simp) j).imp_right .inl)
      (fun e he => Cleaners.holds_restart h he) (counting_of fun g hg b hb => ?_)
    rw [hm'] at hg
    obtain ⟨g', hg', rfl⟩ := List.mem_map.mp hg
    unfold Finalizer.stop at hb ⊢
    split
    · next hr =>
      rw [if_pos hr] at hb
      cases hb
    · exact hg'
  | start r ok =>
    obtain ⟨_, rfl⟩ := cleans_start h
    have hcount : Cleaners.Counting { m with
        reconciling := Function.update m.reconciling r true
        finalizers := m.finalizers ++ if ok then recoveries m.world.db r else [] } j →
        m.Counting j := by
      refine counting_of fun g hg b hb => ?_
      rcases List.mem_append.mp hg with hg | hg
      · exact hg
      · split at hg
        · obtain ⟨row, _, rfl⟩ := List.mem_map.mp hg
          cases hb
        · cases hg
    by_cases hcl : ok = true ∧ m.world.db.jobStatus j = some .cleaning
    · obtain ⟨rfl, hcl⟩ := hcl
      exact .starts hcl rfl (fun e he => (Cleaners.holds_start he).imp_right And.left) hcount
    · refine .passes (.inl rfl) (fun e he => ?_) hcount
      cases ok with
      | false =>
        rw [if_neg (by simp), List.append_nil] at he
        exact he
      | true => exact (Cleaners.holds_start he).resolve_right fun h => hcl ⟨rfl, h.2⟩
  | tick r jobs =>
    obtain ⟨popped, hp, rfl⟩ := cleans_tick h
    refine .passes (.inl rfl) (fun e he => Cleaners.holds_tick (fun x hx => (hp x hx).1) he)
      (counting_of fun g hg b hb => ?_)
    rcases List.mem_append.mp hg with hg | hg
    · exact hg
    · obtain ⟨x, _, rfl⟩ := List.mem_map.mp hg
      dsimp only at hb
      cases hx : x.terminalState with
      | none =>
        rw [hx] at hb
        cases hb
      | some ts =>
        rw [hx] at hb
        cases hb
  | finalizer k step => exact finalizer_effect h j

/-- The step is no call that a process serves. -/
def Label.Internal : Label → Prop
  | .call (.finalizeJob _ _) _ _ => True
  | .call _ _ _ => False
  | .post _ _ _ => True
  | .restart _ => True

/-- Every move serves a call, is another step of the cluster, or leaves it as it is. -/
theorem cleans_world (h : Cleans m a m') :
    m'.world = m.world ∨
    (∃ r c now locked, a = .serve r c now locked ∧
      Step m.world (.call c now locked) m'.world) ∨
    ∃ l : Label, l.Internal ∧ Step m.world l m'.world := by
  cases a with
  | serve r c now locked => exact .inr (.inl ⟨r, c, now, locked, rfl, (cleans_serve h).2.1⟩)
  | post i action now =>
    obtain ⟨r, w, _, hs, rfl⟩ := cleans_post h
    have hw : ({ m with world := w }.afterPost r action).world = w := by cases action <;> rfl
    exact .inr (.inr ⟨.post i action now, trivial, hw.symm ▸ hs⟩)
  | restart r => exact .inr (.inr ⟨.restart r, trivial, (cleans_restart h).1⟩)
  | start r ok =>
    obtain ⟨_, rfl⟩ := cleans_start h
    exact .inl rfl
  | tick r jobs =>
    obtain ⟨popped, _, rfl⟩ := cleans_tick h
    exact .inl rfl
  | finalizer k step =>
    obtain ⟨f, hk, hnext⟩ := cleans_finalizer h
    rcases finalizer_cases hk hnext with ⟨hw, _⟩ | ⟨_, _, rfl, _⟩ | ⟨ts, now, locked, _, _, hs, _⟩
    · exact .inl hw
    · exact .inl rfl
    · exact .inr (.inr ⟨.call (.finalizeJob f.jobID ts) now locked, trivial, hs⟩)

/-- The move is a ScheduleJob call that adds tasks to the job. -/
def Schedules (m : Cleaners) (j : UUID) : CleanMove → Prop
  | .serve _ (.scheduleJob s req) now locked =>
    (perform (.scheduleJob s req) now locked m.world.db).1.result.isOk = true ∧
      s.uuidParse req.jobID = some j
  | _ => False

theorem cleans_spares (h : Cleans m a m') (hn : ¬ Schedules m j a) :
    ∃ now cs, Changes now m.world.db cs m'.world.db ∧ ∀ c ∈ cs, c.Spares j := by
  rcases cleans_world h with hw | ⟨r, c, now, locked, rfl, hs⟩ | ⟨l, hl, hs⟩
  · refine ⟨0, [], ?_, by simp⟩
    rw [hw]
    exact .nil _
  · refine spares_step hs ?_
    cases c with
    | scheduleJob s req => exact fun hok hj => hn ⟨hok, hj⟩
    | _ => trivial
  · refine spares_step hs ?_
    cases l with
    | call c now locked => cases c <;> trivial
    | _ => trivial

end KubeMapReduce
