import KubeMapReduce.Cluster

/-!
# The task stream

A worker and the manager exchange frames over one stream. The Run loop asks for a task,
executes it and reports it; while it executes, a heartbeat goroutine sends a heartbeat and
reads the frames that come in. The handler of the manager answers the requests one after the
other. An answer does not say which request it belongs to.

After a report the Run loop sends Ready before it has read the answer to the report, takes
this answer for the answer to Ready and sends Ready again. From then on one Ready too many
is under way: a task is granted while another one is executed, and the heartbeat goroutine
reads its assignment and drops it (`assignment_dropped`).

* `taskStream`: the steps of the worker and of the handler, over the cluster.
* `OneTask`, `oneTask_step`: where the task of the worker is.
* `one_task`: the worker has at most one task and no assignment is dropped, in a run in which
  a task is granted only to a Run loop that waits for it, and executeTask never returns
  without a report.
-/

namespace KubeMapReduce

open Tables Runs

variable {assignable : Bool} {locked : Resource → Bool}

/-! ## 1. Frames -/

/-- What an assignment says about its attempt. -/
structure Assignment where
  taskID : UUID
  attemptID : UUID
  leaseID : UUID
deriving DecidableEq

inductive StreamRequest where
  | ready
  | heartbeat (a : Assignment)
  | complete (a : Assignment) (outputLocations outputChecksums : List String)
  | failed (a : Assignment) (errorMessage : String)
deriving DecidableEq

variable {r : StreamRequest}

inductive StreamResponse where
  | assignment (a : Assignment)
  | heartbeatAck (terminate : Bool)
  | ack (success : Bool)
deriving DecidableEq

def StreamResponse.getAssignment : StreamResponse → Option Assignment
  | .assignment a => some a
  | _ => none

/-- The manager of the stream, and what the worker is configured with. -/
structure Pool where
  scheduler : Scheduler
  jobID : UUID
  workerID : String

/-- The operation that the handler calls for a request. -/
def StreamRequest.call (P : Pool) (attemptID leaseID : UUID) (sampled : Bool) :
    StreamRequest → Call
  | .ready => .getNextTask P.scheduler P.jobID P.workerID attemptID leaseID
  | .heartbeat a => .renewLease P.scheduler a.taskID a.attemptID a.leaseID sampled
  | .complete a us cks => .completeTask P.scheduler a.taskID a.attemptID a.leaseID us cks
  | .failed a e => .failTask P.scheduler a.taskID a.attemptID a.leaseID e

/-- The task that GetNextTask has granted. -/
def StreamRequest.grant : StreamRequest → Except Err Reply → Option Assignment
  | .ready, .ok (.task t) => some ⟨t.id, t.activeAttemptID, t.leaseID⟩
  | _, _ => none

/-- The frame that the handler sends for the result; without one it returns an error and the
stream ends. `assignable` is whether applyManifestFallback succeeds. -/
def StreamRequest.respond (assignable : Bool) :
    StreamRequest → Except Err Reply → Option StreamResponse
  | .ready, .error .noIdleTasks => some (.ack false)
  | .ready, .error .jobCompleted => some (.ack false)
  | .ready, .error .jobFailed => some (.ack false)
  | .ready, result =>
    if assignable then (StreamRequest.ready.grant result).map .assignment else none
  | .heartbeat _, .ok _ => some (.heartbeatAck false)
  | .heartbeat _, .error .taskNotFound => some (.heartbeatAck true)
  | .heartbeat _, .error .staleAttempt => some (.heartbeatAck true)
  | .heartbeat _, .error .expiredLease => some (.heartbeatAck true)
  | .heartbeat _, .error .invalidStateTransition => some (.heartbeatAck true)
  | .heartbeat _, .error _ => none
  | .complete _ _ _, .ok _ => some (.ack true)
  | .complete _ _ _, .error _ => none
  | .failed _ _, .ok _ => some (.ack true)
  | .failed _ _, .error _ => none

/-! ## 2. Steps -/

/-- Where the heartbeat goroutine of a task is. -/
inductive HeartbeatLoop where
  /-- It waits for the ticker. -/
  | idle
  /-- It has sent a heartbeat and reads frames. -/
  | reading
  | returned
deriving DecidableEq

/-- Where the Run loop is. -/
inductive RunLoop where
  /-- It sends Ready next. -/
  | top
  | receiving
  /-- executeTask has been called and the task has not been started. -/
  | starting (a : Assignment)
  | executing (a : Assignment) (heartbeat : HeartbeatLoop)
  | returned
deriving DecidableEq

/-- The task that executeTask has. -/
def RunLoop.task : RunLoop → Option Assignment
  | .starting a => some a
  | .executing a _ => some a
  | _ => none

structure TaskStream where
  world : World
  worker : RunLoop
  /-- The requests that the handler has not received, oldest first. -/
  requests : List StreamRequest
  /-- The responses that the worker has not read, on the stream or in recvCh. -/
  responses : List StreamResponse
  /-- The handler has not returned and the connection stands. -/
  live : Bool
  /-- The tasks that GetNextTask has granted and the worker has not reported. -/
  unreported : List Assignment
  /-- The assignments that the handler has sent. -/
  assigned : List Assignment
  /-- The assignments that executeTask was called with. -/
  executed : List Assignment

namespace TaskStream

def initial (maxConcurrentPods : Option Nat) : TaskStream :=
  ⟨World.initial maxConcurrentPods, .top, [], [], true, [], [], []⟩

/-- The assignments that the worker has not read. -/
def unread (st : TaskStream) : List Assignment :=
  st.responses.filterMap StreamResponse.getAssignment

def sendReady (st : TaskStream) : Option TaskStream :=
  match st.worker with
  | .top =>
    if st.live then some { st with worker := .receiving, requests := st.requests ++ [.ready] }
    else some { st with worker := .returned }
  | _ => none

/-- The Run loop reads a frame: any other than an assignment sends it back to its top. -/
def receive (st : TaskStream) : Option TaskStream :=
  match st.worker, st.responses with
  | .receiving, .assignment a :: rest =>
    some { st with
      worker := .starting a
      responses := rest
      executed := st.executed ++ [a] }
  | .receiving, _ :: rest => some { st with worker := .top, responses := rest }
  | .receiving, [] => if st.live then none else some { st with worker := .returned }
  | _, _ => none

/-- The storage is configured and the manifest is read: the task starts. -/
def start (st : TaskStream) : Option TaskStream :=
  match st.worker with
  | .starting a => some { st with worker := .executing a .idle }
  | _ => none

/-- executeTask returns before that, without a report. -/
def abandon (st : TaskStream) : Option TaskStream :=
  match st.worker with
  | .starting _ => some { st with worker := .top }
  | _ => none

def tick (st : TaskStream) : Option TaskStream :=
  match st.worker with
  | .executing a .idle =>
    if st.live then
      some { st with worker := .executing a .reading, requests := st.requests ++ [.heartbeat a] }
    else some { st with worker := .executing a .returned }
  | _ => none

/-- The heartbeat goroutine reads a frame. It ignores frames that are no heartbeat
acknowledgement; the `break` after an acknowledgement leaves the select only, so it goes on
reading. -/
def hear (st : TaskStream) : Option TaskStream :=
  match st.worker, st.responses with
  | .executing a .reading, .heartbeatAck true :: rest =>
    some { st with worker := .executing a .returned, responses := rest }
  | .executing _ .reading, _ :: rest => some { st with responses := rest }
  | .executing a .reading, [] =>
    if st.live then none else some { st with worker := .executing a .returned }
  | _, _ => none

/-- The task function has returned and executeTask reports it. -/
def finish (st : TaskStream) (result : Except String (List String × List String)) :
    Option TaskStream :=
  match st.worker with
  | .executing a _ =>
    let report := match result with
      | .ok (us, cks) => .complete a us cks
      | .error e => .failed a e
    if st.live then
      some { st with
        worker := .top
        requests := st.requests ++ [report]
        unreported := st.unreported.erase a }
    else some { st with worker := .top }
  | _ => none

/-- The handler receives a request, calls the scheduler and answers. -/
def handle (P : Pool) (st : TaskStream) (attemptID leaseID : UUID) (sampled assignable : Bool)
    (now : Time) (locked : Resource → Bool) : Option TaskStream :=
  match st.requests with
  | [] => none
  | r :: rest =>
    if st.live then
      let call := r.call P attemptID leaseID sampled
      (next st.world (.call call now locked)).map fun w =>
        let result := (perform call now locked st.world.db).1.result
        let st := { st with
          world := w
          requests := rest
          unreported := st.unreported ++ (r.grant result).toList }
        match r.respond assignable result with
        | none => { st with live := false }
        | some response =>
          { st with
            responses := st.responses ++ [response]
            assigned := st.assigned ++ response.getAssignment.toList }
    else none

end TaskStream

inductive StreamLabel where
  | cluster (a : Label)
  | sendReady
  | receive
  | start
  | abandon
  | tick
  | hear
  | finish (result : Except String (List String × List String))
  | handle (attemptID leaseID : UUID) (sampled assignable : Bool) (now : Time)
      (locked : Resource → Bool)
  | disconnect

def taskStream (P : Pool) (st : TaskStream) : StreamLabel → Option TaskStream
  | .cluster a => (next st.world a).map fun w => { st with world := w }
  | .sendReady => st.sendReady
  | .receive => st.receive
  | .start => st.start
  | .abandon => st.abandon
  | .tick => st.tick
  | .hear => st.hear
  | .finish result => st.finish result
  | .handle attemptID leaseID sampled assignable now locked =>
    st.handle P attemptID leaseID sampled assignable now locked
  | .disconnect => some { st with live := false }

abbrev StreamSteps (P : Pool) : TaskStream → StreamLabel → TaskStream → Prop :=
  Steps (taskStream P)

/-! ## 3. The task of the worker -/

/-- The task is In-Progress under the attempt: it has not been reaped. -/
def DB.holds (db : DB) (a : Assignment) : Bool :=
  (db.tasks.get? a.taskID).any fun row =>
    decide (row.status = .inProgress) && decide (row.currentAttemptID = some a.attemptID)

/-- The tasks that were granted and neither reported nor reaped. -/
def TaskStream.outstanding (st : TaskStream) : List Assignment :=
  st.unreported.filter st.world.db.holds

/-- Where the task of the worker is: unread on the stream, or in executeTask. -/
structure OneTask (st : TaskStream) : Prop where
  unreported : st.unreported.length ≤ 1
  unread : st.unread.length ≤ 1
  frames : st.assigned = st.executed ++ st.unread
  busy : ∀ a, st.worker.task = some a → st.unread = []
  held : ∀ a, st.live = true → st.worker.task = some a → st.unreported = [a]
  waiting : st.live = true → st.worker.task = none → st.unreported = st.unread

/-- A task is granted only while the Run loop waits for an answer and has no assignment to
read, and executeTask always starts its task. -/
def grantsWaiting (P : Pool) (st : TaskStream) : StreamLabel → Prop
  | .handle attemptID leaseID _ _ now locked => st.requests.head? = some .ready →
    (perform (.getNextTask P.scheduler P.jobID P.workerID attemptID leaseID) now locked
      st.world.db).1.result.isOk = true → st.worker = .receiving ∧ st.unread = []
  | .abandon => False
  | _ => True

instance (P : Pool) (st : TaskStream) (a : StreamLabel) : Decidable (grantsWaiting P st a) := by
  unfold grantsWaiting
  split <;> infer_instance

section Steps

variable {P : Pool} {st st' : TaskStream} {a : StreamLabel}

/-- A step that leaves the frames and the task of the worker as they are. -/
theorem OneTask.move (h : OneTask st) (hresp : st'.responses = st.responses)
    (hunrep : st'.unreported = st.unreported) (hassigned : st'.assigned = st.assigned)
    (hexec : st'.executed = st.executed) (htask : st'.worker.task = st.worker.task)
    (hlive : st'.live = true → st.live = true) : OneTask st' := by
  have hunread : st'.unread = st.unread := by rw [TaskStream.unread, hresp, TaskStream.unread]
  refine ⟨hunrep ▸ h.unreported, hunread ▸ h.unread, ?_, ?_, ?_, ?_⟩
  · rw [hassigned, hexec, hunread]
    exact h.frames
  · rw [htask, hunread]
    exact h.busy
  · rw [htask, hunrep]
    exact fun a hl => h.held a (hlive hl)
  · rw [htask, hunrep, hunread]
    exact fun hl => h.waiting (hlive hl)

theorem grant_isSome {result : Except Err Reply} {a : Assignment} (h : r.grant result = some a) :
    r = .ready ∧ result.isOk = true := by
  unfold StreamRequest.grant at h
  split at h
  · exact ⟨rfl, rfl⟩
  · cases h

/-- The assignment that is sent is the task that was granted. -/
theorem respond_getAssignment {result : Except Err Reply} {response : StreamResponse}
    (h : r.respond assignable result = some response) :
    response.getAssignment = r.grant result := by
  unfold StreamRequest.respond at h
  split at h
  case h_4 =>
    split at h
    · obtain ⟨a, ha, rfl⟩ := Option.map_eq_some_iff.mp h
      exact ha.symm
    · cases h
  all_goals cases h <;> rfl

/-- A granted task becomes unreported, and its assignment unread unless the stream ends. -/
theorem handle_cases {attemptID leaseID : UUID} {sampled : Bool} {now : Time}
    (h : st.handle P attemptID leaseID sampled assignable now locked = some st') :
    ∃ r rest result, st.requests = r :: rest ∧ st.live = true ∧
      (perform (r.call P attemptID leaseID sampled) now locked st.world.db).1.result = result ∧
      st'.worker = st.worker ∧ st'.executed = st.executed ∧
      st'.unreported = st.unreported ++ (r.grant result).toList ∧
      (st'.live = false ∧ st'.unread = st.unread ∧ st'.assigned = st.assigned ∨
        st'.unread = st.unread ++ (r.grant result).toList ∧
          st'.assigned = st.assigned ++ (r.grant result).toList) := by
  unfold TaskStream.handle at h
  split at h
  · cases h
  next r rest hreq =>
  split at h
  · next hlive =>
    obtain ⟨w, _, rfl⟩ := Option.map_eq_some_iff.mp h
    refine ⟨r, rest, _, hreq, hlive, rfl, ?_⟩
    generalize (perform (r.call P attemptID leaseID sampled) now locked st.world.db).1.result =
      result
    dsimp only
    split
    · exact ⟨rfl, rfl, rfl, .inl ⟨rfl, rfl, rfl⟩⟩
    · next response hresp =>
      refine ⟨rfl, rfl, rfl, .inr ⟨?_, ?_⟩⟩
      · show (st.responses ++ [response]).filterMap StreamResponse.getAssignment = _
        rw [List.filterMap_append, ← respond_getAssignment hresp]
        cases response <;> rfl
      · rw [← respond_getAssignment hresp]
  · cases h

theorem oneTask_handle {attemptID leaseID : UUID} {sampled : Bool} {now : Time} (h : OneTask st)
    (hs : st.handle P attemptID leaseID sampled assignable now locked = some st')
    (hok : grantsWaiting P st (.handle attemptID leaseID sampled assignable now locked)) :
    OneTask st' := by
  obtain ⟨r, rest, result, hreq, hlive, hres, hworker, hexec, hunrep, hsent⟩ := handle_cases hs
  cases hgrant : r.grant result with
  | none =>
    simp only [hgrant, Option.toList_none, List.append_nil] at hunrep hsent
    have hunread : st'.unread = st.unread ∧ st'.assigned = st.assigned :=
      hsent.elim And.right id
    refine ⟨hunrep ▸ h.unreported, hunread.1 ▸ h.unread, ?_, ?_, ?_, ?_⟩
    · rw [hunread.1, hunread.2, hexec]
      exact h.frames
    · rw [hworker, hunread.1]
      exact h.busy
    · rw [hworker, hunrep]
      exact fun a _ => h.held a hlive
    · rw [hworker, hunrep, hunread.1]
      exact fun _ => h.waiting hlive
  | some g =>
    -- the Run loop waits, so it has no other task
    obtain ⟨rfl, hisOk⟩ := grant_isSome hgrant
    obtain ⟨hrecv, hnil⟩ := hok (by rw [hreq]; rfl) (hres ▸ hisOk)
    have htask : st.worker.task = none := by rw [hrecv]; rfl
    have hfree : st.unreported = [] := (h.waiting hlive htask).trans hnil
    have hframes := h.frames
    simp only [hgrant, hfree, hnil, Option.toList_some, List.nil_append] at hunrep hsent hframes
    rw [List.append_nil] at hframes
    have hbusy : ∀ a, st'.worker.task ≠ some a := by
      intro a ha
      rw [hworker, htask] at ha
      cases ha
    refine ⟨by rw [hunrep]; exact Nat.le_refl 1, ?_, ?_, fun a ha => absurd ha (hbusy a),
      fun a _ ha => absurd ha (hbusy a), ?_⟩
    · rcases hsent with ⟨_, hun, _⟩ | ⟨hun, _⟩ <;> rw [hun]
      · exact Nat.zero_le 1
      · exact Nat.le_refl 1
    · rcases hsent with ⟨_, hun, has⟩ | ⟨hun, has⟩ <;> rw [hun, has, hexec, hframes]
      exact (List.append_nil _).symm
    · intro hl _
      rcases hsent with ⟨hdead, _⟩ | ⟨hun, _⟩
      · rw [hdead] at hl
        cases hl
      · rw [hunrep, hun]

theorem oneTask_receive (h : OneTask st) (hs : st.receive = some st') : OneTask st' := by
  unfold TaskStream.receive at hs
  split at hs
  · next a rest hworker hresp =>
    cases hs
    have hunread : st.unread = a :: rest.filterMap StreamResponse.getAssignment := by
      rw [TaskStream.unread, hresp]
      rfl
    have hrest : rest.filterMap StreamResponse.getAssignment = [] := by
      have hlen := h.unread
      rw [hunread, List.length_cons] at hlen
      exact List.length_eq_zero_iff.mp (by omega)
    have htask : st.worker.task = none := by rw [hworker]; rfl
    refine ⟨h.unreported, ?_, ?_, fun _ _ => hrest, fun b hl hb => ?_, nofun⟩
    · show (rest.filterMap StreamResponse.getAssignment).length ≤ 1
      rw [hrest]
      exact Nat.zero_le 1
    · show st.assigned = st.executed ++ [a] ++ rest.filterMap StreamResponse.getAssignment
      rw [h.frames, hunread, hrest, List.append_nil]
    · cases hb
      rw [h.waiting hl htask, hunread, hrest]
  · next r rest hno hworker hresp =>
    cases hs
    have hunread : st.unread = rest.filterMap StreamResponse.getAssignment := by
      rw [TaskStream.unread, hresp]
      cases r with
      | assignment a => exact absurd rfl (hno a)
      | _ => rfl
    have htask : st.worker.task = none := by rw [hworker]; rfl
    refine ⟨h.unreported, ?_, h.frames.trans (congrArg (st.executed ++ ·) hunread), nofun, nofun,
      fun hl _ => (h.waiting hl htask).trans hunread⟩
    show (rest.filterMap StreamResponse.getAssignment).length ≤ 1
    exact hunread ▸ h.unread
  · next hworker hresp =>
    split at hs
    · cases hs
    · cases hs
      exact h.move rfl rfl rfl rfl (by rw [hworker]; rfl) id
  · cases hs

theorem oneTask_finish {result : Except String (List String × List String)} (h : OneTask st)
    (hs : st.finish result = some st') : OneTask st' := by
  unfold TaskStream.finish at hs
  split at hs
  · next a heartbeat hworker =>
    have htask : st.worker.task = some a := by rw [hworker]; rfl
    have hnil : st.unread = [] := h.busy a htask
    dsimp only at hs
    split at hs
    · next hlive =>
      cases hs
      have hnone : st.unreported.erase a = [] := by
        rw [h.held a hlive htask, List.erase_cons_head]
      refine ⟨?_, h.unread, h.frames, nofun, nofun,
        fun _ _ => hnone.trans hnil.symm⟩
      show (st.unreported.erase a).length ≤ 1
      rw [hnone]
      exact Nat.zero_le 1
    · next hlive =>
      cases hs
      exact ⟨h.unreported, h.unread, h.frames, nofun, nofun,
        fun hl _ => absurd hl hlive⟩
  · cases hs

/-- While a task is executed there is no assignment to drop. -/
theorem oneTask_hear (h : OneTask st) (hs : st.hear = some st') : OneTask st' := by
  have hread : ∀ {a : Assignment} {heartbeat : HeartbeatLoop} {r : StreamResponse}
      {rest : List StreamResponse} (heartbeat' : HeartbeatLoop),
      st.worker = .executing a heartbeat → st.responses = r :: rest →
      OneTask { st with worker := .executing a heartbeat', responses := rest } := by
    intro a heartbeat r rest heartbeat' hworker hresp
    have htask : st.worker.task = some a := by rw [hworker]; rfl
    have hnil := h.busy a htask
    have hframes := h.frames
    rw [hnil, List.append_nil] at hframes
    rw [TaskStream.unread, hresp, List.filterMap_eq_nil_iff] at hnil
    have hrest : rest.filterMap StreamResponse.getAssignment = [] :=
      List.filterMap_eq_nil_iff.mpr fun f hf => hnil f (List.mem_cons_of_mem _ hf)
    refine ⟨h.unreported, ?_, ?_, fun _ _ => hrest, fun c hl hc => h.held c hl (htask ▸ hc),
      nofun⟩
    · show (rest.filterMap StreamResponse.getAssignment).length ≤ 1
      rw [hrest]
      exact Nat.zero_le 1
    · show st.assigned = st.executed ++ rest.filterMap StreamResponse.getAssignment
      rw [hrest, List.append_nil, hframes]
  unfold TaskStream.hear at hs
  split at hs
  · next a rest hworker hresp =>
    cases hs
    exact hread _ hworker hresp
  · next a r rest _ hworker hresp =>
    cases hs
    have hsame := hread .reading hworker hresp
    rw [← hworker] at hsame
    exact hsame
  · next a hworker hresp =>
    split at hs
    · cases hs
    · cases hs
      exact h.move rfl rfl rfl rfl (by rw [hworker]; rfl) id
  · cases hs

theorem oneTask_step (h : OneTask st) (hs : StreamSteps P st a st')
    (hok : grantsWaiting P st a) : OneTask st' := by
  cases a with
  | cluster l =>
    obtain ⟨w, _, rfl⟩ := Option.map_eq_some_iff.mp hs
    exact h.move rfl rfl rfl rfl rfl id
  | sendReady =>
    have hs : st.sendReady = some st' := hs
    unfold TaskStream.sendReady at hs
    split at hs
    · next hworker =>
      split at hs <;> cases hs <;> exact h.move rfl rfl rfl rfl (by rw [hworker]; rfl) id
    · cases hs
  | receive => exact oneTask_receive h hs
  | start =>
    have hs : st.start = some st' := hs
    unfold TaskStream.start at hs
    split at hs
    · next hworker =>
      cases hs
      exact h.move rfl rfl rfl rfl (by rw [hworker]; rfl) id
    · cases hs
  | abandon => exact hok.elim
  | tick =>
    have hs : st.tick = some st' := hs
    unfold TaskStream.tick at hs
    split at hs
    · next hworker =>
      split at hs <;> cases hs <;> exact h.move rfl rfl rfl rfl (by rw [hworker]; rfl) id
    · cases hs
  | hear => exact oneTask_hear h hs
  | finish result => exact oneTask_finish h hs
  | handle attemptID leaseID sampled assignable now locked => exact oneTask_handle h hs hok
  | disconnect =>
    cases hs
    exact h.move rfl rfl rfl rfl rfl nofun

/-- In every run whose steps meet the condition: at most one task is granted to the worker and
neither reported nor reaped, and every assignment that was sent has been handed to executeTask
or is still unread. -/
theorem one_task {P : Pool} {q : Option Nat} {as : List StreamLabel} {st : TaskStream}
    (h : Run (Under (StreamSteps P) (grantsWaiting P)) (.initial q) as st) :
    st.outstanding.length ≤ 1 ∧ st.assigned = st.executed ++ st.unread := by
  have hone := h.invariant (I := OneTask) (fun _ _ _ hi hs => oneTask_step hi hs.1 hs.2)
    ⟨Nat.zero_le 1, Nat.zero_le 1, rfl, nofun, nofun, fun _ _ => rfl⟩
  exact ⟨Nat.le_trans (List.length_filter_le _ _) hone.unreported, hone.frames⟩

end Steps

/-! ## 4. A worker with several tasks -/

/-- The worker of the job 1 at the only replica. -/
def soloPool : Pool := ⟨soloReplica, 1, "worker"⟩

/-- The handler answers the next request. -/
def answered (attemptID leaseID : UUID) (now : Time) : StreamLabel :=
  .handle attemptID leaseID false true now fun _ => false

/-- The first task is executed and reported, and the next Ready is answered before the Run
loop has read the answer to the report. -/
def firstReported : List StreamLabel :=
  [.sendReady, answered 10 20 2, .receive, .start, .finish (.ok ([], [])), .sendReady,
    answered 0 0 3, answered 11 21 4, .receive]

/-- In a job with two Map tasks there is no task for the third Ready. -/
theorem one_task_small :
    ∃ st, Run (Under (StreamSteps soloPool) (grantsWaiting soloPool)) (.initial none)
        (smallStart.map .cluster ++ firstReported ++
          [.sendReady, answered 12 22 5, .receive, .start, .tick, .hear]) st ∧
      st.outstanding = [⟨3, 11, 21⟩] ∧ st.executed = [⟨2, 10, 20⟩, ⟨3, 11, 21⟩] ∧
      st.outstanding.length ≤ 1 ∧ st.assigned = st.executed ++ st.unread := by
  obtain ⟨st, hst, hout, hexec⟩ := (run_toUnder (by decide) :
    ∃ st, Run (Under (StreamSteps soloPool) (grantsWaiting soloPool)) (.initial none)
        (smallStart.map .cluster ++ firstReported ++
          [.sendReady, answered 12 22 5, .receive, .start, .tick, .hear]) st ∧
      st.outstanding = [⟨3, 11, 21⟩] ∧ st.executed = [⟨2, 10, 20⟩, ⟨3, 11, 21⟩])
  exact ⟨st, hst, hout, hexec, one_task hst⟩

def threeMaps : ScheduleJobRequest :=
  { smallJob with
    mTasks := 3
    rTasks := 1
    tasks := [⟨"2", "Map", 0, []⟩, ⟨"3", "Map", 0, []⟩, ⟨"4", "Map", 0, []⟩,
      ⟨"5", "Reduce", 0, []⟩] }

/-- With three Map tasks the third Ready is answered with a task while the second task is
executed, and the heartbeat goroutine drops the assignment. -/
theorem assignment_dropped :
    ∃ st, Run (StreamSteps soloPool) (.initial none)
        ((smallStart.dropLast ++ [calling (.scheduleJob soloReplica threeMaps) 1]).map .cluster ++
          firstReported ++
          [.sendReady, .receive, .start, answered 12 22 5, .tick, .hear]) st ∧
      st.outstanding = [⟨3, 11, 21⟩, ⟨4, 12, 22⟩] ∧
      st.assigned = [⟨2, 10, 20⟩, ⟨3, 11, 21⟩, ⟨4, 12, 22⟩] ∧
      st.executed = [⟨2, 10, 20⟩, ⟨3, 11, 21⟩] ∧ st.unread = [] :=
  run_to (by decide)

end KubeMapReduce
