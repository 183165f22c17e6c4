import KubeMapReduce.Manifest
import KubeMapReduce.TaskStream

/-!
# The execution of a task

executeTask puts the data locations of a manifest into the assignment, starts a goroutine for
the heartbeats, calls the Map or the Reduce function and reports the result.

The heartbeat goroutine has two loops. The outer one waits for the ticker; after a heartbeat the
inner one reads frames. The `break` behind an acknowledgement leaves the select statement and not
the inner loop, so the outer one is never reached again.

* `HeartbeatState.next`: streamHeartbeatLoop, between the ticker, the stream and the context.
* `sent_le_one`: it sends at most one heartbeat, in every run.
* `heartbeats_iff`: with an open stream, a running task and an answer to every heartbeat, there is
  one heartbeat for each tick exactly up to the first tick.
* `executeTask_reports_iff`: executeTask sends one report, and the right one, exactly if there is
  an object storage and the manifest can be fetched.
-/

namespace KubeMapReduce

open Runs

/-! ## 1. The heartbeat goroutine -/

/-- What the receiving goroutine puts into recvCh. -/
inductive RecvResult where
  | resp (frame : StreamResponse)
  | err (eof : Bool)
deriving DecidableEq

structure HeartbeatState where
  loop : HeartbeatLoop
  /-- A tick is in the channel of the ticker, which has room for one. -/
  ticker : Bool
  recvCh : List RecvResult
  recvClosed : Bool
  /-- The context of the task is done. -/
  done : Bool
  /-- A reason was sent to `terminated`. -/
  terminated : Bool
  /-- The number of ticks. -/
  ticks : Nat
  /-- The number of heartbeats that were sent. -/
  sent : Nat
  /-- The number of acknowledgements to continue that have arrived. -/
  acks : Nat
deriving DecidableEq

inductive HeartbeatLabel where
  | tick
  | arrive (result : RecvResult)
  | closeRecv
  | cancel
  /-- A select takes the case of the context. -/
  | seeDone
  /-- The outer select takes the case of the ticker; the heartbeat is sent or not. -/
  | seeTick (ok : Bool)
  /-- The inner select takes the case of recvCh. -/
  | seeFrame
deriving DecidableEq

variable {as : List HeartbeatLabel}

namespace HeartbeatState

def initial : HeartbeatState := ⟨.idle, false, [], false, false, false, 0, 0, 0⟩

/-- The inner loop has read a result. -/
def read (s : HeartbeatState) : RecvResult → HeartbeatState
  | .err _ => { s with loop := .returned }
  | .resp (.heartbeatAck true) => { s with loop := .returned, terminated := true, done := true }
  -- `break` leaves the select
  | .resp (.heartbeatAck false) => s
  -- `continue`
  | .resp (.assignment _) => s
  | .resp (.ack _) => s

def next (s : HeartbeatState) : HeartbeatLabel → Option HeartbeatState
  | .tick => some { s with ticker := true, ticks := s.ticks + 1 }
  | .arrive result =>
    if s.recvClosed then none
    else some { s with
      recvCh := s.recvCh ++ [result]
      acks := s.acks + if result = .resp (.heartbeatAck false) then 1 else 0 }
  | .closeRecv => some { s with recvClosed := true }
  | .cancel => some { s with done := true }
  | .seeDone => if s.done ∧ s.loop ≠ .returned then some { s with loop := .returned } else none
  | .seeTick ok =>
    match s.loop, s.ticker with
    | .idle, true =>
      some (if ok then { s with ticker := false, loop := .reading, sent := s.sent + 1 }
        else { s with ticker := false, loop := .returned })
    | _, _ => none
  | .seeFrame =>
    match s.loop, s.recvCh with
    | .reading, result :: rest => some ({ s with recvCh := rest }.read result)
    | .reading, [] => if s.recvClosed then some { s with loop := .returned } else none
    | _, _ => none

/-- No select has a case to take: the goroutine waits. -/
def settled (s : HeartbeatState) : Prop :=
  s.next .seeDone = none ∧ s.next (.seeTick true) = none ∧ s.next .seeFrame = none

instance (s : HeartbeatState) : Decidable s.settled := inferInstanceAs (Decidable (_ ∧ _ ∧ _))

/-- The stream is open, the task runs, and no tick comes before the goroutine waits again and
every heartbeat has its acknowledgement to continue. -/
def answering (s : HeartbeatState) : HeartbeatLabel → Prop
  | .tick => s.settled ∧ s.acks = s.sent
  | .arrive (.err _) => False
  | .arrive (.resp frame) => frame ≠ .heartbeatAck true
  | .closeRecv => False
  | .cancel => False
  | .seeTick false => False
  | _ => True

instance (s : HeartbeatState) (a : HeartbeatLabel) : Decidable (s.answering a) := by
  unfold answering
  split <;> infer_instance

end HeartbeatState

abbrev HeartbeatSteps : HeartbeatState → HeartbeatLabel → HeartbeatState → Prop :=
  Steps HeartbeatState.next

/-! ## 2. One heartbeat -/

section Loop

variable {s s' : HeartbeatState} {a : HeartbeatLabel}

/-- Before the first heartbeat a tick stays in the channel; there is no way back to the ticker
from behind it. -/
structure Once (s : HeartbeatState) : Prop where
  idle : s.loop = .idle → s.sent = 0 ∧ (s.ticker = true ↔ 0 < s.ticks)
  reading : s.loop = .reading → s.sent = 1 ∧ 0 < s.ticks
  sent : s.sent ≤ 1

theorem read_fields (result : RecvResult) :
    (s.read result).sent = s.sent ∧ (s.read result).ticks = s.ticks ∧
      (s.read result).recvCh = s.recvCh ∧ (s.read result).recvClosed = s.recvClosed ∧
      ((s.read result).loop = s.loop ∧ (s.read result).done = s.done ∨
        (s.read result).loop = .returned) := by
  cases result with
  | err eof => exact ⟨rfl, rfl, rfl, rfl, .inr rfl⟩
  | resp frame =>
    cases frame with
    | heartbeatAck terminate =>
      cases terminate with
      | true => exact ⟨rfl, rfl, rfl, rfl, .inr rfl⟩
      | false => exact ⟨rfl, rfl, rfl, rfl, .inl ⟨rfl, rfl⟩⟩
    | assignment a => exact ⟨rfl, rfl, rfl, rfl, .inl ⟨rfl, rfl⟩⟩
    | ack success => exact ⟨rfl, rfl, rfl, rfl, .inl ⟨rfl, rfl⟩⟩

/-- A select that takes the case of the ticker is the outer one. -/
theorem seeTick_cases {ok : Bool} (h : HeartbeatSteps s (.seeTick ok) s') :
    s.loop = .idle ∧ s.ticker = true ∧
      s' = if ok then { s with ticker := false, loop := .reading, sent := s.sent + 1 }
        else { s with ticker := false, loop := .returned } := by
  simp only [Steps, HeartbeatState.next] at h
  split at h
  · next hl ht => exact ⟨hl, ht, (Option.some.inj h).symm⟩
  · cases h

/-- A select that takes the case of recvCh is the inner one. -/
theorem seeFrame_cases (h : HeartbeatSteps s .seeFrame s') :
    s.loop = .reading ∧
      ((∃ result rest, s.recvCh = result :: rest ∧ s' = { s with recvCh := rest }.read result) ∨
        s.recvCh = [] ∧ s.recvClosed = true ∧ s' = { s with loop := .returned }) := by
  simp only [Steps, HeartbeatState.next] at h
  split at h
  · next result rest hl hch => exact ⟨hl, .inl ⟨result, rest, hch, (Option.some.inj h).symm⟩⟩
  · next hl hch =>
    split at h
    · next hclosed => exact ⟨hl, .inr ⟨hch, hclosed, (Option.some.inj h).symm⟩⟩
    · cases h
  · cases h

theorem Once.returned (h : s.sent ≤ 1) (hl : s.loop = .returned) : Once s := by
  refine ⟨?_, ?_, h⟩ <;> rw [hl] <;> rintro ⟨⟩

theorem once_step (h : Once s) (hs : HeartbeatSteps s a s') : Once s' := by
  cases a with
  | tick =>
    cases hs
    exact ⟨fun hl => ⟨(h.idle hl).1, fun _ => Nat.succ_pos _, fun _ => rfl⟩,
      fun hl => ⟨(h.reading hl).1, Nat.succ_pos _⟩, h.sent⟩
  | arrive result =>
    simp only [Steps, HeartbeatState.next] at hs
    split at hs
    · cases hs
    · cases hs
      exact ⟨h.idle, h.reading, h.sent⟩
  | closeRecv =>
    cases hs
    exact ⟨h.idle, h.reading, h.sent⟩
  | cancel =>
    cases hs
    exact ⟨h.idle, h.reading, h.sent⟩
  | seeDone =>
    simp only [Steps, HeartbeatState.next] at hs
    split at hs
    · cases hs
      exact .returned h.sent rfl
    · cases hs
  | seeTick ok =>
    obtain ⟨hl, ht, rfl⟩ := seeTick_cases hs
    obtain ⟨hnone, hticks⟩ := h.idle hl
    cases ok with
    | true =>
      refine ⟨by rintro ⟨⟩, fun _ => ⟨?_, hticks.mp ht⟩, ?_⟩ <;> simp [hnone]
    | false => exact .returned h.sent rfl
  | seeFrame =>
    obtain ⟨hl, ⟨result, rest, _, rfl⟩ | ⟨_, _, rfl⟩⟩ := seeFrame_cases hs
    · obtain ⟨hsent, hticks, _, _, hkeep | hret⟩ :=
        read_fields (s := { s with recvCh := rest }) result
      · refine ⟨fun hi => ?_, fun _ => ?_, hsent.trans_le h.sent⟩
        · cases (hkeep.1.trans hl).symm.trans hi
        · rw [hsent, hticks]
          exact h.reading hl
      · exact .returned (hsent.trans_le h.sent) hret
    · exact .returned h.sent rfl

theorem once_run (h : Run HeartbeatSteps .initial as s) : Once s :=
  h.invariant (fun _ _ _ hi hs => once_step hi hs)
    ⟨fun _ => ⟨rfl, by decide⟩, nofun, Nat.zero_le 1⟩

/-- The goroutine of a task sends at most one heartbeat. -/
theorem sent_le_one (h : Run HeartbeatSteps .initial as s) : s.sent ≤ 1 :=
  (once_run h).sent

/-- Nothing makes the goroutine return. -/
structure Undisturbed (s : HeartbeatState) : Prop where
  loop : s.loop ≠ .returned
  done : s.done = false
  recvClosed : s.recvClosed = false
  frames : ∀ result ∈ s.recvCh, ∃ frame, result = .resp frame ∧ frame ≠ .heartbeatAck true

theorem read_continues {frame : StreamResponse} (h : frame ≠ .heartbeatAck true) :
    s.read (.resp frame) = s := by
  cases frame with
  | heartbeatAck terminate =>
    cases terminate with
    | true => exact absurd rfl h
    | false => rfl
  | assignment a => rfl
  | ack success => rfl

theorem undisturbed_step (h : Undisturbed s) (hs : HeartbeatSteps s a s') (hok : s.answering a) :
    Undisturbed s' := by
  cases a with
  | tick =>
    cases hs
    exact ⟨h.loop, h.done, h.recvClosed, h.frames⟩
  | arrive result =>
    cases result with
    | err eof => exact hok.elim
    | resp frame =>
      simp only [Steps, HeartbeatState.next, h.recvClosed] at hs
      cases hs
      refine ⟨h.loop, h.done, rfl, fun r hr => ?_⟩
      rcases List.mem_append.mp hr with hr | hr
      · exact h.frames r hr
      · exact ⟨frame, List.mem_singleton.mp hr, hok⟩
  | closeRecv => exact hok.elim
  | cancel => exact hok.elim
  | seeDone =>
    simp only [Steps, HeartbeatState.next, h.done] at hs
    split at hs
    · next hc => cases hc.1
    · cases hs
  | seeTick ok =>
    obtain ⟨_, _, rfl⟩ := seeTick_cases hs
    cases ok with
    | true => exact ⟨by rintro ⟨⟩, h.done, h.recvClosed, h.frames⟩
    | false => exact hok.elim
  | seeFrame =>
    obtain ⟨_, ⟨result, rest, hch, rfl⟩ | ⟨_, hclosed, _⟩⟩ := seeFrame_cases hs
    · have hframes := h.frames
      rw [hch] at hframes
      obtain ⟨frame, rfl, hf⟩ := hframes result List.mem_cons_self
      rw [read_continues hf]
      exact ⟨h.loop, h.done, h.recvClosed, fun r hr => hframes r (List.mem_cons_of_mem _ hr)⟩
    · rw [h.recvClosed] at hclosed
      cases hclosed

/-- In every run of an open stream with a running task and an answer to every heartbeat: when the
goroutine waits, it has sent one heartbeat for each tick exactly if there was at most one tick. -/
theorem heartbeats_iff {as : List HeartbeatLabel}
    (h : Run (Under HeartbeatSteps HeartbeatState.answering) .initial as s) (hs : s.settled) :
    s.sent = s.ticks ↔ s.ticks ≤ 1 := by
  have honce := once_run h.of_under
  have hbeat := h.invariant (I := Undisturbed) (fun _ _ _ hi hs => undisturbed_step hi hs.1 hs.2)
    ⟨nofun, rfl, rfl, nofun⟩
  cases hl : s.loop with
  | idle =>
    obtain ⟨hsent, hticks⟩ := honce.idle hl
    have hticker : s.ticker ≠ true := by
      intro ht
      have hnone := hs.2.1
      simp only [HeartbeatState.next, hl, ht] at hnone
      cases hnone
    have hzero : s.ticks = 0 := Nat.eq_zero_of_not_pos fun hp => hticker (hticks.mpr hp)
    rw [hsent, hzero]
    exact ⟨fun _ => Nat.zero_le 1, fun _ => rfl⟩
  | reading =>
    obtain ⟨hsent, hticks⟩ := honce.reading hl
    rw [hsent]
    exact ⟨fun he => Nat.le_of_eq he.symm, fun hle => Nat.le_antisymm hticks hle⟩
  | returned => exact absurd hl hbeat.loop

end Loop

/-- The acknowledgement to continue. -/
def continueAck : HeartbeatLabel := .arrive (.resp (.heartbeatAck false))

/-- The first tick, its heartbeat and the answer. -/
def firstBeat : List HeartbeatLabel := [.tick, .seeTick true, continueAck, .seeFrame]

theorem heartbeats_first :
    ∃ s, Run (Under HeartbeatSteps HeartbeatState.answering) .initial firstBeat s ∧ s.settled ∧
      s.ticks = 1 ∧ s.sent = 1 ∧ (s.sent = s.ticks ↔ s.ticks ≤ 1) := by
  obtain ⟨s, hrun, hs, hticks, hsent⟩ := (run_toUnder (by decide) :
    ∃ s, Run (Under HeartbeatSteps HeartbeatState.answering) .initial firstBeat s ∧ s.settled ∧
      s.ticks = 1 ∧ s.sent = 1)
  exact ⟨s, hrun, hs, hticks, hsent, heartbeats_iff hrun hs⟩

/-- The second tick sends nothing, though the first heartbeat was answered. In the cluster, the
only heartbeat of a task is answered and its stream stands; when its lease has expired, the reaper
takes the task from the worker that executes it. -/
theorem second_tick_silent :
    (∃ s, Run (Under HeartbeatSteps HeartbeatState.answering) .initial
        (firstBeat ++ [.tick]) s ∧ s.settled ∧ s.ticks = 2 ∧ s.sent = 1) ∧
      ∃ st, Run (StreamSteps soloPool) (.initial none)
        (smallStart.map .cluster ++
          [.sendReady, answered 10 20 2, .receive, .start, .tick, answered 0 0 3, .hear,
            .cluster (calling (.failStaleTasks soloReplica (fun _ => none) (60 * second))
              (60 * second))]) st ∧
        st.worker = .executing ⟨2, 10, 20⟩ .reading ∧ st.live = true ∧
        st.world.db.holds ⟨2, 10, 20⟩ = false :=
  ⟨run_toUnder (by decide), run_to (by decide)⟩

/-! ## 3. executeTask -/

inductive WorkerFrame where
  | heartbeat (taskID attemptID leaseID : String)
  | complete (taskID attemptID leaseID : String) (outputLocations outputChecksums : List String)
  | failed (taskID attemptID leaseID errorMessage : String)
deriving DecidableEq

namespace WorkerFrame

/-- A report of the end of a task. -/
def terminal : WorkerFrame → Bool
  | .heartbeat _ _ _ => false
  | _ => true

def isComplete : WorkerFrame → Bool
  | .complete _ _ _ _ _ => true
  | _ => false

/-- The task and the attempt that the frame is about. -/
def about : WorkerFrame → String × String
  | .heartbeat t a _ => (t, a)
  | .complete t a _ _ _ => (t, a)
  | .failed t a _ _ => (t, a)

end WorkerFrame

/-- The output URIs and their checksums. -/
abbrev TaskOutput := List String × List String

/-- The parts of a worker that executeTask uses. -/
structure TaskWorker where
  codec : ManifestCodec
  sha256Hex : Bytes → String
  storage : Option ObjectStorage
  runMap : Pb.TaskAssignment → Except String TaskOutput
  runReduce : Pb.TaskAssignment → Except String TaskOutput

namespace TaskWorker

variable (w : TaskWorker)

/-- The switch over the type, which is a number in the message. -/
def runTask (type : Int) (a : Pb.TaskAssignment) : Except String TaskOutput :=
  if type = Pb.taskTypeNumber .map then w.runMap a
  else if type = Pb.taskTypeNumber .reduce then w.runReduce a
  else .error s!"unknown task type: {type}"

/-- The steps before the goroutine for the heartbeats is started. -/
def prepare (a : Pb.TaskAssignment) : Except String Pb.TaskAssignment :=
  match w.storage with
  | none => .error "object storage is not configured"
  | some storage => resolveManifest w.codec w.sha256Hex storage a

def report (a : Pb.TaskAssignment) : Except String TaskOutput → WorkerFrame
  | .ok (uris, checksums) => .complete a.taskID a.attemptID a.leaseID uris checksums
  | .error e => .failed a.taskID a.attemptID a.leaseID e

/-- What executeTask returns after the report. -/
def returned (sendErr : Option String) : Except String TaskOutput → Except String Unit
  | .ok _ =>
    match sendErr with
    | none => .ok ()
    | some e => .error e
  | .error e =>
    match sendErr with
    | none => .error e
    | some sent => .error s!"task error: {e}; also failed to report failure: {sent}"

/-- The frames that are sent and what is returned. The goroutine sends `beats` heartbeats before
it has returned, and `sendErr` is the error of the last Send. -/
def executeTask (type : Int) (a : Pb.TaskAssignment) (beats : Nat) (sendErr : Option String) :
    List WorkerFrame × Except String Unit :=
  match w.prepare a with
  | .error e => ([], .error e)
  | .ok a =>
    let result := w.runTask type a
    (List.replicate beats (.heartbeat a.taskID a.attemptID a.leaseID) ++
      (if sendErr = none then [report a result] else []), returned sendErr result)

/-- What the task function has returned; it may not have been called. -/
def functionResult (type : Int) (a : Pb.TaskAssignment) : Option (Except String TaskOutput) :=
  match w.prepare a with
  | .error _ => none
  | .ok a => some (w.runTask type a)

/-- There is an object storage, and the manifest can be fetched. -/
def Starts (a : Pb.TaskAssignment) : Prop := (w.prepare a).isOk = true

end TaskWorker

section Execute

variable {w : TaskWorker} {type : Int} {a a' : Pb.TaskAssignment} {beats : Nat}

/-- The manifest only replaces the data locations. -/
theorem prepare_ok (h : w.prepare a = .ok a') : ∃ locs, a' = { a with dataLocations := locs } := by
  unfold TaskWorker.prepare at h
  split at h
  · cases h
  · unfold resolveManifest at h
    split at h
    · split at h
      · cases h
      · split at h
        · cases h
        · next locs _ =>
          cases h
          exact ⟨locs, rfl⟩
    · cases h
      exact ⟨a.dataLocations, rfl⟩

theorem executeTask_ok (h : w.prepare a = .ok a') :
    (w.executeTask type a beats none).1 =
      List.replicate beats (.heartbeat a.taskID a.attemptID a.leaseID) ++
        [TaskWorker.report a (w.runTask type a')] := by
  obtain ⟨locs, rfl⟩ := prepare_ok h
  unfold TaskWorker.executeTask
  rw [h]
  dsimp only
  rw [if_pos rfl]
  rfl

theorem report_fields (a : Pb.TaskAssignment) (result : Except String TaskOutput) :
    (TaskWorker.report a result).terminal = true ∧
      (TaskWorker.report a result).about = (a.taskID, a.attemptID) ∧
      ((TaskWorker.report a result).isComplete = true ↔ ∃ out, result = .ok out) := by
  cases result with
  | ok out => exact ⟨rfl, rfl, fun _ => ⟨out, rfl⟩, fun _ => rfl⟩
  | error e => exact ⟨rfl, rfl, nofun, nofun⟩

/-- On a stream whose sends succeed, executeTask sends exactly one report for the task and the
attempt, a Complete if and only if the task function returned without an error, exactly if there
is an object storage and the manifest can be fetched. Otherwise it sends nothing. -/
theorem executeTask_reports_iff (w : TaskWorker) (type : Int) (a : Pb.TaskAssignment)
    (beats : Nat) :
    ((∃ frame, (w.executeTask type a beats none).1.filter WorkerFrame.terminal = [frame] ∧
        frame.about = (a.taskID, a.attemptID) ∧
        (frame.isComplete = true ↔ ∃ out, w.functionResult type a = some (.ok out))) ↔
      w.Starts a) ∧
    (¬ w.Starts a → (w.executeTask type a beats none).1 = []) := by
  unfold TaskWorker.Starts TaskWorker.functionResult
  cases h : w.prepare a with
  | error e =>
    have hnone : (w.executeTask type a beats none).1 = [] := by
      unfold TaskWorker.executeTask
      rw [h]
    refine ⟨⟨?_, nofun⟩, fun _ => hnone⟩
    rintro ⟨frame, hframe, _⟩
    rw [hnone] at hframe
    cases hframe
  | ok a' =>
    refine ⟨⟨fun _ => rfl, fun _ => ?_⟩, fun hn => absurd rfl hn⟩
    obtain ⟨hterm, habout, hcomplete⟩ := report_fields a (w.runTask type a')
    refine ⟨TaskWorker.report a (w.runTask type a'), ?_, habout, hcomplete.trans ?_⟩
    · rw [executeTask_ok h, List.filter_append, List.filter_cons_of_pos hterm, List.filter_nil,
        List.filter_eq_nil_iff.mpr, List.nil_append]
      intro frame hframe
      rw [List.eq_of_mem_replicate hframe]
      exact Bool.false_ne_true
    · exact exists_congr fun out => ⟨fun he => he ▸ rfl, fun he => Option.some.inj he⟩

end Execute

/-- A worker whose functions succeed, with this storage. -/
def textWorker (storage : ObjectStorage) : TaskWorker where
  codec := textCodec
  sha256Hex := zeroDigest
  storage := some storage
  runMap := fun _ => .ok ([], [])
  runReduce := fun _ => .ok ([], [])

/-- A manifest assignment without a location, as in the test of the worker. -/
def emptyManifest : Pb.TaskAssignment :=
  { directAssignment (splitTask []) with isManifest := true, dataLocations := [] }

theorem executeTask_reports_direct :
    (textWorker fun _ _ => .error "no such key").Starts (directAssignment (splitTask [])) ∧
    ∃ frame, ((textWorker fun _ _ => .error "no such key").executeTask 0
        (directAssignment (splitTask [])) 1 none).1.filter WorkerFrame.terminal = [frame] ∧
      frame.about = ("2", "10") ∧ (frame.isComplete = true ↔
        ∃ out, (textWorker fun _ _ => .error "no such key").functionResult 0
          (directAssignment (splitTask [])) = some (.ok out)) :=
  ⟨rfl, (executeTask_reports_iff _ 0 (directAssignment (splitTask [])) 1).1.mpr rfl⟩

/-- executeTask returns an error for a manifest assignment without a location, and for a manifest
of the manager that the storage does not deliver, and sends no report. -/
theorem manifest_unreported :
    (textWorker fun _ _ => .error "no such key").executeTask 0 emptyManifest 0 none =
      ([], .error "manifest assignment requires at least one data location URI") ∧
    ∃ a stored, manifestServer.applyManifestFallback (splitTask [firstSplit, secondSplit])
        (directAssignment (splitTask [firstSplit, secondSplit])) = (.ok a, stored) ∧
      ((textWorker fun _ _ => .error "timeout").executeTask 0 a 0 none).1 = [] := by
  refine ⟨rfl, ?_⟩
  obtain ⟨a, stored, _, hsent, _, ha⟩ := received (P := fun x =>
    ((textWorker fun _ _ => .error "timeout").executeTask 0 x.1 0 none).1 = [])
    (by decide +kernel : (receive manifestServer (splitTask [firstSplit, secondSplit])).any
      (fun x => decide
        (((textWorker fun _ _ => .error "timeout").executeTask 0 x.1 0 none).1 = [])) = true)
  exact ⟨a, stored, hsent, ha⟩

end KubeMapReduce
