import KubeMapReduce.Routing
import KubeMapReduce.Shuffle

/-!
# The shuffle of a job

The Map attempts of one job and the shuffle service, over the cluster. An attempt opens a
push stream for every partition that it has records for, sends its bytes, and closes the
stream; when all are closed it reports its outputs with CompleteTask. It can fail on the
way, and then its streams are aborted (which ends them like a close) or break, and it can
be reaped at any time and go on pushing.

* `exchange`: the steps. `Pushes`: the blobs of a partition are the streams that were
  stored, each one once; the blob of a closed stream is what the attempt wrote for the
  partition.
* `Pushes.send`, `Pushes.close`, `Pushes.abort`: the steps of a stream keep this.
-/

namespace KubeMapReduce

open Tables Runs

variable {handler : PushStream}

/-! ## 1. The attempts of a job -/

/-- A job whose Map attempts push their outputs to the shuffle service. -/
structure MapJob where
  jobID : UUID
  reducers : Nat
  worker : Worker
  /-- The sorted lines of an attempt. -/
  emitted : UUID → List Line
  reducers_pos : 1 ≤ reducers
  pushes : worker.hasShuffleClient = true

variable {J : MapJob}

namespace MapJob

/-- The partitions that the attempt has records for. -/
def partitions (J : MapJob) (x : UUID) : List Nat :=
  partitionsOf J.reducers (J.worker.recordsOf (J.emitted x))

/-- What the attempt writes for a partition. -/
def payload (J : MapJob) (x : UUID) (p : Nat) : Bytes :=
  (bucket J.reducers p (J.worker.recordsOf (J.emitted x))).flatMap fun r => r.1 ++ newlineBytes

def chunk (J : MapJob) (p : Nat) (data : Bytes) : ShuffleDataChunk :=
  ⟨toString J.jobID, p, data, "", false⟩

/-- The output rows of the task when the attempt has reported: the `i`-th partition with
records under `partition_index` `i`. -/
def rows (J : MapJob) (t x : UUID) : List OutputRow :=
  (J.partitions x).zipIdx.map fun p =>
    ⟨t, some p.2, s!"shuffle://{toString J.jobID}/{p.1}", J.worker.sha256Hex (J.payload x p.1)⟩

/-- They are those that runMap reports. -/
theorem rows_of_runMap {t x : UUID} {us cks : List String}
    (h : runMap J.worker (mapAssignment J.reducers J.jobID t) (J.emitted x) = .ok (us, cks)) :
    outputRows t us cks = J.rows t x := by
  have hout := runMap_outputs h
  rw [mapAssignment_reducers J.reducers_pos, Prod.ext_iff] at hout
  dsimp only at hout
  have hclose : ∀ p, (objectOf J.worker (mapAssignment J.reducers J.jobID t) (J.emitted x) p).close
      J.worker = (s!"shuffle://{toString J.jobID}/{p}", J.worker.sha256Hex (J.payload x p)) := by
    intro p
    rw [PartitionWriter.close, if_pos J.pushes, objectOf, writerOf,
      mapAssignment_reducers J.reducers_pos, payload, List.flatten_eq_flatMap, List.flatMap_assoc]
    simp only [List.flatMap_cons, List.flatMap_nil, List.append_nil, id]
    rfl
  rw [hout.1, hout.2, outputRows, List.zip_unzip, List.zipIdx_map, List.map_map, rows]
  refine List.map_congr_left fun p _ => ?_
  simp only [Function.comp_apply, Prod.map, hclose]
  rfl

theorem payload_ne_nil {x : UUID} {p : Nat} (h : p ∈ J.partitions x) : J.payload x p ≠ [] := by
  obtain ⟨r, hr⟩ := List.exists_mem_of_ne_nil _ ((mem_partitionsOf J.reducers_pos).mp h)
  intro hnil
  exact absurd (List.flatMap_eq_nil_iff.mp hnil r hr) (List.append_ne_nil_of_right_ne_nil _ nofun)

end MapJob

/-- The Map task of the job that the attempt was made for. -/
def DB.mapTaskOf (db : DB) (j x : UUID) : Option UUID :=
  (db.attempts.get? x).bind fun a => if db.isMapOf j a.taskID then some a.taskID else none

/-! ## 2. Steps -/

def shuffleChunkSizeBytes : Nat := 1048576

/-- A push stream of an attempt. -/
inductive Push where
  | unopened
  /-- The handler of the stream, and the bytes that it has not got yet. -/
  | streaming (handler : PushStream) (rest : Bytes)
  /-- Close has returned without error. -/
  | closed
  /-- The stream was aborted or refused, or it broke. -/
  | gone
deriving DecidableEq

structure Exchange where
  world : World
  server : ShuffleServer
  push : UUID → Nat → Push
  /-- The streams that have become blobs, with their attempt and partition. -/
  stored : List (UUID × Nat × Bytes)
  /-- The Map tasks of the job that were completed, with the attempt. -/
  committed : List (UUID × UUID)

variable {e' : Exchange}

namespace Exchange

def initial (maxConcurrentPods : Option Nat) : Exchange :=
  ⟨World.initial maxConcurrentPods, newShuffleServer, fun _ _ => .unopened, [], []⟩

def setPush (e : Exchange) (x : UUID) (p : Nat) (st : Push) : Exchange :=
  { e with push := Function.update e.push x (Function.update (e.push x) p st) }

/-- The handler reaches the end of the stream. -/
def endStream (e : Exchange) (x : UUID) (p : Nat) (handler : PushStream) (after : Push) :
    Exchange :=
  match e.server.eof handler with
  | (.ok _, server) =>
    { e.setPush x p after with
      server := server
      stored := if handler.jobID = "" then e.stored else e.stored ++ [(x, p, handler.buf)] }
  | (.error _, server) => { e.setPush x p .gone with server := server }

/-- Write has filled a chunk. -/
def send (J : MapJob) (e : Exchange) (x : UUID) (p : Nat) : Option Exchange :=
  match e.push x p with
  | .streaming handler rest =>
    if rest.length < shuffleChunkSizeBytes then none else
    match e.server.recv handler (J.chunk p (rest.take shuffleChunkSizeBytes)) with
    | .ok handler => some (e.setPush x p (.streaming handler (rest.drop shuffleChunkSizeBytes)))
    | .error _ => some (e.setPush x p .gone)
  | _ => none

/-- Close sends what is left in the buffer and ends the stream. -/
def close (J : MapJob) (e : Exchange) (x : UUID) (p : Nat) : Option Exchange :=
  match e.push x p with
  | .streaming handler rest =>
    if shuffleChunkSizeBytes ≤ rest.length then none else
    if rest.isEmpty then some (e.endStream x p handler .closed) else
    match e.server.recv handler (J.chunk p rest) with
    | .ok handler => some (e.endStream x p handler .closed)
    | .error _ => some (e.setPush x p .gone)
  | _ => none

/-- Abort ends the stream where it is. -/
def abort (e : Exchange) (x : UUID) (p : Nat) : Option Exchange :=
  match e.push x p with
  | .streaming handler _ => some (e.endStream x p handler .gone)
  | _ => none

/-- The attempt reports the outputs that runMap has returned. -/
def report (J : MapJob) (e : Exchange) (x : UUID) (s : Scheduler) (lease : UUID) (now : Time)
    (locked : Resource → Bool) : Option Exchange :=
  match e.world.db.mapTaskOf J.jobID x with
  | none => none
  | some t =>
    match runMap J.worker (mapAssignment J.reducers J.jobID t) (J.emitted x) with
    | .error _ => none
    | .ok (us, cks) =>
      if ∀ p ∈ J.partitions x, e.push x p = .closed then
        let call := Call.completeTask s t x lease us cks
        (next e.world (.call call now locked)).map fun w =>
          { e with
            world := w
            committed := if (perform call now locked e.world.db).1.result.isOk then
              e.committed ++ [(t, x)] else e.committed }
      else none

end Exchange

inductive Act where
  /-- A step of the cluster that is not the report of a Map task of the job. -/
  | cluster (a : Label)
  | openPush (x : UUID) (p : Nat)
  | send (x : UUID) (p : Nat)
  | close (x : UUID) (p : Nat)
  | abort (x : UUID) (p : Nat)
  | lose (x : UUID) (p : Nat)
  | report (x : UUID) (s : Scheduler) (lease : UUID) (now : Time) (locked : Resource → Bool)

/-- The step completes no Map task of the job. -/
def Foreign (j : UUID) (db : DB) : Label → Prop
  | .call (.completeTask _ t _ _ _ _) _ _ => db.isMapOf j t = false
  | _ => True

instance (j : UUID) (db : DB) (a : Label) : Decidable (Foreign j db a) := by
  induction a using Label.casesOn with
  | call c => induction c using Call.casesOn <;> dsimp only [Foreign] <;> infer_instance
  | _ => exact instDecidableTrue

def exchange (J : MapJob) (e : Exchange) : Act → Option Exchange
  | .cluster a =>
    if Foreign J.jobID e.world.db a then (next e.world a).map fun w => { e with world := w }
    else none
  | .openPush x p =>
    if e.push x p = .unopened ∧ (e.world.db.mapTaskOf J.jobID x).isSome = true ∧
        p ∈ J.partitions x then
      some (e.setPush x p (.streaming .begin (J.payload x p)))
    else none
  | .send x p => e.send J x p
  | .close x p => e.close J x p
  | .abort x p => e.abort x p
  | .lose x p =>
    match e.push x p with
    | .streaming _ _ => some (e.setPush x p .gone)
    | _ => none
  | .report x s lease now locked => e.report J x s lease now locked

abbrev Exchanges (J : MapJob) : Exchange → Act → Exchange → Prop := Steps (exchange J)

/-! ## 3. Streams -/

theorem setPush_push (e : Exchange) (x x' : UUID) (p p' : Nat) (st : Push) :
    (e.setPush x p st).push x' p' = if x' = x ∧ p' = p then st else e.push x' p' := by
  unfold Exchange.setPush
  dsimp only
  by_cases hx : x' = x
  · subst hx
    rw [Function.update_self]
    by_cases hp : p' = p
    · rw [if_pos ⟨rfl, hp⟩, hp, Function.update_self]
    · rw [if_neg fun h => hp h.2, Function.update_of_ne hp]
  · rw [if_neg fun h => hx h.1, Function.update_of_ne hx]

/-- The handler of a stream that has sent a part of the payload. -/
structure Handles (J : MapJob) (p : Nat) (handler : PushStream) : Prop where
  target : handler.jobID ≠ "" → handler.jobID = toString J.jobID ∧ handler.partitionID = p
  begun : handler.jobID = "" → handler.buf = []

theorem handles_begin (J : MapJob) (p : Nat) : Handles J p .begin :=
  ⟨fun h => absurd rfl h, fun _ => rfl⟩

theorem Handles.recv {p : Nat} {s : ShuffleServer} {handler' : PushStream} {data : Bytes}
    (h : s.recv handler (J.chunk p data) = .ok handler') :
    Handles J p handler' ∧ handler'.jobID ≠ "" ∧ handler'.buf = handler.buf ++ data := by
  obtain ⟨hj, hp, hne, hbuf⟩ := ShuffleServer.recv_ok h
  exact ⟨⟨fun _ => ⟨hj, hp⟩, fun he => absurd (hj.symm.trans he) hne⟩, hj ▸ hne, hbuf⟩

/-- The streams and the blobs of the job. -/
structure Pushes (J : MapJob) (e : Exchange) : Prop where
  blobs : ∀ p : Nat, e.server.blobs (toString J.jobID) p =
    (e.stored.filter fun s => decide (s.2.1 = p)).map fun s => s.2.2
  once : (e.stored.map fun s => (s.1, s.2.1)).Nodup
  unopened : ∀ x p b, e.push x p = .unopened → (x, p, b) ∉ e.stored
  streaming : ∀ x p handler rest, e.push x p = .streaming handler rest →
    p ∈ J.partitions x ∧ Handles J p handler ∧ handler.buf ++ rest = J.payload x p ∧
      ∀ b, (x, p, b) ∉ e.stored
  closed : ∀ x p, e.push x p = .closed → (x, p, J.payload x p) ∈ e.stored
  partition : ∀ x p b, (x, p, b) ∈ e.stored → p ∈ J.partitions x
  owner : ∀ x p, e.push x p ≠ .unopened → (e.world.db.mapTaskOf J.jobID x).isSome = true

theorem pushes_initial (J : MapJob) (q : Option Nat) : Pushes J (.initial q) :=
  ⟨fun _ => rfl, .nil, fun _ _ _ _ => nofun, nofun, nofun, nofun, fun _ _ h => absurd rfl h⟩

namespace Pushes

variable {J : MapJob} {e : Exchange} {x : UUID} {p : Nat}

/-- The bytes of a closed stream are what the attempt wrote. -/
theorem stored_closed (h : Pushes J e) (hc : e.push x p = .closed) {b : Bytes}
    (hb : (x, p, b) ∈ e.stored) : b = J.payload x p := by
  have hinj := List.inj_on_of_nodup_map h.once hb (h.closed x p hc) rfl
  cases hinj
  rfl

/-- A stream that is not stored may become `gone` or go on. -/
theorem setPush (h : Pushes J e) {st : Push} (hold : e.push x p ≠ .closed)
    (hnew : st ≠ .unopened ∧ st ≠ .closed)
    (howner : (e.world.db.mapTaskOf J.jobID x).isSome = true)
    (hst : ∀ handler rest, st = .streaming handler rest →
      p ∈ J.partitions x ∧ Handles J p handler ∧ handler.buf ++ rest = J.payload x p ∧
        ∀ b, (x, p, b) ∉ e.stored) : Pushes J (e.setPush x p st) := by
  refine ⟨h.blobs, h.once, fun x' p' b hp => ?_, fun x' p' handler rest hp => ?_,
    fun x' p' hp => ?_, h.partition, fun x' p' hp => ?_⟩
  · rw [setPush_push] at hp
    split at hp
    · exact absurd hp hnew.1
    · exact h.unopened x' p' b hp
  · rw [setPush_push] at hp
    split at hp
    · next he =>
      obtain ⟨rfl, rfl⟩ := he
      exact hst handler rest hp
    · exact h.streaming x' p' handler rest hp
  · rw [setPush_push] at hp
    split at hp
    · exact absurd hp hnew.2
    · exact h.closed x' p' hp
  · rw [setPush_push] at hp
    split at hp
    · next he =>
      rw [he.1]
      exact howner
    · exact h.owner x' p' hp

/-- The end of a stream: it is stored, if a chunk of it has arrived, and closed only if the
whole payload has. -/
theorem endStream (h : Pushes J e) {after : Push} (hhandles : Handles J p handler)
    (hp : p ∈ J.partitions x) (hnot : ∀ b, (x, p, b) ∉ e.stored) (hold : e.push x p ≠ .closed)
    (howner : (e.world.db.mapTaskOf J.jobID x).isSome = true)
    (hafter : after = .gone ∨ after = .closed ∧ handler.jobID ≠ "" ∧ handler.buf = J.payload x p) :
    Pushes J (e.endStream x p handler after) := by
  have hgone : Pushes J (e.setPush x p .gone) :=
    h.setPush hold ⟨nofun, nofun⟩ howner fun _ _ he => nomatch he
  unfold Exchange.endStream
  split
  · next server heof =>
    by_cases hjob : handler.jobID = ""
    · rcases hafter with rfl | ⟨_, hne, _⟩
      · rw [ShuffleServer.eof_unopened hjob] at heof
        cases heof
        rw [if_pos hjob]
        exact hgone
      · exact absurd hjob hne
    · obtain ⟨hj, hpart⟩ := hhandles.target hjob
      have hafter' : after ≠ .unopened ∧ ∀ handler rest, after ≠ .streaming handler rest := by
        rcases hafter with rfl | ⟨rfl, _⟩ <;> exact ⟨nofun, nofun⟩
      rw [if_neg hjob]
      refine ⟨fun p' => ?_, ?_, fun x' p' b hpush => ?_, fun x' p' handler' rest hpush => ?_,
        fun x' p' hpush => ?_, fun x' p' b hb => ?_, fun x' p' hpush => ?_⟩
      · show server.blobs _ _ = _
        rw [ShuffleServer.eof_ok hjob heof, h.blobs p', List.filter_append, List.map_append]
        by_cases hpp : p' = p
        · subst hpp
          rw [if_pos ⟨hj.symm, hpart.symm⟩, List.filter_singleton, decide_eq_true rfl]
          rfl
        · rw [if_neg fun he => hpp (Int.ofNat.inj (he.2.trans hpart)), List.filter_singleton,
            decide_eq_false fun he => hpp he.symm]
          exact (List.append_nil _).symm
      · rw [List.map_append]
        refine List.nodup_append.mpr ⟨h.once, List.nodup_singleton _, ?_⟩
        rintro key hkey _ hnew rfl
        obtain ⟨s, hs, rfl⟩ := List.mem_map.mp hkey
        have heq := List.mem_singleton.mp hnew
        exact hnot s.2.2 (by cases heq; exact hs)
      · have hpush : (e.setPush x p after).push x' p' = .unopened := hpush
        rw [setPush_push] at hpush
        split at hpush
        · exact absurd hpush hafter'.1
        · next hne =>
          intro hb
          rcases List.mem_append.mp hb with hb | hb
          · exact h.unopened x' p' b hpush hb
          · cases List.mem_singleton.mp hb
            exact hne ⟨rfl, rfl⟩
      · have hpush : (e.setPush x p after).push x' p' = .streaming handler' rest := hpush
        rw [setPush_push] at hpush
        split at hpush
        · exact absurd hpush (hafter'.2 _ _)
        · next hne =>
          obtain ⟨hpart', hhandles', hbuf, hnot'⟩ := h.streaming x' p' handler' rest hpush
          refine ⟨hpart', hhandles', hbuf, fun b hb => ?_⟩
          rcases List.mem_append.mp hb with hb | hb
          · exact hnot' b hb
          · cases List.mem_singleton.mp hb
            exact hne ⟨rfl, rfl⟩
      · have hnow := (setPush_push e x x' p p' after).symm.trans hpush
        split at hnow
        · next he =>
          obtain ⟨rfl, rfl⟩ := he
          rcases hafter with hgone | ⟨_, _, hbuf⟩
          · exact nomatch hgone.symm.trans hnow
          · exact List.mem_append_right _ (List.mem_singleton.mpr (by rw [hbuf]))
        · exact List.mem_append_left _ (h.closed x' p' hnow)
      · rcases List.mem_append.mp hb with hb | hb
        · exact h.partition x' p' b hb
        · cases List.mem_singleton.mp hb
          exact hp
      · have hpush : (e.setPush x p after).push x' p' ≠ .unopened := hpush
        rw [setPush_push] at hpush
        split at hpush
        · next he => exact he.1 ▸ howner
        · exact h.owner x' p' hpush
  · next server heof =>
    exact { hgone with blobs := fun p' => (ShuffleServer.eof_error heof _ _).trans (h.blobs p') }

theorem send (h : Pushes J e) (hs : e.send J x p = some e') : Pushes J e' := by
  unfold Exchange.send at hs
  split at hs
  · next handler rest hpush =>
    obtain ⟨hp, _, hbuf, hnot⟩ := h.streaming x p handler rest hpush
    have hold : e.push x p ≠ .closed := by rw [hpush]; nofun
    have howner := h.owner x p (by rw [hpush]; nofun)
    split at hs
    · cases hs
    split at hs
    · next handler' hrecv =>
      cases hs
      obtain ⟨hhandles', _, hbuf'⟩ := Handles.recv hrecv
      refine h.setPush hold ⟨nofun, nofun⟩ howner ?_
      rintro _ _ ⟨⟩
      refine ⟨hp, hhandles', ?_, hnot⟩
      rw [hbuf', List.append_assoc, List.take_append_drop, hbuf]
    · cases hs
      exact h.setPush hold ⟨nofun, nofun⟩ howner fun _ _ he => nomatch he
  · cases hs

theorem close (h : Pushes J e) (hs : e.close J x p = some e') : Pushes J e' := by
  unfold Exchange.close at hs
  split at hs
  · next handler rest hpush =>
    obtain ⟨hp, hhandles, hbuf, hnot⟩ := h.streaming x p handler rest hpush
    have hold : e.push x p ≠ .closed := by rw [hpush]; nofun
    have howner := h.owner x p (by rw [hpush]; nofun)
    split at hs
    · cases hs
    split at hs
    · next hnil =>
      cases hs
      rw [List.isEmpty_iff.mp hnil, List.append_nil] at hbuf
      refine h.endStream hhandles hp hnot hold howner (.inr ⟨rfl, fun hjob => ?_, hbuf⟩)
      exact MapJob.payload_ne_nil hp (hbuf.symm.trans (hhandles.begun hjob))
    · split at hs
      · next handler' hrecv =>
        cases hs
        obtain ⟨hhandles', hjob, hbuf'⟩ := Handles.recv hrecv
        exact h.endStream hhandles' hp hnot hold howner (.inr ⟨rfl, hjob, hbuf'.trans hbuf⟩)
      · cases hs
        exact h.setPush hold ⟨nofun, nofun⟩ howner fun _ _ he => nomatch he
  · cases hs

theorem abort (h : Pushes J e) {e' : Exchange} (hs : e.abort x p = some e') : Pushes J e' := by
  unfold Exchange.abort at hs
  split at hs
  · next handler rest hpush =>
    cases hs
    obtain ⟨hp, hhandles, _, hnot⟩ := h.streaming x p handler rest hpush
    exact h.endStream hhandles hp hnot (by rw [hpush]; nofun)
      (h.owner x p (by rw [hpush]; nofun)) (.inl rfl)
  · cases hs

/-- The streams do not depend on the rest of the state, the tasks of their attempts apart. -/
theorem congr (h : Pushes J e) (hserver : e'.server = e.server) (hpush : e'.push = e.push)
    (hstored : e'.stored = e.stored) (howner : ∀ x, (e.world.db.mapTaskOf J.jobID x).isSome = true →
      (e'.world.db.mapTaskOf J.jobID x).isSome = true) : Pushes J e' where
  blobs := by rw [hserver, hstored]; exact h.blobs
  once := by rw [hstored]; exact h.once
  unopened := by rw [hpush, hstored]; exact h.unopened
  streaming := by rw [hpush, hstored]; exact h.streaming
  closed := by rw [hpush, hstored]; exact h.closed
  partition := by rw [hstored]; exact h.partition
  owner := by rw [hpush]; exact fun x p hp => howner x (h.owner x p hp)

end Pushes

end KubeMapReduce
