import Mathlib.Algebra.BigOperators.Finprod
import KubeMapReduce.Lib.Run
import KubeMapReduce.Shuffle

/-!
# The sizes of the shuffle service

Any number of PushShuffleData streams are open at the same time. A handler checks the sizes for
each chunk, under the read lock and with what it has buffered, and once more at the end of its
stream, under the write lock; between the two other streams can end.

* `Accounted`: the counters are the lengths of the blobs, and they are within the limits.
* `step_cases`: what one step of a handler can do to the server.
* `pushes_accounted`: the counters after every run; a push that fails leaves what GetShuffleData
  returns, and a push that succeeds adds one blob.
-/

namespace KubeMapReduce

open Runs

/-! ## 1. The counters -/

namespace ShuffleServer

variable {s : ShuffleServer} {st : PushStream}

/-- The bytes that are stored for a partition. -/
def stored (s : ShuffleServer) (jobID : String) (partitionID : Int) : Nat :=
  ((s.blobs jobID partitionID).map List.length).sum

structure Accounted (s : ShuffleServer) : Prop where
  partitions : ∀ j p, s.partSizes j p = s.stored j p
  finite : ∀ j, (Function.support (s.stored j)).Finite
  jobs : ∀ j, s.jobSizes j = ∑ᶠ p, s.stored j p
  partitionLimit : ∀ j p, s.partSizes j p ≤ maxShufflePartitionBytes
  jobLimit : ∀ j, s.jobSizes j ≤ maxShuffleJobBytes

theorem newShuffleServer_accounted : newShuffleServer.Accounted where
  partitions _ _ := rfl
  finite j := by
    have hzero : newShuffleServer.stored j = fun _ => 0 := rfl
    simp [hzero]
  jobs _ := finsum_zero.symm
  partitionLimit _ _ := Nat.zero_le _
  jobLimit _ := Nat.zero_le _

/-- A job without entry has no bytes. -/
theorem Accounted.of_none (h : s.Accounted) {j : String} (hj : s.data j = none) :
    (∀ p, s.partSizes j p = 0) ∧ s.jobSizes j = 0 := by
  have hstored : ∀ p, s.stored j p = 0 := fun p => by
    rw [stored, blobs, hj]
    rfl
  refine ⟨fun p => (h.partitions j p).trans (hstored p), ?_⟩
  rw [h.jobs j, finsum_congr hstored]
  exact finsum_zero

/-- What the end of the stream checks. -/
def Fits (s : ShuffleServer) (st : PushStream) : Prop :=
  s.partSizes st.jobID st.partitionID + st.buf.length ≤ maxShufflePartitionBytes ∧
    s.jobSizes st.jobID + st.buf.length ≤ maxShuffleJobBytes

/-- The end of a stream that fits adds its length to the counters. -/
theorem eof_of_fits (hst : st.jobID ≠ "") (h : s.Fits st) :
    s.eof st = (.ok (), (s.eof st).2) ∧
      (∀ j p, (s.eof st).2.partSizes j p = s.partSizes j p +
        if j = st.jobID ∧ p = st.partitionID then st.buf.length else 0) ∧
      ∀ j, (s.eof st).2.jobSizes j =
        s.jobSizes j + if j = st.jobID then st.buf.length else 0 := by
  rw [eof, if_neg hst]
  dsimp only
  rw [if_neg (Nat.not_lt.mpr h.1), if_neg (Nat.not_lt.mpr h.2)]
  refine ⟨rfl, fun j p => ?_, fun j => ?_⟩
  · dsimp only
    by_cases hj : j = st.jobID
    · subst hj
      by_cases hp : p = st.partitionID
      · subst hp
        rw [Function.update_self, Function.update_self, if_pos ⟨rfl, rfl⟩]
      · rw [Function.update_self, Function.update_of_ne hp, if_neg fun h => hp h.2, Nat.add_zero]
    · rw [Function.update_of_ne hj, if_neg fun h => hj h.1, Nat.add_zero]
  · dsimp only
    by_cases hj : j = st.jobID
    · subst hj
      rw [Function.update_self, if_pos rfl]
    · rw [Function.update_of_ne hj, if_neg hj, Nat.add_zero]

/-- A refused stream changes nothing when the job has an entry. -/
theorem eof_of_not_fits (hst : st.jobID ≠ "") (h : ¬ s.Fits st)
    (hdata : (s.data st.jobID).isSome = true) : ∃ e, s.eof st = (.error e, s) := by
  obtain ⟨parts, hparts⟩ := Option.isSome_iff_exists.mp hdata
  have hsame : Function.update s.data st.jobID (some ((s.data st.jobID).getD fun _ => [])) =
      s.data := by
    rw [hparts, Option.getD_some, ← hparts, Function.update_eq_self]
  rw [eof, if_neg hst]
  dsimp only
  rw [hsame]
  split
  · exact ⟨_, rfl⟩
  split
  · exact ⟨_, rfl⟩
  · next hpart hjob => exact absurd ⟨Nat.not_lt.mp hpart, Nat.not_lt.mp hjob⟩ h

/-- The stream of a job without entry fits, if its buffer does. -/
theorem Accounted.fits_of_none (h : s.Accounted) (hdata : s.data st.jobID = none)
    (hbuf : st.buf.length ≤ maxShufflePartitionBytes) : s.Fits st := by
  obtain ⟨hpart, hjob⟩ := h.of_none hdata
  rw [Fits, hpart, hjob, Nat.zero_add]
  exact ⟨hbuf, Nat.le_trans hbuf (by decide)⟩

theorem stored_eof (hst : st.jobID ≠ "") (h : s.Fits st) (j : String) (p : Int) :
    (s.eof st).2.stored j p =
      s.stored j p + if j = st.jobID ∧ p = st.partitionID then st.buf.length else 0 := by
  rw [stored, stored, eof_ok hst (eof_of_fits hst h).1]
  split
  · rw [List.map_append, List.sum_append]
    simp
  · rw [Nat.add_zero]

/-- A function with one value. -/
theorem finsum_one (c : Prop) [Decidable c] (p₀ : Int) (n : Nat) :
    (Function.support fun p => if c ∧ p = p₀ then n else 0).Finite ∧
      (∑ᶠ p, if c ∧ p = p₀ then n else 0) = if c then n else 0 := by
  have hzero : ∀ p, p ≠ p₀ → (if c ∧ p = p₀ then n else 0) = 0 := fun p hp => if_neg fun h => hp h.2
  constructor
  · refine (Set.finite_singleton p₀).subset fun p hp => ?_
    by_contra hne
    exact hp (hzero p hne)
  · rw [finsum_eq_single _ p₀ hzero]
    simp only [and_true]

/-- The end of a stream keeps the counters. -/
theorem Accounted.eof (h : s.Accounted) (hst : st.jobID ≠ "") (hfits : s.Fits st) :
    (s.eof st).2.Accounted := by
  obtain ⟨_, hparts, hjobs⟩ := eof_of_fits hst hfits
  have hstored := stored_eof hst hfits
  have hadded := fun j => finsum_one (j = st.jobID) st.partitionID st.buf.length
  refine ⟨fun j p => ?_, fun j => ?_, fun j => ?_, fun j p => ?_, fun j => ?_⟩
  · rw [hparts, hstored, h.partitions]
  · rw [funext (hstored j)]
    exact ((h.finite j).union (hadded j).1).subset (Function.support_add _ _)
  · rw [hjobs, finsum_congr (hstored j), finsum_add_distrib (h.finite j) (hadded j).1, h.jobs,
      (hadded j).2]
  · rw [hparts]
    split
    · next heq =>
      rw [heq.1, heq.2]
      exact hfits.1
    · exact h.partitionLimit j p
  · rw [hjobs]
    split
    · next heq =>
      rw [heq]
      exact hfits.2
    · exact h.jobLimit j

end ShuffleServer

/-! ## 2. Concurrent pushes -/

/-- Why a push returns an error: the stream breaks, or the server refuses it. -/
inductive PushErr where
  | transport
  | status (status : Status)
deriving DecidableEq

/-- A PushShuffleData call: its variables, the chunks that it has accepted, and what it has
returned. -/
structure PushCall where
  stream : PushStream
  received : List ShuffleDataChunk
  result : Option (Except PushErr Unit)

def PushCall.begin : PushCall := ⟨.begin, [], none⟩

/-- What Recv returns: a chunk, io.EOF or another error. -/
inductive PushEvent where
  | recv (chunk : ShuffleDataChunk)
  | eof
  | broken
deriving DecidableEq

variable {as : List (Nat × PushEvent)} {l : Nat × PushEvent}

namespace PushCall

def receive (s : ShuffleServer) (c : PushCall) (chunk : ShuffleDataChunk) : PushCall :=
  match s.recv c.stream chunk with
  | .ok st => { c with stream := st, received := c.received ++ [chunk] }
  | .error status => { c with result := some (.error (.status status)) }

def returns (c : PushCall) (r : Except Status Unit) : PushCall :=
  { c with result := some (r.mapError .status) }

def step (s : ShuffleServer) (c : PushCall) : PushEvent → ShuffleServer × PushCall
  | .recv chunk => (s, c.receive s chunk)
  | .eof => ((s.eof c.stream).2, c.returns (s.eof c.stream).1)
  | .broken => (s, { c with result := some (.error .transport) })

/-- The chunks of the call, as one. -/
def payload (c : PushCall) : Bytes := c.received.flatMap ShuffleDataChunk.data

end PushCall

/-- The service with its calls. -/
structure ShuffleService where
  server : ShuffleServer
  calls : Nat → PushCall

def ShuffleService.initial : ShuffleService := ⟨newShuffleServer, fun _ => .begin⟩

/-- A call that has not returned goes on. -/
def ShuffleService.next (m : ShuffleService) (l : Nat × PushEvent) : Option ShuffleService :=
  if (m.calls l.1).result.isSome then none else
  some ⟨((m.calls l.1).step m.server l.2).1,
    Function.update m.calls l.1 ((m.calls l.1).step m.server l.2).2⟩

/-! ## 3. One step -/

/-- The variables of a call agree with the chunks that it has accepted. -/
structure PushCall.Sound (c : PushCall) : Prop where
  opened : c.received = [] ↔ c.stream.jobID = ""
  target : ∀ chunk ∈ c.received,
    chunk.jobID = c.stream.jobID ∧ chunk.partitionID = c.stream.partitionID
  buf : c.stream.buf = c.payload
  fits : c.stream.buf.length ≤ maxShufflePartitionBytes

theorem PushCall.begin_sound : PushCall.begin.Sound :=
  ⟨iff_of_true rfl rfl, nofun, rfl, Nat.zero_le _⟩

namespace ShuffleServer

variable {s : ShuffleServer} {st st' : PushStream} {chunk : ShuffleDataChunk}

/-- An accepted chunk goes to the target of the stream, if that is known. -/
theorem recv_target (h : s.recv st chunk = .ok st') (hst : st.jobID ≠ "") :
    st'.jobID = st.jobID ∧ st'.partitionID = st.partitionID := by
  obtain ⟨_, _, _, _, rfl⟩ := recv_accepted h
  rw [PushStream.targeted, if_neg hst]
  exact ⟨rfl, rfl⟩

theorem recv_fits (h : s.recv st chunk = .ok st') :
    st'.buf.length ≤ maxShufflePartitionBytes := by
  obtain ⟨_, _, _, hfits, rfl⟩ := recv_accepted h
  rw [List.length_append]
  exact hfits

end ShuffleServer

section Step

variable {s : ShuffleServer} {c : PushCall}

theorem PushCall.Sound.recv (hc : c.Sound) {chunk : ShuffleDataChunk} {st : PushStream}
    (h : s.recv c.stream chunk = .ok st) :
    Sound { c with stream := st, received := c.received ++ [chunk] } := by
  obtain ⟨hj, hp, hne, hbuf⟩ := ShuffleServer.recv_ok h
  refine ⟨iff_of_false (by simp) (by rw [hj]; exact hne), fun chunk' hmem => ?_, ?_,
    ShuffleServer.recv_fits h⟩
  · rcases List.mem_append.mp hmem with hmem | hmem
    · have hopen : c.stream.jobID ≠ "" :=
        fun h0 => List.ne_nil_of_mem hmem (hc.opened.mpr h0)
      obtain ⟨hj', hp'⟩ := ShuffleServer.recv_target h hopen
      rw [hj', hp']
      exact hc.target chunk' hmem
    · cases List.mem_singleton.mp hmem
      exact ⟨hj.symm, hp.symm⟩
  · rw [hbuf, hc.buf]
    simp [payload]

/-- What one step of a call does: it goes on, it fails, or it returns without error. Only the last
one changes the server, and only if the call has accepted a chunk. -/
theorem PushCall.step_cases (hs : s.Accounted) (hc : c.Sound) (hopen : c.result = none)
    (ev : PushEvent) :
    (ev ≠ .eof ∧ (c.step s ev).1 = s ∧ (c.step s ev).2.Sound ∧ (c.step s ev).2.result = none) ∨
    (∃ e, (c.step s ev).1 = s ∧ (c.step s ev).2 = { c with result := some (.error e) }) ∨
    (ev = .eof ∧ (c.step s ev).2 = { c with result := some (.ok ()) } ∧
      (c.received = [] ∧ (c.step s ev).1 = s ∨
        c.received ≠ [] ∧ s.Fits c.stream ∧ (c.step s ev).1 = (s.eof c.stream).2)) := by
  cases ev with
  | recv chunk =>
    dsimp only [step, receive]
    cases h : s.recv c.stream chunk with
    | ok st => exact .inl ⟨by simp, rfl, hc.recv h, hopen⟩
    | error status => exact .inr (.inl ⟨.status status, rfl, rfl⟩)
  | broken => exact .inr (.inl ⟨.transport, rfl, rfl⟩)
  | eof =>
    by_cases hst : c.stream.jobID = ""
    · have heof := ShuffleServer.eof_unopened (s := s) hst
      refine .inr (.inr ⟨rfl, ?_, .inl ⟨hc.opened.mpr hst, ?_⟩⟩)
      · rw [step, heof]
        rfl
      · rw [step, heof]
    · have hrec : c.received ≠ [] := fun h => hst (hc.opened.mp h)
      by_cases hfits : s.Fits c.stream
      · have heof := (ShuffleServer.eof_of_fits hst hfits).1
        refine .inr (.inr ⟨rfl, ?_, .inr ⟨hrec, hfits, rfl⟩⟩)
        rw [step, heof]
        rfl
      · -- the entry of the job is there: without it the counters are zero
        have hdata : (s.data c.stream.jobID).isSome = true := by
          refine Option.isSome_iff_ne_none.mpr fun hnone => hfits ?_
          exact hs.fits_of_none hnone hc.fits
        obtain ⟨e, heof⟩ := ShuffleServer.eof_of_not_fits hst hfits hdata
        refine .inr (.inl ⟨.status e, ?_, ?_⟩)
        · rw [step, heof]
        · rw [step, heof]
          rfl

end Step

/-! ## 4. Runs -/

structure ShuffleService.Sound (m : ShuffleService) : Prop where
  server : m.server.Accounted
  calls : ∀ i, (m.calls i).Sound

section Runs

variable {m m' : ShuffleService} {i : Nat} {ev : PushEvent}

theorem ShuffleService.next_some (h : m.next l = some m') :
    (m.calls l.1).result = none ∧ m'.server = ((m.calls l.1).step m.server l.2).1 ∧
      m'.calls = Function.update m.calls l.1 ((m.calls l.1).step m.server l.2).2 := by
  unfold next at h
  split at h
  · cases h
  · next hopen =>
    cases h
    exact ⟨by simpa using hopen, rfl, rfl⟩

theorem ShuffleService.Sound.next (hm : m.Sound) (h : m.next l = some m') : m'.Sound := by
  obtain ⟨hopen, hserver, hcalls⟩ := next_some h
  have hkeep : ∀ c : PushCall, c.Sound → m'.calls = Function.update m.calls l.1 c →
      ∀ k, (m'.calls k).Sound := by
    intro c hc heq k
    rw [heq]
    by_cases hk : k = l.1
    · rw [hk, Function.update_self]
      exact hc
    · rw [Function.update_of_ne hk]
      exact hm.calls k
  have hresult : ∀ r, PushCall.Sound { m.calls l.1 with result := r } := fun r =>
    have hc := hm.calls l.1
    ⟨hc.opened, hc.target, hc.buf, hc.fits⟩
  rcases PushCall.step_cases hm.server (hm.calls l.1) hopen l.2 with
    ⟨_, hs, hc, _⟩ | ⟨e, hs, hc⟩ | ⟨_, hc, ⟨_, hs⟩ | ⟨hrec, hfits, hs⟩⟩
  · exact ⟨by rw [hserver, hs]; exact hm.server, hkeep _ hc hcalls⟩
  · rw [hc] at hcalls
    exact ⟨by rw [hserver, hs]; exact hm.server, hkeep _ (hresult _) hcalls⟩
  · rw [hc] at hcalls
    exact ⟨by rw [hserver, hs]; exact hm.server, hkeep _ (hresult _) hcalls⟩
  · rw [hc] at hcalls
    have hst : (m.calls l.1).stream.jobID ≠ "" :=
      fun h0 => hrec ((hm.calls l.1).opened.mpr h0)
    exact ⟨by rw [hserver, hs]; exact hm.server.eof hst hfits, hkeep _ (hresult _) hcalls⟩

theorem ShuffleService.sound_run (h : Run (Steps ShuffleService.next) .initial as m) : m.Sound :=
  h.invariant (fun _ _ _ hm hs => hm.next hs)
    ⟨ShuffleServer.newShuffleServer_accounted, fun _ => PushCall.begin_sound⟩

/-- A call that has returned takes no step any more. -/
theorem ShuffleService.returned_run {r : Except PushErr Unit}
    (h : Run (Steps ShuffleService.next) m as m') (hr : (m.calls i).result = some r) :
    m'.calls i = m.calls i ∧ ∀ l ∈ as, l.1 ≠ i := by
  induction h with
  | nil => exact ⟨rfl, nofun⟩
  | @cons m t u l as hstep hrest ih =>
    obtain ⟨hopen, _, hcalls⟩ := next_some hstep
    have hl : l.1 ≠ i := fun hl => by
      rw [hl, hr] at hopen
      cases hopen
    have hkept : t.calls i = m.calls i := by
      rw [hcalls, Function.update_of_ne hl.symm]
    obtain ⟨heq, hall⟩ := ih (by rw [hkept]; exact hr)
    exact ⟨heq.trans hkept, List.forall_mem_cons.mpr ⟨hl, hall⟩⟩

theorem ShuffleService.eof_returns (h : m.next (i, .eof) = some m') :
    ∃ r, (m'.calls i).result = some r := by
  obtain ⟨_, _, hcalls⟩ := next_some h
  rw [hcalls, Function.update_self]
  exact ⟨_, rfl⟩

/-- A stream ends once. -/
theorem ShuffleService.count_eof_le (h : Run (Steps ShuffleService.next) m as m') (i : Nat) :
    as.count (i, .eof) ≤ 1 := by
  induction h with
  | nil => exact Nat.zero_le _
  | @cons m t u l as hstep hrest ih =>
    rw [List.count_cons]
    split
    · next heq =>
      rw [eq_of_beq heq] at hstep
      obtain ⟨r, hr⟩ := eof_returns hstep
      have hnone : as.count (i, .eof) = 0 :=
        List.count_eq_zero.mpr fun hmem => (returned_run hrest hr).2 _ hmem rfl
      omega
    · exact ih

/-- A step that leaves its call without result, or with an error, leaves the server. -/
theorem ShuffleService.Sound.server_kept (hm : m.Sound) (h : m.next (i, ev) = some m')
    (hr : (m'.calls i).result ≠ some (.ok ()) ∨ (m.calls i).received = []) :
    m'.server = m.server := by
  obtain ⟨hopen, hserver, hcalls⟩ := next_some h
  rcases PushCall.step_cases hm.server (hm.calls i) hopen ev with
    ⟨_, hs, _⟩ | ⟨e, hs, _⟩ | ⟨_, hc, ⟨_, hs⟩ | ⟨hrec, _, _⟩⟩
  · rw [hserver, hs]
  · rw [hserver, hs]
  · rw [hserver, hs]
  · have hdone : (m'.calls i).result = some (.ok ()) := by
      rw [hcalls, Function.update_self, hc]
    exact absurd hr (not_or.mpr ⟨not_not.mpr hdone, hrec⟩)

/-- The step at which a call returns without error. -/
theorem ShuffleService.Sound.returns_ok (hm : m.Sound) (h : m.next (i, ev) = some m')
    (hr : (m'.calls i).result = some (.ok ())) :
    ev = .eof ∧ m'.calls i = { m.calls i with result := some (.ok ()) } ∧
      ((m.calls i).received ≠ [] → ∀ j p, m'.server.blobs j p =
        if j = (m.calls i).stream.jobID ∧ p = (m.calls i).stream.partitionID then
          m.server.blobs j p ++ [(m.calls i).payload] else m.server.blobs j p) := by
  obtain ⟨hopen, hserver, hcalls⟩ := next_some h
  have hcall : m'.calls i = ((m.calls i).step m.server ev).2 := by
    rw [hcalls, Function.update_self]
  rw [hcall] at hr ⊢
  rcases PushCall.step_cases hm.server (hm.calls i) hopen ev with
    ⟨_, _, _, hc⟩ | ⟨e, _, hc⟩ | ⟨hev, hc, hs⟩
  · rw [hc] at hr
    cases hr
  · rw [hc] at hr
    cases hr
  refine ⟨hev, hc, fun hrec j p => ?_⟩
  rcases hs with ⟨hnil, _⟩ | ⟨_, hfits, hs⟩
  · exact absurd hnil hrec
  · have hst : (m.calls i).stream.jobID ≠ "" := fun h0 => hrec ((hm.calls i).opened.mpr h0)
    rw [hserver, hs, ← (hm.calls i).buf]
    exact ShuffleServer.eof_ok hst (ShuffleServer.eof_of_fits hst hfits).1 j p

/-- For every interleaving of the calls. The counters are those of the blobs, and within the
limits. No step of a call that returns an error changes what GetShuffleData returns. A call that
accepts a chunk and returns without error appends its payload to one partition when its stream
ends, and no other step of it changes the server. -/
theorem pushes_accounted {as : List (Nat × PushEvent)} {m : ShuffleService}
    (h : Run (Steps ShuffleService.next) .initial as m) :
    m.server.Accounted ∧
    (∀ i e, (m.calls i).result = some (.error e) →
      ∀ t ev t', Takes (Steps ShuffleService.next) .initial as t (i, ev) t' →
        ∀ sha256Hex j p,
          t'.server.getShuffleData sha256Hex j p = t.server.getShuffleData sha256Hex j p) ∧
    ∀ i, (m.calls i).result = some (.ok ()) → (m.calls i).received ≠ [] →
      as.count (i, .eof) = 1 ∧
      ∃ j p, (∀ chunk ∈ (m.calls i).received, chunk.jobID = j ∧ chunk.partitionID = p) ∧
        ∀ t ev t', Takes (Steps ShuffleService.next) .initial as t (i, ev) t' →
          if ev = .eof then ∀ j' p', t'.server.blobs j' p' =
            if j' = j ∧ p' = p then t.server.blobs j' p' ++ [(m.calls i).payload]
            else t.server.blobs j' p'
          else t'.server = t.server := by
  have hsound := ShuffleService.sound_run h
  -- the state of a call after one of its steps is its last one, if it has returned
  have hafter : ∀ {i t ev t'}, Takes (Steps ShuffleService.next) .initial as t (i, ev) t' →
      t.Sound ∧ t.next (i, ev) = some t' ∧
        ∀ r, (t'.calls i).result = some r → m.calls i = t'.calls i := by
    intro i t ev t' htakes
    obtain ⟨_, _, _, hbs, hcs⟩ := htakes.rest h
    obtain ⟨_, _, _, _, hstep⟩ := htakes
    exact ⟨ShuffleService.sound_run hbs, hstep, fun r hr =>
      (ShuffleService.returned_run hcs hr).1⟩
  refine ⟨hsound.server, fun i e he t ev t' htakes sha256Hex j p => ?_, fun i hok hrec => ?_⟩
  · obtain ⟨ht, hstep, hlast⟩ := hafter htakes
    rw [ht.server_kept hstep (.inl fun hr => ?_)]
    rw [hlast _ hr, hr] at he
    cases he
  · have hreturn : ∀ {t ev t' r}, Takes (Steps ShuffleService.next) .initial as t (i, ev) t' →
        (t'.calls i).result = some r → r = .ok () := by
      intro t ev t' r htakes hr
      obtain ⟨_, _, hlast⟩ := hafter htakes
      rw [hlast r hr, hr] at hok
      exact Option.some.inj hok
    refine ⟨Nat.le_antisymm (ShuffleService.count_eof_le h i) (List.one_le_count_iff.mpr ?_),
      (m.calls i).stream.jobID, (m.calls i).stream.partitionID, (hsound.calls i).target, ?_⟩
    · -- the step at which the call returns
      obtain ⟨bs, ⟨k, ev⟩, cs, t, t', rfl, hbs, hstep, hcs, hbefore, hreturned⟩ :=
        h.exists_switch (P := fun m => (m.calls i).result ≠ none)
          (by simp [ShuffleService.initial, PushCall.begin]) (by simp [hok])
      have hk : k = i := by
        obtain ⟨_, _, hcalls⟩ := ShuffleService.next_some hstep
        by_contra hne
        rw [hcalls, Function.update_of_ne (Ne.symm hne)] at hreturned
        exact hbefore hreturned
      subst hk
      have htakes : Takes (Steps ShuffleService.next) .initial _ t (k, ev) t' :=
        ⟨bs, cs, rfl, hbs, hstep⟩
      obtain ⟨r, hr⟩ := Option.ne_none_iff_exists'.mp hreturned
      rw [hreturn htakes hr] at hr
      obtain ⟨rfl, _⟩ := (hafter htakes).1.returns_ok hstep hr
      simp
    · intro t ev t' htakes
      obtain ⟨ht, hstep, hlast⟩ := hafter htakes
      by_cases hev : ev = .eof
      · rw [if_pos hev]
        subst hev
        obtain ⟨r, hr⟩ := ShuffleService.eof_returns hstep
        rw [hreturn htakes hr] at hr
        obtain ⟨_, hcall, hblobs⟩ := ht.returns_ok hstep hr
        rw [hlast _ hr, hcall] at hrec ⊢
        exact hblobs hrec
      · rw [if_neg hev]
        exact ht.server_kept hstep (.inl fun hr => hev (ht.returns_ok hstep hr).1)

end Runs

/-- A chunk of job 1 for partition 0. -/
def oneByte (b : UInt8) : ShuffleDataChunk := ⟨"1", 0, [b], "", false⟩

/-- Two calls for one partition: the first one ends and the second one breaks. -/
theorem pushes_accounted_two :
    ∃ m, Run (Steps ShuffleService.next) .initial
        [(0, .recv (oneByte 7)), (1, .recv (oneByte 8)), (0, .recv (oneByte 9)), (0, .eof),
          (1, .broken)] m ∧
      m.server.blobs "1" 0 = [[7, 9]] ∧ m.server.jobSizes "1" = 2 ∧ m.server.Accounted := by
  obtain ⟨m, hrun, hblobs⟩ : ∃ m, Run (Steps ShuffleService.next) .initial
      [(0, .recv (oneByte 7)), (1, .recv (oneByte 8)), (0, .recv (oneByte 9)), (0, .eof),
        (1, .broken)] m ∧ (m.server.blobs "1" 0 = [[7, 9]] ∧ m.server.jobSizes "1" = 2) :=
    run_to (by decide)
  exact ⟨m, hrun, hblobs.1, hblobs.2, (pushes_accounted hrun).1⟩

end KubeMapReduce
