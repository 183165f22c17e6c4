import KubeMapReduce.Lib.Exits
import KubeMapReduce.MergePipes

/-!
# runMap with its files and its pipes

runMap as a whole, with every place at which it can return: the sorters with their spill files, the
merges, the user's programs, the partition writers and the deferred calls. The goroutines of the
merges move between its operations, as the environment has it.

* `MapFiles.runMap`: what runMap returns, and the files and goroutines that there are then.
* `ensures_partition`: the rule for the loop of the partition phase.
-/

namespace KubeMapReduce

open Exits Lines Runs

/-! ## 1. Operations on the files -/

/-- How the creation of a spill file and the writes to it end. -/
inductive SpillOutcome where
  | done
  | createFails
  | writeFails
deriving DecidableEq

/-- A user's program in a Map task. -/
structure CodeRun where
  prepareFails : Bool
  execFails : Bool
  output : Bytes
  readFails : Bool
  waitFails : Bool

/-- What a Map task meets. The functions are of the clock: the moves of the goroutines before an
operation, how a spill ends, and whether a call of a partition writer fails. -/
structure MapEnv where
  thresholdBytes : Int
  splitFails : Bool
  mapper : CodeRun
  combiner : Option CodeRun
  moves : Nat → List MergeMove
  spill : Nat → SpillOutcome
  writerFails : Nat → Bool

inductive MapFailure where
  | prepareCode (code : UserCode)
  | readSplit
  | exec (code : UserCode)
  | sorterAdd (code : UserCode)
  | finalize (code : UserCode)
  | stage (e : StageErr)
  | openPartition (p : Nat)
  | writePartition (p : Nat)
  | writeNewline (p : Nat)
  | closePartition (p : Nat)
deriving DecidableEq

namespace Temp

def new (thresholdBytes : Int) : Temp where
  clock := 0
  disk := []
  sorters _ := ⟨newSpillingSorter thresholdBytes, 0, []⟩
  merges _ := none
  feeding := false
  deferred := []

/-- The goroutines move before an operation of runMap. -/
def elapse (env : MapEnv) (t : Temp) : Temp :=
  { t.moveAll (env.moves t.clock) with clock := t.clock + 1 }

def setSorter (t : Temp) (code : UserCode) (s : FileSorter) : Temp :=
  { t with sorters := Function.update t.sorters code s }

def setMerge (t : Temp) (code : UserCode) (m : MergeRun) : Temp :=
  { t with merges := Function.update t.merges code (some m) }

def buffer (code : UserCode) (rec : Record) (t : Temp) : Temp :=
  let s := t.sorters code
  t.setSorter code { s with
    sorter := { s.sorter with
      buffer := s.sorter.buffer ++ [rec]
      bufferBytes := s.sorter.bufferBytes + rec.estimate } }

def clearBuffer (code : UserCode) (t : Temp) : Temp :=
  let s := t.sorters code
  t.setSorter code { s with sorter := { s.sorter with buffer := [], bufferBytes := 0 } }

/-- The file of a spill that has been written. -/
def keepSpill (sort : SliceSort) (code : UserCode) (t : Temp) : Temp :=
  let s := t.sorters code
  { t.setSorter code
      ⟨s.sorter.spill sort, s.created + 1, s.files ++ [.mapSpill code s.created]⟩ with
    disk := t.disk ++ [.mapSpill code s.created] }

/-- The file of a spill that could not be written; it was removed. -/
def dropSpill (code : UserCode) (t : Temp) : Temp :=
  let s := t.sorters code
  t.setSorter code { s with created := s.created + 1 }

def cleanup (code : UserCode) (t : Temp) : Temp :=
  let s := t.sorters code
  { t.setSorter code { s with sorter := { s.sorter with spillFiles := [] }, files := [] } with
    disk := t.disk.filter (· ∉ s.files) }

def startMerge (code : UserCode) (merged : Merged) (t : Temp) : Temp :=
  t.setMerge code ⟨.running merged.stats.spillCount merged.written.length [], true⟩

/-- The Close of spillReadCloser, or of a buffer. -/
def close (t : Temp) : SortedReader → Temp
  | .memory => t
  | .pipe code =>
    match t.merges code with
    | some ⟨work, true⟩ => (t.setMerge code ⟨work, false⟩).cleanup code
    | _ => t

def undo (t : Temp) : Deferred → Temp
  | .cleanup code => t.cleanup code
  | .close reader => t.close reader

/-- A line is read; `false` if the goroutine has ended. -/
def take (t : Temp) (code : UserCode) : Bool × Temp :=
  match (t.drive code .write).taken code with
  | some u => (true, u)
  | none => (false, t.drive code .write)

/-- The end of the stream is read; `true` is the error of a file. -/
def finish (t : Temp) (code : UserCode) : Bool × Temp :=
  (((t.drive code .finish).merges code).any (·.work = .ended true), t.drive code .finish)

end Temp

section Set

variable {t : Temp} {code code' : UserCode} {m : MergeRun} {s : FileSorter}

theorem setSorter_self : (t.setSorter code s).sorters code = s := Function.update_self ..

theorem setSorter_of_ne (h : code' ≠ code) :
    (t.setSorter code s).sorters code' = t.sorters code' := Function.update_of_ne h ..

theorem setMerge_self : (t.setMerge code m).merges code = some m := Function.update_self ..

theorem setMerge_of_ne (h : code' ≠ code) :
    (t.setMerge code m).merges code' = t.merges code' := Function.update_of_ne h ..

end Set

/-! ## 2. runMap -/

abbrev MapM := ExceptT MapFailure (StateM Temp)

namespace MapFiles

def failIf (c : Bool) (e : MapFailure) : MapM Unit := if c then throw e else pure ()

def defer (d : Deferred) : MapM Unit := modify fun t => { t with deferred := d :: t.deferred }

section Program

variable (w : MapWorker) (a : TaskAssignment) (env : MapEnv)

/-- The next operation, with its number. -/
def await : MapM Nat := modifyGet fun t => (t.clock, t.elapse env)

/-- A call of a partition writer. -/
def call (e : MapFailure) : MapM Unit := do
  let n ← await env
  failIf (env.writerFails n) e

/-- `e` is the error of the caller. -/
def spill (code : UserCode) (e : MapFailure) : MapM Unit := do
  let n ← await env
  let t ← get
  if (t.sorters code).sorter.buffer.length = 0 then pure ()
  else
    match env.spill n with
    | .createFails => throw e
    | .writeFails => do
      modify (Temp.dropSpill code)
      throw e
    | .done => modify (Temp.keepSpill w.sort code)

def add (code : UserCode) (rec : Record) : MapM Unit := do
  modify (Temp.buffer code rec)
  let t ← get
  if (t.sorters code).sorter.bufferBytes ≥ (t.sorters code).sorter.thresholdBytes then
    spill w env code (.sorterAdd code)
  else pure ()

def finalize (code : UserCode) : MapM (SortedReader × SortedStream) := do
  let t ← get
  if (t.sorters code).sorter.spillFiles.length = 0 then do
    modify (Temp.clearBuffer code)
    pure (.memory, ⟨encodeAll (w.sort.run (t.sorters code).sorter.buffer), none⟩)
  else do
    tryCatch (spill w env code (.finalize code)) fun e => do
      modify (Temp.cleanup code)
      throw e
    let t ← get
    let merged := mergeInputs w.decode ⟨0, 0⟩ (t.sorters code).sorter.spillFiles
    modify (Temp.startMerge code merged)
    pure (.pipe code, ⟨merged.output, merged.err⟩)

def addLines (code : UserCode) : List Line → MapM Unit
  | [] => pure ()
  | line :: rest =>
    if w.blank line then addLines code rest
    else
      match w.decode line with
      | none => throw (.stage (.decodeRecord code))
      | some rec => do
        add w env code rec
        addLines code rest

/-- The output of the user's code goes to its sorter. -/
def collect (code : UserCode) (run : CodeRun) : MapM Unit := do
  addLines w env code (scanOutput run.output).1
  failIf ((scanOutput run.output).2 || run.readFails) (.stage (.readOutput code))
  failIf run.waitFails (.stage (.wait code))

def close (reader : SortedReader) : MapM Unit := do
  let _ ← await env
  modify (·.close reader)

/-- With a combiner the reader is replaced; the deferred Close keeps the one it has. -/
def combine (sorted : SortedReader × SortedStream) : MapM (SortedReader × SortedStream) :=
  match env.combiner with
  | none => pure sorted
  | some c => do
    failIf c.prepareFails (.prepareCode .combiner)
    failIf c.execFails (.exec .combiner)
    modify fun t => { t with feeding := true }
    defer (.cleanup .combiner)
    collect w env .combiner c
    modify fun t => { t with feeding := false }
    close env sorted.1
    finalize w env .combiner

/-- The scanner reads a line; `false` if it gets the error of the merge. -/
def readLine : SortedReader → MapM Bool
  | .memory => pure true
  | .pipe code => do
    let _ ← await env
    modifyGet (·.take code)

/-- The scanner stops within a line. -/
def readStart : SortedReader → MapM Unit
  | .memory => pure ()
  | .pipe code => do
    let _ ← await env
    modify (·.drive code .write)

def readEnd : SortedReader → MapM Bool
  | .memory => pure false
  | .pipe code => do
    let _ ← await env
    modifyGet (·.finish code)

def openWriter (st : Partitions) (p : Nat) : MapM Unit :=
  if (st.writers p).isSome then pure () else call env (.openPartition p)

/-- The partition phase, on the lines of the sorted stream with their newlines. -/
def partition (reader : SortedReader) (err : Option MergeErr) :
    List Bytes → Partitions → MapM Partitions
  | [], st => do
    let failed ← readEnd env reader
    failIf (failed || err.isSome) (.stage .readSortedStream)
    pure st
  | raw :: rest, st =>
    match scanLine defaultMaxRecordBytes raw with
    | none => do
      readStart env reader
      throw (.stage .readSortedStream)
    | some line => do
      let ok ← readLine env reader
      failIf (!ok) (.stage .readSortedStream)
      if w.blank line then partition reader err rest st
      else
        match w.decode line with
        | none => throw (.stage .decodeSortedRecord)
        | some rec => do
          openWriter env st (hashPartition rec.key a.reducers)
          call env (.writePartition (hashPartition rec.key a.reducers))
          call env (.writeNewline (hashPartition rec.key a.reducers))
          partition reader err rest (st.add a (hashPartition rec.key a.reducers) line)

def closePartitions (st : Partitions) : List Nat → MapM (List (String × String))
  | [] => pure []
  | i :: rest => do
    call env (.closePartition i)
    let closed ← closePartitions st rest
    pure ((((st.writers i).map (·.close w.toWorker)).toList) ++ closed)

def body : MapM (List String × List String) := do
  failIf env.mapper.prepareFails (.prepareCode .mapper)
  failIf env.splitFails .readSplit
  failIf env.mapper.execFails (.exec .mapper)
  defer (.cleanup .mapper)
  collect w env .mapper env.mapper
  let sorted ← finalize w env .mapper
  defer (.close sorted.1)
  let sorted ← combine w env sorted
  let st ← partition w a env sorted.1 sorted.2.err (lines isNewline sorted.2.bytes) .empty
  let closed ← closePartitions w env st (sortInts st.openOrder)
  pure (closed.map Prod.fst, closed.map Prod.snd)

/-- The deferred calls. -/
def unwind : List Deferred → Temp → Temp
  | [], t => t
  | d :: ds, t => unwind ds ((t.elapse env).undo d)

/-- What runMap returns, and what there is when it has returned. -/
def runMap : Except MapFailure (List String × List String) × Temp :=
  let (result, t) := body w a env (.new env.thresholdBytes)
  (result, unwind env t.deferred t)

end Program

/-! ## 3. Rules for the parts of runMap -/

section Rules

variable {I : Temp → Prop} {E : MapFailure → Temp → Prop} {w : MapWorker} {a : TaskAssignment}
  {env : MapEnv}

theorem ensures_failIf {c : Bool} {e : MapFailure} {J : Temp → Prop}
    (hE : ∀ t, c = true → I t → E e t) (hJ : ∀ t, c = false → I t → J t) :
    Ensures I (failIf c e) (fun _ => J) E := by
  cases c with
  | true => exact ensures_throw fun t => hE t rfl
  | false => exact ensures_pure fun t => hJ t rfl

variable (hE : ∀ e t, I t → E e t) (helapse : ∀ t, I t → I (t.elapse env))
include helapse

theorem ensures_await : Ensures I (await env) (fun _ => I) E := ensures_modifyGet helapse

theorem ensures_readStart (hmoves : ∀ t moves, I t → I (t.moveAll moves)) (reader : SortedReader) :
    Ensures I (readStart env reader) (fun _ => I) E := by
  cases reader with
  | memory => exact ensures_pure fun _ h => h
  | pipe code =>
    exact ensures_bind (ensures_await helapse) fun _ => ensures_modify fun t => hmoves t _

theorem ensures_readEnd (hmoves : ∀ t moves, I t → I (t.moveAll moves)) (reader : SortedReader) :
    Ensures I (readEnd env reader) (fun _ => I) E := by
  cases reader with
  | memory => exact ensures_pure fun _ h => h
  | pipe code =>
    exact ensures_bind (ensures_await helapse) fun _ => ensures_modifyGet fun t => hmoves t _

/-- A line of a buffer is there; one of a pipe has to be taken. -/
theorem ensures_readLine {Q : Bool → Temp → Prop} {reader : SortedReader}
    (hmemory : reader = .memory → ∀ t, I t → Q true t)
    (htake : ∀ code, reader = .pipe code → ∀ t, I t → Q (t.take code).1 (t.take code).2) :
    Ensures I (readLine env reader) Q E := by
  cases reader with
  | memory => exact ensures_pure (hmemory rfl)
  | pipe code =>
    exact ensures_bind (ensures_await helapse) fun _ => ensures_modifyGet (htake code rfl)

include hE

theorem ensures_call (e : MapFailure) : Ensures I (call env e) (fun _ => I) E :=
  ensures_bind (ensures_await helapse) fun _ => ensures_failIf (fun t _ => hE e t) fun _ _ h => h

theorem ensures_openWriter (st : Partitions) (p : Nat) :
    Ensures I (openWriter env st p) (fun _ => I) E :=
  ensures_ite (fun _ => ensures_pure fun _ h => h) fun _ => ensures_call hE helapse _

theorem ensures_closePartitions (st : Partitions) (order : List Nat) :
    Ensures I (closePartitions w env st order) (fun _ => I) E := by
  induction order with
  | nil => exact ensures_pure fun _ h => h
  | cons i rest ih =>
    refine ensures_bind (ensures_call hE helapse _) fun _ => ensures_bind ih fun _ => ?_
    exact ensures_pure fun _ h => h

end Rules

/-- The loop of the partition phase: `I n` holds when `n` lines are left. -/
theorem ensures_partition {I : Nat → Temp → Prop} {E : MapFailure → Temp → Prop} {w : MapWorker}
    {a : TaskAssignment} {env : MapEnv} {reader : SortedReader} {err : Option MergeErr}
    (hE : ∀ n e t, I n t → E e t) (helapse : ∀ n t, I n t → I n (t.elapse env))
    (hmoves : ∀ n t moves, I n t → I n (t.moveAll moves))
    (hmemory : reader = .memory → ∀ n t, I (n + 1) t → I n t)
    (htake : ∀ code, reader = .pipe code → ∀ n t, I (n + 1) t →
      if (t.take code).1 then I n (t.take code).2 else ∀ e, E e (t.take code).2)
    (ls : List Bytes) (st : Partitions) :
    Ensures (I ls.length) (partition w a env reader err ls st) (fun _ => I 0) E := by
  induction ls generalizing st with
  | nil =>
    refine ensures_bind (ensures_readEnd (helapse 0) (hmoves 0) reader) fun _ =>
      ensures_bind ?_ fun _ => ensures_pure fun _ h => h
    exact ensures_failIf (fun t _ => hE 0 _ t) fun _ _ h => h
  | cons raw rest ih =>
    unfold partition
    split
    · exact ensures_bind (ensures_readStart (helapse _) (hmoves _) reader) fun _ =>
        ensures_throw (hE _ _)
    · refine ensures_bind
        (Q := fun ok t => if ok then I rest.length t else ∀ e, E e t)
        (ensures_readLine (helapse _) (fun hr => hmemory hr _) fun code hr => htake code hr _)
        fun ok => ensures_bind (Q := fun _ => I rest.length) (ensures_failIf ?_ ?_) fun _ => ?_
      · intro t hok h
        cases ok with
        | true => cases hok
        | false => exact h _
      · intro t hok h
        cases ok with
        | true => exact h
        | false => cases hok
      · refine ensures_ite (fun _ => ih st) fun _ => ?_
        split
        · exact ensures_throw (hE _ _)
        · have hcall := ensures_call (hE rest.length) (helapse rest.length)
          refine ensures_bind (ensures_openWriter (hE _) (helapse _) _ _) fun _ => ?_
          exact ensures_bind (hcall _) fun _ => ensures_bind (hcall _) fun _ => ih _

end MapFiles

end KubeMapReduce
