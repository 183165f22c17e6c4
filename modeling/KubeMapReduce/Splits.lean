import KubeMapReduce.Lib.Lines
import KubeMapReduce.Scheduler

/-!
# Input splits

The manager cuts an input object into byte ranges of a target size; each worker reads the
lines of its range. A worker skips the line in which its range begins and finishes the line
in which it ends.

The worker does not download its range: getRawRange stops after the first chunk of 1 MiB that
has a newline, wherever the range ends. And a worker whose range lies inside one line still
reads the line behind it. Lines are kept with their offsets, so that equal lines of the object
stay apart.

* `rawRangeLoop_eq`: what is downloaded, in terms of the newlines of the object.
* `readSplit_ok`, `readSplit_error`: what a worker writes for one range, and when it fails.
-/

namespace KubeMapReduce

open Lines

/-! ## 1. The object -/

def isNewline (b : UInt8) : Bool := b == 10

/-- An object in MinIO: what StatObject, GetObject and GetObject with a range of offsets
return; `none` is an error. -/
structure StoredObject where
  stat : Option Nat
  get : Option (List UInt8)
  getRange : Nat → Nat → Option (List UInt8)

/-- The object is there and has this content; a range is cut off at the end of the object. -/
structure StoredObject.Serves (o : StoredObject) (content : List UInt8) : Prop where
  stat : o.stat = some content.length
  get : o.get = some content
  getRange : ∀ i j, i ≤ j → o.getRange i j = some ((content.drop i).take (j + 1 - i))

/-! ## 2. Building the splits -/

section Build

variable (sha256Hex : List UInt8 → String)

/-- The checksum of a range; `none` is an error or a short read. -/
def checksumObjectRange (o : StoredObject) (start stop : Nat) : Option String :=
  match o.getRange start stop with
  | none => none
  | some bytes => if bytes.length = stop - start + 1 then some (sha256Hex bytes) else none

/-- The loop over the ranges. `fuel` bounds their number; `none` stands for the fallback after a
checksum error. -/
def splitLoop (o : StoredObject) (inputURI : String) (size splitSize : Nat) :
    Nat → Nat → Option (List ScheduleTaskInput)
  | 0, _ => some []
  | fuel + 1, start =>
    if start < size then
      let stop := if start + splitSize - 1 ≥ size then size - 1 else start + splitSize - 1
      match checksumObjectRange sha256Hex o start stop with
      | none => none
      | some checksum =>
        (splitLoop o inputURI size splitSize fuel (start + splitSize)).map
          (⟨inputURI, start, stop, checksum⟩ :: ·)
    else some []

def wholeInput (inputURI : String) : ScheduleTaskInput := ⟨inputURI, 0, 0, ""⟩

def targetSplitSize (defaultTargetSplitSizeBytes : Int) : Nat :=
  if defaultTargetSplitSizeBytes ≤ 0 then 64 * 1024 * 1024 else defaultTargetSplitSizeBytes.toNat

def buildInputSplits (storage : Option StoredObject) (defaultTargetSplitSizeBytes : Int)
    (inputURI : String) : List ScheduleTaskInput :=
  match storage with
  | none => [wholeInput inputURI]
  | some o =>
    match o.stat with
    | none => [wholeInput inputURI]
    | some size =>
      if size = 0 then [wholeInput inputURI] else
      match splitLoop sha256Hex o inputURI size (targetSplitSize defaultTargetSplitSizeBytes)
        size 0 with
      | none => [wholeInput inputURI]
      | some splits => if splits.length = 0 then [wholeInput inputURI] else splits

end Build

/-- buildInputSplits asks make for a slice of `(size + splitSize - 1) / splitSize` splits. The sum
is an int64: for a larger object it wraps to a negative number, and make panics. -/
def splitCapacityWraps (o : StoredObject) (defaultTargetSplitSizeBytes : Int) : Bool :=
  o.stat.any fun size =>
    decide (9223372036854775808 ≤ size + targetSplitSize defaultTargetSplitSizeBytes - 1)

/-! ## 3. Reading a split -/

inductive SplitErr where
  | getObject
  | invalidRange
  | getRange
  | rangeExceeded
  | eofBeforeNewline
  | splitChecksum
  | precedingByte
  | skipPartialLine
deriving DecidableEq

/-- 1 MiB. -/
def splitReadChunkSize : Nat := 1048576

/-- 256 MiB. -/
def maxRawRangeBytes : Nat := 268435456

/-- The loop of getRawRange. `fuel` bounds the number of chunks: those before the last are full,
so more of them exceed the cap. -/
def rawRangeLoop (o : StoredObject) :
    Nat → Nat → List UInt8 → Nat → Except SplitErr (List UInt8)
  | 0, _, _, _ => .error .rangeExceeded
  | fuel + 1, nextStart, raw, totalRead =>
    match o.getRange nextStart (nextStart + splitReadChunkSize - 1) with
    | none => .error .getRange
    | some chunk =>
      if chunk.length = 0 then .ok raw else
      if totalRead + chunk.length > maxRawRangeBytes then .error .rangeExceeded else
      if chunk.any isNewline then .ok (raw ++ chunk) else
      if chunk.length < splitReadChunkSize then .error .eofBeforeNewline else
      rawRangeLoop o fuel (nextStart + chunk.length) (raw ++ chunk) (totalRead + chunk.length)

def getRawRange (o : StoredObject) (start stop : Nat) : Except SplitErr (List UInt8) :=
  if stop < start then .error .invalidRange else
  rawRangeLoop o (maxRawRangeBytes / splitReadChunkSize + 1) start [] 0

/-- Whether the byte before `start` is a newline. -/
def fetchPrecedingByte (o : StoredObject) (start : Nat) : Except SplitErr Bool :=
  if start = 0 then .ok true else
  match o.getRange (start - 1) (start - 1) with
  | some (b :: _) => .ok (isNewline b)
  | _ => .error .precedingByte

/-- The checksum of the claimed range, if the worker has all of it. -/
def splitChecksumValid (sha256Hex : List UInt8 → String) (rawRange : List UInt8)
    (byteStart byteEnd : Nat) (checksum : String) : Bool :=
  checksum = "" || rawRange.length < byteEnd - byteStart + 1 ||
    sha256Hex (rawRange.take (byteEnd - byteStart + 1)) = checksum

/-- The loop over the lines, each with its offset in the object: it ends at the end of the
buffer, or behind the range. -/
def copyLines (byteEnd : Nat) : List (Nat × List UInt8) → List (Nat × List UInt8)
  | [] => []
  | (pos, line) :: rest =>
    (pos, line) :: if pos + line.length > byteEnd then [] else copyLines byteEnd rest

/-- The lines written into the pipe; successive ReadBytes calls return the lines of the
buffer. -/
def streamLines (rawRange : List UInt8) (byteStart byteEnd : Nat) (atBoundary : Bool) :
    Except SplitErr (List (Nat × List UInt8)) :=
  if byteStart > 0 ∧ atBoundary = false then
    match linesAt isNewline byteStart rawRange with
    | [] => .error .skipPartialLine
    | (_, skipped) :: rest =>
      if skipped.any isNewline then .ok (copyLines byteEnd rest) else .error .skipPartialLine
  else .ok (copyLines byteEnd (linesAt isNewline byteStart rawRange))

def readSplitRecordsStreaming (sha256Hex : List UInt8 → String) (o : StoredObject)
    (byteStart byteEnd : Nat) (checksum : String) : Except SplitErr (List (Nat × List UInt8)) :=
  if byteEnd = 0 then
    match o.get with
    | none => .error .getObject
    | some content => .ok (linesAt isNewline 0 content)
  else
  match getRawRange o byteStart byteEnd with
  | .error e => .error e
  | .ok rawRange =>
    if splitChecksumValid sha256Hex rawRange byteStart byteEnd checksum = false then
      .error .splitChecksum else
    match fetchPrecedingByte o byteStart with
    | .error e => .error e
    | .ok atBoundary => streamLines rawRange byteStart byteEnd atBoundary

/-- All splits, one after the other. -/
def readSplits (sha256Hex : List UInt8 → String) (o : StoredObject) :
    List ScheduleTaskInput → Except SplitErr (List (Nat × List UInt8))
  | [] => .ok []
  | i :: rest =>
    match readSplitRecordsStreaming sha256Hex o i.byteStart.toNat i.byteEnd.toNat i.splitChecksum,
      readSplits sha256Hex o rest with
    | .ok lines, .ok more => .ok (lines ++ more)
    | .error e, _ => .error e
    | _, .error e => .error e

/-! ## 4. What is downloaded -/

/-- The distance from `s` to the first newline at or behind it, or to the end of the object. -/
def toNewline (c : List UInt8) (s : Nat) : Nat := (c.drop s).findIdx isNewline

/-- There is a newline at or behind `s`. -/
def NewlineFrom (c : List UInt8) (s : Nat) : Prop := s + toNewline c s < c.length

instance (c : List UInt8) (s : Nat) : Decidable (NewlineFrom c s) := Nat.decLt _ _

/-- The number of bytes that getRawRange asks for: whole chunks, up to the one with the first
newline. -/
def rawLength (c : List UInt8) (s : Nat) : Nat :=
  (toNewline c s / splitReadChunkSize + 1) * splitReadChunkSize

section Download

variable {c raw : List UInt8} {o : StoredObject} {s : Nat}

/-- The next chunk. -/
def chunkFrom (c : List UInt8) (s : Nat) : List UInt8 := (c.drop s).take splitReadChunkSize

theorem getRange_chunk (hs : o.Serves c) :
    o.getRange s (s + splitReadChunkSize - 1) = some (chunkFrom c s) := by
  unfold chunkFrom splitReadChunkSize
  rw [hs.getRange _ _ (by omega), show s + 1048576 - 1 + 1 - s = 1048576 by omega]

theorem chunkFrom_length : (chunkFrom c s).length = min splitReadChunkSize (c.length - s) := by
  rw [chunkFrom, List.length_take, List.length_drop]

theorem toNewline_le : toNewline c s ≤ c.length - s := by
  rw [← List.length_drop]
  exact List.findIdx_le_length

/-- The first newline is in the next chunk or behind it. -/
theorem toNewline_eq : toNewline c s =
    if (chunkFrom c s).any isNewline then (chunkFrom c s).findIdx isNewline
    else toNewline c (s + splitReadChunkSize) + (chunkFrom c s).length := by
  have happ : (chunkFrom c s ++ (c.drop s).drop splitReadChunkSize).findIdx isNewline = _ :=
    List.findIdx_append
  rw [chunkFrom, List.take_append_drop, List.drop_drop] at happ
  simp only [List.any_eq_true, ← List.findIdx_lt_length]
  exact happ

theorem rawLength_first (h : (chunkFrom c s).any isNewline = true) :
    rawLength c s = splitReadChunkSize := by
  have hlt := List.findIdx_lt_length.mpr (List.any_eq_true.mp h)
  rw [chunkFrom_length] at hlt
  rw [rawLength, toNewline_eq, if_pos h, Nat.div_eq_of_lt (by omega), Nat.zero_add, Nat.one_mul]

theorem newlineFrom_first (h : (chunkFrom c s).any isNewline = true) : NewlineFrom c s := by
  have hlt := List.findIdx_lt_length.mpr (List.any_eq_true.mp h)
  rw [chunkFrom_length] at hlt
  rw [NewlineFrom, toNewline_eq, if_pos h]
  omega

/-- Without a newline in a full chunk, the download goes on behind it. -/
theorem toNewline_next (h : (chunkFrom c s).any isNewline ≠ true)
    (hfull : splitReadChunkSize ≤ c.length - s) :
    toNewline c s = toNewline c (s + splitReadChunkSize) + splitReadChunkSize := by
  rw [toNewline_eq, if_neg h, chunkFrom_length, Nat.min_eq_left hfull]

theorem rawLength_next (h : (chunkFrom c s).any isNewline ≠ true)
    (hfull : splitReadChunkSize ≤ c.length - s) :
    rawLength c s = splitReadChunkSize + rawLength c (s + splitReadChunkSize) := by
  rw [rawLength, toNewline_next h hfull, rawLength]
  unfold splitReadChunkSize
  omega

theorem chunk_le_rawLength : splitReadChunkSize ≤ rawLength c s :=
  Nat.le_mul_of_pos_left _ (Nat.succ_pos _)

/-- The chunks up to the first newline are downloaded, or to the end of the object when that
is the end of a chunk. -/
theorem rawRangeLoop_eq (hs : o.Serves c) {fuel total : Nat}
    (hfuel : toNewline c s / splitReadChunkSize < fuel)
    (hcap : total + min (rawLength c s) (c.length - s) ≤ maxRawRangeBytes) :
    rawRangeLoop o fuel s raw total =
      if NewlineFrom c s ∨ splitReadChunkSize ∣ c.length - s then
        .ok (raw ++ (c.drop s).take (rawLength c s))
      else .error .eofBeforeNewline := by
  induction fuel generalizing s raw total with
  | zero => cases hfuel
  | succ fuel ih =>
    have hroom : total + min splitReadChunkSize (c.length - s) ≤ maxRawRangeBytes :=
      have := chunk_le_rawLength (c := c) (s := s); by omega
    rw [rawRangeLoop, getRange_chunk hs]
    dsimp only
    rw [chunkFrom_length]
    by_cases hend : c.length - s = 0
    · -- an empty chunk
      rw [hend, Nat.min_zero, if_pos rfl, if_pos (.inr (Nat.dvd_zero _)),
        List.drop_of_length_le (Nat.le_of_sub_eq_zero hend), List.take_nil, List.append_nil]
    rw [if_neg (by unfold splitReadChunkSize; omega), if_neg (Nat.not_lt.mpr hroom)]
    by_cases hnl : (chunkFrom c s).any isNewline = true
    · rw [if_pos hnl, if_pos (.inl (newlineFrom_first hnl)), rawLength_first hnl]
      rfl
    rw [if_neg hnl]
    by_cases hshort : c.length - s < splitReadChunkSize
    · rw [if_pos (Nat.lt_of_le_of_lt (Nat.min_le_right _ _) hshort), if_neg]
      rintro (h | h)
      · rw [NewlineFrom, toNewline_eq, if_neg hnl, chunkFrom_length] at h
        omega
      · exact absurd (Nat.le_of_dvd (by omega) h) (Nat.not_le.mpr hshort)
    · have hfull := Nat.not_lt.mp hshort
      have hnext := toNewline_next hnl hfull
      have hraw := rawLength_next hnl hfull
      have hdiv : toNewline c s / splitReadChunkSize =
          toNewline c (s + splitReadChunkSize) / splitReadChunkSize + 1 := by
        rw [hnext]
        unfold splitReadChunkSize
        omega
      have hrest : c.length - s = splitReadChunkSize + (c.length - (s + splitReadChunkSize)) := by
        rw [Nat.sub_add_eq, Nat.add_sub_of_le hfull]
      rw [hraw, hrest, Nat.add_min_add_left, ← Nat.add_assoc] at hcap
      rw [Nat.min_eq_left hfull, if_neg (Nat.lt_irrefl _), ih (by omega) hcap, hraw,
        List.take_add, List.drop_drop, List.append_assoc]
      refine if_congr (or_congr ?_ ?_) rfl rfl
      · unfold NewlineFrom
        omega
      · rw [Nat.sub_add_eq, Nat.dvd_sub_iff_left hfull (Nat.dvd_refl _)]

end Download

/-! ## 5. What is written -/

/-- No line is longer than what getRawRange reads. -/
def LinesFit (c : List UInt8) : Prop :=
  ∀ y ∈ linesAt isNewline 0 c, y.2.length ≤ maxRawRangeBytes

/-- A line begins at `s`. -/
def AtLineStart (content : List UInt8) (s : Nat) : Prop :=
  s = 0 ∨ content[s - 1]?.any isNewline = true

instance (c : List UInt8) (s : Nat) : Decidable (AtLineStart c s) := by
  unfold AtLineStart
  infer_instance

/-- Where the first line begins that does so at or behind `s`. -/
def lineStart (c : List UInt8) (s : Nat) : Nat :=
  if AtLineStart c s then s else s + (toNewline c s + 1)

/-- The worker of a range that begins at `s` finds a newline, or the range begins a line and a
chunk ends with the object. -/
def Readable (c : List UInt8) (s : Nat) : Prop :=
  NewlineFrom c s ∨ AtLineStart c s ∧ splitReadChunkSize ∣ c.length - s

instance (c : List UInt8) (s : Nat) : Decidable (Readable c s) := by
  unfold Readable
  infer_instance

/-- Where the buffer of the worker ends. -/
def bufferEnd (c : List UInt8) (s : Nat) : Nat := s + rawLength c s

/-- The lines of the object that the worker of `[s, e]` writes, as far as it has them. -/
def splitLines (c : List UInt8) (s e : Nat) : List (Nat × List UInt8) :=
  ((linesAt isNewline 0 c).filter fun y => decide
    (s ≤ y.1 ∧ (y.1 ≤ e ∨ y.1 = lineStart c s) ∧ y.1 < bufferEnd c s)).map (cut (bufferEnd c s))

section Read

variable {sha256Hex : List UInt8 → String} {c : List UInt8} {o : StoredObject} {s e : Nat}

theorem drop_ne_nil (hlt : s < c.length) : c.drop s ≠ [] := by
  intro h
  exact absurd (List.drop_eq_nil_iff.mp h) (Nat.not_le.mpr hlt)

theorem getRawRange_eq (hs : o.Serves c) (hfit : LinesFit c) (hlt : s < c.length) (hse : s ≤ e) :
    getRawRange o s e =
      if NewlineFrom c s ∨ splitReadChunkSize ∣ c.length - s then
        .ok ((c.drop s).take (rawLength c s))
      else .error .eofBeforeNewline := by
  -- the rest of the line at s is part of a line of the object
  have hfirst : (s, (c.drop s).take (toNewline c s + 1)) ∈
      linesAt isNewline (0 + s) (c.drop s) := by
    rw [Nat.zero_add, linesAt_eq (drop_ne_nil hlt)]
    exact List.mem_cons_self
  obtain ⟨y, hy, hle⟩ := length_le_of_drop s hfirst
  have hcap := Nat.le_trans hle (hfit y hy)
  rw [List.length_take, List.length_drop] at hcap
  have hto := toNewline_le (c := c) (s := s)
  unfold maxRawRangeBytes at hcap
  rw [getRawRange, if_neg (Nat.not_lt.mpr hse), rawRangeLoop_eq hs, List.nil_append]
  · unfold maxRawRangeBytes splitReadChunkSize
    omega
  · unfold rawLength maxRawRangeBytes splitReadChunkSize
    omega

theorem atLineStart_succ {content : List UInt8} (h : s < content.length) :
    AtLineStart content (s + 1) ↔ isNewline content[s] = true := by
  simp [AtLineStart, List.getElem?_eq_getElem h]

theorem fetchPrecedingByte_eq (hs : o.Serves c) (hlt : s < c.length) :
    fetchPrecedingByte o s = .ok (decide (AtLineStart c s)) := by
  cases s with
  | zero => rfl
  | succ s =>
    have hprev : s < c.length := Nat.lt_of_succ_lt hlt
    rw [fetchPrecedingByte, if_neg (Nat.succ_ne_zero s), Nat.add_sub_cancel,
      hs.getRange s s (Nat.le_refl s), Nat.add_sub_cancel_left, List.drop_eq_getElem_cons hprev]
    refine congrArg Except.ok ?_
    rw [Bool.eq_iff_iff, decide_eq_true_iff, atLineStart_succ hprev]

theorem splitChecksum_slice (k : Nat) :
    splitChecksumValid sha256Hex ((c.drop s).take k) s e
      (sha256Hex ((c.drop s).take (e - s + 1))) = true := by
  unfold splitChecksumValid
  rw [Bool.or_eq_true, Bool.or_eq_true, decide_eq_true_iff, decide_eq_true_iff]
  by_cases hshort : ((c.drop s).take k).length < e - s + 1
  · exact .inl (.inr hshort)
  · refine .inr (decide_eq_true (congrArg sha256Hex ?_))
    rw [List.length_take] at hshort
    rw [List.take_take, Nat.min_eq_left (by omega)]

/-- The loop over the lines of a buffer: the first one, and those that begin in the range. -/
theorem copyLines_eq (p : Nat) (ys : List UInt8) : copyLines e (linesAt isNewline p ys) =
    (linesAt isNewline p ys).filter fun y => decide (y.1 ≤ e ∨ y.1 = p) := by
  induction hn : ys.length using Nat.strong_induction_on generalizing p ys with
  | _ n ih =>
    by_cases hnil : ys = []
    · subst hnil
      rfl
    rw [linesAt_eq hnil, copyLines, List.filter_cons_of_pos (by simp), List.cons.injEq]
    refine ⟨rfl, ?_⟩
    by_cases hrest : ys.drop (ys.findIdx isNewline + 1) = []
    · rw [hrest]
      split <;> rfl
    have hlt := Nat.not_le.mp fun h => hrest (List.drop_eq_nil_iff.mpr h)
    rw [List.length_take, Nat.min_eq_left (Nat.le_of_lt hlt)]
    split
    · next hgt =>
      refine (List.filter_eq_nil_iff.mpr fun y hy => ?_).symm
      have hy := le_of_mem_linesAt hy
      simp only [decide_eq_true_eq]
      omega
    · next hle =>
      rw [ih _ (by rw [List.length_drop]; omega) _ _ rfl]
      refine List.filter_congr fun y hy => ?_
      have hy := le_of_mem_linesAt hy
      exact decide_eq_decide.mpr (by omega)

/-- The lines that begin at or behind `s`. -/
theorem linesFrom_eq (hlt : s < c.length) :
    (linesAt isNewline 0 c).filter (fun y => decide (s ≤ y.1)) =
      linesAt isNewline (lineStart c s) (c.drop (lineStart c s)) := by
  have hdrop := linesAt_drop isNewline 0 s c
  rw [Nat.zero_add] at hdrop
  rw [hdrop, lineStart]
  by_cases h : AtLineStart c s
  · rw [if_pos h, if_pos (show s = 0 ∨ _ from h)]
  · rw [if_neg h, if_neg (show ¬ (s = 0 ∨ _) from h), linesAt_eq (drop_ne_nil hlt), List.tail_cons,
      List.drop_drop]
    rfl

theorem toNewline_lt_rawLength : toNewline c s < rawLength c s := by
  unfold rawLength splitReadChunkSize
  omega

theorem lineStart_le_bufferEnd : lineStart c s ≤ bufferEnd c s := by
  have h := toNewline_lt_rawLength (c := c) (s := s)
  unfold lineStart bufferEnd
  split <;> omega

theorem inside_range (hat : ¬ AtLineStart c s) :
    s > 0 ∧ decide (AtLineStart c s) = false :=
  ⟨Nat.pos_of_ne_zero fun he => hat (.inl he), decide_eq_false hat⟩

theorem take_drop_ne_nil (hlt : s < c.length) {k : Nat} (hk : 0 < k) : (c.drop s).take k ≠ [] := by
  refine List.ne_nil_of_length_pos ?_
  rw [List.length_take, List.length_drop]
  omega

/-- The worker copies the lines of its buffer from the first line start on. -/
theorem streamLines_eq (hlt : s < c.length) (h : NewlineFrom c s ∨ AtLineStart c s) :
    streamLines ((c.drop s).take (rawLength c s)) s e (decide (AtLineStart c s)) =
      .ok (copyLines e (linesAt isNewline (lineStart c s)
        ((c.drop (lineStart c s)).take (bufferEnd c s - lineStart c s)))) := by
  unfold streamLines lineStart bufferEnd
  by_cases hat : AtLineStart c s
  · rw [if_neg (by simp [hat]), if_pos hat, Nat.add_sub_cancel_left]
  · have hnl := h.resolve_right hat
    have hto := toNewline_lt_rawLength (c := c) (s := s)
    have hfirst : ((c.drop s).take (rawLength c s)).findIdx isNewline = toNewline c s := by
      rw [List.findIdx_take]
      exact Nat.min_eq_right (Nat.le_of_lt hto)
    rw [if_pos (inside_range hat), if_neg hat, linesAt_eq (take_drop_ne_nil hlt (by omega)), hfirst]
    dsimp only
    have hskip : (((c.drop s).take (rawLength c s)).take (toNewline c s + 1)).any isNewline =
        true := by
      rw [List.any_eq_true, ← List.findIdx_lt_length, List.findIdx_take, hfirst, List.length_take,
        List.length_take, List.length_drop]
      unfold NewlineFrom at hnl
      omega
    rw [if_pos hskip, List.drop_take, List.drop_drop, Nat.add_sub_add_left]

theorem streamLines_skip_error (hlt : s < c.length) (hat : ¬ AtLineStart c s)
    (hnl : ¬ NewlineFrom c s) :
    streamLines ((c.drop s).take (rawLength c s)) s e (decide (AtLineStart c s)) =
      .error .skipPartialLine := by
  have hto := toNewline_lt_rawLength (c := c) (s := s)
  have hnone : ∀ b ∈ c.drop s, isNewline b = false := by
    refine List.findIdx_eq_length.mp ?_
    have hle := toNewline_le (c := c) (s := s)
    unfold NewlineFrom at hnl
    rw [List.length_drop]
    show toNewline c s = _
    omega
  unfold streamLines
  rw [if_pos (inside_range hat), linesAt_eq (take_drop_ne_nil hlt (by omega))]
  refine if_neg (Bool.eq_false_iff.mp (List.any_eq_false.mpr fun b hb => ?_))
  rw [hnone b (List.mem_of_mem_take (List.mem_of_mem_take hb))]
  exact Bool.false_ne_true

/-- What the worker writes are the lines of the object that it reads, the last one cut off at
the end of the buffer. -/
theorem copyLines_buffer (hlt : s < c.length) :
    copyLines e (linesAt isNewline (lineStart c s)
        ((c.drop (lineStart c s)).take (bufferEnd c s - lineStart c s))) = splitLines c s e := by
  rw [copyLines_eq, linesAt_take, Nat.add_sub_of_le lineStart_le_bufferEnd, ← linesFrom_eq hlt,
    List.filter_map, List.filter_filter, List.filter_filter]
  refine congrArg (List.map _) (List.filter_congr fun y _ => ?_)
  rw [Bool.eq_iff_iff]
  simp only [Function.comp_apply, Bool.and_eq_true, decide_eq_true_iff]
  exact ⟨fun h => ⟨h.2, h.1.1, h.1.2⟩, fun h => ⟨⟨h.2.1, h.2.2⟩, h.1⟩⟩

/-- The worker of a range, when it finds its newline. -/
theorem readSplit_ok (hs : o.Serves c) (hfit : LinesFit c) (hlt : s < c.length) (hse : s ≤ e)
    (he : e ≠ 0) (h : Readable c s) :
    readSplitRecordsStreaming sha256Hex o s e (sha256Hex ((c.drop s).take (e - s + 1))) =
      .ok (splitLines c s e) := by
  have hraw : NewlineFrom c s ∨ splitReadChunkSize ∣ c.length - s := h.imp_right And.right
  rw [readSplitRecordsStreaming, if_neg he, getRawRange_eq hs hfit hlt hse, if_pos hraw]
  dsimp only
  rw [splitChecksum_slice, if_neg Bool.noConfusion, fetchPrecedingByte_eq hs hlt]
  dsimp only
  rw [streamLines_eq hlt (h.imp_right And.left), copyLines_buffer hlt]

/-- The worker of a range fails otherwise. -/
theorem readSplit_error (hs : o.Serves c) (hfit : LinesFit c) (hlt : s < c.length) (hse : s ≤ e)
    (he : e ≠ 0) (h : ¬ Readable c s) :
    ∃ err, readSplitRecordsStreaming sha256Hex o s e (sha256Hex ((c.drop s).take (e - s + 1))) =
      .error err := by
  rw [readSplitRecordsStreaming, if_neg he, getRawRange_eq hs hfit hlt hse]
  by_cases hraw : NewlineFrom c s ∨ splitReadChunkSize ∣ c.length - s
  · have hnl : ¬ NewlineFrom c s := fun hn => h (.inl hn)
    have hat : ¬ AtLineStart c s := fun ha => h (.inr ⟨ha, hraw.resolve_left hnl⟩)
    rw [if_pos hraw]
    dsimp only
    rw [splitChecksum_slice, if_neg Bool.noConfusion, fetchPrecedingByte_eq hs hlt]
    exact ⟨_, streamLines_skip_error hlt hat hnl⟩
  · rw [if_neg hraw]
    exact ⟨_, rfl⟩

end Read

end KubeMapReduce
