import Mathlib.Data.List.TakeDrop
import KubeMapReduce.Splits

/-!
# All splits of an object

* `buildInputSplits_eq`: the splits are the consecutive ranges of the target size.
* `splits_read_back_iff`: read one after the other they give every line of the object once, in
  order and without an error, exactly if the downloads of the workers cover the lines
  (`Covered`). `line_read_twice` is a small object whose lines they do not cover.
-/

namespace KubeMapReduce

open Lines

variable {y : Nat × List UInt8} {sp : Nat × Nat}

/-! ## 1. The ranges -/

/-- First and last offset of each split. -/
def spans (size splitSize : Nat) : List (Nat × Nat) :=
  if size = 0 then [(0, 0)] else
  (List.range ((size + splitSize - 1) / splitSize)).map fun k =>
    (k * splitSize, min ((k + 1) * splitSize) size - 1)

section Spans

variable {n S : Nat}

theorem lt_count_iff (hS : 0 < S) {k : Nat} : k < (n + S - 1) / S ↔ k * S < n := by
  rw [Nat.lt_iff_add_one_le, Nat.le_div_iff_mul_le hS, Nat.succ_mul]
  omega

theorem mem_spans (hn : n ≠ 0) (hS : 0 < S) (h : sp ∈ spans n S) : sp.1 < n ∧ sp.1 ≤ sp.2 := by
  rw [spans, if_neg hn] at h
  obtain ⟨k, hk, rfl⟩ := List.mem_map.mp h
  have hlt := (lt_count_iff hS).mp (List.mem_range.mp hk)
  refine ⟨hlt, ?_⟩
  dsimp only
  rw [Nat.succ_mul]
  omega

/-- A split ends before the next one begins. -/
theorem spans_ascending (hS : 0 < S) : (spans n S).Pairwise (·.2 < ·.1) := by
  by_cases hn : n = 0
  · rw [spans, if_pos hn]
    exact List.pairwise_singleton _ _
  rw [spans, if_neg hn]
  refine List.pairwise_map.mpr (List.pairwise_lt_range.imp fun {i j} hij => ?_)
  have hle : (i + 1) * S ≤ j * S := Nat.mul_le_mul_right S hij
  rw [Nat.succ_mul] at hle ⊢
  omega

end Spans

/-- The split of a range, with its checksum. -/
def spanInput (sha256Hex : List UInt8 → String) (inputURI : String) (c : List UInt8)
    (sp : Nat × Nat) : ScheduleTaskInput :=
  ⟨inputURI, sp.1, sp.2,
    if c.length = 0 then "" else sha256Hex ((c.drop sp.1).take (sp.2 - sp.1 + 1))⟩

section Build

variable {sha256Hex : List UInt8 → String} {inputURI : String} {c : List UInt8}
  {o : StoredObject} {S : Nat}

theorem checksumObjectRange_eq (hs : o.Serves c) {start stop : Nat} (hle : start ≤ stop)
    (hlt : stop < c.length) : checksumObjectRange sha256Hex o start stop =
      some (sha256Hex ((c.drop start).take (stop - start + 1))) := by
  rw [checksumObjectRange, hs.getRange _ _ hle, show stop + 1 - start = stop - start + 1 by omega]
  refine if_pos ?_
  rw [List.length_take, List.length_drop]
  omega

theorem splitLoop_eq (sha256Hex : List UInt8 → String) (inputURI : String) (hs : o.Serves c)
    (hS : 0 < S)
    {fuel k : Nat} (hfuel : (c.length + S - 1) / S ≤ k + fuel) :
    splitLoop sha256Hex o inputURI c.length S fuel (k * S) =
      some ((List.range' k ((c.length + S - 1) / S - k)).map fun k =>
        spanInput sha256Hex inputURI c (k * S, min ((k + 1) * S) c.length - 1)) := by
  induction fuel generalizing k with
  | zero =>
    rw [Nat.add_zero] at hfuel
    rw [splitLoop, Nat.sub_eq_zero_of_le hfuel]
    rfl
  | succ fuel ih =>
    rw [splitLoop]
    by_cases hk : k * S < c.length
    · have hcount := (lt_count_iff hS).mpr hk
      have hstop : (if k * S + S - 1 ≥ c.length then c.length - 1 else k * S + S - 1) =
          min ((k + 1) * S) c.length - 1 := by
        rw [Nat.succ_mul]
        split <;> omega
      have hle : k * S ≤ min ((k + 1) * S) c.length - 1 := by
        rw [Nat.succ_mul]
        omega
      obtain ⟨m, hm⟩ : ∃ m, (c.length + S - 1) / S - k = m + 1 :=
        ⟨(c.length + S - 1) / S - k - 1, by omega⟩
      rw [if_pos hk]
      dsimp only
      rw [hstop, checksumObjectRange_eq hs hle (by omega), ← Nat.succ_mul,
        ih (by omega), hm, List.range'_succ, show (c.length + S - 1) / S - (k + 1) = m by omega]
      dsimp only
      rw [Option.map_some, List.map_cons, spanInput, if_neg (by omega)]
    · have hcount := mt (lt_count_iff hS).mp hk
      rw [if_neg hk, Nat.sub_eq_zero_of_le (Nat.not_lt.mp hcount)]
      rfl

/-- The splits of the manager are the ranges, one after the other. -/
theorem buildInputSplits_eq (hs : o.Serves c) (hS : 0 < S) :
    buildInputSplits sha256Hex (some o) S inputURI =
      (spans c.length S).map (spanInput sha256Hex inputURI c) := by
  have hsize : targetSplitSize S = S := by
    unfold targetSplitSize
    rw [if_neg (by omega), Int.toNat_natCast]
  rw [buildInputSplits, hs.stat]
  dsimp only
  by_cases hn : c.length = 0
  · rw [if_pos hn, spans, if_pos hn, List.map_singleton, spanInput, if_pos hn]
    rfl
  · have hcount : 0 < (c.length + S - 1) / S := (lt_count_iff hS).mpr (by omega)
    have hfuel : (c.length + S - 1) / S ≤ 0 + c.length := by
      rw [Nat.zero_add]
      refine Nat.le_of_not_lt fun h => ?_
      have h := (lt_count_iff hS).mp h
      have hle := Nat.mul_le_mul_left c.length hS
      omega
    have hloop := splitLoop_eq sha256Hex inputURI hs hS hfuel
    rw [Nat.zero_mul, Nat.sub_zero, ← List.range_eq_range'] at hloop
    rw [if_neg hn, hsize, hloop]
    dsimp only
    rw [if_neg (by rw [List.length_map, List.length_range]; omega), spans, if_neg hn, List.map_map]
    rfl

end Build

/-! ## 2. What the downloads must cover -/

/-- The worker of the split has the object up to here. -/
def fetchedTo (c : List UInt8) (sp : Nat × Nat) : Nat :=
  if sp.2 = 0 then c.length else bufferEnd c sp.1

/-- The worker of the split writes the line that begins at `a`, or its first bytes: it has
bytes of it, and the line begins in the range or is the first to begin behind its start. A
split that ends at offset 0 is taken for the whole object. -/
def Reaches (c : List UInt8) (sp : Nat × Nat) (a : Nat) : Prop :=
  a < fetchedTo c sp ∧ (sp.2 = 0 ∨ sp.1 ≤ a ∧ (a ≤ sp.2 ∨ a = lineStart c sp.1))

instance (c : List UInt8) (sp : Nat × Nat) (a : Nat) : Decidable (Reaches c sp a) := by
  unfold Reaches
  infer_instance

/-- The downloads of the workers cover the lines of the object. -/
structure Covered (c : List UInt8) (S : Nat) : Prop where
  /-- Every split has a newline behind its start, or begins the last line, which ends with a
  chunk. -/
  readable : ∀ sp ∈ spans c.length S, sp.2 ≠ 0 → Readable c sp.1
  /-- One worker reaches the line. -/
  once : ∀ y ∈ linesAt isNewline 0 c, ∃! sp, sp ∈ spans c.length S ∧ Reaches c sp y.1
  /-- The chunk in which its download ends has the end of the line. -/
  whole : ∀ y ∈ linesAt isNewline 0 c, ∀ sp ∈ spans c.length S, Reaches c sp y.1 →
    y.1 + y.2.length ≤ fetchedTo c sp

section Covered

variable {sha256Hex : List UInt8 → String} {inputURI : String} {c : List UInt8}
  {o : StoredObject} {S : Nat}

/-- What the worker of a split writes, if it does not fail. -/
def spanLines (c : List UInt8) (sp : Nat × Nat) : List (Nat × List UInt8) :=
  ((linesAt isNewline 0 c).filter fun y => decide (Reaches c sp y.1)).map (cut (fetchedTo c sp))

theorem linesAt_eq_cut (c : List UInt8) : linesAt isNewline 0 c =
    ((linesAt isNewline 0 c).filter fun y => decide (y.1 < c.length)).map (cut c.length) := by
  have h := linesAt_take isNewline 0 c.length c
  rw [List.take_length, Nat.zero_add] at h
  exact h

theorem lt_length_of_mem (h : y ∈ linesAt isNewline 0 c) : y.1 < c.length := by
  rw [linesAt_eq_cut] at h
  obtain ⟨y', hy', rfl⟩ := List.mem_map.mp h
  exact of_decide_eq_true (List.mem_filter.mp hy').2

theorem cut_eq_iff {t : Nat} (h : y.1 < t) : cut t y = y ↔ y.1 + y.2.length ≤ t := by
  rw [cut, Prod.ext_iff]
  dsimp only
  rw [List.take_eq_self_iff]
  omega

theorem spanLines_whole (h : sp.2 = 0) : spanLines c sp = linesAt isNewline 0 c := by
  conv_rhs => rw [linesAt_eq_cut]
  rw [spanLines]
  unfold Reaches fetchedTo
  simp only [h, if_true, true_or, and_true]

theorem spanLines_part (h : sp.2 ≠ 0) : spanLines c sp = splitLines c sp.1 sp.2 := by
  rw [spanLines, splitLines, fetchedTo, if_neg h]
  refine congrArg (List.map _) (List.filter_congr fun y _ => ?_)
  rw [decide_eq_decide, Reaches, fetchedTo, if_neg h, or_iff_right h]
  exact ⟨fun h => ⟨h.2.1, h.2.2, h.1⟩, fun h => ⟨h.2.2, h.1, h.2.1⟩⟩

/-- A worker, on its split. -/
theorem read_span (sha256Hex : List UInt8 → String) (inputURI : String) (hs : o.Serves c)
    (hfit : LinesFit c) (hS : 0 < S) (sp : Nat × Nat) (hsp : sp ∈ spans c.length S) :
    let i := spanInput sha256Hex inputURI c sp
    let out := readSplitRecordsStreaming sha256Hex o i.byteStart.toNat i.byteEnd.toNat
      i.splitChecksum
    if sp.2 ≠ 0 → Readable c sp.1 then out = .ok (spanLines c sp) else ∃ e, out = .error e := by
  dsimp only [spanInput]
  rw [Int.toNat_natCast, Int.toNat_natCast]
  by_cases he : sp.2 = 0
  · rw [if_pos fun hne => absurd he hne, spanLines_whole he, readSplitRecordsStreaming, if_pos he,
      hs.get]
  · have hn : c.length ≠ 0 := by
      intro hn
      rw [spans, if_pos hn, List.mem_singleton] at hsp
      exact he (congrArg Prod.snd hsp)
    obtain ⟨hlt, hle⟩ := mem_spans hn hS hsp
    rw [if_neg hn, spanLines_part he]
    split
    · next h => exact readSplit_ok hs hfit hlt hle he (h he)
    · next h => exact readSplit_error hs hfit hlt hle he fun hr => h fun _ => hr

theorem readSplits_ok {sps : List (Nat × Nat)} {f : Nat × Nat → ScheduleTaskInput}
    {g : Nat × Nat → List (Nat × List UInt8)}
    (h : ∀ sp ∈ sps, readSplitRecordsStreaming sha256Hex o (f sp).byteStart.toNat
      (f sp).byteEnd.toNat (f sp).splitChecksum = .ok (g sp)) :
    readSplits sha256Hex o (sps.map f) = .ok (sps.flatMap g) := by
  induction sps with
  | nil => rfl
  | cons sp sps ih =>
    rw [List.map_cons, readSplits, h sp List.mem_cons_self,
      ih fun sp' h' => h sp' (List.mem_cons_of_mem _ h')]
    rfl

theorem read_of_readSplits {is : List ScheduleTaskInput} {out : List (Nat × List UInt8)}
    (h : readSplits sha256Hex o is = .ok out) : ∀ i ∈ is, ∃ lines,
      readSplitRecordsStreaming sha256Hex o i.byteStart.toNat i.byteEnd.toNat i.splitChecksum =
        .ok lines := by
  induction is generalizing out with
  | nil => nofun
  | cons i is ih =>
    rw [readSplits] at h
    split at h
    · next lines more hlines hmore =>
      exact List.forall_mem_cons.mpr ⟨⟨lines, hlines⟩, ih hmore⟩
    · cases h
    · cases h

/-- Workers reach lines in the order of their splits, unless the first one has the whole
object. -/
theorem reaches_ordered (hS : 0 < S) : (spans c.length S).Pairwise fun sp sp' =>
    ∀ y ∈ linesAt isNewline 0 c, ∀ z ∈ linesAt isNewline 0 c,
      decide (Reaches c sp y.1) = true → decide (Reaches c sp' z.1) = true →
        y.1 ≤ z.1 ∨ decide (Reaches c sp z.1) = true := by
  refine (spans_ascending hS).imp_of_mem fun {sp sp'} hsp hsp' hlt y hy z hz hry hrz => ?_
  obtain ⟨hyf, hry⟩ := of_decide_eq_true hry
  obtain ⟨_, hrz⟩ := of_decide_eq_true hrz
  rcases hry with he | ⟨hsy, hy'⟩
  · refine .inr (decide_eq_true ⟨?_, .inl he⟩)
    rw [fetchedTo, if_pos he]
    exact lt_length_of_mem hz
  refine .inl (Nat.le_of_not_lt fun hzy => ?_)
  have hn : c.length ≠ 0 := fun hn => absurd (lt_length_of_mem hy) (by omega)
  have hle := (mem_spans hn hS hsp).2
  have hle' := (mem_spans hn hS hsp').2
  have hsz : sp'.1 ≤ z.1 := (hrz.resolve_left (by omega)).1
  have hys : y.1 = lineStart c sp.1 := hy'.resolve_left (by omega)
  have hz' : z ∈ (linesAt isNewline 0 c).filter fun y => decide (sp.1 ≤ y.1) :=
    List.mem_filter.mpr ⟨hz, decide_eq_true (by omega)⟩
  rw [linesFrom_eq (mem_spans hn hS hsp).1] at hz'
  have hstart := le_of_mem_linesAt hz'
  omega

theorem spans_nodup (hS : 0 < S) : (spans c.length S).Nodup := by
  by_cases hn : c.length = 0
  · rw [spans, if_pos hn]
    exact List.nodup_singleton _
  refine (spans_ascending hS).imp_of_mem fun {sp sp'} hsp _ hlt he => ?_
  have hle := (mem_spans hn hS hsp).2
  rw [he] at hlt hle
  omega

/-- The lines that all workers write are the lines of the object. -/
theorem flatMap_spanLines_iff (hS : 0 < S) :
    (spans c.length S).flatMap (spanLines c) = linesAt isNewline 0 c ↔
      (∀ y ∈ linesAt isNewline 0 c, ∃! sp, sp ∈ spans c.length S ∧ Reaches c sp y.1) ∧
      ∀ y ∈ linesAt isNewline 0 c, ∀ sp ∈ spans c.length S, Reaches c sp y.1 →
        y.1 + y.2.length ≤ fetchedTo c sp := by
  have h := flatMap_share_iff (f := fun sp => cut (fetchedTo c sp))
    (linesAt_ascending isNewline 0 c) (spans_nodup hS) (fun _ _ => rfl) (reaches_ordered hS)
  refine h.trans (and_congr ?_ ?_)
  · simp only [decide_eq_true_iff]
  · refine forall₂_congr fun y _ => forall₂_congr fun sp _ => ?_
    rw [decide_eq_true_iff]
    exact forall_congr' fun hr => cut_eq_iff hr.1

/-- For every object whose lines fit and every positive split size: reading the splits of the
manager one after the other gives every line of the object exactly once and in order, and no
split fails, if and only if the downloads cover the lines. -/
theorem splits_read_back_iff (hs : o.Serves c) (hfit : LinesFit c) (hS : 0 < S) :
    readSplits sha256Hex o (buildInputSplits sha256Hex (some o) S inputURI) =
      .ok (linesAt isNewline 0 c) ↔ Covered c S := by
  have hread := read_span sha256Hex inputURI hs hfit hS
  have hall : (∀ sp ∈ spans c.length S, sp.2 ≠ 0 → Readable c sp.1) →
      readSplits sha256Hex o ((spans c.length S).map (spanInput sha256Hex inputURI c)) =
        .ok ((spans c.length S).flatMap (spanLines c)) := by
    refine fun h => readSplits_ok fun sp hsp => ?_
    have hok := hread sp hsp
    dsimp only at hok
    rwa [if_pos (h sp hsp)] at hok
  rw [buildInputSplits_eq hs hS]
  constructor
  · intro h
    have hreadable : ∀ sp ∈ spans c.length S, sp.2 ≠ 0 → Readable c sp.1 := by
      intro sp hsp
      by_contra hno
      have herr := hread sp hsp
      dsimp only at herr
      rw [if_neg hno] at herr
      obtain ⟨e, he⟩ := herr
      obtain ⟨lines, hlines⟩ := read_of_readSplits h _ (List.mem_map_of_mem hsp)
      cases he.symm.trans hlines
    rw [hall hreadable] at h
    obtain ⟨honce, hwhole⟩ := (flatMap_spanLines_iff hS).mp (Except.ok.inj h)
    exact ⟨hreadable, honce, hwhole⟩
  · intro h
    rw [hall h.readable, (flatMap_spanLines_iff hS).mpr ⟨h.once, h.whole⟩]

end Covered

/-! ## 3. Two small objects -/

/-- An object that MinIO serves. -/
def servedObject (c : List UInt8) : StoredObject where
  stat := some c.length
  get := some c
  getRange i j := some ((c.drop i).take (j + 1 - i))

theorem servedObject_serves (c : List UInt8) : (servedObject c).Serves c :=
  ⟨rfl, rfl, fun _ _ _ => rfl⟩

/-- The object "a\nb\n" in splits of two bytes. -/
theorem splits_read_back_iff_two_lines :
    readSplits (fun _ => "sum") (servedObject [97, 10, 98, 10])
      (buildInputSplits (fun _ => "sum") (some (servedObject [97, 10, 98, 10]))
        (2 : Nat) "s3://in") =
        .ok [(0, [97, 10]), (2, [98, 10])] ∧
      Covered [97, 10, 98, 10] 2 := by
  have hread : readSplits (fun _ => "sum") (servedObject [97, 10, 98, 10])
      (buildInputSplits (fun _ => "sum") (some (servedObject [97, 10, 98, 10]))
        (2 : Nat) "s3://in") =
        .ok (linesAt isNewline 0 [97, 10, 98, 10]) := by decide
  have hfit : LinesFit [97, 10, 98, 10] := by unfold LinesFit; decide
  exact ⟨hread, (splits_read_back_iff (servedObject_serves _) hfit Nat.two_pos).mp hread⟩

/-- The object "aaa\nb\n" in splits of two bytes: the second split lies inside the first line,
and its worker writes the line behind it, as the worker of the third split does. -/
theorem line_read_twice :
    LinesFit [97, 97, 97, 10, 98, 10] ∧
      (servedObject [97, 97, 97, 10, 98, 10]).Serves [97, 97, 97, 10, 98, 10] ∧
      readSplits (fun _ => "sum") (servedObject [97, 97, 97, 10, 98, 10])
        (buildInputSplits (fun _ => "sum") (some (servedObject [97, 97, 97, 10, 98, 10])) (2 : Nat)
          "s3://in") = .ok [(0, [97, 97, 97, 10]), (4, [98, 10]), (4, [98, 10])] ∧
      linesAt isNewline 0 [97, 97, 97, 10, 98, 10] = [(0, [97, 97, 97, 10]), (4, [98, 10])] :=
  ⟨by unfold LinesFit; decide, servedObject_serves _, by decide, by decide⟩

end KubeMapReduce
