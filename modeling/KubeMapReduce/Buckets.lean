import Mathlib.Algebra.Order.Group.Int
import KubeMapReduce.Lib.Greedy
import KubeMapReduce.Promotion

/-!
# The buckets of a folder

The objects of a folder are sorted by size and placed one after another into the bucket that has
the fewest bytes. This is the greedy placement of `Greedy`, with the objects as the items and
their sizes as the weights. The source adds the sizes as int64; the sums here are its sums for a
folder of at most 2^63 - 64 MiB bytes, where none of them wraps.

* `fillBuckets_run`: the loop of the code is a run of the greedy placement.
* `buildPrefixInputBuckets_spread`: if every checksum can be read, then each object is in one
  bucket, there are no more buckets than splits of the target size, and no two buckets differ by
  more than the largest object.
-/

namespace KubeMapReduce

open Runs Greedy

variable {parts : List (List ScheduleObjectInfo)} {objects : List ScheduleObjectInfo}
  {obj : ScheduleObjectInfo}

/-! ## 1. The bucket that is taken -/

theorem leastLoaded_least {buckets : List Bucket} (hne : buckets ≠ []) :
    ∃ b, buckets[leastLoaded buckets]? = some b ∧ ∀ b' ∈ buckets, b.size ≤ b'.size := by
  let sizeAt : Nat → Int := fun i => (buckets[i]?.map Bucket.size).getD 0
  -- the best of the first `n` buckets
  have hbest : ∀ n ≤ buckets.length,
      (List.range n).foldl (fun best i => if sizeAt i < sizeAt best then i else best) 0 <
        buckets.length ∧
      ∀ j < n, sizeAt ((List.range n).foldl
        (fun best i => if sizeAt i < sizeAt best then i else best) 0) ≤ sizeAt j := by
    intro n hn
    induction n with
    | zero => exact ⟨List.length_pos_iff.mpr hne, by simp⟩
    | succ n ih =>
      obtain ⟨hlt, hmin⟩ := ih (by omega)
      rw [List.range_succ, List.foldl_append, List.foldl_cons, List.foldl_nil]
      generalize (List.range n).foldl _ 0 = best at hlt hmin ⊢
      split
      · next hless =>
        refine ⟨hn, fun j hj => ?_⟩
        rcases Nat.lt_succ_iff_lt_or_eq.mp hj with hj | rfl
        · exact hless.le.trans (hmin j hj)
        · exact le_rfl
      · next hmore =>
        refine ⟨hlt, fun j hj => ?_⟩
        rcases Nat.lt_succ_iff_lt_or_eq.mp hj with hj | rfl
        · exact hmin j hj
        · exact not_lt.mp hmore
  obtain ⟨hlt, hmin⟩ := hbest buckets.length le_rfl
  change leastLoaded buckets < buckets.length at hlt
  refine ⟨buckets[leastLoaded buckets], List.getElem?_eq_getElem hlt, fun b' hb' => ?_⟩
  obtain ⟨j, hj, rfl⟩ := List.mem_iff_getElem.mp hb'
  have hle : sizeAt (leastLoaded buckets) ≤ sizeAt j := hmin j hj
  simpa [sizeAt, List.getElem?_eq_getElem hlt, List.getElem?_eq_getElem hj] using hle

/-! ## 2. The loop -/

section Fill

variable (sha256Hex : List UInt8 → String) (client : ScheduleObjectClient)

/-- The split for a whole object: all its bytes and their checksum. An empty object has neither. -/
def wholeObject (obj : ScheduleObjectInfo) : ScheduleTaskInput where
  inputURI := objectURI obj.key
  byteStart := 0
  byteEnd := if 0 < obj.size then obj.size - 1 else 0
  splitChecksum :=
    if 0 < obj.size then
      (checksumObjectRange sha256Hex (client.object obj.key) 0 (obj.size - 1).toNat).getD ""
    else ""

/-- The checksum of the object can be read, if it has bytes. -/
def ReadsChecksum (obj : ScheduleObjectInfo) : Prop :=
  0 < obj.size →
    checksumObjectRange sha256Hex (client.object obj.key) 0 (obj.size - 1).toNat ≠ none

/-- The bucket that holds these objects. -/
def packed (part : List ScheduleObjectInfo) : Bucket :=
  ⟨part.map (wholeObject sha256Hex client), load ScheduleObjectInfo.size part⟩

variable {sha256Hex client}

theorem listedSplit_reads (h : ReadsChecksum sha256Hex client obj) :
    listedSplit sha256Hex client obj = some (wholeObject sha256Hex client obj) := by
  unfold listedSplit wholeObject
  split
  · next hpos =>
    obtain ⟨checksum, hsum⟩ := Option.ne_none_iff_exists'.mp (h hpos)
    rw [hsum]
    rfl
  · rfl

theorem packed_concat (part : List ScheduleObjectInfo) (h : 0 ≤ obj.size) :
    packed sha256Hex client (part ++ [obj]) =
      (packed sha256Hex client part).add (wholeObject sha256Hex client obj) obj.size := by
  unfold packed Bucket.add
  rw [load_concat, List.map_append, List.map_singleton]
  split
  · rfl
  · next hpos => rw [show obj.size = 0 by omega, add_zero]

/-- One round of the loop: the object is placed into the lightest part. -/
theorem packed_places (sha256Hex : List UInt8 → String) (client : ScheduleObjectClient)
    (hne : parts ≠ []) (h : 0 ≤ obj.size) :
    ∃ parts', Places ScheduleObjectInfo.size parts obj parts' ∧
      (parts.map (packed sha256Hex client)).modify
          (leastLoaded (parts.map (packed sha256Hex client)))
          (·.add (wholeObject sha256Hex client obj) obj.size) =
        parts'.map (packed sha256Hex client) := by
  obtain ⟨b, hb, hmin⟩ :=
    leastLoaded_least (mt List.map_eq_nil_iff.mp hne : parts.map (packed sha256Hex client) ≠ [])
  generalize leastLoaded (parts.map (packed sha256Hex client)) = i at hb ⊢
  obtain ⟨bs, b', bs', hbs, rfl, hmodify⟩ :=
    List.exists_of_modify (·.add (wholeObject sha256Hex client obj) obj.size)
      (List.getElem?_eq_some_iff.mp hb).1
  obtain ⟨before, rest, rfl, rfl, hrest⟩ := List.map_eq_append_iff.mp hbs
  obtain ⟨part, after, rfl, rfl, rfl⟩ := List.map_eq_cons_iff.mp hrest
  obtain rfl : packed sha256Hex client part = b := by simpa using hb
  refine ⟨before ++ (part ++ [obj]) :: after, ⟨before, part, after, rfl, fun p hp => ?_, rfl⟩, ?_⟩
  · exact hmin _ (List.mem_map_of_mem hp)
  · rw [hmodify, List.map_append, List.map_cons, packed_concat _ h]

/-- The loop over the objects is a run of the greedy placement. -/
theorem fillBuckets_run (hread : ∀ obj ∈ objects, ReadsChecksum sha256Hex client obj)
    (hsize : ∀ obj ∈ objects, 0 ≤ obj.size) (parts : List (List ScheduleObjectInfo))
    (hne : parts ≠ []) :
    ∃ parts', Run (Places ScheduleObjectInfo.size) parts objects parts' ∧
      fillBuckets sha256Hex client objects (parts.map (packed sha256Hex client)) =
        some (parts'.map (packed sha256Hex client)) := by
  induction objects generalizing parts with
  | nil => exact ⟨parts, .nil _, rfl⟩
  | cons obj rest ih =>
    obtain ⟨hobj, hrest⟩ := List.forall_mem_cons.mp hread
    obtain ⟨hpos, hsizes⟩ := List.forall_mem_cons.mp hsize
    obtain ⟨parts₁, hplace, hmodify⟩ := packed_places sha256Hex client hne hpos
    have hne₁ : parts₁ ≠ [] := by
      rw [← List.length_pos_iff, hplace.length]
      exact List.length_pos_iff.mpr hne
    obtain ⟨parts', hrun, hfill⟩ := ih hrest hsizes parts₁ hne₁
    refine ⟨parts', .cons hplace hrun, ?_⟩
    rw [fillBuckets, listedSplit_reads hobj]
    simp only [hmodify, hfill]

/-- The buckets that are returned: those with a split. -/
theorem packed_returned (parts : List (List ScheduleObjectInfo)) :
    ((parts.map (packed sha256Hex client)).filter fun b => b.splits.length > 0).map Bucket.splits =
      (parts.filter fun part => part ≠ []).map (List.map (wholeObject sha256Hex client)) := by
  rw [List.filter_map, List.map_map]
  have hsame : ∀ part : List ScheduleObjectInfo,
      decide ((packed sha256Hex client part).splits.length > 0) = decide (part ≠ []) := by
    simp [packed, List.length_pos_iff]
  rw [show ((fun b : Bucket => decide (b.splits.length > 0)) ∘ packed sha256Hex client) =
    fun part => decide (part ≠ []) from funext hsame]
  rfl

end Fill

/-! ## 3. How the objects are spread -/

/-- How many splits of the target size the objects need together. -/
def splitsNeeded (objects : List ScheduleObjectInfo) : Int :=
  let splitSize : Int := targetSplitSize defaultTargetSplitSizeBytes
  (load ScheduleObjectInfo.size objects + splitSize - 1) / splitSize

/-- The objects are spread over the parts: each object is in one part, there are not more parts
than objects or splits of the target size, and the parts differ by at most the largest object. -/
structure Spread (objects : List ScheduleObjectInfo) (parts : List (List ScheduleObjectInfo)) :
    Prop where
  each : parts.flatten.Perm objects
  used : ∀ part ∈ parts, part ≠ []
  count : parts.length ≤ objects.length
  splits : (parts.length : Int) ≤ max 1 (splitsNeeded objects)
  even : ∀ largest ∈ objects, (∀ obj ∈ objects, obj.size ≤ largest.size) →
    Balanced ScheduleObjectInfo.size largest.size parts

theorem bucketCount_bounds (hne : objects ≠ []) (hsize : ∀ obj ∈ objects, 0 ≤ obj.size) :
    0 < bucketCount objects ∧ bucketCount objects ≤ objects.length ∧
      (bucketCount objects : Int) ≤ max 1 (splitsNeeded objects) := by
  have hsizes : objects.map (fun obj => if obj.size > 0 then obj.size else 0) =
      objects.map ScheduleObjectInfo.size := by
    refine List.map_congr_left fun obj hobj => ?_
    have := hsize obj hobj
    split <;> omega
  have hlen := List.length_pos_iff.mpr hne
  unfold bucketCount splitsNeeded load
  rw [hsizes]
  dsimp only
  generalize (_ : Int) / _ = mTasks
  omega

theorem objectURI_injective {key key' : String} (h : objectURI key = objectURI key') :
    key = key' := by
  have hlist := congrArg String.toList h
  rw [objectURI_toList, objectURI_toList] at hlist
  exact String.ext (List.append_cancel_left hlist)

/-- What is returned when the loop has filled the buckets with these parts. -/
theorem buildPrefixInputBuckets_filled {sha256Hex : List UInt8 → String}
    {client : ScheduleObjectClient} {folder : String}
    (hlist : client.listObjects folder = some objects) (hne : objects ≠ [])
    (hfill : fillBuckets sha256Hex client (objects.insertionSort ScheduleObjectInfo.before)
      ((List.replicate (bucketCount objects) []).map (packed sha256Hex client)) =
        some (parts.map (packed sha256Hex client)))
    (hused : (parts.filter fun part => part ≠ []) ≠ []) (fallbackInputURI : String) :
    buildPrefixInputBuckets sha256Hex (some client) folder fallbackInputURI =
      (parts.filter fun part => part ≠ []).map (List.map (wholeObject sha256Hex client)) := by
  rw [List.map_replicate] at hfill
  change fillBuckets _ _ _ (List.replicate _ ⟨[], 0⟩) = _ at hfill
  simp only [buildPrefixInputBuckets, hlist, hfill, packed_returned]
  rw [if_neg (by simpa using hne), if_neg (by simpa using hused)]

/-- The buckets of a folder whose objects can all be read: the objects are spread over them, and no
object is there twice. The folder has at most 2^63 - 64 MiB bytes, which is what the int64 sums of
the source can hold; a larger one is not described. -/
theorem buildPrefixInputBuckets_spread (sha256Hex : List UInt8 → String)
    (client : ScheduleObjectClient) (folder fallbackInputURI : String)
    (objects : List ScheduleObjectInfo) (hlist : client.listObjects folder = some objects)
    (hne : objects ≠ []) (hkeys : (objects.map ScheduleObjectInfo.key).Nodup)
    (hsize : ∀ obj ∈ objects, 0 ≤ obj.size)
    (hread : ∀ obj ∈ objects, ReadsChecksum sha256Hex client obj) :
    let result := buildPrefixInputBuckets sha256Hex (some client) folder fallbackInputURI
    (result.flatten.map ScheduleTaskInput.inputURI).Nodup ∧
      ∃ parts, Spread objects parts ∧
        result = parts.map (List.map (wholeObject sha256Hex client)) := by
  obtain ⟨hpos, hobjects, hsplits⟩ := bucketCount_bounds hne hsize
  have hsorted := List.perm_insertionSort ScheduleObjectInfo.before objects
  obtain ⟨parts, hrun, hfill⟩ := fillBuckets_run
    (fun obj hobj => hread obj (hsorted.mem_iff.mp hobj))
    (fun obj hobj => hsize obj (hsorted.mem_iff.mp hobj))
    (List.replicate (bucketCount objects) []) (by simpa using hpos.ne')
  have hlen : parts.length = bucketCount objects := by
    rw [run_length hrun, List.length_replicate]
  have heach : (parts.filter fun part => part ≠ []).flatten.Perm objects := by
    rw [List.flatten_filter_ne_nil]
    refine (run_flatten hrun).trans ?_
    rw [List.flatten_replicate_nil, List.append_nil]
    exact hsorted
  have hfewer : (parts.filter fun part => part ≠ []).length ≤ bucketCount objects :=
    hlen ▸ List.length_filter_le ..
  have hused : (parts.filter fun part => part ≠ []) ≠ [] := by
    intro hnil
    rw [hnil] at heach
    exact hne heach.symm.eq_nil
  have hresult := buildPrefixInputBuckets_filled hlist hne hfill hused fallbackInputURI
  refine ⟨?_, _, ⟨heach, ?_, hfewer.trans hobjects, ?_, ?_⟩, hresult⟩
  · rw [hresult, ← List.map_flatten, List.map_map]
    have huris : (objects.map (objectURI ∘ ScheduleObjectInfo.key)).Nodup := by
      rw [← List.map_map]
      exact hkeys.map fun _ _ => objectURI_injective
    exact ((heach.map _).nodup_iff).mpr huris
  · simp
  · exact (Int.ofNat_le.mpr hfewer).trans hsplits
  · intro largest hlargest hmost p hp q hq
    exact run_balanced hrun
      (fun obj hobj => ⟨hsize obj (hsorted.mem_iff.mp hobj), hmost obj (hsorted.mem_iff.mp hobj)⟩)
      (balanced_empty _ (hsize largest hlargest)) p (List.mem_of_mem_filter hp)
      q (List.mem_of_mem_filter hq)

/-- Three objects of 32, 48 and 32 MiB. -/
def threeObjects : List ScheduleObjectInfo :=
  [⟨"in/a", 32 * 1024 * 1024⟩, ⟨"in/b", 48 * 1024 * 1024⟩, ⟨"in/c", 32 * 1024 * 1024⟩]

/-- A storage that lists the three objects and reads zeros from each. -/
def zeroStorage : ScheduleObjectClient :=
  ⟨fun _ => ⟨none, none, fun i j => some (List.replicate (j + 1 - i) 0)⟩,
    fun _ => some threeObjects⟩

theorem buildPrefixInputBuckets_spread_three :
    splitsNeeded threeObjects = 2 ∧ ∃ parts, Spread threeObjects parts ∧
      buildPrefixInputBuckets (fun _ => "0") (some zeroStorage) "in/" "s3://mapreduce-inputs/in/" =
        parts.map (List.map (wholeObject (fun _ => "0") zeroStorage)) := by
  refine ⟨by decide, (buildPrefixInputBuckets_spread (fun _ => "0") zeroStorage "in/"
    "s3://mapreduce-inputs/in/" threeObjects rfl (by decide) (by decide) (by decide) ?_).2⟩
  intro obj _ _
  simp [checksumObjectRange, zeroStorage]

end KubeMapReduce
