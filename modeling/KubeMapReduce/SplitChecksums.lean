import KubeMapReduce.MapInput

/-!
# The checksums of the splits

A split carries the SHA-256 of its range. The worker compares it with the first bytes of what it
has downloaded, if these are enough for the whole range; otherwise the records are released
without a check. But getRawRange stops after the first chunk of 1 MiB that has a newline, so it
has less than the range for most splits of the default size. A split whose last byte has the
offset 0 is read as a whole object and not checked either.

* `rawRangeLoop_ok`: what is downloaded for a range.
* `split_verified_iff`: the checksum is verified for every split that is opened exactly if the
  whole range is fetched.
* `newline_unverified`: it is not for a range of more than 1 MiB with a newline in its first 1 MiB.
-/

namespace KubeMapReduce

/-! ## 1. When a split is opened -/

section Opened

variable {sha256Hex : Bytes → String} {storage : String → String → StoredObject} {o : StoredObject}
  {c raw r : Bytes} {s e : Nat}

/-- The chunks up to the first newline, or to the end of the object. -/
theorem rawRangeLoop_ok (hs : o.Serves c) {fuel total : Nat}
    (h : rawRangeLoop o fuel s raw total = .ok r) :
    r = raw ++ (c.drop s).take (rawLength c s) := by
  induction fuel generalizing s raw total with
  | zero => cases h
  | succ fuel ih =>
    rw [rawRangeLoop, getRange_chunk hs] at h
    dsimp only at h
    rw [chunkFrom_length] at h
    split at h
    · next hend =>
      cases h
      unfold splitReadChunkSize at hend
      rw [List.drop_of_length_le (by omega), List.take_nil, List.append_nil]
    split at h
    · cases h
    split at h
    · next hnl =>
      cases h
      rw [rawLength_first hnl, chunkFrom]
    next hnl =>
    split at h
    · cases h
    · next hfull =>
      have hfull : splitReadChunkSize ≤ c.length - s := by omega
      rw [Nat.min_eq_left hfull] at h
      rw [ih h, rawLength_next hnl hfull, List.take_add, List.drop_drop, List.append_assoc,
        chunkFrom]

/-- No error of the download is the one that comes out of the pipe. -/
theorem rawRangeLoop_error {fuel total : Nat} {err : SplitErr}
    (h : rawRangeLoop o fuel s raw total = .error err) : err ≠ .skipPartialLine := by
  induction fuel generalizing s raw total with
  | zero =>
    cases h
    decide
  | succ fuel ih =>
    rw [rawRangeLoop] at h
    split at h
    · cases h
      decide
    · split at h
      · cases h
      split at h
      · cases h
        decide
      split at h
      · cases h
      split at h
      · cases h
        decide
      · exact ih h

theorem getRawRange_error {err : SplitErr} (h : getRawRange o s e = .error err) :
    err ≠ .skipPartialLine := by
  unfold getRawRange at h
  split at h
  · cases h
    decide
  · exact rawRangeLoop_error h

theorem getRawRange_ok (hs : o.Serves c) (h : getRawRange o s e = .ok raw) :
    raw = (c.drop s).take (rawLength c s) := by
  unfold getRawRange at h
  split at h
  · cases h
  · exact (rawRangeLoop_ok hs h).trans (List.nil_append _)

theorem fetchPrecedingByte_error {err : SplitErr} (h : fetchPrecedingByte o s = .error err) :
    err ≠ .skipPartialLine := by
  unfold fetchPrecedingByte at h
  split at h
  · cases h
  · split at h
    · cases h
    · cases h
      decide

theorem streamLines_error {atBoundary : Bool} {err : SplitErr}
    (h : streamLines raw s e atBoundary = .error err) : err = .skipPartialLine := by
  unfold streamLines at h
  split at h
  · split at h
    · cases h
      rfl
    · split at h
      · cases h
      · cases h
        rfl
  · cases h

variable {uri bucket key checksum : String}

/-- A range is opened if it is downloaded, its checksum is not found wrong and the byte before it
is read. -/
theorem openSplit_iff (huri : parseS3URI uri = .ok (bucket, key)) (he : e ≠ 0) :
    (∃ reader, openSplit sha256Hex storage ⟨uri, s, e, checksum⟩ = .ok reader) ↔
      ∃ raw atBoundary, getRawRange (storage bucket key) s e = .ok raw ∧
        splitChecksumValid sha256Hex raw s e checksum = true ∧
        fetchPrecedingByte (storage bucket key) s = .ok atBoundary := by
  simp only [openSplit, huri, readSplitRecordsStreaming, if_neg he]
  cases hraw : getRawRange (storage bucket key) s e with
  | error err =>
    refine ⟨?_, by rintro ⟨_, _, ⟨⟩, _⟩⟩
    have hne := getRawRange_error hraw
    cases err with
    | skipPartialLine => exact absurd rfl hne
    | _ => rintro ⟨_, ⟨⟩⟩
  | ok raw =>
    dsimp only
    cases hvalid : splitChecksumValid sha256Hex raw s e checksum with
    | false =>
      rw [if_pos rfl]
      refine ⟨by rintro ⟨_, ⟨⟩⟩, ?_⟩
      rintro ⟨raw', _, hraw', hvalid', _⟩
      cases hraw'
      rw [hvalid] at hvalid'
      cases hvalid'
    | true =>
      rw [if_neg Bool.noConfusion]
      cases hbyte : fetchPrecedingByte (storage bucket key) s with
      | error err =>
        refine ⟨?_, by rintro ⟨_, _, _, _, ⟨⟩⟩⟩
        have hne := fetchPrecedingByte_error hbyte
        cases err with
        | skipPartialLine => exact absurd rfl hne
        | _ => rintro ⟨_, ⟨⟩⟩
      | ok atBoundary =>
        refine ⟨fun _ => ⟨raw, atBoundary, rfl, hvalid, rfl⟩, fun _ => ?_⟩
        dsimp only
        cases hlines : streamLines raw s e atBoundary with
        | ok lines => exact ⟨_, rfl⟩
        | error err =>
          rw [streamLines_error hlines]
          exact ⟨_, rfl⟩

/-- A split that ends at the offset 0 is opened as the whole object. -/
theorem openSplit_whole (huri : parseS3URI uri = .ok (bucket, key))
    (hs : (storage bucket key).Serves c) :
    ∃ reader, openSplit sha256Hex storage ⟨uri, s, 0, checksum⟩ = .ok reader := by
  simp only [openSplit, huri, readSplitRecordsStreaming, if_true, hs.get]
  exact ⟨_, rfl⟩

end Opened

/-! ## 2. When it is verified -/

/-- The range does not end at the offset 0, and it is in the object and in what is downloaded. -/
def Fetched (c : Bytes) (s e : Nat) : Prop :=
  e ≠ 0 ∧ e - s + 1 ≤ min (rawLength c s) (c.length - s)

instance (c : Bytes) (s e : Nat) : Decidable (Fetched c s e) :=
  inferInstanceAs (Decidable (_ ∧ _))

section Verified

variable {sha256Hex : Bytes → String} {storage : String → String → StoredObject} {c : Bytes}
  {s e : Nat} {uri bucket key : String}

theorem append_ne_self (text : String) : text ++ "0" ≠ text := by
  intro h
  have hlen := congrArg String.length h
  rw [String.length_append] at hlen
  exact absurd hlen (Nat.succ_ne_self _)

theorem append_ne_empty (text : String) : text ++ "0" ≠ "" := by
  intro h
  have hlen := congrArg String.length h
  rw [String.length_append] at hlen
  cases hlen

/-- What has been downloaded is long enough exactly if it covers the range. -/
theorem splitChecksumValid_fetched (h : Fetched c s e) {checksum : String} (hne : checksum ≠ "") :
    splitChecksumValid sha256Hex ((c.drop s).take (rawLength c s)) s e checksum = true ↔
      sha256Hex ((c.drop s).take (e - s + 1)) = checksum := by
  have hlong : ¬ ((c.drop s).take (rawLength c s)).length < e - s + 1 := by
    rw [List.length_take, List.length_drop]
    exact Nat.not_lt.mpr h.2
  unfold splitChecksumValid
  rw [Bool.or_eq_true, Bool.or_eq_true, decide_eq_true_iff, decide_eq_true_iff,
    decide_eq_true_iff, List.take_take, Nat.min_eq_left (Nat.le_trans h.2 (Nat.min_le_left _ _))]
  exact ⟨fun hv => hv.resolve_left fun hv => hv.elim hne hlong, .inr⟩

theorem splitChecksumValid_short (he : e ≠ 0) (h : ¬ Fetched c s e) (checksum : String) :
    splitChecksumValid sha256Hex ((c.drop s).take (rawLength c s)) s e checksum = true := by
  have hshort : ((c.drop s).take (rawLength c s)).length < e - s + 1 := by
    rw [List.length_take, List.length_drop]
    exact Nat.not_le.mp fun hle => h ⟨he, hle⟩
  unfold splitChecksumValid
  rw [decide_eq_true hshort, Bool.or_true, Bool.true_or]

/-- A split that is not fetched is opened with every checksum, if it is with one. -/
theorem opened_unverified (huri : parseS3URI uri = .ok (bucket, key))
    (hs : (storage bucket key).Serves c) (h : ¬ Fetched c s e) {checksum : String}
    {reader : SplitReader} (hopen : openSplit sha256Hex storage ⟨uri, s, e, checksum⟩ = .ok reader)
    (checksum' : String) :
    ∃ reader', openSplit sha256Hex storage ⟨uri, s, e, checksum'⟩ = .ok reader' := by
  by_cases he : e = 0
  · subst he
    exact openSplit_whole huri hs
  · obtain ⟨raw, atBoundary, hraw, _, hbyte⟩ := (openSplit_iff huri he).mp ⟨reader, hopen⟩
    refine (openSplit_iff huri he).mpr ⟨raw, atBoundary, hraw, ?_, hbyte⟩
    rw [getRawRange_ok hs hraw]
    exact splitChecksumValid_short he h checksum'

/-- For every content and every range: the SHA-256 of the range is the checksum, whenever a split
with a checksum is opened, exactly if the whole range is fetched or the split is never
opened. -/
theorem split_verified_iff (huri : parseS3URI uri = .ok (bucket, key))
    (hs : (storage bucket key).Serves c) :
    (∀ checksum reader, checksum ≠ "" →
      openSplit sha256Hex storage ⟨uri, s, e, checksum⟩ = .ok reader →
      sha256Hex ((c.drop s).take (e - s + 1)) = checksum) ↔
    Fetched c s e ∨
      ∀ checksum reader, openSplit sha256Hex storage ⟨uri, s, e, checksum⟩ ≠ .ok reader := by
  constructor
  · intro hall
    by_contra hnot
    obtain ⟨hcov, hopens⟩ := not_or.mp hnot
    obtain ⟨checksum, hopens⟩ := not_forall.mp hopens
    obtain ⟨reader, hopen⟩ := not_forall.mp hopens
    -- a checksum that is not the one of the range
    have hwrong := append_ne_self (sha256Hex ((c.drop s).take (e - s + 1)))
    obtain ⟨reader', hopen'⟩ := opened_unverified huri hs hcov (not_not.mp hopen)
      (sha256Hex ((c.drop s).take (e - s + 1)) ++ "0")
    exact hwrong (hall _ reader' (append_ne_empty _) hopen').symm
  · rintro (hcov | hnone) checksum reader hne hopen
    · obtain ⟨raw, _, hraw, hvalid, _⟩ := (openSplit_iff huri hcov.1).mp ⟨reader, hopen⟩
      rw [getRawRange_ok hs hraw] at hvalid
      exact (splitChecksumValid_fetched hcov hne).mp hvalid
    · exact absurd hopen (hnone checksum reader)

theorem textObject_serves (content : Bytes) : (textObject content).Serves content :=
  ⟨rfl, rfl, fun _ _ _ => rfl⟩

theorem getRawRange_first {o : StoredObject} (hs : o.Serves c) (hse : s ≤ e)
    (hnl : (chunkFrom c s).any isNewline = true) : getRawRange o s e = .ok (chunkFrom c s) := by
  have hpos : 0 < (chunkFrom c s).length :=
    Nat.lt_of_le_of_lt (Nat.zero_le _) (List.findIdx_lt_length.mpr (List.any_eq_true.mp hnl))
  have hcap : ¬ 0 + (chunkFrom c s).length > maxRawRangeBytes := by
    rw [chunkFrom_length]
    unfold maxRawRangeBytes splitReadChunkSize
    omega
  rw [getRawRange, if_neg (Nat.not_lt.mpr hse), rawRangeLoop, getRange_chunk hs]
  dsimp only
  rw [if_neg (Nat.ne_of_gt hpos), if_neg hcap, if_pos hnl, List.nil_append]

/-- A range of more than 1 MiB at the start of an object, with a newline in the first 1 MiB, is
opened with every checksum. -/
theorem newline_unverified (huri : parseS3URI uri = .ok (bucket, key))
    (hs : (storage bucket key).Serves c) (he : splitReadChunkSize ≤ e)
    (hnl : (chunkFrom c 0).any isNewline = true) (checksum : String) :
    ∃ reader, openSplit sha256Hex storage ⟨uri, 0, e, checksum⟩ = .ok reader := by
  have he' : e ≠ 0 := by
    unfold splitReadChunkSize at he
    omega
  refine (openSplit_iff huri he').mpr
    ⟨_, true, getRawRange_first hs (Nat.zero_le e) hnl, ?_, rfl⟩
  have hraw : chunkFrom c 0 = (c.drop 0).take (rawLength c 0) := by
    rw [rawLength_first hnl]
    rfl
  rw [hraw]
  refine splitChecksumValid_short he' (fun hcov => ?_) checksum
  have hle := Nat.le_trans hcov.2 (Nat.min_le_left _ _)
  rw [rawLength_first hnl] at hle
  omega

end Verified

/-! ## 3. An object of more than 1 MiB -/

/-- The storage has one object. -/
def oneObject (content : Bytes) : String → String → StoredObject := fun _ _ => textObject content

theorem split_verified_two :
    parseS3URI "s3://mapreduce-inputs/a" = .ok ("mapreduce-inputs", "a") ∧
      Fetched [97, 10] 0 1 ∧
      ∀ checksum reader, checksum ≠ "" →
        openSplit (fun _ => "ok") (oneObject [97, 10])
          ⟨"s3://mapreduce-inputs/a", 0, 1, checksum⟩ = .ok reader → "ok" = checksum := by
  have huri : parseS3URI "s3://mapreduce-inputs/a" = .ok ("mapreduce-inputs", "a") := by decide
  have hcov : Fetched [97, 10] 0 1 := by decide
  exact ⟨huri, hcov, (split_verified_iff huri (textObject_serves [97, 10])).mpr (.inl hcov)⟩

/-- An empty line and 1 MiB without a newline: one split of 1 MiB and one byte. -/
def longObject : Bytes := 10 :: List.replicate splitReadChunkSize 97

/-- The split of the whole object is opened with a checksum that is not the SHA-256 of the
object, whatever the function is. -/
theorem tail_unverified :
    longObject.length = splitReadChunkSize + 1 ∧
      ∀ sha256Hex : Bytes → String, ∃ checksum reader, checksum ≠ "" ∧
        openSplit sha256Hex (oneObject longObject)
          ⟨"s3://mapreduce-inputs/a", 0, splitReadChunkSize, checksum⟩ = .ok reader ∧
        sha256Hex ((longObject.drop 0).take (splitReadChunkSize - 0 + 1)) ≠ checksum := by
  refine ⟨by rw [longObject, List.length_cons, List.length_replicate], fun sha256Hex => ?_⟩
  have huri : parseS3URI "s3://mapreduce-inputs/a" = .ok ("mapreduce-inputs", "a") := by decide
  have hnl : (chunkFrom longObject 0).any isNewline = true :=
    List.any_eq_true.mpr ⟨10, List.mem_cons_self, rfl⟩
  have hserves : (oneObject longObject "mapreduce-inputs" "a").Serves longObject :=
    textObject_serves longObject
  obtain ⟨reader, hopen⟩ := newline_unverified huri hserves (Nat.le_refl _) hnl
    (sha256Hex ((longObject.drop 0).take (splitReadChunkSize - 0 + 1)) ++ "0")
  exact ⟨_, reader, append_ne_empty _, hopen, (append_ne_self _).symm⟩

end KubeMapReduce
