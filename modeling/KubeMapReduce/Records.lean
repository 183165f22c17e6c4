import KubeMapReduce.Lib.Lines
import KubeMapReduce.Shuffle
import KubeMapReduce.Splits

/-!
# Streams of records

Records are written with a json.Encoder, one line each, and read back with a bufio.Scanner whose
buffer has a limit. The limit is one on the line with its newline, and the encoder does not write a
line as short as it can be: it escapes `<`, `>`, `&`, U+2028 and U+2029 with six bytes each.

* `readRecords_encodeAll`: what the encoder has written is read back if every line fits.
* `readRecords_tooLong`: one line that does not fit, and the whole stream is not read.
-/

namespace KubeMapReduce

open Lines

/-! ## 1. The encoder -/

def hexDigit (n : Nat) : Char := "0123456789abcdef".toList.getD n '0'

/-- The escapes of encoding/json in a string, with those for HTML. -/
def escapeChar (c : Char) : List Char :=
  if c = '\x22' ∨ c = '\x5c' then ['\x5c', c]
  else if c = '\x08' then ['\x5c', 'b']
  else if c = '\x0c' then ['\x5c', 'f']
  else if c = '\n' then ['\x5c', 'n']
  else if c = '\r' then ['\x5c', 'r']
  else if c = '\t' then ['\x5c', 't']
  else if c.toNat < 32 ∨ c = '<' ∨ c = '>' ∨ c = '&' then
    ['\x5c', 'u', '0', '0', hexDigit (c.toNat / 16), hexDigit (c.toNat % 16)]
  else if c.toNat = 0x2028 ∨ c.toNat = 0x2029 then
    ['\x5c', 'u', '2', '0', '2', hexDigit (c.toNat % 16)]
  else [c]

def utf8 (cs : List Char) : Bytes := cs.flatMap String.utf8EncodeChar

/-- A string between its quotes. -/
def escaped (s : String) : Bytes := utf8 (s.toList.flatMap escapeChar)

/-- A record as a JSON object, without the newline that Encode writes behind it. -/
def encodeRecord (r : Record) : Line :=
  utf8 "\x7b\"key\":\"".toList ++ (escaped r.key ++ (utf8 "\",\"value\":\"".toList ++
    (escaped r.value ++ utf8 "\"\x7d".toList)))

/-- What the encoder writes for these records. -/
def encodeAll (rs : List Record) : Bytes :=
  (rs.map encodeRecord).flatMap (· ++ newlineBytes)

theorem length_encodeRecord (r : Record) :
    (encodeRecord r).length = 21 + (escaped r.key).length + (escaped r.value).length := by
  have hkey : (utf8 "\x7b\"key\":\"".toList).length = 8 := by decide
  have hvalue : (utf8 "\",\"value\":\"".toList).length = 11 := by decide
  have hend : (utf8 "\"\x7d".toList).length = 2 := by decide
  unfold encodeRecord
  simp only [List.length_append, hkey, hvalue, hend]
  omega

theorem getLast_encodeRecord (r : Record) : (encodeRecord r).getLast? = some 125 := by
  have hend : utf8 "\"\x7d".toList = [34, 125] := by decide
  rw [encodeRecord, hend]
  simp

theorem isNewline_utf8EncodeChar {c : Char} (hc : c ≠ '\n') :
    ∀ b ∈ String.utf8EncodeChar c, isNewline b = false := by
  have hne : c.val.toNat ≠ 10 := fun h => hc (Char.ext (UInt32.toNat_inj.mp h))
  have hbyte : ∀ n : Nat, n < 256 → n ≠ 10 → isNewline (UInt8.ofNat n) = false := by
    intro n hn hne
    simp only [isNewline, beq_eq_false_iff_ne, ne_eq, ← UInt8.toNat_inj]
    simp
    omega
  intro b hb
  simp only [String.utf8EncodeChar] at hb
  -- the bytes of a longer code have their first bit set
  split at hb
  · simp only [List.mem_cons, List.not_mem_nil, or_false] at hb
    exact hb ▸ hbyte _ (by omega) hne
  split at hb
  · simp only [List.mem_cons, List.not_mem_nil, or_false] at hb
    rcases hb with rfl | rfl <;> exact hbyte _ (by omega) (by omega)
  split at hb
  · simp only [List.mem_cons, List.not_mem_nil, or_false] at hb
    rcases hb with rfl | rfl | rfl <;> exact hbyte _ (by omega) (by omega)
  · simp only [List.mem_cons, List.not_mem_nil, or_false] at hb
    rcases hb with rfl | rfl | rfl | rfl <;> exact hbyte _ (by omega) (by omega)

theorem isNewline_utf8 {cs : List Char} (h : '\n' ∉ cs) : ∀ b ∈ utf8 cs, isNewline b = false := by
  intro b hb
  obtain ⟨c, hc, hb⟩ := List.mem_flatMap.mp hb
  exact isNewline_utf8EncodeChar (fun he => h (he ▸ hc)) b hb

theorem newline_ne_hexDigit (n : Nat) : '\n' ≠ hexDigit n := by
  have hdigits : ∀ c ∈ "0123456789abcdef".toList, '\n' ≠ c := by simp
  rw [hexDigit, List.getD_eq_getElem?_getD]
  cases h : "0123456789abcdef".toList[n]? with
  | none => decide
  | some c => exact hdigits c (List.mem_of_getElem? h)

theorem newline_notMem_escapeChar (c : Char) : '\n' ∉ escapeChar c := by
  unfold escapeChar
  split
  · next h => rcases h with rfl | rfl <;> decide
  · split_ifs with _ _ hnewline
    all_goals simp [newline_ne_hexDigit]
    exact Ne.symm hnewline

/-- A record is on one line. -/
theorem isNewline_encodeRecord (r : Record) : ∀ b ∈ encodeRecord r, isNewline b = false := by
  have hescaped : ∀ s, ∀ b ∈ escaped s, isNewline b = false := by
    intro s
    refine isNewline_utf8 fun h => ?_
    obtain ⟨c, _, hc⟩ := List.mem_flatMap.mp h
    exact newline_notMem_escapeChar c hc
  unfold encodeRecord
  simp only [List.forall_mem_append]
  exact ⟨isNewline_utf8 (by decide), hescaped _, isNewline_utf8 (by decide), hescaped _,
    isNewline_utf8 (by decide)⟩

theorem lines_encodeAll (rs : List Record) :
    lines isNewline (encodeAll rs) = (rs.map encodeRecord).map (· ++ newlineBytes) := by
  refine lines_flatMap_end rfl fun xs hxs => ?_
  obtain ⟨r, _, rfl⟩ := List.mem_map.mp hxs
  exact isNewline_encodeRecord r

/-! ## 2. The scanner -/

/-- A line without its newline. -/
def lineContent (line : Bytes) : Line :=
  if line.getLast? = some 10 then line.dropLast else line

def dropCR (line : Line) : Line :=
  if line.getLast? = some 13 then line.dropLast else line

/-- A line fits in the buffer of the scanner. There has to be room for the newline, also for the one
that a last line lacks: with a full buffer the scanner does not see the end of the stream. -/
def LineFits (maxBytes : Nat) (line : Bytes) : Prop := (lineContent line).length + 1 ≤ maxBytes

instance (maxBytes : Nat) (line : Bytes) : Decidable (LineFits maxBytes line) :=
  inferInstanceAs (Decidable (_ ≤ _))

/-- The text of a line, or ErrTooLong. -/
def scanLine (maxBytes : Nat) (line : Bytes) : Option Line :=
  if LineFits maxBytes line then some (dropCR (lineContent line)) else none

section Read

variable (decode : Line → Option Record) (maxBytes : Nat)

/-- The records on these lines, if every line fits and can be decoded. -/
def records : List Bytes → Option (List Record)
  | [] => some []
  | line :: rest =>
    match (scanLine maxBytes line).bind decode with
    | none => none
    | some r => (records rest).map (r :: ·)

def readRecords (input : Bytes) : Option (List Record) :=
  records decode maxBytes (lines isNewline input)

variable {maxBytes}

/-- The line of the record fits in the buffer, newline included. -/
def Record.Fits (maxBytes : Nat) (r : Record) : Prop := (encodeRecord r).length + 1 ≤ maxBytes

instance (r : Record) : Decidable (r.Fits maxBytes) := inferInstanceAs (Decidable (_ ≤ _))

theorem lineContent_newline (line : Line) : lineContent (line ++ newlineBytes) = line := by
  simp [lineContent, newlineBytes]

theorem scanLine_encodeRecord (r : Record) :
    scanLine maxBytes (encodeRecord r ++ newlineBytes) =
      if r.Fits maxBytes then some (encodeRecord r) else none := by
  have hcr : dropCR (encodeRecord r) = encodeRecord r := by
    rw [dropCR, getLast_encodeRecord, if_neg (by decide)]
  simp only [scanLine, LineFits, lineContent_newline, hcr]
  rfl

variable {decode} {rs : List Record} (hdecode : ∀ r ∈ rs, decode (encodeRecord r) = some r)
include hdecode

theorem readRecords_encodeAll (hfits : ∀ r ∈ rs, r.Fits maxBytes) :
    readRecords decode maxBytes (encodeAll rs) = some rs := by
  rw [readRecords, lines_encodeAll]
  induction rs with
  | nil => rfl
  | cons r rs ih =>
    obtain ⟨hr, hfits⟩ := List.forall_mem_cons.mp hfits
    obtain ⟨hd, hdecode⟩ := List.forall_mem_cons.mp hdecode
    rw [List.map_cons, List.map_cons, records, scanLine_encodeRecord, if_pos hr, Option.bind_some,
      hd, ih hdecode hfits]
    rfl

theorem readRecords_tooLong {r : Record} (hr : r ∈ rs) (hlong : ¬ r.Fits maxBytes) :
    readRecords decode maxBytes (encodeAll rs) = none := by
  rw [readRecords, lines_encodeAll]
  induction rs with
  | nil => cases hr
  | cons r' rs ih =>
    obtain ⟨hd, hdecode⟩ := List.forall_mem_cons.mp hdecode
    rw [List.map_cons, List.map_cons, records, scanLine_encodeRecord]
    split
    · rfl
    · next r'' hsome =>
      rcases List.mem_cons.mp hr with rfl | hr
      · rw [if_neg hlong] at hsome
        cases hsome
      · rw [ih hdecode hr]
        rfl

end Read

end KubeMapReduce
