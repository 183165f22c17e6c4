import Mathlib.Computability.RegularExpressions
import KubeMapReduce.Lib.Paths
import KubeMapReduce.Shuffle

/-!
# The keys of uploads

A caller gets a URL for an upload only for a key of the form temp/<userID>/<filename>. A key and a
user ID are strings of any bytes, so a user ID may have separators and dots of its own.

* `safeFilename_iff`: the words of the pattern, piece by piece.
* `uploadKey_iff`: which keys are accepted; the filename has no separator and no two dots in a row,
  and no key is accepted for two users.
-/

namespace KubeMapReduce

open Exits

variable {f w : Bytes}

/-! ## 1. The pattern -/

/-- The byte of an ASCII character. -/
def byte (c : Char) : UInt8 := UInt8.ofNat c.toNat

def ascii (text : String) : Bytes := text.toList.map byte

/-- [a-zA-Z0-9] -/
def alphanumerics : Bytes :=
  ascii "abcdefghijklmnopqrstuvwxyzABCDEFGHIJKLMNOPQRSTUVWXYZ0123456789"

/-- [a-zA-Z0-9_\-] -/
def wordBytes : Bytes := alphanumerics ++ ascii "_-"

/-- A class of bytes. -/
def byteClass (bytes : Bytes) : RegularExpression UInt8 :=
  bytes.foldr (fun b r => RegularExpression.char b + r) 0

/-- `^[a-zA-Z0-9](?:[a-zA-Z0-9_\-]|(?:\.[a-zA-Z0-9_\-]))*[a-zA-Z0-9]?$|^[a-zA-Z0-9]$` -/
def safeFilenamePattern : RegularExpression UInt8 :=
  byteClass alphanumerics *
      (RegularExpression.star
          (byteClass wordBytes + RegularExpression.char (byte '.') * byteClass wordBytes) *
        (1 + byteClass alphanumerics)) +
    byteClass alphanumerics

theorem mem_byteClass {bytes : Bytes} : w ∈ (byteClass bytes).matches' ↔ ∃ b ∈ bytes, w = [b] := by
  induction bytes with
  | nil => simp [byteClass]
  | cons b bytes ih =>
    have hcons : byteClass (b :: bytes) = RegularExpression.char b + byteClass bytes := rfl
    rw [hcons, RegularExpression.matches'_add, Language.mem_add, ih,
      RegularExpression.matches'_char, List.exists_mem_cons_iff]
    rfl

/-- A piece of a filename after its first byte. -/
inductive Piece : Bytes → Prop
  | plain {b : UInt8} : b ∈ wordBytes → Piece [b]
  | dotted {b : UInt8} : b ∈ wordBytes → Piece [byte '.', b]

theorem mem_piece :
    w ∈ (byteClass wordBytes + RegularExpression.char (byte '.') * byteClass wordBytes).matches' ↔
      Piece w := by
  rw [RegularExpression.matches'_add, Language.mem_add, mem_byteClass,
    RegularExpression.matches'_mul, RegularExpression.matches'_char, Language.mem_mul]
  constructor
  · rintro (⟨b, hb, rfl⟩ | ⟨_, rfl, w, hw, rfl⟩)
    · exact .plain hb
    · obtain ⟨b, hb, rfl⟩ := mem_byteClass.mp hw
      exact .dotted hb
  · rintro (hb | hb)
    · exact .inl ⟨_, hb, rfl⟩
    · exact .inr ⟨_, rfl, _, mem_byteClass.mpr ⟨_, hb, rfl⟩, rfl⟩

/-- The words of the pattern: a letter or a digit, and pieces. -/
theorem safeFilename_iff :
    f ∈ safeFilenamePattern.matches' ↔
      ∃ a ∈ alphanumerics, ∃ pieces : List Bytes, (∀ p ∈ pieces, Piece p) ∧
        f = a :: pieces.flatten := by
  rw [safeFilenamePattern, RegularExpression.matches'_add, Language.mem_add,
    RegularExpression.matches'_mul, Language.mem_mul, mem_byteClass]
  constructor
  · rintro (⟨_, hfirst, w, hw, rfl⟩ | ⟨a, ha, rfl⟩)
    · obtain ⟨a, ha, rfl⟩ := mem_byteClass.mp hfirst
      rw [RegularExpression.matches'_mul, RegularExpression.matches'_star, Language.mem_mul] at hw
      obtain ⟨_, hstar, t, ht, rfl⟩ := hw
      obtain ⟨pieces, rfl, hpieces⟩ := Language.mem_kstar.mp hstar
      have hall : ∀ p ∈ pieces, Piece p := fun p hp => mem_piece.mp (hpieces p hp)
      rw [RegularExpression.matches'_add, Language.mem_add, mem_byteClass] at ht
      rcases ht with ht | ⟨b, hb, rfl⟩
      · have ht : t = [] := ht
        exact ⟨a, ha, pieces, hall, by rw [ht, List.append_nil]; rfl⟩
      · -- the last byte is a piece as well
        refine ⟨a, ha, pieces ++ [[b]], fun p hp => ?_, by
          rw [List.flatten_append, List.flatten_singleton]; rfl⟩
        rcases List.mem_append.mp hp with hp | hp
        · exact hall p hp
        · rw [List.mem_singleton.mp hp]
          exact .plain (List.mem_append_left _ hb)
    · exact ⟨a, ha, [], by rintro _ ⟨⟩, rfl⟩
  · rintro ⟨a, ha, pieces, hpieces, rfl⟩
    refine .inl ⟨[a], mem_byteClass.mpr ⟨a, ha, rfl⟩, pieces.flatten, ?_, rfl⟩
    rw [RegularExpression.matches'_mul, RegularExpression.matches'_star, Language.mem_mul]
    refine ⟨pieces.flatten, ?_, [], ?_, List.append_nil _⟩
    · exact Language.mem_kstar.mpr ⟨pieces, rfl, fun p hp => mem_piece.mpr (hpieces p hp)⟩
    · rw [RegularExpression.matches'_add, Language.mem_add]
      exact .inl rfl

/-! ## 2. What a filename cannot have -/

theorem Piece.bytes {p : Bytes} (h : Piece p) : ∀ b ∈ p, b ∈ byte '.' :: wordBytes := by
  intro b hb
  cases h with
  | plain hw =>
    rw [List.mem_singleton.mp hb]
    exact List.mem_cons_of_mem _ hw
  | dotted hw =>
    rcases List.mem_cons.mp hb with rfl | hb
    · exact List.mem_cons_self
    · rw [List.mem_singleton.mp hb]
      exact List.mem_cons_of_mem _ hw

theorem safeFilename_bytes (h : f ∈ safeFilenamePattern.matches') :
    ∀ b ∈ f, b ∈ byte '.' :: wordBytes := by
  obtain ⟨a, ha, pieces, hpieces, rfl⟩ := safeFilename_iff.mp h
  intro b hb
  rcases List.mem_cons.mp hb with rfl | hb
  · exact List.mem_cons_of_mem _ (List.mem_append_left _ ha)
  · obtain ⟨p, hp, hb⟩ := List.mem_flatten.mp hb
    exact (hpieces p hp).bytes b hb

theorem dot_notMem_wordBytes : byte '.' ∉ wordBytes := by decide

theorem no_dots_cons {b : UInt8} (hb : b ∈ wordBytes) (h : ¬ [byte '.', byte '.'] <:+: w) :
    ¬ [byte '.', byte '.'] <:+: b :: w := by
  intro hdots
  rcases List.infix_cons_iff.mp hdots with hpre | hdots
  · obtain ⟨rfl, _⟩ := List.cons_prefix_cons.mp hpre
    exact dot_notMem_wordBytes hb
  · exact h hdots

/-- Every dot is followed by something else. -/
theorem pieces_no_dots {pieces : List Bytes} (h : ∀ p ∈ pieces, Piece p) :
    ¬ [byte '.', byte '.'] <:+: pieces.flatten := by
  induction pieces with
  | nil => simp
  | cons p pieces ih =>
    obtain ⟨hp, hrest⟩ := List.forall_mem_cons.mp h
    have hnone := ih hrest
    cases hp with
    | plain hb => exact no_dots_cons hb hnone
    | @dotted b hb =>
      intro hdots
      rcases List.infix_cons_iff.mp hdots with hpre | hdots
      · obtain ⟨_, hpre⟩ := List.cons_prefix_cons.mp hpre
        obtain ⟨rfl, _⟩ := List.cons_prefix_cons.mp hpre
        exact dot_notMem_wordBytes hb
      · exact no_dots_cons hb hnone hdots

theorem safeFilename_no_dots (h : f ∈ safeFilenamePattern.matches') :
    ¬ [byte '.', byte '.'] <:+: f := by
  obtain ⟨a, ha, pieces, hpieces, rfl⟩ := safeFilename_iff.mp h
  exact no_dots_cons (List.mem_append_left _ ha) (pieces_no_dots hpieces)

theorem safeFilename_notMem (h : f ∈ safeFilenamePattern.matches') :
    byte '/' ∉ f ∧ byte '\x5c' ∉ f :=
  ⟨fun hb => absurd (safeFilename_bytes h _ hb) (by decide),
    fun hb => absurd (safeFilename_bytes h _ hb) (by decide)⟩

/-! ## 3. The check -/

/-- path.Clean -/
def pathClean (path : Bytes) : Bytes :=
  let elements := Paths.clean (fun e => decide (e = [] ∨ e = ascii "."))
    (fun e => decide (e = ascii "..")) (path.splitOn (byte '/'))
  if path = [] then ascii "."
  else if path.head? = some (byte '/') then
    byte '/' :: [byte '/'].intercalate (elements.dropWhile fun e => decide (e = ascii ".."))
  else if elements = [] then ascii "."
  else [byte '/'].intercalate elements

/-- strings.ContainsAny, for ASCII characters. -/
def containsAny (text chars : Bytes) : Bool := text.any fun b => chars.contains b

/-- temp/<userID>/ -/
def uploadScope (userID : Bytes) : Bytes := ascii "temp/" ++ userID ++ ascii "/"

/-- `quote` is the verb %q. -/
def validateUploadKey (quote : Bytes → String) (key userID : Bytes) : Except String Unit :=
  let expected := uploadScope userID
  if key = [] then .error "key is required" else
  if 512 < key.length then .error "key too long" else
  if containsAny key (ascii "\x00\r\n") then .error "key contains invalid characters" else
  if !expected.isPrefixOf key then .error ("key must start with " ++ quote expected) else
  let filename := key.drop expected.length
  if filename = [] then .error "key must include a filename" else
  if containsAny filename (ascii "/\\") then
    .error "key filename must not contain path separators" else
  if !safeFilenamePattern.rmatch filename then
    .error "key filename contains invalid characters or pattern" else
  if !expected.isPrefixOf (pathClean key) || pathClean key ≠ key then
    .error "key contains path traversal" else
  .ok ()

/-- The conditions on a key and its filename. -/
structure UploadKey (key userID f : Bytes) : Prop where
  scope : key = uploadScope userID ++ f
  safe : f ∈ safeFilenamePattern.matches'
  length : key.length ≤ 512
  control : ∀ b ∈ ascii "\x00\r\n", b ∉ key
  clean : pathClean key = key

theorem containsAny_eq_false {text chars : Bytes} :
    containsAny text chars = false ↔ ∀ b ∈ chars, b ∉ text := by
  simp only [containsAny, List.any_eq_false, List.contains_iff_mem]
  exact ⟨fun h b hb hm => h b hm hb, fun h b hm hb => h b hb hm⟩

theorem validateUploadKey_ok {quote : Bytes → String} {key userID : Bytes}
    (h : validateUploadKey quote key userID = .ok ()) : ∃ f, UploadKey key userID f := by
  unfold validateUploadKey at h
  obtain ⟨_, h⟩ := ok_of_guard h
  obtain ⟨hlen, h⟩ := ok_of_guard h
  obtain ⟨hcontrol, h⟩ := ok_of_guard h
  obtain ⟨hscope, h⟩ := ok_of_guard h
  obtain ⟨_, h⟩ := ok_of_guard h
  obtain ⟨_, h⟩ := ok_of_guard h
  obtain ⟨hsafe, h⟩ := ok_of_guard h
  obtain ⟨hclean, _⟩ := ok_of_guard h
  simp only [Bool.not_eq_true, Bool.not_eq_false', Bool.or_eq_false_iff, decide_eq_false_iff_not,
    not_not, List.isPrefixOf_iff_prefix] at hcontrol hscope hsafe hclean
  obtain ⟨f, rfl⟩ := hscope
  rw [List.drop_left] at hsafe
  exact ⟨f, rfl, (RegularExpression.rmatch_iff_matches' _ _).mp hsafe, not_lt.mp hlen,
    containsAny_eq_false.mp hcontrol, hclean.2⟩

theorem safeFilename_ne_nil (h : f ∈ safeFilenamePattern.matches') : f ≠ [] := by
  obtain ⟨a, _, pieces, _, rfl⟩ := safeFilename_iff.mp h
  exact List.cons_ne_nil a _

theorem UploadKey.accepted {key userID : Bytes} (h : UploadKey key userID f)
    (quote : Bytes → String) : validateUploadKey quote key userID = .ok () := by
  obtain ⟨rfl, hsafe, hlen, hcontrol, hclean⟩ := h
  have hne := safeFilename_ne_nil hsafe
  have hsep : containsAny f (ascii "/\\") = false := by
    refine containsAny_eq_false.mpr fun b hb => ?_
    obtain ⟨hslash, hback⟩ := safeFilename_notMem hsafe
    have hchars : ascii "/\\" = [byte '/', byte '\x5c'] := rfl
    rw [hchars] at hb
    rcases List.mem_cons.mp hb with rfl | hb
    · exact hslash
    · exact List.mem_singleton.mp hb ▸ hback
  have hmatch := (RegularExpression.rmatch_iff_matches' _ _).mpr hsafe
  have hscope : (uploadScope userID).isPrefixOf (uploadScope userID ++ f) = true :=
    List.isPrefixOf_iff_prefix.mpr (List.prefix_append ..)
  unfold validateUploadKey
  dsimp only
  rw [hclean, List.drop_left, if_neg (by simp [hne]), if_neg (not_lt.mpr hlen),
    if_neg (by simp [containsAny_eq_false.mpr hcontrol]), if_neg (by simp [hscope]),
    if_neg hne, if_neg (by simp [hsep]), if_neg (by simp [hmatch]), if_neg (by simp [hscope])]

/-- A text that goes on with a separator where another one begins has a separator. -/
theorem eq_nil_of_separator {l f' : Bytes} (hf : byte '/' ∉ f)
    (h : byte '/' :: f = l ++ byte '/' :: f') : l = [] := by
  cases l with
  | nil => rfl
  | cons b l =>
    obtain ⟨_, rfl⟩ := List.cons_eq_cons.mp h
    exact absurd (List.mem_append_right l List.mem_cons_self) hf

/-- The last separator of a key ends its scope. -/
theorem uploadScope_inj {u u' f' : Bytes} (hf : byte '/' ∉ f) (hf' : byte '/' ∉ f')
    (h : uploadScope u ++ f = uploadScope u' ++ f') : u = u' := by
  have hscope : ∀ u f : Bytes, uploadScope u ++ f = ascii "temp/" ++ (u ++ byte '/' :: f) := by
    intro u f
    rw [uploadScope, List.append_assoc, List.append_assoc]
    rfl
  rw [hscope, hscope, List.append_cancel_left_eq] at h
  rcases List.append_eq_append_iff.mp h with ⟨l, rfl, hl⟩ | ⟨l, rfl, hl⟩
  · rw [eq_nil_of_separator hf hl, List.append_nil]
  · rw [eq_nil_of_separator hf' hl, List.append_nil]

/-- A key is accepted exactly if it is the scope of the user with a filename of the pattern, has at
most 512 bytes and no NUL, CR or LF, and is clean. The filename of an accepted key has no separator
and no two dots in a row, and no key is accepted for two users. -/
theorem uploadKey_iff (quote : Bytes → String) (key userID : Bytes) :
    (validateUploadKey quote key userID = .ok () ↔
      ∃ f, key = ascii "temp/" ++ userID ++ ascii "/" ++ f ∧ f ∈ safeFilenamePattern.matches' ∧
        key.length ≤ 512 ∧ (∀ b ∈ ascii "\x00\r\n", b ∉ key) ∧ pathClean key = key) ∧
    (∀ f, validateUploadKey quote (ascii "temp/" ++ userID ++ ascii "/" ++ f) userID = .ok () →
      byte '/' ∉ f ∧ byte '\x5c' ∉ f ∧ ¬ ascii ".." <:+: f) ∧
    ∀ userID', validateUploadKey quote key userID = .ok () →
      validateUploadKey quote key userID' = .ok () → userID = userID' := by
  refine ⟨⟨fun h => ?_, ?_⟩, fun f h => ?_, fun userID' h h' => ?_⟩
  · obtain ⟨f, hf⟩ := validateUploadKey_ok h
    exact ⟨f, hf.scope, hf.safe, hf.length, hf.control, hf.clean⟩
  · rintro ⟨f, hscope, hsafe, hlen, hcontrol, hclean⟩
    exact (UploadKey.mk hscope hsafe hlen hcontrol hclean).accepted quote
  · obtain ⟨f', hf'⟩ := validateUploadKey_ok h
    obtain rfl := List.append_cancel_left hf'.scope
    obtain ⟨hslash, hback⟩ := safeFilename_notMem hf'.safe
    exact ⟨hslash, hback, safeFilename_no_dots hf'.safe⟩
  · obtain ⟨f, hf⟩ := validateUploadKey_ok h
    obtain ⟨f', hf'⟩ := validateUploadKey_ok h'
    exact uploadScope_inj (safeFilename_notMem hf.safe).1 (safeFilename_notMem hf'.safe).1
      (hf.scope.symm.trans hf'.scope)

/-- A key that is accepted. -/
theorem uploadKey_iff_file :
    validateUploadKey (fun _ => "") (ascii "temp/user/a.txt") (ascii "user") = .ok () ∧
    byte '/' ∉ ascii "a.txt" := by
  have hkey : ascii "temp/user/a.txt" = ascii "temp/" ++ ascii "user" ++ ascii "/" ++
      ascii "a.txt" := by decide
  have haccepted := (uploadKey_iff (fun _ => "") (ascii "temp/user/a.txt") (ascii "user")).1.mpr
    ⟨ascii "a.txt", hkey, by
      refine safeFilename_iff.mpr
        ⟨byte 'a', by decide, [ascii ".t", ascii "x", ascii "t"], ?_, rfl⟩
      simp only [List.forall_mem_cons, List.not_mem_nil, false_implies, implies_true, and_true]
      exact ⟨.dotted (by decide), .plain (by decide), .plain (by decide)⟩,
      by decide, containsAny_eq_false.mp (by decide), by decide⟩
  exact ⟨haccepted, ((uploadKey_iff _ [] _).2.1 _ (hkey ▸ haccepted)).1⟩

end KubeMapReduce
