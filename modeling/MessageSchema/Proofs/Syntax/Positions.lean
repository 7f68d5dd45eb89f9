import Mathlib.Data.List.DropRight
import Mathlib.Data.Prod.Lex
import MessageSchema.Proofs.Text.Encoding
import MessageSchema.Syntax.Lexer

namespace MessageSchema.Syntax

open List

open Text (bytesOf)

/-!
Where a place of the source lies for its reader.

An offset is a boundary if the source is in UTF-8 on both sides of it.  On
boundaries the position keeps the order of offsets, so it names a boundary without
doubt.  A source that is not in UTF-8 has its fault reported where the valid
characters end, unless one of them is the replacement mark.
-/

/-- An offset at which the source falls into two texts in UTF-8. -/
def IsBoundary (source : List UInt8) (offset : Nat) : Prop :=
  ∃ front back, source = bytesOf (front ++ back) ∧ offset = (bytesOf front).length

section
variable {value : Char} (front : List Char)

lemma rtakeWhile_append_of_forall {α : Type} {holds : α -> Bool} (left : List α) {right : List α}
    (all : ∀ value ∈ right, holds value = true) :
    (left ++ right).rtakeWhile holds = left.rtakeWhile holds ++ right := by
  rw [rtakeWhile, reverse_append, takeWhile_append_of_pos, reverse_append,
    reverse_reverse, rtakeWhile]
  intro value member
  exact all value (List.mem_reverse.mp member)

lemma ten_mem_utf8EncodeChar_iff : 10 ∈ String.utf8EncodeChar value ↔ value = '\n' := by
  have number : value = '\n' ↔ value.val.toNat = 10 := by
    rw [Char.ext_iff, ← UInt32.toNat_inj]
    rfl
  rw [number]
  simp only [String.utf8EncodeChar]
  split_ifs
  all_goals
    simp only [mem_cons, not_mem_nil, or_false, ← UInt8.toNat_inj, UInt8.toNat_ofNat',
      UInt8.reduceToNat]
    omega

lemma count_ten_bytesOf : (bytesOf front).count 10 = front.count '\n' := by
  induction front with
  | nil => rfl
  | cons value rest ih =>
    rw [Text.bytesOf_cons, count_append, ih, count_cons, Nat.add_comm]
    congr 1
    by_cases newline : value = '\n'
    · rw [newline]
      rfl
    · rw [if_neg (by simpa using newline)]
      exact List.count_eq_zero.mpr (mt ten_mem_utf8EncodeChar_iff.mp newline)

lemma lastLine_append (left : List UInt8) {right : List UInt8} (plain : 10 ∉ right) :
    lastLine (left ++ right) = lastLine left ++ right := by
  induction right using reverseRecOn with
  | nil => rw [append_nil, append_nil]
  | append_singleton right byte ih =>
    rw [mem_append, not_or, mem_singleton] at plain
    rw [← List.append_assoc, ← List.append_assoc, ← ih plain.1]
    simp only [lastLine, foldl_concat, if_neg (Ne.symm plain.2), reverse_cons]

/-- The bytes behind the last newline are those of the characters behind it. -/
lemma lastLine_bytesOf : lastLine (bytesOf front) = bytesOf (front.rtakeWhile (· ≠ '\n')) := by
  induction front using reverseRecOn with
  | nil => rfl
  | append_singleton front value ih =>
    have single : bytesOf [value] = String.utf8EncodeChar value := append_nil _
    rw [Text.bytesOf_append, single]
    by_cases newline : value = '\n'
    · rw [rtakeWhile_concat_neg _ _ _ (by simpa using newline), newline, lastLine]
      exact congrArg reverse (foldl_concat ..)
    · rw [rtakeWhile_concat_pos _ _ _ (by simpa using newline), Text.bytesOf_append, ← ih,
        single]
      exact lastLine_append _ (mt ten_mem_utf8EncodeChar_iff.mp newline)

/-- The position behind the characters `front`, whatever characters follow. -/
lemma Position.ofOffset_bytesOf (back : List Char) :
    Position.ofOffset (bytesOf (front ++ back)) (bytesOf front).length =
      ⟨front.count '\n' + 1, (front.rtakeWhile (· ≠ '\n')).length + 1⟩ := by
  have isFront : (bytesOf (front ++ back)).take (bytesOf front).length = bytesOf front := by
    rw [Text.bytesOf_append, take_left]
  simp only [Position.ofOffset, isFront, count_ten_bytesOf, lastLine_bytesOf, Text.decode_bytesOf,
    length_map]

end

/-- Positions in the order in which a reader meets them. -/
def Position.place (position : Position) : Nat ×ₗ Nat :=
  toLex (position.line, position.column)

/-- Further characters move the position on. -/
lemma Position.place_lt_append (front back rest : List Char) {more : List Char} (some : more ≠ []) :
    (Position.ofOffset (bytesOf (front ++ back)) (bytesOf front).length).place <
      (Position.ofOffset (bytesOf (front ++ more ++ rest))
        (bytesOf (front ++ more)).length).place :=
    by
  rw [ofOffset_bytesOf, ofOffset_bytesOf, count_append]
  apply Prod.Lex.toLex_lt_toLex.mpr
  by_cases newline : '\n' ∈ more
  · left
    have positive := List.count_pos_iff.mpr newline
    dsimp only
    omega
  · right
    have line : (front ++ more).rtakeWhile (· ≠ '\n') = front.rtakeWhile (· ≠ '\n') ++ more := by
      apply rtakeWhile_append_of_forall
      intro value member
      have other : value ≠ '\n' := ne_of_mem_of_not_mem member newline
      simpa using other
    have positive := List.length_pos_iff.mpr some
    rw [List.count_eq_zero.mpr newline, line, length_append]
    exact ⟨rfl, by dsimp only; omega⟩

variable {source : List UInt8}

lemma IsBoundary.place_lt {offset later : Nat} (boundary : IsBoundary source offset)
    (other : IsBoundary source later) (less : offset < later) :
    (Position.ofOffset source offset).place < (Position.ofOffset source later).place := by
  rcases boundary with ⟨front, back, isSource, isOffset⟩
  rcases other with ⟨front', back', isSource', isLater⟩
  have same : front ++ back = front' ++ back' := by
    apply List.map_injective_iff.mpr (fun _ _ => Text.Glyph.char.inj)
    rw [← Text.decode_bytesOf, ← Text.decode_bytesOf, ← isSource, ← isSource']
  rcases prefix_or_prefix_of_prefix ⟨back, same⟩ (prefix_append front' back') with
    ⟨more, isFront'⟩ | ⟨more, isFront⟩
  · have some : more ≠ [] := by
      intro none
      rw [none, append_nil] at isFront'
      rw [isOffset, isLater, isFront'] at less
      exact Nat.lt_irrefl _ less
    rw [isOffset, isLater]
    nth_rewrite 1 [isSource]
    rw [isSource', ← isFront']
    exact Position.place_lt_append front back back' some
  · rw [isOffset, isLater, ← isFront, Text.bytesOf_append, length_append] at less
    omega

/-- A position is a coordinate of the source: line and column count newlines
and characters, the positions of boundaries have the order of the boundaries, so
that no two share one, and all offsets past the end have the position of the end. -/
theorem position_orders_boundaries (chars : List Char) :
    (∀ front back, chars = front ++ back ->
      Position.ofOffset (bytesOf chars) (bytesOf front).length =
        ⟨front.count '\n' + 1, (front.rtakeWhile (· ≠ '\n')).length + 1⟩) ∧
    StrictMonoOn (fun offset => (Position.ofOffset (bytesOf chars) offset).place)
      {offset | IsBoundary (bytesOf chars) offset} ∧
    Set.InjOn (Position.ofOffset (bytesOf chars)) {offset | IsBoundary (bytesOf chars) offset} ∧
    ∀ offset, (bytesOf chars).length <= offset ->
      Position.ofOffset (bytesOf chars) offset =
        Position.ofOffset (bytesOf chars) (bytesOf chars).length := by
  have ordered : StrictMonoOn (fun offset => (Position.ofOffset (bytesOf chars) offset).place)
      {offset | IsBoundary (bytesOf chars) offset} :=
    fun _ boundary _ other => boundary.place_lt other
  refine ⟨?_, ordered, ?_, ?_⟩
  · intro front back isChars
    rw [isChars]
    exact Position.ofOffset_bytesOf front back
  · intro offset boundary later other same
    exact ordered.injOn boundary other (congrArg Position.place same)
  · intro offset beyond
    simp only [Position.ofOffset, take_of_length_le beyond, take_length]

/-- The characters at the start of a text, up to its first stray byte. -/
def leadingChars : List Text.Glyph -> List Char
  | .char value :: rest => value :: leadingChars rest
  | _ => []

/-- The bytes begin with the characters `valid`, and with no longer sequence of
characters. -/
def LongestValid (source : List UInt8) (valid : List Char) : Prop :=
  bytesOf valid <+: source ∧ ∀ chars, bytesOf chars <+: source -> chars <+: valid

lemma isPrefix_leadingChars (chars : List Char) (rest : List Text.Glyph) :
    chars <+: leadingChars (chars.map .char ++ rest) := by
  induction chars with
  | nil => exact nil_prefix
  | cons value further ih => exact (prefix_cons_inj value).mpr ih

lemma map_leadingChars_isPrefix (glyphs : List Text.Glyph) :
    (leadingChars glyphs).map .char <+: glyphs := by
  fun_induction leadingChars glyphs with
  | case1 value rest ih => exact (prefix_cons_inj _).mpr ih
  | case2 => exact nil_prefix

lemma longestValid_leadingChars (source : List UInt8) :
    LongestValid source (leadingChars (Text.decode source)) := by
  constructor
  · rcases map_leadingChars_isPrefix (Text.decode source) with ⟨rest, isGlyphs⟩
    have back := Text.encode_decode source
    rw [← isGlyphs, Text.encode, flatMap_append, flatMap_map] at back
    exact ⟨_, back⟩
  · intro chars leads
    rcases leads with ⟨more, isSource⟩
    rw [← isSource, Text.decode_append]
    exact isPrefix_leadingChars chars _

/-- The reported offset counts the characters up to the first stray byte or the
first replacement mark, whichever comes first. -/
lemma invalidOffset_eq (glyphs : List Text.Glyph) : invalidOffset glyphs =
      (bytesOf ((leadingChars glyphs).takeWhile (· ≠ Text.Glyph.replacement))).length := by
  rw [Text.length_bytesOf, invalidOffset]
  fun_induction leadingChars glyphs with
  | case1 value rest ih =>
    by_cases mark : value = Text.Glyph.replacement
    · rw [takeWhile_cons_of_neg (by simpa using mark),
        takeWhile_cons_of_neg (by simpa using mark)]
      rfl
    · rw [takeWhile_cons_of_pos (by simpa using mark),
        takeWhile_cons_of_pos (by simpa using mark), map_cons, foldr_cons, ih]
      rfl
  | case2 glyphs stray =>
    cases glyphs with
    | nil => rfl
    | cons glyph rest =>
      cases glyph with
      | char value => exact absurd rfl (stray value rest)
      | stray byte => rfl

lemma length_bytesOf_takeWhile_eq_iff (valid : List Char) (mark : Char) :
    (bytesOf (valid.takeWhile (· ≠ mark))).length = (bytesOf valid).length ↔ mark ∉ valid := by
  induction valid with
  | nil => simp
  | cons value rest ih =>
    by_cases isMark : value = mark
    · rw [takeWhile_cons_of_neg (by simpa using isMark), Text.bytesOf_cons, isMark]
      have positive := mark.utf8Size_pos
      rw [length_append, String.length_utf8EncodeChar]
      simp only [mem_cons_self, not_true_eq_false, iff_false]
      change 0 ≠ _
      omega
    · rw [takeWhile_cons_of_pos (by simpa using isMark), Text.bytesOf_cons, Text.bytesOf_cons,
        length_append, length_append, Nat.add_left_cancel_iff, ih, mem_cons]
      simp [Ne.symm isMark]

/-- A source that is not in UTF-8 is refused for that.  The reported offset is
the one where the valid characters end exactly if the replacement mark is not
among them; otherwise it is the offset of the first such mark. -/
theorem invalid_source_is_located (size : source.length <= maxSourceSize)
    (invalid : ∀ chars, source ≠ bytesOf chars) :
    ∃ valid start, LongestValid source valid ∧
      tokenize source = .error ⟨.invalidUtf8, ⟨start, 1⟩⟩ ∧ Fault.invalidUtf8.code = 1001 ∧
      start = (bytesOf (valid.takeWhile (· ≠ Text.Glyph.replacement))).length ∧
      (start = (bytesOf valid).length ↔ Text.Glyph.replacement ∉ valid) := by
  have unread : Text.chars? (Text.decode source) = none := by
    apply Option.eq_none_iff_forall_ne_some.mpr
    intro chars some
    exact invalid chars (Text.chars?_decode_eq_some_iff.mp some)
  have fits : sizeError? source.length = none := if_neg (Nat.not_lt.mpr size)
  refine ⟨_, invalidOffset (Text.decode source), longestValid_leadingChars source, ?_, rfl,
    invalidOffset_eq _, ?_⟩
  · simp only [tokenize, sourceChars, fits, unread]
  · rw [invalidOffset_eq]
    exact length_bytesOf_takeWhile_eq_iff _ _

theorem stray_byte_is_located :
    ∃ valid start, LongestValid [0x6F, 0x6B, 0xFF, 0x62] valid ∧
      tokenize [0x6F, 0x6B, 0xFF, 0x62] = .error ⟨.invalidUtf8, ⟨start, 1⟩⟩ ∧
      Fault.invalidUtf8.code = 1001 ∧
      start = (bytesOf (valid.takeWhile (· ≠ Text.Glyph.replacement))).length ∧
      (start = (bytesOf valid).length ↔ Text.Glyph.replacement ∉ valid) := by
  apply invalid_source_is_located (by decide)
  intro chars isSource
  have read := Text.chars?_decode_eq_some_iff.mpr isSource
  have unread : Text.chars? (Text.decode [0x6F, 0x6B, 0xFF, 0x62]) = none := by decide +kernel
  rw [unread] at read
  cases read

/-- The letter `a` and the replacement mark are valid, but the stray byte behind
them is reported at the mark. -/
theorem mark_is_taken_for_fault :
    ∃ valid, LongestValid [0x61, 0xEF, 0xBF, 0xBD, 0xFF] valid ∧ (bytesOf valid).length = 4 ∧
      tokenize [0x61, 0xEF, 0xBF, 0xBD, 0xFF] = .error ⟨.invalidUtf8, ⟨1, 1⟩⟩ :=
  ⟨_, longestValid_leadingChars _, by decide +kernel, by decide +kernel⟩

end MessageSchema.Syntax
