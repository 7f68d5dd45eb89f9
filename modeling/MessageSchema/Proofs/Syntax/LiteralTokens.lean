import MessageSchema.Proofs.Syntax.Partition

namespace MessageSchema.Syntax

/-!
Numbers of a source.

A token of a number is a word of the language of its kind, and such a word is read
as that token wherever it can end.  An integer stands for the number that its digits
write, and is the value of the literal exactly if it fits in 32 bits.
-/

variable {kind : TokenKind} {text : List Char}

lemma Cursor.isNumber_of_next {cursor after : Cursor} {token : Token}
    (read : cursor.next = (.ok token, after))
    (listed : token.kind ∈ [TokenKind.intLiteral, .hexLiteral, .floatLiteral]) :
    IsNumber token.kind token.text := by
  have content : token.kind ≠ .final := by
    intro final
    rw [final] at listed
    exact absurd listed (by decide)
  have leads := (leads_of_next read content).2.2.2
  exact (Lexeme.leads_iff.mp leads).formed.toldByKind.number listed

lemma IsNumber.next_eq {rest : List Char} (number : IsNumber kind text)
    (stops : Stops isWordChar rest) (noPoint : kind = .intLiteral -> ¬ PointsOn rest)
    (short : byteLength text <= maxTokenSize) (offset : Nat) : Cursor.next ⟨offset, text ++ rest⟩ =
      (.ok ⟨kind, text, offset, false⟩, ⟨offset + byteLength text, rest⟩) := by
  have leads : Lexeme.Leads ⟨kind, text, false⟩ rest :=
    Lexeme.leads_iff.mpr ⟨.number number, number.endsBefore_iff.mpr ⟨stops, noPoint⟩, short⟩
  rcases leads with ⟨first, further, isText, scanned⟩
  cases isText
  simp only [Cursor.next, List.cons_append, scanned, List.take_left, List.drop_left, Token.length]

lemma int32Value_eq {token : Token} (kind : token.kind = .intLiteral ∨ token.kind = .hexLiteral) :
    int32Value token =
      if -2147483648 <= intValue token ∧ intValue token <= 2147483647 then .ok (intValue token)
      else .error ⟨.intOutOfRange token, token.span⟩ := by
  split
  · next within => exact int32Value_eq_ok_iff.mpr ⟨kind, rfl, within.1, within.2⟩
  · next outside =>
    rw [int32Value, if_pos kind]
    cases read : readInt32? token with
    | none => rfl
    | some value =>
      rcases readInt32?_eq_some_iff.mp read with ⟨rfl, within⟩
      exact absurd within outside

/-- Numbers are read and valued exactly.  A token of a number has its form; a text of a
form is read as one token wherever a number can end; and an integer stands for the number
that its digits write, or is out of range. -/
theorem numbers_are_read_exactly :
    (∀ cursor token after, Cursor.next cursor = (.ok token, after) ->
      token.kind ∈ [TokenKind.intLiteral, .hexLiteral, .floatLiteral] ->
      IsNumber token.kind token.text) ∧
    (∀ kind text rest offset, IsNumber kind text -> Stops isWordChar rest ->
      (kind = .intLiteral -> ¬ PointsOn rest) -> byteLength text <= 65535 ->
      Cursor.next ⟨offset, text ++ rest⟩ =
        (.ok ⟨kind, text, offset, false⟩, ⟨offset + byteLength text, rest⟩)) ∧
    ∀ token, token.kind = .intLiteral ∨ token.kind = .hexLiteral ->
      int32Value token =
        if -2147483648 <= intValue token ∧ intValue token <= 2147483647 then .ok (intValue token)
        else .error ⟨.intOutOfRange token, token.span⟩ := by
  refine ⟨?_, ?_, ?_⟩
  · intro cursor token after read listed
    exact Cursor.isNumber_of_next read listed
  · intro kind text rest offset number stops noPoint short
    exact number.next_eq stops noPoint short offset
  · intro token kind
    exact int32Value_eq kind

/-- Both ends of the range, the numbers behind them, and a sign. -/
theorem int32_ends_are_read :
    int32Value ⟨.intLiteral, "-2147483648".toList, 0, false⟩ = .ok (-2147483648) ∧
    int32Value ⟨.hexLiteral, "0x7FFFffff".toList, 0, false⟩ = .ok 2147483647 ∧
    int32Value ⟨.hexLiteral, "-0x1f".toList, 0, false⟩ = .ok (-31) ∧
    (int32Value ⟨.hexLiteral, "-0x80000001".toList, 0, false⟩).isOk = false ∧
    (int32Value ⟨.intLiteral, "2147483648".toList, 0, false⟩).isOk = false := by
  refine ⟨?_, ?_, ?_, ?_, ?_⟩ <;>
    rw [numbers_are_read_exactly.2.2 _ (by decide)] <;> decide +kernel

open List

/-!
Texts and the literals that write them.

The scanner passes over any character behind a backslash, so it never takes an
escaped quote for the end, and what it leaves never ends within an escape.  The
decoder then finds the escapes at the same places.
-/

variable {value : List Char}

/-- A text without control characters other than tab, newline and carriage return. -/
def IsPlainText (value : List Char) : Prop :=
  ∀ char ∈ value, isControl char = true -> char ∈ ['\t', '\n', '\r']

/-- How a text is written between quotes: quotes, backslashes and line ends are escaped,
tabs may be, and all else stands for itself. -/
inductive Written : List Char -> List Char -> Prop
  | nil : Written [] []
  | raw {char : Char} {text value : List Char} (unescaped : char ∉ ['"', '\\', '\n', '\r'])
      (further : Written text value) : Written (char :: text) (char :: value)
  | escaped {mark char : Char} {text value : List Char} (listed : (mark, char) ∈ escapeTable)
      (further : Written text value) : Written ('\\' :: mark :: text) (char :: value)

lemma Written.spelled (written : Written text value) : Spelled text value := by
  induction written with
  | nil => exact .nil
  | raw unescaped _ ih =>
    refine .plain ?_ ih
    rintro rfl
    exact unescaped (by decide)
  | escaped listed _ ih => exact .escape listed ih

/-- What is written of a plain text is passed over by the scanner. -/
lemma Written.enclosed (written : Written text value) (plain : IsPlainText value) :
    Enclosed text := by
  induction written with
  | nil => exact .nil
  | @raw char _ _ unescaped _ ih =>
    rcases List.forall_mem_cons.mp plain with ⟨first, others⟩
    refine .plain ?_ (fun control => ?_) (ih others)
    · exact fun listed => unescaped (mem_append_left ['\n', '\r'] listed)
    · simp only [mem_cons, not_mem_nil, or_false, not_or] at first unescaped
      rcases first control with tab | newline | returned
      · exact tab
      · exact absurd newline unescaped.2.2.1
      · exact absurd returned unescaped.2.2.2
  | escaped _ _ ih => exact .escape (ih (List.forall_mem_cons.mp plain).2)

/-- What the scanner passes over, and the decoder accepts, is written of a plain text. -/
lemma Enclosed.written (enclosed : Enclosed text) (spelled : Spelled text value) :
    Written text value ∧ IsPlainText value := by
  induction spelled with
  | nil => exact ⟨.nil, fun _ none => absurd none not_mem_nil⟩
  | @plain char _ _ notEscape _ ih =>
    cases enclosed with
    | escape => exact absurd rfl notEscape
    | plain ordinary allowed further =>
      rcases ih further with ⟨written, plain⟩
      refine ⟨.raw ?_ written, List.forall_mem_cons.mpr ⟨fun control => ?_, plain⟩⟩
      · intro listed
        rcases List.mem_append.mp (show char ∈ ['"', '\\'] ++ ['\n', '\r'] from listed) with
          listed | listed
        · exact ordinary listed
        · have control : isControl char = true := by
            rcases List.mem_pair.mp listed with rfl | rfl <;> rfl
          rw [allowed control] at listed
          exact absurd listed (by decide)
      · rw [allowed control]
        exact mem_cons_self
  | @escape _ _ text _ listed _ ih =>
    have further : Enclosed text := by
      cases enclosed with
      | plain ordinary => exact absurd (by decide) ordinary
      | escape further => exact further
    rcases ih further with ⟨written, plain⟩
    refine ⟨.escaped listed written, List.forall_mem_cons.mpr ⟨fun control => ?_, plain⟩⟩
    exact (by decide : ∀ entry ∈ escapeTable, isControl entry.2 = true ->
      entry.2 ∈ ['\t', '\n', '\r']) _ listed control

/-- The decoder does not come to a backslash at the end. -/
lemma Enclosed.ne_append_backslash (enclosed : Enclosed text) {front : List Char}
    (decoded : Spelled front value) : text ≠ front ++ ['\\'] := by
  intro isText
  induction decoded generalizing text with
  | nil =>
    rw [isText] at enclosed
    cases enclosed with
    | plain ordinary => exact ordinary (by decide)
  | @plain _ front _ notEscape _ ih =>
    rw [isText, cons_append] at enclosed
    generalize isRow : front ++ ['\\'] = row at enclosed
    cases enclosed with
    | plain _ _ further => exact ih further isRow.symm
    | escape => exact notEscape rfl
  | escape _ _ ih =>
    rw [isText, cons_append, cons_append] at enclosed
    cases enclosed with
    | plain ordinary => exact ordinary (by decide)
    | escape further => exact ih further rfl

lemma Enclosed.leads (enclosed : Enclosed text)
    (short : byteLength ('"' :: (text ++ ['"'])) <= maxTokenSize) (rest : List Char) :
    Lexeme.Leads ⟨.textLiteral, '"' :: (text ++ ['"']), text.contains '\\'⟩ rest :=
  Lexeme.leads_iff.mpr ⟨.text enclosed, Lexeme.endsBefore_of_closed (by simp) rest, short⟩

/-- Texts and literals.  Whatever way a plain text is written, it is one literal with
this text as its value.  The value of a literal that is accepted is such a text, however it
is found; and the decoder, having decoded some of a literal, never has a lone
backslash left. -/
theorem text_literals_round_trip :
    (∀ text value, IsPlainText value -> Written text value ->
      byteLength ('"' :: (text ++ ['"'])) <= 65535 ->
      ∃ token, tokenize (Text.bytesOf ('"' :: (text ++ ['"']))) =
          .ok ⟨[token, ⟨.final, [], token.length, false⟩], none⟩ ∧
        token.kind = .textLiteral ∧ token.text = '"' :: (text ++ ['"']) ∧
        textValue? token = some value) ∧
    ∀ source scanned, tokenize source = .ok scanned ->
      ∀ token ∈ scanned.tokens, token.kind = .textLiteral ->
        (∀ literal, literalValue token = .ok literal ->
          ∃ value, literal = .text (value.map .char) ∧ IsPlainText value ∧
            Written (unquoted token.text) value) ∧
        textValue? token = unescape? (unquoted token.text) ∧
        ∀ front value, unescape? front = some value -> unquoted token.text ≠ front ++ ['\\'] := by
  constructor
  · intro text value plain written short
    have enclosed := written.enclosed plain
    refine ⟨_, (enclosed.leads short []).tokenize_text, rfl, rfl, ?_⟩
    have isInside : unquoted ('"' :: (text ++ ['"'])) = text := dropLast_concat
    refine (textValue?_eq_some_iff fun unmarked => ?_).mpr ?_
    · rw [isInside]
      simpa using unmarked
    · rw [isInside]
      exact written.spelled
  · intro source scanned tokenized token member isText
    rcases tokenize_eq_ok_iff.mp tokenized with ⟨chars, _, _, rfl⟩
    have enclosed := (quoted_scan chars token member isText).1
    have valued : ∀ value, textValue? token = some value ↔
        unescape? (unquoted token.text) = some value := fun value => by
      rw [textValue?_eq_some_iff ((lexed_scan chars).plain token member isText),
        unescape?_eq_some_iff]
    refine ⟨fun literal read => ?_, Option.ext valued, fun front value decoded => ?_⟩
    · simp only [literalValue, isText] at read
      split at read
      · next value found =>
        cases read
        rcases enclosed.written (unescape?_eq_some_iff.mp ((valued value).mp found)) with
          ⟨written, plain⟩
        exact ⟨value, rfl, plain, written⟩
      · cases read
    · exact enclosed.ne_append_backslash (unescape?_eq_some_iff.mp decoded)

end MessageSchema.Syntax
