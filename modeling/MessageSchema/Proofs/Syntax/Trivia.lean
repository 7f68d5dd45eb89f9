import MessageSchema.Proofs.Syntax.DocumentAgreement
import MessageSchema.Proofs.Syntax.Insertion
import MessageSchema.Proofs.Text.Encoding

namespace MessageSchema.Syntax

open List

/-!
Trivia never changes the meaning of a source.

Blanks, line ends and comments can be put between any two tokens of a source without
fault, but not behind a line comment.  The tokens that mean something stay the same,
and so does what the source is read as.
-/

variable {source : List UInt8} {scanned : Scan}

lemma sourceChars_eq_ok_iff {chars : List Char} : sourceChars source = .ok chars ↔
      source.length <= maxSourceSize ∧ source = Text.bytesOf chars := by
  rw [← Text.chars?_decode_eq_some_iff]
  unfold sourceChars sizeError?
  by_cases long : maxSourceSize < source.length
  · simp only [if_pos long, reduceCtorEq, false_iff, not_and]
    omega
  · simp only [if_neg long]
    cases Text.chars? (Text.decode source) with
    | none => simp
    | some found => simp [Nat.le_of_not_lt long]

lemma tokenize_eq_ok_iff : tokenize source = .ok scanned ↔
      ∃ chars, source.length <= maxSourceSize ∧ source = Text.bytesOf chars ∧
        scan chars = scanned := by
  unfold tokenize
  constructor
  · intro tokenized
    split at tokenized
    · next chars found =>
      cases tokenized
      exact ⟨chars, (sourceChars_eq_ok_iff.mp found).1, (sourceChars_eq_ok_iff.mp found).2, rfl⟩
    · cases tokenized
  · rintro ⟨chars, size, encoded, rfl⟩
    rw [sourceChars_eq_ok_iff.mpr ⟨size, encoded⟩]

/-- The source with a text put in at an offset. -/
def insertAt (offset : Nat) (text source : List UInt8) : List UInt8 :=
  source.take offset ++ (text ++ source.drop offset)

lemma insertAt_bytesOf (front text rest : List Char) :
    insertAt (byteLength front) (Text.bytesOf text) (Text.bytesOf (front ++ rest)) =
      Text.bytesOf (front ++ (text ++ rest)) := by
  have length : byteLength front = (Text.bytesOf front).length := (Text.length_bytesOf front).symm
  rw [insertAt, Text.bytesOf_append, length, take_left, drop_left, Text.bytesOf_append,
    Text.bytesOf_append]

lemma map_lexeme_significant (tokens : List Token) :
    (significant tokens).map Token.lexeme = meaningful (tokens.map Token.lexeme) := by
  rw [significant, meaningful, filter_map]
  rfl

lemma parse_of_tokenize (tokenized : tokenize source = .ok scanned)
    (complete : scanned.error = none) : parse source = parseTokens scanned.tokens := by
  unfold parse
  rw [tokenized]
  simp only [complete]

/-- The lexemes behind the tokens of a source that is scanned without fault. -/
lemma exists_cut_of_tokenize (tokenized : tokenize source = .ok scanned)
    (complete : scanned.error = none) :
    ∃ lexemes chars, source = Text.bytesOf chars ∧ Cut lexemes chars ∧
      scanned.tokens = placeFrom 0 lexemes := by
  rcases tokenize_eq_ok_iff.mp tokenized with ⟨chars, _, encoded, isScan⟩
  rw [← isScan] at complete
  rcases exists_cut_of_scan complete with ⟨lexemes, cut⟩
  exact ⟨lexemes, chars, encoded, cut, by rw [← isScan, scan_of_cut cut]⟩

/-- A token starts at the offset, and there is no line comment in front of it. -/
def Scan.OpenAt (scanned : Scan) (offset : Nat) : Prop :=
  ∃ before token after, scanned.tokens = before ++ token :: after ∧ token.start = offset ∧
    ∀ last, before.getLast? = some last -> last.lexeme.isLineComment = false

/-- The text consists of trivia and does not end with a line comment. -/
def IsTriviaText (text : List UInt8) : Prop :=
  ∃ gap, tokenize text = .ok gap ∧ gap.error = none ∧
    (∀ token ∈ gap.tokens.dropLast, token.kind.isTrivia = true) ∧
    ∀ last, gap.tokens.dropLast.getLast? = some last -> last.lexeme.isLineComment = false

lemma Scan.OpenAt.split {offset : Nat} (isOpen : scanned.OpenAt offset) {lexemes : List Lexeme}
    (placed : scanned.tokens = placeFrom 0 lexemes) :
    ∃ front back, lexemes = front ++ back ∧ offset = byteLength (textOf front) ∧
      ∀ last, front.getLast? = some last -> last.isLineComment = false := by
  rcases isOpen with ⟨before, token, after, boundary, isStart, closed⟩
  rw [placed] at boundary
  rcases exists_split_of_placeFrom boundary with ⟨front, back, isSplit, isFront, start⟩
  refine ⟨front, back, isSplit, by rw [← isStart, start, Nat.zero_add], ?_⟩
  intro last isLast
  rw [← isFront, getLast?_map] at isLast
  rcases Option.map_eq_some_iff.mp isLast with ⟨lastToken, isLastToken, isLexeme⟩
  rw [← isLexeme]
  exact closed lastToken isLastToken

lemma IsTriviaText.exists_cut {text : List UInt8} (isTrivia : IsTriviaText text) :
    ∃ gap chars, text = Text.bytesOf chars ∧ Cut gap chars ∧
      (∀ lexeme ∈ gap, lexeme.kind.isTrivia = true) ∧
      ∀ last, gap.getLast? = some last -> last.isLineComment = false := by
  rcases isTrivia with ⟨scanned, tokenized, complete, trivia, closed⟩
  rcases exists_cut_of_tokenize tokenized complete with ⟨gap, chars, encoded, cut, placed⟩
  have lexemes : scanned.tokens.dropLast.map Token.lexeme = gap := by
    rw [placed, map_dropLast, map_lexeme_placeFrom, dropLast_concat]
  refine ⟨gap, chars, encoded, cut, ?_, ?_⟩
  · intro lexeme member
    rw [← lexemes] at member
    rcases List.mem_map.mp member with ⟨token, within, isLexeme⟩
    rw [← isLexeme]
    exact trivia token within
  · intro last isLast
    rw [← lexemes, getLast?_map] at isLast
    rcases Option.map_eq_some_iff.mp isLast with ⟨lastToken, isLastToken, isLexeme⟩
    rw [← isLexeme]
    exact closed lastToken isLastToken

lemma parse_of_significant {other : List UInt8} {rescanned : Scan}
    (tokenized : tokenize source = .ok scanned) (complete : scanned.error = none)
    (retokenized : tokenize other = .ok rescanned) (recomplete : rescanned.error = none)
    (same : (significant rescanned.tokens).map Token.lexeme =
      (significant scanned.tokens).map Token.lexeme) :
    (∃ document, parse source = .ok document ∧ parse other = .ok document) ∨
      ∃ error found, parse source = .error error ∧ parse other = .error found ∧
        error.fault.code = found.fault.code ∧ error.fault.message = found.fault.message := by
  rw [parse_of_tokenize tokenized complete, parse_of_tokenize retokenized recomplete]
  rcases tokenize_eq_ok_iff.mp tokenized with ⟨chars, _, _, isScan⟩
  have worded : Worded scanned.tokens := isScan ▸ worded_scan chars
  refine (agrees_parseTokens worded same.symm).elim ?_ fun error found accords => ?_
  · rintro document _ rfl
    exact .inl ⟨document, rfl, rfl⟩
  · exact .inr ⟨error, found, rfl, rfl, accords.fault.code, accords.fault.message⟩

/-- Trivia put into a source at the start of a token leaves the tokens that
mean something as they are, provided that no line comment runs on and no token
gets too long.  So the source is read as the same document, or it is refused
with an error of the same number and message. -/
theorem inserted_trivia_keeps_meaning {source text : List UInt8} {scanned : Scan} {offset : Nat}
    (tokenized : tokenize source = .ok scanned) (complete : scanned.error = none)
    (isOpen : scanned.OpenAt offset) (isTrivia : IsTriviaText text)
    (size : source.length + text.length <= maxSourceSize)
    (short : ∀ rescanned error tooLong, tokenize (insertAt offset text source) = .ok rescanned ->
      rescanned.error = some error -> error.fault ≠ .tokenTooLong tooLong) :
    ∃ rescanned, tokenize (insertAt offset text source) = .ok rescanned ∧
      rescanned.error = none ∧
      (significant rescanned.tokens).map Token.lexeme =
        (significant scanned.tokens).map Token.lexeme ∧
      ((∃ document, parse source = .ok document ∧
          parse (insertAt offset text source) = .ok document) ∨
        ∃ error other, parse source = .error error ∧
          parse (insertAt offset text source) = .error other ∧
          error.fault.code = other.fault.code ∧ error.fault.message = other.fault.message) := by
  rcases exists_cut_of_tokenize tokenized complete with ⟨lexemes, chars, encoded, cut, placed⟩
  rcases isOpen.split placed with ⟨front, back, isSplit, isOffset, closed⟩
  rcases isTrivia.exists_cut with ⟨gap, gapChars, encodedText, cutGap, trivia, closedText⟩
  rw [isSplit] at cut placed
  rcases cut.split with ⟨rest, isChars, cutBack⟩
  rw [isChars] at cut encoded
  have inserted : insertAt offset text source =
      Text.bytesOf (textOf front ++ (gapChars ++ rest)) := by
    rw [encoded, encodedText, isOffset, insertAt_bytesOf]
  have fits : (insertAt offset text source).length <= maxSourceSize := by
    have parted := congrArg List.length (take_append_drop offset source)
    simp only [insertAt, length_append] at parted ⊢
    omega
  have retokenized : tokenize (insertAt offset text source) =
      .ok (scan (textOf front ++ (gapChars ++ rest))) :=
    tokenize_eq_ok_iff.mpr ⟨_, fits, inserted, rfl⟩
  have noLong : NoLong (textOf front ++ (gapChars ++ rest)) := by
    intro tooLong fault
    rcases Option.map_eq_some_iff.mp fault with ⟨error, isError, isFault⟩
    exact short _ error tooLong retokenized isError isFault
  rcases cut.insert cutBack closed cutGap trivia closedText noLong with ⟨joined, cutJoined, same⟩
  have significantSame :
      (significant (scan (textOf front ++ (gapChars ++ rest))).tokens).map Token.lexeme =
        (significant scanned.tokens).map Token.lexeme := by
    rw [map_lexeme_significant, map_lexeme_significant, scan_of_cut cutJoined, placed,
      map_lexeme_placeFrom, map_lexeme_placeFrom, meaningful_append, same, ← meaningful_append]
  have recomplete : (scan (textOf front ++ (gapChars ++ rest))).error = none := by
    rw [scan_of_cut cutJoined]
  exact ⟨_, retokenized, recomplete, significantSame,
    parse_of_significant tokenized complete retokenized recomplete significantSame⟩

/-- Blanks, a comment and a line end between the blank and the point of a
dotted type, where blanks join on the left. -/
theorem trivia_within_dotted_type :
    (scan "message m\x7bx . y z=1;\x7d".toList).OpenAt 12 ∧
      IsTriviaText (Text.bytesOf " /*1*/\n ".toList) ∧
      ∃ rescanned,
        tokenize (insertAt 12 (Text.bytesOf " /*1*/\n ".toList)
          (Text.bytesOf "message m\x7bx . y z=1;\x7d".toList)) = .ok rescanned ∧
        rescanned.error = none ∧
        (significant rescanned.tokens).map Token.lexeme =
          (significant (scan "message m\x7bx . y z=1;\x7d".toList).tokens).map Token.lexeme := by
  have tokenized : ∀ chars : List Char, (Text.bytesOf chars).length <= maxSourceSize ->
      tokenize (Text.bytesOf chars) = .ok (scan chars) := fun chars size =>
    tokenize_eq_ok_iff.mpr ⟨chars, size, rfl, rfl⟩
  have isOpen : (scan "message m\x7bx . y z=1;\x7d".toList).OpenAt 12 :=
    ⟨(scan "message m\x7bx . y z=1;\x7d".toList).tokens.take 6, ⟨.dot, ['.'], 12, false⟩,
      (scan "message m\x7bx . y z=1;\x7d".toList).tokens.drop 7, by decide +kernel, rfl,
      by decide +kernel⟩
  have isTrivia : IsTriviaText (Text.bytesOf " /*1*/\n ".toList) :=
    ⟨scan " /*1*/\n ".toList, tokenized _ (by decide +kernel), by decide +kernel,
      by decide +kernel, by decide +kernel⟩
  have joined : insertAt 12 (Text.bytesOf " /*1*/\n ".toList)
      (Text.bytesOf "message m\x7bx . y z=1;\x7d".toList) =
        Text.bytesOf "message m\x7bx  /*1*/\n . y z=1;\x7d".toList := by decide +kernel
  have short : ∀ rescanned error tooLong,
      tokenize (insertAt 12 (Text.bytesOf " /*1*/\n ".toList)
        (Text.bytesOf "message m\x7bx . y z=1;\x7d".toList)) = .ok rescanned ->
      rescanned.error = some error -> error.fault ≠ .tokenTooLong tooLong := by
    intro rescanned error tooLong retokenized failed
    rw [joined, tokenized _ (by decide +kernel)] at retokenized
    cases retokenized
    have sound : (scan "message m\x7bx  /*1*/\n . y z=1;\x7d".toList).error = none := by
      decide +kernel
    rw [sound] at failed
    cases failed
  rcases inserted_trivia_keeps_meaning (tokenized _ (by decide +kernel)) (by decide +kernel) isOpen
    isTrivia (by decide +kernel) short with ⟨rescanned, retokenized, recomplete, same, _⟩
  exact ⟨isOpen, isTrivia, rescanned, retokenized, recomplete, same⟩

end MessageSchema.Syntax
