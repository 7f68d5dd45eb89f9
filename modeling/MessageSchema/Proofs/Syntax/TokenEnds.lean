import MessageSchema.Proofs.Syntax.NumberEnds

namespace MessageSchema.Syntax

open List

/-!
What a token can be, and where it ends.

A token takes the longest front that its first characters allow, in one of eight
forms.  What stands behind only decides whether the token ends there, so exactly the
texts of these forms are read as tokens in front of every row at which they can end.
-/

/-- What a token is, apart from where it stands. -/
structure Lexeme where
  kind : TokenKind
  text : List Char
  escapes : Bool
deriving DecidableEq, Repr

def Token.lexeme (token : Token) : Lexeme :=
  ⟨token.kind, token.text, token.escapes⟩

/-- A comment that reaches to the end of its line. -/
def Lexeme.isLineComment (lexeme : Lexeme) : Bool :=
  lexeme.kind == .comment && lexeme.text.take 2 == ['/', '/']

/-- Characters within a line. -/
def isInLine (value : Char) : Bool :=
  value != '\n' && value != '\r'

/-- The lexeme can end in front of this row. -/
def Lexeme.EndsBefore (lexeme : Lexeme) (row : List Char) : Prop :=
  (lexeme.kind = .space -> Stops isBlankChar row) ∧
    (lexeme.isLineComment = true -> Stops isInLine row) ∧
    (lexeme.kind ∈ [.word, .intLiteral, .hexLiteral, .floatLiteral] -> Stops isWordChar row) ∧
    (lexeme.kind = .intLiteral -> ¬ PointsOn row)

/-- The lexeme is the first one of a row that goes on with `rest` behind it. -/
def Lexeme.Leads (lexeme : Lexeme) (rest : List Char) : Prop :=
  ∃ first further, lexeme.text = first :: further ∧
    nextToken first (further ++ rest) = .ok ⟨lexeme.kind, further.length, lexeme.escapes⟩

/-- The forms of the lexemes, whatever stands behind them. -/
inductive Lexeme.Formed : Lexeme -> Prop
  | mark {first : Char} {kind : TokenKind} (mark : markKind? first = some kind) :
      Formed ⟨kind, [first], false⟩
  | lineEnd : Formed ⟨.newline, ['\r', '\n'], false⟩
  | blanks {text : List Char} (some : text ≠ [])
      (all : ∀ value ∈ text, isBlankChar value = true) : Formed ⟨.space, text, false⟩
  | lineComment {text : List Char} (all : ∀ value ∈ text, isInLine value = true) :
      Formed ⟨.comment, '/' :: '/' :: text, false⟩
  | blockComment {text : List Char}
      (ended : ∀ rest, commentEnd? 1 (text ++ rest) = some (1 + text.length)) :
      Formed ⟨.comment, '/' :: '*' :: text, false⟩
  | text {text : List Char} (enclosed : Enclosed text) :
      Formed ⟨.textLiteral, '"' :: (text ++ ['"']), text.contains '\\'⟩
  | number {kind : TokenKind} {text : List Char} (number : IsNumber kind text) :
      Formed ⟨kind, text, false⟩
  | word {first : Char} {further : List Char} (start : isWordChar first = true)
      (noDigit : first.isDigit = false) (inside : ∀ value ∈ further, isWordChar value = true)
      (named : first = '_' -> further ≠ []) : Formed ⟨.word, first :: further, false⟩

/-- The lexeme has a form, is not too long, and can end in front of this row. -/
structure Lexeme.Fits (lexeme : Lexeme) (row : List Char) : Prop where
  formed : lexeme.Formed
  ends : lexeme.EndsBefore row
  short : byteLength lexeme.text <= maxTokenSize

variable {rest further row body : List Char} {count : Nat} {escapes : Bool} {first : Char}
    {found : Match} {lexeme : Lexeme} {kind : TokenKind}

lemma Lexeme.endsBefore_of_closed
    (closed : lexeme.kind ∉ [.space, .comment, .word, .intLiteral, .hexLiteral, .floatLiteral])
    (row : List Char) : lexeme.EndsBefore row := by
  simp only [mem_cons, not_mem_nil, or_false, not_or] at closed
  simp [Lexeme.EndsBefore, Lexeme.isLineComment, closed]

lemma Lexeme.endsBefore_of_comment (comment : lexeme.kind = .comment)
    (line : lexeme.isLineComment = true -> Stops isInLine row) : lexeme.EndsBefore row := by
  refine ⟨?_, line, ?_, ?_⟩ <;> simp [comment]

lemma IsNumber.endsBefore_iff {text : List Char} (number : IsNumber kind text) :
    Lexeme.EndsBefore ⟨kind, text, escapes⟩ row ↔
      Stops isWordChar row ∧ (kind = .intLiteral -> ¬ PointsOn row) := by
  have listed := number.kind_mem
  simp only [mem_cons, not_mem_nil, or_false] at listed
  rcases listed with rfl | rfl | rfl <;> simp [Lexeme.EndsBefore, Lexeme.isLineComment]

lemma kind_of_markKind? (mark : markKind? first = some kind) :
    kind ∈ [TokenKind.newline, .comma, .dot, .equals, .semicolon, .openCurl, .closeCurl,
      .openSquare, .closeSquare] := by
  unfold markKind? at mark
  split at mark <;> first | cases mark; decide | cases mark

/-- Characters with which words and numbers start. -/
def isItemStart (value : Char) : Bool :=
  value.isDigit || value == '-' || isWordChar value

lemma nextToken_of_isItemStart (start : isItemStart first = true) (row : List Char) :
    nextToken first row =
      if first.isDigit || first == '-' then numberToken first row
      else if first == '_' && (row.takeWhile isWordChar).isEmpty then
        .error ⟨.wordInvalid [first], ⟨0, 1⟩⟩
      else emit .word first (row.takeWhile isWordChar) := by
  have other : ∀ value, isItemStart value = false -> first ≠ value := by
    intro value none same
    rw [same, none] at start
    cases start
  have noMark : markKind? first = none := by
    unfold markKind?
    split <;> first | rfl | exact absurd rfl (other _ (by decide))
  have noBlank : isBlankChar first = false := by
    simp [isBlankChar, other ' ' (by decide), other '\t' (by decide), other '\u00a0' (by decide)]
  unfold nextToken
  simp only [noMark, noBlank, beq_eq_false_iff_ne.mpr (other '/' (by decide)),
    beq_eq_false_iff_ne.mpr (other '"' (by decide)),
    beq_eq_false_iff_ne.mpr (other '\r' (by decide)), Bool.false_eq_true, if_false]
  split
  · rfl
  · next noNumber =>
    have word : isWordChar first = true := by
      simpa [isItemStart, Bool.eq_false_iff.mpr noNumber] using start
    rw [if_pos word]

lemma nextToken_of_blank (blank : isBlankChar first = true) (row : List Char) :
    nextToken first row = emit .space first (row.takeWhile isBlankChar) := by
  simp only [isBlankChar, Bool.or_eq_true, beq_iff_eq] at blank
  rcases blank with (rfl | rfl) | rfl <;> rfl

lemma nextToken_of_comment {further : Nat} (ended : commentEnd? 1 body = some further) :
    nextToken '/' ('*' :: body) = emit .comment '/' (('*' :: body).take further) := by
  simp only [nextToken, ended]
  rfl

lemma nextToken_of_text {further : Nat} (ended : textEnd 1 0 false row = .ok (further, escapes)) :
    nextToken '"' row = emit .textLiteral '"' (row.take further) escapes := by
  simp only [nextToken, ended]
  rfl

/-- A lexeme that fits in front of a row is read there. -/
lemma Lexeme.Fits.leads (fits : lexeme.Fits rest) : lexeme.Leads rest := by
  rcases fits with ⟨formed, ends, short⟩
  cases formed with
  | @mark first _ mark =>
    refine ⟨first, [], rfl, ?_⟩
    unfold nextToken
    rw [mark]
    rfl
  | lineEnd => exact ⟨'\r', ['\n'], rfl, rfl⟩
  | @blanks text some all =>
    rcases exists_cons_of_ne_nil some with ⟨first, further, rfl⟩
    rcases List.forall_mem_cons.mp all with ⟨blank, inside⟩
    refine ⟨first, further, rfl, ?_⟩
    rw [nextToken_of_blank blank, takeWhile_front inside (ends.1 rfl)]
    exact emit_eq_ok_iff.mpr ⟨rfl, short⟩
  | @lineComment text all =>
    refine ⟨'/', '/' :: text, rfl, ?_⟩
    have inside : ∀ value ∈ '/' :: text, isInLine value = true :=
      List.forall_mem_cons.mpr ⟨rfl, all⟩
    have front := takeWhile_front inside (ends.2.1 rfl)
    have scanned : nextToken '/' ('/' :: text ++ rest) =
        emit .comment '/' (('/' :: text ++ rest).takeWhile isInLine) := rfl
    rw [scanned, front]
    exact emit_eq_ok_iff.mpr ⟨rfl, short⟩
  | @blockComment text ended =>
    refine ⟨'/', '*' :: text, rfl, ?_⟩
    rw [cons_append, nextToken_of_comment (ended rest), ← cons_append, Nat.add_comm,
      ← length_cons, take_left]
    exact emit_eq_ok_iff.mpr ⟨rfl, short⟩
  | @text text enclosed =>
    refine ⟨'"', text ++ ['"'], rfl, ?_⟩
    have ended := enclosed.textEnd_eq 1 0 false rest
    have isEnd : 0 + (text.length + 1) = (text ++ ['"']).length := by simp
    rw [append_cons, isEnd] at ended
    rw [nextToken_of_text ended, take_left]
    exact emit_eq_ok_iff.mpr ⟨rfl, short⟩
  | number number =>
    rcases number.exists_cons with ⟨first, further, rfl, start⟩
    rcases number.endsBefore_iff.mp ends with ⟨stops, noPoint⟩
    refine ⟨first, further, rfl, ?_⟩
    rw [nextToken_of_isItemStart (by rw [isItemStart, start, Bool.true_or]), if_pos start]
    exact numberToken_eq_ok_iff.mpr
      ⟨further, rest, rfl, number, stops, noPoint, emit_eq_ok_iff.mpr ⟨rfl, short⟩⟩
  | @word first further start noDigit inside named =>
    refine ⟨first, further, rfl, ?_⟩
    have noNumber : ¬ (first.isDigit || first == '-') = true := by
      rw [noDigit, Bool.false_or, beq_iff_eq]
      rintro rfl
      cases start
    have notAlone : ¬ (first == '_' && further.isEmpty) = true := by
      simpa using named
    have front := takeWhile_front inside (ends.2.2.1 mem_cons_self)
    rw [nextToken_of_isItemStart (by rw [isItemStart, start, Bool.or_true]), if_neg noNumber, front,
      if_neg notAlone]
    exact emit_eq_ok_iff.mpr ⟨rfl, short⟩

/-- What is read at the start of a row is a lexeme and what stands behind it. -/
lemma fits_of_nextToken (scanned : nextToken first row = .ok found) :
    ∃ further rest, row = further ++ rest ∧ found.further = further.length ∧
      Lexeme.Fits ⟨found.kind, first :: further, found.escapes⟩ rest := by
  have ofEmit {kind : TokenKind} {further rest : List Char} {escapes : Bool}
      (emitted : emit kind first further escapes = .ok found) (isRow : row = further ++ rest)
      (formed : Lexeme.Formed ⟨kind, first :: further, escapes⟩)
      (ends : Lexeme.EndsBefore ⟨kind, first :: further, escapes⟩ rest) :
      ∃ further rest, row = further ++ rest ∧ found.further = further.length ∧
        Lexeme.Fits ⟨found.kind, first :: further, found.escapes⟩ rest := by
    rcases emit_eq_ok_iff.mp emitted with ⟨rfl, short⟩
    exact ⟨further, rest, isRow, rfl, formed, ends, short⟩
  have parted (holds : Char -> Bool) : row = row.takeWhile holds ++ row.dropWhile holds :=
    List.takeWhile_append_dropWhile.symm
  have inside {holds : Char -> Bool} (value : Char) (member : value ∈ row.takeWhile holds) :
      holds value = true := mem_takeWhile_imp member
  unfold nextToken at scanned
  split at scanned
  · next kind mark =>
    cases scanned
    have listed := kind_of_markKind? mark
    have single : byteLength [first] <= maxTokenSize := by
      unfold markKind? at mark
      split at mark <;> first | decide | cases mark
    refine ⟨[], row, rfl, rfl, .mark mark, Lexeme.endsBefore_of_closed ?_ row, single⟩
    change kind ∉ _
    revert listed
    cases kind <;> decide
  split at scanned
  · next blank =>
    refine ofEmit scanned (parted _) (.blanks (cons_ne_nil _ _) ?_) ?_
    · exact List.forall_mem_cons.mpr ⟨blank, inside⟩
    · simp [Lexeme.EndsBefore, Lexeme.isLineComment, stops_dropWhile]
  split at scanned
  · next slash =>
    cases eq_of_beq slash
    split at scanned
    · next body =>
      refine ofEmit scanned (parted isInLine) (.lineComment fun value member => ?_) ?_
      · exact mem_takeWhile_imp member
      · exact Lexeme.endsBefore_of_comment rfl fun _ => stops_dropWhile _
    · next body =>
      split at scanned
      · next ended =>
        rcases commentEnd?_append ended with ⟨front, behind, rfl, rfl, _, again⟩
        rw [Nat.add_comm, ← cons_append, ← length_cons, take_left] at scanned
        refine ofEmit scanned rfl (.blockComment again) ?_
        exact Lexeme.endsBefore_of_comment rfl fun line => by simp [Lexeme.isLineComment] at line
      · cases scanned
    · cases scanned
  split at scanned
  · next quote =>
    cases eq_of_beq quote
    split at scanned
    · next ended =>
      rcases textEnd_eq_ok_iff.mp ended with ⟨text, behind, rfl, enclosed, isFound⟩
      cases isFound
      have isEnd : 0 + (text.length + 1) = (text ++ ['"']).length := by simp
      rw [append_cons, isEnd, take_left] at scanned
      refine ofEmit scanned (append_cons _ _ _) (.text enclosed) ?_
      exact Lexeme.endsBefore_of_closed (by simp) _
    · cases scanned
  split at scanned
  · next returned =>
    cases eq_of_beq returned
    split at scanned
    · next behind =>
      cases scanned
      exact ⟨['\n'], behind, rfl, rfl, .lineEnd, Lexeme.endsBefore_of_closed (by simp) _, by decide⟩
    · cases scanned
  split at scanned
  · rcases numberToken_eq_ok_iff.mp scanned with
      ⟨further, rest, isRow, number, stops, noPoint, emitted⟩
    exact ofEmit emitted isRow (.number number) (number.endsBefore_iff.mpr ⟨stops, noPoint⟩)
  split at scanned
  · next noNumber start =>
    simp only at scanned
    split at scanned
    · cases scanned
    · next named =>
      refine ofEmit scanned (parted _) (.word start ?_ inside ?_) ?_
      · simp only [Bool.or_eq_true, not_or, Bool.not_eq_true] at noNumber
        exact noNumber.1
      · simpa using named
      · simp [Lexeme.EndsBefore, Lexeme.isLineComment, stops_dropWhile]
  split at scanned <;> cases scanned

/-- A lexeme is the first one of a row exactly if it fits in front of what stands
behind it. -/
lemma Lexeme.leads_iff : lexeme.Leads rest ↔ lexeme.Fits rest := by
  refine ⟨?_, Lexeme.Fits.leads⟩
  rcases lexeme with ⟨kind, text, escapes⟩
  rintro ⟨first, further, isText, scanned⟩
  cases isText
  rcases fits_of_nextToken scanned with ⟨front, behind, same, length, fits⟩
  rcases append_inj same length with ⟨rfl, rfl⟩
  exact fits

/-- A lexeme can end where it was read, and it is read again in front of every
row at which it can end. -/
lemma Lexeme.Leads.endsBefore (leads : lexeme.Leads rest) :
    lexeme.EndsBefore rest ∧ ∀ other, lexeme.EndsBefore other -> lexeme.Leads other := by
  rcases Lexeme.leads_iff.mp leads with ⟨formed, ends, short⟩
  exact ⟨ends, fun _ endsOther => Lexeme.leads_iff.mpr ⟨formed, endsOther, short⟩⟩

lemma leads_of_nextToken (scanned : nextToken first rest = .ok found) :
    Lexeme.Leads ⟨found.kind, first :: rest.take found.further, found.escapes⟩
      (rest.drop found.further) := by
  rcases fits_of_nextToken scanned with ⟨further, behind, rfl, length, fits⟩
  rw [length, take_left, drop_left]
  exact fits.leads

/-- What the kind of a lexeme tells of its text. -/
structure Lexeme.ToldByKind (lexeme : Lexeme) : Prop where
  word : lexeme.kind = .word -> lexeme.text ≠ [] ∧ ∀ value ∈ lexeme.text, isWordChar value = true
  space : lexeme.kind = .space -> ∀ value ∈ lexeme.text, isBlankChar value = true
  text : lexeme.kind = .textLiteral -> ∃ text, Enclosed text ∧
    lexeme.text = '"' :: (text ++ ['"']) ∧ lexeme.escapes = text.contains '\\'
  number : lexeme.kind ∈ [TokenKind.intLiteral, .hexLiteral, .floatLiteral] ->
    IsNumber lexeme.kind lexeme.text
  content : lexeme.kind ≠ .final

lemma Lexeme.Formed.toldByKind (formed : lexeme.Formed) : lexeme.ToldByKind := by
  cases formed with
  | @mark first kind mark =>
    have listed := kind_of_markKind? mark
    constructor
    all_goals
      intro isKind
      exfalso
      dsimp only at isKind
      revert listed isKind
      clear mark
      cases kind <;> decide
  | number number =>
    have listed := number.kind_mem
    constructor <;> (intro isKind; simp_all)
  | lineEnd | lineComment | blockComment => constructor <;> simp
  | blanks _ all =>
    constructor <;> simp
    exact all
  | text enclosed =>
    refine ⟨?_, ?_, fun _ => ⟨_, enclosed, rfl, rfl⟩, ?_, ?_⟩ <;> simp
  | word start _ inside _ =>
    constructor <;> simp
    exact ⟨start, inside⟩

section
variable {offset : Nat} {seen : List Token} {source : List Char} {holds : Token -> Prop}

section
variable (atEnd : ∀ start, holds ⟨.final, [], start, false⟩)
  (step : ∀ {lexeme : Lexeme} (start : Nat), lexeme.Formed -> holds
    ⟨lexeme.kind, lexeme.text, start, lexeme.escapes⟩)
include atEnd step

/-- What holds of the empty token at the end and of every lexeme holds of all tokens of
a scan. -/
lemma forall_scanFrom (known : ∀ token ∈ seen, holds token) :
    ∀ token ∈ (scanFrom offset seen source).tokens, holds token := by
  fun_induction scanFrom offset seen source with
  | case1 offset seen =>
    intro token member
    rcases List.mem_cons.mp (List.mem_reverse.mp member) with same | member
    · rw [same]
      exact atEnd offset
    · exact known token member
  | case2 offset seen first rest error failed =>
    intro token member
    exact known token (List.mem_reverse.mp member)
  | case3 offset seen first rest found scanned token ih =>
    apply ih
    intro other member
    rcases List.mem_cons.mp member with same | member
    · rw [same]
      exact step offset (Lexeme.leads_iff.mp (leads_of_nextToken scanned)).formed
    · exact known other member

lemma forall_scan (source : List Char) : ∀ token ∈ (scan source).tokens, holds token :=
  forall_scanFrom atEnd step fun _ member => absurd member not_mem_nil

end

lemma scanFrom_final (complete : (scanFrom offset seen source).error = none) : ∃ before start,
      (scanFrom offset seen source).tokens = before ++ [⟨.final, [], start, false⟩] := by
  fun_induction scanFrom offset seen source with
  | case1 offset seen => exact ⟨seen.reverse, offset, reverse_cons⟩
  | case2 => cases complete
  | case3 _ _ _ _ _ _ _ ih => exact ih complete

lemma scan_final (complete : (scan source).error = none) :
    ∃ before start, (scan source).tokens = before ++ [⟨.final, [], start, false⟩] :=
  scanFrom_final complete

end

end MessageSchema.Syntax
