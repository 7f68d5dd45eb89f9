import MessageSchema.Proofs.Syntax.Trivia

namespace MessageSchema.Syntax

open List

/-!
A source and the stretches of its tokens.

The stretches lie side by side, in the order of the tokens and without a gap, up to
the end of the source or a fault.  Each holds its token by itself: cut out and read
alone, it is the same token.
-/

namespace Cursor

/-- Tokens that are read one after the other, in front of the end of the source. -/
inductive Reads : Cursor -> List Token -> Cursor -> Prop
  | nil (cursor : Cursor) : Reads cursor [] cursor
  | cons {cursor middle last : Cursor} {token : Token} {tokens : List Token}
      (read : cursor.next = (.ok token, middle)) (content : token.kind ≠ .final)
      (further : Reads middle tokens last) : Reads cursor (token :: tokens) last

end Cursor

/-- The bytes that a token takes of its source. -/
def Token.slice (source : List UInt8) (token : Token) : List UInt8 :=
  (source.drop token.start).take token.length

/-- The number of bytes of several tokens. -/
def lengthOf (tokens : List Token) : Nat :=
  (tokens.map Token.length).foldr (· + ·) 0

/-- The token holds at least a byte, not too many, and stands for itself. -/
structure Token.Separate (source : List UInt8) (token : Token) : Prop where
  pos : 1 <= token.length
  le : token.length <= 65535
  length : (token.slice source).length = token.length
  alone : tokenize (token.slice source) =
    .ok ⟨[{ token with start := 0 }, ⟨.final, [], token.length, false⟩], none⟩

/-- The tokens cover the source in front of the cursor. -/
structure Cursor.Covers (source : List UInt8) (tokens : List Token) (cursor : Cursor) : Prop where
  offset : cursor.offset = lengthOf tokens
  joined : tokens.flatMap (Token.slice source) = source.take cursor.offset
  separate : ∀ token ∈ tokens, token.Separate source

variable {rest : List Char} {lexeme : Lexeme}

lemma Lexeme.Leads.byteLength_le (leads : lexeme.Leads rest) :
    byteLength lexeme.text <= maxTokenSize :=
  (Lexeme.leads_iff.mp leads).short

lemma Lexeme.Leads.byteLength_pos (leads : lexeme.Leads rest) : 1 <= byteLength lexeme.text := by
  rcases leads with ⟨first, further, isText, _⟩
  rw [isText]
  exact Nat.le_add_right_of_le (Char.utf8Size_pos first)

lemma Lexeme.endsBefore_nil (lexeme : Lexeme) : lexeme.EndsBefore [] := by
  refine ⟨fun _ => rfl, fun _ => rfl, fun _ => rfl, ?_⟩
  rintro _ ⟨_, _, same, _⟩
  cases same

lemma Lexeme.Leads.tokenize_text (leads : lexeme.Leads rest) : tokenize (Text.bytesOf lexeme.text) =
      .ok ⟨[⟨lexeme.kind, lexeme.text, 0, lexeme.escapes⟩,
        ⟨.final, [], byteLength lexeme.text, false⟩], none⟩ := by
  have alone : Cut [lexeme] (lexeme.text ++ []) :=
    .cons (leads.endsBefore.2 [] lexeme.endsBefore_nil) .nil
  rw [append_nil] at alone
  refine tokenize_eq_ok_iff.mpr ⟨lexeme.text, ?_, rfl, ?_⟩
  · have short := leads.byteLength_le
    rw [Text.length_bytesOf]
    exact Nat.le_trans short (by decide)
  · rw [scan_of_cut alone, placeFrom, placeFrom, Nat.zero_add]

namespace Cursor

variable {cursor middle last : Cursor} {token : Token} {tokens : List Token} {source : List UInt8}

/-- What reading a token does to the cursor. -/
lemma leads_of_next (read : cursor.next = (.ok token, middle)) (content : token.kind ≠ .final) :
    cursor.rest = token.text ++ middle.rest ∧ token.start = cursor.offset ∧
      middle.offset = cursor.offset + token.length ∧ token.lexeme.Leads middle.rest := by
  unfold next at read
  split at read
  · cases read
    exact absurd rfl content
  · next first rest isRest =>
    split at read
    · cases read
    · next found scanned =>
      cases read
      refine ⟨?_, rfl, rfl, leads_of_nextToken scanned⟩
      rw [isRest, cons_append, take_append_drop]

def Within (source : List UInt8) (cursor : Cursor) : Prop :=
  ∃ front, source = Text.bytesOf (front ++ cursor.rest) ∧ cursor.offset = byteLength front

lemma offset_eq_length {front : List Char} (isOffset : cursor.offset = byteLength front) :
    cursor.offset = (Text.bytesOf front).length := by
  rw [isOffset, Text.length_bytesOf, byteLength]

/-- One token further the cursor still stands within the source, and the token is the
stretch in between. -/
lemma Within.step (within : cursor.Within source) (read : cursor.next = (.ok token, middle))
    (content : token.kind ≠ .final) :
    middle.Within source ∧ token.slice source = Text.bytesOf token.text ∧
      source.take middle.offset = source.take cursor.offset ++ token.slice source := by
  rcases leads_of_next read content with ⟨isRest, isStart, isOffset, _⟩
  rcases within with ⟨front, isSource, atFront⟩
  have length : cursor.offset = (Text.bytesOf front).length := offset_eq_length atFront
  have textLength : token.length = (Text.bytesOf token.text).length :=
    (Text.length_bytesOf _).symm
  rw [isRest, Text.bytesOf_append, Text.bytesOf_append] at isSource
  have isSlice : token.slice source = Text.bytesOf token.text := by
    rw [Token.slice, isSource, isStart, length, drop_left, textLength, take_left]
  refine ⟨⟨front ++ token.text, ?_, ?_⟩, isSlice, ?_⟩
  · rw [isSource, List.append_assoc, Text.bytesOf_append, Text.bytesOf_append]
  · rw [isOffset, atFront, byteLength_append]
    rfl
  · rw [isSlice, isOffset, length, textLength, ← length_append, isSource, take_left,
      ← List.append_assoc, take_left]

lemma separate_of_next (within : cursor.Within source) (read : cursor.next = (.ok token, middle))
    (content : token.kind ≠ .final) : token.Separate source := by
  have leads := (leads_of_next read content).2.2.2
  have isSlice := (within.step read content).2.1
  refine ⟨leads.byteLength_pos, leads.byteLength_le, ?_, ?_⟩
  · rw [isSlice, Text.length_bytesOf]
    rfl
  · rw [isSlice]
    exact leads.tokenize_text

lemma Reads.passes (reads : cursor.Reads tokens last) (within : cursor.Within source) :
    last.Within source ∧ last.offset = cursor.offset + lengthOf tokens ∧
      source.take last.offset = source.take cursor.offset ++ tokens.flatMap (Token.slice source) ∧
      ∀ token ∈ tokens, token.Separate source := by
  induction reads with
  | nil =>
    refine ⟨within, rfl, ?_, fun _ none => absurd none not_mem_nil⟩
    rw [flatMap_nil, append_nil]
  | cons read content _ ih =>
    rcases within.step read content with ⟨further, _, joined⟩
    have isOffset := (leads_of_next read content).2.2.1
    rcases ih further with ⟨atEnd, total, rest, separate⟩
    refine ⟨atEnd, ?_, ?_, ?_⟩
    · rw [total, isOffset, Nat.add_assoc]
      rfl
    · rw [rest, joined, flatMap_cons, List.append_assoc]
    · exact List.forall_mem_cons.mpr ⟨separate_of_next within read content, separate⟩

lemma Reads.covers {chars : List Char} (reads : Reads ⟨0, chars⟩ tokens last) :
    last.Covers (Text.bytesOf chars) tokens := by
  have within : Within (Text.bytesOf chars) ⟨0, chars⟩ := ⟨[], rfl, rfl⟩
  rcases reads.passes within with ⟨_, total, joined, separate⟩
  refine ⟨by rw [total, Nat.zero_add], ?_, separate⟩
  rw [joined]
  rfl

/-- Reading ends, and the tokens that were read are those of a scan. -/
lemma exists_reads (offset : Nat) (seen : List Token) (chars : List Char) :
    ∃ tokens last, Reads ⟨offset, chars⟩ tokens last ∧
      ((last.rest = [] ∧ scanFrom offset seen chars =
          ⟨seen.reverse ++ (tokens ++ [⟨.final, [], last.offset, false⟩]), none⟩) ∨
        ∃ error, last.next = (.error error, last) ∧
          scanFrom offset seen chars = ⟨seen.reverse ++ tokens, some error⟩) := by
  fun_induction scanFrom offset seen chars with
  | case1 offset seen =>
    exact ⟨[], _, .nil _, .inl ⟨rfl, by rw [reverse_cons, nil_append]⟩⟩
  | case2 offset seen first rest error failed =>
    refine ⟨[], _, .nil _, .inr ⟨error.shift offset, ?_, by rw [append_nil]⟩⟩
    simp only [next, failed]
  | case3 offset seen first rest found scanned token ih =>
    have read : next ⟨offset, first :: rest⟩ =
        (.ok token, ⟨offset + token.length, rest.drop found.further⟩) := by
      simp only [next, scanned]
      rfl
    rcases ih with ⟨tokens, last, reads, ends⟩
    have formed := (Lexeme.leads_iff.mp (leads_of_nextToken scanned)).formed
    have content : token.kind ≠ .final := formed.toldByKind.content
    refine ⟨token :: tokens, last, .cons read content reads, ?_⟩
    rw [reverse_cons, List.append_assoc, List.append_assoc, singleton_append,
      singleton_append] at ends
    exact ends

end Cursor

/-- A source in UTF-8 of an allowed size is read to its end or up to a fault.  However
many tokens have been read, their stretches make up the source in front of the cursor,
and the cursor stands at the sum of their lengths.  A fault does not move it. -/
theorem tokens_partition_source (text : String) (size : (Text.utf8 text).length <= maxSourceSize) :
    ∃ start, Cursor.ofSource (Text.utf8 text) = .ok start ∧
      (∀ tokens cursor, start.Reads tokens cursor -> cursor.Covers (Text.utf8 text) tokens) ∧
      ∃ tokens last, start.Reads tokens last ∧
        ((last.offset = (Text.utf8 text).length ∧
            last.next = (.ok ⟨.final, [], last.offset, false⟩, last) ∧
            tokens.flatMap (Token.slice (Text.utf8 text)) = Text.utf8 text ∧
            tokenize (Text.utf8 text) = .ok ⟨tokens ++ [⟨.final, [], last.offset, false⟩], none⟩) ∨
          ∃ error, last.next = (.error error, last) ∧
            tokenize (Text.utf8 text) = .ok ⟨tokens, some error⟩) := by
  rw [Text.utf8_eq_bytesOf] at size ⊢
  generalize text.toList = chars at size ⊢
  have isSource : sourceChars (Text.bytesOf chars) = .ok chars :=
    sourceChars_eq_ok_iff.mpr ⟨size, rfl⟩
  refine ⟨⟨0, chars⟩, by rw [Cursor.ofSource, isSource]; rfl, fun _ _ reads => reads.covers, ?_⟩
  rcases Cursor.exists_reads 0 [] chars with ⟨tokens, last, reads, ends⟩
  refine ⟨tokens, last, reads, ?_⟩
  have scanned : tokenize (Text.bytesOf chars) = .ok (scanFrom 0 [] chars) := by
    rw [tokenize, isSource]
    rfl
  rw [scanned]
  rcases ends with ⟨atEnd, complete⟩ | ⟨error, failed, stopped⟩
  · left
    have within : Cursor.Within (Text.bytesOf chars) ⟨0, chars⟩ := ⟨[], rfl, rfl⟩
    rcases (reads.passes within).1 with ⟨front, isFront, atFront⟩
    have isLength : last.offset = (Text.bytesOf chars).length := by
      rw [Cursor.offset_eq_length atFront, isFront, atEnd, append_nil]
    refine ⟨isLength, by simp only [Cursor.next, atEnd], ?_, by rw [complete]; rfl⟩
    rw [reads.covers.joined, isLength, take_length]
  · exact .inr ⟨error, failed, by rw [stopped]; rfl⟩

/-- A line end of two characters, a blank of two bytes and a comment in front of a
character that is not allowed. -/
theorem tokens_partition_up_to_fault :
    (Text.utf8 "a\r\n\u00a0\t-0x1F/* é */1.5e3 %").length <= maxSourceSize ∧
      ∃ start, Cursor.ofSource (Text.utf8 "a\r\n\u00a0\t-0x1F/* é */1.5e3 %") = .ok start ∧
        ∃ tokens last, start.Reads tokens last ∧
          tokens.map Token.length = [1, 2, 3, 5, 8, 5, 1] ∧ last.offset = 25 ∧
          last.Covers (Text.utf8 "a\r\n\u00a0\t-0x1F/* é */1.5e3 %") tokens ∧
          ∃ error, last.next = (.error error, last) ∧ error.fault = .unexpectedCharacter '%' := by
  have short : (Text.utf8 "a\r\n\u00a0\t-0x1F/* é */1.5e3 %").length <= maxSourceSize := by
    decide +kernel
  rcases tokens_partition_source "a\r\n\u00a0\t-0x1F/* é */1.5e3 %" short with
    ⟨start, isStart, covers, tokens, last, reads, ends⟩
  have scanned : tokenize (Text.utf8 "a\r\n\u00a0\t-0x1F/* é */1.5e3 %") =
      .ok (scan "a\r\n\u00a0\t-0x1F/* é */1.5e3 %".toList) :=
    tokenize_eq_ok_iff.mpr ⟨_, short, Text.utf8_eq_bytesOf _, rfl⟩
  have checked : (scan "a\r\n\u00a0\t-0x1F/* é */1.5e3 %".toList).tokens.map Token.length =
      [1, 2, 3, 5, 8, 5, 1] ∧ (scan "a\r\n\u00a0\t-0x1F/* é */1.5e3 %".toList).error.map Error.fault =
        some (.unexpectedCharacter '%') := by
    decide +kernel
  rw [scanned] at ends
  generalize scan "a\r\n\u00a0\t-0x1F/* é */1.5e3 %".toList = found at checked ends
  rcases ends with ⟨_, _, _, complete⟩ | ⟨error, failed, stopped⟩
  · cases complete
    cases checked.2
  · cases stopped
    have covered := covers tokens last reads
    refine ⟨short, start, isStart, tokens, last, reads, checked.1, ?_, covered, error, failed, ?_⟩
    · rw [covered.offset, lengthOf, checked.1]
      rfl
    · exact Option.some.inj checked.2

end MessageSchema.Syntax
