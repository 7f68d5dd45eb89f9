import MessageSchema.Proofs.Syntax.Blame
import MessageSchema.Proofs.Syntax.Partition
import MessageSchema.Proofs.Syntax.Positions

namespace MessageSchema.Syntax

open List

open Text (bytesOf)

/-!
Where the errors of a source lie.

Tokens start and stop between characters, in the order of the source.  The span of
an error of the scanner is a stretch of the characters that are left, that of a
reader reaches from a token to the same or a later one.  Either is a stretch of the
source.
-/

variable {source : List UInt8} {span : Span} {token : Token} {tokens : List Token}

/-- The span starts and stops between characters of the source. -/
structure Span.FitsIn (source : List UInt8) (span : Span) : Prop where
  start : IsBoundary source span.start
  stop : IsBoundary source (span.start + span.length)

lemma IsBoundary.le {offset : Nat} (boundary : IsBoundary source offset) :
    offset <= source.length := by
  rcases boundary with ⟨front, back, isSource, isOffset⟩
  rw [isSource, isOffset, Text.bytesOf_append, length_append]
  omega

/-- A stretch of characters behind those that were read. -/
lemma Span.fitsIn_of_parts {front : List Char} (before middle back : List Char)
    (isSource : source = bytesOf (front ++ (before ++ (middle ++ back)))) :
    Span.FitsIn source ⟨byteLength front + byteLength before, byteLength middle⟩ where
  start := ⟨front ++ before, middle ++ back, by rw [isSource, List.append_assoc], by
    rw [Text.length_bytesOf, ← byteLength, byteLength_append]⟩
  stop := ⟨front ++ (before ++ middle), back, by simp only [isSource, List.append_assoc], by
    rw [Text.length_bytesOf, ← byteLength, byteLength_append, byteLength_append, Nat.add_assoc]⟩

namespace Cursor

variable {cursor middle last : Cursor}

lemma Within.fitsIn_of_next (within : cursor.Within source)
    (read : cursor.next = (.ok token, middle)) (content : token.kind ≠ .final) :
    token.span.FitsIn source := by
  rcases within with ⟨front, isSource, atFront⟩
  rcases leads_of_next read content with ⟨isRest, isStart, _, _⟩
  rw [isRest] at isSource
  have fits := Span.fitsIn_of_parts [] token.text middle.rest isSource
  rw [← atFront, ← isStart] at fits
  exact fits

/-- The tokens that are read lie behind the cursor, one behind the other. -/
lemma Reads.fitsIn (reads : cursor.Reads tokens last) (within : cursor.Within source) :
    (∀ token ∈ tokens, cursor.offset <= token.start ∧ token.span.FitsIn source) ∧
      tokens.Pairwise fun token later => token.start <= later.start := by
  induction reads with
  | nil => exact ⟨fun _ none => absurd none not_mem_nil, .nil⟩
  | cons read content _ ih =>
    rcases ih (within.step read content).1 with ⟨fits, sorted⟩
    rcases leads_of_next read content with ⟨_, isStart, isOffset, _⟩
    refine ⟨List.forall_mem_cons.mpr ⟨⟨isStart.ge, within.fitsIn_of_next read content⟩, ?_⟩,
      .cons (fun later member => ?_) sorted⟩
    · intro later member
      have behind := fits later member
      exact ⟨by omega, behind.2⟩
    · have behind := (fits later member).1
      omega

/-- A fault that is met lies within what is left to read. -/
lemma Within.fitsIn_of_error (within : cursor.Within source) (size : source.length <= maxSourceSize)
    {error : Error} (failed : cursor.next = (.error error, last)) : error.span.FitsIn source := by
  rcases within with ⟨front, isSource, atFront⟩
  unfold next at failed
  split at failed
  · cases failed
  · next first rest isRest =>
    split at failed
    · next reason refused =>
      cases failed
      have short : byteLength (first :: rest) <= maxOffset := by
        rw [isSource, Text.length_bytesOf, ← byteLength, byteLength_append, isRest] at size
        exact Nat.le_trans (Nat.le_trans (Nat.le_add_left _ _) size) (by decide)
      rcases ((failsOnly_nextToken first rest).allows reason refused).place short with
        ⟨before, middle, back, isChars, isSpan⟩
      rw [isRest, isChars] at isSource
      rw [Error.shift, Span.shift, isSpan, atFront]
      exact Span.fitsIn_of_parts before middle back isSource
    · cases failed

end Cursor

/-- Tokens that lie in the source, in its order. -/
structure InOrder (source : List UInt8) (tokens : List Token) : Prop where
  fits : ∀ token ∈ tokens, token.span.FitsIn source
  sorted : tokens.Pairwise fun token later => token.start <= later.start

lemma InOrder.spans {row : Row} (placed : InOrder source row.tokens)
    (ended : row.final.span.FitsIn source) (size : source.length <= maxSourceSize)
    (spans : Spans row span) : span.FitsIn source := by
  cases spans with
  | token member =>
    rcases List.mem_cons.mp member with same | member
    · rw [same]
      exact ended
    · exact placed.fits _ member
  | @stretch first last rest later starts ends =>
    have member : last ∈ first :: rest := ends.mem mem_cons_self
    have firstFits := placed.fits first (starts.mem mem_cons_self)
    have lastFits := placed.fits last (starts.mem member)
    have order : first.start <= last.start := by
      rcases List.mem_cons.mp member with same | later
      · rw [same]
      · exact rel_of_pairwise_cons (placed.sorted.sublist starts.sublist) later
    have isStop : last.span.stop = last.span.start + last.span.length := by
      have inside := lastFits.stop.le
      apply Nat.mod_eq_of_lt
      exact Nat.lt_of_le_of_lt (Nat.le_trans inside size) (by decide)
    refine ⟨firstFits.start, ?_⟩
    have whole : first.start + (last.span.stop - first.start) =
        last.span.start + last.span.length := by
      have isStart : last.span.start = last.start := rfl
      omega
    rw [whole]
    exact lastFits.stop

lemma InOrder.of_reads {cursor last : Cursor} (reads : cursor.Reads tokens last)
    (within : cursor.Within source) : InOrder source (significant tokens) where
  fits := fun token member => ((reads.fitsIn within).1 token (mem_of_mem_filter member)).2
  sorted := (reads.fitsIn within).2.filter _

lemma rowOf_concat {final : Token} (content : final.kind.isTrivia = false)
    (worded : Worded (tokens ++ [final])) :
    (rowOf (tokens ++ [final]) worded).tokens = significant tokens ∧
      (rowOf (tokens ++ [final]) worded).final = final := by
  have isRow : significant (tokens ++ [final]) = significant tokens ++ [final] := by
    simp [significant, content]
  constructor
  · change (significant (tokens ++ [final])).dropLast = _
    rw [isRow, dropLast_concat]
  · change (significant (tokens ++ [final])).getLastD default = _
    rw [isRow, getLastD_concat]

/-- The error of a source in UTF-8 of an allowed size points inside the source: its
span starts and stops between characters, and no offset of it has to be cut to 32 bits. -/
theorem syntax_error_lies_in_source {chars : List Char} {error : Error}
    (size : (bytesOf chars).length <= maxSourceSize)
    (failed : parse (bytesOf chars) = .error error) :
    error.span.start + error.span.length <= (bytesOf chars).length ∧
      error.span.stop = error.span.start + error.span.length ∧
      IsBoundary (bytesOf chars) error.span.start ∧
      IsBoundary (bytesOf chars) (error.span.start + error.span.length) := by
  have fits : error.span.FitsIn (bytesOf chars) := by
    have start : Cursor.Within (bytesOf chars) ⟨0, chars⟩ := ⟨[], rfl, rfl⟩
    rcases Cursor.exists_reads 0 [] chars with ⟨tokens, last, reads, ends⟩
    have within := (reads.passes start).1
    have scanned : tokenize (bytesOf chars) = .ok (scanFrom 0 [] chars) :=
      tokenize_eq_ok_iff.mpr ⟨chars, size, rfl, rfl⟩
    rw [parse, scanned] at failed
    rcases ends with ⟨atEnd, complete⟩ | ⟨reason, refused, stopped⟩
    · have worded := worded_scan chars
      rw [scan, complete, reverse_nil, nil_append] at worded
      rw [complete, reverse_nil, nil_append] at failed
      have spans := ((failsOnly_parseTokens worded).allows error failed).2
      rcases rowOf_concat rfl worded with ⟨isRow, isFinal⟩
      refine InOrder.spans ?_ ?_ size spans
      · rw [isRow]
        exact .of_reads reads start
      · rcases within with ⟨front, isSource, atFront⟩
        rw [atEnd] at isSource
        have final := Span.fitsIn_of_parts [] [] [] isSource
        rw [isFinal]
        rw [← atFront] at final
        exact final
    · rw [stopped] at failed
      cases failed
      exact within.fitsIn_of_error size refused
  have inside := fits.stop.le
  refine ⟨inside, Nat.mod_eq_of_lt ?_, fits.start, fits.stop⟩
  exact Nat.lt_of_le_of_lt (Nat.le_trans inside size) (by decide)

/-- A text of two bytes as the default of a number: the error reaches over the field. -/
theorem refused_field_lies_in_source :
    ∃ error, parse (bytesOf "message m \x7bint a=1[default=\"é\"];\x7d".toList) = .error error ∧
      error.fault.code = 2018 ∧ error.span = ⟨11, 22⟩ ∧
      IsBoundary (bytesOf "message m \x7bint a=1[default=\"é\"];\x7d".toList) error.span.start ∧
      IsBoundary (bytesOf "message m \x7bint a=1[default=\"é\"];\x7d".toList)
        (error.span.start + error.span.length) := by
  have size : (bytesOf "message m \x7bint a=1[default=\"é\"];\x7d".toList).length <=
      maxSourceSize := by
    decide +kernel
  have refused : ((parse (bytesOf "message m \x7bint a=1[default=\"é\"];\x7d".toList)).mapError
      fun error => (error.fault.code, error.span)).map (fun _ => ()) = .error (2018, ⟨11, 22⟩) := by
    decide +kernel
  cases failed : parse (bytesOf "message m \x7bint a=1[default=\"é\"];\x7d".toList) with
  | ok document =>
    rw [failed] at refused
    cases refused
  | error error =>
    rw [failed] at refused
    have same : (error.fault.code, error.span) = (2018, ⟨11, 22⟩) := Except.error.inj refused
    rw [Prod.mk.injEq] at same
    exact ⟨error, rfl, same.1, same.2, (syntax_error_lies_in_source size failed).2.2⟩

end MessageSchema.Syntax
