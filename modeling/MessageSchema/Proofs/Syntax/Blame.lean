import MessageSchema.Proofs.Syntax.DocumentAgreement

namespace MessageSchema

open List Bool

/-!
Whose fault it is that a source cannot be read.

Faults that only a misuse of definitions or a defect of the program can cause are
brought about by no source.  For the scanner this is shown here.  The readers agree
with themselves on tokens alike, and errors that agree blame the source.
-/

/-- A computation that can fail, but only with certain errors. -/
structure FailsOnly {ε α : Type} (allowed : ε -> Prop) (result : Except ε α) : Prop where
  allows : ∀ error, result = .error error -> allowed error

namespace FailsOnly

variable {ε α β : Type} {allowed : ε -> Prop} {reason : ε}

lemma ok (value : α) : FailsOnly allowed (.ok value) := by
  constructor
  intro error found
  cases found

lemma fail (holds : allowed reason) : FailsOnly allowed (.error reason : Except ε α) := by
  constructor
  intro _ found
  cases found
  exact holds

/-- An error that is passed on is allowed where it comes from. -/
lemma passOn {result : Except ε α} (fails : FailsOnly allowed result)
    (found : result = .error reason) : FailsOnly allowed (.error reason : Except ε β) :=
  .fail (fails.allows reason found)

end FailsOnly

namespace Syntax

/-- The error lies in the source. -/
def Error.InSource (error : Error) : Prop :=
  error.fault.inSource = true

/-- The error lies in the source, and it is about a stretch of these characters. -/
structure Error.At (chars : List Char) (error : Error) : Prop where
  inSource : error.InSource
  place : byteLength chars <= maxOffset -> ∃ front middle back, chars = front ++ (middle ++ back) ∧
    error.span = ⟨byteLength front, byteLength middle⟩

section
variable {chars further rest : List Char} {first : Char} {fault : Fault}

section
variable (inSource : fault.inSource = true)
include inSource

lemma Error.At.of_parts {span : Span} (front middle back : List Char)
    (isChars : chars = front ++ (middle ++ back))
    (isSpan : span = ⟨byteLength front, byteLength middle⟩) : Error.At chars ⟨fault, span⟩ :=
  ⟨inSource, fun _ => ⟨front, middle, back, isChars, isSpan⟩⟩

/-- A refused token starts at the first character and is cut where its length can no longer
be stored, which no length within a source is. -/
lemma Error.At.of_token (taken : further <+: rest) :
    Error.At (first :: rest) ⟨fault, ⟨0, storedLength (byteLength (first :: further))⟩⟩ := by
  rcases taken with ⟨back, isRest⟩
  refine ⟨inSource, fun short => ⟨[], first :: further, back, by rw [← isRest]; rfl, ?_⟩⟩
  rw [← isRest, ← cons_append, byteLength_append] at short
  rw [storedLength, Nat.min_eq_left (by omega)]
  rfl

lemma Error.At.of_first (ascii : first.utf8Size = 1) : Error.At (first :: rest) ⟨fault, ⟨0, 1⟩⟩ :=
  .of_parts inSource [] [first] rest rfl (by rw [← ascii]; rfl)

end

lemma utf8Size_of_lt (ascii : first.toNat < 128) : first.utf8Size = 1 := by
  rw [Char.utf8Size, if_pos]
  exact UInt32.le_iff_toNat_le.mpr (Nat.le_of_lt_succ ascii)

lemma utf8Size_of_isControl (control : isControl first = true) : first.utf8Size = 1 := by
  simp only [isControl, or_eq_true, decide_eq_true_eq, beq_iff_eq] at control
  exact utf8Size_of_lt (by omega)

lemma failsOnly_emit {kind : TokenKind} {escapes : Bool} (taken : further <+: rest) :
    FailsOnly (Error.At (first :: rest)) (emit kind first further escapes) := by
  rw [emit]
  split
  · exact .fail (.of_token rfl taken)
  · exact .ok _

lemma failsOnly_textEnd (seen : List Char) {offset : Nat} (isOffset : offset = byteLength seen)
    (count : Nat) (escapes : Bool) (source : List Char) :
    FailsOnly (Error.At (seen ++ source)) (textEnd offset count escapes source) := by
  fun_induction textEnd offset count escapes source generalizing seen with
  | case1 => exact .ok _
  | case2 offset _ _ escaped rest ih =>
    have further := ih (seen ++ ['\\', escaped])
      (by rw [isOffset, byteLength_append, Nat.add_assoc]; rfl)
    rwa [List.append_assoc] at further
  | case3 =>
    refine .fail (.of_parts rfl [] (seen ++ ['\\']) [] (by simp) ?_)
    rw [isOffset, byteLength_append]
    rfl
  | case4 _ _ _ rest => exact .fail (.of_parts rfl seen ['\n'] rest rfl (by rw [isOffset]; rfl))
  | case5 _ _ _ rest =>
    exact .fail (.of_parts rfl seen ['\r', '\n'] rest rfl (by rw [isOffset]; rfl))
  | case6 _ _ _ value rest _ _ _ _ _ forbidden =>
    have control := utf8Size_of_isControl (and_eq_true _ _ ▸ forbidden).1
    exact .fail (.of_parts rfl seen [value] rest rfl (by rw [isOffset, ← control]; rfl))
  | case7 offset _ _ value rest _ _ _ _ _ _ ih =>
    have further := ih (seen ++ [value]) (by rw [isOffset, byteLength_append]; rfl)
    rwa [List.append_assoc] at further
  | case8 => exact .fail (.of_parts rfl [] seen [] (by simp) (by rw [isOffset]; rfl))

lemma failsOnly_numberToken (start : (first.isDigit || first == '-') = true) (rest : List Char) :
    FailsOnly (Error.At (first :: rest)) (numberToken first rest) := by
  fun_cases numberToken first rest with
  | case1 =>
    refine .fail (.of_first rfl (utf8Size_of_lt ?_))
    simp only [Char.isDigit, or_eq_true, and_eq_true, decide_eq_true_eq, beq_iff_eq,
      ge_iff_le, UInt32.le_iff_toNat_le] at start
    rcases start with ⟨_, digit⟩ | minus
    · exact Nat.lt_of_le_of_lt digit (by decide)
    · rw [minus]
      decide
  | case2 => exact .fail (.of_token rfl (List.take_prefix _ _))
  | case3 => exact failsOnly_emit (List.take_prefix _ _)
  | case4 => exact failsOnly_emit (List.take_prefix _ _)
  | case5 => exact .fail (.of_token rfl (List.take_prefix _ _))
  | case6 => exact .fail (.of_token rfl (List.take_prefix _ _))

lemma failsOnly_nextToken (first : Char) (rest : List Char) :
    FailsOnly (Error.At (first :: rest)) (nextToken first rest) := by
  unfold nextToken
  split
  · exact .ok _
  split
  · exact failsOnly_emit (List.takeWhile_prefix _)
  split
  · next slash =>
    have single : first.utf8Size = 1 := by rw [eq_of_beq slash]; rfl
    split
    · exact failsOnly_emit (List.takeWhile_prefix _)
    · split
      · exact failsOnly_emit (List.take_prefix _ _)
      · exact .fail (.of_token rfl (prefix_refl _))
    · exact .fail (.of_first rfl single)
  split
  · next quote =>
    split
    · exact failsOnly_emit (List.take_prefix _ _)
    · next found =>
      rw [eq_of_beq quote]
      exact (failsOnly_textEnd ['"'] rfl ..).passOn found
  split
  · next returned =>
    split
    · exact .ok _
    · exact .fail (.of_first rfl (by rw [eq_of_beq returned]; rfl))
  split
  · next start => exact failsOnly_numberToken start rest
  split
  · dsimp only
    split
    · next lonely =>
      rw [and_eq_true, beq_iff_eq] at lonely
      exact .fail (.of_first rfl (by rw [lonely.1]; rfl))
    · exact failsOnly_emit (List.takeWhile_prefix _)
  split
  · next control => exact .fail (.of_first rfl (utf8Size_of_isControl control))
  · exact .fail (.of_parts rfl [] [first] rest rfl rfl)

end

lemma inSource_scanFrom {offset : Nat} {seen : List Token} {source : List Char} {error : Error}
    (found : (scanFrom offset seen source).error = some error) : error.InSource := by
  fun_induction scanFrom offset seen source with
  | case1 => cases found
  | case2 offset seen first rest reason refused =>
    cases found
    exact ((failsOnly_nextToken first rest).allows reason refused).inSource
  | case3 offset seen first rest taken accepted token ih => exact ih found

lemma failsOnly_tokenize (source : List UInt8) : FailsOnly Error.InSource (tokenize source) := by
  rw [tokenize]
  split
  · exact .ok _
  · next error refused =>
    rw [sourceChars] at refused
    split at refused
    · next reason tooLong =>
      cases refused
      rw [sizeError?] at tooLong
      split at tooLong
      · cases tooLong
        exact .fail rfl
      · cases tooLong
    · dsimp only at refused
      split at refused
      · cases refused
      · cases refused
        exact .fail rfl

/-- What is wrong with tokens is a fault of the source, at some of these tokens. -/
lemma failsOnly_parseTokens {tokens : List Token} (worded : Worded tokens) :
    FailsOnly (fun error => error.InSource ∧ Spans (rowOf tokens worded) error.span)
      (parseTokens tokens) := by
  constructor
  intro error found
  have agrees : Agrees (rowOf tokens worded) Eq (parseTokens tokens) (parseTokens tokens) :=
    agrees_parseTokens worded rfl
  rw [found] at agrees
  cases agrees with
  | error accords => exact ⟨accords.fault.inSource, accords.spans⟩

lemma failsOnly_parse (source : List UInt8) : FailsOnly Error.InSource (parse source) := by
  rw [parse]
  split
  · next error found => exact (failsOnly_tokenize source).passOn found
  · next scanned tokenized =>
    rw [tokenize] at tokenized
    split at tokenized
    · next chars _ =>
      cases tokenized
      split
      · next error found => exact .fail (inSource_scanFrom found)
      · exact ⟨fun error found =>
          ((failsOnly_parseTokens (worded_scan chars)).allows error found).1⟩
    · cases tokenized

end Syntax
end MessageSchema
