import MessageSchema.Proofs.Syntax.Grammar
import MessageSchema.Proofs.Syntax.Naming

namespace MessageSchema.Syntax

/-!
The values of literals.

A text literal without escapes is taken as it stands, any other is decoded.  The
scanner marks literals with a backslash, so both ways lead to the text that the
literal spells.
-/

variable {text value : List Char} {token : Token}

lemma spelled_of_unescape? (decoded : unescape? text = some value) : Spelled text value := by
  fun_induction unescape? text generalizing value with
  | case1 =>
    cases decoded
    exact .nil
  | case2 rest ih | case3 rest ih | case4 rest ih | case5 rest ih | case6 rest ih =>
    rcases Option.map_eq_some_iff.mp decoded with ⟨values, further, same⟩
    rw [← same]
    exact .escape (by decide) (ih further)
  | case7 => cases decoded
  | case8 first rest _ _ _ _ _ notEscape ih =>
    rcases Option.map_eq_some_iff.mp decoded with ⟨values, further, same⟩
    rw [← same]
    exact .plain notEscape (ih further)

lemma unescape?_of_spelled (spelled : Spelled text value) : unescape? text = some value := by
  induction spelled with
  | nil => rfl
  | plain notEscape _ ih =>
    rw [unescape?, ih]
    · rfl
    all_goals simp_all
  | escape listed _ ih =>
    simp only [escapeTable, List.mem_cons, Prod.mk.injEq, List.not_mem_nil, or_false] at listed
    rcases listed with ⟨rfl, rfl⟩ | ⟨rfl, rfl⟩ | ⟨rfl, rfl⟩ | ⟨rfl, rfl⟩ | ⟨rfl, rfl⟩ <;>
      simp [unescape?, ih]

lemma unescape?_eq_some_iff : unescape? text = some value ↔ Spelled text value :=
  ⟨spelled_of_unescape?, unescape?_of_spelled⟩

lemma spelled_self (plain : '\\' ∉ text) : Spelled text text := by
  induction text with
  | nil => exact .nil
  | cons first rest ih =>
    rw [List.mem_cons, not_or] at plain
    exact .plain (Ne.symm plain.1) (ih plain.2)

/-- A text literal of a source stands between quotes, and it is marked if there
is a backslash between them. -/
lemma quoted_scan (source : List Char) : ∀ token ∈ (scan source).tokens,
    token.kind = .textLiteral -> Enclosed (unquoted token.text) ∧
      token.text = '"' :: (unquoted token.text ++ ['"']) ∧
      token.escapes = (unquoted token.text).contains '\\' := by
  refine forall_scan (fun _ text => nomatch text) ?_ source
  intro lexeme start formed isText
  rcases formed.toldByKind.text isText with ⟨text, enclosed, same, marked⟩
  have inside : unquoted lexeme.text = text := by
    rw [unquoted, same, List.tail_cons, List.dropLast_concat]
  simp only [inside]
  exact ⟨enclosed, same, marked⟩

/-- Tokens that were cut from a source: words can be segments of names, and text literals
without a mark hold no backslash. -/
structure Lexed (tokens : List Token) : Prop where
  worded : Worded tokens
  plain : ∀ token ∈ tokens, token.kind = .textLiteral -> token.escapes = false ->
    '\\' ∉ unquoted token.text

lemma Lexed.of_suffix {tokens rest : List Token} (lexed : Lexed tokens)
    (suffix : rest <:+ tokens) : Lexed rest where
  worded := lexed.worded.of_suffix suffix
  plain := fun token member => lexed.plain token (suffix.mem member)

lemma lexed_scan (source : List Char) : Lexed (scan source).tokens where
  worded := worded_scan source
  plain := by
    intro token member isText unmarked
    rw [(quoted_scan source token member isText).2.2] at unmarked
    simpa using unmarked

/-- A text literal of a source stands for what it spells, whichever way its
value is found. -/
lemma textValue?_eq_some_iff (plain : token.escapes = false -> '\\' ∉ unquoted token.text) :
    textValue? token = some value ↔ Spelled (unquoted token.text) value := by
  rw [← unescape?_eq_some_iff]
  unfold textValue?
  split
  · exact .rfl
  · next unmarked =>
    have plain := plain (Bool.eq_false_iff.mpr unmarked)
    rw [unescape?_eq_some_iff.mpr (spelled_self plain)]

/-- Digits are valued by their places in the row of digits. -/
lemma hexDigit?_eq (digit : Char) :
    Number.hexDigit? digit = hexDigits.findIdx? (· == digit.toLower) := by
  by_cases ascii : digit.toNat < 128
  · have all : ∀ code < 128, Number.hexDigit? (Char.ofNat code) =
        hexDigits.findIdx? (· == (Char.ofNat code).toLower) := by
      decide +kernel
    have found := all digit.toNat ascii
    rwa [Char.ofNat_toNat] at found
  · have above (limit : Char) (small : limit.toNat < 128) : ¬ digit <= limit := by
      intro least
      exact ascii (Nat.lt_of_le_of_lt (UInt32.le_iff_toNat_le.mp least) small)
    have same : digit.toLower = digit :=
      dif_neg fun within => above 'Z' (by decide) within.2
    rw [Number.hexDigit?, if_neg, if_neg, if_neg, same, eq_comm, List.findIdx?_eq_none_iff]
    · intro listed member
      rw [beq_eq_false_iff_ne]
      rintro rfl
      have small : hexDigits.all (·.toNat < 128) = true := by decide
      exact ascii (of_decide_eq_true (List.all_eq_true.mp small _ member))
    · exact fun within => above 'F' (by decide) within.2
    · exact fun within => above 'f' (by decide) within.2
    · exact fun within => above '9' (by decide) within.2

/-- The digits of an integer literal, read without sign. -/
lemma readUnsigned?_digits (kind : TokenKind) (digits : List Char) (number : UInt64) :
    (if kind = .hexLiteral then Number.readUnsigned? 16
          ((digits.drop 2).map fun digit => (Number.hexDigit? digit).getD 0)
        else Number.readUnsigned? 10 (digits.map Number.digitValue)) = some number ↔
      (if kind = .hexLiteral then Number.ofPlaces 16 0 ((digits.drop 2).map fun digit =>
          (hexDigits.findIdx? (· == digit.toLower)).getD 0)
        else Nat.ofDigitChars 10 digits 0) = number.toNat := by
  split
  · rw [Number.readUnsigned?_eq_some_iff (by decide)
      (List.forall_mem_map.mpr fun digit _ => Number.hexValue_lt_size digit)]
    simp only [hexDigit?_eq]
    rfl
  · rw [Number.readUnsigned?_eq_some_iff (by decide)
      (List.forall_mem_map.mpr fun digit _ => Number.digitValue_lt_size digit), Number.ofPlaces,
      List.foldl_map]
    rfl

/-- The range of numbers with 32 bits is that of their magnitudes, which reach one
further below zero. -/
lemma bind_magnitude_eq_some_iff {read : Option UInt64} {magnitude : Nat}
    (reads : ∀ number, read = some number ↔ magnitude = number.toNat) (negative : Bool)
    (value : Int) : (read.bind fun number =>
        if negative then if 2147483648 < number then none else some (-(number.toNat : Int))
        else if 2147483647 < number then none else some (number.toNat : Int)) = some value ↔
      (if negative then -(magnitude : Int) else magnitude) = value ∧
        minInt32 <= value ∧ value <= maxInt32 := by
  unfold minInt32 maxInt32
  cases read with
  | none =>
    have large : UInt64.size <= magnitude := by
      apply Nat.le_of_not_lt
      intro within
      have found := (reads (UInt64.ofNat magnitude)).mpr (UInt64.toNat_ofNat_of_lt' within).symm
      cases found
    have isSize : UInt64.size = 18446744073709551616 := rfl
    simp only [Option.bind_none, reduceCtorEq, false_iff]
    cases negative <;> simp only [Bool.false_eq_true, if_false, if_true] <;> omega
  | some number =>
    rw [(reads number).mp rfl, Option.bind_some]
    have isLeast : (2147483648 : UInt64).toNat = 2147483648 := rfl
    have isLargest : (2147483647 : UInt64).toNat = 2147483647 := rfl
    cases negative with
    | false =>
      simp only [Bool.false_eq_true, if_false]
      split
      · next large =>
        rw [UInt64.lt_iff_toNat_lt] at large
        simp only [reduceCtorEq, false_iff]
        omega
      · next within =>
        rw [UInt64.lt_iff_toNat_lt] at within
        rw [Option.some.injEq]
        omega
    | true =>
      simp only [if_true]
      split
      · next large =>
        rw [UInt64.lt_iff_toNat_lt] at large
        simp only [reduceCtorEq, false_iff]
        omega
      · next within =>
        rw [UInt64.lt_iff_toNat_lt] at within
        rw [Option.some.injEq]
        omega

lemma cutSign_eq (text : List Char) : cutSign text =
      (decide (text.head? = some '-'), text.drop (if text.head? = some '-' then 1 else 0)) := by
  fun_cases cutSign text with
  | case1 => rfl
  | case2 text unsigned =>
    have plain : text.head? ≠ some '-' := by
      intro minus
      rcases List.head?_eq_some_iff.mp minus with ⟨rest, isText⟩
      exact unsigned rest isText
    rw [if_neg plain, decide_eq_false plain, List.drop_zero]

lemma readInt32?_eq_some_iff {value : Int} : readInt32? token = some value ↔
      intValue token = value ∧ minInt32 <= value ∧ value <= maxInt32 := by
  have reads := bind_magnitude_eq_some_iff
    (readUnsigned?_digits token.kind (cutSign token.text).2) (cutSign token.text).1 value
  rw [readInt32?, intValue]
  simp only [cutSign_eq, decide_eq_true_eq] at reads ⊢
  exact reads

lemma int32Value_eq_ok_iff {value : Int} : int32Value token = .ok value ↔ token.IsInt value := by
  unfold int32Value
  constructor
  · intro read
    split at read
    · next kind =>
      split at read
      · next number found =>
        cases read
        rcases readInt32?_eq_some_iff.mp found with ⟨stands, least, largest⟩
        exact ⟨kind, stands, least, largest⟩
      · cases read
    · cases read
  · rintro ⟨kind, stands, least, largest⟩
    rw [if_pos kind, readInt32?_eq_some_iff.mpr ⟨stands, least, largest⟩]

lemma Token.isKeyword_iff {keyword : String} :
    token.isKeyword keyword = true ↔ token.kind = .word ∧ token.text = keyword.toList := by
  simp [Token.isKeyword]

lemma Token.isKeyword_eq {keyword : String} (found : token.isKeyword keyword = true)
    (other : String) : token.isKeyword other = (keyword == other) := by
  rw [Bool.eq_iff_iff, beq_iff_eq]
  constructor
  · intro both
    have same := (Token.isKeyword_iff.mp found).2.symm.trans (Token.isKeyword_iff.mp both).2
    exact String.toList_inj.mp same
  · rintro rfl
    exact found

section
variable (plain : token.kind = .textLiteral -> token.escapes = false -> '\\' ∉ unquoted token.text)
include plain

lemma isLiteral_of_literalValue {value : Literal}
    (read : literalValue token = .ok value) : token.IsLiteral value := by
  have ofInt (converted : (int32Value token).map Literal.int = .ok value) :
      token.IsLiteral value := by
    cases found : int32Value token with
    | error error => simp [found, Except.map] at converted
    | ok number =>
      rw [found] at converted
      cases converted
      exact .int (int32Value_eq_ok_iff.mp found)
  unfold literalValue at read
  split at read
  · exact ofInt read
  · exact ofInt read
  · next kind =>
    simp only at read
    split at read
    · next finite =>
      cases read
      exact .float kind finite
    · cases read
  · next kind =>
    split at read
    · next value found =>
      cases read
      exact .text kind ((textValue?_eq_some_iff (plain kind)).mp found)
    · cases read
  · split at read
    · next keyword =>
      cases read
      exact .yes keyword
    · split at read
      · next keyword =>
        cases read
        exact .no keyword
      · cases read

lemma literalValue_of_isLiteral {value : Literal}
    (literal : token.IsLiteral value) : literalValue token = .ok value := by
  cases literal with
  | int int =>
    have read := int32Value_eq_ok_iff.mpr int
    rcases int.kind with kind | kind <;> simp only [literalValue, kind, read] <;> rfl
  | float kind finite => simp only [literalValue, kind, finite, if_true]
  | text kind spelled =>
    have read := (textValue?_eq_some_iff (plain kind)).mpr spelled
    simp only [literalValue, kind, read]
  | yes keyword =>
    have kind := (Token.isKeyword_iff.mp keyword).1
    simp only [literalValue, kind, keyword, if_true]
  | no keyword =>
    have kind := (Token.isKeyword_iff.mp keyword).1
    have other : token.isKeyword "true" = false := Token.isKeyword_eq keyword "true"
    simp only [literalValue, kind, keyword, other, if_true, Bool.false_eq_true, if_false]

lemma literalValue_eq_ok_iff {value : Literal} :
    literalValue token = .ok value ↔ token.IsLiteral value :=
  ⟨isLiteral_of_literalValue plain, literalValue_of_isLiteral plain⟩

end

end MessageSchema.Syntax
