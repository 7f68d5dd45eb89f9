import MessageSchema.Data.Json.Reader
import MessageSchema.Data.Json.Writer
import MessageSchema.Proofs.Number.WholeDoubles

namespace MessageSchema.Data

open List
namespace Json

/-!
The tokens of written JSON.

A written value is scanned as its tokens, whatever follows it, as long as this does
not go on with a number.  Texts are scanned as the characters that were escaped,
with replacement marks for stray bytes, and numbers keep their digits.
-/

open Number (Numeral)
open Syntax (Stops takeWhile_front stops_cons_iff)

/-! ## Texts -/

lemma hexDigit?_digitChar {digit : ℕ} (small : digit < 16) :
    Number.hexDigit? digit.digitChar = some digit := by
  revert digit
  decide

lemma padded_toDigits_sixteen {number : ℕ} (small : number < 65536) :
    Number.padded 4 (Nat.toDigits 16 number) =
      [number / 4096, number / 256 % 16, number / 16 % 16, number % 16].map Nat.digitChar := by
  have one {digit : ℕ} (least : digit < 16) : Nat.toDigits 16 digit = [digit.digitChar] :=
    Nat.toDigits_of_lt_base least
  have more {rest : ℕ} (further : 16 <= rest) :
      Nat.toDigits 16 rest = Nat.toDigits 16 (rest / 16) ++ [(rest % 16).digitChar] :=
    Nat.toDigits_of_base_le (by norm_num) further
  have twice : number / 16 / 16 = number / 256 := by omega
  have thrice : number / 256 / 16 = number / 4096 := by omega
  by_cases first : number < 16
  · have zeros : number / 4096 = 0 ∧ number / 256 % 16 = 0 ∧ number / 16 % 16 = 0 ∧
        number % 16 = number := by omega
    rw [one first, zeros.1, zeros.2.1, zeros.2.2.1, zeros.2.2.2]
    rfl
  · rw [more (by omega)]
    by_cases second : number / 16 < 16
    · have zeros : number / 4096 = 0 ∧ number / 256 % 16 = 0 ∧
          number / 16 % 16 = number / 16 := by omega
      rw [one second, zeros.1, zeros.2.1, zeros.2.2]
      rfl
    · rw [more (by omega), twice]
      by_cases third : number / 256 < 16
      · have zeros : number / 4096 = 0 ∧ number / 256 % 16 = number / 256 := by omega
        rw [one third, zeros.1, zeros.2]
        rfl
      · rw [more (by omega), thrice, one (by omega)]
        rfl

variable {value first : Char} {token : Token} {parts : List String} {rows : List (List Token)}

/-- An escape by number stands for the number. -/
lemma textBody_numbered (small : value.toNat < 65536) (codes : List ℕ) (count : ℕ)
    (rest : List Char) : textBody codes count ((numbered value).toList ++ rest) =
      textBody (value.toNat :: codes) (count + (numbered value).toList.length) rest := by
  have text : (numbered value).toList = '\\' :: 'u' :: [value.toNat / 4096,
      value.toNat / 256 % 16, value.toNat / 16 % 16, value.toNat % 16].map Nat.digitChar := by
    simp only [numbered, Number.hex, String.toList_append, String.toList_ofList,
      padded_toDigits_sixteen small]
    rfl
  have digits : [(value.toNat / 4096).digitChar, (value.toNat / 256 % 16).digitChar,
      (value.toNat / 16 % 16).digitChar, (value.toNat % 16).digitChar].mapM Number.hexDigit? =
        some [value.toNat / 4096, value.toNat / 256 % 16, value.toNat / 16 % 16,
          value.toNat % 16] := by
    have first : value.toNat / 4096 < 16 := by omega
    simp only [mapM_cons, mapM_nil, hexDigit?_digitChar first,
      hexDigit?_digitChar (Nat.mod_lt _ (by norm_num : 16 > 0))]
    rfl
  have number : 16 * (16 * (16 * (16 * 0 + value.toNat / 4096) + value.toNat / 256 % 16) +
      value.toNat / 16 % 16) + value.toNat % 16 = value.toNat := by omega
  rw [text]
  simp only [map_cons, map_nil, cons_append, nil_append]
  rw [textBody]
  simp only [digits, foldl_cons, foldl_nil, number, length_cons, length_nil]

lemma textBody_plain (notQuote : value ≠ '"') (notEscape : value ≠ '\\')
    (printable : ¬ value.toNat < 0x20) (codes : List ℕ) (count : ℕ) (rest : List Char) :
    textBody codes count (value :: rest) = textBody (value.toNat :: codes) (count + 1) rest := by
  conv_lhs => unfold textBody
  split
  · next same =>
    exact absurd (List.cons.inj same).1 notQuote
  · next same =>
    exact absurd (List.cons.inj same).1 notEscape
  · next same =>
    exact absurd (List.cons.inj same).1 notEscape
  · next same =>
    exact absurd (List.cons.inj same).1 notEscape
  · next same =>
    exact absurd (List.cons.inj same).1 notEscape
  · next same =>
    cases same
    rw [if_neg printable]
  · next same => cases same

/-- A written unit of a text is read as its character, or as a replacement mark. -/
lemma textBody_escapeGlyph (glyph : Text.Glyph) (codes : List ℕ) (count : ℕ) (rest : List Char) :
    textBody codes count ((escapeGlyph glyph).toList ++ rest) =
      textBody (glyph.shown.toNat :: codes) (count + (escapeGlyph glyph).toList.length) rest := by
  cases glyph with
  | stray byte => exact textBody_numbered (by decide) codes count rest
  | char value =>
    change textBody codes count ((escapeChar value).toList ++ rest) =
      textBody (value.toNat :: codes) (count + (escapeChar value).toList.length) rest
    unfold escapeChar
    split
    · rfl
    · rfl
    · rfl
    · rfl
    · rfl
    · exact textBody_numbered (by decide) codes count rest
    · exact textBody_numbered (by decide) codes count rest
    · exact textBody_numbered (by decide) codes count rest
    · next notQuote notEscape _ _ _ _ _ _ =>
      split
      · next isBackspace =>
        rw [isBackspace]
        rfl
      · split
        · next isFeed =>
          rw [isFeed]
          rfl
        · split
          · next numberedOnly => exact textBody_numbered (by omega) codes count rest
          · next plain =>
            rw [not_or] at plain
            rw [String.toList_ofList]
            exact textBody_plain notQuote notEscape plain.1 codes count rest

lemma textBody_escaped (glyphs : List Text.Glyph) (codes : List ℕ) (count : ℕ) (rest : List Char) :
    textBody codes count (glyphs.flatMap (fun glyph => (escapeGlyph glyph).toList) ++ '"' :: rest) =
      .ok (codes.reverse ++ glyphs.map (fun glyph => glyph.shown.toNat),
        count + (glyphs.flatMap fun glyph => (escapeGlyph glyph).toList).length + 1) := by
  induction glyphs generalizing codes count with
  | nil =>
    rw [flatMap_nil, map_nil, append_nil]
    rfl
  | cons glyph glyphs ih =>
    rw [flatMap_cons, List.append_assoc, textBody_escapeGlyph, ih, reverse_cons,
      List.append_assoc, map_cons, length_append, Nat.add_assoc count]
    rfl

/-- Characters have no halves of pairs among their numbers. -/
lemma not_isHalf (value : Char) :
    isHighHalf value.toNat = false ∧ isLowHalf value.toNat = false := by
  have valid : value.toNat < 0xD800 ∨ 0xDFFF < value.toNat ∧ value.toNat < 0x110000 := value.valid
  simp only [isHighHalf, isLowHalf, Bool.and_eq_false_iff, decide_eq_false_iff_not]
  omega

lemma joinHalves_toNat (chars : List Char) : joinHalves (chars.map Char.toNat) = chars := by
  induction chars with
  | nil => rfl
  | cons value rest ih =>
    have whole := not_isHalf value
    cases rest with
    | nil =>
      rw [map_cons, map_nil, joinHalves, whole.1, whole.2, Bool.or_self,
        if_neg Bool.false_ne_true, Char.ofNat_toNat]
    | cons next others =>
      rw [map_cons] at ih
      rw [map_cons, map_cons, joinHalves, whole.1, whole.2, Bool.false_and,
        Bool.or_self, if_neg Bool.false_ne_true, if_neg Bool.false_ne_true, Char.ofNat_toNat,
        ih]

/-- A text between quotes is scanned as the text. -/
lemma nextToken_quote (glyphs : List Text.Glyph) (rest : List Char) :
    ∃ body, (quote glyphs).toList = '"' :: body ∧
      nextToken '"' (body ++ rest) = .ok (.text (Text.toStringLossy glyphs), body.length) := by
  refine ⟨glyphs.flatMap (fun glyph => (escapeGlyph glyph).toList) ++ ['"'], ?_, ?_⟩
  · simp only [quote, String.toList_append, String.toList_join, flatMap_map]
    rfl
  · have scanned := textBody_escaped glyphs [] 0 rest
    rw [List.append_assoc, cons_append, nil_append]
    simp only [nextToken, scanned]
    have chars : glyphs.map (fun glyph => glyph.shown.toNat) =
        (glyphs.map Text.Glyph.shown).map Char.toNat := by
      rw [List.map_map]
      rfl
    rw [reverse_nil, nil_append, chars, Nat.zero_add, length_append]
    simp only [bind, Except.bind, pure, Except.pure, joinHalves_toNat]
    rfl

/-! ## Numbers -/

/-- A character that a number could go on with. -/
def continuesNumber (value : Char) : Bool :=
  value.isDigit || value == '.' || value == 'e' || value == 'E'

section
variable {rest : List Char}

lemma digitsPart_append {digits : List Char} (some : digits ≠ [])
    (isDigits : ∀ digit ∈ digits, digit.isDigit = true) (stops : Stops Char.isDigit rest) :
    digitsPart (digits ++ rest) = .ok digits := by
  cases digits with
  | nil => exact absurd rfl some
  | cons first others =>
    have front := takeWhile_front isDigits stops
    rw [cons_append] at front ⊢
    rw [digitsPart, if_pos (isDigits first mem_cons_self), front]

lemma stops_isDigit (stops : Stops continuesNumber rest) : Stops Char.isDigit rest := by
  refine stops.imp ?_
  intro value isDigit
  rw [continuesNumber, isDigit]
  rfl

variable {numeral : Numeral}

section
variable (stops : Stops continuesNumber rest)
include stops

lemma exponentPart_text (sound : numeral.Sound) :
    exponentPart (numeral.exponentText ++ rest) = .ok numeral.exponentText := by
  rw [Numeral.exponentText]
  cases found : numeral.exponent with
  | none =>
    cases rest with
    | nil => rfl
    | cons next behind =>
      rw [stops_cons_iff, continuesNumber, Bool.or_eq_false_iff, Bool.or_eq_false_iff] at stops
      have notMark : ¬ (next == 'e' || next == 'E') = true := by
        rw [stops.1.2, stops.2]
        exact Bool.false_ne_true
      change exponentPart (next :: behind) = .ok []
      unfold exponentPart
      exact if_neg notMark
  | some written =>
    rcases written with ⟨negative, digits⟩
    rcases sound.exponent _ found with ⟨nonempty, isDigits⟩
    have taken := digitsPart_append nonempty isDigits (stops_isDigit stops)
    cases negative with
    | true =>
      change ((digitsPart (digits ++ rest)).map fun read => 'e' :: '-' :: read) = _
      rw [taken]
      rfl
    | false =>
      change ((digitsPart (digits ++ rest)).map fun read => 'e' :: '+' :: read) = _
      rw [taken]
      rfl

lemma stops_exponentText_append (numeral : Numeral) :
    Stops (fun value => value.isDigit || value == '.') (numeral.exponentText ++ rest) := by
  rw [Numeral.exponentText]
  cases numeral.exponent with
  | none =>
    refine stops.imp ?_
    intro value continues
    rw [continuesNumber, continues]
    rfl
  | some written => rfl

lemma fractionPart_text (sound : numeral.Sound) :
    fractionPart (numeral.fractionText ++ (numeral.exponentText ++ rest)) =
      .ok numeral.fractionText := by
  have behind := stops_exponentText_append stops numeral
  have stopsDigits : Stops Char.isDigit (numeral.exponentText ++ rest) :=
    behind.imp fun value isDigit => by
      rw [isDigit]
      rfl
  rw [Numeral.fractionText]
  cases found : numeral.fraction with
  | nil =>
    generalize numeral.exponentText ++ rest = further at behind
    cases further with
    | nil => rfl
    | cons next others =>
      rw [stops_cons_iff, Bool.or_eq_false_iff, beq_eq_false_iff_ne] at behind
      change fractionPart (next :: others) = .ok []
      unfold fractionPart
      split
      · next same => exact absurd (List.cons.inj same).1 behind.2
      · rfl
  | cons digit others =>
    have isDigits := sound.fraction
    rw [found] at isDigits
    have taken := digitsPart_append (cons_ne_nil digit others) isDigits stopsDigits
    change ((digitsPart (digit :: others ++ (numeral.exponentText ++ rest))).map ('.' :: ·)) = _
    rw [taken]
    rfl

lemma stops_fractionText_append (numeral : Numeral) :
    Stops Char.isDigit (numeral.fractionText ++ (numeral.exponentText ++ rest)) := by
  rw [Numeral.fractionText]
  split
  · exact (stops_exponentText_append stops numeral).imp fun value isDigit => by
      rw [isDigit]
      rfl
  · rfl

lemma unsignedNumber_text (sound : numeral.Sound) :
    unsignedNumber (numeral.text ++ rest) = .ok numeral.text := by
  have source : numeral.text ++ rest =
      numeral.whole ++ (numeral.fractionText ++ (numeral.exponentText ++ rest)) := by
    rw [Numeral.text, List.append_assoc, List.append_assoc]
  have fraction := fractionPart_text stops sound
  have exponent := exponentPart_text stops sound
  have behindWhole : (numeral.text ++ rest).drop numeral.whole.length =
      numeral.fractionText ++ (numeral.exponentText ++ rest) := by
    rw [source, drop_left]
  have behindFraction :
      (numeral.text ++ rest).drop (numeral.whole.length + numeral.fractionText.length) =
        numeral.exponentText ++ rest := by
    rw [← drop_drop, behindWhole, drop_left]
  have behindAll : numeral.whole ++ numeral.fractionText ++ numeral.exponentText =
      numeral.text := by
    rw [Numeral.text, List.append_assoc]
  unfold unsignedNumber
  split
  · -- A zero stands alone.
    next tail isZero =>
    have zero : numeral.whole = ['0'] := by
      rcases sound.start with zero | ⟨first, others, isWhole, notZero⟩
      · exact zero
      · rw [source, isWhole] at isZero
        exact absurd (List.cons.inj isZero).1 notZero
    rw [← zero]
    simp only [bind, Except.bind, pure, Except.pure, behindWhole, fraction, behindFraction,
      exponent, behindAll]
  · next notZero =>
    have nonempty : numeral.whole ≠ [] := by
      rcases sound.start with zero | ⟨first, others, isWhole, _⟩
      · rw [zero]
        exact cons_ne_nil _ _
      · rw [isWhole]
        exact cons_ne_nil _ _
    have whole := digitsPart_append nonempty sound.whole (stops_fractionText_append stops numeral)
    rw [← source] at whole
    simp only [bind, Except.bind, pure, Except.pure, whole, behindWhole, fraction, behindFraction,
      exponent, behindAll]

lemma nextToken_signed (sound : numeral.Sound) (negative : Bool) :
    ∃ first body, numeral.signed negative = first :: body ∧ isSpace first = false ∧
      nextToken first (body ++ rest) = .ok (.number (numeral.signed negative), body.length) := by
  have unsigned := unsignedNumber_text stops sound
  cases negative with
  | true =>
    refine ⟨'-', numeral.text, rfl, rfl, ?_⟩
    simp only [nextToken, unsigned, bind, Except.bind, pure, Except.pure]
    rfl
  | false =>
    rcases sound.exists_cons with ⟨first, body, same, isDigit⟩
    rw [same, cons_append] at unsigned
    have notSpace : isSpace first = false := by
      rw [Bool.eq_false_iff]
      intro space
      simp only [isSpace, Bool.or_eq_true, beq_iff_eq] at space
      rcases space with ((rfl | rfl) | rfl) | rfl <;> cases isDigit
    refine ⟨first, body, same, notSpace, ?_⟩
    unfold nextToken
    split
    iterate 11 cases isDigit
    · rw [if_pos isDigit, unsigned]
      change Except.ok (Token.number (first :: body), (first :: body).length - 1) = _
      rw [Numeral.signed, if_neg Bool.false_ne_true, same]
      rfl

end

end

/-! ## Values -/

section
variable {seen : List Token} {rest : List Char}

lemma scanOnto_token {body : List Char} (notSpace : isSpace first = false)
    (found : nextToken first (body ++ rest) = .ok (token, body.length)) :
    scanOnto seen (first :: body ++ rest) = scanOnto (token :: seen) rest := by
  rw [cons_append, scanOnto, notSpace, if_neg Bool.false_ne_true, found]
  change scanOnto (token :: seen) ((body ++ rest).drop body.length) = scanOnto (token :: seen) rest
  rw [drop_left]

/-- The character is a token of its own, whatever follows it. -/
structure IsMark (first : Char) (token : Token) : Prop where
  notSpace : isSpace first = false
  found : ∀ rest, nextToken first rest = .ok (token, 0)

lemma IsMark.scanOnto (mark : IsMark first token) :
    scanOnto seen (first :: rest) = Json.scanOnto (token :: seen) rest := by
  rw [Json.scanOnto, mark.notSpace, if_neg Bool.false_ne_true, mark.found]
  rfl

lemma scanOnto_space (space : isSpace first = true) :
    scanOnto seen (first :: rest) = scanOnto seen rest := by
  rw [scanOnto, if_pos space]

lemma scanOnto_newline (depth : ℕ) :
    scanOnto seen ((newline depth).toList ++ rest) = scanOnto seen rest := by
  have blanks (count : ℕ) :
      scanOnto seen (replicate count ' ' ++ rest) = scanOnto seen rest := by
    induction count with
    | zero => rfl
    | succ count ih => rw [replicate_succ, cons_append, scanOnto_space rfl, ih]
  simp only [newline, String.toList_append, String.toList_ofList]
  change scanOnto seen ('\n' :: (replicate (2 * depth) ' ' ++ rest)) = _
  rw [scanOnto_space rfl, blanks]

end

/-- The text is scanned as the tokens wherever what follows does not go on with a
number. -/
def Scans (text : List Char) (tokens : List Token) : Prop :=
  ∀ seen rest, Stops continuesNumber rest ->
    scanOnto seen (text ++ rest) = scanOnto (tokens.reverse ++ seen) rest

lemma scans_nil : Scans [] [] :=
  fun _ _ _ => rfl

lemma scans_signed {numeral : Numeral} (sound : numeral.Sound) (negative : Bool) :
    Scans (numeral.signed negative) [.number (numeral.signed negative)] := by
  intro seen rest stops
  rcases nextToken_signed stops sound negative with ⟨first, body, same, notSpace, found⟩
  rw [same] at found ⊢
  exact scanOnto_token notSpace found

lemma scans_quote (glyphs : List Text.Glyph) :
    Scans (quote glyphs).toList [.text (Text.toStringLossy glyphs)] := by
  intro seen rest _
  rcases nextToken_quote glyphs rest with ⟨body, same, found⟩
  rw [same]
  exact scanOnto_token rfl found

lemma toStringLossy_ofString (text : String) : Text.toStringLossy (Text.ofString text) = text := by
  rw [Text.toStringLossy, Text.ofString, List.map_map]
  change String.ofList (text.toList.map id) = text
  rw [map_id, String.ofList_toList]

lemma scans_quoteString (text : String) : Scans (quoteString text).toList [.text text] := by
  have scanned := scans_quote (Text.ofString text)
  rw [toStringLossy_ofString] at scanned
  exact scanned

mutual

/-- The tokens that a written value consists of. -/
def tokensOf : Value -> List Token
  | .null => [.null]
  | .bool value => [.bool value]
  | .int value => [.number (toString value).toList]
  | .double value => [.number (doubleLayout.write value).toList]
  | .text value => [.text (Text.toStringLossy value)]
  | .time value => [.text value]
  | .list items => .openList :: (intercalate [.comma] (itemTokens items) ++ [.closeList])
  | .record members =>
    .openRecord :: (intercalate [.comma] (memberTokens members) ++ [.closeRecord])
  | .table _ => [.null]

def itemTokens : List Value -> List (List Token)
  | [] => []
  | item :: rest => tokensOf item :: itemTokens rest

def memberTokens : List (String × Value) -> List (List Token)
  | [] => []
  | (name, value) :: rest => (.text name :: .colon :: tokensOf value) :: memberTokens rest

end

/-- Parts that are scanned one by one. -/
abbrev ScansEach (parts : List String) (rows : List (List Token)) : Prop :=
  List.Forall₂ (fun part row => Scans part.toList row) parts rows

/-- The text is scanned as a comma, whatever follows it. -/
structure IsComma (separator : String) : Prop where
  stops : ∀ rest, Stops continuesNumber (separator.toList ++ rest)
  scanned : ∀ seen rest,
    scanOnto seen (separator.toList ++ rest) = scanOnto (.comma :: seen) rest

lemma scanOnto_comma (seen : List Token) (rest : List Char) :
    scanOnto seen (',' :: rest) = scanOnto (.comma :: seen) rest :=
  IsMark.scanOnto ⟨rfl, fun _ => rfl⟩

lemma isComma_comma : IsComma "," :=
  ⟨fun _ => stops_cons_iff.2 rfl, scanOnto_comma⟩

lemma isComma_newline (depth : ℕ) : IsComma ("," ++ newline depth) := by
  refine ⟨fun rest => ?_, fun seen rest => ?_⟩ <;> rw [String.toList_append, List.append_assoc]
  · exact stops_cons_iff.2 rfl
  · exact (scanOnto_comma _ _).trans (scanOnto_newline depth)

lemma stops_newline (depth : ℕ) (rest : List Char) :
    Stops continuesNumber ((newline depth).toList ++ rest) := by
  simp only [newline, String.toList_append, String.toList_ofList]
  exact stops_cons_iff.2 rfl

lemma scans_separated {separator : String} (isComma : IsComma separator)
    (each : ScansEach parts rows) :
    Scans (String.intercalate separator parts).toList (intercalate [.comma] rows) := by
  induction each with
  | nil => exact scans_nil
  | @cons part row parts rows first others ih =>
    cases others with
    | nil =>
      intro seen rest stops
      rw [String.intercalate_singleton, intercalate_singleton]
      exact first seen rest stops
    | @cons next nextRow more moreRows second further =>
      intro seen rest stops
      rw [String.intercalate_cons_cons, intercalate_cons_cons]
      simp only [String.toList_append, List.append_assoc]
      rw [first _ _ (isComma.stops _), isComma.scanned, ih _ _ stops]
      simp

section
variable {opening closing : String} {last : Char} {openToken closeToken : Token}

/-- Brackets around parts are scanned as the bracket, the parts with commas between
them, and the other bracket. -/
lemma scans_bracketed (opens : opening.toList = [first]) (closes : closing.toList = [last])
    (openMark : IsMark first openToken) (closeMark : IsMark last closeToken)
    (stops : ∀ rest, Stops continuesNumber (last :: rest)) (each : ScansEach parts rows) :
    Scans (opening ++ String.intercalate "," parts ++ closing).toList
      (openToken :: (intercalate [.comma] rows ++ [closeToken])) := by
  intro seen rest _
  simp only [String.toList_append, opens, closes, List.append_assoc, cons_append,
    nil_append]
  rw [openMark.scanOnto, scans_separated isComma_comma each _ _ (stops rest), closeMark.scanOnto]
  simp

/-- The same with every part on a line of its own. -/
lemma scans_block (depth : ℕ) (opens : opening.toList = [first])
    (closes : closing.toList = [last]) (openMark : IsMark first openToken)
    (closeMark : IsMark last closeToken) (each : ScansEach parts rows) :
    Scans (block opening closing depth parts).toList
      (openToken :: (intercalate [.comma] rows ++ [closeToken])) := by
  intro seen rest _
  rw [block]
  cases each with
  | nil =>
    rw [isEmpty_nil, if_pos rfl, String.toList_append, opens, closes]
    change scanOnto seen (first :: last :: rest) = _
    rw [openMark.scanOnto, closeMark.scanOnto]
    rfl
  | @cons part row parts rows here others =>
    rw [isEmpty_cons, if_neg Bool.false_ne_true]
    simp only [String.toList_append, opens, closes, List.append_assoc, cons_append,
      nil_append]
    rw [openMark.scanOnto, scanOnto_newline,
      scans_separated (isComma_newline _) (.cons here others) _ _ (stops_newline _ _),
      scanOnto_newline, closeMark.scanOnto]
    simp

end

lemma scans_word {expected : List Char} (notSpace : isSpace first = false)
    (found : ∀ rest, nextToken first rest = word token expected rest) :
    Scans (first :: expected) [token] := by
  intro seen rest _
  refine scanOnto_token notSpace ?_
  have begins : expected.isPrefixOf (expected ++ rest) = true :=
    List.isPrefixOf_iff_prefix.2 (prefix_append _ _)
  rw [found, word, if_pos begins]

lemma scans_member {name : String} {text : List Char} {tokens : List Token}
    (scans : Scans text tokens) :
    Scans ((quoteString name).toList ++ ':' :: text) (.text name :: .colon :: tokens) := by
  intro seen rest stops
  have colon : IsMark ':' .colon := ⟨rfl, fun _ => rfl⟩
  rw [List.append_assoc, cons_append, scans_quoteString name _ _ (stops_cons_iff.2 rfl),
    colon.scanOnto, scans _ _ stops]
  simp

mutual

lemma scans_compact :
    ∀ {value : Value}, isWritable value = true -> Scans (compact value).toList (tokensOf value)
  | .null, _ => by
    change Scans "null".toList [.null]
    rw [String.toList_ofList]
    exact scans_word rfl fun _ => rfl
  | .bool true, _ => by
    change Scans "true".toList [.bool true]
    rw [String.toList_ofList]
    exact scans_word rfl fun _ => rfl
  | .bool false, _ => by
    change Scans "false".toList [.bool false]
    rw [String.toList_ofList]
    exact scans_word rfl fun _ => rfl
  | .int value, _ => by
    change Scans (toString value).toList [.number (toString value).toList]
    rw [Number.toList_toString_eq_signed]
    exact scans_signed (Number.Numeral.sound_ofNat _) _
  | .double value, finite => by
    change Scans (doubleLayout.write value).toList [.number (doubleLayout.write value).toList]
    rcases doubleLayout.exists_numeral finite with ⟨numeral, sound, same, -⟩
    rw [same]
    exact scans_signed sound _
  | .text value, _ => scans_quote value
  | .time value, _ => scans_quoteString value
  | .list items, writable =>
    scans_bracketed rfl rfl ⟨rfl, fun _ => rfl⟩ ⟨rfl, fun _ => rfl⟩
      (fun _ => stops_cons_iff.2 rfl) (scansEach_compactItems writable)
  | .record members, writable =>
    scans_bracketed rfl rfl ⟨rfl, fun _ => rfl⟩ ⟨rfl, fun _ => rfl⟩
      (fun _ => stops_cons_iff.2 rfl) (scansEach_compactMembers writable)

lemma scansEach_compactItems :
    ∀ {items : List Value}, areWritable items = true ->
      ScansEach (compactItems items) (itemTokens items)
  | [], _ => .nil
  | _ :: _, writable =>
    have both := (Bool.and_eq_true_iff).1 writable
    .cons (scans_compact both.1) (scansEach_compactItems both.2)

lemma scansEach_compactMembers :
    ∀ {members : List (String × Value)}, membersAreWritable members = true ->
      ScansEach (compactMembers members) (memberTokens members)
  | [], _ => .nil
  | (name, value) :: _, writable => by
    have both := (Bool.and_eq_true_iff).1 writable
    refine .cons ?_ (scansEach_compactMembers both.2)
    simp only [String.toList_append, List.append_assoc]
    exact scans_member (scans_compact both.1)

end

mutual

lemma scans_indented (depth : ℕ) :
    ∀ {value : Value}, isWritable value = true ->
      Scans (indented depth value).toList (tokensOf value)
  | .null, writable => scans_compact writable
  | .bool _, writable => scans_compact writable
  | .int _, writable => scans_compact writable
  | .double _, writable => scans_compact writable
  | .text _, writable => scans_compact writable
  | .time _, writable => scans_compact writable
  | .list items, writable => by
    refine scans_block depth rfl rfl ⟨rfl, fun _ => rfl⟩ ⟨rfl, fun _ => rfl⟩ ?_
    exact scansEach_items (depth + 1) writable
  | .record members, writable => by
    refine scans_block depth rfl rfl ⟨rfl, fun _ => rfl⟩ ⟨rfl, fun _ => rfl⟩ ?_
    exact scansEach_members (depth + 1) writable

lemma scansEach_items (depth : ℕ) :
    ∀ {items : List Value}, areWritable items = true ->
      ScansEach (indentedItems depth items) (itemTokens items)
  | [], _ => .nil
  | _ :: _, writable =>
    have both := (Bool.and_eq_true_iff).1 writable
    .cons (scans_indented depth both.1) (scansEach_items depth both.2)

lemma scansEach_members (depth : ℕ) :
    ∀ {members : List (String × Value)}, membersAreWritable members = true ->
      ScansEach (indentedMembers depth members) (memberTokens members)
  | [], _ => .nil
  | (name, value) :: _, writable => by
    have both := (Bool.and_eq_true_iff).1 writable
    have spaced : Scans (' ' :: (indented depth value).toList) (tokensOf value) := by
      intro seen rest stops
      rw [cons_append, scanOnto_space rfl, scans_indented depth both.1 _ _ stops]
    refine .cons ?_ (scansEach_members depth both.2)
    simp only [String.toList_append, List.append_assoc]
    exact scans_member spaced

end

end Json
end MessageSchema.Data
