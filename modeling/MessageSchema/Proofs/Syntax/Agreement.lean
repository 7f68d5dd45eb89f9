import MessageSchema.Proofs.Syntax.Inversion
import MessageSchema.Proofs.Syntax.Literals

namespace MessageSchema

/-!
Readers do not look at places.

Given tokens that differ in their places only, a reader succeeds with the same
value, or fails with errors of the same number and message.  The spans of these
errors reach from one token to the same or a later one, and all of them lie in the
source.
-/

/-- What is wrong with a field or an item as it is written.  Other errors guard against
definitions that are put together wrongly. -/
def DefinitionError.inSource : DefinitionError -> Bool
  | .requiredAndOptional | .mutableAndReadonly | .repeatedUnsupported | .defaultMismatch _ _ _
  | .boundNotPositive _ _ | .fieldNameEmpty | .enumOverflow _ _ => true
  | _ => false

namespace Syntax

/-- The tokens of a source that a reader is given, and the empty token behind them. -/
structure Row where
  tokens : List Token
  final : Token
  worded : Worded (final :: tokens)

def Row.all (row : Row) : List Token :=
  row.final :: row.tokens

/-- Tokens that differ in their places only, the first ones from the end of a row. -/
structure Alike (row : Row) (tokens others : List Token) : Prop where
  lexemes : tokens.map Token.lexeme = others.map Token.lexeme
  suffix : tokens <:+ row.tokens

variable {other token : Token} {row : Row}

lemma Token.kind_eq (same : token.lexeme = other.lexeme) : token.kind = other.kind :=
  congrArg Lexeme.kind same

lemma Token.text_eq (same : token.lexeme = other.lexeme) : token.text = other.text :=
  congrArg Lexeme.text same

/-- The first tokens of lists that are alike, and what is behind them. -/
inductive Alike.Parts (row : Row) : List Token -> List Token -> Prop
  | nil : Parts row [] []
  | cons {token other : Token} {rest further : List Token} (same : token.lexeme = other.lexeme)
      (member : token ∈ row.all) (alike : Alike row rest further) :
      Parts row (token :: rest) (other :: further)

lemma Alike.parts {tokens others : List Token} (alike : Alike row tokens others) :
    Alike.Parts row tokens others := by
  rcases alike with ⟨lexemes, suffix⟩
  cases tokens with
  | nil =>
    cases List.map_eq_nil_iff.mp lexemes.symm
    exact .nil
  | cons token rest =>
    cases others with
    | nil => cases lexemes
    | cons other further =>
      rcases List.cons.inj lexemes with ⟨same, lexemes⟩
      exact .cons same (List.mem_cons_of_mem _ (suffix.mem List.mem_cons_self))
        ⟨lexemes, (List.suffix_cons token rest).trans suffix⟩

/-- The token at the start of a source. -/
def Token.unplaced (token : Token) : Token :=
  { token with start := 0 }

/-- The fault without the place of the token that was found. -/
def Fault.unplaced : Fault -> Fault
  | expectedSigil sigil found => expectedSigil sigil found.unplaced
  | expectedInt found => expectedInt found.unplaced
  | expectedLiteral found => expectedLiteral found.unplaced
  | expectedWord found => expectedWord found.unplaced
  | expectedDeclaration found => expectedDeclaration found.unplaced
  | expectedMessage found => expectedMessage found.unplaced
  | expectedDefault found => expectedDefault found.unplaced
  | intOutOfRange found => intOutOfRange found.unplaced
  | expectedType found => expectedType found.unplaced
  | textLiteralInvalid found => textLiteralInvalid found.unplaced
  | fault => fault

lemma Fault.code_unplaced (fault : Fault) : fault.unplaced.code = fault.code := by
  cases fault with
  | expectedSigil sigil found => cases sigil <;> rfl
  | _ => rfl

lemma Fault.message_unplaced (fault : Fault) : fault.unplaced.message = fault.message := by
  cases fault <;> rfl

lemma Token.unplaced_of_lexeme (same : token.lexeme = other.lexeme) :
    token.unplaced = other.unplaced := by
  cases token
  cases other
  cases same
  rfl

def Fault.inSource (fault : Fault) : Bool :=
  fault.cause?.all DefinitionError.inSource

lemma Fault.blame_of_inSource {fault : Fault} (inSource : fault.inSource = true) :
    fault.blame = .semantic := by
  rw [Fault.inSource] at inSource
  rw [Fault.blame]
  split
  · next cause isCause =>
    rw [isCause, Option.all_some] at inSource
    cases cause <;> first | rfl | cases inSource
  · rfl

/-- Faults that say the same, and that lie in the source. -/
structure Fault.Accords (fault other : Fault) : Prop where
  same : fault.unplaced = other.unplaced
  inSource : fault.inSource = true

lemma Fault.Accords.code {fault other : Fault} (accords : fault.Accords other) :
    fault.code = other.code := by
  rw [← fault.code_unplaced, accords.same, other.code_unplaced]

lemma Fault.Accords.message {fault other : Fault} (accords : fault.Accords other) :
    fault.message = other.message := by
  rw [← fault.message_unplaced, accords.same, other.message_unplaced]

lemma Fault.Accords.refl {fault : Fault} (inSource : fault.inSource = true) : fault.Accords fault :=
  ⟨rfl, inSource⟩

/-- A fault about a token that was found. -/
structure AboutToken (fault : Token -> Fault) : Prop where
  unplaced : ∀ token, (fault token).unplaced = fault token.unplaced
  inSource : ∀ token, (fault token).inSource = true

/-- The span of a token of the row, or the stretch from one token to a later one. -/
inductive Spans (row : Row) : Span -> Prop
  | token {token : Token} (member : token ∈ row.all) : Spans row token.span
  | stretch {first last : Token} {rest later : List Token} (starts : first :: rest <:+ row.tokens)
      (ends : last :: later <:+ first :: rest) :
      Spans row ⟨first.start, last.span.stop - first.start⟩

/-- Errors that say the same, the first of them about a stretch of the row. -/
structure Error.Accords (row : Row) (error other : Error) : Prop where
  fault : error.fault.Accords other.fault
  spans : Spans row error.span

lemma AboutToken.accords {fault : Token -> Fault} (about : AboutToken fault)
    (same : token.lexeme = other.lexeme) (member : token ∈ row.all) :
    Error.Accords row ⟨fault token, token.span⟩ ⟨fault other, other.span⟩ where
  fault :=
    ⟨by rw [about.unplaced, about.unplaced, Token.unplaced_of_lexeme same], about.inSource token⟩
  spans := .token member

/-- Two results that are the same but for the places of tokens. -/
inductive Agrees {α β : Type} (row : Row) (same : α -> β -> Prop) :
    Except Error α -> Except Error β -> Prop
  | ok {value : α} {other : β} (equal : same value other) : Agrees row same (.ok value) (.ok other)
  | error {error other : Error} (accords : error.Accords row other) :
      Agrees row same (.error error) (.error other)

/-- The same value, and tokens alike behind it. -/
def SameRead {α : Type} (row : Row) (left right : α × List Token) : Prop :=
  left.1 = right.1 ∧ Alike row left.2 right.2

abbrev ReadsAlike {α : Type} (row : Row) (left right : Except Error (α × List Token)) : Prop :=
  Agrees row (SameRead row) left right

@[elab_as_elim]
lemma Agrees.elim {α β : Type} {same : α -> β -> Prop}
    {motive : Except Error α -> Except Error β -> Prop} {left : Except Error α}
    {right : Except Error β} (agrees : Agrees row same left right)
    (ok : ∀ value other, same value other -> motive (.ok value) (.ok other))
    (error : ∀ error other, error.Accords row other ->
      motive (.error error) (.error other)) : motive left right := by
  cases agrees with
  | ok equal => exact ok _ _ equal
  | error accords => exact error _ _ accords

lemma Agrees.bind {α β γ δ : Type} {same : α -> β -> Prop} {equal : γ -> δ -> Prop}
    {left : Except Error α} {right : Except Error β} (agrees : Agrees row same left right)
    {next : α -> Except Error γ} {further : β -> Except Error δ}
    (step : ∀ value other, left = .ok value -> right = .ok other -> same value other ->
      Agrees row equal (next value) (further other)) :
    Agrees row equal (left.bind next) (right.bind further) := by
  cases agrees with
  | ok equal => exact step _ _ rfl rfl equal
  | error accords => exact .error accords

/-- What is made of the value alone is the same too. -/
lemma Agrees.along {α β : Type} {left right : Except Error (α × List Token)}
    (agrees : ReadsAlike row left right) (change : α -> β) :
    ReadsAlike row (left.bind fun read => .ok (change read.1, read.2))
      (right.bind fun read => .ok (change read.1, read.2)) := by
  apply agrees.bind
  rintro ⟨value, rest⟩ ⟨_, further⟩ - - ⟨rfl, alike⟩
  exact .ok ⟨rfl, alike⟩

/-- Something was found in both lists of tokens or in neither. -/
def FoundAlike (row : Row) (left right : Option (List Token)) : Prop :=
  (∃ rest further, left = some rest ∧ right = some further ∧ Alike row rest further) ∨
    (left = none ∧ right = none)

@[elab_as_elim]
lemma FoundAlike.elim {motive : Option (List Token) -> Option (List Token) -> Prop}
    {left right : Option (List Token)} (found : FoundAlike row left right)
    (some : ∀ rest further, Alike row rest further -> motive (some rest) (some further))
    (none : motive none none) : motive left right := by
  rcases found with ⟨rest, further, rfl, rfl, alike⟩ | ⟨rfl, rfl⟩
  · exact some rest further alike
  · exact none

/-- The token behind the tokens of a row, and that of a row alike. -/
structure Finals (row : Row) (final last : Token) : Prop where
  same : final.lexeme = last.lexeme
  member : final ∈ row.all

variable {others tokens : List Token} {cause : DefinitionError}

/-! ## What needs no token behind the others -/

lemma isKeyword_of_lexeme (same : token.lexeme = other.lexeme) (keyword : String) :
    token.isKeyword keyword = other.isKeyword keyword := by
  rw [Token.isKeyword, Token.isKeyword, Token.kind_eq same, Token.text_eq same]

lemma int32Value_of_lexeme (same : token.lexeme = other.lexeme) (member : token ∈ row.all) :
    Agrees row Eq (int32Value token) (int32Value other) := by
  have kind := Token.kind_eq same
  have value : readInt32? token = readInt32? other := by
    rw [readInt32?, readInt32?, kind, Token.text_eq same]
  have missing : AboutToken .expectedInt := ⟨fun _ => rfl, fun _ => rfl⟩
  have outside : AboutToken .intOutOfRange := ⟨fun _ => rfl, fun _ => rfl⟩
  simp only [int32Value, kind, value]
  split
  · split
    · exact .ok rfl
    · exact .error (outside.accords same member)
  · exact .error (missing.accords same member)

lemma literalValue_of_lexeme (same : token.lexeme = other.lexeme) (member : token ∈ row.all) :
    Agrees row Eq (literalValue token) (literalValue other) := by
  have text := Token.text_eq same
  have escapes : token.escapes = other.escapes := congrArg Lexeme.escapes same
  have missing : AboutToken .expectedLiteral := ⟨fun _ => rfl, fun _ => rfl⟩
  have invalid : AboutToken .textLiteralInvalid := ⟨fun _ => rfl, fun _ => rfl⟩
  have number : Agrees row Eq ((int32Value token).map Literal.int)
    ((int32Value other).map .int) := by
    refine (int32Value_of_lexeme same member).elim ?_ fun _ _ => .error
    rintro value _ rfl
    exact .ok rfl
  have textValue : textValue? token = textValue? other := by
    rw [textValue?, textValue?, text, escapes]
  simp only [literalValue, Token.kind_eq same, text, textValue, isKeyword_of_lexeme same]
  split
  · exact number
  · exact number
  · split
    · exact .ok rfl
    · exact .error ⟨.refl rfl, .token member⟩
  · split
    · exact .ok rfl
    · exact .error (invalid.accords same member)
  · split
    · exact .ok rfl
    · split
      · exact .ok rfl
      · exact .error (missing.accords same member)

lemma inSource_of_clean {modifiers : Modifiers} (failed : modifiers.clean = .error cause) :
    cause.inSource = true := by
  simp only [Modifiers.clean] at failed
  generalize (if modifiers.has .required = true then modifiers else modifiers.add .optional) =
    settled at failed
  split at failed
  · cases failed
    rfl
  · split at failed
    · cases failed
      rfl
    · split at failed
      · cases failed
        rfl
      · cases failed

/-- What is wrong with a field is a fault of the source. -/
lemma inSource_of_check {name : String} {accepts : Literal -> Bool} {typeText : String}
    {modifiers : Modifiers} {bounds : List Int} {default : Option Literal}
    (failed : Field.check name accepts typeText modifiers bounds default = .error cause) :
    cause.inSource = true := by
  unfold Field.check at failed
  split at failed
  · cases failed
    rfl
  · split at failed
    · next cleaned =>
      cases failed
      exact inSource_of_clean cleaned
    · split at failed
      · cases failed
        rfl
      · split at failed
        · cases failed
        · split at failed
          · cases failed
          · cases failed
            rfl

lemma inSource_of_make {parts : FieldParts} (failed : Field.make parts.name parts.type
      parts.modifiers parts.bounds parts.ordinal parts.default = .error cause) :
    cause.inSource = true := by
  unfold Field.make at failed
  split at failed
  · next checked =>
    cases failed
    exact inSource_of_check checked
  · cases failed

lemma inSource_of_nextValue {enum item : String} {items : List EnumItem}
    (failed : EnumItem.nextValue enum item items = .error cause) : cause.inSource = true := by
  unfold EnumItem.nextValue at failed
  split at failed
  · cases failed
  · split at failed
    · cases failed
      rfl
    · cases failed

section
variable (alike : Alike row tokens others)
include alike

lemma alike_afterSigil? (optional : Sigil) :
    FoundAlike row (afterSigil? optional tokens) (afterSigil? optional others) := by
  rcases alike.parts with _ | ⟨same, _, alikeRest⟩
  · exact .inr ⟨rfl, rfl⟩
  · simp only [afterSigil?, Token.kind_eq same]
    split
    · exact .inl ⟨_, _, rfl, rfl, alikeRest⟩
    · exact .inr ⟨rfl, rfl⟩

lemma alike_skipSigil (optional : Sigil) :
    Alike row (skipSigil optional tokens) (skipSigil optional others) := by
  unfold skipSigil
  exact (alike_afterSigil? alike optional).elim (fun _ _ alikeRest => alikeRest) alike

lemma alike_afterKeyword? (keyword : String) :
    FoundAlike row (afterKeyword? keyword tokens) (afterKeyword? keyword others) := by
  rcases alike.parts with _ | ⟨same, _, alikeRest⟩
  · exact .inr ⟨rfl, rfl⟩
  · simp only [afterKeyword?, isKeyword_of_lexeme same]
    split
    · exact .inl ⟨_, _, rfl, rfl, alikeRest⟩
    · exact .inr ⟨rfl, rfl⟩

lemma alike_readModifiers (modifiers : Modifiers) :
    SameRead row (readModifiers modifiers tokens) (readModifiers modifiers others) := by
  induction tokens generalizing others modifiers with
  | nil =>
    cases alike.parts
    exact ⟨rfl, alike⟩
  | cons token rest ih =>
    obtain _ | @⟨_, _, _, further, same, _, alikeRest⟩ := alike.parts
    have next : rest.head?.any (·.kind = .word) = further.head?.any (·.kind = .word) := by
      rcases alikeRest.parts with _ | ⟨same, _, _⟩
      · rfl
      · simp only [List.head?_cons, Option.any_some, Token.kind_eq same]
    simp only [readModifiers, Token.kind_eq same, Token.text_eq same, next]
    split
    · split
      · exact ih alikeRest _
      · exact ⟨rfl, alike⟩
    · exact ⟨rfl, alike⟩

lemma alike_afterSeparator? : FoundAlike row (afterSeparator? tokens) (afterSeparator? others) := by
  unfold afterSeparator?
  refine (alike_afterSigil? alike .comma).elim ?_ (alike_afterSigil? alike .semicolon)
  exact fun rest further alikeRest => .inl ⟨_, _, rfl, rfl, alikeRest⟩

end

section
variable {final last : Token} (finals : Finals row final last)
    (alike : Alike row tokens others)
include finals alike

lemma Alike.peek : (peek final tokens).lexeme = (Syntax.peek last others).lexeme ∧
      Syntax.peek final tokens ∈ row.all := by
  rcases alike.parts with _ | ⟨same, member, _⟩
  · exact ⟨finals.same, finals.member⟩
  · exact ⟨same, member⟩

lemma AboutToken.accords_unexpected {fault : Token -> Fault} (about : AboutToken fault) :
    (unexpected final fault tokens).Accords row (unexpected last fault others) :=
  about.accords (alike.peek finals).1 (alike.peek finals).2

/-! ## Small readers -/

lemma agrees_sigil (expected : Sigil) :
    Agrees row (Alike row) (sigil final expected tokens) (sigil last expected others) := by
  have about : AboutToken (.expectedSigil expected) := ⟨fun _ => rfl, fun _ => rfl⟩
  have accords := about.accords_unexpected finals alike
  rcases alike.parts with _ | ⟨same, _, alikeRest⟩
  · exact .error accords
  · simp only [sigil, Token.kind_eq same]
    split
    · exact .ok alikeRest
    · exact .error accords

lemma agrees_readWord : ReadsAlike row (readWord final tokens) (readWord last others) := by
  have about : AboutToken .expectedWord := ⟨fun _ => rfl, fun _ => rfl⟩
  have accords := about.accords_unexpected finals alike
  rcases alike.parts with _ | ⟨same, _, alikeRest⟩
  · exact .error accords
  · simp only [readWord, Token.kind_eq same, Token.text_eq same]
    split
    · exact .ok ⟨rfl, alikeRest⟩
    · exact .error accords

omit alike in
lemma agrees_readSegments {tokens others : List Token} (alike : Alike row tokens others) :
    ReadsAlike row (readSegments final tokens) (readSegments last others) := by
  rcases alike.parts with _ | ⟨same, _, alikeRest⟩
  · exact .ok ⟨rfl, alike⟩
  · rw [readSegments_cons, readSegments_cons, Token.kind_eq same]
    split
    · apply (agrees_readWord finals alikeRest).bind
      rintro ⟨name, rest⟩ ⟨_, further⟩ read - ⟨rfl, alikeRest⟩
      have shorter := length_of_readWord final read
      exact (agrees_readSegments alikeRest).along (name :: ·)
    · exact .ok ⟨rfl, alike⟩
termination_by tokens.length
decreasing_by
  subst_vars
  simp only [List.length_cons]
  omega

lemma agrees_readName : ReadsAlike row (readName final tokens) (readName last others) := by
  unfold readName
  refine (agrees_readWord finals alike).elim ?_ fun _ _ => .error
  rintro ⟨first, rest⟩ ⟨_, further⟩ ⟨rfl, alikeRest⟩
  dsimp only
  refine (agrees_readSegments finals alikeRest).elim ?_ fun _ _ => .error
  rintro ⟨segments, rest⟩ ⟨_, further⟩ ⟨rfl, alikeRest⟩
  exact .ok ⟨rfl, alikeRest⟩

lemma agrees_readInt : ReadsAlike row (readInt final tokens) (readInt last others) := by
  have about : AboutToken .expectedInt := ⟨fun _ => rfl, fun _ => rfl⟩
  rcases alike.parts with _ | ⟨same, member, alikeRest⟩
  · exact .error (about.accords finals.same finals.member)
  · simp only [readInt]
    refine (int32Value_of_lexeme same member).elim ?_ fun _ _ => .error
    rintro value _ rfl
    exact .ok ⟨rfl, alikeRest⟩

lemma agrees_readLiteral : ReadsAlike row (readLiteral final tokens) (readLiteral last others) := by
  have about : AboutToken .expectedLiteral := ⟨fun _ => rfl, fun _ => rfl⟩
  rcases alike.parts with _ | ⟨same, member, alikeRest⟩
  · exact .error (about.accords finals.same finals.member)
  · simp only [readLiteral]
    refine (literalValue_of_lexeme same member).elim ?_ fun _ _ => .error
    rintro value _ rfl
    exact .ok ⟨rfl, alikeRest⟩

omit alike in
lemma agrees_readParents {tokens others : List Token} (alike : Alike row tokens others) :
    ReadsAlike row (readParents final tokens) (readParents last others) := by
  rw [readParents_eq, readParents_eq]
  rcases alike_afterSigil? alike .comma with
    ⟨rest, further, comma, again, alikeRest⟩ | ⟨comma, again⟩
  case inr =>
    rw [comma, again]
    exact .ok ⟨rfl, alike⟩
  rw [comma, again]
  have afterComma := length_of_afterSigil? comma
  apply (agrees_readName finals alikeRest).bind
  rintro ⟨parent, rest⟩ ⟨_, further⟩ read - ⟨rfl, alikeRest⟩
  have afterName := length_of_readName final read
  exact (agrees_readParents alikeRest).along (parent :: ·)
termination_by tokens.length
decreasing_by
  dsimp only at *
  omega

lemma agrees_readExtends : ReadsAlike row (readExtends final tokens) (readExtends last others) := by
  unfold readExtends
  refine (alike_afterKeyword? alike "extends").elim ?_ (.ok ⟨rfl, alike⟩)
  intro rest further alikeRest
  dsimp only
  refine (agrees_readName finals alikeRest).elim ?_ fun _ _ => .error
  rintro ⟨parent, rest⟩ ⟨_, further⟩ ⟨rfl, alike⟩
  dsimp only
  refine (agrees_readParents finals alike).elim ?_ fun _ _ => .error
  rintro ⟨parents, rest⟩ ⟨_, further⟩ ⟨rfl, alike⟩
  exact .ok ⟨rfl, alike⟩

/-! ## Fields -/

lemma agrees_readType : ReadsAlike row (readType final tokens) (readType last others) := by
  have about : AboutToken .expectedType := ⟨fun _ => rfl, fun _ => rfl⟩
  have accords := about.accords_unexpected finals alike
  have named := agrees_readName finals alike
  rcases alike.parts with _ | ⟨same, member, alikeRest⟩
  · exact .error accords
  · have worded := row.worded _ member
    have again := worded
    rw [Token.kind_eq same, Token.text_eq same] at again
    rw [readType_cons _ _ worded, readType_cons _ _ again, Token.kind_eq same, Token.text_eq same]
    split
    · cases Primitive.ofKeyword? _ with
      | some primitive => exact .ok ⟨rfl, alikeRest⟩
      | none => exact named.along FieldType.user
    · exact .error accords

lemma agrees_readBound : ReadsAlike row (readBound final tokens) (readBound last others) := by
  unfold readBound
  refine (alike_afterSigil? alike .closeSquare).elim (fun _ _ alike => .ok ⟨rfl, alike⟩) ?_
  dsimp only
  refine (agrees_readInt finals alike).elim ?_ fun _ _ => .error
  rintro ⟨bound, rest⟩ ⟨_, further⟩ ⟨rfl, alike⟩
  dsimp only
  refine (agrees_sigil finals alike .closeSquare).elim ?_ fun _ _ => .error
  intro rest further alike
  exact .ok ⟨rfl, alike⟩

omit alike in
lemma agrees_readBounds {tokens others : List Token} (alike : Alike row tokens others) :
    ReadsAlike row (readBounds final tokens) (readBounds last others) := by
  rw [readBounds_eq, readBounds_eq]
  rcases alike_afterSigil? alike .openSquare with
    ⟨rest, further, mark, again, alikeRest⟩ | ⟨mark, again⟩
  case inr =>
    rw [mark, again]
    exact .ok ⟨rfl, alike⟩
  rw [mark, again]
  have afterMark := length_of_afterSigil? mark
  apply (agrees_readBound finals alikeRest).bind
  rintro ⟨bound, rest⟩ ⟨_, further⟩ read - ⟨rfl, alikeRest⟩
  have afterBound := length_of_readBound final read
  exact (agrees_readBounds alikeRest).along (bound :: ·)
termination_by tokens.length
decreasing_by
  dsimp only at *
  omega

lemma agrees_readOrdinal : ReadsAlike row (readOrdinal final tokens) (readOrdinal last others) := by
  unfold readOrdinal
  refine (alike_afterSigil? alike .equals).elim ?_ (.ok ⟨rfl, alike⟩)
  intro rest further alike
  dsimp only
  refine (agrees_readInt finals alike).elim ?_ fun _ _ => .error
  rintro ⟨ordinal, rest⟩ ⟨_, further⟩ ⟨rfl, alike⟩
  exact .ok ⟨rfl, alike⟩

lemma agrees_readDefault : ReadsAlike row (readDefault final tokens) (readDefault last others) := by
  have about : AboutToken .expectedDefault := ⟨fun _ => rfl, fun _ => rfl⟩
  unfold readDefault
  refine (alike_afterSigil? alike .openSquare).elim ?_ (.ok ⟨rfl, alike⟩)
  intro rest further alike
  dsimp only
  have accords := about.accords_unexpected finals alike
  refine (alike_afterKeyword? alike "default").elim ?_ (.error accords)
  intro rest further alike
  dsimp only
  refine (agrees_sigil finals alike .equals).elim ?_ fun _ _ => .error
  intro rest further alike
  dsimp only
  refine (agrees_readLiteral finals alike).elim ?_ fun _ _ => .error
  rintro ⟨value, rest⟩ ⟨_, further⟩ ⟨rfl, alike⟩
  dsimp only
  refine (agrees_sigil finals alike .closeSquare).elim ?_ fun _ _ => .error
  intro rest further alike
  exact .ok ⟨rfl, alike⟩

lemma agrees_readFieldParts :
    ReadsAlike row (readFieldParts final tokens) (readFieldParts last others) := by
  rcases alike_readModifiers alike .none with ⟨sameModifiers, alikeType⟩
  unfold readFieldParts
  simp only [sameModifiers]
  apply (agrees_readType finals alikeType).bind
  rintro ⟨type, rest⟩ ⟨_, further⟩ - - ⟨rfl, alikeBounds⟩
  apply (agrees_readBounds finals alikeBounds).bind
  rintro ⟨bounds, rest⟩ ⟨_, further⟩ - - ⟨rfl, alikeName⟩
  apply (agrees_readWord finals alikeName).bind
  rintro ⟨name, rest⟩ ⟨_, further⟩ - - ⟨rfl, alikeOrdinal⟩
  apply (agrees_readOrdinal finals alikeOrdinal).bind
  rintro ⟨ordinal, rest⟩ ⟨_, further⟩ - - ⟨rfl, alikeDefault⟩
  exact (agrees_readDefault finals alikeDefault).along _

lemma agrees_readField : ReadsAlike row (readField final tokens) (readField last others) := by
  unfold readField
  have read := agrees_readFieldParts finals alike
  generalize found : readFieldParts final tokens = result at read ⊢
  revert found
  refine read.elim ?_ fun _ _ accords _ => .error accords
  rintro ⟨parts, atEnd⟩ ⟨_, further⟩ ⟨rfl, alikeEnd⟩ found
  dsimp only
  have shorter := length_of_readFieldParts final found
  have ended := agrees_sigil finals alikeEnd .semicolon
  generalize mark : sigil final .semicolon atEnd = result at ended ⊢
  revert mark
  refine ended.elim ?_ fun _ _ accords _ => .error accords
  intro rest further alikeRest mark
  dsimp only
  split
  · exact .ok ⟨rfl, alikeRest⟩
  · next cause failed =>
    refine .error ⟨.refl (inSource_of_make failed), ?_⟩
    -- The field has a first token, and the mark at its end is one of its tokens too.
    cases tokens with
    | nil => cases shorter
    | cons first others =>
      cases atEnd with
      | nil => cases mark
      | cons last later =>
        exact .stretch alike.suffix
          (List.suffix_of_suffix_length_le alikeEnd.suffix alike.suffix (Nat.le_of_lt shorter))

/-! ## Enums and announcements -/

omit alike in
lemma agrees_readItem (enum : String) (seen : List EnumItem) (written : Alike row tokens others) :
    ReadsAlike row (readItem final enum seen tokens) (readItem last enum seen others) := by
  unfold readItem
  refine (agrees_readWord finals written).elim ?_ fun _ _ => .error
  rintro ⟨name, rest⟩ ⟨_, further⟩ ⟨rfl, alike⟩
  dsimp only
  rcases alike_afterSigil? alike .equals with ⟨rest, further, found, again, alike⟩ | ⟨found, again⟩
  · simp only [found, again]
    refine (agrees_readInt finals alike).elim ?_ fun _ _ => .error
    rintro ⟨value, rest⟩ ⟨_, further⟩ ⟨rfl, alike⟩
    exact .ok ⟨rfl, alike⟩
  · simp only [found, again]
    split
    · exact .ok ⟨rfl, alike⟩
    · next failed =>
      exact .error ⟨.refl (inSource_of_nextValue failed), .token (written.peek finals).2⟩

omit alike in
lemma agrees_readItems (enum : String) (seen : List EnumItem) {tokens others : List Token}
    (alike : Alike row tokens others) :
    ReadsAlike row (readItems final enum seen tokens) (readItems last enum seen others) := by
  rw [readItems_eq, readItems_eq]
  refine (alike_afterSigil? alike .closeCurl).elim (fun _ _ alike => .ok ⟨rfl, alike⟩) ?_
  apply (agrees_readItem finals enum seen alike).bind
  rintro ⟨item, rest⟩ ⟨_, further⟩ read - ⟨rfl, alikeRest⟩
  have afterItem := length_of_readItem final read
  rcases alike_afterSeparator? alikeRest with
    ⟨rest, further, separator, again, alikeRest⟩ | ⟨separator, again⟩
  · rw [separator, again]
    have afterMark := length_of_afterSeparator? separator
    exact agrees_readItems enum (seen ++ [item]) alikeRest
  · rw [separator, again]
    apply (agrees_sigil finals alikeRest .closeCurl).bind
    intro rest further _ _ alikeRest
    exact .ok ⟨rfl, alikeRest⟩
termination_by tokens.length
decreasing_by
  dsimp only at *
  omega

lemma agrees_readEnum : ReadsAlike row (readEnum final tokens) (readEnum last others) := by
  unfold readEnum
  refine (agrees_readWord finals alike).elim ?_ fun _ _ => .error
  rintro ⟨name, rest⟩ ⟨_, further⟩ ⟨rfl, alike⟩
  dsimp only
  refine (agrees_sigil finals alike .openCurl).elim ?_ fun _ _ => .error
  intro rest further alike
  dsimp only
  refine (agrees_readItems finals name [] alike).elim ?_ fun _ _ => .error
  rintro ⟨items, rest⟩ ⟨_, further⟩ ⟨rfl, alike⟩
  exact .ok ⟨rfl, alike_skipSigil alike .semicolon⟩

lemma agrees_readExternal :
    ReadsAlike row (readExternal final tokens) (readExternal last others) := by
  have about : AboutToken .expectedMessage := ⟨fun _ => rfl, fun _ => rfl⟩
  have accords := about.accords_unexpected finals alike
  unfold readExternal
  refine (alike_afterKeyword? alike "message").elim ?_ (.error accords)
  intro rest further alike
  dsimp only
  refine (agrees_readWord finals alike).elim ?_ fun _ _ => .error
  rintro ⟨name, rest⟩ ⟨_, further⟩ ⟨rfl, alike⟩
  dsimp only
  refine (agrees_sigil finals alike .semicolon).elim ?_ fun _ _ => .error
  intro rest further alike
  exact .ok ⟨rfl, alike⟩

end
end Syntax
end MessageSchema
