import MessageSchema.Proofs.Syntax.Derivation

namespace MessageSchema

open List

/-!
What a parsed document holds.

Every type of a parsed document is declared by a phrase of its source, which
consists of words and literals: words can be segments of names, so full names are
proper, and the grammar takes integers of 32 bits and finite numbers only.  Items of
an enum without a value count up, and stop where the range does.
-/

variable {field : Field Identifier} {name : Identifier} {previous : Option Int}

/-- The integer is one of 32 bits. -/
def IsInt32 (value : Int) : Prop :=
  minInt32 <= value ∧ value <= maxInt32

/-- A literal that can be written: an integer of 32 bits, a finite number, a text of
characters or a truth value. -/
def Literal.InRange : Literal -> Prop
  | .missing => False
  | .int value => IsInt32 value
  | .double value => value.isFinite = true
  | .text value => ∃ chars : List Char, value = chars.map .char
  | .bool _ => True

section
variable {ρ : Type}

/-- A field with numbers and a default that can be written. -/
structure Field.InRange (field : Field ρ) : Prop where
  bounds : ∀ bound ∈ field.bounds, IsInt32 bound
  ordinal : ∀ ordinal ∈ field.ordinal, IsInt32 ordinal
  default : ∀ value ∈ field.default, value.InRange

/-- An enum or a message with numbers and defaults that can be written. -/
def TypeDecl.InRange : TypeDecl ρ -> Prop
  | .enum decl => ∀ item ∈ decl.items, IsInt32 item.value
  | .message decl => ∀ field ∈ decl.fields, field.InRange

end

namespace Syntax

section
variable {tokens rest : List Token}

lemma NamePhrase.isName (phrase : NamePhrase tokens name rest) (worded : Worded tokens) :
    IsName name := by
  rcases phrase with ⟨word, further⟩
  refine ⟨cons_ne_nil _ _, List.forall_mem_cons.2 ⟨word.isWord worded, ?_⟩⟩
  intro segment listed
  rcases further.exists_phrase suffixed_segment segment listed with ⟨_, _, behind, dot, found⟩
  have suffix := (dot.suffix.trans behind).trans (suffixed_word word)
  exact found.isWord (worded.of_suffix suffix)

lemma ParentsPhrase.isName {parents : List Identifier}
    (phrase : ParentsPhrase tokens parents rest) (worded : Worded tokens) :
    ∀ parent ∈ parents, IsName parent := by
  cases phrase with
  | absent => exact fun _ none => absurd none not_mem_nil
  | present keyword named further =>
    have inside := worded.of_suffix keyword.suffix
    refine List.forall_mem_cons.2 ⟨named.isName inside, fun parent listed => ?_⟩
    rcases further.exists_phrase suffixed_furtherParent parent listed with
      ⟨_, _, behind, comma, found⟩
    have suffix := (comma.suffix.trans behind).trans (suffixed_name named)
    exact found.isName (inside.of_suffix suffix)

lemma FieldPhrase.isName (phrase : FieldPhrase tokens field rest)
    (worded : Worded tokens) (user : field.type = .user name) : IsName name := by
  rcases phrase with ⟨modifiers, _, type, _⟩
  rw [user] at type
  cases type with
  | user notPrimitive named =>
    exact named.isName (worded.of_suffix (modifiers.suffix suffixed_modifier))

lemma EnumPhrase.namedByWord {decl : EnumDecl} (phrase : EnumPhrase tokens decl rest)
    (worded : Worded tokens) : (TypeDecl.enum decl).NamedByWord := by
  rcases phrase with ⟨keyword, word, _⟩
  exact ⟨_, (word.isWord (worded.of_suffix keyword.suffix)).isSegment, rfl⟩

/-- The value of a phrase that is made of words of a source. -/
def Occurs {α : Type} (phrase : Phrase α) (value : α) : Prop :=
  ∃ tokens rest, Worded tokens ∧ phrase tokens value rest

variable {message : Message Identifier}

/-- What a message is made of stands for phrases of its own. -/
structure MessageParts (message : Message Identifier) : Prop where
  name : ∃ word, IsWord word ∧ message.name = ⟨.single word, none⟩
  parents : ∀ parent ∈ message.parents, IsName parent
  enums : ∀ decl ∈ message.enums, Occurs EnumPhrase decl
  messages : ∀ inner ∈ message.messages, Occurs MessagePhrase inner
  fields : ∀ field ∈ message.fields, Occurs FieldPhrase field

lemma MessagePhrase.parts (phrase : MessagePhrase tokens message rest) (worded : Worded tokens) :
    MessageParts message := by
  cases phrase with
  | announced announcing keyword word =>
    have suffix := keyword.suffix.trans announcing.suffix
    refine ⟨⟨_, word.isWord (worded.of_suffix suffix), rfl⟩, ?_, ?_, ?_, ?_⟩
    all_goals exact fun _ none => absurd none not_mem_nil
  | defined keyword word extending opened body =>
    have behind := worded.of_suffix keyword.suffix
    have named := behind.of_suffix (suffixed_word word)
    have inside := named.of_suffix (opened.suffix.trans (suffixed_parents extending))
    have members := body.exists_phrase suffixed_member
    refine ⟨⟨_, word.isWord behind, rfl⟩, extending.isName named, ?_, ?_, ?_⟩
    · intro decl listed
      rcases members _ (mem_filterMap_enum?.1 listed) with ⟨_, _, suffix, phrase⟩
      cases phrase with
      | enum phrase => exact ⟨_, _, inside.of_suffix suffix, phrase⟩
    · intro inner listed
      rcases members _ (mem_filterMap_message?.1 listed) with ⟨_, _, suffix, phrase⟩
      cases phrase with
      | message phrase => exact ⟨_, _, inside.of_suffix suffix, phrase⟩
    · intro field listed
      rcases members _ (mem_filterMap_field?.1 listed) with ⟨_, _, suffix, ahead, phrase⟩
      exact ⟨_, _, inside.of_suffix suffix, phrase⟩

lemma MessageParts.namedByWord (parts : MessageParts message) :
    (TypeDecl.message message).NamedByWord := by
  rcases parts.name with ⟨word, isWord, same⟩
  exact ⟨word, isWord.isSegment, same⟩

lemma MessagePhrase.written (phrase : MessagePhrase tokens message rest) (worded : Worded tokens) :
    (TypeDecl.message message).Written := by
  have parts := phrase.parts worded
  refine ⟨parts.namedByWord, ⟨fun parent listed => (parts.parents parent listed).proper, ?_⟩,
    ?_, ?_⟩
  · intro field listed name user
    rcases parts.fields field listed with ⟨_, _, inside, phrase⟩
    exact (phrase.isName inside user).proper
  · intro decl listed
    rcases parts.enums decl listed with ⟨_, _, inside, phrase⟩
    exact phrase.namedByWord inside
  · intro inner listed
    rcases parts.messages inner listed with ⟨_, _, inside, phrase⟩
    exact (phrase.parts inside).namedByWord

variable {value : Int}

lemma IntPhrase.isInt32 (phrase : IntPhrase tokens value rest) : IsInt32 value := by
  rcases phrase with ⟨token, int, _⟩
  exact ⟨int.least, int.largest⟩

lemma AssignedPhrase.isInt32 (phrase : AssignedPhrase tokens value rest) : IsInt32 value := by
  rcases phrase with ⟨equals, int⟩
  exact int.isInt32

lemma BoundPhrase.isInt32 {bound : Int} (phrase : BoundPhrase tokens bound rest) :
    IsInt32 bound := by
  cases phrase with
  | free => exact ⟨by decide, by decide⟩
  | fixed opened int => exact int.isInt32

lemma DefaultPhrase.inRange {value : Literal} (phrase : DefaultPhrase tokens value rest) :
    value.InRange := by
  rcases phrase with ⟨opened, keyword, equals, ⟨token, literal, _⟩, closed⟩
  cases literal with
  | int int => exact ⟨int.least, int.largest⟩
  | float kind finite => exact finite
  | text kind spelled => exact ⟨_, rfl⟩
  | yes => exact trivial
  | no => exact trivial

lemma FieldPhrase.inRange (phrase : FieldPhrase tokens field rest) : field.InRange := by
  rcases phrase with ⟨_, _, _, bounds, _, ordinal, default, _, _⟩
  refine ⟨?_, ?_, ?_⟩
  · intro bound listed
    rcases bounds.exists_phrase suffixed_bound bound listed with ⟨_, _, _, found⟩
    exact found.isInt32
  · intro number given
    rcases ordinal.exists_phrase number given with ⟨_, found⟩
    exact found.isInt32
  · intro value given
    rcases default.exists_phrase value given with ⟨_, found⟩
    exact found.inRange

/-- The value that is written for an item, if there is one, is an integer of 32
bits. -/
def WrittenItem.InRange (item : WrittenItem) : Prop :=
  ∀ value ∈ item.2, IsInt32 value

lemma ItemPhrase.inRange {item : WrittenItem} (phrase : ItemPhrase tokens item rest) :
    item.InRange := by
  rcases phrase with ⟨word, assigned⟩
  intro value given
  rcases assigned.exists_phrase value given with ⟨_, found⟩
  exact found.isInt32

lemma ItemsPhrase.inRange {items : List WrittenItem} (phrase : ItemsPhrase tokens items rest) :
    ∀ item ∈ items, item.InRange := by
  have more {front back : List Token} {others : List WrittenItem}
      (further : Many FurtherItemPhrase front others back) : ∀ item ∈ others, item.InRange := by
    intro item listed
    rcases further.exists_phrase suffixed_furtherItem item listed with ⟨_, _, _, _, found⟩
    exact found.inRange
  cases phrase with
  | none => exact fun _ none => absurd none not_mem_nil
  | some item further => exact List.forall_mem_cons.2 ⟨item.inRange, more further⟩
  | separated item further => exact List.forall_mem_cons.2 ⟨item.inRange, more further⟩

lemma ItemValue.isInt32 {written : Option Int}
    (valued : ItemValue previous written value) (before : ∀ number ∈ previous, IsInt32 number)
    (given : ∀ number ∈ written, IsInt32 number) : IsInt32 value := by
  cases valued with
  | given => exact given value rfl
  | first => exact ⟨by decide, by decide⟩
  | @next number fits => exact ⟨Int.le_trans (before number rfl).1 (by omega), fits⟩

lemma Numbered.isInt32 {written : List WrittenItem}
    {items : List EnumItem} (numbered : Numbered previous written items)
    (before : ∀ number ∈ previous, IsInt32 number)
    (given : ∀ item ∈ written, item.InRange) : ∀ item ∈ items, IsInt32 item.value := by
  induction numbered with
  | nil => exact fun _ none => absurd none not_mem_nil
  | cons valued further ih =>
    rw [forall_mem_cons] at given
    have here := valued.isInt32 before given.1
    refine List.forall_mem_cons.2 ⟨here, ih ?_ given.2⟩
    rintro _ ⟨⟩
    exact here

lemma DeclarationPhrase.inRange {type : TypeDecl Identifier}
    (phrase : DeclarationPhrase tokens (.type type) rest) (worded : Worded tokens) :
    type.InRange := by
  cases phrase with
  | enum phrase =>
    rcases phrase with ⟨_, _, _, listed, _, _, numbered⟩
    exact numbered.isInt32 (fun _ none => absurd none (Option.not_mem_none _)) listed.inRange
  | message phrase =>
    intro field listed
    rcases (phrase.parts worded).fields field listed with ⟨_, _, _, found⟩
    exact found.inRange

/-- A type that a phrase of these lexemes declares, in a scope that is made of words. -/
structure Declares (lexemes : List Token) (placed : Placed) : Prop where
  scope : placed.scope.Clean
  phrase : ∃ front back, front <:+ lexemes ∧ DeclarationPhrase front (.type placed.type) back

variable {scope : Identifier} {lexemes : List Token}

lemma MessagePhrase.declares (phrase : MessagePhrase tokens message rest)
    (suffix : tokens <:+ lexemes) (worded : Worded lexemes) (clean : scope.Clean) :
    ∀ placed ∈ message.placed scope, Declares lexemes placed := by
  induction message using Message.nestedInduction generalizing tokens rest scope with
  | external name =>
    intro placed member
    rw [List.mem_singleton.1 member]
    exact ⟨clean, _, _, suffix, .message phrase⟩
  | defined name parents enums messages fields ih =>
    intro placed member
    rw [Message.placed_defined] at member
    rcases List.mem_cons.1 member with rfl | nested
    · exact ⟨clean, _, _, suffix, .message phrase⟩
    cases phrase with
    | defined keyword word extending opened body =>
      have named := keyword.suffix.trans suffix
      have inside := ((opened.suffix.trans (suffixed_parents extending)).trans
        (suffixed_word word)).trans named
      have clean := clean.append
        (word.isWord (worded.of_suffix named)).isSegment.proper_single.clean
      have members := body.exists_phrase suffixed_member
      rcases List.mem_append.1 nested with nested | nested
      · rcases List.mem_map.1 nested with ⟨decl, listed, rfl⟩
        rcases members _ (mem_filterMap_enum?.1 listed) with ⟨_, _, behind, found⟩
        cases found with
        | enum phrase => exact ⟨clean, _, _, behind.trans inside, .enum phrase⟩
      · rcases List.mem_flatMap.1 nested with ⟨inner, listed, found⟩
        rcases members _ (mem_filterMap_message?.1 listed) with ⟨_, _, behind, phrase⟩
        cases phrase with
        | message phrase => exact ih inner listed phrase (behind.trans inside) clean placed found

lemma mem_placedAll {content : List Declaration} {placed : Placed} :
    placed ∈ Declaration.placedAll scope content ↔
      ∃ declaration ∈ content, placed ∈ declaration.placed scope := by
  induction content with
  | nil => simp [Declaration.placedAll]
  | cons declaration rest ih => simp [Declaration.placedAll, ih]

lemma DeclarationPhrase.declares {declaration : Declaration}
    (phrase : DeclarationPhrase tokens declaration rest) (suffix : tokens <:+ lexemes)
    (worded : Worded lexemes) (clean : scope.Clean) :
    ∀ placed ∈ declaration.placed scope, Declares lexemes placed := by
  induction declaration using Declaration.nestedInduction generalizing tokens rest scope with
  | type decl =>
    cases phrase with
    | message phrase => exact phrase.declares suffix worded clean
    | enum phrase =>
      intro placed member
      rw [List.mem_singleton.1 member]
      exact ⟨clean, _, _, suffix, .enum phrase⟩
  | scope name content ih =>
    cases phrase with
    | scope keyword named opened body =>
      have behind := keyword.suffix.trans suffix
      have inside := (opened.suffix.trans (suffixed_name named)).trans behind
      have clean := clean.append (named.isName (worded.of_suffix behind)).proper.clean
      intro placed member
      rcases mem_placedAll.1 member with ⟨inner, listed, found⟩
      rcases body.exists_phrase suffixed_declaration inner listed with ⟨_, _, further, phrase⟩
      exact ih inner listed phrase (further.trans inside) clean placed found

end

variable {document : Document} {source : List UInt8} {lexemes : List Token} {final : Token}

/-- The source was cut into tokens to its end.  The lexemes are those that mean something,
with the empty token behind them. -/
def IsCut (source : List UInt8) (lexemes : List Token) (final : Token) : Prop :=
  ∃ scanned, tokenize source = .ok scanned ∧ scanned.error = none ∧
    significant scanned.tokens = lexemes ++ [final]

lemma IsCut.lexed (cut : IsCut source lexemes final) : Lexed lexemes := by
  rcases cut with ⟨scanned, tokenized, complete, same⟩
  rcases scan_of_tokenize tokenized with ⟨chars, rfl⟩
  rcases significant_scan complete with ⟨front, atEnd, again, _, lexed⟩
  have fronts : lexemes = front :=
    append_inj_left' (same.symm.trans again) rfl
  rwa [fronts]

lemma IsCut.parse_eq (cut : IsCut source lexemes final) :
    parse source = readDocument final lexemes := by
  rcases cut with ⟨scanned, tokenized, complete, same⟩
  simp only [parse, tokenized, complete, parseTokens, same, dropLast_concat,
    getLastD_concat]

section
variable (parsed : parse source = .ok document)
include parsed

lemma exists_isCut_of_parse : ∃ lexemes final, IsCut source lexemes final := by
  unfold parse at parsed
  split at parsed
  · cases parsed
  · next scanned tokenized =>
    split at parsed
    · cases parsed
    · next complete =>
      rcases scan_of_tokenize tokenized with ⟨chars, rfl⟩
      rcases significant_scan complete with ⟨front, atEnd, same, _, _⟩
      exact ⟨front, atEnd, _, tokenized, complete, same⟩

lemma IsCut.declares (cut : IsCut source lexemes final) :
    ∀ placed ∈ declared document, Declares lexemes placed := by
  rw [cut.parse_eq] at parsed
  have content := document_of_readDocument cut.lexed parsed
  intro placed member
  rcases mem_placedAll.1 member with ⟨declaration, listed, found⟩
  rcases content.exists_phrase suffixed_declaration declaration listed with ⟨_, _, suffix, phrase⟩
  exact phrase.declares suffix cut.lexed.worded Identifier.clean_outermost placed found

/-- Every type of a parsed document is named by a word, in a scope made of
words, and mentions proper names only. -/
lemma sound_of_parse : ∀ placed ∈ declared document, placed.Sound := by
  intro placed member
  rcases exists_isCut_of_parse parsed with ⟨lexemes, final, cut⟩
  rcases cut.declares parsed placed member with ⟨clean, front, back, suffix, phrase⟩
  have worded := cut.lexed.worded.of_suffix suffix
  refine ⟨clean, ?_⟩
  generalize placed.type = type at phrase
  cases phrase with
  | message phrase => exact phrase.written worded
  | enum phrase => exact phrase.namedByWord worded

/-- Every type of a parsed document holds numbers and defaults that can be written. -/
lemma inRange_of_parse : ∀ placed ∈ declared document, placed.type.InRange := by
  intro placed member
  rcases exists_isCut_of_parse parsed with ⟨lexemes, final, cut⟩
  rcases cut.declares parsed placed member with ⟨_, _, _, suffix, phrase⟩
  exact phrase.inRange (cut.lexed.worded.of_suffix suffix)

end

end Syntax
end MessageSchema
