import MessageSchema.Proofs.Compile.Placement
import MessageSchema.Proofs.Syntax.TokenEnds
import MessageSchema.Syntax.Members

namespace MessageSchema

/-!
The names in a parsed document.

Words hold no dot.  A type is named by one word, a namespace, a parent or a field
type by one or more.  All full names of a parsed document are therefore proper.
-/

/-- A type is named by a single word and by nothing else. -/
def TypeDecl.NamedByWord : TypeDecl Identifier -> Prop
  | .enum decl => ∃ word, Name.IsSegment word ∧ decl.name = .single word
  | .message decl => ∃ word, Name.IsSegment word ∧ decl.name = ⟨.single word, none⟩

/-- A type as it can be written: it is named by a single word, as is every type in it, and
all names that it mentions are proper. -/
def TypeDecl.Written : TypeDecl Identifier -> Prop
  | .enum decl => (TypeDecl.enum decl).NamedByWord
  | .message decl =>
    (TypeDecl.message decl).NamedByWord ∧ decl.MentionsProper ∧
      (∀ inner ∈ decl.enums, (TypeDecl.enum inner).NamedByWord) ∧
      ∀ inner ∈ decl.messages, (TypeDecl.message inner).NamedByWord

/-- A type as it can be written, in a scope that is made of words. -/
structure Placed.Sound (placed : Placed) : Prop where
  scope : placed.scope.Clean
  type : placed.type.Written

variable {type : TypeDecl Identifier}

lemma TypeDecl.NamedByWord.id_eq (named : type.NamedByWord) :
    ∃ word, Name.IsSegment word ∧ type.id = .single word := by
  rcases type with decl | message
  · exact named
  · rcases named with ⟨word, segment, same⟩
    exact ⟨word, segment, by rw [TypeDecl.id, Message.id, same]⟩

lemma TypeDecl.Written.namedByWord (written : type.Written) : type.NamedByWord := by
  rcases type with decl | message
  · exact written
  · exact written.1

lemma Name.IsSegment.proper_single {word : String} (segment : Name.IsSegment word) :
    (Identifier.single word).Proper where
  some := List.cons_ne_nil _ _
  clean := by
    intro found member
    rw [List.mem_singleton.mp member]
    exact segment

lemma TypeDecl.Written.proper_id (written : type.Written) : type.id.Proper := by
  rcases written.namedByWord.id_eq with ⟨word, segment, same⟩
  rw [same]
  exact segment.proper_single

lemma Placed.Sound.proper_name {placed : Placed} (sound : placed.Sound) : placed.name.Proper :=
  .append sound.scope sound.type.proper_id

namespace Syntax

/-- A word of a source: some characters, all of which may stand in words. -/
structure IsWord (word : String) : Prop where
  some : word ≠ ""
  chars : ∀ value ∈ word.toList, isWordChar value = true

lemma IsWord.isSegment {word : String} (isWord : IsWord word) : Name.IsSegment word :=
  ⟨isWord.some, fun dotted => absurd (isWord.chars '.' dotted) (by decide)⟩

/-- A name that is made of words. -/
structure IsName (name : Identifier) : Prop where
  some : name.segments ≠ []
  words : ∀ segment ∈ name.segments, IsWord segment

lemma IsName.proper {name : Identifier} (isName : IsName name) : name.Proper :=
  ⟨isName.some, fun segment member => (isName.words segment member).isSegment⟩

/-- The tokens of words are words of a source. -/
def Worded (tokens : List Token) : Prop :=
  ∀ token ∈ tokens, token.kind = .word -> IsWord (String.ofList token.text)

lemma Worded.of_suffix {tokens rest : List Token} (worded : Worded tokens)
    (suffix : rest <:+ tokens) : Worded rest :=
  fun token member => worded token (suffix.mem member)

lemma worded_scan (source : List Char) : Worded (scan source).tokens := by
  refine forall_scan (fun _ word => nomatch word) ?_ source
  intro lexeme start formed word
  rcases formed.toldByKind.word word with ⟨some, wordChars⟩
  refine ⟨fun empty => some (String.ofList_eq_empty_iff.mp empty), ?_⟩
  rwa [String.toList_ofList]

/-- A name that starts with a word of a source is not blank. -/
lemma isBlank_of_readName {final token : Token} {rest behind : List Token} {name : Identifier}
    (isWord : IsWord (String.ofList token.text))
    (read : readName final (token :: rest) = .ok (name, behind)) : name.isBlank = false := by
  rw [readName, readWord] at read
  split at read
  · cases read
  · next first _ word =>
    split at word
    · split at read
      · cases read
      · cases word
        cases read
        simp [Identifier.isBlank, isWord.some]
    · cases word

/-- The types that are read can be built: keywords have the numbers of primitive types, and
names of a source are not blank. -/
lemma readType_cons {token : Token} (final : Token) (rest : List Token)
    (worded : token.kind = .word -> IsWord (String.ofList token.text)) :
    readType final (token :: rest) =
      if token.kind = .word then
        (Primitive.ofKeyword? (String.ofList token.text)).elim
          ((readName final (token :: rest)).bind fun named => .ok (.user named.1, named.2))
          fun primitive => .ok (.primitive primitive, rest)
      else .error (unexpected final .expectedType (token :: rest)) := by
  rw [readType]
  split
  · next isWord =>
    cases Primitive.ofKeyword? (String.ofList token.text) with
    | some primitive => simp only [Primitive.ofCode?_code, Option.elim]
    | none =>
      cases read : readName final (token :: rest) with
      | error error => rfl
      | ok named =>
        have filled := isBlank_of_readName (worded isWord) read
        simp [filled, Except.bind]
  · rfl

end Syntax
end MessageSchema
