import MessageSchema.Proofs.Syntax.Agreement
import MessageSchema.Proofs.Syntax.Inversion

namespace MessageSchema.Syntax

open List

/-!
Documents do not depend on places.

Messages, namespaces and documents are read from parts that are read alike from
tokens alike.
-/

section
variable {row : Row} {final last : Token} (finals : Finals row final last)
include finals

lemma agrees_readHeader {tokens others : List Token} (alike : Alike row tokens others) :
    ReadsAlike row (readHeader final tokens) (readHeader last others) := by
  unfold readHeader
  refine (agrees_readWord finals alike).elim ?_ fun _ _ => .error
  rintro ⟨name, rest⟩ ⟨_, further⟩ ⟨rfl, alike⟩
  dsimp only
  refine (agrees_readExtends finals alike).elim ?_ fun _ _ => .error
  rintro ⟨parents, rest⟩ ⟨_, further⟩ ⟨rfl, alike⟩
  dsimp only
  refine (agrees_sigil finals alike .openCurl).elim ?_ fun _ _ => .error
  intro rest further alike
  exact .ok ⟨rfl, alike⟩

omit finals in
lemma startsMessage_of_alike {tokens others : List Token} (alike : Alike row tokens others) :
    startsMessage tokens = startsMessage others := by
  rcases alike.parts with _ | ⟨sameKeyword, _, named⟩
  · rfl
  rcases named.parts with _ | ⟨sameName, _, marked⟩
  · rfl
  rcases marked.parts with _ | ⟨sameNext, _, _⟩
  · rfl
  simp only [startsMessage, isKeyword_of_lexeme sameKeyword, isKeyword_of_lexeme sameNext,
    Token.kind_eq sameName, Token.kind_eq sameNext]

end

section
variable {row : Row} {final last : Token}

mutual

lemma agrees_readMessage (finals : Finals row final last) {tokens others : List Token}
    (alike : Alike row tokens others) : ReadsAlike row (outcomeOf (readMessage final tokens))
      (outcomeOf (readMessage last others)) := by
  rw [outcomeOf_readMessage, outcomeOf_readMessage]
  apply (agrees_readHeader finals alike).bind
  rintro ⟨header, rest⟩ ⟨_, further⟩ read - ⟨rfl, alikeRest⟩
  have shorter := length_of_readHeader final read
  apply (agrees_readMembers finals alikeRest).bind
  rintro ⟨members, rest⟩ ⟨_, further⟩ - - ⟨rfl, alikeRest⟩
  exact .ok ⟨rfl, alike_skipSigil alikeRest .semicolon⟩
termination_by 3 * tokens.length

lemma agrees_readMember (finals : Finals row final last) {tokens others : List Token}
    (alike : Alike row tokens others) :
    ReadsAlike row (outcomeOf (readMember final tokens)) (outcomeOf (readMember last others)) := by
  have about : AboutToken (.expectedSigil .closeCurl) := ⟨fun _ => rfl, fun _ => rfl⟩
  rcases alike.parts with _ | ⟨same, member, alikeRest⟩
  · rw [readMember, readMember]
    exact .error (about.accords_unexpected finals alike)
  rw [outcomeOf_readMember_cons, outcomeOf_readMember_cons, isKeyword_of_lexeme same,
    isKeyword_of_lexeme same, isKeyword_of_lexeme same, startsMessage_of_alike alike]
  split
  · exact .error ⟨.refl rfl, .token member⟩
  split
  · exact (agrees_readExternal finals alikeRest).along _
  split
  · exact (agrees_readEnum finals alikeRest).along _
  split
  · exact (agrees_readMessage finals alikeRest).along _
  · exact (agrees_readField finals alike).along _
termination_by 3 * tokens.length + 1

lemma agrees_readMembers (finals : Finals row final last) {tokens others : List Token}
    (alike : Alike row tokens others) : ReadsAlike row (outcomeOf (readMembers final tokens))
      (outcomeOf (readMembers last others)) := by
  rw [outcomeOf_readMembers, outcomeOf_readMembers]
  refine (alike_afterSigil? alike .closeCurl).elim (fun _ _ alike => .ok ⟨rfl, alike⟩) ?_
  apply (agrees_readMember finals alike).bind
  rintro ⟨member, rest⟩ ⟨_, further⟩ read - ⟨rfl, alikeRest⟩
  have shorter := length_of_outcomeOf read
  exact (agrees_readMembers finals alikeRest).along (member :: ·)
termination_by 3 * tokens.length + 2

end

end

section
variable {row : Row} {final last : Token}

mutual

lemma agrees_readDeclaration (finals : Finals row final last) {tokens others : List Token}
    (alike : Alike row tokens others) : ReadsAlike row (outcomeOf (readDeclaration final tokens))
      (outcomeOf (readDeclaration last others)) := by
  have about : AboutToken .expectedDeclaration := ⟨fun _ => rfl, fun _ => rfl⟩
  have accords := about.accords_unexpected finals alike
  rcases alike.parts with _ | ⟨same, member, alikeRest⟩
  · rw [readDeclaration, readDeclaration]
    exact .error accords
  rw [outcomeOf_readDeclaration_cons, outcomeOf_readDeclaration_cons, isKeyword_of_lexeme same,
    isKeyword_of_lexeme same, isKeyword_of_lexeme same, isKeyword_of_lexeme same]
  split
  · apply (agrees_readName finals alikeRest).bind
    rintro ⟨name, rest⟩ ⟨_, further⟩ read - ⟨rfl, alikeMark⟩
    have afterName := length_of_readName final read
    apply (agrees_sigil finals alikeMark .openCurl).bind
    intro rest further mark _ alikeContent
    have afterMark := length_of_sigil final mark
    apply (agrees_readContent finals alikeContent).bind
    rintro ⟨content, rest⟩ ⟨_, further⟩ - - ⟨rfl, alikeRest⟩
    exact .ok ⟨rfl, alike_skipSigil alikeRest .semicolon⟩
  split
  · exact (agrees_readExternal finals alikeRest).along (Declaration.type <| .message ·)
  split
  · exact (agrees_readMessage finals alikeRest).along (Declaration.type <| .message ·)
  split
  · exact (agrees_readEnum finals alikeRest).along (Declaration.type <| .enum ·)
  · exact .error accords
termination_by 3 * tokens.length
decreasing_by
  subst_vars
  dsimp only [length_cons] at *
  omega

lemma agrees_readContent (finals : Finals row final last) {tokens others : List Token}
    (alike : Alike row tokens others) : ReadsAlike row (outcomeOf (readContent final tokens))
      (outcomeOf (readContent last others)) := by
  have about : AboutToken (.expectedSigil .closeCurl) := ⟨fun _ => rfl, fun _ => rfl⟩
  have accords := about.accords_unexpected finals alike
  have empty : tokens.isEmpty = others.isEmpty := by
    rcases alike.parts with _ | ⟨_, _, _⟩ <;> rfl
  rw [outcomeOf_readContent, outcomeOf_readContent, empty]
  refine (alike_afterSigil? alike .closeCurl).elim (fun _ _ alike => .ok ⟨rfl, alike⟩) ?_
  simp only [Option.elim]
  split
  · exact .error accords
  · apply (agrees_readDeclaration finals alike).bind
    rintro ⟨declaration, rest⟩ ⟨_, further⟩ read - ⟨rfl, alikeRest⟩
    have shorter := length_of_outcomeOf read
    exact (agrees_readContent finals alikeRest).along (declaration :: ·)
termination_by 3 * tokens.length + 1

end

lemma agrees_readDocument (finals : Finals row final last) {tokens others : List Token}
    (alike : Alike row tokens others) :
    Agrees row Eq (readDocument final tokens) (readDocument last others) := by
  rcases alike.parts with _ | ⟨same, member, alikeRest⟩
  · rw [readDocument, readDocument]
    exact .ok rfl
  rw [readDocument_cons, readDocument_cons]
  apply (agrees_readDeclaration finals alike).bind
  rintro ⟨declaration, rest⟩ ⟨_, further⟩ read - ⟨rfl, alikeRest⟩
  have shorter := length_of_outcomeOf read
  apply (agrees_readDocument finals alikeRest).bind
  rintro document _ - - rfl
  exact .ok rfl
termination_by tokens.length
decreasing_by
  subst_vars
  dsimp only [length_cons] at *
  omega

end

/-- The row of the tokens of a scan that mean something. -/
def rowOf (tokens : List Token) (worded : Worded tokens) : Row where
  tokens := (significant tokens).dropLast
  final := (significant tokens).getLastD default
  worded := by
    intro token member isWord
    rcases List.mem_cons.mp member with isFinal | inside
    · rw [getLastD_eq_getLast?] at isFinal
      cases last : (significant tokens).getLast? with
      | none =>
        rw [isFinal, last] at isWord
        cases isWord
      | some found =>
        rw [last, Option.getD_some] at isFinal
        rw [isFinal] at isWord ⊢
        exact worded found (mem_of_mem_filter (mem_of_getLast? last)) isWord
    · exact worded token (mem_of_mem_filter ((dropLast_sublist _).mem inside)) isWord

/-- Tokens alike are read as the same document, or they fail with errors that
say the same. -/
lemma agrees_parseTokens {tokens others : List Token} (worded : Worded tokens)
    (alike : (significant tokens).map Token.lexeme = (significant others).map Token.lexeme) :
    Agrees (rowOf tokens worded) Eq (parseTokens tokens) (parseTokens others) := by
  have last : ∀ list : List Token, (list.getLastD default).lexeme =
      (list.map Token.lexeme).getLastD (Token.lexeme default) := by
    intro list
    rw [getLastD_eq_getLast?, getLastD_eq_getLast?, getLast?_map]
    cases list.getLast? <;> rfl
  have finals : Finals (rowOf tokens worded) ((significant tokens).getLastD default)
      ((significant others).getLastD default) :=
    ⟨by rw [last, last, alike], mem_cons_self⟩
  have front : (significant tokens).dropLast.map Token.lexeme =
      (significant others).dropLast.map Token.lexeme := by
    rw [map_dropLast, map_dropLast, alike]
  exact agrees_readDocument finals ⟨front, suffix_refl _⟩

end MessageSchema.Syntax
