import Mathlib.Tactic.Lemma
import MessageSchema.Syntax.Parser

namespace MessageSchema.Syntax

/-!
What readers have read.

A reader that succeeds has called others, each on what the one before it left.  What
readers of messages and namespaces return carries a proof that it gets shorter;
without that proof, each is a chain of readings.
-/

/-- What was read and what remains, without the proof of progress. -/
def outcomeOf {α : Type} {before : List Token} (result : Except Error (Progress α before)) :
    Except Error (α × List Token) :=
  result.map fun found => (found.value, found.rest)

variable {before rest : List Token} {α : Type} {value : α}
    {result : Except Error (Progress α before)}

lemma length_of_outcomeOf (read : outcomeOf result = .ok (value, rest)) :
    rest.length < before.length := by
  rcases result with _ | ⟨_, _, shorter⟩
  · cases read
  · cases read
    exact shorter

lemma bind_eq_ok_iff {ε α β : Type} {result : Except ε α} {next : α -> Except ε β} {value : β} :
    result.bind next = .ok value ↔ ∃ found, result = .ok found ∧ next found = .ok value := by
  cases result <;> simp [Except.bind]

section
variable (final : Token)

lemma readSegments_cons (dot : Token) (rest : List Token) :
    readSegments final (dot :: rest) =
      if dot.kind = .dot then
        (readWord final rest).bind fun name =>
          (readSegments final name.2).bind fun segments =>
            .ok (name.1 :: segments.1, segments.2)
      else .ok ([], dot :: rest) := by
  cases rest with
  | nil => rfl
  | cons name rest =>
    simp only [readSegments, readWord]
    split
    · split
      · simp only [Except.bind]
        rcases readSegments final rest with _ | ⟨segments, rest⟩ <;> rfl
      · rfl
    · rfl

section
variable (tokens : List Token)

lemma readParents_eq : readParents final tokens =
      (afterSigil? .comma tokens).elim (.ok ([], tokens)) fun rest =>
        (readName final rest).bind fun parent =>
          (readParents final parent.2).bind fun parents =>
            .ok (parent.1 :: parents.1, parents.2) := by
  rw [readParents]
  split
  · next none => simp only [none, Option.elim]
  · next rest comma =>
    simp only [comma, Option.elim]
    split
    · next failed => simp only [failed, Except.bind]
    · next found =>
      simp only [found, Except.bind]
      rcases readParents final _ with _ | ⟨parents, rest⟩ <;> rfl

lemma readBounds_eq : readBounds final tokens =
      (afterSigil? .openSquare tokens).elim (.ok ([], tokens)) fun rest =>
        (readBound final rest).bind fun bound =>
          (readBounds final bound.2).bind fun bounds =>
            .ok (bound.1 :: bounds.1, bounds.2) := by
  rw [readBounds]
  split
  · next none => simp only [none, Option.elim]
  · next rest mark =>
    simp only [mark, Option.elim]
    split
    · next failed => simp only [failed, Except.bind]
    · next found =>
      simp only [found, Except.bind]
      rcases readBounds final _ with _ | ⟨bounds, rest⟩ <;> rfl

lemma readItems_eq (enum : String) (seen : List EnumItem) : readItems final enum seen tokens =
      (afterSigil? .closeCurl tokens).elim ((readItem final enum seen tokens).bind fun item =>
          (afterSeparator? item.2).elim
            ((sigil final .closeCurl item.2).bind fun rest => .ok (seen ++ [item.1], rest))
            fun rest => readItems final enum (seen ++ [item.1]) rest)
        fun rest => .ok (seen, rest) := by
  rw [readItems]
  split
  · next close => simp only [close, Option.elim]
  · next notClosed =>
    simp only [notClosed, Option.elim]
    split
    · next failed => simp only [failed, Except.bind]
    · next found =>
      simp only [found, Except.bind]
      split
      · next separator => simp only [separator]
      · next noSeparator =>
        simp only [noSeparator]
        rcases sigil final .closeCurl _ with _ | rest <;> rfl

lemma outcomeOf_readMessage : outcomeOf (readMessage final tokens) =
      (readHeader final tokens).bind fun header =>
        (outcomeOf (readMembers final header.2)).bind fun members =>
          .ok (messageOf header.1.1 header.1.2 members.1, skipSigil .semicolon members.2) := by
  rw [readMessage]
  split
  · next failed =>
    rw [failed]
    rfl
  · next found =>
    simp only [found, Except.bind]
    rcases readMembers final _ with _ | ⟨members, rest, shorter⟩ <;> rfl

lemma outcomeOf_readMember_cons (token : Token) (rest : List Token) :
    outcomeOf (readMember final (token :: rest)) =
      if token.isKeyword "namespace" then .error ⟨.scopeInMessage, token.span⟩
      else if token.isKeyword "extern" then
        (readExternal final rest).bind fun decl => .ok (.message decl.1, decl.2)
      else if token.isKeyword "enum" then
        (readEnum final rest).bind fun decl => .ok (.enum decl.1, decl.2)
      else if startsMessage (token :: rest) then
        (outcomeOf (readMessage final rest)).bind fun decl => .ok (.message decl.1, decl.2)
      else (readField final (token :: rest)).bind fun field => .ok (.field field.1, field.2) := by
  rw [readMember]
  split
  · rfl
  split
  · split
    · next failed =>
      rw [failed]
      rfl
    · next found =>
      simp only [found, Except.bind]
      rfl
  split
  · split
    · next failed =>
      rw [failed]
      rfl
    · next found =>
      simp only [found, Except.bind]
      rfl
  split
  · rcases readMessage final rest with _ | ⟨decl, behind, shorter⟩ <;> rfl
  · split
    · next failed =>
      rw [failed]
      rfl
    · next found =>
      simp only [found, Except.bind]
      rfl

lemma outcomeOf_readMembers : outcomeOf (readMembers final tokens) =
      (afterSigil? .closeCurl tokens).elim ((outcomeOf (readMember final tokens)).bind fun member =>
          (outcomeOf (readMembers final member.2)).bind fun members =>
            .ok (member.1 :: members.1, members.2)) fun rest => .ok ([], rest) := by
  rw [readMembers]
  split
  · next close =>
    simp only [close, Option.elim]
    rfl
  · next notClosed =>
    rw [notClosed]
    rcases readMember final tokens with _ | ⟨member, rest, shorter⟩
    · rfl
    · simp only [outcomeOf, Except.map, Except.bind, Option.elim]
      rcases readMembers final rest with _ | ⟨members, rest, shorter⟩ <;> rfl

lemma outcomeOf_readDeclaration_cons (token : Token) (rest : List Token) :
    outcomeOf (readDeclaration final (token :: rest)) =
      if token.isKeyword "namespace" then
        (readName final rest).bind fun name =>
          (sigil final .openCurl name.2).bind fun rest =>
            (outcomeOf (readContent final rest)).bind fun content =>
              .ok (.scope name.1 content.1, skipSigil .semicolon content.2)
      else if token.isKeyword "extern" then
        (readExternal final rest).bind fun decl => .ok (.type (.message decl.1), decl.2)
      else if token.isKeyword "message" then
        (outcomeOf (readMessage final rest)).bind fun decl => .ok (.type (.message decl.1), decl.2)
      else if token.isKeyword "enum" then
        (readEnum final rest).bind fun decl => .ok (.type (.enum decl.1), decl.2)
      else .error (unexpected final .expectedDeclaration (token :: rest)) := by
  rw [readDeclaration]
  split
  · split
    · next failed =>
      rw [failed]
      rfl
    · next named =>
      simp only [named, Except.bind]
      split
      · next failed =>
        rw [failed]
        rfl
      · next mark =>
        simp only [mark]
        rcases readContent final _ with _ | ⟨content, behind, shorter⟩ <;> rfl
  split
  · split
    · next failed =>
      rw [failed]
      rfl
    · next found =>
      simp only [found, Except.bind]
      rfl
  split
  · rcases readMessage final rest with _ | ⟨decl, behind, shorter⟩ <;> rfl
  split
  · split
    · next failed =>
      rw [failed]
      rfl
    · next found =>
      simp only [found, Except.bind]
      rfl
  · rfl

lemma outcomeOf_readContent : outcomeOf (readContent final tokens) =
      (afterSigil? .closeCurl tokens).elim
        (if tokens.isEmpty then .error (unexpected final (.expectedSigil .closeCurl) tokens)
        else
          (outcomeOf (readDeclaration final tokens)).bind fun declaration =>
            (outcomeOf (readContent final declaration.2)).bind fun content =>
              .ok (declaration.1 :: content.1, content.2)) fun rest => .ok ([], rest) := by
  rw [readContent]
  split
  · next close =>
    simp only [close, Option.elim]
    rfl
  · next notClosed =>
    rw [notClosed]
    simp only [Option.elim]
    split
    · rfl
    · rcases readDeclaration final tokens with _ | ⟨declaration, rest, shorter⟩
      · rfl
      · simp only [outcomeOf, Except.map, Except.bind]
        rcases readContent final rest with _ | ⟨content, rest, shorter⟩ <;> rfl

end

lemma readDocument_cons (token : Token) (rest : List Token) : readDocument final (token :: rest) =
      (outcomeOf (readDeclaration final (token :: rest))).bind fun declaration =>
        (readDocument final declaration.2).bind fun document =>
          .ok (declaration.1 :: document) := by
  rw [readDocument]
  rcases readDeclaration final (token :: rest) with _ | ⟨declaration, behind, shorter⟩
  · rfl
  · simp only [outcomeOf, Except.map, Except.bind]
    rcases readDocument final behind with _ | document <;> rfl

end

end MessageSchema.Syntax
