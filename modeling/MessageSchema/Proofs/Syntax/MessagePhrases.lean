import MessageSchema.Proofs.Syntax.EnumPhrases
import MessageSchema.Proofs.Syntax.FieldPhrases

namespace MessageSchema.Syntax

/-!
Messages as they are read and as the grammar has them.

The readers of messages call each other on fewer tokens each time, and both
directions follow that recursion.  A derivation says nothing about lengths; that a
member takes tokens is known from the reader.
-/

variable {rest tokens : List Token}

variable {token : Token}

lemma Keyword.cons_iff {keyword : String} {tail : List Token} :
    Keyword keyword (token :: tail) rest ↔ token.isKeyword keyword = true ∧ rest = tail := by
  constructor
  · rintro ⟨again, isKeyword, same⟩
    cases same
    exact ⟨isKeyword, rfl⟩
  · rintro ⟨isKeyword, rfl⟩
    exact ⟨token, isKeyword, rfl⟩

variable {sigil : Sigil}

lemma Many.notAt {α : Type} {phrase : Phrase α} {values : List α}
    (phrases : Many phrase tokens values rest)
    (start : ∀ {tokens value rest}, phrase tokens value rest -> NotAt sigil tokens)
    (stop : NotAt sigil rest) : NotAt sigil tokens := by
  cases phrases with
  | none => exact stop
  | more head _ => exact start head

lemma TypePhrase.notAt {type : FieldType Identifier} (phrase : TypePhrase tokens type rest) :
    NotAt sigil tokens := by
  cases phrase with
  | primitive keyword => exact keyword.word.notAt
  | user _ named =>
    rcases named with ⟨word, _⟩
    exact word.notAt

lemma FieldPhrase.notAt {field : Field Identifier} (phrase : FieldPhrase tokens field rest) :
    NotAt sigil tokens := by
  rcases phrase with ⟨modifiers, _, type, _⟩
  exact modifiers.notAt (fun modifier => modifier.1.word.notAt) type.notAt

lemma EnumPhrase.notAt {decl : EnumDecl} (phrase : EnumPhrase tokens decl rest) :
    NotAt sigil tokens := by
  rcases phrase with ⟨keyword, _⟩
  exact keyword.word.notAt

lemma MessagePhrase.notAt {message : Message Identifier}
    (phrase : MessagePhrase tokens message rest) : NotAt sigil tokens := by
  cases phrase with
  | announced keyword => exact keyword.word.notAt
  | defined keyword => exact keyword.word.notAt

lemma MemberPhrase.notAt {member : Member} (phrase : MemberPhrase tokens member rest) :
    NotAt sigil tokens := by
  cases phrase with
  | field _ phrase => exact phrase.notAt
  | message phrase => exact phrase.notAt
  | enum phrase => exact phrase.notAt

lemma startsMessage_iff : startsMessage tokens = true ↔ MessageAhead tokens := by
  constructor
  · intro starts
    unfold startsMessage at starts
    split at starts
    · next keyword name next rest =>
      simp only [Bool.and_eq_true, Bool.or_eq_true, beq_iff_eq] at starts
      rcases starts with ⟨⟨isMessage, isWord⟩, further⟩
      refine .message ⟨keyword, isMessage, rfl⟩ ⟨name, isWord, rfl, rfl⟩ ?_
      rcases further with opened | extending
      · exact .inl ⟨rest, next, opened, rfl⟩
      · exact .inr ⟨rest, next, extending, rfl⟩
    · cases starts
  · rintro ⟨⟨keyword, isMessage, rfl⟩, ⟨name, isWord, rfl, _⟩, further⟩
    rcases further with ⟨rest, next, opened, rfl⟩ | ⟨rest, next, extending, rfl⟩
    · simp [startsMessage, isMessage, isWord, show next.kind = .openCurl from opened]
    · simp [startsMessage, isMessage, isWord, extending]

lemma fieldAhead_iff (same : tokens = token :: rest) : FieldAhead tokens ↔
      token.isKeyword "namespace" = false ∧ token.isKeyword "extern" = false ∧
        token.isKeyword "enum" = false ∧ startsMessage tokens = false := by
  have absent (keyword : String) : (∀ behind, ¬ Keyword keyword tokens behind) ↔
      token.isKeyword keyword = false := by
    simp only [same, Keyword.cons_iff, not_and, Bool.eq_false_iff]
    exact ⟨fun never found => never rest found rfl, fun never _ found => absurd found never⟩
  rw [← absent, ← absent, ← absent, Bool.eq_false_iff, ne_eq, startsMessage_iff]
  constructor
  · rintro ⟨notScope, notExtern, notEnum, notMessage⟩
    exact ⟨notScope, notExtern, notEnum, notMessage⟩
  · rintro ⟨notScope, notExtern, notEnum, notMessage⟩
    exact ⟨notScope, notExtern, notEnum, notMessage⟩

section
variable {final : Token}

variable {message : Message Identifier} {rest tokens behindKeyword : List Token}

variable {behindExtern behindName behindParents : List Token} {name : String}
    {parents : List Identifier}

lemma message_of_readExternal (announcing : Keyword "extern" tokens behindExtern)
    (read : readExternal final behindExtern = .ok (message, rest)) :
    MessagePhrase tokens message rest := by
  rcases readExternal_ok read with ⟨name, behindKeyword, behindName, keyword, word, closed, rfl⟩
  exact .announced announcing (afterKeyword?_eq_some_iff.mp keyword) (readWord_eq_ok_iff.mp word)
    (sigil_eq_ok_iff.mp closed)

mutual

lemma message_of_readMessage {tokens behindKeyword rest : List Token}
    {message : Message Identifier} (keyword : Keyword "message" tokens behindKeyword)
    (lexed : Lexed behindKeyword)
    (read : outcomeOf (readMessage final behindKeyword) = .ok (message, rest)) :
    MessagePhrase tokens message rest := by
  rw [outcomeOf_readMessage] at read
  rcases bind_eq_ok_iff.mp read with ⟨⟨⟨name, parents⟩, body⟩, header, read⟩
  rcases bind_eq_ok_iff.mp read with ⟨⟨members, behind⟩, found, done⟩
  cases done
  have shorter := length_of_readHeader final header
  rcases readHeader_ok header with ⟨behindName, behindParents, word, extending, opened⟩
  have word := readWord_eq_ok_iff.mp word
  have extending := parents_of_readExtends extending
  have opened := sigil_eq_ok_iff.mp opened
  have inside := (opened.suffix.trans (suffixed_parents extending)).trans (suffixed_word word)
  rcases members_of_readMembers (lexed.of_suffix inside) found with ⟨atClose, phrases, closed⟩
  exact .defined keyword word extending opened phrases closed (closing_skipSigil _)
termination_by (behindKeyword.length, 0)

lemma member_of_readMember {tokens rest : List Token} {member : Member} (lexed : Lexed tokens)
    (read : outcomeOf (readMember final tokens) = .ok (member, rest)) :
    MemberPhrase tokens member rest := by
  cases tokens with
  | nil =>
    rw [readMember] at read
    cases read
  | cons token tail =>
    have behind : Lexed tail := lexed.of_suffix (List.suffix_cons _ _)
    rw [outcomeOf_readMember_cons] at read
    split at read
    · cases read
    next notScope =>
    split at read
    · next isExtern =>
      rcases bind_eq_ok_iff.mp read with ⟨_, found, done⟩
      cases done
      exact .message (message_of_readExternal ⟨token, isExtern, rfl⟩ found)
    next notExtern =>
    split at read
    · next isEnum =>
      rcases bind_eq_ok_iff.mp read with ⟨_, found, done⟩
      cases done
      exact .enum (enum_of_readEnum ⟨token, isEnum, rfl⟩ found)
    next notEnum =>
    split at read
    · next starts =>
      rcases bind_eq_ok_iff.mp read with ⟨_, found, done⟩
      cases done
      rcases startsMessage_iff.mp starts with ⟨keyword, _, _⟩
      have isMessage := (Keyword.cons_iff.mp keyword).1
      exact .message (message_of_readMessage ⟨token, isMessage, rfl⟩ behind found)
    · next notMessage =>
      rcases bind_eq_ok_iff.mp read with ⟨_, found, done⟩
      cases done
      simp only [Bool.not_eq_true] at notScope notExtern notEnum notMessage
      exact .field ((fieldAhead_iff rfl).mpr ⟨notScope, notExtern, notEnum, notMessage⟩)
        ((readField_eq_ok_iff lexed).mp found)
termination_by (tokens.length, 1)

lemma members_of_readMembers {tokens rest : List Token} {members : List Member}
    (lexed : Lexed tokens) (read : outcomeOf (readMembers final tokens) = .ok (members, rest)) :
    ∃ atClose, Many MemberPhrase tokens members atClose ∧ Mark .closeCurl atClose rest := by
  rw [outcomeOf_readMembers] at read
  cases closed : afterSigil? .closeCurl tokens with
  | some behind =>
    rw [closed] at read
    cases read
    exact ⟨tokens, .none _, afterSigil?_eq_some_iff.mp closed⟩
  | none =>
    rw [closed] at read
    rcases bind_eq_ok_iff.mp read with ⟨⟨member, behind⟩, one, read⟩
    rcases bind_eq_ok_iff.mp read with ⟨_, more, done⟩
    cases done
    have shorter := length_of_outcomeOf one
    have head := member_of_readMember lexed one
    rcases members_of_readMembers (lexed.of_suffix (suffixed_member head)) more with
      ⟨atClose, tail, closed⟩
    exact ⟨atClose, .more head tail, closed⟩
termination_by (tokens.length, 2)

end

lemma readHeader_of_header (word : Word tokens name behindName)
    (extending : ParentsPhrase behindName parents behindParents)
    (opened : Mark .openCurl behindParents rest) :
    readHeader final tokens = .ok ((name, parents), rest) := by
  simp only [readHeader, readWord_eq_ok_iff.mpr word, readExtends_of_parents extending opened,
    sigil_eq_ok_iff.mpr opened]

lemma MessageAhead.of_parents (keyword : Keyword "message" tokens behindKeyword)
    (word : Word behindKeyword name behindName)
    (extending : ParentsPhrase behindName parents behindParents)
    (opened : Mark .openCurl behindParents rest) : MessageAhead tokens := by
  refine .message keyword word ?_
  cases extending with
  | absent => exact .inl ⟨rest, opened⟩
  | present inheriting _ _ => exact .inr ⟨_, inheriting⟩

mutual

/-- A message is read by one of two readers, depending on its first keyword. -/
lemma read_of_message {tokens rest : List Token} {message : Message Identifier}
    (lexed : Lexed tokens) (phrase : MessagePhrase tokens message rest)
    (stop : NotAt .semicolon rest) : (∃ behind, Keyword "extern" tokens behind ∧
        readExternal final behind = .ok (message, rest)) ∨
      ∃ behind, Keyword "message" tokens behind ∧ MessageAhead tokens ∧
        outcomeOf (readMessage final behind) = .ok (message, rest) := by
  cases phrase with
  | announced announcing keyword word closed =>
    refine .inl ⟨_, announcing, ?_⟩
    simp only [readExternal, afterKeyword?_eq_some_iff.mpr keyword,
      readWord_eq_ok_iff.mpr word, sigil_eq_ok_iff.mpr closed]
  | @defined _ behind _ _ behindOpen _ _ _ name parents _ keyword word extending opened body closed
      closing =>
    have header : readHeader final behind = .ok ((name, parents), behindOpen) :=
      readHeader_of_header word extending opened
    have shorter := length_of_readHeader final header
    have outside := length_of_afterKeyword? (afterKeyword?_eq_some_iff.mpr keyword)
    have inside := ((opened.suffix.trans (suffixed_parents extending)).trans
      (suffixed_word word)).trans keyword.suffix
    have found := readMembers_of_members (lexed.of_suffix inside) body closed
    refine .inr ⟨behind, keyword, .of_parents keyword word extending opened, ?_⟩
    -- A semicolon behind the body is taken, so none may follow it.
    simp only [outcomeOf_readMessage, header, found, Except.bind, closing.skipSigil_eq stop]
    rfl
termination_by (tokens.length, 0)
decreasing_by omega

lemma readMember_of_member {tokens rest : List Token} {member : Member} (lexed : Lexed tokens)
    (phrase : MemberPhrase tokens member rest) (stop : NotAt .semicolon rest) :
    outcomeOf (readMember final tokens) = .ok (member, rest) := by
  cases phrase with
  | field ahead phrase =>
    have read : readField final tokens = .ok (_, rest) := (readField_eq_ok_iff lexed).mpr phrase
    cases tokens with
    | nil => cases length_of_readField final read
    | cons token tail =>
      rcases (fieldAhead_iff rfl).mp ahead with ⟨notScope, notExtern, notEnum, notMessage⟩
      simp only [outcomeOf_readMember_cons, notScope, notExtern, notEnum, notMessage, read,
        Except.bind, Bool.false_eq_true, if_false]
  | enum phrase =>
    have found : ∃ behind, _ ∧ readEnum final behind = _ := readEnum_of_enum phrase stop
    rcases found with ⟨_, ⟨token, isEnum, rfl⟩, read⟩
    simp only [outcomeOf_readMember_cons, Token.isKeyword_eq isEnum, read, Except.bind,
      String.reduceBEq, Bool.false_eq_true, if_false, if_true]
  | message phrase =>
    rcases read_of_message lexed phrase stop with
      ⟨_, ⟨token, isExtern, rfl⟩, read⟩ | ⟨_, ⟨token, isMessage, rfl⟩, ahead, read⟩
    · simp only [outcomeOf_readMember_cons, Token.isKeyword_eq isExtern, read, Except.bind,
        String.reduceBEq, Bool.false_eq_true, if_false, if_true]
    · simp only [outcomeOf_readMember_cons, Token.isKeyword_eq isMessage,
        startsMessage_iff.mpr ahead, read, Except.bind, String.reduceBEq, Bool.false_eq_true,
        if_false, if_true]
termination_by (tokens.length, 1)

lemma readMembers_of_members {tokens atClose rest : List Token} {members : List Member}
    (lexed : Lexed tokens) (phrases : Many MemberPhrase tokens members atClose)
    (closed : Mark .closeCurl atClose rest) :
    outcomeOf (readMembers final tokens) = .ok (members, rest) := by
  rw [outcomeOf_readMembers]
  cases phrases with
  | none =>
    rw [afterSigil?_eq_some_iff.mpr closed]
    rfl
  | more head tail =>
    have stop : NotAt .semicolon _ := tail.notAt MemberPhrase.notAt (closed.notAt (by decide))
    have one := readMember_of_member lexed head stop
    have shorter := length_of_outcomeOf one
    have more := readMembers_of_members (lexed.of_suffix (suffixed_member head)) tail closed
    simp only [afterSigil?_eq_none_iff.mpr head.notAt, one, more, Except.bind, Option.elim]
termination_by (tokens.length, 2)
decreasing_by all_goals omega

end

end
end MessageSchema.Syntax
