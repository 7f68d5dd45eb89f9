import MessageSchema.Proofs.Syntax.MessagePhrases

namespace MessageSchema.Syntax

open List Bool

/-!
A source is accepted if and only if its lexemes derive a document.

What the scanner leaves of a source are lexemes with an empty token at their
end.  The document is read from those in front of it, up to the last.
-/

variable {document : Document} {source : List Char}

section
variable {final : Token}

lemma DeclarationPhrase.notAt {sigil : Sigil} {tokens rest : List Token}
    {declaration : Declaration} (phrase : DeclarationPhrase tokens declaration rest) :
    NotAt sigil tokens := by
  cases phrase with
  | scope keyword => exact keyword.word.notAt
  | message phrase => exact phrase.notAt
  | enum phrase => exact phrase.notAt

mutual

lemma declaration_of_readDeclaration {tokens rest : List Token} {declaration : Declaration}
    (lexed : Lexed tokens)
    (read : outcomeOf (readDeclaration final tokens) = .ok (declaration, rest)) :
    DeclarationPhrase tokens declaration rest := by
  cases tokens with
  | nil =>
    rw [readDeclaration] at read
    cases read
  | cons token tail =>
    have behind : tail <:+ token :: tail := suffix_cons _ _
    rw [outcomeOf_readDeclaration_cons] at read
    split at read
    · next isScope =>
      rcases bind_eq_ok_iff.mp read with ⟨⟨name, behindName⟩, foundName, read⟩
      rcases bind_eq_ok_iff.mp read with ⟨behindOpen, mark, read⟩
      rcases bind_eq_ok_iff.mp read with ⟨_, inner, done⟩
      cases done
      have shorterName := length_of_readName final foundName
      have shorterBody := length_of_sigil final mark
      have named := (readName_eq_ok_iff.mp foundName).1
      have opened := sigil_eq_ok_iff.mp mark
      have inside := opened.suffix.trans ((suffixed_name named).trans behind)
      rcases content_of_readContent (lexed.of_suffix inside) inner with ⟨atClose, phrases, closed⟩
      exact .scope ⟨token, isScope, rfl⟩ named opened phrases closed (closing_skipSigil _)
    split at read
    · next isExtern =>
      rcases bind_eq_ok_iff.mp read with ⟨_, found, done⟩
      cases done
      exact .message (message_of_readExternal ⟨token, isExtern, rfl⟩ found)
    split at read
    · next isMessage =>
      rcases bind_eq_ok_iff.mp read with ⟨_, found, done⟩
      cases done
      exact .message (message_of_readMessage ⟨token, isMessage, rfl⟩ (lexed.of_suffix behind) found)
    split at read
    · next isEnum =>
      rcases bind_eq_ok_iff.mp read with ⟨_, found, done⟩
      cases done
      exact .enum (enum_of_readEnum ⟨token, isEnum, rfl⟩ found)
    · cases read
termination_by (tokens.length, 0)
decreasing_by
  subst_vars
  simp only [length_cons] at *
  omega

lemma content_of_readContent {tokens rest : List Token} {content : List Declaration}
    (lexed : Lexed tokens) (read : outcomeOf (readContent final tokens) = .ok (content, rest)) :
    ∃ atClose, Many DeclarationPhrase tokens content atClose ∧ Mark .closeCurl atClose rest := by
  rw [outcomeOf_readContent] at read
  cases closed : afterSigil? .closeCurl tokens with
  | some behind =>
    rw [closed] at read
    cases read
    exact ⟨tokens, .none _, afterSigil?_eq_some_iff.mp closed⟩
  | none =>
    simp only [closed, Option.elim] at read
    split at read
    · cases read
    rcases bind_eq_ok_iff.mp read with ⟨⟨declaration, behind⟩, one, read⟩
    rcases bind_eq_ok_iff.mp read with ⟨_, more, done⟩
    cases done
    have shorter := length_of_outcomeOf one
    have head := declaration_of_readDeclaration lexed one
    rcases content_of_readContent (lexed.of_suffix (suffixed_declaration head)) more with
      ⟨atClose, tail, closed⟩
    exact ⟨atClose, .more head tail, closed⟩
termination_by (tokens.length, 1)

end

mutual

lemma readDeclaration_of_declaration {tokens rest : List Token} {declaration : Declaration}
    (lexed : Lexed tokens) (phrase : DeclarationPhrase tokens declaration rest)
    (stop : NotAt .semicolon rest) :
    outcomeOf (readDeclaration final tokens) = .ok (declaration, rest) := by
  cases phrase with
  | @scope _ behind behindName behindOpen _ _ _ name _ keyword named opened body closed closing =>
    have name : readName final behind = .ok (name, behindName) :=
      readName_eq_ok_iff.mpr ⟨named, opened.notAt (by decide)⟩
    have mark : sigil final .openCurl behindName = .ok behindOpen := sigil_eq_ok_iff.mpr opened
    have outside := length_of_afterKeyword? (afterKeyword?_eq_some_iff.mpr keyword)
    have shorterName := length_of_readName final name
    have shorterBody := length_of_sigil final mark
    have inside := (opened.suffix.trans (suffixed_name named)).trans keyword.suffix
    have found := readContent_of_content (lexed.of_suffix inside) body closed
    rcases keyword with ⟨token, isScope, rfl⟩
    simp only [outcomeOf_readDeclaration_cons, isScope, name, mark, found, Except.bind,
      closing.skipSigil_eq stop, if_true]
  | message phrase =>
    have found : (∃ behind, _ ∧ readExternal final behind = _) ∨ _ :=
      read_of_message lexed phrase stop
    rcases found with ⟨_, ⟨token, isExtern, rfl⟩, read⟩ | ⟨_, ⟨token, isMessage, rfl⟩, _, read⟩
    · simp only [outcomeOf_readDeclaration_cons, Token.isKeyword_eq isExtern, read, Except.bind,
        String.reduceBEq, false_eq_true, if_false, if_true]
    · simp only [outcomeOf_readDeclaration_cons, Token.isKeyword_eq isMessage, read, Except.bind,
        String.reduceBEq, false_eq_true, if_false, if_true]
  | enum phrase =>
    have found : ∃ behind, _ ∧ readEnum final behind = _ := readEnum_of_enum phrase stop
    rcases found with ⟨_, ⟨token, isEnum, rfl⟩, read⟩
    simp only [outcomeOf_readDeclaration_cons, Token.isKeyword_eq isEnum, read, Except.bind,
      String.reduceBEq, false_eq_true, if_false, if_true]
termination_by (tokens.length, 0)
decreasing_by omega

lemma readContent_of_content {tokens atClose rest : List Token} {content : List Declaration}
    (lexed : Lexed tokens) (phrases : Many DeclarationPhrase tokens content atClose)
    (closed : Mark .closeCurl atClose rest) :
    outcomeOf (readContent final tokens) = .ok (content, rest) := by
  rw [outcomeOf_readContent]
  cases phrases with
  | none =>
    rw [afterSigil?_eq_some_iff.mpr closed]
    rfl
  | more head tail =>
    have stop : NotAt .semicolon _ :=
      tail.notAt DeclarationPhrase.notAt (closed.notAt (by decide))
    have one := readDeclaration_of_declaration lexed head stop
    have shorter := length_of_outcomeOf one
    have more := readContent_of_content (lexed.of_suffix (suffixed_declaration head)) tail closed
    have some : tokens.isEmpty = false := by
      cases tokens with
      | nil => cases shorter
      | cons token tail => rfl
    simp only [afterSigil?_eq_none_iff.mpr head.notAt, one, more, some, Except.bind, Option.elim,
      false_eq_true, if_false]
termination_by (tokens.length, 1)
decreasing_by all_goals omega

end

variable {rest tokens : List Token}

lemma notAt_nil {sigil : Sigil} : NotAt sigil [] := by
  rintro rest ⟨_, _, empty⟩
  cases empty

lemma document_of_readDocument {tokens : List Token} {document : Document}
    (lexed : Lexed tokens) (read : readDocument final tokens = .ok document) :
    Many DeclarationPhrase tokens document [] := by
  cases tokens with
  | nil =>
    rw [readDocument] at read
    cases read
    exact .none _
  | cons token tail =>
    rw [readDocument_cons] at read
    rcases bind_eq_ok_iff.mp read with ⟨⟨declaration, behind⟩, one, read⟩
    rcases bind_eq_ok_iff.mp read with ⟨_, more, done⟩
    cases done
    have shorter := length_of_outcomeOf one
    have head := declaration_of_readDeclaration lexed one
    exact .more head (document_of_readDocument (lexed.of_suffix (suffixed_declaration head)) more)
termination_by tokens.length

lemma readDocument_of_document (lexed : Lexed tokens)
    (phrases : Many DeclarationPhrase tokens document rest) (ended : rest = []) :
    readDocument final tokens = .ok document := by
  induction phrases with
  | none =>
    subst ended
    rw [readDocument]
  | @more tokens middle rest declaration others head tail ih =>
    -- The next declaration starts with a word, and behind the last one is nothing.
    have stop : NotAt .semicolon middle :=
      tail.notAt DeclarationPhrase.notAt (by rw [ended]; exact notAt_nil)
    have one : outcomeOf (readDeclaration final tokens) = .ok (declaration, middle) :=
      readDeclaration_of_declaration lexed head stop
    have further := ih (lexed.of_suffix (suffixed_declaration head)) ended
    cases tokens with
    | nil => cases length_of_outcomeOf one
    | cons token behind => simp only [readDocument_cons, one, further, Except.bind]

end

/-- The tokens of a scan that came to its end are the lexemes of the source
and the empty token behind them. -/
lemma significant_scan (complete : (scan source).error = none) :
    ∃ declared atEnd, significant (scan source).tokens = declared ++ [atEnd] ∧
      atEnd.kind = .final ∧ Lexed declared := by
  rcases scan_final complete with ⟨before, start, same⟩
  have lexed := lexed_scan source
  rw [same] at lexed ⊢
  refine ⟨significant before, ⟨.final, [], start, false⟩, filter_append _ _, rfl, ?_, ?_⟩
  · intro token member
    exact lexed.worded token (mem_append_left _ (mem_of_mem_filter member))
  · intro token member
    exact lexed.plain token (mem_append_left _ (mem_of_mem_filter member))

lemma derives_iff {declared : List Token} {atEnd : Token} (final : atEnd.kind = .final) :
    Derives (declared ++ [atEnd]) document ↔ Many DeclarationPhrase declared document [] := by
  constructor
  · intro derived
    generalize same : declared ++ [atEnd] = tokens at derived
    cases derived with
    | document content _ =>
      rw [(append_inj' same rfl).1]
      exact content
  · intro content
    exact .document content final

lemma parseTokens_scan_iff (complete : (scan source).error = none) :
    parseTokens (scan source).tokens = .ok document ↔
      Derives (significant (scan source).tokens) document := by
  rcases significant_scan complete with ⟨declared, atEnd, same, final, lexed⟩
  rw [parseTokens, same, derives_iff final, dropLast_concat]
  exact ⟨document_of_readDocument lexed, fun phrases => readDocument_of_document lexed phrases rfl⟩

lemma scan_of_tokenize {source : List UInt8} {scanned : Scan}
    (tokenized : tokenize source = .ok scanned) : ∃ chars, scanned = scan chars := by
  unfold tokenize at tokenized
  split at tokenized
  · next chars _ =>
    cases tokenized
    exact ⟨chars, rfl⟩
  · cases tokenized

/-- Parsing accepts a source if and only if the source can be cut into tokens
to its end and the tokens that mean something derive a document.  It returns
the document that they derive. -/
theorem parse_eq_ok_iff_derives {source : List UInt8} {document : Document} :
    parse source = .ok document ↔
      ∃ scanned, tokenize source = .ok scanned ∧ scanned.error = none ∧
        Derives (significant scanned.tokens) document := by
  constructor
  · intro parsed
    unfold parse at parsed
    split at parsed
    · cases parsed
    · next scanned tokenized =>
      split at parsed
      · cases parsed
      · next complete =>
        rcases scan_of_tokenize tokenized with ⟨chars, rfl⟩
        exact ⟨_, tokenized, complete, (parseTokens_scan_iff complete).mp parsed⟩
  · rintro ⟨scanned, tokenized, complete, derived⟩
    rcases scan_of_tokenize tokenized with ⟨chars, rfl⟩
    simp only [parse, tokenized, complete]
    exact (parseTokens_scan_iff complete).mpr derived

end MessageSchema.Syntax
