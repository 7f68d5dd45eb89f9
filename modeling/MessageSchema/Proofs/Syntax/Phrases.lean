import MessageSchema.Proofs.Syntax.Inversion
import MessageSchema.Proofs.Syntax.Literals

namespace MessageSchema.Syntax

open List Option String

/-!
Readers and the phrases they read: marks, words, names and literals.  A reader that
succeeds has read a phrase of its rule.  The other way round a reader goes on as
long as it can, so behind the phrase must not stand what would continue it.
-/

/-- The tokens do not start with the mark. -/
def NotAt (sigil : Sigil) (tokens : List Token) : Prop :=
  ∀ rest, ¬ Mark sigil tokens rest

lemma Sigil.kind_inj {left right : Sigil} (same : left.kind = right.kind) : left = right := by
  cases left <;> cases right <;> first | rfl | cases same

variable {rest tokens : List Token} {keyword : String}

lemma Mark.notAt {found other : Sigil} (mark : Mark found tokens rest) (different : found ≠ other) :
    NotAt other tokens := by
  rcases mark with ⟨token, kind, rfl⟩
  rintro behind ⟨again, otherKind, same⟩
  cases same
  exact different (Sigil.kind_inj (kind.symm.trans otherKind))

variable {expected : Sigil}

lemma Mark.suffix (mark : Mark expected tokens rest) : rest <:+ tokens := by
  rcases mark with ⟨token, _, rfl⟩
  exact suffix_cons token rest

lemma Keyword.suffix (found : Keyword keyword tokens rest) : rest <:+ tokens := by
  rcases found with ⟨token, _, rfl⟩
  exact suffix_cons token rest

variable {name : String}

lemma Word.notAt (word : Word tokens name rest) : NotAt expected tokens := by
  rcases word with ⟨token, kind, rfl, _⟩
  rintro behind ⟨again, otherKind, same⟩
  cases same
  rw [kind] at otherKind
  cases expected <;> cases otherKind

lemma IntPhrase.notAt {value : Int} (int : IntPhrase tokens value rest) :
    NotAt expected tokens := by
  rcases int with ⟨token, ⟨kind, _⟩, rfl⟩
  rintro behind ⟨again, otherKind, same⟩
  cases same
  rw [otherKind] at kind
  cases expected <;> rcases kind with kind | kind <;> cases kind

lemma Keyword.word (found : Keyword keyword tokens rest) : Word tokens keyword rest := by
  rcases found with ⟨token, isKeyword, same⟩
  rcases Token.isKeyword_iff.mp isKeyword with ⟨kind, text⟩
  exact ⟨token, kind, same, by rw [text, ofList_toList]⟩

variable {behind : List Token}

lemma Mark.not_keyword (mark : Mark expected tokens rest) : ¬ Keyword keyword tokens behind :=
  fun found => found.word.notAt rest mark

lemma Word.keyword_iff (word : Word tokens name rest) :
    Keyword keyword tokens behind ↔ name = keyword ∧ behind = rest := by
  rcases word with ⟨token, kind, rfl, rfl⟩
  simp only [Keyword, Token.isKeyword_iff, List.cons.injEq]
  constructor
  · rintro ⟨again, ⟨_, text⟩, rfl, rfl⟩
    rw [text, ofList_toList]
    exact ⟨rfl, rfl⟩
  · rintro ⟨rfl, rfl⟩
    exact ⟨token, ⟨kind, String.toList_ofList.symm⟩, rfl, rfl⟩

section
variable {final : Token}

lemma afterSigil?_eq_some_iff :
    afterSigil? expected tokens = some rest ↔ Mark expected tokens rest := by
  cases tokens with
  | nil => simp [afterSigil?, Mark]
  | cons token tail => simp [afterSigil?, Mark]

lemma afterSigil?_eq_none_iff : afterSigil? expected tokens = none ↔ NotAt expected tokens := by
  simp only [eq_none_iff_forall_ne_some, ne_eq, afterSigil?_eq_some_iff, NotAt]

lemma sigil_eq_ok_iff : sigil final expected tokens = .ok rest ↔ Mark expected tokens rest := by
  cases tokens with
  | nil => simp [sigil, Mark]
  | cons token tail =>
    by_cases found : token.kind = expected.kind <;> simp [sigil, Mark, found]

lemma afterKeyword?_eq_some_iff :
    afterKeyword? keyword tokens = some rest ↔ Keyword keyword tokens rest := by
  cases tokens with
  | nil => simp [afterKeyword?, Keyword]
  | cons token tail => simp [afterKeyword?, Keyword]

lemma afterKeyword?_eq_none_iff :
    afterKeyword? keyword tokens = none ↔ ∀ rest, ¬ Keyword keyword tokens rest := by
  simp only [eq_none_iff_forall_ne_some, ne_eq, afterKeyword?_eq_some_iff]

lemma readWord_eq_ok_iff : readWord final tokens = .ok (name, rest) ↔ Word tokens name rest := by
  cases tokens with
  | nil => simp [readWord, Word]
  | cons token tail =>
    simp only [readWord, Word, List.cons.injEq]
    split
    · next word =>
      constructor
      · intro read
        cases read
        exact ⟨token, word, ⟨rfl, rfl⟩, rfl⟩
      · rintro ⟨again, _, ⟨rfl, rfl⟩, rfl⟩
        rfl
    · next notWord =>
      constructor
      · intro read
        cases read
      · rintro ⟨again, word, ⟨rfl, _⟩, _⟩
        exact absurd word notWord

lemma readInt_eq_ok_iff {value : Int} :
    readInt final tokens = .ok (value, rest) ↔ IntPhrase tokens value rest := by
  cases tokens with
  | nil => simp [readInt, IntPhrase]
  | cons token tail =>
    cases found : int32Value token with
    | error error =>
      simp [readInt, IntPhrase, found, ← int32Value_eq_ok_iff]
    | ok number =>
      simp [readInt, IntPhrase, found, ← int32Value_eq_ok_iff]

lemma readLiteral_eq_ok_iff {value : Literal} (lexed : Lexed tokens) :
    readLiteral final tokens = .ok (value, rest) ↔ LiteralPhrase tokens value rest := by
  cases tokens with
  | nil => simp [readLiteral, LiteralPhrase]
  | cons token tail =>
    have values : literalValue token = .ok value ↔ token.IsLiteral value :=
      literalValue_eq_ok_iff (lexed.plain token mem_cons_self)
    cases found : literalValue token with
    | error error =>
      rw [found] at values
      simp [readLiteral, LiteralPhrase, found, ← values]
    | ok literal =>
      rw [found] at values
      simp [readLiteral, LiteralPhrase, found, ← values]

/-- The mark at the end of a body is taken wherever it stands. -/
lemma closing_skipSigil (tokens : List Token) : Closing tokens (skipSigil .semicolon tokens) := by
  unfold skipSigil
  cases found : afterSigil? .semicolon tokens with
  | none => exact .absent
  | some rest => exact .present (afterSigil?_eq_some_iff.mp found)

lemma Closing.skipSigil_eq (closing : Closing tokens rest) (stop : NotAt .semicolon rest) :
    skipSigil .semicolon tokens = rest := by
  unfold skipSigil
  cases closing with
  | absent => rw [afterSigil?_eq_none_iff.mpr stop, getD_none]
  | present mark => rw [afterSigil?_eq_some_iff.mpr mark, getD_some]

lemma ordinal_of_readOrdinal {ordinal : Option Int}
    (read : readOrdinal final tokens = .ok (ordinal, rest)) :
    Maybe AssignedPhrase tokens ordinal rest := by
  unfold readOrdinal at read
  split at read
  · cases read
    exact .absent _
  · next behind equals =>
    split at read
    · cases read
    · next value behindValue int =>
      cases read
      exact .present (.assigned (afterSigil?_eq_some_iff.mp equals) (readInt_eq_ok_iff.mp int))

lemma readOrdinal_of_ordinal {ordinal : Option Int}
    (phrase : Maybe AssignedPhrase tokens ordinal rest) (stop : NotAt .equals rest) :
    readOrdinal final tokens = .ok (ordinal, rest) := by
  cases phrase with
  | absent => simp only [readOrdinal, afterSigil?_eq_none_iff.mpr stop]
  | present found =>
    rcases found with ⟨equals, int⟩
    simp only [readOrdinal, afterSigil?_eq_some_iff.mpr equals, readInt_eq_ok_iff.mpr int]

lemma readSegments_eq_ok_iff {segments : List String} :
    readSegments final tokens = .ok (segments, rest) ↔
      Many SegmentPhrase tokens segments rest ∧ NotAt .dot rest := by
  constructor
  · intro read
    fun_induction readSegments final tokens generalizing segments rest with
    | case1 =>
      cases read
      refine ⟨.none _, ?_⟩
      rintro behind ⟨_, _, empty⟩
      cases empty
    | case2 => cases read
    | case3 dot isDot name tail isWord segments' rest' found ih =>
      cases read
      rcases ih found with ⟨further, stop⟩
      exact ⟨.more (.segment ⟨dot, isDot, rfl⟩ ⟨name, isWord, rfl, rfl⟩) further, stop⟩
    | case4 => cases read
    | case5 => cases read
    | case6 dot tail notDot =>
      cases read
      exact ⟨.none _, afterSigil?_eq_none_iff.mp (if_neg notDot)⟩
  · rintro ⟨further, stop⟩
    induction further with
    | none tokens =>
      cases tokens with
      | nil => rfl
      | cons token tail =>
        have notDot : token.kind ≠ .dot := fun isDot => stop tail ⟨token, isDot, rfl⟩
        unfold readSegments
        rw [if_neg notDot]
    | more head _ ih =>
      rcases head with ⟨⟨dot, isDot, rfl⟩, ⟨name, isWord, rfl, rfl⟩⟩
      have isDot : dot.kind = .dot := isDot
      simp only [readSegments, isDot, isWord, ih stop, if_true]

lemma readName_eq_ok_iff {name : Identifier} :
    readName final tokens = .ok (name, rest) ↔ NamePhrase tokens name rest ∧ NotAt .dot rest := by
  unfold readName
  constructor
  · intro read
    split at read
    · cases read
    · next first tail word =>
      split at read
      · cases read
      · next segments rest' found =>
        cases read
        rcases readSegments_eq_ok_iff.mp found with ⟨further, stop⟩
        exact ⟨.name (readWord_eq_ok_iff.mp word) further, stop⟩
  · rintro ⟨⟨word, further⟩, stop⟩
    simp only [readWord_eq_ok_iff.mpr word, readSegments_eq_ok_iff.mpr ⟨further, stop⟩]

lemma NamePhrase.word {name : Identifier} (named : NamePhrase tokens name rest) :
    ∃ first behind, Word tokens first behind := by
  rcases named with ⟨word, _⟩
  exact ⟨_, _, word⟩

variable {parents : List Identifier}

lemma parents_of_readParents (read : readParents final tokens = .ok (parents, rest)) :
    Many FurtherParentPhrase tokens parents rest := by
  fun_induction readParents final tokens generalizing parents rest with
  | case1 =>
    cases read
    exact .none _
  | case2 => cases read
  | case3 => cases read
  | case4 tokens behind comma _ parent behindName name _ parents' rest' found ih =>
    cases read
    have named := (readName_eq_ok_iff.mp name).1
    exact .more (.further (afterSigil?_eq_some_iff.mp comma) named) (ih found)

variable (final) in
/-- Behind each name stands a comma or the mark at the end. -/
lemma readParents_of_parents (further : Many FurtherParentPhrase tokens parents rest)
    (opened : Mark .openCurl rest behind) :
    readParents final tokens = .ok (parents, rest) ∧ NotAt .dot tokens := by
  induction further with
  | none tokens =>
    refine ⟨?_, opened.notAt (by decide)⟩
    have stop : NotAt .comma tokens := opened.notAt (by decide)
    rw [readParents_eq, afterSigil?_eq_none_iff.mpr stop]
    rfl
  | more head _ ih =>
    rcases head with ⟨comma, named⟩
    rcases ih opened with ⟨others, stop⟩
    refine ⟨?_, comma.notAt (by decide)⟩
    rw [readParents_eq, afterSigil?_eq_some_iff.mpr comma]
    simp only [Option.elim, readName_eq_ok_iff.mpr ⟨named, stop⟩, others, Except.bind]

lemma parents_of_readExtends (read : readExtends final tokens = .ok (parents, rest)) :
    ParentsPhrase tokens parents rest := by
  unfold readExtends at read
  split at read
  · cases read
    exact .absent _
  · next behind keyword =>
    split at read
    · cases read
    · next parent tail name =>
      split at read
      · cases read
      · next parents' rest' more =>
        cases read
        exact .present (afterKeyword?_eq_some_iff.mp keyword) (readName_eq_ok_iff.mp name).1
          (parents_of_readParents more)

lemma readExtends_of_parents (extending : ParentsPhrase tokens parents rest)
    (opened : Mark .openCurl rest behind) : readExtends final tokens = .ok (parents, rest) := by
  unfold readExtends
  cases extending with
  | absent =>
    have none : afterKeyword? "extends" rest = none :=
      afterKeyword?_eq_none_iff.mpr fun _ => opened.not_keyword
    rw [none]
  | present keyword named further =>
    have others := readParents_of_parents final further opened
    simp only [afterKeyword?_eq_some_iff.mpr keyword, others.1,
      readName_eq_ok_iff.mpr ⟨named, others.2⟩]

end
end MessageSchema.Syntax
