import MessageSchema.Proofs.Syntax.Inversion
import MessageSchema.Proofs.Syntax.Phrases

namespace MessageSchema.Syntax

/-!
Enums as they are read and as the grammar has them.

The reader numbers the items while it reads them.  The grammar separates the items
as written from the values that follow.  The value of an item without one depends
only on the item before it, and that is all the reader takes from the items so far.
-/

variable {decl : EnumDecl} {atClose behindFirst : List Token} {others : List WrittenItem}
  {previous written : Option Int} {sigil : Sigil} {name : String} {first item : WrittenItem}

/-- The value of the last item, behind which the next one is numbered. -/
def lastValue (items : List EnumItem) : Option Int :=
  items.getLast?.map EnumItem.value

@[simp]
lemma lastValue_append_singleton (items : List EnumItem) (item : EnumItem) :
    lastValue (items ++ [item]) = some item.value := by
  simp [lastValue]

/-- Values that were written or counted fit in 32 bits. -/
def Bounded (items : List EnumItem) : Prop :=
  ∀ value ∈ lastValue items, value <= maxInt32

lemma bounded_nil : Bounded [] :=
  fun _ none => nomatch none

variable {enum : String} {seen : List EnumItem} {value : Int}

lemma nextValue_eq_ok_iff (bounded : Bounded seen) :
    EnumItem.nextValue enum name seen = .ok value ↔ ItemValue (lastValue seen) none value := by
  unfold EnumItem.nextValue
  unfold Bounded at bounded
  cases last : seen.getLast? with
  | none =>
    simp only [lastValue, last, Option.map_none]
    constructor
    · intro same
      cases same
      exact .first
    · intro valued
      cases valued
      rfl
  | some item =>
    simp only [lastValue, last, Option.map_some, Option.mem_def, Option.some.injEq,
      forall_eq'] at bounded ⊢
    constructor
    · intro counted
      split at counted
      · cases counted
      · next notLargest =>
        cases counted
        exact .next (by omega)
    · intro valued
      cases valued with
      | next fits => rw [if_neg (by omega)]

lemma ItemValue.le_maxInt32
    (valued : ItemValue previous written value)
    (writtenFits : ∀ given ∈ written, given <= maxInt32) :
    value <= maxInt32 := by
  cases valued with
  | given => exact writtenFits value rfl
  | first => decide
  | next fits => exact fits

section
variable {final : Token}

variable {tokens rest : List Token}

lemma afterSeparator?_eq_some_iff : afterSeparator? tokens = some rest ↔ Separator tokens rest := by
  unfold afterSeparator? Separator
  constructor
  · intro found
    split at found
    · next behind comma =>
      cases found
      exact .inl (afterSigil?_eq_some_iff.mp comma)
    · exact .inr (afterSigil?_eq_some_iff.mp found)
  · rintro (comma | semicolon)
    · rw [afterSigil?_eq_some_iff.mpr comma]
    · have notComma : NotAt .comma tokens := semicolon.notAt (by decide)
      rw [afterSigil?_eq_none_iff.mpr notComma]
      exact afterSigil?_eq_some_iff.mpr semicolon

lemma Separator.notAt (separator : Separator tokens rest)
    (notComma : Sigil.comma ≠ sigil) (notSemicolon : Sigil.semicolon ≠ sigil) :
    NotAt sigil tokens := by
  rcases separator with comma | semicolon
  · exact comma.notAt notComma
  · exact semicolon.notAt notSemicolon

lemma ItemPhrase.notAt (phrase : ItemPhrase tokens item rest) : NotAt sigil tokens := by
  rcases phrase with ⟨word, _⟩
  exact word.notAt

lemma ItemPhrase.le_maxInt32 (phrase : ItemPhrase tokens item rest) :
    ∀ value ∈ item.2, value <= maxInt32 := by
  rcases phrase with ⟨_, assigned⟩
  cases assigned with
  | absent => exact fun _ none => nomatch none
  | present found =>
    rcases found with ⟨_, _, int, _⟩
    intro value same
    cases same
    exact int.largest

/-- An item is read like an ordinal, and numbered where none is written. -/
lemma readItem_eq (enum : String) (seen : List EnumItem) (tokens : List Token) :
    readItem final enum seen tokens =
      match readWord final tokens with
      | .error error => .error error
      | .ok (name, behindName) =>
        match readOrdinal final behindName with
        | .error error => .error error
        | .ok (some value, rest) => .ok (⟨name, value⟩, rest)
        | .ok (none, rest) =>
          match EnumItem.nextValue enum name seen with
          | .ok value => .ok (⟨name, value⟩, rest)
          | .error cause => .error ⟨.contentInvalid cause, (peek final tokens).span⟩ := by
  unfold readItem readOrdinal
  cases readWord final tokens with
  | error error => rfl
  | ok named =>
    simp only
    cases afterSigil? .equals named.2 with
    | none => rfl
    | some behindEquals =>
      simp only
      cases readInt final behindEquals <;> rfl

variable {item : EnumItem} {items : List EnumItem}

lemma item_of_readItem (bounded : Bounded seen)
    (read : readItem final enum seen tokens = .ok (item, rest)) :
    ∃ written, ItemPhrase tokens (item.name, written) rest ∧
      ItemValue (lastValue seen) written item.value := by
  rw [readItem_eq] at read
  split at read
  · cases read
  · next name behindName word =>
    have word := readWord_eq_ok_iff.mp word
    split at read
    · cases read
    · next value behind ordinal =>
      cases read
      exact ⟨some value, .item word (ordinal_of_readOrdinal ordinal), .given _ _⟩
    · next behind ordinal =>
      split at read
      · next value counted =>
        cases read
        exact ⟨none, .item word (ordinal_of_readOrdinal ordinal),
          (nextValue_eq_ok_iff bounded).mp counted⟩
      · cases read

variable (final) in
lemma readItem_of_item (enum : String)
    (bounded : Bounded seen) (phrase : ItemPhrase tokens (name, written) rest)
    (valued : ItemValue (lastValue seen) written value) (stop : NotAt .equals rest) :
    readItem final enum seen tokens = .ok (⟨name, value⟩, rest) := by
  rcases phrase with ⟨word, assigned⟩
  simp only [readItem_eq, readWord_eq_ok_iff.mpr word, readOrdinal_of_ordinal assigned stop]
  cases written with
  | some given =>
    generalize lastValue seen = previous at valued
    cases valued
    rfl
  | none => simp only [(nextValue_eq_ok_iff bounded).mpr valued]

lemma ItemsPhrase.cons {behindSeparator : List Token} (item : ItemPhrase tokens first behindFirst)
    (separator : Separator behindFirst behindSeparator)
    (phrase : ItemsPhrase behindSeparator others rest) :
    ItemsPhrase tokens (first :: others) rest := by
  cases phrase with
  | none => exact .separated item (.none _) separator
  | some second further => exact .some item (.more (.further separator second) further)
  | separated second further last =>
    exact .separated item (.more (.further separator second) further) last

lemma Bounded.append_item (phrase : ItemPhrase tokens (item.name, written) rest)
    (valued : ItemValue previous written item.value) : Bounded (items ++ [item]) := by
  simpa [Bounded] using valued.le_maxInt32 phrase.le_maxInt32

lemma items_of_readItems (bounded : Bounded seen)
    (read : readItems final enum seen tokens = .ok (items, rest)) :
    ∃ written atClose numbered, ItemsPhrase tokens written atClose ∧
      Mark .closeCurl atClose rest ∧ items = seen ++ numbered ∧
      Numbered (lastValue seen) written numbered := by
  fun_induction readItems final enum seen tokens with
  | case1 seen tokens behind close =>
    cases read
    exact ⟨[], tokens, [], .none _, afterSigil?_eq_some_iff.mp close,
      (List.append_nil _).symm, .nil _⟩
  | case2 => cases read
  | case3 seen tokens notClosed item behindItem found shorter behind separator _ ih =>
    rcases item_of_readItem bounded found with ⟨given, phrase, valued⟩
    rcases ih (.append_item phrase valued) read with
      ⟨written, atClose, numbered, others, closed, same, further⟩
    rw [lastValue_append_singleton] at further
    refine ⟨_, atClose, item :: numbered, .cons phrase (afterSeparator?_eq_some_iff.mp separator)
      others, closed, ?_, .cons valued further⟩
    rw [same, List.append_assoc, List.singleton_append]
  | case4 => cases read
  | case5 seen tokens notClosed item behindItem found shorter noSeparator behind close =>
    cases read
    rcases item_of_readItem bounded found with ⟨given, phrase, valued⟩
    exact ⟨_, behindItem, [item], .some phrase (.none _), sigil_eq_ok_iff.mp close, rfl,
      .cons valued (.nil _)⟩

lemma readItems_of_closed (closed : Mark .closeCurl tokens rest) :
    readItems final enum seen tokens = .ok (seen, rest) := by
  rw [readItems, afterSigil?_eq_some_iff.mpr closed]

lemma readItems_of_separated {behindItem behind : List Token} (notClosed : NotAt .closeCurl tokens)
    (read : readItem final enum seen tokens = .ok (item, behindItem))
    (separator : Separator behindItem behind) :
    readItems final enum seen tokens = readItems final enum (seen ++ [item]) behind := by
  rw [readItems_eq, afterSigil?_eq_none_iff.mpr notClosed]
  simp only [Option.elim, read, Except.bind, afterSeparator?_eq_some_iff.mpr separator]

lemma readItems_of_last (notClosed : NotAt .closeCurl tokens)
    (read : readItem final enum seen tokens = .ok (item, atClose))
    (closed : Mark .closeCurl atClose rest) :
    readItems final enum seen tokens = .ok (seen ++ [item], rest) := by
  have noSeparator : afterSeparator? atClose = none := by
    apply Option.eq_none_iff_forall_ne_some.mpr
    intro behind separator
    have notClose : NotAt .closeCurl atClose :=
      (afterSeparator?_eq_some_iff.mp separator).notAt (by decide) (by decide)
    exact notClose rest closed
  rw [readItems_eq, afterSigil?_eq_none_iff.mpr notClosed]
  simp only [Option.elim, read, Except.bind, noSeparator, sigil_eq_ok_iff.mpr closed]

/-- The induction is on the items behind the first, which may be followed by a
separator or not. -/
lemma readItems_of_further {behindOthers : List Token} (bounded : Bounded seen)
    (item : ItemPhrase tokens first behindFirst)
    (further : Many FurtherItemPhrase behindFirst others behindOthers)
    (numbered : Numbered (lastValue seen) (first :: others) items)
    (ended : Mark .closeCurl behindOthers rest ∨
      ∃ atClose, Separator behindOthers atClose ∧ Mark .closeCurl atClose rest) :
    readItems final enum seen tokens = .ok (seen ++ items, rest) := by
  induction further generalizing tokens first seen items with
  | none behindFirst =>
    cases numbered with
    | cons valued none =>
      cases none
      rcases ended with closed | ⟨atClose, separator, closed⟩
      · have read := readItem_of_item final enum bounded item valued
          (closed.notAt (by decide))
        exact readItems_of_last item.notAt read closed
      · have read := readItem_of_item final enum bounded item valued
          (separator.notAt (by decide) (by decide))
        rw [readItems_of_separated item.notAt read separator, readItems_of_closed closed]
  | more head tail ih =>
    rcases head with ⟨separator, second⟩
    cases numbered with
    | cons valued numbered =>
      have read := readItem_of_item final enum bounded item valued
        (separator.notAt (by decide) (by decide))
      -- The items behind this one are numbered from its value.
      rw [← lastValue_append_singleton seen ⟨_, _⟩] at numbered
      rw [readItems_of_separated item.notAt read separator,
        ih (.append_item item valued) second numbered ended, List.append_assoc,
        List.singleton_append]

lemma readItems_of_items {written : List WrittenItem}
    (phrase : ItemsPhrase tokens written atClose) (closed : Mark .closeCurl atClose rest)
    (numbered : Numbered none written items) :
    readItems final enum [] tokens = .ok (items, rest) := by
  cases phrase with
  | none =>
    cases numbered
    exact readItems_of_closed closed
  | some item further => exact readItems_of_further bounded_nil item further numbered (.inl closed)
  | separated item further separator =>
    exact readItems_of_further bounded_nil item further numbered (.inr ⟨_, separator, closed⟩)

lemma enum_of_readEnum {behindKeyword : List Token} (keyword : Keyword "enum" tokens behindKeyword)
    (read : readEnum final behindKeyword = .ok (decl, rest)) : EnumPhrase tokens decl rest := by
  rcases readEnum_ok read with
    ⟨name, behindName, behindOpen, behindItems, word, opened, found, sameName, sameRest⟩
  rcases items_of_readItems bounded_nil found with
    ⟨written, atClose, items, listed, closed, same, numbered⟩
  rcases decl with ⟨declName, declItems⟩
  subst sameName same sameRest
  exact .enum keyword (readWord_eq_ok_iff.mp word) (sigil_eq_ok_iff.mp opened) listed closed
    (closing_skipSigil _) numbered

lemma readEnum_of_enum (phrase : EnumPhrase tokens decl rest) (stop : NotAt .semicolon rest) :
    ∃ behindKeyword, Keyword "enum" tokens behindKeyword ∧
      readEnum final behindKeyword = .ok (decl, rest) := by
  rcases phrase with ⟨keyword, word, opened, listed, closed, closing, numbered⟩
  refine ⟨_, keyword, ?_⟩
  simp only [readEnum, readWord_eq_ok_iff.mpr word, sigil_eq_ok_iff.mpr opened,
    readItems_of_items listed closed numbered, closing.skipSigil_eq stop]

end
end MessageSchema.Syntax
