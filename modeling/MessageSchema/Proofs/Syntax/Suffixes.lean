import MessageSchema.Proofs.Syntax.Phrases

namespace MessageSchema.Syntax

open List

/-!
What a phrase leaves of the tokens: an end of those at which it starts.  So what
holds of all tokens of a source, such as that their words can be segments of names,
holds wherever a phrase starts.
-/

/-- The phrases of the rule leave an end of the tokens at which they start. -/
def Suffixed {α : Type} (phrase : Phrase α) : Prop :=
  ∀ ⦃tokens : List Token⦄ ⦃value : α⦄ ⦃rest : List Token⦄,
    phrase tokens value rest -> rest <:+ tokens

section
variable {α : Type} {phrase : Phrase α} {tokens rest : List Token}

variable {values : List α}

section
variable (many : Many phrase tokens values rest)
include many

lemma Many.suffix_of_forall
    (each : ∀ value ∈ values, ∀ front back, phrase front value back -> back <:+ front) :
    rest <:+ tokens := by
  induction many with
  | none tokens => exact suffix_rfl
  | more head tail ih =>
    rw [forall_mem_cons] at each
    exact (ih each.2).trans (each.1 _ _ head)

lemma Many.suffix (suffixed : Suffixed phrase) : rest <:+ tokens :=
  many.suffix_of_forall fun _ _ _ _ found => suffixed found

/-- What is listed stands between the beginning of the list and its end. -/
lemma Many.exists_between (suffixed : Suffixed phrase) : ∀ value ∈ values, ∃ front back,
    front <:+ tokens ∧ rest <:+ back ∧ phrase front value back := by
  induction many with
  | none tokens => exact fun _ none => absurd none not_mem_nil
  | more head tail ih =>
    refine List.forall_mem_cons.2 ⟨⟨_, _, suffix_rfl, tail.suffix suffixed, head⟩, ?_⟩
    intro value listed
    rcases ih value listed with ⟨front, back, behind, ahead, found⟩
    exact ⟨front, back, behind.trans (suffixed head), ahead, found⟩

lemma Many.exists_phrase (suffixed : Suffixed phrase) :
    ∀ value ∈ values, ∃ front back, front <:+ tokens ∧ phrase front value back := by
  intro value listed
  rcases many.exists_between suffixed value listed with ⟨front, back, behind, _, found⟩
  exact ⟨front, back, behind, found⟩

end

lemma Maybe.suffix {value? : Option α} (maybe : Maybe phrase tokens value? rest)
    (suffixed : Suffixed phrase) : rest <:+ tokens := by
  cases maybe with
  | absent => exact suffix_rfl
  | present found => exact suffixed found

lemma Maybe.exists_phrase {value? : Option α} (maybe : Maybe phrase tokens value? rest) :
    ∀ value ∈ value?, ∃ back, phrase tokens value back := by
  intro value given
  cases maybe with
  | absent => cases given
  | present found =>
    cases given
    exact ⟨_, found⟩

end

section
variable {tokens rest : List Token}

lemma Closing.suffix (closing : Closing tokens rest) : rest <:+ tokens := by
  cases closing with
  | absent => exact suffix_rfl
  | present mark => exact mark.suffix

lemma Separator.suffix (separator : Separator tokens rest) : rest <:+ tokens :=
  separator.elim Mark.suffix Mark.suffix

end

lemma Word.isWord {tokens rest : List Token} {name : String} (word : Word tokens name rest)
    (worded : Worded tokens) : IsWord name := by
  rcases word with ⟨token, kind, rfl, rfl⟩
  exact worded token mem_cons_self kind

lemma suffixed_word : Suffixed Word := by
  rintro _ _ _ ⟨token, _, rfl, _⟩
  exact suffix_cons _ _

lemma suffixed_int : Suffixed IntPhrase := by
  rintro _ _ _ ⟨token, _, rfl⟩
  exact suffix_cons _ _

lemma suffixed_segment : Suffixed SegmentPhrase := by
  rintro _ _ _ ⟨dot, word⟩
  exact (suffixed_word word).trans dot.suffix

lemma suffixed_name : Suffixed NamePhrase := by
  rintro _ _ _ ⟨word, further⟩
  exact (further.suffix suffixed_segment).trans (suffixed_word word)

lemma suffixed_assigned : Suffixed AssignedPhrase := by
  rintro _ _ _ ⟨equals, int⟩
  exact (suffixed_int int).trans equals.suffix

lemma suffixed_modifier : Suffixed ModifierPhrase :=
  fun _ _ _ found => found.1.suffix

lemma suffixed_type : Suffixed TypePhrase := by
  intro _ _ _ type
  cases type with
  | primitive keyword => exact keyword.suffix
  | user notPrimitive named => exact suffixed_name named

lemma suffixed_bound : Suffixed BoundPhrase := by
  intro _ _ _ bound
  cases bound with
  | free opened closed => exact closed.suffix.trans opened.suffix
  | fixed opened int closed =>
    exact (closed.suffix.trans (suffixed_int int)).trans opened.suffix

lemma suffixed_default : Suffixed DefaultPhrase := by
  rintro _ _ _ ⟨opened, keyword, equals, ⟨token, _, rfl⟩, closed⟩
  exact (((closed.suffix.trans (suffix_cons _ _)).trans equals.suffix).trans
    keyword.suffix).trans opened.suffix

lemma suffixed_field : Suffixed FieldPhrase := by
  rintro _ _ _ ⟨modifiers, _, type, bounds, name, ordinal, default, closed, _⟩
  have upToName := ((bounds.suffix suffixed_bound).trans (suffixed_type type)).trans
    (modifiers.suffix suffixed_modifier)
  have upToOrdinal := ((ordinal.suffix suffixed_assigned).trans (suffixed_word name)).trans upToName
  exact (closed.suffix.trans (default.suffix suffixed_default)).trans upToOrdinal

lemma suffixed_item : Suffixed ItemPhrase := by
  rintro _ _ _ ⟨word, assigned⟩
  exact (assigned.suffix suffixed_assigned).trans (suffixed_word word)

lemma suffixed_furtherItem : Suffixed FurtherItemPhrase := by
  rintro _ _ _ ⟨separator, found⟩
  exact (suffixed_item found).trans separator.suffix

lemma suffixed_items : Suffixed ItemsPhrase := by
  intro _ _ _ items
  cases items with
  | none => exact suffix_rfl
  | some item further =>
    exact (further.suffix suffixed_furtherItem).trans (suffixed_item item)
  | separated item further separator =>
    exact (separator.suffix.trans (further.suffix suffixed_furtherItem)).trans
      (suffixed_item item)

lemma suffixed_enum : Suffixed EnumPhrase := by
  rintro _ _ _ ⟨keyword, word, opened, listed, closed, closing, _⟩
  have upToItems := (opened.suffix.trans (suffixed_word word)).trans keyword.suffix
  exact ((closing.suffix.trans closed.suffix).trans (suffixed_items listed)).trans upToItems

lemma suffixed_furtherParent : Suffixed FurtherParentPhrase := by
  rintro _ _ _ ⟨comma, named⟩
  exact (suffixed_name named).trans comma.suffix

lemma suffixed_parents : Suffixed ParentsPhrase := by
  intro _ _ _ parents
  cases parents with
  | absent => exact suffix_rfl
  | present keyword named further =>
    exact ((further.suffix suffixed_furtherParent).trans (suffixed_name named)).trans
      keyword.suffix

section
variable {members : List Member}

/-- The members of one sort are those that the sort was made of. -/
lemma mem_filterMap_iff {α : Type} {pick : Member -> Option α} {build : α -> Member}
    (inverse : ∀ member value, pick member = some value ↔ member = build value) {value : α} :
    value ∈ members.filterMap pick ↔ build value ∈ members := by
  simp [mem_filterMap, inverse]

lemma mem_filterMap_enum? {decl : EnumDecl} :
    decl ∈ members.filterMap Member.enum? ↔ .enum decl ∈ members :=
  mem_filterMap_iff fun member _ => by cases member <;> simp [Member.enum?]

lemma mem_filterMap_message? {decl : Message Identifier} :
    decl ∈ members.filterMap Member.message? ↔ .message decl ∈ members :=
  mem_filterMap_iff fun member _ => by cases member <;> simp [Member.message?]

lemma mem_filterMap_field? {decl : Field Identifier} :
    decl ∈ members.filterMap Member.field? ↔ .field decl ∈ members :=
  mem_filterMap_iff fun member _ => by cases member <;> simp [Member.field?]

end

-- The messages of a body are smaller than the one that it belongs to, although
-- the body is a repetition and not a part of the phrase.
lemma suffixed_message : Suffixed MessagePhrase := by
  intro tokens message rest phrase
  induction message using Message.nestedInduction generalizing tokens rest with
  | external name =>
    cases phrase with
    | announced announcing keyword word closed =>
      exact ((closed.suffix.trans (suffixed_word word)).trans keyword.suffix).trans
        announcing.suffix
  | defined name parents enums messages fields ih =>
    cases phrase with
    | defined keyword word extending opened body closed closing =>
      have inside := body.suffix_of_forall fun member listed front back found => by
        cases found with
        | field ahead phrase => exact suffixed_field phrase
        | message phrase => exact ih _ (mem_filterMap_message?.2 listed) phrase
        | enum phrase => exact suffixed_enum phrase
      have upToBody := ((opened.suffix.trans (suffixed_parents extending)).trans
        (suffixed_word word)).trans keyword.suffix
      exact ((closing.suffix.trans closed.suffix).trans inside).trans upToBody

lemma suffixed_member : Suffixed MemberPhrase := by
  intro _ _ _ member
  cases member with
  | field ahead phrase => exact suffixed_field phrase
  | message phrase => exact suffixed_message phrase
  | enum phrase => exact suffixed_enum phrase

lemma suffixed_declaration : Suffixed DeclarationPhrase := by
  intro tokens declaration rest phrase
  induction declaration using Declaration.nestedInduction generalizing tokens rest with
  | type decl =>
    cases phrase with
    | message phrase => exact suffixed_message phrase
    | enum phrase => exact suffixed_enum phrase
  | scope name content ih =>
    cases phrase with
    | scope keyword named opened body closed closing =>
      have inside := body.suffix_of_forall fun inner listed front back found =>
        ih inner listed found
      have upToBody := (opened.suffix.trans (suffixed_name named)).trans keyword.suffix
      exact ((closing.suffix.trans closed.suffix).trans inside).trans upToBody

end MessageSchema.Syntax
