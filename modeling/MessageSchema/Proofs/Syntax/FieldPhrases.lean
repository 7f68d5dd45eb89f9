import MessageSchema.Proofs.Syntax.Suffixes

namespace MessageSchema

/-!
Fields as they are read and as the grammar has them.

Each part of a field starts with a token that ends the part before it.  A field
therefore has at most one reading, and its semicolon leaves no choice about what is
behind it.
-/

/-! ## Keywords and modifiers -/

/-- In a table without repeated keywords a keyword finds its own entry. -/
lemma find?_keyword_iff {α : Type} {table : List α} {keyword : α -> String}
    (own : ∀ value, table.find? (keyword · == keyword value) = some value) {text : String}
    {value : α} : table.find? (keyword · == text) = some value ↔ keyword value = text := by
  constructor
  · intro found
    have kept := List.find?_some found
    exact eq_of_beq kept
  · rintro rfl
    exact own value

variable {keyword : String} {modifier : Modifier}

lemma Modifier.ofKeyword?_eq_some_iff :
    Modifier.ofKeyword? keyword = some modifier ↔ modifier.keyword = keyword :=
  find?_keyword_iff fun modifier => by cases modifier <;> decide

lemma Primitive.ofKeyword?_eq_some_iff {type : Primitive} :
    Primitive.ofKeyword? keyword = some type ↔ type.keyword = keyword :=
  find?_keyword_iff fun type => by cases type <;> decide

namespace Modifiers

lemma has_add (modifiers : Modifiers) (added modifier : Modifier) :
    (modifiers.add added).has modifier = (modifiers.has modifier || decide (modifier = added)) := by
  unfold has add
  by_cases same : modifier = added
  · subst same
    have absorbed : (modifiers.flags ||| modifier.flag) &&& modifier.flag = modifier.flag := by
      apply UInt8.toBitVec_inj.mp
      rw [UInt8.toBitVec_and, UInt8.toBitVec_or]
      ext index bound
      rw [BitVec.getElem_and, BitVec.getElem_or]
      cases modifier.flag.toBitVec[index] <;> simp
    rw [absorbed, beq_self_eq_true, decide_eq_true rfl, Bool.or_true]
  · have apart : added.flag &&& modifier.flag = 0 := by
      cases added <;> cases modifier <;> first | decide | exact absurd rfl same
    have unmoved : (modifiers.flags ||| added.flag) &&& modifier.flag =
        modifiers.flags &&& modifier.flag := by
      apply UInt8.toBitVec_inj.mp
      rw [UInt8.toBitVec_and, UInt8.toBitVec_or, BitVec.and_or_distrib_right,
        ← UInt8.toBitVec_and, ← UInt8.toBitVec_and, apart]
      exact BitVec.or_zero
    rw [unmoved, decide_eq_false same, Bool.or_false]

lemma has_foldl_add (written : List Modifier) (start : Modifiers) (modifier : Modifier) :
    (written.foldl add start).has modifier =
      (start.has modifier || decide (modifier ∈ written)) := by
  induction written generalizing start with
  | nil => simp
  | cons first others ih =>
    rw [List.foldl_cons, ih, has_add, Bool.or_assoc]
    simp [List.mem_cons]

end Modifiers

namespace Syntax

lemma has_modifierSet (written : List Modifier) (modifier : Modifier) :
    (modifierSet written).has modifier = decide (modifier ∈ written) := by
  have none : Modifiers.none.has modifier = false := by cases modifier <;> decide
  rw [modifierSet, Modifiers.has_foldl_add, none, Bool.false_or]

variable {settled : Modifiers} {written : List Modifier} {bounds : List Int}
    {default : Option Literal} {name : String} {type : FieldType Identifier}

lemma clean_modifierSet_iff :
    (modifierSet written).clean = .ok settled ↔ Settles written settled := by
  generalize all : (if Modifier.required ∈ written then written else written ++ [.optional]) =
    full
  have settling : (if (modifierSet written).has .required then modifierSet written
      else (modifierSet written).add .optional) = modifierSet full := by
    rw [← all, has_modifierSet]
    by_cases required : Modifier.required ∈ written <;> simp [required, modifierSet]
  have presence : Modifier.required ∈ full ∧ Modifier.optional ∈ full ↔
      Modifier.required ∈ written ∧ Modifier.optional ∈ written := by
    rw [← all]
    by_cases required : Modifier.required ∈ written <;> simp [required]
  -- At most `optional` is added, so all other modifiers are the written ones.
  have others {modifier : Modifier} (notOptional : modifier ≠ .optional) :
      modifier ∈ full ↔ modifier ∈ written := by
    rw [← all]
    split <;> simp [notOptional]
  simp only [Modifiers.clean, settling]
  simp only [has_modifierSet, Bool.and_eq_true, decide_eq_true_eq, presence,
    others (show Modifier.mutable ≠ .optional by decide),
    others (show Modifier.readonly ≠ .optional by decide),
    others (show Modifier.repeated ≠ .optional by decide)]
  constructor
  · intro checked
    split at checked
    · cases checked
    · next presence =>
      split at checked
      · cases checked
      · next access =>
        split at checked
        · cases checked
        · next supported =>
          cases checked
          exact ⟨supported, presence, access, by rw [all]⟩
  · rintro ⟨supported, presence, access, same⟩
    rw [if_neg presence, if_neg access, if_neg supported, same, all]

lemma check_eq_ok_iff {accepts : Literal -> Bool} {typeText : String} {modifiers : Modifiers}
    (named : name ≠ "") : Field.check name accepts typeText modifiers bounds default = .ok settled ↔
      modifiers.clean = .ok settled ∧ (∀ bound ∈ bounds, bound = unbounded ∨ 0 < bound) ∧
        ∀ value ∈ default, accepts value = true := by
  have bounded : (bounds.find? fun bound => bound != unbounded && decide (bound <= 0)) = none ↔
      ∀ bound ∈ bounds, bound = unbounded ∨ 0 < bound := by
    simp only [List.find?_eq_none, Bool.and_eq_true, bne_iff_ne, decide_eq_true_eq, not_and_or,
      not_not, Int.not_le]
  unfold Field.check
  rw [if_neg named, ← bounded]
  constructor
  · intro checked
    split at checked
    · cases checked
    · next settled' cleaned =>
      split at checked
      · cases checked
      · next none =>
        split at checked
        · cases checked
          exact ⟨cleaned, none, fun _ found => nomatch found⟩
        · next value =>
          split at checked
          · next accepted =>
            cases checked
            refine ⟨cleaned, none, ?_⟩
            intro other found
            cases found
            exact accepted
          · cases checked
  · rintro ⟨cleaned, none, accepted⟩
    rw [cleaned, none]
    cases default with
    | none => rfl
    | some value => exact if_pos (accepted value rfl)

lemma make_eq_ok_iff {ordinal : Option Int} {field : Field Identifier} (named : name ≠ "") :
    Field.make name type (modifierSet written) bounds ordinal default = .ok field ↔
      Allowed written field ∧ field = ⟨name, type, field.modifiers, bounds, ordinal, default⟩ := by
  unfold Field.make
  constructor
  · intro made
    split at made
    · cases made
    · next settled checked =>
      cases made
      rcases (check_eq_ok_iff named).mp checked with ⟨cleaned, bounded, accepted⟩
      exact ⟨⟨clean_modifierSet_iff.mp cleaned, bounded, accepted⟩, rfl⟩
  · rintro ⟨⟨settles, bounded, accepted⟩, same⟩
    rw [same] at bounded accepted
    have cleaned := clean_modifierSet_iff.mpr settles
    rw [(check_eq_ok_iff named).mpr ⟨cleaned, bounded, accepted⟩]
    exact congrArg Except.ok same.symm

section
variable {final : Token}

/-! ## The parts of a field -/

variable {rest tokens : List Token} {default : Option Literal} {field : Field Identifier}

lemma modifierPhrase_iff : ModifierPhrase tokens modifier rest ↔
      ∃ token, tokens = token :: rest ∧ token.kind = .word ∧
        rest.head?.any (·.kind = .word) = true ∧
        Modifier.ofKeyword? (String.ofList token.text) = some modifier := by
  constructor
  · rintro ⟨keyword, next, behind, ⟨second, isWord, rfl, _⟩⟩
    rcases keyword.word with ⟨token, kind, same, name⟩
    exact ⟨token, same, kind, by simpa using isWord,
      Modifier.ofKeyword?_eq_some_iff.mpr name⟩
  · rintro ⟨token, rfl, kind, followed, found⟩
    have word : Word (token :: rest) (String.ofList token.text) rest := ⟨token, kind, rfl, rfl⟩
    have keyword := Modifier.ofKeyword?_eq_some_iff.mp found
    refine ⟨word.keyword_iff.mpr ⟨keyword.symm, rfl⟩, ?_⟩
    cases rest with
    | nil => cases followed
    | cons second behind => exact ⟨_, behind, second, by simpa using followed, rfl, rfl⟩

lemma modifiers_readModifiers (start : Modifiers) (tokens : List Token) :
    ∃ written, Many ModifierPhrase tokens written (readModifiers start tokens).2 ∧
      (readModifiers start tokens).1 = written.foldl .add start ∧
      ∀ modifier behind, ¬ ModifierPhrase (readModifiers start tokens).2 modifier behind := by
  fun_induction readModifiers start tokens with
  | case1 =>
    refine ⟨[], .none _, rfl, ?_⟩
    intro modifier behind phrase
    rcases modifierPhrase_iff.mp phrase with ⟨token, empty, _⟩
    cases empty
  | case2 start token rest isWord modifier found ih =>
    rcases ih with ⟨written, further, same, stop⟩
    have phrase := modifierPhrase_iff.mpr ⟨token, rfl, isWord.1, isWord.2, found⟩
    exact ⟨modifier :: written, .more phrase further, same, stop⟩
  | case3 start token rest isWord notFound =>
    refine ⟨[], .none _, rfl, ?_⟩
    intro modifier behind phrase
    rcases modifierPhrase_iff.mp phrase with ⟨_, same, _, _, found⟩
    cases same
    cases notFound.symm.trans found
  | case4 start token rest notWord =>
    refine ⟨[], .none _, rfl, ?_⟩
    intro modifier behind phrase
    rcases modifierPhrase_iff.mp phrase with ⟨_, same, kind, followed, _⟩
    cases same
    exact notWord ⟨kind, followed⟩

lemma readModifiers_of_modifiers (start : Modifiers)
    (modifiers : Many ModifierPhrase tokens written rest)
    (noFurther : ∀ modifier behind, ¬ ModifierPhrase rest modifier behind) :
    readModifiers start tokens = (written.foldl .add start, rest) := by
  induction modifiers generalizing start with
  | none tokens =>
    cases tokens with
    | nil => rfl
    | cons token rest =>
      unfold readModifiers
      split
      · next isWord =>
        split
        · next modifier found =>
          have phrase := modifierPhrase_iff.mpr ⟨token, rfl, isWord.1, isWord.2, found⟩
          exact absurd phrase (noFurther modifier rest)
        · rfl
      · rfl
  | more head _ ih =>
    rcases modifierPhrase_iff.mp head with ⟨token, rfl, kind, followed, found⟩
    simp only [readModifiers, kind, followed, and_self, if_true, found]
    exact ih _ noFurther

lemma type_of_readType (worded : Worded tokens) (read : readType final tokens = .ok (type, rest)) :
    TypePhrase tokens type rest := by
  cases tokens with
  | nil => cases read
  | cons token tail =>
    rw [readType_cons _ _ (worded token List.mem_cons_self)] at read
    split at read
    · next isWord =>
      have word : Word (token :: tail) (String.ofList token.text) tail :=
        ⟨token, isWord, rfl, rfl⟩
      cases found : Primitive.ofKeyword? (String.ofList token.text) with
      | some primitive =>
        rw [found] at read
        cases read
        have keyword := Primitive.ofKeyword?_eq_some_iff.mp found
        exact .primitive (word.keyword_iff.mpr ⟨keyword.symm, rfl⟩)
      | none =>
        rw [found] at read
        rcases bind_eq_ok_iff.mp read with ⟨⟨name, behind⟩, named, same⟩
        cases same
        refine .user ?_ (readName_eq_ok_iff.mp named).1
        intro type behind keyword
        have same := (word.keyword_iff.mp keyword).1
        rw [Primitive.ofKeyword?_eq_some_iff.mpr same.symm] at found
        cases found
    · cases read

lemma readType_of_type (worded : Worded tokens) (phrase : TypePhrase tokens type rest)
    (stop : NotAt .dot rest) : readType final tokens = .ok (type, rest) := by
  cases phrase with
  | primitive keyword =>
    rcases keyword.word with ⟨token, isWord, rfl, name⟩
    have found := Primitive.ofKeyword?_eq_some_iff.mpr name
    rw [readType_cons _ _ (worded token List.mem_cons_self), if_pos isWord, found]
    rfl
  | user notPrimitive named =>
    have name : readName final tokens = .ok (_, rest) :=
      readName_eq_ok_iff.mpr ⟨named, stop⟩
    rcases named.word with ⟨first, behind, word⟩
    have notFound : Primitive.ofKeyword? first = none := by
      rw [Option.eq_none_iff_forall_ne_some]
      intro type found
      have keyword := Primitive.ofKeyword?_eq_some_iff.mp found
      exact notPrimitive type behind (word.keyword_iff.mpr ⟨keyword.symm, rfl⟩)
    rcases word with ⟨token, isWord, rfl, rfl⟩
    rw [readType_cons _ _ (worded token List.mem_cons_self), if_pos isWord, notFound, name]
    rfl

variable {bound : Int} {behind : List Token}

lemma bound_of_readBound {behindOpen : List Token} (opened : Mark .openSquare tokens behindOpen)
    (read : readBound final behindOpen = .ok (bound, rest)) : BoundPhrase tokens bound rest := by
  unfold readBound at read
  split at read
  · next behind closed =>
    cases read
    exact .free opened (afterSigil?_eq_some_iff.mp closed)
  · split at read
    · cases read
    · next value behind int =>
      split at read
      · cases read
      · next behindBound closed =>
        cases read
        exact .fixed opened (readInt_eq_ok_iff.mp int) (sigil_eq_ok_iff.mp closed)

variable (final) in
lemma readBound_of_bound (phrase : BoundPhrase tokens bound rest) :
    ∃ behindOpen, Mark .openSquare tokens behindOpen ∧
      readBound final behindOpen = .ok (bound, rest) := by
  cases phrase with
  | free opened closed =>
    refine ⟨_, opened, ?_⟩
    simp only [readBound, afterSigil?_eq_some_iff.mpr closed]
  | fixed opened int closed =>
    refine ⟨_, opened, ?_⟩
    simp only [readBound, afterSigil?_eq_none_iff.mpr int.notAt, readInt_eq_ok_iff.mpr int,
      sigil_eq_ok_iff.mpr closed]

lemma readBounds_eq_ok_iff : readBounds final tokens = .ok (bounds, rest) ↔
      Many BoundPhrase tokens bounds rest ∧ NotAt .openSquare rest := by
  constructor
  · intro read
    fun_induction readBounds final tokens generalizing bounds rest with
    | case1 tokens notOpened =>
      cases read
      exact ⟨.none _, afterSigil?_eq_none_iff.mp notOpened⟩
    | case2 => cases read
    | case3 => cases read
    | case4 tokens behind mark _ bound behindBound found _ bounds' rest' more ih =>
      cases read
      rcases ih more with ⟨further, stop⟩
      exact ⟨.more (bound_of_readBound (afterSigil?_eq_some_iff.mp mark) found) further, stop⟩
  · rintro ⟨phrases, stop⟩
    induction phrases with
    | none tokens =>
      rw [readBounds_eq, afterSigil?_eq_none_iff.mpr stop]
      rfl
    | more head _ ih =>
      rcases readBound_of_bound final head with ⟨behindOpen, opened, bound⟩
      rw [readBounds_eq, afterSigil?_eq_some_iff.mpr opened]
      simp only [Option.elim, bound, ih stop, Except.bind]

lemma default_of_readDefault (lexed : Lexed tokens)
    (read : readDefault final tokens = .ok (default, rest)) :
    Maybe DefaultPhrase tokens default rest := by
  unfold readDefault at read
  split at read
  · cases read
    exact .absent _
  · next behindOpen opened =>
    split at read
    · cases read
    · next behindKeyword keyword =>
      split at read
      · cases read
      · next behindEquals equals =>
        split at read
        · cases read
        · next value behindValue literal =>
          split at read
          · cases read
          · next behindClose closed =>
            cases read
            have opened := afterSigil?_eq_some_iff.mp opened
            have keyword := afterKeyword?_eq_some_iff.mp keyword
            have equals := sigil_eq_ok_iff.mp equals
            have behind := (equals.suffix.trans keyword.suffix).trans opened.suffix
            have literal := (readLiteral_eq_ok_iff (lexed.of_suffix behind)).mp literal
            exact .present (.default opened keyword equals literal (sigil_eq_ok_iff.mp closed))

lemma readDefault_of_default (lexed : Lexed tokens)
    (phrase : Maybe DefaultPhrase tokens default rest) (stop : NotAt .openSquare rest) :
    readDefault final tokens = .ok (default, rest) := by
  cases phrase with
  | absent => simp only [readDefault, afterSigil?_eq_none_iff.mpr stop]
  | present found =>
    rcases found with ⟨opened, keyword, equals, literal, closed⟩
    have behind := (equals.suffix.trans keyword.suffix).trans opened.suffix
    simp only [readDefault, afterSigil?_eq_some_iff.mpr opened,
      afterKeyword?_eq_some_iff.mpr keyword, sigil_eq_ok_iff.mpr equals,
      (readLiteral_eq_ok_iff (lexed.of_suffix behind)).mpr literal, sigil_eq_ok_iff.mpr closed]

/-! ## Fields -/

/-- Behind a type stands a bound or the name of the field. -/
lemma notAt_dot_of_bounds (phrases : Many BoundPhrase tokens bounds rest)
    (word : Word rest name behind) : NotAt .dot tokens := by
  cases phrases with
  | none => exact word.notAt
  | more head _ =>
    cases head with
    | free opened _ => exact opened.notAt (by decide)
    | fixed opened _ _ => exact opened.notAt (by decide)

/-- Behind an ordinal stands the default or the end of the field. -/
lemma notAt_equals_of_default (phrase : Maybe DefaultPhrase tokens default rest)
    (closed : Mark .semicolon rest behind) : NotAt .equals tokens := by
  cases phrase with
  | absent => exact closed.notAt (by decide)
  | present found =>
    rcases found with ⟨opened, _⟩
    exact opened.notAt (by decide)

lemma field_of_readField (lexed : Lexed tokens)
    (read : readField final tokens = .ok (field, rest)) : FieldPhrase tokens field rest := by
  rcases readField_ok read with ⟨parts, atEnd, foundParts, closed, made⟩
  rcases readFieldParts_ok foundParts with
    ⟨afterType, afterBounds, afterName, afterOrdinal, type, bounds, word, ordinal, default, same⟩
  rcases modifiers_readModifiers .none tokens with ⟨written, modifiers, set, noFurther⟩
  have behindModifiers := lexed.worded.of_suffix (modifiers.suffix suffixed_modifier)
  have type := type_of_readType behindModifiers type
  have bounds := (readBounds_eq_ok_iff.mp bounds).1
  have word := readWord_eq_ok_iff.mp word
  have ordinal := ordinal_of_readOrdinal ordinal
  have upToName := (bounds.suffix suffixed_bound).trans
    ((suffixed_type type).trans (modifiers.suffix suffixed_modifier))
  have upToDefault := ((ordinal.suffix suffixed_assigned).trans (suffixed_word word)).trans upToName
  have named := (word.isWord (lexed.worded.of_suffix upToName)).some
  rw [same, set] at made
  rcases (make_eq_ok_iff named).mp made with ⟨allowed, sameField⟩
  rw [sameField]
  rw [sameField] at allowed
  exact .field modifiers noFurther type bounds word ordinal
    (default_of_readDefault (lexed.of_suffix upToDefault) default) (sigil_eq_ok_iff.mp closed)
    allowed

lemma readField_of_field (lexed : Lexed tokens) (phrase : FieldPhrase tokens field rest) :
    readField final tokens = .ok (field, rest) := by
  cases phrase with
  | @field _ afterModifiers afterType afterBounds afterName afterOrdinal atEnd _ written _
      modifiers noFurther type bounds word ordinal default closed allowed =>
    -- Only names and the default need to know that the tokens come from a source.
    have behindModifiers := lexed.worded.of_suffix (modifiers.suffix suffixed_modifier)
    have upToName := (bounds.suffix suffixed_bound).trans
      ((suffixed_type type).trans (modifiers.suffix suffixed_modifier))
    have upToDefault := ((ordinal.suffix suffixed_assigned).trans (suffixed_word word)).trans
      upToName
    have named := (word.isWord (lexed.worded.of_suffix upToName)).some
    have modifiers : readModifiers .none tokens = (modifierSet written, afterModifiers) :=
      readModifiers_of_modifiers .none modifiers noFurther
    have type : readType final afterModifiers = .ok (field.type, afterType) :=
      readType_of_type behindModifiers type (notAt_dot_of_bounds bounds word)
    have bounds : readBounds final afterType = .ok (field.bounds, afterBounds) :=
      readBounds_eq_ok_iff.mpr ⟨bounds, word.notAt⟩
    have word : readWord final afterBounds = .ok (field.name, afterName) :=
      readWord_eq_ok_iff.mpr word
    have ordinal : readOrdinal final afterName = .ok (field.ordinal, afterOrdinal) :=
      readOrdinal_of_ordinal ordinal (notAt_equals_of_default default closed)
    have default : readDefault final afterOrdinal = .ok (field.default, atEnd) :=
      readDefault_of_default (lexed.of_suffix upToDefault) default (closed.notAt (by decide))
    have made : Field.make field.name field.type (modifierSet written) field.bounds field.ordinal
        field.default = .ok field := (make_eq_ok_iff named).mpr ⟨allowed, rfl⟩
    have parts : readFieldParts final tokens = .ok (⟨field.name, field.type, modifierSet written,
        field.bounds, field.ordinal, field.default⟩, atEnd) := by
      simp only [readFieldParts, modifiers, type, bounds, word, ordinal, default, bind, Except.bind]
    simp only [readField, parts, sigil_eq_ok_iff.mpr closed, made]

lemma readField_eq_ok_iff (lexed : Lexed tokens) :
    readField final tokens = .ok (field, rest) ↔ FieldPhrase tokens field rest :=
  ⟨field_of_readField lexed, readField_of_field lexed⟩

end
end Syntax
end MessageSchema
