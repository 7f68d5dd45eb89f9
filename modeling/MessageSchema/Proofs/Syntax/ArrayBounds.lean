import MessageSchema.Proofs.Compile.Stages
import MessageSchema.Proofs.Syntax.Contents

namespace MessageSchema.Syntax

/-!
The bounds of arrays as they are written.

A field has one bound for each pair of brackets: the size in the pair, or the mark
of a dimension without a size.  The mark is an integer that can be written, and a
pair with it says the same as an empty one; it alone does not mean what is written
in it.
-/

/-- `"[" [ INT ] "]"`, with the size that stands in it. -/
inductive PairPhrase : Phrase (Option Int)
  | pair {tokens behindOpen atClose rest : List Token} {size : Option Int}
      (opened : Mark .openSquare tokens behindOpen)
      (inside : Maybe IntPhrase behindOpen size atClose)
      (closed : Mark .closeSquare atClose rest) : PairPhrase tokens size rest

/-- The field starts at these tokens, with these pairs of brackets in front of its name. -/
def HasPairs (tokens : List Token) (field : Field Identifier) (pairs : List (Option Int)) : Prop :=
  ∃ written afterModifiers afterType afterPairs afterName,
    Many ModifierPhrase tokens written afterModifiers ∧
      TypePhrase afterModifiers field.type afterType ∧
      Many PairPhrase afterType pairs afterPairs ∧ Word afterPairs field.name afterName

/-- The bound is unbounded for an empty pair and for no other, and a size is the bound and
at least one. -/
structure PairMeans (pair : Option Int) (bound : Int) : Prop where
  empty : bound = unbounded ↔ pair = none
  size : ∀ size ∈ pair, bound = size ∧ 1 <= size

/-- The fields of all messages of a document. -/
def declaredFields (document : Document) : List (Field Identifier) :=
  (declared document).flatMap fun placed =>
    match placed.type with
    | .enum _ => []
    | .message message => message.fields

lemma mem_declaredFields {document : Document} {field : Field Identifier} :
    field ∈ declaredFields document ↔
      ∃ placed ∈ declared document, ∃ message, placed.type = .message message ∧
        field ∈ message.fields := by
  rw [declaredFields, List.mem_flatMap]
  apply exists_congr
  intro placed
  cases placed.type with
  | enum decl => simp
  | message message => simp

section
variable {tokens rest : List Token}

lemma BoundPhrase.exists_pair {bound : Int} (phrase : BoundPhrase tokens bound rest) :
    ∃ pair, PairPhrase tokens pair rest ∧ bound = pair.getD unbounded := by
  cases phrase with
  | free opened closed => exact ⟨none, .pair opened (.absent _) closed, rfl⟩
  | fixed opened int closed => exact ⟨some bound, .pair opened (.present int) closed, rfl⟩

lemma exists_pairs_of_bounds {bounds : List Int} (phrases : Many BoundPhrase tokens bounds rest) :
    ∃ pairs, Many PairPhrase tokens pairs rest ∧
      bounds = pairs.map fun pair => pair.getD unbounded := by
  induction phrases with
  | none tokens => exact ⟨[], .none tokens, rfl⟩
  | more head tail ih =>
    rcases head.exists_pair with ⟨pair, first, same⟩
    rcases ih with ⟨pairs, others, sameOthers⟩
    refine ⟨pair :: pairs, .more first others, ?_⟩
    rw [same, sameOthers, List.map_cons]

/-- A pair that is allowed means what is written in it, unless that is the mark. -/
lemma pairMeans_iff {pair : Option Int} (allowed : ∀ size ∈ pair, 1 <= size ∨ size = unbounded) :
    PairMeans pair (pair.getD unbounded) ↔ pair ≠ some unbounded := by
  constructor
  · intro means isMark
    rw [isMark] at means
    exact absurd (means.size unbounded rfl).2 (by decide)
  · intro notMark
    cases pair with
    | none =>
      exact ⟨⟨fun _ => rfl, fun _ => rfl⟩, fun _ given => absurd given (Option.not_mem_none _)⟩
    | some size =>
      have positive : 1 <= size := by
        rcases allowed size rfl with positive | isMark
        · exact positive
        · exact absurd (congrArg some isMark) notMark
      refine ⟨⟨fun isMark => absurd (congrArg some isMark) notMark, fun none => ?_⟩, ?_⟩
      · cases none
      · intro given same
        cases same
        exact ⟨rfl, positive⟩

lemma forall₂_pairMeans_iff {pairs : List (Option Int)}
    (allowed : ∀ size, some size ∈ pairs -> 1 <= size ∨ size = unbounded) :
    List.Forall₂ PairMeans pairs (pairs.map fun pair => pair.getD unbounded) ↔
      some unbounded ∉ pairs := by
  have each : ∀ pair ∈ pairs,
      (PairMeans pair (pair.getD unbounded) ↔ pair ≠ some unbounded) := by
    intro pair listed
    apply pairMeans_iff
    intro size given
    rw [Option.mem_def.mp given] at listed
    exact allowed size listed
  rw [List.forall₂_map_right_iff, List.forall₂_same]
  constructor
  · intro means isMark
    exact (each _ isMark).mp (means _ isMark) rfl
  · intro notMark pair listed
    apply (each pair listed).mpr
    intro isMark
    exact notMark (isMark ▸ listed)

lemma FieldPhrase.exists_pairs {field : Field Identifier} (phrase : FieldPhrase tokens field rest) :
    ∃ pairs, HasPairs tokens field pairs ∧
      (field.bounds = pairs.map fun pair => pair.getD unbounded) ∧
      ∀ size, some size ∈ pairs -> 1 <= size ∨ size = unbounded := by
  rcases phrase with ⟨modifiers, _, type, bounds, name, _, _, _, allowed⟩
  rcases exists_pairs_of_bounds bounds with ⟨pairs, written, same⟩
  refine ⟨pairs, ⟨_, _, _, _, _, modifiers, type, written, name⟩, same, ?_⟩
  intro size listed
  have bound : size ∈ field.bounds := by
    rw [same]
    exact List.mem_map_of_mem listed
  rcases allowed.bounds size bound with isMark | positive
  · exact .inr isMark
  · exact .inl positive

lemma DeclarationPhrase.exists_field {message : Message Identifier}
    (phrase : DeclarationPhrase tokens (.type (.message message)) rest) :
    ∀ field ∈ message.fields, ∃ front back, front <:+ tokens ∧ rest <:+ back ∧
      FieldPhrase front field back := by
  intro field listed
  cases phrase with
  | message phrase =>
    cases phrase with
    | announced => cases listed
    | defined keyword word extending opened body closed closing =>
      rcases body.exists_between suffixed_member _ (mem_filterMap_field?.1 listed) with
        ⟨front, back, suffix, ahead, found⟩
      have inside := (opened.suffix.trans (suffixed_parents extending)).trans
        ((suffixed_word word).trans keyword.suffix)
      cases found with
      | field _ phrase =>
        exact ⟨front, back, suffix.trans inside, (closing.suffix.trans closed.suffix).trans ahead,
          phrase⟩

end

/-- Every field of an accepted source stands within the phrase that declares its message, and
has one bound for each pair of brackets in front of its name, in order: the size in the pair, or
no size for an empty pair.  Sizes are at least one, but for the mark of a dimension without a
size; the bounds mean what is written exactly if the mark is not. -/
theorem bounds_mean_what_is_written_iff {source : List UInt8} {document : Document}
    (parsed : parse source = .ok document) :
    ∃ lexemes final, IsCut source lexemes final ∧
      ∀ placed ∈ declared document, ∀ message, placed.type = .message message ->
      ∀ field ∈ message.fields, ∃ front back tokens pairs, front <:+ lexemes ∧
        DeclarationPhrase front (.type placed.type) back ∧ tokens <:+ front ∧ back <:+ tokens ∧
        HasPairs tokens field pairs ∧
        (field.bounds = pairs.map fun pair => pair.getD unbounded) ∧
        (∀ size, some size ∈ pairs -> 1 <= size ∨ size = unbounded) ∧
        (List.Forall₂ PairMeans pairs field.bounds ↔ some unbounded ∉ pairs) := by
  rcases exists_isCut_of_parse parsed with ⟨lexemes, final, cut⟩
  refine ⟨lexemes, final, cut, ?_⟩
  intro placed member message isMessage field listed
  rcases cut.declares parsed placed member with ⟨_, front, back, suffix, declares⟩
  rw [isMessage] at declares ⊢
  rcases declares.exists_field field listed with ⟨tokens, rest, inside, ahead, phrase⟩
  rcases phrase.exists_pairs with ⟨pairs, written, same, allowed⟩
  refine ⟨front, back, tokens, pairs, suffix, declares, inside,
    ahead.trans (suffixed_field phrase), written, same, allowed, ?_⟩
  rw [same]
  exact forall₂_pairMeans_iff allowed

/-- Three rows of four, in a nested message. -/
theorem sizes_mean_what_is_written :
    ∃ document, parse "message M \x7bmessage N \x7bint[3][4] x;\x7d\x7d".toUTF8.toList =
        .ok document ∧
      (declaredFields document).map Field.bounds = [[3, 4]] ∧
      ∀ field ∈ declaredFields document, ∃ tokens pairs, HasPairs tokens field pairs ∧
        List.Forall₂ PairMeans pairs field.bounds := by
  have accepted :
      ((parse "message M \x7bmessage N \x7bint[3][4] x;\x7d\x7d".toUTF8.toList).toOption.map
        fun document => (declaredFields document).map Field.bounds) = some [[3, 4]] := by
    decide +kernel
  rcases Option.map_eq_some_iff.mp accepted with ⟨document, found, bounds⟩
  have parsed := eq_ok_of_toOption found
  refine ⟨document, parsed, bounds, ?_⟩
  rcases bounds_mean_what_is_written_iff parsed with ⟨lexemes, final, cut, written⟩
  intro field listed
  rcases mem_declaredFields.mp listed with ⟨placed, member, message, isMessage, inMessage⟩
  rcases written placed member message isMessage field inMessage with
    ⟨_, _, tokens, pairs, _, _, _, _, pairsOf, same, _, means⟩
  refine ⟨tokens, pairs, pairsOf, means.mpr ?_⟩
  intro isMark
  have sizes : field.bounds = [3, 4] := by
    have among : field.bounds ∈ (declaredFields document).map Field.bounds :=
      List.mem_map_of_mem listed
    rw [bounds] at among
    exact List.mem_singleton.mp among
  have mark : unbounded ∈ field.bounds := by
    rw [same]
    exact List.mem_map_of_mem isMark
  rw [sizes] at mark
  exact absurd mark (by decide)

/-- The mark of a dimension without a size, written between brackets: no size is taken from
it, and it is not refused. -/
theorem written_mark_is_taken_for_no_size :
    ((tokenize "message M \x7bint[-1] x;\x7d".toUTF8.toList).toOption.map fun scanned =>
        (significant scanned.tokens).map fun token => String.ofList token.text) =
      some ["message", "M", "\x7b", "int", "[", "-1", "]", "x", ";", "\x7d", ""] ∧
    ((parse "message M \x7bint[-1] x;\x7d".toUTF8.toList).toOption.map fun document =>
        (declaredFields document).map Field.bounds) = some [[unbounded]] ∧
    ¬ PairMeans (some (-1)) unbounded := by
  refine ⟨by decide +kernel, by decide +kernel, ?_⟩
  intro means
  exact absurd (means.size (-1) rfl).2 (by decide)

end MessageSchema.Syntax
