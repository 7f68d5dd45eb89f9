import MessageSchema.Proofs.Compile.Reordering
import MessageSchema.Proofs.Export.Listing

namespace MessageSchema

/-!
The order of declarations and the layout of namespaces do not matter.

A namespace may be opened once or many times, in one piece or segment by segment.
Only the types and their scopes decide whether a document compiles, and what its
description says.  Whether two documents agree in these can be decided.
-/

section
variable {ρ : Type} [DecidableEq ρ]

mutual

/-- Decides whether two messages are the same. -/
def Message.decideEq : (left right : Message ρ) -> Decidable (left = right)
  | .external first, .external second =>
    decidable_of_iff (first = second) (by rw [Message.external.injEq])
  | .external _, .defined _ _ _ _ _ => isFalse nofun
  | .defined _ _ _ _ _, .external _ => isFalse nofun
  | .defined firstName firstParents firstEnums firstMessages firstFields,
    .defined secondName secondParents secondEnums secondMessages secondFields =>
      match Message.decideEqAll firstMessages secondMessages with
      | isFalse different => isFalse fun same => different (Message.defined.inj same).2.2.2.1
      | isTrue same =>
        decidable_of_iff (firstName = secondName ∧ firstParents = secondParents ∧
            firstEnums = secondEnums ∧ firstFields = secondFields)
          (by simp [same])

/-- Decides whether two lists of messages are the same. -/
def Message.decideEqAll : (left right : List (Message ρ)) -> Decidable (left = right)
  | [], [] => isTrue rfl
  | [], _ :: _ => isFalse nofun
  | _ :: _, [] => isFalse nofun
  | first :: others, second :: rest =>
    match Message.decideEq first second with
    | isFalse different => isFalse fun same => different (List.cons.inj same).1
    | isTrue sameFirst =>
      match Message.decideEqAll others rest with
      | isFalse different => isFalse fun same => different (List.cons.inj same).2
      | isTrue sameRest => isTrue (by rw [sameFirst, sameRest])

end

instance : DecidableEq (Message ρ) :=
  Message.decideEq

instance : DecidableEq (TypeDecl ρ)
  | .enum first, .enum second =>
    decidable_of_iff (first = second) (by rw [TypeDecl.enum.injEq])
  | .enum _, .message _ => isFalse nofun
  | .message _, .enum _ => isFalse nofun
  | .message first, .message second =>
    decidable_of_iff (first = second) (by rw [TypeDecl.message.injEq])

end

instance : DecidableEq Placed := fun left right =>
  decidable_of_iff (left.scope = right.scope ∧ left.type = right.type) (by
    cases left
    cases right
    rw [Placed.mk.injEq])

namespace Export

lemma describeField_eq_of_twins {left right : Field Reference} (twins : left.Twins right) :
    describeField left = describeField right := by
  rcases left with ⟨_, one, _, _, _, _⟩
  rcases right with ⟨_, other, _, _, _, _⟩
  rcases twins with ⟨sameName, sameType, sameModifiers, sameBounds, sameOrdinal, sameDefault⟩
  cases sameName
  cases sameModifiers
  cases sameBounds
  cases sameOrdinal
  cases sameDefault
  cases sameType with
  | primitive type => rfl
  | user name sameKind =>
    simp only [describeField, FieldType.render, typeKind, sameKind]

lemma describeMessage_eq_of_twins {left right : Message Reference} (twins : left.Twins right)
    {first second : References} {name : String}
    (sameClosure : first.closure? name = second.closure? name) :
    describeMessage first name left = describeMessage second name right := by
  have sameFields : left.fields.map describeField = right.fields.map describeField := by
    have related := twins.fields.flip.imp fun _ _ same => describeField_eq_of_twins same
    exact map_eq_of_forall₂ related
  have sameMessages : left.messages.map (fun nested => nested.id.text) =
      right.messages.map fun nested => nested.id.text := by
    have sameTexts := congrArg (List.map Identifier.text) twins.messages
    rwa [List.map_map, List.map_map] at sameTexts
  rw [describeMessage, describeMessage, twins.name, twins.id, twins.announced, twins.parents,
    twins.enums, sameFields, sameMessages, sameClosure]

section
variable {options : NamingOptions} {aliases : Aliases} {left right : Run options aliases}

lemma mem_enumList_of_reorders (reorders : left.Reorders right) {info : EnumInfo}
    (listed : info ∈ (describe left.compiled).enumList) :
    info ∈ (describe right.compiled).enumList := by
  rcases mem_enumList_describe.mp listed with ⟨name, handle, decl, found, place, same⟩
  rcases reorders.exists_final_enum found place with ⟨other, foundOther, placeOther⟩
  exact mem_enumList_describe.mpr ⟨name, other, decl, foundOther, placeOther, same⟩

lemma mem_messageList_of_reorders (reorders : left.Reorders right) {info : MessageInfo}
    (listed : info ∈ (describe left.compiled).messageList) :
    info ∈ (describe right.compiled).messageList := by
  rcases mem_messageList_describe.mp listed with ⟨name, entry, decl, found, place, same⟩
  rcases reorders.exists_final_message found place with
    ⟨other, twin, foundOther, placeOther, twins⟩
  refine mem_messageList_describe.mpr ⟨name, other, twin, foundOther, placeOther, ?_⟩
  rw [← same, describeMessage_eq_of_twins twins (reorders.closure?_eq name)]

/-- Both runs have the same description: the lists have the same items, and
their order is that of the names. -/
lemma describe_eq_of_reorders (reorders : left.Reorders right) :
    describe left.compiled = describe right.compiled := by
  have describesLeft := (left.stages.indexes_final left.sound).toDescribes
  have describesRight := (right.stages.indexes_final right.sound).toDescribes
  have sameEnums : (describe left.compiled).enumList = (describe right.compiled).enumList := by
    apply Name.eq_of_ascending_by EnumInfo.name
    · exact enumNames_ascending describesLeft
    · exact enumNames_ascending describesRight
    · exact fun _ => ⟨mem_enumList_of_reorders reorders, mem_enumList_of_reorders reorders.symm⟩
  have sameMessages :
      (describe left.compiled).messageList = (describe right.compiled).messageList := by
    apply Name.eq_of_ascending_by MessageInfo.name
    · exact messageNames_ascending describesLeft
    · exact messageNames_ascending describesRight
    · exact fun _ =>
        ⟨mem_messageList_of_reorders reorders, mem_messageList_of_reorders reorders.symm⟩
  have whole : ∀ compiled, describe compiled =
      ⟨some (describe compiled).enumList, some (describe compiled).messageList⟩ := fun _ => rfl
  rw [whole left.compiled, whole right.compiled, sameEnums, sameMessages]

end

/-- Two documents with the same types in the same scopes compile alike, and
their descriptions are the same. -/
theorem describe_independent_of_layout {leftSource rightSource : List UInt8}
    {left right : Document} (parsedLeft : Syntax.parse leftSource = .ok left)
    (parsedRight : Syntax.parse rightSource = .ok right)
    (same : (outerTypes left).Perm (outerTypes right)) (options : NamingOptions) :
    ((∃ compiled, compile options left = .ok compiled) ↔
        ∃ compiled, compile options right = .ok compiled) ∧
      ∀ one other, compile options left = .ok one -> compile options right = .ok other ->
        describe one = describe other := by
  have soundLeft : Document.Sound left := Syntax.sound_of_parse parsedLeft
  have soundRight : Document.Sound right := Syntax.sound_of_parse parsedRight
  have sameTypes : (flatten (qualify left)).Perm (flatten (qualify right)) :=
    (perm_outerTypes left).trans ((same.map Placed.qualified).trans (perm_outerTypes right).symm)
  constructor
  · rw [exists_compile_iff soundLeft, exists_compile_iff soundRight]
    refine exists_congr fun aliases => and_congr_right fun _ => ?_
    exact ⟨.perm (definitionsOf_perm sameTypes), .perm (definitionsOf_perm sameTypes.symm)⟩
  · intro one other doneOne doneOther
    rcases compile_eq_ok_iff.mp doneOne with ⟨aliases, tableOne, typesOne, stagesOne⟩
    rcases compile_eq_ok_iff.mp doneOther with ⟨again, tableOther, typesOther, stagesOther⟩
    cases Except.ok.inj (stagesOne.wished.symm.trans stagesOther.wished)
    let first : Run options aliases := ⟨left, tableOne, typesOne, one, stagesOne, soundLeft⟩
    let second : Run options aliases :=
      ⟨right, tableOther, typesOther, other, stagesOther, soundRight⟩
    have reorders : first.Reorders second := sameTypes
    exact describe_eq_of_reorders reorders

/-- A nested namespace is opened in one piece, after its types are used, or segment by
segment before that. -/
theorem describe_independent_of_split_namespace :
    ∃ left right, Syntax.parse
        ("message P extends a.Q \x7b a.b.M m; \x7d namespace a.b \x7b message M \x7b E e; P p; " ++
          "\x7d enum E \x7b X, Y = 7 \x7d \x7d namespace a \x7b extern message Q; " ++
          "\x7d").toUTF8.toList = .ok left ∧
      Syntax.parse
        ("namespace a \x7b namespace b \x7b enum E \x7b X, Y = 7 \x7d \x7d extern message Q; " ++
          "namespace b \x7b message M \x7b E e; P p; \x7d \x7d \x7d " ++
          "message P extends a.Q \x7b a.b.M m; \x7d").toUTF8.toList = .ok right ∧
      (outerTypes left).Perm (outerTypes right) ∧
      ∃ one other, compile ⟨[("a", "c")], "top"⟩ left = .ok one ∧
        compile ⟨[("a", "c")], "top"⟩ right = .ok other ∧ describe one = describe other := by
  have checked : (Syntax.parse
      ("message P extends a.Q \x7b a.b.M m; \x7d namespace a.b \x7b message M \x7b E e; P p; " ++
        "\x7d enum E \x7b X, Y = 7 \x7d \x7d namespace a \x7b extern message Q; " ++
        "\x7d").toUTF8.toList).toOption.any (fun left =>
      (Syntax.parse
        ("namespace a \x7b namespace b \x7b enum E \x7b X, Y = 7 \x7d \x7d extern message Q; " ++
          "namespace b \x7b message M \x7b E e; P p; \x7d \x7d \x7d " ++
          "message P extends a.Q \x7b a.b.M m; \x7d").toUTF8.toList).toOption.any fun right =>
        decide ((outerTypes left).Perm (outerTypes right)) &&
          (compile ⟨[("a", "c")], "top"⟩ left).isOk) = true := by
    decide +kernel
  rcases (Option.any_eq_true _ _).mp checked with ⟨left, isLeft, checked⟩
  rcases (Option.any_eq_true _ _).mp checked with ⟨right, isRight, checked⟩
  have parsedLeft := eq_ok_of_toOption isLeft
  have parsedRight := eq_ok_of_toOption isRight
  simp only [Bool.and_eq_true, decide_eq_true_eq] at checked
  rcases describe_independent_of_layout parsedLeft parsedRight checked.1
    ⟨[("a", "c")], "top"⟩ with ⟨alike, sameDescription⟩
  rcases exists_ok_of_isOk checked.2 with ⟨one, doneOne⟩
  rcases alike.mp ⟨one, doneOne⟩ with ⟨other, doneOther⟩
  exact ⟨left, right, parsedLeft, parsedRight, checked.1, one, other, doneOne, doneOther,
    sameDescription one other doneOne doneOther⟩

end Export
end MessageSchema
