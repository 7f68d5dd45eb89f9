import MessageSchema.Export.FromYaml
import MessageSchema.Proofs.Export.JsonReading
import MessageSchema.Proofs.Export.Listing

namespace MessageSchema

open List Option
namespace Data
namespace Json

/-!
# Descriptions written as JSON and read back

A description can be written if its numbers are finite, and it is never deep: the
lists of a field are the deepest part of it.  So what is written for a description is
read back.  What comes back is written the same way, because the double of an integer
is written with the digits of the integer.

The descriptions of compiled schemas are of this kind.  The numbers and the defaults
of a schema are those of its source, which are small and finite; no stage of a
compilation changes them.
-/

/-- The value can be written, and is read with at most so many frames open. -/
structure Plain (depth : ℕ) (value : Value) : Prop where
  writable : isWritable value = true
  height : height value <= depth

namespace Plain

variable {depth : ℕ}

lemma list {items : List Value} (each : ∀ item ∈ items, Plain depth item) :
    Plain (depth + 1) (.list items) := by
  have both : areWritable items = true ∧ itemsHeight items <= depth := by
    induction items with
    | nil => exact ⟨rfl, Nat.zero_le _⟩
    | cons item rest ih =>
      rw [forall_mem_cons] at each
      have others := ih each.2
      exact ⟨Bool.and_eq_true_iff.2 ⟨each.1.writable, others.1⟩,
        max_le each.1.height others.2⟩
  exact ⟨both.1, Nat.succ_le_succ both.2⟩

lemma record {members : List (String × Value)}
    (each : ∀ entry ∈ members, Plain depth entry.2) : Plain (depth + 1) (.record members) := by
  have both : membersAreWritable members = true ∧ membersHeight members <= depth := by
    induction members with
    | nil => exact ⟨rfl, Nat.zero_le _⟩
    | cons entry rest ih =>
      rw [forall_mem_cons] at each
      have others := ih each.2
      exact ⟨Bool.and_eq_true_iff.2 ⟨each.1.writable, others.1⟩,
        max_le each.1.height others.2⟩
  exact ⟨both.1, Nat.succ_le_succ both.2⟩

lemma text (value : List Text.Glyph) : Plain depth (.text value) :=
  ⟨rfl, Nat.zero_le _⟩

lemma int (value : ℤ) : Plain depth (.int value) :=
  ⟨rfl, Nat.zero_le _⟩

lemma ofStrings (names : List String) : Plain (depth + 1) (.ofStrings names) := by
  refine list fun item listed => ?_
  rcases List.mem_map.1 listed with ⟨name, _, rfl⟩
  exact text _

end Plain

lemma indentedItems_map {α : Type} (depth : ℕ) (data : α -> Value) (items : List α) :
    indentedItems depth (items.map data) = items.map fun item => indented depth (data item) := by
  induction items with
  | nil => rfl
  | cons item rest ih => rw [map_cons, indentedItems, ih, map_cons]

lemma indentedMembers_append (depth : ℕ) (front back : List (String × Value)) :
    indentedMembers depth (front ++ back) =
      indentedMembers depth front ++ indentedMembers depth back := by
  induction front with
  | nil => rfl
  | cons entry rest ih =>
    rw [cons_append, indentedMembers, indentedMembers, ih, cons_append]

end Json
end Data

namespace Export

open Data (Value)
open Data.Json (Plain indented indentedItems indentedMembers indentedItems_map
  indentedMembers_append)

/-! ## Every description can be written -/

variable {value : Value} {description : Description}

lemma mem_optionalMember {present : Bool} {name : String} {entry : String × Value}
    (member : entry ∈ optionalMember present name value) : entry.2 = value := by
  rw [optionalMember] at member
  split at member
  · rw [List.mem_singleton.1 member]
  · exact absurd member not_mem_nil

lemma plain_default {depth : ℕ} (isDefault : IsDefault value) : Plain depth value := by
  cases value with
  | null => exact ⟨rfl, Nat.zero_le _⟩
  | bool value => exact ⟨rfl, Nat.zero_le _⟩
  | int value => exact .int value
  | double value => exact ⟨isDefault, Nat.zero_le _⟩
  | text value => exact .text value
  | time value => exact isDefault.elim
  | list items => exact isDefault.elim
  | record members => exact isDefault.elim
  | table entries => exact isDefault.elim

lemma plain_listOr {α : Type} {depth : ℕ} {data : α -> Value} {items : Option (List α)}
    (each : ∀ listed ∈ items, ∀ item ∈ listed, Plain depth (data item)) :
    Plain (depth + 1) (listOr .null data items) := by
  cases items with
  | none => exact ⟨rfl, Nat.zero_le _⟩
  | some listed =>
    refine .list fun value member => ?_
    rcases List.mem_map.1 member with ⟨item, isItem, rfl⟩
    exact each listed rfl item isItem

lemma FieldInfo.Readable.plain {field : FieldInfo} (readable : field.Readable) :
    Plain 2 field.value := by
  refine .record fun entry member => ?_
  simp only [mem_append, mem_cons, not_mem_nil, or_false] at member
  rcases member with ((((rfl | rfl | rfl) | member) | member) | member) | member
  · exact .text _
  · exact .text _
  · exact .text _
  · rw [mem_optionalMember member]
    exact .ofStrings _
  · rw [mem_optionalMember member]
    refine .list fun item listed => ?_
    rcases List.mem_map.1 listed with ⟨bound, _, rfl⟩
    exact .int bound
  · rw [mem_optionalMember member]
    exact .int _
  · rw [mem_optionalMember member]
    exact plain_default readable.default

lemma MessageInfo.plain_value {message : MessageInfo}
    (readable : ∀ field ∈ message.fields, field.Readable) : Plain 4 message.value := by
  refine .record fun entry member => ?_
  simp only [mem_append, mem_cons, not_mem_nil, or_false] at member
  rcases member with
    ((((((rfl | rfl | rfl) | member) | member) | member) | member) | member) | member
  · exact .text _
  · exact .text _
  · exact .text _
  · rw [mem_optionalMember member]
    exact ⟨rfl, Nat.zero_le _⟩
  · rw [mem_optionalMember member]
    exact .ofStrings _
  · rw [mem_optionalMember member]
    refine .list fun item listed => ?_
    rcases List.mem_map.1 listed with ⟨field, isField, rfl⟩
    exact (readable field isField).plain
  · rw [mem_optionalMember member]
    exact .ofStrings _
  · rw [mem_optionalMember member]
    exact .ofStrings _
  · rw [mem_optionalMember member]
    exact .ofStrings _

lemma Description.Readable.plain (readable : description.Readable) :
    Plain 6 (description.data .null) := by
  refine .record fun entry member => ?_
  simp only [mem_cons, not_mem_nil, or_false] at member
  rcases member with rfl | rfl
  · refine plain_listOr fun enums isEnums enum listed => .record fun entry member => ?_
    simp only [mem_cons, not_mem_nil, or_false] at member
    rcases member with rfl | rfl
    · exact .text _
    · refine plain_listOr fun items _ item _ => .record fun entry member => ?_
      simp only [mem_cons, not_mem_nil, or_false] at member
      rcases member with rfl | rfl
      · exact .text _
      · exact .int _
  · exact plain_listOr fun messages isMessages message listed =>
      MessageInfo.plain_value (readable.fields messages isMessages message listed)

lemma Description.Readable.json? (readable : description.Readable) :
    description.json? = some (Data.Json.document (description.data .null)) :=
  if_pos readable.plain.writable

lemma Description.Readable.ofJson?_document (readable : description.Readable) :
    Description.ofJson? (Text.utf8 (Data.Json.document (description.data .null))) =
      some description.widened := by
  have shallow : Data.Json.height (description.data .null) <= Data.Json.Machine.maxDepth :=
    readable.plain.height.trans (by decide)
  rw [Description.ofJson?, Data.Json.readFirst_document readable.plain.writable shallow]
  exact FromJson.description_nodeOf readable

/-! ## What comes back is written the same way -/

lemma isGiven_widen (value : Value) : isGiven (widen value) = isGiven value := by
  cases value <;> rfl

lemma isDefault_widen (isDefault : IsDefault value) : IsDefault (widen value) := by
  cases value with
  | int value => exact (Number.Double.toRat_ofInt isDefault).1
  | _ => exact isDefault

lemma indented_widen (isDefault : IsDefault value) (depth : ℕ) :
    indented depth (widen value) = indented depth value := by
  cases value with
  | int value => exact Data.Json.doubleLayout.write_ofInt (by decide) (by decide) isDefault
  | _ => rfl

lemma indentedMembers_optionalMember (depth : ℕ) (present : Bool) (name : String) (value : Value) :
    indentedMembers depth (optionalMember present name value) =
      if present then [Data.Json.quoteString name ++ ": " ++ indented depth value] else [] := by
  cases present <;> rfl

lemma FieldInfo.Readable.indented_widened {field : FieldInfo} (readable : field.Readable)
    (depth : ℕ) : indented depth field.widened.value = indented depth field.value := by
  simp only [FieldInfo.value, FieldInfo.widened, indented, indentedMembers_append,
    indentedMembers_optionalMember, isGiven_widen, indented_widen readable.default]

lemma MessageInfo.indented_widened {message : MessageInfo}
    (readable : ∀ field ∈ message.fields, field.Readable) (depth : ℕ) :
    indented depth message.widened.value = indented depth message.value := by
  have fields (depth : ℕ) :
      indentedItems depth ((message.fields.map FieldInfo.widened).map FieldInfo.value) =
        indentedItems depth (message.fields.map FieldInfo.value) := by
    rw [List.map_map, indentedItems_map, indentedItems_map]
    exact map_congr_left fun field listed => (readable field listed).indented_widened depth
  simp only [MessageInfo.value, MessageInfo.widened, indented, indentedMembers_append,
    indentedMembers_optionalMember, isEmpty_map, fields]

lemma Description.Readable.widened (readable : description.Readable) :
    description.widened.Readable where
  items := readable.items
  fields := by
    intro messages isMessages message listed field member
    rcases Option.map_eq_some_iff.1 isMessages with ⟨prior, isPrior, rfl⟩
    rcases List.mem_map.1 listed with ⟨before, isBefore, rfl⟩
    rcases List.mem_map.1 member with ⟨earlier, isEarlier, rfl⟩
    have known := readable.fields prior isPrior before isBefore earlier isEarlier
    exact ⟨known.bounds, known.ordinal, isDefault_widen known.default⟩

lemma Description.Readable.document_widened (readable : description.Readable) :
    Data.Json.document (description.widened.data .null) =
      Data.Json.document (description.data .null) := by
  have messages : indented 1 (listOr .null MessageInfo.value description.widened.messages) =
      indented 1 (listOr .null MessageInfo.value description.messages) := by
    cases same : description.messages with
    | none => rw [Description.widened, same, map_none]
    | some listed =>
      rw [Description.widened, same, map_some]
      simp only [listOr, elim_some, indented, List.map_map, indentedItems_map]
      refine congrArg _ (map_congr_left fun message member => ?_)
      exact MessageInfo.indented_widened (readable.fields listed same message member) 2
  simp only [Data.Json.document, Description.data, indented, indentedMembers, Nat.zero_add,
    messages]
  rfl

/-! ## The description of a compiled schema -/

end Export

section
variable {ρ σ : Type}

/-- Only the numbers and the default of a field decide. -/
lemma Field.InRange.of_eq {field : Field ρ} {other : Field σ} (inRange : field.InRange)
    (bounds : other.bounds = field.bounds) (ordinal : other.ordinal = field.ordinal)
    (default : other.default = field.default) : other.InRange where
  bounds := bounds ▸ inRange.bounds
  ordinal := ordinal ▸ inRange.ordinal
  default := default ▸ inRange.default

lemma TypeDecl.InRange.qualify {type : TypeDecl Identifier} (inRange : type.InRange)
    (scope : Identifier) : (type.qualify scope).InRange := by
  cases type with
  | enum decl => exact inRange
  | message message =>
    rw [TypeDecl.qualify, TypeDecl.InRange, Message.fields_qualify]
    exact inRange

lemma TypeDecl.InRange.resolved {scope : Scope} {written : TypeDecl Identifier}
    {result : TypeDecl Reference} (inRange : written.InRange)
    (completes : scope.CompletesDecl written result) : result.InRange := by
  rcases written with decl | decl <;> rcases result with found | found
  · cases completes
    exact inRange
  · cases completes
  · cases completes
  · intro field listed
    rcases getElem?_of_mem listed with ⟨index, place⟩
    rcases getElem?_of_forall₂ completes.fields place with ⟨earlier, before, resolved⟩
    have same := ((scope.resolveField_eq_ok_iff _ _ _).1 resolved).2.2
    refine (inRange earlier (mem_of_getElem? before)).of_eq ?_ ?_ ?_ <;> rw [same]

lemma TypeDecl.InRange.alias {type : TypeDecl Reference} (inRange : type.InRange)
    (aliases : Aliases) : (type.alias aliases).InRange := by
  cases type with
  | enum decl => exact inRange
  | message message =>
    rw [TypeDecl.alias, TypeDecl.InRange, Message.fields_alias, List.forall_mem_map]
    exact fun field listed => (inRange field listed).of_eq rfl rfl rfl

end

lemma inRange_of_compile {source : List UInt8} {document : Document} {options : NamingOptions}
    {compiled : Compiled} (parsed : Syntax.parse source = .ok document)
    (done : compile options document = .ok compiled) :
    ∀ type ∈ definitionsOf compiled.types, type.InRange := by
  rcases compile_eq_ok_iff.1 done with ⟨aliases, table, types, stages⟩
  have written : ∀ type ∈ definitionsOf (flatten (qualify document)), type.InRange := by
    intro type member
    rcases mem_definitionsOf_flatten.1 member with ⟨placed, listed, rfl⟩
    exact (Syntax.inRange_of_parse parsed placed listed).qualify placed.scope
  have resolved : ∀ type ∈ definitionsOf types, type.InRange := by
    intro type member
    rcases getElem?_of_mem member with ⟨handle, place⟩
    rcases getElem?_of_forall₂ (definitions_of_resolve stages.resolved) place with
      ⟨earlier, before, completes⟩
    exact (written earlier (mem_of_getElem? before)).resolved completes
  rw [stages.types_eq (Syntax.sound_of_parse parsed), definitionsOf_alias, List.forall_mem_map]
  exact fun type member => (resolved type member).alias aliases

namespace Export

/-- An integer of 32 bits is one of any larger number of bits. -/
lemma fits_of_isInt32 {bits : ℕ} (wide : 32 <= bits) {value : ℤ} (isInt32 : IsInt32 value) :
    FromJson.Fits bits value := by
  have enough : (2 : ℤ) ^ 31 <= 2 ^ (bits - 1) := pow_le_pow_right₀ (by decide) (by omega)
  have least : minInt32 = -2 ^ 31 := rfl
  have largest : maxInt32 = 2 ^ 31 - 1 := rfl
  rcases isInt32 with ⟨above, below⟩
  exact ⟨by linarith, by linarith⟩

lemma isDefault_literalValue {literal : Literal} (inRange : literal.InRange) :
    IsDefault (literalValue literal) := by
  cases literal with
  | missing => exact inRange.elim
  | int value =>
    rcases fits_of_isInt32 (Nat.le_refl _) inRange with ⟨above, below⟩
    change value.natAbs < 2 ^ 53
    norm_num at above below ⊢
    omega
  | double value => exact inRange
  | text value => exact inRange
  | bool value => exact trivial

lemma readable_describeField {field : Field Reference} (inRange : field.InRange) :
    (describeField field).Readable where
  bounds := fun bound listed => fits_of_isInt32 (by decide) (inRange.bounds bound listed)
  ordinal := fun ordinal given => fits_of_isInt32 (by decide) (inRange.ordinal ordinal given)
  default := by
    rw [describeField]
    cases given : field.default with
    | none => exact trivial
    | some literal => exact isDefault_literalValue (inRange.default literal given)

lemma readable_describe {compiled : Compiled}
    (inRange : ∀ type ∈ definitionsOf compiled.types, type.InRange) :
    (describe compiled).Readable where
  items := by
    rintro enums ⟨⟩ info listed items isItems item member
    rcases mem_enumList_describe.1 listed with ⟨name, handle, decl, _, place, rfl⟩
    cases isItems
    rcases List.mem_map.1 member with ⟨written, among, rfl⟩
    exact fits_of_isInt32 (Nat.le_refl _) (inRange _ (mem_of_getElem? place) written among)
  fields := by
    rintro messages ⟨⟩ info listed field member
    rcases mem_messageList_describe.1 listed with ⟨name, entry, decl, _, place, rfl⟩
    rcases List.mem_map.1 member with ⟨written, among, rfl⟩
    exact readable_describeField (inRange _ (mem_of_getElem? place) written among)

/-- A compiled document has a description that can be written, and it comes back from
what was written: all of it as it was, but for integer defaults, which come back as
doubles of the same value.  What comes back is written as the same text. -/
theorem described_schema_survives_json {source : List UInt8} {document : Document}
    {options : NamingOptions} {compiled : Compiled} (parsed : Syntax.parse source = .ok document)
    (done : compile options document = .ok compiled) :
    ∃ text, (describe compiled).json? = some text ∧
      Description.ofJson? (Text.utf8 text) = some (describe compiled).widened ∧
      (describe compiled).widened.json? = some text ∧
      ∀ message ∈ (describe compiled).messageList, ∀ field ∈ message.fields, ∀ value,
        field.default = .int value ->
          (Number.Double.ofInt value).isFinite = true ∧ (Number.Double.ofInt value).toRat =
            value := by
  have readable := readable_describe (inRange_of_compile parsed done)
  refine ⟨_, readable.json?, readable.ofJson?_document, ?_, ?_⟩
  · rw [readable.widened.json?, readable.document_widened]
  · intro message listed field member value isDefault
    have known := (readable.fields _ rfl message listed field member).default
    rw [isDefault] at known
    exact Number.Double.toRat_ofInt known

/-- A schema with the defaults that count as empty, and with a negative zero. -/
theorem empty_defaults_survive_json :
    ∃ document compiled, Syntax.parse
        ("message M \x7b int i = 1 [default = 0]; bool b [default = false]; " ++
          "string s [default = \"\"]; double d [default = -0.0]; \x7d").toUTF8.toList = .ok document ∧
      compile ⟨[], ""⟩ document = .ok compiled ∧
      ((describe compiled).messageList.flatMap MessageInfo.fields).map
          (fun field => (field.ordinal, Data.Json.indented 0 field.default)) =
        [(some 1, "0"), (none, "false"), (none, "\"\""), (none, "-0")] ∧
      ∃ text, (describe compiled).json? = some text ∧
        Description.ofJson? (Text.utf8 text) = some (describe compiled).widened ∧
        (describe compiled).widened.json? = some text := by
  refine exists_compiled (fun compiled =>
    ((describe compiled).messageList.flatMap MessageInfo.fields).map
        (fun field => (field.ordinal, Data.Json.indented 0 field.default)) ==
      [(some 1, "0"), (none, "false"), (none, "\"\""), (none, "-0")]) (by decide +kernel) ?_
  intro document compiled parsed done defaults
  rcases described_schema_survives_json parsed done with ⟨text, written, read, again, _⟩
  exact ⟨eq_of_beq defaults, text, written, read, again⟩

/-! ## Defaults written as YAML -/

/-- A negative zero is written without a fraction, so it is read as an integer, which has no
sign at zero. -/
theorem negative_zero_is_lost_in_yaml :
    ∃ document compiled decoded,
      Syntax.parse "message M \x7b double d [default = -0.0]; \x7d".toUTF8.toList = .ok document ∧
      compile ⟨[], ""⟩ document = .ok compiled ∧
      Description.ofYaml? (Text.utf8 (describe compiled).yaml) = some decoded ∧
      decoded.yaml ≠ (describe compiled).yaml := by
  have changes : (compileSource? ⟨[], ""⟩ "message M \x7b double d [default = -0.0]; \x7d").any
      (fun compiled => (Description.ofYaml? (Text.utf8 (describe compiled).yaml)).any
        (fun decoded => decoded.yaml != (describe compiled).yaml)) = true := by
    decide +kernel
  rcases (Option.any_eq_true _ _).1 changes with ⟨compiled, found, reread⟩
  rcases (Option.any_eq_true _ _).1 reread with ⟨decoded, read, differs⟩
  rcases compileSource?_eq_some_iff.1 found with ⟨document, parsed, done⟩
  exact ⟨document, compiled, decoded, parsed, done, read, bne_iff_ne.1 differs⟩

end Export
end MessageSchema
