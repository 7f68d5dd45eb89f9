import MessageSchema.Export.FromJson
import MessageSchema.Export.Products
import MessageSchema.Proofs.Data.JsonDocument

namespace MessageSchema.Export

open List Bool

/-!
# Descriptions read from what was written for them

A description is written as records in which a member is left out if there is
nothing to say, and every record is read member by member onto an empty one.  What
a member was written for is set when it is read, and a member that was left out
would have set what the empty record has already.  So a description comes back, for
any contents that fit the types they are read as.

One thing is not kept: data of any kind has no integers, and the default of a field
is such data.  An integer comes back as the double that stands for it.
-/

open Data (Value)
open Data.Json (Node nodeOf itemNodes memberNodes)

variable {value : Value}

namespace FromJson

lemma text_ofString (prior text : String) :
    FromJson.text prior (nodeOf (.ofString text)) = some text :=
  congrArg some (Data.Json.toStringLossy_ofString text)

lemma integer?_toString (value : ℤ) : integer? (toString value).toList = some value := by
  have digits : (Nat.toDigits 10 value.natAbs).all Char.isDigit = true :=
    List.all_eq_true.2 fun _ member => Number.isDigit_of_mem_toDigits member
  rw [Number.toList_toString_int]
  split
  · next negative =>
    rw [integer?, if_pos digits, Number.ofDigits_toDigits]
    congr 1
    omega
  · next positive =>
    unfold integer?
    split
    · next rest same =>
      have sign : Char.isDigit '-' = true :=
        Number.isDigit_of_mem_toDigits (same ▸ mem_cons_self)
      exact absurd sign (by decide)
    · rw [if_pos digits, Number.ofDigits_toDigits]
      congr 1
      omega

/-- The integer is one of a number of bits, of which one is for the sign. -/
def Fits (bits : ℕ) (value : ℤ) : Prop :=
  -(2 ^ (bits - 1) : ℤ) <= value ∧ value < 2 ^ (bits - 1)

lemma int_nodeOf {bits : ℕ} {value : ℤ} (fits : Fits bits value) (prior : ℤ) :
    int bits prior (nodeOf (.int value)) = some value := by
  change (integer? (toString value).toList).filter _ = _
  rw [integer?_toString, Option.filter_some]
  simp [fits.1, fits.2]

section
variable {α β : Type} {read : Onto α} {fresh : α} {data : β -> Value} {result : β -> α}
  {values : List β}

section
variable (each : ∀ value ∈ values, read fresh (nodeOf (data value)) = some (result value))
include each

lemma items_itemNodes :
    items fresh read [] (itemNodes (values.map data)) = some (values.map result) := by
  induction values with
  | nil => rfl
  | cons value rest ih =>
    rw [forall_mem_cons] at each
    rw [map_cons, itemNodes, items, head?_nil, Option.getD_none, each.1,
      tail_nil]
    simp only [bind, Option.bind, ih each.2]
    rfl

lemma list_nodeOf :
    list fresh read none (nodeOf (.list (values.map data))) = some (some (values.map result)) := by
  change (items fresh read [] (itemNodes (values.map data))).map some = _
  rw [items_itemNodes each]
  rfl

omit each in
lemma list_listOr {items : Option (List β)} (each : ∀ listed ∈ items, ∀ value ∈ listed,
      read fresh (nodeOf (data value)) = some (result value)) :
    list fresh read none (nodeOf (listOr .null data items)) = some
      (items.map (List.map result)) := by
  cases items with
  | none => rfl
  | some listed => exact list_nodeOf (each listed rfl)

lemma plainList_nodeOf :
    plainList fresh read [] (nodeOf (.list (values.map data))) = some (values.map result) := by
  change ((items fresh read [] (itemNodes (values.map data))).map some).map _ = _
  rw [items_itemNodes each]
  rfl

end

end

lemma texts_ofStrings (names : List String) :
    texts [] (nodeOf (.ofStrings names)) = some names := by
  have read : texts [] (nodeOf (.list (names.map .ofString))) = some (names.map id) :=
    plainList_nodeOf fun name _ => text_ofString "" name
  rwa [map_id] at read

variable {name : String}

/-- A name in lower case is the name that it is known by. -/
lemma isNamed_eq {known : String} (lower : name.toList.map Text.foldLetter = name.toList) :
    Text.isNamed known name = decide (name = known) := by
  rw [Text.isNamed, lower, Bool.eq_iff_iff, beq_iff_eq, String.toList_inj, decide_eq_true_eq]

/-- Reading the members takes what was read before them to what is read with them,
whatever members follow. -/
def Sets {α : Type} (read : Onto α) (members : List (String × Value)) (prior next : α) : Prop :=
  ∀ rest, read prior (.record (memberNodes members ++ rest)) = read next (.record rest)

namespace Sets

variable {α : Type} {read : Onto α} {prior between next : α}

lemma memberNodes_append (front back : List (String × Value)) :
    memberNodes (front ++ back) = memberNodes front ++ memberNodes back := by
  induction front with
  | nil => rfl
  | cons entry rest ih => rw [cons_append, memberNodes, memberNodes, ih, cons_append]

lemma append {front back : List (String × Value)} (first : Sets read front prior between)
    (second : Sets read back between next) : Sets read (front ++ back) prior next := by
  intro rest
  rw [memberNodes_append, List.append_assoc, first, second]

lemma member {member : α -> String -> Node -> Option α}
    (found : member prior name (nodeOf value) = some next) :
    Sets (record member) [(name, value)] prior next := by
  intro rest
  rw [memberNodes, memberNodes, cons_append, record, foldlM_cons, found]
  rfl

lemma optional {present : Bool} (given : present = true -> Sets read [(name, value)] prior next)
    (absent : present = false -> prior = next) :
    Sets read (optionalMember present name value) prior next := by
  cases present with
  | true => exact given rfl
  | false =>
    rw [absent rfl]
    exact fun _ => rfl

lemma names {names : List String} (given : Sets read [(name, .ofStrings names)] prior next)
    (absent : names = [] -> prior = next) : Sets read (namesMember name names) prior next := by
  refine optional (fun _ => given) fun empty => absent ?_
  rwa [not_eq_false', List.isEmpty_iff] at empty

lemma complete {member : α -> String -> Node -> Option α} {members : List (String × Value)}
    (sets : Sets (record member) members prior next) :
    record member prior (nodeOf (.record members)) = some next := by
  have read := sets []
  rw [append_nil] at read
  exact read

end Sets

end FromJson

/-- Data as it comes back: an integer is then the double that stands for it. -/
def widen : Value -> Value
  | .int value => .double (.ofInt value)
  | value => value

def FieldInfo.widened (field : FieldInfo) : FieldInfo :=
  { field with default := widen field.default }

def MessageInfo.widened (message : MessageInfo) : MessageInfo :=
  { message with fields := message.fields.map FieldInfo.widened }

/-- The description as it comes back. -/
def Description.widened (description : Description) : Description :=
  { description with messages := description.messages.map (List.map MessageInfo.widened) }

/-- A default that can be written and that some double stands for exactly if it is an
integer.  A text has no stray bytes. -/
def IsDefault : Value -> Prop
  | .null | .bool _ => True
  | .int value => value.natAbs < 2 ^ 53
  | .double value => value.isFinite = true
  | .text value => ∃ chars : List Char, value = chars.map .char
  | _ => False

/-- All numbers of the field have the width that they are read with. -/
structure FieldInfo.Readable (field : FieldInfo) : Prop where
  bounds : ∀ bound ∈ field.bounds, FromJson.Fits 64 bound
  ordinal : ∀ ordinal ∈ field.ordinal, FromJson.Fits 64 ordinal
  default : IsDefault field.default

/-- All numbers of the description have the width that they are read with. -/
structure Description.Readable (description : Description) : Prop where
  items : ∀ enums ∈ description.enums, ∀ enum ∈ enums, ∀ items ∈ enum.items, ∀ item ∈ items,
    FromJson.Fits 32 item.value
  fields : ∀ messages ∈ description.messages, ∀ message ∈ messages, ∀ field ∈ message.fields,
    field.Readable

namespace FromJson

lemma data_nodeOf (isDefault : IsDefault value) : data (nodeOf value) = some (widen value) := by
  cases value with
  | null => rfl
  | bool value => rfl
  | int value =>
    have finite := (Number.Double.toRat_ofInt isDefault).1
    rw [nodeOf, data, Number.read_toString, if_pos finite]
    rfl
  | double value =>
    have finite : value.isFinite = true := isDefault
    rw [nodeOf, data, Data.Json.doubleLayout.read_write finite, if_pos finite]
    rfl
  | text value =>
    rcases isDefault with ⟨chars, rfl⟩
    have shown : Text.toStringLossy (chars.map .char) = String.ofList chars := by
      rw [Text.toStringLossy, List.map_map]
      exact congrArg String.ofList (map_id chars)
    rw [nodeOf, data, shown, Value.ofString, Text.ofString, String.toList_ofList]
    rfl
  | time value => exact isDefault.elim
  | list items => exact isDefault.elim
  | record members => exact isDefault.elim
  | table entries => exact isDefault.elim

lemma item_nodeOf {value : ItemInfo} (fits : Fits 32 value.value) :
    item {} (nodeOf value.data) = some value := by
  have name : Sets item [("name", .ofString value.name)] {} ⟨value.name, 0⟩ :=
    .member (by simp (disch := decide) [isNamed_eq, text_ofString])
  have number : Sets item [("value", .int value.value)] ⟨value.name, 0⟩ value :=
    .member (by simp (disch := decide) [isNamed_eq, int_nodeOf fits])
  exact (name.append number).complete

lemma enum_nodeOf {value : EnumInfo}
    (fits : ∀ items ∈ value.items, ∀ item ∈ items, Fits 32 item.value) :
    enum {} (nodeOf (value.data .null)) = some value := by
  have items : list {} item none (nodeOf (listOr .null ItemInfo.data value.items)) =
      some (value.items.map (List.map id)) :=
    list_listOr fun items isItems listed member => item_nodeOf (fits items isItems listed member)
  rw [map_id_fun, Option.map_id] at items
  have first : Sets enum [("name", .ofString value.name)] {} ⟨value.name, none⟩ :=
    .member (by simp (disch := decide) [isNamed_eq, text_ofString])
  have second : Sets enum [("items", listOr .null ItemInfo.data value.items)]
      ⟨value.name, none⟩ value :=
    .member (by simp (disch := decide) [isNamed_eq, items])
  exact (first.append second).complete

lemma field_nodeOf {value : FieldInfo} (readable : value.Readable) :
    field {} (nodeOf value.value) = some value.widened := by
  rcases value with ⟨name, type, kind, modifiers, bounds, ordinal, default⟩
  have isName : Sets field [("name", .ofString name)] {} { name } :=
    .member (by simp (disch := decide) [isNamed_eq, text_ofString])
  have isType : Sets field [("type", .ofString type)] { name } { name, type } :=
    .member (by simp (disch := decide) [isNamed_eq, text_ofString])
  have isKind : Sets field [("kind", .ofString kind)] { name, type } { name, type, kind } :=
    .member (by simp (disch := decide) [isNamed_eq, text_ofString])
  have hasModifiers : Sets field (namesMember "modifiers" modifiers) { name, type, kind }
      { name, type, kind, modifiers } := by
    refine .names (.member ?_) fun empty => by rw [empty]
    simp (disch := decide) [isNamed_eq, texts_ofStrings]
  have hasBounds : Sets field (optionalMember (!bounds.isEmpty) "bounds" (.list (bounds.map .int)))
      { name, type, kind, modifiers } { name, type, kind, modifiers, bounds } := by
    refine .optional (fun _ => .member ?_) fun empty => ?_
    · have read : plainList 0 (int 64) [] (nodeOf (.list (bounds.map .int))) =
          some (bounds.map id) :=
        plainList_nodeOf fun bound member => int_nodeOf (readable.bounds bound member) 0
      rw [map_id] at read
      simp (disch := decide) [isNamed_eq, read]
    · rw [not_eq_false', List.isEmpty_iff] at empty
      rw [empty]
  have hasOrdinal : Sets field (optionalMember ordinal.isSome "ordinal" (.int (ordinal.getD 0)))
      { name, type, kind, modifiers, bounds } { name, type, kind, modifiers, bounds, ordinal } := by
    cases ordinal with
    | none => exact fun _ => rfl
    | some given =>
      have read : optional 0 (int 64) none (nodeOf (.int given)) = some (some given) :=
        congrArg (Option.map some) (int_nodeOf (readable.ordinal given rfl) 0)
      exact .member (by simp (disch := decide) [isNamed_eq, read])
  have hasDefault : Sets field (optionalMember (isGiven default) "default" default)
      { name, type, kind, modifiers, bounds, ordinal }
      { name, type, kind, modifiers, bounds, ordinal, default := widen default } := by
    refine .optional (fun _ => .member ?_) fun absent => ?_
    · simp (disch := decide) [isNamed_eq, data_nodeOf readable.default]
    · cases default with
      | null => rfl
      | _ => cases absent
  exact (isName.append isType |>.append isKind |>.append hasModifiers |>.append hasBounds
    |>.append hasOrdinal |>.append hasDefault).complete

lemma message_nodeOf {value : MessageInfo} (readable : ∀ field ∈ value.fields, field.Readable) :
    message {} (nodeOf value.value) = some value.widened := by
  rcases value with
    ⟨name, wireName, fileStem, announced, parents, written, enums, messages, dependencies⟩
  have read := plainList_nodeOf fun field member => field_nodeOf (readable field member)
  rw [MessageInfo.widened]
  generalize back : written.map FieldInfo.widened = fields at read ⊢
  have isName : Sets message [("name", .ofString name)] {} { name } :=
    .member (by simp (disch := decide) [isNamed_eq, text_ofString])
  have isWireName : Sets message [("original_name", .ofString wireName)] { name }
      { name, wireName } :=
    .member (by simp (disch := decide) [isNamed_eq, text_ofString])
  have isFileStem : Sets message [("file_stem", .ofString fileStem)] { name, wireName }
      { name, wireName, fileStem } :=
    .member (by simp (disch := decide) [isNamed_eq, text_ofString])
  have isAnnounced : Sets message (optionalMember announced "extern" (.bool true))
      { name, wireName, fileStem } { name, wireName, fileStem, announced } := by
    refine .optional (fun given => .member ?_) fun absent => by rw [absent]
    simp (disch := decide) [isNamed_eq, given, nodeOf, bool]
  have hasParents : Sets message (namesMember "parents" parents)
      { name, wireName, fileStem, announced }
      { name, wireName, fileStem, announced, parents } := by
    refine .names (.member ?_) fun empty => by rw [empty]
    simp (disch := decide) [isNamed_eq, texts_ofStrings]
  have hasFields : Sets message
      (optionalMember (!written.isEmpty) "fields" (.list (written.map FieldInfo.value)))
      { name, wireName, fileStem, announced, parents }
      { name, wireName, fileStem, announced, parents, fields } := by
    refine .optional (fun _ => .member ?_) fun empty => ?_
    · simp (disch := decide) [isNamed_eq, read]
    · rw [not_eq_false', List.isEmpty_iff] at empty
      rw [← back, empty]
      rfl
  have hasEnums : Sets message (namesMember "enums" enums)
      { name, wireName, fileStem, announced, parents, fields }
      { name, wireName, fileStem, announced, parents, fields, enums } := by
    refine .names (.member ?_) fun empty => by rw [empty]
    simp (disch := decide) [isNamed_eq, texts_ofStrings]
  have hasMessages : Sets message (namesMember "messages" messages)
      { name, wireName, fileStem, announced, parents, fields, enums }
      { name, wireName, fileStem, announced, parents, fields, enums, messages } := by
    refine .names (.member ?_) fun empty => by rw [empty]
    simp (disch := decide) [isNamed_eq, texts_ofStrings]
  have hasDependencies : Sets message (namesMember "dependencies" dependencies)
      { name, wireName, fileStem, announced, parents, fields, enums, messages }
      { name, wireName, fileStem, announced, parents, fields, enums, messages, dependencies } := by
    refine .names (.member ?_) fun empty => by rw [empty]
    simp (disch := decide) [isNamed_eq, texts_ofStrings]
  exact (isName.append isWireName |>.append isFileStem |>.append isAnnounced
    |>.append hasParents |>.append hasFields |>.append hasEnums |>.append hasMessages
    |>.append hasDependencies).complete

lemma description_nodeOf {value : Description} (readable : value.Readable) :
    description {} (nodeOf (value.data .null)) = some value.widened := by
  have enums : list {} enum none (nodeOf (listOr .null (EnumInfo.data .null) value.enums)) =
      some (value.enums.map (List.map id)) :=
    list_listOr fun enums isEnums listed member =>
      enum_nodeOf (readable.items enums isEnums listed member)
  rw [map_id_fun, Option.map_id] at enums
  have messages := list_listOr fun messages isMessages listed member =>
    message_nodeOf (readable.fields messages isMessages listed member)
  have first : Sets description [("enums", listOr .null (EnumInfo.data .null) value.enums)]
      {} ⟨value.enums, none⟩ :=
    .member (by simp (disch := decide) [isNamed_eq, enums])
  have second : Sets description [("messages", listOr .null MessageInfo.value value.messages)]
      ⟨value.enums, none⟩ value.widened :=
    .member (by simp (disch := decide) [isNamed_eq, messages, Description.widened])
  exact (first.append second).complete

end FromJson
end MessageSchema.Export
