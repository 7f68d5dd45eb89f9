import MessageSchema.Proofs.Compile.Ownership

namespace MessageSchema

open List Option

/-!
A symbol table under a change of its handles.

A table never looks at its handles, so replacing them before or after what is done
with the table makes no difference.
-/

namespace Name.Table

variable {α β : Type} (change : α -> β)

/-- The table with every value changed. -/
def map (table : Table α) : Table β where
  entries := table.entries.map fun entry => (entry.1, change entry.2)
  ascending := by
    rw [Ascending, pairwise_map]
    exact table.ascending

lemma ext_entries {left right : Table α} (same : left.entries = right.entries) : left = right := by
  cases left
  cases right
  cases same
  rfl

lemma names_map (table : Table α) : (table.map change).names = table.names := by
  rw [names, map, List.map_map]
  rfl

lemma find?_map (table : Table α) (name : String) :
    (table.map change).find? name = (table.find? name).map change := by
  rw [find?, map, find?]
  simp only
  induction table.entries with
  | nil => rfl
  | cons entry rest ih =>
    rcases entry with ⟨key, value⟩
    rw [map_cons, lookup_cons, lookup_cons, ih]
    cases name == key <;> rfl

lemma contains_map (table : Table α) (name : String) :
    (table.map change).contains name = table.contains name := by
  rw [contains, find?_map, isSome_map, contains]

lemma insert_map (table : Table α) (name : String) (value : α) :
    (table.map change).insert name (change value) = (table.insert name value).map change := by
  apply ext_entries
  rw [insert, map, insert, map]
  simp only
  induction table.entries with
  | nil => rfl
  | cons entry rest ih =>
    simp only [map_cons, insertEntry, ih]
    split
    · rfl
    · split <;> rfl

lemma ofList_map (entries : List (String × α)) :
    ofList (entries.map fun entry => (entry.1, change entry.2)) = (ofList entries).map change := by
  have fold : ∀ table : Table α,
      (entries.map fun entry => (entry.1, change entry.2)).foldl
          (fun table entry => table.insert entry.1 entry.2) (table.map change) =
        (entries.foldl (fun table entry => table.insert entry.1 entry.2) table).map change := by
    induction entries with
    | nil => intro table; rfl
    | cons entry rest ih =>
      intro table
      rw [map_cons, foldl_cons, foldl_cons, insert_map, ih]
  exact fold empty

/-- A name that is set to one value only has that value in the end, however often
it is set. -/
lemma find?_ofList_of_forall {entries : List (String × α)} {name : String} {value : α}
    (member : (name, value) ∈ entries) (only : ∀ other, (name, other) ∈ entries -> other = value) :
    (ofList entries).find? name = some value := by
  have fold : ∀ table : Table α, (name, value) ∈ entries ∨ table.find? name = some value ->
      (entries.foldl (fun table entry => table.insert entry.1 entry.2) table).find? name =
        some value := by
    clear member
    induction entries with
    | nil => exact fun table either => either.resolve_left not_mem_nil
    | cons entry rest ih =>
      intro table either
      rcases entry with ⟨key, stored⟩
      rw [foldl_cons]
      apply ih fun other listed => only other (mem_cons_of_mem _ listed)
      by_cases same : name = key
      · subst same
        refine .inr ?_
        rw [find?_insert_self, only stored mem_cons_self]
      · rcases either with member | found
        · refine .inl ((List.mem_cons.mp member).resolve_left fun isFirst => same ?_)
          exact congrArg Prod.fst isFirst
        · refine .inr ?_
          rw [find?_insert_of_ne _ _ same]
          exact found
  exact fold empty (.inl member)

end Name.Table

/-- The same symbol under another handle. -/
def Symbol.map {δ ε : Type} (change : δ -> ε) : Symbol δ -> Symbol ε
  | .enum handle => .enum (change handle)
  | .message handle => .message (change handle)

lemma Symbol.kind_map {δ ε : Type} (change : δ -> ε) (symbol : Symbol δ) :
    (symbol.map change).kind = symbol.kind := by
  cases symbol <;> rfl

lemma Symbol.handle_map {δ ε : Type} (change : δ -> ε) (symbol : Symbol δ) :
    (symbol.map change).handle = change symbol.handle := by
  cases symbol <;> rfl

def MessageEntry.map {δ ε : Type} (change : δ -> ε) (entry : MessageEntry δ) : MessageEntry ε :=
  ⟨change entry.handle, entry.announced⟩

namespace SymbolTable

variable {δ ε : Type} (change : δ -> ε) (table : SymbolTable δ)

def map : SymbolTable ε :=
  ⟨table.enums.map change, table.messages.map (MessageEntry.map change)⟩

lemma find?_map (name : String) :
    (table.map change).find? name = (table.find? name).map (Symbol.map change) := by
  rw [find?, map, find?]
  simp only [Name.Table.find?_map]
  cases table.enums.find? name with
  | some handle => rfl
  | none => cases table.messages.find? name <;> rfl

lemma addEnum_map (name : String) (handle : δ) : (table.map change).addEnum name (change handle) =
      (table.addEnum name handle).map (SymbolTable.map change) := by
  rw [addEnum, find?_map, addEnum]
  cases table.find? name with
  | some existing =>
    rw [map_some]
    simp only [Symbol.kind_map]
    rfl
  | none =>
    simp only [map_none, Except.map, map, Name.Table.insert_map]

lemma addMessage_map (name : String) (announced : Bool) (handle : δ) :
    (table.map change).addMessage name announced (change handle) =
      (table.addMessage name announced handle).map (Option.map (SymbolTable.map change)) := by
  have entered : (table.map change).messages.insert name ⟨change handle, announced⟩ =
      (table.messages.insert name ⟨handle, announced⟩).map (MessageEntry.map change) :=
    Name.Table.insert_map (MessageEntry.map change) table.messages name ⟨handle, announced⟩
  have taken : (table.map change).enums.contains name = table.enums.contains name :=
    Name.Table.contains_map change table.enums name
  have found : (table.map change).messages.find? name =
      (table.messages.find? name).map (MessageEntry.map change) :=
    Name.Table.find?_map (MessageEntry.map change) table.messages name
  unfold addMessage
  simp only [entered, taken, found]
  split
  · rfl
  · cases table.messages.find? name with
    | none => rfl
    | some existing =>
      simp only [map_some, MessageEntry.map]
      split
      · rfl
      · split <;> rfl

lemma resolve?_map (name scope : Identifier) : (table.map change).resolve? name scope =
      (table.resolve? name scope).map (Symbol.map change) := by
  rw [resolve?, resolve?]
  induction candidates name scope with
  | nil => rfl
  | cons candidate rest ih =>
    rw [findSome?_cons, findSome?_cons, find?_map, ih]
    cases table.find? candidate <;> rfl

lemma rekey_map (renames : Name.Table String) :
    (table.map change).rekey renames = (table.rekey renames).map (SymbolTable.map change) := by
  have moved : ∀ {α β : Type} (change : α -> β) (entries : Name.Table α),
      Name.Table.ofList ((entries.map change).entries.map fun entry =>
          ((renames.find? entry.1).getD entry.1, entry.2)) =
        (Name.Table.ofList (entries.entries.map fun entry =>
          ((renames.find? entry.1).getD entry.1, entry.2))).map change := by
    intro α β change entries
    rw [← Name.Table.ofList_map, Name.Table.map, List.map_map, List.map_map]
    rfl
  unfold rekey
  simp only [map, Name.Table.names_map, moved]
  split <;> rfl

/-- Names are claimed in the same way as long as they move to the same new names. -/
lemma claimNames_congr {left right : String -> String} {names : List String}
    (same : ∀ name ∈ names, left name = right name) (owners : Name.Table String) :
    claimNames left owners names = claimNames right owners names := by
  induction names generalizing owners with
  | nil => rfl
  | cons name rest ih =>
    rw [claimNames, claimNames, same name mem_cons_self]
    simp only [ih fun other listed => same other (mem_cons_of_mem _ listed)]

/-- Only the new names of entries matter for a table. -/
lemma rekey_congr {table : SymbolTable Nat} {left right : Name.Table String}
    (same : ∀ name ∈ table.keys, (left.find? name).getD name = (right.find? name).getD name) :
    table.rekey left = table.rekey right := by
  have entries : ∀ {α : Type} (part : Name.Table α), (∀ name ∈ part.names, name ∈ table.keys) ->
      (part.entries.map fun entry => ((left.find? entry.1).getD entry.1, entry.2)) =
        part.entries.map fun entry => ((right.find? entry.1).getD entry.1, entry.2) := by
    intro α part known
    refine map_congr_left fun entry listed => ?_
    rw [same entry.1 (known _ (List.mem_map_of_mem listed))]
  unfold rekey
  simp only [entries table.enums fun _ => mem_append_left _,
    entries table.messages fun _ => mem_append_right _]
  rw [← keys, claimNames_congr same]

lemma ownerName_map (name : Identifier) :
    (table.map change).ownerName name = table.ownerName name := by
  induction length : name.segments.length using Nat.strongRecOn generalizing name with
  | _ count ih =>
    have known : ∀ scope : Identifier, (table.map change).messages.contains scope.text =
        table.messages.contains scope.text := fun scope =>
      Name.Table.contains_map (MessageEntry.map change) table.messages scope.text
    rw [ownerName, ownerName]
    split
    · rfl
    · next scope up =>
      rw [known]
      split
      · exact ih _ (length ▸ Identifier.length_of_parent? up) scope rfl
      · rfl

lemma noteReference_map (references : References) (source target : Identifier) :
    (table.map change).noteReference references source target =
      table.noteReference references source target := by
  have known : (table.map change).messages.contains target.text =
      table.messages.contains target.text :=
    Name.Table.contains_map (MessageEntry.map change) table.messages target.text
  rw [noteReference, noteReference, known, ownerName_map, ownerName_map]

lemma listing_map : (table.map change).listing = table.listing := by
  rw [listing, listing, map, Name.Table.names_map, Name.Table.names_map]

end SymbolTable

end MessageSchema
