import Mathlib.Data.List.Sort
import Mathlib.Data.UInt
import Mathlib.Tactic.Lemma
import Mathlib.Tactic.SplitIfs
import MessageSchema.Name.Table

namespace MessageSchema.Name

open List String

/-!
The order of names is the order of their bytes.

Tables compare names by characters; whoever reads them sees bytes.  The encoding
puts the high bits of a character first and gives longer sequences larger first
bytes, so both orders are the same.
-/

/-- The bytes that a name is encoded in. -/
def bytes (name : String) : List UInt8 :=
  name.toUTF8.data.toList

lemma bytes_eq_flatMap (name : String) : bytes name = name.toList.flatMap utf8EncodeChar := by
  rw [bytes, toUTF8, ← utf8Encode_toList, utf8Encode]
  simp

/-- A smaller byte decides, and after the same byte what follows decides. -/
lemma ofNat_cons_lt {first second : Nat} {left right : List UInt8} (boundFirst : first < 256)
    (boundSecond : second < 256) (atMost : first <= second)
    (further : first = second -> left < right) :
    UInt8.ofNat first :: left < UInt8.ofNat second :: right := by
  rw [cons_lt_cons_iff, UInt8.lt_iff_toNat_lt, ← UInt8.toNat_inj, UInt8.toNat_ofNat',
    UInt8.toNat_ofNat', Nat.mod_eq_of_lt boundFirst, Nat.mod_eq_of_lt boundSecond]
  rcases Nat.lt_or_eq_of_le atMost with below | same
  · exact .inl below
  · exact .inr ⟨same, further same⟩

/-- The encoding of a smaller character is smaller, whatever follows. -/
lemma encode_append_lt {first second : Char} (below : first < second) (left right : List UInt8) :
    utf8EncodeChar first ++ left < utf8EncodeChar second ++ right := by
  have belowCode : first.val.toNat < second.val.toNat := below
  have bound : second.val.toNat < 1114112 := by
    rcases second.valid with low | high <;> omega
  simp only [utf8EncodeChar]
  generalize first.val.toNat = low at belowCode ⊢
  generalize second.val.toNat = high at belowCode bound ⊢
  split_ifs
  all_goals simp only [cons_append, nil_append]
  -- Equal bytes in front leave less and less room for the rest to differ.
  all_goals
    repeat first
      | omega
      | refine ofNat_cons_lt (by omega) (by omega) (by omega) fun same => ?_

lemma flatMap_encode_lt {left right : List Char} (below : left < right) :
    left.flatMap utf8EncodeChar < right.flatMap utf8EncodeChar := by
  induction right generalizing left with
  | nil => exact absurd below (not_lt_nil left)
  | cons second others ih =>
    rw [flatMap_cons]
    cases left with
    | nil =>
      rw [flatMap_nil]
      cases encoded : utf8EncodeChar second with
      | nil => exact absurd encoded utf8EncodeChar_ne_nil
      | cons byte rest => exact nil_lt_cons _ _
    | cons first rest =>
      rw [flatMap_cons]
      rcases List.cons_lt_cons_iff.mp below with differ | ⟨same, further⟩
      · exact encode_append_lt differ _ _
      · rw [same]
        exact append_left_lt (ih further)

lemma bytes_lt_bytes {left right : String} (below : left < right) : bytes left < bytes right := by
  rw [bytes_eq_flatMap, bytes_eq_flatMap]
  exact flatMap_encode_lt below

lemma bytes_lt_iff {left right : String} : bytes left < bytes right ↔ left < right := by
  constructor
  · intro below
    by_contra notBelow
    by_cases above : right < left
    · exact List.lt_asymm below (bytes_lt_bytes above)
    · have same := String.le_antisymm (String.not_lt.mp above) (String.not_lt.mp notBelow)
      rw [same] at below
      exact List.lt_irrefl _ below
  · exact bytes_lt_bytes

end MessageSchema.Name

namespace MessageSchema.Name

open List

/-!
What can be looked up in a table.

An entry is listed exactly if it is found, and setting a name changes what is found
under that name and nothing else.  Ascending lists of names are known by their
members in the same way.
-/

variable {α : Type u}

lemma lookup_insertEntry (name : String) (value : α) (entries : List (String × α))
    (query : String) : (insertEntry name value entries).lookup query =
      if query = name then some value else entries.lookup query := by
  induction entries with
  | nil =>
    by_cases same : query = name
    · simp [insertEntry, same]
    · simp [insertEntry, lookup_cons, same, beq_eq_false_iff_ne.mpr same]
  | cons entry rest ih =>
    rcases entry with ⟨key, stored⟩
    simp only [insertEntry]
    split
    · by_cases same : query = name
      · simp [same]
      · rw [lookup_cons, beq_eq_false_iff_ne.mpr same, if_neg same]
    · split
      · next _ equal =>
        subst equal
        by_cases same : query = name
        · simp [same]
        · rw [lookup_cons, lookup_cons, beq_eq_false_iff_ne.mpr same, if_neg same]
      · next _ different =>
        rw [lookup_cons, lookup_cons, ih]
        by_cases same : query = name
        · simp only [same, if_pos, beq_eq_false_iff_ne.mpr different]
        · simp only [if_neg same]

lemma lookup_eq_some_iff_mem {entries : List (String × α)}
    (distinct : entries.Pairwise fun entry other => entry.1 ≠ other.1) {name : String}
    {value : α} : entries.lookup name = some value ↔ (name, value) ∈ entries := by
  induction entries with
  | nil => simp
  | cons entry rest ih =>
    rcases entry with ⟨key, stored⟩
    have parts := List.pairwise_cons.mp distinct
    rw [lookup_cons, mem_cons]
    by_cases same : name = key
    · subst same
      have alone : (name, value) ∉ rest := by
        intro member
        exact parts.1 _ member rfl
      simp [alone, eq_comm]
    · rw [beq_eq_false_iff_ne.mpr same, ih parts.2]
      constructor
      · exact .inr
      · rintro (equal | member)
        · exact absurd (congrArg Prod.fst equal) same
        · exact member

namespace Table

variable {α : Type u}

@[simp] lemma find?_empty (name : String) : (empty : Table α).find? name = none := rfl

lemma find?_insert (table : Table α) (name : String) (value : α) (query : String) :
    (table.insert name value).find? query =
      if query = name then some value else table.find? query :=
  lookup_insertEntry name value table.entries query

@[simp] lemma find?_insert_self (table : Table α) (name : String) (value : α) :
    (table.insert name value).find? name = some value := by
  rw [find?_insert, if_pos rfl]

variable {name : String} {table : Table α} {value : α} {entries : List (String × α)}

lemma find?_insert_of_ne (table : Table α) {query : String} (value : α) (different : query ≠ name) :
    (table.insert name value).find? query = table.find? query := by
  rw [find?_insert, if_neg different]

lemma mem_entries_iff : (name, value) ∈ table.entries ↔ table.find? name = some value :=
  (lookup_eq_some_iff_mem (table.ascending.imp fun less => String.ne_of_lt less)).symm

lemma mem_names_iff : name ∈ table.names ↔ ∃ value, table.find? name = some value := by
  unfold names
  rw [mem_map]
  constructor
  · rintro ⟨⟨key, value⟩, member, same⟩
    exact ⟨value, same ▸ mem_entries_iff.mp member⟩
  · rintro ⟨value, found⟩
    exact ⟨(name, value), mem_entries_iff.mpr found, rfl⟩

lemma contains_iff : table.contains name = true ↔ ∃ value, table.find? name = some value :=
  Option.isSome_iff_exists

lemma contains_iff_mem_names : table.contains name = true ↔ name ∈ table.names :=
  contains_iff.trans mem_names_iff.symm

lemma names_ascending (table : Table α) : table.names.Pairwise (· < ·) :=
  List.pairwise_map.mpr table.ascending

lemma names_nodup (table : Table α) : table.names.Nodup := by
  refine (names_ascending table).imp ?_
  intro left right before same
  exact String.lt_irrefl right (same ▸ before)

lemma find?_foldl_insert (entries : List (String × α)) (table : Table α) (query : String)
    (absent : query ∉ entries.map Prod.fst) :
    (entries.foldl (fun table entry => table.insert entry.1 entry.2) table).find? query =
      table.find? query := by
  induction entries generalizing table with
  | nil => rfl
  | cons entry rest ih =>
    rw [map_cons, mem_cons, not_or] at absent
    rw [foldl_cons, ih _ absent.2, find?_insert_of_ne _ _ absent.1]

lemma find?_foldl_insert_of_mem (table : Table α) (distinct : (entries.map Prod.fst).Nodup)
    (member : (name, value) ∈ entries) :
    (entries.foldl (fun table entry => table.insert entry.1 entry.2) table).find? name =
      some value := by
  induction entries generalizing table with
  | nil => cases member
  | cons entry rest ih =>
    have parts := List.nodup_cons.mp distinct
    rw [foldl_cons]
    rcases List.mem_cons.mp member with same | member
    · subst same
      rw [find?_foldl_insert _ _ _ parts.1, find?_insert_self]
    · exact ih _ parts.2 member

lemma find?_ofList (distinct : (entries.map Prod.fst).Nodup) :
    (ofList entries).find? name = some value ↔ (name, value) ∈ entries := by
  constructor
  · intro found
    by_cases listed : name ∈ entries.map Prod.fst
    · rcases List.mem_map.mp listed with ⟨⟨key, stored⟩, member, same⟩
      change key = name at same
      subst same
      have actual := find?_foldl_insert_of_mem empty distinct member
      rw [ofList] at found
      rw [found] at actual
      cases actual
      exact member
    · rw [ofList, find?_foldl_insert _ _ _ listed] at found
      cases found
  · intro member
    exact find?_foldl_insert_of_mem empty distinct member

/-- The names of a table made of entries are those of the entries. -/
lemma mem_names_foldl_insert (entries : List (String × α)) (table : Table α) (name : String) :
    name ∈ (entries.foldl (fun table entry => table.insert entry.1 entry.2) table).names ↔
      name ∈ entries.map Prod.fst ∨ name ∈ table.names := by
  induction entries generalizing table with
  | nil => simp
  | cons entry rest ih =>
    have head : name ∈ (table.insert entry.1 entry.2).names ↔
        name = entry.1 ∨ name ∈ table.names := by
      rw [mem_names_iff, mem_names_iff]
      by_cases same : name = entry.1
      · simp [same]
      · simp [find?_insert_of_ne _ _ same, same]
    rw [foldl_cons, ih, head, map_cons, mem_cons]
    constructor
    · rintro (rest | same | old)
      · exact .inl (.inr rest)
      · exact .inl (.inl same)
      · exact .inr old
    · rintro ((same | rest) | old)
      · exact .inr (.inl same)
      · exact .inl rest
      · exact .inr (.inr old)

lemma mem_names_ofList : name ∈ (ofList entries).names ↔ name ∈ entries.map Prod.fst := by
  rw [ofList, mem_names_foldl_insert]
  simp [names, empty]

end Table

/-- Lists in ascending order of the names of their items are the same list if
they have the same items. -/
lemma eq_of_ascending_by (name : α -> String) {left right : List α}
    (ascendingLeft : (left.map name).Pairwise (· < ·))
    (ascendingRight : (right.map name).Pairwise (· < ·))
    (same : ∀ item, item ∈ left ↔ item ∈ right) : left = right := by
  rw [pairwise_map] at ascendingLeft ascendingRight
  exact ascendingLeft.eq_of_mem_iff ascendingRight same

@[simp] lemma mem_sortedNames {names : List String} {name : String} :
    name ∈ sortedNames names ↔ name ∈ names := by
  rw [sortedNames, Table.mem_names_ofList]
  simp

lemma sortedNames_ascending (names : List String) : (sortedNames names).Pairwise (· < ·) :=
  Table.names_ascending _

lemma sortedNames_eq_of_mem_iff {names sorted : List String}
    (ascending : sorted.Pairwise (· < ·)) (same : ∀ name, name ∈ sorted ↔ name ∈ names) :
    sorted = sortedNames names :=
  ascending.eq_of_mem_iff (sortedNames_ascending names) fun name =>
    (same name).trans mem_sortedNames.symm

end MessageSchema.Name
