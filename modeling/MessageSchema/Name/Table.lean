namespace MessageSchema.Name

/-!
Tables keyed by name.

The entries are in ascending order of their names, each name once, which is the
order in which names are reported.  Comparing characters gives the order of the
encoded bytes.
-/

def Ascending {α : Type u} (entries : List (String × α)) : Prop :=
  entries.Pairwise fun left right => left.1 < right.1

/-- Puts an entry in front of the first larger name, or in place of its namesake. -/
def insertEntry {α : Type u} (name : String) (value : α) :
    List (String × α) -> List (String × α)
  | [] => [(name, value)]
  | entry :: rest =>
    if name < entry.1 then (name, value) :: entry :: rest
    else if name = entry.1 then (name, value) :: rest
    else entry :: insertEntry name value rest

theorem fst_of_mem_insertEntry {α : Type u} {name : String} {value : α}
    {entries : List (String × α)} {found : String × α}
    (member : found ∈ insertEntry name value entries) :
    found.1 = name ∨ found ∈ entries := by
  induction entries with
  | nil =>
    simp only [insertEntry, List.mem_singleton] at member
    exact Or.inl (by rw [member])
  | cons entry rest ih =>
    simp only [insertEntry] at member
    split at member
    · rcases List.mem_cons.mp member with same | member
      · exact Or.inl (by rw [same])
      · exact Or.inr member
    · split at member
      · rcases List.mem_cons.mp member with same | member
        · exact Or.inl (by rw [same])
        · exact Or.inr (List.mem_cons_of_mem _ member)
      · rcases List.mem_cons.mp member with same | member
        · exact Or.inr (by rw [same]; exact List.mem_cons_self)
        · rcases ih member with same | member
          · exact Or.inl same
          · exact Or.inr (List.mem_cons_of_mem _ member)

theorem ascending_insertEntry {α : Type u} (name : String) (value : α)
    {entries : List (String × α)} (ascending : Ascending entries) :
    Ascending (insertEntry name value entries) := by
  induction entries with
  | nil => simp [Ascending, insertEntry]
  | cons entry rest ih =>
    have parts := List.pairwise_cons.mp ascending
    simp only [insertEntry]
    split
    · next before =>
      refine List.pairwise_cons.mpr ⟨?_, ascending⟩
      intro other member
      rcases List.mem_cons.mp member with same | member
      · rw [same]; exact before
      · exact String.lt_trans before (parts.1 other member)
    · next notBefore =>
      split
      · next same =>
        refine List.pairwise_cons.mpr ⟨?_, parts.2⟩
        intro other member
        have after := parts.1 other member
        rw [← same] at after
        exact after
      · next different =>
        refine List.pairwise_cons.mpr ⟨?_, ih parts.2⟩
        intro other member
        rcases fst_of_mem_insertEntry member with same | member
        · rw [same]
          have below : entry.1 <= name := String.not_lt.mp notBefore
          refine Decidable.byContradiction fun notAfter => different ?_
          exact String.le_antisymm (String.not_lt.mp notAfter) below
        · exact parts.1 other member

/-- A finite map from names, kept in ascending order. -/
structure Table (α : Type u) where
  entries : List (String × α)
  ascending : Ascending entries

namespace Table

variable {α : Type u} {β : Type v}

def empty : Table α :=
  ⟨[], List.Pairwise.nil⟩

instance : Inhabited (Table α) := ⟨empty⟩

def find? (table : Table α) (name : String) : Option α :=
  table.entries.lookup name

def contains (table : Table α) (name : String) : Bool :=
  (table.find? name).isSome

def insert (table : Table α) (name : String) (value : α) : Table α :=
  ⟨insertEntry name value table.entries, ascending_insertEntry name value table.ascending⟩

def names (table : Table α) : List String :=
  table.entries.map Prod.fst

def size (table : Table α) : Nat :=
  table.entries.length

/-- The table of the entries, where the last entry under a name counts. -/
def ofList (entries : List (String × α)) : Table α :=
  entries.foldl (fun table entry => table.insert entry.1 entry.2) empty

end Table

def sortedNames (names : List String) : List String :=
  (Table.ofList (names.map fun name => (name, ()))).names

end MessageSchema.Name
