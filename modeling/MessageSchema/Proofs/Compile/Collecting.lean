import MessageSchema.Proofs.Compile.Handles
import MessageSchema.Proofs.Compile.Reachability

namespace MessageSchema

/-!
References collected in any order.

What is noted is kept in ascending order without repetitions.  So neither the order
nor the number of times matters, for references and for closures.
-/

lemma Name.Table.ext_find? {α : Type} {left right : Name.Table α}
    (same : ∀ name, left.find? name = right.find? name) : left = right := by
  apply ext_entries
  refine eq_of_ascending_by Prod.fst left.names_ascending right.names_ascending ?_
  rintro ⟨name, value⟩
  rw [mem_entries_iff, mem_entries_iff, same]

namespace References

/-- What a message refers to is listed in ascending order, and only if there is
something. -/
def Tidy (references : References) : Prop :=
  ∀ name found, references.direct.find? name = some found ->
    found ≠ [] ∧ found.Pairwise (· < ·)

lemma tidy_empty : References.empty.Tidy :=
  fun _ _ found => nomatch found

lemma Tidy.add {references : References} (tidy : references.Tidy) (source target : String) :
    (references.add source target).Tidy := by
  intro name found isFound
  rw [References.add, Name.Table.find?_insert] at isFound
  split at isFound
  · cases isFound
    refine ⟨List.ne_nil_of_mem (Name.mem_sortedNames.mpr List.mem_cons_self), ?_⟩
    exact Name.sortedNames_ascending _
  · exact tidy name found isFound

lemma Tidy.noteReference {references : References} (tidy : references.Tidy)
    (table : SymbolTable Nat) (source target : Identifier) :
    (table.noteReference references source target).Tidy := by
  unfold SymbolTable.noteReference
  split
  · exact tidy
  · split
    · exact tidy
    · exact tidy.add _ _

variable {references left right : References}

lemma Tidy.foldl_noteReference (tidy : references.Tidy) (table : SymbolTable Nat)
    (pairs : List (Identifier × Identifier)) :
    (pairs.foldl (fun references pair => table.noteReference references pair.1 pair.2)
      references).Tidy := by
  induction pairs generalizing references with
  | nil => exact tidy
  | cons pair rest ih => exact ih (tidy.noteReference table pair.1 pair.2)

/-- What is listed for a message is found from what it refers to. -/
lemma Tidy.find?_eq_some_iff (tidy : references.Tidy) {name : String} {found : List String} :
    references.direct.find? name = some found ↔ found ≠ [] ∧ references.refs name = found := by
  constructor
  · intro isFound
    refine ⟨(tidy name found isFound).1, ?_⟩
    rw [refs, isFound, Option.getD_some]
  · rintro ⟨some, same⟩
    rw [refs] at same
    cases isFound : references.direct.find? name with
    | none =>
      rw [isFound] at same
      exact absurd same.symm some
    | some listed =>
      rw [isFound, Option.getD_some] at same
      rw [same]

lemma Tidy.ascending (tidy : references.Tidy) (name : String) :
    (references.refs name).Pairwise (· < ·) := by
  rw [refs]
  cases isFound : references.direct.find? name with
  | none => exact List.Pairwise.nil
  | some found => exact (tidy name found isFound).2

lemma Tidy.direct_eq (tidyLeft : left.Tidy) (tidyRight : right.Tidy)
    (same : ∀ outer inner, inner ∈ left.refs outer ↔ inner ∈ right.refs outer) :
    left.direct = right.direct := by
  have refs : left.refs = right.refs := funext fun name =>
    (tidyLeft.ascending name).eq_of_mem_iff (tidyRight.ascending name) (same name)
  apply Name.Table.ext_find?
  intro name
  apply Option.ext
  intro found
  rw [tidyLeft.find?_eq_some_iff, tidyRight.find?_eq_some_iff, refs]

lemma ext_parts (direct : left.direct = right.direct)
    (closures : ∀ name, left.closure? name = right.closure? name) : left = right := by
  cases left
  cases right
  rw [mk.injEq]
  exact ⟨direct, Name.Table.ext_find? closures⟩

lemma direct_foldl_close (references : References) (names : List String) :
    (names.foldl close references).direct = references.direct := by
  induction names generalizing references with
  | nil => rfl
  | cons name rest ih => rw [List.foldl_cons, ih, close]

end References

/-- The dependencies of a schema can be collected in any order. -/
lemma dependencies_eq {types : List (TypeDecl Reference)} {table : SymbolTable Nat}
    {pairs : List (Identifier × Identifier)} {roots : List String}
    (samePairs : ∀ pair, pair ∈ pairs ↔ pair ∈ (topMessages types).flatMap Message.dependencies)
    (sameRoots : ∀ name, name ∈ roots ↔ name ∈ (topMessages types).map fun message =>
      message.id.text) : roots.foldl References.close
        (pairs.foldl (fun references pair => table.noteReference references pair.1 pair.2) .empty) =
      dependencies types table := by
  have noted := References.tidy_empty.foldl_noteReference table
  have refs : ∀ outer inner,
      inner ∈ (pairs.foldl (fun references pair =>
          table.noteReference references pair.1 pair.2) .empty).refs outer ↔
        inner ∈ (((topMessages types).flatMap Message.dependencies).foldl (fun references pair =>
          table.noteReference references pair.1 pair.2) .empty).refs outer := by
    intro outer inner
    rw [mem_refs_foldl_noteReference, mem_refs_foldl_noteReference]
    simp only [samePairs]
  apply References.ext_parts
  · rw [dependencies, References.direct_foldl_close, References.direct_foldl_close]
    exact (noted _).direct_eq (noted _) refs
  · intro name
    rw [dependencies, References.closure?_foldl_close, References.closure?_foldl_close,
      References.closureOf_eq_of_mem_refs_iff refs, References.closure?, References.closure?,
      closures_foldl_noteReference, closures_foldl_noteReference]
    simp only [sameRoots]

end MessageSchema
