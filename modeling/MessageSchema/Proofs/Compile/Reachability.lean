import Mathlib.Logic.Relation
import MessageSchema.Proofs.Compile.Ownership

namespace MessageSchema

open List

/-!
Closures are reachability.

The search for a closure takes one unseen name after the other.  Whatever its order,
it returns everything that can be reached by following references, without the name
itself.
-/

variable {inner outer target name : String}

namespace References

section
variable {references : References}

/-- The second name can be reached from the first one by following
references. -/
def Reaches (references : References) : String -> String -> Prop :=
  Relation.ReflTransGen fun outer inner => inner ∈ references.refs outer

lemma mem_targets (noted : inner ∈ references.refs outer) : inner ∈ references.targets := by
  rw [targets, Name.mem_sortedNames, mem_flatMap]
  unfold refs at noted
  cases found : references.direct.find? outer with
  | none =>
    rw [found] at noted
    cases noted
  | some inners =>
    rw [found] at noted
    exact ⟨(outer, inners), Name.Table.mem_entries_iff.mpr found, noted⟩

variable {name : String} {pending unseen : List String}

/-- The search takes only unseen names that can be reached from a pending
one. -/
lemma reaches_of_mem_reach (member : name ∈ references.reach unseen pending) :
    name ∈ unseen ∧ ∃ start ∈ pending, references.Reaches start name := by
  fun_induction reach references unseen pending with
  | case1 => cases member
  | case2 unseen pending next found ih =>
    have isUnseen : next ∈ unseen := List.contains_iff_mem.mp (find?_some found)
    have isPending : next ∈ pending := mem_of_find?_eq_some found
    rcases List.mem_cons.mp member with same | later
    · rw [same]
      exact ⟨isUnseen, next, isPending, .refl⟩
    · rcases ih later with ⟨left, start, listed, path⟩
      refine ⟨mem_of_mem_erase left, ?_⟩
      rcases List.mem_append.mp listed with before | noted
      · exact ⟨start, before, path⟩
      · exact ⟨next, isPending, path.head noted⟩

/-- The search takes every unseen name that is pending. -/
lemma mem_reach_of_pending (isUnseen : name ∈ unseen) (isPending : name ∈ pending) :
    name ∈ references.reach unseen pending := by
  fun_induction reach references unseen pending with
  | case1 unseen pending exhausted =>
    have seen := List.find?_eq_none.mp exhausted name isPending
    exact absurd (List.contains_iff_mem.mpr isUnseen) seen
  | case2 unseen pending next found ih =>
    by_cases same : name = next
    · rw [same]
      exact mem_cons_self
    · apply mem_cons_of_mem
      exact ih ((mem_erase_of_ne same).mpr isUnseen) (mem_append_left _ isPending)

/-- The search takes every unseen name that a name it takes refers to. -/
lemma mem_reach_of_refs (member : outer ∈ references.reach unseen pending)
    (noted : inner ∈ references.refs outer) (isUnseen : inner ∈ unseen) :
    inner ∈ references.reach unseen pending := by
  fun_induction reach references unseen pending with
  | case1 => cases member
  | case2 unseen pending next found ih =>
    by_cases same : inner = next
    · rw [same]
      exact mem_cons_self
    · apply mem_cons_of_mem
      have left : inner ∈ unseen.erase next := (mem_erase_of_ne same).mpr isUnseen
      rcases List.mem_cons.mp member with isNext | later
      · apply mem_reach_of_pending left
        rw [← isNext]
        exact mem_append_right _ noted
      · exact ih later left

/-- The closure of a name is what can be reached from it, without the name. -/
lemma mem_closureOf_iff :
    target ∈ references.closureOf name ↔ target ≠ name ∧ references.Reaches name target := by
  rw [closureOf, Name.mem_sortedNames]
  constructor
  · intro member
    rcases reaches_of_mem_reach member with ⟨isUnseen, start, noted, path⟩
    have different := (List.mem_filter.mp isUnseen).2
    exact ⟨bne_iff_ne.mp different, path.head noted⟩
  · rintro ⟨different, path⟩
    -- Along the path, every name but the first one is taken by the search.
    have taken : ∀ inner, references.Reaches name inner -> inner = name ∨
        inner ∈ references.reach (references.targets.filter (· != name))
          (references.refs name) := by
      intro inner path
      induction path with
      | refl => exact .inl rfl
      | @tail middle inner _ noted ih =>
        by_cases same : inner = name
        · exact .inl same
        · right
          have isUnseen : inner ∈ references.targets.filter (· != name) :=
            List.mem_filter.mpr ⟨mem_targets noted, bne_iff_ne.mpr same⟩
          rcases ih with first | member
          · rw [first] at noted
            exact mem_reach_of_pending isUnseen noted
          · exact mem_reach_of_refs member noted isUnseen
    exact (taken target path).resolve_left different

lemma closureOf_ascending (references : References) (name : String) :
    (references.closureOf name).Pairwise (· < ·) :=
  Name.sortedNames_ascending _

lemma nodup_reach (distinct : unseen.Nodup) : (references.reach unseen pending).Nodup := by
  fun_induction reach references unseen pending with
  | case1 => exact nodup_nil
  | case2 unseen pending next found ih =>
    refine nodup_cons.mpr ⟨fun member => ?_, ih (distinct.erase next)⟩
    exact distinct.not_mem_erase (reaches_of_mem_reach member).1

/-- Sorting drops nothing, since the search takes every name once. -/
lemma perm_closureOf (references : References) (name : String) :
    (references.closureOf name).Perm
      (references.reach (references.targets.filter (· != name)) (references.refs name)) := by
  have distinct {names : List String} (ascending : names.Pairwise (· < ·)) : names.Nodup := by
    refine ascending.imp ?_
    rintro first _ less rfl
    exact String.lt_irrefl first less
  have targets := distinct (Name.sortedNames_ascending (references.direct.entries.flatMap Prod.snd))
  apply (perm_ext_iff_of_nodup (distinct (closureOf_ascending references name))
    (nodup_reach (targets.filter _))).mpr
  intro target
  exact Name.mem_sortedNames

variable {left right : References}

/-- Closures depend only on what is referred to. -/
lemma closureOf_eq_of_mem_refs_iff
    (same : ∀ outer inner, inner ∈ left.refs outer ↔ inner ∈ right.refs outer) :
    left.closureOf = right.closureOf := by
  have sameReach : left.Reaches = right.Reaches := by
    unfold Reaches
    congr 1
    funext outer inner
    exact propext (same outer inner)
  funext name
  apply (left.closureOf_ascending name).eq_of_mem_iff (right.closureOf_ascending name)
  intro target
  rw [mem_closureOf_iff, mem_closureOf_iff, sameReach]

/-- Closures do not depend on what has been worked out before. -/
lemma closureOf_eq_of_refs (same : left.refs = right.refs) : left.closureOf = right.closureOf :=
  closureOf_eq_of_mem_refs_iff fun _ _ => by rw [same]

/-- Working out closures one after the other notes the closure of each of the
names. -/
lemma closure?_foldl_close (names : List String) (references : References) (name : String) :
    (names.foldl close references).closure? name =
      if name ∈ names then some (references.closureOf name) else references.closure? name := by
  induction names generalizing references with
  | nil => simp
  | cons first rest ih =>
    rw [foldl_cons, ih, closureOf_eq_of_refs (refs_close references first)]
    by_cases later : name ∈ rest
    · rw [if_pos later, if_pos (mem_cons_of_mem _ later)]
    · rw [if_neg later, closure?, close, Name.Table.find?_insert]
      by_cases same : name = first
      · subst same
        simp
      · simp [same, later, closure?]

end
end References

namespace References

/-- The references of a graph, whose edges are noted one after the other. -/
def ofEdges (edges : List (String × String)) : References :=
  edges.foldl (fun references edge => references.add edge.1 edge.2) empty

lemma mem_refs_foldl_add (edges : List (String × String)) (references : References) :
    inner ∈ (edges.foldl (fun references edge => references.add edge.1 edge.2) references).refs
      outer ↔ inner ∈ references.refs outer ∨ (outer, inner) ∈ edges := by
  induction edges generalizing references with
  | nil => simp
  | cons edge rest ih =>
    rw [foldl_cons, ih, mem_refs_add, mem_cons, or_assoc]
    simp [Prod.ext_iff]

variable {edges : List (String × String)}

/-- The direct references of a name are its edges, however they were noted. -/
lemma mem_refs_ofEdges : inner ∈ (ofEdges edges).refs outer ↔ (outer, inner) ∈ edges := by
  rw [ofEdges, mem_refs_foldl_add]
  simp [refs, empty]

lemma closures_foldl_add (edges : List (String × String)) (references : References) :
    (edges.foldl (fun references edge => references.add edge.1 edge.2) references).closures =
      references.closures := by
  induction edges generalizing references with
  | nil => rfl
  | cons edge rest ih => exact ih (references.add edge.1 edge.2)

/-- A path of references to another name has at least one edge. -/
lemma reaches_ofEdges_iff (different : target ≠ name) : (ofEdges edges).Reaches name target ↔
      Relation.TransGen (fun outer inner => (outer, inner) ∈ edges) name target := by
  have sameStep : (fun outer inner => inner ∈ (ofEdges edges).refs outer) =
      fun outer inner => (outer, inner) ∈ edges := by
    funext outer inner
    exact propext mem_refs_ofEdges
  rw [Reaches, sameStep, Relation.reflTransGen_iff_eq_or_transGen]
  exact or_iff_right different

/-- What is in the closure of a member is in the closure, except for the name itself. -/
lemma mem_closureOf_trans {references : References} {middle : String}
    (first : middle ∈ references.closureOf name) (second : target ∈ references.closureOf middle)
    (different : target ≠ name) : target ∈ references.closureOf name := by
  rw [mem_closureOf_iff] at first second ⊢
  exact ⟨different, first.2.trans second.2⟩

/-- The closures of a graph, with or without cycles: whichever closures are worked out,
and in whichever order, each lists what can be reached from its name by one or more
edges, without the name itself and in the order of the bytes.  So closures go together,
up to the name itself. -/
theorem closures_list_what_is_reached (edges : List (String × String)) (names : List String) :
    ∀ name ∈ names, ∃ closure,
      (names.foldl close (ofEdges edges)).closure? name = some closure ∧
      closure.Pairwise (fun before after => Name.bytes before < Name.bytes after) ∧
      (∀ target, target ∈ closure ↔ target ≠ name ∧
        Relation.TransGen (fun outer inner => (outer, inner) ∈ edges) name target) ∧
      name ∉ closure ∧
      ∀ middle ∈ closure, ∀ further,
        (names.foldl close (ofEdges edges)).closure? middle = some further ->
        ∀ target ∈ further, target ≠ name -> target ∈ closure := by
  have noted : ∀ name ∈ names, (names.foldl close (ofEdges edges)).closure? name =
      some ((ofEdges edges).closureOf name) := by
    intro name listed
    rw [closure?_foldl_close, if_pos listed]
  intro name listed
  refine ⟨(ofEdges edges).closureOf name, noted name listed, ?_, ?_, ?_, ?_⟩
  · exact (closureOf_ascending _ name).imp Name.bytes_lt_iff.mpr
  · intro target
    rw [mem_closureOf_iff]
    exact and_congr_right reaches_ofEdges_iff
  · intro itself
    exact (mem_closureOf_iff.mp itself).1 rfl
  · intro middle first further isFurther target second different
    rw [closure?_foldl_close] at isFurther
    split at isFurther
    · cases isFurther
      exact mem_closureOf_trans first second different
    · rw [closure?, ofEdges, closures_foldl_add] at isFurther
      cases isFurther

/-- A cycle of three names, one of which also refers to itself. -/
theorem closures_of_cycle :
    "a" ∈ ["b", "a"] ∧ ∃ closure,
      (["b", "a"].foldl close
        (ofEdges [("a", "b"), ("b", "c"), ("c", "a"), ("a", "a")])).closure? "a" = some closure ∧
      "a" ∉ closure ∧ "c" ∈ closure := by
  have listed : "a" ∈ ["b", "a"] := by decide
  rcases closures_list_what_is_reached [("a", "b"), ("b", "c"), ("c", "a"), ("a", "a")]
    ["b", "a"] "a" listed with ⟨closure, noted, _, reached, withoutItself, _⟩
  refine ⟨listed, closure, noted, withoutItself, (reached "c").mpr ⟨by decide, ?_⟩⟩
  exact .tail (.single (b := "b") (by decide)) (by decide)

end References

lemma SymbolTable.closures_noteReference (table : SymbolTable Nat) (references : References)
    (source target : Identifier) :
    (table.noteReference references source target).closures = references.closures := by
  unfold noteReference
  split
  · rfl
  · split <;> rfl

lemma closures_foldl_noteReference (table : SymbolTable Nat)
    (pairs : List (Identifier × Identifier)) (references : References) :
    (pairs.foldl (fun references pair =>
        table.noteReference references pair.1 pair.2) references).closures =
      references.closures := by
  induction pairs generalizing references with
  | nil => rfl
  | cons pair rest ih => rw [foldl_cons, ih, table.closures_noteReference]

/-- The closures of a schema are those of its top-level messages. -/
lemma closure?_dependencies_eq_some_iff {types : List (TypeDecl Reference)}
    {table : SymbolTable Nat} {closure : List String} :
    (dependencies types table).closure? name = some closure ↔
      (∃ message ∈ topMessages types, message.id.text = name) ∧
        (dependencies types table).closureOf name = closure := by
  rw [dependencies, References.closure?_foldl_close,
    References.closureOf_eq_of_refs (References.refs_foldl_close _ _)]
  split
  · next listed => simp [List.mem_map.mp listed]
  · next absent =>
    rw [References.closure?, closures_foldl_noteReference]
    constructor
    · intro found
      cases found
    · rintro ⟨⟨message, listed, same⟩, _⟩
      exact absurd (List.mem_map.mpr ⟨message, listed, same⟩) absent

end MessageSchema
