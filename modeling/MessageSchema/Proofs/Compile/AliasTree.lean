import MessageSchema.Compile.Aliases
import MessageSchema.Proofs.Name.Dotted

namespace MessageSchema

variable {aliases : Aliases} {name : Identifier} {children : List (String × AliasNode)}
  {rest : List String} {options : NamingOptions}

namespace Aliases

/-!
The tree of aliased paths as a list of paths with their replacements.

A path can be added exactly if it is not empty and neither begins with a path of the
tree nor is the beginning of one, and a name is matched by the one path that it
begins with.
-/

/-- What the paths that begin with a segment go on with. -/
def below (segment : String) (paths : List (List String × Identifier)) :
    List (List String × Identifier) :=
  paths.filterMap fun entry =>
    match entry.1 with
    | [] => none
    | first :: rest => if first = segment then some (rest, entry.2) else none

lemma below_cons (segment first : String) (rest : List String) (replacement : Identifier)
    (paths : List (List String × Identifier)) :
    below segment ((first :: rest, replacement) :: paths) =
      if first = segment then (rest, replacement) :: below segment paths
      else below segment paths := by
  by_cases same : first = segment
  · simp [below, same]
  · simp [below, same]

variable {paths : List (List String × Identifier)} {segment : String}

lemma mem_below {replacement : Identifier} :
    (rest, replacement) ∈ below segment paths ↔ (segment :: rest, replacement) ∈ paths := by
  rw [below, List.mem_filterMap]
  constructor
  · rintro ⟨⟨path, found⟩, member, goesOn⟩
    cases path with
    | nil => cases goesOn
    | cons first others =>
      by_cases same : first = segment
      · simp only [if_pos same, Option.some.injEq, Prod.mk.injEq] at goesOn
        rcases goesOn with ⟨sameRest, sameTarget⟩
        rw [← same, ← sameRest, ← sameTarget]
        exact member
      · simp [same] at goesOn
  · intro member
    exact ⟨_, member, by simp⟩

/-- What stands under a segment holds these paths: nothing none, a leaf the one that ends
there, a branch some that go on. -/
inductive Holds : Option AliasNode -> List (List String × Identifier) -> Prop where
  | nothing : Holds none []
  | leaf (replacement : Identifier) : Holds (some (.leaf replacement)) [([], replacement)]
  | branch {children : List (String × AliasNode)} {paths : List (List String × Identifier)}
      (filled : paths ≠ []) (goOn : ∀ entry ∈ paths, entry.1 ≠ [])
      (each : ∀ segment, Holds (children.lookup segment) (below segment paths)) :
      Holds (some (.branch children)) paths

/-- The tree holds these paths, none of which is empty. -/
structure HoldsAll (children : List (String × AliasNode))
    (paths : List (List String × Identifier)) : Prop where
  goOn : ∀ entry ∈ paths, entry.1 ≠ []
  each : ∀ segment, Holds (children.lookup segment) (below segment paths)

lemma holdsAll_empty : HoldsAll empty.children [] where
  goOn := by simp
  each := fun _ => .nothing

/-! ## Matching -/

/-- Nothing lies behind a path of the tree, so the longest one is the only one. -/
lemma longest?_none (children : List (String × AliasNode)) (segments : List String) :
    longest? children none segments = match? children segments := by
  induction segments generalizing children with
  | nil => rfl
  | cons segment rest ih =>
    rw [longest?, match?]
    cases children.lookup segment with
    | none => rfl
    | some node =>
      cases node with
      | branch inner => exact ih inner
      | leaf replacement => cases rest <;> rfl

/-- A name is matched by the path that it begins with. -/
lemma HoldsAll.match?_eq_some_iff
    (holds : HoldsAll children paths) (name rest : List String) (replacement : Identifier) :
    match? children name = some (replacement, rest) ↔
      ∃ path, (path, replacement) ∈ paths ∧ name = path ++ rest := by
  induction name generalizing children paths with
  | nil =>
    constructor
    · intro found
      cases found
    · rintro ⟨path, member, same⟩
      exact absurd (List.append_eq_nil_iff.mp same.symm).1 (holds.goOn _ member)
  | cons segment others ih =>
    -- Only the paths that begin with the segment can match.
    have begins : (∃ path, (path, replacement) ∈ paths ∧ segment :: others = path ++ rest) ↔
        ∃ path, (path, replacement) ∈ below segment paths ∧ others = path ++ rest := by
      constructor
      · rintro ⟨path, member, same⟩
        cases path with
        | nil => exact absurd rfl (holds.goOn _ member)
        | cons first path =>
          rcases List.cons.inj same with ⟨sameFirst, sameRest⟩
          subst sameFirst
          exact ⟨path, mem_below.mpr member, sameRest⟩
      · rintro ⟨path, member, same⟩
        exact ⟨segment :: path, mem_below.mp member, by rw [same, List.cons_append]⟩
    rw [begins, match?]
    have held := holds.each segment
    generalize below segment paths = inner at held
    generalize children.lookup segment = node at held
    cases held with
    | nothing => simp
    | leaf found =>
      constructor
      · intro matched
        cases matched
        exact ⟨[], List.mem_singleton.mpr rfl, rfl⟩
      · rintro ⟨path, member, same⟩
        cases List.mem_singleton.mp member
        rw [same, List.nil_append]
    | branch _ goOn each => exact ih ⟨goOn, each⟩

/-! ## Adding a path -/

lemma holds_chain (replacement : Identifier) (path : List String) :
    Holds (some (chain replacement path)) [(path, replacement)] := by
  induction path with
  | nil => exact .leaf replacement
  | cons segment rest ih =>
    refine .branch (List.cons_ne_nil _ _) (by simp) ?_
    intro other
    rw [below_cons]
    by_cases same : segment = other
    · subst same
      simpa [below] using ih
    · rw [if_neg same]
      simp only [List.lookup_cons, below, List.filterMap_nil]
      rw [beq_eq_false_iff_ne.mpr (Ne.symm same)]
      exact .nothing

lemma lookup_setChild (segment : String) (node : AliasNode)
    (children : List (String × AliasNode)) (query : String) :
    (setChild segment node children).lookup query =
      if query = segment then some node else children.lookup query := by
  induction children with
  | nil =>
    by_cases same : query = segment
    · simp [setChild, same]
    · rw [setChild, List.lookup_cons, beq_eq_false_iff_ne.mpr same, if_neg same]
  | cons child rest ih =>
    rcases child with ⟨first, held⟩
    simp only [setChild]
    split <;> simp only [List.lookup_cons, ih] <;> grind

/-- Two paths meet if one of them is the beginning of the other. -/
def Meet (left right : List String) : Prop :=
  left <+: right ∨ right <+: left

lemma meet_cons_iff {left right : List String} :
    Meet (segment :: left) (segment :: right) ↔ Meet left right := by
  simp [Meet, List.cons_prefix_cons]

/-- A path that starts with a segment meets the same paths below it. -/
lemma meets_below_iff (goOn : ∀ entry ∈ paths, entry.1 ≠ []) :
    (∀ entry ∈ paths, ¬ Meet entry.1 (segment :: rest)) ↔
      ∀ entry ∈ below segment paths, ¬ Meet entry.1 rest := by
  constructor
  · rintro apart ⟨path, replacement⟩ member meet
    exact apart _ (mem_below.mp member) (meet_cons_iff.mpr meet)
  · rintro apart ⟨path, replacement⟩ member meet
    cases path with
    | nil => exact goOn _ member rfl
    | cons first path =>
      have same : first = segment := by
        rcases meet with front | front
        · exact (List.cons_prefix_cons.mp front).1
        · exact (List.cons_prefix_cons.mp front).1.symm
      subst same
      exact apart _ (mem_below.mpr member) (meet_cons_iff.mp meet)

/-- A path can be added exactly if it is not empty and meets no other, and the
tree then holds it as well. -/
lemma HoldsAll.addBelow (holds : HoldsAll children paths)
    (replacement : Identifier) (depth : Nat) (path : List String) :
    ((∃ next, addBelow replacement depth children path = .ok next) ↔
      path ≠ [] ∧ ∀ entry ∈ paths, ¬ Meet entry.1 path) ∧
    ∀ next, addBelow replacement depth children path = .ok next ->
      HoldsAll next ((path, replacement) :: paths) := by
  induction path generalizing children paths depth with
  | nil => simp [Aliases.addBelow]
  | cons segment rest ih =>
    rw [Aliases.addBelow, meets_below_iff holds.goOn]
    have held := holds.each segment
    generalize inside : below segment paths = inner at held
    generalize there : children.lookup segment = node at held
    have goOn : ∀ entry ∈ (segment :: rest, replacement) :: paths, entry.1 ≠ [] := by
      intro entry member
      rcases List.mem_cons.mp member with same | member
      · rw [same]
        exact List.cons_ne_nil _ _
      · exact holds.goOn entry member
    cases held with
    | nothing =>
      refine ⟨by simp, ?_⟩
      rintro next added
      cases added
      refine ⟨goOn, ?_⟩
      intro other
      rw [below_cons, List.lookup_cons]
      by_cases same : segment = other
      · subst same
        simpa [inside] using holds_chain replacement rest
      · rw [if_neg same, beq_eq_false_iff_ne.mpr (Ne.symm same)]
        exact holds.each other
    | leaf found => simp [Meet]
    | @branch grandchildren _ filled innerGoOn innerEach =>
      rcases ih ⟨innerGoOn, innerEach⟩ (depth + 1) with ⟨success, result⟩
      -- A path that ends at a branch meets every path that goes on from there.
      have nonempty : (∀ entry ∈ inner, ¬ Meet entry.1 rest) -> rest ≠ [] := by
        intro apart ended
        rcases List.exists_mem_of_ne_nil _ filled with ⟨entry, member⟩
        exact apart entry member (.inr (ended ▸ List.nil_prefix))
      simp only
      constructor
      · constructor
        · rintro ⟨next, added⟩
          split at added
          · next deeper done => exact ⟨List.cons_ne_nil _ _, (success.mp ⟨deeper, done⟩).2⟩
          · cases added
        · rintro ⟨_, apart⟩
          rcases success.mpr ⟨nonempty apart, apart⟩ with ⟨deeper, done⟩
          exact ⟨_, by rw [done]⟩
      · intro next added
        split at added
        · next deeper done =>
          cases added
          have deeperHolds := result deeper done
          refine ⟨goOn, ?_⟩
          intro other
          rw [below_cons, lookup_setChild]
          by_cases same : segment = other
          · subst same
            rw [if_pos rfl, if_pos rfl, inside]
            exact .branch (List.cons_ne_nil _ _) deeperHolds.goOn deeperHolds.each
          · rw [if_neg same, if_neg (Ne.symm same)]
            exact holds.each other
        · cases added

lemma HoldsAll.add (holds : HoldsAll aliases.children paths) (path replacement : Identifier) :
    ((∃ next, aliases.add path replacement = .ok next) ↔
      path.isBlank = false ∧ ∀ entry ∈ paths, ¬ Meet entry.1 path.segments) ∧
    ∀ next, aliases.add path replacement = .ok next -> next.outer = aliases.outer ∧
      HoldsAll next.children ((path.segments, replacement) :: paths) := by
  rw [Aliases.add]
  cases blank : path.isBlank with
  | true => simp
  | false =>
    have filled : path.segments ≠ [] := by
      intro none
      simp [Identifier.isBlank, none] at blank
    rcases holds.addBelow replacement 0 path.segments with ⟨success, result⟩
    rw [and_iff_right filled] at success
    simp only [Bool.false_eq_true, if_false, true_and, ← success]
    cases added : Aliases.addBelow replacement 0 aliases.children path.segments with
    | error index => simp
    | ok children =>
      refine ⟨by simp, ?_⟩
      rintro next same
      cases same
      exact ⟨rfl, result children added⟩

/-! ## The aliases that a user wishes for -/

/-- The path that a wish is about and what is to replace it. -/
def wishedPath (wish : String × String) : List String × Identifier :=
  ((Identifier.ofDotted wish.1).segments, .ofDotted wish.2)

/-- No path of a wish is blank, and no two of them meet. -/
def Compatible (wishes : List (String × String)) : Prop :=
  (∀ wish ∈ wishes, (Identifier.ofDotted wish.1).isBlank = false) ∧
    wishes.Pairwise fun earlier later => ¬ Meet (wishedPath earlier).1 (wishedPath later).1

lemma HoldsAll.addAll (holds : HoldsAll aliases.children paths) (wishes : List (String × String)) :
    ((∃ next, aliases.addAll wishes = .ok next) ↔ Compatible wishes ∧
      ∀ entry ∈ paths, ∀ wish ∈ wishes, ¬ Meet entry.1 (wishedPath wish).1) ∧
    ∀ next, aliases.addAll wishes = .ok next -> next.outer = aliases.outer ∧
      HoldsAll next.children ((wishes.map wishedPath).reverse ++ paths) := by
  induction wishes generalizing aliases paths with
  | nil =>
    constructor
    · simp [Aliases.addAll, Compatible]
    · intro next same
      cases same
      exact ⟨rfl, holds⟩
  | cons wish rest ih =>
    rcases wish with ⟨source, target⟩
    rcases holds.add (.ofDotted source) (.ofDotted target) with ⟨success, result⟩
    rw [Aliases.addAll]
    cases added : aliases.add (.ofDotted source) (.ofDotted target) with
    | error error =>
      constructor
      · constructor
        · rintro ⟨_, impossible⟩
          cases impossible
        · rintro ⟨⟨filled, _⟩, apart⟩
          have able := success.mpr ⟨filled (source, target) List.mem_cons_self,
            fun entry member => apart entry member (source, target) List.mem_cons_self⟩
          rw [added] at able
          rcases able with ⟨_, impossible⟩
          cases impossible
      · intro _ impossible
        cases impossible
    | ok middle =>
      rcases success.mp ⟨middle, added⟩ with ⟨filled, apart⟩
      rcases result middle added with ⟨outer, middleHolds⟩
      rcases ih middleHolds with ⟨restSuccess, restResult⟩
      constructor
      · rw [restSuccess, Compatible, Compatible, List.forall_mem_cons, List.pairwise_cons]
        simp only [List.forall_mem_cons]
        constructor
        · rintro ⟨⟨restFilled, restApart⟩, first, others⟩
          exact ⟨⟨⟨filled, restFilled⟩, first, restApart⟩,
            fun entry member => ⟨apart entry member, others entry member⟩⟩
        · rintro ⟨⟨⟨_, restFilled⟩, first, restApart⟩, others⟩
          exact ⟨⟨restFilled, restApart⟩, first, fun entry member => (others entry member).2⟩
      · intro next done
        rcases restResult next done with ⟨sameOuter, nextHolds⟩
        constructor
        · rw [sameOuter, outer]
        · rw [List.map_cons, List.reverse_cons, List.append_assoc]
          exact nextHolds

end Aliases

namespace NamingOptions

/-- The aliases hold the paths that the user wishes for, and their outer scope
is the one that the user wishes for. -/
structure Built (options : NamingOptions) (aliases : Aliases) : Prop where
  holds : Aliases.HoldsAll aliases.children (options.aliases.map Aliases.wishedPath).reverse
  outer : aliases.outer = if options.outer = "" then none else some (.ofDotted options.outer)

/-- The wishes can be fulfilled together: the aliases are compatible, and an
outer scope that is wished for is not blank. -/
def Feasible (options : NamingOptions) : Prop :=
  Aliases.Compatible options.aliases ∧
    (options.outer ≠ "" -> (Identifier.ofDotted options.outer).isBlank = false)

lemma exists_build_iff (options : NamingOptions) :
    (∃ aliases, options.build = .ok aliases) ↔ options.Feasible := by
  rcases Aliases.holdsAll_empty.addAll options.aliases with ⟨success, result⟩
  have compatible : (∃ next, Aliases.empty.addAll options.aliases = .ok next) ↔
      Aliases.Compatible options.aliases := by
    rw [success]
    simp
  rw [Feasible, build, ← compatible]
  cases added : Aliases.empty.addAll options.aliases with
  | error error => simp
  | ok aliases =>
    have noOuter : aliases.outer = none := (result aliases added).1
    by_cases none : options.outer = ""
    · simp [none]
    · cases blank : (Identifier.ofDotted options.outer).isBlank with
      | true => simp [none, Aliases.setOuter, blank]
      | false => simp [none, Aliases.setOuter, blank, noOuter]

lemma built_of_build (done : options.build = .ok aliases) : options.Built aliases := by
  rcases Aliases.holdsAll_empty.addAll options.aliases with ⟨_, result⟩
  rw [build] at done
  split at done
  · cases done
  · next middle added =>
    rcases result middle added with ⟨noOuter, holds⟩
    rw [List.append_nil] at holds
    split at done
    · next none =>
      cases done
      exact ⟨holds, noOuter.trans (if_pos none).symm⟩
    · next given =>
      rw [Aliases.setOuter] at done
      split at done
      · cases done
      · rw [noOuter] at done
        cases done
        exact ⟨holds, (if_neg given).symm⟩

end NamingOptions

/-! ## Renamed names -/

namespace Aliases

lemma segments_replaceLeading (replacement : Identifier) (filled : rest ≠ []) :
    (replaceLeading replacement rest).segments =
      (if replacement.isBlank then [] else replacement.segments) ++ rest := by
  unfold replaceLeading
  split
  · next none => exact absurd (List.append_eq_nil_iff.mp none).2 filled
  · rfl

lemma proper_replaceLeading {source : String} (filled : rest ≠ [])
    (clean : ∀ segment ∈ rest, Name.IsSegment segment) :
    (replaceLeading (.ofDotted source) rest).Proper := by
  have parts := segments_replaceLeading (.ofDotted source) filled
  constructor
  · rw [parts]
    exact List.append_ne_nil_of_right_ne_nil _ filled
  · intro segment member
    rw [parts] at member
    rcases List.mem_append.mp member with member | member
    · cases blank : (Identifier.ofDotted source).isBlank with
      | true => simp [blank] at member
      | false =>
        rw [blank] at member
        exact (Identifier.proper_ofDotted blank).clean segment member
    · exact clean segment member

lemma proper_applyScope (built : options.Built aliases) (proper : name.Proper) :
    (aliases.applyScope name).Proper := by
  rw [applyScope, longest?_none]
  split
  · next replacement rest matched =>
    rcases (built.holds.match?_eq_some_iff _ _ _).mp matched with ⟨path, member, same⟩
    rcases List.mem_map.mp (List.mem_reverse.mp member) with ⟨wish, _, wished⟩
    cases wished
    have last : name.segments.getLast?.toList ≠ [] := by
      rw [List.getLast?_eq_some_getLast proper.some]
      exact List.cons_ne_nil _ _
    apply proper_replaceLeading (List.append_ne_nil_of_right_ne_nil _ last)
    intro segment listed
    apply proper.clean
    rcases List.mem_append.mp listed with listed | listed
    · apply (List.dropLast_sublist _).mem
      rw [same]
      exact List.mem_append_right _ listed
    · exact List.mem_of_getLast? (Option.mem_toList.mp listed)
  · split
    · next scope given =>
      rw [built.outer] at given
      split at given
      · cases given
      · cases given
        exact proper_replaceLeading proper.some proper.clean
    · exact proper

lemma isBlank_replaceLeading (replacement : Identifier) {last : String} (ends : last ∈ rest)
    (filled : last ≠ "") : (replaceLeading replacement rest).isBlank = false := by
  have parts := segments_replaceLeading replacement (List.ne_nil_of_mem ends)
  have member : last ∈ (replaceLeading replacement rest).segments := by
    rw [parts]
    exact List.mem_append_right _ ends
  have notNone : (replaceLeading replacement rest).segments ≠ [] := List.ne_nil_of_mem member
  have notEmpty : (replaceLeading replacement rest).segments ≠ [""] := by
    intro same
    rw [same] at member
    exact filled (List.mem_singleton.mp member)
  rw [Identifier.isBlank, beq_eq_false_iff_ne.mpr notNone, beq_eq_false_iff_ne.mpr notEmpty]
  rfl

/-- Whatever the aliases are, renaming keeps the last segment of a name, so that a
proper name still says something. -/
lemma isBlank_applyScope (aliases : Aliases) (proper : name.Proper) :
    (aliases.applyScope name).isBlank = false := by
  rcases List.getLast?_isSome.mpr proper.some |> Option.isSome_iff_exists.mp with ⟨last, isLast⟩
  have member := List.mem_of_getLast? isLast
  have filled : last ≠ "" := (proper.clean last member).1
  rw [applyScope, longest?_none]
  split
  · rw [isLast]
    exact isBlank_replaceLeading _ (List.mem_append_right _ (List.mem_singleton.mpr rfl)) filled
  · split
    · exact isBlank_replaceLeading _ member filled
    · have notEmpty : name.segments ≠ [""] := by
        intro same
        rw [same] at member
        exact filled (List.mem_singleton.mp member)
      rw [Identifier.isBlank, beq_eq_false_iff_ne.mpr proper.some,
        beq_eq_false_iff_ne.mpr notEmpty]
      rfl

end Aliases
end MessageSchema
