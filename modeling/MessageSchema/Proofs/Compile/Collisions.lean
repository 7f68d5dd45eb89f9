import MessageSchema.Proofs.Compile.PrefixRules

namespace MessageSchema.Aliases

open List

/-!
Collisions of aliased paths.

Whatever was requested before, the paths that the aliases hold do not meet.  A
further path is refused exactly if it meets one of them, at the last segment of
both, and nothing changes.  An outer scope is never in the way.
-/

variable {replacement : Identifier} {error : AddError} {one other : Aliases}

/-- A path that is refused meets a path of the tree, and is refused at the last segment
that both have. -/
lemma HoldsAll.exists_of_addBelow_eq_error {children : List (String × AliasNode)}
    {paths : List (List String × Identifier)} (holds : HoldsAll children paths) {depth index : Nat}
    {path : List String} (filled : path = [] -> paths ≠ [])
    (refused : Aliases.addBelow replacement depth children path = .error index) :
    ∃ entry ∈ paths, Meet entry.1 path ∧ index = depth + min path.length entry.1.length - 1 := by
  induction path generalizing children paths depth with
  | nil =>
    -- The path ends above the paths that go on from here.
    rcases exists_mem_of_ne_nil _ (filled rfl) with ⟨entry, member⟩
    cases refused
    exact ⟨entry, member, Or.inr nil_prefix, by simp⟩
  | cons segment rest ih =>
    rw [Aliases.addBelow] at refused
    have held := holds.each segment
    generalize inside : below segment paths = inner at held
    generalize there : children.lookup segment = node at held refused
    cases held with
    | nothing => cases refused
    | leaf found =>
      cases refused
      have member : ([segment], found) ∈ paths := by
        rw [← mem_below, inside]
        exact mem_singleton_self _
      refine ⟨([segment], found), member, Or.inl (by simp [cons_prefix_cons]), ?_⟩
      simp
    | branch innerFilled innerGoOn innerEach =>
      simp only at refused
      split at refused
      · cases refused
      · next deeper isRefused =>
        cases refused
        rcases ih ⟨innerGoOn, innerEach⟩ (fun _ => innerFilled) isRefused with
          ⟨⟨others, found⟩, member, meet, isIndex⟩
        rw [← inside] at member
        refine ⟨(segment :: others, found), mem_below.mp member, meet_cons_iff.mpr meet, ?_⟩
        simp only [isIndex, length_cons]
        omega

namespace Grants

variable {aliases : Aliases} {requests : List AliasRequest} {path replacement : Identifier}

lemma exists_of_add_eq_error (grants : aliases.Grants requests) (filled : path.isBlank = false)
    (refused : aliases.add path replacement = .error error) :
    ∃ rule ∈ rulesOf requests, Meet rule.path.segments path.segments ∧
      error = .collision path (min path.segments.length rule.path.segments.length - 1) := by
  rw [Aliases.add, filled] at refused
  simp only [Bool.false_eq_true, if_false] at refused
  split at refused
  · cases refused
  · next index isRefused =>
    cases refused
    rcases grants.holds.exists_of_addBelow_eq_error
      (fun none => absurd none (segments_ne_nil filled)) isRefused with
      ⟨entry, member, meet, isIndex⟩
    rcases List.mem_map.mp member with ⟨rule, listed, rfl⟩
    refine ⟨rule, listed, meet, ?_⟩
    rw [isIndex, Nat.zero_add]

end Grants

lemma grantAll_append (aliases : Aliases) (requests later : List AliasRequest) :
    aliases.grantAll (requests ++ later) = (aliases.grantAll requests).grantAll later := by
  induction requests generalizing aliases with
  | nil => rfl
  | cons request rest ih => exact ih _

lemma granted_append (aliases : Aliases) (requests later : List AliasRequest) :
    aliases.granted (requests ++ later) =
      aliases.granted requests ++ (aliases.grantAll requests).granted later := by
  induction requests generalizing aliases with
  | nil => rfl
  | cons request rest ih =>
    rw [cons_append, granted, granted, Aliases.grantAll]
    cases aliases.grant? request with
    | none => exact ih aliases
    | some next =>
      rw [Option.getD_some, cons_append]
      exact congrArg _ (ih next)

/-- A request that is refused leaves no trace, whatever is requested afterwards. -/
lemma leaves_no_trace {requests : List AliasRequest} {request : AliasRequest}
    (refused : (empty.grantAll requests).grant? request = none) (later : List AliasRequest) :
    empty.grantAll (requests ++ request :: later) = empty.grantAll (requests ++ later) ∧
      empty.granted (requests ++ request :: later) = empty.granted (requests ++ later) := by
  rw [grantAll_append, grantAll_append, granted_append, granted_append, Aliases.grantAll, granted,
    refused]
  exact ⟨rfl, rfl⟩

section
variable (same : one.children = other.children)
include same

/-- Refusals of paths depend on the paths only. -/
lemma add_eq_error_iff_of_children {path : Identifier} :
    one.add path replacement = .error error ↔ other.add path replacement = .error error := by
  rw [Aliases.add, Aliases.add, same]
  split
  · exact Iff.rfl
  · cases Aliases.addBelow replacement 0 other.children path.segments <;> simp

lemma children_grant (rule : PrefixRule) : ((one.grant? (.replace rule)).getD one).children =
      ((other.grant? (.replace rule)).getD other).children := by
  rw [grant?, grant?, Aliases.add, Aliases.add, same]
  split
  · exact same
  · cases Aliases.addBelow rule.replacement 0 other.children rule.path.segments with
    | error index => exact same
    | ok children => rfl

/-- The paths that the aliases hold do not depend on requests for an outer scope. -/
lemma children_grantAll_filter (requests : List AliasRequest) : (one.grantAll requests).children =
      (other.grantAll (requests.filter fun request => request.rule?.isSome)).children := by
  induction requests generalizing one other with
  | nil => exact same
  | cons request rest ih =>
    cases request with
    | replace rule =>
      rw [filter_cons_of_pos rfl, Aliases.grantAll, Aliases.grantAll]
      exact ih (children_grant same rule)
    | enclose scope =>
      rw [filter_cons_of_neg (by simp [AliasRequest.rule?]), Aliases.grantAll]
      refine ih ?_
      rw [grant?, setOuter]
      split
      · exact same
      · split
        · exact same
        · exact same

end

/-- After any requests, granted or refused, the paths of the aliases do not meet.  A
path that says something is added exactly if it meets none of them.  Otherwise it is
refused at the last segment that it has in common with one that it meets, and every
later request and every name is answered as if it had never been requested.  Without
the requests for an outer scope the same paths are refused in the same way. -/
theorem add_refuses_comparable_paths (requests : List AliasRequest) (path replacement : Identifier)
    (filled : path.isBlank = false) :
    let aliases := empty.grantAll requests
    let registered := rulesOf (empty.granted requests)
    registered.Pairwise (fun one other => ¬ Meet one.path.segments other.path.segments) ∧
    ((∃ next, aliases.add path replacement = .ok next) ↔
      ∀ rule ∈ registered, ¬ Meet rule.path.segments path.segments) ∧
    (∀ error, aliases.add path replacement = .error error ->
      (∃ rule ∈ registered, Meet rule.path.segments path.segments ∧
        ∃ index, index = min path.segments.length rule.path.segments.length - 1 ∧
          ∃ segment, path.segments[index]? = some segment ∧
            error.compileError = .aliasCollision path.text index segment ∧
            error.compileError.code = 3008) ∧
      ∀ later,
        empty.grantAll (requests ++ .replace ⟨path, replacement⟩ :: later) =
          empty.grantAll (requests ++ later) ∧
        empty.granted (requests ++ .replace ⟨path, replacement⟩ :: later) =
          empty.granted (requests ++ later)) ∧
    ∀ error, aliases.add path replacement = .error error ↔
      (empty.grantAll (requests.filter fun request => request.rule?.isSome)).add path
        replacement = .error error := by
  intro aliases registered
  have grants : aliases.Grants (empty.granted requests).reverse := by
    have run := grants_empty.grantAll requests
    rwa [append_nil] at run
  have isRegistered : ∀ rule,
      rule ∈ rulesOf (empty.granted requests).reverse ↔ rule ∈ registered := by
    intro rule
    rw [rulesOf, filterMap_reverse, mem_reverse]
    rfl
  refine ⟨?_, ?_, ?_, ?_⟩
  · have apart := grants.pairwise_not_meet
    rw [rulesOf, filterMap_reverse, pairwise_reverse] at apart
    exact apart.imp fun apart meet => apart (Or.symm meet)
  · rw [(grants.holds.add path replacement).1, and_iff_right filled, forall_mem_map]
    exact forall_congr' fun rule => imp_congr_left (isRegistered rule)
  · intro error refused
    constructor
    · rcases grants.exists_of_add_eq_error filled refused with ⟨rule, member, meet, rfl⟩
      have inside : min path.segments.length rule.path.segments.length - 1 <
          path.segments.length := by
        have atLeast := List.length_pos_iff.mpr (segments_ne_nil filled)
        omega
      refine ⟨rule, (isRegistered rule).mp member, meet, _, rfl, _,
        getElem?_eq_getElem inside, ?_, rfl⟩
      rw [AddError.compileError, getD_eq_getElem?_getD, getElem?_eq_getElem inside]
      rfl
    · refine leaves_no_trace ?_
      rw [grant?]
      change (aliases.add path replacement).toOption = none
      rw [refused]
      rfl
  · exact fun error => add_eq_error_iff_of_children (children_grantAll_filter rfl requests)

/-- A path behind an alias is refused at the end of that alias.  One that branches off
before is added, although the outer scope is its beginning. -/
theorem path_behind_alias_is_refused :
    let requests : List AliasRequest :=
      [.replace ⟨⟨["a", "b"]⟩, ⟨["x"]⟩⟩, .enclose ⟨["a"]⟩, .replace ⟨⟨["a"]⟩, ⟨["y"]⟩⟩]
    Identifier.isBlank ⟨["a", "b", "c"]⟩ = false ∧
    (∃ error, (empty.grantAll requests).add ⟨["a", "b", "c"]⟩ ⟨["y"]⟩ = .error error ∧
      error.compileError.code = 3008) ∧
    Identifier.isBlank ⟨["a", "c"]⟩ = false ∧
    ∃ next, (empty.grantAll requests).add ⟨["a", "c"]⟩ ⟨["y"]⟩ = .ok next := by
  intro requests
  have isRegistered : rulesOf (empty.granted requests) = [⟨⟨["a", "b"]⟩, ⟨["x"]⟩⟩] := by decide
  have behind := add_refuses_comparable_paths requests ⟨["a", "b", "c"]⟩ ⟨["y"]⟩ (by decide)
  have beside := add_refuses_comparable_paths requests ⟨["a", "c"]⟩ ⟨["y"]⟩ (by decide)
  simp only [isRegistered, forall_mem_singleton] at behind beside
  refine ⟨by decide, ?_, by decide, beside.2.1.mpr (by simp [Meet, cons_prefix_cons])⟩
  cases added : (empty.grantAll requests).add ⟨["a", "b", "c"]⟩ ⟨["y"]⟩ with
  | ok next => exact absurd (Or.inl (by simp [cons_prefix_cons])) (behind.2.1.mp ⟨next, added⟩)
  | error error =>
    rcases (behind.2.2.1 error added).1 with ⟨_, _, _, _, _, _, _, _, code⟩
    exact ⟨error, rfl, code⟩

end MessageSchema.Aliases
