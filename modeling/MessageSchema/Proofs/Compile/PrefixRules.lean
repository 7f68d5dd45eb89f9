import Mathlib.Data.List.Pairwise
import MessageSchema.Proofs.Compile.AliasTree

namespace MessageSchema

open List

/-!
The tree of aliases as a plain list of rules.

A rule says what replaces the path that a name begins with.  Whatever is requested
of new aliases, the tree acts as the rules whose request was granted: at most one of
them applies to a name.  A refused request leaves no trace, and requests that are
all granted in one order are so in every order, with the same effect.
-/

/-- The rule to replace a path at the beginning of a name. -/
structure PrefixRule where
  path : Identifier
  replacement : Identifier
deriving DecidableEq

/-- The name with these segments, or the one with an empty segment if there are
none. -/
def Identifier.ofSegments (segments : List String) : Identifier :=
  if segments = [] then .single "" else ⟨segments⟩

/-- The segments that a name stands for, of which a blank name has none. -/
def Identifier.content (name : Identifier) : List String :=
  if name.isBlank then [] else name.segments

namespace PrefixRule

/-- Does the name begin with the path of the rule? -/
def leads (name : Identifier) (rule : PrefixRule) : Bool :=
  rule.path.segments.isPrefixOf name.segments

/-- Does the name begin with the path of the rule and then go on? -/
def leadsScope (name : Identifier) (rule : PrefixRule) : Bool :=
  rule.leads name && rule.path.segments.length < name.segments.length

/-- The replacement in front of what the name goes on with behind the path. -/
def rewrite (rule : PrefixRule) (name : Identifier) : Identifier :=
  .ofSegments (rule.replacement.content ++ name.segments.drop rule.path.segments.length)

end PrefixRule

inductive AliasRequest where
  | replace (rule : PrefixRule)
  | enclose (scope : Identifier)
deriving DecidableEq

namespace AliasRequest

def rule? : AliasRequest -> Option PrefixRule
  | .replace rule => some rule
  | .enclose _ => none

def outer? : AliasRequest -> Option Identifier
  | .replace _ => none
  | .enclose scope => some scope

/-- The name that a request is about. -/
def subject : AliasRequest -> Identifier
  | .replace rule => rule.path
  | .enclose scope => scope

/-- Two requests get on with each other: the paths of two rules do not meet,
and there are not two outer scopes. -/
def Agree : AliasRequest -> AliasRequest -> Prop
  | .replace one, .replace other => ¬ Aliases.Meet one.path.segments other.path.segments
  | .enclose _, .enclose _ => False
  | _, _ => True

lemma Agree.symm {one other : AliasRequest} (agree : one.Agree other) : other.Agree one := by
  cases one <;> cases other
  · exact fun meet => agree (.symm meet)
  · trivial
  · trivial
  · exact agree

end AliasRequest

def rulesOf (requests : List AliasRequest) : List PrefixRule :=
  requests.filterMap AliasRequest.rule?

def outersOf (requests : List AliasRequest) : List Identifier :=
  requests.filterMap AliasRequest.outer?

namespace Aliases

/-- The aliases after a request, unless it is refused. -/
def grant? (aliases : Aliases) : AliasRequest -> Option Aliases
  | .replace rule => (aliases.add rule.path rule.replacement).toOption
  | .enclose scope => (aliases.setOuter scope).toOption

/-- The aliases after requests, one after the other. -/
def grantAll (aliases : Aliases) : List AliasRequest -> Aliases
  | [] => aliases
  | request :: rest => ((aliases.grant? request).getD aliases).grantAll rest

/-- The requests that are granted when they are made one after the other. -/
def granted (aliases : Aliases) : List AliasRequest -> List AliasRequest
  | [] => []
  | request :: rest =>
    match aliases.grant? request with
    | some next => request :: next.granted rest
    | none => aliases.granted rest

lemma granted_sublist (aliases : Aliases) (requests : List AliasRequest) :
    (aliases.granted requests).Sublist requests := by
  induction requests generalizing aliases with
  | nil => exact List.Sublist.refl _
  | cons request rest ih =>
    rw [granted]
    cases aliases.grant? request with
    | none => exact (ih aliases).cons _
    | some next => exact (ih next).cons_cons _

/-! ## What has been granted -/

/-- The aliases are the outcome of these requests, the last one first. -/
structure Grants (aliases : Aliases) (requests : List AliasRequest) : Prop where
  holds : HoldsAll aliases.children
    ((rulesOf requests).map fun rule => (rule.path.segments, rule.replacement))
  outer : aliases.outer = (outersOf requests).head?
  filled : ∀ request ∈ requests, request.subject.isBlank = false
  agree : requests.Pairwise AliasRequest.Agree

lemma grants_empty : empty.Grants [] :=
  ⟨holdsAll_empty, rfl, by simp, List.Pairwise.nil⟩

namespace Grants

variable {aliases : Aliases} {requests : List AliasRequest}

section
variable (grants : aliases.Grants requests)
include grants

lemma add_eq_ok_iff (rule : PrefixRule) :
    (∃ next, aliases.add rule.path rule.replacement = .ok next) ↔ rule.path.isBlank = false ∧
        ∀ earlier ∈ requests, (AliasRequest.replace rule).Agree earlier := by
  rw [(grants.holds.add rule.path rule.replacement).1]
  refine and_congr_right fun _ => ?_
  constructor
  · intro apart earlier member
    cases earlier with
    | replace earlier =>
      intro meet
      have listed : earlier ∈ rulesOf requests := List.mem_filterMap.mpr ⟨_, member, rfl⟩
      exact apart _ (mem_map_of_mem listed) (.symm meet)
    | enclose scope => trivial
  · intro agree entry member meet
    rcases List.mem_map.mp member with ⟨earlier, listed, same⟩
    rcases List.mem_filterMap.mp listed with ⟨request, known, isRule⟩
    cases request with
    | replace found =>
      cases isRule
      subst same
      exact agree _ known (.symm meet)
    | enclose scope => cases isRule

lemma setOuter_eq_ok_iff (scope : Identifier) : (∃ next, aliases.setOuter scope = .ok next) ↔
      scope.isBlank = false ∧ ∀ earlier ∈ requests, (AliasRequest.enclose scope).Agree earlier := by
  have free : aliases.outer = none ↔
      ∀ earlier ∈ requests, (AliasRequest.enclose scope).Agree earlier := by
    rw [grants.outer, head?_eq_none_iff, outersOf, filterMap_eq_nil_iff]
    refine forall_congr' fun earlier => forall_congr' fun _ => ?_
    cases earlier <;> simp [AliasRequest.outer?, AliasRequest.Agree]
  rw [← free, setOuter]
  cases scope.isBlank <;> cases aliases.outer <;> simp

/-- A request is granted exactly if it says something and gets on with all that
were granted before it. -/
lemma isSome_grant?_iff (request : AliasRequest) : (aliases.grant? request).isSome ↔
      request.subject.isBlank = false ∧ ∀ earlier ∈ requests, request.Agree earlier := by
  cases request with
  | replace rule =>
    rw [AliasRequest.subject, ← grants.add_eq_ok_iff rule, grant?]
    cases aliases.add rule.path rule.replacement <;> simp [Except.toOption]
  | enclose scope =>
    rw [AliasRequest.subject, ← grants.setOuter_eq_ok_iff scope, grant?]
    cases aliases.setOuter scope <;> simp [Except.toOption]

lemma grant {request : AliasRequest} {next : Aliases}
    (success : aliases.grant? request = some next) : next.Grants (request :: requests) := by
  rcases (grants.isSome_grant?_iff request).mp (Option.isSome_of_eq_some success) with
    ⟨nonblank, agree⟩
  have filled : ∀ found ∈ request :: requests, found.subject.isBlank = false :=
    List.forall_mem_cons.mpr ⟨nonblank, grants.filled⟩
  cases request with
  | replace rule =>
    rw [grant?] at success
    cases added : aliases.add rule.path rule.replacement with
    | error error =>
      rw [added] at success
      cases success
    | ok result =>
      rw [added] at success
      cases success
      rcases (grants.holds.add rule.path rule.replacement).2 _ added with ⟨outer, holds⟩
      exact ⟨holds, outer.trans grants.outer, filled,
        List.pairwise_cons.mpr ⟨agree, grants.agree⟩⟩
  | enclose scope =>
    rw [grant?, setOuter] at success
    split at success
    · cases success
    · split at success
      · cases success
      · cases success
        exact ⟨grants.holds, rfl, filled, List.pairwise_cons.mpr ⟨agree, grants.agree⟩⟩

end

lemma grantAll (grants : aliases.Grants requests) (more : List AliasRequest) :
    (aliases.grantAll more).Grants ((aliases.granted more).reverse ++ requests) := by
  induction more generalizing aliases requests with
  | nil => exact grants
  | cons request rest ih =>
    rw [Aliases.grantAll, granted]
    cases granting : aliases.grant? request with
    | none => exact ih grants
    | some next =>
      rw [reverse_cons, List.append_assoc]
      exact ih (grants.grant granting)

/-- All requests are granted exactly if each of them says something and any two
get on with each other. -/
lemma granted_eq_self_iff (grants : aliases.Grants requests) (more : List AliasRequest) :
    aliases.granted more = more ↔ (∀ request ∈ more, request.subject.isBlank = false ∧
        ∀ earlier ∈ requests, request.Agree earlier) ∧ more.Pairwise AliasRequest.Agree := by
  induction more generalizing aliases requests with
  | nil => simp [granted]
  | cons request rest ih =>
    have able := grants.isSome_grant?_iff request
    rw [granted, forall_mem_cons, pairwise_cons, ← able]
    cases granting : aliases.grant? request with
    | none =>
      have shorter : aliases.granted rest ≠ request :: rest := by
        intro same
        have longer := (aliases.granted_sublist rest).length_le
        rw [same, length_cons] at longer
        omega
      simp [shorter]
    | some next =>
      simp only [List.cons.injEq, true_and, Option.isSome_some, ih (grants.grant granting),
        forall_mem_cons]
      constructor
      · rintro ⟨each, agree⟩
        refine ⟨fun other member => ⟨(each other member).1, (each other member).2.2⟩, ?_, agree⟩
        exact fun other member => (each other member).2.1.symm
      · rintro ⟨each, first, agree⟩
        refine ⟨fun other member => ⟨(each other member).1, ?_, (each other member).2⟩, agree⟩
        exact (first other member).symm

end Grants

/-! ## What the granted rules do to a name -/

/-- On this name the aliases act as a list of rules with an outer scope: rules that lead the
name do not differ, the rule that leads it is applied, and only a name without segments has
none. -/
structure ActsAs (aliases : Aliases) (rules : List PrefixRule) (outer : Option Identifier)
    (name : Identifier) : Prop where
  unique : ∀ one ∈ rules, ∀ other ∈ rules, one.leads name -> other.leads name -> one = other
  apply_of_leads : ∀ rule ∈ rules, rule.leads name -> aliases.apply name = rule.rewrite name
  apply_of_none : (∀ rule ∈ rules, ¬ rule.leads name) -> aliases.apply name = name
  applyScope_of_leads :
    ∀ rule ∈ rules, rule.leadsScope name -> aliases.applyScope name = rule.rewrite name
  applyScope_of_none : (∀ rule ∈ rules, ¬ rule.leadsScope name) ->
    aliases.applyScope name = outer.elim name fun scope => scope.append name
  apply_eq_nil_iff : (aliases.apply name).segments = [] ↔ name.segments = []
  applyScope_eq_nil_iff :
    (aliases.applyScope name).segments = [] ↔ name.segments = [] ∧ outer = none

lemma replaceLeading_eq_ofSegments (replacement : Identifier) (rest : List String) :
    replaceLeading replacement rest = .ofSegments (replacement.content ++ rest) := by
  unfold replaceLeading Identifier.ofSegments Identifier.content
  generalize (if replacement.isBlank then [] else replacement.segments) ++ rest = segments
  cases segments <;> rfl

lemma segments_ofSegments_ne_nil (segments : List String) :
    (Identifier.ofSegments segments).segments ≠ [] := by
  unfold Identifier.ofSegments
  split
  · exact cons_ne_nil _ _
  · assumption

lemma PrefixRule.leads_iff {rule : PrefixRule} {name : Identifier} :
    rule.leads name ↔ rule.path.segments <+: name.segments :=
  isPrefixOf_iff_prefix

/-- A path leads a name and ends before it exactly if it leads the scope of the
name. -/
lemma PrefixRule.leadsScope_iff {rule : PrefixRule} (filled : rule.path.segments ≠ [])
    {name : Identifier} : rule.leadsScope name ↔ rule.path.segments <+: name.segments.dropLast := by
  have leads := @PrefixRule.leads_iff rule name
  rw [PrefixRule.leadsScope, Bool.and_eq_true, leads, decide_eq_true_iff]
  have positive := List.length_pos_iff.mpr filled
  constructor
  · rintro ⟨front, shorter⟩
    refine prefix_of_prefix_length_le front (List.dropLast_prefix _) ?_
    rw [length_dropLast]
    omega
  · intro front
    have shorter := front.length_le
    rw [length_dropLast] at shorter
    exact ⟨front.trans (List.dropLast_prefix _), by omega⟩

lemma segments_ne_nil {path : Identifier} (filled : path.isBlank = false) : path.segments ≠ [] := by
  intro none
  rw [Identifier.isBlank, none] at filled
  cases filled

namespace Grants

variable {aliases : Aliases} {requests : List AliasRequest}

variable {rule : PrefixRule} {segments : List String} {name : Identifier}

section
variable (grants : aliases.Grants requests)
include grants

lemma path_ne_nil (member : rule ∈ rulesOf requests) : rule.path.segments ≠ [] :=
  grants.holds.goOn _ (mem_map_of_mem member)

/-- The paths of rules that are granted do not meet. -/
lemma pairwise_not_meet : (rulesOf requests).Pairwise fun one other =>
      ¬ Meet one.path.segments other.path.segments := by
  refine grants.agree.filterMap _ ?_
  intro first second agree rule isFirst other isSecond
  cases first <;> cases isFirst
  cases second <;> cases isSecond
  exact agree

/-- Two rules that lead the same name meet, so they are the same rule. -/
lemma eq_of_prefix {one other : PrefixRule}
    (memberOne : one ∈ rulesOf requests) (memberOther : other ∈ rulesOf requests)
    (leadsOne : one.path.segments <+: segments) (leadsOther : other.path.segments <+: segments) :
    one = other := by
  have symmetric : Std.Symm fun one other : PrefixRule =>
      ¬ Meet one.path.segments other.path.segments := ⟨fun _ _ apart meet => apart (.symm meet)⟩
  refine Decidable.byContradiction fun different => ?_
  exact grants.pairwise_not_meet.forall memberOne memberOther different
    (List.prefix_or_prefix_of_prefix leadsOne leadsOther)

lemma match?_of_prefix (member : rule ∈ rulesOf requests)
    (leads : rule.path.segments <+: segments) : match? aliases.children segments =
      some (rule.replacement, segments.drop rule.path.segments.length) := by
  refine (grants.holds.match?_eq_some_iff _ _ _).mpr ⟨_, mem_map_of_mem member, ?_⟩
  exact (List.prefix_iff_eq_append.mp leads).symm

lemma match?_of_none (none : ∀ rule ∈ rulesOf requests, ¬ rule.path.segments <+: segments) :
    match? aliases.children segments = .none := by
  rw [Option.eq_none_iff_forall_not_mem]
  rintro ⟨replacement, rest⟩ matched
  rcases (grants.holds.match?_eq_some_iff _ _ _).mp matched with ⟨path, listed, same⟩
  rcases List.mem_map.mp listed with ⟨rule, member, isPath⟩
  cases isPath
  exact none rule member ⟨rest, same.symm⟩

lemma apply_of_leads (member : rule ∈ rulesOf requests)
    (leads : rule.leads name) : aliases.apply name = rule.rewrite name := by
  rw [apply, grants.match?_of_prefix member (PrefixRule.leads_iff.mp leads)]
  exact replaceLeading_eq_ofSegments _ _

lemma apply_of_none
    (none : ∀ rule ∈ rulesOf requests, ¬ rule.leads name) : aliases.apply name = name := by
  rw [apply, grants.match?_of_none]
  exact fun rule member leads => none rule member (PrefixRule.leads_iff.mpr leads)

lemma applyScope_of_leads (member : rule ∈ rulesOf requests)
    (leads : rule.leadsScope name) : aliases.applyScope name = rule.rewrite name := by
  have filled := grants.path_ne_nil member
  have front := (PrefixRule.leadsScope_iff filled).mp leads
  rw [applyScope, longest?_none, grants.match?_of_prefix member front]
  change replaceLeading _ _ = _
  rw [replaceLeading_eq_ofSegments, PrefixRule.rewrite]
  -- What the scope goes on with, and then the last segment, is what the name goes on with.
  have some : name.segments ≠ [] := by
    intro none
    rw [none, dropLast_nil, prefix_nil] at front
    exact filled front
  have whole := dropLast_concat_getLast some
  have below := front.length_le
  rw [getLast?_eq_some_getLast some, Option.toList_some,
    ← drop_append_of_le_length below, whole]

lemma applyScope_of_none (none : ∀ rule ∈ rulesOf requests, ¬ rule.leadsScope name) :
    aliases.applyScope name =
      (outersOf requests).head?.elim name fun scope => scope.append name := by
  rw [applyScope, longest?_none, grants.match?_of_none]
  · rw [grants.outer]
    cases first : (outersOf requests).head? with
    | none => rfl
    | some scope =>
      rcases List.mem_filterMap.mp (mem_of_head? first) with ⟨request, member, isScope⟩
      have nonblank := grants.filled request member
      cases request <;> cases isScope
      rw [AliasRequest.subject] at nonblank
      have some : scope.segments ++ name.segments ≠ [] :=
        fun none => segments_ne_nil nonblank (List.append_eq_nil_iff.mp none).1
      change replaceLeading _ _ = scope.append name
      rw [replaceLeading_eq_ofSegments, Identifier.content, nonblank, Identifier.ofSegments]
      rw [if_neg (by simpa using some)]
      rfl
  · intro rule member front
    exact none rule member ((PrefixRule.leadsScope_iff (grants.path_ne_nil member)).mpr front)

/-- Aliases act as the rules and the outer scope that have been granted. -/
lemma actsAs (name : Identifier) :
    aliases.ActsAs (rulesOf requests) (outersOf requests).head? name where
  unique := fun one memberOne other memberOther leadsOne leadsOther =>
    grants.eq_of_prefix memberOne memberOther (PrefixRule.leads_iff.mp leadsOne)
      (PrefixRule.leads_iff.mp leadsOther)
  apply_of_leads := fun _ member leads => grants.apply_of_leads member leads
  apply_of_none := grants.apply_of_none
  applyScope_of_leads := fun _ member leads => grants.applyScope_of_leads member leads
  applyScope_of_none := grants.applyScope_of_none
  apply_eq_nil_iff := by
    by_cases led : ∃ rule ∈ rulesOf requests, rule.leads name
    · rcases led with ⟨rule, member, leads⟩
      rw [grants.apply_of_leads member leads, PrefixRule.rewrite]
      refine iff_of_false (segments_ofSegments_ne_nil _) ?_
      intro none
      have front := PrefixRule.leads_iff.mp leads
      rw [none, prefix_nil] at front
      exact grants.path_ne_nil member front
    · rw [grants.apply_of_none fun rule member leads => led ⟨rule, member, leads⟩]
  applyScope_eq_nil_iff := by
    by_cases led : ∃ rule ∈ rulesOf requests, rule.leadsScope name
    · rcases led with ⟨rule, member, leads⟩
      rw [grants.applyScope_of_leads member leads, PrefixRule.rewrite]
      refine iff_of_false (segments_ofSegments_ne_nil _) ?_
      rintro ⟨none, _⟩
      have front := (PrefixRule.leadsScope_iff (grants.path_ne_nil member)).mp leads
      rw [none, dropLast_nil, prefix_nil] at front
      exact grants.path_ne_nil member front
    · rw [grants.applyScope_of_none fun rule member leads => led ⟨rule, member, leads⟩]
      cases first : (outersOf requests).head? with
      | none => simp
      | some scope =>
        rcases List.mem_filterMap.mp (mem_of_head? first) with ⟨request, member, isScope⟩
        have filled := grants.filled request member
        cases request <;> cases isScope
        have some : scope.segments ≠ [] := segments_ne_nil filled
        simp [Identifier.append, some]

lemma length_outersOf_le_one : (outersOf requests).length <= 1 := by
  have apart : (outersOf requests).Pairwise fun _ _ => False := by
    refine grants.agree.filterMap _ ?_
    intro first second agree scope isFirst other isSecond
    cases first <;> cases isFirst
    cases second <;> cases isSecond
    exact agree
  cases scopes : outersOf requests with
  | nil => exact Nat.zero_le 1
  | cons scope rest =>
    rw [scopes] at apart
    cases rest with
    | nil => exact Nat.le_refl 1
    | cons other rest => exact ((List.pairwise_cons.mp apart).1 other mem_cons_self).elim

lemma actsAs_of_perm {others : List AliasRequest}
    (permuted : requests.Perm others) (name : Identifier) :
    aliases.ActsAs (rulesOf others) (outersOf others).head? name := by
  have rules : ∀ rule, rule ∈ rulesOf requests ↔ rule ∈ rulesOf others :=
    fun _ => (permuted.filterMap _).mem_iff
  have outers : outersOf requests = outersOf others := by
    have few := grants.length_outersOf_le_one
    have same : (outersOf requests).Perm (outersOf others) := permuted.filterMap _
    rcases Nat.le_one_iff_eq_zero_or_eq_one.mp few with none | one
    · rw [length_eq_zero_iff] at none
      rw [none] at same ⊢
      exact same.nil_eq
    · rcases List.length_eq_one_iff.mp one with ⟨scope, alone⟩
      rw [alone] at same ⊢
      exact (List.singleton_perm.mp same)
  have acts := grants.actsAs name
  simp only [outers] at acts
  constructor
  · simpa only [rules] using acts.unique
  · simpa only [rules] using acts.apply_of_leads
  · simpa only [rules] using acts.apply_of_none
  · simpa only [rules] using acts.applyScope_of_leads
  · simpa only [rules] using acts.applyScope_of_none
  · exact acts.apply_eq_nil_iff
  · exact acts.applyScope_eq_nil_iff

end

end Grants

/-- Aliases that act as the same rules on a name give it the same new names. -/
lemma ActsAs.congr {one other : Aliases} {rules : List PrefixRule} {outer : Option Identifier}
    {name : Identifier} (acts : one.ActsAs rules outer name)
    (actsToo : other.ActsAs rules outer name) :
    one.apply name = other.apply name ∧ one.applyScope name = other.applyScope name := by
  constructor
  · by_cases led : ∃ rule ∈ rules, rule.leads name
    · rcases led with ⟨rule, member, leads⟩
      rw [acts.apply_of_leads rule member leads, actsToo.apply_of_leads rule member leads]
    · have none : ∀ rule ∈ rules, ¬ rule.leads name :=
        fun rule member leads => led ⟨rule, member, leads⟩
      rw [acts.apply_of_none none, actsToo.apply_of_none none]
  · by_cases led : ∃ rule ∈ rules, rule.leadsScope name
    · rcases led with ⟨rule, member, leads⟩
      rw [acts.applyScope_of_leads rule member leads, actsToo.applyScope_of_leads rule member leads]
    · have none : ∀ rule ∈ rules, ¬ rule.leadsScope name :=
        fun rule member leads => led ⟨rule, member, leads⟩
      rw [acts.applyScope_of_none none, actsToo.applyScope_of_none none]

/-- Requests that are all granted in one order are all granted in any other. -/
lemma granted_eq_self_of_perm {requests others : List AliasRequest}
    (permuted : requests.Perm others) (all : empty.granted requests = requests) :
    empty.granted others = others := by
  rw [grants_empty.granted_eq_self_iff] at all ⊢
  refine ⟨fun request member => all.1 request (permuted.mem_iff.mpr member), ?_⟩
  exact (permuted.pairwise_iff AliasRequest.Agree.symm).mp all.2

/-- Whatever is requested of new aliases, on every name they act as the rules
and the one outer scope whose requests are granted; and requests that are all
granted have the same effect in every order. -/
theorem aliases_act_as_granted_rules (requests : List AliasRequest) :
    (∀ name, (empty.grantAll requests).ActsAs (rulesOf (empty.granted requests))
      (outersOf (empty.granted requests)).head? name) ∧
    (outersOf (empty.granted requests)).length <= 1 ∧
    ∀ others, requests.Perm others -> empty.granted requests = requests ->
      empty.granted others = others ∧ ∀ name,
        (empty.grantAll others).apply name = (empty.grantAll requests).apply name ∧
        (empty.grantAll others).applyScope name =
          (empty.grantAll requests).applyScope name := by
  have grants : ∀ requests, (empty.grantAll requests).Grants (empty.granted requests).reverse := by
    intro requests
    have run := grants_empty.grantAll requests
    rwa [append_nil] at run
  have acts : ∀ requests name, (empty.grantAll requests).ActsAs (rulesOf (empty.granted requests))
      (outersOf (empty.granted requests)).head? name :=
    fun requests => (grants requests).actsAs_of_perm (reverse_perm _)
  refine ⟨acts requests, ?_, ?_⟩
  · have few := (grants requests).length_outersOf_le_one
    rwa [outersOf, filterMap_reverse, length_reverse] at few
  · intro others permuted all
    have allOthers := granted_eq_self_of_perm permuted all
    refine ⟨allOthers, fun name => ?_⟩
    have actsOthers := acts others name
    rw [allOthers] at actsOthers
    refine actsOthers.congr ((grants requests).actsAs_of_perm ?_ name)
    rw [all]
    exact (reverse_perm _).trans permuted

/-- Three aliases, one refused, and an outer scope: a name under an alias is rewritten, one
that is an alias keeps its last segment, others get the outer scope.  The other order has
the same effect. -/
theorem granted_rules_of_four_requests :
    let requests : List AliasRequest :=
      [.replace ⟨⟨["a", "b"]⟩, ⟨["x"]⟩⟩, .enclose ⟨["p"]⟩, .replace ⟨⟨["a"]⟩, ⟨["y"]⟩⟩,
        .replace ⟨⟨["c"]⟩, .single ""⟩]
    let compatible : List AliasRequest :=
      [.replace ⟨⟨["a", "b"]⟩, ⟨["x"]⟩⟩, .enclose ⟨["p"]⟩]
    rulesOf (empty.granted requests) =
      [⟨⟨["a", "b"]⟩, ⟨["x"]⟩⟩, ⟨⟨["c"]⟩, .single ""⟩] ∧
    (empty.grantAll requests).apply ⟨["a", "b", "c"]⟩ = ⟨["x", "c"]⟩ ∧
    (empty.grantAll requests).apply ⟨["c"]⟩ = ⟨[""]⟩ ∧
    (empty.grantAll requests).applyScope ⟨["c", "d"]⟩ = ⟨["d"]⟩ ∧
    (empty.grantAll requests).applyScope ⟨["c"]⟩ = ⟨["p", "c"]⟩ ∧
    (empty.grantAll compatible.reverse).applyScope ⟨["a", "b", "c"]⟩ =
      (empty.grantAll compatible).applyScope ⟨["a", "b", "c"]⟩ := by
  intro requests compatible
  have acts := (aliases_act_as_granted_rules requests).1
  have order := (aliases_act_as_granted_rules compatible).2.2 compatible.reverse
    (reverse_perm _).symm (by decide)
  refine ⟨by decide, ?_, ?_, ?_, ?_, (order.2 _).2⟩
  · exact (acts ⟨["a", "b", "c"]⟩).apply_of_leads ⟨⟨["a", "b"]⟩, ⟨["x"]⟩⟩ (by decide) (by decide)
  · exact (acts ⟨["c"]⟩).apply_of_leads ⟨⟨["c"]⟩, .single ""⟩ (by decide) (by decide)
  · exact (acts ⟨["c", "d"]⟩).applyScope_of_leads ⟨⟨["c"]⟩, .single ""⟩ (by decide) (by decide)
  · exact (acts ⟨["c"]⟩).applyScope_of_none (by decide)

/-- A name without segments is left without any, although a name that is
replaced by nothing gets an empty segment. -/
theorem apply_of_no_segments :
    (empty.apply ⟨[]⟩).segments = [] ∧
      ((empty.grantAll [.replace ⟨⟨["c"]⟩, ⟨[]⟩⟩]).apply ⟨["c"]⟩).segments = [""] := by
  decide

end Aliases
end MessageSchema
