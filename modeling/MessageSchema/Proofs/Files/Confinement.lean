import MessageSchema.Plugin.Exchange
import MessageSchema.Proofs.Name.Dotted

namespace MessageSchema

/-!
Paths below a directory.

A path is known by its names and by whether it is rooted.  Names that neither stand for the
directory itself nor lead upwards come behind those of the directory, so the parts of a
generated file can be read off its path.
-/

namespace Files

/-- A name that a clean path can have behind its steps upwards. -/
def IsName (name : String) : Prop :=
  name ≠ "" ∧ name ≠ "." ∧ '/' ∉ name.toList

instance (name : String) : Decidable (IsName name) :=
  inferInstanceAs (Decidable (_ ∧ _))

/-- The names of a path, without those that stand for the directory itself. -/
def components (path : String) : List String :=
  (steps path).filter fun name => name ≠ "" ∧ name ≠ "."

/-- The names that a path has after cleaning. -/
def cleanNames (path : String) : List String :=
  ((steps path).foldl (takeStep (isRooted path)) []).reverse

variable {path : String} {names : List String}

lemma isName_of_mem_takeStep {rooted : Bool} {seen : List String} {step name : String}
    (all : ∀ name ∈ seen, IsName name) (free : '/' ∉ step.toList)
    (member : name ∈ takeStep rooted seen step) : IsName name := by
  have upwards : IsName ".." := by decide
  unfold takeStep at member
  split at member
  · exact all name member
  · next filled =>
    split at member
    · cases seen with
      | nil =>
        cases rooted
        · rw [List.mem_singleton.mp member]
          exact upwards
        · cases member
      | cons last rest =>
        dsimp only at member
        split at member
        · rcases List.mem_cons.mp member with same | member
          · exact same ▸ upwards
          · exact all name member
        · exact all name (List.mem_cons_of_mem _ member)
    · rcases List.mem_cons.mp member with same | member
      · rw [not_or] at filled
        exact same ▸ ⟨filled.1, filled.2, free⟩
      · exact all name member

lemma isName_of_mem_foldl {rooted : Bool} {seen found : List String}
    (all : ∀ name ∈ seen, IsName name) (free : ∀ step ∈ found, '/' ∉ step.toList) :
    ∀ name ∈ found.foldl (takeStep rooted) seen, IsName name := by
  induction found generalizing seen with
  | nil => exact all
  | cons step found ih =>
    refine ih (fun name => ?_) (fun other member => free other (List.mem_cons_of_mem _ member))
    exact isName_of_mem_takeStep all (free step List.mem_cons_self)

lemma isName_of_mem_cleanNames {name : String} (member : name ∈ cleanNames path) : IsName name := by
  refine isName_of_mem_foldl (List.forall_mem_nil _) (fun step => ?_) name
    (List.mem_reverse.mp member)
  exact Name.free_of_mem_pieces rfl

lemma components_intercalate (all : ∀ name ∈ names, IsName name) :
    components (String.intercalate "/" names) = names := by
  cases names with
  | nil => decide
  | cons first rest =>
    have cut : steps (String.intercalate "/" (first :: rest)) = first :: rest :=
      Name.pieces_intercalate rfl (List.cons_ne_nil _ _) fun name member => (all name member).2.2
    rw [components, cut]
    refine List.filter_eq_self.mpr fun name member => ?_
    exact decide_eq_true ⟨(all name member).1, (all name member).2.1⟩

lemma components_root (path : String) : components ("/" ++ path) = components path := by
  have cut : steps ("" ++ "/" ++ path) = steps "" ++ steps path := Name.pieces_append rfl "" path
  rw [String.empty_append] at cut
  rw [components, cut]
  rfl

/-- The text of a path with some names. -/
def withNames (rooted : Bool) (names : List String) : String :=
  if rooted then "/" ++ String.intercalate "/" names
  else if names.isEmpty then "." else String.intercalate "/" names

lemma clean_eq (path : String) : clean path = withNames (isRooted path) (cleanNames path) :=
  rfl

lemma components_withNames (rooted : Bool) (all : ∀ name ∈ names, IsName name) :
    components (withNames rooted names) = names := by
  unfold withNames
  split
  · rw [components_root, components_intercalate all]
  · split
    · next none =>
      rw [List.isEmpty_iff.mp none]
      decide
    · exact components_intercalate all

lemma components_clean (path : String) : components (clean path) = cleanNames path :=
  components_withNames _ fun _ => isName_of_mem_cleanNames

lemma isRooted_append {front : String} (filled : front ≠ "") (back : String) :
    isRooted (front ++ back) = isRooted front := by
  rw [isRooted, isRooted, String.toList_append, List.head?_append,
    List.head?_eq_some_head (by rwa [ne_eq, String.toList_eq_nil_iff]), Option.some_or]

lemma isRooted_intercalate (all : ∀ name ∈ names, IsName name) :
    isRooted (String.intercalate "/" names) = false := by
  cases names with
  | nil => rfl
  | cons first rest =>
    have isName := all first List.mem_cons_self
    have unrooted : isRooted first = false := by
      rw [isRooted, beq_eq_false_iff_ne]
      exact fun slash => isName.2.2 (List.mem_of_head? slash)
    cases rest with
    | nil => rw [String.intercalate_singleton, unrooted]
    | cons second rest =>
      rw [String.intercalate_cons_cons, String.append_assoc, isRooted_append isName.1, unrooted]

lemma isRooted_withNames (rooted : Bool) (all : ∀ name ∈ names, IsName name) :
    isRooted (withNames rooted names) = rooted := by
  unfold withNames
  split
  · next slash =>
    rw [slash, isRooted_append (by decide)]
    rfl
  · next relative =>
    rw [Bool.not_eq_true] at relative
    rw [relative]
    split
    · rfl
    · exact isRooted_intercalate all

lemma isRooted_clean (path : String) : isRooted (clean path) = isRooted path :=
  isRooted_withNames _ fun _ => isName_of_mem_cleanNames

lemma foldl_takeStep_names {rooted : Bool} (seen : List String)
    (all : ∀ name ∈ names, IsName name) (down : ".." ∉ names) :
    names.foldl (takeStep rooted) seen = names.reverse ++ seen := by
  induction names generalizing seen with
  | nil => rfl
  | cons name names ih =>
    have isName := all name List.mem_cons_self
    have notUp : name ≠ ".." := fun same => down (same ▸ List.mem_cons_self)
    have step : takeStep rooted seen name = name :: seen := by
      simp [takeStep, isName.1, isName.2.1, notUp]
    rw [List.foldl_cons, step, ih _ (fun other member => all other (List.mem_cons_of_mem _ member))
      (fun member => down (List.mem_cons_of_mem _ member)), List.reverse_cons, List.append_assoc]
    rfl

lemma join_eq {parts given : List String} (filled : parts.filter (· != "") = given)
    (some : given ≠ []) : join parts = clean (String.intercalate "/" given) := by
  unfold join
  rw [filled]
  cases given with
  | nil => exact absurd rfl some
  | cons => rfl

/-- Names below a directory come behind the names of the directory. -/
lemma join_names (directory : String) (some : names ≠ []) (all : ∀ name ∈ names, IsName name)
    (down : ".." ∉ names) :
    join (directory :: names) = withNames (isRooted directory) (cleanNames directory ++ names) := by
  have cut : steps (String.intercalate "/" names) = names :=
    Name.pieces_intercalate rfl some fun name member => (all name member).2.2
  have kept : names.filter (· != "") = names := by
    refine List.filter_eq_self.mpr fun name member => ?_
    simpa using (all name member).1
  by_cases given : directory = ""
  · have filled : (directory :: names).filter (· != "") = names := by
      rw [given, List.filter_cons_of_neg (by decide), kept]
    rw [join_eq filled some, clean_eq, isRooted_intercalate all, cleanNames, cut,
      isRooted_intercalate all, foldl_takeStep_names _ all down, List.append_nil,
      List.reverse_reverse, given]
    rfl
  · have filled : (directory :: names).filter (· != "") = directory :: names := by
      rw [List.filter_cons_of_pos (by simpa using given), kept]
    have joined : String.intercalate "/" (directory :: names) =
        directory ++ "/" ++ String.intercalate "/" names := by
      rcases List.exists_cons_of_ne_nil some with ⟨first, rest, rfl⟩
      rw [String.intercalate_cons_cons]
    have rooted : isRooted (directory ++ "/" ++ String.intercalate "/" names) =
        isRooted directory := by
      rw [String.append_assoc, isRooted_append given]
    have parts : steps (directory ++ "/" ++ String.intercalate "/" names) =
        steps directory ++ names :=
      (Name.pieces_append rfl _ _).trans (congrArg _ cut)
    rw [join_eq filled (List.cons_ne_nil _ _), joined, clean_eq, rooted, cleanNames,
      rooted, parts, List.foldl_append, foldl_takeStep_names _ all down, List.reverse_append,
      List.reverse_reverse]
    rfl

end Files

namespace Plugin

open Files (components clean isRooted IsName)

/-- A name that a generated file can have on its way down. -/
def IsPart (part : String) : Prop :=
  IsName part ∧ part ≠ ".."

lemma partFault?_eq_none_iff (part : String) : partFault? part = none ↔ IsPart part := by
  unfold partFault?
  split
  · next bad =>
    refine iff_of_false (Option.some_ne_none _) fun isPart => ?_
    rcases bad with empty | itself | upwards
    · exact isPart.1.1 empty
    · exact isPart.1.2.1 itself
    · exact isPart.2 upwards
  · next good =>
    rw [not_or, not_or] at good
    split
    · next rooted =>
      refine iff_of_false (Option.some_ne_none _) fun isPart => isPart.1.2.2 ?_
      exact List.mem_of_head? (by simpa [isRooted] using rooted)
    · split
      · next slash =>
        exact iff_of_false (Option.some_ne_none _) fun isPart => isPart.1.2.2 (by simpa using slash)
      · next free => exact iff_of_true rfl ⟨⟨good.1, good.2.1, by simpa using free⟩, good.2.2⟩

lemma OutputFile.fault?_eq_none_iff (file : OutputFile) :
    file.fault? = none ↔ file.parts ≠ [] ∧ ∀ part ∈ file.parts, IsPart part := by
  unfold OutputFile.fault?
  split
  · next empty =>
    exact iff_of_false (Option.some_ne_none _) fun valid => valid.1 (List.isEmpty_iff.mp empty)
  · next some =>
    rw [List.findSome?_eq_none_iff]
    simp only [partFault?_eq_none_iff]
    exact (and_iff_right fun empty => some (List.isEmpty_iff.mpr empty)).symm

/-- Generated files stay below the directory that they are meant for.  The path of a valid
file has the names of the clean directory, and behind them the parts of the file as they
are.  So files with different parts never meet.  Whatever could leave the directory is
refused. -/
theorem valid_files_stay_below (directory : String) (file : OutputFile) :
    (file.fault? = none ->
      components (file.place directory) = components (clean directory) ++ file.parts ∧
      isRooted (file.place directory) = isRooted (clean directory) ∧ file.parts ≠ [] ∧
      ∀ other : OutputFile, other.fault? = none ->
        other.place directory = file.place directory -> other.parts = file.parts) ∧
    (file.parts = [] ∨ (∃ part ∈ file.parts,
        part = "" ∨ part = "." ∨ part = ".." ∨ '/' ∈ part.toList) ->
      ∃ fault, file.fault? = some fault) := by
  have below : ∀ {file : OutputFile}, file.fault? = none ->
      file.place directory =
        Files.withNames (isRooted directory) (Files.cleanNames directory ++ file.parts) ∧
      ∀ name ∈ Files.cleanNames directory ++ file.parts, IsName name := by
    intro file valid
    rcases file.fault?_eq_none_iff.mp valid with ⟨some, parts⟩
    refine ⟨Files.join_names directory some (fun part member => (parts part member).1) fun up => ?_,
      fun name member => ?_⟩
    · exact (parts _ up).2 rfl
    · rcases List.mem_append.mp member with member | member
      · exact Files.isName_of_mem_cleanNames member
      · exact (parts name member).1
  have placed : ∀ {file : OutputFile}, file.fault? = none ->
      components (file.place directory) = components (clean directory) ++ file.parts := by
    intro file valid
    rw [(below valid).1, Files.components_withNames _ (below valid).2, Files.components_clean]
  refine ⟨fun valid => ⟨placed valid, ?_, (file.fault?_eq_none_iff.mp valid).1,
    fun other alsoValid same => ?_⟩, fun bad => ?_⟩
  · rw [(below valid).1, Files.isRooted_withNames _ (below valid).2, Files.isRooted_clean]
  · apply List.append_cancel_left
    rw [← placed alsoValid, same, placed valid]
  · refine Option.ne_none_iff_exists'.mp fun valid => ?_
    rcases file.fault?_eq_none_iff.mp valid with ⟨some, parts⟩
    rcases bad with empty | ⟨part, member, bad⟩
    · exact some empty
    · rcases bad with empty | itself | upwards | slash
      · exact (parts part member).1.1 empty
      · exact (parts part member).1.2.1 itself
      · exact (parts part member).2 upwards
      · exact (parts part member).1.2.2 slash

theorem odd_parts_stay_below :
    OutputFile.fault? ⟨some ["a", "...", "b\\c "], ""⟩ = none ∧
      components (OutputFile.place ⟨some ["a", "...", "b\\c "], ""⟩ "../x//y/..") =
        ["..", "x", "a", "...", "b\\c "] :=
  ⟨by decide, ((valid_files_stay_below "../x//y/.." _).1 (by decide)).1.trans (by decide +kernel)⟩

end Plugin
end MessageSchema
