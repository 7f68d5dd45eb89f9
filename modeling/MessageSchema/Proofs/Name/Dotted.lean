import Mathlib.Tactic.Lemma
import MessageSchema.Name.Identifier

namespace MessageSchema

open List String Bool

/-!
Dotted texts and the names they stand for.

A name can be read back from its text if no segment holds a dot or is empty.  For
such proper names, a table keyed by texts is as good as one keyed by names.  What is
read from a text is proper unless it is blank.
-/

namespace Name

/-- A segment that can be told apart in a dotted text. -/
def IsSegment (segment : String) : Prop :=
  segment ≠ "" ∧ '.' ∉ segment.toList

variable {mark : Char} {separator : String} {current piece rest : List Char}

/-- What is cut behind a mark does not depend on what stands before it. -/
lemma piecesFrom_append (current front rest : List Char) :
    piecesFrom [mark] current 0 (front ++ mark :: rest) =
      piecesFrom [mark] current 0 front ++ piecesFrom [mark] [] 0 rest := by
  induction front generalizing current with
  | nil => simp [piecesFrom, List.isPrefixOf]
  | cons value front ih =>
    rw [cons_append, piecesFrom, piecesFrom]
    by_cases isMark : mark = value
    · subst isMark
      simp [List.isPrefixOf, ih]
    · simp [List.isPrefixOf, isMark, ih]

lemma piecesFrom_free (free : mark ∉ piece) :
    piecesFrom [mark] current 0 piece = [current.reverse ++ piece] := by
  induction piece generalizing current with
  | nil => simp [piecesFrom]
  | cons value rest ih =>
    have parts : mark ≠ value ∧ mark ∉ rest := by simpa using free
    rw [piecesFrom]
    simp [List.isPrefixOf, parts.1, ih parts.2]

lemma free_of_mem_piecesFrom (clean : mark ∉ current)
    (member : piece ∈ piecesFrom [mark] current 0 rest) : mark ∉ piece := by
  induction rest generalizing current with
  | nil =>
    simp only [piecesFrom, mem_singleton] at member
    rw [member]
    simpa using clean
  | cons value rest ih =>
    rw [piecesFrom] at member
    split at member
    · rcases List.mem_cons.mp member with same | member
      · rw [same]
        simpa using clean
      · exact ih not_mem_nil member
    · next other =>
      have notMark : mark ≠ value := by
        intro same
        apply other
        simpa [List.isPrefixOf] using same
      exact ih (by simp [notMark, clean]) member

section
variable (single : separator.toList = [mark])
include single

lemma pieces_eq (text : String) :
    pieces separator text = (piecesFrom [mark] [] 0 text.toList).map String.ofList := by
  rw [pieces, single]
  rfl

lemma pieces_append (front rest : String) : pieces separator (front ++ separator ++ rest) =
      pieces separator front ++ pieces separator rest := by
  rw [pieces_eq single, toList_append, toList_append, single, List.append_assoc,
    singleton_append, piecesFrom_append, List.map_append, pieces_eq single,
    pieces_eq single]

lemma pieces_free {text : String} (free : mark ∉ text.toList) : pieces separator text = [text] := by
  rw [pieces_eq single, piecesFrom_free free]
  simp

/-- Cutting undoes joining: no piece holds a mark, so the marks of the text are
those that were put between the pieces. -/
lemma pieces_intercalate {segments : List String} (some : segments ≠ [])
    (free : ∀ segment ∈ segments, mark ∉ segment.toList) :
    pieces separator (String.intercalate separator segments) = segments := by
  induction segments with
  | nil => exact absurd rfl some
  | cons first rest ih =>
    have head := pieces_free single (free first mem_cons_self)
    cases rest with
    | nil => rw [String.intercalate_singleton, head]
    | cons second rest =>
      rw [String.intercalate_cons_cons, pieces_append single, head,
        ih (cons_ne_nil _ _) fun segment member => free segment (mem_cons_of_mem _ member)]
      rfl

lemma free_of_mem_pieces {text piece : String} (member : piece ∈ pieces separator text) :
    mark ∉ piece.toList := by
  rw [pieces_eq single] at member
  rcases List.mem_map.mp member with ⟨chars, found, same⟩
  rw [← same, toList_ofList]
  exact free_of_mem_piecesFrom not_mem_nil found

end

end Name

namespace Identifier

/-- All segments can be told apart.  There may be none. -/
def Clean (name : Identifier) : Prop :=
  ∀ segment ∈ name.segments, Name.IsSegment segment

/-- A name that can be read back from its dotted text. -/
structure Proper (name : Identifier) : Prop where
  some : name.segments ≠ []
  clean : name.Clean

lemma clean_outermost : Clean ⟨[]⟩ := by
  intro segment member
  cases member

lemma Clean.append {scope name : Identifier} (outer : scope.Clean) (inner : name.Clean) :
    (scope.append name).Clean := by
  intro segment member
  rcases List.mem_append.mp member with member | member
  · exact outer segment member
  · exact inner segment member

lemma Proper.append {scope name : Identifier} (outer : scope.Clean) (inner : name.Proper) :
    (scope.append name).Proper where
  some := append_ne_nil_of_right_ne_nil _ inner.some
  clean := outer.append inner.clean

lemma ofDotted_text {name : Identifier} (proper : name.Proper) : ofDotted name.text = name := by
  have cut : Name.pieces "." name.text = name.segments :=
    Name.pieces_intercalate rfl proper.some fun segment member => (proper.clean segment member).2
  have kept : name.segments.filter (· != "") = name.segments := by
    apply List.filter_eq_self.mpr
    intro segment member
    simpa using (proper.clean segment member).1
  unfold ofDotted parse
  rw [cut, kept]
  split
  · next none => exact absurd none proper.some
  · rfl

variable {left right : Identifier}

lemma eq_of_text_eq (properLeft : left.Proper) (properRight : right.Proper)
    (same : left.text = right.text) : left = right := by
  rw [← ofDotted_text properLeft, same, ofDotted_text properRight]

lemma text_eq_iff (properLeft : left.Proper) (properRight : right.Proper) :
    left.text = right.text ↔ left = right := by
  constructor
  · exact eq_of_text_eq properLeft properRight
  · intro same
    rw [same]

lemma proper_or_blank_ofDotted (source : String) :
    (ofDotted source).Proper ∨ ofDotted source = single "" := by
  unfold ofDotted parse
  split
  · exact .inr rfl
  · next filled =>
    left
    refine ⟨filled, ?_⟩
    intro segment member
    rcases List.mem_filter.mp member with ⟨member, filled⟩
    exact ⟨by simpa using filled, Name.free_of_mem_pieces rfl member⟩

lemma proper_ofDotted {source : String} (filled : (ofDotted source).isBlank = false) :
    (ofDotted source).Proper := by
  rcases proper_or_blank_ofDotted source with proper | blank
  · exact proper
  · rw [blank] at filled
    exact absurd filled (by decide)

end Identifier
end MessageSchema
