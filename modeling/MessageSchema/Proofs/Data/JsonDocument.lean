import MessageSchema.Proofs.Data.JsonTokens
import MessageSchema.Proofs.Text.Encoding

namespace MessageSchema.Data

open List
namespace Json

/-!
# Reading a written document

A document is read back as the node of the value that was written.  The scanner
gives the tokens of the value, so what is left is the machine: behind the tokens of
a value it stands where it would stand if the node had been handed to it.  The
statement is about any frames that are open at that time, because the items of a
list and the members of a record are read with one more of them.  The only bound is
the number of frames that the machine accepts.
-/

mutual

/-- The node that a written value is read as. -/
def nodeOf : Value -> Node
  | .null => .null
  | .bool value => .bool value
  | .int value => .number (toString value).toList
  | .double value => .number (doubleLayout.write value).toList
  | .text value => .text (Text.toStringLossy value)
  | .time value => .text value
  | .list items => .list (itemNodes items)
  | .record members => .record (memberNodes members)
  | .table _ => .null

def itemNodes : List Value -> List Node
  | [] => []
  | item :: rest => nodeOf item :: itemNodes rest

def memberNodes : List (String × Value) -> List (String × Node)
  | [] => []
  | (name, value) :: rest => (name, nodeOf value) :: memberNodes rest

end

mutual

/-- How many lists and records are open at once while the value is read. -/
def height : Value -> ℕ
  | .list items => itemsHeight items + 1
  | .record members => membersHeight members + 1
  | _ => 0

def itemsHeight : List Value -> ℕ
  | [] => 0
  | item :: rest => max (height item) (itemsHeight rest)

def membersHeight : List (String × Value) -> ℕ
  | [] => 0
  | (_, value) :: rest => max (height value) (membersHeight rest)

end

open Syntax (Stops stops_cons_iff)

namespace Machine

variable (stop : Fault)

lemma run_token {frames : List Frame} {awaiting : Awaiting} {token : Token}
    {machine : Machine} (rest : List Token) (stepped : step frames awaiting token = some machine) :
    run stop (.running frames awaiting) (token :: rest) = run stop machine rest := by
  rw [run, stepped]

lemma opening_of_lt {frames : List Frame} (room : frames.length < maxDepth) (frame : Frame)
    (awaiting : Awaiting) :
    opening frames frame awaiting = some (.running (frame :: frames) awaiting) :=
  if_pos room

lemma run_name (frames : List Frame) (read : List (String × Node)) {awaiting : Awaiting}
    (awaits : awaiting = .firstName ∨ awaiting = .name) (name : String) (rest : List Token) :
    run stop (.running (.record read "" :: frames) awaiting) (.text name :: .colon :: rest) =
      run stop (.running (.record read name :: frames) .value) rest := by
  rcases awaits with rfl | rfl <;> rfl

mutual

/-- Behind the tokens of a value, the machine has completed its node. -/
lemma run_tokensOf (frames : List Frame) {awaiting : Awaiting}
    (awaits : awaiting = .value ∨ awaiting = .firstItem) (rest : List Token) :
    ∀ {value : Value}, isWritable value = true -> frames.length + height value <= maxDepth ->
      run stop (.running frames awaiting) (tokensOf value ++ rest) =
        run stop (complete frames (nodeOf value)) rest
  | .null, _, _ => by rcases awaits with rfl | rfl <;> rfl
  | .bool _, _, _ => by rcases awaits with rfl | rfl <;> rfl
  | .int _, _, _ => by rcases awaits with rfl | rfl <;> rfl
  | .double _, _, _ => by rcases awaits with rfl | rfl <;> rfl
  | .text _, _, _ => by rcases awaits with rfl | rfl <;> rfl
  | .time _, _, _ => by rcases awaits with rfl | rfl <;> rfl
  | .list items, writable, shallow => by
    have shallow : frames.length + (itemsHeight items + 1) <= maxDepth := shallow
    have stepped :
        step frames awaiting .openList = some (.running (.list [] :: frames) .firstItem) := by
      have opened := opening_of_lt (show frames.length < maxDepth by omega) (.list []) .firstItem
      rcases awaits with rfl | rfl <;> exact opened
    rw [tokensOf, cons_append, run_token stop _ stepped, List.append_assoc]
    exact run_itemTokens frames [] rest (.inl rfl) writable (by omega)
  | .record members, writable, shallow => by
    have shallow : frames.length + (membersHeight members + 1) <= maxDepth := shallow
    have stepped :
        step frames awaiting .openRecord = some
          (.running (.record [] "" :: frames) .firstName) := by
      have opened := opening_of_lt (show frames.length < maxDepth by omega) (.record [] "")
        .firstName
      rcases awaits with rfl | rfl <;> exact opened
    rw [tokensOf, cons_append, run_token stop _ stepped, List.append_assoc]
    exact run_memberTokens frames [] rest (.inl rfl) writable (by omega)

/-- The items of a list, from the bracket or from a comma on. -/
lemma run_itemTokens (frames : List Frame) (read : List Node) {awaiting : Awaiting}
    (rest : List Token) :
    ∀ {items : List Value}, (awaiting = .firstItem ∨ awaiting = .value ∧ items ≠ []) ->
      areWritable items = true -> frames.length + 1 + itemsHeight items <= maxDepth ->
      run stop (.running (.list read :: frames) awaiting)
          (intercalate [.comma] (itemTokens items) ++ ([.closeList] ++ rest)) =
        run stop (complete frames (.list (read.reverse ++ itemNodes items))) rest
  | [], awaits, _, _ => by
    rcases awaits with rfl | ⟨-, some⟩
    · rw [itemNodes, append_nil]
      rfl
    · exact absurd rfl some
  | [item], awaits, writable, shallow => by
    have both := Bool.and_eq_true_iff.1 writable
    have height := shallow
    simp only [itemsHeight] at height
    rw [itemTokens, itemTokens, intercalate_singleton,
      run_tokensOf (.list read :: frames) (awaits.symm.imp_left And.left) _ both.1
        (by rw [length_cons]; omega)]
    rw [itemNodes, itemNodes, ← reverse_cons]
    rfl
  | item :: next :: more, awaits, writable, shallow => by
    have both := Bool.and_eq_true_iff.1 writable
    have height := shallow
    rw [itemsHeight] at height
    have others := run_itemTokens frames (nodeOf item :: read) rest
      (.inr ⟨rfl, cons_ne_nil next more⟩) both.2 (by omega)
    rw [reverse_cons, List.append_assoc] at others
    rw [itemTokens, itemTokens, intercalate_cons_cons, ← itemTokens, List.append_assoc,
      List.append_assoc,
      run_tokensOf (.list read :: frames) (awaits.symm.imp_left And.left) _ both.1
        (by rw [length_cons]; omega)]
    exact others

/-- The members of a record, from the bracket or from a comma on. -/
lemma run_memberTokens (frames : List Frame) (read : List (String × Node))
    {awaiting : Awaiting} (rest : List Token) :
    ∀ {members : List (String × Value)},
      (awaiting = .firstName ∨ awaiting = .name ∧ members ≠ []) ->
      membersAreWritable members = true ->
      frames.length + 1 + membersHeight members <= maxDepth ->
      run stop (.running (.record read "" :: frames) awaiting)
          (intercalate [.comma] (memberTokens members) ++ ([.closeRecord] ++ rest)) =
        run stop (complete frames (.record (read.reverse ++ memberNodes members))) rest
  | [], awaits, _, _ => by
    rcases awaits with rfl | ⟨-, some⟩
    · rw [memberNodes, append_nil]
      rfl
    · exact absurd rfl some
  | [(name, value)], awaits, writable, shallow => by
    have both := Bool.and_eq_true_iff.1 writable
    have height := shallow
    simp only [membersHeight] at height
    rw [memberTokens, memberTokens, intercalate_singleton, cons_append,
      cons_append, run_name stop frames read (awaits.imp_right And.left),
      run_tokensOf (.record read name :: frames) (.inl rfl) _ both.1
        (by rw [length_cons]; omega)]
    rw [memberNodes, memberNodes, ← reverse_cons]
    rfl
  | (name, value) :: next :: more, awaits, writable, shallow => by
    have both := Bool.and_eq_true_iff.1 writable
    have height := shallow
    rw [membersHeight] at height
    have others := run_memberTokens frames ((name, nodeOf value) :: read) rest
      (.inr ⟨rfl, cons_ne_nil next more⟩) both.2 (by omega)
    rw [reverse_cons, List.append_assoc] at others
    rw [memberTokens, memberTokens, intercalate_cons_cons, ← memberTokens,
      List.append_assoc, List.append_assoc, cons_append, cons_append,
      run_name stop frames read (awaits.imp_right And.left),
      run_tokensOf (.record read name :: frames) (.inl rfl) _ both.1
        (by rw [length_cons]; omega)]
    exact others

end

end Machine

/-- The characters of an encoded text are the text. -/
lemma sourceText_utf8 (text : String) : sourceText (Text.utf8 text) = text.toList := by
  rw [sourceText, Text.utf8_eq_bytesOf, Text.decode_bytesOf, List.map_map]
  exact map_id _

section
variable {value : Value} (writable : isWritable value = true)
include writable

lemma scan_document : scan (document value).toList = (tokensOf value, none) := by
  have ending : Stops continuesNumber "\n".toList := stops_cons_iff.2 rfl
  rw [scan, document, String.toList_append, scans_indented 0 writable [] _ ending,
    append_nil]
  change scanOnto (tokensOf value).reverse ['\n'] = _
  rw [scanOnto_space rfl, scanOnto, reverse_reverse]

lemma scan_compact : scan (compact value).toList = (tokensOf value, none) := by
  have scanned := scans_compact writable [] [] rfl
  rw [append_nil, append_nil] at scanned
  rw [scan, scanned, scanOnto, reverse_reverse]

lemma readTokens_tokensOf (shallow : height value <= Machine.maxDepth) :
    readTokens (tokensOf value) none = .ok (nodeOf value, []) := by
  have run := Machine.run_tokensOf .truncated [] (.inl rfl) [] writable
    (by rw [length_nil, Nat.zero_add]; exact shallow)
  rwa [append_nil] at run

lemma readFirst_document (shallow : height value <= Machine.maxDepth) :
    readFirst (Text.utf8 (document value)) = .ok (nodeOf value) := by
  rw [readFirst, sourceText_utf8, scan_document writable]
  exact congrArg (Except.map Prod.fst) (readTokens_tokensOf writable shallow)

/-- So is a value that was written without blanks, and nothing else is there. -/
lemma readWhole_compact (shallow : height value <= Machine.maxDepth) :
    readWhole (Text.utf8 (compact value)) = .ok (nodeOf value) := by
  rw [readWhole, sourceText_utf8, scan_compact writable]
  dsimp only
  rw [readTokens_tokensOf writable shallow]
  rfl

end

end Json
end MessageSchema.Data
