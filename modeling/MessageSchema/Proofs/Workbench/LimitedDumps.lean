import Mathlib.Tactic.Lemma
import MessageSchema.Workbench.Dump

namespace MessageSchema

/-!
Writers of limited room.

The visit of a tree goes on behind a piece that the writer refuses, and so a later piece could
well be short enough.  But the encoder hands on the pieces of the lines of the tree one after
the other, and nothing behind the refusal.  So what the writer has taken is the beginning of
the report, and it refuses a piece exactly if the report is longer than the limit.  A
compilation ends with the refusal of a piece, or as it does with a writer without limit.
-/

namespace Report

/-- What a writer with a limit does to a text: it refuses something exactly if the text
is too long, and takes a beginning of it, or else all of it. -/
structure CutAt (limit : Nat) (text taken : String) (refused : Prop) : Prop where
  refused_iff : refused ↔ limit < text.utf8ByteSize
  front : ∃ rest, text = taken ++ rest
  complete : ¬ refused -> taken = text

/-- A report of lines is written up to a limit. -/
def WrittenUpTo (limit : Nat) (lines : List Line) (report : Writer -> Encoder) : Prop :=
  let written := report ⟨some limit, []⟩
  CutAt limit (render lines) written.writer.text (written.failed = true)

variable {limit : Nat} {taken : List String}

namespace Writer

lemma text_append (room : Option Nat) (more taken : List String) :
    text ⟨room, more ++ taken⟩ = text ⟨room, taken⟩ ++ String.join more.reverse := by
  rw [text, List.reverse_append, String.join_append, text]

lemma size_eq (writer : Writer) : writer.size = writer.text.utf8ByteSize := by
  rcases writer with ⟨room, taken⟩
  induction taken with
  | nil => rfl
  | cons piece rest ih =>
    rw [← List.singleton_append, text_append, String.utf8ByteSize_append, ← ih, Nat.add_comm]
    simp [size]

lemma size_le_of_suffix {fewer : List String} (fewer_taken : fewer <:+ taken)
    (room other : Option Nat) :
    size ⟨room, fewer⟩ <= size ⟨other, taken⟩ := by
  rcases fewer_taken with ⟨more, rfl⟩
  rw [size_eq, size_eq, text_append, String.utf8ByteSize_append]
  exact Nat.le_add_right _ _

end Writer

/-! ## A visit writes lines -/

namespace Encoder

variable {encoder : Encoder}

lemma writeAll_append (encoder : Encoder) (pieces more : List String) :
    encoder.writeAll (pieces ++ more) = (encoder.writeAll pieces).writeAll more :=
  List.foldl_append

lemma writeAll_failed (failed : encoder.failed = true) (pieces : List String) :
    encoder.writeAll pieces = encoder := by
  induction pieces with
  | nil => rfl
  | cons piece rest ih =>
    have same : encoder.write piece = encoder := if_pos failed
    rw [writeAll, List.foldl_cons, same]
    exact ih

lemma write_indent (encoder : Encoder) (indent : Nat) (piece : String) :
    write { encoder with indent := indent } piece =
      { encoder.write piece with indent := indent } := by
  rw [write, write]
  split
  · rfl
  · dsimp only
    split <;> rfl

/-- Pieces are written alike at every indentation. -/
lemma writeAll_indent (encoder : Encoder) (indent : Nat) (pieces : List String) :
    writeAll { encoder with indent := indent } pieces =
      { encoder.writeAll pieces with indent := indent } := by
  induction pieces generalizing encoder with
  | nil => rfl
  | cons piece rest ih =>
    rw [writeAll, List.foldl_cons, write_indent]
    exact ih _

lemma indent_writeAll (encoder : Encoder) (pieces : List String) :
    (encoder.writeAll pieces).indent = encoder.indent := by
  have same := congrArg Encoder.indent (writeAll_indent encoder encoder.indent pieces)
  exact same

/-- What a visit does: it writes lines, which depend on the indentation only. -/
def Writes (visit : Encoder -> Encoder) (lines : Nat -> List Line) : Prop :=
  ∀ encoder, visit encoder = encoder.writeAll (piecesOf (lines encoder.indent))

lemma writes_line (text : String) : Writes (line · text) fun indent => [⟨indent, text⟩] := by
  intro encoder
  rw [piecesOf, List.flatMap_singleton]
  rfl

lemma Writes.then {first second : Encoder -> Encoder} {lines more : Nat -> List Line}
    (writes : Writes first lines) (writesMore : Writes second more) :
    Writes (fun encoder => second (first encoder)) fun indent => lines indent ++ more indent := by
  intro encoder
  change second (first encoder) = _
  rw [piecesOf, List.flatMap_append, writeAll_append, writesMore, writes, indent_writeAll]
  rfl

lemma Writes.inside {visit : Encoder -> Encoder} {lines : Nat -> List Line}
    (writes : Writes visit lines) :
    Writes (Encoder.inside · visit) fun indent => lines (indent + 1) := by
  intro encoder
  change Encoder.inside encoder visit = _
  rw [Encoder.inside, writes, writeAll_indent]
  dsimp only
  rw [Nat.add_sub_cancel]
  exact (writeAll_indent encoder encoder.indent _).symm

lemma writes_foldl {α : Type} {visit : Encoder -> α -> Encoder} {lines : α -> Nat -> List Line}
    (writes : ∀ part, Writes (visit · part) (lines part)) (parts : List α) :
    Writes (parts.foldl visit) fun indent => parts.flatMap (lines · indent) := by
  induction parts with
  | nil => exact fun _ => rfl
  | cons part rest ih => exact (writes part).then ih

lemma writes_lines {α : Type} (text : α -> String) (parts : List α) :
    Writes (parts.foldl fun encoder part => encoder.line (text part))
      fun indent => parts.map fun part => ⟨indent, text part⟩ := by
  intro encoder
  dsimp only
  rw [List.map_eq_flatMap]
  exact writes_foldl (fun part => writes_line (text part)) parts encoder

lemma writeAll_unlimited (taken pieces : List String) : writeAll ⟨⟨none, taken⟩, 0, false⟩ pieces =
      ⟨⟨none, pieces.reverse ++ taken⟩, 0, false⟩ := by
  induction pieces generalizing taken with
  | nil => rfl
  | cons piece rest ih =>
    rw [List.reverse_cons, List.append_assoc]
    exact ih (piece :: taken)

/-- A writer with a limit takes what one without limit takes, if that is not too much,
and otherwise refuses something behind a part of it. -/
lemma writeAll_limited (within : Writer.size ⟨some limit, taken⟩ <= limit) (pieces : List String) :
    (Writer.size ⟨none, pieces.reverse ++ taken⟩ <= limit ∧
      writeAll ⟨⟨some limit, taken⟩, 0, false⟩ pieces =
        ⟨⟨some limit, pieces.reverse ++ taken⟩, 0, false⟩) ∨
    limit < Writer.size ⟨none, pieces.reverse ++ taken⟩ ∧ ∃ fewer,
      writeAll ⟨⟨some limit, taken⟩, 0, false⟩ pieces = ⟨⟨some limit, fewer⟩, 0, true⟩ ∧
        fewer <:+ pieces.reverse ++ taken := by
  induction pieces generalizing taken with
  | nil => exact .inl ⟨within, rfl⟩
  | cons piece rest ih =>
    rw [List.reverse_cons, List.append_assoc]
    have longer : Writer.size ⟨some limit, piece :: taken⟩ =
        Writer.size ⟨some limit, taken⟩ + piece.utf8ByteSize := Nat.add_comm _ _
    rw [writeAll, List.foldl_cons, write]
    by_cases fits : limit < Writer.size ⟨some limit, taken⟩ + piece.utf8ByteSize
    · have refused : Writer.write ⟨some limit, taken⟩ piece = none := if_pos fits
      have inside : [piece] ++ taken <:+ rest.reverse ++ ([piece] ++ taken) :=
        List.suffix_append _ _
      refine .inr ⟨?_, taken, ?_, (List.suffix_append [piece] taken).trans inside⟩
      · exact Nat.lt_of_lt_of_le (longer ▸ fits) (Writer.size_le_of_suffix inside _ _)
      · rw [refused]
        exact writeAll_failed rfl rest
    · have accepted : Writer.write ⟨some limit, taken⟩ piece =
          some ⟨some limit, piece :: taken⟩ := if_neg fits
      rw [accepted]
      exact ih (longer ▸ Nat.not_lt.mp fits)

/-- While nothing is refused, the next report could as well begin where the last one ended. -/
lemma fresh_writeAll {writer : Writer} {pieces : List String}
    (accepted : ¬ (writeAll { writer } pieces).failed = true) :
    { writer := (writeAll { writer } pieces).writer } = writeAll { writer } pieces := by
  have outer := indent_writeAll { writer } pieces
  rw [Bool.not_eq_true] at accepted
  rcases equal : writeAll { writer } pieces with ⟨after, indent, failed⟩
  rw [equal] at outer accepted
  rw [show indent = 0 from outer, show failed = false from accepted]

end Encoder

/-- The report consists of these pieces, whoever takes them. -/
def IsReport (report : Writer -> Encoder) (pieces : List String) : Prop :=
  ∀ writer, report writer = Encoder.writeAll { writer } pieces

lemma IsReport.andThen {first second : Writer -> Encoder} {pieces more : List String}
    (isFirst : IsReport first pieces) (isSecond : IsReport second more) :
    IsReport (fun writer => (first writer).andThen second) (pieces ++ more) := by
  intro writer
  dsimp only
  rw [isFirst, Encoder.writeAll_append, Encoder.andThen, isSecond]
  by_cases failed : (Encoder.writeAll { writer } pieces).failed = true
  · rw [if_pos failed, Encoder.writeAll_failed failed]
  · rw [if_neg failed, Encoder.fresh_writeAll failed]

lemma CutAt.whole {writer : Writer} {refused : Prop} (short : writer.size <= limit)
    (accepted : ¬ refused) : CutAt limit writer.text writer.text refused := by
  rw [Writer.size_eq] at short
  refine ⟨?_, ⟨"", String.append_empty.symm⟩, fun _ => rfl⟩
  exact iff_of_false accepted (Nat.not_lt.mpr short)

lemma CutAt.part {writer limited : Writer} {refused : Prop}
    (long : limit < writer.size) (isRefused : refused) (isFront : limited.taken <:+ writer.taken) :
    CutAt limit writer.text limited.text refused := by
  rw [Writer.size_eq] at long
  rcases isFront with ⟨more, isMore⟩
  refine ⟨iff_of_true isRefused long, ⟨String.join more.reverse, ?_⟩, fun accepted => ?_⟩
  · rw [Writer.text, ← isMore]
    exact Writer.text_append none more limited.taken
  · exact absurd isRefused accepted

lemma writtenUpTo (limit : Nat) {lines : List Line} {report : Writer -> Encoder}
    (isReport : IsReport report (piecesOf lines)) : WrittenUpTo limit lines report := by
  have whole : render lines = Writer.text ⟨none, (piecesOf lines).reverse ++ []⟩ := by
    rw [Writer.text, List.append_nil, List.reverse_reverse, render]
  rw [WrittenUpTo, whole, isReport]
  have within : Writer.size ⟨some limit, []⟩ <= limit := Nat.zero_le limit
  rcases Encoder.writeAll_limited within (piecesOf lines) with
    ⟨short, written⟩ | ⟨long, fewer, written, isFront⟩
  · rw [written]
    exact .whole short Bool.noConfusion
  · rw [written]
    exact .part long rfl isFront

lemma isReport_writeIndex {δ : Type} (table : SymbolTable δ) :
    IsReport (writeIndex table) (piecesOf (indexLines table)) := fun writer =>
  Encoder.writes_lines entryText table.listing { writer }

lemma isReport_writeReferences (references : References) :
    IsReport (writeReferences references) (piecesOf (referenceLines references)) := fun writer =>
  Encoder.writes_lines closureText references.closures.entries { writer }

end Report

namespace Workbench

open Report (Writer Encoder CutAt WrittenUpTo IsReport)

lemma writes_visit (store : Store) (depth : Nat) (key : Key) :
    Encoder.Writes (store.visit depth · key) (store.treeLines depth · key) := by
  induction depth generalizing key with
  | zero => exact fun _ => rfl
  | succ depth ih =>
    intro encoder
    dsimp only
    rw [Store.visit, Store.treeLines]
    rcases store.node key with enum | field | message | scope
    · exact ((Encoder.writes_line _).then (Encoder.writes_lines _ enum.items).inside) encoder
    · exact Encoder.writes_line _ encoder
    · dsimp only
      split
      · exact Encoder.writes_line _ encoder
      · exact ((Encoder.writes_line _).then (Encoder.writes_foldl ih _).inside) encoder
    · dsimp only
      split
      · exact Encoder.writes_foldl ih _ encoder
      · exact ((Encoder.writes_line _).then (Encoder.writes_foldl ih _).inside) encoder

lemma isReport_writeTree (store : Store) (root : Option Key) :
    IsReport (store.writeTree root) (Report.piecesOf (store.tree root)) := by
  intro writer
  cases root with
  | none => exact Encoder.writes_line _ { writer }
  | some key => exact writes_visit store store.depth key { writer }

lemma isReport_writePicture (store : Store) (runner : Runner) (root : Key) :
    ∃ pieces, IsReport (store.writePicture runner root) pieces := by
  have tree := isReport_writeTree store (some root)
  unfold Store.writePicture
  cases runner.stage with
  | index => exact ⟨_, tree.andThen (Report.isReport_writeIndex _)⟩
  | depend => exact ⟨_, tree.andThen (Report.isReport_writeReferences _)⟩
  | _ => exact ⟨_, tree⟩

/-- A compilation with a limited writer and the same one with an unlimited writer, both of
which have taken some pieces before. -/
structure Limited (limit : Nat) (taken : List String) (free limited : Dumped) : Prop where
  grows : taken <:+ free.writer.taken
  ends : Writer.size ⟨some limit, taken⟩ <= limit ->
    (free.writer.size <= limit ∧ free.ending ≠ .refused ∧
      limited = { free with writer := ⟨some limit, free.writer.taken⟩ }) ∨
    (limit < free.writer.size ∧ limited.ending = .refused ∧
      limited.writer.taken <:+ free.writer.taken)

variable {limit : Nat} {taken : List String}

lemma Limited.done (log : List LogEntry) {ending : Ending} (store : Store)
    (regular : ending ≠ .refused) : Limited limit taken ⟨⟨none, taken⟩, log, ending, store⟩
      ⟨⟨some limit, taken⟩, log, ending, store⟩ :=
  ⟨List.suffix_refl _, fun within => .inl ⟨within, regular, rfl⟩⟩

lemma limited_dump (log : List LogEntry) (heading : String) {picture : Writer -> Encoder}
    {drawn : List String} (isReport : IsReport picture drawn) (store : Store)
    {next : Writer -> Dumped}
    (goesOn : ∀ taken, Limited limit taken (next ⟨none, taken⟩) (next ⟨some limit, taken⟩)) :
    Limited limit taken (dump log heading picture store next ⟨none, taken⟩)
      (dump log heading picture store next ⟨some limit, taken⟩) := by
  have opening : IsReport (Encoder.write { writer := · } (heading ++ "\n")) [heading ++ "\n"] :=
    fun _ => rfl
  have writes (writer : Writer) : (Encoder.write { writer } (heading ++ "\n")).andThen picture =
      Encoder.writeAll { writer } ([heading ++ "\n"] ++ drawn) := opening.andThen isReport writer
  generalize [heading ++ "\n"] ++ drawn = pieces at writes
  rw [dump, writes, Encoder.writeAll_unlimited]
  have rest := goesOn (pieces.reverse ++ taken)
  refine ⟨(List.suffix_append _ _).trans rest.grows, fun within => ?_⟩
  rw [dump, writes]
  rcases Encoder.writeAll_limited within pieces with
    ⟨short, written⟩ | ⟨long, fewer, written, isFront⟩
  · rw [written]
    rcases rest.ends short with ⟨fits, regular, same⟩ | ⟨long, refused, front⟩
    · exact .inl ⟨fits, regular, by dsimp only; rw [same]; rfl⟩
    · exact .inr ⟨long, refused, front⟩
  · rw [written]
    exact .inr ⟨Nat.lt_of_lt_of_le long (Writer.size_le_of_suffix rest.grows _ _), rfl,
      isFront.trans rest.grows⟩

lemma limited_dumpStages (root table : Key) (runners : List Key) (store : Store)
    (taken : List String) : Limited limit taken (dumpStages root table runners store ⟨none, taken⟩)
      (dumpStages root table runners store ⟨some limit, taken⟩) := by
  induction runners generalizing store taken with
  | nil => exact .done _ _ Ending.noConfusion
  | cons runner rest ih =>
    rw [dumpStages, dumpStages]
    rcases (run runner root).run store with ⟨failure | _, after⟩
    · exact .done _ _ Ending.noConfusion
    · rcases isReport_writePicture after (after.runner runner) root with ⟨_, isReport⟩
      exact limited_dump _ _ isReport _ (ih after)

lemma limited_compileDumping (options : NamingOptions) (root : Key) (store : Store) :
    Limited limit [] (compileDumping options root store ⟨none, []⟩).1
      (compileDumping options root store ⟨some limit, []⟩).1 := by
  rw [compileDumping, compileDumping]
  rcases options.build with error | aliases
  · exact .done _ _ Ending.noConfusion
  dsimp only
  rcases (newAliases aliases >>= newPasses).run store with ⟨failure | passes, ready⟩
  · exact .done _ _ Ending.noConfusion
  · exact limited_dump _ _ (isReport_writeTree ready (some root)) _
      (limited_dumpStages root passes.table passes.runners ready)

lemma passes_compileDumping (options : NamingOptions) (root : Key) (store : Store)
    (writer other : Writer) :
    (compileDumping options root store writer).2 = (compileDumping options root store other).2 := by
  rw [compileDumping, compileDumping]
  rcases options.build with error | aliases
  · rfl
  dsimp only
  rcases (newAliases aliases >>= newPasses).run store with ⟨failure | passes, ready⟩ <;> rfl

/-- Refused writes are reported and leave no holes.  A tree, a symbol table and the
closures of messages are written up to the limit of the writer.  A compilation is cut off
exactly if the pictures that it would write without limit are too long, and otherwise it ends
as it does without limit. -/
theorem refused_writes_are_reported (limit : Nat) :
    (∀ (store : Store) (root : Option Key),
      WrittenUpTo limit (store.tree root) (store.writeTree root)) ∧
    (∀ table : SymbolTable Key,
      WrittenUpTo limit (Report.indexLines table) (Report.writeIndex table)) ∧
    (∀ references : References,
      WrittenUpTo limit (Report.referenceLines references) (Report.writeReferences references)) ∧
    ∀ (options : NamingOptions) (root : Key) (store : Store),
      let free := compileDumping options root store ⟨none, []⟩
      let limited := compileDumping options root store ⟨some limit, []⟩
      CutAt limit free.1.writer.text limited.1.writer.text (limited.1.ending = .refused) ∧
        (limited.1.ending ≠ .refused -> limited.1.ending = free.1.ending ∧
          limited.1.log = free.1.log ∧ limited.1.store = free.1.store ∧ limited.2 = free.2) := by
  refine ⟨fun store root => Report.writtenUpTo limit (isReport_writeTree store root),
    fun table => Report.writtenUpTo limit (Report.isReport_writeIndex table),
    fun references => Report.writtenUpTo limit (Report.isReport_writeReferences references),
    fun options root store => ?_⟩
  have within : Writer.size ⟨some limit, []⟩ <= limit := Nat.zero_le limit
  rcases (limited_compileDumping options root store).ends within with
    ⟨short, regular, same⟩ | ⟨long, refused, isFront⟩
  · dsimp only
    rw [same]
    exact ⟨.whole short regular, fun _ => ⟨rfl, rfl, rfl, passes_compileDumping _ _ _ _ _⟩⟩
  · exact ⟨.part long refused isFront, fun accepted => absurd refused accepted⟩

/-- A long item is refused.  The end of its line and the short item behind it would fit, and
are not written either. -/
theorem items_behind_refused_are_not_written :
    let store : Store :=
      { names := #[⟨["E"]⟩], nodes := #[.enum ⟨some 0, [⟨"Circle", 0⟩, ⟨"A", 1⟩]⟩] }
    let written := store.writeTree (some 0) ⟨some 19, []⟩
    written.writer.text = "enum( E )\n\t" ∧
      (written.writer.write "\n").isSome = true ∧ (written.writer.write "A = 1").isSome = true ∧
      CutAt 19 "enum( E )\n\tCircle = 0\n\tA = 1\n" written.writer.text
        (written.failed = true) := by
  intro store written
  refine ⟨by decide +kernel, by decide +kernel, by decide +kernel, ?_⟩
  have whole : Report.render (store.tree (some 0)) = "enum( E )\n\tCircle = 0\n\tA = 1\n" := by
    decide +kernel
  rw [← whole]
  exact (refused_writes_are_reported 19).1 store (some 0)

end Workbench
end MessageSchema
