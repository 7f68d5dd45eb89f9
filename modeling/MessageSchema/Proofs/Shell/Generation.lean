import MessageSchema.Proofs.Plugin.Running
import MessageSchema.Proofs.Shell.Looking

namespace MessageSchema.Shell

/-!
# What a failing code generator leaves behind

The command that generates code looks around until it has a response without error and with
valid files.  Up to that point whatever ends it leaves the files as they were.  Only the
lowest byte of the plugin's status is looked at, so a status past it passes for success.
-/

open Plugin (OutputFile Response)

/-- Unless something allows it to go on, an attempt fails and leaves the files as they were. -/
def Held (allowed : Prop) (before after : World) (attempt : Attempt Nat) : Prop :=
  allowed ∨ before.SaysMore (attempt.run.run after).2 ∧
    ∀ status, (attempt.run.run after).1 = .ok status -> status = 1

namespace Held

variable {α ε : Type} {allowed : Prop} {before after : World}

lemma throw (more : before.SaysMore after) (message : String) :
    Held allowed before after (throw message) :=
  .inr ⟨more, fun _ same => by cases same⟩

lemma fail (more : before.SaysMore after) : Held allowed before after (return 1) :=
  .inr ⟨more, fun _ same => (Except.ok.inj same).symm⟩

lemma bind {attempt : Attempt α} {next : α -> Attempt Nat} (quiet : attempt.run.Quiet)
    (more : before.SaysMore after) (goesOn : ∀ value, (attempt.run.run before).1 = .ok value ->
      ∀ later, before.SaysMore later -> Held allowed before later (next value)) :
    Held allowed before after (attempt >>= next) := by
  have ended := quiet.run more
  have split := Program.run_bind attempt.run (ExceptT.bindCont next) after
  change allowed ∨ before.SaysMore ((attempt.run >>= ExceptT.bindCont next).run after).2 ∧
    ∀ status, ((attempt.run >>= ExceptT.bindCont next).run after).1 = .ok status -> status = 1
  rw [split]
  cases result : (attempt.run.run after).1 with
  | error message => exact .inr ⟨ended.2, fun _ same => by cases same⟩
  | ok value => exact goesOn value (ended.1 ▸ result) _ ended.2

lemma lift {program : Program α} {next : α -> Attempt Nat} (quiet : program.Quiet)
    (more : before.SaysMore after) (goesOn : ∀ later, before.SaysMore later ->
      Held allowed before later (next (program.run before).1)) :
    Held allowed before after (liftM program >>= next) := by
  refine bind (Attempt.quiet_lift quiet) more fun value ended later saysMore => ?_
  have same : ((liftM program : Attempt α).run.run before).1 = .ok (program.run before).1 :=
    congrArg Prod.fst (Program.run_bind program
      (fun value => .done (Except.ok value : Except String α)) before)
  rw [same] at ended
  cases ended
  exact goesOn later saysMore

lemma orEnd {message : ε -> String} {result : Except ε α} {next : α -> Attempt Nat}
    (more : before.SaysMore after)
    (goesOn : ∀ value, result = .ok value -> Held allowed before after (next value)) :
    Held allowed before after (orEnd message result >>= next) := by
  cases result with
  | error error => exact throw more (message error)
  | ok value => exact goesOn value rfl

end Held

/-- A run of the command that generates code up to the point where it writes: the schema
compiles, the plugin ends with a status, and the response has no error and some files, all of
which are valid. -/
structure Generates (options : Options) (path : String) (world : World) (status : Nat)
    (files : List OutputFile) : Prop where
  reaches : ∃ settings source compiled plugin loaded generator slot memory answer,
    ((loadSettings options).run.run world).1 = .ok settings ∧
    world.read path = .ok source ∧ (compileSource (naming settings) source).2 = .ok compiled ∧
    let language := firstGiven [options.language, settings.language, "java"]
    let search := firstGiven [options.pluginPath, settings.pluginPath]
    ((locatePlugin search language).run world).1 = .ok plugin ∧ world.load plugin = .ok loaded ∧
    loaded.generator = .ok generator ∧
    generator.Ends (Text.utf8 (Plugin.Request.json ⟨language, Export.describe compiled, .empty⟩))
      slot status memory ∧
    Response.ofMemory memory slot = .ok answer ∧ answer.error = "" ∧ answer.files = some files
  some : files ≠ []
  valid : ∀ file ∈ files, file.fault? = none

lemma compileFile_eq_some {naming : NamingOptions} {verbose : Bool} {path : String}
    {world : World} {compiled : Compiled}
    (ended : ((compileFile naming verbose path).run world).1 = some compiled) :
    ∃ source, world.read path = .ok source ∧ (compileSource naming source).2 = .ok compiled := by
  have looked : (read path).run world = (world.read path, world) := rfl
  unfold compileFile at ended
  rw [Program.run_bind, looked] at ended
  cases found : world.read path with
  | error refusal =>
    rw [found] at ended
    cases ended
  | ok source =>
    rw [found] at ended
    refine ⟨source, rfl, ?_⟩
    dsimp only at ended
    generalize compileSource naming source = result at ended ⊢
    rcases result with ⟨events, diagnosis | result⟩ <;> cases verbose <;> cases ended <;> rfl

/-- A response stays without an error exactly if it has none and the lowest byte of the status
is zero. -/
lemma error_withStatus_eq_empty_iff (answer : Response) (status : Nat) :
    (answer.withStatus status).error = "" ↔ status % 256 = 0 ∧ answer.error = "" := by
  unfold Response.withStatus
  split
  · next failed =>
    refine iff_of_false (fun empty => ?_) fun both => failed.1 both.1
    rw [String.append_eq_empty_iff] at empty
    exact absurd empty.1 (by decide)
  · next passed =>
    constructor
    · intro empty
      refine ⟨Decidable.byContradiction fun failed => passed ⟨failed, empty⟩, empty⟩
    · exact And.right

lemma files_withStatus (answer : Response) (status : Nat) :
    (answer.withStatus status).files = answer.files := by
  unfold Response.withStatus
  split <;> rfl

lemma held_codegenCommand (options : Options) (paths : List String) (world : World) :
    Held (∃ path status files, paths = [path] ∧ Generates options path world status files ∧
      status % 256 = 0) world world (codegenCommand options paths) := by
  unfold codegenCommand
  split
  · next path =>
    refine .bind (quiet_loadSettings options) (.refl world) fun settings isSettings now more => ?_
    dsimp only
    split
    · exact .throw more _
    · refine .lift (quiet_locatePlugin _ _) more fun now more => ?_
      refine .orEnd more fun plugin located => ?_
      refine .lift (quiet_compileFile _ _ _) more fun now more => ?_
      split
      · exact .fail more
      · next compiled isCompiled =>
        rcases compileFile_eq_some isCompiled with ⟨source, read, isSource⟩
        refine .bind (Program.quiet_perform trivial) more fun loaded load now more => ?_
        refine .orEnd more fun generator isGenerator => ?_
        refine .orEnd more fun response answered => ?_
        rcases Plugin.Generator.respond_eq_ok_iff.mp answered with
          ⟨slot, status, memory, answer, ends, found, isResponse⟩
        split
        · exact .throw more _
        · next clean =>
          split
          · exact .throw more _
          · next filled =>
            have both := (error_withStatus_eq_empty_iff answer status).mp
              (isResponse ▸ Decidable.not_not.mp clean)
            rw [isResponse, files_withStatus] at filled ⊢
            cases isFiles : answer.files with
            | none => exact absurd (isFiles ▸ rfl) filled
            | some files =>
              rw [isFiles, Option.getD_some] at filled
              rw [Option.getD_some]
              cases faulty : files.findSome? fun file => file.fault?.map (·.message file.path) with
              | some message =>
                rw [writeGenerated, faulty]
                exact .throw more message
              | none =>
                refine .inl ⟨path, status, files, rfl, ⟨⟨settings, source, compiled, plugin, loaded,
                  generator, slot, memory, answer, isSettings, read, isSource, located, load,
                  isGenerator, ends, found, both.2, isFiles⟩, ?_, fun file member => ?_⟩, both.1⟩
                · exact fun empty => filled (empty ▸ rfl)
                · exact Option.map_eq_none_iff.mp (List.findSome?_eq_none_iff.mp faulty file member)
  · exact .throw (.refl world) _

/-- A failing code generator produces no files.  The command leaves the files as they were
and ends with the status one, unless the schema compiled, the plugin ended with a status whose
lowest byte is zero, and the response has no error and some files, which are all valid.  If
the status of the plugin fits in a byte, then it was zero. -/
theorem failing_plugin_leaves_files (options : Options) (paths : List String) (world : World) :
    (((conclude (codegenCommand options paths)).run world).1 = 1 ∧
      ((conclude (codegenCommand options paths)).run world).2.root = world.root) ∨
    ∃ path status files, paths = [path] ∧ Generates options path world status files ∧
      status % 256 = 0 ∧ (status < 256 -> status = 0) := by
  rcases held_codegenCommand options paths world with
    ⟨path, status, files, isPath, generates, low⟩ | ⟨⟨printed, complaints, same⟩, failed⟩
  · refine .inr ⟨path, status, files, isPath, generates, low, fun fits => ?_⟩
    rwa [Nat.mod_eq_of_lt fits] at low
  · left
    rw [conclude, Program.run_bind, same]
    cases ended : ((codegenCommand options paths).run.run world).1 with
    | error message => exact ⟨rfl, rfl⟩
    | ok status => exact ⟨failed status ended, rfl⟩

open Plugin (Memory wordBytes) in
/-- Surroundings with an empty schema and a plugin that answers with one file, and a status. -/
def withPlugin (status : Nat) : World :=
  let response := Text.utf8 (Plugin.Response.json ⟨"", some [⟨some ["x"], "y"⟩]⟩)
  let loaded : Plugin.Module := {
    memory := (Memory.zeros 65536).write? 1024 (wordBytes response.length ++ response)
    allocate := some fun memory size => .ok (if size = 4 then 16 else 4096, memory)
    generate := some fun memory _ _ slot =>
      (memory.write? slot (wordBytes 1024)).elim (.error "") fun memory => .ok (status, memory) }
  (World.fresh.install "a.proto" (.bytes [])).install "p/fudgeproto-codegen-java.wasm"
    (.plugin (.ok loaded))

theorem high_status_is_taken_for_success :
    let ended := (conclude (codegenCommand { output := "out", pluginPath := "p" } ["a.proto"])).run
      (withPlugin 256)
    ended.1 = 0 ∧ (withPlugin 256).written ended.2 = [("out/x", [121])] := by
  decide +kernel

end MessageSchema.Shell
