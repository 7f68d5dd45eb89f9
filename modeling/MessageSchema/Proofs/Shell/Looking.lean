import Mathlib.Tactic.Lemma
import MessageSchema.Proofs.Files.Confinement
import MessageSchema.Shell.Commands
import MessageSchema.Shell.World

namespace MessageSchema.Shell

/-!
# Programs that only look around

Most of what a command does leaves the files as they are: it reads, it asks for the
environment, and it talks to the user.  What such a program ends with depends on the
surroundings only, and not on what has been said before.
-/

/-- The action changes no files. -/
def Action.IsQuiet : Action -> Prop
  | .write _ _ => False
  | .makeDirectories _ => False
  | _ => True

/-- All actions that a program asks for change no files. -/
inductive Program.Quiet {α : Type} : Program α -> Prop where
  | done (result : α) : Quiet (.done result)
  | ask {action : Action} {next : action.Answer -> Program α} (quiet : action.IsQuiet)
      (rest : ∀ answer, Quiet (next answer)) : Quiet (.ask action next)

/-- The second of two surroundings differs from the first in what was said. -/
def World.SaysMore (before after : World) : Prop :=
  ∃ printed complaints, after = { before with printed, complaints }

lemma World.SaysMore.refl (world : World) : world.SaysMore world :=
  ⟨world.printed, world.complaints, rfl⟩

variable {α β : Type}

namespace Program

lemma run_bind (program : Program α) (next : α -> Program β) (world : World) :
    (program >>= next).run world = (next (program.run world).1).run (program.run world).2 := by
  induction program generalizing world with
  | done result => rfl
  | ask action rest ih => exact ih _ _

lemma Quiet.bind {program : Program α} {next : α -> Program β} (first : program.Quiet)
    (second : ∀ result, (next result).Quiet) : (program >>= next).Quiet := by
  induction first with
  | done result => exact second result
  | ask quiet rest ih => exact .ask quiet ih

lemma quiet_perform {action : Action} (quiet : action.IsQuiet) : (perform action).Quiet :=
  .ask quiet .done

end Program

lemma World.perform_of_quiet {action : Action} (quiet : action.IsQuiet) {before after : World}
    (more : before.SaysMore after) : (after.perform action).1 = (before.perform action).1 ∧
      before.SaysMore (after.perform action).2 := by
  rcases more with ⟨printed, complaints, rfl⟩
  have same (path : String) :
      World.entry { before with printed, complaints } path = before.entry path := rfl
  cases action with
  | write path content => exact quiet.elim
  | makeDirectories path => exact quiet.elim
  | inspect path =>
    rw [World.perform, World.perform, same]
    cases before.entry path <;> exact ⟨rfl, _, _, rfl⟩
  | tree path =>
    rw [World.perform, World.perform, same]
    cases before.entry path <;> exact ⟨rfl, _, _, rfl⟩
  | _ => exact ⟨rfl, _, _, rfl⟩

/-- A quiet program ends the same way in surroundings in which more was said, and leaves the
files as they were. -/
lemma Program.Quiet.run {program : Program α} (quiet : program.Quiet) {before after : World}
    (more : before.SaysMore after) :
    (program.run after).1 = (program.run before).1 ∧ before.SaysMore (program.run after).2 := by
  induction quiet generalizing before after with
  | done result => exact ⟨rfl, more⟩
  | @ask action next quiet rest ih =>
    have here := World.perform_of_quiet quiet more
    have alone := World.perform_of_quiet quiet (.refl before)
    change ((next (after.perform action).1).run (after.perform action).2).1 =
        ((next (before.perform action).1).run (before.perform action).2).1 ∧
      before.SaysMore ((next (after.perform action).1).run (after.perform action).2).2
    rw [here.1]
    have started := ih (before.perform action).1 here.2
    exact ⟨started.1.trans (ih (before.perform action).1 alone.2).1.symm, started.2⟩

namespace Attempt

lemma quiet_pure (value : α) : (pure value : Attempt α).run.Quiet :=
  .done _

lemma quiet_bind {attempt : Attempt α} {next : α -> Attempt β} (first : attempt.run.Quiet)
    (second : ∀ value, (next value).run.Quiet) : (attempt >>= next).run.Quiet := by
  refine Program.Quiet.bind first fun ended => ?_
  cases ended with
  | ok value => exact second value
  | error message => exact .done _

lemma quiet_lift {program : Program α} (quiet : program.Quiet) :
    (liftM program : Attempt α).run.Quiet :=
  .bind quiet fun _ => .done _

lemma quiet_orEnd {ε : Type} (message : ε -> String) (result : Except ε α) :
    (orEnd message result).run.Quiet := by
  cases result with
  | ok value => exact .done _
  | error error => exact .done _

end Attempt

open Attempt

lemma quiet_settingsPath (options : Options) : (settingsPath options).Quiet := by
  unfold settingsPath
  split
  · exact .done _
  · refine .bind (Program.quiet_perform trivial) fun found => ?_
    cases found <;> exact .done _

lemma quiet_loadSettings (options : Options) : (loadSettings options).run.Quiet := by
  unfold loadSettings
  refine quiet_bind (quiet_lift (quiet_settingsPath options)) fun path => ?_
  have aliased (settings : Settings) := quiet_bind
    (quiet_orEnd AliasFault.message (options.aliases.mapM aliasOf)) fun aliases =>
      quiet_pure { settings with
        aliases := settings.aliases ++ aliases
        outer := if options.outer = "" then settings.outer else options.outer }
  dsimp only
  split
  · exact quiet_bind (quiet_pure _) aliased
  · refine quiet_bind (quiet_lift (Program.quiet_perform trivial)) fun bytes => ?_
    exact quiet_bind (quiet_orEnd _ _) fun _ => quiet_bind (quiet_orEnd _ _) aliased

lemma quiet_firstExisting (paths : List String) : (firstExisting paths).Quiet := by
  induction paths with
  | nil => exact .done _
  | cons path paths ih =>
    refine .bind (Program.quiet_perform trivial) fun found => ?_
    cases found with
    | ok => exact .done _
    | error => exact ih

lemma quiet_locatePlugin (searchPath language : String) :
    (locatePlugin searchPath language).Quiet := by
  have inside (searchPath : String) : (locateIn searchPath language).Quiet := by
    unfold locateIn
    split
    · exact .done _
    · refine .bind (quiet_firstExisting _) fun found => ?_
      cases found <;> exact .done _
  unfold locatePlugin
  split
  · exact .bind (Program.quiet_perform trivial) inside
  · exact inside searchPath

/-- The name of a language becomes part of a path, which is cleaned before it is looked at.  A
language with slashes leads out of the only directory of the search path. -/
theorem language_leads_out_of_search_path :
    let world := World.fresh.install "evil.wasm" (.bytes [])
    ((locatePlugin "p" "x/../../evil").run world).1.toOption = some "evil.wasm" ∧
      directories "p" = ["p"] ∧
      Files.components "evil.wasm" ≠ Files.components "p" ++ [pluginName "x/../../evil"] := by
  decide +kernel

lemma quiet_compileFile (naming : NamingOptions) (verbose : Bool) (path : String) :
    (compileFile naming verbose path).Quiet := by
  unfold compileFile
  refine .bind (Program.quiet_perform trivial) fun source => ?_
  cases source with
  | error refusal => exact .bind (Program.quiet_perform trivial) fun _ => .done _
  | ok source =>
    have told {text : String} : (complain text).Quiet := Program.quiet_perform trivial
    dsimp only
    rcases compileSource naming source with ⟨events, diagnosis | compiled⟩ <;> cases verbose
    · exact .bind told fun _ => .done _
    · exact .bind told fun _ => .bind told fun _ => .done _
    · exact .done _
    · exact .bind told fun _ => .done _

end MessageSchema.Shell
