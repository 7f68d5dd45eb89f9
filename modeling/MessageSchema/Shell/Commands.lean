import MessageSchema.Settings.Read
import MessageSchema.Shell.CommandLine
import MessageSchema.Shell.Program
import MessageSchema.Syntax.Parser

namespace MessageSchema.Shell

/-!
The commands.

A command ends with a status, zero if all went well.  Faults in the user's
wishes end it at once.  A schema that does not compile is reported, and the
others follow; nothing is written unless all compiled.
-/

abbrev Attempt := ExceptT String Program

def orEnd {ε α : Type} (message : ε -> String) : Except ε α -> Attempt α
  | .ok value => return value
  | .error error => throw (message error)

def tell (message : String) : Program Unit :=
  complain ("error: " ++ message ++ "\n")

/-- The status of an attempt.  An attempt that ends early is told about. -/
def conclude (attempt : Attempt Nat) : Program Nat := do
  match ← attempt.run with
  | .ok status => return status
  | .error message =>
    tell message
    return 1

def settingsFile : String := "fudgeproto.toml"

def settingsPath (options : Options) : Program String := do
  if options.config ≠ "" then return options.config
  match ← inspect settingsFile with
  | .ok _ => return settingsFile
  | .error _ => return ""

def loadSettings (options : Options) : Attempt Settings := do
  let path ← settingsPath options
  let settings ←
    if path = "" then pure {}
    else do
      let about (text : String) : String := "config " ++ path ++ ": " ++ text
      let bytes ← orEnd (about ·.message) (← read path)
      orEnd (about ·.message) (Settings.ofBytes bytes)
  let aliases ← orEnd AliasFault.message (options.aliases.mapM aliasOf)
  return { settings with
    aliases := settings.aliases ++ aliases
    outer := if options.outer = "" then settings.outer else options.outer }

def naming (settings : Settings) : NamingOptions :=
  ⟨settings.aliases, settings.outer⟩

def eventText : Event -> String
  | .log entry => entry.render
  | .picture heading lines => String.join (picturePieces heading lines)

/-- A place as it is shown in front of a report, with spaces for tabs. -/
def shownPlace (place : String) : String :=
  String.ofList (place.toList.flatMap fun value =>
    if value = '\t' then [' ', ' ', ' ', ' '] else [value])

inductive Diagnosis where
  | syntactic (position : Syntax.Position) (error : Syntax.Error)
  | semantic (error : CompileError)

def Diagnosis.text (path : String) : Diagnosis -> String
  | syntactic position error =>
    shownPlace (path ++ ":" ++ toString position.line ++ ":" ++ toString position.column ++ ":")
      ++ " " ++ error.render ++ "\n"
  | semantic error => shownPlace (path ++ ":") ++ " " ++ error.render ++ "\n"

def compileSource (naming : NamingOptions) (source : List UInt8) :
    List Event × Except Diagnosis Compiled :=
  match Syntax.parse source with
  | .error error =>
    ([], .error (.syntactic (.ofOffset source error.span.start) error))
  | .ok document =>
    match naming.build with
    | .error error => ([], .error (.semantic error))
    | .ok aliases =>
      let compilation := Compilation.of aliases document
      (compilation.events,
        match compilation.outcome with
        | .error error => .error (.semantic error)
        | .ok compiled => .ok compiled)

def compileFile (naming : NamingOptions) (verbose : Bool) (path : String) :
    Program (Option Compiled) := do
  match ← read path with
  | .error refusal =>
    tell refusal.message
    return none
  | .ok source =>
    let (events, outcome) := compileSource naming source
    if verbose then
      complain (String.join (events.map eventText))
    match outcome with
    | .error diagnosis =>
      complain (diagnosis.text path)
      return none
    | .ok compiled => return some compiled

def compileFiles (naming : NamingOptions) (verbose : Bool) :
    List String -> Program (List (String × Option Compiled))
  | [] => return []
  | path :: paths => do
      let compiled ← compileFile naming verbose path
      let rest ← compileFiles naming verbose paths
      return (path, compiled) :: rest

def prepare (options : Options) (paths : List String) : Attempt (List String × NamingOptions) := do
  let settings ← loadSettings options
  let exclusion ← orEnd PatternFault.message (Exclusion.ofPatterns settings.exclude)
  let files ← orEnd Files.Refusal.message (← schemaFiles exclusion.covers paths)
  if files.isEmpty then throw "No schema files found"
  return (files, naming settings)

def formatOf? (name : String) : Option Export.Format :=
  if name = "text" ∨ name = "fptext" then some .text
  else if name = "json" then some .json
  else if name = "yaml" ∨ name = "yml" then some .yaml
  else none

def separator (format : Export.Format) (path : String) : String :=
  match format with
  | .text => "# " ++ path ++ "\n"
  | .json => ""
  | .yaml => "--- # " ++ path ++ "\n"

def rendered (format : Export.Format) (compiled : List (String × Compiled)) : String :=
  String.join (compiled.map fun (path, schema) =>
    (if compiled.length = 1 then "" else separator format path) ++ format.write (.of schema))

def deliver (path text : String) : Attempt Unit := do
  if path = "" then print text
  else orEnd Files.Refusal.message (← write path (Text.utf8 text))

def compileCommand (options : Options) (paths : List String) : Attempt Nat := do
  match formatOf? options.format with
  | none =>
    throw ("Unsupported output format " ++ Text.quote options.format
      ++ " (choose 'text', 'json' or 'yaml')")
  | some format =>
    let (files, naming) ← prepare options paths
    let results ← compileFiles naming options.verbose files
    match results.mapM fun (path, compiled) => compiled.map (path, ·) with
    | none => return 1
    | some compiled =>
      deliver options.output (rendered format compiled)
      return 0

def checkCommand (options : Options) (paths : List String) : Attempt Nat := do
  let (files, naming) ← prepare options paths
  let results ← compileFiles naming options.verbose files
  return if results.all (·.2.isSome) then 0 else 1

def firstGiven (texts : List String) : String :=
  (texts.find? (· != "")).getD ""

def writeFiles (directory : String) : List Plugin.OutputFile -> Attempt Unit
  | [] => return ()
  | file :: files => do
      let path := file.place directory
      orEnd Files.Refusal.message (← makeDirectories (Files.parent path))
      orEnd Files.Refusal.message (← write path (Text.utf8 file.content))
      writeFiles directory files

def writeGenerated (directory : String) (files : List Plugin.OutputFile) : Attempt Unit := do
  match files.findSome? fun file => file.fault?.map (·.message file.path) with
  | some message => throw message
  | none =>
    orEnd Files.Refusal.message (← makeDirectories directory)
    writeFiles directory files

def trimmed (text : String) : String :=
  String.ofList (text.toList.reverse.dropWhile (· == '\n')).reverse

def codegenCommand (options : Options) (paths : List String) : Attempt Nat := do
  match paths with
  | [path] =>
    let settings ← loadSettings options
    let directory := firstGiven [options.output, settings.output]
    if directory = "" then throw "No output directory specified (set --output=)"
    let language := firstGiven [options.language, settings.language, "java"]
    let plugin ← orEnd LocateError.message
      (← locatePlugin (firstGiven [options.pluginPath, settings.pluginPath]) language)
    match ← compileFile (naming settings) options.verbose path with
    | none => return 1
    | some compiled =>
      let request : Plugin.Request := ⟨language, Export.describe compiled, .empty⟩
      let loaded ← ExceptT.mk (load plugin)
      let generator ← orEnd Plugin.LoadError.message loaded.generator
      let response ← orEnd Plugin.RunError.message
        (generator.respond (Text.utf8 request.json))
      if response.error ≠ "" then throw (trimmed response.error)
      let files := response.files.getD []
      if files.isEmpty then throw "Plugin did not generate any output files"
      writeGenerated directory files
      return 0
  | _ => throw ("codegen takes exactly one schema file, got " ++ toString paths.length)

def runCommand (command : Command) (options : Options) (others : List String) : Attempt Nat := do
  match command with
  | .help =>
    print (answerHelp others)
    return 0
  | _ =>
    if others.isEmpty then throw "requires at least 1 arg(s), only received 0"
    match command with
    | .compile => compileCommand options others
    | .check => checkCommand options others
    | _ => codegenCommand options others

def runCommandLine (arguments : List String) : Program Nat :=
  conclude do
    match meaning arguments with
    | .unknown word => throw (unknownCommand word)
    | .program rest =>
      let (options, _) ← orEnd FlagError.message (readArguments [.help] {} [] rest)
      if options.help then
        print programHelp
        return 0
      else
        complain programUsage
        return 1
    | .command command rest =>
      let (options, others) ← orEnd FlagError.message (readArguments command.flags {} [] rest)
      if options.help then
        print (commandHelp command)
        return 0
      else runCommand command options others

end MessageSchema.Shell
