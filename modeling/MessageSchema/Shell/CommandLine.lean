import MessageSchema.Name.Identifier
import MessageSchema.Text.Lowercase
import MessageSchema.Text.Quoted

namespace MessageSchema.Shell

/-!
Flags on the command line.

A flag is a long name behind two dashes or a letter behind one.  Letters of
switches can stand together, and the last may take a value, which comes behind
an equals sign, directly behind the letter, or as the next argument.  Flags and
other arguments can be mixed; two dashes on their own end the flags.
-/

inductive Flag where
  | substitution
  | config
  | format
  | help
  | language
  | output
  | outer
  | pluginPath
  | verbose
deriving DecidableEq, Repr

namespace Flag

def name : Flag -> String
  | substitution => "alias"
  | config => "config"
  | format => "format"
  | help => "help"
  | language => "language"
  | output => "output"
  | outer => "prefix"
  | pluginPath => "plugin-path"
  | verbose => "verbose"

def letter? : Flag -> Option Char
  | format => some 'f'
  | help => some 'h'
  | language => some 'l'
  | output => some 'o'
  | verbose => some 'v'
  | _ => none

/-- A switch takes a value only behind an equals sign. -/
def isSwitch : Flag -> Bool
  | help => true
  | verbose => true
  | _ => false

def title (flag : Flag) : String :=
  match flag.letter? with
  | some letter => "-" ++ String.ofList [letter] ++ ", --" ++ flag.name
  | none => "--" ++ flag.name

end Flag

structure Options where
  config : String := ""
  aliases : List String := []
  outer : String := ""
  verbose : Bool := false
  help : Bool := false
  output : String := ""
  format : String := "text"
  language : String := ""
  pluginPath : String := ""
deriving DecidableEq, Repr, Inhabited

inductive FlagError where
  | badForm (argument : String)
  | unknown (name : String)
  | unknownLetter (letters : String)
  | noValue (argument : String)
  | noLetterValue (letter : Char) (letters : String)
  | badSwitch (flag : Flag) (value : String)
deriving DecidableEq, Repr

def firstByte (text : String) : Char :=
  ((Text.utf8 text).head?.map fun byte => Char.ofNat byte.toNat).getD ' '

def FlagError.message : FlagError -> String
  | badForm argument => "bad flag syntax: " ++ argument
  | unknown name => "unknown flag: --" ++ name
  | unknownLetter letters =>
    "unknown shorthand flag: " ++ Text.quoteChar (firstByte letters) ++ " in -" ++ letters
  | noValue argument => "flag needs an argument: " ++ argument
  | noLetterValue letter letters =>
    "flag needs an argument: " ++ Text.quoteChar letter ++ " in -" ++ letters
  | badSwitch flag value =>
    "invalid argument " ++ Text.quote value ++ " for " ++ Text.quote flag.title
      ++ " flag: strconv.ParseBool: parsing " ++ Text.quote value ++ ": invalid syntax"

def truth? (text : String) : Option Bool :=
  if ["1", "t", "T", "TRUE", "true", "True"].contains text then some true
  else if ["0", "f", "F", "FALSE", "false", "False"].contains text then some false
  else none

def switchTo (flag : Flag) (value : String) (set : Bool -> Options) : Except FlagError Options :=
  match truth? value with
  | some on => .ok (set on)
  | none => .error (.badSwitch flag value)

/-- Gives a flag a value.  Only aliases are gathered; of other flags the last
value counts. -/
def Options.set (options : Options) (flag : Flag) (value : String) : Except FlagError Options :=
  match flag with
  | .substitution => .ok { options with aliases := options.aliases ++ [value] }
  | .config => .ok { options with config := value }
  | .format => .ok { options with format := value }
  | .help => switchTo flag value fun on => { options with help := on }
  | .language => .ok { options with language := value }
  | .output => .ok { options with output := value }
  | .outer => .ok { options with outer := value }
  | .pluginPath => .ok { options with pluginPath := value }
  | .verbose => switchTo flag value fun on => { options with verbose := on }

/-- Letters that begin this way are meant for somebody else. -/
def foreignLetters : List Char := "test.".toList

/-- Reads the letters of flags.  The result says whether the next argument was
taken as a value. -/
def readLetters (flags : List Flag) (next : Option String) :
    Options -> List Char -> Except FlagError (Options × Bool)
  | options, [] => .ok (options, false)
  | options, letter :: more =>
    if foreignLetters.isPrefixOf (letter :: more) then .ok (options, false)
    else
      match flags.find? fun flag => flag.letter? == some letter with
      | none => .error (.unknownLetter (String.ofList (letter :: more)))
      | some flag =>
        match more, flag.isSwitch with
        | '=' :: value :: values, _ =>
          (options.set flag (String.ofList (value :: values))).map (·, false)
        | _, true =>
          match options.set flag "true" with
          | .error error => .error error
          | .ok options => readLetters flags next options more
        | value :: values, false =>
          (options.set flag (String.ofList (value :: values))).map (·, false)
        | [], false =>
          match next with
          | some value => (options.set flag value).map (·, true)
          | none => .error (.noLetterValue letter (String.ofList [letter]))

def readLong (flags : List Flag) (argument : String) (next : Option String) (options : Options)
    (written : String) : Except FlagError (Options × Bool) :=
  if written.toList.head? = some '-' ∨ written.toList.head? = some '=' then
    .error (.badForm argument)
  else
    let (name, value) :=
      match Name.cut? '=' written with
      | some (name, value) => (name, some value)
      | none => (written, none)
    match flags.find? fun flag => flag.name == name with
    | none => .error (.unknown name)
    | some flag =>
      match value, flag.isSwitch, next with
      | some value, _, _ => (options.set flag value).map (·, false)
      | none, true, _ => (options.set flag "true").map (·, false)
      | none, false, some value => (options.set flag value).map (·, true)
      | none, false, none => .error (.noValue argument)

/-- Reads the arguments of a command.  The other arguments are gathered in
reverse. -/
def readArguments (flags : List Flag) :
    Options -> List String -> List String -> Except FlagError (Options × List String)
  | options, others, [] => .ok (options, others.reverse)
  | options, others, argument :: rest =>
    match argument.toList with
    | ['-', '-'] => .ok (options, others.reverse ++ rest)
    | '-' :: letter :: more =>
      let found :=
        if letter = '-' then readLong flags argument rest.head? options (String.ofList more)
        else readLetters flags rest.head? options (letter :: more)
      match found, rest with
      | .error error, _ => .error error
      | .ok (options, true), _ :: rest => readArguments flags options others rest
      | .ok (options, _), rest => readArguments flags options others rest
    | _ => readArguments flags options (argument :: others) rest
termination_by _ _ arguments => arguments.length
decreasing_by all_goals simp only [List.length_cons]; omega

/-!
The command line as a whole: which command is meant, and what is said about
the commands.
-/

def programName : String := "fudgeproto"

inductive Command where
  | compile
  | check
  | codegen
  | help
deriving DecidableEq, Repr

namespace Command

def name : Command -> String
  | compile => "compile"
  | check => "check"
  | codegen => "codegen"
  | help => "help"

def summary : Command -> String
  | compile => "Compile schemas and print their resolved description"
  | check => "Compile schemas and report errors only"
  | codegen => "Generate source code for a schema with a backend plugin"
  | help => "Help about any command"

def usage : Command -> String
  | compile => "[flags] PATH..."
  | check => "[flags] PATH..."
  | codegen => "[flags] SCHEMA"
  | help => "[command] [flags]"

def flags : Command -> List Flag
  | compile => [.substitution, .config, .format, .help, .output, .outer, .verbose]
  | check => [.substitution, .config, .help, .outer, .verbose]
  | codegen => [.substitution, .config, .help, .language, .output, .pluginPath, .outer, .verbose]
  | help => [.help]

def all : List Command := [compile, check, codegen, help]

end Command

/-- Does an argument look like a flag with its value behind it?  As long as no command
is known, all flags without an equals sign do. -/
def takesNext (argument : String) : Bool :=
  let chars := argument.toList
  !chars.contains '=' &&
    (['-', '-'].isPrefixOf chars || (chars.head? == some '-' && argument.utf8ByteSize == 2))

def words : List String -> List String
  | [] => []
  | argument :: rest =>
    if argument = "--" then []
    else if takesNext argument then
      match rest with
      | _ :: next :: more => words (next :: more)
      | _ => []
    else if argument ≠ "" ∧ argument.toList.head? ≠ some '-' then argument :: words rest
    else words rest

def withoutWord (word : String) : List String -> List String
  | [] => []
  | argument :: rest =>
    if argument = "--" then argument :: rest
    else if takesNext argument then
      match rest with
      | value :: more => argument :: value :: withoutWord word more
      | [] => [argument]
    else if argument = word ∧ argument.toList.head? ≠ some '-' then rest
    else argument :: withoutWord word rest

/-- The changes of single bytes that turn one text into another, given those without
their first bytes, row by row. -/
def editRow (byte : UInt8) (above : List Nat) : List UInt8 -> Nat -> List Nat
  | other :: others, left =>
    match above with
    | corner :: up :: more =>
      let least := min (min (left + 1) (up + 1)) (corner + if byte = other then 0 else 1)
      left :: editRow byte (up :: more) others least
    | _ => [left]
  | [], left => [left]

def editDistance (a b : List UInt8) : Nat :=
  ((a.foldl
    (fun (row, count) byte => (editRow byte row b (count + 1), count + 1))
    (List.range (b.length + 1), 0)).1.getLast?).getD 0

/-- The commands that a word may mean: those that differ in two bytes at most, or begin
with it. -/
def suggestions (word : String) : List Command :=
  [Command.compile, .check, .codegen].filter fun command =>
    editDistance (Text.utf8 (Text.lower word)) (Text.utf8 command.name) <= 2 ||
      (Text.lower word).toList.isPrefixOf command.name.toList

def unknownCommand (word : String) : String :=
  let found := suggestions word
  "unknown command " ++ Text.quote word ++ " for " ++ Text.quote programName ++
    if found.isEmpty then ""
    else
      "\n\nDid you mean this?\n"
        ++ String.join (found.map fun command => "\t" ++ command.name ++ "\n")

inductive Meaning where
  | unknown (word : String)
  | program (arguments : List String)
  | command (command : Command) (arguments : List String)

def meaning (arguments : List String) : Meaning :=
  match words arguments with
  | [] => .program arguments
  | word :: _ =>
    match Command.all.find? fun command => command.name == word with
    | some command => .command command (withoutWord word arguments)
    | none => .unknown word

def fill (width : Nat) (text : String) : String :=
  text ++ String.ofList (List.replicate (width - text.length) ' ')

def flagHelp (owner : String) (command : Option Command) : Flag -> String
  | .substitution => "Rename output scope FROM to TO, written FROM:TO (repeatable)"
  | .config => "Project configuration file (default ./fudgeproto.toml if present)"
  | .format => "Output format: text, json or yaml (default \"text\")"
  | .help => "help for " ++ owner
  | .language => "Target language, selecting the plugin fudgeproto-codegen-LANGUAGE.wasm"
  | .output =>
    if command = some .codegen then "Directory to write generated files into"
    else "Write output to this file instead of stdout"
  | .outer => "Scope prepended to output names not matched by an alias"
  | .pluginPath => "Colon-separated plugin search path (default $FUDGEPROTO_CODEGEN_PLUGIN_PATH)"
  | .verbose => "Log each stage and dump the tree after it"

def flagForm (flag : Flag) : String :=
  (if flag.letter?.isSome then "  " else "      ") ++ flag.title ++
    match flag with
    | .substitution => " stringArray"
    | .help => ""
    | .verbose => ""
    | _ => " string"

def flagTable (owner : String) (command : Option Command) (flags : List Flag) : String :=
  let width := (flags.map fun flag => (flagForm flag).length).foldl max 0
  "Flags:\n" ++ String.join (flags.map fun flag =>
    fill (width + 3) (flagForm flag) ++ flagHelp owner command flag ++ "\n")

def programUsage : String :=
  "Usage:\n  " ++ programName ++ " [options] COMMAND [flags]\n  " ++ programName
    ++ " [command]\n\nAvailable Commands:\n"
    ++ String.join ([Command.check, .codegen, .compile, .help].map fun command =>
      "  " ++ fill 12 command.name ++ command.summary ++ "\n")
    ++ "\n" ++ flagTable programName none [.help]
    ++ "\nUse \"" ++ programName ++ " [command] --help\" for more information about a command.\n"

def programHelp : String :=
  "Compiler for Fudge message schemas\n\n" ++ programUsage

def commandHelp (command : Command) : String :=
  let about :=
    if command = .help then
      "Help provides help for any command in the application.\nSimply type " ++ programName
        ++ " help [path to command] for full details."
    else command.summary
  about ++ "\n\nUsage:\n  " ++ programName ++ " " ++ command.name ++ " " ++ command.usage
    ++ "\n\n" ++ flagTable command.name (some command) command.flags

def answerHelp (arguments : List String) : String :=
  match meaning arguments with
  | .program _ => programHelp
  | .command command _ => commandHelp command
  | .unknown _ =>
    "Unknown help topic [" ++ String.intercalate " " (arguments.map fun word =>
      "\x60" ++ word ++ "\x60") ++ "]\n" ++ programUsage

end MessageSchema.Shell
