import MessageSchema.Data.Toml.Reader
import MessageSchema.Glob.Compile
import MessageSchema.Name.Identifier
import MessageSchema.Text.Lowercase
import MessageSchema.Text.Quoted

namespace MessageSchema.Settings

/-!
Keys of a settings file as they are shown: names between dots, in quotes where
needed.
-/

def isBare (value : Char) : Bool :=
  value.isAlphanum || value == '_' || value == '-'

def keyChar (value : Char) : String :=
  if value = '"' ∨ value = '\\' then String.ofList ['\\', value]
  else if value = '\x08' then "\\b"
  else if value = '\t' then "\\t"
  else if value = '\n' then "\\n"
  else if value = '\x0c' then "\\f"
  else if value = '\r' then "\\r"
  else if value.toNat < 0x20 ∨ value.toNat = 0x7F then "\\u" ++ Number.hex 4 value.toNat
  else String.ofList [value]

def showName (name : String) : String :=
  if name ≠ "" ∧ name.toList.all isBare then name
  else "\"" ++ String.join (name.toList.map keyChar) ++ "\""

def showKey (path : List String) : String :=
  String.intercalate "." (path.map showName)

end MessageSchema.Settings

namespace MessageSchema

/-!
Names that are left out of a search.
-/

structure Exclusion where
  globs : List Glob

structure PatternFault where
  pattern : String
  fault : Glob.Fault
deriving DecidableEq, Repr

def PatternFault.message (fault : PatternFault) : String :=
  "invalid exclude pattern " ++ Text.quote fault.pattern ++ ": " ++ fault.fault.message

namespace Exclusion

def ofPatterns : List String -> Except PatternFault Exclusion
  | [] => .ok ⟨[]⟩
  | pattern :: patterns =>
    match Glob.ofPattern pattern with
    | .error fault => .error ⟨pattern, fault⟩
    | .ok glob => (ofPatterns patterns).map fun rest => ⟨glob :: rest.globs⟩

def covers (exclusion : Exclusion) (name : String) : Bool :=
  exclusion.globs.any (·.isMatch name)

end Exclusion
end MessageSchema

namespace MessageSchema

/-!
The settings of a project: how names are changed on output, which files are left
out of a search, and how code is generated.  Keys have letters of either case.
An unknown key is an error, as is an alias without both scopes.
-/

structure Settings where
  outer : String := ""
  aliases : List (String × String) := []
  exclude : List String := []
  language : String := "java"
  output : String := ""
  pluginPath : String := ""
deriving DecidableEq, Repr, Inhabited

inductive SettingsError where
  | malformed
  | unknownKey (path : List String)
  | incompleteAlias (source target : String)
deriving DecidableEq, Repr

def SettingsError.message : SettingsError -> String
  | malformed => "toml: malformed settings"
  | unknownKey path => "unknown config key " ++ Text.quote (Settings.showKey path)
  | incompleteAlias source target =>
    "alias " ++ Text.quote source ++ " -> " ++ Text.quote target ++ " must name both scopes"

/-- An alias on the command line that does not have the form of one. -/
structure AliasFault where
  written : String
deriving DecidableEq, Repr

def AliasFault.message (fault : AliasFault) : String :=
  "invalid alias " ++ Text.quote fault.written ++ ", expected FROM:TO"

def aliasOf (written : String) : Except AliasFault (String × String) :=
  match Name.cut? ':' written with
  | some (source, target) =>
    if source = "" ∨ target = "" then .error ⟨written⟩ else .ok (source, target)
  | none => .error ⟨written⟩

namespace Settings

open Data.Toml (Item Entries)
open Text (isNamed)

def knownKeys : List (List String) :=
  [["prefix"], ["alias"], ["alias", "from"], ["alias", "to"], ["exclude"], ["codegen"],
    ["codegen", "language"], ["codegen", "output"], ["codegen", "plugin_path"]]

def isKnown (path : List String) : Bool :=
  knownKeys.any fun known =>
    known.length == path.length && (known.zip path).all fun (name, given) => isNamed name given

def text? : Item -> Option String
  | .leaf (.text value) => some value
  | _ => none

def texts? : Item -> Option (List String)
  | .leaf (.array items) => items.mapM fun item => text? (.leaf item)
  | _ => none

def alias? (entries : Entries) : Option (String × String) :=
  entries.foldlM
    (fun held (name, item) =>
      if isNamed "from" name then (text? item).map (·, held.2)
      else if isNamed "to" name then (text? item).map (held.1, ·)
      else some held)
    ("", "")

def aliases? : Item -> Option (List (String × String))
  | .tables members => members.mapM alias?
  | .leaf (.array []) => some []
  | _ => none

def generation? (settings : Settings) (entries : Entries) : Option Settings :=
  entries.foldlM
    (fun held (name, item) =>
      if isNamed "language" name then (text? item).map ({ held with language := · })
      else if isNamed "output" name then (text? item).map ({ held with output := · })
      else if isNamed "plugin_path" name then (text? item).map ({ held with pluginPath := · })
      else some held)
    settings

/-- Reads the tables of a settings file.  Values of the wrong kind are refused, unknown
names passed over. -/
def ofEntries? (entries : Entries) : Option Settings :=
  entries.foldlM
    (fun held (name, item) =>
      if isNamed "prefix" name then (text? item).map ({ held with outer := · })
      else if isNamed "alias" name then (aliases? item).map ({ held with aliases := · })
      else if isNamed "exclude" name then (texts? item).map ({ held with exclude := · })
      else if isNamed "codegen" name then
        match item with
        | .table inner => generation? held inner
        | _ => none
      else some held)
    { language := "" }

def ofText (source : List Char) : Except SettingsError Settings :=
  match (Data.Toml.read? source).bind Data.Toml.Document.ofStatements? with
  | none => .error .malformed
  | some document =>
    match ofEntries? document.root with
    | none => .error .malformed
    | some settings =>
      match document.keys.find? fun path => !isKnown path with
      | some path => .error (.unknownKey path)
      | none =>
        match settings.aliases.find? fun (source, target) => source == "" || target == "" with
        | some (source, target) => .error (.incompleteAlias source target)
        | none =>
          .ok { settings with
            language := if settings.language = "" then "java" else settings.language }

def ofBytes (bytes : List UInt8) : Except SettingsError Settings :=
  match Text.chars? (Text.decode bytes) with
  | some source => ofText source
  | none => .error .malformed

end Settings
end MessageSchema
