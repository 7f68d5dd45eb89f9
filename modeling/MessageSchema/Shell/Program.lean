import MessageSchema.Plugin.Host

namespace MessageSchema.Shell

/-!
Programs that deal with their surroundings.

A program asks for one action after the other and goes on with the answers.  The
same program runs on a tree of files as a value, and on the files of a machine.
-/

inductive Action where
  | inspect (path : String)
  | tree (path : String)
  | read (path : String)
  | write (path : String) (content : List UInt8)
  | makeDirectories (path : String)
  | environment (name : String)
  | load (path : String)
  | print (text : String)
  | complain (text : String)

def Action.Answer : Action -> Type
  | inspect _ => Except Files.Refusal Bool
  | tree _ => Except Files.Refusal (Files.Entry Unit)
  | read _ => Except Files.Refusal (List UInt8)
  | write _ _ => Except Files.Refusal Unit
  | makeDirectories _ => Except Files.Refusal Unit
  | environment _ => String
  | load _ => Except String Plugin.Module
  | print _ => Unit
  | complain _ => Unit

inductive Program (α : Type) where
  | done (result : α)
  | ask (action : Action) (next : action.Answer -> Program α)

namespace Program

variable {α β : Type}

def andThen (next : α -> Program β) : Program α -> Program β
  | done result => next result
  | ask action rest => ask action fun answer => andThen next (rest answer)

instance : Monad Program where
  pure := done
  bind program next := andThen next program

def perform (action : Action) : Program action.Answer :=
  ask action done

/-- Runs a program in a monad, given what the actions do there. -/
def runIn {m : Type -> Type} [Monad m] (act : (action : Action) -> m action.Answer) :
    Program α -> m α
  | done result => pure result
  | ask action next => do
      let answer ← act action
      runIn act (next answer)

end Program

def inspect (path : String) : Program (Except Files.Refusal Bool) :=
  .perform (.inspect path)

def tree (path : String) : Program (Except Files.Refusal (Files.Entry Unit)) :=
  .perform (.tree path)

def read (path : String) : Program (Except Files.Refusal (List UInt8)) :=
  .perform (.read path)

def write (path : String) (content : List UInt8) : Program (Except Files.Refusal Unit) :=
  .perform (.write path content)

def makeDirectories (path : String) : Program (Except Files.Refusal Unit) :=
  .perform (.makeDirectories path)

def environment (name : String) : Program String :=
  .perform (.environment name)

def load (path : String) : Program (Except String Plugin.Module) :=
  .perform (.load path)

def print (text : String) : Program Unit :=
  .perform (.print text)

def complain (text : String) : Program Unit :=
  .perform (.complain text)

end MessageSchema.Shell

namespace MessageSchema.Shell

/-!
Finding schemas and plugins.
-/

def schemasAt (excluded : String -> Bool) (path : String) :
    Program (Except Files.Refusal (List String)) := do
  match ← inspect path with
  | .error refusal => return .error refusal
  | .ok false => return .ok [path]
  | .ok true =>
    match ← tree path with
    | .error refusal => return .error refusal
    | .ok entry => return .ok (Files.schemas excluded path entry)

def schemaFiles (excluded : String -> Bool) :
    List String -> Program (Except Files.Refusal (List String))
  | [] => return .ok []
  | path :: paths => do
      match ← schemasAt excluded path with
      | .error refusal => return .error refusal
      | .ok found =>
        match ← schemaFiles excluded paths with
        | .error refusal => return .error refusal
        | .ok rest => return .ok (found ++ rest)

/-- The variable with the directories that are searched for plugins. -/
def pluginVariable : String := "FUDGEPROTO_CODEGEN_PLUGIN_PATH"

inductive LocateError where
  | noSearchPath
  | notFound (file : String)
deriving DecidableEq, Repr

def LocateError.message : LocateError -> String
  | noSearchPath => "No plugin path set, use --plugin-path= or $" ++ pluginVariable
  | notFound file => "Codegen plugin " ++ file ++ " not found in plugin path"

def pluginName (language : String) : String :=
  "fudgeproto-codegen-" ++ language ++ ".wasm"

def directories (searchPath : String) : List String :=
  (Name.pieces ":" searchPath).filter (· != "")

def firstExisting : List String -> Program (Option String)
  | [] => return none
  | path :: paths => do
      match ← inspect path with
      | .ok _ => return some path
      | .error _ => firstExisting paths

def locateIn (searchPath language : String) : Program (Except LocateError String) := do
  if searchPath = "" then return .error .noSearchPath
  let file := pluginName language
  match ← firstExisting ((directories searchPath).map fun directory => Files.join [directory, file])
    with
  | some path => return .ok path
  | none => return .error (.notFound file)

/-- The plugin for a language.  An empty search path stands for that of the
environment. -/
def locatePlugin (searchPath language : String) : Program (Except LocateError String) := do
  if searchPath = "" then
    locateIn (← environment pluginVariable) language
  else
    locateIn searchPath language

end MessageSchema.Shell
