import MessageSchema.Shell.Commands
import MessageSchema.Shell.World

namespace MessageSchema
namespace Shell
namespace Machine

/-!
The command line on the files of a machine.

Commands are programs that only ask for actions; here is what the actions do.
-/

open Files (Entry Reason Refusal)

def reasonOf : IO.Error -> Reason
  | .noFileOrDirectory .. => .notFound
  | .alreadyExists .. => .exists
  | .resourceExhausted .. => .noSpace
  | error => .other (toString error)

/-- Does something with a path, and says what was refused. -/
def attempt {α : Type} (operation path : String) (act : IO α) : IO (Except Refusal α) := do
  try
    let result ← act
    return .ok result
  catch error => return .error ⟨operation, path, reasonOf error⟩

def deepest : Nat := 4096

def treeAt : Nat -> String -> IO (Entry Unit)
  | 0, _ => return .file ()
  | depth + 1, path => do
      let place ← IO.FS.realPath path
      if ← place.isDir then
        let held ← place.readDir
        let entries ← held.toList.mapM fun item => do
          let entry ← treeAt depth item.path.toString
          return (item.fileName, entry)
        return .directory entries
      else return .file ()

def inspectAt (path : String) : IO Bool := do
  let place ← IO.FS.realPath path
  if ← place.pathExists then place.isDir
  else throw (.noFileOrDirectory path 0 "")

/-- What is said of a plugin, since there is nothing here that runs one. -/
def cannotRun : String :=
  (Plugin.LoadError.compile "plugins cannot be run").message

def pluginStart : List UInt8 := [0x00, 0x61, 0x73, 0x6D]

def perform : (action : Action) -> IO action.Answer
  | .inspect path => attempt "stat" path (inspectAt path)
  | .tree path => attempt "lstat" path (treeAt deepest path)
  | .read path => attempt "open" path do
      let bytes ← IO.FS.readBinFile path
      return bytes.toList
  | .write path content =>
    attempt "open" path (IO.FS.writeBinFile path (ByteArray.mk content.toArray))
  | .makeDirectories path => attempt "mkdir" path (IO.FS.createDirAll path)
  | .environment name => do
      let value ← IO.getEnv name
      return value.getD ""
  | .load path => do
      let found ← attempt "open" path (IO.FS.readBinFile path)
      match found with
      | .error refusal => return .error refusal.message
      | .ok bytes =>
        return .error
          (if bytes.toList.take 4 = pluginStart then cannotRun else World.notAPlugin)
  | .print text => IO.print text
  | .complain text => IO.eprint text

end Machine
end Shell
end MessageSchema

def main (arguments : List String) : IO UInt32 := do
  let status ← (MessageSchema.Shell.runCommandLine arguments).runIn
    MessageSchema.Shell.Machine.perform
  return UInt32.ofNat status
