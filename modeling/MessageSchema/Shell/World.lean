import MessageSchema.Shell.Program

namespace MessageSchema.Shell

/-!
Surroundings as a value: one tree of files, the directory that a program works
in, and what it has written to its outputs.
-/

/-- What a file holds: bytes, or a plugin ready to run.  A full device takes no bytes.
-/
inductive Content where
  | bytes (value : List UInt8)
  | plugin (loaded : Except String Plugin.Module)
  | full

structure World where
  root : Files.Entry Content
  place : List String
  environment : List (String × String) := []
  printed : String := ""
  complaints : String := ""

namespace World

open Files (Entry Reason Refusal)

def step (world : World) (place : List String) (name : String) : Except Reason (List String) :=
  match world.root.find? place with
  | none => .error .notFound
  | some (.file _) => .error .notDirectory
  | some (.directory _) =>
    if name = "" ∨ name = "." then .ok place
    else if name = ".." then .ok place.dropLast
    else if 255 < name.utf8ByteSize then .error .nameTooLong
    else .ok (place ++ [name])

/-- The place that a path leads to.  Whether there is something at that place
is not asked. -/
def locate (world : World) (path : String) : Except Reason (List String) :=
  if path = "" then .error .notFound
  else if path.toList.contains '\x00' then .error .invalidName
  else
    (Files.steps path).foldlM world.step (if Files.isRooted path then [] else world.place)

def entry (world : World) (path : String) : Except Reason (Entry Content) :=
  match world.locate path with
  | .error reason => .error reason
  | .ok place =>
    match world.root.find? place with
    | none => .error .notFound
    | some entry => .ok entry

def Content.known : Content -> List UInt8
  | .bytes value => value
  | .plugin _ => []
  | .full => []

def read (world : World) (path : String) : Except Refusal (List UInt8) :=
  match world.entry path with
  | .error reason => .error ⟨"open", path, reason⟩
  | .ok (.directory _) => .error ⟨"read", path, .isDirectory⟩
  | .ok (.file content) => .ok (Content.known content)

def endsInSlash (path : String) : Bool :=
  path.toList.getLast? == some '/'

def withoutSlashes (path : String) : String :=
  String.ofList (path.toList.reverse.dropWhile (· == '/')).reverse

def writable (world : World) (path : String) : Except Reason (List String) :=
  if endsInSlash path then
    match world.locate (withoutSlashes path) with
    | .error reason => .error (if isRootOnly path then .isDirectory else reason)
    | .ok _ => .error .isDirectory
  else
    match world.locate path with
    | .error reason => .error reason
    | .ok place =>
      match world.root.find? place with
      | some (.directory _) => .error .isDirectory
      | _ => .ok place
where
  isRootOnly (path : String) : Bool := path.toList.all (· == '/')

def put (world : World) (place : List String) (entry : Entry Content) : World :=
  { world with root := Entry.put entry place world.root }

def write (world : World) (path : String) (content : List UInt8) : Except Refusal Unit × World :=
  match world.writable path with
  | .error reason => (.error ⟨"open", path, reason⟩, world)
  | .ok place =>
    match world.root.find? place with
    | some (.file .full) =>
      (if content.isEmpty then .ok () else .error ⟨"write", path, .noSpace⟩, world)
    | _ => (.ok (), world.put place (.file (.bytes content)))

def makeDirectory (world : World) (path : String) : Except Reason World :=
  match world.locate (if withoutSlashes path = "" then path else withoutSlashes path) with
  | .error reason => .error reason
  | .ok place =>
    match world.root.find? place with
    | some _ => .error .exists
    | none => .ok (world.put place (.directory []))

def leadUp (path : String) : String :=
  String.ofList ((withoutSlashes path).toList.reverse.dropWhile (· != '/')).reverse

/-- Makes a directory and those on the way to it.  Every step takes a name, so the
length of the path is enough fuel. -/
def makeDirectories (world : World) : Nat -> String -> Except Refusal Unit × World
  | 0, _ => (.ok (), world)
  | fuel + 1, path =>
    match world.entry path with
    | .ok (.directory _) => (.ok (), world)
    | .ok (.file _) => (.error ⟨"mkdir", path, .notDirectory⟩, world)
    | .error _ =>
      let (before, world) :=
        if leadUp path = "" then (.ok (), world) else makeDirectories world fuel (leadUp path)
      match before with
      | .error refusal => (.error refusal, world)
      | .ok () =>
        match world.makeDirectory path with
        | .ok world => (.ok (), world)
        | .error reason =>
          match world.entry path with
          | .ok (.directory _) => (.ok (), world)
          | _ => (.error ⟨"mkdir", path, reason⟩, world)

def notAPlugin : String :=
  (Plugin.LoadError.compile "invalid magic number").message

def load (world : World) (path : String) : Except String Plugin.Module :=
  match world.entry path with
  | .error reason => .error (Refusal.message ⟨"open", path, reason⟩)
  | .ok (.directory _) => .error (Refusal.message ⟨"read", path, .isDirectory⟩)
  | .ok (.file (.plugin loaded)) => loaded
  | .ok (.file _) => .error notAPlugin

def perform (world : World) : (action : Action) -> action.Answer × World
  | .inspect path =>
    match world.entry path with
    | .ok entry => (.ok entry.isDirectory, world)
    | .error reason => (.error ⟨"stat", path, reason⟩, world)
  | .tree path =>
    match world.entry path with
    | .ok entry => (.ok (entry.map fun _ => ()), world)
    | .error reason => (.error ⟨"lstat", path, reason⟩, world)
  | .read path => (world.read path, world)
  | .write path content => world.write path content
  | .makeDirectories path => world.makeDirectories (path.length + 1) path
  | .environment name => ((world.environment.lookup name).getD "", world)
  | .load path => (world.load path, world)
  | .print text => ((), { world with printed := world.printed ++ text })
  | .complain text => ((), { world with complaints := world.complaints ++ text })

def fresh : World where
  root := .directory
    [("dev", .directory [("full", .file .full)]), ("work", .directory [])]
  place := ["work"]

/-- Puts a file into the surroundings, with its directories.  A final slash makes the
path a directory. -/
def install (world : World) (path : String) (content : Content) : World :=
  let (_, world) := world.makeDirectories (path.length + 1) (if endsInSlash path then path
    else leadUp path)
  match world.writable path with
  | .ok place => world.put place (.file content)
  | .error _ => world

def files (world : World) : List (String × Content) :=
  match world.root.find? world.place with
  | none => []
  | some entry =>
    (entry.files []).map fun (names, content) => (String.intercalate "/" names, content)

def written (before after : World) : List (String × List UInt8) :=
  after.files.filterMap fun (path, content) =>
    match content with
    | .bytes value =>
      match before.files.lookup path with
      | some (.bytes old) => if old == value then none else some (path, value)
      | _ => some (path, value)
    | _ => none

end World

def Program.run {α : Type} (program : Program α) (world : World) : α × World :=
  match program with
  | .done result => (result, world)
  | .ask action next =>
    let (answer, world) := world.perform action
    (next answer).run world

end MessageSchema.Shell
