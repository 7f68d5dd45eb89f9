import MessageSchema.Name.Identifier

namespace MessageSchema.Files

/-!
What can go wrong with files.
-/

inductive Reason where
  | notFound
  | notDirectory
  | isDirectory
  | exists
  | noSpace
  | nameTooLong
  | invalidName
  | other (text : String)
deriving DecidableEq, Repr

def Reason.text : Reason -> String
  | notFound => "no such file or directory"
  | notDirectory => "not a directory"
  | isDirectory => "is a directory"
  | .exists => "file exists"
  | noSpace => "no space left on device"
  | nameTooLong => "file name too long"
  | invalidName => "invalid argument"
  | other text => text

structure Refusal where
  operation : String
  path : String
  reason : Reason
deriving DecidableEq, Repr

def Refusal.message (refusal : Refusal) : String :=
  refusal.operation ++ " " ++ refusal.path ++ ": " ++ refusal.reason.text

/-!
Trees of files.

A directory holds entries under different names, in no meaningful order.
-/

inductive Entry (α : Type) where
  | file (content : α)
  | directory (entries : List (String × Entry α))
deriving Inhabited

namespace Entry

variable {α β : Type}

def isDirectory : Entry α -> Bool
  | file _ => false
  | directory _ => true

def find? : List String -> Entry α -> Option (Entry α)
  | [], entry => some entry
  | _ :: _, file _ => none
  | name :: path, directory entries => (entries.lookup name).bind (find? path)

def setIn (entries : List (String × Entry α)) (name : String) (entry : Entry α) :
    List (String × Entry α) :=
  if entries.any (·.1 == name) then
    entries.map fun held => if held.1 == name then (name, entry) else held
  else entries ++ [(name, entry)]

def put (entry : Entry α) : List String -> Entry α -> Entry α
  | [], _ => entry
  | _ :: _, file content => file content
  | name :: path, directory entries =>
    match entries.lookup name, path with
    | none, [] => directory (entries ++ [(name, entry)])
    | none, _ :: _ => directory entries
    | some inner, path => directory (setIn entries name (put entry path inner))

mutual

def map (change : α -> β) : Entry α -> Entry β
  | file content => file (change content)
  | directory entries => directory (mapAll change entries)

def mapAll (change : α -> β) : List (String × Entry α) -> List (String × Entry β)
  | [] => []
  | (name, entry) :: rest => (name, map change entry) :: mapAll change rest

end

mutual

def files (path : List String) : Entry α -> List (List String × α)
  | file content => [(path, content)]
  | directory entries => filesOf path entries

def filesOf (path : List String) : List (String × Entry α) -> List (List String × α)
  | [] => []
  | (name, entry) :: rest => files (path ++ [name]) entry ++ filesOf path rest

end

end Entry

/-!
Paths: names behind slashes.  A clean path has no empty names or dots, and steps
upwards only at its start, where a rooted path has none.
-/

def isRooted (path : String) : Bool :=
  path.toList.head? == some '/'

def steps (path : String) : List String :=
  Name.pieces "/" path

def takeStep (rooted : Bool) (seen : List String) (step : String) : List String :=
  if step = "" ∨ step = "." then seen
  else if step = ".." then
    match seen with
    | [] => if rooted then [] else [".."]
    | last :: rest => if last = ".." then ".." :: seen else rest
  else step :: seen

def clean (path : String) : String :=
  let rooted := isRooted path
  let names := ((steps path).foldl (takeStep rooted) []).reverse
  if rooted then "/" ++ String.intercalate "/" names
  else if names.isEmpty then "."
  else String.intercalate "/" names

def join (parts : List String) : String :=
  match parts.filter (· != "") with
  | [] => ""
  | given => clean (String.intercalate "/" given)

def baseName (path : String) : String :=
  (((steps path).filter (· != "")).getLast?).getD (if path = "" then "." else "/")

def parent (path : String) : String :=
  clean (String.intercalate "/" ((steps path).dropLast ++ [""]))

/-!
The search for schemas below a directory, files with the extension of schemas.

Names left out are passed over with all that is below them.  Entries come in
ascending order of their names.
-/

def extension (name : String) : String :=
  match name.toList.reverse.span (· != '.') with
  | (_, []) => ""
  | (back, dot :: _) => String.ofList (dot :: back.reverse)

def schemaExtension : String := ".proto"

/-- What is found under each of several names, put together in ascending order
of the names. -/
def inOrder (found : List (String × List String)) : List String :=
  (found.mergeSort fun a b => decide (a.1 <= b.1)).flatMap (·.2)

mutual

def schemasAt {α : Type} (excluded : String -> Bool) (path name : String) :
    Entry α -> List String
  | .file _ =>
    if extension name == schemaExtension && !excluded name then [join [path, name]] else []
  | .directory entries =>
    if excluded name then [] else inOrder (schemasOf excluded (join [path, name]) entries)

def schemasOf {α : Type} (excluded : String -> Bool) (path : String) :
    List (String × Entry α) -> List (String × List String)
  | [] => []
  | (name, entry) :: rest =>
    (name, schemasAt excluded path name entry) :: schemasOf excluded path rest

end

def schemas {α : Type} (excluded : String -> Bool) (path : String) : Entry α -> List String
  | .file _ => [path]
  | .directory entries => inOrder (schemasOf excluded path entries)

end MessageSchema.Files
