import MessageSchema.Export.FromJson
import MessageSchema.Export.Products
import MessageSchema.Files.Search

namespace MessageSchema.Plugin

/-!
The files that a code generator hands back.

A file names its place below the output directory by components, and must not
leave that directory.
-/

/-- A generated file.  The path may be missing altogether. -/
structure OutputFile where
  path : Option (List String) := none
  content : String := ""
deriving DecidableEq, Repr, Inhabited

inductive PathFault where
  | empty
  | badComponent (part : String)
  | absolute (part : String)
  | containsSlash (part : String)
deriving DecidableEq, Repr

def showStrings : Option (List String) -> String
  | none => "[]string(nil)"
  | some texts => "[]string\x7b" ++ String.intercalate ", " (texts.map Text.quote) ++ "\x7d"

def PathFault.message (path : Option (List String)) (fault : PathFault) : String :=
  "Invalid output path " ++ showStrings path ++ ": " ++
    match fault with
    | .empty => "empty"
    | .badComponent part => "bad path component " ++ Text.quote part
    | .absolute part => "absolute path component " ++ Text.quote part
    | .containsSlash part => "component " ++ Text.quote part ++ " contains '/'"

def partFault? (part : String) : Option PathFault :=
  if part = "" ∨ part = "." ∨ part = ".." then some (.badComponent part)
  else if Files.isRooted part then some (.absolute part)
  else if part.toList.contains '/' then some (.containsSlash part)
  else none

namespace OutputFile

def parts (file : OutputFile) : List String :=
  file.path.getD []

def fault? (file : OutputFile) : Option PathFault :=
  if file.parts.isEmpty then some .empty else file.parts.findSome? partFault?

def place (file : OutputFile) (directory : String) : String :=
  Files.join (directory :: file.parts)

end OutputFile

/-!
What is exchanged with a code generator.

The request is a JSON text with the schema.  The response is one too, behind its
length in four bytes, the lowest first.
-/

structure Request where
  language : String
  document : Export.Description
  options : Name.Table String

def Request.json (request : Request) : String :=
  Data.Json.compact (.record
    ([("language", .ofString request.language), ("document", request.document.data .null)]
      ++ Export.optionalMember (!request.options.entries.isEmpty) "options"
        (.record (request.options.entries.map fun entry => (entry.1, .ofString entry.2)))))

/-- What a code generator answers: an error, empty if there is none, and the generated
files. -/
structure Response where
  error : String := ""
  files : Option (List OutputFile) := none
deriving DecidableEq, Repr, Inhabited

def OutputFile.data (file : OutputFile) : Data.Value :=
  .record
    [("path", Export.listOr .null .ofString file.path), ("content", .ofString file.content)]

def Response.json (response : Response) : String :=
  Data.Json.compact (.record
    (Export.optionalMember (response.error != "") "error" (.ofString response.error)
      ++ [("files", Export.listOr .null OutputFile.data response.files)]))

def wordBytes (number : Nat) : List UInt8 :=
  [UInt8.ofNat number, UInt8.ofNat (number / 256), UInt8.ofNat (number / 65536),
    UInt8.ofNat (number / 16777216)]

def ofWordBytes (a b c d : UInt8) : Nat :=
  a.toNat + 256 * b.toNat + 65536 * c.toNat + 16777216 * d.toNat

def Response.frame (response : Response) : List UInt8 :=
  let body := Text.utf8 response.json
  wordBytes body.length ++ body

inductive ResponseError where
  | truncated (size : Nat)
  | tooLong (length available : Nat)
  | malformed (fault : Data.Json.Fault)
deriving DecidableEq, Repr

def ResponseError.message : ResponseError -> String
  | truncated size => "Codegen response is truncated (" ++ toString size ++ " bytes)"
  | tooLong length available =>
    "Codegen response length " ++ toString length ++ " exceeds available " ++
      toString available ++ " bytes"
  | malformed .truncated => "unexpected end of JSON input"
  | malformed .malformed => "invalid JSON input"

open Export.FromJson in
def outputFile : Onto OutputFile := record fun file name node =>
  if Text.isNamed "path" name then (list "" text file.path node).map ({ file with path := · })
  else if Text.isNamed "content" name then (text file.content node).map ({ file with content := · })
  else some file

open Export.FromJson in
def response : Onto Response := record fun response name node =>
  if Text.isNamed "error" name then (text response.error node).map ({ response with error := · })
  else if Text.isNamed "files" name then
    (list {} outputFile response.files node).map ({ response with files := · })
  else some response

def Response.ofBody (body : List UInt8) : Except ResponseError Response :=
  match Data.Json.readWhole body with
  | .error fault => .error (.malformed fault)
  | .ok node =>
    match response {} node with
    | some response => .ok response
    | none => .error (.malformed .malformed)

/-- Reads a response behind its length.  Bytes behind the body do not matter.  The end of the
body is a word as well: memory has no room for a body whose end is past that. -/
def Response.ofFrame (bytes : List UInt8) : Except ResponseError Response :=
  match bytes with
  | a :: b :: c :: d :: rest =>
    let length := ofWordBytes a b c d
    if rest.length < length then .error (.tooLong length rest.length)
    else Response.ofBody (rest.take length)
  | _ => .error (.truncated bytes.length)

end MessageSchema.Plugin
