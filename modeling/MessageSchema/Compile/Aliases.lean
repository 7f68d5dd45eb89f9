import MessageSchema.Compile.Error

namespace MessageSchema

/-!
Aliases of scopes.

An alias replaces the leading segments of a name.  The aliased paths form a tree
by segments whose leaves hold the replacements, so that no path is the beginning
of another.  An outer scope may be put in front of the names that no alias
applies to.
-/

/-- What is known about paths with a common beginning: one ends here, or they go on. -/
inductive AliasNode where
  | leaf (replacement : Identifier)
  | branch (children : List (String × AliasNode))

/-- The aliases of scopes, by their first segments, and the outer scope. -/
structure Aliases where
  children : List (String × AliasNode)
  outer : Option Identifier

namespace Aliases

def empty : Aliases := ⟨[], none⟩

instance : Inhabited Aliases := ⟨empty⟩

def chain (replacement : Identifier) : List String -> AliasNode
  | [] => .leaf replacement
  | segment :: rest => .branch [(segment, chain replacement rest)]

def setChild (segment : String) (node : AliasNode) :
    List (String × AliasNode) -> List (String × AliasNode)
  | [] => [(segment, node)]
  | child :: rest =>
    if child.1 = segment then (segment, node) :: rest
    else child :: setChild segment node rest

/-- Adds a path below a node that is `depth` segments deep.  The error is the index of
the segment where it meets an earlier path. -/
def addBelow (replacement : Identifier) (depth : Nat) (children : List (String × AliasNode)) :
    List String -> Except Nat (List (String × AliasNode))
  | [] => .error (depth - 1)
  | segment :: rest =>
    match children.lookup segment with
    | none => .ok ((segment, chain replacement rest) :: children)
    | some (.leaf _) => .error depth
    | some (.branch inner) =>
      match addBelow replacement (depth + 1) inner rest with
      | .ok inner => .ok (setChild segment (.branch inner) children)
      | .error index => .error index

/-- The source path of an alias says nothing, or meets an earlier path at the segment
with the index. -/
inductive AddError where
  | blank
  | collision (path : Identifier) (index : Nat)

def AddError.compileError : AddError -> CompileError
  | blank => .aliasEmpty
  | collision path index => .aliasCollision path.text index (path.segments.getD index "")

/-- Adds an alias.  A failure leaves the aliases as they were. -/
def add (aliases : Aliases) (path replacement : Identifier) : Except AddError Aliases :=
  if path.isBlank then .error .blank
  else
    match addBelow replacement 0 aliases.children path.segments with
    | .ok children => .ok ⟨children, aliases.outer⟩
    | .error index => .error (.collision path index)

def setOuter (aliases : Aliases) (scope : Identifier) : Except CompileError Aliases :=
  if scope.isBlank then .error .aliasEmpty
  else
    match aliases.outer with
    | some current => .error (.outerScopeAlreadySet current.text)
    | none => .ok ⟨aliases.children, some scope⟩

/-- The replacement of the path that the segments begin with, and the segments
behind that path. -/
def match? (children : List (String × AliasNode)) :
    List String -> Option (Identifier × List String)
  | [] => none
  | segment :: rest =>
    match children.lookup segment with
    | none => none
    | some (.leaf replacement) => some (replacement, rest)
    | some (.branch inner) => match? inner rest

/-- The same for the longest such path: the search goes on behind a path that it has found. -/
def longest? (children : List (String × AliasNode)) (best : Option (Identifier × List String)) :
    List String -> Option (Identifier × List String)
  | [] => best
  | segment :: rest =>
    match children.lookup segment with
    | none => best
    | some (.leaf replacement) => longest? [] (some (replacement, rest)) rest
    | some (.branch inner) => longest? inner best rest

/-- Puts a replacement in front of segments, unless it is blank.  At least one segment
results. -/
def replaceLeading (replacement : Identifier) (rest : List String) : Identifier :=
  match (if replacement.isBlank then [] else replacement.segments) ++ rest with
  | [] => .single ""
  | segments => ⟨segments⟩

def apply (aliases : Aliases) (name : Identifier) : Identifier :=
  match match? aliases.children name.segments with
  | some (replacement, rest) => replaceLeading replacement rest
  | none => name

/-- Replaces the aliased path that the scope of a name begins with, or puts the outer
scope in front. -/
def applyScope (aliases : Aliases) (name : Identifier) : Identifier :=
  match longest? aliases.children none name.segments.dropLast with
  | some (replacement, rest) =>
    replaceLeading replacement (rest ++ name.segments.getLast?.toList)
  | none =>
    match aliases.outer with
    | some scope => replaceLeading scope name.segments
    | none => name

end Aliases

/-- What a user wishes for names: pairs of dotted names of scopes, old and new, and an
outer scope, which is empty if there is none. -/
structure NamingOptions where
  aliases : List (String × String) := []
  outer : String := ""

def Aliases.addAll (aliases : Aliases) : List (String × String) -> Except CompileError Aliases
  | [] => .ok aliases
  | (source, target) :: rest =>
    match aliases.add (.ofDotted source) (.ofDotted target) with
    | .ok aliases => aliases.addAll rest
    | .error error => .error error.compileError

def NamingOptions.build (options : NamingOptions) : Except CompileError Aliases :=
  match Aliases.empty.addAll options.aliases with
  | .error error => .error error
  | .ok aliases =>
    if options.outer = "" then .ok aliases
    else aliases.setOuter (.ofDotted options.outer)

end MessageSchema
