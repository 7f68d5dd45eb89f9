namespace MessageSchema.Data
namespace Toml

/-!
A settings file is a list of statements, which open a table, open the next table
of a list, or give a value to a key.  Keys are paths of names.
-/

/-- A value as it is written.  Numbers and moments are nowhere asked for. -/
inductive Value where
  | text (value : String)
  | number
  | moment
  | bool (value : Bool)
  | array (items : List Value)
  | inline (entries : List (List String × Value))
deriving Inhabited

inductive Statement where
  | table (path : List String)
  | nextTable (path : List String)
  | assign (path : List String) (value : Value)

end Toml

namespace Toml

/-!
Tables.

Statements build a tree of tables.  A table that was only passed through may be
opened later on; nothing else is given twice.  Keys are kept in the order of
writing, those of tables in braces behind their own key.
-/

inductive Item where
  | leaf (value : Value)
  | table (entries : List (String × Item))
  | tables (members : List (List (String × Item)))
deriving Inhabited

abbrev Entries := List (String × Item)

def Entries.set (entries : Entries) (name : String) (item : Item) : Entries :=
  if entries.any (·.1 == name) then
    entries.map fun entry => if entry.1 == name then (name, item) else entry
  else entries ++ [(name, item)]

/-- Changes the table at a path.  A list of tables stands for its last one. -/
def Entries.change (change : Entries -> Option Entries) : List String -> Entries -> Option Entries
  | [], entries => change entries
  | name :: path, entries =>
    match entries.lookup name with
    | some (.table inner) =>
      (Entries.change change path inner).map fun next => entries.set name (.table next)
    | some (.tables members) =>
      match members.getLast? with
      | none => none
      | some last =>
        (Entries.change change path last).map fun next =>
          entries.set name (.tables (members.dropLast ++ [next]))
    | _ => none

def Entries.find? : List String -> Entries -> Option Item
  | [], entries => some (.table entries)
  | name :: path, entries =>
    match entries.lookup name, path with
    | found, [] => found
    | some (.table inner), _ => Entries.find? path inner
    | some (.tables members), _ => members.getLast?.bind (Entries.find? path)
    | _, _ => none

/-- A settings file so far: its tables, those only passed through, and the keys. -/
structure Draft where
  root : Entries
  implied : List (List String)
  keys : List (List String)

namespace Draft

def empty : Draft := ⟨[], [], []⟩

def imply (draft : Draft) (path : List String) : Draft :=
  { draft with implied := path :: draft.implied }

def note (draft : Draft) (path : List String) : Draft :=
  { draft with keys := draft.keys ++ [path] }

/-- Gives an item to a name in the table at a path, unless it was only passed through.
-/
def give (draft : Draft) (path : List String) (name : String) (item : Item) : Option Draft :=
  let full := path ++ [name]
  match draft.root.find? full with
  | some _ =>
    if draft.implied.contains full then
      some { draft with implied := draft.implied.filter (· != full) }
    else none
  | none =>
    (draft.root.change (fun entries => some (entries.set name item)) path).map
      fun root => { draft with root }

def passThrough (draft : Draft) (done : List String) : List String -> Option Draft
  | [] => some draft
  | name :: path =>
    let here := done ++ [name]
    match draft.root.find? here with
    | some (.leaf _) => none
    | some _ => passThrough draft here path
    | none => do
        let next ← (draft.imply here).root.change
          (fun entries => some (entries.set name (.table []))) done
        passThrough { draft.imply here with root := next } here path

def openTable (draft : Draft) (path : List String) : Option Draft := do
  let name ← path.getLast?
  let draft ← draft.passThrough [] path.dropLast
  draft.give path.dropLast name (.table [])

def openNext (draft : Draft) (path : List String) : Option Draft := do
  let name ← path.getLast?
  let draft ← draft.passThrough [] path.dropLast
  let root ← draft.root.change
    (fun entries =>
      match entries.lookup name with
      | none => some (entries.set name (.tables [[]]))
      | some (.tables members) => some (entries.set name (.tables (members ++ [[]])))
      | some _ => none)
    path.dropLast
  return { draft with root }

def openParents (draft : Draft) (context : List String) : List String -> Option Draft
  | [] => some draft
  | name :: path => do
      let here := context ++ [name]
      let draft ← (draft.imply here).openTable here
      openParents draft here path

mutual

/-- Reads the value of a path: tables in braces are opened there, as the table itself or
as the next one of a list. -/
def settle (draft : Draft) (path : List String) (inList : Bool) : Value -> Option Draft
  | .inline entries => do
      let draft := draft.imply path
      let draft ← if inList then draft.openNext path else draft.openTable path
      settleEntries draft path entries
  | .array items => settleItems draft path items
  | _ => some draft

def settleItems (draft : Draft) (path : List String) : List Value -> Option Draft
  | [] => some draft
  | item :: items => do
      let draft ← settle draft path true item
      settleItems draft path items

def settleEntries (draft : Draft) (context : List String) :
    List (List String × Value) -> Option Draft
  | [] => some draft
  | (key, value) :: entries => do
      let draft ← draft.openParents context key.dropLast
      let name ← key.getLast?
      let draft ← settle (draft.note (context ++ key)) (context ++ key) false value
      let draft ← draft.give (context ++ key.dropLast) name (.leaf value)
      settleEntries draft context entries

end

def take (state : Draft × List String) : Statement -> Option (Draft × List String)
  | .table path => do
      let draft ← state.1.openTable path
      return (draft.note path, path)
  | .nextTable path => do
      let draft ← state.1.openNext path
      return (draft.note path, path)
  | .assign key value => do
      let draft ← settleEntries state.1 state.2 [(key, value)]
      return (draft, state.2)

end Draft

structure Document where
  root : Entries
  keys : List (List String)

/-- The settings that statements make, unless they give something twice. -/
def Document.ofStatements? (statements : List Statement) : Option Document := do
  let (draft, _) ← statements.foldlM Draft.take (Draft.empty, [])
  return ⟨draft.root, draft.keys⟩

end Toml
end MessageSchema.Data
