import MessageSchema.Data.Json.Writer
import MessageSchema.Data.Yaml.Order
import MessageSchema.Data.Yaml.Writer
import MessageSchema.Export.Description

namespace MessageSchema.Export

/-!
Descriptions written as JSON.
-/

/-- A description as a JSON document; an absent list is null. -/
def Description.json (description : Description) : String :=
  Data.Json.document (description.data .null)

def Description.json? (description : Description) : Option String :=
  let data := description.data .null
  if Data.Json.isWritable data then some (Data.Json.document data) else none

/-!
Descriptions written as YAML.
-/

def FieldInfo.arranged (field : FieldInfo) : FieldInfo :=
  { field with default := Data.Yaml.arranged field.default }

def MessageInfo.arranged (message : MessageInfo) : MessageInfo :=
  { message with fields := message.fields.map FieldInfo.arranged }

def Description.arranged (description : Description) : Description :=
  { description with messages := description.messages.map (·.map MessageInfo.arranged) }

/-- A description as a YAML document; an absent list is an empty one. -/
def Description.yaml (description : Description) : String :=
  Data.Yaml.document (description.arranged.data (.list []))

/-!
What a compiled schema can be turned into: a report, and a description in one of
two formats.
-/

structure Products where
  tree : List Report.Line
  index : List Report.Line
  description : Description
  references : References

namespace Products

def of (compiled : Compiled) : Products where
  tree := Report.typesLines (·.name.text) compiled.types
  index := Report.indexLines compiled.table
  description := describe compiled
  references := compiled.references

def dependencyLines (products : Products) : List Report.Line :=
  Report.referenceLines products.references

def report (products : Products) : List Report.Line :=
  products.tree
    ++ ⟨0, "--- INDEX ---"⟩ :: products.index
    ++ ⟨0, "--- EXTREFS ---"⟩ :: products.dependencyLines

def messageNames (products : Products) : List String :=
  (products.description.messages.getD []).map MessageInfo.name

end Products

inductive Format where
  | text
  | json
  | yaml
deriving DecidableEq, Repr

namespace Format

def name : Format -> String
  | text => "text"
  | json => "json"
  | yaml => "yaml"

def ofName? (name : String) : Option Format :=
  [text, json, yaml].find? fun format => format.name == name

def write (format : Format) (products : Products) : String :=
  match format with
  | text => Report.render products.report
  | json => products.description.json
  | yaml => products.description.yaml

end Format
end MessageSchema.Export
