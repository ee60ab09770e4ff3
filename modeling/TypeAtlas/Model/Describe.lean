/-
Inspection texts of types: one line that shows the code of a collection or map type and the types it
is made of.
-/
import TypeAtlas.Model.Node
import TypeAtlas.Text.Quoted

namespace TypeAtlas

/-- A record as it is shown: its name, then its fields in braces. -/
def showRecord (name : String) (fields : List (String × String)) : String :=
  name ++ " \x7b " ++ ", ".intercalate (fields.map fun f => f.1 ++ ": " ++ f.2) ++ " \x7d"

/-- The text of the data of a collection or map type. -/
def TypeData.describe? : TypeData → Option String
  | collection elementType container =>
    some (showRecord "CollectionType"
      [("element_type", Text.quoted elementType), ("collection_kind", container.debug)])
  | map argumentType returnType =>
    some (showRecord "MapType"
      [("argument_type", Text.quoted argumentType), ("return_type", Text.quoted returnType)])
  | _ => none

/-- The text of a collection or map type. -/
def Merged.describe? (m : Merged) : Option String :=
  m.data.describe?.map fun data =>
    showRecord "NodeRef" [("code", Text.quoted m.code), ("data", data)]

end TypeAtlas
