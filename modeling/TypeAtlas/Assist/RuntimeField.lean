/-
Fields of runtime objects: which fields of an object a debugger shows, given the name of its class
and the names of its fields.
-/
import TypeAtlas.Model.Query

namespace TypeAtlas

/-- What stands behind a field. -/
inductive Backing where
  | attributeOf (a : Attribute)
  | relationEnd (e : RelationEnd)

/-- The code of the value type of a field. -/
def Backing.typeCode : Backing → String
  | attributeOf a => a.typeRef
  | relationEnd e => e.typeCode

/-- A field that stands for a member of the object's type. -/
structure RuntimeField where
  name : String
  backing : Backing

namespace RuntimeField

/-- Whether a field name, up to the case of ASCII letters, names an end that can be followed and
read. -/
def namesEnd (name : String) (e : RelationEnd) : Bool :=
  e.navigable && e.modifiers.read && e.qualifier.any fun q => Text.sameIgnoringAsciiCase q name

/-- The readable attribute with exactly the field's name, or else the first relation end that the
field names. Fields with a leading underscore are internal. -/
def backing? (h : Hierarchy) (name : String) : Option Backing :=
  if "_".toList.isPrefixOf name.toList then none
  else
    match (h.attributes.get? name).filter fun a => a.modifiers.read with
    | some a => some (.attributeOf a)
    | none => (h.ends.find? (namesEnd name)).map .relationEnd

/-- The fields that stand for members, sorted by name. -/
def render (m : Model) (className : String) (names : List String) : List RuntimeField :=
  match m.hierarchy? (Text.typeCodeForClass className) with
  | none => []
  | some h =>
    let fields : List RuntimeField :=
      names.filterMap fun name => (backing? h name).map fun b => ⟨name, b⟩
    fields.mergeSort fun a b => decide (a.name ≤ b.name)

end RuntimeField

end TypeAtlas
