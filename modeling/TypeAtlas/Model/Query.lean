/-
Questions about one model. Codes and qualifiers are matched exactly; what is unknown has no answer
or an empty one.
-/
import TypeAtlas.Model.Basic
import TypeAtlas.Text.Property

namespace TypeAtlas.Model

/-! ## Item types -/

/-- The item type with a code, with its own members. -/
def item? (m : Model) (code : String) : Option (Node × ItemData) := do
  let n ← m.find? code
  let data ← n.data.item?
  return (n, data)

/-- The hierarchy of an item type. -/
def hierarchy? (m : Model) (code : String) : Option Hierarchy :=
  (m.item? code).bind fun (n, _) => n.hierarchy

/-- The item types among ids. -/
def items (m : Model) (ids : List TypeId) : List Node :=
  (ids.filterMap m.node?).filter fun n => n.kind == .item

/-- The chain of parents of an item type, root first, ending with the type itself. -/
def ancestors (m : Model) (code : String) : List Node :=
  ((m.hierarchy? code).map fun h => m.items h.ancestors).getD []

/-- Everything below a type. -/
def descendants (m : Model) (code : String) : List Node :=
  ((m.idOf? code).map fun id => m.items (m.descendantsOf id)).getD []

/-! ## Members -/

/-- An attribute of an item type, its own or, if asked for, an inherited one; an own attribute hides
an inherited one. -/
def attribute? (m : Model) (code qualifier : String) (inherited : Bool) : Option Attribute :=
  match m.item? code with
  | none => none
  | some (n, data) =>
    match if inherited then n.hierarchy else none with
    | some h => h.attributes.get? qualifier
    | none => data.attributes.get? qualifier

/-- The own and inherited attributes of an item type. -/
def attributes (m : Model) (code : String) : List Attribute :=
  ((m.hierarchy? code).map fun h => h.attributes.values).getD []

/-- The relation ends reached from an item type. -/
def relationEnds (m : Model) (code : String) (inherited : Bool) : List RelationEnd :=
  match m.hierarchy? code with
  | none => []
  | some h => if inherited then h.ends else h.ownEnds

/-- The relation ends reached from an item type under a qualifier. Several relations may use one. -/
def relationEndsNamed (m : Model) (code qualifier : String) (inherited : Bool) :
    List RelationEnd :=
  (m.relationEnds code inherited).filter fun e => e.qualifier == some qualifier

/-- The literals of an enumeration with their places. -/
def enumValues (m : Model) (code : String) : List (String × Location) :=
  match m.find? code with
  | none => []
  | some n =>
    match n.data with
    | .enum data => data.values.entries
    | _ => []

/-! ## Catalog awareness -/

/-- Whether a code is an item type that is marked, itself or through an ancestor, as catalog
aware. -/
def isCatalogItem (m : Model) (code : String) : Bool :=
  match m.hierarchy? code with
  | none => false
  | some h => (h.properties.get? m.config.catalogAwareMarker).any Text.isTruthy

/-- Whether a member leads to a catalog-aware item type. An attribute decides alone; without one,
some relation end has to. -/
def isCatalogAware (m : Model) (code qualifier : String) (inherited : Bool) : Bool :=
  match m.attribute? code qualifier inherited with
  | some a => m.isCatalogItem a.typeRef
  | none => (m.relationEndsNamed code qualifier inherited).any fun e => m.isCatalogItem e.typeCode

end TypeAtlas.Model
