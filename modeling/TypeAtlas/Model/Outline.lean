/-
The links between merged types: who extends whom, and which relation ends an item type reaches. The
links follow from the merged types alone.
-/
import TypeAtlas.Model.Node
import TypeAtlas.Model.Reach

namespace TypeAtlas

/-- What the parent of a type resolves to. -/
inductive Parent where
  /-- The type declares no parent. -/
  | none
  /-- The declared code is unknown or no item type's. -/
  | missing (code : String)
  | item (id : TypeId)
deriving DecidableEq

namespace Merged

/-- The ends of a relation that the type with code `owner` reaches: the target end if it is bound
to the source, then the source end if it is bound to the target. -/
def endsFrom (m : Merged) (owner : String) : List RelationEnd :=
  match m.data with
  | .relation source target =>
    (if source.typeCode = owner then
      [{ target with relation := m.code, side := .target, owner }] else []) ++
    (if target.typeCode = owner then
      [{ source with relation := m.code, side := .source, owner }] else [])
  | _ => []

end Merged

/-- The position of a code in a table of types. -/
def idOf? (types : List Merged) (code : String) : Option TypeId :=
  types.findIdx? fun m => m.code == code

/-- What the parent of a type resolves to in a table of types. -/
def parentIn (types : List Merged) (m : Merged) : Parent :=
  match m.data.item?.bind ItemData.parent with
  | none => .none
  | some link =>
    match idOf? types link.code with
    | some id => if (types[id]?).any Merged.isItem then .item id else .missing link.code
    | none => .missing link.code

/-- The relation ends that a type reaches by relations of its own; only item types reach any. -/
def ownEndsIn (types : List Merged) (m : Merged) : List RelationEnd :=
  if m.isItem then types.flatMap fun r => r.endsFrom m.code else []

/-- Merged types with their links, by position. -/
structure Outline where
  types : List Merged
  parents : List Parent
  ownEnds : List (List RelationEnd)

namespace Outline

/-- The outline of a table of types. -/
def ofTypes (types : List Merged) : Outline where
  types
  parents := types.map (parentIn types)
  ownEnds := types.map (ownEndsIn types)

/-- What the parent of a type resolves to. -/
def parent (o : Outline) (id : TypeId) : Parent := (o.parents[id]?).getD .none

/-- The item type that a type extends. -/
def parentItem? (o : Outline) (id : TypeId) : Option TypeId :=
  match o.parent id with
  | .item p => some p
  | _ => none

/-- The relation ends that a type reaches by relations of its own. -/
def endsOf (o : Outline) (id : TypeId) : List RelationEnd := (o.ownEnds[id]?).getD []

/-- The direct children of every type, ascending. -/
def children (o : Outline) : ChildTable :=
  (List.range o.types.length).map fun p =>
    (o.parents.zipIdx.filter fun row => row.1 == .item p).map Prod.snd

end Outline

end TypeAtlas
