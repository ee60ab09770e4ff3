/-
Types of a model: what the declarations of one code say together, and the hierarchy of an item type,
which adds what it inherits.
-/
import TypeAtlas.Declaration.Basic

namespace TypeAtlas

/-! ## Members -/

/-- An attribute with the item type that declares it. -/
structure Attribute extends AttributeDecl where
  owner : String
deriving BEq

namespace Attribute

def isUnique (a : Attribute) : Bool := a.modifiers.unique

def isDynamic (a : Attribute) : Bool := a.persistence == .dynamic

end Attribute

/-- An index with the item type that declares it. -/
structure Index extends IndexDecl where
  owner : String
deriving DecidableEq

/-- The two sides of a relation. -/
inductive Side where
  | source
  | target
deriving DecidableEq

namespace Side

def word : Side → String
  | source => "source"
  | target => "target"

def opposite : Side → Side
  | source => target
  | target => source

end Side

/-- An end of a relation as seen from the type at the opposite end, its owner. -/
structure RelationEnd extends EndDecl where
  relation : String
  side : Side
  owner : String
deriving DecidableEq

def RelationEnd.isMany (e : RelationEnd) : Bool := e.cardinality == .many

/-! ## Merged types -/

/-- The parent of an item type and where it was declared. -/
structure Extends where
  code : String
  location : Location
deriving DecidableEq

/-- The own members of an item type. -/
structure ItemData where
  parent : Option Extends := none
  attributes : Dict Attribute := .empty
  indexes : Dict Index := .empty
deriving BEq

/-- The literals of an enumeration, each with its first place. -/
structure EnumData where
  values : Dict Location := .empty
  dynamic : Bool := false
deriving BEq

/-- The part of a type that depends on its kind. -/
inductive TypeData where
  | item (data : ItemData)
  | enum (data : EnumData)
  | relation (source target : EndDecl)
  | collection (elementType : String) (container : Container)
  | map (argumentType returnType : String)
deriving BEq

namespace TypeData

def kind : TypeData → Kind
  | item _ => .item
  | enum _ => .enum
  | relation .. => .relation
  | collection .. => .collection
  | map .. => .map

/-- The own members, for an item type. -/
def item? : TypeData → Option ItemData
  | item data => some data
  | _ => none

end TypeData

/-- What the declarations of one code say together. -/
structure Merged where
  id : TypeId
  code : String
  data : TypeData
  properties : Properties
  /-- The place of the declaration whose kind won. -/
  location : Location
  /-- The declarations that contributed, in merge order. -/
  provenance : List Provenance
deriving BEq

namespace Merged

def kind (m : Merged) : Kind := m.data.kind

def isItem (m : Merged) : Bool := m.kind == .item

/-- Whether two types have the content that hierarchies depend on: data and own properties. -/
def sameContent (m n : Merged) : Bool := m.data == n.data && m.properties == n.properties

end Merged

/-! ## Hierarchies -/

/-- Where the chain of parents ends. -/
inductive Status where
  /-- At a type without a parent. -/
  | complete
  /-- At a parent that is unknown or no item type. -/
  | incomplete (missing : String)
  /-- Nowhere: the chain runs into a cycle. -/
  | cycle
deriving DecidableEq

/-- An item type together with what it inherits. -/
structure Hierarchy where
  status : Status
  /-- The chain of parents, root first, ending with the type itself. -/
  ancestors : List TypeId
  attributes : Dict Attribute
  indexes : Dict Index
  /-- The relation ends reached from exactly this type. -/
  ownEnds : List RelationEnd
  /-- The relation ends of the ancestors, then the own ones. -/
  ends : List RelationEnd
  properties : Properties
  diagnostics : List Diagnostic
deriving BEq

namespace Hierarchy

def isComplete (h : Hierarchy) : Bool := h.status == .complete

def isCycle (h : Hierarchy) : Bool := h.status == .cycle

end Hierarchy

/-- A type of a model. Item types have a hierarchy. -/
structure Node extends Merged where
  hierarchy : Option Hierarchy
deriving BEq

end TypeAtlas
