/-
Declarations: what one file says about one type. A declaration may be partial, since several files
may declare the same type; a group holds the declarations of one file, and an edit of the file
replaces the whole group.
-/
import TypeAtlas.Dict
import TypeAtlas.Diagnostic
import TypeAtlas.Kind

namespace TypeAtlas

/-- Custom key and value annotations. -/
abbrev Properties := Dict String

/-- The modifiers of an attribute or a relation end. Unless stated otherwise a member can be read,
written, searched, left out and removed. -/
structure Modifiers where
  read : Bool := true
  write : Bool := true
  search : Bool := true
  optional : Bool := true
  unique : Bool := false
  /-- The value is given when an object is created. -/
  initial : Bool := false
  isPrivate : Bool := false
  removable : Bool := true
  partOf : Bool := false
  encrypted : Bool := false
deriving DecidableEq

/-- Can be read but not written. -/
def Modifiers.readOnly (m : Modifiers) : Bool := m.read && !m.write

/-- The module and the place of a declaration. -/
structure Provenance where
  module : ModuleId
  location : Location
deriving DecidableEq

/-- An attribute as declared. -/
structure AttributeDecl where
  qualifier : String
  /-- The code of the value type; empty when not stated. -/
  typeRef : String
  localized : Bool
  persistence : Persistence
  modifiers : Modifiers
  /-- The handler of a dynamic attribute. -/
  handler : Option String
  defaultValue : Option String
  properties : Properties
  location : Location
deriving BEq

/-- An index as declared. -/
structure IndexDecl where
  name : String
  keys : List String
  unique : Bool
  location : Location
deriving DecidableEq

/-- One end of a relation as declared. -/
structure EndDecl where
  /-- The item type bound to this end; empty when not stated. -/
  typeCode : String
  /-- The name under which the opposite type reaches this end. -/
  qualifier : Option String
  cardinality : Cardinality
  ordering : List String
  container : Option Container
  navigable : Bool
  modifiers : Modifiers
  location : Location
deriving DecidableEq

/-- A literal of an enumeration as declared. -/
structure EnumValueDecl where
  code : String
  location : Location
deriving DecidableEq

/-- The part of a declaration that depends on its kind. -/
inductive Body where
  | item (parent : Option String) (attributes : List AttributeDecl) (indexes : List IndexDecl)
  | enum (values : List EnumValueDecl) (dynamic : Bool)
  | relation (source target : EndDecl)
  | collection (elementType : String) (container : Container)
  | map (argumentType returnType : String)
deriving BEq

/-- The kind of a declaration's body. -/
def Body.kind : Body → Kind
  | item .. => .item
  | enum .. => .enum
  | relation .. => .relation
  | collection .. => .collection
  | map .. => .map

/-- What one file says about one type. -/
structure Declaration where
  code : String
  body : Body
  properties : Properties
  provenance : Provenance
deriving BEq

namespace Declaration

def kind (d : Declaration) : Kind := d.body.kind

def location (d : Declaration) : Location := d.provenance.location

end Declaration

/-- The declarations of one file, with the defects found while adapting them. -/
structure Group where
  file : FileId
  module : ModuleId
  declarations : List Declaration
  diagnostics : List Diagnostic
deriving BEq

namespace Group

/-- The group of a file that declares nothing. -/
def empty (file : FileId) (module : ModuleId) : Group := ⟨file, module, [], []⟩

/-- Number of declarations. -/
def size (g : Group) : Nat := g.declarations.length

def isEmpty (g : Group) : Bool := g.declarations.isEmpty

end Group

end TypeAtlas
