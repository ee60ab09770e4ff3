/-
Declaration records as an external reader of declaration files hands them over. Everything but the
kind of a declaration may be missing: the reader reports what it found, and adaptation decides what
can be used.
-/
import TypeAtlas.Kind

namespace TypeAtlas.Record

/-- Offsets of an element in its file, if the reader knows them. -/
abbrev Range := Option (Nat × Nat)

/-- The modifier flags that were written. -/
structure Modifiers where
  read : Option Bool := none
  write : Option Bool := none
  search : Option Bool := none
  optional : Option Bool := none
  unique : Option Bool := none
  initial : Option Bool := none
  isPrivate : Option Bool := none
  removable : Option Bool := none
  partOf : Option Bool := none
  encrypted : Option Bool := none
  localized : Option Bool := none
deriving DecidableEq

/-- An attribute of an item type. -/
structure Attribute where
  qualifier : Option String := none
  typeRef : Option String := none
  persistence : Option Persistence := none
  modifiers : Modifiers := {}
  handler : Option String := none
  defaultValue : Option String := none
  properties : List (String × String) := []
  range : Range := none
deriving DecidableEq

/-- A database index of an item type. -/
structure Index where
  name : Option String := none
  keys : List String := []
  unique : Option Bool := none
  range : Range := none
deriving DecidableEq

/-- A literal of an enumeration. -/
structure EnumValue where
  code : Option String := none
  range : Range := none
deriving DecidableEq

/-- One end of a relation. -/
structure RelationEnd where
  typeCode : Option String := none
  qualifier : Option String := none
  cardinality : Option Cardinality := none
  ordering : List String := []
  container : Option Container := none
  navigable : Option Bool := none
  modifiers : Modifiers := {}
  range : Range := none
deriving DecidableEq

/-- A type declaration. Which fields count depends on its kind. -/
structure Declaration where
  kind : Kind := .item
  code : Option String := none
  parent : Option String := none
  attributes : List Attribute := []
  indexes : List Index := []
  values : List EnumValue := []
  dynamic : Option Bool := none
  source : Option RelationEnd := none
  target : Option RelationEnd := none
  elementType : Option String := none
  container : Option Container := none
  argumentType : Option String := none
  returnType : Option String := none
  properties : List (String × String) := []
  range : Range := none
deriving DecidableEq

/-- The declarations of one file. -/
structure File where
  path : String := ""
  module : String := ""
  custom : Bool := false
  declarations : List Declaration := []
deriving DecidableEq

end TypeAtlas.Record
