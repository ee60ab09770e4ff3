/-
The closed vocabularies of type declarations, each with the words that spell its members.
-/

namespace TypeAtlas

/-- The five kinds of types. -/
inductive Kind where
  | item
  | enum
  | relation
  | collection
  | map
deriving DecidableEq, Inhabited

namespace Kind

/-- Every kind, in the order in which kinds are listed. -/
def all : List Kind := [item, enum, relation, collection, map]

/-- The word of a kind in records. -/
def word : Kind → String
  | item => "item"
  | enum => "enum"
  | relation => "relation"
  | collection => "collection"
  | map => "map"

/-- The kind that a word spells. -/
def ofWord? (w : String) : Option Kind := all.find? fun k => k.word == w

/-- The name of a kind in messages. -/
def display : Kind → String
  | item => "item type"
  | enum => "enum type"
  | relation => "relation"
  | collection => "collection type"
  | map => "map type"

end Kind

/-- How the value of an attribute is stored. -/
inductive Persistence where
  | property
  | dynamic
  | jalo
deriving DecidableEq, Inhabited

namespace Persistence

def all : List Persistence := [property, dynamic, jalo]

def word : Persistence → String
  | property => "property"
  | dynamic => "dynamic"
  | jalo => "jalo"

def ofWord? (w : String) : Option Persistence := all.find? fun p => p.word == w

end Persistence

/-- How many objects a relation end reaches. -/
inductive Cardinality where
  | one
  | many
deriving DecidableEq, Inhabited

namespace Cardinality

def all : List Cardinality := [one, many]

def word : Cardinality → String
  | one => "one"
  | many => "many"

def ofWord? (w : String) : Option Cardinality := all.find? fun c => c.word == w

end Cardinality

/-- The container of a collection type or of a relation end that reaches many objects. -/
inductive Container where
  | collection
  | set
  | list
deriving DecidableEq, Inhabited

namespace Container

def all : List Container := [collection, set, list]

def word : Container → String
  | collection => "collection"
  | set => "set"
  | list => "list"

def ofWord? (w : String) : Option Container := all.find? fun c => c.word == w

/-- The name of a container in inspection texts. -/
def debug : Container → String
  | collection => "Collection"
  | set => "Set"
  | list => "List"

end Container

/-- The order in which the groups of different modules are merged. -/
inductive MergeOrder where
  /-- By module registration, then by file. -/
  | loadOrder
  /-- Platform modules before custom ones, each part by module registration, then by file. -/
  | platformFirst
deriving DecidableEq, Inhabited

namespace MergeOrder

def all : List MergeOrder := [loadOrder, platformFirst]

def word : MergeOrder → String
  | loadOrder => "load_order"
  | platformFirst => "platform_first"

def ofWord? (w : String) : Option MergeOrder := all.find? fun o => o.word == w

end MergeOrder

end TypeAtlas
