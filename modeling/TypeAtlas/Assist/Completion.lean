/-
Completion: the names that can follow in an editor, from one model.
-/
import TypeAtlas.Model.Query

namespace TypeAtlas

/-- What a completion stands for. -/
inductive CompletionKind where
  | type (kind : Kind)
  | attributeName
  | relationEnd
  | enumValue
  /-- The key or the value of a map type. -/
  | mapEntry
deriving DecidableEq

/-- The word of a completion kind in answers. -/
def CompletionKind.word : CompletionKind → String
  | type kind => "type:" ++ kind.word
  | attributeName => "attribute"
  | relationEnd => "relation_end"
  | enumValue => "enum_value"
  | mapEntry => "map_entry"

/-- A name that can follow. -/
structure Completion where
  label : String
  kind : CompletionKind
  detail : Option String
deriving DecidableEq

namespace Completion

/-- The codes of every type of the given kinds, kind by kind. -/
def typeCodes (m : Model) (kinds : List Kind) : List Completion :=
  kinds.flatMap fun kind => (m.ofKind kind).map fun n => ⟨n.code, .type n.kind, none⟩

/-- An end that has a qualifier. -/
def ofEnd? (e : EndDecl) : Option Completion :=
  e.qualifier.map fun q => ⟨q, .relationEnd, some e.typeCode⟩

/-- The attributes of an item type, then its qualified relation ends, inherited ones included. -/
def ofHierarchy (h : Hierarchy) : List Completion :=
  h.attributes.values.map (fun a => ⟨a.qualifier, .attributeName, some a.typeRef⟩) ++
    h.ends.filterMap fun e => ofEnd? e.toEndDecl

/-- The members of a type that is no collection. -/
def ofNode (n : Node) : List Completion :=
  match n.data with
  | .item _ => (n.hierarchy.map ofHierarchy).getD []
  | .enum data => data.values.keys.map fun v => ⟨v, .enumValue, some n.code⟩
  | .relation source target => [source, target].filterMap ofEnd?
  | .collection .. => []
  | .map argumentType returnType =>
    [⟨"key", .mapEntry, some argumentType⟩, ⟨"value", .mapEntry, some returnType⟩]

/-- The members behind a code, passing through at most `hops` collection types. -/
def membersWithin (m : Model) : Nat → String → List Completion
  | 0, code => ((m.find? code).map ofNode).getD []
  | hops + 1, code =>
    match m.find? code with
    | none => []
    | some n =>
      match n.data with
      | .collection elementType _ => membersWithin m hops elementType
      | _ => ofNode n

/-- The members of a type. A collection type has the members of its element type, as far as the
settings allow. -/
def members (m : Model) (code : String) : List Completion :=
  membersWithin m m.config.maxCompletionDepth code

/-- Everything below a type. -/
def subtypes (m : Model) (code : String) : List Completion :=
  (m.descendants code).map fun n => ⟨n.code, .type .item, some ("child of " ++ code)⟩

end Completion

end TypeAtlas
