/-
Merging the declarations of one code. Declarations are taken in merge order, and the last one
decides the kind; declarations of another kind are reported and left out. Of the rest, per key the
later declaration wins, except that an enumeration keeps the first place of each literal.
-/
import TypeAtlas.Model.Node

namespace TypeAtlas.Merge

/-- Two value types that are both known and differ. -/
def incompatible (previous declared : String) : Bool :=
  !previous.isEmpty && !declared.isEmpty && previous != declared

/-! ## Item types -/

/-- An item type while its declarations are merged. -/
structure Progress where
  data : ItemData := {}
  findings : List Diagnostic := []

/-- The finding for a second, different parent. -/
def parentConflict (code : String) (location : Location) (previous : Option Extends)
    (parent : String) : List Diagnostic :=
  match previous with
  | some p =>
    if p.code = parent then []
    else [.conflictingParent location code parent p.code p.location]
  | none => []

/-- Takes the parent that a declaration states, if it states one. -/
def addParent (code : String) (location : Location) (p : Progress) : Option String → Progress
  | none => p
  | some parent =>
    { data := { p.data with parent := some ⟨parent, location⟩ }
      findings := p.findings ++ parentConflict code location p.data.parent parent }

/-- The finding for an attribute that changes the type of the one before it. -/
def overrideConflict (previous : Option Attribute) (declared : AttributeDecl) : List Diagnostic :=
  match previous with
  | some a =>
    if incompatible a.typeRef declared.typeRef then
      [.incompatibleOverride declared.location declared.qualifier declared.typeRef a.typeRef
        a.location]
    else []
  | none => []

/-- Takes an attribute over the one with its qualifier. -/
def addAttribute (code : String) (p : Progress) (a : AttributeDecl) : Progress where
  data := { p.data with attributes := p.data.attributes.insert a.qualifier ⟨a, code⟩ }
  findings := p.findings ++ overrideConflict (p.data.attributes.get? a.qualifier) a

/-- Takes an index over the one with its name. -/
def addIndex (code : String) (p : Progress) (i : IndexDecl) : Progress :=
  { p with data := { p.data with indexes := p.data.indexes.insert i.name ⟨i, code⟩ } }

/-- Takes the parent, the attributes and the indexes of a declaration. -/
def addItem (code : String) (p : Progress) (d : Declaration) : Progress :=
  match d.body with
  | .item parent attributes indexes =>
    let p := addParent code d.location p parent
    let p := attributes.foldl (addAttribute code) p
    indexes.foldl (addIndex code) p
  | _ => p

/-- The item type that declarations make together. -/
def item (code : String) (ds : List Declaration) : Progress := ds.foldl (addItem code) {}

/-! ## Enumerations -/

/-- Takes the new literals of a declaration; one dynamic declaration makes the type dynamic. -/
def addEnum (e : EnumData) (d : Declaration) : EnumData :=
  match d.body with
  | .enum values dynamic =>
    { values := values.foldl (fun acc v => acc.insertNew v.code v.location) e.values
      dynamic := e.dynamic || dynamic }
  | _ => e

/-- The enumeration that declarations make together. -/
def enum (ds : List Declaration) : EnumData := ds.foldl addEnum {}

/-! ## Types -/

/-- The kind-dependent part of the type whose last declaration is `winner`, with the findings. -/
def data (code : String) (winner : Declaration) (ds : List Declaration) :
    TypeData × List Diagnostic :=
  match winner.body with
  | .item .. =>
    let p := item code ds
    (.item p.data, p.findings)
  | .enum .. => (.enum (enum ds), [])
  | .relation source target => (.relation source target, [])
  | .collection elementType container => (.collection elementType container, [])
  | .map argumentType returnType => (.map argumentType returnType, [])

/-- The declarations of the winning kind. -/
def contributing (winner : Declaration) (ds : List Declaration) : List Declaration :=
  ds.filter fun d => d.kind == winner.kind

/-- The findings for the declarations of another kind. -/
def kindConflicts (code : String) (winner : Declaration) (ds : List Declaration) :
    List Diagnostic :=
  (ds.filter fun d => d.kind != winner.kind).map fun d =>
    .conflictingKind d.location code d.kind.display winner.kind.display winner.location

/-- The properties of declarations, the later over the earlier. -/
def properties (ds : List Declaration) : Properties :=
  ds.foldl (fun acc d => acc.overlay d.properties) .empty

/-- The type that the declarations of one code make, with the findings; none without a
declaration. -/
def type? (id : TypeId) (code : String) (ds : List Declaration) :
    Option (Merged × List Diagnostic) :=
  ds.getLast?.map fun winner =>
    let parts := contributing winner ds
    let (data, findings) := data code winner parts
    ({ id, code, data, properties := properties parts, location := winner.location,
       provenance := parts.map Declaration.provenance },
      kindConflicts code winner ds ++ findings)

/-! ## All types -/

/-- The declarations of groups, in order. -/
def declarations (groups : List Group) : List Declaration :=
  groups.flatMap Group.declarations

/-- The declared codes, in order of first declaration. -/
def codes (ds : List Declaration) : List String := (ds.map Declaration.code).eraseDups

/-- Every declared type with its findings; the position of a code is the id of its type. -/
def all (ds : List Declaration) : List (Merged × List Diagnostic) :=
  (codes ds).zipIdx.filterMap fun (code, id) =>
    type? id code (ds.filter fun d => d.code == code)

end TypeAtlas.Merge
