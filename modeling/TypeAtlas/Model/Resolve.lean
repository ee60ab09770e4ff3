/-
Resolving inheritance. The hierarchies are kept in a table that is filled in id order. To fill an
entry, `climb` follows parents until it meets a filled entry, a type without a parent item, or a
type of its own path; a cycle is settled first, then the types that led to it are derived, each from
its parent's hierarchy, the one nearest to the root first. Hierarchies of an earlier model are kept
where neither the type nor anything above it has changed.
-/
import TypeAtlas.Model.Merge
import TypeAtlas.Model.Outline

namespace TypeAtlas

/-- The hierarchies found so far, by position. -/
abbrev HierarchyTable := List (Option Hierarchy)

/-- The hierarchy of a type, if it is filled in. -/
def HierarchyTable.at? (table : HierarchyTable) (id : TypeId) : Option Hierarchy :=
  (table[id]?).join

namespace Resolve

/-! ## One hierarchy -/

/-- The hierarchy of a type that inherits nothing. -/
def ownOnly (o : Outline) (m : Merged) (data : ItemData) (status : Status)
    (diagnostics : List Diagnostic) : Hierarchy where
  status
  ancestors := [m.id]
  attributes := data.attributes
  indexes := data.indexes
  ownEnds := o.endsOf m.id
  ends := o.endsOf m.id
  properties := m.properties
  diagnostics

/-- The findings for own attributes that change the type of an inherited one. -/
def overrides (inherited own : Dict Attribute) : List Diagnostic :=
  own.entries.flatMap fun row => Merge.overrideConflict (inherited.get? row.1) row.2.toAttributeDecl

/-- The hierarchy of a type over its parent's. -/
def extend (o : Outline) (m : Merged) (data : ItemData) (parent : Hierarchy) : Hierarchy where
  status := parent.status
  ancestors := parent.ancestors ++ [m.id]
  attributes := parent.attributes.overlay data.attributes
  indexes := parent.indexes.overlay data.indexes
  ownEnds := o.endsOf m.id
  ends := parent.ends ++ o.endsOf m.id
  properties := parent.properties.overlay m.properties
  diagnostics := overrides parent.attributes data.attributes

/-- The place that a finding about the parent of a type is reported at. -/
def parentLocation (m : Merged) (data : ItemData) : Location :=
  match data.parent with
  | some link => link.location
  | none => m.location

/-- The hierarchy of an item type whose parent, if it has one, is filled in. -/
def derive (o : Outline) (table : HierarchyTable) (m : Merged) (data : ItemData) : Hierarchy :=
  match o.parent m.id with
  | .missing code =>
    ownOnly o m data (.incomplete code) [.unresolvedParent (parentLocation m data) m.code code]
  | .none => ownOnly o m data .complete []
  | .item p =>
    match table.at? p with
    | none => ownOnly o m data .complete []
    | some parent =>
      -- a type that leads into a cycle is not reported again
      if parent.isCycle then ownOnly o m data .cycle [] else extend o m data parent

/-! ## Walks -/

/-- A walk towards the root: the types that lead to its end, nearest to the root first, and the
cycle it ran into, if any, from child to parent. -/
structure Walk where
  leadIn : List TypeId
  cycle : List TypeId

/-- Follows parents from `id`. The path holds the types passed, the last one first; `fuel` bounds
the types that may still be passed. -/
def climb (o : Outline) (table : HierarchyTable) : Nat → List TypeId → TypeId → Walk
  | 0, path, _ => ⟨path, []⟩
  | fuel + 1, path, id =>
    if (table.at? id).isSome then ⟨path, []⟩
    else if path.contains id then
      ⟨(path.dropWhile (· != id)).drop 1, id :: (path.takeWhile (· != id)).reverse⟩
    else
      match o.parentItem? id with
      | some p => climb o table fuel (id :: path) p
      | none => ⟨id :: path, []⟩

/-- The walk from a type: no more types can be passed than there are, and one more step finds the
way closed. -/
def walkFrom (o : Outline) (table : HierarchyTable) (id : TypeId) : Walk :=
  climb o table (o.types.length + 1) [] id

/-! ## Filling the table -/

/-- The table while it is filled, with the number of hierarchies computed. -/
structure Pass where
  table : HierarchyTable
  resolved : Nat

/-- Fills in the entry of a type. -/
def Pass.store (p : Pass) (id : TypeId) (h : Hierarchy) : Pass :=
  ⟨p.table.set id (some h), p.resolved + 1⟩

/-- Fills in an item type on a cycle, which inherits nothing. -/
def Pass.markCycle (o : Outline) (cycle : List String) (p : Pass) (id : TypeId) : Pass :=
  match o.types[id]? with
  | some m =>
    match m.data with
    | .item data =>
      p.store id (ownOnly o m data .cycle [.cyclicExtends m.location m.code cycle])
    | _ => p
  | none => p

/-- Fills in an item type from its parent. -/
def Pass.deriveOne (o : Outline) (p : Pass) (id : TypeId) : Pass :=
  match o.types[id]? with
  | some m =>
    match m.data with
    | .item data => p.store id (derive o p.table m data)
    | _ => p
  | none => p

/-- The codes of a cycle, the first one repeated at the end. -/
def cycleCodes (o : Outline) (cycle : List TypeId) : List String :=
  (cycle ++ cycle.take 1).filterMap fun id => (o.types[id]?).map Merged.code

/-- Fills in the types of a walk. -/
def Pass.settle (o : Outline) (p : Pass) (w : Walk) : Pass :=
  w.leadIn.foldl (Pass.deriveOne o) (w.cycle.foldl (Pass.markCycle o (cycleCodes o w.cycle)) p)

/-- Fills in an item type, and the types above it, unless it is filled in already. -/
def Pass.resolve (o : Outline) (p : Pass) (m : Merged) : Pass :=
  if m.isItem && (p.table.at? m.id).isNone then p.settle o (walkFrom o p.table m.id) else p

/-- Fills in every item type, in id order. -/
def run (o : Outline) (start : HierarchyTable) : Pass :=
  o.types.foldl (Pass.resolve o) ⟨start, 0⟩

end Resolve

/-! ## Keeping hierarchies of an earlier model -/

/-- What may differ from the model before. -/
inductive Scope where
  /-- Anything. -/
  | full
  /-- The listed item types and everything below them. -/
  | subtrees (changed : List TypeId)
deriving DecidableEq

def Scope.isFull : Scope → Bool
  | full => true
  | subtrees _ => false

namespace Resolve

/-- Same codes in the same order with the same kinds. -/
def sameCodeTable (old : List Node) (types : List Merged) : Bool :=
  old.map (fun n => (n.code, n.kind)) == types.map fun m => (m.code, m.kind)

/-- Whether an item type differs from what it was: in content, or in the ends it reaches. -/
def changed (o : Outline) (old : List Node) (m : Merged) : Bool :=
  match old[m.id]? with
  | some n =>
    !n.toMerged.sameContent m ||
      match n.hierarchy with
      | some h => h.ownEnds != o.endsOf m.id
      | none => true
  | none => true

/-- The item types that differ from what they were, ascending. -/
def changedItems (o : Outline) (old : List Node) : List TypeId :=
  (o.types.filter fun m => m.isItem && changed o old m).map Merged.id

/-- The hierarchies of an earlier model, without those of the affected types. -/
def kept (o : Outline) (old : List Node) (affected : List TypeId) : HierarchyTable :=
  o.types.map fun m => if affected.contains m.id then none else (old[m.id]?).bind Node.hierarchy

end Resolve

/-- Resolved types: nodes, child links, what may have changed, and how many hierarchies were
computed. -/
structure Resolution where
  nodes : List Node
  children : ChildTable
  scope : Scope
  resolved : Nat

/-- Resolves merged types. With an earlier table of the same codes and kinds, only the changed item
types and everything below them are computed anew. -/
def Resolution.ofTypes (types : List Merged) (old : Option (List Node)) : Resolution :=
  let o := Outline.ofTypes types
  let children := o.children
  let (scope, start) :=
    match old.filter fun nodes => Resolve.sameCodeTable nodes types with
    | some nodes =>
      let changed := Resolve.changedItems o nodes
      (Scope.subtrees changed, Resolve.kept o nodes (children.subtrees changed))
    | none => (Scope.full, types.map fun _ => none)
  let pass := Resolve.run o start
  { nodes := types.zipWith (fun m h => { m with hierarchy := h }) pass.table
    children
    scope
    resolved := pass.resolved }

end TypeAtlas
