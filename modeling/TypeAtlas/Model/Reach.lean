/-
Everything below some types. The search keeps a stack of types still to visit and the list of types
seen; each child link is followed at most once, so the length of the stack and the number of links
bound the steps, also on cyclic graphs.
-/
import TypeAtlas.Location

namespace TypeAtlas

/-- The direct children of every type, by position. -/
abbrev ChildTable := List (List TypeId)

namespace ChildTable

/-- The children of a type; none for an id outside the table. -/
def of (children : ChildTable) (id : TypeId) : List TypeId := (children[id]?).getD []

/-- Visits the types on the stack and everything below them, children before the rest of the
stack, and adds them to the types seen. -/
def visit (children : ChildTable) : Nat → List TypeId → List TypeId → List TypeId
  | 0, _, seen => seen
  | _ + 1, [], seen => seen
  | fuel + 1, id :: stack, seen =>
    if seen.contains id then visit children fuel stack seen
    else visit children fuel (children.of id ++ stack) (seen ++ [id])

/-- The steps that a visit of a stack can take. -/
def bound (children : ChildTable) (stack : List TypeId) : Nat :=
  stack.length + children.flatten.length

/-- The roots and everything below them. -/
def subtrees (children : ChildTable) (roots : List TypeId) : List TypeId :=
  visit children (bound children roots) roots []

/-- Everything below a type, without the type itself, each parent before its children. -/
def descendants (children : ChildTable) (id : TypeId) : List TypeId :=
  let stack := children.of id
  (visit children (bound children stack) stack [id]).drop 1

end ChildTable

end TypeAtlas
