/-
Models: one generation of merged and resolved types. A model is a function of the groups it is built
from, the settings and the model before; a build that is cancelled on the way gives no model.
-/
import TypeAtlas.Config
import TypeAtlas.Model.Resolve

namespace TypeAtlas

/-- One generation of types. -/
structure Model where
  generation : Nat
  /-- The revision of the sources it was built from. -/
  revision : Nat
  config : Config
  nodes : List Node
  children : ChildTable
  diagnostics : List Diagnostic
  scope : Scope

namespace Model

/-- The model without types, of generation zero. -/
def empty (config : Config) : Model where
  generation := 0
  revision := 0
  config
  nodes := []
  children := []
  diagnostics := []
  scope := .full

/-! ## Building -/

/-- The structural findings of resolved types, in id order. -/
def structuralFindings (nodes : List Node) : List Diagnostic :=
  nodes.flatMap fun n => (n.hierarchy.map Hierarchy.diagnostics).getD []

/-- The resolved types of groups, and the findings of the merge. -/
def resolveGroups (groups : List Group) (config : Config) (previous : Option Model) :
    Resolution × List Diagnostic :=
  let merged := Merge.all (Merge.declarations groups)
  let old := if config.incremental then previous.map Model.nodes else none
  (.ofTypes (merged.map Prod.fst) old, merged.flatMap Prod.snd)

/-- The model of groups in merge order. The findings are those of the groups, then those of the
merge, then the structural ones. -/
def build (groups : List Group) (config : Config) (previous : Option Model)
    (generation revision : Nat) : Model :=
  let (resolution, mergeFindings) := resolveGroups groups config previous
  { generation
    revision
    config
    nodes := resolution.nodes
    children := resolution.children
    diagnostics :=
      groups.flatMap Group.diagnostics ++ mergeFindings ++ structuralFindings resolution.nodes
    scope := resolution.scope }

/-- A model on its own: the first generation, from sources without a history. -/
def ofGroups (groups : List Group) (config : Config) : Model := build groups config none 1 0

/-! ## Cancellation -/

/-- A token that a build looks at from time to time. It fires at one of the looks, counted from
zero, or never; once fired it stays so. -/
structure Token where
  firesAt : Option Nat

namespace Token

/-- A token that never fires. -/
def never : Token := ⟨none⟩

/-- A token that has fired already. -/
def fired : Token := ⟨some 0⟩

/-- Whether one of the first `looks` looks finds the token fired. -/
def firesWithin (t : Token) (looks : Nat) : Bool := t.firesAt.any (· < looks)

end Token

/-- Why a build gives no model. -/
inductive BuildError where
  /-- A newer change arrived. -/
  | superseded
deriving DecidableEq

/-- The wording of a build error. -/
def BuildError.message : BuildError → String
  | superseded => "rebuild superseded by a newer declaration change"

/-- How often a build looks at its token: at every interval of merged types, after merging, after
linking, after choosing what to keep, and at every interval of computed hierarchies. -/
def looks (config : Config) (resolution : Resolution) : Nat :=
  let interval := max config.cancelInterval 1
  (resolution.nodes.length + interval - 1) / interval + 3 + resolution.resolved / interval

/-- The model of groups, unless the token fires while it is built. -/
def buildUnless (token : Token) (groups : List Group) (config : Config) (previous : Option Model)
    (generation revision : Nat) : Except BuildError Model :=
  if token.firesWithin (looks config (resolveGroups groups config previous).1) then
    .error .superseded
  else .ok (build groups config previous generation revision)

/-! ## Access by position and code -/

/-- Number of types. -/
def size (m : Model) : Nat := m.nodes.length

def isEmpty (m : Model) : Bool := m.nodes.isEmpty

/-- The type at a position. -/
def node? (m : Model) (id : TypeId) : Option Node := m.nodes[id]?

/-- The position of a code. -/
def idOf? (m : Model) (code : String) : Option TypeId := m.nodes.findIdx? fun n => n.code == code

/-- The type with a code, of any kind. -/
def find? (m : Model) (code : String) : Option Node := (m.idOf? code).bind m.node?

/-- The types of a kind, in id order. -/
def ofKind (m : Model) (kind : Kind) : List Node := m.nodes.filter fun n => n.kind == kind

/-- The direct children of a type. -/
def childrenOf (m : Model) (id : TypeId) : List TypeId := m.children.of id

/-- Everything below a type. -/
def descendantsOf (m : Model) (id : TypeId) : List TypeId := m.children.descendants id

/-- The findings about a file. -/
def diagnosticsFor (m : Model) (file : FileId) : List Diagnostic :=
  m.diagnostics.filter fun d => d.file == file

/-- Whether two models have equal types, hierarchies included. -/
def sameNodes (m n : Model) : Bool := m.nodes == n.nodes

end Model

end TypeAtlas
