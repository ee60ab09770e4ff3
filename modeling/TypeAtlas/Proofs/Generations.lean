/-
Generations: models built one over the other. Main statement: at the end of every history, whatever
was kept on the way, a model agrees with the one built from scratch: same types and child links, and
hierarchies that are equal but for the order of keys and the findings.
-/
import TypeAtlas.Model.Basic
import TypeAtlas.Proofs.Current
import TypeAtlas.Proofs.Merge

namespace TypeAtlas.Model

open Resolve

/-! ## Builds -/

theorem wf_types (groups : List Group) : (Outline.ofTypes (Merge.types groups)).WF :=
  Outline.wf_ofTypes Merge.types_id

/-- The resolved types that a build may keep hierarchies of. -/
def earlier (config : Config) (previous : Option Model) : Option (List Node) :=
  if config.incremental then previous.map Model.nodes else none

theorem nodes_build (groups : List Group) (config : Config) (previous : Option Model)
    (generation revision : Nat) :
    (build groups config previous generation revision).nodes =
      (Resolution.ofTypes (Merge.types groups) (earlier config previous)).nodes := rfl

theorem children_build (groups : List Group) (config : Config) (previous : Option Model)
    (generation revision : Nat) :
    (build groups config previous generation revision).children =
      (Outline.ofTypes (Merge.types groups)).children :=
  Resolution.children_ofTypes (Merge.types groups) (earlier config previous)

theorem hierarchy_build (groups : List Group) (config : Config) (previous : Option Model)
    (generation revision : Nat) (id : TypeId) :
    ((build groups config previous generation revision).node? id).bind Node.hierarchy =
      (finalTable (Merge.types groups) (earlier config previous)).at? id :=
  Resolution.hierarchy_nodes (wf_types groups) id

theorem earlier_none (config : Config) : earlier config none = none := by
  unfold earlier
  split <;> rfl

/-- A build that is not cancelled gives the model of its groups. -/
theorem eq_build_of_buildUnless {token : Token} {groups : List Group} {config : Config}
    {previous : Option Model} {generation revision : Nat} {m : Model}
    (h : buildUnless token groups config previous generation revision = .ok m) :
    m = build groups config previous generation revision := by
  unfold buildUnless at h
  split at h
  · cases h
  · cases h
    rfl

/-! ## Histories -/

/-- A model at the end of a history of builds, and the groups it was built from: each build, if it
is not the first, is over the model before, and none is cancelled. The settings may change on the
way. -/
inductive Built : List Group → Model → Prop
  | empty (config : Config) : Built [] (Model.empty config)
  | first (token : Token) {groups : List Group} {config : Config} {generation revision : Nat}
      {m : Model} (h : buildUnless token groups config none generation revision = .ok m) :
      Built groups m
  | next (token : Token) {before groups : List Group} {previous m : Model} {config : Config}
      {generation revision : Nat} (hp : Built before previous)
      (h : buildUnless token groups config (some previous) generation revision = .ok m) :
      Built groups m

theorem Built.children {groups : List Group} {m : Model} (h : Built groups m) :
    m.children = (Outline.ofTypes (Merge.types groups)).children := by
  cases h with
  | empty config => rfl
  | first _ h => rw [eq_build_of_buildUnless h, children_build]
  | next _ _ h => rw [eq_build_of_buildUnless h, children_build]

theorem nodes_of_earlier {config : Config} {previous : Model} {nodes : List Node}
    (h : earlier config (some previous) = some nodes) : nodes = previous.nodes := by
  unfold earlier at h
  split at h
  · cases h
    rfl
  · cases h

theorem exists_current_of_earlier {config : Config} {previous : Model} {types : List Merged}
    (hw : (Outline.ofTypes types).WF) (hc : Current types previous.nodes) (nodes : List Node)
    (h : earlier config (some previous) = some nodes) :
    ∃ types', (Outline.ofTypes types').WF ∧ Current types' nodes :=
  ⟨types, hw, nodes_of_earlier h ▸ hc⟩

/-- The model at the end of a history is current for its groups. -/
theorem Built.current {groups : List Group} {m : Model} (h : Built groups m) :
    Current (Merge.types groups) m.nodes := by
  induction h with
  | empty config => exact ⟨rfl, fun id => .none⟩
  | @first _ groups config _ _ _ h =>
    rw [eq_build_of_buildUnless h, nodes_build]
    refine current_ofTypes (wf_types groups) fun nodes hold => ?_
    rw [earlier_none] at hold
    cases hold
  | @next _ before groups previous _ config _ _ _ h ih =>
    rw [eq_build_of_buildUnless h, nodes_build]
    exact current_ofTypes (wf_types groups) (exists_current_of_earlier (wf_types before) ih)

/-! ## Agreement with a build from scratch -/

/-- The same types and child links, and at every position hierarchies that agree, or none. -/
structure Agrees (m n : Model) : Prop where
  types : m.nodes.map Node.toMerged = n.nodes.map Node.toMerged
  children : m.children = n.children
  hierarchies : ∀ id, Option.Rel Hierarchy.Agrees ((m.node? id).bind Node.hierarchy)
    ((n.node? id).bind Node.hierarchy)

theorem hierarchy_build_none (groups : List Group) (config : Config) (generation revision : Nat)
    (id : TypeId) :
    ((build groups config none generation revision).node? id).bind Node.hierarchy =
      (finalTable (Merge.types groups) none).at? id := by
  rw [hierarchy_build, earlier_none]

/-- Incremental resolution agrees with full resolution: at the end of every history a model agrees
with the model built from the same groups without a history. -/
theorem agrees_scratch_of_built {groups : List Group} {m : Model} (h : Built groups m)
    (config : Config) (generation revision : Nat) :
    m.Agrees (build groups config none generation revision) := by
  refine ⟨?_, ?_, fun id => ?_⟩
  · rw [h.current.merged, nodes_build]
    exact (Resolution.map_toMerged_nodes (wf_types groups)).symm
  · rw [h.children, children_build]
  · rw [hierarchy_build_none]
    have halike := h.current.alike id
    unfold node?
    generalize (m.nodes[id]?).bind Node.hierarchy = a at halike ⊢
    generalize (finalTable (Merge.types groups) none).at? id = b at halike ⊢
    cases halike with
    | none => exact .none
    | some h => exact .some h.toAgrees

/-- A file that declares item types, each with its parent and with attributes of type `String`. -/
def sampleGroup (location : Location) (rows : List (String × Option String × List String)) :
    Group where
  file := location.file
  module := ⟨0⟩
  declarations := rows.map fun (code, parent, qualifiers) =>
    { code
      body := .item parent (qualifiers.map fun q =>
        ⟨q, "String", false, .property, {}, none, none, .empty, location⟩) []
      properties := .empty
      provenance := ⟨⟨0⟩, location⟩ }
  diagnostics := []

/-- The second build keeps everything, since its attributes differ in order only; the third keeps
again all but the type that gets a parent. -/
theorem agrees_scratch_of_built_thrice :
    ∃ m₁ m₂ m₃,
      buildUnless .never [sampleGroup default [("A", none, ["x", "y"]), ("B", some "A", ["x"]),
        ("C", some "C", []), ("D", none, [])]] {} none 1 0 = .ok m₁ ∧
      buildUnless .never [sampleGroup default [("A", none, ["y", "x"]), ("B", some "A", ["x"]),
        ("C", some "C", []), ("D", none, [])]] {} (some m₁) 2 0 = .ok m₂ ∧
      m₂.scope = .subtrees [] ∧
      buildUnless .never [sampleGroup default [("A", none, ["y", "x"]), ("B", some "A", ["x"]),
        ("C", some "C", []), ("D", some "B", [])]] {} (some m₂) 3 0 = .ok m₃ ∧
      m₃.scope = .subtrees [3] ∧
      m₃.Agrees (build [sampleGroup default [("A", none, ["y", "x"]), ("B", some "A", ["x"]),
        ("C", some "C", []), ("D", some "B", [])]] { incremental := false } none 1 0) := by
  refine ⟨_, _, _, rfl, rfl, by decide, rfl, by decide, ?_⟩
  exact agrees_scratch_of_built (.next .never (.next .never (.first .never rfl) rfl) rfl) _ _ _

end TypeAtlas.Model
