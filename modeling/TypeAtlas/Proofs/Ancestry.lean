/-
The ancestors of an item type. In a model built from scratch the hierarchy of a type tells what lies
above it in the extends graph: either parents can be followed without end, and the type stands alone
with the cycle status, or following them ends at a root, and the ancestors are the way from the root
down to the type, with the status that the root's declared parent gives. The graph side of it is
`Line`, the way from a root down to a type; every computed hierarchy has one unless its type leads
into a cycle.
-/
import TypeAtlas.Proofs.Generations
import Mathlib.Data.List.Chain

namespace TypeAtlas

/-! ## Lines -/

namespace Outline

variable {o : Outline}

/-- Parents of the type can be followed without end: it leads into a cycle. -/
def Endless (o : Outline) (id : TypeId) : Prop := ∃ c, o.Leads id c ∧ o.OnCycle c

/-- The way from a type without a parent item down to another type. -/
inductive Line (o : Outline) (root : TypeId) : List TypeId → TypeId → Prop
  | root (top : o.parentItem? root = none) : Line o root [root] root
  | step {chain : List TypeId} {p id : TypeId} (above : Line o root chain p) (up : o.Up id p) :
      Line o root (chain ++ [id]) id

theorem Endless.up {id : TypeId} (h : o.Endless id) : ∃ p, o.Up id p ∧ o.Endless p := by
  obtain ⟨c, hc, hon⟩ := h
  rcases Relation.ReflTransGen.cases_head hc with rfl | ⟨p, hp, hpc⟩
  · obtain ⟨p, hp⟩ := hon.up
    exact ⟨p, hp, p, .refl, (hon.of_leads (.single hp)).1⟩
  · exact ⟨p, hp, c, hpc, hon⟩

theorem Endless.of_up {id p : TypeId} (h : o.Endless p) (hup : o.Up id p) : o.Endless id := by
  obtain ⟨c, hc, hon⟩ := h
  exact ⟨c, .head hup hc, hon⟩

theorem Line.top {root id : TypeId} {chain : List TypeId} (h : o.Line root chain id) :
    o.parentItem? root = none := by
  induction h with
  | root top => exact top
  | step _ _ ih => exact ih

/-- A type with a line is on no cycle: a cycle through it would pass through its root. -/
theorem Line.not_onCycle {root id : TypeId} {chain : List TypeId} (h : o.Line root chain id) :
    ¬o.OnCycle id := by
  induction h with
  | root top => exact not_onCycle_of_top top
  | step _ hup ih => exact fun hon => ih (hon.of_leads (.single hup)).1

theorem Line.leads {root id : TypeId} {chain : List TypeId} (h : o.Line root chain id) :
    ∀ x ∈ chain, o.Leads id x := by
  induction h with
  | root _ =>
    intro x hx
    rw [List.mem_singleton.1 hx]
    exact .refl
  | step _ hup ih =>
    intro x hx
    rcases List.mem_append.1 hx with hx | hx
    · exact .head hup (ih x hx)
    · rw [List.mem_singleton.1 hx]
      exact .refl

/-- What a type leads to stands on its line. -/
theorem Line.mem_of_leads {root id : TypeId} {chain : List TypeId} (h : o.Line root chain id)
    {x : TypeId} (hx : o.Leads id x) : x ∈ chain := by
  induction h with
  | root top =>
    rcases Relation.ReflTransGen.cases_head hx with rfl | ⟨p, hup, -⟩
    · exact List.mem_singleton_self root
    · exact absurd hup (not_up_of_top top)
  | @step chain p id _ hup ih =>
    rcases Relation.ReflTransGen.cases_head hx with rfl | ⟨q, hq, hqx⟩
    · exact List.mem_append_right _ (List.mem_singleton_self id)
    · exact List.mem_append_left _ (ih (hq.unique hup ▸ hqx))

theorem Line.nodup {root id : TypeId} {chain : List TypeId} (h : o.Line root chain id) :
    chain.Nodup := by
  induction h with
  | root _ => exact List.nodup_singleton _
  | step above hup ih =>
    -- a type that stands on the line of its parent would lead back to itself
    refine List.Nodup.append ih (List.nodup_singleton _) fun x hx hx' => ?_
    rw [List.mem_singleton.1 hx'] at hx
    exact (above.step hup).not_onCycle (onCycle_of_up_of_leads hup (above.leads _ hx))

/-- The status of the types on a line, by what the parent of its root resolves to. -/
def statusOver : Parent → Status
  | .none => .complete
  | .missing code => .incomplete code
  | .item _ => .cycle

end Outline

namespace Resolve

/-- A type without a parent item inherits nothing; its status tells what it declares. -/
theorem derive_eq_ownOnly {o : Outline} (hw : o.WF) {id : TypeId} {m : Merged} {own : ItemData}
    (hi : o.item? id = some (m, own)) (htop : o.parentItem? id = none) :
    ∃ ds, derive o [] m own = ownOnly o m own (Outline.statusOver (o.parent id)) ds ∧
      Outline.statusOver (o.parent id) ≠ .cycle := by
  have hid := hw.id_of_item hi
  unfold derive
  rw [hid]
  cases hp : o.parent id with
  | none => exact ⟨_, rfl, by simp [Outline.statusOver]⟩
  | missing code => exact ⟨_, rfl, by simp [Outline.statusOver]⟩
  | item p => exact absurd (Outline.up_iff_parent.2 hp) (Outline.not_up_of_top htop)

/-- A hierarchy computed from scratch is that of a type that leads into a cycle, or its ancestors
are the line of the type and its status is that of the root. -/
theorem Computed.endless_or_line {o : Outline} (hw : o.WF) {id : TypeId} {h : Hierarchy}
    (hc : Computed o [] id h) :
    (o.Endless id ∧ h.status = .cycle ∧ h.ancestors = [id]) ∨
      ∃ root, o.Line root h.ancestors id ∧ h.status = Outline.statusOver (o.parent root) ∧
        h.status ≠ .cycle := by
  induction hc with
  | kept found => exact absurd found Computed.not_kept
  | @cycle id m own _ hi hon =>
    have hid := hw.id_of_item hi
    exact .inl ⟨⟨id, .refl, hon⟩, rfl, congrArg (fun i => [i]) hid⟩
  | @top id m own _ hi htop =>
    have hid := hw.id_of_item hi
    subst hid
    obtain ⟨ds, hd, hne⟩ := derive_eq_ownOnly hw hi htop
    rw [hd]
    exact .inr ⟨m.id, .root htop, rfl, hne⟩
  | @child id p m own parent _ hi hoff hup _ ih =>
    have hid := hw.id_of_item hi
    subst hid
    unfold inherit Hierarchy.isCycle
    rcases ih with ⟨hend, hstatus, -⟩ | ⟨root, hline, hstatus, hne⟩
    · rw [if_pos (by rw [hstatus]; rfl)]
      exact .inl ⟨hend.of_up hup, rfl, rfl⟩
    · rw [if_neg (by simpa using hne)]
      exact .inr ⟨root, hline.step hup, hstatus, hne⟩

end Resolve

namespace Model

open Resolve

/-! ## Parents of a model's types -/

/-- The item type that a type extends: the one with the code of its declared parent. -/
def parent? (m : Model) (n : Node) : Option Node :=
  (n.data.item?.bind ItemData.parent).bind fun link =>
    (m.find? link.code).filter fun p => p.kind == .item

/-- The type that following parents `k` times leads to. -/
def above? (m : Model) : Nat → Node → Option Node
  | 0, n => some n
  | k + 1, n => (m.parent? n).bind (m.above? k)

/-- The status of the types below a type without a parent item. -/
def rootStatus (root : Node) : Status :=
  match root.data.item?.bind ItemData.parent with
  | none => .complete
  | some link => .incomplete link.code

/-- The chain from a type without a parent item down to a type, each extending the one before. -/
structure Lineage (m : Model) (chain : List Node) (root n : Node) : Prop where
  head : chain.head? = some root
  top : m.parent? root = none
  linked : chain.IsChain fun a b => m.parent? b = some a
  last : chain.getLast? = some n
  nodup : (chain.map fun a => a.id).Nodup

section Types

variable {m : Model} {types : List Merged} (hm : m.nodes.map Node.toMerged = types)

include hm

theorem toMerged_of_node? {id : TypeId} {n : Node} (hn : m.node? id = some n) :
    types[id]? = some n.toMerged := by
  rw [← hm, List.getElem?_map, show m.nodes[id]? = some n from hn]
  rfl

theorem exists_node? {id : TypeId} {t : Merged} (ht : types[id]? = some t) :
    ∃ n, m.node? id = some n ∧ n.toMerged = t := by
  rw [← hm, List.getElem?_map] at ht
  exact Option.map_eq_some_iff.1 ht

theorem idOf?_eq (code : String) : m.idOf? code = TypeAtlas.idOf? types code := by
  unfold Model.idOf? TypeAtlas.idOf?
  rw [← hm, List.findIdx?_map]
  rfl

/-- The parent of a type is the type at the position of its parent item. -/
theorem parent?_eq {id : TypeId} {n : Node} (hn : m.node? id = some n) :
    m.parent? n = ((Outline.ofTypes types).parentItem? id).bind m.node? := by
  unfold Outline.parentItem?
  rw [Outline.parent_ofTypes types (toMerged_of_node? hm hn)]
  unfold parent? parentIn find?
  cases n.data.item?.bind ItemData.parent with
  | none => rfl
  | some link =>
    simp only [Option.bind_some, idOf?_eq hm]
    cases TypeAtlas.idOf? types link.code with
    | none => rfl
    | some p =>
      cases hp : m.node? p with
      | none =>
        have : types[p]? = none := by
          rw [← hm, List.getElem?_map, show m.nodes[p]? = none from hp]
          rfl
        simp [this, hp]
      | some q =>
        have ht := toMerged_of_node? hm hp
        by_cases hq : q.kind = .item
        · simp [ht, hp, Merged.isItem, hq]
        · simp [ht, hp, Merged.isItem, hq]

theorem exists_parent? (hw : (Outline.ofTypes types).WF) {id p : TypeId} {n : Node}
    (hn : m.node? id = some n) (hup : (Outline.ofTypes types).Up id p) :
    ∃ q, m.node? p = some q ∧ m.parent? n = some q := by
  obtain ⟨t, ht, -⟩ := Outline.item?_isSome_iff.1 (hw.parent hup)
  obtain ⟨q, hq, -⟩ := exists_node? hm ht
  refine ⟨q, hq, ?_⟩
  rw [parent?_eq hm hn, show (Outline.ofTypes types).parentItem? id = some p from hup]
  exact hq

theorem above?_isSome_of_endless (hw : (Outline.ofTypes types).WF) {id : TypeId} {n : Node}
    (hn : m.node? id = some n) (hend : (Outline.ofTypes types).Endless id) (k : Nat) :
    (m.above? k n).isSome := by
  induction k generalizing id n with
  | zero => rfl
  | succ k ih =>
    obtain ⟨p, hup, hend'⟩ := hend.up
    obtain ⟨q, hq, hparent⟩ := exists_parent? hm hw hn hup
    unfold above?
    rw [hparent]
    exact ih hq hend'

theorem above?_eq_none_of_line (hw : (Outline.ofTypes types).WF) {root id : TypeId}
    {chain : List TypeId} (hl : (Outline.ofTypes types).Line root chain id) {n : Node}
    (hn : m.node? id = some n) : ∃ k, m.above? k n = none := by
  induction hl generalizing n with
  | root top =>
    refine ⟨1, ?_⟩
    unfold above?
    rw [parent?_eq hm hn, top]
    rfl
  | step _ hup ih =>
    obtain ⟨q, hq, hparent⟩ := exists_parent? hm hw hn hup
    obtain ⟨k, hk⟩ := ih hq
    refine ⟨k + 1, ?_⟩
    unfold above?
    rw [hparent]
    exact hk

theorem exists_linked (hw : (Outline.ofTypes types).WF) {root id : TypeId} {chain : List TypeId}
    (hl : (Outline.ofTypes types).Line root chain id) {n : Node} (hn : m.node? id = some n) :
    ∃ (nodes : List Node) (r : Node), m.node? root = some r ∧ chain.map m.node? = nodes.map some ∧
      nodes.head? = some r ∧ (nodes.IsChain fun a b => m.parent? b = some a) ∧
      nodes.getLast? = some n := by
  induction hl generalizing n with
  | root top => exact ⟨[n], n, hn, by simp [hn], rfl, List.isChain_singleton n, rfl⟩
  | step above hup ih =>
    obtain ⟨q, hq, hparent⟩ := exists_parent? hm hw hn hup
    obtain ⟨nodes, r, hr, hmap, hhead, hlinked, hlast⟩ := ih hq
    refine ⟨nodes ++ [n], r, hr, by simp [hmap, hn], ?_, ?_, by simp⟩
    · rw [List.head?_append, hhead]
      rfl
    · refine hlinked.append (List.isChain_singleton n) fun a ha b hb => ?_
      rw [Option.mem_def, hlast] at ha
      cases ha
      cases hb
      exact hparent

theorem map_id_of_nodes (hw : (Outline.ofTypes types).WF) {chain : List TypeId}
    {nodes : List Node} (h : chain.map m.node? = nodes.map some) :
    (nodes.map fun a => a.id) = chain := by
  induction chain generalizing nodes with
  | nil =>
    cases nodes with
    | nil => rfl
    | cons n nodes => cases h
  | cons id chain ih =>
    cases nodes with
    | nil => cases h
    | cons n nodes =>
      rw [List.map_cons, List.map_cons, List.cons.injEq] at h
      rw [List.map_cons, ih h.2, ← hw.id (toMerged_of_node? hm h.1)]

/-- The types along a line are the lineage of the type at its end. -/
theorem exists_lineage (hw : (Outline.ofTypes types).WF) {root id : TypeId} {chain : List TypeId}
    (hl : (Outline.ofTypes types).Line root chain id) {n : Node} (hn : m.node? id = some n) :
    ∃ (nodes : List Node) (r : Node), m.Lineage nodes r n ∧ (nodes.map fun a => a.id) = chain ∧
      m.node? root = some r := by
  obtain ⟨nodes, r, hr, hmap, hhead, hlinked, hlast⟩ := exists_linked hm hw hl hn
  have hids := map_id_of_nodes hm hw hmap
  have htop : m.parent? r = none := by rw [parent?_eq hm hr, hl.top]; rfl
  exact ⟨nodes, r, ⟨hhead, htop, hlinked, hlast, hids ▸ hl.nodup⟩, hids, hr⟩

/-- The status over a root is told by the parent that the root declares. -/
theorem rootStatus_eq {root : TypeId} {r : Node} (hr : m.node? root = some r)
    (htop : (Outline.ofTypes types).parentItem? root = none) :
    Outline.statusOver ((Outline.ofTypes types).parent root) = rootStatus r := by
  unfold Outline.parentItem? at htop
  rw [Outline.parent_ofTypes types (toMerged_of_node? hm hr)] at htop ⊢
  unfold parentIn at htop ⊢
  unfold rootStatus
  cases hlink : r.data.item?.bind ItemData.parent with
  | none => rfl
  | some link =>
    simp only [hlink] at htop ⊢
    split
    · rename_i p hp
      split
      · rename_i hitem
        simp [hp, hitem] at htop
      · rfl
    · rfl

end Types

/-! ## Hierarchies from scratch -/

/-- What a hierarchy says about the place of its type in the extends graph. -/
structure Placed (m : Model) (n : Node) (h : Hierarchy) : Prop where
  cycle_iff : h.status = .cycle ↔ ∀ k, (m.above? k n).isSome
  alone : h.status = .cycle → h.ancestors = [n.id]
  lineage : h.status ≠ .cycle → ∃ chain root, m.Lineage chain root n ∧
    h.ancestors = (chain.map fun a => a.id) ∧ h.status = rootStatus root

section Scratch

variable (groups : List Group) (config : Config) (generation revision : Nat)

theorem map_toMerged_build (previous : Option Model) :
    (build groups config previous generation revision).nodes.map Node.toMerged =
      Merge.types groups :=
  Resolution.map_toMerged_nodes (wf_types groups)

variable {groups config generation revision} {id : TypeId} {n : Node}

theorem hierarchy_of_node? (hn : (build groups config none generation revision).node? id = some n) :
    n.hierarchy = (finalTable (Merge.types groups) none).at? id := by
  rw [← hierarchy_build_none groups config generation revision, hn]
  rfl

theorem hierarchy_isSome_iff
    (hn : (build groups config none generation revision).node? id = some n) :
    n.hierarchy.isSome ↔ n.kind = .item := by
  have hm := map_toMerged_build groups config generation revision none
  have hitem : ((Outline.ofTypes (Merge.types groups)).item? id).isSome ↔ n.kind = .item := by
    rw [Outline.item?_isSome_iff, show (Outline.ofTypes (Merge.types groups)).types[id]? = _ from
      toMerged_of_node? hm hn]
    simp [Merged.isItem]
  rw [← hitem, hierarchy_of_node? hn]
  constructor
  · intro h
    obtain ⟨k, hk⟩ := Option.isSome_iff_exists.1 h
    exact (finalTable_none (wf_types groups) hk).item
  · exact (finalTable_sound (wf_types groups) none).2

theorem placed_of_node? (hn : (build groups config none generation revision).node? id = some n)
    {h : Hierarchy} (hh : n.hierarchy = some h) :
    (build groups config none generation revision).Placed n h := by
  have hm := map_toMerged_build groups config generation revision none
  have hw := wf_types groups
  have hid : n.id = id := hw.id (toMerged_of_node? hm hn)
  rw [hierarchy_of_node? hn] at hh
  rcases (finalTable_none hw hh).endless_or_line hw with ⟨hend, hstatus, halone⟩ |
    ⟨root, hline, hstatus, hne⟩
  · exact ⟨iff_of_true hstatus (above?_isSome_of_endless hm hw hn hend), fun _ => hid ▸ halone,
      fun hne => absurd hstatus hne⟩
  · obtain ⟨k, hk⟩ := above?_eq_none_of_line hm hw hline hn
    obtain ⟨nodes, r, hlineage, hids, hr⟩ := exists_lineage hm hw hline hn
    refine ⟨iff_of_false hne fun hall => ?_, fun hcycle => absurd hcycle hne,
      fun _ => ⟨nodes, r, hlineage, hids.symm, ?_⟩⟩
    · have := hall k
      rw [hk] at this
      cases this
    · rw [hstatus, rootStatus_eq hm hr hline.top]

end Scratch

/-- Ancestors and status are those of the extends graph: in a model built from scratch exactly the
item types have a hierarchy, and it tells the place of its type. -/
theorem placed_of_mem_build {groups : List Group} {config : Config} {generation revision : Nat}
    {n : Node} (hn : n ∈ (build groups config none generation revision).nodes) :
    (n.hierarchy.isSome ↔ n.kind = .item) ∧
      ∀ h, n.hierarchy = some h → (build groups config none generation revision).Placed n h := by
  obtain ⟨id, hid⟩ := List.mem_iff_getElem?.1 hn
  exact ⟨hierarchy_isSome_iff hid, fun h hh => placed_of_node? hid hh⟩

/-- A chain that ends at an unknown parent, beside a cycle with a type that leads into it. -/
theorem placed_of_mem_build_dangling :
    ∃ n h, n ∈ (build [sampleGroup default [("C", some "B", []), ("B", some "A", []),
        ("A", some "X", []), ("E", some "F", []), ("F", some "F", [])]] {} none 1 0).nodes ∧
      n.hierarchy = some h ∧ h.status = .incomplete "X" ∧ h.ancestors = [2, 1, 0] ∧
      (build [sampleGroup default [("C", some "B", []), ("B", some "A", []),
        ("A", some "X", []), ("E", some "F", []), ("F", some "F", [])]] {} none 1 0).Placed n h :=
  ⟨_, _, List.mem_cons_self, rfl, rfl, rfl, (placed_of_mem_build List.mem_cons_self).2 _ rfl⟩

end Model

end TypeAtlas
