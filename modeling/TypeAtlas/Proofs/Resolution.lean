/-
Resolved types over an earlier table. What a resolution keeps is closed: the hierarchies of item
types that are unchanged with everything above them. So the pass over what is kept is sound, and the
resolved types are the merged ones, in order, each item type with a computed hierarchy.
-/
import TypeAtlas.Proofs.Pass
import TypeAtlas.Proofs.Reach

namespace TypeAtlas

/-! ## Child links -/

/-- The children of a type are the types whose parent item it is. -/
theorem Outline.mem_children {types : List Merged} (hw : (ofTypes types).WF) {a b : TypeId} :
    b ∈ (ofTypes types).children.of a ↔ (ofTypes types).Up b a := by
  have hparents : (ofTypes types).Up b a ↔ (ofTypes types).parents[b]? = some (.item a) := by
    rw [up_iff_parent]
    unfold parent
    cases (ofTypes types).parents[b]? <;> simp
  unfold ChildTable.of children
  rw [hparents, List.getElem?_map]
  by_cases ha : a < (ofTypes types).types.length
  · rw [List.getElem?_range ha, Option.map_some, Option.getD_some, List.mem_map]
    constructor
    · rintro ⟨⟨p, i⟩, hrow, rfl⟩
      obtain ⟨hrow, hp⟩ := List.mem_filter.1 hrow
      rw [List.mem_zipIdx_iff_getElem?] at hrow
      simp only [beq_iff_eq] at hp
      rw [← hp]
      exact hrow
    · intro hb
      refine ⟨(.item a, b), List.mem_filter.2 ⟨?_, by simp⟩, rfl⟩
      rw [List.mem_zipIdx_iff_getElem?]
      exact hb
  · rw [List.getElem?_eq_none (by simpa using ha)]
    constructor
    · intro h
      cases h
    · intro h
      exact absurd (lt_length_of_item? (hw.parent (hparents.2 h))) ha

namespace Resolve

/-! ## What is kept -/

/-- The types that are computed anew: the changed item types and everything below them. -/
def affected (types : List Merged) (nodes : List Node) : List TypeId :=
  (Outline.ofTypes types).children.subtrees (changedItems (.ofTypes types) nodes)

/-- The hierarchies that a resolution starts from. -/
def startTable (types : List Merged) (old : Option (List Node)) : HierarchyTable :=
  match old.filter fun nodes => sameCodeTable nodes types with
  | some nodes => kept (.ofTypes types) nodes (affected types nodes)
  | none => types.map fun _ => none

variable {types : List Merged} {nodes : List Node} {old : Option (List Node)}

/-- Either nothing is kept, or the earlier table has the same codes and kinds and lends the
hierarchies of its unaffected types. -/
theorem startTable_cases (types : List Merged) (old : Option (List Node)) :
    (startTable types old = types.map fun _ => none) ∨
      ∃ nodes, old = some nodes ∧ sameCodeTable nodes types = true ∧
        startTable types old = kept (.ofTypes types) nodes (affected types nodes) := by
  unfold startTable
  cases h : old.filter fun nodes => sameCodeTable nodes types with
  | none => exact .inl rfl
  | some nodes =>
    rw [Option.filter_eq_some_iff] at h
    exact .inr ⟨nodes, h.1, h.2, rfl⟩

theorem length_startTable (types : List Merged) (old : Option (List Node)) :
    (startTable types old).length = types.length := by
  rcases startTable_cases types old with h | ⟨nodes, -, -, h⟩ <;> rw [h]
  · exact List.length_map _
  · exact List.length_map _

theorem at?_map_none (id : TypeId) :
    HierarchyTable.at? (types.map fun _ => none) id = none := by
  unfold HierarchyTable.at?
  rw [List.getElem?_map]
  cases types[id]? <;> rfl

theorem at?_kept {o : Outline} (hw : o.WF) {ids : List TypeId} {id : TypeId} {h : Hierarchy} :
    (kept o nodes ids).at? id = some h ↔
      id < o.types.length ∧ id ∉ ids ∧ (nodes[id]?).bind Node.hierarchy = some h := by
  unfold HierarchyTable.at? kept
  rw [List.getElem?_map]
  cases hm : o.types[id]? with
  | none =>
    have hlt : ¬id < o.types.length := by
      rw [Nat.not_lt]
      exact List.getElem?_eq_none_iff.1 hm
    simp [hlt]
  | some m =>
    have hlt : id < o.types.length := (List.getElem?_eq_some_iff.1 hm).1
    simp only [Option.map_some, Option.join_some, hw.id hm, List.contains_iff_mem]
    by_cases hid : id ∈ ids <;> simp [hid, hlt]

/-- An unaffected item type is as it was, and so are the ends it reaches. -/
theorem unchanged_of_not_affected (hw : (Outline.ofTypes types).WF) {id : TypeId} {m : Merged}
    {own : ItemData} (hi : (Outline.ofTypes types).item? id = some (m, own))
    (hn : id ∉ affected types nodes) :
    ∃ n h, nodes[id]? = some n ∧ n.hierarchy = some h ∧ n.toMerged.sameContent m = true ∧
      h.ownEnds = (Outline.ofTypes types).endsOf id := by
  obtain ⟨hm, hd⟩ := Outline.item?_eq_some.1 hi
  have hid := hw.id hm
  -- a changed type is a root of the affected subtrees
  have hchanged : changed (.ofTypes types) nodes m = false := by
    cases hc : changed (.ofTypes types) nodes m with
    | false => rfl
    | true =>
      refine absurd (ChildTable.mem_subtrees.2 ⟨id, ?_, .refl⟩) hn
      refine List.mem_map.2 ⟨m, List.mem_filter.2 ⟨List.mem_of_getElem? hm, ?_⟩, hid⟩
      simp [hc, Merged.isItem, Merged.kind, hd, TypeData.kind]
  unfold changed at hchanged
  rw [hid] at hchanged
  cases hnode : nodes[id]? with
  | none => simp [hnode] at hchanged
  | some n =>
    cases hh : n.hierarchy with
    | none => simp [hnode, hh] at hchanged
    | some h =>
      simp only [hnode, hh, Bool.or_eq_false_iff, Bool.not_eq_false', bne_eq_false_iff_eq]
        at hchanged
      exact ⟨n, h, rfl, hh, hchanged.1, hchanged.2⟩

/-- What is above an unaffected type is unaffected. -/
theorem not_affected_of_up (hw : (Outline.ofTypes types).WF) {id p : TypeId}
    (hn : id ∉ affected types nodes) (hup : (Outline.ofTypes types).Up id p) :
    p ∉ affected types nodes := by
  intro hp
  obtain ⟨r, hr, hbelow⟩ := ChildTable.mem_subtrees.1 hp
  exact hn (ChildTable.mem_subtrees.2 ⟨r, hr, hbelow.tail ((Outline.mem_children hw).2 hup)⟩)

/-- With a type its parent is kept. -/
theorem startTable_up (hw : (Outline.ofTypes types).WF) {id p : TypeId}
    (hid : ((startTable types old).at? id).isSome) (hup : (Outline.ofTypes types).Up id p) :
    ((startTable types old).at? p).isSome := by
  rcases startTable_cases types old with h | ⟨nodes, -, -, h⟩ <;> rw [h] at hid ⊢
  · rw [at?_map_none] at hid; cases hid
  · obtain ⟨k, hk⟩ := Option.isSome_iff_exists.1 hid
    obtain ⟨-, hn, -⟩ := (at?_kept hw).1 hk
    obtain ⟨⟨m, own⟩, hi⟩ := Option.isSome_iff_exists.1 (hw.parent hup)
    have hn' := not_affected_of_up hw hn hup
    obtain ⟨n, k', hnode, hk', -⟩ := unchanged_of_not_affected hw hi hn'
    refine Option.isSome_iff_exists.2 ⟨k', (at?_kept hw).2 ⟨?_, hn', by rw [hnode]; exact hk'⟩⟩
    exact Outline.lt_length_of_item? (hw.parent hup)

/-! ## Resolved types -/

/-- The hierarchies after a resolution. -/
def finalTable (types : List Merged) (old : Option (List Node)) : HierarchyTable :=
  (run (.ofTypes types) (startTable types old)).table

/-- The final table is sound and has a hierarchy for every item type. -/
theorem finalTable_sound (hw : (Outline.ofTypes types).WF) (old : Option (List Node)) :
    Sound (.ofTypes types) (startTable types old) (finalTable types old) ∧
      ∀ {id : TypeId}, ((Outline.ofTypes types).item? id).isSome →
        ((finalTable types old).at? id).isSome :=
  run_sound hw (length_startTable types old) (startTable_up hw)

/-- Without an earlier table the entries are those computed from scratch, one for each item type. -/
theorem finalTable_none (hw : (Outline.ofTypes types).WF) {id : TypeId} {h : Hierarchy}
    (hh : (finalTable types none).at? id = some h) : Computed (.ofTypes types) [] id h :=
  ((finalTable_sound hw none).1.computed hh).congr fun id => at?_map_none id

end Resolve

namespace Resolution

open Resolve

variable {types : List Merged} {old : Option (List Node)}

theorem nodes_ofTypes (types : List Merged) (old : Option (List Node)) :
    (ofTypes types old).nodes =
      types.zipWith (fun m h => { m with hierarchy := h }) (finalTable types old) := by
  unfold ofTypes finalTable startTable affected
  cases old.filter fun nodes => sameCodeTable nodes types <;> rfl

theorem children_ofTypes (types : List Merged) (old : Option (List Node)) :
    (ofTypes types old).children = (Outline.ofTypes types).children := by
  unfold ofTypes
  cases old.filter fun nodes => sameCodeTable nodes types <;> rfl

theorem resolved_ofTypes (types : List Merged) (old : Option (List Node)) :
    (ofTypes types old).resolved = (run (.ofTypes types) (startTable types old)).resolved := by
  unfold ofTypes startTable affected
  cases old.filter fun nodes => sameCodeTable nodes types <;> rfl

/-- A resolution that keeps nothing is the one from scratch. -/
theorem eq_none_of_full (h : (ofTypes types old).scope = .full) :
    ofTypes types old = ofTypes types none := by
  unfold ofTypes at h ⊢
  cases hold : old.filter fun nodes => sameCodeTable nodes types with
  | none => rfl
  | some nodes =>
    rw [hold] at h
    cases h

/-- The resolved type at a position: the merged one with its entry of the final table. -/
theorem getElem?_nodes (hw : (Outline.ofTypes types).WF) (i : Nat) :
    (ofTypes types old).nodes[i]? =
      types[i]?.map fun m => { m with hierarchy := (finalTable types old).at? i } := by
  have hlen : (finalTable types old).length = types.length := (finalTable_sound hw old).1.length
  rw [nodes_ofTypes, List.getElem?_zipWith]
  unfold HierarchyTable.at?
  cases hm : types[i]? with
  | none => rfl
  | some m =>
    have hlt : i < (finalTable types old).length := by
      rw [hlen]
      exact (List.getElem?_eq_some_iff.1 hm).1
    rw [List.getElem?_eq_getElem hlt]
    rfl

/-- The hierarchy at a position is the entry of the final table. -/
theorem hierarchy_nodes (hw : (Outline.ofTypes types).WF) (i : Nat) :
    ((ofTypes types old).nodes[i]?).bind Node.hierarchy = (finalTable types old).at? i := by
  rw [getElem?_nodes hw]
  cases hm : types[i]? with
  | some m => rfl
  | none =>
    have hlen : (finalTable types old).length = types.length := (finalTable_sound hw old).1.length
    unfold HierarchyTable.at?
    rw [List.getElem?_eq_none (by rw [hlen]; exact List.getElem?_eq_none_iff.1 hm)]
    rfl

/-- The resolved types are the merged ones, each with the entry of its id. -/
theorem nodes_eq_map (hw : (Outline.ofTypes types).WF) :
    (ofTypes types old).nodes =
      types.map fun m => { m with hierarchy := (finalTable types old).at? m.id } := by
  refine List.ext_getElem? fun i => ?_
  rw [List.getElem?_map, getElem?_nodes hw]
  cases hm : types[i]? with
  | none => rfl
  | some m =>
    have hid : m.id = i := hw.id hm
    rw [Option.map_some, Option.map_some, hid]

theorem map_toMerged_nodes (hw : (Outline.ofTypes types).WF) :
    (ofTypes types old).nodes.map Node.toMerged = types := by
  rw [nodes_eq_map hw, List.map_map]
  exact List.map_id types

end Resolution

end TypeAtlas
