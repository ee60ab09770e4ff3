/-
Inherited members. A hierarchy is derived from the parent's hierarchy, never from the chain; still,
in a model built from scratch the members of an item type are the own members of its ancestors,
inserted one after another from the root down, order included. So the last ancestor that declares a
member decides it, and a type that leads into a cycle has its own members only.
-/
import TypeAtlas.Model.Query
import TypeAtlas.Proofs.Ancestry

namespace TypeAtlas

namespace Resolve

variable {o : Outline}

/-! ## Members along the ancestors -/

theorem Computed.item_of_ancestor (hw : o.WF) {id : TypeId} {h : Hierarchy}
    (hc : Computed o [] id h) : ∀ x ∈ h.ancestors, (o.item? x).isSome := by
  have hitem := hc.item
  rcases hc.endless_or_line hw with ⟨-, -, halone⟩ | ⟨root, hline, -⟩
  · intro x hx
    rw [halone, List.mem_singleton] at hx
    rw [hx]
    exact hitem
  · intro x hx
    rcases Relation.ReflTransGen.cases_tail (hline.leads x hx) with rfl | ⟨y, -, hup⟩
    · exact hitem
    · exact hw.parent hup

theorem Computed.getLast?_ancestors (hw : o.WF) {id : TypeId} {h : Hierarchy}
    (hc : Computed o [] id h) : h.ancestors.getLast? = some id := by
  rcases hc.endless_or_line hw with ⟨-, -, halone⟩ | ⟨root, hline, -⟩
  · rw [halone]
    rfl
  · generalize h.ancestors = chain at hline
    cases hline with
    | root => rfl
    | step above hup => exact List.getLast?_concat

/-- A kind of member that a lone type has from itself, and a type over a parent from both, is
collected along the ancestors. -/
theorem Computed.member_eq {β : Type} (member : Hierarchy → Dict β)
    (own : Merged → ItemData → Dict β) (hw : o.WF)
    (halone : ∀ m data status ds, member (ownOnly o m data status ds) = own m data)
    (hextend : ∀ m data parent,
      member (extend o m data parent) = (member parent).overlay (own m data))
    {id : TypeId} {h : Hierarchy} (hc : Computed o [] id h) :
    member h = .ofList (h.ancestors.flatMap fun a =>
      ((o.item? a).map fun row => (own row.1 row.2).entries).getD []) := by
  have hone : ∀ {id m data status ds}, o.item? id = some (m, data) →
      member (ownOnly o m data status ds) =
        .ofList ((ownOnly o m data status ds).ancestors.flatMap fun a =>
          ((o.item? a).map fun row => (own row.1 row.2).entries).getD []) := by
    intro id m data status ds hi
    have hid := hw.id_of_item hi
    subst hid
    simp [ownOnly, hi, ← halone m data status ds, Dict.ofList_entries]
  induction hc with
  | kept found => exact absurd found Computed.not_kept
  | cycle _ hi _ => exact hone hi
  | @top id m data _ hi htop =>
    obtain ⟨ds, hd, -⟩ := derive_eq_ownOnly hw hi htop
    rw [hd]
    exact hone hi
  | @child id p m data parent _ hi _ _ _ ih =>
    have hid := hw.id_of_item hi
    subst hid
    unfold inherit
    split
    · exact hone hi
    · rw [hextend, ih, ← Dict.ofList_append_entries]
      simp [extend, hi]

end Resolve

/-- The own attributes of a type; only item types have any. -/
def Node.ownAttributes (n : Node) : Dict Attribute :=
  (n.data.item?.map ItemData.attributes).getD .empty

/-- The own indexes of a type; only item types have any. -/
def Node.ownIndexes (n : Node) : Dict Index := (n.data.item?.map ItemData.indexes).getD .empty

namespace Model

open Resolve

/-! ## Ancestors as types -/

section Types

variable {m : Model} {types : List Merged} (hm : m.nodes.map Node.toMerged = types)

include hm

theorem items_cons {id : TypeId} (hi : ((Outline.ofTypes types).item? id).isSome)
    (ids : List TypeId) :
    ∃ a own, m.items (id :: ids) = a :: m.items ids ∧ m.node? id = some a ∧ a.data = .item own ∧
      (Outline.ofTypes types).item? id = some (a.toMerged, own) := by
  obtain ⟨⟨t, own⟩, ht⟩ := Option.isSome_iff_exists.1 hi
  obtain ⟨hget, hd⟩ := Outline.item?_eq_some.1 ht
  obtain ⟨a, ha, rfl⟩ := exists_node? hm hget
  refine ⟨a, own, ?_, ha, hd, ht⟩
  have hkind : a.kind = .item := by simp [Merged.kind, hd, TypeData.kind]
  simp [items, ha, hkind]

theorem map_node?_items {ids : List TypeId}
    (hall : ∀ x ∈ ids, ((Outline.ofTypes types).item? x).isSome) :
    ids.map m.node? = (m.items ids).map some := by
  induction ids with
  | nil => rfl
  | cons id ids ih =>
    obtain ⟨a, own, hcons, ha, -⟩ := items_cons hm (hall id List.mem_cons_self) ids
    rw [hcons, List.map_cons, List.map_cons, ha, ih fun x hx => hall x (List.mem_cons_of_mem _ hx)]

/-- What item types at positions contribute, read off the types. -/
theorem flatMap_items {β : Type} (f : Merged → ItemData → List β) {g : Node → List β}
    (hfg : ∀ a own, a.data = .item own → g a = f a.toMerged own) {ids : List TypeId}
    (hall : ∀ x ∈ ids, ((Outline.ofTypes types).item? x).isSome) :
    (ids.flatMap fun x => (((Outline.ofTypes types).item? x).map fun row => f row.1 row.2).getD []) =
      (m.items ids).flatMap g := by
  induction ids with
  | nil => rfl
  | cons id ids ih =>
    obtain ⟨a, own, hcons, -, hd, hi⟩ := items_cons hm (hall id List.mem_cons_self) ids
    rw [hcons, List.flatMap_cons, List.flatMap_cons, hi, hfg a own hd,
      ih fun x hx => hall x (List.mem_cons_of_mem _ hx)]
    rfl

theorem find?_of_node? (hcodes : (types.map Merged.code).Nodup) {id : TypeId} {n : Node}
    (hn : m.node? id = some n) : m.find? n.code = some n := by
  have hget := toMerged_of_node? hm hn
  have hid : TypeAtlas.idOf? types n.code = some id :=
    (Dict.findIdx?_key_eq_some_iff hcodes).2 ⟨n.toMerged, hget, rfl⟩
  unfold find?
  rw [idOf?_eq hm, hid]
  exact hn

end Types

/-! ## Members from scratch -/

/-- What a hierarchy holds, by the ancestors of its type. -/
structure Inherits (m : Model) (n : Node) (h : Hierarchy) : Prop where
  ancestors : ((m.ancestors n.code).map fun a => a.id) = h.ancestors
  last : (m.ancestors n.code).getLast? = some n
  attributes : h.attributes = .ofList ((m.ancestors n.code).flatMap fun a =>
    a.ownAttributes.values.map fun x => (x.qualifier, x))
  indexes : h.indexes = .ofList ((m.ancestors n.code).flatMap fun a =>
    a.ownIndexes.values.map fun i => (i.name, i))
  properties : h.properties = .ofList ((m.ancestors n.code).flatMap fun a => a.properties.entries)
  found : ∀ q x, m.attribute? n.code q true = some x ↔ ∃ before a after,
    m.ancestors n.code = before ++ a :: after ∧ a.ownAttributes.get? q = some x ∧
      x.owner = a.code ∧ ∀ b ∈ after, b.ownAttributes.get? q = none
  absent : ∀ q, m.attribute? n.code q true = none ↔
    ∀ a ∈ m.ancestors n.code, a.ownAttributes.get? q = none
  alone : h.status = .cycle → m.ancestors n.code = [n] ∧ h.attributes = n.ownAttributes ∧
    h.indexes = n.ownIndexes ∧ h.properties = n.properties

/-- The last type of a list that binds a key. -/
theorem findSome?_reverse_eq_some_iff {l : List Node} {f : Node → Option Attribute}
    {x : Attribute} : l.reverse.findSome? f = some x ↔
      ∃ before a after, l = before ++ a :: after ∧ f a = some x ∧ ∀ b ∈ after, f b = none := by
  rw [List.findSome?_eq_some_iff]
  constructor
  · rintro ⟨l₁, a, l₂, hl, ha, hnone⟩
    refine ⟨l₂.reverse, a, l₁.reverse, ?_, ha, fun b hb => hnone b (List.mem_reverse.1 hb)⟩
    rw [← List.reverse_reverse l, hl]
    simp
  · rintro ⟨before, a, after, rfl, ha, hnone⟩
    exact ⟨after.reverse, a, before.reverse, by simp, ha, fun b hb => hnone b (List.mem_reverse.1 hb)⟩

section Scratch

variable {groups : List Group} {config : Config} {generation revision : Nat} {id : TypeId}
  {n : Node} {h : Hierarchy}

/-- The members of a dictionary that is keyed by a name of its values, one row for each value. -/
theorem flatMap_values {β : Type} {l : List Node} {own : Node → Dict β} {key : β → String}
    (hkey : ∀ a ∈ l, ∀ k v, (own a).get? k = some v → key v = k) :
    (l.flatMap fun a => (own a).values.map fun v => (key v, v)) =
      l.flatMap fun a => (own a).entries :=
  List.flatMap_congr fun a ha => (own a).values_map_key (hkey a ha)

theorem keyed_own (hn : (build groups config none generation revision).node? id = some n) :
    (∀ q x, n.ownAttributes.get? q = some x → x.qualifier = q ∧ x.owner = n.code) ∧
      ∀ k i, n.ownIndexes.get? k = some i → i.name = k ∧ i.owner = n.code := by
  have hget := toMerged_of_node? (map_toMerged_build groups config generation revision none) hn
  unfold Node.ownAttributes Node.ownIndexes
  cases hd : n.data with
  | item own =>
    have hkeyed := Merge.keyed_of_types hget hd
    exact ⟨hkeyed.attributes, hkeyed.indexes⟩
  | _ => simp [TypeData.item?]

theorem exists_node?_of_mem_ancestors {m : Model} {code : String} {a : Node}
    (ha : a ∈ m.ancestors code) : ∃ id, m.node? id = some a := by
  unfold Model.ancestors at ha
  cases hh : m.hierarchy? code with
  | none => simp [hh] at ha
  | some h =>
    simp only [hh, Option.map_some, Option.getD_some, items, List.mem_filter,
      List.mem_filterMap] at ha
    obtain ⟨⟨id, -, hid⟩, -⟩ := ha
    exact ⟨id, hid⟩

variable (hn : (build groups config none generation revision).node? id = some n)
  (hh : n.hierarchy = some h)

include hn hh

theorem item?_of_node? :
    ∃ own, (build groups config none generation revision).item? n.code = some (n, own) := by
  have hkind := (hierarchy_isSome_iff hn).1 (by rw [hh]; rfl)
  have hfind := find?_of_node? (map_toMerged_build groups config generation revision none)
    (Merge.nodup_types_code groups) hn
  unfold item?
  rw [hfind]
  cases hd : n.data with
  | item own => exact ⟨own, by simp [hd, TypeData.item?]⟩
  | _ => simp [Merged.kind, hd, TypeData.kind] at hkind

theorem ancestors_eq : (build groups config none generation revision).ancestors n.code =
    (build groups config none generation revision).items h.ancestors := by
  obtain ⟨own, hitem⟩ := item?_of_node? hn hh
  unfold Model.ancestors hierarchy?
  rw [hitem]
  simp [hh]

theorem computed_of_node? : Computed (.ofTypes (Merge.types groups)) [] id h :=
  finalTable_none (wf_types groups) (by rw [← hierarchy_of_node? hn]; exact hh)

/-- A kind of member is collected from the own members of the ancestors. -/
theorem member_eq_ancestors {β : Type} (member : Hierarchy → Dict β)
    (own : Merged → ItemData → Dict β)
    (halone : ∀ m data status ds,
      member (ownOnly (.ofTypes (Merge.types groups)) m data status ds) = own m data)
    (hextend : ∀ m data parent,
      member (extend (.ofTypes (Merge.types groups)) m data parent) =
        (member parent).overlay (own m data))
    {ownOf : Node → Dict β} (hown : ∀ a data, a.data = .item data → ownOf a = own a.toMerged data) :
    member h = .ofList (((build groups config none generation revision).ancestors n.code).flatMap
      fun a => (ownOf a).entries) := by
  have hc := computed_of_node? hn hh
  have hrows : ∀ a data, a.data = .item data →
      (ownOf a).entries = (own a.toMerged data).entries := fun a data hd => by rw [hown a data hd]
  rw [hc.member_eq member own (wf_types groups) halone hextend, ancestors_eq hn hh,
    flatMap_items (map_toMerged_build groups config generation revision none)
      (fun m data => (own m data).entries) hrows (hc.item_of_ancestor (wf_types groups))]

theorem attributes_eq : h.attributes =
    .ofList (((build groups config none generation revision).ancestors n.code).flatMap
      fun a => a.ownAttributes.entries) := by
  refine member_eq_ancestors hn hh Hierarchy.attributes (fun _ data => data.attributes)
    (fun _ _ _ _ => rfl) (fun _ _ _ => rfl) fun a data hd => ?_
  simp [Node.ownAttributes, hd, TypeData.item?]

theorem indexes_eq : h.indexes =
    .ofList (((build groups config none generation revision).ancestors n.code).flatMap
      fun a => a.ownIndexes.entries) := by
  refine member_eq_ancestors hn hh Hierarchy.indexes (fun _ data => data.indexes)
    (fun _ _ _ _ => rfl) (fun _ _ _ => rfl) fun a data hd => ?_
  simp [Node.ownIndexes, hd, TypeData.item?]

theorem properties_eq : h.properties =
    .ofList (((build groups config none generation revision).ancestors n.code).flatMap
      fun a => a.properties.entries) :=
  member_eq_ancestors hn hh Hierarchy.properties (fun m _ => m.properties)
    (fun _ _ _ _ => rfl) (fun _ _ _ => rfl) fun _ _ _ => rfl

/-- The attribute found under a qualifier is that of the last ancestor that declares it. -/
theorem attribute?_eq (q : String) :
    (build groups config none generation revision).attribute? n.code q true =
      ((build groups config none generation revision).ancestors n.code).reverse.findSome?
        fun a => a.ownAttributes.get? q := by
  obtain ⟨own, hitem⟩ := item?_of_node? hn hh
  rw [← Dict.get?_ofList_flatMap, ← attributes_eq hn hh]
  unfold attribute?
  rw [hitem]
  simp [hh]

theorem map_node?_ancestors :
    h.ancestors.map (build groups config none generation revision).node? =
      ((build groups config none generation revision).ancestors n.code).map some := by
  rw [ancestors_eq hn hh]
  exact map_node?_items (map_toMerged_build groups config generation revision none)
    ((computed_of_node? hn hh).item_of_ancestor (wf_types groups))

theorem getLast?_ancestors :
    ((build groups config none generation revision).ancestors n.code).getLast? = some n := by
  have hlast := congrArg List.getLast? (map_node?_ancestors hn hh)
  rw [List.getLast?_map, List.getLast?_map,
    (computed_of_node? hn hh).getLast?_ancestors (wf_types groups), Option.map_some, hn] at hlast
  obtain ⟨a, ha, hsome⟩ := Option.map_eq_some_iff.1 hlast.symm
  rw [ha, Option.some.inj hsome]

theorem ancestors_of_cycle (hcycle : h.status = .cycle) :
    (build groups config none generation revision).ancestors n.code = [n] := by
  have hm := map_toMerged_build groups config generation revision none
  have hmap := map_node?_ancestors hn hh
  rw [(placed_of_node? hn hh).alone hcycle, (wf_types groups).id (toMerged_of_node? hm hn),
    List.map_singleton, hn] at hmap
  have hsingle : [n].map some = List.map some _ := hmap
  exact (List.map_injective_iff.2 (Option.some_injective _) hsingle).symm

theorem inherits_of_node? : (build groups config none generation revision).Inherits n h := by
  have hm := map_toMerged_build groups config generation revision none
  -- every ancestor is a type of the model, so its members are kept under their own names
  have hkeyed := fun a (ha : a ∈ (build groups config none generation revision).ancestors n.code) =>
    keyed_own (exists_node?_of_mem_ancestors ha).choose_spec
  refine ⟨map_id_of_nodes hm (wf_types groups) (map_node?_ancestors hn hh),
    getLast?_ancestors hn hh, ?_, ?_, properties_eq hn hh, fun q x => ?_, fun q => ?_,
    fun hcycle => ⟨ancestors_of_cycle hn hh hcycle, ?_⟩⟩
  · rw [flatMap_values fun a ha k v hv => ((hkeyed a ha).1 k v hv).1]
    exact attributes_eq hn hh
  · rw [flatMap_values fun a ha k v hv => ((hkeyed a ha).2 k v hv).1]
    exact indexes_eq hn hh
  · rw [attribute?_eq hn hh, findSome?_reverse_eq_some_iff]
    refine exists_congr fun before => exists_congr fun a => exists_congr fun after =>
      and_congr_right fun hsplit => and_congr_right fun hx => ?_
    have ha : a ∈ (build groups config none generation revision).ancestors n.code := by
      simp [hsplit]
    simp [((hkeyed a ha).1 q x hx).2]
  · rw [attribute?_eq hn hh, List.findSome?_eq_none_iff]
    simp
  · rw [attributes_eq hn hh, indexes_eq hn hh, properties_eq hn hh,
      ancestors_of_cycle hn hh hcycle]
    simp [Dict.ofList_entries]

end Scratch

/-- Inherited members follow the ancestors: in a model built from scratch every item type has a
hierarchy whose members are the own members of its ancestors, from the root down. -/
theorem inherits_of_mem_build {groups : List Group} {config : Config} {generation revision : Nat}
    {n : Node} (hn : n ∈ (build groups config none generation revision).nodes)
    (hitem : n.kind = .item) :
    ∃ h, n.hierarchy = some h ∧ (build groups config none generation revision).Inherits n h := by
  obtain ⟨id, hid⟩ := List.mem_iff_getElem?.1 hn
  obtain ⟨h, hh⟩ := Option.isSome_iff_exists.1 ((hierarchy_isSome_iff hid).2 hitem)
  exact ⟨h, hh, inherits_of_node? hid hh⟩

/-- The type at the end redeclares an attribute of the root, which keeps its position. -/
theorem inherits_of_mem_build_override :
    ∃ n h, n ∈ (build [sampleGroup default [("C", some "B", ["x", "z"]), ("B", some "A", ["y"]),
        ("A", none, ["x"])]] {} none 1 0).nodes ∧
      n.hierarchy = some h ∧ h.ancestors = [2, 1, 0] ∧
      h.attributes.keys = ["x", "y", "z"] ∧ h.attributes.values.map (·.owner) = ["C", "B", "C"] ∧
      (build [sampleGroup default [("C", some "B", ["x", "z"]), ("B", some "A", ["y"]),
        ("A", none, ["x"])]] {} none 1 0).Inherits n h := by
  have hmem : _ ∈ (build [sampleGroup default [("C", some "B", ["x", "z"]),
    ("B", some "A", ["y"]), ("A", none, ["x"])]] {} none 1 0).nodes := List.mem_cons_self
  obtain ⟨h, hh, hi⟩ := inherits_of_mem_build hmem rfl
  cases hh
  exact ⟨_, _, List.mem_cons_self, rfl, rfl, rfl, rfl, hi⟩

end Model

end TypeAtlas
