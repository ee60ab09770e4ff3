/-
Relation ends. The type bound to one side of a relation reaches the end on the other side. Main
statement: in every model at the end of a history of builds the own ends of an item type come from
the relations in id order, from each the target end and then the source end as far as the type is
bound to the opposite side; the ends it has altogether are the own ends of its ancestors, root
first; and in the whole model a relation has on each side one own end, at the type bound to the
opposite side, or none if the code bound there is no item type's.

A hierarchy adds its own ends to those of its parent's hierarchy, so the ends along the ancestors
are an induction over the computation. Where an end stands is told by codes: no two types share one.
-/
import TypeAtlas.Proofs.Scope

namespace TypeAtlas

namespace Merged

/-! ## The ends of a relation -/

/-- The declared end of a relation on a side. -/
def endAt? (r : Merged) (side : Side) : Option EndDecl :=
  match r.data, side with
  | .relation source _, .source => some source
  | .relation _ target, .target => some target
  | _, _ => none

/-- The end of a relation on a side, as seen by the type that is bound to the opposite side. -/
def seen? (r : Merged) (side : Side) : Option RelationEnd :=
  (r.endAt? side).bind fun e => (r.endAt? side.opposite).map fun bound =>
    { e with relation := r.code, side, owner := bound.typeCode }

/-- The ends of a relation as seen from the opposite sides, the target end first. -/
def seen (r : Merged) : List RelationEnd := [Side.target, .source].filterMap r.seen?

theorem endsFrom_eq (r : Merged) (owner : String) :
    r.endsFrom owner = r.seen.filter fun e => e.owner == owner := by
  unfold endsFrom seen seen? endAt?
  cases r.data with
  | relation source target =>
    by_cases hs : source.typeCode = owner <;> by_cases ht : target.typeCode = owner <;>
      simp [Side.opposite, hs, ht]
  | _ => simp

/-- A relation has an end on each side, and each is owned by what the other is bound to. -/
theorem exists_seen {r : Merged} (hr : r.kind = .relation) :
    ∃ t s, r.seen? .target = some t ∧ r.seen? .source = some s ∧ r.seen = [t, s] ∧
      t.owner = s.typeCode ∧ s.owner = t.typeCode := by
  cases hd : r.data with
  | relation source target =>
    refine ⟨{ target with relation := r.code, side := .target, owner := source.typeCode },
      { source with relation := r.code, side := .source, owner := target.typeCode },
      ?_, ?_, ?_, rfl, rfl⟩
    all_goals simp [seen, seen?, endAt?, hd, Side.opposite]
  | _ => simp [kind, hd, TypeData.kind] at hr

theorem seen?_eq_some {r : Merged} {side : Side} {e : RelationEnd} (h : r.seen? side = some e) :
    e.relation = r.code ∧ e.side = side := by
  obtain ⟨_, -, hbound⟩ := Option.bind_eq_some_iff.1 h
  obtain ⟨_, -, rfl⟩ := Option.map_eq_some_iff.1 hbound
  exact ⟨rfl, rfl⟩

theorem filter_side_seen {r : Merged} {side : Side} {e : RelationEnd} (h : r.seen? side = some e) :
    (r.seen.filter fun x => x.side == side) = [e] := by
  have hside := (seen?_eq_some h).2
  cases hd : r.data with
  | relation source target => cases side <;> simp_all [seen, seen?, endAt?, Side.opposite]
  | _ => simp [seen?, endAt?, hd] at h

theorem relation_of_mem_seen {r : Merged} {e : RelationEnd} (h : e ∈ r.seen) :
    e.relation = r.code := by
  obtain ⟨side, -, hside⟩ := List.mem_filterMap.1 h
  exact (seen?_eq_some hside).1

end Merged

/-- The own ends of a type; only item types have any. -/
def Node.ownEnds (n : Node) : List RelationEnd := (n.hierarchy.map Hierarchy.ownEnds).getD []

namespace Resolve

/-! ## Ends along the ancestors -/

/-- The ends of a type are the own ends of its ancestors. -/
theorem Computed.ends_eq {o : Outline} (hw : o.WF) {id : TypeId} {h : Hierarchy}
    (hc : Computed o [] id h) : h.ends = h.ancestors.flatMap o.endsOf := by
  have halone : ∀ m own status ds, (ownOnly o m own status ds).ends =
      (ownOnly o m own status ds).ancestors.flatMap o.endsOf := by
    intro m own status ds
    simp [ownOnly]
  induction hc with
  | kept found => exact absurd found Computed.not_kept
  | cycle _ _ _ => exact halone _ _ _ _
  | top _ hi htop =>
    obtain ⟨ds, hd, -⟩ := derive_eq_ownOnly hw hi htop
    rw [hd]
    exact halone _ _ _ _
  | child _ _ _ _ _ ih =>
    unfold inherit
    split
    · exact halone _ _ _ _
    · simp [extend, ih]

end Resolve

namespace Model

open Resolve

/-! ## Types by code -/

section Types

variable {m : Model} {types : List Merged} (hm : m.nodes.map Node.toMerged = types)
  (hcodes : (types.map Merged.code).Nodup)

include hm hcodes

theorem find?_eq_some_iff {code : String} {n : Node} :
    m.find? code = some n ↔ n ∈ m.nodes ∧ n.code = code := by
  constructor
  · intro h
    obtain ⟨i, hi, hn⟩ := Option.bind_eq_some_iff.1 h
    obtain ⟨n', hn', hcode⟩ := (idOf?_eq_some_iff_node? hm hcodes).1 hi
    cases hn.symm.trans hn'
    exact ⟨List.mem_of_getElem? hn, hcode⟩
  · rintro ⟨hn, rfl⟩
    obtain ⟨i, hi⟩ := List.mem_iff_getElem?.1 hn
    exact find?_of_node? hm hcodes hi

theorem item?_isSome_iff {code : String} :
    (m.item? code).isSome ↔ ∃ n ∈ m.nodes, n.code = code ∧ n.kind = .item := by
  have hitem : ∀ n : Node, n.data.item?.isSome ↔ n.kind = .item := by
    intro n
    cases hd : n.data <;> simp [Merged.kind, hd, TypeData.kind, TypeData.item?]
  constructor
  · intro h
    obtain ⟨⟨n, own⟩, hn⟩ := Option.isSome_iff_exists.1 h
    obtain ⟨n', hfind, hown⟩ := Option.bind_eq_some_iff.1 hn
    obtain ⟨own', hown', -⟩ := Option.bind_eq_some_iff.1 hown
    obtain ⟨hmem, hcode⟩ := (find?_eq_some_iff hm hcodes).1 hfind
    exact ⟨n', hmem, hcode, (hitem n').1 (by rw [hown']; rfl)⟩
  · rintro ⟨n, hn, hcode, hkind⟩
    obtain ⟨own, hown⟩ := Option.isSome_iff_exists.1 ((hitem n).2 hkind)
    unfold item?
    rw [(find?_eq_some_iff hm hcodes).2 ⟨hn, hcode⟩]
    simp [hown]

theorem hierarchy?_eq {n : Node} (hn : n ∈ m.nodes) (hkind : n.kind = .item) :
    m.hierarchy? n.code = n.hierarchy := by
  have hfind := (find?_eq_some_iff hm hcodes).2 ⟨hn, rfl⟩
  unfold hierarchy? item?
  rw [hfind]
  cases hd : n.data with
  | item own => simp [hd, TypeData.item?]
  | _ => simp [Merged.kind, hd, TypeData.kind] at hkind

theorem nodup_code : (m.nodes.map fun n => n.code).Nodup := by
  rw [map_code_eq hm]
  exact hcodes

end Types

/-- Of types with distinct codes one alone contributes. -/
theorem flatMap_eq_of_code {l : List Node} (hcodes : (l.map fun n => n.code).Nodup)
    {f : Node → List RelationEnd} {a : Node} (ha : a ∈ l)
    (hf : ∀ b ∈ l, b.code ≠ a.code → f b = []) : l.flatMap f = f a := by
  obtain ⟨before, after, rfl⟩ := List.append_of_mem ha
  rw [List.map_append, List.map_cons, List.nodup_middle, List.nodup_cons,
    ← List.map_append] at hcodes
  have hnil : ∀ b ∈ before ++ after, f b = [] := by
    intro b hb
    refine hf b ?_ fun hsame => hcodes.1 (hsame ▸ List.mem_map_of_mem hb)
    exact List.mem_append.2 ((List.mem_append.1 hb).imp_right (List.mem_cons_of_mem a))
  have hbefore : before.flatMap f = [] :=
    List.flatMap_eq_nil_iff.2 fun b hb => hnil b (List.mem_append_left _ hb)
  have hafter : after.flatMap f = [] :=
    List.flatMap_eq_nil_iff.2 fun b hb => hnil b (List.mem_append_right _ hb)
  rw [List.flatMap_append, List.flatMap_cons, hbefore, hafter, List.nil_append, List.append_nil]

/-! ## Own ends -/

theorem ownEnds_eq (m : Model) (code : String) :
    m.ownEnds code =
      (m.ofKind .relation).flatMap fun r => r.seen.filter fun e => e.owner == code := by
  unfold ownEnds ofKind
  induction m.nodes with
  | nil => rfl
  | cons n nodes ih =>
    rw [List.flatMap_cons, ih, List.filter_cons, Merged.endsFrom_eq]
    split
    · rw [List.flatMap_cons]
    · rename_i hkind
      -- only relations have ends
      have hnil : n.seen = [] := by
        cases hd : n.data with
        | relation source target => simp [Merged.kind, hd, TypeData.kind] at hkind
        | _ => simp [Merged.seen, Merged.seen?, Merged.endAt?, hd]
      rw [hnil]
      rfl

theorem mem_ownEnds {m : Model} {r : Node} (hr : r ∈ m.ofKind .relation) {side : Side}
    {e : RelationEnd} (he : r.seen? side = some e) : e ∈ m.ownEnds e.owner := by
  rw [ownEnds_eq]
  refine List.mem_flatMap.2 ⟨r, hr, List.mem_filter.2 ⟨?_, by simp⟩⟩
  exact List.mem_filterMap.2 ⟨side, by cases side <;> simp, he⟩

/-- The own ends of a relation in the whole model. -/
def endsOf (m : Model) (relation : String) : List RelationEnd :=
  (m.nodes.flatMap Node.ownEnds).filter fun e => e.relation == relation

/-- Relation ends stand at the right types and are inherited in order. -/
structure Attached (m : Model) : Prop where
  own : ∀ n ∈ m.nodes, n.kind = .item → ∃ h, n.hierarchy = some h ∧ h.ownEnds =
    (m.ofKind .relation).flatMap fun r => r.seen.filter fun e => e.owner == n.code
  all : ∀ n ∈ m.nodes, ∀ h, n.hierarchy = some h →
    h.ends = (m.ancestors n.code).flatMap Node.ownEnds
  asked : ∀ n ∈ m.nodes, ∀ h, n.hierarchy = some h →
    m.relationEnds n.code false = h.ownEnds ∧ m.relationEnds n.code true = h.ends
  /-- A side has one end in the whole model, unless the opposite side is bound to no item type. -/
  side : ∀ r ∈ m.ofKind .relation, ∀ side e, r.seen? side = some e →
    ((m.endsOf r.code).filter fun x => x.side == side) =
      if (m.item? e.owner).isSome then [e] else []
  /-- A relation of two item types has two ends, crossed over. -/
  both : ∀ r ∈ m.ofKind .relation, ∃ t s, r.seen? .target = some t ∧ r.seen? .source = some s ∧
    t.owner = s.typeCode ∧ s.owner = t.typeCode ∧
    ∀ a b, m.find? t.owner = some a → a.kind = .item → m.find? s.owner = some b → b.kind = .item →
      (m.endsOf r.code).Perm [t, s] ∧ t ∈ a.ownEnds ∧ s ∈ b.ownEnds

namespace Built

variable {groups : List Group} {m : Model} (h : Built groups m)

include h

theorem exists_ownEnds {n : Node} (hn : n ∈ m.nodes) (hkind : n.kind = .item) :
    ∃ k, n.hierarchy = some k ∧ k.ownEnds = m.ownEnds n.code := by
  obtain ⟨id, hid⟩ := List.mem_iff_getElem?.1 hn
  obtain ⟨k, hk⟩ := Option.isSome_iff_exists.1 ((h.hierarchy_isSome_iff hid).2 hkind)
  exact ⟨k, hk, h.endsKnown n hn k hk⟩

theorem ownEnds_of_item {n : Node} (hn : n ∈ m.nodes) (hkind : n.kind = .item) :
    n.ownEnds = m.ownEnds n.code := by
  obtain ⟨k, hk, hends⟩ := h.exists_ownEnds hn hkind
  unfold Node.ownEnds
  rw [hk]
  exact hends

theorem ownEnds_of_not_item {n : Node} (hn : n ∈ m.nodes) (hkind : n.kind ≠ .item) :
    n.ownEnds = [] := by
  obtain ⟨id, hid⟩ := List.mem_iff_getElem?.1 hn
  have hnone : n.hierarchy = none :=
    Option.not_isSome_iff_eq_none.1 fun hsome => hkind ((h.hierarchy_isSome_iff hid).1 hsome)
  unfold Node.ownEnds
  rw [hnone]
  rfl

theorem hierarchy?_of_mem {n : Node} (hn : n ∈ m.nodes) {k : Hierarchy}
    (hk : n.hierarchy = some k) : m.hierarchy? n.code = some k := by
  obtain ⟨id, hid⟩ := List.mem_iff_getElem?.1 hn
  have hkind := (h.hierarchy_isSome_iff hid).1 (by rw [hk]; rfl)
  rw [hierarchy?_eq h.current.merged (Merge.nodup_types_code groups) hn hkind, hk]

/-- The ends of a type are the own ends of its ancestors, whatever model its hierarchy is from. -/
theorem ends_eq {n : Node} (hn : n ∈ m.nodes) {k : Hierarchy} (hk : n.hierarchy = some k) :
    k.ends = (m.ancestors n.code).flatMap Node.ownEnds := by
  have hm := h.current.merged
  obtain ⟨id, hid⟩ := List.mem_iff_getElem?.1 hn
  obtain ⟨k', halike, hc⟩ := h.computed hid hk
  have hitem := hc.item_of_ancestor (wf_types groups)
  rw [← halike.ancestors] at hitem
  have hnode : ∀ a ∈ k.ancestors, (Outline.ofTypes (Merge.types groups)).endsOf a =
      ((m.node? a).map Node.ownEnds).getD [] := by
    intro a ha
    obtain ⟨x, hx, hkind⟩ := (itemAt_iff hm).2 (hitem a ha)
    rw [endsOf_eq_ownEnds hm hx hkind, hx, Option.map_some, Option.getD_some,
      h.ownEnds_of_item (List.mem_of_getElem? hx) hkind]
  have hancestors : m.ancestors n.code = m.items k.ancestors := by
    unfold Model.ancestors
    rw [h.hierarchy?_of_mem hn hk]
    rfl
  calc k.ends = k.ancestors.flatMap (Outline.ofTypes (Merge.types groups)).endsOf := by
        rw [halike.ends, hc.ends_eq (wf_types groups), halike.ancestors]
    _ = k.ancestors.flatMap fun a => ((m.node? a).map Node.ownEnds).getD [] :=
        List.flatMap_congr hnode
    _ = (k.ancestors.map m.node?).flatMap fun x => (x.map Node.ownEnds).getD [] := by
        rw [List.flatMap_map]
    _ = (m.ancestors n.code).flatMap Node.ownEnds := by
        rw [map_node?_items hm hitem, List.flatMap_map, hancestors]
        rfl

/-! ## The ends of one relation -/

variable {r : Node} (hr : r ∈ m.ofKind .relation)

include hr

/-- What a relation contributes to the own ends of a type. -/
theorem filter_ownEnds {n : Node} (hn : n ∈ m.nodes) :
    (n.ownEnds.filter fun e => e.relation == r.code) =
      if n.kind = .item then r.seen.filter fun e => e.owner == n.code else [] := by
  split
  · rename_i hkind
    have hcodes : ((m.ofKind .relation).map fun n => n.code).Nodup :=
      (nodup_code h.current.merged (Merge.nodup_types_code groups)).sublist
        (List.filter_sublist.map _)
    rw [h.ownEnds_of_item hn hkind, ownEnds_eq, List.filter_flatMap,
      flatMap_eq_of_code hcodes hr, List.filter_eq_self.2]
    · intro e he
      simp [Merged.relation_of_mem_seen (List.mem_filter.1 he).1]
    · intro b _ hne
      refine List.filter_eq_nil_iff.2 fun e he => ?_
      simp [Merged.relation_of_mem_seen (List.mem_filter.1 he).1, hne]
  · rename_i hkind
    rw [h.ownEnds_of_not_item hn hkind]
    rfl

/-- What a relation has on a side stands at the type that the opposite side is bound to. -/
theorem filter_side_endsOf {side : Side} {e : RelationEnd} (he : r.seen? side = some e) :
    ((m.endsOf r.code).filter fun x => x.side == side) =
      if (m.item? e.owner).isSome then [e] else [] := by
  have hm := h.current.merged
  have hcodes := Merge.nodup_types_code groups
  have hone : ∀ n ∈ m.nodes,
      ((n.ownEnds.filter fun x => x.relation == r.code).filter fun x => x.side == side) =
        if n.kind = .item then [e].filter fun x => x.owner == n.code else [] := by
    intro n hn
    rw [h.filter_ownEnds hr hn, ← Merged.filter_side_seen he]
    split
    · rw [List.filter_filter, List.filter_filter]
      simp only [Bool.and_comm]
    · rfl
  unfold endsOf
  rw [List.filter_flatMap, List.filter_flatMap, List.flatMap_congr hone]
  split
  · rename_i hitem
    obtain ⟨a, ha, hcode, hkind⟩ := (item?_isSome_iff hm hcodes).1 hitem
    rw [flatMap_eq_of_code (nodup_code hm hcodes) ha]
    · simp [hkind, hcode]
    · intro b _ hne
      rw [hcode] at hne
      simp [Ne.symm hne]
  · rename_i hno
    refine List.flatMap_eq_nil_iff.2 fun n hn => ?_
    by_cases hkind : n.kind = .item
    · have hne : e.owner ≠ n.code := by
        intro hcode
        exact hno ((item?_isSome_iff hm hcodes).2 ⟨n, hn, hcode.symm, hkind⟩)
      simp [hne]
    · simp [hkind]

/-- A relation has two ends where both sides are bound to item types. -/
theorem endsOf_perm {t s : RelationEnd} (ht : r.seen? .target = some t)
    (hs : r.seen? .source = some s) (hitem : (m.item? t.owner).isSome)
    (hitem' : (m.item? s.owner).isSome) : (m.endsOf r.code).Perm [t, s] := by
  have hsplit := List.filter_append_perm (fun e : RelationEnd => e.side == .target)
    (m.endsOf r.code)
  have hother : (fun e : RelationEnd => !(e.side == .target)) = fun e => e.side == .source := by
    funext e
    cases e.side <;> rfl
  rw [hother, h.filter_side_endsOf hr ht, h.filter_side_endsOf hr hs, if_pos hitem,
    if_pos hitem'] at hsplit
  exact hsplit.symm

end Built

/-- In every model at the end of a history of builds, in particular in one built from scratch,
relation ends stand at the right types and are inherited in order. -/
theorem attached_of_built {groups : List Group} {m : Model} (h : Built groups m) : m.Attached := by
  have hm := h.current.merged
  have hcodes := Merge.nodup_types_code groups
  constructor
  · intro n hn hkind
    obtain ⟨k, hk, hends⟩ := h.exists_ownEnds hn hkind
    exact ⟨k, hk, by rw [hends, ownEnds_eq]⟩
  · intro n hn k hk
    exact h.ends_eq hn hk
  · intro n hn k hk
    unfold relationEnds
    rw [h.hierarchy?_of_mem hn hk]
    exact ⟨rfl, rfl⟩
  · intro r hr side e he
    exact h.filter_side_endsOf hr he
  · intro r hr
    have hkind : r.kind = .relation := by simpa using (List.mem_filter.1 hr).2
    obtain ⟨t, s, ht, hs, -, howner, howner'⟩ := Merged.exists_seen hkind
    refine ⟨t, s, ht, hs, howner, howner', fun a b ha hka hb hkb => ?_⟩
    obtain ⟨hmem, hcode⟩ := (find?_eq_some_iff hm hcodes).1 ha
    obtain ⟨hmem', hcode'⟩ := (find?_eq_some_iff hm hcodes).1 hb
    refine ⟨h.endsOf_perm hr ht hs ?_ ?_, ?_, ?_⟩
    · exact (item?_isSome_iff hm hcodes).2 ⟨a, hmem, hcode, hka⟩
    · exact (item?_isSome_iff hm hcodes).2 ⟨b, hmem', hcode', hkb⟩
    · rw [h.ownEnds_of_item hmem hka, hcode]
      exact mem_ownEnds hr ht
    · rw [h.ownEnds_of_item hmem' hkb, hcode']
      exact mem_ownEnds hr hs

/-- `B` extends `A`; `R` relates the two, `S` relates `B` to itself, and `T` relates `B` to a code
that is not declared. -/
def relatedGroups : List Group :=
  [⟨⟨0⟩, ⟨0⟩, [sampleRelation "R" "A" "B", sampleRelation "S" "B" "B", sampleRelation "T" "B" "X"],
      []⟩,
    sampleGroup default [("B", some "A", []), ("A", none, [])]]

/-- The end that `B` inherits comes before its own four. -/
theorem attached_of_built_related :
    ∃ m, buildUnless .never relatedGroups {} none 1 0 = .ok m ∧ m.Attached ∧
      ((m.relationEnds "B" true).map fun e => (e.relation, e.side, e.owner, e.typeCode)) =
        [("R", .target, "A", "B"), ("R", .source, "B", "A"), ("S", .target, "B", "B"),
          ("S", .source, "B", "B"), ("T", .target, "B", "X")] ∧
      (m.endsOf "R").length = 2 ∧ (m.endsOf "S").length = 2 ∧ (m.endsOf "T").length = 1 := by
  have h : Built relatedGroups (build relatedGroups {} none 1 0) := .first .never rfl
  exact ⟨_, rfl, attached_of_built h, by decide, by decide, by decide, by decide⟩

end Model

end TypeAtlas
