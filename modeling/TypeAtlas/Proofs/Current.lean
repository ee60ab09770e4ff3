/-
Tables of resolved types that are current: their hierarchies are alike those computed from scratch
for their own types. Main statement: resolving new types over a current table gives a current one.
What carries it is that a type is unaffected only together with everything above it: there the new
graph is the earlier one, so what the earlier table holds is what a computation from scratch gives.
-/
import TypeAtlas.Proofs.Agreement
import TypeAtlas.Proofs.Resolution

namespace TypeAtlas.Resolve

variable {types types' : List Merged} {nodes : List Node}

/-! ## Tables with the same codes -/

theorem sameCodeTable_iff (hn : nodes.map Node.toMerged = types') :
    sameCodeTable nodes types = true ↔
      types'.map (fun m => (m.code, m.kind)) = types.map fun m => (m.code, m.kind) := by
  unfold sameCodeTable
  rw [beq_iff_eq, ← hn, List.map_map]
  rfl

variable (hsame : types'.map (fun m => (m.code, m.kind)) = types.map fun m => (m.code, m.kind))

include hsame

theorem code_kind_of_same {i : Nat} {m m' : Merged} (hm : types[i]? = some m)
    (hm' : types'[i]? = some m') : m'.code = m.code ∧ m'.kind = m.kind := by
  have h := congrArg (·[i]?) hsame
  simp only [List.getElem?_map, hm, hm', Option.map_some, Option.some.injEq, Prod.mk.injEq] at h
  exact h

theorem idOf?_of_same (code : String) : idOf? types' code = idOf? types code := by
  have hcodes : types'.map Merged.code = types.map Merged.code := by
    have h := congrArg (List.map Prod.fst) hsame
    rw [List.map_map, List.map_map] at h
    exact h
  have hmap : ∀ l : List Merged, idOf? l code = (l.map Merged.code).findIdx? (· == code) := by
    intro l
    unfold idOf?
    rw [List.findIdx?_map]
    rfl
  rw [hmap, hmap, hcodes]

theorem any_isItem_of_same (i : Nat) :
    (types'[i]?).any Merged.isItem = (types[i]?).any Merged.isItem := by
  have h := congrArg (·[i]?) hsame
  simp only [List.getElem?_map] at h
  cases hm : types[i]? <;> cases hm' : types'[i]? <;> simp [hm, hm'] at h
  · rfl
  · simp [Merged.isItem, h.2]

theorem parentIn_of_same {m m' : Merged} {own own' : ItemData} (hd : m.data = .item own)
    (hd' : m'.data = .item own') (hp : own'.parent = own.parent) :
    parentIn types' m' = parentIn types m := by
  rw [Outline.parentIn_of_item hd, Outline.parentIn_of_item hd', hp]
  cases own.parent with
  | none => rfl
  | some link => simp only [idOf?_of_same hsame, any_isItem_of_same hsame]

omit hsame

/-! ## Current tables -/

/-- Resolved types are current for merged types if they are these with hierarchies alike those
computed from scratch. -/
structure Current (types : List Merged) (nodes : List Node) : Prop where
  merged : nodes.map Node.toMerged = types
  alike : ∀ id, Option.Rel Hierarchy.Alike ((nodes[id]?).bind Node.hierarchy)
    ((finalTable types none).at? id)

theorem Current.toMerged (hc : Current types nodes) {i : Nat} {n : Node} (hn : nodes[i]? = some n) :
    types[i]? = some n.toMerged := by
  rw [← hc.merged, List.getElem?_map, hn]
  rfl

/-- The hierarchies of a current table are alike computed ones. -/
theorem Current.computed (hw : (Outline.ofTypes types).WF) (hc : Current types nodes) {id : TypeId}
    {h : Hierarchy} (hh : (nodes[id]?).bind Node.hierarchy = some h) :
    ∃ k, h.Alike k ∧ Computed (.ofTypes types) [] id k := by
  have hrel := hc.alike id
  rw [hh] at hrel
  cases hk : (finalTable types none).at? id with
  | none => rw [hk] at hrel; cases hrel
  | some k =>
    rw [hk] at hrel
    cases hrel with
    | some halike => exact ⟨k, halike, finalTable_none hw hk⟩

section Step

variable (hw : (Outline.ofTypes types).WF) (hw' : (Outline.ofTypes types').WF)
  (hcur : Current types' nodes) (hcodes : sameCodeTable nodes types = true)

include hw hw' hcur hcodes

/-- An unaffected item type is the same as it was. -/
theorem sameAt_of_not_affected {id : TypeId} (hn : id ∉ affected types nodes)
    (hitem : ((Outline.ofTypes types).item? id).isSome) :
    ∃ m' own' m own, (Outline.ofTypes types').item? id = some (m', own') ∧
      (Outline.ofTypes types).item? id = some (m, own) ∧
      SameAt (.ofTypes types') (.ofTypes types) m' own' m own := by
  have hsame := (sameCodeTable_iff hcur.merged).1 hcodes
  obtain ⟨⟨m, own⟩, hi⟩ := Option.isSome_iff_exists.1 hitem
  obtain ⟨hm, hd⟩ := Outline.item?_eq_some.1 hi
  obtain ⟨n, h, hnode, hh, hcontent, hends⟩ := unchanged_of_not_affected hw hi hn
  have hm' := hcur.toMerged hnode
  unfold Merged.sameContent at hcontent
  rw [Bool.and_eq_true] at hcontent
  -- equal content includes the kind, so the earlier type is an item type too
  cases hd' : n.toMerged.data with
  | item own' =>
    have hi' := Outline.item?_eq_some (o := .ofTypes types').2 ⟨hm', hd'⟩
    have hold : (nodes[id]?).bind Node.hierarchy = some h := by rw [hnode]; exact hh
    obtain ⟨k, halike, hk⟩ := hcur.computed hw' hold
    have hid' := hw'.id hm'
    refine ⟨n.toMerged, own', m, own, hi', hi, hid'.trans (hw.id hm).symm,
      (code_kind_of_same hsame hm hm').1, ?_, hcontent.2, ?_⟩
    · rw [hd, hd'] at hcontent
      exact hcontent.1
    · rw [hw.id hm, hid', ← hends, halike.ownEnds]
      exact (hk.ownEnds hw').symm
  | _ => rw [hd, hd'] at hcontent; cases hcontent.1

theorem parent_eq_of_not_affected {id : TypeId} (hn : id ∉ affected types nodes)
    (hitem : ((Outline.ofTypes types).item? id).isSome) :
    (Outline.ofTypes types').parent id = (Outline.ofTypes types).parent id := by
  have hsame := (sameCodeTable_iff hcur.merged).1 hcodes
  obtain ⟨m', own', m, own, hi', hi, hat⟩ := sameAt_of_not_affected hw hw' hcur hcodes hn hitem
  obtain ⟨hm, hd⟩ := Outline.item?_eq_some.1 hi
  obtain ⟨hm', hd'⟩ := Outline.item?_eq_some.1 hi'
  rw [Outline.parent_ofTypes types hm, Outline.parent_ofTypes types' hm']
  exact parentIn_of_same hsame hd hd' (ItemData.beq_iff.1 hat.own).1

/-- Between a current table and new types with the same codes and kinds, the unaffected item types
are the same, with everything above them. -/
theorem sameAbove_unaffected :
    SameAbove (.ofTypes types') (.ofTypes types)
      fun id => id ∉ affected types nodes ∧ ((Outline.ofTypes types).item? id).isSome := by
  have hparent : ∀ {id : TypeId}, id ∉ affected types nodes →
      ((Outline.ofTypes types).item? id).isSome → _ := fun hn hitem =>
    parent_eq_of_not_affected hw hw' hcur hcodes hn hitem
  refine ⟨fun ⟨hn, hitem⟩ hi => ?_, fun ⟨hn, hitem⟩ => hparent hn hitem, fun ⟨hn, hitem⟩ hup => ?_⟩
  · obtain ⟨m', own', m, own, hi', hi'', hat⟩ :=
      sameAt_of_not_affected hw hw' hcur hcodes hn hitem
    rw [hi] at hi'
    cases hi'
    exact ⟨m, own, hi'', hat⟩
  · rw [Outline.up_iff_parent, hparent hn hitem, ← Outline.up_iff_parent] at hup
    exact ⟨not_affected_of_up hw hn hup, hw.parent hup⟩

/-- A kept hierarchy is that of an item type, and alike the one computed from scratch. -/
theorem kept_alike {id : TypeId} {h : Hierarchy}
    (hh : (kept (.ofTypes types) nodes (affected types nodes)).at? id = some h) :
    ((Outline.ofTypes types).item? id).isSome ∧
      ∀ {k : Hierarchy}, Computed (.ofTypes types) [] id k → h.Alike k := by
  obtain ⟨hlt, hn, hold⟩ := (at?_kept hw).1 hh
  obtain ⟨k', halike, hk'⟩ := hcur.computed hw' hold
  have hsame := (sameCodeTable_iff hcur.merged).1 hcodes
  have hitem : ((Outline.ofTypes types).item? id).isSome := by
    obtain ⟨m', hm', hitem'⟩ := Outline.item?_isSome_iff.1 hk'.item
    have hm : types[id]? = some types[id] := List.getElem?_eq_getElem hlt
    refine Outline.item?_isSome_iff.2 ⟨_, hm, ?_⟩
    unfold Merged.isItem at hitem' ⊢
    rw [← (code_kind_of_same hsame hm hm').2]
    exact hitem'
  exact ⟨hitem, fun hk =>
    halike.trans (hk'.alike_of_same hw' (sameAbove_unaffected hw hw' hcur hcodes) ⟨hn, hitem⟩ hk)⟩

end Step

section Resolving

variable (hw : (Outline.ofTypes types).WF) {old : Option (List Node)}
  (hold : ∀ nodes, old = some nodes → ∃ types', (Outline.ofTypes types').WF ∧ Current types' nodes)

include hw hold

/-- What a resolution keeps of a current table is alike what is computed from scratch. -/
theorem startTable_alike {id : TypeId} {h : Hierarchy} (hh : (startTable types old).at? id = some h) :
    ((Outline.ofTypes types).item? id).isSome ∧
      ∀ {k : Hierarchy}, Computed (.ofTypes types) [] id k → h.Alike k := by
  rcases startTable_cases types old with hs | ⟨nodes, rfl, hcodes, hs⟩ <;> rw [hs] at hh
  · rw [at?_map_none] at hh
    cases hh
  · obtain ⟨types', hw', hcur⟩ := hold nodes rfl
    exact kept_alike hw hw' hcur hcodes hh

theorem finalTable_alike {id : TypeId} {h k : Hierarchy}
    (hh : (finalTable types old).at? id = some h) (hk : (finalTable types none).at? id = some k) :
    h.Alike k :=
  ((finalTable_sound hw old).1.computed hh).alike (fun hs => (startTable_alike hw hold hs).2)
    (finalTable_none hw hk)

theorem finalTable_isSome_iff (id : TypeId) :
    ((finalTable types old).at? id).isSome ↔ ((Outline.ofTypes types).item? id).isSome := by
  refine ⟨fun h => ?_, (finalTable_sound hw old).2⟩
  obtain ⟨k, hk⟩ := Option.isSome_iff_exists.1 h
  exact ((finalTable_sound hw old).1.computed hk).kept_or_item.elim
    (fun hs => (startTable_alike hw hold hs).1) fun h => h

/-- Resolving over a current table, or over none, gives a current table. -/
theorem current_ofTypes : Current types (Resolution.ofTypes types old).nodes := by
  refine ⟨Resolution.map_toMerged_nodes hw, fun id => ?_⟩
  rw [Resolution.hierarchy_nodes hw]
  have hscratch : ((finalTable types none).at? id).isSome ↔ _ :=
    finalTable_isSome_iff hw (fun _ h => by cases h) id
  have hiff := (finalTable_isSome_iff hw hold id).trans hscratch.symm
  cases hh : (finalTable types old).at? id with
  | some h =>
    cases hk : (finalTable types none).at? id with
    | some k => exact .some (finalTable_alike hw hold hh hk)
    | none => simp [hh, hk] at hiff
  | none =>
    cases hk : (finalTable types none).at? id with
    | some k => simp [hh, hk] at hiff
    | none => exact .none

end Resolving

end TypeAtlas.Resolve
