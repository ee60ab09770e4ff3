/-
What is reported about item types. The findings of a hierarchy are written down while walks fill the
table, and a walk starts wherever an entry is still open and stops at entries of earlier walks. Main
statement: when all hierarchies are computed anew, the findings of a type depend on its place in the
extends graph alone. A type on a cycle reports the way once round it, a type that leads into a cycle
reports nothing, a parent that is no item type is reported where it was stated last, and below a
parent that is one, the own attributes that change the type of an inherited one are reported.

The way round is a fact about the bare graph: a walk that closes a cycle lists what the type leads
to, each type once and before its parent (`Ring`).
-/
import TypeAtlas.Proofs.Contributions
import TypeAtlas.Proofs.Counterparts
import TypeAtlas.Proofs.Findings

namespace TypeAtlas

/-! ## The way round a cycle -/

namespace Resolve

variable {o : Outline}

/-- The list goes once round a cycle: every type extends the one after it, and the last one the
first. -/
structure Ring (o : Outline) (ring : List TypeId) : Prop where
  nodup : ring.Nodup
  linked : (ring ++ ring.take 1).IsChain o.Up

/-- A path is a chain of types, each extending the next one, that ends at the next type. -/
theorem Trail.isChain {first next : TypeId} {path : List TypeId} (h : Trail o first path next) :
    (path.reverse ++ [next]).IsChain o.Up := by
  induction h with
  | nil => exact List.isChain_singleton first
  | @cons path id next _ hup ih =>
    rw [List.reverse_cons]
    refine ih.append (List.isChain_singleton next) fun a ha b hb => ?_
    rw [List.getLast?_concat, Option.mem_def, Option.some.injEq] at ha
    rw [List.head?_singleton, Option.mem_def, Option.some.injEq] at hb
    rw [← ha, ← hb]
    exact hup

/-- A path that comes back to its first type goes round a cycle. -/
theorem Trail.ring {id : TypeId} {turn : List TypeId} (h : Trail o id (turn ++ [id]) id)
    (hn : (turn ++ [id]).Nodup) : Ring o (id :: turn.reverse) := by
  constructor
  · simpa using List.nodup_reverse.2 hn
  · simpa using h.isChain

/-- The walk from a type on a cycle closes the cycle of that type. -/
theorem mem_cycle_walkFrom (hw : o.WF) {id : TypeId} (hon : o.OnCycle id) :
    id ∈ (walkFrom o [] id).cycle := by
  have hends := walkFrom_ends hw [] id
  generalize walkFrom o [] id = w at hends
  cases hends with
  | filled _ _ found => cases found
  | root trail _ top =>
    exact absurd (hon.of_leads trail.leads).1 (Outline.not_onCycle_of_top top)
  | cycle trail _ =>
    exact mem_of_leads (cycle_closed trail) List.mem_cons_self (hon.of_leads trail.split.1.leads).2

/-- The cycle that a walk closes goes once round what each of its types leads to. -/
theorem ring_walkFrom (hw : o.WF) {first id : TypeId} (h : id ∈ (walkFrom o [] first).cycle) :
    Ring o (walkFrom o [] first).cycle ∧
      ∀ x, x ∈ (walkFrom o [] first).cycle ↔ o.Leads id x := by
  have hends := walkFrom_ends hw [] first
  generalize walkFrom o [] first = w at hends h
  cases hends with
  | filled => cases h
  | root => cases h
  | @cycle turn rest start trail fresh =>
    have hround := trail.split.2
    have hnodup : (turn ++ [start]).Nodup :=
      fresh.nodup.sublist ((List.nil_sublist rest).cons_cons start |>.append_left turn)
    -- the start of the way round leads to `id`, and so `id` leads back to it
    have hback : o.Leads id start :=
      (hround.onCycle.of_leads (hround.leads_of_mem id (mem_turn rest h).1)).2
    refine ⟨hround.ring hnodup, fun x => ⟨fun hx => ?_, mem_of_leads (cycle_closed trail) h⟩⟩
    exact hback.trans (hround.leads_of_mem x (mem_turn rest hx).1)

/-- The cycle of a type as it is reported goes once round what the type leads to. -/
theorem ring_cycleOf (hw : o.WF) {id : TypeId} (hon : o.OnCycle id) :
    Ring o (cycleOf o id) ∧ ∀ x, x ∈ cycleOf o id ↔ o.Leads id x := by
  obtain ⟨p, hup⟩ := hon.up
  obtain ⟨t, ht, -⟩ := Outline.item?_isSome_iff.1 (hw.child hup)
  -- some walk closes the cycle: at the latest the one that starts at the type itself
  have hfound : ((o.types.map fun m => (walkFrom o [] m.id).cycle).find?
      fun c => c.contains id).isSome := by
    rw [List.find?_isSome]
    refine ⟨(walkFrom o [] id).cycle, List.mem_map.2 ⟨t, List.mem_of_getElem? ht, ?_⟩, ?_⟩
    · rw [hw.id ht]
    · exact List.contains_iff_mem.2 (mem_cycle_walkFrom hw hon)
  obtain ⟨c, hc⟩ := Option.isSome_iff_exists.1 hfound
  have hin : id ∈ c := by simpa using List.find?_some hc
  obtain ⟨m, -, rfl⟩ := List.mem_map.1 (List.mem_of_find?_eq_some hc)
  unfold cycleOf
  rw [hc]
  exact ring_walkFrom hw hin

/-! ## Findings of one hierarchy -/

/-- A type that leads into a cycle without being on it is not reported. -/
theorem Computed.diagnostics_of_leadIn (hw : o.WF) {id : TypeId} {h : Hierarchy}
    (hc : Computed o [] id h) (hoff : ¬o.OnCycle id) (hstatus : h.status = .cycle) :
    h.diagnostics = [] := by
  cases hc with
  | kept found => exact absurd found Computed.not_kept
  | cycle _ _ hon => exact absurd hon hoff
  | top _ hi htop =>
    obtain ⟨ds, hd, hne⟩ := derive_eq_ownOnly hw hi htop
    rw [hd] at hstatus
    exact absurd hstatus hne
  | child => exact inherit_silent hstatus

/-- A type without a parent item is reported if it declares a parent, at the place of that. -/
theorem diagnostics_derive_of_top {types : List Merged} (hw : (Outline.ofTypes types).WF)
    {id : TypeId} {m : Merged} {own : ItemData}
    (hi : (Outline.ofTypes types).item? id = some (m, own))
    (htop : (Outline.ofTypes types).parentItem? id = none) :
    (derive (.ofTypes types) [] m own).diagnostics =
      (own.parent.map fun link => [.unresolvedParent link.location m.code link.code]).getD [] := by
  obtain ⟨hget, hd⟩ := Outline.item?_eq_some.1 hi
  unfold derive parentLocation
  rw [hw.id_of_item hi, Outline.parent_of_top (show types[id]? = some m from hget) hd htop]
  cases own.parent with
  | none => rfl
  | some link => rfl

/-- The finding about an own attribute: one is inherited under its qualifier, and both types are
stated and differ. -/
def overriding? (inherited : Dict Attribute) (a : Attribute) : Option Diagnostic :=
  (inherited.get? a.qualifier).bind fun b =>
    if a.typeRef ≠ "" ∧ b.typeRef ≠ "" ∧ a.typeRef ≠ b.typeRef then
      some (.incompatibleOverride a.location a.qualifier a.typeRef b.typeRef b.location)
    else none

theorem incompatible_iff {previous declared : String} :
    Merge.incompatible previous declared = true ↔
      declared ≠ "" ∧ previous ≠ "" ∧ declared ≠ previous := by
  simp only [Merge.incompatible, Bool.and_eq_true, Bool.not_eq_true', String.isEmpty_eq_false_iff,
    bne_iff_ne]
  tauto

theorem overrides_eq_filterMap (inherited : Dict Attribute) {own : Dict Attribute}
    (hkey : ∀ q a, own.get? q = some a → a.qualifier = q) :
    overrides inherited own = own.values.filterMap (overriding? inherited) := by
  unfold overrides
  rw [← own.values_map_key hkey, List.flatMap_map, List.filterMap_eq_flatMap_toList]
  refine List.flatMap_congr fun a _ => ?_
  unfold Merge.overrideConflict overriding?
  cases inherited.get? a.qualifier with
  | none => rfl
  | some b =>
    simp only [incompatible_iff, Option.bind_some]
    split <;> rfl

end Resolve

/-! ## Stated parents -/

namespace Merge

/-- The parent of a code as the last declaration that states one has it, with the place of that
declaration. -/
def stated? (groups : List Group) (code : String) : Option Extends :=
  ((declarationsOf groups code).filterMap Declaration.link?).getLast?

theorem mergedFrom_of_types {groups : List Group} {i : TypeId} {m : Merged}
    (h : (types groups)[i]? = some m) : ∃ winner,
      MergedFrom m.code winner
        ((declarationsOf groups m.code).filter fun x => x.kind == winner.kind) m := by
  unfold types at h
  rw [List.getElem?_map, all_getElem?] at h
  obtain ⟨⟨m', findings⟩, hm, rfl⟩ := Option.map_eq_some_iff.1 h
  obtain ⟨code, -, hm⟩ := Option.bind_eq_some_iff.1 hm
  obtain ⟨winner, -, hfrom⟩ := mergedFrom_type? hm
  have hcode := hfrom.code
  subst hcode
  exact ⟨winner, hfrom⟩

/-- Only declarations of item types state a parent. -/
theorem filterMap_link?_filter (ds : List Declaration) :
    (ds.filter fun d => d.kind == .item).filterMap Declaration.link? =
      ds.filterMap Declaration.link? := by
  rw [List.filterMap_filter]
  refine List.filterMap_congr fun d _ => ?_
  unfold Declaration.kind Declaration.link?
  cases d.body <;> rfl

theorem parent_eq_stated? {groups : List Group} {i : TypeId} {m : Merged} {own : ItemData}
    (h : (types groups)[i]? = some m) (hd : m.data = .item own) :
    own.parent = stated? groups m.code := by
  obtain ⟨winner, hfrom⟩ := mergedFrom_of_types h
  have hkind : winner.kind = .item := by
    rw [← hfrom.kind, Merged.kind, hd]
    rfl
  rw [(hfrom.item own hd).parent, hkind, filterMap_link?_filter]
  rfl

end Merge

namespace Model

open Resolve

/-! ## Types on a cycle -/

/-- The type is above itself. -/
def OnCycle (m : Model) (n : Node) : Prop := ∃ k, m.above? (k + 1) n = some n

/-- Following parents of the type leads to a type on a cycle. -/
def IntoCycle (m : Model) (n : Node) : Prop := ∃ k c, m.above? k n = some c ∧ m.OnCycle c

/-- The way round the cycle of a type: everything above the type, each code once, and every type
before its parent, with the first one after the last. -/
structure Round (m : Model) (n : Node) (members : List Node) : Prop where
  mem_iff : ∀ x, x ∈ members ↔ ∃ k, m.above? k n = some x
  nodup : (members.map fun x => x.code).Nodup
  linked : (members ++ members.take 1).IsChain fun a b => m.parent? a = some b

section Types

variable {m : Model} {types : List Merged} (hm : m.nodes.map Node.toMerged = types)

include hm

theorem above?_succ_eq_some_iff {id : TypeId} {n : Node} (hn : m.node? id = some n) {k : Nat}
    {x : Node} : m.above? (k + 1) n = some x ↔
      ∃ p q, (Outline.ofTypes types).Up id p ∧ m.node? p = some q ∧ m.above? k q = some x := by
  show (m.parent? n).bind (m.above? k) = some x ↔ _
  rw [parent?_eq hm hn]
  simp only [Option.bind_eq_some_iff]
  constructor
  · rintro ⟨q, ⟨p, hup, hq⟩, hk⟩
    exact ⟨p, q, hup, hq, hk⟩
  · rintro ⟨p, q, hup, hq, hk⟩
    exact ⟨q, ⟨p, hup, hq⟩, hk⟩

variable (hw : (Outline.ofTypes types).WF)

include hw

theorem exists_node?_of_up {a b : TypeId} (hup : (Outline.ofTypes types).Up a b) :
    ∃ n, m.node? a = some n := by
  obtain ⟨t, ht, -⟩ := Outline.item?_isSome_iff.1 (hw.child hup)
  obtain ⟨n, hn, -⟩ := exists_node? hm ht
  exact ⟨n, hn⟩

/-- Following parents of a type leads to what its position leads to. -/
theorem exists_above?_iff {id : TypeId} {n : Node} (hn : m.node? id = some n) {x : Node} :
    (∃ k, m.above? k n = some x) ↔
      ∃ y, (Outline.ofTypes types).Leads id y ∧ m.node? y = some x := by
  constructor
  · rintro ⟨k, hk⟩
    induction k generalizing id n with
    | zero =>
      cases hk
      exact ⟨id, .refl, hn⟩
    | succ k ih =>
      obtain ⟨p, q, hup, hq, hk⟩ := (above?_succ_eq_some_iff hm hn).1 hk
      obtain ⟨y, hy, hx⟩ := ih hq hk
      exact ⟨y, .head hup hy, hx⟩
  · rintro ⟨y, hy, hx⟩
    induction hy using Relation.ReflTransGen.head_induction_on generalizing n with
    | refl => exact ⟨0, hn.symm.trans hx⟩
    | head hup _ ih =>
      obtain ⟨q, hq, -⟩ := exists_parent? hm hw hn hup
      obtain ⟨k, hk⟩ := ih hq
      exact ⟨k + 1, (above?_succ_eq_some_iff hm hn).2 ⟨_, q, hup, hq, hk⟩⟩

theorem onCycle_iff {id : TypeId} {n : Node} (hn : m.node? id = some n) :
    m.OnCycle n ↔ (Outline.ofTypes types).OnCycle id := by
  constructor
  · rintro ⟨k, hk⟩
    obtain ⟨p, q, hup, hq, hk⟩ := (above?_succ_eq_some_iff hm hn).1 hk
    obtain ⟨y, hy, hback⟩ := (exists_above?_iff hm hw hq).1 ⟨k, hk⟩
    -- a type stands at one position only
    have hself : y = id := by
      rw [← hw.id (toMerged_of_node? hm hback), ← hw.id (toMerged_of_node? hm hn)]
    exact Outline.onCycle_of_up_of_leads hup (hself ▸ hy)
  · intro hon
    obtain ⟨p, hup⟩ := hon.up
    obtain ⟨q, hq, -⟩ := exists_parent? hm hw hn hup
    obtain ⟨k, hk⟩ := (exists_above?_iff hm hw hq).2 ⟨id, hon.leads_back hup, hn⟩
    exact ⟨k, (above?_succ_eq_some_iff hm hn).2 ⟨p, q, hup, hq, hk⟩⟩

theorem intoCycle_iff {id : TypeId} {n : Node} (hn : m.node? id = some n) :
    m.IntoCycle n ↔ (Outline.ofTypes types).Endless id := by
  constructor
  · rintro ⟨k, c, hk, hon⟩
    obtain ⟨y, hy, hc⟩ := (exists_above?_iff hm hw hn).1 ⟨k, hk⟩
    exact ⟨y, hy, (onCycle_iff hm hw hc).1 hon⟩
  · rintro ⟨y, hy, hon⟩
    obtain ⟨z, hup⟩ := hon.up
    obtain ⟨c, hc⟩ := exists_node?_of_up hm hw hup
    obtain ⟨k, hk⟩ := (exists_above?_iff hm hw hn).2 ⟨y, hy, hc⟩
    exact ⟨k, c, hk, (onCycle_iff hm hw hc).2 hon⟩

/-- The types at the positions of a chain are a chain. -/
theorem isChain_parent? {ids : List TypeId} {nodes : List Node}
    (hmap : ids.map m.node? = nodes.map some) (hchain : ids.IsChain (Outline.ofTypes types).Up) :
    nodes.IsChain fun a b => m.parent? a = some b := by
  have hstep : ∀ a b, (Outline.ofTypes types).Up a b → (m.node? a).bind m.parent? = m.node? b := by
    intro a b hup
    obtain ⟨n, hn⟩ := exists_node?_of_up hm hw hup
    obtain ⟨q, hq, hparent⟩ := exists_parent? hm hw hn hup
    rw [hn, hq]
    exact hparent
  have hnodes : (ids.map m.node?).IsChain fun x y => x.bind m.parent? = y :=
    (List.isChain_map m.node?).2 (hchain.imp hstep)
  rw [hmap, List.isChain_map] at hnodes
  exact hnodes

omit hw in
theorem map_code_of_nodes {ids : List TypeId} {nodes : List Node}
    (hmap : ids.map m.node? = nodes.map some) :
    (ids.filterMap fun id => (types[id]?).map Merged.code) = nodes.map fun x => x.code := by
  have hcode : (fun id => (types[id]?).map Merged.code) =
      (fun x => x.map fun x : Node => x.code) ∘ m.node? := by
    funext id
    rw [← hm, List.getElem?_map, Option.map_map]
    rfl
  rw [hcode, ← List.filterMap_map, hmap, List.filterMap_map]
  exact congrFun (List.filterMap_eq_map (f := fun x : Node => x.code)) nodes

/-- The cycle of a type as it is reported names the way round it. -/
theorem exists_round (hcodes : (types.map Merged.code).Nodup) {id : TypeId} {n : Node}
    (hn : m.node? id = some n) (hon : (Outline.ofTypes types).OnCycle id) :
    ∃ members, m.Round n members ∧ cycleCodes (.ofTypes types) (cycleOf (.ofTypes types) id) =
      (members ++ members.take 1).map fun x => x.code := by
  obtain ⟨hring, hmem⟩ := ring_cycleOf hw hon
  generalize cycleOf (.ofTypes types) id = ring at hring hmem
  have hitem : ∀ x ∈ ring, ((Outline.ofTypes types).item? x).isSome := by
    intro x hx
    obtain ⟨y, hup⟩ := (hon.of_leads ((hmem x).1 hx)).1.up
    exact hw.child hup
  have hmap := map_node?_items hm hitem
  have hround : (ring ++ ring.take 1).map m.node? =
      (m.items ring ++ (m.items ring).take 1).map some := by
    rw [List.map_append, List.map_append, List.map_take, List.map_take, hmap]
  have hin : ∀ x, x ∈ m.items ring ↔ ∃ y ∈ ring, m.node? y = some x := by
    intro x
    rw [← List.mem_map, hmap, List.mem_map_of_injective (Option.some_injective _)]
  refine ⟨m.items ring, ⟨fun x => ?_, ?_, isChain_parent? hm hw hround hring.linked⟩,
    map_code_of_nodes hm hround⟩
  · rw [hin, exists_above?_iff hm hw hn]
    simp only [hmem]
  · have hids := map_id_of_nodes hm hw hmap
    have hnodup : (m.items ring).Nodup := List.Nodup.of_map _ (hids ▸ hring.nodup)
    refine hnodup.map_on fun x hx y hy hxy => ?_
    obtain ⟨i, -, hi⟩ := (hin x).1 hx
    obtain ⟨j, -, hj⟩ := (hin y).1 hy
    have hfind := find?_of_node? hm hcodes hi
    rw [hxy, find?_of_node? hm hcodes hj] at hfind
    exact (Option.some.inj hfind).symm

theorem parentItem?_eq_none {id : TypeId} {n : Node} (hn : m.node? id = some n)
    (hnone : m.parent? n = none) : (Outline.ofTypes types).parentItem? id = none := by
  cases hp : (Outline.ofTypes types).parentItem? id with
  | none => rfl
  | some p =>
    obtain ⟨q, -, hq⟩ := exists_parent? hm hw hn hp
    rw [hnone] at hq
    cases hq

end Types

/-! ## Reports -/

/-- What is reported about an item type, by its place in the extends graph. -/
structure Reported (groups : List Group) (m : Model) (n : Node) (h : Hierarchy) : Prop where
  cycle : m.OnCycle n → ∃ members, m.Round n members ∧ h.diagnostics =
    [.cyclicExtends n.location n.code ((members ++ members.take 1).map fun x => x.code)]
  leadIn : ¬m.OnCycle n → m.IntoCycle n → h.diagnostics = []
  unresolved : ∀ link, Merge.stated? groups n.code = some link →
    (∀ p, m.find? link.code = some p → p.kind ≠ .item) →
    h.diagnostics = [.unresolvedParent link.location n.code link.code]
  root : Merge.stated? groups n.code = none → h.diagnostics = []
  child : ∀ link p, Merge.stated? groups n.code = some link → m.find? link.code = some p →
    p.kind = .item → ¬m.IntoCycle n → ∃ above, p.hierarchy = some above ∧
      h.diagnostics = n.ownAttributes.values.filterMap (overriding? above.attributes)

section Scratch

variable {groups : List Group} {config : Config} {generation revision : Nat} {id : TypeId}
  {n : Node} {h : Hierarchy}
  (hn : (build groups config none generation revision).node? id = some n)
  (hh : n.hierarchy = some h)

include hn hh

/-- The own members of an item type, with the parent that was stated last. -/
theorem exists_own : ∃ own,
    (Outline.ofTypes (Merge.types groups)).item? id = some (n.toMerged, own) ∧
      n.data = .item own ∧ own.parent = Merge.stated? groups n.code := by
  have hget := toMerged_of_node? (map_toMerged_build groups config generation revision none) hn
  obtain ⟨⟨t, own⟩, hi⟩ := Option.isSome_iff_exists.1 (computed_of_node? hn hh).item
  obtain ⟨ht, hd⟩ := Outline.item?_eq_some.1 hi
  have hsame : n.toMerged = t := Option.some.inj (hget.symm.trans ht)
  subst hsame
  exact ⟨own, hi, hd, Merge.parent_eq_stated? hget hd⟩

theorem parent?_eq_stated : (build groups config none generation revision).parent? n =
    (Merge.stated? groups n.code).bind fun link =>
      ((build groups config none generation revision).find? link.code).filter
        fun p => p.kind == .item := by
  obtain ⟨own, -, hd, hstated⟩ := exists_own hn hh
  unfold parent?
  rw [hd, ← hstated]
  rfl

theorem status_eq_cycle_iff :
    h.status = .cycle ↔ (build groups config none generation revision).IntoCycle n := by
  have hm := map_toMerged_build groups config generation revision none
  have hw := wf_types groups
  rw [intoCycle_iff hm hw hn]
  constructor
  · intro hstatus
    rcases (computed_of_node? hn hh).endless_or_line hw with ⟨hend, -⟩ | ⟨-, -, -, hne⟩
    · exact hend
    · exact absurd hstatus hne
  · intro hend
    exact (placed_of_node? hn hh).cycle_iff.2 (above?_isSome_of_endless hm hw hn hend)

/-- A type without a parent item is reported if it states a parent. -/
theorem diagnostics_of_parent?_none
    (hnone : (build groups config none generation revision).parent? n = none) :
    h.diagnostics = ((Merge.stated? groups n.code).map fun link =>
      [.unresolvedParent link.location n.code link.code]).getD [] := by
  have hw := wf_types groups
  obtain ⟨own, hi, -, hstated⟩ := exists_own hn hh
  have htop := parentItem?_eq_none (map_toMerged_build groups config generation revision none) hw
    hn hnone
  rw [(computed_of_node? hn hh).eq_derive hi htop, diagnostics_derive_of_top hw hi htop, hstated]

/-- A type over a parent that does not lead into a cycle is reported for its attributes. -/
theorem diagnostics_of_parent?_some {p : Node}
    (hparent : (build groups config none generation revision).parent? n = some p)
    (hstatus : h.status ≠ .cycle) : ∃ above, p.hierarchy = some above ∧
      h.diagnostics = n.ownAttributes.values.filterMap (overriding? above.attributes) := by
  have hm := map_toMerged_build groups config generation revision none
  have hw := wf_types groups
  have hc := computed_of_node? hn hh
  obtain ⟨own, hi, hd, -⟩ := exists_own hn hh
  rw [parent?_eq hm hn] at hparent
  obtain ⟨i, hup, hp⟩ := Option.bind_eq_some_iff.1 hparent
  have hoff : ¬(Outline.ofTypes (Merge.types groups)).OnCycle id := by
    intro hon
    rw [hc.eq_cyclic hi hon] at hstatus
    exact hstatus rfl
  obtain ⟨above, habove, rfl⟩ := hc.eq_inherit hi hoff hup
  have hhierarchy : p.hierarchy = some above := by
    rw [hierarchy_of_node? hp]
    obtain ⟨k, hk⟩ := Option.isSome_iff_exists.1 ((finalTable_sound hw none).2 habove.item)
    rw [hk, (finalTable_none hw hk).unique habove]
  refine ⟨above, hhierarchy, ?_⟩
  unfold inherit at hstatus ⊢
  split at hstatus
  · exact absurd rfl hstatus
  · rename_i hcycle
    have hown : n.ownAttributes = own.attributes := by
      simp [Node.ownAttributes, hd, TypeData.item?]
    rw [if_neg hcycle, hown]
    exact overrides_eq_filterMap above.attributes fun q a ha =>
      ((keyed_own hn).1 q a (hown ▸ ha)).1

theorem reported_of_node? :
    Reported groups (build groups config none generation revision) n h := by
  have hm := map_toMerged_build groups config generation revision none
  have hw := wf_types groups
  have hstatus := status_eq_cycle_iff hn hh
  have hparent := parent?_eq_stated hn hh
  constructor
  · intro hon
    have hon := (onCycle_iff hm hw hn).1 hon
    obtain ⟨own, hi, -⟩ := exists_own hn hh
    obtain ⟨members, hround, hcodes⟩ :=
      exists_round hm hw (Merge.nodup_types_code groups) hn hon
    refine ⟨members, hround, ?_⟩
    rw [(computed_of_node? hn hh).eq_cyclic hi hon, ← hcodes]
    rfl
  · intro hoff hinto
    refine (computed_of_node? hn hh).diagnostics_of_leadIn hw ?_ (hstatus.2 hinto)
    exact fun hon => hoff ((onCycle_iff hm hw hn).2 hon)
  · intro link hlink hno
    have hnone : (build groups config none generation revision).parent? n = none := by
      rw [hparent, hlink, Option.bind_some, Option.filter_eq_none_iff]
      intro p hp
      simpa using hno p hp
    rw [diagnostics_of_parent?_none hn hh hnone, hlink]
    rfl
  · intro hlink
    have hnone : (build groups config none generation revision).parent? n = none := by
      rw [hparent, hlink]
      rfl
    rw [diagnostics_of_parent?_none hn hh hnone, hlink]
    rfl
  · intro link p hlink hfind hkind hnot
    refine diagnostics_of_parent?_some hn hh ?_ fun hcycle => hnot (hstatus.1 hcycle)
    rw [hparent, hlink, Option.bind_some, hfind]
    simp [hkind]

end Scratch

theorem build_of_full {groups : List Group} {config : Config} {previous : Option Model}
    {generation revision : Nat}
    (h : (build groups config previous generation revision).scope = .full) :
    build groups config previous generation revision =
      build groups config none generation revision := by
  have hresolution : (resolveGroups groups config previous).1 =
      (resolveGroups groups config none).1 :=
    calc Resolution.ofTypes (Merge.types groups) (earlier config previous)
      _ = Resolution.ofTypes (Merge.types groups) none := Resolution.eq_none_of_full h
      _ = Resolution.ofTypes (Merge.types groups) (earlier config none) := by rw [earlier_none]
  unfold build
  rw [show resolveGroups groups config previous = resolveGroups groups config none from
    Prod.ext hresolution rfl]

/-- Structural findings are sound and complete: in a model that is built without one before it, or
that keeps no hierarchy of it, every item type has the reports of its place, and the findings of the
model are those of the groups, those of the merge, and these in id order. -/
theorem reported_of_scratch {groups : List Group} {config : Config} {previous : Option Model}
    {generation revision : Nat} {m : Model}
    (hm : m = build groups config previous generation revision)
    (hscratch : previous = none ∨ m.scope = .full) :
    (∀ n ∈ m.nodes, n.kind = .item → ∃ h, n.hierarchy = some h ∧ Reported groups m n h) ∧
      m.diagnostics = groups.flatMap Group.diagnostics ++
        (Merge.all (Merge.declarations groups)).flatMap Prod.snd ++
        m.nodes.flatMap (fun n => (n.hierarchy.map Hierarchy.diagnostics).getD []) ∧
      ∀ i n, m.node? i = some n → n.id = i := by
  have hbuild : m = build groups config none generation revision := by
    rcases hscratch with rfl | hfull
    · exact hm
    · rw [hm]
      exact build_of_full (hm ▸ hfull)
  subst hbuild
  refine ⟨?_, rfl, ?_⟩
  · intro n hn hkind
    obtain ⟨id, hid⟩ := List.mem_iff_getElem?.1 hn
    obtain ⟨h, hh⟩ := Option.isSome_iff_exists.1 ((hierarchy_isSome_iff hid).2 hkind)
    exact ⟨h, hh, reported_of_node? hid hh⟩
  · intro i n hn
    exact (wf_types groups).id
      (toMerged_of_node? (map_toMerged_build groups config generation revision none) hn)

/-- A cycle of `B`, `A` and `C` with a type before it that leads into it; a parent `X` of `R` that is
not declared, stated in another file than the last declaration of `R`; and an attribute of `Q` that
is inherited with another type. -/
def faultyGroups : List Group :=
  [sampleGroup ⟨⟨0⟩, 5, 12, by decide⟩ [("T", some "B", []), ("A", some "C", []),
      ("B", some "A", []), ("C", some "B", []), ("R", some "X", [])],
    ⟨⟨1⟩, ⟨0⟩, [⟨"P",
      .item none [⟨"x", "Int", false, .property, {}, none, none, .empty, default⟩] [], .empty,
      ⟨⟨0⟩, default⟩⟩], [.malformed default "no code"]⟩,
    sampleGroup ⟨⟨2⟩, 20, 31, by decide⟩ [("Q", some "P", ["x"]), ("R", none, [])]]

/-- The model before has other codes, so nothing of it is kept. -/
theorem reported_of_scratch_faulty :
    ∃ m, m = build faultyGroups {} (some (.empty {})) 1 0 ∧ m.scope = .full ∧
      (∀ n ∈ m.nodes, n.kind = .item → ∃ h, n.hierarchy = some h ∧ Reported faultyGroups m n h) ∧
      m.diagnostics = [.malformed default "no code",
        .cyclicExtends ⟨⟨0⟩, 5, 12, by decide⟩ "A" ["B", "A", "C", "B"],
        .cyclicExtends ⟨⟨0⟩, 5, 12, by decide⟩ "B" ["B", "A", "C", "B"],
        .cyclicExtends ⟨⟨0⟩, 5, 12, by decide⟩ "C" ["B", "A", "C", "B"],
        .unresolvedParent ⟨⟨0⟩, 5, 12, by decide⟩ "R" "X",
        .incompatibleOverride ⟨⟨2⟩, 20, 31, by decide⟩ "x" "String" "Int" default] ∧
      m.diagnostics.map (·.code) = [some "E0001", some "E0004", some "E0004", some "E0004",
        some "E0003", some "W0001"] :=
  ⟨_, rfl, rfl, (reported_of_scratch rfl (.inr rfl)).1, rfl, rfl⟩

end Model

end TypeAtlas
