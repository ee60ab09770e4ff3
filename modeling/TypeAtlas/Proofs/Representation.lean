/-
The tables of a model fit together. Main statement: in every model at the end of a history of builds
the position of a type is its id, codes name positions one to one and are the declared ones in order,
exactly the item types have a hierarchy, every id that a hierarchy, a child list or a list of
descendants mentions is that of an item type, and the child lists are the declared parents, read
backwards.

Hierarchies that were kept from earlier models hold ids of those models. They are right because they
have the ancestors that a computation from scratch gives for the present types (`Current`).
-/
import TypeAtlas.Proofs.Counterparts
import TypeAtlas.Proofs.Members

namespace TypeAtlas

/-- The code of the parent that an item type declares. -/
def Node.parentCode? (n : Node) : Option String :=
  (n.data.item?.bind ItemData.parent).map Extends.code

/-- Children are listed in ascending order. -/
theorem Outline.pairwise_children (o : Outline) (p : TypeId) :
    (o.children.of p).Pairwise (· < ·) := by
  unfold ChildTable.of children
  rw [List.getElem?_map]
  cases (List.range o.types.length)[p]? with
  | none => exact List.Pairwise.nil
  | some p =>
    have hrows : (o.parents.zipIdx.map Prod.snd).Pairwise (· < ·) := by
      rw [List.zipIdx_map_snd]
      exact List.pairwise_lt_range' 1
    exact hrows.sublist (List.filter_sublist.map Prod.snd)

namespace Model

open Resolve

/-- An item type stands at the position. -/
def ItemAt (m : Model) (id : TypeId) : Prop := ∃ n, m.node? id = some n ∧ n.kind = .item

section Types

variable {m : Model} {types : List Merged} (hm : m.nodes.map Node.toMerged = types)

include hm

theorem itemAt_iff {id : TypeId} : m.ItemAt id ↔ ((Outline.ofTypes types).item? id).isSome := by
  rw [Outline.item?_isSome_iff]
  constructor
  · rintro ⟨n, hn, hkind⟩
    exact ⟨n.toMerged, toMerged_of_node? hm hn, by simp [Merged.isItem, hkind]⟩
  · rintro ⟨t, ht, hitem⟩
    obtain ⟨n, hn, rfl⟩ := exists_node? hm ht
    exact ⟨n, hn, by simpa [Merged.isItem] using hitem⟩

theorem map_code_eq : (m.nodes.map fun n => n.code) = types.map Merged.code := by
  rw [← hm, List.map_map]
  rfl

theorem idOf?_eq_some_iff_node? (hcodes : (types.map Merged.code).Nodup) {code : String}
    {i : TypeId} : m.idOf? code = some i ↔ ∃ n, m.node? i = some n ∧ n.code = code := by
  rw [idOf?_eq hm, TypeAtlas.idOf?_eq_some_iff hcodes]
  constructor
  · rintro ⟨t, ht, rfl⟩
    obtain ⟨n, hn, rfl⟩ := exists_node? hm ht
    exact ⟨n, hn, rfl⟩
  · rintro ⟨n, hn, rfl⟩
    exact ⟨n.toMerged, toMerged_of_node? hm hn, rfl⟩

theorem up_iff_parentCode? (hw : (Outline.ofTypes types).WF) (hcodes : (types.map Merged.code).Nodup)
    {p c : TypeId} : (Outline.ofTypes types).Up c p ↔ ∃ parent child, m.node? p = some parent ∧
      parent.kind = .item ∧ m.node? c = some child ∧ child.parentCode? = some parent.code := by
  constructor
  · intro hup
    obtain ⟨⟨t, own⟩, hc⟩ := Option.isSome_iff_exists.1 (hw.child hup)
    obtain ⟨ht, hd⟩ := Outline.item?_eq_some.1 hc
    obtain ⟨link, q, hlink, hq, hcode, hitem⟩ := (Outline.up_iff_code hcodes ht hd).1 hup
    obtain ⟨parent, hparent, rfl⟩ := exists_node? hm hq
    obtain ⟨child, hchild, rfl⟩ := exists_node? hm ht
    refine ⟨parent, child, hparent, by simpa [Merged.isItem] using hitem, hchild, ?_⟩
    simp [Node.parentCode?, hd, TypeData.item?, hlink, hcode]
  · rintro ⟨parent, child, hparent, hkind, hchild, hcode⟩
    unfold Node.parentCode? at hcode
    cases hd : child.data with
    | item own =>
      simp only [hd, TypeData.item?, Option.bind_some, Option.map_eq_some_iff] at hcode
      obtain ⟨link, hlink, hcode⟩ := hcode
      refine (Outline.up_iff_code hcodes (toMerged_of_node? hm hchild) hd).2
        ⟨link, parent.toMerged, hlink, toMerged_of_node? hm hparent, hcode.symm, ?_⟩
      simp [Merged.isItem, hkind]
    | _ => simp [hd, TypeData.item?] at hcode

end Types

/-! ## Models of a history -/

namespace Built

variable {groups : List Group} {m : Model} (h : Built groups m)

include h

theorem mem_childrenOf {p c : TypeId} :
    c ∈ m.childrenOf p ↔ (Outline.ofTypes (Merge.types groups)).Up c p := by
  unfold childrenOf
  rw [h.children]
  exact Outline.mem_children (wf_types groups)

theorem hierarchy_isSome_iff {id : TypeId} {n : Node} (hn : m.node? id = some n) :
    n.hierarchy.isSome ↔ n.kind = .item := by
  have hitem : n.kind = .item ↔ m.ItemAt id := by
    constructor
    · intro hkind
      exact ⟨n, hn, hkind⟩
    · rintro ⟨n', hn', hkind⟩
      cases hn.symm.trans hn'
      exact hkind
  have hfilled : ((finalTable (Merge.types groups) none).at? id).isSome ↔ _ :=
    finalTable_isSome_iff (wf_types groups) (fun _ h => by cases h) id
  have halike := h.current.alike id
  rw [show m.nodes[id]? = some n from hn, Option.bind_some] at halike
  rw [hitem, itemAt_iff h.current.merged, ← hfilled]
  generalize n.hierarchy = a at halike ⊢
  generalize (finalTable (Merge.types groups) none).at? id = b at halike ⊢
  cases halike <;> simp

/-- Whatever model a hierarchy comes from, it is alike the one computed for the present types. -/
theorem computed {id : TypeId} {n : Node} (hn : m.node? id = some n) {k : Hierarchy}
    (hk : n.hierarchy = some k) :
    ∃ k', k.Alike k' ∧ Computed (.ofTypes (Merge.types groups)) [] id k' := by
  refine h.current.computed (wf_types groups) ?_
  rw [show m.nodes[id]? = some n from hn]
  exact hk

theorem itemAt_ancestors {id : TypeId} {n : Node} (hn : m.node? id = some n) {k : Hierarchy}
    (hk : n.hierarchy = some k) : ∀ a ∈ k.ancestors, m.ItemAt a := by
  obtain ⟨k', halike, hc⟩ := h.computed hn hk
  intro a ha
  rw [halike.ancestors] at ha
  exact (itemAt_iff h.current.merged).2 (hc.item_of_ancestor (wf_types groups) a ha)

theorem itemAt_of_mem_childrenOf {p c : TypeId} (hc : c ∈ m.childrenOf p) :
    m.ItemAt p ∧ m.ItemAt c := by
  have hup := h.mem_childrenOf.1 hc
  exact ⟨(itemAt_iff h.current.merged).2 ((wf_types groups).parent hup),
    (itemAt_iff h.current.merged).2 ((wf_types groups).child hup)⟩

theorem itemAt_of_mem_descendantsOf {p c : TypeId} (hc : c ∈ m.descendantsOf p) : m.ItemAt c := by
  obtain ⟨hne, hbelow⟩ := ChildTable.mem_descendants.1 hc
  rcases Relation.ReflTransGen.cases_tail hbelow with heq | ⟨q, -, hchild⟩
  · exact absurd heq hne
  · exact (h.itemAt_of_mem_childrenOf hchild).2

end Built

/-- The tables of a model fit together and are those of the declarations in groups. -/
structure Represents (groups : List Group) (m : Model) : Prop where
  ids : ∀ i n, m.node? i = some n → n.id = i
  distinct : (m.nodes.map fun n => n.code).Nodup
  positions : ∀ code i, m.idOf? code = some i ↔ ∃ n, m.node? i = some n ∧ n.code = code
  declared : (m.nodes.map fun n => n.code) =
    ((Merge.declarations groups).map Declaration.code).eraseDups
  resolved : ∀ n ∈ m.nodes, n.hierarchy.isSome ↔ n.kind = .item
  ancestors : ∀ n ∈ m.nodes, ∀ h, n.hierarchy = some h → ∀ a ∈ h.ancestors, m.ItemAt a
  children : ∀ p, ∀ c ∈ m.childrenOf p, m.ItemAt c
  descendants : ∀ p, ∀ c ∈ m.descendantsOf p, m.ItemAt c
  ascending : ∀ p, (m.childrenOf p).Pairwise (· < ·)
  parents : ∀ p c, c ∈ m.childrenOf p ↔ ∃ parent child, m.node? p = some parent ∧
    parent.kind = .item ∧ m.node? c = some child ∧ child.parentCode? = some parent.code
  sole : ∀ p q c, c ∈ m.childrenOf p → c ∈ m.childrenOf q → p = q

/-- Every model at the end of a history of builds has tables that fit together. -/
theorem represents_of_built {groups : List Group} {m : Model} (h : Built groups m) :
    Represents groups m := by
  have hm := h.current.merged
  have hw := wf_types groups
  have hcodes := Merge.nodup_types_code groups
  constructor
  · intro i n hn
    exact hw.id (toMerged_of_node? hm hn)
  · rw [map_code_eq hm]
    exact hcodes
  · intro code i
    exact idOf?_eq_some_iff_node? hm hcodes
  · rw [map_code_eq hm, Merge.map_code_types]
    rfl
  · intro n hn
    obtain ⟨id, hid⟩ := List.mem_iff_getElem?.1 hn
    exact h.hierarchy_isSome_iff hid
  · intro n hn k hk
    obtain ⟨id, hid⟩ := List.mem_iff_getElem?.1 hn
    exact h.itemAt_ancestors hid hk
  · intro p c hc
    exact (h.itemAt_of_mem_childrenOf hc).2
  · intro p c hc
    exact h.itemAt_of_mem_descendantsOf hc
  · intro p
    unfold childrenOf
    rw [h.children]
    exact Outline.pairwise_children _ p
  · intro p c
    rw [h.mem_childrenOf]
    exact up_iff_parentCode? hm hw hcodes
  · intro p q c hp hq
    exact (h.mem_childrenOf.1 hp).unique (h.mem_childrenOf.1 hq)

/-- The second build keeps the hierarchy of `B`, whose ancestors are ids of the first model, while
`C` becomes another child of `A`. -/
theorem represents_of_built_kept :
    ∃ m₁ m₂,
      buildUnless .never [sampleGroup default [("A", none, ["x"]), ("B", some "A", ["y"]),
        ("C", none, [])]] {} none 1 0 = .ok m₁ ∧
      buildUnless .never [sampleGroup default [("A", none, ["x"]), ("B", some "A", ["y"]),
        ("C", some "A", [])]] {} (some m₁) 2 0 = .ok m₂ ∧
      m₂.scope = .subtrees [2] ∧ m₂.childrenOf 0 = [1, 2] ∧
      Represents [sampleGroup default [("A", none, ["x"]), ("B", some "A", ["y"]),
        ("C", some "A", [])]] m₂ := by
  refine ⟨_, _, rfl, rfl, by decide, by decide, ?_⟩
  exact represents_of_built (.next .never (.first .never rfl) rfl)

end Model

end TypeAtlas
