/-
What a build tells about itself. Main statement: over a model at the end of any history, a build
reports subtrees exactly if it may reuse and the codes and kinds are the same; the roots it lists are
exactly the item types that differ, and outside the subtrees every hierarchy is the one it was.

Whether the own ends of a type differ is decided against the ends that an earlier hierarchy remembers.
That is the right question because hierarchies, kept or computed, remember the ends that the relations
of their model give.
-/
import TypeAtlas.Proofs.Independence
import TypeAtlas.Proofs.Representation

namespace TypeAtlas

open Resolve

/-! ## Changed item types -/

section Changed

variable {types : List Merged} {nodes : List Node}

theorem Resolve.pairwise_changedItems (hw : (Outline.ofTypes types).WF) :
    (changedItems (.ofTypes types) nodes).Pairwise (· < ·) :=
  hw.pairwise_map_id.sublist (List.filter_sublist.map Merged.id)

theorem Resolve.mem_changedItems (hw : (Outline.ofTypes types).WF) {id : TypeId} :
    id ∈ changedItems (.ofTypes types) nodes ↔
      ∃ t, types[id]? = some t ∧ t.isItem = true ∧ changed (.ofTypes types) nodes t = true := by
  unfold changedItems
  rw [List.mem_map]
  constructor
  · rintro ⟨t, ht, rfl⟩
    obtain ⟨ht, hdiffers⟩ := List.mem_filter.1 ht
    obtain ⟨i, hi⟩ := List.mem_iff_getElem?.1 ht
    rw [hw.id hi]
    exact ⟨t, hi, Bool.and_eq_true_iff.1 hdiffers⟩
  · rintro ⟨t, ht, hdiffers⟩
    exact ⟨t, List.mem_filter.2 ⟨List.mem_of_getElem? ht, Bool.and_eq_true_iff.2 hdiffers⟩, hw.id ht⟩

/-- A type that is outside the subtrees of the changed ones is not affected. -/
theorem Resolve.not_affected {id : TypeId} (hid : id ∉ changedItems (.ofTypes types) nodes)
    (hbelow : ∀ r ∈ changedItems (.ofTypes types) nodes,
      id ∉ (Outline.ofTypes types).children.descendants r) : id ∉ affected types nodes := by
  intro h
  obtain ⟨r, hr, hreach⟩ := ChildTable.mem_subtrees.1 h
  by_cases hne : id = r
  · rw [hne] at hid
    exact hid hr
  · exact hbelow r hr (ChildTable.mem_descendants.2 ⟨hne, hreach⟩)

end Changed

/-- The scope of a resolution goes with what it starts from. -/
theorem Resolution.scope_cases (types : List Merged) (old : Option (List Node)) :
    ((ofTypes types old).scope = .full ∧
        ∀ nodes, old = some nodes → sameCodeTable nodes types = false) ∨
      ∃ nodes, old = some nodes ∧ sameCodeTable nodes types = true ∧
        (ofTypes types old).scope = .subtrees (changedItems (.ofTypes types) nodes) ∧
        startTable types old = kept (.ofTypes types) nodes (affected types nodes) := by
  unfold ofTypes startTable
  cases h : old.filter fun nodes => sameCodeTable nodes types with
  | none =>
    refine .inl ⟨rfl, ?_⟩
    rintro nodes rfl
    simpa [Option.filter_some] using h
  | some nodes =>
    rw [Option.filter_eq_some_iff] at h
    exact .inr ⟨nodes, h.1, h.2, rfl, rfl⟩

namespace Model

/-- The relation ends that a code reaches by the relations of a model, in id order. -/
def ownEnds (m : Model) (code : String) : List RelationEnd :=
  m.nodes.flatMap fun r => r.endsFrom code

/-- Same codes in the same order with the same kinds. -/
def SameTable (p m : Model) : Prop :=
  p.nodes.map (fun n => (n.code, n.kind)) = m.nodes.map fun n => (n.code, n.kind)

/-- The type at a position of the model before. -/
theorem SameTable.exists_before {p m : Model} (hsame : SameTable p m) {id : TypeId} {n : Node}
    (hn : m.node? id = some n) :
    ∃ old, p.node? id = some old ∧ old.code = n.code ∧ old.kind = n.kind := by
  have hrow := congrArg (·[id]?) hsame
  simp only [List.getElem?_map, show m.nodes[id]? = some n from hn, Option.map_some,
    Option.map_eq_some_iff, Prod.mk.injEq] at hrow
  exact hrow

/-- The item type at a position has other data, other own properties or other own relation ends than
in the model before. -/
def Differs (p m : Model) (id : TypeId) : Prop :=
  ∃ old new, p.node? id = some old ∧ m.node? id = some new ∧ new.kind = .item ∧
    ((old.data == new.data) = false ∨ (old.properties == new.properties) = false ∨
      p.ownEnds old.code ≠ m.ownEnds new.code)

theorem endsOf_eq_ownEnds {m : Model} {types : List Merged} (hm : m.nodes.map Node.toMerged = types)
    {id : TypeId} {n : Node} (hn : m.node? id = some n) (hkind : n.kind = .item) :
    (Outline.ofTypes types).endsOf id = m.ownEnds n.code := by
  cases hd : n.data with
  | item own =>
    rw [Outline.endsOf_ofTypes (toMerged_of_node? hm hn) hd, ← hm, List.flatMap_map]
    rfl
  | _ => simp [Merged.kind, hd, TypeData.kind] at hkind

/-- The own ends of every hierarchy are those that the relations of the model give. -/
def EndsKnown (m : Model) : Prop :=
  ∀ n ∈ m.nodes, ∀ h, n.hierarchy = some h → h.ownEnds = m.ownEnds n.code

theorem Built.endsKnown {groups : List Group} {m : Model} (h : Built groups m) : m.EndsKnown := by
  intro n hn k hk
  obtain ⟨id, hid⟩ := List.mem_iff_getElem?.1 hn
  obtain ⟨k', halike, hc⟩ := h.computed hid hk
  have hkind : n.kind = .item := (h.hierarchy_isSome_iff hid).1 (by simp [hk])
  rw [halike.ownEnds, hc.ownEnds (wf_types groups), endsOf_eq_ownEnds h.current.merged hid hkind]

section Over

variable {before groups : List Group} {p m : Model} {config : Config} {generation revision : Nat}
  (hm : m = build groups config (some p) generation revision)

include hm

theorem map_toMerged_over : m.nodes.map Node.toMerged = Merge.types groups := by
  rw [hm]
  exact map_toMerged_build groups config generation revision (some p)

theorem sameCodeTable_iff_sameTable :
    sameCodeTable p.nodes (Merge.types groups) = true ↔ SameTable p m := by
  unfold sameCodeTable SameTable
  rw [beq_iff_eq, ← map_toMerged_over hm, List.map_map]
  rfl

/-- Either the scope is full and something stands against reuse, or it lists the changed item types
and the build starts from the hierarchies of the others. -/
theorem scope_cases :
    (m.scope = .full ∧ ¬(config.incremental = true ∧ SameTable p m)) ∨
      (config.incremental = true ∧ SameTable p m ∧
        m.scope = .subtrees (changedItems (.ofTypes (Merge.types groups)) p.nodes) ∧
        startTable (Merge.types groups) (earlier config (some p)) =
          kept (.ofTypes (Merge.types groups)) p.nodes (affected (Merge.types groups) p.nodes)) := by
  have hscope : m.scope =
      (Resolution.ofTypes (Merge.types groups) (earlier config (some p))).scope := by
    rw [hm]
    rfl
  rw [← sameCodeTable_iff_sameTable hm, hscope]
  rcases Resolution.scope_cases (Merge.types groups) (earlier config (some p)) with
    ⟨hfull, hno⟩ | ⟨nodes, hold, hsame, hsubtrees, hstart⟩
  · refine .inl ⟨hfull, ?_⟩
    rintro ⟨hincremental, hsame⟩
    rw [hno p.nodes (by simp [earlier, hincremental])] at hsame
    cases hsame
  · have hincremental : config.incremental = true := by
      by_contra hoff
      simp [earlier, hoff] at hold
    cases nodes_of_earlier hold
    exact .inr ⟨hincremental, hsame, hsubtrees, hstart⟩

/-- An item type counts as changed if it differs from the one at its place in the model before. -/
theorem changed_iff (hp : Built before p) {id : TypeId} {old new : Node}
    (hold : p.node? id = some old) (hnew : m.node? id = some new) (hkind : new.kind = .item)
    (hsame : old.kind = new.kind) :
    changed (.ofTypes (Merge.types groups)) p.nodes new.toMerged = true ↔
      (old.data == new.data) = false ∨ (old.properties == new.properties) = false ∨
        p.ownEnds old.code ≠ m.ownEnds new.code := by
  have htypes := map_toMerged_over hm
  have hid : new.id = id := (wf_types groups).id (toMerged_of_node? htypes hnew)
  obtain ⟨k, hk⟩ := Option.isSome_iff_exists.1
    ((hp.hierarchy_isSome_iff hold).2 (hsame.trans hkind))
  unfold changed Merged.sameContent
  rw [hid, show p.nodes[id]? = some old from hold]
  have hends := hp.endsKnown old (List.mem_of_getElem? hold) k hk
  simp [hk, hends, endsOf_eq_ownEnds htypes hnew hkind, or_assoc]

theorem mem_changedItems_iff_differs (hp : Built before p) (hsame : SameTable p m) {id : TypeId} :
    id ∈ changedItems (.ofTypes (Merge.types groups)) p.nodes ↔ Differs p m id := by
  have htypes := map_toMerged_over hm
  rw [mem_changedItems (wf_types groups)]
  constructor
  · rintro ⟨t, ht, hitem, hchanged⟩
    obtain ⟨new, hnew, rfl⟩ := exists_node? htypes ht
    obtain ⟨old, hold, -, hkinds⟩ := hsame.exists_before hnew
    have hkind : new.kind = .item := by simpa [Merged.isItem] using hitem
    exact ⟨old, new, hold, hnew, hkind, (changed_iff hm hp hold hnew hkind hkinds).1 hchanged⟩
  · rintro ⟨old, new, hold, hnew, hkind, hdiffers⟩
    obtain ⟨old', hold', -, hkinds⟩ := hsame.exists_before hnew
    cases hold.symm.trans hold'
    refine ⟨new.toMerged, toMerged_of_node? htypes hnew, by simp [Merged.isItem, hkind], ?_⟩
    exact (changed_iff hm hp hold hnew hkind hkinds).2 hdiffers

/-- An item type outside the affected ones has the hierarchy that it had. -/
theorem hierarchy_of_not_affected (hp : Built before p) (hsame : SameTable p m)
    (hstart : startTable (Merge.types groups) (earlier config (some p)) =
      kept (.ofTypes (Merge.types groups)) p.nodes (affected (Merge.types groups) p.nodes))
    {id : TypeId} {new : Node} (hnew : m.node? id = some new) (hkind : new.kind = .item)
    (hid : id ∉ affected (Merge.types groups) p.nodes) :
    ∃ old h, p.node? id = some old ∧ old.hierarchy = some h ∧ new.hierarchy = some h := by
  obtain ⟨old, hold, -, hkinds⟩ := hsame.exists_before hnew
  obtain ⟨k, hk⟩ := Option.isSome_iff_exists.1
    ((hp.hierarchy_isSome_iff hold).2 (hkinds.trans hkind))
  have hlt : id < (Merge.types groups).length :=
    (List.getElem?_eq_some_iff.1 (toMerged_of_node? (map_toMerged_over hm) hnew)).1
  have hkept : (startTable (Merge.types groups) (earlier config (some p))).at? id = some k := by
    rw [hstart, at?_kept (wf_types groups)]
    exact ⟨hlt, hid, by rw [show p.nodes[id]? = some old from hold]; exact hk⟩
  have hfinal := (finalTable_sound (wf_types groups) (earlier config (some p))).1.kept hkept
  rw [← hierarchy_build groups config (some p) generation revision, ← hm, hnew] at hfinal
  exact ⟨old, k, hold, hk, hfinal⟩

end Over

/-- The scope of a model over the one before says exactly what may differ. -/
structure Delimits (config : Config) (p m : Model) : Prop where
  subtrees : (∃ changed, m.scope = .subtrees changed) ↔ config.incremental = true ∧ SameTable p m
  full : m.scope = .full ↔ ¬(config.incremental = true ∧ SameTable p m)
  ascending : ∀ changed, m.scope = .subtrees changed → changed.Pairwise (· < ·)
  listed : ∀ changed, m.scope = .subtrees changed → ∀ id, id ∈ changed ↔ Differs p m id
  frame : ∀ changed, m.scope = .subtrees changed → ∀ id new, m.node? id = some new →
    new.kind = .item → id ∉ changed → (∀ r ∈ changed, id ∉ m.descendantsOf r) →
      ∃ old h, p.node? id = some old ∧ old.hierarchy = some h ∧ new.hierarchy = some h
  endsBefore : p.EndsKnown
  endsAfter : m.EndsKnown

/-- The scope of every build over a model at the end of a history says exactly what may differ. -/
theorem delimits_of_built (token : Token) {before groups : List Group} {p m : Model}
    {config : Config} {generation revision : Nat} (hp : Built before p)
    (hb : buildUnless token groups config (some p) generation revision = .ok m) :
    Delimits config p m := by
  have hm := eq_build_of_buildUnless hb
  have hbuilt : Built groups m := .next token hp hb
  rcases scope_cases hm with ⟨hfull, hno⟩ | ⟨hincremental, hsame, hsubtrees, hstart⟩
  · constructor
    case endsBefore => exact hp.endsKnown
    case endsAfter => exact hbuilt.endsKnown
    all_goals simp [hfull, hno]
  · have hyes := And.intro hincremental hsame
    constructor
    · simp [hsubtrees, hyes]
    · simp [hsubtrees, hyes]
    · intro changed hscope
      cases hsubtrees.symm.trans hscope
      exact pairwise_changedItems (wf_types groups)
    · intro changed hscope id
      cases hsubtrees.symm.trans hscope
      exact mem_changedItems_iff_differs hm hp hsame
    · intro changed hscope id new hnew hkind hid hbelow
      cases hsubtrees.symm.trans hscope
      unfold descendantsOf at hbelow
      rw [hbuilt.children] at hbelow
      exact hierarchy_of_not_affected hm hp hsame hstart hnew hkind (not_affected hid hbelow)
    · exact hp.endsKnown
    · exact hbuilt.endsKnown

/-- Only the relation of `C` is another one, so `C` differs although its content does not, `D` is
below it, and `A` and `B` have the hierarchies that they had. -/
theorem delimits_of_built_relation :
    ∃ m₁ m₂,
      buildUnless .never [sampleGroup default [("A", none, ["x"]), ("B", some "A", []),
        ("C", none, []), ("D", some "C", [])], ⟨⟨1⟩, ⟨0⟩, [sampleRelation "R" "C" "X"], []⟩]
        {} none 1 0 = .ok m₁ ∧
      buildUnless .never [sampleGroup default [("A", none, ["x"]), ("B", some "A", []),
        ("C", none, []), ("D", some "C", [])], ⟨⟨1⟩, ⟨0⟩, [sampleRelation "R" "C" "Y"], []⟩]
        {} (some m₁) 2 0 = .ok m₂ ∧
      m₂.scope = .subtrees [2] ∧ m₂.descendantsOf 2 = [3] ∧ Delimits {} m₁ m₂ := by
  refine ⟨_, _, rfl, rfl, by decide, by decide, ?_⟩
  exact delimits_of_built .never (.first .never rfl) rfl

end Model

end TypeAtlas
