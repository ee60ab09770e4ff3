/-
Ancestors and descendants. The ancestors of a type are found by walks towards the root, maybe in an
earlier build; its descendants are found by a search along child links when they are asked for. Main
statement: in every model at the end of a history of builds the two are inverse to each other, except
that a type whose chain of parents runs into a cycle has no ancestors but itself; and the search ends
on every graph, finds nothing twice, and lists a type after its parent.

Both sides come down to the extends graph: child links are its links read downwards, and the line of a
type holds exactly what the type leads to.
-/
import TypeAtlas.Proofs.Representation

namespace TypeAtlas.Model

open Resolve

namespace Built

variable {groups : List Group} {m : Model} (h : Built groups m)

include h

/-- What is below a type is what leads to it. -/
theorem below_iff {t u : TypeId} :
    m.children.Below t u ↔ (Outline.ofTypes (Merge.types groups)).Leads u t := by
  have hchild : m.children.Child = Function.swap (Outline.ofTypes (Merge.types groups)).Up := by
    funext p c
    exact propext h.mem_childrenOf
  unfold ChildTable.Below Outline.Leads
  rw [hchild, Relation.reflTransGen_swap]

/-- The other ancestors of a type are the types it leads to, unless its chain runs into a cycle. -/
theorem mem_ancestors_iff {u : TypeId} {n : Node} (hn : m.node? u = some n) {k : Hierarchy}
    (hk : n.hierarchy = some k) {t : TypeId} (hne : t ≠ u) :
    t ∈ k.ancestors ↔ (Outline.ofTypes (Merge.types groups)).Leads u t ∧ k.status ≠ .cycle := by
  obtain ⟨k', halike, hc⟩ := h.computed hn hk
  rw [halike.ancestors, halike.status]
  rcases hc.endless_or_line (wf_types groups) with ⟨-, hstatus, halone⟩ | ⟨root, hline, -, hstatus⟩
  · rw [halone]
    exact iff_of_false (fun ht => hne (List.mem_singleton.1 ht)) fun ht => ht.2 hstatus
  · exact ⟨fun ht => ⟨hline.leads t ht, hstatus⟩, fun ht => hline.mem_of_leads ht.1⟩

/-- A child of a type declares the type as its parent. -/
theorem parent?_of_mem_childrenOf {p c : TypeId} (hc : c ∈ m.childrenOf p) :
    ∃ parent child, m.node? p = some parent ∧ m.node? c = some child ∧
      m.parent? child = some parent := by
  obtain ⟨child, hchild, -⟩ := (h.itemAt_of_mem_childrenOf hc).2
  obtain ⟨parent, hparent, hlink⟩ :=
    exists_parent? h.current.merged (wf_types groups) hchild (h.mem_childrenOf.1 hc)
  exact ⟨parent, child, hparent, hchild, hlink⟩

end Built

/-- Ancestors and descendants of a model fit together. -/
structure Kindred (m : Model) : Prop where
  inverse : ∀ t u T U, m.node? t = some T → T.kind = .item → m.node? u = some U →
    U.kind = .item → t ≠ u → ∃ h, U.hierarchy = some h ∧
      (t ∈ h.ancestors ↔ u ∈ m.descendantsOf t ∧ h.status ≠ .cycle)
  /-- The search for descendants comes to an end by itself: more steps find nothing more. -/
  ends : ∀ t fuel, m.children.bound (m.childrenOf t) ≤ fuel →
    m.children.visit fuel (m.childrenOf t) [t] = t :: m.descendantsOf t
  others : ∀ t, t ∉ m.descendantsOf t
  once : ∀ t, (m.descendantsOf t).Nodup
  exact : ∀ t u, u ∈ m.descendantsOf t ↔
    u ≠ t ∧ Relation.TransGen (fun p c => c ∈ m.childrenOf p) t u
  parentFirst : ∀ t before u later, m.descendantsOf t = before ++ u :: later →
    ∃ p parent child, m.node? p = some parent ∧ m.node? u = some child ∧
      m.parent? child = some parent ∧ (p = t ∨ p ∈ before)

/-- Ancestors and descendants are inverse to each other at the end of every history of builds. -/
theorem kindred_of_built {groups : List Group} {m : Model} (h : Built groups m) : Kindred m := by
  constructor
  · intro t u T U _ _ hU hkind hne
    obtain ⟨k, hk⟩ := Option.isSome_iff_exists.1 ((h.hierarchy_isSome_iff hU).2 hkind)
    refine ⟨k, hk, ?_⟩
    unfold descendantsOf
    rw [h.mem_ancestors_iff hU hk hne, ChildTable.mem_descendants, h.below_iff]
    simp [Ne.symm hne]
  · intro t fuel hfuel
    exact ChildTable.visit_descendants m.children t hfuel
  · intro t
    exact (ChildTable.visit_children m.children t).2
  · intro t
    exact ChildTable.nodup_descendants m.children t
  · intro t u
    unfold descendantsOf
    rw [ChildTable.mem_descendants]
    refine and_congr_right fun hne => ?_
    exact Relation.reflTransGen_iff_eq_or_transGen.trans (or_iff_right hne)
  · intro t before u later hlist
    obtain ⟨p, hp, hchild⟩ := ChildTable.descendants_led hlist
    obtain ⟨parent, child, hparent, hu, hlink⟩ := h.parent?_of_mem_childrenOf hchild
    exact ⟨p, parent, child, hparent, hu, hlink, hp⟩

/-- `F` is below the cycle of `D` and `E`, and so below both, but has no ancestor besides itself; the
second build keeps all hierarchies but that of `C`. -/
theorem kindred_of_built_cycle :
    ∃ m₁ m₂,
      buildUnless .never [sampleGroup default [("A", none, []), ("B", some "A", []),
        ("C", none, []), ("D", some "E", []), ("E", some "D", []), ("F", some "D", [])]] {} none 1 0 =
        .ok m₁ ∧
      buildUnless .never [sampleGroup default [("A", none, []), ("B", some "A", []),
        ("C", some "B", []), ("D", some "E", []), ("E", some "D", []), ("F", some "D", [])]] {}
        (some m₁) 2 0 = .ok m₂ ∧
      m₂.scope = .subtrees [2] ∧ m₂.descendantsOf 0 = [1, 2] ∧ m₂.descendantsOf 3 = [4, 5] ∧
      Kindred m₂ := by
  refine ⟨_, _, rfl, rfl, by decide, by decide, by decide, ?_⟩
  exact kindred_of_built (.next .never (.first .never rfl) rfl)

end TypeAtlas.Model
