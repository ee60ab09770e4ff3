/-
One walk towards the root. A walk from an unfilled item type ends in one of three ways: at a filled
type, at a type without a parent item, or where its path closes to a cycle; one step for each unfilled
item type, and one more, are enough. The invariant of the walk is its path: the types passed, the last
one first, each extending the one passed after it, unfilled and without repetition. A walk that closes
a cycle takes no notice of the table, so it is the walk of the bare graph.
-/
import TypeAtlas.Proofs.Extends
import TypeAtlas.Model.Resolve
import Mathlib.Data.List.Nodup
import Mathlib.Data.List.Perm.Subperm

namespace TypeAtlas.Resolve

variable {o : Outline} {table : HierarchyTable}

/-! ## Paths -/

/-- The path from a type to the next one to look at: the types passed, the last one first. -/
inductive Trail (o : Outline) (first : TypeId) : List TypeId → TypeId → Prop
  | nil : Trail o first [] first
  | cons {path : List TypeId} {id next : TypeId} :
      Trail o first path id → o.Up id next → Trail o first (id :: path) next

theorem Trail.up_of_mem {first next : TypeId} {path : List TypeId} (h : Trail o first path next) :
    ∀ x ∈ path, ∃ y, o.Up x y := by
  induction h with
  | nil => intro x hx; cases hx
  | cons _ hup ih =>
    intro x hx
    rcases List.mem_cons.1 hx with rfl | hx
    · exact ⟨_, hup⟩
    · exact ih x hx

/-- The parent of a type of the path is on the path, or it is the next type. -/
theorem Trail.up_mem {first next : TypeId} {path : List TypeId} (h : Trail o first path next)
    {x y : TypeId} (hx : x ∈ path) (hxy : o.Up x y) : y = next ∨ y ∈ path := by
  induction h with
  | nil => cases hx
  | cons _ hup ih =>
    rcases List.mem_cons.1 hx with rfl | hx
    · exact .inl (hxy.unique hup)
    · rcases ih hx with rfl | hy
      · exact .inr List.mem_cons_self
      · exact .inr (List.mem_cons_of_mem _ hy)

/-- The first type is on the path, unless nothing was passed yet. -/
theorem Trail.mem_or_eq {first next : TypeId} {path : List TypeId} (h : Trail o first path next) :
    first ∈ path ∨ first = next := by
  induction h with
  | nil => exact .inr rfl
  | cons _ _ ih =>
    rcases ih with hm | rfl
    · exact .inl (List.mem_cons_of_mem _ hm)
    · exact .inl List.mem_cons_self

theorem Trail.item_next (hw : o.WF) {first next : TypeId} {path : List TypeId}
    (h : Trail o first path next) (hi : (o.item? first).isSome) : (o.item? next).isSome := by
  cases h with
  | nil => exact hi
  | cons _ hup => exact hw.parent hup

theorem Trail.leads {first next : TypeId} {path : List TypeId} (h : Trail o first path next) :
    o.Leads first next := by
  induction h with
  | nil => exact .refl
  | cons _ hup ih => exact ih.tail hup

/-- A path that passes `id` splits into the path to `id` and a path from there. -/
theorem Trail.split {first next id : TypeId} {rest : List TypeId} :
    ∀ {turn : List TypeId}, Trail o first (turn ++ id :: rest) next →
      Trail o first rest id ∧ Trail o id (turn ++ [id]) next
  | [], .cons h hup => ⟨h, .cons .nil hup⟩
  | _ :: _, .cons h hup => ⟨(Trail.split h).1, .cons (Trail.split h).2 hup⟩

/-- A path that comes back shows a cycle. -/
theorem Trail.onCycle {id : TypeId} {turn : List TypeId} (h : Trail o id (turn ++ [id]) id) :
    o.OnCycle id := by
  cases turn with
  | nil =>
    cases h with
    | cons h hup => exact Relation.TransGen.tail' h.leads hup
  | cons x turn =>
    cases h with
    | cons h hup => exact Relation.TransGen.tail' h.leads hup

theorem Trail.leads_of_mem {first next : TypeId} {path : List TypeId}
    (h : Trail o first path next) : ∀ x ∈ path, o.Leads first x := by
  intro x hx
  obtain ⟨turn, rest, rfl⟩ := List.append_of_mem hx
  exact h.split.1.leads

/-- What the first type leads to is on the path, or the next type leads there. -/
theorem Trail.mem_or_leads {first next : TypeId} {path : List TypeId} (h : Trail o first path next)
    {x : TypeId} (hx : o.Leads first x) : x ∈ path ∨ o.Leads next x := by
  induction h with
  | nil => exact .inr hx
  | cons _ hup ih =>
    rcases ih with hmem | hleads
    · exact .inl (List.mem_cons_of_mem _ hmem)
    · rcases Relation.ReflTransGen.cases_head hleads with rfl | ⟨y, hy, hyx⟩
      · exact .inl List.mem_cons_self
      · exact .inr (hy.unique hup ▸ hyx)

/-- A list that holds the parents of its types holds what they lead to. -/
theorem mem_of_leads {c : List TypeId} (hclosed : ∀ x ∈ c, ∀ y, o.Up x y → y ∈ c) {x y : TypeId}
    (hx : x ∈ c) (hxy : o.Leads x y) : y ∈ c := by
  induction hxy with
  | refl => exact hx
  | tail _ hup ih => exact hclosed _ ih _ hup

/-! ## Unfilled types -/

/-- The item types that are not filled in, ascending. -/
def unfilled (o : Outline) (table : HierarchyTable) : List TypeId :=
  (o.types.filter fun m => m.isItem && (table.at? m.id).isNone).map Merged.id

theorem mem_unfilled (hw : o.WF) {id : TypeId} :
    id ∈ unfilled o table ↔ (o.item? id).isSome ∧ table.at? id = none := by
  unfold unfilled
  rw [List.mem_map, Outline.item?_isSome_iff]
  constructor
  · rintro ⟨m, hm, rfl⟩
    obtain ⟨hm, hopen⟩ := List.mem_filter.1 hm
    rw [Bool.and_eq_true, Option.isNone_iff_eq_none] at hopen
    exact ⟨⟨m, hw.getElem?_id hm, hopen.1⟩, hopen.2⟩
  · rintro ⟨⟨m, hm, hitem⟩, hopen⟩
    have hid := hw.id hm
    refine ⟨m, List.mem_filter.2 ⟨List.mem_of_getElem? hm, ?_⟩, hid⟩
    simp [hitem, hid, hopen]

theorem nodup_unfilled (hw : o.WF) : (unfilled o table).Nodup :=
  (hw.pairwise_map_id.imp Nat.ne_of_lt).sublist (List.filter_sublist.map Merged.id)

theorem length_unfilled_le (o : Outline) (table : HierarchyTable) :
    (unfilled o table).length ≤ o.types.length := by
  unfold unfilled
  rw [List.length_map]
  exact List.length_filter_le _ _

/-! ## Climbing -/

/-- The types of a path are apart and unfilled. -/
structure Fresh (table : HierarchyTable) (path : List TypeId) : Prop where
  nodup : path.Nodup
  unfilled : ∀ x ∈ path, table.at? x = none

theorem fresh_nil : Fresh table [] := ⟨List.nodup_nil, fun _ h => by cases h⟩

/-- One more unfilled type on the path. -/
theorem Fresh.cons {path : List TypeId} {id : TypeId} (hf : Fresh table path)
    (hopen : table.at? id = none) (hid : id ∉ path) : Fresh table (id :: path) := by
  refine ⟨List.nodup_cons.2 ⟨hid, hf.nodup⟩, fun x hx => ?_⟩
  rcases List.mem_cons.1 hx with rfl | hx
  · exact hopen
  · exact hf.unfilled x hx

/-- The ends of a walk from `first`. -/
inductive Ends (o : Outline) (table : HierarchyTable) (first : TypeId) : Walk → Prop
  | filled {path : List TypeId} {id : TypeId} (trail : Trail o first path id)
      (fresh : Fresh table path) (found : (table.at? id).isSome) : Ends o table first ⟨path, []⟩
  | root {path : List TypeId} {id : TypeId} (trail : Trail o first path id)
      (fresh : Fresh table (id :: path)) (top : o.parentItem? id = none) :
      Ends o table first ⟨id :: path, []⟩
  | cycle {turn rest : List TypeId} {id : TypeId} (trail : Trail o first (turn ++ id :: rest) id)
      (fresh : Fresh table (turn ++ id :: rest)) : Ends o table first ⟨rest, id :: turn.reverse⟩

/-- A path passes unfilled item types, each once. -/
theorem length_le_unfilled (hw : o.WF) {first next : TypeId} {path : List TypeId}
    (ht : Trail o first path next) (hf : Fresh table path) :
    path.length ≤ (unfilled o table).length := by
  refine (hf.nodup.subperm fun x hx => ?_).length_le
  obtain ⟨y, hy⟩ := ht.up_of_mem x hx
  exact (mem_unfilled hw).2 ⟨hw.child hy, hf.unfilled x hx⟩

theorem takeWhile_append_of_mem {id : TypeId} {path : List TypeId} (h : id ∈ path) :
    path = path.takeWhile (· != id) ++ id :: (path.dropWhile (· != id)).drop 1 := by
  induction path with
  | nil => cases h
  | cons x path ih =>
    by_cases hx : x = id
    · subst hx; simp
    · have hb : (x != id) = true := by simpa using hx
      simp only [List.takeWhile_cons, List.dropWhile_cons, hb, if_true, List.cons_append]
      exact congrArg (x :: ·) (ih ((List.mem_cons.1 h).resolve_left (Ne.symm hx)))

/-- With a step left for every unfilled item type, and one more, the climb ends in one of the three
ways. -/
theorem climb_ends (hw : o.WF) {first : TypeId} :
    ∀ {fuel : Nat} {path : List TypeId} {id : TypeId}, Trail o first path id → Fresh table path →
      (unfilled o table).length + 1 ≤ fuel + path.length →
      Ends o table first (climb o table fuel path id)
  | 0, path, id, ht, hf, hfuel => by
    -- a path passes no unfilled type twice, so there is a step left
    have := length_le_unfilled hw ht hf
    omega
  | fuel + 1, path, id, ht, hf, hfuel => by
    unfold climb
    split
    · rename_i hfound
      exact .filled ht hf hfound
    · rename_i hnone
      have hnone : table.at? id = none := by simpa using hnone
      split
      · rename_i hmem
        have hsplit := takeWhile_append_of_mem (List.contains_iff_mem.1 hmem)
        rw [hsplit] at ht hf
        exact .cycle ht hf
      · rename_i hmem
        have hfresh := hf.cons hnone fun h => hmem (List.contains_iff_mem.2 h)
        split
        · rename_i p hp
          exact climb_ends hw (.cons ht hp) hfresh (by simp only [List.length_cons]; omega)
        · rename_i hp
          exact .root ht hfresh hp

theorem walkFrom_ends (hw : o.WF) (table : HierarchyTable) (first : TypeId) :
    Ends o table first (walkFrom o table first) :=
  climb_ends hw .nil fresh_nil (Nat.succ_le_succ (length_unfilled_le o table))

/-! ## Cycles -/

/-- A climb that closes a cycle passes unfilled types only, so an empty table gives the same. -/
theorem climb_bare_of_cycle :
    ∀ {fuel : Nat} {path : List TypeId} {id : TypeId}, (climb o table fuel path id).cycle ≠ [] →
      climb o [] fuel path id = climb o table fuel path id
  | 0, _, _, h => absurd rfl h
  | fuel + 1, path, id, h => by
    have hbare : (HierarchyTable.at? [] id).isSome = false := rfl
    unfold climb at h ⊢
    rw [hbare]
    split at h
    -- a climb that stops at a filled type closes no cycle
    · exact absurd rfl h
    · rename_i hnone
      rw [if_neg hnone, if_neg Bool.false_ne_true]
      split at h
      · rename_i hmem
        rw [if_pos hmem, if_pos hmem]
      · rename_i hmem
        rw [if_neg hmem, if_neg hmem]
        split at h
        · exact climb_bare_of_cycle h
        · exact absurd rfl h

/-- The cycle of a type as it is reported: from the type where the first walk in id order enters
it. -/
def cycleOf (o : Outline) (id : TypeId) : List TypeId :=
  ((o.types.map fun m => (walkFrom o [] m.id).cycle).find? fun c => c.contains id).getD []

/-- A type that a walk finds on its cycle is on a cycle, and the walk leads to it. -/
theorem onCycle_of_mem_cycle (hw : o.WF) {first id : TypeId}
    (h : id ∈ (walkFrom o table first).cycle) : o.OnCycle id ∧ o.Leads first id := by
  cases hwalk : walkFrom o table first with
  | mk leadIn cycle =>
    have hends := walkFrom_ends hw table first
    rw [hwalk] at h hends
    cases hends with
    | filled => cases h
    | root => cases h
    | @cycle turn rest start ht hf =>
      obtain ⟨hto, hround⟩ := ht.split
      have hmem : id ∈ turn ++ [start] := by
        simpa [or_comm] using h
      have hthere := hround.leads_of_mem id hmem
      exact ⟨(hround.onCycle.of_leads hthere).1, hto.leads.trans hthere⟩

end TypeAtlas.Resolve
