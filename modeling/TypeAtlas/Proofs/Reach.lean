/-
Everything below some types: the search returns exactly the types that child links reach from its
roots, on every child table. A step takes some entry of the stack. Its invariant (`Covers`): the roots
and the children of the types seen are seen or on the stack, and nothing else is. Each step uses up
one of the entries of the stack and the links of the types not seen yet (`Search.left`), so these
bound every run, and they are fuel enough for a visit. The descendants of a type are what the same
search finds, begun with the type as seen; it finds a type after its parent.
-/
import TypeAtlas.Model.Reach
import Mathlib.Algebra.BigOperators.Fin
import Mathlib.Data.List.Perm.Basic
import Mathlib.Logic.Relation

namespace TypeAtlas.ChildTable

variable {children : ChildTable}

/-- `b` is a child of `a`. -/
def Child (children : ChildTable) (a b : TypeId) : Prop := b ∈ children.of a

/-- `b` is `a` or below it. -/
def Below (children : ChildTable) : TypeId → TypeId → Prop := Relation.ReflTransGen children.Child

/-! ## Fuel -/

/-- The number of child links of the types not seen yet. -/
def unseenLinks (children : ChildTable) (seen : List TypeId) : Nat :=
  ∑ i ∈ (Finset.range children.length).filter (· ∉ seen), (children.of i).length

theorem of_eq_nil {id : TypeId} (h : ¬id < children.length) : children.of id = [] := by
  unfold of
  rw [List.getElem?_eq_none (Nat.le_of_not_lt h)]
  rfl

theorem unseenLinks_nil : unseenLinks children [] = (children.map List.length).sum := by
  unfold unseenLinks
  rw [Finset.filter_true_of_mem (by simp), Finset.sum_range, ← Fin.sum_univ_fun_getElem]
  refine Finset.sum_congr rfl fun i _ => ?_
  simp [of]

/-- Seeing one more type uses up its links. -/
theorem unseenLinks_append (children : ChildTable) {seen : List TypeId} {id : TypeId}
    (h : id ∉ seen) :
    unseenLinks children (seen ++ [id]) + (children.of id).length = unseenLinks children seen := by
  unfold unseenLinks
  have hfilter : (Finset.range children.length).filter (· ∉ seen ++ [id]) =
      ((Finset.range children.length).filter (· ∉ seen)).erase id := by
    ext x
    simp only [Finset.mem_filter, Finset.mem_erase, List.mem_append, List.mem_singleton]
    tauto
  rw [hfilter]
  by_cases hid : id < children.length
  · exact Finset.sum_erase_add _ _ (Finset.mem_filter.2 ⟨Finset.mem_range.2 hid, h⟩)
  · rw [Finset.erase_eq_of_notMem (by simp [hid]), of_eq_nil hid]
    rfl

/-! ## Steps -/

/-- A search under way: the types to look at, and the types seen. -/
structure Search where
  stack : List TypeId
  seen : List TypeId

/-- One step of a search, which may take any entry of the stack: one that was seen is dropped;
another one is seen now, and its children go on the stack. -/
inductive Step (children : ChildTable) : Search → Search → Prop
  | skip {id : TypeId} {stack rest seen : List TypeId} (taken : stack.Perm (id :: rest))
      (known : id ∈ seen) : Step children ⟨stack, seen⟩ ⟨rest, seen⟩
  | enter {id : TypeId} {stack rest stack' seen : List TypeId} (taken : stack.Perm (id :: rest))
      (new : id ∉ seen) (pushed : stack'.Perm (children.of id ++ rest)) :
      Step children ⟨stack, seen⟩ ⟨stack', seen ++ [id]⟩

/-- A run of so many steps. -/
inductive Runs (children : ChildTable) : Nat → Search → Search → Prop
  | nil (s : Search) : Runs children 0 s s
  | cons {n : Nat} {s t u : Search} : Step children s t → Runs children n t u →
      Runs children (n + 1) s u

/-- The steps that a search has left at most: its stack, and the links not followed yet. -/
def Search.left (children : ChildTable) (s : Search) : Nat :=
  s.stack.length + unseenLinks children s.seen

theorem left_start (children : ChildTable) (roots : List TypeId) :
    Search.left children ⟨roots, []⟩ = bound children roots := by
  unfold Search.left bound
  rw [unseenLinks_nil, List.length_flatten]

/-- The links that a step pushes on the stack are no longer unseen, so it uses up the entry that it
takes. -/
theorem Step.left {s t : Search} (h : Step children s t) :
    t.left children + 1 = s.left children := by
  cases h with
  | skip taken _ =>
    have hlength := taken.length_eq
    rw [List.length_cons] at hlength
    simp only [Search.left]
    omega
  | enter taken new pushed =>
    have hlength := taken.length_eq
    have hpushed := pushed.length_eq
    have hlinks := unseenLinks_append children new
    rw [List.length_cons] at hlength
    rw [List.length_append] at hpushed
    simp only [Search.left]
    omega

theorem Runs.left {n : Nat} {s t : Search} (h : Runs children n s t) :
    t.left children + n = s.left children := by
  induction h with
  | nil => rfl
  | cons hstep _ ih =>
    have := hstep.left
    omega

theorem exists_step {s : Search} (h : s.stack ≠ []) : ∃ t, Step children s t := by
  obtain ⟨stack, seen⟩ := s
  obtain ⟨id, rest, rfl⟩ := List.exists_cons_of_ne_nil h
  by_cases hid : id ∈ seen
  · exact ⟨_, .skip (.refl _) hid⟩
  · exact ⟨_, .enter (.refl _) hid (.refl _)⟩

/-! ## The invariant -/

/-- A search for what is below some roots: what it has seen or has on its stack is below them, and
the roots and the children of what it has seen are there. -/
structure Covers (children : ChildTable) (roots : List TypeId) (s : Search) : Prop where
  once : s.seen.Nodup
  below : ∀ x, x ∈ s.seen ∨ x ∈ s.stack → ∃ r ∈ roots, children.Below r x
  root : ∀ r ∈ roots, r ∈ s.seen ∨ r ∈ s.stack
  child : ∀ a ∈ s.seen, ∀ b ∈ children.of a, b ∈ s.seen ∨ b ∈ s.stack

variable {roots : List TypeId}

theorem covers_start (children : ChildTable) (roots : List TypeId) :
    Covers children roots ⟨roots, []⟩ where
  once := List.nodup_nil
  below x hx := ⟨x, hx.resolve_left List.not_mem_nil, .refl⟩
  root _ hr := .inr hr
  child _ ha := (nomatch ha)

/-- Dropping an entry that was seen loses nothing. -/
theorem Covers.skip {id : TypeId} {stack rest seen : List TypeId}
    (h : Covers children roots ⟨stack, seen⟩) (taken : stack.Perm (id :: rest))
    (known : id ∈ seen) : Covers children roots ⟨rest, seen⟩ := by
  have hkeep : ∀ {x}, x ∈ seen ∨ x ∈ stack → x ∈ seen ∨ x ∈ rest := by
    rintro x (hx | hx)
    · exact .inl hx
    · rcases List.mem_cons.1 (taken.mem_iff.1 hx) with rfl | hx
      · exact .inl known
      · exact .inr hx
  have hsub : ∀ x ∈ rest, x ∈ stack := fun x hx => taken.mem_iff.2 (List.mem_cons_of_mem _ hx)
  exact ⟨h.once, fun x hx => h.below x (hx.imp_right (hsub x)), fun r hr => hkeep (h.root r hr),
    fun a ha b hb => hkeep (h.child a ha b hb)⟩

/-- With an entry that was not seen its children are on the stack. -/
theorem Covers.enter {id : TypeId} {stack rest stack' seen : List TypeId}
    (h : Covers children roots ⟨stack, seen⟩) (taken : stack.Perm (id :: rest)) (new : id ∉ seen)
    (pushed : stack'.Perm (children.of id ++ rest)) :
    Covers children roots ⟨stack', seen ++ [id]⟩ := by
  have hid : id ∈ stack := taken.mem_iff.2 List.mem_cons_self
  have hmem : ∀ {x}, x ∈ stack' ↔ x ∈ children.of id ∨ x ∈ rest := fun {x} =>
    pushed.mem_iff.trans List.mem_append
  have hkeep : ∀ {x}, x ∈ seen ∨ x ∈ stack → x ∈ seen ++ [id] ∨ x ∈ stack' := by
    rintro x (hx | hx)
    · exact .inl (List.mem_append_left _ hx)
    · rcases List.mem_cons.1 (taken.mem_iff.1 hx) with rfl | hx
      · exact .inl (List.mem_append_right _ List.mem_cons_self)
      · exact .inr (hmem.2 (.inr hx))
  refine ⟨?_, fun x hx => ?_, fun r hr => hkeep (h.root r hr), fun a ha b hb => ?_⟩
  · refine h.once.append (List.nodup_singleton id) ?_
    simpa using new
  · rcases hx with hx | hx
    · rcases List.mem_append.1 hx with hx | hx
      · exact h.below x (.inl hx)
      · rw [List.mem_singleton.1 hx]
        exact h.below id (.inr hid)
    · rcases hmem.1 hx with hx | hx
      · obtain ⟨r, hr, hbelow⟩ := h.below id (.inr hid)
        exact ⟨r, hr, hbelow.tail hx⟩
      · exact h.below x (.inr (taken.mem_iff.2 (List.mem_cons_of_mem _ hx)))
  · rcases List.mem_append.1 ha with ha | ha
    · exact hkeep (h.child a ha b hb)
    · rw [List.mem_singleton.1 ha] at hb
      exact .inr (hmem.2 (.inl hb))

theorem Covers.run {n : Nat} {s t : Search} (h : Covers children roots s)
    (hrun : Runs children n s t) : Covers children roots t := by
  induction hrun with
  | nil => exact h
  | cons hstep _ ih =>
    refine ih ?_
    cases hstep with
    | skip taken known => exact h.skip taken known
    | enter taken new pushed => exact h.enter taken new pushed

/-- A search whose stack is empty has seen exactly what is below its roots. -/
theorem Covers.mem_iff {seen : List TypeId} (h : Covers children roots ⟨[], seen⟩) {x : TypeId} :
    x ∈ seen ↔ ∃ r ∈ roots, children.Below r x := by
  refine ⟨fun hx => h.below x (.inl hx), ?_⟩
  rintro ⟨r, hr, hbelow⟩
  induction hbelow with
  | refl => exact (h.root r hr).resolve_right List.not_mem_nil
  | tail _ hab ih => exact (h.child _ ih _ hab).resolve_right List.not_mem_nil

/-! ## Visits -/

/-- With enough fuel a visit is a run that works off its stack. -/
theorem visit_runs (children : ChildTable) : ∀ (fuel : Nat) (stack seen : List TypeId),
    Search.left children ⟨stack, seen⟩ ≤ fuel →
    ∃ n, Runs children n ⟨stack, seen⟩ ⟨[], visit children fuel stack seen⟩
  | 0, [], seen, _ => ⟨0, .nil _⟩
  | _ + 1, [], seen, _ => ⟨0, .nil _⟩
  | 0, id :: stack, seen, hfuel => by
    simp only [Search.left, List.length_cons] at hfuel
    omega
  | fuel + 1, id :: stack, seen, hfuel => by
    unfold visit
    split
    · rename_i hid
      have hstep : Step children ⟨id :: stack, seen⟩ ⟨stack, seen⟩ :=
        .skip (.refl _) (List.contains_iff_mem.1 hid)
      have hleft := hstep.left
      obtain ⟨n, hrun⟩ := visit_runs children fuel stack seen (by omega)
      exact ⟨n + 1, .cons hstep hrun⟩
    · rename_i hid
      have hstep : Step children ⟨id :: stack, seen⟩ ⟨children.of id ++ stack, seen ++ [id]⟩ :=
        .enter (.refl _) (fun h => hid (List.contains_iff_mem.2 h)) (.refl _)
      have hleft := hstep.left
      obtain ⟨n, hrun⟩ := visit_runs children fuel (children.of id ++ stack) (seen ++ [id])
        (by omega)
      exact ⟨n + 1, .cons hstep hrun⟩

/-- More fuel than a visit needs does not change what it finds. -/
theorem visit_add_fuel (children : ChildTable) (extra : Nat) :
    ∀ (fuel : Nat) (stack seen : List TypeId),
      stack.length + unseenLinks children seen ≤ fuel →
      visit children (fuel + extra) stack seen = visit children fuel stack seen
  | 0, stack, seen, hfuel => by
    have hnil : stack = [] := List.eq_nil_of_length_eq_zero (by omega)
    subst hnil
    cases extra <;> simp [visit]
  | fuel + 1, [], seen, _ => by simp [Nat.add_right_comm fuel 1 extra, visit]
  | fuel + 1, id :: stack, seen, hfuel => by
    rw [List.length_cons] at hfuel
    rw [Nat.add_right_comm]
    unfold visit
    split
    · exact visit_add_fuel children extra fuel stack seen (by omega)
    · rename_i hid
      have hid : id ∉ seen := fun h => hid (List.contains_iff_mem.2 h)
      have hlinks := unseenLinks_append children hid
      exact visit_add_fuel children extra fuel (children.of id ++ stack) (seen ++ [id])
        (by rw [List.length_append]; omega)

/-- If the types on the stack are children of types seen, a visit finds each type after one that it
is a child of. -/
theorem visit_led (children : ChildTable) : ∀ (fuel : Nat) (stack seen : List TypeId),
    (∀ x ∈ stack, ∃ a ∈ seen, x ∈ children.of a) →
    ∃ found, visit children fuel stack seen = seen ++ found ∧
      ∀ before x later, found = before ++ x :: later → ∃ a ∈ seen ++ before, x ∈ children.of a
  | 0, _, seen, _ => ⟨[], by simp [visit], by simp⟩
  | _ + 1, [], seen, _ => ⟨[], by simp [visit], by simp⟩
  | fuel + 1, id :: stack, seen, hstack => by
    unfold visit
    split
    · exact visit_led children fuel stack seen fun x hx => hstack x (List.mem_cons_of_mem _ hx)
    · obtain ⟨found, hfound, hled⟩ := visit_led children fuel (children.of id ++ stack)
        (seen ++ [id]) fun x hx => by
          rcases List.mem_append.1 hx with hx | hx
          · exact ⟨id, by simp, hx⟩
          · obtain ⟨a, ha, hxa⟩ := hstack x (List.mem_cons_of_mem _ hx)
            exact ⟨a, List.mem_append_left _ ha, hxa⟩
      refine ⟨id :: found, by rw [hfound, List.append_assoc]; rfl, fun before x later heq => ?_⟩
      cases before with
      | nil =>
        cases heq
        rw [List.append_nil]
        exact hstack id List.mem_cons_self
      | cons b before =>
        cases heq
        rw [List.append_cons]
        exact hled before x later rfl

/-! ## Subtrees -/

/-- The search for the subtrees of some types works off its stack. -/
theorem subtrees_runs (children : ChildTable) (roots : List TypeId) :
    ∃ n, Runs children n ⟨roots, []⟩ ⟨[], children.subtrees roots⟩ :=
  visit_runs children _ _ _ (left_start children roots).le

/-- The subtrees of some types are exactly the types that child links reach from them. -/
theorem mem_subtrees {roots : List TypeId} {x : TypeId} :
    x ∈ children.subtrees roots ↔ ∃ r ∈ roots, children.Below r x := by
  obtain ⟨n, hrun⟩ := subtrees_runs children roots
  exact ((covers_start children roots).run hrun).mem_iff

/-! ## Descendants -/

/-- The fuel of the search for descendants covers its stack and the links not seen yet. -/
theorem le_bound_children (children : ChildTable) (id : TypeId) :
    (children.of id).length + unseenLinks children [id] ≤ bound children (children.of id) := by
  have hlinks := unseenLinks_append children (List.not_mem_nil (a := id))
  rw [unseenLinks_nil, List.nil_append] at hlinks
  unfold bound
  rw [List.length_flatten]
  omega

/-- The search for descendants is one for what is below its type, begun with the first step. -/
theorem covers_visit_children (children : ChildTable) (id : TypeId) :
    Covers children [id]
      ⟨[], visit children (bound children (children.of id)) (children.of id) [id]⟩ := by
  have hfirst : Covers children [id] ⟨children.of id, [id]⟩ :=
    (covers_start children [id]).enter (.refl _) List.not_mem_nil (by rw [List.append_nil])
  obtain ⟨n, hrun⟩ := visit_runs children _ _ _ (le_bound_children children id)
  exact hfirst.run hrun

/-- The search for descendants finds its type first, and never again. -/
theorem visit_children (children : ChildTable) (id : TypeId) :
    visit children (bound children (children.of id)) (children.of id) [id] =
        id :: children.descendants id ∧ id ∉ children.descendants id := by
  obtain ⟨found, hfound, -⟩ := visit_led children (bound children (children.of id))
    (children.of id) [id] fun x hx => ⟨id, List.mem_singleton_self id, hx⟩
  have hdesc : children.descendants id = found := by
    show List.drop 1 (visit children _ _ _) = found
    rw [hfound]
    rfl
  have hnodup := (covers_visit_children children id).once
  rw [hfound] at hnodup ⊢
  rw [hdesc]
  exact ⟨rfl, (List.nodup_cons.1 hnodup).1⟩

theorem covers_descendants (children : ChildTable) (id : TypeId) :
    Covers children [id] ⟨[], id :: children.descendants id⟩ := by
  have hcovers := covers_visit_children children id
  rwa [(visit_children children id).1] at hcovers

/-- The descendants of a type are the other types that child links reach from it. -/
theorem mem_descendants {id x : TypeId} :
    x ∈ children.descendants id ↔ x ≠ id ∧ children.Below id x := by
  have hid := (visit_children children id).2
  have hmem : x ∈ id :: children.descendants id ↔ children.Below id x :=
    (covers_descendants children id).mem_iff.trans (by simp)
  rw [← hmem, List.mem_cons]
  constructor
  · intro hx
    refine ⟨?_, .inr hx⟩
    rintro rfl
    exact hid hx
  · rintro ⟨hne, hx⟩
    exact hx.resolve_left hne

theorem nodup_descendants (children : ChildTable) (id : TypeId) :
    (children.descendants id).Nodup :=
  (List.nodup_cons.1 (covers_descendants children id).once).2

/-- A descendant is listed after one that it is a child of, unless it is a child of the type. -/
theorem descendants_led {id x : TypeId} {before later : List TypeId}
    (h : children.descendants id = before ++ x :: later) :
    ∃ a, (a = id ∨ a ∈ before) ∧ x ∈ children.of a := by
  obtain ⟨found, hfound, hled⟩ := visit_led children (bound children (children.of id))
    (children.of id) [id] fun x hx => ⟨id, List.mem_singleton_self id, hx⟩
  rw [(visit_children children id).1] at hfound
  cases hfound
  obtain ⟨a, ha, hx⟩ := hled before x later h
  exact ⟨a, List.mem_cons.1 ha, hx⟩

/-- With any fuel beyond its own the search for descendants finds the same. -/
theorem visit_descendants (children : ChildTable) (id : TypeId) {fuel : Nat}
    (h : bound children (children.of id) ≤ fuel) :
    visit children fuel (children.of id) [id] = id :: children.descendants id := by
  obtain ⟨extra, rfl⟩ := Nat.exists_eq_add_of_le h
  rw [visit_add_fuel children extra _ _ _ (le_bound_children children id)]
  exact (visit_children children id).1

end TypeAtlas.ChildTable
