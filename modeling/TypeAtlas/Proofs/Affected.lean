/-
The types that a change affects: the changed types and everything below them. Main statement: on every
child table whose links stay inside it, be they cyclic, shared or repeated, the search from roots
inside the table ends by itself and returns exactly the types that child links reach from the roots.

The order in which the stack is worked off has no part in it. Every run takes at most as many steps as
there are roots and links, it can go on as long as its stack holds an entry, and when the stack is
empty it has seen the same types.
-/
import TypeAtlas.Proofs.Safety

namespace TypeAtlas.ChildTable

variable {children : ChildTable} {roots : List TypeId}

/-- With a step for every root and every link the guarded search returns the subtrees. -/
theorem visit_eq_subtrees (hlinks : ∀ row ∈ children, ∀ id ∈ row, id < children.length)
    (hroots : ∀ r ∈ roots, r < children.length) {steps : Nat}
    (hsteps : bound children roots ≤ steps) :
    Guarded.visit children steps roots [] = .ok (children.subtrees roots) := by
  have hin : ∀ a, ∀ b ∈ children.of a, b < children.length := by
    intro a b hb
    by_cases ha : a < children.length
    · have hrow : children.of a = children[a] := by simp [of, ha]
      rw [hrow] at hb
      exact hlinks _ (List.getElem_mem ha) b hb
    · rw [of_eq_nil ha] at hb
      cases hb
  have hleft : Search.left children ⟨roots, []⟩ ≤ bound children roots :=
    (left_start children roots).le
  obtain ⟨extra, rfl⟩ := Nat.exists_eq_add_of_le hsteps
  rw [Guarded.visit_eq hin _ _ _ hroots (hleft.trans hsteps),
    visit_add_fuel children extra _ _ _ hleft]
  rfl

/-- What is below types of the table is in the table. -/
theorem lt_length_of_below (hlinks : ∀ row ∈ children, ∀ id ∈ row, id < children.length)
    {r x : TypeId} (hr : r < children.length) (h : children.Below r x) : x < children.length := by
  cases h with
  | refl => exact hr
  | @tail a _ _ hchild =>
    obtain ⟨row, hrow, hx⟩ : ∃ row ∈ children, x ∈ row := by
      unfold Child of at hchild
      cases ha : children[a]? with
      | none => simp [ha] at hchild
      | some row => exact ⟨row, List.mem_of_getElem? ha, by simpa [ha] using hchild⟩
    exact hlinks row hrow x hx

/-- Two runs that work off their stacks see the same types, whichever entries they take. -/
theorem Runs.perm {n n' : Nat} {seen seen' : List TypeId}
    (h : Runs children n ⟨roots, []⟩ ⟨[], seen⟩) (h' : Runs children n' ⟨roots, []⟩ ⟨[], seen'⟩) :
    seen.Perm seen' := by
  have hcovers := (covers_start children roots).run h
  have hcovers' := (covers_start children roots).run h'
  rw [List.perm_ext_iff_of_nodup hcovers.once hcovers'.once]
  exact fun x => hcovers.mem_iff.trans hcovers'.mem_iff.symm

/-- The search for what is on a stack and below it comes to an end with exactly that. -/
structure Gathers (children : ChildTable) (roots : List TypeId) : Prop where
  /-- The search is not short of steps if it has one for every root and every link, and it reads no
  position outside the table. -/
  returns : ∀ steps, roots.length + children.flatten.length ≤ steps →
    Guarded.visit children steps roots [] = .ok (children.subtrees roots)
  exact : ∀ x, x ∈ children.subtrees roots ↔
    ∃ r ∈ roots, Relation.ReflTransGen (fun a b => b ∈ children.of a) r x
  once : (children.subtrees roots).Nodup
  inside : ∀ x ∈ children.subtrees roots, x < children.length
  /-- Whichever entries of the stack are taken, no run is longer, … -/
  bounded : ∀ n s, Runs children n ⟨roots, []⟩ s → n ≤ roots.length + children.flatten.length
  /-- … a run goes on until its stack is empty, … -/
  unblocked : ∀ n s, Runs children n ⟨roots, []⟩ s → s.stack ≠ [] → ∃ t, Step children s t
  /-- … and then it has seen the same types. -/
  anyOrder : ∀ n seen, Runs children n ⟨roots, []⟩ ⟨[], seen⟩ → seen.Perm (children.subtrees roots)

/-- On a table whose links stay inside it, the subtrees of some types of the table are exactly the
types that child links reach from them. -/
theorem gathers_subtrees (hlinks : ∀ row ∈ children, ∀ id ∈ row, id < children.length)
    (hroots : ∀ r ∈ roots, r < children.length) : Gathers children roots := by
  obtain ⟨n, hrun⟩ := subtrees_runs children roots
  have hcovers := (covers_start children roots).run hrun
  refine ⟨fun steps => visit_eq_subtrees hlinks hroots, fun x => mem_subtrees, hcovers.once,
    fun x hx => ?_, fun n s hs => ?_, fun _ _ _ => exists_step, fun n seen hs => hs.perm hrun⟩
  · obtain ⟨r, hr, hbelow⟩ := mem_subtrees.1 hx
    exact lt_length_of_below hlinks (hroots r hr) hbelow
  · have hleft := hs.left
    rw [left_start] at hleft
    exact (Nat.le_add_left n _).trans hleft.le

/-- Two cycles through a shared child, a child that is listed twice, a root that is listed twice, and
a cycle that no root reaches. -/
theorem gathers_subtrees_cycles :
    (∀ row ∈ ([[1, 1, 2], [2, 0], [1], [3], []] : ChildTable), ∀ id ∈ row, id < 5) ∧
      (∀ r ∈ ([2, 0, 2] : List TypeId), r < 5) ∧
      subtrees [[1, 1, 2], [2, 0], [1], [3], []] [2, 0, 2] = [2, 1, 0] ∧
      Gathers [[1, 1, 2], [2, 0], [1], [3], []] [2, 0, 2] := by
  refine ⟨by decide, by decide, by decide, ?_⟩
  exact gathers_subtrees (by decide) (by decide)

end TypeAtlas.ChildTable
