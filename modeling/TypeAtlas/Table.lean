/-
Insertion-ordered tables with keys of any type. A new key goes to the end, and an overwritten key
keeps its position. A row is taken out in one of two ways: the rows after it move up, or the last row
takes its place. No key is ever bound twice.
-/
import TypeAtlas.Dict

namespace TypeAtlas

/-- An insertion-ordered table. -/
structure Table (κ β : Type) where
  rows : List (κ × β)
  keys_nodup : (rows.map Prod.fst).Nodup

namespace Table

variable {κ β : Type}

/-- The table without rows. -/
def empty : Table κ β := ⟨[], List.nodup_nil⟩

/-- Number of rows. -/
def size (t : Table κ β) : Nat := t.rows.length

/-- Values in the order of the rows. -/
def values (t : Table κ β) : List β := t.rows.map Prod.snd

/-- The value at a position. -/
def at? (t : Table κ β) (position : Nat) : Option β := t.values[position]?

variable [DecidableEq κ]

/-- The value bound to `k`. -/
def get? (t : Table κ β) (k : κ) : Option β := t.rows.lookup k

/-- Binds `k` to `v`; a bound key keeps its position. -/
def insert (t : Table κ β) (k : κ) (v : β) : Table κ β :=
  ⟨Dict.put k v t.rows, Dict.nodup_put k v t.keys_nodup⟩

/-! ## Removal -/

/-- Takes out the row of `k`; the rows after it move up. -/
def shiftOut (k : κ) (rows : List (κ × β)) : List (κ × β) := rows.eraseP fun row => row.1 == k

/-- Takes out the row of `k`; the last row takes its place. -/
def swapOut (k : κ) : List (κ × β) → List (κ × β)
  | [] => []
  | row :: rows =>
    if row.1 = k then
      match rows.getLast? with
      | none => []
      | some last => last :: rows.dropLast
    else row :: swapOut k rows

/-- Both ways to take out a row leave the same rows. -/
theorem swapOut_perm (k : κ) (rows : List (κ × β)) : (swapOut k rows).Perm (shiftOut k rows) := by
  induction rows with
  | nil => exact .nil
  | cons row rows ih =>
    unfold swapOut shiftOut
    by_cases hk : row.1 = k
    · rw [if_pos hk, List.eraseP_cons, beq_iff_eq.2 hk, cond_true]
      split
      next hlast => rw [List.getLast?_eq_none_iff.1 hlast]
      next last hlast =>
        obtain ⟨before, rfl⟩ := List.getLast?_eq_some_iff.1 hlast
        rw [List.dropLast_concat]
        exact (List.perm_append_singleton last before).symm
    · rw [if_neg hk, List.eraseP_cons, beq_eq_false_iff_ne.2 hk, cond_false]
      exact ih.cons row

theorem nodup_shiftOut (k : κ) {rows : List (κ × β)} (h : (rows.map Prod.fst).Nodup) :
    ((shiftOut k rows).map Prod.fst).Nodup :=
  h.sublist (List.eraseP_sublist.map Prod.fst)

theorem nodup_swapOut (k : κ) {rows : List (κ × β)} (h : (rows.map Prod.fst).Nodup) :
    ((swapOut k rows).map Prod.fst).Nodup :=
  ((swapOut_perm k rows).map Prod.fst).symm.nodup (nodup_shiftOut k h)

/-- Removes the row of `k`, with the value that it had; the order of the others stays. -/
def shiftRemove (t : Table κ β) (k : κ) : Option β × Table κ β :=
  (t.get? k, ⟨shiftOut k t.rows, nodup_shiftOut k t.keys_nodup⟩)

/-- Removes the row of `k`, with the value that it had; the last row moves to its position. -/
def swapRemove (t : Table κ β) (k : κ) : Option β × Table κ β :=
  (t.get? k, ⟨swapOut k t.rows, nodup_swapOut k t.keys_nodup⟩)

end Table

end TypeAtlas
