/-
Insertion-ordered dictionaries keyed by text. A new key goes to the end, an overwritten key keeps
its position, and two dictionaries are equal (`==`) when they bind the same keys to equal values,
whatever the order. The key list never repeats a key, so a look-up has at most one answer.
-/

namespace TypeAtlas

/-- An insertion-ordered dictionary with text keys. -/
structure Dict (β : Type) where
  entries : List (String × β)
  keys_nodup : (entries.map Prod.fst).Nodup

namespace Dict

variable {β : Type}

/-! ## Rows -/

section Rows

variable {κ : Type} [DecidableEq κ]

/-- Replaces the row of `k` where it stands, or adds one at the end. -/
def put (k : κ) (v : β) : List (κ × β) → List (κ × β)
  | [] => [(k, v)]
  | row :: rows => if row.1 = k then (k, v) :: rows else row :: put k v rows

/-- The keys after `put`: as before if `k` was bound, else with `k` added at the end. -/
theorem keys_put (k : κ) (v : β) (rows : List (κ × β)) :
    (put k v rows).map Prod.fst =
      if k ∈ rows.map Prod.fst then rows.map Prod.fst else rows.map Prod.fst ++ [k] := by
  induction rows with
  | nil => rfl
  | cons row rows ih =>
    by_cases h : row.1 = k
    · simp [put, h]
    · have h' : ¬k = row.1 := fun e => h e.symm
      simp only [put, h, if_false, List.map_cons, ih, List.mem_cons, h', false_or]
      split <;> rfl

/-- After `put` the key `k` is bound to `v` and every other key to what it was bound to. -/
theorem lookup_put (k : κ) (v : β) (rows : List (κ × β)) (k' : κ) :
    (put k v rows).lookup k' = if k' = k then some v else rows.lookup k' := by
  induction rows with
  | nil =>
    by_cases h : k' = k
    · simp [put, h]
    · have hb : (k' == k) = false := beq_false_of_ne h
      simp [put, List.lookup_cons, h, hb]
  | cons row rows ih =>
    obtain ⟨r, w⟩ := row
    by_cases hr : r = k
    · subst hr
      by_cases h : k' = r
      · simp [put, h]
      · have hb : (k' == r) = false := beq_false_of_ne h
        simp [put, List.lookup_cons, h, hb]
    · by_cases h : k' = r
      · subst h
        simp [put, hr]
      · have hb : (k' == r) = false := beq_false_of_ne h
        simp [put, hr, List.lookup_cons, hb, ih]

/-- Putting a row keeps the keys apart. -/
theorem nodup_put (k : κ) (v : β) {rows : List (κ × β)}
    (h : (rows.map Prod.fst).Nodup) : ((put k v rows).map Prod.fst).Nodup := by
  rw [keys_put]
  split
  · exact h
  · rename_i hk
    rw [List.nodup_append]
    refine ⟨h, by simp, ?_⟩
    intro a ha b hb
    rw [List.mem_singleton] at hb
    exact fun e => hk (hb ▸ e ▸ ha)

end Rows

/-! ## Operations -/

/-- The dictionary without entries. -/
def empty : Dict β := ⟨[], List.nodup_nil⟩

instance : Inhabited (Dict β) := ⟨empty⟩

/-- Number of entries. -/
def size (d : Dict β) : Nat := d.entries.length

/-- Keys in order of first insertion. -/
def keys (d : Dict β) : List String := d.entries.map Prod.fst

/-- Values in key order. -/
def values (d : Dict β) : List β := d.entries.map Prod.snd

/-- The value bound to `k`. -/
def get? (d : Dict β) (k : String) : Option β := d.entries.lookup k

/-- Binds `k` to `v`; a bound key keeps its position. -/
def insert (d : Dict β) (k : String) (v : β) : Dict β :=
  ⟨put k v d.entries, nodup_put k v d.keys_nodup⟩

/-- Binds `k` to `v` unless `k` is bound already. -/
def insertNew (d : Dict β) (k : String) (v : β) : Dict β :=
  if (d.get? k).isSome then d else d.insert k v

/-- Inserts the pairs one after another. -/
def insertAll (d : Dict β) (rows : List (String × β)) : Dict β :=
  rows.foldl (fun acc row => acc.insert row.1 row.2) d

/-- The dictionary of the pairs; of two pairs with one key the later gives the value. -/
def ofList (rows : List (String × β)) : Dict β := empty.insertAll rows

/-- `e` written over `d`. -/
def overlay (d e : Dict β) : Dict β := d.insertAll e.entries

/-- Keeps the entries that pass the test. -/
def filter (d : Dict β) (keep : String → β → Bool) : Dict β :=
  ⟨d.entries.filter fun row => keep row.1 row.2,
    (d.keys_nodup).sublist (List.filter_sublist.map Prod.fst)⟩

/-! ## Look-ups -/

@[simp]
theorem get?_empty (k : String) : (empty : Dict β).get? k = none := rfl

theorem get?_insert (d : Dict β) (k : String) (v : β) (k' : String) :
    (d.insert k v).get? k' = if k' = k then some v else d.get? k' :=
  lookup_put k v d.entries k'

theorem keys_insert (d : Dict β) (k : String) (v : β) :
    (d.insert k v).keys = if k ∈ d.keys then d.keys else d.keys ++ [k] :=
  keys_put k v d.entries

/-! ## Equality -/

/-- Same keys, bound to equal values: the order of the entries does not count. -/
def sameBindings [BEq β] (d e : Dict β) : Bool :=
  d.size == e.size && d.entries.all fun row =>
    match e.get? row.1 with
    | some v => row.2 == v
    | none => false

instance [BEq β] : BEq (Dict β) := ⟨sameBindings⟩

end Dict

end TypeAtlas
