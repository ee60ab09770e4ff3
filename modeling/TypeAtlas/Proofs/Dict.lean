/-
Laws of dictionaries. A look-up finds exactly the stored row; an overlay binds what its upper part
binds and below that what its lower part binds, so of layers the last one that binds a key decides; a
dictionary laid over the empty one is itself, order included. Equality (`==`) is agreement of all
look-ups: it is an equivalence, overlays respect it, and what is collected over the entries of equal
dictionaries is equal up to order. Keys that come up again and again are kept where each came up first
(`eraseDups_concat`), and distinct keys are found by their position and sort a list into one part for
each key.
-/
import TypeAtlas.Dict
import Mathlib.Data.List.Induction
import Mathlib.Data.List.Nodup
import Mathlib.Data.List.Perm.Subperm

namespace TypeAtlas.Dict

variable {β : Type}

/-! ## Rows and look-ups -/

section Rows

variable {κ : Type} [BEq κ] [LawfulBEq κ]

theorem lookup_eq_none_of_not_mem {rows : List (κ × β)} {k : κ}
    (h : k ∉ rows.map Prod.fst) : rows.lookup k = none := by
  rw [List.lookup_eq_none_iff]
  intro row hrow
  have hne : k ≠ row.1 := by
    rintro rfl
    exact h (List.mem_map_of_mem hrow)
  simpa using hne

theorem lookup_eq_some_iff_mem {rows : List (κ × β)} (hn : (rows.map Prod.fst).Nodup)
    {k : κ} {v : β} : rows.lookup k = some v ↔ (k, v) ∈ rows := by
  induction rows with
  | nil => simp
  | cons row rows ih =>
    obtain ⟨r, w⟩ := row
    rw [List.map_cons, List.nodup_cons] at hn
    by_cases hk : k = r
    · subst hk
      have hnot : (k, v) ∉ rows := fun hm => hn.1 (List.mem_map.2 ⟨_, hm, rfl⟩)
      rw [List.lookup_cons_self, List.mem_cons, Option.some.injEq, Prod.mk.injEq]
      exact ⟨fun h => .inl ⟨rfl, h.symm⟩, fun h => (h.resolve_right hnot).2.symm⟩
    · have hb : (k == r) = false := beq_false_of_ne hk
      rw [List.lookup_cons, hb, List.mem_cons, Prod.mk.injEq]
      simp only [hk, false_and, false_or]
      exact ih hn.2

/-- Of the rows that pass a test, a look-up finds the row of the key if that passes. -/
theorem lookup_filter {rows : List (κ × β)} (hn : (rows.map Prod.fst).Nodup)
    (keep : κ → β → Bool) (k : κ) :
    (rows.filter fun row => keep row.1 row.2).lookup k = (rows.lookup k).filter (keep k) := by
  have hn' : ((rows.filter fun row => keep row.1 row.2).map Prod.fst).Nodup :=
    hn.sublist (List.filter_sublist.map Prod.fst)
  refine Option.ext fun v => ?_
  rw [lookup_eq_some_iff_mem hn', Option.filter_eq_some_iff, lookup_eq_some_iff_mem hn]
  exact List.mem_filter

end Rows

theorem get?_eq_some_iff (d : Dict β) {k : String} {v : β} :
    d.get? k = some v ↔ (k, v) ∈ d.entries :=
  lookup_eq_some_iff_mem d.keys_nodup

theorem mem_keys_iff (d : Dict β) {k : String} : k ∈ d.keys ↔ ∃ v, d.get? k = some v := by
  unfold keys
  rw [List.mem_map]
  constructor
  · rintro ⟨⟨_, v⟩, hm, rfl⟩
    exact ⟨v, (d.get?_eq_some_iff).2 hm⟩
  · rintro ⟨v, hv⟩
    exact ⟨(k, v), (d.get?_eq_some_iff).1 hv, rfl⟩

theorem length_keys (d : Dict β) : d.keys.length = d.size := List.length_map _

theorem nodup_keys (d : Dict β) : d.keys.Nodup := d.keys_nodup

theorem get?_filter (d : Dict β) (keep : String → β → Bool) (k : String) :
    (d.filter keep).get? k = (d.get? k).filter (keep k) :=
  lookup_filter d.keys_nodup keep k

/-! ## Keys in order -/

theorem nodup_eraseDups (l : List String) : l.eraseDups.Nodup := by
  -- the recursion goes on with a filtered tail, so the induction is on the length
  induction hn : l.length using Nat.strongRecOn generalizing l with
  | ind n ih =>
    cases l with
    | nil => exact List.nodup_nil
    | cons a as =>
      rw [List.eraseDups_cons, List.nodup_cons]
      have hlen : (as.filter fun b => !b == a).length < n := by
        have := List.length_filter_le (fun b => !b == a) as
        rw [← hn, List.length_cons]; omega
      refine ⟨fun hm => ?_, ih _ hlen _ rfl⟩
      rw [List.mem_eraseDups, List.mem_filter] at hm
      simp at hm

theorem eraseDups_concat (l : List String) (a : String) :
    (l ++ [a]).eraseDups = if a ∈ l then l.eraseDups else l.eraseDups ++ [a] := by
  rw [List.eraseDups_append]
  by_cases h : a ∈ l <;> simp [List.removeAll, List.eraseDups_cons, h]

/-- Where keys do not repeat, the position found for a key is that of the entry with this key. -/
theorem findIdx?_key_eq_some_iff {α : Type} {key : α → String} {l : List α}
    (hn : (l.map key).Nodup) {k : String} {i : Nat} :
    (l.findIdx? fun a => key a == k) = some i ↔ ∃ a, l[i]? = some a ∧ key a = k := by
  rw [List.findIdx?_eq_some_iff_getElem]
  constructor
  · rintro ⟨hlt, hkey, -⟩
    exact ⟨l[i], List.getElem?_eq_getElem hlt, by simpa using hkey⟩
  · rintro ⟨a, ha, rfl⟩
    obtain ⟨hlt, rfl⟩ := List.getElem?_eq_some_iff.1 ha
    refine ⟨hlt, by simp, fun j hj => ?_⟩
    have hne := List.pairwise_iff_getElem.1 hn j i (by simp; omega) (by simpa) hj
    simpa using hne

/-- The entries of a list, sorted into those of each key. -/
theorem perm_flatMap_filter {α κ : Type} [DecidableEq κ] (key : α → κ) {keys : List κ}
    (hn : keys.Nodup) {l : List α} (h : ∀ a ∈ l, key a ∈ keys) :
    l.Perm (keys.flatMap fun k => l.filter fun a => key a == k) := by
  induction keys generalizing l with
  | nil =>
    cases l with
    | nil => exact .nil
    | cons a l => cases h a List.mem_cons_self
  | cons k keys ih =>
    obtain ⟨hk, hn⟩ := List.nodup_cons.1 hn
    rw [List.flatMap_cons]
    refine (List.filter_append_perm (fun a => key a == k) l).symm.trans (.append_left _ ?_)
    have hrest := ih hn (l := l.filter fun a => !key a == k) fun a ha => by
      obtain ⟨hmem, hne⟩ := List.mem_filter.1 ha
      exact (List.mem_cons.1 (h a hmem)).resolve_left (by simpa using hne)
    refine hrest.trans (.of_eq (List.flatMap_congr fun k' hk' => ?_))
    rw [List.filter_filter]
    refine List.filter_congr fun a _ => ?_
    by_cases ha : key a = k'
    · have hne : k' ≠ k := fun h => hk (h ▸ hk')
      simp [ha, hne]
    · simp [ha]

/-! ## Overlays -/

theorem get?_insertAll (rows : List (String × β)) (hn : (rows.map Prod.fst).Nodup) (d : Dict β)
    (k : String) : (d.insertAll rows).get? k = (rows.lookup k).or (d.get? k) := by
  induction rows generalizing d with
  | nil => rfl
  | cons row rows ih =>
    obtain ⟨r, w⟩ := row
    rw [List.map_cons, List.nodup_cons] at hn
    show ((d.insert r w).insertAll rows).get? k = _
    rw [ih hn.2, get?_insert]
    by_cases hk : k = r
    · subst hk
      simp [lookup_eq_none_of_not_mem hn.1]
    · have hb : (k == r) = false := beq_false_of_ne hk
      simp [List.lookup_cons, hb, hk]

/-- An overlay binds what its upper part binds, and below that what its lower part binds. -/
theorem get?_overlay (d e : Dict β) (k : String) :
    (d.overlay e).get? k = (e.get? k).or (d.get? k) :=
  get?_insertAll e.entries e.keys_nodup d k

theorem put_of_not_mem {k : String} {v : β} {rows : List (String × β)}
    (h : k ∉ rows.map Prod.fst) : put k v rows = rows ++ [(k, v)] := by
  induction rows with
  | nil => rfl
  | cons row rows ih =>
    simp only [List.map_cons, List.mem_cons, not_or] at h
    rw [put, if_neg (Ne.symm h.1), ih h.2, List.cons_append]

/-- New rows go to the end, in their order. -/
theorem entries_insertAll (rows : List (String × β)) (d : Dict β)
    (hn : ((d.entries ++ rows).map Prod.fst).Nodup) :
    (d.insertAll rows).entries = d.entries ++ rows := by
  induction rows generalizing d with
  | nil => exact (List.append_nil _).symm
  | cons row rows ih =>
    obtain ⟨r, w⟩ := row
    have hr : r ∉ d.entries.map Prod.fst := by
      rw [List.map_append, List.map_cons, List.nodup_append] at hn
      exact fun hm => hn.2.2 r hm r List.mem_cons_self rfl
    have he : (d.insert r w).entries = d.entries ++ [(r, w)] := put_of_not_mem hr
    show ((d.insert r w).insertAll rows).entries = _
    rw [ih (d.insert r w) (by rw [he, List.append_assoc]; exact hn), he, List.append_assoc]
    rfl

/-- A dictionary laid over the empty one is itself, order included. -/
@[simp]
theorem empty_overlay (d : Dict β) : (empty : Dict β).overlay d = d := by
  have h : ((empty : Dict β).overlay d).entries = d.entries :=
    entries_insertAll d.entries empty d.keys_nodup
  cases d
  cases ho : (empty : Dict β).overlay _
  rw [ho] at h
  simp only at h
  subst h
  rfl

/-! ## Layers -/

theorem ofList_append_entries (rows : List (String × β)) (d : Dict β) :
    ofList (rows ++ d.entries) = (ofList rows).overlay d := List.foldl_append

theorem ofList_entries (d : Dict β) : ofList d.entries = d := empty_overlay d

/-- Of dictionaries written one over the other, the last one that binds a key gives its value. -/
theorem get?_ofList_flatMap {α : Type} (f : α → Dict β) (l : List α) (k : String) :
    (ofList (l.flatMap fun a => (f a).entries)).get? k =
      l.reverse.findSome? fun a => (f a).get? k := by
  induction l using List.reverseRecOn with
  | nil => rfl
  | append_singleton l a ih =>
    rw [List.flatMap_append, List.flatMap_singleton, ofList_append_entries, get?_overlay, ih,
      List.reverse_append, List.reverse_singleton, List.findSome?_append, List.findSome?_singleton]

theorem values_map_key (d : Dict β) {key : β → String}
    (h : ∀ k v, d.get? k = some v → key v = k) :
    (d.values.map fun v => (key v, v)) = d.entries := by
  unfold values
  rw [List.map_map]
  conv_rhs => rw [← List.map_id d.entries]
  refine List.map_congr_left fun row hrow => ?_
  show (key row.2, row.2) = row
  rw [h row.1 row.2 (d.get?_eq_some_iff.2 hrow)]

/-! ## Equality up to order -/

theorem keys_perm_of_subset_of_size {d : Dict β} {γ : Type} {e : Dict γ} (hs : d.keys ⊆ e.keys)
    (hl : d.size = e.size) : d.keys.Perm e.keys := by
  have hlen : d.keys.length = e.keys.length := by rw [length_keys, length_keys, hl]
  exact (d.nodup_keys.subperm hs).perm_of_length_le (Nat.le_of_eq hlen.symm)

theorem keys_perm_of_get? [BEq β] {d e : Dict β} (h : ∀ k, (d.get? k == e.get? k) = true) :
    d.keys.Perm e.keys := by
  refine (List.perm_ext_iff_of_nodup d.nodup_keys e.nodup_keys).2 fun k => ?_
  rw [mem_keys_iff, mem_keys_iff]
  have := h k
  cases hv : d.get? k <;> cases hw : e.get? k <;> simp_all

/-- Two dictionaries are equal when every look-up finds equal values, or nothing in both. -/
theorem beq_iff_get? [BEq β] (d e : Dict β) :
    (d == e) = true ↔ ∀ k, (d.get? k == e.get? k) = true := by
  show sameBindings d e = true ↔ _
  unfold sameBindings
  simp only [Bool.and_eq_true, beq_iff_eq, List.all_eq_true]
  constructor
  · rintro ⟨hs, hrows⟩ k
    have hrow : ∀ k v, d.get? k = some v → ∃ w, e.get? k = some w ∧ (v == w) = true := by
      intro k v hv
      have := hrows (k, v) ((d.get?_eq_some_iff).1 hv)
      cases hw : e.get? k with
      | none => simp [hw] at this
      | some w => exact ⟨w, rfl, by simpa [hw] using this⟩
    have hsub : d.keys ⊆ e.keys := by
      intro k hk
      obtain ⟨v, hv⟩ := d.mem_keys_iff.1 hk
      obtain ⟨w, hw, -⟩ := hrow k v hv
      exact e.mem_keys_iff.2 ⟨w, hw⟩
    -- of equal size, the keys of `d` are all the keys of `e`
    have hperm := keys_perm_of_subset_of_size hsub hs
    cases hv : d.get? k with
    | some v =>
      obtain ⟨w, hw, hvw⟩ := hrow k v hv
      rw [hw]; exact hvw
    | none =>
      cases hw : e.get? k with
      | none => rfl
      | some w =>
        obtain ⟨v, hv'⟩ := d.mem_keys_iff.1 (hperm.mem_iff.2 (e.mem_keys_iff.2 ⟨w, hw⟩))
        rw [hv] at hv'; cases hv'
  · intro h
    have hperm := keys_perm_of_get? h
    refine ⟨by rw [← length_keys, ← length_keys]; exact hperm.length_eq, ?_⟩
    rintro ⟨k, v⟩ hm
    have := h k
    rw [(d.get?_eq_some_iff).2 hm] at this
    cases hw : e.get? k with
    | none => rw [hw] at this; cases this
    | some w => rw [hw] at this; exact this

theorem keys_perm_of_beq [BEq β] {d e : Dict β} (h : (d == e) = true) : d.keys.Perm e.keys :=
  keys_perm_of_get? ((beq_iff_get? d e).1 h)

theorem option_beq_symm [BEq β] [PartialEquivBEq β] {a b : Option β} (h : (a == b) = true) :
    (b == a) = true := by
  cases a <;> cases b <;> simp_all [BEq.comm]

theorem option_beq_trans [BEq β] [PartialEquivBEq β] {a b c : Option β} (h : (a == b) = true)
    (h' : (b == c) = true) : (a == c) = true := by
  cases a <;> cases b <;> cases c <;> simp_all
  exact BEq.trans h h'

instance [BEq β] [EquivBEq β] : EquivBEq (Dict β) where
  rfl := (beq_iff_get? _ _).2 fun _ => BEq.rfl
  symm h := (beq_iff_get? _ _).2 fun k => option_beq_symm ((beq_iff_get? _ _).1 h k)
  trans h h' := (beq_iff_get? _ _).2 fun k =>
    option_beq_trans ((beq_iff_get? _ _).1 h k) ((beq_iff_get? _ _).1 h' k)

/-- Overlays of equal dictionaries are equal. -/
theorem overlay_beq [BEq β] {d d' e e' : Dict β} (hd : (d == d') = true) (he : (e == e') = true) :
    (d.overlay e == d'.overlay e') = true := by
  rw [beq_iff_get?] at hd he ⊢
  intro k
  rw [get?_overlay, get?_overlay]
  have := he k
  cases hv : e.get? k <;> cases hw : e'.get? k <;> simp_all

/-- Collecting over the entries is collecting over the keys with their look-ups. -/
theorem flatMap_entries {γ : Type} (d : Dict β) (f : String → Option β → List γ) :
    d.entries.flatMap (fun row => f row.1 (some row.2)) = d.keys.flatMap fun k => f k (d.get? k) := by
  unfold keys
  rw [List.flatMap_map]
  refine List.flatMap_congr fun row hrow => ?_
  rw [(d.get?_eq_some_iff).2 hrow]

/-- What is collected over equal dictionaries is equal up to order, if equal values contribute the
same. -/
theorem flatMap_entries_perm [BEq β] {γ : Type} {d e : Dict β} (h : (d == e) = true)
    {f g : String → Option β → List γ}
    (hfg : ∀ k a b, (a == b) = true → f k a = g k b) :
    (d.entries.flatMap fun row => f row.1 (some row.2)).Perm
      (e.entries.flatMap fun row => g row.1 (some row.2)) := by
  rw [flatMap_entries, flatMap_entries]
  have hrow : (d.keys.flatMap fun k => f k (d.get? k)) = d.keys.flatMap fun k => g k (e.get? k) :=
    List.flatMap_congr fun k _ => hfg k _ _ ((beq_iff_get? d e).1 h k)
  rw [hrow]
  exact (keys_perm_of_beq h).flatMap_right _

end TypeAtlas.Dict
