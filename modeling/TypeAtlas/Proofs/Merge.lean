/-
The table of merged types: it has one type for each declared code, in order of first declaration, and
the position of a type is its id. In a merged item type the key of an attribute is its qualifier, the
key of an index its name, and both name the type as their owner.
-/
import TypeAtlas.Proofs.Dict
import TypeAtlas.Model.Merge

namespace TypeAtlas

/-- The merged types of groups, by position. -/
def Merge.types (groups : List Group) : List Merged :=
  (Merge.all (Merge.declarations groups)).map Prod.fst

namespace Merge

/-! ## Codes and positions -/

theorem nodup_codes (ds : List Declaration) : (codes ds).Nodup := Dict.nodup_eraseDups _

theorem mem_codes {ds : List Declaration} {code : String} :
    code ∈ codes ds ↔ ∃ d ∈ ds, d.code = code := by
  unfold codes
  rw [List.mem_eraseDups, List.mem_map]

theorem getElem?_filterMap_of_isSome {α β : Type} {f : α → Option β} :
    ∀ {l : List α}, (∀ a ∈ l, (f a).isSome) → ∀ i : Nat, (l.filterMap f)[i]? = l[i]?.bind f
  | [], _, _ => rfl
  | a :: l, h, i => by
    obtain ⟨b, hb⟩ := Option.isSome_iff_exists.1 (h a List.mem_cons_self)
    rw [List.filterMap_cons, hb]
    cases i with
    | zero => simp [hb]
    | succ i =>
      simpa using getElem?_filterMap_of_isSome (fun a ha => h a (List.mem_cons_of_mem _ ha)) i

/-- Every declared code has a type. -/
theorem type?_isSome {ds : List Declaration} {code : String} (h : code ∈ codes ds) (id : TypeId) :
    (type? id code (ds.filter fun d => d.code == code)).isSome := by
  obtain ⟨d, hd, hc⟩ := mem_codes.1 h
  have hne : (ds.filter fun d => d.code == code) ≠ [] :=
    List.ne_nil_of_mem (List.mem_filter.2 ⟨hd, by simpa using hc⟩)
  unfold type?
  rw [Option.isSome_map, List.getLast?_isSome]
  exact hne

/-- The types are those of the declared codes, by position. -/
theorem all_getElem? (ds : List Declaration) (i : Nat) :
    (all ds)[i]? =
      (codes ds)[i]?.bind fun code => type? i code (ds.filter fun d => d.code == code) := by
  unfold all
  rw [getElem?_filterMap_of_isSome, List.getElem?_zipIdx]
  · cases (codes ds)[i]? <;> simp
  · rintro ⟨code, id⟩ hm
    exact type?_isSome (List.fst_mem_of_mem_zipIdx hm) id

theorem type?_eq_some {id : TypeId} {code : String} {ds : List Declaration} {m : Merged}
    {findings : List Diagnostic} (h : type? id code ds = some (m, findings)) :
    m.id = id ∧ m.code = code ∧
      ∃ winner, m.data = (data code winner (contributing winner ds)).1 := by
  unfold type? at h
  obtain ⟨winner, -, hm⟩ := Option.map_eq_some_iff.1 h
  simp only [Prod.mk.injEq] at hm
  obtain ⟨rfl, -⟩ := hm
  exact ⟨rfl, rfl, winner, rfl⟩

/-- A merged type at its position: its id is the position, its code the declared one, and its data
that of some of the code's declarations. -/
theorem types_eq_some {groups : List Group} {i : Nat} {m : Merged}
    (h : (types groups)[i]? = some m) :
    m.id = i ∧ (codes (declarations groups))[i]? = some m.code ∧
      ∃ winner ds, m.data = (data m.code winner ds).1 := by
  unfold types at h
  rw [List.getElem?_map, all_getElem?] at h
  obtain ⟨⟨m', findings⟩, hm, rfl⟩ := Option.map_eq_some_iff.1 h
  obtain ⟨code, hcode, hm⟩ := Option.bind_eq_some_iff.1 hm
  obtain ⟨hid, rfl, winner, hdata⟩ := type?_eq_some hm
  exact ⟨hid, hcode, winner, _, hdata⟩

theorem types_id {groups : List Group} {i : Nat} {m : Merged}
    (h : (types groups)[i]? = some m) : m.id = i := (types_eq_some h).1

theorem map_code_types (groups : List Group) :
    (types groups).map Merged.code = codes (declarations groups) := by
  refine List.ext_getElem? fun i => ?_
  unfold types
  rw [List.getElem?_map, List.getElem?_map, all_getElem?]
  cases hc : (codes (declarations groups))[i]? with
  | none => rfl
  | some code =>
    obtain ⟨⟨m, findings⟩, hm⟩ :=
      Option.isSome_iff_exists.1 (type?_isSome (List.mem_of_getElem? hc) i)
    rw [Option.bind_some, hm]
    exact congrArg some (type?_eq_some hm).2.1

/-- No two types share a code. -/
theorem nodup_types_code (groups : List Group) : ((types groups).map Merged.code).Nodup := by
  rw [map_code_types]
  exact nodup_codes _

/-! ## Members of a merged item type -/

/-- Members are kept under their own names and name the type with this code as their owner. -/
structure Keyed (code : String) (data : ItemData) : Prop where
  attributes : ∀ k a, data.attributes.get? k = some a → a.qualifier = k ∧ a.owner = code
  indexes : ∀ k i, data.indexes.get? k = some i → i.name = k ∧ i.owner = code

theorem keyed_empty (code : String) : Keyed code {} :=
  ⟨fun _ _ h => (by cases h), fun _ _ h => (by cases h)⟩

theorem keyed_addParent {code : String} {location : Location} {p : Progress} (h : Keyed code p.data)
    (parent : Option String) : Keyed code (addParent code location p parent).data := by
  cases parent with
  | none => exact h
  | some parent => exact ⟨h.attributes, h.indexes⟩

theorem keyed_addAttribute {code : String} {p : Progress} (h : Keyed code p.data)
    (a : AttributeDecl) : Keyed code (addAttribute code p a).data := by
  refine ⟨fun k b hb => ?_, h.indexes⟩
  simp only [addAttribute, Dict.get?_insert] at hb
  split at hb
  · rename_i hk
    cases hb
    exact ⟨hk.symm, rfl⟩
  · exact h.attributes k b hb

theorem keyed_addIndex {code : String} {p : Progress} (h : Keyed code p.data) (i : IndexDecl) :
    Keyed code (addIndex code p i).data := by
  refine ⟨h.attributes, fun k j hj => ?_⟩
  simp only [addIndex, Dict.get?_insert] at hj
  split at hj
  · rename_i hk
    cases hj
    exact ⟨hk.symm, rfl⟩
  · exact h.indexes k j hj

theorem foldl_keyed {α : Type} {code : String} {step : Progress → α → Progress}
    (hs : ∀ p a, Keyed code p.data → Keyed code (step p a).data) (l : List α) (p : Progress)
    (h : Keyed code p.data) : Keyed code (l.foldl step p).data := by
  induction l generalizing p with
  | nil => exact h
  | cons a l ih => exact ih (step p a) (hs p a h)

theorem keyed_addItem {code : String} {p : Progress} (h : Keyed code p.data) (d : Declaration) :
    Keyed code (addItem code p d).data := by
  unfold addItem
  split
  · exact foldl_keyed (fun _ i h => keyed_addIndex h i) _ _
      (foldl_keyed (fun _ a h => keyed_addAttribute h a) _ _ (keyed_addParent h _))
  · exact h

/-- The members of a merged item type are kept under their own names and owned by it. -/
theorem keyed_of_types {groups : List Group} {i : Nat} {m : Merged} {own : ItemData}
    (h : (types groups)[i]? = some m) (hd : m.data = .item own) : Keyed m.code own := by
  obtain ⟨-, -, winner, ds, hdata⟩ := types_eq_some h
  rw [hd] at hdata
  unfold data at hdata
  split at hdata
  · cases hdata
    exact foldl_keyed (fun _ d h => keyed_addItem h d) ds {} (keyed_empty _)
  all_goals cases hdata

end Merge

end TypeAtlas
