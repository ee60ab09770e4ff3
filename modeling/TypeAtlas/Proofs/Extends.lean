/-
The extends graph of an outline: each item type has at most one parent item, so the ways up from a
type form a single line. A type on a cycle never leaves it, and every type it leads to leads back.
-/
import TypeAtlas.Model.Outline
import Mathlib.Logic.Relation

namespace TypeAtlas.Outline

/-- The item type at a position, with its own members. -/
def item? (o : Outline) (id : TypeId) : Option (Merged × ItemData) :=
  o.types[id]?.bind fun m => m.data.item?.map fun own => (m, own)

/-- `b` is the parent item of `a`. -/
def Up (o : Outline) (a b : TypeId) : Prop := o.parentItem? a = some b

/-- `b` is `a` or above it. -/
def Leads (o : Outline) : TypeId → TypeId → Prop := Relation.ReflTransGen o.Up

/-- `a` is above itself. -/
def OnCycle (o : Outline) (a : TypeId) : Prop := Relation.TransGen o.Up a a

/-- The positions of types are their ids, and parent links join item types. -/
structure WF (o : Outline) : Prop where
  id : ∀ {i : TypeId} {m : Merged}, o.types[i]? = some m → m.id = i
  child : ∀ {a b : TypeId}, o.Up a b → (o.item? a).isSome
  parent : ∀ {a b : TypeId}, o.Up a b → (o.item? b).isSome

/-- Every type has its entries in the tables of links. -/
structure Tabled (o : Outline) : Prop where
  parents : o.parents.length = o.types.length
  ownEnds : o.ownEnds.length = o.types.length

/-! ## Outlines of types -/

theorem item?_eq_some {o : Outline} {id : TypeId} {m : Merged} {own : ItemData} :
    o.item? id = some (m, own) ↔ o.types[id]? = some m ∧ m.data = .item own := by
  unfold item?
  rw [Option.bind_eq_some_iff]
  constructor
  · rintro ⟨m', hm, h⟩
    cases hd : m'.data <;> simp [hd, TypeData.item?] at h
    obtain ⟨rfl, rfl⟩ := h
    exact ⟨hm, hd⟩
  · rintro ⟨hm, hd⟩
    exact ⟨m, hm, by simp [hd, TypeData.item?]⟩

theorem item?_isSome_iff {o : Outline} {id : TypeId} :
    (o.item? id).isSome ↔ ∃ m, o.types[id]? = some m ∧ m.isItem = true := by
  rw [Option.isSome_iff_exists]
  constructor
  · rintro ⟨⟨m, own⟩, h⟩
    obtain ⟨hm, hd⟩ := item?_eq_some.1 h
    exact ⟨m, hm, by simp [Merged.isItem, Merged.kind, hd, TypeData.kind]⟩
  · rintro ⟨m, hm, hi⟩
    cases hd : m.data with
    | item own => exact ⟨(m, own), item?_eq_some.2 ⟨hm, hd⟩⟩
    | _ => simp [Merged.isItem, Merged.kind, hd, TypeData.kind] at hi

theorem WF.id_of_item {o : Outline} (hw : o.WF) {id : TypeId} {m : Merged} {own : ItemData}
    (hi : o.item? id = some (m, own)) : m.id = id :=
  hw.id (item?_eq_some.1 hi).1

theorem WF.getElem?_id {o : Outline} (hw : o.WF) {m : Merged} (hm : m ∈ o.types) :
    o.types[m.id]? = some m := by
  obtain ⟨i, hi⟩ := List.mem_iff_getElem?.1 hm
  rw [hw.id hi]
  exact hi

theorem WF.pairwise_map_id {o : Outline} (hw : o.WF) :
    (o.types.map Merged.id).Pairwise (· < ·) := by
  rw [List.pairwise_iff_getElem]
  intro i j hi hj hij
  have hid : ∀ k (hk : k < o.types.length), o.types[k].id = k := fun k hk =>
    hw.id (List.getElem?_eq_getElem hk)
  rw [List.getElem_map, List.getElem_map, hid, hid]
  exact hij

theorem lt_length_of_item? {o : Outline} {id : TypeId} (h : (o.item? id).isSome) :
    id < o.types.length := by
  obtain ⟨m, hm, -⟩ := item?_isSome_iff.1 h
  exact (List.getElem?_eq_some_iff.1 hm).1

theorem parent_ofTypes (types : List Merged) {id : TypeId} {m : Merged}
    (h : types[id]? = some m) : (ofTypes types).parent id = parentIn types m := by
  simp [parent, ofTypes, h]

theorem up_iff_parent {o : Outline} {a b : TypeId} : o.Up a b ↔ o.parent a = .item b := by
  unfold Up parentItem?
  cases o.parent a <;> simp

theorem parentIn_of_item {types : List Merged} {m : Merged} {own : ItemData}
    (hd : m.data = .item own) :
    parentIn types m =
      match own.parent with
      | none => .none
      | some link =>
        match idOf? types link.code with
        | some id => if (types[id]?).any Merged.isItem then .item id else .missing link.code
        | none => .missing link.code := by
  unfold parentIn
  rw [hd]
  rfl

/-- A type that resolves to a parent item is an item type and declares the parent's code. -/
theorem parentIn_eq_item {types : List Merged} {m : Merged} {p : TypeId}
    (h : parentIn types m = .item p) :
    ∃ own link q, m.data = .item own ∧ own.parent = some link ∧ idOf? types link.code = some p ∧
      types[p]? = some q ∧ q.isItem = true := by
  cases hd : m.data with
  | item own =>
    rw [parentIn_of_item hd] at h
    cases hl : own.parent with
    | none => rw [hl] at h; cases h
    | some link =>
      simp only [hl] at h
      split at h
      · rename_i hq
        split at h
        · rename_i hi
          cases h
          obtain ⟨q, hp, hqi⟩ := (Option.any_eq_true _ _).1 hi
          exact ⟨own, link, q, rfl, hl, hq, hp, hqi⟩
        · cases h
      · cases h
  | _ => simp [parentIn, hd, TypeData.item?] at h

/-- An item type declares the parent it misses. -/
theorem parentIn_eq_missing {types : List Merged} {m : Merged} {own : ItemData} {code : String}
    (hd : m.data = .item own) (h : parentIn types m = .missing code) :
    ∃ location, own.parent = some ⟨code, location⟩ := by
  rw [parentIn_of_item hd] at h
  cases hl : own.parent with
  | none => rw [hl] at h; cases h
  | some link =>
    simp only [hl] at h
    split at h
    · split at h
      · cases h
      · cases h; exact ⟨link.location, rfl⟩
    · cases h; exact ⟨link.location, rfl⟩

/-- The outline of a table whose positions are the ids is well formed. -/
theorem wf_ofTypes {types : List Merged}
    (hid : ∀ {i : TypeId} {m : Merged}, types[i]? = some m → m.id = i) : (ofTypes types).WF := by
  have hlink : ∀ {a b : TypeId}, (ofTypes types).Up a b → ∃ m, types[a]? = some m ∧
      parentIn types m = .item b := by
    intro a b h
    rw [up_iff_parent] at h
    cases hm : types[a]? with
    | none => simp [parent, ofTypes, hm] at h
    | some m => exact ⟨m, rfl, by rw [← parent_ofTypes types hm]; exact h⟩
  refine ⟨hid, fun h => ?_, fun h => ?_⟩
  · obtain ⟨m, hm, hp⟩ := hlink h
    obtain ⟨own, -, -, hd, -⟩ := parentIn_eq_item hp
    exact Option.isSome_iff_exists.2 ⟨(m, own), item?_eq_some.2 ⟨hm, hd⟩⟩
  · obtain ⟨m, hm, hp⟩ := hlink h
    obtain ⟨-, -, q, -, -, -, hq, hi⟩ := parentIn_eq_item hp
    exact item?_isSome_iff.2 ⟨q, hq, hi⟩

theorem tabled_ofTypes (types : List Merged) : (ofTypes types).Tabled :=
  ⟨List.length_map _, List.length_map _⟩

/-! ## Ways up -/

theorem Up.unique {o : Outline} {a b c : TypeId} (hb : o.Up a b) (hc : o.Up a c) : b = c :=
  Option.some.inj (hb.symm.trans hc)

theorem not_up_of_top {o : Outline} {a b : TypeId} (h : o.parentItem? a = none) : ¬o.Up a b := by
  intro hup
  rw [show o.parentItem? a = some b from hup] at h
  cases h

theorem OnCycle.up {o : Outline} {a : TypeId} (h : o.OnCycle a) : ∃ b, o.Up a b := by
  obtain ⟨b, hab, -⟩ := Relation.TransGen.head'_iff.1 h
  exact ⟨b, hab⟩

theorem not_onCycle_of_top {o : Outline} {a : TypeId} (h : o.parentItem? a = none) :
    ¬o.OnCycle a := by
  intro hon
  obtain ⟨b, hab⟩ := hon.up
  exact not_up_of_top h hab

/-- The parent of a type on a cycle leads back to it. -/
theorem OnCycle.leads_back {o : Outline} {a b : TypeId} (h : o.OnCycle a) (hab : o.Up a b) :
    o.Leads b a := by
  obtain ⟨c, hac, hca⟩ := Relation.TransGen.head'_iff.1 h
  exact (hab.unique hac) ▸ hca

theorem onCycle_of_up_of_leads {o : Outline} {a b : TypeId} (hab : o.Up a b) (hba : o.Leads b a) :
    o.OnCycle a :=
  Relation.TransGen.head' hab hba

/-- What a type on a cycle leads to is on the cycle too, and leads back. -/
theorem OnCycle.of_leads {o : Outline} {a b : TypeId} (h : o.OnCycle a) (hab : o.Leads a b) :
    o.OnCycle b ∧ o.Leads b a := by
  induction hab with
  | refl => exact ⟨h, .refl⟩
  | tail _ hbc ih =>
    obtain ⟨hb, hba⟩ := ih
    have hcb := hb.leads_back hbc
    exact ⟨Relation.TransGen.tail' hcb hbc, hcb.trans hba⟩

end TypeAtlas.Outline
