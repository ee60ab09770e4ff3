/-
The merge rules, field by field. Whatever number of declarations a code has, the last one gives the
kind and the place, and of the declarations of that kind, in order: properties, attributes and
indexes stand where their key came up first and have their last value; the literals of an
enumeration keep their first place; the last declared parent wins; one dynamic declaration makes an
enumeration dynamic; and a relation, a collection or a map type is its last declaration.

Keyed members are described by the rows that the declarations contribute, one after another
(`Dict.LastWins`, `Dict.FirstWins`); these descriptions are the invariants of the merge loops, with
the declarations merged so far as their index.
-/
import TypeAtlas.Proofs.Members

namespace TypeAtlas

/-! ## Rows that meet -/

namespace Dict

variable {β : Type} {rows : List (String × β)} {d : Dict β}

/-- The keys stand in the order of their first rows, each with the value of its last row. -/
structure LastWins (rows : List (String × β)) (d : Dict β) : Prop where
  keys : d.keys = (rows.map Prod.fst).eraseDups
  value : ∀ k, d.get? k = rows.reverse.lookup k

/-- The keys stand in the order of their first rows, each with the value of that row. -/
structure FirstWins (rows : List (String × β)) (d : Dict β) : Prop where
  keys : d.keys = (rows.map Prod.fst).eraseDups
  value : ∀ k, d.get? k = rows.lookup k

theorem lastWins_empty : LastWins [] (empty : Dict β) := ⟨rfl, fun _ => rfl⟩

theorem firstWins_empty : FirstWins [] (empty : Dict β) := ⟨rfl, fun _ => rfl⟩

theorem keys_insert_concat (h : d.keys = (rows.map Prod.fst).eraseDups) (k : String) (v : β) :
    (d.insert k v).keys = ((rows ++ [(k, v)]).map Prod.fst).eraseDups := by
  rw [keys_insert, h, List.map_append, List.map_singleton, eraseDups_concat]
  simp only [List.mem_eraseDups]

theorem LastWins.insert (h : LastWins rows d) (k : String) (v : β) :
    LastWins (rows ++ [(k, v)]) (d.insert k v) := by
  refine ⟨keys_insert_concat h.keys k v, fun k' => ?_⟩
  rw [get?_insert, List.reverse_append, List.reverse_singleton, List.singleton_append,
    List.lookup_cons, h.value]
  by_cases hk : k' = k
  · simp [hk]
  · simp [hk, beq_false_of_ne hk]

theorem FirstWins.insertNew (h : FirstWins rows d) (k : String) (v : β) :
    FirstWins (rows ++ [(k, v)]) (d.insertNew k v) := by
  unfold Dict.insertNew
  split
  · rename_i hbound
    -- the row comes too late: its key stands already, and in the rows before it
    have hk : k ∈ rows.map Prod.fst := by
      obtain ⟨w, hw⟩ := Option.isSome_iff_exists.1 hbound
      rw [← List.mem_eraseDups, ← h.keys]
      exact d.mem_keys_iff.2 ⟨w, hw⟩
    refine ⟨?_, fun k' => ?_⟩
    · rw [h.keys, List.map_append, List.map_singleton, eraseDups_concat, if_pos hk]
    · rw [List.lookup_append, ← h.value]
      by_cases hk' : k' = k
      · subst hk'
        rw [Option.or_of_isSome hbound]
      · simp [List.lookup_cons, beq_false_of_ne hk']
  · rename_i hfree
    refine ⟨keys_insert_concat h.keys k v, fun k' => ?_⟩
    rw [get?_insert, List.lookup_append, ← h.value]
    by_cases hk' : k' = k
    · subst hk'
      rw [Option.not_isSome_iff_eq_none.1 hfree]
      simp
    · simp [List.lookup_cons, beq_false_of_ne hk', hk']

theorem LastWins.insertAll (h : LastWins rows d) (more : List (String × β)) :
    LastWins (rows ++ more) (d.insertAll more) := by
  induction more generalizing rows d with
  | nil => rwa [List.append_nil]
  | cons row more ih =>
    rw [List.append_cons]
    exact ih (h.insert row.1 row.2)

end Dict

/-! ## What a declaration contributes -/

namespace Body

/-- The declared parent of an item type. -/
def parent? : Body → Option String
  | item parent _ _ => parent
  | _ => none

def attributes : Body → List AttributeDecl
  | item _ attributes _ => attributes
  | _ => []

def indexes : Body → List IndexDecl
  | item _ _ indexes => indexes
  | _ => []

def values : Body → List EnumValueDecl
  | enum values _ => values
  | _ => []

def isDynamic : Body → Bool
  | enum _ dynamic => dynamic
  | _ => false

/-- The data of a relation, a collection or a map type, which nothing is merged into. -/
def unmerged? : Body → Option TypeData
  | relation source target => some (.relation source target)
  | collection elementType container => some (.collection elementType container)
  | map argumentType returnType => some (.map argumentType returnType)
  | _ => none

end Body

namespace Declaration

/-- The parent that a declaration states, with the place of the declaration. -/
def link? (d : Declaration) : Option Extends := d.body.parent?.map fun code => ⟨code, d.location⟩

def attributeRows (owner : String) (d : Declaration) : List (String × Attribute) :=
  d.body.attributes.map fun a => (a.qualifier, ⟨a, owner⟩)

def indexRows (owner : String) (d : Declaration) : List (String × Index) :=
  d.body.indexes.map fun i => (i.name, ⟨i, owner⟩)

def valueRows (d : Declaration) : List (String × Location) :=
  d.body.values.map fun v => (v.code, v.location)

end Declaration

namespace Merge

open Dict

/-! ## Item types -/

/-- The item type that declarations make: the last declared parent, and members by name. -/
structure ItemOf (code : String) (ds : List Declaration) (own : ItemData) : Prop where
  parent : own.parent = (ds.filterMap Declaration.link?).getLast?
  attributes : LastWins (ds.flatMap (Declaration.attributeRows code)) own.attributes
  indexes : LastWins (ds.flatMap (Declaration.indexRows code)) own.indexes

theorem data_foldl_addAttribute (code : String) (l : List AttributeDecl) (p : Progress) :
    (l.foldl (addAttribute code) p).data = { p.data with
      attributes := p.data.attributes.insertAll (l.map fun a => (a.qualifier, ⟨a, code⟩)) } := by
  induction l generalizing p with
  | nil => rfl
  | cons a l ih => exact ih (addAttribute code p a)

theorem data_foldl_addIndex (code : String) (l : List IndexDecl) (p : Progress) :
    (l.foldl (addIndex code) p).data = { p.data with
      indexes := p.data.indexes.insertAll (l.map fun i => (i.name, ⟨i, code⟩)) } := by
  induction l generalizing p with
  | nil => rfl
  | cons i l ih => exact ih (addIndex code p i)

theorem data_addParent (code : String) (location : Location) (p : Progress)
    (parent : Option String) : (addParent code location p parent).data =
      { p.data with parent := (parent.map fun c => ⟨c, location⟩).or p.data.parent } := by
  cases parent <;> rfl

/-- Taking one declaration does to each field what the declaration contributes to it. -/
theorem data_addItem (code : String) (p : Progress) (d : Declaration) :
    (addItem code p d).data =
      { parent := d.link?.or p.data.parent
        attributes := p.data.attributes.insertAll (d.attributeRows code)
        indexes := p.data.indexes.insertAll (d.indexRows code) } := by
  unfold addItem Declaration.link? Declaration.attributeRows Declaration.indexRows
  cases d.body with
  | item parent attributes indexes =>
    rw [data_foldl_addIndex, data_foldl_addAttribute, data_addParent]
    rfl
  | _ => rfl

theorem ItemOf.addItem {code : String} {ds : List Declaration} {p : Progress}
    (h : ItemOf code ds p.data) (d : Declaration) :
    ItemOf code (ds ++ [d]) (addItem code p d).data := by
  rw [data_addItem]
  refine ⟨?_, ?_, ?_⟩
  · rw [List.filterMap_append, List.getLast?_append, ← h.parent]
    cases hl : d.link? <;> simp [hl]
  · rw [List.flatMap_append, List.flatMap_singleton]
    exact h.attributes.insertAll _
  · rw [List.flatMap_append, List.flatMap_singleton]
    exact h.indexes.insertAll _

/-- The loop over declarations, from any point on. -/
theorem ItemOf.foldl {code : String} (ds done : List Declaration) {p : Progress}
    (h : ItemOf code done p.data) : ItemOf code (done ++ ds) (ds.foldl (Merge.addItem code) p).data := by
  induction ds generalizing done p with
  | nil => simpa using h
  | cons d ds ih => simpa using ih (done ++ [d]) (h.addItem d)

theorem itemOf_item (code : String) (ds : List Declaration) : ItemOf code ds (item code ds).data :=
  ItemOf.foldl ds [] ⟨rfl, lastWins_empty, lastWins_empty⟩

/-! ## Enumerations -/

/-- The enumeration that declarations make: each literal at its first place. -/
structure EnumOf (ds : List Declaration) (own : EnumData) : Prop where
  values : FirstWins (ds.flatMap Declaration.valueRows) own.values
  dynamic : own.dynamic = true ↔ ∃ d ∈ ds, d.body.isDynamic = true

theorem firstWins_foldl (l : List EnumValueDecl) {rows : List (String × Location)}
    {d : Dict Location} (h : FirstWins rows d) :
    FirstWins (rows ++ l.map fun v => (v.code, v.location))
      (l.foldl (fun acc v => acc.insertNew v.code v.location) d) := by
  induction l generalizing rows d with
  | nil => simpa using h
  | cons v l ih => simpa using ih (h.insertNew v.code v.location)

theorem EnumOf.addEnum {ds : List Declaration} {own : EnumData} (h : EnumOf ds own)
    (d : Declaration) : EnumOf (ds ++ [d]) (addEnum own d) := by
  unfold Merge.addEnum
  cases hb : d.body with
  | enum values dynamic =>
    constructor
    · rw [List.flatMap_append, List.flatMap_singleton]
      have := firstWins_foldl values h.values
      simpa [Declaration.valueRows, Body.values, hb] using this
    · simp [h.dynamic, or_and_right, exists_or, hb, Body.isDynamic]
  | _ =>
    constructor
    · simpa [Declaration.valueRows, Body.values, hb] using h.values
    · simp [h.dynamic, or_and_right, exists_or, hb, Body.isDynamic]

theorem EnumOf.foldl (ds done : List Declaration) {own : EnumData} (h : EnumOf done own) :
    EnumOf (done ++ ds) (ds.foldl Merge.addEnum own) := by
  induction ds generalizing done own with
  | nil => simpa using h
  | cons d ds ih => simpa using ih (done ++ [d]) (h.addEnum d)

theorem enumOf_enum (ds : List Declaration) : EnumOf ds (enum ds) :=
  EnumOf.foldl ds [] ⟨firstWins_empty, by simp⟩

/-! ## Types -/

theorem lastWins_properties (ds : List Declaration) :
    LastWins (ds.flatMap fun d => d.properties.entries) (properties ds) := by
  have key : ∀ (ds : List Declaration) {rows : List (String × String)} {acc : Properties},
      LastWins rows acc → LastWins (rows ++ ds.flatMap fun d => d.properties.entries)
        (ds.foldl (fun acc d => acc.overlay d.properties) acc) := by
    intro ds
    induction ds with
    | nil => intro rows acc h; simpa using h
    | cons d ds ih =>
      intro rows acc h
      rw [List.flatMap_cons, ← List.append_assoc]
      exact ih (h.insertAll d.properties.entries)
  exact key ds lastWins_empty

/-- What a type says: its code, and by the last declaration of the code and the declarations of that
kind, every other field. -/
structure MergedFrom (owner : String) (winner : Declaration) (parts : List Declaration)
    (m : Merged) : Prop where
  code : m.code = owner
  kind : m.kind = winner.kind
  location : m.location = winner.location
  provenance : m.provenance = parts.map Declaration.provenance
  properties : LastWins (parts.flatMap fun d => d.properties.entries) m.properties
  item : ∀ own, m.data = .item own → ItemOf owner parts own
  enum : ∀ own, m.data = .enum own → EnumOf parts own
  unmerged : ∀ data, winner.body.unmerged? = some data → m.data = data

theorem mergedFrom_type? {id : TypeId} {code : String} {ds : List Declaration} {m : Merged}
    {findings : List Diagnostic} (h : type? id code ds = some (m, findings)) :
    ∃ winner, ds.getLast? = some winner ∧
      MergedFrom code winner (ds.filter fun d => d.kind == winner.kind) m := by
  unfold type? at h
  obtain ⟨winner, hwinner, hm⟩ := Option.map_eq_some_iff.1 h
  simp only [Prod.mk.injEq] at hm
  obtain ⟨rfl, -⟩ := hm
  refine ⟨winner, hwinner, rfl, ?_, rfl, rfl, lastWins_properties _, ?_, ?_, ?_⟩
  · simp only [Merged.kind, Declaration.kind, data]
    cases winner.body <;> rfl
  · intro own hown
    simp only [data] at hown
    cases hb : winner.body <;> simp [hb] at hown
    subst hown
    exact itemOf_item code _
  · intro own hown
    simp only [data] at hown
    cases hb : winner.body <;> simp [hb] at hown
    subst hown
    exact enumOf_enum _
  · intro d hd
    simp only [data]
    cases hb : winner.body <;> simp_all [Body.unmerged?]

/-- The declarations of a code, in merge order. -/
def declarationsOf (groups : List Group) (code : String) : List Declaration :=
  (declarations groups).filter fun d => d.code == code

theorem exists_mergedFrom {groups : List Group} {d : Declaration} (hd : d ∈ declarations groups) :
    ∃ (i : TypeId) (m : Merged) (winner : Declaration), (types groups)[i]? = some m ∧
      (declarationsOf groups d.code).getLast? = some winner ∧
      MergedFrom d.code winner
        ((declarationsOf groups d.code).filter fun x => x.kind == winner.kind) m := by
  have hcode : d.code ∈ codes (declarations groups) := mem_codes.2 ⟨d, hd, rfl⟩
  obtain ⟨i, hi⟩ := List.mem_iff_getElem?.1 hcode
  obtain ⟨⟨m, findings⟩, hm⟩ := Option.isSome_iff_exists.1 (type?_isSome hcode i)
  obtain ⟨winner, hwinner, hfrom⟩ := mergedFrom_type? hm
  refine ⟨i, m, winner, ?_, hwinner, hfrom⟩
  unfold types
  rw [List.getElem?_map, all_getElem?, hi, Option.bind_some, hm]
  rfl

end Merge

/-! ## Nodes -/

namespace Model

/-- Merging by code follows the rules of every field, for any number of declarations: a declared code
has a type in every model of the groups, and the type is what the last declaration of the code and
the declarations of its kind say. -/
theorem find?_mergedFrom {groups : List Group} {d : Declaration}
    (hd : d ∈ Merge.declarations groups) (config : Config) (previous : Option Model)
    (generation revision : Nat) :
    ∃ n winner, (build groups config previous generation revision).find? d.code = some n ∧
      (Merge.declarationsOf groups d.code).getLast? = some winner ∧
      Merge.MergedFrom d.code winner
        ((Merge.declarationsOf groups d.code).filter fun x => x.kind == winner.kind)
        n.toMerged := by
  have hm := map_toMerged_build groups config generation revision previous
  obtain ⟨i, m, winner, hi, hwinner, hfrom⟩ := Merge.exists_mergedFrom hd
  obtain ⟨n, hn, rfl⟩ := exists_node? hm hi
  refine ⟨n, winner, ?_, hwinner, hfrom⟩
  rw [← hfrom.code]
  exact find?_of_node? hm (Merge.nodup_types_code groups) hn

/-- Two files declare the item type `A`, and one between them a map type of that code. -/
def interleavedGroups : List Group :=
  [sampleGroup ⟨⟨0⟩, 1, 9, by decide⟩ [("A", some "P", ["x", "y"])],
    ⟨⟨1⟩, ⟨0⟩, [⟨"A", .map "K" "V", .empty, ⟨⟨0⟩, default⟩⟩], []⟩,
    sampleGroup ⟨⟨2⟩, 3, 7, by decide⟩ [("A", none, ["z", "y", "z"])]]

/-- The parent and the position of `y` come from the first file, the attribute `y` itself from the
last. -/
theorem find?_mergedFrom_interleaved :
    ∃ n winner own y, (build interleavedGroups {} none 1 0).find? "A" = some n ∧
      (Merge.declarationsOf interleavedGroups "A").getLast? = some winner ∧
      Merge.MergedFrom "A" winner ((Merge.declarationsOf interleavedGroups "A").filter
        fun d => d.kind == winner.kind) n.toMerged ∧
      n.location = ⟨⟨2⟩, 3, 7, by decide⟩ ∧ n.provenance.length = 2 ∧ n.data = .item own ∧
      own.parent = some ⟨"P", ⟨⟨0⟩, 1, 9, by decide⟩⟩ ∧ own.attributes.keys = ["x", "y", "z"] ∧
      own.attributes.get? "y" = some y ∧ y.location = ⟨⟨2⟩, 3, 7, by decide⟩ ∧ y.owner = "A" := by
  obtain ⟨n, winner, hn, hwinner, hfrom⟩ :=
    @find?_mergedFrom interleavedGroups _ List.mem_cons_self {} none 1 0
  cases hn
  exact ⟨_, winner, _, _, rfl, hwinner, hfrom, rfl, rfl, rfl, rfl, rfl, rfl, rfl, rfl⟩

end Model

end TypeAtlas
