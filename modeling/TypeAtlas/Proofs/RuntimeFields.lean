/-
The fields of a runtime object that stand for members of its type. Main statement: for the class of
an item type, in whatever package and outer class, the fields shown are those of the given names that
a member stands behind, once for each time the name is given, in the order of their bytes, and the
order in which the names are given does not matter. Behind a name stands the readable attribute of
exactly that qualifier, or else the first end along the ancestors that can be followed and read and
whose qualifier is the name but for the case of ASCII letters.

What stands behind a name depends on the name alone, so fields of one name are equal and a sorted
list of them is determined by how often each is given.
-/
import TypeAtlas.Assist.RuntimeField
import TypeAtlas.Proofs.ByteOrder
import TypeAtlas.Proofs.Qualifiers

namespace TypeAtlas

/-! ## Class names -/

namespace Text

/-- What stands before the simple name of a class: nothing, or packages and outer classes. -/
def IsQualification (outer : String) : Prop :=
  outer = "" ∨ ∃ names, outer = names ++ "." ∨ outer = names ++ "$"

/-- The class of a type leads back to the code of the type. -/
theorem typeCodeForClass_append {outer code : String} (houter : IsQualification outer)
    (hdot : '.' ∉ code.toList) (hdollar : '$' ∉ code.toList) :
    typeCodeForClass (outer ++ code ++ "Model") = code := by
  have hdot' : '.' ∉ code.toList ++ "Model".toList :=
    fun hmem => (List.mem_append.1 hmem).elim hdot (by decide)
  have hdollar' : '$' ∉ code.toList ++ "Model".toList :=
    fun hmem => (List.mem_append.1 hmem).elim hdollar (by decide)
  have hsimple : afterLast '$' (afterLast '.' (outer ++ code ++ "Model").toList) =
      code.toList ++ "Model".toList := by
    rw [String.toList_append, String.toList_append, List.append_assoc, afterLast_append hdot',
      afterLast_append hdollar']
    rcases houter with rfl | ⟨names, rfl | rfl⟩
    · rfl
    · rw [String.toList_append, show ".".toList = ['.'] from rfl, afterLast_concat]
      rfl
    · rw [String.toList_append, show "$".toList = ['$'] from rfl,
        afterLast_append (by decide), afterLast_concat]
      rfl
  unfold typeCodeForClass
  rw [hsimple, dropTail_append, String.ofList_toList]

end Text

namespace Model.Built

/-! ## Attributes by qualifier -/

variable {groups : List Group} {m : Model} (h : Built groups m)

include h

/-- An attribute is kept under its own qualifier, in hierarchies from earlier builds too. -/
theorem qualifier_of_get? {code q : String} {k : Hierarchy} (hk : m.hierarchy? code = some k)
    {a : Attribute} (ha : k.attributes.get? q = some a) : a.qualifier = q := by
  obtain ⟨⟨n, own⟩, hitem, hn⟩ := Option.bind_eq_some_iff.1 hk
  have hfound : m.attribute? code q true = some a := by
    unfold attribute?
    rw [hitem]
    simp only [if_true, show n.hierarchy = some k from hn]
    exact ha
  -- the attribute equals that of the nearest type, which is a type of this model
  have hbeq := h.attribute?_beq_nearest code q
  rw [hfound] at hbeq
  cases hnearest : m.nearest? code fun a => a.ownAttributes.get? q with
  | none => rw [hnearest] at hbeq; cases hbeq
  | some b =>
    rw [hnearest] at hbeq
    have hsame : a.qualifier = b.qualifier := congrArg (·.qualifier) (Attribute.beq_iff.1 hbeq).1
    obtain ⟨x, hx, hb⟩ := List.exists_of_findSome?_eq_some hnearest
    obtain ⟨id, hid⟩ := exists_node?_of_mem_ancestors (List.mem_reverse.1 hx)
    have hget := toMerged_of_node? h.current.merged hid
    rw [hsame]
    unfold Node.ownAttributes at hb
    cases hd : x.data with
    | item own =>
      rw [hd] at hb
      exact ((Merge.keyed_of_types hget hd).attributes q b hb).1
    | _ => simp [hd, TypeData.item?] at hb

theorem mem_attributes_iff {code : String} {k : Hierarchy} (hk : m.hierarchy? code = some k)
    {a : Attribute} : a ∈ m.attributes code ↔ k.attributes.get? a.qualifier = some a := by
  have hvalues : m.attributes code = k.attributes.values := by
    unfold attributes
    rw [hk]
    rfl
  rw [hvalues, Dict.values, List.mem_map]
  constructor
  · rintro ⟨⟨q, b⟩, hrow, rfl⟩
    have hb := k.attributes.get?_eq_some_iff.2 hrow
    rw [h.qualifier_of_get? hk hb]
    exact hb
  · intro ha
    exact ⟨(a.qualifier, a), k.attributes.get?_eq_some_iff.1 ha, rfl⟩

end Model.Built

namespace RuntimeField

/-! ## What stands behind a name -/

/-- A name is the qualifier of an end that can be followed and read, but for the case of ASCII
letters. -/
def Names (name : String) (e : RelationEnd) : Prop :=
  e.navigable ∧ e.modifiers.read ∧ ∃ q, e.qualifier = some q ∧ Text.foldAscii q = Text.foldAscii name

/-- What stands behind a field of an object: the readable attribute with the name of the field, or
else the first end along the ancestors of the type that the field names. -/
inductive Backs (m : Model) (code name : String) : Backing → Prop
  | attributeOf {a : Attribute} (ha : a ∈ m.attributes code) (hread : a.modifiers.read)
      (hname : a.qualifier = name) : Backs m code name (.attributeOf a)
  | relationEnd {before after : List RelationEnd} {e : RelationEnd}
      (hno : ∀ a ∈ m.attributes code, a.modifiers.read → a.qualifier ≠ name)
      (hends : m.reachedEnds code = before ++ e :: after) (he : Names name e)
      (hfirst : ∀ x ∈ before, ¬Names name x) : Backs m code name (.relationEnd e)

/-- A field that is shown: its name does not start with an underscore, and a member stands behind
it. -/
def IsShown (m : Model) (code : String) (f : RuntimeField) : Prop :=
  f.name.toList.head? ≠ some '_' ∧ Backs m code f.name f.backing

theorem namesEnd_iff {name : String} {e : RelationEnd} : namesEnd name e = true ↔ Names name e := by
  unfold namesEnd Names Text.sameIgnoringAsciiCase
  rw [Bool.and_eq_true, Bool.and_eq_true, Option.any_eq_true, and_assoc]
  simp only [beq_iff_eq]

theorem isPrefixOf_underscore {name : String} :
    "_".toList.isPrefixOf name.toList = true ↔ name.toList.head? = some '_' := by
  rw [show "_".toList = ['_'] from rfl]
  cases name.toList with
  | nil => simp
  | cons c cs => simp [List.isPrefixOf, eq_comm (a := '_')]

section Built

variable {groups : List Group} {m : Model} (h : Model.Built groups m) {code : String}
  {k : Hierarchy} (hk : m.hierarchy? code = some k)

include h hk

theorem reachedEnds_eq : m.reachedEnds code = k.ends := by
  rw [← h.relationEnds_eq_reachedEnds code]
  unfold Model.relationEnds
  rw [hk]
  rfl

/-- The readable attribute of a qualifier, as it is looked up. -/
theorem readable_eq_some_iff {name : String} {a : Attribute} :
    ((k.attributes.get? name).filter fun a => a.modifiers.read) = some a ↔
      a ∈ m.attributes code ∧ a.modifiers.read ∧ a.qualifier = name := by
  rw [Option.filter_eq_some_iff, h.mem_attributes_iff hk]
  constructor
  · rintro ⟨ha, hread⟩
    have hname := h.qualifier_of_get? hk ha
    exact ⟨hname.symm ▸ ha, hread, hname⟩
  · rintro ⟨ha, hread, rfl⟩
    exact ⟨ha, hread⟩

theorem backing?_eq_some_iff {name : String} {b : Backing} :
    backing? k name = some b ↔ IsShown m code ⟨name, b⟩ := by
  unfold backing? IsShown
  rw [Ne, ← isPrefixOf_underscore]
  by_cases hunderscore : "_".toList.isPrefixOf name.toList = true
  · rw [if_pos hunderscore]
    exact ⟨nofun, fun hb => absurd hunderscore hb.1⟩
  · rw [if_neg hunderscore, and_iff_right hunderscore]
    cases hread : (k.attributes.get? name).filter fun a => a.modifiers.read with
    | some a =>
      obtain ⟨ha, hflag, hname⟩ := (readable_eq_some_iff h hk).1 hread
      constructor
      · rintro ⟨⟩
        exact .attributeOf ha hflag hname
      · intro hb
        cases hb with
        | attributeOf ha' hflag' hname' =>
          have hread' := (readable_eq_some_iff h hk).2 ⟨ha', hflag', hname'⟩
          cases hread.symm.trans hread'
          rfl
        | relationEnd hno => exact absurd hname (hno a ha hflag)
    | none =>
      have hno : ∀ a ∈ m.attributes code, a.modifiers.read → a.qualifier ≠ name := by
        intro a ha hflag hname
        have hread' := (readable_eq_some_iff h hk).2 ⟨ha, hflag, hname⟩
        rw [hread] at hread'
        cases hread'
      constructor
      · intro hb
        obtain ⟨e, he, rfl⟩ := Option.map_eq_some_iff.1 hb
        obtain ⟨hnames, before, after, hends, hfirst⟩ := List.find?_eq_some_iff_append.1 he
        refine .relationEnd hno ((reachedEnds_eq h hk).trans hends) (namesEnd_iff.1 hnames) ?_
        intro x hx hx'
        simpa [namesEnd_iff.2 hx'] using hfirst x hx
      · intro hb
        cases hb with
        | attributeOf ha hflag hname => exact absurd hname (hno _ ha hflag)
        | relationEnd _ hends he hfirst =>
          refine Option.map_eq_some_iff.2 ⟨_, List.find?_eq_some_iff_append.2
            ⟨namesEnd_iff.2 he, _, _, (reachedEnds_eq h hk).symm.trans hends, ?_⟩, rfl⟩
          intro x hx
          simpa [← namesEnd_iff] using hfirst x hx

end Built

/-! ## Sorted fields -/

/-- The fields that stand for members, in the order of the names. -/
def fieldsOf (k : Hierarchy) (names : List String) : List RuntimeField :=
  names.filterMap fun name => (backing? k name).map fun b => ⟨name, b⟩

theorem mem_fieldsOf {k : Hierarchy} {names : List String} {f : RuntimeField} :
    f ∈ fieldsOf k names ↔ f.name ∈ names ∧ backing? k f.name = some f.backing := by
  unfold fieldsOf
  rw [List.mem_filterMap]
  constructor
  · rintro ⟨name, hname, hf⟩
    obtain ⟨b, hb, rfl⟩ := Option.map_eq_some_iff.1 hf
    exact ⟨hname, hb⟩
  · rintro ⟨hname, hb⟩
    exact ⟨f.name, hname, by rw [hb]; rfl⟩

/-- A name that a member stands behind gives as many fields as it is given. -/
theorem countP_fieldsOf {k : Hierarchy} {name : String} {b : Backing}
    (hb : backing? k name = some b) (names : List String) :
    (fieldsOf k names).countP (fun f => f.name == name) = names.count name := by
  unfold fieldsOf List.count
  rw [List.countP_filterMap]
  refine List.countP_congr fun x _ => ?_
  by_cases hx : x = name
  · simp [hx, hb]
  · cases backing? k x <;> simp [hx]

/-- Fields in the order of their names. -/
def sorted (fields : List RuntimeField) : List RuntimeField :=
  fields.mergeSort fun a b => decide (a.name ≤ b.name)

theorem sorted_perm (fields : List RuntimeField) : (sorted fields).Perm fields :=
  List.mergeSort_perm _ _

theorem pairwise_sorted (fields : List RuntimeField) :
    (sorted fields).Pairwise fun a b => a.name ≤ b.name := by
  unfold sorted
  refine (List.pairwise_mergeSort ?_ ?_ fields).imp fun hle => of_decide_eq_true hle
  · intro a b c hab hbc
    simp only [decide_eq_true_eq] at hab hbc ⊢
    exact hab.trans hbc
  · intro a b
    simpa using le_total a.name b.name

/-- The fields of names that change places are sorted alike. -/
theorem sorted_fieldsOf_perm (k : Hierarchy) {names names' : List String}
    (hperm : names.Perm names') : sorted (fieldsOf k names') = sorted (fieldsOf k names) := by
  have hfields : (sorted (fieldsOf k names')).Perm (sorted (fieldsOf k names)) :=
    (sorted_perm _).trans ((hperm.symm.filterMap _).trans (sorted_perm _).symm)
  refine hfields.eq_of_pairwise ?_ (pairwise_sorted _) (pairwise_sorted _)
  intro f g hf hg hle hle'
  have hf' := (mem_fieldsOf.1 ((sorted_perm _).mem_iff.1 hf)).2
  have hg' := (mem_fieldsOf.1 ((sorted_perm _).mem_iff.1 hg)).2
  -- what stands behind a field is up to its name
  obtain ⟨name, b⟩ := f
  obtain ⟨name', b'⟩ := g
  cases le_antisymm hle hle'
  cases hf'.symm.trans hg'
  rfl

/-- The fields that are shown of an object of an item type, given the names of its fields. -/
structure Shows (m : Model) (code : String) (names : List String) (fields : List RuntimeField) :
    Prop where
  sorted : fields.Pairwise fun a b => Text.bytes a.name ≤ Text.bytes b.name
  sound : ∀ f ∈ fields, IsShown m code f
  /-- One field for each time that its name is given. -/
  complete : ∀ f, IsShown m code f →
    (fields.filter fun x => x.name == f.name) = List.replicate (names.count f.name) f

/-- In every model at the end of a history of builds, the fields rendered for the class of an item
type are those of its members, and the order of the given names does not matter. -/
theorem shows_render {groups : List Group} {m : Model} (h : Model.Built groups m)
    {outer code : String} (houter : Text.IsQualification outer) (hdot : '.' ∉ code.toList)
    (hdollar : '$' ∉ code.toList) (hitem : (m.item? code).isSome) (names : List String) :
    Shows m code names (render m (outer ++ code ++ "Model") names) ∧
      ∀ names', names.Perm names' →
        render m (outer ++ code ++ "Model") names' = render m (outer ++ code ++ "Model") names := by
  obtain ⟨⟨n, own⟩, hi⟩ := Option.isSome_iff_exists.1 hitem
  obtain ⟨-, -, k, -, hk⟩ := h.hierarchy_of_item? hi
  have hrender : ∀ names, render m (outer ++ code ++ "Model") names = sorted (fieldsOf k names) := by
    intro names
    unfold render
    rw [Text.typeCodeForClass_append houter hdot hdollar, hk]
    rfl
  refine ⟨?_, fun names' hperm => ?_⟩
  · rw [hrender]
    refine ⟨(pairwise_sorted _).imp Text.bytes_le_iff.2, fun f hf => ?_, fun f hf => ?_⟩
    · exact (backing?_eq_some_iff h hk).1 (mem_fieldsOf.1 ((sorted_perm _).mem_iff.1 hf)).2
    · have hb := (backing?_eq_some_iff h hk).2 hf
      refine List.eq_replicate_iff.2 ⟨?_, fun g hg => ?_⟩
      · rw [← List.countP_eq_length_filter, (sorted_perm _).countP_eq, countP_fieldsOf hb]
      · obtain ⟨hg, hname⟩ := List.mem_filter.1 hg
        have hg' := (mem_fieldsOf.1 ((sorted_perm _).mem_iff.1 hg)).2
        obtain ⟨name, b⟩ := g
        cases eq_of_beq hname
        cases hg'.symm.trans hb
        rfl
  · rw [hrender, hrender, sorted_fieldsOf_perm k hperm]

/-- An attribute that can be read or not. -/
def sampleAttribute (qualifier : String) (read : Bool) : AttributeDecl :=
  ⟨qualifier, "String", false, .property, { read }, none, none, .empty, default⟩

/-- A relation whose target end has the qualifier `tags` and can be read or not. -/
def sampleTags (source target : String) (read : Bool) : Body :=
  .relation ⟨source, none, .many, [], none, true, {}, default⟩
    ⟨target, some "tags", .many, [], none, true, { read }, default⟩

/-- `Variant` extends `Product`. The tags that `Product` reaches cannot be read, those that `Variant`
reaches itself can. -/
def taggedGroups : List Group :=
  [⟨⟨0⟩, ⟨0⟩,
    [⟨"Product", .item none [sampleAttribute "secret" false, sampleAttribute "name" true] [],
        .empty, ⟨⟨0⟩, default⟩⟩,
      ⟨"Variant", .item (some "Product") [] [], .empty, ⟨⟨0⟩, default⟩⟩,
      ⟨"Hidden", sampleTags "Product" "Tag" false, .empty, ⟨⟨0⟩, default⟩⟩,
      ⟨"Open", sampleTags "Variant" "Label" true, .empty, ⟨⟨0⟩, default⟩⟩], []⟩]

/-- The inherited end that cannot be read does not hide the own one, and a name given twice is shown
twice, wherever it is given. -/
theorem shows_render_tagged :
    ∃ m, Model.buildUnless .never taggedGroups {} none 1 0 = .ok m ∧
      (m.item? "Variant").isSome ∧ Text.IsQualification "acme.Outer$" ∧
      Shows m "Variant" ["TAGS", "_pk", "name", "name", "secret"]
        (render m ("acme.Outer$" ++ "Variant" ++ "Model") ["TAGS", "_pk", "name", "name", "secret"]) ∧
      ((render m ("acme.Outer$" ++ "Variant" ++ "Model") ["name", "secret", "name", "_pk", "TAGS"]).map
        fun f => (f.name, f.backing.typeCode)) =
        [("TAGS", "Label"), ("name", "String"), ("name", "String")] := by
  have hbuilt : Model.Built taggedGroups (Model.build taggedGroups {} none 1 0) :=
    .first .never rfl
  have houter : Text.IsQualification "acme.Outer$" := .inr ⟨"acme.Outer", .inr (by decide)⟩
  obtain ⟨hshows, hperm⟩ := shows_render hbuilt houter (by decide : '.' ∉ "Variant".toList)
    (by decide) (by decide) ["TAGS", "_pk", "name", "name", "secret"]
  have hsorted : render (Model.build taggedGroups {} none 1 0) ("acme.Outer$" ++ "Variant" ++ "Model")
      ["TAGS", "_pk", "name", "name", "secret"] =
        fieldsOf (((Model.build taggedGroups {} none 1 0).hierarchy? "Variant").get (by decide))
          ["TAGS", "_pk", "name", "name", "secret"] :=
    List.mergeSort_of_pairwise (by decide)
  refine ⟨_, rfl, by decide, houter, hshows, ?_⟩
  rw [hperm ["name", "secret", "name", "_pk", "TAGS"] (by decide), hsorted]
  decide

end RuntimeField

end TypeAtlas
