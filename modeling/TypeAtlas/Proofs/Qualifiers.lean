/-
The members that custom properties name. Two checks read a property of an item declaration as the
name of a catalog-aware member and as a list of unique members. Main statement: what they find is
decided by the chain of ancestors of the declared type in the model, whatever builds led to it. The
nearest attribute of a name hides the others; the relation ends of the chain come after it; and
whether a type is catalog aware is again up to the nearest type of its chain that says so.

The queries behind the checks read dictionaries that were collected along the chain, maybe in an
earlier build. They are compared with a look along the chain of the present types (`nearest?`).
-/
import TypeAtlas.Assist.Inspection
import TypeAtlas.Declaration.Adapt
import TypeAtlas.Proofs.Ends

namespace TypeAtlas

/-! ## Lists in texts -/

namespace Text

/-- The entries of a list that is separated by commas, without outer blanks and empty entries. -/
def entries (text : String) : List String :=
  ((text.toList.splitOn ',').map fun part => trim (String.ofList part)).filter fun e => e ≠ ""

theorem splitChars_eq (sep : Char) (cs : List Char) : splitChars sep cs = cs.splitOn sep := by
  unfold List.splitOn
  induction cs with
  | nil => rfl
  | cons c cs ih =>
    obtain ⟨part, parts, hparts⟩ :=
      List.exists_cons_of_ne_nil (List.splitOnP_ne_nil (· == sep) cs)
    rw [splitChars, ih, List.splitOnP_cons_eq_if_modifyHead, hparts]
    by_cases h : c = sep <;> simp [h]

theorem commaList_eq (text : String) : commaList text = entries text := by
  unfold commaList entries
  rw [splitChars_eq]
  induction text.toList.splitOn ',' with
  | nil => rfl
  | cons part parts ih =>
    rw [List.filterMap_cons, ih, nonBlank?_eq_ite]
    by_cases h : trim (String.ofList part) = "" <;> simp [h]

theorem ne_empty_of_propertyString {s text : String} (h : propertyString s = some text) :
    text ≠ "" := by
  unfold propertyString at h
  rw [nonBlank?_eq_ite] at h
  split at h
  · cases h
  · rw [← Option.some.inj h]
    assumption

end Text

namespace Model

/-! ## Along the chain -/

/-- What the nearest type states, from a type up its chain of ancestors. -/
def nearest? {β : Type} (m : Model) (code : String) (own : Node → Option β) : Option β :=
  (m.ancestors code).reverse.findSome? own

/-- The relation ends that a type and its ancestors reach, from the root down. -/
def reachedEnds (m : Model) (code : String) : List RelationEnd :=
  (m.ancestors code).flatMap fun a => m.ownEnds a.code

theorem ancestors_of_not_item {m : Model} {code : String} (hi : m.item? code = none) :
    m.ancestors code = [] := by
  unfold ancestors hierarchy?
  rw [hi]
  rfl

theorem nearest?_of_not_item {β : Type} {m : Model} {code : String} (hi : m.item? code = none)
    (own : Node → Option β) : m.nearest? code own = none := by
  unfold nearest?
  rw [ancestors_of_not_item hi]
  rfl

namespace Built

variable {groups : List Group} {m : Model} (h : Built groups m)

include h

/-- An item type has a hierarchy. -/
theorem hierarchy_of_item? {code : String} {n : Node} {own : ItemData}
    (hi : m.item? code = some (n, own)) :
    n ∈ m.nodes ∧ n.code = code ∧ ∃ k, n.hierarchy = some k ∧ m.hierarchy? code = some k := by
  obtain ⟨n', hfind, hdata⟩ := Option.bind_eq_some_iff.1 hi
  obtain ⟨own', hown, hpair⟩ := Option.bind_eq_some_iff.1 hdata
  cases hpair
  obtain ⟨hn, hcode⟩ := (find?_eq_some_iff h.current.merged (Merge.nodup_types_code groups)).1 hfind
  obtain ⟨id, hid⟩ := List.mem_iff_getElem?.1 hn
  have hkind : n.kind = .item := by
    cases hd : n.data with
    | item own => simp [Merged.kind, hd, TypeData.kind]
    | _ => simp [hd, TypeData.item?] at hown
  obtain ⟨k, hk⟩ := Option.isSome_iff_exists.1 ((h.hierarchy_isSome_iff hid).2 hkind)
  refine ⟨hn, hcode, k, hk, ?_⟩
  rw [← hcode]
  exact h.hierarchy?_of_mem hn hk

/-- A kind of member, collected along the ancestors of maybe an earlier model, has under every key
what the nearest type of the present chain has. -/
theorem member_beq_nearest {β : Type} [BEq β] (member : Hierarchy → Dict β)
    (own : Merged → ItemData → Dict β)
    (halone : ∀ o m data status ds, member (Resolve.ownOnly o m data status ds) = own m data)
    (hextend : ∀ o m data parent,
      member (Resolve.extend o m data parent) = (member parent).overlay (own m data))
    (halike : ∀ k k' : Hierarchy, k.Alike k' → (member k == member k') = true)
    {ownOf : Node → Dict β} (hown : ∀ a data, a.data = .item data → ownOf a = own a.toMerged data)
    {n : Node} (hn : n ∈ m.nodes) {k : Hierarchy} (hk : n.hierarchy = some k) (key : String) :
    ((member k).get? key == m.nearest? n.code fun a => (ownOf a).get? key) = true := by
  obtain ⟨id, hid⟩ := List.mem_iff_getElem?.1 hn
  -- `k` may be kept from an earlier build; only a hierarchy computed anew is known to follow the
  -- chain, key order included
  obtain ⟨k', hkk', hc⟩ := h.computed hid hk
  have hrows : ∀ a data, a.data = .item data →
      (ownOf a).entries = (own a.toMerged data).entries := fun a data hd => by rw [hown a data hd]
  have hancestors : m.ancestors n.code = m.items k'.ancestors := by
    unfold Model.ancestors
    rw [h.hierarchy?_of_mem hn hk, ← hkk'.ancestors]
    rfl
  have hmember : member k' = .ofList ((m.ancestors n.code).flatMap fun a => (ownOf a).entries) := by
    rw [hc.member_eq member own (wf_types groups) (halone _) (hextend _), hancestors,
      flatMap_items h.current.merged (fun m data => (own m data).entries) hrows
        (hc.item_of_ancestor (wf_types groups))]
  have hget := ((member k).beq_iff_get? _).1 (halike k k' hkk') key
  rwa [hmember, Dict.get?_ofList_flatMap] at hget

theorem attribute?_beq_nearest (code q : String) :
    (m.attribute? code q true == m.nearest? code fun a => a.ownAttributes.get? q) = true := by
  unfold attribute?
  cases hi : m.item? code with
  | none =>
    rw [nearest?_of_not_item hi]
    rfl
  | some row =>
    obtain ⟨hn, rfl, k, hk, -⟩ := h.hierarchy_of_item? hi
    simp only [if_true, hk]
    refine h.member_beq_nearest Hierarchy.attributes (fun _ data => data.attributes)
      (fun _ _ _ _ _ => rfl) (fun _ _ _ _ => rfl) (fun _ _ hkk' => hkk'.attributes) ?_ hn hk q
    intro a data hd
    simp [Node.ownAttributes, hd, TypeData.item?]

theorem property?_eq_nearest (code key : String) :
    ((m.hierarchy? code).bind fun k => k.properties.get? key) =
      m.nearest? code fun a => a.properties.get? key := by
  cases hi : m.item? code with
  | none =>
    rw [nearest?_of_not_item hi]
    unfold hierarchy?
    rw [hi]
    rfl
  | some row =>
    obtain ⟨hn, rfl, k, hk, hhierarchy⟩ := h.hierarchy_of_item? hi
    rw [hhierarchy]
    exact eq_of_beq (h.member_beq_nearest Hierarchy.properties (fun t _ => t.properties)
      (fun _ _ _ _ _ => rfl) (fun _ _ _ _ => rfl) (fun _ _ hkk' => hkk'.properties)
      (fun _ _ _ => rfl) hn hk key)

theorem relationEnds_eq_reachedEnds (code : String) :
    m.relationEnds code true = m.reachedEnds code := by
  unfold relationEnds reachedEnds
  cases hi : m.item? code with
  | none =>
    rw [ancestors_of_not_item hi]
    unfold hierarchy?
    rw [hi]
    rfl
  | some row =>
    obtain ⟨hn, rfl, k, hk, hhierarchy⟩ := h.hierarchy_of_item? hi
    rw [hhierarchy]
    simp only [if_true]
    rw [h.ends_eq hn hk]
    refine List.flatMap_congr fun a ha => ?_
    -- an ancestor is an item type of the model, so its own ends are those of the relations
    unfold ancestors at ha
    rw [hhierarchy] at ha
    obtain ⟨ha, hkind⟩ := List.mem_filter.1 ha
    obtain ⟨id, -, hid⟩ := List.mem_filterMap.1 ha
    exact h.ownEnds_of_item (List.mem_of_getElem? hid) (by simpa using hkind)

end Built

/-! ## Members -/

/-- An item type for which the nearest type of its chain with the marker states a truth. -/
def CatalogItem (m : Model) (code : String) : Prop :=
  (m.item? code).isSome ∧
    ∃ v ∈ m.nearest? code fun a => a.properties.get? m.config.catalogAwareMarker, Text.isTruthy v

/-- A member that leads to a catalog item. The nearest attribute decides alone; without one, some
relation end has to lead there. -/
def LeadsToCatalog (m : Model) (code q : String) : Prop :=
  match m.nearest? code fun a => a.ownAttributes.get? q with
  | some a => m.CatalogItem a.typeRef
  | none => ∃ e ∈ m.reachedEnds code, e.qualifier = some q ∧ m.CatalogItem e.typeCode

/-- A member that is unique, as nearest attribute or as a relation end. -/
def UniqueMember (m : Model) (code q : String) : Prop :=
  (∃ a ∈ m.nearest? code fun a => a.ownAttributes.get? q, a.modifiers.unique) ∨
    ∃ e ∈ m.reachedEnds code, e.qualifier = some q ∧ e.modifiers.unique

instance (m : Model) (code q : String) : Decidable (m.UniqueMember code q) :=
  inferInstanceAs (Decidable (_ ∨ _))

namespace Built

variable {groups : List Group} {m : Model} (h : Built groups m)

include h

theorem isCatalogItem_iff (code : String) : m.isCatalogItem code = true ↔ m.CatalogItem code := by
  have hmarker := h.property?_eq_nearest code m.config.catalogAwareMarker
  unfold isCatalogItem CatalogItem
  rw [← hmarker]
  cases hi : m.item? code with
  | none => simp [hierarchy?, hi]
  | some row =>
    obtain ⟨-, -, k, -, hhierarchy⟩ := h.hierarchy_of_item? hi
    simp [hhierarchy, Option.any_eq_true]

/-- The attribute that is found and the nearest one, of which it may be an equal from an earlier
build. -/
theorem attribute?_cases (code q : String) :
    m.attribute? code q true = none ∧ (m.nearest? code fun a => a.ownAttributes.get? q) = none ∨
      ∃ a b, m.attribute? code q true = some a ∧
        (m.nearest? code fun a => a.ownAttributes.get? q) = some b ∧
        a.typeRef = b.typeRef ∧ a.modifiers = b.modifiers := by
  have hbeq := h.attribute?_beq_nearest code q
  generalize m.attribute? code q true = found at hbeq ⊢
  generalize m.nearest? code _ = nearest at hbeq ⊢
  cases found with
  | none =>
    cases nearest with
    | none => exact .inl ⟨rfl, rfl⟩
    | some b => cases hbeq
  | some a =>
    cases nearest with
    | none => cases hbeq
    | some b =>
      have hab := (Attribute.beq_iff.1 hbeq).1
      exact .inr ⟨a, b, rfl, rfl, congrArg (·.typeRef) hab, congrArg (·.modifiers) hab⟩

theorem isCatalogAware_iff (code q : String) :
    m.isCatalogAware code q true = true ↔ m.LeadsToCatalog code q := by
  unfold isCatalogAware LeadsToCatalog
  rcases h.attribute?_cases code q with ⟨hfound, hnearest⟩ | ⟨a, b, hfound, hnearest, htype, -⟩
  · rw [hfound, hnearest]
    simp [relationEndsNamed, h.relationEnds_eq_reachedEnds, h.isCatalogItem_iff]
  · rw [hfound, hnearest]
    simp only [htype]
    exact h.isCatalogItem_iff b.typeRef

theorem isUniqueMember_iff (code q : String) :
    Inspection.isUniqueMember m code q = true ↔ m.UniqueMember code q := by
  unfold Inspection.isUniqueMember UniqueMember
  rw [Bool.or_eq_true]
  refine or_congr ?_ ?_
  · rcases h.attribute?_cases code q with ⟨hfound, hnearest⟩ | ⟨a, b, hfound, hnearest, -, hflags⟩
    · simp [hfound, hnearest]
    · simp [hfound, hnearest, Attribute.isUnique, hflags]
  · simp [relationEndsNamed, h.relationEnds_eq_reachedEnds]

theorem filter_isUniqueMember (code text : String) :
    ((Text.commaList text).filter fun q => !Inspection.isUniqueMember m code q) =
      (Text.entries text).filter fun q => ¬m.UniqueMember code q := by
  rw [Text.commaList_eq]
  refine List.filter_congr fun q _ => ?_
  rw [Bool.eq_iff_iff, Bool.not_eq_true', ← Bool.not_eq_true, h.isUniqueMember_iff,
    decide_eq_true_iff]

end Built

end Model

/-- The text that a declaration itself states for a property. -/
def Declaration.stated? (d : Declaration) (key : String) : Option String :=
  (d.properties.get? key).bind Text.propertyString

namespace Inspection

/-! ## Findings of one check -/

/-- What a check finds at a declaration. -/
def raised (m : Model) (d : Declaration) (check : Check) : List Finding :=
  (declaration m {} d).filter fun f => f.check == check

theorem filter_findings (m : Model) (group : Group) (check : Check) :
    ((findings m {} group).filter fun f => f.check == check) =
      group.declarations.flatMap fun d => raised m d check :=
  List.filter_flatMap

theorem filter_check_eq_nil {l : List Finding} {checks : List Check} {check : Check}
    (h : ∀ f ∈ l, f.check ∈ checks) (hc : check ∉ checks) :
    (l.filter fun f => f.check == check) = [] := by
  refine List.filter_eq_nil_iff.2 fun f hf hsame => hc ?_
  rw [← eq_of_beq hsame]
  exact h f hf

theorem filter_check_eq_self {l : List Finding} {check : Check} (h : ∀ f ∈ l, f.check = check) :
    (l.filter fun f => f.check == check) = l :=
  List.filter_eq_self.2 fun f hf => beq_iff_eq.2 (h f hf)

theorem filter_typeName (d : Declaration) {check : Check} (hc : check ∉ [Check.noGenerated]) :
    ((typeName {} d).filter fun f => f.check == check) = [] :=
  filter_check_eq_nil (fun _ hf => List.mem_singleton.2 (Profile.of_mem_flag hf).1) hc

/-- The checks of custom properties speak about item declarations only. -/
theorem raised_of_not_item {m : Model} {d : Declaration} (hkind : d.kind ≠ .item) {check : Check}
    (hcheck : check = .catalogVersion ∨ check = .uniqueKey) : raised m d check = [] := by
  unfold raised declaration
  rw [List.filter_append, filter_typeName d (by rcases hcheck with rfl | rfl <;> decide)]
  cases hb : d.body with
  | item parent attributes indexes => exact absurd (by simp [Declaration.kind, hb, Body.kind]) hkind
  | enum values dynamic =>
    have hvalues : ∀ f ∈ values.flatMap (enumValue {} d.code), f.check ∈ [Check.enumUppercase] :=
      List.forall_mem_flatMap.2 fun v _ f hf => List.mem_singleton.2 (Profile.of_mem_flag hf).1
    exact filter_check_eq_nil hvalues (by rcases hcheck with rfl | rfl <;> decide)
  | relation source target =>
    have hends : ∀ f ∈ endDecl {} source ++ endDecl {} target,
        f.check ∈ [Check.qualifierLowercase, .lists] :=
      List.forall_mem_append.2 ⟨fun f hf => (of_mem_endDecl hf).1, fun f hf => (of_mem_endDecl hf).1⟩
    exact filter_check_eq_nil hends (by rcases hcheck with rfl | rfl <;> decide)
  | _ => rfl

theorem raised_of_item (m : Model) {d : Declaration} (hkind : d.kind = .item) :
    raised m d .catalogVersion = catalogVersion m {} d ∧
      raised m d .uniqueKey = uniqueKey m {} d := by
  have hversion : ∀ f ∈ catalogVersion m {} d, f.check ∈ [Check.catalogVersion] :=
    fun f hf => List.mem_singleton.2 (of_mem_catalogVersion hf).1
  have hkey : ∀ f ∈ uniqueKey m {} d, f.check ∈ [Check.uniqueKey] :=
    fun f hf => List.mem_singleton.2 (of_mem_uniqueKey hf).1
  unfold raised declaration
  cases hb : d.body with
  | item parent attributes indexes =>
    have hattributes : ∀ f ∈ attributes.flatMap (attributeDecl m {}),
        f.check ∈ [Check.qualifierLowercase, .dynamicHandler, .mandatoryInitial, .jaloDeprecated,
          .collections] :=
      List.forall_mem_flatMap.2 fun a _ f hf => (of_mem_attributeDecl hf).1
    simp only [List.filter_append]
    constructor
    · rw [filter_typeName d (by decide), filter_check_eq_nil hattributes (by decide),
        filter_check_eq_nil hkey (by decide),
        filter_check_eq_self fun f hf => (of_mem_catalogVersion hf).1]
      simp
    · rw [filter_typeName d (by decide), filter_check_eq_nil hattributes (by decide),
        filter_check_eq_nil hversion (by decide),
        filter_check_eq_self fun f hf => (of_mem_uniqueKey hf).1]
      simp
  | _ => simp [Declaration.kind, hb, Body.kind] at hkind

/-! ## Verdicts -/

/-- A check of a property speaks at a declaration exactly if the text that the declaration states
for the property is at fault, and then once. -/
structure Decides (m : Model) (d : Declaration) (check : Check) (key : String)
    (fault : String → Prop) (message : String → String) : Prop where
  reported_iff : raised m d check ≠ [] ↔ ∃ text, d.stated? key = some text ∧ text ≠ "" ∧ fault text
  once : ∀ text, d.stated? key = some text → fault text →
    raised m d check = [⟨check, .error, d.location, message text⟩]

/-- A check that flags the stated text if it is at fault. -/
theorem decides_of_flag {m : Model} {d : Declaration} {check : Check} {key : String}
    {fault : String → Prop} {message : String → String} (bad : String → Bool)
    (hseverity : check.severity = .error) (hbad : ∀ text, bad text = true ↔ fault text)
    (hnone : d.stated? key = none → raised m d check = [])
    (hsome : ∀ text, d.stated? key = some text →
      raised m d check = ({} : Profile).flag (bad text) check d.location (message text)) :
    Decides m d check key fault message := by
  have honce : ∀ text, d.stated? key = some text → fault text →
      raised m d check = [⟨check, .error, d.location, message text⟩] := by
    intro text hs hfault
    rw [hsome text hs, (hbad text).2 hfault, ← hseverity]
    rfl
  refine ⟨⟨fun hne => ?_, ?_⟩, honce⟩
  · obtain ⟨text, hs⟩ := Option.ne_none_iff_exists'.1 fun hs => hne (hnone hs)
    obtain ⟨value, -, htext⟩ := Option.bind_eq_some_iff.1 hs
    refine ⟨text, hs, Text.ne_empty_of_propertyString htext, (hbad text).1 ?_⟩
    refine by_contra fun hgood => hne ?_
    rw [hsome text hs, Bool.eq_false_iff.2 hgood]
    rfl
  · rintro ⟨text, hs, -, hfault⟩
    rw [honce text hs hfault]
    exact List.cons_ne_nil _ _

theorem itemProperty?_eq {m : Model} {d : Declaration} (hi : (m.item? d.code).isSome)
    (key : String) : itemProperty? m d key = d.stated? key := by
  obtain ⟨row, hrow⟩ := Option.isSome_iff_exists.1 hi
  unfold itemProperty? Declaration.stated?
  simp [hrow]

theorem itemProperty?_of_not_item {m : Model} {d : Declaration} (hi : m.item? d.code = none)
    (key : String) : itemProperty? m d key = none := by
  unfold itemProperty?
  simp [hi]

theorem raised_of_item?_none {m : Model} {d : Declaration} (hi : m.item? d.code = none) :
    raised m d .catalogVersion = [] ∧ raised m d .uniqueKey = [] := by
  by_cases hkind : d.kind = .item
  · rw [(raised_of_item m hkind).1, (raised_of_item m hkind).2]
    unfold catalogVersion uniqueKey
    rw [itemProperty?_of_not_item hi, itemProperty?_of_not_item hi]
    exact ⟨rfl, rfl⟩
  · exact ⟨raised_of_not_item hkind (.inl rfl), raised_of_not_item hkind (.inr rfl)⟩

open Model

section Items

variable {groups : List Group} {m : Model} (h : Built groups m) {d : Declaration}
  (hkind : d.kind = .item) (hi : (m.item? d.code).isSome)

include h hkind hi

theorem decides_catalogVersion : Decides m d .catalogVersion m.config.catalogVersionKey
    (fun q => ¬m.LeadsToCatalog d.code q)
    fun q => "'" ++ q ++ "' of '" ++ d.code ++ "' does not name a catalog aware attribute" := by
  have hraised := (raised_of_item m hkind).1
  unfold catalogVersion at hraised
  rw [itemProperty?_eq hi] at hraised
  refine decides_of_flag (fun q => !m.isCatalogAware d.code q true) rfl ?_ ?_ ?_
  · intro q
    rw [Bool.not_eq_true', ← Bool.not_eq_true, h.isCatalogAware_iff]
  · intro hs
    rw [hraised, hs]
  · intro q hs
    rw [hraised, hs]

theorem decides_uniqueKey : Decides m d .uniqueKey m.config.uniqueKeyKey
    (fun text => ∃ q ∈ Text.entries text, ¬m.UniqueMember d.code q)
    fun text => "unique key of '" ++ d.code ++ "' names non-unique members: " ++
      ", ".intercalate ((Text.entries text).filter fun q => ¬m.UniqueMember d.code q) := by
  have hraised := (raised_of_item m hkind).2
  unfold uniqueKey at hraised
  rw [itemProperty?_eq hi] at hraised
  simp only [h.filter_isUniqueMember] at hraised
  refine decides_of_flag
    (fun text => !((Text.entries text).filter fun q => ¬m.UniqueMember d.code q).isEmpty)
    rfl ?_ ?_ ?_
  · intro text
    simp
  · intro hs
    rw [hraised, hs]
  · intro text hs
    rw [hraised, hs]

end Items

/-- How the properties of a declaration are judged. -/
structure Judges (m : Model) (d : Declaration) : Prop where
  /-- A catalog version is a member that leads to a catalog item. -/
  catalogVersion : d.kind = .item → (m.item? d.code).isSome →
    Decides m d .catalogVersion m.config.catalogVersionKey
      (fun q => ¬m.LeadsToCatalog d.code q)
      fun q => "'" ++ q ++ "' of '" ++ d.code ++ "' does not name a catalog aware attribute"
  /-- A unique key lists unique members; the others are named in their order. -/
  uniqueKey : d.kind = .item → (m.item? d.code).isSome →
    Decides m d .uniqueKey m.config.uniqueKeyKey
      (fun text => ∃ q ∈ Text.entries text, ¬m.UniqueMember d.code q)
      fun text => "unique key of '" ++ d.code ++ "' names non-unique members: " ++
        ", ".intercalate ((Text.entries text).filter fun q => ¬m.UniqueMember d.code q)
  /-- Of other declarations and of codes that are no item types nothing is required. -/
  silent : d.kind ≠ .item ∨ m.item? d.code = none →
    raised m d .catalogVersion = [] ∧ raised m d .uniqueKey = []

/-- The checks of custom properties decide by resolved, inherited members, in every model at the end
of a history of builds and for every group. -/
theorem judges_of_built {groups : List Group} {m : Model} (h : Built groups m) (group : Group) :
    (∀ check, ((findings m {} group).filter fun f => f.check == check) =
      group.declarations.flatMap fun d => raised m d check) ∧
    ∀ d ∈ group.declarations, Judges m d := by
  refine ⟨filter_findings m group, fun d _ => ⟨?_, ?_, ?_⟩⟩
  · exact decides_catalogVersion h
  · exact decides_uniqueKey h
  · rintro (hkind | hi)
    · exact ⟨raised_of_not_item hkind (.inl rfl), raised_of_not_item hkind (.inr rfl)⟩
    · exact raised_of_item?_none hi

/-- `Copy` inherits a version that leads to a catalog item and hides it behind one that leads to a
type whose own marker is no truth. Of its key it inherits `id` and reaches `part` by a relation. -/
def catalogGroup : Group :=
  .ofRecords ⟨0⟩ ⟨0⟩ [
    { code := some "Catalog", properties := [("catalogItemType", "\"TRUE\"")] },
    { code := some "Retired", parent := some "Catalog", properties := [("catalogItemType", "no")] },
    { code := some "Thing"
      attributes := [{ qualifier := some "version", typeRef := some "Catalog" },
        { qualifier := some "id", modifiers := { unique := some true } }]
      properties := [("catalogVersionAttributeQualifier", " version ")] },
    { code := some "Copy"
      parent := some "Thing"
      attributes := [{ qualifier := some "version", typeRef := some "Retired" },
        { qualifier := some "name" }]
      properties := [("catalogVersionAttributeQualifier", "version"),
        ("uniqueKeyAttributeQualifier", "id, name,, part, size ")] },
    { kind := .relation
      code := some "Parts"
      source := some { typeCode := some "Copy" }
      target := some { typeCode := some "Catalog"
                       qualifier := some "part"
                       modifiers := { unique := some true } } }]

theorem judges_of_built_catalog :
    ∃ m, buildUnless .never [catalogGroup] {} none 1 0 = .ok m ∧
      (∀ d ∈ catalogGroup.declarations, Judges m d) ∧
      (findings m {} catalogGroup).map (fun f => (f.check, f.message)) =
        [(.catalogVersion, "'version' of 'Copy' does not name a catalog aware attribute"),
          (.uniqueKey, "unique key of 'Copy' names non-unique members: name, size")] :=
  ⟨_, rfl, (judges_of_built (.first .never rfl) catalogGroup).2, by decide +kernel⟩

end Inspection

end TypeAtlas
