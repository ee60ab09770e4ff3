/-
Attributes that are declared again. Main statement: of the attributes that the declarations of an
item type state under one qualifier, each is compared with the last one before it, and reported if
both types are known and differ; there is no other report of this kind. So a report about a qualifier
is made exactly if two of its attributes have different known types and no unknown type stands
between them. If the known types agree there is none, and if all types are known every difference is
found; but an attribute without a type hides a difference between those before and those after it.

The findings are followed along the merge loop, beside the attributes taken so far, which tell the
one that the next attribute replaces.
-/
import TypeAtlas.Proofs.Accounting
import TypeAtlas.Proofs.Ends

namespace TypeAtlas

namespace Merge

/-! ## Attributes of one name -/

/-- The attributes that declarations state, in order. -/
def attributesOf (ds : List Declaration) : List AttributeDecl := ds.flatMap fun d => d.body.attributes

/-- The attributes with a qualifier, in order. -/
def named (q : String) (l : List AttributeDecl) : List AttributeDecl :=
  l.filter fun a => a.qualifier == q

/-- The report that an attribute changes the type of an earlier one. -/
def overrideReport (r : AttributeDecl × AttributeDecl) : Diagnostic :=
  .incompatibleOverride r.2.location r.2.qualifier r.2.typeRef r.1.typeRef r.1.location

/-- Whether the types of two attributes are known and differ. -/
def clash (r : AttributeDecl × AttributeDecl) : Bool := incompatible r.1.typeRef r.2.typeRef

/-- The reports about the attributes with a qualifier: each is compared with the one before it. -/
def overridesOf (l : List AttributeDecl) (q : String) : List Diagnostic :=
  (((named q l).zip (named q l).tail).filter clash).map overrideReport

theorem clash_iff {a b : AttributeDecl} :
    clash (a, b) = true ↔ a.typeRef ≠ "" ∧ b.typeRef ≠ "" ∧ a.typeRef ≠ b.typeRef := by
  simp [clash, incompatible, and_assoc]

/-- Two attributes have different known types, and all types between them are known. -/
def Contested (l : List AttributeDecl) : Prop :=
  ∃ before a between b later, l = before ++ a :: (between ++ b :: later) ∧
    (∀ c ∈ between, c.typeRef ≠ "") ∧ clash (a, b) = true

theorem mem_zip_tail_iff {α : Type} {l : List α} {a b : α} :
    (a, b) ∈ l.zip l.tail ↔ ∃ before later, l = before ++ a :: b :: later := by
  induction l with
  | nil => simp
  | cons x l ih =>
    cases l with
    | nil =>
      refine iff_of_false (by simp) ?_
      rintro ⟨before, later, heq⟩
      have := congrArg List.length heq
      simp only [List.length_append, List.length_cons, List.length_nil] at this
      omega
    | cons y l =>
      rw [List.tail_cons, List.zip_cons_cons, List.mem_cons, Prod.mk.injEq]
      constructor
      · rintro (⟨rfl, rfl⟩ | h)
        · exact ⟨[], l, rfl⟩
        · obtain ⟨before, later, heq⟩ := ih.1 h
          exact ⟨x :: before, later, by rw [heq, List.cons_append]⟩
      · rintro ⟨before, later, heq⟩
        cases before with
        | nil =>
          cases heq
          exact .inl ⟨rfl, rfl⟩
        | cons z before => exact .inr (ih.2 ⟨before, later, (List.cons.inj heq).2⟩)

/-- Where all types are known, a difference shows between neighbours. -/
theorem exists_neighbours {a b : AttributeDecl} (h : clash (a, b) = true) :
    ∀ {between : List AttributeDecl}, (∀ c ∈ between, c.typeRef ≠ "") →
      ∃ before x y later, a :: (between ++ [b]) = before ++ x :: y :: later ∧ clash (x, y) = true
  | [], _ => ⟨[], a, b, [], rfl, h⟩
  | c :: between, hknown => by
    obtain ⟨hc, hknown⟩ := List.forall_mem_cons.1 hknown
    obtain ⟨ha, hb, hne⟩ := clash_iff.1 h
    by_cases hac : a.typeRef = c.typeRef
    · have hcb : clash (c, b) = true := clash_iff.2 ⟨hc, hb, hac ▸ hne⟩
      obtain ⟨before, x, y, later, heq, hclash⟩ := exists_neighbours hcb hknown
      exact ⟨a :: before, x, y, later, by rw [List.cons_append, List.cons_append, heq], hclash⟩
    · exact ⟨[], a, c, between ++ [b], rfl, clash_iff.2 ⟨ha, hc, hac⟩⟩

theorem overridesOf_ne_nil_iff {l : List AttributeDecl} {q : String} :
    overridesOf l q ≠ [] ↔ Contested (named q l) := by
  have hpair : overridesOf l q ≠ [] ↔
      ∃ a b, (a, b) ∈ (named q l).zip (named q l).tail ∧ clash (a, b) = true := by
    unfold overridesOf
    rw [ne_eq, List.map_eq_nil_iff, List.filter_eq_nil_iff]
    push Not
    exact Prod.exists
  rw [hpair]
  constructor
  · rintro ⟨a, b, hmem, hclash⟩
    obtain ⟨before, later, heq⟩ := mem_zip_tail_iff.1 hmem
    exact ⟨before, a, [], b, later, heq, List.forall_mem_nil _, hclash⟩
  · rintro ⟨before, a, between, b, later, heq, hknown, hclash⟩
    obtain ⟨front, x, y, back, hxy, hclash'⟩ := exists_neighbours hclash hknown
    refine ⟨x, y, mem_zip_tail_iff.2 ⟨before ++ front, back ++ later, ?_⟩, hclash'⟩
    calc named q l = before ++ (a :: (between ++ [b]) ++ later) := by rw [heq]; simp
      _ = before ++ front ++ x :: y :: (back ++ later) := by rw [hxy]; simp

theorem location_of_mem_overridesOf {l : List AttributeDecl} {q : String} {f : Diagnostic}
    (hf : f ∈ overridesOf l q) :
    f.isUnder .incompatibleOverride = true ∧ ∃ a ∈ named q l, f.location = a.location := by
  obtain ⟨⟨a, b⟩, hmem, rfl⟩ := List.mem_map.1 hf
  have hb := (List.of_mem_zip (List.mem_filter.1 hmem).1).2
  exact ⟨rfl, b, List.mem_of_mem_tail hb, rfl⟩

/-! ## Attributes that come up again -/

/-- The attributes that come up again, each after the last one of its name, given those that were
taken before. -/
def redeclared (done : List AttributeDecl) : List AttributeDecl → List (AttributeDecl × AttributeDecl)
  | [] => []
  | a :: l => ((named a.qualifier done).getLast?.map (·, a)).toList ++ redeclared (done ++ [a]) l

/-- Of those with one qualifier, each comes after the one before it. -/
theorem filter_redeclared (q : String) (l done : List AttributeDecl) :
    (redeclared done l).filter (fun r => r.2.qualifier == q) =
      ((named q done).getLast?.toList ++ named q l).zip
        ((named q done).getLast?.toList ++ named q l).tail := by
  induction l generalizing done with
  | nil => cases h : (named q done).getLast? <;> simp [redeclared, named]
  | cons a l ih =>
    rw [redeclared, List.filter_append, ih (done ++ [a])]
    by_cases ha : a.qualifier = q
    · subst ha
      have hdone : named a.qualifier (done ++ [a]) = named a.qualifier done ++ [a] := by
        simp [named]
      have hl : named a.qualifier (a :: l) = a :: named a.qualifier l := by simp [named]
      rw [hdone, hl]
      cases (named a.qualifier done).getLast? <;> simp
    · have hdone : named q (done ++ [a]) = named q done := by simp [named, ha]
      have hl : named q (a :: l) = named q l := by simp [named, ha]
      rw [hdone, hl]
      cases (named a.qualifier done).getLast? <;> simp [ha]

theorem qualifier_of_mem_redeclared {l done : List AttributeDecl}
    {r : AttributeDecl × AttributeDecl} (hr : r ∈ redeclared done l) :
    r.2.qualifier ∈ l.map AttributeDecl.qualifier := by
  induction l generalizing done with
  | nil => cases hr
  | cons a l ih =>
    rw [List.map_cons, List.mem_cons]
    rcases List.mem_append.1 hr with hr | hr
    · obtain ⟨b, -, rfl⟩ := Option.map_eq_some_iff.1 (Option.mem_toList.1 hr)
      exact .inl rfl
    · exact .inr (ih hr)

/-- The reports about all attributes are those about each qualifier. -/
theorem redeclared_perm (l : List AttributeDecl) :
    (((redeclared [] l).filter clash).map overrideReport).Perm
      ((l.map AttributeDecl.qualifier).eraseDups.flatMap (overridesOf l)) := by
  have hperm := Dict.perm_flatMap_filter (fun r : AttributeDecl × AttributeDecl => r.2.qualifier)
    (Dict.nodup_eraseDups (l.map AttributeDecl.qualifier)) (l := redeclared [] l)
    fun r hr => List.mem_eraseDups.2 (qualifier_of_mem_redeclared hr)
  have hq : ∀ q, (redeclared [] l).filter (fun r => r.2.qualifier == q) =
      (named q l).zip (named q l).tail := fun q => filter_redeclared q l []
  simp only [hq] at hperm
  have hreports := (hperm.filter clash).map overrideReport
  rw [List.filter_flatMap, List.map_flatMap] at hreports
  exact hreports

theorem redeclared_append (l l' done : List AttributeDecl) :
    redeclared done (l ++ l') = redeclared done l ++ redeclared (done ++ l) l' := by
  induction l generalizing done with
  | nil => simp [redeclared]
  | cons a l ih => simp [redeclared, ih (done ++ [a])]

/-! ## Findings of an item type -/

/-- An attribute as it is kept under its qualifier. -/
def attributeRow (code : String) (a : AttributeDecl) : String × Attribute := (a.qualifier, ⟨a, code⟩)

/-- The attribute that another one of its name replaces is the last that was taken. -/
theorem get?_of_lastWins {code : String} {done : List AttributeDecl} {d : Dict Attribute}
    (h : Dict.LastWins (done.map (attributeRow code)) d) (q : String) :
    d.get? q = (named q done).getLast?.map fun b => ⟨b, code⟩ := by
  rw [h.value]
  clear h
  induction done using List.reverseRecOn with
  | nil => rfl
  | append_singleton done b ih =>
    by_cases hb : b.qualifier = q
    · simp [named, attributeRow, hb]
    · have hb' : (q == b.qualifier) = false := beq_false_of_ne (Ne.symm hb)
      simpa [named, attributeRow, hb, hb', List.lookup_cons] using ih

theorem overrideConflict_eq {code : String} {previous : Option AttributeDecl} {a : AttributeDecl} :
    overrideConflict (previous.map fun b => ⟨b, code⟩) a =
      ((previous.map (·, a)).toList.filter clash).map overrideReport := by
  cases previous with
  | none => rfl
  | some b =>
    cases hclash : incompatible b.typeRef a.typeRef <;>
      simp [overrideConflict, clash, overrideReport, hclash]

theorem findings_foldl_addAttribute_eq {code : String} (l done : List AttributeDecl) {p : Progress}
    (h : Dict.LastWins (done.map (attributeRow code)) p.data.attributes) :
    (l.foldl (addAttribute code) p).findings =
      p.findings ++ ((redeclared done l).filter clash).map overrideReport := by
  induction l generalizing done p with
  | nil => simp [redeclared]
  | cons a l ih =>
    have hnext : Dict.LastWins ((done ++ [a]).map (attributeRow code))
        (addAttribute code p a).data.attributes := by
      rw [List.map_append, List.map_singleton]
      exact h.insert a.qualifier ⟨a, code⟩
    have hadded : (addAttribute code p a).findings = p.findings ++
        (((named a.qualifier done).getLast?.map (·, a)).toList.filter clash).map overrideReport := by
      rw [← @overrideConflict_eq code, ← get?_of_lastWins h]
      rfl
    rw [List.foldl_cons, ih (done ++ [a]) hnext, hadded, redeclared, List.filter_append,
      List.map_append, List.append_assoc]

theorem flatMap_attributeRows (code : String) (ds : List Declaration) :
    ds.flatMap (Declaration.attributeRows code) = (attributesOf ds).map (attributeRow code) := by
  unfold attributesOf
  rw [List.map_flatMap]
  rfl

/-- The findings of an item type are under this rule exactly for attributes that come up again with
another type. -/
def ReportsTypes (ds : List Declaration) (findings : List Diagnostic) : Prop :=
  findings.filter (·.isUnder .incompatibleOverride) =
    ((redeclared [] (attributesOf ds)).filter clash).map overrideReport

theorem filter_overrideReport (l : List (AttributeDecl × AttributeDecl)) :
    (l.map overrideReport).filter (·.isUnder .incompatibleOverride) = l.map overrideReport := by
  refine List.filter_eq_self.2 fun f hf => ?_
  obtain ⟨r, -, rfl⟩ := List.mem_map.1 hf
  rfl

theorem filter_findings_addParent (code : String) (location : Location) (p : Progress)
    (parent : Option String) :
    (addParent code location p parent).findings.filter (·.isUnder .incompatibleOverride) =
      p.findings.filter (·.isUnder .incompatibleOverride) := by
  cases parent with
  | none => rfl
  | some parent =>
    have hnone : (parentConflict code location p.data.parent parent).filter
        (·.isUnder .incompatibleOverride) = [] := by
      unfold parentConflict
      split
      · split <;> rfl
      · rfl
    show (p.findings ++ _).filter _ = _
    rw [List.filter_append, hnone, List.append_nil]

theorem ReportsTypes.addItem {code : String} {ds : List Declaration} {p : Progress}
    (h : ReportsTypes ds p.findings) (hown : ItemOf code ds p.data) (d : Declaration) :
    ReportsTypes (ds ++ [d]) (addItem code p d).findings := by
  have hattributes : attributesOf (ds ++ [d]) = attributesOf ds ++ d.body.attributes := by
    simp [attributesOf]
  unfold ReportsTypes
  rw [hattributes, redeclared_append, List.nil_append, List.filter_append, List.map_append, ← h]
  unfold Merge.addItem
  cases d.body with
  | item parent attributes indexes =>
    have hlast : Dict.LastWins ((attributesOf ds).map (attributeRow code))
        (addParent code d.location p parent).data.attributes := by
      rw [data_addParent, ← flatMap_attributeRows]
      exact hown.attributes
    simp only [findings_foldl_addIndex]
    rw [findings_foldl_addAttribute_eq attributes _ hlast, List.filter_append,
      filter_findings_addParent, filter_overrideReport]
    rfl
  | _ => simp [Body.attributes, redeclared]

theorem ReportsTypes.foldl {code : String} (ds done : List Declaration) {p : Progress}
    (h : ReportsTypes done p.findings) (hown : ItemOf code done p.data) :
    ReportsTypes (done ++ ds) (ds.foldl (Merge.addItem code) p).findings := by
  induction ds generalizing done p with
  | nil => simpa using h
  | cons d ds ih => simpa using ih (done ++ [d]) (h.addItem hown d) (hown.addItem d)

theorem reportsTypes_item (code : String) (ds : List Declaration) :
    ReportsTypes ds (item code ds).findings :=
  ReportsTypes.foldl ds [] rfl ⟨rfl, Dict.lastWins_empty, Dict.lastWins_empty⟩

/-- The item declarations of a code, in merge order. -/
def itemDeclarationsOf (groups : List Group) (code : String) : List Declaration :=
  (declarationsOf groups code).filter fun d => d.kind == .item

theorem reportsTypes_findingsOf {groups : List Group} {code : String} {winner : Declaration}
    (hwinner : (declarationsOf groups code).getLast? = some winner) (hitem : winner.kind = .item) :
    ReportsTypes (itemDeclarationsOf groups code) (findingsOf (declarations groups) code) := by
  obtain ⟨parent, attributes, indexes, hbody⟩ :
      ∃ parent attributes indexes, winner.body = .item parent attributes indexes := by
    unfold Declaration.kind at hitem
    cases hb : winner.body with
    | item parent attributes indexes => exact ⟨parent, attributes, indexes, rfl⟩
    | _ => rw [hb] at hitem; cases hitem
  have hfindings : findingsOf (declarations groups) code =
      kindConflicts code winner (declarationsOf groups code) ++
        (item code (itemDeclarationsOf groups code)).findings := by
    show ((type? 0 code (declarationsOf groups code)).map Prod.snd).getD [] = _
    unfold type?
    rw [hwinner]
    simp [data, hbody, contributing, itemDeclarationsOf, hitem]
  have hkinds : (kindConflicts code winner (declarationsOf groups code)).filter
      (·.isUnder .incompatibleOverride) = [] := by
    refine List.filter_eq_nil_iff.2 fun f hf => ?_
    obtain ⟨d, -, rfl⟩ := List.mem_map.1 hf
    exact Bool.false_ne_true
  unfold ReportsTypes
  rw [hfindings, List.filter_append, hkinds, List.nil_append]
  exact reportsTypes_item code _

/-! ## What is found and what is not -/

/-- The findings about the attributes of an item type, of every qualifier. -/
structure TypesCompared (attributes : List AttributeDecl) (findings : List Diagnostic) : Prop where
  /-- There are no others than those about some qualifier. -/
  account : (findings.filter (·.isUnder .incompatibleOverride)).Perm
    ((attributes.map AttributeDecl.qualifier).eraseDups.flatMap (overridesOf attributes))
  found : ∀ q, overridesOf attributes q ≠ [] ↔ Contested (named q attributes)
  /-- Each is at the place of an attribute with the qualifier. -/
  places : ∀ q, ∀ f ∈ overridesOf attributes q,
    f.isUnder .incompatibleOverride = true ∧ ∃ a ∈ named q attributes, f.location = a.location
  /-- If the known types agree there is none. -/
  silent : ∀ q, (∀ a ∈ named q attributes, ∀ b ∈ named q attributes,
    a.typeRef ≠ "" → b.typeRef ≠ "" → a.typeRef = b.typeRef) → overridesOf attributes q = []
  /-- Without unknown types every difference is found. -/
  complete : ∀ q, (∀ a ∈ named q attributes, a.typeRef ≠ "") →
    (∃ a ∈ named q attributes, ∃ b ∈ named q attributes, a.typeRef ≠ b.typeRef) →
      overridesOf attributes q ≠ []

theorem clash_of_contested {l : List AttributeDecl} (h : Contested l) :
    ∃ a ∈ l, ∃ b ∈ l, clash (a, b) = true := by
  obtain ⟨before, a, between, b, later, rfl, -, hclash⟩ := h
  exact ⟨a, by simp, b, by simp, hclash⟩

theorem clash_comm {a b : AttributeDecl} (h : clash (a, b) = true) : clash (b, a) = true := by
  obtain ⟨ha, hb, hne⟩ := clash_iff.1 h
  exact clash_iff.2 ⟨hb, ha, hne.symm⟩

theorem contested_of_known {l : List AttributeDecl} (hknown : ∀ a ∈ l, a.typeRef ≠ "")
    {a b : AttributeDecl} (ha : a ∈ l) (hb : b ∈ l) (hclash : clash (a, b) = true) :
    Contested l := by
  obtain ⟨before, later, rfl⟩ := List.append_of_mem ha
  have hne : a ≠ b := by
    rintro rfl
    exact (clash_iff.1 hclash).2.2 rfl
  -- the other attribute stands after `a` or before it
  rcases List.mem_append.1 hb with hb | hb
  · obtain ⟨front, between, rfl⟩ := List.append_of_mem hb
    refine ⟨front, b, between, a, later, by simp, fun c hc => ?_, clash_comm hclash⟩
    exact hknown c (by simp [hc])
  · obtain ⟨between, back, rfl⟩ :=
      List.append_of_mem ((List.mem_cons.1 hb).resolve_left (Ne.symm hne))
    exact ⟨before, a, between, b, back, rfl, fun c hc => hknown c (by simp [hc]), hclash⟩

theorem ReportsTypes.typesCompared {ds : List Declaration} {findings : List Diagnostic}
    (h : ReportsTypes ds findings) : TypesCompared (attributesOf ds) findings := by
  refine ⟨?_, fun q => overridesOf_ne_nil_iff, fun q f => location_of_mem_overridesOf,
    fun q hagree => ?_, fun q hknown hdiffer => ?_⟩
  · rw [h]
    exact redeclared_perm _
  · by_contra hfound
    obtain ⟨a, ha, b, hb, hclash⟩ := clash_of_contested (overridesOf_ne_nil_iff.1 hfound)
    obtain ⟨haknown, hbknown, hne⟩ := clash_iff.1 hclash
    exact hne (hagree a ha b hb haknown hbknown)
  · obtain ⟨a, ha, b, hb, hne⟩ := hdiffer
    have hclash : clash (a, b) = true := clash_iff.2 ⟨hknown a ha, hknown b hb, hne⟩
    exact overridesOf_ne_nil_iff.2 (contested_of_known hknown ha hb hclash)

end Merge

namespace Model

/-- The last declaration of a code has the kind of its type. -/
theorem exists_winner {groups : List Group} {config : Config} {previous : Option Model}
    {generation revision : Nat} {code : String} {n : Node}
    (hn : (build groups config previous generation revision).find? code = some n) :
    ∃ winner, (Merge.declarationsOf groups code).getLast? = some winner ∧ winner.kind = n.kind := by
  have hm := map_toMerged_build groups config generation revision previous
  have hcodes := Merge.nodup_types_code groups
  obtain ⟨hmem, rfl⟩ := (find?_eq_some_iff hm hcodes).1 hn
  obtain ⟨i, hi⟩ := List.mem_iff_getElem?.1 hmem
  obtain ⟨d, hd, hcode⟩ := Merge.mem_codes.1
    (List.mem_of_getElem? (Merge.types_eq_some (toMerged_of_node? hm hi)).2.1)
  obtain ⟨j, m, winner, hj, hwinner, hfrom⟩ := Merge.exists_mergedFrom hd
  obtain ⟨n', hn', hmerged⟩ := exists_node? hm hj
  have hfind := find?_of_node? hm hcodes hn'
  rw [show n'.code = n.code by rw [hmerged, hfrom.code, hcode], hn] at hfind
  cases hfind
  rw [hcode] at hwinner
  exact ⟨winner, hwinner, by rw [Merged.kind, hmerged]; exact hfrom.kind.symm⟩

/-- The attributes that item declarations state under one qualifier are compared each with the one
before it, and reported if both types are known and differ: a report about a qualifier is made
exactly if two of its attributes have different known types and no unknown type stands between
them. -/
theorem typesCompared_of_find? {groups : List Group} {config : Config} {previous : Option Model}
    {generation revision : Nat} {code : String} {n : Node}
    (hn : (build groups config previous generation revision).find? code = some n)
    (hitem : n.isItem = true) :
    Merge.TypesCompared (Merge.attributesOf (Merge.itemDeclarationsOf groups code))
        (Merge.findingsOf (Merge.declarations groups) code) ∧
      (build groups config previous generation revision).diagnostics =
        groups.flatMap Group.diagnostics ++
          (Merge.codes (Merge.declarations groups)).flatMap
            (Merge.findingsOf (Merge.declarations groups)) ++
          structuralFindings (build groups config previous generation revision).nodes := by
  obtain ⟨winner, hwinner, hkind⟩ := exists_winner hn
  have hitem' : winner.kind = .item := hkind.trans (beq_iff_eq.1 hitem)
  refine ⟨(Merge.reportsTypes_findingsOf hwinner hitem').typesCompared, ?_⟩
  rw [← Merge.flatMap_snd_all]
  rfl

/-- Files that declare the attribute `weight` of the item type `A`, each with its own type. -/
def weightGroups (typeRefs : List String) : List Group :=
  typeRefs.zipIdx.map fun (typeRef, file) =>
    ⟨⟨file⟩, ⟨0⟩, [⟨"A", .item none [⟨"weight", typeRef, false, .property, {}, none, none, .empty,
      ⟨⟨file⟩, 4, 9, by decide⟩⟩] [], .empty, ⟨⟨0⟩, ⟨⟨file⟩, 0, 12, by decide⟩⟩⟩], []⟩

/-- The second file changes the type and is reported; the last one changes it again, but the type is
unknown before. -/
theorem typesCompared_of_find?_fourth :
    ∃ n, (build (weightGroups ["Integer", "String", "", "Double"]) {} none 1 0).find? "A" = some n ∧
      n.isItem = true ∧
      Merge.TypesCompared
        (Merge.attributesOf (Merge.itemDeclarationsOf
          (weightGroups ["Integer", "String", "", "Double"]) "A"))
        (Merge.findingsOf
          (Merge.declarations (weightGroups ["Integer", "String", "", "Double"])) "A") ∧
      (Merge.findingsOf (Merge.declarations (weightGroups ["Integer", "String", "", "Double"]))
        "A").map (fun f => (f.code, f.location.file)) = [(some "W0001", ⟨1⟩)] := by
  have hn : (build (weightGroups ["Integer", "String", "", "Double"]) {} none 1 0).find? "A" =
    some _ := rfl
  exact ⟨_, hn, rfl, (typesCompared_of_find? hn rfl).1, rfl⟩

/-- An attribute whose type is not stated hides the change from `Integer` to `String`: nothing is
reported at all. -/
theorem unreported_of_unknown_between :
    ∃ n a b, (build (weightGroups ["Integer", "", "String"]) {} none 1 0).find? "A" = some n ∧
      n.isItem = true ∧
      a ∈ Merge.named "weight" (Merge.attributesOf (Merge.itemDeclarationsOf
        (weightGroups ["Integer", "", "String"]) "A")) ∧
      b ∈ Merge.named "weight" (Merge.attributesOf (Merge.itemDeclarationsOf
        (weightGroups ["Integer", "", "String"]) "A")) ∧
      a.typeRef ≠ "" ∧ b.typeRef ≠ "" ∧ a.typeRef ≠ b.typeRef ∧
      (build (weightGroups ["Integer", "", "String"]) {} none 1 0).diagnostics = [] := by
  refine ⟨_, _, _, rfl, rfl, .head _, .tail _ (.tail _ (.head _)), ?_, ?_, ?_, rfl⟩ <;> decide

end Model

end TypeAtlas
