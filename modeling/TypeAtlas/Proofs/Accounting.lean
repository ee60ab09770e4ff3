/-
What becomes of each declaration in a merge. Main statement: a declaration of a code stands in the
provenance of the type if it has the kind of the last one, and else has a report of its own at its
place, so that none is lost or counted twice. Those that are reported have no other effect on the
type. A stated parent is compared with the last one before it only, and yet a report is made exactly
if two of the stated parents differ.

The findings of an item type are followed along the merge loop, beside the description of its data
by the declarations merged so far (`ItemOf`), which tells the parent that the next one meets.
-/
import TypeAtlas.Proofs.Contributions
import TypeAtlas.Proofs.Independence
import Mathlib.Data.List.Perm.Basic

namespace TypeAtlas

/-- Whether a finding is filed under a rule. -/
def Diagnostic.isUnder (rule : Rule) (f : Diagnostic) : Bool := f.code == some rule.code

namespace Merge

/-! ## Stated parents -/

/-- Two of the names differ. -/
def Disputed (names : List String) : Prop := ∃ a ∈ names, ∃ b ∈ names, a ≠ b

/-- To find a difference it is enough to compare each name with the one before it. -/
theorem disputed_concat {names : List String} {name : String} :
    Disputed (names ++ [name]) ↔
      Disputed names ∨ ∃ last, names.getLast? = some last ∧ last ≠ name := by
  constructor
  · intro hdisputed
    by_cases hall : ∀ c ∈ names, c = name
    · obtain ⟨a, ha, b, hb, hne⟩ := hdisputed
      have hsame : ∀ c ∈ names ++ [name], c = name := by
        intro c hc
        rcases List.mem_append.1 hc with hc | hc
        · exact hall c hc
        · exact List.mem_singleton.1 hc
      exact absurd ((hsame a ha).trans (hsame b hb).symm) hne
    · push Not at hall
      obtain ⟨c, hc, hcname⟩ := hall
      obtain ⟨last, hlast⟩ := Option.isSome_iff_exists.1
        (List.getLast?_isSome.2 (List.ne_nil_of_mem hc))
      -- if the last name is the new one, then it differs from `c` already
      by_cases h : last = name
      · exact .inl ⟨c, hc, last, List.mem_of_getLast? hlast, h ▸ hcname⟩
      · exact .inr ⟨last, hlast, h⟩
  · rintro (⟨a, ha, b, hb, hne⟩ | ⟨last, hlast, hne⟩)
    · exact ⟨a, List.mem_append_left _ ha, b, List.mem_append_left _ hb, hne⟩
    · exact ⟨last, List.mem_append_left _ (List.mem_of_getLast? hlast), name, by simp, hne⟩

/-- The parents that declarations state, in order. -/
def parentsOf (ds : List Declaration) : List String := ds.filterMap fun d => d.body.parent?

theorem parentsOf_concat (ds : List Declaration) (d : Declaration) :
    parentsOf (ds ++ [d]) = parentsOf ds ++ d.body.parent?.toList := by
  unfold parentsOf
  rw [List.filterMap_append]
  cases h : d.body.parent? <;> simp [h]

theorem map_code_link? (ds : List Declaration) :
    (ds.filterMap Declaration.link?).map Extends.code = parentsOf ds := by
  unfold parentsOf
  rw [List.map_filterMap]
  refine List.filterMap_congr fun d _ => ?_
  unfold Declaration.link?
  cases d.body.parent? <;> rfl

/-- While declarations are merged the parent is the last one that is stated. -/
theorem ItemOf.parent_code {code : String} {ds : List Declaration} {own : ItemData}
    (h : ItemOf code ds own) : own.parent.map Extends.code = (parentsOf ds).getLast? := by
  rw [h.parent, ← map_code_link?, List.getLast?_map]

/-! ## Findings of an item type -/

theorem parentConflict_any {code : String} {location : Location} {previous : Option Extends}
    {parent : String} :
    ((parentConflict code location previous parent).any (·.isUnder .conflictingParent) = true ↔
      ∃ last, previous.map Extends.code = some last ∧ last ≠ parent) ∧
    ∀ f ∈ parentConflict code location previous parent, f.isUnder .conflictingKind = false := by
  unfold parentConflict
  cases previous with
  | none => simp
  | some p =>
    by_cases h : p.code = parent
    · simp [h]
    · simp only [h, if_false, Option.map_some, Option.some.injEq, List.forall_mem_singleton]
      exact ⟨iff_of_true rfl ⟨_, rfl, h⟩, rfl⟩

theorem findings_foldl_addAttribute (code : String) (l : List AttributeDecl) (p : Progress) :
    ∃ overrides : List Diagnostic, (∀ f ∈ overrides, f.code = some Rule.incompatibleOverride.code) ∧
      (l.foldl (addAttribute code) p).findings = p.findings ++ overrides := by
  induction l generalizing p with
  | nil => exact ⟨[], List.forall_mem_nil _, (List.append_nil _).symm⟩
  | cons a l ih =>
    obtain ⟨overrides, hrule, hfindings⟩ := ih (addAttribute code p a)
    refine ⟨overrideConflict (p.data.attributes.get? a.qualifier) a ++ overrides, ?_, ?_⟩
    · refine List.forall_mem_append.2 ⟨?_, hrule⟩
      unfold overrideConflict
      split
      · split
        · exact List.forall_mem_singleton.2 rfl
        · exact List.forall_mem_nil _
      · exact List.forall_mem_nil _
    · rw [List.foldl_cons, hfindings, ← List.append_assoc]
      rfl

theorem findings_foldl_addIndex (code : String) (l : List IndexDecl) (p : Progress) :
    (l.foldl (addIndex code) p).findings = p.findings := by
  induction l generalizing p with
  | nil => rfl
  | cons i l ih => exact ih (addIndex code p i)

/-- What one declaration adds to the findings: its parent against the one before it, and attributes
that change their type. -/
theorem findings_addItem (code : String) (p : Progress) (d : Declaration) :
    ∃ overrides : List Diagnostic, (∀ f ∈ overrides, f.code = some Rule.incompatibleOverride.code) ∧
      (addItem code p d).findings = p.findings ++
        (d.body.parent?.toList.flatMap (parentConflict code d.location p.data.parent) ++
          overrides) := by
  unfold addItem
  cases d.body with
  | item parent attributes indexes =>
    obtain ⟨overrides, hrule, hfindings⟩ :=
      findings_foldl_addAttribute code attributes (addParent code d.location p parent)
    refine ⟨overrides, hrule, ?_⟩
    rw [findings_foldl_addIndex, hfindings, ← List.append_assoc]
    cases parent <;> simp [addParent, Body.parent?]
  | _ => exact ⟨[], List.forall_mem_nil _, by simp [Body.parent?]⟩

/-- The findings of an item type that declarations make: a parent is reported exactly if two of the
stated ones differ. -/
structure ReportsParents (ds : List Declaration) (findings : List Diagnostic) : Prop where
  parent : findings.any (·.isUnder .conflictingParent) = true ↔ Disputed (parentsOf ds)
  kind : ∀ f ∈ findings, f.isUnder .conflictingKind = false

theorem ReportsParents.addItem {code : String} {ds : List Declaration} {p : Progress}
    (h : ReportsParents ds p.findings) (hown : ItemOf code ds p.data) (d : Declaration) :
    ReportsParents (ds ++ [d]) (addItem code p d).findings := by
  obtain ⟨overrides, hrule, hfindings⟩ := findings_addItem code p d
  have hoverrides : ∀ rule : Rule, rule.code ≠ Rule.incompatibleOverride.code →
      ∀ f ∈ overrides, f.isUnder rule = false := by
    intro rule hne f hf
    simp [Diagnostic.isUnder, hrule f hf, hne.symm]
  have hsilent : overrides.any (·.isUnder .conflictingParent) = false := by
    refine List.any_eq_false.2 fun f hf => ?_
    rw [hoverrides .conflictingParent (by decide) f hf]
    exact Bool.false_ne_true
  rw [hfindings]
  cases hparent : d.body.parent? with
  | none =>
    constructor
    · rw [parentsOf_concat, hparent]
      simp [h.parent, hsilent]
    · exact List.forall_mem_append.2 ⟨h.kind, hoverrides _ (by decide)⟩
  | some parent =>
    obtain ⟨hany, hkind⟩ := @parentConflict_any code d.location p.data.parent parent
    constructor
    · rw [parentsOf_concat, hparent, Option.toList_some, disputed_concat, ← h.parent,
        ← hown.parent_code, ← hany]
      simp [hsilent]
    · refine List.forall_mem_append.2 ⟨h.kind, List.forall_mem_append.2 ⟨?_, ?_⟩⟩
      · simpa using hkind
      · exact hoverrides _ (by decide)

theorem ReportsParents.foldl {code : String} (ds done : List Declaration) {p : Progress}
    (h : ReportsParents done p.findings) (hown : ItemOf code done p.data) :
    ReportsParents (done ++ ds) (ds.foldl (Merge.addItem code) p).findings := by
  induction ds generalizing done p with
  | nil => simpa using h
  | cons d ds ih => simpa using ih (done ++ [d]) (h.addItem hown d) (hown.addItem d)

theorem reportsParents_item (code : String) (ds : List Declaration) :
    ReportsParents ds (item code ds).findings := by
  refine ReportsParents.foldl ds [] ⟨iff_of_false nofun ?_, List.forall_mem_nil _⟩
    ⟨rfl, Dict.lastWins_empty, Dict.lastWins_empty⟩
  rintro ⟨a, ha, -⟩
  cases ha

/-! ## Findings of a type -/

theorem isUnder_of_mem_data {code : String} {winner : Declaration} {parts : List Declaration}
    {f : Diagnostic} (hf : f ∈ (data code winner parts).2) :
    f.isUnder .conflictingKind = false := by
  unfold data at hf
  split at hf
  · exact (reportsParents_item code parts).kind f hf
  all_goals cases hf

theorem data_any {code : String} {winner : Declaration} {parts : List Declaration} :
    (data code winner parts).2.any (·.isUnder .conflictingParent) = true ↔
      winner.kind = .item ∧ Disputed (parentsOf parts) := by
  unfold data Declaration.kind
  cases winner.body with
  | item parent attributes indexes =>
    exact (reportsParents_item code parts).parent.trans (and_iff_right rfl).symm
  | _ => exact iff_of_false nofun fun h => nomatch h.1

theorem filter_kindConflicts (code : String) (winner : Declaration) (ds : List Declaration) :
    (kindConflicts code winner ds).filter (·.isUnder .conflictingKind) =
        kindConflicts code winner ds ∧
      (kindConflicts code winner ds).any (·.isUnder .conflictingParent) = false := by
  unfold kindConflicts
  constructor
  · refine List.filter_eq_self.2 fun f hf => ?_
    obtain ⟨d, -, rfl⟩ := List.mem_map.1 hf
    rfl
  · refine List.any_eq_false.2 fun f hf => ?_
    obtain ⟨d, -, rfl⟩ := List.mem_map.1 hf
    exact Bool.false_ne_true

/-- The findings of the merge about a code. -/
def findingsOf (ds : List Declaration) (code : String) : List Diagnostic :=
  ((type? 0 code (ds.filter fun d => d.code == code)).map Prod.snd).getD []

/-- Nothing but the id depends on the position. -/
theorem type?_position (id : TypeId) (code : String) (ds : List Declaration) :
    type? id code ds = (type? 0 code ds).map fun x => ({ x.1 with id }, x.2) := by
  unfold type?
  cases ds.getLast? <;> rfl

/-- The findings of the merge are those about the declared codes, in their order. -/
theorem flatMap_snd_all (ds : List Declaration) :
    (all ds).flatMap Prod.snd = (codes ds).flatMap (findingsOf ds) := by
  have hcode : ∀ x : String × TypeId,
      (type? x.2 x.1 (ds.filter fun d => d.code == x.1)).toList.flatMap Prod.snd =
        findingsOf ds x.1 := by
    rintro ⟨code, id⟩
    unfold findingsOf
    rw [type?_position id]
    cases type? 0 code (ds.filter fun d => d.code == code) <;> simp
  unfold all
  rw [List.filterMap_eq_flatMap_toList, List.flatMap_assoc]
  simp only [hcode]
  rw [← List.flatMap_map Prod.fst, List.zipIdx_map_fst]

/-! ## Declarations of another kind -/

theorem getLast?_contributing {ds : List Declaration} {winner : Declaration}
    (h : ds.getLast? = some winner) : (contributing winner ds).getLast? = some winner := by
  obtain ⟨before, rfl⟩ := List.getLast?_eq_some_iff.1 h
  simp [contributing]

/-- The type is that of the declarations of the winning kind alone. -/
theorem map_fst_type?_contributing {ds : List Declaration} {winner : Declaration}
    (h : ds.getLast? = some winner) (id : TypeId) (code : String) :
    (type? id code (contributing winner ds)).map Prod.fst = (type? id code ds).map Prod.fst := by
  have hparts : contributing winner (contributing winner ds) = contributing winner ds := by
    simp [contributing]
  unfold type?
  rw [getLast?_contributing h, h]
  simp [hparts]

end Merge

/-- A group without the declarations of a code that have another kind. -/
def Group.only (code : String) (kind : Kind) (g : Group) : Group :=
  { g with declarations := g.declarations.filter fun d => d.code != code || d.kind == kind }

namespace Merge

theorem declarations_only (groups : List Group) (code : String) (kind : Kind) :
    declarations (groups.map (Group.only code kind)) =
      (declarations groups).filter fun d => d.code != code || d.kind == kind := by
  unfold declarations
  rw [List.flatMap_map, List.filter_flatMap]
  rfl

theorem declarationsOf_only (groups : List Group) (code : String) (winner : Declaration) :
    declarationsOf (groups.map (Group.only code winner.kind)) code =
      contributing winner (declarationsOf groups code) := by
  unfold declarationsOf contributing
  rw [declarations_only, List.filter_filter, List.filter_filter]
  refine List.filter_congr fun d _ => ?_
  by_cases h : d.code = code
  · simp [h]
  · simp [beq_false_of_ne h]

/-- Declarations of another kind have no part in the type. -/
theorem typeOf?_only {groups : List Group} {code : String} {winner : Declaration}
    (hwinner : (declarationsOf groups code).getLast? = some winner) :
    typeOf? (declarations (groups.map (Group.only code winner.kind))) code =
      typeOf? (declarations groups) code := by
  show (type? 0 code (declarationsOf (groups.map (Group.only code winner.kind)) code)).map
    Prod.fst = _
  rw [declarationsOf_only]
  exact map_fst_type?_contributing hwinner 0 code

/-- What becomes of the declarations of a code, the last of which is `winner`, in the type that they
make and in the findings about them. -/
structure Accounted (code : String) (ds : List Declaration) (winner : Declaration) (m : Merged)
    (findings : List Diagnostic) : Prop where
  provenance : m.provenance =
    (ds.filter fun d => d.kind == winner.kind).map Declaration.provenance
  reported : findings.filter (·.isUnder .conflictingKind) =
    (ds.filter fun d => d.kind != winner.kind).map fun d =>
      .conflictingKind d.location code d.kind.display winner.kind.display winner.location
  /-- Each report is at the place of its declaration and refers to that of the last one. -/
  places : ((findings.filter (·.isUnder .conflictingKind)).map fun f =>
      (f.location, f.related.map Related.location)) =
    (ds.filter fun d => d.kind != winner.kind).map fun d => (d.location, [winner.location])
  /-- Every declaration is in the provenance or reported, and only once. -/
  balanced : (m.provenance.map Provenance.location ++
      (findings.filter (·.isUnder .conflictingKind)).map Diagnostic.location).Perm
    (ds.map Declaration.location)
  disputed : (∃ f ∈ findings, f.isUnder .conflictingParent = true) ↔
    winner.kind = .item ∧ ∃ d ∈ ds, ∃ d' ∈ ds, ∃ parent parent', d.kind = .item ∧ d'.kind = .item ∧
      d.body.parent? = some parent ∧ d'.body.parent? = some parent' ∧ parent ≠ parent'

theorem disputed_parentsOf_iff {ds : List Declaration} {winner : Declaration}
    (hitem : winner.kind = .item) : Disputed (parentsOf (contributing winner ds)) ↔
      ∃ d ∈ ds, ∃ d' ∈ ds, ∃ parent parent', d.kind = .item ∧ d'.kind = .item ∧
        d.body.parent? = some parent ∧ d'.body.parent? = some parent' ∧ parent ≠ parent' := by
  have hmem : ∀ name, name ∈ parentsOf (contributing winner ds) ↔
      ∃ d ∈ ds, d.kind = .item ∧ d.body.parent? = some name := by
    intro name
    simp [parentsOf, contributing, hitem, and_assoc]
  constructor
  · rintro ⟨a, ha, b, hb, hne⟩
    obtain ⟨d, hd, hkind, hparent⟩ := (hmem a).1 ha
    obtain ⟨d', hd', hkind', hparent'⟩ := (hmem b).1 hb
    exact ⟨d, hd, d', hd', a, b, hkind, hkind', hparent, hparent', hne⟩
  · rintro ⟨d, hd, d', hd', a, b, hkind, hkind', hparent, hparent', hne⟩
    exact ⟨a, (hmem a).2 ⟨d, hd, hkind, hparent⟩, b, (hmem b).2 ⟨d', hd', hkind', hparent'⟩, hne⟩

theorem accounted_type? {id : TypeId} {code : String} {ds : List Declaration} {m : Merged}
    {findings : List Diagnostic} {winner : Declaration} (hwinner : ds.getLast? = some winner)
    (h : type? id code ds = some (m, findings)) : Accounted code ds winner m findings := by
  unfold type? at h
  rw [hwinner, Option.map_some, Option.some.injEq, Prod.mk.injEq] at h
  obtain ⟨rfl, rfl⟩ := h
  obtain ⟨hkinds, hsilent⟩ := filter_kindConflicts code winner ds
  have hreported : (kindConflicts code winner ds ++
      (data code winner (contributing winner ds)).2).filter (·.isUnder .conflictingKind) =
        kindConflicts code winner ds := by
    have hnone : (data code winner (contributing winner ds)).2.filter
        (·.isUnder .conflictingKind) = [] :=
      List.filter_eq_nil_iff.2 fun f hf => by
        rw [isUnder_of_mem_data hf]
        exact Bool.false_ne_true
    rw [List.filter_append, hkinds, hnone, List.append_nil]
  refine ⟨rfl, hreported, ?_, ?_, ?_⟩
  · rw [hreported]
    unfold kindConflicts
    rw [List.map_map]
    rfl
  · rw [hreported]
    unfold kindConflicts
    rw [List.map_map, List.map_map]
    show (List.map Declaration.location _ ++ List.map Declaration.location _).Perm _
    rw [← List.map_append]
    exact (List.filter_append_perm _ ds).map _
  · rw [← List.any_eq_true, List.any_append, hsilent, Bool.false_or, data_any]
    exact and_congr_right disputed_parentsOf_iff

end Merge

namespace Model

/-- The type of a declared code in a model of the groups. -/
theorem find?_of_typeOf? {groups : List Group} {code : String} {t : Merged}
    (h : Merge.typeOf? (Merge.declarations groups) code = some t) (config : Config)
    (previous : Option Model) (generation revision : Nat) :
    ∃ n, (build groups config previous generation revision).find? code = some n ∧
      n.toMerged = { t with id := n.id } := by
  have hm := map_toMerged_build groups config generation revision previous
  obtain ⟨i, hi⟩ := Merge.exists_getElem?_types h
  obtain ⟨n, hn, hmerged⟩ := exists_node? hm hi
  refine ⟨n, ?_, by rw [hmerged]⟩
  have hcode : n.code = code := by
    rw [hmerged, Merge.typeOf?_code h]
  rw [← hcode]
  exact find?_of_node? hm (Merge.nodup_types_code groups) hn

/-- No declaration disappears silently: each declaration of a code has the winning kind and stands
in the provenance, or has another kind and is reported, and the type is the same without those that
are reported. Differing parents are reported exactly if there are any. -/
theorem accounted_of_getLast? {groups : List Group} {code : String} {winner : Declaration}
    (hwinner : (Merge.declarationsOf groups code).getLast? = some winner) (config : Config)
    (previous : Option Model) (generation revision : Nat) :
    ∃ n, (build groups config previous generation revision).find? code = some n ∧
      Merge.Accounted code (Merge.declarationsOf groups code) winner n.toMerged
        (Merge.findingsOf (Merge.declarations groups) code) ∧
      (build groups config previous generation revision).diagnostics =
        groups.flatMap Group.diagnostics ++
          (Merge.codes (Merge.declarations groups)).flatMap
            (Merge.findingsOf (Merge.declarations groups)) ++
          structuralFindings (build groups config previous generation revision).nodes ∧
      ∀ config' previous' generation' revision', ∃ n',
        (build (groups.map (Group.only code winner.kind)) config' previous' generation'
          revision').find? code = some n' ∧
        n'.data = n.data ∧ n'.properties = n.properties ∧ n'.location = n.location ∧
        n'.provenance = n.provenance := by
  obtain ⟨t, findings, ht⟩ : ∃ t findings,
      Merge.type? 0 code (Merge.declarationsOf groups code) = some (t, findings) := by
    unfold Merge.type?
    rw [hwinner]
    exact ⟨_, _, rfl⟩
  have htype : Merge.typeOf? (Merge.declarations groups) code = some t :=
    congrArg (·.map Prod.fst) ht
  have hfindings : Merge.findingsOf (Merge.declarations groups) code = findings :=
    congrArg (fun x => (x.map Prod.snd).getD []) ht
  obtain ⟨n, hn, hmerged⟩ := find?_of_typeOf? htype config previous generation revision
  refine ⟨n, hn, ?_, ?_, fun config' previous' generation' revision' => ?_⟩
  · have hat : Merge.type? n.id code (Merge.declarationsOf groups code) =
        some (n.toMerged, findings) := by
      rw [Merge.type?_position, ht, hmerged]
      rfl
    rw [hfindings]
    exact Merge.accounted_type? hwinner hat
  · rw [← Merge.flatMap_snd_all]
    rfl
  · obtain ⟨n', hn', hmerged'⟩ := find?_of_typeOf? ((Merge.typeOf?_only hwinner).trans htype)
      config' previous' generation' revision'
    refine ⟨n', hn', ?_⟩
    rw [hmerged, hmerged']
    exact ⟨rfl, rfl, rfl, rfl⟩

/-- Three files declare the item type `A`, the second one with another parent than the first one and
the third one without any; before each of the first two `A` is declared as something else. -/
def contestedGroups : List Group :=
  [⟨⟨0⟩, ⟨0⟩, [⟨"A", .map "K" "V", .empty, ⟨⟨0⟩, ⟨⟨0⟩, 6, 8, by decide⟩⟩⟩], []⟩,
    sampleGroup ⟨⟨1⟩, 0, 24, by decide⟩ [("A", some "P", ["x"]), ("B", some "A", [])],
    ⟨⟨2⟩, ⟨0⟩, [⟨"A", .enum [] true, .empty, ⟨⟨0⟩, ⟨⟨2⟩, 30, 42, by decide⟩⟩⟩], []⟩,
    sampleGroup ⟨⟨3⟩, 2, 18, by decide⟩ [("A", some "Q", [])],
    sampleGroup ⟨⟨4⟩, 4, 16, by decide⟩ [("A", none, [])]]

/-- Three declarations make the type and two are reported; the second parent is reported against the
first one. -/
theorem accounted_of_getLast?_contested :
    ∃ winner n n', (Merge.declarationsOf contestedGroups "A").getLast? = some winner ∧
      (build contestedGroups {} none 1 0).find? "A" = some n ∧
      Merge.Accounted "A" (Merge.declarationsOf contestedGroups "A") winner n.toMerged
        (Merge.findingsOf (Merge.declarations contestedGroups) "A") ∧
      n.provenance.map (fun p => p.location.file) = [⟨1⟩, ⟨3⟩, ⟨4⟩] ∧
      (Merge.findingsOf (Merge.declarations contestedGroups) "A").map
          (fun f => (f.code, f.location.file, f.related.map fun r => r.location.file)) =
        [(some "E0002", ⟨0⟩, [⟨4⟩]), (some "E0002", ⟨2⟩, [⟨4⟩]), (some "W0002", ⟨3⟩, [⟨1⟩])] ∧
      (build (contestedGroups.map (Group.only "A" .item)) {} none 1 0).find? "A" = some n' ∧
      n'.data = n.data ∧ n'.properties = n.properties ∧ n'.location = n.location ∧
      n'.provenance = n.provenance := by
  obtain ⟨n, hn, haccounted, -, honly⟩ :=
    @accounted_of_getLast? contestedGroups "A" _ rfl {} none 1 0
  obtain ⟨n', hn', hsame⟩ := honly {} none 1 0
  cases hn
  exact ⟨_, _, n', rfl, rfl, haccounted, rfl, rfl, hn', hsame⟩

end Model

end TypeAtlas
