/-
Where findings are. Main statement: in a model built without one before it, from the adapted records
of different files, every finding is in one of these files. So the findings of the files together are
the findings of the model, none lost and none twice, and the diagnostics of a file are what its
inspection finds, all in the file, followed by the findings of the model there.

The places of findings come from declarations, attributes, literals and ends, also of other files
than the one where a type is declared last. So it is followed through adaptation, merging, resolving
and inspecting that every place lies in the files at hand (`Declaration.Within`, `Progress.Within`,
`Merged.Within`).
-/
import TypeAtlas.Assist.Inspection
import TypeAtlas.Proofs.Adaptation
import TypeAtlas.Proofs.Reports

namespace TypeAtlas

/-- The ends of a relation. -/
def Body.ends : Body → List EndDecl
  | relation source target => [source, target]
  | _ => []

/-- Everything that a declaration states has its place in the files. -/
structure Declaration.Within (P : FileId → Prop) (d : Declaration) : Prop where
  declared : P d.location.file
  attributes : ∀ a ∈ d.body.attributes, P a.location.file
  values : ∀ v ∈ d.body.values, P v.location.file
  ends : ∀ e ∈ d.body.ends, P e.location.file

theorem Declaration.Within.mono {P Q : FileId → Prop} {d : Declaration} (h : d.Within P)
    (hPQ : ∀ file, P file → Q file) : d.Within Q where
  declared := hPQ _ h.declared
  attributes a ha := hPQ _ (h.attributes a ha)
  values v hv := hPQ _ (h.values v hv)
  ends e he := hPQ _ (h.ends e he)

/-! ## Adapted groups -/

namespace Adapt

theorem Part.Keeps.file_place {ρ α : Type} {part : Part ρ α} {file : FileId}
    {adapt : ρ → Except Diagnostic α} {records : List ρ} {kept : List α}
    (h : part.Keeps file adapt records kept) : ∀ a ∈ kept, (part.place a).file = file := by
  unfold Part.Keeps at h
  generalize records.filter _ = named at h
  induction h with
  | nil => exact List.forall_mem_nil _
  | cons hkept _ ih =>
    refine List.forall_mem_cons.2 ⟨?_, ih⟩
    rw [hkept.place, Location.file_ofOffsets]

theorem Keeps.within {file : FileId} {module : ModuleId} {r : Record.Declaration} {d : Declaration}
    (h : Keeps file module r d) : d.Within (· = file) := by
  have hplace : d.location.file = file := by
    unfold Declaration.location
    rw [h.provenance]
    exact Location.file_ofOffsets file r.range
  have hbody := h.body
  constructor
  · exact hplace
  · cases hb : d.body with
    | item parent attributes indexes =>
      rw [hb] at hbody
      cases hbody with
      | item _ hattributes _ => exact hattributes.file_place
    | _ => exact List.forall_mem_nil _
  · cases hb : d.body with
    | enum values dynamic =>
      rw [hb] at hbody
      cases hbody with
      | enum _ hvalues => exact hvalues.file_place
    | _ => exact List.forall_mem_nil _
  · cases hb : d.body with
    | relation source target =>
      rw [hb] at hbody
      cases hbody with
      | relation _ hsource htarget =>
        exact List.forall_mem_cons.2 ⟨hsource.place, List.forall_mem_singleton.2 htarget.place⟩
    | _ => exact List.forall_mem_nil _

end Adapt

namespace Group

/-- A group that adaptation makes of the records of its file. -/
def IsAdapted (g : Group) : Prop := ∃ records, g = ofRecords g.file g.module records

theorem IsAdapted.within {g : Group} (h : g.IsAdapted) :
    ∀ d ∈ g.declarations, d.Within (· = g.file) := by
  obtain ⟨records, hg⟩ := h
  have hkeeps := keeps_ofRecords g.file g.module records
  rw [← hg] at hkeeps
  generalize g.declarations = ds at hkeeps ⊢
  generalize records.filter _ = named at hkeeps
  induction hkeeps with
  | nil => exact List.forall_mem_nil _
  | cons hkeeps _ ih => exact List.forall_mem_cons.2 ⟨hkeeps.within, ih⟩

theorem IsAdapted.file_diagnostics {g : Group} (h : g.IsAdapted) :
    ∀ f ∈ g.diagnostics, f.file = g.file := by
  obtain ⟨records, hg⟩ := h
  have htally := tally_ofRecords g.file g.module records
  rw [← hg] at htally
  exact htally.located

end Group

/-! ## Merged types -/

/-- What an item type states has its place in the files. -/
structure ItemData.Within (P : FileId → Prop) (own : ItemData) : Prop where
  parent : ∀ link, own.parent = some link → P link.location.file
  attributes : ∀ q a, own.attributes.get? q = some a → P a.location.file

namespace Merge

variable {P : FileId → Prop}

/-- A merge whose places, also those of its findings, are in the files. -/
structure Progress.Within (P : FileId → Prop) (p : Progress) : Prop where
  data : p.data.Within P
  findings : ∀ f ∈ p.findings, P f.file

theorem overrideConflict_within {previous : Option Attribute} {declared : AttributeDecl}
    (h : P declared.location.file) : ∀ f ∈ overrideConflict previous declared, P f.file := by
  unfold overrideConflict
  split
  · split
    · exact List.forall_mem_singleton.2 h
    · exact List.forall_mem_nil _
  · exact List.forall_mem_nil _

namespace Progress.Within

theorem empty : Within P {} := ⟨⟨by simp, by simp⟩, by simp⟩

theorem addParent {code : String} {location : Location} {p : Progress} (h : p.Within P)
    (hplace : P location.file) (parent : Option String) :
    (addParent code location p parent).Within P := by
  cases parent with
  | none => exact h
  | some parent =>
    refine ⟨⟨?_, h.data.attributes⟩, List.forall_mem_append.2 ⟨h.findings, ?_⟩⟩
    · rintro link hlink
      cases hlink
      exact hplace
    · unfold parentConflict
      split
      · split
        · exact List.forall_mem_nil _
        · exact List.forall_mem_singleton.2 hplace
      · exact List.forall_mem_nil _

theorem addAttribute {code : String} {p : Progress} (h : p.Within P) {a : AttributeDecl}
    (hplace : P a.location.file) : (addAttribute code p a).Within P := by
  refine ⟨⟨h.data.parent, fun q b hb => ?_⟩,
    List.forall_mem_append.2 ⟨h.findings, overrideConflict_within hplace⟩⟩
  simp only [Merge.addAttribute, Dict.get?_insert] at hb
  split at hb
  · cases hb
    exact hplace
  · exact h.data.attributes q b hb

theorem addItem {code : String} {p : Progress} (h : p.Within P) {d : Declaration}
    (hd : d.Within P) : (addItem code p d).Within P := by
  have hattributes := hd.attributes
  unfold Merge.addItem
  cases hb : d.body with
  | item parent attributes indexes =>
    rw [hb] at hattributes
    refine List.foldlRecOn indexes (Merge.addIndex code) ?_ fun p hp i _ =>
      ⟨⟨hp.data.parent, hp.data.attributes⟩, hp.findings⟩
    refine List.foldlRecOn attributes (Merge.addAttribute code) (h.addParent hd.declared parent) ?_
    intro p hp a ha
    exact hp.addAttribute (hattributes a ha)
  | _ => exact h

end Progress.Within

theorem item_within (code : String) {ds : List Declaration} (h : ∀ d ∈ ds, d.Within P) :
    (item code ds).Within P :=
  List.foldlRecOn ds (addItem code) .empty fun _ hp d hd => hp.addItem (h d hd)

end Merge

/-- What a type states has its place in the files. -/
structure Merged.Within (P : FileId → Prop) (m : Merged) : Prop where
  declared : P m.location.file
  item : ∀ own, m.data = .item own → own.Within P

namespace Merge

variable {P : FileId → Prop}

theorem data_within (code : String) (winner : Declaration) {parts : List Declaration}
    (h : ∀ d ∈ parts, d.Within P) :
    (∀ own, (data code winner parts).1 = .item own → own.Within P) ∧
      ∀ f ∈ (data code winner parts).2, P f.file := by
  unfold data
  cases winner.body with
  | item parent attributes indexes =>
    have hitem := item_within code h
    refine ⟨?_, hitem.findings⟩
    rintro own hown
    cases hown
    exact hitem.data
  | _ => exact ⟨fun own hown => (by cases hown), List.forall_mem_nil _⟩

theorem type?_within {id : TypeId} {code : String} {ds : List Declaration} {m : Merged}
    {findings : List Diagnostic} (h : ∀ d ∈ ds, d.Within P)
    (hm : type? id code ds = some (m, findings)) : m.Within P ∧ ∀ f ∈ findings, P f.file := by
  unfold type? at hm
  obtain ⟨winner, hwinner, hm⟩ := Option.map_eq_some_iff.1 hm
  simp only [Prod.mk.injEq] at hm
  obtain ⟨rfl, rfl⟩ := hm
  have hparts : ∀ d ∈ contributing winner ds, d.Within P :=
    fun d hd => h d (List.mem_of_mem_filter hd)
  have hdata := data_within code winner hparts
  refine ⟨⟨(h winner (List.mem_of_getLast? hwinner)).declared, hdata.1⟩,
    List.forall_mem_append.2 ⟨?_, hdata.2⟩⟩
  unfold kindConflicts
  intro f hf
  obtain ⟨d, hd, rfl⟩ := List.mem_map.1 hf
  exact (h d (List.mem_of_mem_filter hd)).declared

theorem all_within {ds : List Declaration} (h : ∀ d ∈ ds, d.Within P) :
    ∀ row ∈ all ds, row.1.Within P ∧ ∀ f ∈ row.2, P f.file := by
  rintro ⟨m, findings⟩ hrow
  obtain ⟨⟨code, id⟩, -, hm⟩ := List.mem_filterMap.1 hrow
  exact type?_within (fun d hd => h d (List.mem_of_mem_filter hd)) hm

end Merge

/-! ## Hierarchies -/

namespace Resolve

variable {P : FileId → Prop} {o : Outline}

theorem overrides_within {inherited own : Dict Attribute}
    (h : ∀ q a, own.get? q = some a → P a.location.file) :
    ∀ f ∈ overrides inherited own, P f.file := by
  intro f hf
  obtain ⟨row, hrow, hf⟩ := List.mem_flatMap.1 hf
  exact Merge.overrideConflict_within (h row.1 row.2 (own.get?_eq_some_iff.2 hrow)) f hf

theorem parentLocation_within {m : Merged} {own : ItemData} (hm : m.Within P)
    (hd : m.data = .item own) : P (parentLocation m own).file := by
  unfold parentLocation
  split
  · rename_i link hlink
    exact (hm.item own hd).parent link hlink
  · exact hm.declared

theorem Computed.within (htypes : ∀ m ∈ o.types, m.Within P) {id : TypeId} {h : Hierarchy}
    (hc : Computed o [] id h) : ∀ f ∈ h.diagnostics, P f.file := by
  have hwithin : ∀ {id m own}, o.item? id = some (m, own) → m.Within P ∧ m.data = .item own := by
    intro id m own hi
    obtain ⟨hget, hd⟩ := Outline.item?_eq_some.1 hi
    exact ⟨htypes m (List.mem_of_getElem? hget), hd⟩
  -- what a parent reports stays with the parent, so the cases need no induction
  cases hc with
  | kept found => exact absurd found Computed.not_kept
  | cycle _ hi _ => exact List.forall_mem_singleton.2 (hwithin hi).1.declared
  | top _ hi _ =>
    obtain ⟨hm, hd⟩ := hwithin hi
    unfold derive
    split
    · exact List.forall_mem_singleton.2 (parentLocation_within hm hd)
    · exact List.forall_mem_nil _
    · exact List.forall_mem_nil _
  | child _ hi _ _ _ =>
    obtain ⟨hm, hd⟩ := hwithin hi
    unfold inherit
    split
    · exact List.forall_mem_nil _
    · exact overrides_within (hm.item _ hd).attributes

end Resolve

/-! ## Inspections -/

namespace Inspection

variable {P : FileId → Prop} {m : Model} {p : Profile}

theorem declaration_within {d : Declaration} (hd : d.Within P) :
    ∀ f ∈ declaration m p d, P f.location.file := by
  have hattributes := hd.attributes
  have hvalues := hd.values
  have hends := hd.ends
  unfold declaration
  refine List.forall_mem_append.2 ⟨fun f hf => (Profile.of_mem_flag hf).2 ▸ hd.declared, ?_⟩
  cases hb : d.body with
  | item parent attributes indexes =>
    rw [hb] at hattributes
    refine List.forall_mem_append.2 ⟨List.forall_mem_append.2 ⟨?_, ?_⟩, ?_⟩
    · refine List.forall_mem_flatMap.2 fun a ha f hf => ?_
      rw [(of_mem_attributeDecl hf).2]
      exact hattributes a ha
    · intro f hf
      rw [(of_mem_catalogVersion hf).2]
      exact hd.declared
    · intro f hf
      rw [(of_mem_uniqueKey hf).2]
      exact hd.declared
  | enum values dynamic =>
    rw [hb] at hvalues
    refine List.forall_mem_flatMap.2 fun v hv f hf => ?_
    rw [(Profile.of_mem_flag hf).2]
    exact hvalues v hv
  | relation source target =>
    rw [hb] at hends
    obtain ⟨hsource, htarget⟩ := List.forall_mem_cons.1 hends
    refine List.forall_mem_append.2 ⟨fun f hf => ?_, fun f hf => ?_⟩
    · rw [(of_mem_endDecl hf).2]
      exact hsource
    · rw [(of_mem_endDecl hf).2]
      exact htarget target (List.mem_singleton_self target)
  | _ => exact List.forall_mem_nil _

/-- An inspection of an adapted group finds nothing outside its file, whatever the model is. -/
theorem file_of_mem_inspect {g : Group} (hg : g.IsAdapted) :
    ∀ f ∈ inspect m p g, f.file = g.file := by
  refine List.forall_mem_map.2 fun f hf => ?_
  obtain ⟨d, hd, hf⟩ := List.mem_flatMap.1 hf
  exact declaration_within (hg.within d hd) f hf

end Inspection

/-! ## Models -/

namespace Model

open Inspection Resolve

theorem within_build {P : FileId → Prop} {groups : List Group} {config : Config}
    {generation revision : Nat} (hgroups : ∀ g ∈ groups, ∀ f ∈ g.diagnostics, P f.file)
    (hdeclarations : ∀ g ∈ groups, ∀ d ∈ g.declarations, d.Within P) :
    ∀ f ∈ (build groups config none generation revision).diagnostics, P f.file := by
  have hall := Merge.all_within (List.forall_mem_flatMap.2 hdeclarations)
  have htypes : ∀ t ∈ Merge.types groups, t.Within P :=
    List.forall_mem_map.2 fun row hrow => (hall row hrow).1
  refine List.forall_mem_append.2 ⟨List.forall_mem_append.2 ⟨?_, ?_⟩, ?_⟩
  · exact List.forall_mem_flatMap.2 hgroups
  · exact List.forall_mem_flatMap.2 fun row hrow => (hall row hrow).2
  · refine List.forall_mem_flatMap.2 fun n hn => ?_
    obtain ⟨id, hid⟩ := List.mem_iff_getElem?.1 hn
    cases hh : n.hierarchy with
    | none => exact List.forall_mem_nil _
    | some h =>
      have hnode : (build groups config none generation revision).node? id = some n := hid
      exact (computed_of_node? hnode hh).within htypes

/-- How the findings of a model lie in the files of its groups. -/
structure Filed (groups : List Group) (m : Model) : Prop where
  /-- No finding is outside the files. -/
  located : ∀ f ∈ m.diagnostics, ∃ g ∈ groups, f.file = g.file
  /-- The findings about the files are the findings of the model, none lost and none twice. -/
  gathered : (groups.flatMap fun g => m.diagnosticsFor g.file).Perm m.diagnostics
  /-- The diagnostics of a file are those of its inspection and then those of the model. -/
  listed : ∀ g ∈ groups, (∀ f ∈ inspect m {} g, f.file = g.file) ∧
    fileDiagnostics m g = inspect m {} g ++ m.diagnostics.filter fun f => f.file = g.file

/-- In a model that is built without one before it, or that keeps nothing of it, from the records of
different files, every finding is in one of these files. -/
theorem filed_of_scratch {groups : List Group} {config : Config} {previous : Option Model}
    {generation revision : Nat} {m : Model} (hadapted : ∀ g ∈ groups, g.IsAdapted)
    (hfiles : (groups.map Group.file).Nodup)
    (hm : m = build groups config previous generation revision)
    (hscratch : previous = none ∨ m.scope = .full) : m.Filed groups := by
  have hbuild : m = build groups config none generation revision := by
    rcases hscratch with rfl | hfull
    · exact hm
    · rw [hm]
      exact build_of_full (hm ▸ hfull)
  have hlocated : ∀ f ∈ m.diagnostics, f.file ∈ groups.map Group.file := by
    rw [hbuild]
    refine within_build (fun g hg f hf => ?_) fun g hg d hd => ?_
    · rw [(hadapted g hg).file_diagnostics f hf]
      exact List.mem_map_of_mem hg
    · exact ((hadapted g hg).within d hd).mono fun _ h => h ▸ List.mem_map_of_mem hg
  constructor
  · intro f hf
    obtain ⟨g, hg, hfile⟩ := List.mem_map.1 (hlocated f hf)
    exact ⟨g, hg, hfile.symm⟩
  · have hperm := Dict.perm_flatMap_filter Diagnostic.file hfiles hlocated
    rw [List.flatMap_map] at hperm
    exact hperm.symm
  · intro g hg
    exact ⟨file_of_mem_inspect (hadapted g hg), rfl⟩

/-- Three files. In the second, `T` gets a parent that is no type and an attribute of the first with
another type; the last declaration of `T` is in the third. -/
def strewnGroups : List Group :=
  [.ofRecords ⟨5⟩ ⟨0⟩ [{},
      { code := some "T"
        attributes := [{ qualifier := some "X", typeRef := some "String" }] }],
    .ofRecords ⟨2⟩ ⟨0⟩ [
      { code := some "T"
        parent := some "U"
        attributes := [{ qualifier := some "X", typeRef := some "Int" }] }],
    .ofRecords ⟨9⟩ ⟨1⟩ [{ code := some "T" }]]

theorem filed_of_scratch_strewn :
    ∃ m, m = build strewnGroups {} none 1 0 ∧ m.Filed strewnGroups ∧
      (m.diagnostics.map fun f => (f.file.index, f.code)) =
        [(5, some "E0001"), (2, some "W0001"), (2, some "E0003")] ∧
      strewnGroups.map (fun g => (fileDiagnostics m g).map (·.code)) =
        [[some "W0003", some "E0001"], [some "W0003", some "W0001", some "E0003"], []] := by
  refine ⟨_, rfl, filed_of_scratch ?_ (by decide) rfl (.inl rfl), ?_, ?_⟩
  · exact List.forall_mem_cons.2 ⟨⟨_, rfl⟩, List.forall_mem_cons.2 ⟨⟨_, rfl⟩,
      List.forall_mem_singleton.2 ⟨_, rfl⟩⟩⟩
  · decide
  · decide

end Model

end TypeAtlas
