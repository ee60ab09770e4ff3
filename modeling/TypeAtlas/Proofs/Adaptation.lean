/-
The accounting of adaptation. Main statement: adapting the records of a file keeps, in order, exactly
the records with a code and of each its named parts, and reports every defect once, in that file and
under one rule. Adaptation is local: the records of two lists, adapted together, give the
declarations and the reports of the two lists one after the other.

The reports of a part are a `Tally`: all in the file, all under the rule, and as many as the part has
defects. Tallies add up from fields to members, to declarations and to the whole list.
-/
import TypeAtlas.Declaration.Adapt
import Mathlib.Algebra.GroupWithZero.Nat
import Mathlib.Data.List.Forall2
import Mathlib.Data.List.TakeWhile

namespace TypeAtlas

/-! ## Blank texts -/

namespace Text

theorem trimChars_eq_nil_iff {cs : List Char} :
    trimChars cs = [] ↔ ∀ c ∈ cs, isBlank c = true := by
  unfold trimChars
  rw [List.reverse_eq_nil_iff, List.dropWhile_eq_nil_iff]
  constructor
  · intro h c hc
    rw [← List.takeWhile_append_dropWhile (p := isBlank) (l := cs)] at hc
    rcases List.mem_append.1 hc with hc | hc
    · exact List.mem_takeWhile_imp hc
    · exact h c (List.mem_reverse.2 hc)
  · intro h c hc
    exact h c ((List.dropWhile_sublist _).mem (List.mem_reverse.1 hc))

theorem trim_eq_empty_iff {s : String} : trim s = "" ↔ s.toList.all isBlank = true := by
  unfold trim
  rw [List.all_eq_true, ← trimChars_eq_nil_iff, String.ofList_eq_empty_iff]

theorem nonBlank?_eq (s : String) :
    nonBlank? s = if s.toList.all isBlank then none else some (trim s) := by
  rw [nonBlank?_eq_ite]
  simp only [trim_eq_empty_iff]

end Text

namespace Record

/-- Whether a field is missing or has nothing but blanks. -/
def unwritten (field : Option String) : Bool := field.all fun s => s.toList.all Text.isBlank

/-- The text of a field without outer blanks; empty if the field is missing. -/
def text (field : Option String) : String := Text.trim (field.getD "")

/-- The defects of an end of a relation: that it is missing, or that its type is. -/
def endDefects : Option RelationEnd → Nat
  | none => 1
  | some r => (unwritten r.typeCode).toNat

/-- The defects of a record: that it has no code, and else what its kind requires and it lacks. -/
def Declaration.defects (r : Declaration) : Nat :=
  if unwritten r.code then 1
  else
    match r.kind with
    | .item => r.attributes.countP (fun a => unwritten a.qualifier) +
        r.indexes.countP fun i => unwritten i.name
    | .enum => r.values.countP fun v => unwritten v.code
    | .relation => endDefects r.source + endDefects r.target
    | .collection => (unwritten r.elementType).toNat
    | .map => (unwritten r.argumentType).toNat + (unwritten r.returnType).toNat

end Record

namespace Adapt

open Record (unwritten text)

theorem written?_of_unwritten {field : Option String} (h : unwritten field = true) :
    written? field = none := by
  cases field with
  | none => rfl
  | some s =>
    have hs : s.toList.all Text.isBlank = true := h
    unfold written?
    rw [Option.bind_some, Text.nonBlank?_eq, hs]
    rfl

theorem written?_of_not_unwritten {field : Option String} (h : unwritten field = false) :
    written? field = some (text field) := by
  cases field with
  | none => cases h
  | some s =>
    have hs : s.toList.all Text.isBlank = false := h
    unfold written? text
    rw [Option.bind_some, Text.nonBlank?_eq, hs, Option.getD_some]
    rfl

theorem text_of_unwritten {field : Option String} (h : unwritten field = true) :
    text field = "" := by
  cases field with
  | none => rfl
  | some s => exact Text.trim_eq_empty_iff.2 h

/-! ## Tallies -/

/-- Reports of defects: so many, all in the file and under the rule for what is malformed. -/
structure Tally (file : FileId) (count : Nat) (findings : List Diagnostic) : Prop where
  number : findings.length = count
  located : ∀ f ∈ findings, f.file = file
  rule : ∀ f ∈ findings, f.code = some Rule.malformedDeclaration.code

namespace Tally

variable {file : FileId}

theorem nil : Tally file 0 [] := ⟨rfl, by simp, by simp⟩

theorem report (defect : Defect) {location : Location} (h : location.file = file) :
    Tally file 1 [defect.report location] :=
  ⟨rfl, List.forall_mem_singleton.2 h, List.forall_mem_singleton.2 rfl⟩

theorem append {a b : Nat} {l l' : List Diagnostic} (h : Tally file a l) (h' : Tally file b l') :
    Tally file (a + b) (l ++ l') where
  number := by rw [List.length_append, h.number, h'.number]
  located := List.forall_mem_append.2 ⟨h.located, h'.located⟩
  rule := List.forall_mem_append.2 ⟨h.rule, h'.rule⟩

theorem flatMap {ρ : Type} {count : ρ → Nat} {findings : ρ → List Diagnostic}
    (h : ∀ r, Tally file (count r) (findings r)) (records : List ρ) :
    Tally file (records.map count).sum (records.flatMap findings) := by
  induction records with
  | nil => exact nil
  | cons r records ih =>
    rw [List.map_cons, List.sum_cons, List.flatMap_cons]
    exact (h r).append ih

end Tally

/-- A required field: its text, and a report if it is not written. -/
theorem required_spec {file : FileId} {location : Location} (hfile : location.file = file)
    (owner what : String) (field : Option String) :
    (required owner what field location).result = text field ∧
      Tally file (unwritten field).toNat (required owner what field location).findings := by
  unfold required
  cases h : unwritten field with
  | true =>
    rw [written?_of_unwritten h, text_of_unwritten h]
    exact ⟨rfl, .report _ hfile⟩
  | false =>
    rw [written?_of_not_unwritten h]
    exact ⟨rfl, .nil⟩

/-! ## Members -/

/-- Where a kind of member has its name and its place, as written and as adapted. -/
structure Part (ρ α : Type) where
  name : ρ → Option String
  range : ρ → Record.Range
  label : α → String
  place : α → Location

def attributePart : Part Record.Attribute AttributeDecl :=
  ⟨Record.Attribute.qualifier, Record.Attribute.range, AttributeDecl.qualifier,
    AttributeDecl.location⟩

def indexPart : Part Record.Index IndexDecl :=
  ⟨Record.Index.name, Record.Index.range, IndexDecl.name, IndexDecl.location⟩

def valuePart : Part Record.EnumValue EnumValueDecl :=
  ⟨Record.EnumValue.code, Record.EnumValue.range, EnumValueDecl.code, EnumValueDecl.location⟩

namespace Part

variable {ρ α : Type}

/-- A member as it is kept: what it is adapted to, under its name and at its place. -/
structure Kept (part : Part ρ α) (file : FileId) (adapt : ρ → Except Diagnostic α) (r : ρ) (a : α) :
    Prop where
  adapted : adapt r = .ok a
  label : part.label a = text (part.name r)
  place : part.place a = .ofOffsets file (part.range r)

/-- The members with a name, each kept. -/
def Keeps (part : Part ρ α) (file : FileId) (adapt : ρ → Except Diagnostic α) (records : List ρ)
    (kept : List α) : Prop :=
  List.Forall₂ (part.Kept file adapt) (records.filter fun r => !unwritten (part.name r)) kept

/-- Members with a name are kept, and those without one are reported at their place. -/
structure Adapts (part : Part ρ α) (file : FileId) (adapt : ρ → Except Diagnostic α) : Prop where
  named : ∀ r, unwritten (part.name r) = false → ∃ a, part.Kept file adapt r a
  unnamed : ∀ r, unwritten (part.name r) = true →
    ∃ defect : Defect, adapt r = .error (defect.report (.ofOffsets file (part.range r)))

theorem Adapts.adaptEach {part : Part ρ α} {file : FileId} {adapt : ρ → Except Diagnostic α}
    (h : part.Adapts file adapt) (records : List ρ) :
    part.Keeps file adapt records (adaptEach adapt records).result ∧
      Tally file (records.countP fun r => unwritten (part.name r))
        (adaptEach adapt records).findings := by
  unfold Keeps Adapt.adaptEach
  induction records with
  | nil => exact ⟨.nil, .nil⟩
  | cons r records ih =>
    cases hr : unwritten (part.name r) with
    | true =>
      obtain ⟨defect, herror⟩ := h.unnamed r hr
      simp only [List.filter_cons, List.filterMap_cons, List.countP_cons, hr, herror,
        Except.toOption, Bool.not_true, Bool.false_eq_true, if_false, if_true]
      rw [Nat.add_comm]
      exact ⟨ih.1, (Tally.report defect (Location.file_ofOffsets _ _)).append ih.2⟩
    | false =>
      obtain ⟨a, ha⟩ := h.named r hr
      simp only [List.filter_cons, List.filterMap_cons, List.countP_cons, hr, ha.adapted,
        Except.toOption, Bool.not_false, Bool.false_eq_true, if_false, if_true, Nat.add_zero]
      exact ⟨.cons ha ih.1, ih.2⟩

end Part

section
variable (file : FileId) (owner : String)

theorem adapts_attribute : attributePart.Adapts file (adaptAttribute file owner) := by
  constructor
  · intro r hr
    have hname : written? r.qualifier = some (text r.qualifier) := written?_of_not_unwritten hr
    have hok : ∃ a, adaptAttribute file owner r = .ok a ∧ a.qualifier = text r.qualifier ∧
        a.location = .ofOffsets file r.range := by
      unfold adaptAttribute
      rw [hname]
      exact ⟨_, rfl, rfl, rfl⟩
    obtain ⟨a, hadapted, hlabel, hplace⟩ := hok
    exact ⟨a, hadapted, hlabel, hplace⟩
  · intro r hr
    have hname : written? r.qualifier = none := written?_of_unwritten hr
    refine ⟨.noQualifier owner, ?_⟩
    unfold adaptAttribute
    rw [hname]
    rfl

theorem adapts_index : indexPart.Adapts file (adaptIndex file owner) := by
  constructor
  · intro r hr
    have hname : written? r.name = some (text r.name) := written?_of_not_unwritten hr
    refine ⟨⟨text r.name, r.keys.filterMap Text.nonBlank?, r.unique.getD false,
      .ofOffsets file r.range⟩, ?_, rfl, rfl⟩
    unfold adaptIndex
    rw [hname]
  · intro r hr
    have hname : written? r.name = none := written?_of_unwritten hr
    refine ⟨.noIndexName owner, ?_⟩
    unfold adaptIndex
    rw [hname]
    rfl

theorem adapts_value : valuePart.Adapts file (adaptEnumValue file owner) := by
  constructor
  · intro r hr
    have hname : written? r.code = some (text r.code) := written?_of_not_unwritten hr
    refine ⟨⟨text r.code, .ofOffsets file r.range⟩, ?_, rfl, rfl⟩
    unfold adaptEnumValue
    rw [hname]
  · intro r hr
    have hname : written? r.code = none := written?_of_unwritten hr
    refine ⟨.noValueCode owner, ?_⟩
    unfold adaptEnumValue
    rw [hname]
    rfl

/-- An end as it is kept: in the file, and with the type that is written for it. -/
structure KeepsEnd (r : Option Record.RelationEnd) (e : EndDecl) : Prop where
  type : e.typeCode = text (r.bind Record.RelationEnd.typeCode)
  place : e.location.file = file

theorem adaptEnd_spec (side : String) (r : Option Record.RelationEnd) {declared : Location}
    (hfile : declared.file = file) :
    KeepsEnd file r (adaptEnd file owner side r declared).result ∧
      Tally file (Record.endDefects r) (adaptEnd file owner side r declared).findings := by
  cases r with
  | none => exact ⟨⟨rfl, hfile⟩, .report _ hfile⟩
  | some r =>
    have hplace : (if r.range.isSome then Location.ofOffsets file r.range else declared).file =
        file := by
      split
      · exact Location.file_ofOffsets file r.range
      · exact hfile
    obtain ⟨htype, htally⟩ := required_spec hplace owner (side ++ " type") r.typeCode
    exact ⟨⟨htype, hplace⟩, htally⟩

/-! ## Declarations -/

/-- What is kept of the record of a code: the named members in order, and the types that are
written. -/
inductive KeepsBody (r : Record.Declaration) : Body → Prop
  | item {attributes : List AttributeDecl} {indexes : List IndexDecl} (kind : r.kind = .item)
      (attributes_kept : attributePart.Keeps file (adaptAttribute file owner) r.attributes
        attributes)
      (indexes_kept : indexPart.Keeps file (adaptIndex file owner) r.indexes indexes) :
      KeepsBody r (.item (written? r.parent) attributes indexes)
  | enum {values : List EnumValueDecl} (kind : r.kind = .enum)
      (values_kept : valuePart.Keeps file (adaptEnumValue file owner) r.values values) :
      KeepsBody r (.enum values (r.dynamic.getD false))
  | relation {source target : EndDecl} (kind : r.kind = .relation)
      (source_kept : KeepsEnd file r.source source) (target_kept : KeepsEnd file r.target target) :
      KeepsBody r (.relation source target)
  | collection (kind : r.kind = .collection) :
      KeepsBody r (.collection (text r.elementType) (r.container.getD .collection))
  | map (kind : r.kind = .map) : KeepsBody r (.map (text r.argumentType) (text r.returnType))

theorem adaptBody_spec {r : Record.Declaration} (hcode : unwritten r.code = false) :
    KeepsBody file owner r (adaptBody file owner r).result ∧
      Tally file r.defects (adaptBody file owner r).findings := by
  have hfile := Location.file_ofOffsets file r.range
  unfold adaptBody Record.Declaration.defects
  rw [hcode]
  cases hkind : r.kind with
  | item =>
    have hattributes := (adapts_attribute file owner).adaptEach r.attributes
    have hindexes := (adapts_index file owner).adaptEach r.indexes
    exact ⟨.item hkind hattributes.1 hindexes.1, hattributes.2.append hindexes.2⟩
  | enum =>
    have hvalues := (adapts_value file owner).adaptEach r.values
    exact ⟨.enum hkind hvalues.1, hvalues.2⟩
  | relation =>
    have hsource := adaptEnd_spec file owner "source" r.source hfile
    have htarget := adaptEnd_spec file owner "target" r.target hfile
    exact ⟨.relation hkind hsource.1 htarget.1, hsource.2.append htarget.2⟩
  | collection =>
    have helement := required_spec hfile owner "element type" r.elementType
    refine ⟨?_, helement.2⟩
    simp only [helement.1]
    exact .collection hkind
  | map =>
    have hargument := required_spec hfile owner "argument type" r.argumentType
    have hvalue := required_spec hfile owner "return type" r.returnType
    refine ⟨?_, hargument.2.append hvalue.2⟩
    simp only [hargument.1, hvalue.1]
    exact .map hkind

end

/-- A record with a code as it is kept. -/
structure Keeps (file : FileId) (module : ModuleId) (r : Record.Declaration) (d : Declaration) :
    Prop where
  code : d.code = text r.code
  body : KeepsBody file d.code r d.body
  properties : d.properties = properties r.properties
  provenance : d.provenance = ⟨module, .ofOffsets file r.range⟩

theorem adaptDeclaration_of_unwritten (file : FileId) (module : ModuleId) {r : Record.Declaration}
    (hcode : unwritten r.code = true) :
    (adaptDeclaration file module r).result = none ∧
      Tally file r.defects (adaptDeclaration file module r).findings := by
  unfold adaptDeclaration Record.Declaration.defects
  rw [written?_of_unwritten hcode, hcode]
  exact ⟨rfl, .report _ (Location.file_ofOffsets file r.range)⟩

theorem adaptDeclaration_of_not_unwritten (file : FileId) (module : ModuleId)
    {r : Record.Declaration} (hcode : unwritten r.code = false) :
    ∃ d, (adaptDeclaration file module r).result = some d ∧ Keeps file module r d ∧
      Tally file r.defects (adaptDeclaration file module r).findings := by
  obtain ⟨hbody, htally⟩ := adaptBody_spec file (text r.code) hcode
  unfold adaptDeclaration
  rw [written?_of_not_unwritten hcode]
  exact ⟨_, rfl, ⟨rfl, hbody, rfl, rfl⟩, htally⟩

end Adapt

namespace Group

open Adapt Record

variable (file : FileId) (module : ModuleId)

theorem declarations_ofRecords_append (xs ys : List Record.Declaration) :
    (ofRecords file module (xs ++ ys)).declarations =
      (ofRecords file module xs).declarations ++ (ofRecords file module ys).declarations :=
  List.filterMap_append

theorem diagnostics_ofRecords_append (xs ys : List Record.Declaration) :
    (ofRecords file module (xs ++ ys)).diagnostics =
      (ofRecords file module xs).diagnostics ++ (ofRecords file module ys).diagnostics :=
  List.flatMap_append

theorem keeps_ofRecords (records : List Record.Declaration) :
    List.Forall₂ (Keeps file module) (records.filter fun r => !unwritten r.code)
      (ofRecords file module records).declarations := by
  unfold ofRecords
  induction records with
  | nil => exact .nil
  | cons r records ih =>
    cases hr : unwritten r.code with
    | true =>
      have hnone := (adaptDeclaration_of_unwritten file module hr).1
      simpa [List.filter_cons, List.filterMap_cons, hr, hnone] using ih
    | false =>
      obtain ⟨d, hsome, hkeeps, -⟩ := adaptDeclaration_of_not_unwritten file module hr
      simpa [List.filter_cons, List.filterMap_cons, hr, hsome] using ⟨hkeeps, ih⟩

theorem tally_ofRecords (records : List Record.Declaration) :
    Tally file (records.map Record.Declaration.defects).sum
      (ofRecords file module records).diagnostics := by
  refine Tally.flatMap (fun r => ?_) records
  cases hr : unwritten r.code with
  | true => exact (adaptDeclaration_of_unwritten file module hr).2
  | false =>
    obtain ⟨-, -, -, htally⟩ := adaptDeclaration_of_not_unwritten file module hr
    exact htally

/-- What becomes of the records of a file. -/
structure Accounts (records : List Record.Declaration) (g : Group) : Prop where
  /-- Adaptation is local. -/
  split : ∀ xs ys, records = xs ++ ys →
    g.declarations =
        (ofRecords file module xs).declarations ++ (ofRecords file module ys).declarations ∧
      g.diagnostics =
        (ofRecords file module xs).diagnostics ++ (ofRecords file module ys).diagnostics
  /-- The records with a code are kept in order, each with its named members. -/
  kept : List.Forall₂ (Keeps file module) (records.filter fun r => !unwritten r.code)
    g.declarations
  /-- There is one report for each defect. -/
  number : (g.diagnostics.filter fun f => f.code == some "E0001").length =
    (records.map Record.Declaration.defects).sum
  /-- Every report is one of a defect, and in the file. -/
  located : ∀ f ∈ g.diagnostics, f.code = some "E0001" ∧ f.file = file

/-- Adaptation is local and accounts for every defect. -/
theorem accounts_ofRecords (records : List Record.Declaration) :
    Accounts file module records (ofRecords file module records) := by
  have htally := tally_ofRecords file module records
  refine ⟨?_, keeps_ofRecords file module records, ?_, ?_⟩
  · rintro xs ys rfl
    exact ⟨declarations_ofRecords_append file module xs ys,
      diagnostics_ofRecords_append file module xs ys⟩
  · rw [List.filter_eq_self.2 fun f hf => ?_, htally.number]
    rw [htally.rule f hf]
    rfl
  · intro f hf
    exact ⟨htally.rule f hf, htally.located f hf⟩

end Group

end TypeAtlas
