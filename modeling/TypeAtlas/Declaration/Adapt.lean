/-
From records to declarations. Adaptation looks at one record at a time and depends on nothing else:
a part that cannot be named is left out, any other defect leaves a gap, and every defect is
reported. So adapting a longer list of records gives the declarations and the findings of its parts
one after the other.
-/
import TypeAtlas.Declaration.Basic
import TypeAtlas.Record.Basic
import TypeAtlas.Text.Blank

namespace TypeAtlas.Adapt

open Text

/-! ## Defects -/

/-- Why a record, or a part of it, cannot be used as written. -/
inductive Defect where
  | noCode (kind : Kind)
  | noQualifier (owner : String)
  | noIndexName (owner : String)
  | noValueCode (owner : String)
  | noEnd (relation side : String)
  | missing (owner what : String)

/-- The wording of a defect. -/
def Defect.text : Defect → String
  | noCode kind => kind.display ++ " without a code"
  | noQualifier owner => "attribute of '" ++ owner ++ "' without a qualifier"
  | noIndexName owner => "index of '" ++ owner ++ "' without a name"
  | noValueCode owner => "value of '" ++ owner ++ "' without a code"
  | noEnd relation side => "relation '" ++ relation ++ "' has no " ++ side ++ " end"
  | missing owner what => "'" ++ owner ++ "' has no " ++ what

/-- The finding for a defect. -/
def Defect.report (d : Defect) (location : Location) : Diagnostic :=
  .malformed location d.text

/-- The result of adapting something, with the findings on the way. -/
structure Adapted (α : Type) where
  result : α
  findings : List Diagnostic

/-- Adapts each record of a list; records that cannot be named are left out. -/
def adaptEach {ρ α : Type} (adapt : ρ → Except Diagnostic α) (records : List ρ) :
    Adapted (List α) where
  result := records.filterMap fun r => (adapt r).toOption
  findings := records.filterMap fun r =>
    match adapt r with
    | .ok _ => none
    | .error finding => some finding

/-! ## Fields -/

/-- A field without outer blanks; a blank field counts as not written. -/
def written? (field : Option String) : Option String := field.bind nonBlank?

/-- A field that a declaration should have; it stays empty, with a finding, when not written. -/
def required (owner what : String) (field : Option String) (location : Location) :
    Adapted String :=
  match written? field with
  | some value => ⟨value, []⟩
  | none => ⟨"", [Defect.report (.missing owner what) location]⟩

/-- The modifiers in force: those written, over the defaults. -/
def modifiers (r : Record.Modifiers) : Modifiers :=
  let std : Modifiers := {}
  { read := r.read.getD std.read
    write := r.write.getD std.write
    search := r.search.getD std.search
    optional := r.optional.getD std.optional
    unique := r.unique.getD std.unique
    initial := r.initial.getD std.initial
    isPrivate := r.isPrivate.getD std.isPrivate
    removable := r.removable.getD std.removable
    partOf := r.partOf.getD std.partOf
    encrypted := r.encrypted.getD std.encrypted }

/-- Custom properties without outer blanks; those with a blank key are left out. -/
def properties (rows : List (String × String)) : Properties :=
  .ofList (rows.filterMap fun row => (nonBlank? row.1).map fun key => (key, trim row.2))

/-- What marks a localized value type. -/
def localizedMark : String := "localized:"

/-- The value type behind a type reference, and whether the reference marks it as localized. -/
def valueType (typeRef : Option String) : String × Bool :=
  let cs := trimChars (typeRef.getD "").toList
  let mark := localizedMark.toList
  if mark.isPrefixOf cs then (String.ofList (trimChars (cs.drop mark.length)), true)
  else (String.ofList cs, false)

/-! ## Parts -/

section
variable (file : FileId)

/-- An attribute, unless it has no qualifier. -/
def adaptAttribute (owner : String) (r : Record.Attribute) : Except Diagnostic AttributeDecl :=
  let location := Location.ofOffsets file r.range
  match written? r.qualifier with
  | none => .error (Defect.report (.noQualifier owner) location)
  | some qualifier =>
    let (typeRef, marked) := valueType r.typeRef
    .ok {
      qualifier
      typeRef
      localized := marked || r.modifiers.localized.getD false
      persistence := r.persistence.getD .property
      modifiers := modifiers r.modifiers
      handler := written? r.handler
      defaultValue := written? r.defaultValue
      properties := properties r.properties
      location }

/-- An index, unless it has no name. -/
def adaptIndex (owner : String) (r : Record.Index) : Except Diagnostic IndexDecl :=
  let location := Location.ofOffsets file r.range
  match written? r.name with
  | none => .error (Defect.report (.noIndexName owner) location)
  | some name =>
    .ok { name, keys := r.keys.filterMap nonBlank?, unique := r.unique.getD false, location }

/-- A literal, unless it has no code. -/
def adaptEnumValue (owner : String) (r : Record.EnumValue) : Except Diagnostic EnumValueDecl :=
  let location := Location.ofOffsets file r.range
  match written? r.code with
  | none => .error (Defect.report (.noValueCode owner) location)
  | some code => .ok { code, location }

/-- The container of an end: as written, and a plain collection when the end is written to reach
many objects without naming one. -/
def container (r : Record.RelationEnd) : Option Container :=
  match r.container with
  | some c => some c
  | none => if r.cardinality = some .many then some .collection else none

/-- An end of a relation. A missing end is one about which nothing is known. -/
def adaptEnd (owner side : String) (r : Option Record.RelationEnd) (declared : Location) :
    Adapted EndDecl :=
  match r with
  | none =>
    ⟨{ typeCode := "", qualifier := none, cardinality := .one, ordering := [], container := none,
       navigable := true, modifiers := {}, location := declared },
      [Defect.report (.noEnd owner side) declared]⟩
  | some r =>
    let location := if r.range.isSome then Location.ofOffsets file r.range else declared
    let type := required owner (side ++ " type") r.typeCode location
    ⟨{ typeCode := type.result
       qualifier := written? r.qualifier
       cardinality := r.cardinality.getD .one
       ordering := r.ordering.filterMap nonBlank?
       container := container r
       navigable := r.navigable.getD true
       modifiers := modifiers r.modifiers
       location }, type.findings⟩

/-! ## Declarations -/

/-- The kind-dependent part of the declaration of `code`. -/
def adaptBody (code : String) (r : Record.Declaration) : Adapted Body :=
  let location := Location.ofOffsets file r.range
  match r.kind with
  | .item =>
    let attributes := adaptEach (adaptAttribute file code) r.attributes
    let indexes := adaptEach (adaptIndex file code) r.indexes
    ⟨.item (written? r.parent) attributes.result indexes.result,
      attributes.findings ++ indexes.findings⟩
  | .enum =>
    let values := adaptEach (adaptEnumValue file code) r.values
    ⟨.enum values.result (r.dynamic.getD false), values.findings⟩
  | .relation =>
    let source := adaptEnd file code "source" r.source location
    let target := adaptEnd file code "target" r.target location
    ⟨.relation source.result target.result, source.findings ++ target.findings⟩
  | .collection =>
    let element := required code "element type" r.elementType location
    ⟨.collection element.result (r.container.getD .collection), element.findings⟩
  | .map =>
    let argument := required code "argument type" r.argumentType location
    let value := required code "return type" r.returnType location
    ⟨.map argument.result value.result, argument.findings ++ value.findings⟩

/-- The declaration that a record gives; none when it has no code. -/
def adaptDeclaration (module : ModuleId) (r : Record.Declaration) : Adapted (Option Declaration) :=
  let location := Location.ofOffsets file r.range
  match written? r.code with
  | none => ⟨none, [Defect.report (.noCode r.kind) location]⟩
  | some code =>
    let body := adaptBody file code r
    ⟨some { code, body := body.result, properties := properties r.properties,
            provenance := ⟨module, location⟩ }, body.findings⟩

end

end Adapt

/-- The group of a file with the given records. -/
def Group.ofRecords (file : FileId) (module : ModuleId) (records : List Record.Declaration) :
    Group where
  file
  module
  declarations := records.filterMap fun r => (Adapt.adaptDeclaration file module r).result
  diagnostics := records.flatMap fun r => (Adapt.adaptDeclaration file module r).findings

end TypeAtlas
