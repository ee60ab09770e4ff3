/-
Inspections of the declarations of one file against a model. Every check looks at the declarations
and the model and reports through the profile in force, which leaves out the reports of disabled
checks and grades the rest. A finding keeps the check that raised it; its diagnostic does not.
-/
import TypeAtlas.Model.Query
import TypeAtlas.Text.Lowercase

namespace TypeAtlas

/-- The checks. -/
inductive Check where
  | qualifierLowercase
  | noGenerated
  | enumUppercase
  | dynamicHandler
  | mandatoryInitial
  | jaloDeprecated
  | collections
  | lists
  | catalogVersion
  | uniqueKey
deriving DecidableEq

namespace Check

/-- Every check, in the order in which checks are listed. -/
def all : List Check :=
  [qualifierLowercase, noGenerated, enumUppercase, dynamicHandler, mandatoryInitial,
    jaloDeprecated, collections, lists, catalogVersion, uniqueKey]

def word : Check → String
  | qualifierLowercase => "qualifier_lowercase"
  | noGenerated => "no_generated"
  | enumUppercase => "enum_uppercase"
  | dynamicHandler => "dynamic_handler"
  | mandatoryInitial => "mandatory_initial"
  | jaloDeprecated => "jalo_deprecated"
  | collections => "collections"
  | lists => "lists"
  | catalogVersion => "catalog_version"
  | uniqueKey => "unique_key"

def ofWord? (w : String) : Option Check := all.find? fun c => c.word == w

/-- The rule that a check enforces. -/
def rule : Check → Rule
  | qualifierLowercase | noGenerated | enumUppercase => .namingConvention
  | dynamicHandler | mandatoryInitial | collections => .invalidModifiers
  | jaloDeprecated => .deprecatedUse
  | lists => .discouraged
  | catalogVersion | uniqueKey => .unresolvedQualifier

/-- The severity of a check unless a profile sets another. -/
def severity : Check → Severity
  | dynamicHandler | mandatoryInitial | collections | catalogVersion | uniqueKey => .error
  | qualifierLowercase | noGenerated | enumUppercase | jaloDeprecated | lists => .warning

end Check

/-- What a check reports. -/
structure Finding where
  check : Check
  severity : Severity
  location : Location
  message : String
deriving DecidableEq

/-- The diagnostic for a finding, filed under the rule of its check. -/
def Finding.diagnostic (f : Finding) : Diagnostic :=
  .ofRule f.check.rule f.severity f.location f.message

namespace Inspection

/-! ## Profiles -/

/-- Which checks are off, and the severities set for checks, the latest first. -/
structure Profile where
  disabled : List Check := []
  severities : List (Check × Severity) := []

namespace Profile

/-- Turns a check off. -/
def without (p : Profile) (check : Check) : Profile :=
  { p with disabled := check :: p.disabled }

/-- Sets the severity of a check. -/
def withSeverity (p : Profile) (check : Check) (severity : Severity) : Profile :=
  { p with severities := (check, severity) :: p.severities }

def isEnabled (p : Profile) (check : Check) : Bool := !p.disabled.contains check

/-- The severity of a check: the one set last, or its own. -/
def severityOf (p : Profile) (check : Check) : Severity :=
  (p.severities.lookup check).getD check.severity

/-- What a check reports at a place: nothing while it is off. -/
def report (p : Profile) (check : Check) (location : Location) (message : String) :
    List Finding :=
  if p.isEnabled check then [⟨check, p.severityOf check, location, message⟩] else []

/-- A report if the condition holds. -/
def flag (p : Profile) (condition : Bool) (check : Check) (location : Location)
    (message : String) : List Finding :=
  if condition then p.report check location message else []

theorem of_mem_flag {p : Profile} {condition : Bool} {check : Check} {location : Location}
    {message : String} {f : Finding} (h : f ∈ p.flag condition check location message) :
    f.check = check ∧ f.location = location := by
  unfold flag report at h
  split at h
  · split at h
    · cases List.mem_singleton.1 h
      exact ⟨rfl, rfl⟩
    · cases h
  · cases h

end Profile

/-! ## Names -/

def qualifierName (p : Profile) (qualifier : String) (location : Location) : List Finding :=
  p.flag (!Text.startsLowercase qualifier) .qualifierLowercase location
    ("qualifier '" ++ qualifier ++ "' must start with a lower-case letter")

/-- Item types, enumerations and relations must not be named like generated classes. -/
def typeName (p : Profile) (d : Declaration) : List Finding :=
  p.flag ([Kind.item, .enum, .relation].contains d.kind &&
      "Generated".toList.isPrefixOf d.code.toList)
    .noGenerated d.location ("type code '" ++ d.code ++ "' must not start with 'Generated'")

def enumValue (p : Profile) (owner : String) (v : EnumValueDecl) : List Finding :=
  p.flag (!Text.isUppercaseLiteral v.code) .enumUppercase v.location
    ("value '" ++ v.code ++ "' of enum '" ++ owner ++ "' should be upper case")

/-! ## Members -/

/-- Whether a code is a collection type. -/
def isCollection (m : Model) (code : String) : Bool :=
  (m.find? code).any fun n => n.kind == .collection

def attributeDecl (m : Model) (p : Profile) (a : AttributeDecl) : List Finding :=
  qualifierName p a.qualifier a.location ++
  p.flag (a.persistence == .dynamic && a.handler.isNone) .dynamicHandler a.location
    ("dynamic attribute '" ++ a.qualifier ++ "' has no attribute handler") ++
  p.flag (!a.modifiers.optional && !a.modifiers.initial && a.defaultValue.isNone)
    .mandatoryInitial a.location
    ("mandatory attribute '" ++ a.qualifier ++ "' must be initial or have a default value") ++
  p.flag (a.persistence == .jalo) .jaloDeprecated a.location
    ("attribute '" ++ a.qualifier ++ "' uses deprecated jalo persistence") ++
  p.flag (a.persistence == .property && isCollection m a.typeRef) .collections a.location
    ("collection-typed attribute '" ++ a.qualifier ++ "' must use dynamic or jalo persistence")

theorem of_mem_attributeDecl {m : Model} {p : Profile} {a : AttributeDecl} {f : Finding}
    (hf : f ∈ attributeDecl m p a) :
    f.check ∈ [Check.qualifierLowercase, .dynamicHandler, .mandatoryInitial, .jaloDeprecated,
      .collections] ∧ f.location = a.location := by
  unfold attributeDecl qualifierName at hf
  simp only [List.mem_append] at hf
  rcases hf with (((hf | hf) | hf) | hf) | hf <;> simp [Profile.of_mem_flag hf]

def endDecl (p : Profile) (e : EndDecl) : List Finding :=
  ((e.qualifier.map fun q => qualifierName p q e.location).getD []) ++
  p.flag (e.cardinality == .many && e.container == some .list) .lists e.location
    ("relation end '" ++ e.qualifier.getD e.typeCode ++
      "' is an ordered list; prefer a set or collection")

theorem of_mem_endDecl {p : Profile} {e : EndDecl} {f : Finding} (hf : f ∈ endDecl p e) :
    f.check ∈ [Check.qualifierLowercase, .lists] ∧ f.location = e.location := by
  unfold endDecl at hf
  rcases List.mem_append.1 hf with hf | hf
  · cases hq : e.qualifier with
    | none =>
      rw [hq] at hf
      cases hf
    | some q =>
      rw [hq] at hf
      simp [Profile.of_mem_flag hf]
  · simp [Profile.of_mem_flag hf]

/-! ## Custom properties -/

/-- The value of a property of a declaration whose code is an item type in the model. -/
def itemProperty? (m : Model) (d : Declaration) (key : String) : Option String := do
  let value ← d.properties.get? key
  let text ← Text.propertyString value
  let _ ← m.item? d.code
  return text

/-- The catalog version property must name a member that leads to a catalog-aware type. -/
def catalogVersion (m : Model) (p : Profile) (d : Declaration) : List Finding :=
  match itemProperty? m d m.config.catalogVersionKey with
  | none => []
  | some qualifier =>
    p.flag (!m.isCatalogAware d.code qualifier true) .catalogVersion d.location
      ("'" ++ qualifier ++ "' of '" ++ d.code ++ "' does not name a catalog aware attribute")

theorem of_mem_catalogVersion {m : Model} {p : Profile} {d : Declaration} {f : Finding}
    (hf : f ∈ catalogVersion m p d) : f.check = .catalogVersion ∧ f.location = d.location := by
  unfold catalogVersion at hf
  split at hf
  · cases hf
  · exact Profile.of_mem_flag hf

/-- Whether a member of a type is unique. -/
def isUniqueMember (m : Model) (code qualifier : String) : Bool :=
  (m.attribute? code qualifier true).any Attribute.isUnique ||
    (m.relationEndsNamed code qualifier true).any fun e => e.modifiers.unique

/-- The unique key property must name unique members. -/
def uniqueKey (m : Model) (p : Profile) (d : Declaration) : List Finding :=
  match itemProperty? m d m.config.uniqueKeyKey with
  | none => []
  | some text =>
    let failing := (Text.commaList text).filter fun q => !isUniqueMember m d.code q
    p.flag (!failing.isEmpty) .uniqueKey d.location
      ("unique key of '" ++ d.code ++ "' names non-unique members: " ++ ", ".intercalate failing)

theorem of_mem_uniqueKey {m : Model} {p : Profile} {d : Declaration} {f : Finding}
    (hf : f ∈ uniqueKey m p d) : f.check = .uniqueKey ∧ f.location = d.location := by
  unfold uniqueKey at hf
  split at hf
  · cases hf
  · exact Profile.of_mem_flag hf

/-! ## Declarations -/

/-- The findings for one declaration. -/
def declaration (m : Model) (p : Profile) (d : Declaration) : List Finding :=
  typeName p d ++
    match d.body with
    | .item _ attributes _ =>
      attributes.flatMap (attributeDecl m p) ++ catalogVersion m p d ++ uniqueKey m p d
    | .enum values _ => values.flatMap (enumValue p d.code)
    | .relation source target => endDecl p source ++ endDecl p target
    | .collection .. | .map .. => []

/-- The findings for a group, in declaration order. -/
def findings (m : Model) (p : Profile) (group : Group) : List Finding :=
  group.declarations.flatMap (declaration m p)

/-- The diagnostics for a group. -/
def inspect (m : Model) (p : Profile) (group : Group) : List Diagnostic :=
  (findings m p group).map Finding.diagnostic

/-- The diagnostics for a group with every check on, then those of the model about its file. -/
def fileDiagnostics (m : Model) (group : Group) : List Diagnostic :=
  inspect m {} group ++ m.diagnosticsFor group.file

end Inspection

end TypeAtlas
