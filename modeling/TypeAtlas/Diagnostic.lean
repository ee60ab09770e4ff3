/-
Diagnostics: what is wrong where. A diagnostic never stops anything; a model with diagnostics stays
usable. The wording of every structural finding is in this module.
-/
import TypeAtlas.Location

namespace TypeAtlas

/-- How serious a finding is, gravest first. -/
inductive Severity where
  | error
  | warning
  | info
  | hint
deriving DecidableEq, Inhabited

namespace Severity

def all : List Severity := [error, warning, info, hint]

def word : Severity → String
  | error => "error"
  | warning => "warning"
  | info => "info"
  | hint => "hint"

def ofWord? (w : String) : Option Severity := all.find? fun s => s.word == w

/-- The place in the order of gravity. -/
def rank : Severity → Nat
  | error => 0
  | warning => 1
  | info => 2
  | hint => 3

end Severity

/-- The rules that findings are filed under. -/
inductive Rule where
  /-- A declaration lacks what it needs to be kept. -/
  | malformedDeclaration
  /-- One code is declared with different kinds. -/
  | conflictingKind
  /-- The parent is unknown or no item type. -/
  | unresolvedParent
  /-- The type lies on an extends cycle. -/
  | cyclicExtends
  /-- A custom property names a member that does not resolve. -/
  | unresolvedQualifier
  /-- The modifiers do not fit together. -/
  | invalidModifiers
  /-- An attribute is declared again with another type. -/
  | incompatibleOverride
  /-- A type is declared again with another parent. -/
  | conflictingParent
  /-- A name breaks a convention. -/
  | namingConvention
  /-- Something deprecated is used. -/
  | deprecatedUse
  /-- Something works but is slow. -/
  | discouraged
deriving DecidableEq

/-- The code of a rule in reports. -/
def Rule.code : Rule → String
  | malformedDeclaration => "E0001"
  | conflictingKind => "E0002"
  | unresolvedParent => "E0003"
  | cyclicExtends => "E0004"
  | unresolvedQualifier => "E0005"
  | invalidModifiers => "E0006"
  | incompatibleOverride => "W0001"
  | conflictingParent => "W0002"
  | namingConvention => "W0003"
  | deprecatedUse => "W0004"
  | discouraged => "W0005"

/-- A second place that a finding refers to. -/
structure Related where
  location : Location
  message : String
deriving DecidableEq

/-- A finding at a place. -/
structure Diagnostic where
  location : Location
  severity : Severity
  code : Option String
  message : String
  related : List Related
deriving DecidableEq

namespace Diagnostic

/-- A finding under a rule, without a second place. -/
def ofRule (rule : Rule) (severity : Severity) (location : Location) (message : String) :
    Diagnostic :=
  ⟨location, severity, some rule.code, message, []⟩

/-- The file that the finding is about. -/
def file (d : Diagnostic) : FileId := d.location.file

/-- Adds a second place. -/
def relate (d : Diagnostic) (location : Location) (message : String) : Diagnostic :=
  { d with related := d.related ++ [⟨location, message⟩] }

/-- A name as messages show it. -/
def quoted (s : String) : String := "'" ++ s ++ "'"

/-! ## Structural findings -/

/-- A declaration, or a part of one, that cannot be used as written. -/
def malformed (location : Location) (what : String) : Diagnostic :=
  ofRule .malformedDeclaration .error location ("malformed declaration: " ++ what)

/-- A declaration whose kind lost against a later one's. -/
def conflictingKind (location : Location) (code declared winner : String)
    (winnerLocation : Location) : Diagnostic :=
  (ofRule .conflictingKind .error location
    (quoted code ++ " is declared as " ++ declared ++ " here but as " ++ winner ++
      " elsewhere; " ++ winner ++ " wins")).relate winnerLocation
    (quoted code ++ " declared as " ++ winner)

/-- A declaration that changes the parent of its type. -/
def conflictingParent (location : Location) (code parent previous : String)
    (previousLocation : Location) : Diagnostic :=
  (ofRule .conflictingParent .warning location
    (quoted code ++ " extends " ++ quoted parent ++ " here but " ++ quoted previous ++
      " elsewhere; " ++ quoted parent ++ " wins")).relate previousLocation
    (quoted code ++ " extends " ++ quoted previous)

/-- An attribute that changes the type of an earlier or inherited one. -/
def incompatibleOverride (location : Location) (qualifier declared overridden : String)
    (overriddenLocation : Location) : Diagnostic :=
  (ofRule .incompatibleOverride .warning location
    ("attribute " ++ quoted qualifier ++ " is redeclared as " ++ quoted declared ++
      " but was " ++ quoted overridden)).relate overriddenLocation
    (quoted qualifier ++ " declared as " ++ quoted overridden)

/-- A type whose parent is no item type. -/
def unresolvedParent (location : Location) (code parent : String) : Diagnostic :=
  ofRule .unresolvedParent .error location
    (quoted code ++ " extends unknown item type " ++ quoted parent)

/-- A type on an extends cycle; `cycle` names the way round. -/
def cyclicExtends (location : Location) (code : String) (cycle : List String) : Diagnostic :=
  ofRule .cyclicExtends .error location
    (quoted code ++ " is part of an extends cycle: " ++ " -> ".intercalate cycle)

end Diagnostic

end TypeAtlas
