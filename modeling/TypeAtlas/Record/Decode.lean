/-
Reading declaration records from JSON. Each decoder lists the declared fields of its record in
order and reads their values from the record's bindings.
-/
import TypeAtlas.Json.Reader
import TypeAtlas.Record.Basic
import TypeAtlas.Record.Fields

namespace TypeAtlas.Record

/-! ## Shared field types -/

/-- A field that may be missing, `null` or a text. -/
def Bindings.text? (b : Bindings) (name : String) : Option (Option String) :=
  b.optional name Json.toText?

/-- A field that may be missing, `null` or a truth value. -/
def Bindings.flag? (b : Bindings) (name : String) : Option (Option Bool) :=
  b.optional name Json.toBool?

/-- The offsets of a record. -/
def Bindings.range (b : Bindings) : Option Range := b.optional "range" Json.toOffsets?

/-- Binds a key in a list sorted by key. -/
def putSorted (key value : String) : List (String × String) → List (String × String)
  | [] => [(key, value)]
  | row :: rows =>
    if key < row.1 then (key, value) :: row :: rows
    else if key = row.1 then (key, value) :: rows
    else row :: putSorted key value rows

/-- Custom properties: an object of texts, sorted by key; the last of several equal keys counts. -/
def decodeProperties : Json → Option (List (String × String))
  | .object members => do
    let rows ← members.mapM fun m => do return (← m.1, ← m.2.toText?)
    return rows.foldl (fun acc row => putSorted row.1 row.2 acc) []
  | _ => none

/-- The custom properties of a record. -/
def Bindings.properties (b : Bindings) : Option (List (String × String)) :=
  b.field "custom_properties" [] decodeProperties

/-! ## Records -/

def modifierFields : List String :=
  ["read", "write", "search", "optional", "unique", "initial", "private", "removable", "part_of",
    "encrypted", "localized"]

def decodeModifiers (json : Json) : Option Modifiers := do
  let b ← bindings? modifierFields json
  return {
    read := ← b.flag? "read"
    write := ← b.flag? "write"
    search := ← b.flag? "search"
    optional := ← b.flag? "optional"
    unique := ← b.flag? "unique"
    initial := ← b.flag? "initial"
    isPrivate := ← b.flag? "private"
    removable := ← b.flag? "removable"
    partOf := ← b.flag? "part_of"
    encrypted := ← b.flag? "encrypted"
    localized := ← b.flag? "localized" }

def attributeFields : List String :=
  ["qualifier", "type_ref", "persistence", "modifiers", "handler", "default_value",
    "custom_properties", "range"]

def decodeAttribute (json : Json) : Option Attribute := do
  let b ← bindings? attributeFields json
  return {
    qualifier := ← b.text? "qualifier"
    typeRef := ← b.text? "type_ref"
    persistence := ← b.optional "persistence" (decodeWord Persistence.ofWord?)
    modifiers := ← b.field "modifiers" {} decodeModifiers
    handler := ← b.text? "handler"
    defaultValue := ← b.text? "default_value"
    properties := ← b.properties
    range := ← b.range }

def indexFields : List String := ["name", "keys", "unique", "range"]

def decodeIndex (json : Json) : Option Index := do
  let b ← bindings? indexFields json
  return {
    name := ← b.text? "name"
    keys := ← b.field "keys" [] (Json.toList? Json.toText?)
    unique := ← b.flag? "unique"
    range := ← b.range }

def enumValueFields : List String := ["code", "range"]

def decodeEnumValue (json : Json) : Option EnumValue := do
  let b ← bindings? enumValueFields json
  return { code := ← b.text? "code", range := ← b.range }

def relationEndFields : List String :=
  ["type_code", "qualifier", "cardinality", "ordering", "collection_kind", "navigable",
    "modifiers", "range"]

def decodeRelationEnd (json : Json) : Option RelationEnd := do
  let b ← bindings? relationEndFields json
  return {
    typeCode := ← b.text? "type_code"
    qualifier := ← b.text? "qualifier"
    cardinality := ← b.optional "cardinality" (decodeWord Cardinality.ofWord?)
    ordering := ← b.field "ordering" [] (Json.toList? Json.toText?)
    container := ← b.optional "collection_kind" (decodeWord Container.ofWord?)
    navigable := ← b.flag? "navigable"
    modifiers := ← b.field "modifiers" {} decodeModifiers
    range := ← b.range }

def declarationFields : List String :=
  ["kind", "code", "parent", "attributes", "indexes", "values", "dynamic", "source", "target",
    "element_type", "collection_kind", "argument_type", "return_type", "custom_properties", "range"]

def decodeDeclaration (json : Json) : Option Declaration := do
  let b ← bindings? declarationFields json
  return {
    kind := ← b.field "kind" .item (decodeWord Kind.ofWord?)
    code := ← b.text? "code"
    parent := ← b.text? "parent"
    attributes := ← b.field "attributes" [] (Json.toList? decodeAttribute)
    indexes := ← b.field "indexes" [] (Json.toList? decodeIndex)
    values := ← b.field "values" [] (Json.toList? decodeEnumValue)
    dynamic := ← b.flag? "dynamic"
    source := ← b.optional "source" decodeRelationEnd
    target := ← b.optional "target" decodeRelationEnd
    elementType := ← b.text? "element_type"
    container := ← b.optional "collection_kind" (decodeWord Container.ofWord?)
    argumentType := ← b.text? "argument_type"
    returnType := ← b.text? "return_type"
    properties := ← b.properties
    range := ← b.range }

def fileFields : List String := ["path", "module", "custom", "declarations"]

def decodeFile (json : Json) : Option File := do
  let b ← bindings? fileFields json
  return {
    path := ← b.field "path" "" Json.toText?
    module := ← b.field "module" "" Json.toText?
    custom := ← b.field "custom" false Json.toBool?
    declarations := ← b.field "declarations" [] (Json.toList? decodeDeclaration) }

/-- The file record that a JSON text spells. -/
def parseFile? (text : String) : Option File := Json.read? text >>= decodeFile

end TypeAtlas.Record
