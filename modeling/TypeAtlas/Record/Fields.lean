/-
Records in JSON. A record is written as an object of named fields or as an array of the fields in
their declared order; fields that are left out take a default. `bindings?` brings both forms to one:
the fields that are given, each once. Everything else about a record is read from its bindings, so
how it was written cannot matter further on.
-/
import TypeAtlas.Json

namespace TypeAtlas.Record

/-- The given fields of a record, by name. -/
abbrev Bindings := List (String × Json)

/-- The fields that a JSON value gives to a record with the declared names. In an object every
member name must be a text, unknown members are left out and no field may be given twice; an array
has at most as many items as there are fields. -/
def bindings? (names : List String) : Json → Option Bindings
  | .object members => do
    let named ← members.mapM fun m => m.1.map fun name => (name, m.2)
    let known := named.filter fun b => names.contains b.1
    if (known.map Prod.fst).Nodup then some known else none
  | .array items => if items.length ≤ names.length then some (names.zip items) else none
  | _ => none

/-- The value of a field, `absent` when it is not given. -/
def Bindings.field {α : Type} (b : Bindings) (name : String) (absent : α)
    (decode : Json → Option α) : Option α :=
  match b.lookup name with
  | none => some absent
  | some json => decode json

/-- The value of an optional field, which may also be given as `null`. -/
def Bindings.optional {α : Type} (b : Bindings) (name : String) (decode : Json → Option α) :
    Option (Option α) :=
  b.field name none (Json.toOption? decode)

/-- A word of a vocabulary. -/
def decodeWord {α : Type} (ofWord? : String → Option α) (json : Json) : Option α :=
  json.toWord? >>= ofWord?

end TypeAtlas.Record
