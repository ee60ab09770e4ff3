/-
The settings of a model: how groups are merged, whether unchanged hierarchies are kept, the names of
the custom properties with a meaning, and two limits.
-/
import TypeAtlas.Json.Reader
import TypeAtlas.Kind
import TypeAtlas.Record.Fields

namespace TypeAtlas

/-- The settings for building and querying a model. -/
structure Config where
  mergeOrder : MergeOrder := .loadOrder
  /-- Keep the hierarchies that an edit left untouched. -/
  incremental : Bool := true
  /-- The property that marks an item type as catalog aware. -/
  catalogAwareMarker : String := "catalogItemType"
  /-- The property that names the catalog version attribute of a type. -/
  catalogVersionKey : String := "catalogVersionAttributeQualifier"
  /-- The property that lists the unique key attributes of a type. -/
  uniqueKeyKey : String := "uniqueKeyAttributeQualifier"
  /-- How many types a build handles between two looks at its token. -/
  cancelInterval : Nat := 256
  /-- How many collection types completion may pass through. -/
  maxCompletionDepth : Nat := 3
deriving DecidableEq, Inhabited

namespace Config

/-- The settings with another interval; an interval of zero would never look, so it counts as
one. -/
def withCancelInterval (c : Config) (interval : Nat) : Config :=
  { c with cancelInterval := max interval 1 }

/-- The declared names of the settings. -/
def fields : List String :=
  ["merge_order", "incremental", "catalog_aware_marker", "catalog_version_qualifier_key",
    "unique_key_qualifier_key", "cancel_check_interval", "max_completion_depth"]

/-- The settings that a JSON record gives; missing ones keep their default. -/
def decode (json : Json) : Option Config := do
  let b ← Record.bindings? fields json
  let std : Config := {}
  return {
    mergeOrder := ← b.field "merge_order" std.mergeOrder (Record.decodeWord MergeOrder.ofWord?)
    incremental := ← b.field "incremental" std.incremental Json.toBool?
    catalogAwareMarker := ← b.field "catalog_aware_marker" std.catalogAwareMarker Json.toText?
    catalogVersionKey :=
      ← b.field "catalog_version_qualifier_key" std.catalogVersionKey Json.toText?
    uniqueKeyKey := ← b.field "unique_key_qualifier_key" std.uniqueKeyKey Json.toText?
    cancelInterval := ← b.field "cancel_check_interval" std.cancelInterval Json.toNat64?
    maxCompletionDepth := ← b.field "max_completion_depth" std.maxCompletionDepth Json.toNat64? }

/-- The settings that a JSON text spells. -/
def read? (text : String) : Option Config := Json.read? text >>= decode

end Config

end TypeAtlas
