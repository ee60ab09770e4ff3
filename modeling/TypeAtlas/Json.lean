/-
JSON values as they are written: a number keeps its lexeme, an object keeps its members in order
and with repetitions, and a string that spells an unpaired surrogate has no text.
-/

namespace TypeAtlas

/-- A JSON value. Strings and member names are `none` when their escapes spell no text. -/
inductive Json where
  | null
  | bool (value : Bool)
  | number (lexeme : List Char)
  | string (text : Option String)
  | array (items : List Json)
  | object (members : List (Option String × Json))

namespace Json

/-! ## Scalars -/

/-- The value of a row of decimal digits. -/
def digitsValue (digits : List Char) : Nat :=
  digits.foldl (fun n c => 10 * n + (c.toNat - '0'.toNat)) 0

/-- The natural number a lexeme spells with digits alone: no sign, fraction or exponent. -/
def natural? (lexeme : List Char) : Option Nat :=
  if lexeme.all Char.isDigit then some (digitsValue lexeme) else none

/-- A natural number below `bound`. -/
def toNatBelow? (bound : Nat) : Json → Option Nat
  | number lexeme => (natural? lexeme).filter (· < bound)
  | _ => none

/-- A 32-bit natural number. -/
def toNat32? : Json → Option Nat := toNatBelow? 0x100000000

/-- A 64-bit natural number. -/
def toNat64? : Json → Option Nat := toNatBelow? 0x10000000000000000

/-- A text. -/
def toText? : Json → Option String
  | string text => text
  | _ => none

/-- A truth value. -/
def toBool? : Json → Option Bool
  | bool value => some value
  | _ => none

/-! ## Containers -/

/-- A list whose items all decode. -/
def toList? {α : Type} (item : Json → Option α) : Json → Option (List α)
  | array items => items.mapM item
  | _ => none

/-- `null`, or a value that decodes. -/
def toOption? {α : Type} (value : Json → Option α) : Json → Option (Option α)
  | null => some none
  | json => (value json).map some

/-- The word of an enumeration: a string, or an object whose one member holds `null`. -/
def toWord? : Json → Option String
  | string text => text
  | object [(name, null)] => name
  | _ => none

/-- Two 32-bit offsets. -/
def toOffsets? : Json → Option (Nat × Nat)
  | array [start, stop] => do return (← start.toNat32?, ← stop.toNat32?)
  | _ => none

end Json

end TypeAtlas
