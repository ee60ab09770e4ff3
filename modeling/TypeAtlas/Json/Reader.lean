/-
Reading JSON text. The grammar is strict: one value with optional blanks (space, tab, line feed,
carriage return) around it, no comments, no trailing commas, no leading zeros, no raw control
characters in strings. Each function takes the unread characters and returns what is left; the
fuel of `value` bounds the characters still to be read, so `read?` gives it their number.
-/
import TypeAtlas.Json

namespace TypeAtlas.Json.Reader

/-! ## Blanks, literals, numbers -/

/-- A blank of the grammar. -/
def isSpace (c : Char) : Bool := c == ' ' || c == '\t' || c == '\n' || c == '\r'

def skipSpace (cs : List Char) : List Char := cs.dropWhile isSpace

/-- Expects the characters of `word`. -/
def literal (word : List Char) (result : Json) (cs : List Char) : Option (Json × List Char) :=
  if word.isPrefixOf cs then some (result, cs.drop word.length) else none

/-- One or more digits. -/
def digits1 (cs : List Char) : Option (List Char × List Char) :=
  match cs.takeWhile Char.isDigit with
  | [] => none
  | ds => some (ds, cs.dropWhile Char.isDigit)

/-- The integral part: a zero alone, or digits that do not start with zero. -/
def integral (cs : List Char) : Option (List Char × List Char) :=
  match cs with
  | '0' :: rest =>
    match rest with
    | c :: _ => if c.isDigit then none else some (['0'], rest)
    | [] => some (['0'], rest)
  | _ => digits1 cs

/-- A fraction, if a point follows. -/
def fraction (cs : List Char) : Option (List Char × List Char) :=
  match cs with
  | '.' :: rest => do
    let (ds, rest) ← digits1 rest
    return ('.' :: ds, rest)
  | _ => some ([], cs)

/-- The optional sign of an exponent. -/
def exponentSign : List Char → List Char × List Char
  | '+' :: rest => (['+'], rest)
  | '-' :: rest => (['-'], rest)
  | cs => ([], cs)

/-- An exponent, if its mark follows. -/
def exponent (cs : List Char) : Option (List Char × List Char) :=
  match cs with
  | c :: rest =>
    if c == 'e' || c == 'E' then do
      let (sign, rest) := exponentSign rest
      let (ds, rest) ← digits1 rest
      return (c :: (sign ++ ds), rest)
    else some ([], cs)
  | [] => some ([], cs)

/-- A number, kept as its lexeme. -/
def number (cs : List Char) : Option (Json × List Char) := do
  let (sign, cs) := match cs with
    | '-' :: rest => (['-'], rest)
    | _ => ([], cs)
  let (whole, cs) ← integral cs
  let (frac, cs) ← fraction cs
  let (power, cs) ← exponent cs
  return (.number (sign ++ whole ++ frac ++ power), cs)

/-! ## Strings -/

/-- The value of a hexadecimal digit. -/
def hexDigit? (c : Char) : Option Nat :=
  if '0' ≤ c && c ≤ '9' then some (c.toNat - '0'.toNat)
  else if 'a' ≤ c && c ≤ 'f' then some (c.toNat - 'a'.toNat + 10)
  else if 'A' ≤ c && c ≤ 'F' then some (c.toNat - 'A'.toNat + 10)
  else none

/-- A piece of a string: a character, or one unit of UTF-16 that an escape spells. -/
inductive Piece where
  | char (c : Char)
  | unit (n : Nat)

/-- The character that a one-letter escape stands for. -/
def shortEscape? : Char → Option Char
  | '"' => some '"'
  | '\\' => some '\\'
  | '/' => some '/'
  | 'b' => some '\x08'
  | 'f' => some '\x0c'
  | 'n' => some '\n'
  | 'r' => some '\r'
  | 't' => some '\t'
  | _ => none

/-- The pieces up to the closing quote. -/
def pieces : List Char → Option (List Piece × List Char)
  | '"' :: rest => some ([], rest)
  | '\\' :: 'u' :: a :: b :: c :: d :: rest => do
    let a ← hexDigit? a
    let b ← hexDigit? b
    let c ← hexDigit? c
    let d ← hexDigit? d
    let (ps, rest) ← pieces rest
    return (.unit (((a * 16 + b) * 16 + c) * 16 + d) :: ps, rest)
  | '\\' :: c :: rest => do
    let c ← shortEscape? c
    let (ps, rest) ← pieces rest
    return (.char c :: ps, rest)
  | c :: rest =>
    if c.toNat < 0x20 then none
    else do
      let (ps, rest) ← pieces rest
      return (.char c :: ps, rest)
  | [] => none

/-- A unit that opens a surrogate pair. -/
def isHighSurrogate (n : Nat) : Bool := 0xD800 ≤ n && n < 0xDC00

/-- A unit that closes a surrogate pair. -/
def isLowSurrogate (n : Nat) : Bool := 0xDC00 ≤ n && n < 0xE000

/-- The text of the pieces; none if a surrogate is left without its partner. -/
def textOf : List Piece → Option (List Char)
  | [] => some []
  | .char c :: ps => (textOf ps).map (c :: ·)
  | .unit high :: .unit low :: ps =>
    if isHighSurrogate high then
      if isLowSurrogate low then
        (textOf ps).map (Char.ofNat (0x10000 + (high - 0xD800) * 0x400 + (low - 0xDC00)) :: ·)
      else none
    else if isLowSurrogate high then none
    else (textOf (.unit low :: ps)).map (Char.ofNat high :: ·)
  | .unit n :: ps =>
    if isHighSurrogate n || isLowSurrogate n then none
    else (textOf ps).map (Char.ofNat n :: ·)

/-- The rest of a string after its opening quote. -/
def stringBody (cs : List Char) : Option (Option String × List Char) := do
  let (ps, rest) ← pieces cs
  return ((textOf ps).map String.ofList, rest)

/-! ## Values -/

mutual

/-- A value, with the blanks before it. -/
def value : Nat → List Char → Option (Json × List Char)
  | 0, _ => none
  | fuel + 1, cs =>
    match skipSpace cs with
    | '"' :: rest => do
      let (text, rest) ← stringBody rest
      return (.string text, rest)
    | '[' :: rest =>
      match skipSpace rest with
      | ']' :: rest => some (.array [], rest)
      | rest => do
        let (items, rest) ← items fuel rest
        return (.array items, rest)
    | '\x7b' :: rest =>
      match skipSpace rest with
      | '\x7d' :: rest => some (.object [], rest)
      | rest => do
        let (members, rest) ← members fuel rest
        return (.object members, rest)
    | 't' :: rest => literal "true".toList (.bool true) ('t' :: rest)
    | 'f' :: rest => literal "false".toList (.bool false) ('f' :: rest)
    | 'n' :: rest => literal "null".toList .null ('n' :: rest)
    | rest => number rest

/-- The items of a non-empty array, with its closing bracket. -/
def items : Nat → List Char → Option (List Json × List Char)
  | 0, _ => none
  | fuel + 1, cs => do
    let (item, rest) ← value fuel cs
    match skipSpace rest with
    | ']' :: rest => some ([item], rest)
    | ',' :: rest => do
      let (more, rest) ← items fuel rest
      return (item :: more, rest)
    | _ => none

/-- The members of a non-empty object, with its closing brace. -/
def members : Nat → List Char → Option (List (Option String × Json) × List Char)
  | 0, _ => none
  | fuel + 1, cs =>
    match skipSpace cs with
    | '"' :: rest => do
      let (name, rest) ← stringBody rest
      match skipSpace rest with
      | ':' :: rest => do
        let (item, rest) ← value fuel rest
        match skipSpace rest with
        | '\x7d' :: rest => some ([(name, item)], rest)
        | ',' :: rest => do
          let (more, rest) ← members fuel rest
          return ((name, item) :: more, rest)
        | _ => none
      | _ => none
    | _ => none

end

end Reader

/-- The value that a whole text spells. -/
def read? (text : String) : Option Json :=
  let cs := text.toList
  match Reader.value (2 * cs.length + 2) cs with
  | some (json, rest) => if (Reader.skipSpace rest).isEmpty then some json else none
  | none => none

end TypeAtlas.Json
