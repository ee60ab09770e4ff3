/-
Places in declaration files: ids of files, modules and types, and byte ranges inside a file.
-/

namespace TypeAtlas

/-- The handle of a declaration file. -/
structure FileId where
  index : Nat
deriving DecidableEq, Inhabited

/-- The handle of a module; modules are numbered in registration order. -/
structure ModuleId where
  index : Nat
deriving DecidableEq, Inhabited

/-- The position of a type in the node table of one model. -/
abbrev TypeId := Nat

namespace FileId

/-- Short text, for messages. -/
def display (f : FileId) : String := "file#" ++ toString f.index

/-- Long text, for inspection. -/
def debug (f : FileId) : String := "FileId(" ++ toString f.index ++ ")"

end FileId

namespace ModuleId

/-- Short text, for messages. -/
def display (m : ModuleId) : String := "module#" ++ toString m.index

/-- Long text, for inspection. -/
def debug (m : ModuleId) : String := "ModuleId(" ++ toString m.index ++ ")"

end ModuleId

/-- Long text of a type id, for inspection. -/
def TypeId.debug (t : TypeId) : String := "TypeId(" ++ toString t ++ ")"

/-- A byte range of a file. -/
structure Location where
  file : FileId
  start : Nat
  stop : Nat
  ordered : start ≤ stop := by omega
deriving DecidableEq

namespace Location

/-- The empty range at the start of a file, for elements without a position. -/
def fileStart (file : FileId) : Location := ⟨file, 0, 0, Nat.le_refl 0⟩

instance : Inhabited Location := ⟨fileStart default⟩

/-- The place of an element from the offsets its reader reported. An inverted pair is the empty
range at its first offset, no pair the start of the file. -/
def ofOffsets (file : FileId) : Option (Nat × Nat) → Location
  | some (start, stop) =>
    if h : start ≤ stop then ⟨file, start, stop, h⟩ else ⟨file, start, start, Nat.le_refl start⟩
  | none => fileStart file

@[simp]
theorem file_ofOffsets (file : FileId) (offsets : Option (Nat × Nat)) :
    (ofOffsets file offsets).file = file := by
  unfold ofOffsets
  split
  · split <;> rfl
  · rfl

/-- Number of bytes covered. -/
def length (l : Location) : Nat := l.stop - l.start

/-- Whether no byte is covered. -/
def isEmpty (l : Location) : Bool := l.start == l.stop

/-- The two offsets as text. -/
def rangeText (l : Location) : String := toString l.start ++ ".." ++ toString l.stop

/-- Short text, for messages. -/
def display (l : Location) : String := l.file.display ++ ":" ++ l.rangeText

/-- Long text, for inspection. -/
def debug (l : Location) : String := l.file.debug ++ "@" ++ l.rangeText

end Location

end TypeAtlas
