/-
Loading declaration batches from a directory. Batches are the regular files with the extension
`json` below the directory, in the order of their paths compared name by name. Every batch that
cannot be loaded is reported, and a host takes over either all batches or none.
-/
import TypeAtlas.Host.Basic
import TypeAtlas.Record.Decode
import TypeAtlas.Text.Property

namespace TypeAtlas

/-- The names on the way from the root of a volume. -/
abbrev Path := List String

/-- Why a file cannot be read. -/
inductive ReadFailure where
  | notFound
  | notADirectory
  | isADirectory
  | invalidText
  /-- The system gives another cause, which is only shown. -/
  | other (cause : String)
deriving DecidableEq

/-- The wording of a read failure. -/
def ReadFailure.text : ReadFailure → String
  | notFound => "No such file or directory (os error 2)"
  | notADirectory => "Not a directory (os error 20)"
  | isADirectory => "Is a directory (os error 21)"
  | invalidText => "stream did not contain valid UTF-8"
  | other cause => cause

/-- What reading a file gives: its bytes, or why it cannot be read. -/
abbrev Content := Except ReadFailure ByteArray

/-- A tree of directories and files. The root is listed, and so is every directory on the way to a
file or directory. -/
structure Volume where
  /-- The name of the root in messages. -/
  root : String
  directories : List Path := [[]]
  files : List (Path × Content) := []

namespace Volume

/-! ## Contents -/

/-- The names that slashes separate. -/
def names (path : String) : List String := (Text.splitChars '/' path.toList).map String.ofList

/-- Goes one name on from a directory. Empty names and single dots stay in place, double dots go
back. -/
def step (directory : Path) (name : String) : Path :=
  if name = "" ∨ name = "." then directory
  else if name = ".." then directory.dropLast
  else directory ++ [name]

/-- Where names lead from the root, if every name on the way is that of a directory. -/
def settle (names : List String) : Path := names.foldl step []

/-- Creates a directory and those on the way to it. -/
def addDirectory (v : Volume) (names : List String) : Volume :=
  let way := (List.range (names.length + 1)).map fun n => settle (names.take n)
  { v with directories := v.directories ++ way.filter fun p => !v.directories.contains p }

/-- Writes a file, creating the directories on the way to it. -/
def addFile (v : Volume) (names : List String) (bytes : ByteArray) : Volume :=
  let v := v.addDirectory names.dropLast
  let path := settle names
  { v with files := (v.files.filter fun f => f.1 != path) ++ [(path, .ok bytes)] }

/-- What a path leads to. -/
inductive Place where
  | directory (path : Path)
  | file (content : Content)

/-- Goes one name on; only a directory can be gone on from. -/
def goTo (v : Volume) (here : Place) (name : String) : Except ReadFailure Place :=
  match here with
  | .file _ => .error .notADirectory
  | .directory directory =>
    let path := step directory name
    match v.files.lookup path with
    | some content => .ok (.file content)
    | none => if v.directories.contains path then .ok (.directory path) else .error .notFound

/-- What a path below the root leads to. -/
def place (v : Volume) (path : String) : Except ReadFailure Place :=
  (names path).foldlM v.goTo (.directory [])

/-- A path below the root as it is shown. -/
def shown (v : Volume) (path : String) : String := v.root ++ "/" ++ path

end Volume

/-! ## Failures -/

/-- Why loading failed. -/
inductive LoadError where
  | notADirectory (path : String)
  | unreadable (path cause : String)
  /-- The text of the file is no declaration record. -/
  | malformed (path : String)
  | many (errors : List LoadError)

namespace LoadError

mutual

/-- The wording of a load error. -/
def message : LoadError → String
  | notADirectory path => "directory not found: " ++ path
  | unreadable path cause => "failed to read " ++ path ++ ": " ++ cause
  | malformed path => "failed to parse " ++ path
  | many errors =>
    "failed to load " ++ toString errors.length ++ " file(s):\n  " ++
      "\n  ".intercalate (messages errors)

/-- The wordings of load errors. -/
def messages : List LoadError → List String
  | [] => []
  | e :: es => e.message :: messages es

end

end LoadError

/-! ## Batches -/

/-- What follows the last dot of a file name, unless the dot is missing or leads the name. -/
def extension? (name : String) : Option String :=
  let cs := name.toList
  let ext := Text.afterLast '.' cs
  if ext.length + 1 < cs.length then some (String.ofList ext) else none

/-- The extension of batches. -/
def batchExtension : String := "json"

/-- The file record that the content of a file spells; a record without a path gets the path it was
read from. -/
def decodeBatch (path : String) (content : Content) : Except LoadError Record.File :=
  match content with
  | .error cause => .error (.unreadable path cause.text)
  | .ok bytes =>
    match String.fromUTF8? bytes with
    | none => .error (.unreadable path ReadFailure.invalidText.text)
    | some text =>
      match Record.parseFile? text with
      | none => .error (.malformed path)
      | some file => .ok (if file.path.isEmpty then { file with path } else file)

namespace Volume

/-- Loads one file. -/
def loadFile (v : Volume) (path : String) : Except LoadError Record.File :=
  let shown := v.shown path
  match v.place path with
  | .error cause => .error (.unreadable shown cause.text)
  | .ok (.directory _) => .error (.unreadable shown ReadFailure.isADirectory.text)
  | .ok (.file content) => decodeBatch shown content

/-- Whether the last name of a path has the extension of batches. -/
def isBatch (path : Path) : Bool := (path.getLast?.bind extension?) == some batchExtension

/-- The batches below a directory, sorted by path, each with its path from there. -/
def batches (v : Volume) (directory : Path) : List (Path × Content) :=
  let below := v.files.filter fun f => directory.isPrefixOf f.1 && isBatch f.1
  (below.map fun f => (f.1.drop directory.length, f.2)).mergeSort fun a b =>
    !List.lex b.1 a.1 fun x y => decide (x < y)

/-- A path from a shown directory as it is shown. -/
def shownBelow (directory : String) (path : Path) : String :=
  (if directory.endsWith "/" then directory else directory ++ "/") ++ "/".intercalate path

/-- Loads every batch below a directory. If some fail, all failures are reported and nothing is
loaded. -/
def loadDirectory (v : Volume) (path : String) : Except LoadError (List Record.File) :=
  let shown := v.shown path
  match v.place path with
  | .ok (.directory directory) =>
    let results := (v.batches directory).map fun b => decodeBatch (shownBelow shown b.1) b.2
    let errors := results.filterMap fun r =>
      match r with
      | .ok _ => none
      | .error e => some e
    if errors.isEmpty then .ok (results.filterMap Except.toOption) else .error (.many errors)
  | _ => .error (.notADirectory shown)

end Volume

namespace Host

/-- Makes the edit that was loaded. The answer is the number of files that changed, or why there is no
edit to make. -/
def takeOver (h : Host) (loaded : Except LoadError Edit) : Except LoadError Nat × Host :=
  match loaded with
  | .ok e =>
    let (changed, h) := h.edit e
    (.ok changed, h)
  | .error cause => (.error cause, h)

/-- Loads a directory into a host. -/
def loadDirectory (h : Host) (v : Volume) (path : String) : Except LoadError Nat × Host :=
  h.takeOver ((v.loadDirectory path).map .setFiles)

/-- Loads one file into a host. -/
def loadFile (h : Host) (v : Volume) (path : String) : Except LoadError Nat × Host :=
  h.takeOver ((v.loadFile path).map .setFile)

end Host

end TypeAtlas
