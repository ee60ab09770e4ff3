/-
The sources of a model: registered modules, the ids of files, and one group of declarations per
file. Modules are numbered in registration order, file ids are never used twice, and the order in
which groups are merged depends on the module table and on the ids alone.
-/
import TypeAtlas.Declaration.Adapt

namespace TypeAtlas

/-- A registered module. Its position in the module table is its id. -/
structure Module where
  name : String
  /-- Part of a project, as opposed to the platform. -/
  custom : Bool
deriving DecidableEq

/-- The modules, files and groups that a model is built from. -/
structure Sources where
  modules : List Module := []
  paths : Dict FileId := .empty
  groups : List Group := []
  nextFile : Nat := 0

namespace Sources

/-! ## Modules -/

/-- The id of a registered name. -/
def moduleId? (s : Sources) (name : String) : Option ModuleId :=
  (s.modules.findIdx? fun m => m.name == name).map ModuleId.mk

/-- The module with an id. -/
def module? (s : Sources) (id : ModuleId) : Option Module := s.modules[id.index]?

/-- The id of a module, registered now unless its name is known. A known module keeps its flag. -/
def registerModule (s : Sources) (name : String) (custom : Bool) : ModuleId × Sources :=
  match s.moduleId? name with
  | some id => (id, s)
  | none => (⟨s.modules.length⟩, { s with modules := s.modules ++ [⟨name, custom⟩] })

/-! ## Files -/

/-- The id of a known path. -/
def fileId? (s : Sources) (path : String) : Option FileId := s.paths.get? path

/-- The path of a known file. -/
def path? (s : Sources) (file : FileId) : Option String :=
  (s.paths.entries.find? fun row => row.2 == file).map Prod.fst

/-- The id of a path, a fresh one unless the path is known. -/
def fileId (s : Sources) (path : String) : FileId × Sources :=
  match s.fileId? path with
  | some id => (id, s)
  | none =>
    let id : FileId := ⟨s.nextFile⟩
    (id, { s with paths := s.paths.insert path id, nextFile := s.nextFile + 1 })

/-! ## Groups -/

/-- The group of a file. -/
def group? (s : Sources) (file : FileId) : Option Group := s.groups.find? fun g => g.file == file

/-- Replaces the group of the same file where it stands, or adds the group at the end. -/
def putGroup (group : Group) : List Group → List Group
  | [] => [group]
  | g :: gs => if g.file = group.file then group :: gs else g :: putGroup group gs

/-- Stores a group. Says whether anything changed: storing a group equal to the one that is there
does nothing. -/
def setGroup (s : Sources) (group : Group) : Bool × Sources :=
  match s.group? group.file with
  | some stored =>
    if stored == group then (false, s) else (true, { s with groups := putGroup group s.groups })
  | none => (true, { s with groups := putGroup group s.groups })

/-- Stores groups one after another; says for each whether anything changed. -/
def setGroups (s : Sources) : List Group → List Bool × Sources
  | [] => ([], s)
  | group :: groups =>
    let (changed, s) := s.setGroup group
    let (rest, s) := s.setGroups groups
    (changed :: rest, s)

/-- Forgets the path and the group of a file. Says whether there was a group. -/
def removeFile (s : Sources) (file : FileId) : Bool × Sources :=
  ((s.group? file).isSome,
    { s with
      paths := s.paths.filter fun _ id => id != file
      groups := s.groups.filter fun g => g.file != file })

/-- Adapts a file record under the ids of its module and path. -/
def adaptFile (s : Sources) (file : Record.File) : Group × Sources :=
  let (module, s) := s.registerModule file.module file.custom
  let (id, s) := s.fileId file.path
  (Group.ofRecords id module file.declarations, s)

/-- Adapts file records one after another, without storing the groups. -/
def adaptFiles (s : Sources) : List Record.File → List Group × Sources
  | [] => ([], s)
  | file :: files =>
    let (group, s) := s.adaptFile file
    let (groups, s) := s.adaptFiles files
    (group :: groups, s)

/-! ## Merge order -/

/-- The rank of a group's module: custom modules come last where the platform goes first. -/
def rank (s : Sources) (order : MergeOrder) (group : Group) : Nat :=
  match order with
  | .loadOrder => 0
  | .platformFirst =>
    match s.module? group.module with
    | some m => if m.custom then 1 else 0
    | none => 0

/-- What groups are sorted by: rank, module id, file id. -/
def mergeKey (s : Sources) (order : MergeOrder) (group : Group) : Nat × Nat × Nat :=
  (s.rank order group, group.module.index, group.file.index)

/-- Whether a key comes before another, or equals it. -/
def keyLe (a b : Nat × Nat × Nat) : Bool :=
  a.1 < b.1 || (a.1 == b.1 &&
    (a.2.1 < b.2.1 || (a.2.1 == b.2.1 && a.2.2 ≤ b.2.2)))

/-- The groups in the order in which they are merged. -/
def groupsInMergeOrder (s : Sources) (order : MergeOrder) : List Group :=
  s.groups.mergeSort fun a b => keyLe (s.mergeKey order a) (s.mergeKey order b)

end Sources

end TypeAtlas
