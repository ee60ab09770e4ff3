/-
Sources in tables: the modules by name, the ids of files by path, the paths of files by id, and the
groups by file id. Each operation looks into the tables that it needs and updates them one after
another. Nothing but the operations keeps the tables in step with each other.
-/
import TypeAtlas.Sources
import TypeAtlas.Table

namespace TypeAtlas

/-- A row of the module table: a module with its id. -/
structure ModuleEntry extends Module where
  id : ModuleId
deriving DecidableEq

/-- The tables that sources are kept in. -/
structure SourceTables where
  modules : Table String ModuleEntry := .empty
  ids : Table String FileId := .empty
  paths : Table FileId String := .empty
  groups : Table FileId Group := .empty
  nextFile : Nat := 0

namespace SourceTables

/-! ## Modules -/

/-- The module with an id, which is its position. -/
def module? (t : SourceTables) (id : ModuleId) : Option ModuleEntry := t.modules.at? id.index

/-- The module with a name. -/
def moduleNamed? (t : SourceTables) (name : String) : Option ModuleEntry := t.modules.get? name

/-- The modules in registration order. -/
def moduleList (t : SourceTables) : List ModuleEntry := t.modules.values

/-- The id of a module, registered now unless its name is known. A known module keeps its flag. -/
def registerModule (t : SourceTables) (name : String) (custom : Bool) : ModuleId × SourceTables :=
  match t.modules.get? name with
  | some entry => (entry.id, t)
  | none =>
    let id : ModuleId := ⟨t.modules.size⟩
    (id, { t with modules := t.modules.insert name { name, custom, id } })

/-! ## Files -/

/-- The id of a known path. -/
def fileId? (t : SourceTables) (path : String) : Option FileId := t.ids.get? path

/-- The path of a known file. -/
def path? (t : SourceTables) (file : FileId) : Option String := t.paths.get? file

/-- The id of a path. An unknown path gets the next id, and a row in both tables. -/
def fileId (t : SourceTables) (path : String) : FileId × SourceTables :=
  match t.ids.get? path with
  | some id => (id, t)
  | none =>
    let id : FileId := ⟨t.nextFile⟩
    (id, { t with
      nextFile := t.nextFile + 1
      ids := t.ids.insert path id
      paths := t.paths.insert id path })

/-! ## Groups -/

/-- The group of a file. -/
def group? (t : SourceTables) (file : FileId) : Option Group := t.groups.get? file

/-- Stores a group under its file. Says whether anything changed: storing a group equal to the one
that is there does nothing. -/
def setGroup (t : SourceTables) (group : Group) : Bool × SourceTables :=
  if (t.groups.get? group.file).any (· == group) then (false, t)
  else (true, { t with groups := t.groups.insert group.file group })

/-- Forgets a file. The row of its id tells which path to forget; a file may have a path and no group,
or a group and no path. Says whether there was a group. -/
def removeFile (t : SourceTables) (file : FileId) : Bool × SourceTables :=
  let (path, paths) := t.paths.swapRemove file
  let ids := match path with
    | some path => (t.ids.swapRemove path).2
    | none => t.ids
  let (group, groups) := t.groups.shiftRemove file
  (group.isSome, { t with ids, paths, groups })

/-! ## Batches -/

/-- The ids of files and modules for file records, one after another. -/
def locate (t : SourceTables) : List Record.File → List (FileId × ModuleId) × SourceTables
  | [] => ([], t)
  | file :: files =>
    let (module, t) := t.registerModule file.module file.custom
    let (id, t) := t.fileId file.path
    let (places, t) := t.locate files
    ((id, module) :: places, t)

/-- Adapts file records, each by itself, after all of them have their ids. -/
def adaptFiles (t : SourceTables) (files : List Record.File) : List Group × SourceTables :=
  let (places, t) := t.locate files
  (List.zipWith (fun file place => .ofRecords place.1 place.2 file.declarations) files places, t)

/-! ## Merge order -/

/-- The rank of a group's module: custom modules come last where the platform goes first. -/
def rank (t : SourceTables) (order : MergeOrder) (group : Group) : Nat :=
  match order with
  | .loadOrder => 0
  | .platformFirst =>
    match t.module? group.module with
    | some m => if m.custom then 1 else 0
    | none => 0

/-- What groups are sorted by: rank, module id, file id. -/
def mergeKey (t : SourceTables) (order : MergeOrder) (group : Group) : Nat × Nat × Nat :=
  (t.rank order group, group.module.index, group.file.index)

/-- The groups in the order in which they are merged. -/
def groupsInMergeOrder (t : SourceTables) (order : MergeOrder) : List Group :=
  t.groups.values.mergeSort fun a b =>
    Sources.keyLe (t.mergeKey order a) (t.mergeKey order b)

end SourceTables

end TypeAtlas
