/-
The host of a model: it owns the sources and shows the model published last. Every edit that changes
the sources advances the revision and cancels the pass that is running. The functions here are the
atomic steps of the host; `TypeAtlas.Host.Rebuild` composes them to whole rebuilds.
-/
import TypeAtlas.Model.Basic
import TypeAtlas.Sources

namespace TypeAtlas

/-- A change of the sources. -/
inductive Edit where
  | setFile (file : Record.File)
  | setFiles (files : List Record.File)
  | setGroup (group : Group)
  | removeFile (path : String)

/-- Makes a change of the sources, with the number of files that changed. -/
def Edit.apply (e : Edit) (s : Sources) : Nat × Sources :=
  match e with
  | .setFile file =>
    let (group, s) := s.adaptFile file
    let (changed, s) := s.setGroup group
    (changed.toNat, s)
  | .setFiles files =>
    let (groups, s) := s.adaptFiles files
    let (changed, s) := s.setGroups groups
    (changed.count true, s)
  | .setGroup group =>
    let (changed, s) := s.setGroup group
    (changed.toNat, s)
  | .removeFile path =>
    match s.fileId? path with
    | none => (0, s)
    | some file =>
      let (changed, s) := s.removeFile file
      (changed.toNat, s)

/-- Something done to a host while it rebuilds. -/
inductive Action where
  | edit (e : Edit)
  | registerModule (name : String) (custom : Bool)
  | fileId (path : String)
  /-- Asks for another rebuild. -/
  | rebuild
  /-- Looks without touching anything. -/
  | observe

/-- What a listener does: the n-th list of actions at the n-th model announced to it. -/
abbrev Script := List (List Action)

/-- The sources, the published model and the state of rebuilding. -/
structure Host where
  config : Config
  sources : Sources
  /-- The model published last. -/
  model : Model
  /-- Number of effective edits. -/
  revision : Nat
  /-- The generation of the model published last. -/
  generation : Nat
  /-- A rebuild is running. -/
  building : Bool
  /-- The sources changed, or a rebuild was asked for, since the last pass began. -/
  pending : Bool
  /-- The sources changed since the last pass began. -/
  cancelled : Bool
  /-- The listeners in subscription order, each with what it will still do. -/
  listeners : List Script

namespace Host

/-- A host without sources. -/
def new (config : Config) : Host where
  config
  sources := {}
  model := .empty config
  revision := 0
  generation := 0
  building := false
  pending := false
  cancelled := false
  listeners := []

/-! ## Reading -/

/-- Whether the published model is behind the sources. -/
def isStale (h : Host) : Bool := h.model.revision != h.revision

/-- The groups in the configured merge order. -/
def groups (h : Host) : List Group := h.sources.groupsInMergeOrder h.config.mergeOrder

/-- Whether the published types equal those of a build of the current sources from scratch. -/
def matchesFullBuild (h : Host) : Bool :=
  h.model.sameNodes (.ofGroups h.groups { h.config with incremental := false })

/-- The text of a host for inspection. -/
def debug (h : Host) : String :=
  "TypeSystemHost \x7b revision: " ++ toString h.revision ++ ", generation: " ++
    toString h.generation ++ ", state: " ++ (if h.building then "Rebuilding" else "Stable") ++
    ", .. \x7d"

/-! ## Edits -/

/-- Registers a module. -/
def registerModule (h : Host) (name : String) (custom : Bool) : ModuleId × Host :=
  let (id, sources) := h.sources.registerModule name custom
  (id, { h with sources })

/-- Gives a path its id. -/
def fileId (h : Host) (path : String) : FileId × Host :=
  let (id, sources) := h.sources.fileId path
  (id, { h with sources })

/-- Records that the sources changed. -/
def noteChange (h : Host) : Host :=
  { h with revision := h.revision + 1, pending := true, cancelled := true }

/-- Edits the sources. The answer is the number of files that changed; the revision advances by one
unless it is zero. -/
def edit (h : Host) (e : Edit) : Nat × Host :=
  let (changed, sources) := e.apply h.sources
  let h := { h with sources }
  (changed, if changed = 0 then h else h.noteChange)

/-- Adds a listener. The answer is its number. -/
def subscribe (h : Host) (script : Script) : Nat × Host :=
  (h.listeners.length, { h with listeners := h.listeners ++ [script] })

/-! ## Steps of a pass -/

/-- Starts a pass: what is pending is what it covers. -/
def beginPass (h : Host) : Host := { h with pending := false, cancelled := false }

/-- What a pass builds from. -/
structure Snapshot where
  groups : List Group
  revision : Nat

/-- The sources at this moment. -/
def snapshot (h : Host) : Snapshot := ⟨h.groups, h.revision⟩

/-- Whether the published model was built from this revision. The empty model of a new host was not
built from any. -/
def covers (h : Host) (s : Snapshot) : Bool :=
  h.model.revision == s.revision && h.model.generation > 0

/-- The model of a snapshot, over the published one. -/
def candidate (h : Host) (s : Snapshot) : Model :=
  .build s.groups h.config (some h.model) (h.generation + 1) s.revision

/-- Publishes a model, unless the sources changed since its pass began. -/
def publish (h : Host) (m : Model) : Except Model.BuildError Host :=
  if h.cancelled || h.revision != m.revision then .error .superseded
  else .ok { h with generation := m.generation, model := m }

/-- Asks a running rebuild for one more pass. -/
def requestPass (h : Host) : Host := { h with pending := true }

end Host

end TypeAtlas
