/-
Whole rebuilds. One rebuild runs at a time; a request that arrives meanwhile only asks the running
one for another pass. A pass takes a snapshot of the sources, builds a model from it and publishes
the model unless an edit came in between; then every listener is told. Passes follow each other
until nothing is pending. A rebuild ends because listeners and arrivals act finitely often: a pass
leaves something pending only if it used up one of their lists of actions.
-/
import TypeAtlas.Host.Basic

namespace TypeAtlas.Host

/-! ## Actions during a rebuild -/

/-- What a rebuild achieved. -/
inductive Outcome where
  | published (generation : Nat)
  | upToDate (generation : Nat)
  /-- Another rebuild covers the request. -/
  | coalesced
deriving DecidableEq

/-- The answer to an action. -/
inductive Reply where
  | edited (changed revision : Nat)
  | moduleId (id : ModuleId)
  | fileId (id : FileId)
  | outcome (o : Outcome)
  | nothing

/-- An answer together with the host right after it. -/
structure Moment where
  reply : Reply
  host : Host

/-- Does an action while a rebuild runs. -/
def act (h : Host) : Action → Moment
  | .edit e =>
    let (changed, h) := h.edit e
    ⟨.edited changed h.revision, h⟩
  | .registerModule name custom =>
    let (id, h) := h.registerModule name custom
    ⟨.moduleId id, h⟩
  | .fileId path =>
    let (id, h) := h.fileId path
    ⟨.fileId id, h⟩
  | .rebuild => ⟨.outcome .coalesced, h.requestPass⟩
  | .observe => ⟨.nothing, h⟩

/-- Does actions one after another. -/
def actAll (h : Host) : List Action → List Moment × Host
  | [] => ([], h)
  | a :: as =>
    let moment := h.act a
    let (moments, h) := moment.host.actAll as
    (moment :: moments, h)

/-- Something that happened during a rebuild, with the moments of its actions. -/
inductive Event where
  /-- The `number`-th list of arrivals, counted from one, came in. -/
  | arrived (number : Nat) (moments : List Moment)
  /-- A listener was told of a model. -/
  | announced (listener : Nat) (model : Model) (moments : List Moment)

/-! ## Announcing -/

/-- Tells a listener of a model: it does the next list of its script, if one is left. -/
def announceTo (m : Model) (h : Host) (listener : Nat) : Event × Host :=
  let script := (h.listeners[listener]?).getD []
  let h := { h with listeners := h.listeners.set listener (script.drop 1) }
  let (moments, h) := h.actAll (script.head?.getD [])
  (.announced listener m moments, h)

/-- Tells listeners of a model, in the given order. -/
def announceEach (m : Model) (h : Host) : List Nat → List Event × Host
  | [] => ([], h)
  | listener :: more =>
    let (event, h) := h.announceTo m listener
    let (events, h) := h.announceEach m more
    (event :: events, h)

/-- Tells every listener of a model, in subscription order. -/
def announce (m : Model) (h : Host) : List Event × Host :=
  h.announceEach m (List.range h.listeners.length)

/-! ## Passes -/

/-- A rebuild on its way: the host, the arrivals still to come, how many came already, what
happened so far, and how the last pass ended. -/
structure Run where
  host : Host
  arrivals : List (List Action)
  arrived : Nat
  events : List Event
  outcome : Except Model.BuildError Outcome

namespace Run

/-- Lets the next list of arrivals come in, if one is left. -/
def arrive (r : Run) : Run :=
  match r.arrivals with
  | [] => r
  | actions :: arrivals =>
    let (moments, host) := r.host.actAll actions
    { r with
      host
      arrivals
      arrived := r.arrived + 1
      events := r.events ++ [.arrived (r.arrived + 1) moments] }

/-- Publishes a model and tells the listeners, unless it is superseded. -/
def finish (r : Run) (m : Model) : Run :=
  match r.host.publish m with
  | .error e => { r with outcome := .error e }
  | .ok host =>
    let (events, host) := host.announce m
    { r with host, events := r.events ++ events, outcome := .ok (.published m.generation) }

/-- One pass: nothing but the outcome if the published model is up to date; else arrivals come in
after the snapshot and before the publication. -/
def pass (r : Run) : Run :=
  let host := r.host.beginPass
  let snapshot := host.snapshot
  if host.covers snapshot then
    { r with host, outcome := .ok (.upToDate host.model.generation) }
  else ({ r with host }.arrive).finish (host.candidate snapshot)

/-- Passes until nothing is pending. -/
def passes : Nat → Run → Run
  | 0, r => r
  | fuel + 1, r =>
    let r := r.pass
    if r.host.pending then passes fuel r else r

/-- The lists of actions that can still be used up. -/
def listsLeft (r : Run) : Nat := r.arrivals.length + r.host.listeners.flatten.length

end Run

/-- What a rebuild did. -/
structure Rebuilt where
  outcome : Outcome
  events : List Event
  host : Host

/-- Brings the published model up to date with the sources. The k-th list of `arrivals` comes in
during the k-th pass that builds. -/
def rebuild (h : Host) (arrivals : List (List Action)) : Rebuilt :=
  if h.building then ⟨.coalesced, [], h.requestPass⟩
  else
    let start : Run :=
      { host := { h with building := true }, arrivals, arrived := 0, events := [],
        outcome := .ok .coalesced }
    let r := start.passes (start.listsLeft + 1)
    let outcome :=
      match r.outcome with
      | .ok o => o
      | .error .superseded => .coalesced
    ⟨outcome, r.events, { r.host with building := false }⟩

end TypeAtlas.Host
