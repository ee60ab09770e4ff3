/-
The rebuild protocol. Any number of callers edit a host and ask it for rebuilds; a rebuild takes the
host's atomic steps one by one, and anything may happen between two of them. Main statement: no
model is published stale and no edit is lost. A publication is of the revision of that moment, by a
pass whose token is not cancelled, and of a later revision than the one before; when the last call
has returned and a rebuild was asked for since the last edit, the published model is up to date; and
no call returns an error.

What carries it: only the call that holds the lock is inside a pass, so the token in place is its
own; an edit cancels that token and leaves something pending; and whoever finds something pending
starts another pass, or sees that another call will.
-/
import TypeAtlas.Host.Rebuild
import TypeAtlas.Proofs.Generations
import Mathlib.Logic.Function.Basic
import Mathlib.Logic.Relation

namespace TypeAtlas.Protocol

open Host

/-! ## Systems -/

/-- How a pass ended, or what a call returns. -/
abbrev Answer := Except Model.BuildError Outcome

/-- Where a call stands. Under one hold of the lock there are at most two passes: `again` tells the
second from the first. -/
inductive Stage where
  | idle
  | starting (again : Bool)
  | reading (again : Bool) (token : Nat)
  | building (again : Bool) (token : Nat) (snapshot : Snapshot)
  | publishing (again : Bool) (token : Nat) (model : Model)
  /-- Tells the listeners, from number `next` on, of a generation; what the listener before `next`
  still has to do is `todo`. -/
  | announcing (again : Bool) (generation : Nat) (todo : List Action) (next : Nat)
  | rechecking (outcome : Answer)
  | unlocking (outcome : Answer)
  | draining (outcome : Answer)

namespace Stage

/-- Holds the build lock. -/
def holds : Stage → Bool
  | idle | draining _ => false
  | _ => true

/-- Inside a pass, before its end or its publication. -/
def inPass : Stage → Bool
  | starting _ | reading .. | building .. | publishing .. => true
  | _ => false

/-- After a pass: the second one under the lock is the last. -/
def afterPass (again : Bool) (outcome : Answer) : Stage :=
  if again then unlocking outcome else rechecking outcome

theorem holds_of_inPass {stage : Stage} (h : stage.inPass = true) : stage.holds = true := by
  cases stage <;> first | rfl | cases h

theorem ne_idle_of_holds {stage : Stage} (h : stage.holds = true) : stage ≠ .idle := by
  rintro rfl
  cases h

@[simp]
theorem holds_afterPass (again : Bool) (outcome : Answer) : (afterPass again outcome).holds = true := by
  cases again <;> rfl

end Stage

/-- A host and its callers. The last four fields are a record of what happened: no step reads
them. -/
structure System where
  host : Host
  calls : Nat → Stage
  /-- The number of the token in place. A new token gets the next number. -/
  token : Nat
  /-- The cancelled tokens. -/
  fired : List Nat
  /-- The edits, last first, each with the sources it found. -/
  edits : List (Sources × Edit)
  /-- A rebuild was asked for since the last edit that changed something. -/
  asked : Bool
  /-- The revisions of the published models, last first. -/
  published : List Nat
  /-- What calls returned. -/
  answers : List Answer

namespace System

/-- A new host, without calls. -/
def new (config : Config) : System where
  host := .new config
  calls _ := .idle
  token := 0
  fired := []
  edits := []
  asked := false
  published := []
  answers := []

def move (s : System) (call : Nat) (stage : Stage) : System :=
  { s with calls := Function.update s.calls call stage }

/-- Someone acts on the host while the lock is held, or does not ask for a rebuild. -/
def act (s : System) (a : Action) : System :=
  let s' := { s with host := (s.host.act a).host }
  match a with
  | .edit e =>
    let effective := (s.host.edit e).1 != 0
    { s' with
      edits := (s.host.sources, e) :: s.edits
      asked := s.asked && !effective
      fired := if effective then s.token :: s.fired else s.fired }
  | .rebuild => { s' with asked := true, answers := .ok .coalesced :: s.answers }
  | _ => s'

theorem act_host (s : System) (a : Action) : (s.act a).host = (s.host.act a).host := by
  cases a <;> rfl

theorem act_calls (s : System) (a : Action) : (s.act a).calls = s.calls := by
  cases a <;> rfl

theorem act_published (s : System) (a : Action) : (s.act a).published = s.published := by
  cases a <;> rfl

theorem act_model (s : System) (a : Action) : (s.act a).host.model = s.host.model := by
  rw [act_host]
  cases a with
  | edit e =>
    simp only [Host.act, Host.edit]
    split <;> rfl
  | _ => rfl

/-- A call gets the lock. -/
def take (s : System) (call : Nat) (asked : Bool) : System :=
  { s with
    host := { s.host with building := true }
    calls := Function.update s.calls call (.starting false)
    asked }

/-- A call begins a pass: it clears what is pending and puts a fresh token in place. -/
def begin (s : System) (call : Nat) (again : Bool) : System :=
  { s with
    host := s.host.beginPass
    calls := Function.update s.calls call (.reading again (s.token + 1))
    token := s.token + 1 }

/-- A call puts a model in place of the published one. -/
def publish (s : System) (call : Nat) (again : Bool) (m : Model) (host : Host) : System :=
  { s with
    host
    calls := Function.update s.calls call (.announcing again m.generation [] 0)
    published := m.revision :: s.published }

def setListeners (s : System) (listeners : List Script) : System :=
  { s with host := { s.host with listeners } }

def unlock (s : System) (call : Nat) (outcome : Answer) : System :=
  { s with
    host := { s.host with building := false }
    calls := Function.update s.calls call (.draining outcome) }

/-- A call returns. -/
def leave (s : System) (call : Nat) (answer : Answer) : System :=
  { s with calls := Function.update s.calls call .idle, answers := answer :: s.answers }

end System

/-- What a call returns whose last pass is superseded: a newer one covers it. -/
def absorb : Answer → Answer
  | .ok outcome => .ok outcome
  | .error .superseded => .ok .coalesced

/-! ## Steps -/

section Steps

variable (s : System)

/-- One atomic step of a system. -/
inductive Step : System → Prop
  /-- Anyone acts on the host. A request for a rebuild is of this kind if the lock is held. -/
  | act (a : Action) (held : a = .rebuild → s.host.building = true) : Step (s.act a)
  | subscribe (script : Script) : Step (s.setListeners (s.host.subscribe script).2.listeners)
  /-- A request finds the lock free. -/
  | request (call : Nat) (at_stage : s.calls call = .idle) (free : s.host.building = false) :
      Step (s.take call true)
  | begin (call : Nat) {again : Bool} (at_stage : s.calls call = .starting again) :
      Step (s.begin call again)
  | read (call : Nat) {again : Bool} {token : Nat} (at_stage : s.calls call = .reading again token) :
      Step (s.move call (.building again token s.host.snapshot))
  /-- The published model is of the revision that was read. -/
  | skip (call : Nat) {again : Bool} {token : Nat} {snapshot : Snapshot}
      (at_stage : s.calls call = .building again token snapshot)
      (covered : s.host.covers snapshot = true) :
      Step (s.move call (.afterPass again (.ok (.upToDate s.host.model.generation))))
  | build (call : Nat) {again : Bool} {token : Nat} {snapshot : Snapshot}
      (at_stage : s.calls call = .building again token snapshot)
      (behind : s.host.covers snapshot = false) {looks : Model.Token} {m : Model}
      (built : Model.buildUnless looks snapshot.groups s.host.config (some s.host.model)
        (s.host.generation + 1) snapshot.revision = .ok m) :
      Step (s.move call (.publishing again token m))
  /-- A build can give up only if the token of its pass is cancelled. -/
  | giveUp (call : Nat) {again : Bool} {token : Nat} {snapshot : Snapshot}
      (at_stage : s.calls call = .building again token snapshot)
      (behind : s.host.covers snapshot = false) (cancelled : token ∈ s.fired)
      {looks : Model.Token} {e : Model.BuildError}
      (stopped : Model.buildUnless looks snapshot.groups s.host.config (some s.host.model)
        (s.host.generation + 1) snapshot.revision = .error e) :
      Step (s.move call (.afterPass again (.error e)))
  | publish (call : Nat) {again : Bool} {token : Nat} {m : Model}
      (at_stage : s.calls call = .publishing again token m) {host : Host}
      (swapped : s.host.publish m = .ok host) :
      Step (s.publish call again m host)
  | discard (call : Nat) {again : Bool} {token : Nat} {m : Model}
      (at_stage : s.calls call = .publishing again token m) {e : Model.BuildError}
      (refused : s.host.publish m = .error e) :
      Step (s.move call (.afterPass again (.error e)))
  /-- The next listener is told: it will do the next list of its script. -/
  | tell (call : Nat) {again : Bool} {generation next : Nat}
      (at_stage : s.calls call = .announcing again generation [] next) {script : Script}
      (listener : s.host.listeners[next]? = some script) :
      Step ((s.setListeners (s.host.listeners.set next (script.drop 1))).move call
        (.announcing again generation (script.head?.getD []) (next + 1)))
  /-- A listener does the next of its actions. -/
  | react (call : Nat) {again : Bool} {generation next : Nat} {a : Action} {todo : List Action}
      (at_stage : s.calls call = .announcing again generation (a :: todo) next) :
      Step ((s.act a).move call (.announcing again generation todo next))
  | told (call : Nat) {again : Bool} {generation next : Nat}
      (at_stage : s.calls call = .announcing again generation [] next)
      (last : s.host.listeners.length ≤ next) :
      Step (s.move call (.afterPass again (.ok (.published generation))))
  /-- Something arrived during the first pass: there is a second one. -/
  | followUp (call : Nat) {outcome : Answer} (at_stage : s.calls call = .rechecking outcome)
      (pending : s.host.pending = true) : Step (s.move call (.starting true))
  | settle (call : Nat) {outcome : Answer} (at_stage : s.calls call = .rechecking outcome)
      (quiet : s.host.pending = false) : Step (s.move call (.unlocking outcome))
  | unlock (call : Nat) {outcome : Answer} (at_stage : s.calls call = .unlocking outcome) :
      Step (s.unlock call outcome)
  /-- Something arrived since the last pass, and the lock is still free. -/
  | retake (call : Nat) {outcome : Answer} (at_stage : s.calls call = .draining outcome)
      (pending : s.host.pending = true) (free : s.host.building = false) :
      Step (s.take call s.asked)
  /-- Something arrived since the last pass, and another call holds the lock. -/
  | yield (call : Nat) {outcome : Answer} (at_stage : s.calls call = .draining outcome)
      (pending : s.host.pending = true) (held : s.host.building = true) :
      Step (s.leave call (.ok .coalesced))
  | finish (call : Nat) {outcome : Answer} (at_stage : s.calls call = .draining outcome)
      (quiet : s.host.pending = false) : Step (s.leave call (absorb outcome))

end Steps

/-- Systems that come about from a new host. -/
def Reachable (config : Config) : System → Prop :=
  Relation.ReflTransGen Step (.new config)

/-! ## The lock -/

/-- The lock is held if a call is at a stage that holds it, and there is at most one such call. -/
structure Exclusive (building : Bool) (calls : Nat → Stage) : Prop where
  lock : building = true ↔ ∃ c, (calls c).holds = true
  sole : ∀ {c d}, (calls c).holds = true → (calls d).holds = true → c = d

namespace Exclusive

variable {building : Bool} {calls : Nat → Stage} {call : Nat} {stage : Stage}

theorem others_of_holds (h : Exclusive building calls) (hc : (calls call).holds = true) (c : Nat)
    (hne : c ≠ call) : (calls c).holds = false := by
  by_contra hholds
  exact hne (h.sole (Bool.not_eq_false _ ▸ hholds) hc)

/-- What holds of every stage without the lock holds of all calls if it holds of the one with it. -/
theorem forall_update (h : Exclusive building calls) (hc : (calls call).holds = true)
    {p : Stage → Prop} (hp : ∀ {t : Stage}, t.holds = false → p t) (hstage : p stage) (c : Nat) :
    p (Function.update calls call stage c) :=
  (Function.forall_update_iff calls fun _ t => p t).2
    ⟨hstage, fun c hne => hp (h.others_of_holds hc c hne)⟩ c

theorem others_of_free (h : Exclusive building calls) (hfree : building = false) (c : Nat) :
    (calls c).holds = false := by
  by_contra hholds
  have hheld := h.lock.2 ⟨c, Bool.not_eq_false _ ▸ hholds⟩
  rw [hfree] at hheld
  cases hheld

theorem hold (hothers : ∀ c, c ≠ call → (calls c).holds = false) (hstage : stage.holds = true) :
    Exclusive true (Function.update calls call stage) := by
  have honly : ∀ c, (Function.update calls call stage c).holds = true → c = call := by
    intro c hc
    by_contra hne
    rw [Function.update_of_ne hne, hothers c hne] at hc
    cases hc
  refine ⟨⟨fun _ => ⟨call, by rwa [Function.update_self]⟩, fun _ => rfl⟩, fun {c d} hc hd => ?_⟩
  rw [honly c hc, honly d hd]

theorem release (hothers : ∀ c, c ≠ call → (calls c).holds = false)
    (hstage : stage.holds = false) : Exclusive false (Function.update calls call stage) := by
  have hnone : ∀ c, (Function.update calls call stage c).holds = false :=
    (Function.forall_update_iff calls fun _ t => t.holds = false).2 ⟨hstage, hothers⟩
  constructor
  · simp [hnone]
  · intro c d hc
    rw [hnone c] at hc
    cases hc

/-- A call that does not hold the lock may go on without it. -/
theorem without (h : Exclusive building calls) (hc : (calls call).holds = false)
    (hstage : stage.holds = false) : Exclusive building (Function.update calls call stage) := by
  have hsame : ∀ c, (Function.update calls call stage c).holds = (calls c).holds :=
    (Function.forall_update_iff calls fun c t => t.holds = (calls c).holds).2
      ⟨hstage.trans hc.symm, fun _ _ => rfl⟩
  constructor
  · simp only [hsame]
    exact h.lock
  · intro c d
    rw [hsame, hsame]
    exact h.sole

end Exclusive

/-! ## The invariant -/

theorem publish_eq_ok {h h' : Host} {m : Model} (hp : h.publish m = .ok h') :
    h.cancelled = false ∧ h.revision = m.revision ∧
      h' = { h with generation := m.generation, model := m } := by
  unfold Host.publish at hp
  split at hp
  · cases hp
  · cases hp
    simp_all

/-- The cancelled flag is about the token in place, and with it goes the pending flag. -/
structure Tokens (cancelled pending : Bool) (token : Nat) (fired : List Nat) : Prop where
  numbered : ∀ t ∈ fired, t ≤ token
  fires : cancelled = true ↔ token ∈ fired
  follows : cancelled = true → pending = true

/-- The model that is shown is the last of the published ones and not ahead of the sources. -/
structure Publications (model : Model) (generation revision : Nat) (published : List Nat) : Prop where
  shown : model.generation = generation
  behind : model.revision ≤ revision
  first : generation = 0 → published = []
  latest : ∀ r ∈ published, r ≤ model.revision
  increasing : published.Pairwise (· > ·)

/-- What a stage remembers fits the host: its token is the one in place, and unless that is cancelled
the pass is about the current revision. -/
def Fits (host : Host) (inPlace : Nat) : Stage → Prop
  | .reading _ token => token = inPlace
  | .building _ token snapshot => token = inPlace ∧ host.model.revision ≤ snapshot.revision ∧
      (host.cancelled = false → snapshot.revision = host.revision)
  | .publishing _ token m => token = inPlace ∧ 0 < m.generation ∧
      (0 < host.generation → host.model.revision < m.revision) ∧
      (host.cancelled = false → m.revision = host.revision)
  | _ => True

theorem fits_of_not_holds {host : Host} {token : Nat} {stage : Stage} (h : stage.holds = false) :
    Fits host token stage := by
  cases stage <;> trivial

/-- A stage goes on fitting until the revision moves, and then the token is cancelled. -/
theorem Fits.of_host {host host' : Host} {token : Nat} {stage : Stage} (h : Fits host token stage)
    (hmodel : host'.model = host.model) (hgeneration : host'.generation = host.generation)
    (hrevision : host'.cancelled = false →
      host.cancelled = false ∧ host'.revision = host.revision) : Fits host' token stage := by
  cases stage with
  | building again t snapshot =>
    obtain ⟨ht, hle, hsame⟩ := h
    refine ⟨ht, hmodel ▸ hle, fun hc => ?_⟩
    obtain ⟨hc', hr⟩ := hrevision hc
    rw [hr, hsame hc']
  | publishing again t m =>
    obtain ⟨ht, hm, hlt, hsame⟩ := h
    refine ⟨ht, hm, hmodel ▸ hgeneration ▸ hlt, fun hc => ?_⟩
    obtain ⟨hc', hr⟩ := hrevision hc
    rw [hr, hsame hc']
  | reading again t => exact h
  | _ => trivial

/-- The invariant of the protocol. -/
structure Inv (s : System) : Prop where
  locked : Exclusive s.host.building s.calls
  tokens : Tokens s.host.cancelled s.host.pending s.token s.fired
  publications : Publications s.host.model s.host.generation s.host.revision s.published
  fits : ∀ c, Fits s.host s.token (s.calls c)
  answered : ∀ a ∈ s.answers, ∃ outcome, a = .ok outcome
  /-- Someone is there for what is pending. -/
  attended : s.asked = true → s.host.pending = true → ∃ c, s.calls c ≠ .idle
  /-- If nothing is pending, the model is up to date or is about to be. -/
  current : s.host.pending = false →
    s.host.model.revision = s.host.revision ∨ ∃ c, (s.calls c).inPass = true

theorem Inv.new (config : Config) : Inv (.new config) where
  locked := ⟨by simp [System.new, Host.new, Stage.holds], fun h => by cases h⟩
  tokens := ⟨nofun, by simp [System.new, Host.new], nofun⟩
  publications := ⟨rfl, Nat.le_refl 0, fun _ => rfl, nofun, .nil⟩
  fits _ := trivial
  answered := nofun
  attended := nofun
  current _ := .inl rfl

section Preservation

variable {s : System} {call : Nat} (hi : Inv s)

include hi

/-! ## Actions -/

/-- A change of the sources that no revision records, or a change of the listeners. -/
theorem Inv.quiet (sources : Sources) (listeners : List Script) (edits : List (Sources × Edit)) :
    Inv { s with host := { s.host with sources, listeners }, edits } where
  locked := hi.locked
  tokens := hi.tokens
  publications := hi.publications
  fits c := (hi.fits c).of_host rfl rfl fun h => ⟨h, rfl⟩
  answered := hi.answered
  attended := hi.attended
  current := hi.current

theorem Inv.edited (sources : Sources) (edits : List (Sources × Edit)) :
    Inv { s with
      host := { s.host with sources }.noteChange, edits, asked := false
      fired := s.token :: s.fired } where
  locked := hi.locked
  tokens := by
    refine ⟨fun t ht => ?_, ⟨fun _ => List.mem_cons_self, fun _ => rfl⟩, fun _ => rfl⟩
    rcases List.mem_cons.1 ht with rfl | ht
    · exact Nat.le_refl _
    · exact hi.tokens.numbered t ht
  publications := { hi.publications with behind := Nat.le_succ_of_le hi.publications.behind }
  fits c := (hi.fits c).of_host rfl rfl nofun
  answered := hi.answered
  attended := nofun
  current := nofun

theorem Inv.coalesced (hheld : s.host.building = true) :
    Inv { s with
      host := s.host.requestPass, asked := true, answers := .ok .coalesced :: s.answers } where
  locked := hi.locked
  tokens := { hi.tokens with follows := fun _ => rfl }
  publications := hi.publications
  fits c := (hi.fits c).of_host rfl rfl fun h => ⟨h, rfl⟩
  answered a ha := by
    rcases List.mem_cons.1 ha with rfl | ha
    · exact ⟨_, rfl⟩
    · exact hi.answered a ha
  attended _ _ := by
    obtain ⟨c, hc⟩ := hi.locked.lock.1 hheld
    exact ⟨c, Stage.ne_idle_of_holds hc⟩
  current := nofun

omit hi in
/-- What an action does: nothing that a revision records, an edit that counts, or a request. -/
theorem act_cases (s : System) (a : Action) :
    (∃ sources edits, s.act a = { s with host := { s.host with sources }, edits }) ∨
      (∃ sources edits, s.act a = { s with
        host := { s.host with sources }.noteChange, edits, asked := false
        fired := s.token :: s.fired }) ∨
      a = .rebuild ∧ s.act a = { s with
        host := s.host.requestPass, asked := true, answers := .ok .coalesced :: s.answers } := by
  cases a with
  | edit e =>
    by_cases h : (s.host.edit e).1 = 0
    · refine .inl ⟨(e.apply s.host.sources).2, (s.host.sources, e) :: s.edits, ?_⟩
      have h' : (e.apply s.host.sources).1 = 0 := h
      simp [System.act, Host.act, Host.edit, h']
    · refine .inr (.inl ⟨(e.apply s.host.sources).2, (s.host.sources, e) :: s.edits, ?_⟩)
      have h' : ¬(e.apply s.host.sources).1 = 0 := h
      simp [System.act, Host.act, Host.edit, h']
  | registerModule name custom => exact .inl ⟨_, _, rfl⟩
  | fileId path => exact .inl ⟨_, _, rfl⟩
  | rebuild => exact .inr (.inr ⟨rfl, rfl⟩)
  | observe => exact .inl ⟨s.host.sources, s.edits, rfl⟩

theorem Inv.act (a : Action) (hheld : a = .rebuild → s.host.building = true) : Inv (s.act a) := by
  obtain ⟨sources, edits, h⟩ | ⟨sources, edits, h⟩ | ⟨ha, h⟩ := act_cases s a <;> rw [h]
  · exact hi.quiet sources s.host.listeners edits
  · exact hi.edited sources edits
  · exact hi.coalesced (hheld ha)

/-! ## Calls -/

theorem Inv.held (hc : (s.calls call).holds = true) : s.host.building = true :=
  hi.locked.lock.2 ⟨call, hc⟩

theorem Inv.locked_update {stage : Stage} (hc : (s.calls call).holds = true)
    (hstage : stage.holds = true) :
    Exclusive s.host.building (Function.update s.calls call stage) := by
  rw [hi.held hc]
  exact .hold (hi.locked.others_of_holds hc) hstage

omit hi in
theorem exists_update {calls : Nat → Stage} {stage : Stage} {p : Stage → Prop} (h : p stage) :
    ∃ c, p (Function.update calls call stage c) :=
  ⟨call, by rwa [Function.update_self]⟩

/-- The call that holds the lock goes on under it. It may leave a pass if something is pending or the
model is up to date. -/
theorem Inv.move {stage : Stage} (hc : (s.calls call).holds = true) (hstage : stage.holds = true)
    (hfits : Fits s.host s.token stage)
    (hpass : (s.calls call).inPass = true → stage.inPass = false → s.host.pending = false →
      s.host.model.revision = s.host.revision) : Inv (s.move call stage) where
  locked := hi.locked_update hc hstage
  tokens := hi.tokens
  publications := hi.publications
  fits := hi.locked.forall_update hc fits_of_not_holds hfits
  answered := hi.answered
  attended _ _ := exists_update (p := (· ≠ .idle)) (Stage.ne_idle_of_holds hstage)
  current hpending := by
    rcases hi.current hpending with h | ⟨c, h⟩
    · exact .inl h
    · -- the call inside the pass is the one that moves
      have hcall : c = call := hi.locked.sole (Stage.holds_of_inPass h) hc
      subst hcall
      cases hin : stage.inPass with
      | true => exact .inr (exists_update (p := fun t => t.inPass = true) hin)
      | false => exact .inl (hpass h hin hpending)

/-- A call gets the free lock. -/
theorem Inv.take (hfree : s.host.building = false) (asked : Bool) :
    Inv (s.take call asked) where
  locked := .hold (fun c _ => hi.locked.others_of_free hfree c) rfl
  tokens := hi.tokens
  publications := hi.publications
  fits := (Function.forall_update_iff s.calls fun _ t => Fits _ _ t).2
    ⟨trivial, fun c _ => fits_of_not_holds (hi.locked.others_of_free hfree c)⟩
  answered := hi.answered
  attended _ _ := exists_update (p := (· ≠ .idle)) nofun
  current _ := .inr (exists_update (p := fun t => t.inPass = true) rfl)

theorem Inv.begin {again : Bool} (hc : s.calls call = .starting again) :
    Inv (s.begin call again) where
  locked := hi.locked_update (by rw [hc]; rfl) rfl
  tokens := by
    refine ⟨fun t ht => Nat.le_succ_of_le (hi.tokens.numbered t ht), ⟨nofun, fun h => ?_⟩, nofun⟩
    -- no token above the one in place was ever cancelled
    exact absurd (hi.tokens.numbered _ h) (Nat.not_succ_le_self s.token)
  publications := hi.publications
  fits := hi.locked.forall_update (by rw [hc]; rfl) fits_of_not_holds rfl
  answered := hi.answered
  attended := nofun
  current _ := .inr (exists_update (p := fun t => t.inPass = true) rfl)

theorem Inv.publish {again : Bool} {token : Nat} {m : Model} {host : Host}
    (hc : s.calls call = .publishing again token m) (hp : s.host.publish m = .ok host) :
    Inv (s.publish call again m host) := by
  obtain ⟨-, hrevision, rfl⟩ := publish_eq_ok hp
  obtain ⟨-, hpos, hlt, -⟩ : Fits s.host s.token (.publishing again token m) := hc ▸ hi.fits call
  have hearlier : ∀ r ∈ s.published, r < m.revision := by
    intro r hr
    have hsome : 0 < s.host.generation := by
      refine Nat.pos_of_ne_zero fun h => ?_
      rw [hi.publications.first h] at hr
      cases hr
    exact Nat.lt_of_le_of_lt (hi.publications.latest r hr) (hlt hsome)
  exact {
    locked := hi.locked_update (by rw [hc]; rfl) rfl
    tokens := hi.tokens
    publications := by
      refine ⟨rfl, Nat.le_of_eq hrevision.symm, fun h => absurd h (Nat.ne_of_gt hpos),
        fun r hr => ?_, List.pairwise_cons.2 ⟨hearlier, hi.publications.increasing⟩⟩
      rcases List.mem_cons.1 hr with rfl | hr
      · exact Nat.le_refl _
      · exact Nat.le_of_lt (hearlier r hr)
    fits := hi.locked.forall_update (by rw [hc]; rfl) fits_of_not_holds trivial
    answered := hi.answered
    attended := fun _ _ => exists_update (p := (· ≠ .idle)) nofun
    current := fun _ => .inl hrevision.symm }

theorem Inv.unlock {outcome : Answer} (hc : s.calls call = .unlocking outcome) :
    Inv (s.unlock call outcome) where
  locked := .release (hi.locked.others_of_holds (by rw [hc]; rfl)) rfl
  tokens := hi.tokens
  publications := hi.publications
  fits := hi.locked.forall_update (by rw [hc]; rfl) fits_of_not_holds trivial
  answered := hi.answered
  attended _ _ := exists_update (p := (· ≠ .idle)) nofun
  current hpending := by
    refine (hi.current hpending).imp_right fun ⟨c, h⟩ => ?_
    have hcall : c = call := hi.locked.sole (Stage.holds_of_inPass h) (by rw [hc]; rfl)
    rw [hcall, hc] at h
    cases h

/-- A call returns if nothing is pending or another call holds the lock. -/
theorem Inv.leave {outcome o : Answer} (hc : s.calls call = .draining outcome)
    (hanswer : ∃ o', o = .ok o')
    (hpending : s.host.pending = true → s.host.building = true) : Inv (s.leave call o) where
  locked := hi.locked.without (by rw [hc]; rfl) rfl
  tokens := hi.tokens
  publications := hi.publications
  fits := (Function.forall_update_iff s.calls fun _ t => Fits s.host s.token t).2
    ⟨trivial, fun c _ => hi.fits c⟩
  answered a ha := by
    rcases List.mem_cons.1 ha with rfl | ha
    · exact hanswer
    · exact hi.answered a ha
  attended _ hp := by
    -- the holder of the lock attends to what is pending, and it is another call
    obtain ⟨c, h⟩ := hi.locked.lock.1 (hpending hp)
    refine (Function.exists_update_iff s.calls fun _ t => t ≠ .idle).2
      (.inr ⟨c, ?_, Stage.ne_idle_of_holds h⟩)
    rintro rfl
    rw [hc] at h
    cases h
  current hp := by
    refine (hi.current hp).imp_right fun ⟨c, h⟩ => ?_
    refine (Function.exists_update_iff s.calls fun _ t => t.inPass = true).2 (.inr ⟨c, ?_, h⟩)
    rintro rfl
    rw [hc] at h
    cases h

/-! ## Steps keep the invariant -/

theorem Inv.not_cancelled (hpending : s.host.pending = false) :
    s.host.cancelled = false := by
  cases h : s.host.cancelled with
  | false => rfl
  | true => exact absurd (hi.tokens.follows h) (by simp [hpending])

theorem Inv.step {s' : System} (h : Step s s') : Inv s' := by
  cases h with
  | act a held => exact hi.act a held
  | subscribe script => exact hi.quiet s.host.sources (s.host.listeners ++ [script]) s.edits
  | request call _ free => exact hi.take free true
  | begin call hc => exact hi.begin hc
  | @read call again token hc =>
    have hfits : Fits s.host s.token (.reading again token) := hc ▸ hi.fits call
    exact hi.move (by rw [hc]; rfl) rfl ⟨hfits, hi.publications.behind, fun _ => rfl⟩ nofun
  | @skip call again token snapshot hc covered =>
    obtain ⟨-, -, hsame⟩ : Fits s.host s.token (.building again token snapshot) := hc ▸ hi.fits call
    refine hi.move (by rw [hc]; rfl) (by simp) (by cases again <;> trivial) fun _ _ hpending => ?_
    have hrevision : s.host.model.revision = snapshot.revision := by
      simp only [Host.covers, Bool.and_eq_true, beq_iff_eq] at covered
      exact covered.1
    rw [hrevision, hsame (hi.not_cancelled hpending)]
  | @build call again token snapshot hc behind _ m built =>
    obtain ⟨ht, hle, hsame⟩ : Fits s.host s.token (.building again token snapshot) :=
      hc ▸ hi.fits call
    cases Model.eq_build_of_buildUnless built
    refine hi.move (by rw [hc]; rfl) rfl ⟨ht, Nat.succ_pos _, fun hpos => ?_, hsame⟩ nofun
    -- a published model of the snapshot's revision would have covered it
    have hne : s.host.model.revision ≠ snapshot.revision := by
      intro heq
      simp [Host.covers, heq, hi.publications.shown, hpos] at behind
    exact Nat.lt_of_le_of_ne hle hne
  | @giveUp call again token snapshot hc _ cancelled _ e _ =>
    obtain ⟨rfl, -, -⟩ : Fits s.host s.token (.building again token snapshot) := hc ▸ hi.fits call
    refine hi.move (by rw [hc]; rfl) (by simp) (by cases again <;> trivial) fun _ _ hpending => ?_
    -- whatever cancelled the token left something pending
    have := hi.tokens.fires.2 cancelled
    rw [hi.not_cancelled hpending] at this
    cases this
  | publish call hc swapped => exact hi.publish hc swapped
  | @discard call again token m hc e refused =>
    obtain ⟨-, -, -, hsame⟩ : Fits s.host s.token (.publishing again token m) := hc ▸ hi.fits call
    refine hi.move (by rw [hc]; rfl) (by simp) (by cases again <;> trivial) fun _ _ hpending => ?_
    -- with nothing pending the model is of the current revision and would not be refused
    have hc' := hi.not_cancelled hpending
    simp [Host.publish, hc', hsame hc'] at refused
  | @tell call again generation next hc script listener =>
    exact (hi.quiet s.host.sources (s.host.listeners.set next (script.drop 1)) s.edits).move
      (by rw [show s.calls call = _ from hc]; rfl) rfl trivial (by rw [hc]; nofun)
  | @react call again generation next a todo hc =>
    have hcalls := System.act_calls s a
    exact (hi.act a fun _ => hi.held (by rw [hc]; rfl)).move (by rw [hcalls, hc]; rfl) rfl trivial
      (by rw [hcalls, hc]; nofun)
  | @told call again generation next hc last =>
    exact hi.move (by rw [hc]; rfl) (by simp) (by cases again <;> trivial) (by rw [hc]; nofun)
  | followUp call hc pending => exact hi.move (by rw [hc]; rfl) rfl trivial (by rw [hc]; nofun)
  | settle call hc quiet => exact hi.move (by rw [hc]; rfl) rfl trivial (by rw [hc]; nofun)
  | unlock call hc => exact hi.unlock hc
  | retake call _ _ free => exact hi.take free s.asked
  | yield call hc pending held => exact hi.leave hc ⟨_, rfl⟩ fun _ => held
  | @finish call outcome hc quiet =>
    refine hi.leave hc ?_ fun h => absurd h (by simp [quiet])
    cases outcome with
    | ok o => exact ⟨o, rfl⟩
    | error e => exact ⟨.coalesced, rfl⟩

end Preservation

theorem Inv.steps {s s' : System} (hi : Inv s) (h : Relation.ReflTransGen Step s s') : Inv s' := by
  induction h with
  | refl => exact hi
  | tail _ hstep ih => exact ih.step hstep

theorem Reachable.inv {config : Config} {s : System} (h : Reachable config s) : Inv s :=
  (Inv.new config).steps h

/-! ## No stale publication, no lost update -/

/-- Outside passes, the model is up to date unless something is pending. -/
theorem Inv.current_of_idle {s : System} (hi : Inv s) (hidle : ∀ c, (s.calls c).holds = false)
    (hquiet : s.host.pending = false) : s.host.model.revision = s.host.revision := by
  refine (hi.current hquiet).resolve_right ?_
  rintro ⟨c, hc⟩
  have hholds := Stage.holds_of_inPass hc
  rw [hidle c] at hholds
  cases hholds

/-- A step other than a publication leaves the published model alone. -/
theorem Step.model_eq_or_publishes {s s' : System} (h : Step s s') :
    (s'.host.model = s.host.model ∧ s'.published = s.published) ∨
      ∃ call again token m, s.calls call = .publishing again token m ∧
        (∃ host, s.host.publish m = .ok host) ∧ s'.host.model = m ∧
        s'.published = m.revision :: s.published := by
  cases h with
  | act a => exact .inl ⟨System.act_model s a, System.act_published s a⟩
  | @react _ _ _ _ a => exact .inl ⟨System.act_model s a, System.act_published s a⟩
  | publish call hc swapped =>
    obtain ⟨-, -, rfl⟩ := publish_eq_ok swapped
    exact .inr ⟨call, _, _, _, hc, ⟨_, swapped⟩, rfl, rfl⟩
  | _ => exact .inl ⟨rfl, rfl⟩

/-- The rebuild protocol publishes nothing stale and loses no update, in whatever order its callers
go: a model is published at its own revision by a pass that is not cancelled, and revisions strictly
increase; when no call is in flight and a rebuild was asked for since the last edit that changed
something, nothing is pending and the published model is up to date; and no call returns an error. -/
theorem Reachable.no_stale_no_lost {config : Config} {s : System} (h : Reachable config s) :
    (∀ s', Step s s' → (s'.host.model = s.host.model ∧ s'.published = s.published) ∨
      ∃ call again token m, s.calls call = .publishing again token m ∧ s'.host.model = m ∧
        s'.published = m.revision :: s.published ∧ m.revision = s.host.revision ∧
        token ∉ s.fired) ∧
    s.published.Pairwise (· > ·) ∧
    ((∀ call, s.calls call = .idle) → s.asked = true →
      s.host.pending = false ∧ s.host.model.revision = s.host.revision) ∧
    ∀ a ∈ s.answers, ∃ outcome, a = .ok outcome := by
  have hi := h.inv
  refine ⟨fun s' hstep => ?_, hi.publications.increasing, fun hidle hasked => ?_, hi.answered⟩
  · refine hstep.model_eq_or_publishes.imp_right ?_
    rintro ⟨call, again, token, m, hc, ⟨host, hp⟩, hmodel, hpublished⟩
    obtain ⟨hcancelled, hrevision, -⟩ := publish_eq_ok hp
    obtain ⟨rfl, -⟩ : Fits s.host s.token (.publishing again token m) := hc ▸ hi.fits call
    refine ⟨call, again, _, m, hc, hmodel, hpublished, hrevision.symm, fun hfired => ?_⟩
    rw [hi.tokens.fires.2 hfired] at hcancelled
    cases hcancelled
  · have hquiet : s.host.pending = false := by
      by_contra hp
      obtain ⟨c, hc⟩ := hi.attended hasked (Bool.not_eq_false _ ▸ hp)
      exact hc (hidle c)
    exact ⟨hquiet, hi.current_of_idle (fun c => by rw [hidle c]; rfl) hquiet⟩

/-- An edit comes in while call 0 builds, and call 1 asks for a rebuild: it is told that call 0 covers
it, and so it does, after it discarded its first model. -/
theorem Reachable.no_stale_no_lost_superseded :
    ∃ s, Reachable {} s ∧ (∀ call, s.calls call = .idle) ∧ s.asked = true ∧
      s.host.pending = false ∧ s.host.model.revision = s.host.revision ∧ s.host.revision = 2 ∧
      s.published = [2] ∧ s.answers = [.ok (.published 1), .ok .coalesced] := by
  have h₀ : Reachable {} _ := .refl
  have h₁ := h₀.tail (.act (.edit (.setFile { path := "a" })) nofun)
  have h₂ := h₁.tail (.request 0 rfl rfl)
  have h₃ := h₂.tail (.begin 0 rfl)
  have h₄ := h₃.tail (.read 0 rfl)
  have h₅ := h₄.tail (@Step.build _ 0 _ _ _ rfl rfl .never _ rfl)
  have h₆ := h₅.tail (.act (.edit (.setFile { path := "b" })) nofun)
  have h₇ := h₆.tail (.act .rebuild fun _ => rfl)
  have h₈ := h₇.tail (.discard 0 rfl rfl)
  have h₉ := h₈.tail (.followUp 0 rfl rfl)
  have h₁₀ := h₉.tail (.begin 0 rfl)
  have h₁₁ := h₁₀.tail (.read 0 rfl)
  have h₁₂ := h₁₁.tail (@Step.build _ 0 _ _ _ rfl rfl .never _ rfl)
  have h₁₃ := h₁₂.tail (.publish 0 rfl rfl)
  have h₁₄ := h₁₃.tail (.told 0 rfl (Nat.le_refl 0))
  have h₁₅ := h₁₄.tail (.unlock 0 rfl)
  have h₁₆ := h₁₅.tail (.finish 0 rfl rfl)
  obtain ⟨-, -, hsettled, -⟩ := Reachable.no_stale_no_lost h₁₆
  obtain ⟨hpending, hrevision⟩ := hsettled (fun call => by cases call <;> rfl) rfl
  exact ⟨_, h₁₆, fun call => by cases call <;> rfl, rfl, hpending, hrevision, rfl, rfl, rfl⟩

end TypeAtlas.Protocol
