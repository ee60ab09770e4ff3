/-
Rebuilds of one thread. While a model is announced the lock is held, so an edit that reports a
change and a request for a rebuild only leave something pending, and the next pass answers all of
it. Main statement: what is done while one generation is announced costs one more generation if some
edit reports a change, and none otherwise.

Without arrivals a pass finds the published model up to date, or it publishes and tells everyone
(`upToDate_or_publishes`). A pass over a fresh publication is of the first kind exactly if no edit
changed anything meanwhile.
-/
import TypeAtlas.Proofs.Chronicle

namespace TypeAtlas.Host

/-! ## Pending -/

/-- A request for a rebuild. -/
def Deed.isRequest : Deed → Bool
  | .replied (.outcome _) => true
  | _ => false

/-- An edit that reports a change, or a request: it leaves something pending. -/
def Deed.stirs (d : Deed) : Bool := d.isChange || d.isRequest

/-- Whether something in a log leaves something pending. -/
def stirred (log : List Entry) : Bool := log.any fun e => e.deed.stirs

theorem stirred_append (log log' : List Entry) :
    stirred (log ++ log') = (stirred log || stirred log') := List.any_append

theorem changes_eq_zero {log : List Entry} (h : stirred log = false) : changes log = 0 := by
  refine List.countP_eq_zero.2 fun e he hchange => ?_
  have hquiet := List.any_eq_false.1 h e he
  simp [Deed.stirs, hchange] at hquiet

theorem pending_act (h : Host) (a : Action) :
    (h.act a).host.pending = (h.pending || (h.act a).entry.deed.stirs) := by
  cases a with
  | edit e =>
    simp only [act, edit, Moment.entry, Deed.stirs, Deed.isChange, Deed.isRequest]
    split
    · rename_i hchanged
      simp [hchanged]
    · rename_i hchanged
      simp [bne_iff_ne.2 hchanged, noteChange]
  | rebuild => simp [act, requestPass, Moment.entry, Deed.stirs, Deed.isRequest]
  | _ => exact (Bool.or_false _).symm

theorem pending_actAll (as : List Action) (h : Host) :
    (h.actAll as).2.pending = (h.pending || stirred ((h.actAll as).1.map Moment.entry)) := by
  induction as generalizing h with
  | nil => exact (Bool.or_false _).symm
  | cons a as ih =>
    show ((h.act a).host.actAll as).2.pending = _
    rw [ih, pending_act, Bool.or_assoc]
    rfl

theorem pending_announceTo (m : Model) (h : Host) (listener : Nat) :
    (h.announceTo m listener).2.pending =
      (h.pending || stirred ((h.announceTo m listener).1.log h)) := pending_actAll _ _

theorem pending_announceEach (m : Model) (listeners : List Nat) (h : Host) :
    (h.announceEach m listeners).2.pending =
      (h.pending || stirred (h.announceLog m listeners)) := by
  induction listeners generalizing h with
  | nil => exact (Bool.or_false _).symm
  | cons listener more ih =>
    show ((h.announceTo m listener).2.announceEach m more).2.pending = _
    rw [ih, pending_announceTo, Bool.or_assoc, announceLog, stirred_append]

/-! ## Deeds inside a rebuild -/

theorem publications_append (log log' : List Entry) :
    publications (log ++ log') = publications log ++ publications log' := List.filterMap_append

/-- A publication in a log comes after the part of it in which nothing is published. -/
theorem exists_append_of_published {log rest before after : List Entry} {m : Model} {host : Host}
    (hlog : publications log = []) (h : log ++ rest = before ++ ⟨.published m, host⟩ :: after) :
    ∃ between, rest = between ++ ⟨.published m, host⟩ :: after := by
  rcases List.append_eq_append_iff.1 h with ⟨between, -, hrest⟩ | ⟨between, hsplit, hrest⟩
  · exact ⟨between, hrest⟩
  · cases between with
    | nil => exact ⟨[], hrest.symm⟩
    | cons e between =>
      obtain ⟨rfl, -⟩ := List.cons.inj hrest
      rw [hsplit, publications_append] at hlog
      exact absurd (List.append_eq_nil_iff.1 hlog).2 (List.cons_ne_nil _ _)

theorem publications_moments (moments : List Moment) :
    publications (moments.map Moment.entry) = [] := by
  refine List.filterMap_eq_nil_iff.2 fun e he => ?_
  obtain ⟨moment, -, rfl⟩ := List.mem_map.1 he
  rfl

/-- Nothing is published while a model is announced. -/
theorem publications_announceLog (m : Model) (listeners : List Nat) (h : Host) :
    publications (h.announceLog m listeners) = [] := by
  induction listeners generalizing h with
  | nil => rfl
  | cons listener more ih =>
    rw [announceLog, publications_append, ih, List.append_nil]
    exact publications_moments _

/-- The lock is held, and a request is answered accordingly. -/
def Entry.IsNested (e : Entry) : Prop :=
  e.host.building = true ∧ ∀ o, e.deed = .replied (.outcome o) → o = .coalesced

theorem isNested_act {h : Host} (hheld : h.building = true) (a : Action) :
    (h.act a).entry.IsNested := by
  refine ⟨(act_building h a).trans hheld, ?_⟩
  intro o ho
  cases a with
  | rebuild =>
    cases ho
    rfl
  | _ => cases ho

theorem isNested_actAll (as : List Action) {h : Host} (hheld : h.building = true) :
    (∀ e ∈ (h.actAll as).1.map Moment.entry, e.IsNested) ∧ (h.actAll as).2.building = true := by
  induction as generalizing h with
  | nil => exact ⟨List.forall_mem_nil _, hheld⟩
  | cons a as ih =>
    have hnested := isNested_act hheld a
    obtain ⟨hrest, hbuilding⟩ := ih hnested.1
    exact ⟨List.forall_mem_cons.2 ⟨hnested, hrest⟩, hbuilding⟩

theorem isNested_announceTo (m : Model) {h : Host} (hheld : h.building = true) (listener : Nat) :
    (∀ e ∈ (h.announceTo m listener).1.log h, e.IsNested) ∧
      (h.announceTo m listener).2.building = true := by
  obtain ⟨hnested, hbuilding⟩ := isNested_actAll (((h.listeners[listener]?).getD []).head?.getD [])
    (h := { h with
      listeners := h.listeners.set listener (((h.listeners[listener]?).getD []).drop 1) }) hheld
  exact ⟨List.forall_mem_cons.2 ⟨⟨hheld, nofun⟩, hnested⟩, hbuilding⟩

theorem isNested_announceEach (m : Model) (listeners : List Nat) {h : Host}
    (hheld : h.building = true) : (∀ e ∈ h.announceLog m listeners, e.IsNested) ∧
      (h.announceEach m listeners).2.building = true := by
  induction listeners generalizing h with
  | nil => exact ⟨List.forall_mem_nil _, hheld⟩
  | cons listener more ih =>
    obtain ⟨hone, hbuilding⟩ := isNested_announceTo m hheld listener
    obtain ⟨hmore, hbuilding'⟩ := ih hbuilding
    exact ⟨List.forall_mem_append.2 ⟨hone, hmore⟩, hbuilding'⟩

namespace Run

variable {r : Run}

theorem isNested_arrive (hheld : r.host.building = true) :
    (∀ e ∈ r.arriveLog, e.IsNested) ∧ r.arrive.host.building = true := by
  unfold arriveLog arrive
  cases r.arrivals with
  | nil => exact ⟨List.forall_mem_nil _, hheld⟩
  | cons actions arrivals => exact isNested_actAll actions hheld

theorem isNested_finish (m : Model) (hheld : r.host.building = true) :
    (∀ e ∈ r.finishLog m, e.IsNested) ∧ (r.finish m).host.building = true := by
  unfold finishLog finish
  cases hp : r.host.publish m with
  | error e => exact ⟨List.forall_mem_nil _, hheld⟩
  | ok host =>
    obtain ⟨-, -, rfl⟩ := Protocol.publish_eq_ok hp
    obtain ⟨hnested, hbuilding⟩ := isNested_announceEach m (List.range r.host.listeners.length)
      (h := { r.host with generation := m.generation, model := m }) hheld
    exact ⟨List.forall_mem_cons.2 ⟨⟨hheld, nofun⟩, hnested⟩, hbuilding⟩

theorem isNested_pass (hheld : r.host.building = true) :
    (∀ e ∈ r.passLog, e.IsNested) ∧ r.pass.host.building = true := by
  cases hcovers : r.host.beginPass.covers r.host.beginPass.snapshot with
  | true =>
    rw [pass_of_covers hcovers, passLog_of_covers hcovers]
    exact ⟨List.forall_mem_nil _, hheld⟩
  | false =>
    rw [pass_of_not_covers hcovers, passLog_of_not_covers hcovers]
    obtain ⟨harrive, hbuilding⟩ := isNested_arrive (r := { r with host := r.host.beginPass }) hheld
    obtain ⟨hfinish, hbuilding'⟩ :=
      isNested_finish (r.host.beginPass.candidate r.host.beginPass.snapshot) hbuilding
    exact ⟨List.forall_mem_append.2 ⟨harrive, hfinish⟩, hbuilding'⟩

theorem isNested_passesLog (fuel : Nat) (hheld : r.host.building = true) :
    ∀ e ∈ r.passesLog fuel, e.IsNested := by
  induction fuel generalizing r with
  | zero => exact List.forall_mem_nil _
  | succ fuel ih =>
    obtain ⟨hnested, hbuilding⟩ := isNested_pass hheld
    rw [passesLog]
    refine List.forall_mem_append.2 ⟨hnested, ?_⟩
    split
    · exact ih hbuilding
    · exact List.forall_mem_nil _

/-! ## Passes without arrivals -/

/-- The pass finds the published model up to date. -/
structure UpToDate (r : Run) : Prop where
  revision : r.host.model.revision = r.host.revision
  log : r.passLog = []
  host : r.pass.host = r.host.beginPass
  outcome : r.pass.outcome = .ok (.upToDate r.host.model.generation)

/-- The pass publishes a model of the next generation; `told` is what happens while it is
announced. -/
structure Publishes (r : Run) (m : Model) (host : Host) (told : List Entry) : Prop where
  stale : ¬(r.host.model.revision = r.host.revision ∧ 0 < r.host.model.generation)
  generation : m.generation = r.host.generation + 1
  revision : m.revision = r.host.revision
  log : r.passLog = ⟨.published m, host⟩ :: told
  quiet : publications told = []
  outcome : r.pass.outcome = .ok (.published m.generation)
  pending : r.pass.host.pending = stirred told

theorem covers_iff : r.host.beginPass.covers r.host.beginPass.snapshot = true ↔
    r.host.model.revision = r.host.revision ∧ 0 < r.host.model.generation := by
  simp [covers, snapshot, beginPass]

/-- The host right after the publication of a pass that is not superseded. -/
def published (r : Run) : Host :=
  { r.host.beginPass with
    generation := r.host.generation + 1
    model := r.host.beginPass.candidate r.host.beginPass.snapshot }

/-- On one thread nothing comes between the snapshot and the publication, so no pass is
superseded. -/
theorem publish_candidate (r : Run) :
    r.host.beginPass.publish (r.host.beginPass.candidate r.host.beginPass.snapshot) =
      .ok r.published := by
  simp [publish, published, beginPass, candidate, Model.build, snapshot]

theorem upToDate_or_publishes (hr : r.arrivals = []) :
    r.UpToDate ∨ ∃ m host told, r.Publishes m host told := by
  cases hcovers : r.host.beginPass.covers r.host.beginPass.snapshot with
  | true =>
    have hpass := pass_of_covers hcovers
    exact .inl ⟨(covers_iff.1 hcovers).1, passLog_of_covers hcovers, by rw [hpass], by rw [hpass]⟩
  | false =>
    have hpass := pass_of_not_covers hcovers
    have hlog := passLog_of_not_covers hcovers
    simp only [arrive, arriveLog, hr, finish, finishLog, publish_candidate] at hpass hlog
    refine .inr ⟨r.published.model, r.published,
      r.published.announceLog r.published.model (List.range r.published.listeners.length),
      ?_, rfl, rfl, hlog, publications_announceLog _ _ _, ?_, ?_⟩
    · rw [← covers_iff, hcovers]
      nofun
    · rw [hpass]
      rfl
    · rw [hpass]
      exact pending_announceEach _ _ _

theorem arrivals_pass (hr : r.arrivals = []) : r.pass.arrivals = [] := by
  unfold pass finish arrive
  simp only [hr]
  split
  · rfl
  · split <;> rfl

theorem UpToDate.pending (h : r.UpToDate) : r.pass.host.pending = false := by
  rw [h.host]
  rfl

section Publishes

variable {m : Model} {host : Host} {told : List Entry} (h : r.Publishes m host told)

include h

theorem Publishes.changes : changes r.passLog = changes told := by
  rw [h.log]
  exact List.countP_cons_of_neg nofun

theorem Publishes.publications : publications r.passLog = [m] := by
  rw [h.log]
  exact congrArg (m :: ·) h.quiet

theorem Publishes.revision_pass : r.pass.host.revision = m.revision + Host.changes told := by
  rw [h.revision, ← h.changes]
  exact r.path_pass.revision

theorem Publishes.model_pass : r.pass.host.model = m := by
  have hmodel : r.pass.host.model = (Host.publications r.passLog).getLast?.getD r.host.model :=
    r.path_pass.model
  rw [hmodel, h.publications]
  rfl

theorem Publishes.generation_pass : r.pass.host.generation = m.generation := by
  have hgeneration : r.pass.host.generation =
      r.host.generation + (Host.publications r.passLog).length := r.path_pass.generation
  rw [hgeneration, h.publications, h.generation]
  rfl

/-- The pass after a publication finds it up to date unless an edit changed something meanwhile. -/
theorem Publishes.next (hr : r.arrivals = []) : Host.changes told = 0 ∧ r.pass.UpToDate ∨
    Host.changes told ≠ 0 ∧ ∃ m' host' told', r.pass.Publishes m' host' told' := by
  have hrevision := h.revision_pass
  have hgeneration := h.generation
  have hmodel := h.model_pass
  rcases upToDate_or_publishes (arrivals_pass hr) with hnext | ⟨m', host', told', hnext⟩
  · have hsame := hnext.revision
    rw [hmodel] at hsame
    exact .inl ⟨by omega, hnext⟩
  · refine .inr ⟨fun hnone => hnext.stale ?_, m', host', told', hnext⟩
    rw [hmodel]
    omega

end Publishes

/-! ## Many passes -/

/-- More passes than there are lists of actions change nothing: the rebuild ends by itself. -/
theorem passes_eq {fuel fuel' : Nat} (h : r.listsLeft < fuel) (h' : r.listsLeft < fuel') :
    r.passes fuel = r.passes fuel' := by
  induction fuel generalizing r fuel' with
  | zero => exact absurd h (Nat.not_lt_zero _)
  | succ fuel ih =>
    cases fuel' with
    | zero => exact absurd h' (Nat.not_lt_zero _)
    | succ fuel' =>
      rw [passes_succ, passes_succ]
      split
      · rename_i hp
        have hless := listsLeft_pass hp
        exact ih (by omega) (by omega)
      · rfl

/-- Every publication in the log is that of a pass, and what follows it is what happens while it is
announced and then the log of the passes after it. -/
theorem exists_publishes {fuel : Nat} (hr : r.arrivals = []) (hfuel : r.listsLeft < fuel)
    {before after : List Entry} {m : Model} {host : Host}
    (hlog : r.passesLog fuel = before ++ ⟨.published m, host⟩ :: after) :
    ∃ (r' : Run) (fuel' : Nat) (told : List Entry), r'.arrivals = [] ∧ r'.listsLeft < fuel' + 1 ∧
      r'.Publishes m host told ∧ r.passes fuel = r'.passes (fuel' + 1) ∧
      after = told ++ if r'.pass.host.pending then r'.pass.passesLog fuel' else [] := by
  induction fuel generalizing r before with
  | zero => exact absurd hfuel (Nat.not_lt_zero _)
  | succ fuel ih =>
    rw [passesLog] at hlog
    rcases upToDate_or_publishes hr with hpass | ⟨m₀, host₀, told, hpass⟩
    · rw [hpass.log, hpass.pending] at hlog
      simp at hlog
    · rw [hpass.log, List.cons_append] at hlog
      cases before with
      | nil =>
        obtain ⟨hfirst, rfl⟩ := List.cons.inj hlog
        cases hfirst
        exact ⟨r, fuel, told, hr, hfuel, hpass, rfl, rfl⟩
      | cons e before =>
        obtain ⟨-, hlog⟩ := List.cons.inj hlog
        -- nothing is published while a model is announced, so a later pass published this one
        obtain ⟨between, hrest⟩ := exists_append_of_published hpass.quiet hlog
        cases hp : r.pass.host.pending with
        | false =>
          rw [hp] at hrest
          simp at hrest
        | true =>
          rw [hp, if_pos rfl] at hrest
          have hless := listsLeft_pass hp
          rw [passes_succ, if_pos hp]
          exact ih (arrivals_pass hr) (by omega) hrest

/-- The last pass, and the one before it, which left something pending. -/
theorem exists_last {fuel : Nat} (hr : r.arrivals = []) (hfuel : r.listsLeft < fuel) :
    ∃ last : Run, last.arrivals = [] ∧ r.passes fuel = last.pass ∧ last.pass.host.pending = false ∧
      (last = r ∧ r.passesLog fuel = last.passLog ∨
        ∃ (prior : Run) (log : List Entry), prior.arrivals = [] ∧ prior.pass = last ∧
          last.host.pending = true ∧ r.passesLog fuel = log ++ prior.passLog ++ last.passLog) := by
  induction fuel generalizing r with
  | zero => exact absurd hfuel (Nat.not_lt_zero _)
  | succ fuel ih =>
    rw [passes_succ, passesLog]
    cases hp : r.pass.host.pending with
    | false => exact ⟨r, hr, by simp, hp, .inl ⟨rfl, by simp⟩⟩
    | true =>
      have hless := listsLeft_pass hp
      obtain ⟨last, hlast, hpasses, hdone, hlog⟩ := ih (arrivals_pass hr) (by omega)
      simp only [if_pos]
      refine ⟨last, hlast, hpasses, hdone, .inr ?_⟩
      rcases hlog with ⟨rfl, hlog⟩ | ⟨prior, log, hprior, hnext, hpending, hlog⟩
      · exact ⟨r, [], hr, rfl, hp, by rw [hlog, List.nil_append]⟩
      · exact ⟨prior, r.passLog ++ log, hprior, hnext, hpending, by simp [hlog]⟩

theorem UpToDate.ends (h : r.UpToDate) (fuel : Nat) :
    r.passes (fuel + 1) = r.pass ∧ r.passesLog (fuel + 1) = [] := by
  rw [passes_succ, passesLog, h.pending, h.log]
  exact ⟨rfl, rfl⟩

theorem Publishes.ends {m : Model} {host : Host} {told : List Entry} (h : r.Publishes m host told)
    (hquiet : stirred told = false) (fuel : Nat) :
    r.passes (fuel + 1) = r.pass ∧ r.passesLog (fuel + 1) = ⟨.published m, host⟩ :: told := by
  rw [passes_succ, passesLog, h.pending, hquiet, h.log]
  exact ⟨rfl, List.append_nil _⟩

/-- The passes after a publication, if nothing is stirred once something is published again: none of
them publishes unless an edit changed something, and then the first one does and is the last. -/
theorem Publishes.follow {fuel : Nat} {m : Model} {host : Host} {told rest : List Entry}
    (h : r.Publishes m host told) (hr : r.arrivals = []) (hfuel : r.listsLeft < fuel + 1)
    (hrest : rest = if r.pass.host.pending then r.pass.passesLog fuel else [])
    (hlater : ∀ m' host' after, rest = ⟨.published m', host'⟩ :: after → stirred after = false) :
    (Host.changes told = 0 ∧ rest = [] ∧ (r.passes (fuel + 1)).host.model = m ∧
        (r.passes (fuel + 1)).host.revision = m.revision) ∨
      Host.changes told ≠ 0 ∧ ∃ m' host' told', rest = ⟨.published m', host'⟩ :: told' ∧
        Host.publications told' = [] ∧ m'.generation = m.generation + 1 ∧
        (r.passes (fuel + 1)).host.model = m' ∧
        (r.passes (fuel + 1)).host.revision = m'.revision := by
  have hrevision := h.revision_pass
  cases hp : r.pass.host.pending with
  | false =>
    have hnone := changes_eq_zero (h.pending.symm.trans hp)
    rw [hp] at hrest
    rw [passes_succ, hp]
    exact .inl ⟨hnone, hrest, h.model_pass, by rw [hnone] at hrevision; exact hrevision⟩
  | true =>
    have hless := listsLeft_pass hp
    obtain ⟨k, rfl⟩ : ∃ k, fuel = k + 1 := ⟨fuel - 1, by omega⟩
    rw [hp, if_pos rfl] at hrest
    rw [passes_succ, if_pos hp]
    rcases h.next hr with ⟨hnone, hnext⟩ | ⟨hsome, m', host', told', hnext⟩
    · obtain ⟨hpasses, hlog⟩ := hnext.ends k
      rw [hpasses, hnext.host]
      rw [hnone] at hrevision
      exact .inl ⟨hnone, hrest.trans hlog, h.model_pass, hrevision⟩
    · have hquiet : stirred told' = false := by
        rw [passesLog, hnext.log, List.cons_append] at hrest
        have hall := hlater m' host' _ hrest
        rw [stirred_append, Bool.or_eq_false_iff] at hall
        exact hall.1
      obtain ⟨hpasses, hlog⟩ := hnext.ends hquiet k
      rw [hpasses]
      refine .inr ⟨hsome, m', host', told', hrest.trans hlog, hnext.quiet, ?_, hnext.model_pass, ?_⟩
      · rw [hnext.generation, h.generation_pass]
      · rw [hnext.revision_pass, changes_eq_zero hquiet]
        rfl

end Run

/-! ## Follow-ups -/

/-- What happens up to the next publication. -/
def announcement (log : List Entry) : List Entry := log.takeWhile fun e => e.deed.model?.isNone

/-- What happens from the next publication on. -/
def later (log : List Entry) : List Entry := log.dropWhile fun e => e.deed.model?.isNone

section Announcement

variable {told : List Entry} (h : publications told = []) (rest : List Entry)

include h

theorem isNone_of_quiet : ∀ e ∈ told, e.deed.model?.isNone = true := by
  intro e he
  rw [List.filterMap_eq_nil_iff.1 h e he]
  rfl

theorem announcement_append : announcement (told ++ rest) = told ++ announcement rest :=
  List.takeWhile_append_of_pos (isNone_of_quiet h)

theorem later_append : later (told ++ rest) = later rest :=
  List.dropWhile_append_of_pos (isNone_of_quiet h)

end Announcement

/-- What is done while a model is announced costs at most one more generation: `after` is what
happens in a rebuild after the publication of `m`. -/
structure FollowedUp (h : Host) (m : Model) (after : List Entry) : Prop where
  /-- The lock is held throughout, so that a rebuild asked for at any moment is coalesced. -/
  coalesced : ∀ e ∈ h.rebuildLog [], (∀ o, e.deed = .replied (.outcome o) → o = .coalesced) ∧
    ∀ arrivals, e.host.rebuild arrivals = ⟨.coalesced, [], e.host.requestPass⟩
  changed : changes (announcement after) ≠ 0 → ∃ m', publications after = [m'] ∧
    m'.generation = m.generation + 1 ∧ (h.rebuild []).host.model = m'
  unchanged : changes (announcement after) = 0 →
    publications after = [] ∧ (h.rebuild []).host.model = m
  ended : (h.rebuild []).host.pending = false ∧ (h.rebuild []).host.building = false
  /-- The passes end by themselves, not because a bound is reached. -/
  bounded : ∀ fuel, (Run.start h []).listsLeft < fuel →
    (Run.start h []).passes fuel = (Run.start h []).passes ((Run.start h []).listsLeft + 1)
  current : (h.rebuild []).host.model.revision = (h.rebuild []).host.revision

theorem rebuildLog_of_free {h : Host} (hfree : h.building = false) (arrivals : List (List Action)) :
    h.rebuildLog arrivals =
      (Run.start h arrivals).passesLog ((Run.start h arrivals).listsLeft + 1) := by
  unfold rebuildLog
  rw [hfree]
  rfl

theorem rebuild_of_held {h : Host} (hheld : h.building = true) (arrivals : List (List Action)) :
    h.rebuild arrivals = ⟨.coalesced, [], h.requestPass⟩ := by
  unfold rebuild
  rw [if_pos hheld]

/-- Edits and requests during a publication cost at most one follow-up: if listeners stir nothing
while a later generation is announced, then one more generation follows exactly if an edit reports a
change while this one is, and the rebuild ends with a model of the final revision. -/
theorem followedUp_of_rebuildLog {h : Host} (hfree : h.building = false) {before after : List Entry}
    {m : Model} {host : Host} (hlog : h.rebuildLog [] = before ++ ⟨.published m, host⟩ :: after)
    (hlater : stirred (later after) = false) : FollowedUp h m after := by
  have hnested := Run.isNested_passesLog ((Run.start h []).listsLeft + 1) (r := Run.start h []) rfl
  rw [← rebuildLog_of_free hfree] at hnested
  rw [rebuildLog_of_free hfree] at hlog
  obtain ⟨r, fuel, told, hr, hfuel, hpublishes, hpasses, hafter⟩ :=
    Run.exists_publishes rfl (Nat.lt_succ_self _) hlog
  generalize hrest : (if r.pass.host.pending then r.pass.passesLog fuel else []) = rest at hafter
  subst hafter
  rw [later_append hpublishes.quiet] at hlater
  have hfollow := hpublishes.follow hr hfuel hrest.symm fun m' host' after' hrest => by
    rw [hrest] at hlater
    exact hlater
  have hdone : (Run.passes _ (Run.start h [])).host.pending = false :=
    Run.passes_pending (Nat.lt_succ_self (Run.start h []).listsLeft)
  have hfinal : (h.rebuild []).host = { (r.passes (fuel + 1)).host with building := false } := by
    rw [rebuild_of_free hfree, ← hpasses]
  have htold : announcement (told ++ rest) = told := by
    rw [announcement_append hpublishes.quiet]
    rcases hfollow with ⟨-, rfl, -⟩ | ⟨-, _, _, _, rfl, -⟩
    · exact List.append_nil told
    · exact List.append_nil told
  rw [hpasses] at hdone
  refine ⟨fun e he => ?_, fun hsome => ?_, fun hnone => ?_, ?_, fun fuel' hfuel' => ?_, ?_⟩
  · exact ⟨(hnested e he).2, rebuild_of_held (hnested e he).1⟩
  · rw [htold] at hsome
    rcases hfollow with ⟨hnone, -⟩ | ⟨-, m', host', told', rfl, hquiet, hgeneration, hmodel, -⟩
    · exact absurd hnone hsome
    · refine ⟨m', ?_, hgeneration, by rw [hfinal]; exact hmodel⟩
      rw [publications_append, hpublishes.quiet]
      exact congrArg (m' :: ·) hquiet
  · rw [htold] at hnone
    rcases hfollow with ⟨-, rfl, hmodel, -⟩ | ⟨hsome, -⟩
    · rw [List.append_nil, hfinal]
      exact ⟨hpublishes.quiet, hmodel⟩
    · exact absurd hnone hsome
  · rw [hfinal]
    exact ⟨hdone, rfl⟩
  · exact Run.passes_eq hfuel' (Nat.lt_succ_self _)
  · rw [hfinal]
    rcases hfollow with ⟨-, -, hmodel, hrevision⟩ | ⟨-, _, _, _, -, -, -, hmodel, hrevision⟩
    · exact (congrArg Model.revision hmodel).trans hrevision.symm
    · exact (congrArg Model.revision hmodel).trans hrevision.symm

/-- Two listeners: the first one edits and asks for rebuilds at the first model that it is called
with, the second one edits as the first one did and asks, too. -/
def busyHost : Host :=
  (Host.new {}).session [.subscribe [[.edit (.setGroup (.empty ⟨1⟩ ⟨0⟩)), .rebuild,
      .edit (.setGroup (.empty ⟨2⟩ ⟨0⟩)), .rebuild]],
    .subscribe [[.edit (.setGroup (.empty ⟨2⟩ ⟨0⟩)), .rebuild]],
    .edit (.setGroup (.empty ⟨0⟩ ⟨0⟩))]

/-- Two edits and three requests while the first generation is announced: one more generation, of
the last revision. -/
theorem followedUp_of_rebuildLog_busy :
    ∃ m host after, busyHost.building = false ∧
      busyHost.rebuildLog [] = [] ++ ⟨.published m, host⟩ :: after ∧
      stirred (later after) = false ∧ FollowedUp busyHost m after ∧
      changes (announcement after) = 2 ∧ (busyHost.rebuild []).outcome = .published 2 ∧
      (busyHost.rebuild []).host.model.revision = 3 := by
  have hlog : busyHost.rebuildLog [] = [] ++ ⟨.published _, _⟩ :: _ := rfl
  exact ⟨_, _, _, rfl, hlog, rfl, followedUp_of_rebuildLog rfl hlog rfl, rfl, rfl, rfl⟩

end TypeAtlas.Host
