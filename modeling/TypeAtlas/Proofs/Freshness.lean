/-
What a host shows. Main statement: in every reachable state, a published model of the current
revision has the types that a build of the current sources from scratch has; every known path that
was last written by a record shows the adaptation of that record; and an edit that reports no change
leaves the groups that any build starts from as they are. A whole rebuild ends in such a state,
whatever listeners and arrivals do meanwhile.

It joins four mechanisms. The revision moves with every edit that changes a group, and what does not
move it keeps the groups in merge order. A pass that is not cancelled builds from the current groups.
A build over the published model agrees with one from scratch. And the stored groups follow the
records that were given.
-/
import TypeAtlas.Proofs.Runs
import TypeAtlas.Proofs.Sources

namespace TypeAtlas

/-! ## Node tables -/

/-- The same type, with hierarchies that agree, or none. -/
structure Node.Agrees (a b : Node) : Prop where
  merged : a.toMerged = b.toMerged
  hierarchy : Option.Rel Hierarchy.Agrees a.hierarchy b.hierarchy

/-- The types of a model at the end of a history are those of a build from scratch. -/
theorem Model.Built.nodes_agree {groups : List Group} {m : Model} (h : Built groups m)
    (config : Config) (generation revision : Nat) :
    List.Forall₂ Node.Agrees m.nodes (build groups config none generation revision).nodes := by
  have hscratch := (Built.first .never rfl : Built groups (build groups config none generation revision))
  have hmerged := h.current.merged.trans hscratch.current.merged.symm
  have hlength : m.nodes.length = (build groups config none generation revision).nodes.length := by
    simpa using congrArg List.length hmerged
  refine List.forall₂_iff_get.2 ⟨hlength, fun i hi hi' => ⟨?_, ?_⟩⟩
  · have := congrArg (·[i]?) hmerged
    simpa [hi, hi'] using this
  · have halike := h.current.alike i
    rw [← hierarchy_build_none groups config generation revision] at halike
    simp only [node?, List.getElem?_eq_getElem hi, List.getElem?_eq_getElem hi',
      Option.bind_some] at halike
    simp only [List.get_eq_getElem]
    generalize (m.nodes[i]).hierarchy = a at halike ⊢
    generalize ((build groups config none generation revision).nodes[i]).hierarchy = b at halike ⊢
    cases halike with
    | none => exact .none
    | some h => exact .some h.toAgrees

namespace Protocol

open Host Model

variable {s : System}

/-! ## Sources and edits -/

/-- What a step does to the sources is what an action does. -/
theorem Step.exists_act {s' : System} (h : Step s s') :
    ∃ a, s'.host.sources = (s.act a).host.sources ∧ s'.edits = (s.act a).edits := by
  cases h with
  | act a => exact ⟨a, rfl, rfl⟩
  | @react _ _ _ _ a => exact ⟨a, rfl, rfl⟩
  | publish _ _ swapped =>
    obtain ⟨-, -, rfl⟩ := publish_eq_ok swapped
    exact ⟨.observe, rfl, rfl⟩
  | _ => exact ⟨.observe, rfl, rfl⟩

theorem suffix_edits_act (s : System) (a : Action) : s.edits <:+ (s.act a).edits := by
  cases a with
  | edit e => exact List.suffix_cons _ _
  | _ => exact List.suffix_rfl

theorem sources_edit (h : Host) (e : Edit) : (h.edit e).2.sources = (e.apply h.sources).2 := by
  simp only [Host.edit]
  split <;> rfl

theorem faithful_act (hf : Edit.Faithful s.host.sources s.edits) (a : Action)
    (hp : Edit.Proper (s.act a).edits) :
    Edit.Faithful (s.act a).host.sources (s.act a).edits := by
  cases a with
  | edit e =>
    have h := hf.apply e hp
    rw [← sources_edit] at h
    exact h
  | registerModule name custom =>
    obtain ⟨he, -, hw⟩ := Sources.registerModule_spec s.host.sources name custom
    exact hf.extends he (hw hf.wf)
  | fileId path =>
    obtain ⟨he, -, hw⟩ := Sources.fileId_spec s.host.sources path
    exact hf.extends he (hw hf.wf)
  | rebuild => exact hf
  | observe => exact hf

/-- An edit that reports no change leaves the groups in merge order as they are. -/
theorem groups_edit {h : Host} (hw : h.sources.WF) (hreg : h.sources.Registered) {e : Edit}
    (h0 : (h.edit e).1 = 0) : (h.edit e).2.groups = h.groups := by
  have hconfig : (h.edit e).2.config = h.config := by
    simp only [Host.edit]
    split <;> rfl
  unfold Host.groups
  rw [hconfig, sources_edit]
  exact Sources.groupsInMergeOrder_of_modules hreg (Edit.groups_apply_of_eq_zero hw h0)
    (Edit.modules_apply hw e) _

/-- An action leaves the groups as they are, or moves the revision and cancels the pass. -/
theorem groups_act (hf : Edit.Faithful s.host.sources s.edits) (a : Action) :
    ((s.act a).host.revision = s.host.revision ∧ (s.act a).host.cancelled = s.host.cancelled ∧
        (s.act a).host.groups = s.host.groups) ∨
      s.host.revision < (s.act a).host.revision ∧ (s.act a).host.cancelled = true := by
  cases a with
  | edit e =>
    show (((s.host.edit e).2.revision = _ ∧ (s.host.edit e).2.cancelled = _ ∧
      (s.host.edit e).2.groups = _) ∨ _ < (s.host.edit e).2.revision ∧ (s.host.edit e).2.cancelled = _)
    by_cases h0 : (s.host.edit e).1 = 0
    · refine .inl ⟨?_, ?_, groups_edit hf.wf hf.registered h0⟩
      all_goals
        have h0' : (e.apply s.host.sources).1 = 0 := h0
        simp [Host.edit, h0']
    · have h0' : ¬(e.apply s.host.sources).1 = 0 := h0
      exact .inr (by simp [Host.edit, h0', Host.noteChange])
  | registerModule name custom =>
    obtain ⟨he, -, -⟩ := Sources.registerModule_spec s.host.sources name custom
    exact .inl ⟨rfl, rfl,
      Sources.groupsInMergeOrder_of_modules hf.registered he.groups he.modules _⟩
  | fileId path =>
    obtain ⟨he, -, -⟩ := Sources.fileId_spec s.host.sources path
    exact .inl ⟨rfl, rfl,
      Sources.groupsInMergeOrder_of_modules hf.registered he.groups he.modules _⟩
  | rebuild => exact .inl ⟨rfl, rfl, rfl⟩
  | observe => exact .inl ⟨rfl, rfl, rfl⟩

/-! ## Models and groups -/

/-- What a call is about to publish is built from the current groups, unless its token is
cancelled. -/
def Reflects (host : Host) : Stage → Prop
  | .building _ _ snapshot => host.cancelled = false → snapshot.groups = host.groups
  | .publishing _ _ m =>
    ∃ groups, Built groups m ∧ (host.cancelled = false → groups = host.groups)
  | _ => True

theorem reflects_of_not_holds {host : Host} {stage : Stage} (h : stage.holds = false) :
    Reflects host stage := by
  cases stage <;> trivial

/-- The published model is built from the current groups if it is of the current revision, and so is
what calls are about to publish. -/
structure Fresh (host : Host) (calls : Nat → Stage) : Prop where
  model : ∃ groups, Built groups host.model ∧
    (host.model.revision = host.revision → groups = host.groups)
  stages : ∀ c, Reflects host (calls c)

theorem Fresh.new (config : Config) : Fresh (.new config) fun _ => .idle :=
  ⟨⟨[], .empty config, fun _ => by simp [Host.groups, Sources.groupsInMergeOrder, Host.new]⟩,
    fun _ => trivial⟩

variable {host host' : Host} {calls : Nat → Stage}

theorem Fresh.nodes_agree (h : Fresh host calls) (hrevision : host.model.revision = host.revision)
    (config : Config) (generation revision : Nat) :
    List.Forall₂ Node.Agrees host.model.nodes
      (build host.groups config none generation revision).nodes := by
  obtain ⟨groups, hbuilt, hsame⟩ := h.model
  rw [← hsame hrevision]
  exact hbuilt.nodes_agree config generation revision

theorem Fresh.update (h : Fresh host calls) {call : Nat} {stage : Stage}
    (hstage : Reflects host stage) : Fresh host (Function.update calls call stage) :=
  ⟨h.model, (Function.forall_update_iff calls fun _ t => Reflects host t).2
    ⟨hstage, fun c _ => h.stages c⟩⟩

/-- A host goes on being fresh until the revision moves, and then passes are cancelled. -/
theorem Fresh.of_host (h : Fresh host calls) (hmodel : host'.model = host.model)
    (hgroups : (host'.revision = host.revision ∧ host'.cancelled = host.cancelled ∧
        host'.groups = host.groups) ∨
      host.model.revision < host'.revision ∧ host'.cancelled = true) : Fresh host' calls := by
  constructor
  · obtain ⟨groups, hbuilt, hsame⟩ := h.model
    refine ⟨groups, hmodel ▸ hbuilt, fun hrevision => ?_⟩
    rw [hmodel] at hrevision
    rcases hgroups with ⟨hr, -, hg⟩ | ⟨hlt, -⟩
    · rw [hg]
      exact hsame (hrevision.trans hr)
    · -- the revision moved ahead of the model
      omega
  · intro c
    have hsame : ∀ {groups : List Group}, (host.cancelled = false → groups = host.groups) →
        host'.cancelled = false → groups = host'.groups := by
      intro groups hsame hc
      rcases hgroups with ⟨-, hc', hg⟩ | ⟨-, hc'⟩
      · rw [hg]
        exact hsame (hc' ▸ hc)
      · rw [hc] at hc'
        cases hc'
    have hstage := h.stages c
    cases hcall : calls c with
    | building again token snapshot =>
      rw [hcall] at hstage
      exact hsame hstage
    | publishing again token m =>
      rw [hcall] at hstage
      obtain ⟨groups, hbuilt, hg⟩ := hstage
      exact ⟨groups, hbuilt, hsame hg⟩
    | _ => trivial

theorem Fresh.act (hi : Inv s) (hf : Edit.Faithful s.host.sources s.edits)
    (h : Fresh s.host s.calls) (a : Action) : Fresh (s.act a).host s.calls :=
  h.of_host (System.act_model s a) <| (groups_act hf a).imp_right fun ⟨hlt, hc⟩ =>
    ⟨Nat.lt_of_le_of_lt hi.publications.behind hlt, hc⟩

theorem reflects_afterPass (host : Host) (again : Bool) (outcome : Answer) :
    Reflects host (.afterPass again outcome) := by
  cases again <;> trivial

theorem Fresh.step {s' : System} (hi : Inv s) (hf : Edit.Faithful s.host.sources s.edits)
    (h : Fresh s.host s.calls) (hstep : Step s s') : Fresh s'.host s'.calls := by
  cases hstep with
  | act a =>
    rw [System.act_calls]
    exact h.act hi hf a
  | subscribe script => exact h.of_host rfl (.inl ⟨rfl, rfl, rfl⟩)
  | request call => exact Fresh.of_host (h.update trivial) rfl (.inl ⟨rfl, rfl, rfl⟩)
  | begin call hc =>
    -- the fresh token is not cancelled, but no other call remembers groups
    exact ⟨h.model, hi.locked.forall_update (by rw [hc]; rfl) reflects_of_not_holds trivial⟩
  | read call hc => exact h.update fun _ => rfl
  | @build call _ _ snapshot hc _ _ m built =>
    have hstage : Reflects s.host (.building _ _ snapshot) := hc ▸ h.stages call
    obtain ⟨groups, hbuilt, -⟩ := h.model
    exact h.update ⟨_, .next _ hbuilt built, hstage⟩
  | @publish call _ _ m hc host swapped =>
    obtain ⟨hcancelled, -, rfl⟩ := publish_eq_ok swapped
    have hstage : Reflects s.host (.publishing _ _ m) := hc ▸ h.stages call
    obtain ⟨groups, hbuilt, hsame⟩ := hstage
    exact ⟨⟨groups, hbuilt, fun _ => hsame hcancelled⟩,
      hi.locked.forall_update (by rw [hc]; rfl) reflects_of_not_holds trivial⟩
  | skip => exact h.update (reflects_afterPass _ _ _)
  | giveUp => exact h.update (reflects_afterPass _ _ _)
  | discard => exact h.update (reflects_afterPass _ _ _)
  | told => exact h.update (reflects_afterPass _ _ _)
  | tell => exact Fresh.of_host (h.update trivial) rfl (.inl ⟨rfl, rfl, rfl⟩)
  | @react _ _ _ _ a =>
    rw [System.move, System.act_calls]
    exact (h.act hi hf a).update trivial
  | followUp => exact h.update trivial
  | settle => exact h.update trivial
  | unlock => exact Fresh.of_host (h.update trivial) rfl (.inl ⟨rfl, rfl, rfl⟩)
  | retake => exact Fresh.of_host (h.update trivial) rfl (.inl ⟨rfl, rfl, rfl⟩)
  | yield => exact h.update trivial
  | finish => exact h.update trivial

/-! ## Reachable hosts -/

theorem Reachable.faithful_fresh {config : Config} (h : Reachable config s)
    (hp : Edit.Proper s.edits) :
    Edit.Faithful s.host.sources s.edits ∧ Fresh s.host s.calls := by
  induction h with
  | refl => exact ⟨.empty, .new config⟩
  | @tail s s' hs hstep ih =>
    obtain ⟨a, hsources, hedits⟩ := hstep.exists_act
    have hp' : Edit.Proper s.edits := by
      intro x hx
      refine hp x ?_
      rw [hedits]
      exact (suffix_edits_act s a).mem hx
    obtain ⟨hf, hfresh⟩ := ih hp'
    refine ⟨?_, hfresh.step (Reachable.inv hs) hf hstep⟩
    rw [hsources, hedits]
    exact faithful_act hf a (hedits ▸ hp)

/-- A host that is not stale shows the current sources: if its model is of the current revision, the
types are those of a build of its groups from scratch; a known path that was last written by a record
shows the adaptation of that record, under its ids; and an edit that reports no change hides none,
since it leaves the groups in merge order as they are. -/
theorem Reachable.shows_sources {config : Config} (h : Reachable config s)
    (hp : Edit.Proper s.edits) :
    (s.host.model.revision = s.host.revision → ∀ config generation revision,
      List.Forall₂ Node.Agrees s.host.model.nodes
        (build s.host.groups config none generation revision).nodes) ∧
    (∀ path file r, s.host.sources.fileId? path = some file →
      Edit.lastRecord? path file s.edits = some r →
        ∃ module stored, s.host.sources.moduleId? r.module = some module ∧
          s.host.sources.group? file = some stored ∧
          (stored == Group.ofRecords file module r.declarations) = true) ∧
    ∀ e, (s.host.edit e).1 = 0 → (s.host.edit e).2.groups = s.host.groups := by
  obtain ⟨hf, hfresh⟩ := h.faithful_fresh hp
  refine ⟨hfresh.nodes_agree, fun path file r hfile hlast => ?_,
    fun e h0 => groups_edit hf.wf hf.registered h0⟩
  obtain ⟨f, hf', hshows⟩ := hf.shows hlast
  cases hfile.symm.trans hf'
  obtain ⟨rfl, g, ⟨file', module, hfile', hm, rfl⟩, stored, hstored, heq⟩ := hshows rfl
  cases hfile.symm.trans hfile'
  exact ⟨module, stored, hm, hstored, heq⟩

/-- A listener writes a file and asks for a rebuild; after the second pass the host is not stale, and
the file that is then written as it was is no change. -/
theorem Reachable.shows_sources_listener :
    ∃ s, Reachable {} s ∧ Edit.Proper s.edits ∧ s.host.model.revision = s.host.revision ∧
      s.host.revision = 3 ∧ s.edits.length = 4 ∧
      List.Forall₂ Node.Agrees s.host.model.nodes (ofGroups s.host.groups {}).nodes ∧
      Edit.lastRecord? "a" ⟨0⟩ s.edits =
        some { path := "a", module := "m", declarations := [{ code := some "A" }] } ∧
      ∃ module stored, s.host.sources.moduleId? "m" = some module ∧
        s.host.sources.group? ⟨0⟩ = some stored ∧
        (stored == Group.ofRecords ⟨0⟩ module [{ code := some "A" }]) = true := by
  have h₀ : Reachable {} _ := .refl
  have h₁ := h₀.tail (.subscribe [[.edit (.setFile
    { path := "b", module := "m", declarations := [{ code := some "B", parent := some "A" }] }),
    .rebuild]])
  have h₂ := h₁.tail (.act (.registerModule "m" false) nofun)
  have h₃ := h₂.tail (.act (.edit (.setGroup (.empty ⟨7⟩ ⟨0⟩))) nofun)
  have h₄ := h₃.tail (.act (.edit (.setFile
    { path := "a", module := "m", declarations := [{ code := some "A" }] })) nofun)
  have h₅ := h₄.tail (.request 0 rfl rfl)
  have h₆ := h₅.tail (.begin 0 rfl)
  have h₇ := h₆.tail (.read 0 rfl)
  have h₈ := h₇.tail (@Step.build _ 0 _ _ _ rfl rfl .never _ rfl)
  have h₉ := h₈.tail (.publish 0 rfl rfl)
  have h₁₀ := h₉.tail (.tell 0 rfl rfl)
  have h₁₁ := h₁₀.tail (.react 0 rfl)
  have h₁₂ := h₁₁.tail (.react 0 rfl)
  have h₁₃ := h₁₂.tail (.told 0 rfl (Nat.le_refl 1))
  have h₁₄ := h₁₃.tail (.followUp 0 rfl rfl)
  have h₁₅ := h₁₄.tail (.begin 0 rfl)
  have h₁₆ := h₁₅.tail (.read 0 rfl)
  have h₁₇ := h₁₆.tail (@Step.build _ 0 _ _ _ rfl rfl .never _ rfl)
  have h₁₈ := h₁₇.tail (.publish 0 rfl rfl)
  have h₁₉ := h₁₈.tail (.act (.edit (.setFile
    { path := "a", module := "m", declarations := [{ code := some "A" }] })) nofun)
  obtain ⟨hnodes, hrecords, -⟩ := Reachable.shows_sources h₁₉ (List.all_eq_true.1 rfl)
  exact ⟨_, h₁₉, List.all_eq_true.1 rfl, rfl, rfl, rfl, hnodes rfl {} 1 0, rfl,
    hrecords "a" ⟨0⟩ _ rfl rfl⟩

/-! ## Rebuilds -/

theorem modules_act (hw : s.host.sources.WF) (a : Action) :
    s.host.sources.modules <+: (s.act a).host.sources.modules := by
  cases a with
  | edit e =>
    show _ <+: (s.host.edit e).2.sources.modules
    rw [sources_edit]
    exact Edit.modules_apply hw e
  | registerModule name custom =>
    exact (Sources.registerModule_spec s.host.sources name custom).1.modules
  | fileId path => exact (Sources.fileId_spec s.host.sources path).1.modules
  | rebuild => exact List.prefix_rfl
  | observe => exact List.prefix_rfl

/-- Edits that are proper at the start of a run are proper when they are made, since no module is
taken away. -/
theorem Reachable.proper_of_stepBy {config : Config} {acts : List Action} {s' : System}
    (h : Reachable config s) (hp : Edit.Proper s.edits)
    (hacts : ∀ e, .edit e ∈ acts → e.isProper s.host.sources = true)
    (hsteps : Relation.ReflTransGen (StepBy acts) s s') :
    Edit.Proper s'.edits ∧ s.host.sources.modules <+: s'.host.sources.modules := by
  induction hsteps with
  | refl => exact ⟨hp, List.prefix_rfl⟩
  | @tail t t' ht hstep ih =>
    obtain ⟨hp', hmodules⟩ := ih
    obtain ⟨-, a, ha, hsources, hedits⟩ := hstep
    have hf := (Reachable.faithful_fresh (h.trans (steps_of_stepBy ht)) hp').1
    refine ⟨?_, hsources ▸ hmodules.trans (modules_act hf.wf a)⟩
    rw [hedits]
    cases a with
    | edit e =>
      have he := hacts e (ha.resolve_left nofun)
      exact List.forall_mem_cons.2 ⟨Edit.isProper_of_modules hmodules he, hp'⟩
    | _ => exact hp'

/-- After a rebuild the types are those of a build of the groups from scratch, whatever listeners and
arrivals do meanwhile. -/
theorem Reachable.nodes_agree_rebuild {config : Config} (h : Reachable config s)
    (hp : Edit.Proper s.edits) {call : Nat} (hidle : s.calls call = .idle)
    (hfree : s.host.building = false) {arrivals : List (List Action)}
    (hacts : ∀ e, .edit e ∈ actions s.host arrivals → e.isProper s.host.sources = true)
    (config' : Config) (generation revision : Nat) :
    List.Forall₂ Node.Agrees (s.host.rebuild arrivals).host.model.nodes
      (build (s.host.rebuild arrivals).host.groups config' none generation revision).nodes := by
  obtain ⟨s', hsteps, hhost, -⟩ := exists_run_rebuild h.inv hidle hfree arrivals
  obtain ⟨-, hrevision⟩ := rebuild_current h.inv hidle hfree arrivals
  obtain ⟨hp', -⟩ := h.proper_of_stepBy hp hacts hsteps
  obtain ⟨-, hfresh⟩ := Reachable.faithful_fresh (h.trans (steps_of_stepBy hsteps)) hp'
  rw [← hhost] at hrevision ⊢
  exact hfresh.nodes_agree hrevision config' generation revision

end Protocol

end TypeAtlas
