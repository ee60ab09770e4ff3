/-
Loading many files at once. Main statement: setting files in one batch leads to the same sources as
setting them one by one, and reports the number of files whose setting was a change; the revision
advances by one, not by that number; and a rebuild afterwards publishes the same types and findings.

Groups are adapted from ids alone and stored by their file alone, so a stored group can be moved past
the adaptation of the files after it (`adaptFiles_setGroup`). The two hosts then differ in revisions
only. A rebuild does not ask for more of a revision than whether it is that of the published model,
so it goes the same way on both (`Run.Redated`).
-/
import TypeAtlas.Proofs.Runs
import TypeAtlas.Proofs.Sources

namespace TypeAtlas

/-! ## Ids before groups -/

namespace Sources

/-- The ids of the path and the module of a record, given now if they are unknown. -/
def locate (s : Sources) (r : Record.File) : (FileId × ModuleId) × Sources :=
  let (module, s) := s.registerModule r.module r.custom
  let (file, s) := s.fileId r.path
  ((file, module), s)

/-- The ids of records, one after another. -/
def locateAll (s : Sources) : List Record.File → List (FileId × ModuleId) × Sources
  | [] => ([], s)
  | r :: rs =>
    let (place, s) := s.locate r
    let (places, s) := s.locateAll rs
    (place :: places, s)

/-- Records are adapted after all ids are given, each by itself. -/
theorem adaptFiles_eq_locateAll (rs : List Record.File) (s : Sources) :
    s.adaptFiles rs = (List.zipWith (fun place r => .ofRecords place.1 place.2 r.declarations)
      (s.locateAll rs).1 rs, (s.locateAll rs).2) := by
  induction rs generalizing s with
  | nil => rfl
  | cons r rs ih =>
    simp only [adaptFiles, locateAll, List.zipWith_cons_cons]
    rw [ih]
    rfl

/-! ## Groups and ids do not meet -/

/-- The same modules and paths, with other groups. -/
def withGroups (s : Sources) (groups : List Group) : Sources := { s with groups }

theorem withGroups_groups (s : Sources) : s.withGroups s.groups = s := rfl

theorem registerModule_withGroups (s : Sources) (groups : List Group) (name : String)
    (custom : Bool) : (s.withGroups groups).registerModule name custom =
      ((s.registerModule name custom).1, (s.registerModule name custom).2.withGroups groups) := by
  unfold registerModule
  rw [show (s.withGroups groups).moduleId? name = s.moduleId? name from rfl]
  cases s.moduleId? name <;> rfl

theorem fileId_withGroups (s : Sources) (groups : List Group) (path : String) :
    (s.withGroups groups).fileId path =
      ((s.fileId path).1, (s.fileId path).2.withGroups groups) := by
  unfold fileId
  rw [show (s.withGroups groups).fileId? path = s.fileId? path from rfl]
  cases s.fileId? path <;> rfl

theorem adaptFile_withGroups (s : Sources) (groups : List Group) (r : Record.File) :
    (s.withGroups groups).adaptFile r =
      ((s.adaptFile r).1, (s.adaptFile r).2.withGroups groups) := by
  simp only [adaptFile, registerModule_withGroups, fileId_withGroups]

theorem adaptFiles_withGroups (rs : List Record.File) (s : Sources) (groups : List Group) :
    (s.withGroups groups).adaptFiles rs =
      ((s.adaptFiles rs).1, (s.adaptFiles rs).2.withGroups groups) := by
  induction rs generalizing s with
  | nil => rfl
  | cons r rs ih => simp only [adaptFiles, adaptFile_withGroups, ih]

theorem groups_adaptFiles (rs : List Record.File) (s : Sources) :
    (s.adaptFiles rs).2.groups = s.groups := by
  have h := adaptFiles_withGroups rs s s.groups
  rw [withGroups_groups] at h
  rw [h]
  rfl

theorem setGroup_of_groups {s t : Sources} (h : t.groups = s.groups) (g : Group) :
    t.setGroup g = ((s.setGroup g).1, t.withGroups (s.setGroup g).2.groups) := by
  have hfound : t.group? g.file = s.group? g.file := by
    unfold group?
    rw [h]
  have hsame : t = t.withGroups s.groups := by
    rw [← h]
    rfl
  unfold setGroup
  rw [hfound, h]
  cases s.group? g.file with
  | none => rfl
  | some stored =>
    dsimp only
    split
    · rw [← hsame]
    · rfl

/-- Whether a group is stored before files are adapted or after makes no difference. -/
theorem adaptFiles_setGroup (rs : List Record.File) (s : Sources) (g : Group) :
    (s.setGroup g).2.adaptFiles rs =
        ((s.adaptFiles rs).1, ((s.adaptFiles rs).2.setGroup g).2) ∧
      ((s.adaptFiles rs).2.setGroup g).1 = (s.setGroup g).1 := by
  have hstored : (s.setGroup g).2 = s.withGroups (s.setGroup g).2.groups := by
    rw [setGroup_of_groups rfl g]
    rfl
  rw [hstored, adaptFiles_withGroups, setGroup_of_groups (groups_adaptFiles rs s) g]
  exact ⟨rfl, rfl⟩

end Sources

/-- A batch does what setting its first file and then the others does. -/
theorem Edit.apply_setFiles_cons (r : Record.File) (rs : List Record.File) (s : Sources) :
    (Edit.setFiles (r :: rs)).apply s =
      (((setFile r).apply s).1 + ((setFiles rs).apply ((setFile r).apply s).2).1,
        ((setFiles rs).apply ((setFile r).apply s).2).2) := by
  obtain ⟨hadapted, hchanged⟩ := Sources.adaptFiles_setGroup rs (s.adaptFile r).2 (s.adaptFile r).1
  simp only [apply, Sources.adaptFiles, Sources.setGroups_cons, hadapted, hchanged]
  cases ((s.adaptFile r).2.setGroup (s.adaptFile r).1).1 <;> simp [Nat.add_comm]

namespace Host

/-! ## One by one -/

/-- Sets files one after another; says for each how many files changed. -/
def setEach (h : Host) : List Record.File → List Nat × Host
  | [] => ([], h)
  | r :: rs =>
    let (changed, h) := h.edit (.setFile r)
    let (more, h) := h.setEach rs
    (changed :: more, h)

/-- The host with other sources, after a number of changes noted in so many steps. -/
def noted (h : Host) (sources : Sources) (changed steps : Nat) : Host :=
  { h with
    sources
    revision := h.revision + steps
    pending := h.pending || 0 < changed
    cancelled := h.cancelled || 0 < changed }

theorem edit_eq (h : Host) (e : Edit) :
    h.edit e = ((e.apply h.sources).1,
      h.noted (e.apply h.sources).2 (e.apply h.sources).1 (min (e.apply h.sources).1 1)) := by
  unfold edit noted
  cases hn : (e.apply h.sources).1 with
  | zero => simp [hn]
  | succ n => simp [hn, noteChange]

theorem noted_noted (h : Host) (s t : Sources) (m n i j : Nat) :
    (h.noted s m i).noted t n j = h.noted t (m + n) (i + j) := by
  unfold noted
  simp only [Host.mk.injEq, true_and, and_true, Nat.add_assoc, Bool.or_assoc]
  have hpos : (decide (0 < m) || decide (0 < n)) = decide (0 < m + n) := by
    rw [← Bool.decide_or]
    exact decide_eq_decide.2 (by omega)
  rw [hpos]
  exact ⟨rfl, rfl⟩

theorem changed_setFile_le (r : Record.File) (s : Sources) : ((Edit.setFile r).apply s).1 ≤ 1 :=
  Bool.toNat_le _

/-- Setting files one by one notes every change on its own. -/
theorem setEach_spec (rs : List Record.File) (h : Host) :
    (h.setEach rs).1.countP (0 < ·) = ((Edit.setFiles rs).apply h.sources).1 ∧
      (h.setEach rs).2 = h.noted ((Edit.setFiles rs).apply h.sources).2
        ((Edit.setFiles rs).apply h.sources).1 ((Edit.setFiles rs).apply h.sources).1 := by
  induction rs generalizing h with
  | nil => exact ⟨rfl, by simp [setEach, noted, Edit.apply, Sources.adaptFiles, Sources.setGroups]⟩
  | cons r rs ih =>
    have hle := changed_setFile_le r h.sources
    simp only [setEach, List.countP_cons, edit_eq, Edit.apply_setFiles_cons, Nat.min_eq_left hle]
    obtain ⟨hreports, hhost⟩ := ih (h.noted ((Edit.setFile r).apply h.sources).2
      ((Edit.setFile r).apply h.sources).1 ((Edit.setFile r).apply h.sources).1)
    rw [hreports, hhost, noted_noted]
    refine ⟨?_, rfl⟩
    simp only [noted, decide_eq_true_eq]
    split <;> omega

/-! ## Hosts that differ in revisions -/

/-- The host with a later revision, and another one for its model. -/
def redate (h : Host) (d r : Nat) : Host :=
  { h with revision := h.revision + d, model := { h.model with revision := r } }

/-- The model is behind the sources with these revisions exactly if it is with its own. -/
structure Redates (h : Host) (d r : Nat) : Prop where
  le : h.model.revision ≤ h.revision
  le' : r ≤ h.revision + d
  current : r = h.revision + d ↔ h.model.revision = h.revision

variable {h : Host} {d r : Nat}

theorem act_redate (h : Host) (d r : Nat) (a : Action) :
    ((h.redate d r).act a).host = (h.act a).host.redate d r := by
  cases a with
  | edit e =>
    simp only [act, edit_eq, noted, redate, Nat.add_right_comm]
  | _ => rfl

theorem Redates.act (hr : Redates h d r) (a : Action) : Redates (h.act a).host d r := by
  obtain ⟨hle, hle', hcurrent⟩ := hr
  cases a with
  | edit e =>
    simp only [Host.act, edit_eq]
    constructor <;> simp only [noted] <;> omega
  | _ => exact ⟨hle, hle', hcurrent⟩

theorem actAll_redate (as : List Action) (hr : Redates h d r) :
    ((h.redate d r).actAll as).2 = (h.actAll as).2.redate d r ∧ Redates (h.actAll as).2 d r := by
  induction as generalizing h with
  | nil => exact ⟨rfl, hr⟩
  | cons a as ih =>
    simp only [actAll, act_redate]
    exact ih (hr.act a)

theorem announceTo_redate (m m' : Model) (listener : Nat) (hr : Redates h d r) :
    ((h.redate d r).announceTo m' listener).2 = (h.announceTo m listener).2.redate d r ∧
      Redates (h.announceTo m listener).2 d r := by
  have hr' : ∀ listeners, Redates { h with listeners } d r := fun _ => ⟨hr.le, hr.le', hr.current⟩
  let script := (h.listeners[listener]?).getD []
  exact actAll_redate (script.head?.getD []) (hr' (h.listeners.set listener (script.drop 1)))

theorem announceEach_redate (m m' : Model) (listeners : List Nat) (hr : Redates h d r) :
    ((h.redate d r).announceEach m' listeners).2 = (h.announceEach m listeners).2.redate d r ∧
      Redates (h.announceEach m listeners).2 d r := by
  induction listeners generalizing h with
  | nil => exact ⟨rfl, hr⟩
  | cons listener more ih =>
    obtain ⟨htold, hr'⟩ := announceTo_redate m m' listener hr
    simp only [announceEach, htold]
    exact ih hr'

namespace Run

/-- Two rebuilds on their way, alike but for revisions. -/
structure Redated (d : Nat) (x y : Run) : Prop where
  host : ∃ r, y.host = x.host.redate d r ∧ Redates x.host d r
  arrivals : y.arrivals = x.arrivals
  outcome : y.outcome = x.outcome

variable {x y : Run}

theorem Redated.pending (h : Redated d x y) : y.host.pending = x.host.pending := by
  obtain ⟨r, hhost, -⟩ := h.host
  rw [hhost]
  rfl

theorem Redated.listsLeft (h : Redated d x y) : y.listsLeft = x.listsLeft := by
  obtain ⟨r, hhost, -⟩ := h.host
  unfold Run.listsLeft
  rw [h.arrivals, hhost]
  rfl

theorem Redated.arrive (h : Redated d x y) : Redated d x.arrive y.arrive := by
  obtain ⟨r, hhost, hr⟩ := h.host
  unfold Run.arrive
  rw [h.arrivals]
  cases x.arrivals with
  | nil => exact h
  | cons actions arrivals =>
    refine ⟨⟨r, ?_⟩, rfl, h.outcome⟩
    rw [hhost]
    exact actAll_redate actions hr

/-- A model is refused on both sides, or published at the revision of its side. -/
theorem Redated.finish (h : Redated d x y) (m : Model) :
    Redated d (x.finish m) (y.finish { m with revision := m.revision + d }) := by
  obtain ⟨r, hhost, hr⟩ := h.host
  have hrefused : (y.host.cancelled || y.host.revision != m.revision + d) =
      (x.host.cancelled || x.host.revision != m.revision) := by
    rw [hhost, Bool.eq_iff_iff]
    simp only [redate, Bool.or_eq_true, bne_iff_ne, ne_eq, Nat.add_right_cancel_iff]
  unfold Run.finish publish
  rw [hrefused]
  by_cases hc : (x.host.cancelled || x.host.revision != m.revision) = true
  · rw [if_pos hc, if_pos hc]
    exact ⟨h.host, h.arrivals, rfl⟩
  · rw [if_neg hc, if_neg hc]
    have hrevision : x.host.revision = m.revision := by
      simp only [Bool.or_eq_true, bne_iff_ne, not_or, not_not] at hc
      exact hc.2
    have hpublished : Redates { x.host with generation := m.generation, model := m } d
        (m.revision + d) := by
      constructor <;> simp only [hrevision] <;> omega
    have hannounced := announceEach_redate m { m with revision := m.revision + d }
      (List.range x.host.listeners.length) hpublished
    refine ⟨⟨m.revision + d, ?_⟩, h.arrivals, rfl⟩
    rw [hhost]
    exact hannounced

theorem Redated.pass (h : Redated d x y) : Redated d x.pass y.pass := by
  obtain ⟨r, hhost, hr⟩ := h.host
  have hbegun : Redated d { x with host := x.host.beginPass } { y with host := y.host.beginPass } :=
    ⟨⟨r, by rw [hhost]; rfl, hr.le, hr.le', hr.current⟩, h.arrivals, h.outcome⟩
  have hcovers : y.host.beginPass.covers y.host.beginPass.snapshot =
      x.host.beginPass.covers x.host.beginPass.snapshot := by
    rw [hhost, Bool.eq_iff_iff]
    simp only [covers, snapshot, beginPass, redate, Bool.and_eq_true, beq_iff_eq, hr.current]
    exact Iff.rfl
  cases hc : x.host.beginPass.covers x.host.beginPass.snapshot with
  | true =>
    rw [pass_of_covers hc, pass_of_covers (hcovers.trans hc)]
    exact ⟨hbegun.host, h.arrivals, by rw [hhost]; rfl⟩
  | false =>
    rw [pass_of_not_covers hc, pass_of_not_covers (hcovers.trans hc)]
    have hcandidate : y.host.beginPass.candidate y.host.beginPass.snapshot =
        { x.host.beginPass.candidate x.host.beginPass.snapshot with
          revision := x.host.revision + d } := by
      rw [hhost]
      rfl
    rw [hcandidate]
    exact hbegun.arrive.finish _

theorem Redated.passes (fuel : Nat) (h : Redated d x y) :
    Redated d (x.passes fuel) (y.passes fuel) := by
  induction fuel generalizing x y with
  | zero => exact h
  | succ fuel ih =>
    rw [passes_succ, passes_succ, h.pass.pending]
    split
    · exact ih h.pass
    · exact h.pass

end Run

/-- Rebuilds of hosts that differ in revisions end in hosts that differ in revisions. -/
theorem rebuild_redate (hr : Redates h d r) (arrivals : List (List Action)) :
    ((h.redate d r).rebuild arrivals).outcome = (h.rebuild arrivals).outcome ∧
      ∃ r', ((h.redate d r).rebuild arrivals).host = (h.rebuild arrivals).host.redate d r' := by
  cases hb : h.building with
  | true =>
    have hheld : (h.redate d r).building = true := hb
    unfold rebuild
    rw [if_pos hb, if_pos hheld]
    exact ⟨rfl, r, rfl⟩
  | false =>
    have hfree : (h.redate d r).building = false := hb
    rw [rebuild_of_free hb, rebuild_of_free hfree]
    have hstart : Run.Redated d (Run.start h arrivals) (Run.start (h.redate d r) arrivals) :=
      ⟨⟨r, rfl, hr.le, hr.le', hr.current⟩, rfl, rfl⟩
    have hend := hstart.passes ((Run.start h arrivals).listsLeft + 1)
    obtain ⟨r', hhost, -⟩ := hend.host
    simp only [hstart.listsLeft, hend.outcome, hhost]
    exact ⟨trivial, r', rfl⟩

/-! ## Batches -/

/-- Setting files in one batch and one by one. -/
structure LoadsAlike (h : Host) (rs : List Record.File) : Prop where
  /-- In a batch all ids are given before anything is adapted or stored. -/
  phases : h.sources.adaptFiles rs =
    (List.zipWith (fun place r => .ofRecords place.1 place.2 r.declarations)
      (h.sources.locateAll rs).1 rs, (h.sources.locateAll rs).2)
  sources : (h.edit (.setFiles rs)).2.sources = (h.setEach rs).2.sources
  changed : (h.edit (.setFiles rs)).1 = (h.setEach rs).1.countP (0 < ·)
  revision : (h.edit (.setFiles rs)).2.revision =
    h.revision + if 0 < (h.edit (.setFiles rs)).1 then 1 else 0
  rebuilt : ∀ arrivals,
    ((h.edit (.setFiles rs)).2.rebuild arrivals).host.model.nodes =
        ((h.setEach rs).2.rebuild arrivals).host.model.nodes ∧
      ((h.edit (.setFiles rs)).2.rebuild arrivals).host.model.diagnostics =
        ((h.setEach rs).2.rebuild arrivals).host.model.diagnostics ∧
      ((h.edit (.setFiles rs)).2.rebuild arrivals).outcome =
        ((h.setEach rs).2.rebuild arrivals).outcome

/-- One by one the revision advances further than in a batch. -/
theorem setEach_eq_redate (hle : h.model.revision ≤ h.revision) (rs : List Record.File) :
    ∃ d, (h.setEach rs).2 = (h.edit (.setFiles rs)).2.redate d h.model.revision ∧
      Redates (h.edit (.setFiles rs)).2 d h.model.revision := by
  obtain ⟨-, heach⟩ := setEach_spec rs h
  rw [heach, edit_eq]
  generalize (Edit.setFiles rs).apply h.sources = result
  refine ⟨result.1 - min result.1 1, ?_, ?_⟩
  · unfold redate noted
    simp only [Host.mk.injEq, true_and, and_true]
    omega
  · constructor <;> simp only [noted] <;> omega

theorem loadsAlike (hle : h.model.revision ≤ h.revision) (rs : List Record.File) :
    LoadsAlike h rs := by
  obtain ⟨hreports, heach⟩ := setEach_spec rs h
  refine ⟨Sources.adaptFiles_eq_locateAll rs h.sources, ?_, ?_, ?_, fun arrivals => ?_⟩
  · rw [heach, edit_eq]
    rfl
  · rw [hreports, edit_eq]
  · rw [edit_eq]
    simp only [noted]
    split <;> omega
  · obtain ⟨d, hdated, hr⟩ := setEach_eq_redate hle rs
    obtain ⟨houtcome, r', hhost⟩ := rebuild_redate hr arrivals
    rw [hdated, hhost, houtcome]
    exact ⟨rfl, rfl, rfl⟩

end Host

namespace Protocol

/-- Setting files in a batch and one by one agree on every host that can be reached: the same
sources, the number of changes, and after a rebuild the same types and findings. -/
theorem Reachable.loadsAlike_setFiles {config : Config} {s : System} (h : Reachable config s)
    (rs : List Record.File) : Host.LoadsAlike s.host rs :=
  Host.loadsAlike h.inv.publications.behind rs

/-- A batch that writes a known file twice and registers a module under both flags: three changes,
which advance the revision from 1 to 2 in a batch and to 4 one by one. -/
theorem Reachable.loadsAlike_setFiles_repeated :
    ∃ s rs, Reachable {} s ∧ Host.LoadsAlike s.host rs ∧
      rs.map (fun r => (r.path, r.module, r.custom)) =
        [("a", "m", true), ("b", "m", false), ("a", "m", false)] ∧
      (s.host.edit (.setFiles rs)).1 = 3 ∧ (s.host.edit (.setFiles rs)).2.revision = 2 ∧
      (s.host.setEach rs).2.revision = 4 ∧
      (s.host.setEach rs).2.sources.modules = [⟨"", false⟩, ⟨"m", true⟩] := by
  have h₀ : Reachable {} _ := .refl
  have h₁ := h₀.tail (.act (.edit (.setFile { path := "a" })) nofun)
  let rs : List Record.File :=
    [{ path := "a", module := "m", custom := true, declarations := [{ code := some "A" }] },
      { path := "b", module := "m", declarations := [{ code := some "B", parent := some "A" }] },
      { path := "a", module := "m", declarations := [{ code := some "C" }] }]
  exact ⟨_, rs, h₁, Reachable.loadsAlike_setFiles h₁ rs, rfl, rfl, rfl, rfl, rfl⟩

end Protocol

end TypeAtlas
