/-
Laws of sources. Ids of modules and paths, once given, stay; an edit changes the groups of the files
it names and no other; the group stored for a path is the adaptation of the record given last, up to
the order of keys; and the merge order depends on the groups alone, as long as every group's module
is registered, so that an edit that reports no change leaves the groups in merge order as they are.
-/
import TypeAtlas.Host.Basic
import TypeAtlas.Proofs.Agreement

namespace TypeAtlas

instance : ReflBEq AttributeDecl where
  rfl := AttributeDecl.beq_iff.2 ⟨rfl, BEq.rfl⟩

instance : ReflBEq Body where
  rfl {b} := by
    show instBEqBody.beq b b = true
    cases b <;> simp [instBEqBody.beq]

instance : ReflBEq Declaration where
  rfl {d} := by
    show instBEqDeclaration.beq d d = true
    cases d
    simp [instBEqDeclaration.beq]

instance : ReflBEq Group where
  rfl {g} := by
    show instBEqGroup.beq g g = true
    cases g
    simp [instBEqGroup.beq]

namespace Sources

/-! ## Ids -/

/-- Different paths have different ids, and ids to come are not used yet. -/
structure WF (s : Sources) : Prop where
  injective : ∀ {p q : String} {f : FileId}, s.fileId? p = some f → s.fileId? q = some f → p = q
  fresh : ∀ {p : String} {f : FileId}, s.fileId? p = some f → f.index < s.nextFile

theorem wf_empty : WF {} := ⟨nofun, nofun⟩

/-- `s'` knows all the modules and paths of `s`, under the same ids, and has the same groups. -/
structure Extends (s s' : Sources) : Prop where
  groups : s'.groups = s.groups
  modules : s.modules <+: s'.modules
  paths : ∀ {p : String} {f : FileId}, s.fileId? p = some f → s'.fileId? p = some f

theorem Extends.refl (s : Sources) : s.Extends s := ⟨rfl, List.prefix_rfl, id⟩

theorem Extends.trans {s t u : Sources} (h : s.Extends t) (h' : t.Extends u) : s.Extends u :=
  ⟨h'.groups.trans h.groups, h.modules.trans h'.modules, fun hp => h'.paths (h.paths hp)⟩

/-- The same modules and paths, under the same ids. -/
structure SameIds (s s' : Sources) : Prop where
  modules : s'.modules = s.modules
  paths : s'.paths = s.paths
  nextFile : s'.nextFile = s.nextFile

theorem SameIds.trans {s t u : Sources} (h : s.SameIds t) (h' : t.SameIds u) : s.SameIds u :=
  ⟨h'.modules.trans h.modules, h'.paths.trans h.paths, h'.nextFile.trans h.nextFile⟩

theorem SameIds.fileId? {s s' : Sources} (h : s.SameIds s') (path : String) :
    s'.fileId? path = s.fileId? path := by
  unfold Sources.fileId?
  rw [h.paths]

theorem WF.sameIds {s s' : Sources} (hw : s.WF) (h : s.SameIds s') : s'.WF := by
  constructor
  · intro p q f
    rw [h.fileId?, h.fileId?]
    exact hw.injective
  · intro p f
    rw [h.fileId?, h.nextFile]
    exact hw.fresh

theorem moduleId?_lt {s : Sources} {name : String} {id : ModuleId}
    (h : s.moduleId? name = some id) : id.index < s.modules.length := by
  obtain ⟨i, hi, rfl⟩ := Option.map_eq_some_iff.1 h
  exact (List.findIdx?_eq_some_iff_getElem.1 hi).1

theorem moduleId?_of_modules {s s' : Sources} (h : s.modules <+: s'.modules) {name : String}
    {id : ModuleId} (hid : s.moduleId? name = some id) : s'.moduleId? name = some id := by
  obtain ⟨more, hmore⟩ := h
  obtain ⟨i, hi, rfl⟩ := Option.map_eq_some_iff.1 hid
  unfold moduleId?
  rw [← hmore, List.findIdx?_append, hi]
  rfl

theorem registerModule_spec (s : Sources) (name : String) (custom : Bool) :
    s.Extends (s.registerModule name custom).2 ∧
      (s.registerModule name custom).2.moduleId? name = some (s.registerModule name custom).1 ∧
      (s.WF → (s.registerModule name custom).2.WF) := by
  unfold registerModule
  split
  · rename_i hid
    exact ⟨.refl s, hid, fun hw => hw⟩
  · rename_i hnone
    refine ⟨⟨rfl, List.prefix_append _ _, id⟩, ?_, fun hw => ⟨hw.injective, hw.fresh⟩⟩
    have hfind := Option.map_eq_none_iff.1 hnone
    simp [moduleId?, List.findIdx?_append, hfind]

theorem fileId_spec (s : Sources) (path : String) :
    s.Extends (s.fileId path).2 ∧ (s.fileId path).2.fileId? path = some (s.fileId path).1 ∧
      (s.WF → (s.fileId path).2.WF) := by
  unfold fileId
  split
  · rename_i hid
    exact ⟨.refl s, hid, fun hw => hw⟩
  · rename_i hnone
    have hget : ∀ q, Sources.fileId? { s with
        paths := s.paths.insert path ⟨s.nextFile⟩, nextFile := s.nextFile + 1 } q =
        if q = path then some ⟨s.nextFile⟩ else s.fileId? q := s.paths.get?_insert path _
    -- the new id is above all ids in use, so it is no other path's
    refine ⟨⟨rfl, List.prefix_rfl, fun {p f} hp => ?_⟩, ?_, fun hw => ⟨fun {p q f} hp hq => ?_,
      fun {p f} hp => ?_⟩⟩
    · rw [hget, if_neg]
      · exact hp
      · rintro rfl
        rw [hnone] at hp
        cases hp
    · rw [hget, if_pos rfl]
    · rw [hget] at hp hq
      split at hp <;> split at hq
      · simp_all
      · cases hp
        exact absurd (hw.fresh hq) (Nat.lt_irrefl _)
      · cases hq
        exact absurd (hw.fresh hp) (Nat.lt_irrefl _)
      · exact hw.injective hp hq
    · rw [hget] at hp
      split at hp
      · cases hp
        exact Nat.lt_succ_self _
      · exact Nat.lt_succ_of_lt (hw.fresh hp)

/-! ## Adaptation -/

/-- The group of a record under the ids of its path and module. -/
def Adapts (s : Sources) (r : Record.File) (g : Group) : Prop :=
  ∃ file module, s.fileId? r.path = some file ∧ s.moduleId? r.module = some module ∧
    g = .ofRecords file module r.declarations

theorem Adapts.extends {s s' : Sources} (h : s.Extends s') {r : Record.File} {g : Group}
    (ha : s.Adapts r g) : s'.Adapts r g := by
  obtain ⟨file, module, hf, hm, rfl⟩ := ha
  exact ⟨file, module, h.paths hf, moduleId?_of_modules h.modules hm, rfl⟩

theorem Adapts.sameIds {s s' : Sources} (h : s.SameIds s') {r : Record.File} {g : Group}
    (ha : s.Adapts r g) : s'.Adapts r g := by
  obtain ⟨file, module, hf, hm, rfl⟩ := ha
  exact ⟨file, module, (h.fileId? _).trans hf, moduleId?_of_modules (h.modules ▸ List.prefix_rfl) hm, rfl⟩

theorem adaptFile_spec {s : Sources} (hw : s.WF) (r : Record.File) :
    s.Extends (s.adaptFile r).2 ∧ (s.adaptFile r).2.WF ∧
      (s.adaptFile r).2.Adapts r (s.adaptFile r).1 := by
  unfold adaptFile
  obtain ⟨he, hm, hw'⟩ := registerModule_spec s r.module r.custom
  generalize s.registerModule r.module r.custom = t at he hm hw'
  obtain ⟨he', hid, hw''⟩ := fileId_spec t.2 r.path
  exact ⟨he.trans he', hw'' (hw' hw), _, _, hid, moduleId?_of_modules he'.modules hm, rfl⟩

theorem adaptFiles_spec (rs : List Record.File) {s : Sources} (hw : s.WF) :
    s.Extends (s.adaptFiles rs).2 ∧ (s.adaptFiles rs).2.WF ∧
      List.Forall₂ (s.adaptFiles rs).2.Adapts rs (s.adaptFiles rs).1 := by
  induction rs generalizing s with
  | nil => exact ⟨.refl s, hw, .nil⟩
  | cons r rs ih =>
    obtain ⟨he, hw', ha⟩ := adaptFile_spec hw r
    obtain ⟨he', hw'', has⟩ := ih hw'
    exact ⟨he.trans he', hw'', .cons (ha.extends he') has⟩

/-! ## Groups -/

theorem find?_putGroup (g : Group) (gs : List Group) (f : FileId) :
    (putGroup g gs).find? (fun a => a.file == f) =
      if g.file = f then some g else gs.find? fun a => a.file == f := by
  induction gs with
  | nil => by_cases h : g.file = f <;> simp [putGroup, h]
  | cons a gs ih =>
    by_cases ha : a.file = g.file
    · by_cases h : g.file = f <;> simp [putGroup, ha, h]
    · have hput : putGroup g (a :: gs) = a :: putGroup g gs := if_neg ha
      rw [hput, List.find?_cons, List.find?_cons, ih]
      cases haf : a.file == f with
      | true =>
        have hne : g.file ≠ f := fun h => ha ((beq_iff_eq.1 haf).trans h.symm)
        exact (if_neg hne).symm
      | false => rfl

theorem mem_putGroup {g a : Group} {gs : List Group} (h : a ∈ putGroup g gs) : a = g ∨ a ∈ gs := by
  induction gs with
  | nil => exact .inl (List.mem_singleton.1 h)
  | cons b gs ih =>
    unfold putGroup at h
    split at h
    · exact (List.mem_cons.1 h).imp_right (List.mem_cons_of_mem b)
    · rcases List.mem_cons.1 h with rfl | h
      · exact .inr List.mem_cons_self
      · exact (ih h).imp_right (List.mem_cons_of_mem b)

/-- Storing a group does nothing if an equal one is there, and puts it in its place otherwise. -/
theorem setGroup_cases (s : Sources) (g : Group) :
    (∃ stored, s.group? g.file = some stored ∧ (stored == g) = true ∧ s.setGroup g = (false, s)) ∨
      s.setGroup g = (true, { s with groups := putGroup g s.groups }) := by
  unfold setGroup
  split
  · rename_i stored hstored
    split
    · rename_i heq
      exact .inl ⟨stored, hstored, heq, rfl⟩
    · exact .inr rfl
  · exact .inr rfl

theorem setGroup_sameIds (s : Sources) (g : Group) : s.SameIds (s.setGroup g).2 := by
  obtain ⟨_, -, -, h⟩ | h := setGroup_cases s g <;> rw [h] <;> exact ⟨rfl, rfl, rfl⟩

/-- The stored group of a file equals `g`. -/
def Stores (s : Sources) (g : Group) : Prop :=
  ∃ stored, s.group? g.file = some stored ∧ (stored == g) = true

theorem stores_setGroup (s : Sources) (g : Group) : (s.setGroup g).2.Stores g := by
  obtain ⟨stored, hstored, heq, h⟩ | h := setGroup_cases s g <;> rw [h]
  · exact ⟨stored, hstored, heq⟩
  · exact ⟨g, (find?_putGroup g s.groups g.file).trans (if_pos rfl), BEq.rfl⟩

theorem group?_setGroup_of_ne (s : Sources) {g : Group} {f : FileId} (hne : g.file ≠ f) :
    (s.setGroup g).2.group? f = s.group? f := by
  obtain ⟨_, -, -, h⟩ | h := setGroup_cases s g <;> rw [h]
  exact (find?_putGroup g s.groups f).trans (if_neg hne)

theorem group?_removeFile (s : Sources) (file f : FileId) :
    (s.removeFile file).2.group? f = if file = f then none else s.group? f := by
  show (s.groups.filter fun g => g.file != file).find? (fun g => g.file == f) = _
  rw [List.find?_filter]
  split <;> rename_i hne
  · subst hne
    rw [List.find?_eq_none]
    simp
  · unfold group?
    congr 1
    funext g
    by_cases hg : g.file = f
    · simp [hg, Ne.symm hne]
    · simp [hg]

/-- The stored group of a record's path is its adaptation. -/
def Shows (s : Sources) (r : Record.File) : Prop := ∃ g, s.Adapts r g ∧ s.Stores g

theorem Shows.extends {s s' : Sources} (he : s.Extends s') {r : Record.File} (h : s.Shows r) :
    s'.Shows r := by
  obtain ⟨g, ha, stored, hstored, heq⟩ := h
  refine ⟨g, ha.extends he, stored, ?_, heq⟩
  unfold group? at hstored ⊢
  rw [he.groups]
  exact hstored

theorem Shows.setGroup {s : Sources} {r : Record.File} {g : Group} (h : s.Shows r)
    (hne : s.fileId? r.path ≠ some g.file) : (s.setGroup g).2.Shows r := by
  obtain ⟨g', ⟨file, module, hf, hm, rfl⟩, stored, hstored, heq⟩ := h
  have ha : s.Adapts r (.ofRecords file module r.declarations) := ⟨file, module, hf, hm, rfl⟩
  refine ⟨_, ha.sameIds (setGroup_sameIds s g), stored, ?_, heq⟩
  rw [group?_setGroup_of_ne]
  · exact hstored
  · intro h
    exact hne (hf.trans (congrArg some h.symm))

/-- The record given for a path last in a list. -/
def lastFor? (path : String) (rs : List Record.File) : Option Record.File :=
  rs.reverse.find? fun r => r.path == path

theorem lastFor?_cons (path : String) (r : Record.File) (rs : List Record.File) :
    lastFor? path (r :: rs) = (lastFor? path rs).or (if r.path = path then some r else none) := by
  simp [lastFor?, List.find?_append, List.find?_singleton]

theorem setGroups_cons (s : Sources) (g : Group) (gs : List Group) :
    s.setGroups (g :: gs) = ((s.setGroup g).1 :: ((s.setGroup g).2.setGroups gs).1,
      ((s.setGroup g).2.setGroups gs).2) := rfl

theorem setGroups_sameIds (gs : List Group) (s : Sources) : s.SameIds (s.setGroups gs).2 := by
  induction gs generalizing s with
  | nil => exact ⟨rfl, rfl, rfl⟩
  | cons g gs ih =>
    rw [setGroups_cons]
    exact (setGroup_sameIds s g).trans (ih _)

/-- Of the records adapted for a path the last one is shown, and without one what was shown
before. -/
theorem shows_setGroups {rs : List Record.File} {gs : List Group} {s : Sources} (hw : s.WF)
    (h : List.Forall₂ s.Adapts rs gs) {path : String} {r : Record.File}
    (hr : lastFor? path rs = some r ∨ lastFor? path rs = none ∧ r.path = path ∧ s.Shows r) :
    (s.setGroups gs).2.Shows r := by
  induction rs generalizing s gs with
  | nil =>
    cases h
    exact (hr.resolve_left nofun).2.2
  | cons r₀ rs ih =>
    cases h with
    | @cons _ g₀ _ gs ha has =>
      have hsame := setGroup_sameIds s g₀
      rw [setGroups_cons]
      refine ih (hw.sameIds hsame) (has.imp fun _ _ h => h.sameIds hsame) ?_
      -- a later record for the path decides, and only then this one
      rw [lastFor?_cons] at hr
      cases hlast : lastFor? path rs with
      | some r₁ =>
        rw [hlast] at hr
        exact .inl (hr.resolve_right nofun)
      | none =>
        rw [hlast, Option.none_or] at hr
        refine .inr ⟨rfl, ?_⟩
        split at hr
        · rename_i hpath
          cases hr.resolve_right nofun
          exact ⟨hpath, g₀, ha.sameIds hsame, stores_setGroup s g₀⟩
        · rename_i hpath
          -- the group of another path is of another file
          obtain ⟨-, hpath', hshows⟩ := hr.resolve_left nofun
          obtain ⟨file, module, hf, -, rfl⟩ := ha
          refine ⟨hpath', hshows.setGroup fun hfile => hpath ?_⟩
          exact (hw.injective hf hfile).trans hpath'

/-! ## Merge order -/

/-- Every group is of a registered module. -/
def Registered (s : Sources) : Prop := ∀ g ∈ s.groups, g.module.index < s.modules.length

theorem Registered.setGroup {s : Sources} (h : s.Registered) {g : Group}
    (hg : g.module.index < s.modules.length) : (s.setGroup g).2.Registered := by
  intro a ha
  rw [(setGroup_sameIds s g).modules]
  obtain ⟨_, -, -, heq⟩ | heq := setGroup_cases s g <;> rw [heq] at ha
  · exact h a ha
  · rcases mem_putGroup ha with rfl | ha
    · exact hg
    · exact h a ha

theorem Registered.setGroups {s : Sources} (h : s.Registered) {gs : List Group}
    (hgs : ∀ g ∈ gs, g.module.index < s.modules.length) : (s.setGroups gs).2.Registered := by
  induction gs generalizing s with
  | nil => exact h
  | cons g gs ih =>
    rw [setGroups_cons]
    refine ih (h.setGroup (hgs g List.mem_cons_self)) fun a ha => ?_
    rw [(setGroup_sameIds s g).modules]
    exact hgs a (List.mem_cons_of_mem g ha)

theorem module_lt_of_adapts {s : Sources} {rs : List Record.File} {gs : List Group}
    (h : List.Forall₂ s.Adapts rs gs) : ∀ g ∈ gs, g.module.index < s.modules.length := by
  induction h with
  | nil => nofun
  | cons ha _ ih =>
    obtain ⟨file, module, -, hm, rfl⟩ := ha
    exact List.forall_mem_cons.2 ⟨moduleId?_lt hm, ih⟩

theorem rank_of_modules {s s' : Sources} (h : s.modules <+: s'.modules) (order : MergeOrder)
    {g : Group} (hg : g.module.index < s.modules.length) : s'.rank order g = s.rank order g := by
  obtain ⟨more, hmore⟩ := h
  have hmodule : s'.module? g.module = s.module? g.module := by
    unfold module?
    rw [← hmore, List.getElem?_append_left hg]
  unfold rank
  rw [hmodule]

/-- More modules do not change the merge order. -/
theorem groupsInMergeOrder_of_modules {s s' : Sources} (hreg : s.Registered)
    (hgroups : s'.groups = s.groups) (h : s.modules <+: s'.modules) (order : MergeOrder) :
    s'.groupsInMergeOrder order = s.groupsInMergeOrder order := by
  have hkey : ∀ g ∈ s.groups, s'.mergeKey order g = s.mergeKey order g := by
    intro g hg
    unfold mergeKey
    rw [rank_of_modules h order (hreg g hg)]
  -- sorting depends on the keys of the sorted groups only
  have hsort := List.map_mergeSort (f := id) (l := s.groups)
    (r := fun a b => keyLe (s'.mergeKey order a) (s'.mergeKey order b))
    (s := fun a b => keyLe (s.mergeKey order a) (s.mergeKey order b)) fun a ha b hb => by
      rw [hkey a ha, hkey b hb, id, id]
  unfold groupsInMergeOrder
  rw [hgroups]
  simpa using hsort

end Sources

namespace Edit

open Sources

/-! ## Edits -/

theorem apply_setFile (r : Record.File) (s : Sources) :
    (setFile r).apply s = (setFiles [r]).apply s := by
  simp only [apply, adaptFiles, setGroups]
  cases ((s.adaptFile r).2.setGroup (s.adaptFile r).1).1 <;> rfl

theorem apply_removeFile (path : String) (s : Sources) :
    (removeFile path).apply s = match s.fileId? path with
      | none => (0, s)
      | some file => ((s.removeFile file).1.toNat, (s.removeFile file).2) := rfl

/-- The records that an edit gives. -/
def records : Edit → List Record.File
  | setFile r => [r]
  | setFiles rs => rs
  | _ => []

/-- An edit other than by records takes away what a path shows: it removes the path, or it changes
the group of its file. -/
def overrules (e : Edit) (s : Sources) (path : String) (file : FileId) : Bool :=
  match e with
  | setGroup g => g.file == file && (s.setGroup g).1
  | removeFile p => p == path
  | _ => false

/-- The record that a path, whose file is known by an id, was given last, unless overruled since.
Edits are listed last first, each with the sources it found. -/
def lastRecord? (path : String) (file : FileId) : List (Sources × Edit) → Option Record.File
  | [] => none
  | (s, e) :: edits =>
    match lastFor? path e.records with
    | some r => some r
    | none => if e.overrules s path file then none else lastRecord? path file edits

theorem lastRecord?_cons {path : String} {file : FileId} {s : Sources} {e : Edit}
    {edits : List (Sources × Edit)} {r : Record.File}
    (h : lastRecord? path file ((s, e) :: edits) = some r) :
    lastFor? path e.records = some r ∨ lastFor? path e.records = none ∧
      e.overrules s path file = false ∧ lastRecord? path file edits = some r := by
  unfold lastRecord? at h
  cases hr : lastFor? path e.records with
  | some r' =>
    rw [hr] at h
    exact .inl h
  | none =>
    rw [hr] at h
    cases ho : e.overrules s path file with
    | true => simp [ho] at h
    | false => exact .inr ⟨rfl, rfl, by simpa [ho] using h⟩

/-- An edit may give a group directly only for a registered module. -/
def isProper (s : Sources) : Edit → Bool
  | setGroup g => (s.module? g.module).isSome
  | _ => true

/-- All edits were proper when they were made. -/
def Proper (edits : List (Sources × Edit)) : Prop := ∀ x ∈ edits, x.2.isProper x.1 = true

/-- The sources are faithful to a list of edits: ids are used properly, modules are registered, and
every path that was given a record shows it, unless overruled. -/
structure Faithful (s : Sources) (edits : List (Sources × Edit)) : Prop where
  wf : s.WF
  registered : s.Registered
  shows : ∀ {path : String} {file : FileId} {r : Record.File},
    lastRecord? path file edits = some r →
      ∃ f, s.fileId? path = some f ∧ (f = file → r.path = path ∧ s.Shows r)

theorem Faithful.empty : Faithful {} [] := ⟨wf_empty, nofun, nofun⟩

variable {s : Sources} {edits : List (Sources × Edit)} (h : Faithful s edits)

include h

theorem Faithful.extends {s' : Sources} (he : s.Extends s') (hw : s'.WF) : Faithful s' edits := by
  refine ⟨hw, fun g hg => ?_, fun hlast => ?_⟩
  · rw [he.groups] at hg
    exact Nat.lt_of_lt_of_le (h.registered g hg) he.modules.length_le
  · obtain ⟨f, hf, hshows⟩ := h.shows hlast
    exact ⟨f, he.paths hf, fun hfile => (hshows hfile).imp_right fun h => h.extends he⟩

theorem Faithful.setFiles (rs : List Record.File) :
    Faithful ((Edit.setFiles rs).apply s).2 ((s, .setFiles rs) :: edits) := by
  obtain ⟨he, hw, has⟩ := adaptFiles_spec rs h.wf
  have h₁ := h.extends he hw
  show Faithful ((s.adaptFiles rs).2.setGroups (s.adaptFiles rs).1).2 _
  generalize (s.adaptFiles rs).2 = s₁ at has h₁
  generalize (s.adaptFiles rs).1 = gs at has
  have hsame := setGroups_sameIds gs s₁
  refine ⟨h₁.wf.sameIds hsame, h₁.registered.setGroups (module_lt_of_adapts has),
    fun {path file r} hlast => ?_⟩
  obtain hr | ⟨hnone, -, hearlier⟩ := lastRecord?_cons hlast
  · have hshows := shows_setGroups h₁.wf has (.inl hr)
    have hpath : r.path = path := by simpa using List.find?_some hr
    obtain ⟨-, ⟨f, -, hf, -⟩, -⟩ := id hshows
    exact ⟨f, hpath ▸ hf, fun _ => ⟨hpath, hshows⟩⟩
  · obtain ⟨f, hf, hshows⟩ := h₁.shows hearlier
    refine ⟨f, (hsame.fileId? path).trans hf, fun hfile => ?_⟩
    obtain ⟨hpath, hr⟩ := hshows hfile
    exact ⟨hpath, shows_setGroups h₁.wf has (.inr ⟨hnone, hpath, hr⟩)⟩

theorem Faithful.setGroup {g : Group} (hg : g.module.index < s.modules.length) :
    Faithful ((Edit.setGroup g).apply s).2 ((s, .setGroup g) :: edits) := by
  show Faithful (s.setGroup g).2 _
  have hsame := setGroup_sameIds s g
  refine ⟨h.wf.sameIds hsame, h.registered.setGroup hg, fun {path file r} hlast => ?_⟩
  obtain ⟨-, hkeep, hearlier⟩ := (lastRecord?_cons hlast).resolve_left nofun
  obtain ⟨f, hf, hshows⟩ := h.shows hearlier
  refine ⟨f, (hsame.fileId? path).trans hf, fun hfile => ?_⟩
  obtain ⟨hpath, hr⟩ := hshows hfile
  refine ⟨hpath, ?_⟩
  obtain ⟨_, -, -, heq⟩ | heq := setGroup_cases s g
  · rw [heq]
    exact hr
  · refine hr.setGroup fun hfile' => ?_
    rw [hpath, hf, hfile] at hfile'
    simp [overrules, heq, Option.some.inj hfile'] at hkeep

omit h in
/-- Removing the file of a path leaves the other paths as they are. -/
theorem removeFile_spec (hw : s.WF) {path : String} {file : FileId}
    (hfile : s.fileId? path = some file) :
    (s.removeFile file).2.WF ∧
      (∀ {q : String} {f : FileId}, q ≠ path → s.fileId? q = some f →
        (s.removeFile file).2.fileId? q = some f) ∧
      ∀ {r : Record.File}, r.path ≠ path → s.Shows r → (s.removeFile file).2.Shows r := by
  have hget : ∀ q, (s.removeFile file).2.fileId? q = (s.fileId? q).filter (· != file) :=
    s.paths.get?_filter _
  have hold : ∀ {q : String} {f : FileId}, (s.removeFile file).2.fileId? q = some f →
      s.fileId? q = some f := by
    intro q f hq
    rw [hget, Option.filter_eq_some_iff] at hq
    exact hq.1
  have hother : ∀ {q : String} {f : FileId}, q ≠ path → s.fileId? q = some f → f ≠ file := by
    rintro q f hne hq rfl
    exact hne (hw.injective hq hfile)
  have hpaths : ∀ {q : String} {f : FileId}, q ≠ path → s.fileId? q = some f →
      (s.removeFile file).2.fileId? q = some f := by
    intro q f hne hq
    rw [hget, hq]
    simp [hother hne hq]
  refine ⟨⟨fun hp hq => hw.injective (hold hp) (hold hq), fun hp => hw.fresh (hold hp)⟩, hpaths, ?_⟩
  rintro r hne ⟨g, ⟨f, module, hf, hm, rfl⟩, stored, hstored, heq⟩
  refine ⟨_, ⟨f, module, hpaths hne hf, hm, rfl⟩, stored, ?_, heq⟩
  exact (group?_removeFile s file f).trans ((if_neg (Ne.symm (hother hne hf))).trans hstored)

theorem Faithful.removeFile (p : String) :
    Faithful ((Edit.removeFile p).apply s).2 ((s, .removeFile p) :: edits) := by
  have hkeep : ∀ {path : String} {file : FileId} {r : Record.File},
      lastRecord? path file ((s, .removeFile p) :: edits) = some r →
        path ≠ p ∧ lastRecord? path file edits = some r := by
    intro path file r hlast
    obtain ⟨-, hkeep, hearlier⟩ := (lastRecord?_cons hlast).resolve_left nofun
    exact ⟨Ne.symm (by simpa [overrules] using hkeep), hearlier⟩
  rw [apply_removeFile]
  cases hp : s.fileId? p with
  | none => exact ⟨h.wf, h.registered, fun hlast => h.shows (hkeep hlast).2⟩
  | some file =>
    obtain ⟨hw, hpaths, hshown⟩ := removeFile_spec h.wf hp
    refine ⟨hw, fun g hg => h.registered g (List.mem_of_mem_filter hg), fun hlast => ?_⟩
    obtain ⟨hne, hearlier⟩ := hkeep hlast
    obtain ⟨f, hf, hshows⟩ := h.shows hearlier
    refine ⟨f, hpaths hne hf, fun hfile => ?_⟩
    obtain ⟨hpath, hr⟩ := hshows hfile
    exact ⟨hpath, hshown (hpath ▸ hne) hr⟩

/-- Edits keep the sources faithful to what was edited. -/
theorem Faithful.apply (e : Edit) (hp : Proper ((s, e) :: edits)) :
    Faithful (e.apply s).2 ((s, e) :: edits) := by
  cases e with
  | setFile r =>
    rw [apply_setFile]
    have h' := h.setFiles [r]
    exact ⟨h'.wf, h'.registered, h'.shows⟩
  | setFiles rs => exact h.setFiles rs
  | setGroup g =>
    have hg : (s.module? g.module).isSome = true := hp _ List.mem_cons_self
    exact h.setGroup (by simpa [module?] using hg)
  | removeFile p => exact h.removeFile p

omit h in
theorem setGroups_of_count_eq_zero {gs : List Group} {s : Sources}
    (h0 : (s.setGroups gs).1.count true = 0) : (s.setGroups gs).2 = s := by
  induction gs generalizing s with
  | nil => rfl
  | cons g gs ih =>
    rw [setGroups_cons] at h0 ⊢
    obtain ⟨_, -, -, heq⟩ | heq := setGroup_cases s g <;> rw [heq] at h0 ⊢
    · exact ih (by simpa using h0)
    · simp at h0

omit h in
/-- An edit takes no module away. -/
theorem modules_apply (hw : s.WF) (e : Edit) : s.modules <+: (e.apply s).2.modules := by
  have hfiles : ∀ rs, s.modules <+: ((Edit.setFiles rs).apply s).2.modules := by
    intro rs
    obtain ⟨he, -, -⟩ := adaptFiles_spec rs hw
    have hsame := setGroups_sameIds (s.adaptFiles rs).1 (s.adaptFiles rs).2
    exact he.modules.trans (hsame.modules ▸ List.prefix_rfl)
  cases e with
  | setFile r =>
    rw [apply_setFile]
    exact hfiles [r]
  | setFiles rs => exact hfiles rs
  | setGroup g => exact (setGroup_sameIds s g).modules ▸ List.prefix_rfl
  | removeFile p =>
    rw [apply_removeFile]
    cases s.fileId? p <;> exact List.prefix_rfl

omit h in
theorem isProper_of_modules {s' : Sources} (h : s.modules <+: s'.modules) {e : Edit}
    (hp : e.isProper s = true) : e.isProper s' = true := by
  cases e with
  | setGroup g =>
    simp only [isProper, module?, isSome_getElem?] at hp ⊢
    exact Nat.lt_of_lt_of_le hp h.length_le
  | _ => rfl

omit h in
/-- An edit that reports no change leaves the groups alone. -/
theorem groups_apply_of_eq_zero (hw : s.WF) {e : Edit} (h0 : (e.apply s).1 = 0) :
    (e.apply s).2.groups = s.groups := by
  have hfiles : ∀ rs, ((Edit.setFiles rs).apply s).1 = 0 →
      ((Edit.setFiles rs).apply s).2.groups = s.groups := by
    intro rs h0
    obtain ⟨he, -, -⟩ := adaptFiles_spec rs hw
    have hsame : ((Edit.setFiles rs).apply s).2 = (s.adaptFiles rs).2 :=
      setGroups_of_count_eq_zero h0
    rw [hsame]
    exact he.groups
  cases e with
  | setFile r =>
    rw [apply_setFile] at h0 ⊢
    exact hfiles [r] h0
  | setFiles rs => exact hfiles rs h0
  | setGroup g =>
    obtain ⟨_, -, -, heq⟩ | heq := setGroup_cases s g
    · show (s.setGroup g).2.groups = _
      rw [heq]
    · simp [Edit.apply, heq] at h0
  | removeFile p =>
    rw [apply_removeFile] at h0 ⊢
    cases hp : s.fileId? p with
    | none => rfl
    | some file =>
      rw [hp] at h0
      have hnone : s.group? file = none := by
        cases hg : s.group? file with
        | none => rfl
        | some g => simp [Sources.removeFile, hg] at h0
      refine List.filter_eq_self.2 fun g hg => ?_
      simpa using List.find?_eq_none.1 hnone g hg

end Edit

end TypeAtlas
