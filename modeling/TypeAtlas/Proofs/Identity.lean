/-
Identity of modules, files and groups in source tables. Main statement: after any calls the table of
ids and the table of paths are inverse to each other; a path keeps its id until the file is removed,
and an id that is given to an unknown path was never given before; modules stand at the positions that
are their ids, with the flag of their first registration; and a file has at most one group, stored
under its own id, the one set last since the file was removed last.

Tables are compared with sources, which keep every fact once (`Holds`): the paths of files are looked
up in the table of ids, modules have no id but their position, and groups no key but their file. Each
operation gives the same answer on both and leaves tables that hold the sources. The order of rows is
no part of it, since a removal moves the last row of both tables of paths.
-/
import TypeAtlas.SourceTables
import TypeAtlas.Proofs.Histories
import Mathlib.Data.Prod.Basic

namespace TypeAtlas

/-! ## Rows of tables -/

namespace Table

variable {κ β : Type} [DecidableEq κ]

theorem get?_eq_some_iff (t : Table κ β) {k : κ} {v : β} : t.get? k = some v ↔ (k, v) ∈ t.rows :=
  Dict.lookup_eq_some_iff_mem t.keys_nodup

theorem get?_insert (t : Table κ β) (k : κ) (v : β) (k' : κ) :
    (t.insert k v).get? k' = if k' = k then some v else t.get? k' :=
  Dict.lookup_put k v t.rows k'

theorem shiftOut_eq_filter {k : κ} {rows : List (κ × β)} (hn : (rows.map Prod.fst).Nodup) :
    shiftOut k rows = rows.filter fun row => row.1 != k := by
  induction rows with
  | nil => rfl
  | cons row rows ih =>
    obtain ⟨hrow, hn⟩ := List.nodup_cons.1 hn
    unfold shiftOut
    by_cases hk : row.1 = k
    · -- no other row has the key, so nothing else is taken out
      have hrest : rows.filter (fun row => row.1 != k) = rows := by
        rw [List.filter_eq_self]
        intro r hr
        rw [bne_iff_ne]
        rintro rfl
        exact hrow (hk ▸ List.mem_map_of_mem hr)
      rw [List.eraseP_cons, beq_iff_eq.2 hk, cond_true, List.filter_cons_of_neg (by simp [hk]), hrest]
    · rw [List.eraseP_cons, beq_eq_false_iff_ne.2 hk, cond_false,
        List.filter_cons_of_pos (by simp [hk])]
      exact congrArg (row :: ·) (ih hn)

/-- A removal leaves the other keys bound as they were, wherever their rows go. -/
theorem get?_swapRemove (t : Table κ β) (k k' : κ) :
    (t.swapRemove k).2.get? k' = if k' = k then none else t.get? k' := by
  refine Option.ext fun v => ?_
  rw [get?_eq_some_iff]
  show (k', v) ∈ swapOut k t.rows ↔ _
  rw [(swapOut_perm k t.rows).mem_iff, shiftOut_eq_filter t.keys_nodup, List.mem_filter, bne_iff_ne]
  split
  next hk => simp [hk]
  next hk => rw [get?_eq_some_iff, and_iff_left hk]

end Table

namespace SourceTables

open Sources (Step Call history registrations lastGroup? AsGiven)

/-! ## Tables that hold sources -/

/-- Tables hold sources: the table of ids binds what the sources know, the table of paths is its
inverse, modules have their positions as ids, and groups stand under their files. -/
structure Holds (t : SourceTables) (s : Sources) : Prop where
  wf : s.WF
  modules : t.modules.rows = s.modules.mapIdx fun i m => (m.name, ⟨m, ⟨i⟩⟩)
  ids : ∀ path, t.fileId? path = s.fileId? path
  paths : ∀ path file, t.path? file = some path ↔ t.fileId? path = some file
  groups : t.groups.rows = s.groups.map fun g => (g.file, g)
  nextFile : t.nextFile = s.nextFile

theorem holds_empty : Holds {} {} where
  wf := Sources.wf_empty
  modules := rfl
  ids _ := rfl
  paths _ _ := iff_of_false nofun nofun
  groups := rfl
  nextFile := rfl

/-- Which path is forgotten with a file is told by the table of paths. -/
theorem ids_removeFile (t : SourceTables) (file : FileId) :
    (t.removeFile file).2.ids =
      (t.paths.get? file).elim t.ids fun path => (t.ids.swapRemove path).2 := by
  cases hrow : t.paths.get? file <;> simp [removeFile, Table.swapRemove, hrow]

/-- Groups that stand under their files are stored by file. -/
theorem put_map_file (g : Group) (gs : List Group) :
    Dict.put g.file g (gs.map fun g => (g.file, g)) =
      (Sources.putGroup g gs).map fun g => (g.file, g) := by
  induction gs with
  | nil => rfl
  | cons a gs ih =>
    rw [List.map_cons, Dict.put, Sources.putGroup]
    split
    · rfl
    · rw [ih, List.map_cons]

variable {t : SourceTables} {s : Sources}

namespace Holds

variable (h : t.Holds s)

include h

/-! ## Modules -/

theorem moduleList : t.moduleList = s.modules.mapIdx fun i m => ⟨m, ⟨i⟩⟩ := by
  unfold SourceTables.moduleList Table.values
  rw [h.modules]
  exact List.ext_getElem? fun i => by simp [Function.comp_def]

theorem map_toModule : t.moduleList.map (·.toModule) = s.modules := by
  rw [h.moduleList]
  exact List.ext_getElem? fun i => by simp [Function.comp_def]

theorem rows_modules : t.modules.rows = t.moduleList.map fun e => (e.name, e) := by
  rw [h.modules, h.moduleList]
  exact List.ext_getElem? fun i => by simp [Function.comp_def]

theorem nodup_names : (s.modules.map Module.name).Nodup := by
  have hkeys := t.modules.keys_nodup
  rw [h.rows_modules, List.map_map] at hkeys
  rw [← h.map_toModule, List.map_map]
  exact hkeys

theorem module? (id : ModuleId) : t.module? id = (s.module? id).map fun m => ⟨m, id⟩ := by
  show t.moduleList[id.index]? = _
  rw [h.moduleList, List.getElem?_mapIdx]
  rfl

theorem id_of_getElem? {i : Nat} {e : ModuleEntry} (he : t.moduleList[i]? = some e) :
    e.id = ⟨i⟩ := by
  rw [h.moduleList, List.getElem?_mapIdx, Option.map_eq_some_iff] at he
  obtain ⟨_, -, rfl⟩ := he
  rfl

theorem module?_eq_some_iff {id : ModuleId} {e : ModuleEntry} :
    t.module? id = some e ↔ e ∈ t.moduleList ∧ e.id = id := by
  show t.moduleList[id.index]? = some e ↔ _
  constructor
  · intro he
    exact ⟨List.mem_of_getElem? he, h.id_of_getElem? he⟩
  · rintro ⟨hmem, rfl⟩
    obtain ⟨i, hi⟩ := List.mem_iff_getElem?.1 hmem
    rw [h.id_of_getElem? hi]
    exact hi

theorem moduleNamed?_eq_some_iff {name : String} {e : ModuleEntry} :
    t.moduleNamed? name = some e ↔ e ∈ t.moduleList ∧ e.name = name := by
  unfold SourceTables.moduleNamed?
  rw [t.modules.get?_eq_some_iff, h.rows_modules, List.mem_map]
  constructor
  · rintro ⟨_, hmem, heq⟩
    cases heq
    exact ⟨hmem, rfl⟩
  · rintro ⟨hmem, rfl⟩
    exact ⟨e, hmem, rfl⟩

/-- The look-up by name finds the module at the position of the name. -/
theorem moduleNamed? (name : String) :
    t.moduleNamed? name = (s.moduleId? name).bind t.module? := by
  refine Option.ext fun e => ?_
  rw [h.moduleNamed?_eq_some_iff, Option.bind_eq_some_iff]
  simp only [Sources.moduleId?_eq_some_iff h.nodup_names, h.module?, Option.map_eq_some_iff]
  constructor
  · rintro ⟨hmem, rfl⟩
    have he := h.module?_eq_some_iff.2 ⟨hmem, rfl⟩
    rw [h.module?, Option.map_eq_some_iff] at he
    obtain ⟨m, hm, heq⟩ := he
    exact ⟨e.id, ⟨m, hm, congrArg (·.name) heq⟩, m, hm, heq⟩
  · rintro ⟨id, ⟨m, hm, rfl⟩, m', hm', rfl⟩
    cases hm.symm.trans hm'
    have he : t.module? id = some ⟨m, id⟩ := by rw [h.module?, hm, Option.map_some]
    exact ⟨(h.module?_eq_some_iff.1 he).1, rfl⟩

theorem registerModule (name : String) (custom : Bool) :
    (t.registerModule name custom).1 = (s.registerModule name custom).1 ∧
      (t.registerModule name custom).2.Holds (s.registerModule name custom).2 := by
  have hfound : t.modules.get? name = _ := h.moduleNamed? name
  have hwf := (Sources.registerModule_spec s name custom).2.2 h.wf
  unfold SourceTables.registerModule
  unfold Sources.registerModule at hwf ⊢
  cases hid : s.moduleId? name with
  | some id =>
    obtain ⟨m, hm, -⟩ := (Sources.moduleId?_eq_some_iff h.nodup_names).1 hid
    rw [hid, Option.bind_some, h.module?, hm] at hfound
    rw [hfound]
    exact ⟨rfl, h⟩
  | none =>
    rw [hid] at hwf hfound
    have hsize : t.modules.size = s.modules.length := by
      unfold Table.size
      rw [h.modules, List.length_mapIdx]
    have hnew : name ∉ t.modules.rows.map Prod.fst := by
      rw [List.mem_map]
      rintro ⟨⟨_, e⟩, he, rfl⟩
      rw [t.modules.get?_eq_some_iff.2 he] at hfound
      cases hfound
    rw [hfound]
    refine ⟨congrArg ModuleId.mk hsize, hwf, ?_, h.ids, h.paths, h.groups, h.nextFile⟩
    show Dict.put name _ t.modules.rows = _
    rw [Dict.put_of_not_mem hnew, h.modules, hsize, List.mapIdx_concat]

/-! ## Files -/

theorem fileId (path : String) :
    (t.fileId path).1 = (s.fileId path).1 ∧ (t.fileId path).2.Holds (s.fileId path).2 := by
  have hknown : t.ids.get? path = s.fileId? path := h.ids path
  have hwf := (Sources.fileId_spec s path).2.2 h.wf
  unfold SourceTables.fileId
  cases hid : s.fileId? path with
  | some id =>
    rw [hknown, hid, Sources.fileId_of_some hid]
    exact ⟨rfl, h⟩
  | none =>
    rw [hid] at hknown
    rw [hknown]
    rw [Sources.fileId_of_none hid] at hwf ⊢
    have hnext := h.nextFile
    refine ⟨congrArg FileId.mk hnext, hwf, h.modules, fun q => ?_, fun q file => ?_, h.groups,
      congrArg Nat.succ hnext⟩
    · show (t.ids.insert path _).get? q = (s.paths.insert path _).get? q
      rw [Table.get?_insert, Dict.get?_insert, hnext]
      exact congrArg _ (h.ids q)
    · show (t.paths.insert _ path).get? file = some q ↔ (t.ids.insert path _).get? q = some file
      rw [Table.get?_insert, Table.get?_insert]
      have hpath : t.paths.get? file = some q ↔ t.ids.get? q = some file := h.paths q file
      by_cases hfile : file = ⟨t.nextFile⟩
      · -- the new id is no other path's
        have hunused : t.ids.get? q ≠ some file := by
          intro hused
          have hlt := h.wf.fresh ((h.ids q).symm.trans hused)
          rw [hfile, hnext] at hlt
          exact Nat.lt_irrefl _ hlt
        rw [if_pos hfile, ← hfile]
        split
        next hq => simp [hq]
        next hq => simpa [hunused] using Ne.symm hq
      · rw [if_neg hfile, hpath]
        split
        next hq => simp [hq, hknown, Ne.symm hfile]
        next => rfl

/-- The tables of paths and ids have the same rows, turned around and moved about. -/
theorem rows_perm : (t.paths.rows.map Prod.swap).Perm t.ids.rows := by
  have hpaths : (t.paths.rows.map Prod.swap).Nodup :=
    (t.paths.keys_nodup.of_map _).map Prod.swap_injective
  refine (List.perm_ext_iff_of_nodup hpaths (t.ids.keys_nodup.of_map _)).2 fun ⟨path, file⟩ => ?_
  rw [← t.ids.get?_eq_some_iff]
  refine Iff.trans ?_ (h.paths path file)
  rw [SourceTables.path?, t.paths.get?_eq_some_iff, List.mem_map]
  constructor
  · rintro ⟨⟨f, p⟩, hrow, heq⟩
    cases heq
    exact hrow
  · exact fun hrow => ⟨(file, path), hrow, rfl⟩

/-- A removed file has no path any more. If the table of paths has no row for the file, the table of
ids has none either. -/
theorem fileId?_removeFile (file : FileId) (path : String) :
    (t.removeFile file).2.fileId? path = (s.fileId? path).filter (· != file) := by
  have hkeeps : t.paths.get? file ≠ some path →
      t.ids.get? path = (s.fileId? path).filter (· != file) := by
    intro hrow
    rw [show t.ids.get? path = s.fileId? path from h.ids path]
    cases hid : s.fileId? path with
    | none => rfl
    | some f =>
      have hne : f ≠ file := by
        rintro rfl
        exact hrow ((h.paths path f).2 ((h.ids path).trans hid))
      rw [Option.filter_some, if_pos (bne_iff_ne.2 hne)]
  unfold SourceTables.fileId?
  rw [ids_removeFile]
  cases hrow : t.paths.get? file with
  | none => exact hkeeps (by simp [hrow])
  | some p =>
    rw [Option.elim_some, Table.get?_swapRemove]
    split
    next hp =>
      have hid : t.fileId? path = some file := (h.paths path file).1 (hp ▸ hrow)
      rw [← h.ids, hid, Option.filter_some, bne_self_eq_false, if_neg Bool.false_ne_true]
    next hp => exact hkeeps (by simpa [hrow] using Ne.symm hp)

/-! ## Groups -/

theorem group? (file : FileId) : t.group? file = s.group? file := by
  unfold SourceTables.group? Table.get? Sources.group?
  rw [h.groups]
  induction s.groups with
  | nil => rfl
  | cons g gs ih =>
    rw [List.map_cons, List.lookup_cons, List.find?_cons, ih, BEq.comm]

theorem setGroup (g : Group) :
    (t.setGroup g).1 = (s.setGroup g).1 ∧ (t.setGroup g).2.Holds (s.setGroup g).2 := by
  have hput : Holds { t with groups := t.groups.insert g.file g }
      { s with groups := Sources.putGroup g s.groups } := by
    refine ⟨h.wf.sameIds ⟨rfl, rfl, rfl⟩, h.modules, h.ids, h.paths, ?_, h.nextFile⟩
    show Dict.put g.file g t.groups.rows = _
    rw [h.groups, put_map_file]
  have hstored : t.groups.get? g.file = s.group? g.file := h.group? g.file
  unfold SourceTables.setGroup Sources.setGroup
  rw [hstored]
  cases s.group? g.file with
  | none => exact ⟨rfl, hput⟩
  | some stored =>
    rw [Option.any_some]
    dsimp only
    split
    · exact ⟨rfl, h⟩
    · exact ⟨rfl, hput⟩

theorem removeFile (file : FileId) :
    (t.removeFile file).1 = (s.removeFile file).1 ∧
      (t.removeFile file).2.Holds (s.removeFile file).2 := by
  have hids : ∀ path, (t.removeFile file).2.fileId? path = (s.removeFile file).2.fileId? path := by
    intro path
    rw [h.fileId?_removeFile]
    exact (Sources.fileId?_step s (.removeFile file) path).symm
  refine ⟨congrArg Option.isSome (h.group? file), h.wf.step (.removeFile file), h.modules, hids,
    fun path f => ?_, ?_, h.nextFile⟩
  · show (t.paths.swapRemove file).2.get? f = some path ↔ _
    rw [Table.get?_swapRemove, h.fileId?_removeFile, ← h.ids, Option.filter_eq_some_iff,
      bne_iff_ne, ← h.paths]
    split
    next hf => simp [hf]
    next hf => exact (and_iff_left hf).symm
  · show Table.shiftOut file t.groups.rows = _
    rw [Table.shiftOut_eq_filter t.groups.keys_nodup, h.groups, List.filter_map]
    rfl

/-! ## Batches and merge order -/

/-- Files that are adapted after all of them have their ids, and files that are adapted one after
another, give the same groups. -/
theorem adaptFiles (files : List Record.File) :
    (t.adaptFiles files).1 = (s.adaptFiles files).1 ∧
      (t.adaptFiles files).2.Holds (s.adaptFiles files).2 := by
  induction files generalizing t s with
  | nil => exact ⟨rfl, h⟩
  | cons r files ih =>
    obtain ⟨hmodule, h⟩ := h.registerModule r.module r.custom
    obtain ⟨hid, h⟩ := h.fileId r.path
    obtain ⟨hgroups, h⟩ := ih h
    refine ⟨List.cons_eq_cons.2 ⟨?_, hgroups⟩, h⟩
    exact congrArg₂ (Group.ofRecords · · r.declarations) hid hmodule

theorem groupsInMergeOrder (order : MergeOrder) :
    t.groupsInMergeOrder order = s.groupsInMergeOrder order := by
  have hvalues : t.groups.values = s.groups := by
    unfold Table.values
    rw [h.groups, List.map_map]
    exact List.map_id _
  have hkey : t.mergeKey order = s.mergeKey order := by
    funext g
    unfold SourceTables.mergeKey SourceTables.rank Sources.mergeKey Sources.rank
    rw [h.module?]
    cases s.module? g.module <;> rfl
  unfold SourceTables.groupsInMergeOrder Sources.groupsInMergeOrder
  rw [hvalues, hkey]

end Holds

/-! ## Calls -/

def step (t : SourceTables) : Step → SourceTables
  | .registerModule name custom => (t.registerModule name custom).2
  | .fileId path => (t.fileId path).2
  | .setGroup group => (t.setGroup group).2
  | .removeFile file => (t.removeFile file).2

def call (t : SourceTables) : Call → SourceTables
  | .single c => t.step c
  | .adaptFiles files => (t.adaptFiles files).2

/-- The tables after calls. -/
def after (calls : List Call) : SourceTables := calls.foldl call {}

/-- The tables after single steps. -/
def run (t : SourceTables) (steps : List Step) : SourceTables := steps.foldl step t

/-- The ids given to paths in single steps. -/
def given (t : SourceTables) : List Step → List FileId
  | [] => []
  | .fileId path :: steps => (t.fileId path).1 :: (t.fileId path).2.given steps
  | c :: steps => (t.step c).given steps

/-- The path was given the id, and the file was not removed since. -/
def Keeps (steps : List Step) (path : String) (file : FileId) : Prop :=
  ∃ before later, steps = before ++ .fileId path :: later ∧
    ((run {} before).fileId path).1 = file ∧ Step.removeFile file ∉ later

theorem Holds.step (h : t.Holds s) (c : Step) : (t.step c).Holds (s.step c) := by
  cases c with
  | registerModule name custom => exact (h.registerModule name custom).2
  | fileId path => exact (h.fileId path).2
  | setGroup g => exact (h.setGroup g).2
  | removeFile file => exact (h.removeFile file).2

theorem Holds.run (h : t.Holds s) (steps : List Step) : (t.run steps).Holds (s.run steps) := by
  induction steps generalizing t s with
  | nil => exact h
  | cons c steps ih => exact ih (h.step c)

theorem Holds.given (h : t.Holds s) (steps : List Step) : t.given steps = s.given steps := by
  induction steps generalizing t s with
  | nil => rfl
  | cons c steps ih =>
    have hrest := ih (h.step c)
    cases c with
    | fileId path => exact List.cons_eq_cons.2 ⟨(h.fileId path).1, hrest⟩
    | _ => exact hrest

/-- Adapting records takes their modules and ids one after another, and the groups are of the ids
given. -/
theorem adaptFiles_steps (files : List Record.File) (t : SourceTables) :
    (t.adaptFiles files).2 = t.run (Call.adaptFiles files).steps ∧
      (t.adaptFiles files).1.map Group.file = t.given (Call.adaptFiles files).steps := by
  induction files generalizing t with
  | nil => exact ⟨rfl, rfl⟩
  | cons r files ih =>
    obtain ⟨hrun, hgiven⟩ := ih ((t.registerModule r.module r.custom).2.fileId r.path).2
    exact ⟨hrun, congrArg _ hgiven⟩

theorem after_eq (calls : List Call) : after calls = run {} (history calls) := by
  unfold after history
  generalize ({} : SourceTables) = t
  induction calls generalizing t with
  | nil => rfl
  | cons c calls ih =>
    have hcall : t.call c = t.run c.steps := by
      cases c with
      | single c => rfl
      | adaptFiles files => exact (adaptFiles_steps files t).1
    rw [List.foldl_cons, ih, hcall, List.flatMap_cons]
    exact List.foldl_append.symm

/-- Tables hold the sources that the same calls lead to. -/
theorem holds_after (calls : List Call) : (after calls).Holds (Sources.after calls) := by
  rw [after_eq, Sources.after_eq]
  exact holds_empty.run _

theorem keeps_iff {steps : List Step} {path : String} {file : FileId} :
    Keeps steps path file ↔ Sources.Keeps steps path file := by
  unfold Keeps Sources.Keeps
  simp only [fun before => ((holds_empty.run before).fileId path).1]

/-! ## Answers -/

/-- Tables answer every question and every call as sources do. -/
structure Answers (t : SourceTables) (s : Sources) : Prop where
  modules : t.moduleList.map (·.toModule) = s.modules
  moduleAt : ∀ id, (t.module? id).map (·.toModule) = s.module? id
  moduleNamed : ∀ name, (t.moduleNamed? name).map (·.id) = s.moduleId? name
  known : ∀ path, t.fileId? path = s.fileId? path
  path : ∀ file, t.path? file = s.path? file
  group : ∀ file, t.group? file = s.group? file
  mergeOrder : ∀ order, t.groupsInMergeOrder order = s.groupsInMergeOrder order
  registers : ∀ name custom, (t.registerModule name custom).1 = (s.registerModule name custom).1
  gives : ∀ path, (t.fileId path).1 = (s.fileId path).1
  sets : ∀ g, (t.setGroup g).1 = (s.setGroup g).1
  removes : ∀ file, (t.removeFile file).1 = (s.removeFile file).1
  adapts : ∀ files, (t.adaptFiles files).1 = (s.adaptFiles files).1

theorem Holds.answers (h : t.Holds s) : t.Answers s where
  modules := h.map_toModule
  moduleAt id := by
    rw [h.module?, Option.map_map]
    exact Option.map_id'
  moduleNamed name := by
    rw [h.moduleNamed?]
    cases hid : s.moduleId? name with
    | none => rfl
    | some id =>
      obtain ⟨m, hm, -⟩ := (Sources.moduleId?_eq_some_iff h.nodup_names).1 hid
      rw [Option.bind_some, h.module?, hm]
      rfl
  known := h.ids
  path file := by
    refine Option.ext fun path => ?_
    rw [h.paths, h.ids, Sources.path?_eq_some_iff h.wf]
  group := h.group?
  mergeOrder := h.groupsInMergeOrder
  registers name custom := (h.registerModule name custom).1
  gives path := (h.fileId path).1
  sets g := (h.setGroup g).1
  removes file := (h.removeFile file).1
  adapts files := (h.adaptFiles files).1

/-- After the same calls tables and sources answer alike. -/
theorem answers_after (calls : List Call) : (after calls).Answers (Sources.after calls) :=
  (holds_after calls).answers

/-! ## Identity -/

/-- Ids, modules and groups in tables are told by the history of steps. -/
structure Identified (steps : List Step) (t : SourceTables) : Prop where
  /-- The tables of paths and ids are inverse to each other, … -/
  inverse : ∀ path file, t.path? file = some path ↔ t.fileId? path = some file
  /-- … row by row. -/
  rows : (t.paths.rows.map Prod.swap).Perm t.ids.rows
  /-- A path is known under an id as long as it keeps it. -/
  known : ∀ path file, t.fileId? path = some file ↔ Keeps steps path file
  stable : ∀ path file, Keeps steps path file → t.fileId path = (file, t)
  fresh : ∀ path, t.fileId? path = none → (t.fileId path).1 ∉ given {} steps
  /-- The ids given so far, to files still there and to removed ones, are those below the counter. -/
  counted : ∀ file, file ∈ given {} steps ↔ file.index < t.nextFile
  adapted : ∀ files, (t.adaptFiles files).1.map Group.file = t.given (Call.adaptFiles files).steps
  distinct : (t.moduleList.map (·.name)).Nodup
  inOrder : t.moduleList.map (·.name) = ((registrations steps).map Module.name).eraseDups
  /-- The id that is stored with a module is its position. -/
  positions : ∀ (i : Nat) (m : ModuleEntry), t.moduleList[i]? = some m → m.id = ⟨i⟩
  byId : ∀ id m, t.module? id = some m ↔ m ∈ t.moduleList ∧ m.id = id
  byName : ∀ name m, t.moduleNamed? name = some m ↔ m ∈ t.moduleList ∧ m.name = name
  /-- A name has the id that every registration of it was answered with. -/
  registered : ∀ before name custom later, steps = before ++ .registerModule name custom :: later →
    ∃ m, t.moduleNamed? name = some m ∧ m.id = ((run {} before).registerModule name custom).1
  flags : ∀ m ∈ t.moduleList,
    (registrations steps).find? (fun r => r.name == m.name) = some m.toModule
  oneGroup : (t.groups.values.map Group.file).Nodup
  ownFile : ∀ file g, t.group? file = some g → g.file = file
  lastSet : ∀ file, AsGiven (t.group? file) (lastGroup? file steps)

/-- After any calls, ids, modules and groups are as the history tells. -/
theorem identified_after (calls : List Call) : Identified (history calls) (after calls) := by
  have h := holds_after calls
  have hanswers := answers_after calls
  rw [Sources.after_eq] at h hanswers
  generalize history calls = steps at h hanswers ⊢
  generalize after calls = t at h hanswers ⊢
  have hnext : ∀ file, file ∈ given {} steps ↔ file.index < t.nextFile := by
    intro file
    rw [holds_empty.given, h.nextFile]
    exact ⟨Sources.lt_nextFile_of_mem_given Sources.wf_empty,
      Sources.mem_given_of_lt steps (Nat.zero_le _)⟩
  have hknown : ∀ path file, t.fileId? path = some file ↔ Keeps steps path file := by
    intro path file
    rw [keeps_iff, ← Sources.fileId?_run_iff, hanswers.known]
  have hnames : t.moduleList.map (·.name) = ((registrations steps).map Module.name).eraseDups := by
    rw [← Sources.names_run, ← hanswers.modules, List.map_map]
    rfl
  constructor
  case inverse => exact h.paths
  case rows => exact h.rows_perm
  case known => exact hknown
  case stable =>
    intro path file hkeeps
    have hid : t.ids.get? path = some file := (hknown path file).2 hkeeps
    unfold fileId
    rw [hid]
  case fresh =>
    intro path hnone
    have hid : t.ids.get? path = none := hnone
    rw [hnext]
    unfold fileId
    rw [hid]
    exact Nat.lt_irrefl _
  case counted => exact hnext
  case adapted =>
    intro files
    exact (adaptFiles_steps files t).2
  case distinct =>
    rw [hnames]
    exact Dict.nodup_eraseDups _
  case inOrder => exact hnames
  case positions => exact fun i m => h.id_of_getElem?
  case byId => exact fun id m => h.module?_eq_some_iff
  case byName => exact fun name m => h.moduleNamed?_eq_some_iff
  case registered =>
    rintro before name custom later rfl
    have hid := hanswers.moduleNamed name
    rw [Sources.moduleId?_run_of_registered, Option.map_eq_some_iff] at hid
    obtain ⟨m, hm, hid⟩ := hid
    exact ⟨m, hm, hid.trans ((holds_empty.run before).registerModule name custom).1.symm⟩
  case flags =>
    intro m hm
    exact Sources.find?_registrations_run steps m.toModule
      (hanswers.modules ▸ List.mem_map_of_mem hm)
  case oneGroup =>
    have hkeys : t.groups.values.map Group.file = t.groups.rows.map Prod.fst := by
      unfold Table.values
      rw [h.groups, List.map_map, List.map_map, List.map_map]
      rfl
    exact hkeys ▸ t.groups.keys_nodup
  case ownFile =>
    intro file g hg
    rw [hanswers.group] at hg
    simpa using List.find?_some hg
  case lastSet =>
    intro file
    rw [hanswers.group]
    exact AsGiven.run (s := {}) .none steps

/-- The file of `a` is removed, which moves the row of `c` up in both tables; asked for again, `a` gets
another id. -/
example : (after [.single (.fileId "a"), .single (.fileId "b"), .single (.fileId "c"),
    .single (.removeFile ⟨0⟩), .adaptFiles [{ path := "a", module := "m" }]]).ids.rows =
      [("c", ⟨2⟩), ("b", ⟨1⟩), ("a", ⟨3⟩)] := by
  decide

end SourceTables

end TypeAtlas
