/-
Histories of sources. After any calls a path is known under the id that it was given last, until the
file is removed; the ids given are exactly those below the counter of files; modules stand in the
order of their first registration, with the flag of that registration; and a file has at most one
group, the one set last since it was removed last.

A batch of records is adapted by registering modules and asking for ids, so everything is said about
histories of single steps. What one step does to each table is an equation (`fileId?_step`,
`modules_step`, `AsGiven.step`), and the statements follow along the history.
-/
import TypeAtlas.Proofs.Sources

namespace TypeAtlas.Sources

/-! ## Histories -/

/-- A single change of sources. -/
inductive Step where
  | registerModule (name : String) (custom : Bool)
  | fileId (path : String)
  | setGroup (group : Group)
  | removeFile (file : FileId)

/-- A call on sources. -/
inductive Call where
  | single (step : Step)
  | adaptFiles (files : List Record.File)

def step (s : Sources) : Step → Sources
  | .registerModule name custom => (s.registerModule name custom).2
  | .fileId path => (s.fileId path).2
  | .setGroup group => (s.setGroup group).2
  | .removeFile file => (s.removeFile file).2

def call (s : Sources) : Call → Sources
  | .single c => s.step c
  | .adaptFiles files => (s.adaptFiles files).2

/-- The sources after calls. -/
def after (calls : List Call) : Sources := calls.foldl call {}

/-- The sources after single steps. -/
def run (s : Sources) (steps : List Step) : Sources := steps.foldl step s

/-- The single steps of a call. -/
def Call.steps : Call → List Step
  | .single c => [c]
  | .adaptFiles files =>
    files.flatMap fun r => [.registerModule r.module r.custom, .fileId r.path]

/-- The single steps of calls. -/
def history (calls : List Call) : List Step := calls.flatMap Call.steps

/-- The ids given to paths in single steps. -/
def given (s : Sources) : List Step → List FileId
  | [] => []
  | .fileId path :: steps => (s.fileId path).1 :: (s.fileId path).2.given steps
  | c :: steps => (s.step c).given steps

/-- The path was given the id, and the file was not removed since. -/
def Keeps (steps : List Step) (path : String) (file : FileId) : Prop :=
  ∃ before later, steps = before ++ .fileId path :: later ∧
    ((run {} before).fileId path).1 = file ∧ Step.removeFile file ∉ later

/-- The registrations among single steps. -/
def registrations (steps : List Step) : List Module :=
  steps.filterMap fun
    | .registerModule name custom => some ⟨name, custom⟩
    | _ => none

/-- The group of a file after one more step, as it was given. -/
def regroup (file : FileId) (held : Option Group) : Step → Option Group
  | .setGroup g => if g.file = file then some g else held
  | .removeFile f => if f = file then none else held
  | _ => held

/-- The group set last for a file since the file was removed last. -/
def lastGroup? (file : FileId) (steps : List Step) : Option Group :=
  steps.foldl (regroup file) none

/-! ## Calls as steps -/

theorem run_append (s : Sources) (before later : List Step) :
    s.run (before ++ later) = (s.run before).run later := List.foldl_append

/-- Adapting records takes their modules and ids one after another, and the groups are of the ids
given. -/
theorem adaptFiles_steps (files : List Record.File) (s : Sources) :
    (s.adaptFiles files).2 = s.run (Call.adaptFiles files).steps ∧
      (s.adaptFiles files).1.map Group.file = s.given (Call.adaptFiles files).steps := by
  induction files generalizing s with
  | nil => exact ⟨rfl, rfl⟩
  | cons r files ih =>
    obtain ⟨hrun, hgiven⟩ := ih (s.adaptFile r).2
    exact ⟨hrun, congrArg _ hgiven⟩

theorem run_steps (s : Sources) (c : Call) : s.run c.steps = s.call c := by
  cases c with
  | single c => rfl
  | adaptFiles files => exact (adaptFiles_steps files s).1.symm

theorem after_eq (calls : List Call) : after calls = run {} (history calls) := by
  unfold after history
  generalize ({} : Sources) = s
  induction calls generalizing s with
  | nil => rfl
  | cons c calls ih => rw [List.foldl_cons, List.flatMap_cons, run_append, run_steps, ih]

/-! ## Ids of files -/

theorem fileId_of_some {s : Sources} {path : String} {file : FileId}
    (h : s.fileId? path = some file) : s.fileId path = (file, s) := by
  unfold fileId
  rw [h]

theorem fileId_of_none {s : Sources} {path : String} (h : s.fileId? path = none) :
    s.fileId path = (⟨s.nextFile⟩,
      { s with paths := s.paths.insert path ⟨s.nextFile⟩, nextFile := s.nextFile + 1 }) := by
  unfold fileId
  rw [h]

theorem registerModule_eq (s : Sources) (name : String) (custom : Bool) :
    (s.registerModule name custom).2 = { s with modules :=
      if (s.moduleId? name).isSome then s.modules else s.modules ++ [⟨name, custom⟩] } := by
  unfold registerModule
  cases s.moduleId? name <;> rfl

theorem fileId?_step (s : Sources) (c : Step) (path : String) :
    (s.step c).fileId? path =
      match c with
      | .fileId p => if p = path then some (s.fileId p).1 else s.fileId? path
      | .removeFile file => (s.fileId? path).filter (· != file)
      | _ => s.fileId? path := by
  cases c with
  | registerModule name custom =>
    show (s.registerModule name custom).2.fileId? path = _
    rw [registerModule_eq]
    rfl
  | fileId p =>
    show (s.fileId p).2.fileId? path = if p = path then some (s.fileId p).1 else s.fileId? path
    cases hp : s.fileId? p with
    | some file =>
      rw [fileId_of_some hp]
      split <;> rename_i heq
      · rw [← heq, hp]
      · rfl
    | none =>
      rw [fileId_of_none hp]
      simp only [eq_comm (a := p)]
      exact s.paths.get?_insert p _ path
  | setGroup g => exact (setGroup_sameIds s g).fileId? path
  | removeFile file => exact s.paths.get?_filter _ path

theorem nextFile_step (s : Sources) (c : Step) : s.nextFile ≤ (s.step c).nextFile := by
  cases c with
  | registerModule name custom =>
    show s.nextFile ≤ (s.registerModule name custom).2.nextFile
    simp [registerModule_eq]
  | fileId p =>
    show s.nextFile ≤ (s.fileId p).2.nextFile
    cases hp : s.fileId? p with
    | some file => simp [fileId_of_some hp]
    | none => simp [fileId_of_none hp]
  | setGroup g => exact Nat.le_of_eq (setGroup_sameIds s g).nextFile.symm
  | removeFile file => exact Nat.le_refl _

theorem WF.step {s : Sources} (h : s.WF) (c : Step) : (s.step c).WF := by
  cases c with
  | registerModule name custom => exact (registerModule_spec s name custom).2.2 h
  | fileId p => exact (fileId_spec s p).2.2 h
  | setGroup g => exact h.sameIds (setGroup_sameIds s g)
  | removeFile file =>
    have hold : ∀ {q f}, (s.removeFile file).2.fileId? q = some f → s.fileId? q = some f := by
      intro q f hq
      rw [show (s.removeFile file).2.fileId? q = _ from fileId?_step s (.removeFile file) q] at hq
      exact (Option.filter_eq_some_iff.1 hq).1
    exact ⟨fun hp hq => h.injective (hold hp) (hold hq), fun hp => h.fresh (hold hp)⟩

theorem WF.run {s : Sources} (h : s.WF) (steps : List Step) : (s.run steps).WF := by
  induction steps generalizing s with
  | nil => exact h
  | cons c steps ih => exact ih (h.step c)

theorem nextFile_run (s : Sources) (steps : List Step) : s.nextFile ≤ (s.run steps).nextFile := by
  induction steps generalizing s with
  | nil => exact Nat.le_refl _
  | cons c steps ih => exact Nat.le_trans (nextFile_step s c) (ih _)

/-- Every id that was given is below the counter, whether its file is still there or not. -/
theorem lt_nextFile_of_mem_given {s : Sources} (h : s.WF) {steps : List Step} {file : FileId}
    (hf : file ∈ s.given steps) : file.index < (s.run steps).nextFile := by
  induction steps generalizing s with
  | nil => cases hf
  | cons c steps ih =>
    cases c with
    | fileId p =>
      rcases List.mem_cons.1 hf with rfl | hf
      · obtain ⟨-, hid, hw⟩ := fileId_spec s p
        exact Nat.lt_of_lt_of_le ((hw h).fresh hid) (nextFile_run _ steps)
      · exact ih (h.step (.fileId p)) hf
    | registerModule name custom => exact ih (h.step (.registerModule name custom)) hf
    | setGroup g => exact ih (h.step (.setGroup g)) hf
    | removeFile f => exact ih (h.step (.removeFile f)) hf

/-- Every id that the counter went past was given. -/
theorem mem_given_of_lt (steps : List Step) {s : Sources} {file : FileId}
    (hle : s.nextFile ≤ file.index) (hlt : file.index < (s.run steps).nextFile) :
    file ∈ s.given steps := by
  induction steps generalizing s with
  | nil => exact absurd hlt (Nat.not_lt.2 hle)
  | cons c steps ih =>
    -- only a path that is not known moves the counter, and by one
    have hnext : (s.step c).nextFile = s.nextFile → file ∈ (s.step c).given steps := fun hsame =>
      ih (hsame ▸ hle) hlt
    cases c with
    | registerModule name custom =>
      refine hnext ?_
      show (s.registerModule name custom).2.nextFile = s.nextFile
      rw [registerModule_eq]
    | setGroup g => exact hnext (setGroup_sameIds s g).nextFile
    | removeFile f => exact hnext rfl
    | fileId p =>
      cases hp : s.fileId? p with
      | some f =>
        refine List.mem_cons_of_mem _ (hnext ?_)
        show (s.fileId p).2.nextFile = s.nextFile
        rw [fileId_of_some hp]
      | none =>
        show file ∈ (s.fileId p).1 :: (s.fileId p).2.given steps
        replace hlt : file.index < ((s.fileId p).2.run steps).nextFile := hlt
        rw [fileId_of_none hp] at hlt ⊢
        rcases Nat.eq_or_lt_of_le hle with heq | hgt
        · exact List.mem_cons.2 (.inl (congrArg FileId.mk heq.symm))
        · exact List.mem_cons_of_mem _ (ih hgt hlt)

theorem path?_eq_some_iff {s : Sources} (h : s.WF) {path : String} {file : FileId} :
    s.path? file = some path ↔ s.fileId? path = some file := by
  unfold path? fileId?
  rw [Option.map_eq_some_iff, s.paths.get?_eq_some_iff]
  constructor
  · rintro ⟨⟨p, f⟩, hfind, rfl⟩
    have hf : f = file := by simpa using List.find?_some hfind
    exact hf ▸ List.mem_of_find?_eq_some hfind
  · intro hmem
    cases hfind : s.paths.entries.find? fun row => row.2 == file with
    | none => simpa using List.find?_eq_none.1 hfind _ hmem
    | some row =>
      obtain ⟨p, f⟩ := row
      have hf : f = file := by simpa using List.find?_some hfind
      subst hf
      -- two paths with one id are one path
      have hp := s.paths.get?_eq_some_iff.2 (List.mem_of_find?_eq_some hfind)
      exact ⟨(p, f), rfl, h.injective hp (s.paths.get?_eq_some_iff.2 hmem)⟩

/-- One more step takes the id away, gives it, or leaves what was. -/
theorem keeps_concat {steps : List Step} {c : Step} {path : String} {file : FileId} :
    Keeps (steps ++ [c]) path file ↔
      (c = .fileId path ∧ ((run {} steps).fileId path).1 = file) ∨
        (c ≠ .removeFile file ∧ Keeps steps path file) := by
  constructor
  · rintro ⟨before, later, heq, hid, hnot⟩
    rcases List.eq_nil_or_concat' later with rfl | ⟨later, last, rfl⟩
    · obtain ⟨rfl, hc⟩ := List.append_inj' heq rfl
      cases hc
      exact .inl ⟨rfl, hid⟩
    · rw [← List.cons_append, ← List.append_assoc] at heq
      obtain ⟨rfl, hc⟩ := List.append_inj' heq rfl
      cases hc
      simp only [List.mem_append, List.mem_singleton, not_or] at hnot
      exact .inr ⟨Ne.symm hnot.2, before, later, rfl, hid, hnot.1⟩
  · rintro (⟨rfl, hid⟩ | ⟨hne, before, later, rfl, hid, hnot⟩)
    · exact ⟨steps, [], rfl, hid, List.not_mem_nil⟩
    · refine ⟨before, later ++ [c], by simp, hid, ?_⟩
      simp [hnot, Ne.symm hne]

/-- A path is known exactly while it keeps an id. -/
theorem fileId?_run_iff (steps : List Step) (path : String) (file : FileId) :
    (run {} steps).fileId? path = some file ↔ Keeps steps path file := by
  induction steps using List.reverseRecOn with
  | nil => exact iff_of_false nofun fun ⟨before, later, h, _⟩ => by simp at h
  | append_singleton steps c ih =>
    rw [run_append, keeps_concat, ← ih]
    generalize run {} steps = s
    show (s.step c).fileId? path = some file ↔ _
    rw [fileId?_step]
    cases c with
    | registerModule name custom => simp
    | setGroup g => simp
    | removeFile f =>
      rw [Option.filter_eq_some_iff, and_comm]
      simp [eq_comm (a := f)]
    | fileId p =>
      by_cases hp : p = path
      · subst hp
        simp only [if_true, Option.some.injEq, true_and, ne_eq, reduceCtorEq, not_false_eq_true]
        refine ⟨.inl, fun h => h.elim id fun h => ?_⟩
        rw [fileId_of_some h]
      · simp [hp]

/-! ## Modules -/

theorem modules_step (s : Sources) (c : Step) :
    (s.step c).modules =
      match c with
      | .registerModule name custom =>
        if (s.moduleId? name).isSome then s.modules else s.modules ++ [⟨name, custom⟩]
      | _ => s.modules := by
  cases c with
  | registerModule name custom => exact congrArg Sources.modules (registerModule_eq s name custom)
  | fileId p =>
    show (s.fileId p).2.modules = s.modules
    cases hp : s.fileId? p with
    | some file => rw [fileId_of_some hp]
    | none => rw [fileId_of_none hp]
  | setGroup g => exact (setGroup_sameIds s g).modules
  | removeFile file => rfl

theorem moduleId?_isSome_iff {s : Sources} {name : String} :
    (s.moduleId? name).isSome ↔ name ∈ s.modules.map Module.name := by
  unfold moduleId?
  simp

/-- Where names do not repeat, the id of a name is the position of the module with this name. -/
theorem moduleId?_eq_some_iff {s : Sources} (hdistinct : (s.modules.map Module.name).Nodup)
    {name : String} {id : ModuleId} :
    s.moduleId? name = some id ↔ ∃ m, s.module? id = some m ∧ m.name = name := by
  unfold moduleId? module?
  rw [Option.map_eq_some_iff, ← Dict.findIdx?_key_eq_some_iff hdistinct]
  constructor
  · rintro ⟨i, hi, rfl⟩
    exact hi
  · exact fun h => ⟨id.index, h, rfl⟩

theorem modules_prefix_run (s : Sources) (steps : List Step) :
    s.modules <+: (s.run steps).modules := by
  induction steps generalizing s with
  | nil => exact List.prefix_rfl
  | cons c steps ih =>
    refine List.IsPrefix.trans ?_ (ih (s.step c))
    rw [modules_step]
    split
    · split
      · exact List.prefix_rfl
      · exact List.prefix_append _ _
    · exact List.prefix_rfl

/-- A registered name keeps the id that it was registered under. -/
theorem moduleId?_run_of_registered (before later : List Step) (name : String) (custom : Bool) :
    (run {} (before ++ .registerModule name custom :: later)).moduleId? name =
      some ((run {} before).registerModule name custom).1 := by
  rw [run_append]
  exact moduleId?_of_modules (modules_prefix_run _ later)
    (registerModule_spec (run {} before) name custom).2.1

theorem registrations_append (before later : List Step) :
    registrations (before ++ later) = registrations before ++ registrations later :=
  List.filterMap_append

/-- Modules stand in the order of their first registration. -/
theorem names_run (steps : List Step) :
    (run {} steps).modules.map Module.name =
      ((registrations steps).map Module.name).eraseDups := by
  induction steps using List.reverseRecOn with
  | nil => rfl
  | append_singleton steps c ih =>
    rw [run_append, registrations_append, List.map_append]
    generalize run {} steps = s at ih
    show (s.step c).modules.map Module.name = _
    rw [modules_step]
    cases c with
    | registerModule name custom =>
      have hconcat := Dict.eraseDups_concat ((registrations steps).map Module.name) name
      rw [← ih] at hconcat
      show _ = (_ ++ [name]).eraseDups
      simp only [hconcat, moduleId?_isSome_iff, ih, List.mem_eraseDups]
      split <;> simp [ih]
    | _ => simpa [registrations] using ih

/-- A module has the flag of its first registration. -/
theorem find?_registrations_run (steps : List Step) :
    ∀ m ∈ (run {} steps).modules,
      (registrations steps).find? (fun r => r.name == m.name) = some m := by
  induction steps using List.reverseRecOn with
  | nil => nofun
  | append_singleton steps c ih =>
    intro m hm
    have hnames := names_run steps
    rw [run_append] at hm
    generalize run {} steps = s at ih hnames hm
    replace hm : m ∈ (s.step c).modules := hm
    rw [modules_step] at hm
    rw [registrations_append, List.find?_append]
    -- what stood before was found before, and what is new was never registered
    have hold : m ∈ s.modules → ((registrations steps).find? (fun r => r.name == m.name)).or
        ((registrations [c]).find? fun r => r.name == m.name) = some m := by
      intro h
      rw [ih m h]
      rfl
    cases c with
    | registerModule name custom =>
      simp only at hm
      split at hm
      · exact hold hm
      · rename_i hnew
        rcases List.mem_append.1 hm with hm | hm
        · exact hold hm
        · rw [List.mem_singleton.1 hm]
          rw [moduleId?_isSome_iff, hnames, List.mem_eraseDups] at hnew
          have hnone : (registrations steps).find? (fun r => r.name == name) = none := by
            rw [List.find?_eq_none]
            intro r hr
            simpa using fun h => hnew (List.mem_map.2 ⟨r, hr, h⟩)
          rw [hnone]
          simp [registrations]
    | _ => exact hold hm

/-! ## Groups -/

theorem map_file_putGroup (g : Group) (gs : List Group) :
    (putGroup g gs).map Group.file =
      if g.file ∈ gs.map Group.file then gs.map Group.file else gs.map Group.file ++ [g.file] := by
  induction gs with
  | nil => rfl
  | cons a gs ih =>
    by_cases ha : a.file = g.file
    · simp [putGroup, ha]
    · have ha' : ¬g.file = a.file := fun h => ha h.symm
      simp only [putGroup, if_neg ha, List.map_cons, ih, List.mem_cons, ha', false_or]
      split <;> rfl

theorem nodup_files_step {s : Sources} (h : (s.groups.map Group.file).Nodup) (c : Step) :
    ((s.step c).groups.map Group.file).Nodup := by
  cases c with
  | registerModule name custom => exact (registerModule_spec s name custom).1.groups ▸ h
  | fileId p => exact (fileId_spec s p).1.groups ▸ h
  | setGroup g =>
    show ((s.setGroup g).2.groups.map Group.file).Nodup
    obtain ⟨_, -, -, heq⟩ | heq := setGroup_cases s g <;> rw [heq]
    · exact h
    · show ((putGroup g s.groups).map Group.file).Nodup
      rw [map_file_putGroup]
      split
      · exact h
      · rename_i hnew
        exact h.append (List.nodup_singleton _) (by simpa using hnew)
  | removeFile file => exact h.sublist (List.filter_sublist.map Group.file)

theorem nodup_files_run (steps : List Step) {s : Sources} (h : (s.groups.map Group.file).Nodup) :
    ((s.run steps).groups.map Group.file).Nodup := by
  induction steps generalizing s with
  | nil => exact h
  | cons c steps ih => exact ih (nodup_files_step h c)

/-- A stored group and the group that was given for it, equal but for the order of keys, or none. -/
def AsGiven : Option Group → Option Group → Prop := Option.Rel fun stored g => (stored == g) = true

/-- One step changes the group of a file as it is told to. -/
theorem AsGiven.step {s : Sources} {file : FileId} {held : Option Group}
    (h : AsGiven (s.group? file) held) (c : Step) :
    AsGiven ((s.step c).group? file) (regroup file held c) := by
  cases c with
  | registerModule name custom =>
    have heq : (s.registerModule name custom).2.group? file = s.group? file := by
      unfold group?
      rw [(registerModule_spec s name custom).1.groups]
    exact heq ▸ h
  | fileId p =>
    have heq : (s.fileId p).2.group? file = s.group? file := by
      unfold group?
      rw [(fileId_spec s p).1.groups]
    exact heq ▸ h
  | setGroup g =>
    show AsGiven ((s.setGroup g).2.group? file) (if g.file = file then some g else held)
    split <;> rename_i hg
    · obtain ⟨stored, hstored, heq⟩ := stores_setGroup s g
      rw [← hg, hstored]
      exact .some heq
    · rw [group?_setGroup_of_ne s hg]
      exact h
  | removeFile f =>
    show AsGiven ((s.removeFile f).2.group? file) (if f = file then none else held)
    rw [group?_removeFile]
    split
    · exact .none
    · exact h

theorem AsGiven.run {s : Sources} {file : FileId} {held : Option Group}
    (h : AsGiven (s.group? file) held) (steps : List Step) :
    AsGiven ((s.run steps).group? file) (steps.foldl (regroup file) held) := by
  induction steps generalizing s held with
  | nil => exact h
  | cons c steps ih => exact ih (h.step c)

end TypeAtlas.Sources
