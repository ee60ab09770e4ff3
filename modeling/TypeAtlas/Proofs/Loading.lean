/-
Loading a directory into a host. Main statement: for every tree, a host takes over all batches below
the directory, as one edit that sets their files in the order in which a visit meets them, or it
reports exactly those that cannot be loaded, in the same order, and stays as it was.

What one batch gives (`Gives`) depends on its path and its content only. The whole is then decided by
the list of what the batches give.
-/
import TypeAtlas.Proofs.Directories

namespace TypeAtlas

/-! ## One batch -/

/-- What the batch at a path gives: the file record that its content spells, or why there is none. -/
inductive Gives (path : String) : Content → Except LoadError Record.File → Prop
  | unread (cause : ReadFailure) : Gives path (.error cause) (.error (.unreadable path cause.text))
  | notText {bytes : ByteArray} (hbytes : String.fromUTF8? bytes = none) :
    Gives path (.ok bytes) (.error (.unreadable path ReadFailure.invalidText.text))
  | noRecord {bytes : ByteArray} {text : String} (hbytes : String.fromUTF8? bytes = some text)
      (htext : Record.parseFile? text = none) : Gives path (.ok bytes) (.error (.malformed path))
  | named {bytes : ByteArray} {text : String} {file : Record.File}
      (hbytes : String.fromUTF8? bytes = some text) (htext : Record.parseFile? text = some file)
      (hpath : file.path ≠ "") : Gives path (.ok bytes) (.ok file)
  | unnamed {bytes : ByteArray} {text : String} {file : Record.File}
      (hbytes : String.fromUTF8? bytes = some text) (htext : Record.parseFile? text = some file)
      (hpath : file.path = "") : Gives path (.ok bytes) (.ok { file with path })

theorem gives_decodeBatch (path : String) (content : Content) :
    Gives path content (decodeBatch path content) := by
  unfold decodeBatch
  split
  next cause => exact .unread cause
  next bytes =>
    split
    next hbytes => exact .notText hbytes
    next text hbytes =>
      split
      next htext => exact .noRecord hbytes htext
      next file htext =>
        by_cases hpath : file.path = ""
        · rw [if_pos (String.isEmpty_iff.2 hpath)]
          exact .unnamed hbytes htext hpath
        · rw [if_neg (mt String.isEmpty_iff.1 hpath)]
          exact .named hbytes htext hpath

/-! ## What fails -/

/-- The failures among results. -/
def failures (results : List (Except LoadError Record.File)) : List LoadError :=
  results.filterMap fun r =>
    match r with
    | .ok _ => none
    | .error e => some e

theorem failures_map_ok (files : List Record.File) : failures (files.map .ok) = [] := by
  simp [failures]

theorem filterMap_toOption_map_ok (files : List Record.File) :
    (files.map .ok : List (Except LoadError Record.File)).filterMap Except.toOption = files := by
  rw [List.filterMap_map]
  exact List.filterMap_some

theorem mem_failures {results : List (Except LoadError Record.File)} {e : LoadError} :
    e ∈ failures results ↔ .error e ∈ results := by
  unfold failures
  rw [List.mem_filterMap]
  constructor
  · rintro ⟨r | r, hr, he⟩
    · cases he
      exact hr
    · cases he
  · intro he
    exact ⟨_, he, rfl⟩

/-! ## All batches -/

namespace Volume

/-- The batches below a directory with their ways from there: all files with the extension, in the
order in which a visit meets them, which is that of their ways. -/
structure BatchesBelow (v : Volume) (d : Path) (batches : List (Path × Content)) : Prop where
  mem : ∀ way content, (way, content) ∈ batches ↔
    (d ++ way, content) ∈ v.files ∧ ∃ before stem, stem ≠ "" ∧ way = before ++ [stem ++ ".json"]
  inOrder : batches.Pairwise fun a b => Precedes a.1 b.1
  visited : ∃ visit, v.Visits d visit
  met : ∀ visit, v.Visits d visit → (batches.map fun b => (d ++ b.1, b.2)).Sublist visit

theorem batchesBelow_batches {v : Volume} (hv : v.WF) {d : Path} (hd : d ∈ v.directories) :
    v.BatchesBelow d (v.batches d) where
  mem way content := (mem_batches_iff hv hd).trans (and_congr_right' isBatch_iff)
  inOrder := by
    obtain ⟨visit, hvisit⟩ := exists_visits hd
    rw [batches_eq hv hvisit]
    exact (batchesOf_sorted hv hvisit).imp precedes_iff.2
  visited := exists_visits hd
  met visit hvisit := by
    have hways : (batchesOf d visit).map (fun b => (d ++ b.1, b.2)) =
        visit.filter fun f => isBatch f.1 := by
      unfold batchesOf
      rw [List.map_map]
      refine (List.map_congr_left fun f hf => ?_).trans (List.map_id _)
      exact Prod.ext (hvisit.append_drop hv (List.mem_filter.1 hf).1) rfl
    rw [batches_eq hv hvisit, hways]
    exact List.filter_sublist

/-- What the batches below a directory give, when it is reached by a path. -/
def results (v : Volume) (path : String) (d : Path) : List (Except LoadError Record.File) :=
  (v.batches d).map fun b => decodeBatch (shownBelow (v.shown path) b.1) b.2

theorem loadDirectory_eq {v : Volume} {path : String} {d : Path}
    (hd : v.place path = .ok (.directory d)) :
    v.loadDirectory path =
      if failures (v.results path d) = [] then .ok ((v.results path d).filterMap Except.toOption)
      else .error (.many (failures (v.results path d))) := by
  unfold loadDirectory
  rw [hd]
  simp only [← List.isEmpty_iff]
  rfl

theorem loadDirectory_of_not_directory {v : Volume} {path : String}
    (hnot : ∀ d, v.place path ≠ .ok (.directory d)) :
    v.loadDirectory path = .error (.notADirectory (v.shown path)) := by
  unfold loadDirectory
  split
  next d hd => exact absurd hd (hnot d)
  next => rfl

theorem forall₂_results {v : Volume} (hv : v.WF) {path : String} {d : Path}
    (hd : v.place path = .ok (.directory d)) :
    List.Forall₂ (fun b r => Gives (shownBelow (v.shown path) b.1) b.2 r ∧
      v.loadFile (below path b.1) = r) (v.batches d) (v.results path d) := by
  unfold results
  rw [List.forall₂_map_right_iff, List.forall₂_same]
  intro b hb
  obtain ⟨hf, -⟩ := (mem_batches_iff hv (mem_of_place hd)).1 hb
  exact ⟨gives_decodeBatch _ _, loadFile_below hv hd hf⟩

end Volume

/-! ## Taking over -/

namespace Host

open Volume

/-- A host takes over the batches below a directory as a whole or not at all. -/
structure TakesWhole (h : Host) (v : Volume) (path : String) (d : TypeAtlas.Path)
    (batches : List (TypeAtlas.Path × Content))
    (results : List (Except LoadError Record.File)) : Prop where
  below : v.BatchesBelow d batches
  /-- Each batch is read on its own, under the path that leads to it. -/
  each : List.Forall₂ (fun b r => Gives (shownBelow (v.shown path) b.1) b.2 r ∧
    v.loadFile (Volume.below path b.1) = r) batches results
  /-- If every batch gives a file, all of them are set in one edit. -/
  whole : ∀ files, results = files.map .ok →
    h.loadDirectory v path = (.ok (h.edit (.setFiles files)).1, (h.edit (.setFiles files)).2)
  /-- If some batch fails, all failures are reported and the host stays as it was. -/
  nothing : (∃ e, .error e ∈ results) →
    h.loadDirectory v path = (.error (.many (failures results)), h)

theorem takesWhole_results {v : Volume} (hv : v.WF) (h : Host) {path : String} {d : TypeAtlas.Path}
    (hd : v.place path = .ok (.directory d)) :
    h.TakesWhole v path d (v.batches d) (v.results path d) where
  below := batchesBelow_batches hv (mem_of_place hd)
  each := forall₂_results hv hd
  whole files hfiles := by
    unfold loadDirectory
    rw [loadDirectory_eq hd, hfiles, if_pos (failures_map_ok files), filterMap_toOption_map_ok]
    rfl
  nothing := by
    rintro ⟨e, he⟩
    unfold loadDirectory
    rw [loadDirectory_eq hd, if_neg (List.ne_nil_of_mem (mem_failures.2 he))]
    rfl

/-- A directory is taken over as a whole or not at all, and from anything else nothing is. -/
theorem takesWhole_or_notADirectory {v : Volume} (hv : v.WF) (h : Host) (path : String) :
    (∃ d batches results, v.place path = .ok (.directory d) ∧
      h.TakesWhole v path d batches results) ∨
    ((∀ d, v.place path ≠ .ok (.directory d)) ∧
      h.loadDirectory v path = (.error (.notADirectory (v.shown path)), h)) := by
  by_cases hplace : ∃ d, v.place path = .ok (.directory d)
  · obtain ⟨d, hd⟩ := hplace
    exact .inl ⟨d, _, _, hd, takesWhole_results hv h hd⟩
  · have hnot : ∀ d, v.place path ≠ .ok (.directory d) := fun d hd => hplace ⟨d, hd⟩
    refine .inr ⟨hnot, ?_⟩
    unfold loadDirectory
    rw [loadDirectory_of_not_directory hnot]
    rfl

/-- A directory that holds a file and a directory whose names start alike, with a batch that is no
text and one that must not be read. -/
def nestedVolume : Volume where
  root := "/data"
  directories := [[], ["m"], ["m", "a"]]
  files := [(["m", "a.json"], .ok "{}".toUTF8), (["m", "a", "b.json"], .ok ⟨#[0xff]⟩),
    (["m", "a", "c.json"], .error (.other "Permission denied (os error 13)")),
    (["m", "a.json.txt"], .ok "{}".toUTF8)]

theorem wf_nestedVolume : nestedVolume.WF where
  root := by decide
  above := by decide
  holding := by decide
  one := by decide
  apart := by decide
  names := by
    have hnames : ∀ path ∈ nestedVolume.directories ++ nestedVolume.files.map Prod.fst,
        ∀ name ∈ path, name ≠ "" ∧ name ≠ "." ∧ name ≠ ".." ∧ '/' ∉ name.toList := by decide
    exact fun path hpath => hnames path (List.mem_append.2 hpath)

theorem takesWhole_or_notADirectory_nested : nestedVolume.WF ∧ ∃ batches results,
    (Host.new {}).TakesWhole nestedVolume "m" ["m"] batches results := by
  refine ⟨wf_nestedVolume, ?_⟩
  have hplace : nestedVolume.place "m" = .ok (.directory ["m"]) := rfl
  rcases takesWhole_or_notADirectory wf_nestedVolume (Host.new {}) "m" with
    ⟨d, batches, results, hd, hwhole⟩ | ⟨hnot, -⟩
  · cases hplace.symm.trans hd
    exact ⟨batches, results, hwhole⟩
  · exact absurd hplace (hnot ["m"])

end Host

end TypeAtlas
