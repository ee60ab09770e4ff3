/-
Directory trees. The tables of a volume list every directory and file with its whole path. Main
statements: a depth-first visit of a directory that takes the entries of every directory in the order
of their names goes through the files below it in the order of their paths, compared name by name, so
it meets the batches in the order in which they are loaded; every directory has such a visit; and a
batch is read under the path that leads to it from the directory.

A visit is told without an algorithm (`Visits`). Along it the paths below one entry stay together,
since all of them start with the path of the entry.
-/
import TypeAtlas.Load
import TypeAtlas.Proofs.ByteOrder
import TypeAtlas.Proofs.Qualifiers
import Mathlib.Data.Finset.Sort

namespace TypeAtlas

/-- The extension of a name is what follows its last dot, if something stands before the dot. -/
theorem extension?_eq_some_iff {name ext : String} (hext : '.' ∉ ext.toList) :
    extension? name = some ext ↔ ∃ stem, stem ≠ "" ∧ name = stem ++ "." ++ ext := by
  unfold extension?
  constructor
  · intro h
    dsimp only at h
    split at h
    next hlength =>
      have hafter : Text.afterLast '.' name.toList = ext.toList := by
        rw [← Option.some.inj h, String.toList_ofList]
      rw [hafter] at hlength
      rcases Text.afterLast_cases '.' name.toList with hwhole | ⟨before, hbefore⟩
      · rw [← hwhole, hafter] at hlength
        omega
      · rw [hafter] at hbefore
        refine ⟨String.ofList before, ?_, String.toList_injective (by simp [hbefore])⟩
        intro hempty
        rw [hbefore, String.ofList_eq_empty_iff.1 hempty] at hlength
        simp at hlength
    next => cases h
  · rintro ⟨stem, hstem, rfl⟩
    have hafter : Text.afterLast '.' (stem ++ "." ++ ext).toList = ext.toList := by
      rw [String.toList_append, String.toList_append, Text.afterLast_append hext]
      exact congrArg (· ++ ext.toList) (Text.afterLast_concat '.' stem.toList)
    have hpos : 0 < stem.toList.length := by
      rw [List.length_pos_iff]
      simpa using hstem
    have hlength : ext.toList.length + 1 < (stem ++ "." ++ ext).toList.length := by
      simp only [String.toList_append, List.length_append, show ".".toList.length = 1 from rfl]
      omega
    dsimp only
    rw [hafter, if_pos hlength, String.ofList_toList]

namespace Volume

/-! ## Trees -/

/-- A name of a file or a directory. -/
def IsName (name : String) : Prop :=
  name ≠ "" ∧ name ≠ "." ∧ name ≠ ".." ∧ '/' ∉ name.toList

/-- Something stands at a path. -/
def Holds (v : Volume) (path : Path) : Prop :=
  path ∈ v.directories ∨ path ∈ v.files.map Prod.fst

/-- The tables of a volume describe a tree of directories and files. -/
structure WF (v : Volume) : Prop where
  root : [] ∈ v.directories
  above : ∀ d ∈ v.directories, d.dropLast ∈ v.directories
  holding : ∀ f ∈ v.files, f.1.dropLast ∈ v.directories
  one : (v.files.map Prod.fst).Nodup
  apart : ∀ f ∈ v.files, f.1 ∉ v.directories
  names : ∀ path, v.Holds path → ∀ name ∈ path, IsName name

namespace WF

variable {v : Volume} (hv : v.WF)

include hv

theorem directory_of_append {d : Path} (rest : List String) (h : d ++ rest ∈ v.directories) :
    d ∈ v.directories := by
  induction rest using List.reverseRecOn with
  | nil => simpa using h
  | append_singleton rest name ih =>
    refine ih ?_
    have habove := hv.above _ h
    rwa [← List.append_assoc, List.dropLast_concat] at habove

/-- The directories on the way to a file are listed. -/
theorem directory_of_file {f : Path × Content} (hf : f ∈ v.files) {d : Path} {name : String}
    {rest : List String} (hpath : f.1 = d ++ name :: rest) : d ∈ v.directories := by
  have hholding := hv.holding f hf
  rw [hpath, List.dropLast_append_of_ne_nil (List.cons_ne_nil name rest)] at hholding
  exact hv.directory_of_append _ hholding

theorem holds_of_file {f : Path × Content} (hf : f ∈ v.files) {d : Path} {name : String}
    {rest : List String} (hpath : f.1 = d ++ name :: rest) : v.Holds (d ++ [name]) := by
  cases rest with
  | nil => exact .inr (hpath ▸ List.mem_map_of_mem hf)
  | cons name' rest => exact .inl (hv.directory_of_file hf (by simpa using hpath))

theorem eq_of_path_eq {f g : Path × Content} (hf : f ∈ v.files) (hg : g ∈ v.files)
    (h : f.1 = g.1) : f = g := List.inj_on_of_nodup_map hv.one hf hg h

end WF

/-! ## Visits -/

/-- A depth-first visit of what stands at a path, with the files in the order in which it meets them:
the entries of a directory are visited in the order of their names. -/
inductive Visits (v : Volume) : Path → List (Path × Content) → Prop
  | file {path : Path} {content : Content} (h : (path, content) ∈ v.files) :
    Visits v path [(path, content)]
  | directory {path : Path} {names : List String} {below : String → List (Path × Content)}
      (h : path ∈ v.directories)
      (hsorted : names.Pairwise fun a b => Text.bytes a < Text.bytes b)
      (hnames : ∀ name, name ∈ names ↔ v.Holds (path ++ [name]))
      (hbelow : ∀ name ∈ names, Visits v (path ++ [name]) (below name)) :
    Visits v path (names.flatMap below)

/-- A path comes before another: at the first name where they differ, or by ending there. -/
def Precedes (p q : Path) : Prop := List.Lex (fun a b => Text.bytes a < Text.bytes b) p q

theorem precedes_iff {p q : Path} : Precedes p q ↔ p < q := by
  unfold Precedes
  simp only [Text.bytes_lt_iff]
  exact Iff.rfl

theorem precedes_of_prefix {a b : String} (hab : Text.bytes a < Text.bytes b) {path p q : Path}
    (hp : path ++ [a] <+: p) (hq : path ++ [b] <+: q) : Precedes p q := by
  obtain ⟨rest, rfl⟩ := hp
  obtain ⟨rest', rfl⟩ := hq
  rw [precedes_iff, List.append_assoc, List.append_assoc]
  exact List.append_left_lt (List.cons_lt_cons_iff.2 (.inl (Text.bytes_lt_iff.1 hab)))

/-- The names of what stands in a directory, in order. -/
def entryNames (v : Volume) (d : Path) : List String :=
  (((v.directories ++ v.files.map Prod.fst).filter fun p => p.dropLast == d).filterMap
    List.getLast?).toFinset.sort

theorem mem_entryNames {v : Volume} {d : Path} {name : String} :
    name ∈ v.entryNames d ↔ v.Holds (d ++ [name]) := by
  unfold entryNames Holds
  rw [Finset.mem_sort, List.mem_toFinset, List.mem_filterMap, ← List.mem_append]
  constructor
  · rintro ⟨p, hp, hlast⟩
    obtain ⟨hp, hd⟩ := List.mem_filter.1 hp
    rw [← eq_of_beq hd, List.dropLast_append_getLast? name hlast]
    exact hp
  · intro hp
    exact ⟨d ++ [name], List.mem_filter.2 ⟨hp, by simp⟩, by simp⟩

theorem pairwise_entryNames (v : Volume) (d : Path) :
    (v.entryNames d).Pairwise fun a b => Text.bytes a < Text.bytes b :=
  (Finset.sortedLT_sort _).pairwise.imp Text.bytes_lt_iff.2

/-- Every directory has a visit. -/
theorem exists_visits {v : Volume} {d : Path} (hd : d ∈ v.directories) : ∃ visit, v.Visits d visit := by
  -- no directory is nested deeper than the longest path, so the distance to it falls
  have hbound : ∀ p ∈ v.directories, p.length ≤ v.directories.toFinset.sup List.length :=
    fun p hp => Finset.le_sup (List.mem_toFinset.2 hp)
  generalize v.directories.toFinset.sup List.length = bound at hbound
  induction hn : bound - d.length using Nat.strong_induction_on generalizing d with
  | _ n ih =>
    have hbelow : ∀ name ∈ v.entryNames d, ∃ visit, v.Visits (d ++ [name]) visit := by
      intro name hname
      rcases mem_entryNames.1 hname with hdirectory | hfile
      · have hlength := hbound _ hdirectory
        rw [List.length_append, List.length_singleton] at hlength
        exact ih (bound - (d.length + 1)) (by omega) hdirectory (by simp)
      · obtain ⟨⟨_, content⟩, hf, rfl⟩ := List.mem_map.1 hfile
        exact ⟨_, .file hf⟩
    choose! below hvisits using hbelow
    exact ⟨_, .directory hd (pairwise_entryNames v d) (fun _ => mem_entryNames) hvisits⟩

section Visits

variable {v : Volume} (hv : v.WF)

include hv

/-- A visit meets exactly the files below a path. -/
theorem Visits.mem_iff {path : Path} {visit : List (Path × Content)} (h : v.Visits path visit)
    (f : Path × Content) : f ∈ visit ↔ f ∈ v.files ∧ path <+: f.1 := by
  induction h generalizing f with
  | @file path content hfile =>
    rw [List.mem_singleton]
    constructor
    · rintro rfl
      exact ⟨hfile, List.prefix_rfl⟩
    · rintro ⟨hf, rest, hrest⟩
      cases rest with
      | nil => exact hv.eq_of_path_eq hf hfile (by simpa using hrest.symm)
      | cons name rest => exact absurd (hv.directory_of_file hf hrest.symm) (hv.apart _ hfile)
  | @directory path names below hpath _ hnames _ ih =>
    rw [List.mem_flatMap]
    constructor
    · rintro ⟨name, hname, hf⟩
      obtain ⟨hf, hprefix⟩ := (ih name hname f).1 hf
      exact ⟨hf, (List.prefix_append path [name]).trans hprefix⟩
    · rintro ⟨hf, rest, hrest⟩
      cases rest with
      | nil => exact absurd (by simpa [← hrest] using hpath) (hv.apart f hf)
      | cons name rest =>
        have hname := (hnames name).2 (hv.holds_of_file hf hrest.symm)
        exact ⟨name, hname, (ih name hname f).2 ⟨hf, rest, by simpa using hrest⟩⟩

/-- A visit meets files in the order of their paths. -/
theorem Visits.pairwise {path : Path} {visit : List (Path × Content)} (h : v.Visits path visit) :
    visit.Pairwise fun f g => Precedes f.1 g.1 := by
  induction h with
  | file => exact List.pairwise_singleton _ _
  | directory _ hsorted _ hbelow ih =>
    refine List.pairwise_flatMap.2 ⟨ih, hsorted.imp_of_mem ?_⟩
    intro a b ha hb hab f hf g hg
    exact precedes_of_prefix hab ((hbelow a ha).mem_iff hv f |>.1 hf).2
      ((hbelow b hb).mem_iff hv g |>.1 hg).2

theorem Visits.nodup {path : Path} {visit : List (Path × Content)} (h : v.Visits path visit) :
    (visit.map Prod.fst).Nodup := by
  refine List.pairwise_map.2 ((h.pairwise hv).imp fun hprecedes hsame => ?_)
  rw [precedes_iff, hsame] at hprecedes
  exact List.lt_irrefl _ hprecedes

end Visits

/-! ## Batches -/

/-- A batch has a name that ends in the extension, with something before it. -/
theorem isBatch_iff {path : Path} :
    isBatch path = true ↔ ∃ d stem, stem ≠ "" ∧ path = d ++ [stem ++ ".json"] := by
  unfold isBatch batchExtension
  rw [beq_iff_eq, Option.bind_eq_some_iff]
  constructor
  · rintro ⟨name, hlast, hext⟩
    obtain ⟨stem, hstem, rfl⟩ := (extension?_eq_some_iff (by decide)).1 hext
    refine ⟨path.dropLast, stem, hstem, ?_⟩
    rw [← List.dropLast_append_getLast? _ hlast, List.dropLast_concat, String.append_assoc]
    rfl
  · rintro ⟨d, stem, hstem, rfl⟩
    refine ⟨stem ++ ".json", by simp, (extension?_eq_some_iff (by decide)).2 ⟨stem, hstem, ?_⟩⟩
    rw [String.append_assoc]
    rfl

example : isBatch ["a", "b.json"] = true ∧ isBatch ["b.json.txt"] = false ∧
    isBatch [".json"] = false := by decide

/-- The batches among visited files, each with its path from the directory. -/
def batchesOf (d : Path) (visit : List (Path × Content)) : List (Path × Content) :=
  (visit.filter fun f => isBatch f.1).map fun f => (f.1.drop d.length, f.2)

theorem append_lt_append_iff {d p q : Path} : d ++ p < d ++ q ↔ p < q := by
  induction d with
  | nil => exact Iff.rfl
  | cons name d ih =>
    rw [List.cons_append, List.cons_append, List.cons_lt_cons_iff, ih]
    simp

theorem batches_sorted (v : Volume) (d : Path) :
    (v.batches d).Pairwise fun a b => ¬ b.1 < a.1 := by
  refine (List.pairwise_mergeSort ?_ ?_ _).imp fun h => ?_
  · intro a b c hab hbc
    simp only [Bool.not_eq_true', List.lex_eq_false_iff_ge] at hab hbc ⊢
    exact List.le_trans hab hbc
  · intro a b
    simp only [Bool.or_eq_true, Bool.not_eq_true', List.lex_eq_false_iff_ge]
    exact List.le_total a.1 b.1
  · rw [Bool.not_eq_true', List.lex_eq_false_iff_ge] at h
    exact List.not_lt.2 h

section Batches

variable {v : Volume} (hv : v.WF) {d : Path} {visit : List (Path × Content)} (h : v.Visits d visit)

include hv h

theorem Visits.append_drop {f : Path × Content} (hf : f ∈ visit) : d ++ f.1.drop d.length = f.1 := by
  obtain ⟨rest, hrest⟩ := ((h.mem_iff hv f).1 hf).2
  rw [← hrest, List.drop_left]

theorem batchesOf_sorted : (batchesOf d visit).Pairwise fun a b => a.1 < b.1 := by
  refine List.pairwise_map.2 (((h.pairwise hv).filter _).imp_of_mem ?_)
  intro f g hf hg hprecedes
  rw [precedes_iff, ← h.append_drop hv (List.mem_filter.1 hf).1,
    ← h.append_drop hv (List.mem_filter.1 hg).1] at hprecedes
  exact append_lt_append_iff.1 hprecedes

theorem batches_perm : (v.batches d).Perm (batchesOf d visit) := by
  refine (List.mergeSort_perm _ _).trans (List.Perm.map _ ?_)
  have hnodup := (List.Nodup.of_map _ hv.one).filter fun f => d.isPrefixOf f.1 && isBatch f.1
  have hnodup' := (List.Nodup.of_map _ (h.nodup hv)).filter fun f => isBatch f.1
  refine (List.perm_ext_iff_of_nodup hnodup hnodup').2 fun f => ?_
  rw [List.mem_filter, List.mem_filter, h.mem_iff hv, Bool.and_eq_true,
    List.isPrefixOf_iff_prefix, and_assoc]

/-- The batches are loaded in the order in which a visit meets them. -/
theorem batches_eq : v.batches d = batchesOf d visit := by
  have hsorted := batchesOf_sorted hv h
  have hperm := batches_perm hv h
  have hpaths : ((batchesOf d visit).map Prod.fst).Nodup :=
    List.pairwise_map.2 (hsorted.imp ne_of_lt)
  refine hperm.eq_of_pairwise ?_ (v.batches_sorted d) (hsorted.imp List.lt_asymm)
  intro a b ha hb hba hab
  have hsame : a.1 = b.1 := List.le_antisymm (List.not_lt.1 hba) (List.not_lt.1 hab)
  exact List.inj_on_of_nodup_map hpaths (hperm.mem_iff.1 ha) hb hsame

end Batches

theorem isBatch_append {d way : Path} (hne : way ≠ []) : isBatch (d ++ way) = isBatch way := by
  unfold isBatch
  rw [List.getLast?_append_of_ne_nil _ hne]

theorem mem_batches_iff {v : Volume} (hv : v.WF) {d way : Path} {content : Content}
    (hd : d ∈ v.directories) :
    (way, content) ∈ v.batches d ↔ (d ++ way, content) ∈ v.files ∧ isBatch way = true := by
  unfold batches
  rw [List.mem_mergeSort, List.mem_map]
  constructor
  · rintro ⟨⟨path, _⟩, hf, ⟨⟩⟩
    obtain ⟨hf, hbelow⟩ := List.mem_filter.1 hf
    obtain ⟨hstart, hbatch⟩ := Bool.and_eq_true_iff.1 hbelow
    obtain ⟨way, rfl⟩ := List.isPrefixOf_iff_prefix.1 hstart
    have hne : way ≠ [] := by
      rintro rfl
      exact hv.apart _ hf (by simpa using hd)
    rw [List.drop_left]
    exact ⟨hf, isBatch_append hne ▸ hbatch⟩
  · rintro ⟨hf, hbatch⟩
    have hne : way ≠ [] := by
      rintro rfl
      cases hbatch
    refine ⟨(d ++ way, content), List.mem_filter.2 ⟨hf, ?_⟩, by simp⟩
    simpa [isBatch_append hne] using hbatch

/-! ## Ways -/

/-- The path that leads on from a directory. -/
def below (path : String) (way : Path) : String :=
  (if path = "" ∨ path.endsWith "/" then path else path ++ "/") ++ "/".intercalate way

theorem endsWith_slash_iff {s : String} : s.endsWith "/" = true ↔ s.toList.getLast? = some '/' := by
  rw [← String.endsWith_toSlice, String.Slice.endsWith_string_iff, String.copy_toSlice,
    List.getLast?_eq_some_iff]
  exact exists_congr fun _ => eq_comm

theorem shown_below (v : Volume) (path : String) (way : Path) :
    v.shown (below path way) = shownBelow (v.shown path) way := by
  have hends : (v.shown path).endsWith "/" = true ↔ path = "" ∨ path.endsWith "/" = true := by
    have hlast : (v.shown path).toList.getLast? = path.toList.getLast?.or (some '/') := by
      rw [shown, String.toList_append, String.toList_append, List.getLast?_append]
      exact congrArg _ List.getLast?_concat
    rw [endsWith_slash_iff, endsWith_slash_iff, hlast, ← String.toList_eq_nil_iff,
      ← List.getLast?_eq_none_iff]
    cases path.toList.getLast? <;> simp
  unfold below shownBelow
  simp only [hends]
  unfold shown
  split <;> simp only [String.append_assoc]

theorem names_eq (path : String) :
    names path = (path.toList.splitOnP fun c => c == '/').map String.ofList := by
  unfold names
  rw [Text.splitChars_eq]
  rfl

theorem names_ne_nil (path : String) : names path ≠ [] := by
  rw [names_eq, Ne, List.map_eq_nil_iff]
  exact List.splitOnP_ne_nil _ _

theorem names_append (path rest : String) : names (path ++ "/" ++ rest) = names path ++ names rest := by
  have htext : (path ++ "/" ++ rest).toList = path.toList ++ '/' :: rest.toList := by simp
  rw [names_eq, names_eq, names_eq, htext, List.splitOnP_append_cons _ _ (by rfl), List.map_append]

theorem names_intercalate {way : Path} (hne : way ≠ []) (hnames : ∀ name ∈ way, '/' ∉ name.toList) :
    names ("/".intercalate way) = way := by
  have hparts : ∀ part ∈ way.map String.toList, '/' ∉ part := by simpa using hnames
  have hsplit := List.splitOn_intercalate '/' hparts (by simpa using hne)
  unfold names
  rw [Text.splitChars_eq, String.toList_intercalate]
  exact (congrArg _ hsplit).trans (by simp)

theorem exists_of_goTo {v : Volume} {here : Place} {name : String} {d : Path}
    (h : v.goTo here name = .ok (.directory d)) :
    d ∈ v.directories ∧ ∃ before, here = .directory before ∧ d = step before name := by
  cases here with
  | file content => cases h
  | directory before =>
    unfold goTo at h
    dsimp only at h
    split at h
    · cases h
    · split at h
      next hmem =>
        cases h
        exact ⟨List.contains_iff_mem.1 hmem, before, rfl, rfl⟩
      · cases h

/-- Where a path leads is where its last name leads from the place before. -/
theorem exists_of_foldlM_concat {v : Volume} {ns : List String} {name : String} {here there : Place}
    (h : (ns ++ [name]).foldlM v.goTo here = .ok there) :
    ∃ before, ns.foldlM v.goTo here = .ok before ∧ v.goTo before name = .ok there := by
  rw [List.foldlM_append] at h
  cases hbefore : ns.foldlM v.goTo here with
  | error cause =>
    rw [hbefore] at h
    cases h
  | ok before =>
    rw [hbefore] at h
    exact ⟨before, rfl, (bind_pure (v.goTo before name)).symm.trans h⟩

theorem mem_of_place {v : Volume} {path : String} {d : Path}
    (h : v.place path = .ok (.directory d)) : d ∈ v.directories := by
  unfold place at h
  rw [← List.dropLast_append_getLast (names_ne_nil path)] at h
  obtain ⟨before, -, hlast⟩ := exists_of_foldlM_concat h
  exact (exists_of_goTo hlast).1

theorem place_append {v : Volume} {path : String} {here : Place} (h : v.place path = .ok here)
    (rest : String) : v.place (path ++ "/" ++ rest) = (names rest).foldlM v.goTo here := by
  unfold place at h ⊢
  rw [names_append, List.foldlM_append, h]
  rfl

/-- A slash at the end of a path stays in the directory. -/
theorem place_of_slash {v : Volume} {path : String} {d : Path}
    (h : v.place (path ++ "/") = .ok (.directory d)) : v.place path = .ok (.directory d) := by
  have hnames : names (path ++ "/") = names path ++ [""] := by
    rw [← String.append_empty (s := path ++ "/"), names_append]
    rfl
  unfold place at h ⊢
  rw [hnames] at h
  obtain ⟨before, hbefore, hstay⟩ := exists_of_foldlM_concat h
  obtain ⟨-, _, rfl, rfl⟩ := exists_of_goTo hstay
  exact hbefore

theorem step_of_isName {name : String} (hname : IsName name) (d : Path) :
    step d name = d ++ [name] := by
  obtain ⟨hempty, hdot, hdots, -⟩ := hname
  simp [step, hempty, hdot, hdots]

section Ways

variable {v : Volume} (hv : v.WF)

include hv

theorem goTo_directory {d : Path} {name : String} (hd : step d name ∈ v.directories) :
    v.goTo (.directory d) name = .ok (.directory (step d name)) := by
  have hnone : v.files.lookup (step d name) = none := by
    refine Dict.lookup_eq_none_of_not_mem fun hmem => ?_
    obtain ⟨f, hf, hpath⟩ := List.mem_map.1 hmem
    exact hv.apart f hf (hpath ▸ hd)
  unfold goTo
  dsimp only
  rw [hnone]
  exact if_pos (List.contains_iff_mem.2 hd)

theorem goTo_file {d : Path} {name : String} {content : Content}
    (hf : (step d name, content) ∈ v.files) : v.goTo (.directory d) name = .ok (.file content) := by
  unfold goTo
  dsimp only
  rw [(Dict.lookup_eq_some_iff_mem hv.one).2 hf]

/-- The names on the way from a directory to a file lead to the file. -/
theorem foldlM_goTo_file {d way : Path} {content : Content} (hd : d ∈ v.directories)
    (hf : (d ++ way, content) ∈ v.files) : way.foldlM v.goTo (.directory d) = .ok (.file content) := by
  have hnames := hv.names _ (.inr (List.mem_map_of_mem hf))
  induction way generalizing d with
  | nil => exact absurd (by simpa using hd) (hv.apart _ hf)
  | cons name way ih =>
    have hstep := step_of_isName (hnames name (by simp)) d
    rw [List.append_cons] at hf hnames
    rw [List.foldlM_cons]
    cases way with
    | nil =>
      rw [List.append_nil] at hf
      rw [goTo_file hv (hstep ▸ hf)]
      rfl
    | cons name' way =>
      have hbetween := hv.directory_of_file hf rfl
      rw [goTo_directory hv (hstep ▸ hbetween), hstep]
      exact ih hbetween hf hnames

theorem place_empty : v.place "" = .ok (.directory []) := by
  have hstay : v.goTo (.directory []) "" = .ok (.directory []) := goTo_directory hv hv.root
  exact (bind_pure (v.goTo (.directory []) "")).trans hstay

theorem place_below {path : String} {d way : Path} (hd : v.place path = .ok (.directory d))
    (hne : way ≠ []) (hnames : ∀ name ∈ way, '/' ∉ name.toList) :
    v.place (below path way) = way.foldlM v.goTo (.directory d) := by
  have hway := names_intercalate hne hnames
  unfold below
  split
  next hends =>
    rcases hends with rfl | hslash
    · cases (place_empty hv).symm.trans hd
      rw [String.empty_append, place, hway]
    · obtain ⟨cs, hcs⟩ := List.getLast?_eq_some_iff.1 (endsWith_slash_iff.1 hslash)
      obtain rfl : path = String.ofList cs ++ "/" := String.toList_injective (by simpa using hcs)
      rw [place_append (place_of_slash hd), hway]
  next => rw [place_append hd, hway]

/-- A file below a directory is loaded under the path that leads on to it from there. -/
theorem loadFile_below {path : String} {d way : Path} {content : Content}
    (hd : v.place path = .ok (.directory d)) (hf : (d ++ way, content) ∈ v.files) :
    v.loadFile (below path way) = decodeBatch (shownBelow (v.shown path) way) content := by
  have hplace : v.place (below path way) = .ok (.file content) := by
    rw [place_below hv hd, foldlM_goTo_file hv (mem_of_place hd) hf]
    · rintro rfl
      exact hv.apart _ hf (by simpa using mem_of_place hd)
    · intro name hname
      exact (hv.names _ (.inr (List.mem_map_of_mem hf)) name (by simp [hname])).2.2.2
  unfold loadFile
  rw [hplace, ← shown_below]

end Ways

end Volume

end TypeAtlas
