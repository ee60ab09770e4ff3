/-
The order in which groups are merged. Main statement: after any calls the groups in load order are
the stored ones, sorted by module and file; the order where the platform goes first is the load order
of the groups of the platform's modules followed by that of the custom ones; and sources with the
same modules and the same group for every file give the same list, in whatever order their groups
were set, replaced and removed.

A file has at most one group, so no two groups have the same key, and a list of the groups that is
sorted is the only one.
-/
import TypeAtlas.Proofs.Histories

namespace TypeAtlas.Sources

/-! ## Keys -/

theorem keyLe_iff {a b : Nat × Nat × Nat} : keyLe a b = true ↔
    a.1 < b.1 ∨ a.1 = b.1 ∧ (a.2.1 < b.2.1 ∨ a.2.1 = b.2.1 ∧ a.2.2 ≤ b.2.2) := by
  simp [keyLe]

theorem keyLe_trans (a b c : Nat × Nat × Nat) (hab : keyLe a b = true) (hbc : keyLe b c = true) :
    keyLe a c = true := by
  rw [keyLe_iff] at hab hbc ⊢
  omega

theorem keyLe_total (a b : Nat × Nat × Nat) : (keyLe a b || keyLe b a) = true := by
  rw [Bool.or_eq_true, keyLe_iff, keyLe_iff]
  omega

theorem keyLe_antisymm {a b : Nat × Nat × Nat} (hab : keyLe a b = true) (hba : keyLe b a = true) :
    a = b := by
  rw [keyLe_iff] at hab hba
  refine Prod.ext ?_ (Prod.ext ?_ ?_) <;> omega

/-! ## Sorted lists of groups -/

/-- A list of groups is in the merge order of some sources. -/
def InOrder (s : Sources) (order : MergeOrder) (l : List Group) : Prop :=
  (l.map (s.mergeKey order)).Pairwise fun a b => keyLe a b = true

theorem groupsInMergeOrder_perm (s : Sources) (order : MergeOrder) :
    (s.groupsInMergeOrder order).Perm s.groups := List.mergeSort_perm _ _

theorem inOrder_groupsInMergeOrder (s : Sources) (order : MergeOrder) :
    s.InOrder order (s.groupsInMergeOrder order) := by
  refine List.pairwise_map.2 (List.pairwise_mergeSort ?_ ?_ s.groups)
  · intro a b c
    exact keyLe_trans _ _ _
  · intro a b
    exact keyLe_total _ _

variable {s t : Sources} {order : MergeOrder}

theorem eq_of_file_eq (hone : (s.groups.map Group.file).Nodup) {a b : Group} (ha : a ∈ s.groups)
    (hb : b ∈ s.groups) (h : a.file = b.file) : a = b := List.inj_on_of_nodup_map hone ha hb h

/-- There is one way to put groups of different files in order. -/
theorem eq_groupsInMergeOrder (hone : (s.groups.map Group.file).Nodup) {l : List Group}
    (hperm : l.Perm s.groups) (horder : s.InOrder order l) : l = s.groupsInMergeOrder order := by
  have hsorted := s.inOrder_groupsInMergeOrder order
  refine List.Perm.eq_of_pairwise ?_ (List.pairwise_map.1 horder) (List.pairwise_map.1 hsorted)
    (hperm.trans (s.groupsInMergeOrder_perm order).symm)
  intro a b ha hb hab hba
  have hkey := keyLe_antisymm hab hba
  have hfile : a.file = b.file := congrArg (fun k => FileId.mk k.2.2) hkey
  exact eq_of_file_eq hone (hperm.mem_iff.1 ha) ((s.groupsInMergeOrder_perm order).mem_iff.1 hb)
    hfile

theorem group?_eq_some_iff (hone : (s.groups.map Group.file).Nodup) {file : FileId} {g : Group} :
    s.group? file = some g ↔ g ∈ s.groups ∧ g.file = file := by
  constructor
  · intro h
    exact ⟨List.mem_of_find?_eq_some h, by simpa using List.find?_some h⟩
  · rintro ⟨hg, rfl⟩
    cases hfound : s.group? g.file with
    | none => simpa using List.find?_eq_none.1 hfound g hg
    | some g' =>
      have hfile : g'.file = g.file := by simpa using List.find?_some hfound
      rw [eq_of_file_eq hone (List.mem_of_find?_eq_some hfound) hg hfile]

/-! ## Other histories -/

/-- Groups that correspond are of the same file and module. -/
def SamePlace (r : Group → Group → Prop) : Prop :=
  ∀ {a b}, r a b → a.file = b.file ∧ a.module = b.module

theorem mergeKey_eq {r : Group → Group → Prop} (hr : SamePlace r) (hmodules : t.modules = s.modules)
    {a b : Group} (h : r a b) : t.mergeKey order b = s.mergeKey order a := by
  obtain ⟨hfile, hmodule⟩ := hr h
  unfold mergeKey rank module?
  rw [hmodules, hfile, hmodule]

theorem map_mergeKey_eq {r : Group → Group → Prop} (hr : SamePlace r)
    (hmodules : t.modules = s.modules) (order : MergeOrder) {l l' : List Group}
    (h : List.Forall₂ r l l') :
    l'.map (t.mergeKey order) = l.map (s.mergeKey order) ∧
      l'.map Group.file = l.map Group.file := by
  induction h with
  | nil => exact ⟨rfl, rfl⟩
  | cons hab _ ih =>
    obtain ⟨hkey, hfile⟩ := ih
    rw [List.map_cons, List.map_cons, List.map_cons, List.map_cons, hkey, hfile,
      mergeKey_eq hr hmodules hab, (hr hab).1]
    exact ⟨rfl, rfl⟩

theorem forall₂_filterMap_group? {r : Group → Group → Prop}
    (hone : (s.groups.map Group.file).Nodup) (h : ∀ f, Option.Rel r (s.group? f) (t.group? f)) :
    ∀ {l : List Group}, l ⊆ s.groups →
      List.Forall₂ r l (l.filterMap fun g => t.group? g.file)
  | [], _ => .nil
  | g :: l, hl => by
    obtain ⟨hg, hl⟩ := List.cons_subset.1 hl
    have hrel := h g.file
    rw [(group?_eq_some_iff hone).2 ⟨hg, rfl⟩] at hrel
    cases hcounterpart : t.group? g.file with
    | none => rw [hcounterpart] at hrel; cases hrel
    | some g' =>
      rw [hcounterpart] at hrel
      rw [List.filterMap_cons, hcounterpart]
      cases hrel with
      | some hgg => exact .cons hgg (forall₂_filterMap_group? hone h hl)

/-- Sources with the same modules, and for every file groups that correspond, have their groups in
the same order. -/
theorem forall₂_groupsInMergeOrder {r : Group → Group → Prop} (hr : SamePlace r)
    (hs : (s.groups.map Group.file).Nodup) (ht : (t.groups.map Group.file).Nodup)
    (hmodules : t.modules = s.modules) (h : ∀ f, Option.Rel r (s.group? f) (t.group? f))
    (order : MergeOrder) :
    List.Forall₂ r (s.groupsInMergeOrder order) (t.groupsInMergeOrder order) := by
  have hperm := s.groupsInMergeOrder_perm order
  have hall := forall₂_filterMap_group? hs h (l := s.groupsInMergeOrder order) hperm.subset
  generalize hl : (s.groupsInMergeOrder order).filterMap (fun g => t.group? g.file) = l at hall
  -- the counterparts are the groups of `t`, and in order since their keys are those of `s`
  obtain ⟨hkey, hfile⟩ := map_mergeKey_eq hr hmodules order hall
  have hnodup : (l.map Group.file).Nodup := by
    rw [hfile]
    exact (hperm.map Group.file).nodup_iff.2 hs
  have hmem : ∀ g, g ∈ l ↔ g ∈ t.groups := by
    intro g
    rw [← hl, List.mem_filterMap]
    constructor
    · rintro ⟨a, -, hg⟩
      exact ((group?_eq_some_iff ht).1 hg).1
    · intro hg
      have hfound : t.group? g.file = some g := (group?_eq_some_iff ht).2 ⟨hg, rfl⟩
      have hrel := h g.file
      rw [hfound] at hrel
      cases hcounterpart : s.group? g.file with
      | none => rw [hcounterpart] at hrel; cases hrel
      | some a =>
        obtain ⟨ha, hafile⟩ := (group?_eq_some_iff hs).1 hcounterpart
        exact ⟨a, hperm.mem_iff.2 ha, by rw [hafile]; exact hfound⟩
  have hlist : l = t.groupsInMergeOrder order := by
    refine eq_groupsInMergeOrder ht ?_ ?_
    · exact (List.perm_ext_iff_of_nodup hnodup.of_map ht.of_map).2 hmem
    · unfold InOrder
      rw [hkey]
      exact s.inOrder_groupsInMergeOrder order
  exact hlist ▸ hall

/-! ## The platform first -/

/-- Whether a group is of a registered custom module. -/
def isCustom (s : Sources) (g : Group) : Bool := (s.module? g.module).any Module.custom

theorem rank_platformFirst (s : Sources) (g : Group) :
    s.rank .platformFirst g = (s.isCustom g).toNat := by
  unfold rank isCustom
  cases s.module? g.module with
  | none => rfl
  | some m => cases hm : m.custom <;> simp [hm]

/-- With the platform first a group comes before another if it is of the platform and the other is
custom, or if it does so in load order and both are of the same sort. -/
theorem keyLe_platformFirst {a b : Group} :
    keyLe (s.mergeKey .platformFirst a) (s.mergeKey .platformFirst b) = true ↔
      (s.isCustom a).toNat < (s.isCustom b).toNat ∨ (s.isCustom a).toNat = (s.isCustom b).toNat ∧
        keyLe (s.mergeKey .loadOrder a) (s.mergeKey .loadOrder b) = true := by
  have hload : ∀ g, s.rank .loadOrder g = 0 := fun _ => rfl
  simp only [keyLe_iff, mergeKey, rank_platformFirst, hload, Nat.lt_irrefl, true_and, false_or]

/-- The order where the platform goes first is the load order of the groups of the platform's
modules, and of unregistered ones, followed by that of the groups of custom modules. -/
theorem groupsInMergeOrder_platformFirst (hone : (s.groups.map Group.file).Nodup) :
    s.groupsInMergeOrder .platformFirst =
      (s.groupsInMergeOrder .loadOrder).filter (fun g => !s.isCustom g) ++
        (s.groupsInMergeOrder .loadOrder).filter s.isCustom := by
  have hload := List.pairwise_map.1 (s.inOrder_groupsInMergeOrder .loadOrder)
  refine (eq_groupsInMergeOrder hone ?_ (List.pairwise_map.2 (List.pairwise_append.2
    ⟨?_, ?_, ?_⟩))).symm
  · have hperm := List.filter_append_perm (fun g => !s.isCustom g) (s.groupsInMergeOrder .loadOrder)
    simp only [Bool.not_not] at hperm
    exact hperm.trans (s.groupsInMergeOrder_perm .loadOrder)
  · refine List.pairwise_filter.2 (hload.imp fun hab ha hb => ?_)
    simp only [Bool.not_eq_true'] at ha hb
    exact keyLe_platformFirst.2 (.inr ⟨by rw [ha, hb], hab⟩)
  · refine List.pairwise_filter.2 (hload.imp fun hab ha hb => ?_)
    exact keyLe_platformFirst.2 (.inr ⟨by rw [ha, hb], hab⟩)
  · intro a ha b hb
    have ha : s.isCustom a = false := by simpa using (List.mem_filter.1 ha).2
    have hb : s.isCustom b = true := (List.mem_filter.1 hb).2
    exact keyLe_platformFirst.2 (.inl (by rw [ha, hb]; decide))

/-! ## Sources after any calls -/

/-- A group comes before another one: its module does, or it is of the same module and its file
does. -/
def Precedes (a b : Group) : Prop :=
  a.module.index < b.module.index ∨ a.module.index = b.module.index ∧ a.file.index < b.file.index

theorem pairwise_precedes (hone : (s.groups.map Group.file).Nodup) :
    (s.groupsInMergeOrder .loadOrder).Pairwise Precedes := by
  have hload := List.pairwise_map.1 (s.inOrder_groupsInMergeOrder .loadOrder)
  have hfiles : ((s.groupsInMergeOrder .loadOrder).map Group.file).Nodup :=
    ((s.groupsInMergeOrder_perm .loadOrder).map Group.file).nodup_iff.2 hone
  refine hload.imp₂ (fun a b hab hne => ?_) (List.pairwise_map.1 hfiles)
  have hne : a.file.index ≠ b.file.index := fun h => hne (congrArg FileId.mk h)
  simp only [keyLe_iff, mergeKey, rank] at hab
  unfold Precedes
  omega

theorem samePlace_beq : SamePlace fun a b => (a == b) = true := by
  intro a b h
  cases a
  cases b
  have h : instBEqGroup.beq _ _ = true := h
  simp only [instBEqGroup.beq, Bool.and_eq_true, beq_iff_eq] at h
  exact ⟨h.1, h.2.1⟩

/-- The merge order of sources. -/
structure Canonical (s : Sources) : Prop where
  perm : ∀ order, (s.groupsInMergeOrder order).Perm s.groups
  sorted : (s.groupsInMergeOrder .loadOrder).Pairwise Precedes
  platformFirst : s.groupsInMergeOrder .platformFirst =
    (s.groupsInMergeOrder .loadOrder).filter (fun g => !s.isCustom g) ++
      (s.groupsInMergeOrder .loadOrder).filter s.isCustom

/-- The merge order is canonical after any calls, and does not depend on them: other calls that lead
to the same modules and the same group for every file give the same list, and if the groups are equal
but for the order of keys, so are the lists. -/
theorem canonical_after (calls : List Call) :
    Canonical (after calls) ∧ ∀ calls', (after calls').modules = (after calls).modules →
      ((∀ file, (after calls').group? file = (after calls).group? file) → ∀ order,
        (after calls').groupsInMergeOrder order = (after calls).groupsInMergeOrder order) ∧
      ((∀ file, AsGiven ((after calls).group? file) ((after calls').group? file)) → ∀ order,
        List.Forall₂ (fun a b => (a == b) = true) ((after calls).groupsInMergeOrder order)
          ((after calls').groupsInMergeOrder order)) := by
  have hone : ∀ calls, ((after calls).groups.map Group.file).Nodup := by
    intro calls
    rw [after_eq]
    exact nodup_files_run _ List.nodup_nil
  refine ⟨⟨groupsInMergeOrder_perm _, pairwise_precedes (hone calls),
    groupsInMergeOrder_platformFirst (hone calls)⟩, fun calls' hmodules => ⟨fun h order => ?_,
      fun h order => ?_⟩⟩
  · have hsame : ∀ file, Option.Rel Eq ((after calls).group? file) ((after calls').group? file) := by
      intro file
      rw [h file]
      cases (after calls).group? file with
      | none => exact .none
      | some g => exact .some rfl
    have hplace : SamePlace Eq := by
      rintro a b rfl
      exact ⟨rfl, rfl⟩
    exact (List.forall₂_eq_eq_eq ▸
      forall₂_groupsInMergeOrder hplace (hone calls) (hone calls') hmodules hsame order).symm
  · exact forall₂_groupsInMergeOrder samePlace_beq (hone calls) (hone calls') hmodules h order

/-- Two histories that store the same groups in opposite orders, the second one after a removal and
with a replacement. -/
theorem canonical_after_opposite :
    ∃ calls calls', (after calls).groups.map Group.file = [⟨0⟩, ⟨1⟩] ∧
      (after calls').groups.map Group.file = [⟨1⟩, ⟨0⟩] ∧ Canonical (after calls) ∧
      ∀ order, (after calls').groupsInMergeOrder order = (after calls).groupsInMergeOrder order := by
  let platform : Group := .empty ⟨0⟩ ⟨1⟩
  let project : Group := .empty ⟨1⟩ ⟨0⟩
  let modules : List Call :=
    [.single (.registerModule "project" true), .single (.registerModule "platform" false)]
  let calls := modules ++ [.single (.setGroup platform), .single (.setGroup project)]
  let calls' := modules ++ [.single (.setGroup platform), .single (.setGroup (.empty ⟨1⟩ ⟨1⟩)),
    .single (.removeFile ⟨0⟩), .single (.setGroup platform), .single (.setGroup project)]
  have hgroups : (after calls).groups = [platform, project] := rfl
  have hgroups' : (after calls').groups = [project, platform] := rfl
  obtain ⟨hcanonical, hhistories⟩ := canonical_after calls
  refine ⟨calls, calls', rfl, rfl, hcanonical, (hhistories calls' rfl).1 fun file => ?_⟩
  unfold group?
  rw [hgroups, hgroups']
  by_cases h0 : file = ⟨0⟩
  · subst h0
    rfl
  · by_cases h1 : file = ⟨1⟩
    · subst h1
      rfl
    · rw [List.find?_eq_none.2 (by simp [platform, project, Group.empty, Ne.symm h0, Ne.symm h1]),
        List.find?_eq_none.2 (by simp [platform, project, Group.empty, Ne.symm h0, Ne.symm h1])]

end TypeAtlas.Sources
