/-
The findings of a generation. A hierarchy that is kept brings its findings along. For a type on a
cycle these depend on more than what is compared: on the place of the type, and on where the first
walk enters the cycle. Main statement: over any history the findings of a build are those of a build
from scratch, in some order, exactly when the cycle reports that it keeps are the current ones; all
other findings are always right. A type whose place moved between two builds shows that kept reports
can be out of date.
-/
import TypeAtlas.Proofs.Ancestry
import Mathlib.Data.List.Perm.Basic

namespace TypeAtlas

/-- Two collections over a list that differ only where `p` holds are equal up to order when they are
over that part of the list. -/
theorem flatMap_perm_iff_filter {α β : Type} {f g : α → List β} (p : α → Bool) {l : List α}
    (h : ∀ a ∈ l, p a = false → (f a).Perm (g a)) :
    (l.flatMap f).Perm (l.flatMap g) ↔
      ((l.filter p).flatMap f).Perm ((l.filter p).flatMap g) := by
  have hsplit : ∀ f : α → List β, (l.flatMap f).Perm
      ((l.filter p).flatMap f ++ (l.filter fun a => !p a).flatMap f) := by
    intro f
    rw [← List.flatMap_append]
    exact (List.filter_append_perm p l).symm.flatMap_right f
  have hrest : ((l.filter fun a => !p a).flatMap f).Perm ((l.filter fun a => !p a).flatMap g) := by
    refine List.Perm.flatMap_left _ fun a ha => ?_
    obtain ⟨hal, hpa⟩ := List.mem_filter.1 ha
    exact h a hal (by simpa using hpa)
  -- the parts where `p` fails are equal up to order, so they cancel
  constructor
  · intro hfg
    have := (hsplit f).symm.trans (hfg.trans (hsplit g))
    exact (List.perm_append_right_iff _).1 (this.trans (hrest.symm.append_left _))
  · intro hfg
    exact (hsplit f).trans ((hfg.append hrest).trans (hsplit g).symm)

namespace Resolve

variable {o : Outline} {start : HierarchyTable}

/-! ## Findings of computed hierarchies -/

/-- The finding about a type on a cycle, as the types give it. -/
def cycleReport (o : Outline) (m : Merged) : Diagnostic :=
  .cyclicExtends m.location m.code (cycleCodes o (cycleOf o m.id))

/-- The findings of an entry of a table. -/
def findingsAt (table : HierarchyTable) (id : TypeId) : List Diagnostic :=
  ((table.at? id).map Hierarchy.diagnostics).getD []

/-- Whether an entry of a table reports a cycle. -/
def reportsCycle (table : HierarchyTable) (id : TypeId) : Bool :=
  (table.at? id).any fun h => h.isCycle && !h.diagnostics.isEmpty

/-- A hierarchy over a parent runs into a cycle only without findings. -/
theorem inherit_silent {m : Merged} {own : ItemData} {parent : Hierarchy}
    (h : (inherit o m own parent).status = .cycle) : (inherit o m own parent).diagnostics = [] := by
  unfold inherit at h ⊢
  split
  · rfl
  · rename_i hcycle
    rw [if_neg hcycle] at h
    have hparent : parent.status = .cycle := h
    simp [Hierarchy.isCycle, hparent] at hcycle

/-- A hierarchy that is not kept has the findings of the one computed from scratch. -/
theorem Computed.findings_perm {id : TypeId} {h k : Hierarchy} (hc : Computed o start id h)
    (hopen : start.at? id = none) (hs : Computed o [] id k) (ha : h.Alike k) :
    h.diagnostics.Perm k.diagnostics := by
  by_cases hstatus : h.status = .cycle
  · cases hc with
    | kept found => rw [hopen] at found; cases found
    | cycle _ hi hon => rw [hs.eq_cyclic hi hon]
    | top _ hi htop => rw [hs.eq_derive hi htop]
    | child _ hi hoff hup _ =>
      have hnil := inherit_silent hstatus
      rw [ha.silent.1 hnil, hnil]
  · exact ha.findings hstatus

/-- From scratch, only a type on a cycle reports one: its own. -/
theorem Computed.diagnostics_of_cycle (hw : o.WF) {id : TypeId} {m : Merged} {h : Hierarchy}
    (hc : Computed o [] id h) (hm : o.types[id]? = some m) (hstatus : h.status = .cycle)
    (hne : h.diagnostics ≠ []) : h.diagnostics = [cycleReport o m] := by
  have hid := hw.id hm
  cases hc with
  | kept found => exact absurd found Computed.not_kept
  | cycle _ hi _ =>
    obtain ⟨hm', -⟩ := Outline.item?_eq_some.1 hi
    rw [hm] at hm'
    cases hm'
    subst hid
    rfl
  | top _ hi htop =>
    obtain ⟨ds, hd, hnot⟩ := derive_eq_ownOnly hw hi htop
    rw [hd] at hstatus
    exact absurd hstatus hnot
  | child _ _ _ _ _ => exact absurd (inherit_silent hstatus) hne

/-! ## Findings of a resolution -/

section Resolving

variable {types : List Merged} (hw : (Outline.ofTypes types).WF) {old : Option (List Node)}
  (hold : ∀ nodes, old = some nodes → ∃ types', (Outline.ofTypes types').WF ∧ Current types' nodes)

theorem structuralFindings_nodes (hw : (Outline.ofTypes types).WF) (old : Option (List Node)) :
    Model.structuralFindings (Resolution.ofTypes types old).nodes =
      types.flatMap fun m => findingsAt (finalTable types old) m.id := by
  unfold Model.structuralFindings
  rw [Resolution.nodes_eq_map hw, List.flatMap_map]
  rfl

include hw hold

/-- Unless a kept hierarchy reports a cycle, the findings of a type are those from scratch. -/
theorem findingsAt_perm {id : TypeId} (hno : reportsCycle (startTable types old) id = false) :
    (findingsAt (finalTable types old) id).Perm (findingsAt (finalTable types none) id) := by
  obtain ⟨hsound, -⟩ := finalTable_sound hw old
  have hrel := (current_ofTypes hw hold).alike id
  rw [Resolution.hierarchy_nodes hw] at hrel
  unfold findingsAt
  cases hk : (finalTable types none).at? id with
  | none =>
    rw [hk] at hrel
    cases hh : (finalTable types old).at? id with
    | none => exact .refl _
    | some h => rw [hh] at hrel; cases hrel
  | some k =>
    rw [hk] at hrel
    cases hh : (finalTable types old).at? id with
    | none => rw [hh] at hrel; cases hrel
    | some h =>
      have halike := finalTable_alike hw hold hh hk
      -- what is computed anew has the right findings, and so has what is kept without a report
      cases hstart : (startTable types old).at? id with
      | none => exact (hsound.computed hh).findings_perm hstart (finalTable_none hw hk) halike
      | some h' =>
        have heq := hsound.kept hstart
        rw [hh] at heq
        cases heq
        by_cases hcycle : h.status = .cycle
        · have hnil : h.diagnostics = [] := by
            simpa [reportsCycle, hstart, Hierarchy.isCycle, hcycle] using hno
          simp [hnil, halike.silent.1 hnil]
        · exact halike.findings hcycle

/-- Where a kept hierarchy reports a cycle, the finding from scratch is the current report. -/
theorem findingsAt_of_reportsCycle {m : Merged} (hm : m ∈ types)
    (hyes : reportsCycle (startTable types old) m.id = true) :
    findingsAt (finalTable types old) m.id = findingsAt (startTable types old) m.id ∧
      findingsAt (finalTable types none) m.id = [cycleReport (.ofTypes types) m] := by
  obtain ⟨hsound, -⟩ := finalTable_sound hw old
  obtain ⟨i, hi⟩ := List.mem_iff_getElem?.1 hm
  have hid : m.id = i := hw.id hi
  obtain ⟨h, hstart, hreports⟩ := (Option.any_eq_true _ _).1 hyes
  rw [Bool.and_eq_true] at hreports
  obtain ⟨hitem, halike⟩ := startTable_alike hw hold hstart
  obtain ⟨k, hk⟩ := Option.isSome_iff_exists.1 ((finalTable_sound hw none).2 hitem)
  have hc := finalTable_none hw hk
  have hstatus : h.status = .cycle := by simpa [Hierarchy.isCycle] using hreports.1
  have hne : k.diagnostics ≠ [] := fun hnil => by
    simp [(halike hc).silent.2 hnil] at hreports
  refine ⟨by unfold findingsAt; rw [hsound.kept hstart, hstart], ?_⟩
  unfold findingsAt
  rw [hk]
  exact hc.diagnostics_of_cycle hw (hid ▸ hi) ((halike hc).status ▸ hstatus) hne

/-- The findings of a resolution are those from scratch exactly when the kept reports of cycles are
the current ones. -/
theorem structuralFindings_perm_iff :
    (Model.structuralFindings (Resolution.ofTypes types old).nodes).Perm
        (Model.structuralFindings (Resolution.ofTypes types none).nodes) ↔
      ((types.filter fun m => reportsCycle (startTable types old) m.id).flatMap fun m =>
        findingsAt (startTable types old) m.id).Perm
      ((types.filter fun m => reportsCycle (startTable types old) m.id).map
        (cycleReport (.ofTypes types))) := by
  have hoff : ∀ m ∈ types, reportsCycle (startTable types old) m.id = false →
      (findingsAt (finalTable types old) m.id).Perm (findingsAt (finalTable types none) m.id) :=
    fun m _ hno => findingsAt_perm hw hold hno
  have hkept : ∀ m ∈ types.filter fun m => reportsCycle (startTable types old) m.id,
      findingsAt (finalTable types old) m.id = findingsAt (startTable types old) m.id ∧
        findingsAt (finalTable types none) m.id = [cycleReport (.ofTypes types) m] := by
    intro m hm
    obtain ⟨hmem, hyes⟩ := List.mem_filter.1 hm
    exact findingsAt_of_reportsCycle hw hold hmem hyes
  rw [structuralFindings_nodes hw, structuralFindings_nodes hw,
    flatMap_perm_iff_filter (fun m => reportsCycle (startTable types old) m.id) hoff,
    List.flatMap_congr fun m hm => (hkept m hm).1, List.flatMap_congr fun m hm => (hkept m hm).2,
    List.map_eq_flatMap]

end Resolving

/-! ## Reports of a type's own cycle -/

/-- A hierarchy that runs into a cycle reports nothing, or the cycle of the type with this code. -/
def ReportsOwn (code : String) (h : Hierarchy) : Prop :=
  h.status = .cycle → h.diagnostics = [] ∨
    ∃ location cycle, h.diagnostics = [.cyclicExtends location code cycle]

theorem Computed.reportsOwn (hw : o.WF) {id : TypeId} {m : Merged} {h : Hierarchy}
    (hc : Computed o start id h) (hm : o.types[id]? = some m)
    (hkept : start.at? id = some h → ReportsOwn m.code h) : ReportsOwn m.code h := by
  intro hstatus
  cases hc with
  | kept found => exact hkept found hstatus
  | cycle _ hi _ =>
    obtain ⟨hm', -⟩ := Outline.item?_eq_some.1 hi
    rw [hm] at hm'
    cases hm'
    exact .inr ⟨_, _, rfl⟩
  | top _ hi htop =>
    obtain ⟨ds, hd, hnot⟩ := derive_eq_ownOnly hw hi htop
    rw [hd] at hstatus
    exact absurd hstatus hnot
  | child _ _ _ _ _ => exact .inl (inherit_silent hstatus)

end Resolve

namespace Model

open Resolve

/-! ## Findings of a generation -/

/-- What a build keeps of a model is found there under the same code. -/
theorem exists_of_startTable {groups : List Group} {config : Config} {previous : Model}
    {id : TypeId} {t : Merged} {h : Hierarchy}
    (hh : (startTable (Merge.types groups) (earlier config (some previous))).at? id = some h)
    (ht : (Merge.types groups)[id]? = some t) :
    ∃ n, previous.node? id = some n ∧ n.hierarchy = some h ∧ n.code = t.code := by
  rcases startTable_cases (Merge.types groups) (earlier config (some previous)) with
    hs | ⟨nodes, hearlier, hcodes, hs⟩ <;> rw [hs] at hh
  · rw [at?_map_none] at hh
    cases hh
  · obtain ⟨-, -, hold⟩ := (at?_kept (wf_types groups)).1 hh
    obtain ⟨n, hn, hnode⟩ := Option.bind_eq_some_iff.1 hold
    have hnodes := nodes_of_earlier hearlier
    subst hnodes
    have hn' : (previous.nodes.map Node.toMerged)[id]? = some n.toMerged := by
      rw [List.getElem?_map, hn]
      rfl
    exact ⟨n, hn, hnode, (code_kind_of_same ((sameCodeTable_iff rfl).1 hcodes) ht hn').1⟩

/-- Every type of the model reports its own cycle only. -/
def OwnReports (m : Model) : Prop :=
  ∀ id n h, m.node? id = some n → n.hierarchy = some h → ReportsOwn n.code h

theorem ownReports_build {groups : List Group} {config : Config} {previous : Option Model}
    {generation revision : Nat} (hprevious : ∀ p, previous = some p → p.OwnReports) :
    (build groups config previous generation revision).OwnReports := by
  intro id n h hn hh
  have hw := wf_types groups
  have ht := toMerged_of_node? (map_toMerged_build groups config generation revision previous) hn
  have hfinal : (finalTable (Merge.types groups) (earlier config previous)).at? id = some h := by
    rw [← hierarchy_build groups config previous generation revision, hn]
    exact hh
  refine ((finalTable_sound hw _).1.computed hfinal).reportsOwn hw ht fun hkept => ?_
  cases previous with
  | none =>
    have hnone : (startTable (Merge.types groups) none).at? id = none := at?_map_none id
    rw [earlier_none, hnone] at hkept
    cases hkept
  | some p =>
    obtain ⟨n', hn', hh', hcode⟩ := exists_of_startTable hkept ht
    exact hcode ▸ hprevious p rfl id n' h hn' hh'

theorem Built.ownReports {groups : List Group} {m : Model} (hb : Built groups m) :
    m.OwnReports := by
  induction hb with
  | empty config =>
    intro id n h hn
    cases hn
  | first _ hbuild =>
    rw [eq_build_of_buildUnless hbuild]
    exact ownReports_build fun _ h => by cases h
  | next _ _ hbuild ih =>
    rw [eq_build_of_buildUnless hbuild]
    refine ownReports_build fun p h => ?_
    cases h
    exact ih

/-- The types on a cycle whose hierarchies, and so whose reports of the cycle, a build keeps. -/
def keptReports (groups : List Group) (config : Config) (previous : Model) : List Merged :=
  (Merge.types groups).filter fun m =>
    reportsCycle (startTable (Merge.types groups) (earlier config (some previous))) m.id

/-- The structural findings about a type. -/
def findingsOf (m : Model) (id : TypeId) : List Diagnostic :=
  (((m.node? id).bind Node.hierarchy).map Hierarchy.diagnostics).getD []

theorem exists_of_mem_keptReports {groups : List Group} {config : Config} {previous : Model}
    {t : Merged} (ht : t ∈ keptReports groups config previous) :
    ∃ n h, previous.node? t.id = some n ∧ n.hierarchy = some h ∧ n.code = t.code ∧
      h.status = .cycle ∧ h.diagnostics ≠ [] ∧
      findingsAt (startTable (Merge.types groups) (earlier config (some previous))) t.id =
        h.diagnostics := by
  obtain ⟨hmem, hyes⟩ := List.mem_filter.1 ht
  obtain ⟨i, hi⟩ := List.mem_iff_getElem?.1 hmem
  have hid : t.id = i := Merge.types_id hi
  obtain ⟨h, hstart, hreports⟩ := (Option.any_eq_true _ _).1 hyes
  obtain ⟨n, hn, hh, hcode⟩ := exists_of_startTable hstart (hid ▸ hi)
  rw [Bool.and_eq_true] at hreports
  refine ⟨n, h, hn, hh, hcode, by simpa [Hierarchy.isCycle] using hreports.1, ?_, ?_⟩
  · intro hnil
    simp [hnil] at hreports
  · unfold findingsAt
    rw [hstart]
    rfl

theorem findingsOf_eq {m : Model} {id : TypeId} {n : Node} {h : Hierarchy}
    (hn : m.node? id = some n) (hh : n.hierarchy = some h) : m.findingsOf id = h.diagnostics := by
  simp [findingsOf, hn, hh]

/-- A kept report is one about the cycle of its own type. -/
theorem findingsOf_keptReports {before groups : List Group} {config : Config} {previous : Model}
    (hp : Built before previous) {t : Merged} (ht : t ∈ keptReports groups config previous) :
    ∃ location cycle, previous.findingsOf t.id = [.cyclicExtends location t.code cycle] := by
  obtain ⟨n, h, hn, hh, hcode, hstatus, hne, -⟩ := exists_of_mem_keptReports ht
  rw [findingsOf_eq hn hh, ← hcode]
  exact (hp.ownReports t.id n h hn hh hstatus).resolve_left hne

theorem diagnostics_build (groups : List Group) (config : Config) (previous : Option Model)
    (generation revision : Nat) :
    (build groups config previous generation revision).diagnostics =
      groups.flatMap Group.diagnostics ++
        (Merge.all (Merge.declarations groups)).flatMap Prod.snd ++
        structuralFindings (Resolution.ofTypes (Merge.types groups) (earlier config previous)).nodes :=
  rfl

/-- The findings of a build over a history are those of a build from scratch, in some order, exactly
when the kept reports of cycles are the current ones. A kept report is about the cycle of its own
type; only its place and its spelling of the cycle can be out of date. -/
theorem diagnostics_perm_scratch_iff {before groups : List Group} {previous m : Model}
    {token : Token} {config : Config} {generation revision : Nat} (hp : Built before previous)
    (h : buildUnless token groups config (some previous) generation revision = .ok m)
    (config' : Config) (generation' revision' : Nat) :
    (m.diagnostics.Perm (build groups config' none generation' revision').diagnostics ↔
      ((keptReports groups config previous).flatMap fun t => previous.findingsOf t.id).Perm
        ((keptReports groups config previous).map
          (cycleReport (.ofTypes (Merge.types groups))))) ∧
    ∀ t ∈ keptReports groups config previous,
      ∃ location cycle, previous.findingsOf t.id = [.cyclicExtends location t.code cycle] := by
  refine ⟨?_, fun t ht => findingsOf_keptReports hp ht⟩
  have hrecorded : ∀ t ∈ keptReports groups config previous, previous.findingsOf t.id =
      findingsAt (startTable (Merge.types groups) (earlier config (some previous))) t.id := by
    intro t ht
    obtain ⟨n, k, hn, hk, -, -, -, hat⟩ := exists_of_mem_keptReports ht
    rw [findingsOf_eq hn hk, hat]
  rw [List.flatMap_congr hrecorded, eq_build_of_buildUnless h, diagnostics_build,
    diagnostics_build, earlier_none, List.perm_append_left_iff]
  exact structuralFindings_perm_iff (wf_types groups)
    (exists_current_of_earlier (wf_types before) hp.current)

/-- A type on a cycle is kept while another one changes: its report is still the current one. -/
theorem diagnostics_perm_scratch_unmoved :
    ∃ m, buildUnless .never [sampleGroup default [("A", some "A", []), ("B", some "X", ["x"])]] {}
        (some (build [sampleGroup default [("A", some "A", []), ("B", none, [])]] {} none 1 1)) 2 2 =
          .ok m ∧
      (keptReports [sampleGroup default [("A", some "A", []), ("B", some "X", ["x"])]] {}
        (build [sampleGroup default [("A", some "A", []), ("B", none, [])]] {} none 1 1)).length = 1 ∧
      m.diagnostics.length = 2 ∧
      m.diagnostics.Perm (build [sampleGroup default [("A", some "A", []), ("B", some "X", ["x"])]]
        { incremental := false } none 2 2).diagnostics := by
  have h : buildUnless .never
      [sampleGroup default [("A", some "A", []), ("B", some "X", ["x"])]] {}
      (some (build [sampleGroup default [("A", some "A", []), ("B", none, [])]] {} none 1 1)) 2 2 =
        .ok _ := rfl
  refine ⟨_, h, by decide, by decide, ?_⟩
  exact (diagnostics_perm_scratch_iff (.first .never rfl) h _ _ _).1.2 (by decide)

/-- Between two builds the declaration that decides the place of a type moves, and nothing else; the
cycle is still reported at the old place. -/
theorem diagnostics_not_perm_scratch_moved :
    ¬(build [sampleGroup ⟨⟨0⟩, 10, 15, by decide⟩ [("A", some "A", [])],
          sampleGroup ⟨⟨1⟩, 7, 9, by decide⟩ [("A", none, [])]] {}
        (some (build [sampleGroup ⟨⟨0⟩, 10, 15, by decide⟩ [("A", some "A", [])],
          sampleGroup ⟨⟨1⟩, 0, 2, by decide⟩ [("A", none, [])]] {} none 1 1)) 2 2).diagnostics.Perm
      (build [sampleGroup ⟨⟨0⟩, 10, 15, by decide⟩ [("A", some "A", [])],
        sampleGroup ⟨⟨1⟩, 7, 9, by decide⟩ [("A", none, [])]] {} none 2 2).diagnostics := by
  decide

end Model

end TypeAtlas
