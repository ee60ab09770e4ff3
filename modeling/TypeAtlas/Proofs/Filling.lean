/-
How a pass fills its table, over any parent links and any table in which with a type its parent is
filled in (`Grounded`), also one with kept hierarchies. Main statement: a walk from an unfilled item
type takes at most one step more than there are unfilled item types; it stores the unfilled types that
its start leads to, each once, and leaves every other entry alone; and the table is grounded again. So
the whole pass stores each unfilled item type once, and the number of hierarchies that a resolution
computes is the number of item types whose hierarchy is not taken over.

What a part of a pass stores is a list of ids (`Stores`), the cycle of a walk and then its lead-in. In
a grounded table these are, whichever way the walk ends, the unfilled types above its start.
-/
import TypeAtlas.Proofs.Safety

namespace TypeAtlas.Resolve

variable {o : Outline} {start table : HierarchyTable} {p p' p'' : Pass} {ids ids' : List TypeId}

/-! ## Stores -/

/-- A part of a pass that stores hierarchies for some types, one after another, and nothing else. -/
inductive Stores : Pass → List TypeId → Pass → Prop
  | nil (p : Pass) : Stores p [] p
  | cons {p p' : Pass} {id : TypeId} {ids : List TypeId} (h : Hierarchy)
      (rest : Stores (p.store id h) ids p') : Stores p (id :: ids) p'

theorem Stores.append (hs : Stores p ids p') (hs' : Stores p' ids' p'') :
    Stores p (ids ++ ids') p'' := by
  induction hs with
  | nil => exact hs'
  | cons h _ ih => exact .cons h (ih hs')

/-- Every store is counted. -/
theorem Stores.resolved (hs : Stores p ids p') : p'.resolved = p.resolved + ids.length := by
  induction hs with
  | nil => rfl
  | cons h _ ih =>
    rw [ih, List.length_cons]
    simp only [Pass.store]
    omega

theorem Stores.length (hs : Stores p ids p') : p'.table.length = p.table.length := by
  induction hs with
  | nil => rfl
  | cons h _ ih => rw [ih, Pass.store, List.length_set]

theorem Stores.at?_of_not_mem (hs : Stores p ids p') {x : TypeId} (hx : x ∉ ids) :
    p'.table.at? x = p.table.at? x := by
  induction hs with
  | nil => rfl
  | cons h _ ih =>
    obtain ⟨hne, hx⟩ := List.ne_and_not_mem_of_not_mem_cons hx
    rw [ih hx]
    unfold HierarchyTable.at? Pass.store
    rw [List.getElem?_set_ne (Ne.symm hne)]

theorem Stores.isSome_of_mem (hs : Stores p ids p') {x : TypeId} (hx : x ∈ ids)
    (hlt : x < p.table.length) : (p'.table.at? x).isSome := by
  induction hs with
  | nil => cases hx
  | @cons p _ id ids h rest ih =>
    by_cases hmem : x ∈ ids
    · exact ih hmem (by rw [Pass.store, List.length_set]; exact hlt)
    · -- nothing is stored for `x` later
      obtain rfl := (List.mem_cons.1 hx).resolve_right hmem
      rw [rest.at?_of_not_mem hmem]
      show (HierarchyTable.at? (p.table.set x (some h)) x).isSome
      rw [at?_set hlt, if_pos rfl]
      rfl

theorem stores_foldl {step : Pass → TypeId → Pass}
    (h : ∀ id ∈ ids, ∀ p, ∃ k, step p id = p.store id k) (p : Pass) :
    Stores p ids (ids.foldl step p) := by
  induction ids generalizing p with
  | nil => exact .nil p
  | cons id ids ih =>
    obtain ⟨k, hk⟩ := h id List.mem_cons_self p
    rw [List.foldl_cons, hk]
    exact .cons k (ih (fun x hx => h x (List.mem_cons_of_mem _ hx)) _)

/-! ## The types of a walk -/

/-- The types of a walk, in the order in which they are filled in. -/
def Walk.passed (w : Walk) : List TypeId := w.cycle ++ w.leadIn

/-- Settling a walk of item types stores each of them in turn. -/
theorem stores_settle {w : Walk} (hitem : ∀ x ∈ w.passed, (o.item? x).isSome) (p : Pass) :
    Stores p w.passed (p.settle o w) := by
  refine (stores_foldl (fun id hid p => ?_) p).append (stores_foldl (fun id hid p => ?_) _)
  · obtain ⟨⟨m, own⟩, hi⟩ :=
      Option.isSome_iff_exists.1 (hitem id (List.mem_append_left _ hid))
    exact ⟨_, markCycle_eq_store p _ hi⟩
  · obtain ⟨⟨m, own⟩, hi⟩ :=
      Option.isSome_iff_exists.1 (hitem id (List.mem_append_right _ hid))
    exact ⟨_, deriveOne_eq_store p hi⟩

/-- A cycle and its lead-in make up the path that closed it. -/
theorem passed_perm (turn rest : List TypeId) (id : TypeId) :
    (Walk.passed ⟨rest, id :: turn.reverse⟩).Perm (turn ++ id :: rest) :=
  (((List.reverse_perm turn).append_right rest).cons id).trans List.perm_middle.symm

theorem Ends.fresh {first : TypeId} {w : Walk} (h : Ends o table first w) : Fresh table w.passed := by
  cases h with
  | filled _ fresh _ => exact fresh
  | root _ fresh _ => exact fresh
  | @cycle turn rest id _ fresh =>
    have hperm := passed_perm turn rest id
    exact ⟨hperm.nodup_iff.2 fresh.nodup, fun x hx => fresh.unfilled x (hperm.mem_iff.1 hx)⟩

/-- A walk passes the types that its start leads to. -/
theorem Ends.leads {first : TypeId} {w : Walk} (h : Ends o table first w) :
    ∀ x ∈ w.passed, o.Leads first x := by
  intro x hx
  cases h with
  | filled trail _ _ => exact trail.leads_of_mem x hx
  | root trail _ _ =>
    rcases List.mem_cons.1 hx with rfl | hx
    · exact trail.leads
    · exact trail.leads_of_mem x hx
  | @cycle turn rest id trail _ =>
    exact trail.leads_of_mem x ((passed_perm turn rest id).mem_iff.1 hx)

/-- In a grounded table a walk leaves out no unfilled type that its start leads to. -/
theorem Ends.mem_passed (hg : Grounded o table) {first : TypeId} {w : Walk}
    (h : Ends o table first w) {x : TypeId} (hx : o.Leads first x) (hopen : table.at? x = none) :
    x ∈ w.passed := by
  cases h with
  | filled trail _ found =>
    rcases trail.mem_or_leads hx with hmem | hleads
    · exact hmem
    · -- what is above a filled type is filled in
      have hfilled := hg.filled_of_leads hleads found
      rw [hopen] at hfilled
      cases hfilled
  | root trail _ top =>
    rcases trail.mem_or_leads hx with hmem | hleads
    · exact List.mem_cons_of_mem _ hmem
    · rcases Relation.ReflTransGen.cases_head hleads with rfl | ⟨y, hy, -⟩
      · exact List.mem_cons_self
      · exact absurd hy (Outline.not_up_of_top top)
  | @cycle turn rest id trail _ =>
    rcases trail.mem_or_leads hx with hmem | hleads
    · exact (passed_perm turn rest id).mem_iff.2 hmem
    · exact List.mem_append_left _ (mem_of_leads (cycle_closed trail) List.mem_cons_self hleads)

/-! ## Parts of a pass -/

/-- A part of a pass that stores hierarchies for unfilled item types, for each once, and leaves a
grounded table. -/
structure Adds (o : Outline) (ids : List TypeId) (p p' : Pass) : Prop where
  stores : Stores p ids p'
  fresh : Fresh p.table ids
  items : ∀ x ∈ ids, (o.item? x).isSome
  grounded : Grounded o p'.table

theorem adds_nil (hg : Grounded o p.table) : Adds o [] p p :=
  ⟨.nil p, fresh_nil, fun _ h => (nomatch h), hg⟩

/-- What was filled in is as it was. -/
theorem Adds.keeps (h : Adds o ids p p') {x : TypeId} (hx : (p.table.at? x).isSome) :
    p'.table.at? x = p.table.at? x := by
  refine h.stores.at?_of_not_mem fun hmem => ?_
  rw [h.fresh.unfilled x hmem] at hx
  cases hx

theorem Adds.grows (h : Adds o ids p p') {x : TypeId} (hx : (p.table.at? x).isSome) :
    (p'.table.at? x).isSome := by
  rw [h.keeps hx]
  exact hx

theorem Adds.fills (h : Adds o ids p p') (hg : Grounded o p.table) {x : TypeId} (hx : x ∈ ids) :
    (p'.table.at? x).isSome :=
  h.stores.isSome_of_mem hx (Guarded.lt_length_table hg.length (h.items x hx))

section Exactly

variable {P : TypeId → Prop} (hids : ∀ x, x ∈ ids ↔ P x ∧ p.table.at? x = none)

include hids

/-- A part that stores what is unfilled of some types has them all filled in. -/
theorem Adds.fills_all (h : Adds o ids p p') (hg : Grounded o p.table) {x : TypeId} (hx : P x) :
    (p'.table.at? x).isSome := by
  by_cases hfilled : (p.table.at? x).isSome
  · exact h.grows hfilled
  · exact h.fills hg ((hids x).2 ⟨hx, by simpa using hfilled⟩)

/-- It leaves the other types, and what was filled in, as they were. -/
theorem Adds.keeps_rest (h : Adds o ids p p') {x : TypeId}
    (hx : (p.table.at? x).isSome ∨ ¬P x) : p'.table.at? x = p.table.at? x := by
  rcases hx with hx | hx
  · exact h.keeps hx
  · exact h.stores.at?_of_not_mem fun hmem => hx ((hids x).1 hmem).1

end Exactly

theorem Adds.trans (hg : Grounded o p.table) (h : Adds o ids p p') (h' : Adds o ids' p' p'') :
    Adds o (ids ++ ids') p p'' := by
  -- what the second part stores was not stored by the first
  have hapart : ∀ x ∈ ids', x ∉ ids := by
    intro x hx' hx
    have hfilled := h.fills hg hx
    rw [h'.fresh.unfilled x hx'] at hfilled
    cases hfilled
  refine ⟨h.stores.append h'.stores, ⟨?_, fun x hx => ?_⟩, fun x hx => ?_, h'.grounded⟩
  · exact h.fresh.nodup.append h'.fresh.nodup fun x hx hx' => hapart x hx' hx
  · rcases List.mem_append.1 hx with hx | hx
    · exact h.fresh.unfilled x hx
    · rw [← h.stores.at?_of_not_mem (hapart x hx)]
      exact h'.fresh.unfilled x hx
  · rcases List.mem_append.1 hx with hx | hx
    · exact h.items x hx
    · exact h'.items x hx

/-! ## One walk -/

/-- A walk stores the types that it passed. They hold all that was unfilled above its start, so the
table is grounded again. -/
theorem adds_settle (hw : o.WF) (hg : Grounded o p.table) {first : TypeId}
    (hitem : (o.item? first).isSome) :
    Adds o (walkFrom o p.table first).passed p (p.settle o (walkFrom o p.table first)) := by
  have hends := walkFrom_ends hw p.table first
  have hitems : ∀ x ∈ (walkFrom o p.table first).passed, (o.item? x).isSome := fun x hx =>
    Guarded.item_of_mem_walk hw hitem (List.mem_append.1 hx).symm
  have hstores := stores_settle hitems p
  generalize walkFrom o p.table first = w at hends hitems hstores
  have hstored : ∀ x ∈ w.passed, ((p.settle o w).table.at? x).isSome := fun x hx =>
    hstores.isSome_of_mem hx (Guarded.lt_length_table hg.length (hitems x hx))
  have hgrows : ∀ x, (p.table.at? x).isSome → ((p.settle o w).table.at? x).isSome := by
    intro x hx
    by_cases hmem : x ∈ w.passed
    · exact hstored x hmem
    · rw [hstores.at?_of_not_mem hmem]
      exact hx
  refine ⟨hstores, hends.fresh, hitems, hstores.length.trans hg.length, fun {x y} hx hup => ?_⟩
  by_cases hy : (p.table.at? y).isSome
  · exact hgrows y hy
  · have hopen : p.table.at? y = none := by simpa using hy
    -- the child of an unfilled type was unfilled, so the walk passed it, and with it its parent
    have hpassed : x ∈ w.passed := by
      by_contra hmem
      rw [hstores.at?_of_not_mem hmem] at hx
      exact hy (hg.up hx hup)
    exact hstored y (hends.mem_passed hg ((hends.leads x hpassed).tail hup) hopen)

/-- The types that a walk stores are the unfilled ones that its start leads to. -/
theorem mem_passed_iff (hw : o.WF) (hg : Grounded o table) (first : TypeId) {x : TypeId} :
    x ∈ (walkFrom o table first).passed ↔ o.Leads first x ∧ table.at? x = none := by
  have hends := walkFrom_ends hw table first
  exact ⟨fun hx => ⟨hends.leads x hx, hends.fresh.unfilled x hx⟩, fun hx =>
    hends.mem_passed hg hx.1 hx.2⟩

/-! ## The whole pass -/

/-- Looking at one type keeps the table grounded and fills the type in, if it is an item type. -/
theorem exists_adds_resolve (hw : o.WF) (hg : Grounded o p.table) {m : Merged} (hm : m ∈ o.types) :
    ∃ ids, Adds o ids p (p.resolve o m) ∧
      (m.isItem = true → ((p.resolve o m).table.at? m.id).isSome) := by
  unfold Pass.resolve
  split
  · rename_i hneeds
    rw [Bool.and_eq_true, Option.isNone_iff_eq_none] at hneeds
    have hadds := adds_settle hw hg
      (Outline.item?_isSome_iff.2 ⟨m, hw.getElem?_id hm, hneeds.1⟩)
    refine ⟨_, hadds, fun _ => hadds.fills hg ?_⟩
    exact (mem_passed_iff hw hg m.id).2 ⟨.refl, hneeds.2⟩
  · rename_i hneeds
    refine ⟨[], adds_nil hg, fun hitem => ?_⟩
    rw [hitem, Bool.true_and, Option.isNone_iff_eq_none] at hneeds
    exact Option.isSome_iff_ne_none.2 hneeds

theorem exists_adds_foldl (hw : o.WF) {ms : List Merged} (hms : ∀ m ∈ ms, m ∈ o.types) {p : Pass}
    (hg : Grounded o p.table) :
    ∃ ids, Adds o ids p (ms.foldl (Pass.resolve o) p) ∧
      ∀ m ∈ ms, m.isItem = true → ((ms.foldl (Pass.resolve o) p).table.at? m.id).isSome := by
  induction ms generalizing p with
  | nil => exact ⟨[], adds_nil hg, fun _ h => by cases h⟩
  | cons m ms ih =>
    obtain ⟨ids, hadds, hfilled⟩ := exists_adds_resolve hw hg (hms m List.mem_cons_self)
    obtain ⟨ids', hadds', hrest⟩ :=
      ih (fun n hn => hms n (List.mem_cons_of_mem _ hn)) hadds.grounded
    refine ⟨ids ++ ids', hadds.trans hg hadds', fun n hn hitem => ?_⟩
    rcases List.mem_cons.1 hn with rfl | hn
    · exact hadds'.grows (hfilled hitem)
    · exact hrest n hn hitem

/-- A pass stores each unfilled item type once. -/
theorem exists_adds_run (hw : o.WF) (hg : Grounded o start) :
    ∃ ids, Adds o ids ⟨start, 0⟩ (run o start) ∧ ids.Perm (unfilled o start) := by
  obtain ⟨ids, hadds, hfilled⟩ := exists_adds_foldl hw (fun _ hm => hm) (p := ⟨start, 0⟩) hg
  refine ⟨ids, hadds, ?_⟩
  rw [List.perm_ext_iff_of_nodup hadds.fresh.nodup (nodup_unfilled hw)]
  intro x
  rw [mem_unfilled hw]
  constructor
  · intro hx
    exact ⟨hadds.items x hx, hadds.fresh.unfilled x hx⟩
  · rintro ⟨hitem, hopen⟩
    obtain ⟨m, hm, hisItem⟩ := Outline.item?_isSome_iff.1 hitem
    have hdone := hfilled m (List.mem_of_getElem? hm) hisItem
    by_contra hmem
    rw [hw.id hm, hadds.stores.at?_of_not_mem hmem, hopen] at hdone
    cases hdone

/-! ## Hierarchies taken over -/

/-- Whether a resolution takes over the hierarchy of a type: the earlier table has the same codes and
kinds, and neither the type nor anything above it has changed. -/
def takesOver (types : List Merged) (old : Option (List Node)) (m : Merged) : Bool :=
  (old.filter fun nodes => sameCodeTable nodes types).any fun nodes =>
    !(affected types nodes).contains m.id

/-- A resolution starts with the hierarchies that it takes over. -/
theorem at?_startTable_of_item {types : List Merged} (hw : (Outline.ofTypes types).WF)
    (old : Option (List Node)) {m : Merged} (hm : m ∈ types) (hitem : m.isItem = true) :
    if takesOver types old m then
      ∃ nodes h, old = some nodes ∧ (nodes[m.id]?).bind Node.hierarchy = some h ∧
        (startTable types old).at? m.id = some h
    else (startTable types old).at? m.id = none := by
  unfold takesOver startTable
  cases hold : old.filter fun nodes => sameCodeTable nodes types with
  | none => exact at?_map_none m.id
  | some nodes =>
    have hfound := hw.getElem?_id hm
    by_cases hmem : m.id ∈ affected types nodes
    · have hkept : (kept (.ofTypes types) nodes (affected types nodes)).at? m.id = none :=
        Option.eq_none_iff_forall_not_mem.2 fun h hh => ((at?_kept hw).1 hh).2.1 hmem
      simpa [hmem] using hkept
    · obtain ⟨⟨t, own⟩, hi⟩ :=
        Option.isSome_iff_exists.1 (Outline.item?_isSome_iff.2 ⟨m, hfound, hitem⟩)
      obtain ⟨n, h, hn, hh, -⟩ := unchanged_of_not_affected hw hi hmem
      have hlast : (nodes[m.id]?).bind Node.hierarchy = some h := by rw [hn]; exact hh
      have hlt : m.id < types.length := (List.getElem?_eq_some_iff.1 hfound).1
      have hkept := (at?_kept hw).2 ⟨hlt, hmem, hlast⟩
      have hsome : old = some nodes := (Option.filter_eq_some_iff.1 hold).1
      simpa [hmem] using ⟨nodes, hsome, h, hlast, hkept⟩

/-- The item types that a resolution starts without are those whose hierarchy it does not take
over. -/
theorem length_unfilled_startTable {types : List Merged} (hw : (Outline.ofTypes types).WF)
    (old : Option (List Node)) :
    (unfilled (.ofTypes types) (startTable types old)).length =
      types.countP fun m => m.isItem && !takesOver types old m := by
  unfold unfilled
  rw [List.length_map, List.countP_eq_length_filter]
  refine congrArg List.length (List.filter_congr fun m hm => ?_)
  cases hitem : m.isItem with
  | false => rfl
  | true =>
    have hat := at?_startTable_of_item hw old hm hitem
    cases htaken : takesOver types old m with
    | false =>
      simp only [htaken, Bool.false_eq_true, if_false] at hat
      rw [hat]
      rfl
    | true =>
      simp only [htaken, if_true] at hat
      obtain ⟨nodes, h, -, -, hat⟩ := hat
      rw [hat]
      rfl

/-! ## Each item type once -/

/-- What a walk from an unfilled item type does to a pass. -/
structure FillsWay (o : Outline) (p : Pass) (first : TypeId) (p' : Pass) : Prop where
  /-- With a step for every unfilled item type, and one more, the walk ends by itself. -/
  steps : ∀ steps, (unfilled o p.table).length + 1 ≤ steps →
    Guarded.climb o p.table steps [] first = .ok (walkFrom o p.table first)
  /-- The walk and the stores after it read and write inside the tables. -/
  returns : ∀ interval, 0 < interval → (Guarded.resolveOne o interval p first).run .never = .ok p'
  /-- The unfilled types that the start leads to are stored, each once, and no other type is. -/
  once : ∃ ids, Stores p ids p' ∧ ids.Nodup ∧
    ∀ x, x ∈ ids ↔ o.Leads first x ∧ p.table.at? x = none
  fills : ∀ x, o.Leads first x → (p'.table.at? x).isSome
  keeps : ∀ x, (p.table.at? x).isSome ∨ ¬o.Leads first x → p'.table.at? x = p.table.at? x
  grounded : Grounded o p'.table

/-- What a pass over all types does to a table. -/
structure FillsAll (o : Outline) (start : HierarchyTable) : Prop where
  /-- The unfilled item types are stored, each once, and no other type is. -/
  once : ∃ ids, Stores ⟨start, 0⟩ ids (run o start) ∧ ids.Nodup ∧
    ∀ id, id ∈ ids ↔ (o.item? id).isSome ∧ start.at? id = none
  fills : ∀ id, (o.item? id).isSome → ((run o start).table.at? id).isSome
  keeps : ∀ id, (start.at? id).isSome ∨ o.item? id = none →
    (run o start).table.at? id = start.at? id
  grounded : Grounded o (run o start).table
  resolved : (run o start).resolved = (unfilled o start).length

/-- What a resolution over an earlier table counts. -/
structure CountsNew (types : List Merged) (old : Option (List Node)) : Prop where
  resolved : (Resolution.ofTypes types old).resolved =
    types.countP fun m => m.isItem && !takesOver types old m
  takenOver : ∀ m ∈ types, m.isItem = true → takesOver types old m = true →
    ∃ nodes h, old = some nodes ∧ (nodes[m.id]?).bind Node.hierarchy = some h ∧
      ((Resolution.ofTypes types old).nodes[m.id]?).bind Node.hierarchy = some h

theorem fillsWay_settle (hw : o.WF) (ht : o.Tabled) (hg : Grounded o p.table) {first : TypeId}
    (hitem : (o.item? first).isSome) (hopen : p.table.at? first = none) :
    FillsWay o p first (p.settle o (walkFrom o p.table first)) := by
  have hadds := adds_settle hw hg hitem
  have hmem := fun x => mem_passed_iff hw hg first (x := x)
  refine ⟨fun steps => Guarded.walkFrom_eq hw ht hg.length hitem, fun interval hpos => ?_,
    ⟨_, hadds.stores, hadds.fresh.nodup, hmem⟩, fun x => hadds.fills_all hmem hg,
    fun x => hadds.keeps_rest hmem, hadds.grounded⟩
  obtain ⟨m, hm, hisItem⟩ := Outline.item?_isSome_iff.1 hitem
  obtain rfl := hw.id hm
  have hresolve : p.resolve o m = p.settle o (walkFrom o p.table m.id) :=
    if_pos (by simp [hisItem, hopen])
  rw [← hresolve]
  exact (Guarded.fills_resolveOne hpos hw ht (List.mem_of_getElem? hm) p hg.length).2.run_never

theorem fillsAll_run (hw : o.WF) (hg : Grounded o start) : FillsAll o start := by
  obtain ⟨ids, hadds, hperm⟩ := exists_adds_run hw hg
  have hmem : ∀ id, id ∈ ids ↔ (o.item? id).isSome ∧ start.at? id = none := fun id =>
    hperm.mem_iff.trans (mem_unfilled hw)
  refine ⟨⟨ids, hadds.stores, hadds.fresh.nodup, hmem⟩, fun id => hadds.fills_all hmem hg,
    fun id hid => hadds.keeps_rest hmem (hid.imp_right fun hnone => ?_), hadds.grounded, ?_⟩
  · rw [hnone]
    exact Bool.false_ne_true
  · rw [hadds.stores.resolved, Nat.zero_add, hperm.length_eq]

theorem countsNew_ofTypes {types : List Merged} (hw : (Outline.ofTypes types).WF)
    (old : Option (List Node)) : CountsNew types old := by
  have hall : FillsAll (.ofTypes types) (startTable types old) :=
    fillsAll_run hw ⟨length_startTable types old, startTable_up hw⟩
  constructor
  · rw [Resolution.resolved_ofTypes, hall.resolved, length_unfilled_startTable hw]
  · intro m hm hitem htaken
    have hat := at?_startTable_of_item hw old hm hitem
    rw [if_pos htaken] at hat
    obtain ⟨nodes, h, hold, hlast, hstart⟩ := hat
    refine ⟨nodes, h, hold, hlast, ?_⟩
    rw [Resolution.hierarchy_nodes hw, ← hstart]
    exact hall.keeps m.id (.inl (by rw [hstart]; rfl))

/-- Every unfilled item type is filled in once: by a walk from any of them, whatever is filled in
already, and by the whole pass; and a resolution counts the item types whose hierarchy it does not
take over. -/
structure FillsOnce (o : Outline) : Prop where
  walk : ∀ (p : Pass) (first : TypeId), Grounded o p.table → (o.item? first).isSome →
    p.table.at? first = none → FillsWay o p first (p.settle o (walkFrom o p.table first))
  loop : ∀ start, Grounded o start → FillsAll o start
  count : ∀ types old, o = .ofTypes types → CountsNew types old

theorem fillsOnce_of_wf (hw : o.WF) (ht : o.Tabled) : FillsOnce o where
  walk _ _ hg hitem hopen := fillsWay_settle hw ht hg hitem hopen
  loop _ hg := fillsAll_run hw hg
  count types old htypes := by
    subst htypes
    exact countsNew_ofTypes hw old

/-- `C` extends `B` and `B` extends `A`; `F` extends `D`, and `D` and `E` extend each other. `D` has
some attributes. -/
def branchedTypes (qualifiers : List String) : List Merged :=
  Merge.types [Model.sampleGroup default [("A", none, []), ("B", some "A", []), ("C", some "B", []),
    ("D", some "E", qualifiers), ("E", some "D", []), ("F", some "D", [])]]

/-- `D` gets an attribute. The hierarchies of `A`, `B` and `C` are taken over, and a walk from `F`
fills in the cycle and then `F`. -/
theorem fillsOnce_of_wf_branched :
    ∃ (old : List Node) (start : HierarchyTable),
      old = (Resolution.ofTypes (branchedTypes []) none).nodes ∧
      start = startTable (branchedTypes ["x"]) (some old) ∧
      Grounded (.ofTypes (branchedTypes ["x"])) start ∧
      unfilled (.ofTypes (branchedTypes ["x"])) start = [3, 4, 5] ∧
      (walkFrom (.ofTypes (branchedTypes ["x"])) start 5).passed = [3, 4, 5] ∧
      FillsWay (.ofTypes (branchedTypes ["x"])) ⟨start, 0⟩ 5
        (Pass.settle (.ofTypes (branchedTypes ["x"])) ⟨start, 0⟩ ⟨[5], [3, 4]⟩) ∧
      FillsAll (.ofTypes (branchedTypes ["x"])) start ∧
      CountsNew (branchedTypes ["x"]) (some old) ∧
      (Resolution.ofTypes (branchedTypes ["x"]) (some old)).resolved = 3 := by
  have hw : (Outline.ofTypes (branchedTypes ["x"])).WF := Model.wf_types _
  have hg := Grounded.mk (length_startTable (branchedTypes ["x"])
    (some (Resolution.ofTypes (branchedTypes []) none).nodes)) (startTable_up hw)
  obtain ⟨hwalk, hloop, hcount⟩ := fillsOnce_of_wf hw (Outline.tabled_ofTypes _)
  exact ⟨_, _, rfl, rfl, hg, by decide, by decide, hwalk ⟨_, 0⟩ 5 hg (by decide) (by decide),
    hloop _ hg, hcount _ _ rfl, by decide⟩

end TypeAtlas.Resolve
