/-
A build is stopped by nothing but its token. Main statement: with fewer than 2³² codes the guarded
build gives, under every token, what the build that only counts its looks gives; so with a token that
never fires it gives the model, whatever the declarations, the settings and the model before, and the
interval has no part in it. With a token that has fired it is superseded, whatever the input.

Children, kept hierarchies and the types of a walk are item types of the table. The search for what
is affected has a step for every link that it has not followed, and a walk passes no type twice, so
neither runs out of steps. The looks are counted by the hierarchies computed (`Fills`).
-/
import TypeAtlas.Declaration.Adapt
import TypeAtlas.Proofs.Generations
import TypeAtlas.Proofs.Linking

namespace TypeAtlas.Guarded

variable {o : Outline} {types : List Merged} {byCode : Dict TypeId}

/-! ## Tables of an outline -/

theorem read_parents (ht : o.Tabled) {id : TypeId} (hlt : id < o.types.length) :
    read o.parents id = .ok (o.parent id) := by
  have hlt' : id < o.parents.length := ht.parents.symm ▸ hlt
  refine read_of_getElem? ?_
  simp [Outline.parent, hlt']

theorem read_ownEnds (ht : o.Tabled) {id : TypeId} (hlt : id < o.types.length) :
    read o.ownEnds id = .ok (o.endsOf id) := by
  have hlt' : id < o.ownEnds.length := ht.ownEnds.symm ▸ hlt
  refine read_of_getElem? ?_
  simp [Outline.endsOf, hlt']

/-! ## Choosing what to keep -/

theorem changed_eq (hw : (Outline.ofTypes types).WF) (old : List Node) {m : Merged}
    (hm : m ∈ types) :
    changed (.ofTypes types) old m = .ok (Resolve.changed (.ofTypes types) old m) := by
  have hlt : m.id < types.length := (List.getElem?_eq_some_iff.1 (getElem?_id hw hm)).1
  have hread := read_ownEnds (Outline.tabled_ofTypes types) hlt
  unfold changed Resolve.changed
  cases old[m.id]? with
  | none => rfl
  | some n =>
    dsimp only
    by_cases hsame : n.toMerged.sameContent m = true
    · rw [if_pos hsame]
      cases n.hierarchy with
      | none => simp [hsame, pure, Except.pure]
      | some h => simp [hsame, hread, ok_bind, pure, Except.pure]
    · simp [hsame, pure, Except.pure]

theorem changedItems_eq (hw : (Outline.ofTypes types).WF) (old : List Node) :
    changedItems (.ofTypes types) old = .ok (Resolve.changedItems (.ofTypes types) old) := by
  refine foldlM_taken (addChanged (.ofTypes types) old) types
    (fun taken =>
      (taken.filter fun m => m.isItem && Resolve.changed (.ofTypes types) old m).map Merged.id)
    fun taken m hm => ?_
  unfold addChanged
  cases hitem : m.isItem with
  | false => simp [hitem, pure, Except.pure]
  | true =>
    rw [if_pos rfl, changed_eq hw old hm, ok_bind]
    cases hchanged : Resolve.changed (.ofTypes types) old m <;>
      simp [hitem, hchanged, pure, Except.pure]

/-- A search stays in the table of children, and the links not followed yet are steps enough. -/
theorem visit_eq {children : ChildTable} (hin : ∀ a, ∀ b ∈ children.of a, b < children.length) :
    ∀ (fuel : Nat) (stack seen : List TypeId), (∀ x ∈ stack, x < children.length) →
      stack.length + children.unseenLinks seen ≤ fuel →
      visit children fuel stack seen = .ok (children.visit fuel stack seen)
  | 0, [], seen, _, _ => rfl
  | _ + 1, [], seen, _, _ => rfl
  | 0, id :: stack, seen, _, hfuel => by
    rw [List.length_cons] at hfuel
    omega
  | fuel + 1, id :: stack, seen, hstack, hfuel => by
    obtain ⟨hid, hstack⟩ := List.forall_mem_cons.1 hstack
    rw [List.length_cons] at hfuel
    unfold visit ChildTable.visit
    by_cases hseen : seen.contains id = true
    · rw [if_pos hseen, if_pos hseen]
      exact visit_eq hin fuel stack seen hstack (by omega)
    · rw [if_neg hseen, if_neg hseen]
      have hread : read children id = .ok (children.of id) :=
        read_of_getElem? (by simp [ChildTable.of, hid])
      have hlinks := ChildTable.unseenLinks_append children
        (fun h => hseen (List.contains_iff_mem.2 h) : id ∉ seen)
      rw [hread, ok_bind]
      refine visit_eq hin fuel _ _ (fun x hx => ?_) (by rw [List.length_append]; omega)
      rcases List.mem_append.1 hx with hx | hx
      · exact hin id x hx
      · exact hstack x hx

theorem length_children (types : List Merged) :
    (Outline.ofTypes types).children.length = types.length := by
  simp [Outline.children, Outline.ofTypes]

theorem lt_of_mem_children (hw : (Outline.ofTypes types).WF) {a b : TypeId}
    (hb : b ∈ (Outline.ofTypes types).children.of a) :
    b < (Outline.ofTypes types).children.length := by
  rw [length_children]
  exact Outline.lt_length_of_item? (hw.child ((Outline.mem_children hw).1 hb))

theorem lt_of_mem_changedItems (hw : (Outline.ofTypes types).WF) {old : List Node} {id : TypeId}
    (hid : id ∈ Resolve.changedItems (.ofTypes types) old) :
    id < (Outline.ofTypes types).children.length := by
  obtain ⟨m, hm, rfl⟩ := List.mem_map.1 hid
  have hfound := getElem?_id hw (List.mem_filter.1 hm).1
  rw [length_children]
  exact (List.getElem?_eq_some_iff.1 hfound).1

/-- The scope of a resolution, which goes with the hierarchies that it starts from. -/
theorem choose_eq (hw : (Outline.ofTypes types).WF) (old : Option (List Node)) :
    choose (.ofTypes types) (Outline.ofTypes types).children old =
      .ok ((Resolution.ofTypes types old).scope, Resolve.startTable types old) := by
  have htypes : (Outline.ofTypes types).types = types := rfl
  unfold choose Resolution.ofTypes Resolve.startTable
  rw [htypes]
  cases old.filter fun nodes => Resolve.sameCodeTable nodes types with
  | none => rfl
  | some nodes =>
    have hvisit := visit_eq (fun a b => lt_of_mem_children hw)
      ((Outline.ofTypes types).children.bound (Resolve.changedItems (.ofTypes types) nodes))
      (Resolve.changedItems (.ofTypes types) nodes) []
      (fun x => lt_of_mem_changedItems hw)
      (by rw [ChildTable.unseenLinks_nil, ChildTable.bound, List.length_flatten])
    simp only [changedItems_eq hw, ok_bind, hvisit]
    rfl

/-! ## Walks -/

section Filling

variable {table : HierarchyTable} {interval : Nat}

theorem lt_length_table (hlength : table.length = o.types.length) {id : TypeId}
    (hitem : (o.item? id).isSome) : id < table.length := by
  rw [hlength]
  exact Outline.lt_length_of_item? hitem

theorem read_table {id : TypeId} (hlt : id < table.length) :
    read table id = .ok (table.at? id) := by
  refine read_of_getElem? ?_
  simp [HierarchyTable.at?, List.getElem?_eq_getElem hlt]

theorem needs_eq (hlength : table.length = o.types.length) {id : TypeId} {m : Merged}
    (hm : o.types[id]? = some m) :
    needs o table id = .ok (m.isItem && (table.at? id).isNone) := by
  have hlt : id < table.length := by
    rw [hlength]
    exact (List.getElem?_eq_some_iff.1 hm).1
  unfold needs
  rw [read_of_getElem? hm, ok_bind]
  cases m.isItem with
  | false => rfl
  | true =>
    rw [if_pos rfl, read_table hlt]
    rfl

/-- A walk stays in the tables: it goes from item type to item type, and passes no unfilled one
twice; more steps than it needs do not change it. -/
theorem climb_eq (hw : o.WF) (ht : o.Tabled) (hlength : table.length = o.types.length) (extra : Nat)
    {first : TypeId} : ∀ {fuel : Nat} {path : List TypeId} {id : TypeId}, (o.item? id).isSome →
      Resolve.Trail o first path id → Resolve.Fresh table path →
      (Resolve.unfilled o table).length + 1 ≤ fuel + path.length →
      climb o table fuel path id = .ok (Resolve.climb o table (fuel + extra) path id)
  | 0, path, id, _, htrail, hfresh, hfuel => by
    have hle := Resolve.length_le_unfilled hw htrail hfresh
    omega
  | fuel + 1, path, id, hitem, htrail, hfresh, hfuel => by
    rw [Nat.add_right_comm]
    unfold climb Resolve.climb
    rw [read_table (lt_length_table hlength hitem), ok_bind]
    by_cases hfilled : (table.at? id).isSome = true
    · rw [if_pos hfilled, if_pos hfilled]
      rfl
    · rw [if_neg hfilled, if_neg hfilled]
      by_cases hmet : path.contains id = true
      · rw [if_pos hmet, if_pos hmet]
        rfl
      · rw [if_neg hmet, if_neg hmet, read_parents ht (Outline.lt_length_of_item? hitem), ok_bind]
        unfold Outline.parentItem?
        cases hparent : o.parent id with
        | item p =>
          have hup : o.Up id p := Outline.up_iff_parent.2 hparent
          refine climb_eq hw ht hlength extra (hw.parent hup) (.cons htrail hup) ?_ ?_
          · exact hfresh.cons (by simpa using hfilled) fun h => hmet (List.contains_iff_mem.2 h)
          · rw [List.length_cons]
            omega
        | _ => rfl

/-- One step for each unfilled item type, and one more, are enough for a walk. -/
theorem walkFrom_eq (hw : o.WF) (ht : o.Tabled) (hlength : table.length = o.types.length)
    {id : TypeId} (hitem : (o.item? id).isSome) {steps : Nat}
    (henough : (Resolve.unfilled o table).length + 1 ≤ steps) :
    climb o table steps [] id = .ok (Resolve.walkFrom o table id) := by
  have hleast : ∀ extra, climb o table ((Resolve.unfilled o table).length + 1) [] id =
      .ok (Resolve.climb o table ((Resolve.unfilled o table).length + 1 + extra) [] id) :=
    fun extra => climb_eq hw ht hlength extra hitem .nil Resolve.fresh_nil le_rfl
  have hsteps := climb_eq hw ht hlength 0 hitem .nil Resolve.fresh_nil henough
  obtain ⟨extra, rfl⟩ := Nat.exists_eq_add_of_le henough
  obtain ⟨rest, hrest⟩ :
      ∃ rest, o.types.length + 1 = (Resolve.unfilled o table).length + 1 + rest :=
    Nat.exists_eq_add_of_le (Nat.succ_le_succ (Resolve.length_unfilled_le o table))
  unfold Resolve.walkFrom
  rw [hsteps, Nat.add_zero, ← hleast extra, hleast rest, hrest]

/-- The types of a walk are item types. -/
theorem item_of_mem_walk (hw : o.WF) {first : TypeId}
    (hitem : (o.item? first).isSome) {x : TypeId}
    (hx : x ∈ (Resolve.walkFrom o table first).leadIn ∨
      x ∈ (Resolve.walkFrom o table first).cycle) : (o.item? x).isSome := by
  have hpassed : ∀ {path : List TypeId} {next : TypeId}, Resolve.Trail o first path next →
      x ∈ path → (o.item? x).isSome := by
    intro path next htrail hx
    obtain ⟨y, hup⟩ := htrail.up_of_mem x hx
    exact hw.child hup
  have hends := Resolve.walkFrom_ends hw table first
  generalize Resolve.walkFrom o table first = walk at hx hends
  cases hends with
  | filled htrail =>
    exact hpassed htrail (hx.resolve_right List.not_mem_nil)
  | root htrail =>
    rcases List.mem_cons.1 (hx.resolve_right List.not_mem_nil) with rfl | hx
    · exact htrail.item_next hw hitem
    · exact hpassed htrail hx
  | cycle htrail =>
    refine hpassed htrail ?_
    rcases hx with hx | hx
    · exact List.mem_append_right _ (List.mem_cons_of_mem _ hx)
    · exact (Resolve.mem_turn _ hx).2

/-! ## Hierarchies -/

theorem ownOnly_eq (hw : o.WF) (ht : o.Tabled) {id : TypeId} {m : Merged} {own : ItemData}
    (hi : o.item? id = some (m, own)) (status : Status) (diagnostics : List Diagnostic) :
    ownOnly o id status diagnostics = .ok (Resolve.ownOnly o m own status diagnostics) := by
  obtain ⟨hm, hdata⟩ := Outline.item?_eq_some.1 hi
  have hlt : id < o.types.length := (List.getElem?_eq_some_iff.1 hm).1
  unfold ownOnly Resolve.ownOnly
  rw [read_of_getElem? hm, ok_bind, read_ownEnds ht hlt, ok_bind, hw.id_of_item hi, hdata]
  rfl

theorem derive_eq (hw : o.WF) (ht : o.Tabled) (hlength : table.length = o.types.length)
    {id : TypeId} {m : Merged} {own : ItemData} (hi : o.item? id = some (m, own)) :
    derive o table id m own = .ok (Resolve.derive o table m own) := by
  have hlt : id < o.types.length := Outline.lt_length_of_item? (by rw [hi]; rfl)
  have hid := hw.id_of_item hi
  unfold derive Resolve.derive
  rw [read_parents ht hlt, ok_bind, hid]
  cases hparent : o.parent id with
  | none => exact ownOnly_eq hw ht hi _ _
  | missing code => exact ownOnly_eq hw ht hi _ _
  | item p =>
    have hup : o.Up id p := Outline.up_iff_parent.2 hparent
    dsimp only
    rw [read_table (lt_length_table hlength (hw.parent hup)), ok_bind]
    cases table.at? p with
    | none => exact ownOnly_eq hw ht hi _ _
    | some parent =>
      dsimp only
      by_cases hcycle : parent.isCycle = true
      · rw [if_pos hcycle, if_pos hcycle]
        exact ownOnly_eq hw ht hi _ _
      · rw [if_neg hcycle, if_neg hcycle]
        unfold extend Resolve.extend
        rw [read_ownEnds ht hlt, ok_bind, hid]
        rfl

/-! ## Filling the table -/

/-- A part of the pass ticks with the hierarchies it computes, on tables of the right length. -/
def Fills (o : Outline) (interval : Nat) (act : Resolve.Pass → Guarded Resolve.Pass)
    (step : Resolve.Pass → Resolve.Pass) : Prop :=
  ∀ p : Resolve.Pass, p.table.length = o.types.length →
    (step p).table.length = o.types.length ∧
      Ticks interval p.resolved (step p).resolved (act p) (step p)

theorem fills_foldlM {α : Type} {act : Resolve.Pass → α → Guarded Resolve.Pass}
    {step : Resolve.Pass → α → Resolve.Pass} {l : List α}
    (h : ∀ a ∈ l, Fills o interval (fun p => act p a) fun p => step p a) :
    Fills o interval (fun p => l.foldlM act p) fun p => l.foldl step p := by
  intro p hp
  exact ticks_foldlM Resolve.Pass.resolved (fun a ha p hp => h a ha p hp) hp

theorem ticks_store (hpos : 0 < interval) {p : Resolve.Pass} {id : TypeId}
    (hlt : id < p.table.length) (h : Hierarchy) :
    Ticks interval p.resolved (p.store id h).resolved (store interval p id h) (p.store id h) := by
  have hwrite : write p.table id (some h) = .ok (p.table.set id (some h)) := if_pos hlt
  unfold store
  rw [hwrite, liftM_ok, pure_bind]
  exact (ticks_lookAt hpos p.resolved).bind (.pure _ _ _)

theorem fills_markCycle (hpos : 0 < interval) (hw : o.WF) (ht : o.Tabled) (codes : List String)
    {id : TypeId} (hitem : (o.item? id).isSome) :
    Fills o interval (fun p => markCycle o interval codes p id) fun p => p.markCycle o codes id := by
  intro p hp
  obtain ⟨⟨m, own⟩, hi⟩ := Option.isSome_iff_exists.1 hitem
  obtain ⟨hm, -⟩ := Outline.item?_eq_some.1 hi
  simp only [Resolve.markCycle_eq_store p codes hi, markCycle, read_of_getElem? hm, liftM_ok,
    pure_bind, ownOnly_eq hw ht hi]
  exact ⟨(List.length_set ..).trans hp, ticks_store hpos (lt_length_table hp hitem) _⟩

theorem fills_deriveOne (hpos : 0 < interval) (hw : o.WF) (ht : o.Tabled) {id : TypeId}
    (hitem : (o.item? id).isSome) :
    Fills o interval (fun p => deriveOne o interval p id) fun p => p.deriveOne o id := by
  intro p hp
  obtain ⟨⟨m, own⟩, hi⟩ := Option.isSome_iff_exists.1 hitem
  obtain ⟨hm, hdata⟩ := Outline.item?_eq_some.1 hi
  simp only [Resolve.deriveOne_eq_store p hi, deriveOne, read_of_getElem? hm, liftM_ok, pure_bind,
    hdata, derive_eq hw ht hp hi]
  exact ⟨(List.length_set ..).trans hp, ticks_store hpos (lt_length_table hp hitem) _⟩

theorem mapM_read {α : Type} {table : List α} {l : List Nat} (h : ∀ i ∈ l, i < table.length) :
    l.mapM (read table) = .ok (l.filterMap fun i => table[i]?) := by
  induction l with
  | nil => rfl
  | cons i l ih =>
    obtain ⟨hi, hl⟩ := List.forall_mem_cons.1 h
    have hfound : table[i]? = some table[i] := List.getElem?_eq_getElem hi
    rw [List.mapM_cons, read_of_getElem? hfound, ok_bind, ih hl, List.filterMap_cons, hfound]
    rfl

/-- The codes of a cycle that is in the table, with the first one repeated. -/
theorem cycleCodes_eq {o : Outline} {cycle : List TypeId} (h : ∀ i ∈ cycle, i < o.types.length) :
    (cycle.filterMap fun i => o.types[i]?).map Merged.code ++
        ((cycle.filterMap fun i => o.types[i]?).map Merged.code).take 1 =
      Resolve.cycleCodes o cycle := by
  unfold Resolve.cycleCodes
  rw [List.filterMap_append, List.map_filterMap]
  congr 1
  cases cycle with
  | nil => rfl
  | cons i cycle =>
    have hlt := h i List.mem_cons_self
    have hi : o.types[i]? = some o.types[i] := List.getElem?_eq_getElem hlt
    simp [hi]

/-- Settling a walk: its cycle first, then the types that led there. -/
theorem fills_settle (hpos : 0 < interval) (hw : o.WF) (ht : o.Tabled) {w : Resolve.Walk}
    (hitem : ∀ x, x ∈ w.leadIn ∨ x ∈ w.cycle → (o.item? x).isSome) :
    Fills o interval
      (fun p => do
        let p ← markAll o interval p w.cycle
        w.leadIn.foldlM (deriveOne o interval) p)
      fun p => p.settle o w := by
  intro p hp
  have hin : ∀ i ∈ w.cycle, i < o.types.length := fun i hi =>
    Outline.lt_length_of_item? (hitem i (.inr hi))
  obtain ⟨hlength, hmarked⟩ := fills_foldlM (fun x hx => fills_markCycle hpos hw ht
    (Resolve.cycleCodes o w.cycle) (hitem x (.inr hx))) p hp
  obtain ⟨hlength', hderived⟩ := fills_foldlM (fun x hx => fills_deriveOne hpos hw ht
    (hitem x (.inl hx))) _ hlength
  refine ⟨hlength', Ticks.bind ?_ hderived⟩
  unfold markAll
  rw [mapM_read hin, liftM_ok, pure_bind]
  dsimp only
  rw [cycleCodes_eq hin]
  exact hmarked

/-- Filling in one more type. -/
theorem fills_resolveOne (hpos : 0 < interval) (hw : o.WF) (ht : o.Tabled) {m : Merged}
    (hm : m ∈ o.types) :
    Fills o interval (fun p => resolveOne o interval p m.id) fun p => p.resolve o m := by
  intro p hp
  have hfound := hw.getElem?_id hm
  unfold resolveOne Resolve.Pass.resolve
  beta_reduce
  rw [needs_eq hp hfound, liftM_ok, pure_bind]
  by_cases hneeds : (m.isItem && (p.table.at? m.id).isNone) = true
  · rw [if_pos hneeds, if_pos hneeds]
    have hitem : (o.item? m.id).isSome :=
      Outline.item?_isSome_iff.2 ⟨m, hfound, (Bool.and_eq_true_iff.1 hneeds).1⟩
    rw [walkFrom_eq hw ht hp hitem (Nat.succ_le_succ (Resolve.length_unfilled_le o p.table)),
      liftM_ok, pure_bind]
    exact fills_settle hpos hw ht (fun x hx => item_of_mem_walk hw hitem hx) p hp
  · rw [if_neg hneeds, if_neg hneeds]
    exact ⟨hp, .pure _ _ _⟩

theorem fill_eq (hpos : 0 < interval) (hw : (Outline.ofTypes types).WF)
    (hlt : types.length < UInt32.size) {start : HierarchyTable} (hlength : start.length = types.length) :
    fill (.ofTypes types) interval start =
      (lookTimes ((Resolve.run (.ofTypes types) start).resolved / interval) >>= fun _ =>
        pure (Resolve.run (.ofTypes types) start)) := by
  have hids : (List.range types.length).map narrow = types.map Merged.id := by
    rw [map_id_eq_range hw]
    refine (List.map_congr_left fun i hi => ?_).trans (List.map_id _)
    exact narrow_of_lt (Nat.lt_trans (List.mem_range.1 hi) hlt)
  have hfill : fill (.ofTypes types) interval start =
      types.foldlM (fun p m => resolveOne (.ofTypes types) interval p m.id) ⟨start, 0⟩ := by
    show ((List.range types.length).map narrow).foldlM _ _ = _
    rw [hids, List.foldlM_map]
  obtain ⟨-, hticks⟩ := fills_foldlM
    (fun m hm => fills_resolveOne hpos hw (Outline.tabled_ofTypes types) hm) ⟨start, 0⟩ hlength
  have heq := hticks.eq
  rw [Nat.zero_div, Nat.sub_zero] at heq
  exact hfill.trans heq

end Filling

/-! ## Whole builds -/

theorem resolve_eq {interval : Nat} (hpos : 0 < interval) (hw : (Outline.ofTypes types).WF)
    (hcodes : (types.map Merged.code).Nodup) (hlt : types.length < UInt32.size)
    (hby : ∀ code, byCode.get? code = idOf? types code) (old : Option (List Node)) :
    resolve interval types byCode old =
      (lookTimes (2 + (Resolution.ofTypes types old).resolved / interval) >>= fun _ =>
        pure (Resolution.ofTypes types old)) := by
  have hresolution : Resolution.ofTypes types old =
      { nodes := types.zipWith (fun m h => { m with hierarchy := h })
          (Resolve.run (.ofTypes types) (Resolve.startTable types old)).table
        children := (Outline.ofTypes types).children
        scope := (Resolution.ofTypes types old).scope
        resolved := (Resolve.run (.ofTypes types) (Resolve.startTable types old)).resolved } := by
    unfold Resolution.ofTypes Resolve.startTable Resolve.affected
    cases old.filter fun nodes => Resolve.sameCodeTable nodes types <;> rfl
  have hchoose : choose ⟨types, (Outline.ofTypes types).parents, (Outline.ofTypes types).ownEnds⟩
      (Outline.ofTypes types).children old = .ok _ := choose_eq hw old
  have hfill : fill ⟨types, (Outline.ofTypes types).parents, (Outline.ofTypes types).ownEnds⟩
      interval (Resolve.startTable types old) = _ :=
    fill_eq hpos hw hlt (Resolve.length_startTable types old)
  unfold resolve
  simp only [links_eq hw hby, relationEnds_eq hw hcodes hby, liftM_ok, pure_bind, hchoose, hfill,
    bind_assoc, ← lookTimes_one]
  rw [hresolution]
  simp only [← bind_assoc, lookTimes_add]
  rw [← Nat.add_assoc]

/-- A build looks at its token as often as it says and gives the model. -/
theorem build_eq {groups : List Group}
    (hlt : (Merge.codes (Merge.declarations groups)).length < UInt32.size) (config : Config)
    (previous : Option Model) (generation revision : Nat) :
    build groups config previous generation revision =
      (lookTimes (Model.looks config (Model.resolveGroups groups config previous).1) >>= fun _ =>
        pure (Model.build groups config previous generation revision)) := by
  have hpos : 0 < max config.cancelInterval 1 := by omega
  obtain ⟨a, hmerge, hholds⟩ := mergeAll_eq hpos (Merge.declarations groups)
  have hholds := hholds hlt
  have htypes : a.types = Merge.types groups := hholds.types
  have hlength : a.types.length = (Merge.codes (Merge.declarations groups)).length := by
    rw [htypes, ← Merge.map_code_types, List.length_map]
  have hw : (Outline.ofTypes a.types).WF := htypes ▸ Model.wf_types groups
  have hresolve := resolve_eq hpos hw (htypes ▸ Merge.nodup_types_code groups) (hlength ▸ hlt)
    hholds.byCode (Model.earlier config previous)
  have hnodes : (Resolution.ofTypes a.types (Model.earlier config previous)).nodes.length =
      (Merge.codes (Merge.declarations groups)).length := by
    rw [← hlength, ← congrArg List.length (Resolution.map_toMerged_nodes hw), List.length_map]
  have hlooks : Model.looks config (Model.resolveGroups groups config previous).1 =
      ((Merge.codes (Merge.declarations groups)).length + max config.cancelInterval 1 - 1) /
          max config.cancelInterval 1 +
        (1 + (2 + (Resolution.ofTypes a.types (Model.earlier config previous)).resolved /
          max config.cancelInterval 1)) := by
    rw [← hnodes, htypes]
    unfold Model.looks
    rw [Nat.add_assoc, ← Nat.add_assoc 1 2]
    rfl
  unfold Model.earlier at hresolve hlooks
  unfold build
  simp only [hmerge, hresolve, bind_assoc, pure_bind, ← lookTimes_one]
  simp only [← bind_assoc, lookTimes_add]
  rw [hlooks, htypes, hholds.findings]
  rfl

/-- Whatever the input, a build looks at its token at least once before it reads a table. -/
theorem run_build_fired (groups : List Group) (config : Config) (previous : Option Model)
    (generation revision : Nat) :
    (build groups config previous generation revision).run .fired =
      .error (.stopped .superseded) := by
  have hpos : 0 < max config.cancelInterval 1 := by omega
  obtain ⟨a, hmerge, -⟩ := mergeAll_eq hpos (Merge.declarations groups)
  unfold build
  simp only [hmerge, bind_assoc, pure_bind, ← lookTimes_one]
  rw [← bind_assoc, lookTimes_add, run_lookTimes_bind]
  exact if_pos (by simp [Model.Token.firesWithin, Model.Token.fired])

end TypeAtlas.Guarded

namespace TypeAtlas.Model

/-- A build is stopped by its token only, and its interval is for looking only. -/
structure Safe (groups : List Group) (config : Config) (previous : Option Model)
    (generation revision : Nat) : Prop where
  /-- No position is outside its table, no modulus is zero and no search runs out of steps. -/
  guarded : ∀ token, (Guarded.build groups config previous generation revision).run token =
    (buildUnless token groups config previous generation revision).mapError .stopped
  returns : (Guarded.build groups config previous generation revision).run .never =
    .ok (build groups config previous generation revision)
  /-- With another interval the types, links, findings and scope are the same. -/
  interval : ∀ interval, ∃ m : Model,
    (Guarded.build groups { config with cancelInterval := interval } previous generation
        revision).run .never = .ok m ∧
      m.nodes = (build groups config previous generation revision).nodes ∧
      m.children = (build groups config previous generation revision).children ∧
      m.diagnostics = (build groups config previous generation revision).diagnostics ∧
      m.scope = (build groups config previous generation revision).scope

/-- A build under a token that never fires gives its model, whatever the declarations, the settings
and the model before: all accesses are inside their tables, and the interval changes nothing. Under a
token that has fired it is superseded, whatever the input. -/
theorem safe_of_length_codes (groups : List Group) (config : Config) (previous : Option Model)
    (generation revision : Nat) :
    ((Merge.codes (Merge.declarations groups)).length < UInt32.size →
      Safe groups config previous generation revision) ∧
    (Guarded.build groups config previous generation revision).run .fired =
      .error (.stopped .superseded) := by
  refine ⟨fun hlt => ?_, Guarded.run_build_fired groups config previous generation revision⟩
  have hguarded : ∀ config token,
      (Guarded.build groups config previous generation revision).run token =
        (buildUnless token groups config previous generation revision).mapError .stopped := by
    intro config token
    rw [Guarded.build_eq hlt, Guarded.run_lookTimes_bind]
    unfold buildUnless
    split <;> rfl
  exact ⟨hguarded config, hguarded config .never, fun interval =>
    ⟨_, hguarded _ .never, rfl, rfl, rfl, rfl⟩⟩

/-- A cycle, a parent that is not declared, a relation to a code that is not declared, a code with
two kinds, and an item type with a given parent. -/
def malformedGroups (parent : Option String) : List Group :=
  [.ofRecords ⟨0⟩ ⟨0⟩
    [{ code := some "A", parent := some "B" }, { code := some "B", parent := some "A" },
      { code := some "C", parent := some "X" }, { code := some "E" },
      { kind := .enum, code := some "E" }, { code := some "D", parent },
      { kind := .relation, code := some "R", source := some { typeCode := some "A" },
        target := some { typeCode := some "X" } }]]

/-- The parent of `D` becomes a type that is no item type, and the interval is zero. -/
theorem safe_of_length_codes_malformed :
    ∃ previous m : Model, previous = build (malformedGroups none) {} none 1 0 ∧
      (Merge.codes (Merge.declarations (malformedGroups (some "E")))).length < UInt32.size ∧
      Safe (malformedGroups (some "E")) { cancelInterval := 0 } (some previous) 2 0 ∧
      (Guarded.build (malformedGroups (some "E")) { cancelInterval := 0 } (some previous) 2 0).run
        .never = .ok m ∧
      m.scope = .subtrees [4] ∧
      m.nodes.map (fun n => (n.code, n.hierarchy.map Hierarchy.status)) =
        [("A", some .cycle), ("B", some .cycle), ("C", some (.incomplete "X")), ("E", none),
          ("D", some (.incomplete "E")), ("R", none)] ∧
      (Guarded.build (malformedGroups (some "E")) { cancelInterval := 0 } (some previous) 2 0).run
        .fired = .error (.stopped .superseded) := by
  have hcodes : (Merge.codes (Merge.declarations (malformedGroups (some "E")))).length < UInt32.size := by
    decide
  obtain ⟨hsafe, hfired⟩ := safe_of_length_codes (malformedGroups (some "E"))
    { cancelInterval := 0 } (some (build (malformedGroups none) {} none 1 0)) 2 0
  exact ⟨_, _, rfl, hcodes, hsafe hcodes, (hsafe hcodes).returns, rfl, rfl, hfired⟩

end TypeAtlas.Model
