/-
A whole pass over the types. `Computed` says, without walks and without an order, which hierarchy a
type gets over a table of kept ones: the kept one, that of a type on a cycle, that of a type without
a parent item, or the one derived from its parent's. Main statement: a pass fills in every item type,
and every entry is a computed one. The invariant (`Sound`) holds between walks: entries are computed,
and with a type its parent is filled in; a walk keeps it whichever way the walk ends.
-/
import TypeAtlas.Proofs.Walk

namespace TypeAtlas.Resolve

variable {o : Outline} {start table : HierarchyTable}

/-! ## What a pass computes -/

/-- The hierarchy of an item type over its parent's. -/
def inherit (o : Outline) (m : Merged) (own : ItemData) (parent : Hierarchy) : Hierarchy :=
  if parent.isCycle then ownOnly o m own .cycle [] else extend o m own parent

/-- The hierarchy of an item type on a cycle. -/
def cyclic (o : Outline) (m : Merged) (own : ItemData) (cycle : List TypeId) : Hierarchy :=
  ownOnly o m own .cycle [.cyclicExtends m.location m.code (cycleCodes o cycle)]

/-- `h` is the hierarchy of a type where those of `start` are kept. -/
inductive Computed (o : Outline) (start : HierarchyTable) : TypeId → Hierarchy → Prop
  | kept {id : TypeId} {h : Hierarchy} (found : start.at? id = some h) : Computed o start id h
  | cycle {id : TypeId} {m : Merged} {own : ItemData} (unkept : start.at? id = none)
      (item : o.item? id = some (m, own)) (on : o.OnCycle id) :
      Computed o start id (cyclic o m own (cycleOf o id))
  | top {id : TypeId} {m : Merged} {own : ItemData} (unkept : start.at? id = none)
      (item : o.item? id = some (m, own)) (top : o.parentItem? id = none) :
      Computed o start id (derive o [] m own)
  | child {id p : TypeId} {m : Merged} {own : ItemData} {parent : Hierarchy}
      (unkept : start.at? id = none) (item : o.item? id = some (m, own)) (off : ¬o.OnCycle id)
      (up : o.Up id p) (above : Computed o start p parent) :
      Computed o start id (inherit o m own parent)

/-! ## Tables -/

theorem at?_set {id x : TypeId} {h : Hierarchy} (hlt : id < table.length) :
    HierarchyTable.at? (table.set id (some h)) x = if x = id then some h else table.at? x := by
  unfold HierarchyTable.at?
  by_cases hx : x = id
  · subst hx
    simp [hlt]
  · rw [List.getElem?_set_ne (Ne.symm hx), if_neg hx]

theorem derive_of_top (hw : o.WF) {id : TypeId} {m : Merged} {own : ItemData}
    (hi : o.item? id = some (m, own)) (htop : o.parentItem? id = none) :
    derive o table m own = derive o [] m own := by
  have hid := hw.id_of_item hi
  unfold derive
  rw [hid]
  cases hp : o.parent id with
  | none => rfl
  | missing code => rfl
  | item p => exact absurd (Outline.up_iff_parent.2 hp) (Outline.not_up_of_top htop)

theorem derive_of_up (hw : o.WF) {id p : TypeId} {m : Merged} {own : ItemData} {parent : Hierarchy}
    (hi : o.item? id = some (m, own)) (hup : o.Up id p) (hp : table.at? p = some parent) :
    derive o table m own = inherit o m own parent := by
  have hid := hw.id_of_item hi
  unfold derive
  rw [hid, Outline.up_iff_parent.1 hup]
  simp only [hp]
  rfl

theorem deriveOne_eq_store (p : Pass) {id : TypeId} {m : Merged} {own : ItemData}
    (hi : o.item? id = some (m, own)) :
    p.deriveOne o id = p.store id (derive o p.table m own) := by
  obtain ⟨hm, hd⟩ := Outline.item?_eq_some.1 hi
  unfold Pass.deriveOne
  rw [hm]
  simp only [hd]

theorem markCycle_eq_store (p : Pass) (codes : List String) {id : TypeId} {m : Merged}
    {own : ItemData} (hi : o.item? id = some (m, own)) :
    p.markCycle o codes id =
      p.store id (ownOnly o m own .cycle [.cyclicExtends m.location m.code codes]) := by
  obtain ⟨hm, hd⟩ := Outline.item?_eq_some.1 hi
  unfold Pass.markCycle
  rw [hm]
  simp only [hd]

/-! ## The invariant between walks -/

/-- A table with an entry for every type, in which with a type its parent is filled in. -/
structure Grounded (o : Outline) (table : HierarchyTable) : Prop where
  length : table.length = o.types.length
  up : ∀ {id p : TypeId}, (table.at? id).isSome → o.Up id p → (table.at? p).isSome

theorem Grounded.filled_of_leads (hg : Grounded o table) {a b : TypeId} (hab : o.Leads a b)
    (ha : (table.at? a).isSome) : (table.at? b).isSome := by
  induction hab with
  | refl => exact ha
  | tail _ hbc ih => exact hg.up ih hbc

/-- A table between two walks: it keeps what it started with, its entries are computed, and with a
type its parent is filled in. -/
structure Sound (o : Outline) (start table : HierarchyTable) : Prop where
  length : table.length = o.types.length
  kept : ∀ {id : TypeId} {h : Hierarchy}, start.at? id = some h → table.at? id = some h
  computed : ∀ {id : TypeId} {h : Hierarchy}, table.at? id = some h → Computed o start id h
  up : ∀ {id p : TypeId}, (table.at? id).isSome → o.Up id p → (table.at? p).isSome

theorem Sound.filled_of_leads (hs : Sound o start table) {a b : TypeId} (hab : o.Leads a b)
    (ha : (table.at? a).isSome) : (table.at? b).isSome :=
  Grounded.filled_of_leads ⟨hs.length, hs.up⟩ hab ha

theorem Sound.open_of_open (hs : Sound o start table) {id : TypeId} (h : table.at? id = none) :
    start.at? id = none := by
  cases hk : start.at? id with
  | none => rfl
  | some k => rw [hs.kept hk] at h; cases h

/-- An unfilled type that leads to a filled one is on no cycle. -/
theorem Sound.not_onCycle (hs : Sound o start table) {x y : TypeId} (hxy : o.Leads x y)
    (hy : (table.at? y).isSome) (hx : table.at? x = none) : ¬o.OnCycle x := by
  intro hc
  have := hs.filled_of_leads (hc.of_leads hxy).2 hy
  rw [hx] at this
  cases this

/-- A part of the pass: it keeps the invariant and what is filled in, and fills in some types. -/
structure Advances (o : Outline) (start : HierarchyTable) (ids : List TypeId) (p p' : Pass) :
    Prop where
  sound : Sound o start p'.table
  grows : ∀ x, (p.table.at? x).isSome → (p'.table.at? x).isSome
  fills : ∀ x ∈ ids, (p'.table.at? x).isSome

theorem Advances.trans {ids ids' : List TypeId} {p p' p'' : Pass}
    (h : Advances o start ids p p') (h' : Advances o start ids' p' p'') :
    Advances o start (ids ++ ids') p p'' := by
  refine ⟨h'.sound, fun x hx => h'.grows x (h.grows x hx), fun x hx => ?_⟩
  rcases List.mem_append.1 hx with hx | hx
  · exact h'.grows x (h.fills x hx)
  · exact h'.fills x hx

theorem Advances.sub {ids ids' : List TypeId} {p p' : Pass} (h : Advances o start ids p p')
    (hsub : ids' ⊆ ids) : Advances o start ids' p p' :=
  ⟨h.sound, h.grows, fun x hx => h.fills x (hsub hx)⟩

/-! ## Deriving the lead-in -/

theorem isSome_at?_set {id x : TypeId} {h : Hierarchy} (hlt : id < table.length)
    (hx : x = id ∨ (table.at? x).isSome) :
    (HierarchyTable.at? (table.set id (some h)) x).isSome := by
  rw [at?_set hlt]
  split
  · rfl
  · rename_i hne
    exact hx.resolve_left hne

/-- Deriving one type over filled parents keeps the invariant. -/
theorem Sound.derive (hw : o.WF) (hs : Sound o start table) {id : TypeId} {m : Merged}
    {own : ItemData} (hi : o.item? id = some (m, own)) (hopen : table.at? id = none)
    (hoff : ¬o.OnCycle id) (hup : ∀ p, o.Up id p → (table.at? p).isSome) :
    Sound o start (table.set id (some (derive o table m own))) := by
  have hlt : id < table.length := by
    rw [hs.length]
    exact Outline.lt_length_of_item? (by rw [hi]; rfl)
  refine ⟨by rw [List.length_set]; exact hs.length, fun {x h} hx => ?_, fun {x h} hx => ?_,
    fun {x p} hx hxp => ?_⟩
  · rw [at?_set hlt, if_neg]
    · exact hs.kept hx
    · rintro rfl
      rw [hs.open_of_open hopen] at hx
      cases hx
  · rw [at?_set hlt] at hx
    split at hx
    · rename_i hxid
      subst hxid
      cases hx
      -- the new entry is computed: over nothing at a top, else over the parent's entry
      cases hp : o.parentItem? x with
      | none =>
        rw [derive_of_top hw hi hp]
        exact .top (hs.open_of_open hopen) hi hp
      | some p =>
        obtain ⟨parent, hparent⟩ := Option.isSome_iff_exists.1 (hup p hp)
        rw [derive_of_up hw hi hp hparent]
        exact .child (hs.open_of_open hopen) hi hoff hp (hs.computed hparent)
    · exact hs.computed hx
  · refine isSome_at?_set hlt (.inr ?_)
    rw [at?_set hlt] at hx
    split at hx
    · rename_i hxid
      subst hxid
      exact hup p hxp
    · exact hs.up hx hxp

/-- Deriving the first type of a path fills it in and leaves the rest unfilled. -/
theorem Sound.deriveOne (hw : o.WF) {p : Pass} (hs : Sound o start p.table) {id : TypeId}
    {path : List TypeId} (hitem : (o.item? id).isSome) (hf : Fresh p.table (id :: path))
    (hoff : ¬o.OnCycle id) (hup : ∀ q, o.Up id q → (p.table.at? q).isSome) :
    Advances o start [id] p (p.deriveOne o id) ∧ Fresh (p.deriveOne o id).table path := by
  obtain ⟨⟨m, own⟩, hi⟩ := Option.isSome_iff_exists.1 hitem
  obtain ⟨hnot, hnodup⟩ := List.nodup_cons.1 hf.nodup
  have hlt : id < p.table.length := by
    rw [hs.length]
    exact Outline.lt_length_of_item? hitem
  have htable : (p.deriveOne o id).table = p.table.set id (some (Resolve.derive o p.table m own)) :=
    congrArg Pass.table (deriveOne_eq_store p hi)
  refine ⟨⟨?_, fun x hx => ?_, fun x hx => ?_⟩, hnodup, fun x hx => ?_⟩
  · rw [htable]
    exact hs.derive hw hi (hf.unfilled id List.mem_cons_self) hoff hup
  · rw [htable]
    exact isSome_at?_set hlt (.inr hx)
  · rw [htable]
    exact isSome_at?_set hlt (.inl (List.mem_singleton.1 hx))
  · rw [htable, at?_set hlt, if_neg]
    · exact hf.unfilled x (List.mem_cons_of_mem _ hx)
    · rintro rfl
      exact hnot hx

/-- Deriving a path to a filled type, the type nearest to it first, fills in the path. -/
theorem Sound.deriveAll (hw : o.WF) {first : TypeId} :
    ∀ {path : List TypeId} {next : TypeId} {p : Pass}, Sound o start p.table →
      Trail o first path next → Fresh p.table path → (p.table.at? next).isSome →
      Advances o start path p (path.foldl (Pass.deriveOne o) p)
  | [], _, _, hs, _, _, _ => ⟨hs, fun _ h => h, fun _ h => by cases h⟩
  | id :: path, _, p, hs, .cons ht hup, hf, hn => by
    -- a type on a cycle would be filled in with its parent
    have hoff := hs.not_onCycle (.single hup) hn (hf.unfilled id List.mem_cons_self)
    obtain ⟨hone, hf'⟩ := hs.deriveOne hw (hw.child hup) hf hoff fun q hq => hq.unique hup ▸ hn
    exact hone.trans (Sound.deriveAll hw hone.sound ht hf' (hone.fills id List.mem_cons_self))

/-! ## Marking a cycle -/

theorem at?_markAll (cycle : List TypeId) :
    ∀ {c : List TypeId} {p : Pass}, p.table.length = o.types.length →
      (∀ x ∈ c, (o.item? x).isSome) →
      (c.foldl (Pass.markCycle o (cycleCodes o cycle)) p).table.length = o.types.length ∧
        ∀ x, (c.foldl (Pass.markCycle o (cycleCodes o cycle)) p).table.at? x =
          if x ∈ c then (o.item? x).map fun row => cyclic o row.1 row.2 cycle else p.table.at? x
  | [], p, hl, _ => ⟨hl, fun x => by simp⟩
  | id :: c, p, hl, hc => by
    obtain ⟨⟨m, own⟩, hi⟩ := Option.isSome_iff_exists.1 (hc id List.mem_cons_self)
    have htable : (p.markCycle o (cycleCodes o cycle) id).table =
        p.table.set id (some (cyclic o m own cycle)) :=
      congrArg Pass.table (markCycle_eq_store p (cycleCodes o cycle) hi)
    have hlt : id < p.table.length := by
      rw [hl]
      exact Outline.lt_length_of_item? (hc id List.mem_cons_self)
    have hl' : (p.markCycle o (cycleCodes o cycle) id).table.length = o.types.length := by
      rw [htable, List.length_set, hl]
    obtain ⟨h1, h2⟩ := at?_markAll cycle hl' fun x hx => hc x (List.mem_cons_of_mem _ hx)
    refine ⟨h1, fun x => ?_⟩
    rw [List.foldl_cons, h2 x, htable, at?_set hlt]
    by_cases hxc : x ∈ c
    · rw [if_pos hxc, if_pos (List.mem_cons_of_mem _ hxc)]
    · rw [if_neg hxc]
      by_cases hx : x = id
      · subst hx
        simp [hi]
      · rw [if_neg hx, if_neg fun h => (List.mem_cons.1 h).elim hx hxc]

/-- Marking a whole cycle, as it is reported, fills it in. -/
theorem Sound.markAll {c : List TypeId} {p : Pass} (hs : Sound o start p.table)
    (hitem : ∀ x ∈ c, (o.item? x).isSome) (hopen : ∀ x ∈ c, p.table.at? x = none)
    (hon : ∀ x ∈ c, o.OnCycle x) (hcycle : ∀ x ∈ c, cycleOf o x = c)
    (hclosed : ∀ x ∈ c, ∀ y, o.Up x y → y ∈ c) :
    Advances o start c p (c.foldl (Pass.markCycle o (cycleCodes o c)) p) := by
  obtain ⟨hlen, hat⟩ := at?_markAll c hs.length hitem
  have hin : ∀ x ∈ c, ((c.foldl (Pass.markCycle o (cycleCodes o c)) p).table.at? x).isSome := by
    intro x hx
    rw [hat, if_pos hx, Option.isSome_map]
    exact hitem x hx
  have hgrows : ∀ x, (p.table.at? x).isSome →
      ((c.foldl (Pass.markCycle o (cycleCodes o c)) p).table.at? x).isSome := by
    intro x hx
    by_cases hxc : x ∈ c
    · exact hin x hxc
    · rw [hat, if_neg hxc]
      exact hx
  refine ⟨⟨hlen, fun {x h} hx => ?_, fun {x h} hx => ?_, fun {x y} hx hxy => ?_⟩, hgrows, hin⟩
  · rw [hat, if_neg]
    · exact hs.kept hx
    · intro hxc
      rw [hs.open_of_open (hopen x hxc)] at hx
      cases hx
  · rw [hat] at hx
    split at hx
    · rename_i hxc
      obtain ⟨⟨m, own⟩, hi, rfl⟩ := Option.map_eq_some_iff.1 hx
      have := Computed.cycle (hs.open_of_open (hopen x hxc)) hi (hon x hxc)
      rwa [hcycle x hxc] at this
    · exact hs.computed hx
  · by_cases hxc : x ∈ c
    · exact hin y (hclosed x hxc y hxy)
    · rw [hat, if_neg hxc] at hx
      exact hgrows y (hs.up hx hxy)

/-! ## One walk -/

theorem mem_turn (rest : List TypeId) {id x : TypeId} {turn : List TypeId}
    (hx : x ∈ id :: turn.reverse) :
    x ∈ turn ++ [id] ∧ x ∈ turn ++ id :: rest := by
  simp only [List.mem_cons, List.mem_reverse] at hx
  simp only [List.mem_append, List.mem_cons, List.not_mem_nil, or_false]
  tauto

theorem cycle_closed {first id : TypeId} {turn rest : List TypeId}
    (ht : Trail o first (turn ++ id :: rest) id) :
    ∀ x ∈ id :: turn.reverse, ∀ y, o.Up x y → y ∈ id :: turn.reverse := by
  intro x hx y hxy
  rcases ht.split.2.up_mem (mem_turn rest hx).1 hxy with rfl | hy
  · exact List.mem_cons_self
  · simpa [or_comm] using hy

/-- A walk that closes a cycle: first the cycle is marked, then the types that led to it, which are
off the cycle and so still unfilled, are derived. -/
theorem Sound.settle_cycle (hw : o.WF) {p : Pass} (hs : Sound o start p.table)
    {first id : TypeId} {turn rest : List TypeId} (ht : Trail o first (turn ++ id :: rest) id)
    (hf : Fresh p.table (turn ++ id :: rest))
    (hon : ∀ x ∈ id :: turn.reverse, o.OnCycle x)
    (hcycle : ∀ x ∈ id :: turn.reverse, cycleOf o x = id :: turn.reverse) :
    Advances o start (id :: rest) p (p.settle o ⟨rest, id :: turn.reverse⟩) := by
  have hitem : ∀ x ∈ id :: turn.reverse, (o.item? x).isSome := by
    intro x hx
    obtain ⟨y, hy⟩ := ht.up_of_mem x (mem_turn rest hx).2
    exact hw.child hy
  have hmark := hs.markAll hitem (fun x hx => hf.unfilled x (mem_turn rest hx).2) hon hcycle
    (cycle_closed ht)
  obtain ⟨-, hn, hapart⟩ := List.nodup_append.1 hf.nodup
  obtain ⟨hid, hnodup⟩ := List.nodup_cons.1 hn
  have hrest : Fresh ((id :: turn.reverse).foldl
      (Pass.markCycle o (cycleCodes o (id :: turn.reverse))) p).table rest := by
    refine ⟨hnodup, fun x hx => ?_⟩
    rw [(at?_markAll _ hs.length hitem).2, if_neg]
    · exact hf.unfilled x (by simp [hx])
    · rw [List.mem_cons, List.mem_reverse, not_or]
      exact ⟨fun h => hid (h ▸ hx), fun h => hapart x h x (List.mem_cons_of_mem _ hx) rfl⟩
  have hall := hmark.trans
    (hmark.sound.deriveAll hw ht.split.1 hrest (hmark.fills id List.mem_cons_self))
  refine hall.sub fun x hx => ?_
  rcases List.mem_cons.1 hx with rfl | hx
  · exact List.mem_append_left _ List.mem_cons_self
  · exact List.mem_append_right _ hx

/-- A walk that ends at a type without a parent item derives that type first. -/
theorem Sound.settle_root (hw : o.WF) {p : Pass} (hs : Sound o start p.table)
    {first id : TypeId} {path : List TypeId} (hitem : (o.item? first).isSome)
    (ht : Trail o first path id) (hf : Fresh p.table (id :: path))
    (htop : o.parentItem? id = none) :
    Advances o start (id :: path) p (p.settle o ⟨id :: path, []⟩) := by
  obtain ⟨hone, hf'⟩ := hs.deriveOne hw (ht.item_next hw hitem) hf
    (Outline.not_onCycle_of_top htop) fun q hq => absurd hq (Outline.not_up_of_top htop)
  exact hone.trans (hone.sound.deriveAll hw ht hf' (hone.fills id List.mem_cons_self))

/-- A walk from an unfilled item type fills the type in, if the walk finds the cycles as they are
reported. -/
theorem Sound.settle (hw : o.WF) {p : Pass} (hs : Sound o start p.table) {first : TypeId}
    (hitem : (o.item? first).isSome) (hopen : p.table.at? first = none)
    (hcycle : ∀ x ∈ (walkFrom o p.table first).cycle, p.table.at? x = none →
      cycleOf o x = (walkFrom o p.table first).cycle) :
    Advances o start [first] p (p.settle o (walkFrom o p.table first)) := by
  have hends := walkFrom_ends hw p.table first
  have hon : ∀ x ∈ (walkFrom o p.table first).cycle, o.OnCycle x := fun x hx =>
    (onCycle_of_mem_cycle hw hx).1
  -- whichever way the walk ends, its start is on the path or is where the path ends
  generalize walkFrom o p.table first = w at hends hcycle hon
  cases hends with
  | @filled path next ht hf hfound =>
    refine (hs.deriveAll hw ht hf hfound).sub fun x hx => ?_
    rw [List.mem_singleton.1 hx]
    rcases ht.mem_or_eq with hm | rfl
    · exact hm
    · rw [hopen] at hfound
      cases hfound
  | @root path id ht hf htop =>
    refine (hs.settle_root hw hitem ht hf htop).sub fun x hx => ?_
    rw [List.mem_singleton.1 hx, List.mem_cons]
    exact ht.mem_or_eq.symm
  | @cycle turn rest id ht hf =>
    have hopenc : ∀ x ∈ id :: turn.reverse, p.table.at? x = none := fun x hx =>
      hf.unfilled x (mem_turn rest hx).2
    refine (hs.settle_cycle hw ht hf hon fun x hx => hcycle x hx (hopenc x hx)).sub fun x hx => ?_
    rw [List.mem_singleton.1 hx, List.mem_cons]
    exact ht.split.1.mem_or_eq.symm

/-! ## The whole pass -/

/-- A walk that closes a cycle finds it as it is reported, if every item type before its start is
filled in: no earlier walk on the bare graph can reach the cycle. -/
theorem Sound.cycleOf_eq (hw : o.WF) (hs : Sound o start table) {pre post : List Merged}
    {m : Merged} (htypes : o.types = pre ++ m :: post)
    (hpre : ∀ n ∈ pre, (o.item? n.id).isSome → (table.at? n.id).isSome) {x : TypeId}
    (hx : x ∈ (walkFrom o table m.id).cycle) (hopen : table.at? x = none) :
    cycleOf o x = (walkFrom o table m.id).cycle := by
  have hbare : walkFrom o [] m.id = walkFrom o table m.id :=
    climb_bare_of_cycle (List.ne_nil_of_mem hx)
  have hearlier : ∀ n ∈ pre, x ∉ (walkFrom o [] n.id).cycle := by
    -- the start of such a walk is filled in, and with it all that it leads to, `x` included
    intro n hn hxn
    obtain ⟨hon, hleads⟩ := onCycle_of_mem_cycle hw hxn
    have hitem : (o.item? n.id).isSome := by
      rcases Relation.ReflTransGen.cases_head hleads with heq | ⟨y, hy, -⟩
      · obtain ⟨y, hy⟩ := hon.up
        exact hw.child (heq ▸ hy)
      · exact hw.child hy
    have := hs.filled_of_leads hleads (hpre n hn hitem)
    rw [hopen] at this
    cases this
  have hfind : (o.types.map fun n => (walkFrom o [] n.id).cycle).find? (fun c => c.contains x) =
      some (walkFrom o table m.id).cycle := by
    rw [List.find?_eq_some_iff_append]
    refine ⟨List.contains_iff_mem.2 hx, pre.map fun n => (walkFrom o [] n.id).cycle,
      post.map fun n => (walkFrom o [] n.id).cycle, ?_, ?_⟩
    · rw [htypes, List.map_append, List.map_cons, hbare]
    · intro c hc
      obtain ⟨n, hn, rfl⟩ := List.mem_map.1 hc
      simpa using hearlier n hn
  unfold cycleOf
  rw [hfind]
  rfl

/-- Looking at the next type keeps the invariant and fills the type in, if it is an item type. -/
theorem Sound.resolve (hw : o.WF) {p : Pass} (hs : Sound o start p.table)
    {pre post : List Merged} {m : Merged} (htypes : o.types = pre ++ m :: post)
    (hpre : ∀ n ∈ pre, (o.item? n.id).isSome → (p.table.at? n.id).isSome) :
    Sound o start (p.resolve o m).table ∧
      ∀ n ∈ pre ++ [m], (o.item? n.id).isSome → ((p.resolve o m).table.at? n.id).isSome := by
  have hat : o.types[pre.length]? = some m := by rw [htypes]; simp
  have hid := hw.id hat
  have hisItem : (o.item? m.id).isSome ↔ m.isItem = true := by
    rw [hid, Outline.item?_isSome_iff, hat]
    simp
  unfold Pass.resolve
  split
  · rename_i hcond
    rw [Bool.and_eq_true, Option.isNone_iff_eq_none] at hcond
    have hadv := hs.settle hw (hisItem.2 hcond.1) hcond.2
      fun x hx hopen => hs.cycleOf_eq hw htypes hpre hx hopen
    refine ⟨hadv.sound, fun n hn hi => ?_⟩
    rcases List.mem_append.1 hn with hn | hn
    · exact hadv.grows _ (hpre n hn hi)
    · rw [List.mem_singleton.1 hn]
      exact hadv.fills _ List.mem_cons_self
  · rename_i hcond
    refine ⟨hs, fun n hn hi => ?_⟩
    rcases List.mem_append.1 hn with hn | hn
    · exact hpre n hn hi
    · rw [List.mem_singleton.1 hn] at hi ⊢
      rw [Bool.and_eq_true, hisItem.1 hi, Option.isNone_iff_eq_none] at hcond
      exact Option.isSome_iff_ne_none.2 fun h => hcond ⟨rfl, h⟩

theorem Sound.foldl_resolve (hw : o.WF) :
    ∀ (post pre : List Merged) {p : Pass}, Sound o start p.table → o.types = pre ++ post →
      (∀ n ∈ pre, (o.item? n.id).isSome → (p.table.at? n.id).isSome) →
      Sound o start (post.foldl (Pass.resolve o) p).table ∧
        ∀ n ∈ pre ++ post, (o.item? n.id).isSome →
          ((post.foldl (Pass.resolve o) p).table.at? n.id).isSome
  | [], pre, p, hs, _, hpre => ⟨hs, fun n hn => hpre n (by simpa using hn)⟩
  | m :: post, pre, p, hs, htypes, hpre => by
    obtain ⟨hs', hpre'⟩ := hs.resolve hw htypes hpre
    have htypes' : o.types = (pre ++ [m]) ++ post := by rw [htypes, List.append_assoc]; rfl
    have hrest := Sound.foldl_resolve hw post (pre ++ [m]) hs' htypes' hpre'
    rwa [List.append_assoc] at hrest

/-- A pass over kept hierarchies, with each of which the parent's is kept, keeps these and fills in
computed ones. -/
theorem run_sound (hw : o.WF) (hl : start.length = o.types.length)
    (hup : ∀ {id p : TypeId}, (start.at? id).isSome → o.Up id p → (start.at? p).isSome) :
    Sound o start (run o start).table ∧
      ∀ {id : TypeId}, (o.item? id).isSome → ((run o start).table.at? id).isSome := by
  have hs : Sound o start start := ⟨hl, fun h => h, .kept, hup⟩
  obtain ⟨hs', hall⟩ := Sound.foldl_resolve hw o.types [] (p := ⟨start, 0⟩) hs rfl
    fun _ h => by cases h
  refine ⟨hs', fun {id} hi => ?_⟩
  obtain ⟨m, hm, -⟩ := Outline.item?_isSome_iff.1 hi
  have hid := hw.id hm
  subst hid
  exact hall m (List.mem_of_getElem? hm) hi

/-! ## Computed hierarchies -/

theorem Computed.congr {start start' : HierarchyTable}
    (hs : ∀ id, start.at? id = start'.at? id) {id : TypeId} {h : Hierarchy}
    (hc : Computed o start id h) : Computed o start' id h := by
  induction hc with
  | kept found => exact .kept (hs _ ▸ found)
  | cycle hopen hi hon => exact .cycle (hs _ ▸ hopen) hi hon
  | top hopen hi htop => exact .top (hs _ ▸ hopen) hi htop
  | child hopen hi hoff hup _ ih => exact .child (hs _ ▸ hopen) hi hoff hup ih

theorem Computed.kept_or_item {start : HierarchyTable} {id : TypeId} {h : Hierarchy}
    (hc : Computed o start id h) : start.at? id = some h ∨ (o.item? id).isSome := by
  cases hc with
  | kept found => exact .inl found
  | cycle _ hi _ => exact .inr (by rw [hi]; rfl)
  | top _ hi _ => exact .inr (by rw [hi]; rfl)
  | child _ hi _ _ _ => exact .inr (by rw [hi]; rfl)

/-! ## From scratch

With nothing kept there is one way to compute a hierarchy, read off the graph. -/

theorem Computed.not_kept {id : TypeId} {h : Hierarchy} :
    ¬HierarchyTable.at? [] id = some h := by
  intro found
  cases found

theorem Computed.item {id : TypeId} {h : Hierarchy} (hc : Computed o [] id h) :
    (o.item? id).isSome :=
  hc.kept_or_item.resolve_left Computed.not_kept

theorem ownEnds_derive (o : Outline) (table : HierarchyTable) (m : Merged) (own : ItemData) :
    (derive o table m own).ownEnds = o.endsOf m.id := by
  unfold derive
  split
  · rfl
  · rfl
  · split
    · rfl
    · split <;> rfl

theorem Computed.ownEnds (hw : o.WF) {id : TypeId} {h : Hierarchy} (hc : Computed o [] id h) :
    h.ownEnds = o.endsOf id := by
  cases hc with
  | kept found => exact absurd found Computed.not_kept
  | cycle _ hi _ => rw [← hw.id_of_item hi]; rfl
  | top _ hi _ => rw [ownEnds_derive, hw.id_of_item hi]
  | child _ hi _ _ _ =>
    unfold inherit
    split
    · rw [← hw.id_of_item hi]; rfl
    · rw [← hw.id_of_item hi]; rfl

theorem Computed.eq_cyclic {id : TypeId} {h : Hierarchy} {m : Merged} {own : ItemData}
    (hc : Computed o [] id h) (hi : o.item? id = some (m, own)) (hon : o.OnCycle id) :
    h = cyclic o m own (cycleOf o id) := by
  cases hc with
  | kept found => exact absurd found Computed.not_kept
  | cycle _ hi' _ => rw [hi] at hi'; cases hi'; rfl
  | top _ _ htop => exact absurd hon (Outline.not_onCycle_of_top htop)
  | child _ _ hoff _ _ => exact absurd hon hoff

theorem Computed.eq_derive {id : TypeId} {h : Hierarchy} {m : Merged} {own : ItemData}
    (hc : Computed o [] id h) (hi : o.item? id = some (m, own)) (htop : o.parentItem? id = none) :
    h = derive o [] m own := by
  cases hc with
  | kept found => exact absurd found Computed.not_kept
  | cycle _ _ hon => exact absurd hon (Outline.not_onCycle_of_top htop)
  | top _ hi' _ => rw [hi] at hi'; cases hi'; rfl
  | child _ _ _ hup _ => exact absurd hup (Outline.not_up_of_top htop)

theorem Computed.eq_inherit {id p : TypeId} {h : Hierarchy} {m : Merged} {own : ItemData}
    (hc : Computed o [] id h) (hi : o.item? id = some (m, own)) (hoff : ¬o.OnCycle id)
    (hup : o.Up id p) : ∃ parent, Computed o [] p parent ∧ h = inherit o m own parent := by
  cases hc with
  | kept found => exact absurd found Computed.not_kept
  | cycle _ _ hon => exact absurd hon hoff
  | top _ _ htop => exact absurd hup (Outline.not_up_of_top htop)
  | child _ hi' _ hup' habove =>
    rw [hi] at hi'
    cases hi'
    exact ⟨_, hup'.unique hup ▸ habove, rfl⟩

theorem Computed.unique {id : TypeId} {h k : Hierarchy} (hc : Computed o [] id h)
    (hk : Computed o [] id k) : h = k := by
  induction hc generalizing k with
  | kept found => exact absurd found Computed.not_kept
  | cycle _ hi hon => exact (hk.eq_cyclic hi hon).symm
  | top _ hi htop => exact (hk.eq_derive hi htop).symm
  | child _ hi hoff hup _ ih =>
    obtain ⟨parent, hparent, rfl⟩ := hk.eq_inherit hi hoff hup
    rw [ih hparent]

end TypeAtlas.Resolve
