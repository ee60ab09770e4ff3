/-
Counterparts: types with the same code in two tables. Two tables may number their types differently
and still say the same about some codes and about every parent code met from there. Main statement:
the hierarchies of counterparts then match, although they were computed in different orders and share
no entry: same status, ancestors with the same codes, same members in the same order, and relation
ends that are related as the ends of the tables are. What carries it is that a computed hierarchy is
a derivation over the extends graph, so it can be carried from one graph to the other.
-/
import TypeAtlas.Proofs.Ancestry

namespace TypeAtlas

/-! ## Codes as names of positions -/

section Table

variable {types : List Merged}

theorem idOf?_eq_some_iff (hcodes : (types.map Merged.code).Nodup) {code : String} {i : TypeId} :
    idOf? types code = some i ↔ ∃ m, types[i]? = some m ∧ m.code = code :=
  Dict.findIdx?_key_eq_some_iff hcodes

/-- Positions with the same code are the same. -/
theorem eq_of_code_eq (hcodes : (types.map Merged.code).Nodup) {i j : TypeId} {m n : Merged}
    (hm : types[i]? = some m) (hn : types[j]? = some n) (h : m.code = n.code) : i = j := by
  have hi := (idOf?_eq_some_iff hcodes).2 ⟨m, hm, rfl⟩
  have hj := (idOf?_eq_some_iff hcodes).2 ⟨n, hn, rfl⟩
  rw [h, hj] at hi
  exact (Option.some.inj hi).symm

namespace Outline

/-- The parent item of a type is the item type with the code that it declares. -/
theorem up_iff_code (hcodes : (types.map Merged.code).Nodup) {i p : TypeId} {m : Merged}
    {own : ItemData} (hm : types[i]? = some m) (hd : m.data = .item own) :
    (ofTypes types).Up i p ↔ ∃ link q, own.parent = some link ∧ types[p]? = some q ∧
      q.code = link.code ∧ q.isItem = true := by
  rw [up_iff_parent, parent_ofTypes types hm]
  constructor
  · intro h
    obtain ⟨own', link, q, hd', hlink, hid, hq, hitem⟩ := parentIn_eq_item h
    rw [hd] at hd'
    cases hd'
    obtain ⟨q', hq', hcode⟩ := (idOf?_eq_some_iff hcodes).1 hid
    rw [hq] at hq'
    cases hq'
    exact ⟨link, q, hlink, hq, hcode, hitem⟩
  · rintro ⟨link, q, hlink, hq, hcode, hitem⟩
    have hid := (idOf?_eq_some_iff hcodes).2 ⟨q, hq, hcode⟩
    rw [parentIn_of_item hd, hlink]
    simp [hid, hq, hitem]

/-- Without a parent item, a type has the parent it declares, if any, for missing. -/
theorem parent_of_top {i : TypeId} {m : Merged} {own : ItemData} (hm : types[i]? = some m)
    (hd : m.data = .item own) (htop : (ofTypes types).parentItem? i = none) :
    (ofTypes types).parent i = (own.parent.map fun link => Parent.missing link.code).getD .none := by
  cases hp : (ofTypes types).parent i with
  | item p => exact absurd (up_iff_parent.2 hp) (not_up_of_top htop)
  | none =>
    rw [parent_ofTypes types hm, parentIn_of_item hd] at hp
    cases hl : own.parent with
    | none => rfl
    | some link =>
      simp only [hl] at hp
      split at hp
      · split at hp <;> cases hp
      · cases hp
  | missing code =>
    rw [parent_ofTypes types hm] at hp
    obtain ⟨location, hl⟩ := parentIn_eq_missing hd hp
    rw [hl]
    rfl

theorem endsOf_ofTypes {i : TypeId} {m : Merged} {own : ItemData} (hm : types[i]? = some m)
    (hd : m.data = .item own) :
    (ofTypes types).endsOf i = types.flatMap fun r => r.endsFrom m.code := by
  have hitem : m.isItem = true := by simp [Merged.isItem, Merged.kind, hd, TypeData.kind]
  simp [endsOf, ofTypes, hm, ownEndsIn, hitem]

end Outline

end Table

/-! ## Counterparts -/

/-- Two tables say the same about the codes in `P`: they have equal types for them, but for the
position, and the parent codes declared there are in `P` too. -/
structure SameOn (P : String → Prop) (types types' : List Merged) : Prop where
  wf : (Outline.ofTypes types).WF
  wf' : (Outline.ofTypes types').WF
  codes : (types.map Merged.code).Nodup
  codes' : (types'.map Merged.code).Nodup
  there : ∀ {i : TypeId} {m : Merged}, types[i]? = some m → P m.code →
    ∃ i', types'[i']? = some { m with id := i' }
  back : ∀ {i : TypeId} {m : Merged}, types'[i]? = some m → P m.code →
    ∃ i', types[i']? = some { m with id := i' }
  up : ∀ {i : TypeId} {m : Merged} {own : ItemData} {link : Extends}, types[i]? = some m →
    P m.code → m.data = .item own → own.parent = some link → P link.code

/-- Positions of one type in two tables, with a code in `P`. -/
def Counterparts (P : String → Prop) (types types' : List Merged) (i i' : TypeId) : Prop :=
  ∃ m, types[i]? = some m ∧ types'[i']? = some { m with id := i' } ∧ P m.code

variable {P : String → Prop} {types types' : List Merged}

theorem SameOn.symm (hs : SameOn P types types') : SameOn P types' types := by
  refine ⟨hs.wf', hs.wf, hs.codes', hs.codes, hs.back, hs.there, fun hm hp hd hl => ?_⟩
  obtain ⟨i', hm'⟩ := hs.back hm hp
  exact hs.up hm' hp hd hl

/-- The counterpart of an item type is an item type with the same own members. -/
theorem Counterparts.item {i i' : TypeId} (h : Counterparts P types types' i i') {m : Merged}
    {own : ItemData} (hi : (Outline.ofTypes types).item? i = some (m, own)) :
    types[i]? = some m ∧ types'[i']? = some { m with id := i' } ∧ m.data = .item own ∧ P m.code ∧
      (Outline.ofTypes types').item? i' = some ({ m with id := i' }, own) := by
  obtain ⟨hm, hd⟩ := Outline.item?_eq_some.1 hi
  obtain ⟨m₀, hm₀, hm', hp⟩ := h
  rw [show types[i]? = some m from hm] at hm₀
  cases hm₀
  exact ⟨hm, hm', hd, hp, Outline.item?_eq_some.2 ⟨hm', hd⟩⟩

namespace Counterparts

variable {i i' p : TypeId} (hs : SameOn P types types') (h : Counterparts P types types' i i')

include hs h

theorem symm : Counterparts P types' types i' i := by
  obtain ⟨m, hm, hm', hp⟩ := h
  refine ⟨_, hm', ?_, hp⟩
  rw [hm]
  cases hs.wf.id hm
  rfl

theorem unique {j' : TypeId} (h' : Counterparts P types types' i j') : i' = j' := by
  obtain ⟨m, hm, hm', -⟩ := h
  obtain ⟨n, hn, hn', -⟩ := h'
  rw [hm] at hn
  cases hn
  exact eq_of_code_eq hs.codes' hm' hn' rfl

/-- The parent items of counterparts are counterparts. -/
theorem up (hup : (Outline.ofTypes types).Up i p) :
    ∃ p', (Outline.ofTypes types').Up i' p' ∧ Counterparts P types types' p p' := by
  obtain ⟨m, hm, hm', hp⟩ := h
  obtain ⟨⟨m₀, own⟩, hi⟩ := Option.isSome_iff_exists.1 (hs.wf.child hup)
  obtain ⟨hm₀, hd⟩ := Outline.item?_eq_some.1 hi
  cases hm.symm.trans hm₀
  obtain ⟨link, q, hlink, hq, hcode, hitem⟩ := (Outline.up_iff_code hs.codes hm hd).1 hup
  have hpq : P q.code := hcode ▸ hs.up hm hp hd hlink
  obtain ⟨p', hq'⟩ := hs.there hq hpq
  exact ⟨p', (Outline.up_iff_code hs.codes' hm' hd).2 ⟨link, _, hlink, hq', hcode, hitem⟩,
    q, hq, hq', hpq⟩

/-- A way up from a type is a way up from its counterpart. -/
theorem transGen (hup : Relation.TransGen (Outline.ofTypes types).Up i p) :
    ∃ p', Relation.TransGen (Outline.ofTypes types').Up i' p' ∧
      Counterparts P types types' p p' := by
  induction hup with
  | single hup =>
    obtain ⟨p', hup', hp⟩ := h.up hs hup
    exact ⟨p', .single hup', hp⟩
  | tail _ hup ih =>
    obtain ⟨b', hb', hb⟩ := ih
    obtain ⟨p', hup', hp⟩ := hb.up hs hup
    exact ⟨p', hb'.tail hup', hp⟩

theorem onCycle (hon : (Outline.ofTypes types).OnCycle i) : (Outline.ofTypes types').OnCycle i' := by
  obtain ⟨p', hup, hp⟩ := h.transGen hs hon
  rwa [← h.unique hs hp] at hup

theorem top (htop : (Outline.ofTypes types).parentItem? i = none) :
    (Outline.ofTypes types').parentItem? i' = none := by
  cases hp : (Outline.ofTypes types').parentItem? i' with
  | none => rfl
  | some p' =>
    obtain ⟨p, hup, -⟩ := (h.symm hs).up hs.symm hp
    exact absurd hup (Outline.not_up_of_top htop)

end Counterparts

/-! ## Matching hierarchies -/

/-- Hierarchies of two tables that say the same: `code` and `code'` tell the codes of positions, and
`R` relates the relation ends. -/
structure Hierarchy.Matches (R : List RelationEnd → List RelationEnd → Prop)
    (code code' : TypeId → Option String) (h h' : Hierarchy) : Prop where
  status : h.status = h'.status
  ancestors : h.ancestors.map code = h'.ancestors.map code'
  attributes : h.attributes = h'.attributes
  indexes : h.indexes = h'.indexes
  properties : h.properties = h'.properties
  ownEnds : R h.ownEnds h'.ownEnds
  ends : R h.ends h'.ends

/-- The code of a position of a table. -/
def codeAt (types : List Merged) (i : TypeId) : Option String := (types[i]?).map Merged.code

namespace Resolve

section Deriving

variable {R : List RelationEnd → List RelationEnd → Prop} {i i' : TypeId} {m : Merged}
  {own : ItemData} (hid : m.id = i) (hm : types[i]? = some m)
  (hm' : types'[i']? = some { m with id := i' })
  (hends : R ((Outline.ofTypes types).endsOf i) ((Outline.ofTypes types').endsOf i'))

include hid hm hm' hends

theorem ownOnly_matches (status : Status) (ds ds' : List Diagnostic) :
    (ownOnly (.ofTypes types) m own status ds).Matches R (codeAt types) (codeAt types')
      (ownOnly (.ofTypes types') { m with id := i' } own status ds') := by
  subst hid
  exact ⟨rfl, by simp [ownOnly, codeAt, hm, hm'], rfl, rfl, rfl, hends, hends⟩

theorem inherit_matches (happend : ∀ {k k' l l'}, R k k' → R l l' → R (k ++ l) (k' ++ l'))
    {p p' : Hierarchy} (hp : p.Matches R (codeAt types) (codeAt types') p') :
    (inherit (.ofTypes types) m own p).Matches R (codeAt types) (codeAt types')
      (inherit (.ofTypes types') { m with id := i' } own p') := by
  have hc : p.isCycle = p'.isCycle := by unfold Hierarchy.isCycle; rw [hp.status]
  unfold inherit
  rw [hc]
  split
  · exact ownOnly_matches hid hm hm' hends .cycle [] []
  · subst hid
    refine ⟨hp.status, ?_, ?_, ?_, ?_, hends, happend hp.ends hends⟩
    · simp [extend, codeAt, hm, hm', hp.ancestors]
    · simp [extend, hp.attributes]
    · simp [extend, hp.indexes]
    · simp [extend, hp.properties]

end Deriving

/-- Hierarchies computed from scratch for counterparts match. -/
theorem Computed.matches {R : List RelationEnd → List RelationEnd → Prop}
    (happend : ∀ {k k' l l'}, R k k' → R l l' → R (k ++ l) (k' ++ l'))
    (hs : SameOn P types types')
    (hends : ∀ code, P code → R (types.flatMap fun r => r.endsFrom code)
      (types'.flatMap fun r => r.endsFrom code))
    {i i' : TypeId} (hi : Counterparts P types types' i i') {h h' : Hierarchy}
    (hc : Computed (.ofTypes types) [] i h) (hc' : Computed (.ofTypes types') [] i' h') :
    h.Matches R (codeAt types) (codeAt types') h' := by
  have hendsOf : ∀ {i i' : TypeId} {m : Merged} {own : ItemData}, types[i]? = some m →
      types'[i']? = some { m with id := i' } → m.data = .item own → P m.code →
      R ((Outline.ofTypes types).endsOf i) ((Outline.ofTypes types').endsOf i') := by
    intro i i' m own hm hm' hd hp
    rw [Outline.endsOf_ofTypes hm hd, Outline.endsOf_ofTypes hm' hd]
    exact hends m.code hp
  -- along the derivation for `i`: its case is also the case of the counterpart, whose own derivation
  -- is then known, in whatever order the pass found it
  induction hc generalizing i' h' with
  | kept found => exact absurd found Computed.not_kept
  | cycle _ hitem hon =>
    obtain ⟨hm, hm', hd, hp, hitem'⟩ := hi.item hitem
    rw [hc'.eq_cyclic hitem' (hi.onCycle hs hon)]
    exact ownOnly_matches (hs.wf.id hm) hm hm' (hendsOf hm hm' hd hp) .cycle _ _
  | @top i m own _ hitem htop =>
    obtain ⟨hm, hm', hd, hp, hitem'⟩ := hi.item hitem
    have htop' := hi.top hs htop
    obtain ⟨ds, hderive, -⟩ := derive_eq_ownOnly hs.wf hitem htop
    obtain ⟨ds', hderive', -⟩ := derive_eq_ownOnly hs.wf' hitem' htop'
    rw [hc'.eq_derive hitem' htop', hderive, hderive', Outline.parent_of_top hm hd htop,
      Outline.parent_of_top hm' hd htop']
    exact ownOnly_matches (hs.wf.id hm) hm hm' (hendsOf hm hm' hd hp) _ _ _
  | child _ hitem hoff hup _ ih =>
    obtain ⟨hm, hm', hd, hp, hitem'⟩ := hi.item hitem
    obtain ⟨p', hup', hparent⟩ := hi.up hs hup
    obtain ⟨parent', hparent', rfl⟩ :=
      hc'.eq_inherit hitem' (fun hon => hoff ((hi.symm hs).onCycle hs.symm hon)) hup'
    exact inherit_matches (hs.wf.id hm) hm hm' (hendsOf hm hm' hd hp) happend (ih hparent hparent')

end Resolve

end TypeAtlas
