/-
Hierarchies that agree: equal but for the order of keys and, where the chain of parents runs into a
cycle, for the findings. Deriving a hierarchy respects agreement: from equal own members over
agreeing parents come agreeing hierarchies, also between two outlines. So computed hierarchies agree
with those computed from scratch as soon as the kept ones do, and a hierarchy computed from scratch
agrees with that of another outline that is the same at the type and at everything above it.
-/
import TypeAtlas.Proofs.Dict
import TypeAtlas.Proofs.Pass

namespace TypeAtlas

/-! ## Equal members -/

theorem AttributeDecl.beq_iff {a b : AttributeDecl} :
    (a == b) = true ↔
      { a with properties := b.properties } = b ∧ (a.properties == b.properties) = true := by
  show instBEqAttributeDecl.beq a b = true ↔ _
  cases a
  cases b
  simp only [instBEqAttributeDecl.beq, Bool.and_eq_true, beq_iff_eq, AttributeDecl.mk.injEq,
    true_and]
  tauto

theorem Attribute.beq_iff {a b : Attribute} :
    (a == b) = true ↔ { a with properties := b.properties } = b ∧
      (a.properties == b.properties) = true := by
  show (a.toAttributeDecl == b.toAttributeDecl && a.owner == b.owner) = true ↔ _
  rw [Bool.and_eq_true, AttributeDecl.beq_iff, beq_iff_eq (a := a.owner)]
  cases a
  cases b
  simp only [Attribute.mk.injEq]
  tauto

instance : EquivBEq Attribute where
  rfl := Attribute.beq_iff.2 ⟨rfl, BEq.rfl⟩
  symm h := by
    obtain ⟨h1, h2⟩ := Attribute.beq_iff.1 h
    refine Attribute.beq_iff.2 ⟨?_, BEq.symm h2⟩
    rw [← h1]
  trans h h' := by
    obtain ⟨h1, h2⟩ := Attribute.beq_iff.1 h
    obtain ⟨h3, h4⟩ := Attribute.beq_iff.1 h'
    refine Attribute.beq_iff.2 ⟨?_, BEq.trans h2 h4⟩
    rw [← h3, ← h1]

theorem ItemData.beq_iff {a b : ItemData} :
    (a == b) = true ↔ a.parent = b.parent ∧ (a.attributes == b.attributes) = true ∧
      (a.indexes == b.indexes) = true := by
  show (a.parent == b.parent && (a.attributes == b.attributes && a.indexes == b.indexes)) = true ↔ _
  rw [Bool.and_eq_true, Bool.and_eq_true, beq_iff_eq]

/-- The finding for an override is the same for equal attributes. -/
theorem Merge.overrideConflict_congr {a a' : Option Attribute} {b b' : Attribute}
    (ha : (a == a') = true) (hb : (b == b') = true) :
    Merge.overrideConflict a b.toAttributeDecl = Merge.overrideConflict a' b'.toAttributeDecl := by
  have hb' := (Attribute.beq_iff.1 hb).1
  rw [← hb']
  cases a with
  | none =>
    cases a' with
    | none => rfl
    | some _ => cases ha
  | some a =>
    cases a' with
    | none => cases ha
    | some a' =>
      have ha' := (Attribute.beq_iff.1 (show (a == a') = true from ha)).1
      rw [← ha']
      rfl

/-! ## Agreement -/

/-- Equal but for the order of keys and the findings. -/
structure Hierarchy.Agrees (h k : Hierarchy) : Prop where
  status : h.status = k.status
  ancestors : h.ancestors = k.ancestors
  attributes : (h.attributes == k.attributes) = true
  indexes : (h.indexes == k.indexes) = true
  ownEnds : h.ownEnds = k.ownEnds
  ends : h.ends = k.ends
  properties : (h.properties == k.properties) = true

/-- Agreeing, with the same findings in some order unless the chain runs into a cycle; and even
then, findings on one side only if there are some on the other. -/
structure Hierarchy.Alike (h k : Hierarchy) : Prop extends h.Agrees k where
  findings : h.status ≠ .cycle → h.diagnostics.Perm k.diagnostics
  silent : h.diagnostics = [] ↔ k.diagnostics = []

theorem Hierarchy.Alike.refl (h : Hierarchy) : h.Alike h :=
  ⟨⟨rfl, rfl, BEq.rfl, BEq.rfl, rfl, rfl, BEq.rfl⟩, fun _ => .refl _, Iff.rfl⟩

theorem Hierarchy.Alike.trans {h k l : Hierarchy} (a : h.Alike k) (b : k.Alike l) : h.Alike l :=
  ⟨⟨a.status.trans b.status, a.ancestors.trans b.ancestors, BEq.trans a.attributes b.attributes,
    BEq.trans a.indexes b.indexes, a.ownEnds.trans b.ownEnds, a.ends.trans b.ends,
    BEq.trans a.properties b.properties⟩,
    fun hc => (a.findings hc).trans (b.findings (a.status ▸ hc)), a.silent.trans b.silent⟩

namespace Resolve

variable {o o' : Outline} {start : HierarchyTable}

/-- The type at a position is the same in two outlines, in what hierarchies depend on. -/
structure SameAt (o o' : Outline) (m : Merged) (own : ItemData) (m' : Merged) (own' : ItemData) :
    Prop where
  id : m.id = m'.id
  code : m.code = m'.code
  own : (own == own') = true
  properties : (m.properties == m'.properties) = true
  ends : o.endsOf m.id = o'.endsOf m'.id

theorem SameAt.refl (o : Outline) (m : Merged) (own : ItemData) : SameAt o o m own m own :=
  ⟨rfl, rfl, ItemData.beq_iff.2 ⟨rfl, BEq.rfl, BEq.rfl⟩, BEq.rfl, rfl⟩

section Deriving

variable {m m' : Merged} {own own' : ItemData}

theorem ownOnly_alike (hs : SameAt o o' m own m' own') (status : Status)
    {ds ds' : List Diagnostic} (hd : status ≠ .cycle → ds.Perm ds') (hn : ds = [] ↔ ds' = []) :
    (ownOnly o m own status ds).Alike (ownOnly o' m' own' status ds') := by
  obtain ⟨-, hattributes, hindexes⟩ := ItemData.beq_iff.1 hs.own
  exact ⟨⟨rfl, congrArg (fun i => [i]) hs.id, hattributes, hindexes, hs.ends, hs.ends,
    hs.properties⟩, hd, hn⟩

/-- The finding for one own attribute, if there is one, over the inherited ones. -/
def overrideAt (inherited : Dict Attribute) (k : String) (own : Option Attribute) :
    List Diagnostic :=
  match own with
  | some a => Merge.overrideConflict (inherited.get? k) a.toAttributeDecl
  | none => []

theorem overrides_eq (d e : Dict Attribute) :
    overrides d e = e.entries.flatMap fun row => overrideAt d row.1 (some row.2) := rfl

theorem overrides_perm {d d' e e' : Dict Attribute} (hd : (d == d') = true)
    (he : (e == e') = true) : (overrides d e).Perm (overrides d' e') := by
  rw [overrides_eq, overrides_eq]
  refine Dict.flatMap_entries_perm (f := overrideAt d) (g := overrideAt d') he fun k a b hab => ?_
  cases a with
  | none =>
    cases b with
    | none => rfl
    | some _ => cases hab
  | some a =>
    cases b with
    | none => cases hab
    | some b => exact Merge.overrideConflict_congr ((Dict.beq_iff_get? d d').1 hd k) hab

theorem extend_alike (hs : SameAt o o' m own m' own') {p p' : Hierarchy} (hp : p.Alike p') :
    (extend o m own p).Alike (extend o' m' own' p') := by
  obtain ⟨-, hattributes, hindexes⟩ := ItemData.beq_iff.1 hs.own
  have hfindings := overrides_perm hp.attributes hattributes
  refine ⟨⟨hp.status, ?_, Dict.overlay_beq hp.attributes hattributes,
    Dict.overlay_beq hp.indexes hindexes, hs.ends, ?_,
    Dict.overlay_beq hp.properties hs.properties⟩, fun _ => hfindings, fun h => ?_, fun h => ?_⟩
  · show p.ancestors ++ [m.id] = p'.ancestors ++ [m'.id]
    rw [hp.ancestors, hs.id]
  · show p.ends ++ o.endsOf m.id = p'.ends ++ o'.endsOf m'.id
    rw [hp.ends, hs.ends]
  · rw [show overrides p.attributes own.attributes = [] from h] at hfindings
    exact List.nil_perm.1 hfindings
  · rw [show overrides p'.attributes own'.attributes = [] from h] at hfindings
    exact List.perm_nil.1 hfindings

theorem inherit_alike (hs : SameAt o o' m own m' own') {p p' : Hierarchy} (hp : p.Alike p') :
    (inherit o m own p).Alike (inherit o' m' own' p') := by
  -- both parents lead into a cycle or none does, so the same branch is taken
  have hc : p.isCycle = p'.isCycle := by unfold Hierarchy.isCycle; rw [hp.status]
  unfold inherit
  rw [hc]
  split
  · exact ownOnly_alike hs .cycle (fun h => absurd rfl h) Iff.rfl
  · exact extend_alike hs hp

theorem derive_top_alike (hw : o.WF) (hs : SameAt o o' m own m' own') {id : TypeId}
    (hi : o.item? id = some (m, own)) (htop : o.parentItem? id = none)
    (hp : o.parent id = o'.parent id) (hmissing : ∀ {code : String}, o.parent id = .missing code →
      ∃ location, own.parent = some ⟨code, location⟩) :
    (derive o [] m own).Alike (derive o' [] m' own') := by
  have hid := hw.id_of_item hi
  unfold derive
  rw [← hs.id, hid, ← hp]
  cases hparent : o.parent id with
  | none => exact ownOnly_alike hs .complete (fun _ => .refl _) Iff.rfl
  | missing code =>
    obtain ⟨location, hl⟩ := hmissing hparent
    have hl' : own'.parent = some ⟨code, location⟩ := (ItemData.beq_iff.1 hs.own).1 ▸ hl
    rw [show parentLocation m own = location by unfold parentLocation; rw [hl],
      show parentLocation m' own' = location by unfold parentLocation; rw [hl'], hs.code]
    exact ownOnly_alike hs _ (fun _ => .refl _) Iff.rfl
  | item p => exact absurd (Outline.up_iff_parent.2 hparent) (Outline.not_up_of_top htop)

end Deriving

/-! ## Computed hierarchies -/

/-- If the kept hierarchies are alike those computed from scratch, so are the computed ones. -/
theorem Computed.alike (hk : ∀ {id : TypeId} {h k : Hierarchy}, start.at? id = some h →
      Computed o [] id k → h.Alike k) {id : TypeId} {h k : Hierarchy} (hc : Computed o start id h)
    (hs : Computed o [] id k) : h.Alike k := by
  induction hc generalizing k with
  | kept found => exact hk found hs
  | cycle _ hi hon =>
    rw [hs.eq_cyclic hi hon]
    exact .refl _
  | top _ hi htop =>
    rw [hs.eq_derive hi htop]
    exact .refl _
  | child _ hi hoff hup _ ih =>
    obtain ⟨parent, hparent, rfl⟩ := hs.eq_inherit hi hoff hup
    exact inherit_alike (.refl _ _ _) (ih hparent)

/-- Two outlines that are the same on some types and everything above them. -/
structure SameAbove (o o' : Outline) (U : TypeId → Prop) : Prop where
  same : ∀ {id : TypeId} {m : Merged} {own : ItemData}, U id → o.item? id = some (m, own) →
    ∃ m' own', o'.item? id = some (m', own') ∧ SameAt o o' m own m' own'
  parent : ∀ {id : TypeId}, U id → o.parent id = o'.parent id
  closed : ∀ {id p : TypeId}, U id → o.Up id p → U p

variable {U : TypeId → Prop}

theorem SameAbove.up_iff (hs : SameAbove o o' U) {a b : TypeId} (ha : U a) :
    o.Up a b ↔ o'.Up a b := by
  rw [Outline.up_iff_parent, Outline.up_iff_parent, hs.parent ha]

/-- A cycle that starts among types where two graphs are the same is in both. -/
theorem onCycle_of_up {V : TypeId → Prop} {o₁ o₂ : Outline}
    (hup : ∀ {a b}, V a → o₁.Up a b → V b ∧ o₂.Up a b) {a : TypeId} (ha : V a)
    (h : o₁.OnCycle a) : o₂.OnCycle a := by
  have key : ∀ {b}, Relation.TransGen o₁.Up a b → V b ∧ Relation.TransGen o₂.Up a b := by
    intro b hab
    induction hab with
    | single hab =>
      obtain ⟨hb, hab'⟩ := hup ha hab
      exact ⟨hb, .single hab'⟩
    | tail _ hbc ih =>
      obtain ⟨hc, hbc'⟩ := hup ih.1 hbc
      exact ⟨hc, ih.2.tail hbc'⟩
  exact (key h).2

theorem SameAbove.onCycle_iff (hs : SameAbove o o' U) {a : TypeId} (ha : U a) :
    o.OnCycle a ↔ o'.OnCycle a :=
  ⟨onCycle_of_up (fun ha h => ⟨hs.closed ha h, (hs.up_iff ha).1 h⟩) ha,
    onCycle_of_up (fun ha h => ⟨hs.closed ha ((hs.up_iff ha).2 h), (hs.up_iff ha).2 h⟩) ha⟩

/-- Where two outlines are the same at a type and above it, its hierarchies from scratch are
alike. -/
theorem Computed.alike_of_same {types : List Merged} (hw : (Outline.ofTypes types).WF)
    (hs : SameAbove (.ofTypes types) o' U) {id : TypeId} {h k : Hierarchy} (hu : U id)
    (hc : Computed (.ofTypes types) [] id h) (hc' : Computed o' [] id k) : h.Alike k := by
  induction hc generalizing k with
  | kept found => exact absurd found Computed.not_kept
  | cycle _ hi hon =>
    obtain ⟨m', own', hi', hsame⟩ := hs.same hu hi
    rw [hc'.eq_cyclic hi' ((hs.onCycle_iff hu).1 hon)]
    exact ownOnly_alike hsame .cycle (fun h => absurd rfl h) (by simp)
  | @top id m own _ hi htop =>
    obtain ⟨m', own', hi', hsame⟩ := hs.same hu hi
    have htop' : o'.parentItem? id = none := by
      unfold Outline.parentItem? at htop ⊢
      rw [← hs.parent hu]
      exact htop
    rw [hc'.eq_derive hi' htop']
    obtain ⟨hm, hd⟩ := Outline.item?_eq_some.1 hi
    refine derive_top_alike hw hsame hi htop (hs.parent hu) fun h => ?_
    exact Outline.parentIn_eq_missing hd ((Outline.parent_ofTypes types hm).symm.trans h)
  | child _ hi hoff hup _ ih =>
    obtain ⟨m', own', hi', hsame⟩ := hs.same hu hi
    obtain ⟨parent, hparent, rfl⟩ :=
      hc'.eq_inherit hi' (fun hon => hoff ((hs.onCycle_iff hu).2 hon)) ((hs.up_iff hu).1 hup)
    exact inherit_alike hsame (ih (hs.closed hu hup) hparent)

end Resolve

end TypeAtlas
