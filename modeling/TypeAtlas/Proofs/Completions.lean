/-
Completion through collection types. A collection type offers the members of its element type, which
may be a collection type again, and element types may lead in a circle. Main statement: completion
follows element types as far as the settings allow. If a type that is no collection stands there, it
offers what that type offers by itself, and otherwise nothing; it looks up at most one type more than
the settings allow hops, and allowing more hops changes no answer that was found with fewer.

The walk is told by its number of hops (`Model.behind?`), and the comparison of the depth before each
look-up by an evaluation with a counter of its own (`Completion.Completes`).
-/
import TypeAtlas.Assist.Completion
import TypeAtlas.Proofs.Generations

namespace TypeAtlas

namespace Model

/-! ## Element types -/

/-- The element type of a collection type. -/
def element? (m : Model) (code : String) : Option String :=
  (m.find? code).bind fun n =>
    match n.data with
    | .collection elementType _ => some elementType
    | _ => none

/-- Where a code leads after a number of hops, each from a collection type to its element type. -/
def behind? (m : Model) : Nat → String → Option String
  | 0, code => some code
  | hops + 1, code => (m.element? code).bind (m.behind? hops)

/-- After so many hops a code leads to one that is no collection type's. -/
def EndsAt (m : Model) (code : String) (hops : Nat) (last : String) : Prop :=
  m.behind? hops code = some last ∧ m.element? last = none

theorem element?_of_find? {m : Model} {code : String} {n : Node} (hn : m.find? code = some n) :
    m.element? code = match n.data with
      | .collection elementType _ => some elementType
      | _ => none := by
  unfold element?
  rw [hn]
  rfl

theorem code_of_find? {m : Model} {code : String} {n : Node} (hn : m.find? code = some n) :
    n.code = code := by
  obtain ⟨i, hi, hget⟩ := Option.bind_eq_some_iff.1 hn
  obtain ⟨hlt, hcode, -⟩ := List.findIdx?_eq_some_iff_getElem.1 hi
  obtain ⟨_, rfl⟩ := List.getElem?_eq_some_iff.1 hget
  simpa using hcode

theorem endsAt_zero {m : Model} {code last : String} :
    m.EndsAt code 0 last ↔ m.element? code = none ∧ code = last := by
  constructor
  · rintro ⟨h, hlast⟩
    cases h
    exact ⟨hlast, rfl⟩
  · rintro ⟨hlast, rfl⟩
    exact ⟨rfl, hlast⟩

theorem endsAt_succ {m : Model} {code last : String} {hops : Nat} :
    m.EndsAt code (hops + 1) last ↔ ∃ next, m.element? code = some next ∧ m.EndsAt next hops last := by
  constructor
  · rintro ⟨h, hlast⟩
    obtain ⟨next, hnext, hrest⟩ := Option.bind_eq_some_iff.1 h
    exact ⟨next, hnext, hrest, hlast⟩
  · rintro ⟨next, hnext, hrest, hlast⟩
    exact ⟨Option.bind_eq_some_iff.2 ⟨next, hnext, hrest⟩, hlast⟩

end Model

namespace Completion

/-! ## What a type offers by itself -/

/-- The completion of a qualified end, and none of an end without a qualifier. -/
def qualifiedEnds (es : List EndDecl) : List Completion :=
  es.flatMap fun e => e.qualifier.toList.map fun q => ⟨q, .relationEnd, some e.typeCode⟩

/-- What a code offers without a hop: an item type its attributes in order, then its qualified ends,
own and inherited; an enumeration its literals; a relation its qualified ends, the source first; a
map type its key and its value; and an unknown code nothing. -/
inductive Offers (m : Model) (code : String) : List Completion → Prop
  | item (h : (m.item? code).isSome) :
    Offers m code
      ((m.attributes code).map (fun a => ⟨a.qualifier, .attributeName, some a.typeRef⟩) ++
        qualifiedEnds ((m.relationEnds code true).map RelationEnd.toEndDecl))
  | enum {n : Node} {data : EnumData} (h : m.find? code = some n) (hd : n.data = .enum data) :
    Offers m code ((m.enumValues code).map fun v => ⟨v.1, .enumValue, some code⟩)
  | relation {n : Node} {source target : EndDecl} (h : m.find? code = some n)
      (hd : n.data = .relation source target) : Offers m code (qualifiedEnds [source, target])
  | map {n : Node} {key value : String} (h : m.find? code = some n) (hd : n.data = .map key value) :
    Offers m code [⟨"key", .mapEntry, some key⟩, ⟨"value", .mapEntry, some value⟩]
  | unknown (h : m.find? code = none) : Offers m code []

theorem filterMap_ofEnd? (es : List EndDecl) : es.filterMap ofEnd? = qualifiedEnds es := by
  induction es with
  | nil => rfl
  | cons e es ih =>
    rw [List.filterMap_cons, qualifiedEnds, List.flatMap_cons, ← qualifiedEnds, ← ih]
    unfold ofEnd?
    cases e.qualifier <;> rfl

variable {m : Model} {code : String}

theorem item?_of_find? {n : Node} {own : ItemData} (hn : m.find? code = some n)
    (hd : n.data = .item own) : m.item? code = some (n, own) := by
  unfold Model.item?
  rw [hn]
  simp [hd, TypeData.item?]

/-- The members of an item type are its attributes and ends as they are asked for. -/
theorem ofNode_of_item {n : Node} {own : ItemData} (hn : m.find? code = some n)
    (hd : n.data = .item own) :
    ofNode n =
      (m.attributes code).map (fun a => ⟨a.qualifier, .attributeName, some a.typeRef⟩) ++
        qualifiedEnds ((m.relationEnds code true).map RelationEnd.toEndDecl) := by
  have hhierarchy : m.hierarchy? code = n.hierarchy := by
    unfold Model.hierarchy?
    rw [item?_of_find? hn hd]
    rfl
  unfold ofNode Model.attributes Model.relationEnds
  rw [hhierarchy, hd]
  cases n.hierarchy with
  | none => rfl
  | some h => simp [ofHierarchy, ← filterMap_ofEnd?, List.filterMap_map]

/-- What stands behind a code that is no collection type's is offered without a hop. -/
theorem offers_membersWithin (hops : Nat) (hlast : m.element? code = none) :
    Offers m code (membersWithin m hops code) := by
  cases hn : m.find? code with
  | none =>
    have hnil : membersWithin m hops code = [] := by cases hops <;> simp [membersWithin, hn]
    rw [hnil]
    exact .unknown hn
  | some n =>
    rw [Model.element?_of_find? hn] at hlast
    have hnode : membersWithin m hops code = ofNode n := by
      cases hops with
      | zero => simp [membersWithin, hn]
      | succ hops => cases hd : n.data <;> simp_all [membersWithin]
    rw [hnode]
    cases hd : n.data with
    | item own =>
      rw [ofNode_of_item hn hd]
      exact .item (by rw [item?_of_find? hn hd]; rfl)
    | enum data =>
      have hvalues : ofNode n = (m.enumValues code).map fun v => ⟨v.1, .enumValue, some code⟩ := by
        simp [ofNode, Model.enumValues, hn, hd, Dict.keys, Model.code_of_find? hn]
      rw [hvalues]
      exact .enum hn hd
    | relation source target =>
      have hends : ofNode n = qualifiedEnds [source, target] := by
        rw [← filterMap_ofEnd?]
        simp [ofNode, hd]
      rw [hends]
      exact .relation hn hd
    | collection elementType container => simp [hd] at hlast
    | map key value =>
      have hentries : ofNode n = [⟨"key", .mapEntry, some key⟩, ⟨"value", .mapEntry, some value⟩] := by
        simp [ofNode, hd]
      rw [hentries]
      exact .map hn hd

theorem Offers.unique {l l' : List Completion} (h : Offers m code l) (h' : Offers m code l') :
    l = l' := by
  cases h <;> cases h' <;> simp_all [Model.item?, TypeData.item?]

/-! ## The walk -/

theorem membersWithin_zero_of_element {next : String} (h : m.element? code = some next) :
    membersWithin m 0 code = [] := by
  obtain ⟨n, hn, hnext⟩ := Option.bind_eq_some_iff.1 h
  cases hd : n.data <;> simp_all [membersWithin, ofNode]

theorem membersWithin_succ_of_element {next : String} (hops : Nat)
    (h : m.element? code = some next) :
    membersWithin m (hops + 1) code = membersWithin m hops next := by
  obtain ⟨n, hn, hnext⟩ := Option.bind_eq_some_iff.1 h
  cases hd : n.data <;> simp_all [membersWithin]

/-- Without a collection type the number of hops allowed does not matter. -/
theorem membersWithin_of_element_none (hops : Nat) (h : m.element? code = none) :
    membersWithin m hops code = membersWithin m 0 code :=
  (offers_membersWithin hops h).unique (offers_membersWithin 0 h)

/-- What stands behind collection types is found if enough hops are allowed. -/
theorem membersWithin_of_endsAt {allowed hops : Nat} {last : String}
    (h : m.EndsAt code hops last) (hle : hops ≤ allowed) :
    membersWithin m allowed code = membersWithin m 0 last := by
  induction hops generalizing code allowed with
  | zero =>
    obtain ⟨hnone, rfl⟩ := Model.endsAt_zero.1 h
    exact membersWithin_of_element_none allowed hnone
  | succ hops ih =>
    obtain ⟨next, hnext, hrest⟩ := Model.endsAt_succ.1 h
    obtain ⟨allowed, rfl⟩ := Nat.exists_eq_succ_of_ne_zero (by omega : allowed ≠ 0)
    rw [membersWithin_succ_of_element allowed hnext, ih hrest (by omega)]

/-- Nothing is found if the collection types do not end within the hops allowed. -/
theorem membersWithin_eq_nil {allowed : Nat}
    (h : ∀ hops last, m.EndsAt code hops last → allowed < hops) :
    membersWithin m allowed code = [] := by
  induction allowed generalizing code with
  | zero =>
    cases hnext : m.element? code with
    | none => exact absurd (h 0 code (Model.endsAt_zero.2 ⟨hnext, rfl⟩)) (Nat.lt_irrefl 0)
    | some next => exact membersWithin_zero_of_element hnext
  | succ allowed ih =>
    cases hnext : m.element? code with
    | none => exact absurd (h 0 code (Model.endsAt_zero.2 ⟨hnext, rfl⟩)) (Nat.not_lt_zero _)
    | some next =>
      rw [membersWithin_succ_of_element allowed hnext]
      refine ih fun hops last hends => ?_
      have := h (hops + 1) last (Model.endsAt_succ.2 ⟨next, hnext, hends⟩)
      omega

theorem membersWithin_congr {m' : Model} (hnodes : m'.nodes = m.nodes) (allowed : Nat)
    (code : String) : membersWithin m' allowed code = membersWithin m allowed code := by
  have hfind : m'.find? = m.find? := by
    funext code
    unfold Model.find? Model.idOf? Model.node?
    rw [hnodes]
  induction allowed generalizing code with
  | zero => simp only [membersWithin, hfind]
  | succ allowed ih => simp only [membersWithin, hfind, ih]

/-! ## The depth counter -/

/-- The largest number that the depth counter holds. -/
def maxCount : Nat := 2 ^ 64 - 1

/-- Completing a code at some depth ends with an answer after a number of look-ups. The depth is
compared with the setting before each look-up, and a collection type is left for its element type one
deeper; past the largest number there is no deeper. -/
inductive Completes (m : Model) : Nat → String → Nat → List Completion → Prop
  | tooDeep {depth : Nat} {code : String} (hdeep : m.config.maxCompletionDepth < depth) :
    Completes m depth code 0 []
  | direct {depth : Nat} {code : String} {answer : List Completion}
      (hdepth : depth ≤ m.config.maxCompletionDepth) (hlast : m.element? code = none)
      (hoffers : Offers m code answer) : Completes m depth code 1 answer
  | element {depth looks : Nat} {code next : String} {answer : List Completion}
      (hdepth : depth ≤ m.config.maxCompletionDepth) (hnext : m.element? code = some next)
      (hcount : depth + 1 ≤ maxCount) (hrest : Completes m (depth + 1) next looks answer) :
    Completes m depth code (looks + 1) answer

theorem Completes.unique {depth looks looks' : Nat} {answer answer' : List Completion}
    (h : Completes m depth code looks answer) (h' : Completes m depth code looks' answer') :
    answer = answer' := by
  induction h generalizing looks' with
  | tooDeep hdeep =>
    cases h' with
    | tooDeep => rfl
    | direct hdepth => omega
    | element hdepth => omega
  | direct hdepth hlast hoffers =>
    cases h' with
    | tooDeep => omega
    | direct _ _ hoffers' => exact hoffers.unique hoffers'
    | element _ hnext => rw [hlast] at hnext; cases hnext
  | element hdepth hnext hcount hrest ih =>
    cases h' with
    | tooDeep => omega
    | direct _ hlast => rw [hlast] at hnext; cases hnext
    | element _ hnext' _ hrest' =>
      cases hnext.symm.trans hnext'
      exact ih hrest'

/-- Completion ends at every depth that leaves so many hops. -/
theorem completes_membersWithin (hcount : m.config.maxCompletionDepth < maxCount) (code : String)
    {hops depth : Nat} (hdepth : depth + hops = m.config.maxCompletionDepth) :
    ∃ looks ≤ hops + 1, Completes m depth code looks (membersWithin m hops code) := by
  induction hops generalizing depth code with
  | zero =>
    cases hnext : m.element? code with
    | none => exact ⟨1, by omega, .direct (by omega) hnext (offers_membersWithin 0 hnext)⟩
    | some next =>
      rw [membersWithin_zero_of_element hnext]
      exact ⟨1, by omega, .element (by omega) hnext (by omega) (.tooDeep (by omega))⟩
  | succ hops ih =>
    cases hnext : m.element? code with
    | none => exact ⟨1, by omega, .direct (by omega) hnext (offers_membersWithin _ hnext)⟩
    | some next =>
      rw [membersWithin_succ_of_element hops hnext]
      obtain ⟨looks, hle, hrest⟩ := ih next (show depth + 1 + hops = _ by omega)
      exact ⟨looks + 1, by omega, .element (by omega) hnext (by omega) hrest⟩

/-! ## Members as a bounded walk -/

/-- Completion of a code as a bounded walk through collection types. -/
structure Walks (m : Model) (code : String) : Prop where
  /-- A type that is no collection is found within the hops that the settings allow. -/
  found : ∀ hops last, m.EndsAt code hops last → hops ≤ m.config.maxCompletionDepth →
    members m code = membersWithin m 0 last ∧ Offers m last (members m code)
  /-- A longer chain of collection types, or one that never ends, offers nothing. -/
  lost : (∀ hops last, m.EndsAt code hops last → m.config.maxCompletionDepth < hops) →
    members m code = []
  ends : ∃ looks ≤ m.config.maxCompletionDepth + 1, Completes m 0 code looks (members m code)
  only : ∀ looks answer, Completes m 0 code looks answer → answer = members m code
  /-- The same types with a larger depth give the same answer, if there was one. -/
  deeper : ∀ m' : Model, m'.nodes = m.nodes →
    m.config.maxCompletionDepth ≤ m'.config.maxCompletionDepth →
    ∀ hops last, m.EndsAt code hops last → hops ≤ m.config.maxCompletionDepth →
      members m' code = members m code

/-- Completion through collection types is a bounded walk in every model. -/
theorem walks_of_depth_lt {m : Model} (hcount : m.config.maxCompletionDepth < maxCount)
    (code : String) : Walks m code := by
  have hfound : ∀ {hops last}, m.EndsAt code hops last → hops ≤ m.config.maxCompletionDepth →
      members m code = membersWithin m 0 last := membersWithin_of_endsAt
  obtain ⟨looks, hle, hends⟩ :=
    completes_membersWithin hcount code (Nat.zero_add m.config.maxCompletionDepth)
  refine ⟨fun hops last h hops_le => ?_, membersWithin_eq_nil, ⟨looks, hle, hends⟩, ?_, ?_⟩
  · refine ⟨hfound h hops_le, ?_⟩
    rw [hfound h hops_le]
    exact offers_membersWithin 0 h.2
  · intro looks' answer h
    exact h.unique hends
  · intro m' hnodes hdepth hops last h hops_le
    rw [hfound h hops_le, members, membersWithin_congr hnodes,
      membersWithin_of_endsAt h (hops_le.trans hdepth)]

/-- Collection types, each with its element type. -/
def collections (rows : List (String × String)) : Group where
  file := ⟨0⟩
  module := ⟨0⟩
  declarations := rows.map fun (code, elementType) =>
    { code
      body := .collection elementType .list
      properties := .empty
      provenance := ⟨⟨0⟩, default⟩ }
  diagnostics := []

/-- Boxes of boxes of pages, and a chain of collection types that runs in a circle. -/
def nestedGroups : List Group :=
  [Model.sampleGroup default [("Page", none, ["text", "number"])],
    collections [("Store", "Shelf"), ("Shelf", "Box"), ("Box", "Book"), ("Book", "Page"),
      ("Snake", "Snake")]]

/-- With three hops a shelf is completed and a store is not; a circle is left in the end. -/
theorem walks_of_depth_lt_nested :
    ∃ m, Model.buildUnless .never nestedGroups {} none 1 0 = .ok m ∧
      m.config.maxCompletionDepth < maxCount ∧ m.EndsAt "Shelf" 3 "Page" ∧
      m.EndsAt "Store" 4 "Page" ∧ (∀ code, Walks m code) ∧
      ((members m "Shelf").map fun c => c.label) = ["text", "number"] ∧
      members m "Store" = [] ∧ members m "Snake" = [] := by
  refine ⟨_, rfl, by decide, ⟨rfl, rfl⟩, ⟨rfl, rfl⟩, fun code => ?_, by decide, by decide,
    by decide⟩
  exact walks_of_depth_lt (by decide) code

end Completion

end TypeAtlas
