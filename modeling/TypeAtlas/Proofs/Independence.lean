/-
What a type does not depend on. A merged type is made of the declarations of its code alone, and a
hierarchy of the types met by following parents. So two collections of groups that agree on those
declarations give the same type, at whatever position. Main statements: declarations of one code,
however they change, leave every type alone that does not meet the code; and neither the order of
declarations of different codes nor their split into groups matters, but for the order of relation
ends.
-/
import TypeAtlas.Proofs.Counterparts
import TypeAtlas.Proofs.Members

namespace TypeAtlas

namespace Merge

/-! ## The type of a code -/

/-- The type that declarations make of a code, apart from its position. -/
def typeOf? (ds : List Declaration) (code : String) : Option Merged :=
  (type? 0 code (ds.filter fun d => d.code == code)).map Prod.fst

theorem map_fst_type? (id : TypeId) (code : String) (ds : List Declaration) :
    (type? id code ds).map Prod.fst = ((type? 0 code ds).map Prod.fst).map fun m => { m with id } := by
  unfold type?
  cases ds.getLast? <;> rfl

theorem typeOf?_code {ds : List Declaration} {code : String} {m : Merged}
    (h : typeOf? ds code = some m) : m.code = code := by
  obtain ⟨⟨m', findings⟩, hm, rfl⟩ := Option.map_eq_some_iff.1 h
  exact (type?_eq_some hm).2.1

theorem typeOf?_isSome_iff {ds : List Declaration} {code : String} :
    (typeOf? ds code).isSome ↔ code ∈ codes ds := by
  unfold typeOf?
  rw [Option.isSome_map]
  refine ⟨fun h => ?_, fun h => type?_isSome h 0⟩
  unfold type? at h
  rw [Option.isSome_map, List.getLast?_isSome] at h
  obtain ⟨d, hd⟩ := List.exists_mem_of_ne_nil _ h
  obtain ⟨hmem, hcode⟩ := List.mem_filter.1 hd
  exact mem_codes.2 ⟨d, hmem, by simpa using hcode⟩

theorem getElem?_types (groups : List Group) (i : Nat) :
    (types groups)[i]? = ((codes (declarations groups))[i]?.bind
      (typeOf? (declarations groups))).map fun m => { m with id := i } := by
  unfold types
  rw [List.getElem?_map, all_getElem?]
  cases (codes (declarations groups))[i]? with
  | none => rfl
  | some code => exact map_fst_type? i code _

/-- A code has its type at some position. -/
theorem exists_getElem?_types {groups : List Group} {code : String} {m : Merged}
    (h : typeOf? (declarations groups) code = some m) :
    ∃ i : Nat, (types groups)[i]? = some { m with id := i } := by
  obtain ⟨i, hi⟩ := List.mem_iff_getElem?.1 (typeOf?_isSome_iff.1 (by rw [h]; rfl))
  exact ⟨i, by rw [getElem?_types, hi]; simp [h]⟩

theorem eq_typeOf?_of_types {groups : List Group} {i : Nat} {m : Merged}
    (h : (types groups)[i]? = some m) :
    ∃ m₀, typeOf? (declarations groups) m.code = some m₀ ∧ m = { m₀ with id := i } := by
  rw [getElem?_types] at h
  obtain ⟨m₀, hm₀, rfl⟩ := Option.map_eq_some_iff.1 h
  obtain ⟨code, -, hcode⟩ := Option.bind_eq_some_iff.1 hm₀
  exact ⟨m₀, by rw [typeOf?_code hcode]; exact hcode, rfl⟩

theorem typeOf?_id {ds : List Declaration} {code : String} {m : Merged}
    (h : typeOf? ds code = some m) : m.id = 0 := by
  obtain ⟨⟨m', findings⟩, hm, rfl⟩ := Option.map_eq_some_iff.1 h
  exact (type?_eq_some hm).1

/-- Apart from positions, the types are those of the declared codes, in their order. -/
theorem map_types (groups : List Group) :
    ((types groups).map fun m => { m with id := 0 }) =
      (codes (declarations groups)).filterMap (typeOf? (declarations groups)) := by
  refine List.ext_getElem? fun i => ?_
  rw [getElem?_filterMap_of_isSome fun code hcode => typeOf?_isSome_iff.2 hcode,
    List.getElem?_map, getElem?_types, Option.map_map]
  cases hm : (codes (declarations groups))[i]?.bind (typeOf? (declarations groups)) with
  | none => rfl
  | some m =>
    obtain ⟨code, -, hcode⟩ := Option.bind_eq_some_iff.1 hm
    simp [← typeOf?_id hcode]

/-- The ends that the relation with a code gives an owner; none if the code is no relation's. -/
def endsBy (ds : List Declaration) (owner code : String) : List RelationEnd :=
  (typeOf? ds code).toList.flatMap fun r => r.endsFrom owner

/-- The ends that an owner reaches come from the relations in the order of their codes. -/
theorem flatMap_endsFrom (groups : List Group) (owner : String) :
    ((types groups).flatMap fun r => r.endsFrom owner) =
      (codes (declarations groups)).flatMap (endsBy (declarations groups) owner) := by
  have hmap : ((types groups).flatMap fun r => r.endsFrom owner) =
      ((types groups).map fun m => { m with id := 0 }).flatMap fun r => r.endsFrom owner := by
    rw [List.flatMap_map]
    rfl
  rw [hmap, map_types, List.filterMap_eq_flatMap_toList, List.flatMap_assoc]
  rfl

theorem relation_of_mem_endsBy {ds : List Declaration} {owner code : String} {e : RelationEnd}
    (h : e ∈ endsBy ds owner code) : e.relation = code := by
  obtain ⟨r, hr, he⟩ := List.mem_flatMap.1 h
  rw [← typeOf?_code (Option.mem_toList.1 hr)]
  unfold Merged.endsFrom at he
  split at he
  · rcases List.mem_append.1 he with he | he
    all_goals
      split at he
      · rw [List.mem_singleton.1 he]
      · cases he
  · cases he

theorem sameOn_types {P : String → Prop} {groups groups' : List Group}
    (htype : ∀ code, P code →
      typeOf? (declarations groups) code = typeOf? (declarations groups') code)
    (hup : ∀ {i : TypeId} {m : Merged} {own : ItemData} {link : Extends},
      (types groups)[i]? = some m → P m.code → m.data = .item own → own.parent = some link →
        P link.code) : SameOn P (types groups) (types groups') := by
  refine ⟨Model.wf_types groups, Model.wf_types groups', nodup_types_code groups,
    nodup_types_code groups', fun hm hp => ?_, fun hm hp => ?_, hup⟩
  · obtain ⟨m₀, hm₀, rfl⟩ := eq_typeOf?_of_types hm
    obtain ⟨i', hi'⟩ := exists_getElem?_types ((htype _ hp).symm.trans hm₀)
    exact ⟨i', hi'⟩
  · obtain ⟨m₀, hm₀, rfl⟩ := eq_typeOf?_of_types hm
    obtain ⟨i', hi'⟩ := exists_getElem?_types ((htype _ hp).trans hm₀)
    exact ⟨i', hi'⟩

end Merge

namespace Model

open Resolve

/-! ## The same type in two models -/

/-- The code of a position of a model. -/
def codeAt (m : Model) (id : TypeId) : Option String := (m.node? id).map fun n => n.code

/-- A type that is the same in two models but for positions; `R` relates the relation ends of an
item type. -/
structure SameType (R : List RelationEnd → List RelationEnd → Prop) (m m' : Model) (n n' : Node) :
    Prop where
  merged : { n.toMerged with id := n'.id } = n'.toMerged
  hierarchy : n.kind = .item → ∃ h h', n.hierarchy = some h ∧ n'.hierarchy = some h' ∧
    h.Matches R m.codeAt m'.codeAt h'

theorem codeAt_build (groups : List Group) (config : Config) (generation revision : Nat) :
    (build groups config none generation revision).codeAt = TypeAtlas.codeAt (Merge.types groups) := by
  funext id
  unfold codeAt TypeAtlas.codeAt
  rw [← map_toMerged_build groups config generation revision none, List.getElem?_map,
    Option.map_map]
  rfl

/-- Where the merged types of two collections of groups say the same, so do the models built from
scratch. -/
theorem exists_sameType {P : String → Prop} {R : List RelationEnd → List RelationEnd → Prop}
    (happend : ∀ {k k' l l'}, R k k' → R l l' → R (k ++ l) (k' ++ l')) {groups groups' : List Group}
    (hs : SameOn P (Merge.types groups) (Merge.types groups'))
    (hends : ∀ code, P code → R ((Merge.types groups).flatMap fun r => r.endsFrom code)
      ((Merge.types groups').flatMap fun r => r.endsFrom code))
    {config config' : Config} {generation generation' revision revision' : Nat} {n : Node}
    (hn : n ∈ (build groups config none generation revision).nodes) (hp : P n.code) :
    ∃ n', (build groups' config' none generation' revision').find? n.code = some n' ∧
      SameType R (build groups config none generation revision)
        (build groups' config' none generation' revision') n n' := by
  have hmerged := map_toMerged_build groups' config' generation' revision' none
  obtain ⟨i, hi⟩ := List.mem_iff_getElem?.1 hn
  have hget := toMerged_of_node? (map_toMerged_build groups config generation revision none) hi
  obtain ⟨i', hget'⟩ := hs.there hget hp
  obtain ⟨n', hi', hn'⟩ := exists_node? hmerged hget'
  have hid : n'.id = i' := by rw [hn']
  have hcode : n'.code = n.code := by rw [hn']
  have hfind := find?_of_node? hmerged hs.codes' hi'
  refine ⟨n', by rw [← hcode]; exact hfind, by rw [hn'], fun hitem => ?_⟩
  have hitem' : n'.kind = .item := by
    have hkind : n'.kind = n.kind := by rw [hn']; rfl
    rw [hkind, hitem]
  obtain ⟨h, hh⟩ := Option.isSome_iff_exists.1 ((hierarchy_isSome_iff hi).2 hitem)
  obtain ⟨h', hh'⟩ := Option.isSome_iff_exists.1 ((hierarchy_isSome_iff hi').2 hitem')
  refine ⟨h, h', hh, hh', ?_⟩
  rw [codeAt_build, codeAt_build]
  exact (computed_of_node? hi hh).matches happend hs hends ⟨n.toMerged, hget, hget', hp⟩
    (computed_of_node? hi' hh')

/-! ## Isolation -/

/-- The type with code `a` is an item type that declares the parent code `b`, known or not. -/
def DeclaresParent (m : Model) (a b : String) : Prop :=
  ∃ n ∈ m.nodes, n.code = a ∧ ∃ own link, n.data = .item own ∧ own.parent = some link ∧
    link.code = b

/-- `b` is `a` or is met from there by following declared parent codes, known or not. -/
def Meets (m : Model) : String → String → Prop := Relation.ReflTransGen m.DeclaresParent

end Model

/-- The same relation ends in the same order once those of the relation `x` are left out. -/
def SameEndsBut (x : String) (k l : List RelationEnd) : Prop :=
  (k.filter fun e => e.relation != x) = l.filter fun e => e.relation != x

theorem SameEndsBut.append {x : String} {k k' l l' : List RelationEnd} (h : SameEndsBut x k k')
    (h' : SameEndsBut x l l') : SameEndsBut x (k ++ l) (k' ++ l') := by
  unfold SameEndsBut at *
  rw [List.filter_append, List.filter_append, h, h']

namespace Merge

section Without

variable {x : String} {ds ds' : List Declaration}
  (hsame : (ds.filter fun d => d.code != x) = ds'.filter fun d => d.code != x)

theorem filter_eraseDups (p : String → Bool) (l : List String) :
    l.eraseDups.filter p = (l.filter p).eraseDups := by
  -- as the recursion goes on with a filtered tail, the induction is on the length
  induction hn : l.length using Nat.strongRecOn generalizing l with
  | ind n ih =>
    cases l with
    | nil => rfl
    | cons a as =>
      have hlen : (as.filter fun b => !b == a).length < n := by
        have := List.length_filter_le (fun b => !b == a) as
        rw [← hn, List.length_cons]; omega
      rw [List.eraseDups_cons, List.filter_cons, List.filter_cons, ih _ hlen _ rfl,
        List.filter_filter]
      split
      · rw [List.eraseDups_cons, List.filter_filter]
        simp only [Bool.and_comm]
      · rename_i hp
        refine congrArg List.eraseDups (List.filter_congr fun b _ => ?_)
        by_cases hb : b = a
        · simp [hb, hp]
        · simp [hb]

include hsame

theorem typeOf?_of_ne {code : String} (hne : code ≠ x) : typeOf? ds code = typeOf? ds' code := by
  have hfilter : ∀ ds : List Declaration, (ds.filter fun d => d.code == code) =
      (ds.filter fun d => d.code != x).filter fun d => d.code == code := by
    intro ds
    rw [List.filter_filter]
    refine List.filter_congr fun d _ => ?_
    by_cases hd : d.code = code
    · simp [hd, hne]
    · simp [hd]
  unfold typeOf?
  rw [hfilter ds, hfilter ds', hsame]

theorem codes_filter_ne : (codes ds).filter (· != x) = (codes ds').filter (· != x) := by
  have hmap : ∀ ds : List Declaration, (codes ds).filter (· != x) =
      ((ds.filter fun d => d.code != x).map Declaration.code).eraseDups := by
    intro ds
    unfold codes
    rw [filter_eraseDups, List.filter_map]
    rfl
  rw [hmap ds, hmap ds', hsame]

/-- Relations other than `x` give an owner the same ends in the same order. -/
theorem sameEndsBut_endsBy (owner : String) :
    SameEndsBut x ((codes ds).flatMap (endsBy ds owner)) ((codes ds').flatMap (endsBy ds' owner)) := by
  have hfilter : ∀ ds : List Declaration,
      (((codes ds).flatMap (endsBy ds owner)).filter fun e => e.relation != x) =
        ((codes ds).filter (· != x)).flatMap (endsBy ds owner) := by
    intro ds
    rw [List.filter_flatMap]
    induction codes ds with
    | nil => rfl
    | cons code rest ih =>
      rw [List.flatMap_cons, ih, List.filter_cons]
      by_cases hx : code = x
      · rw [if_neg (by simp [hx]), List.filter_eq_nil_iff.2, List.nil_append]
        intro e he
        simp [relation_of_mem_endsBy he, hx]
      · rw [if_pos (by simpa using hx), List.flatMap_cons, List.filter_eq_self.2]
        intro e he
        simp [relation_of_mem_endsBy he, hx]
  unfold SameEndsBut
  rw [hfilter ds, hfilter ds', codes_filter_ne hsame]
  refine List.flatMap_congr fun code hcode => ?_
  have hne : code ≠ x := by simpa using (List.mem_filter.1 hcode).2
  unfold endsBy
  rw [typeOf?_of_ne hsame hne]

end Without

end Merge

namespace Model

/-- One bad type never disturbs the rest: whatever happens to the declarations of one code, a type
that does not meet the code stays as it is, but for the ends of a relation with that code. -/
theorem exists_sameType_of_not_meets {groups groups' : List Group} {x : String}
    (hsame : ((Merge.declarations groups).filter fun d => d.code != x) =
      (Merge.declarations groups').filter fun d => d.code != x)
    {config config' : Config} {generation generation' revision revision' : Nat} {n : Node}
    (hn : n ∈ (build groups config none generation revision).nodes)
    (hx : ¬(build groups config none generation revision).Meets n.code x) :
    ∃ n', (build groups' config' none generation' revision').find? n.code = some n' ∧
      SameType (SameEndsBut x) (build groups config none generation revision)
        (build groups' config' none generation' revision') n n' := by
  have hs : SameOn (fun code => ¬(build groups config none generation revision).Meets code x)
      (Merge.types groups) (Merge.types groups') := by
    -- a code that does not meet `x` is not `x`, nor is `x` met from the parent it declares
    refine Merge.sameOn_types (fun code hcode => ?_) fun {i m own link} hm hcode hd hlink hmeets => ?_
    · exact Merge.typeOf?_of_ne hsame fun h => hcode (h ▸ .refl)
    · obtain ⟨a, ha, rfl⟩ :=
        exists_node? (map_toMerged_build groups config generation revision none) hm
      exact hcode (.head ⟨a, List.mem_of_getElem? ha, rfl, own, link, hd, hlink, rfl⟩ hmeets)
  refine exists_sameType SameEndsBut.append hs (fun code _ => ?_) hn hx
  rw [Merge.flatMap_endsFrom, Merge.flatMap_endsFrom]
  exact Merge.sameEndsBut_endsBy hsame code

/-- A relation that binds two item types. -/
def sampleRelation (code source target : String) : Declaration where
  code
  body := .relation ⟨source, none, .one, [], none, true, {}, default⟩
    ⟨target, none, .one, [], none, true, {}, default⟩
  properties := .empty
  provenance := ⟨⟨0⟩, default⟩

/-- From a list of codes that contains every parent code declared in it no other code is met. -/
theorem mem_of_meets {m : Model} {codes : List String}
    (hclosed : (m.nodes.all fun n => !codes.contains n.code ||
      (n.data.item?.bind ItemData.parent).all fun link => codes.contains link.code) = true)
    {a b : String} (ha : a ∈ codes) (h : m.Meets a b) : b ∈ codes := by
  induction h with
  | refl => exact ha
  | tail _ hstep ih =>
    obtain ⟨n, hn, rfl, own, link, hown, hlink, rfl⟩ := hstep
    have := List.all_eq_true.1 hclosed n hn
    simpa [hown, TypeData.item?, hlink, ih] using this

/-- The code `X` turns from an item type, declared first, into a relation, declared last: the other
types move up, and `B` reaches an end of `X`, but nothing else of it changes. -/
theorem exists_sameType_of_not_meets_relation :
    ∃ n n', n ∈ (build [sampleGroup default [("X", some "X", ["x"]), ("A", some "C", ["y"]),
        ("B", some "A", [])]] {} none 1 0).nodes ∧ n.code = "B" ∧ n.id = 2 ∧
      ¬(build [sampleGroup default [("X", some "X", ["x"]), ("A", some "C", ["y"]),
        ("B", some "A", [])]] {} none 1 0).Meets n.code "X" ∧
      (build [sampleGroup default [("A", some "C", ["y"]), ("B", some "A", [])],
        ⟨⟨1⟩, ⟨0⟩, [sampleRelation "X" "A" "B"], []⟩] {} none 1 0).find? n.code = some n' ∧
      SameType (SameEndsBut "X") (build [sampleGroup default [("X", some "X", ["x"]),
          ("A", some "C", ["y"]), ("B", some "A", [])]] {} none 1 0)
        (build [sampleGroup default [("A", some "C", ["y"]), ("B", some "A", [])],
          ⟨⟨1⟩, ⟨0⟩, [sampleRelation "X" "A" "B"], []⟩] {} none 1 0) n n' ∧
      n'.id = 1 ∧ n'.hierarchy.map (fun h => (h.ownEnds.length, h.ends.length)) = some (1, 2) := by
  have hsame : ((Merge.declarations [sampleGroup default [("X", some "X", ["x"]),
        ("A", some "C", ["y"]), ("B", some "A", [])]]).filter fun d => d.code != "X") =
      (Merge.declarations [sampleGroup default [("A", some "C", ["y"]), ("B", some "A", [])],
        ⟨⟨1⟩, ⟨0⟩, [sampleRelation "X" "A" "B"], []⟩]).filter fun d => d.code != "X" := rfl
  have hn : _ ∈ (build [sampleGroup default [("X", some "X", ["x"]), ("A", some "C", ["y"]),
    ("B", some "A", [])]] {} none 1 0).nodes :=
      List.mem_cons_of_mem _ (List.mem_cons_of_mem _ List.mem_cons_self)
  have hx : ¬(build [sampleGroup default [("X", some "X", ["x"]), ("A", some "C", ["y"]),
      ("B", some "A", [])]] {} none 1 0).Meets "B" "X" := fun h => by
    have hmem : "X" ∈ ["B", "A", "C"] := mem_of_meets (by decide) (by decide) h
    simp at hmem
  obtain ⟨n', hfind, h⟩ : ∃ n', (build [sampleGroup default [("A", some "C", ["y"]),
      ("B", some "A", [])], ⟨⟨1⟩, ⟨0⟩, [sampleRelation "X" "A" "B"], []⟩] {} none 1 0).find? _ =
        some n' ∧ SameType _ _ _ _ n' := exists_sameType_of_not_meets hsame hn hx
  refine ⟨_, n', hn, rfl, rfl, hx, hfind, h, ?_⟩
  cases hfind
  exact ⟨rfl, rfl⟩

/-! ## Regrouping -/

/-- The model does not depend on how declarations of different codes are ordered or split over
groups: where each code has the same declarations in the same order, the same codes have the same
types, with relation ends in some order. -/
theorem sameTypes_of_regrouped {groups groups' : List Group}
    (hsame : ∀ code, ((Merge.declarations groups).filter fun d => d.code == code) =
      (Merge.declarations groups').filter fun d => d.code == code)
    (config config' : Config) (generation generation' revision revision' : Nat) :
    ((build groups config none generation revision).nodes.map fun n => n.code).Perm
        ((build groups' config' none generation' revision').nodes.map fun n => n.code) ∧
      ∀ n ∈ (build groups config none generation revision).nodes,
        ∃ n', (build groups' config' none generation' revision').find? n.code = some n' ∧
          SameType List.Perm (build groups config none generation revision)
            (build groups' config' none generation' revision') n n' := by
  have htype : ∀ code, Merge.typeOf? (Merge.declarations groups) code =
      Merge.typeOf? (Merge.declarations groups') code := by
    intro code
    unfold Merge.typeOf?
    rw [hsame code]
  have hcodes : (Merge.codes (Merge.declarations groups)).Perm
      (Merge.codes (Merge.declarations groups')) := by
    refine (List.perm_ext_iff_of_nodup (Merge.nodup_codes _) (Merge.nodup_codes _)).2 fun code => ?_
    rw [← Merge.typeOf?_isSome_iff, ← Merge.typeOf?_isSome_iff, htype code]
  have hs : SameOn (fun _ => True) (Merge.types groups) (Merge.types groups') :=
    Merge.sameOn_types (fun code _ => htype code) fun _ _ _ _ => trivial
  refine ⟨?_, fun n hn => exists_sameType List.Perm.append hs (fun code _ => ?_) hn trivial⟩
  · have hmap : ∀ (groups : List Group) (config : Config) (generation revision : Nat),
        ((build groups config none generation revision).nodes.map fun n => n.code) =
          Merge.codes (Merge.declarations groups) := by
      intro groups config generation revision
      rw [← Merge.map_code_types, ← map_toMerged_build groups config generation revision none,
        List.map_map]
      rfl
    rw [hmap, hmap]
    exact hcodes
  · rw [Merge.flatMap_endsFrom, Merge.flatMap_endsFrom]
    have hends : Merge.endsBy (Merge.declarations groups) code =
        Merge.endsBy (Merge.declarations groups') code := by
      funext relation
      unfold Merge.endsBy
      rw [htype relation]
    rw [hends]
    exact hcodes.flatMap_right _

/-- The types of a cycle come apart, the type below them comes first and its relations swap: it gets
another position and its ends another order, and stays the same otherwise. -/
theorem sameTypes_of_regrouped_cycle :
    ∃ n n', n ∈ (build [sampleGroup default [("A", some "B", ["x"]), ("B", some "A", []),
        ("C", some "A", ["y"])], ⟨⟨1⟩, ⟨0⟩, [sampleRelation "R" "C" "A", sampleRelation "S" "C" "B"],
          []⟩] {} none 1 0).nodes ∧ n.code = "C" ∧ n.id = 2 ∧
      n.hierarchy.map (fun h => h.ownEnds.map RelationEnd.relation) = some ["R", "S"] ∧
      (build [⟨⟨1⟩, ⟨0⟩, [sampleRelation "S" "C" "B"], []⟩,
        sampleGroup default [("C", some "A", ["y"]), ("B", some "A", [])],
        ⟨⟨2⟩, ⟨0⟩, [sampleRelation "R" "C" "A"], []⟩,
        sampleGroup default [("A", some "B", ["x"])]] {} none 1 0).find? n.code = some n' ∧
      SameType List.Perm (build [sampleGroup default [("A", some "B", ["x"]), ("B", some "A", []),
          ("C", some "A", ["y"])],
          ⟨⟨1⟩, ⟨0⟩, [sampleRelation "R" "C" "A", sampleRelation "S" "C" "B"], []⟩] {} none 1 0)
        (build [⟨⟨1⟩, ⟨0⟩, [sampleRelation "S" "C" "B"], []⟩,
          sampleGroup default [("C", some "A", ["y"]), ("B", some "A", [])],
          ⟨⟨2⟩, ⟨0⟩, [sampleRelation "R" "C" "A"], []⟩,
          sampleGroup default [("A", some "B", ["x"])]] {} none 1 0) n n' ∧ n'.id = 1 ∧
      n'.hierarchy.map (fun h => h.ownEnds.map RelationEnd.relation) = some ["S", "R"] := by
  have hsame : ∀ code, ((Merge.declarations [sampleGroup default [("A", some "B", ["x"]),
      ("B", some "A", []), ("C", some "A", ["y"])], ⟨⟨1⟩, ⟨0⟩, [sampleRelation "R" "C" "A",
        sampleRelation "S" "C" "B"], []⟩]).filter fun d => d.code == code) =
      (Merge.declarations [⟨⟨1⟩, ⟨0⟩, [sampleRelation "S" "C" "B"], []⟩,
        sampleGroup default [("C", some "A", ["y"]), ("B", some "A", [])],
        ⟨⟨2⟩, ⟨0⟩, [sampleRelation "R" "C" "A"], []⟩,
        sampleGroup default [("A", some "B", ["x"])]]).filter fun d => d.code == code := by
    intro code
    by_cases hcode : code ∈ ["A", "B", "C", "R", "S"]
    · simp only [List.mem_cons, List.not_mem_nil, or_false] at hcode
      obtain rfl | rfl | rfl | rfl | rfl := hcode <;> rfl
    · simp only [List.mem_cons, not_or] at hcode
      obtain ⟨hA, hB, hC, hR, hS, -⟩ := hcode
      simp [Merge.declarations, sampleGroup, sampleRelation, Ne.symm hA, Ne.symm hB, Ne.symm hC,
        Ne.symm hR, Ne.symm hS]
  obtain ⟨-, hall⟩ := sameTypes_of_regrouped hsame {} {} 1 1 0 0
  have hn : _ ∈ (build [sampleGroup default [("A", some "B", ["x"]), ("B", some "A", []),
      ("C", some "A", ["y"])], ⟨⟨1⟩, ⟨0⟩, [sampleRelation "R" "C" "A", sampleRelation "S" "C" "B"],
        []⟩] {} none 1 0).nodes :=
    List.mem_cons_of_mem _ (List.mem_cons_of_mem _ List.mem_cons_self)
  obtain ⟨n', hfind, h⟩ := hall _ hn
  refine ⟨_, n', hn, rfl, rfl, rfl, hfind, h, ?_⟩
  cases hfind
  exact ⟨rfl, rfl⟩

end Model

end TypeAtlas
