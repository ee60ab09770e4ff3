/-
Merging and linking stay inside their tables. The types are merged in order of their codes, so the id
of a type is its position as long as positions fit into 32 bits, and the table of codes gives the
position of every code. Each table of links is the list of types under a function of the type, so
what one access does is said by one equation (`read_map`, `write_map`, `push_map`), and the state of
each loop is a function of the types taken so far (`foldlM_taken`). Parents and owners are positions
of declared codes, which is why they are in range.
-/
import TypeAtlas.Proofs.Extends
import TypeAtlas.Proofs.Guarded
import TypeAtlas.Proofs.Merge

namespace TypeAtlas.Guarded

/-! ## Merging -/

/-- The arena with the type of one more code. -/
def mergeStep (ds : List Declaration) (a : Arena) (code : String) : Arena :=
  match Merge.type? (narrow a.types.length) code (ds.filter fun d => d.code == code) with
  | some (m, findings) =>
    ⟨a.types ++ [m], a.byCode.insert code (narrow a.types.length), a.findings ++ findings⟩
  | none => a

/-- Every declared code adds a type. -/
theorem exists_mergeStep {ds : List Declaration} {code : String} (hcode : code ∈ Merge.codes ds)
    (a : Arena) :
    ∃ m findings, Merge.type? (narrow a.types.length) code (ds.filter fun d => d.code == code) =
        some (m, findings) ∧
      mergeStep ds a code = ⟨a.types ++ [m], a.byCode.insert code (narrow a.types.length),
        a.findings ++ findings⟩ := by
  obtain ⟨⟨m, findings⟩, hm⟩ :=
    Option.isSome_iff_exists.1 (Merge.type?_isSome hcode (narrow a.types.length))
  exact ⟨m, findings, hm, by unfold mergeStep; rw [hm]⟩

theorem length_foldl_mergeStep {ds : List Declaration} {codes : List String}
    (hsub : codes ⊆ Merge.codes ds) (a : Arena) :
    (codes.foldl (mergeStep ds) a).types.length = a.types.length + codes.length := by
  induction codes generalizing a with
  | nil => rfl
  | cons code codes ih =>
    obtain ⟨hcode, hsub⟩ := List.cons_subset.1 hsub
    obtain ⟨m, findings, -, hstep⟩ := exists_mergeStep hcode a
    rw [List.foldl_cons, ih hsub, hstep]
    simp only [List.length_append, List.length_cons, List.length_nil]
    omega

theorem lookAt_add_self (interval n : Nat) : lookAt interval (n + interval) = lookAt interval n := by
  unfold lookAt remainder
  rw [Nat.add_mod_right]

/-- The look before the type at position `n` is the one at the multiple `n + interval`. -/
theorem ticks_mergeCode {interval : Nat} (hpos : 0 < interval) {ds : List Declaration}
    {code : String} (hcode : code ∈ Merge.codes ds) (a : Arena) :
    Ticks interval (a.types.length + interval - 1)
      ((mergeStep ds a code).types.length + interval - 1) (mergeCode interval ds a code)
      (mergeStep ds a code) := by
  obtain ⟨m, findings, hm, hstep⟩ := exists_mergeStep hcode a
  have hlook := ticks_lookAt hpos (a.types.length + interval - 1)
  rw [show a.types.length + interval - 1 + 1 = a.types.length + interval by omega,
    lookAt_add_self] at hlook
  have hlength : (mergeStep ds a code).types.length + interval - 1 =
      a.types.length + interval := by
    rw [hstep]
    simp only [List.length_append, List.length_singleton]
    omega
  rw [hlength, hstep]
  refine hlook.bind ?_
  simp only [hm]
  exact .pure _ _ _

/-- What the types of some codes are, by position. -/
def mergedOf (ds : List Declaration) (codes : List String) : List (Merged × List Diagnostic) :=
  codes.zipIdx.filterMap fun (code, id) => Merge.type? id code (ds.filter fun d => d.code == code)

/-- The arena of some codes. -/
structure Holds (ds : List Declaration) (codes : List String) (a : Arena) : Prop where
  types : a.types = (mergedOf ds codes).map Prod.fst
  findings : a.findings = (mergedOf ds codes).flatMap Prod.snd
  codes : a.types.map Merged.code = codes
  byCode : ∀ code, a.byCode.get? code = idOf? a.types code

theorem narrow_of_lt {n : Nat} (h : n < UInt32.size) : narrow n = n := Nat.mod_eq_of_lt h

theorem Holds.mergeStep {ds : List Declaration} {codes : List String} {a : Arena}
    (h : Holds ds codes a) {code : String} (hcode : code ∈ Merge.codes ds) (hnew : code ∉ codes)
    (hlt : codes.length < UInt32.size) : Holds ds (codes ++ [code]) (mergeStep ds a code) := by
  have hlength : a.types.length = codes.length := by rw [← h.codes, List.length_map]
  obtain ⟨m, findings, hm, hstep⟩ := exists_mergeStep hcode a
  rw [hlength, narrow_of_lt hlt] at hm hstep
  obtain ⟨-, hmcode, -⟩ := Merge.type?_eq_some hm
  have hmerged : mergedOf ds (codes ++ [code]) = mergedOf ds codes ++ [(m, findings)] := by
    simp [mergedOf, List.zipIdx_append, hm]
  rw [hstep]
  refine ⟨?_, ?_, ?_, fun c => ?_⟩
  · rw [hmerged, h.types, List.map_append]
    rfl
  · rw [hmerged, h.findings, List.flatMap_append]
    simp
  · rw [List.map_append, h.codes, List.map_singleton, hmcode]
  · have hold := h.byCode c
    unfold idOf? at hold ⊢
    rw [Dict.get?_insert, hold, List.findIdx?_append]
    by_cases hc : c = code
    · subst hc
      have hnone : a.types.findIdx? (fun t => t.code == c) = none := by
        rw [List.findIdx?_eq_none_iff]
        intro t ht
        have hmem : t.code ∈ codes := h.codes ▸ List.mem_map_of_mem ht
        exact beq_false_of_ne fun heq => hnew (heq ▸ hmem)
      simp [hnone, hmcode, hlength]
    · have hne : ¬m.code = c := fun heq => hc (heq ▸ hmcode)
      cases a.types.findIdx? (fun t => t.code == c) <;> simp [hc, hne]

theorem Holds.foldl {ds : List Declaration} (codes done : List String) {a : Arena}
    (h : Holds ds done a) (hsub : codes ⊆ Merge.codes ds) (hnodup : (done ++ codes).Nodup)
    (hlt : (done ++ codes).length < UInt32.size) :
    Holds ds (done ++ codes) (codes.foldl (Guarded.mergeStep ds) a) := by
  induction codes generalizing done a with
  | nil => simpa using h
  | cons code codes ih =>
    obtain ⟨hcode, hsub⟩ := List.cons_subset.1 hsub
    have hnew : code ∉ done := fun hmem =>
      (List.nodup_append.1 hnodup).2.2 code hmem code List.mem_cons_self rfl
    have hlt' : done.length < UInt32.size := by
      rw [List.length_append] at hlt
      omega
    rw [List.append_cons] at hnodup hlt ⊢
    exact ih (done ++ [code]) (h.mergeStep hcode hnew hlt') hsub hnodup hlt

/-- Merging looks at the token at every interval of codes and gives some arena. -/
theorem mergeAll_eq {interval : Nat} (hpos : 0 < interval) (ds : List Declaration) :
    ∃ a : Arena, mergeAll interval ds =
        (lookTimes (((Merge.codes ds).length + interval - 1) / interval) >>= fun _ => pure a) ∧
      ((Merge.codes ds).length < UInt32.size → Holds ds (Merge.codes ds) a) := by
  obtain ⟨-, hticks⟩ := ticks_foldlM (fun a : Arena => a.types.length + interval - 1)
    (P := fun _ => True) (b := {})
    (fun code hcode a _ => ⟨trivial, ticks_mergeCode hpos hcode a⟩) trivial
  have heq := hticks.eq
  rw [length_foldl_mergeStep (List.Subset.refl _)] at heq
  have hzero : (({} : Arena).types.length + interval - 1) / interval = 0 :=
    Nat.div_eq_of_lt (by simp only [List.length_nil]; omega)
  rw [hzero, Nat.sub_zero, List.length_nil, Nat.zero_add] at heq
  refine ⟨_, heq, fun hlt => ?_⟩
  exact Holds.foldl (Merge.codes ds) [] ⟨rfl, rfl, rfl, fun _ => rfl⟩ (List.Subset.refl _)
    (Merge.nodup_codes ds) hlt

/-! ## Tables of types -/

theorem ok_bind {α β : Type} (a : α) (f : α → Except Fault β) : (Except.ok a >>= f) = f a := rfl

/-- A loop whose state is a function of what it has taken so far. -/
theorem foldlM_taken {α β : Type} (act : β → α → Except Fault β) (l : List α) (state : List α → β)
    (h : ∀ taken, ∀ a ∈ l, act (state taken) a = .ok (state (taken ++ [a]))) :
    l.foldlM act (state []) = .ok (state l) := by
  suffices hall : ∀ rest taken, rest ⊆ l →
      rest.foldlM act (state taken) = .ok (state (taken ++ rest)) from
    hall l [] (List.Subset.refl l)
  intro rest
  induction rest with
  | nil =>
    intro taken _
    rw [List.append_nil]
    rfl
  | cons a rest ih =>
    intro taken hsub
    obtain ⟨ha, hsub⟩ := List.cons_subset.1 hsub
    rw [List.foldlM_cons, h taken a ha, ok_bind, ih _ hsub, List.append_cons taken a rest]

theorem read_of_getElem? {α : Type} {table : List α} {i : Nat} {a : α} (h : table[i]? = some a) :
    read table i = .ok a := by
  unfold read
  rw [h]

variable {types : List Merged} {byCode : Dict TypeId}

theorem read_map {α : Type} (f : Merged → α) {p : TypeId} {q : Merged} (hq : types[p]? = some q) :
    read (types.map f) p = .ok (f q) :=
  read_of_getElem? (by rw [List.getElem?_map, hq]; rfl)

/-- Writing at the position of a type changes what the table says about that type. -/
theorem write_map {α : Type} (hw : (Outline.ofTypes types).WF) (f : Merged → α) {p : TypeId}
    {q : Merged} (hq : types[p]? = some q) (a : α) :
    write (types.map f) p a = .ok (types.map fun t => if t.id = p then a else f t) := by
  have hlt : p < types.length := (List.getElem?_eq_some_iff.1 hq).1
  unfold write
  rw [if_pos (by rwa [List.length_map])]
  refine congrArg Except.ok (List.ext_getElem? fun i => ?_)
  rw [List.getElem?_set, List.getElem?_map, List.getElem?_map]
  cases ht : types[i]? with
  | none =>
    have hne : p ≠ i := by
      rintro rfl
      rw [hq] at ht
      cases ht
    rw [if_neg hne]
    rfl
  | some t =>
    have hid : t.id = i := hw.id ht
    by_cases hp : p = i
    · subst hp
      simp [hid, hlt]
    · simp [hid, hp, Ne.symm hp]

theorem push_map {α : Type} (hw : (Outline.ofTypes types).WF) (f : Merged → List α) {p : TypeId}
    {q : Merged} (hq : types[p]? = some q) (a : α) :
    push (types.map f) p a = .ok (types.map fun t => if t.id = p then f t ++ [a] else f t) := by
  unfold push
  rw [read_map f hq, ok_bind, write_map hw f hq]
  refine congrArg Except.ok (List.map_congr_left fun t ht => ?_)
  by_cases hid : t.id = p
  · obtain ⟨i, hi⟩ := List.mem_iff_getElem?.1 ht
    have hti : t.id = i := hw.id hi
    rw [← hti, hid, hq] at hi
    cases hi
    rfl
  · rw [if_neg hid, if_neg hid]

theorem getElem?_id (hw : (Outline.ofTypes types).WF) {m : Merged} (hm : m ∈ types) :
    types[m.id]? = some m := hw.getElem?_id hm

theorem eq_of_id_eq (hw : (Outline.ofTypes types).WF) {m t : Merged} (hm : m ∈ types)
    (ht : t ∈ types) (h : t.id = m.id) : t = m := by
  have hm' := getElem?_id hw hm
  rw [← h, getElem?_id hw ht] at hm'
  exact Option.some.inj hm'

theorem map_id_eq_range (hw : (Outline.ofTypes types).WF) :
    types.map Merged.id = List.range types.length := by
  refine List.ext_getElem? fun i => ?_
  rw [List.getElem?_map]
  cases ht : types[i]? with
  | none =>
    rw [List.getElem?_eq_none (by simpa using List.getElem?_eq_none_iff.1 ht)]
    rfl
  | some t =>
    have hid : t.id = i := hw.id ht
    rw [List.getElem?_range (List.getElem?_eq_some_iff.1 ht).1, Option.map_some, hid]

theorem zipIdx_eq_map (hw : (Outline.ofTypes types).WF) :
    types.zipIdx = types.map fun m => (m, m.id) := by
  refine List.ext_getElem? fun i => ?_
  rw [List.getElem?_zipIdx, List.getElem?_map]
  cases ht : types[i]? with
  | none => rfl
  | some t =>
    have hid : t.id = i := hw.id ht
    rw [Option.map_some, Option.map_some, hid, Nat.zero_add]

/-! ## Linking -/

/-- The links of the types taken so far. -/
def linksOf (types taken : List Merged) : Links where
  parents := types.map fun t => if t.id ∈ taken.map Merged.id then parentIn types t else .none
  children := types.map fun t =>
    (taken.filter fun m => parentIn types m == .item t.id).map Merged.id

/-- What is written into the table of parents. -/
theorem write_parents (hw : (Outline.ofTypes types).WF) {m : Merged} (hm : m ∈ types)
    (taken : List Merged) :
    write (linksOf types taken).parents m.id (parentIn types m) =
      .ok (linksOf types (taken ++ [m])).parents := by
  unfold linksOf
  rw [write_map hw _ (getElem?_id hw hm)]
  refine congrArg Except.ok (List.map_congr_left fun t ht => ?_)
  by_cases hid : t.id = m.id
  · rw [eq_of_id_eq hw hm ht hid]
    simp
  · simp [hid]

theorem children_linksOf_of_ne {m : Merged} (h : ∀ p, parentIn types m ≠ .item p)
    (taken : List Merged) :
    (linksOf types (taken ++ [m])).children = (linksOf types taken).children := by
  refine List.map_congr_left fun t _ => ?_
  simp [h t.id]

theorem link_eq (hw : (Outline.ofTypes types).WF)
    (hby : ∀ code, byCode.get? code = idOf? types code) {m : Merged} (hm : m ∈ types)
    (taken : List Merged) :
    link types byCode (linksOf types taken) m = .ok (linksOf types (taken ++ [m])) := by
  have hwritten := write_parents hw hm taken
  have hmissing : ∀ {code : String}, parentIn types m = .missing code →
      (do return ⟨← write (linksOf types taken).parents m.id (.missing code),
        (linksOf types taken).children⟩) = Except.ok (linksOf types (taken ++ [m])) := by
    intro code hparent
    rw [← hparent, hwritten, ok_bind,
      ← children_linksOf_of_ne (fun p => by rw [hparent]; nofun) taken]
    rfl
  unfold link
  cases hdeclared : m.data.item?.bind ItemData.parent with
  | none =>
    have hparent : parentIn types m = .none := by
      unfold parentIn
      rw [hdeclared]
    have hparents : (linksOf types (taken ++ [m])).parents = (linksOf types taken).parents := by
      refine List.map_congr_left fun t ht => ?_
      by_cases hid : t.id = m.id
      · rw [eq_of_id_eq hw hm ht hid, hparent]
        simp
      · simp [hid]
    have hchildren := children_linksOf_of_ne (fun p => by rw [hparent]; nofun) taken
    exact congrArg Except.ok (Links.ext hparents.symm hchildren.symm)
  | some parent =>
    cases hfound : idOf? types parent.code with
    | none =>
      have hparent : parentIn types m = .missing parent.code := by
        simp [parentIn, hdeclared, hfound]
      simp only [hby, hfound]
      exact hmissing hparent
    | some p =>
      obtain ⟨hlt, -⟩ := List.findIdx?_eq_some_iff_getElem.1 hfound
      have hq : types[p]? = some types[p] := List.getElem?_eq_getElem hlt
      simp only [hby, hfound, read_of_getElem? hq, ok_bind]
      by_cases hitem : types[p].isItem = true
      · have hparent : parentIn types m = .item p := by
          simp [parentIn, hdeclared, hfound, hq, hitem]
        rw [if_pos hitem, ← hparent, hwritten, ok_bind]
        unfold linksOf
        rw [push_map hw _ hq, ok_bind]
        refine congrArg (fun c => Except.ok (Links.mk _ c)) (List.map_congr_left fun t _ => ?_)
        by_cases hid : t.id = p
        · simp [hid, hparent]
        · simp [hid, hparent, Ne.symm hid]
      · have hparent : parentIn types m = .missing parent.code := by
          simp [parentIn, hdeclared, hfound, hq, hitem]
        rw [if_neg hitem]
        exact hmissing hparent

/-- Linking never leaves the tables, and gives the links of the outline. -/
theorem links_eq (hw : (Outline.ofTypes types).WF)
    (hby : ∀ code, byCode.get? code = idOf? types code) :
    links types byCode =
      .ok ⟨(Outline.ofTypes types).parents, (Outline.ofTypes types).children⟩ := by
  have hloop := foldlM_taken (link types byCode) types (linksOf types)
    fun taken m hm => link_eq hw hby hm taken
  have hstart : linksOf types [] = ⟨types.map fun _ => .none, types.map fun _ => []⟩ := by
    simp [linksOf]
  have hparents : (linksOf types types).parents = (Outline.ofTypes types).parents :=
    List.map_congr_left fun t ht => if_pos (List.mem_map_of_mem ht)
  have hchildren : (linksOf types types).children = (Outline.ofTypes types).children := by
    unfold Outline.children
    show _ = (List.range types.length).map fun p =>
      ((types.map (parentIn types)).zipIdx.filter fun row => row.1 == .item p).map Prod.snd
    rw [← map_id_eq_range hw, List.map_map, List.zipIdx_map, zipIdx_eq_map hw]
    refine List.map_congr_left fun t _ => ?_
    simp [List.filter_map, Function.comp_def]
  unfold links
  rw [← hstart, hloop, ← hparents, ← hchildren]

/-! ## Relation ends -/

/-- The ends that the relations taken so far give to a type. -/
def endsGiven (taken : List Merged) (t : Merged) : List RelationEnd :=
  if t.isItem then taken.flatMap fun r => r.endsFrom t.code else []

/-- An end goes to the item type with the code that the opposite end is bound to. -/
theorem attach_eq (hw : (Outline.ofTypes types).WF) (hcodes : (types.map Merged.code).Nodup)
    (hby : ∀ code, byCode.get? code = idOf? types code) (bound : String) (e : RelationEnd)
    (f : Merged → List RelationEnd) :
    attach types byCode bound e (types.map f) =
      .ok (types.map fun t => f t ++ if t.isItem ∧ bound = t.code then [e] else []) := by
  unfold attach
  cases hfound : idOf? types bound with
  | none =>
    simp only [hby, hfound]
    refine congrArg Except.ok (List.map_congr_left fun t ht => ?_)
    have hne : ¬bound = t.code := by
      rintro rfl
      simpa using List.findIdx?_eq_none_iff.1 hfound t ht
    simp [hne]
  | some p =>
    obtain ⟨hlt, hcode, -⟩ := List.findIdx?_eq_some_iff_getElem.1 hfound
    have hcode : types[p].code = bound := by simpa using hcode
    have hq : types[p]? = some types[p] := List.getElem?_eq_getElem hlt
    have hid : types[p].id = p := hw.id hq
    -- only the type at this position has the code
    have honly : ∀ t ∈ types, bound = t.code → t = types[p] := by
      intro t ht hbound
      exact List.inj_on_of_nodup_map hcodes ht (List.getElem_mem hlt) (hbound.symm.trans hcode.symm)
    simp only [hby, hfound, read_of_getElem? hq, ok_bind]
    by_cases hitem : types[p].isItem = true
    · rw [if_pos hitem, push_map hw f hq]
      refine congrArg Except.ok (List.map_congr_left fun t ht => ?_)
      by_cases hbound : bound = t.code
      · rw [honly t ht hbound, if_pos hid, if_pos ⟨hitem, hcode.symm⟩]
      · have hne : ¬t.id = p := by
          intro h
          rw [eq_of_id_eq hw (List.getElem_mem hlt) ht (h.trans hid.symm)] at hbound
          exact hbound hcode.symm
        simp [hne, hbound]
    · rw [if_neg hitem]
      refine congrArg Except.ok (List.map_congr_left fun t ht => ?_)
      have hno : ¬(t.isItem = true ∧ bound = t.code) := by
        rintro ⟨hti, hbound⟩
        rw [honly t ht hbound] at hti
        exact hitem hti
      simp [hno]

theorem attachEnds_eq (hw : (Outline.ofTypes types).WF) (hcodes : (types.map Merged.code).Nodup)
    (hby : ∀ code, byCode.get? code = idOf? types code) (m : Merged) (taken : List Merged) :
    attachEnds types byCode (types.map (endsGiven taken)) m =
      .ok (types.map (endsGiven (taken ++ [m]))) := by
  unfold attachEnds
  cases hdata : m.data with
  | relation source target =>
    simp only [attach_eq hw hcodes hby, ok_bind]
    refine congrArg Except.ok (List.map_congr_left fun t _ => ?_)
    unfold endsGiven
    by_cases hitem : t.isItem = true
    · by_cases hs : source.typeCode = t.code <;> by_cases ht : target.typeCode = t.code <;>
        simp [hitem, hs, ht, Merged.endsFrom, hdata]
    · simp [hitem]
  | _ =>
    refine congrArg Except.ok (List.map_congr_left fun t _ => ?_)
    simp [endsGiven, Merged.endsFrom, hdata]

/-- The owners of relation ends are in the tables, and get the ends of the outline. -/
theorem relationEnds_eq (hw : (Outline.ofTypes types).WF) (hcodes : (types.map Merged.code).Nodup)
    (hby : ∀ code, byCode.get? code = idOf? types code) :
    relationEnds types byCode = .ok (Outline.ofTypes types).ownEnds := by
  have hloop := foldlM_taken (attachEnds types byCode) types
    (fun taken => types.map (endsGiven taken)) fun taken m _ => attachEnds_eq hw hcodes hby m taken
  have hstart : types.map (endsGiven []) = types.map fun _ => [] :=
    List.map_congr_left fun t _ => by simp [endsGiven]
  unfold relationEnds
  rw [← hstart, hloop]
  rfl

end TypeAtlas.Guarded
