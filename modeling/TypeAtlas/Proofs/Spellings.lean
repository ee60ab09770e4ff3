/-
Spellings of records. A record may be written as an object, with its fields in any order and unknown
members in between, or as the array of its first fields, and records stand inside records. Main
statement: respelling any record in a nested JSON value, the file record or the settings decoded from
it stay the same, or fail to decode in both spellings.

A respelling is a step on JSON values that follows the shape of the record (`Respells`). It changes
the bindings of a record in one value at most, and there by a respelling of that field's shape
(`agree_bindings?`); decoders look at bindings only, so they agree field by field.
-/
import TypeAtlas.Config
import TypeAtlas.Proofs.Dict
import TypeAtlas.Record.Decode
import Mathlib.Logic.Relation

namespace TypeAtlas.Record

/-! ## Shapes -/

/-- Where records stand in a JSON value. -/
inductive Shape where
  /-- A value without records. -/
  | plain
  | list (item : Shape)
  /-- `null`, or a value of the shape. -/
  | optional (value : Shape)
  /-- A record with the declared names in order, and the shape of each field. -/
  | record (names : List String) (shapeOf : String → Shape)

namespace Shape

def isPlain : Shape → Bool
  | plain => true
  | _ => false

def modifiers : Shape := record modifierFields fun _ => plain

def attributeOf : Shape :=
  record attributeFields fun
    | "modifiers" => modifiers
    | _ => plain

def index : Shape := record indexFields fun _ => plain

def enumValue : Shape := record enumValueFields fun _ => plain

def relationEnd : Shape :=
  record relationEndFields fun
    | "modifiers" => modifiers
    | _ => plain

def declaration : Shape :=
  record declarationFields fun
    | "attributes" => list attributeOf
    | "indexes" => list index
    | "values" => list enumValue
    | "source" => optional relationEnd
    | "target" => optional relationEnd
    | _ => plain

/-- The shape of file records. -/
def file : Shape :=
  record fileFields fun
    | "declarations" => list declaration
    | _ => plain

/-- The shape of settings. -/
def config : Shape := record Config.fields fun _ => plain

end Shape

/-! ## Respellings -/

/-- The members of an object that gives the first declared fields these values. -/
def firstMembers (names : List String) (values : List Json) : List (Option String × Json) :=
  (names.zip values).map fun b => (some b.1, b.2)

/-- One record of a JSON value of some shape is written differently. -/
inductive Respells : Shape → Json → Json → Prop
  /-- The members of an object with distinct names change places. -/
  | reorder {names : List String} {shapeOf : String → Shape} {ms ms' : List (Option String × Json)}
      (hdistinct : (ms.map Prod.fst).Nodup) (hperm : ms.Perm ms') :
    Respells (.record names shapeOf) (.object ms) (.object ms')
  /-- An object gets a member with an unknown name. -/
  | unknown {names : List String} {shapeOf : String → Shape} {ms ms' : List (Option String × Json)}
      {name : String} (value : Json) (hname : name ∉ names) :
    Respells (.record names shapeOf) (.object (ms ++ ms')) (.object (ms ++ (some name, value) :: ms'))
  /-- An object that gives exactly the first fields becomes the array of their values. -/
  | position {names : List String} {shapeOf : String → Shape} {ms : List (Option String × Json)}
      {values : List Json} (hfirst : values.length ≤ names.length)
      (hperm : ms.Perm (firstMembers names values)) :
    Respells (.record names shapeOf) (.object ms) (.array values)
  /-- A field of an object is respelled. -/
  | member {names : List String} {shapeOf : String → Shape} {ms ms' : List (Option String × Json)}
      {name : String} {j j' : Json} (hname : name ∈ names) (h : Respells (shapeOf name) j j') :
    Respells (.record names shapeOf) (.object (ms ++ (some name, j) :: ms'))
      (.object (ms ++ (some name, j') :: ms'))
  /-- A field of an array is respelled. -/
  | item {names : List String} {shapeOf : String → Shape} {xs ys : List Json} {name : String}
      {j j' : Json} (hname : names[xs.length]? = some name) (h : Respells (shapeOf name) j j') :
    Respells (.record names shapeOf) (.array (xs ++ j :: ys)) (.array (xs ++ j' :: ys))
  | listed {shape : Shape} {xs ys : List Json} {j j' : Json} (h : Respells shape j j') :
    Respells (.list shape) (.array (xs ++ j :: ys)) (.array (xs ++ j' :: ys))
  | given {shape : Shape} {j j' : Json} (h : Respells shape j j') : Respells (.optional shape) j j'

/-- One spelling is reached from the other by respelling records, there and back. -/
def Respelled (shape : Shape) : Json → Json → Prop := Relation.EqvGen (Respells shape)

theorem Respells.ne_null {shape : Shape} {j j' : Json} (h : Respells shape j j') :
    j ≠ .null ∧ j' ≠ .null := by
  induction h with
  | given _ ih => exact ih
  | _ => simp

theorem Respells.isPlain_eq_false {shape : Shape} {j j' : Json} (h : Respells shape j j') :
    shape.isPlain = false := by
  cases h <;> rfl

/-! ## Decoders of values -/

/-- A decoder does not depend on the spelling of records. -/
def Respects {α : Type} (shape : Shape) (decode : Json → Option α) : Prop :=
  ∀ j j', Respells shape j j' → decode j = decode j'

section Values

variable {α : Type} {shape : Shape} {decode : Json → Option α}

theorem Respects.list (h : Respects shape decode) : Respects (.list shape) (Json.toList? decode) := by
  intro j j' hj
  cases hj with
  | listed hj => simp only [Json.toList?, List.mapM_append, List.mapM_cons, h _ _ hj]

theorem Respects.optional (h : Respects shape decode) :
    Respects (.optional shape) (Json.toOption? decode) := by
  intro j j' hj
  cases hj with
  | given hj =>
    obtain ⟨hne, hne'⟩ := hj.ne_null
    have hsome : ∀ x : Json, x ≠ .null → Json.toOption? decode x = (decode x).map some := by
      intro x hx
      cases x with
      | null => exact absurd rfl hx
      | _ => rfl
    rw [hsome j hne, hsome j' hne', h j j' hj]

theorem Respects.respelled (h : Respects shape decode) {j j' : Json} (hj : Respelled shape j j') :
    decode j = decode j' := by
  induction hj with
  | rel j j' hj => exact h j j' hj
  | refl j => rfl
  | symm j j' _ ih => exact ih.symm
  | trans j j' j'' _ _ ih ih' => exact ih.trans ih'

end Values

/-! ## Bindings -/

/-- The members with known names. -/
def known (names : List String) (ms : List (Option String × Json)) : Bindings :=
  (ms.filterMap fun m => m.1.map fun name => (name, m.2)).filter fun b => names.contains b.1

theorem mapM_named (ms : List (Option String × Json)) :
    (ms.mapM fun m => m.1.map fun name => (name, m.2)) =
      if ms.all fun m => m.1.isSome then
        some (ms.filterMap fun m => m.1.map fun name => (name, m.2)) else none := by
  induction ms with
  | nil => rfl
  | cons m ms ih =>
    obtain ⟨name, value⟩ := m
    rw [List.mapM_cons, ih]
    cases name with
    | none => rfl
    | some name =>
      cases hall : ms.all fun m => m.1.isSome <;> simp [hall]

/-- In an object every name is a text, and no field is given twice. -/
theorem bindings?_object (names : List String) (ms : List (Option String × Json)) :
    bindings? names (.object ms) =
      if (ms.all fun m => m.1.isSome) ∧ ((known names ms).map Prod.fst).Nodup then
        some (known names ms) else none := by
  simp only [bindings?, mapM_named]
  by_cases hall : (ms.all fun m => m.1.isSome) = true
  · simp only [hall, if_true, true_and]
    rfl
  · simp [hall]

theorem known_append (names : List String) (ms ms' : List (Option String × Json)) :
    known names (ms ++ ms') = known names ms ++ known names ms' := by simp [known]

theorem known_cons_of_mem {names : List String} {name : String} (hname : name ∈ names) (value : Json)
    (ms : List (Option String × Json)) :
    known names ((some name, value) :: ms) = (name, value) :: known names ms := by
  simp [known, hname]

theorem known_cons_of_not_mem {names : List String} {name : String} (hname : name ∉ names)
    (value : Json) (ms : List (Option String × Json)) :
    known names ((some name, value) :: ms) = known names ms := by
  simp [known, hname]

theorem known_firstMembers (names : List String) (values : List Json) :
    known names (firstMembers names values) = names.zip values := by
  have hnamed : ((firstMembers names values).filterMap fun m => m.1.map fun name => (name, m.2)) =
      names.zip values := by
    rw [firstMembers, List.filterMap_map]
    exact List.filterMap_some
  rw [known, hnamed, List.filter_eq_self]
  intro b hb
  simpa using (List.of_mem_zip hb).1

theorem known_perm (names : List String) {ms ms' : List (Option String × Json)} (h : ms.Perm ms') :
    (known names ms).Perm (known names ms') := (h.filterMap _).filter _

/-- Two records give the same fields, each the same value or one respelled. -/
def Agree (names : List String) (shapeOf : String → Shape) (b b' : Bindings) : Prop :=
  ∀ name ∈ names, Option.Rel (fun j j' => j = j' ∨ Respells (shapeOf name) j j') (b.lookup name)
    (b'.lookup name)

section Agree

variable {names : List String} {shapeOf : String → Shape} {b b' : Bindings}

theorem Agree.refl (b : Bindings) : Agree names shapeOf b b := by
  intro name _
  cases b.lookup name with
  | none => exact .none
  | some j => exact .some (.inl rfl)

theorem agree_of_perm (hdistinct : (b.map Prod.fst).Nodup) (h : b.Perm b') :
    Agree names shapeOf b b' := by
  have hdistinct' := (h.map Prod.fst).nodup_iff.1 hdistinct
  have hlookup : ∀ name, b.lookup name = b'.lookup name := by
    intro name
    refine Option.ext fun j => ?_
    rw [Dict.lookup_eq_some_iff_mem hdistinct, Dict.lookup_eq_some_iff_mem hdistinct', h.mem_iff]
  intro name hname
  rw [hlookup name]
  exact Agree.refl b' name hname

/-- One field is respelled. -/
theorem agree_of_respells {before after : Bindings} {name : String} {j j' : Json}
    (h : Respells (shapeOf name) j j') :
    Agree names shapeOf (before ++ (name, j) :: after) (before ++ (name, j') :: after) := by
  intro name' hname'
  rw [List.lookup_append, List.lookup_append, List.lookup_cons, List.lookup_cons]
  cases before.lookup name' with
  | some x => exact .some (.inl rfl)
  | none =>
    by_cases hname : name' = name
    · subst hname
      simpa using Option.Rel.some (.inr h)
    · have hb : (name' == name) = false := beq_false_of_ne hname
      rw [hb]
      exact Agree.refl after name' hname'

/-- A field with records in it is decoded alike. -/
theorem Agree.decoded {α : Type} (h : Agree names shapeOf b b') (name : String)
    (hname : name ∈ names) {decode : Json → Option α} (hdecode : Respects (shapeOf name) decode)
    (absent : α) : b.field name absent decode = b'.field name absent decode := by
  have hrel := h name hname
  unfold Bindings.field
  generalize b.lookup name = x at hrel ⊢
  generalize b'.lookup name = x' at hrel ⊢
  cases hrel with
  | none => rfl
  | some hrel =>
    rcases hrel with rfl | hrel
    · rfl
    · exact hdecode _ _ hrel

/-- A field without records in it is given alike. -/
theorem Agree.lookup (h : Agree names shapeOf b b') {name : String} (hname : name ∈ names)
    (hplain : (shapeOf name).isPlain = true) : b.lookup name = b'.lookup name := by
  have hrel := h name hname
  generalize b.lookup name = x at hrel ⊢
  generalize b'.lookup name = x' at hrel ⊢
  cases hrel with
  | none => rfl
  | some hrel =>
    rcases hrel with rfl | hrel
    · rfl
    · rw [hrel.isPlain_eq_false] at hplain
      cases hplain

end Agree

/-- A respelling keeps the bindings of a record up to a respelling of one field. -/
theorem agree_bindings? {names : List String} {shapeOf : String → Shape} (hnames : names.Nodup)
    {j j' : Json} (h : Respells (.record names shapeOf) j j') :
    Option.Rel (Agree names shapeOf) (bindings? names j) (bindings? names j') := by
  cases h with
  | @reorder _ _ ms ms' _ hperm =>
    have hknown := known_perm names hperm
    have hdistinct := (hknown.map Prod.fst).nodup_iff
    rw [bindings?_object, bindings?_object, hperm.all_eq]
    simp only [hdistinct]
    split
    · rename_i hok
      exact .some (agree_of_perm (hdistinct.2 hok.2) hknown)
    · exact .none
  | @unknown _ _ ms ms' name value hname =>
    rw [bindings?_object, bindings?_object, known_append, known_append,
      known_cons_of_not_mem hname]
    simp only [List.all_append, List.all_cons, Option.isSome_some, Bool.true_and]
    split
    · exact .some (Agree.refl _)
    · exact .none
  | @position _ _ ms values hfirst hperm =>
    have hknown : (known names ms).Perm (names.zip values) := by
      rw [← known_firstMembers]
      exact known_perm names hperm
    have hall : (ms.all fun m => m.1.isSome) = true := by
      rw [hperm.all_eq, firstMembers, List.all_map]
      simp
    have hdistinct : ((known names ms).map Prod.fst).Nodup := by
      rw [(hknown.map Prod.fst).nodup_iff]
      rw [List.zip_eq_zip_take_min, List.map_fst_zip (by simp)]
      exact hnames.sublist (List.take_sublist _ _)
    rw [bindings?_object, if_pos ⟨hall, hdistinct⟩, bindings?, if_pos hfirst]
    exact .some (agree_of_perm hdistinct hknown)
  | @member _ _ ms ms' name j j' hname hj =>
    rw [bindings?_object, bindings?_object, known_append, known_append, known_cons_of_mem hname,
      known_cons_of_mem hname]
    simp only [List.all_append, List.all_cons, List.map_append, List.map_cons]
    split
    · exact .some (agree_of_respells hj)
    · exact .none
  | @item _ _ xs ys name j j' hname hj =>
    obtain ⟨hlt, hget⟩ := List.getElem?_eq_some_iff.1 hname
    have hsplit : names = names.take xs.length ++ name :: names.drop (xs.length + 1) := by
      rw [← hget, ← List.drop_eq_getElem_cons hlt, List.take_append_drop]
    have hzip : ∀ x, names.zip (xs ++ x :: ys) = (names.take xs.length).zip xs ++
        (name, x) :: (names.drop (xs.length + 1)).zip ys := by
      intro x
      conv_lhs => rw [hsplit]
      rw [List.zip_append (by simp; omega), List.zip_cons_cons]
    simp only [bindings?, List.length_append, List.length_cons, hzip]
    split
    · exact .some (agree_of_respells hj)
    · exact .none

/-! ## Decoders of records -/

/-- A decoder that looks at the bindings of a record only, and there at each field through a decoder
that respects its shape, respects the shape of the record. -/
theorem respects_record {α : Type} {names : List String} {shapeOf : String → Shape}
    {read : Bindings → Option α} (hnames : names.Nodup)
    (hread : ∀ b b', Agree names shapeOf b b' → read b = read b') :
    Respects (.record names shapeOf) fun json => bindings? names json >>= read := by
  intro j j' hj
  have hrel := agree_bindings? hnames hj
  simp only
  generalize bindings? names j = x at hrel ⊢
  generalize bindings? names j' = x' at hrel ⊢
  cases hrel with
  | none => rfl
  | some hrel => exact hread _ _ hrel

theorem respects_modifiers : Respects .modifiers decodeModifiers := by
  refine respects_record (by decide) fun b b' h => ?_
  simp (disch := decide) only [Bindings.flag?, Bindings.optional, Bindings.field, h.lookup]

theorem respects_attribute : Respects .attributeOf decodeAttribute := by
  refine respects_record (by decide) fun b b' h => ?_
  rw [h.decoded "modifiers" (by decide) respects_modifiers]
  simp (disch := decide) only [Bindings.text?, Bindings.properties, Bindings.range,
    Bindings.optional, Bindings.field, h.lookup]

theorem respects_index : Respects .index decodeIndex := by
  refine respects_record (by decide) fun b b' h => ?_
  simp (disch := decide) only [Bindings.text?, Bindings.flag?, Bindings.range, Bindings.optional,
    Bindings.field, h.lookup]

theorem respects_enumValue : Respects .enumValue decodeEnumValue := by
  refine respects_record (by decide) fun b b' h => ?_
  simp (disch := decide) only [Bindings.text?, Bindings.range, Bindings.optional, Bindings.field,
    h.lookup]

theorem respects_relationEnd : Respects .relationEnd decodeRelationEnd := by
  refine respects_record (by decide) fun b b' h => ?_
  rw [h.decoded "modifiers" (by decide) respects_modifiers]
  simp (disch := decide) only [Bindings.text?, Bindings.flag?, Bindings.range, Bindings.optional,
    Bindings.field, h.lookup]

theorem respects_declaration : Respects .declaration decodeDeclaration := by
  refine respects_record (by decide) fun b b' h => ?_
  have hsource : b.optional "source" decodeRelationEnd = b'.optional "source" decodeRelationEnd :=
    h.decoded "source" (by decide) respects_relationEnd.optional none
  have htarget : b.optional "target" decodeRelationEnd = b'.optional "target" decodeRelationEnd :=
    h.decoded "target" (by decide) respects_relationEnd.optional none
  rw [h.decoded "attributes" (by decide) respects_attribute.list,
    h.decoded "indexes" (by decide) respects_index.list,
    h.decoded "values" (by decide) respects_enumValue.list, hsource, htarget]
  simp (disch := decide) only [Bindings.text?, Bindings.flag?, Bindings.properties, Bindings.range,
    Bindings.optional, Bindings.field, h.lookup]

theorem respects_file : Respects .file decodeFile := by
  refine respects_record (by decide) fun b b' h => ?_
  rw [h.decoded "declarations" (by decide) respects_declaration.list]
  simp (disch := decide) only [Bindings.field, h.lookup]

theorem respects_config : Respects .config Config.decode := by
  refine respects_record (by decide) fun b b' h => ?_
  simp (disch := decide) only [Bindings.field, h.lookup]

/-- How records are written does not matter: a file record and settings are decoded alike, or not at
all, from two spellings of one nested JSON value. -/
theorem decode_eq_of_respelled :
    (∀ {j j' : Json}, Respelled .file j j' → decodeFile j = decodeFile j') ∧
      ∀ {j j' : Json}, Respelled .config j j' → Config.decode j = Config.decode j' :=
  ⟨respects_file.respelled, respects_config.respelled⟩

/-- A declaration of an item type with one attribute and further members. -/
def sampleDeclaration (attr : Json) (others : List (Option String × Json)) : Json :=
  .object ((some "code", .string "Product") :: (some "attributes", .array [attr]) :: others)

/-- A file record as an array, with one declaration. -/
def sampleFile (declaration : Json) : Json :=
  .array [.string "a", .string "core", .bool true, .array [declaration]]

theorem respells_sampleFile {d d' : Json} (h : Respells .declaration d d') :
    Respells .file (sampleFile d) (sampleFile d') :=
  @Respells.item fileFields _ [.string "a", .string "core", .bool true] [] "declarations" _ _ rfl
    (@Respells.listed .declaration [] [] d d' h)

/-- A file record becomes an array; in the declaration inside, an attribute becomes an array and an
unknown member is added. Settings become an array. -/
theorem decode_eq_of_respelled_nested :
    (∃ j j' : Json,
      j = .object [(some "declarations", .array [sampleDeclaration (.object
          [(some "type_ref", .string "String"), (some "qualifier", .string "name")]) []]),
        (some "custom", .bool true), (some "module", .string "core"), (some "path", .string "a")] ∧
      j' = sampleFile (sampleDeclaration (.array [.string "name", .string "String"])
        [(some "note", .null)]) ∧
      Respelled .file j j' ∧ decodeFile j = decodeFile j' ∧
      decodeFile j' = some
        { path := "a", module := "core", custom := true
          declarations := [{ code := some "Product", attributes :=
            [{ qualifier := some "name", typeRef := some "String" }] }] }) ∧
    ∃ j j' : Json,
      j = .object [(some "incremental", .bool false),
        (some "merge_order", .string "platform_first")] ∧
      j' = .array [.string "platform_first", .bool false] ∧
      Respelled .config j j' ∧ Config.decode j = Config.decode j' ∧
      Config.decode j' = some { mergeOrder := .platformFirst, incremental := false } := by
  have hattribute : Respells .declaration
      (sampleDeclaration (.object
        [(some "type_ref", .string "String"), (some "qualifier", .string "name")]) [])
      (sampleDeclaration (.array [.string "name", .string "String"]) []) :=
    @Respells.member declarationFields _ [(some "code", .string "Product")] [] "attributes" _ _
      (by decide) (@Respells.listed .attributeOf [] [] _ _ (.position (by decide) (.swap _ _ _)))
  have hunknown : Respells .declaration
      (sampleDeclaration (.array [.string "name", .string "String"]) [])
      (sampleDeclaration (.array [.string "name", .string "String"]) [(some "note", .null)]) :=
    @Respells.unknown declarationFields _ [(some "code", .string "Product"),
      (some "attributes", .array [.array [.string "name", .string "String"]])] [] "note" .null
      (by decide)
  have hfile : Respelled .file _ _ :=
    .trans _ _ _ (.rel _ _ (.position (by decide) (List.reverse_perm _)))
      (.trans _ _ _ (.rel _ _ (respells_sampleFile hattribute))
        (.rel _ _ (respells_sampleFile hunknown)))
  have hconfig : Respelled .config _ (.array [.string "platform_first", .bool false]) :=
    .rel _ _ (.position (by decide) (.swap _ _ _))
  exact ⟨⟨_, _, rfl, rfl, hfile, decode_eq_of_respelled.1 hfile, by decide⟩,
    ⟨_, _, rfl, rfl, hconfig, decode_eq_of_respelled.2 hconfig, by decide⟩⟩

/-- An array gives the fields of a declaration, and of the records inside it, in their order. -/
example (read write search optional unique initial isPrivate removable partOf encrypted localized
      dynamic single navigable : Bool)
    (code parent qualifier typeRef handler value name key literal typeCode role order element argument
      result : String) :
    let range := fun start stop => Json.array [.number [start], .number [stop]]
    let flags := [read, write, search, optional, unique, initial, isPrivate, removable, partOf,
      encrypted, localized]
    let modifiers : Modifiers :=
      { read, write, search, optional, unique, initial, isPrivate, removable, partOf
        encrypted, localized }
    let attr : Attribute :=
      { qualifier, typeRef, persistence := some .dynamic, modifiers, handler, defaultValue := value
        properties := [("a", "b")], range := some (0, 1) }
    let source : RelationEnd :=
      { typeCode, qualifier := role, cardinality := some .many, ordering := [order]
        container := some .set, navigable, modifiers, range := some (3, 4) }
    decodeDeclaration (.array [.string "map", .string code, .string parent,
      .array [.array [.string qualifier, .string typeRef, .string "dynamic",
        .array (flags.map .bool), .string handler, .string value,
        .object [(some "a", .string "b")], range '0' '1']],
      .array [.array [.string name, .array [.string key], .bool single, range '1' '2']],
      .array [.array [.string literal, range '2' '3']], .bool dynamic,
      .array [.string typeCode, .string role, .string "many", .array [.string order], .string "set",
        .bool navigable, .array (flags.map .bool), range '3' '4'],
      .array [.string role], .string element, .string "list", .string argument, .string result,
      .object [(some "c", .string "d")], range '4' '5']) =
      some { kind := .map, code, parent, attributes := [attr], dynamic, source
             indexes := [{ name, keys := [key], unique := single, range := some (1, 2) }]
             values := [{ code := literal, range := some (2, 3) }]
             target := some { typeCode := role }, elementType := element, container := some .list
             argumentType := argument, returnType := result, properties := [("c", "d")]
             range := some (4, 5) } := rfl

/-- An array gives the settings in their order. -/
example (incremental : Bool) (marker version key : String) :
    Config.decode (.array [.string "platform_first", .bool incremental, .string marker,
      .string version, .string key, .number ['8'], .number ['5']]) =
      some { mergeOrder := .platformFirst, incremental, catalogAwareMarker := marker
             catalogVersionKey := version, uniqueKeyKey := key, cancelInterval := 8
             maxCompletionDepth := 5 } := rfl

end TypeAtlas.Record
