/-
A build with everything that could stop it. The steps of a build are taken one by one, on tables that
are read and written by position: a position may be outside its table, a modulus may be zero, a
search may take more steps than it is given, and the token may have fired. Ids of types are kept in
32 bits.

A part of a build that ends without a fault is a number of looks followed by its result. The looks of
a loop are counted by a number that its steps move: one look for each multiple of the interval that
is passed (`Ticks`). `TypeAtlas.Proofs.Safety` shows that there is no fault.
-/
import TypeAtlas.Model.Basic

namespace TypeAtlas

/-- What can stop a build. -/
inductive Fault where
  | stopped (e : Model.BuildError)
  /-- A position outside its table. -/
  | outOfRange (position : Nat)
  | zeroModulus
  /-- A search that takes more steps than it was given. -/
  | outOfSteps
deriving DecidableEq

/-- A part of a build: it may look at the token, counts the looks, and may be stopped. -/
abbrev Guarded := ReaderT Model.Token (StateT Nat (Except Fault))

namespace Guarded

/-- Takes the parts of a build under a token that was not looked at before. -/
def run {α : Type} (x : Guarded α) (token : Model.Token) : Except Fault α :=
  (x token 0).map Prod.fst

/-- Looks at the token and goes on unless it has fired. -/
def look : Guarded Unit := fun token looks =>
  if token.firesWithin (looks + 1) then .error (.stopped .superseded) else .ok ((), looks + 1)

/-! ## Tables -/

section Tables

variable {α : Type}

/-- The entry at a position. -/
def read (table : List α) (i : Nat) : Except Fault α :=
  match table[i]? with
  | some a => .ok a
  | none => .error (.outOfRange i)

/-- The table with another entry at a position. -/
def write (table : List α) (i : Nat) (a : α) : Except Fault (List α) :=
  if i < table.length then .ok (table.set i a) else .error (.outOfRange i)

/-- The table with one more value in the list at a position. -/
def push (table : List (List α)) (i : Nat) (a : α) : Except Fault (List (List α)) := do
  write table i ((← read table i) ++ [a])

end Tables

/-- The remainder of a division. -/
def remainder (n d : Nat) : Except Fault Nat :=
  if d = 0 then .error .zeroModulus else .ok (n % d)

/-- A position as the id of a type, in 32 bits. -/
def narrow (n : Nat) : TypeId := n % UInt32.size

/-- Looks at the token if a number of steps is a multiple of the interval. -/
def lookAt (interval n : Nat) : Guarded Unit := do
  if (← remainder n interval) = 0 then look

/-! ## Merging -/

/-- The types merged so far, the ids of their codes, and the findings. -/
structure Arena where
  types : List Merged := []
  byCode : Dict TypeId := .empty
  findings : List Diagnostic := []

/-- Merges the declarations of one more code. -/
def mergeCode (interval : Nat) (ds : List Declaration) (a : Arena) (code : String) :
    Guarded Arena := do
  lookAt interval a.types.length
  let id := narrow a.types.length
  match Merge.type? id code (ds.filter fun d => d.code == code) with
  | some (m, findings) =>
    return ⟨a.types ++ [m], a.byCode.insert code id, a.findings ++ findings⟩
  | none => return a

/-- Merges declarations, code by code. -/
def mergeAll (interval : Nat) (ds : List Declaration) : Guarded Arena :=
  (Merge.codes ds).foldlM (mergeCode interval ds) {}

/-! ## Linking -/

/-- The parent links of types, both ways. -/
@[ext]
structure Links where
  parents : List Parent
  children : ChildTable

section Linking

variable (types : List Merged) (byCode : Dict TypeId)

/-- Links a type to the parent that it declares. -/
def link (l : Links) (m : Merged) : Except Fault Links := do
  match m.data.item?.bind ItemData.parent with
  | none => return l
  | some parent =>
    match byCode.get? parent.code with
    | some p =>
      if (← read types p).isItem then
        let parents ← write l.parents m.id (.item p)
        let children ← push l.children p m.id
        return ⟨parents, children⟩
      else return ⟨← write l.parents m.id (.missing parent.code), l.children⟩
    | none => return ⟨← write l.parents m.id (.missing parent.code), l.children⟩

/-- Links every type to its parent. -/
def links : Except Fault Links :=
  types.foldlM (link types byCode) ⟨types.map fun _ => .none, types.map fun _ => []⟩

/-- Gives a relation end to the item type that the opposite end is bound to. -/
def attach (bound : String) (e : RelationEnd) (ends : List (List RelationEnd)) :
    Except Fault (List (List RelationEnd)) := do
  match byCode.get? bound with
  | some owner => if (← read types owner).isItem then push ends owner e else return ends
  | none => return ends

/-- Gives both ends of a relation to their owners. -/
def attachEnds (ends : List (List RelationEnd)) (m : Merged) :
    Except Fault (List (List RelationEnd)) := do
  match m.data with
  | .relation source target =>
    let ends ← attach types byCode source.typeCode
      { target with relation := m.code, side := .target, owner := source.typeCode } ends
    attach types byCode target.typeCode
      { source with relation := m.code, side := .source, owner := target.typeCode } ends
  | _ => return ends

/-- The relation ends that every type reaches by relations of its own. -/
def relationEnds : Except Fault (List (List RelationEnd)) :=
  types.foldlM (attachEnds types byCode) (types.map fun _ => [])

end Linking

/-! ## Choosing what to keep -/

/-- Whether an item type differs from what it was. -/
def changed (o : Outline) (old : List Node) (m : Merged) : Except Fault Bool := do
  match old[m.id]? with
  | some n =>
    if n.toMerged.sameContent m then
      match n.hierarchy with
      | some h => return h.ownEnds != (← read o.ownEnds m.id)
      | none => return true
    else return true
  | none => return true

/-- Adds the id of a type that is a changed item type. -/
def addChanged (o : Outline) (old : List Node) (ids : List TypeId) (m : Merged) :
    Except Fault (List TypeId) := do
  if m.isItem then
    if ← changed o old m then return ids ++ [m.id] else return ids
  else return ids

/-- The item types that differ from what they were. -/
def changedItems (o : Outline) (old : List Node) : Except Fault (List TypeId) :=
  o.types.foldlM (addChanged o old) []

/-- Everything on a stack and below it. -/
def visit (children : ChildTable) : Nat → List TypeId → List TypeId → Except Fault (List TypeId)
  | _, [], seen => .ok seen
  | 0, _ :: _, _ => .error .outOfSteps
  | fuel + 1, id :: stack, seen =>
    if seen.contains id then visit children fuel stack seen
    else do visit children fuel ((← read children id) ++ stack) (seen ++ [id])

/-- The scope of a build, and the hierarchies that it starts from. -/
def choose (o : Outline) (children : ChildTable) (old : Option (List Node)) :
    Except Fault (Scope × HierarchyTable) := do
  match old.filter fun nodes => Resolve.sameCodeTable nodes o.types with
  | some nodes =>
    let changed ← changedItems o nodes
    let affected ← visit children (children.bound changed) changed []
    return (.subtrees changed, Resolve.kept o nodes affected)
  | none => return (.full, o.types.map fun _ => none)

/-! ## Resolving -/

/-- Whether a type is an item type that is not filled in. -/
def needs (o : Outline) (table : HierarchyTable) (id : TypeId) : Except Fault Bool := do
  if (← read o.types id).isItem then return (← read table id).isNone else return false

/-- Follows parents from a type. -/
def climb (o : Outline) (table : HierarchyTable) :
    Nat → List TypeId → TypeId → Except Fault Resolve.Walk
  | 0, _, _ => .error .outOfSteps
  | fuel + 1, path, id => do
    if (← read table id).isSome then return ⟨path, []⟩
    else if path.contains id then
      return ⟨(path.dropWhile (· != id)).drop 1, id :: (path.takeWhile (· != id)).reverse⟩
    else
      match ← read o.parents id with
      | .item p => climb o table fuel (id :: path) p
      | _ => return ⟨id :: path, []⟩

/-- The hierarchy of a type that inherits nothing. -/
def ownOnly (o : Outline) (id : TypeId) (status : Status) (diagnostics : List Diagnostic) :
    Except Fault Hierarchy := do
  let m ← read o.types id
  let ends ← read o.ownEnds id
  let own := m.data.item?.getD {}
  return { status, ancestors := [id], attributes := own.attributes, indexes := own.indexes,
           ownEnds := ends, ends, properties := m.properties, diagnostics }

/-- The hierarchy of a type over its parent's. -/
def extend (o : Outline) (id : TypeId) (m : Merged) (own : ItemData) (parent : Hierarchy) :
    Except Fault Hierarchy := do
  let ends ← read o.ownEnds id
  return { status := parent.status
           ancestors := parent.ancestors ++ [id]
           attributes := parent.attributes.overlay own.attributes
           indexes := parent.indexes.overlay own.indexes
           ownEnds := ends
           ends := parent.ends ++ ends
           properties := parent.properties.overlay m.properties
           diagnostics := Resolve.overrides parent.attributes own.attributes }

/-- The hierarchy of an item type whose parent, if it has one, is filled in. -/
def derive (o : Outline) (table : HierarchyTable) (id : TypeId) (m : Merged) (own : ItemData) :
    Except Fault Hierarchy := do
  match ← read o.parents id with
  | .missing code =>
    ownOnly o id (.incomplete code)
      [.unresolvedParent (Resolve.parentLocation m own) m.code code]
  | .none => ownOnly o id .complete []
  | .item p =>
    match ← read table p with
    | none => ownOnly o id .complete []
    | some parent =>
      if parent.isCycle then ownOnly o id .cycle [] else extend o id m own parent

section Filling

variable (o : Outline) (interval : Nat)

/-- Fills in the entry of a type. -/
def store (p : Resolve.Pass) (id : TypeId) (h : Hierarchy) : Guarded Resolve.Pass := do
  let table ← write p.table id (some h)
  lookAt interval (p.resolved + 1)
  return ⟨table, p.resolved + 1⟩

/-- Fills in a type on a cycle. -/
def markCycle (codes : List String) (p : Resolve.Pass) (id : TypeId) : Guarded Resolve.Pass := do
  let m ← read o.types id
  store interval p id (← ownOnly o id .cycle [.cyclicExtends m.location m.code codes])

/-- Fills in the types of a cycle. -/
def markAll (p : Resolve.Pass) (cycle : List TypeId) : Guarded Resolve.Pass := do
  let types : List Merged ← (cycle.mapM (read o.types) : Except Fault _)
  let codes := types.map Merged.code
  cycle.foldlM (markCycle o interval (codes ++ codes.take 1)) p

/-- Fills in an item type from its parent. -/
def deriveOne (p : Resolve.Pass) (id : TypeId) : Guarded Resolve.Pass := do
  let m ← read o.types id
  match m.data with
  | .item own => store interval p id (← derive o p.table id m own)
  | _ => return p

/-- Fills in an item type, and the types above it, unless it is filled in already. -/
def resolveOne (p : Resolve.Pass) (id : TypeId) : Guarded Resolve.Pass := do
  if ← needs o p.table id then
    let walk ← climb o p.table (o.types.length + 1) [] id
    let p ← markAll o interval p walk.cycle
    walk.leadIn.foldlM (deriveOne o interval) p
  else return p

/-- Fills in every item type, in id order. -/
def fill (start : HierarchyTable) : Guarded Resolve.Pass :=
  ((List.range o.types.length).map narrow).foldlM (resolveOne o interval) ⟨start, 0⟩

end Filling

/-! ## Building -/

/-- Resolves merged types. -/
def resolve (interval : Nat) (types : List Merged) (byCode : Dict TypeId)
    (old : Option (List Node)) : Guarded Resolution := do
  let l ← links types byCode
  let ends ← relationEnds types byCode
  look
  let o : Outline := ⟨types, l.parents, ends⟩
  let (scope, start) ← choose o l.children old
  look
  let p ← fill o interval start
  return { nodes := types.zipWith (fun m h => { m with hierarchy := h }) p.table
           children := l.children
           scope
           resolved := p.resolved }

/-- The model of groups in merge order. -/
def build (groups : List Group) (config : Config) (previous : Option Model)
    (generation revision : Nat) : Guarded Model := do
  let interval := max config.cancelInterval 1
  let a ← mergeAll interval (Merge.declarations groups)
  look
  let old := if config.incremental then previous.map Model.nodes else none
  let r ← resolve interval a.types a.byCode old
  return { generation
           revision
           config
           nodes := r.nodes
           children := r.children
           diagnostics :=
             groups.flatMap Group.diagnostics ++ a.findings ++ Model.structuralFindings r.nodes
           scope := r.scope }

/-! ## Looks -/

/-- Looks at the token so many times. -/
def lookTimes : Nat → Guarded Unit
  | 0 => pure ()
  | n + 1 => do look; lookTimes n

theorem lookTimes_one : lookTimes 1 = look := by
  simp [lookTimes]

theorem lookTimes_add (m n : Nat) :
    (lookTimes m >>= fun _ => lookTimes n) = lookTimes (m + n) := by
  induction m with
  | zero => simp [lookTimes]
  | succ m ih => simp only [lookTimes, Nat.add_right_comm m 1 n, bind_assoc, ih]

theorem lookTimes_apply (token : Model.Token) (n looks : Nat)
    (h : token.firesWithin looks = false) :
    lookTimes n token looks =
      if token.firesWithin (looks + n) then .error (.stopped .superseded)
      else .ok ((), looks + n) := by
  induction n generalizing looks with
  | zero =>
    rw [Nat.add_zero, h]
    rfl
  | succ n ih =>
    have hstep : lookTimes (n + 1) token looks = (look token looks >>= fun r => lookTimes n token r.2) :=
      rfl
    rw [hstep]
    unfold look
    cases hnext : token.firesWithin (looks + 1) with
    | true =>
      -- a token that has fired stays so
      have hlater : token.firesWithin (looks + (n + 1)) = true := by
        obtain ⟨at?⟩ := token
        cases at? with
        | none => cases hnext
        | some k =>
          simp only [Model.Token.firesWithin, Option.any_some, decide_eq_true_eq] at hnext ⊢
          omega
      rw [hlater]
      rfl
    | false =>
      rw [show looks + (n + 1) = looks + 1 + n by omega, ← ih (looks + 1) hnext]
      rfl

theorem firesWithin_zero (token : Model.Token) : token.firesWithin 0 = false := by
  obtain ⟨at?⟩ := token
  cases at? <;> rfl

/-- What comes after looks is not reached if one of them finds the token fired. -/
theorem run_lookTimes_bind {α : Type} (n : Nat) (f : Unit → Guarded α) (token : Model.Token) :
    (lookTimes n >>= f).run token =
      if token.firesWithin n then .error (.stopped .superseded)
      else (f () token n).map Prod.fst := by
  have hrun : (lookTimes n >>= f).run token =
      (lookTimes n token 0 >>= fun r => f r.1 token r.2).map Prod.fst := rfl
  rw [hrun, lookTimes_apply token n 0 (firesWithin_zero token), Nat.zero_add]
  cases token.firesWithin n <;> rfl

/-! ## Steps between looks -/

section Ticks

variable {α β : Type} {interval n n' n'' : Nat}

/-- A part of a build that ends with `a` and looks at the token once for every multiple of the
interval that it passes on its way from `n` to `n'`. -/
structure Ticks (interval n n' : Nat) (x : Guarded α) (a : α) : Prop where
  le : n ≤ n'
  eq : x = lookTimes (n' / interval - n / interval) >>= fun _ => pure a

theorem Ticks.pure (interval n : Nat) (a : α) : Ticks interval n n (Pure.pure a) a :=
  ⟨Nat.le_refl n, by simp [lookTimes]⟩

theorem Ticks.bind {x : Guarded α} {a : α} {f : α → Guarded β} {b : β}
    (h : Ticks interval n n' x a) (h' : Ticks interval n' n'' (f a) b) :
    Ticks interval n n'' (x >>= f) b := by
  refine ⟨Nat.le_trans h.le h'.le, ?_⟩
  have hle := Nat.div_le_div_right (c := interval) h.le
  have hle' := Nat.div_le_div_right (c := interval) h'.le
  rw [h.eq, bind_assoc]
  simp only [pure_bind]
  rw [h'.eq, ← bind_assoc, lookTimes_add]
  congr 2
  omega

theorem Ticks.run_never {x : Guarded α} {a : α} (h : Ticks interval n n' x a) :
    x.run .never = .ok a := by
  rw [h.eq, run_lookTimes_bind]
  rfl

theorem liftM_ok (a : α) : (liftM (Except.ok a : Except Fault α) : Guarded α) = Pure.pure a := rfl

theorem ticks_lookAt (hpos : 0 < interval) (n : Nat) :
    Ticks interval n (n + 1) (lookAt interval (n + 1)) () := by
  refine ⟨Nat.le_succ n, ?_⟩
  have hrem : remainder (n + 1) interval = .ok ((n + 1) % interval) := if_neg (by omega)
  unfold lookAt
  rw [hrem, liftM_ok, pure_bind, Nat.succ_div]
  by_cases h : interval ∣ n + 1
  · rw [if_pos (Nat.mod_eq_zero_of_dvd h), if_pos h, Nat.add_sub_cancel_left, lookTimes_one]
    simp
  · rw [if_neg fun h0 => h (Nat.dvd_of_mod_eq_zero h0), if_neg h, Nat.add_zero, Nat.sub_self]
    simp [lookTimes]

/-- A loop whose steps tick ticks as a whole. -/
theorem ticks_foldlM (count : β → Nat) {P : β → Prop} {step : β → α → β} {act : β → α → Guarded β}
    {l : List α} (h : ∀ a ∈ l, ∀ b, P b →
      P (step b a) ∧ Ticks interval (count b) (count (step b a)) (act b a) (step b a))
    {b : β} (hb : P b) :
    P (l.foldl step b) ∧
      Ticks interval (count b) (count (l.foldl step b)) (l.foldlM act b) (l.foldl step b) := by
  induction l generalizing b with
  | nil => exact ⟨hb, .pure interval _ _⟩
  | cons a l ih =>
    obtain ⟨hstep, hticks⟩ := h a List.mem_cons_self b hb
    obtain ⟨hrest, hticks'⟩ := ih (fun a ha => h a (List.mem_cons_of_mem _ ha)) hstep
    rw [List.foldlM_cons]
    exact ⟨hrest, hticks.bind hticks'⟩

end Ticks

end Guarded

end TypeAtlas
