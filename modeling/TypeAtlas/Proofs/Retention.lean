/-
What a generation cache answers. Main statement: after any calls a look-up for a key and a generation
gives a value exactly if, among the insertions for the key since its entry was dropped last, no
generation is greater and the value is that of the last insertion with this generation.

A cache holds one entry per key, the history many insertions. What ties the two together is that the
entry is the newest of the insertions (`Holds`); `held?_call` says what one call does to the entry of
a key, and all else is read off it along the calls.
-/
import TypeAtlas.GenerationCache
import TypeAtlas.Proofs.Dict

namespace TypeAtlas.GenerationCache

/-- A call on a cache. -/
inductive Call (β κ : Type) where
  | get (key : κ) (generation : Nat)
  | insert (key : κ) (generation : Nat) (value : β)
  | getOrInsert (key : κ) (generation : Nat) (compute : Unit → β)
  | retain (generation : Nat)
  | clear

variable {β κ : Type} [DecidableEq κ]

/-- The cache after a call. -/
def call (c : GenerationCache β κ) : Call β κ → GenerationCache β κ
  | .get _ _ => c
  | .insert key generation value => c.insert key generation value
  | .getOrInsert key generation compute => (c.getOrInsert key generation compute).2
  | .retain generation => c.retain generation
  | .clear => c.clear

/-- The cache after calls on an empty one. -/
def after (calls : List (Call β κ)) : GenerationCache β κ := calls.foldl call empty

/-! ## Histories -/

/-- What a call inserts for a key. A look-up that may compute inserts if it misses. -/
def Call.inserted? (c : GenerationCache β κ) (key : κ) : Call β κ → Option (Nat × β)
  | .insert k generation value => if k = key then some (generation, value) else none
  | .getOrInsert k generation compute =>
    if k = key ∧ (c.get? k generation).isNone then some (generation, compute ()) else none
  | _ => none

/-- Whether a call drops the entry of a key: clearing does, and so does retaining another generation
than the entry's. -/
def Call.drops (c : GenerationCache β κ) (key : κ) : Call β κ → Bool
  | .retain generation => (c.held? key).any fun e => e.1 != generation
  | .clear => true
  | _ => false

/-- The insertions for a key after one more call. -/
def record (c : GenerationCache β κ) (key : κ) (l : List (Nat × β)) (call : Call β κ) :
    List (Nat × β) :=
  if call.drops c key then [] else l ++ (call.inserted? c key).toList

/-- The insertions for a key after more calls. -/
def recordAll (c : GenerationCache β κ) (key : κ) (l : List (Nat × β)) :
    List (Call β κ) → List (Nat × β)
  | [] => l
  | call :: calls => (c.call call).recordAll key (c.record key l call) calls

/-- The insertions for a key since its entry was dropped last, the latest at the end. -/
def insertions (key : κ) (calls : List (Call β κ)) : List (Nat × β) :=
  recordAll empty key [] calls

/-- No generation among the insertions is greater, and the value is that of the last insertion with
this generation. -/
structure Newest (l : List (Nat × β)) (generation : Nat) (value : β) : Prop where
  greatest : ∀ e ∈ l, e.1 ≤ generation
  last : (l.filter fun e => e.1 == generation).getLast? = some (generation, value)

/-! ## The newest insertion -/

theorem Newest.mem {l : List (Nat × β)} {g : Nat} {v : β} (h : Newest l g v) : (g, v) ∈ l :=
  List.mem_of_mem_filter (List.mem_of_getLast? h.last)

theorem Newest.unique {l : List (Nat × β)} {g g' : Nat} {v v' : β} (h : Newest l g v)
    (h' : Newest l g' v') : (g, v) = (g', v') := by
  have hle : g' ≤ g := h.greatest _ h'.mem
  have hge : g ≤ g' := h'.greatest _ h.mem
  have heq : g = g' := by omega
  subst heq
  exact Option.some.inj (h.last.symm.trans h'.last)

/-- An insertion that no generation before it exceeds is the newest. -/
theorem newest_concat {l : List (Nat × β)} {g : Nat} (v : β) (h : ∀ e ∈ l, e.1 ≤ g) :
    Newest (l ++ [(g, v)]) g v := by
  refine ⟨fun e he => ?_, by simp⟩
  rcases List.mem_append.1 he with he | he
  · exact h e he
  · obtain rfl := List.mem_singleton.1 he
    exact Nat.le_refl g

/-- A late insertion for an older generation changes nothing. -/
theorem Newest.concat_of_lt {l : List (Nat × β)} {g held : Nat} {w : β} (h : Newest l held w)
    (hlt : g < held) (v : β) : Newest (l ++ [(g, v)]) held w := by
  refine ⟨fun e he => ?_, ?_⟩
  · rcases List.mem_append.1 he with he | he
    · exact h.greatest e he
    · rw [List.mem_singleton.1 he]
      exact Nat.le_of_lt hlt
  · have hne : (g == held) = false := beq_false_of_ne (by omega)
    simpa [hne] using h.last

/-! ## One call -/

/-- The entry that an insertion leaves. -/
def newer (held : Option (Nat × β)) (e : Nat × β) : Nat × β :=
  (held.filter fun h => h.1 > e.1).getD e

theorem newer_some (held e : Nat × β) :
    newer (some held) e = if held.1 > e.1 then held else e := by
  unfold newer
  rw [Option.filter_some]
  by_cases h : held.1 > e.1 <;> simp [h]

theorem held?_insert (c : GenerationCache β κ) (k : κ) (g : Nat) (v : β) (key : κ) :
    (c.insert k g v).held? key =
      if k = key then some (newer (c.held? key) (g, v)) else c.held? key := by
  have hset : (c.setEntry k (g, v)).held? key = if key = k then some (g, v) else c.held? key :=
    Dict.lookup_put k (g, v) c.entries key
  unfold insert
  by_cases hk : k = key
  · subst hk
    rw [if_pos rfl] at hset ⊢
    cases hheld : c.held? k with
    | none => exact hset
    | some h =>
      by_cases hlt : h.1 > g
      · simp [newer_some, hlt, hheld]
      · simp [newer_some, hlt, hset]
  · rw [if_neg (Ne.symm hk)] at hset
    rw [if_neg hk]
    cases c.held? k with
    | none => exact hset
    | some h => by_cases hlt : h.1 > g <;> simp [hlt, hset]

theorem held?_retain (c : GenerationCache β κ) (g : Nat) (key : κ) :
    (c.retain g).held? key = (c.held? key).filter fun e => e.1 == g :=
  Dict.lookup_filter c.keys_nodup (fun _ e => e.1 == g) key

/-- A call drops the entry of a key, or adds an insertion to it, or leaves it alone. -/
theorem held?_call (c : GenerationCache β κ) (call : Call β κ) (key : κ) :
    (c.call call).held? key =
      if call.drops c key then none
      else (call.inserted? c key).elim (c.held? key) fun e => some (newer (c.held? key) e) := by
  cases call with
  | get k g => rfl
  | insert k g v =>
    rw [GenerationCache.call, held?_insert]
    by_cases hk : k = key <;> simp [Call.drops, Call.inserted?, hk]
  | getOrInsert k g compute =>
    cases hget : c.get? k g with
    | some w => simp [GenerationCache.call, getOrInsert, Call.drops, Call.inserted?, hget]
    | none =>
      have hcall : c.call (.getOrInsert k g compute) = c.insert k g (compute ()) := by
        simp [GenerationCache.call, getOrInsert, hget]
      rw [hcall, held?_insert]
      by_cases hk : k = key
      · subst hk
        simp [Call.drops, Call.inserted?, hget]
      · simp [Call.drops, Call.inserted?, hk]
  | retain g =>
    rw [GenerationCache.call, held?_retain]
    cases hheld : c.held? key with
    | none => simp [Call.drops, Call.inserted?, hheld]
    | some h => by_cases hg : h.1 = g <;> simp [Call.drops, Call.inserted?, hheld, hg]
  | clear => rfl

/-! ## Whole histories -/

/-- An entry is the newest of the insertions; without an insertion there is no entry. -/
inductive Holds : Option (Nat × β) → List (Nat × β) → Prop
  | absent : Holds none []
  | present {l : List (Nat × β)} {e : Nat × β} (newest : Newest l e.1 e.2) : Holds (some e) l

theorem Holds.concat {held : Option (Nat × β)} {l : List (Nat × β)} (h : Holds held l)
    (e : Nat × β) : Holds (some (newer held e)) (l ++ [e]) := by
  cases h with
  | absent => exact .present (newest_concat e.2 (by simp))
  | @present l held newest =>
    rw [newer_some]
    split <;> rename_i hlt
    · exact .present (newest.concat_of_lt hlt e.2)
    · refine .present (newest_concat e.2 fun x hx => ?_)
      have := newest.greatest x hx
      omega

/-- A call keeps the entry of a key and the insertions for it together. -/
theorem Holds.record {c : GenerationCache β κ} {key : κ} {l : List (Nat × β)}
    (h : Holds (c.held? key) l) (call : Call β κ) :
    Holds ((c.call call).held? key) (c.record key l call) := by
  rw [held?_call]
  unfold GenerationCache.record
  split
  · exact .absent
  · cases call.inserted? c key with
    | none => simpa using h
    | some e => exact h.concat e

theorem Holds.recordAll {c : GenerationCache β κ} {key : κ} {l : List (Nat × β)}
    (h : Holds (c.held? key) l) (calls : List (Call β κ)) :
    Holds ((calls.foldl call c).held? key) (c.recordAll key l calls) := by
  induction calls generalizing c l with
  | nil => exact h
  | cons call calls ih => exact ih (h.record call)

theorem get?_eq_some_iff {c : GenerationCache β κ} {key : κ} {g : Nat} {v : β} :
    c.get? key g = some v ↔ c.held? key = some (g, v) := by
  unfold get?
  cases c.held? key with
  | none => simp
  | some e =>
    obtain ⟨held, w⟩ := e
    by_cases hg : held = g <;> simp [hg]

theorem get?_after_iff (calls : List (Call β κ)) (key : κ) (g : Nat) (v : β) :
    (after calls).get? key g = some v ↔ Newest (insertions key calls) g v := by
  have hholds : Holds ((after calls).held? key) (insertions key calls) :=
    Holds.absent.recordAll (c := empty) calls
  rw [get?_eq_some_iff]
  generalize (after calls).held? key = held, insertions key calls = l at hholds
  cases hholds with
  | absent => exact iff_of_false nofun fun hnew => List.not_mem_nil hnew.mem
  | @present l held newest =>
    constructor
    · rintro ⟨⟩
      exact newest
    · exact fun hnew => congrArg some (newest.unique hnew)

/-- Every insertion on record was made by one of the calls. -/
theorem exists_call_of_mem_recordAll {key : κ} {e : Nat × β} (calls : List (Call β κ)) :
    ∀ {c : GenerationCache β κ} {l : List (Nat × β)}, e ∈ c.recordAll key l calls →
      e ∈ l ∨ ∃ before call later, calls = before ++ call :: later ∧
        call.inserted? (before.foldl GenerationCache.call c) key = some e := by
  induction calls with
  | nil => exact fun he => .inl he
  | cons call calls ih =>
    intro c l he
    rcases ih he with he | ⟨before, call', later, rfl, hins⟩
    · unfold GenerationCache.record at he
      split at he
      · cases he
      · rcases List.mem_append.1 he with he | he
        · exact .inl he
        · exact .inr ⟨[], call, calls, rfl, Option.mem_toList.1 he⟩
    · exact .inr ⟨call :: before, call', later, rfl, hins⟩

/-! ## Entries that live -/

/-- No call drops the entry of a key. -/
def spares (c : GenerationCache β κ) (key : κ) : List (Call β κ) → Bool
  | [] => true
  | call :: calls => !call.drops c key && (c.call call).spares key calls

theorem le_newer (held : Nat × β) (e : Nat × β) : held.1 ≤ (newer (some held) e).1 := by
  rw [newer_some]
  split <;> omega

/-- A call that does not drop an entry keeps it, for no lesser generation. -/
theorem exists_le_of_not_drops {c : GenerationCache β κ} {key : κ} {held : Nat × β}
    (h : c.held? key = some held) {call : Call β κ} (hkeep : call.drops c key = false) :
    ∃ held', (c.call call).held? key = some held' ∧ held.1 ≤ held'.1 := by
  rw [held?_call, hkeep, h]
  cases call.inserted? c key with
  | none => exact ⟨held, rfl, Nat.le_refl _⟩
  | some e => exact ⟨newer (some held) e, rfl, le_newer held e⟩

theorem exists_le_of_spares {key : κ} (calls : List (Call β κ)) :
    ∀ {c : GenerationCache β κ} {held : Nat × β}, c.held? key = some held →
      c.spares key calls = true →
      ∃ held', (calls.foldl GenerationCache.call c).held? key = some held' ∧ held.1 ≤ held'.1 := by
  induction calls with
  | nil => exact fun h _ => ⟨_, h, Nat.le_refl _⟩
  | cons call calls ih =>
    intro c held h hspares
    unfold spares at hspares
    rw [Bool.and_eq_true, Bool.not_eq_true'] at hspares
    obtain ⟨mid, hmid, hle⟩ := exists_le_of_not_drops h hspares.1
    obtain ⟨held', hheld, hle'⟩ := ih hmid hspares.2
    exact ⟨held', hheld, Nat.le_trans hle hle'⟩

/-! ## Answers -/

/-- The answers of a cache are those that its history tells. -/
structure Determined (calls : List (Call β κ)) : Prop where
  hit : ∀ key g v, (after calls).get? key g = some v ↔ Newest (insertions key calls) g v
  /-- A hit was inserted for this key and this generation. -/
  inserted : ∀ key g v, (after calls).get? key g = some v →
    ∃ before call later, calls = before ++ call :: later ∧
      call.inserted? (after before) key = some (g, v)
  /-- While it lives, an entry is never for a lesser generation than before. -/
  rises : ∀ before later key held, calls = before ++ later →
    (after before).held? key = some held → (after before).spares key later = true →
    ∃ held', (after calls).held? key = some held' ∧ held.1 ≤ held'.1
  cached : ∀ key g compute v, (after calls).get? key g = some v →
    (after calls).getOrInsert key g compute = (⟨v, false⟩, after calls)
  computed : ∀ key g compute, (after calls).get? key g = none →
    ((after calls).getOrInsert key g compute).1 = ⟨compute (), true⟩

/-- The answers of a cache are determined by the calls made on it. -/
theorem determined_after (calls : List (Call β κ)) : Determined calls := by
  constructor
  · exact get?_after_iff calls
  · intro key g v h
    have hmem := ((get?_after_iff calls key g v).1 h).mem
    exact (exists_call_of_mem_recordAll calls hmem).resolve_left List.not_mem_nil
  · rintro before later key held rfl hheld hspares
    unfold after
    rw [List.foldl_append]
    exact exists_le_of_spares later hheld hspares
  · intro key g compute v h
    simp [getOrInsert, h]
  · intro key g compute h
    simp [getOrInsert, h]

/-- A reader that is still at generation 4 gets what it computes, and the entry of generation 5
stays; another key and what is purged do not count. -/
example :
    let calls : List (Call Nat String) := [.insert "P" 3 30, .retain 4, .insert "P" 5 50,
      .getOrInsert "P" 4 fun _ => 40, .insert "Q" 5 7]
    insertions "P" calls = [(5, 50), (4, 40)] ∧ (after calls).get? "P" 5 = some 50 ∧
      (after calls).get? "P" 4 = none := by
  decide

end TypeAtlas.GenerationCache
