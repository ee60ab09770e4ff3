/-
Caches of results that belong to one generation of a model. An entry answers only for the generation
it was computed for, and a newer entry is never replaced by an older one.
-/
import TypeAtlas.Dict

namespace TypeAtlas

/-- Results by key, each with the generation it was computed for. Keys are texts unless another type
is named. -/
structure GenerationCache (β : Type) (κ : Type := String) where
  entries : List (κ × Nat × β)
  keys_nodup : (entries.map Prod.fst).Nodup

namespace GenerationCache

variable {β κ : Type}

/-- The cache without entries. -/
def empty : GenerationCache β κ := ⟨[], List.nodup_nil⟩

/-- Number of entries. -/
def size (c : GenerationCache β κ) : Nat := c.entries.length

def isEmpty (c : GenerationCache β κ) : Bool := c.size == 0

/-- Drops the entries of all other generations. -/
def retain (c : GenerationCache β κ) (generation : Nat) : GenerationCache β κ :=
  ⟨c.entries.filter fun row => row.2.1 == generation,
    c.keys_nodup.sublist (List.filter_sublist.map Prod.fst)⟩

/-- Drops every entry. -/
def clear (_ : GenerationCache β κ) : GenerationCache β κ := empty

variable [DecidableEq κ]

/-- The entry of a key: a result and the generation it was computed for. -/
def held? (c : GenerationCache β κ) (key : κ) : Option (Nat × β) := c.entries.lookup key

/-- The result for a key, if it was computed for exactly this generation. -/
def get? (c : GenerationCache β κ) (key : κ) (generation : Nat) : Option β :=
  ((c.held? key).filter fun e => e.1 == generation).map Prod.snd

/-- Sets the entry of a key. -/
def setEntry (c : GenerationCache β κ) (key : κ) (entry : Nat × β) : GenerationCache β κ :=
  ⟨Dict.put key entry c.entries, Dict.nodup_put key entry c.keys_nodup⟩

/-- Stores a result unless the entry of the key is for a later generation. -/
def insert (c : GenerationCache β κ) (key : κ) (generation : Nat) (value : β) :
    GenerationCache β κ :=
  match c.held? key with
  | some (held, _) => if held > generation then c else c.setEntry key (generation, value)
  | none => c.setEntry key (generation, value)

/-- What a look-up that may compute gives: the result, and whether it was computed now. -/
structure Answer (β : Type) where
  value : β
  computed : Bool

/-- The result for a key and a generation, computed and stored if it is not there. A computed result
is given even where a later entry keeps it from being stored. -/
def getOrInsert (c : GenerationCache β κ) (key : κ) (generation : Nat) (compute : Unit → β) :
    Answer β × GenerationCache β κ :=
  match c.get? key generation with
  | some value => (⟨value, false⟩, c)
  | none =>
    let value := compute ()
    (⟨value, true⟩, c.insert key generation value)

end GenerationCache

end TypeAtlas
