/-!
Finite maps as association lists: each key at most once, entries in the order keys were first
inserted. Inserting a present key replaces its value in place. Where the library needs its
entries in key order it sorts them at the query, by `sortedBy`.
-/
namespace KeyRelay

/-- A finite map from `κ` to `α`. -/
structure Table (κ α : Type) where
  entries : List (κ × α) := []
deriving Inhabited

namespace Table

variable {κ α : Type} [DecidableEq κ]

/-- The empty map. -/
def empty : Table κ α := ⟨[]⟩

/-- The value at a key. -/
def get? (t : Table κ α) (k : κ) : Option α := (t.entries.find? (·.1 = k)).map (·.2)

/-- Whether a key is present. -/
def contains (t : Table κ α) (k : κ) : Bool := t.entries.any (·.1 = k)

/-- Sets the value at a key: in place when present, at the end otherwise. -/
def insert (t : Table κ α) (k : κ) (v : α) : Table κ α :=
  if t.contains k then ⟨t.entries.map fun e => if e.1 = k then (k, v) else e⟩
  else ⟨t.entries ++ [(k, v)]⟩

/-- Removes a key. -/
def erase (t : Table κ α) (k : κ) : Table κ α := ⟨t.entries.filter (·.1 ≠ k)⟩

/-- Changes the value at a key, if present. -/
def modify (t : Table κ α) (k : κ) (f : α → α) : Table κ α :=
  ⟨t.entries.map fun e => if e.1 = k then (e.1, f e.2) else e⟩

/-- Number of keys. -/
def size (t : Table κ α) : Nat := t.entries.length

/-- The values in entry order. -/
def values (t : Table κ α) : List α := t.entries.map (·.2)

/-- The keys in entry order. -/
def keys (t : Table κ α) : List κ := t.entries.map (·.1)

/-- Keeps the entries whose value passes. -/
def filter (t : Table κ α) (p : κ → α → Bool) : Table κ α := ⟨t.entries.filter fun e => p e.1 e.2⟩

end Table

/-- A list sorted by a natural-number key, stably. -/
def sortedBy {α : Type} (key : α → Nat) (xs : List α) : List α :=
  xs.mergeSort fun a b => key a ≤ key b

/-- A list sorted by two natural-number keys, the first deciding. -/
def sortedBy2 {α : Type} (key : α → Nat × Nat) (xs : List α) : List α :=
  xs.mergeSort fun a b =>
    let (a1, a2) := key a
    let (b1, b2) := key b
    a1 < b1 || (a1 == b1 && a2 ≤ b2)

end KeyRelay
