/-
OperatorGrammar/Table/Ordered.lean

Sets and maps that remember the order in which their keys came.

Design.  The order is part of what a table is: adding a key that is present
keeps its place (a map then takes the new value), adding a new key appends it,
and erasing a key keeps the order of the others.
-/

namespace OperatorGrammar

/-- A set whose members keep the order in which they came. -/
structure OrderedSet (κ : Type) where
  members : List κ
  deriving DecidableEq

namespace OrderedSet

variable {κ : Type} [DecidableEq κ]

/-- The set without members. -/
def empty : OrderedSet κ := ⟨[]⟩

/-- Whether a key is a member. -/
def contains (s : OrderedSet κ) (k : κ) : Bool :=
  decide (k ∈ s.members)

/-- Adds a key at the end, unless it is a member. -/
def insert (s : OrderedSet κ) (k : κ) : OrderedSet κ :=
  if k ∈ s.members then s else ⟨s.members ++ [k]⟩

/-- Removes a key. -/
def erase (s : OrderedSet κ) (k : κ) : OrderedSet κ :=
  ⟨s.members.filter (· ≠ k)⟩

/-- Builds a set by adding keys in order. -/
def ofList (ks : List κ) : OrderedSet κ :=
  ks.foldl insert empty

end OrderedSet

/-- A map whose keys keep the order in which they came. -/
structure OrderedMap (κ α : Type) where
  entries : List (κ × α)

namespace OrderedMap

variable {κ α : Type} [DecidableEq κ]

/-- The map without keys. -/
def empty : OrderedMap κ α := ⟨[]⟩

/-- The keys in order. -/
def keys (m : OrderedMap κ α) : List κ :=
  m.entries.map Prod.fst

/-- The value at a key. -/
def get? (m : OrderedMap κ α) (k : κ) : Option α :=
  (m.entries.find? (fun e => e.1 = k)).map Prod.snd

/-- Whether a key is present. -/
def contains (m : OrderedMap κ α) (k : κ) : Bool :=
  (m.get? k).isSome

/-- Sets the value at a key: in its place when it is present, else at the end. -/
def insert (m : OrderedMap κ α) (k : κ) (a : α) : OrderedMap κ α :=
  if m.contains k then ⟨m.entries.map fun e => if e.1 = k then (k, a) else e⟩
  else ⟨m.entries ++ [(k, a)]⟩

/-- Removes a key. -/
def erase (m : OrderedMap κ α) (k : κ) : OrderedMap κ α :=
  ⟨m.entries.filter fun e => e.1 ≠ k⟩

/-- Builds a map by setting entries in order. -/
def ofList (es : List (κ × α)) : OrderedMap κ α :=
  es.foldl (fun m e => m.insert e.1 e.2) empty

end OrderedMap

end OperatorGrammar
