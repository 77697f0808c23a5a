/-
OperatorGrammar/Hook/Registry.lean

The callbacks of each point in the order in which they are called.
-/
import OperatorGrammar.Hook.Point
import OperatorGrammar.Hook.Script

namespace OperatorGrammar

/-- Callbacks by point; the points stand in the order of their first registration. -/
structure Hooks where
  points : OrderedMap HookPoint (List Hook)

namespace Hooks

/-- No callbacks. -/
def empty : Hooks := ⟨.empty⟩

/-- The callbacks of a point in the order in which they are called. -/
def get (hs : Hooks) (p : HookPoint) : List Hook :=
  (hs.points.get? p).getD []

/-- Registers a callback behind those of its point. -/
def add (hs : Hooks) (p : HookPoint) (h : Hook) : Hooks :=
  ⟨hs.points.insert p (hs.get p ++ [h])⟩

/-- Registers a callback before those of its point. -/
def addFirst (hs : Hooks) (p : HookPoint) (h : Hook) : Hooks :=
  ⟨hs.points.insert p (h :: hs.get p)⟩

/-- Registers several callbacks, each behind those of its point. -/
def extend (hs : Hooks) (additions : List (HookPoint × Hook)) : Hooks :=
  additions.foldl (fun hs a => hs.add a.1 a.2) hs

/-- The number of registrations. -/
def size (hs : Hooks) : Nat :=
  (hs.points.entries.map fun e => e.2.length).foldr (· + ·) 0

/-- Whether nothing is registered. -/
def isEmpty (hs : Hooks) : Bool :=
  hs.size = 0

/-- The points with the number of their callbacks. -/
def summary (hs : Hooks) : String :=
  "\x7b" ++ ", ".intercalate (hs.points.entries.map fun e =>
    "\"" ++ e.1.name ++ "\": " ++ toString e.2.length) ++ "\x7d"

end Hooks

end OperatorGrammar
