/-
OperatorGrammar/Parser/Callback.lean

Running callbacks: one script, and the callbacks of a point in the two modes.

Design.  A callback that fails still leaves its node slot behind, so the run of a
script ends with an `Ending`, the slot and perhaps a failure, and only the
parser turns that failure into one of its own.

In notify mode every callback of the point runs, each on the slot that the one
before it left, up to the first failure.  In search mode the slot starts empty
and the run also stops as soon as it is filled.
-/
import OperatorGrammar.Parser.Reading

namespace OperatorGrammar

/-- How a run of callbacks ended. -/
structure Ending where
  node : Option Expr
  failure : Option Failure

/-- Runs a script on a node slot. -/
def Script.run : Script → Option Expr → Reading Ending
  | .done, node => pure ⟨node, none⟩
  | .fail failure, node => pure ⟨node, some failure⟩
  | .abandon, _ => Reading.exhausted
  | .look next, node => fun c s =>
    (next ⟨c.dialect.grammar, ⟨c.text, s.index⟩, node⟩).run node c s
  | .advance count next, node => fun c s =>
    next.run node c { s with index := (Cursor.advance ⟨c.text, s.index⟩ count).index }
  | .setNode node next, _ => next.run node
  | .note left next, node => fun c s =>
    next.run node c { s with notes := s.notes.push left }
  | .enter entry next, node => fun c s =>
    match c.enter entry s with
    | .ok result s => (next (.ok result)).run node c s
    | .fail failure s => (next (.error failure)).run node c s
    | .exhausted => .exhausted

namespace Hook

/-- Runs callbacks in order, each on the slot left by the one before. -/
def notifyAll : List Hook → Option Expr → Reading Ending
  | [], node => pure ⟨node, none⟩
  | h :: hs, node => do
    let ending ← h.script.run node
    if ending.failure.isSome then pure ending else notifyAll hs ending.node

/-- Runs callbacks in order until one leaves a node. -/
def searchAll : List Hook → Option Expr → Reading Ending
  | [], node => pure ⟨node, none⟩
  | h :: hs, node => do
    let ending ← h.script.run node
    if ending.failure.isSome || ending.node.isSome then pure ending else searchAll hs ending.node

end Hook

namespace Reading

/-- The slot that a run of callbacks left, or its failure. -/
def settle (ending : Ending) : Reading (Option Expr) :=
  match ending.failure with
  | some failure => raise failure
  | none => pure ending.node

/-- The callbacks of a point. -/
def hooksAt (p : HookPoint) : Reading (List Hook) :=
  fun c s => .ok (c.dialect.hooks.get p) s

/-- Runs the callbacks of a point on a node slot and keeps how they ended. -/
def announce (p : HookPoint) (node : Option Expr) : Reading Ending := do
  Hook.notifyAll (← hooksAt p) node

/-- Runs the callbacks of a point on a node slot. -/
def notify (p : HookPoint) (node : Option Expr) : Reading (Option Expr) := do
  settle (← announce p node)

/-- Asks the callbacks of a point for a node. -/
def search (p : HookPoint) : Reading (Option Expr) := do
  settle (← Hook.searchAll (← hooksAt p) none)

end Reading

end OperatorGrammar
