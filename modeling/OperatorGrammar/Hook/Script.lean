/-
OperatorGrammar/Hook/Script.lean

Callbacks as programs over what a reading lets them do: look around, move the
cursor forward, fill or empty the node slot, leave a note, re-enter the grammar
and go on with its result or its failure, and fail.

Design.  A script is a tree whose branches are the answers that it may get, so
every function that uses only these operations is one, and a statement about
all scripts is a statement about all callbacks.  What a script sees is a
`View`: the tables, the cursor and the node slot, but neither the nesting depth
nor the notes.

A script is a finite tree along each path.  A loop without a bound of its own is
unrolled up to a bound, and `abandon` stands at the end: such a callback never
comes to rest.
-/
import OperatorGrammar.Grammar.Basic
import OperatorGrammar.Cursor
import OperatorGrammar.Failure

namespace OperatorGrammar

/-- The parts of a reading that a callback may ask for. -/
inductive Entry where
  /-- White space, and what callbacks take for it. -/
  | blanks
  /-- One operand with its links. -/
  | operand
  /-- A bare name, never a literal or the receiver. -/
  | identifier
  /-- One expression. -/
  | expression
  deriving DecidableEq, Repr

/-- What a callback sees. -/
structure View where
  grammar : Grammar
  cursor : Cursor
  node : Option Expr

/-- The kind of the node in the slot. -/
def View.typeName (v : View) : Option String :=
  v.node.map Expr.typeName

/-- What a callback leaves for whoever reads the notes of a parse. -/
inductive Note where
  /-- A labelled place and the kind of node in the slot. -/
  | place (label : String) (index : Nat) (typeName : Option String)
  /-- A labelled view. -/
  | view (label : String) (cursor : Cursor) (node : Option Expr)
  /-- A node that was read and not kept. -/
  | node (node : Option Expr)
  /-- A failure that was not passed on. -/
  | failure (failure : Failure)

/-- A callback as a program. -/
inductive Script where
  /-- Ends. -/
  | done
  /-- Fails. -/
  | fail (failure : Failure)
  /-- Never ends. -/
  | abandon
  /-- Looks around. -/
  | look (next : View → Script)
  /-- Moves the cursor forward, not past the end. -/
  | advance (count : UInt64) (next : Script)
  /-- Fills or empties the node slot. -/
  | setNode (node : Option Expr) (next : Script)
  /-- Leaves a note. -/
  | note (note : Note) (next : Script)
  /-- Re-enters the grammar; the node slot is not touched. -/
  | enter (entry : Entry) (next : Except Failure (Option Expr) → Script)

namespace Script

/-- Goes on as long as a condition holds, at most `bound` times.  The body gets
the current state and what to do next with the new one. -/
def repeatWhile {σ : Type} (holds : View → Bool) (body : σ → (σ → Script) → Script)
    (after : σ → Script) : (bound : Nat) → σ → Script
  | 0, _ => abandon
  | bound + 1, state =>
    look fun v =>
      if holds v then body state (repeatWhile holds body after bound) else after state

/-- Reads an expression and hands it on; fails when there is none. -/
def needExpression (next : Expr → Script) : Script :=
  enter .expression fun
    | .error failure => fail failure
    | .ok (some e) => next e
    | .ok none => look fun v => fail ⟨.expression, v.cursor.index⟩

/-- Steps over one expected character; fails for the given cause when it is not there. -/
def needChar (ch : Char) (cause : Cause) (next : Script) : Script :=
  look fun v =>
    if v.cursor.current = some ch then advance 1 next else fail ⟨cause, v.cursor.index⟩

end Script

/-- A registered callback.  Two hooks are the same callback iff their identities agree. -/
structure Hook where
  identity : Nat
  script : Script

end OperatorGrammar
