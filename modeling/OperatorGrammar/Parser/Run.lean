/-
OperatorGrammar/Parser/Run.lean

Tying the knot: reading a text with a dialect.

Design.  `Dialect.run` gives each production the same reading on a budget one
smaller.  The budget of `Dialect.parse` is far above what any text without
callbacks of its own can use, and callbacks that come to rest stay far below it,
too; running out of it is told apart from every other answer.
-/
import OperatorGrammar.Parser.Production

namespace OperatorGrammar

namespace Dialect

/-- Reads an entry on a budget. -/
def run (d : Dialect) (text : Array Char) : Nat → Entry → State → Reply (Option Expr)
  | 0 => fun _ _ => .exhausted
  | n + 1 => fun entry s => Reading.production entry ⟨d, text, n, run d text n⟩ s

/-- The context of a reading on a budget. -/
def context (d : Dialect) (text : Array Char) (budget : Nat) : Context :=
  ⟨d, text, budget, d.run text budget⟩

/-- A budget for texts of a length: enough for the text itself and for `2 ^ 48` further
rounds of callbacks. -/
def budgetFor (length : Nat) : Nat :=
  (1 <<< 48) + 8 * (length + 1)

/-- Reads a whole text on a budget. -/
def parseWithin (d : Dialect) (budget : Nat) (text : Array Char) : Reply (Option Expr) :=
  Reading.program (d.context text budget) State.initial

/-- Reads a whole text and keeps the notes. -/
def parseReply (d : Dialect) (text : String) : Reply (Option Expr) :=
  d.parseWithin (budgetFor text.length) text.toList.toArray

end Dialect

/-- The answer without the state; `none` when the budget ran out. -/
def Reply.outcome? {α : Type} : Reply α → Option (Except Failure α)
  | .ok value _ => some (.ok value)
  | .fail failure _ => some (.error failure)
  | .exhausted => none

/-- The notes that were left. -/
def Reply.notes {α : Type} : Reply α → List Note
  | .ok _ s => s.notes.toList
  | .fail _ s => s.notes.toList
  | .exhausted => []

/-- Reads a whole text: a tree or no expression at all, or a failure; `none` when the
callbacks do not come to rest. -/
def Dialect.parse (d : Dialect) (text : String) : Option (Except Failure (Option Expr)) :=
  (d.parseReply text).outcome?

end OperatorGrammar
