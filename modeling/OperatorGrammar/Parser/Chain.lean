/-
OperatorGrammar/Parser/Chain.lean

From a chain of operands and binary operators, `t₀ o₁ t₁ … oₙ tₙ`, to a tree.

Design.  Operators that wait for their right operand stand on a stack, each with
its left operand.  Before an operator is pushed, the waiting ones that bind at
least as tightly are closed; between two operators of the same precedence that
both group to the right, the earlier one keeps waiting.  At the end all are
closed.  Reading the chain and building the tree are apart: this file knows no
text, and the climbing does not know what its operands are.
-/
import OperatorGrammar.Expr.Basic

namespace OperatorGrammar

/-- A binary operator with what decides how it groups. -/
structure BinaryOp where
  symbol : String
  precedence : Nat
  right : Bool
  deriving DecidableEq, Repr

/-- Whether `earlier`, which waits for its right operand, is closed before `later`
is pushed. -/
def BinaryOp.closes (later earlier : BinaryOp) : Bool :=
  if later.right && earlier.right then later.precedence < earlier.precedence
  else later.precedence ≤ earlier.precedence

namespace Chain

variable {α : Type}

/-- An operator with its left operand. -/
structure Waiting (α : Type) where
  left : α
  op : BinaryOp

/-- Closes the waiting operators that an operator closes, innermost first; `join`
puts an operator between its operands. -/
def reduce (join : BinaryOp → α → α → α) (op : BinaryOp) :
    List (Waiting α) → α → List (Waiting α) × α
  | [], operand => ([], operand)
  | w :: stack, operand =>
    if op.closes w.op then reduce join op stack (join w.op w.left operand)
    else (w :: stack, operand)

/-- Closes all waiting operators. -/
def finish (join : BinaryOp → α → α → α) (stack : List (Waiting α)) (operand : α) : α :=
  stack.foldl (fun operand w => join w.op w.left operand) operand

/-- Builds the rest of a chain onto a stack and the last operand. -/
def climb (join : BinaryOp → α → α → α) : List (Waiting α) → α → List (BinaryOp × α) → α
  | stack, operand, [] => finish join stack operand
  | stack, operand, (op, next) :: rest =>
    let (stack, left) := reduce join op stack operand
    climb join (⟨left, op⟩ :: stack) next rest

/-- The tree of a chain. -/
def tree (first : Expr) (rest : List (BinaryOp × Expr)) : Expr :=
  climb (fun op left right => .binary op.symbol left right) [] first rest

end Chain

end OperatorGrammar
