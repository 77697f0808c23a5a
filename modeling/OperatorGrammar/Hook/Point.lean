/-
OperatorGrammar/Hook/Point.lean

The seven points of a reading at which callbacks are called, and their names.
-/

namespace OperatorGrammar

/-- A point of a reading at which callbacks are called. -/
inductive HookPoint where
  /-- Before anything is read. -/
  | start
  /-- After the whole text; may replace the result. -/
  | finish
  /-- After white space was skipped; may skip more. -/
  | blanks
  /-- Before an expression is read; may supply it. -/
  | expression
  /-- After an expression; may replace it. -/
  | expressionDone
  /-- Before an operand is read; may supply it. -/
  | operand
  /-- After an operand, also one that a callback supplied; may replace it. -/
  | operandDone
  deriving DecidableEq, Repr

namespace HookPoint

/-- All points, in the order of their positions. -/
def all : List HookPoint :=
  [start, finish, blanks, expression, expressionDone, operand, operandDone]

/-- The name of a point. -/
def name : HookPoint → String
  | start => "before-all"
  | finish => "after-all"
  | blanks => "gobble-spaces"
  | expression => "gobble-expression"
  | expressionDone => "after-expression"
  | operand => "gobble-token"
  | operandDone => "after-token"

/-- Whether the callbacks of a point are called only until one supplies a node. -/
def isSearch : HookPoint → Bool
  | expression => true
  | operand => true
  | _ => false

/-- The point with a name. -/
def ofName? (text : String) : Option HookPoint :=
  all.find? fun p => p.name = text

/-- The place of a point among all points. -/
def position (p : HookPoint) : Nat :=
  all.findIdx (· = p)

/-- What is said of a text that names no point. -/
def unknownMessage (text : String) : String :=
  "unknown hook `" ++ text ++ "`"

end HookPoint

end OperatorGrammar
