/-
OperatorGrammar/Failure.lean

Why a text cannot be read: a cause and the offset at which it was found.

Design.  A cause carries the parts of the text that its wording needs.  Two
failures are the same iff their causes and offsets are, and the wording of all
causes is in one function.
-/

namespace OperatorGrammar

/-- A reason why reading a text stopped. -/
inductive Cause where
  /-- One expression or operand more than may be open at once. -/
  | nestingLimit
  /-- No digits after the exponent mark of the number `raw`, but `next` or the end. -/
  | exponent (raw : String) (next : Option Char)
  /-- An identifier character right after the number `raw`. -/
  | nameAfterNumber (raw : String) (next : Char)
  /-- A second point in a number, or a point alone. -/
  | period
  /-- A text with the outer form of a number that is none. -/
  | number (raw : String)
  /-- No closing quote; `value` is what was read so far. -/
  | quote (value : String)
  | endOfInput
  /-- A character at which no identifier starts. -/
  | identifier (found : Char)
  /-- A character at which no expression starts and no list ends. -/
  | unexpected (found : Char)
  /-- No right operand after a binary operator. -/
  | operand (operator : String)
  /-- No argument after a unary operator. -/
  | unaryArgument
  | expression
  | bracket
  | parenthesis
  /-- A list without its closing character. -/
  | terminator (expected : Char)
  /-- A separator or closing character in a place where a list has none. -/
  | separator (found : Char)
  | comma
  | colon
  | comment
  /-- A reason given by a callback. -/
  | reported (description : String)
  deriving DecidableEq, Repr

/-- The wording of a cause. -/
def Cause.message : Cause → String
  | nestingLimit => "Recursion limit exceeded"
  | exponent raw next => "Expected exponent (" ++ raw ++ (next.elim "" String.singleton) ++ ")"
  | nameAfterNumber raw next =>
    "Variable names cannot start with a number (" ++ raw ++ String.singleton next ++ ")"
  | period => "Unexpected period"
  | number raw => "Invalid number (" ++ raw ++ ")"
  | quote value => "Unclosed quote after \"" ++ value ++ "\""
  | endOfInput => "Unexpected end of input"
  | identifier found => "Unexpected " ++ String.singleton found
  | unexpected found => "Unexpected \"" ++ String.singleton found ++ "\""
  | operand operator => "Expected expression after " ++ operator
  | unaryArgument => "Missing unary operator argument"
  | expression => "Expected expression"
  | bracket => "Unclosed ["
  | parenthesis => "Unclosed ("
  | terminator expected => "Expected " ++ String.singleton expected
  | separator found => "Unexpected token " ++ String.singleton found
  | comma => "Expected comma"
  | colon => "Expected :"
  | comment => "Unclosed comment"
  | reported description => description

/-- A failed reading. -/
structure Failure where
  cause : Cause
  /-- The offset in characters from the start of the text. -/
  index : Nat
  deriving DecidableEq, Repr

/-- The wording of the cause. -/
def Failure.description (f : Failure) : String :=
  f.cause.message

/-- The failure in one line. -/
def Failure.message (f : Failure) : String :=
  f.description ++ " at character " ++ toString f.index

end OperatorGrammar
