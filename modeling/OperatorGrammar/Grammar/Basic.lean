/-
OperatorGrammar/Grammar/Basic.lean

The tables of a grammar: unary and binary operators, extra identifier
characters, named literals, the receiver keyword, the nesting limit.

Design.  Scanning an operator tries the longest candidate first, so a grammar
carries the greatest length among its unary and among its binary operators.
These two numbers are changed only by the functions of this file: an added
operator can only raise one, and a removed operator is worth a recount only
when it was as long as the greatest.

Associativity to the right is kept apart from the precedences.  Adding an
operator always settles its associativity anew, also when it was present.
-/
import OperatorGrammar.Expr.Basic
import OperatorGrammar.Table.Ordered

namespace OperatorGrammar

/-- The tables that say how a text is read. -/
structure Grammar where
  unaryOps : OrderedSet String
  /-- Binary operators with their precedence; higher binds tighter. -/
  binaryOps : OrderedMap String Nat
  rightAssociative : OrderedSet String
  /-- Characters of identifiers besides ASCII letters and digits. -/
  identifierChars : OrderedSet Char
  /-- Names that stand for a value. -/
  literals : OrderedMap String Value
  receiverKeyword : String
  /-- The greatest length of a unary operator. -/
  longestUnary : Nat
  /-- The greatest length of a binary operator. -/
  longestBinary : Nat
  /-- How many expressions and operands may be open at once; `none` for any number. -/
  nestingLimit : Option Nat

namespace Grammar

/-- The greatest length among some operators, zero when there is none. -/
def longest (ops : List String) : Nat :=
  (ops.map String.length).foldl max 0

/-! ### The standard grammar -/

/-- The unary operators that a new grammar knows. -/
def standardUnaryOps : List String :=
  ["-", "!", "~", "+"]

/-- The binary operators that a new grammar knows. -/
def standardBinaryOps : List (String × Nat) :=
  [("||", 1), ("&&", 2), ("|", 3), ("^", 4), ("&", 5), ("==", 6), ("!=", 6), ("===", 6),
    ("!==", 6), ("<", 7), (">", 7), ("<=", 7), (">=", 7), ("<<", 8), (">>", 8), (">>>", 8),
    ("+", 9), ("-", 9), ("*", 10), ("/", 10), ("%", 10)]

/-- The named literals that a new grammar knows. -/
def standardLiterals : List (String × Value) :=
  [("true", .bool true), ("false", .bool false), ("null", .null)]

/-- The grammar to start from. -/
def standard : Grammar where
  unaryOps := .ofList standardUnaryOps
  binaryOps := .ofList standardBinaryOps
  rightAssociative := .empty
  identifierChars := .ofList ['$', '_']
  literals := .ofList standardLiterals
  receiverKeyword := "this"
  longestUnary := longest standardUnaryOps
  longestBinary := longest (standardBinaryOps.map Prod.fst)
  nestingLimit := some 256

/-! ### Changing the tables -/

/-- Adds a unary operator. -/
def addUnaryOp (g : Grammar) (op : String) : Grammar :=
  { g with unaryOps := g.unaryOps.insert op, longestUnary := max g.longestUnary op.length }

/-- Removes a unary operator. -/
def removeUnaryOp (g : Grammar) (op : String) : Grammar :=
  let ops := g.unaryOps.erase op
  { g with
    unaryOps := ops
    longestUnary := if op.length = g.longestUnary then longest ops.members else g.longestUnary }

/-- Removes every unary operator. -/
def clearUnaryOps (g : Grammar) : Grammar :=
  { g with unaryOps := .empty, longestUnary := 0 }

/-- Adds a binary operator, or changes its precedence and associativity. -/
def addBinaryOp (g : Grammar) (op : String) (precedence : Nat) (right : Bool) : Grammar :=
  { g with
    binaryOps := g.binaryOps.insert op precedence
    rightAssociative :=
      if right then g.rightAssociative.insert op else g.rightAssociative.erase op
    longestBinary := max g.longestBinary op.length }

/-- Removes a binary operator and its associativity. -/
def removeBinaryOp (g : Grammar) (op : String) : Grammar :=
  let ops := g.binaryOps.erase op
  { g with
    binaryOps := ops
    rightAssociative := g.rightAssociative.erase op
    longestBinary := if op.length = g.longestBinary then longest ops.keys else g.longestBinary }

/-- Removes every binary operator. -/
def clearBinaryOps (g : Grammar) : Grammar :=
  { g with binaryOps := .empty, rightAssociative := .empty, longestBinary := 0 }

/-- Allows one more character in identifiers. -/
def addIdentifierChar (g : Grammar) (c : Char) : Grammar :=
  { g with identifierChars := g.identifierChars.insert c }

/-- Takes back an extra identifier character. -/
def removeIdentifierChar (g : Grammar) (c : Char) : Grammar :=
  { g with identifierChars := g.identifierChars.erase c }

/-- Makes a name stand for a value. -/
def addLiteral (g : Grammar) (name : String) (value : Value) : Grammar :=
  { g with literals := g.literals.insert name value }

/-- Makes a name an identifier again. -/
def removeLiteral (g : Grammar) (name : String) : Grammar :=
  { g with literals := g.literals.erase name }

/-- Removes every named literal. -/
def clearLiterals (g : Grammar) : Grammar :=
  { g with literals := .empty }

/-- Chooses the name that is read as the receiver. -/
def setReceiverKeyword (g : Grammar) (keyword : String) : Grammar :=
  { g with receiverKeyword := keyword }

/-- Chooses the nesting limit. -/
def setNestingLimit (g : Grammar) (limit : Option Nat) : Grammar :=
  { g with nestingLimit := limit }

/-! ### Questions -/

/-- Whether a text is a unary operator. -/
def isUnaryOp (g : Grammar) (op : String) : Bool :=
  g.unaryOps.contains op

/-- Whether a text is a binary operator. -/
def isBinaryOp (g : Grammar) (op : String) : Bool :=
  g.binaryOps.contains op

/-- Whether a binary operator groups to the right. -/
def isRightAssociative (g : Grammar) (op : String) : Bool :=
  g.rightAssociative.contains op

/-- The precedence of an operator, zero for a text that is no binary operator. -/
def precedence (g : Grammar) (op : String) : Nat :=
  (g.binaryOps.get? op).getD 0

/-- The value that a name stands for. -/
def literal? (g : Grammar) (name : String) : Option Value :=
  g.literals.get? name

/-! ### Classes of characters -/

/-- A decimal digit, ASCII only. -/
def isDigit (c : Char) : Bool :=
  c.isDigit

/-- White space between tokens: space, tab, line feed and carriage return. -/
def isBlank (c : Char) : Bool :=
  c = ' ' || c = '\t' || c = '\n' || c = '\r'

/-- Whether an identifier may start with a character: an ASCII letter, an extra
identifier character, or any character outside ASCII that is not itself a binary
operator. -/
def isIdentifierStart (g : Grammar) (c : Char) : Bool :=
  c.isAlpha || g.identifierChars.contains c || (128 ≤ c.toNat && !g.isBinaryOp (String.singleton c))

/-- Whether an identifier may go on with a character. -/
def isIdentifierPart (g : Grammar) (c : Char) : Bool :=
  g.isIdentifierStart c || isDigit c

end Grammar

end OperatorGrammar
