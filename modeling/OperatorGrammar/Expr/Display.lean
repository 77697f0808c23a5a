/-
OperatorGrammar/Expr/Display.lean

Values shown to a reader, number literals written from a float, and the outline
of a tree: one node per line, two spaces of indentation per level.

Design.  The outline is first a list of rows, each a level and a text, and only
then one string, so that statements about the shape of an outline need not look
into strings.
-/
import OperatorGrammar.Expr.Basic
import OperatorGrammar.Decimal.Style
import OperatorGrammar.Text.Quoted

namespace OperatorGrammar

/-- A value as a reader sees it. -/
def Value.display : Value → String
  | .null => "null"
  | .bool true => "true"
  | .bool false => "false"
  | .number x => Decimal.Style.display.write x
  | .string s => Text.quoted s

/-- A number literal written as the number is shown. -/
def Expr.ofFloat (x : Float) : Expr :=
  .literal (.number x) (Decimal.Style.display.write x)

namespace Outline

/-- A line of an outline. -/
structure Row where
  level : Nat
  text : String
  deriving DecidableEq, Repr

/-- The line with its indentation, ended. -/
def Row.line (row : Row) : String :=
  String.ofList (List.replicate (2 * row.level) ' ') ++ row.text ++ "\n"

/-- What an outline shows of a literal. -/
inductive Leaves where
  /-- The text that the literal was written as. -/
  | written
  /-- The value that the literal stands for. -/
  | decoded
  deriving DecidableEq, Repr

/-- A literal on its line. -/
def Leaves.text : Leaves → Value → String → String
  | written, _, raw => raw
  | decoded, value, _ => value.display

/-- The mark of a link written with `?.`. -/
def optionalMark (optional : Option Bool) : String :=
  if optional.getD false then " optional" else ""

mutual

/-- The rows of a tree whose root stands at `level`. -/
def rows (leaves : Leaves) (level : Nat) : Expr → List Row
  | .identifier name => [⟨level, "Identifier " ++ name⟩]
  | .literal value raw => [⟨level, "Literal " ++ leaves.text value raw⟩]
  | .receiver => [⟨level, "ThisExpression"⟩]
  | .member computed object property optional =>
    ⟨level, "MemberExpression" ++ (if computed then " computed" else "") ++ optionalMark optional⟩
      :: (rows leaves (level + 1) object ++ rows leaves (level + 1) property)
  | .call callee arguments optional =>
    ⟨level, "CallExpression" ++ optionalMark optional⟩
      :: (rows leaves (level + 1) callee ++ listRows leaves (level + 1) arguments)
  | .unary operator argument _ =>
    ⟨level, "UnaryExpression " ++ operator⟩ :: rows leaves (level + 1) argument
  | .binary operator left right =>
    ⟨level, "BinaryExpression " ++ operator⟩
      :: (rows leaves (level + 1) left ++ rows leaves (level + 1) right)
  | .conditional test consequent alternate =>
    ⟨level, "ConditionalExpression"⟩
      :: (rows leaves (level + 1) test ++ rows leaves (level + 1) consequent
        ++ rows leaves (level + 1) alternate)
  | .array elements => ⟨level, "ArrayExpression"⟩ :: slotRows leaves (level + 1) elements
  | .sequence expressions => ⟨level, "SequenceExpression"⟩ :: listRows leaves (level + 1) expressions
  | .compound body => ⟨level, "Compound"⟩ :: listRows leaves (level + 1) body

/-- The rows of several trees at one level. -/
def listRows (leaves : Leaves) (level : Nat) : List Expr → List Row
  | [] => []
  | e :: es => rows leaves level e ++ listRows leaves level es

/-- The rows of the slots of an array. -/
def slotRows (leaves : Leaves) (level : Nat) : List (Option Expr) → List Row
  | [] => []
  | none :: es => ⟨level, "<hole>"⟩ :: slotRows leaves level es
  | some e :: es => rows leaves level e ++ slotRows leaves level es

end

end Outline

/-- The outline of a tree, or the one line that says that there is none. -/
def Expr.dump (leaves : Outline.Leaves) : Option Expr → String
  | none => "(empty)\n"
  | some root => String.join ((Outline.rows leaves 0 root).map Outline.Row.line)

end OperatorGrammar
