/-
OperatorGrammar/Expr/Json.lean

Trees as JSON: every node is an object whose first field, `type`, names the
kind of node.  The field `optional` of a link is there only when it was set.
-/
import OperatorGrammar.Expr.Basic
import OperatorGrammar.Json

namespace OperatorGrammar

/-- A value as JSON. -/
def Value.toJson : Value → Json
  | .null => .null
  | .bool b => .bool b
  | .number x => .number x
  | .string s => .string s

namespace Expr

/-- The field `optional` of a link. -/
def optionalField : Option Bool → List (String × Json)
  | none => []
  | some flag => [("optional", .bool flag)]

mutual

/-- A tree as JSON. -/
def toJson : Expr → Json
  | identifier name => .object [("type", .string "Identifier"), ("name", .string name)]
  | literal value raw =>
    .object [("type", .string "Literal"), ("value", value.toJson), ("raw", .string raw)]
  | receiver => .object [("type", .string "ThisExpression")]
  | member computed object property optional =>
    .object ([("type", .string "MemberExpression"), ("computed", .bool computed),
      ("object", toJson object), ("property", toJson property)] ++ optionalField optional)
  | call callee arguments optional =>
    .object ([("type", .string "CallExpression"), ("callee", toJson callee),
      ("arguments", .array (listToJson arguments))] ++ optionalField optional)
  | unary operator argument leading =>
    .object [("type", .string "UnaryExpression"), ("operator", .string operator),
      ("argument", toJson argument), ("prefix", .bool leading)]
  | binary operator left right =>
    .object [("type", .string "BinaryExpression"), ("operator", .string operator),
      ("left", toJson left), ("right", toJson right)]
  | conditional test consequent alternate =>
    .object [("type", .string "ConditionalExpression"), ("test", toJson test),
      ("consequent", toJson consequent), ("alternate", toJson alternate)]
  | array elements =>
    .object [("type", .string "ArrayExpression"), ("elements", .array (slotsToJson elements))]
  | sequence expressions =>
    .object [("type", .string "SequenceExpression"), ("expressions", .array (listToJson expressions))]
  | compound body =>
    .object [("type", .string "Compound"), ("body", .array (listToJson body))]

/-- Trees as JSON values. -/
def listToJson : List Expr → List Json
  | [] => []
  | e :: es => toJson e :: listToJson es

/-- The slots of an array as JSON values; a hole is null. -/
def slotsToJson : List (Option Expr) → List Json
  | [] => []
  | none :: es => .null :: slotsToJson es
  | some e :: es => toJson e :: slotsToJson es

end

/-- A tree, or its absence, as JSON. -/
def optionToJson : Option Expr → Json
  | none => .null
  | some e => toJson e

end Expr

end OperatorGrammar
