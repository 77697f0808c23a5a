/-
OperatorGrammar/Expr/Basic.lean

Expression trees: the values that literals carry, the eleven kinds of node, the
constructors that a reader of source text uses, and structural sameness.

Design.  A node says what was written and nothing about where.  A link
(member access or call) carries `optional : Option Bool`: `none` for a plain
link, `some true` for one written with `?.`.  The third value `some false` is
never written by a reader of source text; it is there because a tree may also
be built by hand.

Sameness is its own function and not equality, because a literal holds a
64-bit float: a NaN differs from itself, and the two zeros are the same.
-/

namespace OperatorGrammar

/-- What a literal stands for. -/
inductive Value where
  | null
  | bool (value : Bool)
  | number (value : Float)
  | string (value : String)
  deriving Inhabited

/-- An expression tree. -/
inductive Expr where
  /-- A name. -/
  | identifier (name : String)
  /-- A constant, with the text that it was written as. -/
  | literal (value : Value) (raw : String)
  /-- The keyword for the current receiver. -/
  | receiver
  /-- `object.property`, or `object[property]` when `computed`. -/
  | member (computed : Bool) (object property : Expr) (optional : Option Bool)
  /-- `callee(arguments)`. -/
  | call (callee : Expr) (arguments : List Expr) (optional : Option Bool)
  /-- An operator and its one argument; `leading` when the operator comes first. -/
  | unary (operator : String) (argument : Expr) (leading : Bool)
  /-- An operator between two operands. -/
  | binary (operator : String) (left right : Expr)
  /-- `test ? consequent : alternate`. -/
  | conditional (test consequent alternate : Expr)
  /-- `[elements]`, where `none` is a hole. -/
  | array (elements : List (Option Expr))
  /-- Several expressions inside one pair of parentheses. -/
  | sequence (expressions : List Expr)
  /-- Several expressions at the top of a text. -/
  | compound (body : List Expr)
  deriving Inhabited

namespace Value

/-- Sameness of values: numbers compare as numbers. -/
def same : Value → Value → Bool
  | null, null => true
  | bool a, bool b => a == b
  | number a, number b => a == b
  | string a, string b => a == b
  | _, _ => false

end Value

namespace Expr

/-! ### Constructors -/

/-- A member link as first read: not optional. -/
def link (object property : Expr) (computed : Bool) : Expr :=
  .member computed object property none

/-- A call as first read: not optional. -/
def apply (callee : Expr) (arguments : List Expr) : Expr :=
  .call callee arguments none

/-- An operator written before its argument. -/
def signed (operator : String) (argument : Expr) : Expr :=
  .unary operator argument true

/-- A string literal between single quotes; nothing inside is escaped. -/
def quoted (value : String) : Expr :=
  .literal (.string value) ("'" ++ value ++ "'")

/-! ### Questions about the root -/

/-- The name of the kind of node. -/
def typeName : Expr → String
  | identifier _ => "Identifier"
  | literal _ _ => "Literal"
  | receiver => "ThisExpression"
  | member _ _ _ _ => "MemberExpression"
  | call _ _ _ => "CallExpression"
  | unary _ _ _ => "UnaryExpression"
  | binary _ _ _ => "BinaryExpression"
  | conditional _ _ _ => "ConditionalExpression"
  | array _ => "ArrayExpression"
  | sequence _ => "SequenceExpression"
  | compound _ => "Compound"

/-- Whether the node is a list of several top-level expressions. -/
def isCompound : Expr → Bool
  | compound _ => true
  | _ => false

/-- Whether the node is a link written with `?.`. -/
def isOptional : Expr → Bool
  | member _ _ _ optional => optional.getD false
  | call _ _ optional => optional.getD false
  | _ => false

/-- Marks a link as optional; every other node stays as it is. -/
def setOptional : Expr → Expr
  | member computed object property _ => member computed object property (some true)
  | call callee arguments _ => call callee arguments (some true)
  | other => other

/-- The name of an identifier. -/
def asIdentifier : Expr → Option String
  | identifier name => some name
  | _ => none

/-- A list of top-level nodes as one result: nothing, the only node, or a list
of several. -/
def bundle (several : List Expr → Expr) : List Expr → Option Expr
  | [] => none
  | [node] => some node
  | nodes => some (several nodes)

/-! ### Sameness -/

mutual

/-- Sameness of trees, node by node. -/
def same : Expr → Expr → Bool
  | identifier a, identifier b => a == b
  | literal v r, literal w t => v.same w && r == t
  | receiver, receiver => true
  | member c o p q, member c' o' p' q' => c == c' && same o o' && same p p' && q == q'
  | call f as q, call f' as' q' => same f f' && sameList as as' && q == q'
  | unary o a l, unary o' a' l' => o == o' && same a a' && l == l'
  | binary o a b, binary o' a' b' => o == o' && same a a' && same b b'
  | conditional t c a, conditional t' c' a' => same t t' && same c c' && same a a'
  | array es, array es' => sameSlots es es'
  | sequence es, sequence es' => sameList es es'
  | compound es, compound es' => sameList es es'
  | _, _ => false

/-- Sameness of lists of trees. -/
def sameList : List Expr → List Expr → Bool
  | [], [] => true
  | a :: as, b :: bs => same a b && sameList as bs
  | _, _ => false

/-- Sameness of lists of trees with holes. -/
def sameSlots : List (Option Expr) → List (Option Expr) → Bool
  | [], [] => true
  | none :: as, none :: bs => sameSlots as bs
  | some a :: as, some b :: bs => same a b && sameSlots as bs
  | _, _ => false

end

end Expr

end OperatorGrammar
