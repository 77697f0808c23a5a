/-
OperatorGrammar/CommandLine/OperatorSpec.lean

Binary operators given as text: `OP:PREC`, or `OP:PREC:right`.

Design.  An operator may itself contain colons and may end in `:right`, so the
text is read from its end: first one `:right` is taken off, then the precedence
is what follows the last colon.
-/

namespace OperatorGrammar

/-- A binary operator given as text. -/
structure OperatorSpec where
  op : String
  precedence : Nat
  right : Bool
  deriving DecidableEq, Repr

/-- Why a text gives no binary operator. -/
inductive SpecFailure where
  | missingPrecedence (spec : String)
  | emptyOperator
  | invalidPrecedence (text : String)
  deriving DecidableEq, Repr

/-- The wording of a refusal. -/
def SpecFailure.message : SpecFailure → String
  | missingPrecedence spec => "expected OP:PREC[:right], got `" ++ spec ++ "`"
  | emptyOperator => "operator is empty"
  | invalidPrecedence text => "invalid precedence `" ++ text ++ "`"

namespace OperatorSpec

/-- The ending of an operator that groups to the right. -/
def rightSuffix : List Char := ":right".toList

/-- Takes one ending off. -/
def dropRight (text : List Char) : List Char × Bool :=
  if rightSuffix.isSuffixOf text then (text.take (text.length - rightSuffix.length), true)
  else (text, false)

/-- The text before and after the last colon. -/
def splitLast : List Char → Option (List Char × List Char)
  | [] => none
  | c :: cs =>
    match splitLast cs with
    | some (before, after) => some (c :: before, after)
    | none => if c = ':' then some ([], cs) else none

/-- A precedence: an optional plus sign and digits, below `2 ^ 32`. -/
def precedence? (text : List Char) : Option Nat :=
  let digits := match text with
    | '+' :: digits => digits
    | _ => text
  if digits ≠ [] ∧ digits.all Char.isDigit then
    let n := digits.foldl (fun n c => 10 * n + (c.toNat - '0'.toNat)) 0
    if n < UInt32.size then some n else none
  else none

/-- Reads an operator. -/
def ofString? (spec : String) : Except SpecFailure OperatorSpec :=
  let (rest, right) := dropRight spec.toList
  match splitLast rest with
  | none => .error (.missingPrecedence spec)
  | some (op, precedence) =>
    if op = [] then .error .emptyOperator
    else match precedence? precedence with
      | none => .error (.invalidPrecedence (String.ofList precedence))
      | some n => .ok ⟨String.ofList op, n, right⟩

/-- Writes an operator. -/
def toText (s : OperatorSpec) : String :=
  s.op ++ ":" ++ toString s.precedence ++ (if s.right then ":right" else "")

end OperatorSpec

end OperatorGrammar
