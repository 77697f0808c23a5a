/-
OperatorGrammar/Decimal/Reader.lean

Reading a decimal numeral as a 64-bit float: digits, an optional point with
digits after it, an optional exponent.

Design.  The numeral is first taken apart into whole numbers, an exact
significand and a decimal exponent, and only then rounded, once.  A numeral may
name an exponent of any size, so the rounding looks at the number of digits
first: far above the largest float the answer is infinity and far below the
least one it is zero, and no power of ten of that size is ever computed.
-/

namespace OperatorGrammar.Decimal

/-- The number that a row of decimal digits names. -/
def ofDigits (digits : List Char) : Nat :=
  digits.foldl (fun n c => 10 * n + (c.toNat - '0'.toNat)) 0

/-- The decimal digits of a number, none in front that is not needed. -/
def digitsOf (n : Nat) : List Char :=
  Nat.toDigits 10 n

/-- A decimal numeral taken apart: it stands for `significand · 10 ^ exponent`. -/
structure Numeral where
  significand : Nat
  exponent : Int
  deriving DecidableEq, Repr

/-- The exponent part: nothing at all, or a mark, an optional sign and at least
one digit. -/
def exponentOf : List Char → Option Int
  | [] => some 0
  | mark :: rest =>
    if mark = 'e' ∨ mark = 'E' then
      match rest with
      | '-' :: digits => if digits ≠ [] ∧ digits.all Char.isDigit then some (-(ofDigits digits : Int)) else none
      | '+' :: digits => if digits ≠ [] ∧ digits.all Char.isDigit then some (ofDigits digits) else none
      | digits => if digits ≠ [] ∧ digits.all Char.isDigit then some (ofDigits digits) else none
    else none

/-- Takes a numeral apart; `none` when the text is not a numeral. -/
def numeralOf (text : List Char) : Option Numeral :=
  let whole := text.takeWhile Char.isDigit
  let rest := text.dropWhile Char.isDigit
  let (fraction, tail) :=
    match rest with
    | '.' :: more => (more.takeWhile Char.isDigit, more.dropWhile Char.isDigit)
    | _ => ([], rest)
  if whole = [] ∧ fraction = [] then none
  else (exponentOf tail).map fun e =>
    ⟨ofDigits (whole ++ fraction), e - fraction.length⟩

/-- No float but zero lies below `10 ^ (-400)`, and none but infinity above `10 ^ 400`. -/
def Numeral.farthest : Int := 400

/-- The float nearest to the numeral, a tie going to the even one. -/
def Numeral.toFloat (n : Numeral) : Float :=
  let magnitude := (digitsOf n.significand).length + n.exponent
  if n.significand = 0 ∨ magnitude < -Numeral.farthest then Float.ofBits 0
  else if magnitude > Numeral.farthest then Float.ofBits 0x7FF0000000000000
  else if n.exponent < 0 then Float.ofScientific n.significand true n.exponent.natAbs
  else Float.ofScientific n.significand false n.exponent.natAbs

/-- Reads a numeral as a float. -/
def read (text : List Char) : Option Float :=
  (numeralOf text).map Numeral.toFloat

end OperatorGrammar.Decimal
