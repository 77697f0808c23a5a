/-
OperatorGrammar/Decimal/Style.lean

How a float is written.  All styles write the digits of the shortest numeral
that reads back; a style fixes where positional notation ends, whether a whole
number keeps a zero after the point, which of two equally near numerals is
taken, and the texts of the values that are no numerals.

Two styles are in use: `Style.display`, for values shown to a reader, and
`Style.data`, for numbers inside a data format.
-/
import OperatorGrammar.Decimal.Shortest

namespace OperatorGrammar.Decimal

/-- The decisions of a number format. -/
structure Style where
  tie : Tie
  /-- Exponents of the leading digit that are written in positional notation. -/
  positional : Int → Bool
  /-- Text after the digits of a whole number in positional notation. -/
  wholeTail : String
  /-- Text of an infinite value, by its sign. -/
  infinite : (negative : Bool) → String
  undefined : String

/-- Shown values: never an exponent, no point in a whole number, a tie goes up. -/
def Style.display : Style :=
  { tie := .up, positional := fun _ => true, wholeTail := ""
    infinite := fun negative => if negative then "-inf" else "inf", undefined := "NaN" }

/-- Numbers in a data format: positional from `10 ^ (-5)` to below `10 ^ 16`, with at
least one digit after the point; a tie goes to the even numeral.  The format has no
word for a value that is no number, so that such a value is null. -/
def Style.data : Style :=
  { tie := .even, positional := fun e => -5 ≤ e && e < 16, wholeTail := ".0"
    infinite := fun _ => "null", undefined := "null" }

/-- The exponent of the leading digit. -/
def Numeral.leading (n : Numeral) : Int :=
  n.exponent + (digitsOf n.significand).length - 1

/-- Positional notation. -/
def Numeral.positional (n : Numeral) (wholeTail : String) : String :=
  let digits := digitsOf n.significand
  if 0 ≤ n.exponent then
    String.ofList (digits ++ List.replicate n.exponent.toNat '0') ++ wholeTail
  else
    let places := n.exponent.natAbs
    if places < digits.length then
      String.ofList (digits.take (digits.length - places) ++ '.' :: digits.drop (digits.length - places))
    else
      String.ofList ('0' :: '.' :: (List.replicate (places - digits.length) '0' ++ digits))

/-- One digit, the others after a point, and an exponent with its sign. -/
def Numeral.scientific (n : Numeral) : String :=
  let digits := digitsOf n.significand
  let fraction := if digits.length ≤ 1 then [] else '.' :: digits.drop 1
  let sign := if n.leading < 0 then "e-" else "e+"
  String.ofList (digits.take 1 ++ fraction) ++ sign ++ String.ofList (digitsOf n.leading.natAbs)

/-- Writes a float in a style. -/
def Style.write (style : Style) (x : Float) : String :=
  let sign := if signBit x then "-" else ""
  match Magnitude.ofFloat x with
  | .undefined => style.undefined
  | .infinite => style.infinite (signBit x)
  | .zero => sign ++ "0" ++ style.wholeTail
  | .finite b =>
    let n := b.shortest style.tie
    sign ++ (if style.positional n.leading then n.positional style.wholeTail else n.scientific)

end OperatorGrammar.Decimal
