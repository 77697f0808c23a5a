/-
OperatorGrammar/Decimal/Shortest.lean

The shortest decimal numeral that reads back as a given float.

Design.  A positive finite float is `m · 2 ^ q`.  Every real number between the
two points half way to its neighbours reads back as it, the two points included
iff `m` is even.  In units of `2 ^ (q - 2)` the float is `4 m` and these points
are whole numbers, so that all comparisons are between whole numbers.

The numerals with `p` as the exponent of their last digit form a grid.  The
grids are tried from the coarsest to finer ones; on each the two grid points
around the float are tested, and the first grid with a hit wins.  When both
points are hits, the nearer one is taken; on an exact tie the caller says which.
-/
import OperatorGrammar.Decimal.Reader

namespace OperatorGrammar.Decimal

/-- A positive finite float, `mantissa · 2 ^ exponent`. -/
structure Binary where
  mantissa : Nat
  exponent : Int
  /-- Whether the next lower float is only half as far away as the next higher one. -/
  atStep : Bool
  deriving Repr

/-- The magnitude of a float from its bit pattern: its class and, when it is
finite, its mantissa and exponent. -/
inductive Magnitude where
  | zero
  | finite (value : Binary)
  | infinite
  | undefined

/-- Reads the eleven exponent bits and the fifty-two mantissa bits. -/
def Magnitude.ofFloat (x : Float) : Magnitude :=
  let bits := x.toBits.toNat
  let power : Nat := (bits >>> 52) % (1 <<< 11)
  let low := bits % (1 <<< 52)
  if power = 2047 then (if low = 0 then .infinite else .undefined)
  else if power = 0 then (if low = 0 then .zero else .finite ⟨low, -1074, false⟩)
  else .finite ⟨low + (1 <<< 52), (power : Int) - 1075, low = 0 ∧ power ≠ 1⟩

/-- Whether the sign bit is set. -/
def signBit (x : Float) : Bool :=
  x.toBits.toNat ≥ UInt64.size / 2

/-- Which of two equally near numerals is taken. -/
inductive Tie where
  | up
  | even

namespace Binary

/-- The two ends of the interval that reads back, in units of `2 ^ (exponent - 2)`. -/
def low (b : Binary) : Nat := 4 * b.mantissa - (if b.atStep then 1 else 2)
def high (b : Binary) : Nat := 4 * b.mantissa + 2

/-- A point `d` of the grid of `10 ^ p` lies at `d · gridScale` when a unit of
`2 ^ (exponent - 2)` is drawn `unitScale` long. -/
def gridScale (b : Binary) (p : Int) : Nat := Nat.pow 10 p.toNat <<< (2 - b.exponent).toNat
def unitScale (b : Binary) (p : Int) : Nat := Nat.pow 10 (-p).toNat <<< (b.exponent - 2).toNat

/-- Whether the grid point `d · 10 ^ p` reads back as the float. -/
def readsBack (b : Binary) (p : Int) (d : Nat) : Bool :=
  let point := d * b.gridScale p
  let low := b.low * b.unitScale p
  let high := b.high * b.unitScale p
  if b.mantissa % 2 = 0 then low ≤ point && point ≤ high else low < point && point < high

/-- The hit on one grid, if there is one. -/
def hit (b : Binary) (tie : Tie) (p : Int) : Option Nat :=
  let value := 4 * b.mantissa * b.unitScale p
  let below := value / b.gridScale p
  let above := below + 1
  match b.readsBack p below, b.readsBack p above with
  | false, false => none
  | true, false => some below
  | false, true => some above
  | true, true =>
    let down := value - below * b.gridScale p
    let up := above * b.gridScale p - value
    if down < up then some below
    else if up < down then some above
    else match tie with
      | .up => some above
      | .even => if below % 2 = 0 then some below else some above

/-- Tries the grids `p`, `p - 1`, … for a hit. -/
def search (b : Binary) (tie : Tie) : Nat → Int → Option Numeral
  | 0, _ => none
  | n + 1, p =>
    match b.hit tie p with
    | some d => some ⟨d, p⟩
    | none => b.search tie n (p - 1)

/-- An exponent of ten above the float: `30103 / 100000` is `log₁₀ 2` to five places. -/
def ceiling (b : Binary) : Int :=
  (b.exponent + b.mantissa.log2 + 1) * 30103 / 100000 + 2

/-- The shortest numeral that reads back.  Seventeen digits always do, so the
search ends well within forty grids. -/
def shortest (b : Binary) (tie : Tie) : Numeral :=
  (b.search tie 40 b.ceiling).getD ⟨b.mantissa, 0⟩

end Binary

end OperatorGrammar.Decimal
