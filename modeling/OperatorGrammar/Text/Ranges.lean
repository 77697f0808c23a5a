/-
OperatorGrammar/Text/Ranges.lean

Sets of characters given by an ascending list of the code points at which
membership changes: the first is the least member, the second the least
non-member above it, and so on.
-/

namespace OperatorGrammar.Text

/-- Whether a code point has passed an odd number of changes. -/
def changedAt (inside : Bool) : List Nat → Nat → Bool
  | [], _ => inside
  | change :: changes, code => if code < change then inside else changedAt (!inside) changes code

/-- Membership of a character in a set given by its changes. -/
def memRanges (changes : List Nat) (c : Char) : Bool :=
  changedAt false changes c.toNat

end OperatorGrammar.Text
