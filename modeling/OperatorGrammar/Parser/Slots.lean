/-
OperatorGrammar/Parser/Slots.lean

The rules for what stands between two brackets: the arguments of a call and the
elements of an array.

Design.  A list is either separated by commas throughout or by spaces
throughout.  The rules look only at how many slots are filled and how many commas
were met, so they are kept apart from the reading of the text.  Only an array
may leave a slot empty.
-/
import OperatorGrammar.Expr.Basic

namespace OperatorGrammar

/-- Which list is being read. -/
inductive ListKind where
  | arguments
  | elements
  deriving DecidableEq, Repr

/-- The character that closes a list. -/
def ListKind.closer : ListKind → Char
  | arguments => ')'
  | elements => ']'

/-- The slots of a list so far. -/
structure Slots where
  items : Array (Option Expr)
  commas : Nat

namespace Slots

/-- A list just opened. -/
def empty : Slots := ⟨#[], 0⟩

/-- As many slots as commas: the ones too many are dropped, the missing ones are holes. -/
def resize (items : Array (Option Expr)) (count : Nat) : Array (Option Expr) :=
  items.take count ++ Array.replicate (count - items.size) none

/-- Takes a comma.  One that does not follow a filled slot makes a hole in an
array and is refused in a call. -/
def comma (kind : ListKind) (s : Slots) : Option Slots :=
  let commas := s.commas + 1
  if commas = s.items.size then some ⟨s.items, commas⟩
  else match kind with
    | .arguments => none
    | .elements => some ⟨resize s.items commas, commas⟩

/-- Whether a slot may be filled next: no comma so far, or one since the last filled slot. -/
def accepts (s : Slots) : Bool :=
  s.items.size = s.commas || s.commas = 0

/-- Fills the next slot. -/
def fill (s : Slots) (e : Expr) : Slots :=
  { s with items := s.items.push (some e) }

/-- Whether the list may be closed: a call may not end in a comma. -/
def closable (kind : ListKind) (s : Slots) : Bool :=
  match kind with
  | .arguments => s.commas = 0 || s.commas < s.items.size
  | .elements => true

end Slots

end OperatorGrammar
