/-
OperatorGrammar/Report/Line.lean

The lines of a source, and places on them.

Design.  Lines end at a line feed, and a carriage return right before it belongs
to the end of the line.  A source that ends with a line feed has no further,
empty line behind it; only the empty source has an empty line.  A place past
every line is on the last one.
-/
import OperatorGrammar.Report.Shown

namespace OperatorGrammar.Report

/-- A line of a source. -/
structure Line where
  /-- Counted from one. -/
  number : Nat
  /-- The line without its end. -/
  text : List Char
  /-- The offset of the line in the source. -/
  start : Nat
  /-- The offset behind the end of the line. -/
  stop : Nat
  deriving Inhabited

/-- Cuts a source behind each line feed. -/
def cut : List Char → List (List Char)
  | [] => []
  | c :: cs =>
    if c = '\n' then [c] :: cut cs
    else match cut cs with
      | [] => [[c]]
      | piece :: pieces => (c :: piece) :: pieces

/-- A piece without the end of the line. -/
def trimEnd (piece : List Char) : List Char :=
  match piece.reverse with
  | '\n' :: '\r' :: rest => rest.reverse
  | '\n' :: rest => rest.reverse
  | _ => piece

/-- Numbers the pieces of a source. -/
def number : Nat → Nat → List (List Char) → List Line
  | _, _, [] => []
  | n, start, piece :: pieces =>
    ⟨n, trimEnd piece, start, start + piece.length⟩ :: number (n + 1) (start + piece.length) pieces

/-- The lines of a source. -/
def lines (source : List Char) : List Line :=
  match cut source with
  | [] => [⟨1, [], 0, 0⟩]
  | pieces => number 1 0 pieces

/-- The line at an offset. -/
def lineAt (ls : List Line) (offset : Nat) : Line :=
  (ls.find? fun l => l.start ≤ offset && offset < l.stop).getD (ls.getLastD default)

/-- A place on a line. -/
structure Place where
  line : Line
  /-- The column in characters, from zero. -/
  char : Nat
  /-- The column as shown, from zero. -/
  column : Nat

/-- The place of an offset.  An offset inside the end of a line counts as one more
character. -/
def placeAt (ls : List Line) (offset : Nat) : Place :=
  let line := lineAt ls offset
  let before := line.text.take (offset - line.start)
  ⟨line, before.length + (if line.start + line.text.length < offset then 1 else 0), textWidth before⟩

end OperatorGrammar.Report
