/-
OperatorGrammar/Report/Window.lean

Which columns of the code lines are shown when they do not all fit.

Design.  A report is laid out for a terminal of 140 columns.  Deep indentation is
cut in any case.  When the lines are still too wide, the window is chosen so as
to keep the marked columns: by cutting indentation alone, else around the marks.
-/
import OperatorGrammar.Report.Line

namespace OperatorGrammar.Report

/-- The columns that a report is laid out for. -/
def terminalWidth : Nat := 140

/-- The columns of code that are shown. -/
structure Window where
  left : Nat
  right : Nat
  /-- How many columns there is room for. -/
  room : Nat
  deriving DecidableEq, Repr

namespace Window

/-- The room kept around marks for the dots that stand for what was cut. -/
def padding : Nat := 6

/-- The indentation that all lines with text share; zero when none has text. -/
def indentation (texts : List (List Char)) : Nat :=
  ((texts.filter fun t => t.any (!isSpace ·)).map fun t =>
    ((t.takeWhile isSpace).map fun c => if c = '\t' then 4 else 1).foldr (· + ·) 0).min?.getD 0

/-- Chooses the window for some lines, the least and the greatest marked column, and
the room that there is.  Indentation is cut only up to the first marked column. -/
def choose (texts : List (List Char)) (least greatest room : Nat) : Window :=
  let indent := min (indentation texts) least - padding
  let first := least - padding
  let last := greatest + padding
  let widest := (texts.map textWidth).foldl max 0
  let left := if indent > 20 then indent - 16 else 0
  let right := max widest left
  if right - left ≤ room then ⟨left, right, room⟩
  else if last - indent ≤ room then ⟨indent, indent + room, room⟩
  else if last - first ≤ room then
    let left := first - (room - (last - first)) / 2
    ⟨left, left + room, room⟩
  else ⟨first, last, room⟩

/-- The first column shown of a line of some width. -/
def leftOf (w : Window) (width : Nat) : Nat :=
  min w.left width

/-- The column behind the last one shown of a line of some width. -/
def rightOf (w : Window) (width : Nat) : Nat :=
  if width - w.left ≤ w.room then width else min width w.right

end Window

/-- What stands for code that was cut. -/
def dots : List Char := ['.', '.', '.']

/-- Drops characters until some columns are dropped; the columns really dropped are
the second part. -/
def dropColumns (count : Nat) : Nat → List Char → List Char × Nat
  | dropped, [] => ([], dropped)
  | dropped, c :: cs =>
    if dropped < count then dropColumns count (dropped + width c) cs else (c :: cs, dropped)

/-- Takes characters as long as they fit into some columns. -/
def takeColumns : Nat → List Char → List Char
  | _, [] => []
  | count, c :: cs => if width c ≤ count then c :: takeColumns (count - width c) cs else []

/-- How many characters it takes to fill the columns of the dots, and the columns
that they fill. -/
def underDots (chars columns : Nat) : List Char → Nat × Nat
  | [] => (chars, columns)
  | c :: cs =>
    if dots.length ≤ columns + width c then (chars + 1, columns + width c)
    else underDots (chars + 1) (columns + width c) cs

end OperatorGrammar.Report
