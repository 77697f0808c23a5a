/-
OperatorGrammar/Report/Row.lean

Rows of painted characters, and their text with or without colour.

Design.  A row is filled by putting text at a column, over what stands there;
columns that nothing was put at show a plain space.  Colour is added last: each
stretch of one paint is opened and closed by terminal codes.
-/

namespace OperatorGrammar.Report

/-- How a character is painted. -/
inductive Paint where
  | plain
  /-- Line numbers and the lines of the frame. -/
  | frame
  /-- The word for the severity, and the marks under the text. -/
  | alert
  /-- The message. -/
  | message
  deriving DecidableEq, Repr

/-- The codes that open a paint: bold, and for some a bright colour. -/
def Paint.codes : Paint → String
  | plain => ""
  | frame => "\x1b[1m\x1b[94m"
  | alert => "\x1b[1m\x1b[91m"
  | message => "\x1b[1m"

/-- The code that closes a paint. -/
def Paint.close : Paint → String
  | plain => ""
  | _ => "\x1b[0m"

/-- A painted character. -/
structure Cell where
  ch : Char
  paint : Paint
  deriving DecidableEq

/-- A row of painted characters. -/
abbrev Row := List Cell

/-- Puts a text at a column, over what stands there. -/
def Row.put (row : Row) (column : Nat) (text : List Char) (paint : Paint) : Row :=
  if text.isEmpty then row
  else
    row.take column ++ List.replicate (column - row.length) ⟨' ', .plain⟩
      ++ text.map (⟨·, paint⟩) ++ row.drop (column + text.length)

/-- The text of a row without colour. -/
def Row.plain (row : Row) : String :=
  String.ofList (row.map Cell.ch)

/-- The text of a row from a paint that is open. -/
def Row.colouredFrom (opened : Paint) : Row → List Char
  | [] => opened.close.toList
  | cell :: row =>
    (if cell.paint = opened then [cell.ch]
      else opened.close.toList ++ cell.paint.codes.toList ++ [cell.ch])
      ++ Row.colouredFrom cell.paint row

/-- The text of a row with colour. -/
def Row.coloured (row : Row) : String :=
  String.ofList (Row.colouredFrom .plain row)

end OperatorGrammar.Report
