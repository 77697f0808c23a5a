/-
OperatorGrammar/Report/Shown.lean

How characters of a source are shown in a report, and how wide they are then.

Design.  A tab is shown as four spaces, so that columns do not hang on the
terminal.  Control characters are shown by the pictures that stand for them, and
characters that change the direction of text by the replacement character.  A
joiner is left out, so that the characters around it stand apart.
-/
import OperatorGrammar.Text.Width

namespace OperatorGrammar.Report

/-- Whether a character changes the direction of the text around it. -/
def changesDirection (c : Char) : Bool :=
  (0x202A ≤ c.toNat && c.toNat ≤ 0x202E) || (0x2066 ≤ c.toNat && c.toNat ≤ 0x2069)

/-- Whether a character is shown by its picture: a control character other than tab
and line feed. -/
def hasPicture (c : Char) : Bool :=
  (c.toNat < 0x20 && c ≠ '\t' && c ≠ '\n') || c.toNat = 0x7F

/-- The picture of a control character. -/
def picture (c : Char) : Char :=
  if c.toNat = 0x7F then Char.ofNat 0x2421 else Char.ofNat (0x2400 + c.toNat)

/-- What is shown for a character. -/
def shown (c : Char) : List Char :=
  if c = '\t' then [' ', ' ', ' ', ' ']
  else if hasPicture c then [picture c]
  else if c.toNat = 0x200D then []
  else if changesDirection c then [Char.ofNat 0xFFFD]
  else [c]

/-- How many columns a character takes when shown. -/
def width (c : Char) : Nat :=
  if c = '\t' then 4
  else if hasPicture c || changesDirection c then 1
  else Text.columns c

/-- How many columns a text takes when shown. -/
def textWidth (text : List Char) : Nat :=
  (text.map width).foldr (· + ·) 0

/-- White space of any script. -/
def isSpace (c : Char) : Bool :=
  let n := c.toNat
  (9 ≤ n && n ≤ 13) || n = 0x20 || n = 0x85 || n = 0xA0 || n = 0x1680
    || (0x2000 ≤ n && n ≤ 0x200A) || n = 0x2028 || n = 0x2029 || n = 0x202F || n = 0x205F
    || n = 0x3000

end OperatorGrammar.Report
