/-
OperatorGrammar/Report/Excerpt.lean

Failures rendered against their source: the message, where it is, the line, and
a mark under the character.

Design.  What is to be marked is said as a range of bytes of the source, and
places are counted in characters, so the ends of the range are translated back.
A report is a list of rows.  The mark covers one character.  When that
character is the end of a line which is not the last, the mark reaches the next
line: it leaves the first line by underscores to the left, runs down beside the
code, and ends under the first column of the next line.  When only white space
stands before it, a slash beside the first line is enough.
-/
import OperatorGrammar.Failure
import OperatorGrammar.Report.Row
import OperatorGrammar.Report.Window

namespace OperatorGrammar.Report

/-- How a failure is reported. -/
structure Options where
  /-- The text that was read; without it only the message is shown. -/
  source : Option String
  /-- The name of the text. -/
  path : Option String
  coloured : Bool

/-- A range of bytes of a text. -/
structure ByteRange where
  start : Nat
  /-- The offset behind the last byte. -/
  stop : Nat
  deriving DecidableEq, Repr

/-- The characters of a text, each with the offset of its first byte. -/
def charIndices : Nat → List Char → List (Nat × Char)
  | _, [] => []
  | start, ch :: chs => (start, ch) :: charIndices (start + ch.utf8Size) chs

/-- The bytes of the character at an index: none, at the end, when the index is past the
last character. -/
def charSpan (source : String) (index : Nat) : ByteRange :=
  match (charIndices 0 source.toList)[index]? with
  | some (start, ch) => ⟨start, start + ch.utf8Size⟩
  | none => ⟨source.utf8ByteSize, source.utf8ByteSize⟩

/-- How many characters start in front of a byte. -/
def charsBefore : List Char → Nat → Nat
  | [], _ => 0
  | ch :: chs, byte => if byte = 0 then 0 else 1 + charsBefore chs (byte - ch.utf8Size)

/-- What the mark covers: from a place to a place. -/
structure Mark where
  start : Place
  stop : Place

/-- The mark for a range of bytes.  A mark that covers no column of its line covers one. -/
def markAt (source : List Char) (ls : List Line) (span : ByteRange) : Mark :=
  let low := charsBefore source span.start
  let high := charsBefore source span.stop
  let start := placeAt ls low
  let stop := if low = high then start else placeAt ls high
  if start.line.number = stop.line.number ∧ start.column = stop.column then
    ⟨start, { stop with column := stop.column + 1 }⟩
  else ⟨start, stop⟩

/-- Whether the mark reaches the next line. -/
def Mark.reachesOn (m : Mark) : Bool :=
  m.start.line.number ≠ m.stop.line.number

/-- The layout that all rows of a report share. -/
structure Layout where
  /-- The width of the line numbers. -/
  gutter : Nat
  /-- Whether there is room for a line beside the code. -/
  beside : Bool
  window : Window

/-- The column of the frame. -/
def Layout.frame (l : Layout) : Nat := l.gutter + 1

/-- The column of the line beside the code. -/
def Layout.rail (l : Layout) : Nat := l.gutter + 3

/-- The column at which code starts. -/
def Layout.code (l : Layout) : Nat := l.gutter + (if l.beside then 5 else 3)

/-- A row with nothing but the frame. -/
def Layout.blank (l : Layout) : Row :=
  Row.put [] l.frame ['|'] .frame

/-- A row of code, and the columns of the line that were cut on the left. -/
def Layout.codeRow (l : Layout) (line : Line) : Row × Nat :=
  let text := line.text.flatMap shown
  let total := textWidth text
  let left := l.window.leftOf total
  let right := l.window.rightOf total
  let (rest, dropped) := dropColumns left 0 text
  let code := takeColumns (right - left) rest
  let (chars, columns) := if l.window.left > 0 then underDots 0 0 code else (0, 0)
  let row := if l.window.left > 0 then Row.put [] l.code dots .frame else []
  let row := row.put (l.code + columns) (code.drop chars) .plain
  let row :=
    if right < total then
      row.put (l.code + columns + (code.length - chars) - (underDots 0 0 code.reverse).1) dots .frame
    else row
  let digits := Nat.toDigits 10 line.number
  let row := row.put 0 (List.replicate (l.gutter - digits.length) ' ' ++ digits) .frame
  (row.put l.frame ['|'] .frame, max left dropped)

/-- The rows of a mark on one line. -/
def Layout.markRows (l : Layout) (m : Mark) : List Row :=
  let (code, left) := l.codeRow m.start.line
  let carets := List.replicate (m.stop.column - m.start.column) '^'
  [code, l.blank.put (l.code + m.start.column - left) carets .alert]

/-- The rows of a mark that reaches the next line.  The blank where it turns down
beside the code is painted like the mark. -/
def Layout.markRowsOn (l : Layout) (m : Mark) : List Row :=
  let (first, left) := l.codeRow m.start.line
  let (second, cutLeft) := l.codeRow m.stop.line
  let ending := l.code + (m.stop.column - 1) - cutLeft
  let tail : List Row :=
    [second.put l.rail ['|'] .alert,
      ((l.blank.put l.rail ['|'] .alert).put (l.rail + 1)
        (List.replicate (ending - (l.rail + 1)) '_') .alert).put ending ['^'] .alert]
  if ((m.start.line.text.flatMap shown).take m.start.column).all isSpace then
    first.put l.rail ['/'] .alert :: tail
  else
    let beginning := l.code + m.start.column - left
    first
      :: ((l.blank.put l.rail (' ' :: List.replicate (beginning - (l.rail + 1)) '_') .alert).put
        beginning ['^'] .alert)
      :: tail

/-- The rows of the message: its further lines stand below its first. -/
def titleRows (description : String) : List Row :=
  let severity := "error".toList
  match (description.toList.flatMap shown).splitOn '\n' with
  | [] => []
  | first :: others =>
    (Row.put [] 0 severity .alert).put severity.length (':' :: ' ' :: first) .message
      :: others.map fun text =>
        (Row.put [] 0 (List.replicate (severity.length + 2) ' ') .plain).put (severity.length + 2)
          text .message

/-- The row that says where the mark starts. -/
def Layout.originRow (l : Layout) (path : String) (start : Place) : Row :=
  let origin := path ++ ":" ++ toString start.line.number ++ ":" ++ toString (start.char + 1)
  (Row.put [] l.gutter ['-', '-', '>', ' '] .frame).put (l.gutter + 4) origin.toList .plain

/-- The rows of a report against a source.  The line numbers get as much room as the
number of the last line that the text up to the end of the mark has; a line feed at the
very end of that text begins no further line. -/
def rows (failure : Failure) (source : String) (path : Option String) : List Row :=
  let text := source.toList
  let ls := lines text
  let span := charSpan source failure.index
  let m := markAt text ls span
  let covered := lines (text.take (charsBefore text span.stop))
  let gutter := (Nat.toDigits 10 covered.length).length
  let beside := m.reachesOn
  let texts := if beside then [m.start.line.text, m.stop.line.text] else [m.start.line.text]
  let greatest := max m.stop.column (if beside then m.start.column + 1 else m.start.column)
  let least := if beside then min (m.stop.column - 1) m.start.column else m.start.column
  let room := terminalWidth - (gutter + (if beside then 5 else 3))
  let layout : Layout := ⟨gutter, beside, .choose texts least greatest room⟩
  titleRows failure.description
    ++ (path.map fun p => layout.originRow p m.start).toList
    ++ layout.blank :: (if beside then layout.markRowsOn m else layout.markRows m)

/-- Renders a failure; there is no line feed at the end. -/
def render (failure : Failure) (options : Options) : String :=
  match options.source with
  | none => failure.message
  | some source =>
    "\n".intercalate ((rows failure source options.path).map
      (if options.coloured then Row.coloured else Row.plain))

end OperatorGrammar.Report
