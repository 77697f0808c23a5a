/-
OperatorGrammar/Parser/Lexeme.lean

Numbers, strings, names and operators: the pieces of a text that are read
without looking at callbacks.

Design.  Each scanner is a pure function from a cursor to a `Scan`, the offset
where it stopped and what it found.  A failure is always reported where the
scanner stopped, so a `Scan` holds only its cause.
-/
import OperatorGrammar.Parser.Callback
import OperatorGrammar.Decimal.Reader

namespace OperatorGrammar

/-- Where a scanner stopped, and what it found. -/
structure Scan (α : Type) where
  index : Nat
  result : Except Cause α

namespace Lexeme

/-! ### Numbers -/

/-- The offset after digits, and after a point with more digits. -/
def significandEnd (c : Cursor) : Nat :=
  let whole := c.skipWhile Grammar.isDigit c.index
  if c.charAt whole = some '.' then c.skipWhile Grammar.isDigit (whole + 1) else whole

/-- The offset at which the digits of an exponent start, when there is an exponent mark. -/
def exponentStart (c : Cursor) (i : Nat) : Option Nat :=
  match c.charAt i with
  | some mark =>
    if mark = 'e' ∨ mark = 'E' then
      match c.charAt (i + 1) with
      | some sign => some (if sign = '+' ∨ sign = '-' then i + 2 else i + 1)
      | none => some (i + 1)
    else none
  | none => none

/-- A number that ends at an offset, after a look at what follows it. -/
def numberAt (g : Grammar) (c : Cursor) (stop : Nat) : Scan Expr :=
  let raw := c.slice c.index stop
  ⟨stop,
    match c.charAt stop with
    | some next =>
      if g.isIdentifierStart next then .error (.nameAfterNumber raw next)
      else if next = '.' ∨ raw = "." then .error .period
      else value raw
    | none => if raw = "." then .error .period else value raw⟩
where
  value (raw : String) : Except Cause Expr :=
    match Decimal.read raw.toList with
    | some x => .ok (.literal (.number x) raw)
    | none => .error (.number raw)

/-- A number: `12`, `3.4`, `.5`, `1e-3`. -/
def number (g : Grammar) (c : Cursor) : Scan Expr :=
  let stop := significandEnd c
  match exponentStart c stop with
  | none => numberAt g c stop
  | some digits =>
    let stop := c.skipWhile Grammar.isDigit digits
    if stop = digits then ⟨stop, .error (.exponent (c.slice c.index stop) (c.charAt stop))⟩
    else numberAt g c stop

/-! ### Strings -/

/-- What a backslash and a character stand for. -/
def unescape : Char → Char
  | 'n' => '\n'
  | 'r' => '\r'
  | 't' => '\t'
  | 'b' => '\x08'
  | 'f' => '\x0c'
  | 'v' => '\x0b'
  | other => other

/-- The rest of a string after its opening quote: the offset after the closing
quote with the value, or the end of the text with what was read so far.  At most
`n` characters or pairs are looked at. -/
def stringBody (text : Array Char) (quote : Char) : Nat → Nat → List Char → Scan String
  | 0, i, value => ⟨i, .error (.quote (String.ofList value.reverse))⟩
  | n + 1, i, value =>
    match text[i]? with
    | none => ⟨i, .error (.quote (String.ofList value.reverse))⟩
    | some ch =>
      if ch = quote then ⟨i + 1, .ok (String.ofList value.reverse)⟩
      else if ch = '\\' then
        match text[i + 1]? with
        | none => ⟨i + 1, .error (.quote (String.ofList value.reverse))⟩
        | some escaped => stringBody text quote n (i + 2) (unescape escaped :: value)
      else stringBody text quote n (i + 1) (ch :: value)

/-- A string between two equal quotes. -/
def string (c : Cursor) : Scan Expr :=
  match c.current with
  | none => ⟨c.index, .error .endOfInput⟩
  | some quote =>
    let body := stringBody c.text quote (c.text.size - c.index) (c.index + 1) []
    ⟨body.index, body.result.map fun value => .literal (.string value) (c.slice c.index body.index)⟩

/-! ### Names -/

/-- A name: the longest run of identifier characters. -/
def name (g : Grammar) (c : Cursor) : Scan String :=
  match c.current with
  | none => ⟨c.index, .error .endOfInput⟩
  | some first =>
    if g.isIdentifierStart first then
      let stop := c.skipWhile g.isIdentifierPart (c.index + 1)
      ⟨stop, .ok (c.slice c.index stop)⟩
    else ⟨c.index, .error (.identifier first)⟩

/-- What a name stands for as an operand: a literal, the receiver, or itself. -/
def meaning (g : Grammar) (name : String) : Expr :=
  match g.literal? name with
  | some value => .literal value name
  | none => if name = g.receiverKeyword then .receiver else .identifier name

/-! ### Operators -/

/-- Whether the next `length` characters are an operator.  An operator that starts
like a name must not run into one. -/
def operatorOfLength (g : Grammar) (known : String → Bool) (c : Cursor) (length : Nat) :
    Option String :=
  let candidate := c.slice c.index (c.index + length)
  let wordLike := c.current.any g.isIdentifierStart
  if known candidate && !(wordLike && (c.charAt (c.index + length)).any g.isIdentifierPart) then
    some candidate
  else none

/-- The longest operator at the cursor of at most `n` characters. -/
def operatorUpTo (g : Grammar) (known : String → Bool) (c : Cursor) : Nat → Option String
  | 0 => none
  | n + 1 => (operatorOfLength g known c (n + 1)).or (operatorUpTo g known c n)

/-- The longest unary operator at the cursor. -/
def unaryOperator (g : Grammar) (c : Cursor) : Option String :=
  operatorUpTo g g.isUnaryOp c (min g.longestUnary c.remaining)

/-- The longest binary operator at the cursor. -/
def binaryOperator (g : Grammar) (c : Cursor) : Option String :=
  operatorUpTo g g.isBinaryOp c (min g.longestBinary c.remaining)

end Lexeme

/-- Runs a scanner at the cursor, leaves the cursor where the scanner stopped, and
fails there when it found nothing. -/
def Reading.scan {α : Type} (scanner : Grammar → Cursor → Scan α) : Reading α := do
  let found := scanner (← grammar) (← cursor)
  moveTo found.index
  match found.result with
  | .ok value => pure value
  | .error cause => failHere cause

end OperatorGrammar
