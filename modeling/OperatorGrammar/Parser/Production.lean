/-
OperatorGrammar/Parser/Production.lean

The productions: white space, binary chains, operands, links, lists, groups and
whole programs.

Design.  A production that contains expressions or operands re-enters the
grammar (`Reading.reenter`), and a loop counts its rounds down from the budget.
Every round of a loop moves the cursor forward or is the last one, so the budget
is never what ends a reading without callbacks of its own.

The points at which callbacks are called:

    blanks           after each run of white space, again as long as they move on
    expression       before an expression is read from the text
    expressionDone   after an expression and the white space behind it
    operand          before an operand is read from the text
    operandDone      after an operand, except a number
-/
import OperatorGrammar.Parser.Lexeme
import OperatorGrammar.Parser.Chain
import OperatorGrammar.Parser.Slots

namespace OperatorGrammar

/-- The three forms of a link. -/
inductive LinkForm where
  | property
  | index
  | call
  deriving DecidableEq, Repr

/-- The form of link that a character opens. -/
def LinkForm.ofChar? : Char → Option LinkForm
  | '.' => some property
  | '[' => some index
  | '(' => some call
  | _ => none

namespace Reading

/-! ### White space -/

/-- Skips white space and whatever the callbacks skip, until neither moves on. -/
def skipBlanksWithin : Nat → Reading Unit
  | 0 => exhausted
  | n + 1 => do
    let place ← cursor
    let before := place.skipWhile Grammar.isBlank place.index
    moveTo before
    let _ ← notify .blanks none
    let after := (← cursor).index
    if after = before then pure () else skipBlanksWithin n

/-- Skips white space and whatever the callbacks skip. -/
def skipBlanks : Reading Unit := do
  skipBlanksWithin (← budget)

/-! ### Binary chains -/

/-- A binary operator, if one comes next. -/
def binaryOp : Reading (Option BinaryOp) := do
  skipBlanks
  let g ← grammar
  match Lexeme.binaryOperator g (← cursor) with
  | none => pure none
  | some symbol =>
    forward symbol.length
    pure (some ⟨symbol, g.precedence symbol, g.isRightAssociative symbol⟩)

/-- The operand after a binary operator, which must be there. -/
def rightOperand (op : BinaryOp) : Reading Expr := do
  match ← reenter .operand with
  | some e => pure e
  | none => failHere (.operand op.symbol)

/-- The further operators of a chain with their operands.  An operator of precedence
zero ends the chain and is put back. -/
def chainWithin : Nat → Array (BinaryOp × Expr) → Reading (List (BinaryOp × Expr))
  | 0, _ => exhausted
  | n + 1, found => do
    match ← binaryOp with
    | none => pure found.toList
    | some op =>
      if op.precedence = 0 then
        rewind op.symbol.length
        pure found.toList
      else
        let operand ← rightOperand op
        chainWithin n (found.push (op, operand))

/-- The operators of a chain with their operands.  The first operator may have any
precedence. -/
def chainRest : Reading (List (BinaryOp × Expr)) := do
  match ← binaryOp with
  | none => pure []
  | some op =>
    let operand ← rightOperand op
    chainWithin (← budget) #[(op, operand)]

/-- Operands and the binary operators between them. -/
def binaryExpression : Reading (Option Expr) := do
  match ← reenter .operand with
  | none => pure none
  | some first => pure (some (Chain.tree first (← chainRest)))

/-- One expression: supplied by a callback or read as a chain. -/
def expression : Reading (Option Expr) := nested do
  let node ← match ← search .expression with
    | some e => pure (some e)
    | none => binaryExpression
  skipBlanks
  notify .expressionDone node

/-! ### Programs and groups -/

/-- Expressions with separators around them, up to the end of the text or, inside a
group, up to its closing character. -/
def expressionsWithin (closer : Option Char) : Nat → Array Expr → Reading (List Expr)
  | 0, _ => exhausted
  | n + 1, found => do
    skipBlanks
    match ← current with
    | none => pure found.toList
    | some ch =>
      if ch = ';' ∨ ch = ',' then
        forward 1
        expressionsWithin closer n found
      else
        match ← reenter .expression with
        | some e => expressionsWithin closer n (found.push e)
        | none =>
          match ← current with
          | none => pure found.toList
          | some ch => if closer = some ch then pure found.toList else failHere (.unexpected ch)

/-- Expressions with separators around them. -/
def expressions (closer : Option Char) : Reading (List Expr) := do
  expressionsWithin closer (← budget) #[]

/-- A group: nothing, one expression, or a sequence, between parentheses. -/
def group : Reading (Option Expr) := do
  forward 1
  let nodes ← expressions (some ')')
  if (← current) = some ')' then
    forward 1
    pure (Expr.bundle .sequence nodes)
  else failHere .parenthesis

/-- A whole text. -/
def program : Reading (Option Expr) := do
  let _ ← notify .start none
  let nodes ← expressions none
  notify .finish (Expr.bundle .compound nodes)

/-! ### Lists -/

/-- The slots of a list up to its closing character. -/
def slotsWithin (kind : ListKind) : Nat → Slots → Reading (List (Option Expr))
  | 0, _ => exhausted
  | n + 1, slots => do
    skipBlanks
    match ← current with
    | none => failHere (.terminator kind.closer)
    | some ch =>
      if ch = kind.closer then
        forward 1
        if slots.closable kind then pure slots.items.toList else failHere (.separator ch)
      else if ch = ',' then
        forward 1
        match slots.comma kind with
        | some slots => slotsWithin kind n slots
        | none => failHere (.separator ch)
      else if slots.accepts then
        match ← reenter .expression with
        | some e => if e.isCompound then failHere .comma else slotsWithin kind n (slots.fill e)
        | none => failHere .comma
      else failHere .comma

/-- The slots of a list just opened. -/
def slots (kind : ListKind) : Reading (List (Option Expr)) := do
  slotsWithin kind (← budget) .empty

/-! ### Links -/

/-- The start of a link: its form and whether it is optional.  After `?.` a bracket or
parenthesis makes the link an index or a call, and anything else a property. -/
def linkStart : Reading (Option (LinkForm × Bool)) := do
  let place ← cursor
  match place.current with
  | none => pure none
  | some ch =>
    match LinkForm.ofChar? ch with
    | some form =>
      forward 1
      pure (some (form, false))
    | none =>
      if ch = '?' ∧ place.charAt (place.index + 1) = some '.' then
        forward 2
        skipBlanks
        match ← current with
        | some '[' =>
          forward 1
          pure (some (.index, true))
        | some '(' =>
          forward 1
          pure (some (.call, true))
        | _ => pure (some (.property, true))
      else pure none

/-- The rest of a link on a node. -/
def linkBody (node : Expr) : LinkForm → Reading Expr
  | .property => do
    skipBlanks
    let name ← scan Lexeme.name
    pure (.link node (.identifier name) false)
  | .index => do
    match ← reenter .expression with
    | none => failHere .expression
    | some e =>
      skipBlanks
      if (← current) = some ']' then
        forward 1
        pure (.link node e true)
      else failHere .bracket
  | .call => do
    let arguments ← slots .arguments
    pure (.apply node (arguments.filterMap id))

/-- The links after a node, with the white space behind each. -/
def linksWithin : Nat → Expr → Reading Expr
  | 0, _ => exhausted
  | n + 1, node => do
    match ← linkStart with
    | none => pure node
    | some (form, optional) =>
      let linked ← linkBody node form
      skipBlanks
      linksWithin n (if optional then linked.setOptional else linked)

/-- The links after a node. -/
def links (node : Expr) : Reading Expr := do
  skipBlanks
  linksWithin (← budget) node

/-! ### Operands -/

/-- An operand with its links, announced to the callbacks. -/
def linkedOperand (node : Option Expr) : Reading (Option Expr) := do
  match node with
  | none => notify .operandDone none
  | some node => notify .operandDone (some (← links node))

/-- A unary operator and its argument. -/
def unaryOperand (operator : String) : Reading (Option Expr) := do
  forward operator.length
  match ← reenter .operand with
  | none => failHere .unaryArgument
  | some argument => notify .operandDone (some (.signed operator argument))

/-- An operand that starts with a character. -/
def operandFrom (ch : Char) : Reading (Option Expr) := do
  let g ← grammar
  if Grammar.isDigit ch ∨ ch = '.' then
    let number ← scan Lexeme.number
    pure (some number)
  else if ch = '\'' ∨ ch = '"' then
    linkedOperand (some (← scan fun _ => Lexeme.string))
  else if ch = '[' then
    forward 1
    linkedOperand (some (.array (← slots .elements)))
  else
    match Lexeme.unaryOperator g (← cursor) with
    | some operator => unaryOperand operator
    | none =>
      if g.isIdentifierStart ch then
        linkedOperand (some (Lexeme.meaning g (← scan Lexeme.name)))
      else if ch = '(' then
        linkedOperand (← group)
      else
        linkedOperand none

/-- One operand: supplied by a callback or read from the text. -/
def operand : Reading (Option Expr) := nested do
  skipBlanks
  match ← search .operand with
  | some node => notify .operandDone (some node)
  | none =>
    match ← current with
    | none => notify .operandDone none
    | some ch => operandFrom ch

/-! ### Entries -/

/-- The production of an entry. -/
def production : Entry → Reading (Option Expr)
  | .blanks => do
    skipBlanks
    pure none
  | .operand => operand
  | .identifier => do
    let name ← scan Lexeme.name
    pure (some (.identifier name))
  | .expression => expression

end Reading

end OperatorGrammar
