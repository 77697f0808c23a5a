/-
OperatorGrammar/Parser/Reading.lean

Readings: steps that move a cursor through a text, may fail, and may leave notes.

Design.  A reading gets a `Context`, which is the same throughout one level, and
a `State`.  It answers with a value, with a failure, or with
`exhausted`: the callbacks did not come to rest within the budget.  The last is
an answer of its own, so that it is never taken for a syntax error.  A failure
keeps the state in which it arose, because a callback may catch it and go on
from there.

Expressions contain operands and operands contain expressions.  Instead of
calling each other, the productions re-enter through the context, whose `enter`
is the same grammar on a smaller budget.  A production is thus a
plain definition, and the knot is tied once.
-/
import OperatorGrammar.Dialect

namespace OperatorGrammar

/-- What changes while a text is read. -/
structure State where
  /-- The offset of the cursor. -/
  index : Nat
  /-- How many expressions and operands are open. -/
  depth : Nat
  /-- The notes left so far. -/
  notes : Array Note

/-- The state before anything is read. -/
def State.initial : State := ⟨0, 0, #[]⟩

/-- The answer of a reading. -/
inductive Reply (α : Type) where
  | ok (value : α) (state : State)
  | fail (failure : Failure) (state : State)
  | exhausted

/-- What a reading may use. -/
structure Context where
  dialect : Dialect
  text : Array Char
  /-- A bound on the rounds of each loop. -/
  budget : Nat
  /-- The grammar itself, on a smaller budget. -/
  enter : Entry → State → Reply (Option Expr)

/-- A step that answers an `α`. -/
def Reading (α : Type) := Context → State → Reply α

namespace Reading

/-- A value changes nothing; a reading after another runs on its value and state,
unless the first one fails. -/
@[always_inline] instance : Monad Reading where
  pure a := fun _ s => .ok a s
  bind x f := fun c s =>
    match x c s with
    | .ok a s => f a c s
    | .fail e s => .fail e s
    | .exhausted => .exhausted

/-- The budget ran out. -/
def exhausted {α : Type} : Reading α :=
  fun _ _ => .exhausted

/-- Fails with a given failure. -/
def raise {α : Type} (failure : Failure) : Reading α :=
  fun _ s => .fail failure s

/-- Fails at the cursor. -/
def failHere {α : Type} (cause : Cause) : Reading α :=
  fun _ s => .fail ⟨cause, s.index⟩ s

/-- The tables. -/
def grammar : Reading Grammar :=
  fun c s => .ok c.dialect.grammar s

/-- The cursor. -/
def cursor : Reading Cursor :=
  fun c s => .ok ⟨c.text, s.index⟩ s

/-- The character at the cursor. -/
def current : Reading (Option Char) :=
  fun c s => .ok c.text[s.index]? s

/-- The bound on the rounds of a loop. -/
def budget : Reading Nat :=
  fun c s => .ok c.budget s

/-- Puts the cursor at an offset. -/
def moveTo (index : Nat) : Reading Unit :=
  fun _ s => .ok () { s with index := index }

/-- Moves the cursor forward, not past the end. -/
def forward (count : Nat) : Reading Unit :=
  fun c s => .ok () { s with index := min (s.index + count) c.text.size }

/-- Moves the cursor back. -/
def rewind (count : Nat) : Reading Unit :=
  fun _ s => .ok () { s with index := s.index - count }

/-- Leaves a note. -/
def note (left : Note) : Reading Unit :=
  fun _ s => .ok () { s with notes := s.notes.push left }

/-- Re-enters the grammar. -/
def reenter (entry : Entry) : Reading (Option Expr) :=
  fun c s => c.enter entry s

/-- Reads one level deeper; fails at the cursor when the limit is reached. -/
def nested {α : Type} (body : Reading α) : Reading α :=
  fun c s =>
    if c.dialect.grammar.nestingLimit.any (· ≤ s.depth) then .fail ⟨.nestingLimit, s.index⟩ s
    else
      match body c { s with depth := s.depth + 1 } with
      | .ok a s => .ok a { s with depth := s.depth - 1 }
      | .fail e s => .fail e { s with depth := s.depth - 1 }
      | .exhausted => .exhausted

end Reading

end OperatorGrammar
