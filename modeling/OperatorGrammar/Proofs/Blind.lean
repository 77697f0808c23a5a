/-
OperatorGrammar/Proofs/Blind.lean

Nothing that is read depends on the notes.

Notes are left for whoever reads them after a parse.  A callback leaves them and
does not see them, and the grammar neither leaves nor sees any.  So from two
states that differ in the notes alone, a reading gives the same answer, and
leaves states that again differ in the notes alone (`Reading.Blind`).

Readings like that are closed under sequence, and each production is put together
from them; so are the callbacks, which may catch a failure and go on behind it.

Main result: `Dialect.reenter_blind`.
-/
import OperatorGrammar.Proofs.Onward

namespace OperatorGrammar

variable {α β : Type}

/-- The states differ in the notes alone. -/
structure State.Alike (s s' : State) : Prop where
  index : s'.index = s.index
  depth : s'.depth = s.depth

/-- The replies differ in the notes alone. -/
inductive Reply.Alike : Reply α → Reply α → Prop
  | ok {a s s'} : s.Alike s' → Alike (.ok a s) (.ok a s')
  | fail {e s s'} : s.Alike s' → Alike (.fail e s) (.fail e s')
  | exhausted : Alike .exhausted .exhausted

/-- A value that comes from one state also comes from the other. -/
theorem Reply.Alike.of_ok {a : α} {s₁ : State} {r : Reply α} (h : (Reply.ok a s₁).Alike r) :
    ∃ s₁', r = .ok a s₁' ∧ s₁.Alike s₁' := by
  cases h with
  | ok hs => exact ⟨_, rfl, hs⟩

namespace Reading

/-- From states that differ in the notes alone, a reading replies alike. -/
def Blind (c : Context) (x : Reading α) : Prop :=
  ∀ s s', s.Alike s' → (x c s).Alike (x c s')

namespace Blind

variable {c : Context} {x y : Reading α} {f : α → Reading β}

/-! ### Sequences and branches -/

theorem pure (a : α) : Blind c (Pure.pure a) :=
  fun _ _ hs => .ok hs

theorem bind (hx : Blind c x) (hf : ∀ a, Blind c (f a)) : Blind c (x >>= f) := by
  intro s s' hs
  have h := hx s s' hs
  rw [bind_apply, bind_apply]
  generalize x c s = r at h ⊢
  generalize x c s' = r' at h ⊢
  cases h with
  | ok hs => exact hf _ _ _ hs
  | fail hs => exact .fail hs
  | exhausted => exact .exhausted

theorem ite {p : Prop} [Decidable p] (hx : Blind c x) (hy : Blind c y) :
    Blind c (if p then x else y) := by
  split
  · exact hx
  · exact hy

/-! ### Primitive steps -/

theorem exhausted : Blind c (Reading.exhausted : Reading α) :=
  fun _ _ _ => .exhausted

theorem raise (e : Failure) : Blind c (Reading.raise e : Reading α) :=
  fun _ _ hs => .fail hs

theorem failHere (cause : Cause) : Blind c (Reading.failHere cause : Reading α) := by
  intro s s' hs
  rw [failHere_apply, failHere_apply, hs.index]
  exact .fail hs

theorem grammar : Blind c Reading.grammar :=
  fun _ _ hs => .ok hs

theorem budget : Blind c Reading.budget :=
  fun _ _ hs => .ok hs

theorem cursor : Blind c Reading.cursor := by
  intro s s' hs
  rw [cursor_apply, cursor_apply, hs.index]
  exact .ok hs

theorem current : Blind c Reading.current := by
  intro s s' hs
  rw [current_apply, current_apply, hs.index]
  exact .ok hs

theorem moveTo (i : Nat) : Blind c (Reading.moveTo i) :=
  fun _ _ hs => .ok ⟨rfl, hs.depth⟩

theorem forward (n : Nat) : Blind c (Reading.forward n) := by
  intro s s' hs
  rw [forward_apply, forward_apply, hs.index]
  exact .ok ⟨rfl, hs.depth⟩

theorem rewind (n : Nat) : Blind c (Reading.rewind n) := by
  intro s s' hs
  rw [rewind_apply, rewind_apply, hs.index]
  exact .ok ⟨rfl, hs.depth⟩

theorem scan (scanner : Grammar → Cursor → Scan α) : Blind c (Reading.scan scanner) := by
  refine bind grammar fun g => bind cursor fun place => bind (moveTo _) fun _ => ?_
  cases (scanner g place).result with
  | ok value => exact pure value
  | error cause => exact failHere cause

/-- The limit is compared with the depth, which is the same. -/
theorem nested (hx : Blind c x) : Blind c (Reading.nested x) := by
  intro s s' hs
  have hat : c.AtLimit s' ↔ c.AtLimit s := by
    rw [Context.AtLimit, Context.AtLimit, hs.depth]
  by_cases hlimit : c.AtLimit s
  · rw [nested_of_atLimit hlimit, nested_of_atLimit (hat.mpr hlimit), hs.index]
    exact .fail hs
  · rw [nested_of_not_atLimit hlimit, nested_of_not_atLimit (mt hat.mp hlimit)]
    have hbody := hx { s with depth := s.depth + 1 } { s' with depth := s'.depth + 1 }
      ⟨hs.index, congrArg (· + 1) hs.depth⟩
    generalize x c { s with depth := s.depth + 1 } = r at hbody ⊢
    generalize x c { s' with depth := s'.depth + 1 } = r' at hbody ⊢
    cases hbody with
    | ok hs => exact .ok ⟨hs.index, congrArg (· - 1) hs.depth⟩
    | fail hs => exact .fail ⟨hs.index, congrArg (· - 1) hs.depth⟩
    | exhausted => exact .exhausted

/-! ### Callbacks -/

theorem settle (ending : Ending) : Blind c (Reading.settle ending) := by
  obtain ⟨node, failure⟩ := ending
  cases failure with
  | none => exact pure node
  | some e => exact raise e

section Entries

variable (henter : ∀ entry, Blind c (reenter entry))
include henter

theorem script (script : Script) (node : Option Expr) : Blind c (script.run node) := by
  induction script generalizing node with
  | done => exact pure _
  | fail e => exact pure _
  | abandon => exact exhausted
  | look next ih =>
    intro s s' hs
    rw [Script.run_look, Script.run_look, hs.index]
    exact ih _ node s s' hs
  | advance count next ih =>
    intro s s' hs
    rw [Script.run_advance_word, Script.run_advance_word, hs.index]
    exact ih node _ _ ⟨rfl, hs.depth⟩
  | setNode node' next ih => exact ih node'
  | note left next ih => exact fun s s' hs => ih node _ _ ⟨hs.index, hs.depth⟩
  | enter entry next ih =>
    intro s s' hs
    have h : (c.enter entry s).Alike (c.enter entry s') := henter entry s s' hs
    rw [Script.run_enter, Script.run_enter]
    generalize c.enter entry s = r at h ⊢
    generalize c.enter entry s' = r' at h ⊢
    cases h with
    | ok hs => exact ih _ node _ _ hs
    | fail hs => exact ih _ node _ _ hs
    | exhausted => exact .exhausted

theorem notifyAll (hooks : List Hook) (node : Option Expr) :
    Blind c (Hook.notifyAll hooks node) := by
  induction hooks generalizing node with
  | nil => exact pure _
  | cons h hooks ih => exact bind (script henter _ node) fun ending => ite (pure _) (ih _)

theorem searchAll (hooks : List Hook) (node : Option Expr) :
    Blind c (Hook.searchAll hooks node) := by
  induction hooks generalizing node with
  | nil => exact pure _
  | cons h hooks ih => exact bind (script henter _ node) fun ending => ite (pure _) (ih _)

theorem notify (p : HookPoint) (node : Option Expr) : Blind c (Reading.notify p node) :=
  fun s s' hs => bind (notifyAll henter (c.dialect.hooks.get p) node) settle s s' hs

theorem search (p : HookPoint) : Blind c (Reading.search p) :=
  fun s s' hs => bind (searchAll henter (c.dialect.hooks.get p) none) settle s s' hs

/-! ### White space and chains -/

theorem skipBlanks : Blind c Reading.skipBlanks := by
  refine bind budget fun n => ?_
  induction n with
  | zero => exact exhausted
  | succ n ih =>
    exact bind cursor fun place => bind (moveTo _) fun _ =>
      bind (notify henter .blanks none) fun _ => bind cursor fun after => ite (pure ()) ih

theorem binaryOp : Blind c Reading.binaryOp := by
  refine bind (skipBlanks henter) fun _ => bind grammar fun g => bind cursor fun place => ?_
  cases Lexeme.binaryOperator g place with
  | none => exact pure none
  | some symbol => exact bind (forward _) fun _ => pure _

theorem rightOperand (op : BinaryOp) : Blind c (Reading.rightOperand op) := by
  refine bind (henter .operand) fun e => ?_
  cases e with
  | none => exact failHere _
  | some e => exact pure e

theorem chainWithin (n : Nat) (found : Array (BinaryOp × Expr)) :
    Blind c (Reading.chainWithin n found) := by
  induction n generalizing found with
  | zero => exact exhausted
  | succ n ih =>
    refine bind (binaryOp henter) fun op => ?_
    cases op with
    | none => exact pure _
    | some op =>
      refine ite (bind (rewind _) fun _ => pure _) ?_
      exact bind (rightOperand henter op) fun operand => ih _

theorem chainRest : Blind c Reading.chainRest := by
  refine bind (binaryOp henter) fun op => ?_
  cases op with
  | none => exact pure _
  | some op =>
    exact bind (rightOperand henter op) fun operand => bind budget fun n => chainWithin henter n _

theorem binaryExpression : Blind c Reading.binaryExpression := by
  refine bind (henter .operand) fun first => ?_
  cases first with
  | none => exact pure none
  | some first => exact bind (chainRest henter) fun rest => pure _

theorem expression : Blind c Reading.expression := by
  have hrest (node : Option Expr) : Blind c (do
      Reading.skipBlanks
      Reading.notify .expressionDone node) :=
    bind (skipBlanks henter) fun _ => notify henter .expressionDone node
  refine nested (bind (search henter .expression) fun supplied => ?_)
  cases supplied with
  | some e => exact hrest (some e)
  | none => exact bind (binaryExpression henter) hrest

/-! ### Groups and lists -/

theorem expressionsWithin (closer : Option Char) (n : Nat) (found : Array Expr) :
    Blind c (Reading.expressionsWithin closer n found) := by
  induction n generalizing found with
  | zero => exact exhausted
  | succ n ih =>
    refine bind (skipBlanks henter) fun _ => bind current fun next => ?_
    cases next with
    | none => exact pure _
    | some ch =>
      refine ite (bind (forward 1) fun _ => ih found) (bind (henter .expression) fun e => ?_)
      cases e with
      | some e => exact ih _
      | none =>
        refine bind current fun last => ?_
        cases last with
        | none => exact pure _
        | some last => exact ite (pure _) (failHere _)

theorem group : Blind c Reading.group := by
  have hexpressions : Blind c (Reading.expressions (some ')')) :=
    bind budget fun n => expressionsWithin henter _ n _
  refine bind (forward 1) fun _ => bind hexpressions fun nodes => bind current fun next => ?_
  exact ite (bind (forward 1) fun _ => pure _) (failHere _)

theorem slotsWithin (kind : ListKind) (n : Nat) (slots : Slots) :
    Blind c (Reading.slotsWithin kind n slots) := by
  induction n generalizing slots with
  | zero => exact exhausted
  | succ n ih =>
    refine bind (skipBlanks henter) fun _ => bind current fun next => ?_
    cases next with
    | none => exact failHere _
    | some ch =>
      refine ite ?_ (ite ?_ (ite ?_ (failHere _)))
      · exact bind (forward 1) fun _ => ite (pure _) (failHere _)
      · refine bind (forward 1) fun _ => ?_
        cases slots.comma kind with
        | some slots => exact ih slots
        | none => exact failHere _
      · refine bind (henter .expression) fun e => ?_
        cases e with
        | some e => exact ite (failHere _) (ih _)
        | none => exact failHere _

theorem slots (kind : ListKind) : Blind c (Reading.slots kind) :=
  bind budget fun n => slotsWithin henter kind n _

/-! ### Links and operands -/

theorem linkStart : Blind c Reading.linkStart := by
  refine bind cursor fun place => ?_
  cases place.current with
  | none => exact pure none
  | some ch =>
    dsimp only
    cases LinkForm.ofChar? ch with
    | some form => exact bind (forward 1) fun _ => pure _
    | none =>
      refine ite (bind (forward 2) fun _ => bind (skipBlanks henter) fun _ =>
        bind current fun next => ?_) (pure none)
      split
      · exact bind (forward 1) fun _ => pure _
      · exact bind (forward 1) fun _ => pure _
      · exact pure _

theorem linkBody (node : Expr) (form : LinkForm) : Blind c (Reading.linkBody node form) := by
  cases form with
  | property => exact bind (skipBlanks henter) fun _ => bind (scan _) fun name => pure _
  | index =>
    refine bind (henter .expression) fun key => ?_
    cases key with
    | none => exact failHere _
    | some key =>
      refine bind (skipBlanks henter) fun _ => bind current fun next => ?_
      exact ite (bind (forward 1) fun _ => pure _) (failHere _)
  | call => exact bind (slots henter .arguments) fun items => pure _

theorem linksWithin (n : Nat) (node : Expr) : Blind c (Reading.linksWithin n node) := by
  induction n generalizing node with
  | zero => exact exhausted
  | succ n ih =>
    refine bind (linkStart henter) fun link => ?_
    rcases link with - | ⟨form, optional⟩
    · exact pure node
    · exact bind (linkBody henter node form) fun linked =>
        bind (skipBlanks henter) fun _ => ih _

theorem linkedOperand (node : Option Expr) : Blind c (Reading.linkedOperand node) := by
  cases node with
  | none => exact notify henter .operandDone none
  | some node =>
    have hlinks : Blind c (Reading.links node) :=
      bind (skipBlanks henter) fun _ => bind budget fun n => linksWithin henter n node
    exact bind hlinks fun linked => notify henter .operandDone _

theorem unaryOperand (operator : String) : Blind c (Reading.unaryOperand operator) := by
  refine bind (forward _) fun _ => bind (henter .operand) fun argument => ?_
  cases argument with
  | none => exact failHere _
  | some argument => exact notify henter .operandDone _

theorem operandFrom (ch : Char) : Blind c (Reading.operandFrom ch) := by
  refine bind grammar fun g => ite ?_ (ite ?_ (ite ?_ ?_))
  · exact bind (scan _) fun number => pure _
  · exact bind (scan _) fun string => linkedOperand henter _
  · exact bind (forward 1) fun _ => bind (slots henter .elements) fun items =>
      linkedOperand henter _
  · refine bind cursor fun place => ?_
    cases Lexeme.unaryOperator g place with
    | some operator => exact unaryOperand henter operator
    | none =>
      refine ite ?_ (ite ?_ (linkedOperand henter none))
      · exact bind (scan _) fun name => linkedOperand henter _
      · exact bind (group henter) fun node => linkedOperand henter node

theorem operand : Blind c Reading.operand := by
  refine nested (bind (skipBlanks henter) fun _ => bind (search henter .operand) fun supplied => ?_)
  cases supplied with
  | some node => exact notify henter .operandDone _
  | none =>
    refine bind current fun next => ?_
    cases next with
    | none => exact notify henter .operandDone none
    | some ch => exact operandFrom henter ch

theorem production (entry : Entry) : Blind c (Reading.production entry) := by
  cases entry with
  | blanks => exact bind (skipBlanks henter) fun _ => pure none
  | operand => exact operand henter
  | identifier => exact bind (scan _) fun name => pure _
  | expression => exact expression henter

end Entries

end Blind

end Reading

/-! ### Tying the knot -/

/-- The grammar does not look at the notes, whatever the callbacks do. -/
theorem Dialect.reenter_blind (d : Dialect) (text : Array Char) (n : Nat) (entry : Entry) :
    Reading.Blind (d.context text n) (Reading.reenter entry) := by
  induction n generalizing entry with
  | zero => exact fun _ _ _ => .exhausted
  | succ n ih => exact Reading.Blind.production ih entry

end OperatorGrammar
