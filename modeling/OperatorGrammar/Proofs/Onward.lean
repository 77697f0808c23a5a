/-
OperatorGrammar/Proofs/Onward.lean

The grammar moves the cursor onward: one pass over the productions.

A production changes the state in few ways: it moves the cursor to a place that a
scanner has reached, it steps over characters, and it puts back an operator that
it has just stepped over, which leaves the state in front of that operator
(`Kept.binaryOp`).  So a condition that `Persists` wherever the cursor goes on, and that
callbacks and entries keep, is kept by every production, and two runs that are in
step where the entries are in step stay so.

An operand enters an expression only behind a character that it has taken: an
opening bracket or parenthesis, or the start of a link.  This is what the second
condition of a `Level` is for.
-/
import OperatorGrammar.Proofs.InStep
import OperatorGrammar.Proofs.Scans

namespace OperatorGrammar

namespace Reading

variable {α : Type} {c c' : Context} {t : Terms} {P A : State → Prop}

/-- A condition that holds wherever the cursor goes on in the text; two contexts with the same
text, budget and tables, the limit apart; and failures that may be shared, but for those at
the limit. -/
structure Persists (c c' : Context) (t : Terms) (P : State → Prop) : Prop where
  text : c'.text = c.text
  budget : c'.budget = c.budget
  grammar : ∃ limit, c'.dialect.grammar = c.dialect.grammar.setNestingLimit limit
  onward : ∀ s j, P s → (s.index ≤ c.text.size → Cursor.Reaches ⟨c.text, s.index⟩ j) →
    P { s with index := j }
  fails : ∀ s e, P s → e.cause ≠ .nestingLimit → t.shares e s

/-- A condition that persists, and that white space keeps. -/
structure Kept (c c' : Context) (t : Terms) (P : State → Prop) : Prop
    extends Persists c c' t P where
  blanks : Keeps c c' t P (notify .blanks none)

/-- What an operand needs: a condition from its start on, and another one that holds once a
character is taken, and with which expressions and operands may be entered. -/
structure Level (c c' : Context) (t : Terms) (P A : State → Prop) : Prop where
  before : Kept c c' t P
  after : Kept c c' t A
  weaken : ∀ s, A s → P s
  taken : ∀ s j, P s → s.index < j → j ≤ c.text.size → A { s with index := j }
  operand : Keeps c c' t A (reenter .operand)
  expression : Keeps c c' t A (reenter .expression)
  supplied : Keeps c c' t P (search .operand)
  done : ∀ node, Keeps c c' t P (notify .operandDone node)

namespace Kept

/-! ### Scanners and steps -/

section Steps

variable (h : Kept c c' t P)
include h

theorem failHere {Q : α → State → Prop} {cause : Cause} (hcause : cause ≠ .nestingLimit) :
    InStep c c' t P Q (Reading.failHere cause) (Reading.failHere cause) :=
  fun s hs => .fail (h.fails s _ hs hcause)

theorem forward (n : Nat) : Keeps c c' t P (Reading.forward n) :=
  .forward h.text fun s hs => h.onward s _ hs fun hle =>
    ⟨Nat.le_min.mpr ⟨Nat.le_add_right _ _, hle⟩, Nat.min_le_right _ _⟩

/-- A scanner that does not ask for the limit, and stops inside the text. -/
theorem scan {scanner : Grammar → Cursor → Scan α}
    (hlimit : ∀ g limit place, scanner (g.setNestingLimit limit) place = scanner g place)
    (hreaches : ∀ g i, i ≤ c.text.size →
      Cursor.Reaches ⟨c.text, i⟩ (scanner g ⟨c.text, i⟩).index)
    (hcause : ∀ g place cause, (scanner g place).result = .error cause →
      cause ≠ .nestingLimit) :
    Keeps c c' t P (Reading.scan scanner) := by
  obtain ⟨limit, hgrammar⟩ := h.grammar
  refine InStep.grammar_bind ?_
  rw [hgrammar]
  refine (InStep.cursor h.text).bind fun place => ?_
  simp only [hlimit]
  have hmove : InStep c c' t (fun s => P s ∧ place = ⟨c.text, s.index⟩) (fun _ => P)
      (moveTo (scanner c.dialect.grammar place).index)
      (moveTo (scanner c.dialect.grammar place).index) := by
    refine .moveTo ?_
    rintro s ⟨hs, rfl⟩
    exact h.onward s _ hs (hreaches _ _)
  refine hmove.bind fun _ => ?_
  cases hresult : (scanner c.dialect.grammar place).result with
  | ok value => exact .pure fun s hs => hs
  | error cause => exact h.failHere (hcause _ _ _ hresult)

theorem number : Keeps c c' t P (Reading.scan Lexeme.number) :=
  h.scan (fun _ _ _ => rfl) (fun _ _ => Lexeme.number_reaches)
    fun _ _ _ => Lexeme.number_ne_nestingLimit

theorem string : Keeps c c' t P (Reading.scan fun _ => Lexeme.string) :=
  h.scan (fun _ _ _ => rfl) (fun _ _ => Lexeme.string_reaches)
    fun _ _ _ => Lexeme.string_ne_nestingLimit

theorem name : Keeps c c' t P (Reading.scan Lexeme.name) :=
  h.scan (fun _ _ _ => rfl) (fun _ _ => Lexeme.name_reaches)
    fun _ _ _ => Lexeme.name_ne_nestingLimit

/-! ### White space -/

theorem skipBlanksWithin (n : Nat) : Keeps c c' t P (Reading.skipBlanksWithin n) := by
  induction n with
  | zero => exact .exhausted
  | succ n ih =>
    rw [Keeps, Reading.skipBlanksWithin]
    refine (InStep.cursor h.text).bind fun place => ?_
    have hmove : InStep c c' t (fun s => P s ∧ place = ⟨c.text, s.index⟩) (fun _ => P)
        (moveTo (place.skipWhile Grammar.isBlank place.index))
        (moveTo (place.skipWhile Grammar.isBlank place.index)) := by
      refine .moveTo ?_
      rintro s ⟨hs, rfl⟩
      exact h.onward s _ hs fun hle => (Cursor.Reaches.refl hle).skipWhile _
    refine hmove.bind fun _ => h.blanks.bind fun _ => (InStep.cursor h.text).bind fun after => ?_
    exact .ite (fun _ => .pure fun s hs => hs.1) fun _ => ih.strengthen fun s hs => hs.1

theorem skipBlanks : Keeps c c' t P Reading.skipBlanks :=
  (InStep.budget h.budget).bind fun n => h.skipBlanksWithin n

/-! ### Chains -/

/-- An operator, from behind which the cursor can be put back to its start. -/
theorem binaryOp : InStep c c' t P
    (fun op s => P s ∧ ∀ o ∈ op, P { s with index := s.index - o.symbol.length })
    Reading.binaryOp Reading.binaryOp := by
  obtain ⟨limit, hgrammar⟩ := h.grammar
  refine h.skipBlanks.bind fun _ => InStep.grammar_bind ?_
  rw [hgrammar]
  refine (InStep.cursor h.text).bind fun place => ?_
  simp only [Lexeme.binaryOperator_setNestingLimit]
  cases hop : Lexeme.binaryOperator c.dialect.grammar place with
  | none => exact .pure fun s hs => ⟨hs.1, nofun⟩
  | some symbol =>
    have hforward : InStep c c' t (fun s => P s ∧ place = ⟨c.text, s.index⟩)
        (fun _ s => P s ∧ P { s with index := s.index - symbol.length })
        (Reading.forward symbol.length) (Reading.forward symbol.length) := by
      refine .forward h.text ?_
      rintro s ⟨hs, rfl⟩
      obtain ⟨-, hreaches⟩ := (Lexeme.operatorUpTo_fits hop).reaches
      rw [Nat.min_eq_left hreaches.within]
      refine ⟨h.onward s _ hs fun _ => hreaches, ?_⟩
      dsimp only
      rwa [Nat.add_sub_cancel]
    refine hforward.bind fun _ => .pure fun s hs => ⟨hs.1, ?_⟩
    rintro o ⟨⟩
    exact hs.2

section Operands

variable (hoperand : Keeps c c' t P (reenter .operand))
include hoperand

theorem rightOperand (op : BinaryOp) : Keeps c c' t P (Reading.rightOperand op) := by
  refine hoperand.bind fun e => ?_
  cases e with
  | none => exact h.failHere (by simp)
  | some e => exact .pure fun s hs => hs

theorem chainWithin (n : Nat) (found : Array (BinaryOp × Expr)) :
    Keeps c c' t P (Reading.chainWithin n found) := by
  induction n generalizing found with
  | zero => exact .exhausted
  | succ n ih =>
    rw [Keeps, Reading.chainWithin]
    refine h.binaryOp.bind fun op => ?_
    cases op with
    | none => exact .pure fun s hs => hs.1
    | some op =>
      refine .ite (fun _ => ?_) fun _ => ?_
      · have hback : InStep c c' t
            (fun s => P s ∧ ∀ o ∈ some op, P { s with index := s.index - o.symbol.length })
            (fun _ => P) (rewind op.symbol.length) (rewind op.symbol.length) :=
          .rewind fun s hs => hs.2 op rfl
        exact hback.bind fun _ => .pure fun s hs => hs
      · refine ((h.rightOperand hoperand op).strengthen fun s hs => hs.1).bind fun operand => ?_
        exact ih _

theorem chainRest : Keeps c c' t P Reading.chainRest := by
  refine h.binaryOp.bind fun op => ?_
  cases op with
  | none => exact .pure fun s hs => hs.1
  | some op =>
    refine ((h.rightOperand hoperand op).strengthen fun s hs => hs.1).bind fun operand => ?_
    exact (InStep.budget h.budget).bind fun n => h.chainWithin hoperand n _

theorem binaryExpression : Keeps c c' t P Reading.binaryExpression := by
  refine hoperand.bind fun first => ?_
  cases first with
  | none => exact .pure fun s hs => hs
  | some first => exact (h.chainRest hoperand).bind fun rest => .pure fun s hs => hs

end Operands

/-! ### Programs and lists -/

section Expressions

variable (hexpression : Keeps c c' t P (reenter .expression))
include hexpression

theorem expressionsWithin (closer : Option Char) (n : Nat) (found : Array Expr) :
    Keeps c c' t P (Reading.expressionsWithin closer n found) := by
  induction n generalizing found with
  | zero => exact .exhausted
  | succ n ih =>
    rw [Keeps, Reading.expressionsWithin]
    refine h.skipBlanks.bind fun _ => (InStep.current h.text).bind fun next => ?_
    cases next with
    | none => exact .pure fun s hs => hs.1
    | some ch =>
      refine InStep.strengthen (P := P) (.ite (fun _ => ?_) fun _ => ?_) fun s hs => hs.1
      · exact (h.forward 1).bind fun _ => ih found
      · refine hexpression.bind fun e => ?_
        cases e with
        | some e => exact ih _
        | none =>
          refine (InStep.current h.text).bind fun last => ?_
          cases last with
          | none => exact .pure fun s hs => hs.1
          | some last =>
            exact .ite (fun _ => .pure fun s hs => hs.1) fun _ =>
              .strengthen (h.failHere (by simp)) fun s hs => hs.1

theorem expressions (closer : Option Char) : Keeps c c' t P (Reading.expressions closer) :=
  (InStep.budget h.budget).bind fun n => h.expressionsWithin hexpression closer n #[]

theorem program (hstart : Keeps c c' t P (notify .start none))
    (hfinish : ∀ node, Keeps c c' t P (notify .finish node)) : Keeps c c' t P Reading.program :=
  hstart.bind fun _ => (h.expressions hexpression none).bind fun _ => hfinish _

theorem slotsWithin (kind : ListKind) (n : Nat) (slots : Slots) :
    Keeps c c' t P (Reading.slotsWithin kind n slots) := by
  induction n generalizing slots with
  | zero => exact .exhausted
  | succ n ih =>
    rw [Keeps, Reading.slotsWithin]
    refine h.skipBlanks.bind fun _ => (InStep.current h.text).bind fun next => ?_
    cases next with
    | none => exact .strengthen (h.failHere (by simp)) fun s hs => hs.1
    | some ch =>
      refine InStep.strengthen (P := P) (.ite (fun _ => ?_) fun _ => .ite (fun _ => ?_) fun _ =>
        .ite (fun _ => ?_) fun _ => h.failHere (by simp)) fun s hs => hs.1
      · refine (h.forward 1).bind fun _ => ?_
        exact .ite (fun _ => .pure fun s hs => hs) fun _ => h.failHere (by simp)
      · refine (h.forward 1).bind fun _ => ?_
        cases slots.comma kind with
        | none => exact h.failHere (by simp)
        | some slots => exact ih slots
      · refine hexpression.bind fun e => ?_
        cases e with
        | none => exact h.failHere (by simp)
        | some e => exact .ite (fun _ => h.failHere (by simp)) fun _ => ih _

theorem slots (kind : ListKind) : Keeps c c' t P (Reading.slots kind) :=
  (InStep.budget h.budget).bind fun n => h.slotsWithin hexpression kind n .empty

/-! ### Links -/

theorem linkBody (node : Expr) (form : LinkForm) : Keeps c c' t P (Reading.linkBody node form) := by
  cases form with
  | property =>
    exact h.skipBlanks.bind fun _ => h.name.bind fun w => .pure fun s hs => hs
  | index =>
    refine hexpression.bind fun key => ?_
    cases key with
    | none => exact h.failHere (by simp)
    | some key =>
      refine h.skipBlanks.bind fun _ => (InStep.current h.text).bind fun next => ?_
      refine InStep.strengthen (P := P) (.ite (fun _ => ?_) fun _ => h.failHere (by simp))
        fun s hs => hs.1
      exact (h.forward 1).bind fun _ => .pure fun s hs => hs
  | call => exact (h.slots hexpression .arguments).bind fun items => .pure fun s hs => hs

end Expressions

end Steps

end Kept

namespace Level

variable (h : Level c c' t P A)
include h

/-- A step past a character of the text. -/
theorem forward {n : Nat} (hn : 0 < n) :
    InStep c c' t (fun s => P s ∧ s.index < c.text.size) (fun _ => A) (Reading.forward n)
      (Reading.forward n) := by
  refine .forward h.before.text ?_
  rintro s ⟨hs, hlt⟩
  exact h.taken s _ hs (by omega) (Nat.min_le_right _ _)

/-! ### Links -/

/-- The start of a link takes a character. -/
theorem linkStart : InStep c c' t P (fun link s => P s ∧ (link.isSome → A s)) Reading.linkStart
    Reading.linkStart := by
  refine (InStep.cursor h.before.text).bind fun place => ?_
  rcases hcur : place.current with - | ch
  · exact .pure fun s hs => ⟨hs.1, nofun⟩
  have hlt : ∀ s, P s ∧ place = ⟨c.text, s.index⟩ → P s ∧ s.index < c.text.size := by
    rintro s ⟨hs, rfl⟩
    exact ⟨hs, lt_size_of_getElem? hcur⟩
  have hlink (link : LinkForm × Bool) : InStep c c' t A
      (fun link s => P s ∧ (link.isSome → A s)) (pure (some link)) (pure (some link)) :=
    .pure fun s hs => ⟨h.weaken s hs, fun _ => hs⟩
  dsimp only
  cases LinkForm.ofChar? ch with
  | some form => exact ((h.forward Nat.one_pos).strengthen hlt).bind fun _ => hlink _
  | none =>
    refine .ite (fun _ => ?_) fun _ => .pure fun s hs => ⟨hs.1, nofun⟩
    refine ((h.forward Nat.two_pos).strengthen hlt).bind fun _ =>
      h.after.skipBlanks.bind fun _ => (InStep.current h.after.text).bind fun next => ?_
    refine InStep.strengthen (P := A) ?_ fun s hs => hs.1
    split
    · exact (h.after.forward 1).bind fun _ => hlink _
    · exact (h.after.forward 1).bind fun _ => hlink _
    · exact hlink _

theorem linksWithin (n : Nat) (node : Expr) : Keeps c c' t P (Reading.linksWithin n node) := by
  induction n generalizing node with
  | zero => exact .exhausted
  | succ n ih =>
    rw [Keeps, Reading.linksWithin]
    refine h.linkStart.bind fun link => ?_
    rcases link with - | ⟨form, optional⟩
    · exact .pure fun s hs => hs.1
    · have hbody : InStep c c' t (fun s => P s ∧ ((some (form, optional)).isSome → A s))
          (fun _ => A) (Reading.linkBody node form) (Reading.linkBody node form) :=
        (h.after.linkBody h.expression node form).strengthen fun s hs => hs.2 rfl
      have hblanks : InStep c c' t A (fun _ => P) Reading.skipBlanks Reading.skipBlanks :=
        h.after.skipBlanks.weaken fun _ => h.weaken
      exact hbody.bind fun linked => hblanks.bind fun _ => ih _

theorem links (node : Expr) : Keeps c c' t P (Reading.links node) :=
  h.before.skipBlanks.bind fun _ =>
    (InStep.budget h.before.budget).bind fun n => h.linksWithin n node

/-! ### Operands -/

theorem linkedOperand (node : Option Expr) : Keeps c c' t P (Reading.linkedOperand node) := by
  cases node with
  | none => exact h.done none
  | some node => exact (h.links node).bind fun linked => h.done _

/-- A list, a group and the argument of a unary operator are read behind a character. -/
theorem elements : InStep c c' t (fun s => P s ∧ s.index < c.text.size) (fun _ => P)
    (do
      Reading.forward 1
      Reading.linkedOperand (some (.array (← Reading.slots .elements))))
    (do
      Reading.forward 1
      Reading.linkedOperand (some (.array (← Reading.slots .elements)))) :=
  (h.forward Nat.one_pos).bind fun _ => (h.after.slots h.expression .elements).bind fun _ =>
    (h.linkedOperand _).strengthen h.weaken

theorem group : InStep c c' t (fun s => P s ∧ s.index < c.text.size) (fun _ => A) Reading.group
    Reading.group := by
  refine (h.forward Nat.one_pos).bind fun _ =>
    (h.after.expressions h.expression (some ')')).bind fun nodes =>
      (InStep.current h.after.text).bind fun next => ?_
  refine InStep.strengthen (P := A) (.ite (fun _ => ?_) fun _ => h.after.failHere (by simp))
    fun s hs => hs.1
  exact (h.after.forward 1).bind fun _ => .pure fun s hs => hs

theorem unaryOperand {operator : String} (hoperator : 0 < operator.length) :
    InStep c c' t (fun s => P s ∧ s.index < c.text.size) (fun _ => P)
      (Reading.unaryOperand operator) (Reading.unaryOperand operator) := by
  refine (h.forward hoperator).bind fun _ => h.operand.bind fun argument => ?_
  cases argument with
  | none => exact h.after.failHere (by simp)
  | some argument => exact (h.done _).strengthen h.weaken

theorem operandFrom (ch : Char) :
    InStep c c' t (fun s => P s ∧ c.text[s.index]? = some ch) (fun _ => P)
      (Reading.operandFrom ch) (Reading.operandFrom ch) := by
  have hlt : ∀ s, P s ∧ c.text[s.index]? = some ch → P s ∧ s.index < c.text.size :=
    fun s hs => ⟨hs.1, lt_size_of_getElem? hs.2⟩
  obtain ⟨limit, hgrammar⟩ := h.before.grammar
  refine InStep.grammar_bind ?_
  rw [hgrammar]
  refine .ite (fun _ => ?_) fun _ => .ite (fun _ => ?_) fun _ => .ite (fun _ => ?_) fun _ => ?_
  · exact (h.before.number.strengthen fun s hs => hs.1).bind fun number => .pure fun s hs => hs
  · exact (h.before.string.strengthen fun s hs => hs.1).bind fun string => h.linkedOperand _
  · exact h.elements.strengthen hlt
  · refine (InStep.cursor h.before.text).bind fun place => ?_
    simp only [Lexeme.unaryOperator_setNestingLimit]
    cases hop : Lexeme.unaryOperator c.dialect.grammar place with
    | some operator =>
      obtain ⟨text, i⟩ := place
      exact (h.unaryOperand (Lexeme.operatorUpTo_fits hop).length_pos).strengthen
        fun s hs => hlt s hs.1
    | none =>
      refine InStep.strengthen
        (P := fun s => P s ∧ c.text[s.index]? = some ch) ?_ fun s hs => hs.1
      refine .ite (fun _ => ?_) fun _ => .ite (fun _ => ?_) fun _ => ?_
      · exact (h.before.name.strengthen fun s hs => hs.1).bind fun w => h.linkedOperand _
      · exact (h.group.strengthen hlt).bind fun node =>
          (h.linkedOperand node).strengthen h.weaken
      · exact (h.linkedOperand none).strengthen fun s hs => hs.1

end Level

/-! ### The bodies of the two levels -/

/-- What is read one level deeper for an expression. -/
def expressionBody : Reading (Option Expr) := do
  let node ← match ← search .expression with
    | some e => pure (some e)
    | none => binaryExpression
  skipBlanks
  notify .expressionDone node

/-- What is read one level deeper for an operand. -/
def operandBody : Reading (Option Expr) := do
  skipBlanks
  match ← search .operand with
  | some node => notify .operandDone (some node)
  | none =>
    match ← current with
    | none => notify .operandDone none
    | some ch => operandFrom ch

theorem expression_eq : expression = nested expressionBody := rfl

theorem operand_eq : operand = nested operandBody := rfl

theorem Kept.expressionBody (h : Kept c c' t P) (hoperand : Keeps c c' t P (reenter .operand))
    (hsupplied : Keeps c c' t P (search .expression))
    (hdone : ∀ node, Keeps c c' t P (notify .expressionDone node)) :
    Keeps c c' t P Reading.expressionBody := by
  have hrest (node : Option Expr) : Keeps c c' t P
      (do
        Reading.skipBlanks
        notify .expressionDone node) :=
    h.skipBlanks.bind fun _ => hdone node
  refine hsupplied.bind fun supplied => ?_
  cases supplied with
  | some e => exact hrest (some e)
  | none => exact (h.binaryExpression hoperand).bind hrest

theorem Level.operandBody (h : Level c c' t P A) : Keeps c c' t P Reading.operandBody := by
  refine h.before.skipBlanks.bind fun _ => h.supplied.bind fun supplied => ?_
  cases supplied with
  | some node => exact h.done _
  | none =>
    refine (InStep.current h.before.text).bind fun next => ?_
    cases next with
    | none => exact (h.done none).strengthen fun s hs => hs.1
    | some ch => exact h.operandFrom ch

/-! ### Conditions that callbacks keep as well -/

/-- A condition that persists, and that every callback and every entry keeps. -/
structure Steady (c c' : Context) (t : Terms) (P : State → Prop) : Prop
    extends Persists c c' t P where
  scripts : ∀ p, List.Forall₂ (fun k k' => ∀ node,
    InStep c c' t P (t.Ended P) (k.script.run node) (k'.script.run node))
      (c.dialect.hooks.get p) (c'.dialect.hooks.get p)
  entries : ∀ entry, Keeps c c' t P (reenter entry)

namespace Steady

variable (h : Steady c c' t P)
include h

theorem kept : Kept c c' t P where
  toPersists := h.toPersists
  blanks := .notify (h.scripts _) none

/-- An operand needs no second condition. -/
theorem level : Level c c' t P P where
  before := h.kept
  after := h.kept
  weaken := fun _ hs => hs
  taken := fun s j hs hlt hle => h.onward s j hs fun _ => ⟨Nat.le_of_lt hlt, hle⟩
  operand := h.entries .operand
  expression := h.entries .expression
  supplied := .search (h.scripts _)
  done := .notify (h.scripts _)

theorem blanks : Keeps c c' t P (production .blanks) :=
  h.kept.skipBlanks.bind fun _ => .pure fun _ hs => hs

theorem identifier : Keeps c c' t P (production .identifier) :=
  h.kept.name.bind fun _ => .pure fun _ hs => hs

theorem operandBody : Keeps c c' t P Reading.operandBody :=
  h.level.operandBody

theorem expressionBody : Keeps c c' t P Reading.expressionBody :=
  h.kept.expressionBody (h.entries .operand) (.search (h.scripts _)) (.notify (h.scripts _))

theorem program : Keeps c c' t P Reading.program :=
  h.kept.program (h.entries .expression) (.notify (h.scripts _) none) (.notify (h.scripts _))

end Steady

end Reading

end OperatorGrammar
