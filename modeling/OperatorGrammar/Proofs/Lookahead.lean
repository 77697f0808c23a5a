/-
OperatorGrammar/Proofs/Lookahead.lean

How far a parse looks ahead.

Without callbacks, a failure depends on the text up to its offset and a window
behind it: as many characters as the longest operator has, and at least one, for
the point of an optional link (`Grammar.lookahead`).

Two texts are compared that share their characters up to the end of that window.
A run of a reading on the first text either does the same on the second one, or
gets past the limit (`Reply.Past`): it answers behind the limit or fails there.
From behind the limit no reading comes back, so sequences need no further
conditions (`Reading.Agrees.bind`).  The one step back of the grammar is behind
an operator of precedence zero, and it undoes the step over that operator; with
both left out, the loop of a chain is the same (`Reading.chainWithin_succ`).

Main result: `Dialect.parse_decided`.
-/
import OperatorGrammar.Proofs.Lockstep
import OperatorGrammar.Proofs.Sameness
import OperatorGrammar.Proofs.SharedFront
import OperatorGrammar.Proofs.Shifted

namespace OperatorGrammar

variable {α β : Type}

/-- How many characters behind the cursor may decide what is read. -/
def Grammar.lookahead (g : Grammar) : Nat :=
  max (max g.longestUnary g.longestBinary) 1

/-- The reply came from behind a limit, or not at all. -/
def Reply.Past (limit : Nat) : Reply α → Prop
  | .ok _ s => limit < s.index
  | .fail e _ => limit < e.index
  | .exhausted => True

namespace Reading

/-- From every state, the first run gets past the limit, or the second run does the same. -/
def Agrees (c c' : Context) (limit : Nat) (x y : Reading α) : Prop :=
  ∀ s, (x c s).Past limit ∨ s.index ≤ limit ∧ y c' s = x c s

/-- A place in the second text that cannot be told from an offset in the first one, or the
place of that offset itself. -/
def Seen (c c' : Context) (limit i : Nat) (place : Cursor) : Prop :=
  place = ⟨c.text, i⟩ ∨ i ≤ limit ∧ place = ⟨c'.text, i⟩

namespace Agrees

variable {c c' : Context} {limit : Nat} {x x' y y' : Reading α} {f g : α → Reading β}

/-! ### Sequences and branches -/

/-- Readings that answer the same and stay where they are. -/
theorem stays {a : α} (hx : ∀ s, x c s = .ok a s) (hy : ∀ s, y c' s = .ok a s) :
    Agrees c c' limit x y := by
  intro s
  rw [hx, hy]
  rcases Nat.lt_or_ge limit s.index with hlt | hle
  · exact .inl hlt
  · exact .inr ⟨hle, rfl⟩

theorem pure {a : α} : Agrees c c' limit (Pure.pure a) (Pure.pure a) :=
  .stays (fun _ => rfl) fun _ => rfl

/-- What got past the limit stays behind it. -/
theorem bind (hx : Agrees c c' limit x y) (hf : ∀ a, Agrees c c' limit (f a) (g a)) :
    Agrees c c' limit (x >>= f) (y >>= g) := by
  intro s
  rw [bind_apply, bind_apply]
  rcases hx s with hpast | ⟨hle, heq⟩
  · left
    cases hreply : x c s with
    | ok a s₁ =>
      rw [hreply] at hpast
      have hlt : ¬ s₁.index ≤ limit := Nat.not_le.mpr hpast
      exact (hf a s₁).resolve_right fun h => hlt h.1
    | fail e s₁ =>
      rw [hreply] at hpast
      exact hpast
    | exhausted => trivial
  · rw [heq]
    cases x c s with
    | ok a s₁ => exact (hf a s₁).imp_right fun h => ⟨hle, h.2⟩
    | fail e s₁ => exact .inr ⟨hle, rfl⟩
    | exhausted => exact .inl trivial

theorem ite {p : Prop} [Decidable p] (h : Agrees c c' limit x y)
    (h' : Agrees c c' limit x' y') :
    Agrees c c' limit (if p then x else x') (if p then y else y') := by
  split
  · exact h
  · exact h'

/-! ### Primitive steps -/

theorem exhausted : Agrees c c' limit Reading.exhausted y :=
  fun _ => .inl trivial

theorem failHere {cause : Cause} :
    Agrees c c' limit (Reading.failHere cause : Reading α) (Reading.failHere cause) := by
  intro s
  rcases Nat.lt_or_ge limit s.index with hlt | hle
  · exact .inl hlt
  · exact .inr ⟨hle, rfl⟩

theorem grammar_bind {f g : Grammar → Reading β} (hdialect : c'.dialect = c.dialect)
    (h : Agrees c c' limit (f c.dialect.grammar) (g c.dialect.grammar)) :
    Agrees c c' limit (Reading.grammar >>= f) (Reading.grammar >>= g) := by
  intro s
  rw [bind_of_ok grammar_apply, bind_of_ok grammar_apply, hdialect]
  exact h s

theorem cursor_bind {f g : Cursor → Reading β}
    (h : ∀ i place, Seen c c' limit i place → Agrees c c' limit (f ⟨c.text, i⟩) (g place)) :
    Agrees c c' limit (Reading.cursor >>= f) (Reading.cursor >>= g) := by
  intro s
  rcases Nat.lt_or_ge limit s.index with hlt | hle
  · exact .inl ((h s.index _ (.inl rfl) s).resolve_right fun h => Nat.not_le.mpr hlt h.1)
  · exact h s.index _ (.inr ⟨hle, rfl⟩) s

/-- The second run may have more rounds to spend. -/
theorem budget_bind {f g : Nat → Reading β} (hbudget : c.budget ≤ c'.budget)
    (h : ∀ n m, n ≤ m → Agrees c c' limit (f n) (g m)) :
    Agrees c c' limit (Reading.budget >>= f) (Reading.budget >>= g) :=
  fun s => h _ _ hbudget s

/-- A scanner that does not go back, and finds the same where it stops in front of the limit. -/
theorem scan {scanner : Grammar → Cursor → Scan α} (hdialect : c'.dialect = c.dialect)
    (honward : ∀ i, i ≤ (scanner c.dialect.grammar ⟨c.text, i⟩).index)
    (hsame : ∀ i, (scanner c.dialect.grammar ⟨c.text, i⟩).index ≤ limit →
      scanner c.dialect.grammar ⟨c'.text, i⟩ = scanner c.dialect.grammar ⟨c.text, i⟩) :
    Agrees c c' limit (Reading.scan scanner) (Reading.scan scanner) := by
  intro s
  rw [Reading.scan, bind_of_ok (c := c) grammar_apply, bind_of_ok (c := c) cursor_apply,
    bind_of_ok (c := c) (moveTo_apply _)]
  rcases Nat.lt_or_ge limit (scanner c.dialect.grammar ⟨c.text, s.index⟩).index with hlt | hle
  · left
    cases (scanner c.dialect.grammar ⟨c.text, s.index⟩).result with
    | ok value => exact hlt
    | error cause => exact hlt
  · right
    refine ⟨Nat.le_trans (honward _) hle, ?_⟩
    rw [bind_of_ok grammar_apply, bind_of_ok cursor_apply, bind_of_ok (moveTo_apply _), hdialect,
      hsame _ hle]
    cases (scanner c.dialect.grammar ⟨c.text, s.index⟩).result with
    | ok value => rfl
    | error cause => rfl

theorem nested (hdialect : c'.dialect = c.dialect) (h : Agrees c c' limit x y) :
    Agrees c c' limit (Reading.nested x) (Reading.nested y) := by
  intro s
  have hat : c'.AtLimit s ↔ c.AtLimit s := by
    rw [Context.AtLimit, Context.AtLimit, hdialect]
  by_cases hlim : c.AtLimit s
  · rw [nested_of_atLimit hlim, nested_of_atLimit (hat.mpr hlim)]
    rcases Nat.lt_or_ge limit s.index with hlt | hle
    · exact .inl hlt
    · exact .inr ⟨hle, rfl⟩
  · rw [nested_of_not_atLimit hlim, nested_of_not_atLimit (mt hat.mp hlim)]
    rcases h { s with depth := s.depth + 1 } with hpast | ⟨hle, heq⟩
    · left
      cases hreply : x c { s with depth := s.depth + 1 } with
      | ok a s₁ =>
        rw [hreply] at hpast
        exact hpast
      | fail e s₁ =>
        rw [hreply] at hpast
        exact hpast
      | exhausted => trivial
    · rw [heq]
      exact .inr ⟨hle, rfl⟩

end Agrees

/-! ### Chains without the step back -/

/-- The next operator of a chain; one of precedence zero ends the chain where it starts. -/
def nextOperator : Reading (Option BinaryOp) := do
  skipBlanks
  let g ← grammar
  match Lexeme.binaryOperator g (← cursor) with
  | none => pure none
  | some symbol =>
    if g.precedence symbol = 0 then pure none
    else
      forward symbol.length
      pure (some ⟨symbol, g.precedence symbol, g.isRightAssociative symbol⟩)

/-- An operator that is put back has not moved the cursor. -/
theorem chainWithin_succ (n : Nat) (found : Array (BinaryOp × Expr)) :
    chainWithin (n + 1) found = nextOperator >>= fun op =>
      match op with
      | none => pure found.toList
      | some op => rightOperand op >>= fun operand => chainWithin n (found.push (op, operand)) := by
  funext c s
  rw [chainWithin, binaryOp, nextOperator, bind_apply, bind_apply, bind_apply, bind_apply]
  cases skipBlanks c s with
  | fail e s₁ => rfl
  | exhausted => rfl
  | ok _ s₁ =>
    dsimp only
    rw [bind_of_ok grammar_apply, bind_of_ok cursor_apply, bind_of_ok grammar_apply,
      bind_of_ok cursor_apply]
    cases hop : Lexeme.binaryOperator c.dialect.grammar ⟨c.text, s₁.index⟩ with
    | none => rfl
    | some symbol =>
      dsimp only
      rw [bind_of_ok (forward_apply _)]
      by_cases hzero : c.dialect.grammar.precedence symbol = 0
      · obtain ⟨-, hreaches⟩ := (Lexeme.operatorUpTo_fits hop).reaches
        rw [if_pos hzero]
        dsimp only [pure_apply]
        rw [if_pos hzero, bind_of_ok (rewind_apply _), Nat.min_eq_left hreaches.within,
          Nat.add_sub_cancel]
        rfl
      · rw [if_neg hzero, bind_of_ok (forward_apply _)]
        dsimp only [pure_apply]
        rw [if_neg hzero]

/-! ### The productions -/

/-- Two contexts of one dialect without callbacks, whose texts are the same up to the end of
the window behind the limit. -/
structure Window (c c' : Context) (limit : Nat) : Prop where
  hookFree : c.dialect.HookFree
  dialect : c'.dialect = c.dialect
  budget : c.budget ≤ c'.budget
  front : SharedFront c.text c'.text (limit + c.dialect.grammar.lookahead)
  operand : Agrees c c' limit (reenter .operand) (reenter .operand)
  expression : Agrees c c' limit (reenter .expression) (reenter .expression)

namespace Window

variable {c c' : Context} {limit : Nat} (h : Window c c' limit)

theorem seen_index {i : Nat} {place : Cursor} (hplace : Seen c c' limit i place) :
    place.index = i := by
  rcases hplace with rfl | ⟨-, rfl⟩
  · rfl
  · rfl

include h

/-! ### What is seen from a place -/

theorem seen_charAt {i k : Nat} {place : Cursor} (hplace : Seen c c' limit i place)
    (hk : k ≤ 1) : place.charAt (i + k) = c.text[i + k]? := by
  have hone : 1 ≤ c.dialect.grammar.lookahead := Nat.le_max_right _ _
  rcases hplace with rfl | ⟨hle, rfl⟩
  · rfl
  · exact h.front.same _ (by omega)

theorem seen_unary {i : Nat} {place : Cursor} (hplace : Seen c c' limit i place) :
    Lexeme.unaryOperator c.dialect.grammar place =
      Lexeme.unaryOperator c.dialect.grammar ⟨c.text, i⟩ := by
  have hlongest : c.dialect.grammar.longestUnary ≤ c.dialect.grammar.lookahead :=
    Nat.le_trans (Nat.le_max_left _ _) (Nat.le_max_left _ _)
  rcases hplace with rfl | ⟨hle, rfl⟩
  · rfl
  · exact h.front.unaryOperator (by omega)

theorem seen_binary {i : Nat} {place : Cursor} (hplace : Seen c c' limit i place) :
    Lexeme.binaryOperator c.dialect.grammar place =
      Lexeme.binaryOperator c.dialect.grammar ⟨c.text, i⟩ := by
  have hlongest : c.dialect.grammar.longestBinary ≤ c.dialect.grammar.lookahead :=
    Nat.le_trans (Nat.le_max_right _ _) (Nat.le_max_left _ _)
  rcases hplace with rfl | ⟨hle, rfl⟩
  · rfl
  · exact h.front.binaryOperator (by omega)

/-! ### Steps -/

theorem current : Agrees c c' limit Reading.current Reading.current := by
  intro s
  rcases Nat.lt_or_ge limit s.index with hlt | hle
  · exact .inl hlt
  · refine .inr ⟨hle, ?_⟩
    rw [current_apply, current_apply, h.front.same _ (by omega)]

/-- A step that ends in front of the limit is not stopped by the end of either text. -/
theorem forward (n : Nat) : Agrees c c' limit (Reading.forward n) (Reading.forward n) := by
  have hinside := h.front.inside
  have hinside' := h.front.inside'
  intro s
  rcases Nat.lt_or_ge limit (s.index + n) with hlt | hle
  · left
    show limit < min (s.index + n) c.text.size
    omega
  · refine .inr ⟨by omega, ?_⟩
    rw [forward_apply, forward_apply, Nat.min_eq_left (by omega), Nat.min_eq_left (by omega)]

theorem skipBlanks : Agrees c c' limit Reading.skipBlanks Reading.skipBlanks := by
  intro s
  have hblanks := h.hookFree .blanks
  have hbudget := h.budget
  have hblanks' : c'.dialect.hooks.get .blanks = [] := by
    rw [h.dialect]
    exact hblanks
  rw [skipBlanks_of_nil hblanks, skipBlanks_of_nil hblanks']
  by_cases hzero : c.budget = 0
  · rw [if_pos hzero]
    exact .inl trivial
  · rw [if_neg hzero, if_neg (by omega)]
    rcases Nat.lt_or_ge limit
      (Cursor.skipWhile ⟨c.text, s.index⟩ Grammar.isBlank s.index) with hlt | hle
    · exact .inl hlt
    · refine .inr ⟨Nat.le_trans (le_skipWhile _) hle, ?_⟩
      rw [skipWhile_eq] at hle ⊢
      rw [skipWhile_eq, takeWhile_eq_of_getElem? fun k hk =>
        h.front.getElem?_restAt (i := s.index) (by omega)]

theorem notify (p : HookPoint) (node : Option Expr) :
    Agrees c c' limit (Reading.notify p node) (Reading.notify p node) := by
  have hp' : c'.dialect.hooks.get p = [] := by
    rw [h.dialect]
    exact h.hookFree p
  exact .stays (fun _ => notify_of_nil (h.hookFree p)) fun _ => notify_of_nil hp'

theorem search (p : HookPoint) : Agrees c c' limit (Reading.search p) (Reading.search p) := by
  have hp' : c'.dialect.hooks.get p = [] := by
    rw [h.dialect]
    exact h.hookFree p
  exact .stays (fun _ => search_of_nil (h.hookFree p)) fun _ => search_of_nil hp'

theorem scanName : Agrees c c' limit (scan Lexeme.name) (scan Lexeme.name) :=
  .scan h.dialect (fun _ => Lexeme.le_name) fun _ hstop => h.front.name (by omega)

theorem scanNumber : Agrees c c' limit (scan Lexeme.number) (scan Lexeme.number) := by
  have hone : 1 ≤ c.dialect.grammar.lookahead := Nat.le_max_right _ _
  exact .scan h.dialect (fun _ => Lexeme.le_number) fun _ hstop => h.front.number (by omega)

theorem scanString :
    Agrees c c' limit (scan fun _ => Lexeme.string) (scan fun _ => Lexeme.string) :=
  .scan h.dialect (fun _ => Lexeme.le_string) fun _ hstop => h.front.string (by omega)

/-! ### Chains -/

theorem binaryOp : Agrees c c' limit Reading.binaryOp Reading.binaryOp := by
  refine h.skipBlanks.bind fun _ => .grammar_bind h.dialect <| .cursor_bind fun i place hplace => ?_
  rw [h.seen_binary hplace]
  cases Lexeme.binaryOperator c.dialect.grammar ⟨c.text, i⟩ with
  | none => exact .pure
  | some symbol => exact (h.forward _).bind fun _ => .pure

theorem nextOperator : Agrees c c' limit Reading.nextOperator Reading.nextOperator := by
  refine h.skipBlanks.bind fun _ => .grammar_bind h.dialect <| .cursor_bind fun i place hplace => ?_
  rw [h.seen_binary hplace]
  cases Lexeme.binaryOperator c.dialect.grammar ⟨c.text, i⟩ with
  | none => exact .pure
  | some symbol => exact .ite .pure ((h.forward _).bind fun _ => .pure)

theorem rightOperand (op : BinaryOp) :
    Agrees c c' limit (Reading.rightOperand op) (Reading.rightOperand op) := by
  refine h.operand.bind fun e => ?_
  cases e with
  | none => exact .failHere
  | some e => exact .pure

theorem chainWithin {n m : Nat} (hnm : n ≤ m) (found : Array (BinaryOp × Expr)) :
    Agrees c c' limit (Reading.chainWithin n found) (Reading.chainWithin m found) := by
  induction n generalizing m found with
  | zero => exact .exhausted
  | succ n ih =>
    obtain ⟨m, rfl, hle⟩ := exists_eq_succ hnm
    rw [chainWithin_succ, chainWithin_succ]
    refine h.nextOperator.bind fun op => ?_
    cases op with
    | none => exact .pure
    | some op => exact (h.rightOperand op).bind fun operand => ih hle _

theorem chainRest : Agrees c c' limit Reading.chainRest Reading.chainRest := by
  refine h.binaryOp.bind fun op => ?_
  cases op with
  | none => exact .pure
  | some op =>
    exact (h.rightOperand op).bind fun operand =>
      .budget_bind h.budget fun n m hnm => h.chainWithin hnm _

theorem binaryExpression :
    Agrees c c' limit Reading.binaryExpression Reading.binaryExpression := by
  refine h.operand.bind fun first => ?_
  cases first with
  | none => exact .pure
  | some first => exact h.chainRest.bind fun rest => .pure

/-! ### Programs and groups -/

theorem expressionsWithin (closer : Option Char) {n m : Nat} (hnm : n ≤ m) (found : Array Expr) :
    Agrees c c' limit (Reading.expressionsWithin closer n found)
      (Reading.expressionsWithin closer m found) := by
  induction n generalizing m found with
  | zero => exact .exhausted
  | succ n ih =>
    obtain ⟨m, rfl, hle⟩ := exists_eq_succ hnm
    rw [Reading.expressionsWithin, Reading.expressionsWithin]
    refine h.skipBlanks.bind fun _ => h.current.bind fun next => ?_
    cases next with
    | none => exact .pure
    | some ch =>
      refine .ite ((h.forward 1).bind fun _ => ih hle found) (h.expression.bind fun e => ?_)
      cases e with
      | some e => exact ih hle _
      | none =>
        refine h.current.bind fun last => ?_
        cases last with
        | none => exact .pure
        | some last => exact .ite .pure .failHere

theorem expressions (closer : Option Char) :
    Agrees c c' limit (Reading.expressions closer) (Reading.expressions closer) :=
  .budget_bind h.budget fun _ _ hnm => h.expressionsWithin closer hnm #[]

theorem group : Agrees c c' limit Reading.group Reading.group :=
  (h.forward 1).bind fun _ => (h.expressions _).bind fun _ => h.current.bind fun _ =>
    .ite ((h.forward 1).bind fun _ => .pure) .failHere

theorem program : Agrees c c' limit Reading.program Reading.program :=
  (h.notify _ _).bind fun _ => (h.expressions _).bind fun _ => h.notify _ _

/-! ### Lists -/

theorem slotsWithin (kind : ListKind) {n m : Nat} (hnm : n ≤ m) (slots : Slots) :
    Agrees c c' limit (Reading.slotsWithin kind n slots) (Reading.slotsWithin kind m slots) := by
  induction n generalizing m slots with
  | zero => exact .exhausted
  | succ n ih =>
    obtain ⟨m, rfl, hle⟩ := exists_eq_succ hnm
    rw [Reading.slotsWithin, Reading.slotsWithin]
    refine h.skipBlanks.bind fun _ => h.current.bind fun next => ?_
    cases next with
    | none => exact .failHere
    | some ch =>
      refine .ite ((h.forward 1).bind fun _ => .ite .pure .failHere) (.ite
        ((h.forward 1).bind fun _ => ?_) (.ite (h.expression.bind fun e => ?_) .failHere))
      · cases slots.comma kind with
        | none => exact .failHere
        | some slots => exact ih hle slots
      · cases e with
        | none => exact .failHere
        | some e => exact .ite .failHere (ih hle _)

theorem slots (kind : ListKind) :
    Agrees c c' limit (Reading.slots kind) (Reading.slots kind) :=
  .budget_bind h.budget fun _ _ hnm => h.slotsWithin kind hnm .empty

/-! ### Links -/

/-- An optional link is told by the character behind its mark. -/
theorem linkStart : Agrees c c' limit Reading.linkStart Reading.linkStart := by
  refine .cursor_bind fun i place hplace => ?_
  have hcurrent : place.current = c.text[i]? := by
    rw [Cursor.current, seen_index hplace]
    exact h.seen_charAt hplace (Nat.zero_le _)
  rw [hcurrent, seen_index hplace, h.seen_charAt hplace (Nat.le_refl _)]
  have hcur : (⟨c.text, i⟩ : Cursor).current = c.text[i]? := rfl
  rw [hcur]
  cases c.text[i]? with
  | none => exact .pure
  | some ch =>
    dsimp only
    cases LinkForm.ofChar? ch with
    | some form => exact (h.forward 1).bind fun _ => .pure
    | none =>
      refine .ite ((h.forward 2).bind fun _ => h.skipBlanks.bind fun _ =>
        h.current.bind fun next => ?_) .pure
      split
      · exact (h.forward 1).bind fun _ => .pure
      · exact (h.forward 1).bind fun _ => .pure
      · exact .pure

theorem linkBody (node : Expr) (form : LinkForm) :
    Agrees c c' limit (Reading.linkBody node form) (Reading.linkBody node form) := by
  cases form with
  | property => exact h.skipBlanks.bind fun _ => h.scanName.bind fun w => .pure
  | index =>
    refine h.expression.bind fun key => ?_
    cases key with
    | none => exact .failHere
    | some key =>
      exact h.skipBlanks.bind fun _ => h.current.bind fun next =>
        .ite ((h.forward 1).bind fun _ => .pure) .failHere
  | call => exact (h.slots .arguments).bind fun items => .pure

theorem linksWithin {n m : Nat} (hnm : n ≤ m) (node : Expr) :
    Agrees c c' limit (Reading.linksWithin n node) (Reading.linksWithin m node) := by
  induction n generalizing m node with
  | zero => exact .exhausted
  | succ n ih =>
    obtain ⟨m, rfl, hle⟩ := exists_eq_succ hnm
    rw [Reading.linksWithin, Reading.linksWithin]
    refine h.linkStart.bind fun link => ?_
    rcases link with - | ⟨form, optional⟩
    · exact .pure
    · exact (h.linkBody node form).bind fun linked => h.skipBlanks.bind fun _ => ih hle _

theorem links (node : Expr) :
    Agrees c c' limit (Reading.links node) (Reading.links node) :=
  h.skipBlanks.bind fun _ => .budget_bind h.budget fun _ _ hnm => h.linksWithin hnm node

/-! ### Operands -/

theorem linkedOperand (node : Option Expr) :
    Agrees c c' limit (Reading.linkedOperand node) (Reading.linkedOperand node) := by
  cases node with
  | none => exact h.notify _ _
  | some node => exact (h.links node).bind fun linked => h.notify _ _

theorem unaryOperand (operator : String) :
    Agrees c c' limit (Reading.unaryOperand operator) (Reading.unaryOperand operator) := by
  refine (h.forward _).bind fun _ => h.operand.bind fun argument => ?_
  cases argument with
  | none => exact .failHere
  | some argument => exact h.notify _ _

theorem operandFrom (ch : Char) :
    Agrees c c' limit (Reading.operandFrom ch) (Reading.operandFrom ch) := by
  refine .grammar_bind h.dialect <| .ite (h.scanNumber.bind fun number => .pure) <|
    .ite (h.scanString.bind fun string => h.linkedOperand _) <|
      .ite ((h.forward 1).bind fun _ => (h.slots .elements).bind fun items =>
        h.linkedOperand _) <| .cursor_bind fun i place hplace => ?_
  rw [h.seen_unary hplace]
  cases Lexeme.unaryOperator c.dialect.grammar ⟨c.text, i⟩ with
  | some operator => exact h.unaryOperand operator
  | none =>
    exact .ite (h.scanName.bind fun w => h.linkedOperand _)
      (.ite (h.group.bind fun node => h.linkedOperand node) (h.linkedOperand none))

/-! ### The two levels -/

theorem operandBody : Agrees c c' limit Reading.operandBody Reading.operandBody := by
  refine h.skipBlanks.bind fun _ => (h.search _).bind fun supplied => ?_
  cases supplied with
  | some node => exact h.notify _ _
  | none =>
    refine h.current.bind fun next => ?_
    cases next with
    | none => exact h.notify _ _
    | some ch => exact h.operandFrom ch

theorem expressionBody : Agrees c c' limit Reading.expressionBody Reading.expressionBody := by
  have hrest (node : Option Expr) : Agrees c c' limit
      (do
        Reading.skipBlanks
        Reading.notify .expressionDone node)
      (do
        Reading.skipBlanks
        Reading.notify .expressionDone node) :=
    h.skipBlanks.bind fun _ => h.notify _ _
  refine (h.search _).bind fun supplied => ?_
  cases supplied with
  | some e => exact hrest (some e)
  | none => exact h.binaryExpression.bind hrest

end Window

end Reading

/-! ### Whole texts -/

theorem eq_of_take_eq {l l' : List α} {k : Nat} (h : l'.take k = l.take k) (hk : l.length < k) :
    l' = l := by
  have hlength := congrArg List.length h
  rw [List.length_take, List.length_take] at hlength
  rwa [List.take_of_length_le (by omega), List.take_of_length_le (by omega)] at h

theorem SharedFront.of_take {text text' : String} {last : Nat}
    (h : text'.toList.take (last + 1) = text.toList.take (last + 1))
    (hlong : last < text.toList.length) :
    SharedFront text.toList.toArray text'.toList.toArray last where
  same j hj := by
    have hj' := congrArg (fun l => l[j]?) h
    simpa [List.getElem?_take, Nat.lt_succ_of_le hj] using hj'
  inside := hlong
  inside' := by
    have hlength := congrArg List.length h
    rw [List.length_take, List.length_take] at hlength
    show last < text'.toList.length
    omega

namespace Dialect

open Reading

section

variable {d : Dialect} (hd : d.HookFree)
include hd

theorem HookFree.window {text text' : Array Char} {limit : Nat}
    (hfront : SharedFront text text' (limit + d.grammar.lookahead)) {n m : Nat} (hnm : n ≤ m) :
    Window (d.context text n) (d.context text' m) limit := by
  induction n generalizing m with
  | zero => exact ⟨hd, rfl, hnm, hfront, fun _ => .inl trivial, fun _ => .inl trivial⟩
  | succ n ih =>
    obtain ⟨m, rfl, hle⟩ := exists_eq_succ hnm
    have hwindow := ih hle
    exact ⟨hd, rfl, hnm, hfront, .nested rfl hwindow.operandBody,
      .nested rfl hwindow.expressionBody⟩

/-- **A failure is decided by the text up to it.**  Without callbacks, where a text fails at
an offset, every text with the same characters up to that offset and in the window behind it
fails for the same cause at the same offset.  The window has as many characters as the longest
operator, and at least one; a text that ends in it is the other text. -/
theorem HookFree.parse_decided {text text' : String} {e : Failure}
    (h : d.parse text = some (.error e))
    (hsame : text'.toList.take (e.index + d.grammar.lookahead + 1) =
      text.toList.take (e.index + d.grammar.lookahead + 1)) :
    d.parse text' = some (.error e) := by
  rcases Nat.lt_or_ge (e.index + d.grammar.lookahead) text.toList.length with hlong | hshort
  · have hfront := SharedFront.of_take hsame hlong
    have hn := Nat.le_max_left (2 * text.length + 4) (2 * text'.length + 4)
    have hm := Nat.le_max_right (2 * text.length + 4) (2 * text'.length + 4)
    have hrun := (hd.parse_eq_some_iff (Nat.le_refl _)).mp h
    rcases (hd.window hfront hn).program .initial with hpast | ⟨-, heq⟩
    · have hpast : (d.parseWithin (2 * text.length + 4) text.toList.toArray).Past e.index := hpast
      generalize d.parseWithin (2 * text.length + 4) text.toList.toArray = r at hrun hpast
      cases r with
      | ok a s => cases hrun
      | fail e' s =>
        cases hrun
        exact absurd hpast (Nat.lt_irrefl _)
      | exhausted => cases hrun
    · exact (hd.parse_eq_some_iff hm).mpr ((congrArg Reply.outcome? heq).trans hrun)
  · have htext : text'.toList = text.toList :=
      eq_of_take_eq hsame (Nat.lt_succ_of_le hshort)
    rw [String.toList_injective htext]
    exact h

end

/-- In front of an operator of precedence zero, which is put back, an index is not closed,
whatever follows behind the window. -/
theorem HookFree.parse_decided_bracket :
    let d := standard.mapGrammar (·.addBinaryOp "#" 0 false)
    d.HookFree ∧ d.grammar.lookahead = 3 ∧
      d.parse "x[a + b # c]" = some (.error ⟨.bracket, 8⟩) ∧
      d.parse "x[a + b # c]](" = some (.error ⟨.bracket, 8⟩) := by
  intro d
  have hd : d.HookFree := fun p => by cases p <;> rfl
  have hfails : d.parse "x[a + b # c]" = some (.error ⟨.bracket, 8⟩) :=
    parse_of_failsAs (by decide +kernel)
  exact ⟨hd, by decide +kernel, hfails, hd.parse_decided hfails (by decide +kernel)⟩

end Dialect

end OperatorGrammar
