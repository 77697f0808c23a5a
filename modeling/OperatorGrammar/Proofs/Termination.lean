/-
OperatorGrammar/Proofs/Termination.lean

Reading with a plain dialect comes to an end.

A reading that does not end shows as one that uses up its budget, and the budget
bounds the rounds of every loop and the depth of the entries alike.  So what is
shown is that some budget is never used up (`Reading.Answers`), and that a larger
one changes nothing.

The measure is the number of characters that are left (`Context.left`).  A round
of a loop takes a character or is the last one.  An entry stands in front of
fewer characters than the production that makes it, except that an expression
enters an operand in front of the same ones; twice the number and a little more
is therefore depth enough (`Context.Ends`).  What a part takes is known from what
it reads (`Reads.width`).

Main result: `Dialect.parse_terminates`.
-/
import OperatorGrammar.Proofs.Independence
import OperatorGrammar.Proofs.ReadsComplete

namespace OperatorGrammar

/-! ### What is left -/

/-- How many characters are left. -/
def Context.left (c : Context) (s : State) : Nat :=
  c.text.size - s.index

/-- With twice the characters that are left, and a little more, every entry answers. -/
structure Context.Ends (c : Context) : Prop where
  operand : ∀ s, 2 * c.left s + 3 ≤ c.budget → c.enter .operand s ≠ .exhausted
  expression : ∀ s, 2 * c.left s + 4 ≤ c.budget → c.enter .expression s ≠ .exhausted

section Left

variable {c : Context} {s s' : State}

theorem Context.left_eq : (restAt c.text s.index).length = c.left s := length_restAt

theorem Context.left_forward (n : Nat) :
    c.left { s with index := min (s.index + n) c.text.size } = c.left s - n := by
  unfold left
  dsimp only
  omega

theorem Context.left_le (h : restAt c.text s'.index <:+ restAt c.text s.index) :
    c.left s' ≤ c.left s := by
  rw [← left_eq, ← left_eq]
  exact h.length_le

theorem Context.left_lt (h : (restAt c.text s'.index).length < (restAt c.text s.index).length) :
    c.left s' < c.left s := by
  rwa [left_eq, left_eq] at h

/-- A character at the cursor is one that is left. -/
theorem Context.left_pos {ch : Char} (h : c.text[s.index]? = some ch) : 0 < c.left s := by
  obtain ⟨hlt, -⟩ := Array.getElem?_eq_some_iff.mp h
  exact Nat.sub_pos_of_lt hlt

namespace Reading

theorem left_skipBlanks (hd : c.dialect.Plain) {u : Unit} (h : skipBlanks c s = .ok u s') :
    c.left s' ≤ c.left s :=
  Context.left_le (skips_of_skipBlanks hd h).suffix

theorem left_binaryOp (hd : c.dialect.Plain) {op : BinaryOp}
    (h : binaryOp c s = .ok (some op) s') : c.left s' < c.left s := by
  obtain ⟨-, hskips, hop, -⟩ := binaryOp_some hd h
  obtain ⟨-, hne, -⟩ := Grammar.binaryOpIn_sound hop
  have hle := hskips.length_le
  have hpos := List.length_pos_iff.mpr hne
  rw [List.length_append, Context.left_eq, Context.left_eq] at hle
  omega

theorem left_operand (hc : c.Sound) {e : Expr} (h : c.enter .operand s = .ok (some e) s') :
    c.left s' < c.left s := by
  have hwidth := (hc.operand h).width
  simp only [Phrase.width, Option.isSome_some, if_true, Context.left_eq] at hwidth
  omega

theorem left_expression (hc : c.Sound) {e : Expr} (h : c.enter .expression s = .ok (some e) s') :
    c.left s' < c.left s := by
  have hwidth := (hc.expression h).width
  simp only [Phrase.width, Option.isSome_some, if_true, Context.left_eq] at hwidth
  omega

theorem left_name {w : String} (h : scan Lexeme.name c s = .ok w s') : c.left s' < c.left s :=
  Context.left_lt (Lexeme.token_of_name (scan_eq_ok.mp h).1).length_lt

theorem left_string {ch : Char} (hch : c.text[s.index]? = some ch) (hquote : IsQuote ch) {e : Expr}
    (h : scan (fun _ => Lexeme.string) c s = .ok e s') : c.left s' < c.left s := by
  have hfirst : ∀ q ∈ c.text[s.index]?, IsQuote q := by
    intro q hq
    rw [hch] at hq
    cases hq
    exact hquote
  obtain ⟨raw, value, -, htoken⟩ := Lexeme.token_of_string hfirst (scan_eq_ok.mp h).1
  exact Context.left_lt htoken.length_lt

theorem left_slots (hd : c.dialect.Plain) (hc : c.Sound) {kind : ListKind}
    {items : List (Option Expr)} (h : slots kind c s = .ok items s') : c.left s' ≤ c.left s := by
  obtain ⟨events, after, -, hreads⟩ := reads_of_slots hd hc h
  exact Context.left_le hreads.suffix

theorem left_binaryExpression (hd : c.dialect.Plain) (hc : c.Sound) {e : Option Expr}
    (h : binaryExpression c s = .ok e s') : c.left s' ≤ c.left s :=
  Context.left_le (reads_of_binaryExpression hd hc h).suffix

theorem left_linkStart (hd : c.dialect.Plain) {form : LinkForm} {optional : Bool}
    (h : linkStart c s = .ok (some (form, optional)) s') : c.left s' < c.left s :=
  Context.left_lt (linkStart_some hd h).length_lt

theorem left_linkBody (hd : c.dialect.Plain) (hc : c.Sound) {node linked : Expr} {form : LinkForm}
    (h : linkBody node form c s = .ok linked s') : c.left s' ≤ c.left s := by
  cases form with
  | property =>
    obtain ⟨_, s₁, hblanks, h⟩ := bind_eq_ok.mp h
    obtain ⟨w, s₂, hname, h⟩ := bind_eq_ok.mp h
    cases h
    exact Nat.le_trans (Nat.le_of_lt (left_name hname)) (left_skipBlanks hd hblanks)
  | index =>
    obtain ⟨key, s₁, henter, h⟩ := bind_eq_ok.mp h
    cases key with
    | none => cases h
    | some key =>
      obtain ⟨_, s₂, hblanks, h⟩ := bind_eq_ok.mp h
      have hkey := left_expression hc henter
      have hle := left_skipBlanks hd hblanks
      rw [bind_of_ok current_apply] at h
      by_cases hlast : c.text[s₂.index]? = some ']'
      · simp only [hlast, if_true] at h
        rw [bind_of_ok (forward_apply _)] at h
        cases h
        rw [Context.left_forward]
        omega
      · simp only [hlast, if_false] at h
        cases h
  | call =>
    obtain ⟨items, s₁, hslots, h⟩ := bind_eq_ok.mp h
    cases h
    exact left_slots hd hc hslots

/-- A group takes its opening parenthesis at least. -/
theorem left_group (hd : c.dialect.Plain) (hc : c.Sound) {ch : Char}
    (hch : c.text[s.index]? = some ch) {r : Option Expr} (h : group c s = .ok r s') :
    c.left s' < c.left s := by
  have hcons := restAt_eq_cons hch
  obtain ⟨nodes, -, hreads⟩ := reads_of_group hd hc hcons h
  have hle := hreads.suffix.length_le
  refine Context.left_lt ?_
  rw [hcons]
  simp only [List.length_cons] at hle ⊢
  omega

end Reading

end Left

/-! ### Readings that answer -/

theorem Reply.ok_ne_exhausted {α : Type} {a : α} {s : State} : Reply.ok a s ≠ .exhausted := by
  intro h
  cases h

theorem Reply.fail_ne_exhausted {α : Type} {e : Failure} {s : State} :
    (Reply.fail e s : Reply α) ≠ .exhausted := by
  intro h
  cases h

namespace Reading

variable {α β : Type}

/-- From a state, the budget does not run out. -/
def Answers (c : Context) (s : State) (x : Reading α) : Prop :=
  x c s ≠ .exhausted

namespace Answers

variable {c : Context} {s s₁ : State} {x : Reading α} {f : α → Reading β} {a : α}

theorem of_ok (h : x c s = .ok a s₁) : Answers c s x := by
  unfold Answers
  rw [h]
  exact Reply.ok_ne_exhausted

theorem pure : Answers c s (Pure.pure a) :=
  of_ok rfl

theorem failHere (e : Cause) : Answers c s (Reading.failHere e : Reading α) :=
  Reply.fail_ne_exhausted

theorem bind (hx : Answers c s x) (hf : ∀ a s₁, x c s = .ok a s₁ → Answers c s₁ (f a)) :
    Answers c s (x >>= f) := by
  unfold Answers
  rw [bind_apply]
  rcases h : x c s with ⟨a, s₁⟩ | ⟨e, s₁⟩ | -
  · exact hf a s₁ h
  · exact Reply.fail_ne_exhausted
  · exact absurd h hx

/-- A sequence whose first part is known to succeed. -/
theorem step (hx : x c s = .ok a s₁) (hf : Answers c s₁ (f a)) : Answers c s (x >>= f) := by
  unfold Answers
  rw [bind_of_ok hx]
  exact hf

theorem ite {p : Prop} [Decidable p] {y : Reading α} (h : p → Answers c s x)
    (h' : ¬ p → Answers c s y) : Answers c s (if p then x else y) := by
  by_cases hp : p
  · rw [if_pos hp]
    exact h hp
  · rw [if_neg hp]
    exact h' hp

/-- One level deeper the same characters are left. -/
theorem nested (h : ∀ t, c.left t = c.left s → Answers c t x) :
    Answers c s (Reading.nested x) := by
  have hbody : Answers c { s with depth := s.depth + 1 } x := h _ rfl
  unfold Answers
  rw [Reading.nested]
  split
  · exact Reply.fail_ne_exhausted
  · rcases hx : x c { s with depth := s.depth + 1 } with ⟨a, s₁⟩ | ⟨e, s₁⟩ | -
    · exact Reply.ok_ne_exhausted
    · exact Reply.fail_ne_exhausted
    · exact absurd hx hbody

theorem scan {scanner : Grammar → Cursor → Scan α} : Answers c s (Reading.scan scanner) := by
  refine step (grammar_apply) (step cursor_apply (step (moveTo_apply _) ?_))
  rcases (scanner c.dialect.grammar ⟨c.text, s.index⟩).result with cause | value
  · exact failHere cause
  · exact pure

theorem settle (ending : Ending) : Answers c s (Reading.settle ending) := by
  obtain ⟨left, failure⟩ := ending
  cases failure with
  | none => exact pure
  | some e => exact Reply.fail_ne_exhausted

end Answers

/-! ### White space -/

section Productions

variable {c : Context} {s : State}

/-- A block comment is closed, or the text ends, before the rounds do. -/
theorem skipBlock_answers {start n : Nat} (hn : c.left s < n) :
    Answers c s ((Comments.skipBlock start n).run none) := by
  induction n generalizing s with
  | zero => exact absurd hn (Nat.not_lt_zero _)
  | succ n ih =>
    unfold Answers
    rw [Comments.skipBlock, Script.run_look]
    split
    · exact Reply.ok_ne_exhausted
    · split
      · exact Reply.ok_ne_exhausted
      · rename_i hend
        rw [Script.run_advance (by decide)]
        refine ih ?_
        have hlt : s.index < c.text.size := by simpa [Cursor.atEnd] using hend
        have hpos : 0 < c.left s := Nat.sub_pos_of_lt hlt
        rw [Context.left_forward]
        show c.left s - 1 < n
        omega

theorem comments_answers : Answers c s (Comments.script.run none) := by
  unfold Answers
  rw [Comments.script, Script.run_look]
  split
  · obtain ⟨i, hrun, -, -⟩ := run_skipLine (c := c) (s := s)
      (n := (⟨c.text, s.index⟩ : Cursor).remaining) (Nat.le_of_eq length_restAt)
    exact Answers.of_ok hrun
  · split
    · rename_i hblock
      obtain ⟨more, hmore⟩ := startsWith_iff.mp hblock
      have hleft : c.left s = more.length + 2 := by
        rw [← Context.left_eq, ← hmore]
        simp
      rw [Script.run_advance (by decide)]
      refine skipBlock_answers ?_
      rw [Context.left_forward]
      show c.left s - 2 < c.left s
      omega
    · exact Reply.ok_ne_exhausted

variable (hd : c.dialect.Plain)
include hd

theorem notifyBlanks_answers : Answers c s (notify .blanks none) := by
  rcases hd.blanks with hp | ⟨h, hp, hscript⟩
  · exact .of_ok (notify_of_nil hp)
  · unfold Answers
    rw [notify_of_singleton hp, hscript]
    exact comments_answers.bind fun ending _ _ => .settle ending

theorem skipBlanksWithin_answers {n : Nat} (hn : c.left s < n) :
    Answers c s (skipBlanksWithin n) := by
  induction n generalizing s with
  | zero => exact absurd hn (Nat.not_lt_zero _)
  | succ n ih =>
    rw [skipBlanksWithin]
    refine .step cursor_apply (.step (moveTo_apply _) ((notifyBlanks_answers hd).bind ?_))
    intro r s₁ hnotify
    refine .step cursor_apply (.ite (fun _ => .pure) fun hmoved => ih ?_)
    rcases notify_blanks hd hnotify with ⟨-, hcomment⟩ | ⟨-, rfl⟩
    · -- the white space in front of the comment is gone as well
      have hlt := hcomment.length_lt
      have hle := (List.dropWhile_suffix (l := restAt c.text s.index) Grammar.isBlank).length_le
      rw [← restAt_skipWhile s.index] at hle
      rw [Context.left_eq] at hle
      rw [Context.left_eq] at hlt
      have hlt' : c.left s₁ < c.left s := Nat.lt_of_lt_of_le hlt hle
      omega
    · exact absurd rfl hmoved

theorem skipBlanks_answers (hn : c.left s < c.budget) : Answers c s skipBlanks :=
  .step budget_apply (skipBlanksWithin_answers hd hn)

/-! ### Chains -/

theorem binaryOp_answers (hn : c.left s < c.budget) : Answers c s binaryOp := by
  refine (skipBlanks_answers hd hn).bind fun _ s₁ _ => .step grammar_apply (.step cursor_apply ?_)
  cases Lexeme.binaryOperator c.dialect.grammar ⟨c.text, s₁.index⟩ with
  | none => exact .pure
  | some symbol => exact .step (forward_apply _) .pure

variable (hc : c.Sound) (he : c.Ends)
include hc he

omit hd hc in
theorem rightOperand_answers {op : BinaryOp} (hn : 2 * c.left s + 3 ≤ c.budget) :
    Answers c s (rightOperand op) := by
  refine Answers.bind (he.operand s hn) fun e s₁ _ => ?_
  cases e with
  | none => exact .failHere _
  | some e => exact .pure

theorem chainWithin_answers {n : Nat} (hn : c.left s < n) (hbudget : 2 * c.left s + 2 ≤ c.budget)
    (found : Array (BinaryOp × Expr)) : Answers c s (chainWithin n found) := by
  induction n generalizing s found with
  | zero => exact absurd hn (Nat.not_lt_zero _)
  | succ n ih =>
    rw [chainWithin]
    refine (binaryOp_answers hd (by omega)).bind fun op s₁ hop => ?_
    cases op with
    | none => exact .pure
    | some op =>
      have hlt := left_binaryOp hd hop
      refine .ite (fun _ => .step (rewind_apply _) .pure) fun _ => ?_
      refine (rightOperand_answers he (by omega)).bind fun operand s₂ hoperand => ?_
      have hlt' := left_operand hc (rightOperand_eq_ok.mp hoperand)
      exact ih (by omega) (by omega) _

theorem chainRest_answers (hbudget : 2 * c.left s + 2 ≤ c.budget) : Answers c s chainRest := by
  refine (binaryOp_answers hd (by omega)).bind fun op s₁ hop => ?_
  cases op with
  | none => exact .pure
  | some op =>
    have hlt := left_binaryOp hd hop
    refine (rightOperand_answers he (by omega)).bind fun operand s₂ hoperand => ?_
    have hlt' := left_operand hc (rightOperand_eq_ok.mp hoperand)
    exact .step budget_apply (chainWithin_answers hd hc he (by omega) (by omega) _)

theorem binaryExpression_answers (hbudget : 2 * c.left s + 3 ≤ c.budget) :
    Answers c s binaryExpression := by
  refine Answers.bind (he.operand s hbudget) fun first s₁ hfirst => ?_
  cases first with
  | none => exact .pure
  | some first =>
    have hlt := left_operand hc hfirst
    exact (chainRest_answers hd hc he (by omega)).bind fun _ _ _ => .pure

/-! ### Expressions -/

omit hd he in
/-- What a callback needs is asked for on the budget of the entries. -/
theorem needExpression_answers {next : Expr → Script} {node : Option Expr}
    (henter : c.enter .expression s ≠ .exhausted)
    (hnext : ∀ e s₁, c.left s₁ < c.left s → Answers c s₁ ((next e).run node)) :
    Answers c s ((Script.needExpression next).run node) := by
  unfold Answers
  rw [Script.needExpression, Script.run]
  rcases hr : c.enter .expression s with ⟨_ | e, s₁⟩ | ⟨e, s₁⟩ | -
  · simp [hr]
  · simp only [hr]
    exact hnext e s₁ (left_expression hc hr)
  · simp [hr]
  · exact absurd hr henter

omit hd hc he in
theorem needChar_answers {ch : Char} {cause : Cause} {next : Script} {node : Option Expr}
    (hnext : Answers c { s with index := min (s.index + 1) c.text.size } (next.run node)) :
    Answers c s ((Script.needChar ch cause next).run node) := by
  unfold Answers
  rw [Script.needChar, Script.run_look]
  split
  · rw [Script.run_advance (by decide)]
    exact hnext
  · exact Reply.ok_ne_exhausted

omit hd in
theorem ternary_answers (hbudget : 2 * c.left s + 2 ≤ c.budget) (node : Option Expr) :
    Answers c s (Ternary.script.run node) := by
  unfold Answers
  rw [Ternary.script, Script.run_look]
  split
  · rename_i test hmark _
    have hpos : 0 < c.left s := Context.left_pos hmark
    have hone : UInt64.toNat 1 = 1 := rfl
    rw [Script.run_setNode, Script.run_advance (by decide), hone]
    have hafter := c.left_forward (s := s) 1
    -- both branches stand behind the mark, and the second behind the first
    refine needExpression_answers hc (he.expression _ (by rw [hafter]; omega)) ?_
    intro consequent s₁ hlt
    refine needChar_answers ?_
    have hafter' := c.left_forward (s := s₁) 1
    refine needExpression_answers hc (he.expression _ (by rw [hafter']; omega)) ?_
    intro alternate s₂ _
    exact .of_ok rfl
  · exact Reply.ok_ne_exhausted

theorem notifyExpressionDone_answers (hbudget : 2 * c.left s + 2 ≤ c.budget)
    (node : Option Expr) : Answers c s (notify .expressionDone node) := by
  rcases hd.expressionDone with hp | ⟨h, hp, hscript⟩
  · exact .of_ok (notify_of_nil hp)
  · unfold Answers
    rw [notify_of_singleton hp, hscript]
    exact (ternary_answers hc he hbudget node).bind fun ending _ _ => .settle ending

theorem expression_answers (hbudget : 2 * c.left s + 3 ≤ c.budget) : Answers c s expression := by
  refine .nested fun t ht => .step (search_of_nil hd.expression) ?_
  refine Answers.bind (binaryExpression_answers hd hc he (by omega)) fun node s₁ hnode => ?_
  have hle := left_binaryExpression hd hc hnode
  refine (skipBlanks_answers hd (by omega)).bind fun _ s₂ hblanks => ?_
  have hle' := left_skipBlanks hd hblanks
  exact notifyExpressionDone_answers hd hc he (by omega) node

/-! ### Programs and groups -/

theorem expressionsWithin_answers (closer : Option Char) {n : Nat} (hn : c.left s < n)
    (hbudget : 2 * c.left s + 4 ≤ c.budget) (found : Array Expr) :
    Answers c s (expressionsWithin closer n found) := by
  induction n generalizing s found with
  | zero => exact absurd hn (Nat.not_lt_zero _)
  | succ n ih =>
    rw [expressionsWithin]
    refine (skipBlanks_answers hd (by omega)).bind fun _ s₁ hblanks => .step current_apply ?_
    have hle := left_skipBlanks hd hblanks
    rcases hch : c.text[s₁.index]? with - | ch
    · exact .pure
    have hpos := Context.left_pos hch
    refine .ite (fun _ => .step (forward_apply _) ?_) fun _ => ?_
    · have hafter := c.left_forward (s := s₁) 1
      exact ih (by omega) (by omega) found
    refine Answers.bind (he.expression s₁ (by omega)) fun e s₂ hexpr => ?_
    cases e with
    | some e =>
      have hlt := left_expression hc hexpr
      exact ih (by omega) (by omega) _
    | none =>
      refine .step current_apply ?_
      cases c.text[s₂.index]? with
      | none => exact .pure
      | some last => exact .ite (fun _ => .pure) fun _ => .failHere _

theorem expressions_answers (closer : Option Char) (hbudget : 2 * c.left s + 4 ≤ c.budget) :
    Answers c s (expressions closer) :=
  .step budget_apply (expressionsWithin_answers hd hc he closer (by omega) hbudget #[])

theorem group_answers (hpos : 0 < c.left s) (hbudget : 2 * c.left s + 2 ≤ c.budget) :
    Answers c s group := by
  have hafter := c.left_forward (s := s) 1
  refine .step (forward_apply _) ?_
  refine (expressions_answers hd hc he (some ')') (by omega)).bind fun nodes s₁ _ => ?_
  refine .step current_apply (.ite (fun _ => .step (forward_apply _) .pure) fun _ => ?_)
  exact .failHere _

theorem program_answers (hbudget : 2 * c.left s + 4 ≤ c.budget) : Answers c s program := by
  refine .step (notify_of_nil hd.start) ?_
  refine (expressions_answers hd hc he none hbudget).bind fun nodes s₁ _ => ?_
  exact .of_ok (notify_of_nil hd.finish)

/-! ### Lists -/

theorem slotsWithin_answers (kind : ListKind) {n : Nat} (hn : c.left s < n)
    (hbudget : 2 * c.left s + 4 ≤ c.budget) (before : Slots) :
    Answers c s (slotsWithin kind n before) := by
  induction n generalizing s before with
  | zero => exact absurd hn (Nat.not_lt_zero _)
  | succ n ih =>
    rw [slotsWithin]
    refine (skipBlanks_answers hd (by omega)).bind fun _ s₁ hblanks => .step current_apply ?_
    have hle := left_skipBlanks hd hblanks
    rcases hch : c.text[s₁.index]? with - | ch
    · exact .failHere _
    have hpos := Context.left_pos hch
    have hafter := c.left_forward (s := s₁) 1
    refine .ite (fun _ => .step (forward_apply _) ?_) fun _ =>
      .ite (fun _ => .step (forward_apply _) ?_) fun _ => .ite (fun _ => ?_) fun _ => .failHere _
    · exact .ite (fun _ => .pure) fun _ => .failHere _
    · cases before.comma kind with
      | none => exact .failHere _
      | some after => exact ih (by omega) (by omega) after
    · refine Answers.bind (he.expression s₁ (by omega)) fun e s₂ hexpr => ?_
      cases e with
      | none => exact .failHere _
      | some e =>
        have hlt := left_expression hc hexpr
        exact .ite (fun _ => .failHere _) fun _ => ih (by omega) (by omega) _

theorem slots_answers (kind : ListKind) (hbudget : 2 * c.left s + 4 ≤ c.budget) :
    Answers c s (slots kind) :=
  .step budget_apply (slotsWithin_answers hd hc he kind (by omega) hbudget .empty)

/-! ### Links -/

omit hc he in
theorem linkStart_answers (hn : c.left s < c.budget) : Answers c s linkStart := by
  refine .step cursor_apply ?_
  cases (⟨c.text, s.index⟩ : Cursor).current with
  | none => exact .pure
  | some ch =>
    dsimp only
    cases LinkForm.ofChar? ch with
    | some form => exact .step (forward_apply _) .pure
    | none =>
      refine .ite (fun _ => .step (forward_apply _) ?_) fun _ => .pure
      have hafter := c.left_forward (s := s) 2
      refine (skipBlanks_answers hd (by omega)).bind fun _ s₁ _ => .step current_apply ?_
      split
      · exact .step (forward_apply _) .pure
      · exact .step (forward_apply _) .pure
      · exact .pure

theorem linkBody_answers (node : Expr) (form : LinkForm) (hbudget : 2 * c.left s + 4 ≤ c.budget) :
    Answers c s (linkBody node form) := by
  cases form with
  | property =>
    refine (skipBlanks_answers hd (by omega)).bind fun _ s₁ _ => ?_
    exact Answers.scan.bind fun w s₂ _ => .pure
  | index =>
    refine Answers.bind (he.expression s hbudget) fun key s₁ hkey => ?_
    cases key with
    | none => exact .failHere _
    | some key =>
      have hlt := left_expression hc hkey
      refine (skipBlanks_answers hd (by omega)).bind fun _ s₂ _ => .step current_apply ?_
      exact .ite (fun _ => .step (forward_apply _) .pure) fun _ => .failHere _
  | call => exact (slots_answers hd hc he .arguments hbudget).bind fun _ _ _ => .pure

theorem linksWithin_answers {n : Nat} (hn : c.left s < n) (hbudget : 2 * c.left s + 2 ≤ c.budget)
    (node : Expr) : Answers c s (linksWithin n node) := by
  induction n generalizing s node with
  | zero => exact absurd hn (Nat.not_lt_zero _)
  | succ n ih =>
    rw [linksWithin]
    refine (linkStart_answers hd (by omega)).bind fun found s₁ hstart => ?_
    rcases found with - | ⟨form, optional⟩
    · exact .pure
    -- the opening of the link is behind the cursor before anything is entered
    have hlt := left_linkStart hd hstart
    refine (linkBody_answers hd hc he node form (by omega)).bind fun linked s₂ hbody => ?_
    have hle := left_linkBody hd hc hbody
    refine (skipBlanks_answers hd (by omega)).bind fun _ s₃ hblanks => ?_
    have hle' := left_skipBlanks hd hblanks
    exact ih (by omega) (by omega) _

theorem links_answers (hbudget : 2 * c.left s + 2 ≤ c.budget) (node : Expr) :
    Answers c s (links node) := by
  refine (skipBlanks_answers hd (by omega)).bind fun _ s₁ hblanks => .step budget_apply ?_
  have hle := left_skipBlanks hd hblanks
  exact linksWithin_answers hd hc he (by omega) (by omega) node

/-! ### Operands -/

theorem linkedOperand_answers (hbudget : 2 * c.left s + 2 ≤ c.budget) (node : Option Expr) :
    Answers c s (linkedOperand node) := by
  cases node with
  | none => exact .of_ok (notify_of_nil hd.operandDone)
  | some node =>
    exact (links_answers hd hc he hbudget node).bind fun _ _ _ =>
      .of_ok (notify_of_nil hd.operandDone)

omit hc in
theorem unaryOperand_answers {op : String} (hpos : 0 < op.length) (hleft : 0 < c.left s)
    (hbudget : 2 * c.left s + 2 ≤ c.budget) : Answers c s (unaryOperand op) := by
  have hafter := c.left_forward (s := s) op.length
  refine .step (forward_apply _) (Answers.bind (he.operand _ (by omega)) fun argument s₁ _ => ?_)
  cases argument with
  | none => exact .failHere _
  | some argument => exact .of_ok (notify_of_nil hd.operandDone)

theorem operandFrom_answers {ch : Char} (hch : c.text[s.index]? = some ch)
    (hbudget : 2 * c.left s + 2 ≤ c.budget) : Answers c s (operandFrom ch) := by
  have hpos := Context.left_pos hch
  have hafter := c.left_forward (s := s) 1
  refine .step grammar_apply ?_
  refine .ite (fun _ => Answers.scan.bind fun _ _ _ => .pure) fun _ =>
    .ite (fun hquote => ?_) fun _ =>
    .ite (fun _ => .step (forward_apply _) ?_) fun _ => .step cursor_apply ?_
  · refine Answers.scan.bind fun e s₁ hstring => ?_
    have hlt := left_string hch hquote hstring
    exact linkedOperand_answers hd hc he (by omega) _
  · refine (slots_answers hd hc he .elements (by omega)).bind fun items s₁ hslots => ?_
    have hle := left_slots hd hc hslots
    exact linkedOperand_answers hd hc he (by omega) _
  · rcases hop : Lexeme.unaryOperator c.dialect.grammar ⟨c.text, s.index⟩ with - | op
    · refine .ite (fun _ => ?_) fun _ => .ite (fun _ => ?_) fun _ => ?_
      · refine Answers.scan.bind fun w s₁ hname => ?_
        have hlt := left_name hname
        exact linkedOperand_answers hd hc he (by omega) _
      · refine (group_answers hd hc he hpos hbudget).bind fun node s₁ hgroup => ?_
        have hlt := left_group hd hc hch hgroup
        exact linkedOperand_answers hd hc he (by omega) _
      · exact linkedOperand_answers hd hc he hbudget none
    · rw [Lexeme.unaryOperator_eq] at hop
      obtain ⟨-, hne, -⟩ := Grammar.unaryOpIn_sound hop
      have hlength := List.length_pos_iff.mpr hne
      rw [String.length_toList] at hlength
      exact unaryOperand_answers hd he hlength hpos hbudget

theorem operand_answers (hbudget : 2 * c.left s + 2 ≤ c.budget) : Answers c s operand := by
  refine .nested fun t ht => (skipBlanks_answers hd (by omega)).bind fun _ s₁ hblanks => ?_
  have hle := left_skipBlanks hd hblanks
  refine .step (search_of_nil hd.operand) (.step current_apply ?_)
  rcases hch : c.text[s₁.index]? with - | ch
  · exact .of_ok (notify_of_nil hd.operandDone)
  · exact operandFrom_answers hd hc he hch (by omega)

/-! ### Entries -/

theorem production_answers (entry : Entry) (hbudget : 2 * c.left s + 3 ≤ c.budget) :
    Answers c s (production entry) := by
  cases entry with
  | blanks => exact (skipBlanks_answers hd (by omega)).bind fun _ _ _ => .pure
  | operand => exact operand_answers hd hc he (by omega)
  | identifier => exact Answers.scan.bind fun _ _ _ => .pure
  | expression => exact expression_answers hd hc he hbudget

end Productions

end Reading

/-! ### Tying the knot -/

namespace Dialect

variable {d : Dialect}

theorem context_ends (hd : d.Plain) (text : Array Char) (n : Nat) : (d.context text n).Ends := by
  induction n with
  | zero => exact ⟨fun s h => absurd h (Nat.not_succ_le_zero _),
      fun s h => absurd h (Nat.not_succ_le_zero _)⟩
  | succ n ih =>
    have hc := context_sound hd text n
    constructor
    · intro s h
      exact Reading.operand_answers (c := d.context text n) hd hc ih (Nat.le_of_succ_le_succ h)
    · intro s h
      exact Reading.expression_answers (c := d.context text n) hd hc ih (Nat.le_of_succ_le_succ h)

/-- Every entry answers from every state. -/
theorem run_answers (hd : d.Plain) (text : Array Char) {n : Nat} {s : State}
    (hn : 2 * (text.size - s.index) + 4 ≤ n) (entry : Entry) :
    d.run text n entry s ≠ .exhausted := by
  obtain ⟨n, rfl, hle⟩ := Reading.exists_eq_succ hn
  exact Reading.production_answers (c := d.context text n) hd (context_sound hd text n)
    (context_ends hd text n) entry hle

/-- A node moves the cursor. -/
theorem run_moves (hd : d.Plain) {text : Array Char} {n : Nat} {s s' : State} {e : Expr} :
    (d.run text n .operand s = .ok (some e) s' → s.index < s'.index) ∧
      (d.run text n .expression s = .ok (some e) s' → s.index < s'.index) := by
  have hc := context_sound hd text n
  constructor
  · intro h
    have hlt : text.size - s'.index < text.size - s.index :=
      Reading.left_operand (c := d.context text n) hc h
    omega
  · intro h
    have hlt : text.size - s'.index < text.size - s.index :=
      Reading.left_expression (c := d.context text n) hc h
    omega

theorem parseWithin_answers (hd : d.Plain) (text : Array Char) :
    ∃ o, (d.parseWithin (2 * text.size + 4) text).outcome? = some o := by
  have hanswers := Reading.program_answers (c := d.context text (2 * text.size + 4)) (s := .initial)
    hd (context_sound hd text _) (context_ends hd text _) (Nat.le_refl _)
  rcases h : d.parseWithin (2 * text.size + 4) text with ⟨value, s'⟩ | ⟨failure, s'⟩ | -
  · exact ⟨_, rfl⟩
  · exact ⟨_, rfl⟩
  · exact absurd h hanswers

/-- **Parsing comes to an end.**  Whatever the tables, with or without a nesting limit,
every text has a result, and twice its length and four is budget enough for it: no loop
takes more rounds and no entries go deeper.  Each entry of the grammar answers from any
place, and one that answers an operand or an expression has moved the cursor forward. -/
theorem parse_terminates (hd : d.Reachable) (text : String) :
    (∃ o, d.parse text = some o ∧
      ∀ n, 2 * text.length + 4 ≤ n →
        (d.parseWithin n text.toList.toArray).outcome? = some o) ∧
      (∀ n s entry, 2 * (text.length - s.index) + 4 ≤ n →
        d.run text.toList.toArray n entry s ≠ .exhausted) ∧
      ∀ n s s' e,
        (d.run text.toList.toArray n .operand s = .ok (some e) s' → s.index < s'.index) ∧
          (d.run text.toList.toArray n .expression s = .ok (some e) s' → s.index < s'.index) := by
  have hplain := hd.bundled.plain
  have hsize : text.toList.toArray.size = text.length := String.length_toList
  refine ⟨?_, ?_, fun n s s' e => run_moves hplain⟩
  · obtain ⟨o, ho⟩ := parseWithin_answers hplain text.toList.toArray
    rw [hsize] at ho
    have hmono (n : Nat) (hn : 2 * text.length + 4 ≤ n) := parseWithin_mono hd.bundled hn ho
    refine ⟨o, hmono (budgetFor text.length) ?_, hmono⟩
    unfold budgetFor
    omega
  · intro n s entry hn
    exact run_answers hplain _ (by rwa [hsize]) entry

/-- With empty operators, one of them of precedence zero, with both plugins, and without a
limit. -/
theorem parse_terminates_emptyOperators :
    let steps : List Step :=
      [.addUnaryOp "", .addBinaryOp "" 0 true, .addBinaryOp "#" 0 false, .setNestingLimit none,
        .registerPlugins [.ternary, .comments]]
    let d := (Session.standard.configured steps).dialect
    let text := "a # -b ? [(c), d] : /* e */ f"
    d.Reachable ∧
      (∃ o, d.parse text = some o ∧ ∀ n, 2 * text.length + 4 ≤ n →
        (d.parseWithin n text.toList.toArray).outcome? = some o) ∧
      (∀ n s entry, 2 * (text.length - s.index) + 4 ≤ n →
        d.run text.toList.toArray n entry s ≠ .exhausted) ∧
      ∀ n s s' e,
        (d.run text.toList.toArray n .operand s = .ok (some e) s' → s.index < s'.index) ∧
          (d.run text.toList.toArray n .expression s = .ok (some e) s' → s.index < s'.index) := by
  intro steps d text
  have hd : d.Reachable :=
    ⟨steps, ⟨trivial, trivial, trivial, trivial, ⟨.inl rfl, .inr (.inl rfl), trivial⟩, trivial⟩,
      rfl⟩
  exact ⟨hd, parse_terminates hd text⟩

end Dialect

end OperatorGrammar
