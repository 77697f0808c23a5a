/-
OperatorGrammar/Proofs/Independence.lean

A parse depends on no more of a dialect than the text shows.

Two dialects are compared that listen to the same bundled callbacks, have the
same nesting limit, and agree on the text (`Dialect.Alike`).  Each production of
the one approximates that of the other as long as the entries of the grammar do
(`Context.Approx`), and the entries do by induction on the budget
(`Dialect.context_approx`).  The second budget may be larger, so the same
induction also says that a budget that is enough is as good as any larger one
(`Dialect.parseWithin_mono`).

Main result: `Dialect.parse_eq_of_agreesOn`.
-/
import OperatorGrammar.Proofs.Approximation
import OperatorGrammar.Proofs.Agreement
import OperatorGrammar.Proofs.Reachable
import OperatorGrammar.Proofs.ReadsSound

namespace OperatorGrammar

/-- Two dialects with the same bundled callbacks and the same nesting limit, whose grammars
agree on a text. -/
structure Dialect.Alike (text : List Char) (d d' : Dialect) : Prop where
  bundled : d.Bundled
  bundled' : d'.Bundled
  limit : d.grammar.nestingLimit = d'.grammar.nestingLimit
  conditionals : d.HasConditionals ↔ d'.HasConditionals
  comments : d.HasComments ↔ d'.HasComments
  grammar : d.grammar.AgreesOn text d'.grammar

namespace Dialect.Alike

theorem refl {d : Dialect} (hd : d.Bundled) (text : List Char) : d.Alike text d :=
  ⟨hd, hd, rfl, Iff.rfl, Iff.rfl, .refl text d.grammar⟩

theorem symm {text : List Char} {d d' : Dialect} (h : d.Alike text d') : d'.Alike text d :=
  ⟨h.bundled', h.bundled, h.limit.symm, h.conditionals.symm, h.comments.symm, h.grammar.symm⟩

end Dialect.Alike

/-- Two contexts over one text, with dialects that are alike there; what the first enters
approximates what the second enters. -/
structure Context.Approx (c c' : Context) : Prop where
  text : c'.text = c.text
  budget : c.budget ≤ c'.budget
  dialect : c.dialect.Alike c.text.toList c'.dialect
  enter : ∀ entry, Reading.Approx c c' Eq (.reenter entry) (.reenter entry)

namespace Reading

/-- A bound that allows one round more than `n` has a round to spend. -/
theorem exists_eq_succ {n m : Nat} (h : n + 1 ≤ m) : ∃ k, m = k + 1 ∧ n ≤ k :=
  ⟨m - 1, by omega, by omega⟩

/-- The steps of a chain as two dialects read them. -/
abbrev ChainAlike (c c' : Context) : List (BinaryOp × Expr) → List (BinaryOp × Expr) → Prop :=
  List.Forall₂ (Chain.StepAlike
    (Grammar.SameOp c.text.toList c.dialect.grammar c'.dialect.grammar))

variable {c c' : Context} (h : c.Approx c')
include h

/-! ### White space and scanners -/

theorem notifyBlanks_approx : Approx c c' Eq (notify .blanks none) (notify .blanks none) :=
  .notify_of_blind h.text h.enter Comments.script_blind h.dialect.bundled.plain.blanks
    h.dialect.bundled'.plain.blanks h.dialect.comments

theorem notifyExpressionDone_approx (node : Option Expr) :
    Approx c c' Eq (notify .expressionDone node) (notify .expressionDone node) :=
  .notify_of_blind h.text h.enter Ternary.script_blind h.dialect.bundled.plain.expressionDone
    h.dialect.bundled'.plain.expressionDone h.dialect.conditionals

theorem notifyOperandDone_approx (node : Option Expr) :
    Approx c c' Eq (notify .operandDone node) (notify .operandDone node) :=
  .notify_of_nil h.dialect.bundled.plain.operandDone h.dialect.bundled'.plain.operandDone

theorem skipBlanksWithin_approx {n m : Nat} (hnm : n ≤ m) :
    Approx c c' Eq (skipBlanksWithin n) (skipBlanksWithin m) := by
  induction n generalizing m with
  | zero => exact .exhausted
  | succ n ih =>
    obtain ⟨m, rfl, hle⟩ := exists_eq_succ hnm
    rw [skipBlanksWithin, skipBlanksWithin]
    refine (Approx.cursor h.text).bind ?_
    rintro place _ ⟨rfl, -⟩
    refine (Approx.moveTo _).bind_eq fun _ => ?_
    refine (notifyBlanks_approx h).bind_eq fun _ => ?_
    refine (Approx.cursor h.text).bind ?_
    rintro after _ ⟨rfl, -⟩
    exact .ite (fun _ => .pure rfl) fun _ => ih hle

theorem skipBlanks_approx : Approx c c' Eq skipBlanks skipBlanks :=
  (Approx.budget h.budget).bind fun _ _ hnm => skipBlanksWithin_approx h hnm

/-- A scanner that finds the same in both grammars; `a` is what it found somewhere. -/
theorem scan_approx {α : Type} (scanner : Grammar → Cursor → Scan α)
    (hscan : ∀ i, scanner c.dialect.grammar ⟨c.text, i⟩ = scanner c'.dialect.grammar ⟨c.text, i⟩) :
    Approx c c' (fun a b => a = b ∧ ∃ i j, scanner c.dialect.grammar ⟨c.text, i⟩ = ⟨j, .ok a⟩)
      (scan scanner) (scan scanner) := by
  intro s
  rw [scan, bind_of_ok grammar_apply, bind_of_ok cursor_apply, bind_of_ok grammar_apply,
    bind_of_ok cursor_apply, h.text, ← hscan]
  rcases hfound : scanner c.dialect.grammar ⟨c.text, s.index⟩ with ⟨stop, cause | value⟩
  · exact .fail
  · exact .ok ⟨rfl, _, _, hfound⟩

theorem name_approx : Approx c c' (fun w w' => w = w' ∧ Occurs c.text.toList w)
    (scan Lexeme.name) (scan Lexeme.name) := by
  intro s
  refine (scan_approx h Lexeme.name (fun i => h.dialect.grammar.name) s).mono ?_
  rintro w _ ⟨rfl, i, j, hname⟩
  exact ⟨rfl, (Lexeme.token_of_name hname).occurs⟩

/-! ### Chains -/

theorem binaryOp_approx :
    Approx c c'
      (Option.Rel (Grammar.SameOp c.text.toList c.dialect.grammar c'.dialect.grammar))
      binaryOp binaryOp := by
  refine (skipBlanks_approx h).bind_eq fun _ => ?_
  refine Approx.grammar.bind ?_
  rintro g g' ⟨rfl, rfl⟩
  refine (Approx.cursor h.text).bind ?_
  rintro place _ ⟨rfl, htext⟩
  obtain ⟨text, i⟩ := place
  obtain rfl : text = c.text := htext
  have hg := h.dialect.bundled.counted
  rw [← h.dialect.grammar.binaryOperator hg h.dialect.bundled'.counted]
  rcases hop : Lexeme.binaryOperator c.dialect.grammar ⟨c.text, i⟩ with - | symbol
  · exact .pure .none
  · have hfit := (Lexeme.binaryOperator_eq_some_iff hg).mp hop
    refine (Approx.forward h.text _).bind_eq fun _ => .pure (.some ?_)
    exact .intro hfit.fits.occurs (OrderedMap.contains_iff.mpr hfit.mem)

theorem rightOperand_approx {op op' : BinaryOp} (hop : op.symbol = op'.symbol) :
    Approx c c' Eq (rightOperand op) (rightOperand op') := by
  refine (h.enter .operand).bind_eq fun e => ?_
  cases e with
  | none =>
    rw [hop]
    exact .failHere _
  | some e => exact .pure rfl

theorem chainWithin_approx {n m : Nat} (hnm : n ≤ m) {found found' : Array (BinaryOp × Expr)}
    (hfound : ChainAlike c c' found.toList found'.toList) :
    Approx c c' (ChainAlike c c') (chainWithin n found) (chainWithin m found') := by
  induction n generalizing m found found' with
  | zero => exact .exhausted
  | succ n ih =>
    obtain ⟨m, rfl, hle⟩ := exists_eq_succ hnm
    rw [chainWithin, chainWithin]
    refine (binaryOp_approx h).bind ?_
    rintro _ _ (hop | -)
    · rename_i op op'
      -- whether an operator is put back shows only that its precedence is zero
      have hzero : op.precedence = 0 ↔ op'.precedence = 0 := by
        obtain ⟨hoccurs, hbinary⟩ := hop
        exact h.dialect.grammar.vanishing _ hoccurs hbinary
      simp only [hzero, hop.symbol]
      refine .ite (fun _ => ?_) fun _ => ?_
      · exact (Approx.rewind _).bind_eq fun _ => .pure hfound
      · refine (rightOperand_approx h hop.symbol).bind_eq fun operand => ih hle ?_
        rw [Array.toList_push, Array.toList_push]
        exact List.rel_append hfound (.cons ⟨hop, rfl⟩ .nil)
    · exact .pure hfound

theorem chainRest_approx : Approx c c' (ChainAlike c c') chainRest chainRest := by
  refine (binaryOp_approx h).bind ?_
  rintro _ _ (hop | -)
  · refine (rightOperand_approx h hop.symbol).bind_eq fun operand => ?_
    refine (Approx.budget h.budget).bind fun n m hnm => ?_
    exact chainWithin_approx h hnm (.cons ⟨hop, rfl⟩ .nil)
  · exact .pure .nil

theorem binaryExpression_approx : Approx c c' Eq binaryExpression binaryExpression := by
  refine (h.enter .operand).bind_eq fun first => ?_
  cases first with
  | none => exact .pure rfl
  | some first =>
    refine (chainRest_approx h).bind fun rest rest' hrest => .pure ?_
    rw [Chain.tree_congr h.dialect.grammar.congruent (fun hop => hop.symbol) first hrest]

theorem expression_approx : Approx c c' Eq expression expression := by
  have hsearch : Approx c c' Eq (search .expression) (search .expression) :=
    .search_of_nil h.dialect.bundled.plain.expression h.dialect.bundled'.plain.expression
  refine .nested h.dialect.limit (hsearch.bind_eq fun supplied => ?_)
  have hend (node : Option Expr) : Approx c c' Eq
      (do
        skipBlanks
        notify .expressionDone node)
      (do
        skipBlanks
        notify .expressionDone node) :=
    (skipBlanks_approx h).bind_eq fun _ => notifyExpressionDone_approx h node
  cases supplied with
  | none => exact (binaryExpression_approx h).bind_eq hend
  | some e => exact hend (some e)

/-! ### Programs and groups -/

theorem expressionsWithin_approx (closer : Option Char) {n m : Nat} (hnm : n ≤ m)
    (found : Array Expr) :
    Approx c c' Eq (expressionsWithin closer n found) (expressionsWithin closer m found) := by
  induction n generalizing m found with
  | zero => exact .exhausted
  | succ n ih =>
    obtain ⟨m, rfl, hle⟩ := exists_eq_succ hnm
    rw [expressionsWithin, expressionsWithin]
    refine (skipBlanks_approx h).bind_eq fun _ => (Approx.current h.text).bind ?_
    rintro next _ ⟨rfl, -⟩
    cases next with
    | none => exact .pure rfl
    | some ch =>
      refine .ite (fun _ => ?_) fun _ => ?_
      · exact (Approx.forward h.text 1).bind_eq fun _ => ih hle found
      refine (h.enter .expression).bind_eq fun e => ?_
      cases e with
      | some e => exact ih hle _
      | none =>
        refine (Approx.current h.text).bind ?_
        rintro last _ ⟨rfl, -⟩
        cases last with
        | none => exact .pure rfl
        | some last => exact .ite (fun _ => .pure rfl) fun _ => .failHere _

theorem expressions_approx (closer : Option Char) :
    Approx c c' Eq (expressions closer) (expressions closer) :=
  (Approx.budget h.budget).bind fun _ _ hnm => expressionsWithin_approx h closer hnm #[]

theorem group_approx : Approx c c' Eq group group := by
  refine (Approx.forward h.text 1).bind_eq fun _ =>
    (expressions_approx h (some ')')).bind_eq fun nodes => (Approx.current h.text).bind ?_
  rintro next _ ⟨rfl, -⟩
  refine .ite (fun _ => ?_) fun _ => .failHere _
  exact (Approx.forward h.text 1).bind_eq fun _ => .pure rfl

theorem program_approx : Approx c c' Eq program program := by
  have hplain := h.dialect.bundled.plain
  have hplain' := h.dialect.bundled'.plain
  refine (Approx.notify_of_nil hplain.start hplain'.start).bind_eq fun _ => ?_
  exact (expressions_approx h none).bind_eq fun nodes =>
    .notify_of_nil hplain.finish hplain'.finish

/-! ### Lists -/

theorem slotsWithin_approx (kind : ListKind) {n m : Nat} (hnm : n ≤ m) (before : Slots) :
    Approx c c' Eq (slotsWithin kind n before) (slotsWithin kind m before) := by
  induction n generalizing m before with
  | zero => exact .exhausted
  | succ n ih =>
    obtain ⟨m, rfl, hle⟩ := exists_eq_succ hnm
    rw [slotsWithin, slotsWithin]
    refine (skipBlanks_approx h).bind_eq fun _ => (Approx.current h.text).bind ?_
    rintro next _ ⟨rfl, -⟩
    cases next with
    | none => exact .failHere _
    | some ch =>
      refine .ite (fun _ => ?_) fun _ => .ite (fun _ => ?_) fun _ => .ite (fun _ => ?_) fun _ => ?_
      · refine (Approx.forward h.text 1).bind_eq fun _ => ?_
        exact .ite (fun _ => .pure rfl) fun _ => .failHere _
      · refine (Approx.forward h.text 1).bind_eq fun _ => ?_
        cases before.comma kind with
        | none => exact .failHere _
        | some after => exact ih hle after
      · refine (h.enter .expression).bind_eq fun e => ?_
        cases e with
        | none => exact .failHere _
        | some e => exact .ite (fun _ => .failHere _) fun _ => ih hle _
      · exact .failHere _

theorem slots_approx (kind : ListKind) : Approx c c' Eq (slots kind) (slots kind) :=
  (Approx.budget h.budget).bind fun _ _ hnm => slotsWithin_approx h kind hnm .empty

/-! ### Links -/

theorem linkStart_approx : Approx c c' Eq linkStart linkStart := by
  refine (Approx.cursor h.text).bind ?_
  rintro place _ ⟨rfl, -⟩
  cases place.current with
  | none => exact .pure rfl
  | some ch =>
    dsimp only
    cases LinkForm.ofChar? ch with
    | some form => exact (Approx.forward h.text 1).bind_eq fun _ => .pure rfl
    | none =>
      refine .ite (fun _ => ?_) fun _ => .pure rfl
      refine (Approx.forward h.text 2).bind_eq fun _ => (skipBlanks_approx h).bind_eq fun _ =>
        (Approx.current h.text).bind ?_
      rintro next _ ⟨rfl, -⟩
      split
      · exact (Approx.forward h.text 1).bind_eq fun _ => .pure rfl
      · exact (Approx.forward h.text 1).bind_eq fun _ => .pure rfl
      · exact .pure rfl

theorem linkBody_approx (node : Expr) (form : LinkForm) :
    Approx c c' Eq (linkBody node form) (linkBody node form) := by
  cases form with
  | property =>
    refine (skipBlanks_approx h).bind_eq fun _ => (name_approx h).bind ?_
    rintro w _ ⟨rfl, -⟩
    exact .pure rfl
  | index =>
    refine (h.enter .expression).bind_eq fun key => ?_
    cases key with
    | none => exact .failHere _
    | some key =>
      refine (skipBlanks_approx h).bind_eq fun _ => (Approx.current h.text).bind ?_
      rintro next _ ⟨rfl, -⟩
      refine .ite (fun _ => ?_) fun _ => .failHere _
      exact (Approx.forward h.text 1).bind_eq fun _ => .pure rfl
  | call => exact (slots_approx h .arguments).bind_eq fun _ => .pure rfl

theorem linksWithin_approx {n m : Nat} (hnm : n ≤ m) (node : Expr) :
    Approx c c' Eq (linksWithin n node) (linksWithin m node) := by
  induction n generalizing m node with
  | zero => exact .exhausted
  | succ n ih =>
    obtain ⟨m, rfl, hle⟩ := exists_eq_succ hnm
    rw [linksWithin, linksWithin]
    refine (linkStart_approx h).bind_eq fun found => ?_
    rcases found with - | ⟨form, optional⟩
    · exact .pure rfl
    · exact (linkBody_approx h node form).bind_eq fun linked =>
        (skipBlanks_approx h).bind_eq fun _ => ih hle _

theorem links_approx (node : Expr) : Approx c c' Eq (links node) (links node) :=
  (skipBlanks_approx h).bind_eq fun _ =>
    (Approx.budget h.budget).bind fun _ _ hnm => linksWithin_approx h hnm node

/-! ### Operands -/

theorem linkedOperand_approx (node : Option Expr) :
    Approx c c' Eq (linkedOperand node) (linkedOperand node) := by
  cases node with
  | none => exact notifyOperandDone_approx h none
  | some node => exact (links_approx h node).bind_eq fun _ => notifyOperandDone_approx h _

theorem unaryOperand_approx (operator : String) :
    Approx c c' Eq (unaryOperand operator) (unaryOperand operator) := by
  refine (Approx.forward h.text _).bind_eq fun _ => (h.enter .operand).bind_eq fun argument => ?_
  cases argument with
  | none => exact .failHere _
  | some argument => exact notifyOperandDone_approx h _

theorem operandFrom_approx {ch : Char} (hch : ch ∈ c.text.toList) :
    Approx c c' Eq (operandFrom ch) (operandFrom ch) := by
  have hagrees := h.dialect.grammar
  refine Approx.grammar.bind ?_
  rintro g g' ⟨rfl, rfl⟩
  refine .ite (fun _ => ?_) fun _ => .ite (fun _ => ?_) fun _ => .ite (fun _ => ?_) fun _ => ?_
  · refine (scan_approx h Lexeme.number fun i => hagrees.number).bind ?_
    rintro number _ ⟨rfl, -⟩
    exact .pure rfl
  · refine (scan_approx h (fun _ => Lexeme.string) fun i => rfl).bind ?_
    rintro string _ ⟨rfl, -⟩
    exact linkedOperand_approx h _
  · exact (Approx.forward h.text 1).bind_eq fun _ =>
      (slots_approx h .elements).bind_eq fun _ => linkedOperand_approx h _
  · refine (Approx.cursor h.text).bind ?_
    rintro place _ ⟨rfl, htext⟩
    obtain ⟨text, i⟩ := place
    obtain rfl : text = c.text := htext
    rw [← hagrees.unaryOperator h.dialect.bundled.counted h.dialect.bundled'.counted,
      ← hagrees.isIdentifierStart hch]
    cases Lexeme.unaryOperator c.dialect.grammar ⟨c.text, i⟩ with
    | some operator => exact unaryOperand_approx h operator
    | none =>
      refine .ite (fun _ => ?_) fun _ => .ite (fun _ => ?_) fun _ => ?_
      · refine (name_approx h).bind ?_
        rintro w _ ⟨rfl, hw⟩
        rw [hagrees.meaning hw]
        exact linkedOperand_approx h _
      · exact (group_approx h).bind_eq fun node => linkedOperand_approx h node
      · exact linkedOperand_approx h none

theorem operand_approx : Approx c c' Eq operand operand := by
  have hplain := h.dialect.bundled.plain
  have hplain' := h.dialect.bundled'.plain
  refine .nested h.dialect.limit ((skipBlanks_approx h).bind_eq fun _ => ?_)
  refine (Approx.search_of_nil hplain.operand hplain'.operand).bind_eq fun supplied => ?_
  cases supplied with
  | some node => exact notifyOperandDone_approx h _
  | none =>
    refine (Approx.current h.text).bind ?_
    rintro next _ ⟨rfl, hnext⟩
    cases next with
    | none => exact notifyOperandDone_approx h none
    | some ch => exact operandFrom_approx h (hnext ch rfl)

theorem production_approx (entry : Entry) :
    Approx c c' Eq (production entry) (production entry) := by
  cases entry with
  | blanks => exact (skipBlanks_approx h).bind_eq fun _ => .pure rfl
  | operand => exact operand_approx h
  | identifier =>
    refine (name_approx h).bind ?_
    rintro w _ ⟨rfl, -⟩
    exact .pure rfl
  | expression => exact expression_approx h

end Reading

/-! ### Tying the knot -/

namespace Dialect

variable {d d' : Dialect}

theorem context_approx {text : Array Char} (h : d.Alike text.toList d') {n m : Nat}
    (hnm : n ≤ m) : (d.context text n).Approx (d'.context text m) := by
  induction n generalizing m with
  | zero => exact ⟨rfl, hnm, h, fun _ _ => .exhausted⟩
  | succ n ih =>
    obtain ⟨m, rfl, hle⟩ := Reading.exists_eq_succ hnm
    exact ⟨rfl, hnm, h, fun entry s => Reading.production_approx (ih hle) entry s⟩

/-- An answer on one budget is the answer on every larger one. -/
theorem parseWithin_mono (hd : d.Bundled) {text : Array Char} {n m : Nat} (hnm : n ≤ m)
    {o : Except Failure (Option Expr)} (ho : (d.parseWithin n text).outcome? = some o) :
    (d.parseWithin m text).outcome? = some o :=
  (Reading.program_approx (context_approx (.refl hd text.toList) hnm) .initial).outcome ho

/-- **A parse depends only on the table entries that occur in the text, and on precedences
only through their order.**  The plugins are compared by their callbacks, because another
plugin may carry the name of a bundled one. -/
theorem parse_eq_of_agreesOn (hd : d.Reachable) (hd' : d'.Reachable)
    (hlimit : d.grammar.nestingLimit = d'.grammar.nestingLimit)
    (hconditionals : d.HasConditionals ↔ d'.HasConditionals)
    (hcomments : d.HasComments ↔ d'.HasComments) {text : String}
    (hagrees : d.grammar.AgreesOn text.toList d'.grammar) : d.parse text = d'.parse text := by
  have h : d.Alike text.toList d' :=
    ⟨hd.bundled, hd'.bundled, hlimit, hconditionals, hcomments, hagrees⟩
  have hle := Nat.le_refl (budgetFor text.length)
  exact (Reading.program_approx (context_approx h hle)
    .initial).outcome_eq
      (Reading.program_approx (context_approx h.symm hle) .initial)

/-- More operators than the text has, in another order and with other precedences, and
the plugins the other way round. -/
theorem parse_eq_of_agreesOn_rescaled :
    let steps : List Step := [.addBinaryOp "**" 11 true, .registerPlugins [.ternary, .comments]]
    let steps' : List Step :=
      [.clearBinaryOps, .addBinaryOp "*" 7 false, .addBinaryOp "+" 2 false, .addUnaryOp "not",
        .registerPlugins [.comments], .registerPlugins [.ternary]]
    let d := (Session.standard.configured steps).dialect
    let d' := (Session.standard.configured steps').dialect
    d.Reachable ∧ d'.Reachable ∧ d.grammar.nestingLimit = d'.grammar.nestingLimit ∧
      (d.HasConditionals ↔ d'.HasConditionals) ∧ (d.HasComments ↔ d'.HasComments) ∧
      d.grammar.AgreesOn "a+b*c".toList d'.grammar ∧ d.parse "a+b*c" = d'.parse "a+b*c" := by
  intro steps steps' d d'
  have hd : d.Reachable :=
    ⟨steps, ⟨trivial, ⟨.inl rfl, .inr (.inl rfl), trivial⟩, trivial⟩, rfl⟩
  have hd' : d'.Reachable :=
    ⟨steps', ⟨trivial, trivial, trivial, trivial, ⟨.inr (.inl rfl), trivial⟩, ⟨.inl rfl, trivial⟩,
      trivial⟩, rfl⟩
  have hlimit : d.grammar.nestingLimit = d'.grammar.nestingLimit := by decide +kernel
  have hconditionals : d.HasConditionals ↔ d'.HasConditionals :=
    iff_of_true (List.cons_ne_nil _ _) (List.cons_ne_nil _ _)
  have hcomments : d.HasComments ↔ d'.HasComments :=
    iff_of_true (List.cons_ne_nil _ _) (List.cons_ne_nil _ _)
  -- the tables are looked up at every part of the text
  have hunary : ∀ s ∈ parts "a+b*c".toList,
      d.grammar.isUnaryOp s ↔ d'.grammar.isUnaryOp s := by decide +kernel
  have hbinary : ∀ s ∈ parts "a+b*c".toList, d.grammar.isBinaryOp s ↔ d'.grammar.isBinaryOp s := by
    decide +kernel
  have hright : ∀ s ∈ parts "a+b*c".toList,
      d.grammar.isRightAssociative s ↔ d'.grammar.isRightAssociative s := by decide +kernel
  have hliteral : ∀ s ∈ parts "a+b*c".toList,
      (d.grammar.literal? s).isNone ∧ (d'.grammar.literal? s).isNone := by decide +kernel
  have hreceiver : ∀ s ∈ parts "a+b*c".toList,
      s = d.grammar.receiverKeyword ↔ s = d'.grammar.receiverKeyword := by decide +kernel
  have horder : ∀ a ∈ parts "a+b*c".toList, ∀ b ∈ parts "a+b*c".toList,
      d.grammar.precedence a ≤ d.grammar.precedence b ↔
        d'.grammar.precedence a ≤ d'.grammar.precedence b := by decide +kernel
  have hvanishing : ∀ s ∈ parts "a+b*c".toList,
      d.grammar.precedence s = 0 ↔ d'.grammar.precedence s = 0 := by decide +kernel
  have hchars : d.grammar.identifierChars = d'.grammar.identifierChars := by decide +kernel
  have hagrees : d.grammar.AgreesOn "a+b*c".toList d'.grammar :=
    { unary := fun s hs => hunary s hs.mem_parts
      binary := fun s hs => hbinary s hs.mem_parts
      right := fun s hs _ => hright s hs.mem_parts
      literal := fun s hs => by
        obtain ⟨hnone, hnone'⟩ := hliteral s hs.mem_parts
        rw [Option.isNone_iff_eq_none.mp hnone, Option.isNone_iff_eq_none.mp hnone']
      receiver := fun s hs => hreceiver s hs.mem_parts
      order := fun a b ha hb _ _ => horder a ha.mem_parts b hb.mem_parts
      vanishing := fun s hs _ => hvanishing s hs.mem_parts
      identifierChars := fun ch _ => by rw [hchars] }
  exact ⟨hd, hd', hlimit, hconditionals, hcomments, hagrees,
    parse_eq_of_agreesOn hd hd' hlimit hconditionals hcomments hagrees⟩

end Dialect

end OperatorGrammar
