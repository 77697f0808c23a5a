/-
OperatorGrammar/Proofs/Plain.lean

Dialects whose only callbacks are those of the bundled plugins, and what these
callbacks do.

A dialect is `Plain` when at most the comment callback is called after white
space, at most the conditional callback after expressions, and nothing at the
other points.  Such a dialect is described by its tables and two flags.  The
conditional callback is one production more (`notify_conditional_eq_ok`), and
the comment callback skips one comment (`Comment`), or nothing.
-/
import OperatorGrammar.Proofs.Reading
import OperatorGrammar.Proofs.Rest
import OperatorGrammar.Plugin.Bundled

namespace OperatorGrammar

/-- No callbacks at all. -/
def Dialect.HookFree (d : Dialect) : Prop := ∀ p, d.hooks.get p = []

/-- No callbacks but those of the bundled plugins, each at most once. -/
structure Dialect.Plain (d : Dialect) : Prop where
  start : d.hooks.get .start = []
  finish : d.hooks.get .finish = []
  expression : d.hooks.get .expression = []
  operand : d.hooks.get .operand = []
  operandDone : d.hooks.get .operandDone = []
  blanks : d.hooks.get .blanks = [] ∨
    ∃ h, d.hooks.get .blanks = [h] ∧ h.script = Comments.script
  expressionDone : d.hooks.get .expressionDone = [] ∨
    ∃ h, d.hooks.get .expressionDone = [h] ∧ h.script = Ternary.script

/-- Comments are skipped. -/
def Dialect.HasComments (d : Dialect) : Prop := d.hooks.get .blanks ≠ []

/-- Conditionals are read. -/
def Dialect.HasConditionals (d : Dialect) : Prop := d.hooks.get .expressionDone ≠ []

theorem Dialect.HookFree.plain {d : Dialect} (h : d.HookFree) : d.Plain where
  start := h _
  finish := h _
  expression := h _
  operand := h _
  operandDone := h _
  blanks := .inl (h _)
  expressionDone := .inl (h _)

theorem Dialect.HookFree.not_hasComments {d : Dialect} (h : d.HookFree) : ¬ d.HasComments :=
  fun hc => hc (h _)

theorem Dialect.HookFree.not_hasConditionals {d : Dialect} (h : d.HookFree) :
    ¬ d.HasConditionals :=
  fun hc => hc (h _)

/-! ### Running a script -/

section Run

variable {c : Context} {s s' : State} {node : Option Expr}

theorem advance_index {text : Array Char} {i : Nat} {n : UInt64} (hn : n.toNat < UInt64.size / 2) :
    (Cursor.advance ⟨text, i⟩ n).index = min (i + n.toNat) text.size := by
  rw [Cursor.advance, Cursor.plusWord, if_pos hn]

namespace Script

@[simp] theorem run_done : done.run node c s = .ok ⟨node, none⟩ s := rfl

@[simp] theorem run_fail (e : Failure) : (fail e).run node c s = .ok ⟨node, some e⟩ s := rfl

@[simp] theorem run_abandon : abandon.run node c s = .exhausted := rfl

@[simp] theorem run_look (next : View → Script) :
    (look next).run node c s
      = (next ⟨c.dialect.grammar, ⟨c.text, s.index⟩, node⟩).run node c s := rfl

@[simp] theorem run_setNode (node' : Option Expr) (next : Script) :
    (setNode node' next).run node c s = next.run node' c s := rfl

theorem run_advance {n : UInt64} (hn : n.toNat < UInt64.size / 2) (next : Script) :
    (advance n next).run node c s
      = next.run node c { s with index := min (s.index + n.toNat) c.text.size } := by
  show next.run node c { s with index := (Cursor.advance ⟨c.text, s.index⟩ n).index } = _
  rw [advance_index hn]

/-- A script that needs an expression goes through iff there is one. -/
theorem run_needExpression {next : Expr → Script} {r : Option Expr} :
    (needExpression next).run node c s = .ok ⟨r, none⟩ s' ↔
      ∃ e s₁, c.enter .expression s = .ok (some e) s₁ ∧
        (next e).run node c s₁ = .ok ⟨r, none⟩ s' := by
  rw [needExpression]
  rw [Script.run]
  rcases h : c.enter .expression s with ⟨_ | e, s₁⟩ | ⟨e, s₁⟩ | - <;> simp only [h]
  · simp
  · constructor
    · intro hnext
      exact ⟨e, s₁, rfl, hnext⟩
    · rintro ⟨e', s₁', he, hnext⟩
      cases he
      exact hnext
  · simp
  · simp

/-- A script that needs a character goes through iff it is there. -/
theorem run_needChar {ch : Char} {cause : Cause} {next : Script} {r : Option Expr} :
    (needChar ch cause next).run node c s = .ok ⟨r, none⟩ s' ↔
      c.text[s.index]? = some ch ∧
        next.run node c { s with index := min (s.index + 1) c.text.size } = .ok ⟨r, none⟩ s' := by
  rw [needChar]
  rw [run_look]
  by_cases h : c.text[s.index]? = some ch
  · have hcur : (⟨c.text, s.index⟩ : Cursor).current = some ch := h
    simp only [hcur, if_true, h, true_and]
    rw [run_advance (by decide)]
    rfl
  · have hcur : ¬ (⟨c.text, s.index⟩ : Cursor).current = some ch := h
    simp [hcur, h]

/-- On an empty slot, the conditional callback does nothing. -/
theorem run_ternary_none : Ternary.script.run none c s = .ok ⟨none, none⟩ s := by
  rw [Ternary.script, run_look]
  split
  · rename_i heq
    cases heq
  · rfl

end Script

/-! ### Points without callbacks -/

namespace Reading

variable {p : HookPoint}

theorem notify_of_nil (h : c.dialect.hooks.get p = []) : notify p node c s = .ok node s := by
  show (Hook.notifyAll (c.dialect.hooks.get p) node >>= settle) c s = _
  rw [h]
  rfl

theorem search_of_nil (h : c.dialect.hooks.get p = []) : search p c s = .ok none s := by
  show (Hook.searchAll (c.dialect.hooks.get p) none >>= settle) c s = _
  rw [h]
  rfl

/-- With one callback, a notification is its run. -/
theorem notify_of_singleton {h : Hook} (hp : c.dialect.hooks.get p = [h]) :
    notify p node c s = (h.script.run node >>= settle) c s := by
  show (Hook.notifyAll (c.dialect.hooks.get p) node >>= settle) c s = _
  rw [hp]
  rw [Hook.notifyAll, bind_apply, bind_apply, bind_apply]
  cases h.script.run node c s with
  | ok ending s₁ =>
    obtain ⟨left, failure⟩ := ending
    cases failure <;> rfl
  | fail e s₁ => rfl
  | exhausted => rfl

theorem settle_eq_ok {ending : Ending} {r : Option Expr} :
    settle ending c s = .ok r s' ↔ ending.failure = none ∧ ending.node = r ∧ s = s' := by
  obtain ⟨left, failure⟩ := ending
  cases failure with
  | none =>
    show (Reply.ok left s = .ok r s') ↔ _
    simp
  | some e =>
    show (Reply.fail e s = .ok r s') ↔ _
    simp

/-- With the conditional callback, the end of an expression is followed by
`? consequent : alternate`, or the expression stays as it is. -/
theorem notify_conditional_eq_ok (hd : c.dialect.Plain) (hc : c.dialect.HasConditionals)
    {test : Expr} {r : Option Expr} :
    notify .expressionDone (some test) c s = .ok r s' ↔
      (c.text[s.index]? ≠ some '?' ∧ r = some test ∧ s' = s) ∨
      (c.text[s.index]? = some '?' ∧ ∃ consequent s₁ alternate,
        c.enter .expression { s with index := min (s.index + 1) c.text.size }
          = .ok (some consequent) s₁ ∧
        c.text[s₁.index]? = some ':' ∧
        c.enter .expression { s₁ with index := min (s₁.index + 1) c.text.size }
          = .ok (some alternate) s' ∧
        r = some (.conditional test consequent alternate)) := by
  obtain ⟨h, hp, hscript⟩ := hd.expressionDone.resolve_left hc
  rw [notify_of_singleton hp, hscript, bind_eq_ok]
  have hrun : (∃ ending s₁, Ternary.script.run (some test) c s = .ok ending s₁ ∧
      settle ending c s₁ = .ok r s') ↔
        Ternary.script.run (some test) c s = .ok ⟨r, none⟩ s' := by
    simp only [settle_eq_ok]
    constructor
    · rintro ⟨⟨left, failure⟩, s₁, hrun, rfl, rfl, rfl⟩
      exact hrun
    · intro hrun
      exact ⟨_, _, hrun, rfl, rfl, rfl⟩
  -- the script succeeds step by step: mark, expression, colon, expression
  rw [hrun, Ternary.script, Script.run_look]
  by_cases hq : c.text[s.index]? = some '?'
  · have hcur : (⟨c.text, s.index⟩ : Cursor).current = some '?' := hq
    simp only [hcur, hq, ne_eq, not_true, false_and, false_or, true_and, Script.run_setNode]
    rw [Script.run_advance (by decide), Script.run_needExpression]
    simp only [Script.run_needChar, Script.run_needExpression, Script.run_setNode,
      Script.run_done]
    constructor
    · rintro ⟨consequent, s₁, hcons, hcolon, alternate, s₂, halt, hdone⟩
      cases hdone
      exact ⟨consequent, s₁, alternate, hcons, hcolon, halt, rfl⟩
    · rintro ⟨consequent, s₁, alternate, hcons, hcolon, halt, rfl⟩
      exact ⟨consequent, s₁, hcons, hcolon, alternate, s', halt, rfl⟩
  · have hcur : ¬ (⟨c.text, s.index⟩ : Cursor).current = some '?' := hq
    simp only [ne_eq, hq, not_false_eq_true, true_and, false_and, or_false]
    split
    · rename_i heq _
      exact absurd heq hcur
    · rw [Script.run_done]
      constructor
      · intro hdone
        cases hdone
        exact ⟨rfl, rfl⟩
      · rintro ⟨rfl, rfl⟩
        rfl

/-- Where nothing was read, the conditional callback does nothing. -/
theorem notify_conditional_none (hd : c.dialect.Plain) :
    notify .expressionDone none c s = .ok none s := by
  rcases hd.expressionDone with hp | ⟨h, hp, hscript⟩
  · exact notify_of_nil hp
  · rw [notify_of_singleton hp, hscript, bind_of_ok Script.run_ternary_none]
    rfl

end Reading

end Run

end OperatorGrammar
