/-
OperatorGrammar/Proofs/BundledCallbacks.lean

Two runs in step, where the only callbacks are the bundled ones.

The comment callback enters nothing.  It looks at the cursor, walks on in the
text, and fails for a cause of its own (`Script.Walks`), so it keeps whatever
persists there.

The conditional callback enters expressions and passes their failures on.  Only
when its ending is settled do these become failures of the reading again; with
the settling it is a production like the others (`Reading.conditional`), and it
enters expressions only behind a mark or a colon.
-/
import OperatorGrammar.Proofs.Onward

namespace OperatorGrammar

/-- Whether a dialect is plain is about its callbacks only. -/
theorem Dialect.Plain.congr {d d' : Dialect} (hd : d.Plain) (h : d'.hooks = d.hooks) :
    d'.Plain := by
  obtain ⟨g, hooks, plugins⟩ := d'
  cases h
  exact ⟨hd.start, hd.finish, hd.expression, hd.operand, hd.operandDone, hd.blanks,
    hd.expressionDone⟩

/-! ### Scripts that only walk on -/

/-- A script that enters nothing, never looks at the tables, and walks on in the text. -/
inductive Script.Walks : Script → Prop
  | done : Walks .done
  | fail {e} : e.cause ≠ .nestingLimit → Walks (.fail e)
  | abandon : Walks .abandon
  | look {next} : (∀ g g' cursor node, next ⟨g, cursor, node⟩ = next ⟨g', cursor, node⟩) →
      (∀ v, Walks (next v)) → Walks (.look next)
  | advance {count next} : count.toNat < UInt64.size / 2 → Walks next →
      Walks (.advance count next)

namespace Comments

theorem skipLine_walks (n : Nat) : (skipLine n).Walks := by
  induction n with
  | zero => exact .done
  | succ n ih =>
    refine .look (fun _ _ _ _ => rfl) fun v => ?_
    split
    · exact .advance (by decide) ih
    · exact .done

theorem skipBlock_walks (start n : Nat) : (skipBlock start n).Walks := by
  induction n with
  | zero => exact .abandon
  | succ n ih =>
    refine .look (fun _ _ _ _ => rfl) fun v => ?_
    split
    · exact .advance (by decide) .done
    · split
      · exact .fail (by simp)
      · exact .advance (by decide) ih

theorem script_walks : script.Walks := by
  refine .look (fun _ _ _ _ => rfl) fun v => ?_
  split
  · exact skipLine_walks _
  · split
    · exact .advance (by decide) (skipBlock_walks _ _)
    · exact .done

end Comments

namespace Reading

variable {c c' : Context} {t : Terms} {P A : State → Prop}

theorem Persists.walks (h : Persists c c' t P) {script : Script} (hscript : script.Walks)
    (node : Option Expr) :
    InStep c c' t P (t.Ended P) (script.run node) (script.run node) := by
  induction hscript generalizing node with
  | done => exact .pure fun s hs => ⟨hs, nofun⟩
  | fail he =>
    refine .pure fun s hs => ⟨hs, ?_⟩
    rintro e ⟨⟩
    exact h.fails s _ hs he
  | abandon => exact .exhausted
  | look hblind _ ih =>
    intro s hs
    rw [Script.run_look, Script.run_look, h.text,
      hblind c'.dialect.grammar c.dialect.grammar]
    exact ih _ node s hs
  | advance hcount _ ih =>
    intro s hs
    rw [Script.run_advance hcount, Script.run_advance hcount, h.text]
    refine ih node _ (h.onward s _ hs fun hle => ?_)
    exact ⟨Nat.le_min.mpr ⟨Nat.le_add_right _ _, hle⟩, Nat.min_le_right _ _⟩

/-! ### The conditional callback as a production -/

/-- An expression that must be there. -/
def neededExpression : Reading Expr := do
  match ← reenter .expression with
  | some e => pure e
  | none => failHere .expression

/-- A character that must be there. -/
def neededChar (ch : Char) (cause : Cause) : Reading Unit := do
  if (← current) = some ch then forward 1 else failHere cause

/-- The rest of a conditional behind its test, or the test alone. -/
def conditional (test : Expr) : Reading (Option Expr) := do
  if (← current) = some '?' then
    forward 1
    let consequent ← neededExpression
    neededChar ':' .colon
    let alternate ← neededExpression
    pure (some (.conditional test consequent alternate))
  else pure (some test)

theorem settle_needExpression (next : Expr → Script) (node : Option Expr) :
    (Script.needExpression next).run node >>= settle =
      neededExpression >>= fun e => (next e).run node >>= settle := by
  funext c s
  rw [Script.needExpression, neededExpression, bind_apply, bind_apply, bind_apply,
    Script.run_enter, reenter_apply]
  cases c.enter .expression s with
  | ok r s₁ =>
    cases r with
    | none => rfl
    | some e => rfl
  | fail e s₁ => rfl
  | exhausted => rfl

theorem settle_needChar (ch : Char) (cause : Cause) (next : Script) (node : Option Expr) :
    (Script.needChar ch cause next).run node >>= settle =
      neededChar ch cause >>= fun _ => next.run node >>= settle := by
  funext c s
  rw [bind_apply, bind_apply, Script.needChar, Script.run_look, neededChar,
    bind_of_ok current_apply]
  by_cases hch : c.text[s.index]? = some ch
  · have hcur : (⟨c.text, s.index⟩ : Cursor).current = some ch := hch
    simp only [hcur, hch, if_true]
    rw [Script.run_advance (by decide)]
    rfl
  · have hcur : ¬ (⟨c.text, s.index⟩ : Cursor).current = some ch := hch
    simp only [hcur, hch, if_false]
    rfl

/-- With its settling, the conditional callback is a production. -/
theorem settle_ternary (test : Expr) :
    Ternary.script.run (some test) >>= settle = conditional test := by
  funext c s
  rw [conditional, bind_of_ok current_apply]
  by_cases hq : c.text[s.index]? = some '?'
  · have hcur : (⟨c.text, s.index⟩ : Cursor).current = some '?' := hq
    have hrun : (Ternary.script.run (some test) >>= settle) c s =
        ((Script.needExpression fun consequent => .needChar ':' .colon <|
          .needExpression fun alternate =>
            .setNode (some (.conditional test consequent alternate)) .done).run none >>= settle)
          c { s with index := min (s.index + 1) c.text.size } := by
      rw [bind_apply, bind_apply, Ternary.script, Script.run_look]
      simp only [hcur, Script.run_setNode]
      rw [Script.run_advance (by decide)]
      rfl
    rw [hrun, settle_needExpression]
    simp only [hq, if_true, settle_needChar, settle_needExpression]
    rfl
  · have hcur : ¬ (⟨c.text, s.index⟩ : Cursor).current = some '?' := hq
    have hrun : Ternary.script.run (some test) c s = .ok ⟨some test, none⟩ s := by
      rw [Ternary.script, Script.run_look]
      split
      · rename_i heq _
        exact absurd heq hcur
      · rfl
    simp only [hq, if_false]
    rw [bind_of_ok hrun]
    rfl

namespace Level

variable (h : Level c c' t P A)
include h

theorem neededExpression : Keeps c c' t A Reading.neededExpression := by
  refine h.expression.bind fun e => ?_
  cases e with
  | some e => exact .pure fun _ hs => hs
  | none => exact h.after.failHere (by simp)

theorem neededChar {ch : Char} {cause : Cause} (hcause : cause ≠ .nestingLimit) :
    Keeps c c' t A (Reading.neededChar ch cause) :=
  (InStep.current h.after.text).bind fun _ => .strengthen (P := A)
    (.ite (fun _ => h.after.forward 1) fun _ => h.after.failHere hcause) fun _ hs => hs.1

/-- A conditional enters expressions behind its mark. -/
theorem conditional (test : Expr) : Keeps c c' t P (Reading.conditional test) := by
  refine (InStep.current h.before.text).bind fun next => .ite (fun hq => ?_) fun _ =>
    .pure fun _ hs => hs.1
  have hmark : ∀ s, P s ∧ c.text[s.index]? = next → P s ∧ s.index < c.text.size := by
    rintro s ⟨hs, hnext⟩
    exact ⟨hs, lt_size_of_getElem? (hnext.trans hq)⟩
  have hcolon : Keeps c c' t A (Reading.neededChar ':' .colon) := h.neededChar (by simp)
  exact ((h.forward Nat.one_pos).strengthen hmark).bind fun _ =>
    h.neededExpression.bind fun _ => hcolon.bind fun _ =>
      h.neededExpression.bind fun _ => .pure h.weaken

end Level

/-! ### Plain dialects -/

/-- The same callbacks on both sides, none but the bundled ones. -/
structure BothPlain (c c' : Context) : Prop where
  plain : c.dialect.Plain
  hooks : c'.dialect.hooks = c.dialect.hooks

section BothPlain

variable (hd : BothPlain c c')
include hd

/-- Callbacks each of which is in step with itself. -/
theorem BothPlain.forall₂ {p : HookPoint} (h : ∀ k ∈ c.dialect.hooks.get p, ∀ node,
      InStep c c' t P (t.Ended P) (k.script.run node) (k.script.run node)) :
    List.Forall₂ (fun k k' => ∀ node,
      InStep c c' t P (t.Ended P) (k.script.run node) (k'.script.run node))
        (c.dialect.hooks.get p) (c'.dialect.hooks.get p) := by
  rw [hd.hooks]
  exact List.forall₂_same.mpr h

theorem Keeps.notify_of_nil {p : HookPoint} (hp : c.dialect.hooks.get p = [])
    (node : Option Expr) : Keeps c c' t P (notify p node) := by
  refine .notify (hd.forall₂ ?_) node
  rw [hp]
  exact nofun

theorem Keeps.search_of_nil {p : HookPoint} (hp : c.dialect.hooks.get p = []) :
    Keeps c c' t P (search p) := by
  refine .search (hd.forall₂ ?_)
  rw [hp]
  exact nofun

/-- Comments are white space that walks on in the text. -/
theorem Persists.kept (h : Persists c c' t P) : Kept c c' t P where
  toPersists := h
  blanks := by
    refine .notify (hd.forall₂ fun k hk => ?_) none
    rcases hd.plain.blanks with hp | ⟨k', hp, hscript⟩
    · rw [hp] at hk
      cases hk
    · rw [hp, List.mem_singleton] at hk
      rw [hk, hscript]
      exact h.walks Comments.script_walks

theorem Level.expressionDone (h : Level c c' t P A) (node : Option Expr) :
    Keeps c c' t P (notify .expressionDone node) := by
  rcases hd.plain.expressionDone with hp | ⟨k, hp, hscript⟩
  · exact .notify_of_nil hd hp node
  · have hp' : c'.dialect.hooks.get .expressionDone = [k] := by rw [hd.hooks, hp]
    intro s hs
    cases node with
    | none =>
      rw [notify_conditional_none hd.plain, notify_conditional_none (hd.plain.congr hd.hooks)]
      exact .ok hs
    | some test =>
      rw [notify_of_singleton hp, notify_of_singleton hp', hscript, settle_ternary]
      exact h.conditional test s hs

/-- What persists before and after a character is taken is a level, where it lets entries
through. -/
theorem Persists.level (h : Persists c c' t P) (hA : Persists c c' t A)
    (hweaken : ∀ s, A s → P s)
    (htaken : ∀ s j, P s → s.index < j → j ≤ c.text.size → A { s with index := j })
    (hoperand : Keeps c c' t A (reenter .operand))
    (hexpression : Keeps c c' t A (reenter .expression)) : Level c c' t P A where
  before := h.kept hd
  after := hA.kept hd
  weaken := hweaken
  taken := htaken
  operand := hoperand
  expression := hexpression
  supplied := .search_of_nil hd hd.plain.operand
  done := .notify_of_nil hd hd.plain.operandDone

theorem Level.expressionBody (h : Level c c' t P A)
    (hoperand : Keeps c c' t P (reenter .operand)) : Keeps c c' t P Reading.expressionBody :=
  h.before.expressionBody hoperand (.search_of_nil hd hd.plain.expression)
    (h.expressionDone hd)

theorem Persists.program (h : Persists c c' t P)
    (hexpression : Keeps c c' t P (reenter .expression)) : Keeps c c' t P Reading.program :=
  (h.kept hd).program hexpression (.notify_of_nil hd hd.plain.start none)
    (.notify_of_nil hd hd.plain.finish)

end BothPlain

end Reading

end OperatorGrammar
