/-
OperatorGrammar/Proofs/Approximation.lean

Two runs of a reading side by side.

One reply approximates another when they end in the same way and in the same
state, or when the first ran out of budget.  The values need not be equal, only
related: two runs may name an operator by different precedences and still build
the same tree.  A reading in one context approximates a reading in another when
its replies do from every state, and this is kept by sequences
(`Reading.Approx.bind`) and holds of each primitive step.  Every later statement
about two runs is put together from these lemmas, production by production.

Callbacks are readings as well.  One that never looks at the tables is `Blind`,
and runs in the same way wherever the text and what it may enter are the same.
-/
import OperatorGrammar.Proofs.Plain

namespace OperatorGrammar

variable {α β γ δ : Type}

/-- Both replies are the same failure, or related values in the same state; or the first
ran out of budget. -/
inductive Reply.Approx (R : α → β → Prop) : Reply α → Reply β → Prop
  | ok {a b s} : R a b → Approx R (.ok a s) (.ok b s)
  | fail {e s} : Approx R (.fail e s) (.fail e s)
  | exhausted {r} : Approx R .exhausted r

theorem Reply.Approx.mono {R S : α → β → Prop} (hRS : ∀ a b, R a b → S a b) {r : Reply α}
    {r' : Reply β} (h : r.Approx R r') : r.Approx S r' := by
  cases h with
  | ok hR => exact .ok (hRS _ _ hR)
  | fail => exact .fail
  | exhausted => exact .exhausted

/-- An answer of the first run is the answer of the second. -/
theorem Reply.Approx.outcome {r r' : Reply α} (h : r.Approx Eq r') {o : Except Failure α}
    (ho : r.outcome? = some o) : r'.outcome? = some o := by
  cases h with
  | ok heq =>
    subst heq
    exact ho
  | fail => exact ho
  | exhausted => cases ho

/-- Two runs that approximate each other have the same answer, if any. -/
theorem Reply.Approx.outcome_eq {r r' : Reply α} (h : r.Approx Eq r') (h' : r'.Approx Eq r) :
    r.outcome? = r'.outcome? := by
  cases h with
  | ok heq => rw [heq]
  | fail => rfl
  | exhausted =>
    cases h' with
    | exhausted => rfl

namespace Reading

/-- From every state, the reply of one reading approximates that of another. -/
def Approx (c c' : Context) (R : α → β → Prop) (x : Reading α) (y : Reading β) : Prop :=
  ∀ s, (x c s).Approx R (y c' s)

namespace Approx

variable {c c' : Context} {R : α → β → Prop} {S : γ → δ → Prop}

/-! ### Sequences and branches -/

theorem pure {a : α} {b : β} (h : R a b) : Approx c c' R (Pure.pure a) (Pure.pure b) :=
  fun _ => .ok h

theorem bind {x : Reading α} {y : Reading β} {f : α → Reading γ} {g : β → Reading δ}
    (hx : Approx c c' R x y) (hf : ∀ a b, R a b → Approx c c' S (f a) (g b)) :
    Approx c c' S (x >>= f) (y >>= g) := by
  intro s
  have hs := hx s
  rw [bind_apply, bind_apply]
  generalize x c s = r at hs ⊢
  generalize y c' s = r' at hs ⊢
  cases hs with
  | ok h => exact hf _ _ h _
  | fail => exact .fail
  | exhausted => exact .exhausted

/-- A sequence whose first parts answer the same. -/
theorem bind_eq {x y : Reading α} {f : α → Reading γ} {g : α → Reading δ}
    (hx : Approx c c' Eq x y) (hf : ∀ a, Approx c c' S (f a) (g a)) :
    Approx c c' S (x >>= f) (y >>= g) :=
  hx.bind fun a _ h => h ▸ hf a

theorem ite {p : Prop} [Decidable p] {x x' : Reading α} {y y' : Reading β}
    (h : p → Approx c c' R x y) (h' : ¬ p → Approx c c' R x' y') :
    Approx c c' R (if p then x else x') (if p then y else y') := by
  by_cases hp : p
  · rw [if_pos hp, if_pos hp]
    exact h hp
  · rw [if_neg hp, if_neg hp]
    exact h' hp

/-! ### Primitive steps -/

theorem exhausted {y : Reading β} : Approx c c' R Reading.exhausted y :=
  fun _ => .exhausted

theorem raise (e : Failure) : Approx c c' R (Reading.raise e) (Reading.raise e) :=
  fun _ => .fail

theorem failHere (e : Cause) : Approx c c' R (Reading.failHere e) (Reading.failHere e) :=
  fun _ => .fail

theorem moveTo (i : Nat) : Approx c c' Eq (Reading.moveTo i) (Reading.moveTo i) :=
  fun _ => .ok rfl

theorem rewind (n : Nat) : Approx c c' Eq (Reading.rewind n) (Reading.rewind n) :=
  fun _ => .ok rfl

theorem grammar : Approx c c' (fun g g' => g = c.dialect.grammar ∧ g' = c'.dialect.grammar)
    Reading.grammar Reading.grammar :=
  fun _ => .ok ⟨rfl, rfl⟩

theorem budget (hbudget : c.budget ≤ c'.budget) :
    Approx c c' (· ≤ ·) Reading.budget Reading.budget :=
  fun _ => .ok hbudget

section SameText

variable (htext : c'.text = c.text)
include htext

theorem forward (n : Nat) : Approx c c' Eq (Reading.forward n) (Reading.forward n) := by
  intro s
  rw [forward_apply, forward_apply, htext]
  exact .ok rfl

theorem cursor : Approx c c' (fun p q => p = q ∧ p.text = c.text) Reading.cursor
    Reading.cursor := by
  intro s
  rw [cursor_apply, cursor_apply, htext]
  exact .ok ⟨rfl, rfl⟩

/-- The character at the cursor is one of the text. -/
theorem current : Approx c c' (fun p q => p = q ∧ ∀ ch ∈ p, ch ∈ c.text.toList) Reading.current
    Reading.current := by
  intro s
  rw [current_apply, current_apply, htext]
  refine .ok ⟨rfl, ?_⟩
  intro ch hch
  exact mem_text_of_getElem? hch

end SameText

/-- Reading one level deeper, under the same limit. -/
theorem nested (hlimit : c.dialect.grammar.nestingLimit = c'.dialect.grammar.nestingLimit)
    {x : Reading α} {y : Reading β} (h : Approx c c' R x y) :
    Approx c c' R (Reading.nested x) (Reading.nested y) := by
  intro s
  rw [Reading.nested, Reading.nested, ← hlimit]
  split
  · exact .fail
  · have hs := h { s with depth := s.depth + 1 }
    generalize x c { s with depth := s.depth + 1 } = r at hs ⊢
    generalize y c' { s with depth := s.depth + 1 } = r' at hs ⊢
    cases hs with
    | ok h => exact .ok h
    | fail => exact .fail
    | exhausted => exact .exhausted

end Approx

end Reading

/-! ### Callbacks -/

/-- A script that never looks at the tables. -/
inductive Script.Blind : Script → Prop
  | done : Blind .done
  | fail {e} : Blind (.fail e)
  | abandon : Blind .abandon
  | look {next} : (∀ g g' cursor node, next ⟨g, cursor, node⟩ = next ⟨g', cursor, node⟩) →
      (∀ v, Blind (next v)) → Blind (.look next)
  | advance {count next} : Blind next → Blind (.advance count next)
  | setNode {node next} : Blind next → Blind (.setNode node next)
  | note {left next} : Blind next → Blind (.note left next)
  | enter {entry next} : (∀ r, Blind (next r)) → Blind (.enter entry next)

namespace Script.Blind

theorem needExpression {next : Expr → Script} (h : ∀ e, (next e).Blind) :
    (Script.needExpression next).Blind := by
  refine .enter fun r => ?_
  rcases r with e | - | e
  · exact .fail
  · exact .look (fun _ _ _ _ => rfl) fun _ => .fail
  · exact h e

theorem needChar {ch : Char} {cause : Cause} {next : Script} (h : next.Blind) :
    (Script.needChar ch cause next).Blind := by
  refine .look (fun _ _ _ _ => rfl) fun v => ?_
  split
  · exact h.advance
  · exact .fail

/-- A script that does not look at the tables runs alike in two contexts with the same
text and the same entries. -/
theorem approx {script : Script} (h : script.Blind) {c c' : Context} (htext : c'.text = c.text)
    (henter : ∀ entry, Reading.Approx c c' Eq (.reenter entry) (.reenter entry))
    (node : Option Expr) : Reading.Approx c c' Eq (script.run node) (script.run node) := by
  induction h generalizing node with
  | done => exact fun _ => .ok rfl
  | fail => exact fun _ => .ok rfl
  | abandon => exact fun _ => .exhausted
  | look hblind _ ih =>
    intro s
    rw [run_look, run_look, htext, hblind c'.dialect.grammar c.dialect.grammar]
    exact ih _ node s
  | @advance count next _ ih =>
    intro s
    show Reply.Approx Eq
      (next.run node c { s with index := (Cursor.advance ⟨c.text, s.index⟩ count).index })
      (next.run node c' { s with index := (Cursor.advance ⟨c'.text, s.index⟩ count).index })
    rw [htext]
    exact ih node _
  | setNode _ ih => exact ih _
  | note _ ih => exact fun s => ih node _
  | @enter entry next _ ih =>
    intro s
    have hs : (c.enter entry s).Approx Eq (c'.enter entry s) := henter entry s
    rw [Script.run]
    dsimp only
    -- the script goes on with the answer, also when it is a failure
    generalize c.enter entry s = r at hs ⊢
    generalize c'.enter entry s = r' at hs ⊢
    cases hs with
    | ok heq =>
      subst heq
      exact ih _ node _
    | fail => exact ih _ node _
    | exhausted => exact .exhausted

end Script.Blind

namespace Ternary

theorem script_blind : script.Blind := by
  refine .look (fun _ _ _ _ => rfl) fun v => ?_
  split
  · exact .setNode <| .advance <| .needExpression fun _ => .needChar <| .needExpression fun _ =>
      .setNode .done
  · exact .done

end Ternary

namespace Comments

theorem skipLine_blind (n : Nat) : (skipLine n).Blind := by
  induction n with
  | zero => exact .done
  | succ n ih =>
    refine .look (fun _ _ _ _ => rfl) fun v => ?_
    split
    · exact ih.advance
    · exact .done

theorem skipBlock_blind (start n : Nat) : (skipBlock start n).Blind := by
  induction n with
  | zero => exact .abandon
  | succ n ih =>
    refine .look (fun _ _ _ _ => rfl) fun v => ?_
    split
    · exact .advance .done
    · split
      · exact .fail
      · exact ih.advance

theorem script_blind : script.Blind := by
  refine .look (fun _ _ _ _ => rfl) fun v => ?_
  split
  · exact skipLine_blind _
  · split
    · exact .advance (skipBlock_blind _ _)
    · exact .done

end Comments

namespace Reading.Approx

variable {c c' : Context} {p : HookPoint} {node : Option Expr}

theorem notify_of_nil (hp : c.dialect.hooks.get p = []) (hp' : c'.dialect.hooks.get p = []) :
    Approx c c' Eq (notify p node) (notify p node) := by
  intro s
  rw [Reading.notify_of_nil hp, Reading.notify_of_nil hp']
  exact .ok rfl

theorem search_of_nil (hp : c.dialect.hooks.get p = []) (hp' : c'.dialect.hooks.get p = []) :
    Approx c c' Eq (search p) (search p) := by
  intro s
  rw [Reading.search_of_nil hp, Reading.search_of_nil hp']
  exact .ok rfl

theorem settle (ending : Ending) : Approx c c' Eq (Reading.settle ending)
    (Reading.settle ending) := by
  obtain ⟨left, failure⟩ := ending
  cases failure with
  | none => exact .pure rfl
  | some e => exact .raise e

/-- A point where nothing listens on either side, or one callback with the same script on
both. -/
theorem notify_of_blind (htext : c'.text = c.text)
    (henter : ∀ entry, Approx c c' Eq (.reenter entry) (.reenter entry)) {script : Script}
    (hblind : script.Blind)
    (hp : c.dialect.hooks.get p = [] ∨ ∃ h, c.dialect.hooks.get p = [h] ∧ h.script = script)
    (hp' : c'.dialect.hooks.get p = [] ∨ ∃ h, c'.dialect.hooks.get p = [h] ∧ h.script = script)
    (hsame : c.dialect.hooks.get p ≠ [] ↔ c'.dialect.hooks.get p ≠ []) :
    Approx c c' Eq (notify p node) (notify p node) := by
  by_cases hnil : c.dialect.hooks.get p = []
  · exact notify_of_nil hnil (Classical.not_not.mp fun hne => hsame.mpr hne hnil)
  · obtain ⟨h, hp, hscript⟩ := hp.resolve_left hnil
    obtain ⟨h', hp', hscript'⟩ := hp'.resolve_left (hsame.mp hnil)
    intro s
    rw [notify_of_singleton hp, notify_of_singleton hp', hscript, hscript']
    exact (hblind.approx htext henter node).bind_eq settle s

end Reading.Approx

end OperatorGrammar
