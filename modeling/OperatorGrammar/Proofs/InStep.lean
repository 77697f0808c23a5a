/-
OperatorGrammar/Proofs/InStep.lean

Two runs of a reading in step, from states on which a condition holds.

A reading is run in two contexts that share the text, the budget and the tables
but for the nesting limit.  The two runs are in step when they give the same
answer and leave the same state, on which a second condition holds; the first of
them may also use up its budget, or stop with a failure of its own
(`Reply.InStep`).  Which failures these are, and what is known when both runs
fail, is said by the `Terms`.

With one context on both sides this is a triple of a condition before, a reading
and a condition after; with two it also compares the runs.  So one pass over the
grammar gives what a callback may find when it is called, and what a change of
the limit does to a parse.

A condition is `Kept` when it holds wherever the cursor goes on in the text, and
white space keeps it.  The body of an operand needs two of them (`Level`): one
from the start, and a stronger one once a character is taken, which is where it
enters other expressions.
-/
import OperatorGrammar.Proofs.Plain
import Mathlib.Data.List.Forall2

namespace OperatorGrammar

variable {α β : Type}

/-- How the first of two runs may stop on its own, and how both may fail. -/
structure Terms where
  stops : Failure → Prop
  shares : Failure → State → Prop

/-- Both replies are the same and leave a state as expected; or the first one ran out of
budget, or stopped with a failure of its own. -/
inductive Reply.InStep (t : Terms) (after : α → State → Prop) : Reply α → Reply α → Prop
  | ok {a s} : after a s → InStep t after (.ok a s) (.ok a s)
  | fail {e s} : t.shares e s → InStep t after (.fail e s) (.fail e s)
  | exhausted {r} : InStep t after .exhausted r
  | stop {e s r} : t.stops e → InStep t after (.fail e s) r

/-- After a run of callbacks: a condition on the state, and a failure that may be shared. -/
def Terms.Ended (t : Terms) (P : State → Prop) (ending : Ending) (s : State) : Prop :=
  P s ∧ ∀ e ∈ ending.failure, t.shares e s

/-- No further expression or operand may be opened. -/
def Context.AtLimit (c : Context) (s : State) : Prop :=
  c.dialect.grammar.nestingLimit.any (· ≤ s.depth)

theorem Reply.InStep.mono {t : Terms} {after after' : α → State → Prop} {r r' : Reply α}
    (h : r.InStep t after r') (hafter : ∀ a s, after a s → after' a s) : r.InStep t after' r' := by
  cases h with
  | ok ha => exact .ok (hafter _ _ ha)
  | fail he => exact .fail he
  | exhausted => exact .exhausted
  | stop he => exact .stop he

/-- The state in which a reading returned, with a value or with a failure. -/
def Reply.state? : Reply α → Option State
  | .ok _ s => some s
  | .fail _ s => some s
  | .exhausted => none

/-- Where the first run has no failures of its own, it returns only if both do. -/
theorem Reply.InStep.returns {t : Terms} {P : State → Prop} {r r' : Reply α}
    (h : r.InStep t (fun _ => P) r') (hstops : ∀ e, ¬ t.stops e)
    (hshares : ∀ e s, t.shares e s → P s) {s : State} (hs : r.state? = some s) : r' = r ∧ P s := by
  cases h with
  | ok ha =>
    cases hs
    exact ⟨rfl, ha⟩
  | fail he =>
    cases hs
    exact ⟨rfl, hshares _ _ he⟩
  | exhausted => cases hs
  | stop he => exact absurd he (hstops _)

/-- Two replies that are in step either way are the same. -/
theorem Reply.InStep.eq {t : Terms} {after : α → State → Prop} {r r' : Reply α}
    (h : r.InStep t after r') (h' : r'.InStep t after r) (hstops : ∀ e, ¬ t.stops e) : r = r' := by
  cases h with
  | ok _ => rfl
  | fail _ => rfl
  | exhausted =>
    cases h' with
    | exhausted => rfl
    | stop he => exact absurd he (hstops _)
  | stop he => exact absurd he (hstops _)

namespace Script

variable {c : Context} {s : State} {node : Option Expr}

theorem run_advance_word (n : UInt64) (next : Script) :
    (advance n next).run node c s
      = next.run node c { s with index := (Cursor.advance ⟨c.text, s.index⟩ n).index } := rfl

theorem run_enter (entry : Entry) (next : Except Failure (Option Expr) → Script) :
    (enter entry next).run node c s = match c.enter entry s with
      | .ok result s => (next (.ok result)).run node c s
      | .fail failure s => (next (.error failure)).run node c s
      | .exhausted => .exhausted := by
  cases h : c.enter entry s <;> simp only [Script.run, h]

end Script

namespace Reading

/-- From every state on which `before` holds, the two runs are in step. -/
def InStep (c c' : Context) (t : Terms) (before : State → Prop) (after : α → State → Prop)
    (x y : Reading α) : Prop :=
  ∀ s, before s → (x c s).InStep t after (y c' s)

/-- The two runs of one reading are in step, and keep a condition. -/
def Keeps (c c' : Context) (t : Terms) (P : State → Prop) (x : Reading α) : Prop :=
  InStep c c' t P (fun _ => P) x x

section AtLimit

variable {c : Context} {s : State}

theorem nested_of_atLimit {x : Reading α} (h : c.AtLimit s) :
    nested x c s = .fail ⟨.nestingLimit, s.index⟩ s :=
  if_pos h

theorem nested_of_not_atLimit {x : Reading α} (h : ¬ c.AtLimit s) :
    nested x c s = match x c { s with depth := s.depth + 1 } with
      | .ok a s => .ok a { s with depth := s.depth - 1 }
      | .fail e s => .fail e { s with depth := s.depth - 1 }
      | .exhausted => .exhausted :=
  if_neg h

end AtLimit

namespace InStep

variable {c c' : Context} {t : Terms} {P P' : State → Prop} {Q Q' : α → State → Prop}
  {R : β → State → Prop} {x x' y y' : Reading α} {f g : α → Reading β}

/-! ### Sequences and branches -/

theorem mono (h : InStep c c' t P Q x y) (hP : ∀ s, P' s → P s) (hQ : ∀ a s, Q a s → Q' a s) :
    InStep c c' t P' Q' x y :=
  fun s hs => (h s (hP s hs)).mono hQ

theorem strengthen (h : InStep c c' t P Q x y) (hP : ∀ s, P' s → P s) :
    InStep c c' t P' Q x y :=
  h.mono hP fun _ _ hQ => hQ

theorem weaken (h : InStep c c' t P Q x y) (hQ : ∀ a s, Q a s → Q' a s) :
    InStep c c' t P Q' x y :=
  h.mono (fun _ hP => hP) hQ

theorem pure {a : α} (h : ∀ s, P s → Q a s) : InStep c c' t P Q (Pure.pure a) (Pure.pure a) :=
  fun s hs => .ok (h s hs)

theorem bind (hx : InStep c c' t P Q x y) (hf : ∀ a, InStep c c' t (Q a) R (f a) (g a)) :
    InStep c c' t P R (x >>= f) (y >>= g) := by
  intro s hs
  have h := hx s hs
  rw [bind_apply, bind_apply]
  generalize x c s = r at h ⊢
  generalize y c' s = r' at h ⊢
  cases h with
  | ok ha => exact hf _ _ ha
  | fail he => exact .fail he
  | exhausted => exact .exhausted
  | stop he => exact .stop he

theorem ite {p : Prop} [Decidable p] (h : p → InStep c c' t P Q x y)
    (h' : ¬ p → InStep c c' t P Q x' y') :
    InStep c c' t P Q (if p then x else x') (if p then y else y') := by
  by_cases hp : p
  · rw [if_pos hp, if_pos hp]
    exact h hp
  · rw [if_neg hp, if_neg hp]
    exact h' hp

/-! ### Primitive steps -/

theorem exhausted : InStep c c' t P Q Reading.exhausted y :=
  fun _ _ => .exhausted

theorem raise {e : Failure} (h : ∀ s, P s → t.shares e s) :
    InStep c c' t P Q (Reading.raise e) (Reading.raise e) :=
  fun s hs => .fail (h s hs)

theorem moveTo {i : Nat} {Q : Unit → State → Prop} (h : ∀ s, P s → Q () { s with index := i }) :
    InStep c c' t P Q (Reading.moveTo i) (Reading.moveTo i) :=
  fun s hs => .ok (h s hs)

theorem rewind {n : Nat} {Q : Unit → State → Prop}
    (h : ∀ s, P s → Q () { s with index := s.index - n }) :
    InStep c c' t P Q (Reading.rewind n) (Reading.rewind n) :=
  fun s hs => .ok (h s hs)

/-- The tables may differ in the limit, so they are handed on as they are on each side. -/
theorem grammar_bind {f g : Grammar → Reading β}
    (h : InStep c c' t P R (f c.dialect.grammar) (g c'.dialect.grammar)) :
    InStep c c' t P R (Reading.grammar >>= f) (Reading.grammar >>= g) :=
  fun s hs => h s hs

theorem budget (hbudget : c'.budget = c.budget) :
    InStep c c' t P (fun _ => P) Reading.budget Reading.budget := by
  intro s hs
  rw [budget_apply, budget_apply, hbudget]
  exact .ok hs

section SameText

variable (htext : c'.text = c.text)
include htext

theorem forward {n : Nat} {Q : Unit → State → Prop}
    (h : ∀ s, P s → Q () { s with index := min (s.index + n) c.text.size }) :
    InStep c c' t P Q (Reading.forward n) (Reading.forward n) := by
  intro s hs
  rw [forward_apply, forward_apply, htext]
  exact .ok (h s hs)

theorem cursor : InStep c c' t P (fun place s => P s ∧ place = ⟨c.text, s.index⟩) Reading.cursor
    Reading.cursor := by
  intro s hs
  rw [cursor_apply, cursor_apply, htext]
  exact .ok ⟨hs, rfl⟩

theorem current : InStep c c' t P (fun next s => P s ∧ c.text[s.index]? = next) Reading.current
    Reading.current := by
  intro s hs
  rw [current_apply, current_apply, htext]
  exact .ok ⟨hs, rfl⟩

end SameText

/-! ### Levels -/

/-- Reading one level deeper, on terms of its own.  At the limit the first run may stop, or
both fail. -/
theorem nested {t₁ : Terms} {P₁ : State → Prop} {Q₁ : α → State → Prop}
    (h : InStep c c' t₁ P₁ Q₁ x y)
    (hopen : ∀ s, P s → ¬ c.AtLimit s → P₁ { s with depth := s.depth + 1 })
    (hclose : ∀ a s, Q₁ a s → Q a { s with depth := s.depth - 1 })
    (hfail : ∀ e s, t₁.shares e s → t.shares e { s with depth := s.depth - 1 })
    (hstop : ∀ e, t₁.stops e → t.stops e)
    (hlimit : ∀ s, P s → c.AtLimit s → t.stops ⟨.nestingLimit, s.index⟩ ∨
      c'.AtLimit s ∧ t.shares ⟨.nestingLimit, s.index⟩ s)
    (hlimit' : ∀ s, P s → c'.AtLimit s → c.AtLimit s) :
    InStep c c' t P Q (Reading.nested x) (Reading.nested y) := by
  intro s hs
  by_cases hat : c.AtLimit s
  · rw [nested_of_atLimit hat]
    rcases hlimit s hs hat with hstop | ⟨hat', hshared⟩
    · exact .stop hstop
    · rw [nested_of_atLimit hat']
      exact .fail hshared
  · rw [nested_of_not_atLimit hat, nested_of_not_atLimit fun hat' => hat (hlimit' s hs hat')]
    have hbody := h _ (hopen s hs hat)
    generalize x c { s with depth := s.depth + 1 } = r at hbody ⊢
    generalize y c' { s with depth := s.depth + 1 } = r' at hbody ⊢
    cases hbody with
    | ok ha => exact .ok (hclose _ _ ha)
    | fail he => exact .fail (hfail _ _ he)
    | exhausted => exact .exhausted
    | stop he => exact .stop (hstop _ he)

/-! ### Callbacks -/

theorem settle (ending : Ending) : InStep c c' t (t.Ended P ending) (fun _ => P)
    (Reading.settle ending) (Reading.settle ending) := by
  obtain ⟨node, failure⟩ := ending
  cases failure with
  | none => exact pure fun s hs => hs.1
  | some e => exact raise fun s hs => hs.2 e rfl

/-- A script goes on with the answer of a call, also when it is a failure. -/
theorem enter {t₁ : Terms} {P₁ : State → Prop} {Q : Ending → State → Prop} {entry : Entry}
    {next next' : Except Failure (Option Expr) → Script} {node : Option Expr}
    (henter : InStep c c' t₁ P (fun _ => P₁) (reenter entry) (reenter entry))
    (hshares : ∀ e s, t₁.shares e s → P₁ s) (hstops : ∀ e, ¬ t₁.stops e)
    (hnext : ∀ r, InStep c c' t P₁ Q ((next r).run node) ((next' r).run node)) :
    InStep c c' t P Q ((Script.enter entry next).run node)
      ((Script.enter entry next').run node) := by
  intro s hs
  have h : (c.enter entry s).InStep _ _ (c'.enter entry s) := henter s hs
  rw [Script.run_enter, Script.run_enter]
  generalize c.enter entry s = r at h ⊢
  generalize c'.enter entry s = r' at h ⊢
  cases h with
  | ok ha => exact hnext _ _ ha
  | fail he => exact hnext _ _ (hshares _ _ he)
  | exhausted => exact .exhausted
  | stop he => exact absurd he (hstops _)

/-- A script, where the condition is about neither the cursor nor the notes, and failures are
shared wherever it holds. -/
theorem script (henter : ∀ entry, Keeps c c' t P (reenter entry)) (htext : c'.text = c.text)
    (hgrammar : c'.dialect.grammar = c.dialect.grammar)
    (hplace : ∀ s i notes, P s → P { s with index := i, notes := notes })
    (hshares : ∀ e s, t.shares e s ↔ P s) (hstops : ∀ e, ¬ t.stops e) (script : Script)
    (node : Option Expr) :
    InStep c c' t P (t.Ended P) (script.run node) (script.run node) := by
  induction script generalizing node with
  | done => exact pure fun s hs => ⟨hs, nofun⟩
  | fail e => exact pure fun s hs => ⟨hs, fun e _ => (hshares e s).mpr hs⟩
  | abandon => exact exhausted
  | look next ih =>
    intro s hs
    rw [Script.run_look, Script.run_look, htext, hgrammar]
    exact ih _ node s hs
  | advance count next ih =>
    intro s hs
    rw [Script.run_advance_word, Script.run_advance_word, htext]
    exact ih node _ (hplace s _ s.notes hs)
  | setNode node' next ih => exact ih node'
  | note left next ih => exact fun s hs => ih node _ (hplace s s.index _ hs)
  | enter entry next ih =>
    exact .enter (henter entry) (fun e s => (hshares e s).mp) hstops fun r => ih r node

section Hooks

-- callbacks in the same order, whose scripts keep the condition and stay in step
variable {hooks hooks' : List Hook} (h : List.Forall₂ (fun k k' => ∀ node,
  InStep c c' t P (t.Ended P) (k.script.run node) (k'.script.run node)) hooks hooks')
include h

theorem notifyAll (node : Option Expr) :
    InStep c c' t P (t.Ended P) (Hook.notifyAll hooks node) (Hook.notifyAll hooks' node) := by
  induction h generalizing node with
  | nil => exact pure fun s hs => ⟨hs, nofun⟩
  | cons hscript _ ih =>
    refine (hscript node).bind fun ending => ite (fun _ => pure fun s hs => hs) fun _ => ?_
    exact (ih ending.node).strengthen fun s hs => hs.1

theorem searchAll (node : Option Expr) :
    InStep c c' t P (t.Ended P) (Hook.searchAll hooks node) (Hook.searchAll hooks' node) := by
  induction h generalizing node with
  | nil => exact pure fun s hs => ⟨hs, nofun⟩
  | cons hscript _ ih =>
    refine (hscript node).bind fun ending => ite (fun _ => pure fun s hs => hs) fun _ => ?_
    exact (ih ending.node).strengthen fun s hs => hs.1

end Hooks

section Points

variable {p : HookPoint} (h : List.Forall₂ (fun k k' => ∀ node,
  InStep c c' t P (t.Ended P) (k.script.run node) (k'.script.run node))
    (c.dialect.hooks.get p) (c'.dialect.hooks.get p))
include h

theorem announce (node : Option Expr) :
    InStep c c' t P (t.Ended P) (Reading.announce p node) (Reading.announce p node) :=
  fun s hs => notifyAll h node s hs

theorem notify (node : Option Expr) :
    InStep c c' t P (fun _ => P) (Reading.notify p node) (Reading.notify p node) :=
  (announce h node).bind settle

theorem search : InStep c c' t P (fun _ => P) (Reading.search p) (Reading.search p) := by
  have hsearch : InStep c c' t P (t.Ended P)
      (hooksAt p >>= fun hooks => Hook.searchAll hooks none)
      (hooksAt p >>= fun hooks => Hook.searchAll hooks none) :=
    fun s hs => searchAll h none s hs
  exact hsearch.bind settle

end Points

end InStep

end Reading

end OperatorGrammar
