/-
OperatorGrammar/Proofs/OpenLevels.lean

The depth is the number of the expressions and operands that are open.

No callback sees the depth, and nothing reads or changes it but the opening of an
expression or an operand.  To say that it is right wherever it is read, the
reading is run under supervision (`Dialect.supervised`): the supervisor carries
the number of the open levels from call to call, and where it finds another depth
at the start or at the end of a call, or a level beyond the limit, it gives an
answer of its own choice.  The supervised reading is the reading itself, whatever
that answer is, so nothing wrong is ever found.

A level that is left with a failure is closed all the same, and the failure may be
caught many levels above.

Main result: `Dialect.depth_counts_open`.
-/
import OperatorGrammar.Proofs.Onward

namespace OperatorGrammar

/-- How many levels a call of an entry opens. -/
def Entry.levels : Entry → Nat
  | .blanks => 0
  | .operand => 1
  | .identifier => 0
  | .expression => 1

/-- Reads an entry on a budget, with a number of levels open.  A call that starts or returns
at another depth, or beyond the limit, gets the wrong answer. -/
def Dialect.supervised (d : Dialect) (text : Array Char)
    (wrong : Entry → State → Reply (Option Expr)) : Nat → Nat → Entry → State →
      Reply (Option Expr)
  | 0, _ => fun _ _ => .exhausted
  | n + 1, opened => fun entry s =>
    let reply :=
      Reading.production entry ⟨d, text, n, d.supervised text wrong n (opened + entry.levels)⟩ s
    if s.depth = opened ∧ d.grammar.nestingLimit.all (opened ≤ ·) ∧
      reply.state?.all (·.depth = opened) then reply else wrong entry s

/-- The depth is a given one, and this one is possible. -/
def State.AtDepth (possible : Nat → Prop) (k : Nat) (s : State) : Prop :=
  s.depth = k ∧ possible k

namespace Reading

/-- Both runs answer alike, at a given depth. -/
def counted (possible : Nat → Prop) (k : Nat) : Terms :=
  ⟨fun _ => False, fun _ => State.AtDepth possible k⟩

/-- The two runs of a reading are in step, and leave the depth as it is. -/
def KeepsDepth (possible : Nat → Prop) (c c' : Context) (k : Nat) (x : Reading (Option Expr)) :
    Prop :=
  Keeps c c' (counted possible k) (State.AtDepth possible k) x

/-! ### One level -/

section Levels

variable {possible : Nat → Prop} {d : Dialect} {text : Array Char} {n : Nat}
  {e f : Nat → Entry → State → Reply (Option Expr)}
  (henter : ∀ k entry,
    KeepsDepth possible ⟨d, text, n, e k⟩ ⟨d, text, n, f k⟩ k (reenter entry))
include henter

theorem steady_atDepth (k : Nat) :
    Steady ⟨d, text, n, e k⟩ ⟨d, text, n, f k⟩ (counted possible k)
      (State.AtDepth possible k) where
  text := rfl
  budget := rfl
  grammar := ⟨d.grammar.nestingLimit, rfl⟩
  onward _ _ hs _ := hs
  fails _ _ hs _ := hs
  scripts _ := List.forall₂_same.mpr fun h _ => InStep.script (henter k) rfl rfl
    (fun _ _ _ hs => hs) (fun _ _ => Iff.rfl) (fun _ he => he) h.script
  entries := henter k

omit henter in
/-- A level is opened below the limit, and closed when its reading returns. -/
theorem KeepsDepth.nested {k : Nat} {x : Reading (Option Expr)}
    {enter enter' : Entry → State → Reply (Option Expr)}
    (h : KeepsDepth possible ⟨d, text, n, enter⟩ ⟨d, text, n, enter'⟩ (k + 1) x)
    (hnext : possible k → d.grammar.nestingLimit.all (k < ·) → possible (k + 1)) :
    KeepsDepth possible ⟨d, text, n, enter⟩ ⟨d, text, n, enter'⟩ k (Reading.nested x) := by
  rintro s ⟨hs, hpossible⟩
  have hclose (s : State) (hs : State.AtDepth possible (k + 1) s) :
      State.AtDepth possible k { s with depth := s.depth - 1 } :=
    ⟨Nat.sub_eq_of_eq_add hs.1, hpossible⟩
  refine InStep.nested (t := counted possible k) (P := State.AtDepth possible k) h ?_
    (fun _ => hclose) (fun _ => hclose) (fun _ he => he)
    (fun _ hs hat => .inr ⟨hat, hs⟩) (fun _ _ hat => hat) s ⟨hs, hpossible⟩
  rintro s ⟨rfl, -⟩ hat
  refine ⟨rfl, hnext hpossible ?_⟩
  rw [Context.AtLimit] at hat
  dsimp only at hat
  cases hlimit : d.grammar.nestingLimit with
  | none => rfl
  | some limit =>
    rw [hlimit] at hat
    simpa using hat

/-- A production on a level, where calls are made with the levels open that it opens. -/
theorem production_keepsDepth
    (hnext : ∀ k, possible k → d.grammar.nestingLimit.all (k < ·) → possible (k + 1)) (k : Nat)
    (entry : Entry) :
    KeepsDepth possible ⟨d, text, n, e (k + entry.levels)⟩ ⟨d, text, n, f (k + entry.levels)⟩ k
      (production entry) := by
  cases entry with
  | blanks => exact (steady_atDepth henter k).blanks
  | operand =>
    rw [production, operand_eq]
    exact KeepsDepth.nested (steady_atDepth henter (k + 1)).operandBody (hnext k)
  | identifier => exact (steady_atDepth henter k).identifier
  | expression =>
    rw [production, expression_eq]
    exact KeepsDepth.nested (steady_atDepth henter (k + 1)).expressionBody (hnext k)

end Levels

end Reading

/-! ### Tying the knot -/

namespace Dialect

open Reading

variable (d : Dialect) (text : Array Char) (wrong : Entry → State → Reply (Option Expr))

/-- The levels that the limit leaves open. -/
def Allows (k : Nat) : Prop :=
  d.grammar.nestingLimit.all (k ≤ ·)

variable {d text}

/-- An entry leaves the depth as it is, with and without a limit. -/
theorem run_keepsDepth (n k : Nat) (entry : Entry) :
    KeepsDepth (fun _ => True) (d.context text n) (d.context text n) k (reenter entry) := by
  induction n generalizing k entry with
  | zero => exact fun _ _ => .exhausted
  | succ n ih =>
    exact production_keepsDepth (e := fun _ => d.run text n) (f := fun _ => d.run text n) ih
      (fun _ _ _ => trivial) k entry

/-- The supervisor lets pass a call that starts and returns at the depth it expects. -/
theorem supervised_succ {n k : Nat} {entry : Entry} {s : State} (hs : s.AtDepth d.Allows k)
    {r : Reply (Option Expr)} (h : (production entry
      ⟨d, text, n, d.supervised text wrong n (k + entry.levels)⟩ s).InStep (counted d.Allows k)
        (fun _ => State.AtDepth d.Allows k) r) :
    d.supervised text wrong (n + 1) k entry s =
      production entry ⟨d, text, n, d.supervised text wrong n (k + entry.levels)⟩ s := by
  rw [supervised]
  refine if_pos ⟨hs.1, hs.2, ?_⟩
  cases hstate : Reply.state? _ with
  | none => rfl
  | some s' =>
    obtain ⟨-, hdepth, -⟩ := h.returns (fun _ he => he) (fun _ _ hs => hs) hstate
    exact decide_eq_true hdepth

/-- The supervised reading is in step with the reading. -/
theorem supervised_inStep (n k : Nat) (entry : Entry) :
    KeepsDepth d.Allows ⟨d, text, n, d.supervised text wrong n k⟩ (d.context text n) k
      (reenter entry) := by
  induction n generalizing k entry with
  | zero => exact fun _ _ => .exhausted
  | succ n ih =>
    intro s hs
    have h := production_keepsDepth (f := fun _ => d.run text n) ih (fun _ _ h => h) k entry s hs
    show (d.supervised text wrong (n + 1) k entry s).InStep _ _ _
    rw [supervised_succ wrong hs h]
    exact h

/-- The reading is in step with the supervised reading. -/
theorem inStep_supervised (n k : Nat) (entry : Entry) :
    KeepsDepth d.Allows (d.context text n) ⟨d, text, n, d.supervised text wrong n k⟩ k
      (reenter entry) := by
  induction n generalizing k entry with
  | zero => exact fun _ _ => .exhausted
  | succ n ih =>
    intro s hs
    have h := production_keepsDepth (e := fun _ => d.run text n) ih (fun _ _ h => h) k entry s hs
    have h' := production_keepsDepth (f := fun _ => d.run text n)
      (supervised_inStep wrong n) (fun _ _ h => h) k entry s hs
    show Reply.InStep _ _ _ (d.supervised text wrong (n + 1) k entry s)
    rw [supervised_succ wrong hs h']
    exact h

theorem supervised_eq {n k : Nat} {entry : Entry} {s : State} (hs : s.AtDepth d.Allows k) :
    d.supervised text wrong n k entry s = d.run text n entry s :=
  Reply.InStep.eq (supervised_inStep wrong n k entry s hs) (inStep_supervised wrong n k entry s hs)
    fun _ he => he

theorem atDepth_initial : State.initial.AtDepth d.Allows 0 := by
  refine ⟨rfl, ?_⟩
  unfold Allows
  cases d.grammar.nestingLimit <;> simp

theorem program_supervised (n : Nat) :
    program ⟨d, text, n, d.supervised text wrong n 0⟩ .initial = d.parseWithin n text :=
  Reply.InStep.eq
    ((steady_atDepth (f := fun _ => d.run text n) (supervised_inStep wrong n) 0).program _
      atDepth_initial)
    ((steady_atDepth (e := fun _ => d.run text n) (inStep_supervised wrong n) 0).program _
      atDepth_initial)
    fun _ he => he

variable (d text)

/-- **The depth is exact.**  Whatever the callbacks do, catching failures or passing them
on: every call of an entry, at any depth of the re-entries, starts and returns with the
number of open levels as the depth, never beyond the limit, so that the answer that a
supervisor gives when it finds otherwise plays no part.  Entries and callbacks leave the
depth as they find it when they return, with a result or with a failure; the reading of a
level ends in the level, so there is always one to close.  At the limit, an operand and an
expression fail where they are, and change nothing. -/
theorem depth_counts_open :
    (∀ wrong n opened entry s, s.depth = opened → d.grammar.nestingLimit.all (opened ≤ ·) →
      d.supervised text wrong n opened entry s = d.run text n entry s) ∧
      (∀ wrong n, program ⟨d, text, n, d.supervised text wrong n 0⟩ .initial =
        d.parseWithin n text) ∧
      (∀ n entry s s', (d.run text n entry s).state? = some s' → s'.depth = s.depth) ∧
      (∀ n p node s s', (announce p node (d.context text n) s).state? = some s' →
        s'.depth = s.depth) ∧
      (∀ n s s', (operandBody (d.context text n) s).state? = some s' ∨
        (expressionBody (d.context text n) s).state? = some s' → s'.depth = s.depth) ∧
      ∀ n entry s, entry.levels = 1 → d.grammar.nestingLimit.any (· ≤ s.depth) →
        ∃ failure, d.run text (n + 1) entry s = .fail failure s ∧ failure.index = s.index ∧
          failure.description = "Recursion limit exceeded" := by
  have hdepth {α : Type} {k : Nat} {r r' : Reply α} {s' : State}
      (h : r.InStep (counted (fun _ => True) k) (fun _ => State.AtDepth (fun _ => True) k) r')
      (hs' : r.state? = some s') : s'.depth = k :=
    (h.returns (fun _ he => he) (fun _ _ hs => hs) hs').2.1
  have hsteady (n k : Nat) := steady_atDepth (e := fun _ => d.run text n)
    (f := fun _ => d.run text n) (run_keepsDepth n) k
  refine ⟨?_, ?_, ?_, ?_, ?_, ?_⟩
  · intro wrong n opened entry s hs hallowed
    exact supervised_eq wrong ⟨hs, hallowed⟩
  · exact fun wrong n => program_supervised wrong n
  · intro n entry s s' hs'
    exact hdepth (run_keepsDepth n s.depth entry s ⟨rfl, trivial⟩) hs'
  · intro n p node s s' hs'
    have h := InStep.announce ((hsteady n s.depth).scripts p) node s ⟨rfl, trivial⟩
    exact hdepth (h.mono fun _ _ hended => hended.1) hs'
  · rintro n s s' (hs' | hs')
    · exact hdepth ((hsteady n s.depth).operandBody s ⟨rfl, trivial⟩) hs'
    · exact hdepth ((hsteady n s.depth).expressionBody s ⟨rfl, trivial⟩) hs'
  · intro n entry s hlevels hlimit
    refine ⟨⟨.nestingLimit, s.index⟩, ?_, rfl, rfl⟩
    cases entry with
    | blanks => cases hlevels
    | operand => exact nested_of_atLimit (c := d.context text n) hlimit
    | identifier => cases hlevels
    | expression => exact nested_of_atLimit (c := d.context text n) hlimit

/-- A callback meets the limit twice, one level and two levels above the place where it
catches the failure. -/
theorem depth_counts_open_caught :
    let caught : Script := .look fun v =>
      if v.cursor.current = some '@' then
        .advance 1 (.enter .expression fun
          | .ok node => .setNode node .done
          | .error _ => .enter .operand fun _ => .setNode (some (.identifier "x")) .done)
      else .done
    let d := (standard.mapGrammar (·.setNestingLimit (some 3))).mapHooks
      (·.add .operand ⟨0, caught⟩)
    let text := "@((a))".toList.toArray
    let wrong : Entry → State → Reply (Option Expr) := fun _ _ => .exhausted
    (∃ s', (d.run text 9 .expression .initial).state? = some s' ∧ s'.index = 2 ∧ s'.depth = 0 ∧
        d.supervised text wrong 9 0 .expression .initial = d.run text 9 .expression .initial) ∧
      (∃ s', (announce .operand none (d.context text 9) ⟨0, 2, #[]⟩).state? = some s' ∧
        s'.index = 2 ∧ s'.depth = 2) ∧
      (∃ s', (operandBody (d.context text 9) ⟨0, 2, #[]⟩).state? = some s' ∧ s'.depth = 2) ∧
      ∃ failure, d.run text 9 .operand ⟨2, 3, #[]⟩ = .fail failure ⟨2, 3, #[]⟩ ∧
        failure.index = 2 ∧ failure.description = "Recursion limit exceeded" := by
  intro caught d text wrong
  obtain ⟨hsupervised, -, hrun, hannounce, hbody, hlimit⟩ := depth_counts_open d text
  refine ⟨?_, ?_, ?_, ?_⟩
  · have h : (d.run text 9 .expression .initial).state?.map State.index = some 2 := by
      decide +kernel
    obtain ⟨s', hs', hindex⟩ := Option.map_eq_some_iff.mp h
    exact ⟨s', hs', hindex, hrun 9 .expression .initial s' hs',
      hsupervised wrong 9 0 .expression .initial rfl (by decide)⟩
  · have h : (announce .operand none (d.context text 9) ⟨0, 2, #[]⟩).state?.map State.index =
        some 2 := by
      decide +kernel
    obtain ⟨s', hs', hindex⟩ := Option.map_eq_some_iff.mp h
    exact ⟨s', hs', hindex, hannounce 9 .operand none ⟨0, 2, #[]⟩ s' hs'⟩
  · have h : (operandBody (d.context text 9) ⟨0, 2, #[]⟩).state?.isSome := by decide +kernel
    obtain ⟨s', hs'⟩ := Option.isSome_iff_exists.mp h
    exact ⟨s', hs', hbody 9 ⟨0, 2, #[]⟩ s' (.inl hs')⟩
  · exact hlimit 8 .operand ⟨2, 3, #[]⟩ rfl (by decide)

end Dialect

end OperatorGrammar
