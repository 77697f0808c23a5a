/-
OperatorGrammar/Proofs/Lockstep.lean

One run of the grammar that follows another: a pass over the productions.

Two texts, or two dialects with the same tables, are compared by two relations
between offsets: one that holds between tokens, and a stronger one that holds
where white space has just been skipped.  An `Alignment` says what the scanners
and the single characters of the two texts have to do with each other, and a
`Lockstep` adds white space, the callbacks, and the entries of the grammar on a
smaller budget.  From these, each production follows, and so do the entries on
the next budget (`entries_of_lockstep`).

The run of the first dialect may go astray behind an expression, or behind a
separator (`Strays`).  From there nothing but the end of the text or a question
mark comes next, so no production that waits for a closing character succeeds.
-/
import OperatorGrammar.Proofs.Follows
import OperatorGrammar.Proofs.Independence
import OperatorGrammar.Proofs.Onward

namespace OperatorGrammar

/-- What two texts have to do with each other, at offsets that are related by `S`, for the
tables to find the same in both, and to leave offsets that are related by `R`.  Behind a
separator, the first text may instead be at an offset that is `lost`. -/
structure Alignment (g : Grammar) (text text' : Array Char) (t : Accord) (lost : Nat → Prop)
    (R S : Nat → Nat → Prop) : Prop where
  weaken : ∀ i i', S i i' → R i i'
  fails : ∀ i i' cause, R i i' → t.shares ⟨cause, i⟩ ⟨cause, i'⟩
  current : ∀ i i', S i i' → text'[i']? = text[i]?
  past : ∀ i i' ch, S i i' → text[i]? = some ch → ch ∈ ['(', ')', '[', ']', '.'] →
    R (i + 1) (i' + 1)
  separator : ∀ i i' ch, S i i' → text[i]? = some ch → ch = ';' ∨ ch = ',' →
    R (i + 1) (i' + 1) ∨ lost (i + 1)
  mark : ∀ i i', S i i' → text[i]? = some '?' →
    (text'[i' + 1]? = some '.' ↔ text[i + 1]? = some '.') ∧
    (text[i + 1]? = some '.' → R (i + 2) (i' + 2))
  name : ∀ i i', S i i' →
    (Lexeme.name g ⟨text, i⟩).Follows t R (Lexeme.name g ⟨text', i'⟩)
  number : ∀ i i', S i i' →
    (Lexeme.number g ⟨text, i⟩).Follows t R (Lexeme.number g ⟨text', i'⟩)
  string : ∀ i i' q, S i i' → text[i]? = some q → IsQuote q →
    (Lexeme.string ⟨text, i⟩).Follows t R (Lexeme.string ⟨text', i'⟩)
  unary : ∀ i i', S i i' →
    Lexeme.unaryOperator g ⟨text', i'⟩ = Lexeme.unaryOperator g ⟨text, i⟩ ∧
    ∀ op ∈ Lexeme.unaryOperator g ⟨text, i⟩, R (i + op.length) (i' + op.length)
  binary : ∀ i i', S i i' →
    Lexeme.binaryOperator g ⟨text', i'⟩ = Lexeme.binaryOperator g ⟨text, i⟩ ∧
    ∀ op ∈ Lexeme.binaryOperator g ⟨text, i⟩, R (i + op.length) (i' + op.length)

namespace Reading

/-- What is known of a run that has gone astray: all its failures count, and in front of it
is the end of the text, or a question mark where no expression comes and white space ends. -/
structure Strays (c : Context) (t : Accord) (astray : Nat → Prop) : Prop where
  stops : ∀ i, astray i → ∀ e, t.stops e
  head : ∀ i, astray i → ∀ ch ∈ c.text[i]?, ch = '?'
  blanks : ∀ s s₁, astray s.index → skipBlanks c s = .ok () s₁ → s₁.index = s.index
  noExpression : ∀ s e s₁, astray s.index → c.text[s.index]? = some '?' →
    c.enter .expression s = .ok e s₁ → e = none ∧ s₁.index = s.index

theorem Strays.never {c : Context} {t : Accord} {astray : Nat → Prop} (h : ∀ i, ¬ astray i) :
    Strays c t astray :=
  ⟨fun i hi => absurd hi (h i), fun i hi => absurd hi (h i), fun s _ hs => absurd hs (h s.index),
    fun s _ _ hs => absurd hs (h s.index)⟩

/-- The entries of the grammar on both sides. -/
structure Entries (c c' : Context) (t : Accord) (astray : Nat → Prop)
    (R S : Nat → Nat → Prop) : Prop where
  operand : Follows c c' t R (fun _ => R) (reenter .operand) (reenter .operand)
  expression : MayStray c c' t astray R (fun _ => S) (reenter .expression) (reenter .expression)

/-- What the pieces of the grammar have to do for one run to follow another.  Behind an
expression the first run may be `astray`, and behind a separator it may be `lost`. -/
structure Lockstep (c c' : Context) (t : Accord) (astray lost : Nat → Prop)
    (R S : Nat → Nat → Prop) : Prop extends
    Alignment c.dialect.grammar c.text c'.text t lost R S, Entries c c' t astray R S where
  strays : Strays c t fun i => astray i ∨ lost i
  grammar : c'.dialect.grammar = c.dialect.grammar
  budget : c.budget ≤ c'.budget
  skip : Follows c c' t R (fun _ => S) skipBlanks skipBlanks
  suppliedExpression : Follows c c' t R (fun _ => R) (search .expression) (search .expression)
  suppliedOperand : Follows c c' t S (fun _ => S) (search .operand) (search .operand)
  operandDone : ∀ node, Follows c c' t R (fun _ => R) (notify .operandDone node)
    (notify .operandDone node)
  expressionDone : ∀ node, MayStray c c' t astray S (fun _ => S) (notify .expressionDone node)
    (notify .expressionDone node)

variable {c c' : Context} {t : Accord} {astray lost : Nat → Prop} {R S : Nat → Nat → Prop}

/-! ### Once astray -/

namespace Strays

variable (h : Strays c t astray) {s s₁ : State}
include h

/-- The loop of a program or group ends where it is. -/
theorem itemsRun {closer : Option Char} (hcloser : closer ≠ some '?') {n : Nat}
    {nodes : List Expr} (hs : astray s.index) (hrun : ItemsRun c closer n s nodes s₁) :
    s₁.index = s.index := by
  cases hrun with
  | atEnd hskip _ => exact h.blanks _ _ hs hskip
  | separator hskip hch hsep _ =>
    have hindex := h.blanks _ _ hs hskip
    obtain rfl := h.head _ (hindex ▸ hs) _ hch
    simp at hsep
  -- at a question mark no expression comes
  | item hskip hch _ henter _ =>
    have hindex := h.blanks _ _ hs hskip
    rw [← hindex] at hs
    obtain rfl := h.head _ hs _ hch
    cases (h.noExpression _ _ _ hs hch henter).1
  -- nor is it the closing character
  | stop hskip hch _ henter hlast =>
    have hindex := h.blanks _ _ hs hskip
    rw [← hindex] at hs
    obtain rfl := h.head _ hs _ hch
    have hstay := (h.noExpression _ _ _ hs hch henter).2
    exact absurd (hlast '?' (hstay ▸ hch)) hcloser

/-- A list has no closing character there. -/
theorem slotsWithin {kind : ListKind} {n : Nat} {slots : Slots} {items : List (Option Expr)}
    (hs : astray s.index) : Reading.slotsWithin kind n slots c s ≠ .ok items s₁ := by
  intro hok
  cases n with
  | zero => cases hok
  | succ n =>
    rw [Reading.slotsWithin, bind_eq_ok] at hok
    obtain ⟨_, s₂, hblanks, hok⟩ := hok
    have hindex := h.blanks _ _ hs hblanks
    rw [bind_of_ok current_apply, hindex] at hok
    rcases hcur : c.text[s.index]? with - | ch
    · rw [hcur] at hok
      cases hok
    · obtain rfl := h.head _ hs ch hcur
      have hcloser : ¬ '?' = kind.closer := by cases kind <;> decide
      rw [hcur] at hok
      simp only [Char.reduceEq, hcloser, if_false] at hok
      split at hok
      · obtain ⟨e, s₃, henter, hok⟩ := bind_eq_ok.mp hok
        rw [← hindex] at hs hcur
        obtain ⟨rfl, -⟩ := h.noExpression _ _ _ hs hcur henter
        cases hok
      · cases hok

/-- Neither has a computed property. -/
theorem bracket {node e : Expr} (hs : astray s.index) :
    (do
      skipBlanks
      if (← current) = some ']' then
        forward 1
        pure node
      else failHere .bracket : Reading Expr) c s ≠ .ok e s₁ := by
  intro hok
  obtain ⟨_, s₂, hblanks, hok⟩ := bind_eq_ok.mp hok
  have hindex := h.blanks _ _ hs hblanks
  have hcur : c.text[s₂.index]? ≠ some ']' := by
    rw [hindex]
    intro hcur
    cases h.head _ hs _ hcur
  rw [bind_of_ok current_apply, if_neg hcur] at hok
  cases hok

/-- Neither has a group. -/
theorem parenthesis {node e : Option Expr} (hs : astray s.index) :
    (do
      if (← current) = some ')' then
        forward 1
        pure node
      else failHere .parenthesis : Reading (Option Expr)) c s ≠ .ok e s₁ := by
  intro hok
  have hcur : c.text[s.index]? ≠ some ')' := by
    intro hcur
    cases h.head _ hs _ hcur
  rw [bind_of_ok current_apply, if_neg hcur] at hok
  cases hok

end Strays

namespace Lockstep

section Pass

variable (h : Lockstep c c' t astray lost R S)
include h

/-! ### Steps -/

theorem failHere {α : Type} {Q : α → Nat → Nat → Prop} {A : Nat → Prop} {cause : Cause} :
    MayStray c c' t A R Q (Reading.failHere cause) (Reading.failHere cause) :=
  .failHere fun i i' hi => h.fails i i' cause hi

/-- Both texts go on behind a character that comes next. -/
theorem inside {i i' : Nat} {ch : Char} (hi : S i i') (hch : c.text[i]? = some ch) :
    i + 1 ≤ c.text.size ∧ i' + 1 ≤ c'.text.size :=
  ⟨lt_size_of_getElem? hch, lt_size_of_getElem? ((h.current i i' hi).trans hch)⟩

/-- A step over a closing or opening character. -/
theorem step {ch : Char} (hch : ch ∈ ['(', ')', '[', ']', '.']) :
    Follows c c' t (fun i i' => S i i' ∧ c.text[i]? = some ch) (fun _ => R) (forward 1)
      (forward 1) := by
  refine .forward ?_ ?_
  · rintro i i' ⟨hi, hcur⟩
    exact h.inside hi hcur
  · rintro i i' ⟨hi, hcur⟩
    exact .inl (h.past i i' ch hi hcur hch)

/-- A step over a separator, behind which the first run may be lost. -/
theorem stepSeparator {ch : Char} (hch : ch = ';' ∨ ch = ',') :
    MayStray c c' t (fun i => astray i ∨ lost i) (fun i i' => S i i' ∧ c.text[i]? = some ch)
      (fun _ => R) (forward 1) (forward 1) := by
  refine .forward ?_ ?_
  · rintro i i' ⟨hi, hcur⟩
    exact h.inside hi hcur
  · rintro i i' ⟨hi, hcur⟩
    exact (h.separator i i' ch hi hcur hch).imp_right .inr

/-- An expression, behind which the first run may be astray. -/
theorem enterExpression : MayStray c c' t (fun i => astray i ∨ lost i) R (fun _ => S)
    (reenter .expression) (reenter .expression) :=
  h.expression.mono (fun _ => .inl) (fun _ _ hi => hi) fun _ _ _ hi => hi

theorem scanName : Follows c c' t S (fun _ => R) (scan Lexeme.name) (scan Lexeme.name) :=
  .scan fun i i' hi => by
    rw [h.grammar]
    exact h.name i i' hi

theorem scanNumber : Follows c c' t S (fun _ => R) (scan Lexeme.number) (scan Lexeme.number) :=
  .scan fun i i' hi => by
    rw [h.grammar]
    exact h.number i i' hi

theorem scanString {q : Char} (hq : IsQuote q) :
    Follows c c' t (fun i i' => S i i' ∧ c.text[i]? = some q) (fun _ => R)
      (scan fun _ => Lexeme.string) (scan fun _ => Lexeme.string) :=
  .scan fun i i' hi => h.string i i' q hi.1 hi.2 hq

/-! ### Chains -/

/-- An operator, from behind which both cursors can be put back to its start. -/
theorem binaryOp : Follows c c' t R
    (fun op i i' => R i i' ∧ ∀ o ∈ op, R (i - o.symbol.length) (i' - o.symbol.length))
    Reading.binaryOp Reading.binaryOp := by
  refine h.skip.bind fun _ => .grammar_bind h.grammar <| .cursor_bind fun i i' hi => ?_
  rw [(h.binary i i' hi).1]
  cases hop : Lexeme.binaryOperator c.dialect.grammar ⟨c.text, i⟩ with
  | none =>
    refine .pure ?_
    rintro _ _ ⟨rfl, rfl⟩
    exact ⟨h.weaken _ _ hi, nofun⟩
  | some symbol =>
    obtain ⟨-, hreaches⟩ := (Lexeme.operatorUpTo_fits hop).reaches
    obtain ⟨-, hreaches'⟩ :=
      (Lexeme.operatorUpTo_fits ((h.binary i i' hi).1.trans hop)).reaches
    have hforward : Follows c c' t (fun j j' => j = i ∧ j' = i')
        (fun _ j j' => j = i + symbol.length ∧ j' = i' + symbol.length)
        (forward symbol.length) (forward symbol.length) := by
      refine .forward ?_ ?_
      · rintro _ _ ⟨rfl, rfl⟩
        exact ⟨hreaches.within, hreaches'.within⟩
      · rintro _ _ ⟨rfl, rfl⟩
        exact .inl ⟨rfl, rfl⟩
    refine hforward.bind fun _ => .pure ?_
    rintro _ _ ⟨rfl, rfl⟩
    refine ⟨(h.binary i i' hi).2 symbol hop, ?_⟩
    rintro o ⟨⟩
    rw [Nat.add_sub_cancel, Nat.add_sub_cancel]
    exact h.weaken _ _ hi

theorem rightOperand (op : BinaryOp) :
    Follows c c' t R (fun _ => R) (Reading.rightOperand op) (Reading.rightOperand op) := by
  refine h.operand.bind fun e => ?_
  cases e with
  | none => exact h.failHere
  | some e => exact .pure fun _ _ hi => hi

theorem chainWithin {n m : Nat} (hnm : n ≤ m) (found : Array (BinaryOp × Expr)) :
    Follows c c' t R (fun _ => R) (Reading.chainWithin n found) (Reading.chainWithin m found) := by
  induction n generalizing m found with
  | zero => exact .exhausted
  | succ n ih =>
    obtain ⟨m, rfl, hle⟩ := exists_eq_succ hnm
    rw [Reading.chainWithin, Reading.chainWithin]
    refine h.binaryOp.bind fun op => ?_
    cases op with
    | none => exact .pure fun _ _ hi => hi.1
    | some op =>
      refine .ite (fun _ => ?_) fun _ => ?_
      · have hback : Follows c c' t
            (fun i i' => R i i' ∧ ∀ o ∈ some op, R (i - o.symbol.length) (i' - o.symbol.length))
            (fun _ => R) (rewind op.symbol.length) (rewind op.symbol.length) :=
          .rewind fun _ _ hi => hi.2 op rfl
        exact hback.bind fun _ => .pure fun _ _ hi => hi
      · refine ((h.rightOperand op).strengthen fun _ _ hi => hi.1).bind fun operand => ?_
        exact ih hle _

theorem chainRest : Follows c c' t R (fun _ => R) Reading.chainRest Reading.chainRest := by
  refine h.binaryOp.bind fun op => ?_
  cases op with
  | none => exact .pure fun _ _ hi => hi.1
  | some op =>
    refine ((h.rightOperand op).strengthen fun _ _ hi => hi.1).bind fun operand => ?_
    exact .budget_bind h.budget fun n m hnm => h.chainWithin hnm _

theorem binaryExpression :
    Follows c c' t R (fun _ => R) Reading.binaryExpression Reading.binaryExpression := by
  refine h.operand.bind fun first => ?_
  cases first with
  | none => exact .pure fun _ _ hi => hi
  | some first => exact h.chainRest.bind fun rest => .pure fun _ _ hi => hi

/-! ### Programs and groups -/

theorem expressionsWithin {closer : Option Char} (hcloser : closer ≠ some '?') {n m : Nat}
    (hnm : n ≤ m) (found : Array Expr) :
    MayStray c c' t (fun i => astray i ∨ lost i) R (fun _ => S)
      (Reading.expressionsWithin closer n found) (Reading.expressionsWithin closer m found) := by
  induction n generalizing m found with
  | zero => exact .exhausted
  | succ n ih =>
    obtain ⟨m, rfl, hle⟩ := exists_eq_succ hnm
    rw [Reading.expressionsWithin, Reading.expressionsWithin]
    have hstray {s s₁ : State} {nodes : List Expr} {found : Array Expr}
        (hs : astray s.index ∨ lost s.index)
        (hok : Reading.expressionsWithin closer n found c s = .ok nodes s₁) :
        astray s₁.index ∨ lost s₁.index := by
      obtain ⟨_, -, hrun⟩ := itemsRun_of_expressionsWithin hok
      rw [h.strays.itemsRun hcloser hs hrun]
      exact hs
    refine h.skip.bind fun _ => .current_bind h.current fun next => ?_
    cases next with
    | none => exact .pure fun _ _ hi => hi.1
    | some ch =>
      refine .ite (fun hsep => ?_) fun _ => ?_
      · exact (h.stepSeparator hsep).bind_astray (fun _ => ih hle found) h.strays.stops
          fun _ s hs nodes s₁ => hstray hs
      · refine (h.enterExpression.strengthen fun _ _ hi => h.weaken _ _ hi.1).bind_astray
          (fun e => ?_) h.strays.stops fun e s hs nodes s₁ hok => ?_
        · cases e with
          | some e => exact (ih hle _).strengthen h.weaken
          | none =>
            refine .current_bind h.current fun last => ?_
            cases last with
            | none => exact .pure fun _ _ hi => hi.1
            | some last =>
              exact .ite (fun _ => .pure fun _ _ hi => hi.1) fun _ =>
                h.failHere.strengthen fun _ _ hi => h.weaken _ _ hi.1
        · cases e with
          | some e => exact hstray hs hok
          | none =>
            -- the loop ends where it is, or fails
            dsimp only at hok
            rw [bind_of_ok current_apply] at hok
            rcases hcur : c.text[s.index]? with - | last
            · rw [hcur] at hok
              cases hok
              exact hs
            · obtain rfl := h.strays.head _ hs last hcur
              simp [hcur, hcloser] at hok

theorem expressions {closer : Option Char} (hcloser : closer ≠ some '?') :
    MayStray c c' t (fun i => astray i ∨ lost i) R (fun _ => S) (Reading.expressions closer)
      (Reading.expressions closer) :=
  .budget_bind h.budget fun _ _ hnm => h.expressionsWithin hcloser hnm #[]

theorem group : Follows c c' t (fun i i' => S i i' ∧ c.text[i]? = some '(') (fun _ => R)
    Reading.group Reading.group := by
  refine (h.step (by decide)).bind fun _ =>
    (h.expressions (by decide)).bind_astray (fun nodes => ?_) h.strays.stops
      fun nodes s hs node s₁ => h.strays.parenthesis hs
  refine .current_bind h.current fun next => .ite (fun hnext => ?_) fun _ => ?_
  · subst hnext
    exact (h.step (by decide)).bind fun _ => .pure fun _ _ hi => hi
  · exact h.failHere.strengthen fun _ _ hi => h.weaken _ _ hi.1

/-- A whole text, where no run goes astray but inside it. -/
theorem program (hastray : ∀ i, astray i ∨ lost i → c.text[i]? ≠ none)
    (hstart : Follows c c' t R (fun _ => R) (notify .start none) (notify .start none))
    (hfinish : ∀ node, Follows c c' t S (fun _ _ _ => True) (notify .finish node)
      (notify .finish node)) :
    Follows c c' t R (fun _ _ _ => True) Reading.program Reading.program := by
  have hexpressions : Follows c c' t R (fun _ => S) (Reading.expressions none)
      (Reading.expressions none) := by
    refine (h.expressions (by simp)).follows fun s nodes s₁ hok hi => hastray _ hi ?_
    obtain ⟨_, -, hrun⟩ := itemsRun_of_expressionsWithin hok
    exact hrun.ends
  exact hstart.bind fun _ => hexpressions.bind fun _ => hfinish _

/-! ### Lists -/

theorem slotsWithin (kind : ListKind) {n m : Nat} (hnm : n ≤ m) (slots : Slots) :
    Follows c c' t R (fun _ => R) (Reading.slotsWithin kind n slots)
      (Reading.slotsWithin kind m slots) := by
  induction n generalizing m slots with
  | zero => exact .exhausted
  | succ n ih =>
    obtain ⟨m, rfl, hle⟩ := exists_eq_succ hnm
    rw [Reading.slotsWithin, Reading.slotsWithin]
    have hweaken (next : Option Char) :
        ∀ i i', S i i' ∧ c.text[i]? = next → R i i' := fun _ _ hi => h.weaken _ _ hi.1
    refine h.skip.bind fun _ => .current_bind h.current fun next => ?_
    cases next with
    | none => exact h.failHere.strengthen (hweaken _)
    | some ch =>
      refine .ite (fun hch => ?_) fun _ => .ite (fun hch => ?_) fun _ =>
        .ite (fun _ => ?_) fun _ => h.failHere.strengthen (hweaken _)
      · have hmem : ch ∈ ['(', ')', '[', ']', '.'] := by
          rw [hch]
          cases kind <;> decide
        exact (h.step hmem).bind fun _ => .ite (fun _ => .pure fun _ _ hi => hi) fun _ => h.failHere
      · refine (h.stepSeparator (.inr hch)).bind_astray (fun _ => ?_) h.strays.stops
          fun _ s hs items s₁ hok => ?_
        · cases slots.comma kind with
          | none => exact h.failHere
          | some slots => exact ih hle slots
        · cases hcomma : slots.comma kind with
          | none =>
            rw [hcomma] at hok
            cases hok
          | some slots =>
            rw [hcomma] at hok
            exact h.strays.slotsWithin hs hok
      · refine (h.enterExpression.strengthen (hweaken _)).bind_astray (fun e => ?_) h.strays.stops
          fun e s hs items s₁ hok => ?_
        · cases e with
          | none => exact h.failHere.strengthen h.weaken
          | some e =>
            exact .ite (fun _ => h.failHere.strengthen h.weaken) fun _ =>
              (ih hle _).strengthen h.weaken
        · cases e with
          | none => cases hok
          | some e =>
            dsimp only at hok
            split at hok
            · cases hok
            · exact h.strays.slotsWithin hs hok

theorem slots (kind : ListKind) :
    Follows c c' t R (fun _ => R) (Reading.slots kind) (Reading.slots kind) :=
  .budget_bind h.budget fun _ _ hnm => h.slotsWithin kind hnm .empty

/-! ### Links -/

theorem linkStart : Follows c c' t S (fun link i i' => if link.isSome then R i i' else S i i')
    Reading.linkStart Reading.linkStart := by
  refine .cursor_bind fun i i' hi => ?_
  have hcurrent : (⟨c'.text, i'⟩ : Cursor).current = (⟨c.text, i⟩ : Cursor).current :=
    h.current i i' hi
  rw [hcurrent]
  have hnone : Follows c c' t (fun j j' => j = i ∧ j' = i')
      (fun link j j' => if link.isSome then R j j' else S j j') (pure none)
      (pure (none : Option (LinkForm × Bool))) := by
    refine .pure ?_
    rintro _ _ ⟨rfl, rfl⟩
    exact hi
  rcases hcur : (⟨c.text, i⟩ : Cursor).current with - | ch
  · exact hnone
  have hsome (link : LinkForm × Bool) : Follows c c' t R
      (fun link j j' => if link.isSome then R j j' else S j j') (pure (some link))
      (pure (some link)) :=
    .pure fun _ _ hj => hj
  have hcur : c.text[i]? = some ch := hcur
  dsimp only
  cases hform : LinkForm.ofChar? ch with
  | some form =>
    have hmem : ch ∈ ['(', ')', '[', ']', '.'] := by
      unfold LinkForm.ofChar? at hform
      split at hform <;> simp_all
    refine ((h.step hmem).strengthen ?_).bind fun _ => hsome _
    rintro _ _ ⟨rfl, rfl⟩
    exact ⟨hi, hcur⟩
  | none =>
    by_cases hq : ch = '?'
    · subst hq
      obtain ⟨hdot, hpast⟩ := h.mark i i' hi hcur
      have hcharAt : ((⟨c'.text, i'⟩ : Cursor).charAt (i' + 1) = some '.') =
          ((⟨c.text, i⟩ : Cursor).charAt (i + 1) = some '.') := propext hdot
      simp only [true_and, hcharAt]
      refine .ite (fun hpoint => ?_) fun _ => hnone
      have hpoint : c.text[i + 1]? = some '.' := hpoint
      have hforward : Follows c c' t (fun j j' => j = i ∧ j' = i') (fun _ => R) (forward 2)
          (forward 2) := by
        refine .forward ?_ ?_
        · rintro _ _ ⟨rfl, rfl⟩
          exact ⟨lt_size_of_getElem? hpoint, lt_size_of_getElem? (hdot.mpr hpoint)⟩
        · rintro _ _ ⟨rfl, rfl⟩
          exact .inl (hpast hpoint)
      refine hforward.bind fun _ => h.skip.bind fun _ => .current_bind h.current fun next => ?_
      -- a bracket or parenthesis behind the mark belongs to the link
      split
      · exact (h.step (by decide)).bind fun _ => hsome _
      · exact (h.step (by decide)).bind fun _ => hsome _
      · exact (hsome _).strengthen fun _ _ hj => h.weaken _ _ hj.1
    · simp only [hq, false_and, if_false]
      exact hnone

theorem linkBody (node : Expr) (form : LinkForm) :
    Follows c c' t R (fun _ => R) (Reading.linkBody node form) (Reading.linkBody node form) := by
  cases form with
  | property => exact h.skip.bind fun _ => h.scanName.bind fun w => .pure fun _ _ hi => hi
  | index =>
    refine h.enterExpression.bind_astray (fun key => ?_) h.strays.stops
      fun key s hs linked s₁ hok => ?_
    · cases key with
      | none => exact h.failHere.strengthen h.weaken
      | some key =>
        refine (h.skip.strengthen h.weaken).bind fun _ => .current_bind h.current fun next =>
          .ite (fun hnext => ?_) fun _ => h.failHere.strengthen fun _ _ hi => h.weaken _ _ hi.1
        subst hnext
        exact (h.step (by decide)).bind fun _ => .pure fun _ _ hi => hi
    · cases key with
      | none => cases hok
      | some key => exact h.strays.bracket hs hok
  | call => exact (h.slots .arguments).bind fun items => .pure fun _ _ hi => hi

theorem linksWithin {n m : Nat} (hnm : n ≤ m) (node : Expr) :
    Follows c c' t S (fun _ => R) (Reading.linksWithin n node) (Reading.linksWithin m node) := by
  induction n generalizing m node with
  | zero => exact .exhausted
  | succ n ih =>
    obtain ⟨m, rfl, hle⟩ := exists_eq_succ hnm
    rw [Reading.linksWithin, Reading.linksWithin]
    refine h.linkStart.bind fun link => ?_
    rcases link with - | ⟨form, optional⟩
    · exact .pure h.weaken
    · exact (h.linkBody node form).bind fun linked => h.skip.bind fun _ => ih hle _

theorem links (node : Expr) :
    Follows c c' t R (fun _ => R) (Reading.links node) (Reading.links node) :=
  h.skip.bind fun _ => .budget_bind h.budget fun _ _ hnm => h.linksWithin hnm node

/-! ### Operands -/

theorem linkedOperand (node : Option Expr) :
    Follows c c' t R (fun _ => R) (Reading.linkedOperand node) (Reading.linkedOperand node) := by
  cases node with
  | none => exact h.operandDone none
  | some node => exact (h.links node).bind fun linked => h.operandDone _

theorem operandFrom (ch : Char) :
    Follows c c' t (fun i i' => S i i' ∧ c.text[i]? = some ch) (fun _ => R)
      (Reading.operandFrom ch) (Reading.operandFrom ch) := by
  refine .grammar_bind h.grammar <| .ite (fun _ => ?_) fun _ => .ite (fun hquote => ?_) fun _ =>
    .ite (fun hbracket => ?_) fun _ => .cursor_bind fun i i' hi => ?_
  · exact (h.scanNumber.strengthen fun _ _ hi => hi.1).bind fun number => .pure fun _ _ hi => hi
  · exact (h.scanString hquote).bind fun string => h.linkedOperand _
  · subst hbracket
    exact (h.step (by decide)).bind fun _ => (h.slots .elements).bind fun items =>
      h.linkedOperand _
  · rw [(h.unary i i' hi.1).1]
    cases hop : Lexeme.unaryOperator c.dialect.grammar ⟨c.text, i⟩ with
    | some operator =>
      obtain ⟨-, hreaches⟩ := (Lexeme.operatorUpTo_fits hop).reaches
      obtain ⟨-, hreaches'⟩ :=
        (Lexeme.operatorUpTo_fits ((h.unary i i' hi.1).1.trans hop)).reaches
      have hforward : Follows c c' t (fun j j' => j = i ∧ j' = i') (fun _ => R)
          (forward operator.length) (forward operator.length) := by
        refine .forward ?_ ?_
        · rintro _ _ ⟨rfl, rfl⟩
          exact ⟨hreaches.within, hreaches'.within⟩
        · rintro _ _ ⟨rfl, rfl⟩
          exact .inl ((h.unary _ _ hi.1).2 operator hop)
      refine hforward.bind fun _ => h.operand.bind fun argument => ?_
      cases argument with
      | none => exact h.failHere
      | some argument => exact h.operandDone _
    | none =>
      have hat : ∀ j j', j = i ∧ j' = i' → S j j' ∧ c.text[j]? = some ch := by
        rintro _ _ ⟨rfl, rfl⟩
        exact hi
      refine .strengthen (.ite (fun _ => ?_) fun _ => .ite (fun hparen => ?_) fun _ => ?_) hat
      · exact (h.scanName.strengthen fun _ _ hj => hj.1).bind fun w => h.linkedOperand _
      · subst hparen
        exact h.group.bind fun node => h.linkedOperand node
      · exact (h.linkedOperand none).strengthen fun _ _ hj => h.weaken _ _ hj.1

/-! ### The two levels -/

theorem operandBody :
    Follows c c' t R (fun _ => R) Reading.operandBody Reading.operandBody := by
  refine h.skip.bind fun _ => h.suppliedOperand.bind fun supplied => ?_
  cases supplied with
  | some node => exact (h.operandDone _).strengthen h.weaken
  | none =>
    refine .current_bind h.current fun next => ?_
    cases next with
    | none => exact (h.operandDone none).strengthen fun _ _ hi => h.weaken _ _ hi.1
    | some ch => exact h.operandFrom ch

theorem expressionBody :
    MayStray c c' t astray R (fun _ => S) Reading.expressionBody Reading.expressionBody := by
  have hrest (node : Option Expr) : MayStray c c' t astray R (fun _ => S)
      (do
        Reading.skipBlanks
        notify .expressionDone node)
      (do
        Reading.skipBlanks
        notify .expressionDone node) :=
    h.skip.bind fun _ => h.expressionDone node
  refine h.suppliedExpression.bind fun supplied => ?_
  cases supplied with
  | some e => exact hrest (some e)
  | none => exact h.binaryExpression.bind hrest

theorem limit : c'.dialect.grammar.nestingLimit = c.dialect.grammar.nestingLimit :=
  congrArg Grammar.nestingLimit h.grammar

theorem operand_follows : Follows c c' t R (fun _ => R) Reading.operand Reading.operand :=
  .nested h.limit (fun i i' => h.fails i i' _) h.operandBody

theorem expression_mayStray :
    MayStray c c' t astray R (fun _ => S) Reading.expression Reading.expression :=
  .nested h.limit (fun i i' => h.fails i i' _) h.expressionBody

end Pass

/-! ### Plain dialects -/

/-- Where at most the bundled callbacks listen, only the two points at which they do remain. -/
theorem of_plain (hd : c.dialect.Plain) (hd' : c'.dialect.Plain)
    (hgrammar : c'.dialect.grammar = c.dialect.grammar) (hbudget : c.budget ≤ c'.budget)
    (halign : Alignment c.dialect.grammar c.text c'.text t lost R S)
    (hentries : Entries c c' t astray R S) (hstrays : Strays c t fun i => astray i ∨ lost i)
    (hskip : Follows c c' t R (fun _ => S) skipBlanks skipBlanks)
    (hdone : ∀ node, MayStray c c' t astray S (fun _ => S) (notify .expressionDone node)
      (notify .expressionDone node)) : Lockstep c c' t astray lost R S where
  toAlignment := halign
  toEntries := hentries
  strays := hstrays
  grammar := hgrammar
  budget := hbudget
  skip := hskip
  suppliedExpression := .search_of_nil hd.expression hd'.expression fun _ _ hi => hi
  suppliedOperand := .search_of_nil hd.operand hd'.operand fun _ _ hi => hi
  operandDone _ := .notify_of_nil hd.operandDone hd'.operandDone fun _ _ hi => hi
  expressionDone := hdone

/-- A whole text in plain dialects. -/
theorem program_of_plain (h : Lockstep c c' t astray lost R S) (hd : c.dialect.Plain)
    (hd' : c'.dialect.Plain) (hastray : ∀ i, astray i ∨ lost i → c.text[i]? ≠ none) :
    Follows c c' t R (fun _ _ _ => True) Reading.program Reading.program :=
  h.program hastray (.notify_of_nil hd.start hd'.start fun _ _ hi => hi)
    fun _ => .notify_of_nil hd.finish hd'.finish fun _ _ _ => trivial

end Lockstep

/-- Where nothing listens, white space is skipped in one round. -/
theorem skipBlanks_of_nil {s : State} (h : c.dialect.hooks.get .blanks = []) :
    skipBlanks c s = if c.budget = 0 then .exhausted
      else .ok ()
        { s with index := Cursor.skipWhile ⟨c.text, s.index⟩ Grammar.isBlank s.index } := by
  rw [skipBlanks, bind_of_ok budget_apply]
  cases c.budget with
  | zero => rfl
  | succ n =>
    rw [skipBlanksWithin, bind_of_ok cursor_apply, bind_of_ok (moveTo_apply _),
      bind_of_ok (notify_of_nil h), bind_of_ok cursor_apply, if_pos rfl]
    rfl

/-- Where no white space comes next, none is skipped. -/
theorem skipBlanks_stays {s s₁ : State} (h : c.dialect.hooks.get .blanks = [])
    (hnext : ∀ ch ∈ c.text[s.index]?, ¬ Grammar.isBlank ch)
    (hok : skipBlanks c s = .ok () s₁) : s₁ = s := by
  have hnone : (restAt c.text s.index).takeWhile Grammar.isBlank = [] := by
    rcases hch : c.text[s.index]? with - | ch
    · rw [restAt_eq_nil_of_none hch]
      rfl
    · rw [restAt_eq_cons hch, List.takeWhile_cons_of_neg (hnext ch hch)]
  rw [skipBlanks_of_nil h, skipWhile_eq, hnone] at hok
  split at hok
  · cases hok
  · cases hok
    rfl

theorem MayStray.skipBlanks_of_nil {A : Nat → Prop} {P : Nat → Nat → Prop}
    {Q : Unit → Nat → Nat → Prop} (h : c.dialect.hooks.get .blanks = [])
    (h' : c'.dialect.hooks.get .blanks = []) (hbudget : c.budget ≤ c'.budget)
    (hskip : ∀ i i', P i i' → Q () (Cursor.skipWhile ⟨c.text, i⟩ Grammar.isBlank i)
      (Cursor.skipWhile ⟨c'.text, i'⟩ Grammar.isBlank i')) :
    MayStray c c' t A P Q skipBlanks skipBlanks := by
  intro s s' hs hdepth
  rw [Reading.skipBlanks_of_nil h, Reading.skipBlanks_of_nil h']
  by_cases hzero : c.budget = 0
  · rw [if_pos hzero]
    exact .exhausted
  · have hzero' : ¬ c'.budget = 0 := by omega
    rw [if_neg hzero, if_neg hzero']
    exact .ok (hskip _ _ hs) hdepth

end Reading

/-! ### Tying the knot -/

open Reading

/-- What the pieces do on every budget, the entries follow on every budget.  The second budget
may have to be larger, by the rounds that its white space takes. -/
theorem entries_of_lockstep {d d' : Dialect} {text text' : Array Char} {t : Accord}
    {astray lost : Nat → Prop} {R S : Nat → Nat → Prop} {slack : Nat}
    (h : ∀ n m, n + slack ≤ m →
      Entries (d.context text n) (d'.context text' m) t astray R S →
      Lockstep (d.context text n) (d'.context text' m) t astray lost R S) {n m : Nat}
    (hnm : n + slack ≤ m) :
    Entries (d.context text n) (d'.context text' m) t astray R S := by
  induction n generalizing m with
  | zero => exact ⟨fun _ _ _ _ => .exhausted, fun _ _ _ _ => .exhausted⟩
  | succ n ih =>
    obtain ⟨m, rfl, hle⟩ := exists_eq_succ (n := n + slack) (by omega : n + slack + 1 ≤ m)
    have hlock := h n m hle (ih hle)
    exact ⟨hlock.operand_follows, hlock.expression_mayStray⟩

/-- To run in lockstep on every budget, the pieces only have to do so from the entries on. -/
theorem lockstep_of_entries {d d' : Dialect} {text text' : Array Char} {t : Accord}
    {astray lost : Nat → Prop} {R S : Nat → Nat → Prop} {k n m : Nat}
    (h : ∀ n m, n + k ≤ m →
      Entries (d.context text n) (d'.context text' m) t astray R S →
      Lockstep (d.context text n) (d'.context text' m) t astray lost R S) (hnm : n + k ≤ m) :
    Lockstep (d.context text n) (d'.context text' m) t astray lost R S :=
  h n m hnm (entries_of_lockstep h hnm)

/-- Without callbacks, two texts are read in lockstep when they are aligned and white space leads
from related offsets to aligned ones. -/
theorem Dialect.HookFree.lockstep {d : Dialect} (hd : d.HookFree) {text text' : Array Char}
    {t : Accord} {lost : Nat → Prop} {R S : Nat → Nat → Prop}
    (halign : Alignment d.grammar text text' t lost R S)
    (hstrays : ∀ n, Strays (d.context text n) t fun i => False ∨ lost i)
    (hskip : ∀ i i', R i i' → S (Cursor.skipWhile ⟨text, i⟩ Grammar.isBlank i)
      (Cursor.skipWhile ⟨text', i'⟩ Grammar.isBlank i')) {n m : Nat} (hnm : n ≤ m) :
    Lockstep (d.context text n) (d.context text' m) t (fun _ => False) lost R S := by
  refine lockstep_of_entries (k := 0) (fun n m hnm hentries => ?_) hnm
  refine .of_plain hd.plain hd.plain rfl hnm halign hentries (hstrays n) ?_ fun node => ?_
  · exact .skipBlanks_of_nil (hd _) (hd _) hnm hskip
  · exact .notify_of_nil (hd _) (hd _) fun _ _ hi => hi

end OperatorGrammar
