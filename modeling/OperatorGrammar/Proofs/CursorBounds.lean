/-
OperatorGrammar/Proofs/CursorBounds.lean

The cursor never goes back and never past the end, whatever the callbacks do.

A callback may step over any distance whose sum with the place of the cursor fits
into a word.  Whether it does shows only during the run, so every script has a
checked form, which looks at the sum before each step and does not come to rest
where it is too large (`Script.checked`).  A run of the checked callbacks that
returns is the run of the callbacks themselves, and no sum was too large in it.
Callbacks that never step too far, whatever they see and whatever they are
answered, are not changed by the check (`Script.NeverOverflows`).

The one place where the cursor is put back is behind an operator of precedence
zero; it is put back to where the operator starts.

Main result: `Dialect.cursor_inBounds`.
-/
import OperatorGrammar.Proofs.Distances
import OperatorGrammar.Proofs.Onward

namespace OperatorGrammar

/-! ### Checked distances -/

/-- The script that does not come to rest where a place and a distance have a sum that is
too large for a word. -/
def Script.checked : Script → Script
  | .done => .done
  | .fail failure => .fail failure
  | .abandon => .abandon
  | .look next => .look fun v => (next v).checked
  | .advance count next => .look fun v =>
    if v.cursor.index + count.toNat < UInt64.size then .advance count next.checked else .abandon
  | .setNode node next => .setNode node next.checked
  | .note left next => .note left next.checked
  | .enter entry next => .enter entry fun r => (next r).checked

/-- The callback with its script checked. -/
def Hook.checked (h : Hook) : Hook :=
  { h with script := h.script.checked }

/-- The callbacks, all of them checked. -/
def Hooks.checked (hs : Hooks) : Hooks :=
  ⟨⟨hs.points.entries.map fun e => (e.1, e.2.map Hook.checked)⟩⟩

/-- The dialect with checked callbacks. -/
def Dialect.checked (d : Dialect) : Dialect :=
  d.mapHooks Hooks.checked

/-- From a place on, no distance that a script steps over has too large a sum with the place,
whatever it sees, and wherever in the text its calls leave the cursor, with whatever answer. -/
def Script.NeverOverflows (text : Array Char) : Script → Nat → Prop
  | .done, _ => True
  | .fail _, _ => True
  | .abandon, _ => True
  | .look next, i => ∀ g node, (next ⟨g, ⟨text, i⟩, node⟩).NeverOverflows text i
  | .advance count next, i =>
    i + count.toNat < UInt64.size ∧
      next.NeverOverflows text (Cursor.advance ⟨text, i⟩ count).index
  | .setNode _ next, i => next.NeverOverflows text i
  | .note _ next, i => next.NeverOverflows text i
  | .enter _ next, i => ∀ r j, i ≤ j → j ≤ text.size → (next r).NeverOverflows text j

theorem Hooks.get_checked (hs : Hooks) (p : HookPoint) :
    hs.checked.get p = (hs.get p).map Hook.checked := by
  obtain ⟨⟨entries⟩⟩ := hs
  simp only [get, checked, OrderedMap.get?, List.find?_map, Function.comp_def]
  cases entries.find? fun e => e.1 = p with
  | none => rfl
  | some e => rfl

/-- Without overflow, a step goes on in the text. -/
theorem Cursor.advance_reaches {c : Cursor} {count : UInt64} (hc : c.index ≤ c.text.size)
    (hcount : c.index + count.toNat < UInt64.size) : c.Reaches (c.advance count).index := by
  rw [advance_of_fits hcount]
  exact ⟨Nat.le_min.mpr ⟨Nat.le_add_right _ _, hc⟩, Nat.min_le_right _ _⟩

/-- The cursor lies between two places. -/
def State.Between (lo hi : Nat) (s : State) : Prop :=
  lo ≤ s.index ∧ s.index ≤ hi

namespace Reading

variable {α : Type} {c c' : Context} {lo : Nat}

/-- Both runs answer alike, with the cursor between two places. -/
def bounded (lo hi : Nat) : Terms :=
  ⟨fun _ => False, fun _ => State.Between lo hi⟩

/-- The two runs of a reading are in step, and the cursor stays in the text and does not go
back in front of a place. -/
def InBounds (c c' : Context) (lo : Nat) (x : Reading α) : Prop :=
  Keeps c c' (bounded lo c.text.size) (State.Between lo c.text.size) x

/-! ### Scripts -/

section Scripts

variable (henter : ∀ entry, InBounds c c' lo (reenter entry)) (htext : c'.text = c.text)
  (hgrammar : c'.dialect.grammar = c.dialect.grammar)
include henter htext hgrammar

/-- A checked script is in step with the script. -/
theorem InStep.checked (script : Script) (node : Option Expr) :
    InStep c c' (bounded lo c.text.size) (State.Between lo c.text.size)
      ((bounded lo c.text.size).Ended (State.Between lo c.text.size))
      (script.checked.run node) (script.run node) := by
  induction script generalizing node with
  | done => exact .pure fun s hs => ⟨hs, nofun⟩
  | fail e => exact .pure fun s hs => ⟨hs, fun _ _ => hs⟩
  | abandon => exact .exhausted
  | look next ih =>
    intro s hs
    rw [Script.checked, Script.run_look, Script.run_look, htext, hgrammar]
    exact ih _ node s hs
  | advance count next ih =>
    intro s hs
    rw [Script.checked, Script.run_look]
    dsimp only
    split
    · rename_i hcount
      have hreaches := Cursor.advance_reaches (c := ⟨c.text, s.index⟩) hs.2 hcount
      rw [Script.run_advance_word, Script.run_advance_word, htext]
      exact ih node _ ⟨Nat.le_trans hs.1 hreaches.onward, hreaches.within⟩
    · exact .exhausted
  | setNode node' next ih => exact ih node'
  | note left next ih => exact fun s hs => ih node _ hs
  | enter entry next ih =>
    exact .enter (henter entry) (fun _ _ hs => hs) (fun _ he => he) fun r => ih r node

end Scripts

/-- A script that never steps too far is in step with its checked form. -/
theorem InStep.neverOverflows (henter : ∀ lo entry, InBounds c c' lo (reenter entry))
    (htext : c'.text = c.text) (hgrammar : c'.dialect.grammar = c.dialect.grammar)
    {script : Script} {i : Nat} (hscript : script.NeverOverflows c.text i) (hlo : lo ≤ i)
    (node : Option Expr) :
    InStep c c' (bounded lo c.text.size) (fun s => s.index = i ∧ i ≤ c.text.size)
      ((bounded lo c.text.size).Ended (State.Between lo c.text.size))
      (script.run node) (script.checked.run node) := by
  induction script generalizing i node with
  | done =>
    refine .pure ?_
    rintro s ⟨rfl, hs⟩
    exact ⟨⟨hlo, hs⟩, nofun⟩
  | fail e =>
    refine .pure ?_
    rintro s ⟨rfl, hs⟩
    exact ⟨⟨hlo, hs⟩, fun _ _ => ⟨hlo, hs⟩⟩
  | abandon => exact .exhausted
  | look next ih =>
    rintro s ⟨rfl, hs⟩
    rw [Script.checked, Script.run_look, Script.run_look, htext, hgrammar]
    exact ih _ (hscript _ _) hlo node s ⟨rfl, hs⟩
  | advance count next ih =>
    rintro s ⟨rfl, hs⟩
    have hreaches := Cursor.advance_reaches (c := ⟨c.text, s.index⟩) hs hscript.1
    rw [Script.checked, Script.run_look]
    dsimp only
    rw [if_pos hscript.1, Script.run_advance_word, Script.run_advance_word, htext]
    exact ih hscript.2 (Nat.le_trans hlo hreaches.onward) node _ ⟨rfl, hreaches.within⟩
  | setNode node' next ih => exact ih hscript hlo node'
  | note left next ih => exact fun s hs => ih hscript hlo node _ hs
  | enter entry next ih =>
    -- a call that starts at the place ends no further back
    have hcall : InStep c c' (bounded i c.text.size) (fun s => s.index = i ∧ i ≤ c.text.size)
        (fun _ => State.Between i c.text.size) (reenter entry) (reenter entry) := by
      refine (henter i entry).strengthen ?_
      rintro s ⟨rfl, hs⟩
      exact ⟨Nat.le_refl _, hs⟩
    refine .enter hcall (fun _ _ hs => hs) (fun _ he => he) fun r s hs => ?_
    exact ih r (hscript r s.index hs.1 hs.2) (Nat.le_trans hlo hs.1) node s ⟨rfl, hs.2⟩

/-! ### Productions -/

/-- Callbacks that keep within bounds, where their calls do, keep the bounds steady. -/
theorem steady_between (henter : ∀ entry, InBounds c c' lo (reenter entry))
    (hscripts : ∀ p, List.Forall₂ (fun k k' => ∀ node,
      InStep c c' (bounded lo c.text.size) (State.Between lo c.text.size)
        ((bounded lo c.text.size).Ended (State.Between lo c.text.size))
        (k.script.run node) (k'.script.run node)) (c.dialect.hooks.get p) (c'.dialect.hooks.get p))
    (htext : c'.text = c.text) (hbudget : c'.budget = c.budget)
    (hgrammar : c'.dialect.grammar = c.dialect.grammar) :
    Steady c c' (bounded lo c.text.size) (State.Between lo c.text.size) where
  text := htext
  budget := hbudget
  grammar := ⟨c.dialect.grammar.nestingLimit, hgrammar⟩
  onward _ _ hs hj :=
    have hreaches := hj hs.2
    ⟨Nat.le_trans hs.1 hreaches.onward, hreaches.within⟩
  fails _ _ hs _ := hs
  scripts := hscripts
  entries := henter

theorem InBounds.nested {x : Reading α} (h : InBounds c c' lo x)
    (hgrammar : c'.dialect.grammar = c.dialect.grammar) : InBounds c c' lo (Reading.nested x) :=
  have hat : ∀ s, c'.AtLimit s ↔ c.AtLimit s := fun s => by
    rw [Context.AtLimit, Context.AtLimit, hgrammar]
  InStep.nested h (fun _ hs _ => hs) (fun _ _ hs => hs) (fun _ _ hs => hs) (fun _ he => he)
    (fun s hs hs' => .inr ⟨(hat s).mpr hs', hs⟩) (fun s _ hs' => (hat s).mp hs')

theorem production_inBounds
    (h : Steady c c' (bounded lo c.text.size) (State.Between lo c.text.size))
    (hgrammar : c'.dialect.grammar = c.dialect.grammar) (entry : Entry) :
    InBounds c c' lo (production entry) := by
  cases entry with
  | blanks => exact h.blanks
  | operand => exact InBounds.nested h.operandBody hgrammar
  | identifier => exact h.identifier
  | expression => exact InBounds.nested h.expressionBody hgrammar

/-! ### Putting an operator back -/

/-- An operator that was found can be put back: the cursor then stands where the operator
starts, with the white space in front of it skipped. -/
theorem rewind_binaryOp {s s' : State} {op : BinaryOp}
    (h : binaryOp c s = .ok (some op) s') :
    ∃ s₁, skipBlanks c s = .ok () s₁ ∧ (⟨c.text, s₁.index⟩ : Cursor).startsWith op.symbol ∧
      op.symbol.length ≤ s'.index ∧ rewind op.symbol.length c s' = .ok () s₁ := by
  obtain ⟨_, s₁, hblanks, h⟩ := bind_eq_ok.mp h
  refine ⟨s₁, hblanks, ?_⟩
  rw [bind_of_ok grammar_apply, bind_of_ok cursor_apply] at h
  cases hop : Lexeme.binaryOperator c.dialect.grammar ⟨c.text, s₁.index⟩ with
  | none =>
    rw [hop] at h
    cases h
  | some symbol =>
    rw [hop] at h
    dsimp only at h
    have hfits := Lexeme.operatorUpTo_fits hop
    obtain ⟨-, hreaches⟩ := hfits.reaches
    rw [bind_of_ok (forward_apply _), Nat.min_eq_left hreaches.within] at h
    cases h
    refine ⟨hfits.starts, Nat.le_add_left _ _, ?_⟩
    rw [rewind_apply]
    dsimp only
    rw [Nat.add_sub_cancel]

end Reading

/-! ### Tying the knot -/

namespace Dialect

open Reading

variable (d : Dialect) (text : Array Char)

theorem steady_checked {lo n : Nat}
    (henter : ∀ entry,
      InBounds (d.checked.context text n) (d.context text n) lo (reenter entry)) :
    Steady (d.checked.context text n) (d.context text n) (bounded lo text.size)
      (State.Between lo text.size) := by
  refine steady_between henter (fun p => ?_) rfl rfl rfl
  show List.Forall₂ _ (d.hooks.checked.get p) (d.hooks.get p)
  rw [Hooks.get_checked, List.forall₂_map_left_iff, List.forall₂_same]
  exact fun k _ => InStep.checked henter rfl rfl k.script

theorem reenter_checked (lo n : Nat) (entry : Entry) :
    InBounds (d.checked.context text n) (d.context text n) lo (reenter entry) := by
  induction n generalizing entry with
  | zero => exact fun _ _ => .exhausted
  | succ n ih =>
    exact production_inBounds (steady_checked d text ih) rfl entry

theorem reenter_neverOverflows (hscripts : ∀ p, ∀ k ∈ d.hooks.get p, ∀ i ≤ text.size,
      k.script.NeverOverflows text i) (lo n : Nat) (entry : Entry) :
    InBounds (d.context text n) (d.checked.context text n) lo (reenter entry) := by
  induction n generalizing lo entry with
  | zero => exact fun _ _ => .exhausted
  | succ n ih =>
    have hsteady : Steady (d.context text n) (d.checked.context text n) (bounded lo text.size)
        (State.Between lo text.size) := by
      refine steady_between (ih lo) (fun p => ?_) rfl rfl rfl
      show List.Forall₂ _ (d.hooks.get p) (d.hooks.checked.get p)
      rw [Hooks.get_checked, List.forall₂_map_right_iff, List.forall₂_same]
      exact fun k hk node s hs => InStep.neverOverflows ih rfl rfl
        (hscripts p k hk s.index hs.2) hs.1 node s ⟨rfl, hs.2⟩
    exact production_inBounds hsteady rfl entry

/-- **The cursor goes on and stays in the text.**  Whatever the callbacks do, as long as
each distance that they step over has a sum with the place of the cursor that fits into a
word: an entry of the grammar, the callbacks of a point and a whole text leave the cursor
in the text, no further back than they found it, when they return, with a result or with a
failure.  So does a single step.  Callbacks that never step too far may be left unchecked.
An operator that was found can be put back to where it starts, and all that the scanners cut
out of the text lies in it. -/
theorem cursor_inBounds :
    (∀ n entry s s', s.index ≤ text.size →
      (d.checked.run text n entry s).state? = some s' →
        d.run text n entry s = d.checked.run text n entry s ∧
          s.index ≤ s'.index ∧ s'.index ≤ text.size) ∧
      (∀ n p node s s', s.index ≤ text.size →
        (announce p node (d.checked.context text n) s).state? = some s' →
          announce p node (d.context text n) s = announce p node (d.checked.context text n) s ∧
            s.index ≤ s'.index ∧ s'.index ≤ text.size) ∧
      (∀ n s', (d.checked.parseWithin n text).state? = some s' →
        d.parseWithin n text = d.checked.parseWithin n text ∧ s'.index ≤ text.size) ∧
      (∀ i count, i ≤ text.size → i + count.toNat < UInt64.size →
        i ≤ (Cursor.advance ⟨text, i⟩ count).index ∧
          (Cursor.advance ⟨text, i⟩ count).index ≤ text.size) ∧
      ((∀ p, ∀ k ∈ d.hooks.get p, ∀ i ≤ text.size, k.script.NeverOverflows text i) →
        ∀ n entry s, s.index ≤ text.size →
          d.checked.run text n entry s = d.run text n entry s) ∧
      (∀ n s op s', binaryOp (d.context text n) s = .ok (some op) s' →
        ∃ s₁, skipBlanks (d.context text n) s = .ok () s₁ ∧
          (⟨text, s₁.index⟩ : Cursor).startsWith op.symbol ∧ op.symbol.length ≤ s'.index ∧
          rewind op.symbol.length (d.context text n) s' = .ok () s₁) ∧
      ∀ i j, i ≤ text.size → Lexeme.Cut d.grammar ⟨text, i⟩ j →
        i ≤ j ∧ j ≤ text.size ∧ ((⟨text, i⟩ : Cursor).slice i j).length = j - i := by
  have hsteady (lo n : Nat) := steady_checked d text (reenter_checked d text lo n)
  have hreturns {α : Type} {r r' : Reply α} {lo : Nat} {s' : State}
      (h : r.InStep (bounded lo text.size) (fun _ => State.Between lo text.size) r')
      (hs' : r.state? = some s') : r' = r ∧ lo ≤ s'.index ∧ s'.index ≤ text.size :=
    h.returns (fun _ he => he) (fun _ _ hs => hs) hs'
  refine ⟨?_, ?_, ?_, ?_, ?_, ?_, ?_⟩
  · intro n entry s s' hs hs'
    exact hreturns (reenter_checked d text s.index n entry s ⟨Nat.le_refl _, hs⟩) hs'
  · intro n p node s s' hs hs'
    have h := InStep.announce ((hsteady s.index n).scripts p) node s ⟨Nat.le_refl _, hs⟩
    exact hreturns (h.mono fun _ _ hended => hended.1) hs'
  · intro n s' hs'
    have h := (hsteady 0 n).program .initial ⟨Nat.le_refl _, Nat.zero_le _⟩
    obtain ⟨heq, -, hle⟩ := hreturns h hs'
    exact ⟨heq, hle⟩
  · intro i count hi hcount
    have hreaches := Cursor.advance_reaches (c := ⟨text, i⟩) hi hcount
    exact ⟨hreaches.onward, hreaches.within⟩
  · intro hscripts n entry s hs
    exact Reply.InStep.eq (reenter_checked d text s.index n entry s ⟨Nat.le_refl _, hs⟩)
      (reenter_neverOverflows d text hscripts s.index n entry s ⟨Nat.le_refl _, hs⟩)
      fun _ he => he
  · intro n s op s' h
    exact rewind_binaryOp h
  · intro i j hi hcut
    have hreaches := hcut.reaches hi
    exact ⟨hreaches.onward, hreaches.within, hreaches.length_slice⟩

/-- A callback steps over a mark, reads an expression and catches its failure: the group
ends in front of an operator of precedence zero, which was put back. -/
theorem cursor_inBounds_caught :
    let caught : Script := .look fun v =>
      if v.cursor.current = some '@' then
        .advance 1 (.enter .expression fun _ => .setNode (some (.identifier "x")) .done)
      else .done
    let d := (standard.mapGrammar (·.addBinaryOp "#" 0 false)).mapHooks
      (·.add .operand ⟨0, caught⟩)
    let text := "@(a+b#c)".toList.toArray
    (∃ s', (d.checked.run text 9 .expression .initial).state? = some s' ∧ s'.index = 7 ∧
        d.run text 9 .expression .initial = d.checked.run text 9 .expression .initial ∧
          0 ≤ s'.index ∧ s'.index ≤ 8) ∧
      (∃ s', (announce .operand none (d.checked.context text 9) .initial).state? = some s' ∧
        s'.index = 5 ∧ announce .operand none (d.context text 9) .initial =
          announce .operand none (d.checked.context text 9) .initial ∧
            0 ≤ s'.index ∧ s'.index ≤ 8) ∧
      (∃ s', (d.checked.parseWithin 9 text).state? = some s' ∧
        d.parseWithin 9 text = d.checked.parseWithin 9 text ∧ s'.index ≤ 8) ∧
      (3 ≤ (Cursor.advance ⟨text, 3⟩ 100).index ∧ (Cursor.advance ⟨text, 3⟩ 100).index ≤ 8) ∧
      ((∀ p, ∀ k ∈ d.hooks.get p, ∀ i ≤ text.size, k.script.NeverOverflows text i) ∧
        d.checked.run text 9 .expression .initial = d.run text 9 .expression .initial) ∧
      (∃ op s' s₁, binaryOp (d.context text 9) ⟨5, 0, #[]⟩ = .ok (some op) s' ∧
        op.symbol = "#" ∧ rewind op.symbol.length (d.context text 9) s' = .ok () s₁) ∧
      ((⟨text, 2⟩ : Cursor).slice 2 (Lexeme.name d.grammar ⟨text, 2⟩).index).length =
        (Lexeme.name d.grammar ⟨text, 2⟩).index - 2 := by
  intro caught d text
  obtain ⟨hrun, hannounce, hparse, hadvance, hunchecked, hrewind, hcut⟩ := cursor_inBounds d text
  refine ⟨?_, ?_, ?_, ?_, ?_, ?_, ?_⟩
  · have h : (d.checked.run text 9 .expression .initial).state?.map State.index = some 7 := by
      decide +kernel
    obtain ⟨s', hs', hindex⟩ := Option.map_eq_some_iff.mp h
    exact ⟨s', hs', hindex, hrun 9 .expression .initial s' (by decide) hs'⟩
  · have h : (announce .operand none (d.checked.context text 9) .initial).state?.map
        State.index = some 5 := by
      decide +kernel
    obtain ⟨s', hs', hindex⟩ := Option.map_eq_some_iff.mp h
    exact ⟨s', hs', hindex, hannounce 9 .operand none .initial s' (by decide) hs'⟩
  · have h : (d.checked.parseWithin 9 text).state?.isSome := by decide +kernel
    obtain ⟨s', hs'⟩ := Option.isSome_iff_exists.mp h
    exact ⟨s', hs', hparse 9 s' hs'⟩
  · exact hadvance 3 100 (by decide) (by decide)
  · have hscripts : ∀ p, ∀ k ∈ d.hooks.get p, ∀ i ≤ text.size,
        k.script.NeverOverflows text i := by
      intro p k hk i hi
      have hget : d.hooks.get p = if p = .operand then [⟨0, caught⟩] else [] :=
        Hooks.get_add _ _ _ _
      rw [hget] at hk
      split at hk
      · obtain rfl := List.mem_singleton.mp hk
        intro g node
        dsimp only
        split
        · exact ⟨Nat.lt_of_le_of_lt (Nat.succ_le_succ hi) (by decide), fun _ _ _ _ => trivial⟩
        · trivial
      · cases hk
    exact ⟨hscripts, hunchecked hscripts 9 .expression .initial (by decide)⟩
  · have h : (((binaryOp (d.context text 9) ⟨5, 0, #[]⟩).outcome?.bind Except.toOption).join.map
        BinaryOp.symbol) = some "#" := by
      decide +kernel
    rcases hop : binaryOp (d.context text 9) ⟨5, 0, #[]⟩ with ⟨_ | op, s'⟩ | ⟨e, s'⟩ | _
    · rw [hop] at h
      cases h
    · rw [hop] at h
      obtain ⟨s₁, -, -, -, hback⟩ := hrewind 9 _ op s' hop
      exact ⟨op, s', s₁, rfl, Option.some.inj h, hback⟩
    · rw [hop] at h
      cases h
    · rw [hop] at h
      cases h
  · exact (hcut 2 _ (by decide) .name).2.2

end Dialect

end OperatorGrammar
