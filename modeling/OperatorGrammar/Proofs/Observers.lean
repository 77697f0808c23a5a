/-
OperatorGrammar/Proofs/Observers.lean

Callbacks that only observe change nothing.

A callback observes when it always comes to its end without a failure and leaves
the node slot, the cursor and the nesting depth as it found them
(`Script.Observes`).  It may leave notes, and it may re-enter the grammar as long
as it is back in its place afterwards.

A plain dialect is run beside one with the same tables whose callbacks are those
of the first with observers anywhere in between (`Interspersed`).  At a point
where the first dialect calls nothing, the second threads the node through its
observers, and its white space is skipped in rounds; each round ends where the
first run does.  So the two runs go in lockstep, with the same offsets and the
same failures, none of which lies outside the text (`lockstep_observed`).  The
second run has budget to spare: its observers run on no less than what a parse
leaves to callbacks.

Main result: `Dialect.parse_observed`.
-/
import OperatorGrammar.Proofs.BundledCallbacks
import OperatorGrammar.Proofs.Sameness
import OperatorGrammar.Proofs.Shifted
import OperatorGrammar.Proofs.Tables

namespace OperatorGrammar

open Reading

/-! ### Observing -/

/-- Wherever it is called, a script ends, and nothing but the notes is changed. -/
def Script.Observes (c : Context) (script : Script) : Prop :=
  ∀ s node, s.index ≤ c.text.size →
    ∃ notes, script.run node c s = .ok ⟨node, none⟩ { s with notes := notes }

/-- The budget that a parse leaves to callbacks, whatever the text uses. -/
def callbackBudget : Nat := 1 <<< 48

/-- A script observes on every budget that a callback may find. -/
def Script.ObservesIn (d : Dialect) (text : Array Char) (script : Script) : Prop :=
  ∀ n, callbackBudget ≤ n → script.Observes (d.context text n)

/-- A script that looks around and leaves notes. -/
def Script.OnlyLooks : Script → Prop
  | .done => True
  | .look next => ∀ v, (next v).OnlyLooks
  | .note _ next => next.OnlyLooks
  | _ => False

theorem Script.OnlyLooks.observes {c : Context} {script : Script} (h : script.OnlyLooks) :
    script.Observes c := by
  intro s node hs
  induction script generalizing s with
  | done => exact ⟨s.notes, rfl⟩
  | look next ih => exact ih _ (h _) s hs
  | note left next ih => exact ih h _ hs
  | fail e => exact h.elim
  | abandon => exact h.elim
  | advance count next => exact h.elim
  | setNode node' next => exact h.elim
  | enter entry next => exact h.elim

/-! ### Further callbacks in between -/

/-- The second list is the first one with further members of a kind, anywhere in between. -/
inductive Interspersed {α : Type} (kind : α → Prop) : List α → List α → Prop
  | nil : Interspersed kind [] []
  | keep {a l l'} : Interspersed kind l l' → Interspersed kind (a :: l) (a :: l')
  | insert {a l l'} : kind a → Interspersed kind l l' → Interspersed kind l (a :: l')

namespace Interspersed

variable {α : Type} {kind : α → Prop} {a : α} {l l' : List α}

theorem refl (l : List α) : Interspersed kind l l := by
  induction l with
  | nil => exact .nil
  | cons a l ih => exact ih.keep

theorem mono {kind' : α → Prop} (h : Interspersed kind l l') (hkind : ∀ a, kind a → kind' a) :
    Interspersed kind' l l' := by
  induction h with
  | nil => exact .nil
  | keep _ ih => exact ih.keep
  | insert ha _ ih => exact ih.insert (hkind _ ha)

/-- One more member at the end. -/
theorem concat (h : Interspersed kind l l') (ha : kind a) : Interspersed kind l (l' ++ [a]) := by
  induction h with
  | nil => exact .insert ha .nil
  | keep _ ih => exact ih.keep
  | insert hb _ ih => exact ih.insert hb

end Interspersed

/-- A dialect with the tables of another one, and with observers between its callbacks. -/
structure Dialect.Observed (d d' : Dialect) (text : Array Char) : Prop where
  grammar : d'.grammar = d.grammar
  hooks : ∀ p, Interspersed (·.script.ObservesIn d' text) (d.hooks.get p) (d'.hooks.get p)

theorem Dialect.Observed.refl (d : Dialect) (text : Array Char) : d.Observed d text :=
  ⟨rfl, fun _ => .refl _⟩

/-- Both runs fail alike, at an offset in the text. -/
def Accord.within (size : Nat) : Accord where
  shares e e' := e' = e ∧ e.index ≤ size
  stops _ := False

namespace Reading

variable {α : Type} {c c' : Context} {t : Accord} {node : Option Expr}

/-- From the same place in the text, both runs answer the same, at the same place, or fail
alike, in the text. -/
abbrev Together (c c' : Context) (x y : Reading α) : Prop :=
  Follows c c' (.within c.text.size) (Shifted c.text 0) (fun _ => Shifted c.text 0) x y

/-! ### Running observers -/

/-- The first callback of a list, and then the others on the slot that it left. -/
theorem settle_notifyAll_cons (k : Hook) (ks : List Hook) :
    Hook.notifyAll (k :: ks) node >>= settle =
      (k.script.run node >>= settle) >>= fun node => Hook.notifyAll ks node >>= settle := by
  funext c s
  rw [Hook.notifyAll, bind_apply, bind_apply, bind_apply, bind_apply]
  cases k.script.run node c s with
  | ok ending s₁ =>
    obtain ⟨left, failure⟩ := ending
    cases failure <;> rfl
  | fail e s₁ => rfl
  | exhausted => rfl

/-- Observers in between hand every slot on. -/
theorem together_notifyAll (htext : c'.text = c.text) {ks ks' : List Hook}
    (h : Interspersed (·.script.Observes c') ks ks')
    (hks : ∀ k ∈ ks, ∀ node,
      Together c c' (k.script.run node >>= settle) (k.script.run node >>= settle))
    (node : Option Expr) :
    Together c c' (Hook.notifyAll ks node >>= settle) (Hook.notifyAll ks' node >>= settle) := by
  induction h generalizing node with
  | nil => exact fun _ _ hs hdepth => .ok hs hdepth
  | keep _ ih =>
    rw [settle_notifyAll_cons, settle_notifyAll_cons]
    exact (hks _ List.mem_cons_self node).bind fun node =>
      ih (fun k hk => hks k (List.mem_cons_of_mem _ hk)) node
  | insert ha _ ih =>
    intro s s' hs hdepth
    have hle : s'.index ≤ c'.text.size := by
      rw [hs.1, htext]
      exact hs.2
    obtain ⟨notes, hrun⟩ := ha s' node hle
    rw [settle_notifyAll_cons, bind_apply (x := _ >>= _), bind_of_ok hrun]
    exact ih hks node s { s' with notes := notes } hs hdepth

/-- Observers supply nothing. -/
theorem searchAll_observers {ks : List Hook} (h : Interspersed (·.script.Observes c) [] ks)
    {s : State} (hs : s.index ≤ c.text.size) :
    ∃ notes, Hook.searchAll ks none c s = .ok ⟨none, none⟩ { s with notes := notes } := by
  induction ks generalizing s with
  | nil => exact ⟨s.notes, rfl⟩
  | cons k ks ih =>
    cases h with
    | insert ha h =>
      obtain ⟨notes, hrun⟩ := ha s none hs
      obtain ⟨notes', hrest⟩ := ih h (s := { s with notes := notes }) hs
      rw [Hook.searchAll, bind_of_ok hrun]
      exact ⟨notes', hrest⟩

/-! ### The bundled callbacks beside themselves -/

/-- Two contexts with one text and one set of tables. -/
structure Beside (c c' : Context) : Prop where
  text : c'.text = c.text
  grammar : c'.dialect.grammar = c.dialect.grammar

/-- Failures at the cursor lie in the text. -/
theorem MayStray.failHere_within {A : Nat → Prop} {P : Nat → Nat → Prop}
    {Q : α → Nat → Nat → Prop} {cause : Cause} (hP : ∀ i i', P i i' → Shifted c.text 0 i i') :
    MayStray c c' (.within c.text.size) A P Q (Reading.failHere cause)
      (Reading.failHere cause) :=
  .failHere fun i i' hi => ⟨congrArg (Failure.mk cause) (hP i i' hi).1, (hP i i' hi).2⟩

namespace Beside

variable (h : Beside c c')
include h

/-! ### Comments -/

/-- Two scripts that look around see the same. -/
theorem look {next : View → Script} (hnext : ∀ v, v.cursor.index ≤ c.text.size →
      Together c c' ((next v).run node >>= settle) ((next v).run node >>= settle)) :
    Together c c' ((Script.look next).run node >>= settle)
      ((Script.look next).run node >>= settle) := by
  intro s s' hs hdepth
  have hstep := hnext ⟨c.dialect.grammar, ⟨c.text, s.index⟩, node⟩ hs.2 s s' hs hdepth
  have hindex : s'.index = s.index := hs.1
  rw [bind_apply, bind_apply] at hstep ⊢
  rw [Script.run_look, Script.run_look, h.text, h.grammar, hindex]
  exact hstep

theorem advance {n : UInt64} (hn : n.toNat < UInt64.size / 2) {next : Script}
    (hnext : Together c c' (next.run node >>= settle) (next.run node >>= settle)) :
    Together c c' ((Script.advance n next).run node >>= settle)
      ((Script.advance n next).run node >>= settle) := by
  intro s s' hs hdepth
  have hindex : s'.index = s.index := hs.1
  have hstep := hnext { s with index := min (s.index + n.toNat) c.text.size }
    { s' with index := min (s.index + n.toNat) c.text.size } ⟨rfl, Nat.min_le_right _ _⟩ hdepth
  rw [bind_apply, bind_apply] at hstep ⊢
  rw [Script.run_advance hn, Script.run_advance hn, h.text, hindex]
  exact hstep

theorem skipLine (n : Nat) : Together c c' ((Comments.skipLine n).run node >>= settle)
    ((Comments.skipLine n).run node >>= settle) := by
  induction n with
  | zero => exact fun _ _ hs hdepth => .ok hs hdepth
  | succ n ih =>
    refine h.look fun v _ => ?_
    split
    · exact h.advance (by decide) ih
    · exact fun _ _ hs hdepth => .ok hs hdepth

/-- A comment without its end is reported where it was opened. -/
theorem skipBlock {start : Nat} (hstart : start ≤ c.text.size) (n : Nat) :
    Together c c' ((Comments.skipBlock start n).run node >>= settle)
      ((Comments.skipBlock start n).run node >>= settle) := by
  induction n with
  | zero => exact fun _ _ _ _ => .exhausted
  | succ n ih =>
    refine h.look fun v _ => ?_
    split
    · exact h.advance (by decide) fun _ _ hs hdepth => .ok hs hdepth
    · split
      · exact fun _ _ _ _ => .fail ⟨rfl, hstart⟩
      · exact h.advance (by decide) ih

theorem comments :
    Together c c' (Comments.script.run node >>= settle) (Comments.script.run node >>= settle) := by
  refine h.look fun v hv => ?_
  split
  · exact h.skipLine _
  · split
    · exact h.advance (by decide) (h.skipBlock hv _)
    · exact fun _ _ hs hdepth => .ok hs hdepth

/-! ### Conditionals -/

theorem current_bind {f : Option Char → Reading α} {Q : α → Nat → Nat → Prop}
    (hf : ∀ next, Follows c c' t (fun i i' => Shifted c.text 0 i i' ∧ c.text[i]? = next) Q
      (f next) (f next)) :
    Follows c c' t (Shifted c.text 0) Q (current >>= f) (current >>= f) := by
  refine .current_bind ?_ hf
  rintro i _ ⟨rfl, -⟩
  rw [h.text]

/-- A step over the character that comes next. -/
theorem step {ch : Char} : Follows c c' t (fun i i' => Shifted c.text 0 i i' ∧ c.text[i]? = some ch)
    (fun _ => Shifted c.text 0) (forward 1) (forward 1) := by
  refine .forward ?_ ?_
  · rintro i _ ⟨⟨rfl, -⟩, hch⟩
    rw [h.text]
    exact ⟨lt_size_of_getElem? hch, lt_size_of_getElem? hch⟩
  · rintro i _ ⟨⟨rfl, -⟩, hch⟩
    exact .inl ⟨rfl, lt_size_of_getElem? hch⟩

theorem neededChar {ch : Char} {cause : Cause} :
    Together c c' (Reading.neededChar ch cause) (Reading.neededChar ch cause) := by
  refine h.current_bind fun next => .ite (fun hnext => ?_) fun _ => ?_
  · subst hnext
    exact h.step
  · exact .failHere_within fun _ _ hi => hi.1

/-- A conditional, where its expressions go together. -/
theorem conditional (hexpression : Together c c' (reenter .expression) (reenter .expression))
    (test : Expr) : Together c c' (Reading.conditional test) (Reading.conditional test) := by
  have hneeded : Together c c' Reading.neededExpression Reading.neededExpression := by
    refine hexpression.bind fun e => ?_
    cases e with
    | some e => exact .pure fun _ _ hi => hi
    | none => exact .failHere_within fun _ _ hi => hi
  refine h.current_bind fun next => .ite (fun hnext => ?_) fun _ => .pure fun _ _ hi => hi.1
  subst hnext
  exact h.step.bind fun _ => hneeded.bind fun _ => h.neededChar.bind fun _ =>
    hneeded.bind fun _ => .pure fun _ _ hi => hi

end Beside

/-! ### A plain dialect beside one with observers -/

section Points

variable {d d' : Dialect} {text : Array Char} (h : d.Observed d' text) {n m : Nat}
include h

theorem beside_observed (n m : Nat) : Beside (d.context text n) (d'.context text m) :=
  ⟨rfl, h.grammar⟩

variable (hm : callbackBudget ≤ m)
include hm

theorem interspersed_observed (p : HookPoint) :
    Interspersed (·.script.Observes (d'.context text m)) (d.hooks.get p) (d'.hooks.get p) :=
  (h.hooks p).mono fun _ hk => hk m hm

/-- Where the callbacks of the first dialect go together, so do those of a point. -/
theorem together_notify {p : HookPoint} {node : Option Expr}
    (hp : ∀ k ∈ d.hooks.get p, ∀ node, Together (d.context text n) (d'.context text m)
      (k.script.run node >>= settle) (k.script.run node >>= settle)) :
    Together (d.context text n) (d'.context text m) (notify p node) (notify p node) := by
  refine together_notifyAll ?_ (interspersed_observed h hm p) hp node
  rfl

/-- Where the first dialect calls nothing, the node is handed on. -/
theorem together_notify_of_nil {p : HookPoint} (hp : d.hooks.get p = []) {node : Option Expr} :
    Together (d.context text n) (d'.context text m) (notify p node) (notify p node) := by
  refine together_notify h hm ?_
  rw [hp]
  exact nofun

/-- Nor is anything supplied there. -/
theorem together_search_of_nil {p : HookPoint} (hp : d.hooks.get p = []) :
    Together (d.context text n) (d'.context text m) (search p) (search p) := by
  have hbetween := interspersed_observed h hm p
  rw [hp] at hbetween
  intro s s' hs hdepth
  have hle : s'.index ≤ text.size := by
    rw [hs.1]
    exact hs.2
  obtain ⟨notes, hrun⟩ := searchAll_observers hbetween hle
  have hsearch : search p (d'.context text m) s' = .ok none { s' with notes := notes } := by
    show (Hook.searchAll (d'.hooks.get p) none >>= settle) (d'.context text m) s' = _
    rw [bind_of_ok hrun]
    rfl
  rw [search_of_nil (c := d.context text n) hp, hsearch]
  exact .ok hs hdepth

variable (hd : d.Plain)
include hd

/-- White space is skipped in rounds that end alike. -/
theorem together_skipBlanks (hnm : n ≤ m) :
    Together (d.context text n) (d'.context text m) skipBlanks skipBlanks := by
  have hnotify : Together (d.context text n) (d'.context text m) (notify .blanks none)
      (notify .blanks none) := by
    refine together_notify h hm fun k hk node => ?_
    rcases hd.blanks with hp | ⟨k', hp, hscript⟩
    · rw [hp] at hk
      cases hk
    · rw [hp, List.mem_singleton] at hk
      rw [hk, hscript]
      exact (beside_observed h n m).comments
  refine .budget_bind hnm fun rounds rounds' hrounds => ?_
  induction rounds generalizing rounds' with
  | zero => exact .exhausted
  | succ rounds ih =>
    obtain ⟨rounds', rfl, hle⟩ := exists_eq_succ hrounds
    rw [skipBlanksWithin, skipBlanksWithin]
    refine .cursor_bind fun i i' hi => ?_
    obtain rfl : i' = i := hi.1
    let before := Cursor.skipWhile ⟨text, i'⟩ Grammar.isBlank i'
    have hbefore : Shifted text 0 before before := ⟨rfl, skipWhile_le _ hi.2⟩
    have hmove : Follows (d.context text n) (d'.context text m) (.within text.size)
        (fun j j' => j = i' ∧ j' = i') (fun _ => Shifted text 0) (moveTo before)
        (moveTo before) :=
      fun _ _ _ hdepth => .ok hbefore hdepth
    refine hmove.bind fun _ => hnotify.bind fun _ => .cursor_bind fun j j' hj => ?_
    obtain rfl : j' = j := hj.1
    have hat : ∀ k k', k = j' ∧ k' = j' → Shifted text 0 k k' := by
      rintro _ _ ⟨rfl, rfl⟩
      exact hj
    exact .ite (fun _ => .pure hat) fun _ => (ih rounds' hle).strengthen hat

theorem together_expressionDone
    (hexpression : Together (d.context text n) (d'.context text m) (reenter .expression)
      (reenter .expression)) {node : Option Expr} :
    Together (d.context text n) (d'.context text m) (notify .expressionDone node)
      (notify .expressionDone node) := by
  refine together_notify h hm fun k hk node => ?_
  rcases hd.expressionDone with hp | ⟨k', hp, hscript⟩
  · rw [hp] at hk
    cases hk
  · rw [hp, List.mem_singleton] at hk
    rw [hk, hscript]
    cases node with
    | none =>
      intro s s' hs hdepth
      rw [bind_of_ok Script.run_ternary_none, bind_of_ok Script.run_ternary_none]
      exact .ok hs hdepth
    | some test =>
      rw [settle_ternary]
      exact (beside_observed h n m).conditional hexpression test

end Points

/-- At the end of the text no name comes, and the cursor stays. -/
theorem scan_name_atEnd {s : State} (h : c.text[s.index]? = none) :
    scan Lexeme.name c s = .fail ⟨.endOfInput, s.index⟩ s := by
  have hname : Lexeme.name c.dialect.grammar ⟨c.text, s.index⟩ =
      ⟨s.index, .error .endOfInput⟩ := by
    have hcur : (⟨c.text, s.index⟩ : Cursor).current = none := h
    rw [Lexeme.name, hcur]
  exact scan_of_error hname

/-- A plain dialect and one with observers in between go in lockstep. -/
theorem lockstep_observed {d d' : Dialect} {text : Array Char} (hd : d.Plain)
    (h : d.Observed d' text) {n m : Nat} (hnm : n + callbackBudget ≤ m) :
    Lockstep (d.context text n) (d'.context text m) (.within text.size) (fun _ => False)
      (fun _ => False) (Shifted text 0) (Shifted text 0) := by
  refine lockstep_of_entries (k := callbackBudget) (fun n m hnm hentries => ?_) hnm
  have hm : callbackBudget ≤ m := Nat.le_trans (Nat.le_add_left _ _) hnm
  have hbudget : n ≤ m := Nat.le_trans (Nat.le_add_right _ _) hnm
  have hfails (i i' : Nat) (cause : Cause) (hi : Shifted text 0 i i') :
      (Accord.within text.size).shares ⟨cause, i⟩ ⟨cause, i'⟩ :=
    ⟨congrArg (Failure.mk cause) hi.1, hi.2⟩
  have htext : text.toList = [] ++ text.toList := rfl
  exact {
    toAlignment := alignment_shifted htext hfails
    toEntries := hentries
    strays := .never (by simp)
    grammar := h.grammar
    budget := hbudget
    skip := together_skipBlanks h hm hd hbudget
    suppliedExpression := together_search_of_nil h hm hd.expression
    suppliedOperand := together_search_of_nil h hm hd.operand
    operandDone := fun _ => together_notify_of_nil h hm hd.operandDone
    expressionDone := fun _ => together_expressionDone h hm hd hentries.expression }

end Reading

/-! ### Whole texts -/

theorem Reply.Follows.outcome_of_within {α : Type} {size : Nat} {r r' : Reply α}
    {after : α → Nat → Nat → Prop} (h : r.Follows (.within size) (fun _ => False) after r')
    {o : Except Failure α} (ho : r.outcome? = some o) :
    r'.outcome? = some o ∧ ∀ e, o = .error e → e.index ≤ size := by
  rcases h.outcomes (fun _ => id) ho with ⟨a, rfl, ho'⟩ | ⟨e, _, rfl, ho', rfl, hle⟩
  · exact ⟨ho', nofun⟩
  · refine ⟨ho', ?_⟩
    rintro e ⟨⟩
    exact hle

namespace Dialect

variable {d d' : Dialect}

/-- Both dialects answer every text, alike, and no failure lies outside of it. -/
theorem Plain.parse_of_observed (hd : d.Plain) {text : String}
    (h : d.Observed d' text.toList.toArray) :
    ∃ o, d.parse text = some o ∧ d'.parse text = some o ∧
      ∀ e, o = .error e → e.index ≤ text.length := by
  obtain ⟨o, ho⟩ := parseWithin_answers hd text.toList.toArray
  have hsize : text.toList.toArray.size = text.length := String.length_toList
  have hbudget : 2 * text.toList.toArray.size + 4 + callbackBudget ≤ budgetFor text.length := by
    unfold budgetFor callbackBudget
    omega
  have hanswers {d' : Dialect} (h : d.Observed d' text.toList.toArray) :
      d'.parse text = some o ∧ ∀ e, o = .error e → e.index ≤ text.length := by
    have hlock := lockstep_observed hd h hbudget
    have hm : callbackBudget ≤ budgetFor text.length :=
      Nat.le_trans (Nat.le_add_left _ _) hbudget
    have hprogram := hlock.program (by simp) (together_notify_of_nil h hm hd.start) fun _ =>
      (together_notify_of_nil h hm hd.finish).weaken fun _ _ _ _ => trivial
    rw [← hsize]
    exact (hprogram .initial .initial ⟨rfl, Nat.zero_le _⟩ rfl).outcome_of_within ho
  exact ⟨o, (hanswers (.refl d _)).1, hanswers h⟩

end Dialect

/-! ### Registering callbacks -/

/-- A step that makes or registers callbacks and does nothing else; the scripts are of a
kind. -/
def Step.RegistersOnly (kind : Script → Prop) : Step → Prop
  | .defineHook _ script => kind script
  | .addHook _ _ (.fresh script) => kind script
  | .addHook _ _ (.defined _) => True
  | .extendHooks _ => True
  | _ => False

/-- The dialect after further steps. -/
def Dialect.configured (d : Dialect) (steps : List Step) : Dialect :=
  ((Session.ofDialect d).configured steps).dialect

/-- A session whose dialect is a given one with further callbacks of a kind, like those that
are defined by name. -/
structure Session.Extends (kind : Script → Prop) (d : Dialect) (s : Session) : Prop where
  grammar : s.dialect.grammar = d.grammar
  hooks : ∀ p, Interspersed (kind ·.script) (d.hooks.get p) (s.dialect.hooks.get p)
  defined : ∀ id h, s.defined.get? id = some h → kind h.script

namespace Session.Extends

variable {kind : Script → Prop} {d : Dialect} {s : Session}

theorem ofDialect (d : Dialect) : (Session.ofDialect d).Extends kind d where
  grammar := rfl
  hooks _ := .refl _
  defined := nofun

/-- One more callback of the kind, in front of those of its point or behind them. -/
theorem mapHooks (h : s.Extends kind d) {k : Hook} (hk : kind k.script) (point : HookPoint)
    (first : Bool) :
    (s.mapHooks fun hs => if first then hs.addFirst point k else hs.add point k).Extends kind d
    where
  grammar := h.grammar
  hooks p := by
    have hp := h.hooks p
    show Interspersed _ _ (Hooks.get (if first then _ else _) p)
    split
    · rw [Hooks.get_addFirst]
      split
      · rename_i heq
        exact heq ▸ hp.insert hk
      · exact hp
    · rw [Hooks.get_add]
      split
      · rename_i heq
        exact heq ▸ hp.concat hk
      · exact hp
  defined := h.defined

theorem addHook (h : s.Extends kind d) (point : HookPoint) (first : Bool) {source : HookSource}
    (hsource : ∀ script, source = .fresh script → kind script) :
    (s.addHook point first source).Extends kind d := by
  cases source with
  | defined id =>
    rw [Session.addHook, resolve]
    dsimp only
    cases hget : s.defined.get? id with
    | none => exact h
    | some k => exact h.mapHooks (h.defined id k hget) point first
  | fresh script =>
    have hmade : Session.Extends kind d { s with fresh := s.fresh + 1 } :=
      ⟨h.grammar, h.hooks, h.defined⟩
    exact hmade.mapHooks (k := ⟨s.fresh, script⟩) (hsource script rfl) point first

theorem extend (h : s.Extends kind d) {additions : List (HookPoint × Hook)}
    (hadditions : ∀ a ∈ additions, kind a.2.script) :
    (s.mapHooks (·.extend additions)).Extends kind d := by
  induction additions generalizing s with
  | nil => exact h
  | cons a additions ih =>
    have ha := h.mapHooks (hadditions a List.mem_cons_self) a.1 false
    exact ih ha fun b hb => hadditions b (List.mem_cons_of_mem _ hb)

/-- A step that registers callbacks of the kind puts them between those of the dialect. -/
theorem step (h : s.Extends kind d) {step : Step} (hstep : step.RegistersOnly kind) :
    (step.run s).2.Extends kind d := by
  cases step with
  | defineHook id script =>
    rw [Step.run]
    refine ⟨h.grammar, h.hooks, fun id' k hk => ?_⟩
    dsimp only [makeHook] at hk
    rw [OrderedMap.get?_insert] at hk
    split at hk
    · cases hk
      exact hstep
    · exact h.defined id' k hk
  | addHook point first source =>
    rw [Step.run]
    refine h.addHook point first ?_
    rintro script rfl
    exact hstep
  | extendHooks additions =>
    rw [Step.run]
    refine h.extend fun a ha => ?_
    obtain ⟨⟨p, id⟩, -, ha⟩ := List.mem_filterMap.mp ha
    obtain ⟨k, hk, rfl⟩ := Option.map_eq_some_iff.mp ha
    exact h.defined id k hk
  | _ => exact hstep.elim

theorem configured (h : s.Extends kind d) {steps : List Step}
    (hsteps : ∀ step ∈ steps, step.RegistersOnly kind) : (s.configured steps).Extends kind d := by
  have hrun : (runSteps false steps s).Extends kind d := by
    induction steps generalizing s with
    | nil => exact h
    | cons step steps ih =>
      rw [runSteps]
      exact ih (h.step (hsteps step List.mem_cons_self)) fun step' hmem =>
        hsteps step' (List.mem_cons_of_mem _ hmem)
  exact ⟨hrun.grammar, hrun.hooks, hrun.defined⟩

end Session.Extends

namespace Dialect

/-- **Callbacks that only observe change nothing.**  Let a dialect have no callbacks but the
bundled ones, and let any number of further callbacks be registered with it, at any points and
in front of the others or behind them.  If each of them, whatever it sees in a text, ends
without a failure and leaves the node slot, the cursor and the nesting depth as it found them,
then the text is parsed to the same result as before, or fails for the same cause at the same
offset. -/
theorem parse_observed {d : Dialect} (hd : d.Plain) {steps : List Step} {text : String}
    (hsteps : ∀ step ∈ steps,
      step.RegistersOnly (·.ObservesIn (d.configured steps) text.toList.toArray)) :
    ∃ o, d.parse text = some o ∧ (d.configured steps).parse text = some o := by
  have hextends := (Session.Extends.ofDialect d).configured hsteps
  obtain ⟨o, ho, ho', -⟩ := hd.parse_of_observed ⟨hextends.grammar, hextends.hooks⟩
  exact ⟨o, ho, ho'⟩

/-- Callbacks that leave notes in front of the bundled ones and behind them, and one that asks
for a name at the end of the text and notes the failure: a conditional with a comment in it,
and a comment without its end. -/
theorem parse_observed_notes :
    let d := standard.registering [.comments, .ternary]
    let tally : Script := .look fun v => .note (.place "tally" v.cursor.index v.typeName) .done
    let asks : Script := .look fun v =>
      if v.cursor.atEnd then
        .enter .identifier fun
          | .ok _ => .abandon
          | .error failure => .note (.failure failure) .done
      else .done
    let steps : List Step :=
      [.defineHook "tally" tally, .addHook .blanks true (.defined "tally"),
        .addHook .blanks false (.fresh asks), .addHook .expressionDone true (.fresh tally),
        .addHook .expression false (.defined "tally"), .addHook .operand true (.fresh asks),
        .extendHooks [(.expressionDone, "tally"), (.operandDone, "tally"), (.finish, "tally")]]
    let e : Expr := .conditional (.apply (.identifier "f") [.identifier "a"]) (.identifier "b")
      (.quoted "/*")
    let text := "f(a) /* : */ ? b : '/*'"
    let unclosed := "f(a) /* : ? b : '/*'"
    d.Plain ∧
      (∀ step ∈ steps,
        step.RegistersOnly (·.ObservesIn (d.configured steps) text.toList.toArray)) ∧
      (∀ step ∈ steps,
        step.RegistersOnly (·.ObservesIn (d.configured steps) unclosed.toList.toArray)) ∧
      d.parse text = some (.ok (some e)) ∧ (d.configured steps).parse text = some (.ok (some e)) ∧
      d.parse unclosed = some (.error ⟨.comment, 5⟩) ∧
      (d.configured steps).parse unclosed = some (.error ⟨.comment, 5⟩) := by
  intro d tally asks steps e text unclosed
  have hd : d.Plain := standard_registering_plain
  have htally (text : Array Char) : tally.ObservesIn (d.configured steps) text := fun n _ =>
    Script.OnlyLooks.observes fun _ => trivial
  have hasks (text : Array Char) : asks.ObservesIn (d.configured steps) text := by
    rintro n hn s node -
    obtain ⟨n, rfl, -⟩ := exists_eq_succ (n := 0) (Nat.lt_of_lt_of_le (by decide) hn)
    rw [Script.run_look]
    split
    · rename_i hend
      have hnone : text[s.index]? = none :=
        Array.getElem?_eq_none (of_decide_eq_true hend)
      have hname : ((d.configured steps).context text (n + 1)).enter .identifier s =
          .fail ⟨.endOfInput, s.index⟩ s := by
        show (scan Lexeme.name >>= fun name => pure (some (.identifier name)) :
          Reading (Option Expr)) ((d.configured steps).context text n) s = _
        rw [bind_apply, scan_name_atEnd hnone]
      rw [Script.run_enter, hname]
      exact ⟨_, rfl⟩
    · exact ⟨s.notes, rfl⟩
  have hsteps (text : Array Char) :
      ∀ step ∈ steps, step.RegistersOnly (·.ObservesIn (d.configured steps) text) := by
    simp only [List.forall_mem_cons, List.not_mem_nil, false_imp_iff, implies_true, and_true,
      Step.RegistersOnly, true_and, steps]
    exact ⟨htally text, hasks text, htally text, hasks text⟩
  have hparse : d.parse text = some (.ok (some e)) := parse_of_parsesAs (by decide +kernel) rfl
  have hfails : d.parse unclosed = some (.error ⟨.comment, 5⟩) :=
    parse_of_failsAs (by decide +kernel)
  obtain ⟨o, ho, hobserved⟩ : ∃ o, d.parse text = some o ∧
      (d.configured steps).parse text = some o :=
    parse_observed hd (hsteps _)
  obtain ⟨o', ho', hobserved'⟩ : ∃ o, d.parse unclosed = some o ∧
      (d.configured steps).parse unclosed = some o :=
    parse_observed hd (hsteps _)
  rw [← ho, hparse] at hobserved
  rw [← ho', hfails] at hobserved'
  exact ⟨hd, hsteps _, hsteps _, hparse, hobserved, hfails, hobserved'⟩

end Dialect

end OperatorGrammar
