/-
OperatorGrammar/Proofs/Reachable.lean

The dialects that a configuration without callbacks of its own can reach.

A configuration is `Quiet` when it registers no callbacks other than those of the
two bundled plugins: it may change the tables in any way, apply the bundled
plugins, and apply plugins of its own whose steps are quiet again, to any depth.
What holds of every reachable dialect is `Dialect.Bundled`: it is plain, a
bundled callback is there only when the plugin of its name was applied, and the
lengths that its grammar carries are right.

The plugin names are what keeps a callback from being registered twice: the
steps of a bundled plugin run only when its name is not known, so its callback
is not there yet (`Bundled.applyTernary`, `Bundled.applyComments`).
-/
import OperatorGrammar.Proofs.Plain
import OperatorGrammar.Proofs.Tables
import OperatorGrammar.Plugin.Session

namespace OperatorGrammar

/-! ### Quiet configurations -/

mutual

/-- A step that registers no callback but those of the bundled plugins. -/
def Step.Quiet : Step → Prop
  | .addHook _ _ _ => False
  | .extendHooks _ => False
  | .registerPlugins plugins => QuietPlugins plugins
  | _ => True

/-- Bundled plugins, and plugins of quiet steps. -/
def QuietPlugins : List Plugin → Prop
  | [] => True
  | ⟨name, noted, steps⟩ :: plugins =>
    (⟨name, noted, steps⟩ = Plugin.ternary ∨ ⟨name, noted, steps⟩ = Plugin.comments ∨
      QuietSteps steps) ∧ QuietPlugins plugins

/-- Quiet steps, one after another. -/
def QuietSteps : List Step → Prop
  | [] => True
  | step :: steps => step.Quiet ∧ QuietSteps steps

end

/-- A dialect that quiet steps lead to from the standard one. -/
def Dialect.Reachable (d : Dialect) : Prop :=
  ∃ steps, QuietSteps steps ∧ (Session.standard.configured steps).dialect = d

/-! ### What every reachable dialect keeps -/

/-- A plain dialect whose callbacks came with their plugins, and whose grammar has counted
its operators. -/
structure Dialect.Bundled (d : Dialect) : Prop where
  plain : d.Plain
  ternary : d.HasConditionals → Ternary.name ∈ d.plugins.members
  comments : d.HasComments → Comments.name ∈ d.plugins.members
  counted : d.grammar.Counted

namespace Dialect

theorem bundled_standard : standard.Bundled where
  plain := HookFree.plain fun _ => rfl
  ternary h := absurd rfl h
  comments h := absurd rfl h
  counted := Grammar.counted_standard

namespace Bundled

variable {d : Dialect}

theorem mapGrammar (h : d.Bundled) {f : Grammar → Grammar} (hf : (f d.grammar).Counted) :
    (d.mapGrammar f).Bundled where
  plain := ⟨h.plain.start, h.plain.finish, h.plain.expression, h.plain.operand,
    h.plain.operandDone, h.plain.blanks, h.plain.expressionDone⟩
  ternary := h.ternary
  comments := h.comments
  counted := hf

/-- One more name changes nothing. -/
theorem insertPlugin (h : d.Bundled) (name : String) :
    Bundled { d with plugins := d.plugins.insert name } where
  plain := ⟨h.plain.start, h.plain.finish, h.plain.expression, h.plain.operand,
    h.plain.operandDone, h.plain.blanks, h.plain.expressionDone⟩
  ternary hc := OrderedSet.mem_insert.mpr (.inl (h.ternary hc))
  comments hc := OrderedSet.mem_insert.mpr (.inl (h.comments hc))
  counted := h.counted

/-- The conditional plugin, where its name is not known. -/
theorem applyTernary (h : d.Bundled) (hnew : Ternary.name ∉ d.plugins.members) (identity : Nat) :
    Bundled { d with
      hooks := d.hooks.add .expressionDone ⟨identity, Ternary.script⟩
      plugins := d.plugins.insert Ternary.name } where
  plain := by
    -- an unknown name means that the callback has not been added before
    have hnone : d.hooks.get .expressionDone = [] :=
      Classical.not_not.mp fun hc => hnew (h.ternary hc)
    refine ⟨?_, ?_, ?_, ?_, ?_, ?_, .inr ⟨⟨identity, Ternary.script⟩, ?_, rfl⟩⟩
    · simpa [Hooks.get_add] using h.plain.start
    · simpa [Hooks.get_add] using h.plain.finish
    · simpa [Hooks.get_add] using h.plain.expression
    · simpa [Hooks.get_add] using h.plain.operand
    · simpa [Hooks.get_add] using h.plain.operandDone
    · simpa [Hooks.get_add] using h.plain.blanks
    · simp [Hooks.get_add, hnone]
  ternary _ := OrderedSet.mem_insert.mpr (.inr rfl)
  comments hc := by
    have hc' : d.HasComments := by simpa [HasComments, Hooks.get_add] using hc
    exact OrderedSet.mem_insert.mpr (.inl (h.comments hc'))
  counted := h.counted

/-- The comment plugin, where its name is not known. -/
theorem applyComments (h : d.Bundled) (hnew : Comments.name ∉ d.plugins.members)
    (identity : Nat) :
    Bundled { d with
      hooks := d.hooks.add .blanks ⟨identity, Comments.script⟩
      plugins := d.plugins.insert Comments.name } where
  plain := by
    have hnone : d.hooks.get .blanks = [] :=
      Classical.not_not.mp fun hc => hnew (h.comments hc)
    refine ⟨?_, ?_, ?_, ?_, ?_, .inr ⟨⟨identity, Comments.script⟩, ?_, rfl⟩, ?_⟩
    · simpa [Hooks.get_add] using h.plain.start
    · simpa [Hooks.get_add] using h.plain.finish
    · simpa [Hooks.get_add] using h.plain.expression
    · simpa [Hooks.get_add] using h.plain.operand
    · simpa [Hooks.get_add] using h.plain.operandDone
    · simp [Hooks.get_add, hnone]
    · simpa [Hooks.get_add] using h.plain.expressionDone
  ternary hc := by
    have hc' : d.HasConditionals := by simpa [HasConditionals, Hooks.get_add] using hc
    exact OrderedSet.mem_insert.mpr (.inl (h.ternary hc'))
  comments _ := OrderedSet.mem_insert.mpr (.inr rfl)
  counted := h.counted

end Bundled

end Dialect

/-! ### Steps and runs -/

theorem Session.isRegistered_iff {s : Session} {name : String} :
    s.isRegistered name ↔ name ∈ s.dialect.plugins.members :=
  OrderedSet.contains_iff

theorem Session.configure_bundled {s : Session} {f : Grammar → Grammar} {shown : Grammar → Answer}
    (h : s.dialect.Bundled) (hf : (f s.dialect.grammar).Counted) :
    (s.configure f shown).2.dialect.Bundled :=
  h.mapGrammar hf

mutual

/-- A quiet step keeps a bundled dialect bundled. -/
theorem Step.run_bundled : ∀ (step : Step) (s : Session), step.Quiet → s.dialect.Bundled →
    (step.run s).2.dialect.Bundled
  | .addUnaryOp op, s, _, h => by
    rw [Step.run]
    exact Session.configure_bundled h (h.counted.addUnaryOp op)
  | .removeUnaryOp op, s, _, h => by
    rw [Step.run]
    exact Session.configure_bundled h (h.counted.removeUnaryOp op)
  | .clearUnaryOps, s, _, h => by
    rw [Step.run]
    exact Session.configure_bundled h h.counted.clearUnaryOps
  | .addBinaryOp op precedence right, s, _, h => by
    rw [Step.run]
    exact Session.configure_bundled h (h.counted.addBinaryOp op precedence right)
  | .removeBinaryOp op, s, _, h => by
    rw [Step.run]
    exact Session.configure_bundled h (h.counted.removeBinaryOp op)
  | .clearBinaryOps, s, _, h => by
    rw [Step.run]
    exact Session.configure_bundled h h.counted.clearBinaryOps
  -- the other tables have no lengths to count
  | .addIdentifierChar _, s, _, h => by
    rw [Step.run]
    exact Session.configure_bundled h ⟨h.counted.unary, h.counted.binary⟩
  | .removeIdentifierChar _, s, _, h => by
    rw [Step.run]
    exact Session.configure_bundled h ⟨h.counted.unary, h.counted.binary⟩
  | .addLiteral _ _, s, _, h => by
    rw [Step.run]
    exact Session.configure_bundled h ⟨h.counted.unary, h.counted.binary⟩
  | .removeLiteral _, s, _, h => by
    rw [Step.run]
    exact Session.configure_bundled h ⟨h.counted.unary, h.counted.binary⟩
  | .clearLiterals, s, _, h => by
    rw [Step.run]
    exact Session.configure_bundled h ⟨h.counted.unary, h.counted.binary⟩
  | .setReceiverKeyword _, s, _, h => by
    rw [Step.run]
    exact Session.configure_bundled h ⟨h.counted.unary, h.counted.binary⟩
  | .setNestingLimit _, s, _, h => by
    rw [Step.run]
    exact Session.configure_bundled h ⟨h.counted.unary, h.counted.binary⟩
  | .addHook _ _ _, _, hq, _ => hq.elim
  | .extendHooks _, _, hq, _ => hq.elim
  | .registerPlugins plugins, s, hq, h => by
    rw [Step.run]
    split
    · exact h
    · exact runPlugins_bundled plugins s hq h
  | .defineHook _ _, _, _, h => h
  | .listHooks _, _, _, h => h
  | .isRegistered _, _, _, h => h
  | .tables, _, _, h => h
  | .operatorInfo _, _, _, h => h
  | .literalInfo _, _, _, h => h
  | .charInfo _, _, _, h => h
  | .parse _ _, _, _, h => h

theorem runPlugins_bundled : ∀ (plugins : List Plugin) (s : Session), QuietPlugins plugins →
    s.dialect.Bundled → (runPlugins plugins s).dialect.Bundled
  | [], _, _, h => h
  | ⟨name, noted, steps⟩ :: plugins, s, hq, h => by
    obtain ⟨hplugin, hplugins⟩ := hq
    rw [runPlugins]
    refine runPlugins_bundled plugins _ hplugins ?_
    by_cases hknown : s.isRegistered name
    · rw [if_pos hknown]
      exact h
    rw [if_neg hknown]
    have hnew : name ∉ s.dialect.plugins.members := fun hmem =>
      hknown (Session.isRegistered_iff.mpr hmem)
    -- a plugin without callbacks is a run of quiet steps and then one more name
    rcases hplugin with hternary | hcomments | hsteps
    · cases hternary
      exact h.applyTernary hnew s.fresh
    · cases hcomments
      exact h.applyComments hnew s.fresh
    · exact (runSteps_bundled noted steps s hsteps h).insertPlugin name

theorem runSteps_bundled : ∀ (noted : Bool) (steps : List Step) (s : Session), QuietSteps steps →
    s.dialect.Bundled → (runSteps noted steps s).dialect.Bundled
  | _, [], _, _, h => h
  | noted, step :: steps, s, hq, h => by
    obtain ⟨hstep, hsteps⟩ := hq
    have hrun := Step.run_bundled step s hstep h
    rw [runSteps]
    refine runSteps_bundled noted steps _ hsteps ?_
    split
    · exact hrun
    · exact hrun

end

/-- Every reachable dialect is bundled. -/
theorem Dialect.Reachable.bundled {d : Dialect} (h : d.Reachable) : d.Bundled := by
  obtain ⟨steps, hquiet, rfl⟩ := h
  exact runSteps_bundled false steps _ hquiet bundled_standard

/-! ### Registering a bundled plugin -/

/-- The dialect with further plugins. -/
def Dialect.registering (d : Dialect) (plugins : List Plugin) : Dialect :=
  ((Session.ofDialect d).configured [.registerPlugins plugins]).dialect

theorem Dialect.standard_registering_plain : (standard.registering [.comments, .ternary]).Plain :=
  Reachable.bundled (d := standard.registering [.comments, .ternary])
    ⟨[.registerPlugins [.comments, .ternary]], ⟨⟨.inr (.inl rfl), .inl rfl, trivial⟩, trivial⟩, rfl⟩
      |>.plain

/-- A plugin that adds one callback is applied unless its name is known. -/
theorem runPlugins_addHook (s : Session) (name : String) (point : HookPoint) (script : Script) :
    (runPlugins [⟨name, false, [.addHook point false (.fresh script)]⟩] s).dialect =
      if name ∈ s.dialect.plugins.members then s.dialect
      else { s.dialect with
        hooks := s.dialect.hooks.add point ⟨s.fresh, script⟩
        plugins := s.dialect.plugins.insert name } := by
  have hrun : runPlugins [⟨name, false, [.addHook point false (.fresh script)]⟩] s =
      if s.isRegistered name then s
      else (s.addHook point false (.fresh script)).markRegistered name := by
    simp [runPlugins, runSteps, Step.run]
  rw [hrun]
  by_cases hknown : name ∈ s.dialect.plugins.members
  · rw [if_pos hknown, if_pos (Session.isRegistered_iff.mpr hknown)]
  · rw [if_neg hknown, if_neg (mt Session.isRegistered_iff.mp hknown)]
    rfl

theorem Dialect.registering_addHook (d : Dialect) {name : String} (hname : name ≠ "")
    (point : HookPoint) (script : Script) :
    d.registering [⟨name, false, [.addHook point false (.fresh script)]⟩] =
      if name ∈ d.plugins.members then d
      else { d with hooks := d.hooks.add point ⟨0, script⟩, plugins := d.plugins.insert name } := by
  have hnamed : ¬ [Plugin.mk name false [.addHook point false (.fresh script)]].any
      (fun p => p.name = "") := by
    simp [Plugin.name, hname]
  rw [registering, Session.configured, runSteps, Step.run, if_neg hnamed]
  exact runPlugins_addHook (.ofDialect d) name point script

/-- Adding a callback leaves the tables alone. -/
theorem Dialect.registering_addHook_grammar (d : Dialect) {name : String} (hname : name ≠ "")
    (point : HookPoint) (script : Script) :
    (d.registering [⟨name, false, [.addHook point false (.fresh script)]⟩]).grammar
      = d.grammar := by
  rw [registering_addHook d hname]
  split <;> rfl

/-- Nor does it touch the callbacks at the other points. -/
theorem Dialect.registering_addHook_get_of_ne (d : Dialect) {name : String} (hname : name ≠ "")
    {point other : HookPoint} (script : Script) (hne : other ≠ point) :
    (d.registering [⟨name, false, [.addHook point false (.fresh script)]⟩]).hooks.get other
      = d.hooks.get other := by
  rw [registering_addHook d hname]
  split
  · rfl
  · exact (Hooks.get_add _ _ _ _).trans (if_neg hne)

end OperatorGrammar
