/-
OperatorGrammar/Proofs/Registration.lean

What registering a list of plugins does to the plugins that are known.

A list with an unnamed plugin is refused as a whole, before anything is run.  Any
other list is registered: the initialisers of the plugins that are not known yet
run in order, and each may run any steps, registrations of further plugins
included.  Whatever they do, no name is ever forgotten.

What a run of steps does to the known names is told by its history of
initialisers (`Session.Registers`): each initialiser that finishes adds its name,
and initialisers stand inside one another, so that the name of an inner one comes
before that of the one around it.  A name that is there keeps its place.

Main result: `Session.registration_allOrNothing`.
-/
import OperatorGrammar.Proofs.Initialisers
import OperatorGrammar.Proofs.ConfigurationHistory

namespace OperatorGrammar

/-! ### Adding keys one after another -/

namespace OrderedSet

variable {κ : Type} [DecidableEq κ] {s : OrderedSet κ} {ks : List κ}

/-- Keys that are added come behind the members, each where it was first added. -/
theorem members_foldl_insert :
    (ks.foldl insert s).members = s.members ++ ks.eraseDups.filter (· ∉ s.members) := by
  induction ks using List.reverseRecOn with
  | nil => simp
  | append_singleton ks k ih =>
    rw [List.foldl_append, List.foldl_cons, List.foldl_nil, members_insert, ih,
      List.eraseDups_append, List.filter_append]
    by_cases hks : k ∈ ks
    · -- the key was added before, or is a member from the start
      have hmem : k ∈ s.members ++ ks.eraseDups.filter (· ∉ s.members) := by
        by_cases hs : k ∈ s.members
        · exact List.mem_append_left _ hs
        · exact List.mem_append_right _ (by simp [hks, hs])
      rw [if_pos hmem]
      simp [List.removeAll, hks]
    · have hone : ([k].removeAll ks).eraseDups = [k] := by
        simp [List.removeAll, hks, List.eraseDups_cons]
      rw [hone]
      by_cases hs : k ∈ s.members
      · simp [hs]
      · simp [hs, hks]

theorem mem_foldl_insert {x : κ} : x ∈ (ks.foldl insert s).members ↔ x ∈ s.members ∨ x ∈ ks := by
  rw [members_foldl_insert, List.mem_append, List.mem_filter, List.mem_eraseDups]
  by_cases hx : x ∈ s.members
  · simp [hx]
  · simp [hx]

theorem nodup_insert (h : s.members.Nodup) (k : κ) : (s.insert k).members.Nodup := by
  rw [members_insert]
  split
  · exact h
  · rename_i hk
    rw [List.nodup_append]
    refine ⟨h, by simp, ?_⟩
    intro x hx y hy
    rw [List.mem_singleton.mp hy]
    exact ne_of_mem_of_not_mem hx hk

theorem nodup_foldl_insert (h : s.members.Nodup) : (ks.foldl insert s).members.Nodup := by
  induction ks generalizing s with
  | nil => exact h
  | cons k ks ih => exact ih (nodup_insert h k)

end OrderedSet

/-! ### Histories of initialisers -/

/-- The name of an initialiser that finishes. -/
def InitEvent.finished? : InitEvent → Option String
  | started _ => none
  | finished name => some name

/-- The names of the initialisers that finish, in order. -/
def finishedNames (events : List InitEvent) : List String :=
  events.filterMap InitEvent.finished?

theorem finishedNames_append (events more : List InitEvent) :
    finishedNames (events ++ more) = finishedNames events ++ finishedNames more :=
  List.filterMap_append

theorem finishedNames_plugin (name : String) (events : List InitEvent) :
    finishedNames (.started name :: (events ++ [.finished name]))
      = finishedNames events ++ [name] := by
  rw [finishedNames, List.filterMap_cons_none rfl, List.filterMap_append]
  rfl

/-- Initialisers that stand inside one another: one finishes when all that it started have. -/
inductive WellNested : List InitEvent → Prop
  | nil : WellNested []
  | plugin {name inner more} : WellNested inner → WellNested more →
      WellNested (.started name :: (inner ++ .finished name :: more))

theorem WellNested.append {events more : List InitEvent} (h : WellNested events)
    (h' : WellNested more) : WellNested (events ++ more) := by
  induction h with
  | nil => exact h'
  | plugin hinner _ _ ih => simpa using WellNested.plugin hinner ih

/-! ### Runs of steps -/

/-- The names of the plugins are not empty, and each is known once. -/
structure Dialect.WellNamed (d : Dialect) : Prop where
  nodup : d.plugins.members.Nodup
  ne_empty : "" ∉ d.plugins.members

/-- A session has come from another one by a history of initialisers: the names of those that
have finished were added, in order, and nothing else happened to the names. -/
structure Session.Registers (s : Session) (events : List InitEvent) (s' : Session) : Prop where
  plugins : s'.dialect.plugins = (finishedNames events).foldl .insert s.dialect.plugins
  nested : WellNested events
  named : "" ∉ finishedNames events

namespace Session.Registers

variable {s s₁ s₂ : Session} {events more : List InitEvent} {name : String}

theorem of_plugins (h : s₁.dialect.plugins = s.dialect.plugins) : s.Registers [] s₁ where
  plugins := h
  nested := .nil
  named := List.not_mem_nil

theorem trans (h : s.Registers events s₁) (h' : s₁.Registers more s₂) :
    s.Registers (events ++ more) s₂ where
  plugins := by
    rw [h'.plugins, h.plugins, finishedNames_append, List.foldl_append]
  nested := h.nested.append h'.nested
  named := by
    rw [finishedNames_append, List.mem_append]
    exact not_or.mpr ⟨h.named, h'.named⟩

/-- An initialiser runs its steps and becomes known. -/
theorem plugin (hname : name ≠ "") (h : s.Registers events s₁) :
    s.Registers (.started name :: (events ++ [.finished name])) (s₁.markRegistered name) where
  plugins := by
    rw [finishedNames_plugin, List.foldl_append, ← h.plugins]
    rfl
  nested := .plugin h.nested .nil
  named := by
    rw [finishedNames_plugin, List.mem_append, List.mem_singleton]
    exact not_or.mpr ⟨h.named, hname.symm⟩

theorem isRegistered_iff (h : s.Registers events s₁) :
    s₁.isRegistered name ↔ s.isRegistered name ∨ name ∈ finishedNames events := by
  rw [isRegistered, h.plugins, OrderedSet.contains_iff, OrderedSet.mem_foldl_insert,
    isRegistered, OrderedSet.contains_iff]

theorem wellNamed (h : s.Registers events s₁) (hs : s.dialect.WellNamed) :
    s₁.dialect.WellNamed where
  nodup := by
    rw [h.plugins]
    exact OrderedSet.nodup_foldl_insert hs.nodup
  ne_empty := by
    rw [h.plugins, OrderedSet.mem_foldl_insert]
    exact not_or.mpr ⟨hs.ne_empty, h.named⟩

end Session.Registers

mutual

/-- A step makes known the names that its history of initialisers says. -/
theorem Step.run_registers : ∀ (step : Step) (s : Session),
    s.Registers (step.inits s) (step.run s).2
  | .registerPlugins plugins, s => by
    rw [Step.run, Step.inits]
    split
    · exact .of_plugins rfl
    · rename_i hany
      have hnamed : ∀ p ∈ plugins, p.name ≠ "" := by simpa using hany
      exact runPlugins_registers plugins s hnamed
  -- no other step changes which plugins are known
  | .addHook point first source, s => .of_plugins (s.plugins_addHook point first source)
  | .addUnaryOp _, _ | .removeUnaryOp _, _ | .clearUnaryOps, _ | .addBinaryOp _ _ _, _
  | .removeBinaryOp _, _ | .clearBinaryOps, _ | .addIdentifierChar _, _
  | .removeIdentifierChar _, _ | .addLiteral _ _, _ | .removeLiteral _, _ | .clearLiterals, _
  | .setReceiverKeyword _, _ | .setNestingLimit _, _ | .defineHook _ _, _ | .extendHooks _, _
  | .listHooks _, _ | .isRegistered _, _ | .tables, _ | .operatorInfo _, _ | .literalInfo _, _
  | .charInfo _, _ | .parse _ _, _ => .of_plugins rfl

theorem runPlugins_registers : ∀ (plugins : List Plugin) (s : Session),
    (∀ p ∈ plugins, p.name ≠ "") → s.Registers (initsOfPlugins plugins s) (runPlugins plugins s)
  | [], s, _ => .of_plugins rfl
  | ⟨name, noted, steps⟩ :: plugins, s, hnamed => by
    obtain ⟨hname, hnamed⟩ := List.forall_mem_cons.mp hnamed
    have hfirst : s.Registers
        (if s.isRegistered name then []
          else .started name :: (initsOfSteps noted steps s ++ [.finished name]))
        (runPlugins [⟨name, noted, steps⟩] s) := by
      rw [runPlugins, runPlugins]
      split
      · exact .of_plugins rfl
      · exact (runSteps_registers noted steps s).plugin hname
    exact hfirst.trans (runPlugins_registers plugins (runPlugins [⟨name, noted, steps⟩] s) hnamed)

theorem runSteps_registers : ∀ (noted : Bool) (steps : List Step) (s : Session),
    s.Registers (initsOfSteps noted steps s) (runSteps noted steps s)
  | _, [], s => .of_plugins rfl
  | noted, step :: steps, s => by
    have hfirst : s.Registers (step.inits s) (runSteps noted [step] s) := by
      have hstep := Step.run_registers step s
      cases noted with
      | false => exact hstep
      | true => exact ⟨hstep.plugins, hstep.nested, hstep.named⟩
    exact hfirst.trans (runSteps_registers noted steps (runSteps noted [step] s))

end

/-! ### Lists of plugins -/

section Lists

variable {plugins : List Plugin} {s : Session}

/-- A plugin whose name is known is passed over. -/
theorem runPlugins_of_isRegistered (h : ∀ p ∈ plugins, s.isRegistered p.name) :
    runPlugins plugins s = s := by
  induction plugins with
  | nil => rfl
  | cons p plugins ih =>
    obtain ⟨hp, hplugins⟩ := List.forall_mem_cons.mp h
    obtain ⟨name, noted, steps⟩ := p
    have hknown : s.isRegistered name := hp
    rw [runPlugins, if_pos hknown]
    exact ih hplugins

/-- Every plugin of a list is known in the end. -/
theorem isRegistered_runPlugins (hnamed : ∀ p ∈ plugins, p.name ≠ "") :
    ∀ p ∈ plugins, (runPlugins plugins s).isRegistered p.name := by
  induction plugins generalizing s with
  | nil => simp
  | cons p plugins ih =>
    obtain ⟨-, hplugins⟩ := List.forall_mem_cons.mp hnamed
    obtain ⟨name, noted, steps⟩ := p
    let first := runPlugins [⟨name, noted, steps⟩] s
    have hfirst : first.isRegistered name := by
      show (runPlugins [⟨name, noted, steps⟩] s).isRegistered name
      rw [runPlugins, runPlugins]
      split
      · assumption
      · exact Session.isRegistered_markRegistered.mpr (.inr rfl)
    -- what comes later forgets no name
    have hrest := runPlugins_registers plugins first hplugins
    exact List.forall_mem_cons.mpr ⟨hrest.isRegistered_iff.mpr (.inl hfirst), ih hplugins⟩

end Lists

/-! ### Sessions -/

namespace Session

/-- In every session, the names of the known plugins are not empty, and each is there once;
so it is in the dialects below the current one. -/
theorem Configured.wellNamed {s : Session} {history : List Edit} {saved : List (List Edit)}
    (h : s.Configured history saved) :
    s.dialect.WellNamed ∧ ∀ d ∈ s.saved, d.WellNamed := by
  induction h with
  | start => exact ⟨⟨.nil, List.not_mem_nil⟩, by simp [standard, ofDialect]⟩
  | @step s _ _ step _ ih =>
    rw [(step.run_edited s).saved]
    exact ⟨(step.run_registers s).wellNamed ih.1, ih.2⟩
  | clone _ ih => exact ⟨ih.1, List.forall_mem_cons.mpr ih⟩
  | @pop s _ _ _ _ ih =>
    rw [Session.pop]
    cases hsaved : s.saved with
    | nil => exact ⟨ih.1, by simp [hsaved]⟩
    | cons d ds =>
      rw [hsaved] at ih
      exact List.forall_mem_cons.mp ih.2

/-- **Registering plugins does all or nothing, and once is enough.**  A list with an unnamed
plugin is refused, no initialiser runs, and the session is as it was.  Any other list is
registered: all of its names are known afterwards; the known names keep their places, and
behind them come the new ones, each where an initialiser of that name first finished, which
inner ones do before the one around them.  Names stay unique and not empty, and every session
has only such names.  Registering the same list again leaves the session as it is. -/
theorem registration_allOrNothing (plugins : List Plugin) (s : Session) :
    let step := Step.registerPlugins plugins
    ((∃ p ∈ plugins, p.name = "") →
      step.run s = (.refused .missingName, s) ∧ step.inits s = []) ∧
    ((∀ p ∈ plugins, p.name ≠ "") → ∃ s',
      step.run s = (.plugins s'.dialect.plugins.members, s') ∧
      (∀ p ∈ plugins, s'.isRegistered p.name) ∧
      s'.dialect.plugins.members = s.dialect.plugins.members
        ++ (finishedNames (step.inits s)).eraseDups.filter (· ∉ s.dialect.plugins.members) ∧
      WellNested (step.inits s) ∧
      (s.dialect.WellNamed → s'.dialect.WellNamed) ∧
      step.run s' = (.plugins s'.dialect.plugins.members, s')) ∧
    ∀ history saved, s.Configured history saved → s.dialect.WellNamed := by
  intro step
  refine ⟨fun hunnamed => ?_, fun hnamed => ?_, fun _ _ h => h.wellNamed.1⟩
  · have hany : plugins.any fun p => p.name = "" := by simpa using hunnamed
    exact ⟨by rw [Step.run, if_pos hany], by rw [Step.inits, if_pos hany]⟩
  · have hany : ¬ plugins.any fun p => p.name = "" := by simpa using hnamed
    have hrun (s : Session) : step.run s
        = (.plugins (runPlugins plugins s).dialect.plugins.members, runPlugins plugins s) := by
      rw [Step.run, if_neg hany]
    have hinits : step.inits s = initsOfPlugins plugins s := by
      rw [Step.inits, if_neg hany]
    have hregisters := runPlugins_registers plugins s hnamed
    have hknown := isRegistered_runPlugins (s := s) hnamed
    refine ⟨runPlugins plugins s, hrun s, hknown, ?_, ?_, hregisters.wellNamed, ?_⟩
    · rw [hinits, hregisters.plugins, OrderedSet.members_foldl_insert]
    · rw [hinits]
      exact hregisters.nested
    · rw [hrun, runPlugins_of_isRegistered hknown]

/-- A plugin inside another one is known before it, and one that is met again is passed over. -/
example :
    let inner : Plugin := ⟨"inner", false, [.addUnaryOp "not"]⟩
    let outer : Plugin := ⟨"outer", false, [.registerPlugins [inner]]⟩
    (runPlugins [outer, inner, outer] .standard).dialect.plugins.members = ["inner", "outer"] := by
  decide +kernel

end Session

end OperatorGrammar
