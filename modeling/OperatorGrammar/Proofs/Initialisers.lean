/-
OperatorGrammar/Proofs/Initialisers.lean

Which plugins are initialised, and how often.

The steps of a plugin are its initialiser.  It runs when the name of the plugin is
not known, and the name becomes known when it is through.  A run of steps thus has
a history of initialisers that start and finish (`Step.inits`), those of the
plugins inside plugins included.

Once a name is known, no initialiser of that name starts.  But while one runs, its
name is not known yet, so that it may start another one of the same name.  The
initialisers of one name that run on a dialect therefore all stand inside one
another, and no more of them run than plugins of the name stand inside one another
(`nestingOfSteps`).

Main result: `Session.initialisers_nested`.
-/
import OperatorGrammar.Proofs.Tables
import OperatorGrammar.Plugin.Session

namespace OperatorGrammar

/-- What happens to an initialiser. -/
inductive InitEvent where
  | started (name : String)
  | finished (name : String)
  deriving DecidableEq

/-- The name of the plugin. -/
def InitEvent.name : InitEvent → String
  | started name => name
  | finished name => name

mutual

/-- The initialisers that a step starts and finishes, in order. -/
def Step.inits : Step → Session → List InitEvent
  | .registerPlugins plugins, s =>
    if plugins.any fun p => p.name = "" then [] else initsOfPlugins plugins s
  | _, _ => []

/-- The initialisers of plugins; a plugin whose name is known is passed over. -/
def initsOfPlugins : List Plugin → Session → List InitEvent
  | [], _ => []
  | ⟨name, noted, steps⟩ :: plugins, s =>
    (if s.isRegistered name then []
      else .started name :: (initsOfSteps noted steps s ++ [.finished name]))
        ++ initsOfPlugins plugins (runPlugins [⟨name, noted, steps⟩] s)

/-- The initialisers of steps, one step after another. -/
def initsOfSteps (noted : Bool) : List Step → Session → List InitEvent
  | [], _ => []
  | step :: steps, s => step.inits s ++ initsOfSteps noted steps (runSteps noted [step] s)

end

mutual

/-- How many plugins of a name stand inside one another in a step. -/
def Step.nesting (name : String) : Step → Nat
  | .registerPlugins plugins => nestingOfPlugins name plugins
  | _ => 0

/-- How many plugins of a name stand inside one another in a list of plugins. -/
def nestingOfPlugins (name : String) : List Plugin → Nat
  | [] => 0
  | ⟨other, _, steps⟩ :: plugins =>
    max ((if other = name then 1 else 0) + nestingOfSteps name steps)
      (nestingOfPlugins name plugins)

/-- How many plugins of a name stand inside one another in a list of steps. -/
def nestingOfSteps (name : String) : List Step → Nat
  | [] => 0
  | step :: steps => max (step.nesting name) (nestingOfSteps name steps)

end

/-! ### Initialisers of one name -/

theorem Session.plugins_addHook (s : Session) (point : HookPoint) (first : Bool)
    (source : HookSource) : (s.addHook point first source).dialect.plugins = s.dialect.plugins := by
  cases source with
  | defined id =>
    rw [addHook, resolve]
    cases s.defined.get? id with
    | none => rfl
    | some hook => rfl
  | fresh script => rfl

/-- A session has come from another one, and so many initialisers of a name have run, each
inside the one before it; none if the name was known. -/
structure Session.Initialises (name : String) (count : Nat) (s : Session)
    (events : List InitEvent) (s' : Session) : Prop where
  nested : events.filter (·.name = name) =
    List.replicate count (.started name) ++ List.replicate count (.finished name)
  known : s.isRegistered name → count = 0
  registered : s'.isRegistered name ↔ s.isRegistered name ∨ 0 < count

/-- The number of initialisers that run is bounded. -/
def Session.InitialisesAtMost (name : String) (bound : Nat) (s : Session)
    (events : List InitEvent) (s' : Session) : Prop :=
  ∃ count ≤ bound, s.Initialises name count events s'

namespace Session

variable {name : String} {s s₁ s₂ : Session} {events more : List InitEvent} {m n : Nat}

theorem InitialisesAtMost.of_plugins (h : s₁.dialect.plugins = s.dialect.plugins) :
    s.InitialisesAtMost name n [] s₁ := by
  refine ⟨0, Nat.zero_le _, rfl, fun _ => rfl, ?_⟩
  rw [isRegistered, h]
  simp [isRegistered]

/-- Of two parts of a run, only one has initialisers of the name. -/
theorem InitialisesAtMost.trans (h : s.InitialisesAtMost name m events s₁)
    (h' : s₁.InitialisesAtMost name n more s₂) :
    s.InitialisesAtMost name (max m n) (events ++ more) s₂ := by
  obtain ⟨count, hcount, hfirst⟩ := h
  obtain ⟨count', hcount', hsecond⟩ := h'
  rcases Nat.eq_zero_or_pos count with rfl | hpos
  · refine ⟨count', Nat.le_trans hcount' (Nat.le_max_right m n), ?_, ?_, ?_⟩
    · rw [List.filter_append, hfirst.nested, hsecond.nested]
      rfl
    · exact fun hs => hsecond.known (hfirst.registered.mpr (.inl hs))
    · rw [hsecond.registered, hfirst.registered]
      simp
  · have hknown : s₁.isRegistered name := hfirst.registered.mpr (.inr hpos)
    obtain rfl := hsecond.known hknown
    refine ⟨count, Nat.le_trans hcount (Nat.le_max_left m n), ?_, hfirst.known, ?_⟩
    · rw [List.filter_append, hfirst.nested, hsecond.nested]
      simp
    · rw [hsecond.registered, hfirst.registered]
      simp

theorem isRegistered_markRegistered {other : String} :
    (s.markRegistered other).isRegistered name ↔ s.isRegistered name ∨ name = other := by
  rw [isRegistered, isRegistered, OrderedSet.contains_iff, OrderedSet.contains_iff]
  exact OrderedSet.mem_insert

/-- An initialiser runs its steps and becomes known; it is one more of its own name. -/
theorem InitialisesAtMost.plugin {other : String} (hnew : ¬ s.isRegistered other)
    (h : s.InitialisesAtMost name n events s₁) :
    s.InitialisesAtMost name ((if other = name then 1 else 0) + n)
      (.started other :: (events ++ [.finished other])) (s₁.markRegistered other) := by
  obtain ⟨count, hcount, hsteps⟩ := h
  by_cases hname : other = name
  · subst hname
    refine ⟨count + 1, by rw [if_pos rfl]; omega, ?_, fun hknown => absurd hknown hnew, ?_⟩
    · have houter : (InitEvent.started other :: (events ++ [.finished other])).filter
          (·.name = other) =
            .started other :: (events.filter (·.name = other) ++ [.finished other]) := by
        simp [InitEvent.name]
      rw [houter, hsteps.nested, List.replicate_succ, List.replicate_succ']
      simp
    · rw [isRegistered_markRegistered]
      simp
  · refine ⟨count, by omega, ?_, hsteps.known, ?_⟩
    · rw [← hsteps.nested]
      simp [InitEvent.name, hname]
    · rw [isRegistered_markRegistered, hsteps.registered]
      simp [Ne.symm hname]

end Session

/-! ### Runs -/

mutual

/-- A step initialises what its history says, and its nesting bounds how often. -/
theorem Step.run_initialises (name : String) : ∀ (step : Step) (s : Session),
    s.InitialisesAtMost name (step.nesting name) (step.inits s) (step.run s).2
  | .registerPlugins plugins, s => by
    rw [Step.run, Step.inits, Step.nesting]
    split
    · exact .of_plugins rfl
    · exact runPlugins_initialises name plugins s
  -- no other step changes which plugins are known
  | .addHook point first source, s => .of_plugins (s.plugins_addHook point first source)
  | .addUnaryOp _, _ => .of_plugins rfl
  | .removeUnaryOp _, _ => .of_plugins rfl
  | .clearUnaryOps, _ => .of_plugins rfl
  | .addBinaryOp _ _ _, _ => .of_plugins rfl
  | .removeBinaryOp _, _ => .of_plugins rfl
  | .clearBinaryOps, _ => .of_plugins rfl
  | .addIdentifierChar _, _ => .of_plugins rfl
  | .removeIdentifierChar _, _ => .of_plugins rfl
  | .addLiteral _ _, _ => .of_plugins rfl
  | .removeLiteral _, _ => .of_plugins rfl
  | .clearLiterals, _ => .of_plugins rfl
  | .setReceiverKeyword _, _ => .of_plugins rfl
  | .setNestingLimit _, _ => .of_plugins rfl
  | .defineHook _ _, _ => .of_plugins rfl
  | .extendHooks _, _ => .of_plugins rfl
  | .listHooks _, _ => .of_plugins rfl
  | .isRegistered _, _ => .of_plugins rfl
  | .tables, _ => .of_plugins rfl
  | .operatorInfo _, _ => .of_plugins rfl
  | .literalInfo _, _ => .of_plugins rfl
  | .charInfo _, _ => .of_plugins rfl
  | .parse _ _, _ => .of_plugins rfl

theorem runPlugins_initialises (name : String) : ∀ (plugins : List Plugin) (s : Session),
    s.InitialisesAtMost name (nestingOfPlugins name plugins) (initsOfPlugins plugins s)
      (runPlugins plugins s)
  | [], s => .of_plugins rfl
  | ⟨other, noted, steps⟩ :: plugins, s => by
    have hfirst : s.InitialisesAtMost name
        ((if other = name then 1 else 0) + nestingOfSteps name steps)
        (if s.isRegistered other then []
          else .started other :: (initsOfSteps noted steps s ++ [.finished other]))
        (runPlugins [⟨other, noted, steps⟩] s) := by
      rw [runPlugins, runPlugins]
      by_cases hknown : s.isRegistered other
      · rw [if_pos hknown, if_pos hknown]
        exact .of_plugins rfl
      · rw [if_neg hknown, if_neg hknown]
        exact (runSteps_initialises name noted steps s).plugin hknown
    exact hfirst.trans (runPlugins_initialises name plugins (runPlugins [⟨other, noted, steps⟩] s))

theorem runSteps_initialises (name : String) : ∀ (noted : Bool) (steps : List Step) (s : Session),
    s.InitialisesAtMost name (nestingOfSteps name steps) (initsOfSteps noted steps s)
      (runSteps noted steps s)
  | _, [], s => .of_plugins rfl
  | noted, step :: steps, s => by
    have hfirst : s.InitialisesAtMost name (step.nesting name) (step.inits s)
        (runSteps noted [step] s) := by
      obtain ⟨count, hcount, hstep⟩ := Step.run_initialises name step s
      cases noted with
      | false => exact ⟨count, hcount, hstep⟩
      | true => exact ⟨count, hcount, hstep.nested, hstep.known, hstep.registered⟩
    exact hfirst.trans (runSteps_initialises name noted steps (runSteps noted [step] s))

end

/-- **Initialisers of one name stand inside one another.**  Whatever is done on a dialect
over its lifetime, with plugins inside plugins to any depth: the initialisers of one name
that run all start before the first of them finishes, and none starts once the name is
known; the name is known afterwards iff it was before, or one of them ran.  No more of them
run than plugins of the name stand inside one another: at most one, unless a plugin applies
another one of its own name. -/
theorem Session.initialisers_nested (steps : List Step) (s : Session) (name : String) :
    ∃ count ≤ nestingOfSteps name steps,
      (initsOfSteps false steps s).count (.started name) = count ∧
        (initsOfSteps false steps s).filter (·.name = name) =
          List.replicate count (.started name) ++ List.replicate count (.finished name) ∧
        (s.isRegistered name → count = 0) ∧
        ((runSteps false steps s).isRegistered name ↔ s.isRegistered name ∨ 0 < count) := by
  obtain ⟨count, hcount, h⟩ := runSteps_initialises name false steps s
  refine ⟨count, hcount, ?_, h.nested, h.known, h.registered⟩
  have hfilter := List.count_filter (l := initsOfSteps false steps s)
    (p := (·.name = name)) (a := .started name) (by simp [InitEvent.name])
  rw [← hfilter, h.nested, List.count_append, List.count_replicate_self,
    List.count_replicate]
  simp

/-- A plugin that applies another one of its own name: both initialisers run, and what the
inner one does is done. -/
theorem Session.initialisers_not_unique :
    let inner : Plugin := ⟨"ops", false, [.addUnaryOp "not"]⟩
    let outer : Plugin := ⟨"ops", false, [.registerPlugins [inner]]⟩
    let steps : List Step := [.registerPlugins [outer]]
    initsOfSteps false steps .standard =
        [.started "ops", .started "ops", .finished "ops", .finished "ops"] ∧
      (runSteps false steps .standard).dialect.grammar.isUnaryOp "not" ∧
      ¬ ∀ (steps : List Step) (s : Session) (name : String),
        (initsOfSteps false steps s).count (.started name) ≤ 1 := by
  intro inner outer steps
  have hinits : initsOfSteps false steps .standard =
      [.started "ops", .started "ops", .finished "ops", .finished "ops"] := by
    decide +kernel
  refine ⟨hinits, by decide +kernel, fun h => ?_⟩
  have hcount := h steps .standard "ops"
  rw [hinits] at hcount
  exact absurd hcount (by decide)

end OperatorGrammar
