/-
OperatorGrammar/Proofs/FlagOrder.lean

The order of the flags that a dialect is built from.

The operators and identifier characters of the flags are additions at the end of a
history, and of additions to a table only the last one at each key shows
(`latest_append_puts`).  So they may come in any order in which those of one operator
keep theirs (`GrammarFlags.Rearranges`): the tables then differ in their order alone,
and a text does not show that (`GrammarFlags.Rearranges.agreesOn`).

Of the plugins only the names show, too.  `Dialect.Applied` says what some of them
leave, in any order and however often; one more plugin keeps it
(`Dialect.Applied.runPlugins`).

Main result: `GrammarFlags.dialect_rearranged`.
-/
import OperatorGrammar.CommandLine.GrammarFlags
import OperatorGrammar.Proofs.ConfigurationHistory
import OperatorGrammar.Proofs.Termination

namespace OperatorGrammar

/-- Where additions end a history, a key has the last value added at it, or else the one
from before. -/
theorem latest_append_puts {ι κ α : Type} [DecidableEq κ] (history : List (Change κ α))
    (items : List ι) (key : ι → κ) (value : ι → α) (k : κ) :
    latest k (history ++ items.map fun i => .put (key i) (value i)) =
      ((items.filter fun i => key i = k).getLast?.map value).or (latest k history) := by
  induction items using List.reverseRecOn with
  | nil => simp
  | append_singleton items i ih =>
    rw [List.map_append, ← List.append_assoc, List.map_singleton, latest_concat_put,
      List.filter_append, ih]
    by_cases hi : key i = k
    · simp [hi]
    · simp [hi]

/-- What every one of some edits leaves alone, all of them do. -/
theorem Grammar.edited_keeps {α : Type} (part : Grammar → α) {edits : List Edit}
    (h : ∀ e ∈ edits, ∀ g, part (e.apply g) = part g) (g : Grammar) :
    part (g.edited edits) = part g := by
  induction edits generalizing g with
  | nil => rfl
  | cons e edits ih =>
    have hrest := ih (fun e he => h e (List.mem_cons_of_mem _ he)) (e.apply g)
    exact hrest.trans (h e List.mem_cons_self g)

/-! ### Applied plugins -/

theorem Plugin.bundled?_eq_some {name : String} {plugin : Plugin}
    (h : bundled? name = some plugin) :
    (name = Ternary.name ∧ plugin = .ternary) ∨ (name = Comments.name ∧ plugin = .comments) := by
  obtain ⟨hmem, hname⟩ := And.intro (List.mem_of_find?_eq_some h) (List.find?_some h)
  have hname' : plugin.name = name := by simpa using hname
  rcases List.mem_pair.mp hmem with rfl | rfl
  · exact .inl ⟨hname'.symm, rfl⟩
  · exact .inr ⟨hname'.symm, rfl⟩

/-- What a plugin of one callback leaves: its name, and at its point a callback unless the
name was known. -/
structure Session.Adds (s : Session) (name : String) (point : HookPoint) (s' : Session) : Prop where
  grammar : s'.dialect.grammar = s.dialect.grammar
  plugins : ∀ other, other ∈ s'.dialect.plugins.members ↔
    other ∈ s.dialect.plugins.members ∨ other = name
  hooks : ∀ p, s'.dialect.hooks.get p ≠ [] ↔
    s.dialect.hooks.get p ≠ [] ∨ p = point ∧ name ∉ s.dialect.plugins.members

theorem runPlugins_adds (s : Session) (name : String) (point : HookPoint) (script : Script) :
    s.Adds name point (runPlugins [⟨name, false, [.addHook point false (.fresh script)]⟩] s) := by
  have hrun := runPlugins_addHook s name point script
  by_cases hknown : name ∈ s.dialect.plugins.members
  · rw [if_pos hknown] at hrun
    refine ⟨by rw [hrun], fun other => ?_, fun p => ?_⟩
    · rw [hrun]
      exact ⟨.inl, fun h => h.elim id fun h => h ▸ hknown⟩
    · rw [hrun]
      exact ⟨.inl, fun h => h.elim id fun h => absurd hknown h.2⟩
  · rw [if_neg hknown] at hrun
    refine ⟨by rw [hrun], fun other => ?_, fun p => ?_⟩
    · rw [hrun]
      exact OrderedSet.mem_insert
    · rw [hrun, Hooks.get_add]
      by_cases hp : p = point
      · simp [hp, hknown]
      · simp [hp]

/-- A point whose callbacks tell whether a name is known goes on telling it. -/
theorem Session.Adds.hooks_iff {s s' : Session} {name other : String} {point p : HookPoint}
    {names : List String} (h : s.Adds name point s')
    (hnames : ∀ other, other ∈ s.dialect.plugins.members ↔ other ∈ names)
    (hp : s.dialect.hooks.get p ≠ [] ↔ other ∈ names) (hpoint : p = point ↔ other = name) :
    s'.dialect.hooks.get p ≠ [] ↔ other ∈ names ++ [name] := by
  rw [h.hooks, hp, hpoint, hnames, List.mem_append, List.mem_singleton]
  by_cases hother : other = name
  · simp [hother, Classical.em]
  · simp [hother]

/-- A dialect of a grammar with bundled plugins of some names. -/
structure Dialect.Applied (g : Grammar) (names : List String) (d : Dialect) : Prop where
  grammar : d.grammar = g
  bundled : d.Bundled
  plugins : ∀ name, name ∈ d.plugins.members ↔ name ∈ names
  conditionals : d.HasConditionals ↔ Ternary.name ∈ names
  comments : d.HasComments ↔ Comments.name ∈ names

/-- One more plugin, be its name known or not. -/
theorem Dialect.Applied.runPlugins {g : Grammar} {names : List String} {s : Session}
    (h : s.dialect.Applied g names) {name : String} {plugin : Plugin}
    (hplugin : Plugin.bundled? name = some plugin) :
    (OperatorGrammar.runPlugins [plugin] s).dialect.Applied g (names ++ [name]) := by
  -- the two plugins add one callback each, at points of their own
  obtain ⟨hquiet, point, hadds, hconditionals, hcomments⟩ :
      QuietPlugins [plugin] ∧ ∃ point, s.Adds name point (OperatorGrammar.runPlugins [plugin] s) ∧
        (HookPoint.expressionDone = point ↔ Ternary.name = name) ∧
          (HookPoint.blanks = point ↔ Comments.name = name) := by
    rcases Plugin.bundled?_eq_some hplugin with ⟨rfl, rfl⟩ | ⟨rfl, rfl⟩
    · exact ⟨⟨.inl rfl, trivial⟩, _, runPlugins_adds s _ _ _, by decide, by decide⟩
    · exact ⟨⟨.inr (.inl rfl), trivial⟩, _, runPlugins_adds s _ _ _, by decide, by decide⟩
  exact
    { grammar := hadds.grammar.trans h.grammar
      bundled := runPlugins_bundled _ s hquiet h.bundled
      plugins := fun other => by
        rw [hadds.plugins, h.plugins, List.mem_append, List.mem_singleton]
      conditionals := hadds.hooks_iff h.plugins h.conditionals hconditionals
      comments := hadds.hooks_iff h.plugins h.comments hcomments }

/-- Two dialects with the same names of plugins, and with grammars that agree on a text, are
alike there. -/
theorem Dialect.Applied.alike {g g' : Grammar} {names names' : List String} {d d' : Dialect}
    (h : d.Applied g names) (h' : d'.Applied g' names')
    (hnames : ∀ name, name ∈ names ↔ name ∈ names') {text : List Char}
    (hagrees : g.AgreesOn text g') (hlimit : g.nestingLimit = g'.nestingLimit) :
    d.Alike text d' where
  bundled := h.bundled
  bundled' := h'.bundled
  limit := by rw [h.grammar, h'.grammar, hlimit]
  conditionals := by rw [h.conditionals, h'.conditionals, hnames]
  comments := by rw [h.comments, h'.comments, hnames]
  grammar := by
    rw [h.grammar, h'.grammar]
    exact hagrees

/-- Dialects that are alike on a text give it the same answer. -/
theorem Dialect.Alike.parse_answers {d d' : Dialect} {text : String}
    (h : d.Alike text.toList d') :
    ∃ answer, d.parse text = some answer ∧ d'.parse text = some answer := by
  obtain ⟨answer, hanswer⟩ := parseWithin_answers h.bundled.plain text.toList.toArray
  have hle : 2 * text.toList.toArray.size + 4 ≤ budgetFor text.length := by
    rw [List.size_toArray, String.length_toList, budgetFor]
    omega
  exact ⟨answer, parseWithin_mono h.bundled hle hanswer,
    (Reading.program_approx (context_approx h hle) .initial).outcome hanswer⟩

namespace GrammarFlags

/-! ### Flags as a history -/

/-- The history behind the flags: that of the standard grammar, perhaps cleared. -/
def startHistory (noDefaults : Bool) : List Edit :=
  Grammar.standardHistory ++
    if noDefaults then [.clearBinaryOps, .clearUnaryOps, .clearLiterals] else []

/-- What the flags add, in order. -/
def additions (flags : GrammarFlags) : List Edit :=
  flags.binaryOps.map (fun spec => .addBinaryOp spec.op spec.precedence spec.right)
    ++ flags.unaryOps.map .addUnaryOp ++ flags.identifierChars.map .addIdentifierChar

/-- The whole history of the grammar of the flags. -/
def history (flags : GrammarFlags) : List Edit :=
  startHistory flags.noDefaults ++ flags.additions

theorem edited_startHistory (noDefaults : Bool) :
    Grammar.blank.edited (startHistory noDefaults) =
      if noDefaults then Grammar.standard.clearBinaryOps.clearUnaryOps.clearLiterals
      else Grammar.standard := by
  rw [startHistory, Grammar.edited_append, Grammar.edited_standardHistory]
  cases noDefaults <;> rfl

theorem grammar_eq_edited (flags : GrammarFlags) :
    flags.grammar = Grammar.blank.edited flags.history := by
  rw [history, Grammar.edited_append, edited_startHistory, additions, Grammar.edited,
    List.foldl_append, List.foldl_append, List.foldl_map, List.foldl_map, List.foldl_map]
  rfl

variable (flags : GrammarFlags)

/-- The tables hold what the history of the flags leaves. -/
theorem account : flags.grammar.Accounted flags.history := by
  rw [grammar_eq_edited]
  exact Grammar.accounted_edited _

theorem counted_grammar : flags.grammar.Counted := by
  rw [grammar_eq_edited]
  exact Grammar.Counted.edited ⟨rfl, rfl⟩ _

/-- The last spec of an operator decides, and without one the start does. -/
theorem latest_onBinaryOps (op : String) :
    latest op (flags.history.filterMap Edit.onBinaryOps) =
      ((flags.binaryOps.filter fun spec => spec.op = op).getLast?.map
        fun spec => (spec.precedence, spec.right)).or
          (latest op ((startHistory flags.noDefaults).filterMap Edit.onBinaryOps)) := by
  rw [← latest_append_puts _ _ (fun spec : OperatorSpec => spec.op)]
  simp [history, additions, List.filterMap_append, List.filterMap_map, Function.comp_def,
    Edit.onBinaryOps]

theorem latest_onUnaryOps (op : String) :
    latest op (flags.history.filterMap Edit.onUnaryOps) =
      ((flags.unaryOps.filter fun other => other = op).getLast?.map fun _ => ()).or
        (latest op ((startHistory flags.noDefaults).filterMap Edit.onUnaryOps)) := by
  rw [← latest_append_puts _ _ (fun other : String => other)]
  simp [history, additions, List.filterMap_append, List.filterMap_map, Function.comp_def,
    Edit.onUnaryOps]

theorem latest_onIdentifierChars (ch : Char) :
    latest ch (flags.history.filterMap Edit.onIdentifierChars) =
      ((flags.identifierChars.filter fun other => other = ch).getLast?.map fun _ => ()).or
        (latest ch ((startHistory flags.noDefaults).filterMap Edit.onIdentifierChars)) := by
  rw [← latest_append_puts _ _ (fun other : Char => other)]
  simp [history, additions, List.filterMap_append, List.filterMap_map, Function.comp_def,
    Edit.onIdentifierChars]

theorem onLiterals_history :
    flags.history.filterMap Edit.onLiterals =
      (startHistory flags.noDefaults).filterMap Edit.onLiterals := by
  simp [history, additions, List.filterMap_append, List.filterMap_map, Function.comp_def,
    Edit.onLiterals]

/-- The flags leave the receiver keyword and the nesting limit alone. -/
theorem edited_additions (g : Grammar) :
    (g.edited flags.additions).receiverKeyword = g.receiverKeyword ∧
      (g.edited flags.additions).nestingLimit = g.nestingLimit := by
  have hadds : ∀ e ∈ flags.additions, ∀ g : Grammar,
      (e.apply g).receiverKeyword = g.receiverKeyword ∧
        (e.apply g).nestingLimit = g.nestingLimit := by
    intro e he g
    rcases List.mem_append.mp he with he | he
    · rcases List.mem_append.mp he with he | he
      · obtain ⟨spec, -, rfl⟩ := List.mem_map.mp he
        exact ⟨rfl, rfl⟩
      · obtain ⟨op, -, rfl⟩ := List.mem_map.mp he
        exact ⟨rfl, rfl⟩
    · obtain ⟨ch, -, rfl⟩ := List.mem_map.mp he
      exact ⟨rfl, rfl⟩
  exact ⟨Grammar.edited_keeps _ (fun e he g => (hadds e he g).1) g,
    Grammar.edited_keeps _ (fun e he g => (hadds e he g).2) g⟩

/-! ### The last spec -/

/-- The last of some specs that have the same operator decides how it binds and groups. -/
def LastDecides (specs : List OperatorSpec) (g : Grammar) : Prop :=
  ∀ before spec after, specs = before ++ spec :: after →
    (∀ later ∈ after, later.op ≠ spec.op) →
      g.isBinaryOp spec.op ∧ g.precedence spec.op = spec.precedence ∧
        g.isRightAssociative spec.op = spec.right

theorem lastDecides : LastDecides flags.binaryOps flags.grammar := by
  intro before spec after hspecs hlast
  -- of the specs of the operator, it is the last one
  have hfilter : (flags.binaryOps.filter fun other => other.op = spec.op) =
      (before.filter fun other => other.op = spec.op) ++ [spec] := by
    have hafter : (after.filter fun other => other.op = spec.op) = [] :=
      List.filter_eq_nil_iff.mpr fun later hlater => by simpa using hlast later hlater
    rw [hspecs, List.filter_append, List.filter_cons_of_pos (by simp), hafter]
  have hlatest : latest spec.op (flags.history.filterMap Edit.onBinaryOps) =
      some (spec.precedence, spec.right) := by
    rw [flags.latest_onBinaryOps, hfilter, List.getLast?_concat]
    rfl
  have hvalue : flags.grammar.binaryOps.get? spec.op = some spec.precedence := by
    rw [flags.account.binaryOps.value, hlatest]
    rfl
  refine ⟨?_, ?_, ?_⟩
  · rw [Grammar.isBinaryOp, OrderedMap.contains, hvalue]
    rfl
  · rw [Grammar.precedence, hvalue]
    rfl
  · rw [Bool.eq_iff_iff, flags.account.right_iff, hlatest]
    simp

/-! ### Rearranged flags -/

/-- The same flags in another order, in which the specs of one operator keep theirs. -/
structure Rearranges (f f' : GrammarFlags) : Prop where
  noDefaults : f'.noDefaults = f.noDefaults
  unaryOps : f'.unaryOps.Perm f.unaryOps
  identifierChars : f'.identifierChars.Perm f.identifierChars
  plugins : f'.plugins.Perm f.plugins
  binaryOps : f'.binaryOps.Perm f.binaryOps
  sameOrder : ∀ op, (f'.binaryOps.filter fun spec => spec.op = op) =
    f.binaryOps.filter fun spec => spec.op = op

namespace Rearranges

variable {f f' : GrammarFlags} (h : f.Rearranges f')
include h

theorem latest_onBinaryOps (op : String) :
    latest op (f'.history.filterMap Edit.onBinaryOps) =
      latest op (f.history.filterMap Edit.onBinaryOps) := by
  rw [f.latest_onBinaryOps, f'.latest_onBinaryOps, h.sameOrder, h.noDefaults]

theorem latest_onUnaryOps (op : String) :
    latest op (f'.history.filterMap Edit.onUnaryOps) =
      latest op (f.history.filterMap Edit.onUnaryOps) := by
  rw [f.latest_onUnaryOps, f'.latest_onUnaryOps, List.filter_eq, List.filter_eq,
    h.unaryOps.count_eq, h.noDefaults]

theorem latest_onIdentifierChars (ch : Char) :
    latest ch (f'.history.filterMap Edit.onIdentifierChars) =
      latest ch (f.history.filterMap Edit.onIdentifierChars) := by
  rw [f.latest_onIdentifierChars, f'.latest_onIdentifierChars, List.filter_eq, List.filter_eq,
    h.identifierChars.count_eq, h.noDefaults]

theorem get?_binaryOps (op : String) :
    f'.grammar.binaryOps.get? op = f.grammar.binaryOps.get? op := by
  rw [f.account.binaryOps.value, f'.account.binaryOps.value, h.latest_onBinaryOps]

theorem isRightAssociative_iff (op : String) :
    f'.grammar.isRightAssociative op ↔ f.grammar.isRightAssociative op := by
  rw [f.account.right_iff, f'.account.right_iff, h.latest_onBinaryOps]

theorem literal? (name : String) : f'.grammar.literal? name = f.grammar.literal? name := by
  rw [Grammar.literal?, Grammar.literal?, f.account.literals.value, f'.account.literals.value,
    onLiterals_history, onLiterals_history, h.noDefaults]

theorem settings : f'.grammar.receiverKeyword = f.grammar.receiverKeyword ∧
    f'.grammar.nestingLimit = f.grammar.nestingLimit := by
  rw [f.grammar_eq_edited, f'.grammar_eq_edited, history, history, Grammar.edited_append,
    Grammar.edited_append, h.noDefaults]
  obtain ⟨hreceiver, hlimit⟩ :=
    f.edited_additions (Grammar.blank.edited (startHistory f.noDefaults))
  obtain ⟨hreceiver', hlimit'⟩ :=
    f'.edited_additions (Grammar.blank.edited (startHistory f.noDefaults))
  exact ⟨hreceiver'.trans hreceiver.symm, hlimit'.trans hlimit.symm⟩

/-- No text tells the two grammars apart. -/
theorem agreesOn (text : List Char) : f.grammar.AgreesOn text f'.grammar := by
  have hbinary (op : String) : f.grammar.isBinaryOp op ↔ f'.grammar.isBinaryOp op := by
    rw [Grammar.isBinaryOp, Grammar.isBinaryOp, OrderedMap.contains, OrderedMap.contains,
      h.get?_binaryOps]
  have hprecedence (op : String) : f'.grammar.precedence op = f.grammar.precedence op := by
    rw [Grammar.precedence, Grammar.precedence, h.get?_binaryOps]
  refine
    { unary := fun op _ => ?_
      binary := fun op _ => hbinary op
      right := fun op _ _ => (h.isRightAssociative_iff op).symm
      literal := fun name _ => (h.literal? name).symm
      receiver := fun name _ => ?_
      order := fun a b _ _ _ _ => by rw [hprecedence, hprecedence]
      vanishing := fun op _ _ => by rw [hprecedence]
      identifierChars := fun ch _ => ?_ }
  · rw [Grammar.isUnaryOp, Grammar.isUnaryOp, OrderedSet.contains_iff, OrderedSet.contains_iff,
      f.account.unaryOps.mem_iff, f'.account.unaryOps.mem_iff, h.latest_onUnaryOps]
  · rw [h.settings.1]
  · rw [f.account.identifierChars.mem_iff, f'.account.identifierChars.mem_iff,
      h.latest_onIdentifierChars]

end Rearranges

/-! ### The dialect -/

/-- Bundled plugins are applied, and only they. -/
theorem applyPlugins_eq_ok_iff (names : List String) (s : Session) :
    (∃ s', applyPlugins names s = .ok s') ↔ ∀ name ∈ names, (Plugin.bundled? name).isSome := by
  induction names generalizing s with
  | nil => simp [applyPlugins]
  | cons name names ih =>
    rw [applyPlugins, List.forall_mem_cons]
    rcases hplugin : Plugin.bundled? name with - | plugin
    · simp
    · simp only [Option.isSome_some, true_and]
      exact ih _

theorem applied_of_applyPlugins {g : Grammar} {names before : List String} {s s' : Session}
    (h : s.dialect.Applied g before) (hs : applyPlugins names s = .ok s') :
    s'.dialect.Applied g (before ++ names) := by
  induction names generalizing s before with
  | nil =>
    cases hs
    rwa [List.append_nil]
  | cons name names ih =>
    rw [applyPlugins] at hs
    rcases hplugin : Plugin.bundled? name with - | plugin
    · rw [hplugin] at hs
      cases hs
    · rw [hplugin] at hs
      rw [List.append_cons]
      exact ih (h.runPlugins hplugin) hs

/-- A dialect comes of flags that name bundled plugins only. -/
theorem dialect_eq_ok_iff :
    (∃ d, flags.dialect = .ok d) ↔ ∀ name ∈ flags.plugins, (Plugin.bundled? name).isSome := by
  rw [← applyPlugins_eq_ok_iff flags.plugins
    (.ofDialect { Dialect.standard with grammar := flags.grammar }), dialect]
  cases applyPlugins flags.plugins _ with
  | error e => simp [Except.map]
  | ok s => simp [Except.map]

theorem applied_dialect {flags : GrammarFlags} {d : Dialect} (h : flags.dialect = .ok d) :
    d.Applied flags.grammar flags.plugins := by
  have hhookFree : Dialect.HookFree { Dialect.standard with grammar := flags.grammar } :=
    fun _ => rfl
  have hstart : Dialect.Applied flags.grammar []
      (Session.ofDialect { Dialect.standard with grammar := flags.grammar }).dialect :=
    { grammar := rfl
      bundled :=
        { plain := hhookFree.plain
          ternary := fun hc => absurd hc hhookFree.not_hasConditionals
          comments := fun hc => absurd hc hhookFree.not_hasComments
          counted := flags.counted_grammar }
      plugins := fun _ => Iff.rfl
      conditionals := iff_of_false hhookFree.not_hasConditionals List.not_mem_nil
      comments := iff_of_false hhookFree.not_hasComments List.not_mem_nil }
  rw [dialect] at h
  rcases hrun : applyPlugins flags.plugins
    (.ofDialect { Dialect.standard with grammar := flags.grammar }) with e | s
  · rw [hrun] at h
    cases h
  · rw [hrun] at h
    cases h
    exact applied_of_applyPlugins hstart hrun

/-- **The order of the flags does not matter, but for specs of one operator.**  Rearranged flags
give a dialect or fail together, and the dialects answer every text alike.  Of the specs of an
operator the last one decides, whatever the operator was at the start. -/
theorem dialect_rearranged :
    (∀ f f' : GrammarFlags, f.Rearranges f' →
      ((∃ d, f.dialect = .ok d) ↔ ∃ d', f'.dialect = .ok d') ∧
        ∀ d d', f.dialect = .ok d → f'.dialect = .ok d' →
          ∀ text, ∃ answer, d.parse text = some answer ∧ d'.parse text = some answer) ∧
      ∀ (f : GrammarFlags) (d : Dialect), f.dialect = .ok d →
        LastDecides f.binaryOps d.grammar := by
  refine ⟨fun f f' h => ⟨?_, fun d d' hd hd' text => ?_⟩, fun f d hd => ?_⟩
  · rw [dialect_eq_ok_iff, dialect_eq_ok_iff]
    simp only [h.plugins.mem_iff]
  · have hnames (name : String) : name ∈ f.plugins ↔ name ∈ f'.plugins := h.plugins.mem_iff.symm
    exact ((applied_dialect hd).alike (applied_dialect hd') hnames (h.agreesOn text.toList)
      h.settings.2.symm).parse_answers
  · rw [(applied_dialect hd).grammar]
    exact f.lastDecides

/-- A standard operator given twice, and a plugin named twice. -/
theorem dialect_rearranged_repeated :
    let f : GrammarFlags :=
      { binaryOps := [⟨"+", 3, true⟩, ⟨"~>", 5, true⟩, ⟨"+", 12, false⟩]
        unaryOps := ["not", "#"]
        identifierChars := ['@', '$']
        noDefaults := false
        plugins := ["ternary", "comments", "ternary"] }
    let f' : GrammarFlags :=
      { binaryOps := [⟨"+", 3, true⟩, ⟨"+", 12, false⟩, ⟨"~>", 5, true⟩]
        unaryOps := ["#", "not"]
        identifierChars := ['$', '@']
        noDefaults := false
        plugins := ["comments", "ternary", "ternary"] }
    f.Rearranges f' ∧ ∃ d d', f.dialect = .ok d ∧ f'.dialect = .ok d' ∧
      (∀ text, ∃ answer, d.parse text = some answer ∧ d'.parse text = some answer) ∧
        d.grammar.precedence "+" = 12 ∧ d'.grammar.precedence "+" = 12 := by
  intro f f'
  have h : f.Rearranges f' :=
    { noDefaults := rfl
      unaryOps := by decide
      identifierChars := by decide
      plugins := by decide
      binaryOps := by decide
      sameOrder := fun op => by
        by_cases hplus : "+" = op
        · subst hplus
          decide
        · by_cases harrow : "~>" = op
          · subst harrow
            decide
          · simp [f, f', hplus, harrow] }
  obtain ⟨d, hd⟩ := f.dialect_eq_ok_iff.mpr (by decide)
  obtain ⟨d', hd'⟩ := (dialect_rearranged.1 f f' h).1.mp ⟨d, hd⟩
  refine ⟨h, d, d', hd, hd', (dialect_rearranged.1 f f' h).2 d d' hd hd', ?_, ?_⟩
  · exact (dialect_rearranged.2 f d hd [⟨"+", 3, true⟩, ⟨"~>", 5, true⟩] ⟨"+", 12, false⟩ [] rfl
      nofun).2.1
  · exact (dialect_rearranged.2 f' d' hd' [⟨"+", 3, true⟩] ⟨"+", 12, false⟩ [⟨"~>", 5, true⟩] rfl
      (by decide)).2.1

end GrammarFlags

end OperatorGrammar
