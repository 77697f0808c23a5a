/-
OperatorGrammar/Plugin/Session.lean

Running steps: a dialect, the callbacks defined so far, and the notes left by
callbacks and by plugins.

Design.  Plugins are checked before any of them runs: one without a name refuses
the whole list and nothing has happened.  Then each plugin runs unless its name
is known, and its name becomes known when its steps are through, so that a
plugin which registers another one of its own name runs that one, too.
-/
import OperatorGrammar.Plugin.Step
import OperatorGrammar.Plugin.Bundled

namespace OperatorGrammar

/-- An entry of the notes of a session. -/
inductive SessionNote where
  /-- Left by a callback. -/
  | callback (note : Note)
  /-- The answer of a step of a plugin. -/
  | initialised (answer : Answer)

/-- A dialect under configuration. -/
structure Session where
  dialect : Dialect
  /-- The dialects below the current one. -/
  saved : List Dialect
  /-- The callbacks by the name under which they were defined. -/
  defined : OrderedMap String Hook
  /-- The next identity of a callback. -/
  fresh : Nat
  notes : Array SessionNote

/-- The conditional plugin. -/
def Plugin.ternary : Plugin :=
  ⟨Ternary.name, false, [.addHook .expressionDone false (.fresh Ternary.script)]⟩

/-- The comment plugin. -/
def Plugin.comments : Plugin :=
  ⟨Comments.name, false, [.addHook .blanks false (.fresh Comments.script)]⟩

namespace Session

/-- A session on a dialect. -/
def ofDialect (d : Dialect) : Session := ⟨d, [], .empty, 0, #[]⟩

/-- A session on the standard dialect. -/
def standard : Session := ofDialect .standard

/-- Leaves a note. -/
def note (s : Session) (left : SessionNote) : Session :=
  { s with notes := s.notes.push left }

/-- Forgets the notes. -/
def clearNotes (s : Session) : Session :=
  { s with notes := #[] }

/-- Changes the tables. -/
def mapGrammar (s : Session) (f : Grammar → Grammar) : Session :=
  { s with dialect := s.dialect.mapGrammar f }

/-- Changes the callbacks. -/
def mapHooks (s : Session) (f : Hooks → Hooks) : Session :=
  { s with dialect := s.dialect.mapHooks f }

/-- Makes a callback with an identity of its own. -/
def makeHook (s : Session) (script : Script) : Hook × Session :=
  (⟨s.fresh, script⟩, { s with fresh := s.fresh + 1 })

/-- The callback of a registration; none when no callback has that name. -/
def resolve (s : Session) : HookSource → Option Hook × Session
  | .defined id => (s.defined.get? id, s)
  | .fresh script => let (h, s) := s.makeHook script; (some h, s)

/-- The least name under which a callback is defined. -/
def nameOf (s : Session) (h : Hook) : Option String :=
  s.defined.entries.foldl (fun least e =>
    if e.2.identity = h.identity ∧ least.all (e.1 < ·) then some e.1 else least) none

/-- Remembers that a plugin was applied. -/
def markRegistered (s : Session) (name : String) : Session :=
  { s with dialect := { s.dialect with plugins := s.dialect.plugins.insert name } }

/-- Whether a plugin was applied. -/
def isRegistered (s : Session) (name : String) : Bool :=
  s.dialect.plugins.contains name

/-- Applies a change of the tables and shows part of them. -/
def configure (s : Session) (f : Grammar → Grammar) (shown : Grammar → Answer) : Answer × Session :=
  let s := s.mapGrammar f
  (shown s.dialect.grammar, s)

/-- Registers a callback. -/
def addHook (s : Session) (point : HookPoint) (first : Bool) (source : HookSource) : Session :=
  let (hook, s) := s.resolve source
  match hook with
  | none => s
  | some h => s.mapHooks fun hs => if first then hs.addFirst point h else hs.add point h

/-- Registers defined callbacks, each behind those of its point. -/
def extendHooks (s : Session) (additions : List (HookPoint × String)) : Session :=
  s.mapHooks fun hs => hs.extend (additions.filterMap fun a =>
    (s.defined.get? a.2).map fun h => (a.1, h))

end Session

mutual

/-- Runs a step. -/
def Step.run : Step → Session → Answer × Session
  | .addUnaryOp op, s => s.configure (·.addUnaryOp op) .unaryOps
  | .removeUnaryOp op, s => s.configure (·.removeUnaryOp op) .unaryOps
  | .clearUnaryOps, s => s.configure (·.clearUnaryOps) .unaryOps
  | .addBinaryOp op precedence right, s =>
    s.configure (·.addBinaryOp op precedence right) .binaryOps
  | .removeBinaryOp op, s => s.configure (·.removeBinaryOp op) .binaryOps
  | .clearBinaryOps, s => s.configure (·.clearBinaryOps) .binaryOps
  | .addIdentifierChar ch, s => s.configure (·.addIdentifierChar ch) .identifierChars
  | .removeIdentifierChar ch, s => s.configure (·.removeIdentifierChar ch) .identifierChars
  | .addLiteral name value, s => s.configure (·.addLiteral name value) .literals
  | .removeLiteral name, s => s.configure (·.removeLiteral name) .literals
  | .clearLiterals, s => s.configure (·.clearLiterals) .literals
  | .setReceiverKeyword keyword, s =>
    s.configure (·.setReceiverKeyword keyword) fun g => .receiverKeyword g.receiverKeyword
  | .setNestingLimit limit, s =>
    s.configure (·.setNestingLimit limit) fun g => .nestingLimit g.nestingLimit
  | .defineHook id script, s =>
    let (hook, s) := s.makeHook script
    (.nothing, { s with defined := s.defined.insert id hook })
  | .addHook point first source, s =>
    let s := s.addHook point first source
    (.hooks s.dialect.hooks, s)
  | .extendHooks additions, s =>
    let s := s.extendHooks additions
    (.hooks s.dialect.hooks, s)
  | .listHooks point, s => (.hookList ((s.dialect.hooks.get point).map s.nameOf), s)
  | .registerPlugins plugins, s =>
    if plugins.any fun p => p.name = "" then (.refused .missingName, s)
    else
      let s := runPlugins plugins s
      (.plugins s.dialect.plugins.members, s)
  | .isRegistered name, s => (.flag (s.isRegistered name), s)
  | .tables, s => (.tables s.dialect, s)
  | .operatorInfo op, s => (.operatorInfo s.dialect.grammar op, s)
  | .literalInfo name, s => (.literalInfo (s.dialect.grammar.literal? name), s)
  | .charInfo ch, s => (.charInfo s.dialect.grammar ch, s)
  | .parse text reports, s =>
    let reply := s.dialect.parseReply text
    (.parsed reply.outcome? reports,
      { s with notes := reply.notes.foldl (fun notes n => notes.push (.callback n)) s.notes })

/-- Runs the plugins whose names are not known yet, in order. -/
def runPlugins : List Plugin → Session → Session
  | [], s => s
  | ⟨name, noted, steps⟩ :: plugins, s =>
    runPlugins plugins
      (if s.isRegistered name then s else (runSteps noted steps s).markRegistered name)

/-- Runs the steps of a plugin. -/
def runSteps (noted : Bool) : List Step → Session → Session
  | [], s => s
  | step :: steps, s =>
    let (answer, s) := step.run s
    runSteps noted steps (if noted then s.note (.initialised answer) else s)

end

namespace Session

/-- Runs steps and drops their answers and notes. -/
def configured (s : Session) (steps : List Step) : Session :=
  (runSteps false steps s).clearNotes

/-- Works on a copy of the dialect from now on. -/
def clone (s : Session) : Session :=
  { s with saved := s.dialect :: s.saved }

/-- Goes back to the dialect below, if there is one. -/
def pop (s : Session) : Session :=
  match s.saved with
  | [] => s
  | d :: ds => { s with dialect := d, saved := ds }

/-- The number of dialects, the current one included. -/
def size (s : Session) : Nat :=
  s.saved.length + 1

end Session

end OperatorGrammar
