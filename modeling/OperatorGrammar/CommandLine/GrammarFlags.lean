/-
OperatorGrammar/CommandLine/GrammarFlags.lean

A dialect built from flags: further operators and identifier characters, an
empty start, and bundled plugins by name.
-/
import OperatorGrammar.CommandLine.OperatorSpec
import OperatorGrammar.Plugin.Session

namespace OperatorGrammar

/-- The flags that a dialect is built from. -/
structure GrammarFlags where
  binaryOps : List OperatorSpec
  unaryOps : List String
  identifierChars : List Char
  /-- Start without operators and named literals. -/
  noDefaults : Bool
  plugins : List String
  deriving DecidableEq, Repr

/-- No flags. -/
def GrammarFlags.none : GrammarFlags := ⟨[], [], [], false, []⟩

/-- Why no dialect can be built from flags. -/
inductive FlagFailure where
  | unknownPlugin (name : String)
  deriving DecidableEq, Repr

/-- The wording of a refusal. -/
def FlagFailure.message : FlagFailure → String
  | unknownPlugin name => "unknown plugin `" ++ name ++ "`"

/-- The bundled plugin of a name. -/
def Plugin.bundled? (name : String) : Option Plugin :=
  [Plugin.ternary, Plugin.comments].find? fun p => p.name = name

namespace GrammarFlags

/-- The grammar of the flags: the operators in the order given, so that the last one
of a text decides. -/
def grammar (flags : GrammarFlags) : Grammar :=
  let start := if flags.noDefaults then
      Grammar.standard.clearBinaryOps.clearUnaryOps.clearLiterals
    else Grammar.standard
  let binary := flags.binaryOps.foldl
    (fun (g : Grammar) spec => g.addBinaryOp spec.op spec.precedence spec.right) start
  let unary := flags.unaryOps.foldl Grammar.addUnaryOp binary
  flags.identifierChars.foldl Grammar.addIdentifierChar unary

/-- Applies bundled plugins by name, in order. -/
def applyPlugins : List String → Session → Except FlagFailure Session
  | [], s => .ok s
  | name :: names, s =>
    match Plugin.bundled? name with
    | some plugin => applyPlugins names (runPlugins [plugin] s)
    | Option.none => .error (.unknownPlugin name)

/-- The dialect of the flags. -/
def dialect (flags : GrammarFlags) : Except FlagFailure Dialect :=
  (applyPlugins flags.plugins (.ofDialect { Dialect.standard with grammar := flags.grammar })).map
    Session.dialect

end GrammarFlags

end OperatorGrammar
