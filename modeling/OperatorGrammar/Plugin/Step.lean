/-
OperatorGrammar/Plugin/Step.lean

Configuration as data: the steps that change or question a dialect, and plugins,
which are named lists of steps.

Design.  A step may register plugins, and the steps of a plugin may do so again,
to any depth.  Every step has an answer that shows the part of the dialect that
it is about.
-/
import OperatorGrammar.Parser.Run

namespace OperatorGrammar

/-- How a parsed tree is reported. -/
inductive ReportKind where
  /-- The tree itself. -/
  | tree
  /-- The outline with literals as they were written. -/
  | outline
  /-- The outline with decoded literals. -/
  | values
  /-- Indented JSON. -/
  | json
  deriving DecidableEq, Repr

/-- Where the callback of a registration comes from. -/
inductive HookSource where
  /-- A callback that was defined under a name. -/
  | defined (id : String)
  /-- A callback of its own. -/
  | fresh (script : Script)

mutual

/-- A step of a configuration. -/
inductive Step where
  | addUnaryOp (op : String)
  | removeUnaryOp (op : String)
  | clearUnaryOps
  | addBinaryOp (op : String) (precedence : Nat) (right : Bool)
  | removeBinaryOp (op : String)
  | clearBinaryOps
  | addIdentifierChar (ch : Char)
  | removeIdentifierChar (ch : Char)
  | addLiteral (name : String) (value : Value)
  | removeLiteral (name : String)
  | clearLiterals
  | setReceiverKeyword (keyword : String)
  | setNestingLimit (limit : Option Nat)
  /-- Makes one callback and remembers it under a name. -/
  | defineHook (id : String) (script : Script)
  | addHook (point : HookPoint) (first : Bool) (source : HookSource)
  | extendHooks (additions : List (HookPoint × String))
  | listHooks (point : HookPoint)
  | registerPlugins (plugins : List Plugin)
  | isRegistered (name : String)
  | tables
  | operatorInfo (op : String)
  | literalInfo (name : String)
  | charInfo (ch : Char)
  | parse (text : String) (reports : List ReportKind)

/-- A named list of steps; with `noted`, the answer of each step goes into the notes. -/
inductive Plugin where
  | mk (name : String) (noted : Bool) (steps : List Step)

end

/-- The name of a plugin. -/
def Plugin.name : Plugin → String
  | ⟨name, _, _⟩ => name

/-- Why plugins are refused. -/
inductive PluginFailure where
  | missingName
  deriving DecidableEq, Repr

/-- The wording of a refusal. -/
def PluginFailure.message : PluginFailure → String
  | missingName => "plugin has no name"

/-- What a step answers. -/
inductive Answer where
  /-- Nothing to show. -/
  | nothing
  | unaryOps (grammar : Grammar)
  | binaryOps (grammar : Grammar)
  | identifierChars (grammar : Grammar)
  | literals (grammar : Grammar)
  | receiverKeyword (keyword : String)
  | nestingLimit (limit : Option Nat)
  | hooks (hooks : Hooks)
  /-- The callbacks of a point, each with the name under which it is defined, if any. -/
  | hookList (ids : List (Option String))
  | plugins (names : List String)
  | refused (failure : PluginFailure)
  | flag (value : Bool)
  | tables (dialect : Dialect)
  | operatorInfo (grammar : Grammar) (op : String)
  | literalInfo (value : Option Value)
  | charInfo (grammar : Grammar) (ch : Char)
  | parsed (outcome : Option (Except Failure (Option Expr))) (reports : List ReportKind)

end OperatorGrammar
