/-
OperatorGrammar/Dialect.lean

A dialect: the tables of a grammar, the callbacks that steer a reading, and the
names of the plugins that were applied.
-/
import OperatorGrammar.Hook.Registry

namespace OperatorGrammar

/-- All that decides how a text is read. -/
structure Dialect where
  grammar : Grammar
  hooks : Hooks
  /-- Names of the applied plugins, in the order in which they were completed. -/
  plugins : OrderedSet String

namespace Dialect

/-- The standard grammar, without callbacks and plugins. -/
def standard : Dialect := ⟨.standard, .empty, .empty⟩

/-- Changes the tables. -/
def mapGrammar (d : Dialect) (f : Grammar → Grammar) : Dialect :=
  { d with grammar := f d.grammar }

/-- Changes the callbacks. -/
def mapHooks (d : Dialect) (f : Hooks → Hooks) : Dialect :=
  { d with hooks := f d.hooks }

end Dialect

end OperatorGrammar
