/-
OperatorGrammar/Proofs/TopLevel.lean

The top-level expressions of a text.

A text is parsed to a list of expressions, which is answered as nothing, as the
only one, or as a list of several.  The list can be told from the answer
(`Expr.topLevel_bundle`): no expression that is read is itself a list of several
top-level expressions (`Reads.notCompound`).
-/
import OperatorGrammar.Proofs.Built

namespace OperatorGrammar

variable {d : Dialect} {A : List SlotEvent → Prop} {input rest : List Char}

namespace Expr

/-- The top-level expressions that a result stands for. -/
def topLevel : Option Expr → List Expr
  | none => []
  | some (.compound body) => body
  | some e => [e]

theorem topLevel_some {e : Expr} (h : ¬ e.isCompound) : topLevel (some e) = [e] := by
  cases e with
  | compound body => exact absurd rfl h
  | _ => rfl

theorem topLevel_bundle {nodes : List Expr} (h : ∀ e ∈ nodes, ¬ e.isCompound) :
    topLevel (bundle .compound nodes) = nodes := by
  rcases nodes with - | ⟨e, - | ⟨e', es⟩⟩
  · rfl
  · exact topLevel_some (h e List.mem_cons_self)
  · rfl

/-- The result of two texts, one behind the other. -/
def join (first second : Option Expr) : Option Expr :=
  bundle .compound (topLevel first ++ topLevel second)

end Expr

theorem Expr.notCompound_meaning {g : Grammar} (w : String) :
    ¬ (Lexeme.meaning g w).isCompound := by
  rw [Lexeme.meaning]
  split
  · exact nofun
  · split
    · exact nofun
    · exact nofun

/-- No production makes a list of several top-level expressions. -/
theorem Dialect.buildsOnly_notCompound {text : List Char} :
    d.BuildsOnly text fun e => ¬ e.isCompound where
  number _ _ := nofun
  string _ _ := nofun
  name _ _ := Expr.notCompound_meaning _
  property _ _ _ := nofun
  index _ _ _ := nofun
  call _ _ _ := nofun
  unary _ _ := nofun
  binary _ _ _ := nofun
  conditional _ _ _ _ := nofun
  array _ := nofun
  sequence _ _ := nofun

theorem Reads.notCompound {p : Phrase} (h : Reads d A p input rest) :
    p.Built d fun e => ¬ e.isCompound :=
  h.built Dialect.buildsOnly_notCompound List.suffix_rfl

end OperatorGrammar
