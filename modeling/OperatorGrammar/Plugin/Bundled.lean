/-
OperatorGrammar/Plugin/Bundled.lean

The callbacks of the two bundled plugins: conditional expressions and comments.
-/
import OperatorGrammar.Hook.Point
import OperatorGrammar.Hook.Script

namespace OperatorGrammar

/-! ### Conditional expressions -/

namespace Ternary

/-- The name of the plugin. -/
def name : String := "ternary"

/-- After an expression: `? consequent : alternate` makes it the test of a
conditional.  Both branches are whole expressions, so a conditional in the
alternate groups to the right. -/
def script : Script :=
  .look fun v =>
    match v.cursor.current, v.node with
    | some '?', some test =>
      .setNode none <| .advance 1 <|
        Script.needExpression fun consequent =>
          Script.needChar ':' .colon <|
            Script.needExpression fun alternate =>
              .setNode (some (.conditional test consequent alternate)) .done
    | _, _ => .done

end Ternary

/-! ### Comments -/

namespace Comments

/-- The name of the plugin. -/
def name : String := "comments"

/-- Skips to the end of a line, or of the text. -/
def skipLine : Nat → Script
  | 0 => .done
  | n + 1 =>
    .look fun v => if v.cursor.current.any (· ≠ '\n') then .advance 1 (skipLine n) else .done

/-- Skips past the end of a block that was opened at `start`. -/
def skipBlock (start : Nat) : Nat → Script
  | 0 => .abandon
  | n + 1 =>
    .look fun v =>
      if v.cursor.startsWith "*/" then .advance 2 .done
      else if v.cursor.atEnd then .fail ⟨.comment, start⟩
      else .advance 1 (skipBlock start n)

/-- After white space: skips one comment.  The reading asks again until nothing more
is skipped. -/
def script : Script :=
  .look fun v =>
    if v.cursor.startsWith "//" then skipLine v.cursor.remaining
    else if v.cursor.startsWith "/*" then
      .advance 2 (skipBlock v.cursor.index v.cursor.remaining)
    else .done

end Comments

end OperatorGrammar
