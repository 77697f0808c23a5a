/-
OperatorGrammar/Hook/Recipe.lean

Callbacks written as data: a list of instructions with conditions, branches and
loops, and the script that carries them out.

Design.  A run of a recipe has one local variable, the mark, an offset that is
first the place of the cursor.  An instruction becomes a script that is handed
what to do next with the mark.
-/
import OperatorGrammar.Hook.Script

namespace OperatorGrammar

namespace Recipe

/-- A question about what a callback sees. -/
inductive Condition where
  | startsWith (text : String)
  | current (ch : Option Char)
  | notCurrent (ch : Option Char)
  | peek (distance : UInt64) (ch : Option Char)
  | index (index : Nat)
  | atEnd (flag : Bool)
  /-- The kind of the node in the slot. -/
  | node (typeName : Option String)
  /-- The name of the identifier in the slot. -/
  | name (name : Option String)
  /-- Whether an identifier may go on with the current character. -/
  | identifierPart (flag : Bool)

/-- Whether a condition holds. -/
def Condition.holds (v : View) : Condition → Bool
  | startsWith text => v.cursor.startsWith text
  | current wanted => v.cursor.current = wanted
  | notCurrent other => v.cursor.current ≠ other
  | peek distance wanted => v.cursor.peek distance = wanted
  | index i => v.cursor.index = i
  | atEnd flag => v.cursor.atEnd = flag
  | node wanted => v.typeName = wanted
  | name wanted => v.node.bind Expr.asIdentifier = wanted
  | identifierPart flag => v.cursor.current.any v.grammar.isIdentifierPart = flag

/-- Whether all of several conditions hold. -/
def allHold (conditions : List Condition) (v : View) : Bool :=
  conditions.all (Condition.holds v)

/-- What a recipe does in one step. -/
inductive Instruction where
  /-- Notes the place. -/
  | log (label : String)
  /-- Notes all that is seen. -/
  | see (label : String)
  | set (node : Option Expr)
  /-- Puts a unary operator on the node. -/
  | unary (operator : String)
  /-- Passes the node, if any, to a named function. -/
  | call (callee : String)
  /-- Marks the node as an optional link. -/
  | optional
  /-- Appends to the name of an identifier. -/
  | rename (suffix : String)
  | advance (count : UInt64)
  /-- Sets the mark. -/
  | mark
  /-- Makes the text from the mark on an identifier. -/
  | take
  /-- Re-enters the grammar.  The result goes into the slot, or, with `drop`, into the
  notes; a failure ends the callback, or, with `keep`, goes into the notes. -/
  | read (entry : Entry) (drop keep : Bool)
  /-- Fails, at the cursor when no offset is given. -/
  | error (description : String) (index : Option Nat)
  | branch (conditions : List Condition) (yes no : List Instruction)
  | loop (conditions : List Condition) (body : List Instruction)

/-- How many rounds a loop may take. -/
def loopBound : Nat := 1 <<< 48

/-- Changes the node in the slot. -/
def mapNode (f : Expr → Expr) (next : Script) : Script :=
  .look fun v =>
    match v.node with
    | some node => .setNode (some (f node)) next
    | none => next

mutual

/-- The script of one instruction. -/
def Instruction.script : Instruction → Nat → (Nat → Script) → Script
  | .log label, mark, next =>
    .look fun v => .note (.place label v.cursor.index v.typeName) (next mark)
  | .see label, mark, next => .look fun v => .note (.view label v.cursor v.node) (next mark)
  | .set node, mark, next => .setNode node (next mark)
  | .unary operator, mark, next => mapNode (Expr.signed operator) (next mark)
  | .call callee, mark, next =>
    .look fun v => .setNode (some (.apply (.identifier callee) v.node.toList)) (next mark)
  | .optional, mark, next => mapNode Expr.setOptional (next mark)
  | .rename suffix, mark, next =>
    mapNode (fun
      | .identifier name => .identifier (name ++ suffix)
      | other => other) (next mark)
  | .advance count, mark, next => .advance count (next mark)
  | .mark, _, next => .look fun v => next v.cursor.index
  | .take, mark, next =>
    .look fun v => .setNode (some (.identifier (v.cursor.slice mark v.cursor.index))) (next mark)
  | .read entry drop keep, mark, next =>
    .enter entry fun
      | .ok node => if drop then .note (.node node) (next mark) else .setNode node (next mark)
      | .error failure => if keep then .note (.failure failure) (next mark) else .fail failure
  | .error description index, _, _ =>
    .look fun v => .fail ⟨.reported description, index.getD v.cursor.index⟩
  | .branch conditions yes no, mark, next =>
    .look fun v => if allHold conditions v then scriptOf yes mark next else scriptOf no mark next
  | .loop conditions body, mark, next =>
    Script.repeatWhile (allHold conditions) (fun mark again => scriptOf body mark again) next
      loopBound mark

/-- The script of several instructions. -/
def scriptOf : List Instruction → Nat → (Nat → Script) → Script
  | [], mark, next => next mark
  | i :: is, mark, next => i.script mark fun mark => scriptOf is mark next

end

/-- The script of a recipe. -/
def script (recipe : List Instruction) : Script :=
  .look fun v => scriptOf recipe v.cursor.index fun _ => .done

end Recipe

end OperatorGrammar
