/-
OperatorGrammar/CommandLine/Run.lean

What a command does with its input: the texts for the two output channels and
the exit code.

Design.  A run has two halves.  The arguments say where the text comes from, and
whoever carries out the command fetches it; the rest is a function of the
arguments and of what was fetched.  The text is fetched before the dialect is
built, so of two failures the one of the input is reported.
-/
import OperatorGrammar.CommandLine.Arguments
import OperatorGrammar.Expr.Display
import OperatorGrammar.Expr.Json
import OperatorGrammar.Report.Excerpt

namespace OperatorGrammar

/-- Why a text cannot be fetched. -/
inductive ReadFailure where
  | notFound
  | isDirectory
  | invalidEncoding
  /-- Anything else, in the words of the system. -/
  | other (description : String)
  deriving DecidableEq, Repr

/-- The wording of a failure. -/
def ReadFailure.message : ReadFailure → String
  | notFound => "No such file or directory (os error 2)"
  | isDirectory => "Is a directory (os error 21)"
  | invalidEncoding => "stream did not contain valid UTF-8"
  | other description => description

/-- The text of some bytes. -/
def decodeText (bytes : ByteArray) : Except ReadFailure String :=
  match String.fromUTF8? bytes with
  | some text => .ok text
  | none => .error .invalidEncoding

/-- Where the text of a command comes from. -/
inductive InputSource where
  | inline (text : String)
  | standardInput
  | file (path : String)
  | missing
  deriving DecidableEq, Repr

/-- Where the text of a command comes from; an expression goes before a file. -/
def Arguments.source (a : Arguments) : InputSource :=
  match a.expr, a.file with
  | some text, _ => .inline text
  | none, some path => if path = "-" then .standardInput else .file path
  | none, none => .missing

/-- A text, and the file that it comes from. -/
structure Input where
  text : String
  path : Option String
  deriving DecidableEq, Repr

/-- Why a command has no text. -/
inductive InputFailure where
  | missing
  | standardInput (failure : ReadFailure)
  | file (path : String) (failure : ReadFailure)
  deriving DecidableEq, Repr

/-- The wording of a failure. -/
def InputFailure.message : InputFailure → String
  | missing => "expression is required: use a positional argument or -f/--file"
  | standardInput failure => "failed to read stdin: " ++ failure.message
  | file path failure => "failed to read '" ++ path ++ "': " ++ failure.message

/-- The input of a command, from the bytes that its source gave. -/
def InputSource.load (fetched : Except ReadFailure ByteArray) : InputSource → Except InputFailure Input
  | inline text => .ok ⟨text, none⟩
  | missing => .error .missing
  | standardInput =>
    match fetched.bind decodeText with
    | .ok text => .ok ⟨text, none⟩
    | .error failure => .error (.standardInput failure)
  | file path =>
    match fetched.bind decodeText with
    | .ok text => .ok ⟨text, some path⟩
    | .error failure => .error (.file path failure)

/-- A failure of an input, rendered against it. -/
def Input.render (input : Input) (failure : Failure) (coloured : Bool) : String :=
  Report.render failure ⟨some input.text, input.path, coloured⟩

/-- What a command leaves behind. -/
structure Outcome where
  code : Nat
  output : String
  diagnostics : String
  deriving DecidableEq, Repr

/-- A failed command with a message. -/
def Outcome.failed (message : String) : Outcome :=
  ⟨1, "", "error: " ++ message ++ "\n"⟩

/-- Whether diagnostics are coloured. -/
def ColourChoice.coloured (terminal : Bool) : ColourChoice → Bool
  | auto => terminal
  | always => true
  | never => false

namespace Arguments

/-- What a command shows of a tree. -/
def shown (a : Arguments) (tree : Option Expr) : String :=
  match a.command with
  | .check => ""
  | .parse =>
    if a.json then (Expr.optionToJson tree).pretty 0 ++ "\n" else Expr.dump .written tree

/-- Carries out a command on what its source gave.  `terminal` says whether the
diagnostics go to one. -/
def run (a : Arguments) (terminal : Bool) (fetched : Except ReadFailure ByteArray) : Outcome :=
  match a.source.load fetched with
  | .error failure => .failed failure.message
  | .ok input =>
    match a.grammar.dialect with
    | .error failure => .failed failure.message
    | .ok dialect =>
      match dialect.parse input.text with
      | some (.ok tree) => ⟨0, a.shown tree, ""⟩
      | some (.error failure) =>
        ⟨1, "", input.render failure (a.colour.coloured terminal) ++ "\n"⟩
      -- The bundled callbacks always come to rest.
      | none => ⟨1, "", ""⟩

end Arguments

end OperatorGrammar
