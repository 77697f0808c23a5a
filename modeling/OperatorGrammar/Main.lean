/-
OperatorGrammar/Main.lean

The command line program: fetches the arguments and the input, and prints.
-/
import OperatorGrammar.CommandLine.Run

namespace OperatorGrammar

/-- The bytes of the source of a command. -/
def fetch : InputSource → IO (Except ReadFailure ByteArray)
  | .standardInput => do
    try
      return .ok (← (← IO.getStdin).readBinToEnd)
    catch e => return .error (.other e.toString)
  | .file path => do
    try
      return .ok (← IO.FS.readBinFile path)
    catch
      | .noFileOrDirectory _ _ _ => return .error .notFound
      | .inappropriateType _ _ _ => return .error .isDirectory
      | e => return .error (.other e.toString)
  | _ => return .ok .empty

end OperatorGrammar

open OperatorGrammar in
/-- Carries out the command of the arguments. -/
def main (arguments : List String) : IO UInt32 := do
  match Arguments.ofList arguments with
  | .error .helpRequested =>
    IO.println "usage: parse <EXPR> | parse -f <FILE> | check <EXPR> | check -f <FILE>"
    return 0
  | .error _ =>
    IO.eprintln "usage: parse <EXPR> | parse -f <FILE> | check <EXPR> | check -f <FILE>"
    return 2
  | .ok a =>
    let terminal ← (← IO.getStderr).isTty
    let outcome := a.run terminal (← fetch a.source)
    IO.print outcome.output
    IO.eprint outcome.diagnostics
    return UInt32.ofNat outcome.code
